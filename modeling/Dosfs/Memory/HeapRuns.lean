import Dosfs.Memory.HeapInvariant

/-!
# Runs of the heap

`heap_init` establishes the representation invariant and every call of its
users keeps it, as long as they free and resize live pointers only.
-/

namespace Dosfs

open Foundation LinkedList

variable {σ : Type} {grab : Nat → σ → Bool × σ} {credits : σ → Nat} {h : Heap σ}

/-! ## Initialisation -/

theorem initPages_spec (hbudget : PageBudget grab credits) (count : Nat)
    (hinv : HeapInv credits h [] []) :
    HeapInv credits (initPages grab count h).2 [] [] ∧
      (initPages grab count h).2.heapCurrent =
        h.heapCurrent + (initPages grab count h).1 * pageSize := by
  induction count generalizing h with
  | zero => exact ⟨hinv, (Nat.zero_mul pageSize).symm ▸ rfl⟩
  | succ count ih =>
      cases hok : (grab h.heapCurrent h.pages).1 with
      | false =>
          have hstep : initPages grab (count + 1) h =
              (0, { h with pages := (grab h.heapCurrent h.pages).2 }) := by
            rw [initPages]
            simp only [hok, Bool.not_false, if_true]
          rw [hstep]
          exact ⟨hinv.refuse hbudget hok, (Nat.zero_mul pageSize).symm ▸ rfl⟩
      | true =>
          obtain ⟨hwrap, hgrown⟩ := hinv.grant hbudget hok fun _ _ => rfl
          have hstep : initPages grab (count + 1) h =
              ((initPages grab count { h with
                heapCurrent := h.heapCurrent + pageSize
                pages := (grab h.heapCurrent h.pages).2 }).1 + 1,
              (initPages grab count { h with
                heapCurrent := h.heapCurrent + pageSize
                pages := (grab h.heapCurrent h.pages).2 }).2) := by
            rw [initPages]
            simp only [hok, Bool.not_true, Bool.false_eq_true, if_false, hwrap]
          obtain ⟨hfinal, hcurrent⟩ := ih hgrown
          rw [hstep]
          refine ⟨hfinal, hcurrent.trans ?_⟩
          rw [Nat.succ_mul]
          dsimp only
          omega

/-- The pages that `heap_init` maps. -/
def initialPages (grab : Nat → σ → Bool × σ) (mem : Memory) (pages : σ) : Nat :=
  (initPages grab (pagesFor (256 * 1024)) { mem, heapHead := 0, heapCurrent := heapStart, pages }).1

/-- The blocks after `heap_init`: none, or one free block. -/
def initialBlocks (mapped : Nat) : List Block :=
  if mapped = 0 then [] else [(heapStart, ⟨mapped * pageSize - blockSize, true, blockMagic⟩)]

theorem heapInit_blocks (hbudget : PageBudget grab credits) (mem : Memory) (pages : σ)
    (hpages : credits pages ≤ bitmapSize * 8) :
    HeapInv credits (heapInit grab mem pages) (initialBlocks (initialPages grab mem pages)) [] := by
  have hempty : HeapInv credits
      { mem, heapHead := 0, heapCurrent := heapStart, pages : Heap σ } [] [] := by
    refine ⟨⟨trivial, rfl, Nat.le_refl _, fun b hb => absurd hb List.not_mem_nil⟩,
      show heapStart % pageSize = 0 by decide, ?_,
      fun e he => absurd he List.not_mem_nil, List.nodup_nil⟩
    exact Nat.add_le_add_left (Nat.mul_le_mul_right _ hpages) _
  obtain ⟨hinv, hcurrent⟩ := initPages_spec hbudget (pagesFor (256 * 1024)) hempty
  unfold heapInit initialPages initialBlocks
  dsimp only
  generalize initPages grab (pagesFor (256 * 1024))
    { mem, heapHead := 0, heapCurrent := heapStart, pages } = result at hinv hcurrent ⊢
  obtain ⟨mapped, h⟩ := result
  dsimp only at hinv hcurrent ⊢
  split
  next => exact hinv
  next hmapped =>
    have hlt := hinv.current_lt
    have hsize : blockSize ≤ mapped * pageSize := by
      simp only [blockSize, pageSize]
      omega
    have hfirst := @blockAt_initBlock h.mem heapStart (mapped * pageSize - blockSize) 0 0 true
      (by omega) (by decide) (by decide)
    refine hinv.relist ⟨⟨hfirst, trivial⟩, rfl, ⟨Nat.le_refl _, ?_⟩, ?_⟩
      (fun e he => absurd he List.not_mem_nil) List.nodup_nil
    · change heapStart + extent _ ≤ h.heapCurrent
      simp only [extent]
      omega
    · intro b hb
      obtain rfl := List.mem_singleton.1 hb
      exact ⟨show heapStart % 4 = 0 by decide, rfl⟩

theorem heapInit_spec (hbudget : PageBudget grab credits) (mem : Memory) (pages : σ)
    (hpages : credits pages ≤ bitmapSize * 8) :
    ∃ blocks, HeapInv credits (heapInit grab mem pages) blocks [] :=
  ⟨_, heapInit_blocks hbudget mem pages hpages⟩

/-! ## Operations -/

/-- A call of a user of the heap. -/
inductive HeapOp
  | kmalloc (size : Nat)
  | kmallocAligned (size : Nat)
  | krealloc (ptr size : Nat)
  | kfree (ptr : Nat)

/-- The heap with the pointers its users hold. -/
structure HeapState (σ : Type) where
  heap : Heap σ
  live : Live

/-- The result of an allocation is live, unless it is null. -/
def hold (ptr size : Nat) (live : Live) : Live := if ptr = 0 then live else (ptr, size) :: live

/-- Perform a call; `none` when it does not return. -/
def stepHeap (grab : Nat → σ → Bool × σ) : HeapOp → HeapState σ → Option (Nat × HeapState σ)
  | .kmalloc size, s =>
      (kmalloc grab size s.heap).map fun (r, h) => (r, ⟨h, hold r size s.live⟩)
  | .kmallocAligned size, s =>
      (kmallocAligned grab size s.heap).map fun (r, h) => (r, ⟨h, hold r size s.live⟩)
  | .krealloc ptr size, s =>
      (krealloc grab ptr size s.heap).map fun (r, h) => (r, ⟨h, reallocated ptr size r s.live⟩)
  | .kfree ptr, s => some (0, ⟨kfree ptr s.heap, release ptr s.live⟩)

/-- The sizes are at most `2^31 - 1`, the pointers null or live. -/
def HeapOp.Allowed : HeapOp → HeapState σ → Prop
  | .kmalloc size, _ => size ≤ 2 ^ 31 - 1
  | .kmallocAligned size, _ => size ≤ 2 ^ 31 - 1
  | .krealloc ptr size, s => size ≤ 2 ^ 31 - 1 ∧ (ptr = 0 ∨ ptr ∈ s.live.map Prod.fst)
  | .kfree ptr, s => ptr = 0 ∨ ptr ∈ s.live.map Prod.fst

instance : (op : HeapOp) → (s : HeapState σ) → Decidable (op.Allowed s)
  | .kmalloc size, _ => inferInstanceAs (Decidable (size ≤ 2 ^ 31 - 1))
  | .kmallocAligned size, _ => inferInstanceAs (Decidable (size ≤ 2 ^ 31 - 1))
  | .krealloc ptr size, s =>
      inferInstanceAs (Decidable (size ≤ 2 ^ 31 - 1 ∧ (ptr = 0 ∨ ptr ∈ s.live.map Prod.fst)))
  | .kfree ptr, s => inferInstanceAs (Decidable (ptr = 0 ∨ ptr ∈ s.live.map Prod.fst))

/-- The sizes are mappable or refused, the pointers null or live. -/
def HeapOp.Fits : HeapOp → HeapState σ → Prop
  | .kmalloc size, _ => Mappable size
  | .kmallocAligned size, _ => Mappable size
  | .krealloc ptr size, s => Mappable size ∧ (ptr = 0 ∨ ptr ∈ s.live.map Prod.fst)
  | .kfree ptr, s => ptr = 0 ∨ ptr ∈ s.live.map Prod.fst

theorem HeapOp.Allowed.fits {op : HeapOp} {s : HeapState σ} (h : op.Allowed s) : op.Fits s := by
  cases op with
  | kmalloc size => exact mappable_of_le h
  | kmallocAligned size => exact mappable_of_le h
  | krealloc ptr size => exact ⟨mappable_of_le h.1, h.2⟩
  | kfree ptr => exact h

theorem stepHeap_inv (hbudget : PageBudget grab credits) (op : HeapOp) {s : HeapState σ}
    {blocks : List Block} (hinv : HeapInv credits s.heap blocks s.live) (hfits : op.Fits s) :
    ∃ r s' blocks', stepHeap grab op s = some (r, s') ∧
      HeapInv credits s'.heap blocks' s'.live := by
  cases op with
  | kmalloc size =>
      obtain ⟨r, h', heq, blocks', hinv', -⟩ := kmalloc_spec hbudget hinv hfits
      exact ⟨r, ⟨h', hold r size s.live⟩, blocks', by rw [stepHeap, heq]; rfl, hinv'⟩
  | kmallocAligned size =>
      obtain ⟨r, h', heq, blocks', hinv', -⟩ := kmallocAligned_spec hbudget hinv hfits
      exact ⟨r, ⟨h', hold r size s.live⟩, blocks', by rw [stepHeap, heq]; rfl, hinv'⟩
  | krealloc ptr size =>
      obtain ⟨r, h', blocks', heq, hinv', -⟩ := krealloc_spec hbudget hinv hfits.1 hfits.2
      exact ⟨r, ⟨h', reallocated ptr size r s.live⟩, blocks', by rw [stepHeap, heq]; rfl, hinv'⟩
  | kfree ptr =>
      rcases hfits with rfl | hptr
      · refine ⟨0, _, blocks, rfl, ?_⟩
        rw [hinv.release_null]
        exact hinv
      · obtain ⟨pre, b, post, -, -, -, hinv'⟩ := kfree_spec hinv hptr
        exact ⟨0, _, _, rfl, hinv'⟩

/-! ## The representation invariant -/

/-- The blocks from `heap_head` on are a finite list, linked in both directions,
in increasing order without overlaps inside the heap; every live pointer is the
memory of exactly one block in use, large enough for it; all memory is aligned. -/
structure HeapWellFormed (h : Heap σ) (live : Live) (blocks : List Block) : Prop where
  head : h.heapHead = firstAddr blocks 0
  linked : Segment (blockAt h.mem) 0 blocks 0
  prevOfNext : ∀ b ∈ blocks, (blockAt h.mem b.1).next ≠ 0 →
    ∃ c ∈ blocks, c.1 = (blockAt h.mem b.1).next ∧ (blockAt h.mem c.1).prev = b.1
  nextOfPrev : ∀ b ∈ blocks, (blockAt h.mem b.1).prev ≠ 0 →
    ∃ c ∈ blocks, c.1 = (blockAt h.mem b.1).prev ∧ (blockAt h.mem c.1).next = b.1
  increasing : blocks.Pairwise fun b c => b.1 < c.1
  disjoint : blocks.Pairwise fun b c => b.1 + blockSize + b.2.size ≤ c.1
  inside : ∀ b ∈ blocks, heapStart ≤ b.1 ∧ b.1 + blockSize + b.2.size ≤ h.heapCurrent
  owned : ∀ e ∈ live, ∃! b, b ∈ blocks ∧ b.1 + blockSize = e.1 ∧ b.2.free = false ∧
    e.2 ≤ b.2.size
  aligned : ∀ b ∈ blocks, (b.1 + blockSize) % 4 = 0

theorem HeapInv.wellFormed {blocks : List Block} {live : Live}
    (hinv : HeapInv credits h blocks live) : HeapWellFormed h live blocks where
  head := hinv.list.head
  linked := hinv.list.linked
  prevOfNext b hb hnext := (hinv.list.linked.prev_of_next hb).resolve_left hnext
  nextOfPrev b hb hprev := (hinv.list.linked.next_of_prev hb).resolve_left hprev
  increasing := hinv.list.placed.pairwise.imp fun hle => by
    simp only [extent, blockSize] at hle
    omega
  disjoint := hinv.list.placed.pairwise.imp fun hle => by
    rw [Nat.add_assoc]
    exact hle
  inside b hb := by
    rw [Nat.add_assoc]
    exact hinv.list.placed.bounds hb
  owned e he := by
    obtain ⟨b, hb, haddr, hused, hsize⟩ := hinv.owned e he
    refine ⟨b, ⟨hb, haddr, hused, hsize⟩, fun c hc => ?_⟩
    exact hinv.list.eq_of_addr hc.1 hb (Nat.add_right_cancel (hc.2.1.trans haddr.symm))
  aligned b hb := by
    have haddr := (hinv.list.sound b hb).1
    unfold blockSize
    omega

/-- Every run with such sizes returns and keeps the representation invariant. -/
theorem heap_run_inv (hbudget : PageBudget grab credits) (mem : Memory) (pages : σ)
    (hpages : credits pages ≤ 65536) (ops : List HeapOp)
    (hfits : Throughout (stepHeap grab) HeapOp.Fits ops ⟨heapInit grab mem pages, []⟩) :
    ∃ rs s blocks, runAll (stepHeap grab) ops ⟨heapInit grab mem pages, []⟩ = some (rs, s) ∧
      HeapInv credits s.heap blocks s.live := by
  have hstep (op : HeapOp) (s : HeapState σ)
      (hinv : ∃ blocks, HeapInv credits s.heap blocks s.live) (hop : op.Fits s) :
      ∃ r s', stepHeap grab op s = some (r, s') ∧
        ∃ blocks, HeapInv credits s'.heap blocks s'.live := by
    obtain ⟨blocks, hinv⟩ := hinv
    obtain ⟨r, s', blocks', heq, hinv'⟩ := stepHeap_inv hbudget op hinv hop
    exact ⟨r, s', heq, blocks', hinv'⟩
  obtain ⟨rs, s, hrun, blocks, hinv⟩ := runAll_returns_throughout
    (fun s => ∃ blocks, HeapInv credits s.heap blocks s.live) hstep hfits
    (heapInit_spec hbudget mem pages hpages)
  exact ⟨rs, s, blocks, hrun, hinv⟩

/-- Every run of the heap after `heap_init` returns, in a well-formed heap. -/
theorem heap_run_wellFormed (hbudget : PageBudget grab credits) (mem : Memory) (pages : σ)
    (hpages : credits pages ≤ 65536) (ops : List HeapOp)
    (hallowed : Throughout (stepHeap grab) HeapOp.Allowed ops ⟨heapInit grab mem pages, []⟩) :
    ∃ rs s blocks, runAll (stepHeap grab) ops ⟨heapInit grab mem pages, []⟩ = some (rs, s) ∧
      HeapWellFormed s.heap s.live blocks := by
  obtain ⟨rs, s, blocks, hrun, hinv⟩ := heap_run_inv hbudget mem pages hpages ops
    (hallowed.mono fun _ _ hop => hop.fits)
  exact ⟨rs, s, blocks, hrun, hinv.wellFormed⟩

/-- A source of pages that counts down. -/
def countdown (_ : Nat) : Nat → Bool × Nat
  | 0 => (false, 0)
  | count + 1 => (true, count)

theorem countdown_budget : PageBudget countdown id where
  granted _ s hok := by
    cases s with
    | zero => exact absurd hok Bool.false_ne_true
    | succ count => exact Nat.le_refl _
  refused _ s _ := by
    cases s with
    | zero => exact Nat.le_refl _
    | succ count => exact Nat.le_succ _

theorem heap_run_wellFormed_countdown :
    Throughout (stepHeap countdown) HeapOp.Allowed [.kmalloc 5, .kfree 0x400014]
        ⟨heapInit countdown (fun _ => 0) 100, []⟩ ∧
      ∃ rs s blocks, runAll (stepHeap countdown) [.kmalloc 5, .kfree 0x400014]
          ⟨heapInit countdown (fun _ => 0) 100, []⟩ = some (rs, s) ∧
        HeapWellFormed s.heap s.live blocks := by
  have hlive : (stepHeap countdown (.kmalloc 5) ⟨heapInit countdown (fun _ => 0) 100, []⟩).map
      (fun result => result.2.live) = some [(0x400014, 5)] := by
    decide +kernel
  have hallowed : Throughout (stepHeap countdown) HeapOp.Allowed [.kmalloc 5, .kfree 0x400014]
      ⟨heapInit countdown (fun _ => 0) 100, []⟩ := by
    refine ⟨show 5 ≤ 2 ^ 31 - 1 by decide, fun r s hstep => ⟨Or.inr ?_, fun _ _ _ => trivial⟩⟩
    rw [hstep] at hlive
    rw [show s.live = [(0x400014, 5)] from Option.some.inj hlive]
    exact List.mem_singleton.2 rfl
  exact ⟨hallowed, heap_run_wellFormed countdown_budget _ 100 (by decide) _ hallowed⟩

end Dosfs
