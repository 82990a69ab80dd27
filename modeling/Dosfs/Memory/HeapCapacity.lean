import Mathlib.Data.List.Chain
import Dosfs.Memory.HeapRuns

/-!
# The heap keeps its capacity

Splitting a block and joining free blocks move bytes between blocks, headers
included; only growing adds some. Neighbours that are both free never stay
apart, so once nothing is live the blocks are a single free one.
-/

namespace Dosfs

open Foundation LinkedList

variable {σ : Type} {grab : Nat → σ → Bool × σ} {credits : σ → Nat} {blocks blocks' : List Block}
  {live : Live} {total : Nat}

/-- Behind a free block comes a block in use. -/
def Coalesced (blocks : List Block) : Prop :=
  blocks.IsChain fun b c => b.2.free = true → c.2.free = false

/-- No two neighbours are free, the capacity is known, and every block in use is
the memory of a live pointer. -/
structure Tidy (blocks : List Block) (live : Live) (total : Nat) : Prop where
  coalesced : Coalesced blocks
  total : capacity blocks = total
  used : ∀ b ∈ blocks, b.2.free = false → b.1 + blockSize ∈ live.map Prod.fst

/-! ## Allocating -/

/-- A block in use has any neighbours. -/
theorem Coalesced.append_used {pre post : List Block} {b : Block} (hpre : Coalesced pre)
    (hpost : Coalesced post) (hb : b.2.free = false) : Coalesced (pre ++ b :: post) := by
  refine List.isChain_append.2 ⟨hpre, List.isChain_cons.2 ⟨fun c _ hfree => ?_, hpost⟩, ?_⟩
  · exact absurd (hb.symm.trans hfree) (by decide)
  · rintro c _ d hd _
    obtain rfl := Option.some.inj hd
    exact hb

/-- A free block has neighbours in use. -/
theorem Coalesced.append_free {pre post : List Block} {b : Block} (hpre : Coalesced pre)
    (hpost : Coalesced post) (hlast : ∀ c ∈ pre.getLast?, c.2.free = false)
    (hfirst : ∀ c ∈ post.head?, c.2.free = false) : Coalesced (pre ++ b :: post) := by
  refine List.isChain_append.2 ⟨hpre, List.isChain_cons.2 ⟨fun c hc _ => hfirst c hc, hpost⟩, ?_⟩
  rintro c hc d - hfree
  exact absurd ((hlast c hc).symm.trans hfree) (by decide)

theorem Coalesced.parts {pre post : List Block} {b : Block} (h : Coalesced (pre ++ b :: post))
    (hb : b.2.free = true) :
    Coalesced pre ∧ Coalesced post ∧ (∀ c ∈ pre.getLast?, c.2.free = false) ∧
      ∀ c ∈ post.head?, c.2.free = false := by
  obtain ⟨hpre, hrest, hmeet⟩ := List.isChain_append.1 h
  obtain ⟨hnext, hpost⟩ := List.isChain_cons.1 hrest
  refine ⟨hpre, hpost, fun c hc => ?_, fun c hc => hnext c hc hb⟩
  -- a free block before a free one is excluded
  cases hfree : c.2.free with
  | false => rfl
  | true => exact absurd (hb.symm.trans (hmeet c hc b rfl hfree)) (by decide)

theorem Coalesced.serves {r gained : Nat} (h : Coalesced blocks)
    (hserves : Serves blocks r gained blocks') : Coalesced blocks' := by
  cases hserves with
  | refused => exact h
  | grown block hused => exact h.append_used List.IsChain.nil hused
  | @taken pre post rest b data hblocks hfree hused hrest _ =>
      subst hblocks
      obtain ⟨hpre, hpost, -, hfirst⟩ := h.parts hfree
      rw [List.append_assoc, List.cons_append]
      refine hpre.append_used ?_ hused
      -- at most one block was cut off, and it lies before the next block in use
      match rest, hrest.1 with
      | [], _ => exact hpost
      | [c], _ =>
          exact @append_free [] post c List.IsChain.nil hpost (fun d hd => by cases hd) hfirst

theorem Serves.capacity_eq {r gained : Nat} (h : Serves blocks r gained blocks') :
    capacity blocks' = capacity blocks + gained := by
  cases h with
  | refused => rfl
  | grown block => simp
  | taken hblocks _ _ _ hextent =>
      subst hblocks
      simp only [capacity_append, capacity_cons]
      omega

/-- The blocks in use are those from before and the one that was handed out. -/
theorem Serves.used {r gained : Nat} (h : Serves blocks r gained blocks') {c : Block}
    (hc : c ∈ blocks') (hused : c.2.free = false) :
    c ∈ blocks ∨ (r ≠ 0 ∧ c.1 + blockSize = r) := by
  cases h with
  | refused => exact Or.inl hc
  | grown block =>
      rcases List.mem_append.1 hc with hc | hc
      · exact Or.inl hc
      · obtain rfl := List.mem_singleton.1 hc
        exact Or.inr ⟨by simp [blockSize], rfl⟩
  | taken hblocks _ _ hrest =>
      subst hblocks
      simp only [List.append_assoc, List.cons_append, List.mem_append, List.mem_cons] at hc
      rcases hc with hc | rfl | hc | hc
      · exact Or.inl (by simp [hc])
      · exact Or.inr ⟨by simp [blockSize], rfl⟩
      · exact absurd ((hrest.2 c hc).symm.trans hused) (by decide)
      · exact Or.inl (by simp [hc])

/-- An allocation keeps the blocks tidy. -/
theorem Tidy.serve (h : Tidy blocks live total) {r gained : Nat}
    (hserves : Serves blocks r gained blocks') (size : Nat) :
    Tidy blocks' (hold r size live) (total + gained) where
  coalesced := h.coalesced.serves hserves
  total := by rw [hserves.capacity_eq, h.total]
  used c hc hused := by
    unfold hold
    rcases hserves.used hc hused with hold | ⟨hnotNull, rfl⟩
    · have hmem := h.used c hold hused
      split
      next => exact hmem
      next => exact List.mem_cons_of_mem _ hmem
    · rw [if_neg hnotNull]
      exact List.mem_cons_self

/-! ## Freeing -/

theorem Coalesced.freed {pre post : List Block} {b : Block} (h : Coalesced (pre ++ b :: post)) :
    Coalesced (freed pre b post) := by
  obtain ⟨pre', x, post', heq, -, -, hbefore, hbehind⟩ := freed_shape pre b post
  obtain ⟨hpre, hrest, -⟩ := List.isChain_append.1 h
  have hpost : Coalesced post := (List.isChain_cons.1 hrest).2
  rw [heq]
  have hleft : Coalesced pre' ∧ ∀ c ∈ pre'.getLast?, c.2.free = false := by
    rcases hbefore with ⟨rfl, hlast⟩ | ⟨c, rfl, hfree⟩
    · exact ⟨hpre, hlast⟩
    · obtain ⟨hchain, -, hlast, -⟩ := Coalesced.parts hpre hfree
      exact ⟨hchain, hlast⟩
  have hright : Coalesced post' ∧ ∀ c ∈ post'.head?, c.2.free = false := by
    rcases hbehind with ⟨rfl, hfirst⟩ | ⟨c, rfl, hfree⟩
    · exact ⟨hpost, hfirst⟩
    · obtain ⟨-, hchain, -, hfirst⟩ := @Coalesced.parts [] post' c hpost hfree
      exact ⟨hchain, hfirst⟩
  exact hleft.1.append_free hright.1 hleft.2 hright.2

/-- Freeing a block keeps the blocks tidy. -/
theorem Tidy.free {pre post : List Block} {b : Block} (h : Tidy (pre ++ b :: post) live total)
    {lo hi : Nat} (hplaced : Placed extent lo (pre ++ b :: post) hi) :
    Tidy (freed pre b post) (release (b.1 + blockSize) live) total where
  coalesced := h.coalesced.freed
  total := by
    obtain ⟨-, -, -, -, -, hcapacity, -⟩ := freed_shape pre b post
    rw [hcapacity, h.total]
  used c hc hused := by
    have hmem := (mem_freed_iff hused).1 hc
    -- the other blocks have other addresses
    have hne : c.1 ≠ b.1 := by
      obtain ⟨-, hrest, hbefore⟩ := List.pairwise_append.1 hplaced.pairwise
      rcases hmem with hc | hc
      · have hlt := hbefore c hc b List.mem_cons_self
        simp only [extent, blockSize] at hlt
        omega
      · have hlt := List.rel_of_pairwise_cons hrest hc
        simp only [extent, blockSize] at hlt
        omega
    have hlive := h.used c (by simp only [List.mem_append, List.mem_cons]; tauto) hused
    obtain ⟨e, he, heq⟩ := List.mem_map.1 hlive
    refine List.mem_map.2 ⟨e, List.mem_filter.2 ⟨he, ?_⟩, heq⟩
    exact decide_eq_true fun hptr => hne (Nat.add_right_cancel (heq.symm.trans hptr))

theorem Tidy.mono (h : Tidy blocks live total) {live' : Live}
    (hsub : ∀ e ∈ live, e.1 ∈ live'.map Prod.fst) : Tidy blocks live' total where
  coalesced := h.coalesced
  total := h.total
  used b hb hused := by
    obtain ⟨e, he, heq⟩ := List.mem_map.1 (h.used b hb hused)
    exact heq ▸ hsub e he

/-- Resizing a block keeps the blocks tidy. -/
theorem Tidy.reallocate {credits : σ → Nat} {h : Heap σ} (hinv : HeapInv credits h blocks live)
    (htidy : Tidy blocks live total) {ptr size r gained : Nat}
    (hchange : Reallocates blocks ptr size r gained blocks') :
    Tidy blocks' (reallocated ptr size r live) (total + gained) := by
  have hnull := hinv.release_null
  cases hchange with
  | kept =>
      refine htidy.mono fun e he => ?_
      unfold reallocated
      by_cases hptr : ptr = 0
      · simp only [hptr, hnull, ne_eq, not_true_eq_false, if_false, ite_self]
        exact List.mem_map_of_mem he
      · rw [if_pos hptr, List.map_cons, List.mem_cons]
        by_cases heq : e.1 = ptr
        · exact Or.inl heq
        · exact Or.inr (List.mem_map_of_mem (List.mem_filter.2 ⟨he, decide_eq_true heq⟩))
  | served hserves hptr =>
      have hserved := htidy.serve hserves size
      rcases hptr with rfl | ⟨rfl, hsize⟩
      · rw [reallocated, hnull, ite_self]
        rw [hold] at hserved
        by_cases hr : r = 0
        · rw [if_neg (not_not.2 hr)]
          rwa [if_pos hr] at hserved
        · rw [if_pos hr]
          rwa [if_neg hr] at hserved
      · rw [reallocated, if_neg (not_not.2 rfl), if_neg hsize]
        exact hserved
  | freed hzero hblocks haddr =>
      subst hblocks
      rw [reallocated, if_neg (not_not.2 rfl), if_pos hzero, ← haddr]
      exact htidy.free hinv.list.placed
  | moved hnotNull hserves haddr hplaced =>
      have hserved := htidy.serve hserves size
      rw [hold, if_neg hnotNull] at hserved
      refine (hserved.free hplaced).mono fun e he => ?_
      rw [haddr] at he
      obtain ⟨he, hne⟩ := List.mem_filter.1 he
      rw [reallocated, if_pos hnotNull]
      rcases List.mem_cons.1 he with rfl | he
      · exact List.mem_cons_self
      · exact List.mem_cons_of_mem _ (List.mem_map_of_mem (List.mem_filter.2 ⟨he, hne⟩))

/-- With nothing live, one free block is left, or none. -/
theorem Tidy.of_nothing_live (h : Tidy blocks [] total) :
    (blocks = [] ∧ total = 0) ∨
      ∃ b, blocks = [b] ∧ b.2.free = true ∧ blockSize + b.2.size = total := by
  have hfree (b : Block) (hb : b ∈ blocks) : b.2.free = true := by
    cases hused : b.2.free with
    | true => rfl
    | false => exact absurd (h.used b hb hused) List.not_mem_nil
  have htotal := h.total
  match blocks, h.coalesced with
  | [], _ => exact Or.inl ⟨rfl, htotal.symm⟩
  | [b], _ => exact Or.inr ⟨b, rfl, hfree b List.mem_cons_self, by simpa [extent] using htotal⟩
  | b :: c :: rest, hchain =>
      have hnext := (List.isChain_cons.1 hchain).1 c rfl (hfree b List.mem_cons_self)
      exact absurd ((hfree c (by simp)).symm.trans hnext) (by decide)

/-! ## Runs -/

/-- The bytes a call adds to the list of blocks. -/
def HeapOp.growth (grab : Nat → σ → Bool × σ) : HeapOp → HeapState σ → Nat
  | .kmalloc size, s => kmallocGrowth grab size s.heap
  | .kmallocAligned size, s => kmallocAlignedGrowth grab size s.heap
  | .krealloc ptr size, s => kreallocGrowth grab ptr size s.heap
  | .kfree _, _ => 0

/-- Perform a call, and add up the bytes. -/
def stepCounted (grab : Nat → σ → Bool × σ) (op : HeapOp) (s : HeapState σ × Nat) :
    Option (Nat × HeapState σ × Nat) :=
  (stepHeap grab op s.1).map fun (r, s') => (r, s', s.2 + op.growth grab s.1)

theorem stepHeap_tidy (hbudget : PageBudget grab credits) (op : HeapOp) {s : HeapState σ}
    (hinv : HeapInv credits s.heap blocks s.live) (htidy : Tidy blocks s.live total)
    (hfits : op.Fits s) :
    ∃ r s' blocks', stepHeap grab op s = some (r, s') ∧ HeapInv credits s'.heap blocks' s'.live ∧
      Tidy blocks' s'.live (total + op.growth grab s) := by
  cases op with
  | kmalloc size =>
      obtain ⟨r, h', blocks', heq, hinv', hserves⟩ :=
        kmalloc_serves hbudget hinv hfits
      exact ⟨r, ⟨h', hold r size s.live⟩, blocks', by rw [stepHeap, heq]; rfl, hinv',
        htidy.serve hserves size⟩
  | kmallocAligned size =>
      obtain ⟨r, h', blocks', heq, hinv', hserves⟩ :=
        kmallocAligned_serves hbudget hinv hfits
      exact ⟨r, ⟨h', hold r size s.live⟩, blocks', by rw [stepHeap, heq]; rfl, hinv',
        htidy.serve hserves size⟩
  | krealloc ptr size =>
      obtain ⟨r, h', blocks', heq, hinv', hchange⟩ :=
        krealloc_spec hbudget hinv hfits.1 hfits.2
      exact ⟨r, ⟨h', reallocated ptr size r s.live⟩, blocks', by rw [stepHeap, heq]; rfl, hinv',
        htidy.reallocate hinv hchange⟩
  | kfree ptr =>
      rcases hfits with rfl | hptr
      · refine ⟨0, _, blocks, rfl, ?_, ?_⟩
        · rw [hinv.release_null]
          exact hinv
        · rw [hinv.release_null]
          exact htidy
      · obtain ⟨pre, b, post, rfl, haddr, -, hinv'⟩ := kfree_spec hinv hptr
        refine ⟨0, _, _, rfl, hinv', ?_⟩
        rw [← haddr]
        exact htidy.free hinv.list.placed

theorem initialBlocks_tidy (mapped : Nat) : Tidy (initialBlocks mapped) [] (mapped * pageSize) := by
  unfold initialBlocks
  split
  next hnone => exact ⟨List.IsChain.nil, by simp [hnone], fun b hb => absurd hb List.not_mem_nil⟩
  next hmapped =>
    refine ⟨List.IsChain.singleton _, ?_, fun b hb hused => ?_⟩
    · simp only [capacity_cons, capacity_nil, extent, blockSize, pageSize]
      omega
    · obtain rfl := List.mem_singleton.1 hb
      cases hused

/-- In every run after `heap_init`: free blocks are never neighbours, the bytes
of the blocks are those from the start and those that growing added, and with
nothing live the blocks are one free block of that size, or none. -/
theorem heap_capacity_conserved (hbudget : PageBudget grab credits) (mem : Memory) (pages : σ)
    (hpages : credits pages ≤ 65536) (ops : List HeapOp)
    (hallowed : Throughout (stepCounted grab) (fun op s => op.Allowed s.1) ops
      (⟨heapInit grab mem pages, []⟩, initialPages grab mem pages * pageSize)) :
    ∃ rs s total blocks, runAll (stepCounted grab) ops
        (⟨heapInit grab mem pages, []⟩, initialPages grab mem pages * pageSize) =
          some (rs, s, total) ∧
      HeapWellFormed s.heap s.live blocks ∧ Coalesced blocks ∧ capacity blocks = total ∧
      (s.live = [] → (blocks = [] ∧ total = 0) ∨
        ∃ b, blocks = [b] ∧ b.2.free = true ∧ blockSize + b.2.size = total) := by
  let inv (s : HeapState σ × Nat) : Prop :=
    ∃ blocks, HeapInv credits s.1.heap blocks s.1.live ∧ Tidy blocks s.1.live s.2
  have hstep (op : HeapOp) (s : HeapState σ × Nat) (hs : inv s) (hop : op.Allowed s.1) :
      ∃ r s', stepCounted grab op s = some (r, s') ∧ inv s' := by
    obtain ⟨blocks, hinv, htidy⟩ := hs
    obtain ⟨r, s', blocks', heq, hinv', htidy'⟩ := stepHeap_tidy hbudget op hinv htidy hop.fits
    have hcounted : stepCounted grab op s = some (r, s', s.2 + op.growth grab s.1) := by
      rw [stepCounted, heq]
      rfl
    exact ⟨r, _, hcounted, blocks', hinv', htidy'⟩
  obtain ⟨rs, ⟨s, total⟩, hrun, blocks, hinv, htidy⟩ := runAll_returns_throughout inv hstep hallowed
    ⟨_, heapInit_blocks hbudget mem pages hpages, initialBlocks_tidy _⟩
  refine ⟨rs, s, total, blocks, hrun, hinv.wellFormed, htidy.coalesced, htidy.total,
    fun hlive => ?_⟩
  dsimp only at htidy
  rw [hlive] at htidy
  exact htidy.of_nothing_live

theorem heap_capacity_conserved_countdown :
    Throughout (stepCounted countdown) (fun op s => op.Allowed s.1) [.kmalloc 5, .kfree 0x400014]
        (⟨heapInit countdown (fun _ => 0) 100, []⟩,
          initialPages countdown (fun _ => 0) 100 * pageSize) ∧
      ∃ rs s total blocks, runAll (stepCounted countdown) [.kmalloc 5, .kfree 0x400014]
          (⟨heapInit countdown (fun _ => 0) 100, []⟩,
            initialPages countdown (fun _ => 0) 100 * pageSize) = some (rs, s, total) ∧
        HeapWellFormed s.heap s.live blocks ∧ Coalesced blocks ∧ capacity blocks = total ∧
        (s.live = [] → (blocks = [] ∧ total = 0) ∨
          ∃ b, blocks = [b] ∧ b.2.free = true ∧ blockSize + b.2.size = total) := by
  have hlive : (stepCounted countdown (.kmalloc 5)
      (⟨heapInit countdown (fun _ => 0) 100, []⟩,
        initialPages countdown (fun _ => 0) 100 * pageSize)).map
        (fun result => result.2.1.live) = some [(0x400014, 5)] := by
    decide +kernel
  have hallowed : Throughout (stepCounted countdown) (fun op s => op.Allowed s.1)
      [.kmalloc 5, .kfree 0x400014] (⟨heapInit countdown (fun _ => 0) 100, []⟩,
        initialPages countdown (fun _ => 0) 100 * pageSize) := by
    refine ⟨show 5 ≤ 2 ^ 31 - 1 by decide, fun r s hstep => ⟨Or.inr ?_, fun _ _ _ => trivial⟩⟩
    rw [hstep] at hlive
    rw [show s.1.live = [(0x400014, 5)] from Option.some.inj hlive]
    exact List.mem_singleton.2 rfl
  exact ⟨hallowed, heap_capacity_conserved countdown_budget _ 100 (by decide) _ hallowed⟩

end Dosfs
