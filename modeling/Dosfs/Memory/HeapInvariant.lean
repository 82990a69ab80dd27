import Dosfs.Foundation.Run
import Dosfs.Memory.HeapBlocks

/-!
# The heap keeps its blocks in order

The representation invariant of the heap, over every run of its operations. The
source of pages may refuse at any time. What it grants in all is bounded, so the
addresses of the heap never wrap.
-/

namespace Dosfs

open Foundation LinkedList

variable {σ : Type}

/-- The source of pages spends a credit for each page it grants. -/
structure PageBudget (grab : Nat → σ → Bool × σ) (credits : σ → Nat) : Prop where
  granted : ∀ virt s, (grab virt s).1 = true → credits (grab virt s).2 + 1 ≤ credits s
  refused : ∀ virt s, (grab virt s).1 = false → credits (grab virt s).2 ≤ credits s

/-- The memory that the callers hold: each pointer with the size it was
requested with. -/
abbrev Live := List (Nat × Nat)

/-- The blocks are in order, and every live pointer has a block of its own. The
pages still to be granted fit in the address space. -/
structure HeapInv (credits : σ → Nat) (h : Heap σ) (blocks : List Block) (live : Live) : Prop where
  list : BlockList h.mem h.heapHead blocks h.heapCurrent
  page : h.heapCurrent % pageSize = 0
  budget : h.heapCurrent + credits h.pages * pageSize ≤ heapStart + bitmapSize * 8 * pageSize
  owned : ∀ e ∈ live, ∃ b ∈ blocks, b.1 + blockSize = e.1 ∧ b.2.free = false ∧ e.2 ≤ b.2.size
  distinct : (live.map Prod.fst).Nodup

variable {grab : Nat → σ → Bool × σ} {credits : σ → Nat} {h : Heap σ} {blocks : List Block}
  {live : Live}

theorem HeapInv.current_lt (hinv : HeapInv credits h blocks live) : h.heapCurrent < 2 ^ 29 := by
  have hbudget := hinv.budget
  simp only [heapStart, bitmapSize, pageSize] at hbudget
  omega

/-! ## Walks -/

theorem BlockList.length_lt {mem : Memory} {head hi : Nat} (hlist : BlockList mem head blocks hi)
    (hhi : hi < 2 ^ 32) : blocks.length < listFuel := by
  have hlength := hlist.placed.length_mul_le blockSize fun _ => Nat.le_add_right _ _
  simp only [heapStart, blockSize] at hlength
  unfold listFuel
  omega

/-- The search finds the first free block that is large enough. -/
theorem findFreeBlock_cases {size : Nat} (hinv : HeapInv credits h blocks live) :
    findFreeBlock size h = some 0 ∨
    ∃ pre b post, blocks = pre ++ b :: post ∧ b.2.free = true ∧ size ≤ b.2.size ∧
      findFreeBlock size h = some b.1 := by
  have hlist := hinv.list
  have hlt : h.heapCurrent < 2 ^ 32 := hinv.current_lt.trans (by decide)
  have hwalk := @walk_segment _ _ _ _ _ _ 0
    (fun block => block.data.free && decide (size ≤ block.data.size)) hlist.linked
    (fun b hb => hlist.ne_null hb) listFuel (hlist.length_lt hlt)
  rw [← hlist.head] at hwalk
  cases hfind : blocks.find? fun b =>
      (blockAt h.mem b.1).data.free && decide (size ≤ (blockAt h.mem b.1).data.size) with
  | none =>
      rw [hfind] at hwalk
      exact Or.inl hwalk
  | some b =>
      rw [hfind] at hwalk
      obtain ⟨hstop, pre, post, rfl, -⟩ := List.find?_eq_some_iff_append.1 hfind
      rw [hlist.linked.read_eq] at hstop
      obtain ⟨hfree, hsize⟩ := Bool.and_eq_true_iff.1 hstop
      exact Or.inr ⟨pre, b, post, rfl, hfree, of_decide_eq_true hsize, hwalk⟩

/-! ## Growing -/

theorem BlockList.frame {mem mem' : Memory} {head hi hi' : Nat}
    (hlist : BlockList mem head blocks hi) (hsame : ∀ x < hi, mem' x = mem x) (hle : hi ≤ hi') :
    BlockList mem' head blocks hi' where
  linked := hlist.linked.congr fun b hb => blockAt_congr fun x _ hx => by
    have hend := (hlist.placed.bounds hb).2
    unfold extent at hend
    exact hsame x (by omega)
  head := hlist.head
  placed := hlist.placed.mono (Nat.le_refl _) hle
  sound := hlist.sound

/-- One more page is granted. -/
theorem HeapInv.grant (hbudget : PageBudget grab credits) (hinv : HeapInv credits h blocks live)
    (hok : (grab h.heapCurrent h.pages).1 = true) {mem : Memory}
    (hsame : ∀ x < h.heapCurrent, mem x = h.mem x) :
    (h.heapCurrent + pageSize) % 2 ^ 32 = h.heapCurrent + pageSize ∧
      HeapInv credits { h with
        mem
        heapCurrent := h.heapCurrent + pageSize
        pages := (grab h.heapCurrent h.pages).2 } blocks live := by
  have hroom := hinv.budget
  have hspent := Nat.mul_le_mul_right pageSize (hbudget.granted _ _ hok)
  rw [Nat.succ_mul] at hspent
  refine ⟨Nat.mod_eq_of_lt ?_, hinv.list.frame hsame (Nat.le_add_right _ _), ?_, ?_, hinv.owned,
    hinv.distinct⟩
  · simp only [heapStart, bitmapSize, pageSize] at hroom hspent ⊢
    omega
  · rw [Nat.add_mod_right]
    exact hinv.page
  · dsimp only
    omega

theorem HeapInv.refuse (hbudget : PageBudget grab credits) (hinv : HeapInv credits h blocks live)
    (hok : (grab h.heapCurrent h.pages).1 = false) :
    HeapInv credits { h with pages := (grab h.heapCurrent h.pages).2 } blocks live := by
  refine ⟨hinv.list, hinv.page, ?_, hinv.owned, hinv.distinct⟩
  have hspent := Nat.mul_le_mul_right pageSize (hbudget.refused _ _ hok)
  exact Nat.le_trans (Nat.add_le_add_left hspent _) hinv.budget

/-- Growing keeps the blocks, and adds all the pages unless one is refused. -/
theorem growPages_spec (hbudget : PageBudget grab credits) (count : Nat)
    (hinv : HeapInv credits h blocks live) :
    HeapInv credits (growPages grab count h).2 blocks live ∧
      (growPages grab count h).2.heapHead = h.heapHead ∧
      (∀ x < h.heapCurrent, (growPages grab count h).2.mem x = h.mem x) ∧
      ((growPages grab count h).1 = true →
        (growPages grab count h).2.heapCurrent = h.heapCurrent + count * pageSize) := by
  induction count generalizing h with
  | zero => exact ⟨hinv, rfl, fun _ _ => rfl, fun _ => (Nat.zero_mul _).symm ▸ rfl⟩
  | succ count ih =>
      cases hok : (grab h.heapCurrent h.pages).1 with
      | false =>
          have hstep : growPages grab (count + 1) h =
              (false, { h with pages := (grab h.heapCurrent h.pages).2 }) := by
            rw [growPages]
            simp only [hok, Bool.not_false, if_true]
          rw [hstep]
          exact ⟨hinv.refuse hbudget hok, rfl, fun _ _ => rfl,
            fun hfalse => absurd hfalse Bool.false_ne_true⟩
      | true =>
          have hsame (x : Nat) (hx : x < h.heapCurrent) :
              memset h.mem h.heapCurrent 0 pageSize x = h.mem x :=
            Memory.overwrite_of_notMem (Or.inl hx)
          obtain ⟨hwrap, hgrown⟩ := hinv.grant hbudget hok hsame
          have hstep : growPages grab (count + 1) h = growPages grab count { h with
              mem := memset h.mem h.heapCurrent 0 pageSize
              heapCurrent := h.heapCurrent + pageSize
              pages := (grab h.heapCurrent h.pages).2 } := by
            rw [growPages]
            simp only [hok, Bool.not_true, Bool.false_eq_true, if_false, hwrap]
          obtain ⟨hfinal, hhead, hmem, hcurrent⟩ := ih hgrown
          rw [hstep]
          refine ⟨hfinal, hhead, fun x hx => ?_, fun hall => ?_⟩
          · exact (hmem x (Nat.lt_add_right _ hx)).trans (hsame x hx)
          · rw [hcurrent hall, Nat.succ_mul]
            dsimp only
            omega

/-! ## Appending a block -/

theorem initBlock_of_lt {mem : Memory} {block size next prev x : Nat} {free : Bool}
    (hx : x < block) : initBlock mem block size free next prev x = mem x := by
  unfold initBlock setPrev setNext setMagic setFree setSize Memory.storeByte Memory.storeLe
  rw [Memory.overwrite_of_notMem (by omega), Memory.overwrite_of_notMem (by omega),
    Memory.overwrite_of_notMem (by omega), Memory.overwrite_of_notMem (by omega),
    Memory.overwrite_of_notMem (by omega)]

/-- A block of its own behind all others, linked from the last one. -/
theorem BlockList.link_last {mem : Memory} {head block hi last : Nat} {init : List Block}
    {data lastData : BlockData}
    (hlist : BlockList mem head (init ++ [(last, lastData)]) block)
    (hnew : blockAt mem block = ⟨data, 0, 0⟩) (hend : block + extent data ≤ hi) (hhi : hi < 2 ^ 32)
    (hsound : block % 4 = 0 ∧ data.magic = blockMagic) :
    BlockList (setPrev (setNext mem last block) block last) head
      (init ++ [(last, lastData)] ++ [(block, data)]) hi := by
  have hread : blockAt mem last = ⟨lastData, 0, lastAddr init 0⟩ := hlist.linked.read_eq
  have hbounds := hlist.end_le
  unfold extent at hend hbounds
  have hfar : Far last block := Or.inr (by omega)
  constructor
  · rw [segment_append, segment_append]
    refine ⟨⟨?_, ?_, trivial⟩, ?_, trivial⟩
    · refine (segment_append.1 hlist.linked).1.congr fun b hb => ?_
      have hbefore := hlist.far_of_before hb
      have hbehind := (hlist.placed.bounds (x := b) (by simp [hb])).2
      unfold extent at hbehind
      rw [blockAt_setPrev_far (Or.inl (by omega)), blockAt_setNext_far hbefore]
    · rw [blockAt_setPrev_far hfar.symm, blockAt_setNext, hread,
        Nat.mod_eq_of_lt (show block < 2 ^ 32 by omega)]
      rfl
    · rw [blockAt_setPrev, blockAt_setNext_far hfar, hnew,
        Nat.mod_eq_of_lt (show last < 2 ^ 32 by omega), lastAddr_append]
      rfl
  · rw [firstAddr_append, hlist.head]
    cases init <;> rfl
  · exact placed_append.2 ⟨block, hlist.placed, Nat.le_refl _, hend⟩
  · intro b hb
    rcases List.mem_append.1 hb with hb | hb
    · exact hlist.sound b hb
    · obtain rfl := List.mem_singleton.1 hb
      exact hsound

/-- Appending links a new last block. -/
theorem appendBlock_spec {block size : Nat} (hlist : BlockList h.mem h.heapHead blocks block)
    (hend : block + (blockSize + size) ≤ h.heapCurrent) (hlt : h.heapCurrent < 2 ^ 32)
    (haligned : block % 4 = 0) :
    ∃ mem head, appendBlock block size h = some { h with mem, heapHead := head } ∧
      BlockList mem head (blocks ++ [(block, ⟨size, false, blockMagic⟩)]) h.heapCurrent := by
  have hstart := hlist.placed.le
  have hinit : BlockList (initBlock h.mem block size false 0 0) h.heapHead blocks block :=
    hlist.frame (fun x hx => initBlock_of_lt hx) (Nat.le_refl _)
  have hnew := @blockAt_initBlock h.mem block size 0 0 false (by omega) (by decide) (by decide)
  unfold appendBlock
  rcases List.eq_nil_or_concat blocks with rfl | ⟨init, ⟨last, lastData⟩, rfl⟩
  · refine ⟨_, block, if_neg (not_not.2 hlist.head), ⟨hnew, trivial⟩, rfl, ⟨hstart, hend⟩, ?_⟩
    intro b hb
    obtain rfl := List.mem_singleton.1 hb
    exact ⟨haligned, rfl⟩
  · rw [List.concat_eq_append] at hinit ⊢
    have hhead : h.heapHead ≠ 0 := by
      rw [hinit.head]
      cases init with
      | nil => exact hinit.ne_null (b := (last, lastData)) (by simp)
      | cons b init => exact hinit.ne_null (b := b) (by simp)
    have hwalk := walk_last hinit.linked (fun b hb => hinit.ne_null hb)
      (hinit.length_lt (by omega))
    rw [← hinit.head, lastAddr_append] at hwalk
    refine ⟨_, h.heapHead, ?_, hinit.link_last hnew hend hlt ⟨haligned, rfl⟩⟩
    rw [if_pos hhead, hwalk]
    rfl

/-! ## Sizes -/

theorem align4_eq (x : Nat) : align4 x = (x + 3) % 2 ^ 32 / 4 * 4 := by
  have hmask : ((x + 3) % 2 ^ 32) &&& 0xFFFFFFFC = (((x + 3) % 2 ^ 32) >>> 2) <<< 2 := by
    apply Nat.eq_of_testBit_eq
    intro i
    have hlow : Nat.testBit 0xFFFFFFFC i = (decide (2 ≤ i) && decide (i < 32)) := by
      rw [show 0xFFFFFFFC = (2 ^ 30 - 1) <<< 2 by decide, Nat.testBit_shiftLeft,
        Nat.testBit_two_pow_sub_one]
      by_cases hi : 2 ≤ i
      · have hiff : i - 2 < 30 ↔ i < 32 := by omega
        simp [hi, hiff]
      · simp [hi]
    rw [Nat.testBit_and, hlow, Nat.testBit_shiftLeft, Nat.testBit_shiftRight,
      Nat.testBit_mod_two_pow, Nat.testBit_mod_two_pow]
    by_cases hi : 2 ≤ i
    · have hsum : 2 + (i - 2) = i := by omega
      rw [hsum]
      by_cases hlt : i < 32 <;> simp [hi, hlt]
    · simp [hi]
  rw [align4, hmask, Nat.shiftLeft_eq, Nat.shiftRight_eq_div_pow]

theorem le_pagesFor {bytes : Nat} (hbytes : bytes ≤ 2 ^ 32 - pageSize) :
    bytes ≤ pagesFor bytes * pageSize := by
  simp only [pagesFor, pageSize] at *
  omega

/-- The sizes whose number of pages is computed without overflow, and those that
are refused at once. -/
def Mappable (size : Nat) : Prop := size < 0xFFFFEFED ∨ 0xFFFFFFFF - blockSize - 4 < size

theorem mappable_of_le {size : Nat} (hsize : size ≤ 2 ^ 31 - 1) : Mappable size :=
  Or.inl (by omega)

/-- What the guard of `kmalloc` lets through, rounded and with a header. -/
theorem Mappable.align4 {size : Nat} (hsize : Mappable size)
    (hguard : ¬ (size = 0 ∨ 0xFFFFFFFF - blockSize - 4 < size)) :
    align4 size % 4 = 0 ∧ size ≤ align4 size ∧
      blockSize + Dosfs.align4 size ≤ 2 ^ 32 - pageSize := by
  have hlt : size < 0xFFFFEFED := hsize.resolve_right fun h => hguard (Or.inr h)
  rw [align4_eq]
  simp only [blockSize, pageSize]
  omega

theorem pagesFor_lt (bytes : Nat) : pagesFor bytes * pageSize < 2 ^ 32 := by
  simp only [pagesFor, pageSize]
  omega

/-! ## Live pointers -/

theorem BlockList.eq_of_addr {mem : Memory} {head hi : Nat} (hlist : BlockList mem head blocks hi)
    {b c : Block} (hb : b ∈ blocks) (hc : c ∈ blocks) (haddr : b.1 = c.1) : b = c := by
  obtain ⟨pre, post, rfl⟩ := List.append_of_mem hb
  rcases List.mem_append.1 hc with hc | hc
  · have hend := hlist.end_le_of_before hc
    simp only [extent, blockSize] at hend
    omega
  · rcases List.mem_cons.1 hc with rfl | hc
    · rfl
    · have hend := hlist.end_le_of_after hc
      simp only [extent, blockSize] at hend
      omega

/-- Handing out a block in use that no live pointer refers to. -/
theorem HeapInv.give (hinv : HeapInv credits h blocks live) {b : Block} (hb : b ∈ blocks)
    (hused : b.2.free = false) {size : Nat} (hsize : size ≤ b.2.size)
    (hfresh : ∀ e ∈ live, e.1 ≠ b.1 + blockSize) :
    HeapInv credits h blocks ((b.1 + blockSize, size) :: live) where
  list := hinv.list
  page := hinv.page
  budget := hinv.budget
  owned e he := by
    rcases List.mem_cons.1 he with rfl | he
    · exact ⟨b, hb, rfl, hused, hsize⟩
    · exact hinv.owned e he
  distinct := by
    rw [List.map_cons, List.nodup_cons]
    refine ⟨fun hmem => ?_, hinv.distinct⟩
    obtain ⟨e, he, heq⟩ := List.mem_map.1 hmem
    exact hfresh e he heq

/-- A change of the blocks and of the live pointers. -/
theorem HeapInv.relist (hinv : HeapInv credits h blocks live) {mem : Memory} {head : Nat}
    {blocks' : List Block} {live' : Live} (hlist : BlockList mem head blocks' h.heapCurrent)
    (howned : ∀ e ∈ live', ∃ b ∈ blocks',
      b.1 + blockSize = e.1 ∧ b.2.free = false ∧ e.2 ≤ b.2.size)
    (hdistinct : (live'.map Prod.fst).Nodup) :
    HeapInv credits { h with mem, heapHead := head } blocks' live' :=
  ⟨hlist, hinv.page, hinv.budget, howned, hdistinct⟩

/-- A change of the blocks that keeps the blocks in use. -/
theorem HeapInv.change (hinv : HeapInv credits h blocks live) {mem : Memory} {head : Nat}
    {blocks' : List Block} (hlist : BlockList mem head blocks' h.heapCurrent)
    (hkept : ∀ b ∈ blocks, b.2.free = false → b ∈ blocks') :
    HeapInv credits { h with mem, heapHead := head } blocks' live := by
  refine hinv.relist hlist (fun e he => ?_) hinv.distinct
  obtain ⟨b, hb, haddr, hused, hsize⟩ := hinv.owned e he
  exact ⟨b, hkept b hb hused, haddr, hused, hsize⟩

/-! ## The operations -/

/-- The bytes of the blocks, with their headers. -/
def capacity (blocks : List Block) : Nat := (blocks.map fun b => extent b.2).sum

@[simp] theorem capacity_nil : capacity [] = 0 := rfl

@[simp] theorem capacity_cons (b : Block) : capacity (b :: blocks) = extent b.2 + capacity blocks :=
  List.sum_cons

@[simp] theorem capacity_append (blocks' : List Block) :
    capacity (blocks ++ blocks') = capacity blocks + capacity blocks' := by
  rw [capacity, List.map_append, List.sum_append, capacity, capacity]

/-- How an allocation that returned the pointer changes the list, and how many
bytes it adds: not at all when it is refused; a free block is taken, without the
rest that is cut off; or a block is appended. -/
inductive Serves (blocks : List Block) : Nat → Nat → List Block → Prop
  | refused : Serves blocks 0 0 blocks
  | taken {pre post rest : List Block} {b : Block} {data : BlockData}
      (hblocks : blocks = pre ++ b :: post) (hfree : b.2.free = true) (hused : data.free = false)
      (hrest : rest.length ≤ 1 ∧ ∀ c ∈ rest, c.2.free = true)
      (hextent : extent data + capacity rest = extent b.2) :
      Serves blocks (b.1 + blockSize) 0 (pre ++ (b.1, data) :: rest ++ post)
  | grown (block : Nat) {data : BlockData} (hused : data.free = false) :
      Serves blocks (block + blockSize) (extent data) (blocks ++ [(block, data)])

/-- The blocks in use stay. -/
theorem Serves.mem {r gained : Nat} {blocks' : List Block} (h : Serves blocks r gained blocks')
    {b : Block} (hb : b ∈ blocks) (hused : b.2.free = false) : b ∈ blocks' := by
  cases h with
  | refused => exact hb
  | grown => exact List.mem_append_left _ hb
  | taken hblocks hfree =>
      subst hblocks
      rcases List.mem_append.1 hb with hb | hb
      · simp [hb]
      · rcases List.mem_cons.1 hb with rfl | hb
        · exact absurd (hfree.symm.trans hused) (by simp)
        · simp [hb]

theorem Serves.of_null {gained : Nat} {blocks' : List Block} (h : Serves blocks 0 gained blocks') :
    gained = 0 ∧ blocks' = blocks := by
  generalize hr : 0 = r at h
  cases h with
  | refused => exact ⟨rfl, rfl⟩
  | taken => exact absurd hr (by simp [blockSize])
  | grown => exact absurd hr (by simp [blockSize])

/-- What an allocation leaves behind: the blocks in use are still there, and the
pointer, unless it is null, is live with the requested size. -/
def Allocates (credits : σ → Nat) (blocks : List Block) (live : Live) (size : Nat)
    (result : Nat × Heap σ) : Prop :=
  ∃ blocks', HeapInv credits result.2 blocks'
      (if result.1 = 0 then live else (result.1, size) :: live) ∧
    ∀ b ∈ blocks, b.2.free = false → b ∈ blocks'

/-- The bytes of a block that is appended behind so many new pages, none if a
page is refused. -/
def grownBytes (grab : Nat → σ → Bool × σ) (count size : Nat) (h : Heap σ) : Nat :=
  if (growPages grab count h).1 then blockSize + size else 0

/-- Growing by so many pages and appending a block in them. -/
theorem grow_append (hbudget : PageBudget grab credits) (hinv : HeapInv credits h blocks live)
    {count size requested : Nat} (hsize : blockSize + size ≤ count * pageSize)
    (hrequested : requested ≤ size) :
    ∃ r h' blocks', (if !(growPages grab count h).1 then some (0, (growPages grab count h).2)
        else (appendBlock h.heapCurrent size (growPages grab count h).2).map
          fun h' => (h.heapCurrent + blockSize, h')) = some (r, h') ∧
      HeapInv credits h' blocks' (if r = 0 then live else (r, requested) :: live) ∧
      Serves blocks r (grownBytes grab count size h) blocks' := by
  obtain ⟨hgrown, hhead, hmem, hcurrent⟩ := growPages_spec hbudget count hinv
  unfold grownBytes
  cases hok : (growPages grab count h).1 with
  | false => exact ⟨0, _, blocks, rfl, hgrown, .refused⟩
  | true =>
      have hlt := hgrown.current_lt
      have hlist : BlockList (growPages grab count h).2.mem (growPages grab count h).2.heapHead
          blocks h.heapCurrent := by
        rw [hhead]
        exact hinv.list.frame hmem (Nat.le_refl _)
      have haligned : h.heapCurrent % 4 = 0 := by
        have hpage := hinv.page
        unfold pageSize at hpage
        omega
      have hend : h.heapCurrent + (blockSize + size) ≤ (growPages grab count h).2.heapCurrent := by
        rw [hcurrent hok]
        exact Nat.add_le_add_left hsize _
      obtain ⟨mem, head, happend, hnew⟩ := appendBlock_spec hlist hend (by omega) haligned
      have hchanged := hgrown.change hnew fun b hb _ => List.mem_append_left _ hb
      refine ⟨h.heapCurrent + blockSize, { (growPages grab count h).2 with mem, heapHead := head },
        blocks ++ [(h.heapCurrent, ⟨size, false, blockMagic⟩)], ?_, ?_, ?_⟩
      · rw [Bool.not_true, if_neg Bool.false_ne_true, happend]
        rfl
      · rw [if_neg (by simp [blockSize])]
        refine hchanged.give (b := (h.heapCurrent, ⟨size, false, blockMagic⟩)) (by simp) rfl
          hrequested fun e he => ?_
        obtain ⟨b, hb, haddr, -, -⟩ := hinv.owned e he
        have hend := (hinv.list.placed.bounds hb).2
        simp only [extent, blockSize] at hend haddr ⊢
        omega
      · rw [if_pos rfl]
        exact @Serves.grown blocks h.heapCurrent ⟨size, false, blockMagic⟩ rfl

/-- The bytes `kmalloc_aligned` adds to the list. -/
def kmallocAlignedGrowth (grab : Nat → σ → Bool × σ) (size : Nat) (h : Heap σ) : Nat :=
  if size = 0 ∨ 0xFFFFFFFF - blockSize - 4 < size then 0
  else
    let pages := pagesFor ((blockSize + align4 size) % 2 ^ 32)
    grownBytes grab pages ((pages * pageSize + 2 ^ 32 - blockSize) % 2 ^ 32) h

theorem kmallocAligned_serves (hbudget : PageBudget grab credits)
    (hinv : HeapInv credits h blocks live) {size : Nat} (hsize : Mappable size) :
    ∃ r h' blocks', kmallocAligned grab size h = some (r, h') ∧
      HeapInv credits h' blocks' (if r = 0 then live else (r, size) :: live) ∧
      Serves blocks r (kmallocAlignedGrowth grab size h) blocks' := by
  have hlt := hinv.current_lt
  unfold kmallocAligned kmallocAlignedGrowth
  split
  next => exact ⟨0, h, blocks, rfl, hinv, .refused⟩
  next hguard =>
    obtain ⟨-, hle, hbytes⟩ := hsize.align4 hguard
    have htotal : (blockSize + align4 size) % 2 ^ 32 = blockSize + align4 size :=
      Nat.mod_eq_of_lt (hbytes.trans_lt (by decide))
    have hpages := le_pagesFor hbytes
    have hbound := pagesFor_lt (blockSize + align4 size)
    have hwhole : (pagesFor (blockSize + align4 size) * pageSize + 2 ^ 32 - blockSize) % 2 ^ 32 =
        pagesFor (blockSize + align4 size) * pageSize - blockSize := by
      omega
    have hptr : (h.heapCurrent + blockSize) % 2 ^ 32 = h.heapCurrent + blockSize := by
      refine Nat.mod_eq_of_lt ?_
      unfold blockSize
      omega
    dsimp only
    rw [htotal, hwhole, hptr]
    exact grow_append hbudget hinv (by omega) (by omega)

theorem kmallocAligned_spec (hbudget : PageBudget grab credits)
    (hinv : HeapInv credits h blocks live) {size : Nat} (hsize : Mappable size) :
    ∃ r h', kmallocAligned grab size h = some (r, h') ∧
      Allocates credits blocks live size (r, h') := by
  obtain ⟨r, h', blocks', heq, hinv', hserves⟩ := kmallocAligned_serves hbudget hinv hsize
  exact ⟨r, h', heq, blocks', hinv', fun b hb => hserves.mem hb⟩

/-- Taking a free block, with or without its rest, leaves a block in use of the
given size at its address. -/
theorem take_block {pre post : List Block} {b : Block} {size : Nat}
    (hinv : HeapInv credits h (pre ++ b :: post) live) (hsize : size ≤ b.2.size)
    (haligned : size % 4 = 0) :
    ∃ data rest, data.free = false ∧ size ≤ data.size ∧
      (rest.length ≤ 1 ∧ ∀ c ∈ rest, c.2.free = true) ∧
      extent data + capacity rest = extent b.2 ∧
      BlockList (setFree (if (size + blockSize + 4) % 2 ^ 32 ≤ b.2.size then
        splitBlock h.mem b.1 size else h.mem) b.1 false) h.heapHead
        (pre ++ (b.1, data) :: rest ++ post) h.heapCurrent := by
  have hlt : h.heapCurrent < 2 ^ 32 := hinv.current_lt.trans (by decide)
  have hend := hinv.list.end_le
  unfold extent at hend
  have hsum : (size + blockSize + 4) % 2 ^ 32 = size + blockSize + 4 := by
    refine Nat.mod_eq_of_lt ?_
    have hcurrent := hinv.current_lt
    unfold blockSize at *
    omega
  rw [hsum]
  split
  next hroom =>
    have hfits : size + blockSize ≤ b.2.size := by omega
    have hsplit := hinv.list.split hlt hfits haligned
    refine ⟨{ b.2 with size, free := false },
      [(b.1 + blockSize + size, ⟨b.2.size - size - blockSize, true, blockMagic⟩)], rfl,
      Nat.le_refl _, by simp, ?_, by simpa using hsplit.setFree false⟩
    simp only [capacity_cons, capacity_nil, extent]
    omega
  next =>
    exact ⟨{ b.2 with free := false }, [], rfl, hsize, by simp, rfl,
      by simpa using hinv.list.setFree false⟩

/-- The bytes `kmalloc` adds to the list: none when it takes a free block. -/
def kmallocGrowth (grab : Nat → σ → Bool × σ) (size : Nat) (h : Heap σ) : Nat :=
  if size = 0 ∨ 0xFFFFFFFF - blockSize - 4 < size then 0
  else if findFreeBlock (align4 size) h = some 0 then
    grownBytes grab (pagesFor ((blockSize + align4 size) % 2 ^ 32)) (align4 size) h
  else 0

/-- No free block is large enough: the heap grows, and the new block is the last one. -/
theorem expandHeap_serves (hbudget : PageBudget grab credits)
    (hinv : HeapInv credits h blocks live) {size requested : Nat}
    (hbytes : blockSize + size ≤ 2 ^ 32 - pageSize) (hrequested : requested ≤ size) :
    ∃ r h' blocks', ((expandHeap grab size h).map fun (block, h) =>
        if block = 0 then (0, h) else ((block + blockSize) % 2 ^ 32, h)) = some (r, h') ∧
      HeapInv credits h' blocks' (if r = 0 then live else (r, requested) :: live) ∧
      Serves blocks r (grownBytes grab (pagesFor ((blockSize + size) % 2 ^ 32)) size h)
        blocks' := by
  have hlt := hinv.current_lt
  have htotal : (blockSize + size) % 2 ^ 32 = blockSize + size :=
    Nat.mod_eq_of_lt (hbytes.trans_lt (by decide))
  have hptr : (h.heapCurrent + blockSize) % 2 ^ 32 = h.heapCurrent + blockSize := by
    refine Nat.mod_eq_of_lt ?_
    unfold blockSize
    omega
  have hstart : h.heapCurrent ≠ 0 := by
    have hle := hinv.list.placed.le
    unfold heapStart at hle
    omega
  obtain ⟨r, h', blocks', heq, hinv', hserves⟩ :=
    grow_append hbudget hinv (le_pagesFor hbytes) hrequested
  refine ⟨r, h', blocks', ?_, hinv', by rwa [htotal]⟩
  rw [← heq, expandHeap, htotal]
  rcases growPages grab (pagesFor (blockSize + size)) h with ⟨_ | _, grown⟩
  · rfl
  · simp only [Bool.not_true, Bool.false_eq_true, if_false, Option.map_map]
    refine congrArg (Option.map · _) (funext fun h' => ?_)
    simp only [Function.comp_apply, hstart, if_false, hptr]

/-- First fit: the block is taken, and split where the rest is worth a block of its own. -/
theorem take_serves {pre post : List Block} {b : Block} {size requested : Nat}
    (hinv : HeapInv credits h (pre ++ b :: post) live) (hfree : b.2.free = true)
    (hsize : size ≤ b.2.size) (haligned : size % 4 = 0) (hrequested : requested ≤ size) :
    ∃ blocks', HeapInv credits { h with
        mem := setFree (if (size + blockSize + 4) % 2 ^ 32 ≤ b.2.size then
          splitBlock h.mem b.1 size else h.mem) b.1 false } blocks'
        ((b.1 + blockSize, requested) :: live) ∧
      Serves (pre ++ b :: post) (b.1 + blockSize) 0 blocks' := by
  have hb : b ∈ pre ++ b :: post := by simp
  obtain ⟨data, rest, hused, henough, hrest, hextent, hlist⟩ := take_block hinv hsize haligned
  have hserves := @Serves.taken _ pre post rest b data rfl hfree hused hrest hextent
  have hchanged := hinv.change hlist fun c hc => hserves.mem hc
  refine ⟨pre ++ (b.1, data) :: rest ++ post, ?_, hserves⟩
  -- The block was free, so no allocation of the caller's list has its address.
  refine hchanged.give (b := (b.1, data)) (by simp) hused (hrequested.trans henough) fun e he => ?_
  obtain ⟨c, hc, haddr, hcused, -⟩ := hinv.owned e he
  rw [← haddr]
  intro heq
  obtain rfl := hinv.list.eq_of_addr hc hb (Nat.add_right_cancel heq)
  exact absurd (hfree.symm.trans hcused) (by simp)

theorem kmalloc_serves (hbudget : PageBudget grab credits) (hinv : HeapInv credits h blocks live)
    {size : Nat} (hsize : Mappable size) :
    ∃ r h' blocks', kmalloc grab size h = some (r, h') ∧
      HeapInv credits h' blocks' (if r = 0 then live else (r, size) :: live) ∧
      Serves blocks r (kmallocGrowth grab size h) blocks' := by
  unfold kmalloc kmallocGrowth
  split
  next => exact ⟨0, h, blocks, rfl, hinv, .refused⟩
  next hguard =>
    obtain ⟨haligned, hle, hbytes⟩ := hsize.align4 hguard
    dsimp only
    rcases @findFreeBlock_cases _ _ _ _ _ (align4 size) hinv with
      hnone | ⟨pre, b, post, rfl, hfree, hfits, hfound⟩
    · rw [hnone, Option.bind_some, if_neg (not_not.2 rfl), if_pos rfl]
      exact expandHeap_serves hbudget hinv hbytes hle
    · obtain ⟨blocks', hinv', hserves⟩ := take_serves hinv hfree hfits haligned hle
      have hnull := hinv.list.ne_null (show b ∈ pre ++ b :: post by simp)
      have hptr : (b.1 + blockSize) % 2 ^ 32 = b.1 + blockSize := by
        have hlt := hinv.current_lt
        have hend := hinv.list.end_le
        unfold extent blockSize at *
        exact Nat.mod_eq_of_lt (by omega)
      have hnotNull : b.1 + blockSize ≠ 0 := by
        unfold blockSize
        omega
      rw [hfound, Option.bind_some, if_pos hnull, hinv.list.linked.read_eq, hptr]
      refine ⟨_, _, blocks', rfl, ?_, ?_⟩
      · rw [if_neg hnotNull]
        exact hinv'
      · rw [if_neg fun heq => hnull (Option.some.inj heq)]
        exact hserves

theorem kmalloc_spec (hbudget : PageBudget grab credits) (hinv : HeapInv credits h blocks live)
    {size : Nat} (hsize : Mappable size) :
    ∃ r h', kmalloc grab size h = some (r, h') ∧
      Allocates credits blocks live size (r, h') := by
  obtain ⟨r, h', blocks', heq, hinv', hserves⟩ := kmalloc_serves hbudget hinv hsize
  exact ⟨r, h', heq, blocks', hinv', fun b hb => hserves.mem hb⟩

/-- The live pointers without the given one. -/
def release (ptr : Nat) (live : Live) : Live := live.filter fun e => e.1 ≠ ptr

/-- The blocks after a block was freed and joined with its free neighbours. -/
def freed (pre : List Block) (b : Block) (post : List Block) : List Block :=
  joinPrev pre (joinNext (b.1, { b.2 with free := true }) post)

/-- Joining with the block behind keeps the capacity. The block behind is joined
if it is free and kept if it is in use. -/
theorem joinNext_shape (b : Block) (post : List Block) :
    ∃ data post', joinNext b post = (b.1, data) :: post' ∧ data.free = b.2.free ∧
      extent data + capacity post' = extent b.2 + capacity post ∧
      ((post' = post ∧ ∀ c ∈ post.head?, c.2.free = false) ∨
        ∃ c, post = c :: post' ∧ c.2.free = true) := by
  cases post with
  | nil => exact ⟨b.2, [], rfl, rfl, rfl, Or.inl ⟨rfl, fun c hc => by cases hc⟩⟩
  | cons c post =>
      rw [joinNext]
      cases hfree : c.2.free with
      | true =>
          refine ⟨_, post, if_pos rfl, rfl, ?_, Or.inr ⟨c, rfl, hfree⟩⟩
          simp only [extent, capacity_cons]
          omega
      | false =>
          refine ⟨b.2, c :: post, if_neg Bool.false_ne_true, rfl, rfl, Or.inl ⟨rfl, ?_⟩⟩
          rintro d hd
          obtain rfl := Option.some.inj hd
          exact hfree

/-- The same for the block before. -/
theorem joinPrev_shape (pre : List Block) {b : Block} (hb : b.2.free = true) (post : List Block) :
    ∃ pre' x, joinPrev pre (b :: post) = pre' ++ x :: post ∧ x.2.free = true ∧
      capacity pre' + extent x.2 = capacity pre + extent b.2 ∧
      ((pre' = pre ∧ ∀ c ∈ pre.getLast?, c.2.free = false) ∨
        ∃ c, pre = pre' ++ [c] ∧ c.2.free = true) := by
  rcases List.eq_nil_or_concat pre with rfl | ⟨pre, c, rfl⟩
  · exact ⟨[], b, rfl, hb, rfl, Or.inl ⟨rfl, fun c hc => by cases hc⟩⟩
  · simp only [joinPrev, List.concat_eq_append, List.getLast?_append, List.getLast?_singleton,
      Option.some_or, List.dropLast_concat]
    cases hfree : c.2.free with
    | true =>
        rw [if_pos rfl, joinNext, if_pos hb]
        refine ⟨pre, _, rfl, hfree, ?_, Or.inr ⟨c, rfl, hfree⟩⟩
        simp only [extent, capacity_append, capacity_cons, capacity_nil]
        omega
    | false =>
        refine ⟨pre ++ [c], b, if_neg Bool.false_ne_true, hb, rfl, Or.inl ⟨rfl, ?_⟩⟩
        rintro d hd
        obtain rfl := Option.some.inj hd
        exact hfree

/-- What is left after freeing a block: one free block between the blocks before
and behind that were not joined. -/
theorem freed_shape (pre : List Block) (b : Block) (post : List Block) :
    ∃ pre' x post', freed pre b post = pre' ++ x :: post' ∧ x.2.free = true ∧
      capacity (freed pre b post) = capacity (pre ++ b :: post) ∧
      ((pre' = pre ∧ ∀ c ∈ pre.getLast?, c.2.free = false) ∨
        ∃ c, pre = pre' ++ [c] ∧ c.2.free = true) ∧
      ((post' = post ∧ ∀ c ∈ post.head?, c.2.free = false) ∨
        ∃ c, post = c :: post' ∧ c.2.free = true) := by
  obtain ⟨data, post', hnext, hdata, hroom, hpost⟩ :=
    joinNext_shape (b.1, { b.2 with free := true }) post
  obtain ⟨pre', x, hprev, hx, hroom', hpre⟩ :=
    joinPrev_shape pre (b := (b.1, data)) hdata post'
  have hfreed : freed pre b post = pre' ++ x :: post' := by
    rw [freed, hnext, hprev]
  refine ⟨pre', x, post', hfreed, hx, ?_, hpre, hpost⟩
  rw [hfreed, capacity_append, capacity_append, capacity_cons, capacity_cons]
  simp only [extent] at hroom hroom' ⊢
  omega

/-- The blocks in use are those around the freed one. -/
theorem mem_freed_iff {pre post : List Block} {b c : Block} (hused : c.2.free = false) :
    c ∈ freed pre b post ↔ c ∈ pre ∨ c ∈ post := by
  obtain ⟨pre', x, post', heq, hx, -, hpre, hpost⟩ := freed_shape pre b post
  have hne {d : Block} (hd : d.2.free = true) : c ≠ d := by
    rintro rfl
    exact absurd (hd.symm.trans hused) (by decide)
  have hbefore : c ∈ pre' ↔ c ∈ pre := by
    rcases hpre with ⟨rfl, -⟩ | ⟨d, rfl, hd⟩
    · exact Iff.rfl
    · simp [hne hd]
  have hbehind : c ∈ post' ↔ c ∈ post := by
    rcases hpost with ⟨rfl, -⟩ | ⟨d, rfl, hd⟩
    · exact Iff.rfl
    · simp [hne hd]
  rw [heq, List.mem_append, List.mem_cons, or_iff_right (hne hx), hbefore, hbehind]

/-- The block of a live pointer. -/
theorem HeapInv.block_of_live (hinv : HeapInv credits h blocks live) {ptr : Nat}
    (hptr : ptr ∈ live.map Prod.fst) :
    ∃ pre b post, blocks = pre ++ b :: post ∧ b.1 + blockSize = ptr ∧ b.2.free = false ∧
      ptr ≠ 0 ∧ (ptr + 2 ^ 32 - blockSize) % 2 ^ 32 = b.1 ∧ (blockAt h.mem b.1).data = b.2 ∧
      b.2.magic = blockMagic := by
  obtain ⟨e, he, rfl⟩ := List.mem_map.1 hptr
  obtain ⟨b, hb, haddr, hused, -⟩ := hinv.owned e he
  have hlt := hinv.list.lt_of_hi (hinv.current_lt.trans (by decide)) hb
  obtain ⟨pre, post, rfl⟩ := List.append_of_mem hb
  have hread := hinv.list.linked.read_eq
  refine ⟨pre, b, post, rfl, haddr, hused, ?_, ?_, by rw [hread], (hinv.list.sound b hb).2⟩
  · unfold blockSize at haddr
    omega
  · omega

/-- Freeing a live pointer frees its block and joins it with its neighbours. -/
theorem kfree_spec (hinv : HeapInv credits h blocks live) {ptr : Nat}
    (hptr : ptr ∈ live.map Prod.fst) :
    ∃ pre b post, blocks = pre ++ b :: post ∧ b.1 + blockSize = ptr ∧ b.2.free = false ∧
      HeapInv credits (kfree ptr h) (freed pre b post) (release ptr live) := by
  have hlt : h.heapCurrent < 2 ^ 32 := hinv.current_lt.trans (by decide)
  obtain ⟨pre, b, post, rfl, haddr, hused, hnotNull, hblock, hdata, hmagic⟩ :=
    hinv.block_of_live hptr
  have hmarked := hinv.list.setFree true
  have hnext := hmarked.mergeNext hlt
  obtain ⟨data, post', heq, hfree, -⟩ := joinNext_shape (b.1, { b.2 with free := true }) post
  have hfinal : BlockList (mergePrev (mergeNext (setFree h.mem b.1 true) b.1) b.1) h.heapHead
      (freed pre b post) h.heapCurrent := by
    rw [freed, heq]
    rw [heq] at hnext
    exact hnext.mergePrev hlt hfree
  have hkfree : kfree ptr h =
      { h with mem := mergePrev (mergeNext (setFree h.mem b.1 true) b.1) b.1 } := by
    unfold kfree
    dsimp only
    rw [if_neg hnotNull, hblock, hdata, if_neg (not_not.2 hmagic)]
  rw [hkfree]
  refine ⟨pre, b, post, rfl, haddr, hused, hinv.relist hfinal (fun e he => ?_) ?_⟩
  · obtain ⟨he, hne⟩ := List.mem_filter.1 he
    obtain ⟨c, hc, hcaddr, hcused, hcsize⟩ := hinv.owned e he
    refine ⟨c, (mem_freed_iff hcused).2 ?_, hcaddr, hcused, hcsize⟩
    rcases List.mem_append.1 hc with hc | hc
    · exact Or.inl hc
    · rcases List.mem_cons.1 hc with rfl | hc
      · exact absurd (hcaddr.symm.trans haddr) (of_decide_eq_true hne)
      · exact Or.inr hc
  · exact hinv.distinct.sublist (List.filter_sublist.map Prod.fst)

theorem HeapInv.release_null (hinv : HeapInv credits h blocks live) : release 0 live = live := by
  refine List.filter_eq_self.2 fun e he => ?_
  obtain ⟨b, -, haddr, -, -⟩ := hinv.owned e he
  unfold blockSize at haddr
  simpa using (show e.1 ≠ 0 by omega)

/-- A write to the memory of one block. -/
theorem BlockList.payload {mem mem' : Memory} {head hi : Nat}
    (hlist : BlockList mem head blocks hi) {b : Block} (hb : b ∈ blocks)
    (hsame : ∀ x, x < b.1 + blockSize ∨ b.1 + extent b.2 ≤ x → mem' x = mem x) :
    BlockList mem' head blocks hi where
  linked := by
    refine hlist.linked.congr fun c hc => blockAt_congr fun x hlow hhigh => hsame x ?_
    obtain ⟨pre, post, rfl⟩ := List.append_of_mem hb
    rcases List.mem_append.1 hc with hc | hc
    · have hend := hlist.end_le_of_before hc
      unfold extent at hend
      omega
    · rcases List.mem_cons.1 hc with rfl | hc
      · exact Or.inl hhigh
      · have hend := hlist.end_le_of_after hc
        omega
  head := hlist.head
  placed := hlist.placed
  sound := hlist.sound

/-- A copy into the memory of a live pointer stays inside the payload of its block. -/
theorem HeapInv.copy (hinv : HeapInv credits h blocks live) {dst size : Nat}
    (hdst : (dst, size) ∈ live) (src : Nat) {n : Nat} (hn : n ≤ size) :
    HeapInv credits { h with mem := memcpy h.mem dst src n } blocks live := by
  obtain ⟨b, hb, haddr, -, henough⟩ := hinv.owned (dst, size) hdst
  refine hinv.relist (hinv.list.payload hb fun x hx => memcpy_of_notMem ?_) hinv.owned
    hinv.distinct
  unfold extent at hx
  dsimp only at haddr henough
  omega

/-- A live pointer may stand for any size that its block can hold. -/
theorem HeapInv.resize (hinv : HeapInv credits h blocks live) {b : Block} (hb : b ∈ blocks)
    {ptr : Nat} (haddr : b.1 + blockSize = ptr) (hused : b.2.free = false) {size : Nat}
    (hfits : size ≤ b.2.size) : HeapInv credits h blocks ((ptr, size) :: release ptr live) := by
  refine hinv.relist hinv.list (fun e he => ?_) ?_
  · rcases List.mem_cons.1 he with rfl | he
    · exact ⟨b, hb, haddr, hused, hfits⟩
    · exact hinv.owned e (List.mem_filter.1 he).1
  · rw [List.map_cons, List.nodup_cons]
    refine ⟨fun hmem => ?_, hinv.distinct.sublist (List.filter_sublist.map Prod.fst)⟩
    obtain ⟨e, he, heq⟩ := List.mem_map.1 hmem
    exact of_decide_eq_true (List.mem_filter.1 he).2 heq

/-- The live pointers after `krealloc` returned. -/
def reallocated (ptr size r : Nat) (live : Live) : Live :=
  if r ≠ 0 then (r, size) :: release ptr live
  else if size = 0 then release ptr live
  else live

/-- How `krealloc` changes the list, and how many bytes it adds: the block is
large enough, an allocation does it all or fails, the block is freed, or it is
freed after a new one was handed out. -/
inductive Reallocates (blocks : List Block) (ptr size : Nat) : Nat → Nat → List Block → Prop
  | kept : Reallocates blocks ptr size ptr 0 blocks
  | served {r gained : Nat} {blocks' : List Block} (hserves : Serves blocks r gained blocks')
      (hptr : ptr = 0 ∨ (r = 0 ∧ size ≠ 0)) : Reallocates blocks ptr size r gained blocks'
  | freed {pre post : List Block} {b : Block} (hzero : size = 0)
      (hblocks : blocks = pre ++ b :: post) (haddr : b.1 + blockSize = ptr) :
      Reallocates blocks ptr size 0 0 (Dosfs.freed pre b post)
  | moved {r gained hi : Nat} {pre post : List Block} {b : Block} (hnotNull : r ≠ 0)
      (hserves : Serves blocks r gained (pre ++ b :: post)) (haddr : b.1 + blockSize = ptr)
      (hplaced : Placed extent heapStart (pre ++ b :: post) hi) :
      Reallocates blocks ptr size r gained (Dosfs.freed pre b post)

/-- The bytes `krealloc` adds to the list. -/
def kreallocGrowth (grab : Nat → σ → Bool × σ) (ptr size : Nat) (h : Heap σ) : Nat :=
  if ptr = 0 then kmallocGrowth grab size h
  else if size = 0 then 0
  else
    let block := (ptr + 2 ^ 32 - blockSize) % 2 ^ 32
    if (blockAt h.mem block).data.magic ≠ blockMagic then 0
    else if size ≤ (blockAt h.mem block).data.size then 0
    else kmallocGrowth grab size h

/-- The bytes are copied to the new block, and the old one is freed. -/
theorem krealloc_moves {h' : Heap σ} {blocks' : List Block} {b : Block} {ptr r size gained : Nat}
    (hb : b ∈ blocks) (hused : b.2.free = false) (hptr : ptr ∈ live.map Prod.fst)
    (hgrows : b.2.size ≤ size) (hnull : r ≠ 0)
    (hinv' : HeapInv credits h' blocks' ((r, size) :: live))
    (hserves : Serves blocks r gained blocks') :
    ∃ blocks'', HeapInv credits
        (kfree ptr { h' with mem := memcpy h'.mem r ptr (blockAt h'.mem b.1).data.size }) blocks''
        (reallocated ptr size r live) ∧
      Reallocates blocks ptr size r gained blocks'' := by
  have hdistinct := hinv'.distinct
  rw [List.map_cons, List.nodup_cons] at hdistinct
  have hne : r ≠ ptr := by
    rintro rfl
    exact hdistinct.1 hptr
  -- The copy reads the old header after kmalloc ran, which left that block as it was.
  have hdata : (blockAt h'.mem b.1).data = b.2 := by
    obtain ⟨before, after, heq⟩ := List.append_of_mem (hserves.mem hb hused)
    have hlinked := hinv'.list.linked
    rw [heq] at hlinked
    rw [hlinked.read_eq]
  have hmoved := hinv'.copy List.mem_cons_self ptr hgrows
  obtain ⟨before, b', after, hblocks', haddr', -, hfreed⟩ :=
    kfree_spec hmoved (List.mem_cons_of_mem _ hptr)
  refine ⟨_, ?_, .moved hnull (hblocks' ▸ hserves) haddr' (hblocks' ▸ hinv'.list.placed)⟩
  rw [reallocated, if_pos hnull, hdata]
  rw [release, List.filter_cons_of_pos (by simpa using hne)] at hfreed
  exact hfreed

theorem krealloc_spec (hbudget : PageBudget grab credits) (hinv : HeapInv credits h blocks live)
    {ptr size : Nat} (hsize : Mappable size) (hptr : ptr = 0 ∨ ptr ∈ live.map Prod.fst) :
    ∃ r h' blocks', krealloc grab ptr size h = some (r, h') ∧
      HeapInv credits h' blocks' (reallocated ptr size r live) ∧
      Reallocates blocks ptr size r (kreallocGrowth grab ptr size h) blocks' := by
  obtain ⟨r, h', blocks', hkmalloc, hinv', hserves⟩ := kmalloc_serves hbudget hinv hsize
  unfold krealloc kreallocGrowth
  rcases hptr with rfl | hptr
  -- krealloc(NULL, size) is kmalloc(size).
  · refine ⟨r, h', blocks', hkmalloc, ?_, .served hserves (Or.inl rfl)⟩
    unfold reallocated
    rw [hinv.release_null]
    by_cases hnull : r = 0
    · rw [if_neg (not_not.2 hnull), ite_self]
      rwa [if_pos hnull] at hinv'
    · rw [if_pos hnull]
      rwa [if_neg hnull] at hinv'
  -- From here on the pointer is the payload of a block in use.
  obtain ⟨pre, b, post, hblocks, haddr, hused, hnotNull, hblock, hdata, hmagic⟩ :=
    hinv.block_of_live hptr
  have hb : b ∈ blocks := by simp [hblocks]
  rw [if_neg hnotNull, if_neg hnotNull]
  by_cases hzero : size = 0
  · obtain ⟨before, b, after, hblocks, haddr, -, hfreed⟩ := kfree_spec hinv hptr
    rw [if_pos hzero, if_pos hzero]
    refine ⟨0, kfree ptr h, _, rfl, ?_, .freed hzero hblocks haddr⟩
    rw [reallocated, if_neg (not_not.2 rfl), if_pos hzero]
    exact hfreed
  rw [if_neg hzero, if_neg hzero]
  dsimp only
  rw [hblock, hdata, if_neg (not_not.2 hmagic), if_neg (not_not.2 hmagic)]
  -- The block keeps its place as long as the new size fits, however small it is.
  by_cases hfits : size ≤ b.2.size
  · rw [if_pos hfits, if_pos hfits]
    refine ⟨ptr, h, blocks, rfl, ?_, .kept⟩
    rw [reallocated, if_pos hnotNull]
    exact hinv.resize hb haddr hused hfits
  · rw [if_neg hfits, if_neg hfits, hkmalloc, Option.map_some]
    by_cases hnull : r = 0
    · refine ⟨0, h', blocks', by rw [if_pos hnull], ?_,
        .served (hnull ▸ hserves) (Or.inr ⟨rfl, hzero⟩)⟩
      rw [reallocated, if_neg (not_not.2 rfl), if_neg hzero]
      rwa [if_pos hnull] at hinv'
    · rw [if_neg hnull] at hinv' ⊢
      obtain ⟨blocks'', hfreed, hmoves⟩ :=
        krealloc_moves hb hused hptr (Nat.le_of_not_le hfits) hnull hinv' hserves
      exact ⟨r, _, blocks'', rfl, hfreed, hmoves⟩

end Dosfs
