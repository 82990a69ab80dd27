import Dosfs.Memory.HeapRuns

/-!
# The contents of the heap

The operations of the heap write to the headers of blocks and to memory that no
block in use holds. So what a caller stored stays until it frees the block, and
`krealloc` moves it.
-/

namespace Dosfs

open Foundation LinkedList

variable {σ : Type} {grab : Nat → σ → Bool × σ} {credits : σ → Nat} {h : Heap σ}
  {blocks pre post : List Block} {live : Live}

/-! ## Writes to headers -/

/-- The memory of a block, without its header, is the same in both. -/
def SamePayload (b : Block) (mem mem' : Memory) : Prop :=
  ∀ x, b.1 + blockSize ≤ x → x < b.1 + extent b.2 → mem' x = mem x

theorem SamePayload.trans {b : Block} {mem mem₁ mem₂ : Memory} (h₁ : SamePayload b mem mem₁)
    (h₂ : SamePayload b mem₁ mem₂) : SamePayload b mem mem₂ :=
  fun x hlow hhigh => (h₂ x hlow hhigh).trans (h₁ x hlow hhigh)

section header

variable {mem mem' : Memory} {block value : Nat} {b : Block}

/-- The header at the address does not reach into the memory of the block. -/
def Outside (b : Block) (block : Nat) : Prop :=
  block + blockSize ≤ b.1 + blockSize ∨ b.1 + extent b.2 ≤ block

/-- A write to a field of a header. -/
theorem samePayload_write {count : Nat} {bytes : Memory} (offset : Nat)
    (hfield : offset + count ≤ blockSize) (hout : Outside b block) :
    SamePayload b mem (mem.overwrite (block + offset) count bytes) := by
  intro x hlow hhigh
  unfold Outside at hout
  exact Memory.overwrite_of_notMem (by omega)

theorem samePayload_setSize (hout : Outside b block) :
    SamePayload b mem (setSize mem block value) := by
  unfold setSize Memory.storeLe
  exact samePayload_write 0 (by decide) hout

theorem samePayload_setFree {free : Bool} (hout : Outside b block) :
    SamePayload b mem (setFree mem block free) := by
  unfold setFree Memory.storeByte
  exact samePayload_write 4 (by decide) hout

theorem samePayload_setNext (hout : Outside b block) :
    SamePayload b mem (setNext mem block value) := by
  unfold setNext Memory.storeLe
  exact samePayload_write 8 (by decide) hout

theorem samePayload_setPrev (hout : Outside b block) :
    SamePayload b mem (setPrev mem block value) := by
  unfold setPrev Memory.storeLe
  exact samePayload_write 12 (by decide) hout

theorem samePayload_setMagic (hout : Outside b block) :
    SamePayload b mem (setMagic mem block value) := by
  unfold setMagic Memory.storeLe
  exact samePayload_write 16 (by decide) hout

theorem samePayload_initBlock {size next prev : Nat} {free : Bool} (hout : Outside b block) :
    SamePayload b mem (initBlock mem block size free next prev) :=
  (samePayload_setSize hout).trans <| (samePayload_setFree hout).trans <|
    (samePayload_setMagic hout).trans <| (samePayload_setNext hout).trans (samePayload_setPrev hout)

theorem samePayload_setPrevOf {next : Nat} (hout : next = 0 ∨ Outside b next) :
    SamePayload b mem (setPrevOf mem next value) := by
  unfold setPrevOf
  split
  next hnext => exact samePayload_setPrev (hout.resolve_left hnext)
  next => exact fun _ _ _ => rfl

end header

/-! ## The list -/

namespace BlockList

variable {mem : Memory} {head hi block : Nat} {data : BlockData} {b : Block}

/-- Two blocks do not overlap. -/
theorem apart (hlist : BlockList mem head blocks hi) (hb : b ∈ blocks) {c : Block}
    (hc : c ∈ blocks) (hne : c ≠ b) : c.1 + extent c.2 ≤ b.1 ∨ b.1 + extent b.2 ≤ c.1 := by
  obtain ⟨pre, post, rfl⟩ := List.append_of_mem hb
  rcases List.mem_append.1 hc with hc | hc
  · exact Or.inl (hlist.end_le_of_before hc)
  · rcases List.mem_cons.1 hc with rfl | hc
    · exact absurd rfl hne
    · exact Or.inr (hlist.end_le_of_after hc)

/-- No header of a block reaches into the memory of one. -/
theorem outside (hlist : BlockList mem head blocks hi) (hb : b ∈ blocks) {c : Block}
    (hc : c ∈ blocks) : Outside b c.1 := by
  by_cases hne : c = b
  · subst hne
    exact Or.inl (Nat.le_refl _)
  · refine (hlist.apart hb hc hne).imp (fun hle => ?_) id
    unfold extent at hle
    omega

theorem outside_first (hlist : BlockList mem head (pre ++ post) hi) (hb : b ∈ pre ++ post) :
    firstAddr post 0 = 0 ∨ Outside b (firstAddr post 0) := by
  cases post with
  | nil => exact Or.inl rfl
  | cons c post => exact Or.inr (hlist.outside hb (by simp))

/-- A split writes into the free block, to its header, and to the header behind it. -/
theorem samePayload_split (hlist : BlockList mem head (pre ++ (block, data) :: post) hi)
    (hhi : hi < 2 ^ 32) {size : Nat} (hsize : size + blockSize ≤ data.size)
    (hfree : data.free = true) (hb : b ∈ pre ++ (block, data) :: post)
    (hused : b.2.free = false) : SamePayload b mem (splitBlock mem block size) := by
  have hread : blockAt mem block = ⟨data, firstAddr post 0, lastAddr pre 0⟩ :=
    hlist.linked.read_eq
  have hend := hlist.end_le
  unfold extent at hend
  have hblock : Outside b block := hlist.outside hb (c := (block, data)) (by simp)
  have hnew : Outside b (block + blockSize + size) := by
    rcases List.mem_append.1 hb with hb | hb
    · have hle := hlist.end_le_of_before hb
      exact Or.inr (by omega)
    · rcases List.mem_cons.1 hb with rfl | hb
      · exact absurd (hfree.symm.trans hused) (by decide)
      · have hle := hlist.end_le_of_after hb
        unfold extent at hle
        exact Or.inl (by omega)
  have hnext : firstAddr post 0 = 0 ∨ Outside b (firstAddr post 0) := by
    rw [List.append_cons] at hlist hb
    exact hlist.outside_first hb
  rw [splitBlock_eq (Nat.mod_eq_of_lt (by omega)) (Or.inl (by omega)), hread]
  exact (samePayload_initBlock hnew).trans <| (samePayload_setPrevOf hnext).trans <|
    (samePayload_setNext hblock).trans (samePayload_setSize hblock)

/-- Joining two neighbours writes to the header of the first and to the one behind both. -/
theorem samePayload_absorb {next : Nat} {nextData : BlockData} {size : Nat}
    (hlist : BlockList mem head (pre ++ (block, data) :: (next, nextData) :: post) hi)
    (hb : b ∈ pre ++ (block, data) :: (next, nextData) :: post) :
    SamePayload b mem (setPrevOf (setNext (setSize mem block size) block (firstAddr post 0))
      (firstAddr post 0) block) := by
  have hblock : Outside b block := hlist.outside hb (c := (block, data)) (by simp)
  have hnext : firstAddr post 0 = 0 ∨ Outside b (firstAddr post 0) := by
    rw [List.append_cons, List.append_cons] at hlist hb
    exact hlist.outside_first hb
  exact (samePayload_setSize hblock).trans <| (samePayload_setNext hblock).trans
    (samePayload_setPrevOf hnext)

theorem samePayload_mergeNext (hlist : BlockList mem head (pre ++ (block, data) :: post) hi)
    (hhi : hi < 2 ^ 32) (hb : b ∈ pre ++ (block, data) :: post) :
    SamePayload b mem (Dosfs.mergeNext mem block) := by
  cases post with
  | nil =>
      rw [hlist.mergeNext_last]
      exact fun _ _ _ => rfl
  | cons c post =>
      obtain ⟨next, nextData⟩ := c
      rw [hlist.mergeNext_eq hhi]
      split
      next => exact hlist.samePayload_absorb hb
      next => exact fun _ _ _ => rfl

theorem samePayload_mergePrev (hlist : BlockList mem head (pre ++ (block, data) :: post) hi)
    (hb : b ∈ pre ++ (block, data) :: post) : SamePayload b mem (Dosfs.mergePrev mem block) := by
  rcases List.eq_nil_or_concat pre with rfl | ⟨pre, ⟨prev, prevData⟩, rfl⟩
  · rw [List.nil_append] at hlist
    rw [hlist.mergePrev_first]
    exact fun _ _ _ => rfl
  · rw [List.concat_eq_append, List.append_assoc, List.singleton_append] at hlist hb
    rw [hlist.mergePrev_eq]
    split
    next => exact hlist.samePayload_absorb hb
    next => exact fun _ _ _ => rfl

end BlockList

/-! ## The operations -/

section operations

variable {b : Block}

theorem BlockList.samePayload_of_lt {mem mem' : Memory} {head hi : Nat}
    (hlist : BlockList mem head blocks hi) (hsame : ∀ x < hi, mem' x = mem x) (hb : b ∈ blocks) :
    SamePayload b mem mem' := fun x _ hhigh =>
  hsame x (hhigh.trans_le (hlist.placed.bounds hb).2)

/-- Appending writes to the new header and to that of the last block. -/
theorem appendBlock_payload {block size : Nat} {h' : Heap σ}
    (hlist : BlockList h.mem h.heapHead blocks block) (hlt : block < 2 ^ 32)
    (happend : appendBlock block size h = some h') (hb : b ∈ blocks) :
    SamePayload b h.mem h'.mem := by
  have hbelow (x : Nat) (hx : x < block) :
      initBlock h.mem block size false 0 0 x = h.mem x := initBlock_of_lt hx
  have hinit : BlockList (initBlock h.mem block size false 0 0) h.heapHead blocks block :=
    hlist.frame hbelow (Nat.le_refl _)
  have hkept := hlist.samePayload_of_lt hbelow hb
  have hnew : Outside b block := Or.inr (hlist.placed.bounds hb).2
  unfold appendBlock at happend
  dsimp only at happend
  split at happend
  next =>
    have hwalk := walk_last hinit.linked (fun b hb => hinit.ne_null hb) (hinit.length_lt hlt)
    rw [← hinit.head] at hwalk
    rw [hwalk] at happend
    obtain rfl := Option.some.inj happend
    have hlast : Outside b (lastAddr blocks 0) := by
      rcases List.eq_nil_or_concat blocks with rfl | ⟨init, last, rfl⟩
      · exact absurd hb List.not_mem_nil
      · rw [List.concat_eq_append] at hlist hb ⊢
        rw [lastAddr_append]
        exact hlist.outside hb (by simp)
    exact hkept.trans <| (samePayload_setNext hlast).trans (samePayload_setPrev hnew)
  next =>
    obtain rfl := Option.some.inj happend
    exact hkept

theorem expandHeap_payload (hbudget : PageBudget grab credits)
    (hinv : HeapInv credits h blocks live) {size r : Nat} {h' : Heap σ}
    (hexpand : expandHeap grab size h = some (r, h')) (hb : b ∈ blocks) :
    SamePayload b h.mem h'.mem := by
  obtain ⟨-, hhead, hmem, -⟩ :=
    growPages_spec hbudget (pagesFor ((blockSize + size) % 2 ^ 32)) hinv
  have hgrown := hinv.list.samePayload_of_lt hmem hb
  unfold expandHeap at hexpand
  dsimp only at hexpand
  split at hexpand
  next =>
    obtain ⟨-, rfl⟩ := Prod.mk.inj (Option.some.inj hexpand)
    exact hgrown
  next =>
    obtain ⟨h'', happend, heq⟩ := Option.map_eq_some_iff.1 hexpand
    obtain ⟨-, rfl⟩ := Prod.mk.inj heq
    have hlist := hinv.list.frame hmem (Nat.le_refl _)
    rw [← hhead] at hlist
    exact hgrown.trans (appendBlock_payload hlist (hinv.current_lt.trans (by decide)) happend hb)

/-- An allocation leaves the memory of the blocks in use alone. -/
theorem kmalloc_payload (hbudget : PageBudget grab credits) (hinv : HeapInv credits h blocks live)
    {size r : Nat} {h' : Heap σ} (hkmalloc : kmalloc grab size h = some (r, h')) (hb : b ∈ blocks)
    (hused : b.2.free = false) : SamePayload b h.mem h'.mem := by
  unfold kmalloc at hkmalloc
  split at hkmalloc
  next =>
    obtain ⟨-, rfl⟩ := Prod.mk.inj (Option.some.inj hkmalloc)
    exact fun _ _ _ => rfl
  next =>
    dsimp only at hkmalloc
    rcases @findFreeBlock_cases _ _ _ _ _ (align4 size) hinv with
      hnone | ⟨pre, c, post, rfl, hfree, hfits, hfound⟩
    · rw [hnone, Option.bind_some, if_neg (not_not.2 rfl)] at hkmalloc
      obtain ⟨⟨base, h''⟩, hexpand, heq⟩ := Option.map_eq_some_iff.1 hkmalloc
      have hexpanded := expandHeap_payload hbudget hinv hexpand hb
      dsimp only at heq
      split at heq
      next =>
        obtain ⟨-, rfl⟩ := Prod.mk.inj heq
        exact hexpanded
      next =>
        obtain ⟨-, rfl⟩ := Prod.mk.inj heq
        exact hexpanded
    · have hlt := hinv.current_lt
      have hend := hinv.list.end_le
      unfold extent at hend
      have hmem : c ∈ pre ++ c :: post := by simp
      have hheader : Outside b c.1 := hinv.list.outside hb hmem
      have hread : (blockAt h.mem c.1).data = c.2 := by rw [hinv.list.linked.read_eq]
      rw [hfound, Option.bind_some, if_pos (hinv.list.ne_null hmem), hread,
        Nat.mod_eq_of_lt (show align4 size + blockSize + 4 < 2 ^ 32 by unfold blockSize; omega)]
        at hkmalloc
      obtain ⟨-, rfl⟩ := Prod.mk.inj (Option.some.inj hkmalloc)
      refine SamePayload.trans ?_ (samePayload_setFree hheader)
      -- the block that is taken is free, so it is not the one in use
      split
      next hroom =>
        exact hinv.list.samePayload_split (hlt.trans (by decide)) (by omega) hfree hb hused
      next => exact fun _ _ _ => rfl

/-- Freeing a pointer leaves the memory of the other blocks in use alone. -/
theorem kfree_payload (hinv : HeapInv credits h blocks live) {ptr : Nat}
    (hptr : ptr ∈ live.map Prod.fst) (hb : b ∈ blocks) (hused : b.2.free = false)
    (hother : b.1 + blockSize ≠ ptr) : SamePayload b h.mem (kfree ptr h).mem := by
  have hlt : h.heapCurrent < 2 ^ 32 := hinv.current_lt.trans (by decide)
  obtain ⟨pre, ⟨block, data⟩, post, rfl, haddr, -, hnotNull, hblock, hdata, hmagic⟩ :=
    hinv.block_of_live hptr
  have haround : b ∈ pre ∨ b ∈ post := by
    rcases List.mem_append.1 hb with hb | hb
    · exact Or.inl hb
    · rcases List.mem_cons.1 hb with rfl | hb
      · exact absurd haddr hother
      · exact Or.inr hb
  have hmarked := hinv.list.setFree true
  obtain ⟨data', post', heq, -, -, hpost⟩ := joinNext_shape (block, { data with free := true }) post
  have hnext := hmarked.mergeNext hlt
  rw [heq] at hnext
  dsimp only at hnext
  have hkfree : kfree ptr h =
      { h with mem := mergePrev (mergeNext (setFree h.mem block true) block) block } := by
    unfold kfree
    dsimp only
    rw [if_neg hnotNull, hblock, hdata, if_neg (not_not.2 hmagic)]
  have hmid : b ∈ pre ++ (block, { data with free := true }) :: post := by
    rcases haround with hpre | hbehind
    · simp [hpre]
    · simp [hbehind]
  -- the block behind is gone from the list if it was free
  have hrest : b ∈ pre ++ (block, data') :: post' := by
    rcases haround with hpre | hbehind
    · simp [hpre]
    · rcases hpost with ⟨rfl, -⟩ | ⟨d, rfl, hd⟩
      · simp [hbehind]
      · rcases List.mem_cons.1 hbehind with rfl | hbehind
        · exact absurd (hd.symm.trans hused) (by decide)
        · simp [hbehind]
  have hset : SamePayload b h.mem (setFree h.mem block true) :=
    samePayload_setFree (hinv.list.outside hb (c := (block, data)) (by simp))
  rw [hkfree]
  dsimp only
  exact hset.trans <| (hmarked.samePayload_mergeNext hlt hmid).trans
    (hnext.samePayload_mergePrev hrest)

end operations

/-! ## Moving a block -/

/-- Copying to another live pointer and freeing the source. -/
theorem HeapInv.move {dst size ptr n : Nat} {b : Block}
    (hinv : HeapInv credits h blocks ((dst, size) :: live)) (hptr : ptr ∈ live.map Prod.fst)
    (hb : b ∈ blocks) (haddr : b.1 + blockSize = ptr) (hsize : n ≤ size) (hfits : n ≤ b.2.size) :
    (∀ i < n, (kfree ptr { h with mem := memcpy h.mem dst ptr n }).mem (dst + i) =
        h.mem (ptr + i)) ∧
      ∀ c ∈ blocks, c.2.free = false → c.1 + blockSize ∈ live.map Prod.fst →
        c.1 + blockSize ≠ ptr →
        SamePayload c h.mem (kfree ptr { h with mem := memcpy h.mem dst ptr n }).mem := by
  have hcopied := hinv.copy List.mem_cons_self ptr hsize
  have hmem : ptr ∈ ((dst, size) :: live).map Prod.fst := List.mem_cons_of_mem _ hptr
  obtain ⟨new, hnew, hdst, hused, henough⟩ := hinv.owned (dst, size) List.mem_cons_self
  have hdistinct := hinv.distinct
  rw [List.map_cons, List.nodup_cons] at hdistinct
  dsimp only at hdst henough hdistinct
  refine ⟨fun i hi => ?_, fun c hc hcused hlive hother => ?_⟩
  · have hne : dst ≠ ptr := fun heq => hdistinct.1 (heq ▸ hptr)
    have happart := hinv.list.apart hnew hb (by rintro rfl; omega)
    have hkept := kfree_payload hcopied hmem hnew hused (by omega)
    unfold extent at happart
    rw [hkept (dst + i) (by omega) (by unfold extent; omega)]
    exact memcpy_of_mem (by omega) hi
  · have hne : c.1 + blockSize ≠ dst := fun heq => hdistinct.1 (heq ▸ hlive)
    have happart := hinv.list.apart hnew hc (by rintro rfl; omega)
    refine SamePayload.trans (fun x hlow hhigh => ?_) (kfree_payload hcopied hmem hc hcused hother)
    unfold extent at happart hhigh
    exact memcpy_of_notMem (by omega)

/-- The size of the block of a pointer. -/
def payloadSize (h : Heap σ) (ptr : Nat) : Nat := (blockAt h.mem (ptr - blockSize)).data.size

/-- What the block of a pointer holds. -/
def payload (h : Heap σ) (ptr : Nat) : List UInt8 := h.mem.loadList ptr (payloadSize h ptr)

theorem HeapInv.payloadSize_eq (hinv : HeapInv credits h blocks live) {b : Block}
    (hb : b ∈ blocks) : payloadSize h (b.1 + blockSize) = b.2.size := by
  obtain ⟨pre, post, rfl⟩ := List.append_of_mem hb
  rw [payloadSize, Nat.add_sub_cancel, hinv.list.linked.read_eq]

theorem HeapInv.payload_eq {h' : Heap σ} {blocks' : List Block} {live' : Live}
    (hinv : HeapInv credits h blocks live) (hinv' : HeapInv credits h' blocks' live') {b : Block}
    (hb : b ∈ blocks) (hb' : b ∈ blocks') (hsame : SamePayload b h.mem h'.mem) :
    payload h' (b.1 + blockSize) = payload h (b.1 + blockSize) := by
  rw [payload, payload, hinv.payloadSize_eq hb, hinv'.payloadSize_eq hb']
  refine Memory.loadList_congr fun x hlow hhigh => hsame x hlow ?_
  unfold extent
  omega

/-- What a caller of `krealloc` relies on. The answer, unless it is null, holds
what the old block held as far as both sizes go, and has the new size. All other
live pointers stay live and keep their contents, and so does the given one when
the answer is null. -/
structure Resized (s s' : HeapState σ) (ptr size r : Nat) : Prop where
  copied : r ≠ 0 → s'.heap.mem.loadList r (min (payloadSize s.heap ptr) size) =
    s.heap.mem.loadList ptr (min (payloadSize s.heap ptr) size)
  usable : r ≠ 0 → size ≤ payloadSize s'.heap r
  others : ∀ e ∈ s.live, e.1 ≠ ptr → e ∈ s'.live ∧ payload s'.heap e.1 = payload s.heap e.1
  failed : r = 0 → s'.live = s.live ∧ payload s'.heap ptr = payload s.heap ptr

/-- The blocks in use stay, but for the one that is freed. -/
theorem Reallocates.mem {ptr size r gained : Nat} {blocks' : List Block}
    (h : Reallocates blocks ptr size r gained blocks') (hsize : size ≠ 0) {c : Block}
    (hc : c ∈ blocks) (hused : c.2.free = false) (hother : c.1 + blockSize ≠ ptr ∨ r = 0) :
    c ∈ blocks' := by
  cases h with
  | kept => exact hc
  | served hserves => exact hserves.mem hc hused
  | freed hzero => exact absurd hzero hsize
  | moved hnotNull hserves haddr =>
      refine (mem_freed_iff hused).2 ?_
      rcases List.mem_append.1 (hserves.mem hc hused) with hbefore | hbehind
      · exact Or.inl hbefore
      · rcases List.mem_cons.1 hbehind with rfl | hbehind
        · exact absurd haddr (hother.resolve_right hnotNull)
        · exact Or.inr hbehind

/-- The memory after `krealloc`: every block in use but the given one is as before,
that one too when the answer is null, and the answer has its contents. -/
theorem krealloc_payload (hbudget : PageBudget grab credits)
    (hinv : HeapInv credits h blocks live) {ptr size r : Nat} {h' : Heap σ}
    (hsize : Mappable size) (hzero : size ≠ 0) (hptr : ptr ∈ live.map Prod.fst)
    (hkrealloc : krealloc grab ptr size h = some (r, h')) :
    (r ≠ 0 → ∀ i < min (payloadSize h ptr) size, h'.mem (r + i) = h.mem (ptr + i)) ∧
      ∀ c ∈ blocks, c.2.free = false → c.1 + blockSize ∈ live.map Prod.fst →
        c.1 + blockSize ≠ ptr ∨ r = 0 → SamePayload c h.mem h'.mem := by
  obtain ⟨pre, b, post, rfl, rfl, hused, hnotNull, hblock, hdata, hmagic⟩ :=
    hinv.block_of_live hptr
  have hb : b ∈ pre ++ b :: post := by simp
  rw [hinv.payloadSize_eq hb]
  unfold krealloc at hkrealloc
  dsimp only at hkrealloc
  rw [if_neg hnotNull, if_neg hzero, hblock, hdata, if_neg (not_not.2 hmagic)] at hkrealloc
  split at hkrealloc
  next =>
    obtain ⟨rfl, rfl⟩ := Prod.mk.inj (Option.some.inj hkrealloc)
    exact ⟨fun _ _ _ => rfl, fun _ _ _ _ _ _ _ _ => rfl⟩
  next hgrows =>
    obtain ⟨⟨new, grown⟩, hkmalloc, heq⟩ := Option.map_eq_some_iff.1 hkrealloc
    dsimp only at heq
    obtain ⟨r', grown', blocks', hserved, hinv', hserves⟩ := kmalloc_serves hbudget hinv hsize
    obtain ⟨rfl, rfl⟩ := Prod.mk.inj (Option.some.inj (hserved.symm.trans hkmalloc))
    have hkept (c : Block) (hc : c ∈ pre ++ b :: post) (hcused : c.2.free = false) :
        SamePayload c h.mem grown'.mem := kmalloc_payload hbudget hinv hkmalloc hc hcused
    split at heq
    next hnull =>
      obtain ⟨rfl, rfl⟩ := Prod.mk.inj heq
      exact ⟨fun hr => absurd rfl hr, fun c hc hcused _ _ => hkept c hc hcused⟩
    next hnew =>
      obtain ⟨rfl, rfl⟩ := Prod.mk.inj heq
      rw [if_neg hnew] at hinv'
      -- the old header is read again for the number of bytes to copy
      have hb' := hserves.mem hb hused
      have hread : (blockAt grown'.mem b.1).data.size = b.2.size := by
        obtain ⟨before, after, rfl⟩ := List.append_of_mem hb'
        rw [hinv'.list.linked.read_eq]
      rw [hread]
      obtain ⟨hcopied, hothers⟩ := hinv'.move hptr hb' rfl (Nat.le_of_not_le hgrows) (Nat.le_refl _)
      refine ⟨fun _ i hi => ?_, fun c hc hcused hlive hother => ?_⟩
      · have hlt : i < b.2.size := hi.trans_le (Nat.min_le_left _ _)
        rw [hcopied i hlt]
        exact hkept b hb hused _ (Nat.le_add_right _ _) (by unfold extent; omega)
      · exact (hkept c hc hcused).trans
          (hothers c (hserves.mem hc hcused) hcused hlive (hother.resolve_right hnew))

theorem krealloc_resized (hbudget : PageBudget grab credits) {s : HeapState σ}
    (hinv : HeapInv credits s.heap blocks s.live) {ptr size : Nat} (hsize : Mappable size)
    (hzero : size ≠ 0) (hptr : ptr ∈ s.live.map Prod.fst) :
    ∃ r s' blocks', stepHeap grab (.krealloc ptr size) s = some (r, s') ∧
      HeapInv credits s'.heap blocks' s'.live ∧ Resized s s' ptr size r := by
  obtain ⟨r, h', blocks', hkrealloc, hinv', hblocks⟩ :=
    krealloc_spec hbudget hinv hsize (Or.inr hptr)
  obtain ⟨hcopied, hkept⟩ := krealloc_payload hbudget hinv hsize hzero hptr hkrealloc
  have hsame {e : Nat × Nat} (he : e ∈ s.live) (hother : e.1 ≠ ptr ∨ r = 0) :
      payload h' e.1 = payload s.heap e.1 := by
    obtain ⟨c, hc, haddr, hused, -⟩ := hinv.owned e he
    have hlive := List.mem_map_of_mem (f := Prod.fst) he
    rw [← haddr] at hlive hother ⊢
    exact hinv.payload_eq hinv' hc (hblocks.mem hzero hc hused hother)
      (hkept c hc hused hlive hother)
  refine ⟨r, ⟨h', reallocated ptr size r s.live⟩, blocks', by rw [stepHeap, hkrealloc]; rfl, hinv',
    fun hr => ?_, fun hr => ?_, fun e he hne => ⟨?_, hsame he (Or.inl hne)⟩, fun hr => ⟨?_, ?_⟩⟩
  · refine List.map_congr_left fun i hi => ?_
    exact hcopied hr i (List.mem_range.1 hi)
  · rw [reallocated, if_pos hr] at hinv'
    obtain ⟨c, hc, haddr, -, henough⟩ := hinv'.owned (r, size) List.mem_cons_self
    dsimp only at haddr henough ⊢
    rw [← haddr, hinv'.payloadSize_eq hc]
    exact henough
  · have hreleased : e ∈ release ptr s.live := List.mem_filter.2 ⟨he, by simpa using hne⟩
    unfold reallocated
    split_ifs
    · exact List.mem_cons_of_mem _ hreleased
    · exact he
  · dsimp only
    rw [reallocated, if_neg (not_not.2 hr), if_neg hzero]
  · obtain ⟨e, he, rfl⟩ := List.mem_map.1 hptr
    exact hsame he (Or.inr hr)

/-- In every state that calls lead to, `krealloc` of a live pointer returns, keeps
the heap well formed, and keeps the contents of all live pointers. -/
theorem krealloc_preserves_contents (hbudget : PageBudget grab credits) (mem : Memory) (pages : σ)
    (hpages : credits pages ≤ 65536) (ops : List HeapOp)
    (hfits : Throughout (stepHeap grab) HeapOp.Fits ops ⟨heapInit grab mem pages, []⟩) :
    ∃ rs s, runAll (stepHeap grab) ops ⟨heapInit grab mem pages, []⟩ = some (rs, s) ∧
      ∀ ptr ∈ s.live.map Prod.fst, ∀ size, 0 < size → size ≤ 2 ^ 31 - 1 →
        ∃ r s' blocks', stepHeap grab (.krealloc ptr size) s = some (r, s') ∧
          HeapWellFormed s'.heap s'.live blocks' ∧ Resized s s' ptr size r := by
  obtain ⟨rs, s, blocks, hrun, hinv⟩ := heap_run_inv hbudget mem pages hpages ops hfits
  refine ⟨rs, s, hrun, fun ptr hptr size hpos hsize => ?_⟩
  obtain ⟨r, s', blocks', heq, hinv', hresized⟩ :=
    krealloc_resized hbudget hinv (mappable_of_le hsize) (Nat.ne_of_gt hpos) hptr
  exact ⟨r, s', blocks', heq, hinv'.wellFormed, hresized⟩

theorem krealloc_preserves_contents_countdown :
    ∃ rs s, runAll (stepHeap countdown) [.kmalloc 5, .kmalloc 7]
        ⟨heapInit countdown (fun _ => 0) 100, []⟩ = some (rs, s) ∧
      ∀ ptr ∈ s.live.map Prod.fst, ∀ size, 0 < size → size ≤ 2 ^ 31 - 1 →
        ∃ r s' blocks', stepHeap countdown (.krealloc ptr size) s = some (r, s') ∧
          HeapWellFormed s'.heap s'.live blocks' ∧ Resized s s' ptr size r :=
  krealloc_preserves_contents countdown_budget (fun _ => 0) 100 (by decide)
    [.kmalloc 5, .kmalloc 7]
    ⟨mappable_of_le (by decide), fun _ _ _ => ⟨mappable_of_le (by decide), fun _ _ _ => trivial⟩⟩

/-- A request of 0xFFFFEFED bytes leaves its block behind the last mapped page. The
heap grows over it when `krealloc` needs more room, and hands the same pointer out
again. -/
theorem krealloc_overwrites_live :
    ∃ rs s s', runAll (stepHeap countdown) [.kmalloc 5, .kmalloc 0xFFFFEFED]
        ⟨heapInit countdown (fun _ => 0) 200, []⟩ = some (rs, s) ∧
      s.live = [(0x440014, 0xFFFFEFED), (0x400014, 5)] ∧
      stepHeap countdown (.krealloc 0x400014 0x50000) s = some (0x440014, s') ∧
      ¬ Resized s s' 0x400014 0x50000 0x440014 := by
  have hrun : (runAll (stepHeap countdown) [.kmalloc 5, .kmalloc 0xFFFFEFED]
      ⟨heapInit countdown (fun _ => 0) 200, []⟩).map (fun result =>
        (result.2.live, payloadSize result.2.heap 0x440014,
          (stepHeap countdown (.krealloc 0x400014 0x50000) result.2).map fun last =>
            (last.1, payloadSize last.2.heap 0x440014))) =
      some ([(0x440014, 0xFFFFEFED), (0x400014, 5)], 0xFFFFEFF0,
        some (0x440014, 0x50000)) := by
    decide +kernel
  obtain ⟨⟨rs, s⟩, heq, hfacts⟩ := Option.map_eq_some_iff.1 hrun
  obtain ⟨hlive, hfacts⟩ := Prod.mk.inj hfacts
  obtain ⟨hbefore, hfacts⟩ := Prod.mk.inj hfacts
  obtain ⟨⟨r, s'⟩, hstep, hfacts⟩ := Option.map_eq_some_iff.1 hfacts
  obtain ⟨rfl, hafter⟩ := Prod.mk.inj hfacts
  refine ⟨rs, s, s', heq, hlive, hstep, fun hresized => ?_⟩
  dsimp only at hlive hbefore hafter
  have hsame := congrArg List.length
    (hresized.others (0x440014, 0xFFFFEFED) (by simp [hlive]) (by decide)).2
  simp only [payload, Memory.loadList_length] at hsame
  omega

end Dosfs
