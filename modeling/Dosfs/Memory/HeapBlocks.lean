import Dosfs.Memory.Heap

/-!
# The list of blocks

How the writes of the heap change the list of blocks in memory. The blocks lie
one behind the other, so a write to one block leaves the others alone, and each
operation replaces a short part of the list.
-/

namespace Dosfs

open Foundation LinkedList

/-! ## Fields of a block -/

section fields

variable {mem mem' : Memory} {block other value : Nat}

/-- The two blocks do not overlap. -/
def Far (block other : Nat) : Prop := other + blockSize ≤ block ∨ block + blockSize ≤ other

theorem Far.symm (hfar : Far block other) : Far other block := Or.symm hfar

theorem blockAt_congr (hsame : ∀ x, block ≤ x → x < block + blockSize → mem' x = mem x) :
    blockAt mem' block = blockAt mem block := by
  unfold blockSize at hsame
  have hload {addr : Nat} (hlow : block ≤ addr) (hhigh : addr + 4 ≤ block + 20) :
      mem'.loadLe addr 4 = mem.loadLe addr 4 :=
    Memory.loadLe_congr fun x hx hx' => hsame x (by omega) (by omega)
  unfold blockAt
  rw [hsame (block + 4) (by omega) (by omega), @hload (block + 16) (by omega) (by omega),
    @hload (block + 12) (by omega) (by omega), @hload (block + 8) (by omega) (by omega),
    hload (Nat.le_refl block) (by omega)]

theorem blockAt_overwrite_of_disjoint {addr count : Nat} {bytes : Memory}
    (hdisjoint : block + blockSize ≤ addr ∨ addr + count ≤ block) :
    blockAt (mem.overwrite addr count bytes) block = blockAt mem block :=
  blockAt_congr fun _ hlow hhigh => Memory.overwrite_of_notMem (by omega)

/-- A write to a field of one block leaves the others. -/
theorem blockAt_write_far {count : Nat} {bytes : Memory} (offset : Nat)
    (hfield : offset + count ≤ blockSize) (hfar : Far block other) :
    blockAt (mem.overwrite (block + offset) count bytes) other = blockAt mem other := by
  refine blockAt_overwrite_of_disjoint ?_
  unfold Far at hfar
  omega

theorem blockAt_setSize_far (hfar : Far block other) :
    blockAt (setSize mem block value) other = blockAt mem other :=
  blockAt_write_far 0 (by decide) hfar

theorem blockAt_setFree_far {free : Bool} (hfar : Far block other) :
    blockAt (setFree mem block free) other = blockAt mem other :=
  blockAt_write_far 4 (by decide) hfar

theorem blockAt_setNext_far (hfar : Far block other) :
    blockAt (setNext mem block value) other = blockAt mem other :=
  blockAt_write_far 8 (by decide) hfar

theorem blockAt_setPrev_far (hfar : Far block other) :
    blockAt (setPrev mem block value) other = blockAt mem other :=
  blockAt_write_far 12 (by decide) hfar

theorem blockAt_setMagic_far (hfar : Far block other) :
    blockAt (setMagic mem block value) other = blockAt mem other :=
  blockAt_write_far 16 (by decide) hfar

theorem loadLe_storeLe_field {offset offset' : Nat}
    (hdisjoint : offset' + 4 ≤ offset ∨ offset + 4 ≤ offset') :
    (mem.storeLe (block + offset) 4 value).loadLe (block + offset') 4 =
      mem.loadLe (block + offset') 4 :=
  Memory.loadLe_storeLe_of_disjoint (by omega)

theorem storeLe_field_free {offset : Nat} (hoffset : 5 ≤ offset ∨ offset + 4 ≤ 4) :
    mem.storeLe (block + offset) 4 value (block + 4) = mem (block + 4) :=
  Memory.overwrite_of_notMem (by omega)

theorem blockAt_setSize :
    blockAt (setSize mem block value) block =
      { blockAt mem block with
        data := { (blockAt mem block).data with size := value % 2 ^ 32 } } := by
  have hfield {offset : Nat} (hoffset : 4 ≤ offset) :
      (mem.storeLe block 4 value).loadLe (block + offset) 4 = mem.loadLe (block + offset) 4 :=
    Memory.loadLe_storeLe_of_disjoint (by omega)
  have hfree : mem.storeLe block 4 value (block + 4) = mem (block + 4) :=
    Memory.overwrite_of_notMem (by omega)
  unfold blockAt setSize
  rw [Memory.loadLe_storeLe_same, hfree, hfield (by decide), hfield (by decide),
    hfield (by decide)]
  rfl

theorem blockAt_setFree {free : Bool} :
    blockAt (setFree mem block free) block =
      { blockAt mem block with data := { (blockAt mem block).data with free } } := by
  have hfield {offset : Nat} (hoffset : 5 ≤ offset) (byte : UInt8) :
      (mem.storeByte (block + 4) byte).loadLe (block + offset) 4 =
        mem.loadLe (block + offset) 4 :=
    Memory.loadLe_storeByte_of_disjoint (by omega)
  have hsize (byte : UInt8) :
      (mem.storeByte (block + 4) byte).loadLe block 4 = mem.loadLe block 4 :=
    Memory.loadLe_storeByte_of_disjoint (by omega)
  unfold blockAt setFree
  rw [Memory.storeByte_same, hsize, hfield (by decide), hfield (by decide), hfield (by decide)]
  cases free <;> rfl

theorem blockAt_setNext :
    blockAt (setNext mem block value) block =
      { blockAt mem block with next := value % 2 ^ 32 } := by
  have hsize : (mem.storeLe (block + 8) 4 value).loadLe block 4 = mem.loadLe block 4 :=
    Memory.loadLe_storeLe_of_disjoint (by omega)
  unfold blockAt setNext
  rw [Memory.loadLe_storeLe_same, hsize, storeLe_field_free (by decide),
    loadLe_storeLe_field (by decide), loadLe_storeLe_field (by decide)]
  rfl

theorem blockAt_setPrev :
    blockAt (setPrev mem block value) block =
      { blockAt mem block with prev := value % 2 ^ 32 } := by
  have hsize : (mem.storeLe (block + 12) 4 value).loadLe block 4 = mem.loadLe block 4 :=
    Memory.loadLe_storeLe_of_disjoint (by omega)
  unfold blockAt setPrev
  rw [Memory.loadLe_storeLe_same, hsize, storeLe_field_free (by decide),
    loadLe_storeLe_field (by decide), loadLe_storeLe_field (by decide)]
  rfl

theorem blockAt_setMagic :
    blockAt (setMagic mem block value) block =
      { blockAt mem block with
        data := { (blockAt mem block).data with magic := value % 2 ^ 32 } } := by
  have hsize : (mem.storeLe (block + 16) 4 value).loadLe block 4 = mem.loadLe block 4 :=
    Memory.loadLe_storeLe_of_disjoint (by omega)
  unfold blockAt setMagic
  rw [Memory.loadLe_storeLe_same, hsize, storeLe_field_free (by decide),
    loadLe_storeLe_field (by decide), loadLe_storeLe_field (by decide)]
  rfl

theorem blockAt_initBlock {size next prev : Nat} {free : Bool} (hsize : size < 2 ^ 32)
    (hnext : next < 2 ^ 32) (hprev : prev < 2 ^ 32) :
    blockAt (initBlock mem block size free next prev) block =
      ⟨⟨size, free, blockMagic⟩, next, prev⟩ := by
  rw [initBlock, blockAt_setPrev, blockAt_setNext, blockAt_setMagic, blockAt_setFree,
    blockAt_setSize, Nat.mod_eq_of_lt hsize, Nat.mod_eq_of_lt hnext, Nat.mod_eq_of_lt hprev]
  rfl

theorem blockAt_initBlock_far {size next prev : Nat} {free : Bool} (hfar : Far block other) :
    blockAt (initBlock mem block size free next prev) other = blockAt mem other := by
  rw [initBlock, blockAt_setPrev_far hfar, blockAt_setNext_far hfar, blockAt_setMagic_far hfar,
    blockAt_setFree_far hfar, blockAt_setSize_far hfar]

end fields

/-- `if (next) next->prev = prev`. -/
def setPrevOf (mem : Memory) (next prev : Nat) : Memory :=
  if next ≠ 0 then setPrev mem next prev else mem

theorem blockAt_setPrevOf {mem : Memory} {next prev : Nat} (hnext : next ≠ 0) :
    blockAt (setPrevOf mem next prev) next =
      { blockAt mem next with prev := prev % 2 ^ 32 } := by
  rw [setPrevOf, if_pos hnext, blockAt_setPrev]

theorem blockAt_setPrevOf_far {mem : Memory} {next prev other : Nat}
    (hfar : next = 0 ∨ Far next other) :
    blockAt (setPrevOf mem next prev) other = blockAt mem other := by
  unfold setPrevOf
  split
  next hnext => exact blockAt_setPrev_far (hfar.resolve_left hnext)
  next => rfl

/-- The writes of a split, when the new block does not overlap the old one. -/
theorem splitBlock_eq {mem : Memory} {block size new : Nat}
    (hnew : (block + blockSize + size) % 2 ^ 32 = new) (hfar : Far new block) :
    splitBlock mem block size =
      setSize (setNext (setPrevOf
        (initBlock mem new
          (((blockAt mem block).data.size + 2 ^ 32 - size + 2 ^ 32 - blockSize) % 2 ^ 32) true
          (blockAt mem block).next block)
        (blockAt mem block).next new) block new) block size := by
  have hinit {size next prev : Nat} {free : Bool} :
      blockAt (initBlock mem new size free next prev) block = blockAt mem block :=
    blockAt_initBlock_far hfar
  rw [splitBlock, hnew]
  rw [blockAt_setMagic_far hfar, blockAt_setFree_far hfar, blockAt_setSize_far hfar]
  change setSize (setNext (if (blockAt (initBlock mem new _ true _ block) block).next ≠ 0 then
    setPrev (initBlock mem new _ true _ block)
      (blockAt (initBlock mem new _ true _ block) block).next new
    else initBlock mem new _ true _ block) block new) block size = _
  rw [hinit]
  rfl

/-! ## The list -/

/-- A block, as the list holds it: its address and its data. -/
abbrev Block := Nat × BlockData

/-- The bytes a block takes, with its header. -/
def extent (data : BlockData) : Nat := blockSize + data.size

/-- The blocks from `head` on lie in order between the start of the heap and
`hi`, aligned and with their magic number. -/
structure BlockList (mem : Memory) (head : Nat) (blocks : List Block) (hi : Nat) : Prop where
  linked : Segment (blockAt mem) 0 blocks 0
  head : head = firstAddr blocks 0
  placed : Placed extent heapStart blocks hi
  sound : ∀ b ∈ blocks, b.1 % 4 = 0 ∧ b.2.magic = blockMagic

/-- The blocks from `b` on, after `b` was joined with a free successor. -/
def joinNext (b : Block) : List Block → List Block
  | [] => [b]
  | c :: post =>
      if c.2.free then (b.1, { b.2 with size := b.2.size + (blockSize + c.2.size) }) :: post
      else b :: c :: post

/-- The blocks up to a free one and those from it on, after it was joined with a
free predecessor. -/
def joinPrev (pre post : List Block) : List Block :=
  match pre.getLast? with
  | none => post
  | some b => if b.2.free then pre.dropLast ++ joinNext b post else pre ++ post

namespace BlockList

variable {mem mem' : Memory} {head hi : Nat} {blocks pre mid mid' post : List Block}
  {block : Nat} {data : BlockData}

theorem ne_null (hlist : BlockList mem head blocks hi) {b : Block} (hb : b ∈ blocks) :
    b.1 ≠ 0 := by
  have hlow := (hlist.placed.bounds hb).1
  unfold heapStart at hlow
  omega

theorem end_le_of_before (hlist : BlockList mem head (pre ++ (block, data) :: post) hi)
    {b : Block} (hb : b ∈ pre) : b.1 + extent b.2 ≤ block :=
  (List.pairwise_append.1 hlist.placed.pairwise).2.2 b hb (block, data) (by simp)

theorem far_of_before (hlist : BlockList mem head (pre ++ (block, data) :: post) hi) {b : Block}
    (hb : b ∈ pre) : Far block b.1 :=
  Or.inl (Nat.le_trans (Nat.add_le_add_left (Nat.le_add_right _ _) _) (hlist.end_le_of_before hb))

theorem end_le_of_after (hlist : BlockList mem head (pre ++ (block, data) :: post) hi)
    {b : Block} (hb : b ∈ post) : block + extent data ≤ b.1 :=
  List.rel_of_pairwise_cons (List.pairwise_append.1 hlist.placed.pairwise).2.1 hb

theorem far_of_after (hlist : BlockList mem head (pre ++ (block, data) :: post) hi) {b : Block}
    (hb : b ∈ post) : Far block b.1 :=
  Or.inr (Nat.le_trans (Nat.add_le_add_left (Nat.le_add_right _ _) _) (hlist.end_le_of_after hb))

theorem end_le (hlist : BlockList mem head (pre ++ (block, data) :: post) hi) :
    block + extent data ≤ hi :=
  (hlist.placed.bounds (x := (block, data)) (by simp)).2

theorem lt_of_hi (hlist : BlockList mem head blocks hi) (hhi : hi < 2 ^ 32) {b : Block}
    (hb : b ∈ blocks) : b.1 < 2 ^ 32 :=
  Nat.lt_of_le_of_lt (Nat.le_trans (Nat.le_add_right _ _) (hlist.placed.bounds hb).2) hhi

/-- The link to the blocks behind a block fits in 32 bits. -/
theorem firstAddr_lt (hlist : BlockList mem head (pre ++ post) hi) (hhi : hi < 2 ^ 32) :
    firstAddr post 0 < 2 ^ 32 := by
  cases post with
  | nil => exact Nat.two_pow_pos 32
  | cons b post => exact hlist.lt_of_hi hhi (by simp)

/-- Replace a part of the list. The blocks before it stay, of the ones behind it
at most the first backward link changes, and the new part lies where the old one
was. -/
theorem edit (hlist : BlockList mem head (pre ++ mid ++ post) hi)
    (hbefore : ∀ b ∈ pre, blockAt mem' b.1 = blockAt mem b.1)
    (hfirst : firstAddr mid' (firstAddr post 0) = firstAddr mid (firstAddr post 0))
    (hmid : Segment (blockAt mem') (lastAddr pre 0) mid' (firstAddr post 0))
    (hnext : ∀ b ∈ post.head?, blockAt mem' b.1 =
      { blockAt mem b.1 with prev := lastAddr mid' (lastAddr pre 0) })
    (hafter : ∀ b ∈ post.tail, blockAt mem' b.1 = blockAt mem b.1)
    (hplaced : ∀ lo hi, Placed extent lo mid hi → Placed extent lo mid' hi)
    (hsound : ∀ b ∈ mid', b.1 % 4 = 0 ∧ b.2.magic = blockMagic) :
    BlockList mem' head (pre ++ mid' ++ post) hi where
  linked := by
    have hpost := (segment_append.1 hlist.linked).2
    exact hlist.linked.replace hbefore hfirst hmid (hpost.relink hnext hafter)
  head := by
    have hhead := hlist.head
    rw [List.append_assoc, firstAddr_append, firstAddr_append] at hhead ⊢
    rw [hfirst]
    exact hhead
  placed := by
    obtain ⟨at₁, hprefix, hpost⟩ := placed_append.1 hlist.placed
    obtain ⟨at₀, hpre, hold⟩ := placed_append.1 hprefix
    exact placed_append.2 ⟨at₁, placed_append.2 ⟨at₀, hpre, hplaced _ _ hold⟩, hpost⟩
  sound b hb := by
    rcases List.mem_append.1 hb with hb | hb
    · rcases List.mem_append.1 hb with hb | hb
      · exact hlist.sound b (by simp [hb])
      · exact hsound b hb
    · exact hlist.sound b (by simp [hb])

theorem mem_of_head? {b : Block} (hb : b ∈ post.head?) : b ∈ post := by
  obtain ⟨rest, rfl⟩ := List.head?_eq_some_iff.1 hb
  exact List.mem_cons_self

/-- The backward link of the block behind another. -/
theorem prev_of_after (hlist : BlockList mem head (pre ++ (block, data) :: post) hi) {b : Block}
    (hb : b ∈ post.head?) : (blockAt mem b.1).prev = block := by
  obtain ⟨rest, rfl⟩ := List.head?_eq_some_iff.1 hb
  have hlinked := hlist.linked
  rw [List.append_cons] at hlinked
  rw [hlinked.read_eq, lastAddr_append]
  rfl

/-- The first of the blocks behind a place does not overlap a block before it. -/
theorem first_far {other : Nat} (hfar : ∀ b ∈ post, Far other b.1) :
    firstAddr post 0 = 0 ∨ Far (firstAddr post 0) other := by
  cases post with
  | nil => exact Or.inl rfl
  | cons b post => exact Or.inr (hfar b List.mem_cons_self).symm

/-- Nor does it overlap one behind it. -/
theorem first_far_tail (hlist : BlockList mem head (pre ++ post) hi) {b : Block}
    (hb : b ∈ post.tail) : firstAddr post 0 = 0 ∨ Far (firstAddr post 0) b.1 := by
  cases post with
  | nil => exact Or.inl rfl
  | cons c post => exact Or.inr (@far_of_after _ _ _ _ _ c.1 c.2 hlist b hb)

theorem firstAddr_of_head? {b : Block} (hb : b ∈ post.head?) : firstAddr post 0 = b.1 := by
  obtain ⟨rest, rfl⟩ := List.head?_eq_some_iff.1 hb
  rfl

theorem setFree (hlist : BlockList mem head (pre ++ (block, data) :: post) hi) (free : Bool) :
    BlockList (setFree mem block free) head (pre ++ (block, { data with free }) :: post) hi := by
  have hread := hlist.linked.read_eq
  have hsound := hlist.sound (block, data) (by simp)
  have hfar (b : Block) (hb : b ∈ post) : blockAt (Dosfs.setFree mem block free) b.1 =
      blockAt mem b.1 := blockAt_setFree_far (hlist.far_of_after hb)
  have hnext (b : Block) (hb : b ∈ post.head?) : blockAt (Dosfs.setFree mem block free) b.1 =
      { blockAt mem b.1 with prev := block } := by
    rw [hfar b (mem_of_head? hb), ← hlist.prev_of_after hb]
  have hbefore (b : Block) (hb : b ∈ pre) := hlist.far_of_before hb
  rw [List.append_cons] at hlist ⊢
  refine hlist.edit (fun b hb => blockAt_setFree_far (hbefore b hb)) rfl ⟨?_, trivial⟩ hnext
    (fun b hb => hfar b (List.mem_of_mem_tail hb)) (fun lo hi hplaced => hplaced) ?_
  · rw [blockAt_setFree, hread]
    rfl
  · intro b hb
    obtain rfl := List.mem_singleton.1 hb
    exact hsound

/-- Nor does it overlap a block before the one in front of it. -/
theorem first_far_before (hlist : BlockList mem head (pre ++ (block, data) :: post) hi) {b : Block}
    (hb : b ∈ pre) : firstAddr post 0 = 0 ∨ Far (firstAddr post 0) b.1 :=
  first_far fun c hc => by
    have hle := hlist.end_le_of_before hb
    have hle' := hlist.end_le_of_after hc
    unfold extent at hle hle'
    exact Or.inr (by omega)

/-- A header inside of the data of a block overlaps neither its header nor another block. -/
theorem inner_far (hlist : BlockList mem head (pre ++ (block, data) :: post) hi) {new : Nat}
    (hlow : block + blockSize ≤ new) (hhigh : new + blockSize ≤ block + extent data) :
    (∀ b ∈ pre, Far new b.1) ∧ Far new block ∧ ∀ b ∈ post, Far new b.1 := by
  refine ⟨fun b hb => ?_, Or.inl hlow, fun b hb => ?_⟩
  · have hle := hlist.end_le_of_before hb
    unfold extent at hle
    exact Or.inl (by omega)
  · exact Or.inr (hhigh.trans (hlist.end_le_of_after hb))

/-- The two parts of a block take its place. -/
theorem placed_cut {lo size : Nat} (h : Placed extent lo [(block, data)] hi)
    (hsize : size + blockSize ≤ data.size) :
    Placed extent lo [(block, { data with size }),
      (block + blockSize + size, ⟨data.size - size - blockSize, true, blockMagic⟩)] hi := by
  obtain ⟨hlo, hplaced⟩ := h
  unfold extent at hplaced
  have hle := hplaced.le
  dsimp only at hle
  refine ⟨hlo, ?_, ?_⟩
  · dsimp only [extent]
    omega
  · change block + blockSize + size + extent _ ≤ hi
    dsimp only [extent]
    omega

/-- A free block is cut in two. -/
theorem split (hlist : BlockList mem head (pre ++ (block, data) :: post) hi) (hhi : hi < 2 ^ 32)
    {size : Nat} (hsize : size + blockSize ≤ data.size) (haligned : size % 4 = 0) :
    BlockList (splitBlock mem block size) head
      (pre ++ (block, { data with size }) ::
        (block + blockSize + size, ⟨data.size - size - blockSize, true, blockMagic⟩) :: post)
      hi := by
  have hread : blockAt mem block = ⟨data, firstAddr post 0, lastAddr pre 0⟩ :=
    hlist.linked.read_eq
  have hsound := hlist.sound (block, data) (by simp)
  have hend := hlist.end_le
  unfold extent at hend
  have hlinked := hlist
  rw [List.append_cons] at hlinked
  have hfirst := hlinked.firstAddr_lt hhi
  set new := block + blockSize + size with hnew
  have hnewLt : new < 2 ^ 32 := by omega
  obtain ⟨hbefore, hblock, hafter⟩ := hlist.inner_far (show block + blockSize ≤ new by omega)
    (by unfold extent; omega)
  rw [splitBlock_eq (Nat.mod_eq_of_lt hnewLt) hblock, hread]
  have hsizes : (data.size + 2 ^ 32 - size + 2 ^ 32 - blockSize) % 2 ^ 32 =
      data.size - size - blockSize := by omega
  dsimp only
  rw [hsizes, List.append_cons, List.append_cons, List.append_assoc _ [_] [_],
    List.singleton_append]
  refine hlinked.edit (fun b hb => ?_) rfl ⟨?_, ?_, trivial⟩ (fun b hb => ?_) (fun b hb => ?_)
    (fun lo hi hplaced => ?_) ?_
  -- the blocks before, the two parts, the block behind them, the others
  · have hfar := hlist.far_of_before hb
    rw [blockAt_setSize_far hfar, blockAt_setNext_far hfar,
      blockAt_setPrevOf_far (hlist.first_far_before hb), blockAt_initBlock_far (hbefore b hb)]
  · rw [blockAt_setSize, blockAt_setNext,
      blockAt_setPrevOf_far (first_far fun b hb => hlist.far_of_after hb),
      blockAt_initBlock_far hblock, hread, Nat.mod_eq_of_lt hnewLt,
      Nat.mod_eq_of_lt (show size < 2 ^ 32 by omega)]
    rfl
  · rw [blockAt_setSize_far hblock.symm, blockAt_setNext_far hblock.symm,
      blockAt_setPrevOf_far (first_far hafter),
      blockAt_initBlock (by omega) hfirst (by omega)]
    rfl
  · have hmem := mem_of_head? hb
    have hfar := hlist.far_of_after hmem
    rw [blockAt_setSize_far hfar, blockAt_setNext_far hfar, firstAddr_of_head? hb,
      blockAt_setPrevOf (hlist.ne_null (by simp [hmem])), blockAt_initBlock_far (hafter b hmem),
      Nat.mod_eq_of_lt hnewLt]
    rfl
  · have hmem := List.mem_of_mem_tail hb
    have hfar := hlist.far_of_after hmem
    rw [blockAt_setSize_far hfar, blockAt_setNext_far hfar,
      blockAt_setPrevOf_far (hlinked.first_far_tail hb), blockAt_initBlock_far (hafter b hmem)]
  · exact placed_cut hplaced hsize
  · intro b hb
    simp only [List.mem_cons, List.not_mem_nil, or_false] at hb
    rcases hb with rfl | rfl
    · exact hsound
    · refine ⟨?_, rfl⟩
      have haddr := hsound.1
      dsimp only at haddr ⊢
      unfold blockSize at hnew
      omega

/-- A block takes over the one behind it, and the space between the two. -/
theorem absorb {next : Nat} {nextData : BlockData}
    (hlist : BlockList mem head (pre ++ (block, data) :: (next, nextData) :: post) hi)
    (hhi : hi < 2 ^ 32) :
    BlockList
      (setPrevOf (setNext (setSize mem block (data.size + (blockSize + nextData.size))) block
        (firstAddr post 0)) (firstAddr post 0) block)
      head (pre ++ (block, { data with size := data.size + (blockSize + nextData.size) }) :: post)
      hi := by
  have hread : blockAt mem block = ⟨data, next, lastAddr pre 0⟩ := hlist.linked.read_eq
  have hsound := hlist.sound (block, data) (by simp)
  have hblockLt : block < 2 ^ 32 := hlist.lt_of_hi hhi (b := (block, data)) (by simp)
  have hsplit : pre ++ (block, data) :: (next, nextData) :: post =
      pre ++ [(block, data), (next, nextData)] ++ post := by simp
  have hparts := hlist
  rw [hsplit] at hparts
  have hfirst := hparts.firstAddr_lt hhi
  have hnext := hlist.end_le_of_after (b := (next, nextData)) (by simp)
  have hend := (hlist.placed.bounds (x := (next, nextData)) (by simp)).2
  have hafter (b : Block) (hb : b ∈ post) : Far block b.1 := hlist.far_of_after (by simp [hb])
  have hlink (b : Block) (hb : b ∈ pre) : firstAddr post 0 = 0 ∨ Far (firstAddr post 0) b.1 :=
    first_far fun c hc => by
      have hle := hlist.end_le_of_before hb
      have hle' := hlist.end_le_of_after (b := c) (by simp [hc])
      unfold extent at hle hle'
      exact Or.inr (by omega)
  unfold extent at hnext hend
  dsimp only at hnext hend
  rw [List.append_cons]
  refine hparts.edit (fun b hb => ?_) rfl ⟨?_, trivial⟩ (fun b hb => ?_) (fun b hb => ?_)
    (fun lo hi hplaced => ?_) ?_
  -- the blocks before, the block itself, the one behind it now, the others
  · have hfar := hlist.far_of_before hb
    rw [blockAt_setPrevOf_far (hlink b hb), blockAt_setNext_far hfar, blockAt_setSize_far hfar]
  · rw [blockAt_setPrevOf_far (first_far hafter), blockAt_setNext, blockAt_setSize, hread,
      Nat.mod_eq_of_lt hfirst, Nat.mod_eq_of_lt (show _ < 2 ^ 32 by omega)]
    rfl
  · have hmem := mem_of_head? hb
    have hfar := hafter b hmem
    rw [firstAddr_of_head? hb, blockAt_setPrevOf (hlist.ne_null (by simp [hmem])),
      blockAt_setNext_far hfar, blockAt_setSize_far hfar, Nat.mod_eq_of_lt hblockLt]
    rfl
  · have hfar := hafter b (List.mem_of_mem_tail hb)
    rw [blockAt_setPrevOf_far (hparts.first_far_tail hb), blockAt_setNext_far hfar,
      blockAt_setSize_far hfar]
  · -- it ends where the absorbed block ended
    obtain ⟨hlo, hbehind, hplaced⟩ := hplaced
    have hle := hplaced.le
    dsimp only [extent] at hbehind hle
    refine ⟨hlo, ?_⟩
    change block + extent _ ≤ hi
    dsimp only [extent]
    omega
  · intro b hb
    obtain rfl := List.mem_singleton.1 hb
    exact hsound

/-- The writes that join a block with a free one behind it. -/
theorem mergeNext_eq {next : Nat} {nextData : BlockData}
    (hlist : BlockList mem head (pre ++ (block, data) :: (next, nextData) :: post) hi)
    (hhi : hi < 2 ^ 32) :
    Dosfs.mergeNext mem block =
      if nextData.free then
        setPrevOf (setNext (setSize mem block (data.size + (blockSize + nextData.size))) block
          (firstAddr post 0)) (firstAddr post 0) block
      else mem := by
  have hread : blockAt mem block = ⟨data, next, lastAddr pre 0⟩ := hlist.linked.read_eq
  have hnext : blockAt mem next = ⟨nextData, firstAddr post 0, block⟩ := by
    have hlinked := hlist.linked
    rw [List.append_cons] at hlinked
    rw [hlinked.read_eq (x := (next, nextData)), lastAddr_append]
    rfl
  have hnotNull : next ≠ 0 := hlist.ne_null (b := (next, nextData)) (by simp)
  have hfar : Far block next := hlist.far_of_after (b := (next, nextData)) (by simp)
  unfold Dosfs.mergeNext
  rw [hread]
  simp only [hnext]
  cases hfree : nextData.free with
  | false => simp
  | true =>
      -- mergeNext rereads the header after each of its writes: these are the values it sees.
      let grown := setSize mem block (data.size + (blockSize + nextData.size))
      have hparts : BlockList mem head (pre ++ [(block, data), (next, nextData)] ++ post) hi := by
        simpa using hlist
      have hblock : (blockAt grown block).next = next := by
        rw [blockAt_setSize, hread]
      have hbehind : (blockAt grown next).next = firstAddr post 0 := by
        rw [blockAt_setSize_far hfar, hnext]
      have hlinked : (blockAt (setNext grown block (firstAddr post 0)) block).next =
          firstAddr post 0 := by
        rw [blockAt_setNext]
        exact Nat.mod_eq_of_lt (hparts.firstAddr_lt hhi)
      rw [if_pos ⟨hnotNull, rfl⟩, if_pos rfl]
      simp only [grown] at hblock hbehind hlinked
      simp only [hblock, hbehind, hlinked]
      rfl

theorem mergeNext_last (hlist : BlockList mem head (pre ++ [(block, data)]) hi) :
    Dosfs.mergeNext mem block = mem := by
  have hread : blockAt mem block = ⟨data, 0, lastAddr pre 0⟩ := hlist.linked.read_eq
  unfold Dosfs.mergeNext
  rw [hread]
  exact if_neg fun hnext => hnext.1 rfl

theorem mergeNext (hlist : BlockList mem head (pre ++ (block, data) :: post) hi)
    (hhi : hi < 2 ^ 32) :
    BlockList (mergeNext mem block) head (pre ++ joinNext (block, data) post) hi := by
  cases post with
  | nil =>
      rw [hlist.mergeNext_last]
      exact hlist
  | cons c post =>
      obtain ⟨next, nextData⟩ := c
      rw [hlist.mergeNext_eq hhi]
      cases hfree : nextData.free with
      | false => simpa [joinNext, hfree] using hlist
      | true => simpa [joinNext, hfree] using hlist.absorb hhi

/-- The writes that join a block with a free one before it. -/
theorem mergePrev_eq {prev : Nat} {prevData : BlockData}
    (hlist : BlockList mem head (pre ++ (prev, prevData) :: (block, data) :: post) hi) :
    Dosfs.mergePrev mem block =
      if prevData.free then
        setPrevOf (setNext (setSize mem prev (prevData.size + (blockSize + data.size))) prev
          (firstAddr post 0)) (firstAddr post 0) prev
      else mem := by
  have hread : blockAt mem block = ⟨data, firstAddr post 0, prev⟩ := by
    have hlinked := hlist.linked
    rw [List.append_cons] at hlinked
    rw [hlinked.read_eq (x := (block, data)), lastAddr_append]
    rfl
  have hprev : (blockAt mem prev).data = prevData := by
    rw [hlist.linked.read_eq (x := (prev, prevData))]
  have hfar : Far prev block := hlist.far_of_after (b := (block, data)) (by simp)
  have hnotNull : prev ≠ 0 := hlist.ne_null (b := (prev, prevData)) (by simp)
  unfold Dosfs.mergePrev
  rw [hread]
  simp only [hprev]
  cases hprevFree : prevData.free with
  | false => simp
  | true =>
      let grown := setSize mem prev (prevData.size + (blockSize + data.size))
      have hblock : blockAt grown block = ⟨data, firstAddr post 0, prev⟩ := by
        rw [blockAt_setSize_far hfar, hread]
      have hlinked : blockAt (setNext grown prev (firstAddr post 0)) block =
          ⟨data, firstAddr post 0, prev⟩ := by
        rw [blockAt_setNext_far hfar, hblock]
      simp only [grown] at hblock hlinked
      rw [if_pos ⟨hnotNull, rfl⟩, if_pos rfl]
      simp only [hblock, hlinked]
      rfl

theorem mergePrev_first (hlist : BlockList mem head ((block, data) :: post) hi) :
    Dosfs.mergePrev mem block = mem := by
  have hread : blockAt mem block = ⟨data, firstAddr post 0, 0⟩ := hlist.linked.1
  unfold Dosfs.mergePrev
  rw [hread]
  exact if_neg fun hprev => hprev.1 rfl

/-- Joining with the predecessor is joining the predecessor with its successor. -/
theorem mergePrev (hlist : BlockList mem head (pre ++ (block, data) :: post) hi)
    (hhi : hi < 2 ^ 32) (hfree : data.free = true) :
    BlockList (mergePrev mem block) head (joinPrev pre ((block, data) :: post)) hi := by
  rcases List.eq_nil_or_concat pre with rfl | ⟨pre, ⟨prev, prevData⟩, rfl⟩
  · rw [List.nil_append] at hlist
    rw [hlist.mergePrev_first]
    exact hlist
  · rw [List.concat_eq_append, List.append_assoc, List.singleton_append] at hlist
    rw [hlist.mergePrev_eq, List.concat_eq_append]
    simp only [joinPrev, List.getLast?_append, List.getLast?_singleton, Option.some_or,
      List.dropLast_concat]
    cases hprevFree : prevData.free with
    | false => simpa using hlist
    | true =>
        rw [if_pos rfl, if_pos rfl, joinNext, if_pos hfree]
        exact hlist.absorb hhi

end BlockList

end Dosfs
