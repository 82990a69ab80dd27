import Mathlib.Order.Bounds.Basic
import Mathlib.Data.Finset.Max
import Dosfs.Foundation.Bitmap
import Dosfs.Foundation.Run

/-!
# The physical memory manager

A translation of `rust/src/pmm.rs`, which `memory/pmm.c` only wraps: a bitmap
with one bit for each page of physical memory, and counters beside it. The
abstract view is the finite set of marked pages. Allocation marks the least
clear page and freeing clears one, so every run stays a run of the set.
-/

namespace Dosfs

open Foundation

def bitmapSize : Nat := 8192

def pageSize : Nat := 4096

/-- The statics of the allocator. -/
structure Pmm where
  bitmap : Memory
  totalPages : Nat
  usedPages : Nat

def bitmapSet (bitmap : Memory) (bit : Nat) : Memory := bitmap.setBit bit

def bitmapClear (bitmap : Memory) (bit : Nat) : Memory := bitmap.clearBit bit

def bitmapTest (bitmap : Memory) (bit : Nat) : Bool := bitmap.testBit bit

/-- The loops of `rust_pmm_init` that reserve the pages from `lo` to `hi`. -/
def bitmapSetRange (bitmap : Memory) (lo hi : Nat) : Memory :=
  (List.range' lo (hi - lo)).foldl bitmapSet bitmap

/-- The linker symbol `__kernel_end` is a parameter. -/
def rustPmmInit (kernelEnd totalMemory : Nat) : Pmm :=
  let tp := totalMemory / pageSize
  let tp := if bitmapSize * 8 < tp then bitmapSize * 8 else tp
  let reservedPages := (kernelEnd + pageSize - 1) % 2 ^ 32 / pageSize
  let bitmap := bitmapSetRange (fun _ => 0) 0 reservedPages
  let bitmapPages := (bitmapSize + pageSize - 1) / pageSize
  let bitmap := bitmapSetRange bitmap 0 bitmapPages
  -- the VGA text buffer
  let vgaStart := 0xB8000 / pageSize
  let vgaEnd := (0xB8000 + 80 * 25 * 2 + pageSize - 1) / pageSize
  let bitmap := bitmapSetRange bitmap vgaStart vgaEnd
  { bitmap, totalPages := tp, usedPages := (List.range tp).countP (bitmapTest bitmap) }

/-- The address of the page, or null. -/
def rustPmmAllocPage (pmm : Pmm) : Nat × Pmm :=
  match (List.range pmm.totalPages).find? fun i => !bitmapTest pmm.bitmap i with
  | some i =>
      (i * pageSize,
        { pmm with bitmap := bitmapSet pmm.bitmap i, usedPages := pmm.usedPages + 1 })
  | none => (0, pmm)

def rustPmmFreePage (page : Nat) (pmm : Pmm) : Pmm :=
  if page = 0 then pmm
  else
    let index := page / pageSize
    if index < pmm.totalPages ∧ bitmapTest pmm.bitmap index then
      { pmm with bitmap := bitmapClear pmm.bitmap index, usedPages := pmm.usedPages - 1 }
    else pmm

def rustPmmGetFreeCount (pmm : Pmm) : Nat := pmm.totalPages - pmm.usedPages

def rustPmmGetTotalCount (pmm : Pmm) : Nat := pmm.totalPages

namespace Pmm

variable {pmm : Pmm} {page i : Nat}

/-! ## The set of marked pages -/

/-- The pages marked used. -/
def marked (pmm : Pmm) : Finset Nat := pmm.bitmap.bitsBelow pmm.totalPages

/-- The pages that can be handed out. -/
def clear (pmm : Pmm) : Finset Nat := Finset.range pmm.totalPages \ pmm.marked

/-- The counter is the number of marked pages. -/
def Counted (pmm : Pmm) : Prop := pmm.usedPages = pmm.marked.card

theorem mem_marked : i ∈ pmm.marked ↔ i < pmm.totalPages ∧ bitmapTest pmm.bitmap i = true :=
  Memory.mem_bitsBelow

theorem mem_clear : i ∈ pmm.clear ↔ i < pmm.totalPages ∧ bitmapTest pmm.bitmap i = false := by
  simp only [clear, Finset.mem_sdiff, Finset.mem_range, mem_marked, not_and, Bool.not_eq_true]
  constructor
  · exact fun h => ⟨h.1, h.2 h.1⟩
  · exact fun h => ⟨h.1, fun _ => h.2⟩

theorem notMem_marked_of_clear (hclear : i ∈ pmm.clear) : i ∉ pmm.marked :=
  (Finset.mem_sdiff.mp hclear).2

theorem clear_card : pmm.clear.card = pmm.totalPages - pmm.marked.card := by
  have hsub : pmm.marked ⊆ Finset.range pmm.totalPages := Finset.filter_subset _ _
  rw [clear, Finset.card_sdiff_of_subset hsub, Finset.card_range]

/-- The state after page `i` was handed out. -/
def markPage (pmm : Pmm) (i : Nat) : Pmm :=
  { pmm with bitmap := bitmapSet pmm.bitmap i, usedPages := pmm.usedPages + 1 }

/-- Allocation hands out the least clear page, or fails with nothing clear. -/
theorem rustPmmAllocPage_cases (pmm : Pmm) :
    (∃ i, IsLeast (pmm.clear : Set Nat) i ∧
      rustPmmAllocPage pmm = (i * pageSize, pmm.markPage i)) ∨
    (pmm.clear = ∅ ∧ rustPmmAllocPage pmm = (0, pmm)) := by
  unfold rustPmmAllocPage
  cases hfind : (List.range pmm.totalPages).find? fun i => !bitmapTest pmm.bitmap i with
  | none =>
      refine Or.inr ⟨Finset.eq_empty_of_forall_notMem fun i hi => ?_, rfl⟩
      obtain ⟨hlt, htest⟩ := mem_clear.mp hi
      have hmarked := List.find?_eq_none.mp hfind i (List.mem_range.mpr hlt)
      simp [htest] at hmarked
  | some i =>
      obtain ⟨htest, hmem, hbefore⟩ := List.find?_range_eq_some.mp hfind
      refine Or.inl ⟨i, ⟨?_, ?_⟩, rfl⟩
      · exact mem_clear.mpr ⟨List.mem_range.mp hmem, by simpa using htest⟩
      · intro j hj
        have htest' := (mem_clear.mp hj).2
        by_contra hlt
        have hmarked := hbefore j (Nat.lt_of_not_le hlt)
        simp [htest'] at hmarked

theorem markPage_marked (hi : i < pmm.totalPages) :
    (pmm.markPage i).marked = insert i pmm.marked :=
  Memory.bitsBelow_setBit hi

theorem Counted.markPage (h : pmm.Counted) (hclear : i ∈ pmm.clear) : (pmm.markPage i).Counted := by
  rw [Counted, markPage_marked (mem_clear.mp hclear).1,
    Finset.card_insert_of_notMem (notMem_marked_of_clear hclear), ← h]
  rfl

/-- Freeing clears the page of the address, unless the address is null. -/
theorem rustPmmFreePage_marked (page : Nat) (pmm : Pmm) :
    (rustPmmFreePage page pmm).marked =
      if page = 0 then pmm.marked else pmm.marked.erase (page / pageSize) := by
  unfold rustPmmFreePage
  by_cases hnull : page = 0
  · rw [if_pos hnull, if_pos hnull]
  · rw [if_neg hnull, if_neg hnull]
    dsimp only
    by_cases htest : page / pageSize < pmm.totalPages ∧
        bitmapTest pmm.bitmap (page / pageSize) = true
    · rw [if_pos htest]
      exact Memory.bitsBelow_clearBit
    · rw [if_neg htest, Finset.erase_eq_of_notMem fun hmem => htest (mem_marked.mp hmem)]

@[simp] theorem rustPmmFreePage_totalPages (page : Nat) (pmm : Pmm) :
    (rustPmmFreePage page pmm).totalPages = pmm.totalPages := by
  unfold rustPmmFreePage
  dsimp only
  split_ifs <;> rfl

@[simp] theorem rustPmmAllocPage_totalPages (pmm : Pmm) :
    (rustPmmAllocPage pmm).2.totalPages = pmm.totalPages := by
  rcases rustPmmAllocPage_cases pmm with ⟨i, -, heq⟩ | ⟨-, heq⟩
  · rw [heq]
    rfl
  · rw [heq]

theorem Counted.free (h : pmm.Counted) (page : Nat) : (rustPmmFreePage page pmm).Counted := by
  rw [Counted, rustPmmFreePage_marked]
  unfold rustPmmFreePage
  by_cases hnull : page = 0
  · rw [if_pos hnull, if_pos hnull]
    exact h
  · rw [if_neg hnull, if_neg hnull]
    dsimp only
    by_cases htest : page / pageSize < pmm.totalPages ∧
        bitmapTest pmm.bitmap (page / pageSize) = true
    · rw [if_pos htest, Finset.card_erase_of_mem (mem_marked.mpr htest), ← h]
    · rw [if_neg htest, Finset.erase_eq_of_notMem fun hmem => htest (mem_marked.mp hmem)]
      exact h

/-! ## Initialisation -/

theorem bitmapTest_setRange (bitmap : Memory) (lo hi bit : Nat) :
    bitmapTest (bitmapSetRange bitmap lo hi) bit =
      (decide (lo ≤ bit ∧ bit < hi) || bitmapTest bitmap bit) := by
  have hfold (count : Nat) : ∀ (bitmap : Memory) (lo : Nat),
      bitmapTest ((List.range' lo count).foldl bitmapSet bitmap) bit =
        (decide (lo ≤ bit ∧ bit < lo + count) || bitmapTest bitmap bit) := by
    induction count with
    | zero =>
        intro bitmap lo
        have hnone : ¬ (lo ≤ bit ∧ bit < lo + 0) := by omega
        rw [decide_eq_false hnone]
        rfl
    | succ count ih =>
        intro bitmap lo
        rw [List.range'_succ, List.foldl_cons, ih, bitmapTest, bitmapTest, bitmapSet,
          Memory.testBit_setBit, ← Bool.or_assoc]
        congr 1
        rw [Bool.eq_iff_iff]
        simp only [Bool.or_eq_true, decide_eq_true_eq]
        omega
  rw [bitmapSetRange, hfold]
  congr 1
  rw [decide_eq_decide]
  omega

/-- The pages reserved at boot: the kernel image, from address zero on, and the
VGA text buffer. -/
def Reserved (kernelEnd i : Nat) : Prop := i * pageSize < kernelEnd ∨ i = 0xB8000 / pageSize

theorem rustPmmInit_test {kernelEnd : Nat} (hkernel : 2 ^ 20 ≤ kernelEnd ∧ kernelEnd ≤ 2 ^ 28)
    (totalMemory i : Nat) :
    bitmapTest (rustPmmInit kernelEnd totalMemory).bitmap i = true ↔ Reserved kernelEnd i := by
  have hempty : bitmapTest (fun _ => 0) i = false := by
    rw [bitmapTest, Memory.testBit_eq]
    simp
  simp only [rustPmmInit, bitmapTest_setRange, hempty, Reserved, pageSize, bitmapSize,
    Bool.or_eq_true, decide_eq_true_eq, Bool.or_false]
  omega

theorem rustPmmInit_counted (kernelEnd totalMemory : Nat) :
    (rustPmmInit kernelEnd totalMemory).Counted :=
  Memory.bitsBelow_card.symm

end Pmm

end Dosfs
