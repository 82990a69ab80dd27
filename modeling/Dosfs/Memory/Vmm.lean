import Mathlib.Data.Nat.Bitwise
import Mathlib.Logic.Function.Basic
import Dosfs.Memory.Pmm

/-!
# The virtual memory manager

A translation of `memory/vmm.c`. Page directories and page tables lie in
physical pages, and the code reaches a page at its physical address, so the
model keeps the entries of every physical page by page number. The allocator of
physical pages is a parameter: the results about the tables need only that
fresh pages are fresh.
-/

namespace Dosfs

open Foundation

/-- An entry of a directory or of a table; `frame` is the field `table` of a
directory entry. The bits that no function looks at are left out. -/
structure PageEntry where
  present : Bool
  rw : Bool
  user : Bool
  frame : Nat
  deriving DecidableEq

def PageEntry.zero : PageEntry := ⟨false, false, false, 0⟩

/-- What the kernel expects of `pmm_alloc_page` and `pmm_free_page`. -/
structure PageSource (σ : Type) where
  alloc : σ → Nat × σ
  free : Nat → σ → σ

/-- One successful call of `pmm_alloc_page`: the state of the allocator and the
end of the heap before it, the page, and what `vmm_get_physical` said of the
page's own address. -/
structure Grant (σ : Type) where
  source : σ
  heapEnd : Nat
  page : Nat
  physical : Nat

/-- The statics of the memory manager, the entries in physical memory, and the
state of the allocator. The end of the heap, as far as it is mapped, and the
grants since paging was enabled are a history that no function here reads. -/
structure Machine (σ : Type) where
  source : σ
  frames : Nat → Nat → PageEntry
  currentDirectory : Nat
  kernelDirectory : Nat
  heapEnd : Nat
  grants : List (Grant σ)

variable {σ : Type}

namespace Machine

/-- The entry `index` of the directory or table at an address. -/
def entry (m : Machine σ) (addr index : Nat) : PageEntry := m.frames (addr / pageSize) index

def storeEntry (m : Machine σ) (addr index : Nat) (e : PageEntry) : Machine σ :=
  { m with
    frames := Function.update m.frames (addr / pageSize)
      (Function.update (m.frames (addr / pageSize)) index e) }

/-- Fill the page at an address with the given entries. -/
def storePage (m : Machine σ) (addr : Nat) (entries : Nat → PageEntry) : Machine σ :=
  { m with frames := Function.update m.frames (addr / pageSize) entries }

/-- The `memset` of a new directory or table. -/
def zeroPage (m : Machine σ) (addr : Nat) : Machine σ := m.storePage addr fun _ => .zero

end Machine

def dirIndex (virt : Nat) : Nat := virt >>> 22

def tableIndex (virt : Nat) : Nat := (virt >>> 12) &&& 0x3FF

/-- `get_page_table` without `create`: the address of the table, or null. -/
def lookupPageTable (m : Machine σ) (dir index : Nat) : Nat :=
  if (m.entry dir index).present then (m.entry dir index).frame <<< 12 else 0

/-- The physical address, or null. -/
def vmmGetPhysical (m : Machine σ) (virt : Nat) : Nat :=
  let table := lookupPageTable m m.currentDirectory (dirIndex virt)
  if table = 0 ∨ ¬ (m.entry table (tableIndex virt)).present then 0
  else ((m.entry table (tableIndex virt)).frame <<< 12) ||| (virt &&& 0xFFF)

/-- A call of `pmm_alloc_page` while paging is on. -/
def pmmAllocPage (src : PageSource σ) (m : Machine σ) : Nat × Machine σ :=
  let (page, source) := src.alloc m.source
  (page, { m with
    source
    grants :=
      if page = 0 then m.grants
      else ⟨m.source, m.heapEnd, page, vmmGetPhysical m page⟩ :: m.grants })

def pmmFreePage (src : PageSource σ) (page : Nat) (m : Machine σ) : Machine σ :=
  { m with source := src.free page m.source }

def getPageTable (src : PageSource σ) (dir index : Nat) (create : Bool) (m : Machine σ) :
    Nat × Machine σ :=
  if (m.entry dir index).present then ((m.entry dir index).frame <<< 12, m)
  else if !create then (0, m)
  else
    let (table, m) := pmmAllocPage src m
    if table = 0 then (0, m)
    else
      (table, (m.zeroPage table).storeEntry dir index {
        present := true
        rw := true
        user := false
        frame := (table >>> 12) % 2 ^ 20 })

/-- The table for the 4 MB from `base` on that `vmm_init` builds and enters in
the kernel directory, when a page is available. Paging is still off. -/
def identityMap (src : PageSource σ) (index base : Nat) (m : Machine σ) : Machine σ :=
  let (table, source) := src.alloc m.source
  let m := { m with source }
  if table = 0 then m
  else
    let m := m.storePage table fun j => {
      present := true
      rw := true
      user := false
      frame := (base + j * pageSize) >>> 12 }
    m.storeEntry m.kernelDirectory index {
      present := true
      rw := true
      user := false
      frame := (table >>> 12) % 2 ^ 20 }

/-- `none` when the machine halts. The argument is the contents of physical
memory at boot. -/
def vmmInit (src : PageSource σ) (frames : Nat → Nat → PageEntry) (source : σ) :
    Option (Machine σ) :=
  let (dir, source) := src.alloc source
  if dir = 0 then none
  else
    let m : Machine σ := {
      source, frames, currentDirectory := 0, kernelDirectory := dir, heapEnd := 0, grants := [] }
    let m := m.zeroPage dir
    let m := (List.range 16).foldl (fun m i => identityMap src i (i * 1024 * pageSize) m) m
    let m := identityMap src (0xFFC00000 >>> 22) 0xFFC00000 m
    some { m with currentDirectory := m.kernelDirectory }

def vmmMapPage (src : PageSource σ) (virt phys flags : Nat) (m : Machine σ) : Machine σ :=
  let (table, m) := getPageTable src m.currentDirectory (dirIndex virt) true m
  if table = 0 then m
  else
    m.storeEntry table (tableIndex virt) {
      present := true
      rw := flags &&& 0x2 ≠ 0
      user := flags &&& 0x4 ≠ 0
      frame := (phys >>> 12) % 2 ^ 20 }

/-- The permission bits stay. -/
def vmmUnmapPage (src : PageSource σ) (virt : Nat) (m : Machine σ) : Machine σ :=
  let (table, m) := getPageTable src m.currentDirectory (dirIndex virt) false m
  if table = 0 then m
  else
    m.storeEntry table (tableIndex virt)
      { m.entry table (tableIndex virt) with present := false, frame := 0 }

def vmmSwitchDirectory (dir : Nat) (m : Machine σ) : Machine σ :=
  { m with currentDirectory := dir }

/-- The address of the new directory, or null. -/
def vmmCreateDirectory (src : PageSource σ) (m : Machine σ) : Nat × Machine σ :=
  let (dir, m) := pmmAllocPage src m
  if dir = 0 then (0, m)
  else
    let m := m.zeroPage dir
    (dir, m.storePage dir fun i =>
      if 16 ≤ i ∧ i < 1024 ∧ (m.entry m.kernelDirectory i).present then
        m.entry m.kernelDirectory i
      else m.entry dir i)

/-- Free the frames that a table maps, and the table. -/
def freeTable (src : PageSource σ) (table : Nat) (m : Machine σ) : Machine σ :=
  let m := (List.range 1024).foldl (fun m j =>
    if (m.entry table j).present then pmmFreePage src ((m.entry table j).frame <<< 12) m else m) m
  pmmFreePage src table m

def vmmFreeDirectory (src : PageSource σ) (dir : Nat) (m : Machine σ) : Machine σ :=
  let m := (List.range 16).foldl (fun m i =>
    if (m.entry dir i).present ∧ (m.entry dir i).frame ≠ (m.entry m.kernelDirectory i).frame then
      freeTable src ((m.entry dir i).frame <<< 12) m
    else m) m
  let m := (List.range' 16 (1024 - 16)).foldl (fun m i =>
    if (m.entry dir i).present then freeTable src ((m.entry dir i).frame <<< 12) m else m) m
  pmmFreePage src dir m

/-! ## Addresses -/

theorem dirIndex_eq (virt : Nat) : dirIndex virt = virt / pageSize / 1024 := by
  rw [dirIndex, Nat.shiftRight_eq_div_pow, Nat.div_div_eq_div_mul]
  rfl

theorem tableIndex_eq (virt : Nat) : tableIndex virt = virt / pageSize % 1024 := by
  rw [tableIndex, Nat.shiftRight_eq_div_pow, show 0x3FF = 2 ^ 10 - 1 by decide,
    Nat.and_two_pow_sub_one_eq_mod]
  rfl

theorem shiftLeft_page (frame : Nat) : frame <<< 12 = frame * pageSize := by
  rw [Nat.shiftLeft_eq]
  rfl

theorem mul_pageSize_div (page : Nat) : page * pageSize / pageSize = page :=
  Nat.mul_div_cancel page (by decide)

theorem shiftRight_page {page : Nat} (hpage : page < 2 ^ 20) :
    ((page * pageSize) >>> 12) % 2 ^ 20 = page := by
  rw [Nat.shiftRight_eq_div_pow, show 2 ^ 12 = pageSize by decide, mul_pageSize_div,
    Nat.mod_eq_of_lt hpage]

end Dosfs
