import Dosfs.Foundation.LinkedList
import Dosfs.Libc.String
import Dosfs.Memory.Pmm

/-!
# The kernel heap

A translation of `memory/heap.c`. The blocks lie in a byte-addressed memory, and
the walks along their list give up when the fuel of one step for each address
runs out, which a list that ends never does. Getting a page and mapping it is a
parameter, so that the results about the heap hold for every allocator.
-/

namespace Dosfs

open Foundation

/-- `BLOCK_SIZE`, the size of `block_t`. -/
def blockSize : Nat := 20

def blockMagic : Nat := 0xDEADBEEF

def heapStart : Nat := 0x400000

/-- `ALIGN4` on 32-bit numbers. -/
def align4 (x : Nat) : Nat := ((x + 3) % 2 ^ 32) &&& 0xFFFFFFFC

/-- The fields of a block other than its links. -/
@[ext] structure BlockData where
  size : Nat
  free : Bool
  magic : Nat
  deriving DecidableEq

/-- The `block_t` at an address. -/
def blockAt (mem : Memory) (block : Nat) : Node Nat BlockData where
  data := {
    size := mem.loadLe block 4
    free := mem (block + 4) != 0
    magic := mem.loadLe (block + 16) 4 }
  next := mem.loadLe (block + 8) 4
  prev := mem.loadLe (block + 12) 4

def setSize (mem : Memory) (block size : Nat) : Memory := mem.storeLe block 4 size

def setFree (mem : Memory) (block : Nat) (free : Bool) : Memory :=
  mem.storeByte (block + 4) (if free then 1 else 0)

def setNext (mem : Memory) (block next : Nat) : Memory := mem.storeLe (block + 8) 4 next

def setPrev (mem : Memory) (block prev : Nat) : Memory := mem.storeLe (block + 12) 4 prev

def setMagic (mem : Memory) (block magic : Nat) : Memory := mem.storeLe (block + 16) 4 magic

/-- Fill in a new block, in the order of the source. -/
def initBlock (mem : Memory) (block size : Nat) (free : Bool) (next prev : Nat) : Memory :=
  let mem := setSize mem block size
  let mem := setFree mem block free
  let mem := setMagic mem block blockMagic
  let mem := setNext mem block next
  setPrev mem block prev

/-- The heap, with the state of whatever provides its pages. -/
structure Heap (σ : Type) where
  mem : Memory
  heapHead : Nat
  heapCurrent : Nat
  pages : σ

/-- The steps a walk along the blocks may take. -/
def listFuel : Nat := 2 ^ 32

variable {σ : Type}

/-- The address of the block, or null. -/
def findFreeBlock (size : Nat) (h : Heap σ) : Option Nat :=
  LinkedList.walk (blockAt h.mem) 0
    (fun block => block.data.free && decide (size ≤ block.data.size)) listFuel h.heapHead

/-- The number of pages for so many bytes. -/
def pagesFor (bytes : Nat) : Nat := (bytes + pageSize - 1) % 2 ^ 32 / pageSize

section

-- `pmm_alloc_page` and, unless it fails, `vmm_map_page` at the given address
variable (grab : Nat → σ → Bool × σ)

/-- The loop of `expand_heap` and `kmalloc_aligned` that appends zeroed pages.
Pages stay mapped when a later one is missing. -/
def growPages : Nat → Heap σ → Bool × Heap σ
  | 0, h => (true, h)
  | count + 1, h =>
      let (ok, pages) := grab h.heapCurrent h.pages
      if !ok then (false, { h with pages })
      else
        growPages count { h with
          mem := memset h.mem h.heapCurrent 0 pageSize
          heapCurrent := (h.heapCurrent + pageSize) % 2 ^ 32
          pages }

/-- Fill in a block in use and link it in as the last one. -/
def appendBlock (block size : Nat) (h : Heap σ) : Option (Heap σ) :=
  let h := { h with mem := initBlock h.mem block size false 0 0 }
  if h.heapHead ≠ 0 then
    (LinkedList.walk (blockAt h.mem) 0 (fun last => last.next = 0) listFuel h.heapHead).map
      fun last => { h with mem := setPrev (setNext h.mem last block) block last }
  else some { h with heapHead := block }

/-- The address of the new block, or null. -/
def expandHeap (size : Nat) (h : Heap σ) : Option (Nat × Heap σ) :=
  let needed := (blockSize + size) % 2 ^ 32
  let allocBase := h.heapCurrent
  let (ok, h) := growPages grab (pagesFor needed) h
  if !ok then some (0, h)
  else (appendBlock allocBase size h).map fun h => (allocBase, h)

/-- The loop of `heap_init`, with the number of pages it mapped. -/
def initPages : Nat → Heap σ → Nat × Heap σ
  | 0, h => (0, h)
  | count + 1, h =>
      let (ok, pages) := grab h.heapCurrent h.pages
      if !ok then (0, { h with pages })
      else
        let (mapped, h) := initPages count { h with
          heapCurrent := (h.heapCurrent + pageSize) % 2 ^ 32
          pages }
        (mapped + 1, h)

/-- The memory is the one before, with any contents. -/
def heapInit (mem : Memory) (pages : σ) : Heap σ :=
  let heapSize := 256 * 1024
  let h : Heap σ := { mem, heapHead := 0, heapCurrent := heapStart, pages }
  let (pagesMapped, h) := initPages grab (pagesFor heapSize) h
  if pagesMapped = 0 then h
  else
    { h with
      mem := initBlock h.mem heapStart (pagesMapped * pageSize - blockSize) true 0 0
      heapHead := heapStart }

/-- Cut the rest of a free block off as a block of its own. -/
def splitBlock (mem : Memory) (block size : Nat) : Memory :=
  let newBlock := (block + blockSize + size) % 2 ^ 32
  let mem := setSize mem newBlock
    (((blockAt mem block).data.size + 2 ^ 32 - size + 2 ^ 32 - blockSize) % 2 ^ 32)
  let mem := setFree mem newBlock true
  let mem := setMagic mem newBlock blockMagic
  let mem := setNext mem newBlock (blockAt mem block).next
  let mem := setPrev mem newBlock block
  let mem :=
    if (blockAt mem block).next ≠ 0 then setPrev mem (blockAt mem block).next newBlock else mem
  let mem := setNext mem block newBlock
  setSize mem block size

/-- The address of the memory, or null. -/
def kmalloc (size : Nat) (h : Heap σ) : Option (Nat × Heap σ) :=
  if size = 0 ∨ 0xFFFFFFFF - blockSize - 4 < size then some (0, h)
  else
    let size := align4 size
    (findFreeBlock size h).bind fun block =>
      if block ≠ 0 then
        let mem :=
          if (size + blockSize + 4) % 2 ^ 32 ≤ (blockAt h.mem block).data.size then
            splitBlock h.mem block size
          else h.mem
        some ((block + blockSize) % 2 ^ 32, { h with mem := setFree mem block false })
      else
        (expandHeap grab size h).map fun (block, h) =>
          if block = 0 then (0, h) else ((block + blockSize) % 2 ^ 32, h)

/-- The address of the memory, or null. The block takes whole pages. -/
def kmallocAligned (size : Nat) (h : Heap σ) : Option (Nat × Heap σ) :=
  if size = 0 ∨ 0xFFFFFFFF - blockSize - 4 < size then some (0, h)
  else
    let total := (blockSize + align4 size) % 2 ^ 32
    let pages := pagesFor total
    let base := h.heapCurrent
    let (ok, h) := growPages grab pages h
    if !ok then some (0, h)
    else
      (appendBlock base ((pages * pageSize + 2 ^ 32 - blockSize) % 2 ^ 32) h).map fun h =>
        ((base + blockSize) % 2 ^ 32, h)

/-- Join a block with a free successor. -/
def mergeNext (mem : Memory) (block : Nat) : Memory :=
  let next := (blockAt mem block).next
  if next ≠ 0 ∧ (blockAt mem next).data.free then
    let mem := setSize mem block
      ((blockAt mem block).data.size + (blockSize + (blockAt mem next).data.size))
    let mem := setNext mem block (blockAt mem (blockAt mem block).next).next
    if (blockAt mem block).next ≠ 0 then setPrev mem (blockAt mem block).next block else mem
  else mem

/-- Join a block with a free predecessor. -/
def mergePrev (mem : Memory) (block : Nat) : Memory :=
  let prev := (blockAt mem block).prev
  if prev ≠ 0 ∧ (blockAt mem prev).data.free then
    let mem := setSize mem prev
      ((blockAt mem prev).data.size + (blockSize + (blockAt mem block).data.size))
    let mem := setNext mem (blockAt mem block).prev (blockAt mem block).next
    if (blockAt mem block).next ≠ 0 then
      setPrev mem (blockAt mem block).next (blockAt mem block).prev
    else mem
  else mem

def kfree (ptr : Nat) (h : Heap σ) : Heap σ :=
  if ptr = 0 then h
  else
    let block := (ptr + 2 ^ 32 - blockSize) % 2 ^ 32
    if (blockAt h.mem block).data.magic ≠ blockMagic then h
    else { h with mem := mergePrev (mergeNext (setFree h.mem block true) block) block }

/-- The address of the memory, or null. -/
def krealloc (ptr size : Nat) (h : Heap σ) : Option (Nat × Heap σ) :=
  if ptr = 0 then kmalloc grab size h
  else if size = 0 then some (0, kfree ptr h)
  else
    let block := (ptr + 2 ^ 32 - blockSize) % 2 ^ 32
    if (blockAt h.mem block).data.magic ≠ blockMagic then some (0, h)
    else if size ≤ (blockAt h.mem block).data.size then some (ptr, h)
    else
      (kmalloc grab size h).map fun (newPtr, h) =>
        if newPtr = 0 then (0, h)
        else
          let mem := memcpy h.mem newPtr ptr (blockAt h.mem block).data.size
          (newPtr, kfree ptr { h with mem })

end

end Dosfs
