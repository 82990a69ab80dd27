import Dosfs.Process.StackPages

/-!
# User stacks

The kernel as a whole: calls of the heap and of `process_create`, in any order
with what the processes and the timer do. The stack pointer of a new process is
the lowest address of the page that was mapped for its stack, and a push writes
below it: into the page of the next slot, or where nothing is mapped.
-/

namespace Dosfs

open Foundation

/-! ## The kernel -/

/-- A call of the kernel, or what the processes and the timer do. -/
inductive KernelOp
  | call (op : SystemOp)
  | process (op : ProcessOp)

def stepKernel : KernelOp → System → Option (Nat × System)
  | .call op, s => stepSystem op s
  | .process op, s =>
      let (scheduler, pages) := stepProcess pmmSource s.scheduler s.heap.pages op
      some (0, { heap := { s.heap with pages }, scheduler })

/-- The page of a user stack, and whether there was a table to map it in. -/
structure StackPage where
  page : Nat
  mapped : Bool

/-- What `process_create` takes for the user stack of a slot, after the page of
the kernel stack. -/
def takeStackPage (slot : Fin maxProcesses) (m : Machine Pmm) : StackPage :=
  let (_, m) := pmmAllocPage pmmSource m
  let (page, m) := pmmAllocPage pmmSource m
  ⟨page, mapSucceeds pmmSource (0xBFFFF000 - slot * pageSize) m⟩

/-- The stacks after a step: a process that is new has the page taken for it. -/
def recordStacks (m : Machine Pmm) (s s' : Scheduler) (stackOf : Fin maxProcesses → StackPage) :
    Fin maxProcesses → StackPage :=
  fun i => if i ∈ s'.alive ∧ i ∉ s.alive then takeStackPage i m else stackOf i

/-- The kernel with a record of the user stacks, which it does not keep itself. -/
structure SystemRecord where
  system : System
  stackOf : Fin maxProcesses → StackPage

def stepRecorded (op : KernelOp) (k : SystemRecord) : Option (Nat × SystemRecord) :=
  (stepKernel op k.system).map fun (r, system) =>
    (r, ⟨system, recordStacks k.system.heap.pages k.system.scheduler system.scheduler k.stackOf⟩)

/-! ## What a stack should be -/

/-- The address is in the page. -/
def InPage (page address : Nat) : Prop := page ≤ address ∧ address < page + pageSize

/-- The four bytes that the first push writes are in the page of the stack, if it
was mapped. -/
def StackUsable (k : SystemRecord) (i : Fin maxProcesses) : Prop :=
  (k.stackOf i).mapped = true → ∀ b, 1 ≤ b → b ≤ 4 →
    InPage (k.stackOf i).page (vmmGetPhysical k.system.heap.pages
      ((k.system.scheduler.processes i).cpuState.esp - b))

/-- Two pages that do not overlap. -/
def PagesApart (page page' : Nat) : Prop := page + pageSize ≤ page' ∨ page' + pageSize ≤ page

/-- The stacks of the live processes are usable and do not overlap, in physical
memory or in the address space. -/
structure UserStacks (k : SystemRecord) : Prop where
  usable : ∀ i ∈ k.system.scheduler.alive, StackUsable k i
  framesApart : ∀ i ∈ k.system.scheduler.alive, ∀ j ∈ k.system.scheduler.alive, i ≠ j →
    PagesApart (k.stackOf i).page (k.stackOf j).page
  addressesApart : ∀ i ∈ k.system.scheduler.alive, ∀ j ∈ k.system.scheduler.alive, i ≠ j →
    PagesApart (k.system.scheduler.processes i).userStack
      (k.system.scheduler.processes j).userStack

variable {s s' : Scheduler} {m m' m₀ : Machine Pmm} {stackOf : Fin maxProcesses → StackPage}
  {current taken : Nat}

theorem recordStacks_of_subset (halive : s'.alive ⊆ s.alive) :
    recordStacks m s s' stackOf = stackOf := by
  funext i
  exact if_neg fun h => h.2 (halive h.1)

/-! ## The invariant -/

/-- The pages of the live processes' stackOf are marked, and they are different
from each other and from those of the kernel stacks. -/
structure OwnPages (s : Scheduler) (stackOf : Fin maxProcesses → StackPage)
    (marked : Finset Nat) : Prop where
  own : ∀ i ∈ s.alive, ∃ page ∈ marked, page ≠ 0 ∧ (stackOf i).page = page * pageSize
  distinct : ∀ i ∈ s.alive, ∀ j ∈ s.alive, (stackOf i).page = (stackOf j).page → i = j
  kernelApart : ∀ i ∈ s.alive, ∀ j ∈ s.alive,
    (s.processes i).kernelStack ≠ (stackOf j).page + pageSize

/-- The frame that the page of a slot should be mapped to. -/
def liveFrame (s : Scheduler) (stackOf : Fin maxProcesses → StackPage) (n : Nat) : Option Nat :=
  if h : n < maxProcesses then
    if ⟨n, h⟩ ∈ s.alive ∧ (stackOf ⟨n, h⟩).mapped = true then
      some ((stackOf ⟨n, h⟩).page / pageSize)
    else none
  else none

/-- The pages of the slots, and one page more below them, are mapped as the record
says. -/
def StackFrames (s : Scheduler) (stackOf : Fin maxProcesses → StackPage) (m : Machine Pmm) : Prop :=
  ∀ n ≤ maxProcesses, pageFrame m m.currentDirectory (0xBFFFF - n) = liveFrame s stackOf n

/-- The heap has taken no more pages than are missing from the balance. -/
def HeapPaid (m₀ : Machine Pmm) (s : Scheduler) (current : Nat) (m : Machine Pmm) : Prop :=
  ∃ taken count, StackInv m₀ taken s m ∧ count ≤ taken ∧ current = heapStart + count * pageSize

structure UserStackInv (m₀ : Machine Pmm) (s : Scheduler) (stackOf : Fin maxProcesses → StackPage)
    (current : Nat) (m : Machine Pmm) : Prop where
  paid : HeapPaid m₀ s current m
  esp : ∀ i ∈ s.alive, (s.processes i).cpuState.esp = (s.processes i).userStack
  pages : OwnPages s stackOf m.source.marked
  frames : StackFrames s stackOf m

theorem OwnPages.mono {marked marked' : Finset Nat} (h : OwnPages s stackOf marked)
    (hsubset : marked ⊆ marked') : OwnPages s stackOf marked' where
  own i hi := by
    obtain ⟨page, hpage, hrest⟩ := h.own i hi
    exact ⟨page, hsubset hpage, hrest⟩
  distinct := h.distinct
  kernelApart := h.kernelApart

theorem OwnPages.of_sameStacks {marked : Finset Nat} (h : OwnPages s stackOf marked)
    (hsame : SameStacks s s') : OwnPages s' stackOf marked where
  own i hi := h.own i (hsame.alive ▸ hi)
  distinct i hi j hj := h.distinct i (hsame.alive ▸ hi) j (hsame.alive ▸ hj)
  kernelApart i hi j hj := by
    rw [hsame.alive] at hi hj
    rw [(hsame.kept i hi).1]
    exact h.kernelApart i hi j hj

/-- A page that is not marked is not the page of a live process. -/
theorem OwnPages.page_ne {marked : Finset Nat} (h : OwnPages s stackOf marked)
    {j : Fin maxProcesses} (hj : j ∈ s.alive) {page : Nat} (hfresh : page ∉ marked) :
    (stackOf j).page ≠ page * pageSize := by
  obtain ⟨own, hmem, -, hown⟩ := h.own j hj
  rw [hown]
  intro heq
  obtain rfl := Nat.eq_of_mul_eq_mul_right (by decide) heq
  exact hfresh hmem

theorem liveFrame_coe (i : Fin maxProcesses) :
    liveFrame s stackOf i =
      if i ∈ s.alive ∧ (stackOf i).mapped = true then some ((stackOf i).page / pageSize)
      else none := dif_pos i.isLt

theorem stackPage_ne {n : Nat} (hn : n ≤ maxProcesses) (slot : Fin maxProcesses)
    (hne : n ≠ slot) : 0xBFFFF - n ≠ 0xBFFFF - slot := by
  have hlt := slot.isLt
  simp only [maxProcesses] at hn hlt
  omega

/-- Only the slots with another record have another frame. -/
theorem liveFrame_congr {stackOf' : Fin maxProcesses → StackPage} {n : Nat}
    (hsame : ∀ i : Fin maxProcesses, (i : Nat) = n →
      (i ∈ s'.alive ↔ i ∈ s.alive) ∧ stackOf' i = stackOf i) :
    liveFrame s' stackOf' n = liveFrame s stackOf n := by
  by_cases hn : n < maxProcesses
  · obtain ⟨halive, hstack⟩ := hsame ⟨n, hn⟩ rfl
    simp only [liveFrame, halive, hstack]
  · rw [liveFrame, liveFrame, dif_neg hn, dif_neg hn]

theorem StackFrames.of_alive (h : StackFrames s stackOf m) (halive : s'.alive = s.alive) :
    StackFrames s' stackOf m := by
  intro n hn
  rw [h n hn]
  exact (liveFrame_congr fun i _ => ⟨by rw [halive], rfl⟩).symm

/-- A step that maps none of these pages anew. -/
theorem StackFrames.of_maps (h : StackFrames s stackOf m) {f : Nat → Option Nat}
    (hmaps : Maps pmmLaw m m' f)
    (hf : ∀ n ≤ maxProcesses, f (0xBFFFF - n) = pageFrame m m.currentDirectory (0xBFFFF - n)) :
    StackFrames s stackOf m' := by
  intro n hn
  rw [hmaps.current, hmaps.frame, hf n hn, h n hn]

/-- Mapping a page that is none of these. -/
theorem StackFrames.mapPage_elsewhere (h : StackFrames s stackOf m)
    (hinv : TableInv pmmLaw m m.currentDirectory) {virt : Nat}
    (hvirt : ∀ n ≤ maxProcesses, 0xBFFFF - n ≠ virt / pageSize) (phys flags : Nat) :
    StackFrames s stackOf (vmmMapPage pmmSource virt phys flags m) := by
  by_cases hsucceeds : mapSucceeds pmmSource virt m
  · exact h.of_maps (vmmMapPage_maps hinv virt phys flags hsucceeds) fun n hn =>
      Function.update_of_ne (hvirt n hn) _ _
  · exact h.of_maps (vmmMapPage_fails hinv virt phys flags hsucceeds).1 fun _ _ => rfl

theorem marked_subset_mapPage (virt phys flags : Nat) (m : Machine Pmm) :
    m.source.marked ⊆ (vmmMapPage pmmSource virt phys flags m).source.marked := by
  rw [vmmMapPage_source]
  rcases getPageTable_source pmmSource m.currentDirectory (dirIndex virt) true m with heq | heq
  · rw [heq]
  · rw [heq]
    exact marked_subset_alloc _

/-! ## The heap -/

theorem StackInv.withEnd (hinv : StackInv m₀ taken s m) (heapEnd : Nat) :
    StackInv m₀ taken s { m with heapEnd } := hinv.of_machine rfl rfl rfl rfl rfl

theorem StackInv.alloc_refused (hinv : StackInv m₀ taken s m)
    (hnull : (pmmAllocPage pmmSource m).1 = 0) :
    StackInv m₀ taken s (pmmAllocPage pmmSource m).2 := by
  have hsource := pmmAllocPage_refuses hinv.tables hnull
  refine hinv.of_machine rfl rfl rfl ?_ ?_
  · rw [hsource]
  · rw [hsource]

theorem StackInv.alloc_granted (hinv : StackInv m₀ taken s m)
    (hgranted : (pmmAllocPage pmmSource m).1 ≠ 0) :
    StackInv m₀ (taken + 1) s (pmmAllocPage pmmSource m).2 := by
  obtain ⟨page, hfresh, -, -, hmarked, -⟩ := pmmAllocPage_grants hinv.tables hgranted
  refine ⟨hinv.scheduler, hinv.current, hinv.tables.alloc, fun i hi => ?_, hinv.userStack,
    hinv.distinct, hinv.stackTable, ?_⟩
  · obtain ⟨kernelPage, hprivate, hstack⟩ := hinv.kernelStack i hi
    exact ⟨kernelPage, hprivate.alloc, hstack⟩
  · have hsame : stackTables m₀ (pmmAllocPage pmmSource m).2 = stackTables m₀ m := rfl
    rw [hmarked, Finset.card_insert_of_notMem hfresh, hinv.balance, hsame]
    omega

/-- Mapping a page that is not near the user stacks. -/
theorem StackInv.mapPage_elsewhere (hinv : StackInv m₀ taken s m) {virt : Nat}
    (hvirt : dirIndex virt ≠ dirIndex 0xBFFFF000) (phys flags : Nat) :
    ∃ taken', taken ≤ taken' ∧ StackInv m₀ taken' s (vmmMapPage pmmSource virt phys flags m) := by
  obtain ⟨hcurrent, htables⟩ := hinv.tables.mapPage virt phys flags
  have hentry : (vmmMapPage pmmSource virt phys flags m).entry m.currentDirectory
      (dirIndex 0xBFFFF000) = m.entry m.currentDirectory (dirIndex 0xBFFFF000) := by
    rcases vmmMapPage_marked hinv.tables virt phys flags with ⟨-, hentries⟩ | ⟨-, _, -, -, hentries⟩
    · exact hentries _
    · rw [hentries, if_neg hvirt.symm]
  have hstackTables : stackTables m₀ (vmmMapPage pmmSource virt phys flags m) =
      stackTables m₀ m := by
    rw [stackTables, stackTables, hcurrent, hentry]
  have hrest (taken' : Nat)
      (hbalance : (vmmMapPage pmmSource virt phys flags m).source.marked.card =
        m₀.source.marked.card + 2 * s.alive.card + stackTables m₀ m + taken') :
      StackInv m₀ taken' s (vmmMapPage pmmSource virt phys flags m) := by
    refine ⟨hinv.scheduler, hcurrent.trans hinv.current, hcurrent ▸ htables, fun i hi => ?_,
      hinv.userStack, hinv.distinct, ?_, hstackTables ▸ hbalance⟩
    · obtain ⟨page, hprivate, hstack⟩ := hinv.kernelStack i hi
      exact ⟨page, hprivate.mapPage hinv.tables virt phys flags, hstack⟩
    · rw [hcurrent, hentry]
      exact hinv.stackTable
  rcases vmmMapPage_marked hinv.tables virt phys flags with
    ⟨hmarked, -⟩ | ⟨-, table, hfresh, hmarked, -⟩
  · exact ⟨taken, Nat.le_refl _, hrest taken (hmarked ▸ hinv.balance)⟩
  · refine ⟨taken + 1, Nat.le_succ _, hrest (taken + 1) ?_⟩
    rw [hmarked, Finset.card_insert_of_notMem hfresh, hinv.balance]
    rfl

/-- The heap stays far below the stacks: there are at most as many pages as the
bitmap has bits. -/
theorem HeapPaid.current_lt (hpaid : HeapPaid m₀ s current m) : current < 0x20000000 := by
  obtain ⟨taken, count, hinv, hcount, rfl⟩ := hpaid
  have hmarked : m.source.marked ⊆ Finset.range m.source.totalPages := fun page hpage =>
    Finset.mem_range.2 (Pmm.mem_marked.1 hpage).1
  have hcard := Finset.card_le_card hmarked
  rw [Finset.card_range] at hcard
  have htotal : m.source.totalPages ≤ bitmapSize * 8 := hinv.tables.valid.1
  have hbalance := hinv.balance
  simp only [heapStart, pageSize, bitmapSize] at htotal ⊢
  omega

/-- What a call of the heap does when it asks for a page at its end. -/
theorem UserStackInv.grabPage_granted (hinv : UserStackInv m₀ s stackOf current m)
    (hok : (grabPage current m).1 = true) :
    UserStackInv m₀ s stackOf ((current + pageSize) % 2 ^ 32) (grabPage current m).2 := by
  have hgranted := alloc_of_grabPage_true hok
  have hlow := hinv.paid.current_lt
  obtain ⟨taken, count, hpages, hcount, hcurrent⟩ := hinv.paid
  have hvirt : dirIndex current ≠ dirIndex 0xBFFFF000 := by
    rw [dirIndex_eq, dirIndex_eq]
    simp only [pageSize]
    omega
  have hpages₁ := hpages.alloc_granted hgranted
  obtain ⟨taken', hle, hpages₂⟩ :=
    hpages₁.mapPage_elsewhere hvirt (pmmAllocPage pmmSource m).1 0x3
  rw [Dosfs.grabPage_granted hgranted, Nat.mod_eq_of_lt (by simp only [pageSize]; omega)]
  refine ⟨⟨taken', count + 1, hpages₂.withEnd _, by omega, ?_⟩, hinv.esp, ?_, ?_⟩
  · rw [hcurrent, Nat.succ_mul, Nat.add_assoc]
  · have hsubset := marked_subset_mapPage current (pmmAllocPage pmmSource m).1 0x3
      (pmmAllocPage pmmSource m).2
    exact hinv.pages.mono ((marked_subset_alloc m.source).trans hsubset)
  · have hframes := hinv.frames.of_maps (pmmAllocPage_maps hpages.tables) fun _ _ => rfl
    have hnear (n : Nat) (hn : n ≤ maxProcesses) : 0xBFFFF - n ≠ current / pageSize := by
      simp only [maxProcesses, pageSize] at hn ⊢
      omega
    exact hframes.mapPage_elsewhere hpages₁.tables hnear (pmmAllocPage pmmSource m).1 0x3

theorem userStackInv_stable : PageStable grabPage (UserStackInv m₀ s stackOf) where
  granted _ _ hinv hok := hinv.grabPage_granted hok
  refused current m hinv hok := by
    have hnull := alloc_of_grabPage_false hok
    obtain ⟨taken, count, hpages, hrest⟩ := hinv.paid
    rw [grabPage_refused hnull]
    exact ⟨⟨taken, count, hpages.alloc_refused hnull, hrest⟩, hinv.esp,
      hinv.pages.mono (marked_subset_alloc _),
      hinv.frames.of_maps (pmmAllocPage_maps hpages.tables) fun _ _ => rfl⟩

/-! ## New processes -/

/-- A new process starts with its stack pointer at the page of its stack. -/
theorem processCreate_esp (name : CString) (entry : Nat)
    (hesp : ∀ i ∈ s.alive, (s.processes i).cpuState.esp = (s.processes i).userStack) :
    ∀ i ∈ (processCreate pmmSource name entry s m).1.alive,
      ((processCreate pmmSource name entry s m).1.processes i).cpuState.esp =
        ((processCreate pmmSource name entry s m).1.processes i).userStack := by
  have hstored {slot : Fin maxProcesses} {proc : Process}
      (hproc : proc.state ≠ .unused → proc.cpuState.esp = proc.userStack) :
      ∀ i ∈ (s.store slot proc).alive, ((s.store slot proc).processes i).cpuState.esp =
        ((s.store slot proc).processes i).userStack :=
    @Scheduler.forall_alive_store s slot proc (fun _ q => q.cpuState.esp = q.userStack) hesp hproc
  unfold processCreate
  split
  next => exact hesp
  next =>
    split
    next => exact hesp
    next slot hfind =>
      dsimp only
      split
      next => exact hstored fun hused => absurd rfl hused
      next =>
        split
        next => exact hstored fun hused => absurd rfl hused
        next => exact hstored fun _ => rfl

/-- The process that fills a slot. -/
theorem recordStacks_created {slot : Fin maxProcesses} {proc : Process} (hslot : slot ∉ s.alive)
    (hproc : proc.state ≠ .unused) (i : Fin maxProcesses) :
    recordStacks m s { s.store slot proc with processCount := s.processCount + 1 } stackOf i =
      if i = slot then takeStackPage slot m else stackOf i := by
  have hmem : i ∈ (s.store slot proc).alive ↔ i = slot ∨ i ∈ s.alive := by
    rw [alive_store_used hproc, Finset.mem_insert]
  change (if i ∈ (s.store slot proc).alive ∧ i ∉ s.alive then _ else _) = _
  by_cases hi : i = slot
  · rw [if_pos ⟨hmem.2 (Or.inl hi), hi ▸ hslot⟩, if_pos hi, hi]
  · rw [if_neg hi, if_neg fun h => h.2 ((hmem.1 h.1).resolve_left hi)]

/-- A process after the creation is the new one, or as it was. -/
theorem created_cases {slot : Fin maxProcesses} {proc : Process} (hslot : slot ∉ s.alive)
    (hproc : proc.state ≠ .unused) {i : Fin maxProcesses} (hi : i ∈ (s.store slot proc).alive) :
    let s' : Scheduler := { s.store slot proc with processCount := s.processCount + 1 }
    i = slot ∧ recordStacks m s s' stackOf i = takeStackPage slot m ∧ s'.processes i = proc ∨
      i ∈ s.alive ∧ recordStacks m s s' stackOf i = stackOf i ∧
        s'.processes i = s.processes i := by
  intro s'
  rw [recordStacks_created hslot hproc]
  by_cases hne : i = slot
  · refine Or.inl ⟨hne, if_pos hne, ?_⟩
    rw [hne]
    exact Scheduler.store_same
  · exact Or.inr ⟨Scheduler.mem_alive_of_store hi hne, if_neg hne, Scheduler.store_of_ne hne⟩

theorem userStack_page {slot : Fin maxProcesses} {stack : Nat}
    (hstack : stack = 0xBFFFF000 - slot * pageSize) : stack / pageSize = 0xBFFFF - slot := by
  have hlt := slot.isLt
  simp only [maxProcesses, pageSize] at hlt hstack ⊢
  omega

/-- The pages that a new process takes are new, and different. -/
theorem OwnPages.created (h : OwnPages s stackOf m.source.marked)
    (hinv : StackInv m₀ taken s m) {slot : Fin maxProcesses} {proc : Process}
    (hslot : slot ∉ s.alive) (hproc : proc.state = .ready)
    (hkernel : proc.kernelStack = ((pmmAllocPage pmmSource m).1 + pageSize) % 2 ^ 32)
    (hkstack : (pmmAllocPage pmmSource m).1 ≠ 0)
    (hustack : (pmmAllocPage pmmSource (pmmAllocPage pmmSource m).2).1 ≠ 0) :
    OwnPages { s.store slot proc with processCount := s.processCount + 1 }
      (recordStacks m s { s.store slot proc with processCount := s.processCount + 1 } stackOf)
      (pmmAllocPage pmmSource (pmmAllocPage pmmSource m).2).2.source.marked := by
  obtain ⟨page, hfresh, hlt, hpage, hmarked, hprivate⟩ := pmmAllocPage_grants hinv.tables hkstack
  obtain ⟨upage, hfresh', -, hupage, hmarked', hprivate'⟩ :=
    pmmAllocPage_grants hinv.tables.alloc hustack
  rw [hmarked] at hfresh'
  have hstack := kernelStack_eq hlt hpage hkernel
  have hused : proc.state ≠ .unused := by rw [hproc]; decide
  have hnew : (takeStackPage slot m).page = upage * pageSize := hupage
  -- Both pages are fresh, so no process of before owns either; and they are not the same page.
  have hupageFresh : upage ∉ m.source.marked := fun hmem =>
    hfresh' (Finset.mem_insert_of_mem hmem)
  have hcases {i : Fin maxProcesses} := @created_cases s m stackOf slot proc hslot hused i
  refine ⟨fun i hi => ?_, fun i hi j hj hsame => ?_, fun i hi j hj heq => ?_⟩
  · rcases hcases hi with ⟨-, hrecord, -⟩ | ⟨hold, hrecord, -⟩
    · rw [hrecord]
      exact ⟨upage, hprivate'.marked, hprivate'.notNull, hnew⟩
    · obtain ⟨page', hmem, hrest⟩ := h.own i hold
      rw [hrecord, hmarked', hmarked]
      exact ⟨page', Finset.mem_insert_of_mem (Finset.mem_insert_of_mem hmem), hrest⟩
  · rcases hcases hi with ⟨hi', hrecord, -⟩ | ⟨hold, hrecord, -⟩ <;>
      rcases hcases hj with ⟨hj', hrecord', -⟩ | ⟨hold', hrecord', -⟩ <;>
      rw [hrecord, hrecord'] at hsame
    · rw [hi', hj']
    · rw [hnew] at hsame
      exact absurd hsame.symm (h.page_ne hold' hupageFresh)
    · rw [hnew] at hsame
      exact absurd hsame (h.page_ne hold hupageFresh)
    · exact h.distinct i hold j hold' hsame
  · rcases hcases hi with ⟨-, -, hprocess⟩ | ⟨hold, -, hprocess⟩ <;>
      rcases hcases hj with ⟨-, hrecord, -⟩ | ⟨hold', hrecord, -⟩ <;>
      rw [hprocess, hrecord] at heq
    · rw [hstack, Nat.succ_mul, hnew] at heq
      obtain rfl := Nat.eq_of_mul_eq_mul_right (by decide) (Nat.add_right_cancel heq)
      exact hfresh' (Finset.mem_insert_self _ _)
    · rw [hstack, Nat.succ_mul] at heq
      exact h.page_ne hold' hfresh (Nat.add_right_cancel heq).symm
    · obtain ⟨kernelPage, hkernelPage, hkernelStack⟩ := hinv.kernelStack i hold
      rw [hkernelStack, Nat.succ_mul, hnew] at heq
      obtain rfl := Nat.eq_of_mul_eq_mul_right (by decide) (Nat.add_right_cancel heq)
      exact hfresh' (Finset.mem_insert_of_mem hkernelPage.marked)
    · exact h.kernelApart i hold j hold' heq

/-- The page of a new process is mapped as its record says. -/
theorem StackFrames.created (h : StackFrames s stackOf m)
    (hinv : TableInv pmmLaw m m.currentDirectory) {slot : Fin maxProcesses} {proc : Process}
    (hslot : slot ∉ s.alive) (hproc : proc.state = .ready)
    (huser : proc.userStack = 0xBFFFF000 - slot * pageSize)
    (hustack : (pmmAllocPage pmmSource (pmmAllocPage pmmSource m).2).1 ≠ 0) :
    StackFrames { s.store slot proc with processCount := s.processCount + 1 }
      (recordStacks m s { s.store slot proc with processCount := s.processCount + 1 } stackOf)
      (vmmMapPage pmmSource proc.userStack (pmmAllocPage pmmSource (pmmAllocPage pmmSource m).2).1
        0x7 (pmmAllocPage pmmSource (pmmAllocPage pmmSource m).2).2) := by
  have hinv₂ := hinv.alloc.alloc
  have hframes := (h.of_maps (pmmAllocPage_maps hinv) fun _ _ => rfl).of_maps
    (pmmAllocPage_maps hinv.alloc) fun _ _ => rfl
  have hused : proc.state ≠ .unused := by rw [hproc]; decide
  have hrecord (i : Fin maxProcesses) := @recordStacks_created s m stackOf slot proc hslot hused i
  have halive (i : Fin maxProcesses) : i ∈ (s.store slot proc).alive ↔ i = slot ∨ i ∈ s.alive := by
    rw [alive_store_used hused, Finset.mem_insert]
  have hmapped : (takeStackPage slot m).mapped = decide (mapSucceeds pmmSource proc.userStack
      (pmmAllocPage pmmSource (pmmAllocPage pmmSource m).2).2) := by
    rw [huser]
    rfl
  have hpage := userStack_page huser
  -- the other slots are as before
  have hother {n : Nat} (hn : n ≠ slot) :
      liveFrame { s.store slot proc with processCount := s.processCount + 1 }
        (recordStacks m s { s.store slot proc with processCount := s.processCount + 1 } stackOf) n =
          liveFrame s stackOf n := by
    refine liveFrame_congr fun i hi => ?_
    have hne : i ≠ slot := fun heq => hn (by rw [← hi, heq])
    rw [hrecord, if_neg hne]
    exact ⟨(halive i).trans (or_iff_right hne), rfl⟩
  intro n hn
  by_cases hsucceeds : mapSucceeds pmmSource proc.userStack
      (pmmAllocPage pmmSource (pmmAllocPage pmmSource m).2).2
  · have hmaps := vmmMapPage_maps hinv₂ proc.userStack
      (pmmAllocPage pmmSource (pmmAllocPage pmmSource m).2).1 0x7 hsucceeds
    rw [hmaps.current, hmaps.frame, hpage]
    by_cases hn' : n = slot
    · obtain ⟨upage, -, hlt, hupage, -⟩ := pmmAllocPage_grants hinv.alloc hustack
      subst hn'
      have hframe :
          (upage * pageSize) >>> 12 % 2 ^ 20 = (takeStackPage slot m).page / pageSize := by
        have hpage : (takeStackPage slot m).page = upage * pageSize := hupage
        rw [hpage, mul_pageSize_div, shiftRight_page]
        exact hlt.trans (by decide)
      rw [Function.update_self, liveFrame_coe, hrecord, if_pos rfl, hupage, hframe, if_pos]
      exact ⟨(halive slot).2 (Or.inl rfl), hmapped.trans (decide_eq_true hsucceeds)⟩
    · rw [Function.update_of_ne (stackPage_ne hn slot hn'), hother hn']
      exact hframes n hn
  · have hmaps := (vmmMapPage_fails hinv₂ proc.userStack
      (pmmAllocPage pmmSource (pmmAllocPage pmmSource m).2).1 0x7 hsucceeds).1
    rw [hmaps.current, hmaps.frame]
    by_cases hn' : n = slot
    · subst hn'
      rw [hframes _ hn, liveFrame_coe, liveFrame_coe, hrecord, if_pos rfl,
        if_neg fun h => hslot h.1, if_neg fun h => hsucceeds (of_decide_eq_true (hmapped ▸ h.2))]
    · rw [hframes n hn, hother hn']

theorem UserStackInv.create (hinv : UserStackInv m₀ s stackOf current m) (name : CString)
    (entry : Nat) :
    UserStackInv m₀ (processCreate pmmSource name entry s m).1
      (recordStacks m s (processCreate pmmSource name entry s m).1 stackOf) current
      (processCreate pmmSource name entry s m).2 := by
  obtain ⟨taken, count, hpages, hrest⟩ := hinv.paid
  have hpaid : HeapPaid m₀ (processCreate pmmSource name entry s m).1 current
      (processCreate pmmSource name entry s m).2 :=
    ⟨taken, count, hpages.create name entry, hrest⟩
  have hesp := @processCreate_esp s m name entry hinv.esp
  have hcreates := processCreate_creates pmmSource name entry s m
  generalize (processCreate pmmSource name entry s m).1 = s' at hcreates hpaid hesp ⊢
  generalize (processCreate pmmSource name entry s m).2 = m' at hcreates hpaid ⊢
  have hsubset₁ := marked_subset_alloc m.source
  have hframes₁ := hinv.frames.of_maps (pmmAllocPage_maps hpages.tables) fun _ _ => rfl
  -- without a new process the record stays
  have hkept {s' : Scheduler} (hsame : SameStacks s s') :
      recordStacks m s s' stackOf = stackOf :=
    recordStacks_of_subset (hsame.alive ▸ Finset.Subset.refl _)
  cases hcreates with
  | refused =>
      rw [hkept (.refl s)]
      exact ⟨hpaid, hesp, hinv.pages, hinv.frames⟩
  | noKernelStack slot proc hslot hproc hkstack =>
      have hsame : SameStacks s (s.store slot proc) :=
        .store_unused (Scheduler.notMem_alive hslot) hproc
      rw [hkept hsame]
      exact ⟨hpaid, hesp, (hinv.pages.mono hsubset₁).of_sameStacks hsame,
        hframes₁.of_alive hsame.alive⟩
  | noUserStack slot proc hslot hproc hkstack hustack =>
      have hsame : SameStacks s (s.store slot proc) :=
        .store_unused (Scheduler.notMem_alive hslot) hproc
      have hmarked := noUserStack_marked hpages.tables.valid hkstack hustack
      rw [hkept hsame]
      refine ⟨hpaid, hesp, (hinv.pages.mono ?_).of_sameStacks hsame, ?_⟩
      · rw [hmarked]
      · have hframes₂ := hframes₁.of_maps (pmmAllocPage_maps hpages.tables.alloc) fun _ _ => rfl
        exact hframes₂.of_alive hsame.alive
  | created slot proc hslot hproc hpid hkernel huser hkstack hustack =>
      have hown := hinv.pages.created hpages (Scheduler.notMem_alive hslot) hproc hkernel hkstack
        hustack
      exact ⟨hpaid, hesp, hown.mono (marked_subset_mapPage _ _ _ _),
        hinv.frames.created hpages.tables (Scheduler.notMem_alive hslot) hproc huser hustack⟩

/-! ## Leaving and switching -/

/-- The kernel stack that is given back was nobody's user stack. -/
theorem OwnPages.leave {marked : Finset Nat} (h : OwnPages s stackOf marked)
    {i : Fin maxProcesses} (hi : i ∈ s.alive) {page : Nat}
    (hstack : (s.processes i).kernelStack = (page + 1) * pageSize) {proc : Process}
    (hproc : proc.state = .unused) : OwnPages (s.store i proc) stackOf (marked.erase page) := by
  have hother {j : Fin maxProcesses} (hj : j ∈ (s.store i proc).alive) : j ∈ s.alive ∧ j ≠ i := by
    rw [alive_store_unused hproc] at hj
    exact ⟨Finset.mem_of_mem_erase hj, Finset.ne_of_mem_erase hj⟩
  refine ⟨fun j hj => ?_, fun j hj j' hj' => ?_, fun j hj j' hj' => ?_⟩
  · obtain ⟨own, hmem, hnull, hown⟩ := h.own j (hother hj).1
    refine ⟨own, Finset.mem_erase.2 ⟨?_, hmem⟩, hnull, hown⟩
    rintro rfl
    refine h.kernelApart i hi j (hother hj).1 ?_
    rw [hstack, hown, Nat.succ_mul]
  · exact h.distinct j (hother hj).1 j' (hother hj').1
  · rw [Scheduler.store_of_ne (hother hj).2]
    exact h.kernelApart j (hother hj).1 j' (hother hj').1

theorem StackFrames.leave (h : StackFrames s stackOf m) {i : Fin maxProcesses} {proc : Process}
    (hproc : proc.state = .unused)
    (hframe : ∀ page, pageFrame m' m'.currentDirectory page =
      Function.update (pageFrame m m.currentDirectory) (0xBFFFF - i) none page) :
    StackFrames (s.store i proc) stackOf m' := by
  intro n hn
  rw [hframe]
  by_cases hni : n = i
  · subst hni
    have hgone : i ∉ (s.store i proc).alive := by
      rw [alive_store_unused hproc]
      exact Finset.notMem_erase i _
    rw [Function.update_self, liveFrame_coe, if_neg fun h => hgone h.1]
  · rw [Function.update_of_ne (stackPage_ne hn i hni), h n hn]
    refine (liveFrame_congr fun j hj => ⟨?_, rfl⟩).symm
    have hne : j ≠ i := fun heq => hni (by rw [← hj, heq])
    rw [alive_store_unused hproc, Finset.mem_erase, and_iff_right hne]

/-- Leaving unmaps the page of the slot. -/
theorem processExit_frames (hinv : TableInv pmmLaw m m.currentDirectory) (code : Int)
    {i : Fin maxProcesses} (hcurrent : s.currentProcess = i) {page : Nat}
    (hpage : PrivatePage m page)
    (hkernel : (s.processes i).kernelStack = (page + 1) * pageSize)
    (huser : (s.processes i).userStack = 0xBFFFF000 - i * pageSize) (n : Nat) :
    pageFrame (processExit pmmSource code s m).2
        (processExit pmmSource code s m).2.currentDirectory n =
      Function.update (pageFrame m m.currentDirectory) (0xBFFFF - i) none n := by
  have hunmapped := vmmUnmapPage_maps (hpage.free.inv hinv hpage) (0xBFFFF000 - i * pageSize)
  rw [processExit_machine hinv.valid.1 code hcurrent hpage hkernel huser, ← userStack_page rfl]
  change pageFrame (vmmUnmapPage _ _ _) (vmmUnmapPage _ _ _).currentDirectory n = _
  rw [hunmapped.current]
  exact hunmapped.frame n

theorem UserStackInv.exit (hinv : UserStackInv m₀ s stackOf current m) (code : Int) :
    UserStackInv m₀ (processExit pmmSource code s m).1 stackOf current
      (processExit pmmSource code s m).2 ∧ (processExit pmmSource code s m).1.alive ⊆ s.alive := by
  obtain ⟨taken, count, hpages, hcount, hcurrent⟩ := hinv.paid
  have hexit := hpages.exit code
  rcases processExit_scheduler pmmSource code s m with ⟨hnone, heq⟩ | ⟨hindex, proc, hproc, heq⟩
  · rw [heq]
    exact ⟨hinv, Finset.Subset.refl _⟩
  obtain ⟨i, hi, hindex', hslot⟩ := hpages.scheduler.current_slot hindex
  obtain ⟨page, hprivate, hstack⟩ := hpages.kernelStack i hi
  have huser := hpages.userStack i hi
  have hback := processExit_givesBack hpages.tables code hindex' hprivate hstack huser
  have hframe := processExit_frames hpages.tables code hindex' hprivate hstack huser
  rw [hslot] at heq
  rw [if_pos hindex] at hexit
  rw [heq] at hexit ⊢
  generalize (processExit pmmSource code s m).2 = m' at hback hexit hframe ⊢
  -- the counter and the current index are no part of what follows
  have hsame : SameStacks (s.store i proc) { s.store i proc with
      processCount := s.processCount - 1
      currentProcess := -1 } := ⟨rfl, fun _ _ => ⟨rfl, rfl⟩⟩
  have hsubset : (s.store i proc).alive ⊆ s.alive := by
    rw [alive_store_unused hproc]
    exact Finset.erase_subset i _
  refine ⟨⟨⟨taken + 1, count, hexit, Nat.le_succ_of_le hcount, hcurrent⟩, fun j hj => ?_, ?_,
    (hinv.frames.leave hproc hframe).of_alive hsame.alive⟩, hsubset⟩
  · have hother : j ≠ i := by
      rintro rfl
      exact Scheduler.mem_alive.1 hj (by rw [Scheduler.store_same, hproc])
    change ((s.store i proc).processes j).cpuState.esp = ((s.store i proc).processes j).userStack
    rw [Scheduler.store_of_ne hother]
    exact hinv.esp j (hsubset hj)
  · rw [hback.marked]
    exact (hinv.pages.leave hi hstack hproc).of_sameStacks hsame

theorem processYield_cpuState (s : Scheduler) (i : Fin maxProcesses) :
    ((processYield s).processes i).cpuState = (s.processes i).cpuState :=
  @processYield_field _ Process.cpuState (fun _ _ => rfl) s i

theorem schedulerTick_cpuState (s : Scheduler) (i : Fin maxProcesses) :
    ((schedulerTick s).processes i).cpuState = (s.processes i).cpuState := by
  by_cases hcount : s.processCount = 0
  · rw [schedulerTick, if_pos hcount]
  rw [@schedulerTick_field _ _ Process.cpuState (fun _ _ => rfl) hcount]
  exact @countSlice_field _ Process.cpuState (fun _ _ => rfl) s i

theorem UserStackInv.switch (hinv : UserStackInv m₀ s stackOf current m)
    (hscheduler : SchedulerInv s') (hsame : SameStacks s s')
    (hcpu : ∀ i, (s'.processes i).cpuState = (s.processes i).cpuState) :
    UserStackInv m₀ s' stackOf current m := by
  obtain ⟨taken, count, hpages, hrest⟩ := hinv.paid
  refine ⟨⟨taken, count, hpages.of_sameStacks hscheduler hsame, hrest⟩, fun i hi => ?_,
    hinv.pages.of_sameStacks hsame, hinv.frames.of_alive hsame.alive⟩
  rw [hsame.alive] at hi
  rw [hcpu, (hsame.kept i hi).2]
  exact hinv.esp i hi

/-! ## Runs -/

/-- The invariant, of the kernel with its record. -/
def SystemRecord.Inv (m₀ : Machine Pmm) (k : SystemRecord) : Prop :=
  k.system.heap.Keeps (UserStackInv m₀ k.system.scheduler k.stackOf)

theorem SystemRecord.Inv.step {k k' : SystemRecord} {op : KernelOp} {r : Nat} (hinv : k.Inv m₀)
    (hstep : stepRecorded op k = some (r, k')) : k'.Inv m₀ := by
  obtain ⟨⟨r', system⟩, hkernel, heq⟩ := Option.map_eq_some_iff.1 hstep
  obtain ⟨-, rfl⟩ := Prod.mk.inj heq
  -- a step that creates no process leaves the record
  have hquiet (hsubset : system.scheduler.alive ⊆ k.system.scheduler.alive)
      (hkept : system.heap.Keeps (UserStackInv m₀ system.scheduler k.stackOf)) :
      SystemRecord.Inv m₀ ⟨system, recordStacks k.system.heap.pages k.system.scheduler
        system.scheduler k.stackOf⟩ := by
    rw [recordStacks_of_subset hsubset]
    exact hkept
  have hrefl := Finset.Subset.refl k.system.scheduler.alive
  cases op with
  | call op =>
      cases op with
      | kmalloc size =>
          obtain ⟨⟨r', h⟩, hcall, heq⟩ := Option.map_eq_some_iff.1 hkernel
          obtain ⟨-, rfl⟩ := Prod.mk.inj heq
          exact hquiet hrefl (kmalloc_keeps userStackInv_stable hcall hinv)
      | kmallocAligned size =>
          obtain ⟨⟨r', h⟩, hcall, heq⟩ := Option.map_eq_some_iff.1 hkernel
          obtain ⟨-, rfl⟩ := Prod.mk.inj heq
          exact hquiet hrefl (kmallocAligned_keeps userStackInv_stable hcall hinv)
      | krealloc ptr size =>
          obtain ⟨⟨r', h⟩, hcall, heq⟩ := Option.map_eq_some_iff.1 hkernel
          obtain ⟨-, rfl⟩ := Prod.mk.inj heq
          exact hquiet hrefl (krealloc_keeps userStackInv_stable hcall hinv)
      | kfree ptr =>
          obtain ⟨-, rfl⟩ := Prod.mk.inj (Option.some.inj hkernel)
          exact hquiet hrefl (kfree_keeps ptr hinv)
      | processCreate name entry =>
          obtain ⟨-, rfl⟩ := Prod.mk.inj (Option.some.inj hkernel)
          exact UserStackInv.create hinv name entry
  | process op =>
      obtain ⟨-, rfl⟩ := Prod.mk.inj (Option.some.inj hkernel)
      obtain ⟨_, _, hpages, -⟩ := UserStackInv.paid hinv
      cases op with
      | create name entry => exact UserStackInv.create hinv name entry
      | exit code =>
          obtain ⟨hleft, hsubset⟩ := UserStackInv.exit hinv code
          exact hquiet hsubset hleft
      | yield =>
          have hsame := processYield_sameStacks hpages.scheduler
          exact hquiet hsame.alive.subset (UserStackInv.switch hinv
            hpages.scheduler.processYield.1 hsame (processYield_cpuState _))
      | tick =>
          have hsame := schedulerTick_sameStacks hpages.scheduler
          exact hquiet hsame.alive.subset (UserStackInv.switch hinv
            hpages.scheduler.schedulerTick hsame (schedulerTick_cpuState _))

/-- The kernel after boot. -/
theorem bootRecorded_inv {kernelEnd totalMemory : Nat} {frames : Nat → Nat → PageEntry}
    {mem : Memory} {s₀ : System} (hkernel : 2 ^ 20 ≤ kernelEnd ∧ kernelEnd ≤ 2 ^ 28)
    (hboot : bootSystem kernelEnd totalMemory frames mem = some s₀)
    (stackOf : Fin maxProcesses → StackPage) : ∃ m₀, SystemRecord.Inv m₀ ⟨s₀, stackOf⟩ := by
  obtain ⟨m, hinit, rfl⟩ := Option.map_eq_some_iff.1 hboot
  have hbooted := rustPmmInit_booted hkernel totalMemory
  obtain ⟨hcurrent, hmapped, -, -⟩ := vmmInit_spec pmmLaw_exhausts hbooted hinit
  have htables : TableInv pmmLaw m m.currentDirectory := hcurrent ▸ hmapped.inv
  have hnone : schedulerInit.alive = ∅ := by
    simp [Scheduler.alive, schedulerInit]
  have habsent {i : Fin maxProcesses} (hi : i ∈ schedulerInit.alive) : False := by
    rw [hnone] at hi
    exact Finset.notMem_empty i hi
  refine ⟨{ m with heapEnd := heapStart }, heapInit_keeps userStackInv_stable mem ?_⟩
  refine ⟨⟨0, 0, stackInv_start schedulerInit_inv hnone (htables.of_same rfl rfl),
    Nat.le_refl 0, rfl⟩, fun i hi => (habsent hi).elim, ⟨fun i hi => (habsent hi).elim,
    fun i hi => (habsent hi).elim, fun i hi => (habsent hi).elim⟩, fun n hn => ?_⟩
  have hindex : (0xBFFFF - n) / 1024 ∉ bootIndices := by
    have htable : (0xBFFFF - n) / 1024 = 767 := by
      simp only [maxProcesses] at hn
      omega
    rw [htable]
    decide
  have hframe : liveFrame schedulerInit stackOf n = none := by
    by_cases hlt : n < maxProcesses
    · rw [liveFrame, dif_pos hlt, if_neg fun h => habsent h.1]
    · rw [liveFrame, dif_neg hlt]
  rw [hframe]
  exact @vmmInit_outside _ _ pmmLaw m _ _ hbooted hinit _ hindex

theorem runRecorded_inv {ops : List KernelOp} {k k' : SystemRecord} {rs : List Nat}
    (hrun : runAll stepRecorded ops k = some (rs, k')) (hinv : k.Inv m₀) : k'.Inv m₀ := by
  have hgood : ∀ r ∈ rs, (fun _ => True) r := fun _ _ => trivial
  exact runAll_preserves (fun _ k => k.Inv m₀) (fun _ _ _ _ _ hk hstep _ => hk.step hstep)
    hrun hgood hinv

/-! ## Where the first push goes -/

theorem addressIn_some (frame virt : Nat) :
    addressIn (some frame) virt = frame * pageSize + virt % pageSize := by
  have hoffset : virt &&& 0xFFF = virt % 2 ^ 12 := Nat.and_two_pow_sub_one_eq_mod virt 12
  rw [addressIn, hoffset, ← Nat.shiftLeft_add_eq_or_of_lt (Nat.mod_lt _ (by decide)),
    shiftLeft_page]
  rfl

theorem InPage.of_frame (frame virt : Nat) :
    InPage (frame * pageSize) (addressIn (some frame) virt) := by
  rw [addressIn_some]
  exact ⟨Nat.le_add_right _ _, Nat.add_lt_add_left (Nat.mod_lt _ (by decide)) _⟩

theorem InPage.not_apart {page page' address : Nat} (h : InPage page address)
    (h' : InPage page' address) : ¬ PagesApart page page' := by
  obtain ⟨hlow, hhigh⟩ := h
  obtain ⟨hlow', hhigh'⟩ := h'
  rintro (hle | hle)
  · omega
  · omega

/-- The address below the stack pointer, and what is mapped there. -/
theorem UserStackInv.push_physical (hinv : UserStackInv m₀ s stackOf current m)
    {i : Fin maxProcesses} (hi : i ∈ s.alive) {b : Nat} (hb : 1 ≤ b) (hb' : b ≤ 4) :
    vmmGetPhysical m ((s.processes i).cpuState.esp - b) =
      addressIn (liveFrame s stackOf (i + 1)) ((s.processes i).cpuState.esp - b) := by
  obtain ⟨_, _, hpages, -⟩ := hinv.paid
  have hesp := hinv.esp i hi
  rw [hpages.userStack i hi] at hesp
  have hlt := i.isLt
  have hpage : ((s.processes i).cpuState.esp - b) / pageSize = 0xBFFFF - (i + 1) := by
    rw [hesp]
    simp only [maxProcesses, pageSize] at hlt ⊢
    omega
  rw [vmmGetPhysical_eq, hpage, hinv.frames _ hlt]

theorem UserStackInv.framesApart (hinv : UserStackInv m₀ s stackOf current m)
    {i j : Fin maxProcesses} (hi : i ∈ s.alive) (hj : j ∈ s.alive) (hne : i ≠ j) :
    PagesApart (stackOf i).page (stackOf j).page := by
  obtain ⟨page, -, -, hpage⟩ := hinv.pages.own i hi
  obtain ⟨page', -, -, hpage'⟩ := hinv.pages.own j hj
  have hdistinct : page ≠ page' := by
    rintro rfl
    exact hne (hinv.pages.distinct i hi j hj (hpage.trans hpage'.symm))
  rw [hpage, hpage', PagesApart, ← Nat.succ_mul, ← Nat.succ_mul]
  exact (Nat.lt_or_gt_of_ne hdistinct).imp (Nat.mul_le_mul_right _) (Nat.mul_le_mul_right _)

theorem UserStackInv.addressesApart (hinv : UserStackInv m₀ s stackOf current m)
    {i j : Fin maxProcesses} (hi : i ∈ s.alive) (hj : j ∈ s.alive) (hne : i ≠ j) :
    PagesApart (s.processes i).userStack (s.processes j).userStack := by
  obtain ⟨_, _, hpages, -⟩ := hinv.paid
  rw [hpages.userStack i hi, hpages.userStack j hj, PagesApart]
  have hvalue : (i : Nat) ≠ j := fun heq => hne (Fin.ext heq)
  have hlt := i.isLt
  have hlt' := j.isLt
  simp only [maxProcesses, pageSize] at hlt hlt' ⊢
  omega

/-- While a process lives in the next slot, the push goes to its stack. -/
theorem UserStackInv.push_hits_next (hinv : UserStackInv m₀ s stackOf current m)
    {i j : Fin maxProcesses} (hi : i ∈ s.alive) (hj : j ∈ s.alive) (hnext : (j : Nat) = i + 1)
    (hmapped : (stackOf j).mapped = true) {b : Nat} (hb : 1 ≤ b) (hb' : b ≤ 4) :
    InPage (stackOf j).page (vmmGetPhysical m ((s.processes i).cpuState.esp - b)) := by
  obtain ⟨page, -, -, hpage⟩ := hinv.pages.own j hj
  rw [hinv.push_physical hi hb hb', ← hnext, liveFrame_coe, if_pos ⟨hj, hmapped⟩, hpage,
    mul_pageSize_div]
  exact .of_frame _ _

/-- Else it goes to an address where nothing is mapped. -/
theorem UserStackInv.push_unmapped (hinv : UserStackInv m₀ s stackOf current m)
    {i : Fin maxProcesses} (hi : i ∈ s.alive)
    (hnone : ∀ j ∈ s.alive, (j : Nat) = i + 1 → (stackOf j).mapped = false) {b : Nat}
    (hb : 1 ≤ b) (hb' : b ≤ 4) :
    vmmGetPhysical m ((s.processes i).cpuState.esp - b) = 0 := by
  have hframe : liveFrame s stackOf (i + 1) = none := by
    by_cases hlt : i + 1 < maxProcesses
    · refine (@liveFrame_coe s stackOf ⟨i + 1, hlt⟩).trans (if_neg ?_)
      rintro ⟨hj, hmapped⟩
      rw [hnone _ hj rfl] at hmapped
      exact Bool.false_ne_true hmapped
    · rw [liveFrame, dif_neg hlt]
  rw [hinv.push_physical hi hb hb', hframe]
  rfl

/-- The first push of a process does not reach its own stack. -/
theorem UserStackInv.push_misses (hinv : UserStackInv m₀ s stackOf current m)
    {i : Fin maxProcesses} (hi : i ∈ s.alive) {b : Nat} (hb : 1 ≤ b) (hb' : b ≤ 4) :
    ¬ InPage (stackOf i).page (vmmGetPhysical m ((s.processes i).cpuState.esp - b)) := by
  intro hin
  by_cases hnext : ∃ j ∈ s.alive, (j : Nat) = i + 1 ∧ (stackOf j).mapped = true
  · obtain ⟨j, hj, hvalue, hmapped⟩ := hnext
    have hne : i ≠ j := by
      rintro rfl
      omega
    exact hin.not_apart (hinv.push_hits_next hi hj hvalue hmapped hb hb')
      (hinv.framesApart hi hj hne)
  · obtain ⟨page, -, hnull, hpage⟩ := hinv.pages.own i hi
    rw [hinv.push_unmapped hi (fun j hj hvalue => ?_) hb hb', hpage] at hin
    · exact Nat.mul_ne_zero hnull (by decide) (Nat.le_zero.1 hin.1)
    · exact Bool.eq_false_iff.2 fun hmapped => hnext ⟨j, hj, hvalue, hmapped⟩

/-- After boot, in every run: a process whose stack was mapped pushes outside of
it, although the pages of different processes are apart. -/
theorem user_stacks_iff {kernelEnd totalMemory : Nat} {frames : Nat → Nat → PageEntry}
    {mem : Memory} {s₀ : System} {stackOf : Fin maxProcesses → StackPage} {ops : List KernelOp}
    {rs : List Nat} {k : SystemRecord} (hkernel : 2 ^ 20 ≤ kernelEnd ∧ kernelEnd ≤ 2 ^ 28)
    (hboot : bootSystem kernelEnd totalMemory frames mem = some s₀)
    (hrun : runAll stepRecorded ops ⟨s₀, stackOf⟩ = some (rs, k)) :
    (∀ i ∈ k.system.scheduler.alive, StackUsable k i ↔ (k.stackOf i).mapped = false) ∧
      (UserStacks k ↔ ∀ i ∈ k.system.scheduler.alive, (k.stackOf i).mapped = false) := by
  obtain ⟨m₀, hbooted⟩ := bootRecorded_inv hkernel hboot stackOf
  have hinv : UserStackInv m₀ k.system.scheduler k.stackOf k.system.heap.heapCurrent
      k.system.heap.pages := runRecorded_inv hrun hbooted
  have husable (i : Fin maxProcesses) (hi : i ∈ k.system.scheduler.alive) :
      StackUsable k i ↔ (k.stackOf i).mapped = false := by
    constructor
    · intro hpush
      rw [Bool.eq_false_iff]
      intro hmapped
      exact hinv.push_misses hi (Nat.le_refl 1) (by decide)
        (hpush hmapped 1 (by decide) (by decide))
    · intro hmapped hpush
      rw [hmapped] at hpush
      exact absurd hpush Bool.false_ne_true
  refine ⟨husable, fun h i hi => (husable i hi).1 (h.usable i hi), fun h => ?_⟩
  exact ⟨fun i hi => (husable i hi).2 (h i hi), fun i hi j hj => hinv.framesApart hi hj,
    fun i hi j hj => hinv.addressesApart hi hj⟩

theorem user_stacks_iff_boot :
    ∃ s₀ k, bootSystem 0x180000 0x1000000 (fun _ _ => .zero) (fun _ => 0) = some s₀ ∧
      runAll stepRecorded [.process (.create (CString.ofBuffer []) 0x100000), .process .tick]
        ⟨s₀, fun _ => ⟨0, false⟩⟩ = some ([0, 0], k) ∧
      (∀ i ∈ k.system.scheduler.alive, StackUsable k i ↔ (k.stackOf i).mapped = false) ∧
      (UserStacks k ↔ ∀ i ∈ k.system.scheduler.alive, (k.stackOf i).mapped = false) := by
  obtain ⟨s₀, hboot, -⟩ := boot_heap
  have hreturns : ∃ k, runAll stepRecorded
      [.process (.create (CString.ofBuffer []) 0x100000), .process .tick]
      ⟨s₀, fun _ => ⟨0, false⟩⟩ = some ([0, 0], k) := ⟨_, rfl⟩
  obtain ⟨k, hrun⟩ := hreturns
  exact ⟨s₀, k, hboot, hrun, user_stacks_iff ⟨by decide, by decide⟩ hboot hrun⟩

/-! ## Two processes -/

theorem mapSucceeds_of_clear (hinv : TableInv pmmLaw m m.currentDirectory)
    (hclear : 1 ≤ m.source.clear.card) (virt : Nat) : mapSucceeds pmmSource virt m :=
  (hinv.mapSucceeds_iff virt).2 (.inr (alloc_of_clear hinv.valid hclear))

/-- With three pages the first free slot is taken and its stack is mapped. -/
theorem stepRecorded_create {k : SystemRecord} {count : Nat}
    (hcrowd : Crowd count k.system.scheduler) (hroom : count < maxProcesses)
    (hfilled : ∀ i, i ∈ k.system.scheduler.alive ↔ (i : Nat) < count)
    (hinv : TableInv pmmLaw k.system.heap.pages k.system.heap.pages.currentDirectory)
    (hclear : 3 ≤ k.system.heap.pages.source.clear.card) :
    ∃ k' : SystemRecord,
      stepRecorded (.process (.create (CString.ofBuffer []) 0x100000)) k = some (0, k') ∧
      (∀ i, i ∈ k'.system.scheduler.alive ↔ (i : Nat) < count + 1) ∧
      (k'.stackOf ⟨count, hroom⟩).mapped = true ∧
      (∀ i ∈ k.system.scheduler.alive, k'.stackOf i = k.stackOf i) ∧
      Crowd (count + 1) k'.system.scheduler ∧
      TableInv pmmLaw k'.system.heap.pages k'.system.heap.pages.currentDirectory ∧
      k.system.heap.pages.source.clear.card ≤ k'.system.heap.pages.source.clear.card + 3 := by
  obtain ⟨hcrowd', htables, hleft⟩ := hcrowd.create hroom hinv (Nat.le_of_succ_le hclear)
    (CString.ofBuffer []) 0x100000
  obtain ⟨slot, proc, hslot, hbelow, hproc, -, heq⟩ := hcrowd.processCreate_accepts hroom hinv
    (Nat.le_of_succ_le hclear) (CString.ofBuffer []) 0x100000
  have hused : proc.state ≠ .unused := by rw [hproc]; decide
  -- the slots below the count are taken, and no other
  have hcount : slot = ⟨count, hroom⟩ := by
    refine le_antisymm (not_lt.1 fun hlt => ?_) (not_lt.1 fun hlt => hslot ((hfilled slot).2 hlt))
    exact Nat.lt_irrefl count ((hfilled _).1 (hbelow _ hlt))
  subst hcount
  refine ⟨_, rfl, fun i => ?_, ?_, fun i hi => ?_, hcrowd', htables, hleft⟩
  · change i ∈ (processCreate pmmSource _ _ _ _).1.alive ↔ _
    rw [heq]
    change i ∈ (Scheduler.store _ _ _).alive ↔ _
    rw [alive_store_used hused, Finset.mem_insert, hfilled, Nat.lt_succ_iff_lt_or_eq, or_comm,
      Fin.ext_iff]
  · change (recordStacks _ _ (processCreate pmmSource _ _ _ _).1 _ _).mapped = true
    rw [heq, recordStacks_created hslot hused, if_pos rfl]
    refine decide_eq_true (mapSucceeds_of_clear hinv.alloc.alloc ?_ _)
    have hfirst := card_clear_alloc k.system.heap.pages.source
    have hsecond := card_clear_alloc (pmmSource.alloc k.system.heap.pages.source).2
    change 1 ≤ (pmmSource.alloc (pmmSource.alloc k.system.heap.pages.source).2).2.clear.card
    omega
  · have hne : i ≠ ⟨count, hroom⟩ := fun h => hslot (h ▸ hi)
    change recordStacks _ _ (processCreate pmmSource _ _ _ _).1 _ i = _
    rw [heq, recordStacks_created hslot hused, if_neg hne]

/-- Of two processes the first pushes to the stack of the second. -/
theorem first_push_hits_neighbour :
    ∃ (s₀ : System) (k : SystemRecord) (i j : Fin maxProcesses),
      bootSystem 0x180000 0x1000000 (fun _ _ => .zero) (fun _ => 0) = some s₀ ∧
      runAll stepRecorded [.process (.create (CString.ofBuffer []) 0x100000),
        .process (.create (CString.ofBuffer []) 0x100000)] ⟨s₀, fun _ => ⟨0, false⟩⟩ =
          some ([0, 0], k) ∧
      i ∈ k.system.scheduler.alive ∧ j ∈ k.system.scheduler.alive ∧ i ≠ j ∧
      (k.stackOf i).mapped = true ∧ (k.stackOf j).mapped = true ∧
      InPage (k.stackOf j).page (vmmGetPhysical k.system.heap.pages
        ((k.system.scheduler.processes i).cpuState.esp - 4)) ∧ ¬ UserStacks k := by
  obtain ⟨s₀, hboot, -, hclear, -⟩ := boot_heap
  have hnone : s₀.scheduler.alive = ∅ := by
    obtain ⟨m, -, rfl⟩ := Option.map_eq_some_iff.1 hboot
    simp [Scheduler.alive, schedulerInit]
  have hpages : s₀.heap.pages.source.clear.card = 3630 := by
    rw [hclear, Nat.card_Ico]
  obtain ⟨m₀, hbooted⟩ := bootRecorded_inv ⟨by decide, by decide⟩ hboot fun _ => ⟨0, false⟩
  obtain ⟨_, _, hstart, -⟩ := UserStackInv.paid hbooted
  have hfilled (i : Fin maxProcesses) : i ∈ s₀.scheduler.alive ↔ (i : Nat) < 0 := by
    rw [hnone]
    exact iff_of_false (Finset.notMem_empty i) (Nat.not_lt_zero _)
  have hcrowd : Crowd 0 s₀.scheduler :=
    ⟨hstart.scheduler, fun i hi => absurd ((hfilled i).1 hi) (Nat.not_lt_zero _),
      by rw [hnone]; rfl⟩
  obtain ⟨k₁, hstep₁, hfilled₁, hmapped₁, -, hcrowd₁, htables₁, hleft₁⟩ :=
    @stepRecorded_create ⟨s₀, fun _ => ⟨0, false⟩⟩ 0 hcrowd (by decide) hfilled hstart.tables
      (by change 3 ≤ s₀.heap.pages.source.clear.card; omega)
  change s₀.heap.pages.source.clear.card ≤ _ at hleft₁
  obtain ⟨k₂, hstep₂, hfilled₂, hmapped₂, hkept, -, -, -⟩ :=
    stepRecorded_create hcrowd₁ (by decide) hfilled₁ htables₁ (by omega)
  have hrun : runAll stepRecorded [.process (.create (CString.ofBuffer []) 0x100000),
      .process (.create (CString.ofBuffer []) 0x100000)] ⟨s₀, fun _ => ⟨0, false⟩⟩ =
        some ([0, 0], k₂) := by
    simp only [runAll, hstep₁, hstep₂, Option.bind_some, Option.map_some]
  have hinv : UserStackInv m₀ k₂.system.scheduler k₂.stackOf k₂.system.heap.heapCurrent
      k₂.system.heap.pages := runRecorded_inv hrun hbooted
  have hi : (⟨0, by decide⟩ : Fin maxProcesses) ∈ k₂.system.scheduler.alive :=
    (hfilled₂ _).2 (by decide)
  have hj : (⟨1, by decide⟩ : Fin maxProcesses) ∈ k₂.system.scheduler.alive :=
    (hfilled₂ _).2 (by decide)
  have hmapped : (k₂.stackOf ⟨0, by decide⟩).mapped = true := by
    rw [hkept _ ((hfilled₁ _).2 (by decide))]
    exact hmapped₁
  refine ⟨s₀, k₂, _, _, hboot, hrun, hi, hj, by decide, hmapped, hmapped₂,
    hinv.push_hits_next hi hj rfl hmapped₂ (by decide) (by decide), fun h => ?_⟩
  exact hinv.push_misses hi (Nat.le_refl 1) (by decide)
    (h.usable _ hi hmapped 1 (by decide) (by decide))

end Dosfs
