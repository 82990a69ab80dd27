import Dosfs.Kernel.Boot
import Dosfs.Process.SchedulerInvariant

/-!
# The pages of processes

What `process_create` takes from the allocator and what `process_exit` gives
back. The kernel stack comes back. The user stack does not: it is freed at the
address it was mapped at, and no physical page is that high.
-/

namespace Dosfs

open Foundation

variable {s : Scheduler} {m m₀ : Machine Pmm} {page : Nat}

/-! ## Private pages -/

/-- A page that is taken and is neither the current directory nor one of its
tables. -/
structure PrivatePage (m : Machine Pmm) (page : Nat) : Prop where
  notNull : page ≠ 0
  marked : page ∈ m.source.marked
  notDir : page ≠ m.currentDirectory / pageSize
  notTable : ∀ i, (m.entry m.currentDirectory i).present = true →
    (m.entry m.currentDirectory i).frame ≠ page

theorem PrivatePage.alloc (hpage : PrivatePage m page) :
    PrivatePage (pmmAllocPage pmmSource m).2 page :=
  ⟨hpage.notNull, marked_subset_alloc _ hpage.marked, hpage.notDir, hpage.notTable⟩

/-- A call that hands out a page. -/
theorem pmmAllocPage_grants (hinv : TableInv pmmLaw m m.currentDirectory)
    (hgranted : (pmmAllocPage pmmSource m).1 ≠ 0) :
    ∃ page, page ∉ m.source.marked ∧ page < bitmapSize * 8 ∧
      (pmmAllocPage pmmSource m).1 = page * pageSize ∧
      (pmmAllocPage pmmSource m).2.source.marked = insert page m.source.marked ∧
      PrivatePage (pmmAllocPage pmmSource m).2 page := by
  rcases pmmSource_alloc_cases hinv.valid with ⟨page, hleast, hpage, heq⟩ | ⟨-, heq⟩
  · have hlt := (Pmm.mem_clear.1 hleast.1).1
    have hfresh := Pmm.notMem_marked_of_clear hleast.1
    have hmarked : (pmmAllocPage pmmSource m).2.source.marked = insert page m.source.marked := by
      change (pmmSource.alloc m.source).2.marked = _
      rw [heq, Pmm.markPage_marked hlt]
    refine ⟨page, hfresh, hlt.trans_le hinv.valid.1, congrArg Prod.fst heq, hmarked, hpage,
      ?_, ?_, ?_⟩
    · rw [hmarked]
      exact Finset.mem_insert_self _ _
    · rintro rfl
      exact hfresh hinv.dirTaken
    · rintro i hi rfl
      exact hfresh (hinv.tableTaken i hi)
  · exact absurd (congrArg Prod.fst heq) hgranted

/-- A call without success leaves the bitmap. -/
theorem pmmAllocPage_refuses (hinv : TableInv pmmLaw m m.currentDirectory)
    (hnull : (pmmAllocPage pmmSource m).1 = 0) :
    (pmmAllocPage pmmSource m).2.source = m.source := by
  rcases pmmSource_alloc_cases hinv.valid with ⟨page, -, hpage, heq⟩ | ⟨-, heq⟩
  · refine absurd hnull ?_
    change (pmmSource.alloc m.source).1 ≠ 0
    rw [heq]
    exact Nat.mul_ne_zero hpage (by decide)
  · exact congrArg Prod.snd heq

theorem TableInv.alloc (hinv : TableInv pmmLaw m m.currentDirectory) :
    TableInv pmmLaw (pmmAllocPage pmmSource m).2 m.currentDirectory :=
  (pmmAllocPage_maps hinv).inv

/-- Mapping leaves the bitmap and the directory, or it enters a fresh table. -/
theorem vmmMapPage_marked (hinv : TableInv pmmLaw m m.currentDirectory) (virt phys flags : Nat) :
    ((vmmMapPage pmmSource virt phys flags m).source.marked = m.source.marked ∧
      ∀ i, (vmmMapPage pmmSource virt phys flags m).entry m.currentDirectory i =
        m.entry m.currentDirectory i) ∨
    ((m.entry m.currentDirectory (dirIndex virt)).present = false ∧
      ∃ table, table ∉ m.source.marked ∧
        (vmmMapPage pmmSource virt phys flags m).source.marked = insert table m.source.marked ∧
        ∀ i, (vmmMapPage pmmSource virt phys flags m).entry m.currentDirectory i =
          if i = dirIndex virt then ⟨true, true, false, table⟩
          else m.entry m.currentDirectory i) := by
  have hresult := getPageTable_result hinv.valid m.currentDirectory (dirIndex virt)
  obtain ⟨hmaps, -, hentered⟩ := getPageTable_maps hinv hresult
  unfold vmmMapPage
  dsimp only
  generalize (getPageTable pmmSource m.currentDirectory (dirIndex virt) true m).1 = addr
    at hresult hentered ⊢
  generalize (getPageTable pmmSource m.currentDirectory (dirIndex virt) true m).2 = m'
    at hresult hmaps hentered ⊢
  -- The page entry goes into a table, never into the directory.
  have hstored (hnotNull : addr ≠ 0) (e : PageEntry) (i : Nat) :
      (m'.storeEntry addr (tableIndex virt) e).entry m.currentDirectory i =
        m'.entry m.currentDirectory i := by
    obtain ⟨hpresent, haddr⟩ := hentered hnotNull
    rw [haddr]
    exact entry_storeEntry_table hmaps.inv hpresent i
  -- A table that exists costs nothing, a refused one neither; a created one costs its own page.
  cases hresult with
  | found hpresent =>
      have hnotNull := Nat.mul_ne_zero (hinv.tableNotNull _ hpresent) (show pageSize ≠ 0 by decide)
      rw [if_neg hnotNull]
      exact Or.inl ⟨rfl, hstored hnotNull _⟩
  | failed m' habsent halloc =>
      have hm' : m' = (pmmAllocPage pmmSource m).2 := by rw [halloc]
      have hnull : (pmmAllocPage pmmSource m).1 = 0 := by rw [halloc]
      subst hm'
      rw [if_pos rfl]
      exact Or.inl ⟨by rw [pmmAllocPage_refuses hinv hnull], fun _ => rfl⟩
  | created table m' habsent halloc htable hfresh htaken =>
      have hm' : m' = (pmmAllocPage pmmSource m).2 := by rw [halloc]
      have hpage : (pmmAllocPage pmmSource m).1 = table * pageSize := by rw [halloc]
      subst hm'
      have hnotNull := Nat.mul_ne_zero htable (show pageSize ≠ 0 by decide)
      have hdir : table ≠ m.currentDirectory / pageSize := by
        rintro rfl
        exact hfresh hinv.dirTaken
      obtain ⟨page, -, -, hpage', hmarked, -⟩ := pmmAllocPage_grants hinv (hpage ▸ hnotNull)
      obtain rfl := Nat.eq_of_mul_eq_mul_right (by decide) (hpage.symm.trans hpage')
      rw [if_neg hnotNull]
      refine Or.inr ⟨habsent, table, hfresh, hmarked, fun i => ?_⟩
      rw [hstored hnotNull]
      exact @entry_enterTable _ m m.currentDirectory (pmmAllocPage pmmSource m).2 (dirIndex virt)
        table (fun _ => .zero) rfl hdir i

theorem PrivatePage.mapPage (hinv : TableInv pmmLaw m m.currentDirectory)
    (hpage : PrivatePage m page) (virt phys flags : Nat) :
    PrivatePage (vmmMapPage pmmSource virt phys flags m) page := by
  have hcurrent := (hinv.mapPage virt phys flags).1
  rcases vmmMapPage_marked hinv virt phys flags with
    ⟨hmarked, hentries⟩ | ⟨-, table, hfresh, hmarked, hentries⟩
  · refine ⟨hpage.notNull, hmarked ▸ hpage.marked, hcurrent ▸ hpage.notDir, fun i hi => ?_⟩
    rw [hcurrent, hentries] at hi ⊢
    exact hpage.notTable i hi
  · refine ⟨hpage.notNull, ?_, hcurrent ▸ hpage.notDir, fun i hi => ?_⟩
    · rw [hmarked]
      exact Finset.mem_insert_of_mem hpage.marked
    · rw [hcurrent, hentries] at hi ⊢
      split_ifs at hi ⊢
      · rintro rfl
        exact hfresh hpage.marked
      · exact hpage.notTable i hi

/-! ## Giving pages back -/

/-- Unmapping touches neither the bitmap nor the directory. -/
theorem vmmUnmapPage_directory (hinv : TableInv pmmLaw m m.currentDirectory) (virt : Nat) :
    (vmmUnmapPage pmmSource virt m).source = m.source ∧
      ∀ i, (vmmUnmapPage pmmSource virt m).entry m.currentDirectory i =
        m.entry m.currentDirectory i := by
  rw [vmmUnmapPage, getPageTable]
  cases hpresent : (m.entry m.currentDirectory (dirIndex virt)).present with
  | true =>
      simp only [if_true, shiftLeft_page]
      rw [if_neg (Nat.mul_ne_zero (hinv.tableNotNull _ hpresent) (by decide))]
      exact ⟨rfl, entry_storeEntry_table hinv hpresent⟩
  | false => exact ⟨rfl, fun _ => rfl⟩

/-- The bitmap without a page, and the same directory. -/
structure GivesBack (m : Machine Pmm) (page : Nat) (m' : Machine Pmm) : Prop where
  current : m'.currentDirectory = m.currentDirectory
  entries : ∀ i, m'.entry m.currentDirectory i = m.entry m.currentDirectory i
  total : m'.source.totalPages = m.source.totalPages
  marked : m'.source.marked = m.source.marked.erase page

theorem GivesBack.inv {m' : Machine Pmm} (hback : GivesBack m page m')
    (hinv : TableInv pmmLaw m m.currentDirectory) (hpage : PrivatePage m page) :
    TableInv pmmLaw m' m.currentDirectory := by
  have hkept {other : Nat} (hother : other ∈ m.source.marked) (hne : other ≠ page) :
      other ∈ m'.source.marked := by
    rw [hback.marked]
    exact Finset.mem_erase.2 ⟨hne, hother⟩
  refine ⟨⟨?_, fun hzero => ?_⟩, hkept hinv.dirTaken hpage.notDir.symm, fun i hi => ?_, ?_, ?_, ?_⟩
  · rw [hback.total]
    exact hinv.valid.1
  · obtain ⟨hlt, hunmarked⟩ := Finset.mem_sdiff.1 hzero
    rw [hback.total] at hlt
    refine hinv.valid.2 (Finset.mem_sdiff.2 ⟨hlt, fun hmarked => hunmarked ?_⟩)
    exact hkept hmarked hpage.notNull.symm
  · rw [hback.entries] at hi ⊢
    exact hkept (hinv.tableTaken i hi) (hpage.notTable i hi)
  · simpa only [hback.entries] using hinv.tableNotNull
  · simpa only [hback.entries] using hinv.tableNotDir
  · simpa only [hback.entries] using hinv.distinct

theorem GivesBack.privatePage {m' : Machine Pmm} {other : Nat} (hback : GivesBack m page m')
    (hother : PrivatePage m other) (hne : other ≠ page) : PrivatePage m' other := by
  refine ⟨hother.notNull, ?_, hback.current ▸ hother.notDir, fun i hi => ?_⟩
  · rw [hback.marked]
    exact Finset.mem_erase.2 ⟨hne, hother.marked⟩
  · rw [hback.current, hback.entries] at hi ⊢
    exact hother.notTable i hi

/-- No physical page has the address of a user stack. -/
theorem userStack_free_ignored {pmm : Pmm} (htotal : pmm.totalPages ≤ bitmapSize * 8)
    (slot : Fin maxProcesses) :
    rustPmmFreePage ((0xBFFFF000 - slot * pageSize) &&& 0xFFFFF000) pmm = pmm := by
  have haddress : ∀ slot : Fin maxProcesses,
      bitmapSize * 8 ≤ ((0xBFFFF000 - slot * pageSize) &&& 0xFFFFF000) / pageSize := by decide
  have hpage := haddress slot
  generalize (0xBFFFF000 - slot * pageSize) &&& 0xFFFFF000 = page at hpage ⊢
  unfold rustPmmFreePage
  dsimp only
  rw [if_neg (c := _ ∧ _) fun h => absurd h.1 (Nat.not_lt.2 (htotal.trans hpage)), ite_self]

/-- Freeing a private page. -/
theorem PrivatePage.free (hpage : PrivatePage m page) :
    GivesBack m page (pmmFreePage pmmSource (page * pageSize) m) := by
  refine ⟨rfl, fun _ => rfl, Pmm.rustPmmFreePage_totalPages _ _, ?_⟩
  change (rustPmmFreePage (page * pageSize) m.source).marked = _
  rw [Pmm.rustPmmFreePage_marked, if_neg (Nat.mul_ne_zero hpage.notNull (by decide)),
    mul_pageSize_div]

/-- What leaving does to the machine. -/
theorem processExit_machine (htotal : m.source.totalPages ≤ bitmapSize * 8) (code : Int)
    {i : Fin maxProcesses} (hcurrent : s.currentProcess = i) (hpage : PrivatePage m page)
    (hkernel : (s.processes i).kernelStack = (page + 1) * pageSize)
    (huser : (s.processes i).userStack = 0xBFFFF000 - i * pageSize) :
    (processExit pmmSource code s m).2 =
      pmmFreePage pmmSource ((0xBFFFF000 - i * pageSize) &&& 0xFFFFF000)
        (vmmUnmapPage pmmSource (0xBFFFF000 - i * pageSize)
          (pmmFreePage pmmSource (page * pageSize) m)) := by
  have hlt : page < bitmapSize * 8 := (Pmm.mem_marked.1 hpage.marked).1.trans_le htotal
  have haddress : ((page + 1) * pageSize + 2 ^ 32 - pageSize) % 2 ^ 32 = page * pageSize := by
    simp only [bitmapSize, pageSize] at hlt ⊢
    omega
  have hstack : 0xBFFFF000 - (i : Nat) * pageSize ≠ 0 := by
    have hbounds := userStack_bounds huser
    rw [huser] at hbounds
    omega
  unfold processExit
  rw [if_neg (by rw [hcurrent]; exact Int.not_lt.2 (Int.natCast_nonneg _)), hcurrent, slotAt_coe]
  dsimp only
  rw [hkernel, if_pos (Nat.mul_ne_zero (Nat.succ_ne_zero _) (by decide)), haddress, huser,
    if_pos hstack]

/-- Leaving gives back the kernel stack only. -/
theorem processExit_givesBack (hinv : TableInv pmmLaw m m.currentDirectory) (code : Int)
    {i : Fin maxProcesses} (hcurrent : s.currentProcess = i) (hpage : PrivatePage m page)
    (hkernel : (s.processes i).kernelStack = (page + 1) * pageSize)
    (huser : (s.processes i).userStack = 0xBFFFF000 - i * pageSize) :
    GivesBack m page (processExit pmmSource code s m).2 := by
  have htotal : m.source.totalPages ≤ bitmapSize * 8 := hinv.valid.1
  have hback := hpage.free
  have hinv' := hback.inv hinv hpage
  have hexit := processExit_machine htotal code hcurrent hpage hkernel huser
  obtain ⟨hsource, hentries⟩ := vmmUnmapPage_directory hinv' (0xBFFFF000 - i * pageSize)
  have hcurrent' := (vmmUnmapPage_maps hinv' (0xBFFFF000 - i * pageSize)).current
  have hsource' : (processExit pmmSource code s m).2.source =
      (pmmFreePage pmmSource (page * pageSize) m).source := by
    rw [hexit, ← hsource]
    exact userStack_free_ignored (by rw [hsource, hback.total]; exact htotal) i
  refine ⟨?_, fun index => ?_, ?_, ?_⟩
  · rw [hexit]
    exact hcurrent'
  · rw [hexit]
    exact hentries index
  · rw [hsource', hback.total]
  · rw [hsource', hback.marked]

/-! ## The balance of pages -/

/-- The pages that the table of the user stacks has taken since `m₀`. -/
def stackTables (m₀ m : Machine Pmm) : Nat :=
  if (m.entry m.currentDirectory (dirIndex 0xBFFFF000)).present ∧
      ¬ (m₀.entry m₀.currentDirectory (dirIndex 0xBFFFF000)).present then 1
  else 0

/-- Since `m₀` two pages were taken for each process alive, one for the table of
the user stacks if that is new, and one for each process that has left. -/
structure StackInv (m₀ : Machine Pmm) (exits : Nat) (s : Scheduler) (m : Machine Pmm) : Prop where
  scheduler : SchedulerInv s
  current : m.currentDirectory = m₀.currentDirectory
  tables : TableInv pmmLaw m m.currentDirectory
  kernelStack : ∀ i ∈ s.alive, ∃ page, PrivatePage m page ∧
    (s.processes i).kernelStack = (page + 1) * pageSize
  userStack : ∀ i ∈ s.alive, (s.processes i).userStack = 0xBFFFF000 - i * pageSize
  distinct : ∀ i ∈ s.alive, ∀ j ∈ s.alive,
    (s.processes i).kernelStack = (s.processes j).kernelStack → i = j
  stackTable : (m₀.entry m₀.currentDirectory (dirIndex 0xBFFFF000)).present = true →
    (m.entry m.currentDirectory (dirIndex 0xBFFFF000)).present = true
  balance : m.source.marked.card =
    m₀.source.marked.card + 2 * s.alive.card + stackTables m₀ m + exits

/-- The same processes are alive, with the same stacks. -/
structure SameStacks (s s' : Scheduler) : Prop where
  alive : s'.alive = s.alive
  kept : ∀ i ∈ s.alive, (s'.processes i).kernelStack = (s.processes i).kernelStack ∧
    (s'.processes i).userStack = (s.processes i).userStack

theorem SameStacks.refl (s : Scheduler) : SameStacks s s := ⟨rfl, fun _ _ => ⟨rfl, rfl⟩⟩

theorem SameStacks.trans {s' s'' : Scheduler} (hsame : SameStacks s s')
    (hsame' : SameStacks s' s'') : SameStacks s s'' := by
  refine ⟨hsame'.alive.trans hsame.alive, fun i hi => ?_⟩
  obtain ⟨hkernel, huser⟩ := hsame.kept i hi
  obtain ⟨hkernel', huser'⟩ := hsame'.kept i (hsame.alive ▸ hi)
  exact ⟨hkernel'.trans hkernel, huser'.trans huser⟩

/-- A slot in use is stored with its stacks. -/
theorem SameStacks.store_used {i : Fin maxProcesses} {proc : Process} (hi : i ∈ s.alive)
    (hused : proc.state ≠ .unused) (hkernel : proc.kernelStack = (s.processes i).kernelStack)
    (huser : proc.userStack = (s.processes i).userStack) : SameStacks s (s.store i proc) := by
  refine ⟨?_, fun j _ => ?_⟩
  · rw [alive_store_used hused, Finset.insert_eq_of_mem hi]
  · by_cases hji : j = i
    · rw [hji, Scheduler.store_same]
      exact ⟨hkernel, huser⟩
    · rw [Scheduler.store_of_ne hji]
      exact ⟨rfl, rfl⟩

theorem SameStacks.store_unused {i : Fin maxProcesses} {proc : Process} (hi : i ∉ s.alive)
    (hunused : proc.state = .unused) : SameStacks s (s.store i proc) := by
  refine ⟨?_, fun j hj => ?_⟩
  · rw [alive_store_unused hunused, Finset.erase_eq_of_notMem hi]
  · have hji : j ≠ i := fun heq => hi (heq ▸ hj)
    rw [Scheduler.store_of_ne hji]
    exact ⟨rfl, rfl⟩

theorem processYield_sameStacks (hinv : SchedulerInv s) : SameStacks s (processYield s) := by
  unfold processYield
  split
  next hcurrent =>
    obtain ⟨i, hi, -, hslot⟩ := hinv.current_slot hcurrent
    rw [hslot]
    exact .store_used hi (by simp) rfl rfl
  next => exact .refl s

theorem countSlice_sameStacks (hinv : SchedulerInv s) : SameStacks s (countSlice s) := by
  unfold countSlice
  dsimp only
  split
  next hrunning =>
    obtain ⟨i, hi, -, hslot⟩ := hinv.current_slot hrunning.1
    rw [hslot]
    exact .store_used hi (Scheduler.mem_alive.1 hi) rfl rfl
  next => exact .refl s

theorem schedulerTick_sameStacks (hinv : SchedulerInv s) : SameStacks s (schedulerTick s) := by
  unfold schedulerTick
  split
  next => exact .refl s
  next =>
    have hcounted := hinv.countSlice
    have hsame := countSlice_sameStacks hinv
    generalize countSlice s = s₁ at hcounted hsame ⊢
    dsimp only
    split
    next => exact hsame
    next i hfind =>
      split
      next => exact hsame
      next =>
        have hparked := processYield_sameStacks hcounted
        have hnext : slotAt (s₁.currentProcess + 1 + i) ∈ (processYield s₁).alive := by
          have hrunnable := List.find?_some hfind
          rw [hparked.alive, Scheduler.mem_alive]
          intro hunused
          simp [Process.runnable, hunused] at hrunnable
        have hdispatched := @SameStacks.store_used _ _
          { (processYield s₁).processes (slotAt (s₁.currentProcess + 1 + i)) with
            state := .running } hnext (by simp) rfl rfl
        exact (hsame.trans hparked).trans ⟨hdispatched.alive, hdispatched.kept⟩

/-! ## Steps -/

variable {exits : Nat}

theorem stackTables_congr {m' : Machine Pmm} (hcurrent : m'.currentDirectory = m.currentDirectory)
    (hentry : ∀ i, m'.entry m.currentDirectory i = m.entry m.currentDirectory i) :
    stackTables m₀ m' = stackTables m₀ m := by
  rw [stackTables, stackTables, hcurrent, hentry]

theorem StackInv.of_sameStacks {s' : Scheduler} (hinv : StackInv m₀ exits s m)
    (hscheduler : SchedulerInv s') (hsame : SameStacks s s') : StackInv m₀ exits s' m := by
  refine ⟨hscheduler, hinv.current, hinv.tables, ?_, ?_, ?_, hinv.stackTable, ?_⟩
  · intro i hi
    rw [hsame.alive] at hi
    rw [(hsame.kept i hi).1]
    exact hinv.kernelStack i hi
  · intro i hi
    rw [hsame.alive] at hi
    rw [(hsame.kept i hi).2]
    exact hinv.userStack i hi
  · intro i hi j hj
    rw [hsame.alive] at hi hj
    rw [(hsame.kept i hi).1, (hsame.kept j hj).1]
    exact hinv.distinct i hi j hj
  · rw [hsame.alive]
    exact hinv.balance

/-- A step that changes neither the marked pages nor the entries. -/
theorem StackInv.of_machine {m' : Machine Pmm} (hinv : StackInv m₀ exits s m)
    (hcurrent : m'.currentDirectory = m.currentDirectory)
    (hkernel : m'.kernelDirectory = m.kernelDirectory) (hframes : m'.frames = m.frames)
    (htotal : m'.source.totalPages = m.source.totalPages)
    (hmarked : m'.source.marked = m.source.marked) : StackInv m₀ exits s m' := by
  have hentry (addr i : Nat) : m'.entry addr i = m.entry addr i := by
    rw [Machine.entry, Machine.entry, hframes]
  refine ⟨hinv.scheduler, hcurrent.trans hinv.current, ?_, fun i hi => ?_, hinv.userStack,
    hinv.distinct, ?_, ?_⟩
  · have hbooted : m'.source.Booted := by
      rw [Pmm.Booted, Pmm.clear, htotal, hmarked]
      exact hinv.tables.valid
    have hmaps := hinv.tables.maps_of_frames hcurrent hkernel (fun _ _ => by rw [hframes]) hbooted
      fun page htaken => show page ∈ m'.source.marked from hmarked ▸ htaken
    rw [hcurrent]
    exact hmaps.inv
  · obtain ⟨page, hpage, hstack⟩ := hinv.kernelStack i hi
    refine ⟨page, ⟨hpage.notNull, hmarked ▸ hpage.marked, hcurrent ▸ hpage.notDir, ?_⟩, hstack⟩
    rw [hcurrent]
    simpa only [hentry] using hpage.notTable
  · rw [hcurrent, hentry]
    exact hinv.stackTable
  · rw [hmarked, stackTables_congr hcurrent (hentry _)]
    exact hinv.balance

/-- The stack of a new process takes a page, and a table when there is none. -/
theorem stackTables_mapPage {virt : Nat} (hvirt : dirIndex virt = dirIndex 0xBFFFF000)
    (hinv : TableInv pmmLaw m m.currentDirectory)
    (hstackTable : (m₀.entry m₀.currentDirectory (dirIndex 0xBFFFF000)).present = true →
      (m.entry m.currentDirectory (dirIndex 0xBFFFF000)).present = true) (phys flags : Nat) :
    ((m₀.entry m₀.currentDirectory (dirIndex 0xBFFFF000)).present = true →
      ((vmmMapPage pmmSource virt phys flags m).entry m.currentDirectory
        (dirIndex 0xBFFFF000)).present = true) ∧
    (vmmMapPage pmmSource virt phys flags m).source.marked.card + stackTables m₀ m =
      m.source.marked.card + stackTables m₀ (vmmMapPage pmmSource virt phys flags m) := by
  have hcurrent := (hinv.mapPage virt phys flags).1
  rcases vmmMapPage_marked hinv virt phys flags with
    ⟨hmarked, hentries⟩ | ⟨habsent, table, hfresh, hmarked, hentries⟩
  · rw [hentries, hmarked, stackTables_congr hcurrent hentries]
    exact ⟨hstackTable, rfl⟩
  · rw [hvirt] at habsent hentries
    have hnew : stackTables m₀ (vmmMapPage pmmSource virt phys flags m) = 1 := by
      rw [stackTables, hcurrent, hentries, if_pos rfl, if_pos]
      exact ⟨rfl, fun hpresent => by rw [hstackTable hpresent] at habsent; cases habsent⟩
    have hold : stackTables m₀ m = 0 := by
      rw [stackTables, habsent, if_neg]
      exact fun h => Bool.false_ne_true h.1
    rw [hentries, if_pos rfl, hnew, hold, hmarked, Finset.card_insert_of_notMem hfresh]
    exact ⟨fun _ => rfl, rfl⟩

/-- The kernel stack is at the upper end of its page. -/
theorem kernelStack_eq {stack : Nat} (hlt : page < bitmapSize * 8)
    (hpage : (pmmAllocPage pmmSource m).1 = page * pageSize)
    (hstack : stack = ((pmmAllocPage pmmSource m).1 + pageSize) % 2 ^ 32) :
    stack = (page + 1) * pageSize := by
  rw [hstack, hpage]
  simp only [bitmapSize, pageSize] at hlt ⊢
  omega

/-- A new process has a page of its own for the kernel stack. -/
theorem StackInv.created (hinv : StackInv m₀ exits s m) {slot : Fin maxProcesses} {proc : Process}
    (hslot : slot ∉ s.alive) (hproc : proc.state = .ready)
    (hscheduler : SchedulerInv { s.store slot proc with processCount := s.processCount + 1 })
    (hkernel : proc.kernelStack = ((pmmAllocPage pmmSource m).1 + pageSize) % 2 ^ 32)
    (huser : proc.userStack = 0xBFFFF000 - slot * pageSize)
    (hkstack : (pmmAllocPage pmmSource m).1 ≠ 0)
    (hustack : (pmmAllocPage pmmSource (pmmAllocPage pmmSource m).2).1 ≠ 0) :
    StackInv m₀ exits { s.store slot proc with processCount := s.processCount + 1 }
      (vmmMapPage pmmSource proc.userStack (pmmAllocPage pmmSource (pmmAllocPage pmmSource m).2).1
        0x7 (pmmAllocPage pmmSource (pmmAllocPage pmmSource m).2).2) := by
  have hinv₁ := hinv.tables.alloc
  have hinv₂ := hinv₁.alloc
  obtain ⟨page, hfresh, hlt, hpage, hmarked, hprivate⟩ := pmmAllocPage_grants hinv.tables hkstack
  obtain ⟨upage, hfresh', -, -, hmarked', -⟩ := pmmAllocPage_grants hinv₁ hustack
  have hcard : (pmmAllocPage pmmSource (pmmAllocPage pmmSource m).2).2.source.marked.card =
      m.source.marked.card + 2 := by
    rw [hmarked', Finset.card_insert_of_notMem hfresh', hmarked,
      Finset.card_insert_of_notMem hfresh]
  have hstack := kernelStack_eq hlt hpage hkernel
  have hdir : dirIndex proc.userStack = dirIndex 0xBFFFF000 := by
    obtain ⟨hlow, hhigh⟩ := userStack_bounds huser
    rw [dirIndex_eq, dirIndex_eq]
    simp only [pageSize]
    omega
  have hcurrent := (hinv₂.mapPage proc.userStack
    (pmmAllocPage pmmSource (pmmAllocPage pmmSource m).2).1 0x7).1
  obtain ⟨hstackTable, hbalance⟩ := stackTables_mapPage hdir hinv₂ hinv.stackTable
    (pmmAllocPage pmmSource (pmmAllocPage pmmSource m).2).1 0x7
  have halive : (s.store slot proc).alive = insert slot s.alive :=
    alive_store_used (by rw [hproc]; decide)
  -- the page is fresh, so no other process has it
  have hnew (i : Fin maxProcesses) (hi : i ∈ s.alive) :
      (s.processes i).kernelStack ≠ proc.kernelStack := by
    obtain ⟨page', hprivate', hstack'⟩ := hinv.kernelStack i hi
    rw [hstack, hstack']
    intro heq
    have hsame := Nat.succ.inj (Nat.eq_of_mul_eq_mul_right (by decide) heq)
    exact hfresh (hsame ▸ hprivate'.marked)
  refine ⟨hscheduler, hcurrent.trans hinv.current, ?_,
    @Scheduler.forall_alive_store s slot proc
      (fun _ q => ∃ page, PrivatePage _ page ∧ q.kernelStack = (page + 1) * pageSize)
      (fun i hi => ?_) fun _ => ?_,
    @Scheduler.forall_alive_store s slot proc
      (fun i q => q.userStack = 0xBFFFF000 - i * pageSize) hinv.userStack fun _ => huser,
    Scheduler.distinct_store hinv.distinct hnew, ?_, ?_⟩
  · rw [hcurrent]
    exact (hinv₂.mapPage _ _ _).2
  · obtain ⟨page', hprivate', hstack'⟩ := hinv.kernelStack i hi
    exact ⟨page', hprivate'.alloc.alloc.mapPage hinv₂ _ _ _, hstack'⟩
  · exact ⟨page, hprivate.alloc.mapPage hinv₂ _ _ _, hstack⟩
  · rw [hcurrent]
    exact hstackTable
  · have hbefore := hinv.balance
    have hsame : stackTables m₀ (pmmAllocPage pmmSource (pmmAllocPage pmmSource m).2).2 =
        stackTables m₀ m := rfl
    change _ = _ + 2 * (s.store slot proc).alive.card + _ + _
    rw [halive, Finset.card_insert_of_notMem hslot]
    omega

theorem StackInv.create (hinv : StackInv m₀ exits s m) (name : CString) (entry : Nat) :
    StackInv m₀ exits (processCreate pmmSource name entry s m).1
      (processCreate pmmSource name entry s m).2 := by
  have hscheduler : SchedulerInv (processCreate pmmSource name entry s m).1 :=
    hinv.scheduler.processCreate name entry
  have hcreates := processCreate_creates pmmSource name entry s m
  generalize (processCreate pmmSource name entry s m).1 = s' at hcreates hscheduler ⊢
  generalize (processCreate pmmSource name entry s m).2 = m' at hcreates ⊢
  cases hcreates with
  | refused => exact hinv
  | noKernelStack slot proc hslot hproc hkstack =>
      have hsource := pmmAllocPage_refuses hinv.tables hkstack
      have hsame : SameStacks s _ := .store_unused (Scheduler.notMem_alive hslot) hproc
      refine (hinv.of_sameStacks hscheduler hsame).of_machine rfl rfl rfl ?_ ?_
      · rw [hsource]
      · rw [hsource]
  | noUserStack slot proc hslot hproc hkstack hustack =>
      have hsame : SameStacks s _ := .store_unused (Scheduler.notMem_alive hslot) hproc
      exact (hinv.of_sameStacks hscheduler hsame).of_machine rfl rfl rfl
        (noUserStack_totalPages m) (noUserStack_marked hinv.tables.valid hkstack hustack)
  | created slot proc hslot hproc hpid hkernel huser hkstack hustack =>
      exact hinv.created (Scheduler.notMem_alive hslot) hproc hscheduler hkernel huser hkstack
        hustack

theorem StackInv.exit (hinv : StackInv m₀ exits s m) (code : Int) :
    StackInv m₀ (if 0 ≤ s.currentProcess then exits + 1 else exits)
      (processExit pmmSource code s m).1 (processExit pmmSource code s m).2 := by
  have hscheduler : SchedulerInv (processExit pmmSource code s m).1 :=
    hinv.scheduler.processExit code
  rcases processExit_scheduler pmmSource code s m with ⟨hnone, heq⟩ | ⟨hcurrent, proc, hproc, heq⟩
  · rw [heq, if_neg (Int.not_le.2 hnone)]
    exact hinv
  rw [if_pos hcurrent]
  obtain ⟨i, hi, hindex, hslot⟩ := hinv.scheduler.current_slot hcurrent
  obtain ⟨page, hprivate, hstack⟩ := hinv.kernelStack i hi
  have hback := processExit_givesBack hinv.tables code hindex hprivate hstack
    (hinv.userStack i hi)
  rw [hslot] at heq
  rw [heq] at hscheduler ⊢
  -- From here on the machine is known only by what the exit gave back.
  generalize (processExit pmmSource code s m).2 = m' at hback ⊢
  -- The processes left are those of before less the one that ran, each as it was.
  have halive : (s.store i proc).alive = s.alive.erase i := alive_store_unused hproc
  have hother {j : Fin maxProcesses} (hj : j ∈ (s.store i proc).alive) : j ∈ s.alive ∧ j ≠ i := by
    rw [halive] at hj
    exact ⟨Finset.mem_of_mem_erase hj, Finset.ne_of_mem_erase hj⟩
  have hprocess {j : Fin maxProcesses} (hj : j ∈ (s.store i proc).alive) :
      (s.store i proc).processes j = s.processes j := Scheduler.store_of_ne (hother hj).2
  refine ⟨hscheduler, hback.current.trans hinv.current, ?_, fun j hj => ?_, fun j hj => ?_,
    fun j hj k hk hsame => ?_, ?_, ?_⟩
  · rw [hback.current]
    exact hback.inv hinv.tables hprivate
  · change ∃ page, _ ∧ ((s.store i proc).processes j).kernelStack = _
    rw [hprocess hj]
    obtain ⟨page', hprivate', hstack'⟩ := hinv.kernelStack j (hother hj).1
    refine ⟨page', hback.privatePage hprivate' ?_, hstack'⟩
    rintro rfl
    exact (hother hj).2 (hinv.distinct j (hother hj).1 i hi (hstack'.trans hstack.symm))
  · change ((s.store i proc).processes j).userStack = _
    rw [hprocess hj]
    exact hinv.userStack j (hother hj).1
  · change ((s.store i proc).processes j).kernelStack =
      ((s.store i proc).processes k).kernelStack at hsame
    rw [hprocess hj, hprocess hk] at hsame
    exact hinv.distinct j (hother hj).1 k (hother hk).1 hsame
  · rw [hback.current, hback.entries]
    exact hinv.stackTable
  · have hbefore := hinv.balance
    have hpos := Finset.card_pos.2 ⟨i, hi⟩
    have hpos' := Finset.card_pos.2 ⟨page, hprivate.marked⟩
    change _ = _ + 2 * (s.store i proc).alive.card + _ + _
    rw [halive, Finset.card_erase_of_mem hi, hback.marked,
      Finset.card_erase_of_mem hprivate.marked, stackTables_congr hback.current hback.entries]
    omega

/-! ## Runs -/

/-- One for a call of `process_exit` while a process is current. -/
def ProcessOp.leaves (s : Scheduler) : ProcessOp → Nat
  | .exit _ => if 0 ≤ s.currentProcess then 1 else 0
  | _ => 0

/-- The number of processes that leave in a run. -/
def exitsIn {σ : Type} (src : PageSource σ) : List ProcessOp → Scheduler × Machine σ → Nat
  | [], _ => 0
  | op :: ops, k => op.leaves k.1 + exitsIn src ops (stepProcess src k.1 k.2 op)

theorem StackInv.step (hinv : StackInv m₀ exits s m) (op : ProcessOp) :
    StackInv m₀ (exits + op.leaves s) (stepProcess pmmSource s m op).1
      (stepProcess pmmSource s m op).2 := by
  cases op with
  | create name entry => exact hinv.create name entry
  | exit code =>
      have hexit := hinv.exit code
      have hcount : (if 0 ≤ s.currentProcess then exits + 1 else exits) =
          exits + ProcessOp.leaves s (.exit code) := by
        rw [ProcessOp.leaves]
        split <;> rfl
      rw [hcount] at hexit
      exact hexit
  | yield =>
      have hsame := processYield_sameStacks hinv.scheduler
      exact hinv.of_sameStacks hinv.scheduler.processYield.1 hsame
  | tick =>
      have hsame := schedulerTick_sameStacks hinv.scheduler
      exact hinv.of_sameStacks hinv.scheduler.schedulerTick hsame

theorem StackInv.run (ops : List ProcessOp) (hinv : StackInv m₀ exits s m) :
    StackInv m₀ (exits + exitsIn pmmSource ops (s, m)) (runProcesses pmmSource ops (s, m)).1
      (runProcesses pmmSource ops (s, m)).2 := by
  induction ops generalizing s m exits with
  | nil => exact hinv
  | cons op ops ih =>
      have hstep := ih (hinv.step op)
      rw [Nat.add_assoc] at hstep
      exact hstep

/-- Without processes nothing has been taken yet. -/
theorem stackInv_start (hscheduler : SchedulerInv s) (hnone : s.alive = ∅)
    (hinv : TableInv pmmLaw m m.currentDirectory) : StackInv m 0 s m := by
  have habsent {i : Fin maxProcesses} (hi : i ∈ s.alive) : False := by
    rw [hnone] at hi
    exact Finset.notMem_empty i hi
  refine ⟨hscheduler, rfl, hinv, fun i hi => (habsent hi).elim, fun i hi => (habsent hi).elim,
    fun i hi => (habsent hi).elim, fun hpresent => hpresent, ?_⟩
  rw [hnone, stackTables, if_neg fun h => h.2 h.1]
  rfl

theorem stepSystem_scheduler {op : SystemOp} {sys sys' : System} {r : Nat}
    (hstep : stepSystem op sys = some (r, sys')) (hinv : SchedulerInv sys.scheduler) :
    SchedulerInv sys'.scheduler := by
  cases op with
  | kmalloc size =>
      obtain ⟨⟨r', h⟩, -, heq⟩ := Option.map_eq_some_iff.1 hstep
      obtain ⟨-, rfl⟩ := Prod.mk.inj heq
      exact hinv
  | kmallocAligned size =>
      obtain ⟨⟨r', h⟩, -, heq⟩ := Option.map_eq_some_iff.1 hstep
      obtain ⟨-, rfl⟩ := Prod.mk.inj heq
      exact hinv
  | krealloc ptr size =>
      obtain ⟨⟨r', h⟩, -, heq⟩ := Option.map_eq_some_iff.1 hstep
      obtain ⟨-, rfl⟩ := Prod.mk.inj heq
      exact hinv
  | kfree ptr =>
      obtain ⟨-, rfl⟩ := Prod.mk.inj (Option.some.inj hstep)
      exact hinv
  | processCreate name entry =>
      obtain ⟨-, rfl⟩ := Prod.mk.inj (Option.some.inj hstep)
      exact @SchedulerInv.processCreate _ _ pmmSource sys.heap.pages hinv name entry

/-- The kernel after boot and any calls, while no process is alive. -/
theorem stackInv_boot {kernelEnd totalMemory : Nat} {frames : Nat → Nat → PageEntry}
    {mem : Memory} {s₀ s₁ : System} {calls : List SystemOp} {rs : List Nat}
    (hkernel : 2 ^ 20 ≤ kernelEnd ∧ kernelEnd ≤ 2 ^ 28) (htotal : totalMemory ≤ 0x1000000)
    (hboot : bootSystem kernelEnd totalMemory frames mem = some s₀)
    (hrun : runAll stepSystem calls s₀ = some (rs, s₁)) (hnone : s₁.scheduler.alive = ∅) :
    StackInv s₁.heap.pages 0 s₁.scheduler s₁.heap.pages := by
  have hinv := runSystem_inv hkernel htotal hboot hrun
  have hgood : ∀ r ∈ rs, (fun _ => True) r := fun _ _ => trivial
  have hscheduler : SchedulerInv s₀.scheduler := by
    obtain ⟨m, -, rfl⟩ := Option.map_eq_some_iff.1 hboot
    exact schedulerInit_inv
  refine stackInv_start ?_ hnone hinv.space.inv
  exact runAll_preserves (fun _ s => SchedulerInv s.scheduler)
    (fun _ _ _ _ _ hs hstep _ => stepSystem_scheduler hstep hs) hrun hgood hscheduler

/-- The pages marked used are those before the run, two for each process alive and
the new table of the user stacks, if and only if no process has left. -/
theorem process_pages_balance_iff {kernelEnd totalMemory : Nat} {frames : Nat → Nat → PageEntry}
    {mem : Memory} {s₀ s₁ : System} {calls : List SystemOp} {rs : List Nat}
    (hkernel : 2 ^ 20 ≤ kernelEnd ∧ kernelEnd ≤ 2 ^ 28) (htotal : totalMemory ≤ 0x1000000)
    (hboot : bootSystem kernelEnd totalMemory frames mem = some s₀)
    (hrun : runAll stepSystem calls s₀ = some (rs, s₁)) (hnone : s₁.scheduler.alive = ∅)
    (ops : List ProcessOp) :
    (runProcesses pmmSource ops (s₁.scheduler, s₁.heap.pages)).2.source.marked.card =
        s₁.heap.pages.source.marked.card +
          2 * (runProcesses pmmSource ops (s₁.scheduler, s₁.heap.pages)).1.alive.card +
          stackTables s₁.heap.pages
            (runProcesses pmmSource ops (s₁.scheduler, s₁.heap.pages)).2 ↔
      exitsIn pmmSource ops (s₁.scheduler, s₁.heap.pages) = 0 := by
  rw [((stackInv_boot hkernel htotal hboot hrun hnone).run ops).balance]
  omega

theorem process_pages_balance_iff_boot :
    ∃ s₀, bootSystem 0x180000 0x1000000 (fun _ _ => .zero) (fun _ => 0) = some s₀ ∧
      ((runProcesses pmmSource [.create (CString.ofBuffer []) 0x100000, .tick]
          (s₀.scheduler, s₀.heap.pages)).2.source.marked.card =
        s₀.heap.pages.source.marked.card +
          2 * (runProcesses pmmSource [.create (CString.ofBuffer []) 0x100000, .tick]
            (s₀.scheduler, s₀.heap.pages)).1.alive.card +
          stackTables s₀.heap.pages
            (runProcesses pmmSource [.create (CString.ofBuffer []) 0x100000, .tick]
              (s₀.scheduler, s₀.heap.pages)).2) := by
  obtain ⟨s₀, hboot, -⟩ := boot_heap
  have hnone : s₀.scheduler.alive = ∅ := by
    obtain ⟨m, -, rfl⟩ := Option.map_eq_some_iff.1 hboot
    simp [Scheduler.alive, schedulerInit]
  refine ⟨s₀, hboot, ?_⟩
  have hrun : runAll stepSystem [] s₀ = some ([], s₀) := rfl
  rw [process_pages_balance_iff ⟨by decide, by decide⟩ (by decide) hboot hrun hnone]
  rfl

/-! ## A leak -/

/-- Every process alive can be given the processor. -/
def Scheduler.AllRunnable (s : Scheduler) : Prop := ∀ i ∈ s.alive, (s.processes i).runnable = true

theorem Scheduler.AllRunnable.store {i : Fin maxProcesses} {proc : Process}
    (hall : s.AllRunnable) (hproc : proc.state ≠ .unused → proc.runnable = true) :
    (s.store i proc).AllRunnable :=
  @Scheduler.forall_alive_store s i proc (fun _ q => q.runnable = true) hall hproc

/-- Some processes, all of them runnable. -/
structure Crowd (count : Nat) (s : Scheduler) : Prop where
  scheduler : SchedulerInv s
  runnable : s.AllRunnable
  alive : s.alive.card = count

theorem card_clear_mapPage (virt phys flags : Nat) (m : Machine Pmm) :
    m.source.clear.card ≤ (vmmMapPage pmmSource virt phys flags m).source.clear.card + 1 := by
  rw [vmmMapPage_source]
  rcases getPageTable_source pmmSource m.currentDirectory (dirIndex virt) true m with heq | heq
  · rw [heq]
    exact Nat.le_succ _
  · rw [heq, card_clear_alloc]
    exact Nat.le_add_of_sub_le (Nat.le_refl _)

/-- With two pages and a slot, the first free slot is taken. -/
theorem Crowd.processCreate_accepts {count : Nat} (hcrowd : Crowd count s)
    (hroom : count < maxProcesses) (hinv : TableInv pmmLaw m m.currentDirectory)
    (hclear : 2 ≤ m.source.clear.card) (name : CString) (entry : Nat) :
    ∃ (slot : Fin maxProcesses) (proc : Process), slot ∉ s.alive ∧ (∀ i < slot, i ∈ s.alive) ∧
      proc.state = .ready ∧ proc.pid = slot + 1 ∧ processCreate pmmSource name entry s m =
        ({ s.store slot proc with processCount := s.processCount + 1 },
          vmmMapPage pmmSource proc.userStack
            (pmmAllocPage pmmSource (pmmAllocPage pmmSource m).2).1 0x7
            (pmmAllocPage pmmSource (pmmAllocPage pmmSource m).2).2) := by
  have hfirst := card_clear_alloc m.source
  have hleft : 1 ≤ (pmmAllocPage pmmSource m).2.source.clear.card := by
    change 1 ≤ (pmmSource.alloc m.source).2.clear.card
    omega
  have hkstack := alloc_of_clear hinv.valid (Nat.le_of_succ_le hclear)
  have hustack := alloc_of_clear hinv.alloc.valid hleft
  have hcount : ¬ maxProcesses ≤ s.processCount := by
    rw [hcrowd.scheduler.count, hcrowd.alive]
    omega
  obtain ⟨free, hfree⟩ : ∃ i, i ∉ s.alive := by
    by_contra hfull
    have hall : s.alive = Finset.univ := Finset.eq_univ_iff_forall.2 (not_exists_not.1 hfull)
    rw [← hcrowd.alive, hall, Finset.card_univ, Fintype.card_fin] at hroom
    exact absurd hroom (Nat.lt_irrefl _)
  rw [Scheduler.mem_alive, not_not] at hfree
  unfold processCreate
  rw [if_neg hcount]
  split
  next hfind =>
    have hused := List.find?_eq_none.1 hfind free (List.mem_finRange free)
    exact absurd hfree (by simpa using hused)
  next slot hfind =>
    have hslot : (s.processes slot).state = .unused := by simpa using List.find?_some hfind
    dsimp only
    rw [if_neg hkstack, if_neg hustack]
    refine ⟨slot, _, Scheduler.notMem_alive hslot, fun i hi => ?_, rfl, rfl, rfl⟩
    obtain ⟨-, index, hindex, hget, hbefore⟩ := List.find?_eq_some_iff_getElem.1 hfind
    have hslotIndex : index = slot := by
      rw [← hget, List.getElem_finRange]
      rfl
    have hused := hbefore i (hslotIndex ▸ hi)
    rw [Scheduler.mem_alive]
    simpa [List.getElem_finRange] using hused

theorem Crowd.create {count : Nat} (hcrowd : Crowd count s) (hroom : count < maxProcesses)
    (hinv : TableInv pmmLaw m m.currentDirectory) (hclear : 2 ≤ m.source.clear.card)
    (name : CString) (entry : Nat) :
    Crowd (count + 1) (processCreate pmmSource name entry s m).1 ∧
      TableInv pmmLaw (processCreate pmmSource name entry s m).2
        (processCreate pmmSource name entry s m).2.currentDirectory ∧
      m.source.clear.card ≤ (processCreate pmmSource name entry s m).2.source.clear.card + 3 := by
  have hscheduler : SchedulerInv (processCreate pmmSource name entry s m).1 :=
    hcrowd.scheduler.processCreate name entry
  obtain ⟨slot, proc, hslot, -, hproc, -, heq⟩ :=
    hcrowd.processCreate_accepts hroom hinv hclear name entry
  rw [heq] at hscheduler ⊢
  have halive : (s.store slot proc).alive = insert slot s.alive :=
    alive_store_used (by rw [hproc]; decide)
  refine ⟨⟨hscheduler, ?_, ?_⟩, ?_, ?_⟩
  · exact hcrowd.runnable.store fun _ => by simp [Process.runnable, hproc]
  · change (s.store slot proc).alive.card = count + 1
    rw [halive, Finset.card_insert_of_notMem hslot, hcrowd.alive]
  · obtain ⟨hcurrent, hmapped⟩ := hinv.alloc.alloc.mapPage proc.userStack
      (pmmAllocPage pmmSource (pmmAllocPage pmmSource m).2).1 0x7
    rw [hcurrent]
    exact hmapped
  · have hfirst := card_clear_alloc m.source
    have hsecond := card_clear_alloc (pmmSource.alloc m.source).2
    have hthird := card_clear_mapPage proc.userStack
      (pmmAllocPage pmmSource (pmmAllocPage pmmSource m).2).1 0x7
      (pmmAllocPage pmmSource (pmmAllocPage pmmSource m).2).2
    change (pmmSource.alloc (pmmSource.alloc m.source).2).2.clear.card ≤ _ at hthird
    dsimp only
    omega

theorem Scheduler.AllRunnable.processYield (hall : s.AllRunnable) :
    (processYield s).AllRunnable := by
  unfold Dosfs.processYield
  split
  next => exact hall.store fun _ => by simp [Process.runnable]
  next => exact hall

theorem Scheduler.AllRunnable.countSlice (hinv : SchedulerInv s) (hall : s.AllRunnable) :
    (countSlice s).AllRunnable := by
  unfold Dosfs.countSlice
  dsimp only
  split
  next hrunning =>
    obtain ⟨i, hi, -, hslot⟩ := hinv.current_slot hrunning.1
    rw [hslot]
    exact hall.store fun _ => hall i hi
  next => exact hall

/-- The slots that the timer looks at are all slots. -/
theorem exists_slotAt (current : Int) (i : Fin maxProcesses) :
    ∃ offset ∈ List.range maxProcesses, slotAt (current + 1 + offset) = i := by
  have hlt := i.isLt
  refine ⟨((i - (current + 1)) % maxProcesses).toNat, ?_, Fin.ext ?_⟩
  · simp only [maxProcesses, List.mem_range]
    omega
  · simp only [slotAt, maxProcesses] at hlt ⊢
    omega

theorem countSlice_currentProcess (s : Scheduler) :
    (countSlice s).currentProcess = s.currentProcess := by
  unfold countSlice
  dsimp only
  split <;> rfl

theorem Scheduler.AllRunnable.schedulerTick (hinv : SchedulerInv s) (hall : s.AllRunnable) :
    (schedulerTick s).AllRunnable := by
  have hcounted := hall.countSlice hinv
  unfold Dosfs.schedulerTick
  split
  next => exact hall
  next =>
    generalize Dosfs.countSlice s = s₁ at hcounted ⊢
    dsimp only
    split
    next => exact hcounted
    next =>
      split
      next => exact hcounted
      next => exact hcounted.processYield.store fun _ => by simp [Process.runnable]

/-- Storing a slot keeps what the new entry has in common with the old one. -/
theorem Scheduler.store_field {β : Type} {f : Process → β} {i : Fin maxProcesses} {proc : Process}
    (hproc : f proc = f (s.processes i)) (j : Fin maxProcesses) :
    f ((s.store i proc).processes j) = f (s.processes j) := by
  by_cases hj : j = i
  · rw [hj, Scheduler.store_same, hproc]
  · rw [Scheduler.store_of_ne hj]

section

variable {β : Type} {f : Process → β}

theorem countSlice_field (hf : ∀ proc slices, f { proc with timeSlices := slices } = f proc)
    (s : Scheduler) (i : Fin maxProcesses) :
    f ((countSlice s).processes i) = f (s.processes i) := by
  unfold countSlice
  dsimp only
  split
  next => exact Scheduler.store_field (hf _ _) i
  next => rfl

variable (hf : ∀ proc state, f { proc with state := state } = f proc)
include hf

theorem processYield_field (s : Scheduler) (i : Fin maxProcesses) :
    f ((processYield s).processes i) = f (s.processes i) := by
  unfold processYield
  split
  next => exact Scheduler.store_field (hf _ _) i
  next => rfl

/-- A tick changes a process in its state only, once the slice is counted. -/
theorem schedulerTick_field (hcount : s.processCount ≠ 0) (i : Fin maxProcesses) :
    f ((schedulerTick s).processes i) = f ((countSlice s).processes i) := by
  unfold schedulerTick
  rw [if_neg hcount]
  generalize countSlice s = s₁
  dsimp only
  split
  next => rfl
  next next hfind =>
    split
    next => rfl
    next =>
      rw [← processYield_field hf s₁ i]
      exact Scheduler.store_field (hf _ _) i

end

/-- While a process is alive, a tick gives the turn to the first one behind the
current one. If that is the current one itself, only its time slice counts. -/
theorem schedulerTick_turn (hinv : SchedulerInv s) (hall : s.AllRunnable)
    (hsome : s.alive.Nonempty) :
    ∃ offset < maxProcesses, ∃ next ∈ s.alive,
      slotAt (s.currentProcess + 1 + offset) = next ∧
      (∀ i < offset, slotAt (s.currentProcess + 1 + i) ∉ s.alive) ∧
      (schedulerTick s).currentProcess = next ∧
      (s.currentProcess = next ∧ schedulerTick s = countSlice s ∨
        s.currentProcess ≠ next ∧ ((schedulerTick s).processes next).state = .running) := by
  have hcount : s.processCount ≠ 0 := by
    have hpos := Finset.card_pos.2 hsome
    rw [hinv.count]
    omega
  have hcounted := hall.countSlice hinv
  have halive := (countSlice_sameStacks hinv).alive
  have hrunnable {i : Fin maxProcesses} :
      ((countSlice s).processes i).runnable = true ↔ i ∈ s.alive := by
    rw [← halive]
    refine ⟨fun hi => ?_, hcounted i⟩
    rw [Scheduler.mem_alive]
    intro hunused
    simp [Process.runnable, hunused] at hi
  have hcurrent := countSlice_currentProcess s
  unfold schedulerTick
  rw [if_neg hcount]
  generalize countSlice s = s₁ at hrunnable hcurrent ⊢
  dsimp only
  rw [hcurrent]
  split
  next hfind =>
    -- the search goes through all slots, so it does not miss one in use
    obtain ⟨i, hi⟩ := hsome
    obtain ⟨offset, hoffset, hslot⟩ := exists_slotAt s.currentProcess i
    have hstuck := List.find?_eq_none.1 hfind offset (by simpa using hoffset)
    rw [hslot] at hstuck
    exact absurd (hrunnable.2 hi) hstuck
  next offset hfind =>
    change ((List.range maxProcesses).flatMap fun i : Nat => [(i : Int)]).find? _ = _ at hfind
    rw [← List.map_eq_flatMap, List.find?_map] at hfind
    obtain ⟨index, hfirst, rfl⟩ := Option.map_eq_some_iff.1 hfind
    obtain ⟨hturn, hindex, hbefore⟩ := List.find?_range_eq_some.1 hfirst
    refine ⟨index, List.mem_range.1 hindex, _, hrunnable.1 hturn, rfl, fun i hi hmem => ?_, ?_⟩
    · have hskipped := hbefore i hi
      rw [Function.comp_apply, hrunnable.2 hmem] at hskipped
      cases hskipped
    · split
      next hsame => exact ⟨hcurrent.trans hsame.symm, Or.inl ⟨hsame.symm, rfl⟩⟩
      next hother =>
        refine ⟨rfl, Or.inr ⟨fun h => hother h.symm, ?_⟩⟩
        change ((Scheduler.store _ _ _).processes _).state = _
        rw [Scheduler.store_same]

theorem Crowd.nonempty {count : Nat} (hcrowd : Crowd (count + 1) s) : s.alive.Nonempty := by
  rw [← Finset.card_pos, hcrowd.alive]
  exact Nat.succ_pos count

/-- The timer makes a process current. -/
theorem Crowd.tick {count : Nat} (hcrowd : Crowd (count + 1) s) :
    Crowd (count + 1) (schedulerTick s) ∧ 0 ≤ (schedulerTick s).currentProcess := by
  obtain ⟨-, -, next, -, -, -, hcurrent, -⟩ :=
    schedulerTick_turn hcrowd.scheduler hcrowd.runnable hcrowd.nonempty
  refine ⟨⟨hcrowd.scheduler.schedulerTick, hcrowd.runnable.schedulerTick hcrowd.scheduler, ?_⟩, ?_⟩
  · rw [(schedulerTick_sameStacks hcrowd.scheduler).alive, hcrowd.alive]
  · rw [hcurrent]
    exact Int.natCast_nonneg _

theorem Crowd.exit {count : Nat} (hcrowd : Crowd (count + 1) s) (hcurrent : 0 ≤ s.currentProcess)
    (code : Int) (m : Machine Pmm) : Crowd count (processExit pmmSource code s m).1 := by
  have hscheduler : SchedulerInv (processExit pmmSource code s m).1 :=
    hcrowd.scheduler.processExit code
  obtain ⟨i, hi, -, hslot⟩ := hcrowd.scheduler.current_slot hcurrent
  rcases processExit_scheduler pmmSource code s m with ⟨hnone, -⟩ | ⟨-, proc, hproc, heq⟩
  · exact absurd hcurrent (Int.not_le.2 hnone)
  · rw [hslot] at heq
    rw [heq] at hscheduler ⊢
    refine ⟨hscheduler, hcrowd.runnable.store fun hused => absurd hproc hused, ?_⟩
    change (s.store i proc).alive.card = count
    rw [alive_store_unused hproc, Finset.card_erase_of_mem hi, hcrowd.alive]
    rfl

/-- After a tick the current process leaves. -/
theorem Crowd.tick_exit {count : Nat} (hcrowd : Crowd (count + 1) s) (m : Machine Pmm) :
    ∃ s' m', Crowd count s' ∧ ∀ ops,
      runProcesses pmmSource (.tick :: .exit 0 :: ops) (s, m) =
        runProcesses pmmSource ops (s', m') ∧
      exitsIn pmmSource (.tick :: .exit 0 :: ops) (s, m) = 1 + exitsIn pmmSource ops (s', m') := by
  obtain ⟨hticked, hcurrent⟩ := hcrowd.tick
  refine ⟨_, _, hticked.exit hcurrent 0 m, fun ops => ⟨rfl, ?_⟩⟩
  have hleaves : ProcessOp.leaves (schedulerTick s) (.exit 0) = 1 := if_pos hcurrent
  change 0 + (ProcessOp.leaves (schedulerTick s) (.exit 0) + _) = _
  rw [hleaves, Nat.zero_add]
  rfl

theorem Crowd.create_next {count : Nat} (hcrowd : Crowd count s) (hroom : count < maxProcesses)
    (hinv : TableInv pmmLaw m m.currentDirectory) (hclear : 2 ≤ m.source.clear.card)
    (name : CString) (entry : Nat) :
    ∃ s' m', Crowd (count + 1) s' ∧ TableInv pmmLaw m' m'.currentDirectory ∧
      m.source.clear.card ≤ m'.source.clear.card + 3 ∧ ∀ ops,
        runProcesses pmmSource (.create name entry :: ops) (s, m) =
          runProcesses pmmSource ops (s', m') ∧
        exitsIn pmmSource (.create name entry :: ops) (s, m) = exitsIn pmmSource ops (s', m') := by
  obtain ⟨hcreated, htables, hleft⟩ := hcrowd.create hroom hinv hclear name entry
  exact ⟨_, _, hcreated, htables, hleft, fun _ => ⟨rfl, Nat.zero_add _⟩⟩

theorem schedulerInit_alive : schedulerInit.alive = ∅ := by
  simp [Scheduler.alive, schedulerInit]

theorem schedulerInit_crowd : Crowd 0 schedulerInit where
  scheduler := schedulerInit_inv
  runnable i hi := absurd rfl (Scheduler.mem_alive.1 hi)
  alive := by
    rw [schedulerInit_alive]
    rfl

/-- The first process goes into slot 0. -/
theorem processCreate_first {first : Fin maxProcesses} (hfirst : first.val = 0)
    (hinv : TableInv pmmLaw m m.currentDirectory) (hclear : 2 ≤ m.source.clear.card)
    (name : CString) (entry : Nat) :
    ∃ proc : Process, proc.state = .ready ∧ proc.pid = 1 ∧
      (processCreate pmmSource name entry schedulerInit m).1 =
        { schedulerInit.store first proc with processCount := 1 } := by
  obtain ⟨slot, proc, -, hbefore, hready, hpid, heq⟩ :=
    schedulerInit_crowd.processCreate_accepts (by decide) hinv hclear name entry
  have hslot : slot = first := by
    by_contra hne
    have hpos : slot.val ≠ 0 := fun h => hne (Fin.ext (h.trans hfirst.symm))
    have hmem := hbefore first (show first.val < slot.val by omega)
    rw [schedulerInit_alive] at hmem
    exact Finset.notMem_empty _ hmem
  subst hslot
  refine ⟨proc, hready, ?_, by rw [heq]; rfl⟩
  rw [hpid, hfirst]
  rfl

/-- After boot with 16 MB there is room for a process. -/
theorem boot_process : ∃ s₀ s m, ∃ first : Fin maxProcesses,
    bootSystem 0x180000 0x1000000 (fun _ _ => .zero) (fun _ => 0) = some s₀ ∧
      first.val = 0 ∧ s.alive = {first} ∧ Crowd 1 s ∧ s.currentProcess = -1 ∧ ∀ ops,
        runProcesses pmmSource (.create (CString.ofBuffer []) 0x100000 :: ops)
          (schedulerInit, s₀.heap.pages) = runProcesses pmmSource ops (s, m) := by
  obtain ⟨s₀, hboot, -, hclear, -⟩ := boot_heap
  have hinv := (bootSystem_inv ⟨by decide, by decide⟩ (by decide) hboot).space.inv
  have hpages : 2 ≤ s₀.heap.pages.source.clear.card := by
    rw [hclear, Nat.card_Ico]
    decide
  obtain ⟨proc, hready, -, heq⟩ := @processCreate_first s₀.heap.pages ⟨0, by decide⟩ rfl hinv hpages
    (CString.ofBuffer []) 0x100000
  have hcrowd := (schedulerInit_crowd.create (by decide) hinv hpages (CString.ofBuffer [])
    0x100000).1
  refine ⟨s₀, _, _, ⟨0, by decide⟩, hboot, rfl, ?_, hcrowd, ?_, fun _ => rfl⟩
  · rw [heq]
    change (schedulerInit.store _ proc).alive = _
    rw [alive_store_used (by rw [hready]; decide), schedulerInit_alive]
    rfl
  · rw [heq]
    rfl

/-- Three processes are created and two of them leave. Then more pages are marked
than the process that is left and a table account for. -/
theorem exits_leak_pages :
    ∃ s₀, bootSystem 0x180000 0x1000000 (fun _ _ => .zero) (fun _ => 0) = some s₀ ∧
      ∃ k, k = runProcesses pmmSource
          [.create (CString.ofBuffer []) 0x100000, .create (CString.ofBuffer []) 0x100000,
            .create (CString.ofBuffer []) 0x100000, .tick, .exit 0, .tick, .exit 0]
          (s₀.scheduler, s₀.heap.pages) ∧
        k.1.alive.card = 1 ∧
        s₀.heap.pages.source.marked.card + 2 * k.1.alive.card + 1 < k.2.source.marked.card := by
  obtain ⟨s₀, hboot, -, hclear, -⟩ := boot_heap
  have hinit : s₀.scheduler = schedulerInit := by
    obtain ⟨m, -, rfl⟩ := Option.map_eq_some_iff.1 hboot
    rfl
  have hcrowd : Crowd 0 s₀.scheduler := hinit ▸ schedulerInit_crowd
  have hnone : s₀.scheduler.alive = ∅ := hinit ▸ schedulerInit_alive
  have hinv := stackInv_boot ⟨by decide, by decide⟩ (by decide) hboot
    (show runAll stepSystem [] s₀ = some ([], s₀) from rfl) hnone
  have hpages : s₀.heap.pages.source.clear.card = 3630 := by
    rw [hclear, Nat.card_Ico]
  obtain ⟨s₁, m₁, hcrowd₁, htables₁, hclear₁, hrun₁⟩ :=
    hcrowd.create_next (by decide) hinv.tables (by omega) (CString.ofBuffer []) 0x100000
  obtain ⟨s₂, m₂, hcrowd₂, htables₂, hclear₂, hrun₂⟩ :=
    hcrowd₁.create_next (by decide) htables₁ (by omega) (CString.ofBuffer []) 0x100000
  obtain ⟨s₃, m₃, hcrowd₃, -, -, hrun₃⟩ :=
    hcrowd₂.create_next (by decide) htables₂ (by omega) (CString.ofBuffer []) 0x100000
  obtain ⟨s₄, m₄, hcrowd₄, hrun₄⟩ := hcrowd₃.tick_exit m₃
  obtain ⟨s₅, m₅, hcrowd₅, hrun₅⟩ := hcrowd₄.tick_exit m₄
  have hbalance := (hinv.run [.create (CString.ofBuffer []) 0x100000,
    .create (CString.ofBuffer []) 0x100000, .create (CString.ofBuffer []) 0x100000,
    .tick, .exit 0, .tick, .exit 0]).balance
  rw [(hrun₁ _).2, (hrun₂ _).2, (hrun₃ _).2, (hrun₄ _).2, (hrun₅ _).2] at hbalance
  rw [(hrun₁ _).1, (hrun₂ _).1, (hrun₃ _).1, (hrun₄ _).1, (hrun₅ _).1] at hbalance
  refine ⟨s₀, hboot, _, rfl, ?_⟩
  rw [(hrun₁ _).1, (hrun₂ _).1, (hrun₃ _).1, (hrun₄ _).1, (hrun₅ _).1]
  refine ⟨hcrowd₅.alive, ?_⟩
  have hdone : exitsIn pmmSource [] (s₅, m₅) = 0 := rfl
  rw [hbalance, hdone]
  omega

end Dosfs
