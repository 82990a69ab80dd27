import Dosfs.Kernel.Boot

/-!
# The pages of the kernel

`vmm_init` maps the first 64 MB without the user bit, 4 MB for each table it can
make, and the heap maps its pages in there without it too. Below 2 GB nothing
else is ever mapped, so in every run the pages that only the kernel may use are
the ones below the end of those tables.
-/

namespace Dosfs

open Foundation

/-- The page is mapped, and its user bit is not set. -/
def SupervisorPage {σ : Type} (m : Machine σ) (page : Nat) : Prop :=
  (m.entry m.currentDirectory (page / 1024)).present = true ∧
    (m.frames (m.entry m.currentDirectory (page / 1024)).frame (page % 1024)).present = true ∧
    (m.frames (m.entry m.currentDirectory (page / 1024)).frame (page % 1024)).user = false

/-- Below 2 GB the directory has its first `count` tables only, and these map all
their pages for the kernel. -/
structure LowTables {σ : Type} (count : Nat) (m : Machine σ) (dir : Nat) : Prop where
  tables : ∀ i < 512, (m.entry dir i).present = true ↔ i < count
  pages : ∀ i < count, ∀ j, (m.frames (m.entry dir i).frame j).present = true ∧
    (m.frames (m.entry dir i).frame j).user = false

section

variable {σ : Type} {src : PageSource σ} {law : PageLaw src} {m m' : Machine σ} {count dir : Nat}

theorem LowTables.supervisor_iff (hlow : LowTables count m m.currentDirectory) {page : Nat}
    (hpage : page < 0x80000) : SupervisorPage m page ↔ page < count * 1024 := by
  have htable := hlow.tables (page / 1024) (by omega)
  constructor
  · intro hsupervisor
    have hlt := htable.1 hsupervisor.1
    omega
  · intro hlt
    have hindex : page / 1024 < count := by omega
    exact ⟨htable.2 hindex, hlow.pages _ hindex _⟩

theorem LowTables.of_frames (hlow : LowTables count m dir) (hframes : m'.frames = m.frames) :
    LowTables count m' dir := by
  have hentry (i : Nat) : m'.entry dir i = m.entry dir i := by
    rw [Machine.entry, Machine.entry, hframes]
  constructor
  · simpa only [hentry] using hlow.tables
  · simpa only [hentry, hframes] using hlow.pages

/-- A fresh table above 2 GB. -/
theorem LowTables.enterHigh (hlow : LowTables count m dir) (hcount : count ≤ 512)
    (hinv : TableInv law m dir) (hframes : m'.frames = m.frames) {index table : Nat}
    (hindex : 512 ≤ index) (hfresh : ¬ law.taken m.source table) (entries : Nat → PageEntry) :
    LowTables count (m'.enterTable dir index table entries) dir := by
  have hdir : table ≠ dir / pageSize := by
    rintro rfl
    exact hfresh hinv.dirTaken
  have hentry (i : Nat) (hi : i < 512) :
      (m'.enterTable dir index table entries).entry dir i = m.entry dir i := by
    rw [entry_enterTable hframes hdir, if_neg (by omega)]
  refine ⟨fun i hi => ?_, fun i hi j => ?_⟩
  · rw [hentry i hi]
    exact hlow.tables i hi
  · have hpresent := (hlow.tables i (by omega)).2 hi
    rw [hentry i (by omega), frames_enterTable hframes (hinv.tableNotDir i hpresent), if_neg]
    · exact hlow.pages i hi j
    · intro hsame
      exact hfresh (hsame ▸ hinv.tableTaken i hpresent)

/-- The next table of `vmm_init`. -/
theorem LowTables.enterNext (hlow : LowTables count m dir) (hcount : count < 512)
    (hinv : TableInv law m dir) (hframes : m'.frames = m.frames) {table : Nat}
    (hfresh : ¬ law.taken m.source table) {entries : Nat → PageEntry}
    (hentries : ∀ j, (entries j).present = true ∧ (entries j).user = false) :
    LowTables (count + 1) (m'.enterTable dir count table entries) dir := by
  have hdir : table ≠ dir / pageSize := by
    rintro rfl
    exact hfresh hinv.dirTaken
  have hentry := @entry_enterTable _ m dir m' count table entries hframes hdir
  refine ⟨fun i hi => ?_, fun i hi j => ?_⟩
  · rw [hentry]
    split
    next hnew =>
      rw [hnew]
      exact iff_of_true rfl (Nat.lt_succ_self count)
    next hold =>
      rw [hlow.tables i hi]
      omega
  · rw [hentry]
    split
    next =>
      rw [frames_enterTable hframes hdir, if_pos rfl]
      exact hentries j
    next hold =>
      have hlt : i < count := by omega
      have hpresent := (hlow.tables i (by omega)).2 hlt
      rw [frames_enterTable hframes (hinv.tableNotDir i hpresent), if_neg]
      · exact hlow.pages i hlt j
      · intro hsame
        exact hfresh (hsame ▸ hinv.tableTaken i hpresent)

/-- The low tables are all present, so a table is only ever created above them. -/
theorem LowTables.pageTable (hlow : LowTables count m m.currentDirectory) (hcount : count ≤ 512)
    (hinv : TableInv law m m.currentDirectory) {dir : Nat} (hdir : dir < count ∨ 512 ≤ dir) :
    LowTables count (getPageTable src m.currentDirectory dir true m).2 m.currentDirectory := by
  have hresult := getPageTable_result hinv.valid m.currentDirectory dir
  generalize (getPageTable src m.currentDirectory dir true m).1 = addr at hresult
  generalize (getPageTable src m.currentDirectory dir true m).2 = m' at hresult ⊢
  cases hresult with
  | found => exact hlow
  | failed m' habsent halloc =>
      have hm' : m' = (pmmAllocPage src m).2 := by rw [halloc]
      subst hm'
      exact hlow.of_frames rfl
  | created table m' habsent halloc htable hfresh htaken =>
      have hm' : m' = (pmmAllocPage src m).2 := by rw [halloc]
      subst hm'
      have hhigh : 512 ≤ dir := by
        refine hdir.resolve_left fun hin => ?_
        rw [(hlow.tables _ (by omega)).2 hin] at habsent
        cases habsent
      have hframes : (pmmAllocPage src m).2.frames = m.frames := rfl
      exact hlow.enterHigh hcount hinv hframes hhigh hfresh fun _ => .zero

/-- A page is mapped for the kernel in one of the tables, or above 2 GB. -/
theorem LowTables.mapPage (hlow : LowTables count m m.currentDirectory) (hcount : count ≤ 512)
    (hinv : TableInv law m m.currentDirectory) {virt flags : Nat}
    (hvirt : (dirIndex virt < count ∧ flags &&& 0x4 = 0) ∨ 512 ≤ dirIndex virt) (phys : Nat) :
    LowTables count (vmmMapPage src virt phys flags m) m.currentDirectory := by
  have hresult := getPageTable_result hinv.valid m.currentDirectory (dirIndex virt)
  obtain ⟨hmaps, -, hentered⟩ := getPageTable_maps hinv hresult
  have htables := hlow.pageTable hcount hinv (hvirt.imp_left And.left)
  unfold vmmMapPage
  dsimp only
  split
  next => exact htables
  next hnotNull =>
    obtain ⟨hpresent, haddr⟩ := hentered hnotNull
    rw [haddr]
    have hentry := @entry_storeEntry_table _ src law _ m.currentDirectory (dirIndex virt)
      (tableIndex virt) ⟨true, flags &&& 0x2 ≠ 0, flags &&& 0x4 ≠ 0, (phys >>> 12) % 2 ^ 20⟩
      hmaps.inv hpresent
    refine ⟨fun i hi => ?_, fun i hi j => ?_⟩
    · rw [hentry]
      exact htables.tables i hi
    · rw [hentry, Machine.frames_eq_entry, Machine.entry_storeEntry, mul_pageSize_div,
        mul_pageSize_div]
      split
      next hsame =>
        have hpresent' := (htables.tables i (by omega)).2 hi
        -- The store hits a low table only through its own index, and then without the user bit.
        obtain rfl := hmaps.inv.distinct _ _ hpresent' hpresent hsame.1
        refine ⟨rfl, ?_⟩
        rcases hvirt with ⟨-, hflags⟩ | hhigh
        · simp [hflags]
        · omega
      next =>
        rw [← Machine.frames_eq_entry]
        exact htables.pages i hi j

end

/-! ## Boot -/

theorem alloc_null_iff {pmm : Pmm} (hbooted : pmm.Booted) :
    (pmmSource.alloc pmm).1 = 0 ↔ pmm.clear.card = 0 := by
  rcases pmmSource_alloc_cases hbooted with ⟨page, hleast, hpage, heq⟩ | ⟨hempty, heq⟩
  · rw [heq]
    refine iff_of_false (Nat.mul_ne_zero hpage (by decide)) ?_
    exact (Finset.card_pos.2 ⟨page, hleast.1⟩).ne'
  · rw [heq, hempty]
    exact iff_of_true rfl rfl

variable {m : Machine Pmm} {count current : Nat}

/-- One more table of `vmm_init`: it is made while there is a page. -/
theorem LowTables.identityMap {steps : Nat} (hsteps : steps < 512)
    (hlow : LowTables (min steps count) m m.kernelDirectory)
    (hcard : m.source.clear.card = count - steps) (hmapped : IdentityMapped pmmLaw m) :
    LowTables (min (steps + 1) count)
      (identityMap pmmSource steps (steps * 1024 * pageSize) m) m.kernelDirectory := by
  have hnull := alloc_null_iff hmapped.inv.valid
  rcases identityMap_cases hmapped.inv.valid steps with
    ⟨hrefused, heq⟩ | ⟨table, htable, hne, hfresh, -, heq⟩
  · have hnone := hnull.1 hrefused
    rw [heq, show min (steps + 1) count = min steps count by omega]
    exact hlow.of_frames rfl
  · have hsome : m.source.clear.card ≠ 0 := by
      intro hzero
      rw [hnull.2 hzero] at htable
      exact Nat.mul_ne_zero hne (by decide) htable.symm
    rw [show min steps count = steps by omega] at hlow
    rw [heq, show min (steps + 1) count = steps + 1 by omega]
    have hframes : ({ m with source := (pmmSource.alloc m.source).2 } : Machine Pmm).frames =
        m.frames := rfl
    refine hlow.enterNext hsteps hmapped.inv hframes hfresh ?_
    exact fun _ => ⟨rfl, rfl⟩

/-- The number of tables below 64 MB that `vmm_init` makes with the pages that
`pmm_init` leaves, one of which is the directory. -/
def lowTables (pmm : Pmm) : Nat := min 16 (pmm.clear.card - 1)

theorem identityMaps_lowTables (hlow : LowTables 0 m m.kernelDirectory)
    (hmapped : IdentityMapped pmmLaw m) (steps : Nat) (hsteps : steps ≤ 512) :
    LowTables (min steps m.source.clear.card)
        ((List.range steps).foldl (fun m i => identityMap pmmSource i (i * 1024 * pageSize) m) m)
        m.kernelDirectory ∧
      ((List.range steps).foldl (fun m i => identityMap pmmSource i (i * 1024 * pageSize) m)
        m).source.clear.card = m.source.clear.card - steps := by
  induction steps with
  | zero =>
      rw [Nat.zero_min]
      exact ⟨hlow, rfl⟩
  | succ steps ih =>
      obtain ⟨hlow', hcard⟩ := ih (Nat.le_of_succ_le hsteps)
      have hnone : IdentityIn m (fun pmm => pmm.clear = ∅) [] :=
        Or.inr fun page hpage => absurd hpage List.not_mem_nil
      obtain ⟨hmapped', hkernel, -, -⟩ :=
        identityMaps_spec pmmLaw_exhausts (List.range steps) hmapped hnone
      obtain ⟨-, hsource, -, -⟩ := identityMap_spec hmapped' steps
      rw [List.range_succ, List.foldl_append, List.foldl_cons, List.foldl_nil, hsource,
        card_clear_alloc, hcard]
      refine ⟨?_, by omega⟩
      rw [← hkernel] at hlow' ⊢
      exact hlow'.identityMap hsteps hcard hmapped'

theorem vmmInit_lowTables {pmm : Pmm} (hbooted : pmm.Booted) {frames : Nat → Nat → PageEntry}
    (hinit : vmmInit pmmSource frames pmm = some m) :
    LowTables (lowTables pmm) m m.currentDirectory ∧
      (lowTables pmm = 16 ∨ m.source.clear = ∅) := by
  obtain ⟨hnotNull, rfl⟩ := vmmInit_eq hinit
  have hmapped := @emptyDirectory_mapped _ pmmSource pmmLaw frames pmm hbooted hnotNull
  have habsent := emptyDirectory_absent pmmSource frames pmm
  have hcard : (emptyDirectory pmmSource frames pmm).source.clear.card = pmm.clear.card - 1 :=
    card_clear_alloc pmm
  generalize emptyDirectory pmmSource frames pmm = m₀ at hmapped habsent hcard hinit ⊢
  have hlow : LowTables 0 m₀ m₀.kernelDirectory := by
    refine ⟨fun i _ => ?_, fun i hi => absurd hi (Nat.not_lt_zero i)⟩
    rw [habsent]
    exact iff_of_false Bool.false_ne_true (Nat.not_lt_zero i)
  have hnone : IdentityIn m₀ (fun pmm => pmm.clear = ∅) [] :=
    Or.inr fun page hpage => absurd hpage List.not_mem_nil
  obtain ⟨hlow', hleft⟩ := identityMaps_lowTables hlow hmapped 16 (by decide)
  obtain ⟨hmapped', hkernel, -, -⟩ :=
    identityMaps_spec pmmLaw_exhausts (List.range 16) hmapped hnone
  generalize (List.range 16).foldl (fun m i => identityMap pmmSource i (i * 1024 * pageSize) m)
    m₀ = m₁ at hlow' hleft hmapped' hkernel hinit ⊢
  rw [← hkernel, hcard] at hlow'
  obtain ⟨-, hsource, hkernel', -⟩ := identityMap_spec hmapped' 1023
  have hlast : LowTables (lowTables pmm)
      (identityMap pmmSource 1023 (1023 * 1024 * pageSize) m₁) m₁.kernelDirectory := by
    rcases identityMap_cases hmapped'.inv.valid 1023 with
      ⟨-, heq⟩ | ⟨table, -, -, hfresh, -, heq⟩
    · rw [heq]
      exact hlow'.of_frames rfl
    · rw [heq]
      have hframes : ({ m₁ with source := (pmmSource.alloc m₁.source).2 } : Machine Pmm).frames =
          m₁.frames := rfl
      exact hlow'.enterHigh ((Nat.min_le_left _ _).trans (by decide)) hmapped'.inv hframes
        (by decide) hfresh _
  refine ⟨?_, ?_⟩
  · dsimp only
    rw [hkernel']
    exact hlast.of_frames rfl
  · dsimp only
    rw [← Finset.card_eq_zero, hsource, card_clear_alloc, hleft, hcard, lowTables]
    omega

/-! ## Runs -/

/-- The kernel's invariant, and the tables that `vmm_init` has made. If it could
not make all sixteen, there are no pages. -/
structure SupervisorInv (count current : Nat) (m : Machine Pmm) : Prop where
  system : SystemInv current m
  low : LowTables count m m.currentDirectory
  few : count ≤ 16
  full : count = 16 ∨ m.source.clear = ∅

theorem SupervisorInv.alloc (hinv : SupervisorInv count current m) :
    SupervisorInv count current (pmmAllocPage pmmSource m).2 :=
  ⟨hinv.system.alloc, hinv.low.of_frames rfl, hinv.few,
    hinv.full.imp_right (pmmLaw_exhausts.alloc _)⟩

/-- The user stacks are mapped far above. -/
theorem SupervisorInv.processCreate (hinv : SupervisorInv count current m) (name : CString)
    (entry : Nat) (s : Scheduler) :
    SupervisorInv count current (processCreate pmmSource name entry s m).2 := by
  have hsystem := hinv.system.processCreate name entry s
  have hresult := processCreate_result pmmSource name entry s m
  generalize (Dosfs.processCreate pmmSource name entry s m).2 = m' at hresult hsystem ⊢
  cases hresult with
  | refused => exact hinv
  | noKernelStack hkstack => exact hinv.alloc
  | created virt hlow hhigh hkstack hustack =>
      have halloc := hinv.alloc.alloc
      have hdir : 512 ≤ dirIndex virt := by
        rw [dirIndex_eq]
        simp only [pageSize]
        omega
      have hcurrent := (halloc.system.space.inv.mapPage virt
        (pmmAllocPage pmmSource (pmmAllocPage pmmSource m).2).1 0x7).1
      refine ⟨hsystem, ?_, hinv.few, halloc.full.imp_right fun hempty => ?_⟩
      · rw [hcurrent]
        exact halloc.low.mapPage (hinv.few.trans (by decide)) halloc.system.space.inv
          (Or.inr hdir) _
      · rw [vmmMapPage_source]
        rcases getPageTable_source pmmSource
          (pmmAllocPage pmmSource (pmmAllocPage pmmSource m).2).2.currentDirectory (dirIndex virt)
          true (pmmAllocPage pmmSource (pmmAllocPage pmmSource m).2).2 with heq | heq
        · rw [heq]
          exact hempty
        · rw [heq]
          exact pmmLaw_exhausts.alloc _ hempty
  | noUserStack hkstack hustack =>
      refine ⟨hsystem, hinv.low.of_frames rfl, hinv.few, hinv.full.imp_right fun hempty => ?_⟩
      rw [Pmm.clear, noUserStack_totalPages,
        noUserStack_marked hinv.system.space.inv.valid hkstack hustack]
      exact hempty

theorem supervisorInv_stable (count : Nat) : PageStable grabPage (SupervisorInv count) where
  granted current m hinv hok := by
    have hnotNull := alloc_of_grabPage_true hok
    obtain ⟨i, hleast, -, hroom, -, hgrab, -, -⟩ := hinv.system.grabPage_eq hnotNull
    have hcount : count = 16 := by
      refine hinv.full.resolve_right fun hempty => ?_
      rw [hempty] at hleast
      exact absurd hleast.1 (by simp)
    have hdir : dirIndex current < count := by
      rw [dirIndex_eq, hcount]
      simp only [pageSize] at hroom ⊢
      omega
    have halloc := hinv.alloc
    have hcurrent := (halloc.system.space.inv.mapPage current (i * pageSize) 0x3).1
    have hflags : 0x3 &&& 0x4 = 0 := by decide
    have hmapped := halloc.low.mapPage (hinv.few.trans (by decide)) halloc.system.space.inv
      (Or.inl ⟨hdir, hflags⟩) (i * pageSize)
    refine ⟨hinv.system.grab hok, ?_, hinv.few, Or.inl hcount⟩
    rw [hgrab]
    dsimp only
    rw [hcurrent]
    exact hmapped.of_frames rfl
  refused current m hinv hok := by
    rw [grabPage_refused (alloc_of_grabPage_false hok)]
    exact hinv.alloc

theorem runSystem_supervisorInv {kernelEnd totalMemory : Nat} {frames : Nat → Nat → PageEntry}
    {mem : Memory} {s₀ s : System} {ops : List SystemOp} {rs : List Nat}
    (hkernel : 2 ^ 20 ≤ kernelEnd ∧ kernelEnd ≤ 2 ^ 28) (htotal : totalMemory ≤ 0x1000000)
    (hboot : bootSystem kernelEnd totalMemory frames mem = some s₀)
    (hrun : runAll stepSystem ops s₀ = some (rs, s)) :
    s.heap.Keeps (SupervisorInv (lowTables (rustPmmInit kernelEnd totalMemory))) := by
  have hstable : SystemStable (SupervisorInv (lowTables (rustPmmInit kernelEnd totalMemory))) :=
    ⟨supervisorInv_stable _, fun _ _ name entry s hinv => hinv.processCreate name entry s⟩
  obtain ⟨m, hinit, rfl⟩ := Option.map_eq_some_iff.1 hboot
  obtain ⟨hlow, hfull⟩ := vmmInit_lowTables (rustPmmInit_booted hkernel totalMemory) hinit
  refine runSystem_keeps hstable hrun (heapInit_keeps hstable.pages mem ?_)
  exact ⟨vmmInit_systemInv hkernel htotal hinit, hlow.of_frames rfl, Nat.min_le_left _ _, hfull⟩

theorem lowTables_sixteen_megabytes : lowTables (rustPmmInit 0x180000 0x1000000) = 16 := by
  rw [lowTables, clear_sixteen_megabytes, Nat.card_Ico]
  rfl

end Dosfs
