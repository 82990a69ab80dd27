import Mathlib.Order.Interval.Finset.Nat
import Dosfs.Memory.VmmRefinement
import Dosfs.Process.Scheduler

/-!
# Address spaces

What `vmm_create_directory` shares with the kernel directory and what
`vmm_free_directory` gives back, in every state that the kernel reaches with its
bitmap allocator. A new directory shares the tables of the entries 16 to 1023.
It does not share the first 64 MB, and freeing it frees the shared tables.
-/

namespace Dosfs

/-- The process table and the memory manager. -/
structure Kernel where
  scheduler : Scheduler
  machine : Machine Pmm

/-- `pmm_init`, `vmm_init` and `scheduler_init`; `none` when the machine halts. -/
def bootKernel (kernelEnd totalMemory : Nat) (frames : Nat → Nat → PageEntry) : Option Kernel :=
  (vmmInit pmmSource frames (rustPmmInit kernelEnd totalMemory)).map fun machine =>
    { scheduler := schedulerInit, machine }

/-- The calls that work on the kernel directory. -/
inductive SpaceOp
  | mapPage (virt phys flags : Nat)
  | unmapPage (virt : Nat)
  | processCreate (name : CString) (entry : Nat)
  | createDirectory

def stepSpace (k : Kernel) : SpaceOp → Kernel
  | .mapPage virt phys flags =>
      { k with machine := vmmMapPage pmmSource virt phys flags k.machine }
  | .unmapPage virt => { k with machine := vmmUnmapPage pmmSource virt k.machine }
  | .processCreate name entry =>
      let (scheduler, machine) := processCreate pmmSource name entry k.scheduler k.machine
      { scheduler, machine }
  | .createDirectory => { k with machine := (vmmCreateDirectory pmmSource k.machine).2 }

def runSpace (ops : List SpaceOp) (k : Kernel) : Kernel := ops.foldl stepSpace k

/-! ## The invariant -/

/-- The kernel directory is the current one, its tables are in order, and the
tables of `vmm_init` are in it unless no page is left. -/
structure SpaceInv (m : Machine Pmm) : Prop where
  current : m.currentDirectory = m.kernelDirectory
  inv : TableInv pmmLaw m m.currentDirectory
  boot : m.source.clear = ∅ ∨
    ∀ i ∈ bootIndices, (m.entry m.currentDirectory i).present = true

variable {m m' : Machine Pmm}

theorem pageFrame_present {σ : Type} {m : Machine σ} {dir page frame : Nat}
    (hmaps : pageFrame m dir page = some frame) : (m.entry dir (page / 1024)).present = true := by
  by_contra habsent
  rw [pageFrame, if_neg fun h => habsent h.1] at hmaps
  exact absurd hmaps (by simp)

theorem bootKernel_inv {kernelEnd totalMemory : Nat} {frames : Nat → Nat → PageEntry} {k : Kernel}
    (hkernel : 2 ^ 20 ≤ kernelEnd ∧ kernelEnd ≤ 2 ^ 28)
    (hboot : bootKernel kernelEnd totalMemory frames = some k) : SpaceInv k.machine := by
  obtain ⟨m, hinit, rfl⟩ := Option.map_eq_some_iff.1 hboot
  obtain ⟨hcurrent, hmapped, -, hidentity⟩ :=
    vmmInit_spec pmmLaw_exhausts (rustPmmInit_booted hkernel totalMemory) hinit
  refine ⟨hcurrent, hcurrent ▸ hmapped.inv, hidentity.imp_right fun hpages i hi => ?_⟩
  have hpage : i * 1024 / 1024 = i := Nat.mul_div_cancel i (by decide)
  have hpresent := pageFrame_present (hpages (i * 1024) (hpage.symm ▸ hi))
  rw [hpage] at hpresent
  exact hcurrent ▸ hpresent

/-- A step that keeps the directories and makes no page clear. -/
theorem SpaceInv.step {f : Nat → Option Nat} (hinv : SpaceInv m) (hmaps : Maps pmmLaw m m' f)
    (hclear : m.source.clear = ∅ → m'.source.clear = ∅) : SpaceInv m' := by
  refine ⟨?_, ?_, ?_⟩
  · rw [hmaps.current, hmaps.kernel, hinv.current]
  · rw [hmaps.current]
    exact hmaps.inv
  · refine hinv.boot.imp hclear fun hpresent i hi => ?_
    rw [hmaps.current, hmaps.entries i (hpresent i hi)]
    exact hpresent i hi

theorem SpaceInv.alloc (hinv : SpaceInv m) : SpaceInv (pmmAllocPage pmmSource m).2 :=
  hinv.step (pmmAllocPage_maps hinv.inv) (pmmLaw_exhausts.alloc _)

theorem getPageTable_source {σ : Type} (src : PageSource σ) (dir index : Nat) (create : Bool)
    (m : Machine σ) :
    (getPageTable src dir index create m).2.source = m.source ∨
      (getPageTable src dir index create m).2.source = (src.alloc m.source).2 := by
  unfold getPageTable
  dsimp only
  split_ifs
  · exact Or.inl rfl
  · exact Or.inl rfl
  · exact Or.inr rfl
  · exact Or.inr rfl

theorem vmmMapPage_source {σ : Type} (src : PageSource σ) (virt phys flags : Nat) (m : Machine σ) :
    (vmmMapPage src virt phys flags m).source =
      (getPageTable src m.currentDirectory (dirIndex virt) true m).2.source := by
  unfold vmmMapPage
  dsimp only
  split_ifs <;> rfl

theorem SpaceInv.mapPage (hinv : SpaceInv m) (virt phys flags : Nat) :
    SpaceInv (vmmMapPage pmmSource virt phys flags m) := by
  have hclear (hempty : m.source.clear = ∅) :
      (vmmMapPage pmmSource virt phys flags m).source.clear = ∅ := by
    rw [vmmMapPage_source]
    rcases getPageTable_source pmmSource m.currentDirectory (dirIndex virt) true m with heq | heq
    · rw [heq]
      exact hempty
    · rw [heq]
      exact pmmLaw_exhausts.alloc _ hempty
  by_cases hsucceeds : mapSucceeds pmmSource virt m
  · exact hinv.step (vmmMapPage_maps hinv.inv virt phys flags hsucceeds) hclear
  · exact hinv.step (vmmMapPage_fails hinv.inv virt phys flags hsucceeds).1 hclear

theorem SpaceInv.unmapPage (hinv : SpaceInv m) (virt : Nat) :
    SpaceInv (vmmUnmapPage pmmSource virt m) := by
  refine hinv.step (vmmUnmapPage_maps hinv.inv virt) fun hempty => ?_
  have hsource : (vmmUnmapPage pmmSource virt m).source = m.source := by
    unfold vmmUnmapPage getPageTable
    simp only [Bool.not_false, if_true]
    split_ifs <;> rfl
  rw [hsource]
  exact hempty

/-- Giving back the page that was just handed out leaves the marked pages. -/
theorem marked_free_alloc {pmm : Pmm} (hbooted : pmm.Booted) {page : Nat} {pmm' : Pmm}
    (halloc : pmmSource.alloc pmm = (page, pmm')) (hnotNull : page ≠ 0) :
    (pmmSource.free page pmm').marked = pmm.marked := by
  rcases pmmSource_alloc_cases hbooted with ⟨i, hleast, hi, heq⟩ | ⟨-, heq⟩
  · obtain ⟨rfl, rfl⟩ := Prod.mk.inj (halloc.symm.trans heq)
    change (rustPmmFreePage (i * pageSize) (pmm.markPage i)).marked = pmm.marked
    rw [Pmm.rustPmmFreePage_marked, if_neg hnotNull, mul_pageSize_div,
      Pmm.markPage_marked (Pmm.mem_clear.1 hleast.1).1,
      Finset.erase_insert (Pmm.notMem_marked_of_clear hleast.1)]
  · obtain ⟨rfl, -⟩ := Prod.mk.inj (halloc.symm.trans heq)
    exact absurd rfl hnotNull

/-- A step that changes neither the marked pages nor the entries. -/
theorem SpaceInv.same_marked (hinv : SpaceInv m)
    (hcurrent : m'.currentDirectory = m.currentDirectory)
    (hkernel : m'.kernelDirectory = m.kernelDirectory) (hframes : m'.frames = m.frames)
    (htotal : m'.source.totalPages = m.source.totalPages)
    (hmarked : m'.source.marked = m.source.marked) : SpaceInv m' := by
  have hclear : m'.source.clear = m.source.clear := by
    rw [Pmm.clear, Pmm.clear, htotal, hmarked]
  have hbooted : m'.source.Booted := by
    rw [Pmm.Booted, htotal, hclear]
    exact hinv.inv.valid
  refine hinv.step (hinv.inv.maps_of_frames hcurrent hkernel (fun _ _ => by rw [hframes]) hbooted
    fun page htaken => ?_) fun hempty => hclear.trans hempty
  change page ∈ m'.source.marked
  rw [hmarked]
  exact htaken

/-- When there is no page for the user stack, the one for the kernel stack is
given back, and the call that found none left the bitmap as it was. -/
theorem noUserStack_marked (hbooted : m.source.Booted) (hkstack : (pmmAllocPage pmmSource m).1 ≠ 0)
    (hustack : (pmmAllocPage pmmSource (pmmAllocPage pmmSource m).2).1 = 0) :
    (pmmFreePage pmmSource (pmmAllocPage pmmSource m).1
      (pmmAllocPage pmmSource (pmmAllocPage pmmSource m).2).2).source.marked =
        m.source.marked := by
  have hsecond : (pmmSource.alloc (pmmSource.alloc m.source).2).2 =
      (pmmSource.alloc m.source).2 := by
    rcases pmmSource_alloc_cases hbooted.alloc with ⟨page, -, hpage, heq⟩ | ⟨-, heq⟩
    · refine absurd hustack ?_
      change (pmmSource.alloc (pmmSource.alloc m.source).2).1 ≠ 0
      rw [heq]
      exact Nat.mul_ne_zero hpage (by decide)
    · rw [heq]
  change (pmmSource.free (pmmSource.alloc m.source).1
    (pmmSource.alloc (pmmSource.alloc m.source).2).2).marked = _
  rw [hsecond]
  exact marked_free_alloc hbooted rfl hkstack

theorem noUserStack_totalPages (m : Machine Pmm) :
    (pmmFreePage pmmSource (pmmAllocPage pmmSource m).1
      (pmmAllocPage pmmSource (pmmAllocPage pmmSource m).2).2).source.totalPages =
        m.source.totalPages := by
  change (rustPmmFreePage _ (rustPmmAllocPage (rustPmmAllocPage m.source).2).2).totalPages = _
  rw [Pmm.rustPmmFreePage_totalPages, Pmm.rustPmmAllocPage_totalPages,
    Pmm.rustPmmAllocPage_totalPages]

theorem SpaceInv.processCreate (hinv : SpaceInv m) (name : CString) (entry : Nat)
    (s : Scheduler) : SpaceInv (processCreate pmmSource name entry s m).2 := by
  have hresult := processCreate_result pmmSource name entry s m
  generalize (Dosfs.processCreate pmmSource name entry s m).2 = m' at hresult ⊢
  cases hresult with
  | refused => exact hinv
  | noKernelStack hkstack => exact hinv.alloc
  | created virt hlow hhigh hkstack hustack => exact hinv.alloc.alloc.mapPage _ _ _
  | noUserStack hkstack hustack =>
      exact hinv.same_marked rfl rfl rfl (noUserStack_totalPages m)
        (noUserStack_marked hinv.inv.valid hkstack hustack)

/-! ## Creating a directory -/

/-- What a successful `vmm_create_directory` leaves behind, with the new
directory in page `page`. -/
structure NewDirectory (m : Machine Pmm) (page : Nat) (m' : Machine Pmm) : Prop where
  notNull : page ≠ 0
  fresh : page ∉ m.source.marked
  source : pmmSource.alloc m.source = (page * pageSize, m'.source)
  current : m'.currentDirectory = m.currentDirectory
  kernel : m'.kernelDirectory = m.kernelDirectory
  entry : ∀ i, m'.entry (page * pageSize) i =
    if 16 ≤ i ∧ i < 1024 ∧ (m.entry m.currentDirectory i).present then
      m.entry m.currentDirectory i
    else .zero
  others : ∀ other, other ≠ page → m'.frames other = m.frames other

theorem vmmCreateDirectory_cases (hinv : SpaceInv m) :
    vmmCreateDirectory pmmSource m = (0, (pmmAllocPage pmmSource m).2) ∨
    ∃ page, (vmmCreateDirectory pmmSource m).1 = page * pageSize ∧
      NewDirectory m page (vmmCreateDirectory pmmSource m).2 := by
  rcases pmmSource_alloc_cases hinv.inv.valid with ⟨page, hleast, hpage, heq⟩ | ⟨-, heq⟩
  · have hfresh := Pmm.notMem_marked_of_clear hleast.1
    have hnotNull : page * pageSize ≠ 0 := Nat.mul_ne_zero hpage (by decide)
    have halloc : (pmmAllocPage pmmSource m).1 = page * pageSize := congrArg Prod.fst heq
    have hdir : m.kernelDirectory / pageSize ≠ page := by
      rintro rfl
      exact hfresh (hinv.current ▸ hinv.inv.dirTaken)
    refine Or.inr ⟨page, ?_, ?_⟩
    · unfold vmmCreateDirectory
      dsimp only
      rw [halloc, if_neg hnotNull]
    · unfold vmmCreateDirectory
      dsimp only
      rw [halloc, if_neg hnotNull]
      refine ⟨hpage, hfresh, ?_, rfl, rfl, fun i => ?_, fun other hother => ?_⟩
      · rw [heq]
        exact congrArg (Prod.mk _) (congrArg Prod.snd heq).symm
      · let cleared := (pmmAllocPage pmmSource m).2.zeroPage (page * pageSize)
        have hkernel : cleared.entry m.kernelDirectory i = m.entry m.kernelDirectory i := by
          refine Machine.entry_zeroPage.trans ?_
          rw [mul_pageSize_div, if_neg hdir]
          rfl
        have hzero : cleared.entry (page * pageSize) i = .zero :=
          Machine.entry_zeroPage.trans (if_pos rfl)
        rw [Machine.entry_storePage, if_pos rfl, hinv.current]
        change (if 16 ≤ i ∧ i < 1024 ∧ (cleared.entry m.kernelDirectory i).present = true then
          cleared.entry m.kernelDirectory i else cleared.entry (page * pageSize) i) = _
        rw [hkernel, hzero]
      · unfold Machine.storePage
        dsimp only
        rw [mul_pageSize_div, Function.update_of_ne hother, Machine.zeroPage]
        unfold Machine.storePage
        dsimp only
        rw [mul_pageSize_div, Function.update_of_ne hother]
        rfl
  · have halloc : (pmmAllocPage pmmSource m).1 = 0 := congrArg Prod.fst heq
    left
    unfold vmmCreateDirectory
    dsimp only
    rw [if_pos halloc]

theorem NewDirectory.maps {page : Nat} (hinv : SpaceInv m) (hnew : NewDirectory m page m') :
    Maps pmmLaw m m' (pageFrame m m.currentDirectory) := by
  have hsource : m'.source = (pmmSource.alloc m.source).2 := by rw [hnew.source]
  refine hinv.inv.maps_of_frames hnew.current hnew.kernel (fun other htaken => ?_) ?_ ?_
  · refine hnew.others other ?_
    rintro rfl
    exact hnew.fresh htaken
  · rw [hsource]
    exact hinv.inv.valid.alloc
  · rw [hsource]
    exact pmmLaw.alloc_mono m.source

theorem SpaceInv.createDirectory (hinv : SpaceInv m) :
    SpaceInv (vmmCreateDirectory pmmSource m).2 := by
  rcases vmmCreateDirectory_cases hinv with heq | ⟨page, -, hnew⟩
  · rw [heq]
    exact hinv.alloc
  · refine hinv.step (hnew.maps hinv) fun hempty => ?_
    have hsource := congrArg Prod.snd hnew.source
    rw [← show _ = (vmmCreateDirectory pmmSource m).2.source from hsource]
    exact pmmLaw_exhausts.alloc _ hempty

theorem runSpace_inv {k : Kernel} (hinv : SpaceInv k.machine) (ops : List SpaceOp) :
    SpaceInv (runSpace ops k).machine := by
  induction ops generalizing k with
  | nil => exact hinv
  | cons op ops ih =>
      rw [runSpace, List.foldl_cons]
      apply ih
      cases op with
      | mapPage virt phys flags => exact hinv.mapPage virt phys flags
      | unmapPage virt => exact hinv.unmapPage virt
      | processCreate name entry => exact hinv.processCreate name entry k.scheduler
      | createDirectory => exact hinv.createDirectory

/-- While there is a page for a directory, the tables of `vmm_init` are all
there. -/
theorem SpaceInv.boot_of_created {page : Nat} (hinv : SpaceInv m) (hnew : NewDirectory m page m')
    {i : Nat} (hi : i ∈ bootIndices) : (m.entry m.currentDirectory i).present = true := by
  rcases hinv.boot with hempty | hpresent
  · rcases pmmSource_alloc_cases hinv.inv.valid with ⟨other, hleast, -⟩ | ⟨-, heq⟩
    · exact absurd hleast.1 (by simp [hempty])
    · have hnull := congrArg Prod.fst (hnew.source.symm.trans heq)
      exact absurd hnull (Nat.mul_ne_zero hnew.notNull (by decide))
  · exact hpresent i hi

/-- A new directory maps a page as the kernel does above 64 MB, and not at all
below. -/
theorem NewDirectory.pageFrame_eq {page : Nat} (hinv : SpaceInv m) (hnew : NewDirectory m page m')
    (virtPage : Nat) (hlt : virtPage < 2 ^ 20) :
    pageFrame m' (page * pageSize) virtPage =
      if 0x4000 ≤ virtPage then pageFrame m m.currentDirectory virtPage else none := by
  have hentry := hnew.entry (virtPage / 1024)
  by_cases hshared : 16 ≤ virtPage / 1024 ∧ virtPage / 1024 < 1024 ∧
      (m.entry m.currentDirectory (virtPage / 1024)).present = true
  · rw [if_pos hshared] at hentry
    rw [if_pos (by omega), pageFrame, pageFrame, hentry, hnew.others]
    intro heq
    exact hnew.fresh (heq ▸ hinv.inv.tableTaken _ hshared.2.2)
  · rw [if_neg hshared] at hentry
    have hnone : pageFrame m' (page * pageSize) virtPage = none := by
      rw [pageFrame, hentry]
      rfl
    rw [hnone]
    split
    next hhigh =>
      have habsent : ¬ (m.entry m.currentDirectory (virtPage / 1024)).present = true := by
        intro hpresent
        exact hshared ⟨by omega, by omega, hpresent⟩
      rw [pageFrame, if_neg fun h => habsent h.1]
    next => rfl

/-! ## A machine with 16 MB -/

/-- With 16 MB there are pages left after boot, so all tables were made and a
directory can be created. -/
theorem boot_sample : ∃ k₀, bootKernel 0x180000 0x1000000 (fun _ _ => .zero) = some k₀ ∧
    (vmmCreateDirectory pmmSource k₀.machine).1 ≠ 0 ∧
    ∀ page, page / 1024 ∈ bootIndices →
      pageFrame k₀.machine k₀.machine.kernelDirectory page = some page := by
  obtain ⟨hbooted, m, hinit⟩ := boot_sixteen_megabytes
  have hboot : bootKernel 0x180000 0x1000000 (fun _ _ => .zero) = some ⟨schedulerInit, m⟩ := by
    rw [bootKernel, hinit]
    rfl
  have hinv := bootKernel_inv ⟨by decide, by decide⟩ hboot
  obtain ⟨-, -, -, hidentity⟩ := vmmInit_spec pmmLaw_exhausts hbooted hinit
  have hleft : m.source.clear ≠ ∅ := boot_pages_left hinit
  refine ⟨⟨schedulerInit, m⟩, hboot, ?_, hidentity.resolve_left hleft⟩
  rcases pmmSource_alloc_cases hinv.inv.valid with ⟨page, -, hpage, heq⟩ | ⟨hempty, -⟩
  · have hnotNull : (pmmAllocPage pmmSource m).1 ≠ 0 := by
      change (pmmSource.alloc m.source).1 ≠ 0
      rw [heq]
      exact Nat.mul_ne_zero hpage (by decide)
    unfold vmmCreateDirectory
    dsimp only
    rw [if_neg hnotNull]
    exact hnotNull
  · exact absurd hempty hleft

/-! ## The kernel in a new directory -/

/-- Every address that the kernel directory maps is mapped by the directory
`dir` to the same place, and switching to `dir` does not move it. The machine
`m'` is the one after `dir` was created. -/
structure ContainsKernel (m m' : Machine Pmm) (dir : Nat) : Prop where
  same : ∀ virt < 2 ^ 32, ∀ frame, pageFrame m m.kernelDirectory (virt / pageSize) = some frame →
    pageFrame m' dir (virt / pageSize) = some frame
  switch : ∀ virt < 2 ^ 32, pageFrame m m.kernelDirectory (virt / pageSize) ≠ none →
    vmmGetPhysical (vmmSwitchDirectory dir m') virt = vmmGetPhysical m virt

/-- In every state the kernel reaches, a new directory contains the kernel
exactly when the kernel directory maps nothing below 64 MB. -/
theorem create_contains_kernel_iff {kernelEnd totalMemory : Nat}
    {frames : Nat → Nat → PageEntry} {k₀ : Kernel}
    (hkernel : 2 ^ 20 ≤ kernelEnd ∧ kernelEnd ≤ 2 ^ 28)
    (hboot : bootKernel kernelEnd totalMemory frames = some k₀) (ops : List SpaceOp) :
    let m := (runSpace ops k₀).machine
    let created := vmmCreateDirectory pmmSource m
    created.1 ≠ 0 →
      (ContainsKernel m created.2 created.1 ↔
        ∀ virt < 0x4000000, pageFrame m m.kernelDirectory (virt / pageSize) = none) := by
  intro m created hnotNull
  have hinv : SpaceInv m := runSpace_inv (bootKernel_inv hkernel hboot) ops
  rcases vmmCreateDirectory_cases hinv with heq | ⟨page, hdir, hnew⟩
  · exact absurd (congrArg Prod.fst heq) hnotNull
  change created.1 = _ at hdir
  change NewDirectory m page created.2 at hnew
  have hpage (virt : Nat) (hvirt : virt < 2 ^ 32) : virt / pageSize < 2 ^ 20 :=
    Nat.div_lt_of_lt_mul hvirt
  have hlow (virt : Nat) : 0x4000 ≤ virt / pageSize ↔ 0x4000000 ≤ virt :=
    Nat.le_div_iff_mul_le (by decide)
  have hframe (virt : Nat) (hvirt : virt < 2 ^ 32) :
      pageFrame created.2 created.1 (virt / pageSize) =
        if 0x4000000 ≤ virt then pageFrame m m.kernelDirectory (virt / pageSize) else none := by
    rw [hdir, hnew.pageFrame_eq hinv _ (hpage virt hvirt), hinv.current]
    simp only [hlow]
  constructor
  · intro hcontains virt hvirt
    have hlt : virt < 2 ^ 32 := hvirt.trans (by decide)
    by_contra hmapped
    obtain ⟨frame, hsome⟩ := Option.ne_none_iff_exists'.1 hmapped
    have hsame := hcontains.same virt hlt frame hsome
    rw [hframe virt hlt, if_neg (Nat.not_le.2 hvirt)] at hsame
    exact absurd hsame (by simp)
  · intro hnone
    have hsame (virt : Nat) (hvirt : virt < 2 ^ 32)
        (hmapped : pageFrame m m.kernelDirectory (virt / pageSize) ≠ none) :
        pageFrame created.2 created.1 (virt / pageSize) =
          pageFrame m m.kernelDirectory (virt / pageSize) := by
      rw [hframe virt hvirt, if_pos]
      by_contra hbelow
      exact hmapped (hnone virt (Nat.lt_of_not_le hbelow))
    constructor
    · intro virt hvirt frame hsome
      rw [hsame virt hvirt (by simp [hsome]), hsome]
    · intro virt hvirt hmapped
      rw [vmmGetPhysical_eq, vmmGetPhysical_eq, hinv.current]
      exact congrArg (addressIn · virt) (hsame virt hvirt hmapped)

theorem create_contains_kernel_iff_boot :
    ∃ k₀, bootKernel 0x180000 0x1000000 (fun _ _ => .zero) = some k₀ ∧
      (vmmCreateDirectory pmmSource k₀.machine).1 ≠ 0 ∧
      (ContainsKernel k₀.machine (vmmCreateDirectory pmmSource k₀.machine).2
          (vmmCreateDirectory pmmSource k₀.machine).1 ↔
        ∀ virt < 0x4000000,
          pageFrame k₀.machine k₀.machine.kernelDirectory (virt / pageSize) = none) := by
  obtain ⟨k₀, hboot, hnotNull, -⟩ := boot_sample
  exact ⟨k₀, hboot, hnotNull,
    create_contains_kernel_iff ⟨by decide, by decide⟩ hboot [] hnotNull⟩

/-- Right after boot the kernel image at 1 MB is mapped, and a new directory
does not map it. -/
theorem create_lacks_kernel :
    ∃ k₀, bootKernel 0x180000 0x1000000 (fun _ _ => .zero) = some k₀ ∧
      (vmmCreateDirectory pmmSource k₀.machine).1 ≠ 0 ∧
      pageFrame k₀.machine k₀.machine.kernelDirectory (0x100000 / pageSize) = some 0x100 ∧
      pageFrame (vmmCreateDirectory pmmSource k₀.machine).2
        (vmmCreateDirectory pmmSource k₀.machine).1 (0x100000 / pageSize) = none ∧
      ¬ ContainsKernel k₀.machine (vmmCreateDirectory pmmSource k₀.machine).2
        (vmmCreateDirectory pmmSource k₀.machine).1 := by
  obtain ⟨k₀, hboot, hnotNull, hidentity⟩ := boot_sample
  have hinv := bootKernel_inv ⟨by decide, by decide⟩ hboot
  have hmapped := hidentity (0x100000 / pageSize) (by decide)
  have hnone : pageFrame (vmmCreateDirectory pmmSource k₀.machine).2
      (vmmCreateDirectory pmmSource k₀.machine).1 (0x100000 / pageSize) = none := by
    rcases vmmCreateDirectory_cases hinv with heq | ⟨page, hdir, hnew⟩
    · exact absurd (congrArg Prod.fst heq) hnotNull
    · rw [hdir, hnew.pageFrame_eq hinv _ (by decide), if_neg (by decide)]
  refine ⟨k₀, hboot, hnotNull, hmapped, hnone, fun hcontains => ?_⟩
  have hsame := hcontains.same 0x100000 (by decide) _ hmapped
  rw [hnone] at hsame
  exact absurd hsame (by simp)

/-! ## Freeing a directory -/

/-- A step that only clears bits of the bitmap. -/
structure Frees (m m' : Machine Pmm) : Prop where
  frames : m'.frames = m.frames
  kernel : m'.kernelDirectory = m.kernelDirectory
  marked : m'.source.marked ⊆ m.source.marked

theorem Frees.refl (m : Machine Pmm) : Frees m m := ⟨rfl, rfl, Finset.Subset.refl _⟩

theorem Frees.trans {m'' : Machine Pmm} (hfrees : Frees m m') (hfrees' : Frees m' m'') :
    Frees m m'' :=
  ⟨hfrees'.frames.trans hfrees.frames, hfrees'.kernel.trans hfrees.kernel,
    hfrees'.marked.trans hfrees.marked⟩

theorem Frees.entry_eq (hfrees : Frees m m') (addr index : Nat) :
    m'.entry addr index = m.entry addr index := by
  rw [Machine.entry, Machine.entry, hfrees.frames]

theorem frees_foldl {α : Type} {step : Machine Pmm → α → Machine Pmm}
    (hstep : ∀ m x, Frees m (step m x)) (xs : List α) (m : Machine Pmm) :
    Frees m (xs.foldl step m) := by
  induction xs generalizing m with
  | nil => exact .refl m
  | cons x xs ih => exact (hstep m x).trans (ih _)

theorem pmmFreePage_frees (page : Nat) (m : Machine Pmm) :
    Frees m (pmmFreePage pmmSource page m) := by
  refine ⟨rfl, rfl, ?_⟩
  change (rustPmmFreePage page m.source).marked ⊆ _
  rw [Pmm.rustPmmFreePage_marked]
  split
  next => exact Finset.Subset.refl _
  next => exact Finset.erase_subset _ _

theorem pmmFreePage_notMem {page : Nat} (hpage : page ≠ 0) (m : Machine Pmm) :
    page ∉ (pmmFreePage pmmSource (page * pageSize) m).source.marked := by
  change page ∉ (rustPmmFreePage (page * pageSize) m.source).marked
  rw [Pmm.rustPmmFreePage_marked, if_neg (Nat.mul_ne_zero hpage (by decide)), mul_pageSize_div]
  exact Finset.notMem_erase _ _

theorem freeTable_frees (table : Nat) (m : Machine Pmm) :
    Frees m (freeTable pmmSource table m) := by
  unfold freeTable
  refine (frees_foldl (fun m j => ?_) _ m).trans (pmmFreePage_frees _ _)
  split
  next => exact pmmFreePage_frees _ m
  next => exact .refl m

/-- A page that one step of a loop frees is clear after the loop. -/
theorem notMem_foldl {α : Type} {step : Machine Pmm → α → Machine Pmm}
    (hstep : ∀ m x, Frees m (step m x)) {xs : List α} {x : α} (hx : x ∈ xs) {page : Nat}
    (hfree : ∀ m', Frees m m' → page ∉ (step m' x).source.marked) :
    page ∉ (xs.foldl step m).source.marked := by
  obtain ⟨before, after, rfl⟩ := List.append_of_mem hx
  rw [List.foldl_append, List.foldl_cons]
  intro hmem
  exact hfree _ (frees_foldl hstep before m) ((frees_foldl hstep after _).marked hmem)

/-- Freeing a directory frees the tables of its entries 16 to 1023. -/
theorem vmmFreeDirectory_frees_table {dir i : Nat} (hlow : 16 ≤ i) (hhigh : i < 1024)
    (hpresent : (m.entry dir i).present = true) (hnotNull : (m.entry dir i).frame ≠ 0) :
    (m.entry dir i).frame ∉ (vmmFreeDirectory pmmSource dir m).source.marked := by
  unfold vmmFreeDirectory
  dsimp only
  set lower := (List.range 16).foldl _ m
  have hfirst : Frees m lower := by
    refine frees_foldl (fun m j => ?_) _ m
    split
    next => exact freeTable_frees _ m
    next => exact .refl m
  intro hmem
  refine notMem_foldl (fun m j => ?_) (x := i) ?_ (fun m' hfrees => ?_)
    ((pmmFreePage_frees _ _).marked hmem)
  · split
    next => exact freeTable_frees _ m
    next => exact .refl m
  · rw [List.mem_range'_1]
    omega
  · rw [(hfirst.trans hfrees).entry_eq, if_pos hpresent, shiftLeft_page, freeTable]
    exact pmmFreePage_notMem hnotNull _

/-- What it takes for `vmm_create_directory` followed by `vmm_free_directory` to
be neutral for the kernel: the bitmap is as before, and neither a table of the
kernel directory nor a used page mapped through it has been freed. The machine
`m` is the one before and `m'` the one after. -/
structure SpaceNeutral (m m' : Machine Pmm) : Prop where
  marked : m'.source.marked = m.source.marked
  tables : ∀ i < 1024, (m.entry m.kernelDirectory i).present = true →
    (m.entry m.kernelDirectory i).frame ∈ m'.source.marked
  mapped : ∀ virt < 2 ^ 32, ∀ frame,
    pageFrame m m.kernelDirectory (virt / pageSize) = some frame → frame ∈ m.source.marked →
      frame ∈ m'.source.marked

/-- In no state the kernel reaches is creating and freeing a directory neutral.
Every table that the kernel directory has among its entries 16 to 1023 is freed,
and there always is one, for the last 4 MB. -/
theorem free_directory_not_neutral {kernelEnd totalMemory : Nat}
    {frames : Nat → Nat → PageEntry} {k₀ : Kernel}
    (hkernel : 2 ^ 20 ≤ kernelEnd ∧ kernelEnd ≤ 2 ^ 28)
    (hboot : bootKernel kernelEnd totalMemory frames = some k₀) (ops : List SpaceOp) :
    let m := (runSpace ops k₀).machine
    let created := vmmCreateDirectory pmmSource m
    let freed := vmmFreeDirectory pmmSource created.1 created.2
    created.1 ≠ 0 →
      ¬ SpaceNeutral m freed ∧ (m.entry m.kernelDirectory 1023).present = true ∧
      ∀ i, 16 ≤ i → i < 1024 → (m.entry m.kernelDirectory i).present = true →
        (m.entry m.kernelDirectory i).frame ∈ m.source.marked ∧
        (m.entry m.kernelDirectory i).frame ∉ freed.source.marked := by
  intro m created freed hnotNull
  have hinv : SpaceInv m := runSpace_inv (bootKernel_inv hkernel hboot) ops
  rcases vmmCreateDirectory_cases hinv with heq | ⟨page, hdir, hnew⟩
  · exact absurd (congrArg Prod.fst heq) hnotNull
  change created.1 = _ at hdir
  change NewDirectory m page created.2 at hnew
  have hlast : (m.entry m.kernelDirectory 1023).present = true :=
    hinv.current ▸ hinv.boot_of_created hnew (by decide)
  have htables (i : Nat) (hlow : 16 ≤ i) (hhigh : i < 1024)
      (hpresent : (m.entry m.kernelDirectory i).present = true) :
      (m.entry m.kernelDirectory i).frame ∈ m.source.marked ∧
        (m.entry m.kernelDirectory i).frame ∉ freed.source.marked := by
    rw [← hinv.current] at hpresent ⊢
    have hentry := hnew.entry i
    rw [if_pos ⟨hlow, hhigh, hpresent⟩, ← hdir] at hentry
    refine ⟨hinv.inv.tableTaken i hpresent, ?_⟩
    rw [← hentry]
    refine vmmFreeDirectory_frees_table hlow hhigh ?_ ?_
    · rw [hentry]
      exact hpresent
    · rw [hentry]
      exact hinv.inv.tableNotNull i hpresent
  refine ⟨fun hneutral => ?_, hlast, htables⟩
  exact (htables 1023 (by decide) (by decide) hlast).2 (hneutral.tables 1023 (by decide) hlast)

theorem free_directory_not_neutral_boot :
    ∃ k₀, bootKernel 0x180000 0x1000000 (fun _ _ => .zero) = some k₀ ∧
      (vmmCreateDirectory pmmSource k₀.machine).1 ≠ 0 ∧
      ¬ SpaceNeutral k₀.machine (vmmFreeDirectory pmmSource
        (vmmCreateDirectory pmmSource k₀.machine).1
        (vmmCreateDirectory pmmSource k₀.machine).2) := by
  obtain ⟨k₀, hboot, hnotNull, -⟩ := boot_sample
  exact ⟨k₀, hboot, hnotNull,
    (free_directory_not_neutral ⟨by decide, by decide⟩ hboot [] hnotNull).1⟩

/-- Right after boot, creating and freeing a directory frees the table of the
last 4 MB, which the kernel directory still refers to. -/
theorem free_directory_frees_kernel_table :
    ∃ k₀, bootKernel 0x180000 0x1000000 (fun _ _ => .zero) = some k₀ ∧
      (vmmCreateDirectory pmmSource k₀.machine).1 ≠ 0 ∧
      (k₀.machine.entry k₀.machine.kernelDirectory 1023).present = true ∧
      (k₀.machine.entry k₀.machine.kernelDirectory 1023).frame ∈ k₀.machine.source.marked ∧
      (k₀.machine.entry k₀.machine.kernelDirectory 1023).frame ∉
        (vmmFreeDirectory pmmSource (vmmCreateDirectory pmmSource k₀.machine).1
          (vmmCreateDirectory pmmSource k₀.machine).2).source.marked := by
  obtain ⟨k₀, hboot, hnotNull, -⟩ := boot_sample
  have hinv := bootKernel_inv ⟨by decide, by decide⟩ hboot
  rcases vmmCreateDirectory_cases hinv with heq | ⟨page, hdir, hnew⟩
  · exact absurd (congrArg Prod.fst heq) hnotNull
  have hlast := hinv.boot_of_created hnew (i := 1023) (by decide)
  have hentry := hnew.entry 1023
  rw [if_pos ⟨by decide, by decide, hlast⟩, ← hdir] at hentry
  refine ⟨k₀, hboot, hnotNull, ?_⟩
  rw [← hinv.current]
  refine ⟨hlast, hinv.inv.tableTaken _ hlast, ?_⟩
  rw [← hentry]
  refine vmmFreeDirectory_frees_table (by decide) (by decide) ?_ ?_
  · rw [hentry]
    exact hlast
  · rw [hentry]
    exact hinv.inv.tableNotNull _ hlast

end Dosfs
