import Dosfs.Memory.AddressSpace
import Dosfs.Memory.HeapPages
import Dosfs.Memory.HeapRuns

/-!
# Pages at their own address

The kernel after boot: the bitmap allocator, the page tables, the heap and the
process table together. Page tables and directories are reached at their physical
addresses, so every page handed out should be mapped to itself. The heap maps
other pages at the addresses from 4 MB on, and there this ends.
-/

namespace Dosfs

open Foundation

/-- `pmm_alloc_page` and `vmm_map_page`, as the heap calls them at its end. -/
def grabPage (virt : Nat) (m : Machine Pmm) : Bool × Machine Pmm :=
  let (page, m) := pmmAllocPage pmmSource m
  if page = 0 then (false, m)
  else
    (true, { vmmMapPage pmmSource virt page 0x3 m with heapEnd := (virt + pageSize) % 2 ^ 32 })

/-- The heap, which holds the memory manager, and the process table. -/
structure System where
  heap : Heap (Machine Pmm)
  scheduler : Scheduler

/-- `pmm_init`, `vmm_init`, `heap_init` and `scheduler_init`, with any contents
of the memory; `none` when the machine halts. -/
def bootSystem (kernelEnd totalMemory : Nat) (frames : Nat → Nat → PageEntry) (mem : Memory) :
    Option System :=
  (vmmInit pmmSource frames (rustPmmInit kernelEnd totalMemory)).map fun m => {
    heap := heapInit grabPage mem { m with heapEnd := heapStart }
    scheduler := schedulerInit }

theorem bootSystem_of_vmmInit {kernelEnd totalMemory : Nat} {frames : Nat → Nat → PageEntry}
    {m : Machine Pmm}
    (hinit : vmmInit pmmSource frames (rustPmmInit kernelEnd totalMemory) = some m) (mem : Memory) :
    bootSystem kernelEnd totalMemory frames mem =
      some ⟨heapInit grabPage mem { m with heapEnd := heapStart }, schedulerInit⟩ := by
  rw [bootSystem, hinit]
  rfl

inductive SystemOp
  | kmalloc (size : Nat)
  | kmallocAligned (size : Nat)
  | krealloc (ptr size : Nat)
  | kfree (ptr : Nat)
  | processCreate (name : CString) (entry : Nat)

/-- Perform a call; `none` when it does not return. -/
def stepSystem : SystemOp → System → Option (Nat × System)
  | .kmalloc size, s =>
      (kmalloc grabPage size s.heap).map fun (r, heap) => (r, { s with heap })
  | .kmallocAligned size, s =>
      (kmallocAligned grabPage size s.heap).map fun (r, heap) => (r, { s with heap })
  | .krealloc ptr size, s =>
      (krealloc grabPage ptr size s.heap).map fun (r, heap) => (r, { s with heap })
  | .kfree ptr, s => some (0, { s with heap := kfree ptr s.heap })
  | .processCreate name entry, s =>
      let (scheduler, machine) := processCreate pmmSource name entry s.scheduler s.heap.pages
      some (0, { heap := { s.heap with pages := machine }, scheduler })

/-! ## The invariant -/

/-- Below 64 MB the heap is mapped to used pages, all else to itself. -/
structure LowMapped (current : Nat) (m : Machine Pmm) : Prop where
  tables : ∀ i ∈ bootIndices, (m.entry m.currentDirectory i).present = true
  heap : ∀ page < 0x4000, heapStart ≤ page * pageSize → page * pageSize < current →
    ∃ frame ∈ m.source.marked, pageFrame m m.currentDirectory page = some frame
  identity : ∀ page < 0x4000, page * pageSize < heapStart ∨ current ≤ page * pageSize →
    pageFrame m m.currentDirectory page = some page

/-- The page handed out is the least clear one, and it was mapped to itself
exactly when its address was not one that the heap had mapped. -/
def Grant.Exact (g : Grant Pmm) : Prop :=
  ∃ i, IsLeast (g.source.clear : Set Nat) i ∧ g.page = i * pageSize ∧
    (g.physical = g.page ↔ g.page < heapStart ∨ g.heapEnd ≤ g.page)

/-- The invariant of the kernel, with the end of its heap. -/
structure SystemInv (current : Nat) (m : Machine Pmm) : Prop where
  space : SpaceInv m
  heapEnd : m.heapEnd = current
  low : heapStart ≤ current
  page : current % pageSize = 0
  budget : current + m.source.clear.card * pageSize ≤ heapStart + 4096 * pageSize
  total : m.source.totalPages ≤ 4096
  mapped : m.source.clear = ∅ ∨ LowMapped current m
  grants : ∀ g ∈ m.grants, g.Exact

variable {m m' : Machine Pmm} {current : Nat}

theorem grabPage_refused {virt : Nat} (hnull : (pmmAllocPage pmmSource m).1 = 0) :
    grabPage virt m = (false, (pmmAllocPage pmmSource m).2) := by
  unfold grabPage
  dsimp only
  rw [if_pos hnull]

theorem grabPage_granted {virt : Nat} (hgranted : (pmmAllocPage pmmSource m).1 ≠ 0) :
    grabPage virt m = (true, { vmmMapPage pmmSource virt (pmmAllocPage pmmSource m).1 0x3
      (pmmAllocPage pmmSource m).2 with heapEnd := (virt + pageSize) % 2 ^ 32 }) := by
  unfold grabPage
  dsimp only
  rw [if_neg hgranted]

theorem alloc_of_grabPage_true {virt : Nat} (hok : (grabPage virt m).1 = true) :
    (pmmAllocPage pmmSource m).1 ≠ 0 := by
  intro hnull
  rw [grabPage_refused hnull] at hok
  exact Bool.false_ne_true hok

theorem alloc_of_grabPage_false {virt : Nat} (hok : (grabPage virt m).1 = false) :
    (pmmAllocPage pmmSource m).1 = 0 := by
  by_contra hgranted
  rw [grabPage_granted hgranted] at hok
  exact Bool.false_ne_true hok.symm

theorem addressIn_page (frame page : Nat) :
    addressIn (some frame) (page * pageSize) = frame * pageSize := by
  have hoffset : page * pageSize &&& 0xFFF = 0 := by
    rw [show 0xFFF = 2 ^ 12 - 1 by decide, Nat.and_two_pow_sub_one_eq_mod]
    exact Nat.mul_mod_left page (2 ^ 12)
  rw [addressIn, hoffset, Nat.or_zero, shiftLeft_page]

/-- What `vmm_get_physical` says of the address of a clear page. -/
theorem LowMapped.physical_iff (hlow : LowMapped current m) {page : Nat}
    (hclear : page ∈ m.source.clear) (hpage : page < 0x4000) :
    vmmGetPhysical m (page * pageSize) = page * pageSize ↔
      page * pageSize < heapStart ∨ current ≤ page * pageSize := by
  rw [vmmGetPhysical_eq, mul_pageSize_div]
  constructor
  · intro hsame
    by_contra hheap
    obtain ⟨frame, hmarked, hframe⟩ := hlow.heap page hpage (by omega) (by omega)
    rw [hframe, addressIn_page] at hsame
    obtain rfl := Nat.eq_of_mul_eq_mul_right (by decide) hsame
    exact Pmm.notMem_marked_of_clear hclear hmarked
  · intro hout
    rw [hlow.identity page hpage hout, addressIn_page]

theorem LowMapped.step {f : Nat → Option Nat} (hlow : LowMapped current m)
    (hmaps : Maps pmmLaw m m' f)
    (hf : ∀ page < 0x4000, f page = pageFrame m m.currentDirectory page)
    (hmarked : m.source.marked ⊆ m'.source.marked) : LowMapped current m' := by
  constructor
  · intro i hi
    rw [hmaps.current, hmaps.entries i (hlow.tables i hi)]
    exact hlow.tables i hi
  · intro page hpage hstart hend
    obtain ⟨frame, hmem, hframe⟩ := hlow.heap page hpage hstart hend
    refine ⟨frame, hmarked hmem, ?_⟩
    rw [hmaps.current, hmaps.frame, hf page hpage, hframe]
  · intro page hpage hout
    rw [hmaps.current, hmaps.frame, hf page hpage, hlow.identity page hpage hout]

/-! ## Steps -/

theorem marked_subset_alloc (pmm : Pmm) : pmm.marked ⊆ (pmmSource.alloc pmm).2.marked :=
  fun page hpage => pmmLaw.alloc_mono pmm page hpage

theorem card_clear_alloc_le (pmm : Pmm) :
    (pmmSource.alloc pmm).2.clear.card ≤ pmm.clear.card :=
  (card_clear_alloc pmm).trans_le (Nat.sub_le _ 1)

/-- The call that hands out a page. -/
theorem SystemInv.granted (hinv : SystemInv current m)
    (hgranted : (pmmAllocPage pmmSource m).1 ≠ 0) :
    ∃ i, IsLeast (m.source.clear : Set Nat) i ∧ i < 4096 ∧
      (pmmAllocPage pmmSource m).1 = i * pageSize ∧
      (pmmAllocPage pmmSource m).2.source = m.source.markPage i ∧ LowMapped current m := by
  rcases pmmSource_alloc_cases hinv.space.inv.valid with ⟨i, hleast, -, heq⟩ | ⟨-, heq⟩
  · refine ⟨i, hleast, (Pmm.mem_clear.1 hleast.1).1.trans_le hinv.total, congrArg Prod.fst heq,
      congrArg Prod.snd heq, hinv.mapped.resolve_left fun hempty => ?_⟩
    exact absurd hleast.1 (by simp [hempty])
  · exact absurd (congrArg Prod.fst heq) hgranted

theorem SystemInv.alloc (hinv : SystemInv current m) :
    SystemInv current (pmmAllocPage pmmSource m).2 := by
  have hmaps := pmmAllocPage_maps hinv.space.inv
  refine ⟨hinv.space.alloc, hinv.heapEnd, hinv.low, hinv.page, ?_, ?_, ?_, ?_⟩
  · exact Nat.le_trans (Nat.add_le_add_left (Nat.mul_le_mul_right _ (card_clear_alloc_le _)) _)
      hinv.budget
  · exact (Pmm.rustPmmAllocPage_totalPages m.source).trans_le hinv.total
  · refine hinv.mapped.imp (pmmLaw_exhausts.alloc _) fun hlow => ?_
    exact hlow.step hmaps (fun _ _ => rfl) (marked_subset_alloc _)
  · intro g hg
    change g ∈ (if (pmmAllocPage pmmSource m).1 = 0 then m.grants else _) at hg
    split at hg
    next => exact hinv.grants g hg
    next hgranted =>
      obtain ⟨i, hleast, hlt, hpage, -, hlow⟩ := hinv.granted hgranted
      rcases List.mem_cons.1 hg with rfl | hg
      · refine ⟨i, hleast, hpage, ?_⟩
        change vmmGetPhysical m (pmmAllocPage pmmSource m).1 = (pmmAllocPage pmmSource m).1 ↔
          (pmmAllocPage pmmSource m).1 < heapStart ∨ m.heapEnd ≤ (pmmAllocPage pmmSource m).1
        rw [hpage, hinv.heapEnd]
        exact hlow.physical_iff hleast.1 (hlt.trans (by decide))
      · exact hinv.grants g hg

/-- What a call of `vmm_map_page` leaves in the ledger: nothing, or the page of a
new table. -/
theorem vmmMapPage_ledger {σ : Type} (src : PageSource σ) (virt phys flags : Nat)
    (m : Machine σ) :
    ∃ m₁, (m₁ = m ∨ m₁ = (pmmAllocPage src m).2) ∧
      (vmmMapPage src virt phys flags m).source = m₁.source ∧
      (vmmMapPage src virt phys flags m).grants = m₁.grants ∧
      (vmmMapPage src virt phys flags m).heapEnd = m₁.heapEnd := by
  unfold vmmMapPage getPageTable
  simp only [Bool.not_true, Bool.false_eq_true, if_false]
  split_ifs
  · exact ⟨m, Or.inl rfl, rfl, rfl, rfl⟩
  · exact ⟨m, Or.inl rfl, rfl, rfl, rfl⟩
  · exact ⟨_, Or.inr rfl, rfl, rfl, rfl⟩
  · exact ⟨_, Or.inr rfl, rfl, rfl, rfl⟩
  · exact ⟨_, Or.inr rfl, rfl, rfl, rfl⟩

/-- A step that leaves the ledger as in `m₁`. -/
theorem SystemInv.of_ledger {m₁ : Machine Pmm} (hinv : SystemInv current m₁)
    (hspace : SpaceInv m') (hsource : m'.source = m₁.source) (hgrants : m'.grants = m₁.grants)
    (hheapEnd : m'.heapEnd = m₁.heapEnd)
    (hmapped : m'.source.clear = ∅ ∨ LowMapped current m') : SystemInv current m' where
  space := hspace
  heapEnd := hheapEnd.trans hinv.heapEnd
  low := hinv.low
  page := hinv.page
  budget := by
    rw [hsource]
    exact hinv.budget
  total := by
    rw [hsource]
    exact hinv.total
  mapped := hmapped
  grants := by
    rw [hgrants]
    exact hinv.grants

/-- Mapping an address above 64 MB. -/
theorem SystemInv.mapPage_high (hinv : SystemInv current m) {virt : Nat}
    (hvirt : 0x4000 ≤ virt / pageSize) (phys flags : Nat) :
    SystemInv current (vmmMapPage pmmSource virt phys flags m) := by
  obtain ⟨m₁, hm₁, hsource, hgrants, hheapEnd⟩ := vmmMapPage_ledger pmmSource virt phys flags m
  have hinv₁ : SystemInv current m₁ := by
    rcases hm₁ with rfl | rfl
    · exact hinv
    · exact hinv.alloc
  have hmarked : m.source.marked ⊆ m₁.source.marked := by
    rcases hm₁ with rfl | rfl
    · exact Finset.Subset.refl _
    · exact marked_subset_alloc _
  have hclear (hempty : m.source.clear = ∅) : m₁.source.clear = ∅ := by
    rcases hm₁ with rfl | rfl
    · exact hempty
    · exact pmmLaw_exhausts.alloc _ hempty
  refine hinv₁.of_ledger (hinv.space.mapPage virt phys flags) hsource hgrants hheapEnd ?_
  rw [hsource]
  refine hinv.mapped.imp hclear fun hlow => ?_
  by_cases hsucceeds : mapSucceeds pmmSource virt m
  · refine hlow.step (vmmMapPage_maps hinv.space.inv virt phys flags hsucceeds)
      (fun page hpage => ?_) (hsource ▸ hmarked)
    exact Function.update_of_ne (by omega) _ _
  · exact hlow.step (vmmMapPage_fails hinv.space.inv virt phys flags hsucceeds).1
      (fun _ _ => rfl) (hsource ▸ hmarked)

theorem SystemInv.processCreate (hinv : SystemInv current m) (name : CString) (entry : Nat)
    (s : Scheduler) : SystemInv current (processCreate pmmSource name entry s m).2 := by
  have hspace := hinv.space.processCreate name entry s
  have hresult := processCreate_result pmmSource name entry s m
  generalize (Dosfs.processCreate pmmSource name entry s m).2 = m' at hresult hspace ⊢
  cases hresult with
  | refused => exact hinv
  | noKernelStack hkstack => exact hinv.alloc
  | created virt hlow hhigh hkstack hustack =>
      refine hinv.alloc.alloc.mapPage_high ?_ _ _
      exact (Nat.le_div_iff_mul_le (by decide)).2 (Nat.le_trans (by decide) hlow)
  | noUserStack hkstack hustack =>
      have hmarked := noUserStack_marked hinv.space.inv.valid hkstack hustack
      have htotal := noUserStack_totalPages m
      have hclear : (pmmFreePage pmmSource (pmmAllocPage pmmSource m).1
          (pmmAllocPage pmmSource (pmmAllocPage pmmSource m).2).2).source.clear =
            m.source.clear := by
        rw [Pmm.clear, Pmm.clear, htotal, hmarked]
      refine ⟨hspace, hinv.heapEnd, hinv.low, hinv.page, ?_, ?_, ?_, hinv.alloc.alloc.grants⟩
      · rw [hclear]
        exact hinv.budget
      · rw [htotal]
        exact hinv.total
      · rw [hclear]
        refine hinv.mapped.imp_right fun hlow => ⟨hlow.tables, ?_, hlow.identity⟩
        rw [hmarked]
        exact hlow.heap

/-- Mapping an address whose table is there leaves the ledger. -/
theorem vmmMapPage_present {σ : Type} (src : PageSource σ) {virt : Nat} (phys flags : Nat)
    {m : Machine σ} (hpresent : (m.entry m.currentDirectory (dirIndex virt)).present = true) :
    (vmmMapPage src virt phys flags m).source = m.source ∧
      (vmmMapPage src virt phys flags m).grants = m.grants ∧
      (vmmMapPage src virt phys flags m).heapEnd = m.heapEnd := by
  unfold vmmMapPage getPageTable
  simp only [hpresent, if_true]
  split_ifs
  · exact ⟨rfl, rfl, rfl⟩
  · exact ⟨rfl, rfl, rfl⟩

theorem mapSucceeds_of_present {virt : Nat} (hinv : SpaceInv m)
    (hpresent : (m.entry m.currentDirectory (dirIndex virt)).present = true) :
    mapSucceeds pmmSource virt m :=
  (hinv.inv.mapSucceeds_iff virt).2 (.inl hpresent)

theorem SpaceInv.withEnd (hinv : SpaceInv m) (heapEnd : Nat) :
    SpaceInv { m with heapEnd } :=
  ⟨hinv.current, hinv.inv.of_same rfl rfl, hinv.boot⟩

/-- The heap is mapped one page further. -/
theorem LowMapped.extend {frame : Nat} (hlow : LowMapped current m)
    (hstart : heapStart ≤ current) (hpage : current % pageSize = 0)
    (hmaps : Maps pmmLaw m m' (Function.update (pageFrame m m.currentDirectory)
      (current / pageSize) (some frame)))
    (hsource : m'.source = m.source) (hmarked : frame ∈ m.source.marked) :
    LowMapped (current + pageSize) m' := by
  constructor
  · intro i hi
    rw [hmaps.current, hmaps.entries i (hlow.tables i hi)]
    exact hlow.tables i hi
  · intro page hlt hinside hend
    rw [hmaps.current, hmaps.frame, hsource]
    by_cases hnew : page = current / pageSize
    · exact ⟨frame, hmarked, by rw [hnew, Function.update_self]⟩
    · rw [Function.update_of_ne hnew]
      refine hlow.heap page hlt hinside ?_
      simp only [pageSize] at hpage hend hnew ⊢
      omega
  · intro page hlt hout
    have hnew : page ≠ current / pageSize := by
      rintro rfl
      rw [Nat.div_mul_cancel (Nat.dvd_of_mod_eq_zero hpage)] at hout
      simp only [pageSize] at hout
      omega
    rw [hmaps.current, hmaps.frame, Function.update_of_ne hnew]
    refine hlow.identity page hlt (hout.imp_right fun hle => ?_)
    exact Nat.le_of_add_right_le hle

/-- What a successful `grabPage` does. The table for the end of the heap is there,
so the page is the only one taken. -/
theorem SystemInv.grabPage_eq (hinv : SystemInv current m)
    (hgranted : (pmmAllocPage pmmSource m).1 ≠ 0) :
    ∃ i, IsLeast (m.source.clear : Set Nat) i ∧ i < 4096 ∧ current + pageSize < 0x2000000 ∧
      ((pmmAllocPage pmmSource m).2.entry (pmmAllocPage pmmSource m).2.currentDirectory
        (dirIndex current)).present = true ∧
      grabPage current m =
        (true, { vmmMapPage pmmSource current (i * pageSize) 0x3 (pmmAllocPage pmmSource m).2 with
          heapEnd := current + pageSize }) ∧
      (vmmMapPage pmmSource current (i * pageSize) 0x3 (pmmAllocPage pmmSource m).2).source =
        m.source.markPage i ∧
      (vmmMapPage pmmSource current (i * pageSize) 0x3 (pmmAllocPage pmmSource m).2).grants =
        ⟨m.source, m.heapEnd, i * pageSize, vmmGetPhysical m (i * pageSize)⟩ :: m.grants := by
  obtain ⟨i, hleast, hlt, hpage, hsource, hlow⟩ := hinv.granted hgranted
  have hlow₁ := hlow.step (pmmAllocPage_maps hinv.space.inv) (fun _ _ => rfl)
    (marked_subset_alloc _)
  have hroom : current + pageSize < 0x2000000 := by
    have hcard := Nat.mul_le_mul_right pageSize (Finset.card_pos.2 ⟨i, hleast.1⟩)
    have hbudget := hinv.budget
    simp only [heapStart, pageSize] at hbudget hcard ⊢
    omega
  have hindex : dirIndex current ∈ bootIndices := by
    rw [dirIndex_eq]
    refine List.mem_append_left _ (List.mem_range.2 ?_)
    simp only [pageSize] at hroom ⊢
    omega
  have hpresent := hlow₁.tables _ hindex
  obtain ⟨hsource₂, hgrants₂, -⟩ :=
    vmmMapPage_present pmmSource (i * pageSize) 0x3 hpresent
  refine ⟨i, hleast, hlt, hroom, hpresent, ?_, hsource₂.trans hsource, hgrants₂.trans ?_⟩
  · rw [grabPage_granted hgranted, hpage, Nat.mod_eq_of_lt (hroom.trans (by decide))]
  · rw [← hpage]
    exact if_neg hgranted

/-- The heap maps a page it was granted at its end. -/
theorem SystemInv.grab (hinv : SystemInv current m) (hgranted : (grabPage current m).1 = true) :
    SystemInv ((current + pageSize) % 2 ^ 32) (grabPage current m).2 := by
  have hnotNull := alloc_of_grabPage_true hgranted
  obtain ⟨-, -, -, -, hsource₁, hlow⟩ := hinv.granted hnotNull
  obtain ⟨i, hleast, hlt, hroom, hpresent, hgrab, hsource, hgrants⟩ := hinv.grabPage_eq hnotNull
  have hinv₁ := hinv.alloc
  have hlow₁ := hlow.step (pmmAllocPage_maps hinv.space.inv) (fun _ _ => rfl)
    (marked_subset_alloc _)
  have hmaps := vmmMapPage_maps hinv₁.space.inv current (i * pageSize) 0x3
    (mapSucceeds_of_present hinv₁.space hpresent)
  rw [shiftRight_page (hlt.trans (by decide))] at hmaps
  obtain ⟨hsource₂, hgrants₂, -⟩ := vmmMapPage_present pmmSource (i * pageSize) 0x3 hpresent
  have hmarked : i ∈ (pmmAllocPage pmmSource m).2.source.marked := by
    rw [← hsource₂, hsource, Pmm.markPage_marked (Pmm.mem_clear.1 hleast.1).1]
    exact Finset.mem_insert_self _ _
  have hextended := hlow₁.extend hinv.low hinv.page hmaps hsource₂ hmarked
  rw [hgrab, Nat.mod_eq_of_lt (hroom.trans (by decide))]
  constructor
  · exact (hinv₁.space.mapPage _ _ _).withEnd _
  · rfl
  · exact Nat.le_add_right_of_le hinv.low
  · rw [Nat.add_mod_right]
    exact hinv.page
  · have hcard : (m.source.markPage i).clear.card + 1 = m.source.clear.card := by
      rw [Pmm.markPage_clear hleast.1, Finset.card_erase_add_one hleast.1]
    have hbudget := hinv.budget
    rw [← hcard, Nat.succ_mul] at hbudget
    dsimp only
    rw [hsource]
    omega
  · dsimp only
    rw [hsource₂]
    exact hinv₁.total
  · exact Or.inr ⟨hextended.tables, hextended.heap, hextended.identity⟩
  · dsimp only
    rw [hgrants₂]
    exact hinv₁.grants

theorem systemInv_stable : PageStable grabPage SystemInv where
  granted _ _ hinv hok := hinv.grab hok
  refused current m hinv hok := by
    rw [grabPage_refused (alloc_of_grabPage_false hok)]
    exact hinv.alloc

/-! ## Runs -/

theorem allocs_totalPages (count : Nat) (pmm : Pmm) :
    ((fun s => (pmmSource.alloc s).2)^[count] pmm).totalPages = pmm.totalPages := by
  induction count generalizing pmm with
  | zero => rfl
  | succ count ih =>
      rw [Function.iterate_succ_apply, ih]
      exact Pmm.rustPmmAllocPage_totalPages pmm

theorem rustPmmInit_totalPages {kernelEnd totalMemory : Nat} (htotal : totalMemory ≤ 0x1000000) :
    (rustPmmInit kernelEnd totalMemory).totalPages ≤ 4096 := by
  have hpages : totalMemory / pageSize ≤ 4096 := Nat.div_le_of_le_mul htotal
  unfold rustPmmInit
  dsimp only
  split
  next hmore => exact Nat.le_trans (Nat.le_of_lt hmore) hpages
  next => exact hpages

/-- The kernel before `heap_init`. -/
theorem vmmInit_systemInv {kernelEnd totalMemory : Nat} {frames : Nat → Nat → PageEntry}
    (hkernel : 2 ^ 20 ≤ kernelEnd ∧ kernelEnd ≤ 2 ^ 28) (htotal : totalMemory ≤ 0x1000000)
    (hinit : vmmInit pmmSource frames (rustPmmInit kernelEnd totalMemory) = some m) :
    SystemInv heapStart { m with heapEnd := heapStart } := by
  have hspace : SpaceInv m := by
    have hkernelBoot : bootKernel kernelEnd totalMemory frames = some ⟨schedulerInit, m⟩ := by
      rw [bootKernel, hinit]
      rfl
    exact bootKernel_inv hkernel hkernelBoot
  obtain ⟨-, hmapped, hsource, hidentity⟩ :=
    vmmInit_spec pmmLaw_exhausts (rustPmmInit_booted hkernel totalMemory) hinit
  have hpages : m.source.totalPages ≤ 4096 := by
    rw [hsource, allocs_totalPages]
    exact rustPmmInit_totalPages htotal
  have hcard : m.source.clear.card ≤ 4096 := by
    rw [Pmm.clear_card]
    omega
  refine ⟨hspace.withEnd _, rfl, Nat.le_refl _, by decide, ?_, hpages, ?_, ?_⟩
  · exact Nat.add_le_add_left (Nat.mul_le_mul_right _ hcard) _
  · have hlow (hpresent : ∀ i ∈ bootIndices, (m.entry m.currentDirectory i).present = true)
        (hpage : ∀ page, page / 1024 ∈ bootIndices →
          pageFrame m m.kernelDirectory page = some page) : LowMapped heapStart m := by
      refine ⟨hpresent, fun page _ hstart hend => absurd hend (Nat.not_lt.2 hstart), ?_⟩
      intro page hlt _
      rw [hspace.current]
      refine hpage page (List.mem_append_left _ (List.mem_range.2 ?_))
      omega
    rcases hspace.boot with hempty | hpresent
    · exact Or.inl hempty
    · refine hidentity.imp_right fun hpage => ?_
      obtain ⟨htables, hheap, hid⟩ := hlow hpresent hpage
      exact ⟨htables, hheap, hid⟩
  · intro g hg
    change g ∈ m.grants at hg
    rw [hmapped.grants] at hg
    exact absurd hg List.not_mem_nil

theorem bootSystem_inv {kernelEnd totalMemory : Nat} {frames : Nat → Nat → PageEntry}
    {mem : Memory} {s : System} (hkernel : 2 ^ 20 ≤ kernelEnd ∧ kernelEnd ≤ 2 ^ 28)
    (htotal : totalMemory ≤ 0x1000000)
    (hboot : bootSystem kernelEnd totalMemory frames mem = some s) : s.heap.Keeps SystemInv := by
  obtain ⟨m, hinit, rfl⟩ := Option.map_eq_some_iff.1 hboot
  exact heapInit_keeps systemInv_stable mem (vmmInit_systemInv hkernel htotal hinit)

/-- A property that the heap and `process_create` keep. -/
structure SystemStable (inv : Nat → Machine Pmm → Prop) : Prop where
  pages : PageStable grabPage inv
  create : ∀ current m name entry s, inv current m →
    inv current (processCreate pmmSource name entry s m).2

theorem systemInv_systemStable : SystemStable SystemInv where
  pages := systemInv_stable
  create _ _ name entry s hinv := hinv.processCreate name entry s

section

variable {inv : Nat → Machine Pmm → Prop}

theorem stepSystem_keeps (hstable : SystemStable inv) {op : SystemOp} {s s' : System} {r : Nat}
    (hstep : stepSystem op s = some (r, s')) (hinv : s.heap.Keeps inv) : s'.heap.Keeps inv := by
  cases op with
  | kmalloc size =>
      obtain ⟨⟨r', h⟩, hcall, heq⟩ := Option.map_eq_some_iff.1 hstep
      obtain ⟨-, rfl⟩ := Prod.mk.inj heq
      exact kmalloc_keeps hstable.pages hcall hinv
  | kmallocAligned size =>
      obtain ⟨⟨r', h⟩, hcall, heq⟩ := Option.map_eq_some_iff.1 hstep
      obtain ⟨-, rfl⟩ := Prod.mk.inj heq
      exact kmallocAligned_keeps hstable.pages hcall hinv
  | krealloc ptr size =>
      obtain ⟨⟨r', h⟩, hcall, heq⟩ := Option.map_eq_some_iff.1 hstep
      obtain ⟨-, rfl⟩ := Prod.mk.inj heq
      exact krealloc_keeps hstable.pages hcall hinv
  | kfree ptr =>
      obtain ⟨-, rfl⟩ := Prod.mk.inj (Option.some.inj hstep)
      exact kfree_keeps ptr hinv
  | processCreate name entry =>
      obtain ⟨-, rfl⟩ := Prod.mk.inj (Option.some.inj hstep)
      exact hstable.create _ _ name entry s.scheduler hinv

theorem runSystem_keeps (hstable : SystemStable inv) {s₀ s : System} {ops : List SystemOp}
    {rs : List Nat} (hrun : runAll stepSystem ops s₀ = some (rs, s)) (hinv : s₀.heap.Keeps inv) :
    s.heap.Keeps inv := by
  have hgood : ∀ r ∈ rs, (fun _ => True) r := fun _ _ => trivial
  exact runAll_preserves (fun _ s => s.heap.Keeps inv)
    (fun _ _ _ _ _ hs hstep _ => stepSystem_keeps hstable hstep hs) hrun hgood hinv

end

theorem runSystem_inv {kernelEnd totalMemory : Nat} {frames : Nat → Nat → PageEntry}
    {mem : Memory} {s₀ s : System} {ops : List SystemOp} {rs : List Nat}
    (hkernel : 2 ^ 20 ≤ kernelEnd ∧ kernelEnd ≤ 2 ^ 28) (htotal : totalMemory ≤ 0x1000000)
    (hboot : bootSystem kernelEnd totalMemory frames mem = some s₀)
    (hrun : runAll stepSystem ops s₀ = some (rs, s)) : s.heap.Keeps SystemInv :=
  runSystem_keeps systemInv_systemStable hrun (bootSystem_inv hkernel htotal hboot)

/-- Before the call, the least clear page is not one whose address the heap has
mapped. -/
def Grant.Unmoved (g : Grant Pmm) : Prop :=
  ∀ i, IsLeast (g.source.clear : Set Nat) i → i * pageSize < heapStart ∨ g.heapEnd ≤ i * pageSize

theorem Grant.Exact.iff_unmoved {g : Grant Pmm} (hexact : g.Exact) :
    g.physical = g.page ↔ g.Unmoved := by
  obtain ⟨i, hleast, hpage, hiff⟩ := hexact
  rw [hiff, hpage]
  constructor
  · intro hout j hj
    rw [hj.unique hleast]
    exact hout
  · exact fun hunmoved => hunmoved i hleast

/-- In every run after boot with at most 16 MB, all pages handed out are mapped to
themselves if and only if the least clear page was never one that the heap had
mapped something else at. -/
theorem pages_at_own_address_iff {kernelEnd totalMemory : Nat} {frames : Nat → Nat → PageEntry}
    {mem : Memory} {s₀ s : System} {ops : List SystemOp} {rs : List Nat}
    (hkernel : 2 ^ 20 ≤ kernelEnd ∧ kernelEnd ≤ 2 ^ 28) (htotal : totalMemory ≤ 0x1000000)
    (hboot : bootSystem kernelEnd totalMemory frames mem = some s₀)
    (hrun : runAll stepSystem ops s₀ = some (rs, s)) :
    (∀ g ∈ s.heap.pages.grants, g.physical = g.page) ↔
      ∀ g ∈ s.heap.pages.grants, g.Unmoved := by
  have hinv := runSystem_inv hkernel htotal hboot hrun
  exact forall₂_congr fun g hg => (hinv.grants g hg).iff_unmoved

theorem pages_at_own_address_iff_boot :
    ∃ s₀ rs s, bootSystem 0x180000 0x1000000 (fun _ _ => .zero) (fun _ => 0) = some s₀ ∧
      runAll stepSystem [.processCreate (CString.ofBuffer []) 0x100000] s₀ = some (rs, s) ∧
      ((∀ g ∈ s.heap.pages.grants, g.physical = g.page) ↔
        ∀ g ∈ s.heap.pages.grants, g.Unmoved) := by
  obtain ⟨-, m, hinit⟩ := boot_sixteen_megabytes
  have hboot := bootSystem_of_vmmInit hinit fun _ => 0
  have hreturns (s₀ : System) : ∃ rs s,
      runAll stepSystem [.processCreate (CString.ofBuffer []) 0x100000] s₀ = some (rs, s) :=
    ⟨_, _, rfl⟩
  obtain ⟨rs, s, hrun⟩ := hreturns _
  exact ⟨_, rs, s, hboot, hrun,
    pages_at_own_address_iff ⟨by decide, by decide⟩ (by decide) hboot hrun⟩

/-! ## A run that meets the heap -/

/-- When the clear pages are the ones from `a` on, the heap is granted `a`. -/
theorem grabPage_Ico (hinv : SystemInv current m) {a b : Nat}
    (hclear : m.source.clear = Finset.Ico a b) (hlt : a < b) :
    (grabPage current m).1 = true ∧ (current + pageSize) % 2 ^ 32 = current + pageSize ∧
      (grabPage current m).2.source.clear = Finset.Ico (a + 1) b ∧
      ∃ physical, (grabPage current m).2.grants =
        ⟨m.source, current, a * pageSize, physical⟩ :: m.grants := by
  have hmem : a ∈ m.source.clear := by
    rw [hclear]
    exact Finset.left_mem_Ico.2 hlt
  have hgranted : (pmmAllocPage pmmSource m).1 ≠ 0 := by
    rcases pmmSource_alloc_cases hinv.space.inv.valid with ⟨page, -, hpage, heq⟩ | ⟨hempty, -⟩
    · change (pmmSource.alloc m.source).1 ≠ 0
      rw [heq]
      exact Nat.mul_ne_zero hpage (by decide)
    · rw [hempty] at hmem
      exact absurd hmem (Finset.notMem_empty a)
  obtain ⟨i, hleast, -, hroom, -, hgrab, hsource, hgrants⟩ := hinv.grabPage_eq hgranted
  have hi : i = a := by
    have hle := hleast.2 hmem
    have hge : a ≤ i := (Finset.mem_Ico.1 (hclear ▸ hleast.1)).1
    omega
  subst hi
  rw [hgrab]
  refine ⟨rfl, Nat.mod_eq_of_lt (hroom.trans (by decide)), ?_, _, hinv.heapEnd ▸ hgrants⟩
  dsimp only
  rw [hsource, Pmm.markPage_clear hmem, hclear]
  ext j
  simp only [Finset.mem_erase, Finset.mem_Ico]
  omega

/-- The heap grows by the pages from `a` on, one after the other. -/
theorem growPages_Ico {b : Nat} (count : Nat) {h : Heap (Machine Pmm)}
    (hkeeps : h.Keeps SystemInv) {a : Nat} (hclear : h.pages.source.clear = Finset.Ico a b)
    (hcount : a + count ≤ b) :
    (growPages grabPage count h).1 = true ∧
      (∀ g ∈ h.pages.grants, g ∈ (growPages grabPage count h).2.pages.grants) ∧
      ∀ j < count, ∃ g ∈ (growPages grabPage count h).2.pages.grants,
        g.page = (a + j) * pageSize ∧ g.heapEnd = h.heapCurrent + j * pageSize := by
  induction count generalizing h a with
  | zero => exact ⟨rfl, fun g hg => hg, fun j hj => absurd hj (Nat.not_lt_zero j)⟩
  | succ count ih =>
      obtain ⟨hok, hwrap, hclear', physical, hgrants⟩ := grabPage_Ico hkeeps hclear (by omega)
      have hkeeps' := systemInv_stable.granted _ _ hkeeps hok
      obtain ⟨hall, hold, hnew⟩ := @ih { h with
        mem := memset h.mem h.heapCurrent 0 pageSize
        heapCurrent := (h.heapCurrent + pageSize) % 2 ^ 32
        pages := (grabPage h.heapCurrent h.pages).2 } hkeeps' (a + 1) hclear' (by omega)
      have hstep : growPages grabPage (count + 1) h = growPages grabPage count { h with
          mem := memset h.mem h.heapCurrent 0 pageSize
          heapCurrent := (h.heapCurrent + pageSize) % 2 ^ 32
          pages := (grabPage h.heapCurrent h.pages).2 } := by
        rw [growPages]
        simp only [hok, Bool.not_true, Bool.false_eq_true, if_false]
      rw [hstep]
      refine ⟨hall, fun g hg => hold g ?_, fun j hj => ?_⟩
      · dsimp only
        rw [hgrants]
        exact List.mem_cons_of_mem _ hg
      · cases j with
        | zero =>
            refine ⟨_, hold ⟨h.pages.source, h.heapCurrent, a * pageSize, physical⟩ ?_, ?_, ?_⟩
            · dsimp only
              rw [hgrants]
              exact List.mem_cons_self
            · rfl
            · rw [Nat.zero_mul]
              rfl
        | succ j =>
            obtain ⟨g, hg, hpage, hend⟩ := hnew j (by omega)
            refine ⟨g, hg, ?_, ?_⟩
            · rw [hpage, show a + 1 + j = a + (j + 1) by omega]
            · rw [hend, Nat.succ_mul]
              dsimp only
              rw [hwrap]
              omega

/-- The same for the first pages of the heap. -/
theorem initPages_Ico {b : Nat} (count : Nat) {h : Heap (Machine Pmm)}
    (hkeeps : h.Keeps SystemInv) {a : Nat} (hclear : h.pages.source.clear = Finset.Ico a b)
    (hcount : a + count ≤ b) :
    (initPages grabPage count h).1 = count ∧
      (initPages grabPage count h).2.heapCurrent = h.heapCurrent + count * pageSize ∧
      (initPages grabPage count h).2.pages.source.clear = Finset.Ico (a + count) b := by
  induction count generalizing h a with
  | zero => exact ⟨rfl, (Nat.zero_mul pageSize).symm ▸ rfl, hclear⟩
  | succ count ih =>
      obtain ⟨hok, hwrap, hclear', -⟩ := grabPage_Ico hkeeps hclear (by omega)
      have hkeeps' := systemInv_stable.granted _ _ hkeeps hok
      obtain ⟨hmapped, hcurrent, hleft⟩ := @ih { h with
        heapCurrent := (h.heapCurrent + pageSize) % 2 ^ 32
        pages := (grabPage h.heapCurrent h.pages).2 } hkeeps' (a + 1) hclear' (by omega)
      rw [initPages]
      simp only [hok, Bool.not_true, Bool.false_eq_true, if_false]
      refine ⟨by rw [hmapped], hcurrent.trans ?_, hleft.trans ?_⟩
      · dsimp only
        rw [hwrap, Nat.succ_mul]
        omega
      · rw [show a + 1 + count = a + (count + 1) by omega]

theorem grabPage_budget : PageBudget grabPage fun m => m.source.clear.card where
  granted virt m hok := by
    have hgranted := alloc_of_grabPage_true hok
    have hsource : (grabPage virt m).2.source = (vmmMapPage pmmSource virt
        (pmmAllocPage pmmSource m).1 0x3 (pmmAllocPage pmmSource m).2).source := by
      rw [grabPage_granted hgranted]
    have hcard : (pmmAllocPage pmmSource m).2.source.clear.card + 1 = m.source.clear.card := by
      change (rustPmmAllocPage m.source).2.clear.card + 1 = _
      rcases Pmm.rustPmmAllocPage_cases m.source with ⟨page, hleast, heq⟩ | ⟨-, heq⟩
      · rw [heq, Pmm.markPage_clear hleast.1, Finset.card_erase_add_one hleast.1]
      · exact absurd (congrArg Prod.fst heq) hgranted
    obtain ⟨m₁, hm₁, hledger, -⟩ := vmmMapPage_ledger pmmSource virt
      (pmmAllocPage pmmSource m).1 0x3 (pmmAllocPage pmmSource m).2
    rw [hsource, hledger, ← hcard]
    refine Nat.succ_le_succ ?_
    rcases hm₁ with rfl | rfl
    · exact Nat.le_refl _
    · exact card_clear_alloc_le _
  refused virt m hok := by
    rw [grabPage_refused (alloc_of_grabPage_false hok)]
    exact card_clear_alloc_le _

theorem allocs_Ico {b : Nat} (count : Nat) {pmm : Pmm} (hbooted : pmm.Booted) {a : Nat}
    (hclear : pmm.clear = Finset.Ico a b) (hcount : a + count ≤ b) :
    ((fun s => (pmmSource.alloc s).2)^[count] pmm).clear = Finset.Ico (a + count) b := by
  induction count generalizing pmm a with
  | zero => exact hclear
  | succ count ih =>
      have hmem : a ∈ pmm.clear := by
        rw [hclear]
        exact Finset.left_mem_Ico.2 (by omega)
      have hclear' : (pmmSource.alloc pmm).2.clear = Finset.Ico (a + 1) b := by
        rcases pmmSource_alloc_cases hbooted with ⟨i, hleast, -, heq⟩ | ⟨hempty, -⟩
        · have hle := hleast.2 hmem
          have hge := (Finset.mem_Ico.1 (hclear ▸ hleast.1)).1
          obtain rfl : i = a := by omega
          rw [heq, Pmm.markPage_clear hmem, hclear]
          ext j
          simp only [Finset.mem_erase, Finset.mem_Ico]
          omega
        · rw [hempty] at hmem
          exact absurd hmem (Finset.notMem_empty a)
      rw [Function.iterate_succ_apply, ih hbooted.alloc hclear' (by omega),
        show a + 1 + count = a + (count + 1) by omega]

theorem clear_sixteen_megabytes :
    (rustPmmInit 0x180000 0x1000000).clear = Finset.Ico 384 4096 := by
  ext page
  have htotal : (rustPmmInit 0x180000 0x1000000).totalPages = 4096 := rfl
  rw [mem_clear_rustPmmInit ⟨by decide, by decide⟩, htotal, Finset.mem_Ico, Pmm.Reserved]
  simp only [pageSize]
  omega

theorem heapInit_current (mem : Memory) (pages : Machine Pmm) :
    (heapInit grabPage mem pages).heapCurrent =
      (initPages grabPage 64 ⟨mem, 0, heapStart, pages⟩).2.heapCurrent := by
  unfold heapInit
  dsimp only
  rw [show pagesFor (256 * 1024) = 64 by decide]
  split_ifs <;> rfl

theorem heapInit_pages (mem : Memory) (pages : Machine Pmm) :
    (heapInit grabPage mem pages).pages =
      (initPages grabPage 64 ⟨mem, 0, heapStart, pages⟩).2.pages := by
  unfold heapInit
  dsimp only
  rw [show pagesFor (256 * 1024) = 64 by decide]
  split_ifs <;> rfl

/-- With 16 MB and a kernel image that ends at 1.5 MB, `heap_init` leaves the
pages from 466 on. -/
theorem boot_heap : ∃ s₀, bootSystem 0x180000 0x1000000 (fun _ _ => .zero) (fun _ => 0) = some s₀ ∧
    s₀.heap.heapCurrent = 0x440000 ∧ s₀.heap.pages.source.clear = Finset.Ico 466 4096 ∧
    ∃ blocks, HeapInv (fun m => m.source.clear.card) s₀.heap blocks [] := by
  obtain ⟨hbooted, m, hinit⟩ := boot_sixteen_megabytes
  have hboot := bootSystem_of_vmmInit hinit fun _ => 0
  have hinv := vmmInit_systemInv ⟨by decide, by decide⟩ (by decide) hinit
  have hclear : m.source.clear = Finset.Ico 402 4096 := by
    rw [(vmmInit_spec pmmLaw_exhausts hbooted hinit).2.2.1]
    exact allocs_Ico 18 hbooted clear_sixteen_megabytes (by decide)
  obtain ⟨hmapped, hcurrent, hleft⟩ :=
    initPages_Ico 64 (show Heap.Keeps ⟨fun _ => 0, 0, heapStart, _⟩ SystemInv from hinv)
      hclear (by decide)
  refine ⟨_, hboot, ?_, ?_, ?_⟩
  · rw [heapInit_current, hcurrent]
    change heapStart + 64 * pageSize = 0x440000
    decide
  · rw [heapInit_pages]
    exact hleft
  · refine heapInit_spec grabPage_budget _ _ ?_
    dsimp only
    rw [hclear, Nat.card_Ico]
    simp only [bitmapSize]
    omega

/-- Growing the heap by 2.5 MB uses up the pages below 4 MB. The page at 4 MB is
handed out while its address is the start of the heap. -/
theorem kmalloc_aligned_meets_heap :
    ∃ s₀ rs s, bootSystem 0x180000 0x1000000 (fun _ _ => .zero) (fun _ => 0) = some s₀ ∧
      runAll stepSystem [.kmallocAligned 0x280000] s₀ = some (rs, s) ∧
      ∃ g ∈ s.heap.pages.grants, g.page = 0x400000 ∧ g.physical ≠ g.page := by
  obtain ⟨s₀, hboot, hcurrent, hclear, blocks, hheap⟩ := boot_heap
  have hkeeps := bootSystem_inv ⟨by decide, by decide⟩ (by decide) hboot
  obtain ⟨r, h, hcall, -⟩ := kmallocAligned_spec grabPage_budget hheap
    (mappable_of_le (show 0x280000 ≤ 2 ^ 31 - 1 by decide))
  have hrun : runAll stepSystem [.kmallocAligned 0x280000] s₀ =
      some ([r], { s₀ with heap := h }) := by
    simp [runAll, stepSystem, hcall]
  obtain ⟨hall, -, hnew⟩ := growPages_Ico 641 hkeeps hclear (by decide)
  obtain ⟨g, hg, hpage, hend⟩ := hnew 558 (by decide)
  have hgranted : g ∈ h.pages.grants := by
    unfold kmallocAligned at hcall
    rw [if_neg (by decide)] at hcall
    dsimp only at hcall
    rw [show pagesFor ((blockSize + align4 0x280000) % 2 ^ 32) = 641 by decide,
      hall, Bool.not_true, if_neg Bool.false_ne_true] at hcall
    obtain ⟨h', happend, heq⟩ := Option.map_eq_some_iff.1 hcall
    obtain ⟨-, rfl⟩ := Prod.mk.inj heq
    have hkept := @appendBlock_keeps (Machine Pmm) (fun _ m => g ∈ m.grants) _ _ _ _ happend
    exact hkept hg
  obtain ⟨i, -, -, hiff⟩ :=
    (runSystem_inv ⟨by decide, by decide⟩ (by decide) hboot hrun).grants g hgranted
  have haddress : g.page = 0x400000 := hpage
  refine ⟨s₀, [r], _, hboot, hrun, g, hgranted, haddress, fun hsame => ?_⟩
  have hout := hiff.1 hsame
  rw [haddress, hend, hcurrent] at hout
  exact absurd hout (by decide)

end Dosfs
