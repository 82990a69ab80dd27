import Mathlib.Order.Interval.Finset.Nat
import Dosfs.Memory.PageTables

/-!
# Page tables refine a partial map

Mapping and unmapping update one page of the partial map that the current
directory stands for, and `vmm_init` starts from the identity on the first 64 MB
and the last 4 MB. The allocator is any source of fresh pages; the bitmap
allocator is one.
-/

namespace Dosfs

variable {σ : Type} {src : PageSource σ} {law : PageLaw src} {m : Machine σ}

/-! ## The operations -/

/-- A step from `m` to `m'` that stays in the same directory, keeps the
invariant and the tables that are entered, and turns the map of the directory
into `frames`. -/
structure Maps (law : PageLaw src) (m m' : Machine σ) (frames : Nat → Option Nat) : Prop where
  current : m'.currentDirectory = m.currentDirectory
  kernel : m'.kernelDirectory = m.kernelDirectory
  inv : TableInv law m' m.currentDirectory
  entries : ∀ i, (m.entry m.currentDirectory i).present = true →
    m'.entry m.currentDirectory i = m.entry m.currentDirectory i
  frame : ∀ page, pageFrame m' m.currentDirectory page = frames page

theorem Maps.physical {m' : Machine σ} {frames : Nat → Option Nat} (hmaps : Maps law m m' frames)
    (virt : Nat) : vmmGetPhysical m' virt = addressIn (frames (virt / pageSize)) virt := by
  rw [vmmGetPhysical_eq, hmaps.current, hmaps.frame]

theorem Maps.trans {m' m'' : Machine σ} {frames frames' : Nat → Option Nat}
    (hmaps : Maps law m m' frames) (hmaps' : Maps law m' m'' frames') : Maps law m m'' frames' where
  current := hmaps'.current.trans hmaps.current
  kernel := hmaps'.kernel.trans hmaps.kernel
  inv := hmaps.current ▸ hmaps'.inv
  entries i hi := by
    have hkept := hmaps.entries i hi
    rw [← hkept] at hi ⊢
    exact hmaps.current ▸ hmaps'.entries i (hmaps.current ▸ hi)
  frame := hmaps.current ▸ hmaps'.frame

/-- A step that leaves the taken pages alone changes no mapping. -/
theorem TableInv.maps_of_frames {m' : Machine σ} (hinv : TableInv law m m.currentDirectory)
    (hcurrent : m'.currentDirectory = m.currentDirectory)
    (hkernel : m'.kernelDirectory = m.kernelDirectory)
    (hframes : ∀ page, law.taken m.source page → m'.frames page = m.frames page)
    (hvalid : law.valid m'.source)
    (hmono : ∀ page, law.taken m.source page → law.taken m'.source page) :
    Maps law m m' (pageFrame m m.currentDirectory) := by
  have hentry (i : Nat) : m'.entry m.currentDirectory i = m.entry m.currentDirectory i := by
    rw [Machine.entry, Machine.entry, hframes _ hinv.dirTaken]
  refine ⟨hcurrent, hkernel, ?_, fun i _ => hentry i,
    fun page => pageFrame_congr (hentry _) fun hpresent _ => ?_⟩
  · constructor
    · exact hvalid
    · exact hmono _ hinv.dirTaken
    · intro i hi
      rw [hentry] at hi ⊢
      exact hmono _ (hinv.tableTaken i hi)
    · simpa only [hentry] using hinv.tableNotNull
    · simpa only [hentry] using hinv.tableNotDir
    · simpa only [hentry] using hinv.distinct
  · rw [hframes _ (hinv.tableTaken _ hpresent)]

theorem pmmAllocPage_maps (hinv : TableInv law m m.currentDirectory) :
    Maps law m (pmmAllocPage src m).2 (pageFrame m m.currentDirectory) :=
  hinv.maps_of_frames rfl rfl (fun _ _ => rfl) (law.alloc_valid _ hinv.valid) (law.alloc_mono _)

/-- Getting a table changes no mapping, and the table it returns is entered. -/
theorem getPageTable_maps (hinv : TableInv law m m.currentDirectory) {index addr : Nat}
    {m' : Machine σ} (hresult : TableResult src law m m.currentDirectory index addr m') :
    Maps law m m' (pageFrame m m.currentDirectory) ∧ (addr = 0 → m'.frames = m.frames) ∧
      (addr ≠ 0 → (m'.entry m.currentDirectory index).present = true ∧
        addr = (m'.entry m.currentDirectory index).frame * pageSize) := by
  cases hresult with
  | found hpresent =>
      exact ⟨⟨rfl, rfl, hinv, fun _ _ => rfl, fun _ => rfl⟩, fun _ => rfl, fun _ => ⟨hpresent, rfl⟩⟩
  | failed m' habsent halloc =>
      have hm' : m' = (pmmAllocPage src m).2 := by rw [halloc]
      subst hm'
      exact ⟨pmmAllocPage_maps hinv, fun _ => rfl, fun hne => absurd rfl hne⟩
  | created table m' habsent halloc htable hfresh htaken =>
      have hm' : m' = (pmmAllocPage src m).2 := by rw [halloc]
      subst hm'
      have hdir : table ≠ m.currentDirectory / pageSize := by
        rintro rfl
        exact hfresh hinv.dirTaken
      have hframes : (pmmAllocPage src m).2.frames = m.frames := rfl
      have hentry := @entry_enterTable _ m m.currentDirectory _ index table
        (fun _ => .zero) hframes hdir
      have hfold : ((pmmAllocPage src m).2.zeroPage (table * pageSize)).storeEntry
          m.currentDirectory index ⟨true, true, false, table⟩ =
            (pmmAllocPage src m).2.enterTable m.currentDirectory index table fun _ => .zero := rfl
      rw [hfold, hentry, if_pos rfl]
      refine ⟨⟨rfl, rfl, ?_, fun i hi => ?_, fun page => ?_⟩, fun hnull => ?_, fun _ => ?_⟩
      · exact hinv.enterTable hframes (law.alloc_valid _ hinv.valid) (law.alloc_mono _) htable
          hfresh htaken
      · rw [hentry, if_neg]
        rintro rfl
        rw [habsent] at hi
        exact Bool.false_ne_true hi
      · rw [pageFrame_enterTable hinv hframes htable hfresh]
        split
        next hindex => simp [pageFrame, hindex, habsent, PageEntry.zero]
        next hindex => rfl
      · exact absurd hnull (Nat.mul_ne_zero htable (by decide))
      · exact ⟨rfl, rfl⟩

/-- Mapping the page of an address succeeds when its table is there or can be
made. -/
def mapSucceeds (src : PageSource σ) (virt : Nat) (m : Machine σ) : Prop :=
  (getPageTable src m.currentDirectory (dirIndex virt) true m).1 ≠ 0

instance (virt : Nat) : Decidable (mapSucceeds src virt m) :=
  inferInstanceAs (Decidable (_ ≠ _))

/-- A call succeeds if and only if the table is there or a page is left for it. -/
theorem TableInv.mapSucceeds_iff (hinv : TableInv law m m.currentDirectory) (virt : Nat) :
    mapSucceeds src virt m ↔
      (m.entry m.currentDirectory (dirIndex virt)).present = true ∨ (src.alloc m.source).1 ≠ 0 := by
  rw [mapSucceeds, getPageTable]
  split
  next hpresent =>
    rw [shiftLeft_page]
    exact iff_of_true (Nat.mul_ne_zero (hinv.tableNotNull _ hpresent) (by decide)) (.inl hpresent)
  next habsent =>
    rw [or_iff_right habsent, if_neg (by decide)]
    change (if (src.alloc m.source).1 = 0 then _ else _ : Nat × Machine σ).1 ≠ 0 ↔ _
    split
    next hnull => exact iff_of_false (not_not.2 rfl) (not_not.2 hnull)
    next hnotNull => exact iff_of_true hnotNull hnotNull

theorem page_eq_iff (virt page : Nat) :
    page / 1024 = dirIndex virt ∧ page % 1024 = tableIndex virt ↔ page = virt / pageSize := by
  rw [dirIndex_eq, tableIndex_eq]
  omega

theorem vmmMapPage_maps (hinv : TableInv law m m.currentDirectory) (virt phys flags : Nat)
    (hsucceeds : mapSucceeds src virt m) :
    Maps law m (vmmMapPage src virt phys flags m)
      (Function.update (pageFrame m m.currentDirectory) (virt / pageSize)
        (some ((phys >>> 12) % 2 ^ 20))) := by
  obtain ⟨hmaps, -, hentered⟩ := getPageTable_maps hinv
    (getPageTable_result hinv.valid m.currentDirectory (dirIndex virt))
  obtain ⟨hpresent, haddr⟩ := hentered hsucceeds
  rw [vmmMapPage]
  dsimp only
  rw [if_neg hsucceeds, haddr]
  refine ⟨hmaps.current, hmaps.kernel, hmaps.inv.storeEntry hpresent, fun i hi => ?_,
    fun page => ?_⟩
  · rw [entry_storeEntry_table hmaps.inv hpresent, hmaps.entries i hi]
  · rw [pageFrame_storeEntry hmaps.inv hpresent, hmaps.frame]
    simp only [page_eq_iff, if_true, Function.update_apply]

/-- A failed call changes neither the entries nor the directories. -/
theorem vmmMapPage_fails (hinv : TableInv law m m.currentDirectory) (virt phys flags : Nat)
    (hfails : ¬ mapSucceeds src virt m) :
    Maps law m (vmmMapPage src virt phys flags m) (pageFrame m m.currentDirectory) ∧
      (vmmMapPage src virt phys flags m).frames = m.frames := by
  obtain ⟨hmaps, hframes, -⟩ := getPageTable_maps hinv
    (getPageTable_result hinv.valid m.currentDirectory (dirIndex virt))
  have hnull := not_not.1 hfails
  rw [vmmMapPage]
  dsimp only
  rw [if_pos hnull]
  exact ⟨hmaps, hframes hnull⟩

theorem TableInv.mapPage (hinv : TableInv law m m.currentDirectory) (virt phys flags : Nat) :
    (vmmMapPage src virt phys flags m).currentDirectory = m.currentDirectory ∧
      TableInv law (vmmMapPage src virt phys flags m) m.currentDirectory := by
  by_cases hsucceeds : mapSucceeds src virt m
  · have hmaps := vmmMapPage_maps hinv virt phys flags hsucceeds
    exact ⟨hmaps.current, hmaps.inv⟩
  · have hmaps := (vmmMapPage_fails hinv virt phys flags hsucceeds).1
    exact ⟨hmaps.current, hmaps.inv⟩

theorem vmmUnmapPage_maps (hinv : TableInv law m m.currentDirectory) (virt : Nat) :
    Maps law m (vmmUnmapPage src virt m)
      (Function.update (pageFrame m m.currentDirectory) (virt / pageSize) none) := by
  rw [vmmUnmapPage, getPageTable]
  cases hpresent : (m.entry m.currentDirectory (dirIndex virt)).present with
  | true =>
      have hnull := hinv.tableNotNull _ hpresent
      simp only [if_true, shiftLeft_page]
      rw [if_neg (Nat.mul_ne_zero hnull (by decide))]
      refine ⟨rfl, rfl, hinv.storeEntry hpresent,
        fun i _ => entry_storeEntry_table hinv hpresent i, fun page => ?_⟩
      rw [pageFrame_storeEntry hinv hpresent]
      simp only [page_eq_iff, Bool.false_eq_true, if_false, Function.update_apply]
  | false =>
      simp only [Bool.false_eq_true, if_false, Bool.not_false, if_true]
      refine ⟨rfl, rfl, hinv, fun _ _ => rfl, fun page => ?_⟩
      rw [Function.update_apply]
      split
      next hpage =>
        rw [← (page_eq_iff virt page).2 hpage |>.1] at hpresent
        simp [pageFrame, hpresent]
      next hpage => rfl

/-! ## Initialisation -/

/-- A directory that maps pages to themselves only, with its tables in order. -/
structure IdentityMapped (law : PageLaw src) (m : Machine σ) : Prop where
  inv : TableInv law m m.kernelDirectory
  identity : ∀ page frame, pageFrame m m.kernelDirectory page = some frame → frame = page
  grants : m.grants = []

/-- One table of the identity map: no page is left, or a fresh page is entered. -/
theorem identityMap_cases (hvalid : law.valid m.source) (index : Nat) :
    ((src.alloc m.source).1 = 0 ∧ identityMap src index (index * 1024 * pageSize) m =
      { m with source := (src.alloc m.source).2 }) ∨
    ∃ table, (src.alloc m.source).1 = table * pageSize ∧ table ≠ 0 ∧
      ¬ law.taken m.source table ∧ law.taken (src.alloc m.source).2 table ∧
      identityMap src index (index * 1024 * pageSize) m =
        ({ m with source := (src.alloc m.source).2 } : Machine σ).enterTable m.kernelDirectory
          index table fun j => ⟨true, true, false, index * 1024 + j⟩ := by
  unfold identityMap
  dsimp only
  by_cases hnull : (src.alloc m.source).1 = 0
  · rw [if_pos hnull]
    exact Or.inl ⟨hnull, rfl⟩
  · obtain ⟨table, htable, hlt, hfresh, htaken⟩ := law.alloc_fresh _ hvalid hnull
    have hne : table ≠ 0 := by
      rintro rfl
      exact hnull (by rw [htable, Nat.zero_mul])
    have hentry (j : Nat) :
        (index * 1024 * pageSize + j * pageSize) >>> 12 = index * 1024 + j := by
      rw [Nat.shiftRight_eq_div_pow, ← Nat.add_mul]
      exact mul_pageSize_div _
    rw [if_neg hnull]
    refine Or.inr ⟨table, htable, hne, hfresh, htaken, ?_⟩
    simp only [hentry, htable, shiftRight_page hlt]
    rfl

/-- Entering one more identity-mapped table. -/
theorem identityMap_spec (hmapped : IdentityMapped law m) (index : Nat) :
    IdentityMapped law (identityMap src index (index * 1024 * pageSize) m) ∧
      (identityMap src index (index * 1024 * pageSize) m).source = (src.alloc m.source).2 ∧
      (identityMap src index (index * 1024 * pageSize) m).kernelDirectory = m.kernelDirectory ∧
      ∀ page,
        pageFrame (identityMap src index (index * 1024 * pageSize) m) m.kernelDirectory page =
          if page / 1024 = index ∧ (src.alloc m.source).1 ≠ 0 then some page
          else pageFrame m m.kernelDirectory page := by
  obtain ⟨hinv, hidentity, hgrants⟩ := hmapped
  have hvalid := law.alloc_valid _ hinv.valid
  rcases @identityMap_cases _ src law m hinv.valid index with
    ⟨hnull, heq⟩ | ⟨table, htable, hne, hfresh, htaken, heq⟩
  · rw [heq]
    refine ⟨⟨⟨hvalid, law.alloc_mono _ _ hinv.dirTaken, fun i hi => ?_, hinv.tableNotNull,
      hinv.tableNotDir, hinv.distinct⟩, hidentity, hgrants⟩, rfl, rfl, fun page => ?_⟩
    · exact law.alloc_mono _ _ (hinv.tableTaken i hi)
    · rw [if_neg fun h => h.2 hnull]
      rfl
  · have hframe := @pageFrame_enterTable _ _ law m m.kernelDirectory
      { m with source := (src.alloc m.source).2 } index table
      (fun j => ⟨true, true, false, index * 1024 + j⟩) hinv rfl hne hfresh
    have hpage (page : Nat) (hindex : page / 1024 = index) : index * 1024 + page % 1024 = page := by
      omega
    have hnotNull : (src.alloc m.source).1 ≠ 0 := by
      rw [htable]
      exact Nat.mul_ne_zero hne (by decide)
    rw [heq]
    refine ⟨⟨hinv.enterTable rfl hvalid (law.alloc_mono _) hne hfresh htaken, ?_, hgrants⟩, rfl,
      rfl, fun page => ?_⟩
    · intro page frame hmaps
      have hold := (hframe page).symm.trans hmaps
      split at hold
      next hindex =>
        rw [if_pos rfl, hpage page hindex] at hold
        exact (Option.some.inj hold).symm
      next => exact hidentity page frame hold
    · rw [hframe]
      by_cases hindex : page / 1024 = index
      · rw [if_pos hindex, if_pos rfl, if_pos ⟨hindex, hnotNull⟩, hpage page hindex]
      · rw [if_neg hindex, if_neg fun h => hindex h.1]

/-- The invariant depends on the allocator and the entries only. -/
theorem TableInv.of_same {m' : Machine σ} {dir : Nat} (hinv : TableInv law m dir)
    (hsource : m'.source = m.source) (hframes : m'.frames = m.frames) : TableInv law m' dir := by
  have hentry (i : Nat) : m'.entry dir i = m.entry dir i := by
    rw [Machine.entry, Machine.entry, hframes]
  constructor
  · rw [hsource]
    exact hinv.valid
  · rw [hsource]
    exact hinv.dirTaken
  · simpa only [hentry, hsource] using hinv.tableTaken
  · simpa only [hentry] using hinv.tableNotNull
  · simpa only [hentry] using hinv.tableNotDir
  · simpa only [hentry] using hinv.distinct

/-- An allocator that has failed once and stays without pages. -/
structure Exhausts (law : PageLaw src) (empty : σ → Prop) : Prop where
  of_null : ∀ s, law.valid s → (src.alloc s).1 = 0 → empty (src.alloc s).2
  alloc : ∀ s, empty s → empty (src.alloc s).2

/-- Pages are mapped to themselves in the given parts of the directory, unless
the allocator ran out of pages. -/
def IdentityIn (m : Machine σ) (empty : σ → Prop) (indices : List Nat) : Prop :=
  empty m.source ∨
    ∀ page, page / 1024 ∈ indices → pageFrame m m.kernelDirectory page = some page

theorem identityMaps_spec {empty : σ → Prop} (hempty : Exhausts law empty) {done : List Nat}
    (indices : List Nat) (hmapped : IdentityMapped law m) (hdone : IdentityIn m empty done) :
    let m' := indices.foldl (fun m i => identityMap src i (i * 1024 * pageSize) m) m
    IdentityMapped law m' ∧ m'.kernelDirectory = m.kernelDirectory ∧
      m'.source = (fun s => (src.alloc s).2)^[indices.length] m.source ∧
      IdentityIn m' empty (done ++ indices) := by
  induction indices generalizing m done with
  | nil =>
      refine ⟨hmapped, rfl, rfl, ?_⟩
      rw [List.append_nil]
      exact hdone
  | cons index indices ih =>
      obtain ⟨hmapped', hsource, hkernel, hframe⟩ := identityMap_spec hmapped index
      have hdone' : IdentityIn (identityMap src index (index * 1024 * pageSize) m) empty
          (done ++ [index]) := by
        rcases hdone with hout | hdone
        · exact Or.inl (hsource ▸ hempty.alloc _ hout)
        · by_cases hnull : (src.alloc m.source).1 = 0
          · exact Or.inl (hsource ▸ hempty.of_null _ hmapped.inv.valid hnull)
          · refine Or.inr fun page hpage => ?_
            rw [hkernel, hframe]
            split
            next => rfl
            next hother =>
              rcases List.mem_append.1 hpage with hpage | hpage
              · exact hdone page hpage
              · exact absurd ⟨List.mem_singleton.1 hpage, hnull⟩ hother
      obtain ⟨hfinal, hkernel', hsource', hdone''⟩ := ih hmapped' hdone'
      refine ⟨hfinal, hkernel'.trans hkernel, ?_, ?_⟩
      · rw [List.length_cons, Function.iterate_succ_apply, ← hsource]
        exact hsource'
      · rw [← List.singleton_append, ← List.append_assoc]
        exact hdone''

theorem identityMaps_outside (indices : List Nat) (hmapped : IdentityMapped law m) {page : Nat}
    (hpage : page / 1024 ∉ indices) :
    pageFrame (indices.foldl (fun m i => identityMap src i (i * 1024 * pageSize) m) m)
      m.kernelDirectory page = pageFrame m m.kernelDirectory page := by
  induction indices generalizing m with
  | nil => rfl
  | cons index indices ih =>
      obtain ⟨hmapped', -, hkernel, hframe⟩ := identityMap_spec hmapped index
      have hother : page / 1024 ≠ index := fun heq => hpage (heq ▸ List.mem_cons_self)
      have hrest := ih hmapped' fun hmem => hpage (List.mem_cons_of_mem _ hmem)
      rw [hkernel, hframe, if_neg fun h => hother h.1] at hrest
      exact hrest

/-- The parts of the directory that `vmm_init` fills. -/
def bootIndices : List Nat := List.range 16 ++ [1023]

/-- The machine while the kernel directory is still empty. -/
def emptyDirectory (src : PageSource σ) (frames : Nat → Nat → PageEntry) (source : σ) : Machine σ :=
  Machine.zeroPage {
    source := (src.alloc source).2, frames, currentDirectory := 0,
    kernelDirectory := (src.alloc source).1, heapEnd := 0, grants := [] } (src.alloc source).1

theorem emptyDirectory_absent (src : PageSource σ) (frames : Nat → Nat → PageEntry) (source : σ)
    (i : Nat) : ((emptyDirectory src frames source).entry
      (emptyDirectory src frames source).kernelDirectory i).present = false := by
  have hzero := @Machine.entry_storePage _ {
    source := (src.alloc source).2, frames, currentDirectory := 0,
    kernelDirectory := (src.alloc source).1, heapEnd := 0, grants := [] } (src.alloc source).1
    (src.alloc source).1 i fun _ => .zero
  rw [if_pos rfl] at hzero
  exact congrArg PageEntry.present hzero

theorem emptyDirectory_mapped {frames : Nat → Nat → PageEntry} {source : σ}
    (hvalid : law.valid source) (hnotNull : (src.alloc source).1 ≠ 0) :
    IdentityMapped law (emptyDirectory src frames source) := by
  obtain ⟨dir, hdir, -, -, htaken⟩ := law.alloc_fresh source hvalid hnotNull
  have hentry := emptyDirectory_absent src frames source
  refine ⟨⟨law.alloc_valid _ hvalid, ?_, ?_, ?_, ?_, ?_⟩, ?_, rfl⟩
  · change law.taken (src.alloc source).2 ((src.alloc source).1 / pageSize)
    rw [hdir, mul_pageSize_div]
    exact htaken
  · exact fun i hi => absurd hi (by rw [hentry]; exact Bool.false_ne_true)
  · exact fun i hi => absurd hi (by rw [hentry]; exact Bool.false_ne_true)
  · exact fun i hi => absurd hi (by rw [hentry]; exact Bool.false_ne_true)
  · exact fun i _ hi => absurd hi (by rw [hentry]; exact Bool.false_ne_true)
  · intro page frame hmaps
    rw [pageFrame, hentry] at hmaps
    exact absurd hmaps (by simp)

/-- `vmm_init` makes the tables of the first 64 MB and of the last 4 MB. -/
theorem vmmInit_eq {frames : Nat → Nat → PageEntry} {source : σ}
    (hinit : vmmInit src frames source = some m) :
    (src.alloc source).1 ≠ 0 ∧
      m = { identityMap src 1023 (1023 * 1024 * pageSize)
          ((List.range 16).foldl (fun m i => identityMap src i (i * 1024 * pageSize) m)
            (emptyDirectory src frames source)) with
        currentDirectory := (identityMap src 1023 (1023 * 1024 * pageSize)
          ((List.range 16).foldl (fun m i => identityMap src i (i * 1024 * pageSize) m)
            (emptyDirectory src frames source))).kernelDirectory } := by
  unfold vmmInit at hinit
  dsimp only at hinit
  by_cases hnull : (src.alloc source).1 = 0
  · rw [if_pos hnull] at hinit
    exact absurd hinit (by simp)
  · rw [if_neg hnull, show 0xFFC00000 >>> 22 = 1023 by decide,
      show 0xFFC00000 = 1023 * 1024 * pageSize by decide] at hinit
    exact ⟨hnull, (Option.some.inj hinit).symm⟩

/-- After `vmm_init` the kernel directory is the current one, and it maps the
first 64 MB and the last 4 MB to themselves, as far as there were pages. -/
theorem vmmInit_spec {empty : σ → Prop} (hempty : Exhausts law empty)
    {frames : Nat → Nat → PageEntry} {source : σ} (hvalid : law.valid source)
    (hinit : vmmInit src frames source = some m) :
    m.currentDirectory = m.kernelDirectory ∧ IdentityMapped law m ∧
      m.source = (fun s => (src.alloc s).2)^[18] source ∧ IdentityIn m empty bootIndices := by
  obtain ⟨hnotNull, rfl⟩ := vmmInit_eq hinit
  have hmapped : IdentityMapped law (emptyDirectory src frames source) :=
    emptyDirectory_mapped hvalid hnotNull
  have hnone : IdentityIn (emptyDirectory src frames source) empty [] :=
    Or.inr fun page hpage => absurd hpage List.not_mem_nil
  obtain ⟨hfinal, -, hsource, hdone⟩ := identityMaps_spec hempty bootIndices hmapped hnone
  rw [bootIndices, List.foldl_append, List.foldl_cons, List.foldl_nil] at hfinal hsource hdone
  exact ⟨rfl, ⟨hfinal.inv.of_same rfl rfl, hfinal.identity, hfinal.grants⟩, hsource, hdone⟩

/-- Nothing else is mapped. -/
theorem vmmInit_outside {frames : Nat → Nat → PageEntry} {source : σ} (hvalid : law.valid source)
    (hinit : vmmInit src frames source = some m) {page : Nat} (hpage : page / 1024 ∉ bootIndices) :
    pageFrame m m.currentDirectory page = none := by
  obtain ⟨hnotNull, rfl⟩ := vmmInit_eq hinit
  have hmapped : IdentityMapped law (emptyDirectory src frames source) :=
    emptyDirectory_mapped hvalid hnotNull
  have hempty : Exhausts law fun _ => True := ⟨fun _ _ _ => trivial, fun _ _ => trivial⟩
  have hkernel := (@identityMaps_spec _ _ _ _ _ hempty [] bootIndices hmapped (Or.inl trivial)).2.1
  have houtside := identityMaps_outside bootIndices hmapped hpage
  have hnone : pageFrame (emptyDirectory src frames source)
      (emptyDirectory src frames source).kernelDirectory page = none := by
    rw [pageFrame, emptyDirectory_absent]
    simp
  rw [hnone, ← hkernel, bootIndices, List.foldl_append, List.foldl_cons, List.foldl_nil]
    at houtside
  exact houtside

/-! ## The bitmap allocator as the source of pages -/

/-- `pmm_alloc_page` and `pmm_free_page`. -/
def pmmSource : PageSource Pmm := ⟨rustPmmAllocPage, rustPmmFreePage⟩

/-- Page zero is never handed out, and the pages are within the bitmap. -/
def Pmm.Booted (pmm : Pmm) : Prop := pmm.totalPages ≤ bitmapSize * 8 ∧ 0 ∉ pmm.clear

theorem Pmm.markPage_clear {pmm : Pmm} {i : Nat} (hi : i ∈ pmm.clear) :
    (pmm.markPage i).clear = pmm.clear.erase i := by
  have hlt := (mem_clear.1 hi).1
  rw [clear, markPage_marked hlt, clear]
  ext j
  simp only [Finset.mem_sdiff, Finset.mem_insert, not_or, Finset.mem_erase]
  exact ⟨fun h => ⟨h.2.1, h.1, h.2.2⟩, fun h => ⟨h.2.1, h.1, h.2.2⟩⟩

theorem pmmSource_alloc_cases {pmm : Pmm} (hbooted : pmm.Booted) :
    (∃ page, IsLeast (pmm.clear : Set Nat) page ∧ page ≠ 0 ∧
      pmmSource.alloc pmm = (page * pageSize, pmm.markPage page)) ∨
    (pmm.clear = ∅ ∧ pmmSource.alloc pmm = (0, pmm)) := by
  rcases Pmm.rustPmmAllocPage_cases pmm with ⟨page, hleast, heq⟩ | hfull
  · refine Or.inl ⟨page, hleast, ?_, heq⟩
    rintro rfl
    exact hbooted.2 hleast.1
  · exact Or.inr hfull

/-- A clear page is handed out. -/
theorem alloc_of_clear {m : Machine Pmm} (hbooted : m.source.Booted)
    (hclear : 1 ≤ m.source.clear.card) : (pmmAllocPage pmmSource m).1 ≠ 0 := by
  change (pmmSource.alloc m.source).1 ≠ 0
  rcases pmmSource_alloc_cases hbooted with ⟨page, -, hpage, heq⟩ | ⟨hempty, -⟩
  · rw [heq]
    exact Nat.mul_ne_zero hpage (by decide)
  · rw [hempty] at hclear
    exact absurd hclear (by decide)

theorem Pmm.Booted.alloc {pmm : Pmm} (hbooted : pmm.Booted) : (pmmSource.alloc pmm).2.Booted := by
  rcases pmmSource_alloc_cases hbooted with ⟨page, hleast, -, heq⟩ | ⟨-, heq⟩
  · rw [heq]
    refine ⟨hbooted.1, ?_⟩
    rw [markPage_clear hleast.1]
    exact fun h => hbooted.2 (Finset.mem_of_mem_erase h)
  · rw [heq]
    exact hbooted

/-- The bitmap allocator hands out fresh pages. -/
def pmmLaw : PageLaw pmmSource where
  valid := Pmm.Booted
  taken pmm page := page ∈ pmm.marked
  alloc_valid _ hbooted := hbooted.alloc
  alloc_mono pmm page htaken := by
    rcases Pmm.rustPmmAllocPage_cases pmm with ⟨i, hleast, heq⟩ | ⟨-, heq⟩
    · change page ∈ (rustPmmAllocPage pmm).2.marked
      rw [heq, Pmm.markPage_marked (Pmm.mem_clear.1 hleast.1).1]
      exact Finset.mem_insert_of_mem htaken
    · change page ∈ (rustPmmAllocPage pmm).2.marked
      rw [heq]
      exact htaken
  alloc_fresh pmm hbooted hnotNull := by
    rcases pmmSource_alloc_cases hbooted with ⟨page, hleast, -, heq⟩ | ⟨-, heq⟩
    · have hlt := (Pmm.mem_clear.1 hleast.1).1
      rw [heq]
      refine ⟨page, rfl, ?_, Pmm.notMem_marked_of_clear hleast.1, ?_⟩
      · calc page < pmm.totalPages := hlt
          _ ≤ bitmapSize * 8 := hbooted.1
          _ < 2 ^ 20 := by decide
      · rw [Pmm.markPage_marked hlt]
        exact Finset.mem_insert_self _ _
    · rw [heq] at hnotNull
      exact absurd rfl hnotNull

/-- Once the bitmap is full it stays full. -/
theorem pmmLaw_exhausts : Exhausts pmmLaw fun pmm => pmm.clear = ∅ where
  of_null pmm hbooted hnull := by
    rcases pmmSource_alloc_cases hbooted with ⟨page, -, hpage, heq⟩ | ⟨hempty, heq⟩
    · rw [heq] at hnull
      exact absurd hnull (Nat.mul_ne_zero hpage (by decide))
    · rw [heq]
      exact hempty
  alloc pmm hempty := by
    rcases Pmm.rustPmmAllocPage_cases pmm with ⟨i, hleast, -⟩ | ⟨-, heq⟩
    · exact absurd hleast.1 (by simp [hempty])
    · change (rustPmmAllocPage pmm).2.clear = ∅
      rw [heq]
      exact hempty

/-- Boot with the given kernel image and memory leaves page zero reserved. -/
theorem rustPmmInit_booted {kernelEnd : Nat} (hkernel : 2 ^ 20 ≤ kernelEnd ∧ kernelEnd ≤ 2 ^ 28)
    (totalMemory : Nat) : (rustPmmInit kernelEnd totalMemory).Booted := by
  refine ⟨?_, fun hclear => ?_⟩
  · unfold rustPmmInit
    dsimp only
    split
    next => exact le_rfl
    next hfits => exact Nat.le_of_not_lt hfits
  · have hfree := (Pmm.mem_clear.1 hclear).2
    have hreserved := (Pmm.rustPmmInit_test hkernel totalMemory 0).2 (Or.inl (by omega))
    rw [hfree] at hreserved
    exact absurd hreserved Bool.false_ne_true

/-- `vmm_init` does not halt while a page is clear. -/
theorem vmmInit_boots {pmm : Pmm} (hbooted : pmm.Booted) (frames : Nat → Nat → PageEntry)
    (hclear : pmm.clear ≠ ∅) : ∃ m, vmmInit pmmSource frames pmm = some m := by
  rcases pmmSource_alloc_cases hbooted with ⟨page, -, hpage, heq⟩ | ⟨hempty, -⟩
  · have hnotNull : (pmmSource.alloc pmm).1 ≠ 0 := by
      rw [heq]
      exact Nat.mul_ne_zero hpage (by decide)
    unfold vmmInit
    dsimp only
    rw [if_neg hnotNull]
    exact ⟨_, rfl⟩
  · exact absurd hempty hclear

theorem mem_clear_rustPmmInit {kernelEnd totalMemory page : Nat}
    (hkernel : 2 ^ 20 ≤ kernelEnd ∧ kernelEnd ≤ 2 ^ 28) :
    page ∈ (rustPmmInit kernelEnd totalMemory).clear ↔
      page < (rustPmmInit kernelEnd totalMemory).totalPages ∧ ¬ Pmm.Reserved kernelEnd page := by
  rw [Pmm.mem_clear, ← Pmm.rustPmmInit_test hkernel totalMemory page, Bool.not_eq_true]

/-- A machine with 16 MB and a kernel image that ends at 1.5 MB. -/
theorem boot_sixteen_megabytes :
    (rustPmmInit 0x180000 0x1000000).Booted ∧
      ∃ m, vmmInit pmmSource (fun _ _ => .zero) (rustPmmInit 0x180000 0x1000000) = some m := by
  have hbooted := @rustPmmInit_booted 0x180000 ⟨by decide, by decide⟩ 0x1000000
  refine ⟨hbooted, vmmInit_boots hbooted _ (Finset.ne_empty_of_mem (a := 1024) ?_)⟩
  rw [mem_clear_rustPmmInit ⟨by decide, by decide⟩]
  refine ⟨by decide, ?_⟩
  rintro (hkernel | hvga)
  · exact absurd hkernel (by decide)
  · exact absurd hvga (by decide)

theorem card_clear_alloc (pmm : Pmm) :
    (pmmSource.alloc pmm).2.clear.card = pmm.clear.card - 1 := by
  rcases Pmm.rustPmmAllocPage_cases pmm with ⟨page, hleast, heq⟩ | ⟨hempty, heq⟩
  · change (rustPmmAllocPage pmm).2.clear.card = _
    rw [heq, Pmm.markPage_clear hleast.1, Finset.card_erase_of_mem hleast.1]
  · change (rustPmmAllocPage pmm).2.clear.card = _
    rw [heq, hempty]
    rfl

theorem card_clear_allocs (pmm : Pmm) (count : Nat) :
    pmm.clear.card ≤ ((fun s => (pmmSource.alloc s).2)^[count] pmm).clear.card + count := by
  induction count with
  | zero => exact le_rfl
  | succ count ih =>
      rw [Function.iterate_succ_apply']
      have hstep := card_clear_alloc ((fun s => (pmmSource.alloc s).2)^[count] pmm)
      omega

/-- After that boot there are pages left. -/
theorem boot_pages_left {m : Machine Pmm}
    (hinit : vmmInit pmmSource (fun _ _ => .zero) (rustPmmInit 0x180000 0x1000000) = some m) :
    m.source.clear ≠ ∅ := by
  obtain ⟨-, -, hsource, -⟩ := vmmInit_spec pmmLaw_exhausts boot_sixteen_megabytes.1 hinit
  have hmany : 3072 ≤ (rustPmmInit 0x180000 0x1000000).clear.card := by
    have hsub : Finset.Ico 1024 4096 ⊆ (rustPmmInit 0x180000 0x1000000).clear := by
      intro page hpage
      obtain ⟨hlow, hhigh⟩ := Finset.mem_Ico.1 hpage
      rw [mem_clear_rustPmmInit ⟨by decide, by decide⟩]
      refine ⟨hhigh, ?_⟩
      rintro (himage | rfl)
      · simp only [pageSize] at himage
        omega
      · exact absurd hlow (by decide)
    calc 3072 = (Finset.Ico 1024 4096).card := by rw [Nat.card_Ico]
      _ ≤ _ := Finset.card_le_card hsub
  intro hempty
  have hcount := card_clear_allocs (rustPmmInit 0x180000 0x1000000) 18
  rw [← hsource, hempty, Finset.card_empty] at hcount
  omega

/-! ## Runs -/

/-- A call on the current directory. -/
inductive VmmOp
  | map (virt phys flags : Nat)
  | unmap (virt : Nat)

def VmmOp.page : VmmOp → Nat
  | .map virt _ _ => virt / pageSize
  | .unmap virt => virt / pageSize

def stepVmm (src : PageSource σ) (op : VmmOp) (m : Machine σ) : Machine σ :=
  match op with
  | .map virt phys flags => vmmMapPage src virt phys flags m
  | .unmap virt => vmmUnmapPage src virt m

def runVmm (src : PageSource σ) (ops : List VmmOp) (m : Machine σ) : Machine σ :=
  ops.foldl (fun m op => stepVmm src op m) m

/-- What a call makes of a page: its frame after a map, nothing after an unmap.
A map that finds no page for its table touches nothing. -/
def touch (src : PageSource σ) (page : Nat) (op : VmmOp) (m : Machine σ) : Option (Option Nat) :=
  match op with
  | .map virt phys _ =>
      if virt / pageSize = page ∧ mapSucceeds src virt m then some (some ((phys >>> 12) % 2 ^ 20))
      else none
  | .unmap virt => if virt / pageSize = page then some none else none

/-- What the last call that touches a page makes of it. -/
def lastTouch (src : PageSource σ) (page : Nat) : List VmmOp → Machine σ → Option (Option Nat)
  | [], _ => none
  | op :: ops, m => (lastTouch src page ops (stepVmm src op m)).or (touch src page op m)

/-- One call updates the page it touches. -/
theorem stepVmm_maps (hinv : TableInv law m m.currentDirectory) (op : VmmOp) :
    Maps law m (stepVmm src op m) fun page =>
      (touch src page op m).getD (pageFrame m m.currentDirectory page) := by
  have hframes {m' : Machine σ} {f g : Nat → Option Nat} (hfg : ∀ page, f page = g page)
      (hmaps : Maps law m m' f) : Maps law m m' g := funext hfg ▸ hmaps
  cases op with
  | map virt phys flags =>
      by_cases hsucceeds : mapSucceeds src virt m
      · refine hframes (fun page => ?_) (vmmMapPage_maps hinv virt phys flags hsucceeds)
        by_cases hpage : page = virt / pageSize
        · simp [touch, hpage, hsucceeds]
        · simp [touch, hpage, Ne.symm hpage]
      · refine hframes (fun page => ?_) (vmmMapPage_fails hinv virt phys flags hsucceeds).1
        simp [touch, hsucceeds]
  | unmap virt =>
      refine hframes (fun page => ?_) (vmmUnmapPage_maps hinv virt)
      by_cases hpage : page = virt / pageSize
      · simp [touch, hpage]
      · simp [touch, hpage, Ne.symm hpage]

theorem runVmm_maps (hinv : TableInv law m m.currentDirectory) (ops : List VmmOp) :
    Maps law m (runVmm src ops m) fun page =>
      (lastTouch src page ops m).getD (pageFrame m m.currentDirectory page) := by
  induction ops generalizing m with
  | nil => exact ⟨rfl, rfl, hinv, fun _ _ => rfl, fun _ => rfl⟩
  | cons op ops ih =>
      have hstep := stepVmm_maps hinv op
      have hrun := hstep.trans (ih (hstep.current ▸ hstep.inv))
      refine ⟨hrun.current, hrun.kernel, hrun.inv, hrun.entries, fun page => ?_⟩
      rw [runVmm, List.foldl_cons]
      refine (hrun.frame page).trans ?_
      rw [lastTouch, hstep.current, hstep.frame]
      cases lastTouch src page ops (stepVmm src op m) <;> rfl

/-- What `vmm_get_physical` reads, from what the last touch made of the page. -/
def readBack (touched : Option (Option Nat)) (virt initial : Nat) : Nat :=
  match touched with
  | some (some frame) => (frame <<< 12) ||| (virt &&& 0xFFF)
  | some none => 0
  | none => initial

theorem readBack_eq (touched : Option (Option Nat)) (frame : Option Nat) (virt : Nat) :
    addressIn (touched.getD frame) virt = readBack touched virt (addressIn frame virt) := by
  rcases touched with _ | (_ | _) <;> rfl

/-- The page tables refine a partial map. After every run on the directory that
`vmm_init` builds, an address reads as the last touch of its page left it; a
call changes no address of another page; a map fails only where a table is missing
and no page is left for it; and a call that fails changes no entry and no address. -/
theorem vmm_refines_partial_map (law : PageLaw src) {frames : Nat → Nat → PageEntry} {source : σ}
    {m₀ : Machine σ} (hvalid : law.valid source) (hinit : vmmInit src frames source = some m₀)
    (ops : List VmmOp) :
    let m := runVmm src ops m₀
    (∀ virt, vmmGetPhysical m virt =
      readBack (lastTouch src (virt / pageSize) ops m₀) virt (vmmGetPhysical m₀ virt)) ∧
    (∀ op virt, virt / pageSize ≠ op.page →
      vmmGetPhysical (stepVmm src op m) virt = vmmGetPhysical m virt) ∧
    (∀ virt, mapSucceeds src virt m ↔
      (m.entry m.currentDirectory (dirIndex virt)).present = true ∨ (src.alloc m.source).1 ≠ 0) ∧
    ∀ virt phys flags, ¬ mapSucceeds src virt m →
      (vmmMapPage src virt phys flags m).frames = m.frames ∧
      (vmmMapPage src virt phys flags m).currentDirectory = m.currentDirectory ∧
      ∀ virt',
        vmmGetPhysical (vmmMapPage src virt phys flags m) virt' = vmmGetPhysical m virt' := by
  intro m
  have hempty : Exhausts law fun _ => True := ⟨fun _ _ _ => trivial, fun _ _ => trivial⟩
  obtain ⟨hcurrent, hmapped, -, -⟩ := vmmInit_spec hempty hvalid hinit
  have hrun := runVmm_maps (hcurrent ▸ hmapped.inv) ops
  have hinv : TableInv law m m.currentDirectory := hrun.current ▸ hrun.inv
  refine ⟨fun virt => ?_, fun op virt hother => ?_, hinv.mapSucceeds_iff,
    fun virt phys flags hfails => ?_⟩
  · rw [hrun.physical, readBack_eq, ← vmmGetPhysical_eq]
  · rw [(stepVmm_maps hinv op).physical, vmmGetPhysical_eq m]
    have huntouched : touch src (virt / pageSize) op m = none := by
      cases op with
      | map virt' phys flags => exact if_neg fun h => hother h.1.symm
      | unmap virt' => exact if_neg fun h => hother h.symm
    rw [huntouched, Option.getD_none]
  · obtain ⟨hmaps, hframes⟩ := vmmMapPage_fails hinv virt phys flags hfails
    refine ⟨hframes, hmaps.current, fun virt' => ?_⟩
    rw [hmaps.physical, vmmGetPhysical_eq m]

/-- At 256 MB there is no table after boot, and a map makes one. -/
theorem vmm_refines_partial_map_boot :
    ∃ m₀, vmmInit pmmSource (fun _ _ => .zero) (rustPmmInit 0x180000 0x1000000) = some m₀ ∧
      vmmGetPhysical m₀ 0x10000234 = 0 ∧
      vmmGetPhysical (runVmm pmmSource [.map 0x10000000 0x5000 3] m₀) 0x10000234 = 0x5234 ∧
      vmmGetPhysical (runVmm pmmSource [.map 0x10000000 0x5000 3, .unmap 0x10000000] m₀)
        0x10000234 = 0 ∧
      ∀ virt, virt / pageSize ≠ 0x10000 →
        vmmGetPhysical (runVmm pmmSource [.map 0x10000000 0x5000 3] m₀) virt =
          vmmGetPhysical m₀ virt := by
  obtain ⟨hbooted, m₀, hinit⟩ := boot_sixteen_megabytes
  have hvalid : pmmLaw.valid (rustPmmInit 0x180000 0x1000000) := hbooted
  have hafter (ops : List VmmOp) := vmm_refines_partial_map pmmLaw hvalid hinit ops
  have hnone : pageFrame m₀ m₀.currentDirectory (0x10000234 / pageSize) = none :=
    vmmInit_outside hvalid hinit (by decide)
  have hsucceeds : mapSucceeds pmmSource 0x10000000 m₀ := by
    obtain ⟨-, hmapped, -, -⟩ := vmmInit_spec pmmLaw_exhausts hvalid hinit
    have hleft := Finset.card_pos.2 (Finset.nonempty_iff_ne_empty.2 (boot_pages_left hinit))
    exact ((hafter []).2.2.1 0x10000000).2 (.inr (alloc_of_clear hmapped.inv.valid hleft))
  have htouched : lastTouch pmmSource (0x10000234 / pageSize) [.map 0x10000000 0x5000 3] m₀ =
      some (some 5) := if_pos ⟨rfl, hsucceeds⟩
  refine ⟨m₀, hinit, ?_, ?_, ?_, fun virt hother => ?_⟩
  · rw [vmmGetPhysical_eq, hnone]
    rfl
  · rw [(hafter _).1, htouched]
    rfl
  · exact (hafter [.map 0x10000000 0x5000 3, .unmap 0x10000000]).1 0x10000234
  · exact (hafter []).2.1 (.map 0x10000000 0x5000 3) virt hother

end Dosfs
