import Dosfs.Memory.VmmRefinement

/-!
# Permissions of mapped pages

The processor allows an access only if the directory entry and the table entry
both do. `vmm_map_page` writes its flags to the table entry, and the directory
entry stays as it was made.
-/

namespace Dosfs

variable {σ : Type} {src : PageSource σ} {law : PageLaw src} {m : Machine σ}

/-- What the processor finds for an address: the frame, and whether it allows
writes and accesses from ring 3. -/
structure Access where
  frame : Nat
  writable : Bool
  ring3 : Bool
  deriving DecidableEq

/-- The walk of the processor through the current directory and the table. -/
def walk (m : Machine σ) (virt : Nat) : Option Access :=
  let dirEntry := m.entry m.currentDirectory (dirIndex virt)
  let tableEntry := m.frames dirEntry.frame (tableIndex virt)
  if dirEntry.present && tableEntry.present then
    some ⟨tableEntry.frame, dirEntry.rw && tableEntry.rw, dirEntry.user && tableEntry.user⟩
  else none

/-- The frame of a physical address, as the field of an entry holds it. -/
def frameOf (phys : Nat) : Nat := (phys >>> 12) % 2 ^ 20

/-- The access that the arguments of `vmm_map_page` ask for. -/
def asked (phys flags : Nat) : Access where
  frame := frameOf phys
  writable := flags &&& 0x2 ≠ 0
  ring3 := flags &&& 0x4 ≠ 0

/-- The entry allows what the flags ask for. -/
def PageEntry.Allows (e : PageEntry) (flags : Nat) : Prop :=
  (flags &&& 0x2 ≠ 0 → e.rw = true) ∧ (flags &&& 0x4 ≠ 0 → e.user = true)

/-- The entries that the walk will combine allow what the flags ask for. A new
directory entry allows writes and no access from ring 3, and one that is there
stays as it is. If it leads back to the directory and the table entry is that
directory entry itself, then the walk ends at the entry of the mapped frame. If
it leads to page zero, then `vmm_map_page` does nothing. -/
def FlagsAllowed (m : Machine σ) (virt phys flags : Nat) : Prop :=
  let directory := m.currentDirectory / pageSize
  let dirEntry := m.entry m.currentDirectory (dirIndex virt)
  if dirEntry.present = false then flags &&& 0x4 = 0
  else if dirEntry.frame = 0 then walk m virt = some (asked phys flags)
  else if dirEntry.frame = directory ∧ tableIndex virt = dirIndex virt then
    frameOf phys = directory ∨
      ((m.frames (frameOf phys) (tableIndex virt)).present = true ∧
        (m.frames (frameOf phys) (tableIndex virt)).frame = frameOf phys ∧
        (m.frames (frameOf phys) (tableIndex virt)).Allows flags)
  else dirEntry.Allows flags

/-- The table entry that `vmm_map_page` writes. -/
def mappedEntry (phys flags : Nat) : PageEntry where
  present := true
  rw := flags &&& 0x2 ≠ 0
  user := flags &&& 0x4 ≠ 0
  frame := frameOf phys

theorem allows_iff (e : PageEntry) (phys flags : Nat) :
    (some ⟨frameOf phys, e.rw && (mappedEntry phys flags).rw,
        e.user && (mappedEntry phys flags).user⟩ = some (asked phys flags)) ↔
      e.Allows flags := by
  have hbit (b : Bool) (p : Prop) [Decidable p] : (b && decide p) = decide p ↔ (p → b = true) := by
    by_cases hp : p <;> simp [hp]
  rw [Option.some_inj, asked, Access.mk.injEq, PageEntry.Allows]
  simp only [mappedEntry, true_and]
  exact and_congr (hbit _ _) (hbit _ _)

theorem vmmMapPage_eq {virt phys flags table : Nat} {m' : Machine σ}
    (htable : getPageTable src m.currentDirectory (dirIndex virt) true m = (table, m')) :
    vmmMapPage src virt phys flags m =
      if table = 0 then m' else m'.storeEntry table (tableIndex virt) (mappedEntry phys flags) := by
  rw [vmmMapPage, htable]
  rfl

theorem walk_eq {m : Machine σ} {virt : Nat} {d e : PageEntry}
    (hdir : m.entry m.currentDirectory (dirIndex virt) = d)
    (htable : m.frames d.frame (tableIndex virt) = e) :
    walk m virt =
      if d.present && e.present then some ⟨e.frame, d.rw && e.rw, d.user && e.user⟩ else none := by
  rw [walk, hdir, htable]

/-- The walk after an entry of a table was written. -/
theorem walk_storeEntry {virt : Nat} {d e : PageEntry}
    (hentry : m.entry m.currentDirectory (dirIndex virt) = d) (hpresent : d.present = true)
    (he : e.present = true)
    (happart : ¬ (d.frame = m.currentDirectory / pageSize ∧ tableIndex virt = dirIndex virt)) :
    walk (m.storeEntry (d.frame * pageSize) (tableIndex virt) e) virt =
      some ⟨e.frame, d.rw && e.rw, d.user && e.user⟩ := by
  have hdir : (m.storeEntry (d.frame * pageSize) (tableIndex virt) e).entry m.currentDirectory
      (dirIndex virt) = d := by
    rw [Machine.entry_storeEntry, mul_pageSize_div, hentry]
    exact if_neg fun h => happart ⟨h.1.symm, h.2.symm⟩
  have htable : (m.storeEntry (d.frame * pageSize) (tableIndex virt) e).frames d.frame
      (tableIndex virt) = e := by
    rw [Machine.frames_eq_entry, Machine.entry_storeEntry, if_pos ⟨rfl, rfl⟩]
  rw [walk_eq hdir htable, hpresent, he]
  rfl

/-- With no directory entry the call makes a table, and the processor allows
writes as asked, but nothing from ring 3. -/
theorem walk_mapPage_new (hvalid : law.valid m.source)
    (htaken : law.taken m.source (m.currentDirectory / pageSize)) (virt phys flags : Nat)
    (habsent : (m.entry m.currentDirectory (dirIndex virt)).present = false)
    (hpage : (pmmAllocPage src m).1 ≠ 0) :
    ∃ d : PageEntry, d.rw = true ∧ d.user = false ∧
      walk (vmmMapPage src virt phys flags m) virt = some ⟨frameOf phys,
        d.rw && (mappedEntry phys flags).rw, d.user && (mappedEntry phys flags).user⟩ := by
  have hresult := getPageTable_result hvalid m.currentDirectory (dirIndex virt)
  generalize haddr : (getPageTable src m.currentDirectory (dirIndex virt) true m).1 = addr
    at hresult
  generalize hmachine : (getPageTable src m.currentDirectory (dirIndex virt) true m).2 = m'
    at hresult
  have hget : getPageTable src m.currentDirectory (dirIndex virt) true m = (addr, m') :=
    Prod.ext haddr hmachine
  cases hresult with
  | found hpresent => exact absurd (habsent.symm.trans hpresent) Bool.false_ne_true
  | failed _ _ halloc => exact absurd (congrArg Prod.fst halloc) hpage
  | created table m₁ _ halloc htable hfresh =>
      have hcurrent : m₁.currentDirectory = m.currentDirectory :=
        (congrArg (fun r => r.2.currentDirectory) halloc).symm
      have hapart : table ≠ m₁.currentDirectory / pageSize := by
        rintro rfl
        rw [hcurrent] at hfresh
        exact hfresh htaken
      obtain ⟨d, hd⟩ : ∃ d : PageEntry, d = ⟨true, true, false, table⟩ := ⟨_, rfl⟩
      have hframe : d.frame = table := congrArg PageEntry.frame hd
      rw [← hd] at hget
      have hentry : ((m₁.zeroPage (table * pageSize)).storeEntry m.currentDirectory
          (dirIndex virt) d).entry m₁.currentDirectory (dirIndex virt) = d := by
        rw [hcurrent, Machine.entry_storeEntry, if_pos ⟨rfl, rfl⟩]
      have hwalk := @walk_storeEntry _ _ virt d (mappedEntry phys flags) hentry
        (congrArg PageEntry.present hd) rfl fun h => hapart (hframe.symm.trans h.1)
      refine ⟨d, congrArg PageEntry.rw hd, congrArg PageEntry.user hd, ?_⟩
      rw [vmmMapPage_eq hget, if_neg (Nat.mul_ne_zero htable (by decide)), ← hframe]
      rw [← hframe] at hwalk
      exact hwalk

/-- With a directory entry, the call writes to its table. -/
theorem walk_mapPage_present (virt phys flags : Nat)
    (hpresent : (m.entry m.currentDirectory (dirIndex virt)).present = true) :
    walk (vmmMapPage src virt phys flags m) virt = some (asked phys flags) ↔
      FlagsAllowed m virt phys flags := by
  have hget : getPageTable src m.currentDirectory (dirIndex virt) true m =
      ((m.entry m.currentDirectory (dirIndex virt)).frame * pageSize, m) := by
    rw [getPageTable, if_pos hpresent, shiftLeft_page]
  have hentered : ¬ (m.entry m.currentDirectory (dirIndex virt)).present = false := by
    rw [hpresent]
    decide
  unfold FlagsAllowed
  dsimp only
  rw [if_neg hentered, vmmMapPage_eq hget]
  by_cases hnull : (m.entry m.currentDirectory (dirIndex virt)).frame = 0
  · rw [if_pos hnull, hnull, Nat.zero_mul, if_pos rfl]
  rw [if_neg hnull, if_neg (Nat.mul_ne_zero hnull (by decide))]
  by_cases hself : (m.entry m.currentDirectory (dirIndex virt)).frame =
      m.currentDirectory / pageSize ∧ tableIndex virt = dirIndex virt
  · rw [if_pos hself]
    obtain ⟨hframe, hindex⟩ := hself
    -- the new entry replaces the directory entry it was found through
    have hentry : (m.storeEntry ((m.entry m.currentDirectory (dirIndex virt)).frame * pageSize)
        (tableIndex virt) (mappedEntry phys flags)).entry m.currentDirectory (dirIndex virt) =
          mappedEntry phys flags := by
      rw [Machine.entry_storeEntry, mul_pageSize_div, if_pos ⟨hframe.symm, hindex.symm⟩]
    have hbehind : (m.storeEntry ((m.entry m.currentDirectory (dirIndex virt)).frame * pageSize)
        (tableIndex virt) (mappedEntry phys flags)).frames (frameOf phys) (tableIndex virt) =
          if frameOf phys = m.currentDirectory / pageSize then mappedEntry phys flags
          else m.frames (frameOf phys) (tableIndex virt) := by
      rw [Machine.frames_eq_entry, Machine.entry_storeEntry, mul_pageSize_div, mul_pageSize_div,
        hframe, Machine.frames_eq_entry]
      simp
    have hwalk := walk_eq hentry hbehind
    rw [hwalk]
    by_cases hdir : frameOf phys = m.currentDirectory / pageSize
    · rw [if_pos hdir]
      refine iff_of_true ?_ (Or.inl hdir)
      simp [mappedEntry, asked]
    · rw [if_neg hdir, or_iff_right hdir]
      cases hbehindPresent : (m.frames (frameOf phys) (tableIndex virt)).present with
      | false => simp [mappedEntry]
      | true =>
          rw [← allows_iff _ phys]
          simp [mappedEntry, asked, Bool.and_comm]
  · rw [if_neg hself, walk_storeEntry rfl hpresent rfl hself]
    exact allows_iff _ phys flags

/-- For every directory, and every call that does not lack memory: the processor
finds the frame with the rights that the flags ask for if and only if the entries
on its way allow them. -/
theorem map_flags_effective_iff (hvalid : law.valid m.source)
    (htaken : law.taken m.source (m.currentDirectory / pageSize)) (virt phys flags : Nat)
    (hmemory : (m.entry m.currentDirectory (dirIndex virt)).present = true ∨
      (pmmAllocPage src m).1 ≠ 0) :
    walk (vmmMapPage src virt phys flags m) virt = some (asked phys flags) ↔
      FlagsAllowed m virt phys flags := by
  cases hpresent : (m.entry m.currentDirectory (dirIndex virt)).present with
  | true => exact walk_mapPage_present virt phys flags hpresent
  | false =>
      have hpage := hmemory.resolve_left (by simp [hpresent])
      obtain ⟨d, hrw, huser, hwalk⟩ := walk_mapPage_new hvalid htaken virt phys flags hpresent hpage
      rw [hwalk, allows_iff, FlagsAllowed, if_pos hpresent, PageEntry.Allows, hrw, huser]
      simp

/-- An empty directory in the page at 1 MB, which belongs to the kernel image. -/
def emptySpace : Machine Pmm where
  source := rustPmmInit 0x180000 0x1000000
  frames := fun _ _ => .zero
  currentDirectory := 0x100000
  kernelDirectory := 0x100000
  heapEnd := 0x400000
  grants := []

theorem emptySpace_ready :
    pmmLaw.valid emptySpace.source ∧
      pmmLaw.taken emptySpace.source (emptySpace.currentDirectory / pageSize) ∧
      (pmmAllocPage pmmSource emptySpace).1 ≠ 0 := by
  have hbooted : emptySpace.source.Booted := rustPmmInit_booted ⟨by decide, by decide⟩ 0x1000000
  have hclear : 1024 ∈ emptySpace.source.clear := by
    refine (mem_clear_rustPmmInit ⟨by decide, by decide⟩).2 ⟨by decide, ?_⟩
    rintro (hkernel | hvga)
    · exact absurd hkernel (by decide)
    · exact absurd hvga (by decide)
  refine ⟨hbooted, ?_, ?_⟩
  · refine Pmm.mem_marked.2 ⟨by decide, ?_⟩
    exact (Pmm.rustPmmInit_test ⟨by decide, by decide⟩ _ _).2 (Or.inl (by decide))
  · exact alloc_of_clear hbooted (Finset.card_pos.2 ⟨1024, hclear⟩)

theorem map_flags_effective_iff_empty :
    walk (vmmMapPage pmmSource 0x80000000 0x200000 0x3 emptySpace) 0x80000000 =
        some (asked 0x200000 0x3) ↔
      FlagsAllowed emptySpace 0x80000000 0x200000 0x3 :=
  map_flags_effective_iff emptySpace_ready.1 emptySpace_ready.2.1 0x80000000 0x200000 0x3
    (Or.inr emptySpace_ready.2.2)

/-- The page of a user stack, mapped with flags 7 in a new table, is out of reach
for ring 3. -/
theorem user_page_not_accessible :
    (pmmAllocPage pmmSource emptySpace).1 ≠ 0 ∧
      walk (vmmMapPage pmmSource 0xBFFFF000 0x200000 0x7 emptySpace) 0xBFFFF000 ≠
        some (asked 0x200000 0x7) := by
  obtain ⟨hvalid, htaken, hpage⟩ := emptySpace_ready
  obtain ⟨d, -, huser, hwalk⟩ :=
    walk_mapPage_new hvalid htaken 0xBFFFF000 0x200000 0x7 rfl hpage
  refine ⟨hpage, ?_⟩
  rw [hwalk, Ne, allows_iff, PageEntry.Allows, huser]
  exact fun hallows => absurd (hallows.2 (by decide)) Bool.false_ne_true

end Dosfs
