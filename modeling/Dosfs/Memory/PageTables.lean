import Dosfs.Memory.Vmm

/-!
# A directory and its tables

The directory and its tables stand for a partial map from page numbers to
frames. The invariant of this module is that the directory and its tables are
different pages, all of them handed out by the allocator, so that a fresh table
cannot be one of them. Entering a fresh table and changing an entry of a table
keep it, and each has its effect on the map.
-/

namespace Dosfs

variable {σ : Type}

/-- A law for the allocator: in the states it can be in, it hands out aligned
pages that are not taken, and does not forget taken pages. -/
structure PageLaw (src : PageSource σ) where
  valid : σ → Prop
  taken : σ → Nat → Prop
  alloc_valid : ∀ s, valid s → valid (src.alloc s).2
  alloc_mono : ∀ s page, taken s page → taken (src.alloc s).2 page
  alloc_fresh : ∀ s, valid s → (src.alloc s).1 ≠ 0 →
    ∃ page, (src.alloc s).1 = page * pageSize ∧ page < 2 ^ 20 ∧ ¬ taken s page ∧
      taken (src.alloc s).2 page

/-- The frame that a directory maps a page to. -/
def pageFrame (m : Machine σ) (dir page : Nat) : Option Nat :=
  let table := (m.entry dir (page / 1024)).frame
  if (m.entry dir (page / 1024)).present ∧ table ≠ 0 ∧
      (m.frames table (page % 1024)).present then
    some (m.frames table (page % 1024)).frame
  else none

/-- The address in a frame, or null. -/
def addressIn (frame : Option Nat) (virt : Nat) : Nat :=
  match frame with
  | some frame => (frame <<< 12) ||| (virt &&& 0xFFF)
  | none => 0

theorem vmmGetPhysical_eq (m : Machine σ) (virt : Nat) :
    vmmGetPhysical m virt = addressIn (pageFrame m m.currentDirectory (virt / pageSize)) virt := by
  have hentry (table : Nat) : m.entry (table <<< 12) (virt / pageSize % 1024) =
      m.frames table (virt / pageSize % 1024) := by
    rw [Machine.entry, shiftLeft_page, mul_pageSize_div]
  have hnull (table : Nat) : table <<< 12 = 0 ↔ table = 0 := by
    rw [shiftLeft_page, Nat.mul_eq_zero]
    exact or_iff_left (by decide)
  rw [vmmGetPhysical, lookupPageTable, dirIndex_eq, tableIndex_eq, pageFrame]
  by_cases hpresent : (m.entry m.currentDirectory (virt / pageSize / 1024)).present = true
  · simp only [hpresent, if_true, hentry, hnull, true_and]
    by_cases hmapped : (m.entry m.currentDirectory (virt / pageSize / 1024)).frame ≠ 0 ∧
        (m.frames (m.entry m.currentDirectory (virt / pageSize / 1024)).frame
          (virt / pageSize % 1024)).present = true
    · rw [if_pos hmapped, if_neg (by tauto)]
      rfl
    · rw [if_neg hmapped, if_pos (by tauto)]
      rfl
  · simp [hpresent, addressIn]

/-! ## The invariant -/

/-- The directory and its tables are different taken pages. -/
structure TableInv {src : PageSource σ} (law : PageLaw src) (m : Machine σ) (dir : Nat) : Prop where
  valid : law.valid m.source
  dirTaken : law.taken m.source (dir / pageSize)
  tableTaken : ∀ i, (m.entry dir i).present = true → law.taken m.source (m.entry dir i).frame
  tableNotNull : ∀ i, (m.entry dir i).present = true → (m.entry dir i).frame ≠ 0
  tableNotDir : ∀ i, (m.entry dir i).present = true → (m.entry dir i).frame ≠ dir / pageSize
  distinct : ∀ i j, (m.entry dir i).present = true → (m.entry dir j).present = true →
    (m.entry dir i).frame = (m.entry dir j).frame → i = j

namespace Machine

variable {m : Machine σ} {addr addr' index index' : Nat} {e : PageEntry}

theorem entry_storeEntry :
    (m.storeEntry addr index e).entry addr' index' =
      if addr' / pageSize = addr / pageSize ∧ index' = index then e else m.entry addr' index' := by
  unfold entry storeEntry
  dsimp only
  by_cases haddr : addr' / pageSize = addr / pageSize
  · rw [haddr, Function.update_self]
    by_cases hindex : index' = index
    · rw [hindex, Function.update_self, if_pos ⟨rfl, rfl⟩]
    · rw [Function.update_of_ne hindex, if_neg fun h => hindex h.2]
  · rw [Function.update_of_ne haddr, if_neg fun h => haddr h.1]

theorem entry_storePage {entries : Nat → PageEntry} :
    (m.storePage addr entries).entry addr' index' =
      if addr' / pageSize = addr / pageSize then entries index' else m.entry addr' index' := by
  unfold entry storePage
  dsimp only
  split
  next haddr => rw [haddr, Function.update_self]
  next haddr => rw [Function.update_of_ne haddr]

theorem entry_zeroPage :
    (m.zeroPage addr).entry addr' index =
      if addr' / pageSize = addr / pageSize then .zero else m.entry addr' index :=
  entry_storePage

theorem frames_eq_entry (table index : Nat) :
    m.frames table index = m.entry (table * pageSize) index := by
  rw [entry, mul_pageSize_div]

end Machine

variable {src : PageSource σ} {law : PageLaw src} {m : Machine σ} {dir : Nat}

/-- The frame of a page, through the entries only. -/
theorem pageFrame_congr {m' : Machine σ} {page : Nat}
    (hdir : m'.entry dir (page / 1024) = m.entry dir (page / 1024))
    (htable : (m.entry dir (page / 1024)).present = true →
      (m.entry dir (page / 1024)).frame ≠ 0 →
      m'.frames (m.entry dir (page / 1024)).frame (page % 1024) =
        m.frames (m.entry dir (page / 1024)).frame (page % 1024)) :
    pageFrame m' dir page = pageFrame m dir page := by
  unfold pageFrame
  rw [hdir]
  dsimp only
  by_cases hpresent : (m.entry dir (page / 1024)).present = true ∧
      (m.entry dir (page / 1024)).frame ≠ 0
  · rw [htable hpresent.1 hpresent.2]
  · rw [if_neg fun h => hpresent ⟨h.1, h.2.1⟩, if_neg fun h => hpresent ⟨h.1, h.2.1⟩]

/-- What `get_page_table` with `create` does: it finds the table, fails without
touching the entries, or enters a fresh empty table. -/
inductive TableResult (src : PageSource σ) (law : PageLaw src) (m : Machine σ) (dir index : Nat) :
    Nat → Machine σ → Prop
  | found (hpresent : (m.entry dir index).present = true) :
      TableResult src law m dir index ((m.entry dir index).frame * pageSize) m
  | failed (m' : Machine σ) (habsent : (m.entry dir index).present = false)
      (halloc : pmmAllocPage src m = (0, m')) : TableResult src law m dir index 0 m'
  | created (table : Nat) (m' : Machine σ) (habsent : (m.entry dir index).present = false)
      (halloc : pmmAllocPage src m = (table * pageSize, m')) (htable : table ≠ 0)
      (hfresh : ¬ law.taken m.source table) (htaken : law.taken m'.source table) :
      TableResult src law m dir index (table * pageSize)
        ((m'.zeroPage (table * pageSize)).storeEntry dir index ⟨true, true, false, table⟩)

theorem getPageTable_result (hvalid : law.valid m.source) (dir index : Nat) :
    TableResult src law m dir index (getPageTable src dir index true m).1
      (getPageTable src dir index true m).2 := by
  unfold getPageTable
  cases hpresent : (m.entry dir index).present with
  | true =>
      simp only [if_true, shiftLeft_page]
      exact .found hpresent
  | false =>
      simp only [Bool.false_eq_true, if_false, Bool.not_true]
      have hsource : (pmmAllocPage src m).2.source = (src.alloc m.source).2 := rfl
      by_cases hnull : (pmmAllocPage src m).1 = 0
      · rw [if_pos hnull]
        exact .failed _ hpresent (by rw [← hnull])
      · obtain ⟨table, htable, hlt, hfresh, htaken⟩ := law.alloc_fresh m.source hvalid hnull
        have hpage : (pmmAllocPage src m).1 = table * pageSize := htable
        rw [if_neg hnull, hpage, shiftRight_page hlt]
        refine .created table _ hpresent (by rw [← hpage]) ?_ hfresh htaken
        rintro rfl
        exact hnull (by rw [hpage, Nat.zero_mul])

/-! ## Entering a table and changing an entry -/

/-- Fill the fresh page `table` and enter it in the directory. -/
def Machine.enterTable (m : Machine σ) (dir index table : Nat) (entries : Nat → PageEntry) :
    Machine σ :=
  (m.storePage (table * pageSize) entries).storeEntry dir index ⟨true, true, false, table⟩

section enterTable

variable {m' : Machine σ} {index table : Nat} {entries : Nat → PageEntry}

theorem entry_enterTable (hframes : m'.frames = m.frames) (hdir : table ≠ dir / pageSize)
    (i : Nat) :
    (m'.enterTable dir index table entries).entry dir i =
      if i = index then ⟨true, true, false, table⟩ else m.entry dir i := by
  have hne : dir / pageSize ≠ table * pageSize / pageSize := by
    rw [mul_pageSize_div]
    exact hdir.symm
  rw [Machine.enterTable, Machine.entry_storeEntry, Machine.entry_storePage, if_neg hne]
  simp only [true_and, Machine.entry, hframes]

theorem frames_enterTable (hframes : m'.frames = m.frames) {page : Nat}
    (hdir : page ≠ dir / pageSize) (j : Nat) :
    (m'.enterTable dir index table entries).frames page j =
      if page = table then entries j else m.frames page j := by
  rw [Machine.frames_eq_entry, Machine.enterTable, Machine.entry_storeEntry,
    Machine.entry_storePage]
  simp only [mul_pageSize_div, Machine.entry, hdir, false_and, if_false, hframes]

/-- A fresh table keeps the invariant. -/
theorem TableInv.enterTable (hinv : TableInv law m dir) (hframes : m'.frames = m.frames)
    (hvalid : law.valid m'.source)
    (hmono : ∀ page, law.taken m.source page → law.taken m'.source page)
    (hnull : table ≠ 0) (hfresh : ¬ law.taken m.source table) (htaken : law.taken m'.source table) :
    TableInv law (m'.enterTable dir index table entries) dir := by
  have hdir : table ≠ dir / pageSize := by
    rintro rfl
    exact hfresh hinv.dirTaken
  have hentry := @entry_enterTable _ m dir m' index table entries hframes hdir
  have hold (i : Nat) (hi : (m.entry dir i).present = true) : (m.entry dir i).frame ≠ table := by
    intro heq
    exact hfresh (heq ▸ hinv.tableTaken i hi)
  constructor
  · exact hvalid
  · exact hmono _ hinv.dirTaken
  · intro i hi
    rw [hentry] at hi ⊢
    split_ifs at hi ⊢
    · exact htaken
    · exact hmono _ (hinv.tableTaken i hi)
  · intro i hi
    rw [hentry] at hi ⊢
    split_ifs at hi ⊢
    · exact hnull
    · exact hinv.tableNotNull i hi
  · intro i hi
    rw [hentry] at hi ⊢
    split_ifs at hi ⊢
    · exact hdir
    · exact hinv.tableNotDir i hi
  · intro i j hi hj heq
    rw [hentry] at hi hj
    rw [hentry, hentry] at heq
    split_ifs at hi hj heq with hindex hindex' hindex'
    · rw [hindex, hindex']
    · exact absurd heq.symm (hold j hj)
    · exact absurd heq (hold i hi)
    · exact hinv.distinct i j hi hj heq

/-- The pages of a fresh table are mapped as its entries say, all others as
before. -/
theorem pageFrame_enterTable (hinv : TableInv law m dir) (hframes : m'.frames = m.frames)
    (hnull : table ≠ 0) (hfresh : ¬ law.taken m.source table) (page : Nat) :
    pageFrame (m'.enterTable dir index table entries) dir page =
      if page / 1024 = index then
        if (entries (page % 1024)).present then some (entries (page % 1024)).frame else none
      else pageFrame m dir page := by
  have hdir : table ≠ dir / pageSize := by
    rintro rfl
    exact hfresh hinv.dirTaken
  have hentry := @entry_enterTable _ m dir m' index table entries hframes hdir (page / 1024)
  split
  next hindex =>
    rw [if_pos hindex] at hentry
    simp only [pageFrame, hentry, frames_enterTable hframes hdir, if_true, true_and, ne_eq, hnull,
      not_false_eq_true]
  next hindex =>
    rw [if_neg hindex] at hentry
    refine pageFrame_congr hentry fun hpresent _ => ?_
    rw [frames_enterTable hframes (hinv.tableNotDir _ hpresent), if_neg]
    intro heq
    exact hfresh (heq ▸ hinv.tableTaken _ hpresent)

end enterTable

section storeEntry

variable {index j : Nat} {e : PageEntry}

/-- Changing an entry of a table changes no entry of the directory. -/
theorem entry_storeEntry_table (hinv : TableInv law m dir)
    (hpresent : (m.entry dir index).present = true) (i : Nat) :
    (m.storeEntry ((m.entry dir index).frame * pageSize) j e).entry dir i = m.entry dir i := by
  rw [Machine.entry_storeEntry, mul_pageSize_div, if_neg]
  exact fun h => hinv.tableNotDir index hpresent h.1.symm

theorem TableInv.storeEntry (hinv : TableInv law m dir)
    (hpresent : (m.entry dir index).present = true) :
    TableInv law (m.storeEntry ((m.entry dir index).frame * pageSize) j e) dir := by
  have hentry := @entry_storeEntry_table _ src law m dir index j e hinv hpresent
  constructor
  · exact hinv.valid
  · exact hinv.dirTaken
  · intro i hi
    rw [hentry] at hi ⊢
    exact hinv.tableTaken i hi
  · intro i hi
    rw [hentry] at hi ⊢
    exact hinv.tableNotNull i hi
  · intro i hi
    rw [hentry] at hi ⊢
    exact hinv.tableNotDir i hi
  · intro i k hi hk heq
    rw [hentry] at hi hk
    rw [hentry, hentry] at heq
    exact hinv.distinct i k hi hk heq

/-- Changing an entry of a table changes one page of the map. -/
theorem pageFrame_storeEntry (hinv : TableInv law m dir)
    (hpresent : (m.entry dir index).present = true) (page : Nat) :
    pageFrame (m.storeEntry ((m.entry dir index).frame * pageSize) j e) dir page =
      if page / 1024 = index ∧ page % 1024 = j then if e.present then some e.frame else none
      else pageFrame m dir page := by
  have hentry := @entry_storeEntry_table _ src law m dir index j e hinv hpresent
  have hframes (table k : Nat) :
      (m.storeEntry ((m.entry dir index).frame * pageSize) j e).frames table k =
        if table = (m.entry dir index).frame ∧ k = j then e else m.frames table k := by
    rw [Machine.frames_eq_entry, Machine.entry_storeEntry, mul_pageSize_div, mul_pageSize_div,
      Machine.frames_eq_entry]
  split
  next hpage =>
    obtain ⟨hindex, hj⟩ := hpage
    have hnull := hinv.tableNotNull index hpresent
    simp only [pageFrame, hindex, hentry, hframes, hj, and_self, if_true, hpresent, hnull, ne_eq,
      not_false_eq_true, true_and]
  next hpage =>
    refine pageFrame_congr (hentry _) fun hother _ => ?_
    rw [hframes, if_neg]
    rintro ⟨heq, hj⟩
    exact hpage ⟨hinv.distinct _ _ hother hpresent heq, hj⟩

end storeEntry

end Dosfs
