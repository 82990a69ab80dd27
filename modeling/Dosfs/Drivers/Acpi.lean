import Mathlib.Algebra.BigOperators.Group.List.Basic
import Mathlib.Data.UInt
import Dosfs.Foundation.Reading

/-!
# Looking for the ACPI tables

A translation of `acpi_init` of `drivers/acpi.c`, with the addresses that the search reads.
The tables are what the firmware has left in memory.
-/

namespace Dosfs

open Foundation Reading

/-! ## The search -/

/-- The statics of `acpi.c`; 0 is the null pointer. -/
structure Acpi where
  rsdp : Nat
  fadt : Nat
  deriving DecidableEq

/-- `"RSD PTR "` -/
def rsdpSignature : List UInt8 := [0x52, 0x53, 0x44, 0x20, 0x50, 0x54, 0x52, 0x20]

/-- `"FACP"` -/
def fadtSignature : List UInt8 := [0x46, 0x41, 0x43, 0x50]

def sdtHeaderSize : Nat := 36

/-- The end of what is taken to be mapped, `0x04000000`. -/
def tableLimit : Nat := 0x04000000

def sumLoop (mem : Memory) (ptr : Nat) (sum : UInt8) : Nat → Reading UInt8
  | 0 => return sum
  | count + 1 => do
      let b ← .byte mem ptr
      sumLoop mem (ptr + 1) (sum + b) count

/-- The tests of `find_rsdp_in_range` on one address. -/
def rsdpTest (mem : Memory) (ptr : Nat) : Reading Bool := do
  let signed ← isText mem ptr rsdpSignature
  if signed then
    let sum ← sumLoop mem ptr 0 20
    return sum == 0
  else
    return false

def findRsdpInRange (mem : Memory) (start length : Nat) : Reading Nat := do
  let found ← findFirst (rsdpTest mem) (List.range' start ((length + 15) / 16) 16)
  return found.getD 0

/-- The tests of `find_table` on one entry. -/
def tableTest (mem : Memory) (sig : List UInt8) (entry : Nat) : Reading Bool := do
  let table ← number mem entry 4
  if table < 0x1000 ∨ table > tableLimit then return false
  else isText mem table sig

/-- The loop of `find_table` over the entries. -/
def findEntry (mem : Memory) (sig : List UInt8) (rsdtAddr length : Nat) : Reading Nat := do
  let found ← findFirst (tableTest mem sig)
    (List.range' (rsdtAddr + sdtHeaderSize) ((length - sdtHeaderSize) / 4) 4)
  match found with
  | some entry => number mem entry 4
  | none => return 0

def findTable (mem : Memory) (rsdtAddr : Nat) (sig : List UInt8) : Reading Nat := do
  if rsdtAddr = 0 ∨ rsdtAddr > tableLimit then return 0
  else
    let length ← number mem (rsdtAddr + 4) 4
    if length < sdtHeaderSize ∨ length > 0x10000 then return 0
    else findEntry mem sig rsdtAddr length

/-- The search in the extended BIOS data area, whose segment is in the BIOS data area. -/
def ebdaRsdp (mem : Memory) : Reading Nat := do
  let ebdaSeg ← number mem 0x40E 2
  if ebdaSeg ≠ 0 ∧ 0x80000 ≤ ebdaSeg <<< 4 ∧ ebdaSeg <<< 4 ≤ 0x9F000 then
    findRsdpInRange mem (ebdaSeg <<< 4) 0x400
  else
    return 0

def biosRsdp (mem : Memory) : Reading Nat := do
  let rsdpAddr ← ebdaRsdp mem
  if rsdpAddr = 0 then findRsdpInRange mem 0xE0000 0x20000 else return rsdpAddr

/-- `acpi_init`, with its answer. The address of the RSDT is 16 bytes into the RSDP; the
message about the FADT reads a field of it. -/
def acpiInit (mem : Memory) (acpi : Acpi) : Reading (Int × Acpi) := do
  let rsdpAddr ← biosRsdp mem
  if rsdpAddr = 0 then return (-1, acpi)
  else
    let rsdtAddr ← number mem (rsdpAddr + 16) 4
    let fadtAddr ← findTable mem rsdtAddr fadtSignature
    if fadtAddr = 0 then return (-1, { acpi with rsdp := rsdpAddr })
    else
      let _ ← number mem (fadtAddr + 62) 4
      return (0, ⟨rsdpAddr, fadtAddr⟩)

/-! ## What is found -/

/-- There is an RSDP at the address. -/
def IsRsdp (mem : Memory) (ptr : Nat) : Prop :=
  mem.loadList ptr 8 = rsdpSignature ∧ (mem.loadList ptr 20).sum = 0

instance (mem : Memory) (ptr : Nat) : Decidable (IsRsdp mem ptr) :=
  inferInstanceAs (Decidable (_ ∧ _))

/-- The entry points at a table with the signature. -/
def IsTable (mem : Memory) (sig : List UInt8) (entry : Nat) : Prop :=
  0x1000 ≤ mem.loadLe entry 4 ∧ mem.loadLe entry 4 ≤ tableLimit ∧
    mem.loadList (mem.loadLe entry 4) sig.length = sig

instance (mem : Memory) (sig : List UInt8) (entry : Nat) : Decidable (IsTable mem sig entry) :=
  inferInstanceAs (Decidable (_ ∧ _ ∧ _))

/-- The segment of the extended BIOS data area is one that the search takes. -/
def EbdaTaken (mem : Memory) : Prop :=
  mem.loadLe 0x40E 2 ≠ 0 ∧ 0x80000 ≤ mem.loadLe 0x40E 2 <<< 4 ∧ mem.loadLe 0x40E 2 <<< 4 ≤ 0x9F000

instance (mem : Memory) : Decidable (EbdaTaken mem) := inferInstanceAs (Decidable (_ ∧ _ ∧ _))

/-- The addresses that an RSDP is looked for at, one after the other. -/
def rsdpPlaces (mem : Memory) : List Nat :=
  (if EbdaTaken mem then List.range' (mem.loadLe 0x40E 2 <<< 4) 64 16 else []) ++
    List.range' 0xE0000 0x2000 16

/-- The RSDT is one that the search takes. -/
def RsdtTaken (mem : Memory) (rsdt : Nat) : Prop :=
  sdtHeaderSize ≤ mem.loadLe (rsdt + 4) 4 ∧ mem.loadLe (rsdt + 4) 4 ≤ 0x10000

instance (mem : Memory) (rsdt : Nat) : Decidable (RsdtTaken mem rsdt) :=
  inferInstanceAs (Decidable (_ ∧ _))

/-- The addresses of the entries of an RSDT. -/
def rsdtEntries (mem : Memory) (rsdt : Nat) : List Nat :=
  List.range' (rsdt + sdtHeaderSize) ((mem.loadLe (rsdt + 4) 4 - sdtHeaderSize) / 4) 4

variable {mem : Memory} {ptr n : Nat}

theorem sumLoop_result (sum : UInt8) (count : Nat) :
    (sumLoop mem ptr sum count).result = some (sum + (mem.loadList ptr count).sum) := by
  induction count generalizing ptr sum with
  | zero => exact congrArg some (UInt8.add_zero sum).symm
  | succ count ih =>
      rw [sumLoop, result_byte_bind, ih, Memory.loadList_succ, List.sum_cons, UInt8.add_assoc]

theorem inside_sumLoop (sum : UInt8) (count : Nat) :
    Inside n (sumLoop mem ptr sum count) ↔ ∀ k < count, ptr + k < n := by
  induction count generalizing ptr sum with
  | zero => exact iff_of_true (inside_pure _) fun _ hk => absurd hk (Nat.not_lt_zero _)
  | succ count ih =>
      rw [sumLoop, inside_byte_bind, ih]
      constructor
      · rintro ⟨hhead, htail⟩ k hk
        cases k with
        | zero => exact hhead
        | succ k =>
            have hnext := htail k (Nat.lt_of_succ_lt_succ hk)
            omega
      · intro hall
        refine ⟨hall 0 (Nat.succ_pos _), fun k hk => ?_⟩
        have hnext := hall (k + 1) (Nat.succ_lt_succ hk)
        omega

theorem rsdpTest_result (mem : Memory) (ptr : Nat) :
    (rsdpTest mem ptr).result = some (decide (IsRsdp mem ptr)) := by
  rw [rsdpTest, result_bind, isText_result, Option.bind_some, result_ite, result_bind,
    sumLoop_result, UInt8.zero_add]
  by_cases hsigned : mem.loadList ptr rsdpSignature.length = rsdpSignature
  · rw [if_pos (decide_eq_true hsigned)]
    refine congrArg some ?_
    rw [Bool.eq_iff_iff, beq_iff_eq, decide_eq_true_iff]
    exact (and_iff_right hsigned).symm
  · rw [if_neg (by simpa using hsigned)]
    exact congrArg some (decide_eq_false fun h => hsigned h.1).symm

theorem findRsdpInRange_result (start length : Nat) :
    (findRsdpInRange mem start length).result =
      some (((List.range' start ((length + 15) / 16) 16).find? (IsRsdp mem ·)).getD 0) := by
  rw [findRsdpInRange, result_bind, findFirst_result (rsdpTest_result mem)]
  rfl

theorem ebdaRsdp_result :
    (ebdaRsdp mem).result = some (((if EbdaTaken mem then
      List.range' (mem.loadLe 0x40E 2 <<< 4) 64 16 else []).find? (IsRsdp mem ·)).getD 0) := by
  rw [ebdaRsdp, result_bind, number_result, Option.bind_some, result_ite, findRsdpInRange_result]
  by_cases htaken : EbdaTaken mem
  · rw [if_pos htaken]
    exact (if_pos htaken).trans rfl
  · rw [if_neg htaken]
    exact (if_neg htaken).trans rfl

/-- No place is the null pointer. -/
theorem rsdpPlaces_pos {place : Nat} (h : place ∈ rsdpPlaces mem) : 0x80000 ≤ place := by
  rw [rsdpPlaces] at h
  rcases List.mem_append.mp h with h | h
  · split at h
    next htaken =>
      obtain ⟨i, -, rfl⟩ := List.mem_range'.mp h
      exact htaken.2.1.trans (Nat.le_add_right _ _)
    next => exact absurd h List.not_mem_nil
  · obtain ⟨i, -, rfl⟩ := List.mem_range'.mp h
    omega

theorem biosRsdp_result :
    (biosRsdp mem).result = some (((rsdpPlaces mem).find? (IsRsdp mem ·)).getD 0) := by
  have hpos := @rsdpPlaces_pos mem
  rw [biosRsdp, result_bind, ebdaRsdp_result, Option.bind_some, result_ite,
    findRsdpInRange_result]
  rw [rsdpPlaces, List.find?_append] at *
  generalize (if EbdaTaken mem then _ else _ : List Nat) = places at hpos ⊢
  cases hfound : places.find? (IsRsdp mem ·) with
  | none => rfl
  | some place =>
      have hplace := hpos (List.mem_append_left _ (List.mem_of_find?_eq_some hfound))
      have hne : place ≠ 0 := by omega
      rw [Option.some_or]
      exact if_neg hne

theorem tableTest_result (mem : Memory) (sig : List UInt8) (entry : Nat) :
    (tableTest mem sig entry).result = some (decide (IsTable mem sig entry)) := by
  rw [tableTest, result_bind, number_result, Option.bind_some, result_ite, isText_result]
  by_cases hrange : mem.loadLe entry 4 < 0x1000 ∨ mem.loadLe entry 4 > tableLimit
  · rw [if_pos hrange]
    refine congrArg some (decide_eq_false fun h => ?_).symm
    have hlow := h.1
    have hhigh := h.2.1
    omega
  · rw [if_neg hrange]
    rw [not_or, Nat.not_lt, Nat.not_lt] at hrange
    refine congrArg some (decide_eq_decide.mpr ?_)
    exact ⟨fun h => ⟨hrange.1, hrange.2, h⟩, fun h => h.2.2⟩

theorem findEntry_result (sig : List UInt8) (rsdt : Nat) :
    (findEntry mem sig rsdt (mem.loadLe (rsdt + 4) 4)).result =
      some (((rsdtEntries mem rsdt).find? (IsTable mem sig ·)).elim 0 (mem.loadLe · 4)) := by
  rw [findEntry, result_bind, findFirst_result (tableTest_result mem sig), Option.bind_some]
  change Reading.result (match (rsdtEntries mem rsdt).find? (IsTable mem sig ·) with
    | some entry => number mem entry 4
    | none => return 0) = _
  cases (rsdtEntries mem rsdt).find? (IsTable mem sig ·) with
  | none => rfl
  | some entry => exact number_result mem entry 4

/-- The table that an RSDT leads to, or null. -/
def tableOf (mem : Memory) (sig : List UInt8) (rsdt : Nat) : Nat :=
  if rsdt ≠ 0 ∧ rsdt ≤ tableLimit ∧ RsdtTaken mem rsdt then
    ((rsdtEntries mem rsdt).find? (IsTable mem sig ·)).elim 0 (mem.loadLe · 4)
  else 0

theorem findTable_result (sig : List UInt8) (rsdt : Nat) :
    (findTable mem rsdt sig).result = some (tableOf mem sig rsdt) := by
  rw [findTable, tableOf, result_ite]
  by_cases hrsdt : rsdt = 0 ∨ rsdt > tableLimit
  · rw [if_pos hrsdt, if_neg (by omega)]
    rfl
  · rw [if_neg hrsdt, result_bind, number_result, Option.bind_some, result_ite]
    by_cases htaken : RsdtTaken mem rsdt
    · have hlength := htaken
      rw [RsdtTaken] at hlength
      rw [if_neg (by omega), if_pos ⟨by omega, by omega, htaken⟩]
      exact findEntry_result sig rsdt
    · have hlength := htaken
      rw [RsdtTaken] at hlength
      rw [if_pos (by omega), if_neg fun h => htaken h.2.2]
      rfl

/-- What `acpi_init` finds: the first RSDP of the places, and the first FADT of its RSDT. -/
theorem acpiInit_result (acpi : Acpi) :
    (acpiInit mem acpi).result = some
      (match (rsdpPlaces mem).find? (IsRsdp mem ·) with
      | none => (-1, acpi)
      | some rsdp =>
          if tableOf mem fadtSignature (mem.loadLe (rsdp + 16) 4) = 0 then
            (-1, { acpi with rsdp })
          else (0, ⟨rsdp, tableOf mem fadtSignature (mem.loadLe (rsdp + 16) 4)⟩)) := by
  rw [acpiInit, result_bind, biosRsdp_result, Option.bind_some, result_ite]
  cases hfound : (rsdpPlaces mem).find? (IsRsdp mem ·) with
  | none => exact if_pos rfl
  | some rsdp =>
      have hpos := rsdpPlaces_pos (List.mem_of_find?_eq_some hfound)
      rw [Option.getD_some, if_neg (by omega), result_bind, number_result, Option.bind_some,
        result_bind, findTable_result, Option.bind_some, result_ite, result_bind, number_result]
      dsimp only
      split <;> rfl

/-! ## Where the search reads -/

/-- The bytes that decide whether an entry is one for a FADT lie below the limit, and so does
the field that the message shows. -/
def EntryBelow (mem : Memory) (limit entry : Nat) : Prop :=
  entry + 4 ≤ limit ∧ (0x1000 ≤ mem.loadLe entry 4 → mem.loadLe entry 4 ≤ tableLimit →
    ∀ k < 4, mem.loadList (mem.loadLe entry 4) k = fadtSignature.take k →
      mem.loadLe entry 4 + k < limit) ∧
    (IsTable mem fadtSignature entry → mem.loadLe entry 4 + 66 ≤ limit)

/-- An RSDT is not looked at, or lies below the limit as far as the search goes: its length,
and the entries up to the first one for a FADT. -/
def RsdtBelow (mem : Memory) (limit rsdt : Nat) : Prop :=
  rsdt = 0 ∨ tableLimit < rsdt ∨ rsdt + 8 ≤ limit ∧ (RsdtTaken mem rsdt →
    ∀ before entry after, rsdtEntries mem rsdt = before ++ entry :: after →
      (∀ e ∈ before, ¬ IsTable mem fadtSignature e) → EntryBelow mem limit entry)

theorem inside_tableTest (sig : List UInt8) (entry : Nat) :
    Inside n (tableTest mem sig entry) ↔ entry + 4 ≤ n ∧ (0x1000 ≤ mem.loadLe entry 4 →
      mem.loadLe entry 4 ≤ tableLimit → ∀ k < sig.length,
        mem.loadList (mem.loadLe entry 4) k = sig.take k → mem.loadLe entry 4 + k < n) := by
  have hnumber : (∀ k < 4, entry + k < n) ↔ entry + 4 ≤ n :=
    ⟨fun h => h 3 (by decide), fun h k hk => by omega⟩
  rw [tableTest, inside_bind, inside_number, hnumber, number_result]
  refine and_congr_right fun _ => ?_
  simp only [Option.some_inj, forall_eq']
  split
  next hrange =>
    refine iff_of_true (inside_pure _) fun hlow hhigh => ?_
    exact absurd hrange (by omega)
  next hrange =>
    rw [inside_isText]
    exact ⟨fun h _ _ => h, fun h => h (by omega) (by omega)⟩

theorem inside_findTable (rsdt : Nat) :
    Inside n (findTable mem rsdt fadtSignature) ∧
        (tableOf mem fadtSignature rsdt ≠ 0 →
          ∀ k < 4, tableOf mem fadtSignature rsdt + 62 + k < n) ↔ RsdtBelow mem n rsdt := by
  have hnumber : (∀ k < 4, rsdt + 4 + k < n) ↔ rsdt + 8 ≤ n :=
    ⟨fun h => h 3 (by decide), fun h k hk => by omega⟩
  rw [findTable, RsdtBelow]
  by_cases hrsdt : rsdt = 0 ∨ rsdt > tableLimit
  · rw [if_pos hrsdt, tableOf, if_neg (by omega)]
    refine iff_of_true ⟨inside_pure _, fun h => absurd rfl h⟩ ?_
    exact hrsdt.imp_right Or.inl
  · rw [if_neg hrsdt, inside_bind, inside_number, hnumber, number_result]
    simp only [Option.some_inj, forall_eq']
    have hleft {p : Prop} : rsdt = 0 ∨ tableLimit < rsdt ∨ p ↔ p := by
      rw [← or_assoc]
      exact or_iff_right hrsdt
    rw [hleft, and_assoc]
    refine and_congr_right fun _ => ?_
    by_cases htaken : RsdtTaken mem rsdt
    · have hlength := htaken
      rw [RsdtTaken] at hlength
      rw [if_neg (by omega), tableOf, if_pos ⟨by omega, by omega, htaken⟩, findEntry, inside_bind,
        inside_findFirst (tableTest_result mem fadtSignature),
        findFirst_result (tableTest_result mem fadtSignature)]
      change ((∀ before entry after, rsdtEntries mem rsdt = before ++ entry :: after → _ → _) ∧
        (∀ found, some ((rsdtEntries mem rsdt).find? (IsTable mem fadtSignature ·)) = some found →
          _)) ∧ _ ↔ _
      simp only [Option.some_inj, forall_eq', inside_tableTest, decide_eq_false_iff_not]
      constructor
      · rintro ⟨⟨hentries, -⟩, hfield⟩ - before entry after heq hbefore
        obtain ⟨hentry, htext⟩ := hentries before entry after heq hbefore
        refine ⟨hentry, htext, fun htable => ?_⟩
        have hfind : (rsdtEntries mem rsdt).find? (IsTable mem fadtSignature ·) = some entry := by
          rw [heq, List.find?_append, List.find?_eq_none.mpr (by simpa using hbefore),
            Option.none_or, List.find?_cons_of_pos (by simpa using htable)]
        rw [hfind] at hfield
        have hlast := hfield (fun hzero => by
          have hlow := htable.1
          rw [Option.elim_some] at hzero
          omega) 3 (by decide)
        exact hlast
      · intro hall
        have hentries := hall htaken
        have hfound (entry : Nat)
            (hfind : (rsdtEntries mem rsdt).find? (IsTable mem fadtSignature ·) = some entry) :
            EntryBelow mem n entry ∧ IsTable mem fadtSignature entry := by
          obtain ⟨htable, before, after, heq, hbefore⟩ := List.find?_eq_some_iff_append.mp hfind
          refine ⟨hentries before entry after heq fun e he => ?_, by simpa using htable⟩
          simpa using hbefore e he
        refine ⟨⟨fun before entry after heq hbefore => ?_, ?_⟩, ?_⟩
        · obtain ⟨hentry, htext, -⟩ := hentries before entry after heq hbefore
          exact ⟨hentry, htext⟩
        · cases hfind : (rsdtEntries mem rsdt).find? (IsTable mem fadtSignature ·) with
          | none => exact inside_pure _
          | some entry =>
              obtain ⟨⟨hentry, -⟩, -⟩ := hfound entry hfind
              refine (inside_number mem entry 4).mpr fun k hk => ?_
              omega
        · cases hfind : (rsdtEntries mem rsdt).find? (IsTable mem fadtSignature ·) with
          | none => exact fun h => absurd rfl h
          | some entry =>
              obtain ⟨⟨-, -, hfield⟩, htable⟩ := hfound entry hfind
              have hend := hfield htable
              intro _ k hk
              rw [Option.elim_some]
              omega
    · have hlength := htaken
      rw [RsdtTaken] at hlength
      rw [if_pos (by omega), tableOf, if_neg fun h => htaken h.2.2]
      exact iff_of_true ⟨inside_pure _, fun h => absurd rfl h⟩ fun h => absurd h htaken

theorem rsdpPlaces_lt {place : Nat} (h : place ∈ rsdpPlaces mem) : place < 0x100000 := by
  rw [rsdpPlaces] at h
  rcases List.mem_append.mp h with h | h
  · split at h
    next htaken =>
      obtain ⟨i, hi, rfl⟩ := List.mem_range'.mp h
      have hhigh := htaken.2.2
      omega
    next => exact absurd h List.not_mem_nil
  · obtain ⟨i, hi, rfl⟩ := List.mem_range'.mp h
    omega

/-- The search for the RSDP stays in the first megabyte and a few bytes more. -/
theorem inside_biosRsdp (hn : 0x100020 ≤ n) : Inside n (biosRsdp mem) := by
  have htest (place : Nat) (hplace : place < 0x100000) : Inside n (rsdpTest mem place) := by
    rw [rsdpTest, inside_bind, inside_isText]
    refine ⟨fun k hk _ => ?_, fun signed _ => ?_⟩
    · have hlength : rsdpSignature.length = 8 := rfl
      omega
    · split
      · rw [inside_bind, inside_sumLoop]
        exact ⟨fun k hk => by omega, fun _ _ => inside_pure _⟩
      · exact inside_pure _
  have hrange (start length : Nat) (hstart : start + length ≤ 0x100000)
      (hlength : length % 16 = 0) : Inside n (findRsdpInRange mem start length) := by
    rw [findRsdpInRange, inside_bind, inside_findFirst (rsdpTest_result mem)]
    refine ⟨fun before place after heq _ => htest place ?_, fun _ _ => inside_pure _⟩
    have hmem : place ∈ List.range' start ((length + 15) / 16) 16 := by
      rw [heq]
      exact List.mem_append_right _ List.mem_cons_self
    obtain ⟨i, hi, rfl⟩ := List.mem_range'.mp hmem
    omega
  rw [biosRsdp, inside_bind]
  constructor
  · rw [ebdaRsdp, inside_bind, inside_number]
    refine ⟨fun k hk => by omega, fun seg _ => ?_⟩
    split
    next htaken => exact hrange _ _ (by omega) rfl
    next => exact inside_pure _
  · intro _ _
    split
    · exact hrange _ _ (by decide) rfl
    · exact inside_pure _

/-- All that `acpi_init` reads lies below a limit exactly when the RSDT of the first RSDP does
as far as it is searched. -/
theorem inside_acpiInit (hn : 0x100020 ≤ n) (acpi : Acpi) :
    Inside n (acpiInit mem acpi) ↔
      ∀ rsdp, (rsdpPlaces mem).find? (IsRsdp mem ·) = some rsdp →
        RsdtBelow mem n (mem.loadLe (rsdp + 16) 4) := by
  rw [acpiInit, inside_bind, biosRsdp_result]
  simp only [Option.some_inj, forall_eq', inside_biosRsdp hn, true_and]
  cases hfound : (rsdpPlaces mem).find? (IsRsdp mem ·) with
  | none => exact iff_of_true (inside_pure _) fun _ h => absurd h (by simp)
  | some rsdp =>
      have hmem := List.mem_of_find?_eq_some hfound
      have hpos := rsdpPlaces_pos hmem
      have hlt := rsdpPlaces_lt hmem
      simp only [Option.getD_some, Option.some_inj, forall_eq']
      rw [if_neg (by omega), inside_bind, inside_number, number_result]
      simp only [Option.some_inj, forall_eq']
      rw [← inside_findTable, inside_bind, findTable_result]
      simp only [Option.some_inj, forall_eq']
      rw [and_iff_right (show ∀ k < 4, rsdp + 16 + k < n from fun k hk => by omega)]
      refine and_congr_right fun _ => ?_
      split
      next hzero => exact iff_of_true (inside_pure _) fun h => absurd hzero h
      next hne =>
        rw [inside_bind, inside_number]
        exact ⟨fun h _ => h.1, fun h => ⟨h hne, fun _ _ => inside_pure _⟩⟩

end Dosfs
