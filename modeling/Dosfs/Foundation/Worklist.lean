import Mathlib.Data.List.Nodup
import Mathlib.Data.List.Pairwise
import Mathlib.Data.List.TakeDrop

/-!
# Lists that grow while they are visited

A table of bounded size is visited from the front, and every entry appends the
entries it leads to. What is found are entries reachable from the first ones; all
of them, if the table does not fill up; and each once, if no two reachable entries
lead to a common one.
-/

namespace Foundation

variable {α : Type*}

/-- Visit the entries from `i` on; each one adds those it leads to, as far as there
is room. The result is `none` when the fuel runs out. -/
def growList (next : α → List α) (capacity : Nat) : Nat → Nat → List α → Option (List α)
  | 0, _, _ => none
  | fuel + 1, i, table =>
      match table[i]? with
      | none => some table
      | some a => growList next capacity fuel (i + 1) ((table ++ next a).take capacity)

/-- The entries to which the first ones lead. -/
inductive Leads (root : List α) (next : α → List α) : α → Prop
  | root {a : α} (h : a ∈ root) : Leads root next a
  | step {a b : α} (h : Leads root next a) (hb : b ∈ next a) : Leads root next b

/-- The first `i` entries have been visited. -/
structure Visited (root : List α) (next : α → List α) (capacity i : Nat) (table : List α) :
    Prop where
  bound : i ≤ table.length
  grown : table = (root ++ (table.take i).flatMap next).take capacity

variable {root : List α} {next : α → List α} {capacity fuel i : Nat} {table result : List α}

/-- Lists whose entries name the item they stand for do not overlap. -/
theorem nodup_flatMap_of_key {ι : Type*} {l : List ι} {f : ι → List α} (key : α → ι)
    (hl : l.Nodup) (hf : ∀ i ∈ l, (f i).Nodup) (hkey : ∀ i ∈ l, ∀ a ∈ f i, key a = i) :
    (l.flatMap f).Nodup := by
  refine List.nodup_flatMap.mpr ⟨hf, hl.imp_of_mem fun {i j} hi hj hne a ha hb => hne ?_⟩
  rw [← hkey i hi a ha, hkey j hj a hb]

theorem take_append_take (l m : List α) (n : Nat) : (l.take n ++ m).take n = (l ++ m).take n := by
  rw [List.take_append, List.take_append, List.take_take, Nat.min_self, List.length_take]
  congr 2
  omega

theorem Visited.length_le (h : Visited root next capacity i table) : table.length ≤ capacity := by
  rw [h.grown]
  exact List.length_take_le _ _

theorem Visited.start : Visited root next capacity 0 (root.take capacity) :=
  ⟨Nat.zero_le _, by simp⟩

theorem Visited.step {a : α} (h : Visited root next capacity i table) (ha : table[i]? = some a) :
    Visited root next capacity (i + 1) ((table ++ next a).take capacity) := by
  obtain ⟨hi, hget⟩ := List.getElem?_eq_some_iff.mp ha
  have htaken : ((table ++ next a).take capacity).take (i + 1) = table.take i ++ [a] := by
    have hle := h.length_le
    rw [List.take_take, Nat.min_eq_left (by omega), List.take_append_of_le_length (by omega),
      List.take_add_one, ha, Option.toList_some]
  refine ⟨?_, ?_⟩
  · have hle := h.length_le
    rw [List.length_take, List.length_append]
    omega
  · rw [htaken, List.flatMap_append, List.flatMap_singleton, ← List.append_assoc,
      ← take_append_take (root ++ _), ← h.grown]

/-- What every visit keeps holds when the whole table has been visited. -/
theorem growList_preserves (inv : List α → Prop)
    (hstep : ∀ i table a, Visited root next capacity i table → inv table → table[i]? = some a →
      inv ((table ++ next a).take capacity))
    (hrun : growList next capacity fuel i table = some result)
    (hvisited : Visited root next capacity i table) (hinv : inv table) :
    Visited root next capacity result.length result ∧ inv result := by
  induction fuel generalizing i table with
  | zero => exact absurd hrun.symm (Option.some_ne_none _)
  | succ fuel ih =>
      rw [growList] at hrun
      split at hrun
      next hend =>
        have hlen := List.getElem?_eq_none_iff.mp hend
        obtain rfl := Option.some.inj hrun
        obtain rfl : i = table.length := Nat.le_antisymm hvisited.bound hlen
        exact ⟨hvisited, hinv⟩
      next a ha => exact ih hrun (hvisited.step ha) (hstep i table a hvisited hinv ha)

/-- A bounded table is visited in as many rounds as it has room, and one more. -/
theorem growList_returns (hvisited : Visited root next capacity i table)
    (hfuel : capacity < fuel + i) :
    ∃ result, growList next capacity fuel i table = some result := by
  induction fuel generalizing i table with
  | zero =>
      have hbound := hvisited.bound
      have hle := hvisited.length_le
      omega
  | succ fuel ih =>
      rw [growList]
      split
      · exact ⟨table, rfl⟩
      next a ha => exact ih (hvisited.step ha) (by omega)

section Result

variable (hrun : growList next capacity fuel 0 (root.take capacity) = some result)

include hrun

/-- The first entries, and those to which the entries of the table lead. -/
theorem growList_eq : result = (root ++ result.flatMap next).take capacity := by
  have h := (growList_preserves (fun _ => True) (fun _ _ _ _ _ _ => trivial) hrun .start trivial).1
  have hgrown := h.grown
  rwa [List.take_length] at hgrown

/-- Only entries to which the first ones lead are found. -/
theorem growList_leads : ∀ a ∈ result, Leads root next a := by
  refine (growList_preserves (fun table => ∀ a ∈ table, Leads root next a) ?_ hrun .start ?_).2
  · intro i table a _ hinv ha b hb
    rcases List.mem_append.mp (List.mem_of_mem_take hb) with hb | hb
    · exact hinv b hb
    · exact (hinv a (List.mem_of_getElem? ha)).step hb
  · exact fun a ha => .root (List.mem_of_mem_take ha)

/-- A table that is not full has the first entries, and those to which its own
lead. -/
theorem growList_eq_of_lt (hroom : result.length < capacity) :
    result = root ++ result.flatMap next := by
  have h := growList_eq hrun
  have hlen := congrArg List.length h
  rw [List.length_take] at hlen
  rwa [List.take_of_length_le (by omega)] at h

/-- A table that is not full has all entries to which the first ones lead. -/
theorem mem_growList_of_leads (hroom : result.length < capacity) {a : α}
    (h : Leads root next a) : a ∈ result := by
  induction h with
  | root ha =>
      rw [growList_eq_of_lt hrun hroom]
      exact List.mem_append_left _ ha
  | step _ hb ih =>
      rw [growList_eq_of_lt hrun hroom]
      exact List.mem_append_right _ (List.mem_flatMap.mpr ⟨_, ih, hb⟩)

/-- In a table without duplicates that is not full, no two entries lead to a
common one. -/
theorem growList_unique (hroom : result.length < capacity) (hnodup : result.Nodup) {a b c : α}
    (ha : a ∈ result) (hb : b ∈ result) (hca : c ∈ next a) (hcb : c ∈ next b) : a = b := by
  rw [growList_eq_of_lt hrun hroom] at hnodup
  have hpairs := (List.nodup_flatMap.mp (List.nodup_append.mp hnodup).2.1).2
  have : Std.Symm (Function.onFun List.Disjoint next) := ⟨fun _ _ h _ hb ha => h ha hb⟩
  by_contra hne
  exact hpairs.forall ha hb hne hca hcb

/-- If no entry is listed twice at once, and no two entries lead to a common one,
the table has no duplicates. -/
theorem growList_nodup (hroot : root.Nodup) (hnext : ∀ a, (next a).Nodup)
    (hfresh : ∀ a, Leads root next a → ∀ c ∈ next a, c ∉ root)
    (hunique : ∀ a b, Leads root next a → Leads root next b →
      ∀ c, c ∈ next a → c ∈ next b → a = b) : result.Nodup := by
  refine (growList_preserves (fun table => table.Nodup ∧ ∀ a ∈ table, Leads root next a)
    ?_ hrun .start ?_).2.1
  · rintro i table a hvisited ⟨hnodup, hleads⟩ ha
    have hmem := List.mem_of_getElem? ha
    refine ⟨((List.nodup_append.mpr ⟨hnodup, hnext a, ?_⟩).sublist (List.take_sublist _ _)), ?_⟩
    · -- an entry of the table came from the first ones or from an earlier entry
      rintro c hc _ hca rfl
      rw [hvisited.grown] at hc
      rcases List.mem_append.mp (List.mem_of_mem_take hc) with hc | hc
      · exact hfresh a (hleads a hmem) c hca hc
      · obtain ⟨b, hb, hcb⟩ := List.mem_flatMap.mp hc
        have hba := hunique b a (hleads b (List.mem_of_mem_take hb)) (hleads a hmem) c hcb hca
        obtain ⟨j, hj, hjb⟩ := List.mem_take_iff_getElem.mp hb
        obtain ⟨hi, hia⟩ := List.getElem?_eq_some_iff.mp ha
        have hij := (hnodup.getElem_inj_iff).mp (hjb.trans (hba.trans hia.symm))
        omega
    · intro b hb
      rcases List.mem_append.mp (List.mem_of_mem_take hb) with hb | hb
      · exact hleads b hb
      · exact (hleads a hmem).step hb
  · exact ⟨hroot.sublist (List.take_sublist _ _), fun a ha => .root (List.mem_of_mem_take ha)⟩

end Result

end Foundation
