import Mathlib.Data.List.FinRange
import Mathlib.Logic.Function.Basic

/-!
# Tables searched from the front

A table of slots in which a key may occur more than once. The values under a key
form a list in the order of the slots; a search finds its head, and replacing or
emptying the slot found replaces or drops the head.
-/

namespace Foundation.SlotTable

variable {n : Nat} {κ β : Type*} [DecidableEq κ]

/-- The value of a slot that has the key. -/
def valueUnder (k : κ) : Option (κ × β) → Option β
  | some (key, v) => if key = k then some v else none
  | none => none

@[simp] theorem valueUnder_none (k : κ) : valueUnder k (none : Option (κ × β)) = none := rfl

@[simp] theorem valueUnder_self (k : κ) (v : β) : valueUnder k (some (k, v)) = some v := if_pos rfl

theorem valueUnder_of_ne {k key : κ} (hne : key ≠ k) (v : β) :
    valueUnder k (some (key, v)) = none :=
  if_neg hne

theorem valueUnder_eq_some {k : κ} {slot : Option (κ × β)} {v : β} :
    valueUnder k slot = some v ↔ slot = some (k, v) := by
  constructor
  · intro h
    match slot with
    | none => exact absurd h (Option.some_ne_none v).symm
    | some (key, w) =>
        rw [valueUnder] at h
        split_ifs at h with hkey
        rw [hkey, Option.some.inj h]
  · rintro rfl
    exact valueUnder_self k v

/-- The values under a key, in the order of the slots. -/
def values (slots : Fin n → Option (κ × β)) (k : κ) : List β :=
  (List.finRange n).filterMap fun i => valueUnder k (slots i)

/-- The first slot with the key. -/
def first (slots : Fin n → Option (κ × β)) (k : κ) : Option (Fin n) :=
  (List.finRange n).find? fun i => (valueUnder k (slots i)).isSome

variable {slots : Fin n → Option (κ × β)} {k : κ} {i : Fin n}

/-- What the other slots hold under the key does not depend on the slot, and in
front of the first slot there is nothing. -/
theorem exists_values_update (slots : Fin n → Option (κ × β)) (k : κ) (i : Fin n) :
    ∃ before after, (first slots k = some i → before = []) ∧ ∀ slot,
      values (Function.update slots i slot) k = before ++ (valueUnder k slot).toList ++ after := by
  obtain ⟨front, back, hsplit⟩ := List.append_of_mem (List.mem_finRange i)
  have hnodup := hsplit ▸ List.nodup_finRange n
  obtain ⟨-, hback, hapart⟩ := List.nodup_append.1 hnodup
  have hfront : i ∉ front := fun hi => hapart i hi i List.mem_cons_self rfl
  refine ⟨front.filterMap fun j => valueUnder k (slots j),
    back.filterMap fun j => valueUnder k (slots j), fun hfirst => ?_, fun slot => ?_⟩
  · rw [List.filterMap_eq_nil_iff]
    intro j hj
    rw [first, hsplit, List.find?_append, Option.or_eq_some_iff] at hfirst
    rcases hfirst with hfound | ⟨hnone, -⟩
    · exact absurd (List.mem_of_find?_eq_some hfound) hfront
    · simpa using List.find?_eq_none.1 hnone j hj
  · have hkept (list : List (Fin n)) (hi : i ∉ list) :
        (list.filterMap fun j => valueUnder k (Function.update slots i slot j)) =
          list.filterMap fun j => valueUnder k (slots j) := by
      apply List.filterMap_congr
      intro j hj
      rw [Function.update_of_ne (ne_of_mem_of_not_mem hj hi)]
    rw [values, hsplit, List.filterMap_append, hkept front hfront, List.append_assoc]
    congr 1
    rw [List.filterMap_cons, Function.update_self, hkept back (List.nodup_cons.1 hback).1]
    cases valueUnder k slot <;> rfl

theorem values_eq_nil_iff : values slots k = [] ↔ first slots k = none := by
  rw [values, List.filterMap_eq_nil_iff, first, List.find?_eq_none]
  simp

theorem exists_of_first (hfirst : first slots k = some i) : ∃ v, slots i = some (k, v) := by
  have hsome : (valueUnder k (slots i)).isSome = true := by
    simpa [first] using List.find?_some hfirst
  obtain ⟨v, hv⟩ := Option.isSome_iff_exists.1 hsome
  exact ⟨v, valueUnder_eq_some.1 hv⟩

/-- The entry found is the head; another one in its place becomes the head if it
has the key, and otherwise the head is gone. -/
theorem values_update_first (hfirst : first slots k = some i) (slot : Option (κ × β)) :
    values (Function.update slots i slot) k =
      (valueUnder k slot).toList ++ (values slots k).tail := by
  obtain ⟨before, after, hbefore, hupdate⟩ := exists_values_update slots k i
  obtain ⟨old, hold⟩ := exists_of_first hfirst
  have hvalues := hupdate (slots i)
  rw [Function.update_eq_self, hold, valueUnder_self, hbefore hfirst] at hvalues
  rw [hupdate, hvalues, hbefore hfirst]
  rfl

theorem values_eq_cons {v : β} (hfirst : first slots k = some i) (hslot : slots i = some (k, v)) :
    values slots k = v :: (values slots k).tail := by
  have hupdate := values_update_first hfirst (slots i)
  rwa [Function.update_eq_self, hslot, valueUnder_self] at hupdate

theorem values_replace (hfirst : first slots k = some i) (v : β) :
    values (Function.update slots i (some (k, v))) k = v :: (values slots k).tail := by
  rw [values_update_first hfirst, valueUnder_self]
  rfl

theorem values_clear (hfirst : first slots k = some i) :
    values (Function.update slots i none) k = (values slots k).tail := by
  rw [values_update_first hfirst, valueUnder_none]
  rfl

theorem values_add (hempty : slots i = none) (habsent : values slots k = []) (v : β) :
    values (Function.update slots i (some (k, v))) k = [v] := by
  obtain ⟨before, after, -, hupdate⟩ := exists_values_update slots k i
  have hvalues := hupdate (slots i)
  rw [Function.update_eq_self, habsent, hempty, valueUnder_none, Option.toList_none,
    List.append_nil, eq_comm, List.append_eq_nil_iff] at hvalues
  rw [hupdate, hvalues.1, hvalues.2, valueUnder_self]
  rfl

/-- A slot that neither had nor gets the key. -/
theorem values_update_of_none {slot : Option (κ × β)} (hold : valueUnder k (slots i) = none)
    (hnew : valueUnder k slot = none) :
    values (Function.update slots i slot) k = values slots k := by
  obtain ⟨before, after, -, hupdate⟩ := exists_values_update slots k i
  have hvalues := hupdate (slots i)
  rw [Function.update_eq_self, hold] at hvalues
  rw [hupdate, hvalues, hnew]

end Foundation.SlotTable
