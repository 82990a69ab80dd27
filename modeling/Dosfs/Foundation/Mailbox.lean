import Mathlib.Data.List.Basic
import Mathlib.Data.List.Forall2

/-!
# A place for one item

A mailbox that holds the last item only: a deposit overwrites what is there, and emptying
it takes the item away or throws it away. The items that were taken are the last ones of
the gaps into which the emptyings cut the deposits.
-/

namespace Foundation

variable {α : Type*} {deposited : List α} {emptied : List (Option α)} {pending : Option α}

/-- What was deposited, what the emptyings took (`none` when it was thrown away), and what is
in the place: every emptying ends a gap, and what it took is the last item of the gap. -/
def Latest (deposited : List α) (emptied : List (Option α)) (pending : Option α) : Prop :=
  ∃ gaps rest, deposited = gaps.flatten ++ rest ∧ pending = rest.getLast? ∧
    List.Forall₂ (fun gap taken => ∀ a, taken = some a → gap.getLast? = some a) gaps emptied

namespace Latest

theorem nil : Latest ([] : List α) [] none := ⟨[], [], rfl, rfl, .nil⟩

theorem deposit (h : Latest deposited emptied pending) (items : List α) :
    Latest (deposited ++ items) emptied (items.getLast?.or pending) := by
  obtain ⟨gaps, rest, rfl, rfl, htaken⟩ := h
  exact ⟨gaps, rest ++ items, List.append_assoc _ _ _, List.getLast?_append.symm, htaken⟩

/-- The place is emptied, and the item perhaps taken. -/
theorem empty (h : Latest deposited emptied pending) {taken : Option α}
    (htaken : ∀ a, taken = some a → pending = some a) :
    Latest deposited (emptied ++ [taken]) none := by
  obtain ⟨gaps, rest, rfl, rfl, hgaps⟩ := h
  refine ⟨gaps ++ [rest], [], ?_, rfl, List.rel_append hgaps (.cons htaken .nil)⟩
  rw [List.flatten_append, List.flatten_singleton, List.append_nil]

/-- Nothing is taken that was not deposited, nothing twice and nothing out of order. -/
theorem sublist (h : Latest deposited emptied pending) :
    (emptied.filterMap id ++ pending.toList).Sublist deposited := by
  obtain ⟨gaps, rest, rfl, rfl, hgaps⟩ := h
  have hlast (list : List α) : list.getLast?.toList.Sublist list := by
    cases hlist : list.getLast? with
    | none => exact List.nil_sublist _
    | some a => exact List.singleton_sublist.mpr (List.mem_of_getLast? hlist)
  refine List.Sublist.append ?_ (hlast rest)
  induction hgaps with
  | nil => exact List.nil_sublist _
  | @cons gap taken gaps emptied htaken _ ih =>
      cases taken with
      | none => exact ih.trans (List.sublist_append_right _ _)
      | some a =>
          have hgap := hlast gap
          rw [htaken a rfl] at hgap
          exact List.Sublist.append hgap ih

end Latest

end Foundation
