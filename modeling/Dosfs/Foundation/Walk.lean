import Mathlib.Data.Finset.Card
import Mathlib.Logic.Function.Iterate
import Dosfs.Foundation.Chain

/-!
# Walks along a successor table

A walk follows the links of a table as long as they lead to cells, whatever the
table holds: it may run in circles. A walk that clears each cell after reading
its link cannot, since a cell met again leads out. It visits the cells reachable
from its start, and their number bounds it.
-/

namespace Foundation

variable {α : Type*} {kind : CellKind α} {next next' : α → α}

/-- The cells reachable from a cell are itself and those reachable from its
successor, even after the cell itself was cleared. -/
theorem reaches_iff_cleared [DecidableEq α] {zero c x : α} (hzero : ¬ kind.inside zero)
    (hc : kind.inside c) :
    Reaches kind next c x ↔
      x = c ∨ Reaches kind (Function.update next c zero) (next c) x := by
  constructor
  · intro hreach
    induction hreach with
    | start => exact Or.inl rfl
    | @step y hy hin ih =>
        rcases ih with rfl | hy'
        · exact Or.inr (.start hin)
        · by_cases heq : y = c
          · subst y
            exact Or.inr (.start hin)
          · have hkept : Function.update next c zero y = next y := Function.update_of_ne heq ..
            exact Or.inr (hkept ▸ hy'.step (hkept.symm ▸ hin))
  · rintro (rfl | hreach)
    · exact .start hc
    · -- a step of the walk cannot leave the cleared cell
      refine Reaches.prepend (hreach.of_agree fun y _ hin => ?_) hc
      have hne : y ≠ c := by
        rintro rfl
        rw [Function.update_self] at hin
        exact hzero hin
      exact (Function.update_of_ne hne ..).symm

/-- The cells visited by a walk that clears each cell after reading its link;
`none` when the fuel runs out. -/
def clearWalk [DecidableEq α] (kind : CellKind α) [DecidablePred kind.inside] (zero : α) :
    Nat → α → (α → α) → Option (List α)
  | 0, _, _ => none
  | fuel + 1, c, next =>
      if kind.inside c then
        (clearWalk kind zero fuel (next c) (Function.update next c zero)).map (c :: ·)
      else some []

variable [DecidableEq α] [DecidablePred kind.inside] {zero : α}

theorem clearWalk_outside {fuel : Nat} {c : α} (hc : ¬ kind.inside c) :
    clearWalk kind zero (fuel + 1) c next = some [] := by
  rw [clearWalk, if_neg hc]

/-- More fuel does not change what a walk visits. -/
theorem clearWalk_mono {fuel fuel' : Nat} (hle : fuel ≤ fuel') {c : α} {visited : List α}
    (hwalk : clearWalk kind zero fuel c next = some visited) :
    clearWalk kind zero fuel' c next = some visited := by
  induction fuel generalizing fuel' c next visited with
  | zero => cases hwalk
  | succ fuel ih =>
      obtain ⟨fuel', rfl⟩ : ∃ k, fuel' = k + 1 := ⟨fuel' - 1, by omega⟩
      rw [clearWalk] at hwalk ⊢
      split_ifs at hwalk ⊢ with hc
      · obtain ⟨rest, hrest, rfl⟩ := Option.map_eq_some_iff.mp hwalk
        rw [ih (by omega) hrest]
        rfl
      · exact hwalk

/-- The walk ends: each turn but the last two clears a cell that led to a cell.
It visits what is reachable from its start. -/
theorem clearWalk_visits (hzero : ¬ kind.inside zero) {cells : Finset α}
    (hcells : ∀ c, kind.inside c → c ∈ cells) {c : α} {fuel : Nat}
    (hfuel : (cells.filter fun x => kind.inside (next x)).card + 2 ≤ fuel) :
    ∃ visited, clearWalk kind zero fuel c next = some visited ∧
      ∀ x, x ∈ visited ↔ Reaches kind next c x := by
  induction fuel generalizing c next with
  | zero => omega
  | succ fuel ih =>
      by_cases hc : kind.inside c
      · have hrest : ∃ visited,
            clearWalk kind zero fuel (next c) (Function.update next c zero) = some visited ∧
              ∀ x, x ∈ visited ↔ Reaches kind (Function.update next c zero) (next c) x := by
          by_cases hnext : kind.inside (next c)
          · -- the cleared cell no longer counts
            have hsub : (cells.filter fun x => kind.inside (Function.update next c zero x)) ⊆
                (cells.filter fun x => kind.inside (next x)).erase c := by
              intro x hx
              rw [Finset.mem_filter] at hx
              have hne : x ≠ c := by
                rintro rfl
                rw [Function.update_self] at hx
                exact hzero hx.2
              rw [Function.update_of_ne hne] at hx
              exact Finset.mem_erase.mpr ⟨hne, Finset.mem_filter.mpr hx⟩
            have hmem : c ∈ cells.filter fun x => kind.inside (next x) :=
              Finset.mem_filter.mpr ⟨hcells c hc, hnext⟩
            have hcard := Finset.card_le_card hsub
            rw [Finset.card_erase_of_mem hmem] at hcard
            have hpos := Finset.card_pos.mpr ⟨c, hmem⟩
            exact ih (by omega)
          · obtain ⟨fuel, rfl⟩ : ∃ k, fuel = k + 1 := ⟨fuel - 1, by omega⟩
            refine ⟨[], clearWalk_outside hnext, fun x => ?_⟩
            exact iff_of_false List.not_mem_nil fun hreach => hnext hreach.head_inside
        obtain ⟨visited, hwalk, hvisited⟩ := hrest
        refine ⟨c :: visited, by rw [clearWalk, if_pos hc, hwalk]; rfl, fun x => ?_⟩
        rw [List.mem_cons, hvisited, reaches_iff_cleared hzero hc]
      · refine ⟨[], clearWalk_outside hc, fun x => ?_⟩
        exact iff_of_false List.not_mem_nil fun hreach => hc hreach.head_inside

end Foundation
