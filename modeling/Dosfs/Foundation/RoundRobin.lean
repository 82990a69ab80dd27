import Mathlib.Data.List.Basic
import Mathlib.Data.Int.Init
import Mathlib.Logic.Function.Iterate

/-!
# Round robin

A table seen as an endless line of slots that repeats after each round. A turn
goes to the first eligible slot from a position on, and the next one starts
behind it. So the turns go to the eligible slots of one round in their order, and
each turn moves the first of them to the end.
-/

namespace Foundation.RoundRobin

variable {α σ : Type*} {slot : Int → α} {eligible : α → Bool} {size : Nat} {start : Int}

/-- So many slots from a position on. -/
def line (slot : Int → α) (start : Int) (count : Nat) : List α :=
  (List.range count).map fun i : Nat => slot (start + i)

/-- The eligible slots of one round, from a position on. -/
def tour (slot : Int → α) (eligible : α → Bool) (size : Nat) (start : Int) : List α :=
  (line slot start size).filter eligible

theorem line_add (m n : Nat) :
    line slot start (m + n) = line slot start m ++ line slot (start + m) n := by
  simp [line, List.range_add, Int.add_assoc]

theorem line_period (hperiod : ∀ a, slot (a + size) = slot a) (n : Nat) :
    line slot (start + size) n = line slot start n := by
  refine List.map_congr_left fun i _ => ?_
  rw [Int.add_right_comm, hperiod]

theorem mem_line {x : α} {count : Nat} :
    x ∈ line slot start count ↔ ∃ i < count, slot (start + i) = x := by
  simp [line]

theorem tour_congr {start' : Int} (hstart : ∀ i : Nat, slot (start + i) = slot (start' + i)) :
    tour slot eligible size start = tour slot eligible size start' := by
  rw [tour, tour, line, List.map_congr_left fun i _ => hstart i]
  rfl

/-- After the turn of the first eligible slot the tour starts behind it. -/
theorem tour_next (hperiod : ∀ a, slot (a + size) = slot a) {offset : Nat}
    (hoffset : offset < size) (hturn : eligible (slot (start + offset)) = true)
    (hbefore : ∀ i < offset, eligible (slot (start + i)) = false) :
    ∃ rest, tour slot eligible size start = slot (start + offset) :: rest ∧
      tour slot eligible size (start + offset + 1) = rest ++ [slot (start + offset)] := by
  obtain ⟨count, rfl⟩ := Nat.exists_eq_add_of_lt hoffset
  have hskipped : (line slot start offset).filter eligible = [] := by
    refine List.filter_eq_nil_iff.2 fun x hx => ?_
    obtain ⟨i, hi, rfl⟩ := mem_line.1 hx
    simp [hbefore i hi]
  have hone : line slot (start + offset) 1 = [slot (start + offset)] := by
    simp [line]
  refine ⟨(line slot (start + offset + 1) count).filter eligible, ?_, ?_⟩
  · have hsplit : offset + count + 1 = offset + (1 + count) := by omega
    rw [tour, hsplit, line_add, line_add, hone, List.filter_append, hskipped]
    simp [hturn]
  · -- the slots before the turn come again behind the end of the round
    have hwrap : line slot (start + offset + 1 + count) (offset + 1) =
        line slot start (offset + 1) := by
      have hshift : start + offset + 1 + count = start + (offset + count + 1 : Nat) := by
        push_cast
        omega
      rw [hshift]
      exact line_period hperiod _
    have hsplit : offset + count + 1 = count + (offset + 1) := by omega
    rw [tour, hsplit, line_add, hwrap, line_add, hone, List.filter_append, List.filter_append,
      hskipped]
    simp [hturn]

/-- If each step gives the turn to the first of a list and moves it to the end,
then as many steps as the list is long go through the list. -/
theorem turns_eq {τ : Type*} (step : σ → σ) (inv : σ → Prop) (queue : σ → List α) (turn : σ → τ)
    (label : α → τ)
    (hstep : ∀ s x rest, inv s → queue s = x :: rest →
      inv (step s) ∧ turn (step s) = label x ∧ queue (step s) = rest ++ [x])
    {s : σ} (hinv : inv s) :
    (List.range (queue s).length).map (fun i => turn (step^[i + 1] s)) = (queue s).map label := by
  have hpart (todo : List α) : ∀ (s : σ) (served : List α), inv s → queue s = todo ++ served →
      (List.range todo.length).map (fun i => turn (step^[i + 1] s)) = todo.map label := by
    induction todo with
    | nil => exact fun _ _ _ _ => rfl
    | cons x todo ih =>
        intro s served hinv hqueue
        obtain ⟨hinv', hturn, hqueue'⟩ := hstep s x (todo ++ served) hinv hqueue
        rw [List.append_assoc] at hqueue'
        have hrest := ih (step s) _ hinv' hqueue'
        rw [List.length_cons, List.range_succ_eq_map, List.map_cons, List.map_map]
        exact congrArg₂ List.cons hturn hrest
  exact hpart (queue s) s [] hinv (List.append_nil _).symm

end Foundation.RoundRobin
