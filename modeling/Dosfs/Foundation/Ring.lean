import Mathlib.Data.List.Basic
import Mathlib.Data.List.Range
import Mathlib.Data.Nat.ModEq
import Mathlib.Logic.Function.Basic

/-!
# Ring buffers

A ring of `size` slots with the index of its oldest element and the index of
its first free slot. Both indices wrap around, and equal indices mean that the
ring is empty, so it never holds more than `size - 1` elements. Slots outside
may hold anything.
-/

namespace Foundation.Ring

variable {α : Type*} {size head tail : Nat} {slots slots' : Nat → α}

/-- The number of slots from `head` up to `tail`. -/
def count (size head tail : Nat) : Nat := (tail + size - head) % size

/-- The elements in the ring, oldest first. -/
def contents (size head tail : Nat) (slots : Nat → α) : List α :=
  (List.range (count size head tail)).map fun i => slots ((head + i) % size)

theorem count_lt (hhead : head < size) : count size head tail < size :=
  Nat.mod_lt _ (Nat.zero_lt_of_lt hhead)

theorem count_eq_zero_iff (hhead : head < size) (htail : tail < size) :
    count size head tail = 0 ↔ head = tail := by
  unfold count
  rcases Nat.lt_or_ge tail head with hlt | hge
  · rw [Nat.mod_eq_of_lt (by omega)]
    omega
  · rw [show tail + size - head = tail - head + size by omega, Nat.add_mod_right,
      Nat.mod_eq_of_lt (by omega)]
    omega

/-- The slot after the last element is the free one. -/
theorem add_count_mod (hhead : head < size) (htail : tail < size) :
    (head + count size head tail) % size = tail := by
  rw [count, Nat.add_mod_mod, show head + (tail + size - head) = tail + size by omega,
    Nat.add_mod_right, Nat.mod_eq_of_lt htail]

theorem index_inj {i j : Nat} (hi : i < size) (hj : j < size)
    (heq : (head + i) % size = (head + j) % size) : i = j :=
  Nat.ModEq.eq_of_lt_of_lt (Nat.ModEq.add_left_cancel' head heq) hi hj

@[simp] theorem contents_length :
    (contents size head tail slots).length = count size head tail := by
  rw [contents, List.length_map, List.length_range]

theorem contents_eq_nil_iff (hhead : head < size) (htail : tail < size) :
    contents size head tail slots = [] ↔ head = tail := by
  rw [← List.length_eq_zero_iff, contents_length, count_eq_zero_iff hhead htail]

/-- The ring is full when the slot after the free one is the oldest. -/
theorem full_iff (hhead : head < size) (htail : tail < size) :
    (tail + 1) % size = head ↔ count size head tail = size - 1 := by
  have hcount : count size head tail < size := count_lt hhead
  constructor
  · intro hfull
    have hnext : (head + (count size head tail + 1)) % size = (head + 0) % size := by
      rw [← Nat.add_assoc, Nat.add_mod, add_count_mod hhead htail, Nat.add_zero,
        Nat.mod_eq_of_lt hhead, ← hfull, Nat.add_mod_mod]
    by_contra hne
    have hzero := index_inj (by omega) (by omega) hnext
    omega
  · intro hlast
    rw [← add_count_mod hhead htail, hlast, Nat.mod_add_mod,
      show head + (size - 1) + 1 = head + size by omega, Nat.add_mod_right,
      Nat.mod_eq_of_lt hhead]

theorem count_push (hhead : head < size) (htail : tail < size) (hroom : (tail + 1) % size ≠ head) :
    count size head ((tail + 1) % size) = count size head tail + 1 := by
  have hnot := (full_iff hhead htail).not.1 hroom
  have hcount : count size head tail < size := count_lt hhead
  have hnext : (tail + 1) % size < size := Nat.mod_lt _ (by omega)
  have hsame : (head + count size head ((tail + 1) % size)) % size =
      (head + (count size head tail + 1)) % size := by
    rw [add_count_mod hhead hnext, ← Nat.add_assoc, ← Nat.mod_add_mod (head + _),
      add_count_mod hhead htail]
  exact index_inj (count_lt hhead) (by omega) hsame

theorem count_pop (hhead : head < size) (htail : tail < size) (hne : head ≠ tail) :
    count size head tail = count size ((head + 1) % size) tail + 1 := by
  have hnot := (count_eq_zero_iff hhead htail).not.2 hne
  have hcount : count size head tail < size := count_lt hhead
  have hnext : (head + 1) % size < size := Nat.mod_lt _ (by omega)
  have hsame : ((head + 1) % size + (count size head tail - 1)) % size =
      ((head + 1) % size + count size ((head + 1) % size) tail) % size := by
    rw [add_count_mod hnext htail, Nat.mod_add_mod,
      show head + 1 + (count size head tail - 1) = head + count size head tail by omega,
      add_count_mod hhead htail]
  have hlen := index_inj (by omega) (count_lt hnext) hsame
  omega

/-- Only the slots in use matter. -/
theorem contents_congr
    (h : ∀ i < count size head tail, slots ((head + i) % size) = slots' ((head + i) % size)) :
    contents size head tail slots = contents size head tail slots' :=
  List.map_congr_left fun i hi => h i (List.mem_range.1 hi)

/-- Filling the free slot appends. -/
theorem contents_push (hhead : head < size) (htail : tail < size)
    (hroom : (tail + 1) % size ≠ head) (a : α) :
    contents size head ((tail + 1) % size) (Function.update slots tail a) =
      contents size head tail slots ++ [a] := by
  rw [contents, count_push hhead htail hroom, List.range_succ, List.map_append, List.map_singleton,
    add_count_mod hhead htail, Function.update_self]
  congr 1
  apply contents_congr
  intro i hi
  apply Function.update_of_ne
  intro heq
  rw [← add_count_mod hhead htail] at heq
  have hsame := index_inj (hi.trans (count_lt hhead)) (count_lt hhead) heq
  omega

/-- Moving on from the oldest slot drops the first element. -/
theorem contents_pop (hhead : head < size) (htail : tail < size) (hne : head ≠ tail) :
    contents size head tail slots =
      slots head :: contents size ((head + 1) % size) tail slots := by
  rw [contents, count_pop hhead htail hne, List.range_succ_eq_map, List.map_cons, Nat.add_zero,
    Nat.mod_eq_of_lt hhead, List.map_map]
  congr 1
  refine List.map_congr_left fun i _ => ?_
  rw [Function.comp_apply, Nat.mod_add_mod, Nat.succ_eq_add_one,
    show head + (i + 1) = head + 1 + i by omega]

end Foundation.Ring
