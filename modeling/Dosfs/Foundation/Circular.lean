import Mathlib.Data.List.Basic
import Mathlib.Data.Nat.ModEq

/-!
# Circular memory

Memory of `size` cells seen as an endless line that winds around it: a position
stands for the cell with its remainder. A list written from a position on can be
read back there, and the positions up to one turn before its end are unchanged.
-/

namespace Foundation.Circular

variable {α : Type*} {size : Nat} {cells : Nat → α}

/-- Write a list from a position on. -/
def write (size : Nat) (cells : Nat → α) (start : Nat) (list : List α) : Nat → α := fun cell =>
  match list[(cell + size - start % size) % size]? with
  | some x => x
  | none => cells cell

/-- Read `count` elements from a position on. -/
def read (size : Nat) (cells : Nat → α) (start count : Nat) : List α :=
  (List.range count).map fun i => cells ((start + i) % size)

@[simp] theorem read_length (start count : Nat) : (read size cells start count).length = count := by
  rw [read, List.length_map, List.length_range]

/-- Reading looks only at the cells of the memory. -/
theorem read_eq_of_cells {cells' : Nat → α} (hsize : 0 < size)
    (h : ∀ cell, cell < size → cells' cell = cells cell) (start count : Nat) :
    read size cells' start count = read size cells start count :=
  List.map_congr_left fun _ _ => h _ (Nat.mod_lt _ hsize)

/-- Writing from a position is writing from any other that stands for its cell. -/
theorem write_congr {start start' : Nat} (h : start % size = start' % size) (list : List α) :
    write size cells start list = write size cells start' list := by
  funext cell
  rw [write, write, h]

/-- The distance from a position to another one, at most one turn behind it. -/
private theorem offset_eq (hsize : 0 < size) {start a : Nat} (ha : start ≤ a + size) :
    (a % size + size - start % size) % size = (a + size - start) % size := by
  have hsplit_a := Nat.mod_add_div a size
  have hsplit_start := Nat.mod_add_div start size
  have hlt := Nat.mod_lt start hsize
  have hsum : (a % size + size - start % size) + size * (a / size) =
      (a + size - start) + size * (start / size) := by
    omega
  rw [← Nat.add_mul_mod_self_left (a % size + size - start % size) size (a / size), hsum,
    Nat.add_mul_mod_self_left]

theorem write_inside {start i : Nat} {list : List α} (hlist : list.length ≤ size)
    (hi : i < list.length) : write size cells start list ((start + i) % size) = list[i] := by
  have hsize : 0 < size := by omega
  have hoffset : ((start + i) % size + size - start % size) % size = i := by
    rw [offset_eq hsize (by omega), show start + i + size - start = i + size by omega,
      Nat.add_mod_right, Nat.mod_eq_of_lt (by omega)]
  rw [write, hoffset, List.getElem?_eq_getElem hi]

theorem write_outside {start a : Nat} {list : List α} (hbefore : a < start)
    (hturn : start + list.length ≤ a + size) :
    write size cells start list (a % size) = cells (a % size) := by
  have hsize : 0 < size := by omega
  rw [write, offset_eq hsize (by omega)]
  rcases Nat.eq_or_lt_of_le (show start ≤ a + size by omega) with heq | hlt
  · -- exactly one turn behind: nothing is written
    have hnil : list = [] := List.eq_nil_of_length_eq_zero (by omega)
    rw [hnil]
    rfl
  · rw [Nat.mod_eq_of_lt (by omega), List.getElem?_eq_none (by omega)]

/-- What was written is read back. -/
theorem read_write_inside {start : Nat} {list : List α} (hlist : list.length ≤ size) :
    read size (write size cells start list) start list.length = list := by
  refine List.ext_getElem (by simp) fun i hi hi' => ?_
  simp only [read, List.getElem_map, List.getElem_range]
  exact write_inside hlist hi'

/-- What lies before is unchanged, up to one turn before the end. -/
theorem read_write_outside {start first count : Nat} {list : List α}
    (hbefore : first + count ≤ start) (hturn : start + list.length ≤ first + size) :
    read size (write size cells start list) first count = read size cells first count := by
  refine List.map_congr_left fun i hi => ?_
  have hlt := List.mem_range.mp hi
  exact write_outside (by omega) (by omega)

/-- Reading from a position is reading from any other that stands for its cell. -/
theorem read_congr {start start' : Nat} (h : start % size = start' % size) (count : Nat) :
    read size cells start count = read size cells start' count := by
  refine List.map_congr_left fun i _ => ?_
  rw [Nat.add_mod, h, ← Nat.add_mod]

theorem read_add (start m n : Nat) :
    read size cells start (m + n) = read size cells start m ++ read size cells (start + m) n := by
  rw [read, List.range_add, List.map_append, List.map_map, read, read]
  simp only [Function.comp_def, Nat.add_assoc]

theorem read_succ (start n : Nat) :
    read size cells start (n + 1) = cells (start % size) :: read size cells (start + 1) n := by
  rw [Nat.add_comm n 1, read_add]
  rfl

end Foundation.Circular
