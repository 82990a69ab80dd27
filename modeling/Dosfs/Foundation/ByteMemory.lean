import Mathlib.Data.List.GetD
import Mathlib.Data.Nat.Bits
import Mathlib.Tactic.Ring

/-!
# Byte-addressed memory

A memory is a total map from addresses to bytes. Every write replaces one
contiguous range, so a single operation `overwrite` carries the framing facts
and the little-endian, string and block writes are instances of it.
-/

namespace Foundation

/-- A byte-addressed memory; also a byte buffer, addressed by offset. -/
abbrev Memory := Nat → UInt8

namespace Memory

/-- Replace the `count` bytes from `addr` on by `bytes 0`, `bytes 1`, and so on. -/
def overwrite (mem : Memory) (addr count : Nat) (bytes : Memory) : Memory :=
  fun x => if addr ≤ x ∧ x < addr + count then bytes (x - addr) else mem x

/-- The memory seen from `addr` on. -/
def window (mem : Memory) (addr : Nat) : Memory := fun k => mem (addr + k)

/-- The unsigned little-endian number in the `count` bytes from `addr` on. -/
def loadLe (mem : Memory) (addr : Nat) : Nat → Nat
  | 0 => 0
  | count + 1 => (mem addr).toNat + 256 * loadLe mem (addr + 1) count

/-- Store the low `count` bytes of `value` at `addr`, least significant first. -/
def storeLe (mem : Memory) (addr count value : Nat) : Memory :=
  mem.overwrite addr count (fun k => UInt8.ofNat (value / 256 ^ k))

/-- Store one byte. -/
def storeByte (mem : Memory) (addr : Nat) (value : UInt8) : Memory :=
  mem.overwrite addr 1 (fun _ => value)

/-- Copy a list of bytes to `addr`. -/
def storeList (mem : Memory) (addr : Nat) (bytes : List UInt8) : Memory :=
  mem.overwrite addr bytes.length (fun k => bytes.getD k 0)

/-- The list of the `count` bytes from `addr` on. -/
def loadList (mem : Memory) (addr count : Nat) : List UInt8 :=
  (List.range count).map fun k => mem (addr + k)

variable {mem mem' : Memory} {addr addr' count count' value : Nat} {bytes : Memory}

theorem overwrite_of_mem {x : Nat} (hlow : addr ≤ x) (hhigh : x < addr + count) :
    mem.overwrite addr count bytes x = bytes (x - addr) :=
  if_pos ⟨hlow, hhigh⟩

theorem overwrite_of_notMem {x : Nat} (hx : x < addr ∨ addr + count ≤ x) :
    mem.overwrite addr count bytes x = mem x :=
  if_neg (by omega)

theorem window_overwrite {inner size : Nat} :
    (mem.overwrite (addr + inner) size bytes).window addr =
      (mem.window addr).overwrite inner size bytes := by
  funext k
  by_cases hin : inner ≤ k ∧ k < inner + size
  · rw [window, overwrite_of_mem (by omega) (by omega), overwrite_of_mem hin.1 hin.2]
    congr 1
    omega
  · rw [window, overwrite_of_notMem (by omega), overwrite_of_notMem (by omega), window]

/-- Writing a window of a memory that differs only there gives that memory. -/
theorem overwrite_window_eq (h : ∀ x, x < addr ∨ addr + count ≤ x → mem' x = mem x) :
    mem.overwrite addr count (mem'.window addr) = mem' := by
  funext x
  by_cases hin : addr ≤ x ∧ x < addr + count
  · rw [overwrite_of_mem hin.1 hin.2, window]
    congr 1
    omega
  · rw [overwrite_of_notMem (by omega), h x (by omega)]

/-- Writing back a window with one inner range replaced is replacing that range
in place. -/
theorem overwrite_window_overwrite {inner size : Nat} (hfit : inner + size ≤ count) :
    mem.overwrite addr count ((mem.window addr).overwrite inner size bytes) =
      mem.overwrite (addr + inner) size bytes := by
  rw [← window_overwrite]
  exact overwrite_window_eq fun x hx => overwrite_of_notMem (by omega)

/-! ## Little-endian numbers -/

theorem loadLe_congr (h : ∀ x, addr ≤ x → x < addr + count → mem x = mem' x) :
    mem.loadLe addr count = mem'.loadLe addr count := by
  induction count generalizing addr with
  | zero => rfl
  | succ count ih =>
      rw [loadLe, loadLe, h addr (by omega) (by omega)]
      rw [ih fun x hlow hhigh => h x (by omega) (by omega)]

theorem loadLe_overwrite_of_disjoint
    (h : addr' + count' ≤ addr ∨ addr + count ≤ addr') :
    (mem.overwrite addr count bytes).loadLe addr' count' = mem.loadLe addr' count' :=
  loadLe_congr fun _ hlow hhigh => overwrite_of_notMem (by omega)

theorem loadLe_window : (mem.window addr).loadLe addr' count = mem.loadLe (addr + addr') count := by
  induction count generalizing addr' with
  | zero => rfl
  | succ count ih => rw [loadLe, loadLe, ih, window, Nat.add_assoc]

private theorem loadLe_digits (addr count value shift : Nat) :
    Memory.loadLe (fun x => UInt8.ofNat (value / 256 ^ (x - addr))) (addr + shift) count =
      value / 256 ^ shift % 256 ^ count := by
  induction count generalizing shift with
  | zero => simp [loadLe, Nat.mod_one]
  | succ count ih =>
      have hstep := ih (shift + 1)
      rw [← Nat.add_assoc] at hstep
      rw [loadLe, hstep, Nat.add_sub_cancel_left, UInt8.toNat_ofNat', pow_succ 256 shift,
        ← Nat.div_div_eq_div_mul, pow_succ' 256 count, Nat.mod_mul]

/-- A stored number is read back truncated to its width. -/
theorem loadLe_storeLe_same :
    (mem.storeLe addr count value).loadLe addr count = value % 256 ^ count := by
  have hdigits := loadLe_digits addr count value 0
  rw [Nat.add_zero, pow_zero, Nat.div_one] at hdigits
  rw [← hdigits]
  exact loadLe_congr fun _ hlow hhigh => overwrite_of_mem hlow hhigh

theorem loadLe_storeLe_of_disjoint
    (h : addr' + count' ≤ addr ∨ addr + count ≤ addr') :
    (mem.storeLe addr count value).loadLe addr' count' = mem.loadLe addr' count' :=
  loadLe_overwrite_of_disjoint h

theorem loadLe_storeByte_of_disjoint {byte : UInt8}
    (h : addr' + count' ≤ addr ∨ addr + 1 ≤ addr') :
    (mem.storeByte addr byte).loadLe addr' count' = mem.loadLe addr' count' :=
  loadLe_overwrite_of_disjoint h

@[simp] theorem storeByte_same {byte : UInt8} : mem.storeByte addr byte addr = byte :=
  overwrite_of_mem (Nat.le_refl _) (by omega)

theorem storeByte_of_ne {byte : UInt8} {x : Nat} (hx : x ≠ addr) :
    mem.storeByte addr byte x = mem x :=
  overwrite_of_notMem (by omega)

/-! ## Lists of bytes -/

@[simp] theorem loadList_length : (mem.loadList addr count).length = count := by
  simp [loadList]

theorem loadList_take {k : Nat} :
    (mem.loadList addr count).take k = mem.loadList addr (min k count) := by
  rw [loadList, ← List.map_take, List.take_range, loadList]

theorem loadList_congr (h : ∀ x, addr ≤ x → x < addr + count → mem x = mem' x) :
    mem.loadList addr count = mem'.loadList addr count := by
  apply List.map_congr_left
  intro k hk
  have hlt := List.mem_range.mp hk
  exact h _ (by omega) (by omega)

theorem loadList_window :
    (mem.window addr).loadList addr' count = mem.loadList (addr + addr') count := by
  simp [loadList, window, Nat.add_assoc]

theorem loadList_overwrite_of_disjoint
    (h : addr' + count' ≤ addr ∨ addr + count ≤ addr') :
    (mem.overwrite addr count bytes).loadList addr' count' = mem.loadList addr' count' :=
  loadList_congr fun _ hlow hhigh => overwrite_of_notMem (by omega)

theorem loadList_add {m n : Nat} :
    mem.loadList addr (m + n) = mem.loadList addr m ++ mem.loadList (addr + m) n := by
  simp [loadList, List.range_add, Nat.add_assoc]

theorem loadList_succ :
    mem.loadList addr (count + 1) = mem addr :: mem.loadList (addr + 1) count := by
  rw [Nat.add_comm count 1, loadList_add]
  rfl

theorem loadList_drop {k : Nat} :
    (mem.loadList addr count).drop k = mem.loadList (addr + k) (count - k) := by
  induction k generalizing addr count with
  | zero => rfl
  | succ k ih =>
      cases count with
      | zero => rw [Nat.zero_sub]; rfl
      | succ count =>
          rw [loadList_succ, List.drop_succ_cons, ih, Nat.add_assoc, Nat.add_comm 1 k,
            Nat.add_sub_add_right]

theorem loadList_overwrite_same :
    (mem.overwrite addr count bytes).loadList addr count = bytes.loadList 0 count := by
  apply List.map_congr_left
  intro k hk
  have hlt := List.mem_range.mp hk
  rw [overwrite_of_mem (by omega) (by omega), Nat.add_sub_cancel_left, Nat.zero_add]

/-- A copied list is read back. -/
theorem loadList_storeList_same {list : List UInt8} :
    (mem.storeList addr list).loadList addr list.length = list := by
  apply List.ext_getElem (by simp)
  intro k hk hk'
  simp only [loadList, List.getElem_map, List.getElem_range, storeList]
  rw [overwrite_of_mem (by omega) (by omega), Nat.add_sub_cancel_left]
  simp [hk']

theorem storeList_nil : mem.storeList addr [] = mem := by
  funext x
  exact overwrite_of_notMem (Nat.lt_or_ge x addr)

theorem storeByte_eq_storeList {byte : UInt8} :
    mem.storeByte addr byte = mem.storeList addr [byte] := by
  funext x
  by_cases hx : x = addr
  · rw [hx, storeByte_same, storeList, overwrite_of_mem (Nat.le_refl _) (Nat.lt_succ_self _),
      Nat.sub_self]
    rfl
  · rw [storeByte_of_ne hx, storeList, overwrite_of_notMem (by rw [List.length_singleton]; omega)]

/-- Two lists copied one behind the other. -/
theorem storeList_append (mem : Memory) (addr : Nat) (list list' : List UInt8) :
    mem.storeList addr (list ++ list') =
      (mem.storeList addr list).storeList (addr + list.length) list' := by
  funext x
  have hlen : (list ++ list').length = list.length + list'.length := List.length_append
  rw [storeList, storeList, storeList]
  by_cases hbehind : addr + list.length ≤ x ∧ x < addr + list.length + list'.length
  · rw [overwrite_of_mem (by omega) (by omega), overwrite_of_mem hbehind.1 hbehind.2,
      List.getD_append_right _ _ _ _ (by omega), Nat.sub_add_eq]
  rw [@overwrite_of_notMem _ (addr + list.length) _ _ x (by omega)]
  by_cases hin : addr ≤ x ∧ x < addr + list.length
  · rw [overwrite_of_mem (by omega) (by omega), overwrite_of_mem hin.1 hin.2,
      List.getD_append _ _ _ _ (by omega)]
  · rw [overwrite_of_notMem (by omega), overwrite_of_notMem (by omega)]

theorem storeList_cons (mem : Memory) (addr : Nat) (byte : UInt8) (list : List UInt8) :
    mem.storeList addr (byte :: list) = (mem.storeByte addr byte).storeList (addr + 1) list := by
  rw [storeByte_eq_storeList]
  exact storeList_append mem addr [byte] list

/-- The bytes of the list stand at `addr`. -/
def Holds (mem : Memory) (addr : Nat) (list : List UInt8) : Prop :=
  mem.loadList addr list.length = list

instance (mem : Memory) (addr : Nat) (list : List UInt8) : Decidable (mem.Holds addr list) :=
  inferInstanceAs (Decidable (_ = _))

theorem holds_nil : mem.Holds addr [] := rfl

theorem holds_cons {byte : UInt8} {list : List UInt8} :
    mem.Holds addr (byte :: list) ↔ mem addr = byte ∧ mem.Holds (addr + 1) list := by
  rw [Holds, List.length_cons, loadList_succ, List.cons.injEq, Holds]

theorem holds_append {list list' : List UInt8} :
    mem.Holds addr (list ++ list') ↔
      mem.Holds addr list ∧ mem.Holds (addr + list.length) list' := by
  induction list generalizing addr with
  | nil => simp [holds_nil]
  | cons byte list ih =>
      rw [List.cons_append, holds_cons, holds_cons, ih, and_assoc, List.length_cons,
        Nat.add_assoc, Nat.add_comm 1]

/-- The bytes of a list are where it stands. -/
theorem Holds.getD {list : List UInt8} {k : Nat} (hmem : mem.Holds addr list)
    (hk : k < list.length) : mem (addr + k) = list.getD k 0 := by
  induction list generalizing addr k with
  | nil => cases hk
  | cons byte list ih =>
      obtain ⟨hbyte, hrest⟩ := holds_cons.1 hmem
      cases k with
      | zero => exact hbyte
      | succ k =>
          rw [List.getD_cons_succ, ← ih hrest (Nat.lt_of_succ_lt_succ hk), Nat.add_assoc,
            Nat.add_comm 1]

theorem holds_storeList {list : List UInt8} : (mem.storeList addr list).Holds addr list :=
  loadList_storeList_same

end Memory

end Foundation
