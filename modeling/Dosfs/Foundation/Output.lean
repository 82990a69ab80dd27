import Dosfs.Foundation.ByteMemory

/-!
# Text written to a buffer with a limit

A buffer and the number of bytes written to it so far. Copying a text stops at the
limit, so what has been written is always a prefix of what was meant to be.
-/

namespace Foundation

/-- A buffer that is being filled from its start. -/
structure Output where
  buf : Memory
  pos : Nat

namespace Output

def put (out : Output) (c : UInt8) : Output := ⟨out.buf.storeByte out.pos c, out.pos + 1⟩

/-- Write a text, as far as the limit allows. -/
def copy (limit : Nat) : List UInt8 → Output → Output
  | [], out => out
  | c :: cs, out => if out.pos < limit then copy limit cs (out.put c) else out

/-- The text has been written to the buffer. -/
def holding (buf : Memory) (text : List UInt8) : Output := ⟨buf.storeList 0 text, text.length⟩

variable {buf : Memory} {text : List UInt8} {limit : Nat}

theorem holding_nil : holding buf [] = ⟨buf, 0⟩ := by
  rw [holding, Memory.storeList_nil, List.length_nil]

theorem put_holding (c : UInt8) : (holding buf text).put c = holding buf (text ++ [c]) := by
  rw [put, holding, Memory.storeByte_eq_storeList, holding, Memory.storeList_append, Nat.zero_add,
    List.length_append, List.length_singleton]

/-- A text below the limit has been written in full. -/
theorem holding_pos_lt_iff : (holding buf (text.take limit)).pos < limit ↔ text.length < limit := by
  change (text.take limit).length < limit ↔ _
  rw [List.length_take]
  omega

theorem put_holding_take (h : text.length < limit) (c : UInt8) :
    (holding buf (text.take limit)).put c = holding buf ((text ++ [c]).take limit) := by
  rw [put_holding, List.take_of_length_le (Nat.le_of_lt h), List.take_of_length_le]
  rw [List.length_append]
  exact h

/-- Copying keeps what has been written a prefix of the whole text. -/
theorem copy_holding_take (cs : List UInt8) :
    (holding buf (text.take limit)).copy limit cs = holding buf ((text ++ cs).take limit) := by
  induction cs generalizing text with
  | nil => rw [copy, List.append_nil]
  | cons c cs ih =>
      rw [copy]
      split
      next hroom =>
        rw [put_holding_take (holding_pos_lt_iff.mp hroom), ih, List.append_assoc,
          List.singleton_append]
      next hfull =>
        rw [holding_pos_lt_iff, Nat.not_lt] at hfull
        rw [List.take_append_of_le_length hfull]

end Output

end Foundation
