import Mathlib.Data.Nat.Digits.Lemmas
import Mathlib.Data.List.GetD

/-!
# Writing numbers

A translation of `itoa` and `uitoa` of `libc/string.c`. The text in the buffer is
kept without its terminating NUL: the digits, least significant first, and then the
loop that reverses them in place.
-/

namespace Dosfs

/-- `(rem > 9) ? ('a' + rem - 10) : ('0' + rem)` -/
def digitByte (rem : UInt32) : UInt8 :=
  if rem > 9 then 0x61 + rem.toUInt8 - 10 else 0x30 + rem.toUInt8

/-- The loop that writes the digits. A number of 32 bits has at most 32 of them. -/
def digitsLoop (base : UInt32) : Nat → UInt32 → List UInt8
  | 0, _ => []
  | rounds + 1, value =>
      if value = 0 then [] else digitByte (value % base) :: digitsLoop base rounds (value / base)

/-- The loop that swaps the bytes at `ptr1` and `ptr` until they meet. -/
def reverseLoop : Nat → Nat → Nat → List UInt8 → List UInt8
  | 0, _, _, buf => buf
  | rounds + 1, ptr1, ptr, buf =>
      if ptr1 < ptr then
        reverseLoop rounds (ptr1 + 1) (ptr - 1)
          ((buf.set ptr1 (buf.getD ptr 0)).set ptr (buf.getD ptr1 0))
      else buf

def uitoa (value base : UInt32) : List UInt8 :=
  if value = 0 then [0x30]
  else
    let buf := digitsLoop base 32 value
    reverseLoop buf.length 0 (buf.length - 1) buf

/-- `itoa`; the value is a signed number of 32 bits. -/
def itoa (value : Int32) (base : UInt32) : List UInt8 :=
  if value = 0 then [0x30]
  else
    let negative := value < 0 ∧ base = 10
    let uv := if negative then -value.toUInt32 else value.toUInt32
    let buf := digitsLoop base 32 uv ++ if negative then [0x2D] else []
    reverseLoop buf.length 0 (buf.length - 1) buf

/-! ## The reversal -/

theorem reverseLoop_length (rounds ptr1 ptr : Nat) (buf : List UInt8) :
    (reverseLoop rounds ptr1 ptr buf).length = buf.length := by
  induction rounds generalizing ptr1 ptr buf with
  | zero => rfl
  | succ rounds ih =>
      rw [reverseLoop]
      split
      · rw [ih, List.length_set, List.length_set]
      · rfl

/-- The bytes between the two pointers change places. -/
theorem reverseLoop_getD {rounds ptr1 ptr : Nat} {buf : List UInt8} (hptr : ptr < buf.length)
    (hrounds : ptr ≤ ptr1 + rounds) (i : Nat) :
    (reverseLoop rounds ptr1 ptr buf).getD i 0 =
      if ptr1 ≤ i ∧ i ≤ ptr then buf.getD (ptr1 + ptr - i) 0 else buf.getD i 0 := by
  induction rounds generalizing ptr1 ptr buf with
  | zero =>
      rw [reverseLoop]
      split
      · congr 1
        omega
      · rfl
  | succ rounds ih =>
      rw [reverseLoop]
      split
      next hlt =>
        rw [ih (by rw [List.length_set, List.length_set]; omega) (by omega)]
        have hset (j : Nat) :
            ((buf.set ptr1 (buf.getD ptr 0)).set ptr (buf.getD ptr1 0)).getD j 0 =
              if j = ptr then buf.getD ptr1 0 else if j = ptr1 then buf.getD ptr 0
              else buf.getD j 0 := by
          simp only [List.getD_eq_getElem?_getD, List.getElem?_set, List.length_set]
          split_ifs <;> first | rfl | omega
        rw [hset, hset]
        by_cases hinner : ptr1 + 1 ≤ i ∧ i ≤ ptr - 1
        · rw [if_pos hinner, if_neg (by omega), if_neg (by omega), if_pos (by omega)]
          congr 1
          omega
        · rw [if_neg hinner]
          by_cases hlast : i = ptr
          · rw [if_pos hlast, if_pos (by omega), hlast, Nat.add_sub_cancel]
          · rw [if_neg hlast]
            by_cases hfirst : i = ptr1
            · rw [if_pos hfirst, if_pos (by omega), hfirst, Nat.add_sub_cancel_left]
            · rw [if_neg hfirst, if_neg (by omega)]
      next hge =>
        split
        · congr 1
          omega
        · rfl

theorem reverseLoop_eq_reverse (buf : List UInt8) :
    reverseLoop buf.length 0 (buf.length - 1) buf = buf.reverse := by
  cases hlen : buf.length with
  | zero => rw [List.length_eq_zero_iff.mp hlen, reverseLoop, List.reverse_nil]
  | succ n =>
      refine List.ext_getElem (by rw [reverseLoop_length, List.length_reverse]) fun i hi hi' => ?_
      rw [reverseLoop_length] at hi
      have hbyte := @reverseLoop_getD (n + 1) 0 n buf (by omega) (by omega) i
      rw [if_pos (by omega), Nat.zero_add] at hbyte
      rw [← List.getD_eq_getElem _ 0, Nat.add_sub_cancel, hbyte, List.getElem_reverse,
        List.getD_eq_getElem _ 0 (by omega)]
      congr 1
      omega

/-! ## The digits -/

/-- The loop writes the digits, least significant first. -/
theorem digitsLoop_eq {base : UInt32} (hbase : 2 ≤ base.toNat) (rounds : Nat) (value : UInt32)
    (hvalue : value.toNat < base.toNat ^ rounds) :
    digitsLoop base rounds value =
      (Nat.digits base.toNat value.toNat).map fun d => digitByte (UInt32.ofNat d) := by
  induction rounds generalizing value with
  | zero =>
      obtain rfl : value = 0 := UInt32.toNat.inj (by simpa using hvalue)
      rw [digitsLoop, UInt32.toNat_zero, Nat.digits_zero, List.map_nil]
  | succ rounds ih =>
      rw [digitsLoop]
      split
      next hzero => rw [hzero, UInt32.toNat_zero, Nat.digits_zero, List.map_nil]
      next hne =>
        have hpos : 0 < value.toNat := Nat.pos_of_ne_zero fun h => hne (UInt32.toNat.inj h)
        have hquotient : value.toNat / base.toNat < base.toNat ^ rounds :=
          Nat.div_lt_of_lt_mul (by rwa [pow_succ'] at hvalue)
        rw [ih _ (by rwa [UInt32.toNat_div]), Nat.digits_def' hbase hpos, List.map_cons,
          UInt32.toNat_div]
        congr 2
        refine UInt32.toNat.inj ?_
        have hlt := (value % base).toNat_lt
        rw [UInt32.toNat_mod] at hlt ⊢
        rw [UInt32.toNat_ofNat', Nat.mod_eq_of_lt hlt]

theorem digitsLoop_32 {base : UInt32} (hbase : 2 ≤ base.toNat) (value : UInt32) :
    digitsLoop base 32 value =
      (Nat.digits base.toNat value.toNat).map fun d => digitByte (UInt32.ofNat d) :=
  digitsLoop_eq hbase 32 value (value.toNat_lt.trans_le (Nat.pow_le_pow_left hbase 32))

/-- The numeral of a number: its digits, most significant first. -/
def numeral (base value : Nat) : List UInt8 :=
  if value = 0 then [0x30]
  else (Nat.digits base value).reverse.map fun d => digitByte (UInt32.ofNat d)

theorem uitoa_eq {base : UInt32} (hbase : 2 ≤ base.toNat) (value : UInt32) :
    uitoa value base = numeral base.toNat value.toNat := by
  rw [uitoa, numeral]
  by_cases hzero : value = 0
  · rw [if_pos hzero, if_pos (by rw [hzero, UInt32.toNat_zero])]
  · have hne : value.toNat ≠ 0 := fun h => hzero (UInt32.toNat.inj h)
    rw [if_neg hzero, if_neg hne, reverseLoop_eq_reverse, digitsLoop_32 hbase, List.map_reverse]

/-- Only a negative number in base ten gets a sign. -/
theorem itoa_ten (value : Int32) :
    itoa value 10 =
      if value < 0 then 0x2D :: numeral 10 (-value.toUInt32).toNat
      else numeral 10 value.toUInt32.toNat := by
  have hbase : 2 ≤ (10 : UInt32).toNat := by decide
  rw [itoa]
  by_cases hzero : value = 0
  · rw [if_pos hzero, hzero]
    rfl
  have hbits : value.toUInt32 ≠ 0 := fun h => hzero (congrArg Int32.ofUInt32 h)
  have hnat {uv : UInt32} (h : uv ≠ 0) : uv.toNat ≠ 0 := fun h' => h (UInt32.toNat.inj h')
  rw [if_neg hzero]
  dsimp only
  rw [reverseLoop_eq_reverse]
  by_cases hnegative : value < 0
  · have hminus : -value.toUInt32 ≠ 0 := fun h => hbits (by
      rw [← UInt32.neg_neg (a := value.toUInt32), h, UInt32.neg_zero])
    rw [if_pos ⟨hnegative, rfl⟩, if_pos ⟨hnegative, rfl⟩, if_pos hnegative, digitsLoop_32 hbase,
      numeral, if_neg (hnat hminus), List.reverse_append, List.map_reverse]
    rfl
  · rw [if_neg fun h => hnegative h.1, if_neg fun h => hnegative h.1, if_neg hnegative,
      digitsLoop_32 hbase, numeral, if_neg (hnat hbits), List.append_nil, List.map_reverse]
    rfl

theorem numeral_length_le {base value rounds : Nat} (hbase : 2 ≤ base) (hrounds : 0 < rounds)
    (hvalue : value < base ^ rounds) : (numeral base value).length ≤ rounds := by
  rw [numeral]
  split
  · exact hrounds
  · rw [List.length_map, List.length_reverse]
    exact (Nat.digits_length_le_iff hbase value).mpr hvalue

theorem mem_numeral {base value : Nat} (hbase : 2 ≤ base) {b : UInt8}
    (hb : b ∈ numeral base value) : ∃ d < base, b = digitByte (UInt32.ofNat d) := by
  rw [numeral] at hb
  split at hb
  · exact ⟨0, by omega, List.mem_singleton.mp hb⟩
  · obtain ⟨d, hd, rfl⟩ := List.mem_map.mp hb
    exact ⟨d, Nat.digits_lt_base hbase (List.mem_reverse.mp hd), rfl⟩

/-- The bytes of a numeral are digits and small letters, none of them NUL. -/
theorem ne_zero_of_mem_numeral {base value : Nat} (hlow : 2 ≤ base) (hhigh : base ≤ 36) :
    ∀ b ∈ numeral base value, b ≠ 0 := by
  have hdigit : ∀ d < 36, digitByte (UInt32.ofNat d) ≠ 0 := by decide
  intro b hb
  obtain ⟨d, hd, rfl⟩ := mem_numeral hlow hb
  exact hdigit d (by omega)

/-- The text of a number has no NUL, and fits a local buffer of 16 bytes. -/
theorem uitoa_fits {base : UInt32} (hlow : 10 ≤ base.toNat) (hhigh : base.toNat ≤ 36)
    (value : UInt32) : (∀ b ∈ uitoa value base, b ≠ 0) ∧ (uitoa value base).length < 16 := by
  rw [uitoa_eq (by omega)]
  refine ⟨ne_zero_of_mem_numeral (by omega) hhigh, ?_⟩
  have hvalue : value.toNat < base.toNat ^ 10 :=
    value.toNat_lt.trans_le ((by decide : 2 ^ 32 ≤ 10 ^ 10).trans (Nat.pow_le_pow_left hlow 10))
  have hlen := numeral_length_le (by omega) (by decide) hvalue
  omega

theorem itoa_ten_fits (value : Int32) :
    (∀ b ∈ itoa value 10, b ≠ 0) ∧ (itoa value 10).length < 16 := by
  have hnumeral (n : Nat) (hn : n < 2 ^ 32) :
      (∀ b ∈ numeral 10 n, b ≠ 0) ∧ (numeral 10 n).length ≤ 10 :=
    ⟨ne_zero_of_mem_numeral (by decide) (by decide),
      numeral_length_le (by decide) (by decide) (hn.trans_le (by decide))⟩
  rw [itoa_ten]
  split
  · obtain ⟨hne, hlen⟩ := hnumeral _ (-value.toUInt32).toNat_lt
    refine ⟨fun b hb => ?_, by rw [List.length_cons]; omega⟩
    rcases List.mem_cons.mp hb with rfl | hb
    · decide
    · exact hne b hb
  · obtain ⟨hne, hlen⟩ := hnumeral _ value.toUInt32.toNat_lt
    exact ⟨hne, by omega⟩

/-! ## Canonical numerals -/

/-- The digits up to base sixteen, `0123456789abcdef`. -/
def digitAlphabet : List UInt8 :=
  [0x30, 0x31, 0x32, 0x33, 0x34, 0x35, 0x36, 0x37, 0x38, 0x39,
    0x61, 0x62, 0x63, 0x64, 0x65, 0x66]

/-- The text is the one canonical way to write the value: digits of the base only, most
significant first, and no zero in front of other digits. -/
structure IsNumeral (base value : Nat) (text : List UInt8) : Prop where
  nonempty : text ≠ []
  digits : ∀ c ∈ text, c ∈ digitAlphabet.take base
  value_eq : text.foldl (fun n c => base * n + digitAlphabet.idxOf c) 0 = value
  no_leading_zero : text.head? = some 0x30 → text = [0x30]

theorem digitByte_alphabet : ∀ d < 16, digitByte (UInt32.ofNat d) = digitAlphabet.getD d 0 := by
  decide

theorem idxOf_digitByte : ∀ d < 16, digitAlphabet.idxOf (digitByte (UInt32.ofNat d)) = d := by
  decide

theorem digitByte_ne_zero : ∀ d < 16, d ≠ 0 → digitByte (UInt32.ofNat d) ≠ 0x30 := by
  decide

/-- The value of a text is the one that its digits have for `Nat.ofDigits`. -/
theorem foldl_digitByte {base : Nat} {ds : List Nat} (hds : ∀ d ∈ ds, d < 16) :
    (ds.reverse.map fun d => digitByte (UInt32.ofNat d)).foldl
      (fun n c => base * n + digitAlphabet.idxOf c) 0 = Nat.ofDigits base ds := by
  rw [List.foldl_map, List.foldl_reverse, Nat.ofDigits_eq_foldr]
  induction ds with
  | nil => rfl
  | cons d ds ih =>
      rw [List.foldr_cons, List.foldr_cons, ih fun e he => hds e (List.mem_cons_of_mem d he),
        idxOf_digitByte d (hds d List.mem_cons_self), Nat.add_comm]
      rfl

theorem numeral_isNumeral {base : Nat} (hlow : 2 ≤ base) (hhigh : base ≤ 16) (value : Nat) :
    IsNumeral base value (numeral base value) := by
  have hdigit {d : Nat} (hd : d < base) :
      digitByte (UInt32.ofNat d) ∈ digitAlphabet.take base := by
    rw [digitByte_alphabet d (by omega), List.mem_take_iff_getElem]
    exact ⟨d, by simp [digitAlphabet]; omega, (List.getD_eq_getElem _ _ _).symm⟩
  rw [numeral]
  split
  next hzero =>
    subst hzero
    refine ⟨List.cons_ne_nil _ _, fun c hc => ?_, rfl, fun _ => rfl⟩
    rw [List.mem_singleton.mp hc]
    exact hdigit (by omega : 0 < base)
  next hne =>
    have hlast := Nat.getLast_digit_ne_zero base hne
    have hdigits (d : Nat) (hd : d ∈ Nat.digits base value) : d < base :=
      Nat.digits_lt_base hlow hd
    refine ⟨?_, fun c hc => ?_, ?_, fun hhead => ?_⟩
    · simpa [Nat.digits_eq_nil_iff_eq_zero] using hne
    · obtain ⟨d, hd, rfl⟩ := List.mem_map.mp hc
      exact hdigit (hdigits d (List.mem_reverse.mp hd))
    · rw [foldl_digitByte fun d hd => (hdigits d hd).trans_le hhigh, Nat.ofDigits_digits]
    · rw [List.head?_map, List.head?_reverse, List.getLast?_eq_getLast_of_ne_nil
        (Nat.digits_ne_nil_iff_ne_zero.mpr hne), Option.map_some, Option.some_inj] at hhead
      exact absurd hhead (digitByte_ne_zero _
        ((hdigits _ (List.getLast_mem _)).trans_le hhigh) hlast)

/-- There is no other numeral. -/
theorem IsNumeral.eq_numeral {base value : Nat} {text : List UInt8} (hlow : 2 ≤ base)
    (hhigh : base ≤ 16) (h : IsNumeral base value text) : text = numeral base value := by
  have hindex {c : UInt8} (hc : c ∈ digitAlphabet.take base) :
      digitAlphabet.idxOf c < base ∧ digitByte (UInt32.ofNat (digitAlphabet.idxOf c)) = c := by
    obtain ⟨d, hd, rfl⟩ := List.mem_take_iff_getElem.mp hc
    have hlt : d < 16 := by simp [digitAlphabet] at hd; omega
    rw [← List.getD_eq_getElem _ 0, ← digitByte_alphabet d hlt, idxOf_digitByte d hlt]
    exact ⟨by omega, rfl⟩
  let ds := (text.map digitAlphabet.idxOf).reverse
  have hds : ∀ d ∈ ds, d < base := by
    intro d hd
    obtain ⟨c, hc, rfl⟩ := List.mem_map.mp (List.mem_reverse.mp hd)
    exact (hindex (h.digits c hc)).1
  have htext : text = ds.reverse.map fun d => digitByte (UInt32.ofNat d) := by
    rw [List.reverse_reverse, List.map_map]
    have hid := List.map_congr_left fun c hc => (hindex (h.digits c hc)).2
    exact (hid.trans (List.map_id text)).symm
  have hvalue : Nat.ofDigits base ds = value := by
    rw [← foldl_digitByte fun d hd => (hds d hd).trans_le hhigh, ← htext, h.value_eq]
  have hne : ds ≠ [] := by simpa [ds] using h.nonempty
  by_cases hzero : ds.getLast hne = 0
  · -- the first byte is a zero, and so the only one
    have hhead : text.head? = some 0x30 := by
      rw [htext, List.head?_map, List.head?_reverse, List.getLast?_eq_getLast_of_ne_nil hne, hzero]
      rfl
    have hsingle := h.no_leading_zero hhead
    have hvalue' : value = 0 := by
      rw [← h.value_eq, hsingle]
      rfl
    rw [hsingle, numeral, if_pos hvalue']
  · have hdigits : Nat.digits base value = ds := by
      rw [← hvalue]
      exact Nat.digits_ofDigits base hlow ds hds fun _ => hzero
    have hvalue' : value ≠ 0 := by
      rintro rfl
      exact hne (by rw [← hdigits, Nat.digits_zero])
    rw [numeral, if_neg hvalue', hdigits]
    exact htext

end Dosfs
