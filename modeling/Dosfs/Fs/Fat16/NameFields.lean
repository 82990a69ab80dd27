import Dosfs.Fs.Fat16.Name

/-!
# The two fields of a name

Which names the encoder tells apart, and what it makes of names of any length.
Names are looked up by string comparison when a file is read and by comparison
of the eleven bytes when it is deleted or overwritten; on 8.3 names the two
agree. One output position serves both fields, so a long base runs on into the
extension before its dot is seen.
-/

namespace Dosfs.Fat16

/-! ## Two lookups -/

/-- On 8.3 names, encoding is injective up to letter case. -/
theorem EightThree.parse_eq_iff {x y : CString} (hx : EightThree x) (hy : EightThree y) :
    fat16ParseName x = fat16ParseName y ↔ x.upper = y.upper := by
  constructor
  · intro heq
    rw [← hx.unparse_parse, heq, hy.unparse_parse]
  · intro hupper
    rw [← fat16ParseName_upper x, hupper, fat16ParseName_upper]

/-- The encoder undoes the decoder, the decoder folds the name to upper case,
and the two comparisons find the same names. -/
theorem fat16_lookups_agree {x y : CString} (hx : EightThree x) (hy : EightThree y) :
    fat16ParseName (fat16UnparseName (fat16ParseName x)) = fat16ParseName x ∧
      fat16UnparseName (fat16ParseName x) = x.upper ∧
      (strcasecmp (fat16UnparseName (fat16ParseName x)) y = 0 ↔
        fat16ParseName x = fat16ParseName y) := by
  rw [hx.unparse_parse, fat16ParseName_upper, strcasecmp_eq_zero_iff, CString.upper_upper,
    hx.parse_eq_iff hy]
  exact ⟨rfl, rfl, Iff.rfl⟩

theorem fat16_lookups_agree_sample :
    let x : CString := ⟨[0x61, 0x2E, 0x63], by simp⟩
    let y : CString := ⟨[0x41, 0x2E, 0x43], by simp⟩
    fat16ParseName (fat16UnparseName (fat16ParseName x)) = fat16ParseName x ∧
      fat16UnparseName (fat16ParseName x) = x.upper ∧
      (strcasecmp (fat16UnparseName (fat16ParseName x)) y = 0 ↔
        fat16ParseName x = fat16ParseName y) :=
  fat16_lookups_agree ⟨[0x61], [0x63], by simp⟩ ⟨[0x41], [0x43], by simp⟩

/-! ## Names of any length -/

/-- The encoder cuts or pads each of the two parts on its own. -/
def FieldByField (name : CString) (base ext : List UInt8) : Prop :=
  fat16ParseName name = nameField 8 base ++ nameField 3 ext

instance (name : CString) (base ext : List UInt8) : Decidable (FieldByField name base ext) :=
  inferInstanceAs (Decidable (_ = _))

/-- What is left of the base behind a stored extension is blank if and only if
the base has only spaces there. -/
theorem nameField_drop_iff {base : List UInt8} (hbase : base.length < 11) (k : Nat) :
    (nameField 11 base).drop k = List.replicate (11 - k) 0x20 ↔ ∀ c ∈ base.drop k, c = 0x20 := by
  have hlength : ((nameField 11 base).drop k).length = 11 - k := by
    rw [List.length_drop, nameField_length]
  have hspace (c : UInt8) : toUpper c = 0x20 ↔ c = 0x20 :=
    toUpper_eq_iff_of_not_letter (by decide)
  have hshort : (base.map toUpper).take 11 = base.map toUpper :=
    List.take_of_length_le (by simp; omega)
  rw [List.eq_replicate_iff, and_iff_right hlength, nameField, hshort, List.drop_append,
    ← List.map_drop, List.drop_replicate]
  simp only [List.mem_append, List.mem_map, List.mem_replicate]
  constructor
  · exact fun h c hc => (hspace c).mp (h _ (Or.inl ⟨c, hc, rfl⟩))
  · rintro h _ (⟨c, hc, rfl⟩ | ⟨-, rfl⟩)
    · exact (hspace c).mpr (h c hc)
    · rfl

/-- A base of at most ten characters has only spaces from the ninth on that the
extension does not cover; of a longer one the ninth to eleventh characters
happen to be the extension. -/
def PartsFit (base ext : List UInt8) : Prop :=
  if base.length < 11 then ∀ c ∈ base.drop (8 + ext.length), c = 0x20
  else ((base.map toUpper).drop 8).take 3 = nameField 3 ext

theorem partsFit_of_length_le {base : List UInt8} (hbase : base.length ≤ 8) (ext : List UInt8) :
    PartsFit base ext := by
  rw [PartsFit, if_pos (by omega), List.drop_eq_nil_of_le (by omega)]
  exact fun c hc => absurd hc List.not_mem_nil

/-- When the encoder treats the two parts of a name as two fields. -/
theorem fat16_fieldByField_iff {name : CString} {base ext : List UInt8}
    (hname : name.bytes = base ++ 0x2E :: ext) (hbase : ∀ c ∈ base, c ≠ 0x2E)
    (hext : ∀ c ∈ ext, c ≠ 0x2E) : FieldByField name base ext ↔ PartsFit base ext := by
  rw [FieldByField, fat16ParseName_dotted hname hbase hext, PartsFit]
  split
  next hshort =>
    have hwidth : 11 - (8 + ext.length) = 3 - ext.length := by omega
    have hstored : (ext.map toUpper).take (11 - 8) = (ext.map toUpper).take 3 := rfl
    rw [← nameField_drop_iff hshort, hwidth, storedAt, nameField_take, hstored, List.append_assoc,
      List.append_cancel_left_eq]
    change _ = List.take 3 _ ++ _ ↔ _
    rw [List.append_cancel_left_eq]
  next hlong =>
    have hfull : nameField 11 base = nameField 8 base ++ ((base.map toUpper).drop 8).take 3 := by
      have hpad : 11 - base.length = 0 := by omega
      have hpad' : 8 - base.length = 0 := by omega
      rw [nameField, nameField, hpad, hpad', List.replicate_zero, List.append_nil, List.append_nil,
        ← List.take_add]
    rw [hfull, List.append_cancel_left_eq]

/-- The name `longfilename.txt`. -/
def longName : CString :=
  ⟨[0x6C, 0x6F, 0x6E, 0x67, 0x66, 0x69, 0x6C, 0x65, 0x6E, 0x61, 0x6D, 0x65, 0x2E, 0x74, 0x78, 0x74],
    by simp⟩

/-- It is encoded without its extension: `LONGFILE` and `NAM`. -/
theorem not_fieldByField_longName :
    longName.bytes = longName.bytes.take 12 ++ 0x2E :: [0x74, 0x78, 0x74] ∧
      fat16ParseName longName =
        [0x4C, 0x4F, 0x4E, 0x47, 0x46, 0x49, 0x4C, 0x45, 0x4E, 0x41, 0x4D] ∧
      ¬ FieldByField longName (longName.bytes.take 12) [0x74, 0x78, 0x74] := by
  decide

/-- In `longnametxt.txt` the base overflows with what the extension is. -/
theorem fat16_fieldByField_iff_overflow :
    let base : List UInt8 := [0x6C, 0x6F, 0x6E, 0x67, 0x6E, 0x61, 0x6D, 0x65, 0x74, 0x78, 0x74]
    FieldByField ⟨base ++ [0x2E, 0x74, 0x78, 0x74], by simp [base]⟩ base [0x74, 0x78, 0x74] ↔
      PartsFit base [0x74, 0x78, 0x74] :=
  fat16_fieldByField_iff rfl (by simp) (by simp)

end Dosfs.Fat16
