import Dosfs.Libc.String

/-!
# Short names

Directory entries hold names as eleven bytes, eight for the base and three for
the extension, padded with spaces. This module models the two codecs of
`fs/fat16.c` and proves that a valid 8.3 name survives a round trip through
them up to letter case.
-/

namespace Dosfs.Fat16

/-- The loop of `fat16_parse_name` over the rest of the input. The dot moves
the output position to the extension, once; later dots are dropped. -/
def parseNameLoop : List UInt8 → Nat → Bool → List UInt8 → List UInt8
  | [], _, _, output => output
  | c :: rest, j, dotSeen, output =>
      if j < 11 then
        if c = 0x2E then
          if dotSeen then parseNameLoop rest j dotSeen output
          else parseNameLoop rest 8 true output
        else parseNameLoop rest (j + 1) dotSeen (output.set j (toUpper c))
      else output

def fat16ParseName (input : CString) : List UInt8 :=
  parseNameLoop input.bytes 0 false (List.replicate 11 0x20)

/-- The bytes `fat16_unparse_name` writes, read back as a string. -/
def fat16UnparseName (input : List UInt8) : CString :=
  CString.ofBuffer <|
    (input.take 8).filter (· != 0x20) ++
      if input.getD 8 0 ≠ 0x20 then
        0x2E :: ((input.drop 8).take 3).filter (· != 0x20)
      else []

/-- An 8.3 name: one to eight base characters and, after a dot, up to three
extension characters, none of them a dot or a space. The first byte is not the
deletion mark. -/
structure ValidName (name : CString) : Prop where
  exists_parts : ∃ base ext : List UInt8,
    name.bytes = base ++ (if ext = [] then [] else 0x2E :: ext) ∧
      1 ≤ base.length ∧ base.length ≤ 8 ∧ ext.length ≤ 3 ∧
      ∀ c ∈ base ++ ext, c ≠ 0x2E ∧ c ≠ 0x20
  head_ne : name.bytes.head? ≠ some 0xE5

/-- An 8.3 name whose first byte is arbitrary. -/
def EightThree (name : CString) : Prop :=
  ∃ base ext : List UInt8,
    name.bytes = base ++ (if ext = [] then [] else 0x2E :: ext) ∧
      1 ≤ base.length ∧ base.length ≤ 8 ∧ ext.length ≤ 3 ∧
      ∀ c ∈ base ++ ext, c ≠ 0x2E ∧ c ≠ 0x20

/-! ## The encoder -/

theorem toUpper_eq_iff_of_not_letter {c b : UInt8} (hb : b < 0x41 ∨ 0x7A < b) :
    toUpper c = b ↔ c = b := by
  unfold toUpper
  grind

theorem parseNameLoop_length (input : List UInt8) (j : Nat) (dotSeen : Bool)
    (output : List UInt8) :
    (parseNameLoop input j dotSeen output).length = output.length := by
  induction input generalizing j dotSeen output with
  | nil => rfl
  | cons c rest ih =>
      simp only [parseNameLoop]
      split_ifs <;> simp [ih]

@[simp] theorem fat16ParseName_length (input : CString) :
    (fat16ParseName input).length = 11 := by
  simp [fat16ParseName, parseNameLoop_length]

theorem parseNameLoop_map_toUpper (input : List UInt8) (j : Nat) (dotSeen : Bool)
    (output : List UInt8) :
    parseNameLoop (input.map toUpper) j dotSeen output =
      parseNameLoop input j dotSeen output := by
  induction input generalizing j dotSeen output with
  | nil => rfl
  | cons c rest ih =>
      simp only [List.map_cons, parseNameLoop, ih, toUpper_toUpper,
        toUpper_eq_iff_of_not_letter (b := 0x2E) (by decide)]

/-- The encoder ignores letter case. -/
theorem fat16ParseName_upper (input : CString) :
    fat16ParseName input.upper = fat16ParseName input :=
  parseNameLoop_map_toUpper _ _ _ _

theorem parseNameLoop_forall {P : UInt8 → Prop} (input : List UInt8) (j : Nat)
    (dotSeen : Bool) (output : List UInt8) (hinput : ∀ c ∈ input, P (toUpper c))
    (houtput : ∀ c ∈ output, P c) : ∀ c ∈ parseNameLoop input j dotSeen output, P c := by
  induction input generalizing j dotSeen output with
  | nil => exact houtput
  | cons c rest ih =>
      have hrest : ∀ c ∈ rest, P (toUpper c) := fun x hx => hinput x (List.mem_cons_of_mem _ hx)
      simp only [parseNameLoop]
      split_ifs
      · exact ih _ _ _ hrest houtput
      · exact ih _ _ _ hrest houtput
      · refine ih _ _ _ hrest fun x hx => ?_
        rcases List.mem_or_eq_of_mem_set hx with hmem | rfl
        · exact houtput x hmem
        · exact hinput c List.mem_cons_self
      · exact houtput

theorem fat16ParseName_ne_zero (input : CString) : ∀ c ∈ fat16ParseName input, c ≠ 0 := by
  apply parseNameLoop_forall
  · exact fun c hc => toUpper_ne_zero (input.noNul c hc)
  · intro c hc
    rw [List.eq_of_mem_replicate hc]
    decide

/-- Positions before the output position keep what they hold. -/
private theorem parseNameLoop_head (input : List UInt8) (j : Nat) (dotSeen : Bool)
    (output : List UInt8) (hj : 0 < j) :
    (parseNameLoop input j dotSeen output).head? = output.head? := by
  induction input generalizing j dotSeen output with
  | nil => rfl
  | cons c rest ih =>
      simp only [parseNameLoop]
      split_ifs
      · exact ih _ _ _ hj
      · exact ih _ _ _ (by omega)
      · rw [ih _ _ _ (by omega)]
        cases output with
        | nil => rfl
        | cons b output =>
            obtain ⟨j, rfl⟩ : ∃ k, j = k + 1 := ⟨j - 1, by omega⟩
            rfl
      · rfl

/-- The encoder yields the deletion mark only for a name that starts with it. -/
theorem fat16ParseName_head_ne {input : CString} (h : input.bytes.head? ≠ some 0xE5) :
    (fat16ParseName input).head? ≠ some 0xE5 := by
  unfold fat16ParseName
  cases hbytes : input.bytes with
  | nil => simp [parseNameLoop, List.replicate_succ]
  | cons c rest =>
      rw [hbytes] at h
      have hc : toUpper c ≠ 0xE5 := by
        rw [Ne, toUpper_eq_iff_of_not_letter (by decide)]
        simpa using h
      simp only [parseNameLoop]
      split_ifs
      · simp_all
      · rw [parseNameLoop_head _ _ _ _ (by omega)]
        simp [List.replicate_succ]
      · rw [parseNameLoop_head _ _ _ _ (by omega)]
        simpa [List.replicate_succ] using hc
      · simp [List.replicate_succ]

/-! ## The fields of the output -/

/-- A field of `width` bytes: the characters in upper case, cut off or padded
with spaces. -/
def nameField (width : Nat) (chars : List UInt8) : List UInt8 :=
  (chars.map toUpper).take width ++ List.replicate (width - chars.length) 0x20

/-- The output after characters were stored from position `j` on. -/
def storedAt (j : Nat) (chars output : List UInt8) : List UInt8 :=
  output.take j ++ (chars.map toUpper).take (11 - j) ++ output.drop (j + chars.length)

/-- Characters other than dots are stored one after the other, as far as there
is room. -/
theorem parseNameLoop_stores (chars rest : List UInt8) {j : Nat} (dotSeen : Bool)
    {output : List UInt8} (hchars : ∀ c ∈ chars, c ≠ 0x2E) (hj : j ≤ 11)
    (hlength : output.length = 11) :
    parseNameLoop (chars ++ rest) j dotSeen output =
      parseNameLoop rest (min 11 (j + chars.length)) dotSeen (storedAt j chars output) := by
  induction chars generalizing j output with
  | nil => simp [storedAt, hj]
  | cons c chars ih =>
      rw [List.cons_append, parseNameLoop]
      by_cases hroom : j < 11
      · have hset : (output.set j (toUpper c)).length = 11 := by simp [hlength]
        have hstored : storedAt (j + 1) chars (output.set j (toUpper c)) =
            storedAt j (c :: chars) output := by
          have htake : (output.set j (toUpper c)).take (j + 1) = output.take j ++ [toUpper c] := by
            rw [List.take_set, List.take_add_one, List.set_append_right _ _ (by simp)]
            simp [hlength, show j ≤ 11 by omega, List.getElem?_eq_getElem (show j < output.length by
              omega)]
          have hleft : 11 - j = (11 - (j + 1)) + 1 := by omega
          rw [storedAt, storedAt, htake, List.drop_set_of_lt (by omega), hleft, List.map_cons,
            List.take_succ_cons, List.length_cons, Nat.add_right_comm j 1]
          simp [Nat.add_assoc]
        rw [if_pos hroom, if_neg (hchars c List.mem_cons_self),
          ih (fun x hx => hchars x (List.mem_cons_of_mem _ hx)) (by omega) hset, hstored]
        congr 1
        rw [List.length_cons]
        omega
      · -- the output is full: the loop ends without looking at the rest
        obtain rfl : j = 11 := by omega
        have hfull : min 11 (11 + (c :: chars).length) = 11 := by omega
        have hstored : storedAt 11 (c :: chars) output = output := by
          simp [storedAt, hlength, List.take_of_length_le, List.drop_eq_nil_of_le]
        rw [if_neg hroom, hfull, hstored]
        cases rest <;> simp [parseNameLoop]

theorem nameField_take (base : List UInt8) : (nameField 11 base).take 8 = nameField 8 base := by
  simp only [nameField, List.take_append, List.take_take, List.length_take, List.length_map,
    List.take_replicate]
  congr 2
  omega

theorem nameField_length (width : Nat) (chars : List UInt8) :
    (nameField width chars).length = width := by
  simp only [nameField, List.length_append, List.length_take, List.length_map,
    List.length_replicate]
  omega

theorem storedAt_blank (base : List UInt8) :
    storedAt 0 base (List.replicate 11 0x20) = nameField 11 base := by
  rw [storedAt, nameField, List.drop_replicate, Nat.zero_add]
  rfl

/-- A name without a dot is one field. -/
theorem fat16ParseName_undotted {name : CString} (hname : ∀ c ∈ name.bytes, c ≠ 0x2E) :
    fat16ParseName name = nameField 11 name.bytes := by
  have hstored := @parseNameLoop_stores name.bytes [] 0 false _ hname (Nat.zero_le _)
    (List.length_replicate (n := 11) (a := (0x20 : UInt8)))
  rw [List.append_nil, storedAt_blank] at hstored
  exact hstored

/-- A name with one dot: up to ten characters of the base are stored before the
extension is stored over them from position 8 on; from a longer base the
encoder never gets to the dot. -/
theorem fat16ParseName_dotted {name : CString} {base ext : List UInt8}
    (hname : name.bytes = base ++ 0x2E :: ext) (hbase : ∀ c ∈ base, c ≠ 0x2E)
    (hext : ∀ c ∈ ext, c ≠ 0x2E) :
    fat16ParseName name =
      if base.length < 11 then storedAt 8 ext (nameField 11 base) else nameField 11 base := by
  rw [fat16ParseName, hname, parseNameLoop_stores base _ _ hbase (Nat.zero_le _) (by simp),
    storedAt_blank, Nat.zero_add, parseNameLoop]
  split
  next hroom =>
    have hshort : base.length < 11 := by omega
    have hstored := @parseNameLoop_stores ext [] 8 true _ hext (by decide)
      (nameField_length 11 base)
    rw [List.append_nil] at hstored
    rw [if_pos hshort, if_pos rfl]
    exact hstored
  next hfull => rw [if_neg (by omega)]

/-! ## Round trip of valid names -/

theorem nameField_of_le {width : Nat} {chars : List UInt8} (hwidth : chars.length ≤ width) :
    nameField width chars =
      chars.map toUpper ++ List.replicate (width - chars.length) 0x20 := by
  rw [nameField, List.take_of_length_le (by rwa [List.length_map])]

/-- A valid name is encoded as its upper-cased parts, each padded with spaces. -/
theorem fat16ParseName_parts {name : CString} {base ext : List UInt8}
    (hname : name.bytes = base ++ (if ext = [] then [] else 0x2E :: ext))
    (hbase : base.length ≤ 8) (hext : ext.length ≤ 3)
    (hchars : ∀ c ∈ base ++ ext, c ≠ 0x2E) :
    fat16ParseName name =
      base.map toUpper ++ List.replicate (8 - base.length) 0x20 ++
        (ext.map toUpper ++ List.replicate (3 - ext.length) 0x20) := by
  have hbaseChars : ∀ c ∈ base, c ≠ 0x2E := fun c hc => hchars c (List.mem_append_left _ hc)
  have hextChars : ∀ c ∈ ext, c ≠ 0x2E := fun c hc => hchars c (List.mem_append_right _ hc)
  have hwide : nameField 11 base =
      base.map toUpper ++ (List.replicate (8 - base.length) 0x20 ++ List.replicate 3 0x20) := by
    rw [nameField_of_le (by omega), List.replicate_append_replicate]
    congr 2
    omega
  by_cases hnil : ext = []
  · rw [if_pos hnil, List.append_nil] at hname
    rw [fat16ParseName_undotted (hname ▸ hbaseChars), hname, hwide, hnil, ← List.append_assoc]
    rfl
  · rw [if_neg hnil] at hname
    have hrest : (nameField 11 base).drop (8 + ext.length) =
        List.replicate (3 - ext.length) 0x20 := by
      have hfield : (base.map toUpper ++
          List.replicate (8 - base.length) (0x20 : UInt8)).length = 8 := by
        simp
        omega
      rw [hwide, ← List.append_assoc, ← List.drop_drop, List.drop_left' hfield,
        List.drop_replicate]
    rw [fat16ParseName_dotted hname hbaseChars hextChars, if_pos (by omega), storedAt,
      nameField_take, nameField_of_le hbase, hrest, List.take_of_length_le (by simpa using hext),
      List.append_assoc]

private theorem filter_padded (chars : List UInt8) (pad : Nat)
    (hchars : ∀ c ∈ chars, c ≠ 0x20) :
    (chars.map toUpper ++ List.replicate pad 0x20).filter (· != 0x20) = chars.map toUpper := by
  rw [List.filter_append, List.filter_eq_self.mpr, List.filter_eq_nil_iff.mpr, List.append_nil]
  · intro c hc
    simp [List.eq_of_mem_replicate hc]
  · intro c hc
    obtain ⟨b, hb, rfl⟩ := List.mem_map.mp hc
    have hne : toUpper b ≠ 0x20 := by
      rw [Ne, toUpper_eq_iff_of_not_letter (by decide)]
      exact hchars b hb
    simpa using hne

/-- Decoding an encoded 8.3 name gives the name in upper case. -/
theorem EightThree.unparse_parse {name : CString} (h : EightThree name) :
    fat16UnparseName (fat16ParseName name) = name.upper := by
  obtain ⟨base, ext, hname, -, hbase, hext, hchars⟩ := h
  have hparse := fat16ParseName_parts hname hbase hext fun c hc => (hchars c hc).1
  have hlength : (base.map toUpper ++ List.replicate (8 - base.length) (0x20 : UInt8)).length =
      8 := by
    simp
    omega
  have hextLength : (ext.map toUpper ++ List.replicate (3 - ext.length) (0x20 : UInt8)).length =
      3 := by
    simp
    omega
  have htake : (fat16ParseName name).take 8 =
      base.map toUpper ++ List.replicate (8 - base.length) 0x20 := by
    rw [hparse, List.take_left' hlength]
  have hdrop : (fat16ParseName name).drop 8 =
      ext.map toUpper ++ List.replicate (3 - ext.length) 0x20 := by
    rw [hparse, List.drop_left' hlength]
  have hnine : (fat16ParseName name).getD 8 0 =
      (ext.map toUpper ++ List.replicate (3 - ext.length) 0x20).getD 0 0 := by
    rw [← hdrop]
    simp [List.getD_eq_getElem?_getD]
  have hbytes : ((fat16ParseName name).take 8).filter (· != 0x20) = base.map toUpper := by
    simpa only [htake] using filter_padded base _
      fun c hc => (hchars c (List.mem_append_left _ hc)).2
  have htail : (((fat16ParseName name).drop 8).take 3).filter (· != 0x20) =
      ext.map toUpper := by
    rw [hdrop, List.take_of_length_le (by omega)]
    exact filter_padded ext _ fun c hc => (hchars c (List.mem_append_right _ hc)).2
  have hwhole : ((fat16ParseName name).take 8).filter (· != 0x20) ++
      (if (fat16ParseName name).getD 8 0 ≠ 0x20 then
        0x2E :: (((fat16ParseName name).drop 8).take 3).filter (· != 0x20) else []) =
      name.upper.bytes := by
    rw [hbytes, htail, hnine, CString.upper_bytes, hname]
    cases ext with
    | nil => simp
    | cons c rest =>
        have hne : toUpper c ≠ 0x20 := by
          rw [Ne, toUpper_eq_iff_of_not_letter (by decide)]
          exact (hchars c (by simp)).2
        have hdot : toUpper 0x2E = 0x2E := by decide
        simp [hne, hdot]
  apply CString.ext
  rw [fat16UnparseName, hwhole, CString.ofBuffer_bytes _ name.upper.noNul]

theorem fat16UnparseName_parseName {name : CString} (h : ValidName name) :
    fat16UnparseName (fat16ParseName name) = name.upper :=
  EightThree.unparse_parse h.exists_parts

end Dosfs.Fat16
