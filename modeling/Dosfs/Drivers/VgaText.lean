import Dosfs.Drivers.VgaPrintf
import Dosfs.Libc.Atoi

/-!
# What is printed

The text that `vga_printf` puts on the console, with its flags and widths, and its relation to
the text that `snprintf` leaves in a buffer.
-/

namespace Dosfs

open Foundation

variable {args : Nat → VaArg} {fmt : List UInt8} {vga : Vga}

/-! ## The text of a format -/

/-- The number of bytes that fill a field. -/
def padding (text : List UInt8) (width : Int32) : Nat :=
  if width > Int32.ofNat text.length then (width - Int32.ofNat text.length).toNatClampNeg else 0

/-- A text in a field of the width. Only the front is filled with the given byte. -/
def inField (text : List UInt8) (width : Int32) (leftAlign : Bool) (padChar : UInt8) :
    List UInt8 :=
  if leftAlign then text ++ List.replicate (padding text width) 0x20
  else List.replicate (padding text width) padChar ++ text

theorem printPadded_eq (s : CString) (width : Int32) (leftAlign : Bool) (padChar : UInt8) :
    printPadded s width leftAlign padChar vga =
      (inField s.bytes width leftAlign padChar).foldl vgaPutchar vga := by
  cases leftAlign <;> simp [printPadded, inField, padding, vgaPuts]

/-- What stands between a percent sign and its conversion. -/
structure Flags where
  leftAlign : Bool
  padChar : UInt8
  width : Int32

/-- The flags at the front of the format; `afterFlags` is what follows them. -/
def flagsOf (fmt : List UInt8) : Flags :=
  let left := skipByte 0x2D fmt
  let zero := skipByte 0x30 left.2
  ⟨left.1, if zero.1 then 0x30 else 0x20, (widthLoop 0 zero.2).1⟩

/-- A text in the field that the flags describe. -/
def Flags.field (flags : Flags) (text : List UInt8) : List UInt8 :=
  inField text flags.width flags.leftAlign flags.padChar

/-- The text of a conversion of `vga_printf`. -/
def fieldText (args : Nat → VaArg) (flags : Flags) (c : UInt8) (k : Nat) : List UInt8 :=
  if c = 0x73 then inField (args k).text.bytes flags.width flags.leftAlign 0x20
  else if c = 0x64 then flags.field (itoa (args k).word.toInt32 10)
  else if c = 0x75 then flags.field (uitoa (args k).word 10)
  else if c = 0x78 then flags.field (uitoa (args k).word 16)
  else if c = 0x70 then [0x30, 0x78] ++ flags.field (uitoa (args k).word 16)
  else if c = 0x63 then [(args k).word.toUInt8]
  else if c = 0x25 then [0x25]
  else [0x25, c]

/-- The index of the next argument after a conversion of `vga_printf`. -/
def nextField (c : UInt8) (k : Nat) : Nat :=
  if c = 0x73 ∨ c = 0x64 ∨ c = 0x75 ∨ c = 0x78 ∨ c = 0x70 ∨ c = 0x63 then k + 1 else k

theorem vgaPrintfConvert_eq (flags : Flags) (c : UInt8) (k : Nat) :
    vgaPrintfConvert args flags.leftAlign flags.padChar flags.width c k vga =
      (nextField c k, (fieldText args flags c k).foldl vgaPutchar vga) := by
  unfold vgaPrintfConvert fieldText nextField printFmtStr printFmtInt printFmtUint printFmtHex
    Flags.field
  split_ifs <;> simp_all [printPadded_eq, vgaPuts]

/-- What `vga_printf` prints. -/
def vgaExpansion (args : Nat → VaArg) (fmt : List UInt8) (k : Nat) : List UInt8 :=
  match fmt with
  | [] => []
  | c :: fmt =>
      if c = 0x25 then
        match _hrest : afterFlags fmt with
        | [] => []
        | c :: rest => fieldText args (flagsOf fmt) c k ++ vgaExpansion args rest (nextField c k)
      else c :: vgaExpansion args fmt k
termination_by fmt.length
decreasing_by
  · have hle := afterFlags_length_le fmt
    rw [_hrest, List.length_cons] at hle
    simp only [List.length_cons]
    omega
  · simp

theorem vgaExpansion_conversion {rest : List UInt8} {c : UInt8} (h : afterFlags fmt = c :: rest)
    (k : Nat) : vgaExpansion args (0x25 :: fmt) k =
      fieldText args (flagsOf fmt) c k ++ vgaExpansion args rest (nextField c k) := by
  rw [vgaExpansion, if_pos rfl]
  split
  next hnil => rw [h] at hnil; cases hnil
  next c' rest' hcons =>
    rw [h] at hcons
    cases hcons
    rfl

theorem vgaExpansion_plain {c : UInt8} (hc : c ≠ 0x25) (fmt : List UInt8) (k : Nat) :
    vgaExpansion args (c :: fmt) k = c :: vgaExpansion args fmt k := by
  rw [vgaExpansion, if_neg hc]

/-- The loop prints the text, unless the format ends in the middle of a conversion. -/
theorem vgaPrintfLoop_eq (hfmt : ¬ EndsInFlags fmt) (k : Nat) :
    vgaPrintfLoop args fmt k vga = some ((vgaExpansion args fmt k).foldl vgaPutchar vga) := by
  fun_induction vgaPrintfLoop args fmt k vga with
  | case1 =>
      rw [vgaExpansion]
      rfl
  | case2 =>
      rw [vgaExpansion]
      rfl
  | case3 _ _ fmt hne _ _ _ hrest => exact absurd ((endsInFlags_percent hrest).mpr hne) hfmt
  | case4 k vga fmt hne left zero width c rest hrest padChar next ih =>
      have hflags : afterFlags fmt = c :: rest := hrest
      have hnext : next = _ := vgaPrintfConvert_eq (flagsOf fmt) c k
      rw [endsInFlags_conversion hflags] at hfmt
      rw [vgaExpansion_conversion hflags, List.foldl_append, ih hfmt, hnext]
  | case5 _ _ c fmt hc ih =>
      rw [endsInFlags_plain hc] at hfmt
      rw [vgaExpansion_plain hc, List.foldl_cons, ih hfmt]

/-! ## The formatter of buffers -/

/-- Without flags, and without the conversion that only the console has. -/
inductive Unflagged : List UInt8 → Prop
  | nil : Unflagged []
  | conversion {c : UInt8} (hminus : c ≠ 0x2D) (hdigit : ¬ (0x30 ≤ c ∧ c ≤ 0x39)) (hp : c ≠ 0x70)
      {fmt : List UInt8} (h : Unflagged fmt) : Unflagged (0x25 :: c :: fmt)
  | plain {c : UInt8} (hc : c ≠ 0x25) {fmt : List UInt8} (h : Unflagged fmt) : Unflagged (c :: fmt)

theorem Unflagged.complete (h : Unflagged fmt) : Complete fmt := by
  induction h with
  | nil => exact .nil
  | conversion _ _ _ _ ih => exact .conversion _ ih
  | plain hc _ ih => exact .plain hc ih

/-- A conversion right behind the percent sign has no flags. -/
theorem noFlags {c : UInt8} (hminus : c ≠ 0x2D) (hdigit : ¬ (0x30 ≤ c ∧ c ≤ 0x39))
    (fmt : List UInt8) :
    afterFlags (c :: fmt) = c :: fmt ∧ flagsOf (c :: fmt) = ⟨false, 0x20, 0⟩ := by
  have hzero : c ≠ 0x30 := by
    rintro rfl
    exact hdigit (by decide)
  simp [afterFlags, flagsOf, skipByte, widthLoop, hminus, hzero, hdigit]

theorem Unflagged.not_endsInFlags (h : Unflagged fmt) : ¬ EndsInFlags fmt := by
  induction h with
  | nil =>
      rintro ⟨pre, flags, heq, -⟩
      exact absurd heq (by simp)
  | conversion hminus hdigit _ _ ih => rwa [endsInFlags_conversion (noFlags hminus hdigit _).1]
  | plain hc _ ih => rwa [endsInFlags_plain hc]

/-- Without a width nothing is filled in. -/
theorem field_noFlags {text : List UInt8} (htext : text.length < 2 ^ 31) :
    Flags.field ⟨false, 0x20, 0⟩ text = text := by
  have hpad : padding text 0 = 0 := by
    refine if_neg fun hlt => ?_
    rw [gt_iff_lt, Int32.lt_iff_toInt_lt, Int32.toInt_ofNat_of_lt htext] at hlt
    simp at hlt
    omega
  simp [Flags.field, inField, hpad]

/-- Without flags, the text of a conversion is the one of `snprintf`. -/
theorem fieldText_noFlags (hargs : ∀ k, (args k).text.bytes.length < 2 ^ 31) {c : UInt8}
    (hp : c ≠ 0x70) (k : Nat) :
    fieldText args ⟨false, 0x20, 0⟩ c k = conversionText args c k ∧
      nextField c k = nextArg c k := by
  have hstring := field_noFlags (hargs k)
  rw [Flags.field] at hstring
  have hint := field_noFlags ((itoa_ten_fits (args k).word.toInt32).2.trans (by decide))
  have huint := field_noFlags ((uitoa_fits (by decide) (by decide) (args k).word :
    _ ∧ (uitoa (args k).word 10).length < 16).2.trans (by decide))
  have hhex := field_noFlags ((uitoa_fits (by decide) (by decide) (args k).word :
    _ ∧ (uitoa (args k).word 16).length < 16).2.trans (by decide))
  rw [fieldText, conversionText, nextField, nextArg]
  dsimp only
  rw [hstring, hint, huint, hhex, if_neg hp]
  constructor
  · split_ifs <;> simp_all
  · refine if_congr ?_ rfl rfl
    tauto

theorem vgaExpansion_eq (hfmt : Unflagged fmt)
    (hargs : ∀ k, (args k).text.bytes.length < 2 ^ 31) (k : Nat) :
    vgaExpansion args fmt k = expansion args fmt k := by
  induction hfmt generalizing k with
  | nil => rw [vgaExpansion, expansion]
  | @conversion c hminus hdigit hp fmt _ ih =>
      obtain ⟨hflags, hnone⟩ := noFlags hminus hdigit fmt
      obtain ⟨htext, hnext⟩ := fieldText_noFlags hargs hp k
      rw [vgaExpansion_conversion hflags, hnone, htext, hnext, ih, expansion, if_pos rfl]
  | plain hc _ ih => rw [vgaExpansion_plain hc, expansion_plain hc, ih]

/-- What a format without flags prints. -/
theorem vgaPrintf_unflagged {fmt : CString} (hfmt : Unflagged fmt.bytes)
    (hargs : ∀ k, (args k).text.bytes.length < 2 ^ 31) (vga : Vga) :
    vgaPrintf vga fmt args = some ((expansion args fmt.bytes 0).foldl vgaPutchar vga) := by
  rw [vgaPrintf, vgaPrintfLoop_eq hfmt.not_endsInFlags, vgaExpansion_eq hfmt hargs]

theorem Unflagged.plain_append (text : List UInt8) (htext : ∀ c ∈ text, c ≠ 0x25)
    (hfmt : Unflagged fmt) : Unflagged (text ++ fmt) := by
  induction text with
  | nil => exact hfmt
  | cons c text ih =>
      obtain ⟨hc, htext⟩ := List.forall_mem_cons.mp htext
      exact .plain hc (ih htext)

theorem expansion_plain_append {text : List UInt8} (htext : ∀ c ∈ text, c ≠ 0x25)
    (fmt : List UInt8) (k : Nat) :
    expansion args (text ++ fmt) k = text ++ expansion args fmt k := by
  induction text with
  | nil => rfl
  | cons c text ih =>
      obtain ⟨hc, htext⟩ := List.forall_mem_cons.mp htext
      rw [List.cons_append, expansion_plain hc, ih htext, List.cons_append]

/-- The two formatters agree on formats without flags: there is one text, which `vga_printf`
prints and of which `snprintf` leaves as much in the buffer as fits. -/
theorem formatters_agree {fmt : CString} (hfmt : Unflagged fmt.bytes)
    (hargs : ∀ k, (args k).text.bytes.length < 2 ^ 31) {n : UInt32} (hn : n ≠ 0) (buf : Memory)
    (vga : Vga) :
    ∃ (text : List UInt8) (r : Int32),
      snprintf buf n fmt args = some (terminated buf (text.take (n.toNat - 1)), r) ∧
        vgaPrintf vga fmt args = some (text.foldl vgaPutchar vga) := by
  have hpos : 1 ≤ n.toNat := by
    by_contra hzero
    exact hn (UInt32.toNat.inj (by simpa using hzero))
  exact ⟨expansion args fmt.bytes 0, _, snprintf_complete hpos hfmt.complete,
    vgaPrintf_unflagged hfmt hargs vga⟩

/-- A number and a percent sign. -/
theorem formatters_agree_percent :
    ∃ (text : List UInt8) (r : Int32),
      snprintf (fun _ => 0) 4 ⟨[0x25, 0x75, 0x25, 0x25], by decide +kernel⟩ (fun _ => ⟨100, none⟩) =
          some (terminated (fun _ => 0) (text.take 3), r) ∧
        vgaPrintf (Vga.boot (fun _ => 0) fun _ => 0) ⟨[0x25, 0x75, 0x25, 0x25], by decide +kernel⟩
          (fun _ => ⟨100, none⟩) =
          some (text.foldl vgaPutchar (Vga.boot (fun _ => 0) fun _ => 0)) :=
  @formatters_agree (fun _ => ⟨100, none⟩) _
    (.conversion (by decide) (by decide) (by decide)
      (.conversion (by decide) (by decide) (by decide) .nil))
    (fun _ => by decide) _ (by decide) (fun _ => 0) (Vga.boot (fun _ => 0) fun _ => 0)

/-! ## Numbers in fields -/

theorem leadingInt_spaces (count : Nat) (s : List UInt8) :
    leadingInt (List.replicate count 0x20 ++ s) = leadingInt s := by
  have hdrop : (List.replicate count (0x20 : UInt8) ++ s).dropWhile (· == 0x20) =
      s.dropWhile (· == 0x20) := by
    rw [List.dropWhile_append_of_pos]
    simp
  rw [leadingInt, leadingInt, hdrop]

theorem leadingNat_zeros (count : Nat) (s : List UInt8) :
    leadingNat (List.replicate count 0x30 ++ s) = leadingNat s := by
  induction count with
  | zero => rfl
  | succ count ih =>
      rw [← ih, List.replicate_succ, List.cons_append, leadingNat,
        List.takeWhile_cons_of_pos (by decide), List.foldl_cons]
      rfl

/-- Digits read the same with other bytes behind them. -/
theorem leadingNat_append {s : List UInt8} (hs : ∀ c ∈ s, isDigit c = true) {c : UInt8}
    (hc : isDigit c = false) (rest : List UInt8) : leadingNat (s ++ c :: rest) = leadingNat s := by
  rw [leadingNat, leadingNat, List.takeWhile_append_of_pos hs,
    List.takeWhile_cons_of_neg (by simp [hc]), List.append_nil, List.takeWhile_eq_self_iff.mpr hs]

/-- Digits at the front are neither spaces nor a sign. -/
theorem leadingInt_numeral {s : List UInt8} (hne : s ≠ [])
    (hs : ∀ c ∈ s, c ∈ digitAlphabet.take 10) (rest : List UInt8) :
    leadingInt (s ++ rest) = leadingNat (s ++ rest) := by
  have hdigit : ∀ c ∈ digitAlphabet.take 10, (c == 0x20) = false ∧ c ≠ 0x2D ∧ c ≠ 0x2B := by
    simp [digitAlphabet]
  obtain ⟨c, s, rfl⟩ := List.exists_cons_of_ne_nil hne
  obtain ⟨hspace, hminus, hplus⟩ := hdigit c (hs c List.mem_cons_self)
  rw [List.cons_append, leadingInt, List.dropWhile_cons, hspace]
  split
  next heq => exact absurd (List.cons.inj heq).1 hminus
  next heq => exact absurd (List.cons.inj heq).1 hplus
  next => rfl

/-- A number behind spaces, or in front of them, reads as it is. -/
theorem atoi_spaced (val : Int32) (front back : Nat) :
    atoi (List.replicate front 0x20 ++ (itoa val 10 ++ List.replicate back 0x20)) = val := by
  have hdigit : ∀ c ∈ digitAlphabet.take 10, isDigit c = true := by
    simp [digitAlphabet, isDigit]
  have hdigits (n : Nat) : ∀ c ∈ numeral 10 n, c ∈ digitAlphabet.take 10 :=
    (numeral_isNumeral (by decide) (by decide : 10 ≤ 16) n).digits
  have hne (n : Nat) : numeral 10 n ≠ [] :=
    (numeral_isNumeral (by decide) (by decide : 10 ≤ 16) n).nonempty
  rw [atoi_eq, leadingInt_spaces]
  refine (congrArg Int32.ofInt ?_).trans (Int32.ofInt_toInt val)
  rw [← leadingInt_itoa val]
  cases back with
  | zero => rw [List.replicate_zero, List.append_nil]
  | succ back =>
      have hspace : isDigit 0x20 = false := by decide
      have htail (n : Nat) := leadingNat_append (fun c hc => hdigit c (hdigits n c hc)) hspace
        (List.replicate back 0x20)
      rw [List.replicate_succ, itoa_ten_natAbs]
      split
      · rw [List.cons_append, leadingInt_minus, leadingInt_minus, htail]
      · rw [leadingInt_numeral (hne _) (hdigits _), htail, leadingInt_of_digits (hdigits _)]

theorem padding_pos_iff {text : List UInt8} (htext : text.length < 2 ^ 31) (width : Int32) :
    0 < padding text width ↔ (text.length : Int) < width.toInt := by
  have hlength := Int32.toInt_ofNat_of_lt htext
  rw [padding]
  split
  next hlt =>
    rw [gt_iff_lt, Int32.lt_iff_toInt_lt, hlength] at hlt
    have hwidth := width.toInt_lt
    have hsub : (width - Int32.ofNat text.length).toInt = width.toInt - text.length := by
      rw [Int32.toInt_sub, hlength, Int.bmod_eq_of_le] <;> omega
    rw [← Int32.toNat_toInt, hsub]
    omega
  next hle =>
    rw [gt_iff_lt, Int32.lt_iff_toInt_lt, hlength] at hle
    omega

theorem widthLoop_digits {digits : List UInt8} (hdigits : ∀ d ∈ digits, 0x30 ≤ d ∧ d ≤ 0x39)
    {c : UInt8} (hc : ¬ (0x30 ≤ c ∧ c ≤ 0x39)) (width : Int32) :
    widthLoop width (digits ++ [c]) = (atoiLoop width digits, [c]) := by
  induction digits generalizing width with
  | nil => rw [List.nil_append, widthLoop, if_neg hc, atoiLoop]
  | cons d digits ih =>
      have hd := hdigits d List.mem_cons_self
      have hdigit : isDigit d = true := by simpa [isDigit] using hd
      rw [List.cons_append, widthLoop, if_pos hd, atoiLoop, if_pos hdigit,
        ih fun e he => hdigits e (List.mem_cons_of_mem d he)]

/-- What digits in front of a conversion mean. -/
theorem flags_digits {digits : List UInt8} (hdigits : ∀ d ∈ digits, 0x30 ≤ d ∧ d ≤ 0x39)
    {c : UInt8} (hc : ¬ (0x30 ≤ c ∧ c ≤ 0x39)) :
    (widthLoop 0 (skipByte 0x30 (digits ++ [c])).2) = (atoiLoop 0 digits, [c]) ∧
      ((skipByte 0x30 (digits ++ [c])).1 = true ↔ digits.head? = some 0x30) := by
  cases digits with
  | nil =>
      have hzero : c ≠ 0x30 := by
        rintro rfl
        exact hc (by decide)
      simp [skipByte, hzero, widthLoop, hc, atoiLoop]
  | cons d digits =>
      have hrest := widthLoop_digits (fun e he => hdigits e (List.mem_cons_of_mem d he)) hc
      rw [List.cons_append, skipByte]
      split
      next hzero =>
        -- the zero that is the flag adds nothing to the width
        subst hzero
        rw [hrest]
        exact ⟨rfl, iff_of_true rfl rfl⟩
      next hne =>
        have hall := widthLoop_digits hdigits hc 0
        rw [List.cons_append] at hall
        exact ⟨hall, iff_of_false (by simp) (by simpa using hne)⟩

/-- A number reads back from its field, unless it is negative and zeros fill the field: they
stand in front of the sign. -/
theorem atoi_field_iff (flags : Flags) (hpad : flags.padChar = 0x20 ∨ flags.padChar = 0x30)
    (val : Int32) :
    atoi (flags.field (itoa val 10)) = val ↔
      ¬ (flags.leftAlign = false ∧ flags.padChar = 0x30 ∧ val < 0 ∧
        ((itoa val 10).length : Int) < flags.width.toInt) := by
  have hpos := padding_pos_iff ((itoa_ten_fits val).2.trans (by decide)) flags.width
  obtain ⟨leftAlign, padChar, width⟩ := flags
  dsimp only at hpad hpos ⊢
  rw [Flags.field, inField, ← hpos]
  cases leftAlign with
  | true =>
      have hback := atoi_spaced val 0 (padding (itoa val 10) width)
      exact iff_of_true hback (by simp)
  | false =>
      rw [if_neg Bool.false_ne_true]
      rcases hpad with rfl | rfl
      · have hfront := atoi_spaced val (padding (itoa val 10) width) 0
        rw [List.replicate_zero, List.append_nil] at hfront
        exact iff_of_true hfront (by simp)
      · cases hcount : padding (itoa val 10) width with
        | zero =>
            have hnone := atoi_spaced val 0 0
            rw [List.replicate_zero, List.append_nil, List.nil_append] at hnone
            exact iff_of_true hnone (by simp)
        | succ count =>
            have hzero : (0x30 : UInt8) ∈ digitAlphabet.take 10 := by decide
            have hread := leadingInt_numeral (s := List.replicate (count + 1) 0x30) (by simp)
              (fun c hc => (List.eq_of_mem_replicate hc) ▸ hzero) (itoa val 10)
            rw [atoi_eq, hread, leadingNat_zeros, itoa_ten_natAbs]
            split
            next hneg =>
              -- nothing is read but the zeros
              have hstop : leadingNat (0x2D :: numeral 10 val.toInt.natAbs) = 0 := rfl
              rw [hstop]
              refine iff_of_false (fun heq => ?_) (by simp [hneg])
              rw [← heq] at hneg
              exact absurd hneg (by decide)
            next hpositive =>
              have hnat := mt Int32.lt_iff_toInt_lt.mpr hpositive
              rw [leadingNat_numeral]
              refine iff_of_true ?_ fun h => hpositive h.2.2.1
              rw [Int32.toInt_zero] at hnat
              rw [Int.natAbs_of_nonneg (by omega), Int32.ofInt_toInt]

/-- What flags in front of a conversion mean. -/
theorem flagsOf_isFlags {flags : List UInt8} (hflags : IsFlags flags) :
    afterFlags (flags ++ [0x64]) = [0x64] ∧
      ((flagsOf (flags ++ [0x64])).padChar = 0x20 ∨ (flagsOf (flags ++ [0x64])).padChar = 0x30) ∧
      ((flagsOf (flags ++ [0x64])).leftAlign = false ∧
          (flagsOf (flags ++ [0x64])).padChar = 0x30 ↔ flags.head? = some 0x30) ∧
      (flags.head? = some 0x30 → (flagsOf (flags ++ [0x64])).width = atoiLoop 0 flags) := by
  obtain ⟨digits, hdigits, hshape⟩ := hflags
  obtain ⟨hwidth, hzero⟩ := flags_digits hdigits (c := 0x64) (by decide)
  rcases hshape with rfl | rfl
  · -- digits have no minus sign in front
    have hleft : skipByte 0x2D (flags ++ [0x64]) = (false, flags ++ [0x64]) := by
      cases flags with
      | nil => rfl
      | cons d digits =>
          have hminus : d ≠ 0x2D := by
            rintro rfl
            exact absurd (hdigits 0x2D List.mem_cons_self) (by decide)
          rw [List.cons_append, skipByte, if_neg hminus]
    simp only [afterFlags, flagsOf, hleft, hwidth, true_and, ← hzero]
    refine ⟨?_, ?_, by simp⟩
    · split
      · exact Or.inr rfl
      · exact Or.inl rfl
    · split <;> simp_all
  · have hleft : skipByte 0x2D (0x2D :: digits ++ [0x64]) = (true, digits ++ [0x64]) := by
      rw [List.cons_append, skipByte, if_pos rfl]
    simp only [afterFlags, flagsOf, hleft, hwidth, true_and]
    refine ⟨?_, by simp, by simp⟩
    split
    · exact Or.inr rfl
    · exact Or.inl rfl

/-- A number printed with any flags reads back, unless the flags start with a zero, the number is
negative and the field is wider than its text. -/
theorem vga_printf_number_reads_back_iff {flags : List UInt8} (hflags : IsFlags flags)
    {fmt : CString} (hfmt : fmt.bytes = 0x25 :: (flags ++ [0x64])) (val : Int32) (vga : Vga) :
    ∃ text : List UInt8,
      vgaPrintf vga fmt (fun _ => ⟨val.toUInt32, none⟩) = some (text.foldl vgaPutchar vga) ∧
        (atoi text = val ↔ ¬ (flags.head? = some 0x30 ∧ val < 0 ∧
          ((itoa val 10).length : Int) < (atoiLoop 0 flags).toInt)) := by
  obtain ⟨hafter, hpad, hzero, hwidth⟩ := flagsOf_isFlags hflags
  have hcomplete : ¬ EndsInFlags (0x25 :: (flags ++ [0x64])) := by
    rw [endsInFlags_conversion hafter]
    exact Unflagged.nil.not_endsInFlags
  refine ⟨(flagsOf (flags ++ [0x64])).field (itoa val 10), ?_, ?_⟩
  · rw [vgaPrintf, hfmt, vgaPrintfLoop_eq hcomplete, vgaExpansion_conversion hafter, vgaExpansion,
      List.append_nil]
    rfl
  · rw [atoi_field_iff _ hpad, not_iff_not, ← and_assoc, hzero]
    refine and_congr_right fun hhead => ?_
    rw [hwidth hhead]

/-- A negative number in a field of five, filled with zeros, reads as zero. -/
theorem vga_printf_number_reads_back_minus :
    ∃ text : List UInt8,
      vgaPrintf (Vga.boot (fun _ => 0) fun _ => 0) ⟨[0x25, 0x30, 0x35, 0x64], by decide +kernel⟩
          (fun _ => ⟨(-7 : Int32).toUInt32, none⟩) =
          some (text.foldl vgaPutchar (Vga.boot (fun _ => 0) fun _ => 0)) ∧
        (atoi text = -7 ↔ ¬ (([0x30, 0x35] : List UInt8).head? = some 0x30 ∧ (-7 : Int32) < 0 ∧
          ((itoa (-7) 10).length : Int) < (atoiLoop 0 [0x30, 0x35]).toInt)) :=
  @vga_printf_number_reads_back_iff [0x30, 0x35] ⟨[0x30, 0x35], by decide +kernel, Or.inl rfl⟩ _
    rfl (-7) (Vga.boot (fun _ => 0) fun _ => 0)

end Dosfs
