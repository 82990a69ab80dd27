import Dosfs.Drivers.Vga
import Dosfs.Libc.Snprintf

/-!
# Formatted printing on the console

A translation of `vga_printf` of `drivers/vga.c`, and where the two formatters read
behind the end of their format.
-/

namespace Dosfs

open Foundation

/-- The body of the four `print_fmt` functions. -/
def printPadded (s : CString) (width : Int32) (leftAlign : Bool) (padChar : UInt8) (vga : Vga) :
    Vga :=
  let len := Int32.ofNat s.bytes.length
  let pad := if width > len then (width - len).toNatClampNeg else 0
  let vga := if leftAlign then vga else (List.replicate pad padChar).foldl vgaPutchar vga
  let vga := vgaPuts vga s
  if leftAlign then (List.replicate pad 0x20).foldl vgaPutchar vga else vga

def printFmtInt (val : Int32) (width : Int32) (leftAlign : Bool) (padChar : UInt8) : Vga → Vga :=
  printPadded ⟨itoa val 10, (itoa_ten_fits val).1⟩ width leftAlign padChar

def printFmtUint (val : UInt32) (width : Int32) (leftAlign : Bool) (padChar : UInt8) : Vga → Vga :=
  printPadded ⟨uitoa val 10, (uitoa_fits (by decide) (by decide) val).1⟩ width leftAlign padChar

def printFmtHex (val : UInt32) (width : Int32) (leftAlign : Bool) (padChar : UInt8) : Vga → Vga :=
  printPadded ⟨uitoa val 16, (uitoa_fits (by decide) (by decide) val).1⟩ width leftAlign padChar

def printFmtStr (s : CString) (width : Int32) (leftAlign : Bool) : Vga → Vga :=
  printPadded s width leftAlign 0x20

/-- A flag that may stand at the front of the format. -/
def skipByte (flag : UInt8) : List UInt8 → Bool × List UInt8
  | [] => (false, [])
  | c :: fmt => if c = flag then (true, fmt) else (false, c :: fmt)

/-- The loop that reads the width. -/
def widthLoop : Int32 → List UInt8 → Int32 × List UInt8
  | width, [] => (width, [])
  | width, c :: fmt =>
      if 0x30 ≤ c ∧ c ≤ 0x39 then widthLoop (width * 10 + Int32.ofNat (c.toNat - 0x30)) fmt
      else (width, c :: fmt)

/-- What is left of a conversion behind its flags and its width. -/
def afterFlags (fmt : List UInt8) : List UInt8 :=
  (widthLoop 0 (skipByte 0x30 (skipByte 0x2D fmt).2).2).2

/-- One conversion of `vga_printf`, for the byte behind the flags; also the index of the
next argument. -/
def vgaPrintfConvert (args : Nat → VaArg) (leftAlign : Bool) (padChar : UInt8) (width : Int32)
    (c : UInt8) (k : Nat) (vga : Vga) : Nat × Vga :=
  if c = 0x73 then (k + 1, printFmtStr (args k).text width leftAlign vga)
  else if c = 0x64 then (k + 1, printFmtInt (args k).word.toInt32 width leftAlign padChar vga)
  else if c = 0x75 then (k + 1, printFmtUint (args k).word width leftAlign padChar vga)
  else if c = 0x78 then (k + 1, printFmtHex (args k).word width leftAlign padChar vga)
  else if c = 0x70 then
    let vga := vgaPuts vga ⟨[0x30, 0x78], by simp⟩
    (k + 1, printFmtHex (args k).word width leftAlign padChar vga)
  else if c = 0x63 then (k + 1, vgaPutchar vga (args k).word.toUInt8)
  else if c = 0x25 then (k, vgaPutchar vga 0x25)
  else (k, vgaPutchar (vgaPutchar vga 0x25) c)

theorem skipByte_length_le (flag : UInt8) (fmt : List UInt8) :
    (skipByte flag fmt).2.length ≤ fmt.length := by
  unfold skipByte
  split
  · exact Nat.le_refl _
  · split
    · exact Nat.le_succ _
    · exact Nat.le_refl _

theorem widthLoop_length_le (width : Int32) (fmt : List UInt8) :
    (widthLoop width fmt).2.length ≤ fmt.length := by
  induction fmt generalizing width with
  | nil => exact Nat.le_refl _
  | cons c fmt ih =>
      rw [widthLoop]
      split
      · exact (ih _).trans (Nat.le_succ _)
      · exact Nat.le_refl _

theorem afterFlags_length_le (fmt : List UInt8) : (afterFlags fmt).length ≤ fmt.length :=
  (widthLoop_length_le _ _).trans ((skipByte_length_le _ _).trans (skipByte_length_le _ _))

/-- The loop of `vga_printf` over the format. -/
def vgaPrintfLoop (args : Nat → VaArg) (fmt : List UInt8) (k : Nat) (vga : Vga) : Option Vga :=
  match fmt with
  | [] => some vga
  | c :: fmt =>
      if c = 0x25 then
        if fmt = [] then some vga
        else
          let left := skipByte 0x2D fmt
          let zero := skipByte 0x30 left.2
          let width := widthLoop 0 zero.2
          match hrest : width.2 with
          -- the NUL is taken for a conversion, and the loop goes on behind it
          | [] => none
          | c :: rest =>
              let padChar := if zero.1 then 0x30 else 0x20
              let next := vgaPrintfConvert args left.1 padChar width.1 c k vga
              vgaPrintfLoop args rest next.1 next.2
      else vgaPrintfLoop args fmt k (vgaPutchar vga c)
termination_by fmt.length
decreasing_by
  · have hle := afterFlags_length_le fmt
    have heq : afterFlags fmt = c :: rest := hrest
    rw [heq, List.length_cons] at hle
    simp only [List.length_cons]
    omega
  · simp

def vgaPrintf (vga : Vga) (fmt : CString) (args : Nat → VaArg) : Option Vga :=
  vgaPrintfLoop args fmt.bytes 0 vga

/-! ## The flags -/

/-- Flags and a width: an optional minus sign, and digits. -/
def IsFlags (flags : List UInt8) : Prop :=
  ∃ digits, (∀ d ∈ digits, 0x30 ≤ d ∧ d ≤ 0x39) ∧ (flags = digits ∨ flags = 0x2D :: digits)

theorem widthLoop_eq_nil_iff (width : Int32) (fmt : List UInt8) :
    (widthLoop width fmt).2 = [] ↔ ∀ d ∈ fmt, 0x30 ≤ d ∧ d ≤ 0x39 := by
  induction fmt generalizing width with
  | nil => exact iff_of_true rfl fun _ h => absurd h List.not_mem_nil
  | cons c fmt ih =>
      rw [widthLoop, List.forall_mem_cons]
      split
      next hdigit => rw [ih, and_iff_right hdigit]
      next hno => exact iff_of_false (List.cons_ne_nil _ _) fun h => hno h.1

/-- The flag for zeros is a digit like the others. -/
theorem skipByte_zero_iff (fmt : List UInt8) :
    (∀ d ∈ (skipByte 0x30 fmt).2, 0x30 ≤ d ∧ d ≤ (0x39 : UInt8)) ↔
      ∀ d ∈ fmt, 0x30 ≤ d ∧ d ≤ 0x39 := by
  unfold skipByte
  split
  · rfl
  · split
    next hzero =>
      rw [List.forall_mem_cons, hzero]
      exact (and_iff_right (by decide)).symm
    next => rfl

theorem afterFlags_eq_nil_iff (fmt : List UInt8) : afterFlags fmt = [] ↔ IsFlags fmt := by
  rw [afterFlags, widthLoop_eq_nil_iff, skipByte_zero_iff]
  cases fmt with
  | nil => exact iff_of_true (fun _ h => absurd h List.not_mem_nil) ⟨[], by simp, Or.inl rfl⟩
  | cons c fmt =>
      rw [skipByte]
      split
      next hminus =>
        refine ⟨fun h => ⟨fmt, h, Or.inr (by rw [hminus])⟩, ?_⟩
        rintro ⟨digits, hdigits, rfl | h⟩
        · exact absurd (hdigits c List.mem_cons_self).1 (by rw [hminus]; decide)
        · exact (List.cons.inj h).2 ▸ hdigits
      next hno =>
        refine ⟨fun h => ⟨c :: fmt, h, Or.inl rfl⟩, ?_⟩
        rintro ⟨digits, hdigits, rfl | h⟩
        · exact hdigits
        · exact absurd (List.cons.inj h).1 hno

/-- A parser takes a part off the front that does not depend on what follows. -/
def TakesFront (parse : List UInt8 → List UInt8) : Prop :=
  ∀ fmt c rest, parse fmt = c :: rest →
    ∃ front, fmt = front ++ c :: rest ∧ ∀ rest', parse (front ++ c :: rest') = c :: rest'

theorem TakesFront.comp {parse parse' : List UInt8 → List UInt8} (h : TakesFront parse)
    (h' : TakesFront parse') : TakesFront fun fmt => parse (parse' fmt) := by
  intro fmt c rest heq
  obtain ⟨front, hfront, hany⟩ := h _ c rest heq
  cases front with
  | nil =>
      obtain ⟨front', hfmt, hany'⟩ := h' fmt c rest hfront
      refine ⟨front', hfmt, fun rest' => ?_⟩
      change parse (parse' _) = _
      rw [hany']
      exact hany rest'
  | cons d front =>
      obtain ⟨front', hfmt, hany'⟩ := h' fmt d (front ++ c :: rest) hfront
      refine ⟨front' ++ d :: front, by rw [hfmt, List.append_assoc, List.cons_append], ?_⟩
      intro rest'
      change parse (parse' _) = _
      rw [List.append_assoc, List.cons_append, hany']
      exact hany rest'

theorem takesFront_skipByte (flag : UInt8) : TakesFront fun fmt => (skipByte flag fmt).2 := by
  intro fmt c rest heq
  cases fmt with
  | nil => exact absurd heq.symm (List.cons_ne_nil _ _)
  | cons d fmt =>
      simp only [skipByte] at heq
      split at heq
      next hflag =>
        obtain rfl : fmt = c :: rest := heq
        exact ⟨[d], rfl, fun rest' => by rw [hflag]; exact congrArg Prod.snd (if_pos rfl)⟩
      next hno =>
        obtain ⟨rfl, rfl⟩ := List.cons.inj heq
        exact ⟨[], rfl, fun rest' => congrArg Prod.snd (if_neg hno)⟩

theorem takesFront_widthLoop (width : Int32) : TakesFront fun fmt => (widthLoop width fmt).2 := by
  intro fmt
  induction fmt generalizing width with
  | nil => exact fun c rest heq => absurd heq.symm (List.cons_ne_nil _ _)
  | cons d fmt ih =>
      intro c rest heq
      simp only [widthLoop] at heq
      split at heq
      next hdigit =>
        obtain ⟨front, rfl, hany⟩ := ih _ c rest heq
        refine ⟨d :: front, rfl, fun rest' => ?_⟩
        simp only [List.cons_append, widthLoop, if_pos hdigit]
        exact hany rest'
      next hno =>
        obtain ⟨rfl, rfl⟩ := List.cons.inj heq
        exact ⟨[], rfl, fun rest' => congrArg Prod.snd (if_neg hno)⟩

/-- The flags are a part of the format that does not depend on what follows. -/
theorem afterFlags_eq_cons {fmt rest : List UInt8} {c : UInt8} (h : afterFlags fmt = c :: rest) :
    ∃ flags, fmt = flags ++ c :: rest ∧
      ∀ rest', afterFlags (flags ++ c :: rest') = c :: rest' :=
  (takesFront_widthLoop 0).comp ((takesFront_skipByte 0x30).comp (takesFront_skipByte 0x2D))
    fmt c rest h

/-- Every percent sign is followed by a conversion, behind its flags. -/
inductive VgaComplete : List UInt8 → Prop
  | nil : VgaComplete []
  | conversion {fmt rest : List UInt8} {c : UInt8} (hflags : afterFlags fmt = c :: rest)
      (h : VgaComplete rest) : VgaComplete (0x25 :: fmt)
  | plain {c : UInt8} (hc : c ≠ 0x25) {fmt : List UInt8} (h : VgaComplete fmt) :
      VgaComplete (c :: fmt)

/-- The format ends in a percent sign and flags. -/
def EndsInFlags (fmt : List UInt8) : Prop :=
  ∃ pre flags, fmt = pre ++ 0x25 :: flags ∧ VgaComplete pre ∧ flags ≠ [] ∧ IsFlags flags

theorem endsInFlags_plain {c : UInt8} (hc : c ≠ 0x25) {fmt : List UInt8} :
    EndsInFlags (c :: fmt) ↔ EndsInFlags fmt := by
  constructor
  · rintro ⟨pre, flags, heq, hpre, hflags⟩
    cases hpre with
    | nil => exact absurd (List.cons.inj heq).1 hc
    | conversion => exact absurd (List.cons.inj heq).1 hc
    | @plain d hd pre hpre => exact ⟨pre, flags, (List.cons.inj heq).2, hpre, hflags⟩
  · rintro ⟨pre, flags, rfl, hpre, hflags⟩
    exact ⟨c :: pre, flags, rfl, .plain hc hpre, hflags⟩

theorem endsInFlags_conversion {c : UInt8} {fmt rest : List UInt8}
    (h : afterFlags fmt = c :: rest) : EndsInFlags (0x25 :: fmt) ↔ EndsInFlags rest := by
  constructor
  · rintro ⟨pre, flags, heq, hpre, hne, hflags⟩
    cases hpre with
    | nil =>
        obtain rfl := (List.cons.inj heq).2
        rw [(afterFlags_eq_nil_iff fmt).mpr hflags] at h
        exact absurd h.symm (List.cons_ne_nil _ _)
    | @conversion spec rest' c' hspec hpre =>
        obtain ⟨flags', hspec', hany⟩ := afterFlags_eq_cons hspec
        have htail : fmt = spec ++ 0x25 :: flags := (List.cons.inj heq).2
        have hfmt : fmt = flags' ++ c' :: (rest' ++ 0x25 :: flags) := by
          rw [htail, hspec', List.append_assoc, List.cons_append]
        rw [hfmt, hany] at h
        exact ⟨rest', flags, (List.cons.inj h).2.symm, hpre, hne, hflags⟩
    | plain hd => exact absurd (List.cons.inj heq).1.symm hd
  · rintro ⟨pre, flags, rfl, hpre, hne, hflags⟩
    obtain ⟨flags', hfmt, hany⟩ := afterFlags_eq_cons h
    refine ⟨0x25 :: (flags' ++ c :: pre), flags, ?_, .conversion (hany pre) hpre, hne, hflags⟩
    rw [hfmt, List.cons_append, List.append_assoc, List.cons_append]

theorem endsInFlags_percent {fmt : List UInt8} (h : afterFlags fmt = []) :
    EndsInFlags (0x25 :: fmt) ↔ fmt ≠ [] := by
  constructor
  · rintro ⟨pre, flags, heq, hpre, hne, -⟩ rfl
    cases pre with
    | nil => exact hne (List.cons.inj heq).2.symm
    | cons d pre => exact absurd (List.cons.inj heq).2 (by simp)
  · exact fun hne => ⟨[], fmt, rfl, .nil, hne, (afterFlags_eq_nil_iff fmt).mp h⟩

/-- The loop reads behind the terminator when the format ends in the middle of a
conversion. -/
theorem vgaPrintfLoop_eq_none_iff (args : Nat → VaArg) (fmt : List UInt8) (k : Nat) (vga : Vga) :
    vgaPrintfLoop args fmt k vga = none ↔ EndsInFlags fmt := by
  fun_induction vgaPrintfLoop args fmt k vga with
  | case1 =>
      refine iff_of_false (Option.some_ne_none _) ?_
      rintro ⟨pre, flags, heq, -⟩
      exact absurd heq.symm (by simp)
  | case2 =>
      have hend := @endsInFlags_percent [] rfl
      exact iff_of_false (Option.some_ne_none _) fun h => hend.mp h rfl
  | case3 _ _ fmt hne _ _ _ hrest =>
      exact iff_of_true rfl ((endsInFlags_percent hrest).mpr hne)
  | case4 _ _ fmt _ _ _ _ _ _ hrest _ _ ih =>
      exact ih.trans (endsInFlags_conversion hrest).symm
  | case5 _ _ c fmt hc ih => exact ih.trans (endsInFlags_plain hc).symm

/-- The formatters stop at the end of the format, unless it ends in the middle of a
conversion: `snprintf` when it ends with a percent sign and there is still room in the
buffer at that point, `vga_printf` when it ends with a percent sign and flags. -/
theorem formatters_stop_iff (buf : Memory) (n : UInt32) (vga : Vga) (fmt : CString)
    (args : Nat → VaArg) :
    ((∃ result, snprintf buf n fmt args = some result) ↔
        ¬ ∃ pre, fmt.bytes = pre ++ [0x25] ∧ Complete pre ∧
          (expansion args pre 0).length + 1 < n.toNat) ∧
      ((∃ vga', vgaPrintf vga fmt args = some vga') ↔ ¬ EndsInFlags fmt.bytes) := by
  constructor
  · rw [← snprintf_eq_none_iff, ← Option.ne_none_iff_exists']
  · rw [← vgaPrintfLoop_eq_none_iff args fmt.bytes 0 vga, ← Option.ne_none_iff_exists']
    rfl

/-- A percent sign alone, and one with a width. -/
theorem formatters_overrun :
    (snprintf (fun _ => 0) 10 ⟨[0x25], by simp⟩ (fun _ => ⟨0, none⟩) = none) ∧
      ∀ vga, vgaPrintf vga ⟨[0x25, 0x35], by simp⟩ (fun _ => ⟨0, none⟩) = none := by
  constructor
  · exact snprintf_eq_none_iff.mpr ⟨[], rfl, .nil, by decide⟩
  · intro vga
    refine (vgaPrintfLoop_eq_none_iff _ _ _ _).mpr ((endsInFlags_percent ?_).mpr (by simp))
    decide

end Dosfs
