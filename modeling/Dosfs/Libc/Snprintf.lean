import Dosfs.Foundation.Output
import Dosfs.Libc.Numerals
import Dosfs.Libc.String

/-!
# Formatting into a buffer

A translation of `snprintf` of `libc/string.c`. The format is the list of its bytes
before the terminating NUL; where the source would read a byte behind the NUL there
is no result.
-/

namespace Dosfs

open Foundation

/-- An argument: as a number, and as the string it points to, with `none` for the null
pointer. -/
structure VaArg where
  word : UInt32
  string : Option CString

/-- The string argument, or `(null)`. -/
def VaArg.text (arg : VaArg) : CString :=
  arg.string.getD ⟨[0x28, 0x6E, 0x75, 0x6C, 0x6C, 0x29], by simp⟩

/-- One conversion of `snprintf`, for the byte behind the percent sign; also the index
of the next argument. -/
def snprintfConvert (limit : Nat) (args : Nat → VaArg) (c : UInt8) (k : Nat) (out : Output) :
    Nat × Output :=
  if c = 0x64 then (k + 1, out.copy limit (itoa (args k).word.toInt32 10))
  else if c = 0x75 then (k + 1, out.copy limit (uitoa (args k).word 10))
  else if c = 0x78 then (k + 1, out.copy limit (uitoa (args k).word 16))
  else if c = 0x73 then (k + 1, out.copy limit (args k).text.bytes)
  else if c = 0x63 then (k + 1, out.put (args k).word.toUInt8)
  else if c = 0x25 then (k, out.put 0x25)
  else
    let out := out.put 0x25
    (k, if out.pos < limit then out.put c else out)

/-- The loop of `snprintf` over the format. -/
def snprintfLoop (limit : Nat) (args : Nat → VaArg) : List UInt8 → Nat → Output → Option Output
  | [], _, out => some out
  | c :: fmt, k, out =>
      if out.pos < limit then
        if c = 0x25 then
          match fmt with
          -- the NUL is taken for a conversion, and the loop goes on behind it
          | [] => none
          | c :: fmt =>
              let (k, out) := snprintfConvert limit args c k out
              snprintfLoop limit args fmt k out
        else snprintfLoop limit args fmt k (out.put c)
      else some out

/-- `snprintf`: the buffer and the result. -/
def snprintf (buf : Memory) (n : UInt32) (fmt : CString) (args : Nat → VaArg) :
    Option (Memory × Int32) :=
  if n = 0 then some (buf, 0)
  else
    (snprintfLoop (n - 1).toNat args fmt.bytes 0 ⟨buf, 0⟩).map fun out =>
      ((out.buf.storeByte out.pos 0), (UInt32.ofNat out.pos).toInt32)

/-! ## The full expansion -/

/-- The text of a conversion. -/
def conversionText (args : Nat → VaArg) (c : UInt8) (k : Nat) : List UInt8 :=
  if c = 0x64 then itoa (args k).word.toInt32 10
  else if c = 0x75 then uitoa (args k).word 10
  else if c = 0x78 then uitoa (args k).word 16
  else if c = 0x73 then (args k).text.bytes
  else if c = 0x63 then [(args k).word.toUInt8]
  else if c = 0x25 then [0x25]
  else [0x25, c]

/-- The index of the next argument after a conversion. -/
def nextArg (c : UInt8) (k : Nat) : Nat :=
  if c = 0x64 ∨ c = 0x75 ∨ c = 0x78 ∨ c = 0x73 ∨ c = 0x63 then k + 1 else k

/-- What a format expands to, without any limit. -/
def expansion (args : Nat → VaArg) : List UInt8 → Nat → List UInt8
  | [], _ => []
  | c :: fmt, k =>
      if c = 0x25 then
        match fmt with
        | [] => []
        | c :: fmt => conversionText args c k ++ expansion args fmt (nextArg c k)
      else c :: expansion args fmt k

/-- Every percent sign that starts a conversion is followed by a character. -/
inductive Complete : List UInt8 → Prop
  | nil : Complete []
  | conversion (c : UInt8) {fmt : List UInt8} (h : Complete fmt) : Complete (0x25 :: c :: fmt)
  | plain {c : UInt8} (hc : c ≠ 0x25) {fmt : List UInt8} (h : Complete fmt) : Complete (c :: fmt)

variable {limit : Nat} {args : Nat → VaArg} {buf : Memory} {text : List UInt8}

/-- A conversion appends its text, as far as the limit allows. -/
theorem snprintfConvert_holding (h : text.length < limit) (c : UInt8) (k : Nat) :
    snprintfConvert limit args c k (.holding buf (text.take limit)) =
      (nextArg c k, .holding buf ((text ++ conversionText args c k).take limit)) := by
  by_cases hd : c = 0x64
  · subst hd
    exact Prod.ext rfl (Output.copy_holding_take _)
  by_cases hu : c = 0x75
  · subst hu
    exact Prod.ext rfl (Output.copy_holding_take _)
  by_cases hx : c = 0x78
  · subst hx
    exact Prod.ext rfl (Output.copy_holding_take _)
  by_cases hs : c = 0x73
  · subst hs
    exact Prod.ext rfl (Output.copy_holding_take _)
  by_cases hc : c = 0x63
  · subst hc
    exact Prod.ext rfl (Output.put_holding_take h _)
  by_cases hpercent : c = 0x25
  · subst hpercent
    exact Prod.ext rfl (Output.put_holding_take h _)
  -- an unknown conversion is copied, its second byte if there is room
  have hcopy := @Output.copy_holding_take buf (text ++ [0x25]) limit [c]
  rw [List.append_assoc, List.singleton_append, Output.copy, Output.copy] at hcopy
  rw [snprintfConvert, conversionText, nextArg, if_neg hd, if_neg hu, if_neg hx, if_neg hs,
    if_neg hc, if_neg hpercent, if_neg (by simp [hd, hu, hx, hs, hc]), if_neg hd, if_neg hu,
    if_neg hx, if_neg hs, if_neg hc, if_neg hpercent, Output.put_holding_take h]
  exact congrArg (Prod.mk k) hcopy

theorem snprintfLoop_plain {c : UInt8} (hc : c ≠ 0x25) (fmt : List UInt8) (k : Nat) (out : Output) :
    snprintfLoop limit args (c :: fmt) k out =
      if out.pos < limit then snprintfLoop limit args fmt k (out.put c) else some out := by
  cases fmt with
  | nil => conv_lhs => rw [snprintfLoop, if_neg hc]
  | cons => rw [snprintfLoop, if_neg hc]

theorem expansion_plain {c : UInt8} (hc : c ≠ 0x25) (fmt : List UInt8) (k : Nat) :
    expansion args (c :: fmt) k = c :: expansion args fmt k := by
  cases fmt with
  | nil => conv_lhs => rw [expansion, if_neg hc]
  | cons => rw [expansion, if_neg hc]

/-- The loop writes the expansion, as far as the limit allows. -/
theorem snprintfLoop_holding {fmt : List UInt8} (hfmt : Complete fmt) (k : Nat) :
    snprintfLoop limit args fmt k (.holding buf (text.take limit)) =
      some (.holding buf ((text ++ expansion args fmt k).take limit)) := by
  induction hfmt generalizing k text with
  | nil => rw [snprintfLoop, expansion, List.append_nil]
  | conversion c hfmt ih =>
      rw [snprintfLoop]
      split
      next hroom =>
        rw [if_pos rfl, snprintfConvert_holding (Output.holding_pos_lt_iff.mp hroom)]
        dsimp only
        rw [ih, expansion, if_pos rfl, List.append_assoc]
      next hfull =>
        rw [Output.holding_pos_lt_iff, Nat.not_lt] at hfull
        rw [List.take_append_of_le_length hfull]
  | plain hc hfmt ih =>
      rw [snprintfLoop_plain hc]
      split
      next hroom =>
        rw [Output.put_holding_take (Output.holding_pos_lt_iff.mp hroom), ih, expansion_plain hc,
          List.append_assoc, List.singleton_append]
      next hfull =>
        rw [Output.holding_pos_lt_iff, Nat.not_lt] at hfull
        rw [List.take_append_of_le_length hfull]

/-- The buffer with a text and a NUL written to it. -/
def terminated (buf : Memory) (text : List UInt8) : Memory :=
  (buf.storeList 0 text).storeByte text.length 0

theorem terminated_of_lt (buf : Memory) {text : List UInt8} {x : Nat} (hx : text.length < x) :
    terminated buf text x = buf x := by
  rw [terminated, Memory.storeByte_of_ne (by omega), Memory.storeList,
    Memory.overwrite_of_notMem (by omega)]

theorem terminated_length (buf : Memory) (text : List UInt8) :
    terminated buf text text.length = 0 :=
  Memory.storeByte_same

theorem loadList_terminated (buf : Memory) (text : List UInt8) :
    (terminated buf text).loadList 0 text.length = text := by
  rw [terminated, Memory.storeByte, Memory.loadList_overwrite_of_disjoint (by omega),
    Memory.loadList_storeList_same]

theorem ne_zero_of_pos {n : UInt32} (hn : 1 ≤ n.toNat) : n ≠ 0 := by
  rintro rfl
  exact absurd hn (by decide)

theorem toNat_sub_one {n : UInt32} (hn : 1 ≤ n.toNat) : (n - 1).toNat = n.toNat - 1 :=
  UInt32.toNat_sub_of_le n 1 hn

/-- The buffer holds as much of the expansion as fits, and a NUL. -/
theorem snprintf_complete {n : UInt32} {fmt : CString} (hn : 1 ≤ n.toNat)
    (hfmt : Complete fmt.bytes) :
    snprintf buf n fmt args =
      some (terminated buf ((expansion args fmt.bytes 0).take (n.toNat - 1)),
        (UInt32.ofNat (min (n.toNat - 1) (expansion args fmt.bytes 0).length)).toInt32) := by
  have hloop := @snprintfLoop_holding (n.toNat - 1) args buf [] fmt.bytes hfmt 0
  rw [List.take_nil, Output.holding_nil, List.nil_append] at hloop
  rw [snprintf, if_neg (ne_zero_of_pos hn), toNat_sub_one hn, hloop, ← List.length_take]
  rfl

/-- What a call leaves in a buffer of `n` bytes of a text that may be too long for it.
The answer is a signed number; as an index it is taken modulo `2 ^ 32`. -/
structure Truncated (buf buf' : Memory) (n : Nat) (full : List UInt8) (r : Int32) : Prop where
  outside : ∀ x, n ≤ x → buf' x = buf x
  inside : r.toUInt32.toNat < n
  terminated : buf' r.toUInt32.toNat = 0
  length : r.toUInt32.toNat = min (n - 1) full.length
  text : buf'.loadList 0 r.toUInt32.toNat = full.take (min (n - 1) full.length)
  signed : n ≤ 2 ^ 31 → r.toInt = r.toUInt32.toNat

/-- With a buffer of at least one byte, `snprintf` writes a prefix of the expansion and a
NUL, inside of the buffer, and answers with the length of the prefix. -/
theorem snprintf_truncates (buf : Memory) (n : UInt32) (fmt : CString) (args : Nat → VaArg)
    (hn : 1 ≤ n.toNat) (hfmt : Complete fmt.bytes) :
    ∃ buf' r, snprintf buf n fmt args = some (buf', r) ∧
      Truncated buf buf' n.toNat (expansion args fmt.bytes 0) r := by
  have hlt := n.toNat_lt
  have hlen : ((expansion args fmt.bytes 0).take (n.toNat - 1)).length =
      min (n.toNat - 1) (expansion args fmt.bytes 0).length := List.length_take
  have houtside (x : Nat) :=
    @terminated_of_lt buf ((expansion args fmt.bytes 0).take (n.toNat - 1)) x
  have hnul := terminated_length buf ((expansion args fmt.bytes 0).take (n.toNat - 1))
  have htext := loadList_terminated buf ((expansion args fmt.bytes 0).take (n.toNat - 1))
  rw [hlen] at houtside hnul htext
  have hpos : (UInt32.ofNat (min (n.toNat - 1) (expansion args fmt.bytes 0).length)).toNat =
      min (n.toNat - 1) (expansion args fmt.bytes 0).length := by
    rw [UInt32.toNat_ofNat']
    exact Nat.mod_eq_of_lt (by omega)
  refine ⟨_, _, snprintf_complete hn hfmt, fun x hx => houtside x (by omega), ?_, ?_, ?_, ?_,
    fun hsmall => ?_⟩
  · rw [UInt32.toUInt32_toInt32, hpos]
    omega
  · rw [UInt32.toUInt32_toInt32, hpos]
    exact hnul
  · rw [UInt32.toUInt32_toInt32, hpos]
  · rw [UInt32.toUInt32_toInt32, hpos, htext]
    exact List.take_eq_take_min
  · rw [UInt32.toUInt32_toInt32, hpos]
    exact Int32.toInt_ofNat_of_lt (by omega)

/-- The text `a` and a number do not fit a buffer of three bytes. -/
theorem snprintf_truncates_number :
    ∃ buf' r, snprintf (fun _ => 7) 3 ⟨[0x61, 0x25, 0x64], by simp⟩ (fun _ => ⟨123, none⟩) =
        some (buf', r) ∧
      Truncated (fun _ => 7) buf' 3 (expansion (fun _ => ⟨123, none⟩) [0x61, 0x25, 0x64] 0) r :=
  snprintf_truncates _ 3 ⟨[0x61, 0x25, 0x64], by simp⟩ _ (by decide)
    (.plain (by decide) (.conversion _ .nil))

/-! ## The end of the format -/

/-- A format is taken apart as the loop does. -/
@[elab_as_elim] theorem format_induction {P : List UInt8 → Prop} (nil : P []) (dangling : P [0x25])
    (conversion : ∀ c fmt, P fmt → P (0x25 :: c :: fmt))
    (plain : ∀ c fmt, c ≠ 0x25 → P fmt → P (c :: fmt)) : ∀ fmt, P fmt
  | [] => nil
  | [c] => by
      by_cases hc : c = 0x25
      · exact hc ▸ dangling
      · exact plain c [] hc nil
  | c :: d :: fmt => by
      by_cases hc : c = 0x25
      · exact hc ▸ conversion d fmt (format_induction nil dangling conversion plain fmt)
      · exact plain c (d :: fmt) hc (format_induction nil dangling conversion plain (d :: fmt))

/-- The percent sign at the end of a format is the one after a conversion. -/
theorem dangling_conversion {c : UInt8} {fmt : List UInt8} {P : List UInt8 → Prop} :
    (∃ pre, 0x25 :: c :: fmt = pre ++ [0x25] ∧ Complete pre ∧ P pre) ↔
      ∃ pre, fmt = pre ++ [0x25] ∧ Complete pre ∧ P (0x25 :: c :: pre) := by
  constructor
  · rintro ⟨pre, heq, hpre, hP⟩
    cases hpre with
    | nil => simp at heq
    | @conversion d pre hpre =>
        simp only [List.cons_append, List.cons.injEq, true_and] at heq
        obtain ⟨rfl, rfl⟩ := heq
        exact ⟨pre, rfl, hpre, hP⟩
    | @plain d hd pre hpre => exact absurd (List.cons.inj heq).1.symm hd
  · rintro ⟨pre, rfl, hpre, hP⟩
    exact ⟨0x25 :: c :: pre, rfl, .conversion c hpre, hP⟩

theorem dangling_plain {c : UInt8} (hc : c ≠ 0x25) {fmt : List UInt8} {P : List UInt8 → Prop} :
    (∃ pre, c :: fmt = pre ++ [0x25] ∧ Complete pre ∧ P pre) ↔
      ∃ pre, fmt = pre ++ [0x25] ∧ Complete pre ∧ P (c :: pre) := by
  constructor
  · rintro ⟨pre, heq, hpre, hP⟩
    cases hpre with
    | nil => exact absurd (List.cons.inj heq).1 hc
    | conversion => exact absurd (List.cons.inj heq).1 hc
    | @plain d hd pre hpre =>
        simp only [List.cons_append, List.cons.injEq] at heq
        obtain ⟨rfl, rfl⟩ := heq
        exact ⟨pre, rfl, hpre, hP⟩
  · rintro ⟨pre, rfl, hpre, hP⟩
    exact ⟨c :: pre, rfl, .plain hc hpre, hP⟩

/-- The loop reads behind the terminator when it comes to a percent sign at the end. -/
theorem snprintfLoop_eq_none_iff (fmt : List UInt8) (text : List UInt8) (k : Nat) :
    snprintfLoop limit args fmt k (.holding buf (text.take limit)) = none ↔
      ∃ pre, fmt = pre ++ [0x25] ∧ Complete pre ∧
        text.length + (expansion args pre k).length < limit := by
  have hfull {fmt text : List UInt8} {k : Nat} {out : Output} (h : ¬ text.length < limit) :
      some out = none ↔ ∃ pre, fmt = pre ++ [0x25] ∧ Complete pre ∧
        text.length + (expansion args pre k).length < limit :=
    iff_of_false (Option.some_ne_none out) fun ⟨_, _, _, hlt⟩ => h (by omega)
  induction fmt using format_induction generalizing text k with
  | nil =>
      rw [snprintfLoop]
      refine iff_of_false (Option.some_ne_none _) fun ⟨pre, heq, _⟩ => ?_
      exact absurd heq.symm (by simp)
  | dangling =>
      rw [snprintfLoop]
      split
      next hroom =>
        refine iff_of_true (if_pos rfl) ⟨[], rfl, .nil, ?_⟩
        rw [expansion]
        exact Output.holding_pos_lt_iff.mp hroom
      next hno => exact hfull fun h => hno (Output.holding_pos_lt_iff.mpr h)
  | conversion c fmt ih =>
      rw [snprintfLoop]
      split
      next hroom =>
        rw [if_pos rfl, snprintfConvert_holding (Output.holding_pos_lt_iff.mp hroom)]
        refine (ih _ _).trans ?_
        rw [@dangling_conversion c fmt
          fun pre => text.length + (expansion args pre k).length < limit]
        refine exists_congr fun pre => and_congr_right fun _ => and_congr_right fun _ => ?_
        rw [expansion, if_pos rfl, List.length_append, List.length_append, Nat.add_assoc]
      next hno => exact hfull fun h => hno (Output.holding_pos_lt_iff.mpr h)
  | plain c fmt hc ih =>
      rw [snprintfLoop_plain hc]
      split
      next hroom =>
        rw [Output.put_holding_take (Output.holding_pos_lt_iff.mp hroom)]
        refine (ih _ _).trans ?_
        rw [@dangling_plain c hc fmt
          fun pre => text.length + (expansion args pre k).length < limit]
        refine exists_congr fun pre => and_congr_right fun _ => and_congr_right fun _ => ?_
        rw [expansion_plain hc, List.length_append, List.length_singleton, List.length_cons,
          Nat.add_assoc, Nat.add_comm 1]
      next hno => exact hfull fun h => hno (Output.holding_pos_lt_iff.mpr h)

/-- `snprintf` reads behind the terminator when the format ends with a percent sign, and
there is still room in the buffer at that point. -/
theorem snprintf_eq_none_iff {n : UInt32} {fmt : CString} :
    snprintf buf n fmt args = none ↔
      ∃ pre, fmt.bytes = pre ++ [0x25] ∧ Complete pre ∧
        (expansion args pre 0).length + 1 < n.toNat := by
  by_cases hzero : n = 0
  · rw [snprintf, if_pos hzero]
    refine iff_of_false (Option.some_ne_none _) fun ⟨_, _, _, hlt⟩ => ?_
    rw [hzero] at hlt
    exact absurd hlt (Nat.not_lt_zero _)
  · have hone : 1 ≤ n.toNat := Nat.pos_of_ne_zero fun h => hzero (UInt32.toNat.inj h)
    have hloop := @snprintfLoop_eq_none_iff (n.toNat - 1) args buf fmt.bytes [] 0
    rw [List.take_nil, Output.holding_nil] at hloop
    rw [snprintf, if_neg hzero, Option.map_eq_none_iff, toNat_sub_one hone, hloop]
    refine exists_congr fun pre => and_congr_right fun _ => and_congr_right fun _ => ?_
    rw [List.length_nil, Nat.zero_add, Nat.lt_sub_iff_add_lt]

end Dosfs
