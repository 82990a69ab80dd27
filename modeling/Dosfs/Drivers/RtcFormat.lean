import Dosfs.Drivers.Rtc
import Dosfs.Libc.Snprintf

/-!
# Printing the time

A translation of `rtc_format_time` of `drivers/rtc.c`, for a buffer that is not the
null pointer. Its format asks for widths and leading zeros, which `snprintf` does not
know.
-/

namespace Dosfs

open Foundation

/-- `%04u-%02u-%02u %02u:%02u:%02u` -/
def timeFormat : CString where
  bytes :=
    [0x25, 0x30, 0x34, 0x75, 0x2D, 0x25, 0x30, 0x32, 0x75, 0x2D, 0x25, 0x30, 0x32, 0x75, 0x20,
      0x25, 0x30, 0x32, 0x75, 0x3A, 0x25, 0x30, 0x32, 0x75, 0x3A, 0x25, 0x30, 0x32, 0x75]
  noNul := by simp

/-- `RTC unavailable` -/
def rtcUnavailable : CString where
  bytes :=
    [0x52, 0x54, 0x43, 0x20, 0x75, 0x6E, 0x61, 0x76, 0x61, 0x69, 0x6C, 0x61, 0x62, 0x6C, 0x65]
  noNul := by simp

/-- The arguments behind the format, in order. -/
def RtcTime.args (t : RtcTime) (k : Nat) : VaArg where
  word :=
    [t.year.toUInt32, t.month.toUInt32, t.day.toUInt32, t.hours.toUInt32, t.minutes.toUInt32,
      t.seconds.toUInt32].getD k 0
  string := none

/-- `rtc_format_time`, with `none` for the null pointer as the time: the buffer. -/
def rtcFormatTime (buf : Memory) (n : UInt32) (t : Option RtcTime) : Option Memory :=
  if n = 0 then some buf
  else
    match t with
    | none => (snprintf buf n rtcUnavailable fun _ => ⟨0, none⟩).map Prod.fst
    | some t => (snprintf buf n timeFormat t.args).map Prod.fst

/-! ## The documented text -/

/-- The numeral of a number, with leading zeros up to a width. -/
def paddedNumeral (width value : Nat) : List UInt8 :=
  List.replicate (width - (numeral 10 value).length) 0x30 ++ numeral 10 value

/-- `YYYY-MM-DD hh:mm:ss` -/
def RtcTime.text (t : RtcTime) : List UInt8 :=
  paddedNumeral 4 t.year.toNat ++ [0x2D] ++ paddedNumeral 2 t.month.toNat ++ [0x2D] ++
    paddedNumeral 2 t.day.toNat ++ [0x20] ++ paddedNumeral 2 t.hours.toNat ++ [0x3A] ++
    paddedNumeral 2 t.minutes.toNat ++ [0x3A] ++ paddedNumeral 2 t.seconds.toNat

/-- The fields are in their ranges. -/
structure RtcTime.InRange (t : RtcTime) : Prop where
  year : t.year ≤ 9999
  month : 1 ≤ t.month ∧ t.month ≤ 12
  day : 1 ≤ t.day ∧ t.day ≤ 31
  hours : t.hours ≤ 23
  minutes : t.minutes ≤ 59
  seconds : t.seconds ≤ 59

/-- The buffer holds the text of the time, and a NUL. -/
def Shows (buf : Memory) (t : RtcTime) : Prop := buf.loadList 0 19 = t.text ∧ buf 19 = 0

theorem paddedNumeral_length {width value : Nat} (hwidth : 0 < width) (h : value < 10 ^ width) :
    (paddedNumeral width value).length = width := by
  have hle := numeral_length_le (by decide) hwidth h
  rw [paddedNumeral, List.length_append, List.length_replicate]
  omega

/-- The text has the 19 characters that the buffer is read for. -/
theorem RtcTime.InRange.length_text {t : RtcTime} (h : t.InRange) : t.text.length = 19 := by
  have hfield {b : UInt8} {m : Nat} (hb : b.toNat ≤ m) (hm : m < 100) :
      (paddedNumeral 2 b.toNat).length = 2 :=
    paddedNumeral_length (by decide) (hb.trans_lt hm)
  have hyear : (paddedNumeral 4 t.year.toNat).length = 4 :=
    paddedNumeral_length (by decide) (Nat.lt_succ_of_le (UInt16.le_iff_toNat_le.mp h.year))
  rw [RtcTime.text]
  simp only [List.length_append, List.length_singleton, hyear,
    hfield (UInt8.le_iff_toNat_le.mp h.month.2) (by decide),
    hfield (UInt8.le_iff_toNat_le.mp h.day.2) (by decide),
    hfield (UInt8.le_iff_toNat_le.mp h.hours) (by decide),
    hfield (UInt8.le_iff_toNat_le.mp h.minutes) (by decide),
    hfield (UInt8.le_iff_toNat_le.mp h.seconds) (by decide)]

/-- There is no percent sign in the text of a number. -/
theorem percent_notMem_paddedNumeral (width value : Nat) : 0x25 ∉ paddedNumeral width value := by
  have hdigit : ∀ d < 10, digitByte (UInt32.ofNat d) ≠ 0x25 := by decide
  intro hmem
  rcases List.mem_append.mp hmem with hzero | hnumeral
  · exact absurd (List.eq_of_mem_replicate hzero) (by decide)
  · obtain ⟨d, hd, heq⟩ := mem_numeral (by decide) hnumeral
    exact hdigit d hd heq.symm

theorem RtcTime.percent_notMem_text (t : RtcTime) : 0x25 ∉ t.text := by
  rw [RtcTime.text]
  simp [percent_notMem_paddedNumeral]

/-! ## What is printed -/

theorem complete_timeFormat : Complete timeFormat.bytes := by
  have hplain (c : UInt8) (hc : c ≠ 0x25) {fmt : List UInt8} (h : Complete fmt) :
      Complete (c :: fmt) := .plain hc h
  have hfield (d : UInt8) (hd : d ≠ 0x25) {fmt : List UInt8} (h : Complete fmt) :
      Complete (0x25 :: 0x30 :: d :: 0x75 :: fmt) :=
    .conversion 0x30 (hplain d hd (hplain 0x75 (by decide) h))
  exact hfield _ (by decide) (hplain _ (by decide) (hfield _ (by decide) (hplain _ (by decide)
    (hfield _ (by decide) (hplain _ (by decide) (hfield _ (by decide) (hplain _ (by decide)
      (hfield _ (by decide) (hplain _ (by decide) (hfield _ (by decide) .nil))))))))))

/-- A width is an unknown conversion, and is copied with its percent sign. -/
theorem expansion_timeFormat (args : Nat → VaArg) :
    expansion args timeFormat.bytes 0 = timeFormat.bytes := rfl

/-- The format itself is printed, for every time. -/
theorem rtcFormatTime_eq (buf : Memory) (n : UInt32) (t : RtcTime) (hn : 1 ≤ n.toNat) :
    rtcFormatTime buf n (some t) =
      some (terminated buf (timeFormat.bytes.take (n.toNat - 1))) := by
  have hrun := @snprintf_complete t.args buf n timeFormat hn complete_timeFormat
  rw [expansion_timeFormat] at hrun
  rw [rtcFormatTime, if_neg (ne_zero_of_pos hn), hrun]
  rfl

/-- The first character printed is a percent sign. -/
theorem not_shows_format (buf : Memory) {n : Nat} (hn : 1 < n) (t : RtcTime) :
    ¬ Shows (terminated buf (timeFormat.bytes.take (n - 1))) t := by
  intro h
  have hlen : 0 < (timeFormat.bytes.take (n - 1)).length := by
    rw [List.length_take]
    exact Nat.lt_min.mpr ⟨by omega, by decide⟩
  have hfirst : terminated buf (timeFormat.bytes.take (n - 1)) 0 = 0x25 := by
    rw [terminated, Memory.storeByte_of_ne (by omega), Memory.storeList,
      Memory.overwrite_of_mem (Nat.le_refl 0) (by omega), List.getD_eq_getElem _ _ hlen,
      List.getElem_take]
    rfl
  refine t.percent_notMem_text ?_
  rw [← h.1, Memory.loadList, List.mem_map]
  exact ⟨0, List.mem_range.mpr (by decide), hfirst⟩

/-- `rtc_format_time` never prints the time, and what it prints is the same for all. -/
theorem rtcFormatTime_never_shows (buf : Memory) (n : UInt32) (t t' : RtcTime)
    (hn : 20 ≤ n.toNat) (ht : t.InRange) (ht' : t'.InRange) :
    t.text.length = 19 ∧ t'.text.length = 19 ∧
      ∃ buf', rtcFormatTime buf n (some t) = some buf' ∧
        rtcFormatTime buf n (some t') = some buf' ∧ ¬ Shows buf' t ∧ ¬ Shows buf' t' :=
  ⟨ht.length_text, ht'.length_text, _, rtcFormatTime_eq buf n t (by omega),
    rtcFormatTime_eq buf n t' (by omega), not_shows_format buf (by omega) t,
    not_shows_format buf (by omega) t'⟩

/-- Half past three in the afternoon of a day in June. -/
def afternoon : RtcTime := ⟨2026, 6, 26, 15, 30, 45, 6, 20⟩

theorem rtcFormatTime_never_shows_afternoon :
    afternoon.text.length = 19 ∧ ({ afternoon with seconds := 46 } : RtcTime).text.length = 19 ∧
      ∃ buf', rtcFormatTime (fun _ => 0) 64 (some afternoon) = some buf' ∧
        rtcFormatTime (fun _ => 0) 64 (some { afternoon with seconds := 46 }) = some buf' ∧
        ¬ Shows buf' afternoon ∧ ¬ Shows buf' { afternoon with seconds := 46 } :=
  rtcFormatTime_never_shows _ 64 afternoon { afternoon with seconds := 46 } (by decide)
    ⟨by decide, by decide, by decide, by decide, by decide, by decide⟩
    ⟨by decide, by decide, by decide, by decide, by decide, by decide⟩

/-- What is printed for the afternoon is not the text of its time. -/
theorem rtcFormatTime_afternoon :
    ∃ buf', rtcFormatTime (fun _ => 0) 64 (some afternoon) = some buf' ∧ ¬ Shows buf' afternoon :=
  ⟨_, rtcFormatTime_eq _ 64 afternoon (by decide), not_shows_format _ (by decide) afternoon⟩

end Dosfs
