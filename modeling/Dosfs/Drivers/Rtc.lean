import Mathlib.Order.Monotone.Basic
import Mathlib.Order.Nat

/-!
# Reading the real-time clock

A translation of `rtc_init` and `rtc_read_time` of `drivers/rtc.c`, over a clock
that goes on while its registers are read one after another.
-/

namespace Dosfs

/-- `rtc_time_t` -/
@[ext] structure RtcTime where
  year : UInt16
  month : UInt8
  day : UInt8
  hours : UInt8
  minutes : UInt8
  seconds : UInt8
  weekday : UInt8
  century : UInt16
deriving DecidableEq

def cmosRegStatusA : UInt8 := 0x0A
def cmosStatAUpdateInProgress : UInt8 := 0x80
def cmosStatBBinary : UInt8 := 0x04
def cmosStatB24Hour : UInt8 := 0x02

/-- The registers of the time and date. -/
inductive RtcField
  | seconds | minutes | hours | weekday | day | month | year | century
deriving DecidableEq

/-- The numbers of the registers. -/
def RtcField.reg : RtcField → UInt8
  | .seconds => 0x00
  | .minutes => 0x02
  | .hours => 0x04
  | .weekday => 0x06
  | .day => 0x07
  | .month => 0x08
  | .year => 0x09
  | .century => 0x32

/-- The place of a register among the reads. -/
def RtcField.order : RtcField → Nat
  | .seconds => 0
  | .minutes => 1
  | .hours => 2
  | .weekday => 3
  | .day => 4
  | .month => 5
  | .year => 6
  | .century => 7

/-- The static variables of the driver. -/
structure Rtc where
  initialized : Bool
  binaryMode : Bool
  hour24Mode : Bool

/-- `rtc_init`, by what status register B reads. -/
def rtcInit (statusB : UInt8) : Rtc where
  initialized := true
  binaryMode := statusB &&& cmosStatBBinary != 0
  hour24Mode := statusB &&& cmosStatB24Hour != 0

def bcdToBin (bcd : UInt8) : UInt8 := (bcd &&& (0x0F : UInt8)) + (bcd >>> 4) * 10

/-- `cmos_wait_update`: whether it answers 0, and the number of register reads so far;
`cmos n reg` is what read number `n` gives, if it is of that register. -/
def cmosWaitUpdate (cmos : Nat → UInt8 → UInt8) : Nat → Nat → Bool × Nat
  | 0, n => (false, n)
  | todo + 1, n =>
      if cmos n cmosRegStatusA &&& cmosStatAUpdateInProgress = 0 then (true, n + 1)
      else cmosWaitUpdate cmos todo (n + 1)

/-- The conversion of the hours for a clock with 12 hours. -/
def hourOf12 (pm : Bool) (hour : UInt8) : UInt8 :=
  let hour := if pm && hour < 12 then hour + 12 else hour
  if !pm && hour == 12 then 0 else hour

/-- A number of two digits is converted from BCD, if needed. -/
def Rtc.convert (rtc : Rtc) (x : UInt8) : UInt8 := if rtc.binaryMode then x else bcdToBin x

/-- What `rtc_read_time` makes of the registers. -/
def rtcConvert (rtc : Rtc) (sec min hour wday day mon year cent : UInt8) : RtcTime :=
  let sec := rtc.convert sec
  let min := rtc.convert min
  let day := rtc.convert day
  let mon := rtc.convert mon
  let year := rtc.convert year
  let cent := rtc.convert cent
  let hour :=
    if rtc.hour24Mode then rtc.convert hour
    else hourOf12 (hour &&& 0x80 != 0) (rtc.convert (hour &&& 0x7F))
  let mon := if mon < 1 ∨ mon > 12 then 1 else mon
  let day := if day < 1 ∨ day > 31 then 1 else day
  let hour := if hour > 23 then 0 else hour
  let min := if min > 59 then 0 else min
  let sec := if sec > 59 then 0 else sec
  { seconds := sec
    minutes := min
    hours := hour
    weekday := wday
    day := day
    month := mon
    century := if cent > 0 then cent.toUInt16 else 20
    year := if cent > 0 then cent.toUInt16 * 100 + year.toUInt16 else 2000 + year.toUInt16 }

/-- `rtc_read_time` with a pointer that is not null: the time, or `none` for the answer
-1, and the number of register reads. -/
def rtcReadTime (rtc : Rtc) (cmos : Nat → UInt8 → UInt8) : Option RtcTime × Nat :=
  if !rtc.initialized then (none, 0)
  else
    let ready := cmosWaitUpdate cmos 100000 0
    if !ready.1 then (none, ready.2)
    else
      let n := ready.2
      let sec := cmos n RtcField.seconds.reg
      let min := cmos (n + 1) RtcField.minutes.reg
      let hour := cmos (n + 2) RtcField.hours.reg
      let wday := cmos (n + 3) RtcField.weekday.reg
      let day := cmos (n + 4) RtcField.day.reg
      let mon := cmos (n + 5) RtcField.month.reg
      let year := cmos (n + 6) RtcField.year.reg
      let cent := cmos (n + 7) RtcField.century.reg
      (some (rtcConvert rtc sec min hour wday day mon year cent), n + 8)

/-! ## The clock -/

/-- A time that the clock can display. -/
structure RtcTime.Valid (t : RtcTime) : Prop where
  seconds : t.seconds.toNat < 60
  minutes : t.minutes.toNat < 60
  hours : t.hours.toNat < 24
  weekday : 1 ≤ t.weekday.toNat ∧ t.weekday.toNat ≤ 7
  day : 1 ≤ t.day.toNat ∧ t.day.toNat ≤ 31
  month : 1 ≤ t.month.toNat ∧ t.month.toNat ≤ 12
  century : 1 ≤ t.century.toNat ∧ t.century.toNat < 100
  year : t.century.toNat * 100 ≤ t.year.toNat ∧ t.year.toNat < t.century.toNat * 100 + 100

/-- The number that a register stands for; the year has two digits. -/
def RtcTime.field (t : RtcTime) : RtcField → UInt8
  | .seconds => t.seconds
  | .minutes => t.minutes
  | .hours => t.hours
  | .weekday => t.weekday
  | .day => t.day
  | .month => t.month
  | .year => (t.year - t.century * 100).toUInt8
  | .century => t.century.toUInt8

/-- A number of two digits, in binary or in BCD. -/
def rtcDigits (binary : Bool) (x : UInt8) : UInt8 :=
  if binary then x else x / 10 * 16 + x % 10

/-- The hour in the mode of the clock: from 0 to 23, or from 1 to 12 with a flag for
the afternoon. -/
def rtcHour (binary hour24 : Bool) (x : UInt8) : UInt8 :=
  if hour24 then rtcDigits binary x
  else rtcDigits binary (if x % 12 = 0 then 12 else x % 12) ||| (if 12 ≤ x then 0x80 else 0x00)

/-- What a register holds when the clock displays the time; status register B tells
the mode. -/
def RtcTime.register (t : RtcTime) (statusB : UInt8) (field : RtcField) : UInt8 :=
  let binary := statusB &&& cmosStatBBinary != 0
  let hour24 := statusB &&& cmosStatB24Hour != 0
  match field with
  | .hours => rtcHour binary hour24 t.hours
  | field => rtcDigits binary (t.field field)

/-- The clock at a moment: whether an update is in progress, the time on display, and
the registers. -/
structure RtcMoment where
  updating : Bool
  shown : RtcTime
  regs : UInt8 → UInt8

/-- A clock that goes on, and the moments of the register reads. The time changes in
the update cycles only, and outside of them the registers hold it. -/
structure RtcHistory (statusB : UInt8) where
  moment : Nat → RtcMoment
  readAt : Nat → Nat
  ordered : Monotone readAt
  valid : ∀ k, (moment k).shown.Valid
  busy : ∀ k, (moment k).regs cmosRegStatusA &&& cmosStatAUpdateInProgress = 0 ↔
    (moment k).updating = false
  stable : ∀ k, (moment k).updating = false → ∀ field : RtcField,
    (moment k).regs field.reg = (moment k).shown.register statusB field
  stays : ∀ k, (moment k).updating = false → (moment (k + 1)).shown = (moment k).shown

/-- What the reads of the registers give. -/
def RtcHistory.cmos {statusB : UInt8} (clock : RtcHistory statusB) (n : Nat) (reg : UInt8) :
    UInt8 :=
  (clock.moment (clock.readAt n)).regs reg

/-! ## The conversions -/

/-- What becomes of the content of a register. -/
def rtcConvertField (rtc : Rtc) (x : UInt8) : RtcField → UInt8
  | .seconds => if rtc.convert x > 59 then 0 else rtc.convert x
  | .minutes => if rtc.convert x > 59 then 0 else rtc.convert x
  | .hours =>
      let hour :=
        if rtc.hour24Mode then rtc.convert x
        else hourOf12 (x &&& 0x80 != 0) (rtc.convert (x &&& 0x7F))
      if hour > 23 then 0 else hour
  | .weekday => x
  | .day => if rtc.convert x < 1 ∨ rtc.convert x > 31 then 1 else rtc.convert x
  | .month => if rtc.convert x < 1 ∨ rtc.convert x > 12 then 1 else rtc.convert x
  | .year => rtc.convert x
  | .century => if rtc.convert x > 0 then rtc.convert x else 20

/-- The year is made of the century and its two digits. -/
structure RtcTime.Composed (t : RtcTime) : Prop where
  century : t.century = (t.field .century).toUInt16
  year : t.year = t.century * 100 + (t.field .year).toUInt16

theorem RtcTime.Composed.ext_field {t t' : RtcTime} (h : t.Composed) (h' : t'.Composed)
    (hfields : ∀ field, t.field field = t'.field field) : t = t' := by
  have hcentury : t.century = t'.century := by
    rw [h.century, h'.century, hfields]
  refine RtcTime.ext ?_ (hfields .month) (hfields .day) (hfields .hours) (hfields .minutes)
    (hfields .seconds) (hfields .weekday) hcentury
  rw [h.year, h'.year, hcentury, hfields]

section Valid

variable {t : RtcTime} (h : t.Valid)

include h

theorem RtcTime.Valid.century_field : (t.field .century).toNat = t.century.toNat := by
  obtain ⟨-, hhundred⟩ := h.century
  rw [RtcTime.field, UInt16.toNat_toUInt8]
  omega

theorem RtcTime.Valid.hundreds : (t.century * 100).toNat = t.century.toNat * 100 := by
  obtain ⟨-, hhundred⟩ := h.century
  rw [UInt16.toNat_mul]
  exact Nat.mod_eq_of_lt (by change t.century.toNat * 100 < 2 ^ 16; omega)

theorem RtcTime.Valid.year_field :
    (t.field .year).toNat = t.year.toNat - t.century.toNat * 100 := by
  obtain ⟨hlow, hhigh⟩ := h.year
  rw [RtcTime.field, UInt16.toNat_toUInt8, UInt16.toNat_sub_of_le _ _
    (by rw [UInt16.le_iff_toNat_le, h.hundreds]; exact hlow), h.hundreds]
  omega

theorem RtcTime.Valid.composed : t.Composed := by
  obtain ⟨hlow, -⟩ := h.year
  have hlt := t.year.toNat_lt
  constructor
  · refine UInt16.toNat.inj ?_
    rw [UInt8.toNat_toUInt16, h.century_field]
  · refine UInt16.toNat.inj ?_
    rw [UInt16.toNat_add, h.hundreds, UInt8.toNat_toUInt16, h.year_field]
    omega

end Valid

section Convert

variable (rtc : Rtc) (regs : RtcField → UInt8)

/-- The time made of the contents of the registers. -/
def rtcOfRegs : RtcTime :=
  rtcConvert rtc (regs .seconds) (regs .minutes) (regs .hours) (regs .weekday) (regs .day)
    (regs .month) (regs .year) (regs .century)

theorem rtcOfRegs_century :
    (rtcOfRegs rtc regs).century = (rtcConvertField rtc (regs .century) .century).toUInt16 := by
  change (if rtc.convert (regs .century) > 0 then (rtc.convert (regs .century)).toUInt16 else 20) =
    (if rtc.convert (regs .century) > 0 then rtc.convert (regs .century) else 20).toUInt16
  split <;> rfl

theorem rtcOfRegs_year :
    (rtcOfRegs rtc regs).year =
      (rtcOfRegs rtc regs).century * 100 + (rtc.convert (regs .year)).toUInt16 := by
  change (if rtc.convert (regs .century) > 0 then
      (rtc.convert (regs .century)).toUInt16 * 100 + (rtc.convert (regs .year)).toUInt16
    else 2000 + (rtc.convert (regs .year)).toUInt16) =
    (if rtc.convert (regs .century) > 0 then (rtc.convert (regs .century)).toUInt16 else 20) * 100 +
      (rtc.convert (regs .year)).toUInt16
  split <;> rfl

theorem rtcOfRegs_field (field : RtcField) :
    (rtcOfRegs rtc regs).field field = rtcConvertField rtc (regs field) field := by
  cases field with
  | year =>
      rw [RtcTime.field, rtcOfRegs_year, UInt16.add_comm, UInt16.add_sub_cancel,
        UInt8.toUInt8_toUInt16, rtcConvertField]
  | century => rw [RtcTime.field, rtcOfRegs_century, UInt8.toUInt8_toUInt16]
  | _ => rfl

theorem rtcOfRegs_composed : (rtcOfRegs rtc regs).Composed where
  century := by rw [rtcOfRegs_field, rtcOfRegs_century]
  year := by rw [rtcOfRegs_field, rtcConvertField, rtcOfRegs_year]

end Convert

section Register

variable (statusB : UInt8)

/-- Two digits survive the mode of the clock. -/
theorem convert_rtcDigits {x : UInt8} (hx : x.toNat < 100) :
    (rtcInit statusB).convert (rtcDigits (statusB &&& cmosStatBBinary != 0) x) = x := by
  have hall : ∀ n < 100, ∀ binary : Bool,
      (if binary then rtcDigits binary (UInt8.ofNat n)
        else bcdToBin (rtcDigits binary (UInt8.ofNat n))) = UInt8.ofNat n := by
    decide
  have h := hall x.toNat hx (statusB &&& cmosStatBBinary != 0)
  rwa [UInt8.ofNat_toNat] at h

theorem convert_rtcHour (binary hour24 : Bool) {x : UInt8} (hx : x.toNat < 24) :
    rtcConvertField ⟨true, binary, hour24⟩ (rtcHour binary hour24 x) .hours = x := by
  have hall : ∀ n < 24, ∀ binary hour24 : Bool,
      rtcConvertField ⟨true, binary, hour24⟩ (rtcHour binary hour24 (UInt8.ofNat n)) .hours =
        UInt8.ofNat n := by
    decide
  have h := hall x.toNat hx binary hour24
  rwa [UInt8.ofNat_toNat] at h

/-- A register that holds a time is converted to the number it stands for. -/
theorem rtcConvertField_register {t : RtcTime} (h : t.Valid) (field : RtcField) :
    rtcConvertField (rtcInit statusB) (t.register statusB field) field = t.field field := by
  have hdigits {field : RtcField} (hnot : field ≠ .hours) (hx : (t.field field).toNat < 100) :
      (rtcInit statusB).convert (t.register statusB field) = t.field field := by
    cases field with
    | hours => exact absurd rfl hnot
    | _ => exact convert_rtcDigits statusB hx
  obtain ⟨hdayLow, hdayHigh⟩ := h.day
  obtain ⟨hmonthLow, hmonthHigh⟩ := h.month
  obtain ⟨hcenturyLow, hcenturyHigh⟩ := h.century
  cases field with
  | seconds =>
      have hseconds := h.seconds
      rw [rtcConvertField, hdigits (by decide) (by change t.seconds.toNat < 100; omega), if_neg]
      change ¬ 59 < t.seconds.toNat
      omega
  | minutes =>
      have hminutes := h.minutes
      rw [rtcConvertField, hdigits (by decide) (by change t.minutes.toNat < 100; omega), if_neg]
      change ¬ 59 < t.minutes.toNat
      omega
  | hours => exact convert_rtcHour _ _ h.hours
  | weekday =>
      have hall : ∀ n < 8, ∀ binary : Bool, rtcDigits binary (UInt8.ofNat n) = UInt8.ofNat n := by
        decide
      have hone := hall t.weekday.toNat (by have := h.weekday; omega)
        (statusB &&& cmosStatBBinary != 0)
      rwa [UInt8.ofNat_toNat] at hone
  | day =>
      rw [rtcConvertField, hdigits (by decide) (by change t.day.toNat < 100; omega), if_neg]
      change ¬ (t.day.toNat < 1 ∨ 31 < t.day.toNat)
      omega
  | month =>
      rw [rtcConvertField, hdigits (by decide) (by change t.month.toNat < 100; omega), if_neg]
      change ¬ (t.month.toNat < 1 ∨ 12 < t.month.toNat)
      omega
  | year =>
      obtain ⟨hlow, hhigh⟩ := h.year
      rw [rtcConvertField, hdigits (by decide) (by rw [h.year_field]; omega)]
  | century =>
      rw [rtcConvertField, hdigits (by decide) (by rw [h.century_field]; omega), if_pos]
      rw [gt_iff_lt, UInt8.lt_iff_toNat_lt, h.century_field]
      exact hcenturyLow

end Register

/-! ## The time that is returned -/

/-- The wait ends with the first read that shows no update in progress. -/
theorem cmosWaitUpdate_eq_iff {cmos : Nat → UInt8 → UInt8} {todo n m : Nat} :
    cmosWaitUpdate cmos todo n = (true, m) ↔
      ∃ p < todo, m = n + p + 1 ∧
        (∀ i < p, cmos (n + i) cmosRegStatusA &&& cmosStatAUpdateInProgress ≠ 0) ∧
        cmos (n + p) cmosRegStatusA &&& cmosStatAUpdateInProgress = 0 := by
  induction todo generalizing n with
  | zero =>
      refine iff_of_false (fun h => ?_) fun ⟨_, hp, _⟩ => absurd hp (Nat.not_lt_zero _)
      exact Bool.false_ne_true (congrArg Prod.fst h)
  | succ todo ih =>
      rw [cmosWaitUpdate]
      split
      next hidle =>
        rw [Prod.mk.injEq, eq_self_iff_true, true_and]
        constructor
        · rintro rfl
          exact ⟨0, by omega, rfl, fun i hi => absurd hi (Nat.not_lt_zero i), hidle⟩
        · rintro ⟨p, -, rfl, hbusy, -⟩
          cases p with
          | zero => rfl
          | succ p => exact absurd hidle (hbusy 0 (by omega))
      next hbusy =>
        rw [ih]
        constructor
        · rintro ⟨p, hp, rfl, hbefore, hidle⟩
          refine ⟨p + 1, by omega, by omega, fun i hi => ?_, ?_⟩
          · cases i with
            | zero => exact hbusy
            | succ i =>
                have h := hbefore i (by omega)
                rwa [Nat.add_right_comm, Nat.add_assoc] at h
          · rwa [Nat.add_right_comm, Nat.add_assoc] at hidle
        · rintro ⟨p, hp, rfl, hbefore, hidle⟩
          cases p with
          | zero => exact absurd hidle hbusy
          | succ p =>
              refine ⟨p, by omega, by omega, fun i hi => ?_, ?_⟩
              · have h := hbefore (i + 1) (by omega)
                rwa [Nat.add_right_comm, Nat.add_assoc]
              · rwa [Nat.add_right_comm, Nat.add_assoc]

section History

variable {statusB : UInt8} (clock : RtcHistory statusB)

/-- The wait for the clock ends with register read number `p`. -/
def RtcHistory.Waits (p : Nat) : Prop :=
  p < 100000 ∧ (∀ i < p, (clock.moment (clock.readAt i)).updating = true) ∧
    (clock.moment (clock.readAt p)).updating = false

/-- What a register held at one moment agrees with the time displayed at another: it
held a number that was on display, or its content during an update is converted to
the same number. -/
def RtcHistory.Agrees (field : RtcField) (read shown : Nat) : Prop :=
  if (clock.moment read).updating then
    rtcConvertField (rtcInit statusB) ((clock.moment read).regs field.reg) field =
      (clock.moment shown).shown.field field
  else (clock.moment read).shown.field field = (clock.moment shown).shown.field field

theorem rtcReadTime_eq_iff {t : RtcTime} {n : Nat} :
    rtcReadTime (rtcInit statusB) clock.cmos = (some t, n) ↔
      ∃ p, clock.Waits p ∧ n = p + 9 ∧
        t = rtcOfRegs (rtcInit statusB)
          fun field => clock.cmos (p + 1 + field.order) field.reg := by
  have hwait (m : Nat) : cmosWaitUpdate clock.cmos 100000 0 = (true, m) ↔
      ∃ p, clock.Waits p ∧ m = p + 1 := by
    rw [cmosWaitUpdate_eq_iff]
    refine exists_congr fun p => ?_
    simp only [Nat.zero_add, ne_eq, RtcHistory.cmos, clock.busy, RtcHistory.Waits,
      Bool.not_eq_false]
    exact ⟨fun ⟨hp, hm, hrest⟩ => ⟨⟨hp, hrest⟩, hm⟩, fun ⟨⟨hp, hrest⟩, hm⟩ => ⟨hp, hm, hrest⟩⟩
  unfold rtcReadTime
  generalize cmosWaitUpdate clock.cmos 100000 0 = ready at hwait
  obtain ⟨ok, m⟩ := ready
  cases ok with
  | false =>
      refine iff_of_false (fun h => ?_) fun ⟨p, hp, _⟩ => ?_
      · exact absurd (congrArg Prod.fst h).symm (Option.some_ne_none t)
      · exact Bool.false_ne_true (congrArg Prod.fst ((hwait (p + 1)).mpr ⟨p, hp, rfl⟩))
  | true =>
      obtain ⟨p, hp, rfl⟩ := (hwait m).mp rfl
      constructor
      · intro h
        exact ⟨p, hp, (congrArg Prod.snd h).symm, (Option.some.inj (congrArg Prod.fst h)).symm⟩
      · rintro ⟨p', hp', rfl, rfl⟩
        have heq : p + 1 = p' + 1 := congrArg Prod.snd ((hwait (p' + 1)).mpr ⟨p', hp', rfl⟩)
        obtain rfl := Nat.succ.inj heq
        rfl

theorem rtcOfRegs_eq_shown_iff (p k : Nat) :
    (clock.moment k).shown =
        rtcOfRegs (rtcInit statusB) (fun field => clock.cmos (p + 1 + field.order) field.reg) ↔
      ∀ field : RtcField, clock.Agrees field (clock.readAt (p + 1 + field.order)) k := by
  have hfield (field : RtcField) :
      clock.Agrees field (clock.readAt (p + 1 + field.order)) k ↔
        (rtcOfRegs (rtcInit statusB) fun field =>
            clock.cmos (p + 1 + field.order) field.reg).field field =
          (clock.moment k).shown.field field := by
    rw [rtcOfRegs_field, RtcHistory.Agrees, RtcHistory.cmos]
    split
    next => exact Iff.rfl
    next hstill =>
      rw [clock.stable _ (Bool.eq_false_iff.mpr hstill), rtcConvertField_register _ (clock.valid _)]
  constructor
  · intro h field
    rw [hfield, h]
  · intro h
    exact (clock.valid k).composed.ext_field (rtcOfRegs_composed _ _)
      fun field => ((hfield field).mp (h field)).symm

/-- Whatever the clock does during a call, the time returned was on display during the
call exactly when some time on display agrees with every register at the moment it
was read. -/
theorem rtcReadTime_displayed_iff (statusB : UInt8) (clock : RtcHistory statusB) :
    (∀ t n, rtcReadTime (rtcInit statusB) clock.cmos = (some t, n) →
      ∃ k, clock.readAt 0 ≤ k ∧ k ≤ clock.readAt (n - 1) ∧ (clock.moment k).shown = t) ↔
    ∀ p, clock.Waits p →
      ∃ k, clock.readAt 0 ≤ k ∧ k ≤ clock.readAt (p + 8) ∧
        ∀ field : RtcField, clock.Agrees field (clock.readAt (p + 1 + field.order)) k := by
  constructor
  · intro h p hp
    obtain ⟨k, hlow, hhigh, hshown⟩ := h _ _ ((rtcReadTime_eq_iff clock).mpr ⟨p, hp, rfl, rfl⟩)
    exact ⟨k, hlow, hhigh, (rtcOfRegs_eq_shown_iff clock p k).mp hshown⟩
  · intro h t n hread
    obtain ⟨p, hp, rfl, rfl⟩ := (rtcReadTime_eq_iff clock).mp hread
    obtain ⟨k, hlow, hhigh, hagrees⟩ := h p hp
    exact ⟨k, hlow, hhigh, (rtcOfRegs_eq_shown_iff clock p k).mpr hagrees⟩

end History

/-! ## An update between two reads -/

/-- A moment outside of the update cycles. -/
def RtcMoment.still (statusB : UInt8) (t : RtcTime) : RtcMoment where
  updating := false
  shown := t
  regs reg :=
    if reg = RtcField.seconds.reg then t.register statusB .seconds
    else if reg = RtcField.minutes.reg then t.register statusB .minutes
    else if reg = RtcField.hours.reg then t.register statusB .hours
    else if reg = RtcField.weekday.reg then t.register statusB .weekday
    else if reg = RtcField.day.reg then t.register statusB .day
    else if reg = RtcField.month.reg then t.register statusB .month
    else if reg = RtcField.year.reg then t.register statusB .year
    else if reg = RtcField.century.reg then t.register statusB .century
    else 0

/-- The second before eleven, in the morning of a day in June. -/
def beforeEleven : RtcTime := ⟨2026, 6, 26, 10, 59, 59, 6, 20⟩

def atEleven : RtcTime := ⟨2026, 6, 26, 11, 0, 0, 6, 20⟩

/-- A clock in BCD with 24 hours strikes eleven after the minutes are read. -/
def strikesEleven : RtcHistory 0x02 where
  moment k :=
    if k < 3 then .still 0x02 beforeEleven
    else if k = 3 then ⟨true, beforeEleven, fun _ => 0x80⟩
    else .still 0x02 atEleven
  readAt n := if n < 3 then n else n + 1
  ordered := by
    intro m n hmn
    dsimp only
    split <;> split <;> omega
  valid k := by
    have hbefore : beforeEleven.Valid := by constructor <;> decide
    have hat : atEleven.Valid := by constructor <;> decide
    split
    · exact hbefore
    · split
      · exact hbefore
      · exact hat
  busy k := by
    split
    · exact iff_of_true rfl rfl
    · split
      · exact iff_of_false (by decide) (by decide)
      · exact iff_of_true rfl rfl
  stable k hstill field := by
    split
    next => cases field <;> rfl
    next hlow =>
      rw [if_neg hlow] at hstill
      split
      next heq =>
        rw [if_pos heq] at hstill
        exact absurd hstill (by decide)
      next => cases field <;> rfl
  stays k hstill := by
    by_cases hlow : k < 3
    · rw [if_pos hlow]
      by_cases hnext : k + 1 < 3
      · rw [if_pos hnext]
      · rw [if_neg hnext, if_pos (by omega), RtcMoment.still]
    · by_cases heq : k = 3
      · rw [if_neg hlow, if_pos heq] at hstill
        exact absurd hstill (by decide)
      · rw [if_neg hlow, if_neg heq, if_neg (by omega), if_neg (by omega)]

/-- The hours are those after the update, the minutes and seconds those before: the
time returned is an hour ahead and never on display. -/
theorem rtcReadTime_torn :
    ∃ t n, rtcReadTime (rtcInit 0x02) strikesEleven.cmos = (some t, n) ∧
      t.hours = 11 ∧ t.minutes = 59 ∧ t.seconds = 59 ∧
      ∀ k, (strikesEleven.moment k).shown ≠ t := by
  have hread : rtcReadTime (rtcInit 0x02) strikesEleven.cmos =
      (some ⟨2026, 6, 26, 11, 59, 59, 6, 20⟩, 9) :=
    (rtcReadTime_eq_iff strikesEleven).mpr
      ⟨0, ⟨by decide, fun i hi => absurd hi (Nat.not_lt_zero i), rfl⟩, rfl, by decide⟩
  refine ⟨_, _, hread, rfl, rfl, rfl, fun k => ?_⟩
  unfold strikesEleven
  dsimp only
  split
  · decide
  · split <;> decide

end Dosfs
