import Mathlib.Data.List.Basic
import Mathlib.Logic.Function.Basic
import Dosfs.Foundation.Run

/-!
# The keyboard

A translation of `keyboard_handler` of `drivers/keyboard.c`, and what its modifier
flags say about the keys that are held.
-/

namespace Dosfs

open Foundation

/-- `scancode_to_ascii`; the entries behind the last one here are 0. -/
def scancodeToAscii (scancode : UInt8) : UInt8 :=
  [0, 0, 0x31, 0x32, 0x33, 0x34, 0x35, 0x36, 0x37, 0x38, 0x39, 0x30, 0x2D, 0x3D, 0x08, 0x09,
    0x71, 0x77, 0x65, 0x72, 0x74, 0x79, 0x75, 0x69, 0x6F, 0x70, 0x5B, 0x5D, 0x0A, 0, 0x61, 0x73,
    0x64, 0x66, 0x67, 0x68, 0x6A, 0x6B, 0x6C, 0x3B, 0x27, 0x60, 0, 0x5C, 0x7A, 0x78, 0x63, 0x76,
    0x62, 0x6E, 0x6D, 0x2C, 0x2E, 0x2F, 0, 0x2A, 0, 0x20, 0, 0, 0, 0, 0, 0,
    0, 0, 0, 0, 0, 0, 0, 0, 0, 0, 0x2D, 0, 0, 0, 0x2B].getD scancode.toNat 0

/-- `scancode_to_shift` -/
def scancodeToShift (scancode : UInt8) : UInt8 :=
  [0, 0, 0x21, 0x40, 0x23, 0x24, 0x25, 0x5E, 0x26, 0x2A, 0x28, 0x29, 0x5F, 0x2B, 0, 0,
    0x51, 0x57, 0x45, 0x52, 0x54, 0x59, 0x55, 0x49, 0x4F, 0x50, 0x7B, 0x7D, 0x0A, 0, 0x41, 0x53,
    0x44, 0x46, 0x47, 0x48, 0x4A, 0x4B, 0x4C, 0x3A, 0x22, 0x7E, 0, 0x7C, 0x5A, 0x58, 0x43, 0x56,
    0x42, 0x4E, 0x4D, 0x3C, 0x3E, 0x3F, 0, 0x2A, 0, 0x20, 0, 0, 0, 0, 0, 0,
    0, 0, 0, 0, 0, 0, 0, 0, 0, 0, 0x2D, 0, 0, 0, 0x2B].getD scancode.toNat 0

/-- The codes `KEY_UP` to `KEY_INS`, and `KEY_NONE`. -/
def extendedKey (scancode : UInt8) : UInt8 :=
  if scancode = 0x48 then 0xF1
  else if scancode = 0x50 then 0xF2
  else if scancode = 0x4B then 0xF3
  else if scancode = 0x4D then 0xF4
  else if scancode = 0x47 then 0xF5
  else if scancode = 0x4F then 0xF6
  else if scancode = 0x49 then 0xF7
  else if scancode = 0x51 then 0xF8
  else if scancode = 0x53 then 0xF9
  else if scancode = 0x52 then 0xFA
  else 0x00

/-- The static variables of the driver. -/
structure Keyboard where
  keyBuffer : UInt8
  keyAvailable : Bool
  scancodeBuffer : UInt8
  scancodeAvailable : Bool
  scancodeExtendedState : Bool
  shiftPressed : UInt8
  ctrlPressed : UInt8
  capsLock : UInt8
  extendedPrefix : UInt8
deriving DecidableEq

/-- The driver before the first interrupt. -/
def Keyboard.boot : Keyboard := ⟨0, false, 0, false, false, 0, 0, 0, 0⟩

/-- The character of a key, with the modifiers. -/
def Keyboard.character (kbd : Keyboard) (scancode : UInt8) : UInt8 :=
  let c := if kbd.shiftPressed ≠ 0 then scancodeToShift scancode else scancodeToAscii scancode
  if kbd.ctrlPressed ≠ 0 ∧ 0x61 ≤ c ∧ c ≤ 0x7A then c &&& 0x1F
  else if kbd.ctrlPressed ≠ 0 ∧ 0x41 ≤ c ∧ c ≤ 0x5A then c &&& 0x1F
  else if kbd.capsLock ≠ 0 then
    if 0x61 ≤ c ∧ c ≤ 0x7A then c - 0x61 + 0x41
    else if 0x41 ≤ c ∧ c ≤ 0x5A then c - 0x41 + 0x61
    else c
  else c

/-- The end of `keyboard_handler`, for a key that is no modifier. -/
def Keyboard.deliver (kbd : Keyboard) (isExtended : Bool) (scancode : UInt8) : Keyboard :=
  let kbd := { kbd with
    scancodeBuffer := scancode
    scancodeAvailable := true
    scancodeExtendedState := isExtended }
  if isExtended then
    let ext := extendedKey scancode
    if ext ≠ 0 then { kbd with keyBuffer := ext, keyAvailable := true } else kbd
  else
    let c := kbd.character scancode
    if c ≠ 0 then { kbd with keyBuffer := c, keyAvailable := true } else kbd

/-- `keyboard_handler`, for the byte read from port 0x60. -/
def keyboardHandler (kbd : Keyboard) (scancode : UInt8) : Keyboard :=
  if scancode = 0xE0 then { kbd with extendedPrefix := 1 }
  else
    let isExtended := kbd.extendedPrefix != 0
    let kbd := if isExtended then { kbd with extendedPrefix := 0 } else kbd
    if scancode = 0x1D then { kbd with ctrlPressed := 1 }
    else if scancode = 0x9D then { kbd with ctrlPressed := 0 }
    else if scancode = 0x2A ∨ scancode = 0x36 then { kbd with shiftPressed := 1 }
    else if scancode = 0xAA ∨ scancode = 0xB6 then { kbd with shiftPressed := 0 }
    else if scancode = 0x3A then { kbd with capsLock := if kbd.capsLock = 0 then 1 else 0 }
    else if scancode &&& 0x80 ≠ 0 then kbd
    else kbd.deliver isExtended scancode

variable {kbd : Keyboard} {scancode : UInt8}

theorem deliver_modifiers (isExtended : Bool) :
    (kbd.deliver isExtended scancode).shiftPressed = kbd.shiftPressed ∧
      (kbd.deliver isExtended scancode).ctrlPressed = kbd.ctrlPressed := by
  unfold Keyboard.deliver
  split
  · dsimp only
    split
    · exact ⟨rfl, rfl⟩
    · exact ⟨rfl, rfl⟩
  · dsimp only
    split
    · exact ⟨rfl, rfl⟩
    · exact ⟨rfl, rfl⟩

/-- What a byte does to the modifier flags; a prefix before it makes no difference. -/
theorem keyboardHandler_modifiers (kbd : Keyboard) (scancode : UInt8) :
    (keyboardHandler kbd scancode).shiftPressed =
        (if scancode = 0x2A ∨ scancode = 0x36 then 1
        else if scancode = 0xAA ∨ scancode = 0xB6 then 0
        else kbd.shiftPressed) ∧
      (keyboardHandler kbd scancode).ctrlPressed =
        (if scancode = 0x1D then 1 else if scancode = 0x9D then 0 else kbd.ctrlPressed) := by
  by_cases hextend : scancode = 0xE0
  · subst hextend
    exact ⟨rfl, rfl⟩
  have hclear : ∀ kbd' : Keyboard,
      kbd' = (if kbd.extendedPrefix != 0 then { kbd with extendedPrefix := 0 } else kbd) →
      kbd'.shiftPressed = kbd.shiftPressed ∧ kbd'.ctrlPressed = kbd.ctrlPressed := by
    rintro _ rfl
    split
    · exact ⟨rfl, rfl⟩
    · exact ⟨rfl, rfl⟩
  rw [keyboardHandler, if_neg hextend]
  dsimp only
  generalize hkbd :
    (if kbd.extendedPrefix != 0 then { kbd with extendedPrefix := 0 } else kbd) = kbd'
  obtain ⟨hshift, hctrl⟩ := hclear kbd' hkbd.symm
  rw [← hshift, ← hctrl]
  by_cases hctrlMake : scancode = 0x1D
  · subst hctrlMake
    exact ⟨rfl, rfl⟩
  by_cases hctrlBreak : scancode = 0x9D
  · subst hctrlBreak
    exact ⟨rfl, rfl⟩
  by_cases hshiftMake : scancode = 0x2A ∨ scancode = 0x36
  · rcases hshiftMake with rfl | rfl
    · exact ⟨rfl, rfl⟩
    · exact ⟨rfl, rfl⟩
  by_cases hshiftBreak : scancode = 0xAA ∨ scancode = 0xB6
  · rcases hshiftBreak with rfl | rfl
    · exact ⟨rfl, rfl⟩
    · exact ⟨rfl, rfl⟩
  -- no modifier: caps lock, another break code, or a key to deliver
  simp only [if_neg hctrlMake, if_neg hctrlBreak, if_neg hshiftMake, if_neg hshiftBreak]
  split
  · exact ⟨rfl, rfl⟩
  · split
    · exact ⟨rfl, rfl⟩
    · exact deliver_modifiers _

/-! ## Keys -/

/-- A key of the keyboard, by its make code. -/
@[ext] structure Key where
  extended : Bool
  code : UInt8
  make : code < 0x80
deriving DecidableEq

def Key.leftShift : Key := ⟨false, 0x2A, by decide⟩
def Key.rightShift : Key := ⟨false, 0x36, by decide⟩
def Key.leftCtrl : Key := ⟨false, 0x1D, by decide⟩
def Key.rightCtrl : Key := ⟨true, 0x1D, by decide⟩

/-- What a user does; holding a key down repeats its press. -/
inductive KeyEvent
  | press (key : Key)
  | release (key : Key)

def KeyEvent.key : KeyEvent → Key
  | .press key => key
  | .release key => key

/-- The last byte that is sent: the make code, or the break code. -/
def KeyEvent.code : KeyEvent → UInt8
  | .press key => key.code
  | .release key => key.code ||| 0x80

/-- The keys that are held. -/
abbrev Held := Key → Bool

def Held.put (held : Held) (key : Key) (down : Bool) : Held := Function.update held key down

def KeyEvent.after (held : Held) : KeyEvent → Held
  | .press key => held.put key true
  | .release key => held.put key false

def Held.Shift (held : Held) : Prop := held .leftShift = true ∨ held .rightShift = true

def Held.Ctrl (held : Held) : Prop := held .leftCtrl = true ∨ held .rightCtrl = true

/-- The modifier flags say which keys are held. -/
structure Keyboard.Tracks (kbd : Keyboard) (held : Held) : Prop where
  shift : kbd.shiftPressed = 1 ↔ held.Shift
  ctrl : kbd.ctrlPressed = 1 ↔ held.Ctrl

/-- The driver and the keys held, with what they were after each byte so far. -/
structure Typing where
  kbd : Keyboard
  held : Held
  seen : List (Keyboard × Held)

def Typing.start : Typing := ⟨.boot, fun _ => false, []⟩

/-- The interrupt for a byte, after which the given keys are held. -/
def Typing.byte (t : Typing) (scancode : UInt8) (held : Held) : Typing :=
  let kbd := keyboardHandler t.kbd scancode
  ⟨kbd, held, (kbd, held) :: t.seen⟩

/-- The bytes of an event; the key changes with the last one. -/
def Typing.event (t : Typing) (e : KeyEvent) : Typing :=
  let t := if e.key.extended then t.byte 0xE0 t.held else t
  t.byte e.code (e.after t.held)

/-- The flags are right after every byte. -/
def Typing.Tracked (t : Typing) : Prop := ∀ moment ∈ t.seen, moment.1.Tracks moment.2

/-- The codes that the handler takes for shift keys. -/
def Key.ShiftCode (key : Key) : Prop := key.code = 0x2A ∨ key.code = 0x36

def Key.CtrlCode (key : Key) : Prop := key.code = 0x1D

instance (key : Key) : Decidable key.ShiftCode := inferInstanceAs (Decidable (_ ∨ _))

instance (key : Key) : Decidable key.CtrlCode := inferInstanceAs (Decidable (_ = _))

/-- An extended key with the code of a shift key is pressed while a shift key is held
only, and no shift key is held after one with such a code is released; the same for the
control keys. -/
def KeyEvent.Apart (held : Held) : KeyEvent → Prop
  | .press key => key.extended = true → key.ShiftCode → held.Shift
  | .release key =>
      (key.ShiftCode → ¬ (held.put key false).Shift) ∧ (key.CtrlCode → ¬ (held.put key false).Ctrl)

/-! ## One event -/

theorem Key.breakCode_toNat (key : Key) : (key.code ||| 0x80).toNat = key.code.toNat + 128 := by
  have hmake : key.code.toNat < 2 ^ 7 := UInt8.lt_iff_toNat_lt.mp key.make
  have hor := Nat.two_pow_add_eq_or_of_lt hmake 1
  rw [UInt8.toNat_or, Nat.or_comm, Nat.add_comm]
  exact hor.symm

/-- The break code tells the keys apart, and is no make code. -/
theorem Key.breakCode_eq_iff (key : Key) (c : UInt8) :
    key.code ||| 0x80 = c ↔ key.code.toNat + 128 = c.toNat := by
  rw [← UInt8.toNat_inj, key.breakCode_toNat]

theorem handler_press (kbd : Keyboard) (key : Key) :
    (keyboardHandler kbd key.code).shiftPressed =
        (if key.ShiftCode then 1 else kbd.shiftPressed) ∧
      (keyboardHandler kbd key.code).ctrlPressed =
        (if key.CtrlCode then 1 else kbd.ctrlPressed) := by
  have hmake := UInt8.lt_iff_toNat_lt.mp key.make
  have hno (c : UInt8) (hc : 0x80 ≤ c.toNat) : key.code ≠ c := by
    rintro rfl
    exact absurd hmake (Nat.not_lt.mpr hc)
  obtain ⟨hshift, hctrl⟩ := keyboardHandler_modifiers kbd key.code
  constructor
  · rw [hshift, if_neg (not_or.mpr ⟨hno 0xAA (by decide), hno 0xB6 (by decide)⟩)]
    rfl
  · rw [hctrl, if_neg (hno 0x9D (by decide))]
    rfl

theorem handler_release (kbd : Keyboard) (key : Key) :
    (keyboardHandler kbd (key.code ||| 0x80)).shiftPressed =
        (if key.ShiftCode then 0 else kbd.shiftPressed) ∧
      (keyboardHandler kbd (key.code ||| 0x80)).ctrlPressed =
        (if key.CtrlCode then 0 else kbd.ctrlPressed) := by
  have hno (c : UInt8) (hc : c.toNat < 0x80) : ¬ key.code ||| 0x80 = c := by
    rw [key.breakCode_eq_iff]
    omega
  have hcode (c c' : UInt8) (hc : c'.toNat = c.toNat + 128) :
      key.code ||| 0x80 = c' ↔ key.code = c := by
    rw [key.breakCode_eq_iff, hc, Nat.add_right_cancel_iff, UInt8.toNat_inj]
  obtain ⟨hshift, hctrl⟩ := keyboardHandler_modifiers kbd (key.code ||| 0x80)
  constructor
  · rw [hshift, if_neg (not_or.mpr ⟨hno 0x2A (by decide), hno 0x36 (by decide)⟩)]
    simp only [hcode 0x2A 0xAA (by decide), hcode 0x36 0xB6 (by decide)]
    rfl
  · rw [hctrl, if_neg (hno 0x1D (by decide))]
    simp only [hcode 0x1D 0x9D (by decide)]
    rfl

section Held

variable {held : Held} {key : Key} {down : Bool}

theorem shift_put_of_ne (hleft : key ≠ .leftShift) (hright : key ≠ .rightShift) :
    (held.put key down).Shift ↔ held.Shift := by
  rw [Held.Shift, Held.put, Function.update_of_ne hleft.symm, Function.update_of_ne hright.symm]
  rfl

theorem ctrl_put_of_ne (hleft : key ≠ .leftCtrl) (hright : key ≠ .rightCtrl) :
    (held.put key down).Ctrl ↔ held.Ctrl := by
  rw [Held.Ctrl, Held.put, Function.update_of_ne hleft.symm, Function.update_of_ne hright.symm]
  rfl

/-- A key with the code of a shift key is one, unless it is extended. -/
theorem Key.ShiftCode.eq (h : key.ShiftCode) (hplain : key.extended = false) :
    key = .leftShift ∨ key = .rightShift :=
  h.imp (fun hcode => Key.ext hplain hcode) fun hcode => Key.ext hplain hcode

/-- A key with the code of the control keys is one of them. -/
theorem Key.CtrlCode.eq (h : key.CtrlCode) : key = .leftCtrl ∨ key = .rightCtrl := by
  cases hextended : key.extended with
  | false => exact Or.inl (Key.ext hextended h)
  | true => exact Or.inr (Key.ext hextended h)

theorem shift_put_of_not_shiftCode (h : ¬ key.ShiftCode) :
    (held.put key down).Shift ↔ held.Shift :=
  shift_put_of_ne (fun heq => h (Or.inl (congrArg Key.code heq)))
    fun heq => h (Or.inr (congrArg Key.code heq))

theorem shift_put_of_extended (h : key.extended = true) :
    (held.put key down).Shift ↔ held.Shift :=
  shift_put_of_ne (fun heq => absurd (h.symm.trans (congrArg Key.extended heq)) (by decide))
    fun heq => absurd (h.symm.trans (congrArg Key.extended heq)) (by decide)

theorem ctrl_put_of_not_ctrlCode (h : ¬ key.CtrlCode) :
    (held.put key down).Ctrl ↔ held.Ctrl :=
  ctrl_put_of_ne (fun heq => h (congrArg Key.code heq)) fun heq => h (congrArg Key.code heq)

theorem shift_put_true (h : key = .leftShift ∨ key = .rightShift) : (held.put key true).Shift := by
  rcases h with rfl | rfl
  · exact Or.inl (Function.update_self ..)
  · exact Or.inr (Function.update_self ..)

theorem ctrl_put_true (h : key = .leftCtrl ∨ key = .rightCtrl) : (held.put key true).Ctrl := by
  rcases h with rfl | rfl
  · exact Or.inl (Function.update_self ..)
  · exact Or.inr (Function.update_self ..)

/-- After a press the flags are right, unless it looks like a shift key. -/
theorem tracks_press (h : kbd.Tracks held) :
    (keyboardHandler kbd key.code).Tracks (held.put key true) ↔
      KeyEvent.Apart held (.press key) := by
  obtain ⟨hshift, hctrl⟩ := handler_press kbd key
  have hctrl_right : (keyboardHandler kbd key.code).ctrlPressed = 1 ↔ (held.put key true).Ctrl := by
    rw [hctrl]
    split
    next hcode => exact iff_of_true rfl (ctrl_put_true hcode.eq)
    next hcode => exact h.ctrl.trans (ctrl_put_of_not_ctrlCode hcode).symm
  constructor
  · intro htracks hextended hcode
    rw [← @shift_put_of_extended held key true hextended, ← htracks.shift, hshift, if_pos hcode]
  · intro hapart
    refine ⟨?_, hctrl_right⟩
    rw [hshift]
    split
    next hcode =>
      cases hextended : key.extended with
      | false => exact iff_of_true rfl (shift_put_true (hcode.eq hextended))
      | true =>
          exact iff_of_true rfl ((shift_put_of_extended hextended).mpr (hapart hextended hcode))
    next hcode => exact h.shift.trans (shift_put_of_not_shiftCode hcode).symm

/-- After a release the flags are right, unless the other key of the pair is held. -/
theorem tracks_release (h : kbd.Tracks held) :
    (keyboardHandler kbd (key.code ||| 0x80)).Tracks (held.put key false) ↔
      KeyEvent.Apart held (.release key) := by
  obtain ⟨hshift, hctrl⟩ := handler_release kbd key
  have hno : ¬ (0 : UInt8) = 1 := by decide
  constructor
  · intro htracks
    refine ⟨fun hcode => ?_, fun hcode => ?_⟩
    · rw [← htracks.shift, hshift, if_pos hcode]
      exact hno
    · rw [← htracks.ctrl, hctrl, if_pos hcode]
      exact hno
  · intro hapart
    constructor
    · rw [hshift]
      split
      next hcode => exact iff_of_false hno (hapart.1 hcode)
      next hcode => exact h.shift.trans (shift_put_of_not_shiftCode hcode).symm
    · rw [hctrl]
      split
      next hcode => exact iff_of_false hno (hapart.2 hcode)
      next hcode => exact h.ctrl.trans (ctrl_put_of_not_ctrlCode hcode).symm

theorem tracks_event (h : kbd.Tracks held) (e : KeyEvent) :
    (keyboardHandler kbd e.code).Tracks (e.after held) ↔ e.Apart held := by
  cases e with
  | press key => exact tracks_press h
  | release key => exact tracks_release h

end Held

/-! ## Streams -/

theorem tracked_byte (t : Typing) (held : Held) :
    (t.byte scancode held).Tracked ↔ (keyboardHandler t.kbd scancode).Tracks held ∧ t.Tracked :=
  List.forall_mem_cons

/-- The prefix of an extended key leaves the modifier flags alone. -/
theorem tracks_extend {held : Held} : (keyboardHandler kbd 0xE0).Tracks held ↔ kbd.Tracks held :=
  ⟨fun h => ⟨h.shift, h.ctrl⟩, fun h => ⟨h.shift, h.ctrl⟩⟩

/-- The flags have been right if they are right now. -/
def Typing.Current (t : Typing) : Prop := t.Tracked → t.kbd.Tracks t.held

theorem current_byte (t : Typing) (held : Held) : (t.byte scancode held).Current :=
  fun h => ((tracked_byte t held).mp h).1

theorem tracked_event {t : Typing} (h : t.Current) (e : KeyEvent) :
    (t.event e).Tracked ↔ t.Tracked ∧ e.Apart t.held := by
  have hlast {t' : Typing} (hkbd : t'.Tracked → t'.kbd.Tracks t'.held) (hheld : t'.held = t.held)
      (hsame : t'.Tracked ↔ t.Tracked) :
      (t'.byte e.code (e.after t'.held)).Tracked ↔ t.Tracked ∧ e.Apart t.held := by
    rw [tracked_byte, and_comm, hsame, ← hheld]
    exact and_congr_right fun htracked => tracks_event (hkbd (hsame.mpr htracked)) e
  rw [Typing.event]
  split
  next =>
    refine hlast (current_byte t t.held) rfl ?_
    rw [tracked_byte, tracks_extend]
    exact and_iff_right_of_imp h
  next => exact hlast h rfl Iff.rfl

/-- The modifier flags are right after every byte, if no two keys of a pair overlap when
one is released, and no other key looks like a shift key; otherwise not. -/
theorem keyboard_tracks_iff (events : List KeyEvent) :
    (events.foldl Typing.event .start).Tracked ↔
      Always Typing.event (fun t e => e.Apart t.held) events .start := by
  have hstart : Typing.start.Tracked := fun _ h => absurd h List.not_mem_nil
  have hcurrent : Typing.start.Current := fun _ =>
    ⟨iff_of_false (by decide) (by simp [Held.Shift, Typing.start]),
      iff_of_false (by decide) (by simp [Held.Ctrl, Typing.start])⟩
  have hrun := foldl_iff_always Typing.Current Typing.Tracked
    (fun t e ht => ⟨current_byte _ _, tracked_event ht e⟩) events hcurrent
  exact hrun.trans (and_iff_right hstart)

/-- Both shift keys are pressed, and the left one is released first. -/
theorem keyboard_loses_shift :
    let t := [.press .leftShift, .press .rightShift, .release .leftShift].foldl Typing.event .start
    t.kbd.shiftPressed = 0 ∧ t.held .rightShift = true ∧ ¬ t.Tracked := by
  refine ⟨by decide, by decide, fun h => ?_⟩
  have hlast := (h _ List.mem_cons_self).shift
  exact absurd (hlast.mpr (Or.inr (by decide))) (by decide)

end Dosfs
