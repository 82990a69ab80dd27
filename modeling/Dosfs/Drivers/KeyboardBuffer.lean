import Dosfs.Drivers.Keyboard
import Dosfs.Foundation.Mailbox
import Dosfs.Foundation.Shared

/-!
# The keys that were typed

`keyboard_getchar` and the functions beside it share two places with the interrupt handler,
one for characters and one for scancodes. A caller gets what was typed last, however long it
was away, and `keyboard_flush` throws away what is there.
-/

namespace Dosfs

open Foundation

/-- Something that uses the keyboard while its interrupts go on. -/
abbrev KeyboardM := Shared Keyboard UInt8

/-- `while (!ready) hlt();`. It does not return when no more interrupts come. -/
def waitFor (ready : Keyboard → Bool) :
    Keyboard → List (List UInt8) → Option (World Keyboard UInt8)
  | kbd, [] => if ready kbd then some ⟨kbd, []⟩ else none
  | kbd, batch :: ahead =>
      let kbd := batch.foldl keyboardHandler kbd
      if ready kbd then some ⟨kbd, ahead⟩ else waitFor ready kbd ahead

def keyboardGetchar (w : World Keyboard UInt8) : Option (UInt8 × World Keyboard UInt8) :=
  (waitFor Keyboard.keyAvailable w.state w.ahead).map <|
    Shared.access keyboardHandler fun kbd => (kbd.keyBuffer, { kbd with keyAvailable := false })

def keyboardGetScancode (w : World Keyboard UInt8) : Option (UInt8 × World Keyboard UInt8) :=
  (waitFor Keyboard.scancodeAvailable w.state w.ahead).map <|
    Shared.access keyboardHandler fun kbd =>
      (kbd.scancodeBuffer, { kbd with scancodeAvailable := false })

def keyboardHasKey : KeyboardM Bool :=
  Shared.access keyboardHandler fun kbd => (kbd.keyAvailable, kbd)

def keyboardHasScancode : KeyboardM Bool :=
  Shared.access keyboardHandler fun kbd => (kbd.scancodeAvailable, kbd)

/-- The part of `keyboard_get_extended` without interrupts: the scancode that it takes, unless
it is that of an ordinary key. -/
def takeExtended (kbd : Keyboard) : Option UInt8 × Keyboard :=
  if kbd.scancodeExtendedState then
    (some kbd.scancodeBuffer, { kbd with
      scancodeAvailable := false
      scancodeExtendedState := false })
  else (none, { kbd with scancodeAvailable := true })

/-- The key that a scancode stands for; `KEY_NONE` is 0. -/
def extendedAnswer (taken : Option UInt8) : UInt8 := taken.elim 0 extendedKey

/-- `keyboard_get_extended`, and the scancode that it has taken. -/
def keyboardGetExtended : KeyboardM (UInt8 × Option UInt8) := do
  if ← keyboardHasScancode then
    let taken ← Shared.access keyboardHandler takeExtended
    return (extendedAnswer taken, taken)
  else
    return (0, none)

def keyboardFlush : KeyboardM Unit :=
  Shared.access keyboardHandler fun kbd => ((), { kbd with
    keyAvailable := false
    scancodeAvailable := false
    scancodeExtendedState := false })

/-- What the rest of the kernel asks the keyboard for. -/
inductive KeyCall
  | getchar
  | hasKey
  | getScancode
  | hasScancode
  | getExtended
  | flush

inductive KeyAnswer
  | char (c : UInt8)
  | available (b : Bool)
  | scancode (sc : UInt8)
  | extended (key : UInt8) (taken : Option UInt8)
  | flushed

def KeyCall.run : KeyCall → World Keyboard UInt8 → Option (KeyAnswer × World Keyboard UInt8)
  | .getchar, w => (keyboardGetchar w).map fun r => (.char r.1, r.2)
  | .hasKey, w => some ((.available <$> keyboardHasKey) w)
  | .getScancode, w => (keyboardGetScancode w).map fun r => (.scancode r.1, r.2)
  | .hasScancode, w => some ((.available <$> keyboardHasScancode) w)
  | .getExtended, w => some (((fun r => .extended r.1 r.2) <$> keyboardGetExtended) w)
  | .flush, w => some (((fun _ => .flushed) <$> keyboardFlush) w)

/-! ## What a byte puts into the two places -/

/-- The byte is the make code of a key that is no modifier. -/
def IsKey (scancode : UInt8) : Prop :=
  scancode &&& 0x80 = 0 ∧ scancode ≠ 0x1D ∧ scancode ≠ 0x2A ∧ scancode ≠ 0x36 ∧ scancode ≠ 0x3A

instance (scancode : UInt8) : Decidable (IsKey scancode) :=
  inferInstanceAs (Decidable (_ ∧ _))

/-- The character that a byte gives, if it gives one. -/
def charOf (kbd : Keyboard) (scancode : UInt8) : Option UInt8 :=
  if IsKey scancode then
    let c := if kbd.extendedPrefix != 0 then extendedKey scancode else kbd.character scancode
    if c = 0 then none else some c
  else none

/-- The characters that the bytes give, one after the other. -/
def characters : Keyboard → List UInt8 → List UInt8
  | _, [] => []
  | kbd, sc :: scancodes =>
      (charOf kbd sc).toList ++ characters (keyboardHandler kbd sc) scancodes

def Keyboard.pendingChar (kbd : Keyboard) : Option UInt8 :=
  if kbd.keyAvailable then some kbd.keyBuffer else none

def Keyboard.pendingCode (kbd : Keyboard) : Option UInt8 :=
  if kbd.scancodeAvailable then some kbd.scancodeBuffer else none

/-- The driver without the two places. -/
def Keyboard.modifiers (kbd : Keyboard) : UInt8 × UInt8 × UInt8 × UInt8 :=
  (kbd.shiftPressed, kbd.ctrlPressed, kbd.capsLock, kbd.extendedPrefix)

section Handler

variable {kbd kbd' : Keyboard} {scancode : UInt8}

theorem clear_extended (kbd : Keyboard) :
    (if (kbd.extendedPrefix != 0) = true then { kbd with extendedPrefix := 0 } else kbd) =
      { kbd with extendedPrefix := 0 } := by
  split
  · rfl
  · cases kbd
    simp_all

theorem keyboardHandler_of_isKey (h : IsKey scancode) :
    keyboardHandler kbd scancode =
      { kbd with extendedPrefix := 0 }.deliver (kbd.extendedPrefix != 0) scancode := by
  obtain ⟨hmake, hctrl, hleft, hright, hcaps⟩ := h
  have hne (c : UInt8) (hc : c &&& 0x80 ≠ 0) : scancode ≠ c := by
    rintro rfl
    exact hc hmake
  rw [keyboardHandler, if_neg (hne 0xE0 (by decide))]
  dsimp only
  rw [clear_extended, if_neg hctrl, if_neg (hne 0x9D (by decide)),
    if_neg (not_or.mpr ⟨hleft, hright⟩),
    if_neg (not_or.mpr ⟨hne 0xAA (by decide), hne 0xB6 (by decide)⟩), if_neg hcaps,
    if_neg (not_not.mpr hmake)]

theorem keyboardHandler_of_not_isKey (h : ¬ IsKey scancode) :
    (keyboardHandler kbd scancode).pendingChar = kbd.pendingChar ∧
      (keyboardHandler kbd scancode).pendingCode = kbd.pendingCode := by
  rw [keyboardHandler]
  split
  · exact ⟨rfl, rfl⟩
  dsimp only
  rw [clear_extended]
  by_cases hctrl : scancode = 0x1D
  · rw [if_pos hctrl]
    exact ⟨rfl, rfl⟩
  rw [if_neg hctrl]
  split
  · exact ⟨rfl, rfl⟩
  by_cases hshift : scancode = 0x2A ∨ scancode = 0x36
  · rw [if_pos hshift]
    exact ⟨rfl, rfl⟩
  rw [if_neg hshift]
  split
  · exact ⟨rfl, rfl⟩
  by_cases hcaps : scancode = 0x3A
  · rw [if_pos hcaps]
    exact ⟨rfl, rfl⟩
  rw [if_neg hcaps]
  split
  · exact ⟨rfl, rfl⟩
  next hmake =>
    obtain ⟨hleft, hright⟩ := not_or.mp hshift
    exact absurd ⟨not_not.mp hmake, hctrl, hleft, hright, hcaps⟩ h

/-- What a byte puts into the places. -/
theorem keyboardHandler_pending (kbd : Keyboard) (scancode : UInt8) :
    (keyboardHandler kbd scancode).pendingChar = (charOf kbd scancode).or kbd.pendingChar ∧
      (keyboardHandler kbd scancode).pendingCode =
        if IsKey scancode then some scancode else kbd.pendingCode := by
  rw [charOf]
  by_cases h : IsKey scancode
  · rw [keyboardHandler_of_isKey h, if_pos h, if_pos h, Keyboard.deliver]
    dsimp only
    cases hext : kbd.extendedPrefix != 0 with
    | true =>
        rw [if_pos rfl, if_pos rfl]
        by_cases hc : extendedKey scancode = 0
        · rw [if_neg (not_not.mpr hc), if_pos hc]
          exact ⟨rfl, rfl⟩
        · rw [if_pos hc, if_neg hc]
          exact ⟨rfl, rfl⟩
    | false =>
        rw [if_neg Bool.false_ne_true, if_neg Bool.false_ne_true]
        by_cases hc : kbd.character scancode = 0
        · rw [if_pos hc]
          split
          next hne => exact absurd hc hne
          next => exact ⟨rfl, rfl⟩
        · rw [if_neg hc]
          split
          next => exact ⟨rfl, rfl⟩
          next hzero => exact absurd (not_not.mp hzero) hc
  · rw [if_neg h, if_neg h]
    exact keyboardHandler_of_not_isKey h

/-- The modifiers after a byte. -/
def nextModifiers (scancode : UInt8) :
    UInt8 × UInt8 × UInt8 × UInt8 → UInt8 × UInt8 × UInt8 × UInt8
  | (shift, ctrl, caps, _) =>
      if scancode = 0xE0 then (shift, ctrl, caps, 1)
      else if scancode = 0x1D then (shift, 1, caps, 0)
      else if scancode = 0x9D then (shift, 0, caps, 0)
      else if scancode = 0x2A ∨ scancode = 0x36 then (1, ctrl, caps, 0)
      else if scancode = 0xAA ∨ scancode = 0xB6 then (0, ctrl, caps, 0)
      else if scancode = 0x3A then (shift, ctrl, if caps = 0 then 1 else 0, 0)
      else (shift, ctrl, caps, 0)

theorem deliver_modifiers_eq (isExtended : Bool) :
    (kbd.deliver isExtended scancode).modifiers = kbd.modifiers := by
  unfold Keyboard.deliver
  split
  · dsimp only
    split <;> rfl
  · dsimp only
    split <;> rfl

theorem keyboardHandler_modifiers_eq (kbd : Keyboard) (scancode : UInt8) :
    (keyboardHandler kbd scancode).modifiers = nextModifiers scancode kbd.modifiers := by
  rw [keyboardHandler, Keyboard.modifiers, nextModifiers]
  dsimp only
  rw [clear_extended]
  split
  · rfl
  split
  · rfl
  split
  · rfl
  split
  · rfl
  split
  · rfl
  split
  · rfl
  split
  · rfl
  · exact deliver_modifiers_eq _

/-- What a byte gives depends on the modifiers only. -/
theorem charOf_congr (h : kbd.modifiers = kbd'.modifiers) :
    charOf kbd scancode = charOf kbd' scancode := by
  obtain ⟨hshift, hctrl, hcaps, hext⟩ : kbd.shiftPressed = kbd'.shiftPressed ∧
      kbd.ctrlPressed = kbd'.ctrlPressed ∧ kbd.capsLock = kbd'.capsLock ∧
      kbd.extendedPrefix = kbd'.extendedPrefix := by
    simpa [Keyboard.modifiers] using h
  have hchar : kbd.character scancode = kbd'.character scancode := by
    rw [Keyboard.character, Keyboard.character, hshift, hctrl, hcaps]
  rw [charOf, charOf, hext, hchar]

theorem charOf_ne_zero {c : UInt8} (h : charOf kbd scancode = some c) : c ≠ 0 := by
  unfold charOf at h
  dsimp only at h
  generalize (if kbd.extendedPrefix != 0 then extendedKey scancode
    else kbd.character scancode) = found at h
  split at h
  · split at h
    · exact absurd h (Option.some_ne_none c).symm
    next hne =>
      obtain rfl := Option.some.inj h
      exact hne
  · exact absurd h (Option.some_ne_none c).symm

end Handler

/-! ## Many bytes -/

theorem characters_congr {kbd kbd' : Keyboard} (h : kbd.modifiers = kbd'.modifiers)
    (scancodes : List UInt8) : characters kbd scancodes = characters kbd' scancodes := by
  induction scancodes generalizing kbd kbd' with
  | nil => rfl
  | cons sc scancodes ih =>
      rw [characters, characters, charOf_congr h, ih]
      rw [keyboardHandler_modifiers_eq, keyboardHandler_modifiers_eq, h]

theorem foldl_modifiers {kbd kbd' : Keyboard} (h : kbd.modifiers = kbd'.modifiers)
    (scancodes : List UInt8) : (scancodes.foldl keyboardHandler kbd).modifiers =
      (scancodes.foldl keyboardHandler kbd').modifiers := by
  induction scancodes generalizing kbd kbd' with
  | nil => exact h
  | cons sc scancodes ih =>
      refine ih ?_
      rw [keyboardHandler_modifiers_eq, keyboardHandler_modifiers_eq, h]

theorem characters_append (kbd : Keyboard) (scancodes more : List UInt8) :
    characters kbd (scancodes ++ more) =
      characters kbd scancodes ++ characters (scancodes.foldl keyboardHandler kbd) more := by
  induction scancodes generalizing kbd with
  | nil => rfl
  | cons sc scancodes ih =>
      rw [List.cons_append, characters, characters, ih, List.append_assoc]
      rfl

theorem foldl_pendingChar (kbd : Keyboard) (scancodes : List UInt8) :
    (scancodes.foldl keyboardHandler kbd).pendingChar =
      (characters kbd scancodes).getLast?.or kbd.pendingChar := by
  induction scancodes generalizing kbd with
  | nil => rfl
  | cons sc scancodes ih =>
      rw [List.foldl_cons, ih, characters, List.getLast?_append,
        (keyboardHandler_pending kbd sc).1, Option.or_assoc]
      cases charOf kbd sc <;> rfl

theorem foldl_pendingCode (kbd : Keyboard) (scancodes : List UInt8) :
    (scancodes.foldl keyboardHandler kbd).pendingCode =
      (scancodes.filter (IsKey ·)).getLast?.or kbd.pendingCode := by
  induction scancodes generalizing kbd with
  | nil => rfl
  | cons sc scancodes ih =>
      rw [List.foldl_cons, ih, (keyboardHandler_pending kbd sc).2]
      by_cases hkey : IsKey sc
      · rw [if_pos hkey, List.filter_cons_of_pos (by simpa using hkey),
          ← List.singleton_append, List.getLast?_append, Option.or_assoc]
        rfl
      · rw [if_neg hkey, List.filter_cons_of_neg (by simpa using hkey)]

theorem characters_ne_zero (kbd : Keyboard) (scancodes : List UInt8) :
    ∀ c ∈ characters kbd scancodes, c ≠ 0 := by
  induction scancodes generalizing kbd with
  | nil => exact fun c hc => absurd hc List.not_mem_nil
  | cons sc scancodes ih =>
      intro c hc
      rcases List.mem_append.mp hc with hchar | hrest
      · exact charOf_ne_zero (Option.mem_toList.mp hchar)
      · exact ih _ c hrest

/-! ## Runs -/

/-- What an answer says about the place for characters. -/
def KeyAnswer.emptiedChar : KeyAnswer → Option (Option UInt8)
  | .char c => some (some c)
  | .flushed => some none
  | _ => none

def KeyAnswer.emptiedCode : KeyAnswer → Option (Option UInt8)
  | .scancode sc => some (some sc)
  | .extended _ (some sc) => some (some sc)
  | .flushed => some none
  | _ => none

/-- After these bytes and answers the two places have held, and hold, what was typed last, and
a key that was answered for a scancode is the one it stands for. -/
structure Delivered (scancodes : List UInt8) (answers : List KeyAnswer) (kbd : Keyboard) :
    Prop where
  chars : Latest (characters .boot scancodes) (answers.filterMap KeyAnswer.emptiedChar)
    kbd.pendingChar
  codes : Latest (scancodes.filter (IsKey ·)) (answers.filterMap KeyAnswer.emptiedCode)
    kbd.pendingCode
  modifiers : kbd.modifiers = (scancodes.foldl keyboardHandler .boot).modifiers
  keys : ∀ key taken, .extended key taken ∈ answers → key = extendedAnswer taken

theorem Delivered.boot : Delivered [] [] .boot :=
  ⟨.nil, .nil, rfl, fun _ _ h => absurd h List.not_mem_nil⟩

variable {scancodes : List UInt8} {answers : List KeyAnswer} {kbd : Keyboard}

theorem Delivered.interrupts (h : Delivered scancodes answers kbd) (more : List UInt8) :
    Delivered (scancodes ++ more) answers (more.foldl keyboardHandler kbd) := by
  refine ⟨?_, ?_, ?_, h.keys⟩
  · rw [characters_append, foldl_pendingChar, characters_congr h.modifiers]
    exact h.chars.deposit _
  · rw [List.filter_append, foldl_pendingCode]
    exact h.codes.deposit _
  · rw [List.foldl_append]
    exact foldl_modifiers h.modifiers more

section Empty

variable (h : Delivered scancodes answers kbd)
include h

theorem Delivered.keys_append {answer : KeyAnswer}
    (hanswer : ∀ key taken, answer = .extended key taken → key = extendedAnswer taken) :
    ∀ key taken, .extended key taken ∈ answers ++ [answer] → key = extendedAnswer taken := by
  intro key taken hmem
  rcases List.mem_append.mp hmem with hold | hnew
  · exact h.keys key taken hold
  · exact hanswer key taken (List.mem_singleton.mp hnew).symm

theorem Delivered.char (havailable : kbd.keyAvailable = true) :
    Delivered scancodes (answers ++ [.char kbd.keyBuffer]) { kbd with keyAvailable := false } := by
  have hpending : kbd.pendingChar = some kbd.keyBuffer := if_pos havailable
  refine ⟨?_, ?_, h.modifiers, h.keys_append (by simp)⟩
  · rw [List.filterMap_append]
    exact h.chars.empty fun a ha => hpending.trans ha
  · rw [List.filterMap_append]
    exact (List.append_nil _).symm ▸ h.codes

theorem Delivered.scancode (havailable : kbd.scancodeAvailable = true) :
    Delivered scancodes (answers ++ [.scancode kbd.scancodeBuffer])
      { kbd with scancodeAvailable := false } := by
  have hpending : kbd.pendingCode = some kbd.scancodeBuffer := if_pos havailable
  refine ⟨?_, ?_, h.modifiers, h.keys_append (by simp)⟩
  · rw [List.filterMap_append]
    exact (List.append_nil _).symm ▸ h.chars
  · rw [List.filterMap_append]
    exact h.codes.empty fun a ha => hpending.trans ha

/-- An answer that empties neither place. -/
theorem Delivered.silent {answer : KeyAnswer} (hchar : answer.emptiedChar = none)
    (hcode : answer.emptiedCode = none)
    (hkey : ∀ key taken, answer = .extended key taken → key = extendedAnswer taken) :
    Delivered scancodes (answers ++ [answer]) kbd := by
  refine ⟨?_, ?_, h.modifiers, h.keys_append hkey⟩
  · rw [List.filterMap_append, List.filterMap_cons_none hchar]
    exact (List.append_nil _).symm ▸ h.chars
  · rw [List.filterMap_append, List.filterMap_cons_none hcode]
    exact (List.append_nil _).symm ▸ h.codes

theorem Delivered.extended (havailable : kbd.scancodeAvailable = true) :
    let r := takeExtended kbd
    Delivered scancodes (answers ++ [.extended (extendedAnswer r.1) r.1]) r.2 := by
  have hpending : kbd.pendingCode = some kbd.scancodeBuffer := if_pos havailable
  rw [takeExtended]
  split
  next hextended =>
    refine ⟨?_, ?_, h.modifiers, h.keys_append (by simp)⟩
    · rw [List.filterMap_append]
      exact (List.append_nil _).symm ▸ h.chars
    · rw [List.filterMap_append]
      exact h.codes.empty fun a ha => hpending.trans ha
  next hordinary =>
    have hsame : { kbd with scancodeAvailable := true } = kbd := by rw [← havailable]
    dsimp only
    rw [hsame]
    exact h.silent rfl rfl (by simp)

theorem Delivered.flush : Delivered scancodes (answers ++ [.flushed]) { kbd with
    keyAvailable := false, scancodeAvailable := false, scancodeExtendedState := false } := by
  refine ⟨?_, ?_, h.modifiers, h.keys_append (by simp)⟩ <;> rw [List.filterMap_append]
  exacts [h.chars.empty fun a ha => absurd ha (Option.some_ne_none a).symm,
    h.codes.empty fun a ha => absurd ha (Option.some_ne_none a).symm]

end Empty

/-- Some of the bytes have come, and what was answered is right. -/
def Reads (ahead : List (List UInt8)) (answers : List KeyAnswer) (w : World Keyboard UInt8) :
    Prop :=
  ∃ past, ahead = past ++ w.ahead ∧ Delivered past.flatten answers w.state

theorem Reads.access {α : Type} {ahead : List (List UInt8)} {w : World Keyboard UInt8}
    (h : Reads ahead answers w) {f : Keyboard → α × Keyboard} {answers' : List KeyAnswer}
    (hf : ∀ scancodes, Delivered scancodes answers
        ((w.ahead.headD []).foldl keyboardHandler w.state) →
      Delivered scancodes answers' (f ((w.ahead.headD []).foldl keyboardHandler w.state)).2) :
    Reads ahead answers' (Shared.access keyboardHandler f w).2 := by
  obtain ⟨past, rfl, hdelivered⟩ := h
  have hinterrupts := hf _ (hdelivered.interrupts (w.ahead.headD []))
  obtain ⟨state, _ | ⟨batch, ahead⟩⟩ := w
  · refine ⟨past, rfl, ?_⟩
    rw [List.headD_nil, List.append_nil] at hinterrupts
    exact hinterrupts
  · refine ⟨past ++ [batch], (List.append_assoc past [batch] ahead).symm, ?_⟩
    rw [List.flatten_append, List.flatten_singleton]
    exact hinterrupts

/-- How the waiting ends. -/
theorem waitFor_eq_some {ready : Keyboard → Bool} {kbd : Keyboard} {ahead : List (List UInt8)}
    {w : World Keyboard UInt8} (h : waitFor ready kbd ahead = some w) :
    ready w.state = true ∧ ∃ past, ahead = past ++ w.ahead ∧
      w.state = past.flatten.foldl keyboardHandler kbd := by
  induction ahead generalizing kbd with
  | nil =>
      rw [waitFor] at h
      split at h
      next hready =>
        obtain rfl := Option.some.inj h
        exact ⟨hready, [], rfl, rfl⟩
      next => exact absurd h (Option.some_ne_none w).symm
  | cons batch ahead ih =>
      rw [waitFor] at h
      split at h
      next hready =>
        obtain rfl := Option.some.inj h
        exact ⟨hready, [batch], rfl, by rw [List.flatten_singleton]⟩
      next =>
        obtain ⟨hready, past, rfl, hstate⟩ := ih h
        refine ⟨hready, batch :: past, rfl, ?_⟩
        rw [hstate, List.flatten_cons, List.foldl_append]

theorem Reads.wait {ahead : List (List UInt8)} {w w' : World Keyboard UInt8}
    {ready : Keyboard → Bool} (h : Reads ahead answers w)
    (hwait : waitFor ready w.state w.ahead = some w') :
    ready w'.state = true ∧ Reads ahead answers w' := by
  obtain ⟨hready, past', hahead, hstate⟩ := waitFor_eq_some hwait
  obtain ⟨past, rfl, hdelivered⟩ := h
  refine ⟨hready, past ++ past', by rw [hahead, List.append_assoc], ?_⟩
  rw [List.flatten_append, hstate]
  exact hdelivered.interrupts _

/-- Interrupts do not empty a place. -/
theorem available_interrupts (kbd : Keyboard) (more : List UInt8) :
    (kbd.keyAvailable = true → (more.foldl keyboardHandler kbd).keyAvailable = true) ∧
      (kbd.scancodeAvailable = true →
        (more.foldl keyboardHandler kbd).scancodeAvailable = true) := by
  have hchar := foldl_pendingChar kbd more
  have hcode := foldl_pendingCode kbd more
  generalize more.foldl keyboardHandler kbd = kbd' at hchar hcode
  constructor
  · intro havailable
    by_contra hnone
    rw [Keyboard.pendingChar, if_neg hnone, Keyboard.pendingChar, if_pos havailable] at hchar
    cases hlast : (characters kbd more).getLast? <;> rw [hlast] at hchar <;>
      exact absurd hchar (by simp)
  · intro havailable
    by_contra hnone
    rw [Keyboard.pendingCode, if_neg hnone, Keyboard.pendingCode, if_pos havailable] at hcode
    cases hlast : (more.filter (IsKey ·)).getLast? <;> rw [hlast] at hcode <;>
      exact absurd hcode (by simp)

/-- `keyboard_get_extended` looks twice, and between the two only interrupts come. -/
theorem Reads.getExtended {ahead : List (List UInt8)} {w : World Keyboard UInt8}
    (h : Reads ahead answers w) :
    Reads ahead (answers ++ [.extended (keyboardGetExtended w).1.1 (keyboardGetExtended w).1.2])
      (keyboardGetExtended w).2 := by
  have hlooked : Reads ahead answers (keyboardHasScancode w).2 := h.access fun _ => id
  have hfound : (keyboardHasScancode w).1 = (keyboardHasScancode w).2.state.scancodeAvailable := rfl
  have hrun : keyboardGetExtended w =
      (if (keyboardHasScancode w).1 = true then
        (fun taken => (extendedAnswer taken, taken)) <$>
          Shared.access keyboardHandler takeExtended
      else pure (0, none) : KeyboardM (UInt8 × Option UInt8)) (keyboardHasScancode w).2 := rfl
  rw [hrun]
  generalize keyboardHasScancode w = looked at hlooked hfound
  cases hcase : looked.1 with
  | true =>
      rw [if_pos rfl]
      exact hlooked.access fun scancodes hdelivered =>
        hdelivered.extended ((available_interrupts _ _).2 (hfound.symm.trans hcase))
  | false =>
      rw [if_neg Bool.false_ne_true]
      obtain ⟨past, hahead, hdelivered⟩ := hlooked
      refine ⟨past, hahead, hdelivered.silent rfl rfl fun key taken hkey => ?_⟩
      obtain ⟨rfl, rfl⟩ := KeyAnswer.extended.inj hkey
      rfl

/-- One call. -/
theorem Reads.call {ahead : List (List UInt8)} {w w' : World Keyboard UInt8} {call : KeyCall}
    {answer : KeyAnswer} (h : Reads ahead answers w) (hcall : call.run w = some (answer, w')) :
    Reads ahead (answers ++ [answer]) w' := by
  cases call with
  | getchar =>
      simp only [KeyCall.run, keyboardGetchar, Option.map_map, Option.map_eq_some_iff] at hcall
      obtain ⟨w₁, hwait, heq⟩ := hcall
      obtain ⟨rfl, rfl⟩ := Prod.mk.inj heq
      obtain ⟨hready, hreads⟩ := h.wait hwait
      exact hreads.access fun scancodes hdelivered =>
        hdelivered.char ((available_interrupts _ _).1 hready)
  | hasKey =>
      obtain ⟨rfl, rfl⟩ := Prod.mk.inj (Option.some.inj hcall)
      exact h.access fun scancodes hdelivered => hdelivered.silent rfl rfl (by simp)
  | getScancode =>
      simp only [KeyCall.run, keyboardGetScancode, Option.map_map, Option.map_eq_some_iff] at hcall
      obtain ⟨w₁, hwait, heq⟩ := hcall
      obtain ⟨rfl, rfl⟩ := Prod.mk.inj heq
      obtain ⟨hready, hreads⟩ := h.wait hwait
      exact hreads.access fun scancodes hdelivered =>
        hdelivered.scancode ((available_interrupts _ _).2 hready)
  | hasScancode =>
      obtain ⟨rfl, rfl⟩ := Prod.mk.inj (Option.some.inj hcall)
      exact h.access fun scancodes hdelivered => hdelivered.silent rfl rfl (by simp)
  | getExtended =>
      obtain ⟨rfl, rfl⟩ := Prod.mk.inj (Option.some.inj hcall)
      exact h.getExtended
  | flush =>
      obtain ⟨rfl, rfl⟩ := Prod.mk.inj (Option.some.inj hcall)
      exact h.access (f := fun kbd => ((), { kbd with
        keyAvailable := false, scancodeAvailable := false, scancodeExtendedState := false }))
        fun scancodes hdelivered => hdelivered.flush

/-- Many calls. -/
theorem Reads.run {ahead : List (List UInt8)} {w w' : World Keyboard UInt8}
    {calls : List KeyCall} {answers' : List KeyAnswer} (h : Reads ahead answers w)
    (hrun : runAll KeyCall.run calls w = some (answers', w')) :
    Reads ahead (answers ++ answers') w' := by
  induction calls generalizing answers answers' w with
  | nil =>
      obtain ⟨rfl, rfl⟩ := Prod.mk.inj (Option.some.inj hrun)
      exact (List.append_nil answers).symm ▸ h
  | cons call calls ih =>
      simp only [runAll, Option.bind_eq_some_iff, Option.map_eq_some_iff] at hrun
      obtain ⟨⟨answer, w₁⟩, hcall, ⟨answers'', w₂⟩, hrest, heq⟩ := hrun
      obtain ⟨rfl, rfl⟩ := Prod.mk.inj heq
      have hreads := ih (h.call hcall) hrest
      rwa [List.append_assoc] at hreads

theorem reads_boot (ahead : List (List UInt8)) : Reads ahead [] ⟨.boot, ahead⟩ :=
  ⟨[], rfl, .boot⟩

/-- In every run of calls, whenever the interrupts come: a character that was returned is the
last one that was typed since the place was emptied before, and the same for scancodes. -/
theorem keyboard_returns_latest {ahead : List (List UInt8)} {calls : List KeyCall}
    {answers : List KeyAnswer} {w : World Keyboard UInt8}
    (hrun : runAll KeyCall.run calls ⟨.boot, ahead⟩ = some (answers, w)) :
    ∃ past, ahead = past ++ w.ahead ∧ Delivered past.flatten answers w.state :=
  (reads_boot ahead).run hrun

/-- Two keys are pressed before the first character is read: the first one is lost. -/
theorem keyboard_returns_latest_lost :
    ∃ past, [[0x26, 0x1F], [], [0x1E]] = past ++ [[0x1E]] ∧
      Delivered past.flatten [.char 0x73]
        { Keyboard.boot with
          keyBuffer := 0x73, scancodeBuffer := 0x1F, scancodeAvailable := true } :=
  @keyboard_returns_latest [[0x26, 0x1F], [], [0x1E]] [.getchar] _ ⟨_, [[0x1E]]⟩ rfl

/-- `keyboard_getchar` waits exactly as long as no character is typed. -/
theorem keyboardGetchar_waits_iff (w : World Keyboard UInt8) :
    keyboardGetchar w = none ↔
      w.state.pendingChar = none ∧ characters w.state w.ahead.flatten = [] := by
  have hnone (kbd : Keyboard) : ¬ kbd.keyAvailable = true ↔ kbd.pendingChar = none := by
    rw [Keyboard.pendingChar, ite_eq_right_iff]
    exact ⟨fun h h' => absurd h' h, fun h h' => absurd (h h') (Option.some_ne_none _)⟩
  obtain ⟨kbd, ahead⟩ := w
  rw [keyboardGetchar, Option.map_eq_none_iff]
  dsimp only
  induction ahead generalizing kbd with
  | nil =>
      rw [waitFor, ite_eq_right_iff]
      refine Iff.trans ?_ (and_iff_left rfl).symm
      exact Iff.trans ⟨fun h h' => absurd (h h') (Option.some_ne_none _),
        fun h h' => absurd h' h⟩ (hnone kbd)
  | cons batch ahead ih =>
      have hbatch : (batch.foldl keyboardHandler kbd).pendingChar = none ↔
          kbd.pendingChar = none ∧ characters kbd batch = [] := by
        rw [foldl_pendingChar, Option.or_eq_none_iff, List.getLast?_eq_none_iff, and_comm]
      rw [waitFor, List.flatten_cons, characters_append, List.append_eq_nil_iff, ← and_assoc,
        ← hbatch]
      split
      next havailable =>
        refine iff_of_false (Option.some_ne_none _) fun h => ?_
        exact (hnone _).mpr h.1 havailable
      next hwaits => exact ih _

end Dosfs
