import Dosfs.Tools.AcpiText

/-!
# Saving and restoring the simulated registers

The values that `read` prints, typed again behind `write`, bring the registers back. The
sleep state is not a register, and comes back only with the control word that asks for it.
-/

namespace Dosfs

open Foundation

/-- A session of lines, whatever is typed. -/
def runSacpi (mem : Memory) (acpi : Acpi) (lines : List (List UInt8)) (sim : AcpiSim) : AcpiSim :=
  lines.foldl (fun sim line => (acpiSimExecuteCommand mem acpi line sim).2) sim

/-! ## Every session -/

def slpEn (w : UInt16) : UInt16 := (w >>> 13) &&& 1

def slpTypx (w : UInt16) : UInt16 := (w >>> 10) &&& 7

/-- No command writes the event register, and a control word that asks for a sleep state has
been given it. -/
structure AcpiSim.Sound (sim : AcpiSim) : Prop where
  evt : sim.pm1aEvt = 0
  asked : slpEn sim.pm1aCnt ≠ 0 → sim.state = sleepText (slpTypx sim.pm1aCnt)

theorem acpiSimInit_sound : acpiSimInit.Sound := ⟨rfl, fun h => absurd rfl h⟩

/-- The two fields are above the bit of the mode. -/
theorem slp_or_one (w : UInt16) : slpEn (w ||| 1) = slpEn w ∧ slpTypx (w ||| 1) = slpTypx w := by
  have hshift {k : UInt16} (hk : (1 : UInt16) >>> k = 0) : (w ||| 1) >>> k = w >>> k := by
    rw [UInt16.shiftRight_or, hk, UInt16.or_zero]
  rw [slpEn, slpTypx, hshift rfl, hshift rfl]
  exact ⟨rfl, rfl⟩

theorem slp_andNot_one (w : UInt16) :
    slpEn (w &&& ~~~1) = slpEn w ∧ slpTypx (w &&& ~~~1) = slpTypx w := by
  rw [slpEn, slpTypx, UInt16.shiftRight_and, UInt16.shiftRight_and, UInt16.and_assoc,
    UInt16.and_assoc]
  exact ⟨rfl, rfl⟩

section Sound

variable {sim : AcpiSim}

theorem writeSimReg_sound (h : sim.Sound) (r : SimReg) (val : UInt32) :
    (writeSimReg r val sim).2.Sound := by
  cases r with
  | pm1aCnt =>
      rw [writeSimReg, handlePm1aCntWrite]
      dsimp only
      split
      next => exact ⟨h.evt, fun _ => rfl⟩
      next hzero => exact ⟨h.evt, fun hne => absurd hne hzero⟩
  | pm1bCnt => exact ⟨h.evt, h.asked⟩
  | smiCmd =>
      rw [writeSimReg]
      dsimp only
      split
      · have hslp := slp_or_one sim.pm1aCnt
        refine ⟨h.evt, fun hne => ?_⟩
        rw [hslp.2]
        exact h.asked (hslp.1 ▸ hne)
      · split
        · have hslp := slp_andNot_one sim.pm1aCnt
          refine ⟨h.evt, fun hne => ?_⟩
          rw [hslp.2]
          exact h.asked (hslp.1 ▸ hne)
        · exact ⟨h.evt, h.asked⟩
  | gpe0En => exact ⟨h.evt, h.asked⟩
  | gpe0Sts => exact ⟨h.evt, h.asked⟩

theorem sacpiEvent_sound (h : sim.Sound) (args : List UInt8) : (sacpiEvent args sim).2.Sound := by
  rw [sacpiEvent]
  split
  · exact h
  · dsimp only
    split
    · exact h
    · rw [triggerGpe]
      dsimp only
      split
      · split
        · exact ⟨h.evt, h.asked⟩
        · exact ⟨h.evt, h.asked⟩
      · exact ⟨h.evt, h.asked⟩

theorem sacpiWrite_sound (h : sim.Sound) (args : List UInt8) : (sacpiWrite args sim).2.Sound := by
  rw [sacpiWrite]
  dsimp only
  split
  · exact h
  · split
    · exact writeSimReg_sound h _ _
    · exact h

theorem acpiSimExecuteCommand_sound (mem : Memory) (acpi : Acpi) (args : List UInt8)
    (h : sim.Sound) : (acpiSimExecuteCommand mem acpi args sim).2.Sound := by
  rw [acpiSimExecuteCommand]
  dsimp only
  split
  · exact h
  · split
    next fn _ =>
      cases fn with
      | reset => exact acpiSimInit_sound
      | event => exact sacpiEvent_sound h _
      | write => exact sacpiWrite_sound h _
      | _ => exact h
    next => exact h

end Sound

theorem runSacpi_sound (mem : Memory) (acpi : Acpi) (lines : List (List UInt8)) {sim : AcpiSim}
    (h : sim.Sound) : (runSacpi mem acpi lines sim).Sound := by
  induction lines generalizing sim with
  | nil => exact h
  | cons line lines ih => exact ih (acpiSimExecuteCommand_sound mem acpi line h)

/-! ## What `read` prints -/

/-- The line that `read` prints. -/
def registerText (r : SimReg) (val : UInt32) : List UInt8 :=
  r.title ++ (ascii [' ', '=', ' ', '0', 'x'] ++ (numeral 16 val.toNat ++ [0x0A]))

theorem printRegister_eq (r : SimReg) (val : UInt32) (vga : Vga) :
    printRegister r val vga = some ((registerText r val).foldl vgaPutchar vga) := by
  have htitle : ∀ c ∈ r.title, c ≠ 0x25 := by
    cases r <;> simp [SimReg.title, ascii]
  have hsign : ∀ c ∈ ascii [' ', '=', ' ', '0', 'x'], c ≠ 0x25 := by simp [ascii]
  have hformat : readFormat r =
      r.title ++ (ascii [' ', '=', ' ', '0', 'x'] ++ [0x25, 0x78, 0x0A]) := rfl
  have hunflagged : Unflagged (readFormat r) := by
    rw [hformat]
    exact .plain_append _ htitle (.plain_append _ hsign
      (.conversion (by decide) (by decide) (by decide) (.plain (by decide) .nil)))
  have hdigits : expansion (fun _ => ⟨val, none⟩) [0x25, 0x78, 0x0A] 0 =
      numeral 16 val.toNat ++ [0x0A] :=
    congrArg (· ++ [0x0A]) (uitoa_eq (by decide : 2 ≤ (16 : UInt32).toNat) val)
  rw [printRegister, vgaPrintf_unflagged hunflagged fun _ => by simp [VaArg.text], registerText,
    ← hdigits]
  dsimp only
  rw [hformat, expansion_plain_append htitle, expansion_plain_append hsign]

/-- The value in a line that `read` has printed. -/
def shownValue (text : List UInt8) : List UInt8 :=
  ((text.dropWhile (· != 0x3D)).drop 2).takeWhile (· != 0x0A)

theorem shownValue_registerText (r : SimReg) (val : UInt32) :
    shownValue (registerText r val) = (SimNumber.hexadecimal val.toNat).text := by
  have htitle : ∀ c ∈ r.title ++ [0x20], (c != 0x3D) = true := by
    cases r <;> simp [SimReg.title, ascii]
  have hdigits : ∀ c ∈ (SimNumber.hexadecimal val.toNat).text, (c != 0x0A) = true := by
    have hdigit : ∀ c ∈ 0x78 :: digitAlphabet.take 16, (c != 0x0A) = true := by
      simp [digitAlphabet]
    have hnumeral := (numeral_isNumeral (by decide : 2 ≤ 16) (by decide) val.toNat).digits
    refine List.forall_mem_cons.mpr ⟨by decide, List.forall_mem_cons.mpr ⟨by decide, ?_⟩⟩
    exact fun c hc => hdigit c (List.mem_cons_of_mem _ (hnumeral c hc))
  have hsplit : registerText r val = (r.title ++ [0x20]) ++
      0x3D :: 0x20 :: ((SimNumber.hexadecimal val.toNat).text ++ [0x0A]) := by
    rw [List.append_assoc]
    rfl
  rw [shownValue, hsplit, List.dropWhile_append_of_pos htitle,
    List.dropWhile_cons_of_neg (by decide), List.drop_succ_cons, List.drop_succ_cons,
    List.drop_zero, List.takeWhile_append_of_pos hdigits, List.takeWhile_cons_of_neg (by decide),
    List.append_nil]

/-! ## Restoring -/

/-- The line that asks for a register. -/
def queryLine (r : SimReg) : List UInt8 := SacpiFn.read.name ++ 0x20 :: r.name

/-- The line that brings a register back, from what `read` printed of it. -/
def restoreLine (r : SimReg) (text : List UInt8) : List UInt8 :=
  SacpiFn.write.name ++ 0x20 :: (r.name ++ 0x20 :: shownValue text)

/-- The command register comes before the control register, whose mode it changes. -/
def restoreOrder : List SimReg := [.smiCmd, .pm1aCnt, .pm1bCnt, .gpe0En, .gpe0Sts]

variable (mem : Memory) (acpi : Acpi)

theorem queryLine_execute (r : SimReg) (sim : AcpiSim) :
    acpiSimExecuteCommand mem acpi (queryLine r) sim = ([.register r (sim.value r)], sim) := by
  have hread := acpiSimExecuteCommand_text mem acpi ⟨.read r, 0, 0, 0, 0⟩ sim
  have hargs := sacpiRead_text r 0 sim
  rw [SacpiCommand.fn, SacpiCommand.args, performSacpi, hargs] at hread
  rw [← hread, queryLine]
  change _ = acpiSimExecuteCommand mem acpi (SacpiFn.read.name ++ 0x20 :: (r.name ++ [])) sim
  rw [List.append_nil]

theorem restoreLine_execute (r : SimReg) (val : UInt32) (sim : AcpiSim) :
    acpiSimExecuteCommand mem acpi (restoreLine r (registerText r val)) sim =
      writeSimReg r val sim := by
  have hwrite := acpiSimExecuteCommand_text mem acpi
    ⟨.write r (.hexadecimal val.toNat), 0, 0, 0, 0⟩ sim
  rw [SacpiCommand.fn, SacpiCommand.args, performSacpi, sacpiWrite_text, SimNumber.written,
    Nat.pow_zero, Nat.mul_one, UInt32.ofNat_toNat] at hwrite
  rw [← hwrite, restoreLine, shownValue_registerText]
  change _ = acpiSimExecuteCommand mem acpi (SacpiFn.write.name ++ 0x20 :: (r.name ++ 0x20 ::
    ((SimNumber.hexadecimal val.toNat).text ++ []))) sim
  rw [List.append_nil]

/-- What is there after the registers have been written back. -/
def AcpiSim.restored (saved later : AcpiSim) : AcpiSim :=
  { saved with
    state := if slpEn saved.pm1aCnt ≠ 0 then sleepText (slpTypx saved.pm1aCnt) else later.state }

theorem handlePm1aCntWrite_state (val : UInt16) (sim : AcpiSim) :
    (handlePm1aCntWrite val sim).2 =
      { sim with
        pm1aCnt := val
        state := if slpEn val ≠ 0 then sleepText (slpTypx val) else sim.state } := by
  rw [handlePm1aCntWrite]
  dsimp only
  by_cases hen : slpEn val ≠ 0
  · rw [if_pos hen]
    exact congrArg Prod.snd (if_pos hen)
  · rw [if_neg hen]
    exact congrArg Prod.snd (if_neg hen)

/-- A write to the command register changes the control register besides. -/
theorem writeSimReg_smiCmd (val : UInt32) (sim : AcpiSim) :
    ∃ cnt, (writeSimReg .smiCmd val sim).2 =
      { sim with smiCmd := val.toUInt8, pm1aCnt := cnt } := by
  rw [writeSimReg]
  dsimp only
  split
  · exact ⟨_, rfl⟩
  · split
    · exact ⟨_, rfl⟩
    · exact ⟨_, rfl⟩

theorem restore_eq (saved later : AcpiSim) (hevt : later.pm1aEvt = saved.pm1aEvt) :
    runSacpi mem acpi (restoreOrder.map fun r => restoreLine r (registerText r (saved.value r)))
      later = saved.restored later := by
  obtain ⟨cnt, hsmi⟩ := writeSimReg_smiCmd (saved.value .smiCmd) later
  have hcmd : (saved.value .smiCmd).toUInt8 = saved.smiCmd := UInt8.toUInt8_toUInt32 _
  have hcnt : (saved.value .pm1aCnt).toUInt16 = saved.pm1aCnt := UInt16.toUInt16_toUInt32 _
  have hcntB : (saved.value .pm1bCnt).toUInt16 = saved.pm1bCnt := UInt16.toUInt16_toUInt32 _
  simp only [runSacpi, restoreOrder, List.map_cons, List.map_nil, List.foldl_cons, List.foldl_nil,
    restoreLine_execute]
  rw [hsmi, hcmd]
  simp only [writeSimReg, handlePm1aCntWrite_state, hcnt, hcntB, AcpiSim.restored, hevt]
  rfl

/-- In a simulator that has been used in any way, what `read` prints of the five registers
brings all of them back after any further use. The sleep state comes back too where the control
word that was saved asks for it, and otherwise stays what it has become. -/
theorem sacpi_restore_iff (before after : List (List UInt8)) :
    let saved := runSacpi mem acpi before acpiSimInit
    let later := runSacpi mem acpi after saved
    ∃ texts : SimReg → List UInt8,
      (∀ r, ∃ val, acpiSimExecuteCommand mem acpi (queryLine r) saved = ([.register r val], saved) ∧
        ∀ vga, printRegister r val vga = some ((texts r).foldl vgaPutchar vga)) ∧
      let restored := runSacpi mem acpi (restoreOrder.map fun r => restoreLine r (texts r)) later
      restored = { saved with
        state := if slpEn saved.pm1aCnt ≠ 0 then saved.state else later.state } ∧
      (restored = saved ↔ slpEn saved.pm1aCnt ≠ 0 ∨ later.state = saved.state) := by
  intro saved later
  have hsound : saved.Sound := runSacpi_sound mem acpi before acpiSimInit_sound
  have hevt : later.pm1aEvt = 0 := (runSacpi_sound mem acpi after hsound).evt
  refine ⟨fun r => registerText r (saved.value r), fun r => ⟨_, queryLine_execute mem acpi r saved,
    printRegister_eq r _⟩, ?_⟩
  intro restored
  have heq : restored = saved.restored later :=
    restore_eq mem acpi saved later (hevt.trans hsound.evt.symm)
  rw [heq, AcpiSim.restored]
  by_cases hen : slpEn saved.pm1aCnt ≠ 0
  · rw [if_pos hen, if_pos hen, ← hsound.asked hen]
    exact ⟨rfl, iff_of_true rfl (Or.inl hen)⟩
  · rw [if_neg hen, if_neg hen, or_iff_right hen]
    refine ⟨rfl, fun h => ?_, fun h => by rw [h]⟩
    have hstate := congrArg AcpiSim.state h
    exact hstate

end Dosfs
