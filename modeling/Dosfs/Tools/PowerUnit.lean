import Mathlib.Data.Fintype.Basic
import Dosfs.Foundation.Run
import Dosfs.Tools.AcpiText

/-!
# The simulated power management

What the ACPI simulator stands for: a sleep state, a mode, and two sets of general purpose
events. Every session of typed commands does to them what the commands are for; an event that
was not delivered at once stays pending until it is triggered again.
-/

namespace Dosfs

open Foundation

/-! ## The unit -/

/-- The events whose bits are set. -/
def gpes (w : UInt32) : Finset (Fin 32) := Finset.univ.filter fun g => w.toBitVec.getLsbD g

/-- The sleep states, S0 to S7, the events that may interrupt, and those that wait. -/
structure PowerUnit where
  acpiMode : Bool
  sleep : Fin 8
  enabled : Finset (Fin 32)
  pending : Finset (Fin 32)
  deriving DecidableEq

/-- What a command finds out about the unit. -/
inductive PowerAnswer
  | quiet
  | sleeping (name : List UInt8)
  | mode (acpi : Bool)
  | events (gpes : Finset (Fin 32))
  | delivered (g : Nat)
  | queued
  | ignored
  | outOfRange
  deriving DecidableEq

def sleepName (s : Fin 8) : List UInt8 := [0x53, 0x30 + UInt8.ofNat s.val]

/-- The state that a type of sleep is for. Types 5 and 7 are both for soft-off. -/
def sleepOfType (t : Fin 8) : Fin 8 := if t = 7 then 5 else t

/-- The state that a control word asks for, whose bit 13 says that it asks for one. -/
def sleepRequest (w : Nat) : Option (Fin 8) :=
  if w / 2 ^ 13 % 2 = 1 then some (sleepOfType (Fin.ofNat 8 (w / 2 ^ 10))) else none

/-- The event of a number, which is taken modulo 2 ^ 32. -/
def gpeOf (num : SimNumber) : Option (Fin 32) :=
  if h : (num.counted % 2 ^ 32).toNat < 32 then some ⟨_, h⟩ else none

namespace PowerUnit

def initial : PowerUnit where
  acpiMode := false
  sleep := 0
  enabled := Finset.univ
  pending := ∅

/-- An event can interrupt. -/
def Interrupts (u : PowerUnit) (g : Fin 32) : Prop := g ∈ u.enabled ∧ u.acpiMode = true

instance (u : PowerUnit) (g : Fin 32) : Decidable (u.Interrupts g) :=
  inferInstanceAs (Decidable (_ ∧ _))

/-- An event that interrupts is over; another one waits. -/
def trigger (u : PowerUnit) (g : Fin 32) : PowerAnswer × PowerUnit :=
  if u.Interrupts g then (.delivered g, { u with pending := u.pending.erase g })
  else
    (if g ∈ u.enabled then .queued else .ignored, { u with pending := insert g u.pending })

def control (u : PowerUnit) (w : Nat) : PowerAnswer × PowerUnit :=
  match sleepRequest w with
  | some sleep => (.sleeping (sleepName sleep), { u with acpiMode := w.testBit 0, sleep })
  | none => (.quiet, { u with acpiMode := w.testBit 0 })

def write (u : PowerUnit) (val : UInt32) : SimReg → PowerAnswer × PowerUnit
  | .pm1aCnt => u.control (val.toNat % 2 ^ 16)
  | .pm1bCnt => (.quiet, u)
  | .smiCmd =>
      if val = 0xF0 then (.mode true, { u with acpiMode := true })
      else if val = 0xF1 then (.mode false, { u with acpiMode := false })
      else (.quiet, u)
  | .gpe0En => (.quiet, { u with enabled := gpes val })
  | .gpe0Sts => (.quiet, { u with pending := gpes val })

/-- The other two registers say nothing about the unit. -/
def read (u : PowerUnit) : SimReg → PowerAnswer
  | .pm1aCnt => .mode u.acpiMode
  | .gpe0En => .events u.enabled
  | .gpe0Sts => .events u.pending
  | .pm1bCnt | .smiCmd => .quiet

/-- A command with so many blanks at its end. -/
def perform (u : PowerUnit) (behind : Nat) : SacpiCommand → PowerAnswer × PowerUnit
  | .reset => (.quiet, initial)
  | .state => (.sleeping (sleepName u.sleep), u)
  | .event num =>
      match gpeOf num with
      | some g => u.trigger g
      | none => (.outOfRange, u)
  | .write reg num => u.write (num.written behind) reg
  | .read reg => (u.read reg, u)

def step (line : SacpiLine) (u : PowerUnit) : Option (PowerAnswer × PowerUnit) :=
  some (u.perform line.behind line.command)

end PowerUnit

/-! ## The simulator -/

/-- What the messages of a command say about the unit. -/
def answerOf (messages : List SacpiMessage) : PowerAnswer :=
  match messages.getLast? with
  | some (.powerState state) => .sleeping state
  | some .poweredOff => .sleeping (ascii ['S', '5'])
  | some .suspendedToRam => .sleeping (ascii ['S', '3'])
  | some .suspendedToDisk => .sleeping (ascii ['S', '4'])
  | some (.asleep slpTypx) => .sleeping (sleepText slpTypx)
  | some .acpiEnabled => .mode true
  | some .acpiDisabled => .mode false
  | some (.register .pm1aCnt val) => .mode (val &&& 1 != 0)
  | some (.register .gpe0En val) | some (.register .gpe0Sts val) => .events (gpes val)
  | some (.delivered gpe) => .delivered gpe.toNatClampNeg
  | some .queued => .queued
  | some (.ignored _) => .ignored
  | some .gpeOutOfRange => .outOfRange
  | _ => .quiet

/-- One line that is typed to the simulator. -/
def stepAcpiSim (mem : Memory) (acpi : Acpi) (line : SacpiLine) (sim : AcpiSim) :
    Option (PowerAnswer × AcpiSim) :=
  let (messages, sim) := acpiSimExecuteCommand mem acpi line.text sim
  some (answerOf messages, sim)

/-- The registers and the text stand for the unit. -/
structure AcpiSim.StandsFor (sim : AcpiSim) (u : PowerUnit) : Prop where
  mode : (sim.pm1aCnt &&& 1 != 0) = u.acpiMode
  sleep : sim.state = sleepName u.sleep
  enabled : gpes sim.gpe0En = u.enabled
  pending : gpes sim.gpe0Sts = u.pending

/-! ## Bits -/

theorem mem_gpes {w : UInt32} {g : Fin 32} : g ∈ gpes w ↔ w.toBitVec.getLsbD g = true := by
  simp [gpes]

def gpeBit (g : Fin 32) : UInt32 := 1 <<< UInt32.ofNat g.val

theorem gpeBit_getLsbD : ∀ g j : Fin 32, (gpeBit g).toBitVec.getLsbD j = decide (j = g) := by
  decide +kernel

theorem gpes_or (w : UInt32) (g : Fin 32) : gpes (w ||| gpeBit g) = insert g (gpes w) := by
  ext j
  rw [Finset.mem_insert, mem_gpes, mem_gpes, UInt32.toBitVec_or, BitVec.getLsbD_or,
    gpeBit_getLsbD, Bool.or_eq_true, decide_eq_true_iff, or_comm]

theorem gpes_andNot (w : UInt32) (g : Fin 32) : gpes (w &&& ~~~gpeBit g) = (gpes w).erase g := by
  ext j
  rw [Finset.mem_erase, mem_gpes, mem_gpes, UInt32.toBitVec_and, BitVec.getLsbD_and,
    UInt32.toBitVec_not, BitVec.getLsbD_not, gpeBit_getLsbD, Bool.and_eq_true, Bool.and_eq_true,
    decide_eq_true_iff, Bool.not_eq_true', decide_eq_false_iff_not, and_comm]
  exact and_congr_left fun _ => and_iff_right j.isLt

theorem and_gpeBit_ne_zero_iff (w : UInt32) (g : Fin 32) : w &&& gpeBit g ≠ 0 ↔ g ∈ gpes w := by
  have hbit (j : Fin 32) : (w &&& gpeBit g).toBitVec.getLsbD j =
      (w.toBitVec.getLsbD j && decide (j = g)) := by
    rw [UInt32.toBitVec_and, BitVec.getLsbD_and, gpeBit_getLsbD]
  rw [mem_gpes]
  refine ⟨fun hne => ?_, fun hg hzero => ?_⟩
  · by_contra hg
    refine hne (UInt32.toBitVec_inj.mp (BitVec.eq_of_getLsbD_eq fun j hj => ?_))
    have hj' := hbit ⟨j, hj⟩
    rw [hj', UInt32.toBitVec_zero, BitVec.getLsbD_zero]
    by_cases hjg : (⟨j, hj⟩ : Fin 32) = g
    · rw [hjg, Bool.eq_false_iff.mpr hg, Bool.false_and]
    · rw [decide_eq_false hjg, Bool.and_false]
  · have := hbit g
    rw [hzero, hg, UInt32.toBitVec_zero, BitVec.getLsbD_zero, decide_eq_true rfl] at this
    exact absurd this Bool.false_ne_true

theorem gpes_zero : gpes 0 = ∅ := by decide

theorem gpes_all : gpes 0xFFFFFFFF = Finset.univ := by decide +kernel

/-! ## Control words -/

theorem and_one_ne_zero_iff (w : UInt16) : (w &&& 1 != 0) = w.toNat.testBit 0 := by
  rw [Bool.eq_iff_iff, bne_iff_ne, Nat.testBit_zero, decide_eq_true_iff, Ne, ← UInt16.toNat_inj,
    UInt16.toNat_and, UInt16.toNat_one, UInt16.toNat_zero, Nat.and_one_is_mod]
  omega

theorem slpEn_ne_zero_iff (w : UInt16) : (w >>> 13) &&& 1 ≠ 0 ↔ w.toNat / 2 ^ 13 % 2 = 1 := by
  rw [Ne, ← UInt16.toNat_inj, UInt16.toNat_and, UInt16.toNat_shiftRight]
  change ¬ (w.toNat >>> 13) &&& 1 = 0 ↔ _
  rw [Nat.and_one_is_mod, Nat.shiftRight_eq_div_pow]
  omega

theorem slpTypx_eq (w : UInt16) :
    (w >>> 10) &&& 7 = UInt16.ofNat (Fin.ofNat 8 (w.toNat / 2 ^ 10)).val := by
  have hmask : ((w >>> 10) &&& 7).toNat = w.toNat / 2 ^ 10 % 8 := by
    rw [UInt16.toNat_and, UInt16.toNat_shiftRight]
    change (w.toNat >>> 10) &&& (2 ^ 3 - 1) = _
    rw [Nat.and_two_pow_sub_one_eq_mod, Nat.shiftRight_eq_div_pow]
  rw [← UInt16.ofNat_toNat (x := (w >>> 10) &&& 7), hmask]
  rfl

theorem sleepText_eq : ∀ t : Fin 8,
    sleepText (UInt16.ofNat t.val) = sleepName (sleepOfType t) := by
  decide

theorem answerOf_sleepMessage : ∀ t : Fin 8,
    answerOf [sleepMessage (UInt16.ofNat t.val)] = .sleeping (sleepName (sleepOfType t)) := by
  decide

/-! ## The commands on the unit -/

theorem acpiSimInit_standsFor : acpiSimInit.StandsFor PowerUnit.initial where
  mode := rfl
  sleep := by decide +kernel
  enabled := gpes_all
  pending := gpes_zero

section Commands

variable {sim : AcpiSim} {u : PowerUnit}

/-- The answer is in the last message. -/
theorem answerOf_append (messages : List SacpiMessage) (last : SacpiMessage) :
    answerOf (messages ++ [last]) = answerOf [last] := by
  unfold answerOf
  rw [List.getLast?_concat, List.getLast?_singleton]

theorem handlePm1aCntWrite_standsFor (h : sim.StandsFor u) (val : UInt16) :
    answerOf (handlePm1aCntWrite val sim).1 = (u.control val.toNat).1 ∧
      (handlePm1aCntWrite val sim).2.StandsFor (u.control val.toNat).2 := by
  have hmode := and_one_ne_zero_iff val
  have hen := slpEn_ne_zero_iff val
  rw [handlePm1aCntWrite, PowerUnit.control, sleepRequest]
  dsimp only
  rw [slpTypx_eq val]
  by_cases hsleep : val.toNat / 2 ^ 13 % 2 = 1
  · rw [if_pos hsleep, if_pos (hen.mpr hsleep)]
    exact ⟨(answerOf_append [_, _] _).trans (answerOf_sleepMessage _), hmode, sleepText_eq _,
      h.enabled, h.pending⟩
  · rw [if_neg hsleep, if_neg (mt hen.mp hsleep)]
    exact ⟨rfl, hmode, h.sleep, h.enabled, h.pending⟩

theorem triggerGpe_standsFor (h : sim.StandsFor u) {gpe : Int32} {g : Fin 32}
    (hgpe : gpe.toInt = g.val) :
    answerOf (triggerGpe gpe sim).1 = (u.trigger g).1 ∧
      (triggerGpe gpe sim).2.StandsFor (u.trigger g).2 := by
  have hword : gpe.toInt = if 2 * gpe.toUInt32.toNat < 2 ^ 32 then (gpe.toUInt32.toNat : Int)
      else gpe.toUInt32.toNat - 2 ^ 32 := BitVec.toInt_eq_toNat_cond gpe.toBitVec
  have hbit : (1 : UInt32) <<< gpe.toUInt32 = gpeBit g := by
    refine congrArg _ (UInt32.toNat.inj ?_)
    rw [UInt32.toNat_ofNat_of_lt' (g.isLt.trans (by decide))]
    have hlt := gpe.toUInt32.toNat_lt
    split at hword <;> omega
  have hdelivered : gpe.toNatClampNeg = g.val := by
    rw [← Int32.toNat_toInt, hgpe, Int.toNat_natCast]
  have henabled : sim.gpe0En &&& gpeBit g ≠ 0 ↔ g ∈ u.enabled := by
    rw [and_gpeBit_ne_zero_iff, h.enabled]
  have hmode : sim.pm1aCnt &&& 1 ≠ 0 ↔ u.acpiMode = true := by
    rw [← h.mode, bne_iff_ne]
  rw [triggerGpe, PowerUnit.trigger]
  dsimp only
  rw [hbit]
  by_cases hen : g ∈ u.enabled
  · rw [if_pos (henabled.mpr hen)]
    by_cases hon : u.acpiMode = true
    · rw [if_pos (hmode.mpr hon), if_pos (show u.Interrupts g from ⟨hen, hon⟩)]
      refine ⟨congrArg PowerAnswer.delivered hdelivered, h.mode, h.sleep, h.enabled, ?_⟩
      rw [gpes_andNot, gpes_or, h.pending]
      exact Finset.erase_insert_eq_erase _ _
    · rw [if_neg (mt hmode.mp hon), if_neg (show ¬ u.Interrupts g from fun hboth => hon hboth.2),
        if_pos hen]
      refine ⟨rfl, h.mode, h.sleep, h.enabled, ?_⟩
      rw [gpes_or, h.pending]
  · rw [if_neg (mt henabled.mp hen), if_neg (show ¬ u.Interrupts g from fun hboth => hen hboth.1),
      if_neg hen]
    refine ⟨rfl, h.mode, h.sleep, h.enabled, ?_⟩
    rw [gpes_or, h.pending]

theorem not_outOfRange {gpe : Int32} {g : Fin 32} (hgpe : gpe.toInt = g.val) :
    ¬ (gpe < 0 ∨ gpe ≥ 32) := by
  rw [ge_iff_le, Int32.lt_iff_toInt_lt, Int32.le_iff_toInt_le, hgpe]
  change ¬ ((g.val : Int) < 0 ∨ (32 : Int) ≤ g.val)
  omega

/-- Which event a number is for. -/
theorem gpeOf_spec (num : SimNumber) :
    (match gpeOf num with
    | some g => (Int32.ofInt num.counted).toInt = g.val
    | none => Int32.ofInt num.counted < 0 ∨ Int32.ofInt num.counted ≥ 32) := by
  have hsize : (Int32.ofInt num.counted).toInt = num.counted.bmod 4294967296 := Int32.toInt_ofInt
  rw [Int.bmod_def] at hsize
  rw [gpeOf]
  split
  next heq =>
    split at heq
    next hlt =>
      obtain rfl := Option.some.inj heq
      rw [hsize]
      dsimp only
      split <;> omega
    next => exact absurd heq (Option.some_ne_none _).symm
  next heq =>
    split at heq
    next => exact absurd heq (Option.some_ne_none _)
    next hge =>
      rw [ge_iff_le, Int32.lt_iff_toInt_lt, Int32.le_iff_toInt_le, hsize]
      change _ < 0 ∨ 32 ≤ _
      split <;> omega

theorem writeSimReg_standsFor (h : sim.StandsFor u) (r : SimReg) (val : UInt32) :
    answerOf (writeSimReg r val sim).1 = (u.write val r).1 ∧
      (writeSimReg r val sim).2.StandsFor (u.write val r).2 := by
  cases r with
  | pm1aCnt => exact handlePm1aCntWrite_standsFor h val.toUInt16
  | pm1bCnt => exact ⟨rfl, h.mode, h.sleep, h.enabled, h.pending⟩
  | smiCmd =>
      rw [writeSimReg, PowerUnit.write]
      dsimp only
      by_cases hon : val = 0xF0
      · rw [if_pos hon, if_pos hon]
        refine ⟨rfl, ?_, h.sleep, h.enabled, h.pending⟩
        rw [and_one_ne_zero_iff, UInt16.toNat_or, Nat.testBit_or]
        exact Bool.or_true _
      · rw [if_neg hon, if_neg hon]
        by_cases hoff : val = 0xF1
        · rw [if_pos hoff, if_pos hoff]
          refine ⟨rfl, ?_, h.sleep, h.enabled, h.pending⟩
          rw [and_one_ne_zero_iff, UInt16.toNat_and, Nat.testBit_and]
          exact Bool.and_false _
        · rw [if_neg hoff, if_neg hoff]
          exact ⟨rfl, h.mode, h.sleep, h.enabled, h.pending⟩
  | gpe0En => exact ⟨rfl, h.mode, h.sleep, rfl, h.pending⟩
  | gpe0Sts => exact ⟨rfl, h.mode, h.sleep, h.enabled, rfl⟩

theorem read_standsFor (h : sim.StandsFor u) (r : SimReg) :
    answerOf [.register r (sim.value r)] = u.read r := by
  cases r with
  | pm1aCnt =>
      refine congrArg PowerAnswer.mode (Eq.trans ?_ h.mode)
      rw [Bool.eq_iff_iff, bne_iff_ne, bne_iff_ne, Ne, Ne, ← UInt32.toNat_inj, ← UInt16.toNat_inj,
        UInt32.toNat_and, UInt16.toNat_and]
      rfl
  | gpe0En => exact congrArg PowerAnswer.events h.enabled
  | gpe0Sts => exact congrArg PowerAnswer.events h.pending
  | pm1bCnt => rfl
  | smiCmd => rfl

theorem performSacpi_standsFor (mem : Memory) (acpi : Acpi) (h : sim.StandsFor u)
    (cmd : SacpiCommand) (inner behind : Nat) :
    answerOf (performSacpi mem acpi (cmd.args inner behind) sim cmd.fn).1 =
        (u.perform behind cmd).1 ∧
      (performSacpi mem acpi (cmd.args inner behind) sim cmd.fn).2.StandsFor
        (u.perform behind cmd).2 := by
  cases cmd with
  | reset => exact ⟨rfl, acpiSimInit_standsFor⟩
  | state => exact ⟨congrArg PowerAnswer.sleeping h.sleep, h⟩
  | event num =>
      have hgpe := gpeOf_spec num
      rw [SacpiCommand.fn, SacpiCommand.args, performSacpi, sacpiEvent_text, PowerUnit.perform]
      cases hnum : gpeOf num with
      | none =>
          rw [hnum] at hgpe
          rw [if_pos hgpe]
          exact ⟨rfl, h⟩
      | some g =>
          rw [hnum] at hgpe
          rw [if_neg (not_outOfRange hgpe)]
          exact triggerGpe_standsFor h hgpe
  | write r num =>
      rw [SacpiCommand.fn, SacpiCommand.args, performSacpi, sacpiWrite_text]
      exact writeSimReg_standsFor h r _
  | read r =>
      rw [SacpiCommand.fn, SacpiCommand.args, performSacpi, sacpiRead_text]
      exact ⟨read_standsFor h r, h⟩

/-- One line. -/
theorem stepAcpiSim_refines (mem : Memory) (acpi : Acpi) (line : SacpiLine)
    (h : sim.StandsFor u) :
    ∃ answer sim' u', stepAcpiSim mem acpi line sim = some (answer, sim') ∧
      PowerUnit.step line u = some (answer, u') ∧ sim'.StandsFor u' := by
  obtain ⟨hanswer, hstate⟩ :=
    performSacpi_standsFor mem acpi h line.command line.inner line.behind
  rw [stepAcpiSim, acpiSimExecuteCommand_text, PowerUnit.step]
  exact ⟨_, _, _, rfl, congrArg (fun answer => some (answer, _)) hanswer.symm, hstate⟩

end Commands

/-- In every session of typed commands the simulator answers and does what the commands are
for on a sleep state, a mode and two sets of events. -/
theorem sacpi_sessions_refine (mem : Memory) (acpi : Acpi) (lines : List SacpiLine) :
    ∃ answers sim u, runAll (stepAcpiSim mem acpi) lines acpiSimInit = some (answers, sim) ∧
      runAll PowerUnit.step lines PowerUnit.initial = some (answers, u) ∧ sim.StandsFor u :=
  runAll_simulates AcpiSim.StandsFor lines
    (fun line _ _ _ h => stepAcpiSim_refines mem acpi line h) acpiSimInit_standsFor

/-! ## Events that wait -/

namespace PowerUnit

variable (g : Fin 32)

def next (u : PowerUnit) (line : SacpiLine) : PowerUnit := (u.perform line.behind line.command).2

/-- The line makes the event wait: it triggers it when it cannot interrupt, or sets its bit. -/
def Raises (u : PowerUnit) (line : SacpiLine) : Prop :=
  match line.command with
  | .event num => gpeOf num = some g ∧ ¬ u.Interrupts g
  | .write .gpe0Sts num => g ∈ gpes (num.written line.behind)
  | _ => False

/-- The line ends the waiting: it triggers the event when it can interrupt, or clears its
bit. -/
def Settles (u : PowerUnit) (line : SacpiLine) : Prop :=
  match line.command with
  | .event num => gpeOf num = some g ∧ u.Interrupts g
  | .write .gpe0Sts num => g ∉ gpes (num.written line.behind)
  | .reset => True
  | _ => False

theorem mem_trigger_iff (u : PowerUnit) (g' : Fin 32) :
    g ∈ (u.trigger g').2.pending ↔
      (g' = g ∧ ¬ u.Interrupts g) ∨ g ∈ u.pending ∧ ¬ (g' = g ∧ u.Interrupts g) := by
  rw [trigger]
  by_cases hg : g' = g
  · subst hg
    by_cases hon : u.Interrupts g'
    · simp [hon]
    · simp [hon]
  · split
    · simp [hg, Ne.symm hg]
    · simp [hg, Ne.symm hg]

/-- A write to another register leaves the events waiting. -/
theorem write_pending (u : PowerUnit) (val : UInt32) {r : SimReg} (hr : r ≠ .gpe0Sts) :
    (u.write val r).2.pending = u.pending := by
  cases r with
  | pm1aCnt =>
      change (u.control _).2.pending = _
      rw [control]
      split <;> rfl
  | pm1bCnt => rfl
  | smiCmd =>
      rw [write]
      split
      · rfl
      · split <;> rfl
  | gpe0En => rfl
  | gpe0Sts => exact absurd rfl hr

/-- One line. -/
theorem mem_pending_next_iff (u : PowerUnit) (line : SacpiLine) :
    g ∈ (u.next line).pending ↔ Raises g u line ∨ g ∈ u.pending ∧ ¬ Settles g u line := by
  obtain ⟨command, front, between, inner, behind⟩ := line
  cases command with
  | reset => simp [next, perform, initial, Raises, Settles]
  | state => simp [next, perform, Raises, Settles]
  | read r => simp [next, perform, Raises, Settles]
  | event num =>
      cases hnum : gpeOf num with
      | none => simp [next, perform, Raises, Settles, hnum]
      | some g' => simp [next, perform, Raises, Settles, hnum, mem_trigger_iff]
  | write r num =>
      by_cases hr : r = .gpe0Sts
      · subst hr
        simp [next, perform, write, Raises, Settles]
      · have hpending := u.write_pending (num.written behind) hr
        cases r <;> simp_all [next, perform, Raises, Settles]

end PowerUnit

/-- After any session the status bit of an event is set exactly if the event has been
triggered when it could not interrupt, or its bit written, and it has neither interrupted nor
been cleared since. Enabling it later, or the mode, does not deliver it. -/
theorem sacpi_pending_iff (mem : Memory) (acpi : Acpi) (lines : List SacpiLine) (g : Fin 32) :
    ∃ answers sim, runAll (stepAcpiSim mem acpi) lines acpiSimInit = some (answers, sim) ∧
      (g ∈ gpes sim.gpe0Sts ↔
        Since PowerUnit.next (PowerUnit.Raises g) (PowerUnit.Settles g) lines
          PowerUnit.initial) := by
  obtain ⟨answers, sim, u, hsim, hunit, hrep⟩ := runAll_simulates AcpiSim.StandsFor lines
    (fun line _ _ _ h => stepAcpiSim_refines mem acpi line h) acpiSimInit_standsFor
  obtain ⟨rs, hfold⟩ := runAll_foldl
    (fun line u => PowerUnit.perform u line.behind line.command) lines PowerUnit.initial
  obtain ⟨-, rfl⟩ := Prod.mk.inj (Option.some.inj (hunit.symm.trans hfold))
  refine ⟨answers, sim, hsim, ?_⟩
  have hflag := foldl_flag_iff (fun u => g ∈ u.pending) (PowerUnit.mem_pending_next_iff g) lines
    PowerUnit.initial
  rw [hrep.pending]
  exact hflag.trans (or_iff_left fun h => Finset.notMem_empty g h.1)

end Dosfs
