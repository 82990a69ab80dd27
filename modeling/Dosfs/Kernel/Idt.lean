import Mathlib.Data.List.Range
import Mathlib.Logic.Function.Basic

/-!
# Interrupt gates

A translation of `kernel/idt.c` and of what the drivers do with it: gates and handlers
are two tables, and the mask is a register of the interrupt controller that every driver
clears a bit of. A line that is unmasked should have a gate.
-/

namespace Dosfs

/-! ## The interrupt controllers -/

/-- The words that an 8259 expects after a first initialisation word. -/
inductive PicWord
  | offset
  | cascade
  | mode
  deriving DecidableEq

/-- An 8259: its mask, the vector of its line 0, and the initialisation words to come. -/
structure Pic where
  mask : UInt8
  offset : UInt8
  pending : List PicWord
  deriving DecidableEq

/-- A write to the command port. Bit 4 marks the first word of an initialisation. -/
def Pic.command (val : UInt8) (pic : Pic) : Pic :=
  if val &&& 0x10 ≠ 0 then
    { pic with
      mask := 0
      pending := .offset :: ((if val &&& 2 = 0 then [.cascade] else []) ++
        if val &&& 1 ≠ 0 then [.mode] else []) }
  else pic

/-- A write to the data port: the next initialisation word, or the mask. -/
def Pic.data (val : UInt8) (pic : Pic) : Pic :=
  match pic.pending with
  | .offset :: words => { pic with offset := val &&& 0xF8, pending := words }
  | _ :: words => { pic with pending := words }
  | [] => { pic with mask := val }

def Pic.unmasked (pic : Pic) (line : Nat) : Bool := !pic.mask.toNat.testBit line

/-! ## The tables -/

/-- `idt_entry_t` -/
structure IdtEntry where
  baseLow : UInt16
  sel : UInt16
  always0 : UInt8
  flags : UInt8
  baseHigh : UInt16
  deriving DecidableEq

def IdtEntry.present (entry : IdtEntry) : Bool := entry.flags &&& 0x80 != 0

/-- The handlers that the drivers register. -/
inductive IsrHandler
  | timerHandler
  | keyboardHandler
  | neIrqHandler
  | syscallHandler
  deriving DecidableEq

structure Interrupts where
  idt : UInt8 → IdtEntry
  isrHandlers : UInt8 → Option IsrHandler
  master : Pic
  slave : Pic
  /-- The two bytes that the timer is given to count down from. -/
  timerDivisor : UInt32

def outb (port : UInt16) (val : UInt8) (s : Interrupts) : Interrupts :=
  if port = 0x20 then { s with master := s.master.command val }
  else if port = 0x21 then { s with master := s.master.data val }
  else if port = 0xA0 then { s with slave := s.slave.command val }
  else if port = 0xA1 then { s with slave := s.slave.data val }
  else s

def idtSetGate (num : UInt8) (base : UInt32) (sel : UInt16) (flags : UInt8) (s : Interrupts) :
    Interrupts :=
  { s with idt := Function.update s.idt num {
      baseLow := (base &&& 0xFFFF).toUInt16
      sel := sel
      always0 := 0
      flags := flags
      baseHigh := ((base >>> 16) &&& 0xFFFF).toUInt16 } }

/-- The writes of `pic_remap`; the port of `io_wait` is none of a controller. -/
def picRemap (s : Interrupts) : Interrupts :=
  [(0x20, 0x11), (0xA0, 0x11), (0x21, 0x20), (0xA1, 0x28), (0x21, 0x04), (0xA1, 0x02),
    (0x21, 0x01), (0xA1, 0x01), (0x21, 0xFC), (0xA1, 0xFF)].foldl
    (fun s (port, val) => outb port val s) s

/-- Gates that the kernel alone may use, one after the other. -/
def setGates (isr : UInt8 → UInt32) (nums : List Nat) (s : Interrupts) : Interrupts :=
  nums.foldl (fun s num => idtSetGate (UInt8.ofNat num) (isr (UInt8.ofNat num)) 0x08 0x8E s) s

/-- `idt_init`; the entry points `isr0`, `isr1` and so on are where the linker put them. -/
def idtInit (isr : UInt8 → UInt32) (s : Interrupts) : Interrupts :=
  let s := picRemap { s with idt := fun _ => ⟨0, 0, 0, 0, 0⟩, isrHandlers := fun _ => none }
  idtSetGate 128 (isr 128) 0x08 0xEE (setGates isr (List.range 34) s)

def idtRegisterHandler (num : UInt8) (handler : IsrHandler) (s : Interrupts) : Interrupts :=
  { s with isrHandlers := Function.update s.isrHandlers num (some handler) }

/-! ## The drivers -/

/-- `mask = inb(0x21); mask &= ~(1 << line); outb(0x21, mask);` -/
def unmaskLine (line : UInt8) (s : Interrupts) : Interrupts :=
  outb 0x21 (s.master.mask &&& ~~~(1 <<< line)) s

def timerInit (freq : UInt32) (s : Interrupts) : Interrupts :=
  if freq = 0 then s
  else
    let s := idtRegisterHandler 32 .timerHandler s
    unmaskLine 0 { s with timerDivisor := (1193180 / freq) &&& 0xFFFF }

def keyboardInit (s : Interrupts) : Interrupts :=
  unmaskLine 1 (idtRegisterHandler 33 .keyboardHandler s)

def ne2000Irq : UInt8 := 3

/-- The end of `ne2000_init`; before it the function sets up the card. -/
def ne2000InitIrq (s : Interrupts) : Interrupts :=
  unmaskLine ne2000Irq (idtRegisterHandler (ne2000Irq + 32) .neIrqHandler s)

def syscallInit (s : Interrupts) : Interrupts := idtRegisterHandler 128 .syscallHandler s

inductive DriverInit
  | timerInit (freq : UInt32)
  | keyboardInit
  | ne2000Init
  | syscallInit
  deriving DecidableEq

def initDriver (s : Interrupts) : DriverInit → Interrupts
  | .timerInit freq => timerInit freq s
  | .keyboardInit => keyboardInit s
  | .ne2000Init => ne2000InitIrq s
  | .syscallInit => syscallInit s

/-! ## Taking an interrupt -/

/-- What an interrupt comes to. -/
inductive Served
  | handler (h : IsrHandler)
  | ignored
  /-- `cli(); hlt();` -/
  | halted
  deriving DecidableEq

def isrHandler (intNo : UInt8) (s : Interrupts) : Served :=
  match s.isrHandlers intNo with
  | some h => .handler h
  | none => if intNo < 32 then .halted else .ignored

def irqHandler (intNo : UInt8) (s : Interrupts) : Served × Interrupts :=
  let served := match s.isrHandlers intNo with
    | some h => Served.handler h
    | none => .ignored
  let s := if 40 ≤ intNo then outb 0xA0 0x20 s else s
  (served, outb 0x20 0x20 s)

/-- The processor takes an interrupt: the gate leads to the entry point of `isr.asm`, and
without one there is a general protection fault. -/
def takeInterrupt (vector : UInt8) (s : Interrupts) : Served :=
  if (s.idt vector).present then
    if vector = 32 ∨ vector = 33 then (irqHandler vector s).1 else isrHandler vector s
  else isrHandler 13 s

/-! ## What is set up -/

/-- Every line that is open and every handler has a gate. -/
structure Gated (s : Interrupts) : Prop where
  lines : ∀ n < 8, s.master.unmasked n = true → (s.idt (UInt8.ofNat (32 + n))).present = true
  handlers : ∀ v h, s.isrHandlers v = some h → (s.idt v).present = true

/-- What the calls after `idt_init` leave, where `card` says that `ne2000_init` was one
of them. -/
structure DriversInv (card : Bool) (s : Interrupts) : Prop where
  gates : ∀ v, (s.idt v).present = true ↔ v < 34 ∨ v = 128
  ready : s.master.pending = []
  offset : s.master.offset = 32
  mask : s.master.mask = if card then 0xF4 else 0xFC
  handlers : ∀ v, s.isrHandlers v ≠ none → v = 32 ∨ v = 33 ∨ v = 128 ∨ v = 35 ∧ card = true
  cardHandler : card = true → s.isrHandlers 35 = some .neIrqHandler

section Setup

variable {s : Interrupts} {card : Bool}

theorem idtSetGate_present (num v : UInt8) (base : UInt32) (sel : UInt16) (flags : UInt8) :
    ((idtSetGate num base sel flags s).idt v).present =
      if v = num then flags &&& 0x80 != 0 else (s.idt v).present := by
  unfold idtSetGate
  dsimp only
  split
  next hv => rw [hv, Function.update_self]; rfl
  next hv => rw [Function.update_of_ne hv]

theorem setGates_present (isr : UInt8 → UInt32) (nums : List Nat) (v : UInt8) :
    ((setGates isr nums s).idt v).present =
      if v ∈ nums.map UInt8.ofNat then true else (s.idt v).present := by
  induction nums generalizing s with
  | nil => rfl
  | cons num nums ih =>
      have hstep := ih (s := idtSetGate (UInt8.ofNat num) (isr (UInt8.ofNat num)) 0x08 0x8E s)
      rw [idtSetGate_present] at hstep
      refine hstep.trans ?_
      rw [List.map_cons]
      by_cases hv : v = UInt8.ofNat num
      · have hmem : v ∈ UInt8.ofNat num :: nums.map UInt8.ofNat := by
          rw [hv]
          exact List.mem_cons_self
        rw [if_pos hv, if_pos hmem]
        exact ite_self true
      · rw [if_neg hv]
        simp only [List.mem_cons, hv, false_or]

theorem setGates_frame (isr : UInt8 → UInt32) (nums : List Nat) :
    (setGates isr nums s).isrHandlers = s.isrHandlers ∧
      (setGates isr nums s).master = s.master := by
  induction nums generalizing s with
  | nil => exact ⟨rfl, rfl⟩
  | cons num nums ih =>
      exact ih (s := idtSetGate (UInt8.ofNat num) (isr (UInt8.ofNat num)) 0x08 0x8E s)

theorem picRemap_master : (picRemap s).master = ⟨0xFC, 0x20, []⟩ := rfl

theorem outb_idt (port : UInt16) (val : UInt8) : (outb port val s).idt = s.idt := by
  unfold outb
  split_ifs <;> rfl

theorem picRemap_idt : (picRemap s).idt = s.idt := by
  simp only [picRemap, List.foldl_cons, List.foldl_nil, outb_idt]

theorem idtInit_inv (isr : UInt8 → UInt32) (s : Interrupts) :
    DriversInv false (idtInit isr s) := by
  have hnums (v : UInt8) : v ∈ (List.range 34).map UInt8.ofNat ↔ v < 34 := by
    rw [List.mem_map, UInt8.lt_iff_toNat_lt]
    constructor
    · rintro ⟨n, hn, rfl⟩
      rw [List.mem_range] at hn
      rw [UInt8.toNat_ofNat', Nat.mod_eq_of_lt (by omega)]
      exact hn
    · exact fun hv => ⟨v.toNat, List.mem_range.mpr hv, UInt8.ofNat_toNat⟩
  let s₀ := picRemap { s with idt := fun _ => ⟨0, 0, 0, 0, 0⟩, isrHandlers := fun _ => none }
  have hinit : idtInit isr s =
      idtSetGate 128 (isr 128) 0x08 0xEE (setGates isr (List.range 34) s₀) := rfl
  obtain ⟨hhandlers, hmaster⟩ := @setGates_frame s₀ isr (List.range 34)
  have hmaster' : (idtInit isr s).master = ⟨0xFC, 0x20, []⟩ := by
    rw [hinit]
    exact hmaster.trans picRemap_master
  have hhandlers' : (idtInit isr s).isrHandlers = fun _ => none := by
    rw [hinit]
    exact hhandlers
  refine ⟨fun v => ?_, by rw [hmaster'], by rw [hmaster'], by rw [hmaster']; rfl,
    fun v hv => absurd (by rw [hhandlers']) hv, nofun⟩
  rw [hinit, idtSetGate_present, setGates_present]
  by_cases hlast : v = 128
  · rw [if_pos hlast]
    exact iff_of_true rfl (Or.inr hlast)
  · rw [if_neg hlast, ← hnums v, or_iff_left hlast]
    split
    next hmem => exact iff_of_true rfl hmem
    next hmem =>
      refine iff_of_false ?_ hmem
      have hzero : ¬(IdtEntry.mk 0 0 0 0 0).present = true := by decide
      rw [picRemap_idt]
      exact hzero

theorem unmaskLine_eq (hready : s.master.pending = []) (line : UInt8) :
    unmaskLine line s =
      { s with master := { s.master with mask := s.master.mask &&& ~~~(1 <<< line) } } := by
  simp only [unmaskLine, outb, Pic.data, hready]
  rfl

theorem DriversInv.register (hinv : DriversInv card s) {num : UInt8} (h : IsrHandler)
    (hnum : num = 32 ∨ num = 33 ∨ num = 128) : DriversInv card (idtRegisterHandler num h s) := by
  refine { hinv with handlers := fun v hv => ?_, cardHandler := fun hcard => ?_ }
  · by_cases heq : v = num
    · rcases hnum with rfl | rfl | rfl
      · exact Or.inl heq
      · exact Or.inr (Or.inl heq)
      · exact Or.inr (Or.inr (Or.inl heq))
    · refine hinv.handlers v ?_
      simpa [idtRegisterHandler, Function.update_of_ne heq] using hv
  · have hne : (35 : UInt8) ≠ num := by rcases hnum with rfl | rfl | rfl <;> decide
    simpa [idtRegisterHandler, Function.update_of_ne hne] using hinv.cardHandler hcard

/-- A line of `pic_remap` is open already. -/
theorem DriversInv.unmask (hinv : DriversInv card s) {line : UInt8} (hline : line = 0 ∨ line = 1) :
    DriversInv card (unmaskLine line s) := by
  rw [unmaskLine_eq hinv.ready]
  refine { hinv with mask := ?_ }
  dsimp only
  rw [hinv.mask]
  rcases hline with rfl | rfl <;> cases card <;> rfl

theorem DriversInv.ne2000 (hinv : DriversInv card s) : DriversInv true (ne2000InitIrq s) := by
  unfold ne2000InitIrq
  rw [unmaskLine_eq (by exact hinv.ready)]
  refine { hinv with mask := ?_, handlers := fun v hv => ?_, cardHandler := fun _ => ?_ }
  · change s.master.mask &&& _ = _
    rw [hinv.mask]
    cases card <;> rfl
  · by_cases heq : v = 35
    · exact Or.inr (Or.inr (Or.inr ⟨heq, rfl⟩))
    · have hold := hinv.handlers v (by
        simpa [idtRegisterHandler, ne2000Irq, Function.update_of_ne heq] using hv)
      exact hold.imp_right (Or.imp_right (Or.imp_right fun h => absurd h.1 heq))
  · exact Function.update_self (35 : UInt8) (some IsrHandler.neIrqHandler) s.isrHandlers

/-- Registering a handler and opening a line sets no gate. -/
theorem DriversInv.initDriver (hinv : DriversInv card s) (call : DriverInit) :
    DriversInv (card || decide (call = .ne2000Init)) (initDriver s call) := by
  cases call with
  | timerInit freq =>
      rw [decide_eq_false nofun, Bool.or_false]
      change DriversInv card (timerInit freq s)
      rw [timerInit]
      split
      · exact hinv
      · have hregistered := hinv.register .timerHandler (Or.inl rfl)
        have hdivided : DriversInv card { idtRegisterHandler 32 .timerHandler s with
            timerDivisor := (1193180 / freq) &&& 0xFFFF } :=
          ⟨hregistered.gates, hregistered.ready, hregistered.offset, hregistered.mask,
            hregistered.handlers, hregistered.cardHandler⟩
        exact hdivided.unmask (Or.inl rfl)
  | keyboardInit =>
      rw [decide_eq_false nofun, Bool.or_false]
      exact (hinv.register .keyboardHandler (Or.inr (Or.inl rfl))).unmask (Or.inr rfl)
  | ne2000Init =>
      rw [decide_eq_true rfl, Bool.or_true]
      exact hinv.ne2000
  | syscallInit =>
      rw [decide_eq_false nofun, Bool.or_false]
      exact hinv.register .syscallHandler (Or.inr (Or.inr rfl))

theorem DriversInv.initDrivers (hinv : DriversInv card s) (calls : List DriverInit) :
    DriversInv (card || decide (.ne2000Init ∈ calls)) (calls.foldl Dosfs.initDriver s) := by
  induction calls generalizing s card with
  | nil => simpa using hinv
  | cons call calls ih =>
      have hnext := ih (hinv.initDriver call)
      rw [Bool.or_assoc, ← Bool.decide_or] at hnext
      simpa [List.mem_cons, eq_comm] using hnext

/-- The gates cover what the drivers use exactly as long as the card is not among them. -/
theorem DriversInv.gated_iff (hinv : DriversInv card s) : Gated s ↔ card = false := by
  constructor
  · intro hgated
    by_contra hcard
    rw [Bool.not_eq_false] at hcard
    have hgate := (hinv.gates 35).mp (hgated.handlers 35 _ (hinv.cardHandler hcard))
    revert hgate
    decide
  · rintro rfl
    refine ⟨fun n hn hopen => ?_, fun v h hv => ?_⟩
    · rw [hinv.gates]
      have hlow : ∀ n < 8, !(0xFC : UInt8).toNat.testBit n → UInt8.ofNat (32 + n) < 34 := by decide
      rw [Pic.unmasked, hinv.mask] at hopen
      exact Or.inl (hlow n hn hopen)
    · rw [hinv.gates]
      rcases hinv.handlers v (by rw [hv]; exact nofun) with rfl | rfl | rfl | ⟨-, hfalse⟩
      · exact Or.inl (by decide)
      · exact Or.inl (by decide)
      · exact Or.inr rfl
      · exact absurd hfalse Bool.false_ne_true

/-- A handler behind a gate is reached. -/
theorem Gated.takeInterrupt (hgated : Gated s) {v : UInt8} {h : IsrHandler}
    (hv : s.isrHandlers v = some h) : takeInterrupt v s = .handler h := by
  rw [Dosfs.takeInterrupt, if_pos (hgated.handlers v h hv)]
  unfold irqHandler isrHandler
  rw [hv]
  exact ite_self _

/-- No driver handles an exception of the processor, so that the kernel stops at one. -/
theorem DriversInv.exception_halts (hinv : DriversInv card s) {v : UInt8} (hv : v < 32) :
    isrHandler v s = .halted := by
  have hnone : s.isrHandlers v = none := by
    by_contra hsome
    rcases hinv.handlers v hsome with rfl | rfl | rfl | ⟨rfl, -⟩ <;> exact absurd hv (by decide)
  rw [isrHandler, hnone]
  exact if_pos hv

/-- The processor stops at an interrupt without a gate. -/
theorem DriversInv.halts (hinv : DriversInv card s) {v : UInt8} (hv : ¬(v < 34 ∨ v = 128)) :
    takeInterrupt v s = .halted := by
  rw [takeInterrupt, if_neg (mt (hinv.gates v).mp hv), hinv.exception_halts (by decide)]

end Setup

/-! ## Any order of the drivers -/

/-- After any calls of the drivers, every open line has a gate and every handler is reached,
exactly when `ne2000_init` was not called. -/
theorem driver_gates_iff (isr : UInt8 → UInt32) (s : Interrupts) (calls : List DriverInit) :
    let s := calls.foldl initDriver (idtInit isr s)
    s.master.offset = 32 ∧
      ((Gated s ∧ ∀ v h, s.isrHandlers v = some h → takeInterrupt v s = .handler h) ↔
        .ne2000Init ∉ calls) := by
  have hinv := (idtInit_inv isr s).initDrivers calls
  refine ⟨hinv.offset, ?_⟩
  have hgated := hinv.gated_iff
  rw [Bool.false_or, decide_eq_false_iff_not] at hgated
  rw [← hgated]
  exact ⟨And.left, fun h => ⟨h, fun _ _ hv => h.takeInterrupt hv⟩⟩

/-- The tables and controllers before `idt_init`, as a machine may start. -/
def resetInterrupts : Interrupts :=
  ⟨fun _ => ⟨0, 0, 0, 0, 0⟩, fun _ => none, ⟨0xFF, 0x08, []⟩, ⟨0xFF, 0x70, []⟩, 0⟩

/-- `ne2000_init` opens line 3, vector 35 has no gate, and the first interrupt halts. -/
theorem ne2000_without_gate :
    let s := [DriverInit.ne2000Init].foldl initDriver (idtInit (fun _ => 0) resetInterrupts)
    s.master.unmasked 3 = true ∧ (s.idt 35).present = false ∧
      s.isrHandlers 35 = some .neIrqHandler ∧ takeInterrupt 35 s = .halted ∧ ¬ Gated s := by
  have hinv := (idtInit_inv (fun _ => 0) resetInterrupts).initDrivers [.ne2000Init]
  refine ⟨?_, ?_, hinv.cardHandler rfl, hinv.halts (by decide), ?_⟩
  · rw [Pic.unmasked, hinv.mask]
    rfl
  · rw [← Bool.not_eq_true, hinv.gates]
    decide
  · rw [hinv.gated_iff]
    decide

end Dosfs
