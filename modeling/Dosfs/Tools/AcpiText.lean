import Dosfs.Tools.AcpiSim

/-!
# Commands for the ACPI simulator as they are typed

The texts of the commands that set the simulated registers or ask for them, with blanks
where the source skips them. Behind a hexadecimal number a blank is not skipped: it counts
as a digit.
-/

namespace Dosfs

open Foundation

/-! ## Numbers -/

/-- The ways to write a number. -/
inductive SimNumber
  | decimal (n : Nat)
  | negative (n : Nat)
  | hexadecimal (n : Nat)
  deriving DecidableEq

namespace SimNumber

def text : SimNumber → List UInt8
  | .decimal n => numeral 10 n
  | .negative n => 0x2D :: numeral 10 n
  | .hexadecimal n => 0x30 :: 0x78 :: numeral 16 n

/-- The value that is written with so many blanks behind the number. -/
def written (behind : Nat) : SimNumber → UInt32
  | .decimal n => UInt32.ofNat n
  | .negative n => -UInt32.ofNat n
  | .hexadecimal n => UInt32.ofNat (n * 16 ^ behind)

/-- The number that `event` takes it for: it knows no base but ten. -/
def counted : SimNumber → Int
  | .decimal n => n
  | .negative n => -n
  | .hexadecimal _ => 0

variable (n : Nat) (behind : Nat)

theorem leadingNat_blanks : leadingNat (numeral 10 n ++ blanks behind) = n := by
  have hdigits : ∀ c ∈ numeral 10 n, isDigit c = true := fun c hc =>
    isDigit_of_mem (decimal_digits n c hc)
  cases behind with
  | zero => rw [blanks, List.replicate_zero, List.append_nil, leadingNat_numeral]
  | succ behind =>
      rw [blanks, List.replicate_succ, leadingNat_append hdigits (by decide), leadingNat_numeral]

theorem numeral_ne_nil : numeral 10 n ≠ [] :=
  (numeral_isNumeral (by decide) (by decide : 10 ≤ 16) n).nonempty

theorem atoi_decimal : atoi (numeral 10 n ++ blanks behind) = Int32.ofInt n := by
  rw [atoi_eq, leadingInt_numeral (numeral_ne_nil n) (decimal_digits n), leadingNat_blanks]

theorem atoi_negative : atoi (0x2D :: (numeral 10 n ++ blanks behind)) = Int32.ofInt (-n) := by
  rw [atoi_eq, leadingInt_minus, leadingNat_blanks]

theorem atoi_text (num : SimNumber) :
    atoi (num.text ++ blanks behind) = Int32.ofInt num.counted := by
  cases num with
  | decimal n => exact atoi_decimal n behind
  | negative n => exact atoi_negative n behind
  | hexadecimal n =>
      rw [atoi_eq]
      rfl

/-- The blanks behind a hexadecimal number shift it. -/
theorem hexLoop_blanks :
    hexLoop (numeral 16 n ++ blanks behind) = UInt32.ofNat (n * 16 ^ behind) := by
  have hloop := hexLoop_numeral n
  rw [hexLoop] at hloop ⊢
  rw [List.foldl_append, hloop]
  induction behind generalizing n with
  | zero => rw [Nat.pow_zero, Nat.mul_one]; rfl
  | succ behind ih =>
      rw [blanks, List.replicate_succ, List.foldl_cons]
      have hblank := uint32_ofNat_shift n 0
      rw [Nat.add_zero] at hblank
      have hnext := ih (16 * n) (by rw [← hexLoop, hexLoop_numeral])
      rw [show n * 16 ^ (behind + 1) = 16 * n * 16 ^ behind by ring, ← hnext, ← hblank]
      rfl

theorem parseNum_text (num : SimNumber) :
    parseNum (num.text ++ blanks behind) = num.written behind := by
  cases num with
  | decimal n =>
      dsimp only [text]
      unfold parseNum
      split
      next s heq =>
        -- an `x` is neither a digit nor a blank
        have hx : (0x78 : UInt8) ∈ numeral 10 n ++ blanks behind := by rw [heq]; simp
        rcases List.mem_append.mp hx with hx | hx
        · exact absurd (decimal_digits n _ hx) (by decide)
        · exact absurd (mem_blanks hx) (by decide)
      next =>
        rw [atoi_decimal]
        rfl
  | negative n =>
      change (atoi (0x2D :: (numeral 10 n ++ blanks behind))).toUInt32 = _
      rw [atoi_negative, Int32.ofInt_neg]
      rfl
  | hexadecimal n => exact hexLoop_blanks n behind

/-- A number begins with a character that is not skipped. -/
theorem text_head (num : SimNumber) : ∃ c rest, num.text = c :: rest ∧ c ≠ 0x20 := by
  cases num with
  | decimal n =>
      have hdigit : ∀ c ∈ digitAlphabet.take 10, c ≠ 0x20 := by simp [digitAlphabet]
      obtain ⟨c, rest, htext⟩ := List.exists_cons_of_ne_nil (numeral_ne_nil n)
      refine ⟨c, rest, htext, hdigit c (decimal_digits n c ?_)⟩
      rw [htext]
      exact List.mem_cons_self
  | negative n => exact ⟨_, _, rfl, by decide⟩
  | hexadecimal n => exact ⟨_, _, rfl, by decide⟩

end SimNumber

/-! ## Lines -/

/-- The commands that set the registers or ask for them. -/
inductive SacpiCommand
  | reset
  | state
  | event (num : SimNumber)
  | write (reg : SimReg) (num : SimNumber)
  | read (reg : SimReg)
  deriving DecidableEq

/-- A command, with how many blanks there are in front of it, behind its name, behind the name
of a register, and at its end, beside those that are needed. -/
structure SacpiLine where
  command : SacpiCommand
  front : Nat
  between : Nat
  inner : Nat
  behind : Nat
  deriving DecidableEq

namespace SacpiCommand

def fn : SacpiCommand → SacpiFn
  | .reset => .reset
  | .state => .state
  | .event _ => .event
  | .write _ _ => .write
  | .read _ => .read

/-- What stands behind the name of the command. -/
def args (inner behind : Nat) : SacpiCommand → List UInt8
  | .reset | .state => []
  | .event num => num.text ++ blanks behind
  | .write reg num => reg.name ++ 0x20 :: (blanks inner ++ (num.text ++ blanks behind))
  | .read reg => reg.name ++ blanks behind

/-- The arguments with the blanks in front of them. -/
def tail (between inner behind : Nat) : SacpiCommand → List UInt8
  | .reset | .state => blanks between
  | cmd => 0x20 :: (blanks between ++ cmd.args inner behind)

end SacpiCommand

def SacpiLine.text (line : SacpiLine) : List UInt8 :=
  blanks line.front ++ (line.command.fn.name ++
    line.command.tail line.between line.inner line.behind)

/-! ## Reading a line -/

theorem SacpiFn.name_plain (fn : SacpiFn) :
    fn.name ≠ [] ∧ fn.name.length ≤ 31 ∧ ∀ c ∈ fn.name, (c == 0x20) = false := by
  cases fn <;> simp [SacpiFn.name, ascii]

theorem findSacpiFn_name (fn : SacpiFn) : findSacpiFn fn.name = some fn := by
  cases fn <;> decide

theorem SimReg.name_plain (r : SimReg) :
    r.name ≠ [] ∧ r.name.length ≤ 31 ∧ ∀ c ∈ r.name, (c == 0x20) = false := by
  cases r <;> simp [SimReg.name, ascii]

theorem findSimReg_name (r : SimReg) : findSimReg r.name = some r := by
  cases r <;> decide

/-- A word with something else behind it. -/
theorem copyToken_word {word rest : List UInt8} (hlength : word.length ≤ 31)
    (hword : ∀ c ∈ word, (c == 0x20) = false) :
    copyToken (· == 0x20) 31 (word ++ 0x20 :: rest) = (word, 0x20 :: rest) := by
  refine copyToken_append hlength hword fun c hc => ?_
  obtain rfl := Option.some.inj hc
  rfl

theorem head_ne_of_word {word rest : List UInt8} (hne : word ≠ [])
    (hword : ∀ c ∈ word, (c == 0x20) = false) : ∀ c ∈ (word ++ rest).head?, c ≠ 0x20 := by
  intro c hc
  rw [List.head?_append_of_ne_nil _ hne] at hc
  simpa using hword c (List.mem_of_mem_head? hc)

theorem SacpiCommand.args_head (cmd : SacpiCommand) (inner behind : Nat) :
    ∀ c ∈ (cmd.args inner behind).head?, c ≠ 0x20 := by
  cases cmd with
  | reset => exact fun c hc => absurd hc (Option.not_mem_none c)
  | state => exact fun c hc => absurd hc (Option.not_mem_none c)
  | event num =>
      obtain ⟨c, rest, htext, hc⟩ := num.text_head
      intro d hd
      rw [args, htext, List.cons_append] at hd
      obtain rfl := Option.some.inj hd
      exact hc
  | write reg num => exact head_ne_of_word reg.name_plain.1 reg.name_plain.2.2
  | read reg => exact head_ne_of_word reg.name_plain.1 reg.name_plain.2.2

theorem SacpiCommand.tail_head (cmd : SacpiCommand) (between inner behind : Nat) :
    ∀ c ∈ (cmd.tail between inner behind).head?, (c == 0x20) = true := by
  intro c hc
  cases cmd with
  | reset => exact beq_iff_eq.mpr (mem_blanks (List.mem_of_mem_head? hc))
  | state => exact beq_iff_eq.mpr (mem_blanks (List.mem_of_mem_head? hc))
  | event num => exact beq_iff_eq.mpr (Option.some.inj hc).symm
  | write reg num => exact beq_iff_eq.mpr (Option.some.inj hc).symm
  | read reg => exact beq_iff_eq.mpr (Option.some.inj hc).symm

theorem SacpiCommand.skipSpaces_tail (cmd : SacpiCommand) (between inner behind : Nat) :
    skipSpaces (cmd.tail between inner behind) = cmd.args inner behind := by
  have hbare : skipSpaces (blanks between) = [] := by
    simpa using @skipSpaces_blanks between [] (by simp)
  cases cmd with
  | reset => exact hbare
  | state => exact hbare
  | event num => exact skipSpaces_space ((event num).args_head inner behind)
  | write reg num => exact skipSpaces_space ((write reg num).args_head inner behind)
  | read reg => exact skipSpaces_space ((read reg).args_head inner behind)

/-- The line is taken for the command it was typed for. -/
theorem acpiSimExecuteCommand_text (mem : Memory) (acpi : Acpi) (line : SacpiLine)
    (sim : AcpiSim) :
    acpiSimExecuteCommand mem acpi line.text sim =
      performSacpi mem acpi (line.command.args line.inner line.behind) sim line.command.fn := by
  obtain ⟨hne, hlength, hword⟩ := line.command.fn.name_plain
  have htail := line.command.tail_head line.between line.inner line.behind
  have hargs := line.command.skipSpaces_tail line.between line.inner line.behind
  rw [acpiSimExecuteCommand, SacpiLine.text]
  generalize line.command.tail line.between line.inner line.behind = tail at htail hargs ⊢
  rw [skipSpaces_blanks (head_ne_of_word hne hword)]
  dsimp only
  rw [if_neg (List.append_ne_nil_of_left_ne_nil hne _), copyToken_append hlength hword htail]
  dsimp only
  rw [hargs, findSacpiFn_name]

/-! ## What the commands do -/

theorem sacpiEvent_text (num : SimNumber) (behind : Nat) (sim : AcpiSim) :
    sacpiEvent (num.text ++ blanks behind) sim =
      if Int32.ofInt num.counted < 0 ∨ Int32.ofInt num.counted ≥ 32 then ([.gpeOutOfRange], sim)
      else triggerGpe (Int32.ofInt num.counted) sim := by
  obtain ⟨c, rest, htext, -⟩ := num.text_head
  have hne : num.text ++ blanks behind ≠ [] := by
    rw [htext]
    exact List.cons_ne_nil _ _
  rw [sacpiEvent, if_neg hne, SimNumber.atoi_text]

theorem sacpiWrite_text (reg : SimReg) (num : SimNumber) (inner behind : Nat) (sim : AcpiSim) :
    sacpiWrite (reg.name ++ 0x20 :: (blanks inner ++ (num.text ++ blanks behind))) sim =
      writeSimReg reg (num.written behind) sim := by
  obtain ⟨c, rest, htext, hc⟩ := num.text_head
  have hhead : ∀ d ∈ (num.text ++ blanks behind).head?, d ≠ 0x20 := by
    intro d hd
    rw [htext, List.cons_append] at hd
    obtain rfl := Option.some.inj hd
    exact hc
  have hne : num.text ++ blanks behind ≠ [] := by
    rw [htext]
    exact List.cons_ne_nil _ _
  rw [sacpiWrite, copyToken_word reg.name_plain.2.1 reg.name_plain.2.2]
  dsimp only
  rw [skipSpaces_space hhead, if_neg hne, findSimReg_name, SimNumber.parseNum_text]

/-- The blanks behind the name are taken off again. -/
theorem sacpiRead_text (reg : SimReg) (behind : Nat) (sim : AcpiSim) :
    sacpiRead (reg.name ++ blanks behind) sim = [.register reg (sim.value reg)] := by
  have hne : reg.name ++ blanks behind ≠ [] :=
    List.append_ne_nil_of_left_ne_nil reg.name_plain.1 _
  have htake : (reg.name ++ blanks behind).take 31 =
      reg.name ++ blanks (min (31 - reg.name.length) behind) := by
    rw [List.take_append, List.take_of_length_le reg.name_plain.2.1, blanks, List.take_replicate]
    rfl
  have htrim : (reg.name ++ blanks (min (31 - reg.name.length) behind)).rdropWhile (· == 0x20) =
      reg.name := by
    rw [List.rdropWhile, List.reverse_append, blanks, List.reverse_replicate,
      List.dropWhile_append_of_pos fun c hc => by simpa using List.eq_of_mem_replicate hc,
      dropWhile_eq_of_head fun c hc => reg.name_plain.2.2 c (List.mem_reverse.mp hc),
      List.reverse_reverse]
  rw [sacpiRead, if_neg hne]
  dsimp only
  rw [htake, htrim, findSimReg_name]

end Dosfs
