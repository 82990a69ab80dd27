import Dosfs.Tools.CpuSim

/-!
# Instruction texts

How the instructions of the simulator are written. The blanks between the parts do not
matter, and each operand is read back as what it was written for.
-/

namespace Dosfs

/-! ## Operands -/

/-- The ways to write an operand. -/
inductive Operand
  | register (r : CpuReg)
  | decimal (n : Nat)
  | negative (n : Nat)
  | hexadecimal (n : Nat)
  | address (n : Nat)
  | hexAddress (n : Nat)
  deriving DecidableEq

namespace Operand

def text : Operand → List UInt8
  | .register r => r.name
  | .decimal n => numeral 10 n
  | .negative n => 0x2D :: numeral 10 n
  | .hexadecimal n => 0x30 :: 0x78 :: numeral 16 n
  | .address n => 0x5B :: (numeral 10 n ++ [0x5D])
  | .hexAddress n => 0x5B :: 0x30 :: 0x78 :: (numeral 16 n ++ [0x5D])

/-- What an operand comes to. An address stands for itself, not for what lies there. -/
def value (reg : CpuReg → UInt32) : Operand → UInt32
  | .register r => reg r
  | .negative n => -UInt32.ofNat n
  | .decimal n | .hexadecimal n | .address n | .hexAddress n => UInt32.ofNat n

/-- Where a result goes: an operand that is no register keeps nothing. -/
def put (val : UInt32) (cpu : CpuSim) : Operand → CpuSim
  | .register r => cpu.setReg r val
  | _ => cpu

end Operand

/-! ## Numbers -/

theorem uint32_ofNat_shift (n d : Nat) :
    (UInt32.ofNat n <<< 4) + UInt32.ofNat d = UInt32.ofNat (16 * n + d) := by
  rw [UInt32.ofNat_add, UInt32.ofNat_mul, UInt32.mul_comm]
  refine congrArg (· + UInt32.ofNat d) (UInt32.toNat.inj ?_)
  rw [UInt32.toNat_shiftLeft, UInt32.toNat_mul, Nat.shiftLeft_eq]
  rfl

/-- Reading a text in base sixteen. -/
theorem hexLoop_eq {text : List UInt8} (htext : ∀ c ∈ text, c ∈ digitAlphabet.take 16) :
    hexLoop text =
      UInt32.ofNat (text.foldl (fun n c => 16 * n + digitAlphabet.idxOf c) 0) := by
  have hdigit : ∀ c ∈ digitAlphabet.take 16, hexDigit c = UInt32.ofNat (digitAlphabet.idxOf c) := by
    simp [digitAlphabet, hexDigit]
  rw [hexLoop, show (0 : UInt32) = UInt32.ofNat 0 from rfl]
  generalize 0 = n
  induction text generalizing n with
  | nil => rfl
  | cons c text ih =>
      rw [List.foldl_cons, List.foldl_cons, hdigit c (htext c List.mem_cons_self),
        uint32_ofNat_shift]
      exact ih (fun c hc => htext c (List.mem_cons_of_mem _ hc)) _

theorem uint32_ofNat_ten {n : Nat} {c : UInt8} (hc : c ∈ digitAlphabet.take 10) :
    UInt32.ofNat n * 10 + (c - 0x30).toUInt32 =
      UInt32.ofNat (10 * n + digitAlphabet.idxOf c) := by
  have hdigit : ∀ c ∈ digitAlphabet.take 10,
      (c - 0x30).toUInt32 = UInt32.ofNat (digitAlphabet.idxOf c) := by simp [digitAlphabet]
  rw [hdigit c hc, UInt32.ofNat_add, UInt32.ofNat_mul, UInt32.mul_comm]
  rfl

theorem mem_sixteen_of_mem_ten {c : UInt8} (hc : c ∈ digitAlphabet.take 10) :
    c ∈ digitAlphabet.take 16 :=
  List.take_subset_take_left _ (by decide) hc

theorem isDigit_of_mem {c : UInt8} (hc : c ∈ digitAlphabet.take 10) : isDigit c = true := by
  have hdigit : ∀ c ∈ digitAlphabet.take 10, isDigit c = true := by simp [digitAlphabet, isDigit]
  exact hdigit c hc

/-- Reading a text in base ten, in the two ways of the source. -/
theorem addressLoop_eq {text : List UInt8} (htext : ∀ c ∈ text, c ∈ digitAlphabet.take 10) :
    addressLoop text =
      UInt32.ofNat (text.foldl (fun n c => 10 * n + digitAlphabet.idxOf c) 0) := by
  rw [addressLoop, show (0 : UInt32) = UInt32.ofNat 0 from rfl]
  generalize 0 = n
  induction text generalizing n with
  | nil => rfl
  | cons c text ih =>
      have hc := htext c List.mem_cons_self
      rw [List.foldl_cons, List.foldl_cons, if_pos (isDigit_of_mem hc), uint32_ofNat_ten hc]
      exact ih (fun c hc => htext c (List.mem_cons_of_mem _ hc)) _

theorem immediateLoop_eq {text : List UInt8} (htext : ∀ c ∈ text, c ∈ digitAlphabet.take 10) :
    immediateLoop 0 text =
      UInt32.ofNat (text.foldl (fun n c => 10 * n + digitAlphabet.idxOf c) 0) := by
  rw [show (0 : UInt32) = UInt32.ofNat 0 from rfl]
  generalize 0 = n
  induction text generalizing n with
  | nil => rfl
  | cons c text ih =>
      have hc := htext c List.mem_cons_self
      rw [immediateLoop, List.foldl_cons, if_pos (isDigit_of_mem hc), uint32_ofNat_ten hc]
      exact ih (fun c hc => htext c (List.mem_cons_of_mem _ hc)) _

section Numerals

variable (n : Nat)

theorem decimal_digits : ∀ c ∈ numeral 10 n, c ∈ digitAlphabet.take 10 :=
  (numeral_isNumeral (by decide) (by decide) n).digits

theorem hexLoop_numeral : hexLoop (numeral 16 n) = UInt32.ofNat n := by
  have h := numeral_isNumeral (by decide : 2 ≤ 16) (by decide) n
  rw [hexLoop_eq h.digits, h.value_eq]

theorem addressLoop_numeral : addressLoop (numeral 10 n) = UInt32.ofNat n := by
  have h := numeral_isNumeral (by decide : 2 ≤ 10) (by decide) n
  rw [addressLoop_eq h.digits, h.value_eq]

theorem immediateLoop_numeral : immediateLoop 0 (numeral 10 n) = UInt32.ofNat n := by
  have h := numeral_isNumeral (by decide : 2 ≤ 10) (by decide) n
  rw [immediateLoop_eq h.digits, h.value_eq]

/-- A numeral in base ten begins neither a sign nor the base sixteen. -/
theorem immediateValue_numeral : immediateValue (numeral 10 n) = UInt32.ofNat n := by
  have hdigits := decimal_digits n
  have hvalue := immediateLoop_numeral n
  generalize numeral 10 n = text at hdigits hvalue
  unfold immediateValue
  split
  next => exact absurd (hdigits 0x78 (by simp)) (by decide)
  next => exact absurd (hdigits 0x2D (by simp)) (by decide)
  next => exact hvalue

end Numerals

/-! ## Reading an operand -/

theorem findReg_name (r : CpuReg) : findReg r.name = some r := by
  cases r <;> decide

theorem findReg_eq_none {c : UInt8} {s : List UInt8} (hc : c ∈ 0x2D :: digitAlphabet.take 10) :
    findReg (c :: s) = none := by
  have hletter : ∀ c ∈ 0x2D :: digitAlphabet.take 10, c ≠ 0x65 := by simp [digitAlphabet]
  refine List.find?_eq_none.mpr fun r _ h => ?_
  have hname : r.name = c :: s := eq_of_beq h
  have hhead : r.name.head? = some 0x65 := by cases r <;> rfl
  rw [hname] at hhead
  exact hletter c hc (Option.some.inj hhead)

/-- The characters that operands are written with. -/
theorem Operand.text_plain (o : Operand) :
    o.text ≠ [] ∧ ∀ c ∈ o.text, c ≠ 0x20 ∧ c ≠ 0x2C := by
  have hdigit : ∀ c ∈ digitAlphabet.take 16, c ≠ 0x20 ∧ c ≠ 0x2C := by simp [digitAlphabet]
  have hten (n : Nat) (c : UInt8) (hc : c ∈ numeral 10 n) : c ≠ 0x20 ∧ c ≠ 0x2C :=
    hdigit c (mem_sixteen_of_mem_ten (decimal_digits n c hc))
  have hsixteen (n : Nat) (c : UInt8) (hc : c ∈ numeral 16 n) : c ≠ 0x20 ∧ c ≠ 0x2C :=
    hdigit c ((numeral_isNumeral (by decide) (by decide) n).digits c hc)
  cases o with
  | register r => cases r <;> simp [Operand.text, CpuReg.name, ascii]
  | decimal n => exact ⟨(numeral_isNumeral (by decide) (by decide) n).nonempty, hten n⟩
  | negative n => exact ⟨List.cons_ne_nil _ _, List.forall_mem_cons.mpr ⟨by decide, hten n⟩⟩
  | hexadecimal n =>
      exact ⟨List.cons_ne_nil _ _, List.forall_mem_cons.mpr ⟨by decide,
        List.forall_mem_cons.mpr ⟨by decide, hsixteen n⟩⟩⟩
  | address n =>
      refine ⟨List.cons_ne_nil _ _, List.forall_mem_cons.mpr ⟨by decide, fun c hc => ?_⟩⟩
      rcases List.mem_append.mp hc with hc | hc
      · exact hten n c hc
      · rw [List.mem_singleton.mp hc]
        decide
  | hexAddress n =>
      refine ⟨List.cons_ne_nil _ _, List.forall_mem_cons.mpr ⟨by decide,
        List.forall_mem_cons.mpr ⟨by decide, List.forall_mem_cons.mpr ⟨by decide, fun c hc => ?_⟩⟩⟩⟩
      rcases List.mem_append.mp hc with hc | hc
      · exact hsixteen n c hc
      · rw [List.mem_singleton.mp hc]
        decide

theorem dropWhile_eq_of_head {p : UInt8 → Bool} {s : List UInt8} (h : ∀ c ∈ s, p c = false) :
    s.dropWhile p = s := by
  cases s with
  | nil => rfl
  | cons c s => rw [List.dropWhile_cons, h c List.mem_cons_self, if_neg Bool.false_ne_true]

theorem takeWhile_bracket {s : List UInt8} (h : ∀ c ∈ s, c ≠ 0x5D) :
    (s ++ [0x5D]).takeWhile (· != 0x5D) = s := by
  rw [List.takeWhile_append_of_pos fun c hc => by simpa using h c hc]
  exact List.append_nil s

section Reading

variable (o : Operand) (cpu : CpuSim)

theorem Operand.text_dropWhile : o.text.dropWhile (· == 0x20) = o.text :=
  dropWhile_eq_of_head fun c hc => by simpa using (o.text_plain.2 c hc).1

/-- An operand is read back. -/
theorem parseOperand_text : (parseOperand o.text cpu).2 = o.value cpu.reg := by
  have hbracket : ∀ c ∈ digitAlphabet.take 16, c ≠ 0x5D := by simp [digitAlphabet]
  have hten (n : Nat) (c : UInt8) (hc : c ∈ numeral 10 n) : c ≠ 0x5D :=
    hbracket c (mem_sixteen_of_mem_ten (decimal_digits n c hc))
  rw [parseOperand, o.text_dropWhile]
  cases o with
  | register r =>
      have hname : ∀ s, r.name ≠ 0x5B :: s := by
        intro s h
        cases r <;> exact absurd (List.cons.inj h).1 (by decide)
      dsimp only [Operand.text, Operand.value]
      split
      next heq => exact absurd heq (hname _)
      next heq => exact absurd heq (hname _)
      next => rw [findReg_name]
  | decimal n =>
      have hdigits := decimal_digits n
      have hvalue := immediateValue_numeral n
      have hne := (numeral_isNumeral (by decide : 2 ≤ 10) (by decide) n).nonempty
      dsimp only [Operand.text, Operand.value]
      generalize numeral 10 n = text at hdigits hvalue hne ⊢
      obtain ⟨c, text, rfl⟩ := List.exists_cons_of_ne_nil hne
      have hc := hdigits c List.mem_cons_self
      split
      next heq => exact absurd ((List.cons.inj heq).1 ▸ hc) (by decide)
      next heq => exact absurd ((List.cons.inj heq).1 ▸ hc) (by decide)
      next =>
        rw [findReg_eq_none (List.mem_cons_of_mem _ hc)]
        exact hvalue
  | negative n =>
      dsimp only [Operand.text, Operand.value]
      split
      next heq => exact absurd (List.cons.inj heq).1 (by decide)
      next heq => exact absurd (List.cons.inj heq).1 (by decide)
      next =>
        rw [findReg_eq_none List.mem_cons_self]
        exact congrArg Neg.neg (immediateLoop_numeral n)
  | hexadecimal n =>
      dsimp only [Operand.text, Operand.value]
      split
      next heq => exact absurd (List.cons.inj heq).1 (by decide)
      next heq => exact absurd (List.cons.inj heq).1 (by decide)
      next =>
        rw [findReg_eq_none (by decide)]
        exact hexLoop_numeral n
  | address n =>
      have hdigits := decimal_digits n
      have hvalue := addressLoop_numeral n
      have hwhile := takeWhile_bracket (hten n)
      dsimp only [Operand.text, Operand.value]
      generalize numeral 10 n = text at hdigits hvalue hwhile ⊢
      split
      next heq =>
        -- an `x` is no digit
        obtain ⟨-, hx⟩ := List.cons.inj heq
        have hmem : (0x78 : UInt8) ∈ text ++ [0x5D] := by rw [hx]; simp
        rcases List.mem_append.mp hmem with hmem | hmem
        · exact absurd (hdigits _ hmem) (by decide)
        · exact absurd (List.mem_singleton.mp hmem) (by decide)
      next heq =>
        obtain ⟨-, rfl⟩ := List.cons.inj heq
        rw [hwhile]
        exact hvalue
      next hno => exact absurd rfl (hno _)
  | hexAddress n =>
      have hwhile := takeWhile_bracket fun c hc =>
        hbracket c ((numeral_isNumeral (by decide : 2 ≤ 16) (by decide) n).digits c hc)
      change hexLoop ((numeral 16 n ++ [0x5D]).takeWhile (· != 0x5D)) = _
      rw [hwhile]
      exact hexLoop_numeral n

/-- A result goes where it was written for. -/
theorem setOperand_text (val : UInt32) : setOperand o.text val cpu = o.put val cpu := by
  rw [setOperand, o.text_dropWhile]
  cases o with
  | register r =>
      have hname : ∀ s, r.name ≠ 0x5B :: s := by
        intro s h
        cases r <;> exact absurd (List.cons.inj h).1 (by decide)
      dsimp only [Operand.text, Operand.put]
      split
      next heq => exact absurd heq (hname _)
      next => rw [findReg_name]
  | decimal n =>
      have hdigits := decimal_digits n
      have hne := (numeral_isNumeral (by decide : 2 ≤ 10) (by decide) n).nonempty
      dsimp only [Operand.text, Operand.put]
      generalize numeral 10 n = text at hdigits hne ⊢
      obtain ⟨c, text, rfl⟩ := List.exists_cons_of_ne_nil hne
      have hc := hdigits c List.mem_cons_self
      split
      next heq => exact absurd ((List.cons.inj heq).1 ▸ hc) (by decide)
      next => rw [findReg_eq_none (List.mem_cons_of_mem _ hc)]
  | negative n =>
      dsimp only [Operand.text, Operand.put]
      split
      next heq => exact absurd (List.cons.inj heq).1 (by decide)
      next => rw [findReg_eq_none List.mem_cons_self]
  | hexadecimal n =>
      dsimp only [Operand.text, Operand.put]
      split
      next heq => exact absurd (List.cons.inj heq).1 (by decide)
      next => rw [findReg_eq_none (by decide)]
  | address n => rfl
  | hexAddress n => rfl

end Reading

/-! ## Instructions -/

/-- An instruction as it is meant. -/
structure Instr where
  mnemonic : Mnemonic
  dst : Option Operand
  src : Option Operand

/-- Only so much of an operand is copied. -/
def Operand.Fits (o : Operand) : Prop := o.text.length ≤ 31

instance (o : Operand) : Decidable o.Fits := inferInstanceAs (Decidable (_ ≤ _))

/-- What separates the operands. -/
def Separates (sep : List UInt8) : Prop := ∀ c ∈ sep, c = 0x20 ∨ c = 0x2C

instance (sep : List UInt8) : Decidable (Separates sep) :=
  inferInstanceAs (Decidable (∀ c ∈ sep, _))

/-- The texts of an instruction. Behind the source operand nothing may stand, not even a
blank. -/
inductive Writes : List UInt8 → Instr → Prop
  | bare (m : Mnemonic) (blanks : Nat) :
      Writes (m.name ++ List.replicate blanks 0x20) ⟨m, none, none⟩
  | one (m : Mnemonic) (blanks : Nat) (dst : Operand) (sep : List UInt8) (hdst : dst.Fits)
      (hsep : Separates sep) :
      Writes (m.name ++ 0x20 :: (List.replicate blanks 0x20 ++ (dst.text ++ sep)))
        ⟨m, some dst, none⟩
  | two (m : Mnemonic) (blanks : Nat) (dst : Operand) (sep : List UInt8) (src : Operand)
      (hdst : dst.Fits) (hsep : Separates sep) (hne : sep ≠ []) (hsrc : src.Fits) :
      Writes (m.name ++ 0x20 :: (List.replicate blanks 0x20 ++ (dst.text ++ (sep ++ src.text))))
        ⟨m, some dst, some src⟩

theorem findMnemonic_name (m : Mnemonic) : findMnemonic m.name = some m := by
  cases m <;> decide

theorem Mnemonic.name_plain (m : Mnemonic) :
    m.name.length ≤ 15 ∧ ∀ c ∈ m.name, (c == 0x20) = false := by
  cases m <;> simp [Mnemonic.name, ascii]

/-- A token is copied up to what stops it. -/
theorem copyToken_append {stop : UInt8 → Bool} {room : Nat} {token rest : List UInt8}
    (hroom : token.length ≤ room) (htoken : ∀ c ∈ token, stop c = false)
    (hrest : ∀ c ∈ rest.head?, stop c = true) :
    copyToken stop room (token ++ rest) = (token, rest) := by
  induction token generalizing room with
  | nil =>
      cases room with
      | zero => cases rest <;> rfl
      | succ room =>
          cases rest with
          | nil => rfl
          | cons c rest =>
              rw [List.nil_append, copyToken, hrest c rfl, if_pos rfl]
  | cons c token ih =>
      obtain ⟨hc, htoken⟩ := List.forall_mem_cons.mp htoken
      obtain ⟨room, rfl⟩ := Nat.exists_eq_add_of_le' (Nat.one_le_of_lt hroom)
      rw [List.cons_append, copyToken, hc, if_neg Bool.false_ne_true,
        ih (Nat.le_of_succ_le_succ hroom) htoken]

theorem dropWhile_append {p : UInt8 → Bool} {s rest : List UInt8} (hs : ∀ c ∈ s, p c = true)
    (hrest : ∀ c ∈ rest, p c = false) : (s ++ rest).dropWhile p = rest := by
  rw [List.dropWhile_append_of_pos hs, dropWhile_eq_of_head hrest]

/-- The text of an operand that may be missing. -/
def operandText (o : Option Operand) : List UInt8 := (o.map Operand.text).getD []

theorem separates_iff {sep : List UInt8} :
    Separates sep ↔ ∀ c ∈ sep, (c == 0x20 || c == 0x2C) = true := by
  simp [Separates]

/-- The separators behind the first operand, and the second one, which ends the text. -/
theorem tokens_of_name (m : Mnemonic) (blanks : Nat) {dst sep src : List UInt8}
    (hdst : dst.length ≤ 31) (hplain : ∀ c ∈ dst, c ≠ 0x20 ∧ c ≠ 0x2C) (hsep : Separates sep)
    (hsrc : src.length ≤ 31) (hplain' : ∀ c ∈ src, c ≠ 0x20 ∧ c ≠ 0x2C)
    (hhead : dst = [] → sep = [] ∧ src = []) (hne : src ≠ [] → sep ≠ []) :
    tokens (m.name ++ 0x20 :: (List.replicate blanks 0x20 ++ (dst ++ (sep ++ src)))) =
      ⟨m.name, dst, src⟩ := by
  have hblank (c : UInt8) (hc : c ∈ List.replicate blanks 0x20) : (c == 0x20) = true :=
    beq_iff_eq.mpr (List.eq_of_mem_replicate hc)
  have hop := copyToken_append m.name_plain.1 m.name_plain.2
    (fun c hc => by obtain rfl := Option.some.inj hc; rfl :
      ∀ c ∈ (0x20 :: (List.replicate blanks 0x20 ++ (dst ++ (sep ++ src)))).head?,
        (c == 0x20) = true)
  have hskip : (0x20 :: (List.replicate blanks 0x20 ++ (dst ++ (sep ++ src)))).dropWhile
      (· == 0x20) = dst ++ (sep ++ src) := by
    rw [List.dropWhile_cons, if_pos (beq_self_eq_true _), List.dropWhile_append_of_pos hblank]
    cases dst with
    | nil =>
        obtain ⟨rfl, rfl⟩ := hhead rfl
        rfl
    | cons c dst =>
        have hc : (c == 0x20) = false := by simpa using (hplain c List.mem_cons_self).1
        rw [List.cons_append, List.dropWhile_cons, hc, if_neg Bool.false_ne_true]
  have hfirst : copyToken (fun c => c == 0x2C || c == 0x20) 31 (dst ++ (sep ++ src)) =
      (dst, sep ++ src) := by
    refine copyToken_append hdst (fun c hc => by simpa using (hplain c hc).symm) ?_
    intro c hc
    cases sep with
    | nil =>
        obtain rfl : src = [] := by
          by_contra h
          exact hne h rfl
        exact absurd hc (Option.not_mem_none c)
    | cons d sep =>
        obtain rfl := Option.some.inj hc
        rw [Bool.or_comm]
        exact separates_iff.mp hsep d List.mem_cons_self
  have hbetween : (sep ++ src).dropWhile (fun c => c == 0x20 || c == 0x2C) = src :=
    dropWhile_append (separates_iff.mp hsep) fun c hc => by simpa using hplain' c hc
  have hsecond : copyToken (fun _ => false) 31 src = (src, []) := by
    have hcopy := @copyToken_append (fun _ => false) 31 src [] hsrc (fun _ _ => rfl)
      fun c hc => absurd hc (Option.not_mem_none c)
    rwa [List.append_nil] at hcopy
  rw [tokens, hop]
  dsimp only
  rw [hskip, hfirst]
  dsimp only
  rw [hbetween, hsecond]

/-- The parts of an instruction are read back. -/
theorem tokens_of_writes {text : List UInt8} {i : Instr} (h : Writes text i) :
    tokens text = ⟨i.mnemonic.name, operandText i.dst, operandText i.src⟩ := by
  have hnone : ∀ c ∈ ([] : List UInt8), c ≠ 0x20 ∧ c ≠ 0x2C := nofun
  have hshort : ([] : List UInt8).length ≤ 31 := Nat.zero_le 31
  cases h with
  | bare m blanks =>
      cases blanks with
      | zero => cases m <;> decide
      | succ blanks =>
          have htokens := tokens_of_name m blanks hshort hnone (show Separates [] from nofun)
            hshort hnone (fun _ => ⟨rfl, rfl⟩) fun hne => absurd rfl hne
          rwa [List.append_nil, List.nil_append, List.append_nil] at htokens
  | one m blanks dst sep hdst hsep =>
      have htokens := tokens_of_name m blanks hdst dst.text_plain.2 hsep hshort hnone
        (fun hnil => absurd hnil dst.text_plain.1) fun hne => absurd rfl hne
      rw [List.append_nil] at htokens
      exact htokens
  | two m blanks dst sep src hdst hsep hne hsrc =>
      exact tokens_of_name m blanks hdst dst.text_plain.2 hsep hsrc src.text_plain.2
        (fun hnil => absurd hnil dst.text_plain.1) fun _ => hne

/-- The value of an operand that may be missing. -/
def operandValue (reg : CpuReg → UInt32) (o : Option Operand) : UInt32 :=
  (o.map (Operand.value reg)).getD 0

def operandPut (o : Option Operand) (val : UInt32) (cpu : CpuSim) : CpuSim :=
  (o.map (Operand.put val cpu)).getD cpu

theorem parseOperand_operandText (o : Option Operand) (cpu : CpuSim) :
    (parseOperand (operandText o) cpu).2 = operandValue cpu.reg o := by
  cases o with
  | none => rfl
  | some o => exact parseOperand_text o cpu

theorem setOperand_operandText (o : Option Operand) (val : UInt32) (cpu : CpuSim) :
    setOperand (operandText o) val cpu = operandPut o val cpu := by
  cases o with
  | none => rfl
  | some o => exact setOperand_text o cpu val

/-- An instruction does what was written. -/
theorem cpuSimExecute_of_writes {text : List UInt8} {i : Instr} (h : Writes text i)
    (cpu : CpuSim) :
    cpuSimExecute text cpu = performMnemonic (operandText i.dst) (operandValue cpu.reg i.dst)
      (operandValue cpu.reg i.src) (cpu.setReg .eip (cpu.reg .eip + 1)) i.mnemonic := by
  rw [cpuSimExecute, tokens_of_writes h]
  dsimp only
  rw [findMnemonic_name, parseOperand_operandText, parseOperand_operandText]

end Dosfs
