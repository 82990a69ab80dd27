import Dosfs.Drivers.Console
import Dosfs.Foundation.Run

/-!
# The colours of the screen

A translation of `vga_putchar_at` and `vga_puts_at` of `drivers/vga.c`, and the cells
that are written by a run of calls. A byte from 0x80 on is a negative `char`, and its
sign covers the attribute.
-/

namespace Dosfs

open Foundation

def vgaPutcharAt (vga : Vga) (x y : Int) (c : UInt8) : Vga :=
  if !vga.available then vga
  else if x < 0 ∨ vgaWidth ≤ x ∨ y < 0 ∨ vgaHeight ≤ y then vga
  else vga.store (y * vgaWidth + x) (vgaEntry c vga.colorAttr)

/-- The loop of `vga_puts_at`. -/
def vgaPutsAtLoop (vga : Vga) : Int → Int → List UInt8 → Vga
  | _, _, [] => vga
  | x, y, c :: s =>
      if vgaWidth ≤ x ∨ y < 0 ∨ vgaHeight ≤ y then vga
      else vgaPutsAtLoop (vgaPutcharAt vga x y c) (x + 1) y s

def vgaPutsAt (vga : Vga) (x y : Int) (s : CString) : Vga := vgaPutsAtLoop vga x y s.bytes

/-- The attribute of a cell is its high byte. -/
def cellAttr (entry : UInt16) : UInt8 := (entry >>> 8).toUInt8

theorem cellAttr_vgaEntry (c color : UInt8) :
    cellAttr (vgaEntry c color) = if c < 0x80 then color else 0xFF := by
  have hbits : (vgaEntry c color).toBitVec =
      c.toBitVec.signExtend 16 ||| (color.toBitVec.setWidth 16 <<< 8) := rfl
  have hshift : (vgaEntry c color >>> 8).toBitVec = (vgaEntry c color).toBitVec >>> 8 := rfl
  have hsign : c.toBitVec.msb = true ↔ ¬ c < 0x80 := by
    rw [BitVec.msb_eq_decide, decide_eq_true_iff, UInt8.not_lt, UInt8.le_iff_toNat_le]
    rfl
  have hhigh (i : Nat) (hi : i < 8) : (cellAttr (vgaEntry c color)).toBitVec[i] =
      (c.toBitVec.msb || color.toBitVec[i]) := by
    simp only [cellAttr, UInt16.toBitVec_toUInt8, hshift, hbits]
    simp
    grind
  have hones : ∀ i : Fin 8, (0xFF : UInt8).toBitVec[i] = true := by decide
  rw [← UInt8.toBitVec_inj]
  ext i hi
  rw [hhigh i hi]
  split
  next hc => rw [Bool.eq_false_iff.mpr fun h => hsign.mp h hc, Bool.false_or]
  next hc =>
    rw [hsign.mpr hc, Bool.true_or]
    exact (hones ⟨i, hi⟩).symm

/-! ## Runs of calls -/

/-- A cell as it was written, with the byte and the attribute it is meant to have. -/
structure Cell where
  entry : UInt16
  byte : UInt8
  attr : UInt8

def Cell.Right (cell : Cell) : Prop :=
  glyph cell.entry = cell.byte ∧ cellAttr cell.entry = cell.attr

theorem right_vgaEntry_iff (c color : UInt8) :
    Cell.Right ⟨vgaEntry c color, c, color⟩ ↔ c < 0x80 ∨ color = 0xFF := by
  rw [Cell.Right, glyph_vgaEntry, cellAttr_vgaEntry, and_iff_right rfl]
  split
  next hc => exact iff_of_true rfl (Or.inl hc)
  next hc => exact eq_comm.trans (or_iff_right hc).symm

/-- The console, the attribute chosen last, and the cells written so far, in reverse. -/
structure Painting where
  vga : Vga
  chosen : UInt8
  cells : List Cell

/-- What the console does for one character, or to change the colour. -/
inductive PaintOp
  | setColor (fg bg : UInt8)
  | putchar (c : UInt8)
  | putcharAt (x y : Int) (c : UInt8)

def PaintOp.run (vga : Vga) : PaintOp → Vga
  | .setColor fg bg => vgaSetColor fg bg vga
  | .putchar c => vgaPutchar vga c
  | .putcharAt x y c => vgaPutcharAt vga x y c

/-- The cells that were written since an earlier state. -/
def Vga.writtenSince (vga' vga : Vga) : List Int :=
  vga'.written.take (vga'.written.length - vga.written.length)

/-- The cells with those just written for a byte. -/
def Painting.note (p : Painting) (stored : Vga) (byte : UInt8) : List Cell :=
  (stored.writtenSince p.vga).map (fun i => ⟨stored.buffer i, byte, p.chosen⟩) ++ p.cells

/-- What `vga_putchar` writes for a byte: a backspace writes a blank. -/
def shownByte (c : UInt8) : UInt8 := if c = 0x08 then 0x20 else c

/-- One character; what `vga_putchar` scrolls after its character has been written is not
noted. -/
def Painting.step (p : Painting) (op : PaintOp) : Painting where
  vga := op.run p.vga
  chosen :=
    match op with
    | .setColor fg bg => vgaEntryColor fg bg
    | _ => p.chosen
  cells :=
    match op with
    | .setColor _ _ => p.cells
    | .putchar c =>
        p.note (if p.vga.available then putcharCases p.vga c else p.vga) (shownByte c)
    | .putcharAt x y c => p.note (vgaPutcharAt p.vga x y c) c

/-- A call of one of the functions that print or change the colour. -/
inductive VgaCall
  | setColor (fg bg : UInt8)
  | putchar (c : UInt8)
  | puts (s : CString)
  | putcharAt (x y : Int) (c : UInt8)
  | putsAt (x y : Int) (s : CString)

def VgaCall.run (vga : Vga) : VgaCall → Vga
  | .setColor fg bg => vgaSetColor fg bg vga
  | .putchar c => vgaPutchar vga c
  | .puts s => vgaPuts vga s
  | .putcharAt x y c => vgaPutcharAt vga x y c
  | .putsAt x y s => vgaPutsAt vga x y s

/-- The characters of a string, from a column on. -/
def putsAtOps : Int → Int → List UInt8 → List PaintOp
  | _, _, [] => []
  | x, y, c :: s => .putcharAt x y c :: putsAtOps (x + 1) y s

/-- A call, character by character. -/
def VgaCall.ops : VgaCall → List PaintOp
  | .setColor fg bg => [.setColor fg bg]
  | .putchar c => [.putchar c]
  | .puts s => s.bytes.map .putchar
  | .putcharAt x y c => [.putcharAt x y c]
  | .putsAt x y s => putsAtOps x y s.bytes

/-- The cell is on the screen. -/
def IsCell (x y : Int) : Prop := (0 ≤ x ∧ x < vgaWidth) ∧ 0 ≤ y ∧ y < vgaHeight

instance (x y : Int) : Decidable (IsCell x y) := inferInstanceAs (Decidable (_ ∧ _))

/-- A character that is written is below 0x80, or all bits of the attribute are set. -/
def PaintOp.Plain (p : Painting) : PaintOp → Prop
  | .setColor _ _ => True
  | .putchar c => p.vga.available = true → c < 0x80 ∨ p.chosen = 0xFF
  | .putcharAt x y c => p.vga.available = true ∧ IsCell x y → c < 0x80 ∨ p.chosen = 0xFF

/-! ## One character -/

variable {vga : Vga} {p : Painting}

theorem blankCells_colorAttr (vga : Vga) (todo : Nat) (i : Int) :
    (vga.blankCells todo i).colorAttr = vga.colorAttr := by
  induction todo generalizing vga i with
  | zero => rfl
  | succ todo ih => exact ih _ _

theorem vgaScroll_colorAttr (vga : Vga) : (vgaScroll vga).colorAttr = vga.colorAttr := by
  unfold vgaScroll
  split
  · rfl
  · split
    · dsimp only
      rw [blankCells_colorAttr]
      exact (copyUp_spec vga 1920 0).2.2.2.1
    · rfl

theorem putcharCases_colorAttr (vga : Vga) (c : UInt8) :
    (putcharCases vga c).colorAttr = vga.colorAttr := by
  unfold putcharCases
  split_ifs
  all_goals rfl

theorem vgaPutchar_colorAttr (vga : Vga) (c : UInt8) :
    (vgaPutchar vga c).colorAttr = vga.colorAttr := by
  have hwrap (vga : Vga) : (putcharWrap vga).colorAttr = vga.colorAttr := by
    unfold putcharWrap
    split
    · rfl
    · rfl
  unfold vgaPutchar
  split
  · rfl
  · exact (vgaScroll_colorAttr _).trans ((hwrap _).trans (putcharCases_colorAttr vga c))

theorem vgaPutcharAt_colorAttr (vga : Vga) (x y : Int) (c : UInt8) :
    (vgaPutcharAt vga x y c).colorAttr = vga.colorAttr := by
  unfold vgaPutcharAt
  split_ifs
  all_goals rfl

theorem note_of_written_eq {stored : Vga} (h : stored.written = p.vga.written) (byte : UInt8) :
    p.note stored byte = p.cells := by
  rw [Painting.note, Vga.writtenSince, h, Nat.sub_self, List.take_zero]
  rfl

theorem note_of_written_cons {stored : Vga} {i : Int} (h : stored.written = i :: p.vga.written)
    (byte : UInt8) : p.note stored byte = ⟨stored.buffer i, byte, p.chosen⟩ :: p.cells := by
  rw [Painting.note, Vga.writtenSince, h, List.length_cons, Nat.add_sub_cancel_left]
  rfl

/-- What `vga_putchar` writes before it scrolls: nothing for some control characters, and
one cell otherwise. -/
theorem putcharCases_stores (vga : Vga) (c : UInt8) :
    ((putcharCases vga c).written = vga.written ∧ c < 0x80) ∨
      ∃ i, (putcharCases vga c).written = i :: vga.written ∧
        (putcharCases vga c).buffer i = vgaEntry (shownByte c) vga.colorAttr := by
  have hcell {i : Int} {value : UInt16} : (vga.store i value).buffer i = value :=
    Function.update_self ..
  by_cases hnewline : c = 0x0A
  · subst hnewline
    exact Or.inl ⟨rfl, by decide⟩
  by_cases hreturn : c = 0x0D
  · subst hreturn
    exact Or.inl ⟨rfl, by decide⟩
  by_cases htab : c = 0x09
  · subst htab
    exact Or.inl ⟨rfl, by decide⟩
  by_cases hback : c = 0x08
  · subst hback
    rw [putcharCases, if_neg hnewline, if_neg hreturn, if_neg htab, if_pos rfl]
    split_ifs
    · exact Or.inr ⟨_, rfl, hcell⟩
    · exact Or.inr ⟨_, rfl, hcell⟩
    · exact Or.inl ⟨rfl, by decide⟩
  · rw [putcharCases, if_neg hnewline, if_neg hreturn, if_neg htab, if_neg hback, shownByte,
      if_neg hback]
    exact Or.inr ⟨_, rfl, hcell⟩

theorem vgaPutcharAt_of_isCell {x y : Int} (h : vga.available = true ∧ IsCell x y) (c : UInt8) :
    vgaPutcharAt vga x y c = vga.store (y * vgaWidth + x) (vgaEntry c vga.colorAttr) := by
  obtain ⟨havailable, ⟨hx, hx'⟩, hy, hy'⟩ := h
  rw [vgaPutcharAt, havailable, if_neg (by decide), if_neg (by omega)]

theorem vgaPutcharAt_of_not_isCell {x y : Int} (h : ¬ (vga.available = true ∧ IsCell x y))
    (c : UInt8) : vgaPutcharAt vga x y c = vga := by
  rw [vgaPutcharAt]
  split
  · rfl
  · split
    next => rfl
    next havailable hin =>
      refine absurd ⟨by simpa using havailable, ?_⟩ h
      rw [IsCell]
      omega

theorem shownByte_plain_iff (c color : UInt8) :
    shownByte c < 0x80 ∨ color = 0xFF ↔ c < 0x80 ∨ color = 0xFF := by
  rw [shownByte]
  split
  next hback => exact iff_of_true (Or.inl (by decide)) (Or.inl (by rw [hback]; decide))
  next => rfl

/-- The attribute chosen last is the one that is written. -/
def Painting.Coloured (p : Painting) : Prop := p.vga.colorAttr = p.chosen

theorem coloured_step (h : p.Coloured) (op : PaintOp) : (p.step op).Coloured := by
  cases op with
  | setColor => rfl
  | putchar c => exact (vgaPutchar_colorAttr p.vga c).trans h
  | putcharAt x y c => exact (vgaPutcharAt_colorAttr p.vga x y c).trans h

/-- All cells written so far are right. -/
def Painting.Right (p : Painting) : Prop := ∀ cell ∈ p.cells, cell.Right

/-- A new cell is right, like the others, if its character is plain. -/
theorem right_cons_iff (h : p.Coloured) {entry : UInt16} {c : UInt8} {cells : List Cell}
    (hentry : entry = vgaEntry c p.vga.colorAttr) :
    (∀ cell ∈ (⟨entry, c, p.chosen⟩ : Cell) :: cells, cell.Right) ↔
      (∀ cell ∈ cells, cell.Right) ∧ (c < 0x80 ∨ p.chosen = 0xFF) := by
  rw [List.forall_mem_cons, hentry, h, right_vgaEntry_iff, and_comm]

theorem right_step (h : p.Coloured) (op : PaintOp) :
    (p.step op).Right ↔ p.Right ∧ op.Plain p := by
  cases op with
  | setColor => exact (and_iff_left trivial).symm
  | putchar c =>
      change (∀ cell ∈ p.note _ _, cell.Right) ↔ _
      by_cases havailable : p.vga.available = true
      · rw [if_pos havailable, PaintOp.Plain, forall_prop_of_true havailable]
        rcases putcharCases_stores p.vga c with ⟨hsame, hc⟩ | ⟨i, hcons, hentry⟩
        · rw [note_of_written_eq hsame]
          exact (and_iff_left (Or.inl hc)).symm
        · rw [note_of_written_cons hcons, right_cons_iff h hentry, shownByte_plain_iff]
          rfl
      · rw [if_neg havailable, note_of_written_eq rfl]
        exact (and_iff_left fun h => absurd h havailable).symm
  | putcharAt x y c =>
      change (∀ cell ∈ p.note _ _, cell.Right) ↔ _
      by_cases hcell : p.vga.available = true ∧ IsCell x y
      · rw [PaintOp.Plain, forall_prop_of_true hcell, vgaPutcharAt_of_isCell hcell,
          note_of_written_cons rfl, right_cons_iff h (Function.update_self ..)]
        rfl
      · rw [vgaPutcharAt_of_not_isCell hcell, note_of_written_eq rfl]
        exact (and_iff_left fun h => absurd h hcell).symm

/-! ## Calls -/

/-- Behind the right edge, or above or below the screen, nothing is written. -/
theorem putsAtOps_outside {x y : Int} (h : vgaWidth ≤ x ∨ y < 0 ∨ vgaHeight ≤ y)
    (s : List UInt8) : (putsAtOps x y s).foldl PaintOp.run vga = vga := by
  induction s generalizing x with
  | nil => rfl
  | cons c s ih =>
      have hout : ¬ (vga.available = true ∧ IsCell x y) := by
        rintro ⟨-, hcell⟩
        rw [IsCell] at hcell
        omega
      rw [putsAtOps, List.foldl_cons, PaintOp.run, vgaPutcharAt_of_not_isCell hout,
        ih (by omega)]

theorem vgaPutsAtLoop_eq (vga : Vga) (x y : Int) (s : List UInt8) :
    vgaPutsAtLoop vga x y s = (putsAtOps x y s).foldl PaintOp.run vga := by
  induction s generalizing vga x with
  | nil => rfl
  | cons c s ih =>
      rw [vgaPutsAtLoop]
      split
      next hout => exact (putsAtOps_outside hout (c :: s)).symm
      next => exact ih _ _

theorem foldl_ops (vga : Vga) (call : VgaCall) :
    call.ops.foldl PaintOp.run vga = call.run vga := by
  cases call with
  | setColor => rfl
  | putchar => rfl
  | puts s => exact List.foldl_map
  | putcharAt => rfl
  | putsAt x y s => exact (vgaPutsAtLoop_eq vga x y s.bytes).symm

theorem foldl_step_vga (p : Painting) (ops : List PaintOp) :
    (ops.foldl Painting.step p).vga = ops.foldl PaintOp.run p.vga := by
  induction ops generalizing p with
  | nil => rfl
  | cons op ops ih => exact ih _

theorem foldl_flatMap_ops (vga : Vga) (calls : List VgaCall) :
    (calls.flatMap VgaCall.ops).foldl PaintOp.run vga = calls.foldl VgaCall.run vga := by
  induction calls generalizing vga with
  | nil => rfl
  | cons call calls ih =>
      rw [List.flatMap_cons, List.foldl_append, foldl_ops, ih, List.foldl_cons]

/-- Whatever is called, every cell written has its character and the attribute chosen last
exactly if each character written is below 0x80, or all bits of the attribute are set. -/
theorem vga_cells_right_iff (vga : Vga) (calls : List VgaCall) :
    let p := (calls.flatMap VgaCall.ops).foldl Painting.step ⟨vga, vga.colorAttr, []⟩
    p.vga = calls.foldl VgaCall.run vga ∧
      (p.Right ↔ Always Painting.step PaintOp.Plain (calls.flatMap VgaCall.ops)
        ⟨vga, vga.colorAttr, []⟩) := by
  refine ⟨(foldl_step_vga _ _).trans (foldl_flatMap_ops vga calls), ?_⟩
  have hrun := foldl_iff_always Painting.Coloured Painting.Right
    (fun _ op h => ⟨coloured_step h op, right_step h op⟩) (calls.flatMap VgaCall.ops)
    (show Painting.Coloured ⟨vga, vga.colorAttr, []⟩ from rfl)
  exact hrun.trans (and_iff_right fun _ h => absurd h List.not_mem_nil)

/-- The corner of a box, in white on blue. -/
theorem vga_corner_miscoloured :
    let vga := { Vga.boot (fun _ => 0) fun _ => 0 with available := true }
    let calls := [VgaCall.setColor 15 1, .putcharAt 0 0 0xDA]
    ¬ ((calls.flatMap VgaCall.ops).foldl Painting.step ⟨vga, vga.colorAttr, []⟩).Right := by
  intro vga calls h
  let blue : Painting := Painting.step ⟨vga, vga.colorAttr, []⟩ (.setColor 15 1)
  have hplain := (@right_step blue rfl (.putcharAt 0 0 0xDA)).mp h
  exact absurd (hplain.2 ⟨rfl, by decide⟩) (by decide)

end Dosfs
