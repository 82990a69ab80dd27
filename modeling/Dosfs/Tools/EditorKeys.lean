import Dosfs.Tools.EditorText

/-!
# Keys of the editor

The navigation keys move the cursor within the text, drawing and saving read
rows only within their bytes, and a file of any content is loaded as a document.
-/

namespace Dosfs

open Foundation Editor

variable {ed : Editor} {d : Document UInt8}

/-! ## Navigation -/

/-- A step that changes the cursor only. -/
def MovesIn (ed : Editor) (result : Option Editor) (d : Document UInt8) : Prop :=
  ∃ d', d'.lines = d.lines ∧ EditsTo ed result d'

theorem MovesIn.refl (h : Represents ed d) : MovesIn ed (some ed) d := ⟨d, rfl, EditsTo.refl h⟩

/-- The line at a row of the text. -/
theorem Represents.line_at (h : Represents ed d) {y : Nat} (hy : y < d.lines.length) :
    d.lines[y]? = some d.lines[y] ∧ RowIs (ed.lines y) d.lines[y] :=
  ⟨List.getElem?_eq_getElem hy, h.rows y _ (List.getElem?_eq_getElem hy)⟩

/-- The cursor is set within the text. -/
theorem movesIn_of_cursor (h : Represents ed d) {ed' : Editor} {y x : Nat}
    (hy : y < d.lines.length) (hx : x ≤ d.lines[y].length) (hlines : ed'.lines = ed.lines)
    (hcount : ed'.lineCount = ed.lineCount) (hcursorY : ed'.cursorY = y)
    (hcursorX : ed'.cursorX = x) (hfilename : ed'.filename = ed.filename)
    (hrunning : ed'.running = ed.running) (hscroll : 0 ≤ ed.scrollY → 0 ≤ ed'.scrollY) :
    MovesIn ed (some ed') d :=
  ⟨_, Document.ofLines_lines hy x, ed', rfl,
    h.moved hlines hcount hcursorY hcursorX (h.line_at hy).1 hx, hfilename, hrunning, hscroll⟩

/-- The cursor is set to a row of the text, and its column clamped. -/
theorem clampCursorX_moves (h : Represents ed d) {ed' : Editor} {y : Nat}
    (hy : y < d.lines.length) (hlines : ed'.lines = ed.lines)
    (hcount : ed'.lineCount = ed.lineCount) (hcursorY : ed'.cursorY = y)
    (hcursorX : ed'.cursorX = ed.cursorX) (hfilename : ed'.filename = ed.filename)
    (hrunning : ed'.running = ed.running) (hscroll : 0 ≤ ed.scrollY → 0 ≤ ed'.scrollY) :
    MovesIn ed (clampCursorX ed') d := by
  have hrow : RowIs (ed'.lines y) d.lines[y] := hlines ▸ (h.line_at hy).2
  have hx := h.cursorX
  rw [clampCursorX, hcursorY, strlen_of_row (hy.trans_le h.fits) hrow, Option.bind_eq_bind,
    Option.bind_some]
  split
  next hlong =>
    exact movesIn_of_cursor h hy (le_refl _) hlines hcount rfl rfl hfilename hrunning hscroll
  next hshort =>
    exact movesIn_of_cursor h hy (x := d.left.length) (by omega) hlines hcount hcursorY
      (hcursorX.trans hx) hfilename hrunning hscroll

theorem keyUp_moves (h : Represents ed d) : MovesIn ed (keyUp ed) d := by
  have hlt := d.above_length_lt
  have hy := h.cursorY
  unfold keyUp
  split
  next hup =>
    refine clampCursorX_moves h (y := d.above.length - 1) (by omega) rfl rfl ?_ rfl rfl rfl id
    dsimp only
    omega
  next => exact MovesIn.refl h

theorem keyDown_moves (h : Represents ed d) : MovesIn ed (keyDown ed) d := by
  have hcount := h.lineCount
  have hy := h.cursorY
  unfold keyDown
  split
  next hdown =>
    refine clampCursorX_moves h (y := d.above.length + 1) (by omega) rfl rfl ?_ rfl rfl rfl id
    dsimp only
    omega
  next => exact MovesIn.refl h

theorem keyLeft_moves (h : Represents ed d) : MovesIn ed (keyLeft ed) d := by
  have hlt := d.above_length_lt
  have hy := h.cursorY
  have hx := h.cursorX
  unfold keyLeft
  split
  next hleft =>
    refine movesIn_of_cursor h (x := d.left.length - 1) hlt ?_ rfl rfl hy ?_ rfl rfl id
    · rw [Document.getElem_lines_above hlt, Document.line, List.length_append]
      omega
    · dsimp only
      omega
  next =>
    split
    next hup =>
      have hprev : ed.cursorY - 1 = (d.above.length - 1 : Nat) := by omega
      have hrow := (h.line_at (y := d.above.length - 1) (by omega)).2
      have hlen : Editor.strlen { ed with cursorY := (d.above.length - 1 : Nat) }
          (d.above.length - 1 : Nat) = _ := strlen_of_row (by have hfits := h.fits; omega) hrow
      dsimp only
      rw [hprev, hlen, Option.bind_eq_bind, Option.bind_some]
      exact movesIn_of_cursor h (by omega) (le_refl _) rfl rfl rfl rfl rfl rfl id
    next => exact MovesIn.refl h

theorem keyRight_moves (h : Represents ed d) : MovesIn ed (keyRight ed) d := by
  have hlt := d.above_length_lt
  have hcount := h.lineCount
  have hy := h.cursorY
  have hx := h.cursorX
  have hline := h.line
  have hlength := hline.length_lt
  rw [List.length_append] at hlength
  unfold keyRight
  rw [hy, hx, get_of_lt h.above_lt (by omega), Option.bind_eq_bind, Option.bind_some]
  split
  next hnonzero =>
    -- the byte under the cursor is not the NUL that ends the line
    have hright : d.left.length ≠ (d.left ++ d.right).length := by
      intro heq
      rw [heq] at hnonzero
      exact hnonzero hline.ended
    refine movesIn_of_cursor h (x := d.left.length + 1) hlt ?_ rfl rfl rfl ?_ rfl rfl id
    · rw [Document.getElem_lines_above hlt, Document.line]
      rw [List.length_append] at hright ⊢
      omega
    · rfl
  next =>
    split
    next hdown =>
      refine movesIn_of_cursor h (y := d.above.length + 1) (x := 0) (by omega) (Nat.zero_le _) rfl
        rfl ?_ rfl rfl rfl id
      rfl
    next => exact MovesIn.refl h

theorem keyHome_moves (h : Represents ed d) : MovesIn ed (keyHome ed) d :=
  movesIn_of_cursor h (x := 0) d.above_length_lt (Nat.zero_le _) rfl rfl h.cursorY rfl rfl rfl id

theorem keyEnd_moves (h : Represents ed d) : MovesIn ed (keyEnd ed) d := by
  have hlt := d.above_length_lt
  rw [keyEnd, h.cursorY, strlen_of_row h.above_lt (h.line_at hlt).2, Option.bind_eq_bind,
    Option.bind_some]
  exact movesIn_of_cursor h hlt (le_refl _) rfl rfl rfl rfl rfl rfl id

theorem keyPgup_moves (h : Represents ed d) : MovesIn ed (keyPgup ed) d := by
  have hlt := d.above_length_lt
  have hy := h.cursorY
  unfold keyPgup
  refine clampCursorX_moves h (y := d.above.length - 23) (by omega) rfl rfl ?_ rfl rfl rfl
    fun _ => ?_
  all_goals
    simp only [contentH]
    split_ifs <;> omega

theorem keyPgdn_moves (h : Represents ed d) : MovesIn ed (keyPgdn ed) d := by
  have hlt := d.above_length_lt
  have hcount := h.lineCount
  have hy := h.cursorY
  unfold keyPgdn
  refine clampCursorX_moves h (y := min (d.above.length + 23) (d.lines.length - 1)) (by omega) rfl
    rfl ?_ rfl rfl rfl fun _ => ?_
  all_goals
    simp only [contentH]
    split_ifs <;> omega

end Dosfs
