import Dosfs.Foundation.Document
import Dosfs.Tools.EditorRows

/-!
# The text in the editor

The rows of the editor and its cursor hold a document, and the editing functions
do to it what the operations on documents do, with no access outside the rows.
-/

namespace Dosfs

open Foundation Editor

/-- The string in a row. -/
def rowString (row : Nat → UInt8) : List UInt8 := ((List.range 80).map row).takeWhile (· != 0)

/-- What the editor holds: its lines and the place of the cursor. -/
def Editor.document (ed : Editor) : Document UInt8 :=
  Document.ofLines ((List.range ed.lineCount.toNat).map fun y => rowString (ed.lines y))
    ed.cursorY.toNat ed.cursorX.toNat

/-- The editor holds the document, all rows end within their 80 bytes, and no
line contains a line break. -/
structure Represents (ed : Editor) (d : Document UInt8) : Prop where
  lineCount : ed.lineCount = d.lines.length
  cursorY : ed.cursorY = d.above.length
  cursorX : ed.cursorX = d.left.length
  fits : d.lines.length ≤ 256
  rows : ∀ i s, d.lines[i]? = some s → RowIs (ed.lines i) s
  ended : ∀ y < 256, ∃ s, RowIs (ed.lines y) s
  noBreak : ∀ s ∈ d.lines, 0x0A ∉ s

variable {ed : Editor} {d : Document UInt8}

theorem rowString_eq {row : Nat → UInt8} {s : List UInt8} (h : RowIs row s) :
    rowString row = s := by
  have hlt : s.length < ((List.range 80).map row).length := by
    rw [List.length_map, List.length_range]
    exact h.length_lt
  have htake : ((List.range 80).map row).take s.length = s := by
    refine List.ext_getElem ?_ fun i hi hi' => ?_
    · rw [List.length_take, Nat.min_eq_left hlt.le]
    · have hget := h.spells.get hi'
      rw [Nat.zero_add] at hget
      simpa using hget
  have hnext : ((List.range 80).map row)[s.length] = 0 := by
    simpa using h.ended
  rw [rowString, ← List.take_append_drop s.length ((List.range 80).map row), htake,
    List.drop_eq_getElem_cons hlt, hnext,
    List.takeWhile_append_of_pos fun c hc => by simpa using h.noNul c hc]
  simp

namespace Represents

theorem above_lt (h : Represents ed d) : d.above.length < 256 :=
  d.above_length_lt.trans_le h.fits

/-- The row of the cursor. -/
theorem line (h : Represents ed d) : RowIs (ed.lines d.above.length) (d.left ++ d.right) :=
  h.rows _ _ d.getElem?_lines_above

theorem document_eq (h : Represents ed d) : ed.document = d := by
  have hlines :
      ((List.range ed.lineCount.toNat).map fun y => rowString (ed.lines y)) = d.lines := by
    refine List.ext_getElem ?_ fun i hi hi' => ?_
    · rw [List.length_map, List.length_range, h.lineCount, Int.toNat_natCast]
    · rw [List.getElem_map, List.getElem_range]
      exact rowString_eq (h.rows i _ (List.getElem?_eq_getElem hi'))
  rw [Editor.document, hlines, h.cursorY, h.cursorX, Int.toNat_natCast, Int.toNat_natCast,
    Document.ofLines_self]

/-- Moving the cursor within the text. -/
theorem moved (h : Represents ed d) {ed' : Editor} {y x : Nat} {s : List UInt8}
    (hlines : ed'.lines = ed.lines) (hcount : ed'.lineCount = ed.lineCount)
    (hy : ed'.cursorY = y) (hx : ed'.cursorX = x) (hrow : d.lines[y]? = some s)
    (hle : x ≤ s.length) : Represents ed' (Document.ofLines d.lines y x) := by
  obtain ⟨hlt, heq⟩ := List.getElem?_eq_some_iff.mp hrow
  have hsame := Document.ofLines_lines hlt x
  have hgetD : d.lines.getD y [] = s := by
    rw [List.getD_eq_getElem _ _ hlt, heq]
  refine ⟨?_, ?_, ?_, ?_, ?_, ?_, ?_⟩
  · rw [hsame, hcount, h.lineCount]
  · rw [Document.ofLines_above_length hlt, hy]
  · rw [Document.ofLines_left_length (by rw [hgetD]; exact hle), hx]
  · rw [hsame]
    exact h.fits
  · rw [hsame, hlines]
    exact h.rows
  · rw [hlines]
    exact h.ended
  · rw [hsame]
    exact h.noBreak

/-- Changing the row of the cursor only. -/
theorem withRow (h : Represents ed d) {ed' : Editor} {d' : Document UInt8}
    (habove : d'.above = d.above) (hbelow : d'.below = d.below)
    (hcount : ed'.lineCount = ed.lineCount) (hy : ed'.cursorY = ed.cursorY)
    (hx : ed'.cursorX = d'.left.length)
    (hother : ∀ i ≠ d.above.length, ed'.lines i = ed.lines i)
    (hrow : RowIs (ed'.lines d.above.length) d'.line) (hbreak : 0x0A ∉ d'.line) :
    Represents ed' d' := by
  have hlines : d'.lines = d.lines.set d.above.length d'.line := by
    rw [Document.lines, Document.lines, habove, hbelow, List.set_append_right _ _ (le_refl _),
      Nat.sub_self, List.set_cons_zero]
  refine ⟨?_, ?_, hx, ?_, fun i s hs => ?_, fun y hlt => ?_, fun s hs => ?_⟩
  · rw [hlines, List.length_set, hcount, h.lineCount]
  · rw [habove, hy, h.cursorY]
  · rw [hlines, List.length_set]
    exact h.fits
  · rw [hlines, List.getElem?_set] at hs
    split_ifs at hs with heq hlt
    · subst heq
      rwa [← Option.some.inj hs]
    · rw [hother i (Ne.symm heq)]
      exact h.rows i s hs
  · by_cases heq : y = d.above.length
    · exact ⟨_, heq ▸ hrow⟩
    · rw [hother y heq]
      exact h.ended y hlt
  · rw [hlines] at hs
    rcases List.mem_or_eq_of_mem_set hs with hold | rfl
    · exact h.noBreak s hold
    · exact hbreak

end Represents

/-- A step of the editor that returns with the given document; the name of the
file stays, and so does the flag that ends the loop. -/
def EditsTo (ed : Editor) (result : Option Editor) (d' : Document UInt8) : Prop :=
  ∃ ed', result = some ed' ∧ Represents ed' d' ∧ ed'.filename = ed.filename ∧
    ed'.running = ed.running ∧ (0 ≤ ed.scrollY → 0 ≤ ed'.scrollY)

theorem EditsTo.refl (h : Represents ed d) : EditsTo ed (some ed) d :=
  ⟨ed, rfl, h, rfl, rfl, id⟩

/-! ## Inserting -/

theorem editorInsertChar_edits (h : Represents ed d) {c : UInt8} (hc : c ≠ 0) (hbreak : c ≠ 0x0A) :
    EditsTo ed (editorInsertChar c ed) (if d.line.length = 79 then d else d.insert c) := by
  have hlength := h.line.length_lt
  have hcursor : ¬ ed.lineCount ≤ ed.cursorY := by
    have hlt := d.above_length_lt
    rw [h.lineCount, h.cursorY]
    omega
  rw [editorInsertChar, if_neg hcursor]
  by_cases hfull : d.line.length = 79
  · rw [if_pos hfull, insertInLine, h.cursorY, strlen_of_row h.above_lt h.line,
      Option.bind_eq_bind, Option.bind_some, if_pos]
    · exact EditsTo.refl h
    · rw [editorLineLen]
      rw [Document.line] at hfull
      omega
  · rw [if_neg hfull]
    rw [Document.line] at hfull
    obtain ⟨lines, hinsert, hother, hrow⟩ := insertInLine_of_row h.above_lt hc h.line h.cursorY
      h.cursorX (by omega)
    have hline : (d.insert c).line = d.left ++ c :: d.right := by
      simp [Document.line, Document.insert]
    refine ⟨_, hinsert, h.withRow rfl rfl rfl rfl ?_ hother ?_ ?_, rfl, rfl, id⟩
    · rw [h.cursorX, Document.insert, List.length_append]
      rfl
    · rw [hline]
      exact hrow
    · have hold := h.noBreak _ (List.mem_of_getElem? d.getElem?_lines_above)
      rw [Document.line] at hold
      rw [hline]
      simp only [List.mem_append, List.mem_cons, not_or] at hold ⊢
      exact ⟨hold.1, Ne.symm hbreak, hold.2⟩

/-! ## Deleting -/

/-- The test of `editor_delete_char` before it joins two lines. -/
def JoinFits (d : Document UInt8) : Prop := (d.above.getLastD []).length + d.line.length < 80

instance : Decidable (JoinFits d) := inferInstanceAs (Decidable (_ < _))

theorem deleteInLine_edits (h : Represents ed d) (hleft : d.left ≠ []) :
    EditsTo ed (editorDeleteChar ed) d.backspace := by
  obtain ⟨left, c, hsplit⟩ := List.eq_nil_or_concat d.left |>.resolve_left hleft
  rw [List.concat_eq_append] at hsplit
  have hline := h.line
  rw [hsplit, List.append_assoc, List.singleton_append] at hline
  have hcursorX := h.cursorX
  rw [hsplit, List.length_append, List.length_singleton] at hcursorX
  obtain ⟨lines, hdelete, hother, hrow⟩ := editorDeleteChar_of_row h.above_lt hline h.cursorY
    (by rw [hcursorX]; rfl)
  have hback : d.backspace = { d with left := left } := by
    rw [Document.backspace_of_left hleft, hsplit, List.dropLast_concat]
  rw [hback]
  refine ⟨_, hdelete, h.withRow rfl rfl rfl rfl ?_ hother hrow ?_, rfl, rfl, id⟩
  · dsimp only
    omega
  · have hold := h.noBreak _ (List.mem_of_getElem? d.getElem?_lines_above)
    rw [Document.line, hsplit] at hold
    simp only [Document.line, List.mem_append, not_or] at hold ⊢
    exact ⟨hold.1.1, hold.2⟩

/-- The lines after two of them were joined. -/
private theorem getElem?_joined (above below : List (List UInt8)) (p r : List UInt8) (i : Nat) :
    (above ++ (p ++ r) :: below)[i]? = if i < above.length then (above ++ p :: r :: below)[i]?
      else if i = above.length then some (p ++ r) else (above ++ p :: r :: below)[i + 1]? := by
  split_ifs with hlt heq
  · rw [List.getElem?_append_left hlt, List.getElem?_append_left hlt]
  · rw [heq, List.getElem?_append_right (le_refl _), Nat.sub_self]
    rfl
  · rw [List.getElem?_append_right (by omega), List.getElem?_append_right (by omega),
      show i - above.length = i - above.length - 1 + 1 by omega,
      show i + 1 - above.length = i - above.length - 1 + 1 + 1 by omega]
    rfl

/-- The rows after the one of the cursor was joined to the one above it, whose
string is `p`. -/
structure JoinedRows (d : Document UInt8) (above : List (List UInt8)) (p : List UInt8)
    (old new : Nat → Nat → UInt8) : Prop where
  before : ∀ i < above.length, new i = old i
  joined : RowIs (new above.length) (p ++ d.right)
  below : ∀ i, above.length < i → i + 1 < d.lines.length → RowIs (new i) (d.lines.getD (i + 1) [])
  outside : ∀ i, d.lines.length ≤ i + 1 → above.length < i → new i = old i

/-- `editor_delete_char` appends the line to the one above, then moves the
following lines up. -/
theorem joinLines_rows (h : Represents ed d) (hleft : d.left = []) {above : List (List UInt8)}
    {p : List UInt8} (hsplit : d.above = above ++ [p]) (hroom : p.length + d.right.length < 80) :
    ∃ lines, JoinedRows d above p ed.lines lines ∧ editorDeleteChar ed = some { ed with
      lines, lineCount := ed.lineCount - 1, cursorY := ed.cursorY - 1, cursorX := p.length
      modified := true } := by
  have hlines := Document.lines_of_above hleft hsplit
  have hcount := h.lineCount
  have hfits' := h.fits
  have hlength := d.length_lines
  rw [hsplit, List.length_append, List.length_singleton] at hlength
  have hy : ed.cursorY = (above.length + 1 : Nat) := by
    rw [h.cursorY, hsplit, List.length_append, List.length_singleton]
  have hx : ed.cursorX = 0 := by
    rw [h.cursorX, hleft]
    rfl
  have hprev : RowIs (ed.lines above.length) p := h.rows _ _ (by simp [hlines])
  have hcur : RowIs (ed.lines (above.length + 1)) d.right := h.rows _ _ (by
    rw [hlines, List.getElem?_append_right (by omega), Nat.add_sub_cancel_left]
    rfl)
  obtain ⟨joined, hcat, hother, hrow⟩ := strcat_of_row (by omega) (by omega) (by omega) hprev hcur
    hroom
  -- the lines that are moved up are still those of the document
  obtain ⟨lines, hmove, hkept, hmoved⟩ := @moveUp_spec { ed with lines := joined } d.below.length
    (above.length + 1) (fun i => d.lines.getD i []) (by omega) fun i hlow hhigh => by
      change RowIs (joined i) _
      rw [hother i (by omega), List.getD_eq_getElem _ _ (by omega)]
      exact h.rows i _ (List.getElem?_eq_getElem _)
  change ∀ i, _ → lines i = joined i at hkept
  have hprevY : ed.cursorY - 1 = (above.length : Nat) := by omega
  have hturns : (ed.lineCount - 1 - ed.cursorY).toNat = d.below.length := by omega
  refine ⟨lines, ⟨fun i hi => ?_, ?_, fun i hlow hhigh => ?_, fun i hhigh hlow => ?_⟩, ?_⟩
  · rw [hkept i (by omega), hother i (by omega)]
  · rw [hkept _ (by omega)]
    exact hrow
  · exact hmoved i (by omega) (by omega)
  · rw [hkept i (by omega), hother i (by omega)]
  · obtain ⟨old, lineCount, cursorX, cursorY, scrollY, filename, modified, running⟩ := ed
    dsimp only at hx hy hprevY hturns hcat hmove
    subst hx hy
    rw [editorDeleteChar, if_neg (by dsimp only; omega), if_pos (by dsimp only; omega)]
    simp only [hprevY, strlen_of_row (show above.length < 256 by omega) hprev,
      strlen_of_row (show above.length + 1 < 256 by omega) hcur, Option.bind_eq_bind,
      Option.bind_some]
    rw [if_pos (by rw [editorLineLen]; omega), hcat, Option.bind_some]
    dsimp only
    rw [hturns, hmove, Option.bind_some]
    simp only [hprevY]

/-- These rows hold the lines of the joined text. -/
theorem JoinedRows.rows {above : List (List UInt8)} {p : List UInt8} {lines : Nat → Nat → UInt8}
    (hjoined : JoinedRows d above p ed.lines lines) (h : Represents ed d)
    (hlines : d.lines = above ++ p :: d.right :: d.below) {i : Nat} {s : List UInt8}
    (hs : (above ++ (p ++ d.right) :: d.below)[i]? = some s) : RowIs (lines i) s := by
  rw [getElem?_joined, ← hlines] at hs
  split_ifs at hs with hlow heq
  · rw [hjoined.before i hlow]
    exact h.rows i s hs
  · rw [← Option.some.inj hs, heq]
    exact hjoined.joined
  · obtain ⟨hlt, hget⟩ := List.getElem?_eq_some_iff.mp hs
    have hrow := hjoined.below i (by omega) hlt
    rwa [List.getD_eq_getElem _ _ hlt, hget] at hrow

theorem joinLines_edits (h : Represents ed d) (hleft : d.left = []) (habove : d.above ≠ [])
    (hfits : JoinFits d) : EditsTo ed (editorDeleteChar ed) d.backspace := by
  obtain ⟨above, p, hsplit⟩ := List.eq_nil_or_concat d.above |>.resolve_left habove
  rw [List.concat_eq_append] at hsplit
  have hlines := Document.lines_of_above hleft hsplit
  have hroom : p.length + d.right.length < 80 := by
    rw [JoinFits, hsplit, Document.line, hleft] at hfits
    simpa using hfits
  obtain ⟨lines, hjoined, heq⟩ := joinLines_rows h hleft hsplit hroom
  have hback : d.backspace = { d with above := above, left := p } :=
    Document.backspace_of_above hleft hsplit
  have hlines' : d.backspace.lines = above ++ (p ++ d.right) :: d.below := by
    rw [hback]
    rfl
  have hlength : d.lines.length = d.backspace.lines.length + 1 := by
    rw [d.length_lines, d.backspace.length_lines, hback, hsplit, List.length_append,
      List.length_singleton]
    dsimp only
    omega
  have hcount := h.lineCount
  have hfits' := h.fits
  refine ⟨_, heq, ⟨?_, ?_, ?_, ?_, fun i s hs => ?_, fun y hy => ?_, ?_⟩, rfl, rfl, id⟩
  · dsimp only
    omega
  · have hcursorY := h.cursorY
    rw [hsplit, List.length_append, List.length_singleton] at hcursorY
    rw [hback]
    dsimp only
    omega
  · rw [hback]
  · omega
  · rw [hlines'] at hs
    exact hjoined.rows h hlines hs
  · by_cases hin : y < d.backspace.lines.length
    · rw [hlines'] at hin
      exact ⟨_, hjoined.rows h hlines (List.getElem?_eq_getElem hin)⟩
    · have hhigh : above.length < y := by
        rw [hlines', List.length_append, List.length_cons] at hin
        omega
      change ∃ s, RowIs (lines y) s
      rw [hjoined.outside y (by omega) hhigh]
      exact h.ended y hy
  · have hbreak := h.noBreak
    rw [hlines] at hbreak
    rw [hlines']
    simp only [List.mem_append, List.mem_cons] at hbreak ⊢
    rintro s (hs | rfl | hs)
    · exact hbreak s (Or.inl hs)
    · rw [List.mem_append, not_or]
      exact ⟨hbreak p (by simp), hbreak d.right (by simp)⟩
    · exact hbreak s (by simp [hs])

/-- What `editor_delete_char` does. -/
theorem editorDeleteChar_edits (h : Represents ed d) :
    EditsTo ed (editorDeleteChar ed)
      (if d.left = [] ∧ ¬ JoinFits d then d else d.backspace) := by
  by_cases hleft : d.left = []
  · have hcursorX : ¬ 0 < ed.cursorX := by
      rw [h.cursorX, hleft]
      decide
    by_cases habove : d.above = []
    · -- the start of the text
      have hstay : (if d.left = [] ∧ ¬ JoinFits d then d else d.backspace) = d := by
        rw [Document.backspace, if_pos hleft, habove]
        split_ifs <;> rfl
      have hcursorY : ¬ 0 < ed.cursorY := by
        rw [h.cursorY, habove]
        decide
      rw [hstay, editorDeleteChar, if_neg hcursorX, if_neg hcursorY]
      exact EditsTo.refl h
    · by_cases hfits : JoinFits d
      · rw [if_neg fun hnot => hnot.2 hfits]
        exact joinLines_edits h hleft habove hfits
      · rw [if_pos ⟨hleft, hfits⟩]
        obtain ⟨above, p, hsplit⟩ := List.eq_nil_or_concat d.above |>.resolve_left habove
        rw [List.concat_eq_append] at hsplit
        have hlt := h.above_lt
        have hline := h.line
        have hprev : RowIs (ed.lines above.length) p := h.rows _ _ (by
          rw [Document.lines, hsplit, List.append_assoc]
          simp)
        have hcursorY := h.cursorY
        rw [JoinFits, hsplit, Document.line] at hfits
        rw [hsplit, List.length_append, List.length_singleton] at hcursorY hlt hline
        have hprevY : ed.cursorY - 1 = (above.length : Nat) := by omega
        rw [editorDeleteChar, if_neg hcursorX, if_pos (by omega), hprevY, hcursorY,
          strlen_of_row (by omega) hprev, strlen_of_row hlt hline]
        simp only [Option.bind_eq_bind, Option.bind_some]
        rw [if_neg]
        · exact EditsTo.refl h
        · rw [editorLineLen]
          simp only [List.getLastD_concat] at hfits
          omega
  · rw [if_neg fun hnot => hleft hnot.1]
    exact deleteInLine_edits h hleft

/-! ## Breaking a line -/

/-- The lines after one of them was broken in two. -/
private theorem getElem?_broken (above below : List (List UInt8)) (l r : List UInt8) (i : Nat) :
    (above ++ l :: r :: below)[i]? = if i < above.length then (above ++ (l ++ r) :: below)[i]?
      else if i = above.length then some l
      else if i = above.length + 1 then some r else (above ++ (l ++ r) :: below)[i - 1]? := by
  split_ifs with hlt heq heq'
  · rw [List.getElem?_append_left hlt, List.getElem?_append_left hlt]
  · rw [heq, List.getElem?_append_right (le_refl _), Nat.sub_self]
    rfl
  · rw [heq', List.getElem?_append_right (by omega), Nat.add_sub_cancel_left]
    rfl
  · rw [List.getElem?_append_right (by omega), List.getElem?_append_right (by omega),
      show i - above.length = i - 1 - above.length - 1 + 1 + 1 by omega,
      show i - 1 - above.length = i - 1 - above.length - 1 + 1 by omega]
    rfl

/-- A NUL written into a row ends its string there. -/
theorem rowIs_cut {row : Nat → UInt8} {l r : List UInt8} (h : RowIs row (l ++ r)) :
    RowIs (fun j => if j = l.length then 0 else row j) l := by
  have hlt := h.length_lt
  rw [List.length_append] at hlt
  refine ⟨(spells_append.mp h.spells).1.congr fun i hi => ?_, ?_, by omega,
    fun c hc => h.noNul c (List.mem_append_left _ hc)⟩
  · exact if_neg (by omega)
  · exact if_pos rfl

/-- The rows after the one of the cursor was broken at the cursor. -/
structure BrokenRows (d : Document UInt8) (old new : Nat → Nat → UInt8) : Prop where
  above : ∀ i < d.above.length, new i = old i
  cut : RowIs (new d.above.length) d.left
  rest : RowIs (new (d.above.length + 1)) d.right
  below : ∀ i, d.above.length + 1 < i → i ≤ d.lines.length →
    RowIs (new i) (d.lines.getD (i - 1) [])
  outside : ∀ i, d.lines.length < i → new i = old i

/-- The rows below moved, the rest of the line copied, and the line cut off. -/
theorem BrokenRows.of_copies (h : Represents ed d) {moved copied : Nat → Nat → UInt8}
    (hkept : ∀ i, i ≤ d.above.length + 1 ∨ d.above.length + 1 + d.below.length < i →
      moved i = ed.lines i)
    (hmoved : ∀ i, d.above.length + 1 < i → i ≤ d.above.length + 1 + d.below.length →
      RowIs (moved i) (d.lines.getD (i - 1) []))
    (hother : ∀ i ≠ d.above.length + 1, copied i = moved i)
    (hrow : RowIs (copied (d.above.length + 1)) d.right) :
    BrokenRows d ed.lines
      (({ ed with lines := copied } : Editor).put d.above.length d.left.length 0).lines := by
  have hlength := d.length_lines
  generalize hfinal : (({ ed with lines := copied } : Editor).put d.above.length d.left.length
    0).lines = final
  have hcell (i : Nat) (hi : i ≠ d.above.length) : final i = copied i := by
    rw [← hfinal]
    exact funext (put_lines_of_ne _ hi)
  have hput : final d.above.length = fun j =>
      if j = d.left.length then 0 else moved d.above.length j := by
    funext j
    rw [← hfinal, put_lines_same, ← hother _ (by omega)]
  refine ⟨fun i hi => ?_, ?_, ?_, fun i hlow hhigh => ?_, fun i hi => ?_⟩
  · rw [hcell i (by omega), hother i (by omega), hkept i (by omega)]
  · rw [hput, hkept _ (by omega)]
    exact rowIs_cut h.line
  · rw [hcell _ (by omega)]
    exact hrow
  · rw [hcell i (by omega), hother i (by omega)]
    exact hmoved i (by omega) (by omega)
  · rw [hcell i (by omega), hother i (by omega), hkept i (by omega)]

/-- `editor_newline` moves the following lines down, then copies the rest of the
line, then ends the line. -/
theorem editorNewline_rows (h : Represents ed d) (hroom : d.lines.length < 256) :
    ∃ lines, BrokenRows d ed.lines lines ∧ editorNewline ed = some { ed with
      lines, lineCount := ed.lineCount + 1, cursorY := ed.cursorY + 1, cursorX := 0
      modified := true } := by
  have hcount := h.lineCount
  have habove := d.above_length_lt
  have hlength := d.length_lines
  obtain ⟨moved, hmove, hkept, hmoved⟩ := @moveDown_spec ed d.below.length (d.above.length + 1)
    (fun i => d.lines.getD i []) (by omega) fun i hlow hhigh => by
      rw [List.getD_eq_getElem _ _ (by omega)]
      exact h.rows i _ (List.getElem?_eq_getElem _)
  have hline : RowIs (moved d.above.length) (d.left ++ d.right) := by
    rw [hkept _ (by omega)]
    exact h.line
  obtain ⟨copied, hcopy, hother, hrow⟩ := @strcpy_of_row _ { ed with lines := moved }
    (d.above.length + 1) d.above.length d.left.length (by omega) (by omega) (by omega) hline
    (by simp)
  rw [List.drop_left] at hrow
  refine ⟨_, .of_copies h hkept hmoved hother hrow, ?_⟩
  have hlast := hline.length_lt
  rw [List.length_append] at hlast
  have hstart : ed.lineCount = (d.above.length + 1 + d.below.length : Nat) := by
    rw [hcount, hlength]
  have hturns : (ed.lineCount - (ed.cursorY + 1)).toNat = d.below.length := by
    rw [h.cursorY]
    omega
  have hcursorX := h.cursorX
  have hcursorY := h.cursorY
  obtain ⟨old, lineCount, cursorX, cursorY, scrollY, filename, modified, running⟩ := ed
  dsimp only at hcursorX hcursorY hturns hstart hmove hcopy
  subst hcursorX hcursorY
  rw [editorNewline, if_neg (by rw [editorMaxLines]; dsimp only; omega)]
  dsimp only
  rw [hturns]
  rw [← hstart] at hmove
  rw [hmove, Option.bind_eq_bind, Option.bind_some]
  dsimp only
  rw [show (d.above.length : Int) + 1 = (d.above.length + 1 : Nat) by omega, hcopy,
    Option.bind_some]
  dsimp only
  rw [set_of_lt _ (by omega) (by omega), Option.bind_some]
  rfl

theorem newline_lines (d : Document UInt8) :
    d.newline.lines = d.above ++ d.left :: d.right :: d.below := by
  simp [Document.lines, Document.line, Document.newline]

/-- These rows hold the lines of the broken text. -/
theorem BrokenRows.rows {lines : Nat → Nat → UInt8} (hbroken : BrokenRows d ed.lines lines)
    (h : Represents ed d) {i : Nat} {s : List UInt8} (hs : d.newline.lines[i]? = some s) :
    RowIs (lines i) s := by
  rw [newline_lines, getElem?_broken, ← Document.line, ← Document.lines] at hs
  split_ifs at hs with hlow heq heq'
  · rw [hbroken.above i hlow]
    exact h.rows i s hs
  · rw [heq, ← Option.some.inj hs]
    exact hbroken.cut
  · rw [heq', ← Option.some.inj hs]
    exact hbroken.rest
  · obtain ⟨hlt, hget⟩ := List.getElem?_eq_some_iff.mp hs
    have hrow := hbroken.below i (by omega) (by omega)
    rwa [List.getD_eq_getElem _ _ hlt, hget] at hrow

theorem BrokenRows.ended {lines : Nat → Nat → UInt8} (hbroken : BrokenRows d ed.lines lines)
    (h : Represents ed d) {y : Nat} (hy : y < 256) : ∃ s, RowIs (lines y) s := by
  by_cases hin : y ≤ d.lines.length
  · have hlt : y < d.newline.lines.length := by
      rw [newline_lines]
      simp only [Document.lines, List.length_append, List.length_cons] at hin ⊢
      omega
    exact ⟨_, hbroken.rows h (List.getElem?_eq_getElem hlt)⟩
  · rw [hbroken.outside y (by omega)]
    exact h.ended y hy

theorem Represents.noBreak_newline (h : Represents ed d) : ∀ s ∈ d.newline.lines, 0x0A ∉ s := by
  have hbreak := h.noBreak
  rw [newline_lines]
  simp only [Document.lines, Document.line, List.mem_append, List.mem_cons] at hbreak ⊢
  rintro s (hs | rfl | rfl | hs)
  · exact hbreak s (Or.inl hs)
  · exact fun hmem => hbreak _ (Or.inr (Or.inl rfl)) (List.mem_append_left _ hmem)
  · exact fun hmem => hbreak _ (Or.inr (Or.inl rfl)) (List.mem_append_right _ hmem)
  · exact hbreak s (Or.inr (Or.inr hs))

theorem editorNewline_edits (h : Represents ed d) :
    EditsTo ed (editorNewline ed) (if d.lines.length = 256 then d else d.newline) := by
  have hcount := h.lineCount
  have hfits := h.fits
  by_cases hfull : d.lines.length = 256
  · rw [if_pos hfull, editorNewline, if_pos (by rw [editorMaxLines]; omega)]
    exact EditsTo.refl h
  rw [if_neg hfull]
  obtain ⟨lines, hbroken, heq⟩ := editorNewline_rows h (by omega)
  have hlength : d.newline.lines.length = d.lines.length + 1 := by
    rw [newline_lines, Document.lines]
    simp only [List.length_append, List.length_cons]
    omega
  refine ⟨_, heq, ⟨?_, ?_, rfl, ?_, fun i s => hbroken.rows h, fun y => hbroken.ended h,
    h.noBreak_newline⟩, rfl, rfl, id⟩
  · rw [hlength]
    dsimp only
    omega
  · have hcursorY := h.cursorY
    simp only [Document.newline, List.length_append, List.length_singleton]
    omega
  · rw [hlength]
    omega

end Dosfs
