import Dosfs.Tools.EditorKeys
import Dosfs.Tools.EditorSaving

/-!
# Sessions of the editor

Every session, whatever file it opens and whatever is typed, stays within the
rows of the editor and keeps the cursor in the text and on the screen; each key
has on the text the effect of an edit at the cursor.
-/

namespace Dosfs

open Foundation Editor

variable {ed : Editor} {d : Document UInt8} {t : Tmpfs}

/-! ## Drawing and saving -/

theorem drawLine_isSome {y fuel x : Nat} (hy : y < 256) (hx : x + fuel ≤ 80) :
    (drawLine ed y fuel x).isSome := by
  induction fuel generalizing x with
  | zero => rfl
  | succ fuel ih =>
      rw [drawLine, get_of_lt hy (by omega), Option.bind_eq_bind, Option.bind_some]
      split
      next => rfl
      next =>
        obtain ⟨rest, hrest⟩ := Option.isSome_iff_exists.mp (ih (show x + 1 + fuel ≤ 80 by omega))
        rw [Nat.cast_succ] at hrest
        rw [hrest]
        rfl

theorem drawRows_isSome (ed : Editor) (hcount : ed.lineCount ≤ 256) (hscroll : 0 ≤ ed.scrollY)
    (todo i : Nat) : (drawRows ed todo i).isSome := by
  induction todo generalizing i with
  | zero => rfl
  | succ todo ih =>
      obtain ⟨rest, hrest⟩ := Option.isSome_iff_exists.mp (ih (i + 1))
      rw [Nat.cast_succ] at hrest
      obtain ⟨scroll, hscrollY⟩ := Int.eq_ofNat_of_zero_le hscroll
      have hline : (if (i : Int) + ed.scrollY < ed.lineCount then
          drawLine ed (i + ed.scrollY) 76 0 else some []).isSome := by
        split
        next hlt =>
          rw [hscrollY, ← Nat.cast_add]
          exact drawLine_isSome (x := 0) (by omega) (by decide)
        next => rfl
      obtain ⟨row, hrow⟩ := Option.isSome_iff_exists.mp hline
      rw [drawRows, hrow, hrest]
      rfl

theorem editorDraw_isSome (h : Represents ed d) (hscroll : 0 ≤ ed.scrollY) :
    (editorDraw ed).isSome := by
  have hcount := h.lineCount
  have hfits := h.fits
  have hline := h.line.length_lt
  rw [List.length_append] at hline
  obtain ⟨rows, hrows⟩ := Option.isSome_iff_exists.mp
    (drawRows_isSome ed (by omega) hscroll 23 0)
  rw [Nat.cast_zero] at hrows
  rw [editorDraw, hrows, Option.bind_eq_bind, Option.bind_some]
  split
  next =>
    rw [h.cursorY, h.cursorX, get_of_lt h.above_lt (by omega)]
    rfl
  next => rfl

/-- Saving leaves the text and the cursor alone. -/
theorem editorSave_spec (h : Represents ed d) (hsound : TmpfsSound t)
    (hname : ed.filename.bytes.length ≤ 63) (kmallocFails : Bool) :
    ∃ ret ed' t', editorSave kmallocFails ed t = some (ret, ed', t') ∧ TmpfsSound t' ∧
      Represents ed' d ∧ ed'.filename = ed.filename ∧ ed'.running = ed.running ∧
      ed'.scrollY = ed.scrollY := by
  have hsaved : Represents { ed with modified := false } d :=
    ⟨h.lineCount, h.cursorY, h.cursorX, h.fits, h.rows, h.ended, h.noBreak⟩
  by_cases hempty : ed.filename.bytes = []
  · rw [editorSave, if_pos hempty]
    exact ⟨_, ed, t, rfl, hsound, h, rfl, rfl, rfl⟩
  cases kmallocFails with
  | true =>
      rw [editorSave, if_neg hempty, if_pos rfl]
      exact ⟨_, ed, t, rfl, hsound, h, rfl, rfl, rfl⟩
  | false =>
      obtain ⟨t', hsave, hreplaces⟩ := editorSave_holds hsound h.holdsLines hempty hname
      exact ⟨_, _, t', hsave, hreplaces.sound, hsaved, rfl, rfl, rfl⟩

/-! ## Loading -/

/-- Rows that all end within their 80 bytes and contain no line break hold a
document, with the cursor at its start. -/
theorem represents_document (hended : ∀ y < 256, ∃ x < 80, ed.lines y x = 0)
    (hbreak : ∀ y x, ed.lines y x ≠ 0x0A) (hcount : 1 ≤ ed.lineCount ∧ ed.lineCount ≤ 256)
    (hcursorX : ed.cursorX = 0) (hcursorY : ed.cursorY = 0) : Represents ed ed.document := by
  generalize hlines : ((List.range ed.lineCount.toNat).map fun y => rowString (ed.lines y)) = lines
  have hlength : lines.length = ed.lineCount.toNat := by
    rw [← hlines, List.length_map, List.length_range]
  have hdocument : ed.document = Document.ofLines lines 0 0 := by
    rw [Editor.document, hlines, hcursorX, hcursorY]
    rfl
  have hsame : ed.document.lines = lines := by
    rw [hdocument, Document.ofLines_lines (by omega)]
  have hrow (y : Nat) (hy : y < 256) : RowIs (ed.lines y) (rowString (ed.lines y)) := by
    obtain ⟨s, hs⟩ := exists_rowIs (hended y hy)
    rwa [rowString_eq hs]
  refine ⟨?_, ?_, ?_, ?_, fun i s hs => ?_, fun y hy => ⟨_, hrow y hy⟩, fun s hs => ?_⟩
  · rw [hsame, hlength]
    omega
  · rw [hdocument, hcursorY]
    rfl
  · rw [hdocument, hcursorX, Document.ofLines, List.take_zero]
    rfl
  · rw [hsame, hlength]
    omega
  · rw [hsame] at hs
    obtain ⟨hi, hget⟩ := List.getElem?_eq_some_iff.mp hs
    have hstring : rowString (ed.lines i) = s := by
      rw [← hget]
      simp only [← hlines, List.getElem_map, List.getElem_range]
    rw [← hstring]
    exact hrow i (by omega)
  · rw [hsame, ← hlines] at hs
    obtain ⟨y, -, rfl⟩ := List.mem_map.mp hs
    intro hmem
    obtain ⟨x, -, hx⟩ := List.mem_map.mp ((List.takeWhile_sublist _).subset hmem)
    exact hbreak y x hx

/-- The rows while a file is loaded: the lines above are complete, and nothing
was stored from the current place on. -/
structure Loading (lines : Nat → Nat → UInt8) (line col : Nat) : Prop where
  line_le : line ≤ 256
  col_le : col ≤ 79
  col_eq : line = 256 → col = 0
  ended : ∀ y < line, ∃ x < 80, lines y x = 0
  fresh : ∀ x, col ≤ x → lines line x = 0
  blank : ∀ y, line < y → ∀ x, lines y x = 0
  noBreak : ∀ y x, lines y x ≠ 0x0A

/-- When loading ends every row ends, whatever bytes the lines are made of. -/
theorem Loading.all_ended {lines : Nat → Nat → UInt8} {line col : Nat} (h : Loading lines line col)
    (y : Nat) : ∃ x < 80, lines y x = 0 := by
  have hcol := h.col_le
  rcases Nat.lt_trichotomy y line with hlt | rfl | hgt
  · exact h.ended y hlt
  · exact ⟨col, by omega, h.fresh col (le_refl _)⟩
  · exact ⟨0, by decide, h.blank y hgt 0⟩

/-- The end of a line. -/
theorem Loading.nextLine {line col : Nat} (h : Loading ed.lines line col) (hline : line < 256) :
    Loading (ed.put line col 0).lines (line + 1) 0 where
  line_le := hline
  col_le := Nat.zero_le _
  col_eq _ := rfl
  ended y hy := by
    have hcol := h.col_le
    rcases Nat.eq_or_lt_of_le (Nat.le_of_lt_succ hy) with rfl | hlt
    · exact ⟨col, by omega, by rw [put_lines_same, if_pos rfl]⟩
    · obtain ⟨x, hx, hzero⟩ := h.ended y hlt
      exact ⟨x, hx, by rw [put_lines_of_ne _ (by omega), hzero]⟩
  fresh x _ := by
    rw [put_lines_of_ne _ (by omega)]
    exact h.blank _ (Nat.lt_succ_self _) x
  blank y hy x := by
    rw [put_lines_of_ne _ (by omega)]
    exact h.blank y (by omega) x
  noBreak y x := by
    by_cases heq : y = line
    · subst heq
      rw [put_lines_same]
      split_ifs
      · decide
      · exact h.noBreak y x
    · rw [put_lines_of_ne _ heq]
      exact h.noBreak y x

/-- One more byte of a line. -/
theorem Loading.nextByte {line col : Nat} {b : UInt8} (h : Loading ed.lines line col)
    (hline : line < 256) (hcol : col < 79) (hb : b ≠ 0x0A) :
    Loading (ed.put line col b).lines line (col + 1) where
  line_le := hline.le
  col_le := hcol
  col_eq heq := absurd heq hline.ne
  ended y hy := by
    obtain ⟨x, hx, hzero⟩ := h.ended y hy
    exact ⟨x, hx, by rw [put_lines_of_ne _ (by omega), hzero]⟩
  fresh x hx := by
    rw [put_lines_same, if_neg (by omega)]
    exact h.fresh x (by omega)
  blank y hy x := by
    rw [put_lines_of_ne _ (by omega)]
    exact h.blank y hy x
  noBreak y x := by
    by_cases heq : y = line
    · subst heq
      rw [put_lines_same]
      split_ifs
      · exact hb
      · exact h.noBreak y x
    · rw [put_lines_of_ne _ heq]
      exact h.noBreak y x

theorem loadLoop_spec (bytes : List UInt8) {line col : Nat} (h : Loading ed.lines line col) :
    ∃ (line' col' : Nat) (lines : Nat → Nat → UInt8),
      loadLoop bytes line col ed = some ((line' : Int), (col' : Int), { ed with lines }) ∧
        Loading lines line' col' := by
  induction bytes generalizing ed line col with
  | nil => exact ⟨line, col, ed.lines, rfl, h⟩
  | cons b bytes ih =>
      have hcol := h.col_le
      rw [loadLoop]
      split
      next hline =>
        have hline : line < 256 := by
          rw [editorMaxLines] at hline
          omega
        split
        next =>
          rw [set_of_lt _ hline (by omega), Option.bind_eq_bind, Option.bind_some, ← Nat.cast_succ]
          exact @ih (ed.put line col 0) (line + 1) 0 (h.nextLine hline)
        next hb =>
          split
          next hroom =>
            have hroom : col < 79 := by
              rw [editorLineLen] at hroom
              omega
            rw [set_of_lt _ hline (by omega), Option.bind_eq_bind, Option.bind_some,
              ← Nat.cast_succ]
            exact @ih (ed.put line col b) line (col + 1) (h.nextByte hline hroom hb)
          next => exact ih h
      next => exact ⟨line, col, ed.lines, rfl, h⟩

/-- An editor that is about to run. -/
structure Ready (ed : Editor) (d : Document UInt8) : Prop where
  represents : Represents ed d
  scroll : 0 ≤ ed.scrollY ∧ ed.scrollY ≤ ed.cursorY ∧ ed.cursorY < ed.scrollY + contentH
  filename : ed.filename.bytes.length ≤ 63

theorem Ready.of_document (hended : ∀ y < 256, ∃ x < 80, ed.lines y x = 0)
    (hbreak : ∀ y x, ed.lines y x ≠ 0x0A) (hcount : 1 ≤ ed.lineCount ∧ ed.lineCount ≤ 256)
    (hcursorX : ed.cursorX = 0) (hcursorY : ed.cursorY = 0) (hscroll : ed.scrollY = 0)
    (hname : ed.filename.bytes.length ≤ 63) : Ready ed ed.document where
  represents := represents_document hended hbreak hcount hcursorX hcursorY
  scroll := by
    rw [hcursorY, hscroll]
    decide
  filename := hname

/-- How a session starts. -/
inductive EditorStart
  | new
  | openFile (kmallocFails : Bool) (filename : CString)

def EditorStart.run : EditorStart → Tmpfs → Option Editor
  | .new, _ => editorNew
  | .openFile kmallocFails filename, t => editorOpen kmallocFails filename t

private theorem blank_ready (name : CString) (hname : name.bytes.length ≤ 63) :
    ∃ ed, (editorBlank name).set 0 0 0 = some ed ∧ Ready ed ed.document ∧ ed.running = true := by
  have hzero (y x : Nat) : ((editorBlank name).put 0 0 0).lines y x = 0 := by
    simp [put, editorBlank]
  refine ⟨(editorBlank name).put 0 0 0, rfl,
    Ready.of_document (fun y _ => ⟨0, by decide, hzero y 0⟩) (fun y x => by rw [hzero]; decide)
      ⟨le_refl _, show (1 : Int) ≤ 256 by decide⟩ rfl rfl rfl hname, rfl⟩

/-- Every file is loaded as a document. -/
theorem EditorStart.run_ready (start : EditorStart) (t : Tmpfs) :
    ∃ ed, start.run t = some ed ∧ Ready ed ed.document ∧ ed.running = true := by
  cases start with
  | new => exact blank_ready ⟨[], by simp⟩ (by decide)
  | openFile kmallocFails filename =>
      generalize hname : CString.ofBuffer (filename.bytes.take 63) = name
      have hshort : name.bytes.length ≤ 63 := by
        have hle := (List.takeWhile_sublist (· != 0) (l := filename.bytes.take 63)).length_le
        rw [List.length_take] at hle
        rw [← hname]
        exact hle.trans (min_le_left _ _)
      rw [EditorStart.run, editorOpen, hname]
      split
      next => exact blank_ready name hshort
      next =>
        dsimp only
        split
        next =>
          have hstart : Loading (editorBlank name).lines 0 0 :=
            ⟨by decide, by decide, fun _ => rfl, fun y hy => absurd hy (Nat.not_lt_zero y),
              fun _ _ => rfl, fun _ _ _ => rfl, fun _ _ => show (0 : UInt8) ≠ 0x0A by decide⟩
          obtain ⟨line, col, lines, hload, hloaded⟩ :=
            loadLoop_spec (tmpfsRead filename (tmpfsDataSize - 1) t).2 hstart
          rw [Nat.cast_zero] at hload
          rw [hload, Option.bind_eq_bind, Option.bind_some]
          dsimp only
          have hle := hloaded.line_le
          have hcol := hloaded.col_le
          have hcol_eq := hloaded.col_eq
          split
          next hopen =>
            -- the last line has no line break of its own
            have hlast : line < 256 := by omega
            have hnext := @Loading.nextLine { editorBlank name with lines } line col hloaded hlast
            rw [set_of_lt _ hlast (by omega), Option.bind_eq_bind, Option.bind_some]
            exact ⟨_, rfl, Ready.of_document (fun y _ => hnext.all_ended y) hnext.noBreak
              ⟨by dsimp only; omega, by dsimp only; omega⟩ rfl rfl rfl hshort, rfl⟩
          next hclosed =>
            exact ⟨_, rfl, Ready.of_document (fun y _ => hloaded.all_ended y) hloaded.noBreak
              ⟨by dsimp only; omega, by dsimp only; omega⟩ rfl rfl rfl hshort, rfl⟩
        next => exact blank_ready name hshort

/-! ## Keys -/

/-- What a key does to the text. -/
def KeyEffect (key : UInt8) (d d' : Document UInt8) : Prop :=
  if key = 0x0A then
    if d.lines.length = 256 then d' = d
    else d'.before 0x0A = d.before 0x0A ++ [0x0A] ∧ d'.after 0x0A = d.after 0x0A
  else if key = 0x08 then
    if d.before 0x0A = [] ∨ d.left = [] ∧ ¬ JoinFits d then d' = d
    else d'.before 0x0A = (d.before 0x0A).dropLast ∧ d'.after 0x0A = d.after 0x0A
  else if 32 ≤ key ∧ key < 127 then
    if d.line.length = 79 then d' = d
    else d'.before 0x0A = d.before 0x0A ++ [key] ∧ d'.after 0x0A = d.after 0x0A
  else if 0xF1 ≤ key ∧ key ≤ 0xF8 then d'.lines = d.lines
  else d' = d

theorem keyEffect_newline (d : Document UInt8) :
    KeyEffect 0x0A d (if d.lines.length = 256 then d else d.newline) := by
  rw [KeyEffect, if_pos rfl]
  split_ifs
  · rfl
  · exact ⟨Document.before_newline d, rfl⟩

theorem keyEffect_backspace (d : Document UInt8) :
    KeyEffect 0x08 d (if d.left = [] ∧ ¬ JoinFits d then d else d.backspace) := by
  rw [KeyEffect, if_neg (by decide), if_pos rfl]
  by_cases hstop : d.left = [] ∧ ¬ JoinFits d
  · rw [if_pos (Or.inr hstop), if_pos hstop]
  · rw [if_neg hstop]
    split
    next hstart =>
      obtain ⟨habove, hleft⟩ := Document.before_eq_nil_iff.mp (hstart.resolve_right hstop)
      rw [Document.backspace, if_pos hleft, habove]
      rfl
    next => exact ⟨Document.before_backspace d, Document.after_backspace d⟩

theorem keyEffect_insert {key : UInt8} (hkey : 32 ≤ key ∧ key < 127) (d : Document UInt8) :
    KeyEffect key d (if d.line.length = 79 then d else d.insert key) := by
  rw [KeyEffect, if_neg (by rintro rfl; revert hkey; decide),
    if_neg (by rintro rfl; revert hkey; decide), if_pos hkey]
  split_ifs
  · rfl
  · exact ⟨Document.before_insert key d, rfl⟩

/-- The text after an edit determines the document. -/
theorem KeyEffect.unique {key : UInt8} {d' d'' : Document UInt8}
    (hkey : ¬ (0xF1 ≤ key ∧ key ≤ 0xF8)) (h' : KeyEffect key d d') (h'' : KeyEffect key d d'')
    (hbreak' : ∀ l ∈ d'.lines, 0x0A ∉ l) (hbreak'' : ∀ l ∈ d''.lines, 0x0A ∉ l) : d' = d'' := by
  unfold KeyEffect at h' h''
  rw [if_neg hkey] at h' h''
  split_ifs at h' h''
  all_goals first
    | exact h'.trans h''.symm
    | exact Document.eq_of_text hbreak' hbreak'' (h'.1.trans h''.1.symm) (h'.2.trans h''.2.symm)

/-- The document is the same for two editors that differ in the view only. -/
theorem Represents.congr (h : Represents ed d) {ed' : Editor} (hlines : ed'.lines = ed.lines)
    (hcount : ed'.lineCount = ed.lineCount) (hy : ed'.cursorY = ed.cursorY)
    (hx : ed'.cursorX = ed.cursorX) : Represents ed' d :=
  ⟨hcount.trans h.lineCount, hy.trans h.cursorY, hx.trans h.cursorX, h.fits, hlines ▸ h.rows,
    hlines ▸ h.ended, h.noBreak⟩

/-- After the last lines of the loop body the cursor is on the screen. -/
theorem adjustScroll_ready (h : Represents ed d) (hscroll : 0 ≤ ed.scrollY)
    (hname : ed.filename.bytes.length ≤ 63) : Ready (adjustScroll ed) d := by
  have hy := h.cursorY
  have hcontent : contentH = 23 := rfl
  refine ⟨h.congr rfl rfl rfl rfl, ?_, hname⟩
  simp only [adjustScroll]
  split_ifs <;> omega

/-- What the dispatch on a key returns. -/
def DispatchesTo (ed : Editor) (result : Option (Editor × Tmpfs)) (d' : Document UInt8) : Prop :=
  ∃ ed' t', result = some (ed', t') ∧ TmpfsSound t' ∧ Represents ed' d' ∧
    ed'.filename = ed.filename ∧ (0 ≤ ed.scrollY → 0 ≤ ed'.scrollY)

theorem EditsTo.dispatches {result : Option Editor} {d' : Document UInt8}
    (h : EditsTo ed result d') (hsound : TmpfsSound t) :
    DispatchesTo ed (result.map fun ed => (ed, t)) d' := by
  obtain ⟨ed', rfl, hrepresents, hname, -, hscroll⟩ := h
  exact ⟨ed', t, rfl, hsound, hrepresents, hname, hscroll⟩

/-- A navigation key. -/
private theorem MovesIn.dispatches {result : Option Editor} {key : UInt8}
    (h : MovesIn ed result d) (hsound : TmpfsSound t) (hkey : 0xF1 ≤ key ∧ key ≤ 0xF8) :
    ∃ d', KeyEffect key d d' ∧ DispatchesTo ed (result.map fun ed => (ed, t)) d' := by
  obtain ⟨d', hlines, hedits⟩ := h
  refine ⟨d', ?_, hedits.dispatches hsound⟩
  have hplain : ¬ (32 ≤ key ∧ key < 127) := fun hprint =>
    absurd (UInt8.lt_of_le_of_lt hkey.1 hprint.2) (by decide)
  rw [KeyEffect, if_neg (by rintro rfl; revert hkey; decide),
    if_neg (by rintro rfl; revert hkey; decide), if_neg hplain, if_pos hkey]
  exact hlines

/-- A key that does nothing to the text. -/
theorem keyEffect_refl {key : UInt8} (d : Document UInt8) (hnewline : key ≠ 0x0A)
    (hback : key ≠ 0x08) (hplain : ¬ (32 ≤ key ∧ key < 127)) : KeyEffect key d d := by
  rw [KeyEffect, if_neg hnewline, if_neg hback, if_neg hplain]
  split_ifs <;> rfl

theorem dispatches_ite {key : UInt8} {test : Prop} [Decidable test]
    {result result' : Option (Editor × Tmpfs)}
    (hresult : test → ∃ d', KeyEffect key d d' ∧ DispatchesTo ed result d')
    (hresult' : ¬ test → ∃ d', KeyEffect key d d' ∧ DispatchesTo ed result' d') :
    ∃ d', KeyEffect key d d' ∧ DispatchesTo ed (if test then result else result') d' := by
  split
  next htest => exact hresult htest
  next htest => exact hresult' htest

theorem dispatchKey_spec (h : Represents ed d) (hsound : TmpfsSound t)
    (hname : ed.filename.bytes.length ≤ 63) (press : KeyPress) :
    ∃ d', KeyEffect press.key d d' ∧ DispatchesTo ed (dispatchKey press ed t) d' := by
  obtain ⟨key, kmallocFails⟩ := press
  unfold dispatchKey
  dsimp only
  -- The tests come in the order of the source's else-if chain; each key has its own lemma.
  refine dispatches_ite (fun hquit => ?_) fun hquit => ?_
  · exact ⟨d, keyEffect_refl d (by subst hquit; decide) (by subst hquit; decide)
      (by subst hquit; decide), _, t, rfl, hsound, h.congr rfl rfl rfl rfl, rfl, id⟩
  refine dispatches_ite (fun hsave => ?_) fun hsave => ?_
  · obtain ⟨ret, ed', t', heq, hsound', h', hname', -, hscroll⟩ :=
      editorSave_spec h hsound hname kmallocFails
    exact ⟨d, keyEffect_refl d (by subst hsave; decide) (by subst hsave; decide)
      (by subst hsave; decide), ed', t', by rw [heq]; rfl, hsound', h', hname',
      fun hle => by rwa [hscroll]⟩
  refine dispatches_ite (fun hnewline => ?_) fun hnewline => ?_
  · subst hnewline
    exact ⟨_, keyEffect_newline d, (editorNewline_edits h).dispatches hsound⟩
  refine dispatches_ite (fun hback => ?_) fun hback => ?_
  · subst hback
    exact ⟨_, keyEffect_backspace d, (editorDeleteChar_edits h).dispatches hsound⟩
  refine dispatches_ite (fun hup => ?_) fun hup => ?_
  · exact (keyUp_moves h).dispatches hsound (by subst hup; decide)
  refine dispatches_ite (fun hdown => ?_) fun hdown => ?_
  · exact (keyDown_moves h).dispatches hsound (by subst hdown; decide)
  refine dispatches_ite (fun hleft => ?_) fun hleft => ?_
  · exact (keyLeft_moves h).dispatches hsound (by subst hleft; decide)
  refine dispatches_ite (fun hright => ?_) fun hright => ?_
  · exact (keyRight_moves h).dispatches hsound (by subst hright; decide)
  refine dispatches_ite (fun hhome => ?_) fun hhome => ?_
  · exact (keyHome_moves h).dispatches hsound (by subst hhome; decide)
  refine dispatches_ite (fun hend => ?_) fun hend => ?_
  · exact (keyEnd_moves h).dispatches hsound (by subst hend; decide)
  refine dispatches_ite (fun hpgup => ?_) fun hpgup => ?_
  · exact (keyPgup_moves h).dispatches hsound (by subst hpgup; decide)
  refine dispatches_ite (fun hpgdn => ?_) fun hpgdn => ?_
  · exact (keyPgdn_moves h).dispatches hsound (by subst hpgdn; decide)
  -- Any other key is inserted if it is printable and ignored if it is not.
  refine dispatches_ite (fun hprint => ?_) fun hprint => ?_
  · refine ⟨_, keyEffect_insert hprint d, (editorInsertChar_edits h ?_ hnewline).dispatches hsound⟩
    rintro rfl
    revert hprint
    decide
  · exact ⟨d, keyEffect_refl d hnewline hback hprint, ed, t, rfl, hsound, h, rfl, id⟩

/-- One turn of the main loop. -/
theorem editorTurn_spec (h : Ready ed d) (hsound : TmpfsSound t) (press : KeyPress) :
    ∃ ed' t' d', editorTurn press ed t = some (ed', t') ∧ Ready ed' d' ∧ TmpfsSound t' ∧
      KeyEffect press.key d d' := by
  obtain ⟨view, hdraw⟩ :=
    Option.isSome_iff_exists.mp (editorDraw_isSome h.represents h.scroll.1)
  obtain ⟨d', heffect, ed', t', hdispatch, hsound', hrepresents, hname, hscroll⟩ :=
    dispatchKey_spec h.represents hsound h.filename press
  refine ⟨adjustScroll ed', t', d', ?_,
    adjustScroll_ready hrepresents (hscroll h.scroll.1) (hname ▸ h.filename), hsound', heffect⟩
  rw [editorTurn, hdraw, Option.bind_eq_bind, Option.bind_some, hdispatch]
  rfl

/-! ## Sessions -/

theorem editorRun_ready (keys : List KeyPress) (h : Ready ed d) (hsound : TmpfsSound t) :
    ∃ ed' t' d', editorRun keys ed t = some (ed', t') ∧ Ready ed' d' ∧ TmpfsSound t' := by
  induction keys generalizing ed d t with
  | nil =>
      refine ⟨ed, t, d, ?_, h, hsound⟩
      obtain ⟨view, hdraw⟩ :=
        Option.isSome_iff_exists.mp (editorDraw_isSome h.represents h.scroll.1)
      rw [editorRun, hdraw]
      split <;> rfl
  | cons press keys ih =>
      rw [editorRun]
      split
      next =>
        obtain ⟨ed₁, t₁, d₁, hturn, hready₁, hsound₁, -⟩ := editorTurn_spec h hsound press
        rw [hturn]
        exact ih hready₁ hsound₁
      next => exact ⟨ed, t, d, rfl, h, hsound⟩

/-- A whole session. -/
def editorSession (start : EditorStart) (keys : List KeyPress) (t : Tmpfs) :
    Option (Editor × Tmpfs) := do
  let ed ← start.run t
  editorRun keys ed t

theorem editorSession_ready (start : EditorStart) (keys : List KeyPress)
    (hsound : TmpfsSound t) :
    ∃ ed t', editorSession start keys t = some (ed, t') ∧ Ready ed ed.document ∧
      TmpfsSound t' := by
  obtain ⟨ed, hstart, hready, -⟩ := start.run_ready t
  obtain ⟨ed', t', d', hrun, hready', hsound'⟩ := editorRun_ready keys hready hsound
  refine ⟨ed', t', ?_, hready'.represents.document_eq.symm ▸ hready', hsound'⟩
  rw [editorSession, hstart]
  exact hrun

/-- The cursor and buffer invariant of the editor. -/
structure Editor.InBounds (ed : Editor) : Prop where
  lineCount : 1 ≤ ed.lineCount ∧ ed.lineCount ≤ 256
  ended : ∀ y < 256, ∃ x < 80, ed.lines y x = 0
  cursorY : 0 ≤ ed.cursorY ∧ ed.cursorY < ed.lineCount
  cursorX : ∃ len, ed.strlen ed.cursorY = some len ∧ 0 ≤ ed.cursorX ∧ ed.cursorX ≤ len
  scrollY : ed.scrollY ≤ ed.cursorY ∧ ed.cursorY < ed.scrollY + 23

theorem Ready.inBounds (h : Ready ed d) : ed.InBounds := by
  have hcount := h.represents.lineCount
  have hy := h.represents.cursorY
  have hx := h.represents.cursorX
  have hfits := h.represents.fits
  have hlt := d.above_length_lt
  refine ⟨by omega, fun y hy => ?_, by omega, ⟨(d.left ++ d.right).length, ?_, ?_⟩, h.scroll.2⟩
  · obtain ⟨s, hs⟩ := h.represents.ended y hy
    exact ⟨s.length, hs.length_lt, hs.ended⟩
  · rw [hy]
    exact strlen_of_row h.represents.above_lt h.represents.line
  · rw [List.length_append]
    omega

/-- Whatever is opened and typed, no access leaves the rows, and the cursor and
buffer invariant holds after each key. -/
theorem editor_in_bounds (hsound : TmpfsSound t) (start : EditorStart) (keys : List KeyPress) :
    ∃ ed t', editorSession start keys t = some (ed, t') ∧ ed.InBounds := by
  obtain ⟨ed, t', hsession, hready, -⟩ := editorSession_ready start keys hsound
  exact ⟨ed, t', hsession, hready.inBounds⟩

/-- A line that is too long, and more lines than there are rows. -/
def longText : List UInt8 := List.replicate 100 0x61 ++ (List.replicate 300 [0x0A, 0x62]).flatten

theorem longText_length : longText.length = 700 := by
  simp only [longText, List.length_append, List.length_replicate, List.length_flatten,
    List.map_replicate, List.sum_replicate]
  rfl

theorem editor_in_bounds_longText :
    ∃ t : Tmpfs, t.content ⟨[0x61], by simp⟩ = some longText ∧
      ∃ ed t', editorSession (.openFile false ⟨[0x61], by simp⟩) [⟨0xF8, false⟩, ⟨0x63, false⟩] t =
        some (ed, t') ∧ ed.InBounds := by
  obtain ⟨t, hreach, hcontents⟩ := @exists_file ⟨[0x61], by simp⟩ (by simp) longText
    (longText_length.trans_le (by decide))
  refine ⟨t, by rw [content_eq_head?, hcontents]; rfl, ?_⟩
  exact editor_in_bounds (TmpfsSound.of_runsTo hreach) _ _

/-- After any session, a key edits the text at the cursor. -/
theorem editor_refines_text (hsound : TmpfsSound t) (start : EditorStart) (keys : List KeyPress)
    (press : KeyPress) :
    ∃ ed t', editorSession start keys t = some (ed, t') ∧
      (∀ l ∈ ed.document.lines, 0x0A ∉ l) ∧
      ∃ ed' t'', editorTurn press ed t' = some (ed', t'') ∧
        KeyEffect press.key ed.document ed'.document := by
  obtain ⟨ed, t', hsession, hready, hsound'⟩ := editorSession_ready start keys hsound
  obtain ⟨ed', t'', d', hturn, hready', -, heffect⟩ := editorTurn_spec hready hsound' press
  refine ⟨ed, t', hsession, hready.represents.noBreak, ed', t'', hturn, ?_⟩
  rwa [hready'.represents.document_eq]

theorem editor_refines_text_longText :
    ∃ t : Tmpfs, t.content ⟨[0x61], by simp⟩ = some longText ∧
      ∃ ed t', editorSession (.openFile false ⟨[0x61], by simp⟩) [⟨0x62, false⟩] t =
          some (ed, t') ∧
        (∀ l ∈ ed.document.lines, 0x0A ∉ l) ∧
        ∃ ed' t'', editorTurn ⟨0x0A, false⟩ ed t' = some (ed', t'') ∧
          KeyEffect 0x0A ed.document ed'.document := by
  obtain ⟨t, hreach, hcontents⟩ := @exists_file ⟨[0x61], by simp⟩ (by simp) longText
    (longText_length.trans_le (by decide))
  refine ⟨t, by rw [content_eq_head?, hcontents]; rfl, ?_⟩
  exact editor_refines_text (TmpfsSound.of_runsTo hreach) _ _ _

end Dosfs
