import Dosfs.Fs.TmpfsSlots
import Dosfs.Tools.EditorText

/-!
# Saving the text

`editor_save` joins the lines and replaces the file by the result. What the
buffer can hold always fits `save_buf`, but not always a file, and an empty text
is not written at all.
-/

namespace Dosfs

open Foundation Editor

/-- The rows up to `line_count` hold these lines. -/
structure HoldsLines (ed : Editor) (lines : List (List UInt8)) : Prop where
  lineCount : ed.lineCount = lines.length
  fits : lines.length ≤ 256
  rows : ∀ i s, lines[i]? = some s → RowIs (ed.lines i) s

/-- The lines with line breaks between them. -/
def joinLines (lines : List (List UInt8)) : List UInt8 := [0x0A].intercalate lines

variable {ed : Editor} {lines : List (List UInt8)} {t : Tmpfs}

theorem Represents.holdsLines {d : Document UInt8} (h : Represents ed d) : HoldsLines ed d.lines :=
  ⟨h.lineCount, h.fits, h.rows⟩

theorem joinLines_cons (s : List UInt8) (rest : List (List UInt8)) :
    joinLines (s :: rest) = if rest = [] then s else s ++ 0x0A :: joinLines rest := by
  cases rest with
  | nil => exact List.intercalate_singleton
  | cons s' rest =>
      rw [if_neg (List.cons_ne_nil _ _), joinLines, List.intercalate_cons_cons,
        List.append_assoc]
      rfl

/-! ## The loop -/

theorem readChars_of_row {y x : Nat} {s : List UInt8} (hy : y < 256) (hx : x + s.length ≤ 80)
    (hspells : Spells (ed.lines y) x s) : readChars ed y s.length x = some s := by
  induction s generalizing x with
  | nil => rfl
  | cons c s ih =>
      rw [List.length_cons] at hx ⊢
      have hrest := ih (by omega) hspells.2
      rw [Nat.cast_succ] at hrest
      rw [readChars, get_of_lt hy (by omega), hspells.1, Option.bind_eq_bind, Option.bind_some,
        hrest]
      rfl

/-- The lines always fit `save_buf`: each takes at most 80 bytes of it. -/
theorem saveLoop_eq (h : HoldsLines ed lines) (todo i : Nat) (hi : i + todo = lines.length)
    (out : List UInt8) (hout : out.length ≤ 80 * i) :
    saveLoop ed todo i out = some (out ++ joinLines (lines.drop i)) := by
  induction todo generalizing i out with
  | zero =>
      rw [saveLoop, List.drop_eq_nil_of_le (by omega), joinLines, List.intercalate_nil,
        List.append_nil]
  | succ todo ih =>
      have hlt : i < lines.length := by omega
      have hfits := h.fits
      have hrow := h.rows i _ (List.getElem?_eq_getElem hlt)
      have hlength := hrow.length_lt
      have hchars := readChars_of_row (by omega) (by omega) hrow.spells
      rw [Nat.cast_zero] at hchars
      rw [saveLoop, strlen_of_row (by omega) hrow, Option.bind_eq_bind, Option.bind_some,
        if_neg (by rw [editorLineLen, editorMaxLines]; omega), Int.toNat_natCast, hchars,
        Option.bind_eq_bind, Option.bind_some, ← Nat.cast_succ]
      dsimp only
      rw [List.drop_eq_getElem_cons hlt, joinLines_cons]
      by_cases hlast : todo = 0
      · subst hlast
        rw [if_neg (by rw [h.lineCount]; omega), if_pos (List.drop_eq_nil_of_le (by omega))]
        rfl
      · have hrest : lines.drop (i + 1) ≠ [] := by
          intro hnil
          rw [List.drop_eq_nil_iff] at hnil
          omega
        rw [if_pos (by rw [h.lineCount]; omega), if_neg hrest, ih (i + 1) (by omega) _ (by
          rw [List.length_append, List.length_append, List.length_singleton]
          omega)]
        simp

theorem saveLoop_text (h : HoldsLines ed lines) :
    saveLoop ed ed.lineCount.toNat 0 [] = some (joinLines lines) := by
  have hloop := saveLoop_eq h lines.length 0 (Nat.zero_add _) [] (Nat.zero_le _)
  rw [Nat.cast_zero] at hloop
  rw [h.lineCount, Int.toNat_natCast, hloop]
  rfl

/-! ## The file -/

/-- What is stored under the name after the text was saved: the first file goes,
and a text that is not empty is written to the next one, or to a new file. -/
def Tmpfs.savedContents (t : Tmpfs) (name : CString) (text : List UInt8) : List (List UInt8) :=
  if text = [] then (t.contents name).tail
  else if t.contents name ≠ [] ∨ t.fileCount < 32 then
    text.take 4096 :: (t.contents name).tail.tail
  else []

/-- The part of `editor_save` that replaces the file. -/
theorem replaceFile_spec (hsound : TmpfsSound t) {name : CString} (hshort : name.bytes.length ≤ 63)
    (text : List UInt8) :
    ∃ t', (if 0 < text.length then
        (tmpfsWrite name (Memory.storeList (fun _ => 0) 0 text) text.length
          (tmpfsDelete name t).2).map Prod.snd
      else some (tmpfsDelete name t).2) = some t' ∧
      Replaces t t' name (t.savedContents name text) := by
  have hdeleted := tmpfsDelete_replaces hsound name
  rw [Tmpfs.savedContents]
  by_cases hempty : text = []
  · subst hempty
    exact ⟨_, rfl, hdeleted⟩
  rw [if_pos (List.length_pos_of_ne_nil hempty), if_neg hempty]
  split_ifs with hroom
  · have hroom' : (tmpfsDelete name t).2.contents name ≠ [] ∨
        (tmpfsDelete name t).2.fileCount < 32 := by
      by_cases hexists : t.contents name = []
      · rw [tmpfsDelete_absent hexists]
        exact hroom
      · exact Or.inr (tmpfsDelete_room hsound hexists)
    obtain ⟨t', hwrite, hreplaces⟩ := tmpfsWrite_replaces hdeleted.sound hshort hroom'
      (Memory.storeList (fun _ => 0) 0 text) text.length
    have htext : (Memory.storeList (fun _ => 0) 0 text).loadList 0 (min text.length 4096) =
        text.take 4096 := by
      rw [Nat.min_comm, ← Memory.loadList_take, Memory.loadList_storeList_same]
    rw [htext, hdeleted.same] at hreplaces
    exact ⟨t', by rw [hwrite]; rfl, hdeleted.trans hreplaces⟩
  · obtain ⟨habsent, hfull⟩ := not_or.1 hroom
    have habsent := not_not.1 habsent
    refine ⟨t, ?_, habsent ▸ Replaces.refl hsound⟩
    rw [tmpfsDelete_absent habsent, tmpfsWrite_full habsent (not_lt.1 hfull)]
    rfl

/-- A save that gets as far as the file. -/
theorem editorSave_holds (hsound : TmpfsSound t) (h : HoldsLines ed lines)
    (hname : ed.filename.bytes ≠ []) (hshort : ed.filename.bytes.length ≤ 63) :
    ∃ t', editorSave false ed t = some ((0, .saved (joinLines lines).length ed.filename),
        { ed with modified := false }, t') ∧
      Replaces t t' ed.filename (t.savedContents ed.filename (joinLines lines)) := by
  obtain ⟨t', hreplace, hreplaces⟩ := replaceFile_spec hsound hshort (joinLines lines)
  refine ⟨t', ?_, hreplaces⟩
  rw [editorSave, if_neg hname, if_neg Bool.false_ne_true, saveLoop_text h, Option.bind_eq_bind,
    Option.bind_some]
  dsimp only
  rw [hreplace]
  rfl

theorem savedContents_head? (t : Tmpfs) (name : CString) (text : List UInt8) :
    (t.savedContents name text).head? = some text ↔
      (text ≠ [] ∧ text.length ≤ 4096 ∧ (t.content name ≠ none ∨ t.fileCount < 32)) ∨
        (text = [] ∧ (t.contents name)[1]? = some []) := by
  rw [Tmpfs.savedContents, ne_eq (t.content name), content_eq_none_iff]
  split_ifs with hempty hroom
  · rw [List.head?_tail, hempty]
    simp
  · rw [List.head?_cons, Option.some.injEq, List.take_eq_self_iff]
    simp [hempty, hroom]
  · simp [hempty, hroom]

theorem holdsLines_blank (hcount : ed.lineCount = 1) (hzero : ∀ x, ed.lines 0 x = 0) :
    HoldsLines ed [[]] := by
  refine ⟨hcount, by simp, fun i s hs => ?_⟩
  obtain ⟨rfl, rfl⟩ : i = 0 ∧ [] = s := by simpa [List.getElem?_singleton] using hs
  exact ⟨trivial, hzero 0, by simp, by simp⟩

/-- An editor with these lines in its rows, and zeros behind them. -/
def editorWith (name : CString) (lines : List (List UInt8)) : Editor :=
  { editorBlank name with
    lines := fun y x => (lines.getD y []).getD x 0
    lineCount := lines.length }

theorem holdsLines_editorWith (name : CString) (hfits : lines.length ≤ 256)
    (hshort : ∀ s ∈ lines, s.length < 80) (hnoNul : ∀ s ∈ lines, 0 ∉ s) :
    HoldsLines (editorWith name lines) lines := by
  refine ⟨rfl, hfits, fun i s hs => ?_⟩
  have hmem := List.mem_of_getElem? hs
  have hget : lines.getD i [] = s := by
    rw [List.getD_eq_getElem?_getD, hs]
    rfl
  have hrow : (editorWith name lines).lines i = fun x => s.getD x 0 := by
    rw [← hget]
    rfl
  rw [hrow]
  exact ⟨spells_getD s, List.getD_eq_default _ _ le_rfl, hshort s hmem,
    fun c hc hzero => hnoNul s hmem (hzero ▸ hc)⟩

/-- With memory for the buffer, a save does what it reports exactly when there is
no file name, or the text is not empty, fits a file and the file exists or has a
free slot; or when the text is empty and a second, empty file has the same name. -/
theorem save_stores_text_iff (hreach : RunsTo stepTmpfs tmpfsInit t) (h : HoldsLines ed lines)
    (hshort : ed.filename.bytes.length ≤ 63) :
    (∃ ret message ed' t', editorSave false ed t = some ((ret, message), ed', t') ∧
      (ret = 0 → t'.content ed.filename = some (joinLines lines)) ∧
      (ret ≠ 0 → ret = -1 ∧ t'.content ed.filename = t.content ed.filename)) ↔
    ed.filename.bytes = [] ∨
      (joinLines lines ≠ [] ∧ (joinLines lines).length ≤ 4096 ∧
        (t.content ed.filename ≠ none ∨ t.fileCount < 32)) ∨
      (joinLines lines = [] ∧ (t.contents ed.filename)[1]? = some []) := by
  by_cases hname : ed.filename.bytes = []
  · refine iff_of_true ⟨-1, .noFilename, ed, t, ?_, fun h => absurd h (by decide),
      fun _ => ⟨rfl, rfl⟩⟩ (Or.inl hname)
    rw [editorSave, if_pos hname]
  · obtain ⟨t', hsave, hreplaces⟩ :=
      editorSave_holds (TmpfsSound.of_runsTo hreach) h hname hshort
    rw [or_iff_right hname, ← savedContents_head?, ← hreplaces.same, ← content_eq_head?, hsave]
    constructor
    · rintro ⟨ret, message, ed', t'', heq, hstored, -⟩
      obtain ⟨hanswer, hstate⟩ := Prod.mk.inj (Option.some.inj heq)
      obtain ⟨rfl, -⟩ := Prod.mk.inj hanswer
      obtain ⟨-, rfl⟩ := Prod.mk.inj hstate
      exact hstored rfl
    · intro hstored
      exact ⟨0, _, _, t', rfl, fun _ => hstored, fun hne => absurd rfl hne⟩

/-- Three lines, the second one empty. -/
def gapLines : List (List UInt8) := [[0x78, 0x79], [], [0x7A]]

theorem holdsLines_gapLines (name : CString) : HoldsLines (editorWith name gapLines) gapLines :=
  holdsLines_editorWith name (by simp [gapLines]) (by simp [gapLines]) (by simp [gapLines])

theorem save_stores_text_of_gapLines :
    ∃ ed, HoldsLines ed gapLines ∧ ∃ ret message ed' t',
      editorSave false ed tmpfsInit = some ((ret, message), ed', t') ∧
      (ret = 0 → t'.content ed.filename = some [0x78, 0x79, 0x0A, 0x0A, 0x7A]) ∧
      (ret ≠ 0 → ret = -1 ∧ t'.content ed.filename = tmpfsInit.content ed.filename) := by
  have h := holdsLines_gapLines ⟨[0x61], by simp⟩
  exact ⟨_, h, (save_stores_text_iff (RunsTo.refl _) h (by simp [editorWith, editorBlank])).2
    (Or.inr (Or.inl ⟨by simp [gapLines, joinLines], by simp [gapLines, joinLines],
      Or.inr (by decide)⟩))⟩

/-- Saving an empty text answers 0 and deletes the file. -/
theorem empty_text_deletes_file :
    ∃ ed t message ed' t', RunsTo stepTmpfs tmpfsInit t ∧ HoldsLines ed [[]] ∧
      ed.filename.bytes = [0x61] ∧ t.content ed.filename = some [7] ∧
      editorSave false ed t = some ((0, message), ed', t') ∧ joinLines [[]] = [] ∧
      t'.content ed.filename = none := by
  obtain ⟨t, hreach, -, hcontents⟩ := exists_one_file
  obtain ⟨ed, hname, h⟩ : ∃ ed : Editor, ed.filename = ⟨[0x61], by simp⟩ ∧ HoldsLines ed [[]] :=
    ⟨editorBlank ⟨[0x61], by simp⟩, rfl, holdsLines_blank rfl fun _ => rfl⟩
  obtain ⟨t', hsave, hreplaces⟩ := editorSave_holds (TmpfsSound.of_runsTo hreach) h
    (by simp [hname]) (by simp [hname])
  rw [hname] at hreplaces
  refine ⟨ed, t, _, _, t', hreach, h, by rw [hname], ?_, hsave, rfl, ?_⟩
  · rw [hname, content_eq_head?, hcontents]
    rfl
  · rw [hname, content_eq_none_iff, hreplaces.same, Tmpfs.savedContents,
      if_pos (show joinLines [[]] = [] from rfl), hcontents]
    rfl

end Dosfs
