import Dosfs.Tools.EditorSaving

/-!
# Opening what was saved

`editor_save` puts line breaks between the lines, `editor_open` takes one as the
end of a line. They agree on every text whose last line is not empty; an empty
last line is lost.
-/

namespace Dosfs

open Foundation Editor

/-- The rows while a text is loaded: the lines before the current one are
complete, what was read of the current one is there, and all the rest is zero. -/
structure LoadedTo (rows : Nat → Nat → UInt8) (done : List (List UInt8)) (current : List UInt8) :
    Prop where
  complete : ∀ i s, done[i]? = some s → RowIs (rows i) s
  spells : Spells (rows done.length) 0 current
  fresh : ∀ x, current.length ≤ x → rows done.length x = 0
  blank : ∀ y, done.length < y → ∀ x, rows y x = 0

/-- A text that `editor_save` can write and `editor_open` can read whole; the
lines are of printable characters, or of any but NUL and the line break. -/
structure IsText (lines : List (List UInt8)) : Prop where
  fits : lines.length ≤ 256
  width : ∀ s ∈ lines, s.length ≤ 79
  plain : ∀ s ∈ lines, ∀ c ∈ s, c ≠ 0 ∧ c ≠ 0x0A
  nonempty : 0 < (joinLines lines).length
  length_le : (joinLines lines).length ≤ 4095

variable {ed : Editor} {lines done init : List (List UInt8)} {current last : List UInt8}
  {t t' : Tmpfs} {name : CString}

theorem HoldsLines.unique (h : HoldsLines ed lines) (h' : HoldsLines ed done) : lines = done := by
  have hlength : lines.length = done.length := by
    have hcount := h.lineCount
    have hcount' := h'.lineCount
    omega
  refine List.ext_getElem hlength fun i hi hi' => ?_
  exact (h.rows i _ (List.getElem?_eq_getElem hi)).unique
    (h'.rows i _ (List.getElem?_eq_getElem hi'))

/-! ## The text -/

theorem joinLines_concat (init : List (List UInt8)) (last : List UInt8) :
    joinLines (init ++ [last]) = init.flatMap (· ++ [0x0A]) ++ last := by
  induction init with
  | nil => exact List.intercalate_singleton
  | cons s init ih =>
      rw [List.cons_append, joinLines_cons, if_neg (by simp), ih]
      simp

theorem joinLines_concat_nil (hinit : init ≠ []) :
    joinLines (init ++ [[]]) = joinLines init ++ [0x0A] := by
  obtain ⟨front, s, rfl⟩ := (List.eq_nil_or_concat init).resolve_left hinit
  rw [joinLines_concat, List.concat_eq_append, joinLines_concat]
  simp

/-! ## The loop -/

namespace LoadedTo

theorem nextByte {b : UInt8} (h : LoadedTo ed.lines done current) :
    LoadedTo (ed.put done.length current.length b).lines done (current ++ [b]) where
  complete i s hs := by
    have hi := (List.getElem?_eq_some_iff.1 hs).1
    rw [funext (put_lines_of_ne b hi.ne)]
    exact h.complete i s hs
  spells := by
    refine spells_append.2 ⟨h.spells.congr fun i hi => ?_, ?_, trivial⟩
    · rw [put_lines_same, if_neg (by omega)]
    · rw [put_lines_same, if_pos (Nat.zero_add _)]
  fresh x hx := by
    rw [List.length_append, List.length_singleton] at hx
    rw [put_lines_same, if_neg (by omega)]
    exact h.fresh x (by omega)
  blank y hy x := by
    rw [put_lines_of_ne b hy.ne']
    exact h.blank y hy x

theorem nextLine (h : LoadedTo ed.lines done current) (hwidth : current.length < 80)
    (hplain : ∀ c ∈ current, c ≠ 0) :
    LoadedTo (ed.put done.length current.length 0).lines (done ++ [current]) [] where
  complete i s hs := by
    by_cases hi : i = done.length
    · subst hi
      obtain rfl : current = s := by simpa using hs
      refine ⟨h.spells.congr fun j hj => ?_, ?_, hwidth, hplain⟩
      · rw [put_lines_same, if_neg (by omega)]
      · rw [put_lines_same, if_pos rfl]
    · rw [funext (put_lines_of_ne 0 hi)]
      have hlt := (List.getElem?_eq_some_iff.1 hs).1
      rw [List.length_append, List.length_singleton] at hlt
      rw [List.getElem?_append_left (by omega)] at hs
      exact h.complete i s hs
  spells := trivial
  fresh x _ := by
    rw [List.length_append, List.length_singleton, put_lines_of_ne 0 (by omega)]
    exact h.blank _ (Nat.lt_succ_self _) x
  blank y hy x := by
    rw [List.length_append, List.length_singleton] at hy
    rw [put_lines_of_ne 0 (by omega)]
    exact h.blank y (by omega) x

end LoadedTo

/-- The bytes of a line, up to its end. -/
theorem loadLoop_word {word : List UInt8} (rest : List UInt8) (hline : done.length < 256)
    (hplain : ∀ c ∈ word, c ≠ 0x0A) (hroom : current.length + word.length ≤ 79)
    (h : LoadedTo ed.lines done current) :
    ∃ rows, loadLoop (word ++ rest) done.length current.length ed =
        loadLoop rest done.length (current ++ word).length { ed with lines := rows } ∧
      LoadedTo rows done (current ++ word) := by
  induction word generalizing ed current with
  | nil => exact ⟨ed.lines, by rw [List.append_nil]; rfl, by rwa [List.append_nil]⟩
  | cons b word ih =>
      rw [List.length_cons] at hroom
      obtain ⟨rows, hload, hloaded⟩ := @ih (ed.put done.length current.length b) (current ++ [b])
        (fun c hc => hplain c (List.mem_cons_of_mem _ hc)) (by simp; omega) h.nextByte
      rw [List.append_assoc] at hload hloaded
      refine ⟨rows, ?_, hloaded⟩
      rw [List.cons_append, loadLoop, if_pos (by rw [editorMaxLines]; omega),
        if_neg (hplain b List.mem_cons_self), if_pos (by rw [editorLineLen]; omega),
        set_of_lt _ hline (by omega), Option.bind_eq_bind, Option.bind_some]
      rw [List.length_append, List.length_singleton, Nat.cast_succ] at hload
      exact hload

/-- The lines that end with a line break. -/
theorem loadLoop_lines (rest : List UInt8) (hfits : done.length + init.length ≤ 256)
    (hwidth : ∀ s ∈ init, s.length ≤ 79) (hplain : ∀ s ∈ init, ∀ c ∈ s, c ≠ 0 ∧ c ≠ 0x0A)
    (h : LoadedTo ed.lines done []) :
    ∃ rows, loadLoop (init.flatMap (· ++ [0x0A]) ++ rest) done.length 0 ed =
        loadLoop rest (done ++ init).length 0 { ed with lines := rows } ∧
      LoadedTo rows (done ++ init) [] := by
  induction init generalizing ed done with
  | nil => exact ⟨ed.lines, by rw [List.append_nil]; rfl, by rwa [List.append_nil]⟩
  | cons s init ih =>
      rw [List.length_cons] at hfits
      have hs := hwidth s List.mem_cons_self
      obtain ⟨line, hword, hline⟩ := loadLoop_word (0x0A :: (init.flatMap (· ++ [0x0A]) ++ rest))
        (by omega) (fun c hc => (hplain s List.mem_cons_self c hc).2) (by simpa using hs) h
      rw [List.nil_append] at hword hline
      obtain ⟨rows, hload, hloaded⟩ := @ih ({ ed with lines := line }.put done.length s.length 0)
        (done ++ [s]) (by simp; omega) (fun s hs => hwidth s (List.mem_cons_of_mem _ hs))
        (fun s hs => hplain s (List.mem_cons_of_mem _ hs))
        (@LoadedTo.nextLine { ed with lines := line } done s hline (by omega)
          fun c hc => (hplain s List.mem_cons_self c hc).1)
      rw [List.append_assoc] at hload hloaded
      refine ⟨rows, ?_, hloaded⟩
      rw [List.length_append, List.length_singleton, Nat.cast_succ] at hload
      rw [List.flatMap_cons, List.append_assoc, List.append_assoc]
      rw [List.length_nil, Nat.cast_zero] at hword
      rw [show s ++ ([0x0A] ++ (init.flatMap (· ++ [0x0A]) ++ rest)) =
        s ++ 0x0A :: (init.flatMap (· ++ [0x0A]) ++ rest) from rfl, hword, loadLoop,
        if_pos (by rw [editorMaxLines]; omega), if_pos rfl, set_of_lt _ (by omega) (by omega),
        Option.bind_eq_bind, Option.bind_some]
      exact hload

/-- The loop of `editor_open` over a whole text. -/
theorem loadLoop_text (hzero : ∀ y x, ed.lines y x = 0) (htext : IsText (init ++ [last])) :
    ∃ rows, loadLoop (joinLines (init ++ [last])) 0 0 ed =
        some ((init.length : Int), (last.length : Int), { ed with lines := rows }) ∧
      LoadedTo rows init last := by
  have hfits := htext.fits
  rw [List.length_append, List.length_singleton] at hfits
  have hlast : last ∈ init ++ [last] := List.mem_append_right _ List.mem_cons_self
  have hwidth := htext.width last hlast
  have hstart : LoadedTo ed.lines [] [] :=
    ⟨fun i s hs => by simp at hs, trivial, fun x _ => hzero _ x, fun y _ => hzero y⟩
  obtain ⟨rows, hlines, hloaded⟩ := @loadLoop_lines ed [] init last (by simp; omega)
    (fun s hs => htext.width s (List.mem_append_left _ hs))
    (fun s hs => htext.plain s (List.mem_append_left _ hs)) hstart
  rw [List.nil_append] at hlines hloaded
  obtain ⟨rows', hword, hloaded'⟩ := @loadLoop_word { ed with lines := rows } init []
    last [] (by omega) (fun c hc => (htext.plain last hlast c hc).2) (by simpa using hwidth) hloaded
  rw [List.nil_append, List.append_nil, List.length_nil] at hword
  rw [List.nil_append] at hloaded'
  refine ⟨rows', ?_, hloaded'⟩
  rw [joinLines_concat]
  exact hlines.trans hword

/-! ## Opening -/

theorem ofBuffer_filename (hshort : name.bytes.length ≤ 63) :
    CString.ofBuffer (name.bytes.take 63) = name := by
  rw [List.take_of_length_le hshort]
  exact CString.ext (CString.ofBuffer_bytes _ name.noNul)

/-- Without memory, or without the file, the text is one empty line. -/
theorem editorOpen_nothing {openFails : Bool} (hshort : name.bytes.length ≤ 63)
    (hnothing : openFails = true ∨ t.content name = none) :
    ∃ ed, editorOpen openFails name t = some ed ∧ ed.filename = name ∧ HoldsLines ed [[]] := by
  have hempty : (editorBlank name).set 0 0 0 = some ((editorBlank name).put 0 0 0) := rfl
  have hzero (x : Nat) : ((editorBlank name).put 0 0 0).lines 0 x = 0 := by
    rw [put_lines_same]
    split_ifs <;> rfl
  refine ⟨(editorBlank name).put 0 0 0, ?_, rfl, holdsLines_blank rfl hzero⟩
  rw [editorOpen, ofBuffer_filename hshort]
  split_ifs with hfails
  · exact hempty
  · have hread : tmpfsRead name (tmpfsDataSize - 1) t = (-1, []) := by
      rw [tmpfsRead_eq, hnothing.resolve_left hfails]
    rw [hread]
    exact hempty

/-- A stored text is read without its last line, if that line is empty. -/
theorem editorOpen_text (hshort : name.bytes.length ≤ 63) (htext : IsText (init ++ [last]))
    (hcontent : t.content name = some (joinLines (init ++ [last]))) :
    ∃ ed, editorOpen false name t = some ed ∧ ed.filename = name ∧
      HoldsLines ed (if last = [] then init else init ++ [last]) := by
  have hread : tmpfsRead name (tmpfsDataSize - 1) t =
      (((joinLines (init ++ [last])).length : Int), joinLines (init ++ [last])) := by
    rw [tmpfsRead_eq, hcontent]
    simp only [tmpfsDataSize, Nat.min_eq_left htext.length_le,
      List.take_of_length_le htext.length_le]
  have hfits := htext.fits
  rw [List.length_append, List.length_singleton] at hfits
  have hlast : last ∈ init ++ [last] := List.mem_append_right _ List.mem_cons_self
  have hwidth := htext.width last hlast
  obtain ⟨rows, hload, hloaded⟩ := @loadLoop_text (editorBlank name) init last
    (fun _ _ => rfl) htext
  have hpositive : (0 : Int) < (joinLines (init ++ [last])).length := by
    have hnonempty := htext.nonempty
    omega
  rw [editorOpen, if_neg Bool.false_ne_true, ofBuffer_filename hshort, hread]
  dsimp only
  rw [if_pos hpositive, hload, Option.bind_eq_bind, Option.bind_some]
  dsimp only
  by_cases hempty : last = []
  · subst hempty
    have hinit : init ≠ [] := by
      rintro rfl
      exact absurd htext.nonempty (by simp [joinLines])
    have hinit_length := List.length_pos_of_ne_nil hinit
    rw [if_neg (by simp; omega), if_pos rfl]
    exact ⟨_, rfl, rfl, rfl, by omega, hloaded.complete⟩
  · have hlast_length := List.length_pos_of_ne_nil hempty
    have hnext := @LoadedTo.nextLine { editorBlank name with lines := rows } init last hloaded
      (by omega) fun c hc => (htext.plain last hlast c hc).1
    rw [if_pos (Or.inl (by omega)), set_of_lt _ (by omega) (by omega), Option.bind_eq_bind,
      Option.bind_some, if_neg hempty]
    refine ⟨_, rfl, rfl, ?_, htext.fits, hnext.complete⟩
    simp

/-! ## Saving and opening -/

theorem IsText.exists_concat (htext : IsText lines) : ∃ init last, lines = init ++ [last] := by
  rcases List.eq_nil_or_concat lines with rfl | ⟨init, last, rfl⟩
  · exact absurd htext.nonempty (by simp [joinLines])
  · exact ⟨init, last, List.concat_eq_append⟩

/-- Opening a stored text gives its lines exactly when the last one is not empty. -/
theorem reopen_iff (hshort : name.bytes.length ≤ 63) (htext : IsText lines) (openFails : Bool)
    (hcontent : t.content name = some (joinLines lines) ∨ t.content name = none) :
    (∃ ed, editorOpen openFails name t = some ed ∧ HoldsLines ed lines) ↔
      openFails = false ∧ lines.getLast? ≠ some [] ∧ t.content name ≠ none := by
  have hne : lines ≠ [[]] := by
    rintro rfl
    exact absurd htext.nonempty (by simp [joinLines])
  by_cases hnothing : openFails = true ∨ t.content name = none
  · obtain ⟨ed, hopen, -, hblank⟩ := editorOpen_nothing hshort hnothing
    refine iff_of_false ?_ ?_
    · rintro ⟨ed', hopen', h⟩
      obtain rfl := Option.some.inj (hopen.symm.trans hopen')
      exact hne (h.unique hblank)
    · rintro ⟨hopens, -, hexists⟩
      exact hnothing.elim (fun hfails => by simp [hopens] at hfails) hexists
  · obtain ⟨hopens, hexists⟩ := not_or.1 hnothing
    obtain rfl := Bool.eq_false_iff.2 hopens
    obtain ⟨init, last, rfl⟩ := htext.exists_concat
    obtain ⟨ed, hopen, -, h⟩ := editorOpen_text hshort htext (hcontent.resolve_right hexists)
    rw [hopen]
    simp only [List.getLast?_concat, Option.some.injEq, true_and, ne_eq, hexists, not_false_eq_true,
      and_true]
    split_ifs at h with hempty
    · refine iff_of_false ?_ (not_not.2 hempty)
      rintro ⟨ed', rfl, h'⟩
      simpa using congrArg List.length (h.unique h')
    · exact iff_of_true ⟨ed, rfl, h⟩ hempty

/-- A save that answers 0 had a name and memory. -/
theorem editorSave_zero {saveFails : Bool} {message : SaveMessage} {ed' : Editor}
    (hsave : editorSave saveFails ed t = some ((0, message), ed', t')) :
    ed.filename.bytes ≠ [] ∧ saveFails = false := by
  rw [editorSave] at hsave
  split_ifs at hsave with hname hfails
  · exact absurd hsave (by simp)
  · exact absurd hsave (by simp)
  · exact ⟨hname, by simpa using hfails⟩

theorem savedContents_text (htext : IsText lines) :
    (t.savedContents name (joinLines lines)).head? =
      if t.content name ≠ none ∨ t.fileCount < 32 then some (joinLines lines) else none := by
  rw [Tmpfs.savedContents, if_neg (List.ne_nil_of_length_pos htext.nonempty)]
  simp only [ne_eq, content_eq_none_iff]
  have hlength := htext.length_le
  split_ifs
  · rw [List.head?_cons, List.take_of_length_le (by omega)]
  · rfl

theorem reopen_saved_iff (hsound : TmpfsSound t) (hshort : name.bytes.length ≤ 63)
    (htext : IsText lines) (h : HoldsLines ed lines) (hname : ed.filename = name)
    {saveFails : Bool} {message : SaveMessage} {ed' : Editor}
    (hsave : editorSave saveFails ed t = some ((0, message), ed', t')) (openFails : Bool) :
    (∃ ed'', editorOpen openFails name t' = some ed'' ∧ HoldsLines ed'' lines) ↔
      openFails = false ∧ lines.getLast? ≠ some [] ∧
        (t.content name ≠ none ∨ t.fileCount < 32) := by
  subst hname
  obtain ⟨hnamed, rfl⟩ := editorSave_zero hsave
  obtain ⟨t'', hsave', hreplaces⟩ := editorSave_holds hsound h hnamed hshort
  obtain ⟨-, hstate⟩ := Prod.mk.inj (Option.some.inj (hsave.symm.trans hsave'))
  obtain ⟨-, rfl⟩ := Prod.mk.inj hstate
  have hstored : t'.content ed.filename =
      if t.content ed.filename ≠ none ∨ t.fileCount < 32 then some (joinLines lines) else none := by
    rw [content_eq_head?, hreplaces.same, savedContents_text htext]
  rw [reopen_iff hshort htext openFails (by rw [hstored]; split_ifs <;> simp), hstored]
  split_ifs with hroom
  · simp [hroom]
  · simp [hroom]

/-- A text that lost its final line break is not stored as it was. -/
theorem savedContents_cut (text : List UInt8) :
    (t.savedContents name text).head? = some (text ++ [0x0A]) ↔
      text = [] ∧ (t.contents name)[1]? = some [0x0A] := by
  rw [Tmpfs.savedContents]
  split_ifs with hempty
  · rw [List.head?_tail, hempty]
    simp
  · refine iff_of_false (fun hhead => ?_) fun h => hempty h.1
    have hlength := congrArg List.length (Option.some.inj hhead)
    rw [List.length_append, List.length_take, List.length_singleton] at hlength
    omega
  · simp [hempty]

/-- What the editor holds after the text was opened: nothing, the text, or the
text without its last line. -/
theorem editorOpen_cases (hshort : name.bytes.length ≤ 63) (htext : IsText lines)
    (hcontent : t.content name = some (joinLines lines)) (openFails : Bool) :
    ∃ ed opened, editorOpen openFails name t = some ed ∧ ed.filename = name ∧
      HoldsLines ed opened ∧
      ((openFails = true ∧ opened = [[]]) ∨
        (openFails = false ∧ lines.getLast? ≠ some [] ∧ opened = lines) ∨
        (openFails = false ∧ lines.getLast? = some [] ∧
          joinLines lines = joinLines opened ++ [0x0A])) := by
  cases openFails with
  | true =>
      obtain ⟨ed, hopen, hname, h⟩ := @editorOpen_nothing t name true hshort (Or.inl rfl)
      exact ⟨ed, [[]], hopen, hname, h, Or.inl ⟨rfl, rfl⟩⟩
  | false =>
      obtain ⟨init, last, rfl⟩ := htext.exists_concat
      obtain ⟨ed, hopen, hname, h⟩ := editorOpen_text hshort htext hcontent
      refine ⟨ed, _, hopen, hname, h, Or.inr ?_⟩
      split_ifs with hempty
      · subst hempty
        have hinit : init ≠ [] := by
          rintro rfl
          exact absurd htext.nonempty (by simp [joinLines])
        exact Or.inr ⟨rfl, by simp, joinLines_concat_nil hinit⟩
      · exact Or.inl ⟨rfl, by simpa using hempty, rfl⟩

/-- What is stored after the text that was opened is saved again. -/
theorem resave_iff (hsound : TmpfsSound t) (htext : IsText lines)
    (hcontent : t.content name = some (joinLines lines)) (openFails saveFails : Bool) :
    (∃ ed answer ed' t', editorOpen openFails name t = some ed ∧
      editorSave saveFails ed t = some (answer, ed', t') ∧
      t'.content name = some (joinLines lines)) ↔
    name.bytes = [] ∨ saveFails = true ∨ (openFails = false ∧ lines.getLast? ≠ some []) ∨
      ((openFails = true ∨ joinLines lines = [0x0A]) ∧
        (t.contents name)[1]? = some (joinLines lines)) := by
  have hshort := short_of_content hsound hcontent
  obtain ⟨ed, opened, hopen, rfl, h, hopened⟩ := editorOpen_cases hshort htext hcontent openFails
  by_cases hnone : ed.filename.bytes = []
  · refine iff_of_true ⟨ed, (-1, .noFilename), ed, t, hopen, ?_, hcontent⟩ (Or.inl hnone)
    rw [editorSave, if_pos hnone]
  by_cases hfails : saveFails = true
  · refine iff_of_true ⟨ed, (-1, .outOfMemory), ed, t, hopen, ?_, hcontent⟩
      (Or.inr (Or.inl hfails))
    rw [editorSave, if_neg hnone, if_pos hfails]
  obtain rfl := Bool.eq_false_iff.2 hfails
  obtain ⟨t', hsave, hreplaces⟩ := editorSave_holds hsound h hnone hshort
  have hiff : (∃ ed₁ answer ed' t', editorOpen openFails ed.filename t = some ed₁ ∧
      editorSave false ed₁ t = some (answer, ed', t') ∧
      t'.content ed.filename = some (joinLines lines)) ↔
      (t.savedContents ed.filename (joinLines opened)).head? = some (joinLines lines) := by
    rw [← hreplaces.same, ← content_eq_head?]
    constructor
    · rintro ⟨ed₁, answer, ed', t'', hopen', hsave', hstored⟩
      obtain rfl := Option.some.inj (hopen.symm.trans hopen')
      obtain ⟨-, hstate⟩ := Prod.mk.inj (Option.some.inj (hsave.symm.trans hsave'))
      obtain ⟨-, rfl⟩ := Prod.mk.inj hstate
      exact hstored
    · exact fun hstored => ⟨ed, _, _, t', hopen, hsave, hstored⟩
  rw [hiff, or_iff_right hnone, or_iff_right hfails]
  rcases hopened with ⟨rfl, rfl⟩ | ⟨rfl, hlast, rfl⟩ | ⟨rfl, hlast, hcut⟩
  · rw [show joinLines [[]] = [] from rfl, Tmpfs.savedContents, if_pos rfl, List.head?_tail]
    simp
  · refine iff_of_true ?_ (Or.inl ⟨rfl, hlast⟩)
    rw [savedContents_text htext, if_pos (Or.inl (by rw [hcontent]; exact Option.some_ne_none _))]
  · rw [hcut, savedContents_cut, or_iff_right fun h => h.2 hlast]
    constructor
    · rintro ⟨hempty, hsecond⟩
      rw [hempty]
      exact ⟨Or.inr rfl, hsecond⟩
    · rintro ⟨hbreak, hsecond⟩
      have hempty : joinLines opened = [] := by simpa using hbreak
      rw [hempty] at hsecond
      exact ⟨hempty, hsecond⟩

/-- Opening undoes saving exactly when there is memory, the last line is not empty
and the text had a place to go; opening and saving keeps a stored text exactly
when nothing is written, or the last line is not empty and there was memory to
read it, or a second file of the name has the same text and the first is deleted. -/
theorem open_undoes_save_iff (hreach : RunsTo stepTmpfs tmpfsInit t)
    (hshort : name.bytes.length ≤ 63) (htext : IsText lines) (openFails saveFails : Bool) :
    (∀ ed message ed' t', HoldsLines ed lines → ed.filename = name →
      editorSave saveFails ed t = some ((0, message), ed', t') →
      ((∃ ed'', editorOpen openFails name t' = some ed'' ∧ HoldsLines ed'' lines) ↔
        openFails = false ∧ lines.getLast? ≠ some [] ∧
          (t.content name ≠ none ∨ t.fileCount < 32))) ∧
    (t.content name = some (joinLines lines) →
      ((∃ ed answer ed' t', editorOpen openFails name t = some ed ∧
        editorSave saveFails ed t = some (answer, ed', t') ∧
        t'.content name = some (joinLines lines)) ↔
      name.bytes = [] ∨ saveFails = true ∨ (openFails = false ∧ lines.getLast? ≠ some []) ∨
        ((openFails = true ∨ joinLines lines = [0x0A]) ∧
          (t.contents name)[1]? = some (joinLines lines)))) := by
  have hsound := TmpfsSound.of_runsTo hreach
  refine ⟨fun ed message ed' t' h hname hsave => ?_, fun hcontent => ?_⟩
  · exact reopen_saved_iff hsound hshort htext h hname hsave openFails
  · exact resave_iff hsound htext hcontent openFails saveFails

theorem open_undoes_save_of_gapLines :
    ∃ ed message ed' t' ed'', HoldsLines ed gapLines ∧
      editorSave false ed tmpfsInit = some ((0, message), ed', t') ∧
      editorOpen false ed.filename t' = some ed'' ∧ HoldsLines ed'' gapLines := by
  have h := holdsLines_gapLines ⟨[0x61], by simp⟩
  have htext : IsText gapLines := by
    refine ⟨?_, ?_, ?_, ?_, ?_⟩ <;> simp [gapLines, joinLines]
  have hshort : (CString.bytes ⟨[0x61], by simp⟩).length ≤ 63 := by simp
  obtain ⟨t', hsave, -⟩ :=
    editorSave_holds tmpfsInit_sound h (by simp [editorWith, editorBlank]) hshort
  obtain ⟨ed'', hopen, h''⟩ :=
    ((open_undoes_save_iff (RunsTo.refl _) hshort htext false false).1 _ _ _ t' h rfl hsave).2
      ⟨rfl, by decide, Or.inr (by decide)⟩
  exact ⟨_, _, _, t', ed'', h, hsave, hopen, h''⟩

/-- The text of one line with a line break after it: its last line, which is
empty, is gone when the file is opened, and the line break with the next save. -/
theorem empty_last_line_lost :
    ∃ ed message ed' t' ed'' answer saved t'', HoldsLines ed [[0x61], []] ∧
      editorSave false ed tmpfsInit = some ((0, message), ed', t') ∧
      t'.content ed.filename = some [0x61, 0x0A] ∧
      editorOpen false ed.filename t' = some ed'' ∧ HoldsLines ed'' [[0x61]] ∧
      editorSave false ed'' t' = some (answer, saved, t'') ∧
      t''.content ed.filename = some [0x61] := by
  obtain ⟨ed, hname, h⟩ : ∃ ed : Editor, ed.filename = ⟨[0x61], by simp⟩ ∧
      HoldsLines ed [[0x61], []] :=
    ⟨_, rfl, holdsLines_editorWith ⟨[0x61], by simp⟩ (by simp) (by simp) (by simp)⟩
  have hnamed : ed.filename.bytes ≠ [] := by simp [hname]
  have hshort : ed.filename.bytes.length ≤ 63 := by simp [hname]
  have htext : IsText ([[0x61]] ++ [[]]) :=
    ⟨by simp, by simp, by simp, by simp [joinLines], by simp [joinLines]⟩
  obtain ⟨t', hsave, hreplaces⟩ := editorSave_holds tmpfsInit_sound h hnamed hshort
  have hcontent : t'.content ed.filename = some (joinLines ([[0x61]] ++ [[]])) := by
    rw [content_eq_head?, hreplaces.same]
    exact (savedContents_text htext).trans (if_pos (Or.inr (by decide)))
  obtain ⟨ed'', hopen, hname'', h''⟩ := editorOpen_text hshort htext hcontent
  rw [← hname''] at hnamed hshort
  obtain ⟨t'', hsave'', hreplaces''⟩ := editorSave_holds hreplaces.sound h'' hnamed hshort
  refine ⟨ed, _, _, t', ed'', _, _, t'', h, hsave, hcontent, hopen, h'', hsave'', ?_⟩
  have hline : IsText [[0x61]] :=
    ⟨by simp, by simp, by simp, by simp [joinLines], by simp [joinLines]⟩
  rw [← hname'', content_eq_head?, hreplaces''.same, if_pos rfl, savedContents_text hline,
    if_pos (Or.inl (by rw [hname'', hcontent]; exact Option.some_ne_none _))]
  rfl

end Dosfs
