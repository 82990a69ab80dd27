import Dosfs.Tools.Editor

/-!
# Lines of the editor as strings

What the string routines and the shifting loops of the editor do to a row that
holds a NUL-terminated string: each stays within the row, leaves the other rows
alone, and leaves the row with the string expected.
-/

namespace Dosfs.Editor

/-- The row spells the bytes from column `k` on. -/
def Spells (row : Nat → UInt8) : Nat → List UInt8 → Prop
  | _, [] => True
  | k, c :: s => row k = c ∧ Spells row (k + 1) s

/-- The row holds a string that ends within its 80 bytes. -/
structure RowIs (row : Nat → UInt8) (s : List UInt8) : Prop where
  spells : Spells row 0 s
  ended : row s.length = 0
  length_lt : s.length < 80
  noNul : ∀ c ∈ s, c ≠ 0

variable {row row' : Nat → UInt8} {s s' : List UInt8}

theorem spells_append {k : Nat} :
    Spells row k (s ++ s') ↔ Spells row k s ∧ Spells row (k + s.length) s' := by
  induction s generalizing k with
  | nil => simp [Spells]
  | cons c s ih =>
      rw [List.cons_append, Spells, Spells, ih, List.length_cons, and_assoc,
        show k + 1 + s.length = k + (s.length + 1) by omega]

/-- Rows that agree, possibly shifted, spell the same. -/
theorem Spells.congr {k k' : Nat} (h : Spells row k s)
    (hrow : ∀ i < s.length, row' (k' + i) = row (k + i)) : Spells row' k' s := by
  induction s generalizing k k' with
  | nil => trivial
  | cons c s ih =>
      refine ⟨?_, ih h.2 fun i hi => ?_⟩
      · exact (hrow 0 (Nat.succ_pos _)).trans h.1
      · have hnext := hrow (i + 1) (Nat.succ_lt_succ hi)
        rwa [← Nat.add_assoc, Nat.add_right_comm, ← Nat.add_assoc, Nat.add_right_comm k] at hnext

/-- A list with zeros behind it spells itself. -/
theorem spells_getD (s : List UInt8) : Spells (fun x => s.getD x 0) 0 s := by
  induction s with
  | nil => trivial
  | cons c s ih =>
      exact ⟨rfl, ih.congr fun i _ => by rw [Nat.add_comm, List.getD_cons_succ, Nat.zero_add]⟩

theorem Spells.unique {k : Nat} (h : Spells row k s) (h' : Spells row k s')
    (hlength : s.length = s'.length) : s = s' := by
  induction s generalizing k s' with
  | nil => exact (List.eq_nil_of_length_eq_zero hlength.symm).symm
  | cons c s ih =>
      cases s' with
      | nil => cases hlength
      | cons c' s' =>
          rw [← h.1, ← h'.1, ih h.2 h'.2 (Nat.succ.inj hlength)]

theorem Spells.get {k i : Nat} (h : Spells row k s) (hi : i < s.length) : row (k + i) = s[i] := by
  induction s generalizing k i with
  | nil => cases hi
  | cons c s ih =>
      cases i with
      | zero => exact h.1
      | succ i =>
          have hnext := ih h.2 (Nat.lt_of_succ_lt_succ hi)
          rwa [Nat.add_assoc, Nat.add_comm 1] at hnext

theorem RowIs.ne_zero (h : RowIs row s) {i : Nat} (hi : i < s.length) : row i ≠ 0 := by
  have hget := h.spells.get hi
  rw [Nat.zero_add] at hget
  rw [hget]
  exact h.noNul _ (List.getElem_mem hi)

/-- A row holds at most one string. -/
theorem RowIs.unique (h : RowIs row s) (h' : RowIs row s') : s = s' := by
  have hlength : s.length = s'.length := by
    rcases Nat.lt_trichotomy s.length s'.length with hlt | heq | hgt
    · exact absurd h.ended (h'.ne_zero hlt)
    · exact heq
    · exact absurd h'.ended (h.ne_zero hgt)
  exact h.spells.unique h'.spells hlength

/-- A row that ends within its 80 bytes holds a string. -/
theorem exists_rowIs (h : ∃ x < 80, row x = 0) : ∃ s, RowIs row s := by
  have hex : ∃ x, x < 80 ∧ row x = 0 := h
  classical
  have hfirst := Nat.find_spec hex
  have hbefore (i : Nat) (hi : i < Nat.find hex) : row i ≠ 0 := fun hzero =>
    Nat.find_min hex hi ⟨hi.trans hfirst.1, hzero⟩
  generalize Nat.find hex = n at hfirst hbefore
  refine ⟨(List.range n).map row, ?_, ?_, ?_, ?_⟩
  · clear hfirst hbefore
    induction n with
    | zero => trivial
    | succ n ih =>
        rw [List.range_succ, List.map_append, spells_append]
        refine ⟨ih, ?_, trivial⟩
        rw [List.length_map, List.length_range, Nat.zero_add]
  · rw [List.length_map, List.length_range]
    exact hfirst.2
  · rw [List.length_map, List.length_range]
    exact hfirst.1
  · intro c hc
    obtain ⟨i, hi, rfl⟩ := List.mem_map.mp hc
    exact hbefore i (List.mem_range.mp hi)

/-! ## Accesses within the array -/

variable {ed : Editor} {y x : Nat}

theorem inLines_of_lt (hy : y < 256) (hx : x < 80) : InLines y x := by
  rw [InLines, editorMaxLines, editorLineLen]
  omega

theorem get_of_lt (hy : y < 256) (hx : x < 80) : ed.get y x = some (ed.lines y x) := by
  rw [get, if_pos (inLines_of_lt hy hx)]
  rfl

theorem set_of_lt (c : UInt8) (hy : y < 256) (hx : x < 80) :
    ed.set y x c = some (ed.put y x c) := by
  rw [set, if_pos (inLines_of_lt hy hx)]
  rfl

@[simp] theorem put_cursorY (c : UInt8) : (ed.put y x c).cursorY = ed.cursorY := rfl

@[simp] theorem put_lines_same (c : UInt8) (j : Nat) :
    (ed.put y x c).lines y j = if j = x then c else ed.lines y j := by
  simp [put]

theorem put_lines_of_ne (c : UInt8) {i : Nat} (hi : i ≠ y) (j : Nat) :
    (ed.put y x c).lines i j = ed.lines i j := by
  simp [put, hi]

/-! ## strlen -/

private theorem strlenLoop_of_row {fuel : Nat} (hy : y < 256) (h : RowIs (ed.lines y) s)
    (hx : x ≤ s.length) (hfuel : s.length < x + fuel) :
    ed.strlenLoop y fuel x = some (s.length : Int) := by
  have hlength := h.length_lt
  induction fuel generalizing x with
  | zero => omega
  | succ fuel ih =>
      rw [strlenLoop, get_of_lt hy (by omega)]
      rcases Nat.eq_or_lt_of_le hx with rfl | hlt
      · simp [h.ended]
      · have hnext := @ih (x + 1) hlt (by omega)
        simpa [h.ne_zero hlt] using hnext

theorem strlen_of_row (hy : y < 256) (h : RowIs (ed.lines y) s) :
    ed.strlen y = some (s.length : Int) :=
  strlenLoop_of_row (x := 0) hy h (Nat.zero_le _) (by have hlength := h.length_lt; omega)

/-! ## strcpy and strcat -/

/-- The copy loop copies what is left of the source string, with its NUL. -/
private theorem copyLoop_of_row {fuel dst dx src sx : Nat} (hdst : dst < 256) (hsrc : src < 256)
    (hne : dst ≠ src) (h : RowIs (ed.lines src) s) (hsx : sx ≤ s.length)
    (hroom : dx + (s.length - sx) < 80) (hfuel : s.length < sx + fuel) :
    ∃ lines, copyLoop fuel dst dx src sx ed = some { ed with lines } ∧
      (∀ i ≠ dst, lines i = ed.lines i) ∧ (∀ j < dx, lines dst j = ed.lines dst j) ∧
      ∀ k ≤ s.length - sx, lines dst (dx + k) = ed.lines src (sx + k) := by
  have hlength := h.length_lt
  induction fuel generalizing ed dx sx with
  | zero => omega
  | succ fuel ih =>
      rw [copyLoop, get_of_lt hsrc (by omega), Option.bind_eq_bind, Option.bind_some,
        set_of_lt _ hdst (by omega), Option.bind_eq_bind, Option.bind_some]
      have hput : (ed.put dst dx (ed.lines src sx)).lines src = ed.lines src :=
        funext (put_lines_of_ne _ (Ne.symm hne))
      rcases Nat.eq_or_lt_of_le hsx with rfl | hlt
      · rw [if_pos h.ended]
        refine ⟨(ed.put dst dx _).lines, rfl, fun i hi => funext (put_lines_of_ne _ hi),
          fun j hj => ?_, fun k hk => ?_⟩
        · rw [put_lines_same, if_neg (by omega)]
        · obtain rfl : k = 0 := by omega
          simp
      · rw [if_neg (h.ne_zero hlt)]
        obtain ⟨lines, hcopy, hother, hbefore, hcopied⟩ :=
          @ih (ed.put dst dx (ed.lines src sx)) (dx + 1) (sx + 1) (by rw [hput]; exact h) hlt
            (by omega) (by omega)
        refine ⟨lines, hcopy, fun i hi => ?_, fun j hj => ?_, fun k hk => ?_⟩
        · rw [hother i hi]
          exact funext (put_lines_of_ne _ hi)
        · rw [hbefore j (by omega), put_lines_same, if_neg (by omega)]
        · rcases Nat.eq_zero_or_pos k with rfl | hpos
          · rw [Nat.add_zero, Nat.add_zero, hbefore dx (by omega), put_lines_same, if_pos rfl]
          · have hnext := hcopied (k - 1) (by omega)
            rw [hput, show dx + 1 + (k - 1) = dx + k by omega,
              show sx + 1 + (k - 1) = sx + k by omega] at hnext
            exact hnext

/-- Only the target row changes, and it holds what was there before the copy,
up to column `p.length`, followed by the end of the source. -/
private theorem rowIs_of_copied {p : List UInt8} {dst src sx : Nat} {lines : Nat → Nat → UInt8}
    (h : RowIs (ed.lines src) s) (hsx : sx ≤ s.length) (hp : Spells (ed.lines dst) 0 p)
    (hnoNul : ∀ c ∈ p, c ≠ 0) (hroom : p.length + (s.length - sx) < 80)
    (hbefore : ∀ j < p.length, lines dst j = ed.lines dst j)
    (hcopied : ∀ k ≤ s.length - sx, lines dst (p.length + k) = ed.lines src (sx + k)) :
    RowIs (lines dst) (p ++ s.drop sx) := by
  have hsplit : Spells (ed.lines src) 0 (s.take sx ++ s.drop sx) :=
    (List.take_append_drop sx s).symm ▸ h.spells
  rw [spells_append, List.length_take, Nat.min_eq_left hsx] at hsplit
  refine ⟨spells_append.mpr ⟨hp.congr fun i hi => ?_, hsplit.2.congr fun i hi => ?_⟩, ?_, ?_, ?_⟩
  · rw [Nat.zero_add, hbefore i hi]
  · rw [List.length_drop] at hi
    rw [Nat.zero_add, Nat.zero_add, hcopied i (by omega)]
  · rw [List.length_append, List.length_drop, hcopied _ (le_refl _), Nat.add_sub_cancel' hsx]
    exact h.ended
  · rw [List.length_append, List.length_drop]
    exact hroom
  · intro c hc
    rcases List.mem_append.mp hc with hc | hc
    · exact hnoNul c hc
    · exact h.noNul c (List.mem_of_mem_drop hc)

theorem strcpy_of_row {dst src sx : Nat} (hdst : dst < 256) (hsrc : src < 256) (hne : dst ≠ src)
    (h : RowIs (ed.lines src) s) (hsx : sx ≤ s.length) :
    ∃ lines, strcpy dst src sx ed = some { ed with lines } ∧
      (∀ i ≠ dst, lines i = ed.lines i) ∧ RowIs (lines dst) (s.drop sx) := by
  have hlength := h.length_lt
  obtain ⟨lines, hcopy, hother, hbefore, hcopied⟩ :=
    @copyLoop_of_row s ed 81 dst 0 src sx hdst hsrc hne h hsx (by omega) (by omega)
  exact ⟨lines, hcopy, hother, rowIs_of_copied (p := []) h hsx trivial
    (fun _ hc => absurd hc List.not_mem_nil) (by simpa using by omega) hbefore hcopied⟩

theorem strcat_of_row {p : List UInt8} {dst src : Nat} (hdst : dst < 256) (hsrc : src < 256)
    (hne : dst ≠ src) (hp : RowIs (ed.lines dst) p) (h : RowIs (ed.lines src) s)
    (hroom : p.length + s.length < 80) :
    ∃ lines, strcat dst src ed = some { ed with lines } ∧
      (∀ i ≠ dst, lines i = ed.lines i) ∧ RowIs (lines dst) (p ++ s) := by
  have hlength := h.length_lt
  obtain ⟨lines, hcopy, hother, hbefore, hcopied⟩ :=
    @copyLoop_of_row s ed 81 dst p.length src 0 hdst hsrc hne h (Nat.zero_le _) (by omega)
      (by omega)
  refine ⟨lines, ?_, hother, ?_⟩
  · rw [Nat.cast_zero] at hcopy
    rw [strcat, strlen_of_row hdst hp, Option.bind_eq_bind, Option.bind_some, hcopy]
  · have hrow := rowIs_of_copied h (Nat.zero_le _) hp.spells hp.noNul (by omega) hbefore hcopied
    rwa [List.drop_zero] at hrow

/-! ## Shifting a line -/

theorem shiftRight_spec {n : Nat} (hy : y < 256) (hroom : x + n < 80) :
    ∃ lines, shiftRight y n ((x + n : Nat) - 1) ed = some { ed with lines } ∧
      (∀ i ≠ y, lines i = ed.lines i) ∧
      ∀ j, lines y j = if x < j ∧ j ≤ x + n then ed.lines y (j - 1) else ed.lines y j := by
  induction n generalizing ed with
  | zero =>
      refine ⟨ed.lines, rfl, fun _ _ => rfl, fun j => ?_⟩
      rw [if_neg (by omega)]
  | succ n ih =>
      have hlast : (((x + (n + 1) : Nat) : Int) - 1) = (x + n : Nat) := by omega
      have hdst : ((x + n : Nat) : Int) + 1 = (x + n + 1 : Nat) := by omega
      rw [hlast, shiftRight, hdst, if_neg (by rw [editorLineLen]; omega),
        get_of_lt hy (by omega), Option.bind_eq_bind, Option.bind_some,
        set_of_lt _ hy (by omega), Option.bind_eq_bind, Option.bind_some]
      obtain ⟨lines, hshift, hother, hrow⟩ :=
        @ih (ed.put y (x + n + 1) (ed.lines y (x + n))) (by omega)
      refine ⟨lines, hshift, fun i hi => ?_, fun j => ?_⟩
      · rw [hother i hi]
        exact funext (put_lines_of_ne _ hi)
      · rw [hrow, put_lines_same, put_lines_same]
        split_ifs
        all_goals first | rfl | omega | (congr 1; omega)

theorem shiftLeft_spec {n : Nat} (hy : y < 256) (hroom : x + n < 80) :
    ∃ lines, shiftLeft y n x ed = some { ed with lines } ∧
      (∀ i ≠ y, lines i = ed.lines i) ∧
      ∀ j, lines y j = if x ≤ j ∧ j < x + n then ed.lines y (j + 1) else ed.lines y j := by
  induction n generalizing ed x with
  | zero =>
      refine ⟨ed.lines, rfl, fun _ _ => rfl, fun j => ?_⟩
      rw [if_neg (by omega)]
  | succ n ih =>
      have hnext : (x : Int) + 1 = (x + 1 : Nat) := by omega
      rw [shiftLeft, hnext, get_of_lt hy (by omega), Option.bind_eq_bind, Option.bind_some,
        set_of_lt _ hy (by omega), Option.bind_eq_bind, Option.bind_some]
      obtain ⟨lines, hshift, hother, hrow⟩ :=
        @ih (ed.put y x (ed.lines y (x + 1))) (x + 1) (by omega)
      refine ⟨lines, hshift, fun i hi => ?_, fun j => ?_⟩
      · rw [hother i hi]
        exact funext (put_lines_of_ne _ hi)
      · rw [hrow, put_lines_same, put_lines_same]
        split_ifs
        all_goals first | rfl | omega | (congr 1; omega)

/-- A row with room for one more byte, after an insertion. -/
theorem insertInLine_of_row {l r : List UInt8} {c : UInt8} (hy : y < 256) (hc : c ≠ 0)
    (h : RowIs (ed.lines y) (l ++ r)) (hcursorY : ed.cursorY = y) (hcursorX : ed.cursorX = l.length)
    (hroom : (l ++ r).length < 79) :
    ∃ lines, insertInLine c ed =
        some { ed with lines, cursorX := ed.cursorX + 1, modified := true } ∧
      (∀ i ≠ y, lines i = ed.lines i) ∧ RowIs (lines y) (l ++ c :: r) := by
  have hlength : (l ++ r).length = l.length + r.length := List.length_append
  obtain ⟨lines, hshift, hother, hrow⟩ := @shiftRight_spec ed y l.length (r.length + 1) hy
    (by omega)
  have hspells := spells_append.mp h.spells
  have hended := h.ended
  rw [hlength] at hended
  rw [Nat.zero_add] at hspells
  have hstart : ((l.length + (r.length + 1) : Nat) : Int) - 1 = (l ++ r).length := by omega
  have hturns : (((l ++ r).length : Nat) - (l.length : Int) + 1).toNat = r.length + 1 := by omega
  rw [hstart] at hshift
  refine ⟨(({ ed with lines }.put y l.length c).put y ((l ++ r).length + 1) 0).lines, ?_, ?_, ?_⟩
  · obtain ⟨old, lineCount, cursorX, cursorY, scrollY, filename, modified, running⟩ := ed
    dsimp only at hcursorX hcursorY hshift ⊢
    subst hcursorX hcursorY
    rw [insertInLine]
    simp only [strlen_of_row hy h, Option.bind_eq_bind, Option.bind_some]
    rw [if_neg (by rw [editorLineLen]; omega), if_neg (by omega), hturns, hshift, Option.bind_some]
    dsimp only
    rw [if_pos (by rw [editorLineLen]; omega), if_pos (by rw [editorLineLen]; omega),
      set_of_lt _ hy (by omega), Option.bind_some,
      show ((l ++ r).length : Int) + 1 = ((l ++ r).length + 1 : Nat) by omega, put_cursorY,
      set_of_lt _ hy (by omega), Option.bind_some]
    rfl
  · intro i hi
    funext j
    rw [put_lines_of_ne _ hi, put_lines_of_ne _ hi]
    exact congrFun (hother i hi) j
  · -- column by column: the new byte, the shifted rest, the new NUL
    have hcell (j : Nat) :
        (({ ed with lines }.put y l.length c).put y ((l ++ r).length + 1) 0).lines y j =
          if j = (l ++ r).length + 1 then 0 else if j = l.length then c else lines y j := by
      rw [put_lines_same, put_lines_same]
    refine ⟨spells_append.mpr ⟨hspells.1.congr fun i hi => ?_, ?_, hspells.2.congr fun i hi => ?_⟩,
      ?_, ?_, ?_⟩
    · rw [hcell, hrow, if_neg (by omega), if_neg (by omega), if_neg (by omega)]
    · rw [hcell, if_neg (by omega), if_pos (by omega)]
    · rw [hcell, hrow, if_neg (by omega), if_neg (by omega), if_pos (by omega)]
      exact congrArg (ed.lines y) (by omega)
    · rw [hcell, if_pos (by simp only [List.length_append, List.length_cons]; omega)]
    · simp only [List.length_append, List.length_cons]
      omega
    · intro b hb
      rcases List.mem_append.mp hb with hb | hb
      · exact h.noNul b (List.mem_append_left _ hb)
      · rcases List.mem_cons.mp hb with rfl | hb
        · exact hc
        · exact h.noNul b (List.mem_append_right _ hb)

/-- A row after the byte before the cursor was deleted. -/
theorem editorDeleteChar_of_row {l r : List UInt8} {c : UInt8} (hy : y < 256)
    (h : RowIs (ed.lines y) (l ++ c :: r)) (hcursorY : ed.cursorY = y)
    (hcursorX : ed.cursorX = l.length + 1) :
    ∃ lines, editorDeleteChar ed =
        some { ed with lines, cursorX := ed.cursorX - 1, modified := true } ∧
      (∀ i ≠ y, lines i = ed.lines i) ∧ RowIs (lines y) (l ++ r) := by
  have hlength : (l ++ c :: r).length = l.length + (r.length + 1) := by
    rw [List.length_append, List.length_cons]
  have hlt := h.length_lt
  obtain ⟨lines, hshift, hother, hrow⟩ := @shiftLeft_spec ed y l.length (r.length + 1) hy (by omega)
  have hspells := spells_append.mp h.spells
  rw [Nat.zero_add] at hspells
  have hended := h.ended
  refine ⟨lines, ?_, hother, ?_⟩
  · have hturns : (((l ++ c :: r).length : Int) - l.length).toNat = r.length + 1 := by omega
    rw [editorDeleteChar, if_pos (by omega)]
    simp only [hcursorY, hcursorX, strlen_of_row hy h, Option.bind_eq_bind, Option.bind_some,
      add_sub_cancel_right, hturns, hshift]
  · refine ⟨spells_append.mpr ⟨hspells.1.congr fun i hi => ?_, hspells.2.2.congr fun i hi => ?_⟩,
      ?_, ?_, ?_⟩
    · rw [hrow, if_neg (by omega)]
    · rw [hrow, if_pos (by omega)]
      exact congrArg (ed.lines y) (by omega)
    · rw [hrow, List.length_append, if_pos (by omega), ← hended, hlength, Nat.add_assoc]
    · rw [List.length_append]
      omega
    · intro b hb
      refine h.noNul b ?_
      rcases List.mem_append.mp hb with hb | hb
      · exact List.mem_append_left _ hb
      · exact List.mem_append_right _ (List.mem_cons_of_mem _ hb)

/-! ## Moving lines -/

/-- Each of the `n` lines from `a` on becomes the line below it. -/
theorem moveUp_spec {n a : Nat} {strings : Nat → List UInt8} (hroom : a + n < 256)
    (h : ∀ i, a < i → i ≤ a + n → RowIs (ed.lines i) (strings i)) :
    ∃ lines, moveUp n a ed = some { ed with lines } ∧
      (∀ i, i < a ∨ a + n ≤ i → lines i = ed.lines i) ∧
      ∀ i, a ≤ i → i < a + n → RowIs (lines i) (strings (i + 1)) := by
  induction n generalizing a ed with
  | zero => exact ⟨ed.lines, rfl, fun _ _ => rfl, fun i hlow hhigh => by omega⟩
  | succ n ih =>
      obtain ⟨copied, hcopy, hother, hrow⟩ := @strcpy_of_row _ ed a (a + 1) 0 (by omega) (by omega)
        (by omega) (h (a + 1) (by omega) (by omega)) (Nat.zero_le _)
      rw [List.drop_zero] at hrow
      have hnext : (a : Int) + 1 = (a + 1 : Nat) := by omega
      rw [moveUp, hnext]
      rw [Nat.cast_zero] at hcopy
      rw [hcopy, Option.bind_eq_bind, Option.bind_some]
      obtain ⟨lines, hmove, hkept, hmoved⟩ := @ih { ed with lines := copied } (a + 1) (by omega)
        fun i hlow hhigh => by
          change RowIs (copied i) (strings i)
          rw [hother i (by omega)]
          exact h i (by omega) (by omega)
      refine ⟨lines, hmove, fun i hi => ?_, fun i hlow hhigh => ?_⟩
      · rw [hkept i (by omega)]
        exact hother i (by omega)
      · rcases Nat.eq_or_lt_of_le hlow with rfl | hlt
        · rw [hkept a (by omega)]
          exact hrow
        · exact hmoved i hlt (by omega)

/-- Each of the `n` lines below `a` becomes the line above it. -/
theorem moveDown_spec {n a : Nat} {strings : Nat → List UInt8} (hroom : a + n < 256)
    (h : ∀ i, a ≤ i → i < a + n → RowIs (ed.lines i) (strings i)) :
    ∃ lines, moveDown n (a + n : Nat) ed = some { ed with lines } ∧
      (∀ i, i ≤ a ∨ a + n < i → lines i = ed.lines i) ∧
      ∀ i, a < i → i ≤ a + n → RowIs (lines i) (strings (i - 1)) := by
  induction n generalizing ed with
  | zero => exact ⟨ed.lines, rfl, fun _ _ => rfl, fun i hlow hhigh => by omega⟩
  | succ n ih =>
      obtain ⟨copied, hcopy, hother, hrow⟩ := @strcpy_of_row _ ed (a + (n + 1)) (a + n) 0 (by omega)
        (by omega) (by omega) (h (a + n) (by omega) (by omega)) (Nat.zero_le _)
      rw [List.drop_zero] at hrow
      have hnext : ((a + (n + 1) : Nat) : Int) - 1 = (a + n : Nat) := by omega
      rw [moveDown, hnext]
      rw [Nat.cast_zero] at hcopy
      rw [hcopy, Option.bind_eq_bind, Option.bind_some]
      obtain ⟨lines, hmove, hkept, hmoved⟩ := @ih { ed with lines := copied } (by omega)
        fun i hlow hhigh => by
          change RowIs (copied i) (strings i)
          rw [hother i (by omega)]
          exact h i (by omega) (by omega)
      refine ⟨lines, hmove, fun i hi => ?_, fun i hlow hhigh => ?_⟩
      · rw [hkept i (by omega)]
        exact hother i (by omega)
      · rcases Nat.eq_or_lt_of_le hhigh with rfl | hlt
        · rw [hkept _ (by omega)]
          exact hrow
        · exact hmoved i hlow (by omega)

end Dosfs.Editor
