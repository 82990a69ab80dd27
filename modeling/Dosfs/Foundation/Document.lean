import Mathlib.Data.List.Basic
import Mathlib.Data.List.TakeDrop
import Mathlib.Data.List.GetD

/-!
# Documents with a cursor

A text in lines, opened at a cursor: the lines above, the two parts of the
current line, and the lines below, so that a cursor outside the text cannot be
written down. Joining the lines by breaks gives the text before the cursor and
the text after it; editing at the cursor adds or removes one symbol between the
two.
-/

namespace Foundation

structure Document (α : Type*) where
  above : List (List α)
  left : List α
  right : List α
  below : List (List α)
  deriving DecidableEq

namespace Document

variable {α : Type*} {brk : α}

/-- The line of the cursor. -/
def line (d : Document α) : List α := d.left ++ d.right

def lines (d : Document α) : List (List α) := d.above ++ d.line :: d.below

/-- The text before the cursor. -/
def before (brk : α) (d : Document α) : List α := (d.above.flatMap fun l => l ++ [brk]) ++ d.left

/-- The text after the cursor. -/
def after (brk : α) (d : Document α) : List α := d.right ++ d.below.flatMap fun l => brk :: l

/-- The lines opened at row `y` and column `x`. -/
def ofLines (lines : List (List α)) (y x : Nat) : Document α where
  above := lines.take y
  left := (lines.getD y []).take x
  right := (lines.getD y []).drop x
  below := lines.drop (y + 1)

/-! ## Editing -/

def insert (c : α) (d : Document α) : Document α := { d with left := d.left ++ [c] }

def newline (d : Document α) : Document α :=
  { d with above := d.above ++ [d.left], left := [] }

/-- Remove what is just before the cursor: a symbol of the line, or the break
between the line and the one above. -/
def backspace (d : Document α) : Document α :=
  if d.left = [] then
    match d.above.getLast? with
    | none => d
    | some prev => { d with above := d.above.dropLast, left := prev }
  else { d with left := d.left.dropLast }

theorem before_insert (c : α) (d : Document α) :
    (d.insert c).before brk = d.before brk ++ [c] := by
  simp [before, insert]

theorem before_newline (d : Document α) : d.newline.before brk = d.before brk ++ [brk] := by
  simp [before, newline]

theorem before_eq_nil_iff {d : Document α} : d.before brk = [] ↔ d.above = [] ∧ d.left = [] := by
  rw [before, List.append_eq_nil_iff]
  cases d.above with
  | nil => simp
  | cons l above => simp

theorem backspace_of_left {d : Document α} (h : d.left ≠ []) :
    d.backspace = { d with left := d.left.dropLast } :=
  if_neg h

theorem backspace_of_above {d : Document α} {above : List (List α)} {prev : List α}
    (hleft : d.left = []) (habove : d.above = above ++ [prev]) :
    d.backspace = { d with above := above, left := prev } := by
  rw [backspace, if_pos hleft, habove, List.getLast?_concat, List.dropLast_concat]

theorem before_backspace (d : Document α) :
    d.backspace.before brk = (d.before brk).dropLast := by
  by_cases hleft : d.left = []
  · rcases List.eq_nil_or_concat d.above with habove | ⟨above, prev, habove⟩
    · simp [backspace, before, hleft, habove]
    · rw [List.concat_eq_append] at habove
      rw [backspace_of_above hleft habove, before, before, habove, hleft, List.flatMap_append,
        List.append_nil, List.flatMap_singleton, ← List.append_assoc, List.dropLast_concat]
  · rw [backspace_of_left hleft, before, before, List.dropLast_append_of_ne_nil hleft]

theorem after_backspace (d : Document α) : d.backspace.after brk = d.after brk := by
  unfold backspace
  split
  · split <;> rfl
  · rfl

/-! ## Lines and cursor -/

theorem length_lines (d : Document α) :
    d.lines.length = d.above.length + 1 + d.below.length := by
  rw [lines, List.length_append, List.length_cons]
  omega

theorem above_length_lt (d : Document α) : d.above.length < d.lines.length := by
  rw [length_lines]
  omega

/-- The lines with the cursor at the start of one that has another above it. -/
theorem lines_of_above {d : Document α} {above : List (List α)} {prev : List α}
    (hleft : d.left = []) (habove : d.above = above ++ [prev]) :
    d.lines = above ++ prev :: d.right :: d.below := by
  rw [lines, line, hleft, habove, List.nil_append, List.append_assoc, List.singleton_append]

@[simp] theorem getElem?_lines_above (d : Document α) :
    d.lines[d.above.length]? = some d.line := by
  simp [lines]

theorem getElem_lines_above {d : Document α} (h : d.above.length < d.lines.length) :
    d.lines[d.above.length] = d.line := by
  have hline := d.getElem?_lines_above
  rw [List.getElem?_eq_getElem h] at hline
  exact Option.some.inj hline

theorem ofLines_lines {lines : List (List α)} {y : Nat} (hy : y < lines.length) (x : Nat) :
    (ofLines lines y x).lines = lines := by
  have hsplit := List.take_append_drop y lines
  rw [List.drop_eq_getElem_cons hy] at hsplit
  rw [Document.lines, Document.line, ofLines, List.take_append_drop, List.getD_eq_getElem _ _ hy]
  exact hsplit

theorem ofLines_above_length {lines : List (List α)} {y : Nat} (hy : y < lines.length) (x : Nat) :
    (ofLines lines y x).above.length = y := by
  rw [ofLines, List.length_take]
  omega

theorem ofLines_left_length {lines : List (List α)} {y x : Nat}
    (hx : x ≤ (lines.getD y []).length) : (ofLines lines y x).left.length = x := by
  rw [ofLines, List.length_take]
  omega

/-- A document is its lines and the place of the cursor. -/
theorem ofLines_self (d : Document α) : ofLines d.lines d.above.length d.left.length = d := by
  have hline : d.lines.getD d.above.length [] = d.line := by
    rw [List.getD_eq_getElem?_getD, getElem?_lines_above, Option.getD_some]
  rw [ofLines, hline]
  simp [lines, line]

/-- Two texts that are equal have the same first break. -/
private theorem first_break {l l' rest rest' : List α} (h : brk ∉ l) (h' : brk ∉ l')
    (heq : l ++ brk :: rest = l' ++ brk :: rest') : l = l' ∧ rest = rest' := by
  induction l generalizing l' with
  | nil =>
      cases l' with
      | nil => exact ⟨rfl, (List.cons.inj heq).2⟩
      | cons a l' => exact absurd ((List.cons.inj heq).1 ▸ List.mem_cons_self) h'
  | cons a l ih =>
      cases l' with
      | nil => exact absurd ((List.cons.inj heq).1 ▸ List.mem_cons_self) h
      | cons a' l' =>
          obtain ⟨rfl, htail⟩ := List.cons.inj heq
          obtain ⟨rfl, hrest⟩ := ih (fun hl => h (List.mem_cons_of_mem _ hl))
            (fun hl => h' (List.mem_cons_of_mem _ hl)) htail
          exact ⟨rfl, hrest⟩

private theorem above_injective {above above' : List (List α)} {left left' : List α}
    (h : ∀ l ∈ above, brk ∉ l) (h' : ∀ l ∈ above', brk ∉ l) (hleft : brk ∉ left)
    (hleft' : brk ∉ left') (heq : (above.flatMap fun l => l ++ [brk]) ++ left =
      (above'.flatMap fun l => l ++ [brk]) ++ left') : above = above' ∧ left = left' := by
  induction above generalizing above' with
  | nil =>
      cases above' with
      | nil => exact ⟨rfl, by simpa using heq⟩
      | cons l' above' =>
          refine absurd ?_ hleft
          rw [show left = _ from heq]
          simp
  | cons l above ih =>
      cases above' with
      | nil =>
          refine absurd ?_ hleft'
          rw [← show _ = left' from heq]
          simp
      | cons l' above' =>
          simp only [List.flatMap_cons, List.append_assoc, List.singleton_append] at heq
          obtain ⟨hl, hrest⟩ := first_break (h l List.mem_cons_self)
            (h' l' List.mem_cons_self) heq
          obtain ⟨habove, hsame⟩ := ih (fun m hm => h m (List.mem_cons_of_mem _ hm))
            (fun m hm => h' m (List.mem_cons_of_mem _ hm)) hrest
          exact ⟨by rw [hl, habove], hsame⟩

private theorem below_injective {below below' : List (List α)} {right right' : List α}
    (h : ∀ l ∈ below, brk ∉ l) (h' : ∀ l ∈ below', brk ∉ l) (hright : brk ∉ right)
    (hright' : brk ∉ right') (heq : (right ++ below.flatMap fun l => brk :: l) =
      right' ++ below'.flatMap fun l => brk :: l) : right = right' ∧ below = below' := by
  induction below generalizing below' right right' with
  | nil =>
      cases below' with
      | nil => exact ⟨by simpa using heq, rfl⟩
      | cons l' below' =>
          refine absurd ?_ hright
          rw [List.flatMap_nil, List.append_nil] at heq
          rw [heq]
          simp
  | cons l below ih =>
      cases below' with
      | nil =>
          refine absurd ?_ hright'
          rw [List.flatMap_nil, List.append_nil] at heq
          rw [← heq]
          simp
      | cons l' below' =>
          simp only [List.flatMap_cons, List.cons_append] at heq
          obtain ⟨hsame, hrest⟩ := first_break hright hright' heq
          obtain ⟨hl, hbelow⟩ := ih (fun m hm => h m (List.mem_cons_of_mem _ hm))
            (fun m hm => h' m (List.mem_cons_of_mem _ hm)) (h l List.mem_cons_self)
            (h' l' List.mem_cons_self) hrest
          exact ⟨hsame, by rw [hl, hbelow]⟩

/-- The text before the cursor and the text after it determine the document, as
long as no line contains a break. -/
theorem eq_of_text {d d' : Document α} (h : ∀ l ∈ d.lines, brk ∉ l)
    (h' : ∀ l ∈ d'.lines, brk ∉ l) (hbefore : d.before brk = d'.before brk)
    (hafter : d.after brk = d'.after brk) : d = d' := by
  simp only [lines, line, List.mem_append, List.mem_cons] at h h'
  obtain ⟨habove, hleft⟩ := above_injective (fun l hl => h l (Or.inl hl))
    (fun l hl => h' l (Or.inl hl))
    (fun hbrk => h _ (Or.inr (Or.inl rfl)) (List.mem_append_left _ hbrk))
    (fun hbrk => h' _ (Or.inr (Or.inl rfl)) (List.mem_append_left _ hbrk)) hbefore
  obtain ⟨hright, hbelow⟩ := below_injective (fun l hl => h l (Or.inr (Or.inr hl)))
    (fun l hl => h' l (Or.inr (Or.inr hl)))
    (fun hbrk => h _ (Or.inr (Or.inl rfl)) (List.mem_append_right _ hbrk))
    (fun hbrk => h' _ (Or.inr (Or.inl rfl)) (List.mem_append_right _ hbrk)) hafter
  cases d
  cases d'
  simp_all

end Document

end Foundation
