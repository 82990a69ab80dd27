import Mathlib.Data.Nat.Basic

/-!
# Terminals

A terminal keeps every row that was ever written; a screen of the same width
keeps as many rows as fit and scrolls. Both wrap as soon as a row is full. The
screen always shows the last rows of the terminal.
-/

namespace Foundation

/-- A terminal with as many rows as it takes. -/
structure Terminal (α : Type*) where
  cell : Nat → Nat → α
  row : Nat
  col : Nat

/-- What can be fed to a terminal. -/
inductive TermInput (α : Type*)
  | print (a : α)
  | newline
  | carriageReturn
  | tab

/-- A screen with a fixed number of rows. -/
structure Screen (height width : Nat) (α : Type*) where
  cell : Fin height → Fin width → α
  row : Nat
  col : Nat

variable {α : Type*} {height width tabWidth : Nat} {blank : α}

/-- The column of the next tab stop, at most the last column. -/
def nextTab (width tabWidth col : Nat) : Nat := min (width - 1) ((col / tabWidth + 1) * tabWidth)

namespace Terminal

def empty (blank : α) : Terminal α := ⟨fun _ _ => blank, 0, 0⟩

/-- What an input does before the row is checked to be full. -/
def act (width tabWidth : Nat) (t : Terminal α) : TermInput α → Terminal α
  | .print a => { t with
      cell := fun i j => if i = t.row ∧ j = t.col then a else t.cell i j
      col := t.col + 1 }
  | .newline => { t with row := t.row + 1, col := 0 }
  | .carriageReturn => { t with col := 0 }
  | .tab => { t with col := nextTab width tabWidth t.col }

/-- A full row ends at once. -/
def wrap (width : Nat) (t : Terminal α) : Terminal α :=
  if t.col < width then t else { t with row := t.row + 1, col := 0 }

def feed (width tabWidth : Nat) (t : Terminal α) (input : TermInput α) : Terminal α :=
  (t.act width tabWidth input).wrap width

/-- The number of the first of the last `height` rows. -/
def top (height : Nat) (t : Terminal α) : Nat := t.row + 1 - height

/-- The cursor is inside its row, and nothing was written below it. -/
structure Tidy (width : Nat) (blank : α) (t : Terminal α) : Prop where
  col_lt : t.col < width
  below : ∀ i j, t.row < i → t.cell i j = blank

theorem empty_tidy (hwidth : 0 < width) : (empty blank).Tidy width blank :=
  ⟨hwidth, fun _ _ _ => rfl⟩

theorem row_le_row_act (width tabWidth : Nat) (t : Terminal α) (input : TermInput α) :
    t.row ≤ (t.act width tabWidth input).row := by
  cases input with
  | print a => exact Nat.le_refl _
  | newline => exact Nat.le_succ _
  | carriageReturn => exact Nat.le_refl _
  | tab => exact Nat.le_refl _

/-- An input writes only in the row of the cursor. -/
theorem act_cell_of_lt {t : Terminal α} (input : TermInput α) {i : Nat} (hi : t.row < i) (j : Nat) :
    (t.act width tabWidth input).cell i j = t.cell i j := by
  cases input with
  | print a => exact if_neg fun h => absurd h.1 (Nat.ne_of_gt hi)
  | newline => rfl
  | carriageReturn => rfl
  | tab => rfl

@[simp] theorem wrap_cell (t : Terminal α) : (t.wrap width).cell = t.cell := by
  unfold wrap
  split <;> rfl

theorem row_le_row_wrap (width : Nat) (t : Terminal α) : t.row ≤ (t.wrap width).row := by
  unfold wrap
  split
  · exact Nat.le_refl _
  · exact Nat.le_succ _

theorem wrap_col_lt (hwidth : 0 < width) (t : Terminal α) : (t.wrap width).col < width := by
  unfold wrap
  split
  next hcol => exact hcol
  next => exact hwidth

/-- An input never moves the cursor up. -/
theorem row_le_row_feed (width tabWidth : Nat) (t : Terminal α) (input : TermInput α) :
    t.row ≤ (t.feed width tabWidth input).row :=
  Nat.le_trans (row_le_row_act width tabWidth t input) (row_le_row_wrap width _)

theorem Tidy.feed {t : Terminal α} (h : t.Tidy width blank) (input : TermInput α) :
    (t.feed width tabWidth input).Tidy width blank where
  col_lt := wrap_col_lt (Nat.zero_lt_of_lt h.col_lt) _
  below i j hi := by
    have hrow : t.row < i := Nat.lt_of_le_of_lt (row_le_row_feed width tabWidth t input) hi
    rw [Terminal.feed, wrap_cell, act_cell_of_lt input hrow, h.below i j hrow]

end Terminal

namespace Screen

def empty (blank : α) : Screen height width α := ⟨fun _ _ => blank, 0, 0⟩

def act (tabWidth : Nat) (s : Screen height width α) : TermInput α → Screen height width α
  | .print a => { s with
      cell := fun i j => if i.val = s.row ∧ j.val = s.col then a else s.cell i j
      col := s.col + 1 }
  | .newline => { s with row := s.row + 1, col := 0 }
  | .carriageReturn => { s with col := 0 }
  | .tab => { s with col := nextTab width tabWidth s.col }

def wrap (s : Screen height width α) : Screen height width α :=
  if s.col < width then s else { s with row := s.row + 1, col := 0 }

/-- Below the last row the screen moves up by one row. -/
def scroll (blank : α) (s : Screen height width α) : Screen height width α :=
  if s.row < height then s
  else { s with
    cell := fun i j => if hi : i.val + 1 < height then s.cell ⟨i.val + 1, hi⟩ j else blank
    row := height - 1 }

def feed (tabWidth : Nat) (blank : α) (s : Screen height width α) (input : TermInput α) :
    Screen height width α :=
  (s.act tabWidth input).wrap.scroll blank

/-- The screen shows the rows of the terminal from row `top` on. -/
structure ShowsFrom (top : Nat) (s : Screen height width α) (t : Terminal α) : Prop where
  row : top + s.row = t.row
  col : s.col = t.col
  cell : ∀ i j, s.cell i j = t.cell (top + i) j

variable {s : Screen height width α} {t : Terminal α} {top : Nat}

theorem ShowsFrom.act (tabWidth : Nat) (h : s.ShowsFrom top t) (input : TermInput α) :
    (s.act tabWidth input).ShowsFrom top (t.act width tabWidth input) := by
  cases input with
  | print a =>
      refine ⟨h.row, congrArg (· + 1) h.col, fun i j => ?_⟩
      have hrow : i.val = s.row ↔ top + i = t.row := by
        rw [← h.row]
        omega
      change (if i.val = s.row ∧ j.val = s.col then a else s.cell i j) =
        if top + i = t.row ∧ j.val = t.col then a else t.cell (top + i) j
      simp only [hrow, h.col, h.cell]
  | newline => exact ⟨congrArg (· + 1) h.row, rfl, h.cell⟩
  | carriageReturn => exact ⟨h.row, rfl, h.cell⟩
  | tab => exact ⟨h.row, congrArg (nextTab width tabWidth) h.col, h.cell⟩

theorem ShowsFrom.wrap (h : s.ShowsFrom top t) : s.wrap.ShowsFrom top (t.wrap width) := by
  unfold Screen.wrap Terminal.wrap
  rw [h.col]
  split
  · exact h
  · exact ⟨congrArg (· + 1) h.row, rfl, h.cell⟩

/-- Scrolling shows the same terminal one row further down. -/
theorem ShowsFrom.scroll (h : s.ShowsFrom top t) (hheight : 0 < height) (hrow : s.row = height)
    (hblank : ∀ j, t.cell t.row j = blank) : (s.scroll blank).ShowsFrom (top + 1) t := by
  have htop := h.row
  unfold Screen.scroll
  rw [if_neg (by omega)]
  refine ⟨?_, h.col, fun i j => ?_⟩
  · change top + 1 + (height - 1) = t.row
    omega
  · change (if hi : i.val + 1 < height then s.cell ⟨i.val + 1, hi⟩ j else blank) = _
    split
    next hi =>
      rw [h.cell, show top + (i.val + 1) = top + 1 + i.val by omega]
    next hi =>
      have hlast : top + 1 + i.val = t.row := by omega
      rw [hlast, hblank]

/-- The screen shows the last rows of the terminal. -/
def Shows (s : Screen height width α) (t : Terminal α) : Prop := s.ShowsFrom (t.top height) t

theorem shows_empty (hheight : 0 < height) :
    (empty blank : Screen height width α).Shows (Terminal.empty blank) := by
  have htop : (Terminal.empty blank).top height = 0 := by
    change 0 + 1 - height = 0
    omega
  rw [Shows, htop]
  exact ⟨rfl, rfl, fun _ _ => rfl⟩

theorem Shows.row_lt (h : s.Shows t) : s.row < height := by
  have hrow := h.row
  rw [Terminal.top] at hrow
  omega

theorem row_act_le (tabWidth : Nat) (s : Screen height width α) (input : TermInput α) :
    (s.act tabWidth input).row ≤ s.row + 1 := by
  cases input with
  | print a => exact Nat.le_succ _
  | newline => exact Nat.le_refl _
  | carriageReturn => exact Nat.le_succ _
  | tab => exact Nat.le_succ _

/-- An input moves the cursor down by at most one row. -/
theorem row_wrap_act_le (tabWidth : Nat) (hcol : s.col < width) (input : TermInput α) :
    (s.act tabWidth input).wrap.row ≤ s.row + 1 := by
  unfold Screen.wrap
  split
  · exact row_act_le tabWidth s input
  next hfull =>
    cases input with
    | print a => exact Nat.le_refl _
    | newline => exact absurd (Nat.zero_lt_of_lt hcol) hfull
    | carriageReturn => exact absurd (Nat.zero_lt_of_lt hcol) hfull
    | tab =>
        have hlt : nextTab width tabWidth s.col < width := by
          unfold nextTab
          omega
        exact absurd hlt hfull

/-- One input: the screen still shows the last rows. -/
theorem Shows.feed (tabWidth : Nat) (h : s.Shows t) (hheight : 0 < height) (ht : t.Tidy width blank)
    (input : TermInput α) : (s.feed tabWidth blank input).Shows (t.feed width tabWidth input) := by
  have hacted := (ShowsFrom.act tabWidth h input).wrap
  have hcol : s.col < width := by
    rw [h.col]
    exact ht.col_lt
  have hle := row_wrap_act_le tabWidth hcol input
  have hrow := h.row
  have hrow' := hacted.row
  have hge := Terminal.row_le_row_feed width tabWidth t input
  rw [Terminal.feed] at hge
  have htop : t.top height = t.row + 1 - height := rfl
  rw [Shows, Terminal.feed, Screen.feed, Terminal.top]
  by_cases hscroll : (s.act tabWidth input).wrap.row < height
  · have hsame : ((t.act width tabWidth input).wrap width).row + 1 - height = t.top height := by
      omega
    rw [Screen.scroll, if_pos hscroll, hsame]
    exact hacted
  · have hnext : ((t.act width tabWidth input).wrap width).row + 1 - height =
        t.top height + 1 := by
      omega
    rw [hnext]
    refine hacted.scroll hheight (by omega) fun j => ?_
    rw [Terminal.wrap_cell, Terminal.act_cell_of_lt input (by omega), ht.below _ j (by omega)]

end Screen

end Foundation
