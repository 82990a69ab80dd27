import Dosfs.Foundation.Fuelled

/-!
# Computations that keep a record

A computation that notes events next to its state. Without the notes it is a
computation on the state alone, and a note stays whatever comes after it, also
when the fuel runs out.
-/

namespace Foundation

/-- A computation that may run out of fuel and notes events. -/
abbrev Logged (σ ε : Type) := Fuelled (σ × List ε)

namespace Logged

open Fuelled

variable {σ ε α β : Type}

/-- Run a computation without a note. -/
def quiet (x : Fuelled σ α) : Logged σ ε α :=
  OptionT.mk fun k => ((outcome x k.1).1, (outcome x k.1).2, k.2)

def note (e : ε) : Logged σ ε PUnit := modify fun k => (k.1, k.2 ++ [e])

variable {x : Logged σ ε α} {f : α → Logged σ ε β} {y : Fuelled σ α} {g : α → Fuelled σ β}
variable {k : σ × List ε} {e : ε}

theorem outcome_quiet (y : Fuelled σ α) (k : σ × List ε) :
    outcome (quiet y) k = ((outcome y k.1).1, (outcome y k.1).2, k.2) := rfl

theorem outcome_note_bind {f : PUnit → Logged σ ε β} :
    outcome (note e >>= f) k = outcome (f ⟨⟩) (k.1, k.2 ++ [e]) := rfl

/-! ## Without the notes -/

/-- Without its notes the computation is `y`. -/
def Forgets (x : Logged σ ε α) (y : Fuelled σ α) : Prop :=
  ∀ k, (outcome x k).1 = (outcome y k.1).1 ∧ (outcome x k).2.1 = (outcome y k.1).2

theorem forgets_quiet (y : Fuelled σ α) : Forgets (quiet y : Logged σ ε α) y :=
  fun _ => ⟨rfl, rfl⟩

theorem forgets_pure (a : α) : Forgets (pure a : Logged σ ε α) (pure a) := fun _ => ⟨rfl, rfl⟩

theorem forgets_bind (hx : Forgets x y) (hf : ∀ a, Forgets (f a) (g a)) :
    Forgets (x >>= f) (y >>= g) := by
  intro k
  obtain ⟨hresult, hstate⟩ := hx k
  rw [outcome_bind, outcome_bind]
  generalize outcome x k = reached at hresult hstate ⊢
  obtain ⟨result, s', log⟩ := reached
  dsimp only at hresult hstate
  subst hstate hresult
  cases hreached : outcome y k.1 with
  | mk result s' =>
      cases result with
      | none => exact ⟨rfl, rfl⟩
      | some a => exact hf a (s', log)

theorem forgets_note_bind {f : PUnit → Logged σ ε β} {y : Fuelled σ β} (hf : Forgets (f ⟨⟩) y) :
    Forgets (note e >>= f) y := fun k => hf (k.1, k.2 ++ [e])

theorem forgets_get_bind {f : σ → Logged σ ε β} {g : σ → Fuelled σ β}
    (hf : ∀ s, Forgets (f s) (g s)) : Forgets (quiet get >>= f) (get >>= g) :=
  forgets_bind (forgets_quiet get) hf

theorem forgets_ite {c : Prop} [Decidable c] {x x' : Logged σ ε α} {y y' : Fuelled σ α}
    (hx : Forgets x y) (hx' : Forgets x' y') :
    Forgets (if c then x else x') (if c then y else y') := by
  split
  next => exact hx
  next => exact hx'

/-! ## The notes -/

/-- The notes made from here on are good. -/
def NotesOnly (good : ε → Prop) (k k' : σ × List ε) : Prop := ∀ e ∈ k'.2, e ∈ k.2 ∨ good e

instance (good : ε → Prop) : IsPreorder (σ × List ε) (NotesOnly good) where
  refl _ _ he := Or.inl he
  trans _ _ _ h h' e he := (h' e he).elim (h e) Or.inr

/-- The notes made so far are kept. -/
def KeepsNotes (k k' : σ × List ε) : Prop := ∀ e ∈ k.2, e ∈ k'.2

instance : IsPreorder (σ × List ε) KeepsNotes where
  refl _ _ he := he
  trans _ _ _ h h' e he := h' e (h e he)

theorem notesOnly_quiet (good : ε → Prop) : Within (NotesOnly good) k (quiet y) :=
  fun _ he => Or.inl he

theorem notesOnly_note {good : ε → Prop} (he : good e) :
    Within (NotesOnly good) k (note e) := by
  intro e' he'
  rcases List.mem_append.1 he' with hold | hnew
  · exact Or.inl hold
  · rw [List.mem_singleton.1 hnew]
    exact Or.inr he

theorem mem_of_keepsNotes (hx : Within KeepsNotes k x) (he : e ∈ k.2) : e ∈ (outcome x k).2.2 :=
  hx e he

theorem keepsNotes_quiet : Within KeepsNotes k (quiet y) := fun _ he => he

theorem keepsNotes_note : Within KeepsNotes k (note e) := fun _ he => List.mem_append_left _ he

end Logged

end Foundation
