import Mathlib.Data.List.Basic

/-!
# Computations on a shared state

A computation on a state that its surroundings change as well: events happen before each
of its accesses, any number of them and of any kind that is allowed. A triple says what
holds after the computation whatever happens meanwhile; what it asserts between two
accesses has to be stable, that is, no allowed event makes it false.
-/

namespace Foundation

/-- A state, and the events still to come: those before the next access, and so on. -/
structure World (σ ε : Type*) where
  state : σ
  ahead : List (List ε)

/-- A computation that shares its state. -/
abbrev Shared (σ ε : Type) := StateM (World σ ε)

namespace Shared

variable {σ ε α β : Type} {act : σ → ε → σ}

/-- Look at the state and change it, after the events of this moment. -/
def access (act : σ → ε → σ) (f : σ → α × σ) : Shared σ ε α := fun w =>
  let found := f ((w.ahead.headD []).foldl act w.state)
  (found.1, ⟨found.2, w.ahead.tail⟩)

/-- Try at most so many times. -/
def attempt (body : Shared σ ε Bool) : Nat → Shared σ ε Bool
  | 0 => pure false
  | n + 1 => do
      if ← body then
        return true
      else
        attempt body n

/-- Only allowed events are to come. -/
def Allows (allowed : ε → Prop) (w : World σ ε) : Prop :=
  ∀ batch ∈ w.ahead, ∀ e ∈ batch, allowed e

/-- No allowed event makes the assertion false. -/
def Stable (act : σ → ε → σ) (allowed : ε → Prop) (P : σ → Prop) : Prop :=
  ∀ s e, allowed e → P s → P (act s e)

/-- Started where `P` holds, the computation ends where `Q` holds of its result, whatever
allowed events happen meanwhile. -/
def Triple (allowed : ε → Prop) (P : σ → Prop) (x : Shared σ ε α) (Q : α → σ → Prop) : Prop :=
  ∀ w, Allows allowed w → P w.state → Q (x w).1 (x w).2.state ∧ Allows allowed (x w).2

variable {allowed : ε → Prop} {P P' : σ → Prop} {Q Q' : α → σ → Prop} {S : β → σ → Prop}
  {x : Shared σ ε α}

/-! ## Stable assertions -/

theorem Stable.foldl (h : Stable act allowed P) {batch : List ε} (hbatch : ∀ e ∈ batch, allowed e)
    {s : σ} (hs : P s) : P (batch.foldl act s) := by
  induction batch generalizing s with
  | nil => exact hs
  | cons e batch ih =>
      rw [List.forall_mem_cons] at hbatch
      exact ih hbatch.2 (h s e hbatch.1 hs)

theorem Stable.and (h : Stable act allowed P) (h' : Stable act allowed P') :
    Stable act allowed fun s => P s ∧ P' s :=
  fun s e he hs => ⟨h s e he hs.1, h' s e he hs.2⟩

/-! ## Triples -/

theorem triple_pure (a : α) : Triple allowed (Q a) (pure a : Shared σ ε α) Q :=
  fun _ hw hs => ⟨hs, hw⟩

theorem Triple.bind {f : α → Shared σ ε β} (hx : Triple allowed P x Q)
    (hf : ∀ a, Triple allowed (Q a) (f a) S) : Triple allowed P (x >>= f) S := by
  intro w hw hs
  obtain ⟨hmiddle, hw'⟩ := hx w hw hs
  exact hf _ _ hw' hmiddle

theorem Triple.conseq (hx : Triple allowed P x Q) (hP : ∀ s, P' s → P s)
    (hQ : ∀ a s, Q a s → Q' a s) : Triple allowed P' x Q' :=
  fun w hw hs => (hx w hw (hP _ hs)).imp_left (hQ _ _)

theorem Triple.pre (hx : Triple allowed P x Q) (hP : ∀ s, P' s → P s) : Triple allowed P' x Q :=
  hx.conseq hP fun _ _ => id

theorem Triple.post (hx : Triple allowed P x Q) (hQ : ∀ a s, Q a s → Q' a s) :
    Triple allowed P x Q' :=
  hx.conseq (fun _ => id) hQ

/-- An assertion about an object that is only known to exist. -/
theorem triple_exists {ι : Sort*} {R : ι → σ → Prop} (h : ∀ i, Triple allowed (R i) x Q) :
    Triple allowed (fun s => ∃ i, R i s) x Q :=
  fun w hw ⟨i, hs⟩ => h i w hw hs

/-- A fact that does not depend on the state. -/
theorem triple_fact {p : Prop} (h : p → Triple allowed P x Q) :
    Triple allowed (fun s => p ∧ P s) x Q :=
  fun w hw hs => h hs.1 w hw hs.2

theorem map_run (f : α → β) (x : Shared σ ε α) (w : World σ ε) :
    (f <$> x) w = (f (x w).1, (x w).2) := rfl

/-- One access: the assertion is stable, and the access turns it into the next one. -/
theorem triple_access {f : σ → α × σ} (hP : Stable act allowed P)
    (hf : ∀ s, P s → Q (f s).1 (f s).2) : Triple allowed P (access act f) Q := by
  intro w hw hs
  refine ⟨hf _ (hP.foldl (fun e he => ?_) hs), fun batch hbatch => ?_⟩
  · cases hahead : w.ahead with
    | nil =>
        rw [hahead] at he
        exact absurd he List.not_mem_nil
    | cons batch rest =>
        rw [hahead] at he
        exact hw batch (hahead ▸ List.mem_cons_self) e he
  · exact hw batch (List.mem_of_mem_tail hbatch)

/-- A loop that tries until it succeeds, with an invariant of its failures. -/
theorem triple_attempt {body : Shared σ ε Bool} {R : σ → Prop}
    (hbody : Triple allowed P body fun r s => if r then R s else P s) (n : Nat) :
    Triple allowed P (attempt body n) fun r s => if r then R s else P s := by
  induction n with
  | zero => exact (triple_pure false).pre fun _ hs => hs
  | succ n ih =>
      refine hbody.bind fun r => ?_
      cases r with
      | true => exact (triple_pure true).pre fun _ hs => hs
      | false => exact ih

end Shared

end Foundation
