import Mathlib.Order.Defs.Unbundled
import Mathlib.Logic.Relation

/-!
# Computations that may run out of fuel

A computation over a state in which every loop and every recursion has a bound
on its rounds. When a bound is used up the computation stops without a result,
in the state it has reached, so that what is proved of the state at the end of
every computation also holds between the rounds of the unbounded one.
-/

namespace Foundation

/-- A computation that may run out of fuel and keeps the state it has reached. -/
abbrev Fuelled (σ : Type) := OptionT (StateM σ)

namespace Fuelled

variable {σ α β : Type}

/-- The result, if there is one, and the state reached. -/
def outcome (x : Fuelled σ α) (s : σ) : Option α × σ := x.run.run s

/-- Repeat the body until it yields a result. -/
def loop (body : Fuelled σ (Option α)) : Nat → Fuelled σ α
  | 0 => failure
  | rounds + 1 => do
      match ← body with
      | some a => return a
      | none => loop body rounds

variable {x : Fuelled σ α} {f : α → Fuelled σ β} {s s' : σ} {a : α}

@[simp] theorem outcome_pure : outcome (pure a : Fuelled σ α) s = (some a, s) := rfl

@[simp] theorem outcome_modify (g : σ → σ) :
    outcome (modify g : Fuelled σ PUnit) s = (some ⟨⟩, g s) := rfl

@[simp] theorem outcome_get_bind {f : σ → Fuelled σ β} :
    outcome (get >>= f) s = outcome (f s) s := rfl

@[simp] theorem outcome_modify_bind {g : σ → σ} {f : PUnit → Fuelled σ β} :
    outcome (modify g >>= f) s = outcome (f ⟨⟩) (g s) := rfl

theorem outcome_bind :
    outcome (x >>= f) s =
      match outcome x s with
      | (some a, s') => outcome (f a) s'
      | (none, s') => (none, s') := by
  change (match outcome x s with
    | (r, s') => outcome (match r with | some a => f a | none => failure) s') = _
  rcases outcome x s with ⟨_ | a, s'⟩ <;> rfl

/-- A computation goes on after a result. -/
theorem outcome_bind_some (h : outcome x s = (some a, s')) :
    outcome (x >>= f) s = outcome (f a) s' := by
  rw [outcome_bind, h]

/-- Without a result it stops where it is. -/
theorem outcome_bind_none (h : outcome x s = (none, s')) : outcome (x >>= f) s = (none, s') := by
  rw [outcome_bind, h]

/-- A computation with a result has gone through a result of its first part. -/
theorem exists_outcome_of_bind {b : β} (h : outcome (x >>= f) s = (some b, s')) :
    ∃ a t, outcome x s = (some a, t) ∧ outcome (f a) t = (some b, s') := by
  rcases hx : outcome x s with ⟨_ | a, t⟩
  · rw [outcome_bind_none hx] at h
    cases (Prod.mk.inj h).1
  · rw [outcome_bind_some hx] at h
    exact ⟨a, t, rfl, h⟩

theorem outcome_loop_done {body : Fuelled σ (Option α)} {rounds : Nat}
    (h : outcome body s = (some (some a), s')) :
    outcome (loop body (rounds + 1)) s = (some a, s') := by
  rw [loop, outcome_bind_some h, outcome_pure]

theorem outcome_loop_again {body : Fuelled σ (Option α)} {rounds : Nat}
    (h : outcome body s = (some none, s')) :
    outcome (loop body (rounds + 1)) s = outcome (loop body rounds) s' := by
  rw [loop, outcome_bind_some h]

/-! ## What a computation does to the state -/

/-- The state reached is related to the state the computation starts from. -/
def Within (R : σ → σ → Prop) (s : σ) (x : Fuelled σ α) : Prop := R s (outcome x s).2

variable {R : σ → σ → Prop}

theorem within_modify {g : σ → σ} (h : R s (g s)) : Within R s (modify g : Fuelled σ PUnit) := h

theorem within_get_bind {f : σ → Fuelled σ β} (hf : Within R s (f s)) :
    Within R s (get >>= f) :=
  hf

theorem within_ite {c : Prop} [Decidable c] {x y : Fuelled σ α} (hx : c → Within R s x)
    (hy : ¬c → Within R s y) : Within R s (if c then x else y) := by
  split
  next h => exact hx h
  next h => exact hy h

variable [IsPreorder σ R]

theorem within_pure (a : α) : Within R s (pure a : Fuelled σ α) := refl s

theorem within_failure : Within R s (failure : Fuelled σ α) := refl s

theorem within_bind (hx : Within R s x)
    (hf : ∀ a s', outcome x s = (some a, s') → R s s' → Within R s' (f a)) :
    Within R s (x >>= f) := by
  unfold Within at *
  rcases h : outcome x s with ⟨_ | a, s'⟩
  · rw [outcome_bind_none h]
    rwa [h] at hx
  · rw [outcome_bind_some h]
    rw [h] at hx
    exact IsTrans.trans _ _ _ hx (hf a s' h hx)

omit [IsPreorder σ R] in
/-- From where a computation has returned, what follows is what is left to do. -/
theorem within_bind_of_outcome (hx : outcome x s = (some a, s')) (hf : Within R s' (f a)) :
    R s' (outcome (x >>= f) s).2 := by
  rw [outcome_bind_some hx]
  exact hf

/-- What follows a computation does no more than its parts. -/
theorem within_bind_after (hf : ∀ a t, Within R t (f a)) :
    R (outcome x s).2 (outcome (x >>= f) s).2 := by
  rcases h : outcome x s with ⟨_ | a, t⟩
  · rw [outcome_bind_none h]
    exact refl t
  · rw [outcome_bind_some h]
    exact hf a t

theorem within_modify_bind {g : σ → σ} {f : PUnit → Fuelled σ β} (hg : R s (g s))
    (hf : Within R (g s) (f ⟨⟩)) : Within R s (modify g >>= f) :=
  IsTrans.trans _ _ _ hg hf

/-- A loop does no more than its rounds do. -/
theorem within_loop {body : Fuelled σ (Option α)} (hbody : ∀ s, Within R s body) (rounds : Nat)
    (s : σ) : Within R s (loop body rounds) := by
  induction rounds generalizing s with
  | zero => exact within_failure
  | succ rounds ih =>
      apply within_bind (hbody s)
      intro result s' _ _
      cases result with
      | some a => exact within_pure a
      | none => exact ih s'

/-- A loop goes on from where its first round ends. -/
theorem within_loop_after {body : Fuelled σ (Option α)} (hbody : ∀ s, Within R s body)
    (rounds : Nat) : R (outcome body s).2 (outcome (loop body (rounds + 1)) s).2 := by
  apply within_bind_after
  intro result t
  cases result with
  | some a => exact within_pure a
  | none => exact within_loop hbody rounds t

/-! ## What a computation returns -/

section

variable {P : α → σ → Prop} {Q : β → σ → Prop}

/-- If the computation has a result, the result and the state reached are in `P`. -/
def Returns (P : α → σ → Prop) (s : σ) (x : Fuelled σ α) : Prop :=
  ∀ a s', outcome x s = (some a, s') → P a s'

omit [IsPreorder σ R] in
theorem Within.returns (h : Within R s x) : Returns (fun _ => R s) s x := by
  intro a s' hx
  rwa [Within, hx] at h

theorem returns_pure (h : P a s) : Returns P s (pure a : Fuelled σ α) := by
  intro b s' hx
  obtain ⟨rfl, rfl⟩ : a = b ∧ s = s' := by simpa using hx
  exact h

theorem returns_failure : Returns P s (failure : Fuelled σ α) := fun _ _ hx => nomatch hx

theorem returns_ite {c : Prop} [Decidable c] {x y : Fuelled σ α} (hx : c → Returns P s x)
    (hy : ¬c → Returns P s y) : Returns P s (if c then x else y) := by
  split
  next h => exact hx h
  next h => exact hy h

theorem returns_get_bind {f : σ → Fuelled σ β} (hf : Returns Q s (f s)) :
    Returns Q s (get >>= f) :=
  hf

theorem returns_modify_bind {g : σ → σ} {f : PUnit → Fuelled σ β} (hf : Returns Q (g s) (f ⟨⟩)) :
    Returns Q s (modify g >>= f) :=
  hf

/-- What follows starts from a result. -/
theorem returns_bind (hx : Returns P s x) (hf : ∀ a s', P a s' → Returns Q s' (f a)) :
    Returns Q s (x >>= f) := by
  intro b t hb
  obtain ⟨a, s', ha, hb⟩ := exists_outcome_of_bind hb
  exact hf a s' (hx a s' ha) b t hb

theorem Returns.mono {P' : α → σ → Prop} (h : Returns P s x) (hP : ∀ a s', P a s' → P' a s') :
    Returns P' s x :=
  fun a s' hx => hP a s' (h a s' hx)

/-- A loop returns what its last round yields; the rounds before keep an invariant. -/
theorem returns_loop {body : Fuelled σ (Option α)} {I : σ → Prop}
    (hbody : ∀ s, I s → Returns (fun r s' => r.elim (I s') (P · s')) s body) (rounds : Nat) (s : σ)
    (h : I s) : Returns P s (loop body rounds) := by
  induction rounds generalizing s with
  | zero => exact returns_failure
  | succ rounds ih =>
      refine returns_bind (hbody s h) fun result s' hresult => ?_
      cases result with
      | some a => exact returns_pure hresult
      | none => exact ih s' hresult

end

/-! ## Whether a computation depends on another -/

section

variable {ι : Type}

/-- The computations of a family all return the same from here. -/
def Agree (R : σ → σ → Prop) (s : σ) (x : ι → Fuelled σ α) : Prop :=
  ∃ a s', R s s' ∧ ∀ i, outcome (x i) s = (some a, s')

/-- After changes within `R` the computation comes to run `y`. It stops where `y`
stops; otherwise it goes on with changes within `Q`. -/
def Calls (R Q : σ → σ → Prop) (y : Fuelled σ β) (s : σ) (x : Fuelled σ α) : Prop :=
  ∃ s', R s s' ∧ ((outcome y s').1 = none → (outcome x s).1 = none) ∧
    Q (outcome y s').2 (outcome x s).2

theorem agree_pure (a : α) : Agree R s fun _ : ι => (pure a : Fuelled σ α) :=
  ⟨a, s, refl s, fun _ => rfl⟩

omit [IsPreorder σ R] in
theorem agree_of_outcome {x : Fuelled σ α} (hx : outcome x s = (some a, s')) (hR : R s s') :
    Agree R s fun _ : ι => x :=
  ⟨a, s', hR, fun _ => hx⟩

omit [IsPreorder σ R] in
theorem agree_get_bind {f : ι → σ → Fuelled σ β} (hf : Agree R s fun i => f i s) :
    Agree R s fun i => get >>= f i :=
  hf

theorem agree_bind {x : ι → Fuelled σ α} {f : ι → α → Fuelled σ β} (hx : Agree R s x)
    (hf : ∀ a s', R s s' → Agree R s' fun i => f i a) : Agree R s fun i => x i >>= f i := by
  obtain ⟨a, s', hR, hx⟩ := hx
  obtain ⟨b, s'', hR', hf⟩ := hf a s' hR
  refine ⟨b, s'', IsTrans.trans _ _ _ hR hR', fun i => ?_⟩
  rw [outcome_bind_some (hx i), hf i]

/-- What comes first returns the same from here. -/
theorem agree_bind_of_outcome {x : ι → Fuelled σ α} {f : ι → α → Fuelled σ β}
    (hx : ∀ i, outcome (x i) s = (some a, s')) (hR : R s s') (hf : Agree R s' fun i => f i a) :
    Agree R s fun i => x i >>= f i := by
  obtain ⟨b, s'', hR', hf⟩ := hf
  exact ⟨b, s'', IsTrans.trans _ _ _ hR hR', fun i => (outcome_bind_some (hx i)).trans (hf i)⟩

theorem agree_modify_bind {g : σ → σ} {f : ι → PUnit → Fuelled σ β} (hg : R s (g s))
    (hf : Agree R (g s) fun i => f i ⟨⟩) : Agree R s fun i => modify g >>= f i :=
  agree_bind_of_outcome (fun _ => outcome_modify g) hg hf

variable {Q : σ → σ → Prop} [IsPreorder σ Q] {γ : Type} {y : Fuelled σ γ}

theorem calls_self : Calls R Q y s y := ⟨s, refl s, id, refl _⟩

omit [IsPreorder σ R] [IsPreorder σ Q] in
theorem calls_get_bind {f : σ → Fuelled σ β} (hf : Calls R Q y s (f s)) :
    Calls R Q y s (get >>= f) :=
  hf

omit [IsPreorder σ Q] in
/-- What comes before the call has returned. -/
theorem calls_bind_of_outcome (hx : outcome x s = (some a, s')) (hR : R s s')
    (hf : Calls R Q y s' (f a)) : Calls R Q y s (x >>= f) := by
  obtain ⟨s'', hR', hstop, hQ⟩ := hf
  refine ⟨s'', IsTrans.trans _ _ _ hR hR', ?_⟩
  rw [outcome_bind_some hx]
  exact ⟨hstop, hQ⟩

omit [IsPreorder σ Q] in
theorem calls_modify_bind {g : σ → σ} {f : PUnit → Fuelled σ β} (hg : R s (g s))
    (hf : Calls R Q y (g s) (f ⟨⟩)) : Calls R Q y s (modify g >>= f) :=
  calls_bind_of_outcome (outcome_modify g) hg hf

omit [IsPreorder σ R] in
theorem calls_bind (hx : Calls R Q y s x) (hf : ∀ a t, Within Q t (f a)) :
    Calls R Q y s (x >>= f) := by
  obtain ⟨s', hR, hstop, hQ⟩ := hx
  refine ⟨s', hR, fun hnone => ?_, IsTrans.trans _ _ _ hQ (within_bind_after hf)⟩
  have hx : outcome x s = (none, (outcome x s).2) := Prod.ext (hstop hnone) rfl
  rw [outcome_bind_none hx]

end

end Fuelled

end Foundation
