import Mathlib.Data.List.Basic

/-!
# Runs of operations

A machine whose operations answer with a result and a new state, or do not
return at all. A run performs a list of operations and collects the results.
The rules say what a run preserves, from what one operation preserves; the
invariant may mention the operations still to come.
-/

namespace Foundation

variable {ω ρ σ : Type*} {step : ω → σ → Option (ρ × σ)}

/-- Perform the operations in order. -/
def runAll (step : ω → σ → Option (ρ × σ)) : List ω → σ → Option (List ρ × σ)
  | [], s => some ([], s)
  | op :: ops, s =>
      (step op s).bind fun (r, s) => (runAll step ops s).map fun (rs, s) => (r :: rs, s)

/-- Some run leads from one state to the other. -/
def RunsTo (step : ω → σ → Option (ρ × σ)) (s s' : σ) : Prop :=
  ∃ ops rs, runAll step ops s = some (rs, s')

theorem RunsTo.refl (s : σ) : RunsTo step s s := ⟨[], [], rfl⟩

theorem RunsTo.single {op : ω} {s s' : σ} {r : ρ} (h : step op s = some (r, s')) :
    RunsTo step s s' :=
  ⟨[op], [r], by rw [runAll, h]; rfl⟩

theorem RunsTo.trans {s s' s'' : σ} (h : RunsTo step s s') (h' : RunsTo step s' s'') :
    RunsTo step s s'' := by
  obtain ⟨ops, rs, hops⟩ := h
  induction ops generalizing s rs with
  | nil =>
      obtain ⟨-, rfl⟩ : [] = rs ∧ s = s' := by simpa [runAll] using hops
      exact h'
  | cons op ops ih =>
      simp only [runAll, Option.bind_eq_some_iff, Option.map_eq_some_iff] at hops
      obtain ⟨⟨r, s₁⟩, hop, ⟨rs', s₂⟩, hrest, heq⟩ := hops
      obtain ⟨rfl, rfl⟩ : r :: rs' = rs ∧ s₂ = s' := by simpa using heq
      obtain ⟨ops', rs'', hops'⟩ := ih rs' hrest
      exact ⟨op :: ops', r :: rs'', by simp [runAll, hop, hops']⟩

/-- If every operation returns and keeps the invariant, so does every run. -/
theorem runAll_returns (inv : List ω → σ → Prop)
    (hstep : ∀ op ops s, inv (op :: ops) s → ∃ r s', step op s = some (r, s') ∧ inv ops s')
    (ops : List ω) (s : σ) (hinv : inv ops s) :
    ∃ rs s', runAll step ops s = some (rs, s') ∧ inv [] s' := by
  induction ops generalizing s with
  | nil => exact ⟨[], s, rfl, hinv⟩
  | cons op ops ih =>
      obtain ⟨r, s₁, hop, hinv₁⟩ := hstep op ops s hinv
      obtain ⟨rs, s₂, hops, hinv₂⟩ := ih s₁ hinv₁
      exact ⟨r :: rs, s₂, by simp [runAll, hop, hops], hinv₂⟩

/-- If every operation with an acceptable result keeps the invariant, so does
every run that returns acceptable results only. -/
theorem runAll_preserves (inv : List ω → σ → Prop) {good : ρ → Prop}
    (hstep : ∀ op ops s r s', inv (op :: ops) s → step op s = some (r, s') → good r → inv ops s')
    {ops : List ω} {s s' : σ} {rs : List ρ} (hrun : runAll step ops s = some (rs, s'))
    (hgood : ∀ r ∈ rs, good r) (hinv : inv ops s) : inv [] s' := by
  induction ops generalizing s rs with
  | nil =>
      obtain ⟨rfl, rfl⟩ : [] = rs ∧ s = s' := by simpa [runAll] using hrun
      exact hinv
  | cons op ops ih =>
      simp only [runAll, Option.bind_eq_some_iff, Option.map_eq_some_iff] at hrun
      obtain ⟨⟨r, s₁⟩, hop, ⟨rs', s₂⟩, hops, heq⟩ := hrun
      obtain ⟨rfl, rfl⟩ : r :: rs' = rs ∧ s₂ = s' := by simpa using heq
      refine ih hops (fun r hr => hgood r (List.mem_cons_of_mem _ hr)) ?_
      exact hstep op ops s r s₁ hinv hop (hgood r List.mem_cons_self)

/-- Two machines that give the same answers in related states give the same
answers along every run. -/
theorem runAll_simulates {τ : Type*} {step' : ω → τ → Option (ρ × τ)} (rel : σ → τ → Prop)
    (ops : List ω) (hstep : ∀ op ∈ ops, ∀ s t, rel s t →
      ∃ r s' t', step op s = some (r, s') ∧ step' op t = some (r, t') ∧ rel s' t')
    {s : σ} {t : τ} (hrel : rel s t) :
    ∃ rs s' t', runAll step ops s = some (rs, s') ∧ runAll step' ops t = some (rs, t') ∧
      rel s' t' := by
  induction ops generalizing s t with
  | nil => exact ⟨[], s, t, rfl, rfl, hrel⟩
  | cons op ops ih =>
      obtain ⟨r, s₁, t₁, hs, ht, hrel₁⟩ := hstep op List.mem_cons_self s t hrel
      obtain ⟨rs, s₂, t₂, hs₂, ht₂, hrel₂⟩ :=
        ih (fun op hop => hstep op (List.mem_cons_of_mem _ hop)) hrel₁
      exact ⟨r :: rs, s₂, t₂, by simp [runAll, hs, hs₂], by simp [runAll, ht, ht₂], hrel₂⟩

/-- The condition holds of every operation of a run in the state it starts from. -/
def Throughout (step : ω → σ → Option (ρ × σ)) (cond : ω → σ → Prop) : List ω → σ → Prop
  | [], _ => True
  | op :: ops, s => cond op s ∧ ∀ r s', step op s = some (r, s') → Throughout step cond ops s'

/-- Along a given run the condition can be computed. -/
instance Throughout.decidable {cond : ω → σ → Prop} [∀ op s, Decidable (cond op s)] :
    (ops : List ω) → (s : σ) → Decidable (Throughout step cond ops s)
  | [], _ => isTrue trivial
  | op :: ops, s =>
      match h : step op s with
      | none => decidable_of_iff (cond op s)
          ⟨fun hop => ⟨hop, fun _ _ heq => nomatch h.symm.trans heq⟩, And.left⟩
      | some (r, s') =>
          have : Decidable (Throughout step cond ops s') := Throughout.decidable ops s'
          decidable_of_iff (cond op s ∧ Throughout step cond ops s')
            ⟨fun hall => ⟨hall.1, fun r₁ s₁ heq => by
                obtain ⟨-, rfl⟩ := Prod.mk.inj (Option.some.inj (h.symm.trans heq))
                exact hall.2⟩,
              fun hall => ⟨hall.1, hall.2 r s' h⟩⟩

theorem Throughout.mono {cond cond' : ω → σ → Prop} (h : ∀ op s, cond op s → cond' op s)
    {ops : List ω} {s : σ} (hcond : Throughout step cond ops s) :
    Throughout step cond' ops s := by
  induction ops generalizing s with
  | nil => trivial
  | cons op ops ih => exact ⟨h op s hcond.1, fun r s' hop => ih (hcond.2 r s' hop)⟩

/-- Conditions that agree in every state of the invariant, which the steps that
meet them keep, hold throughout the same runs. -/
theorem Throughout.congr_of_inv (inv : σ → Prop) {cond cond' : ω → σ → Prop}
    (hiff : ∀ op s, inv s → (cond op s ↔ cond' op s))
    (hstep : ∀ op s r s', inv s → cond op s → step op s = some (r, s') → inv s')
    {ops : List ω} {s : σ} (hinv : inv s) :
    Throughout step cond ops s ↔ Throughout step cond' ops s := by
  induction ops generalizing s with
  | nil => exact Iff.rfl
  | cons op ops ih =>
      rw [Throughout, Throughout, ← hiff op s hinv]
      refine and_congr_right fun hop => forall_congr' fun r => forall_congr' fun s' => ?_
      exact forall_congr' fun heq => ih (hstep op s r s' hinv hop heq)

/-- If every operation whose condition holds returns and keeps the invariant, so
does every run that meets the condition throughout. -/
theorem runAll_returns_throughout (inv : σ → Prop) {cond : ω → σ → Prop}
    (hstep : ∀ op s, inv s → cond op s → ∃ r s', step op s = some (r, s') ∧ inv s')
    {ops : List ω} {s : σ} (hcond : Throughout step cond ops s) (hinv : inv s) :
    ∃ rs s', runAll step ops s = some (rs, s') ∧ inv s' := by
  obtain ⟨rs, s', hrun, hinv', -⟩ :=
    @runAll_returns _ _ _ step (fun ops s => inv s ∧ Throughout step cond ops s)
      (fun op ops s ⟨hinv, hop, hrest⟩ => by
        obtain ⟨r, s', heq, hinv'⟩ := hstep op s hinv hop
        exact ⟨r, s', heq, hinv', hrest r s' heq⟩) ops s ⟨hinv, hcond⟩
  exact ⟨rs, s', hrun, hinv'⟩

/-- A property of what a run has done so far: if a step keeps it exactly when the
condition holds, it holds at the end exactly when every step met the condition. -/
theorem runAll_iff_throughout (inv good : σ → Prop) {cond : ω → σ → Prop}
    (hstep : ∀ op s r s', inv s → step op s = some (r, s') →
      inv s' ∧ (good s' ↔ good s ∧ cond op s))
    {ops : List ω} {s s' : σ} {rs : List ρ} (hrun : runAll step ops s = some (rs, s'))
    (hinv : inv s) : good s' ↔ good s ∧ Throughout step cond ops s := by
  induction ops generalizing s rs with
  | nil =>
      obtain ⟨rfl, rfl⟩ : [] = rs ∧ s = s' := by simpa [runAll] using hrun
      exact (and_iff_left trivial).symm
  | cons op ops ih =>
      simp only [runAll, Option.bind_eq_some_iff, Option.map_eq_some_iff] at hrun
      obtain ⟨⟨r, s₁⟩, hop, ⟨rs', s₂⟩, hops, heq⟩ := hrun
      obtain ⟨rfl, rfl⟩ : r :: rs' = rs ∧ s₂ = s' := by simpa using heq
      obtain ⟨hinv₁, hgood⟩ := hstep op s r s₁ hinv hop
      rw [ih hops hinv₁, hgood, and_assoc]
      refine and_congr_right fun _ => and_congr_right fun _ => ⟨?_, fun hall => hall r s₁ hop⟩
      intro hrest r' s' hop'
      obtain ⟨-, rfl⟩ := Prod.mk.inj (Option.some.inj (hop.symm.trans hop'))
      exact hrest

/-! ## Operations that always return -/

/-- The condition holds of every operation in the state it starts from. -/
def Always (next : σ → ω → σ) (cond : σ → ω → Prop) : List ω → σ → Prop
  | [], _ => True
  | op :: ops, s => cond s op ∧ Always next cond ops (next s op)

/-- A property of what has been done so far: if an operation keeps it exactly when the
condition holds, it holds at the end exactly when every operation met the condition. -/
theorem foldl_iff_always {next : σ → ω → σ} (inv good : σ → Prop) {cond : σ → ω → Prop}
    (hstep : ∀ s op, inv s → inv (next s op) ∧ (good (next s op) ↔ good s ∧ cond s op))
    (ops : List ω) {s : σ} (hinv : inv s) :
    good (ops.foldl next s) ↔ good s ∧ Always next cond ops s := by
  induction ops generalizing s with
  | nil => exact (and_iff_left trivial).symm
  | cons op ops ih =>
      obtain ⟨hnext, hgood⟩ := hstep s op hinv
      rw [List.foldl_cons, ih hnext, hgood, and_assoc, Always]

/-- Some operation has set it, and none has cleared it since. -/
def Since (next : σ → ω → σ) (sets clears : σ → ω → Prop) : List ω → σ → Prop
  | [], _ => False
  | op :: ops, s =>
      (sets s op ∧ Always next (fun s op => ¬ clears s op) ops (next s op)) ∨
        Since next sets clears ops (next s op)

/-- A flag that one operation sets or clears is up at the end if it has been set and not
cleared since, or was up and has never been cleared. -/
theorem foldl_flag_iff {next : σ → ω → σ} (flag : σ → Prop) {sets clears : σ → ω → Prop}
    (hstep : ∀ s op, flag (next s op) ↔ sets s op ∨ flag s ∧ ¬ clears s op)
    (ops : List ω) (s : σ) :
    flag (ops.foldl next s) ↔ Since next sets clears ops s ∨
      flag s ∧ Always next (fun s op => ¬ clears s op) ops s := by
  induction ops generalizing s with
  | nil => simp [Since, Always]
  | cons op ops ih =>
      rw [List.foldl_cons, ih, hstep, Since, Always, or_and_right, and_assoc, ← or_assoc,
        or_comm (a := Since next sets clears ops (next s op))]

/-- A run of such operations is a fold. -/
theorem runAll_foldl (next : ω → σ → ρ × σ) (ops : List ω) (s : σ) :
    ∃ rs, runAll (fun op s => some (next op s)) ops s =
      some (rs, ops.foldl (fun s op => (next op s).2) s) := by
  induction ops generalizing s with
  | nil => exact ⟨[], rfl⟩
  | cons op ops ih =>
      obtain ⟨rs, hops⟩ := ih (next op s).2
      exact ⟨(next op s).1 :: rs, by simp [runAll, hops]⟩

end Foundation
