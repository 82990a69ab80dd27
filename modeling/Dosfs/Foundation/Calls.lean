import Dosfs.Foundation.Run

/-!
# Programs over operations

A program that calls the operations of a machine and goes on with their results. It knows the
machine by its results only, so in two machines that give the same ones it does the same.
-/

namespace Foundation

/-- A program that is over, or calls an operation and goes on with the result. -/
inductive Calls (ω ρ α : Type) : Type
  | done (a : α)
  | call (op : ω) (next : ρ → Calls ω ρ α)

namespace Calls

variable {ω ρ α β σ τ : Type}

protected def bind : Calls ω ρ α → (α → Calls ω ρ β) → Calls ω ρ β
  | done a, f => f a
  | call op next, f => call op fun r => (next r).bind f

instance : Monad (Calls ω ρ) where
  pure := done
  bind := Calls.bind

/-- One operation, with its result. -/
def ask (op : ω) : Calls ω ρ ρ := call op done

/-- Run the program on a machine. -/
def run (step : ω → σ → Option (ρ × σ)) : Calls ω ρ α → σ → Option (α × σ)
  | done a, s => some (a, s)
  | call op next, s => (step op s).bind fun (r, s) => (next r).run step s

@[simp] theorem run_pure (step : ω → σ → Option (ρ × σ)) (a : α) (s : σ) :
    (pure a : Calls ω ρ α).run step s = some (a, s) := rfl

@[simp] theorem run_ask_bind (step : ω → σ → Option (ρ × σ)) (op : ω) (f : ρ → Calls ω ρ α)
    (s : σ) : (ask op >>= f).run step s = (step op s).bind fun (r, s) => (f r).run step s := rfl

/-- The program calls such operations only, whatever they answer. -/
inductive Uses (good : ω → Prop) : Calls ω ρ α → Prop
  | done (a : α) : Uses good (done a)
  | call {op : ω} {next : ρ → Calls ω ρ α} (hop : good op) (hnext : ∀ r, Uses good (next r)) :
      Uses good (call op next)

theorem Uses.ask_bind {good : ω → Prop} {op : ω} {f : ρ → Calls ω ρ α} (hop : good op)
    (hf : ∀ r, Uses good (f r)) : Uses good (ask op >>= f) :=
  .call hop hf

/-- Where the operations give the same results in related states, so does the program. -/
theorem Uses.run_simulates {good : ω → Prop} {step : ω → σ → Option (ρ × σ)}
    {step' : ω → τ → Option (ρ × τ)} {rel : σ → τ → Prop} {p : Calls ω ρ α} (h : Uses good p)
    (hstep : ∀ op, good op → ∀ s t, rel s t →
      ∃ r s' t', step op s = some (r, s') ∧ step' op t = some (r, t') ∧ rel s' t')
    {s : σ} {t : τ} (hrel : rel s t) :
    ∃ a s' t', p.run step s = some (a, s') ∧ p.run step' t = some (a, t') ∧ rel s' t' := by
  induction h generalizing s t with
  | done a => exact ⟨a, s, t, rfl, rfl, hrel⟩
  | call hop _ ih =>
      obtain ⟨r, s₁, t₁, hs, ht, hrel₁⟩ := hstep _ hop s t hrel
      obtain ⟨a, s₂, t₂, hs₂, ht₂, hrel₂⟩ := ih r hrel₁
      exact ⟨a, s₂, t₂, by simp [run, hs, hs₂], by simp [run, ht, ht₂], hrel₂⟩

end Calls

end Foundation
