import Dosfs.Foundation.ByteMemory

/-!
# Computations that read a buffer

A computation that keeps the positions it has read, next to its result. A
computation stays inside a buffer when every position it reads is one of the
buffer's, whatever it makes of the bytes.
-/

namespace Foundation

/-- A computation that may have no result, and the positions it reads. -/
structure Reading (α : Type) where
  result : Option α
  reads : List Nat

namespace Reading

variable {α β : Type}

protected def pure (a : α) : Reading α := ⟨some a, []⟩

protected def bind (x : Reading α) (f : α → Reading β) : Reading β :=
  match x.result with
  | none => ⟨none, x.reads⟩
  | some a => ⟨(f a).result, x.reads ++ (f a).reads⟩

instance : Monad Reading where
  pure := Reading.pure
  bind := Reading.bind

/-- A computation that has run out of fuel. -/
def stuck : Reading α := ⟨none, []⟩

/-- Read the byte at a position. -/
def byte (mem : Memory) (i : Nat) : Reading UInt8 := ⟨some (mem i), [i]⟩

variable {x : Reading α} {f : α → Reading β} {mem : Memory} {i n : Nat}

@[simp] theorem result_pure (a : α) : (pure a : Reading α).result = some a := rfl

theorem result_bind : (x >>= f).result = x.result.bind fun a => (f a).result := by
  change (Reading.bind x f).result = _
  unfold Reading.bind
  split
  next h => rw [h]; rfl
  next h => rw [h]; rfl

@[simp] theorem result_byte_bind {f : UInt8 → Reading β} :
    (byte mem i >>= f).result = (f (mem i)).result := rfl

/-- Without its readings a branch is the branch. -/
theorem result_ite {c : Prop} [Decidable c] {x y : Reading α} :
    (if c then x else y).result = if c then x.result else y.result := by
  split <;> rfl

/-! ## Staying inside -/

/-- Only the first `n` positions are read. -/
def Inside (n : Nat) (x : Reading α) : Prop := ∀ i ∈ x.reads, i < n

theorem inside_pure (a : α) : Inside n (pure a : Reading α) := nofun

theorem inside_stuck : Inside n (stuck : Reading α) := nofun

theorem inside_bind : Inside n (x >>= f) ↔
    Inside n x ∧ ∀ a, x.result = some a → Inside n (f a) := by
  change Inside n (Reading.bind x f) ↔ _
  unfold Reading.bind Inside
  split
  next h => simp [h]
  next a h =>
    rw [List.forall_mem_append]
    refine and_congr_right fun _ => ⟨fun hf b hb => ?_, fun hf => hf a h⟩
    obtain rfl : a = b := Option.some.inj (h.symm.trans hb)
    exact hf

theorem inside_byte_bind {f : UInt8 → Reading β} :
    Inside n (byte mem i >>= f) ↔ i < n ∧ Inside n (f (mem i)) := by
  rw [inside_bind]
  refine and_congr List.forall_mem_singleton ⟨fun h => h _ rfl, fun h a ha => ?_⟩
  obtain rfl : mem i = a := Option.some.inj ha
  exact h

/-! ## Searching -/

/-- The first element of a list that a reading test accepts. -/
def findFirst (test : α → Reading Bool) : List α → Reading (Option α)
  | [] => return none
  | a :: as => do
      let found ← test a
      if found then return some a else findFirst test as

section Search

variable {test : α → Reading Bool} {p : α → Bool}

theorem findFirst_result (h : ∀ a, (test a).result = some (p a)) (as : List α) :
    (findFirst test as).result = some (as.find? p) := by
  induction as with
  | nil => rfl
  | cons a as ih =>
      rw [findFirst, result_bind, h, List.find?_cons]
      cases p a <;> simp [ih]

/-- A search stays inside when its tests do, up to the first that accepts. -/
theorem inside_findFirst (h : ∀ a, (test a).result = some (p a)) (as : List α) :
    Inside n (findFirst test as) ↔
      ∀ before a after, as = before ++ a :: after → (∀ b ∈ before, p b = false) →
        Inside n (test a) := by
  induction as with
  | nil => exact iff_of_true (inside_pure _) fun _ _ _ heq => absurd heq (by simp)
  | cons a as ih =>
      have hrest : (∀ found, (test a).result = some found →
          Inside n (if found then return some a else findFirst test as)) ↔
            (p a = false → Inside n (findFirst test as)) := by
        rw [h]
        cases p a <;> simp [inside_pure]
      rw [findFirst, inside_bind, hrest, ih]
      constructor
      · rintro ⟨hhead, htail⟩ before b after heq hbefore
        cases before with
        | nil =>
            obtain ⟨rfl, -⟩ := List.cons.inj heq
            exact hhead
        | cons c before =>
            obtain ⟨rfl, htail'⟩ := List.cons.inj heq
            exact htail (hbefore a List.mem_cons_self) before b after htail' fun b hb =>
              hbefore b (List.mem_cons_of_mem _ hb)
      · intro hall
        refine ⟨hall [] a as rfl nofun, fun hskip before b after heq hbefore => ?_⟩
        exact hall (a :: before) b after (by rw [heq, List.cons_append])
          (List.forall_mem_cons.mpr ⟨hskip, hbefore⟩)

end Search

/-- The unsigned little-endian number in so many bytes. -/
def number (mem : Memory) (i : Nat) : Nat → Reading Nat
  | 0 => return 0
  | count + 1 => do
      let low ← byte mem i
      let high ← number mem (i + 1) count
      return low.toNat + 256 * high

theorem number_result (mem : Memory) (i count : Nat) :
    (number mem i count).result = some (mem.loadLe i count) := by
  induction count generalizing i with
  | zero => rfl
  | succ count ih =>
      rw [number, result_byte_bind, result_bind, ih]
      rfl

theorem inside_number (mem : Memory) (i count : Nat) :
    Inside n (number mem i count) ↔ ∀ k < count, i + k < n := by
  induction count generalizing i with
  | zero => exact iff_of_true (inside_pure _) fun _ hk => absurd hk (Nat.not_lt_zero _)
  | succ count ih =>
      rw [number, inside_byte_bind, inside_bind, ih]
      constructor
      · rintro ⟨hlow, hhigh, -⟩ k hk
        cases k with
        | zero => exact hlow
        | succ k =>
            have hnext := hhigh k (by omega)
            omega
      · intro hall
        refine ⟨hall 0 (Nat.succ_pos _), fun k hk => ?_, fun _ _ => inside_pure _⟩
        have hnext := hall (k + 1) (by omega)
        omega

/-- Whether a text stands at a position, compared byte by byte. -/
def isText (mem : Memory) (i : Nat) : List UInt8 → Reading Bool
  | [] => return true
  | c :: text => do
      let b ← byte mem i
      if b = c then isText mem (i + 1) text else return false

theorem isText_result (mem : Memory) (i : Nat) (text : List UInt8) :
    (isText mem i text).result = some (decide (mem.loadList i text.length = text)) := by
  induction text generalizing i with
  | nil => rfl
  | cons c text ih =>
      rw [isText, result_byte_bind, result_ite, ih, List.length_cons, Memory.loadList_succ]
      split
      next heq => simp [heq]
      next hne => simp [hne]

/-- The comparison stops behind the first byte that differs. -/
theorem inside_isText (mem : Memory) (i : Nat) (text : List UInt8) :
    Inside n (isText mem i text) ↔
      ∀ k < text.length, mem.loadList i k = text.take k → i + k < n := by
  induction text generalizing i with
  | nil => exact iff_of_true (inside_pure _) fun _ hk => absurd hk (Nat.not_lt_zero _)
  | cons c text ih =>
      rw [isText, inside_byte_bind]
      have hbranch : Inside n (if mem i = c then isText mem (i + 1) text else return false) ↔
          (mem i = c → Inside n (isText mem (i + 1) text)) := by
        split
        next heq => simp [heq]
        next hne => simp [hne, inside_pure]
      rw [hbranch, ih]
      constructor
      · rintro ⟨hlow, hrest⟩ k hk hsame
        cases k with
        | zero => exact hlow
        | succ k =>
            rw [Memory.loadList_succ, List.take_succ_cons] at hsame
            obtain ⟨hhead, htail⟩ := List.cons.inj hsame
            have hnext := hrest hhead k (Nat.lt_of_succ_lt_succ hk) htail
            omega
      · intro hall
        refine ⟨hall 0 (Nat.succ_pos _) rfl, fun hhead k hk htail => ?_⟩
        have hnext := hall (k + 1) (Nat.succ_lt_succ hk) (by
          rw [Memory.loadList_succ, List.take_succ_cons, hhead, htail])
        omega

end Reading

end Foundation
