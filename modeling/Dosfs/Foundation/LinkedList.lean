import Mathlib.Data.List.Basic

/-!
# Doubly linked lists in a memory

A memory seen as a map from addresses to nodes. A segment relates it to the list
of the addresses and data that the links pass through, so that an operation on
the links is a replacement in that list. The second part places the nodes of a
list in an address range, one behind the other.
-/

namespace Foundation

/-- What the memory holds at the address of a node. -/
@[ext] structure Node (α δ : Type*) where
  data : δ
  next : α
  prev : α

namespace LinkedList

variable {α δ : Type*}

/-- The address of the first node, or else `next`. -/
def firstAddr : List (α × δ) → α → α
  | [], next => next
  | x :: _, _ => x.1

/-- The address of the last node, or else `prev`. -/
def lastAddr : List (α × δ) → α → α
  | [], prev => prev
  | x :: xs, _ => lastAddr xs x.1

/-- The nodes are linked in both directions. Before the first comes `prev`,
after the last comes `next`. -/
def Segment (read : α → Node α δ) : α → List (α × δ) → α → Prop
  | _, [], _ => True
  | prev, x :: xs, next => read x.1 = ⟨x.2, firstAddr xs next, prev⟩ ∧ Segment read x.1 xs next

variable {read read' : α → Node α δ} {prev next : α} {xs ys : List (α × δ)}

theorem firstAddr_append : firstAddr (xs ++ ys) next = firstAddr xs (firstAddr ys next) := by
  cases xs <;> rfl

theorem lastAddr_append : lastAddr (xs ++ ys) prev = lastAddr ys (lastAddr xs prev) := by
  induction xs generalizing prev with
  | nil => rfl
  | cons x xs ih => exact ih

theorem segment_append :
    Segment read prev (xs ++ ys) next ↔
      Segment read prev xs (firstAddr ys next) ∧ Segment read (lastAddr xs prev) ys next := by
  induction xs generalizing prev with
  | nil => simp [Segment, lastAddr]
  | cons x xs ih =>
      rw [List.cons_append, Segment, Segment, firstAddr_append, ih, lastAddr, and_assoc]

theorem Segment.congr (hseg : Segment read prev xs next)
    (hread : ∀ x ∈ xs, read' x.1 = read x.1) : Segment read' prev xs next := by
  induction xs generalizing prev with
  | nil => trivial
  | cons x xs ih =>
      refine ⟨(hread x List.mem_cons_self).trans hseg.1, ?_⟩
      exact ih hseg.2 fun y hy => hread y (List.mem_cons_of_mem _ hy)

/-- A change of the first backward link. -/
theorem Segment.relink {prev' : α} (hseg : Segment read prev xs next)
    (hfirst : ∀ x ∈ xs.head?, read' x.1 = { read x.1 with prev := prev' })
    (hrest : ∀ x ∈ xs.tail, read' x.1 = read x.1) : Segment read' prev' xs next := by
  cases xs with
  | nil => trivial
  | cons x xs =>
      refine ⟨?_, hseg.2.congr hrest⟩
      rw [hfirst x rfl, hseg.1]

/-- The node at a place of the list. -/
theorem Segment.read_eq {x : α × δ} (hseg : Segment read prev (xs ++ x :: ys) next) :
    read x.1 = ⟨x.2, firstAddr ys next, lastAddr xs prev⟩ :=
  (segment_append.1 hseg).2.1

/-- Replacing a part of the list, when the nodes before it stay as they are. -/
theorem Segment.replace {mid mid' : List (α × δ)} (hseg : Segment read prev (xs ++ mid ++ ys) next)
    (hbefore : ∀ x ∈ xs, read' x.1 = read x.1)
    (hfirst : firstAddr mid' (firstAddr ys next) = firstAddr mid (firstAddr ys next))
    (hmid : Segment read' (lastAddr xs prev) mid' (firstAddr ys next))
    (hafter : Segment read' (lastAddr mid' (lastAddr xs prev)) ys next) :
    Segment read' prev (xs ++ mid' ++ ys) next := by
  rw [List.append_assoc, segment_append, firstAddr_append] at hseg ⊢
  rw [segment_append]
  refine ⟨?_, hmid, hafter⟩
  rw [hfirst]
  exact hseg.1.congr hbefore

/-- The forward link of a node leads out, or to a node that links back. -/
theorem Segment.prev_of_next (hseg : Segment read prev xs next) {x : α × δ} (hx : x ∈ xs) :
    (read x.1).next = next ∨ ∃ y ∈ xs, y.1 = (read x.1).next ∧ (read y.1).prev = x.1 := by
  obtain ⟨before, after, rfl⟩ := List.append_of_mem hx
  rw [hseg.read_eq]
  cases after with
  | nil => exact Or.inl rfl
  | cons y after =>
      refine Or.inr ⟨y, by simp, rfl, ?_⟩
      rw [← List.singleton_append, ← List.append_assoc] at hseg
      rw [hseg.read_eq, lastAddr_append]
      rfl

/-- The backward link of a node leads out, or to a node that links forward. -/
theorem Segment.next_of_prev (hseg : Segment read prev xs next) {x : α × δ} (hx : x ∈ xs) :
    (read x.1).prev = prev ∨ ∃ y ∈ xs, y.1 = (read x.1).prev ∧ (read y.1).next = x.1 := by
  obtain ⟨before, after, rfl⟩ := List.append_of_mem hx
  rw [hseg.read_eq]
  rcases List.eq_nil_or_concat before with rfl | ⟨before, y, rfl⟩
  · exact Or.inl rfl
  · refine Or.inr ⟨y, by simp, ?_, ?_⟩
    · rw [List.concat_eq_append, lastAddr_append]
      rfl
    · rw [List.concat_eq_append, List.append_assoc, List.singleton_append] at hseg
      rw [hseg.read_eq]
      rfl

/-! ## Walking along the list -/

section walk

variable [DecidableEq α]

/-- Follow the forward links to the first node where `stop` holds, or to the
end. `none` when the fuel runs out. -/
def walk (read : α → Node α δ) (null : α) (stop : Node α δ → Bool) : Nat → α → Option α
  | 0, _ => none
  | fuel + 1, a =>
      if a = null then some null
      else if stop (read a) then some a
      else walk read null stop fuel (read a).next

theorem walk_segment {null : α} {stop : Node α δ → Bool} (hseg : Segment read prev xs null)
    (hnull : ∀ x ∈ xs, x.1 ≠ null) {fuel : Nat} (hfuel : xs.length < fuel) :
    walk read null stop fuel (firstAddr xs null) =
      some (firstAddr (xs.find? fun x => stop (read x.1)).toList null) := by
  induction xs generalizing prev fuel with
  | nil =>
      obtain ⟨fuel, rfl⟩ := Nat.exists_eq_succ_of_ne_zero (Nat.ne_of_gt hfuel)
      exact if_pos rfl
  | cons x xs ih =>
      obtain ⟨fuel, rfl⟩ := Nat.exists_eq_succ_of_ne_zero (Nat.ne_of_gt (Nat.zero_lt_of_lt hfuel))
      rw [firstAddr, walk, if_neg (hnull x List.mem_cons_self), List.find?_cons]
      cases hstop : stop (read x.1) with
      | true => rfl
      | false =>
          rw [if_neg Bool.false_ne_true, hseg.1]
          exact ih hseg.2 (fun y hy => hnull y (List.mem_cons_of_mem _ hy))
            (Nat.lt_of_succ_lt_succ hfuel)

/-- The walk to the node without a successor ends at the last one. -/
theorem walk_last {null : α} (hseg : Segment read prev xs null) (hnull : ∀ x ∈ xs, x.1 ≠ null)
    {fuel : Nat} (hfuel : xs.length < fuel) :
    walk read null (fun node => node.next = null) fuel (firstAddr xs null) =
      some (lastAddr xs null) := by
  rw [walk_segment hseg hnull hfuel]
  congr 1
  rcases List.eq_nil_or_concat xs with rfl | ⟨init, x, rfl⟩
  · rfl
  · rw [List.concat_eq_append] at hseg hnull ⊢
    have hinit : (init.find? fun y => decide ((read y.1).next = null)) = none := by
      rw [List.find?_eq_none]
      intro y hy
      obtain ⟨before, after, rfl⟩ := List.append_of_mem hy
      rw [List.append_assoc, List.cons_append] at hseg
      rw [decide_eq_true_eq, hseg.read_eq]
      cases after with
      | nil => exact hnull x (by simp)
      | cons z after => exact hnull z (by simp)
    have hlast : (read x.1).next = null := by rw [hseg.read_eq]; rfl
    rw [List.find?_append, hinit, lastAddr_append]
    simp [hlast, firstAddr, lastAddr]

end walk

/-! ## Placing nodes in an address range -/

/-- The nodes lie one behind the other between `lo` and `hi`. -/
def Placed (extent : δ → Nat) : Nat → List (Nat × δ) → Nat → Prop
  | lo, [], hi => lo ≤ hi
  | lo, x :: xs, hi => lo ≤ x.1 ∧ Placed extent (x.1 + extent x.2) xs hi

section Placed

variable {extent : δ → Nat} {lo hi : Nat} {xs ys : List (Nat × δ)}

theorem Placed.le (hplaced : Placed extent lo xs hi) : lo ≤ hi := by
  induction xs generalizing lo with
  | nil => exact hplaced
  | cons x xs ih => exact Nat.le_trans hplaced.1 (Nat.le_of_add_right_le (ih hplaced.2))

theorem Placed.mono {lo' hi' : Nat} (hplaced : Placed extent lo xs hi) (hlo : lo' ≤ lo)
    (hhi : hi ≤ hi') : Placed extent lo' xs hi' := by
  induction xs generalizing lo lo' with
  | nil => exact Nat.le_trans hlo (Nat.le_trans hplaced hhi)
  | cons x xs ih => exact ⟨Nat.le_trans hlo hplaced.1, ih hplaced.2 (Nat.le_refl _)⟩

theorem placed_append :
    Placed extent lo (xs ++ ys) hi ↔ ∃ mid, Placed extent lo xs mid ∧ Placed extent mid ys hi := by
  induction xs generalizing lo with
  | nil =>
      constructor
      · exact fun hplaced => ⟨lo, Nat.le_refl _, hplaced⟩
      · exact fun ⟨mid, hle, hplaced⟩ => hplaced.mono hle (Nat.le_refl _)
  | cons x xs ih =>
      rw [List.cons_append, Placed, ih]
      constructor
      · exact fun ⟨hlo, mid, hxs, hys⟩ => ⟨mid, ⟨hlo, hxs⟩, hys⟩
      · exact fun ⟨mid, ⟨hlo, hxs⟩, hys⟩ => ⟨hlo, mid, hxs, hys⟩

theorem Placed.bounds (hplaced : Placed extent lo xs hi) {x : Nat × δ} (hx : x ∈ xs) :
    lo ≤ x.1 ∧ x.1 + extent x.2 ≤ hi := by
  obtain ⟨before, after, rfl⟩ := List.append_of_mem hx
  obtain ⟨mid, hbefore, hmid, hafter⟩ := placed_append.1 hplaced
  exact ⟨Nat.le_trans hbefore.le hmid, hafter.le⟩

/-- Of two nodes, the first ends before the second starts. -/
theorem Placed.pairwise (hplaced : Placed extent lo xs hi) :
    xs.Pairwise fun x y => x.1 + extent x.2 ≤ y.1 := by
  induction xs generalizing lo with
  | nil => exact List.Pairwise.nil
  | cons x xs ih =>
      exact List.Pairwise.cons (fun y hy => (hplaced.2.bounds hy).1) (ih hplaced.2)

theorem Placed.length_mul_le (hplaced : Placed extent lo xs hi) (width : Nat)
    (hwidth : ∀ d, width ≤ extent d) : lo + xs.length * width ≤ hi := by
  induction xs generalizing lo with
  | nil => simpa using hplaced.le
  | cons x xs ih =>
      have hrest := ih hplaced.2
      have hfirst := hplaced.1
      have hx := hwidth x.2
      rw [List.length_cons, Nat.succ_mul]
      omega

end Placed

end LinkedList

end Foundation
