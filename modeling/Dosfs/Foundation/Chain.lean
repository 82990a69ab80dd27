import Mathlib.Data.List.Nodup
import Mathlib.Data.List.Infix

/-!
# Chains in a successor table

A successor table `next` links cells into chains that run until a terminating
value. A chain is a finite list, so it is acyclic, and the table determines it.
A forest is a family of pairwise disjoint chains, one for each live owner; it
survives every change of the table outside its chains.
-/

namespace Foundation

/-- What a value of the table can be: the number of a cell, a terminator, or
the head of an owner without cells. -/
structure CellKind (α : Type*) where
  inside : α → Prop
  ended : α → Prop
  vacant : α → Prop
  not_inside_of_ended : ∀ x, ended x → ¬ inside x

variable {α ι : Type*} {kind : CellKind α} {next next' : α → α}

/-- The cells visited from a cell on, up to the terminator. -/
inductive Chain (kind : CellKind α) (next : α → α) : α → List α → Prop
  | last {c : α} (hc : kind.inside c) (hend : kind.ended (next c)) : Chain kind next c [c]
  | link {c : α} {rest : List α} (hc : kind.inside c)
      (htail : Chain kind next (next c) rest) : Chain kind next c (c :: rest)

/-- The cells reachable from a cell through the table, whether or not the walk
ever meets a terminator. -/
inductive Reaches (kind : CellKind α) (next : α → α) (c : α) : α → Prop
  | start (hc : kind.inside c) : Reaches kind next c c
  | step {x : α} (hx : Reaches kind next c x) (hnext : kind.inside (next x)) :
      Reaches kind next c (next x)

namespace Reaches

theorem inside {c x : α} (h : Reaches kind next c x) : kind.inside x := by
  cases h with
  | start hc => exact hc
  | step _ hnext => exact hnext

theorem head_inside {c x : α} (h : Reaches kind next c x) : kind.inside c := by
  induction h with
  | start hc => exact hc
  | step _ _ ih => exact ih

/-- A walk from the successor of a cell is a walk from the cell. -/
theorem prepend {c x : α} (h : Reaches kind next (next c) x) (hc : kind.inside c) :
    Reaches kind next c x := by
  induction h with
  | start hnext => exact .step (.start hc) hnext
  | step _ hnext ih => exact .step ih hnext

/-- Besides itself, a cell reaches what its successor reaches. -/
theorem cons_iff {c x : α} (hc : kind.inside c) :
    Reaches kind next c x ↔ x = c ∨ Reaches kind next (next c) x := by
  constructor
  · intro h
    induction h with
    | start => exact Or.inl rfl
    | step _ hin ih =>
        rcases ih with rfl | hlater
        · exact Or.inr (.start hin)
        · exact Or.inr (.step hlater hin)
  · rintro (rfl | h)
    · exact .start hc
    · exact h.prepend hc

/-- A walk survives changes of the successors that do not lead to a cell. -/
theorem of_agree {c x : α} (h : Reaches kind next c x)
    (hnext : ∀ y, kind.inside y → kind.inside (next y) → next' y = next y) :
    Reaches kind next' c x := by
  induction h with
  | start hc => exact .start hc
  | @step y hy hin ih =>
      have heq := hnext y hy.inside hin
      rw [← heq]
      exact .step ih (heq ▸ hin)

end Reaches

namespace Chain

theorem head?_eq {c : α} {cells : List α} (h : Chain kind next c cells) :
    cells.head? = some c := by
  cases h with
  | last => rfl
  | link => rfl

theorem head_mem {c : α} {cells : List α} (h : Chain kind next c cells) : c ∈ cells :=
  List.mem_of_mem_head? h.head?_eq

theorem head_inside {c : α} {cells : List α} (h : Chain kind next c cells) :
    kind.inside c := by
  cases h with
  | last hc _ => exact hc
  | link hc _ => exact hc

theorem inside_of_mem {c x : α} {cells : List α} (h : Chain kind next c cells)
    (hx : x ∈ cells) : kind.inside x := by
  induction h with
  | last hc _ => rwa [List.mem_singleton.mp hx]
  | link hc _ ih =>
      rcases List.mem_cons.mp hx with rfl | htail
      · exact hc
      · exact ih htail

/-- The table determines the chain. -/
theorem unique {c : α} {cells cells' : List α} (h : Chain kind next c cells)
    (h' : Chain kind next c cells') : cells = cells' := by
  induction h generalizing cells' with
  | last hc hend =>
      cases h' with
      | last => rfl
      | link _ htail => exact absurd htail.head_inside (kind.not_inside_of_ended _ hend)
  | link hc htail ih =>
      cases h' with
      | last _ hend => exact absurd htail.head_inside (kind.not_inside_of_ended _ hend)
      | link _ htail' => rw [ih htail']

/-- From each of its cells on, a chain is a suffix of itself. -/
theorem exists_suffix {c x : α} {cells : List α} (h : Chain kind next c cells)
    (hx : x ∈ cells) : ∃ tail, Chain kind next x tail ∧ tail <:+ cells := by
  induction h with
  | last hc hend =>
      rw [List.mem_singleton.mp hx]
      exact ⟨_, .last hc hend, List.suffix_rfl⟩
  | link hc htail ih =>
      rcases List.mem_cons.mp hx with rfl | hmem
      · exact ⟨_, .link hc htail, List.suffix_rfl⟩
      · obtain ⟨tail, htail, hsuffix⟩ := ih hmem
        exact ⟨tail, htail, hsuffix.trans (List.suffix_cons _ _)⟩

/-- A chain is acyclic: a repeated cell would make it a proper suffix of itself. -/
theorem nodup {c : α} {cells : List α} (h : Chain kind next c cells) : cells.Nodup := by
  induction h with
  | last => exact List.nodup_singleton _
  | @link c rest hc htail ih =>
      refine List.nodup_cons.mpr ⟨fun hmem => ?_, ih⟩
      obtain ⟨tail, hchain, hsuffix⟩ := htail.exists_suffix hmem
      have heq := hchain.unique (.link hc htail)
      have hlength := hsuffix.length_le
      rw [heq, List.length_cons] at hlength
      omega

/-- The successor of a cell on the chain is the terminator or again on it. -/
theorem next_mem_or_ended {c x : α} {cells : List α} (h : Chain kind next c cells)
    (hx : x ∈ cells) : next x ∈ cells ∨ kind.ended (next x) := by
  induction h with
  | last hc hend =>
      rw [List.mem_singleton.mp hx]
      exact Or.inr hend
  | link hc htail ih =>
      rcases List.mem_cons.mp hx with rfl | hmem
      · exact Or.inl (List.mem_cons_of_mem _ htail.head_mem)
      · exact (ih hmem).imp_left (List.mem_cons_of_mem _)

theorem next_inside_or_ended {c x : α} {cells : List α} (h : Chain kind next c cells)
    (hx : x ∈ cells) : kind.inside (next x) ∨ kind.ended (next x) :=
  (h.next_mem_or_ended hx).imp_left h.inside_of_mem

/-- A chain survives changes of the table outside its cells. -/
theorem congr {c : α} {cells : List α} (h : Chain kind next c cells)
    (hnext : ∀ x ∈ cells, next' x = next x) : Chain kind next' c cells := by
  induction h with
  | last hc hend =>
      exact .last hc (by rwa [hnext _ (List.mem_singleton_self _)])
  | link hc htail ih =>
      refine .link hc ?_
      rw [hnext _ List.mem_cons_self]
      exact ih fun x hx => hnext x (List.mem_cons_of_mem _ hx)

theorem mem_iff_reaches {c x : α} {cells : List α} (h : Chain kind next c cells) :
    x ∈ cells ↔ Reaches kind next c x := by
  constructor
  · intro hx
    induction h with
    | last hc _ =>
        rw [List.mem_singleton.mp hx]
        exact .start hc
    | @link c rest hc htail ih =>
        rcases List.mem_cons.mp hx with rfl | hmem
        · exact .start hc
        · exact (ih hmem).prepend hc
  · intro hreach
    induction hreach with
    | start => exact h.head_mem
    | step _ hin ih =>
        exact (h.next_mem_or_ended ih).resolve_right
          fun hend => kind.not_inside_of_ended _ hend hin

/-- When some cells of a chain are cut, the walk still reaches one of them. -/
theorem exists_reaches_of_cut {c : α} {cells : List α} (h : Chain kind next c cells)
    {cut : α → Prop} (hcut : ∃ x ∈ cells, cut x) (hnext : ∀ x, ¬ cut x → next' x = next x) :
    ∃ x, cut x ∧ Reaches kind next' c x := by
  induction h with
  | @last c hc _ =>
      obtain ⟨x, hx, hcut⟩ := hcut
      rw [List.mem_singleton.mp hx] at hcut
      exact ⟨c, hcut, .start hc⟩
  | @link c rest hc htail ih =>
      by_cases hhead : cut c
      · exact ⟨c, hhead, .start hc⟩
      · obtain ⟨x, hx, hcut⟩ := hcut
        have hrest : x ∈ rest := (List.mem_cons.mp hx).resolve_left fun heq => hhead (heq ▸ hcut)
        obtain ⟨y, hy, hreach⟩ := ih ⟨x, hrest, hcut⟩
        rw [← hnext c hhead] at hreach
        exact ⟨y, hy, hreach.prepend hc⟩

end Chain

/-- Pairwise disjoint chains, one for each live owner; an owner with a vacant
head owns no cell. -/
structure Forest (kind : CellKind α) (next : α → α) (live : ι → Prop) (head : ι → α)
    (cells : ι → List α) : Prop where
  chain : ∀ i, live i →
    (kind.vacant (head i) ∧ cells i = []) ∨ Chain kind next (head i) (cells i)
  disjoint : ∀ i j, live i → live j → i ≠ j → (cells i).Disjoint (cells j)

namespace Forest

variable {live live' : ι → Prop} {head head' : ι → α} {cells : ι → List α}

theorem chain_of_mem (h : Forest kind next live head cells) {i : ι} (hi : live i) {x : α}
    (hx : x ∈ cells i) : Chain kind next (head i) (cells i) :=
  (h.chain i hi).resolve_left fun hnil => by simp [hnil.2] at hx

/-- Every successor stored in an owned cell is a cell or the terminator. -/
theorem next_inside_or_ended (h : Forest kind next live head cells) {i : ι} (hi : live i)
    {x : α} (hx : x ∈ cells i) : kind.inside (next x) ∨ kind.ended (next x) :=
  (h.chain_of_mem hi hx).next_inside_or_ended hx

/-- Owners may disappear, and the table may change outside the remaining chains. -/
theorem restrict (h : Forest kind next live head cells)
    (hlive : ∀ i, live' i → live i) (hhead : ∀ i, live' i → head' i = head i)
    (hnext : ∀ i, live' i → ∀ x ∈ cells i, next' x = next x) :
    Forest kind next' live' head' cells := by
  refine ⟨fun i hi => ?_, fun i j hi hj => h.disjoint i j (hlive i hi) (hlive j hj)⟩
  rw [hhead i hi]
  exact (h.chain i (hlive i hi)).imp_right fun hchain => hchain.congr (hnext i hi)

/-- A new owner may take over a chain disjoint from all others. -/
theorem insert [DecidableEq ι] (h : Forest kind next live head cells) {owner : ι}
    {owned : List α}
    (hlive : ∀ i, live' i → i ≠ owner → live i)
    (hhead : ∀ i, live' i → i ≠ owner → head' i = head i)
    (howned : (kind.vacant (head' owner) ∧ owned = []) ∨ Chain kind next (head' owner) owned)
    (hfresh : ∀ i, live i → (cells i).Disjoint owned) :
    Forest kind next live' head' (Function.update cells owner owned) := by
  constructor
  · intro i hi
    by_cases heq : i = owner
    · subst i
      simpa using howned
    · rw [Function.update_of_ne heq, hhead i hi heq]
      exact h.chain i (hlive i hi heq)
  · intro i j hi hj hne
    by_cases heq : i = owner
    · subst i
      rw [Function.update_self, Function.update_of_ne hne.symm]
      exact List.disjoint_symm (hfresh j (hlive j hj hne.symm))
    · rw [Function.update_of_ne heq]
      by_cases heq' : j = owner
      · subst j
        rw [Function.update_self]
        exact hfresh i (hlive i hi heq)
      · rw [Function.update_of_ne heq']
        exact h.disjoint i j (hlive i hi heq) (hlive j hj heq') hne

end Forest

end Foundation
