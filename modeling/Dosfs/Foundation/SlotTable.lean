import Mathlib.Data.Finmap
import Mathlib.Data.Fintype.Card

/-!
# Tables of slots

A fixed number of slots, each empty or with a key and a value. As long as no
two slots have the same key, the table is a finite map, and it has an empty
slot exactly when the map has fewer keys than there are slots.
-/

namespace Foundation.SlotTable

variable {ι κ β : Type*} {slots : ι → Option (κ × β)} {m : Finmap fun _ : κ => β}

/-- The slots hold the entries of the map, each in one slot. -/
structure Represents [DecidableEq κ] (slots : ι → Option (κ × β)) (m : Finmap fun _ : κ => β) :
    Prop where
  distinct : ∀ i j k v w, slots i = some (k, v) → slots j = some (k, w) → i = j
  lookup : ∀ k v, m.lookup k = some v ↔ ∃ i, slots i = some (k, v)

variable [DecidableEq κ]

theorem represents_empty (hempty : ∀ i, slots i = none) : Represents slots ∅ where
  distinct i _ k v _ hi := by simp [hempty] at hi
  lookup k v := by simp [hempty]

namespace Represents

theorem mem_iff (h : Represents slots m) {k : κ} : k ∈ m ↔ ∃ i v, slots i = some (k, v) := by
  rw [← Finmap.lookup_isSome, Option.isSome_iff_exists, exists_comm]
  exact exists_congr fun v => h.lookup k v

section

variable [DecidableEq ι]

/-- The entries after one was stored: the key is in no other slot, as it is new, or the slot
is the one that held it. -/
theorem update_eq_some_iff (h : Represents slots m) {i : ι} {k : κ} (v : β)
    (hslot : (slots i = none ∧ k ∉ m) ∨ ∃ old, slots i = some (k, old)) {j : ι} {key : κ} {w : β} :
    Function.update slots i (some (k, v)) j = some (key, w) ↔
      j = i ∧ key = k ∧ w = v ∨ key ≠ k ∧ slots j = some (key, w) := by
  by_cases hj : j = i
  · subst hj
    have hnot : ¬(key ≠ k ∧ slots j = some (key, w)) := by
      rintro ⟨hkey, hentry⟩
      rcases hslot with ⟨hnone, -⟩ | ⟨old, hold⟩
      · simp [hnone] at hentry
      · exact hkey (Prod.mk.inj (Option.some.inj (hentry.symm.trans hold))).1
    rw [Function.update_self, or_iff_left hnot]
    simp [eq_comm]
  · rw [Function.update_of_ne hj, or_iff_right fun heq => hj heq.1]
    refine ⟨fun hentry => ⟨?_, hentry⟩, And.right⟩
    rintro rfl
    rcases hslot with ⟨-, habsent⟩ | ⟨old, hi⟩
    · exact habsent (h.mem_iff.2 ⟨j, w, hentry⟩)
    · exact hj (h.distinct j i key w old hentry hi)

/-- Store an entry in a slot that is empty or has this key already. -/
theorem store (h : Represents slots m) {i : ι} {k : κ} (v : β)
    (hslot : (slots i = none ∧ k ∉ m) ∨ ∃ old, slots i = some (k, old)) :
    Represents (Function.update slots i (some (k, v))) (m.insert k v) := by
  constructor
  · intro j₁ j₂ key v₁ v₂ h₁ h₂
    rw [h.update_eq_some_iff v hslot] at h₁ h₂
    rcases h₁ with ⟨hj₁, hkey, -⟩ | ⟨hne, h₁⟩ <;> rcases h₂ with ⟨hj₂, hkey', -⟩ | ⟨hne', h₂⟩
    · exact hj₁.trans hj₂.symm
    · exact absurd hkey hne'
    · exact absurd hkey' hne
    · exact h.distinct j₁ j₂ key v₁ v₂ h₁ h₂
  · intro key w
    simp only [h.update_eq_some_iff v hslot]
    by_cases hkey : key = k
    · subst hkey
      rw [Finmap.lookup_insert]
      simp [eq_comm]
    · rw [Finmap.lookup_insert_of_ne m hkey, h.lookup]
      simp [hkey]

/-- Empty the slot of a key. -/
theorem clear (h : Represents slots m) {i : ι} {k : κ} {v : β} (hslot : slots i = some (k, v)) :
    Represents (Function.update slots i none) (m.erase k) := by
  have hkept (j : ι) (entry : κ × β) (hj : Function.update slots i none j = some entry) :
      j ≠ i ∧ slots j = some entry := by
    have hji : j ≠ i := by
      rintro rfl
      rw [Function.update_self] at hj
      exact absurd hj (by simp)
    exact ⟨hji, by rwa [Function.update_of_ne hji] at hj⟩
  constructor
  · intro j₁ j₂ key v₁ v₂ h₁ h₂
    exact h.distinct j₁ j₂ key v₁ v₂ (hkept j₁ _ h₁).2 (hkept j₂ _ h₂).2
  · intro key w
    by_cases hkey : key = k
    · subst hkey
      rw [Finmap.lookup_erase]
      refine ⟨fun hnone => absurd hnone (by simp), ?_⟩
      rintro ⟨j, hj⟩
      obtain ⟨hji, hj⟩ := hkept j _ hj
      exact absurd (h.distinct j i key w v hj hslot) hji
    · rw [Finmap.lookup_erase_ne hkey, h.lookup]
      constructor
      · rintro ⟨j, hj⟩
        have hji : j ≠ i := by
          rintro rfl
          exact hkey (Prod.mk.inj (Option.some.inj (hj.symm.trans hslot))).1
        exact ⟨j, by rw [Function.update_of_ne hji, hj]⟩
      · rintro ⟨j, hj⟩
        exact ⟨j, (hkept j _ hj).2⟩

end

end Represents

variable [Fintype ι]

/-- The slots that are not empty. -/
def used (slots : ι → Option (κ × β)) : Finset ι := Finset.univ.filter fun i => (slots i).isSome

omit [DecidableEq κ] in
theorem mem_used {i : ι} : i ∈ used slots ↔ ∃ k v, slots i = some (k, v) := by
  rw [used, Finset.mem_filter, Option.isSome_iff_exists]
  simp

theorem Represents.card_keys (h : Represents slots m) : m.keys.card = (used slots).card := by
  refine (Finset.card_bij (fun i hi => ((slots i).get ?_).1) ?_ ?_ ?_).symm
  · exact (Finset.mem_filter.1 hi).2
  · intro i hi
    obtain ⟨k, v, hslot⟩ := mem_used.1 hi
    rw [Finmap.mem_keys, h.mem_iff]
    exact ⟨i, v, by simp [hslot]⟩
  · intro i hi j hj heq
    obtain ⟨k, v, hslot⟩ := mem_used.1 hi
    obtain ⟨k', v', hslot'⟩ := mem_used.1 hj
    simp only [hslot, hslot', Option.get_some] at heq
    subst heq
    exact h.distinct i j k v v' hslot hslot'
  · intro k hk
    obtain ⟨i, v, hslot⟩ := h.mem_iff.1 (Finmap.mem_keys.1 hk)
    exact ⟨i, mem_used.2 ⟨k, v, hslot⟩, by simp [hslot]⟩

/-- There is room for a key exactly when a slot is empty. -/
theorem Represents.card_lt_iff (h : Represents slots m) :
    m.keys.card < Fintype.card ι ↔ ∃ i, slots i = none := by
  rw [h.card_keys, ← Finset.card_univ, ← not_iff_not, not_lt, not_exists]
  constructor
  · intro hle i hnone
    have hall := Finset.eq_of_subset_of_card_le (Finset.subset_univ (used slots)) hle
    obtain ⟨k, v, hslot⟩ := mem_used.1 (hall ▸ Finset.mem_univ i)
    simp [hnone] at hslot
  · intro hall
    apply Finset.card_le_card
    intro i _
    obtain ⟨⟨k, v⟩, hslot⟩ := Option.ne_none_iff_exists'.1 (hall i)
    exact mem_used.2 ⟨k, v, hslot⟩

end Foundation.SlotTable
