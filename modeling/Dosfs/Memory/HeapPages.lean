import Dosfs.Memory.Heap

/-!
# What the heap does with pages

All pages come to the heap through `grab`, one behind the other. So a property of
the end of the heap and of the source of pages that every grant and every refusal
keeps is kept by every operation of the heap, whatever its arguments and whatever
the memory holds.
-/

namespace Dosfs

open Foundation

variable {σ : Type} {grab : Nat → σ → Bool × σ} {inv : Nat → σ → Prop}

/-- The property is kept when a page is granted at the end of the heap, and when
it is refused. -/
structure PageStable (grab : Nat → σ → Bool × σ) (inv : Nat → σ → Prop) : Prop where
  granted : ∀ current s, inv current s → (grab current s).1 = true →
    inv ((current + pageSize) % 2 ^ 32) (grab current s).2
  refused : ∀ current s, inv current s → (grab current s).1 = false → inv current (grab current s).2

/-- The property, of a heap. -/
def Heap.Keeps (h : Heap σ) (inv : Nat → σ → Prop) : Prop := inv h.heapCurrent h.pages

theorem growPages_keeps (hstable : PageStable grab inv) (count : Nat) {h : Heap σ}
    (hkeeps : h.Keeps inv) : (growPages grab count h).2.Keeps inv := by
  induction count generalizing h with
  | zero => exact hkeeps
  | succ count ih =>
      rw [growPages]
      dsimp only
      cases hok : (grab h.heapCurrent h.pages).1 with
      | false => exact hstable.refused _ _ hkeeps hok
      | true => exact ih (hstable.granted _ _ hkeeps hok)

theorem initPages_keeps (hstable : PageStable grab inv) (count : Nat) {h : Heap σ}
    (hkeeps : h.Keeps inv) : (initPages grab count h).2.Keeps inv := by
  induction count generalizing h with
  | zero => exact hkeeps
  | succ count ih =>
      rw [initPages]
      dsimp only
      cases hok : (grab h.heapCurrent h.pages).1 with
      | false => exact hstable.refused _ _ hkeeps hok
      | true => exact ih (hstable.granted _ _ hkeeps hok)

theorem heapInit_keeps (hstable : PageStable grab inv) (mem : Memory) {pages : σ}
    (hkeeps : inv heapStart pages) : (heapInit grab mem pages).Keeps inv := by
  have hinit := initPages_keeps hstable (pagesFor (256 * 1024))
    (show Heap.Keeps { mem, heapHead := 0, heapCurrent := heapStart, pages } inv from hkeeps)
  unfold heapInit
  dsimp only
  split
  next => exact hinit
  next => exact hinit

theorem appendBlock_keeps {block size : Nat} {h h' : Heap σ}
    (happend : appendBlock block size h = some h') (hkeeps : h.Keeps inv) : h'.Keeps inv := by
  unfold appendBlock at happend
  dsimp only at happend
  split at happend
  next =>
    obtain ⟨last, -, rfl⟩ := Option.map_eq_some_iff.1 happend
    exact hkeeps
  next =>
    obtain rfl := Option.some.inj happend
    exact hkeeps

theorem expandHeap_keeps (hstable : PageStable grab inv) {size r : Nat} {h h' : Heap σ}
    (hexpand : expandHeap grab size h = some (r, h')) (hkeeps : h.Keeps inv) : h'.Keeps inv := by
  have hgrown := growPages_keeps hstable (pagesFor ((blockSize + size) % 2 ^ 32)) hkeeps
  unfold expandHeap at hexpand
  dsimp only at hexpand
  split at hexpand
  next =>
    obtain ⟨-, rfl⟩ := Prod.mk.inj (Option.some.inj hexpand)
    exact hgrown
  next =>
    obtain ⟨h'', happend, heq⟩ := Option.map_eq_some_iff.1 hexpand
    obtain ⟨-, rfl⟩ := Prod.mk.inj heq
    exact appendBlock_keeps happend hgrown

theorem kmalloc_keeps (hstable : PageStable grab inv) {size r : Nat} {h h' : Heap σ}
    (hkmalloc : kmalloc grab size h = some (r, h')) (hkeeps : h.Keeps inv) : h'.Keeps inv := by
  unfold kmalloc at hkmalloc
  split at hkmalloc
  next =>
    obtain ⟨-, rfl⟩ := Prod.mk.inj (Option.some.inj hkmalloc)
    exact hkeeps
  next =>
    obtain ⟨block, -, hrest⟩ := Option.bind_eq_some_iff.1 hkmalloc
    split at hrest
    next =>
      obtain ⟨-, rfl⟩ := Prod.mk.inj (Option.some.inj hrest)
      exact hkeeps
    next =>
      obtain ⟨⟨base, h''⟩, hexpand, heq⟩ := Option.map_eq_some_iff.1 hrest
      have hexpanded := expandHeap_keeps hstable hexpand hkeeps
      dsimp only at heq
      split at heq
      next =>
        obtain ⟨-, rfl⟩ := Prod.mk.inj heq
        exact hexpanded
      next =>
        obtain ⟨-, rfl⟩ := Prod.mk.inj heq
        exact hexpanded

theorem kmallocAligned_keeps (hstable : PageStable grab inv) {size r : Nat} {h h' : Heap σ}
    (hkmalloc : kmallocAligned grab size h = some (r, h')) (hkeeps : h.Keeps inv) :
    h'.Keeps inv := by
  unfold kmallocAligned at hkmalloc
  split at hkmalloc
  next =>
    obtain ⟨-, rfl⟩ := Prod.mk.inj (Option.some.inj hkmalloc)
    exact hkeeps
  next =>
    have hgrown := growPages_keeps hstable
      (pagesFor ((blockSize + align4 size) % 2 ^ 32)) hkeeps
    dsimp only at hkmalloc
    split at hkmalloc
    next =>
      obtain ⟨-, rfl⟩ := Prod.mk.inj (Option.some.inj hkmalloc)
      exact hgrown
    next =>
      obtain ⟨h'', happend, heq⟩ := Option.map_eq_some_iff.1 hkmalloc
      obtain ⟨-, rfl⟩ := Prod.mk.inj heq
      exact appendBlock_keeps happend hgrown

theorem kfree_current (ptr : Nat) (h : Heap σ) : (kfree ptr h).heapCurrent = h.heapCurrent := by
  unfold kfree
  dsimp only
  split_ifs <;> rfl

theorem kfree_pages (ptr : Nat) (h : Heap σ) : (kfree ptr h).pages = h.pages := by
  unfold kfree
  dsimp only
  split_ifs <;> rfl

theorem kfree_keeps (ptr : Nat) {h : Heap σ} (hkeeps : h.Keeps inv) : (kfree ptr h).Keeps inv := by
  rw [Heap.Keeps, kfree_current, kfree_pages]
  exact hkeeps

theorem krealloc_keeps (hstable : PageStable grab inv) {ptr size r : Nat} {h h' : Heap σ}
    (hkrealloc : krealloc grab ptr size h = some (r, h')) (hkeeps : h.Keeps inv) :
    h'.Keeps inv := by
  unfold krealloc at hkrealloc
  dsimp only at hkrealloc
  split at hkrealloc
  next => exact kmalloc_keeps hstable hkrealloc hkeeps
  split at hkrealloc
  next =>
    obtain ⟨-, rfl⟩ := Prod.mk.inj (Option.some.inj hkrealloc)
    exact kfree_keeps ptr hkeeps
  split at hkrealloc
  next =>
    obtain ⟨-, rfl⟩ := Prod.mk.inj (Option.some.inj hkrealloc)
    exact hkeeps
  split at hkrealloc
  next =>
    obtain ⟨-, rfl⟩ := Prod.mk.inj (Option.some.inj hkrealloc)
    exact hkeeps
  next =>
    obtain ⟨⟨newPtr, h''⟩, hkmalloc, heq⟩ := Option.map_eq_some_iff.1 hkrealloc
    have hallocated := kmalloc_keeps hstable hkmalloc hkeeps
    dsimp only at heq
    split at heq
    next =>
      obtain ⟨-, rfl⟩ := Prod.mk.inj heq
      exact hallocated
    next =>
      obtain ⟨-, rfl⟩ := Prod.mk.inj heq
      exact kfree_keeps ptr hallocated

end Dosfs
