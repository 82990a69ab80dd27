import Dosfs.Memory.HeapRuns
import Dosfs.Memory.HeapPages

/-!
# Sizes close to 2^32

The guard of `kmalloc` leaves room for the alignment and the header, but not for
rounding up to whole pages. For sizes up to a page below the limit the number of
pages comes out as zero, and the heap hands out memory that it never mapped.
-/

namespace Dosfs

open Foundation

variable {σ : Type} {grab : Nat → σ → Bool × σ} {credits : σ → Nat}

/-- The source of pages, with the list of the pages that it granted. -/
def recordPages (grab : Nat → σ → Bool × σ) (virt : Nat) (s : σ × List Nat) :
    Bool × (σ × List Nat) :=
  let (ok, pages) := grab virt s.1
  (ok, pages, if ok then virt :: s.2 else s.2)

theorem recordPages_budget (hbudget : PageBudget grab credits) :
    PageBudget (recordPages grab) fun s => credits s.1 where
  granted virt s hok := hbudget.granted virt s.1 hok
  refused virt s hok := hbudget.refused virt s.1 hok

/-- The recorded pages are those from the start of the heap to its end. -/
structure Recorded (credits : σ → Nat) (current : Nat) (s : σ × List Nat) : Prop where
  page : current % pageSize = 0
  start : heapStart ≤ current
  budget : current + credits s.1 * pageSize ≤ heapStart + bitmapSize * 8 * pageSize
  mapped : ∀ page, page ∈ s.2 ↔ page % pageSize = 0 ∧ heapStart ≤ page ∧ page < current

theorem recorded_stable (hbudget : PageBudget grab credits) :
    PageStable (recordPages grab) (Recorded credits) where
  granted current s hrecorded hok := by
    have hpage := hrecorded.page
    have hstart := hrecorded.start
    have hroom := hrecorded.budget
    have hspent := hbudget.granted current s.1 hok
    have hlist : (recordPages grab current s).2.2 = current :: s.2 := if_pos hok
    have hpages : (recordPages grab current s).2.1 = (grab current s.1).2 := rfl
    simp only [heapStart, bitmapSize, pageSize] at *
    rw [Nat.mod_eq_of_lt (by omega)]
    refine ⟨by simp only [pageSize]; omega, by simp only [heapStart]; omega, ?_, fun page => ?_⟩
    · simp only [heapStart, bitmapSize, pageSize, hpages]
      omega
    · rw [hlist, List.mem_cons, hrecorded.mapped]
      simp only [heapStart, pageSize]
      omega
  refused current s hrecorded hok := by
    have hok : (grab current s.1).1 = false := hok
    have hlist : (recordPages grab current s).2.2 = s.2 := if_neg (by simp [hok])
    have hspent := Nat.mul_le_mul_right pageSize (hbudget.refused current s.1 hok)
    refine ⟨hrecorded.page, hrecorded.start, ?_, fun page => by rw [hlist, hrecorded.mapped]⟩
    exact Nat.le_trans (Nat.add_le_add_left hspent _) hrecorded.budget

theorem stepHeap_keeps {inv : Nat → σ → Prop} (hstable : PageStable grab inv) {op : HeapOp}
    {s s' : HeapState σ} {r : Nat} (hstep : stepHeap grab op s = some (r, s'))
    (hkeeps : s.heap.Keeps inv) : s'.heap.Keeps inv := by
  cases op with
  | kmalloc size =>
      obtain ⟨⟨r, h⟩, hcall, heq⟩ := Option.map_eq_some_iff.1 hstep
      obtain ⟨-, rfl⟩ := Prod.mk.inj heq
      exact kmalloc_keeps hstable hcall hkeeps
  | kmallocAligned size =>
      obtain ⟨⟨r, h⟩, hcall, heq⟩ := Option.map_eq_some_iff.1 hstep
      obtain ⟨-, rfl⟩ := Prod.mk.inj heq
      exact kmallocAligned_keeps hstable hcall hkeeps
  | krealloc ptr size =>
      obtain ⟨⟨r, h⟩, hcall, heq⟩ := Option.map_eq_some_iff.1 hstep
      obtain ⟨-, rfl⟩ := Prod.mk.inj heq
      exact krealloc_keeps hstable hcall hkeeps
  | kfree ptr =>
      obtain ⟨-, rfl⟩ := Prod.mk.inj (Option.some.inj hstep)
      exact kfree_keeps ptr hkeeps

/-! ## One call -/

/-- The call returns null, or a pointer to memory that lies in mapped pages and
does not wrap around. -/
def AllocatesMapped (size : Nat) (result : Option (Nat × Heap (σ × List Nat))) : Prop :=
  ∃ r h, result = some (r, h) ∧
    (r ≠ 0 → ∀ x, r ≤ x → x < r + size → x < 2 ^ 32 ∧ x / pageSize * pageSize ∈ h.pages.2)

/-- The memory of a live pointer lies in mapped pages. -/
theorem HeapInv.live_mapped {h : Heap (σ × List Nat)} {blocks : List Block} {live : Live}
    (hinv : HeapInv (fun s => credits s.1) h blocks live) (hrecorded : h.Keeps (Recorded credits))
    {e : Nat × Nat} (he : e ∈ live) {x : Nat} (hlow : e.1 ≤ x) (hhigh : x < e.1 + e.2) :
    x < 2 ^ 32 ∧ x / pageSize * pageSize ∈ h.pages.2 := by
  obtain ⟨b, hb, haddr, -, hsize⟩ := hinv.owned e he
  obtain ⟨hstart, hend⟩ := hinv.list.placed.bounds hb
  have hlt := hinv.current_lt
  have hmapped : ∀ page, page ∈ h.pages.2 ↔
      page % pageSize = 0 ∧ heapStart ≤ page ∧ page < h.heapCurrent := hrecorded.mapped
  rw [hmapped]
  simp only [extent, blockSize, heapStart, pageSize] at *
  omega

/-- An allocation that keeps the invariant and makes its pointer live. -/
theorem allocatesMapped_of_inv {h : Heap (σ × List Nat)} {blocks : List Block} {live : Live}
    {r size : Nat}
    (hinv : HeapInv (fun s => credits s.1) h blocks (if r = 0 then live else (r, size) :: live))
    (hrecorded : h.Keeps (Recorded credits)) : AllocatesMapped size (some (r, h)) := by
  refine ⟨r, h, rfl, fun hnotNull x hlow hhigh => ?_⟩
  rw [if_neg hnotNull] at hinv
  exact hinv.live_mapped hrecorded List.mem_cons_self hlow hhigh

/-- A size between the limits needs, so the arithmetic says, no page at all. -/
theorem pagesFor_of_not_mappable {size : Nat} (hsize : ¬ Mappable size) :
    (size ≠ 0 ∧ size ≤ 0xFFFFFFFF - blockSize - 4) ∧ 2 ^ 29 ≤ align4 size ∧
      pagesFor ((blockSize + align4 size) % 2 ^ 32) = 0 := by
  rw [Mappable, not_or] at hsize
  rw [align4_eq, pagesFor]
  simp only [blockSize, pageSize] at *
  omega

/-- The first byte of a block at the end of the heap is not mapped. -/
theorem not_allocatesMapped_at_end {h : Heap (σ × List Nat)}
    (hrecorded : h.Keeps (Recorded credits)) {size : Nat} (hsize : size ≠ 0)
    {result : Option (Nat × Heap (σ × List Nat))}
    (hresult : ∀ r h', result = some (r, h') →
      r = h.heapCurrent + blockSize ∧ h'.pages = h.pages) :
    ¬ AllocatesMapped size result := by
  rintro ⟨r, h', heq, hmapped⟩
  obtain ⟨rfl, hpages⟩ := hresult r h' heq
  have hpage : h.heapCurrent % pageSize = 0 := hrecorded.page
  obtain ⟨-, hmem⟩ := hmapped (by simp [blockSize]) _ (Nat.le_refl _) (by omega)
  rw [hpages] at hmem
  obtain ⟨-, -, hlt⟩ := (hrecorded.mapped _).1 hmem
  simp only [blockSize, pageSize] at *
  omega

theorem appendBlock_pages {block size : Nat} {h h' : Heap σ}
    (happend : appendBlock block size h = some h') : h'.pages = h.pages := by
  have hkeeps : h.Keeps fun _ pages => pages = h.pages := rfl
  exact appendBlock_keeps happend hkeeps

theorem kmalloc_mapped_iff (hbudget : PageBudget grab credits) {h : Heap (σ × List Nat)}
    {blocks : List Block} {live : Live} (hinv : HeapInv (fun s => credits s.1) h blocks live)
    (hrecorded : h.Keeps (Recorded credits)) (size : Nat) :
    AllocatesMapped size (kmalloc (recordPages grab) size h) ↔ Mappable size := by
  refine ⟨fun hmapped => ?_, fun hsize => ?_⟩
  · by_contra hsize
    obtain ⟨⟨hzero, hguard⟩, hlarge, hpages⟩ := pagesFor_of_not_mappable hsize
    refine not_allocatesMapped_at_end hrecorded hzero (fun r h' heq => ?_) hmapped
    have hlt := hinv.current_lt
    have hstart : heapStart ≤ h.heapCurrent := hinv.list.placed.le
    -- no block is that large
    have hnone : findFreeBlock (align4 size) h = some 0 := by
      rcases @findFreeBlock_cases _ _ _ _ _ (align4 size) hinv with
        hnone | ⟨pre, b, post, rfl, -, hfits, -⟩
      · exact hnone
      · have hend := hinv.list.end_le
        unfold extent at hend
        omega
    rw [kmalloc, if_neg (by omega)] at heq
    simp only [hnone, Option.bind_some, ne_eq, not_true_eq_false, expandHeap, hpages, growPages,
      Bool.not_true, Bool.false_eq_true, if_false, Option.map_map] at heq
    obtain ⟨h'', happend, heq⟩ := Option.map_eq_some_iff.1 heq
    simp only [heapStart, blockSize] at hstart heq ⊢
    rw [Function.comp_apply, if_neg (by omega)] at heq
    obtain ⟨rfl, rfl⟩ := Prod.mk.inj heq
    exact ⟨Nat.mod_eq_of_lt (by omega), appendBlock_pages happend⟩
  · obtain ⟨r, h', blocks', heq, hinv', -⟩ :=
      kmalloc_serves (recordPages_budget hbudget) hinv hsize
    rw [heq]
    exact allocatesMapped_of_inv hinv' (kmalloc_keeps (recorded_stable hbudget) heq hrecorded)

theorem kmallocAligned_mapped_iff (hbudget : PageBudget grab credits) {h : Heap (σ × List Nat)}
    {blocks : List Block} {live : Live} (hinv : HeapInv (fun s => credits s.1) h blocks live)
    (hrecorded : h.Keeps (Recorded credits)) (size : Nat) :
    AllocatesMapped size (kmallocAligned (recordPages grab) size h) ↔ Mappable size := by
  refine ⟨fun hmapped => ?_, fun hsize => ?_⟩
  · by_contra hsize
    obtain ⟨⟨hzero, hguard⟩, hlarge, hpages⟩ := pagesFor_of_not_mappable hsize
    refine not_allocatesMapped_at_end hrecorded hzero (fun r h' heq => ?_) hmapped
    have hlt := hinv.current_lt
    rw [kmallocAligned, if_neg (by omega)] at heq
    simp only [hpages, growPages, Bool.not_true, Bool.false_eq_true, if_false] at heq
    obtain ⟨h'', happend, heq⟩ := Option.map_eq_some_iff.1 heq
    obtain ⟨rfl, rfl⟩ := Prod.mk.inj heq
    simp only [blockSize]
    exact ⟨Nat.mod_eq_of_lt (by omega), appendBlock_pages happend⟩
  · obtain ⟨r, h', blocks', heq, hinv', -⟩ :=
      kmallocAligned_serves (recordPages_budget hbudget) hinv hsize
    rw [heq]
    exact allocatesMapped_of_inv hinv'
      (kmallocAligned_keeps (recorded_stable hbudget) heq hrecorded)

/-! ## Every reachable state -/

theorem heapInit_recorded (hbudget : PageBudget grab credits) (mem : Memory) (pages : σ)
    (hpages : credits pages ≤ 65536) :
    (heapInit (recordPages grab) mem (pages, [])).Keeps (Recorded credits) := by
  refine heapInit_keeps (recorded_stable hbudget) mem ⟨by decide, Nat.le_refl _, ?_, fun page => ?_⟩
  · exact Nat.add_le_add_left (Nat.mul_le_mul_right _ hpages) _
  · simp only [List.not_mem_nil, false_iff]
    omega

/-- In every state that calls with such sizes lead to, `kmalloc` and
`kmalloc_aligned` hand out mapped memory exactly for the sizes outside the range
in which the number of pages overflows. -/
theorem heap_sizes_sound_iff (hbudget : PageBudget grab credits) (mem : Memory) (pages : σ)
    (hpages : credits pages ≤ 65536) (ops : List HeapOp)
    (hfits : Throughout (stepHeap (recordPages grab)) HeapOp.Fits ops
      ⟨heapInit (recordPages grab) mem (pages, []), []⟩) :
    ∃ rs s, runAll (stepHeap (recordPages grab)) ops
        ⟨heapInit (recordPages grab) mem (pages, []), []⟩ = some (rs, s) ∧
      ∀ size,
        (AllocatesMapped size (kmalloc (recordPages grab) size s.heap) ↔ Mappable size) ∧
        (AllocatesMapped size (kmallocAligned (recordPages grab) size s.heap) ↔ Mappable size) := by
  let inv (s : HeapState (σ × List Nat)) : Prop :=
    (∃ blocks, HeapInv (fun s => credits s.1) s.heap blocks s.live) ∧
      s.heap.Keeps (Recorded credits)
  have hstep (op : HeapOp) (s : HeapState (σ × List Nat)) (hs : inv s) (hop : op.Fits s) :
      ∃ r s', stepHeap (recordPages grab) op s = some (r, s') ∧ inv s' := by
    obtain ⟨⟨blocks, hinv⟩, hrecorded⟩ := hs
    obtain ⟨r, s', blocks', heq, hinv'⟩ := stepHeap_inv (recordPages_budget hbudget) op hinv hop
    exact ⟨r, s', heq, ⟨blocks', hinv'⟩, stepHeap_keeps (recorded_stable hbudget) heq hrecorded⟩
  obtain ⟨rs, s, hrun, ⟨blocks, hinv⟩, hrecorded⟩ := runAll_returns_throughout inv hstep hfits
    ⟨heapInit_spec (recordPages_budget hbudget) mem (pages, []) hpages,
      heapInit_recorded hbudget mem pages hpages⟩
  exact ⟨rs, s, hrun, fun size => ⟨kmalloc_mapped_iff hbudget hinv hrecorded size,
    kmallocAligned_mapped_iff hbudget hinv hrecorded size⟩⟩

theorem heap_sizes_sound_iff_countdown :
    ∃ rs s, runAll (stepHeap (recordPages countdown)) [.kmalloc 5]
        ⟨heapInit (recordPages countdown) (fun _ => 0) (100, []), []⟩ = some (rs, s) ∧
      ∀ size,
        (AllocatesMapped size (kmalloc (recordPages countdown) size s.heap) ↔ Mappable size) ∧
        (AllocatesMapped size (kmallocAligned (recordPages countdown) size s.heap) ↔
          Mappable size) :=
  heap_sizes_sound_iff countdown_budget (fun _ => 0) 100 (by decide) [.kmalloc 5]
    ⟨mappable_of_le (by decide), fun _ _ _ => trivial⟩

/-- Right after `heap_init` a request of 0xFFFFEFED bytes is answered with a
pointer behind the last mapped page. -/
theorem kmalloc_returns_unmapped :
    (kmalloc (recordPages countdown) 0xFFFFEFED
        (heapInit (recordPages countdown) (fun _ => 0) (100, []))).map Prod.fst = some 0x440014 ∧
      ¬ AllocatesMapped 0xFFFFEFED (kmalloc (recordPages countdown) 0xFFFFEFED
        (heapInit (recordPages countdown) (fun _ => 0) (100, []))) := by
  refine ⟨by decide +kernel, ?_⟩
  rw [kmalloc_mapped_iff countdown_budget
    (heapInit_blocks (recordPages_budget countdown_budget) (fun _ => 0) (100, []) (by decide))
    (heapInit_recorded countdown_budget (fun _ => 0) 100 (by decide))]
  simp [Mappable, blockSize]

end Dosfs
