import Dosfs.Memory.Pmm

/-!
# The physical memory manager refines a finite-set allocator

The abstract allocator knows a capacity and the finite set of taken pages. The
bitmap and the counter follow it in every run, whatever addresses are freed. The
one thing that hostile addresses can break is the meaning of null: freeing an
address inside page zero makes that page available, and its address is null.
-/

namespace Dosfs

open Foundation

/-- A finite-set allocator: pages below a capacity, some of them taken. -/
@[ext] structure PageSet where
  capacity : Nat
  taken : Finset Nat
  bounded : taken ⊆ Finset.range capacity

namespace PageSet

def free (pages : PageSet) : Finset Nat := Finset.range pages.capacity \ pages.taken

/-- Take the least free page. -/
def alloc (pages : PageSet) : Option Nat × PageSet :=
  if h : pages.free.Nonempty then
    (some (pages.free.min' h), {
      capacity := pages.capacity
      taken := insert (pages.free.min' h) pages.taken
      bounded := Finset.insert_subset (Finset.mem_sdiff.mp (pages.free.min'_mem h)).1
        pages.bounded })
  else (none, pages)

def release (i : Nat) (pages : PageSet) : PageSet where
  capacity := pages.capacity
  taken := pages.taken.erase i
  bounded := (Finset.erase_subset _ _).trans pages.bounded

end PageSet

namespace Pmm

variable {pmm : Pmm}

/-- The abstract state of the bitmap. -/
def pages (pmm : Pmm) : PageSet where
  capacity := pmm.totalPages
  taken := pmm.marked
  bounded := Finset.filter_subset _ _

theorem pages_free : pmm.pages.free = pmm.clear := rfl

/-- Allocation is simulated by the set. -/
theorem rustPmmAllocPage_pages (pmm : Pmm) :
    (rustPmmAllocPage pmm).1 = (pmm.pages.alloc.1.map (· * pageSize)).getD 0 ∧
      (rustPmmAllocPage pmm).2.pages = pmm.pages.alloc.2 := by
  rcases rustPmmAllocPage_cases pmm with ⟨i, hleast, heq⟩ | ⟨hempty, heq⟩
  · have hnonempty : pmm.pages.free.Nonempty := ⟨i, hleast.1⟩
    have hmin : pmm.pages.free.min' hnonempty = i :=
      (pmm.pages.free.isLeast_min' hnonempty).unique hleast
    rw [heq, PageSet.alloc, dif_pos hnonempty]
    constructor
    · rw [Option.map_some, Option.getD_some, hmin]
    · refine PageSet.ext rfl ?_
      change (pmm.markPage i).marked = insert (pmm.pages.free.min' hnonempty) pmm.marked
      rw [hmin]
      exact markPage_marked (mem_clear.mp hleast.1).1
  · have hnone : ¬ pmm.pages.free.Nonempty := by
      rw [pages_free, hempty]
      exact Finset.not_nonempty_empty
    rw [heq, PageSet.alloc, dif_neg hnone]
    exact ⟨rfl, rfl⟩

/-- Freeing is simulated by the set; null is ignored. -/
theorem rustPmmFreePage_pages (page : Nat) (pmm : Pmm) :
    (rustPmmFreePage page pmm).pages =
      if page = 0 then pmm.pages else pmm.pages.release (page / pageSize) := by
  have hmarked := rustPmmFreePage_marked page pmm
  have htotal := rustPmmFreePage_totalPages page pmm
  split_ifs at hmarked ⊢ with hnull
  · simp only [pages, hmarked, htotal]
  · simp only [pages, hmarked, htotal, PageSet.release]

/-! ## Runs -/

end Pmm

/-- A call of the allocator. -/
inductive PmmOp
  | alloc
  | free (page : Nat)

def PmmOp.exec : PmmOp → Pmm → Pmm
  | alloc, pmm => (rustPmmAllocPage pmm).2
  | free page, pmm => rustPmmFreePage page pmm

/-- The state after a list of calls. -/
def runPmm (pmm : Pmm) (ops : List PmmOp) : Pmm := ops.foldl (fun pmm op => op.exec pmm) pmm

theorem runPmm_append (pmm : Pmm) (ops ops' : List PmmOp) :
    runPmm pmm (ops ++ ops') = runPmm (runPmm pmm ops) ops' :=
  List.foldl_append

namespace Pmm

variable {pmm : Pmm}

/-- Counters, results and states follow the finite-set allocator, and a page is
not handed out while it is marked. -/
structure Tracks (pmm : Pmm) : Prop where
  used : pmm.usedPages = pmm.pages.taken.card
  free : rustPmmGetFreeCount pmm = pmm.pages.free.card
  result : (rustPmmAllocPage pmm).1 = (pmm.pages.alloc.1.map (· * pageSize)).getD 0
  least : ∀ i, IsLeast (pmm.pages.free : Set Nat) i → (rustPmmAllocPage pmm).1 = i * pageSize
  state : (rustPmmAllocPage pmm).2.pages = pmm.pages.alloc.2
  unmarked : (rustPmmAllocPage pmm).1 ≠ 0 →
    (rustPmmAllocPage pmm).1 / pageSize ∉ pmm.pages.taken

/-- Null means that no page is free. -/
def NullExact (pmm : Pmm) : Prop := (rustPmmAllocPage pmm).1 = 0 ↔ pmm.pages.free = ∅

theorem Counted.tracks (h : pmm.Counted) : Tracks pmm where
  used := h
  free := by rw [rustPmmGetFreeCount, h, pages_free, clear_card]
  result := (rustPmmAllocPage_pages pmm).1
  least i hleast := by
    rcases rustPmmAllocPage_cases pmm with ⟨j, hj, heq⟩ | ⟨hempty, -⟩
    · rw [heq, hj.unique hleast]
    · rw [pages_free, hempty] at hleast
      exact absurd hleast.1 (by simp)
  state := (rustPmmAllocPage_pages pmm).2
  unmarked hpage := by
    rcases rustPmmAllocPage_cases pmm with ⟨i, hleast, heq⟩ | ⟨-, heq⟩
    · rw [heq]
      change i * pageSize / pageSize ∉ pmm.marked
      rw [Nat.mul_div_cancel i (by decide)]
      exact notMem_marked_of_clear hleast.1
    · rw [heq] at hpage
      exact absurd rfl hpage

theorem Counted.exec (h : pmm.Counted) (op : PmmOp) : (op.exec pmm).Counted := by
  cases op with
  | alloc =>
      rcases rustPmmAllocPage_cases pmm with ⟨i, hleast, heq⟩ | ⟨-, heq⟩
      · rw [PmmOp.exec, heq]
        exact h.markPage hleast.1
      · rw [PmmOp.exec, heq]
        exact h
  | free page => exact h.free page

theorem Counted.run (h : pmm.Counted) (ops : List PmmOp) : (runPmm pmm ops).Counted := by
  induction ops generalizing pmm with
  | nil => exact h
  | cons op ops ih => exact ih (h.exec op)

theorem exec_totalPages (op : PmmOp) (pmm : Pmm) : (op.exec pmm).totalPages = pmm.totalPages := by
  cases op with
  | alloc => exact rustPmmAllocPage_totalPages pmm
  | free page => exact rustPmmFreePage_totalPages page pmm

theorem run_totalPages (pmm : Pmm) (ops : List PmmOp) :
    (runPmm pmm ops).totalPages = pmm.totalPages := by
  induction ops generalizing pmm with
  | nil => rfl
  | cons op ops ih => exact (ih (op.exec pmm)).trans (exec_totalPages op pmm)

/-! ## Null -/

/-- While page zero is not free, null means failure. -/
theorem nullExact_of_zero_notMem (hzero : 0 ∉ pmm.clear) : NullExact pmm := by
  rcases rustPmmAllocPage_cases pmm with ⟨i, hleast, heq⟩ | ⟨hempty, heq⟩
  · rw [NullExact, heq, pages_free]
    have hne : i ≠ 0 := by
      rintro rfl
      exact hzero hleast.1
    have hnonempty : pmm.clear ≠ ∅ := Finset.ne_empty_of_mem hleast.1
    simp only [hnonempty, iff_false]
    exact Nat.mul_ne_zero hne (by decide)
  · rw [NullExact, heq, pages_free]
    simp only [hempty]

/-- Once page zero is free, allocation answers null although there is a page. -/
theorem not_nullExact_of_zero_mem (hzero : 0 ∈ pmm.clear) : ¬ NullExact pmm := by
  have hleast : IsLeast (pmm.clear : Set Nat) 0 := ⟨hzero, fun _ _ => Nat.zero_le _⟩
  rcases rustPmmAllocPage_cases pmm with ⟨i, hi, heq⟩ | ⟨hempty, -⟩
  · rw [NullExact, heq, hi.unique hleast, pages_free]
    simp only [Nat.zero_mul, true_iff]
    exact Finset.ne_empty_of_mem hzero
  · rw [hempty] at hzero
    exact absurd hzero (Finset.notMem_empty 0)

/-- The call does not free an address inside page zero. -/
def SparesZero : PmmOp → Prop
  | .alloc => True
  | .free page => page = 0 ∨ pageSize ≤ page

theorem zero_notMem_clear_exec {op : PmmOp} (hop : SparesZero op) (hzero : 0 ∉ pmm.clear) :
    0 ∉ (op.exec pmm).clear := by
  intro hmem
  obtain ⟨hlt, hunmarked⟩ := Finset.mem_sdiff.mp hmem
  rw [exec_totalPages] at hlt
  have hmarked : 0 ∈ pmm.marked := by
    by_contra hnot
    exact hzero (Finset.mem_sdiff.mpr ⟨hlt, hnot⟩)
  apply hunmarked
  cases op with
  | alloc =>
      rcases rustPmmAllocPage_cases pmm with ⟨i, hleast, heq⟩ | ⟨-, heq⟩
      · rw [PmmOp.exec, heq, markPage_marked (mem_clear.mp hleast.1).1]
        exact Finset.mem_insert_of_mem hmarked
      · rw [PmmOp.exec, heq]
        exact hmarked
  | free page =>
      rw [PmmOp.exec, rustPmmFreePage_marked]
      split_ifs with hnull
      · exact hmarked
      · have hpage : 0 ≠ page / pageSize :=
          (Nat.div_pos (hop.resolve_left hnull) (by decide)).ne
        exact Finset.mem_erase.mpr ⟨hpage, hmarked⟩

theorem zero_notMem_clear_run {ops : List PmmOp} (hops : ∀ op ∈ ops, SparesZero op)
    (hzero : 0 ∉ pmm.clear) : 0 ∉ (runPmm pmm ops).clear := by
  induction ops generalizing pmm with
  | nil => exact hzero
  | cons op ops ih =>
      exact ih (fun o ho => hops o (List.mem_cons_of_mem _ ho))
        (zero_notMem_clear_exec (hops op List.mem_cons_self) hzero)

/-! ## Clients -/

/-- The states that clients who free only their outstanding pages can reach, with
those pages. -/
inductive Client (start : Pmm) : Pmm → List Nat → Prop
  | start : Client start start []
  | alloc {pmm : Pmm} {out : List Nat} (h : Client start pmm out)
      (hpage : (rustPmmAllocPage pmm).1 ≠ 0) :
      Client start (rustPmmAllocPage pmm).2 ((rustPmmAllocPage pmm).1 :: out)
  | failed {pmm : Pmm} {out : List Nat} (h : Client start pmm out)
      (hpage : (rustPmmAllocPage pmm).1 = 0) : Client start (rustPmmAllocPage pmm).2 out
  | free {pmm : Pmm} {out : List Nat} (h : Client start pmm out) {page : Nat} (hpage : page ∈ out) :
      Client start (rustPmmFreePage page pmm) (out.erase page)

/-- Outstanding pages are different marked pages outside the reserved ones, and
the reserved pages stay marked. -/
structure ClientInv (kernelEnd : Nat) (pmm : Pmm) (out : List Nat) : Prop where
  reserved : ∀ i, i < pmm.totalPages → Reserved kernelEnd i → i ∈ pmm.marked
  outstanding : ∀ page ∈ out, ∃ i ∈ pmm.marked, page = i * pageSize ∧ ¬ Reserved kernelEnd i
  nodup : out.Nodup

/-- A page that can be handed out is neither reserved nor outstanding. -/
theorem ClientInv.clear {kernelEnd : Nat} {out : List Nat} (h : ClientInv kernelEnd pmm out)
    {i : Nat} (hi : i ∈ pmm.clear) : ¬ Reserved kernelEnd i ∧ i * pageSize ∉ out := by
  have hunmarked := notMem_marked_of_clear hi
  refine ⟨fun hreserved => hunmarked (h.reserved i (mem_clear.mp hi).1 hreserved), fun hout => ?_⟩
  obtain ⟨j, hj, heq, -⟩ := h.outstanding _ hout
  rw [Nat.eq_of_mul_eq_mul_right (by decide) heq] at hunmarked
  exact hunmarked hj

theorem ClientInv.alloc {kernelEnd : Nat} {out : List Nat} (h : ClientInv kernelEnd pmm out)
    {i : Nat} (hi : i ∈ pmm.clear) :
    ClientInv kernelEnd (pmm.markPage i) (i * pageSize :: out) := by
  have hmarked := markPage_marked (mem_clear.mp hi).1
  obtain ⟨hfree, hnew⟩ := h.clear hi
  refine ⟨fun j hj hreserved => ?_, fun page hpage => ?_, List.nodup_cons.mpr ⟨hnew, h.nodup⟩⟩
  · rw [hmarked]
    exact Finset.mem_insert_of_mem (h.reserved j hj hreserved)
  · rw [hmarked]
    rcases List.mem_cons.mp hpage with rfl | hout
    · exact ⟨i, Finset.mem_insert_self _ _, rfl, hfree⟩
    · obtain ⟨j, hj, heq, hnot⟩ := h.outstanding page hout
      exact ⟨j, Finset.mem_insert_of_mem hj, heq, hnot⟩

theorem ClientInv.free {kernelEnd : Nat} {out : List Nat} (h : ClientInv kernelEnd pmm out)
    {page : Nat} (hpage : page ∈ out) (hkernel : 0 < kernelEnd) :
    ClientInv kernelEnd (rustPmmFreePage page pmm) (out.erase page) := by
  obtain ⟨i, -, rfl, hnot⟩ := h.outstanding page hpage
  have hi : i ≠ 0 := by
    rintro rfl
    exact hnot (Or.inl (by simpa using hkernel))
  have hmarked := rustPmmFreePage_marked (i * pageSize) pmm
  rw [if_neg (Nat.mul_ne_zero hi (by decide)), Nat.mul_div_cancel i (by decide)] at hmarked
  refine ⟨fun j hj hreserved => ?_, fun page' hpage' => ?_, h.nodup.erase _⟩
  · rw [rustPmmFreePage_totalPages] at hj
    rw [hmarked]
    refine Finset.mem_erase.mpr ⟨?_, h.reserved j hj hreserved⟩
    rintro rfl
    exact hnot hreserved
  · rw [h.nodup.mem_erase_iff] at hpage'
    obtain ⟨j, hj, rfl, hnot'⟩ := h.outstanding page' hpage'.2
    rw [hmarked]
    refine ⟨j, Finset.mem_erase.mpr ⟨?_, hj⟩, rfl, hnot'⟩
    rintro rfl
    exact hpage'.1 rfl

theorem Client.inv {kernelEnd : Nat} (hkernel : 0 < kernelEnd) {start : Pmm} {out : List Nat}
    (hstart : ClientInv kernelEnd start []) (h : Client start pmm out) :
    ClientInv kernelEnd pmm out := by
  induction h with
  | start => exact hstart
  | @alloc pmm out _ hpage ih =>
      rcases rustPmmAllocPage_cases pmm with ⟨i, hleast, heq⟩ | ⟨-, heq⟩
      · rw [heq]
        exact ih.alloc hleast.1
      · rw [heq] at hpage
        exact absurd rfl hpage
  | @failed pmm out _ hpage ih =>
      rcases rustPmmAllocPage_cases pmm with ⟨i, hleast, heq⟩ | ⟨-, heq⟩
      · -- page zero is reserved, so a page that is handed out is not null
        rw [heq] at hpage
        have hi : i = 0 := (Nat.mul_eq_zero.mp hpage).resolve_right (by decide)
        refine absurd (Or.inl ?_) (ih.clear hleast.1).1
        simpa [hi] using hkernel
      · rw [heq]
        exact ih
  | free _ hpage ih => exact ih.free hpage hkernel

end Pmm

open Pmm in
/-- Null means failure in every state of a run exactly if page zero is never freed. -/
theorem nullExact_runs_iff {kernelEnd : Nat} (hkernel : 2 ^ 20 ≤ kernelEnd ∧ kernelEnd ≤ 2 ^ 28)
    (totalMemory : Nat) (ops : List PmmOp) :
    (∀ pre, pre <+: ops → NullExact (runPmm (rustPmmInit kernelEnd totalMemory) pre)) ↔
      totalMemory < pageSize ∨ ∀ page, .free page ∈ ops → page = 0 ∨ pageSize ≤ page := by
  have htotal : (rustPmmInit kernelEnd totalMemory).totalPages =
      min (totalMemory / pageSize) (bitmapSize * 8) := by
    simp only [rustPmmInit]
    split_ifs <;> omega
  have hpages : 0 < (rustPmmInit kernelEnd totalMemory).totalPages ↔ pageSize ≤ totalMemory := by
    rw [htotal, pageSize, bitmapSize]
    omega
  constructor
  · intro hall
    by_contra hcond
    rw [not_or] at hcond
    obtain ⟨hmemory, hfree⟩ := hcond
    push Not at hfree
    obtain ⟨page, hmem, hne, hlt⟩ := hfree
    obtain ⟨pre, post, rfl⟩ := List.append_of_mem hmem
    -- right after the call page zero is free
    refine not_nullExact_of_zero_mem ?_ (hall (pre ++ [.free page]) ⟨post, by simp⟩)
    rw [runPmm_append]
    change 0 ∈ (rustPmmFreePage page (runPmm (rustPmmInit kernelEnd totalMemory) pre)).clear
    refine Finset.mem_sdiff.mpr ⟨?_, ?_⟩
    · rw [Finset.mem_range, rustPmmFreePage_totalPages, run_totalPages, hpages]
      omega
    · rw [rustPmmFreePage_marked, if_neg hne, Nat.div_eq_of_lt hlt]
      exact Finset.notMem_erase 0 _
  · intro hcond pre hpre
    apply nullExact_of_zero_notMem
    rcases hcond with hmemory | hfree
    · intro hzero
      have hlt := (mem_clear.mp hzero).1
      rw [run_totalPages, hpages] at hlt
      omega
    · refine zero_notMem_clear_run (fun op hop => ?_) fun hzero => ?_
      · cases op with
        | alloc => trivial
        | free page => exact hfree page (hpre.subset hop)
      · have hclear := (mem_clear.mp hzero).2
        rw [(rustPmmInit_test hkernel totalMemory 0).mpr (Or.inl (by omega))] at hclear
        cases hclear

open Pmm in
/-- A client is given a page that it does not hold, outside the image and the VGA page. -/
theorem client_alloc_fresh {kernelEnd totalMemory : Nat} {pmm : Pmm} {out : List Nat}
    (hkernel : 2 ^ 20 ≤ kernelEnd ∧ kernelEnd ≤ 2 ^ 28)
    (hclient : Client (rustPmmInit kernelEnd totalMemory) pmm out)
    (hpage : (rustPmmAllocPage pmm).1 ≠ 0) :
    (rustPmmAllocPage pmm).1 ∉ out ∧ kernelEnd ≤ (rustPmmAllocPage pmm).1 ∧
      (rustPmmAllocPage pmm).1 ≠ 0xB8000 := by
  have htest := rustPmmInit_test hkernel totalMemory
  have hstart : ClientInv kernelEnd (rustPmmInit kernelEnd totalMemory) [] :=
    ⟨fun i hi hreserved => mem_marked.mpr ⟨hi, (htest i).mpr hreserved⟩, by simp, by simp⟩
  have hinv := hclient.inv (by omega) hstart
  rcases rustPmmAllocPage_cases pmm with ⟨i, hleast, heq⟩ | ⟨-, heq⟩
  · obtain ⟨hnot, hout⟩ := hinv.clear hleast.1
    rw [heq]
    refine ⟨hout, ?_, fun hvga => hnot (Or.inr ?_)⟩
    · by_contra hlt
      exact hnot (Or.inl (by omega))
    · simp only [pageSize] at hvga ⊢
      omega
  · rw [heq] at hpage
    exact absurd rfl hpage

open Pmm in
/-- In every run the counters, results and states are those of a finite-set
allocator. Null means failure in every state of a run exactly if no address
inside page zero is freed. Clients who free outstanding pages only are never
given a page they still hold, a page of the kernel image or the VGA page. -/
theorem rust_pmm_refines_pageSet {kernelEnd : Nat}
    (hkernel : 2 ^ 20 ≤ kernelEnd ∧ kernelEnd ≤ 2 ^ 28) (totalMemory : Nat) (ops : List PmmOp) :
    (∀ pre, pre <+: ops → Tracks (runPmm (rustPmmInit kernelEnd totalMemory) pre)) ∧
    ((∀ pre, pre <+: ops → NullExact (runPmm (rustPmmInit kernelEnd totalMemory) pre)) ↔
      totalMemory < pageSize ∨ ∀ page, .free page ∈ ops → page = 0 ∨ pageSize ≤ page) ∧
    ∀ pmm out, Client (rustPmmInit kernelEnd totalMemory) pmm out →
      (rustPmmAllocPage pmm).1 ≠ 0 → (rustPmmAllocPage pmm).1 ∉ out ∧
        kernelEnd ≤ (rustPmmAllocPage pmm).1 ∧ (rustPmmAllocPage pmm).1 ≠ 0xB8000 :=
  ⟨fun pre _ => ((rustPmmInit_counted _ _).run pre).tracks,
    nullExact_runs_iff hkernel totalMemory ops,
    fun _ _ hclient hpage => client_alloc_fresh hkernel hclient hpage⟩

open Pmm in
theorem rust_pmm_refines_pageSet_sample :
    (∀ pre, pre <+: [PmmOp.alloc, .free 0x101000] →
      Tracks (runPmm (rustPmmInit 0x100000 0x1000000) pre)) ∧
    ((∀ pre, pre <+: [PmmOp.alloc, .free 0x101000] →
      NullExact (runPmm (rustPmmInit 0x100000 0x1000000) pre)) ↔
      0x1000000 < pageSize ∨
        ∀ page, .free page ∈ [PmmOp.alloc, .free 0x101000] → page = 0 ∨ pageSize ≤ page) ∧
    ∀ pmm out, Client (rustPmmInit 0x100000 0x1000000) pmm out →
      (rustPmmAllocPage pmm).1 ≠ 0 → (rustPmmAllocPage pmm).1 ∉ out ∧
        0x100000 ≤ (rustPmmAllocPage pmm).1 ∧ (rustPmmAllocPage pmm).1 ≠ 0xB8000 :=
  rust_pmm_refines_pageSet (by decide) 0x1000000 [.alloc, .free 0x101000]

open Pmm in
/-- Freeing address 1 on a machine with 16 MB: the next allocation answers null,
although page zero is free. -/
theorem rust_pmm_null_of_free_page :
    0 ∈ (runPmm (rustPmmInit 0x180000 0x1000000) [.free 1]).pages.free ∧
      (rustPmmAllocPage (runPmm (rustPmmInit 0x180000 0x1000000) [.free 1])).1 = 0 ∧
      ¬ NullExact (runPmm (rustPmmInit 0x180000 0x1000000) [.free 1]) := by
  have hzero : 0 ∈ (rustPmmFreePage 1 (rustPmmInit 0x180000 0x1000000)).clear := by
    refine Finset.mem_sdiff.mpr ⟨?_, ?_⟩
    · rw [Finset.mem_range, rustPmmFreePage_totalPages]
      decide
    · rw [rustPmmFreePage_marked, if_neg (by decide)]
      exact Finset.notMem_erase 0 _
  have hrun : runPmm (rustPmmInit 0x180000 0x1000000) [.free 1] =
      rustPmmFreePage 1 (rustPmmInit 0x180000 0x1000000) := by
    rw [runPmm, List.foldl_cons, List.foldl_nil, PmmOp.exec]
  rw [hrun, pages_free]
  refine ⟨hzero, ?_, not_nullExact_of_zero_mem hzero⟩
  rcases rustPmmAllocPage_cases (rustPmmFreePage 1 (rustPmmInit 0x180000 0x1000000)) with
    ⟨i, hleast, heq⟩ | ⟨-, heq⟩
  · have hi : i = 0 := Nat.le_zero.mp (hleast.2 hzero)
    rw [heq, hi, Nat.zero_mul]
  · rw [heq]

end Dosfs
