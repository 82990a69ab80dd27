import Dosfs.Kernel.HeapWindow
import Dosfs.Process.UserStacks

/-!
# When the pages run out

Growing the heap takes page after page, and returns as soon as one is missing. The
pages it has taken by then stay mapped behind the last block, and the heap starts
behind them when it grows again.
-/

namespace Dosfs

open Foundation LinkedList

variable {m : Machine Pmm}

/-! ## What a run does to the allocator -/

/-- A property of the allocator that both of its calls keep. -/
structure SourceStable (inv : Pmm → Prop) : Prop where
  alloc : ∀ pmm, inv pmm → inv (pmmSource.alloc pmm).2
  free : ∀ page pmm, inv pmm → inv (pmmSource.free page pmm)

section

variable {inv : Pmm → Prop}

theorem SourceStable.allocPage (hstable : SourceStable inv) (hinv : inv m.source) :
    inv (pmmAllocPage pmmSource m).2.source := hstable.alloc m.source hinv

theorem SourceStable.freePage (hstable : SourceStable inv) (hinv : inv m.source) (page : Nat) :
    inv (pmmFreePage pmmSource page m).source := hstable.free page m.source hinv

theorem SourceStable.mapPage (hstable : SourceStable inv) (hinv : inv m.source)
    (virt phys flags : Nat) : inv (vmmMapPage pmmSource virt phys flags m).source := by
  obtain ⟨m₁, hm₁, hsource, -⟩ := vmmMapPage_ledger pmmSource virt phys flags m
  rw [hsource]
  rcases hm₁ with rfl | rfl
  · exact hinv
  · exact hstable.allocPage hinv

theorem SourceStable.grab (hstable : SourceStable inv) :
    PageStable grabPage fun _ m => inv m.source where
  granted current m hinv hok := by
    rw [grabPage_granted (alloc_of_grabPage_true hok)]
    dsimp only
    exact hstable.mapPage (hstable.allocPage hinv) _ _ _
  refused current m hinv hok := by
    rw [grabPage_refused (alloc_of_grabPage_false hok)]
    dsimp only
    exact hstable.allocPage hinv

theorem SourceStable.create (hstable : SourceStable inv) (hinv : inv m.source) (name : CString)
    (entry : Nat) (s : Scheduler) : inv (processCreate pmmSource name entry s m).2.source := by
  have hresult := processCreate_result pmmSource name entry s m
  generalize (processCreate pmmSource name entry s m).2 = m' at hresult ⊢
  cases hresult with
  | refused => exact hinv
  | noKernelStack => exact hstable.allocPage hinv
  | noUserStack => exact hstable.freePage (hstable.allocPage (hstable.allocPage hinv)) _
  | created virt => exact hstable.mapPage (hstable.allocPage (hstable.allocPage hinv)) _ _ _

theorem vmmUnmapPage_source (virt : Nat) (m : Machine Pmm) :
    (vmmUnmapPage pmmSource virt m).source = m.source := by
  unfold vmmUnmapPage getPageTable
  simp only [Bool.not_false, if_true]
  split_ifs <;> rfl

theorem SourceStable.exit (hstable : SourceStable inv) (hinv : inv m.source) (code : Int)
    (s : Scheduler) : inv (processExit pmmSource code s m).2.source := by
  have huser {m : Machine Pmm} (hinv : inv m.source) (stack : Nat) :
      inv (pmmFreePage pmmSource (stack &&& 0xFFFFF000)
        (vmmUnmapPage pmmSource stack m)).source := by
    refine hstable.freePage ?_ _
    rw [vmmUnmapPage_source]
    exact hinv
  unfold processExit
  dsimp only
  split_ifs
  · exact hinv
  · exact huser (hstable.freePage hinv _) _
  · exact hstable.freePage hinv _
  · exact huser hinv _
  · exact hinv

theorem stepKernel_source (hstable : SourceStable inv) {op : KernelOp} {s s' : System} {r : Nat}
    (hstep : stepKernel op s = some (r, s')) (hinv : inv s.heap.pages.source) :
    inv s'.heap.pages.source := by
  cases op with
  | call op =>
      have hsystem : SystemStable fun _ m => inv m.source :=
        ⟨hstable.grab, fun _ _ name entry s hinv => hstable.create hinv name entry s⟩
      exact stepSystem_keeps hsystem hstep hinv
  | process op =>
      obtain ⟨-, rfl⟩ := Prod.mk.inj (Option.some.inj hstep)
      cases op with
      | create name entry => exact hstable.create hinv name entry _
      | exit code => exact hstable.exit hinv code _
      | yield => exact hinv
      | tick => exact hinv

end

theorem counted_stable : SourceStable Pmm.Counted where
  alloc pmm hcounted := by
    change (rustPmmAllocPage pmm).2.Counted
    rcases Pmm.rustPmmAllocPage_cases pmm with ⟨i, hleast, heq⟩ | ⟨-, heq⟩
    · rw [heq]
      exact hcounted.markPage hleast.1
    · rw [heq]
      exact hcounted
  free page _ hcounted := hcounted.free page

theorem allocs_source {inv : Pmm → Prop} (hstable : SourceStable inv) (count : Nat) {pmm : Pmm}
    (hinv : inv pmm) : inv ((fun s => (pmmSource.alloc s).2)^[count] pmm) := by
  induction count with
  | zero => exact hinv
  | succ count ih =>
      rw [Function.iterate_succ_apply']
      exact hstable.alloc _ ih

/-- The counter of the allocator is exact in every run. -/
theorem runKernel_counted {kernelEnd totalMemory : Nat} {frames : Nat → Nat → PageEntry}
    {mem : Memory} {s₀ s : System} {ops : List KernelOp} {rs : List Nat}
    (hkernel : 2 ^ 20 ≤ kernelEnd ∧ kernelEnd ≤ 2 ^ 28)
    (hboot : bootSystem kernelEnd totalMemory frames mem = some s₀)
    (hrun : runAll stepKernel ops s₀ = some (rs, s)) : s.heap.pages.source.Counted := by
  have hstart : s₀.heap.pages.source.Counted := by
    obtain ⟨m, hinit, rfl⟩ := Option.map_eq_some_iff.1 hboot
    obtain ⟨-, -, hsource, -⟩ :=
      vmmInit_spec pmmLaw_exhausts (rustPmmInit_booted hkernel totalMemory) hinit
    have hm : m.source.Counted := by
      rw [hsource]
      exact allocs_source counted_stable 18 (Pmm.rustPmmInit_counted kernelEnd totalMemory)
    exact heapInit_keeps counted_stable.grab mem hm
  have hgood : ∀ r ∈ rs, (fun _ => True) r := fun _ _ => trivial
  exact runAll_preserves (fun _ s => s.heap.pages.source.Counted)
    (fun _ _ _ _ _ hs hstep _ => stepKernel_source counted_stable hstep hs) hrun hgood hstart

/-- Page zero is never handed out in a run. -/
theorem runKernel_booted {kernelEnd totalMemory : Nat} {frames : Nat → Nat → PageEntry}
    {mem : Memory} {s₀ s : System} {ops : List KernelOp} {rs : List Nat}
    (hkernel : 2 ^ 20 ≤ kernelEnd ∧ kernelEnd ≤ 2 ^ 28)
    (hboot : bootSystem kernelEnd totalMemory frames mem = some s₀)
    (hrun : runAll stepKernel ops s₀ = some (rs, s)) : s.heap.pages.source.Booted := by
  obtain ⟨m₀, hstart⟩ := bootRecorded_inv hkernel hboot fun _ => ⟨0, false⟩
  have hgood : ∀ r ∈ rs, (fun _ => True) r := fun _ _ => trivial
  obtain ⟨stackOf, hinv⟩ := runAll_preserves
    (fun _ s => ∃ stackOf, SystemRecord.Inv m₀ ⟨s, stackOf⟩)
    (fun op _ s r s' hs hstep _ => by
      obtain ⟨stackOf, hinv⟩ := hs
      have hrecorded : stepRecorded op ⟨s, stackOf⟩ = some (r, ⟨s',
          recordStacks s.heap.pages s.scheduler s'.scheduler stackOf⟩) := by
        rw [stepRecorded, hstep]
        rfl
      exact ⟨_, hinv.step hrecorded⟩) hrun hgood ⟨_, hstart⟩
  obtain ⟨_, _, hpages, -⟩ := UserStackInv.paid hinv
  exact hpages.tables.valid

/-! ## A failed growth -/

/-- The list of blocks of the heap. -/
def BlocksOf (h : Heap (Machine Pmm)) (blocks : List Block) : Prop :=
  h.heapHead = firstAddr blocks 0 ∧ Segment (blockAt h.mem) 0 blocks 0

/-- The free count of the allocator, the end of the heap and its list of blocks
are the same. -/
structure Unchanged (h h' : Heap (Machine Pmm)) : Prop where
  freeCount : rustPmmGetFreeCount h'.pages.source = rustPmmGetFreeCount h.pages.source
  current : h'.heapCurrent = h.heapCurrent
  blocks : ∀ blocks, BlocksOf h' blocks ↔ BlocksOf h blocks

/-- The number of pages by which a request makes the heap grow. -/
def growthPages (size : Nat) : Nat := pagesFor ((blockSize + align4 size) % 2 ^ 32)

/-- The heap, as a request leaves it that makes it grow. -/
def grownFor (size : Nat) (h : Heap (Machine Pmm)) : Heap (Machine Pmm) :=
  (growPages grabPage (growthPages size) h).2

/-- One of the pages that a request needs is missing. -/
def RunsShort (size : Nat) (h : Heap (Machine Pmm)) : Prop :=
  (growPages grabPage (growthPages size) h).1 = false

variable {h : Heap (Machine Pmm)}

theorem freeCount_eq {pmm : Pmm} (hcounted : pmm.Counted) :
    rustPmmGetFreeCount pmm = pmm.clear.card := by
  rw [rustPmmGetFreeCount, hcounted, Pmm.clear_card]

theorem growPages_credits_le {σ : Type} {grab : Nat → σ → Bool × σ} {credits : σ → Nat}
    (hbudget : PageBudget grab credits) (count : Nat) (h : Heap σ) :
    credits (growPages grab count h).2.pages ≤ credits h.pages := by
  induction count generalizing h with
  | zero => exact Nat.le_refl _
  | succ count ih =>
      rw [growPages]
      dsimp only
      cases hok : (grab h.heapCurrent h.pages).1 with
      | false => exact hbudget.refused _ _ hok
      | true => exact (ih _).trans (Nat.le_of_succ_le (hbudget.granted _ _ hok))

/-- A request for more pages than are clear runs short. -/
theorem runsShort_of_card {size : Nat}
    (hcard : h.pages.source.clear.card < growthPages size) : RunsShort size h := by
  rw [RunsShort, ← Bool.not_eq_true]
  intro hok
  have hspent := growPages_credits grabPage_budget (growthPages size) hok
  omega

/-- A growth that fails keeps the first pages it was granted, so it leaves the
state as it was only when there was none. -/
theorem failed_growth_unchanged_iff (hbooted : h.pages.source.Booted)
    (hcounted : h.pages.source.Counted) {size : Nat} (hfail : RunsShort size h) :
    Unchanged h (grownFor size h) ↔ rustPmmGetFreeCount h.pages.source = 0 := by
  have hcounted' : (grownFor size h).pages.source.Counted :=
    growPages_keeps counted_stable.grab (growthPages size) hcounted
  unfold RunsShort at hfail
  unfold grownFor at hcounted' ⊢
  generalize growthPages size = count at hfail hcounted' ⊢
  cases count with
  | zero => exact absurd hfail (by simp [growPages])
  | succ count =>
      cases hok : (grabPage h.heapCurrent h.pages).1 with
      | false =>
          obtain ⟨hempty, hsame⟩ := clear_of_refused hbooted hok
          have hstep : growPages grabPage (count + 1) h =
              (false, { h with pages := (grabPage h.heapCurrent h.pages).2 }) := by
            rw [growPages]
            simp only [hok, Bool.not_false, if_true]
          rw [freeCount_eq hcounted, hempty, hstep]
          refine iff_of_true ⟨?_, rfl, fun _ => Iff.rfl⟩ rfl
          dsimp only
          rw [hsame]
      | true =>
          have hspent := grabPage_budget.granted _ _ hok
          refine iff_of_false (fun hunchanged => ?_) fun hnone => ?_
          · have hcount := hunchanged.freeCount
            rw [freeCount_eq hcounted, freeCount_eq hcounted', growPages] at hcount
            simp only [hok, Bool.not_true, Bool.false_eq_true, if_false] at hcount
            have hrest := growPages_credits_le grabPage_budget count { h with
              mem := memset h.mem h.heapCurrent 0 pageSize
              heapCurrent := (h.heapCurrent + pageSize) % 2 ^ 32
              pages := (grabPage h.heapCurrent h.pages).2 }
            dsimp only at hrest
            omega
          · rw [freeCount_eq hcounted] at hnone
            omega

/-- `kmalloc` passes its checks for this size. -/
def Accepted (size : Nat) : Prop := ¬ (size = 0 ∨ 0xFFFFFFFF - blockSize - 4 < size)

theorem kmalloc_runs_short {size : Nat} (hsize : Accepted size)
    (hnone : findFreeBlock (align4 size) h = some 0) (hfail : RunsShort size h) :
    kmalloc grabPage size h = some (0, grownFor size h) := by
  unfold kmalloc
  rw [if_neg hsize]
  dsimp only
  rw [hnone, Option.bind_some, if_neg (not_not.2 rfl), expandHeap]
  unfold RunsShort growthPages at hfail
  dsimp only
  rw [hfail]
  rfl

theorem kmallocAligned_runs_short {size : Nat} (hsize : Accepted size)
    (hfail : RunsShort size h) : kmallocAligned grabPage size h = some (0, grownFor size h) := by
  unfold kmallocAligned
  rw [if_neg hsize]
  unfold RunsShort growthPages at hfail
  dsimp only
  rw [hfail]
  rfl

/-- In every state of the kernel: a request for which the pages run short is
answered with null, and it leaves the allocator and the heap as they were if and
only if no page was free before. -/
theorem out_of_memory_unchanged_iff {kernelEnd totalMemory : Nat}
    {frames : Nat → Nat → PageEntry} {mem : Memory} {s₀ s : System} {ops : List KernelOp}
    {rs : List Nat} (hkernel : 2 ^ 20 ≤ kernelEnd ∧ kernelEnd ≤ 2 ^ 28)
    (hboot : bootSystem kernelEnd totalMemory frames mem = some s₀)
    (hrun : runAll stepKernel ops s₀ = some (rs, s)) {size : Nat} (hsize : Accepted size)
    (hfail : RunsShort size s.heap) :
    (findFreeBlock (align4 size) s.heap = some 0 →
      ∃ h, kmalloc grabPage size s.heap = some (0, h) ∧
        (Unchanged s.heap h ↔ rustPmmGetFreeCount s.heap.pages.source = 0)) ∧
      ∃ h, kmallocAligned grabPage size s.heap = some (0, h) ∧
        (Unchanged s.heap h ↔ rustPmmGetFreeCount s.heap.pages.source = 0) := by
  have hiff := failed_growth_unchanged_iff (runKernel_booted hkernel hboot hrun)
    (runKernel_counted hkernel hboot hrun) hfail
  exact ⟨fun hnone => ⟨_, kmalloc_runs_short hsize hnone hfail, hiff⟩,
    _, kmallocAligned_runs_short hsize hfail, hiff⟩

theorem out_of_memory_unchanged_iff_boot :
    ∃ s₀, bootSystem 0x180000 0x1000000 (fun _ _ => .zero) (fun _ => 0) = some s₀ ∧
      runAll stepKernel [] s₀ = some ([], s₀) ∧ RunsShort 0x1000000 s₀.heap ∧
      (findFreeBlock (align4 0x1000000) s₀.heap = some 0 →
        ∃ h, kmalloc grabPage 0x1000000 s₀.heap = some (0, h) ∧
          (Unchanged s₀.heap h ↔ rustPmmGetFreeCount s₀.heap.pages.source = 0)) ∧
      ∃ h, kmallocAligned grabPage 0x1000000 s₀.heap = some (0, h) ∧
        (Unchanged s₀.heap h ↔ rustPmmGetFreeCount s₀.heap.pages.source = 0) := by
  obtain ⟨s₀, hboot, -, hclear, -⟩ := boot_heap
  have hfail : RunsShort 0x1000000 s₀.heap := by
    refine runsShort_of_card ?_
    rw [hclear, Nat.card_Ico]
    decide
  have hrun : runAll stepKernel [] s₀ = some ([], s₀) := rfl
  exact ⟨s₀, hboot, hrun, hfail, out_of_memory_unchanged_iff ⟨by decide, by decide⟩ hboot hrun
    (by unfold Accepted; decide) hfail⟩

/-- With 16 MB and a kernel image that ends at 1.5 MB, a request for 16 MB is
refused and takes the 3630 free pages with it. -/
theorem refused_request_takes_pages :
    ∃ s₀ h, bootSystem 0x180000 0x1000000 (fun _ _ => .zero) (fun _ => 0) = some s₀ ∧
      RunsShort 0x1000000 s₀.heap ∧ kmallocAligned grabPage 0x1000000 s₀.heap = some (0, h) ∧
      ¬ Unchanged s₀.heap h := by
  obtain ⟨s₀, hboot, -, hclear, -⟩ := boot_heap
  have hkernel : 2 ^ 20 ≤ 0x180000 ∧ 0x180000 ≤ 2 ^ 28 := ⟨by decide, by decide⟩
  have hcard : s₀.heap.pages.source.clear.card = 3630 := by
    rw [hclear, Nat.card_Ico]
  have hfail : RunsShort 0x1000000 s₀.heap := by
    refine runsShort_of_card ?_
    rw [hcard]
    decide
  have hrun : runAll stepKernel [] s₀ = some ([], s₀) := rfl
  have hcounted := runKernel_counted hkernel hboot hrun
  have hbooted := runKernel_booted hkernel hboot hrun
  refine ⟨s₀, _, hboot, hfail,
    kmallocAligned_runs_short (by unfold Accepted; decide) hfail, fun hunchanged => ?_⟩
  have hnone := (failed_growth_unchanged_iff hbooted hcounted hfail).1 hunchanged
  rw [freeCount_eq hcounted, hcard] at hnone
  exact absurd hnone (by decide)

end Dosfs
