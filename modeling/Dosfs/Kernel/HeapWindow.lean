import Dosfs.Kernel.Boot
import Dosfs.Memory.HeapSizes

/-!
# The window of the heap

`memory/heap.c` names an end of the heap, and no allocation looks at it. The heap
grows as long as there are pages, so how far it comes is decided by the memory
that the boot loader reports.
-/

namespace Dosfs

open Foundation

/-- `HEAP_END`. -/
def heapEnd : Nat := 0x01000000

/-! ## The memory of the machine -/

/-- The fields of `multiboot_info_t` that say how much memory there is. -/
structure MultibootInfo where
  flags : UInt32
  memUpper : UInt32

def multibootFlagMem : UInt32 := 0x1

def detectMemoryMultiboot (mbi : MultibootInfo) : Nat :=
  if mbi.flags &&& multibootFlagMem = 0 then 16 * 1024 * 1024
  else
    let upperMemKb := mbi.memUpper.toNat
    let total := (upperMemKb + 1024) * 1024
    let total := if 0xFFFFFFFF < total then 0xFFFFFFFF else total
    let cap := 16 * 1024 * 1024
    if cap < total then cap else total

theorem detectMemoryMultiboot_le (mbi : MultibootInfo) :
    detectMemoryMultiboot mbi ≤ 0x1000000 := by
  unfold detectMemoryMultiboot
  dsimp only
  split_ifs <;> omega

/-- At boot the pages behind the kernel image are clear. -/
theorem card_clear_rustPmmInit {kernelEnd totalMemory : Nat}
    (hkernel : 2 ^ 20 ≤ kernelEnd ∧ kernelEnd ≤ 2 ^ 28) (htotal : totalMemory ≤ 0x1000000) :
    (rustPmmInit kernelEnd totalMemory).clear.card =
      totalMemory / pageSize - (kernelEnd + pageSize - 1) / pageSize := by
  have hpages : (rustPmmInit kernelEnd totalMemory).totalPages = totalMemory / pageSize := by
    unfold rustPmmInit
    dsimp only
    refine if_neg ?_
    simp only [bitmapSize, pageSize]
    omega
  have hclear : (rustPmmInit kernelEnd totalMemory).clear =
      Finset.Ico ((kernelEnd + pageSize - 1) / pageSize) (totalMemory / pageSize) := by
    ext page
    rw [mem_clear_rustPmmInit hkernel, hpages, Finset.mem_Ico, Pmm.Reserved]
    simp only [pageSize]
    omega
  rw [hclear, Nat.card_Ico]

/-! ## Pages and the end of the heap -/

variable {σ : Type} {grab : Nat → σ → Bool × σ} {credits : σ → Nat}

/-- The heap never grows beyond what the credits allow. -/
theorem PageBudget.bounded (hbudget : PageBudget grab credits) (limit : Nat) :
    PageStable grab fun current s => current + credits s * pageSize ≤ limit where
  granted current s hle hok := by
    have hspent := Nat.mul_le_mul_right pageSize (hbudget.granted current s hok)
    have hwrap := Nat.mod_le (current + pageSize) (2 ^ 32)
    rw [Nat.succ_mul] at hspent
    omega
  refused current s hle hok := by
    have hspent := Nat.mul_le_mul_right pageSize (hbudget.refused current s hok)
    omega

theorem growPages_credits (hbudget : PageBudget grab credits) (count : Nat) {h : Heap σ}
    (hok : (growPages grab count h).1 = true) :
    credits (growPages grab count h).2.pages + count ≤ credits h.pages := by
  induction count generalizing h with
  | zero => exact Nat.le_refl _
  | succ count ih =>
      rw [growPages] at hok ⊢
      dsimp only at hok ⊢
      cases hgrab : (grab h.heapCurrent h.pages).1 with
      | false =>
          rw [hgrab] at hok
          exact absurd hok Bool.false_ne_true
      | true =>
          rw [hgrab] at hok
          have hrest := ih hok
          have hspent := hbudget.granted _ _ hgrab
          simp only [Bool.not_true, Bool.false_eq_true, if_false] at hrest ⊢
          omega

variable {m : Machine Pmm} {current : Nat}

/-- The heap and the clear pages together do not shrink. -/
def Conserved (limit current : Nat) (m : Machine Pmm) : Prop :=
  SystemInv current m ∧ limit ≤ current + m.source.clear.card * pageSize

theorem clear_of_refused {virt : Nat} (hbooted : m.source.Booted)
    (hok : (grabPage virt m).1 = false) :
    m.source.clear = ∅ ∧ (grabPage virt m).2.source = m.source := by
  have hnull := alloc_of_grabPage_false hok
  rw [grabPage_refused hnull]
  rcases pmmSource_alloc_cases hbooted with ⟨i, -, hi, heq⟩ | ⟨hempty, heq⟩
  · refine absurd hnull ?_
    change (pmmSource.alloc m.source).1 ≠ 0
    rw [heq]
    exact Nat.mul_ne_zero hi (by decide)
  · exact ⟨hempty, congrArg Prod.snd heq⟩

theorem conserved_stable (limit : Nat) : PageStable grabPage (Conserved limit) where
  granted current m hkept hok := by
    obtain ⟨hinv, hle⟩ := hkept
    obtain ⟨i, hleast, -, hroom, -, hgrab, hsource, -⟩ :=
      hinv.grabPage_eq (alloc_of_grabPage_true hok)
    refine ⟨hinv.grab hok, ?_⟩
    have hcard : (m.source.markPage i).clear.card + 1 = m.source.clear.card := by
      rw [Pmm.markPage_clear hleast.1, Finset.card_erase_add_one hleast.1]
    rw [← hcard, Nat.succ_mul] at hle
    rw [hgrab, Nat.mod_eq_of_lt (hroom.trans (by decide))]
    dsimp only
    rw [hsource]
    omega
  refused current m hkept hok := by
    refine ⟨systemInv_stable.refused _ _ hkept.1 hok, ?_⟩
    rw [(clear_of_refused hkept.1.space.inv.valid hok).2]
    exact hkept.2

/-- When a page is refused there is none left. -/
theorem growPages_exhausts (count : Nat) {h : Heap (Machine Pmm)} (hkeeps : h.Keeps SystemInv)
    (hfail : (growPages grabPage count h).1 = false) :
    (growPages grabPage count h).2.pages.source.clear = ∅ := by
  induction count generalizing h with
  | zero => exact absurd hfail (by simp [growPages])
  | succ count ih =>
      rw [growPages] at hfail ⊢
      dsimp only at hfail ⊢
      cases hok : (grabPage h.heapCurrent h.pages).1 with
      | false =>
          have hvalid : h.pages.source.Booted := SpaceInv.inv (SystemInv.space hkeeps) |>.valid
          obtain ⟨hempty, hsame⟩ := clear_of_refused hvalid hok
          simp only [Bool.not_false, if_true]
          rw [hsame]
          exact hempty
      | true =>
          rw [hok] at hfail
          exact ih (systemInv_stable.granted _ _ hkeeps hok) hfail

/-- A request for all the memory there can be takes every page, and is refused. -/
theorem kmallocAligned_exhausts {limit : Nat} {h : Heap (Machine Pmm)}
    (hkept : h.Keeps (Conserved limit)) :
    ∃ h', kmallocAligned grabPage 0x1000000 h = some (0, h') ∧ limit ≤ h'.heapCurrent := by
  have hgrown := growPages_keeps (conserved_stable limit) 4097 hkept
  have hfail : (growPages grabPage 4097 h).1 = false := by
    by_contra hok
    have hspent := growPages_credits grabPage_budget 4097 (Bool.not_eq_false _ ▸ hok)
    have hpages : h.pages.source.clear.card ≤ 4096 := by
      have htotal := hkept.1.total
      rw [Pmm.clear_card]
      omega
    omega
  have hempty := growPages_exhausts 4097 (show h.Keeps SystemInv from hkept.1) hfail
  refine ⟨(growPages grabPage 4097 h).2, ?_, ?_⟩
  · unfold kmallocAligned
    rw [if_neg (by decide)]
    dsimp only
    rw [show pagesFor ((blockSize + align4 0x1000000) % 2 ^ 32) = 4097 by decide, hfail]
    rfl
  · have hle := hgrown.2
    rw [hempty] at hle
    simpa using hle

/-! ## The window -/

theorem card_clear_allocs_eq (pmm : Pmm) (count : Nat) :
    ((fun s => (pmmSource.alloc s).2)^[count] pmm).clear.card = pmm.clear.card - count := by
  induction count with
  | zero => rfl
  | succ count ih =>
      rw [Function.iterate_succ_apply', card_clear_alloc, ih]
      omega

/-- The pages that are clear when the heap is set up: those behind the kernel
image, without the directory and the tables of `vmm_init`. -/
def pagesForHeap (kernelEnd totalMemory : Nat) : Nat :=
  totalMemory / pageSize - (kernelEnd + pageSize - 1) / pageSize - 18

/-- After boot the heap and the clear pages are the pages there were for it. -/
theorem bootSystem_pages {kernelEnd totalMemory : Nat} {frames : Nat → Nat → PageEntry}
    {mem : Memory} {s : System} (hkernel : 2 ^ 20 ≤ kernelEnd ∧ kernelEnd ≤ 2 ^ 28)
    (htotal : totalMemory ≤ 0x1000000)
    (hboot : bootSystem kernelEnd totalMemory frames mem = some s) :
    s.heap.Keeps (Conserved (heapStart + pagesForHeap kernelEnd totalMemory * pageSize)) ∧
      s.heap.Keeps fun current m => current + m.source.clear.card * pageSize ≤
        heapStart + pagesForHeap kernelEnd totalMemory * pageSize := by
  obtain ⟨m, hinit, rfl⟩ := Option.map_eq_some_iff.1 hboot
  obtain ⟨-, -, hsource, -⟩ :=
    vmmInit_spec pmmLaw_exhausts (rustPmmInit_booted hkernel totalMemory) hinit
  have hcard : m.source.clear.card = pagesForHeap kernelEnd totalMemory := by
    rw [hsource, card_clear_allocs_eq, card_clear_rustPmmInit hkernel htotal, pagesForHeap]
  refine ⟨heapInit_keeps (conserved_stable _) mem ⟨vmmInit_systemInv hkernel htotal hinit, ?_⟩,
    heapInit_keeps (grabPage_budget.bounded _) mem ?_⟩
  · dsimp only
    rw [hcard]
  · dsimp only
    rw [hcard]

/-- No run of the heap after boot passes the end of its window, if and only if
there are at most as many pages for the heap as fit in the window. -/
theorem heap_window_iff {kernelEnd : Nat} {mbi : MultibootInfo} {frames : Nat → Nat → PageEntry}
    {mem : Memory} {s₀ : System} (hkernel : 2 ^ 20 ≤ kernelEnd ∧ kernelEnd ≤ 2 ^ 28)
    (hboot : bootSystem kernelEnd (detectMemoryMultiboot mbi) frames mem = some s₀) :
    (∀ ops rs s, runAll (stepHeap grabPage) ops ⟨s₀.heap, []⟩ = some (rs, s) →
        s.heap.heapCurrent ≤ heapEnd) ↔
      pagesForHeap kernelEnd (detectMemoryMultiboot mbi) ≤ (heapEnd - heapStart) / pageSize := by
  obtain ⟨hconserved, hbounded⟩ :=
    bootSystem_pages hkernel (detectMemoryMultiboot_le mbi) hboot
  constructor
  · intro hruns
    obtain ⟨h, hcall, hle⟩ := kmallocAligned_exhausts hconserved
    have hwindow := hruns [.kmallocAligned 0x1000000] [0] ⟨h, []⟩ (by
      simp [runAll, stepHeap, hcall, hold])
    simp only [heapStart, heapEnd, pageSize] at hle hwindow ⊢
    omega
  · intro hpages ops rs s hrun
    have hgood : ∀ r ∈ rs, (fun _ => True) r := fun _ _ => trivial
    have hkept := runAll_preserves (fun _ (s : HeapState (Machine Pmm)) =>
        s.heap.Keeps fun current m => current + m.source.clear.card * pageSize ≤
          heapStart + pagesForHeap kernelEnd (detectMemoryMultiboot mbi) * pageSize)
      (fun _ _ _ _ _ hs hstep _ => stepHeap_keeps (grabPage_budget.bounded _) hstep hs)
      hrun hgood hbounded
    have hle : s.heap.heapCurrent ≤
        heapStart + pagesForHeap kernelEnd (detectMemoryMultiboot mbi) * pageSize :=
      Nat.le_of_add_right_le hkept
    simp only [heapStart, heapEnd, pageSize] at hle hpages ⊢
    omega

theorem heap_window_iff_boot :
    ∃ s₀, bootSystem 0x180000 (detectMemoryMultiboot ⟨1, 0x2C00⟩) (fun _ _ => .zero)
        (fun _ => 0) = some s₀ ∧
      ((∀ ops rs s, runAll (stepHeap grabPage) ops ⟨s₀.heap, []⟩ = some (rs, s) →
          s.heap.heapCurrent ≤ heapEnd) ↔
        pagesForHeap 0x180000 (detectMemoryMultiboot ⟨1, 0x2C00⟩) ≤
          (heapEnd - heapStart) / pageSize) := by
  have hkernel : 2 ^ 20 ≤ 0x180000 ∧ 0x180000 ≤ 2 ^ 28 := ⟨by decide, by decide⟩
  have hclear : (rustPmmInit 0x180000 (detectMemoryMultiboot ⟨1, 0x2C00⟩)).clear ≠ ∅ := by
    intro hempty
    have hcard := card_clear_rustPmmInit hkernel (detectMemoryMultiboot_le ⟨1, 0x2C00⟩)
    rw [hempty] at hcard
    exact absurd hcard (by decide)
  obtain ⟨m, hinit⟩ := vmmInit_boots (rustPmmInit_booted hkernel _) (fun _ _ => .zero) hclear
  have hboot := bootSystem_of_vmmInit hinit fun _ => 0
  exact ⟨_, hboot, heap_window_iff hkernel hboot⟩

/-- With 16 MB and a kernel image that ends at 1.5 MB, one request passes the end
of the window, and is refused. -/
theorem heap_leaves_window :
    ∃ s₀ rs s, bootSystem 0x180000 (detectMemoryMultiboot ⟨1, 0x3C00⟩) (fun _ _ => .zero)
        (fun _ => 0) = some s₀ ∧
      runAll (stepHeap grabPage) [.kmallocAligned 0x1000000] ⟨s₀.heap, []⟩ = some (rs, s) ∧
      ¬ s.heap.heapCurrent ≤ heapEnd := by
  obtain ⟨s₀, hboot, -⟩ := boot_heap
  have hmemory : detectMemoryMultiboot ⟨1, 0x3C00⟩ = 0x1000000 := by decide
  obtain ⟨hconserved, -⟩ := bootSystem_pages ⟨by decide, by decide⟩ (by decide) hboot
  obtain ⟨h, hcall, hle⟩ := kmallocAligned_exhausts hconserved
  refine ⟨s₀, [0], ⟨h, []⟩, hmemory ▸ hboot, by simp [runAll, stepHeap, hcall, hold], ?_⟩
  have hpages : pagesForHeap 0x180000 0x1000000 = 3694 := by decide
  rw [hpages] at hle
  simp only [heapStart, heapEnd, pageSize] at hle ⊢
  omega

end Dosfs
