import Dosfs.Drivers.Acpi
import Dosfs.Kernel.Supervisor

/-!
# The pages that the search for ACPI tables needs

`acpi_init` runs with paging on and takes the first 64 MB to be mapped. It compares where a
table starts with that limit, not where it ends, so it meets pages that are not mapped exactly
when what it looks at crosses the end of the tables that `vmm_init` made.
-/

namespace Dosfs

open Foundation Reading

variable {mem : Memory}

/-- Whatever the firmware has left, nothing far above the limit is read. -/
theorem acpiInit_reads_lt (acpi : Acpi) : Inside 0x5000000 (acpiInit mem acpi) := by
  rw [inside_acpiInit (by decide)]
  intro rsdp _
  generalize mem.loadLe (rsdp + 16) 4 = rsdt
  by_cases hlimit : tableLimit < rsdt
  · exact .inr (.inl hlimit)
  refine .inr (.inr ⟨?_, fun htaken before entry after heq _ => ⟨?_, fun _ _ k _ _ => ?_, ?_⟩⟩)
  · simp only [tableLimit] at hlimit
    omega
  · have hmem : entry ∈ rsdtEntries mem rsdt := by
      rw [heq]
      exact List.mem_append_right _ List.mem_cons_self
    obtain ⟨i, hi, rfl⟩ := List.mem_range'.mp hmem
    have hlength := htaken.2
    simp only [tableLimit, sdtHeaderSize] at hlimit hi ⊢
    omega
  · simp only [tableLimit] at *
    omega
  · intro htable
    have hhigh := htable.2.1
    simp only [tableLimit] at hhigh
    omega

/-- In every state of the kernel, `acpi_init` meets mapped pages only, exactly when the RSDT
and the tables it lists lie below the end of the page tables as far as they are looked at. -/
theorem acpi_reads_mapped_iff {kernelEnd totalMemory : Nat} {frames : Nat → Nat → PageEntry}
    {ram : Memory} {s₀ s : System} {ops : List SystemOp} {rs : List Nat}
    (hkernel : 2 ^ 20 ≤ kernelEnd ∧ kernelEnd ≤ 2 ^ 28) (htotal : totalMemory ≤ 0x1000000)
    (hboot : bootSystem kernelEnd totalMemory frames ram = some s₀)
    (hrun : runAll stepSystem ops s₀ = some (rs, s)) (mem : Memory) (acpi : Acpi) :
    (∀ addr ∈ (acpiInit mem acpi).reads, SupervisorPage s.heap.pages (addr / pageSize)) ↔
      0 < lowTables (rustPmmInit kernelEnd totalMemory) ∧
        ∀ rsdp, (rsdpPlaces mem).find? (IsRsdp mem ·) = some rsdp →
          RsdtBelow mem (lowTables (rustPmmInit kernelEnd totalMemory) * 0x400000)
            (mem.loadLe (rsdp + 16) 4) := by
  have hinv := runSystem_supervisorInv hkernel htotal hboot hrun
  generalize lowTables (rustPmmInit kernelEnd totalMemory) = count at hinv ⊢
  have hmapped (addr : Nat) (haddr : addr ∈ (acpiInit mem acpi).reads) :
      SupervisorPage s.heap.pages (addr / pageSize) ↔ addr < count * 0x400000 := by
    have hlt := acpiInit_reads_lt acpi addr haddr
    rw [hinv.low.supervisor_iff (by simp only [pageSize]; omega)]
    simp only [pageSize]
    omega
  have hinside : (∀ addr ∈ (acpiInit mem acpi).reads,
      SupervisorPage s.heap.pages (addr / pageSize)) ↔
        Inside (count * 0x400000) (acpiInit mem acpi) :=
    forall₂_congr hmapped
  rw [hinside]
  rcases Nat.eq_zero_or_pos count with rfl | hpos
  · -- the BIOS data area is read in any case
    refine iff_of_false (fun h => ?_) fun h => absurd h.1 (Nat.lt_irrefl 0)
    rw [acpiInit, inside_bind, biosRsdp, inside_bind, ebdaRsdp, inside_bind, inside_number] at h
    exact absurd (h.1.1.1 0 (by decide)) (Nat.not_lt_zero _)
  · rw [inside_acpiInit (by omega)]
    exact (and_iff_right hpos).symm

/-- What a firmware may leave: an RSDP at the start of the ROM, and below 16 MB an RSDT with two
entries, the second one for a FADT. -/
def firmwareTables : Memory :=
  ((((Memory.storeList (fun _ => 0) 0xE0000
      (rsdpSignature ++ [0x02] ++ List.replicate 7 0 ++ [0x00, 0xE0, 0xFF, 0x00])).storeLe
    0xFFE004 4 44).storeLe 0xFFE024 4 0xFFE100).storeLe 0xFFE028 4 0xFFE200).storeList
    0xFFE200 fadtSignature

theorem find_firmwareTables :
    (rsdpPlaces firmwareTables).find? (IsRsdp firmwareTables ·) = some 0xE0000 := by
  rw [rsdpPlaces, if_neg (by decide), List.nil_append]
  exact List.find?_cons_of_pos (show decide (IsRsdp firmwareTables 0xE0000) = true by decide)

theorem rsdtBelow_firmwareTables : RsdtBelow firmwareTables 0x4000000 0xFFE000 := by
  refine .inr (.inr ⟨by decide, fun _ before entry after heq _ => ?_⟩)
  have hmem : entry ∈ rsdtEntries firmwareTables 0xFFE000 := by
    rw [heq]
    exact List.mem_append_right _ List.mem_cons_self
  rw [show rsdtEntries firmwareTables 0xFFE000 = [0xFFE024, 0xFFE028] by decide] at hmem
  rcases List.mem_pair.mp hmem with rfl | rfl
  · refine ⟨by decide, fun _ _ k hk _ => ?_, fun _ => by decide⟩
    rw [show firmwareTables.loadLe 0xFFE024 4 = 0xFFE100 by decide]
    omega
  · refine ⟨by decide, fun _ _ k hk _ => ?_, fun _ => by decide⟩
    rw [show firmwareTables.loadLe 0xFFE028 4 = 0xFFE200 by decide]
    omega

/-- After a boot with 16 MB and two calls, the search finds the tables and reads them in mapped
pages. -/
theorem acpi_reads_mapped_iff_firmware :
    ∃ s₀ r s, bootSystem 0x180000 0x1000000 (fun _ _ => .zero) (fun _ => 0) = some s₀ ∧
      runAll stepSystem [.kmalloc 64, .processCreate (CString.ofBuffer []) 0x100000] s₀ =
        some ([r, 0], s) ∧
      (acpiInit firmwareTables ⟨0, 0⟩).result = some (0, ⟨0xE0000, 0xFFE200⟩) ∧
      ∀ addr ∈ (acpiInit firmwareTables ⟨0, 0⟩).reads,
        SupervisorPage s.heap.pages (addr / pageSize) := by
  obtain ⟨s₀, hboot, -, -, blocks, hheap⟩ := boot_heap
  obtain ⟨r, heap, hcall, -⟩ := kmalloc_spec grabPage_budget hheap
    (mappable_of_le (show 64 ≤ 2 ^ 31 - 1 by decide))
  obtain ⟨s, hrun⟩ : ∃ s, runAll stepSystem
      [.kmalloc 64, .processCreate (CString.ofBuffer []) 0x100000] s₀ = some ([r, 0], s) := by
    simp [runAll, stepSystem, hcall]
  refine ⟨s₀, r, s, hboot, hrun, ?_, ?_⟩
  · have htable : tableOf firmwareTables fadtSignature
        (firmwareTables.loadLe (0xE0000 + 16) 4) = 0xFFE200 := by decide
    rw [acpiInit_result, find_firmwareTables]
    dsimp only
    rw [htable]
    rfl
  · have hiff := acpi_reads_mapped_iff ⟨by decide, by decide⟩ (by decide) hboot hrun
      firmwareTables ⟨0, 0⟩
    rw [lowTables_sixteen_megabytes] at hiff
    refine hiff.mpr ⟨by decide, fun rsdp hrsdp => ?_⟩
    obtain rfl := Option.some.inj (find_firmwareTables.symm.trans hrsdp)
    exact rsdtBelow_firmwareTables

end Dosfs
