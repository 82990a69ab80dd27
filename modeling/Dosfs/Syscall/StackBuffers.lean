import Dosfs.Process.RoundRobin
import Dosfs.Syscall.Handler

/-!
# Buffers on the stack

The scheduler puts the stack of each process into one of the 32 pages that end at
3 GB. The pointer check of the system calls ends user space at 2 GB. So no process
can pass a buffer on its own stack to a system call.
-/

namespace Dosfs

/-! ## Where the stacks are -/

def StacksPlaced (s : Scheduler) : Prop :=
  ∀ i ∈ s.alive, (s.processes i).userStack = 0xBFFFF000 - i * pageSize

section

variable {σ : Type} {src : PageSource σ} {s s' : Scheduler} {m : Machine σ}

theorem StacksPlaced.of_sameStacks (hplaced : StacksPlaced s) (hsame : SameStacks s s') :
    StacksPlaced s' := by
  intro i hi
  rw [hsame.alive] at hi
  rw [(hsame.kept i hi).2]
  exact hplaced i hi

/-- A slot that is stored with its stack in place, or left unused. -/
theorem StacksPlaced.store {slot : Fin maxProcesses} {proc : Process} (hplaced : StacksPlaced s)
    (hproc : proc.state ≠ .unused → proc.userStack = 0xBFFFF000 - slot * pageSize) :
    StacksPlaced (s.store slot proc) := by
  intro i hi
  have hused := Scheduler.mem_alive.1 hi
  by_cases hslot : i = slot
  · rw [hslot, Scheduler.store_same] at hused ⊢
    exact hproc hused
  · rw [Scheduler.store_of_ne hslot] at hused ⊢
    exact hplaced i (Scheduler.mem_alive.2 hused)

theorem stepProcess_stacksPlaced (hinv : SchedulerInv s) (hplaced : StacksPlaced s)
    (op : ProcessOp) : StacksPlaced (stepProcess src s m op).1 := by
  cases op with
  | create name entry =>
      change StacksPlaced (processCreate src name entry s m).1
      have hcreates := processCreate_creates src name entry s m
      generalize (processCreate src name entry s m).1 = s' at hcreates ⊢
      generalize (processCreate src name entry s m).2 = m' at hcreates
      cases hcreates with
      | refused => exact hplaced
      | noKernelStack slot proc hslot hproc => exact hplaced.store fun hused => absurd hproc hused
      | noUserStack slot proc hslot hproc => exact hplaced.store fun hused => absurd hproc hused
      | created slot proc hslot hproc hpid hkernel huser => exact hplaced.store fun _ => huser
  | exit code =>
      change StacksPlaced (processExit src code s m).1
      rcases processExit_scheduler src code s m with ⟨-, heq⟩ | ⟨-, proc, hproc, heq⟩
      · rw [heq]
        exact hplaced
      · rw [heq]
        exact hplaced.store fun hused => absurd hproc hused
  | yield => exact hplaced.of_sameStacks (processYield_sameStacks hinv)
  | tick => exact hplaced.of_sameStacks (schedulerTick_sameStacks hinv)

theorem runProcesses_stacksPlaced (hinv : SchedulerInv s) (hplaced : StacksPlaced s)
    (ops : List ProcessOp) : StacksPlaced (runProcesses src ops (s, m)).1 := by
  induction ops generalizing s m with
  | nil => exact hplaced
  | cons op ops ih =>
      rw [runProcesses, List.foldl_cons]
      exact ih (stepProcess_inv src m hinv op) (stepProcess_stacksPlaced hinv hplaced op)

theorem schedulerInit_stacksPlaced : StacksPlaced schedulerInit := by
  intro i hi
  exact absurd rfl (Scheduler.mem_alive.1 hi)

end

/-! ## What the calls answer -/

/-- A buffer with at least one byte, in the page that `process_create` maps for the
stack of a process. -/
structure StackBuffer (s : Scheduler) (i : Fin maxProcesses) (ptr len : UInt32) : Prop where
  alive : i ∈ s.alive
  nonempty : 0 < len.toNat
  start : (s.processes i).userStack ≤ ptr.toNat
  fits : ptr.toNat + len.toNat ≤ (s.processes i).userStack + pageSize

/-- The answer -1, without any effect. -/
def rejected (state : StackState) (env : SyscallEnv) : SyscallResult :=
  ⟨some { state with eax := -1 }, env, [], []⟩

/-- The four calls with a pointer reject the buffer. -/
structure RejectsBuffer (ptr len : UInt32) (state : StackState) (env : SyscallEnv) : Prop where
  console : state.ebx = ptr → state.ecx = len →
    sysWrite state env = rejected state env ∧ sysRead state env = rejected state env
  messages : state.ecx = ptr → state.edx = len →
    sysIpcSend state env = rejected state env ∧ sysIpcRecv state env = rejected state env

theorem rejectsBuffer_of_invalid {ptr len : UInt32} (hinvalid : validateUserPointer ptr len = false)
    (state : StackState) (env : SyscallEnv) : RejectsBuffer ptr len state env := by
  constructor
  · rintro rfl rfl
    rw [sysWrite, sysRead, hinvalid]
    exact ⟨rfl, rfl⟩
  · rintro rfl rfl
    rw [sysIpcSend, sysIpcRecv, hinvalid]
    exact ⟨rfl, rfl⟩

/-- In every run, the check refuses each buffer in the stack page of each process
alive, and all the calls with it are rejected. -/
theorem stack_buffers_rejected {σ : Type} (src : PageSource σ) (m : Machine σ)
    (ops : List ProcessOp) {i : Fin maxProcesses} {ptr len : UInt32}
    (hbuffer : StackBuffer (runProcesses src ops (schedulerInit, m)).1 i ptr len) :
    validateUserPointer ptr len = false ∧ ∀ state env, RejectsBuffer ptr len state env := by
  have hplaced := @runProcesses_stacksPlaced _ src _ m schedulerInit_inv schedulerInit_stacksPlaced
    ops
  have hlow := (userStack_bounds (hplaced i hbuffer.alive)).1
  have hinvalid : validateUserPointer ptr len = false := by
    refine Bool.eq_false_of_not_eq_true fun hvalid => ?_
    have hptr := ((validateUserPointer_iff ptr len).1 hvalid).2.1
    have hstart := hbuffer.start
    omega
  exact ⟨hinvalid, rejectsBuffer_of_invalid hinvalid⟩

/-- After boot with 16 MB the stack of the first process is at the upper end. -/
theorem boot_process_stack : ∃ s₀ i,
    bootSystem 0x180000 0x1000000 (fun _ _ => .zero) (fun _ => 0) = some s₀ ∧
      StackBuffer (runProcesses pmmSource [.create (CString.ofBuffer []) 0x100000]
        (schedulerInit, s₀.heap.pages)).1 i 0xBFFFF000 16 := by
  obtain ⟨s₀, s, m, first, hboot, hfirst, halive, -, -, hrun⟩ := boot_process
  have hplaced := @runProcesses_stacksPlaced _ pmmSource _ s₀.heap.pages schedulerInit_inv
    schedulerInit_stacksPlaced [.create (CString.ofBuffer []) 0x100000]
  rw [hrun] at hplaced
  have hmem : first ∈ s.alive := by
    rw [halive]
    exact Finset.mem_singleton_self first
  have hstack : (s.processes first).userStack = 0xBFFFF000 := by
    have hfirstStack := hplaced first hmem
    rw [hfirst] at hfirstStack
    exact hfirstStack
  refine ⟨s₀, first, hboot, ?_⟩
  rw [hrun]
  exact ⟨hmem, by decide, hstack.le, by
    change _ ≤ (s.processes first).userStack + pageSize
    rw [hstack]
    decide⟩

theorem stack_buffers_rejected_boot :
    ∃ s₀, bootSystem 0x180000 0x1000000 (fun _ _ => .zero) (fun _ => 0) = some s₀ ∧
      ∀ state env, RejectsBuffer 0xBFFFF000 16 state env := by
  obtain ⟨s₀, i, hboot, hbuffer⟩ := boot_process_stack
  exact ⟨s₀, hboot, (stack_buffers_rejected pmmSource s₀.heap.pages _ hbuffer).2⟩

/-- The first process writes the first bytes of its stack page, and is rejected. -/
theorem own_stack_not_writable :
    (∃ s₀ i, bootSystem 0x180000 0x1000000 (fun _ _ => .zero) (fun _ => 0) = some s₀ ∧
      StackBuffer (runProcesses pmmSource [.create (CString.ofBuffer []) 0x100000]
        (schedulerInit, s₀.heap.pages)).1 i 0xBFFFF000 16) ∧
    validateUserPointer 0xBFFFF000 16 = false ∧
    ∀ env, syscallHandler ⟨1, 0xBFFFF000, 16, 0, 0x1B⟩ env =
      rejected ⟨1, 0xBFFFF000, 16, 0, 0x1B⟩ env :=
  ⟨boot_process_stack, by decide, fun _ => rfl⟩

end Dosfs
