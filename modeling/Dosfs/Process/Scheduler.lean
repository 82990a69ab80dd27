import Mathlib.Data.List.FinRange
import Dosfs.Libc.String
import Dosfs.Memory.Vmm

/-!
# The process table

A translation of `process/scheduler.c`. Creating a process takes two physical
pages, one for each stack, and maps the second one in the current directory.
The timer gives the processor to the next process of the table in turn.
-/

namespace Dosfs

open Foundation

def maxProcesses : Nat := 32

inductive ProcState
  | unused
  | ready
  | running
  | blocked
  | zombie
  deriving DecidableEq

/-- The saved registers, all zero at first. -/
structure CpuState where
  eax : Nat := 0
  ebx : Nat := 0
  ecx : Nat := 0
  edx : Nat := 0
  esi : Nat := 0
  edi : Nat := 0
  ebp : Nat := 0
  esp : Nat := 0
  eip : Nat := 0
  eflags : Nat := 0
  cs : Nat := 0
  ss : Nat := 0
  ds : Nat := 0
  es : Nat := 0
  fs : Nat := 0
  gs : Nat := 0

/-- A slot of the process table; `name` is its buffer of 32 bytes. -/
structure Process where
  pid : Int := 0
  state : ProcState := .unused
  name : Memory := fun _ => 0
  kernelStack : Nat := 0
  userStack : Nat := 0
  cpuState : CpuState := {}
  timeSlices : Nat := 0
  exitCode : Int := 0

structure Scheduler where
  processes : Fin maxProcesses → Process
  currentProcess : Int
  processCount : Int

/-- The statics at boot, after `scheduler_init`. -/
def schedulerInit : Scheduler where
  processes := fun _ => {}
  currentProcess := -1
  processCount := 0

def Scheduler.store (s : Scheduler) (slot : Fin maxProcesses) (proc : Process) : Scheduler :=
  { s with processes := Function.update s.processes slot proc }

variable {σ : Type}

/-- The page of the kernel stack is given back when there is none for the user
stack. -/
def processCreate (src : PageSource σ) (name : CString) (entry : Nat) (s : Scheduler)
    (m : Machine σ) : Scheduler × Machine σ :=
  if maxProcesses ≤ s.processCount then (s, m)
  else
    match (List.finRange maxProcesses).find? fun i => (s.processes i).state = .unused with
    | none => (s, m)
    | some slot =>
        let proc := { s.processes slot with
          pid := slot + 1
          state := .ready
          timeSlices := 0
          exitCode := 0
          name := (strncpy (s.processes slot).name name 31).storeByte 31 0 }
        let (kstackPage, m) := pmmAllocPage src m
        if kstackPage = 0 then (s.store slot { proc with state := .unused }, m)
        else
          let proc := { proc with
            kernelStack := (kstackPage + pageSize) % 2 ^ 32
            userStack := 0xBFFFF000 - slot * pageSize }
          let (ustackPage, m) := pmmAllocPage src m
          if ustackPage = 0 then
            (s.store slot { proc with state := .unused }, pmmFreePage src kstackPage m)
          else
            let m := vmmMapPage src proc.userStack ustackPage 0x7 m
            let proc := { proc with
              cpuState := {
                eip := entry
                esp := proc.userStack
                ebp := proc.userStack
                cs := 0x1B
                ds := 0x23
                ss := 0x23
                eflags := 0x202 } }
            ({ s.store slot proc with processCount := s.processCount + 1 }, m)

/-- The slot that the code reaches with an index. -/
def slotAt (index : Int) : Fin maxProcesses :=
  ⟨(index % maxProcesses).toNat, by simp only [maxProcesses]; omega⟩

/-- The kernel stack is freed at its physical address, the user stack at the
address it was mapped at. When the last process exits the machine halts in this
state. -/
def processExit (src : PageSource σ) (code : Int) (s : Scheduler) (m : Machine σ) :
    Scheduler × Machine σ :=
  if s.currentProcess < 0 then (s, m)
  else
    let slot := slotAt s.currentProcess
    let proc := s.processes slot
    let (proc, m) :=
      if proc.kernelStack ≠ 0 then
        ({ proc with kernelStack := 0 },
          pmmFreePage src ((proc.kernelStack + 2 ^ 32 - pageSize) % 2 ^ 32) m)
      else (proc, m)
    let (proc, m) :=
      if proc.userStack ≠ 0 then
        ({ proc with userStack := 0 },
          pmmFreePage src (proc.userStack &&& 0xFFFFF000) (vmmUnmapPage src proc.userStack m))
      else (proc, m)
    ({ s.store slot { proc with state := .unused, exitCode := code } with
        processCount := s.processCount - 1
        currentProcess := -1 }, m)

def Process.runnable (proc : Process) : Bool := proc.state = .ready || proc.state = .running

/-- The running process has used up a time slice. -/
def countSlice (s : Scheduler) : Scheduler :=
  let current := s.processes (slotAt s.currentProcess)
  if 0 ≤ s.currentProcess ∧ current.state = .running then
    s.store (slotAt s.currentProcess)
      { current with timeSlices := (current.timeSlices + 1) % 2 ^ 32 }
  else s

def schedulerTick (s : Scheduler) : Scheduler :=
  if s.processCount = 0 then s
  else
    let s := countSlice s
    match (List.range maxProcesses).find? fun i =>
        (s.processes (slotAt (s.currentProcess + 1 + i))).runnable with
    | none => s
    | some i =>
        let next := slotAt (s.currentProcess + 1 + i)
        if next = s.currentProcess then s
        else
          let s :=
            if 0 ≤ s.currentProcess then
              s.store (slotAt s.currentProcess)
                { s.processes (slotAt s.currentProcess) with state := .ready }
            else s
          { s.store next { s.processes next with state := .running } with currentProcess := next }

def processYield (s : Scheduler) : Scheduler :=
  if 0 ≤ s.currentProcess then
    s.store (slotAt s.currentProcess)
      { s.processes (slotAt s.currentProcess) with state := .ready }
  else s

def schedulerCurrent (s : Scheduler) : Option Process :=
  if s.currentProcess < 0 then none else some (s.processes (slotAt s.currentProcess))

def schedulerGet (pid : Int) (s : Scheduler) : Option Process :=
  if pid < 1 ∨ maxProcesses < pid then none
  else if (s.processes (slotAt (pid - 1))).state = .unused then none
  else some (s.processes (slotAt (pid - 1)))

/-- What `process_create` does: nothing, or it fills in an unused slot, which
stays unused when a page is missing. -/
inductive Creates (src : PageSource σ) (s : Scheduler) (m : Machine σ) :
    Scheduler → Machine σ → Prop
  | refused : Creates src s m s m
  | noKernelStack (slot : Fin maxProcesses) (proc : Process)
      (hslot : (s.processes slot).state = .unused) (hproc : proc.state = .unused)
      (hkstack : (pmmAllocPage src m).1 = 0) :
      Creates src s m (s.store slot proc) (pmmAllocPage src m).2
  | noUserStack (slot : Fin maxProcesses) (proc : Process)
      (hslot : (s.processes slot).state = .unused) (hproc : proc.state = .unused)
      (hkstack : (pmmAllocPage src m).1 ≠ 0)
      (hustack : (pmmAllocPage src (pmmAllocPage src m).2).1 = 0) :
      Creates src s m (s.store slot proc)
        (pmmFreePage src (pmmAllocPage src m).1 (pmmAllocPage src (pmmAllocPage src m).2).2)
  | created (slot : Fin maxProcesses) (proc : Process)
      (hslot : (s.processes slot).state = .unused) (hproc : proc.state = .ready)
      (hpid : proc.pid = slot + 1)
      (hkernel : proc.kernelStack = ((pmmAllocPage src m).1 + pageSize) % 2 ^ 32)
      (huser : proc.userStack = 0xBFFFF000 - slot * pageSize)
      (hkstack : (pmmAllocPage src m).1 ≠ 0)
      (hustack : (pmmAllocPage src (pmmAllocPage src m).2).1 ≠ 0) :
      Creates src s m { s.store slot proc with processCount := s.processCount + 1 }
        (vmmMapPage src proc.userStack (pmmAllocPage src (pmmAllocPage src m).2).1 0x7
          (pmmAllocPage src (pmmAllocPage src m).2).2)

theorem processCreate_creates (src : PageSource σ) (name : CString) (entry : Nat) (s : Scheduler)
    (m : Machine σ) :
    Creates src s m (processCreate src name entry s m).1 (processCreate src name entry s m).2 := by
  unfold processCreate
  split
  next => exact .refused
  next =>
    split
    next => exact .refused
    next slot hfind =>
      have hslot : (s.processes slot).state = .unused := by simpa using List.find?_some hfind
      dsimp only
      by_cases hkstack : (pmmAllocPage src m).1 = 0
      · rw [if_pos hkstack]
        exact .noKernelStack slot _ hslot rfl hkstack
      rw [if_neg hkstack]
      by_cases hustack : (pmmAllocPage src (pmmAllocPage src m).2).1 = 0
      · rw [if_pos hustack]
        exact .noUserStack slot _ hslot rfl hkstack hustack
      · rw [if_neg hustack]
        exact .created slot _ hslot rfl rfl rfl rfl hkstack hustack

/-- The pages of the user stacks lie in one table. -/
theorem userStack_bounds {slot : Fin maxProcesses} {stack : Nat}
    (hstack : stack = 0xBFFFF000 - slot * pageSize) : 0xBFFE0000 ≤ stack ∧ stack ≤ 0xBFFFF000 := by
  have hlt := slot.isLt
  simp only [maxProcesses, pageSize] at hlt hstack
  omega

/-- What `process_create` does to the machine: nothing, one or two calls of the
allocator, or a user stack mapped at one of the 32 pages up to `0xBFFFF000`. -/
inductive CreateResult (src : PageSource σ) (m : Machine σ) : Machine σ → Prop
  | refused : CreateResult src m m
  | noKernelStack (hkstack : (pmmAllocPage src m).1 = 0) :
      CreateResult src m (pmmAllocPage src m).2
  | noUserStack (hkstack : (pmmAllocPage src m).1 ≠ 0)
      (hustack : (pmmAllocPage src (pmmAllocPage src m).2).1 = 0) :
      CreateResult src m
        (pmmFreePage src (pmmAllocPage src m).1 (pmmAllocPage src (pmmAllocPage src m).2).2)
  | created (virt : Nat) (hlow : 0xBFFE0000 ≤ virt) (hhigh : virt ≤ 0xBFFFF000)
      (hkstack : (pmmAllocPage src m).1 ≠ 0)
      (hustack : (pmmAllocPage src (pmmAllocPage src m).2).1 ≠ 0) :
      CreateResult src m
        (vmmMapPage src virt (pmmAllocPage src (pmmAllocPage src m).2).1 0x7
          (pmmAllocPage src (pmmAllocPage src m).2).2)

theorem processCreate_result (src : PageSource σ) (name : CString) (entry : Nat) (s : Scheduler)
    (m : Machine σ) : CreateResult src m (processCreate src name entry s m).2 := by
  have hcreates := processCreate_creates src name entry s m
  generalize (processCreate src name entry s m).1 = s' at hcreates
  generalize (processCreate src name entry s m).2 = m' at hcreates ⊢
  cases hcreates with
  | refused => exact .refused
  | noKernelStack slot proc hslot hproc hkstack => exact .noKernelStack hkstack
  | noUserStack slot proc hslot hproc hkstack hustack => exact .noUserStack hkstack hustack
  | created slot proc hslot hproc hpid hkernel huser hkstack hustack =>
      obtain ⟨hlow, hhigh⟩ := userStack_bounds huser
      exact .created _ hlow hhigh hkstack hustack

/-! ## Runs -/

inductive ProcessOp
  | create (name : CString) (entry : Nat)
  | exit (code : Int)
  | yield
  | tick

def stepProcess (src : PageSource σ) (s : Scheduler) (m : Machine σ) :
    ProcessOp → Scheduler × Machine σ
  | .create name entry => processCreate src name entry s m
  | .exit code => processExit src code s m
  | .yield => (processYield s, m)
  | .tick => (schedulerTick s, m)

def runProcesses (src : PageSource σ) (ops : List ProcessOp) (k : Scheduler × Machine σ) :
    Scheduler × Machine σ :=
  ops.foldl (fun k op => stepProcess src k.1 k.2 op) k

end Dosfs
