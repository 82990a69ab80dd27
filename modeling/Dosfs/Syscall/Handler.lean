import Dosfs.Kernel.Supervisor
import Dosfs.Process.Messaging

/-!
# System calls

A translation of `syscall/syscall.c`. The handler checks a pointer against one
constant, 2 GB, and the kernel lies below it. The model records which addresses
a call reads and writes through the pointer it was given.
-/

namespace Dosfs

open Foundation

def userSpaceEnd : UInt32 := 0x80000000

def validateUserPointer (ptr len : UInt32) : Bool :=
  if ptr = 0 ∨ ptr ≥ userSpaceEnd then false
  else if len > 0 ∧ (ptr + len < ptr ∨ ptr + len ≥ userSpaceEnd) then false
  else true

/-- The registers that the handler reads or writes. -/
structure StackState where
  eax : UInt32
  ebx : UInt32
  ecx : UInt32
  edx : UInt32
  cs : UInt32

/-- What the calls work on. `memory` is the memory at virtual addresses, `input`
the characters that `keyboard_getchar` will return. -/
structure SyscallEnv where
  scheduler : Scheduler
  machine : Machine Pmm
  queue : IpcQueue
  memory : Memory
  input : List UInt8

/-- The registers after the call, or `none` while it waits for a key, and the
addresses read and written through the pointer. -/
structure SyscallResult where
  state : Option StackState
  env : SyscallEnv
  reads : List Nat := []
  writes : List Nat := []

/-- The address of `buf[i]`. -/
def byteAddress (buf : UInt32) (i : Nat) : Nat := (buf.toNat + i) % 2 ^ 32

def sysWrite (state : StackState) (env : SyscallEnv) : SyscallResult :=
  if !validateUserPointer state.ebx state.ecx then ⟨some { state with eax := -1 }, env, [], []⟩
  else
    { state := some { state with eax := state.ecx }
      env
      reads := (List.range state.ecx.toNat).map (byteAddress state.ebx) }

/-- The loop of `sys_read`: the index it stops at, if it stops, and what it has
stored. -/
structure ReadLine where
  stop : Option Nat
  input : List UInt8
  memory : Memory
  writes : List Nat

/-- The characters 10 and 8 are newline and backspace. -/
def readLine (buf : UInt32) (limit : Nat) : Nat → Memory → List UInt8 → ReadLine
  | i, memory, [] => ⟨if i < limit then none else some i, [], memory, []⟩
  | i, memory, c :: input =>
      if i < limit then
        if c = 10 then ⟨some i, input, memory, []⟩
        else if c = 8 then readLine buf limit (i - 1) memory input
        else
          let line := readLine buf limit (i + 1) (memory.storeByte (byteAddress buf i) c) input
          { line with writes := byteAddress buf i :: line.writes }
      else ⟨some i, c :: input, memory, []⟩

def sysRead (state : StackState) (env : SyscallEnv) : SyscallResult :=
  if !validateUserPointer state.ebx state.ecx then ⟨some { state with eax := -1 }, env, [], []⟩
  else if state.ecx = 0 then ⟨some { state with eax := 0 }, env, [], []⟩
  else
    let line := readLine state.ebx (state.ecx.toNat - 1) 0 env.memory env.input
    match line.stop with
    | none =>
        { state := none
          env := { env with memory := line.memory, input := line.input }
          writes := line.writes }
    | some i =>
        { state := some { state with eax := UInt32.ofNat i }
          env := { env with
            memory := line.memory.storeByte (byteAddress state.ebx i) 0
            input := line.input }
          writes := line.writes ++ [byteAddress state.ebx i] }

/-- A register as a `pid_t` or an `int`. -/
def signed (register : UInt32) : Int := register.toInt32.toInt

def sysExit (state : StackState) (env : SyscallEnv) : SyscallResult :=
  let (scheduler, machine) := processExit pmmSource (signed state.ebx) env.scheduler env.machine
  { state := some state, env := { env with scheduler, machine } }

def sysGetpid (state : StackState) (env : SyscallEnv) : SyscallResult :=
  { state := some { state with
      eax :=
        match schedulerCurrent env.scheduler with
        | some proc => UInt32.ofInt proc.pid
        | none => -1 }
    env }

/-- The bytes are copied when the message is accepted. -/
def sysIpcSend (state : StackState) (env : SyscallEnv) : SyscallResult :=
  if !validateUserPointer state.ecx state.edx then ⟨some { state with eax := -1 }, env, [], []⟩
  else
    let data : Memory := fun i => env.memory (byteAddress state.ecx i)
    let (ret, queue) :=
      ipcSend (signed state.ebx) data state.edx.toNat env.scheduler env.queue
    { state := some { state with eax := UInt32.ofInt ret }
      env := { env with queue }
      reads :=
        if ret = -1 then []
        else (List.range (min state.edx.toNat ipcMsgSize)).map (byteAddress state.ecx) }

def sysIpcRecv (state : StackState) (env : SyscallEnv) : SyscallResult :=
  if !validateUserPointer state.ecx state.edx then ⟨some { state with eax := -1 }, env, [], []⟩
  else
    let ((ret, bytes), queue) := ipcReceive (signed state.ebx) state.edx.toNat env.queue
    { state := some { state with eax := UInt32.ofInt ret }
      env := { env with queue, memory := env.memory.storeList state.ecx.toNat bytes }
      writes := (List.range bytes.length).map (byteAddress state.ecx) }

def sysSleep (state : StackState) (env : SyscallEnv) : SyscallResult :=
  { state := some state, env := { env with scheduler := processYield env.scheduler } }

def sysMeminfo (state : StackState) (env : SyscallEnv) : SyscallResult :=
  { state := some { state with
      eax := UInt32.ofNat (rustPmmGetFreeCount env.machine.source * pageSize)
      ebx := UInt32.ofNat (rustPmmGetTotalCount env.machine.source * pageSize) }
    env }

/-- A call from a ring other than 3 is refused. -/
def syscallHandler (state : StackState) (env : SyscallEnv) : SyscallResult :=
  if state.cs &&& 3 ≠ 3 then ⟨some { state with eax := -1 }, env, [], []⟩
  else
    match state.eax.toNat with
    | 1 => sysWrite state env
    | 2 => sysRead state env
    | 3 => sysExit state env
    | 6 => sysGetpid state env
    | 7 => sysIpcSend state env
    | 8 => sysIpcRecv state env
    | 9 => sysSleep state env
    | 10 => sysMeminfo state env
    | _ => ⟨some { state with eax := -1 }, env, [], []⟩

/-! ## The addresses a call touches -/

theorem register_eq_zero_iff (register : UInt32) : register = 0 ↔ register.toNat = 0 :=
  ⟨fun h => by rw [h]; rfl, fun h => UInt32.toNat_inj.1 h⟩

theorem validateUserPointer_iff (ptr len : UInt32) :
    validateUserPointer ptr len = true ↔
      0 < ptr.toNat ∧ ptr.toNat < 2 ^ 31 ∧ (len.toNat = 0 ∨ ptr.toNat + len.toNat < 2 ^ 31) := by
  have hptr := ptr.toNat_lt
  have hlen := len.toNat_lt
  have hend : userSpaceEnd.toNat = 2 ^ 31 := rfl
  have hsum : (ptr + len).toNat = (ptr.toNat + len.toNat) % 2 ^ 32 := UInt32.toNat_add ptr len
  simp only [validateUserPointer, ge_iff_le, gt_iff_lt, UInt32.le_iff_toNat_le,
    UInt32.lt_iff_toNat_lt, hend, hsum, register_eq_zero_iff, UInt32.toNat_zero]
  split_ifs <;> simp only [true_iff, false_iff] <;> omega

/-- Some bytes of an accepted range, its first one among them if there are any. -/
structure Touches (ptr len : Nat) (touched : List Nat) : Prop where
  inside : ∀ a ∈ touched, ptr ≤ a ∧ a < ptr + len
  first : touched ≠ [] → ptr ∈ touched

theorem Touches.none (ptr len : Nat) : Touches ptr len [] :=
  ⟨fun _ ha => absurd ha List.not_mem_nil, fun h => absurd rfl h⟩

theorem byteAddress_eq {buf : UInt32} {i : Nat} (hi : buf.toNat + i < 2 ^ 32) :
    byteAddress buf i = buf.toNat + i := Nat.mod_eq_of_lt hi

/-- The first bytes. -/
theorem touches_range {buf : UInt32} {len count : Nat} (hfit : buf.toNat + len < 2 ^ 32)
    (hcount : count ≤ len) :
    Touches buf.toNat len ((List.range count).map (byteAddress buf)) := by
  refine ⟨fun a ha => ?_, fun hsome => ?_⟩
  · obtain ⟨i, hi, rfl⟩ := List.mem_map.1 ha
    rw [List.mem_range] at hi
    rw [byteAddress_eq (by omega)]
    omega
  · have hpos : 0 < count := by
      refine Nat.pos_of_ne_zero fun hzero => hsome ?_
      rw [hzero]
      rfl
    refine List.mem_map.2 ⟨0, List.mem_range.2 hpos, ?_⟩
    exact byteAddress_eq (by omega)

/-- The loop of `sys_read` stores below the limit. -/
theorem readLine_inside {buf : UInt32} {limit : Nat} (hfit : buf.toNat + limit < 2 ^ 32)
    (input : List UInt8) (i : Nat) (memory : Memory) (hi : i ≤ limit) :
    (∀ a ∈ (readLine buf limit i memory input).writes, buf.toNat ≤ a ∧ a < buf.toNat + limit) ∧
      ∀ j, (readLine buf limit i memory input).stop = some j → j ≤ limit := by
  induction input generalizing i memory with
  | nil =>
      simp only [readLine]
      refine ⟨fun a ha => absurd ha List.not_mem_nil, fun j hj => ?_⟩
      split at hj
      next => cases hj
      next =>
        obtain rfl := Option.some.inj hj
        exact hi
  | cons c input ih =>
      rw [readLine]
      split
      next hlt =>
        split
        next =>
          refine ⟨fun a ha => absurd ha List.not_mem_nil, fun j hj => ?_⟩
          obtain rfl := Option.some.inj hj
          exact hi
        next =>
          split
          next => exact ih (i - 1) memory (by omega)
          next =>
            obtain ⟨hwrites, hstop⟩ := ih (i + 1) (memory.storeByte (byteAddress buf i) c) hlt
            refine ⟨fun a ha => ?_, hstop⟩
            rcases List.mem_cons.1 ha with rfl | ha
            · rw [byteAddress_eq (by omega)]
              omega
            · exact hwrites a ha
      next =>
        refine ⟨fun a ha => absurd ha List.not_mem_nil, fun j hj => ?_⟩
        obtain rfl := Option.some.inj hj
        exact hi

/-- From the start of the line, the first store is at the start, and without a
store the loop stops there. -/
theorem readLine_first (buf : UInt32) (limit : Nat) (input : List UInt8) (memory : Memory) :
    ((readLine buf limit 0 memory input).writes ≠ [] →
      byteAddress buf 0 ∈ (readLine buf limit 0 memory input).writes) ∧
    ((readLine buf limit 0 memory input).writes = [] →
      ∀ j, (readLine buf limit 0 memory input).stop = some j → j = 0) := by
  induction input generalizing memory with
  | nil =>
      simp only [readLine]
      refine ⟨fun h => absurd rfl h, fun _ j hj => ?_⟩
      split at hj
      next => cases hj
      next => exact (Option.some.inj hj).symm
  | cons c input ih =>
      rw [readLine]
      split
      next =>
        split
        next => exact ⟨fun h => absurd rfl h, fun _ j hj => (Option.some.inj hj).symm⟩
        next =>
          split
          next => exact ih memory
          next => exact ⟨fun _ => List.mem_cons_self, fun h => absurd h (List.cons_ne_nil _ _)⟩
      next => exact ⟨fun h => absurd rfl h, fun _ j hj => (Option.some.inj hj).symm⟩

/-- The addresses read and written through the pointer. -/
def SyscallResult.touched (result : SyscallResult) : List Nat := result.reads ++ result.writes

/-- The register with the pointer. -/
def StackState.buffer (state : StackState) : UInt32 :=
  if state.eax.toNat = 1 ∨ state.eax.toNat = 2 then state.ebx else state.ecx

/-- A call touches nothing, or bytes of a range that was accepted. -/
def SyscallResult.Accepted (buffer : UInt32) (result : SyscallResult) : Prop :=
  result.touched = [] ∨ ∃ len : UInt32, validateUserPointer buffer len = true ∧
    Touches buffer.toNat len.toNat result.touched

theorem sysWrite_accepted (state : StackState) (env : SyscallEnv) :
    (sysWrite state env).Accepted state.ebx := by
  unfold sysWrite
  split
  next => exact Or.inl rfl
  next hvalid =>
    have hvalid : validateUserPointer state.ebx state.ecx = true := by simpa using hvalid
    refine Or.inr ⟨state.ecx, hvalid, ?_⟩
    have hfit := (validateUserPointer_iff _ _).1 hvalid
    rw [SyscallResult.touched, List.append_nil]
    exact touches_range (by omega) le_rfl

theorem sysRead_accepted (state : StackState) (env : SyscallEnv) :
    (sysRead state env).Accepted state.ebx := by
  unfold sysRead
  split
  next => exact Or.inl rfl
  next hvalid =>
    split
    next => exact Or.inl rfl
    next hlen =>
      have hvalid : validateUserPointer state.ebx state.ecx = true := by simpa using hvalid
      have hfit := (validateUserPointer_iff _ _).1 hvalid
      have hpos : state.ecx.toNat ≠ 0 := (register_eq_zero_iff _).not.1 hlen
      obtain ⟨hinside, hstop⟩ := readLine_inside
        (show state.ebx.toNat + (state.ecx.toNat - 1) < 2 ^ 32 by omega) env.input 0 env.memory
        (Nat.zero_le _)
      obtain ⟨hfirst, hnone⟩ :=
        readLine_first state.ebx (state.ecx.toNat - 1) env.input env.memory
      have hstart : byteAddress state.ebx 0 = state.ebx.toNat := byteAddress_eq (by omega)
      rw [hstart] at hfirst
      refine Or.inr ⟨state.ecx, hvalid, ?_⟩
      dsimp only
      generalize readLine state.ebx (state.ecx.toNat - 1) 0 env.memory env.input = line
        at hinside hstop hfirst hnone ⊢
      cases hend : line.stop with
      | none =>
          refine ⟨fun a ha => ?_, hfirst⟩
          have hrange := hinside a ha
          omega
      | some i =>
          have hi := hstop i hend
          refine ⟨fun a ha => ?_, fun _ => ?_⟩
          · rcases List.mem_append.1 (show a ∈ line.writes ++ [byteAddress state.ebx i] from ha)
              with ha | ha
            · have hrange := hinside a ha
              omega
            · rw [List.mem_singleton.1 ha, byteAddress_eq (by omega)]
              omega
          · change state.ebx.toNat ∈ line.writes ++ [byteAddress state.ebx i]
            by_cases hwrites : line.writes = []
            · rw [hnone hwrites i hend, hstart]
              exact List.mem_append_right _ List.mem_cons_self
            · exact List.mem_append_left _ (hfirst hwrites)

theorem sysIpcSend_accepted (state : StackState) (env : SyscallEnv) :
    (sysIpcSend state env).Accepted state.ecx := by
  unfold sysIpcSend
  split
  next => exact Or.inl rfl
  next hvalid =>
    have hvalid : validateUserPointer state.ecx state.edx = true := by simpa using hvalid
    have hfit := (validateUserPointer_iff _ _).1 hvalid
    dsimp only [SyscallResult.Accepted, SyscallResult.touched]
    split
    next => exact Or.inl rfl
    next =>
      refine Or.inr ⟨state.edx, hvalid, ?_⟩
      rw [List.append_nil]
      exact touches_range (by omega) (Nat.min_le_left _ _)

/-- No more bytes are received than there is room for. -/
theorem rustIpcReceive_length (sender : Int) (maxLen : Nat) (q : IpcQueue) :
    (rustIpcReceive sender maxLen q).1.2.length ≤ maxLen := by
  unfold rustIpcReceive
  dsimp only
  split_ifs
  · exact Nat.zero_le _
  · exact Nat.zero_le _
  · exact Nat.zero_le _
  · rw [Memory.loadList_length]
  · rw [Memory.loadList_length]
    omega

theorem sysIpcRecv_accepted (state : StackState) (env : SyscallEnv) :
    (sysIpcRecv state env).Accepted state.ecx := by
  unfold sysIpcRecv
  split
  next => exact Or.inl rfl
  next hvalid =>
    have hvalid : validateUserPointer state.ecx state.edx = true := by simpa using hvalid
    have hfit := (validateUserPointer_iff _ _).1 hvalid
    have hlength := rustIpcReceive_length (signed state.ebx) state.edx.toNat env.queue
    exact Or.inr ⟨state.edx, hvalid, touches_range (by omega) hlength⟩

theorem syscallHandler_accepted (state : StackState) (env : SyscallEnv) :
    (syscallHandler state env).Accepted state.buffer := by
  unfold syscallHandler
  split
  next => exact Or.inl rfl
  next =>
    split
    next heax =>
      rw [StackState.buffer, if_pos (Or.inl heax)]
      exact sysWrite_accepted state env
    next heax =>
      rw [StackState.buffer, if_pos (Or.inr heax)]
      exact sysRead_accepted state env
    next => exact Or.inl rfl
    next => exact Or.inl rfl
    next heax =>
      rw [StackState.buffer, if_neg (by omega)]
      exact sysIpcSend_accepted state env
    next heax =>
      rw [StackState.buffer, if_neg (by omega)]
      exact sysIpcRecv_accepted state env
    next => exact Or.inl rfl
    next => exact Or.inl rfl
    next => exact Or.inl rfl

/-! ## Calls that touch nothing -/

/-- What the registers, the keys and the queue are when a call touches no byte: it is refused, it
is asked for no bytes, or it finds none to copy. A call that reads a line stores at least the
final NUL, unless it still waits and has seen no key but backspace. -/
def TouchesNothing (state : StackState) (env : SyscallEnv) : Prop :=
  state.cs &&& 3 ≠ 3 ∨
    match state.eax.toNat with
    | 1 => validateUserPointer state.ebx state.ecx = false ∨ state.ecx = 0
    | 2 => validateUserPointer state.ebx state.ecx = false ∨ state.ecx = 0 ∨
        (state.ecx ≠ 1 ∧ ∀ c ∈ env.input, c = 8)
    | 7 => validateUserPointer state.ecx state.edx = false ∨ state.edx = 0 ∨
        schedulerGet (signed state.ebx) env.scheduler = none ∨
        (env.queue.tail + 1) % ipcMaxMsgs = env.queue.head
    | 8 => validateUserPointer state.ecx state.edx = false ∨ state.edx = 0 ∨
        ∀ msg, env.queue.returned (signed state.ebx) = some msg → msg.bytes = []
    | _ => True

theorem range_addresses_eq_nil_iff (buf : UInt32) (count : Nat) :
    (List.range count).map (byteAddress buf) = [] ↔ count = 0 := by
  rw [List.map_eq_nil_iff, List.range_eq_nil]

theorem sysWrite_nothing_iff (state : StackState) (env : SyscallEnv) :
    (sysWrite state env).touched = [] ↔
      validateUserPointer state.ebx state.ecx = false ∨ state.ecx = 0 := by
  unfold sysWrite
  cases hvalid : validateUserPointer state.ebx state.ecx with
  | false => exact iff_of_true rfl (.inl rfl)
  | true =>
      rw [Bool.not_true, if_neg Bool.false_ne_true, SyscallResult.touched, List.append_nil,
        range_addresses_eq_nil_iff, or_iff_right Bool.false_ne_true.symm,
        register_eq_zero_iff]

/-- The loop of `sys_read` still waits and has stored nothing. -/
theorem readLine_idle_iff (buf : UInt32) (limit : Nat) (input : List UInt8) (memory : Memory) :
    ((readLine buf limit 0 memory input).writes = [] ∧
        (readLine buf limit 0 memory input).stop = none) ↔
      0 < limit ∧ ∀ c ∈ input, c = 8 := by
  induction input with
  | nil =>
      simp [readLine]
  | cons c input ih =>
      rw [readLine, List.forall_mem_cons]
      split
      next hlt =>
        split
        next hline =>
          subst hline
          exact iff_of_false (fun h => nomatch h.2) fun h => absurd h.2.1 (by decide)
        next =>
          split
          next hback =>
            rw [Nat.zero_sub, ih, and_iff_right hback]
          next hback =>
            exact iff_of_false (fun h => List.cons_ne_nil _ _ h.1) fun h => hback h.2.1
      next hlt => exact iff_of_false (fun h => nomatch h.2) fun h => hlt h.1

theorem sysRead_nothing_iff (state : StackState) (env : SyscallEnv) :
    (sysRead state env).touched = [] ↔
      validateUserPointer state.ebx state.ecx = false ∨ state.ecx = 0 ∨
        (state.ecx ≠ 1 ∧ ∀ c ∈ env.input, c = 8) := by
  unfold sysRead
  cases hvalid : validateUserPointer state.ebx state.ecx with
  | false => exact iff_of_true rfl (.inl rfl)
  | true =>
      rw [Bool.not_true, if_neg Bool.false_ne_true, or_iff_right Bool.false_ne_true.symm]
      by_cases hnone : state.ecx = 0
      · rw [if_pos hnone]
        exact iff_of_true rfl (.inl hnone)
      · have hlimit : 0 < state.ecx.toNat - 1 ↔ state.ecx ≠ 1 := by
          have hone : state.ecx = 1 ↔ state.ecx.toNat = 1 :=
            ⟨fun h => by rw [h]; rfl, fun h => UInt32.toNat_inj.1 h⟩
          rw [register_eq_zero_iff] at hnone
          rw [Ne, hone]
          omega
        rw [if_neg hnone, or_iff_right hnone, ← hlimit,
          ← readLine_idle_iff state.ebx _ _ env.memory]
        dsimp only
        generalize readLine state.ebx (state.ecx.toNat - 1) 0 env.memory env.input = line
        cases line.stop with
        | none => exact (and_iff_left rfl).symm
        | some i =>
            refine iff_of_false (fun h => ?_) fun h => nomatch h.2
            exact List.append_ne_nil_of_right_ne_nil _ (List.cons_ne_nil _ _) h

theorem ipcSend_refused_iff (receiver : Int) (data : Memory) (length : Nat) (s : Scheduler)
    (q : IpcQueue) :
    (ipcSend receiver data length s q).1 = -1 ↔
      schedulerGet receiver s = none ∨ (q.tail + 1) % ipcMaxMsgs = q.head := by
  unfold ipcSend
  cases hget : schedulerGet receiver s with
  | none => exact iff_of_true rfl (.inl rfl)
  | some proc =>
      have hrange : ¬(receiver < 1 ∨ receiver > 32) := by
        intro hout
        rw [schedulerGet, if_pos (show receiver < 1 ∨ (maxProcesses : Int) < receiver from hout)]
          at hget
        cases hget
      rw [or_iff_right (Option.some_ne_none proc), rustIpcSend]
      by_cases hfull : (q.tail + 1) % ipcMaxMsgs = q.head
      · rw [if_pos hfull]
        exact iff_of_true rfl hfull
      · rw [if_neg hfull, if_neg hrange]
        refine iff_of_false (fun h => ?_) hfull
        change ((_ : Nat) : Int) = -1 at h
        omega

theorem sysIpcSend_nothing_iff (state : StackState) (env : SyscallEnv) :
    (sysIpcSend state env).touched = [] ↔
      validateUserPointer state.ecx state.edx = false ∨ state.edx = 0 ∨
        schedulerGet (signed state.ebx) env.scheduler = none ∨
        (env.queue.tail + 1) % ipcMaxMsgs = env.queue.head := by
  unfold sysIpcSend
  cases hvalid : validateUserPointer state.ecx state.edx with
  | false => exact iff_of_true rfl (.inl rfl)
  | true =>
      rw [Bool.not_true, if_neg Bool.false_ne_true, or_iff_right Bool.false_ne_true.symm,
        ← ipcSend_refused_iff _ (fun i => env.memory (byteAddress state.ecx i)) state.edx.toNat]
      dsimp only [SyscallResult.touched]
      rw [List.append_nil]
      split
      next hrefused => exact iff_of_true rfl (.inr hrefused)
      next hrefused =>
        rw [range_addresses_eq_nil_iff, or_iff_left hrefused, register_eq_zero_iff, ipcMsgSize]
        omega

/-- What is copied is empty when there is no room or no message with bytes. -/
theorem rustIpcReceive_nothing_iff (sender : Int) (maxLen : Nat) (q : IpcQueue) :
    (rustIpcReceive sender maxLen q).1.2 = [] ↔
      maxLen = 0 ∨ ∀ msg, q.returned sender = some msg → msg.bytes = [] := by
  unfold rustIpcReceive IpcQueue.returned
  dsimp only
  split
  next hempty =>
    rw [if_pos (Or.inl hempty)]
    exact iff_of_true rfl (.inr fun _ h => nomatch h)
  next hempty =>
    split
    next hused =>
      rw [if_pos (Or.inr (Or.inl (by simpa using hused)))]
      exact iff_of_true rfl (.inr fun _ h => nomatch h)
    next hused =>
      split
      next hsender =>
        rw [if_pos (Or.inr (Or.inr hsender))]
        exact iff_of_true rfl (.inr fun _ h => nomatch h)
      next hsender =>
        have hthere : ¬(q.messages q.head).used = false := by simpa using hused
        rw [if_neg (not_or.2 ⟨hempty, not_or.2 ⟨hthere, hsender⟩⟩)]
        have hbytes : (∀ msg, some (q.messages q.head).view = some msg → msg.bytes = []) ↔
            (q.messages q.head).length = 0 := by
          have hlength : (q.messages q.head).view.bytes.length = (q.messages q.head).length :=
            Memory.loadList_length
          rw [← hlength, List.length_eq_zero_iff]
          exact ⟨fun h => h _ rfl, fun h msg hmsg => Option.some.inj hmsg ▸ h⟩
        rw [hbytes, ← List.length_eq_zero_iff, Memory.loadList_length]
        split <;> omega

theorem sysIpcRecv_nothing_iff (state : StackState) (env : SyscallEnv) :
    (sysIpcRecv state env).touched = [] ↔
      validateUserPointer state.ecx state.edx = false ∨ state.edx = 0 ∨
        ∀ msg, env.queue.returned (signed state.ebx) = some msg → msg.bytes = [] := by
  unfold sysIpcRecv
  cases hvalid : validateUserPointer state.ecx state.edx with
  | false => exact iff_of_true rfl (.inl rfl)
  | true =>
      rw [Bool.not_true, if_neg Bool.false_ne_true, or_iff_right Bool.false_ne_true.symm,
        register_eq_zero_iff, ← rustIpcReceive_nothing_iff]
      exact (range_addresses_eq_nil_iff _ _).trans List.length_eq_zero_iff

theorem syscallHandler_nothing_iff (state : StackState) (env : SyscallEnv) :
    (syscallHandler state env).touched = [] ↔ TouchesNothing state env := by
  unfold syscallHandler TouchesNothing
  split
  next hring => exact iff_of_true rfl (.inl hring)
  next hring =>
    rw [or_iff_right hring]
    generalize state.eax.toNat = number
    split
    next => exact sysWrite_nothing_iff state env
    next => exact sysRead_nothing_iff state env
    next => exact iff_of_true rfl trivial
    next => exact iff_of_true rfl trivial
    next => exact sysIpcSend_nothing_iff state env
    next => exact sysIpcRecv_nothing_iff state env
    next => exact iff_of_true rfl trivial
    next => exact iff_of_true rfl trivial
    next =>
      refine iff_of_true rfl ?_
      split
      all_goals trivial

/-! ## The kernel's memory -/

/-- A byte of the kernel image, of the directory or one of its tables, or of the
heap. -/
def KernelByte (kernelEnd : Nat) (s : System) (a : Nat) : Prop :=
  (0x100000 ≤ a ∧ a < kernelEnd) ∨
    (a / pageSize = s.heap.pages.currentDirectory / pageSize ∨
      ∃ i, (s.heap.pages.entry s.heap.pages.currentDirectory i).present = true ∧
        a / pageSize = (s.heap.pages.entry s.heap.pages.currentDirectory i).frame) ∨
    (heapStart ≤ a ∧ a < s.heap.heapCurrent)

/-- An accepted range, and a call, spare the pages of the kernel exactly when they
touch nothing or start at `limit` or above. -/
structure SparesFrom (limit : Nat) (m : Machine Pmm) : Prop where
  range : ∀ ptr len : UInt32, validateUserPointer ptr len = true →
    ((∀ a, ptr.toNat ≤ a → a < ptr.toNat + len.toNat → ¬ SupervisorPage m (a / pageSize)) ↔
      len = 0 ∨ limit ≤ ptr.toNat)
  call : ∀ state env, (∀ a ∈ (syscallHandler state env).touched,
    ¬ SupervisorPage m (a / pageSize)) ↔
      TouchesNothing state env ∨ limit ≤ state.buffer.toNat

theorem LowTables.spares {m : Machine Pmm} {count : Nat}
    (hlow : LowTables count m m.currentDirectory) :
    SparesFrom (count * 1024 * pageSize) m := by
  have hpage {a : Nat} (ha : a < 2 ^ 31) :
      SupervisorPage m (a / pageSize) ↔ a < count * 1024 * pageSize := by
    rw [hlow.supervisor_iff (by simp only [pageSize]; omega), Nat.div_lt_iff_lt_mul (by decide)]
  constructor
  · intro ptr len hvalid
    obtain ⟨-, hptr, hfit⟩ := (validateUserPointer_iff ptr len).1 hvalid
    rw [register_eq_zero_iff]
    constructor
    · intro hspared
      by_contra hbad
      have hfirst := hspared ptr.toNat le_rfl (by omega)
      rw [hpage hptr] at hfirst
      omega
    · intro hcond a hlow hhigh
      rw [hpage (by omega)]
      omega
  · intro state env
    rw [← syscallHandler_nothing_iff]
    rcases syscallHandler_accepted state env with hnone | ⟨len, hvalid, htouches⟩
    · rw [hnone]
      exact iff_of_true (fun a ha => absurd ha List.not_mem_nil) (Or.inl rfl)
    · obtain ⟨-, hptr, hfit⟩ := (validateUserPointer_iff _ len).1 hvalid
      constructor
      · intro hspared
        by_cases hsome : (syscallHandler state env).touched = []
        · exact Or.inl hsome
        · have hfirst := hspared _ (htouches.first hsome)
          rw [hpage hptr] at hfirst
          exact Or.inr (Nat.le_of_not_lt hfirst)
      · rintro (hnone | hlimit) a ha
        · rw [hnone] at ha
          exact absurd ha List.not_mem_nil
        · have hinside := htouches.inside a ha
          rw [hpage (by omega)]
          omega

/-- When all tables were made, the kernel's bytes lie in pages of the kernel. -/
theorem KernelByte.supervisor {kernelEnd totalMemory a : Nat} {s : System}
    (hkernel : 2 ^ 20 ≤ kernelEnd ∧ kernelEnd ≤ 2 ^ 28) (htotal : totalMemory ≤ 0x1000000)
    (hall : lowTables (rustPmmInit kernelEnd totalMemory) = 16)
    (hinv : SupervisorInv 16 s.heap.heapCurrent s.heap.pages) (hbyte : KernelByte kernelEnd s a) :
    SupervisorPage s.heap.pages (a / pageSize) := by
  have hmarked {page : Nat} (hpage : page ∈ s.heap.pages.source.marked) : page < 4096 :=
    (Pmm.mem_marked.1 hpage).1.trans_le hinv.system.total
  have hlt : a / pageSize < 0x4000 := by
    rcases hbyte with ⟨-, hend⟩ | (hdir | ⟨i, hpresent, hframe⟩) | ⟨-, hend⟩
    · obtain ⟨page, hpage⟩ : (rustPmmInit kernelEnd totalMemory).clear.Nonempty := by
        rw [← Finset.card_pos]
        simp only [lowTables] at hall
        omega
      obtain ⟨hlt, hfree⟩ := (mem_clear_rustPmmInit hkernel).1 hpage
      have hpages := @rustPmmInit_totalPages kernelEnd totalMemory htotal
      simp only [Pmm.Reserved, not_or, pageSize] at hfree ⊢
      omega
    · rw [hdir]
      exact (hmarked hinv.system.space.inv.dirTaken).trans (by decide)
    · rw [hframe]
      exact (hmarked (hinv.system.space.inv.tableTaken i hpresent)).trans (by decide)
    · have hbudget := hinv.system.budget
      simp only [heapStart, pageSize] at hbudget ⊢
      omega
  rw [hinv.low.supervisor_iff (by omega)]
  omega

/-- In every run after boot, the calls spare the kernel's pages exactly from the
end of the tables of `vmm_init` on. When it has made all of them, that is 64 MB,
and the image, the tables and the heap lie in those pages. -/
theorem syscalls_spare_kernel_iff {kernelEnd totalMemory : Nat} {frames : Nat → Nat → PageEntry}
    {mem : Memory} {s₀ s : System} {ops : List SystemOp} {rs : List Nat}
    (hkernel : 2 ^ 20 ≤ kernelEnd ∧ kernelEnd ≤ 2 ^ 28) (htotal : totalMemory ≤ 0x1000000)
    (hboot : bootSystem kernelEnd totalMemory frames mem = some s₀)
    (hrun : runAll stepSystem ops s₀ = some (rs, s)) :
    SparesFrom (lowTables (rustPmmInit kernelEnd totalMemory) * 1024 * pageSize) s.heap.pages ∧
      (lowTables (rustPmmInit kernelEnd totalMemory) = 16 → ∀ a, KernelByte kernelEnd s a →
        SupervisorPage s.heap.pages (a / pageSize)) := by
  have hinv := runSystem_supervisorInv hkernel htotal hboot hrun
  refine ⟨hinv.low.spares, fun hall a hbyte => ?_⟩
  rw [hall] at hinv
  exact hbyte.supervisor hkernel htotal hall hinv

theorem syscalls_spare_kernel_iff_boot :
    ∃ s₀, bootSystem 0x180000 0x1000000 (fun _ _ => .zero) (fun _ => 0) = some s₀ ∧
      SparesFrom 0x4000000 s₀.heap.pages ∧ ∀ a, KernelByte 0x180000 s₀ a →
        SupervisorPage s₀.heap.pages (a / pageSize) := by
  obtain ⟨s₀, hboot, -⟩ := boot_heap
  have hrun : runAll stepSystem [] s₀ = some ([], s₀) := rfl
  obtain ⟨hspares, hkernel⟩ :=
    syscalls_spare_kernel_iff ⟨by decide, by decide⟩ (by decide) hboot hrun
  rw [lowTables_sixteen_megabytes] at hspares
  exact ⟨s₀, hboot, hspares, hkernel lowTables_sixteen_megabytes⟩

/-- A write call from ring 3 with a pointer to the start of the kernel image is
accepted and reads the image. -/
theorem write_reads_kernel :
    validateUserPointer 0x100000 1 = true ∧
    ∃ s₀, bootSystem 0x180000 0x1000000 (fun _ _ => .zero) (fun _ => 0) = some s₀ ∧
      ∀ queue memory input, ∃ a ∈ (syscallHandler ⟨1, 0x100000, 1, 0, 0x1B⟩
          ⟨s₀.scheduler, s₀.heap.pages, queue, memory, input⟩).reads,
        KernelByte 0x180000 s₀ a ∧ SupervisorPage s₀.heap.pages (a / pageSize) := by
  obtain ⟨s₀, hboot, -⟩ := boot_heap
  have hrun : runAll stepSystem [] s₀ = some ([], s₀) := rfl
  have hinv := runSystem_supervisorInv ⟨by decide, by decide⟩ (by decide) hboot hrun
  rw [lowTables_sixteen_megabytes] at hinv
  refine ⟨by decide, s₀, hboot, fun queue memory input => ⟨0x100000, ?_, ?_, ?_⟩⟩
  · exact List.mem_cons_self
  · exact Or.inl ⟨by decide, by decide⟩
  · exact (hinv.low.supervisor_iff (by decide)).2 (by decide)

end Dosfs
