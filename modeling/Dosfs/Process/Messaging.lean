import Dosfs.Process.Ipc
import Dosfs.Process.StackPages

/-!
# Messages and their addressees

A translation of `process/ipc.c`, with the calls interleaved with those of the
scheduler. A message is stored with its receiver, but a receive call takes the
oldest message whoever makes it. So a process reads its own messages only as
long as the oldest one happens to be for it.
-/

namespace Dosfs

open Foundation

/-- The sender is the current process, or zero. -/
def ipcSend (receiver : Int) (data : Memory) (length : Nat) (s : Scheduler) (q : IpcQueue) :
    Int × IpcQueue :=
  match schedulerGet receiver s with
  | none => (-1, q)
  | some _ =>
      let sender :=
        match schedulerCurrent s with
        | some proc => proc.pid
        | none => 0
      rustIpcSend sender receiver data length q

def ipcReceive (sender : Int) (maxLen : Nat) (q : IpcQueue) : (Int × List UInt8) × IpcQueue :=
  rustIpcReceive sender maxLen q

/-- The message that `rust_ipc_receive` copies from, if there is one. -/
def IpcQueue.returned (sender : Int) (q : IpcQueue) : Option Message :=
  let msg := q.messages q.head
  if q.head = q.tail ∨ msg.used = false ∨ (sender ≠ 0 ∧ msg.sender ≠ sender) then none
  else some msg.view

/-- What a receive call with room for `maxLen` bytes answers when it returns the message, if any. -/
def receiveAnswer (maxLen : Nat) : Option Message → Int × List UInt8
  | none => (0, [])
  | some msg => ((min msg.bytes.length maxLen : Nat), msg.bytes.take maxLen)

/-- A message returned to a caller, with the pid of the process that was current. -/
structure Delivery where
  reader : Option Int
  message : Message

/-- The scheduler, the machine and the queue. The messages accepted and those
returned, oldest first, are a history that no function reads. -/
structure Messaging (σ : Type) where
  scheduler : Scheduler
  machine : Machine σ
  queue : IpcQueue
  sent : List Message := []
  delivered : List Delivery := []

inductive MessagingOp
  | process (op : ProcessOp)
  | send (receiver : Int) (data : Memory) (length : Nat)
  | receive (sender : Int) (maxLen : Nat)

variable {σ : Type}

def currentPid (s : Scheduler) : Option Int := (schedulerCurrent s).map Process.pid

def stepMessaging (src : PageSource σ) :
    MessagingOp → Messaging σ → Option ((Int × List UInt8) × Messaging σ)
  | .process op, k =>
      let (scheduler, machine) := stepProcess src k.scheduler k.machine op
      some ((0, []), { k with scheduler, machine })
  | .send receiver data length, k =>
      let (ret, queue) := ipcSend receiver data length k.scheduler k.queue
      let msg := ⟨(currentPid k.scheduler).getD 0, receiver, data.loadList 0 (min length 256)⟩
      some ((ret, []), { k with
        queue
        sent := if ret = -1 then k.sent else k.sent ++ [msg] })
  | .receive sender maxLen, k =>
      let (answer, queue) := ipcReceive sender maxLen k.queue
      some (answer, { k with
        queue
        delivered :=
          match k.queue.returned sender with
          | some message => k.delivered ++ [⟨currentPid k.scheduler, message⟩]
          | none => k.delivered })

/-- Every message returned while a process was current was sent to it. -/
def Messaging.Addressed (k : Messaging σ) : Prop :=
  ∀ d ∈ k.delivered, ∀ pid, d.reader = some pid → d.message.receiver = pid

/-- A receive call of a process finds no message that matches, or one for it. -/
def ReadsOwn : MessagingOp → Messaging σ → Prop
  | .receive sender _, k => ∀ msg, k.queue.view.head? = some msg →
      (sender = 0 ∨ msg.sender = sender) → ∀ pid, currentPid k.scheduler = some pid →
        msg.receiver = pid
  | _, _ => True

/-! ## Steps -/

/-- The messages accepted are those returned and those still in the ring. -/
structure MessagingInv (k : Messaging σ) : Prop where
  queue : IpcInv k.queue
  fifo : k.sent = k.delivered.map Delivery.message ++ k.queue.view

variable {k : Messaging σ} {q : IpcQueue}

theorem schedulerCurrent_pid (s : Scheduler) :
    (match schedulerCurrent s with
      | some proc => proc.pid
      | none => 0) = (currentPid s).getD 0 := by
  unfold currentPid
  cases schedulerCurrent s <;> rfl

/-- A message is accepted at the end of the queue, or nothing changes. -/
theorem ipcSend_view (hinv : IpcInv q) (receiver : Int) (data : Memory) (length : Nat)
    (s : Scheduler) :
    IpcInv (ipcSend receiver data length s q).2 ∧
      (ipcSend receiver data length s q).2.view =
        if (ipcSend receiver data length s q).1 = -1 then q.view
        else q.view ++ [⟨(currentPid s).getD 0, receiver, data.loadList 0 (min length 256)⟩] := by
  unfold ipcSend
  split
  next => exact ⟨hinv, (if_pos rfl).symm⟩
  next =>
    dsimp only
    rw [schedulerCurrent_pid]
    obtain ⟨answer, q', hrefines⟩ :=
      rustIpcSend_refines hinv ((currentPid s).getD 0) receiver data length
    have hstep : some (((rustIpcSend ((currentPid s).getD 0) receiver data length q).1, []),
        (rustIpcSend ((currentPid s).getD 0) receiver data length q).2) = some (answer, q') :=
      hrefines.step
    obtain ⟨hanswer, rfl⟩ := Prod.mk.inj (Option.some.inj hstep)
    refine ⟨hrefines.inv, ?_⟩
    have hfifo := hrefines.fifo
    rw [← hanswer, stepFifo] at hfifo
    split at hfifo
    next =>
      obtain ⟨hret, hview⟩ := Prod.mk.inj (Option.some.inj hfifo)
      rw [← (Prod.mk.inj hret).1, if_neg (by omega), hview]
    next =>
      obtain ⟨hret, hview⟩ := Prod.mk.inj (Option.some.inj hfifo)
      rw [← (Prod.mk.inj hret).1, if_pos rfl, hview]

/-- The message returned is the oldest one, if it matches. -/
theorem IpcInv.returned_eq (hinv : IpcInv q) (sender : Int) :
    q.returned sender = q.view.head?.filter fun msg => sender = 0 ∨ msg.sender = sender := by
  unfold IpcQueue.returned
  dsimp only
  by_cases hempty : q.head = q.tail
  · have hview : q.view = [] := (Ring.contents_eq_nil_iff hinv.head hinv.tail).2 hempty
    rw [if_pos (Or.inl hempty), hview]
    rfl
  have hused : ¬ (q.messages q.head).used = false := fun h => hinv.not_recovers ⟨hempty, h⟩
  rw [hinv.view_pop hempty, List.head?_cons, Option.filter_some]
  by_cases hsender : sender = 0 ∨ (q.messages q.head).sender = sender
  · rw [if_neg (by tauto)]
    exact (if_pos (decide_eq_true hsender)).symm
  · rw [if_pos (by tauto)]
    exact (if_neg fun h => hsender (of_decide_eq_true h)).symm

/-- The call answers with the message that is returned, which leaves the queue. -/
theorem ipcReceive_view (hinv : IpcInv q) (sender : Int) (maxLen : Nat) :
    IpcInv (ipcReceive sender maxLen q).2 ∧
      q.view = (q.returned sender).toList ++ (ipcReceive sender maxLen q).2.view ∧
      (ipcReceive sender maxLen q).1 = receiveAnswer maxLen (q.returned sender) := by
  obtain ⟨answer, q', hrefines⟩ := rustIpcReceive_refines hinv sender maxLen
  have hstep : rustIpcReceive sender maxLen q = (answer, q') := Option.some.inj hrefines.step
  have hfifo := hrefines.fifo
  rw [ipcReceive, hstep, hinv.returned_eq]
  refine ⟨hrefines.inv, ?_⟩
  cases hview : q.view with
  | nil =>
      rw [hview, stepFifo] at hfifo
      obtain ⟨hanswer, hview'⟩ := Prod.mk.inj (Option.some.inj hfifo)
      exact ⟨hview', hanswer.symm⟩
  | cons msg msgs =>
      rw [hview, stepFifo] at hfifo
      rw [List.head?_cons, Option.filter_some]
      split at hfifo
      next hmatch =>
        obtain ⟨hanswer, hview'⟩ := Prod.mk.inj (Option.some.inj hfifo)
        rw [if_pos (by simpa using hmatch), ← hview']
        exact ⟨rfl, hanswer.symm⟩
      next hmatch =>
        obtain ⟨hanswer, hview'⟩ := Prod.mk.inj (Option.some.inj hfifo)
        rw [if_neg (by simpa using hmatch), ← hview']
        exact ⟨rfl, hanswer.symm⟩

theorem stepMessaging_step (src : PageSource σ) (op : MessagingOp) (hinv : MessagingInv k)
    {answer : Int × List UInt8} {k' : Messaging σ}
    (hstep : stepMessaging src op k = some (answer, k')) :
    MessagingInv k' ∧ (k'.Addressed ↔ k.Addressed ∧ ReadsOwn op k) := by
  cases op with
  | process op =>
      simp only [stepMessaging, Option.some.injEq, Prod.mk.injEq] at hstep
      obtain ⟨-, rfl⟩ := hstep
      exact ⟨⟨hinv.queue, hinv.fifo⟩, (and_iff_left trivial).symm⟩
  | send receiver data length =>
      simp only [stepMessaging, Option.some.injEq, Prod.mk.injEq] at hstep
      obtain ⟨-, rfl⟩ := hstep
      obtain ⟨hqueue, hview⟩ := ipcSend_view hinv.queue receiver data length k.scheduler
      refine ⟨⟨hqueue, ?_⟩, (and_iff_left trivial).symm⟩
      dsimp only
      rw [hview]
      split
      next => exact hinv.fifo
      next => rw [hinv.fifo, List.append_assoc]
  | receive sender maxLen =>
      simp only [stepMessaging, Option.some.injEq, Prod.mk.injEq] at hstep
      obtain ⟨-, rfl⟩ := hstep
      obtain ⟨hqueue, hview, -⟩ := ipcReceive_view hinv.queue sender maxLen
      have hfifo := hinv.fifo
      have hreturned := hinv.queue.returned_eq sender
      rw [hview] at hfifo
      unfold ReadsOwn
      dsimp only
      -- Only a receive that returns the head of the queue adds to what was delivered.
      cases hmessage : k.queue.returned sender with
      | none =>
          rw [hmessage] at hfifo hreturned
          refine ⟨⟨hqueue, hfifo⟩, (and_iff_left fun msg hhead hmatch => ?_).symm⟩
          rw [hhead, Option.filter_some, if_pos (by simpa using hmatch)] at hreturned
          exact absurd hreturned (by simp)
      | some message =>
          rw [hmessage] at hfifo hreturned
          obtain ⟨hhead, hmatch⟩ := Option.filter_eq_some_iff.1 hreturned.symm
          refine ⟨⟨hqueue, ?_⟩, ?_⟩
          · dsimp only
            rw [hfifo, List.map_append, List.append_assoc]
            rfl
          · rw [hhead]
            simp only [Messaging.Addressed, List.forall_mem_append, List.forall_mem_singleton]
            refine and_congr_right fun _ => ⟨?_, fun hown => ?_⟩
            · rintro hown msg hmsg - 
              rw [← Option.some.inj hmsg]
              exact hown
            · exact hown message rfl (by simpa using hmatch)

/-! ## Runs -/

/-- The state after `scheduler_init` and `ipc_init`. -/
def messagingInit (m : Machine σ) (q : IpcQueue) : Messaging σ where
  scheduler := schedulerInit
  machine := m
  queue := rustIpcInit q

theorem messagingInit_inv (m : Machine σ) (q : IpcQueue) : MessagingInv (messagingInit m q) := by
  refine ⟨rustIpcInit_inv q, ?_⟩
  change [] = [] ++ (rustIpcInit q).view
  rw [rustIpcInit_view]
  rfl

theorem runMessaging_returns (src : PageSource σ) (ops : List MessagingOp) (k : Messaging σ) :
    ∃ answers k', runAll (stepMessaging src) ops k = some (answers, k') := by
  have hstep (op : MessagingOp) (k : Messaging σ) :
      ∃ answer k', stepMessaging src op k = some (answer, k') := by
    cases op <;> exact ⟨_, _, rfl⟩
  obtain ⟨answers, k', hrun, -⟩ := runAll_returns (fun _ _ => True) (fun op _ k _ => by
    obtain ⟨answer, k', hop⟩ := hstep op k
    exact ⟨answer, k', hop, trivial⟩) ops k trivial
  exact ⟨answers, k', hrun⟩

/-- A receive call adds to the history what it answers with. -/
theorem receive_delivers (src : PageSource σ) (hinv : MessagingInv k) (sender : Int)
    (maxLen : Nat) :
    ∃ found : Option Message, ∃ k', stepMessaging src (.receive sender maxLen) k =
        some (receiveAnswer maxLen found, k') ∧
      k'.delivered = k.delivered ++ (found.map (Delivery.mk (currentPid k.scheduler))).toList := by
  obtain ⟨-, -, hanswer⟩ := ipcReceive_view hinv.queue sender maxLen
  refine ⟨k.queue.returned sender, _, congrArg (fun answer => some (answer, _)) hanswer, ?_⟩
  cases k.queue.returned sender with
  | none => exact (List.append_nil _).symm
  | some message => rfl

/-- After `scheduler_init` and `ipc_init`, in every run messages are returned in the
order they were accepted in, and each one to its addressee if and only if every
receive call of a process that takes a message finds its own at the front. Wherever
the run gets, the next receive call answers with the message it is noted to return. -/
theorem ipc_addressed_iff (src : PageSource σ) (m : Machine σ) (q : IpcQueue)
    (ops : List MessagingOp) :
    ∃ answers k, runAll (stepMessaging src) ops (messagingInit m q) = some (answers, k) ∧
      k.sent = k.delivered.map Delivery.message ++ k.queue.view ∧
      (k.Addressed ↔ Throughout (stepMessaging src) ReadsOwn ops (messagingInit m q)) ∧
      ∀ sender maxLen, ∃ found : Option Message, ∃ k',
        stepMessaging src (.receive sender maxLen) k = some (receiveAnswer maxLen found, k') ∧
        k'.delivered =
          k.delivered ++ (found.map (Delivery.mk (currentPid k.scheduler))).toList := by
  obtain ⟨answers, k, hrun⟩ := runMessaging_returns src ops (messagingInit m q)
  have hinv := messagingInit_inv m q
  have hfifo : MessagingInv k := by
    have hgood : ∀ answer ∈ answers, (fun _ => True) answer := fun _ _ => trivial
    exact runAll_preserves (fun _ k => MessagingInv k)
      (fun op _ k _ k' hk hstep _ => (stepMessaging_step src op hk hstep).1) hrun hgood hinv
  refine ⟨answers, k, hrun, hfifo.fifo, ?_, receive_delivers src hfifo⟩
  have hstart : (messagingInit m q).Addressed := fun d hd => absurd hd List.not_mem_nil
  rw [runAll_iff_throughout MessagingInv Messaging.Addressed
    (fun op k _ k' hk hstep => stepMessaging_step src op hk hstep) hrun hinv]
  exact and_iff_right hstart

/-! ## A message for another process -/

/-- While nothing is current, the timer picks the first process if it is ready. -/
theorem schedulerTick_first {s : Scheduler} {first : Fin maxProcesses} (hfirst : first.val = 0)
    (hnone : s.currentProcess = -1) (hcount : s.processCount ≠ 0)
    (hready : (s.processes first).state = .ready) :
    schedulerTick s =
      { s.store first { s.processes first with state := .running } with currentProcess := 0 } := by
  have hcounted : countSlice s = s := if_neg fun h => absurd (hnone ▸ h.1) (by decide)
  have hslot : slotAt (s.currentProcess + 1 + 0) = first := by
    rw [hnone]
    exact Fin.ext hfirst.symm
  have hrunnable : (s.processes (slotAt (s.currentProcess + 1 + 0))).runnable = true := by
    rw [hslot, Process.runnable, hready]
    rfl
  have hfind : (List.range maxProcesses).find? (fun i =>
      (s.processes (slotAt (s.currentProcess + 1 + i))).runnable) = some 0 :=
    List.find?_cons_of_pos hrunnable
  unfold schedulerTick
  rw [if_neg hcount, hcounted]
  dsimp only
  rw [hfind]
  dsimp only
  rw [hslot, if_neg (by rw [hnone]; omega), if_neg (by rw [hnone]; decide)]
  simp only [hfirst, Nat.cast_zero]

theorem schedulerTick_two {s : Scheduler} {first second : Fin maxProcesses}
    (hfirst : first.val = 0) (hsecond : second.val = 1) (hnone : s.currentProcess = -1)
    (hcount : s.processCount ≠ 0) (hready : (s.processes first).state = .ready)
    (hpid : (s.processes first).pid = 1) (hready' : (s.processes second).state = .ready) :
    currentPid (schedulerTick s) = some 1 ∧ schedulerGet 2 (schedulerTick s) ≠ none := by
  have hslot : slotAt 0 = first := Fin.ext hfirst.symm
  have hslot' : slotAt (2 - 1) = second := Fin.ext hsecond.symm
  have hne : second ≠ first := by
    rintro rfl
    rw [hfirst] at hsecond
    exact absurd hsecond (by decide)
  rw [schedulerTick_first hfirst hnone hcount hready]
  constructor
  · simp [currentPid, schedulerCurrent, hslot, Scheduler.store, hpid]
  · rw [schedulerGet, if_neg (by decide), hslot']
    change (if ((s.store first _).processes second).state = .unused then _ else _) ≠ none
    rw [Scheduler.store_of_ne hne, hready', if_neg (by decide)]
    exact Option.some_ne_none _

/-- With pages for two processes, the first one is current after a tick, and the
second one can be sent to. -/
theorem two_processes {m : Machine Pmm} (hinv : TableInv pmmLaw m m.currentDirectory)
    (hclear : 5 ≤ m.source.clear.card) (name : CString) (entry : Nat) :
    ∃ s m', runProcesses pmmSource [.create name entry, .create name entry, .tick]
        (schedulerInit, m) = (s, m') ∧ currentPid s = some 1 ∧ schedulerGet 2 s ≠ none := by
  obtain ⟨hcrowd₁, htables₁, hclear₁⟩ :=
    schedulerInit_crowd.create (by decide) hinv (by omega) name entry
  -- processCreate takes the first free slot: slot 0, then slot 1.
  obtain ⟨first, hfirst⟩ : ∃ first : Fin maxProcesses, first.val = 0 := ⟨⟨0, by decide⟩, rfl⟩
  obtain ⟨proc, hready, hpid, heq⟩ := processCreate_first hfirst hinv (by omega) name entry
  obtain ⟨second, proc', hfresh', hbefore', hready', -, heq'⟩ :=
    hcrowd₁.processCreate_accepts (by decide) htables₁ (by omega) name entry
  have halive : (processCreate pmmSource name entry schedulerInit m).1.alive = {first} := by
    rw [heq]
    change (schedulerInit.store first proc).alive = {first}
    rw [alive_store_used (by rw [hready]; decide), schedulerInit_alive]
    rfl
  rw [halive] at hfresh' hbefore'
  have hne : second ≠ first := fun h => hfresh' (Finset.mem_singleton.2 h)
  have hsecond : second.val = 1 := by
    by_contra hother
    have hpos : second.val ≠ 0 := fun h => hne (Fin.ext (h.trans hfirst.symm))
    have hmem := hbefore' ⟨1, by decide⟩ (show 1 < second.val by omega)
    have hval := congrArg Fin.val (Finset.mem_singleton.1 hmem)
    exact absurd (hval.trans hfirst) (by decide)
  -- The second creation leaves the first slot as it was.
  have hstate : ((processCreate pmmSource name entry schedulerInit m).1.store second
      proc').processes first = proc := by
    rw [Scheduler.store_of_ne hne.symm, heq]
    exact Scheduler.store_same
  have hcount : (processCreate pmmSource name entry schedulerInit m).1.processCount = 1 := by
    rw [heq]
  have hcurrent : (processCreate pmmSource name entry schedulerInit m).1.currentProcess = -1 := by
    rw [heq]
    rfl
  have hrun : runProcesses pmmSource [.create name entry, .create name entry, .tick]
      (schedulerInit, m) =
        (schedulerTick (processCreate pmmSource name entry
          (processCreate pmmSource name entry schedulerInit m).1
          (processCreate pmmSource name entry schedulerInit m).2).1,
        (processCreate pmmSource name entry
          (processCreate pmmSource name entry schedulerInit m).1
          (processCreate pmmSource name entry schedulerInit m).2).2) := rfl
  rw [hrun, heq']
  refine ⟨_, _, rfl, ?_⟩
  refine schedulerTick_two hfirst hsecond hcurrent ?_ ?_ ?_ ?_
  · dsimp only
    rw [hcount]
    decide
  · dsimp only
    rw [hstate, hready]
  · dsimp only
    rw [hstate, hpid]
  · dsimp only
    rw [Scheduler.store_same, hready']

/-- Process calls first, then the rest of the run. -/
theorem runMessaging_processes (src : PageSource σ) (calls : List ProcessOp) (k : Messaging σ)
    {ops : List MessagingOp} {s : Scheduler} {m : Machine σ} {answers : List (Int × List UInt8)}
    {k' : Messaging σ} (hrun : runProcesses src calls (k.scheduler, k.machine) = (s, m))
    (hrest : runAll (stepMessaging src) ops { k with scheduler := s, machine := m } =
      some (answers, k')) :
    ∃ answers', runAll (stepMessaging src) (calls.map .process ++ ops) k = some (answers', k') := by
  induction calls generalizing k with
  | nil =>
      obtain ⟨rfl, rfl⟩ := Prod.mk.inj hrun
      exact ⟨answers, hrest⟩
  | cons call calls ih =>
      obtain ⟨answers', hcalls⟩ := ih { k with
        scheduler := (stepProcess src k.scheduler k.machine call).1
        machine := (stepProcess src k.scheduler k.machine call).2 } hrun hrest
      refine ⟨(0, []) :: answers', ?_⟩
      simp only [List.map_cons, List.cons_append, runAll, stepMessaging, Option.bind_some, hcalls,
        Option.map_some]

/-- The second of two processes is sent a message, and the first one gets it. -/
theorem message_for_another :
    ∃ s₀ answers k, bootSystem 0x180000 0x1000000 (fun _ _ => .zero) (fun _ => 0) = some s₀ ∧
      runAll (stepMessaging pmmSource)
        [.process (.create (CString.ofBuffer []) 0x100000),
          .process (.create (CString.ofBuffer []) 0x100000), .process .tick,
          .send 2 (fun _ => 42) 1, .receive 0 256]
        (messagingInit s₀.heap.pages ⟨fun _ => ⟨0, 0, fun _ => 0, 0, false⟩, 0, 0⟩) =
          some (answers, k) ∧
      k.delivered = [⟨some 1, ⟨1, 2, [42]⟩⟩] ∧ ¬ k.Addressed := by
  obtain ⟨s₀, hboot, -, hclear, -⟩ := boot_heap
  have hinv := bootSystem_inv ⟨by decide, by decide⟩ (by decide) hboot
  obtain ⟨s, m, hrun, hpid, hget⟩ := two_processes hinv.space.inv
    (by rw [hclear, Nat.card_Ico]; decide) (CString.ofBuffer []) 0x100000
  let q : IpcQueue := rustIpcInit ⟨fun _ => ⟨0, 0, fun _ => 0, 0, false⟩, 0, 0⟩
  have hqueue : IpcInv q := rustIpcInit_inv _
  have hview : q.view = [] := rustIpcInit_view _
  obtain ⟨hqueue', hview'⟩ := ipcSend_view hqueue 2 (fun _ => 42) 1 s
  have hsent : (ipcSend 2 (fun _ => 42) 1 s q).1 = 1 := by
    obtain ⟨proc, hproc⟩ := Option.ne_none_iff_exists'.1 hget
    simp [ipcSend, hproc, rustIpcSend, q, rustIpcInit, ipcMaxMsgs, ipcMsgSize]
  rw [hsent, if_neg (by decide), hview, hpid] at hview'
  have hreturned : (ipcSend 2 (fun _ => 42) 1 s q).2.returned 0 = some ⟨1, 2, [42]⟩ := by
    rw [hqueue'.returned_eq, hview']
    rfl
  obtain ⟨answers, k, hmessages, hdelivered⟩ : ∃ answers k, runAll (stepMessaging pmmSource)
      [.send 2 (fun _ => 42) 1, .receive 0 256] ⟨s, m, q, [], []⟩ = some (answers, k) ∧
        k.delivered = [⟨some 1, ⟨1, 2, [42]⟩⟩] := by
    refine ⟨_, _, rfl, ?_⟩
    change (match (ipcSend 2 (fun _ => 42) 1 s q).2.returned 0 with
      | some message => [Delivery.mk (currentPid s) message]
      | none => []) = _
    rw [hreturned, hpid]
  obtain ⟨answers', hall⟩ := runMessaging_processes pmmSource
    [.create (CString.ofBuffer []) 0x100000, .create (CString.ofBuffer []) 0x100000, .tick]
    (messagingInit s₀.heap.pages ⟨fun _ => ⟨0, 0, fun _ => 0, 0, false⟩, 0, 0⟩) hrun hmessages
  refine ⟨s₀, answers', k, hboot, hall, hdelivered, fun haddressed => ?_⟩
  have hwrong := haddressed ⟨some 1, ⟨1, 2, [42]⟩⟩ (by rw [hdelivered]; simp) 1 rfl
  exact absurd hwrong (by decide)

end Dosfs
