import Dosfs.Foundation.ByteMemory
import Dosfs.Foundation.Ring
import Dosfs.Foundation.Run

/-!
# Interprocess messages

A translation of `rust/src/ipc.rs`: a ring of 64 message slots with a flag in
each of them. Seen from outside it is a queue of at most 63 messages, and the
branch for a slot whose flag is missing is never reached.
-/

namespace Dosfs

open Foundation

def ipcMsgSize : Nat := 256

def ipcMaxMsgs : Nat := 64

structure IpcMessage where
  sender : Int
  receiver : Int
  data : Memory
  length : Nat
  used : Bool

/-- The statics `MESSAGE_QUEUE`, `QUEUE_HEAD` and `QUEUE_TAIL`. -/
structure IpcQueue where
  messages : Nat → IpcMessage
  head : Nat
  tail : Nat

def rustIpcInit (q : IpcQueue) : IpcQueue where
  messages i :=
    if i < ipcMaxMsgs then { q.messages i with used := false, length := 0 } else q.messages i
  head := 0
  tail := 0

/-- The number of bytes sent, or -1. The data is what the pointer points to. -/
def rustIpcSend (sender receiver : Int) (data : Memory) (length : Nat) (q : IpcQueue) :
    Int × IpcQueue :=
  let len := if length > ipcMsgSize then ipcMsgSize else length
  let next := (q.tail + 1) % ipcMaxMsgs
  if next = q.head then (-1, q)
  else if receiver < 1 ∨ receiver > 32 then (-1, q)
  else
    let msg := { q.messages q.tail with
      sender
      receiver
      data := (q.messages q.tail).data.overwrite 0 len data
      length := len
      used := true }
    (len, { q with messages := Function.update q.messages q.tail msg, tail := next })

/-- The number of bytes received, and the bytes written to the buffer. -/
def rustIpcReceive (sender : Int) (maxLen : Nat) (q : IpcQueue) : (Int × List UInt8) × IpcQueue :=
  if q.head = q.tail then ((0, []), q)
  else
    let msg := q.messages q.head
    if !msg.used then ((0, []), { q with head := (q.head + 1) % ipcMaxMsgs })
    else if sender ≠ 0 ∧ msg.sender ≠ sender then ((0, []), q)
    else
      let copyLen := if msg.length > maxLen then maxLen else msg.length
      ((copyLen, msg.data.loadList 0 copyLen), {
        messages := Function.update q.messages q.head { msg with used := false }
        head := (q.head + 1) % ipcMaxMsgs
        tail := q.tail })

/-- The flag of the oldest slot is missing, which `rust_ipc_receive` mends by
moving on to the next slot. -/
def IpcQueue.Recovers (q : IpcQueue) : Prop :=
  q.head ≠ q.tail ∧ (q.messages q.head).used = false

/-! ## The queue of messages -/

/-- A message in transit. -/
structure Message where
  sender : Int
  receiver : Int
  bytes : List UInt8

def IpcMessage.view (msg : IpcMessage) : Message where
  sender := msg.sender
  receiver := msg.receiver
  bytes := msg.data.loadList 0 msg.length

/-- The messages in the ring, oldest first. -/
def IpcQueue.view (q : IpcQueue) : List Message :=
  Ring.contents ipcMaxMsgs q.head q.tail fun i => (q.messages i).view

inductive IpcOp
  | send (sender receiver : Int) (data : Memory) (length : Nat)
  | receive (sender : Int) (maxLen : Nat)

def stepIpc : IpcOp → IpcQueue → Option ((Int × List UInt8) × IpcQueue)
  | .send sender receiver data length, q =>
      let (ret, q) := rustIpcSend sender receiver data length q
      some ((ret, []), q)
  | .receive sender maxLen, q => some (rustIpcReceive sender maxLen q)

/-- A bounded queue: what the calls are for. -/
def stepFifo : IpcOp → List Message → Option ((Int × List UInt8) × List Message)
  | .send sender receiver data length, msgs =>
      if 1 ≤ receiver ∧ receiver ≤ 32 ∧ msgs.length < 63 then
        some (((min length 256 : Nat), []),
          msgs ++ [⟨sender, receiver, data.loadList 0 (min length 256)⟩])
      else some ((-1, []), msgs)
  | .receive _ _, [] => some ((0, []), [])
  | .receive sender maxLen, msg :: msgs =>
      if sender = 0 ∨ msg.sender = sender then
        some (((min msg.bytes.length maxLen : Nat), msg.bytes.take maxLen), msgs)
      else some ((0, []), msg :: msgs)

/-! ## The invariant -/

/-- Every slot in the ring has its flag. -/
structure IpcInv (q : IpcQueue) : Prop where
  head : q.head < ipcMaxMsgs
  tail : q.tail < ipcMaxMsgs
  used : ∀ i < Ring.count ipcMaxMsgs q.head q.tail,
    (q.messages ((q.head + i) % ipcMaxMsgs)).used = true

variable {q : IpcQueue}

theorem rustIpcInit_count (q : IpcQueue) :
    Ring.count ipcMaxMsgs (rustIpcInit q).head (rustIpcInit q).tail = 0 :=
  (Ring.count_eq_zero_iff (Nat.zero_lt_succ 63) (Nat.zero_lt_succ 63)).2 rfl

theorem rustIpcInit_inv (q : IpcQueue) : IpcInv (rustIpcInit q) where
  head := Nat.zero_lt_succ 63
  tail := Nat.zero_lt_succ 63
  used i hi := by
    rw [rustIpcInit_count] at hi
    exact absurd hi (Nat.not_lt_zero i)

theorem rustIpcInit_view (q : IpcQueue) : (rustIpcInit q).view = [] := by
  apply List.eq_nil_of_length_eq_zero
  rw [IpcQueue.view, Ring.contents_length, rustIpcInit_count]

theorem IpcInv.not_recovers (hinv : IpcInv q) : ¬ q.Recovers := by
  rintro ⟨hne, hmissing⟩
  have hcount := Ring.count_pop hinv.head hinv.tail hne
  have hused := hinv.used 0 (by omega)
  rw [Nat.add_zero, Nat.mod_eq_of_lt hinv.head, hmissing] at hused
  exact Bool.false_ne_true hused

theorem IpcInv.length_lt (hinv : IpcInv q) : q.view.length < ipcMaxMsgs := by
  rw [IpcQueue.view, Ring.contents_length]
  exact Ring.count_lt hinv.head

theorem IpcInv.full_iff (hinv : IpcInv q) :
    (q.tail + 1) % ipcMaxMsgs = q.head ↔ ¬ q.view.length < 63 := by
  have hlt := hinv.length_lt
  rw [Ring.full_iff hinv.head hinv.tail, IpcQueue.view, Ring.contents_length]
  rw [IpcQueue.view, Ring.contents_length] at hlt
  simp only [ipcMaxMsgs] at hlt ⊢
  omega

theorem IpcInv.view_pop (hinv : IpcInv q) (hne : q.head ≠ q.tail) :
    q.view = (q.messages q.head).view ::
      Ring.contents ipcMaxMsgs ((q.head + 1) % ipcMaxMsgs) q.tail fun i => (q.messages i).view :=
  Ring.contents_pop hinv.head hinv.tail hne

/-- A message goes into the free slot. -/
theorem IpcInv.push (hinv : IpcInv q) (hroom : (q.tail + 1) % ipcMaxMsgs ≠ q.head)
    {msg : IpcMessage} (hused : msg.used = true) :
    IpcInv { q with
      messages := Function.update q.messages q.tail msg
      tail := (q.tail + 1) % ipcMaxMsgs } := by
  refine ⟨hinv.head, Nat.mod_lt _ (by decide), fun i hi => ?_⟩
  dsimp only at hi ⊢
  by_cases hfree : (q.head + i) % ipcMaxMsgs = q.tail
  · rw [hfree, Function.update_self, hused]
  · rw [Function.update_of_ne hfree]
    apply hinv.used
    rw [Ring.count_push hinv.head hinv.tail hroom] at hi
    refine Nat.lt_of_le_of_ne (Nat.le_of_lt_succ hi) fun hlast => hfree ?_
    rw [hlast, Ring.add_count_mod hinv.head hinv.tail]

/-- The oldest message leaves its slot. -/
theorem IpcInv.pop (hinv : IpcInv q) (hne : q.head ≠ q.tail) (msg : IpcMessage) :
    IpcInv {
      messages := Function.update q.messages q.head msg
      head := (q.head + 1) % ipcMaxMsgs
      tail := q.tail } := by
  have hcount := Ring.count_pop hinv.head hinv.tail hne
  have hlt : Ring.count ipcMaxMsgs q.head q.tail < ipcMaxMsgs := Ring.count_lt hinv.head
  refine ⟨Nat.mod_lt _ (by decide), hinv.tail, fun i hi => ?_⟩
  dsimp only at hi ⊢
  have hindex : ((q.head + 1) % ipcMaxMsgs + i) % ipcMaxMsgs = (q.head + (i + 1)) % ipcMaxMsgs := by
    rw [Nat.mod_add_mod, Nat.add_right_comm, Nat.add_assoc]
  have hother : (q.head + (i + 1)) % ipcMaxMsgs ≠ q.head := by
    intro hsame
    have hzero : (q.head + (i + 1)) % ipcMaxMsgs = (q.head + 0) % ipcMaxMsgs := by
      rw [hsame, Nat.add_zero, Nat.mod_eq_of_lt hinv.head]
    have hindices := Ring.index_inj (by omega) (by omega) hzero
    omega
  rw [hindex, Function.update_of_ne hother]
  exact hinv.used (i + 1) (by omega)

theorem update_view (messages : Nat → IpcMessage) (slot : Nat) (msg : IpcMessage) :
    (fun i => (Function.update messages slot msg i).view) =
      Function.update (fun i => (messages i).view) slot msg.view := by
  funext i
  by_cases hslot : i = slot
  · rw [hslot, Function.update_self, Function.update_self]
  · rw [Function.update_of_ne hslot, Function.update_of_ne hslot]

/-! ## Steps -/

/-- A call answers as the queue does, and when the messages stay the ring does. -/
structure IpcRefines (op : IpcOp) (q : IpcQueue) (answer : Int × List UInt8) (q' : IpcQueue) :
    Prop where
  step : stepIpc op q = some (answer, q')
  fifo : stepFifo op q.view = some (answer, q'.view)
  inv : IpcInv q'
  unchanged : q'.view = q.view → q' = q

theorem rustIpcSend_refines (hinv : IpcInv q) (sender receiver : Int) (data : Memory)
    (length : Nat) : ∃ answer q', IpcRefines (.send sender receiver data length) q answer q' := by
  by_cases hfull : (q.tail + 1) % ipcMaxMsgs = q.head
  · have hroom := hinv.full_iff.1 hfull
    refine ⟨(-1, []), q, ?_, ?_, hinv, fun _ => rfl⟩
    · simp only [stepIpc, rustIpcSend, if_pos hfull]
    · simp only [stepFifo, hroom, and_false, if_false]
  have hroom : q.view.length < 63 := Decidable.of_not_not (hinv.full_iff.not.1 hfull)
  by_cases hreceiver : receiver < 1 ∨ receiver > 32
  · refine ⟨(-1, []), q, ?_, ?_, hinv, fun _ => rfl⟩
    · simp only [stepIpc, rustIpcSend, if_neg hfull, if_pos hreceiver]
    · rw [stepFifo, if_neg (by omega)]
  have hlen : (if length > ipcMsgSize then ipcMsgSize else length) = min length 256 := by
    rw [Nat.min_comm, min_def_lt]
    rfl
  let msg : IpcMessage := {
    sender
    receiver
    data := (q.messages q.tail).data.overwrite 0 (min length 256) data
    length := min length 256
    used := true }
  have hview : msg.view = ⟨sender, receiver, data.loadList 0 (min length 256)⟩ := by
    simp only [IpcMessage.view, msg]
    congr 1
    apply Memory.loadList_congr
    intro x _ hx
    exact Memory.overwrite_of_mem (Nat.zero_le x) hx
  have hpush : IpcQueue.view { q with
      messages := Function.update q.messages q.tail msg
      tail := (q.tail + 1) % ipcMaxMsgs } = q.view ++ [msg.view] := by
    rw [IpcQueue.view, update_view, Ring.contents_push hinv.head hinv.tail hfull]
    rfl
  refine ⟨((min length 256 : Nat), []), _, ?_, ?_,
    hinv.push hfull (show msg.used = true from rfl), ?_⟩
  · simp only [stepIpc, rustIpcSend, if_neg hfull, if_neg hreceiver, hlen]
    rfl
  · rw [stepFifo, if_pos (by omega), hpush, hview]
  · intro hsame
    rw [hpush] at hsame
    simp at hsame

theorem rustIpcReceive_refines (hinv : IpcInv q) (sender : Int) (maxLen : Nat) :
    ∃ answer q', IpcRefines (.receive sender maxLen) q answer q' := by
  by_cases hempty : q.head = q.tail
  · have hview : q.view = [] := (Ring.contents_eq_nil_iff hinv.head hinv.tail).2 hempty
    refine ⟨(0, []), q, ?_, ?_, hinv, fun _ => rfl⟩
    · simp only [stepIpc, rustIpcReceive, if_pos hempty]
    · rw [hview, stepFifo]
  have hview := hinv.view_pop hempty
  have hused : (q.messages q.head).used = true := by
    by_contra hmissing
    exact hinv.not_recovers ⟨hempty, Bool.eq_false_of_not_eq_true hmissing⟩
  by_cases hsender : sender ≠ 0 ∧ (q.messages q.head).sender ≠ sender
  · refine ⟨(0, []), q, ?_, ?_, hinv, fun _ => rfl⟩
    · simp [stepIpc, rustIpcReceive, hempty, hused, hsender]
    · rw [hview, stepFifo, if_neg]
      rintro (hany | hfrom)
      · exact hsender.1 hany
      · exact hsender.2 hfrom
  · let msg : IpcMessage := { q.messages q.head with used := false }
    have hpop : IpcQueue.view {
        messages := Function.update q.messages q.head msg
        head := (q.head + 1) % ipcMaxMsgs
        tail := q.tail } = Ring.contents ipcMaxMsgs ((q.head + 1) % ipcMaxMsgs) q.tail
          fun i => (q.messages i).view := by
      have hsame : msg.view = (q.messages q.head).view := rfl
      rw [IpcQueue.view, update_view, hsame]
      exact congrArg _ (Function.update_eq_self q.head fun i => (q.messages i).view)
    have hlen : (if (q.messages q.head).length > maxLen then maxLen
        else (q.messages q.head).length) = min maxLen (q.messages q.head).length :=
      (min_def_lt _ _).symm
    refine ⟨((min maxLen (q.messages q.head).length : Nat),
      (q.messages q.head).data.loadList 0 (min maxLen (q.messages q.head).length)), _, ?_, ?_,
      hinv.pop hempty msg, ?_⟩
    · simp only [stepIpc, rustIpcReceive, if_neg hempty, hused, Bool.not_true, Bool.false_eq_true,
        if_false, if_neg hsender, hlen]
      rfl
    · rw [hview, stepFifo, if_pos (by tauto), hpop]
      simp only [IpcMessage.view, Memory.loadList_length, Memory.loadList_take, Nat.min_comm]
    · intro hsame
      rw [hpop, hview] at hsame
      exact absurd hsame.symm (List.cons_ne_self _ _)

theorem stepIpc_refines (hinv : IpcInv q) (op : IpcOp) :
    ∃ answer q', IpcRefines op q answer q' := by
  cases op with
  | send sender receiver data length => exact rustIpcSend_refines hinv sender receiver data length
  | receive sender maxLen => exact rustIpcReceive_refines hinv sender maxLen

/-- A run of calls after `rust_ipc_init`, on the ring and on the queue. -/
theorem runIpc_refines (q₀ : IpcQueue) (ops : List IpcOp) :
    ∃ answers q, runAll stepIpc ops (rustIpcInit q₀) = some (answers, q) ∧
      runAll stepFifo ops [] = some (answers, q.view) ∧ IpcInv q := by
  have hstep (op : IpcOp) (_ : op ∈ ops) (q : IpcQueue) (msgs : List Message) :
      IpcInv q ∧ q.view = msgs → ∃ answer q' msgs', stepIpc op q = some (answer, q') ∧
        stepFifo op msgs = some (answer, msgs') ∧ IpcInv q' ∧ q'.view = msgs' := by
    rintro ⟨hinv, rfl⟩
    obtain ⟨answer, q', hrefines⟩ := stepIpc_refines hinv op
    exact ⟨answer, q', _, hrefines.step, hrefines.fifo, hrefines.inv, rfl⟩
  obtain ⟨answers, q, msgs, hrun, hfifo, hinv, rfl⟩ :=
    runAll_simulates (fun q msgs => IpcInv q ∧ q.view = msgs) ops hstep
      ⟨rustIpcInit_inv q₀, rustIpcInit_view q₀⟩
  exact ⟨answers, q, hrun, hfifo, hinv⟩

/-- After `rust_ipc_init` the ring answers every run of calls as the queue does.
A call that the queue refuses changes no slot, and the flag of the oldest
message is always there. -/
theorem ipc_refines_fifo (q₀ : IpcQueue) (ops : List IpcOp) :
    ∃ answers q, runAll stepIpc ops (rustIpcInit q₀) = some (answers, q) ∧
      runAll stepFifo ops [] = some (answers, q.view) ∧ q.view.length ≤ 63 ∧ ¬ q.Recovers ∧
      ∀ op answer, stepFifo op q.view = some (answer, q.view) →
        stepIpc op q = some (answer, q) := by
  obtain ⟨answers, q, hrun, hfifo, hinv⟩ := runIpc_refines q₀ ops
  refine ⟨answers, q, hrun, hfifo, Nat.le_of_lt_succ hinv.length_lt, hinv.not_recovers, ?_⟩
  intro op answer hrefused
  obtain ⟨answer', q', hrefines⟩ := stepIpc_refines hinv op
  obtain ⟨rfl, hview⟩ := Prod.mk.inj (Option.some.inj (hrefused.symm.trans hrefines.fifo))
  rw [hrefines.step, hrefines.unchanged hview.symm]

/-! ## Receiving from one sender -/

/-- A receive call with this sender is meant for the message. -/
def Message.Matches (sender : Int) (msg : Message) : Prop := sender = 0 ∨ msg.sender = sender

/-- A receive call returns zero only if no message is meant for it, and then takes
none. Else it returns the oldest one that is and takes no other. -/
structure SelectiveReceive (sender : Int) (maxLen : Nat) (q : IpcQueue) : Prop where
  nothing : (rustIpcReceive sender maxLen q).1.1 = 0 →
    (∀ msg ∈ q.view, ¬ msg.Matches sender) ∧ (rustIpcReceive sender maxLen q).2.view = q.view
  oldest : (rustIpcReceive sender maxLen q).1.1 ≠ 0 →
    ∃ before msg after, q.view = before ++ msg :: after ∧
      (∀ msg ∈ before, ¬ msg.Matches sender) ∧ msg.Matches sender ∧
      (rustIpcReceive sender maxLen q).1 =
        (((min msg.bytes.length maxLen : Nat) : Int), msg.bytes.take maxLen) ∧
      (rustIpcReceive sender maxLen q).2.view = before ++ after

/-- Only the oldest message is looked at, and an empty one is taken without notice. -/
theorem IpcInv.selectiveReceive_iff (hinv : IpcInv q) (sender : Int) {maxLen : Nat}
    (hlen : 0 < maxLen) :
    SelectiveReceive sender maxLen q ↔ (∀ msg ∈ q.view, ¬ msg.Matches sender) ∨
      ∃ msg rest, q.view = msg :: rest ∧ msg.Matches sender ∧ msg.bytes ≠ [] := by
  obtain ⟨answer, q', hrefines⟩ := rustIpcReceive_refines hinv sender maxLen
  have hcall : rustIpcReceive sender maxLen q = (answer, q') := Option.some.inj hrefines.step
  have hfifo := hrefines.fifo
  cases hview : q.view with
  | nil =>
      rw [hview, stepFifo] at hfifo
      obtain ⟨rfl, hview'⟩ := Prod.mk.inj (Option.some.inj hfifo)
      refine iff_of_true ⟨fun _ => ?_, fun hreturned => absurd ?_ hreturned⟩ (Or.inl nofun)
      · rw [hcall, hview, ← hview']
        exact ⟨nofun, rfl⟩
      · rw [hcall]
  | cons msg rest =>
      rw [hview, stepFifo] at hfifo
      by_cases hmatch : msg.Matches sender
      · rw [if_pos (show sender = 0 ∨ msg.sender = sender from hmatch)] at hfifo
        obtain ⟨rfl, hview'⟩ := Prod.mk.inj (Option.some.inj hfifo)
        have hany : ¬ ∀ msg ∈ q.view, ¬ msg.Matches sender := fun hnone =>
          hnone msg (hview ▸ List.mem_cons_self) hmatch
        by_cases hempty : msg.bytes = []
        · refine iff_of_false (fun h => hany (h.nothing ?_).1) ?_
          · rw [hcall, hempty]
            rfl
          · rintro (hnone | ⟨msg', rest', heq, -, hbytes⟩)
            · exact hany (hview ▸ hnone)
            · obtain ⟨rfl, -⟩ := List.cons.inj heq
              exact hbytes hempty
        · have hpos := List.length_pos_iff.2 hempty
          refine iff_of_true ⟨fun hzero => absurd hzero ?_, fun _ => ?_⟩
            (Or.inr ⟨msg, rest, rfl, hmatch, hempty⟩)
          · rw [hcall]
            dsimp only
            omega
          · rw [hcall]
            exact ⟨[], msg, rest, hview, nofun, hmatch, rfl, hview'.symm⟩
      · rw [if_neg (show ¬ (sender = 0 ∨ msg.sender = sender) from hmatch)] at hfifo
        obtain ⟨rfl, hview'⟩ := Prod.mk.inj (Option.some.inj hfifo)
        constructor
        · intro h
          refine Or.inl (hview ▸ (h.nothing ?_).1)
          rw [hcall]
        · rintro (hnone | ⟨msg', rest', heq, hmatch', -⟩)
          · refine ⟨fun _ => ⟨hview ▸ hnone, ?_⟩, fun hreturned => absurd ?_ hreturned⟩
            · rw [hcall, ← hview', hview]
            · rw [hcall]
          · obtain ⟨rfl, -⟩ := List.cons.inj heq
            exact absurd hmatch' hmatch

/-- After `rust_ipc_init` and any calls, a receive call with room for a byte finds
the message meant for it if and only if there is none, or it is the oldest of all
messages and not empty. -/
theorem selective_receive_iff (q₀ : IpcQueue) (ops : List IpcOp) (sender : Int) (maxLen : Nat)
    (hlen : 0 < maxLen) :
    ∃ answers q, runAll stepIpc ops (rustIpcInit q₀) = some (answers, q) ∧
      (SelectiveReceive sender maxLen q ↔ (∀ msg ∈ q.view, ¬ msg.Matches sender) ∨
        ∃ msg rest, q.view = msg :: rest ∧ msg.Matches sender ∧ msg.bytes ≠ []) := by
  obtain ⟨answers, q, hrun, -, hinv⟩ := runIpc_refines q₀ ops
  exact ⟨answers, q, hrun, hinv.selectiveReceive_iff sender hlen⟩

theorem selective_receive_iff_one :
    ∃ answers q, runAll stepIpc [.send 3 1 (fun _ => 42) 1]
        (rustIpcInit ⟨fun _ => ⟨0, 0, fun _ => 0, 0, false⟩, 0, 0⟩) = some (answers, q) ∧
      SelectiveReceive 3 16 q := by
  obtain ⟨answers, q, hrun, hiff⟩ := selective_receive_iff
    ⟨fun _ => ⟨0, 0, fun _ => 0, 0, false⟩, 0, 0⟩ [.send 3 1 (fun _ => 42) 1] 3 16 (by decide)
  obtain ⟨answers', q', hrun', hfifo, -⟩ := runIpc_refines
    ⟨fun _ => ⟨0, 0, fun _ => 0, 0, false⟩, 0, 0⟩ [.send 3 1 (fun _ => 42) 1]
  obtain ⟨rfl, rfl⟩ := Prod.mk.inj (Option.some.inj (hrun.symm.trans hrun'))
  have hview : q.view = [⟨3, 1, [42]⟩] := (congrArg Prod.snd (Option.some.inj hfifo)).symm
  exact ⟨answers, q, hrun, hiff.2 (Or.inr ⟨⟨3, 1, [42]⟩, [], hview, Or.inr rfl, by decide⟩)⟩

/-- Two messages are pending, the newer one from sender 3. A call for a message from
sender 3 returns zero. -/
theorem message_behind_another :
    ∃ answers q, runAll stepIpc [.send 2 1 (fun _ => 41) 1, .send 3 1 (fun _ => 42) 1]
        (rustIpcInit ⟨fun _ => ⟨0, 0, fun _ => 0, 0, false⟩, 0, 0⟩) = some (answers, q) ∧
      ⟨3, 1, [42]⟩ ∈ q.view ∧ (rustIpcReceive 3 256 q).1.1 = 0 ∧ ¬ SelectiveReceive 3 256 q := by
  obtain ⟨answers, q, hrun, hfifo, hinv⟩ := runIpc_refines
    ⟨fun _ => ⟨0, 0, fun _ => 0, 0, false⟩, 0, 0⟩
    [.send 2 1 (fun _ => 41) 1, .send 3 1 (fun _ => 42) 1]
  have hview : q.view = [⟨2, 1, [41]⟩, ⟨3, 1, [42]⟩] :=
    (congrArg Prod.snd (Option.some.inj hfifo)).symm
  have hpending : ⟨3, 1, [42]⟩ ∈ q.view := by rw [hview]; simp
  obtain ⟨answer, q', hrefines⟩ := rustIpcReceive_refines hinv 3 256
  have hcall : rustIpcReceive 3 256 q = (answer, q') := Option.some.inj hrefines.step
  have hanswer := hrefines.fifo
  rw [hview, stepFifo, if_neg (by decide)] at hanswer
  obtain ⟨rfl, -⟩ := Prod.mk.inj (Option.some.inj hanswer)
  have hzero : (rustIpcReceive 3 256 q).1.1 = 0 := by rw [hcall]
  exact ⟨answers, q, hrun, hpending, hzero, fun h => (h.nothing hzero).1 _ hpending (Or.inr rfl)⟩

end Dosfs
