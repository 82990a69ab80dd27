import Dosfs.Foundation.Ring
import Dosfs.Net.Waiting

/-!
# The receive ring as a queue

`net_poll` hands the frames in the ring to their handlers and gives a slot up
only when its handler has returned. A handler that waits polls again, and the
loop inside starts with the slot that is being handled. So every frame is
handled once and in order exactly as long as no handler has to wait.
-/

namespace Dosfs

open Foundation Fuelled

namespace RxRing

/-- A slot with the bytes in it. -/
def slotAt (rx : RxRing) (i : Nat) : Nat × List UInt8 := (i, (rx.buf i).loadList 0 (rx.len i))

/-- The frames in the ring, oldest first. -/
def pending (rx : RxRing) : List (Nat × List UInt8) :=
  Ring.contents 16 rx.head rx.tail rx.slotAt

end RxRing

/-- The frames accepted are those dispatched and then those in the ring. -/
structure RxInv (rx : RxRing) : Prop where
  head : rx.head < 16
  tail : rx.tail < 16
  fifo : rx.accepted = rx.dispatched ++ rx.pending

namespace RxInv

variable {rx : RxRing}

theorem pending_eq_nil_iff (h : RxInv rx) : rx.pending = [] ↔ rx.head = rx.tail :=
  Ring.contents_eq_nil_iff h.head h.tail

theorem receive (h : RxInv rx) (frame : Frame) : RxInv (rx.receive frame) := by
  unfold RxRing.receive
  dsimp only
  split
  next => exact h
  next hroom =>
    refine ⟨h.head, Nat.mod_lt _ (by decide), ?_⟩
    have hslots : RxRing.slotAt { rx with
          buf := Function.update rx.buf rx.tail ((rx.buf rx.tail).storeList 0 frame.bytes)
          len := Function.update rx.len rx.tail frame.bytes.length
          tail := (rx.tail + 1) % 16
          accepted := rx.accepted ++ [(rx.tail, frame.bytes)] } =
        Function.update rx.slotAt rx.tail (rx.tail, frame.bytes) := by
      funext i
      by_cases hi : i = rx.tail
      · subst hi
        simp [RxRing.slotAt, Memory.loadList_storeList_same]
      · simp [RxRing.slotAt, hi]
    rw [RxRing.pending, hslots, Ring.contents_push h.head h.tail hroom, ← List.append_assoc]
    exact congrArg (· ++ _) h.fifo

/-- Receiving neither empties the ring nor moves its head. -/
theorem receive_head (rx : RxRing) (frame : Frame) : (rx.receive frame).head = rx.head ∧
    (rx.receive frame).dispatched = rx.dispatched ∧
    (rx.head ≠ rx.tail → (rx.receive frame).head ≠ (rx.receive frame).tail) := by
  unfold RxRing.receive
  dsimp only
  split
  next => exact ⟨rfl, rfl, id⟩
  next hroom => exact ⟨rfl, rfl, fun _ => Ne.symm hroom⟩

/-- The oldest frame is dispatched and given up. -/
theorem handle (h : RxInv rx) (hne : rx.head ≠ rx.tail) : RxInv rx.noteDispatch.advance := by
  refine ⟨Nat.mod_lt _ (by decide), h.tail, ?_⟩
  have hpop : rx.pending = rx.slotAt rx.head :: rx.noteDispatch.advance.pending :=
    Ring.contents_pop h.head h.tail hne
  change rx.accepted = (rx.dispatched ++ [(rx.head, rx.front)]) ++ rx.noteDispatch.advance.pending
  rw [h.fifo, hpop, List.append_assoc]
  rfl

/-- There is one frame less in the ring afterwards. -/
theorem handled_length (h : RxInv rx) (hne : rx.head ≠ rx.tail) {rx' : RxRing}
    (hrx : rx' = rx.noteDispatch.advance) {n : Nat} (hn : rx.pending.length = n + 1) :
    rx'.pending.length = n := by
  have hpop : rx.pending = rx.slotAt rx.head :: rx.noteDispatch.advance.pending :=
    Ring.contents_pop h.head h.tail hne
  rw [hpop, List.length_cons] at hn
  rw [hrx]
  exact Nat.succ.inj hn

end RxInv

/-- Frames accepted one after the other are in different slots. -/
structure SlotsDiffer (rx : RxRing) : Prop where
  tail : rx.tail < 16
  chain : rx.accepted.IsChain fun a b => a.1 ≠ b.1
  last : ∀ a ∈ rx.accepted.getLast?, a.1 ≠ rx.tail

theorem SlotsDiffer.step {rx rx' : RxRing} (hstep : RxStep rx rx') (h : SlotsDiffer rx) :
    SlotsDiffer rx' := by
  cases hstep with
  | receive frame =>
      unfold RxRing.receive
      dsimp only
      split
      next => exact h
      next =>
        have htail := h.tail
        refine ⟨Nat.mod_lt _ (by decide), ?_, ?_⟩
        · rw [List.isChain_append]
          refine ⟨h.chain, List.isChain_singleton _, ?_⟩
          intro a ha b hb
          obtain rfl : (rx.tail, frame.bytes) = b := by simpa using hb
          exact h.last a ha
        · intro a ha
          obtain rfl : (rx.tail, frame.bytes) = a := by simpa using ha
          change rx.tail ≠ (rx.tail + 1) % 16
          omega
  | noteDispatch | advance => exact ⟨h.tail, h.chain, h.last⟩

/-- What has been dispatched stays dispatched. -/
theorem dispatched_prefix {s s' : Net} (h : RingMoves s s') {front : List (Nat × List UInt8)}
    (hfront : front <+: s.rx.dispatched) : front <+: s'.rx.dispatched := by
  refine h.inv (I := fun rx => front <+: rx.dispatched) ?_ hfront
  intro rx rx' hstep hinv
  cases hstep with
  | receive frame => rwa [(RxInv.receive_head rx frame).2.1]
  | noteDispatch => exact hinv.trans (List.prefix_append _ _)
  | advance => exact hinv

/-! ## Emptying the ring -/

variable {env : Env} {s : Net}

/-- The handler of the oldest frame has to wait. -/
def Waits (env : Env) (s : Net) : Prop := SlotWaits env s s.rx.head (s.rx.len s.rx.head)

instance : Decidable (Waits env s) := inferInstanceAs (Decidable (SlotWaits _ _ _ _))

/-- The stack after the oldest frame, if its handler need not wait. -/
def handled (env : Env) (s : Net) : Net := (outcome (drainRound env failure 0) s).2

theorem drainRound_of_quiet (hne : s.rx.head ≠ s.rx.tail) (hquiet : ¬Waits env s) :
    (∀ w : Around, outcome (drainRound (env.withTicks w.ticks) w.poll w.rounds) s =
      (some none, handled env s)) ∧
    (handled env s).rx = s.rx.noteDispatch.advance ∧ (handled env s).readings = s.readings := by
  have hagree : Agree Undisturbed { s with rx := s.rx.noteDispatch } fun w : Around =>
      dispatch (env.withTicks w.ticks) w.poll w.rounds s.rx.head (s.rx.len s.rx.head) :=
    dispatch_agree hquiet
  obtain ⟨_, s', hund, hall⟩ := hagree
  have hround (w : Around) : outcome (drainRound (env.withTicks w.ticks) w.poll w.rounds) s =
      (some none, { s' with rx := s'.rx.advance }) := by
    unfold drainRound
    rw [outcome_get_bind, if_neg hne, outcome_modify_bind, outcome_bind_some (hall w)]
    rfl
  have hhandled : handled env s = { s' with rx := s'.rx.advance } :=
    congrArg Prod.snd (hround ⟨env.ticks, failure, 0⟩)
  rw [hhandled]
  refine ⟨hround, ?_, hund.readings⟩
  change s'.rx.advance = _
  rw [hund.rx]

/-- None of the next `n` frames has to wait, each in the state in which it is
dispatched. -/
def Calm (env : Env) : Nat → Net → Prop
  | 0, _ => True
  | n + 1, s => ¬Waits env s ∧ Calm env n (handled env s)

/-- The stack after the next `n` frames. -/
def handleAll (env : Env) : Nat → Net → Net
  | 0, s => s
  | n + 1, s => handleAll env n (handled env s)

theorem outcome_drainRound_empty {poll : NetM Unit} {rounds : Nat}
    (hempty : s.rx.head = s.rx.tail) :
    outcome (drainRound env poll rounds) s = (some (some ()), s) := by
  unfold drainRound
  rw [outcome_get_bind, if_pos hempty, outcome_pure]

/-- Without waiting, the loop empties the ring in order, whatever the timer says
and whatever polling would do, if it is allowed enough rounds. -/
theorem drain_of_calm {n : Nat} (hn : s.rx.pending.length = n) (hinv : RxInv s.rx)
    (hcalm : Calm env n s) :
    (∀ (w : Around) (m : Nat),
      outcome (loop (drainRound (env.withTicks w.ticks) w.poll w.rounds) m) s =
        if n < m then (some (), handleAll env n s) else (none, handleAll env m s)) ∧
    RxInv (handleAll env n s).rx ∧ (handleAll env n s).rx.pending = [] ∧
      (handleAll env n s).readings = s.readings := by
  induction n generalizing s with
  | zero =>
      have hnil : s.rx.pending = [] := List.length_eq_zero_iff.1 hn
      refine ⟨fun w m => ?_, hinv, hnil, rfl⟩
      cases m with
      | zero => rfl
      | succ m =>
          rw [if_pos (Nat.zero_lt_succ m)]
          exact outcome_loop_done (outcome_drainRound_empty (hinv.pending_eq_nil_iff.1 hnil))
  | succ n ih =>
      have hne : s.rx.head ≠ s.rx.tail := by
        intro heq
        rw [hinv.pending_eq_nil_iff.2 heq] at hn
        cases hn
      obtain ⟨hround, hrx, hreadings⟩ := drainRound_of_quiet hne hcalm.1
      obtain ⟨hloop, hend⟩ := ih (hinv.handled_length hne hrx hn) (hrx ▸ hinv.handle hne) hcalm.2
      rw [hreadings] at hend
      refine ⟨fun w m => ?_, hend⟩
      cases m with
      | zero => rfl
      | succ m =>
          rw [outcome_loop_again (hround w), hloop w m]
          simp only [Nat.succ_lt_succ_iff]
          rfl

/-! ## Waiting while the ring is emptied -/

/-- Two dispatches one after the other were of the same slot. -/
def Doubled (rx : RxRing) : Prop :=
  ∃ front a b, a.1 = b.1 ∧ front ++ [a, b] <+: rx.dispatched

/-- A loop that finds a frame dispatches it. -/
theorem drain_dispatches {poll : NetM Unit} {rounds m : Nat} (hpoll : ∀ s, Within Moves s poll)
    (hne : s.rx.head ≠ s.rx.tail) :
    s.rx.dispatched ++ [(s.rx.head, s.rx.front)] <+:
      (outcome (loop (drainRound env poll rounds) (m + 1)) s).2.rx.dispatched := by
  have hround : Moves { s with rx := s.rx.noteDispatch }
      (outcome (drainRound env poll rounds) s).2 := by
    unfold drainRound
    rw [outcome_get_bind, if_neg hne, outcome_modify_bind]
    exact within_bind (dispatch_moves hpoll (noted_noteDispatch s)) fun _ _ _ _ => releaseSlot_moves
  have hrest : Moves (outcome (drainRound env poll rounds) s).2
      (outcome (loop (drainRound env poll rounds) (m + 1)) s).2 :=
    within_loop_after (fun _ => drainRound_moves hpoll) m
  exact dispatched_prefix (hround.rx.trans hrest.rx) (List.prefix_refl _)

theorem foldl_receive (frames : List Frame) (rx : RxRing) :
    (RxInv rx → RxInv (frames.foldl RxRing.receive rx)) ∧
    (frames.foldl RxRing.receive rx).head = rx.head ∧
    (frames.foldl RxRing.receive rx).dispatched = rx.dispatched ∧
    (rx.head ≠ rx.tail →
      (frames.foldl RxRing.receive rx).head ≠ (frames.foldl RxRing.receive rx).tail) := by
  induction frames generalizing rx with
  | nil => exact ⟨id, rfl, rfl, id⟩
  | cons frame frames ih =>
      obtain ⟨hinv, hhead, hlog, hne⟩ := ih (rx.receive frame)
      obtain ⟨hhead', hlog', hne'⟩ := RxInv.receive_head rx frame
      exact ⟨fun h => hinv (h.receive frame), hhead.trans hhead', hlog.trans hlog',
        fun h => hne (hne' h)⟩

/-- Polling while a slot is being handled dispatches the slot again. -/
theorem netPoll_again {rounds depth : Nat} {front : List (Nat × List UInt8)} {bytes : List UInt8}
    (hne : s.rx.head ≠ s.rx.tail) (hlog : s.rx.dispatched = front ++ [(s.rx.head, bytes)]) :
    (outcome (netPoll env (rounds + 1) depth) s).1 = none ∨
      Doubled (outcome (netPoll env (rounds + 1) depth) s).2.rx := by
  cases depth with
  | zero => exact .inl rfl
  | succ depth =>
      obtain ⟨-, hhead, hlog', hne'⟩ := foldl_receive (env.frames s.polls) s.rx
      have hdispatch : (receiveAll env s).rx.dispatched ++
          [((receiveAll env s).rx.head, (receiveAll env s).rx.front)] <+:
            (outcome (netPoll env (rounds + 1) (depth + 1)) s).2.rx.dispatched :=
        drain_dispatches (netPoll_moves env (rounds + 1) depth) (hne' hne)
      refine .inr ⟨front, (s.rx.head, bytes), ((receiveAll env s).rx.head,
        (receiveAll env s).rx.front), hhead.symm, ?_⟩
      have hstart : (receiveAll env s).rx.dispatched = front ++ [(s.rx.head, bytes)] :=
        hlog'.trans hlog
      rwa [hstart, List.append_assoc] at hdispatch

theorem Doubled.moves {s s' : Net} (h : Doubled s.rx) (hmoves : RingMoves s s') :
    Doubled s'.rx := by
  obtain ⟨front, a, b, heq, hfront⟩ := h
  exact ⟨front, a, b, heq, dispatched_prefix hmoves hfront⟩

/-- A handler that has to wait stops the loop or has its slot dispatched twice. -/
theorem drain_of_waits {rounds depth m : Nat} (hne : s.rx.head ≠ s.rx.tail)
    (hwaits : Waits env s) (hmay : MayWait env s) :
    (outcome (loop (drainRound env (netPoll env (rounds + 1) depth) (rounds + 1)) m) s).1 = none ∨
      Doubled (outcome
        (loop (drainRound env (netPoll env (rounds + 1) depth) (rounds + 1)) m) s).2.rx := by
  cases m with
  | zero => exact .inl rfl
  | succ m =>
      have hpoll := netPoll_moves env (rounds + 1) depth
      have hcalls : Calls KeepsRing Moves (netPoll env (rounds + 1) depth)
          { s with rx := s.rx.noteDispatch }
          (dispatch env (netPoll env (rounds + 1) depth) (rounds + 1) s.rx.head
            (s.rx.len s.rx.head) >>= fun _ => releaseSlot) :=
        calls_bind (dispatch_calls hpoll hwaits hmay) fun _ _ => releaseSlot_moves
      obtain ⟨s', hrx, hstop, hmoves⟩ := hcalls
      have hround : outcome (drainRound env (netPoll env (rounds + 1) depth) (rounds + 1)) s =
          outcome (dispatch env (netPoll env (rounds + 1) depth) (rounds + 1) s.rx.head
            (s.rx.len s.rx.head) >>= fun _ => releaseSlot) { s with rx := s.rx.noteDispatch } := by
        unfold drainRound
        rw [outcome_get_bind, if_neg hne, outcome_modify_bind]
      have hagain : (outcome (netPoll env (rounds + 1) depth) s').1 = none ∨
          Doubled (outcome (netPoll env (rounds + 1) depth) s').2.rx := by
        have hlog : s'.rx = s.rx.noteDispatch := hrx
        apply netPoll_again
        · rw [hlog]
          exact hne
        · rw [hlog]
          rfl
      rw [← hround] at hstop hmoves
      rcases hagain with hnone | htwice
      · left
        rw [loop, outcome_bind_none (Prod.ext (hstop hnone) rfl)]
      · right
        apply htwice.moves
        apply hmoves.rx.trans
        exact (within_loop_after (fun _ => drainRound_moves hpoll) m).rx

/-- So does one that comes later. -/
theorem drain_of_not_calm {n rounds depth m : Nat} {ticks : Nat → Nat}
    (hn : s.rx.pending.length = n) (hinv : RxInv s.rx) (hnot : ¬Calm env n s)
    (hmay : MayWait (env.withTicks ticks) s) :
    (outcome (loop (drainRound (env.withTicks ticks)
        (netPoll (env.withTicks ticks) (rounds + 1) depth) (rounds + 1)) m) s).1 = none ∨
      Doubled (outcome (loop (drainRound (env.withTicks ticks)
        (netPoll (env.withTicks ticks) (rounds + 1) depth) (rounds + 1)) m) s).2.rx := by
  induction n generalizing s m with
  | zero => exact absurd trivial hnot
  | succ n ih =>
      have hne : s.rx.head ≠ s.rx.tail := by
        intro heq
        rw [hinv.pending_eq_nil_iff.2 heq] at hn
        cases hn
      by_cases hwaits : Waits env s
      · exact drain_of_waits hne hwaits hmay
      · obtain ⟨hround, hrx, hreadings⟩ := drainRound_of_quiet hne hwaits
        cases m with
        | zero => exact .inl rfl
        | succ m =>
            have hround :=
              hround ⟨ticks, netPoll (env.withTicks ticks) (rounds + 1) depth, rounds + 1⟩
            rw [outcome_loop_again hround]
            apply ih (hinv.handled_length hne hrx hn) (hrx ▸ hinv.handle hne)
            · exact fun hcalm => hnot ⟨hwaits, hcalm⟩
            · unfold MayWait at hmay ⊢
              rwa [hreadings]

/-! ## One poll -/

/-- None of the frames that a poll finds has to wait. -/
def CalmPoll (env : Env) (s : Net) : Prop :=
  Calm env (receiveAll env s).rx.pending.length (receiveAll env s)

/-- The stack after such a poll. -/
def afterPoll (env : Env) (s : Net) : Net :=
  handleAll env (receiveAll env s).rx.pending.length (receiveAll env s)

theorem pending_length_lt {rx : RxRing} (h : RxInv rx) : rx.pending.length < 16 := by
  rw [RxRing.pending, Ring.contents_length]
  exact Ring.count_lt h.head

theorem RxInv.receiveAll (h : RxInv s.rx) : RxInv (receiveAll env s).rx :=
  (foldl_receive (env.frames s.polls) s.rx).1 h

theorem netPoll_of_calm (hinv : RxInv s.rx) (hcalm : CalmPoll env s) :
    (∀ (ticks : Nat → Nat) (rounds depth : Nat),
      outcome (netPoll (env.withTicks ticks) rounds (depth + 1)) s = (some (), afterPoll env s) ∨
      (rounds < 16 ∧ (outcome (netPoll (env.withTicks ticks) rounds (depth + 1)) s).1 = none)) ∧
    RxInv (afterPoll env s).rx ∧ (afterPoll env s).rx.pending = [] := by
  have hstart : RxInv (receiveAll env s).rx := hinv.receiveAll
  obtain ⟨hloop, hinv', hempty, -⟩ := drain_of_calm rfl hstart hcalm
  refine ⟨fun ticks rounds depth => ?_, hinv', hempty⟩
  have hpoll : outcome (netPoll (env.withTicks ticks) rounds (depth + 1)) s = _ :=
    hloop ⟨ticks, netPoll (env.withTicks ticks) rounds depth, rounds⟩ rounds
  have hshort := pending_length_lt hstart
  rw [hpoll]
  split
  next => exact .inl rfl
  next hfew => exact .inr ⟨by omega, rfl⟩

theorem netPoll_of_not_calm {rounds depth : Nat} {ticks : Nat → Nat} (hinv : RxInv s.rx)
    (hnot : ¬CalmPoll env s) (hmay : MayWait (env.withTicks ticks) s) :
    (outcome (netPoll (env.withTicks ticks) rounds depth) s).1 = none ∨
      Doubled (outcome (netPoll (env.withTicks ticks) rounds depth) s).2.rx := by
  cases depth with
  | zero => exact .inl rfl
  | succ depth =>
      cases rounds with
      | zero => exact .inl rfl
      | succ rounds => exact drain_of_not_calm rfl hinv.receiveAll hnot hmay

/-! ## Polls and what happens between them -/

/-- The tick counter does not run backwards and does not stand still for ever. -/
def Advancing (ticks : Nat → Nat) : Prop := Monotone ticks ∧ ∀ n, ∃ i, n ≤ ticks i

/-- What the rest of the kernel does to the stack between two polls: anything
but to touch the ring. -/
structure Activity where
  run : Net → Net
  ring : ∀ s, (run s).rx = s.rx

/-- A poll after each of these activities. -/
def pollAll (env : Env) (rounds depth : Nat) : List Activity → NetM Unit
  | [] => pure ()
  | activity :: rest => do
      modify activity.run
      netPoll env rounds depth
      pollAll env rounds depth rest

/-- No frame has to wait in any of the polls. -/
def CalmRun (env : Env) : List Activity → Net → Prop
  | [], _ => True
  | activity :: rest, s =>
      CalmPoll env (activity.run s) ∧ CalmRun env rest (afterPoll env (activity.run s))

theorem Activity.moves (activity : Activity) (s : Net) : RingMoves s (activity.run s) := by
  unfold RingMoves
  rw [activity.ring]

theorem Activity.rxInv (activity : Activity) (hinv : RxInv s.rx) : RxInv (activity.run s).rx := by
  rwa [activity.ring]

theorem pollAll_moves {rounds depth : Nat} (activities : List Activity) (s : Net) :
    Within RingMoves s (pollAll env rounds depth activities) := by
  induction activities generalizing s with
  | nil => exact within_pure ()
  | cons activity rest ih =>
      refine within_modify_bind (activity.moves s) ?_
      refine within_bind ?_ fun _ s' _ _ => ih s'
      exact (netPoll_moves env rounds depth (activity.run s)).rx

/-- In a calm run every poll returns, and with 16 rounds and one call deep. -/
theorem pollAll_of_calmRun {activities : List Activity} (hinv : RxInv s.rx)
    (hempty : s.rx.pending = []) (hcalm : CalmRun env activities s) :
    ∃ s', (∀ ticks, outcome (pollAll (env.withTicks ticks) 16 1 activities) s = (some (), s')) ∧
      s'.rx.dispatched = s'.rx.accepted := by
  induction activities generalizing s with
  | nil =>
      refine ⟨s, fun _ => rfl, ?_⟩
      rw [hinv.fifo, hempty, List.append_nil]
  | cons activity rest ih =>
      obtain ⟨hcalm, hrest⟩ := hcalm
      obtain ⟨hpoll, hinv', hempty'⟩ := netPoll_of_calm (activity.rxInv hinv) hcalm
      obtain ⟨s', hall, hdone⟩ := ih hinv' hempty' hrest
      refine ⟨s', fun ticks => ?_, hdone⟩
      rw [pollAll, outcome_modify_bind]
      rcases hpoll ticks 16 0 with hreturns | ⟨hfew, -⟩
      · rw [outcome_bind_some hreturns, hall]
      · omega

/-- A timer that stands at 0 until it is read for the `k`-th time. -/
theorem advancing_sub (k : Nat) : Advancing fun i => i - k := by
  constructor
  · intro i j hij
    exact Nat.sub_le_sub_right hij k
  · intro n
    exact ⟨n + k, by simp⟩

/-- Otherwise there is a timer with which the polls do not return or a slot is
dispatched twice. -/
theorem pollAll_of_not_calmRun {activities : List Activity} (hinv : RxInv s.rx)
    (hnot : ¬CalmRun env activities s) :
    ∃ ticks, Advancing ticks ∧ ∀ rounds depth,
      (outcome (pollAll (env.withTicks ticks) rounds depth activities) s).1 = none ∨
        Doubled (outcome (pollAll (env.withTicks ticks) rounds depth activities) s).2.rx := by
  induction activities generalizing s with
  | nil => exact absurd trivial hnot
  | cons activity rest ih =>
      have hinv' := activity.rxInv hinv
      by_cases hcalm : CalmPoll env (activity.run s)
      · obtain ⟨hpoll, hafter, -⟩ := netPoll_of_calm hinv' hcalm
        obtain ⟨ticks, hticks, hall⟩ := ih hafter fun hrest => hnot ⟨hcalm, hrest⟩
        refine ⟨ticks, hticks, fun rounds depth => ?_⟩
        rw [pollAll, outcome_modify_bind]
        cases depth with
        | zero => exact .inl rfl
        | succ depth =>
            rcases hpoll ticks rounds depth with hreturns | ⟨-, hnone⟩
            · rw [outcome_bind_some hreturns]
              exact hall rounds (depth + 1)
            · left
              rw [outcome_bind_none (Prod.ext hnone rfl)]
      · -- the timer starts to tick when the handler that waits reads it again
        refine ⟨fun i => i - (activity.run s).readings, advancing_sub _, fun rounds depth => ?_⟩
        rw [pollAll, outcome_modify_bind]
        have hmay : MayWait (env.withTicks fun i => i - (activity.run s).readings)
            (activity.run s) := by
          simp [MayWait, Env.withTicks]
        rcases netPoll_of_not_calm hinv' hcalm hmay with hnone | htwice
        · left
          rw [outcome_bind_none (Prod.ext hnone rfl)]
        · right
          exact htwice.moves (within_bind_after fun _ s' => pollAll_moves rest s')

theorem rxInv_startNet : RxInv startNet.rx := ⟨by decide, by decide, rfl⟩

theorem slotsDiffer_startNet : SlotsDiffer startNet.rx := ⟨by decide, .nil, nofun⟩

/-- What was dispatched twice in a row was not accepted twice in a row. -/
theorem Doubled.dispatched_ne {rx : RxRing} (h : Doubled rx) (hslots : SlotsDiffer rx) :
    rx.dispatched ≠ rx.accepted := by
  intro heq
  obtain ⟨front, a, b, hsame, rest, hrest⟩ := h
  have hchain := hslots.chain
  rw [← heq, ← hrest] at hchain
  have hpair : [a, b].IsChain fun a b => a.1 ≠ b.1 := hchain.left_of_append.right_of_append
  exact List.isChain_pair.1 hpair hsame

/-- Whatever an advancing timer shows, the calls go no deeper than some bound,
every poll returns and every accepted frame is dispatched once and in order. -/
def DispatchesOnce (env : Env) (activities : List Activity) : Prop :=
  ∃ depth, ∀ ticks, Advancing ticks → ∃ rounds s',
    outcome (pollAll (env.withTicks ticks) rounds depth activities) startNet = (some (), s') ∧
      s'.rx.dispatched = s'.rx.accepted

variable {activities : List Activity}

theorem dispatchesOnce_of_calmRun (hcalm : CalmRun env activities startNet) :
    DispatchesOnce env activities := by
  obtain ⟨s', hreturns, hdone⟩ := pollAll_of_calmRun rxInv_startNet rfl hcalm
  exact ⟨1, fun ticks _ => ⟨16, s', hreturns ticks, hdone⟩⟩

theorem calmRun_of_dispatchesOnce (honce : DispatchesOnce env activities) :
    CalmRun env activities startNet := by
  obtain ⟨depth, hall⟩ := honce
  by_contra hnot
  obtain ⟨ticks, hticks, hbad⟩ := pollAll_of_not_calmRun rxInv_startNet hnot
  obtain ⟨rounds, s', hreturns, hdone⟩ := hall ticks hticks
  have hmoves : Within RingMoves startNet
      (pollAll (env.withTicks ticks) rounds depth activities) := pollAll_moves activities startNet
  rw [Within, hreturns] at hmoves
  have hslots : SlotsDiffer s'.rx :=
    hmoves.inv (fun _ _ hstep => SlotsDiffer.step hstep) slotsDiffer_startNet
  rcases hbad rounds depth with hnone | htwice
  · rw [hreturns] at hnone
    cases hnone
  · rw [hreturns] at htwice
    exact htwice.dispatched_ne hslots hdone

/-- Every accepted frame is dispatched once and in order exactly when no frame
has to wait for the address of the peer it is answered to. -/
theorem net_poll_dispatches_once_iff (env : Env) (activities : List Activity) :
    DispatchesOnce env activities ↔ CalmRun env activities startNet :=
  ⟨calmRun_of_dispatchesOnce, dispatchesOnce_of_calmRun⟩

/-- The gateway pings us. -/
def pingFrame : Frame where
  bytes := (ipFrame ⟨0x52, 0x55, 0x0A, 0x00, 0x02, 0x02⟩ macAddr gateway ourIp ipIcmp
    (echoRequest 1) 64).loadList 0 98
  fits := by simp

/-- It does so before anything else has arrived. -/
def pingEnv : Env where
  frames n := if n = 0 then [pingFrame] else []
  ticks n := n
  kmalloc _ := true
  garbage _ := 0

def idle : Activity := ⟨id, fun _ => rfl⟩

/-- The reply to a ping waits for the address of the peer. -/
theorem uncached_ping_not_dispatched_once : ¬DispatchesOnce pingEnv [idle] := by
  intro honce
  have hwaits : Waits pingEnv (receiveAll pingEnv startNet) := by decide +kernel
  exact (calmRun_of_dispatchesOnce honce).1.1 hwaits

end Dosfs
