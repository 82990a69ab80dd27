import Dosfs.Drivers.Ne2000Polling

/-!
# Calls of the NE2000 driver

`ne2000_init` leaves an empty ring, and from then on any calls of the driver, with packets
arriving while they run and between them, are a run of the ring with the same polls. What
the calls hand over goes out in order.
-/

namespace Dosfs.Ports

open Foundation Shared

/-! ## The start -/

theorem event_still {card : Card} {e : CardEvent} (h : e.Still) :
    (card.event e).nic = card.nic ∧ (card.event e).unread = card.unread := by
  cases e with
  | arrive status packet => exact absurd h not_false
  | transmitted =>
      rw [Card.event, Card.transmit]
      split <;> exact ⟨rfl, rfl⟩
  | transferred =>
      rw [Card.event]
      split <;> exact ⟨rfl, rfl⟩
  | interrupt arrivals =>
      obtain rfl : arrivals = [] := h
      rw [Card.event]
      split
      · rw [neIrqHandler, outb_status, List.foldl_nil]
        split
        next => exact ⟨rfl, rfl⟩
        next hpage =>
          split
          next hpage1 =>
            rw [Card.inb, if_neg (by decide), if_neg hpage, if_pos hpage1, if_pos rfl]
            exact ⟨rfl, rfl⟩
          next => exact ⟨rfl, rfl⟩
      · exact ⟨rfl, rfl⟩

section Start

variable {nic : Nic} {ctl : Control} {wire : List (List UInt8)}

end Start

/-! ## Calls -/

/-- What the rest of the system does with the card: it polls, it sends, and it does
something else meanwhile. -/
inductive Call
  | poll
  | send (buf : Memory) (len : Nat)
  | wait

inductive Answer
  | polled (packet : Option (List UInt8))
  | sent (inTime : Bool)
  | waited

def Call.run : Call → CardM Answer
  | .poll => .polled <$> ne2000Poll
  | .send buf len => .sent <$> ne2000Send buf len
  | .wait => Shared.access Card.event fun c => (.waited, c)

/-- One call, with the events that happen before each of its accesses. -/
def cardStep (call : Call × List (List CardEvent)) (card : Card) : Option (Answer × Card) :=
  let run := call.1.run ⟨card, call.2⟩
  some (run.1, run.2.state)

/-- A frame is sent when the one before is out. While a poll runs nothing arrives inside the
interrupt handler, and when it starts with nothing to read nothing arrives at all, and the
next page holds no header. -/
def Undisturbed : Call × List (List CardEvent) → Card → Prop
  | (.poll, ahead), card =>
      if card.unread = [] then rxLength card.nic < 4 ∧ ∀ batch ∈ ahead, ∀ e ∈ batch, e.Still
      else ∀ batch ∈ ahead, ∀ e ∈ batch, e.Calm
  | (.send _ _, _), card => card.tx.busy = false
  | (.wait, _), _ => True

/-- The packets that the polls returned. -/
def returned (rs : List Answer) : List (List UInt8) :=
  rs.filterMap fun
    | .polled packet => packet
    | _ => none

/-- The frames that the calls handed over. -/
def handed (calls : List (Call × List (List CardEvent))) : List (List UInt8) :=
  calls.filterMap fun
    | (.send buf len, _) => some (buf.loadList 0 (min len 1500))
    | _ => none

theorem returned_append (rs rs' : List Answer) :
    returned (rs ++ rs') = returned rs ++ returned rs' := List.filterMap_append

theorem handed_append (calls calls' : List (Call × List (List CardEvent))) :
    handed (calls ++ calls') = handed calls ++ handed calls' := List.filterMap_append

/-! ## One call -/

theorem Arrives.runsTo {s t : NicRun} (h : Arrives s t) : RunsTo nicStep s t := by
  induction h with
  | refl => exact RunsTo.refl _
  | @store t h status packet hfits ih =>
      have hstep : nicStep (.arrive status packet) t =
          some (none, Ports.store t status packet) := by
        simp only [nicStep, if_pos hfits]
        rfl
      exact ih.trans (RunsTo.single hstep)

/-- The polls returned what was stored, in order and as far as it is read. -/
def Kept (s : NicRun) : Prop := s.delivered ++ s.unread = s.stored ∧ Orderly s

theorem Arrives.kept {s t : NicRun} (h : Arrives s t) (hs : Kept s) :
    Kept t ∧ t.delivered = s.delivered := by
  induction h with
  | refl => exact ⟨hs, rfl⟩
  | @store t h status packet hfits ih =>
      obtain ⟨⟨hinOrder, horderly⟩, hdelivered⟩ := ih
      refine ⟨⟨?_, horderly.store hfits status⟩, hdelivered⟩
      change t.delivered ++ (t.unread ++ [packet]) = t.stored ++ [packet]
      rw [← List.append_assoc, hinOrder]

/-- A poll of the ring that has a packet, or finds no header. -/
theorem Kept.poll {s s' : NicRun} {r : Option (List UInt8)} (h : Kept s)
    (hheader : s.unread = [] → rxLength s.nic < 4) (hstep : nicStep .poll s = some (r, s')) :
    Kept s' ∧ s'.delivered = s.delivered ++ r.toList := by
  have hnone (hpoll : Dosfs.ne2000Poll s.nic = (none, s.nic)) :
      Kept s' ∧ s'.delivered = s.delivered ++ r.toList := by
    rw [nicStep_poll_none hpoll] at hstep
    obtain ⟨rfl, rfl⟩ := Prod.mk.inj (Option.some.inj hstep)
    exact ⟨⟨h.1, h.2.1, h.2.2.bounded, h.2.2.sizes, h.2.2.laid⟩, (List.append_nil _).symm⟩
  by_cases hcurr : s.nic.curr = s.nic.bndry
  · exact hnone (by rw [Dosfs.ne2000Poll, if_pos hcurr])
  · cases hunread : s.unread with
    | nil =>
        rcases ne2000Poll_cases hcurr with ⟨-, hpoll⟩ | ⟨hlong, -⟩
        · exact hnone hpoll
        · exact absurd (hheader hunread) (by omega)
    | cons packet rest =>
        -- the history of idle polls does not matter
        have hprotocol : NicRun.Protocol { s with idle := [] } :=
          ⟨h.1, fun _ hn => absurd hn List.not_mem_nil, h.2.1⟩
        have hholds : NicRun.Holds { s with idle := [] } :=
          ⟨h.2.2.bounded, h.2.2.sizes, h.2.2.laid⟩
        obtain ⟨nic, hpoll, hprotocol', hholds'⟩ := hprotocol.deliver hholds hunread hcurr
        rw [nicStep_poll_some (s := s) hpoll] at hstep
        obtain ⟨rfl, rfl⟩ := Prod.mk.inj (Option.some.inj hstep)
        exact ⟨⟨hprotocol'.inOrder, hprotocol'.notPassed, hholds'.bounded, hholds'.sizes,
          hholds'.laid⟩, rfl⟩

/-- Between two calls: the card shows the ring, page 0 is selected, and transfers are by
words. -/
structure Serves (s : NicRun) (frames : List (List UInt8)) (card : Card) : Prop where
  shows : Shows card s
  kept : Kept s
  sent : Sent frames card
  page : card.page = 0
  word : card.ctl.dcfg &&& 1 ≠ 0

section Steps

variable {s : NicRun} {frames : List (List UInt8)} {card : Card} {ahead : List (List CardEvent)}

/-- What one call does: the ring runs on, the polls answer what those of the ring answer, and
the frame of the call goes behind the others. -/
def Steps (s : NicRun) (frames : List (List UInt8)) (call : Call × List (List CardEvent))
    (card : Card) : Prop :=
  ∃ r card' s', cardStep call card = some (r, card') ∧ RunsTo nicStep s s' ∧
    Serves s' (frames ++ handed [call]) card' ∧ s'.delivered = s.delivered ++ returned [r]

theorem Serves.poll (h : Serves s frames card) (hcond : Undisturbed (.poll, ahead) card) :
    Steps s frames (.poll, ahead) card := by
  have hmoment : ∃ moment : NicRun → Prop,
      (∀ t, moment t → Arrives s t ∧ (t.unread = [] → rxLength t.nic < 4)) ∧
      Polled moment frames card.ctl (ne2000Poll ⟨card, ahead⟩).1
        (ne2000Poll ⟨card, ahead⟩).2.state := by
    change if card.unread = [] then _ else _ at hcond
    split at hcond
    next hempty =>
      obtain ⟨hheader, hstill⟩ := hcond
      refine ⟨(· = s), ?_, (triple_ne2000Poll_still (fun _ h => h) h.kept.2 h.word ⟨card, ahead⟩
        hstill ⟨⟨h.shows, h.sent⟩, rfl⟩).1⟩
      rintro t rfl
      refine ⟨.refl t, fun _ => ?_⟩
      have hread := h.shows.neDmaRead h.kept.2 (show 0 < 256 by omega) 4
      rw [Nat.add_zero] at hread
      unfold rxLength at hheader ⊢
      rwa [h.shows.bndry, hread] at hheader
    next hwaiting =>
      rw [h.shows.unread] at hwaiting
      refine ⟨Arrives s, fun t harrives => ⟨harrives, fun hempty => absurd ?_ hwaiting⟩,
        (triple_ne2000Poll_waiting (fun _ h => h) h.kept.2 hwaiting h.word ⟨card, ahead⟩
          hcond ⟨⟨⟨s, .refl s, h.shows⟩, h.sent⟩, rfl⟩).1⟩
      have hprefix := harrives.unread
      rw [hempty] at hprefix
      exact List.prefix_nil.mp hprefix
  obtain ⟨moment, hheader, hpolled⟩ := hmoment
  have hstep : cardStep (.poll, ahead) card = some (.polled (ne2000Poll ⟨card, ahead⟩).1,
      (ne2000Poll ⟨card, ahead⟩).2.state) := by
    rw [cardStep, Call.run, map_run]
  unfold Steps
  rw [hstep]
  generalize ne2000Poll ⟨card, ahead⟩ = run at hpolled ⊢
  obtain ⟨t, t', ht, hpoll, cr, rsar, rcnt, hcr, ⟨⟨u, harrives', hshows⟩, hsent⟩, hctl⟩ := hpolled
  obtain ⟨harrives, hheader⟩ := hheader t ht
  obtain ⟨hkept, hdelivered⟩ := harrives.kept h.kept
  obtain ⟨hkept', hdelivered'⟩ := hkept.poll hheader hpoll
  obtain ⟨hkept'', hdelivered''⟩ := harrives'.kept hkept'
  refine ⟨_, _, u, rfl, (harrives.runsTo.trans (RunsTo.single hpoll)).trans harrives'.runsTo,
    ⟨hshows, hkept'', ?_, ?_, ?_⟩, ?_⟩
  · exact (List.append_nil frames).symm ▸ hsent
  · rw [Card.page, hctl]
    exact hcr
  · rw [hctl]
    exact h.word
  · rw [hdelivered'', hdelivered', hdelivered]
    cases run.1 <;> rfl

/-- Whether or not the card was in time, the frame is the only one behind the others. -/
theorem Serves.send (h : Serves s frames card) {buf : Memory} {len : Nat}
    (hidle : card.tx.busy = false) : Steps s frames (.send buf len, ahead) card := by
  have hsends : Triple (fun _ => True) _ (ne2000Send buf len) _ :=
    triple_ne2000Send h.kept.2.2.bounded hidle h.page h.word buf len
  have hpost := (hsends ⟨card, ahead⟩ (fun _ _ _ _ => trivial)
    ⟨⟨⟨s, .refl s, h.shows⟩, rfl⟩, rfl⟩).1
  have hstep : cardStep (.send buf len, ahead) card = some
      (.sent (ne2000Send buf len ⟨card, ahead⟩).1, (ne2000Send buf len ⟨card, ahead⟩).2.state) := by
    rw [cardStep, Call.run, map_run]
  unfold Steps
  rw [hstep]
  generalize ne2000Send buf len ⟨card, ahead⟩ = run at hpost ⊢
  obtain ⟨⟨rsar, rcnt, ⟨⟨u, harrives, hshows⟩, hwritten, htx⟩, hctl⟩, -⟩ := hpost
  obtain ⟨hkept, hdelivered⟩ := harrives.kept h.kept
  have hframes : card.tx.wire = frames := by
    have hsent := h.sent.frames
    rwa [Card.pending, hidle, if_neg Bool.false_ne_true, List.append_nil] at hsent
  refine ⟨_, _, u, rfl, harrives.runsTo, ⟨hshows, hkept, ?_, ?_, ?_⟩, ?_⟩
  · rcases htx with hbusy | hdone
    · refine ⟨?_, fun _ => by rw [hbusy]; exact ⟨rfl, Nat.min_le_right _ _⟩⟩
      have hframe := hwritten.outgoing (by rw [hbusy]) (by rw [hbusy])
      rw [Card.pending, hframe, hbusy, if_pos rfl]
      exact congrArg (· ++ _) hframes
    · refine ⟨?_, fun hbusy => ?_⟩
      · rw [Card.pending, hdone, if_neg Bool.false_ne_true, List.append_nil]
        exact congrArg (· ++ _) hframes
      · rw [hdone] at hbusy
        exact absurd hbusy Bool.false_ne_true
  · rw [Card.page, hctl]
    exact show (0x06 : UInt8) >>> 6 = 0 by decide
  · rw [hctl]
    exact h.word
  · rw [hdelivered]
    exact (List.append_nil _).symm

theorem Serves.wait (h : Serves s frames card) : Steps s frames (.wait, ahead) card := by
  have hpost : Triple (fun _ => True)
      (fun c => At (fun c => Follows s c ∧ Sent frames c) card.ctl c ∧ c.page = 0) Call.wait.run
      fun r c => r = .waited ∧ At (fun c => Follows s c ∧ Sent frames c) card.ctl c ∧
        c.page = 0 := by
    refine triple_access ?_ fun c hc => ⟨rfl, hc⟩
    rintro c e - ⟨⟨⟨hring, hsent⟩, hctl⟩, hpage⟩
    exact ⟨⟨⟨hring.event (.inl hpage), hsent.event e⟩, (event_ctl c e).trans hctl⟩,
      (event_page c e).trans hpage⟩
  obtain ⟨⟨hr, ⟨⟨⟨u, harrives, hshows⟩, hsent⟩, hctl⟩, hpage⟩, -⟩ := hpost ⟨card, ahead⟩
    (fun _ _ _ _ => trivial) ⟨⟨⟨⟨s, .refl s, h.shows⟩, h.sent⟩, rfl⟩, h.page⟩
  obtain ⟨hkept, hdelivered⟩ := harrives.kept h.kept
  refine ⟨_, _, u, rfl, harrives.runsTo, ⟨hshows, hkept, ?_, hpage, ?_⟩, ?_⟩
  · exact (List.append_nil frames).symm ▸ hsent
  · rw [hctl]
    exact h.word
  · rw [hdelivered, hr]
    exact (List.append_nil _).symm

theorem Serves.step (h : Serves s frames card) {call : Call × List (List CardEvent)}
    (hcond : Undisturbed call card) : Steps s frames call card := by
  obtain ⟨call, ahead⟩ := call
  cases call with
  | poll => exact h.poll hcond
  | send buf len => exact h.send hcond
  | wait => exact h.wait

end Steps

/-! ## Runs -/

/-- Every run of undisturbed calls goes through. The ring has run on to a state that the card
shows, the polls returned what was delivered there, and the frames of the calls are behind
those from before. -/
theorem Serves.run {s : NicRun} {frames : List (List UInt8)} {card : Card}
    (h : Serves s frames card) {calls : List (Call × List (List CardEvent))}
    (hcond : Throughout cardStep Undisturbed calls card) :
    ∃ rs card' s', runAll cardStep calls card = some (rs, card') ∧ RunsTo nicStep s s' ∧
      Serves s' (frames ++ handed calls) card' ∧ s'.delivered = s.delivered ++ returned rs := by
  induction calls generalizing s frames card with
  | nil =>
      refine ⟨[], card, s, rfl, RunsTo.refl s, ?_, (List.append_nil _).symm⟩
      exact (List.append_nil frames).symm ▸ h
  | cons call calls ih =>
      obtain ⟨r, card₁, s₁, hstep, hruns, hserves, hdelivered⟩ := h.step hcond.1
      obtain ⟨rs, card₂, s₂, hrun, hruns', hserves', hdelivered'⟩ :=
        ih hserves (hcond.2 r card₁ hstep)
      refine ⟨r :: rs, card₂, s₂, by simp [runAll, hstep, hrun], hruns.trans hruns', ?_, ?_⟩
      · rw [List.append_assoc, ← handed_append] at hserves'
        exact hserves'
      · rw [hdelivered', hdelivered, List.append_assoc, ← returned_append]
        rfl

/-- Between the two commands of a poll the interrupt handler writes `CURR`, which it takes for
the interrupt status. What arrives inside it is stored and yet out of reach: no orderly ring
looks like this. -/
theorem irqHandler_setsBack {s : NicRun} {card : Card} (h : Shows card s) (hs : Orderly s)
    (hpage : card.page = 1) {packet : List UInt8} (hfits : s.Accepts packet) (status : UInt8) :
    let card' := neIrqHandler card [(status, packet)]
    card'.unread = s.unread ++ [packet] ∧ card'.nic.curr = s.nic.curr ∧
      ∀ t, Orderly t → ¬ Shows card' t := by
  have haccepts : card.Accepts packet := by
    rw [Card.Accepts, h.unread]
    exact hfits
  have hcurr : card.inb 0x07 = s.nic.curr := by
    rw [Card.inb, if_neg (by decide), if_neg (by rw [hpage]; decide), if_pos hpage, if_pos rfl]
    exact h.curr
  have hpage' : (card.receive status packet).page = 1 := by
    rw [Card.page, (receive_ctl card status packet).1]
    exact hpage
  have hcard : neIrqHandler card [(status, packet)] = { card.receive status packet with
      nic := { (card.receive status packet).nic with curr := s.nic.curr } } := by
    rw [neIrqHandler, hcurr, outb_status, List.foldl_cons, List.foldl_nil,
      if_neg (by rw [hpage']; decide), if_pos hpage']
  have hreceive : card.receive status packet = { card with
      nic := card.nic.receive status packet
      unread := card.unread ++ [packet]
      isr := card.isr ||| 0x01 } := if_pos haccepts
  intro card'
  have hunread : card'.unread = s.unread ++ [packet] := by
    change (neIrqHandler card [(status, packet)]).unread = _
    rw [hcard, hreceive, ← h.unread]
  refine ⟨hunread, by change (neIrqHandler card _).nic.curr = _; rw [hcard], fun t ht hshows => ?_⟩
  -- both distances to `CURR` would be those of one page
  have hbndry : t.nic.bndry = s.nic.bndry := by
    rw [← hshows.bndry, ← h.bndry]
    change (neIrqHandler card [(status, packet)]).nic.bndry = _
    rw [hcard, hreceive]
    rfl
  have hback : t.nic.curr = s.nic.curr := by
    rw [← hshows.curr]
    change (neIrqHandler card [(status, packet)]).nic.curr = _
    rw [hcard]
  have hpages : packetPages packet ≤ 6 ∧ 1 ≤ packetPages packet := by
    have hsize := hfits.1
    rw [packetPages]
    omega
  have hindex := congrArg pageIndex hback
  rw [ht.1.2.2, hs.1.2.2, hbndry, ← hshows.unread, hunread, unreadPages_append,
    pageIndex_pageAt, pageIndex_pageAt] at hindex
  omega

/-- An empty ring, while a poll reads `CURR`. -/
theorem irqHandler_setsBack_polling :
    let card' := neIrqHandler { readyCard with ctl := { readyCard.ctl with cr := 0x42 } } [(1, [7])]
    card'.unread = [] ++ [[7]] ∧ card'.nic.curr = 0x4D ∧ ∀ t, Orderly t → ¬ Shows card' t :=
  let hsettled := NicRun.settled_start coldCard.nic
  irqHandler_setsBack ⟨rfl, rfl, rfl, rfl, fun _ _ => rfl, rfl⟩ ⟨hsettled.1.notPassed, hsettled.2⟩
    (by decide) (by decide) 1

end Dosfs.Ports
