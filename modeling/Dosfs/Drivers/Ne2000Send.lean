import Dosfs.Drivers.Ne2000Transfers

/-!
# Sending with the NE2000

`ne2000_send` copies the frame into the pages below the receive ring and starts the
transmission. Whatever arrives meanwhile, and however long the card takes, the frame goes
out once and unchanged, and the ring is none the wiser.
-/

namespace Dosfs.Ports

open Foundation Shared

variable {allowed : CardEvent → Prop} {I : Card → Prop} {ctl : Control} {card : Card}

/-! ## Memory below the ring -/

theorem receive_mem (card : Card) (status : UInt8) (packet : List UInt8) {addr : Nat}
    (haddr : addr < 0x4C00) : (card.receive status packet).nic.mem addr = card.nic.mem addr := by
  unfold Card.receive
  split
  · exact if_neg fun h => absurd h.1 (Nat.not_le.mpr haddr)
  · rfl

theorem receiveAll_mem (card : Card) (arrivals : List (UInt8 × List UInt8)) {addr : Nat}
    (haddr : addr < 0x4C00) :
    (arrivals.foldl (fun card p => card.receive p.1 p.2) card).nic.mem addr =
      card.nic.mem addr := by
  induction arrivals generalizing card with
  | nil => rfl
  | cons p arrivals ih => exact (ih _).trans (receive_mem card p.1 p.2 haddr)

/-- Nothing but the driver writes below the ring. -/
theorem event_mem (card : Card) (e : CardEvent) {addr : Nat} (haddr : addr < 0x4C00) :
    (card.event e).nic.mem addr = card.nic.mem addr := by
  cases e with
  | arrive status packet => exact receive_mem card status packet haddr
  | transmitted =>
      rw [Card.event, Card.transmit]
      split <;> rfl
  | transferred =>
      rw [Card.event]
      split <;> rfl
  | interrupt arrivals =>
      have hall := receiveAll_mem card arrivals haddr
      rw [Card.event]
      split
      · rw [neIrqHandler, outb_status]
        split
        · exact hall
        · split
          · exact hall
          · exact hall
      · rfl

/-- The first bytes of the source are in the memory of the card. -/
def Written (addr : Nat) (src : Memory) (n : Nat) (card : Card) : Prop :=
  ∀ j < n, card.nic.mem (addr + j) = src j

theorem Written.event {addr n : Nat} {src : Memory} (h : Written addr src n card)
    (hroom : addr + n ≤ 0x4C00) (e : CardEvent) : Written addr src n (card.event e) := by
  intro j hj
  rw [event_mem card e (by omega)]
  exact h j hj

/-- The assertion does not look at the memory below the ring. -/
def AboveOnly (I : Card → Prop) : Prop :=
  ∀ (card : Card) (addr : Nat) (b : UInt8), addr < 0x4C00 → I card →
    I { card with nic := { card.nic with mem := Function.update card.nic.mem addr b } }

theorem Framed.written (h : Framed allowed I) {addr n : Nat} (src : Memory)
    (hroom : addr + n ≤ 0x4C00) : Framed allowed fun c => I c ∧ Written addr src n c where
  stable card e he hpage hc := ⟨h.stable card e he hpage hc.1, hc.2.event hroom e⟩
  frame card isr ctl hc := ⟨h.frame card isr ctl hc.1, hc.2⟩

/-! ## Writing -/

theorem nextCell_below {addr : Nat} (h : addr < 0x4C00) : nextCell addr = addr + 1 :=
  if_neg (by omega)

/-- A word of the data port goes to the next two bytes. -/
theorem outw_below (hbounded : card.nic.Bounded) (hword : card.ctl.dcfg &&& 1 ≠ 0)
    (hleft : card.ctl.rcnt ≠ 0) (hroom : card.ctl.rsar + 1 < 0x4C00) (w : UInt16) :
    card.outw w =
      { card with
        nic := { card.nic with
          mem := Function.update (Function.update card.nic.mem card.ctl.rsar w.toUInt8)
            (card.ctl.rsar + 1) (w >>> 8).toUInt8 }
        ctl := { card.ctl with rsar := card.ctl.rsar + 2, rcnt := card.ctl.rcnt - 1 - 1 } } := by
  have hfirst : card.nic.nextAddr card.ctl.rsar = card.ctl.rsar + 1 := by
    rw [nextAddr_eq hbounded, nextCell_below (by omega)]
  have hsecond (mem : Nat → UInt8) : ({ card.nic with mem } : Nic).nextAddr (card.ctl.rsar + 1) =
      card.ctl.rsar + 2 := by
    rw [nextAddr_eq (by exact hbounded), nextCell_below hroom]
  unfold Card.outw Card.putByte Card.step
  rw [if_neg hleft, if_neg hword]
  dsimp only
  rw [hfirst, hsecond]

theorem wordAt_low (src : Memory) (len i : Nat) : (wordAt src len i).toUInt8 = src (i * 2) := by
  unfold wordAt
  dsimp only
  split
  · exact word_low _ _
  · rw [← UInt8.toBitVec_inj]
    ext j hj
    simp

theorem wordAt_high {src : Memory} {len i : Nat} (h : i * 2 + 1 < len) :
    (wordAt src len i >>> 8).toUInt8 = src (i * 2 + 1) := by
  unfold wordAt
  dsimp only
  rw [if_pos h, word_high]

/-- The words that are left are written. -/
theorem Framed.triple_writeWords (h : Framed allowed I) (habove : AboveOnly I)
    (hbounded : ∀ c, I c → c.nic.Bounded) (ctl : Control) (hpage : ctl.cr >>> 6 = 0)
    (hword : ctl.dcfg &&& 1 ≠ 0) (src : Memory) {addr len i todo : Nat}
    (hroom : addr + len < 0x4C00) (htodo : todo = (len - i * 2 + 1) / 2) :
    Triple allowed
      (At (fun c => I c ∧ Written addr src (min (i * 2) len) c)
        { ctl with rsar := addr + i * 2, rcnt := len - i * 2 })
      (writeWords src len i todo)
      fun _ c => ∃ rsar rcnt,
        At (fun c => I c ∧ Written addr src len c) { ctl with rsar, rcnt } c := by
  induction todo generalizing i with
  | zero =>
      refine (triple_pure ()).pre fun c hc => ⟨_, _, hc.1.imp_right fun hw => ?_, hc.2⟩
      rwa [Nat.min_eq_right (by omega)] at hw
  | succ todo ih =>
      refine Triple.bind (triple_access
        ((h.written src (by omega)).stable_at (by exact hpage)) ?_) fun _ => ih (by omega)
      rintro card ⟨⟨hI, hwritten⟩, hctl⟩
      have hleft : card.ctl.rcnt ≠ 0 := by
        rw [hctl]
        dsimp only
        omega
      have haddr : card.ctl.rsar = addr + i * 2 := by rw [hctl]
      rw [outw_below (hbounded card hI) (by rw [hctl]; exact hword) hleft (by omega), haddr]
      refine ⟨⟨?_, fun j hj => ?_⟩, ?_⟩
      · have hlow := habove card (addr + i * 2) (wordAt src len i).toUInt8 (by omega) hI
        exact h.frame _ card.isr _ (habove _ (addr + i * 2 + 1) _ (by omega) hlow)
      · -- the two new bytes, and the bytes before them
        dsimp only
        by_cases hhigh : j = i * 2 + 1
        · subst hhigh
          rw [← Nat.add_assoc, Function.update_self, wordAt_high (by omega)]
        · rw [Function.update_of_ne (by omega)]
          by_cases hlow : j = i * 2
          · subst hlow
            rw [Function.update_self, wordAt_low]
          · rw [Function.update_of_ne (by omega)]
            exact hwritten j (by omega)
      · dsimp only
        rw [hctl]
        dsimp only
        rw [show addr + i * 2 + 2 = addr + (i + 1) * 2 by omega,
          show len - i * 2 - 1 - 1 = len - (i + 1) * 2 by omega]

/-- A remote write puts the bytes into the memory of the card. -/
theorem Framed.triple_neDmaWrite (h : Framed allowed I) (habove : AboveOnly I)
    (hbounded : ∀ c, I c → c.nic.Bounded) (hpage : ctl.cr >>> 6 = 0)
    (hword : ctl.dcfg &&& 1 ≠ 0) (src : Memory) {addr len : Nat} (hroom : addr + len < 0x4C00) :
    Triple allowed (At I ctl) (neDmaWrite addr src len) fun _ c => ∃ rsar rcnt,
      At (fun c => I c ∧ Written addr src len c) { ctl with cr := 0x12, rsar, rcnt } c := by
  have hcr : (0x12 : UInt8) >>> 6 = 0 := by decide
  refine (h.triple_picRead hpage).bind fun mask => triple_fact fun hmask => ?_
  refine (h.triple_picWrite hpage _).bind fun _ => ?_
  refine (h.triple_startTransfer (by exact hpage) (by decide) (by omega) (by omega)).bind
    fun _ => ?_
  have hwords := h.triple_writeWords habove hbounded
    { ctl with mask := mask ||| irqMask, cr := 0x12 } hcr hword src hroom (i := 0) rfl
  refine (hwords.pre fun c hc => ?_).bind fun _ =>
    triple_exists fun rsar => triple_exists fun rcnt => ?_
  · refine ⟨⟨hc.1, fun j hj => absurd hj (by omega)⟩, hc.2⟩
  have hwritten : Framed allowed fun c => I c ∧ Written addr src len c := h.written src (by omega)
  refine (hwritten.triple_awaitBit (by exact hcr) 0x40).bind fun _ => ?_
  refine (hwritten.triple_picWrite (by exact hcr) _).post fun _ c hc => ?_
  exact ⟨rsar, rcnt, by rw [hmask] at hc; exact hc⟩

/-! ## The transmission -/

theorem Arrives.bounded {s t : NicRun} (h : Arrives s t) (hs : s.nic.Bounded) : t.nic.Bounded := by
  induction h with
  | refl => exact hs
  | store _ _ _ ih => exact ih

/-- The card shows the ring, with what has arrived since. -/
def Follows (s : NicRun) (card : Card) : Prop := ∃ t, Arrives s t ∧ Shows card t

theorem Follows.bounded {s : NicRun} (h : Follows s card) (hs : s.nic.Bounded) :
    card.nic.Bounded := by
  obtain ⟨t, harrives, hshows⟩ := h
  obtain ⟨hstart, hstop⟩ := harrives.bounded hs
  exact ⟨hshows.pstart.trans hstart, hshows.pstop.trans hstop⟩

theorem Follows.event {s : NicRun} {e : CardEvent} (h : Follows s card)
    (hcalm : card.page = 0 ∨ e.Calm) : Follows s (card.event e) := by
  obtain ⟨t, harrives, hshows⟩ := h
  obtain ⟨u, harrives', hshows'⟩ := hshows.event hcalm
  exact ⟨u, harrives.trans harrives', hshows'⟩

theorem Follows.congr {s : NicRun} {card' : Card} (h : Follows s card)
    (hnic : card'.nic = card.nic) (hunread : card'.unread = card.unread) : Follows s card' := by
  obtain ⟨t, harrives, hshows⟩ := h
  exact ⟨t, harrives, hshows.congr hnic hunread⟩

/-- The transmitter stays as it is, or what it was sending has gone out. -/
theorem event_tx_cases (card : Card) (e : CardEvent) :
    (card.event e).tx = card.tx ∨ card.tx.busy = true ∧ (card.event e).tx =
      { card.tx with busy := false, wire := card.tx.wire ++ [card.outgoing] } := by
  cases e with
  | arrive status packet => exact .inl (receive_ctl card status packet).2
  | transmitted =>
      rw [Card.event, Card.transmit]
      split
      next hbusy => exact .inr ⟨hbusy, rfl⟩
      next => exact .inl rfl
  | transferred =>
      rw [Card.event]
      split <;> exact .inl rfl
  | interrupt arrivals =>
      rw [Card.event]
      split
      · exact .inl (irqHandler_ctl arrivals).2
      · exact .inl rfl

theorem event_tx (hidle : card.tx.busy = false) (e : CardEvent) :
    (card.event e).tx = card.tx :=
  (event_tx_cases card e).resolve_right fun h => Bool.false_ne_true (hidle.symm.trans h.1)

/-- The ring is followed, and the transmitter rests with these registers. -/
def Idle (s : NicRun) (tx : Transmitter) (card : Card) : Prop :=
  Follows s card ∧ card.tx = tx

theorem framed_idle (s : NicRun) {tx : Transmitter} (hidle : tx.busy = false) :
    Framed allowed (Idle s tx) where
  stable _ e _ hpage hc :=
    ⟨hc.1.event (.inl hpage), (event_tx (hc.2 ▸ hidle) e).trans hc.2⟩
  frame _ _ _ hc := ⟨hc.1.congr rfl rfl, hc.2⟩

theorem Idle.above (s : NicRun) (tx : Transmitter) : AboveOnly (Idle s tx) := by
  rintro card addr b haddr ⟨⟨t, harrives, hshows⟩, htx⟩
  refine ⟨⟨t, harrives, hshows.pstart, hshows.pstop, hshows.bndry, hshows.curr, ?_,
    hshows.unread⟩, htx⟩
  intro cell hcell
  refine Eq.trans ?_ (hshows.cells cell hcell)
  exact Function.update_of_ne (by omega) _ _

/-- The bit for a finished transmission. -/
def Finished (card : Card) : Prop := card.isr &&& 0x02 ≠ 0

theorem finished_or {isr bit : UInt8} (h : bit &&& 0x02 = 0) :
    (isr ||| bit) &&& 0x02 = isr &&& 0x02 := by
  rw [← UInt8.toBitVec_inj] at h ⊢
  rw [UInt8.toBitVec_and, UInt8.toBitVec_or, BitVec.and_or_distrib_right, ← UInt8.toBitVec_and bit,
    h, UInt8.toBitVec_and, UInt8.toBitVec_zero, BitVec.or_zero]

theorem receive_finished (card : Card) (status : UInt8) (packet : List UInt8) :
    Finished (card.receive status packet) ↔ Finished card := by
  unfold Card.receive Finished
  split
  · rw [finished_or (by decide)]
  · exact Iff.rfl

/-- With the interrupt masked, the bit comes up with the end of a transmission only. -/
theorem event_finished (hmask : card.ctl.mask &&& irqMask ≠ 0) {e : CardEvent}
    (h : Finished (card.event e)) :
    Finished card ∨ card.tx.busy = true ∧ (card.event e).tx.busy = false := by
  cases e with
  | arrive status packet => exact .inl ((receive_finished card status packet).mp h)
  | transmitted =>
      rw [Card.event, Card.transmit] at h ⊢
      split
      next hbusy => exact .inr ⟨hbusy, rfl⟩
      next hidle =>
        rw [if_neg hidle] at h
        exact .inl h
  | transferred =>
      rw [Card.event] at h
      split at h
      · unfold Finished at h
        rw [finished_or (by decide)] at h
        exact .inl h
      · exact .inl h
  | interrupt arrivals =>
      rw [Card.event, if_neg fun hirq => hmask hirq.1] at h
      exact .inl h

/-- The interrupt is masked, and the bit is up only when nothing is being sent. -/
def Tells (card : Card) : Prop :=
  card.ctl.mask &&& irqMask ≠ 0 ∧ (Finished card → card.tx.busy = false)

theorem Tells.event (h : Tells card) (e : CardEvent) : Tells (card.event e) := by
  obtain ⟨hmask, htells⟩ := h
  refine ⟨by rw [event_ctl]; exact hmask, fun hfinished => ?_⟩
  rcases event_finished hmask hfinished with hbefore | ⟨-, hidle⟩
  · rw [event_tx (htells hbefore)]
    exact htells hbefore
  · exact hidle

section Transmission

variable {s : NicRun} {tx : Transmitter} {buf : Memory} {len : Nat}

/-- The frame is in the memory of the card, and either it is being sent, or it has gone
out and nothing else has. -/
def Sending (s : NicRun) (tx : Transmitter) (buf : Memory) (len : Nat) (card : Card) : Prop :=
  Follows s card ∧ Written 0x4000 buf len card ∧
    (card.tx = { tx with busy := true } ∨
      card.tx = { tx with busy := false, wire := tx.wire ++ [buf.loadList 0 len] })

theorem Written.outgoing (h : Written 0x4000 buf len card) (htpsr : card.tx.tpsr = 0x40)
    (htcnt : card.tx.tcnt = len) : card.outgoing = buf.loadList 0 len := by
  rw [Card.outgoing, htpsr, htcnt]
  refine List.map_congr_left fun j hj => ?_
  rw [Nat.zero_add]
  exact h j (List.mem_range.mp hj)

theorem Sending.event (htpsr : tx.tpsr = 0x40) (htcnt : tx.tcnt = len) (hlen : len ≤ 1500)
    (h : Sending s tx buf len card) (hpage : card.page = 0) (e : CardEvent) :
    Sending s tx buf len (card.event e) := by
  obtain ⟨hring, hwritten, htx⟩ := h
  refine ⟨hring.event (.inl hpage), hwritten.event (by omega) e, ?_⟩
  rcases htx with hbusy | hdone
  · have hframe := hwritten.outgoing (by rw [hbusy]; exact htpsr) (by rw [hbusy]; exact htcnt)
    rcases event_tx_cases card e with hkeep | ⟨-, hover⟩
    · exact .inl (hkeep.trans hbusy)
    · rw [hframe, hbusy] at hover
      exact .inr hover
  · exact .inr ((event_tx (by rw [hdone]) e).trans hdone)

theorem framed_sending (htpsr : tx.tpsr = 0x40) (htcnt : tx.tcnt = len) (hlen : len ≤ 1500) :
    Framed allowed (Sending s tx buf len) where
  stable _ e _ hpage hc := hc.event htpsr htcnt hlen hpage e
  frame _ _ _ hc := ⟨hc.1.congr rfl rfl, hc.2⟩

/-- The driver waits, with the interrupt masked. -/
theorem triple_awaitSent (htpsr : tx.tpsr = 0x40) (htcnt : tx.tcnt = len) (hlen : len ≤ 1500)
    {ctl : Control} (hpage : ctl.cr >>> 6 = 0) :
    Triple allowed (fun c => At (Sending s tx buf len) ctl c ∧ Tells c) (awaitBit 0x02)
      fun sent c => At (Sending s tx buf len) ctl c ∧ (sent = true → c.tx.busy = false) := by
  have hframed : Framed allowed (Sending s tx buf len) := framed_sending htpsr htcnt hlen
  have hstable : Stable Card.event allowed fun c => At (Sending s tx buf len) ctl c ∧ Tells c :=
    (hframed.stable_at hpage).and fun c e _ hc => hc.event e
  have hdone : Framed allowed fun c => Sending s tx buf len c ∧ c.tx.busy = false := by
    refine ⟨fun c e he hp hc => ⟨hframed.stable c e he hp hc.1, ?_⟩,
      fun c isr ctl hc => ⟨hframed.frame c isr ctl hc.1, hc.2⟩⟩
    rw [event_tx hc.2]
    exact hc.2
  refine Triple.post (triple_attempt (R := fun c =>
    At (fun c => Sending s tx buf len c ∧ c.tx.busy = false) ctl c) ?_ 100000) ?_
  · refine Triple.bind (Q := fun isr c => (At (Sending s tx buf len) ctl c ∧ Tells c) ∧
      (isr &&& 0x02 ≠ 0 → c.tx.busy = false)) (triple_access hstable ?_) fun isr => ?_
    · intro c hc
      refine ⟨hc, fun hbit => hc.2.2 ?_⟩
      have hisr : c.inb 0x07 = c.isr := by
        rw [Card.inb, if_neg (by decide), if_pos (by rw [Card.page, hc.1.2, hpage]),
          if_neg (by decide), if_pos rfl]
      rwa [hisr] at hbit
    · split
      next hbit =>
        refine ((hdone.triple_clear hpage 0x02).pre fun c hc => ?_).bind fun _ =>
          (triple_pure true).pre fun _ hc => hc
        exact ⟨⟨hc.1.1.1, hc.2 hbit⟩, hc.1.1.2⟩
      next => exact (triple_pure false).pre fun _ hc => hc.1
  · intro sent c hc
    cases sent with
    | true => exact ⟨⟨hc.1.1, hc.2⟩, fun _ => hc.1.2⟩
    | false => exact ⟨hc.1, fun h => absurd h Bool.false_ne_true⟩

theorem or_irqMask (mask : UInt8) : (mask ||| irqMask) &&& irqMask ≠ 0 := by
  have hbit : (mask ||| irqMask) &&& irqMask = irqMask := by
    rw [← UInt8.toBitVec_inj, UInt8.toBitVec_and, UInt8.toBitVec_or]
    ext i hi
    rw [BitVec.getElem_and, BitVec.getElem_or]
    cases mask.toBitVec[i] <;> cases irqMask.toBitVec[i] <;> rfl
  rw [hbit]
  decide

/-- The transmitter rests with the frame in the memory, and its bit is down. -/
def Loaded (s : NicRun) (tx : Transmitter) (buf : Memory) (len : Nat) (ctl : Control)
    (card : Card) : Prop :=
  At (fun c => Idle s tx c ∧ Written 0x4000 buf len c) ctl card ∧ ¬ Finished card

theorem stable_loaded {ctl : Control} (hpage : ctl.cr >>> 6 = 0) (hroom : len ≤ 1500)
    (hmask : ctl.mask &&& irqMask ≠ 0) (hidle : tx.busy = false) :
    Stable Card.event allowed (Loaded s tx buf len ctl) := by
  have hframed : Framed allowed fun c => Idle s tx c ∧ Written 0x4000 buf len c :=
    (framed_idle s hidle).written buf (by omega)
  refine fun c e he hc => ⟨hframed.stable_at hpage c e he hc.1, fun h => ?_⟩
  obtain ⟨⟨⟨⟨-, htx⟩, -⟩, hctl⟩, hunfinished⟩ := hc
  rcases event_finished (hctl ▸ hmask) h with hbefore | ⟨hbusy, -⟩
  · exact hunfinished hbefore
  · rw [htx, hidle] at hbusy
    exact Bool.false_ne_true hbusy

/-- The registers of the transmission are written. -/
theorem triple_setTx {ctl : Control} (hpage : ctl.cr >>> 6 = 0) (hroom : len ≤ 1500)
    (hmask : ctl.mask &&& irqMask ≠ 0) (hidle : tx.busy = false) {reg val : UInt8}
    (hreg : reg ≠ 0) (f : Transmitter → Transmitter)
    (hout : ∀ card : Card, card.outPage0 reg val = { card with tx := f card.tx }) :
    Triple allowed (Loaded s tx buf len ctl) (neOutb reg val)
      fun _ => Loaded s (f tx) buf len ctl := by
  refine triple_access (stable_loaded hpage hroom hmask hidle) ?_
  rintro c ⟨⟨⟨⟨hring, htx⟩, hwritten⟩, hctl⟩, hunfinished⟩
  rw [outb_page0 hreg (by rw [Card.page, hctl, hpage]), hout]
  exact ⟨⟨⟨⟨hring.congr rfl rfl, congrArg f htx⟩, hwritten⟩, hctl⟩, hunfinished⟩

/-- The transmission is started. -/
theorem triple_startSend {ctl : Control} (hpage : ctl.cr >>> 6 = 0) (hroom : len ≤ 1500)
    (hmask : ctl.mask &&& irqMask ≠ 0) (hidle : tx.busy = false) :
    Triple allowed (Loaded s tx buf len ctl) (neOutb 0x00 0x06)
      fun _ c => At (Sending s tx buf len) { ctl with cr := 0x06 } c ∧ Tells c := by
  refine triple_access (stable_loaded hpage hroom hmask hidle) ?_
  rintro c ⟨⟨⟨⟨hring, rfl⟩, hwritten⟩, rfl⟩, hunfinished⟩
  have hstart : c.outb 0x00 0x06 =
      { c with ctl := { c.ctl with cr := 0x06 }, tx := { c.tx with busy := true } } := by
    rw [Card.outb, if_pos rfl, hidle]
    rfl
  rw [hstart]
  exact ⟨⟨⟨hring.congr rfl rfl, hwritten, .inl rfl⟩, rfl⟩, hmask, fun h => absurd h hunfinished⟩

/-- `ne2000_send`: the ring is followed, and the frame is being sent or has gone out; it has
when the answer says so. -/
theorem triple_ne2000Send (hs : s.nic.Bounded) (hidle : tx.busy = false) {ctl : Control}
    (hpage : ctl.cr >>> 6 = 0) (hword : ctl.dcfg &&& 1 ≠ 0) (buf : Memory) (len : Nat) :
    Triple allowed (At (Idle s tx) ctl) (ne2000Send buf len) fun sent c =>
      (∃ rsar rcnt, At (Sending s { tx with tpsr := 0x40, tcnt := min len 1500 } buf (min len 1500))
        { ctl with cr := 0x06, rsar, rcnt } c) ∧ (sent = true → c.tx.busy = false) := by
  have hcr : (0x12 : UInt8) >>> 6 = 0 := by decide
  have hcr' : (0x06 : UInt8) >>> 6 = 0 := by decide
  have hlen : (if 1500 < len then 1500 else len) = min len 1500 := by
    split <;> omega
  have hroom : min len 1500 ≤ 1500 := Nat.min_le_right _ _
  rw [ne2000Send, hlen]
  generalize min len 1500 = n at hroom
  refine ((framed_idle s hidle).triple_neDmaWrite (Idle.above s tx)
    (fun c hc => hc.1.bounded hs) hpage hword buf (by omega)).bind fun _ =>
      triple_exists fun rsar => triple_exists fun rcnt => ?_
  have hframed : Framed allowed fun c => Idle s tx c ∧ Written 0x4000 buf n c :=
    (framed_idle s hidle).written buf (by omega)
  refine (hframed.triple_picRead (by exact hcr)).bind fun mask => triple_fact fun hmask => ?_
  refine (hframed.triple_picWrite (by exact hcr) _).bind fun _ => ?_
  -- the bit of an earlier transmission is cleared
  have hclear : Triple allowed
      (At (fun c => Idle s tx c ∧ Written 0x4000 buf n c)
        { ctl with cr := 0x12, rsar, rcnt, mask := mask ||| irqMask })
      (neOutb 0x07 0x02)
      fun _ => Loaded s tx buf n
        { ctl with cr := 0x12, rsar, rcnt, mask := mask ||| irqMask } := by
    refine triple_access (hframed.stable_at (by exact hcr)) fun c hc => ?_
    rw [outb_page0 (by decide) (by rw [Card.page, hc.2]; exact hcr)]
    refine ⟨⟨hframed.frame c _ c.ctl hc.1, hc.2⟩, not_not.mpr ?_⟩
    change (c.isr &&& ~~~(0x02 &&& 0x7F)) &&& 0x02 = 0
    rw [UInt8.and_assoc, show (~~~(0x02 &&& 0x7F) &&& 0x02 : UInt8) = 0 by decide, UInt8.and_zero]
  refine hclear.bind fun _ => ?_
  refine (triple_setTx (by exact hcr) hroom (or_irqMask mask) hidle (by decide)
    (fun tx => { tx with tpsr := 0x40 }) fun _ => rfl).bind fun _ => ?_
  refine (triple_setTx (by exact hcr) hroom (or_irqMask mask) (by exact hidle) (by decide)
    (fun tx => { tx with tcnt := tx.tcnt / 256 * 256 + (UInt8.ofNat n).toNat })
    fun _ => rfl).bind fun _ => ?_
  refine (triple_setTx (by exact hcr) hroom (or_irqMask mask) (by exact hidle) (by decide)
    (fun tx => { tx with tcnt := tx.tcnt % 256 + (UInt8.ofNat (n / 256)).toNat * 256 })
    fun _ => rfl).bind fun _ => ?_
  refine (triple_startSend (by exact hcr) hroom (or_irqMask mask) (by exact hidle)).bind
    fun _ => ?_
  have htcnt : (tx.tcnt / 256 * 256 + (UInt8.ofNat n).toNat) % 256 +
      (UInt8.ofNat (n / 256)).toNat * 256 = n := by
    rw [UInt8.toNat_ofNat', UInt8.toNat_ofNat']
    omega
  dsimp only
  rw [htcnt]
  refine (triple_awaitSent rfl rfl hroom (by exact hcr')).bind fun sent => ?_
  have hsending : Framed allowed fun c =>
      Sending s { tx with tpsr := 0x40, tcnt := n } buf n c ∧
        (sent = true → c.tx.busy = false) := by
    have hframed : Framed allowed (Sending s { tx with tpsr := 0x40, tcnt := n } buf n) :=
      framed_sending rfl rfl hroom
    refine ⟨fun c e he hp hc => ⟨hframed.stable c e he hp hc.1, fun hsent => ?_⟩,
      fun c isr ctl hc => ⟨hframed.frame c isr ctl hc.1, hc.2⟩⟩
    rw [event_tx (hc.2 hsent)]
    exact hc.2 hsent
  refine ((hsending.triple_picWrite (by exact hcr') mask).pre fun c hc =>
    ⟨⟨hc.1.1, hc.2⟩, hc.1.2⟩).bind fun _ => ?_
  generalize hctl : { ctl with cr := 0x06, rsar, rcnt, mask } = ctl'
  have hpost (c : Card) (hc : At (fun c => Sending s { tx with tpsr := 0x40, tcnt := n } buf n c ∧
      (sent = true → c.tx.busy = false)) ctl' c) :
      (∃ rsar rcnt, At (Sending s { tx with tpsr := 0x40, tcnt := n } buf n)
        { ctl with cr := 0x06, rsar, rcnt } c) ∧ (sent = true → c.tx.busy = false) := by
    refine ⟨⟨rsar, rcnt, hc.1.1, ?_⟩, hc.1.2⟩
    rw [hc.2, ← hctl, hmask]
  have hread (reg : UInt8) : Triple allowed (At (fun c =>
      Sending s { tx with tpsr := 0x40, tcnt := n } buf n c ∧ (sent = true → c.tx.busy = false))
      ctl') (neInb reg) fun _ => At (fun c =>
      Sending s { tx with tpsr := 0x40, tcnt := n } buf n c ∧ (sent = true → c.tx.busy = false))
      ctl' :=
    triple_access (hsending.stable_at (hctl ▸ hcr')) fun _ hc => hc
  cases sent with
  | true => exact (triple_pure true).pre hpost
  | false =>
      exact (hread 0x07).bind fun _ => (hread 0x00).bind fun _ => (triple_pure false).pre hpost

end Transmission

/-- A card before it is initialised. -/
def coldCard : Card :=
  ⟨⟨fun _ => 0, 0, 0, 0, 0⟩, [], ⟨0, 0, false, []⟩, 0,
    ⟨0x21, 0, 0, 0, 0, fun _ => 0, 0, 0, 0xFB⟩⟩

/-- The card when it serves. -/
def readyCard : Card :=
  { coldCard with
    nic := Dosfs.ne2000Init coldCard.nic
    ctl := { coldCard.ctl with cr := 0x02, dcfg := 0x33 } }

end Dosfs.Ports
