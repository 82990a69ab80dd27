import Dosfs.Drivers.Ne2000Ports
import Dosfs.Drivers.Ne2000Ring

/-!
# Remote transfers of the NE2000

What an event between two accesses leaves alone, and the two remote transfers: a read
returns what the ring holds, as long as no event changes it, and a write puts the bytes
into the pages below the ring.
-/

namespace Dosfs.Ports

open Foundation Shared

variable {card : Card} {e : CardEvent}

/-! ## Events -/

theorem receive_ctl (card : Card) (status : UInt8) (packet : List UInt8) :
    (card.receive status packet).ctl = card.ctl ∧ (card.receive status packet).tx = card.tx := by
  unfold Card.receive
  split <;> exact ⟨rfl, rfl⟩

theorem receiveAll_ctl (card : Card) (arrivals : List (UInt8 × List UInt8)) :
    let card' := arrivals.foldl (fun card p => card.receive p.1 p.2) card
    card'.ctl = card.ctl ∧ card'.tx = card.tx := by
  induction arrivals generalizing card with
  | nil => exact ⟨rfl, rfl⟩
  | cons p arrivals ih =>
      obtain ⟨hctl, htx⟩ := receive_ctl card p.1 p.2
      exact ⟨(ih _).1.trans hctl, (ih _).2.trans htx⟩

/-- On page 0 the interrupt status is written, on page 1 the page register. -/
theorem outb_status (val : UInt8) :
    card.outb 0x07 val =
      if card.page = 0 then { card with isr := card.isr &&& ~~~(val &&& 0x7F) }
      else if card.page = 1 then { card with nic := { card.nic with curr := val } }
      else card := rfl

theorem irqHandler_ctl (arrivals : List (UInt8 × List UInt8)) :
    (neIrqHandler card arrivals).ctl = card.ctl ∧ (neIrqHandler card arrivals).tx = card.tx := by
  have hall := receiveAll_ctl card arrivals
  rw [neIrqHandler, outb_status]
  split
  · exact hall
  · split
    · exact hall
    · exact hall

/-- No event touches the registers that the driver writes. -/
theorem event_ctl (card : Card) (e : CardEvent) : (card.event e).ctl = card.ctl := by
  cases e with
  | arrive status packet => exact (receive_ctl card status packet).1
  | transmitted =>
      rw [Card.event, Card.transmit]
      split <;> rfl
  | transferred =>
      rw [Card.event]
      split <;> rfl
  | interrupt arrivals =>
      rw [Card.event]
      split
      · exact (irqHandler_ctl arrivals).1
      · rfl

theorem event_page (card : Card) (e : CardEvent) : (card.event e).page = card.page := by
  rw [Card.page, event_ctl]
  rfl

/-! ## Arrivals -/

/-- The run that `nicStep` makes of a packet that is stored. -/
def store (s : NicRun) (status : UInt8) (packet : List UInt8) : NicRun :=
  { s with
    nic := s.nic.receive status packet
    stored := s.stored ++ [packet]
    unread := s.unread ++ [packet] }

/-- Packets arrived, each of which was stored. -/
inductive Arrives : NicRun → NicRun → Prop
  | refl (s : NicRun) : Arrives s s
  | store {s t : NicRun} (h : Arrives s t) (status : UInt8) {packet : List UInt8}
      (hfits : t.Accepts packet) : Arrives s (store t status packet)

theorem Arrives.trans {s t u : NicRun} (h : Arrives s t) (h' : Arrives t u) : Arrives s u := by
  induction h' with
  | refl => exact h
  | store _ status hfits ih => exact .store ih status hfits

/-- The ring that the card shows: the registers, the cells and the unread packets. -/
structure Shows (card : Card) (s : NicRun) : Prop where
  pstart : card.nic.pstart = s.nic.pstart
  pstop : card.nic.pstop = s.nic.pstop
  bndry : card.nic.bndry = s.nic.bndry
  curr : card.nic.curr = s.nic.curr
  cells : ∀ cell < ringSize, card.nic.ring cell = s.nic.ring cell
  unread : card.unread = s.unread

/-- A card that shows a ring shows what becomes of it when packets arrive. -/
theorem Shows.receive {s : NicRun} (h : Shows card s) (status : UInt8) (packet : List UInt8) :
    ∃ t, Arrives s t ∧ Shows (card.receive status packet) t := by
  have haccepts : card.Accepts packet ↔ s.Accepts packet := by
    rw [Card.Accepts, NicRun.Accepts, h.unread]
  unfold Card.receive
  split
  next hfits =>
    refine ⟨store s status packet, .store (.refl s) status (haccepts.mp hfits), ?_⟩
    refine ⟨h.pstart, h.pstop, h.bndry, ?_, fun cell hcell => ?_, ?_⟩
    · change pageAt (pageIndex card.nic.curr + packetPages packet) =
        pageAt (pageIndex s.nic.curr + packetPages packet)
      rw [h.curr]
    · have hlist := h.cells
      change (card.nic.receive status packet).ring cell = (s.nic.receive status packet).ring cell
      rw [Nic.receive_ring _ _ _ _ hcell, Nic.receive_ring _ _ _ _ hcell, h.curr]
      unfold Circular.write
      split
      · rfl
      · exact hlist cell hcell
    · change card.unread ++ [packet] = s.unread ++ [packet]
      rw [h.unread]
  next => exact ⟨s, .refl s, h⟩

theorem Shows.receiveAll {s : NicRun} (h : Shows card s)
    (arrivals : List (UInt8 × List UInt8)) :
    ∃ t, Arrives s t ∧ Shows (arrivals.foldl (fun card p => card.receive p.1 p.2) card) t := by
  induction arrivals generalizing card s with
  | nil => exact ⟨s, .refl s, h⟩
  | cons p arrivals ih =>
      obtain ⟨t, harrives, hshows⟩ := h.receive p.1 p.2
      obtain ⟨u, harrives', hshows'⟩ := ih hshows
      exact ⟨u, harrives.trans harrives', hshows'⟩

/-- What does not touch the ring. -/
theorem Shows.congr {s : NicRun} {card' : Card} (h : Shows card s) (hnic : card'.nic = card.nic)
    (hunread : card'.unread = card.unread) : Shows card' s := by
  refine ⟨?_, ?_, ?_, ?_, ?_, hunread.trans h.unread⟩ <;> rw [hnic]
  exacts [h.pstart, h.pstop, h.bndry, h.curr, h.cells]

/-- Nothing arrives inside the interrupt handler. -/
def CardEvent.Calm : CardEvent → Prop
  | .interrupt arrivals => arrivals = []
  | _ => True

/-- Nothing arrives at all. -/
def CardEvent.Still : CardEvent → Prop
  | .arrive _ _ => False
  | .interrupt arrivals => arrivals = []
  | _ => True

/-- Without arrivals the handler of the interrupt does nothing to the ring: on page 1 it
writes back the page register that it has read. -/
theorem Shows.irqHandler_still {s : NicRun} (h : Shows card s) :
    Shows (neIrqHandler card []) s := by
  rw [neIrqHandler, outb_status, List.foldl_nil]
  split
  next => exact h.congr rfl rfl
  next hpage =>
    split
    next hpage1 =>
      have hcurr : card.inb 0x07 = card.nic.curr := by
        rw [Card.inb, if_neg (by decide), if_neg hpage, if_pos hpage1, if_pos rfl]
      rw [hcurr]
      exact h
    next => exact h

/-- On page 0 packets may arrive inside the handler. -/
theorem Shows.irqHandler {s : NicRun} (h : Shows card s) {arrivals : List (UInt8 × List UInt8)}
    (hcalm : card.page = 0 ∨ arrivals = []) :
    ∃ t, Arrives s t ∧ Shows (neIrqHandler card arrivals) t := by
  rcases hcalm with hpage | rfl
  · obtain ⟨t, harrives, hshows⟩ := h.receiveAll arrivals
    refine ⟨t, harrives, ?_⟩
    have hpage' : (arrivals.foldl (fun card p => card.receive p.1 p.2) card).page = 0 := by
      rw [Card.page, (receiveAll_ctl card arrivals).1]
      exact hpage
    rw [neIrqHandler, outb_status, if_pos hpage']
    exact hshows.congr rfl rfl
  · exact ⟨s, .refl s, h.irqHandler_still⟩

/-- An event with which nothing arrives. -/
theorem Shows.event_still {s : NicRun} (h : Shows card s) (hstill : e.Still) :
    Shows (card.event e) s := by
  cases e with
  | arrive status packet => exact absurd hstill not_false
  | transmitted =>
      rw [Card.event, Card.transmit]
      split
      · exact h.congr rfl rfl
      · exact h
  | transferred =>
      rw [Card.event]
      split
      · exact h.congr rfl rfl
      · exact h
  | interrupt arrivals =>
      obtain rfl : arrivals = [] := hstill
      rw [Card.event]
      split
      · exact h.irqHandler_still
      · exact h

theorem Shows.event {s : NicRun} (h : Shows card s) (hcalm : card.page = 0 ∨ e.Calm) :
    ∃ t, Arrives s t ∧ Shows (card.event e) t := by
  cases e with
  | arrive status packet => exact h.receive status packet
  | transmitted => exact ⟨s, .refl s, h.event_still trivial⟩
  | transferred => exact ⟨s, .refl s, h.event_still trivial⟩
  | interrupt arrivals =>
      rw [Card.event]
      split
      · exact h.irqHandler hcalm
      · exact ⟨s, .refl s, h⟩

/-! ## Assertions between two accesses -/

/-- An assertion that the driver can keep through a transfer: allowed events keep it on
page 0, and it is not about the registers of transfers and interrupts. -/
structure Framed (allowed : CardEvent → Prop) (I : Card → Prop) : Prop where
  stable : ∀ card e, allowed e → card.page = 0 → I card → I (card.event e)
  frame : ∀ card isr ctl, I card → I { card with isr, ctl }

/-- The assertion holds, and the registers that the driver writes have these values. -/
def At (I : Card → Prop) (ctl : Control) (card : Card) : Prop := I card ∧ card.ctl = ctl

section Transfers

variable {allowed : CardEvent → Prop} {I : Card → Prop} {ctl ctl' : Control}

theorem Framed.stable_at (h : Framed allowed I) (hpage : ctl.cr >>> 6 = 0) :
    Stable Card.event allowed (At I ctl) := by
  rintro card e he ⟨hI, rfl⟩
  exact ⟨h.stable card e he hpage hI, event_ctl card e⟩

theorem outb_page0 {reg : UInt8} (hreg : reg ≠ 0x00) (hpage : card.page = 0) (val : UInt8) :
    card.outb reg val = card.outPage0 reg val := by
  rw [Card.outb, if_neg hreg, if_pos hpage]

/-- A command that starts no transmission. -/
theorem outb_command {val : UInt8} (hval : val &&& 0x04 = 0) :
    card.outb 0x00 val = { card with ctl := { card.ctl with cr := val } } := by
  rw [Card.outb, if_pos rfl, hval]
  simp

/-- An access that changes registers of transfers and interrupts only. -/
theorem Framed.triple_outb (h : Framed allowed I) (hpage : ctl.cr >>> 6 = 0) {reg val : UInt8}
    (hout : ∀ card : Card, card.ctl = ctl → ∃ isr, card.outb reg val =
      { card with isr, ctl := ctl' }) :
    Triple allowed (At I ctl) (neOutb reg val) fun _ => At I ctl' := by
  refine triple_access (h.stable_at hpage) ?_
  rintro card ⟨hI, hctl⟩
  obtain ⟨isr, heq⟩ := hout card hctl
  rw [heq]
  exact ⟨h.frame card isr ctl' hI, rfl⟩

theorem Framed.triple_clear (h : Framed allowed I) (hpage : ctl.cr >>> 6 = 0) (val : UInt8) :
    Triple allowed (At I ctl) (neOutb 0x07 val) fun _ => At I ctl := by
  refine h.triple_outb hpage fun card hctl => ⟨card.isr &&& ~~~(val &&& 0x7F), ?_⟩
  rw [outb_page0 (by decide) (by rw [Card.page, hctl, hpage]), ← hctl]
  rfl

theorem Framed.triple_picRead (h : Framed allowed I) (hpage : ctl.cr >>> 6 = 0) :
    Triple allowed (At I ctl) picRead fun mask c => mask = ctl.mask ∧ At I ctl c :=
  triple_access (h.stable_at hpage) fun _ hc => ⟨congrArg Control.mask hc.2, hc⟩

theorem Framed.triple_picWrite (h : Framed allowed I) (hpage : ctl.cr >>> 6 = 0) (mask : UInt8) :
    Triple allowed (At I ctl) (picWrite mask) fun _ => At I { ctl with mask } := by
  refine triple_access (h.stable_at hpage) ?_
  rintro card ⟨hI, rfl⟩
  exact ⟨h.frame card card.isr _ hI, rfl⟩

/-- Whether or not the bit comes up. -/
theorem Framed.triple_awaitBit (h : Framed allowed I) (hpage : ctl.cr >>> 6 = 0) (bit : UInt8) :
    Triple allowed (At I ctl) (awaitBit bit) fun _ => At I ctl := by
  have hbody : Triple allowed (At I ctl)
      (do
        let isr ← neInb 0x07
        if isr &&& bit ≠ 0 then
          neOutb 0x07 bit
          return true
        else
          return false)
      fun r c => if r then At I ctl c else At I ctl c := by
    refine Triple.bind (Q := fun _ => At I ctl)
      (triple_access (h.stable_at hpage) fun _ hc => hc) fun isr => ?_
    split
    · exact (h.triple_clear hpage bit).bind fun _ => (triple_pure true).pre fun _ hc => hc
    · exact (triple_pure false).pre fun _ hc => hc
  refine (triple_attempt hbody 100000).post fun r c hc => ?_
  cases r <;> exact hc

/-- The registers of a transfer are set, and the command is given. -/
theorem Framed.triple_startTransfer (h : Framed allowed I) (hpage : ctl.cr >>> 6 = 0)
    {command : UInt8} (hcommand : command &&& 0x04 = 0) {nicAddr len : Nat}
    (haddr : nicAddr < 2 ^ 16) (hlen : len < 2 ^ 16) :
    Triple allowed (At I ctl) (startTransfer command nicAddr len) fun _ =>
      At I { ctl with cr := command, rsar := nicAddr, rcnt := len } := by
  have hset (reg val : UInt8) (f : Control → Control) {k : Control} (hk : k.cr >>> 6 = 0)
      (hreg : reg ≠ 0)
      (hout : ∀ card : Card, card.outPage0 reg val = { card with ctl := f card.ctl }) :
      Triple allowed (At I k) (neOutb reg val) fun _ => At I (f k) := by
    refine h.triple_outb hk fun card hctl => ⟨card.isr, ?_⟩
    rw [outb_page0 hreg (by rw [Card.page, hctl, hk]), hout card, hctl]
  refine (h.triple_clear hpage 0x40).bind fun _ => ?_
  refine (hset 0x08 _ (fun k => { k with
    rsar := k.rsar / 256 * 256 + (UInt8.ofNat nicAddr).toNat }) (by exact hpage) (by decide)
    fun _ => rfl).bind fun _ => ?_
  refine (hset 0x09 _ (fun k => { k with
    rsar := k.rsar % 256 + (UInt8.ofNat (nicAddr / 256)).toNat * 256 }) (by exact hpage) (by decide)
    fun _ => rfl).bind fun _ => ?_
  refine (hset 0x0A _ (fun k => { k with
    rcnt := k.rcnt / 256 * 256 + (UInt8.ofNat len).toNat }) (by exact hpage) (by decide)
    fun _ => rfl).bind fun _ => ?_
  refine (hset 0x0B _ (fun k => { k with
    rcnt := k.rcnt % 256 + (UInt8.ofNat (len / 256)).toNat * 256 }) (by exact hpage) (by decide)
    fun _ => rfl).bind fun _ => ?_
  refine h.triple_outb (by exact hpage) fun card hctl => ⟨card.isr, ?_⟩
  have hjoin (n m : Nat) (hm : m < 2 ^ 16) :
      (n / 256 * 256 + (UInt8.ofNat m).toNat) % 256 + (UInt8.ofNat (m / 256)).toNat * 256 = m := by
    rw [UInt8.toNat_ofNat', UInt8.toNat_ofNat']
    omega
  rw [outb_command hcommand, hctl]
  dsimp only
  rw [hjoin _ _ haddr, hjoin _ _ hlen]

/-! ## Reading -/

/-- The address that follows in a ring with the bounds that `ne2000_init` sets. -/
def nextCell (addr : Nat) : Nat := if addr + 1 = 0x8000 then 0x4C00 else addr + 1

theorem nextAddr_eq {nic : Nic} (h : nic.Bounded) (addr : Nat) :
    nic.nextAddr addr = nextCell addr := by
  rw [Nic.nextAddr, h.1, h.2]
  rfl

theorem word_low (low high : UInt8) :
    (low.toUInt16 ||| (high.toUInt16 <<< 8)).toUInt8 = low := by
  rw [← UInt8.toBitVec_inj]
  ext i hi
  simp

theorem word_high (low high : UInt8) :
    ((low.toUInt16 ||| (high.toUInt16 <<< 8)) >>> 8).toUInt8 = high := by
  rw [← UInt8.toBitVec_inj]
  ext i hi
  simp
  grind

/-- A word of the data port is the two bytes at the address of the transfer. -/
theorem Framed.triple_inw (h : Framed allowed I) (hbounded : ∀ c, I c → c.nic.Bounded)
    (hpage : ctl.cr >>> 6 = 0) (hword : ctl.dcfg &&& 1 ≠ 0) :
    Triple allowed (At I ctl) neInw fun w c =>
      (w.toUInt8 = c.nic.mem ctl.rsar ∧ (w >>> 8).toUInt8 = c.nic.mem (nextCell ctl.rsar)) ∧
        At I { ctl with rsar := nextCell (nextCell ctl.rsar), rcnt := ctl.rcnt - 1 - 1 } c := by
  refine triple_access (h.stable_at hpage) ?_
  rintro card ⟨hI, rfl⟩
  have hinw : card.inw =
      ((card.nic.mem card.ctl.rsar).toUInt16 |||
          ((card.nic.mem (nextCell card.ctl.rsar)).toUInt16 <<< 8),
        { card with ctl := { card.ctl with
          rsar := nextCell (nextCell card.ctl.rsar), rcnt := card.ctl.rcnt - 1 - 1 } }) := by
    unfold Card.inw Card.getByte Card.step
    dsimp only
    rw [if_neg hword, nextAddr_eq (hbounded card hI), nextAddr_eq (hbounded card hI)]
  rw [hinw]
  exact ⟨⟨word_low _ _, word_high _ _⟩, h.frame card card.isr _ hI, rfl⟩

/-- The words that are left are read. -/
theorem Framed.triple_readWords (h : Framed allowed I) (hbounded : ∀ c, I c → c.nic.Bounded)
    (ctl : Control) (hpage : ctl.cr >>> 6 = 0) (hword : ctl.dcfg &&& 1 ≠ 0)
    {len i todo addr left : Nat} {list : List UInt8} (htodo : todo = (len - i * 2 + 1) / 2)
    (hread : ∀ c, I c → Dosfs.neDmaRead c.nic addr (len - i * 2) = list) :
    Triple allowed (At I { ctl with rsar := addr, rcnt := left }) (readWords len i todo)
      fun data c => data = list ∧ ∃ rsar rcnt, At I { ctl with rsar, rcnt } c := by
  induction todo generalizing i addr left list with
  | zero =>
      refine (triple_pure []).pre fun c hc => ⟨?_, addr, left, hc⟩
      rw [← hread c hc.1, show len - i * 2 = 0 by omega]
      rfl
  | succ todo ih =>
      have hnext : len - (i + 1) * 2 = len - i * 2 - 2 := by omega
      -- what the word contributes, and what is left of the list
      have hsplit (c : Card) (hI : I c) :
          list = (c.nic.mem addr ::
            if i * 2 + 1 < len then [c.nic.mem (nextCell addr)] else []) ++
              Dosfs.neDmaRead c.nic (nextCell (nextCell addr)) (len - (i + 1) * 2) := by
        rw [← hread c hI, ← nextAddr_eq (hbounded c hI), ← nextAddr_eq (hbounded c hI)]
        by_cases hpair : i * 2 + 1 < len
        · rw [if_pos hpair, hnext, show len - i * 2 = len - i * 2 - 2 + 1 + 1 by omega]
          rfl
        · rw [if_neg hpair, hnext, show len - i * 2 = 1 by omega]
          rfl
      have hfirst : Triple allowed (At I { ctl with rsar := addr, rcnt := left }) neInw
          fun w c => (w.toUInt8 :: if i * 2 + 1 < len then [(w >>> 8).toUInt8] else []) =
              list.take (if i * 2 + 1 < len then 2 else 1) ∧
            At I { ctl with rsar := nextCell (nextCell addr), rcnt := left - 1 - 1 } c := by
        refine (h.triple_inw hbounded (by exact hpage) (by exact hword)).post fun w c hc => ?_
        refine ⟨?_, hc.2⟩
        rw [hsplit c hc.2.1, hc.1.1, hc.1.2]
        split <;> rfl
      refine hfirst.bind fun w => triple_fact fun hw => ?_
      have hdrop (c : Card) (hI : I c) :
          Dosfs.neDmaRead c.nic (nextCell (nextCell addr)) (len - (i + 1) * 2) =
            list.drop (if i * 2 + 1 < len then 2 else 1) := by
        rw [hsplit c hI]
        split <;> rfl
      refine (ih (by omega) hdrop).bind fun rest => triple_fact fun hrest => ?_
      have hlist := List.take_append_drop (if i * 2 + 1 < len then 2 else 1) list
      rw [← hw, ← hrest] at hlist
      split
      next hpair =>
        rw [if_pos hpair] at hlist
        exact (triple_pure _).pre fun c hc => ⟨hlist, hc⟩
      next hpair =>
        rw [if_neg hpair] at hlist
        exact (triple_pure _).pre fun c hc => ⟨hlist, hc⟩

/-- A remote read returns what the ring holds from an address on. -/
theorem Framed.triple_neDmaRead (h : Framed allowed I) (hbounded : ∀ c, I c → c.nic.Bounded)
    (hpage : ctl.cr >>> 6 = 0) (hword : ctl.dcfg &&& 1 ≠ 0) {addr len : Nat}
    (haddr : addr < 2 ^ 16) (hlen : len < 2 ^ 16) {list : List UInt8}
    (hread : ∀ c, I c → Dosfs.neDmaRead c.nic addr len = list) :
    Triple allowed (At I ctl) (neDmaRead addr len) fun data c =>
      data = list ∧ ∃ rsar rcnt, At I { ctl with cr := 0x0A, rsar, rcnt } c := by
  have hcr : (0x0A : UInt8) >>> 6 = 0 := by decide
  refine (h.triple_picRead hpage).bind fun mask => triple_fact fun hmask => ?_
  refine (h.triple_picWrite hpage _).bind fun _ => ?_
  refine (h.triple_startTransfer (by exact hpage) (by decide) haddr hlen).bind fun _ => ?_
  refine (h.triple_readWords hbounded { ctl with mask := mask ||| irqMask, cr := 0x0A }
    hcr hword rfl hread).bind fun data => triple_fact fun hdata =>
      triple_exists fun rsar => triple_exists fun rcnt => ?_
  refine (h.triple_awaitBit (by exact hcr) 0x40).bind fun _ => ?_
  refine (h.triple_picWrite (by exact hcr) _).bind fun _ => (triple_pure data).pre fun c hc => ?_
  exact ⟨hdata, rsar, rcnt, by rw [hmask] at hc; exact hc⟩

end Transfers

end Dosfs.Ports
