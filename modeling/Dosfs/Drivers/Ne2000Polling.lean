import Dosfs.Drivers.Ne2000Send

/-!
# Polling the NE2000

`ne2000_poll` takes many accesses, with packets arriving between them. It is still as if it
happened at once, at the moment it reads `CURR`: always when a packet was waiting, and
otherwise when nothing arrives meanwhile.
-/

namespace Dosfs.Ports

open Foundation Shared

variable {allowed : CardEvent → Prop} {I J : Card → Prop} {ctl : Control} {card : Card}

/-! ## Reading one packet -/

/-- The driver reads what a poll of the ring reads, as long as the packet stays where it
is. -/
theorem Framed.triple_readPacket (h : Framed allowed I) (hbounded : ∀ c, I c → c.nic.Bounded)
    (hpage : ctl.cr >>> 6 = 0) (hword : ctl.dcfg &&& 1 ≠ 0) {nic : Nic}
    (hcurr : nic.curr ≠ nic.bndry)
    (hhdr : ∀ c, I c → Dosfs.neDmaRead c.nic ((rxPage nic.bndry).toNat * 256) 4 =
      Dosfs.neDmaRead nic ((rxPage nic.bndry).toNat * 256) 4)
    (hdata : ∀ c, I c → 4 ≤ rxLength nic → ∀ len ≤ rxLength nic - 4,
      Dosfs.neDmaRead c.nic ((rxPage nic.bndry).toNat * 256 + 4) len =
        Dosfs.neDmaRead nic ((rxPage nic.bndry).toNat * 256 + 4) len)
    (htake : ∀ c : Card, I c → J { c with
      nic := { c.nic with bndry := (Dosfs.ne2000Poll nic).2.bndry }
      unread := c.unread.tail }) :
    Triple allowed (At I ctl) (readPacket nic.bndry) fun r c =>
      r = (Dosfs.ne2000Poll nic).1 ∧ ∃ (cr : UInt8) (rsar rcnt : Nat), cr >>> 6 = 0 ∧
        At (if r = none then I else J) { ctl with cr, rsar, rcnt } c := by
  have hcr : (0x0A : UInt8) >>> 6 = 0 := by decide
  have haddr : (rxPage nic.bndry).toNat < 256 := UInt8.toNat_lt _
  refine (h.triple_neDmaRead hbounded hpage hword (by omega) (by omega) hhdr).bind fun hdr =>
    triple_fact fun hlist => triple_exists fun rsar => triple_exists fun rcnt => ?_
  have hlength : (hdr.getD 2 0).toNat + (hdr.getD 3 0).toNat * 256 = rxLength nic := by
    rw [hlist]
    rfl
  have hlength16 : rxLength nic < 2 ^ 16 := by
    have hlow : (hdr.getD 2 0).toNat < 256 := UInt8.toNat_lt _
    have hhigh : (hdr.getD 3 0).toNat < 256 := UInt8.toNat_lt _
    omega
  dsimp only
  rw [hlength]
  generalize hdataLen : (if 1500 < rxLength nic - 4 then 1500 else rxLength nic - 4) = dataLen
  have hpoll : Dosfs.ne2000Poll nic = if rxLength nic < 4 then (none, nic) else
      (some (Dosfs.neDmaRead nic ((rxPage nic.bndry).toNat * 256 + 4) dataLen),
        { nic with bndry := if 0x4C < hdr.getD 1 0 then hdr.getD 1 0 - 1 else 0x80 - 1 }) := by
    rw [Dosfs.ne2000Poll, if_neg hcurr, hlist]
    subst hdataLen
    rfl
  rw [hpoll] at htake ⊢
  split
  next hshort =>
    refine (triple_pure none).pre fun c hc => ?_
    exact ⟨rfl, 0x0A, rsar, rcnt, hcr, hc⟩
  next hlong =>
    rw [if_neg hlong] at htake
    -- nothing is read when the packet is empty
    have hread : Triple allowed (At I { ctl with cr := 0x0A, rsar, rcnt })
        (readData ((rxPage nic.bndry).toNat * 256 + 4) dataLen)
        fun data c => data = Dosfs.neDmaRead nic ((rxPage nic.bndry).toNat * 256 + 4) dataLen ∧
          ∃ rsar rcnt, At I { ctl with cr := 0x0A, rsar, rcnt } c := by
      unfold readData
      split
      next hpos =>
        refine h.triple_neDmaRead hbounded (by exact hcr) (by exact hword) (by omega) ?_ ?_
        · split at hdataLen <;> omega
        · intro c hc
          refine hdata c hc (by omega) dataLen ?_
          split at hdataLen <;> omega
      next hzero =>
        refine (triple_pure []).pre fun c hc => ⟨?_, rsar, rcnt, hc⟩
        rw [show dataLen = 0 by omega]
        rfl
    refine hread.bind fun data => triple_fact fun hdata => triple_exists fun rsar =>
      triple_exists fun rcnt => ?_
    refine Triple.bind (Q := fun _ => At J { ctl with cr := 0x0A, rsar, rcnt })
      (triple_access (h.stable_at (by exact hcr)) fun c hc => ?_) fun _ =>
        (triple_pure _).pre fun c hc => ?_
    · rw [outb_page0 (by decide) (by rw [Card.page, hc.2]; exact hcr)]
      exact ⟨htake c hc.1, hc.2⟩
    · exact ⟨congrArg some hdata, 0x0A, rsar, rcnt, hcr, hc⟩

/-! ## Arrivals during a poll -/

/-- The ring is orderly, whatever the polls have answered so far. -/
def Orderly (s : NicRun) : Prop := s.NotPassed ∧ s.Holds

theorem Orderly.store {s : NicRun} {packet : List UInt8} (h : Orderly s)
    (hfits : s.Accepts packet) (status : UInt8) : Orderly (store s status packet) := by
  -- the histories do not matter
  have hprotocol : NicRun.Protocol { s with stored := s.unread, delivered := [], idle := [] } :=
    ⟨rfl, fun _ hn => absurd hn List.not_mem_nil, h.1⟩
  have hholds : NicRun.Holds { s with stored := s.unread, delivered := [], idle := [] } :=
    ⟨h.2.bounded, h.2.sizes, h.2.laid⟩
  obtain ⟨hprotocol', hholds'⟩ := hprotocol.arrive hholds hfits status
  exact ⟨hprotocol'.notPassed, hholds'.bounded, hholds'.sizes, hholds'.laid⟩

theorem Arrives.orderly {s t : NicRun} (h : Arrives s t) (hs : Orderly s) : Orderly t := by
  induction h with
  | refl => exact hs
  | store _ status hfits ih => exact ih.store hfits status

theorem Arrives.bndry {s t : NicRun} (h : Arrives s t) : t.nic.bndry = s.nic.bndry := by
  induction h with
  | refl => rfl
  | store _ _ _ ih => exact ih

theorem Arrives.unread {s t : NicRun} (h : Arrives s t) : s.unread <+: t.unread := by
  induction h with
  | refl => exact List.prefix_rfl
  | store _ _ _ ih => exact ih.trans (List.prefix_append _ _)

/-- What arrives leaves the packet that is read next where it is. -/
theorem Arrives.read {s t : NicRun} (h : Arrives s t) (hs : Orderly s) {packet : List UInt8}
    {rest : List (List UInt8)} (hunread : s.unread = packet :: rest) {k len : Nat}
    (hk : k + len ≤ 4 + packet.length) :
    Circular.read ringSize t.nic.ring (256 * pageIndex (rxPage s.nic.bndry) + k) len =
      Circular.read ringSize s.nic.ring (256 * pageIndex (rxPage s.nic.bndry) + k) len := by
  induction h with
  | refl => rfl
  | @store t h status new hfits ih =>
      rw [← ih]
      obtain ⟨⟨-, -, hcurr⟩, -⟩ := h.orderly hs
      obtain ⟨more, hmore⟩ := h.unread
      have hroom := hfits.2
      have hpages := length_le_packetPages packet
      have hnew := length_le_packetPages new
      rw [← hmore, hunread, List.cons_append, unreadPages_cons] at hroom hcurr
      rw [h.bndry] at hcurr
      -- the new packet goes behind the unread ones
      have hplace : 256 * pageIndex t.nic.curr % ringSize =
          256 * (pageIndex (rxPage s.nic.bndry) +
            (packetPages packet + unreadPages (rest ++ more))) % ringSize := by
        rw [hcurr, pageIndex_pageAt, ringSize]
        omega
      have hcells : ∀ cell < ringSize, (t.nic.receive status new).ring cell =
          Circular.write ringSize t.nic.ring (256 * (pageIndex (rxPage s.nic.bndry) +
            (packetPages packet + unreadPages (rest ++ more))))
            (framed status (pageAt (pageIndex t.nic.curr + packetPages new)) new) cell := by
        intro cell hcell
        rw [Nic.receive_ring _ _ _ _ hcell, Circular.write_congr hplace]
      change Circular.read ringSize (t.nic.receive status new).ring _ _ = _
      rw [Circular.read_eq_of_cells (by decide) hcells, Circular.read_write_outside (by omega)]
      rw [framed_length, ringSize]
      omega

/-- Arrivals and the end of a poll can change places. -/
theorem Arrives.pop {s t : NicRun} (h : Arrives s t) (hunread : s.unread ≠ []) (bndry : UInt8)
    (packet : List UInt8) :
    Arrives
      { s with nic := { s.nic with bndry }, unread := s.unread.tail,
               delivered := s.delivered ++ [packet] }
      { t with nic := { t.nic with bndry }, unread := t.unread.tail,
               delivered := t.delivered ++ [packet] } := by
  induction h with
  | refl => exact .refl _
  | @store t h status new hfits ih =>
      obtain ⟨more, hmore⟩ := h.unread
      obtain ⟨head, rest, hcons⟩ : ∃ head rest, t.unread = head :: rest :=
        List.exists_cons_of_ne_nil (fun hnil => hunread (by simp_all))
      have hfits' : NicRun.Accepts { t with nic := { t.nic with bndry }, unread := t.unread.tail,
                                            delivered := t.delivered ++ [packet] } new := by
        refine ⟨hfits.1, ?_⟩
        have hroom := hfits.2
        rw [hcons, unreadPages_cons] at hroom
        change unreadPages t.unread.tail + _ ≤ 52
        rw [hcons, List.tail_cons]
        omega
      have hstep := Arrives.store ih status hfits'
      have htail : (t.unread ++ [new]).tail = t.unread.tail ++ [new] := by
        rw [hcons]
        rfl
      simp only [Ports.store] at hstep ⊢
      rw [htail]
      exact hstep

theorem Arrives.idle {s t : NicRun} (h : Arrives s t) (n : Nat) :
    Arrives { s with idle := n :: s.idle } { t with idle := n :: t.idle } := by
  induction h with
  | refl => exact .refl _
  | store _ status hfits ih => exact .store ih status hfits

/-! ## The frames that were handed over -/

/-- The frame that is being sent. -/
def Card.pending (card : Card) : List (List UInt8) := if card.tx.busy then [card.outgoing] else []

/-- These frames went out, the last of them perhaps not yet. -/
structure Sent (frames : List (List UInt8)) (card : Card) : Prop where
  frames : card.tx.wire ++ card.pending = frames
  below : card.tx.busy = true → card.tx.tpsr = 0x40 ∧ card.tx.tcnt ≤ 1500

theorem Sent.event {frames : List (List UInt8)} (h : Sent frames card) (e : CardEvent) :
    Sent frames (card.event e) := by
  rcases event_tx_cases card e with hkeep | ⟨hbusy, hover⟩
  · refine ⟨?_, by rw [hkeep]; exact h.below⟩
    have hpending : (card.event e).pending = card.pending := by
      unfold Card.pending Card.outgoing
      rw [hkeep]
      split
      next hbusy =>
        obtain ⟨htpsr, htcnt⟩ := h.below hbusy
        rw [Memory.loadList_congr fun addr _ haddr => event_mem card e ?_]
        rw [htpsr] at haddr
        exact Nat.lt_of_lt_of_le haddr (by change 0x4000 + card.tx.tcnt ≤ 0x4C00; omega)
      next => rfl
    rw [hkeep, hpending]
    exact h.frames
  · have hframes := h.frames
    rw [Card.pending, if_pos hbusy] at hframes
    refine ⟨?_, fun h => ?_⟩
    · rw [Card.pending, hover, if_neg Bool.false_ne_true, List.append_nil]
      exact hframes
    · rw [hover] at h
      exact absurd h Bool.false_ne_true

/-! ## The poll -/

/-- An assertion that allowed events keep on every page of registers. -/
structure Lasting (allowed : CardEvent → Prop) (I : Card → Prop) : Prop where
  stable : ∀ card e, allowed e → I card → I (card.event e)
  frame : ∀ card isr ctl, I card → I { card with isr, ctl }

theorem Lasting.framed (h : Lasting allowed I) : Framed allowed I :=
  ⟨fun card e he _ hc => h.stable card e he hc, h.frame⟩

theorem Lasting.stable_at (h : Lasting allowed I) : Stable Card.event allowed (At I ctl) := by
  rintro card e he ⟨hI, rfl⟩
  exact ⟨h.stable card e he hI, event_ctl card e⟩

/-- A page is selected. -/
theorem Lasting.triple_select (h : Lasting allowed I) {cr : UInt8} (hcr : cr &&& 0x04 = 0) :
    Triple allowed (At I ctl) (neOutb 0x00 cr) fun _ => At I { ctl with cr } := by
  refine triple_access h.stable_at ?_
  rintro card ⟨hI, rfl⟩
  rw [outb_command hcr]
  exact ⟨h.frame card card.isr _ hI, rfl⟩

/-- A poll does what the reading of one packet does after it has read `CURR`, and before
that nothing. -/
theorem Lasting.triple_ne2000Poll (h : Lasting allowed I) (bndry : UInt8)
    (hbndry : ∀ c, I c → c.nic.bndry = bndry) {K : UInt8 → Card → Prop}
    (hK : ∀ curr, Lasting allowed (K curr)) (hcurr : ∀ c, I c → K c.nic.curr c)
    {Q : Option (List UInt8) → Card → Prop}
    (hnone : ∀ c, At (K bndry) { ctl with cr := 0x02 } c → Q none c)
    (hread : ∀ curr, curr ≠ bndry →
      Triple allowed (At (K curr) { ctl with cr := 0x02 }) (readPacket bndry) Q) :
    Triple allowed (At I ctl) ne2000Poll Q := by
  refine (h.triple_select (by decide)).bind fun _ => ?_
  have hreadBndry : Triple allowed (At I { ctl with cr := 0x02 }) (neInb 0x03)
      fun r c => r = bndry ∧ At I { ctl with cr := 0x02 } c := by
    refine triple_access h.stable_at fun c hc => ⟨?_, hc⟩
    have hpage : c.page = 0 := by
      rw [Card.page, hc.2]
      exact show (0x02 : UInt8) >>> 6 = 0 by decide
    rw [Card.inb, if_neg (by decide), if_pos hpage, if_pos rfl]
    exact hbndry c hc.1
  refine hreadBndry.bind fun r => triple_fact fun hr => ?_
  subst hr
  refine (h.triple_select (by decide)).bind fun _ => ?_
  have hreadCurr : Triple allowed (At I { ctl with cr := 0x42 }) (neInb 0x07)
      fun curr => At (K curr) { ctl with cr := 0x42 } := by
    refine triple_access h.stable_at fun c hc => ?_
    have hpage : c.page = 1 := by
      rw [Card.page, hc.2]
      exact show (0x42 : UInt8) >>> 6 = 1 by decide
    have hinb : c.inb 0x07 = c.nic.curr := by
      rw [Card.inb, if_neg (by decide), if_neg (by rw [hpage]; decide), if_pos hpage, if_pos rfl]
    rw [hinb]
    exact ⟨hcurr c hc.1, hc.2⟩
  refine hreadCurr.bind fun curr => ?_
  refine ((hK curr).triple_select (by decide)).bind fun _ => ?_
  split
  next heq =>
    subst heq
    refine Triple.bind (Q := fun _ => At (K curr) { ctl with cr := 0x02 })
      (triple_access (hK curr).stable_at fun _ hc => hc) fun _ => (triple_pure none).pre hnone
  next hne => exact hread curr hne

/-! ## What a poll reads -/

/-- A poll of the ring changes `BNDRY` only, and only when it returns a packet. -/
theorem ne2000Poll_result (nic : Nic) :
    Dosfs.ne2000Poll nic = (none, nic) ∨
      ∃ packet bndry, Dosfs.ne2000Poll nic = (some packet, { nic with bndry }) := by
  unfold Dosfs.ne2000Poll
  split
  · exact .inl rfl
  · dsimp only
    split
    · exact .inl rfl
    · exact .inr ⟨_, _, rfl⟩

/-- Remote reads from the page that is read next. -/
theorem neDmaRead_page {nic : Nic} (h : nic.Bounded) {page : UInt8} (hpage : InRing page)
    {k : Nat} (hk : k < 256) (len : Nat) :
    Dosfs.neDmaRead nic (page.toNat * 256 + k) len =
      Circular.read ringSize nic.ring (256 * pageIndex page + k) len := by
  have hlt := hpage.eq_pageAt.2
  rw [← h.neDmaRead, Nat.mod_eq_of_lt (by rw [ringSize]; omega), hpage.address, Nat.add_assoc]

/-- A card that shows the ring reads the same. -/
theorem Shows.neDmaRead {s : NicRun} (h : Shows card s) (hs : Orderly s) {k : Nat} (hk : k < 256)
    (len : Nat) :
    Dosfs.neDmaRead card.nic ((rxPage s.nic.bndry).toNat * 256 + k) len =
      Dosfs.neDmaRead s.nic ((rxPage s.nic.bndry).toNat * 256 + k) len := by
  have hpage := hs.1.1.rxPage.1
  have hbounded : card.nic.Bounded :=
    ⟨h.pstart.trans hs.2.bounded.1, h.pstop.trans hs.2.bounded.2⟩
  rw [neDmaRead_page hbounded hpage hk, neDmaRead_page hs.2.bounded hpage hk,
    Circular.read_eq_of_cells (by decide) h.cells]

/-- The packet that is read next reads the same when more has arrived. -/
theorem Follows.neDmaRead {s : NicRun} (h : Follows s card) (hs : Orderly s)
    {packet : List UInt8} {rest : List (List UInt8)} (hunread : s.unread = packet :: rest)
    {k len : Nat} (hk : k < 256) (hlen : k + len ≤ 4 + packet.length) :
    Dosfs.neDmaRead card.nic ((rxPage s.nic.bndry).toNat * 256 + k) len =
      Dosfs.neDmaRead s.nic ((rxPage s.nic.bndry).toNat * 256 + k) len := by
  obtain ⟨t, harrives, hshows⟩ := h
  have hpage := hs.1.1.rxPage.1
  have ht := harrives.orderly hs
  have hread := hshows.neDmaRead ht hk len
  rw [harrives.bndry] at hread
  rw [hread, neDmaRead_page ht.2.bounded hpage hk, neDmaRead_page hs.2.bounded hpage hk,
    harrives.read hs hunread hlen]

/-- The length field of the packet that is read next. -/
theorem Orderly.rxLength {s : NicRun} (h : Orderly s) {packet : List UInt8}
    {rest : List (List UInt8)} (hunread : s.unread = packet :: rest) :
    rxLength s.nic = packet.length + 4 := by
  have hlaid := h.2.laid
  have hsizes := h.2.sizes
  rw [hunread] at hlaid hsizes
  obtain ⟨status, hread⟩ := hlaid.1
  have hsize := hsizes packet List.mem_cons_self
  rw [Circular.read_add, framed] at hread
  have hhdr := (List.append_inj hread (Circular.read_length _ _)).1
  have hdma := neDmaRead_page h.2.bounded h.1.1.rxPage.1 (show 0 < 256 by omega) 4
  rw [Nat.add_zero, Nat.add_zero, hhdr] at hdma
  simp only [Dosfs.rxLength, hdma]
  change (UInt8.ofNat (packet.length + 4)).toNat +
    (UInt8.ofNat ((packet.length + 4) / 256)).toNat * 256 = packet.length + 4
  rw [UInt8.toNat_ofNat', UInt8.toNat_ofNat']
  omega

/-! ## The poll as one event -/

/-- The poll answered what a poll of the ring answers at such a moment. -/
def Polled (moment : NicRun → Prop) (frames : List (List UInt8)) (ctl : Control)
    (r : Option (List UInt8)) (card : Card) : Prop :=
  ∃ t t', moment t ∧ nicStep .poll t = some (r, t') ∧
    ∃ (cr : UInt8) (rsar rcnt : Nat), cr >>> 6 = 0 ∧
      At (fun c => Follows t' c ∧ Sent frames c) { ctl with cr, rsar, rcnt } card

theorem nicStep_poll_none {s : NicRun} {nic : Nic} (h : Dosfs.ne2000Poll s.nic = (none, nic)) :
    nicStep .poll s = some (none, { s with nic, idle := s.unread.length :: s.idle }) := by
  simp only [nicStep, h]

theorem nicStep_poll_some {s : NicRun} {packet : List UInt8} {nic : Nic}
    (h : Dosfs.ne2000Poll s.nic = (some packet, nic)) :
    nicStep .poll s = some (some packet, { s with
      nic, unread := s.unread.tail, delivered := s.delivered ++ [packet] }) := by
  simp only [nicStep, h]

section Poll

variable {s : NicRun} {frames : List (List UInt8)}

theorem lasting_follows (hcalm : ∀ e, allowed e → e.Calm) (s : NicRun)
    (frames : List (List UInt8)) : Lasting allowed fun c => Follows s c ∧ Sent frames c where
  stable _ e he hc := ⟨hc.1.event (.inr (hcalm e he)), hc.2.event e⟩
  frame _ _ _ hc := ⟨hc.1.congr rfl rfl, hc.2.frames, hc.2.below⟩

theorem lasting_shows (hstill : ∀ e, allowed e → e.Still) (s : NicRun)
    (frames : List (List UInt8)) : Lasting allowed fun c => Shows c s ∧ Sent frames c where
  stable _ e he hc := ⟨hc.1.event_still (hstill e he), hc.2.event e⟩
  frame _ _ _ hc := ⟨hc.1.congr rfl rfl, hc.2.frames, hc.2.below⟩

theorem Follows.idle (h : Follows s card) (n : Nat) :
    Follows { s with idle := n :: s.idle } card := by
  obtain ⟨t, harrives, hshows⟩ := h
  exact ⟨_, harrives.idle n, hshows.pstart, hshows.pstop, hshows.bndry, hshows.curr,
    hshows.cells, hshows.unread⟩

/-- The pages of the packet are given back. -/
theorem Follows.pop (h : Follows s card) (hunread : s.unread ≠ []) (bndry : UInt8)
    (packet : List UInt8) :
    Follows
      { s with nic := { s.nic with bndry }, unread := s.unread.tail,
               delivered := s.delivered ++ [packet] }
      { card with nic := { card.nic with bndry }, unread := card.unread.tail } := by
  obtain ⟨t, harrives, hshows⟩ := h
  exact ⟨_, harrives.pop hunread bndry packet, hshows.pstart, hshows.pstop, rfl, hshows.curr,
    hshows.cells, congrArg List.tail hshows.unread⟩

/-- The rest of a poll, from the moment on that counts. -/
theorem Framed.triple_rest (h : Framed allowed I) (hbounded : ∀ c, I c → c.nic.Bounded)
    (hpage : ctl.cr >>> 6 = 0) (hword : ctl.dcfg &&& 1 ≠ 0) {moment : NicRun → Prop} {t : NicRun}
    (hmoment : moment t) (hcurr : t.nic.curr ≠ t.nic.bndry)
    (hread : ∀ c, I c → ∀ k len, k < 256 → k + len ≤ max 4 (rxLength t.nic) →
      Dosfs.neDmaRead c.nic ((rxPage t.nic.bndry).toNat * 256 + k) len =
        Dosfs.neDmaRead t.nic ((rxPage t.nic.bndry).toNat * 256 + k) len)
    (hring : ∀ c, I c → Follows t c ∧ Sent frames c)
    (hpop : ∀ c, I c → ∀ bndry packet, Follows
      { t with nic := { t.nic with bndry }, unread := t.unread.tail,
               delivered := t.delivered ++ [packet] }
      { c with nic := { c.nic with bndry }, unread := c.unread.tail }) :
    Triple allowed (At I ctl) (readPacket t.nic.bndry) (Polled moment frames ctl) := by
  have hhdr (c : Card) (hc : I c) :
      Dosfs.neDmaRead c.nic ((rxPage t.nic.bndry).toNat * 256) 4 =
        Dosfs.neDmaRead t.nic ((rxPage t.nic.bndry).toNat * 256) 4 := by
    have hzero := hread c hc 0 4 (by omega) (by omega)
    rwa [Nat.add_zero] at hzero
  have hdata (c : Card) (hc : I c) (hlong : 4 ≤ rxLength t.nic) (len : Nat)
      (hlen : len ≤ rxLength t.nic - 4) := hread c hc 4 len (by omega) (by omega)
  rcases ne2000Poll_result t.nic with hpoll | ⟨packet, bndry, hpoll⟩
  · refine (h.triple_readPacket (J := fun _ => True) hbounded hpage hword hcurr hhdr hdata
      fun _ _ => trivial).post ?_
    rintro r c ⟨rfl, cr, rsar, rcnt, hcr, hc⟩
    rw [hpoll, if_pos rfl] at hc
    rw [hpoll]
    obtain ⟨hfollows, hsent⟩ := hring c hc.1
    exact ⟨t, _, hmoment, nicStep_poll_none hpoll, cr, rsar, rcnt, hcr, ⟨hfollows.idle _, hsent⟩,
      hc.2⟩
  · refine (h.triple_readPacket (J := fun c => Follows
      { t with nic := { t.nic with bndry }, unread := t.unread.tail,
               delivered := t.delivered ++ [packet] } c ∧ Sent frames c)
      hbounded hpage hword hcurr hhdr hdata fun c hc => ?_).post ?_
    · rw [hpoll]
      exact ⟨hpop c hc bndry packet, (hring c hc).2.frames, (hring c hc).2.below⟩
    · rintro r c ⟨rfl, cr, rsar, rcnt, hcr, hc⟩
      rw [hpoll, if_neg (by simp)] at hc
      rw [hpoll]
      exact ⟨t, _, hmoment, nicStep_poll_some hpoll, cr, rsar, rcnt, hcr, hc⟩

/-- A poll with a packet waiting, whatever arrives meanwhile. -/
theorem triple_ne2000Poll_waiting (hcalm : ∀ e, allowed e → e.Calm) (hs : Orderly s)
    (hunread : s.unread ≠ []) (hword : ctl.dcfg &&& 1 ≠ 0) :
    Triple allowed (At (fun c => Follows s c ∧ Sent frames c) ctl) ne2000Poll
      (Polled (Arrives s) frames ctl) := by
  refine (lasting_follows hcalm s frames).triple_ne2000Poll s.nic.bndry ?_
    (K := fun curr c => ∃ t, Arrives s t ∧ t.nic.curr = curr ∧ Follows t c ∧ Sent frames c)
    ?_ ?_ ?_ ?_
  · rintro c ⟨⟨t, harrives, hshows⟩, -⟩
    exact hshows.bndry.trans harrives.bndry
  · intro curr
    refine ⟨?_, ?_⟩
    · rintro c e he ⟨t, harrives, hcurr, hc⟩
      exact ⟨t, harrives, hcurr, (lasting_follows hcalm t frames).stable c e he hc⟩
    · rintro c isr ctl ⟨t, harrives, hcurr, hc⟩
      exact ⟨t, harrives, hcurr, (lasting_follows hcalm t frames).frame c isr ctl hc⟩
  · rintro c ⟨⟨t, harrives, hshows⟩, hsent⟩
    exact ⟨t, harrives, hshows.curr.symm, ⟨t, .refl t, hshows⟩, hsent⟩
  · -- the ring looks empty because it is full
    rintro c ⟨⟨t, harrives, hcurr, hring, hsent⟩, hctl⟩
    have hpoll : Dosfs.ne2000Poll t.nic = (none, t.nic) := by
      rw [Dosfs.ne2000Poll, if_pos (hcurr.trans harrives.bndry.symm)]
    refine ⟨t, _, harrives, nicStep_poll_none hpoll, 0x02, ctl.rsar, ctl.rcnt, by decide, ?_, hctl⟩
    exact ⟨hring.idle _, hsent⟩
  · intro curr hne
    refine Triple.pre (triple_exists (R := fun t c => (Arrives s t ∧ t.nic.curr = curr) ∧
      At (fun c => Follows t c ∧ Sent frames c) { ctl with cr := 0x02 } c) fun t =>
        triple_fact fun hfact => ?_) ?_
    swap
    · rintro c ⟨⟨t, harrives, hcurr, hc⟩, hctl⟩
      exact ⟨t, ⟨harrives, hcurr⟩, hc, hctl⟩
    obtain ⟨harrives, hcurr⟩ := hfact
    have ht := harrives.orderly hs
    obtain ⟨more, hmore⟩ := harrives.unread
    obtain ⟨packet, rest, hcons⟩ : ∃ packet rest, t.unread = packet :: rest :=
      List.exists_cons_of_ne_nil fun hnil => hunread (by simp_all)
    rw [← harrives.bndry] at hne ⊢
    refine (lasting_follows hcalm t frames).framed.triple_rest
      (fun c hc => hc.1.bounded ht.2.bounded) (by exact show (0x02 : UInt8) >>> 6 = 0 by decide)
      (by exact hword) harrives (hcurr ▸ hne) ?_ (fun _ hc => hc) fun c hc bndry packet =>
        hc.1.pop (by rw [hcons]; exact List.cons_ne_nil _ _) bndry packet
    intro c hc k len hk hlen
    rw [ht.rxLength hcons] at hlen
    exact hc.1.neDmaRead ht hcons hk (by omega)

/-- A poll while nothing arrives. -/
theorem triple_ne2000Poll_still (hstill : ∀ e, allowed e → e.Still) (hs : Orderly s)
    (hword : ctl.dcfg &&& 1 ≠ 0) :
    Triple allowed (At (fun c => Shows c s ∧ Sent frames c) ctl) ne2000Poll
      (Polled (· = s) frames ctl) := by
  have hlasting := lasting_shows hstill s frames
  refine hlasting.triple_ne2000Poll s.nic.bndry (fun c hc => hc.1.bndry)
    (K := fun curr c => curr = s.nic.curr ∧ Shows c s ∧ Sent frames c) ?_ ?_ ?_ ?_
  · exact fun curr => ⟨fun c e he hc => ⟨hc.1, hlasting.stable c e he hc.2⟩,
      fun c isr ctl hc => ⟨hc.1, hlasting.frame c isr ctl hc.2⟩⟩
  · exact fun c hc => ⟨hc.1.curr, hc⟩
  · rintro c ⟨⟨hcurr, hshows, hsent⟩, hctl⟩
    have hpoll : Dosfs.ne2000Poll s.nic = (none, s.nic) := by
      rw [Dosfs.ne2000Poll, if_pos hcurr.symm]
    have hfollows : Follows s c := ⟨s, .refl s, hshows⟩
    exact ⟨s, _, rfl, nicStep_poll_none hpoll, 0x02, ctl.rsar, ctl.rcnt, by decide,
      ⟨hfollows.idle _, hsent⟩, hctl⟩
  · intro curr hne
    have hrest (hcurr : curr = s.nic.curr) : Triple allowed
        (At (fun c => Shows c s ∧ Sent frames c) { ctl with cr := 0x02 })
        (readPacket s.nic.bndry) (Polled (· = s) frames ctl) := by
      refine hlasting.framed.triple_rest (fun c hc => ?_)
        (by exact show (0x02 : UInt8) >>> 6 = 0 by decide) (by exact hword)
        rfl (hcurr ▸ hne) (fun c hc k len hk _ => hc.1.neDmaRead hs hk len)
        (fun c hc => ⟨⟨s, .refl s, hc.1⟩, hc.2⟩) fun c hc bndry packet => ?_
      · exact ⟨hc.1.pstart.trans hs.2.bounded.1, hc.1.pstop.trans hs.2.bounded.2⟩
      · exact ⟨_, .refl _, hc.1.pstart, hc.1.pstop, rfl, hc.1.curr, hc.1.cells,
          congrArg List.tail hc.1.unread⟩
    exact (triple_fact hrest).pre fun c hc => ⟨hc.1.1, hc.1.2, hc.2⟩

end Poll

end Dosfs.Ports
