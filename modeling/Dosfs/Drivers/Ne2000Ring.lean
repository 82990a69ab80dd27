import Dosfs.Drivers.Ne2000

/-!
# The receive ring along a run

The driver reads the packets of the ring in order as long as it polls at the
right moments. It takes the ring for empty when `CURR` equals `BNDRY`, which it
keeps one page behind the next packet: that happens when the unread packets fill
all pages but one, and when nothing is unread the page it looks at holds whatever
was there before.
-/

namespace Dosfs

open Foundation

/-! ## Pages -/

/-- A page register of the ring. -/
def InRing (page : UInt8) : Prop := 0x4C ≤ page ∧ page < 0x80

instance (page : UInt8) : Decidable (InRing page) := inferInstanceAs (Decidable (_ ∧ _))

/-- The page before another one, which `ne2000_poll` writes to `BNDRY`. -/
def pageBefore (next : UInt8) : UInt8 := if 0x4C < next then next - 1 else 0x80 - 1

/-- The pages of the ring are its 52 distances. -/
theorem InRing.eq_pageAt {page : UInt8} (h : InRing page) :
    page = pageAt (pageIndex page) ∧ pageIndex page < 52 := by
  obtain ⟨hstart, hstop⟩ := h
  have hlow : 76 ≤ page.toNat := hstart
  have hhigh : page.toNat < 128 := hstop
  refine ⟨UInt8.toNat_inj.mp ?_, by rw [pageIndex]; omega⟩
  simp only [pageAt, pageIndex, UInt8.toNat_add, UInt8.toNat_ofNat', UInt8.reduceToNat]
  omega

/-- What holds of the pages at the distances holds of every page of the ring. -/
theorem InRing.forall_of_pageAt {p : UInt8 → Prop} (hall : ∀ k < 52, p (pageAt k)) {page : UInt8}
    (h : InRing page) : p page := by
  obtain ⟨heq, hlt⟩ := h.eq_pageAt
  rw [heq]
  exact hall _ hlt

theorem pageAt_mod (n : Nat) : pageAt n = pageAt (n % 52) := by
  rw [pageAt, pageAt, Nat.mod_mod]

theorem inRing_pageAt (n : Nat) : InRing (pageAt n) := by
  have hall : ∀ k < 52, InRing (pageAt k) := by decide
  rw [pageAt_mod]
  exact hall _ (Nat.mod_lt n (by decide))

theorem pageIndex_pageAt (n : Nat) : pageIndex (pageAt n) = n % 52 := by
  have hall : ∀ k < 52, pageIndex (pageAt k) = k := by decide
  rw [pageAt_mod]
  exact hall _ (Nat.mod_lt n (by decide))

/-- `BNDRY` stays one page behind the next packet. -/
theorem rxPage_pageBefore {next : UInt8} (h : InRing next) : rxPage (pageBefore next) = next :=
  InRing.forall_of_pageAt (p := fun next => rxPage (pageBefore next) = next) (by decide) h

theorem inRing_pageBefore {next : UInt8} (h : InRing next) : InRing (pageBefore next) :=
  InRing.forall_of_pageAt (p := fun next => InRing (pageBefore next)) (by decide) h

/-- The page that is read next is a page of the ring, and never `BNDRY`. -/
theorem InRing.rxPage {bndry : UInt8} (h : InRing bndry) :
    InRing (rxPage bndry) ∧ rxPage bndry ≠ bndry :=
  InRing.forall_of_pageAt (p := fun b => InRing (Dosfs.rxPage b) ∧ Dosfs.rxPage b ≠ b) (by decide) h

theorem InRing.address {page : UInt8} (h : InRing page) :
    page.toNat * 256 = 0x4C00 + 256 * pageIndex page := by
  have hlow : 76 ≤ page.toNat := h.1
  rw [pageIndex]
  omega

theorem pageAt_congr {m n : Nat} (h : m % 52 = n % 52) : pageAt m = pageAt n := by
  rw [pageAt, h, pageAt]

/-! ## Remote reads -/

/-- The registers that bound the ring, as `ne2000_init` sets them. -/
def Nic.Bounded (nic : Nic) : Prop := nic.pstart = 0x4C ∧ nic.pstop = 0x80

theorem Nic.Bounded.nextAddr {nic : Nic} (h : nic.Bounded) (a : Nat) :
    nic.nextAddr (0x4C00 + a % ringSize) = 0x4C00 + (a + 1) % ringSize := by
  obtain ⟨hstart, hstop⟩ := h
  simp only [Nic.nextAddr, hstart, hstop, ringSize, UInt8.reduceToNat]
  split <;> omega

/-- A remote read in the ring winds around it. -/
theorem Nic.Bounded.neDmaRead {nic : Nic} (h : nic.Bounded) (a len : Nat) :
    neDmaRead nic (0x4C00 + a % ringSize) len = Circular.read ringSize nic.ring a len := by
  induction len generalizing a with
  | zero => rfl
  | succ len ih =>
      rw [Dosfs.neDmaRead, h.nextAddr, ih, Circular.read_succ]
      rfl

/-! ## Packets in the ring -/

/-- From a page on the ring holds the packets, one after the other. -/
def Laid (ring : Nat → UInt8) : Nat → List (List UInt8) → Prop
  | _, [] => True
  | q, packet :: rest =>
      (∃ status, Circular.read ringSize ring (256 * q) (4 + packet.length) =
        framed status (pageAt (q + packetPages packet)) packet) ∧
      Laid ring (q + packetPages packet) rest

theorem framed_length (status next : UInt8) (packet : List UInt8) :
    (framed status next packet).length = 4 + packet.length := by
  rw [framed, List.length_append]
  rfl

/-- A packet fits in its pages. -/
theorem length_le_packetPages (packet : List UInt8) :
    4 + packet.length ≤ 256 * packetPages packet := by
  rw [packetPages]
  omega

theorem unreadPages_cons (packet : List UInt8) (rest : List (List UInt8)) :
    unreadPages (packet :: rest) = packetPages packet + unreadPages rest := List.sum_cons

theorem unreadPages_append (unread : List (List UInt8)) (packet : List UInt8) :
    unreadPages (unread ++ [packet]) = unreadPages unread + packetPages packet := by
  simp [unreadPages]

/-- Only the place of the first page in the ring matters. -/
theorem Laid.congr {ring : Nat → UInt8} {q q' : Nat} {packets : List (List UInt8)}
    (h : Laid ring q packets) (hq : q % 52 = q' % 52) : Laid ring q' packets := by
  induction packets generalizing q q' with
  | nil => trivial
  | cons packet rest ih =>
      obtain ⟨⟨status, hread⟩, hrest⟩ := h
      refine ⟨⟨status, ?_⟩, ih hrest (by omega)⟩
      have hcell : 256 * q' % ringSize = 256 * q % ringSize := by
        rw [ringSize]
        omega
      have hnext : (q + packetPages packet) % 52 = (q' + packetPages packet) % 52 := by omega
      rw [Circular.read_congr hcell, hread, pageAt_congr hnext]

/-- Packets stay when something is written behind them that leaves them alone. -/
theorem Laid.write {ring : Nat → UInt8} {q first : Nat} {packets : List (List UInt8)}
    {list : List UInt8} (h : Laid ring q packets) (hbefore : q + unreadPages packets ≤ first)
    (hturn : 256 * first + list.length ≤ 256 * q + ringSize) :
    Laid (Circular.write ringSize ring (256 * first) list) q packets := by
  induction packets generalizing q with
  | nil => trivial
  | cons packet rest ih =>
      obtain ⟨⟨status, hread⟩, hrest⟩ := h
      rw [unreadPages_cons] at hbefore
      have hfits := length_le_packetPages packet
      refine ⟨⟨status, ?_⟩, ih hrest (by omega) (by omega)⟩
      rw [Circular.read_write_outside (by omega) (by omega), hread]

/-- One more packet behind the others. -/
theorem Laid.append {ring : Nat → UInt8} {q : Nat} {packets : List (List UInt8)}
    {packet : List UInt8} (h : Laid ring q packets) (status : UInt8)
    (hread : Circular.read ringSize ring (256 * (q + unreadPages packets)) (4 + packet.length) =
      framed status (pageAt (q + unreadPages packets + packetPages packet)) packet) :
    Laid ring q (packets ++ [packet]) := by
  induction packets generalizing q with
  | nil => exact ⟨⟨status, hread⟩, trivial⟩
  | cons head rest ih =>
      rw [unreadPages_cons, ← Nat.add_assoc] at hread
      exact ⟨h.1, ih h.2 hread⟩

/-- A packet that fits is stored behind the others. -/
theorem Laid.store {ring : Nat → UInt8} {q : Nat} {packets : List (List UInt8)}
    {packet : List UInt8} {status : UInt8} (h : Laid ring q packets)
    (hsize : packet.length ≤ 1500) (hroom : unreadPages packets + packetPages packet ≤ 52) :
    Laid (Circular.write ringSize ring (256 * (q + unreadPages packets))
      (framed status (pageAt (q + unreadPages packets + packetPages packet)) packet))
      q (packets ++ [packet]) := by
  have hlength := framed_length status
    (pageAt (q + unreadPages packets + packetPages packet)) packet
  have hpages := length_le_packetPages packet
  refine (h.write (Nat.le_refl _) ?_).append status ?_
  · rw [hlength, ringSize]
    omega
  · rw [← hlength, Circular.read_write_inside (by rw [hlength, ringSize]; omega)]

/-- What is in the ring depends on its cells only. -/
theorem Laid.of_cells {ring ring' : Nat → UInt8} {q : Nat} {packets : List (List UInt8)}
    (h : Laid ring q packets) (hcells : ∀ cell, cell < ringSize → ring' cell = ring cell) :
    Laid ring' q packets := by
  induction packets generalizing q with
  | nil => trivial
  | cons packet rest ih =>
      obtain ⟨⟨status, hread⟩, hrest⟩ := h
      exact ⟨⟨status, (Circular.read_eq_of_cells (by decide) hcells _ _).trans hread⟩, ih hrest⟩

/-- Storing writes the framed packet to the cells of the ring. -/
theorem Nic.receive_ring (nic : Nic) (status : UInt8) (packet : List UInt8) (cell : Nat)
    (hcell : cell < ringSize) :
    (nic.receive status packet).ring cell =
      Circular.write ringSize nic.ring (256 * pageIndex nic.curr)
        (framed status (pageAt (pageIndex nic.curr + packetPages packet)) packet) cell := by
  have hin : 0x4C00 ≤ 0x4C00 + cell ∧ 0x4C00 + cell < 0x8000 := by
    rw [ringSize] at hcell
    omega
  change (if 0x4C00 ≤ 0x4C00 + cell ∧ 0x4C00 + cell < 0x8000 then _ else _) = _
  rw [if_pos hin, Nat.add_sub_cancel_left]

/-! ## The state of an orderly ring -/

/-- `BNDRY` did not pass `CURR`: from the page after `BNDRY`, the unread packets
reach to `CURR` and not further than one turn. -/
def NicRun.NotPassed (s : NicRun) : Prop :=
  InRing s.nic.bndry ∧ unreadPages s.unread ≤ 52 ∧
  s.nic.curr = pageAt (pageIndex (rxPage s.nic.bndry) + unreadPages s.unread)

/-- The receive-ring protocol, as far as the run went: the polls delivered the
stored packets that are not unread, each once and in order; a poll returned 0
only when nothing was unread; and `BNDRY` did not pass `CURR`. -/
structure NicRun.Protocol (s : NicRun) : Prop where
  inOrder : s.delivered ++ s.unread = s.stored
  idle : ∀ n ∈ s.idle, n = 0
  notPassed : s.NotPassed

/-- The ring holds the unread packets. -/
structure NicRun.Holds (s : NicRun) : Prop where
  bounded : s.nic.Bounded
  sizes : ∀ packet ∈ s.unread, packet.length ≤ 1500
  laid : Laid s.nic.ring (pageIndex (rxPage s.nic.bndry)) s.unread

/-- More was delivered than was stored, or something was left unread. -/
def NicRun.Strayed (s : NicRun) : Prop :=
  s.stored.length < s.delivered.length + s.unread.length ∨ ∃ n ∈ s.idle, n ≠ 0

theorem NicRun.Strayed.not_protocol {s : NicRun} (h : s.Strayed) : ¬ s.Protocol := by
  rintro ⟨hinOrder, hidle, -⟩
  rcases h with hmore | ⟨n, hn, hn0⟩
  · rw [← hinOrder, List.length_append] at hmore
    omega
  · exact hn0 (hidle n hn)

/-- The poll finds what it is for: with packets unread `CURR` is not `BNDRY`, and
with none unread the next page holds no header. -/
def NicRun.Finds (s : NicRun) : Prop :=
  (s.unread ≠ [] → s.nic.curr ≠ s.nic.bndry) ∧ (s.unread = [] → rxLength s.nic < 4)

/-- The condition on one event. -/
def NicEvent.Orderly : NicEvent → NicRun → Prop
  | .arrive _ _, _ => True
  | .poll, s => s.Finds

/-! ## Polls -/

/-- What a poll reads when a packet is laid out on the next page. -/
theorem ne2000Poll_laid {nic : Nic} {packet : List UInt8} {status next : UInt8}
    (hbounded : nic.Bounded) (hbndry : InRing nic.bndry) (hcurr : nic.curr ≠ nic.bndry)
    (hsize : packet.length ≤ 1500)
    (hread : Circular.read ringSize nic.ring (256 * pageIndex (rxPage nic.bndry))
      (4 + packet.length) = framed status next packet) :
    ne2000Poll nic = (some packet, { nic with bndry := pageBefore next }) := by
  have hpage := hbndry.rxPage.1
  have hlt := hpage.eq_pageAt.2
  -- the header and the data lie one behind the other
  have haddr : ∀ k len, k ≤ 4 → neDmaRead nic ((rxPage nic.bndry).toNat * 256 + k) len =
      Circular.read ringSize nic.ring (256 * pageIndex (rxPage nic.bndry) + k) len := by
    intro k len hk
    rw [← hbounded.neDmaRead, Nat.mod_eq_of_lt (by rw [ringSize]; omega), hpage.address,
      Nat.add_assoc]
  rw [Circular.read_add, framed] at hread
  obtain ⟨hhdr, hdata⟩ := List.append_inj hread (Circular.read_length _ _)
  have hfield : (UInt8.ofNat (packet.length + 4)).toNat +
      (UInt8.ofNat ((packet.length + 4) / 256)).toNat * 256 = packet.length + 4 := by
    rw [UInt8.toNat_ofNat', UInt8.toNat_ofNat']
    omega
  have hdr := (haddr 0 4 (by omega)).trans hhdr
  have hlength : rxLength nic = packet.length + 4 := by
    rw [Nat.add_zero] at hdr
    simp only [rxLength, hdr]
    exact hfield
  have hlong : ¬ 1500 < packet.length := by omega
  simp only [ne2000Poll, if_neg hcurr, hlength, Nat.add_sub_cancel, if_neg hlong,
    if_neg (show ¬ packet.length + 4 < 4 by omega)]
  rw [haddr 4 _ (Nat.le_refl 4), hdata, ← Nat.add_zero ((rxPage nic.bndry).toNat * 256), hdr]
  rfl

/-- What a poll makes of the length field that it finds. -/
theorem ne2000Poll_cases {nic : Nic} (hcurr : nic.curr ≠ nic.bndry) :
    (rxLength nic < 4 ∧ ne2000Poll nic = (none, nic)) ∨
    (4 ≤ rxLength nic ∧ ∃ packet nic', ne2000Poll nic = (some packet, nic')) := by
  unfold ne2000Poll
  rw [if_neg hcurr]
  dsimp only
  split
  next h => exact .inl ⟨h, rfl⟩
  next h => exact .inr ⟨Nat.le_of_not_lt h, _, _, rfl⟩

/-! ## Steps -/

/-- A step keeps what has gone wrong. -/
theorem NicRun.Strayed.step {s s' : NicRun} {ev : NicEvent} {r : Option (List UInt8)}
    (h : s.Strayed) (hstep : nicStep ev s = some (r, s')) : s'.Strayed := by
  cases ev with
  | arrive status packet =>
      simp only [nicStep] at hstep
      split at hstep
      next =>
        obtain ⟨-, rfl⟩ := Prod.mk.inj (Option.some.inj hstep)
        refine h.imp_left fun hmore => ?_
        change (s.stored ++ [packet]).length < s.delivered.length + (s.unread ++ [packet]).length
        simp only [List.length_append]
        omega
      next =>
        obtain ⟨-, rfl⟩ := Prod.mk.inj (Option.some.inj hstep)
        exact h
  | poll =>
      simp only [nicStep] at hstep
      split at hstep
      next =>
        obtain ⟨-, rfl⟩ := Prod.mk.inj (Option.some.inj hstep)
        refine h.imp_right ?_
        rintro ⟨n, hn, hn0⟩
        exact ⟨n, List.mem_cons_of_mem _ hn, hn0⟩
      next packet nic hpoll =>
        obtain ⟨-, rfl⟩ := Prod.mk.inj (Option.some.inj hstep)
        refine h.imp_left fun hmore => ?_
        change s.stored.length < (s.delivered ++ [packet]).length + s.unread.tail.length
        simp only [List.length_append, List.length_tail, List.length_singleton]
        omega

/-- Storing a packet that fits keeps the ring in order. -/
theorem NicRun.Protocol.arrive {s : NicRun} {packet : List UInt8} (h : s.Protocol)
    (hholds : s.Holds) (hfits : s.Accepts packet) (status : UInt8) :
    let s' : NicRun := { s with
      nic := s.nic.receive status packet
      stored := s.stored ++ [packet]
      unread := s.unread ++ [packet] }
    s'.Protocol ∧ s'.Holds := by
  obtain ⟨hinOrder, hidle, hbndry, hturn, hcurr⟩ := h
  obtain ⟨⟨-, hsize⟩, hroom⟩ := hfits
  -- `CURR` stands for the page behind the unread ones
  have hfirst : pageIndex s.nic.curr =
      (pageIndex (rxPage s.nic.bndry) + unreadPages s.unread) % 52 := by
    rw [hcurr, pageIndex_pageAt]
  have hnext : pageAt (pageIndex s.nic.curr + packetPages packet) =
      pageAt (pageIndex (rxPage s.nic.bndry) + unreadPages s.unread + packetPages packet) := by
    refine pageAt_congr ?_
    rw [hfirst, Nat.mod_add_mod]
  have hcells : ∀ cell, cell < ringSize → (s.nic.receive status packet).ring cell =
      Circular.write ringSize s.nic.ring
        (256 * (pageIndex (rxPage s.nic.bndry) + unreadPages s.unread))
        (framed status (pageAt (pageIndex (rxPage s.nic.bndry) + unreadPages s.unread +
          packetPages packet)) packet) cell := by
    intro cell hcell
    rw [s.nic.receive_ring status packet cell hcell, hnext, Circular.write_congr]
    rw [hfirst, ringSize]
    omega
  refine ⟨⟨?_, hidle, hbndry, ?_, ?_⟩, hholds.bounded, ?_, ?_⟩
  · change s.delivered ++ (s.unread ++ [packet]) = s.stored ++ [packet]
    rw [← List.append_assoc, hinOrder]
  · change unreadPages (s.unread ++ [packet]) ≤ 52
    rw [unreadPages_append]
    exact hroom
  · change pageAt (pageIndex s.nic.curr + packetPages packet) =
      pageAt (pageIndex (rxPage s.nic.bndry) + unreadPages (s.unread ++ [packet]))
    rw [hnext, unreadPages_append, Nat.add_assoc]
  · intro p hp
    rcases List.mem_append.mp hp with hp | hp
    · exact hholds.sizes p hp
    · rw [List.mem_singleton.mp hp]
      exact hsize
  · exact (hholds.laid.store hsize hroom).of_cells hcells

/-- Reading the next packet keeps the ring in order. -/
theorem NicRun.Protocol.deliver {s : NicRun} {packet : List UInt8} {rest : List (List UInt8)}
    (h : s.Protocol) (hholds : s.Holds) (hunread : s.unread = packet :: rest)
    (hcurr : s.nic.curr ≠ s.nic.bndry) :
    ∃ nic, ne2000Poll s.nic = (some packet, nic) ∧
      let s' : NicRun := { s with
        nic, unread := s.unread.tail, delivered := s.delivered ++ [packet] }
      s'.Protocol ∧ s'.Holds := by
  obtain ⟨hinOrder, hidle, hbndry, hturn, hreach⟩ := h
  obtain ⟨hbounded, hsizes, hlaid⟩ := hholds
  rw [hunread] at hlaid hsizes hturn hreach hinOrder
  rw [unreadPages_cons] at hturn hreach
  obtain ⟨⟨status, hread⟩, hrest⟩ := hlaid
  obtain ⟨hsize, hsizes⟩ := List.forall_mem_cons.mp hsizes
  refine ⟨_, ne2000Poll_laid hbounded hbndry hcurr hsize hread, ?_⟩
  have hin := inRing_pageAt (pageIndex (rxPage s.nic.bndry) + packetPages packet)
  -- the new `BNDRY` is one page behind the page of the next packet
  have hindex : pageIndex (rxPage (pageBefore
      (pageAt (pageIndex (rxPage s.nic.bndry) + packetPages packet)))) =
      (pageIndex (rxPage s.nic.bndry) + packetPages packet) % 52 := by
    rw [rxPage_pageBefore hin, pageIndex_pageAt]
  rw [hunread, List.tail_cons]
  refine ⟨⟨?_, hidle, inRing_pageBefore hin, ?_, ?_⟩, hbounded, hsizes, ?_⟩
  · change s.delivered ++ [packet] ++ rest = s.stored
    rw [List.append_assoc, List.singleton_append, hinOrder]
  · change unreadPages rest ≤ 52
    omega
  · change s.nic.curr = _
    rw [hreach, ← Nat.add_assoc]
    refine pageAt_congr ?_
    rw [hindex, Nat.mod_add_mod]
  · refine hrest.congr ?_
    change _ = pageIndex (rxPage (pageBefore
      (pageAt (pageIndex (rxPage s.nic.bndry) + packetPages packet)))) % 52
    rw [hindex, Nat.mod_mod]

/-- What a run has done so far: it is in order, or something has gone wrong. -/
def NicRun.Settled (s : NicRun) : Prop := (s.Protocol ∧ s.Holds) ∨ s.Strayed

theorem NicRun.settled_start (nic : Nic) :
    (NicRun.start nic).Protocol ∧ (NicRun.start nic).Holds := by
  refine ⟨⟨rfl, fun _ h => absurd h List.not_mem_nil, ?_⟩, ⟨rfl, rfl⟩, ?_, trivial⟩
  · change InRing 0x4C ∧ 0 ≤ 52 ∧ (0x4D : UInt8) = pageAt (pageIndex (rxPage 0x4C) + 0)
    decide
  · exact fun _ h => absurd h List.not_mem_nil

/-- Every event returns. -/
theorem nicStep_returns (ev : NicEvent) (s : NicRun) : ∃ r s', nicStep ev s = some (r, s') := by
  unfold nicStep
  split
  next => split <;> exact ⟨_, _, rfl⟩
  next => split <;> exact ⟨_, _, rfl⟩

/-- With nothing unread, a poll goes well exactly when it finds no header. -/
theorem NicRun.Protocol.pollEmpty {s s' : NicRun} {r : Option (List UInt8)} (h : s.Protocol)
    (hholds : s.Holds) (hunread : s.unread = []) (hstep : nicStep .poll s = some (r, s')) :
    s'.Settled ∧ (s'.Protocol ↔ rxLength s.nic < 4) := by
  obtain ⟨hinOrder, hidle, hbndry, hturn, hreach⟩ := h
  -- `CURR` is the page that is read next
  have hcurr : s.nic.curr ≠ s.nic.bndry := by
    rw [hreach, hunread]
    change pageAt (pageIndex (rxPage s.nic.bndry)) ≠ _
    rw [← hbndry.rxPage.1.eq_pageAt.1]
    exact hbndry.rxPage.2
  simp only [nicStep] at hstep
  rcases ne2000Poll_cases hcurr with ⟨hlength, hpoll⟩ | ⟨hlength, packet, nic, hpoll⟩
  · rw [hpoll] at hstep
    obtain ⟨-, rfl⟩ := Prod.mk.inj (Option.some.inj hstep)
    have hprotocol : NicRun.Protocol { s with idle := s.unread.length :: s.idle } := by
      refine ⟨hinOrder, ?_, hbndry, hturn, hreach⟩
      rw [hunread]
      exact List.forall_mem_cons.mpr ⟨rfl, hidle⟩
    exact ⟨.inl ⟨hprotocol, hholds.1, hholds.2, hholds.3⟩, iff_of_true hprotocol hlength⟩
  · rw [hpoll] at hstep
    obtain ⟨-, rfl⟩ := Prod.mk.inj (Option.some.inj hstep)
    -- a packet was delivered that was never stored, or once more
    have hstrayed : NicRun.Strayed { s with
        nic, unread := s.unread.tail, delivered := s.delivered ++ [packet] } := by
      refine .inl ?_
      change s.stored.length < (s.delivered ++ [packet]).length + s.unread.tail.length
      rw [← hinOrder, hunread, List.append_nil, List.length_append, List.length_singleton]
      omega
    exact ⟨.inr hstrayed, iff_of_false hstrayed.not_protocol (Nat.not_lt.mpr hlength)⟩

/-- With a packet unread, a poll goes well exactly when `CURR` is not `BNDRY`. -/
theorem NicRun.Protocol.pollUnread {s s' : NicRun} {r : Option (List UInt8)} (h : s.Protocol)
    (hholds : s.Holds) (hunread : s.unread ≠ []) (hstep : nicStep .poll s = some (r, s')) :
    s'.Settled ∧ (s'.Protocol ↔ s.nic.curr ≠ s.nic.bndry) := by
  simp only [nicStep] at hstep
  by_cases hcurr : s.nic.curr = s.nic.bndry
  · rw [ne2000Poll, if_pos hcurr] at hstep
    obtain ⟨-, rfl⟩ := Prod.mk.inj (Option.some.inj hstep)
    have hstrayed : NicRun.Strayed { s with idle := s.unread.length :: s.idle } :=
      .inr ⟨_, List.mem_cons_self, fun hzero => hunread (List.eq_nil_of_length_eq_zero hzero)⟩
    exact ⟨.inr hstrayed, iff_of_false hstrayed.not_protocol (fun hne => hne hcurr)⟩
  · obtain ⟨packet, rest, hcons⟩ := List.exists_cons_of_ne_nil hunread
    obtain ⟨nic, hpoll, hprotocol, hholds'⟩ := h.deliver hholds hcons hcurr
    rw [hpoll] at hstep
    obtain ⟨-, rfl⟩ := Prod.mk.inj (Option.some.inj hstep)
    exact ⟨.inl ⟨hprotocol, hholds'⟩, iff_of_true hprotocol hcurr⟩

/-- One event: it settles what the run has done, and keeps the protocol exactly
when it is orderly. -/
theorem NicRun.Settled.step {s s' : NicRun} {ev : NicEvent} {r : Option (List UInt8)}
    (h : s.Settled) (hstep : nicStep ev s = some (r, s')) :
    s'.Settled ∧ (s'.Protocol ↔ s.Protocol ∧ ev.Orderly s) := by
  rcases h with ⟨hprotocol, hholds⟩ | hstrayed
  · rw [and_iff_right hprotocol]
    cases ev with
    | arrive status packet =>
        simp only [nicStep] at hstep
        split at hstep
        next hfits =>
          obtain ⟨-, rfl⟩ := Prod.mk.inj (Option.some.inj hstep)
          obtain ⟨hprotocol', hholds'⟩ := hprotocol.arrive hholds hfits status
          exact ⟨.inl ⟨hprotocol', hholds'⟩, iff_of_true hprotocol' trivial⟩
        next =>
          obtain ⟨-, rfl⟩ := Prod.mk.inj (Option.some.inj hstep)
          exact ⟨.inl ⟨hprotocol, hholds⟩, iff_of_true hprotocol trivial⟩
    | poll =>
        change s'.Settled ∧ (s'.Protocol ↔ s.Finds)
        by_cases hunread : s.unread = []
        · obtain ⟨hsettled, hiff⟩ := hprotocol.pollEmpty hholds hunread hstep
          refine ⟨hsettled, hiff.trans ⟨fun hlength => ⟨fun hne => absurd hunread hne, ?_⟩, ?_⟩⟩
          · exact fun _ => hlength
          · exact fun hfinds => hfinds.2 hunread
        · obtain ⟨hsettled, hiff⟩ := hprotocol.pollUnread hholds hunread hstep
          refine ⟨hsettled, hiff.trans ⟨fun hcurr => ⟨fun _ => hcurr, ?_⟩, ?_⟩⟩
          · exact fun hnil => absurd hnil hunread
          · exact fun hfinds => hfinds.1 hunread
  · have hstrayed' := hstrayed.step hstep
    exact ⟨.inr hstrayed', iff_of_false hstrayed'.not_protocol
      fun hboth => hstrayed.not_protocol hboth.1⟩

/-! ## Runs -/

/-- Every run of arrivals and polls after `ne2000_init` returns. It follows the
receive-ring protocol exactly when every poll finds what it is for: `CURR` is not
`BNDRY` while packets are unread, and the page after `BNDRY` holds no header when
none is. -/
theorem ne2000_protocol_iff (nic : Nic) (evs : List NicEvent) :
    ∃ rs s, runAll nicStep evs (NicRun.start nic) = some (rs, s) ∧
      (s.Protocol ↔ Throughout nicStep NicEvent.Orderly evs (NicRun.start nic)) := by
  obtain ⟨hprotocol, hholds⟩ := NicRun.settled_start nic
  obtain ⟨rs, s, hrun, -⟩ := runAll_returns (fun _ _ => True)
    (fun ev _ s _ => (nicStep_returns ev s).imp fun _ h => h.imp fun _ h => ⟨h, trivial⟩)
    evs (NicRun.start nic) trivial
  refine ⟨rs, s, hrun, ?_⟩
  rw [runAll_iff_throughout NicRun.Settled NicRun.Protocol
    (fun ev s r s' hsettled hstep => hsettled.step hstep) hrun (.inl ⟨hprotocol, hholds⟩)]
  exact and_iff_right hprotocol

/-- Packets of one byte, each of them polled for before the next one arrives. -/
def arriveAndPoll : Nat → List NicEvent
  | 0 => []
  | n + 1 => .arrive 1 [UInt8.ofNat n] :: .poll :: arriveAndPoll n

/-- Once the ring has wrapped, a poll with nothing unread returns the packet that
was stored on the next page one turn ago. -/
theorem not_protocol_after_turn :
    ∃ rs s, runAll nicStep (arriveAndPoll 52 ++ [.poll]) (NicRun.start ⟨fun _ => 0, 0, 0, 0, 0⟩) =
      some (rs, s) ∧ s.unread = [] ∧ ¬ s.Protocol := by
  have hrun : ((runAll nicStep (arriveAndPoll 52 ++ [.poll])
      (NicRun.start ⟨fun _ => 0, 0, 0, 0, 0⟩)).map fun run =>
        (run.2.stored.length, run.2.unread, run.2.delivered.length)) = some (52, [], 53) := by
    decide +kernel
  obtain ⟨⟨rs, s⟩, hs, hlengths⟩ := Option.map_eq_some_iff.mp hrun
  obtain ⟨hstored, hunread, hdelivered⟩ : s.stored.length = 52 ∧ s.unread = [] ∧
      s.delivered.length = 53 := by simpa using hlengths
  refine ⟨rs, s, hs, hunread, NicRun.Strayed.not_protocol (.inl ?_)⟩
  rw [hstored, hdelivered]
  omega

end Dosfs
