import Mathlib.Data.Multiset.AddSub
import Dosfs.Foundation.Run
import Dosfs.Net.Moves
import Dosfs.Net.Waiting

/-!
# Which address a reply is for

Calls of `arp_resolve` and received packets in any order. A call that finds
nothing in the cache waits until a reply has been taken, whatever address the
reply is for, and several calls may wait at once; the one that stops first and
those that stop later all take the hardware address of the last reply.
-/

namespace Dosfs

open Foundation Fuelled

/-! ## Packets and calls -/

/-- The stack with a history: the addresses that calls wait for, the ARP packets
received, the sender of the reply taken last, and what calls have returned. -/
structure ArpRun where
  net : Net
  waits : Multiset Ip
  packets : List (Memory × Nat)
  lastReply : Option Ip
  returned : List (Ip × Mac)

def ArpRun.start : ArpRun := ⟨startNet, 0, [], none, []⟩

inductive ArpEvent
  | packet (pkt : Memory) (len : Nat)
  /-- A call answers from the cache or starts to wait. -/
  | resolve (ip : Ip)
  /-- A call that waits for the address stops. -/
  | stop (ip : Ip)

/-- The packet is a reply that a waiting call takes. -/
def TakesReply (net : Net) (pkt : Memory) (len : Nat) : Prop :=
  42 ≤ len ∧ pkt.loadLe 20 2 = htons 2 ∧ net.arpWaiting = true

instance (net : Net) (pkt : Memory) (len : Nat) : Decidable (TakesReply net pkt len) :=
  inferInstanceAs (Decidable (_ ∧ _))

/-- One event; the answer is what a call returns. -/
def arpStep : ArpEvent → ArpRun → Option (Option Mac × ArpRun)
  | .packet pkt len, r =>
      some (none, { r with
        net := (outcome (arpProcess pkt len) r.net).2
        packets := r.packets ++ [(pkt, len)]
        lastReply := if TakesReply r.net pkt len then some (Ip.load pkt 28) else r.lastReply })
  | .resolve ip, r =>
      match arpLookup r.net.arpCache ip with
      | some mac => some (some mac, { r with returned := r.returned ++ [(ip, mac)] })
      | none => some (none, { r with
          net := { r.net with arpWaiting := true }
          waits := ip ::ₘ r.waits })
  | .stop ip, r =>
      if ip ∈ r.waits then
        let (found, net) := outcome (arpFinish ip) r.net
        some (found.join, { r with
          net := net
          waits := r.waits.erase ip
          returned := r.returned ++ (found.join.map fun mac => (ip, mac)).toList })
      else some (none, r)

/-- One of the ARP packets claims that its sender has these addresses. -/
def Announced (packets : List (Memory × Nat)) (ip : Ip) (mac : Mac) : Prop :=
  ∃ p ∈ packets, 42 ≤ p.2 ∧ Ip.load p.1 28 = ip ∧ Mac.load p.1 22 = mac

/-- What calls have returned and what the cache holds was announced. -/
structure ArpRun.Binds (r : ArpRun) : Prop where
  returned : ∀ ip mac, (ip, mac) ∈ r.returned → Announced r.packets ip mac
  cache : ∀ entry ∈ r.net.arpCache, entry.valid → Announced r.packets entry.ip entry.mac

/-- A call that stops waiting with a reply is the one that the reply is for. -/
def OwnReply : ArpEvent → ArpRun → Prop
  | .stop ip, r => ip ∈ r.waits → r.net.arpWaiting = false → r.lastReply = some ip
  | _, _ => True

/-! ## The cache -/

theorem mem_replaceF {α : Type} {l : List α} {f : α → Option α} {x : α} (h : x ∈ l.replaceF f) :
    x ∈ l ∨ ∃ y ∈ l, f y = some x := by
  induction l with
  | nil => exact .inl h
  | cons y l ih =>
      rw [List.replaceF] at h
      cases hy : f y with
      | none =>
          rw [hy] at h
          rcases List.mem_cons.mp h with rfl | hrest
          · exact .inl List.mem_cons_self
          · rcases ih hrest with hmem | ⟨z, hz, hfz⟩
            · exact .inl (List.mem_cons_of_mem _ hmem)
            · exact .inr ⟨z, List.mem_cons_of_mem _ hz, hfz⟩
      | some z =>
          rw [hy] at h
          rcases List.mem_cons.mp h with rfl | hrest
          · exact .inr ⟨y, List.mem_cons_self, hy⟩
          · exact .inl (List.mem_cons_of_mem _ hrest)

/-- An entry of the cache was there before, or it is the one added. -/
theorem mem_arpCacheAdd {cache : List ArpEntry} {ip : Ip} {mac : Mac} {entry : ArpEntry}
    (h : entry ∈ arpCacheAdd cache ip mac) :
    entry ∈ cache ∨ (entry.ip = ip ∧ entry.mac = mac) := by
  unfold arpCacheAdd at h
  split at h
  next =>
    rcases mem_replaceF h with hmem | ⟨old, -, hold⟩
    · exact .inl hmem
    · split at hold
      next hfor =>
        obtain rfl := Option.some.inj hold
        simp only [ArpEntry.isFor, Bool.and_eq_true, decide_eq_true_eq] at hfor
        exact .inr ⟨hfor.2, rfl⟩
      next => cases hold
  next =>
    rcases mem_replaceF h with hmem | ⟨old, -, hold⟩
    · exact .inl hmem
    · split at hold
      next => cases hold
      next =>
        obtain rfl := Option.some.inj hold
        exact .inr ⟨rfl, rfl⟩

theorem arpLookup_mem {cache : List ArpEntry} {ip : Ip} {mac : Mac}
    (h : arpLookup cache ip = some mac) :
    ∃ entry ∈ cache, entry.valid ∧ entry.ip = ip ∧ entry.mac = mac := by
  obtain ⟨entry, hfind, rfl⟩ := Option.map_eq_some_iff.mp h
  have hfor := List.find?_some hfind
  simp only [ArpEntry.isFor, Bool.and_eq_true, decide_eq_true_eq] at hfor
  exact ⟨entry, List.mem_of_find?_eq_some hfind, hfor.1, hfor.2, rfl⟩

/-! ## Steps -/

theorem arpAnswer_effect (pkt : Memory) (net : Net) :
    ∃ net', outcome (arpAnswer pkt) net = (some (), net') ∧ net'.arpWaiting = net.arpWaiting ∧
      net'.arpReplyMac = net.arpReplyMac ∧
      ∀ entry ∈ net'.arpCache, entry ∈ net.arpCache ∨
        (entry.ip = Ip.load pkt 28 ∧ entry.mac = Mac.load pkt 22) := by
  unfold arpAnswer
  split
  next => exact ⟨_, rfl, rfl, rfl, fun _ hentry => mem_arpCacheAdd hentry⟩
  next => exact ⟨net, rfl, rfl, rfl, fun _ hentry => .inl hentry⟩

theorem arpTakeReply_effect (pkt : Memory) (net : Net) :
    ∃ net', outcome (arpTakeReply pkt) net = (some (), net') ∧
      (∀ entry ∈ net'.arpCache, entry ∈ net.arpCache ∨
        (entry.ip = Ip.load pkt 28 ∧ entry.mac = Mac.load pkt 22)) ∧
      net'.arpReplyMac =
        if pkt.loadLe 20 2 = htons 2 ∧ net.arpWaiting = true then Mac.load pkt 22
        else net.arpReplyMac := by
  unfold arpTakeReply
  rw [outcome_get_bind]
  split
  next => exact ⟨_, rfl, fun _ hentry => mem_arpCacheAdd hentry, rfl⟩
  next => exact ⟨net, rfl, fun _ hentry => .inl hentry, rfl⟩

/-- What a packet does to the cache and to the reply taken. -/
theorem arpProcess_effect (pkt : Memory) (len : Nat) (net : Net) :
    let net' := (outcome (arpProcess pkt len) net).2
    (∀ entry ∈ net'.arpCache, entry ∈ net.arpCache ∨
      (42 ≤ len ∧ entry.ip = Ip.load pkt 28 ∧ entry.mac = Mac.load pkt 22)) ∧
    net'.arpReplyMac = if TakesReply net pkt len then Mac.load pkt 22 else net.arpReplyMac := by
  unfold arpProcess
  split
  next hshort =>
    refine ⟨fun _ hentry => .inl hentry, (if_neg ?_).symm⟩
    exact fun htakes => absurd htakes.1 (Nat.not_le.mpr hshort)
  next hlong =>
    have hlen := Nat.le_of_not_lt hlong
    obtain ⟨net₁, hanswer, hwaiting, hmac, hcache⟩ := arpAnswer_effect pkt net
    obtain ⟨net₂, htake, hcache', hmac'⟩ := arpTakeReply_effect pkt net₁
    rw [outcome_bind_some hanswer, htake]
    refine ⟨fun entry hentry => ?_, ?_⟩
    · rcases hcache' entry hentry with hold | hnew
      · exact (hcache entry hold).imp_right fun hnew => ⟨hlen, hnew⟩
      · exact .inr ⟨hlen, hnew⟩
    · have hiff : TakesReply net pkt len ↔
          pkt.loadLe 20 2 = htons 2 ∧ net.arpWaiting = true := and_iff_right hlen
      rw [hmac', hwaiting, hmac]
      simp only [hiff]

theorem arpFinish_effect (ip : Ip) (net : Net) :
    ∃ found net', outcome (arpFinish ip) net = (some found, net') ∧
      ((net.arpWaiting = true ∧ found = none ∧ net' = net) ∨
        (net.arpWaiting = false ∧ found = some net.arpReplyMac ∧
          net' = { net with arpCache := arpCacheAdd net.arpCache ip net.arpReplyMac })) := by
  unfold arpFinish
  rw [outcome_get_bind]
  split
  next hwaiting => exact ⟨none, net, rfl, .inl ⟨hwaiting, rfl, rfl⟩⟩
  next hwaiting => exact ⟨_, _, rfl, .inr ⟨Bool.eq_false_iff.mpr hwaiting, rfl, rfl⟩⟩

/-- What is kept along a run: beside the binding, the reply taken last was
announced by its sender. -/
structure ArpRun.Sound (r : ArpRun) : Prop extends r.Binds where
  reply : ∀ ip, r.lastReply = some ip → Announced r.packets ip r.net.arpReplyMac

theorem Announced.mono {packets packets' : List (Memory × Nat)} {ip : Ip} {mac : Mac}
    (h : Announced packets ip mac) (hpackets : packets ⊆ packets') : Announced packets' ip mac := by
  obtain ⟨p, hp, hclaims⟩ := h
  exact ⟨p, hpackets hp, hclaims⟩

theorem ArpRun.Sound.packet {r : ArpRun} (h : r.Sound) (pkt : Memory) (len : Nat) :
    ArpRun.Sound { r with
      net := (outcome (arpProcess pkt len) r.net).2
      packets := r.packets ++ [(pkt, len)]
      lastReply := if TakesReply r.net pkt len then some (Ip.load pkt 28) else r.lastReply } := by
  obtain ⟨hcache, hmac⟩ := arpProcess_effect pkt len r.net
  have hsub : r.packets ⊆ r.packets ++ [(pkt, len)] := List.subset_append_left _ _
  have hnew : (pkt, len) ∈ r.packets ++ [(pkt, len)] :=
    List.mem_append_right _ List.mem_cons_self
  refine ⟨⟨?_, ?_⟩, ?_⟩
  · exact fun ip mac hret => (h.returned ip mac hret).mono hsub
  · intro entry hentry hvalid
    rcases hcache entry hentry with hold | ⟨hlen, hip, hmac⟩
    · exact (h.cache entry hold hvalid).mono hsub
    · exact ⟨(pkt, len), hnew, hlen, hip.symm, hmac.symm⟩
  · intro ip hlast
    change Announced (r.packets ++ [(pkt, len)]) ip
      (outcome (arpProcess pkt len) r.net).2.arpReplyMac
    rw [hmac]
    dsimp only at hlast
    split at hlast
    next htakes =>
      obtain rfl := Option.some.inj hlast
      rw [if_pos htakes]
      exact ⟨(pkt, len), hnew, htakes.1, rfl, rfl⟩
    next htakes =>
      rw [if_neg htakes]
      exact (h.reply ip hlast).mono hsub

/-- Every event of an orderly run keeps the binding. -/
theorem ArpRun.Sound.step {r : ArpRun} {ev : ArpEvent} (h : r.Sound) (hown : OwnReply ev r) :
    ∃ answer r', arpStep ev r = some (answer, r') ∧ r'.Sound := by
  cases ev with
  | packet pkt len => exact ⟨_, _, rfl, h.packet pkt len⟩
  | resolve ip =>
      cases hlookup : arpLookup r.net.arpCache ip with
      | some mac =>
          refine ⟨some mac, { r with returned := r.returned ++ [(ip, mac)] }, ?_, ?_⟩
          · simp only [arpStep, hlookup]
          · refine ⟨⟨fun ip' mac' hret => ?_, h.cache⟩, h.reply⟩
            rcases List.mem_append.mp hret with hold | hnew
            · exact h.returned ip' mac' hold
            · obtain ⟨rfl, rfl⟩ := Prod.mk.inj (List.mem_singleton.mp hnew)
              obtain ⟨entry, hentry, hvalid, rfl, rfl⟩ := arpLookup_mem hlookup
              exact h.cache entry hentry hvalid
      | none =>
          refine ⟨none, { r with
              net := { r.net with arpWaiting := true }
              waits := ip ::ₘ r.waits }, ?_, ⟨⟨h.returned, h.cache⟩, h.reply⟩⟩
          simp only [arpStep, hlookup]
  | stop ip =>
      by_cases hwaits : ip ∈ r.waits
      · obtain ⟨found, net, hfinish, hcases⟩ := arpFinish_effect ip r.net
        refine ⟨found, { r with
          net := net
          waits := r.waits.erase ip
          returned := r.returned ++ (found.map fun mac => (ip, mac)).toList }, ?_, ?_⟩
        · simp only [arpStep, if_pos hwaits, hfinish, Option.join_some]
        · rcases hcases with ⟨-, rfl, rfl⟩ | ⟨hwaiting, rfl, rfl⟩
          · refine ⟨⟨?_, h.cache⟩, h.reply⟩
            rw [Option.map_none, Option.toList_none, List.append_nil]
            exact h.returned
          · -- the reply taken last is for this address
            have hreply := h.reply ip (hown hwaits hwaiting)
            refine ⟨⟨fun ip' mac' hret => ?_, fun entry hentry hvalid => ?_⟩, h.reply⟩
            · rcases List.mem_append.mp hret with hold | hnew
              · exact h.returned ip' mac' hold
              · obtain ⟨rfl, rfl⟩ := Prod.mk.inj (List.mem_singleton.mp hnew)
                exact hreply
            · rcases mem_arpCacheAdd hentry with hold | ⟨hip, hmac⟩
              · exact h.cache entry hold hvalid
              · rw [hip, hmac]
                exact hreply
      · refine ⟨none, r, ?_, h⟩
        simp only [arpStep, if_neg hwaits]

theorem ArpRun.sound_start : ArpRun.start.Sound := by
  refine ⟨⟨fun _ _ h => absurd h List.not_mem_nil, ?_⟩, fun _ h => absurd h (by simp [start])⟩
  intro entry hentry hvalid
  obtain rfl := List.eq_of_mem_replicate hentry
  cases hvalid

/-! ## The code makes such runs -/

/-- The resolution of addresses is in the same state. -/
structure SameArp (net s : Net) : Prop where
  cache : net.arpCache = s.arpCache
  waiting : net.arpWaiting = s.arpWaiting
  reply : net.arpReplyMac = s.arpReplyMac

/-- The run is in the state of the stack, and its packets were dispatched. -/
structure ArpRun.Tracks (r : ArpRun) (s : Net) : Prop where
  arp : SameArp r.net s
  noted : ∀ p ∈ r.packets, Noted s p.1 p.2

/-- A run leads from one history to the other, and the calls that waited before still wait. -/
structure ArpRun.LeadsTo (r r' : ArpRun) : Prop where
  runs : RunsTo arpStep r r'
  waits : r.waits ≤ r'.waits
  returned : r.returned <+: r'.returned

instance : IsPreorder ArpRun ArpRun.LeadsTo where
  refl r := ⟨.refl r, le_refl _, List.prefix_refl _⟩
  trans _ _ _ h h' :=
    ⟨h.runs.trans h'.runs, h.waits.trans h'.waits, h.returned.trans h'.returned⟩

/-- What the stack does can be followed by a run. -/
def ArpFollows (s s' : Net) : Prop :=
  ∀ r : ArpRun, r.Tracks s → ∃ r', r.LeadsTo r' ∧ r'.Tracks s'

instance : IsPreorder Net ArpFollows where
  refl _ r hr := ⟨r, refl r, hr⟩
  trans _ _ _ h h' r hr := by
    obtain ⟨r₁, hleads, hr₁⟩ := h r hr
    obtain ⟨r₂, hleads', hr₂⟩ := h' r₁ hr₁
    exact ⟨r₂, trans_of ArpRun.LeadsTo hleads hleads', hr₂⟩

/-- Nothing happens to the resolution of addresses. -/
theorem arpFollows_of_same {s s' : Net} (harp : SameArp s s')
    (hlog : s.rx.dispatched <+: s'.rx.dispatched) : ArpFollows s s' := by
  intro r hr
  refine ⟨r, refl r, ⟨⟨hr.arp.cache.trans harp.cache, hr.arp.waiting.trans harp.waiting,
    hr.arp.reply.trans harp.reply⟩, fun p hp => ?_⟩⟩
  obtain ⟨slot, hslot⟩ := hr.noted p hp
  exact ⟨slot, hlog.subset hslot⟩

theorem arpAnswer_congr {net s : Net} (h : SameArp net s) (pkt : Memory) :
    ∃ net' s', outcome (arpAnswer pkt) net = (some (), net') ∧
      outcome (arpAnswer pkt) s = (some (), s') ∧ SameArp net' s' := by
  unfold arpAnswer
  split
  next =>
    refine ⟨_, _, rfl, rfl, ?_, h.waiting, h.reply⟩
    change arpCacheAdd net.arpCache _ _ = arpCacheAdd s.arpCache _ _
    rw [h.cache]
  next => exact ⟨net, s, rfl, rfl, h⟩

theorem arpTakeReply_congr {net s : Net} (h : SameArp net s) (pkt : Memory) :
    SameArp (outcome (arpTakeReply pkt) net).2 (outcome (arpTakeReply pkt) s).2 := by
  unfold arpTakeReply
  rw [outcome_get_bind, outcome_get_bind, h.waiting]
  split
  next =>
    refine ⟨?_, rfl, rfl⟩
    change arpCacheAdd net.arpCache _ _ = arpCacheAdd s.arpCache _ _
    rw [h.cache]
  next => exact h

/-- What a packet does depends on the resolution of addresses only. -/
theorem arpProcess_congr {net s : Net} (h : SameArp net s) (pkt : Memory) (len : Nat) :
    SameArp (outcome (arpProcess pkt len) net).2 (outcome (arpProcess pkt len) s).2 := by
  unfold arpProcess
  split
  next => exact h
  next =>
    obtain ⟨net', s', hnet, hs, h'⟩ := arpAnswer_congr h pkt
    rw [outcome_bind_some hnet, outcome_bind_some hs]
    exact arpTakeReply_congr h' pkt

theorem arpFollows_packet {s : Net} {pkt : Memory} {len : Nat} (hnoted : Noted s pkt len) :
    ArpFollows s (outcome (arpProcess pkt len) s).2 := by
  intro r hr
  have hsame : SameConnection s (outcome (arpProcess pkt len) s).2 := arpProcess_same
  have hpacket : arpStep (.packet pkt len) r = some (none, { r with
      net := (outcome (arpProcess pkt len) r.net).2
      packets := r.packets ++ [(pkt, len)]
      lastReply := if TakesReply r.net pkt len then some (Ip.load pkt 28) else r.lastReply }) :=
    rfl
  refine ⟨_, ⟨.single hpacket, le_refl _, List.prefix_refl _⟩,
    ⟨arpProcess_congr hr.arp pkt len, ?_⟩⟩
  intro p hp
  have hbefore : Noted s p.1 p.2 := by
    rcases List.mem_append.mp hp with hold | hnew
    · exact hr.noted p hold
    · rw [List.mem_singleton.mp hnew]
      exact hnoted
  unfold Noted
  rw [hsame.rx]
  exact hbefore

theorem ArpFollows.closedSteps : ClosedSteps ArpFollows := by
  constructor
  intro s s' hstep
  cases hstep with
  | other h =>
      refine arpFollows_of_same ⟨h.arpCache.symm, h.arpWaiting.symm, h.arpReplyMac.symm⟩ ?_
      exact h.rx ▸ List.prefix_refl _
  | ring h =>
      refine arpFollows_of_same ⟨rfl, rfl, rfl⟩ ?_
      cases h with
      | receive frame =>
          unfold RxRing.receive
          dsimp only
          split <;> exact List.prefix_refl _
      | noteDispatch => exact List.prefix_append _ _
      | advance => exact List.prefix_refl _
  | heard => exact arpFollows_of_same ⟨rfl, rfl, rfl⟩ (List.prefix_refl _)
  | arp hnoted => exact arpFollows_packet hnoted

theorem arpFinish_congr {net s : Net} (h : SameArp net s) (ip : Ip) :
    (outcome (arpFinish ip) net).1 = (outcome (arpFinish ip) s).1 ∧
      SameArp (outcome (arpFinish ip) net).2 (outcome (arpFinish ip) s).2 := by
  unfold arpFinish
  rw [outcome_get_bind, outcome_get_bind, h.waiting]
  split
  next => exact ⟨rfl, h⟩
  next =>
    refine ⟨congrArg (fun mac => some (some mac)) h.reply, ?_, h.waiting, h.reply⟩
    change arpCacheAdd net.arpCache ip _ = arpCacheAdd s.arpCache ip _
    rw [h.cache, h.reply]

/-- A call for the address can be followed by a run, in which it returns what it answers. -/
def ArpAnswers (ip : Ip) (r : ArpRun) (result : Option (Option Mac) × Net) : Prop :=
  ∃ r', r.LeadsTo r' ∧ r'.Tracks result.2 ∧
    ∀ mac, result.1 = some (some mac) → (ip, mac) ∈ r'.returned

/-- After it has polled, a waiting call stops. -/
theorem arpAnswers_finish {x : NetM Unit} {t : Net} {r₀ r : ArpRun} {ip : Ip}
    (hstart : RunsTo arpStep r₀ r) (hwaits : r.waits = ip ::ₘ r₀.waits)
    (hreturned : r.returned = r₀.returned) (hx : Within ArpFollows t x) (hr : r.Tracks t) :
    ArpAnswers ip r₀ (outcome (x >>= fun _ => arpFinish ip) t) := by
  obtain ⟨r₁, hleads, hr₁⟩ := hx r hr
  have hle := hleads.waits
  rw [hwaits] at hle
  have hprefix := hleads.returned
  rw [hreturned] at hprefix
  rcases hpolled : outcome x t with ⟨_ | _, t₁⟩
  · rw [hpolled] at hr₁
    rw [outcome_bind_none hpolled]
    exact ⟨r₁, ⟨hstart.trans hleads.runs, (Multiset.le_cons_self _ _).trans hle, hprefix⟩, hr₁,
      fun _ h => nomatch h⟩
  · rw [hpolled] at hr₁
    rw [outcome_bind_some hpolled]
    have hmem : ip ∈ r₁.waits := Multiset.mem_of_le hle (Multiset.mem_cons_self ip _)
    obtain ⟨found, net, hfinish, -⟩ := arpFinish_effect ip r₁.net
    obtain ⟨hanswer, hsame⟩ := arpFinish_congr hr₁.arp ip
    rw [hfinish] at hanswer hsame
    have hrx : SameConnection t₁ (outcome (arpFinish ip) t₁).2 := arpFinish_same
    have herase := Multiset.erase_le_erase ip hle
    rw [Multiset.erase_cons_head] at herase
    refine ⟨{ r₁ with
      net := net
      waits := r₁.waits.erase ip
      returned := r₁.returned ++ (found.map fun mac => (ip, mac)).toList },
      ⟨(hstart.trans hleads.runs).trans
        (.single (r := found) (show arpStep (.stop ip) r₁ = _ from ?_)),
        herase, hprefix.trans (List.prefix_append _ _)⟩,
      ⟨hsame, fun p hp => ?_⟩, fun mac hmac => ?_⟩
    · simp only [arpStep, if_pos hmem, hfinish, Option.join_some]
    · unfold Noted
      rw [hrx.rx]
      exact hr₁.noted p hp
    · rw [← hanswer] at hmac
      obtain rfl := Option.some.inj hmac
      exact List.mem_append_right _ (List.mem_singleton.mpr rfl)

/-- A call of `arp_resolve` answers from the cache, or it starts to wait and stops, and polls in
between. -/
theorem arpAnswers_resolve (env : Env) {poll : NetM Unit} (rounds : Nat) {s : Net} (ip : Ip)
    (hpoll : ∀ s, Within ArpFollows s poll) {r : ArpRun} (hr : r.Tracks s) :
    ArpAnswers ip r (outcome (arpResolve env poll rounds ip) s) := by
  have hsteps := ArpFollows.closedSteps
  rw [arpResolve, outcome_get_bind]
  split
  next mac hhit =>
    have hask : arpStep (.resolve ip) r =
        some (some mac, { r with returned := r.returned ++ [(ip, mac)] }) := by
      simp only [arpStep, hr.arp.cache, hhit]
    refine ⟨_, ⟨.single hask, le_refl _, List.prefix_append _ _⟩, ⟨hr.arp, hr.noted⟩,
      fun mac' hmac => ?_⟩
    obtain rfl := Option.some.inj (Option.some.inj hmac)
    exact List.mem_append_right _ (List.mem_singleton.mpr rfl)
  next hmiss =>
    -- the call starts to wait
    have hask : arpStep (.resolve ip) r = some (none, { r with
        net := { r.net with arpWaiting := true }
        waits := ip ::ₘ r.waits }) := by
      simp only [arpStep, hr.arp.cache, hmiss]
    rw [outcome_modify_bind, outcome_bind_some outcome_ne2000Send,
      outcome_bind_some outcome_deadlineIn]
    exact arpAnswers_finish (.single hask) rfl rfl
      (within_loop (fun s => waitRound_within hsteps hpoll) rounds _)
      ⟨⟨hr.arp.cache, rfl, hr.arp.reply⟩, hr.noted⟩

theorem ArpFollows.closed : ClosedCalls ArpFollows where
  toClosed := ⟨closedSteps, fun hpoll r hr => by
    obtain ⟨r', hleads, hr', -⟩ := arpAnswers_resolve _ _ _ hpoll hr
    exact ⟨r', hleads, hr'⟩⟩
  call hstep := by
    cases hstep with
    | tcp => exact arpFollows_of_same ⟨rfl, rfl, rfl⟩ (List.prefix_refl _)
    | connect ip port => exact arpFollows_of_same ⟨rfl, rfl, rfl⟩ (List.prefix_refl _)

/-- The run is what the resolution of addresses did during these calls: it ends in the state of
the stack, and it has returned what `arp_resolve` has answered. -/
structure ArpRun.Of (r : ArpRun) (ops : List NetOp) (result : Option (List NetAnswer) × Net) :
    Prop extends r.Tracks result.2 where
  answered : ∀ answers, result.1 = some answers → ∀ ip mac,
    (NetOp.resolve ip, NetAnswer.mac (some mac)) ∈ ops.zip answers → (ip, mac) ∈ r.returned

section

variable (env : Env) (rounds depth : Nat)

/-- One call can be followed by a run, which returns what the call answers. -/
theorem perform_arpRun (op : NetOp) {s : Net} {r : ArpRun} (hr : r.Tracks s) :
    ∃ r', r.LeadsTo r' ∧ r'.Tracks (outcome (perform env rounds depth op) s).2 ∧
      ∀ ip mac, op = .resolve ip →
        (outcome (perform env rounds depth op) s).1 = some (.mac (some mac)) →
        (ip, mac) ∈ r'.returned := by
  by_cases hresolve : ∃ ip, op = .resolve ip
  · obtain ⟨ip, rfl⟩ := hresolve
    have hpoll := netPoll_within ArpFollows.closed.toClosed env rounds depth
    obtain ⟨r', hleads, hr', hanswer⟩ := arpAnswers_resolve env rounds ip hpoll hr
    rw [perform, map_eq_pure_bind]
    rcases hresult : outcome (arpResolve env (netPoll env rounds depth) rounds ip) s with
      ⟨_ | found, t⟩
    · rw [hresult] at hr'
      rw [outcome_bind_none hresult]
      exact ⟨r', hleads, hr', fun _ _ _ h => nomatch h⟩
    · rw [hresult] at hr' hanswer
      rw [outcome_bind_some hresult]
      refine ⟨r', hleads, hr', fun ip' mac hip hmac => ?_⟩
      obtain rfl := NetOp.resolve.inj hip
      obtain rfl := NetAnswer.mac.inj (Option.some.inj hmac)
      exact hanswer mac rfl
  · obtain ⟨r', hleads, hr'⟩ : ∃ r', r.LeadsTo r' ∧
        r'.Tracks (outcome (perform env rounds depth op) s).2 :=
      perform_within ArpFollows.closed op r hr
    exact ⟨r', hleads, hr', fun ip _ hop _ => absurd ⟨ip, hop⟩ hresolve⟩

/-- Wherever a sequence of calls of the stack ends or stops, the resolution of addresses has made
a run of packets and calls of `arp_resolve`. -/
theorem performAll_arpRun (ops : List NetOp) {s : Net} {r : ArpRun} (hr : r.Tracks s) :
    ∃ r', r.LeadsTo r' ∧ r'.Of ops (outcome (performAll env rounds depth ops) s) := by
  induction ops generalizing s r with
  | nil => exact ⟨r, refl r, hr, fun _ _ _ _ h => absurd h List.not_mem_nil⟩
  | cons op ops ih =>
      obtain ⟨r₁, hleads, hr₁, hanswer⟩ := perform_arpRun env rounds depth op hr
      rw [performAll]
      rcases hop : outcome (perform env rounds depth op) s with ⟨_ | answer, s₁⟩
      · rw [hop] at hr₁
        rw [outcome_bind_none hop]
        exact ⟨r₁, hleads, hr₁, fun _ h => nomatch h⟩
      · rw [hop] at hr₁ hanswer
        rw [outcome_bind_some hop]
        obtain ⟨r₂, hleads', hr₂⟩ := ih hr₁
        rcases hops : outcome (performAll env rounds depth ops) s₁ with ⟨_ | answers, s₂⟩
        · rw [hops] at hr₂
          rw [outcome_bind_none hops]
          exact ⟨r₂, trans_of ArpRun.LeadsTo hleads hleads', hr₂.toTracks, fun _ h => nomatch h⟩
        · rw [hops] at hr₂
          rw [outcome_bind_some hops]
          refine ⟨r₂, trans_of ArpRun.LeadsTo hleads hleads', hr₂.toTracks, ?_⟩
          intro _ hanswers ip mac hmem
          obtain rfl := Option.some.inj hanswers
          rcases List.mem_cons.mp hmem with heq | hrest
          · obtain ⟨rfl, rfl⟩ := Prod.mk.inj heq
            exact hleads'.returned.subset (hanswer ip mac rfl rfl)
          · exact hr₂.answered answers rfl ip mac hrest

end

/-! ## The binding -/

/-- A packet that was dispatched claims that its sender has these addresses. -/
def AnnouncedTo (s : Net) (ip : Ip) (mac : Mac) : Prop :=
  ∃ pkt len, Noted s pkt len ∧ 42 ≤ len ∧ Ip.load pkt 28 = ip ∧ Mac.load pkt 22 = mac

/-- What `arp_resolve` has answered to these calls and what the cache holds after them was
announced. -/
structure BindsCalls (ops : List NetOp) (result : Option (List NetAnswer) × Net) : Prop where
  answered : ∀ answers, result.1 = some answers → ∀ ip mac,
    (NetOp.resolve ip, NetAnswer.mac (some mac)) ∈ ops.zip answers → AnnouncedTo result.2 ip mac
  cache : ∀ entry ∈ result.2.arpCache, entry.valid → AnnouncedTo result.2 entry.ip entry.mac

theorem ArpRun.Of.binds {r : ArpRun} {ops : List NetOp} {result : Option (List NetAnswer) × Net}
    (h : r.Of ops result) (hbinds : r.Binds) : BindsCalls ops result := by
  have hto {ip : Ip} {mac : Mac} (hannounced : Announced r.packets ip mac) :
      AnnouncedTo result.2 ip mac := by
    obtain ⟨p, hp, hclaims⟩ := hannounced
    exact ⟨p.1, p.2, h.noted p hp, hclaims⟩
  refine ⟨fun answers hanswers ip mac hmem => ?_, fun entry hentry hvalid => ?_⟩
  · exact hto (hbinds.returned ip mac (h.answered answers hanswers ip mac hmem))
  · rw [← h.arp.cache] at hentry
    exact hto (hbinds.cache entry hentry hvalid)

/-- Along every run of packets and calls from `net_init`, if every call that stops with a reply
is the one that the reply taken last is for, then what calls return and what the cache holds was
announced; whenever calls of the stack have made that run, this is so of their answers. -/
theorem arp_binds {evs : List ArpEvent} (hown : Throughout arpStep OwnReply evs ArpRun.start) :
    ∃ answers r, runAll arpStep evs ArpRun.start = some (answers, r) ∧ r.Binds ∧
      ∀ env rounds depth ops, r.Of ops (outcome (performAll env rounds depth ops) startNet) →
        BindsCalls ops (outcome (performAll env rounds depth ops) startNet) := by
  have hstep (ev : ArpEvent) (evs : List ArpEvent) (r : ArpRun)
      (h : r.Sound ∧ Throughout arpStep OwnReply (ev :: evs) r) :
      ∃ answer r', arpStep ev r = some (answer, r') ∧
        (r'.Sound ∧ Throughout arpStep OwnReply evs r') := by
    obtain ⟨hsound, hnow, hlater⟩ := h
    obtain ⟨answer, r', hstep, hsound'⟩ := hsound.step hnow
    exact ⟨answer, r', hstep, hsound', hlater answer r' hstep⟩
  obtain ⟨answers, r, hrun, hsound, -⟩ := runAll_returns
    (fun evs r => r.Sound ∧ Throughout arpStep OwnReply evs r) hstep evs ArpRun.start
    ⟨ArpRun.sound_start, hown⟩
  exact ⟨answers, r, hrun, hsound.toBinds, fun _ _ _ _ hof => hof.binds hsound.toBinds⟩

/-- A reply of the gateway. -/
def gatewayReply : Memory := arpPacket macAddr 2 gatewayMac gateway macAddr ourIp

/-- A frame with a reply of the gateway, which arrives when the card is polled
first. -/
def gatewayReplyEnv : Env where
  frames n := if n = 0 then [⟨gatewayReply.loadList 0 42, by simp⟩] else []
  ticks n := n
  kmalloc _ := true
  garbage _ := 0

/-- The gateway answers a call for its own address. -/
theorem arp_binds_gateway :
    BindsCalls [.resolve gateway]
      (outcome (performAll gatewayReplyEnv 2 2 [.resolve gateway]) startNet) := by
  obtain ⟨answers, r, hrun, -, hcalls⟩ :=
    @arp_binds [.resolve gateway, .packet gatewayReply 42, .stop gateway]
    ⟨trivial, fun _ r₁ h₁ => ⟨trivial, fun _ r₂ h₂ => ⟨fun _ _ => by
      obtain ⟨-, rfl⟩ := Prod.mk.inj (Option.some.inj h₁)
      obtain ⟨-, rfl⟩ := Prod.mk.inj (Option.some.inj h₂)
      decide, fun _ _ _ => trivial⟩⟩⟩
  refine hcalls _ _ _ _ ?_
  obtain ⟨-, rfl⟩ := Prod.mk.inj (Option.some.inj hrun)
  refine ⟨⟨⟨?_, ?_, ?_⟩, ?_⟩, ?_⟩
  · decide
  · decide
  · decide
  · intro p hp
    obtain rfl := List.mem_singleton.mp hp
    exact ⟨0, by decide⟩
  · intro answers hanswers ip mac hmem
    obtain rfl : [.mac (some gatewayMac)] = answers := Option.some.inj hanswers
    obtain ⟨⟨rfl⟩, ⟨rfl⟩⟩ := Prod.mk.inj (List.mem_singleton.mp hmem)
    exact List.mem_singleton.mpr rfl

/-- Another host on the subnet. -/
def otherHost : Ip := ⟨10, 0, 2, 3⟩

/-- A call for another host takes the reply of the gateway for its own. -/
theorem reply_of_gateway_misbound :
    (outcome (arpResolve gatewayReplyEnv (netPoll gatewayReplyEnv 2 1) 2 otherHost) startNet).1 =
      some (some gatewayMac) ∧
    ∃ answers r, runAll arpStep [.resolve otherHost, .packet gatewayReply 42, .stop otherHost]
        ArpRun.start = some (answers, r) ∧
      (otherHost, gatewayMac) ∈ r.returned ∧ ¬Announced r.packets otherHost gatewayMac := by
  refine ⟨by decide, _, _, rfl, by decide, ?_⟩
  rintro ⟨p, hp, -, hip, -⟩
  obtain rfl : p = (gatewayReply, 42) := List.mem_singleton.mp hp
  revert hip
  decide

end Dosfs
