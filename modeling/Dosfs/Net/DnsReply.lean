import Dosfs.Foundation.Reading
import Dosfs.Net.UdpDelivery

/-!
# Where the parser of DNS replies reads

`dns_resolve` walks over the names of a reply by the lengths in it and never
compares a position with the length of the reply. It stays inside exactly when
the names that it walks over and the part of the record that it looks at lie
within the reply.
-/

namespace Dosfs

open Foundation Reading

/-! ## The parser with its readings -/

def dnsSkipNameReading (msg : Memory) : Nat → Nat → Reading Nat
  | 0, _ => .stuck
  | rounds + 1, p => do
      let len ← .byte msg p
      if len = 0 then return p + 1
      else if len &&& 0xC0 ≠ 0 then return p + 2
      else dnsSkipNameReading msg rounds (p + (len.toNat + 1))

/-- Read the record behind its name. -/
def dnsRecordReading (reply : Memory) (p : Nat) : Reading (Except Int Ip) := do
  let high ← .byte reply p
  let low ← .byte reply (p + 1)
  if high.toNat * 256 + low.toNat = 1 then
    let high ← .byte reply (p + 8)
    let low ← .byte reply (p + 9)
    if high.toNat * 256 + low.toNat = 4 then
      let a ← .byte reply (p + 10)
      let b ← .byte reply (p + 10 + 1)
      let c ← .byte reply (p + 10 + 2)
      let d ← .byte reply (p + 10 + 3)
      return .ok ⟨a, b, c, d⟩
    else
      return .error (-4)
  else
    return .error (-4)

/-- Read the names and the record. -/
def dnsBodyReading (reply : Memory) (rounds : Nat) : Reading (Except Int Ip) := do
  let p ← dnsSkipNameReading reply rounds 12
  let p ← dnsSkipNameReading reply rounds (p + 4)
  dnsRecordReading reply p

/-- `dnsAnswer` with its readings. The response code is not looked at in a query. -/
def dnsAnswerReading (reply : Memory) (rounds : Nat) : Reading (Except Int Ip) := do
  let flags ← .byte reply 2
  if flags &&& 0x80 ≠ 0 then
    let code ← .byte reply 3
    if code &&& 0x0F = 0 then
      let high ← .byte reply 6
      let low ← .byte reply 7
      if 0 < high.toNat * 256 + low.toNat then
        dnsBodyReading reply rounds
      else
        return .error (-3)
    else
      return .error (-2)
  else
    return .error (-2)

variable {msg reply : Memory} {n p rounds : Nat}

theorem dnsSkipNameReading_result :
    (dnsSkipNameReading msg rounds p).result = dnsSkipName msg rounds p := by
  induction rounds generalizing p with
  | zero => rfl
  | succ rounds ih =>
      rw [dnsSkipNameReading, dnsSkipName, result_byte_bind]
      simp only [result_ite, result_pure, ih]

/-- The readings do not change what the parser returns. -/
theorem dnsAnswerReading_result :
    (dnsAnswerReading reply rounds).result = dnsAnswer reply rounds := by
  have hrecord (p : Nat) : (dnsRecordReading reply p).result =
      if (reply p).toNat * 256 + (reply (p + 1)).toNat = 1 ∧
          (reply (p + 8)).toNat * 256 + (reply (p + 9)).toNat = 4 then
        some (.ok (Ip.load reply (p + 10)))
      else some (.error (-4)) := by
    unfold dnsRecordReading
    simp only [result_byte_bind, result_ite, result_pure, ite_and]
    rfl
  have hbody : (dnsBodyReading reply rounds).result =
      (dnsSkipName reply rounds 12).bind fun p =>
        (dnsSkipName reply rounds (p + 4)).bind fun p => (dnsRecordReading reply p).result := by
    unfold dnsBodyReading
    simp only [result_bind, dnsSkipNameReading_result]
  unfold dnsAnswerReading dnsAnswer
  simp only [result_byte_bind, result_ite, result_pure, hbody, hrecord, ite_and]
  rfl

/-! ## Names -/

/-- The name at `p` ends before `e`, and all that tells where it ends is among the
first `n` bytes. The second byte of a pointer does not tell. -/
inductive NameWithin (msg : Memory) (n : Nat) : Nat → Nat → Prop
  | root {p : Nat} (hp : p < n) (hzero : msg p = 0) : NameWithin msg n p (p + 1)
  | pointer {p : Nat} (hp : p < n) (hmark : msg p &&& 0xC0 ≠ 0) : NameWithin msg n p (p + 2)
  | label {p e : Nat} (hp : p < n) (hne : msg p ≠ 0) (hmark : msg p &&& 0xC0 = 0)
      (hrest : NameWithin msg n (p + ((msg p).toNat + 1)) e) : NameWithin msg n p e

variable {e e' : Nat}

/-- The walk never leaves the name. -/
theorem NameWithin.inside (h : NameWithin msg n p e) (rounds : Nat) :
    Inside n (dnsSkipNameReading msg rounds p) := by
  induction h generalizing rounds with
  | root hp hzero =>
      cases rounds with
      | zero => exact inside_stuck
      | succ rounds =>
          rw [dnsSkipNameReading, inside_byte_bind, if_pos hzero]
          exact ⟨hp, inside_pure _⟩
  | pointer hp hmark =>
      cases rounds with
      | zero => exact inside_stuck
      | succ rounds =>
          rw [dnsSkipNameReading, inside_byte_bind, if_neg (by rintro h; simp [h] at hmark),
            if_pos hmark]
          exact ⟨hp, inside_pure _⟩
  | label hp hne hmark _ ih =>
      cases rounds with
      | zero => exact inside_stuck
      | succ rounds =>
          rw [dnsSkipNameReading, inside_byte_bind, if_neg hne, if_neg (not_not.2 hmark)]
          exact ⟨hp, ih rounds⟩

/-- The walk ends where the name does, if it ends at all. -/
theorem NameWithin.end_eq (h : NameWithin msg n p e) (hskip : dnsSkipName msg rounds p = some e') :
    e' = e := by
  induction h generalizing rounds with
  | root hp hzero =>
      cases rounds with
      | zero => cases hskip
      | succ rounds =>
          rw [dnsSkipName, if_pos hzero] at hskip
          exact (Option.some.inj hskip).symm
  | pointer hp hmark =>
      cases rounds with
      | zero => cases hskip
      | succ rounds =>
          rw [dnsSkipName, if_neg (by rintro h; simp [h] at hmark), if_pos hmark] at hskip
          exact (Option.some.inj hskip).symm
  | label hp hne hmark _ ih =>
      cases rounds with
      | zero => cases hskip
      | succ rounds =>
          rw [dnsSkipName, if_neg hne, if_neg (not_not.2 hmark)] at hskip
          exact ih hskip

/-- The walk ends when it may take a round for every byte. -/
theorem NameWithin.skip (h : NameWithin msg n p e) (hrounds : n - p < rounds) :
    dnsSkipName msg rounds p = some e := by
  induction h generalizing rounds with
  | root hp hzero =>
      cases rounds with
      | zero => omega
      | succ rounds => rw [dnsSkipName, if_pos hzero]
  | pointer hp hmark =>
      cases rounds with
      | zero => omega
      | succ rounds =>
          rw [dnsSkipName, if_neg (by rintro h; simp [h] at hmark), if_pos hmark]
  | label hp hne hmark _ ih =>
      cases rounds with
      | zero => omega
      | succ rounds =>
          rw [dnsSkipName, if_neg hne, if_neg (not_not.2 hmark)]
          exact ih (by omega)

/-- A walk that stays inside walks over a name. -/
theorem nameWithin_of_inside (h : Inside n (dnsSkipNameReading msg rounds p))
    (hrounds : n - p < rounds) : ∃ e, NameWithin msg n p e := by
  induction rounds generalizing p with
  | zero => cases hrounds
  | succ rounds ih =>
      rw [dnsSkipNameReading, inside_byte_bind] at h
      obtain ⟨hp, hrest⟩ := h
      split at hrest
      next hzero => exact ⟨_, .root hp hzero⟩
      next hne =>
        split at hrest
        next hmark => exact ⟨_, .pointer hp hmark⟩
        next hmark =>
          obtain ⟨e, he⟩ := ih hrest (by omega)
          exact ⟨e, .label hp hne (not_not.1 hmark) he⟩

/-! ## Staying inside -/

/-- Two bytes of a message, the more significant one first. -/
def dnsWord (msg : Memory) (p : Nat) : Nat := (msg p).toNat * 256 + (msg (p + 1)).toNat

/-- The header of the reply is enough for an error: it is no answer, has an error
code, or announces no record. -/
def DnsRefused (reply : Memory) : Prop :=
  ¬(reply 2 &&& 0x80 ≠ 0 ∧ reply 3 &&& 0x0F = 0 ∧ 0 < dnsWord reply 6)

instance (reply : Memory) : Decidable (DnsRefused reply) := inferInstanceAs (Decidable (¬_))

/-- What is looked at of the record behind the name lies within the reply: its
type, the length of its data if it is an address, and the data if they are four
bytes. -/
def RecordWithin (reply : Memory) (n p : Nat) : Prop :=
  p + 2 ≤ n ∧ (dnsWord reply p = 1 → p + 10 ≤ n ∧ (dnsWord reply (p + 8) = 4 → p + 14 ≤ n))

/-- The question or the first record goes on behind the end of the reply. -/
def DnsTruncated (reply : Memory) (n : Nat) : Prop :=
  ¬∃ q p, NameWithin reply n 12 q ∧ NameWithin reply n (q + 4) p ∧
    p + 10 + dnsWord reply (p + 8) ≤ n

/-- The parser examines the `n` bytes of the reply only, and reports an error when
the reply is truncated. -/
structure ParsesInside (reply : Memory) (n : Nat) : Prop where
  reads : ∀ rounds, Inside n (dnsAnswerReading reply rounds)
  truncated : DnsTruncated reply n →
    ∀ rounds, n ≤ rounds → ∃ code, dnsAnswer reply rounds = some (.error code)

theorem dnsRecordReading_inside :
    Inside n (dnsRecordReading reply p) ↔ RecordWithin reply n p := by
  unfold dnsRecordReading RecordWithin dnsWord
  rw [inside_byte_bind, inside_byte_bind]
  split
  next htype =>
    rw [inside_byte_bind, inside_byte_bind]
    split
    next hlen =>
      simp only [inside_byte_bind, inside_pure, and_true, htype, hlen, true_imp_iff]
      omega
    next hlen =>
      simp only [inside_pure, and_true, htype, hlen, true_imp_iff, false_imp_iff]
      omega
  next htype =>
    simp only [inside_pure, and_true, htype, false_imp_iff]
    omega

/-- The names, and what is looked at of the first record, lie within the reply. -/
def AnswerWithin (reply : Memory) (n : Nat) : Prop :=
  ∃ q p, NameWithin reply n 12 q ∧ NameWithin reply n (q + 4) p ∧ RecordWithin reply n p

theorem AnswerWithin.inside (h : AnswerWithin reply n) (rounds : Nat) :
    Inside n (dnsBodyReading reply rounds) := by
  obtain ⟨q, p, hq, hp, hrecord⟩ := h
  refine inside_bind.2 ⟨hq.inside rounds, fun q' hq' => ?_⟩
  obtain rfl := hq.end_eq (dnsSkipNameReading_result ▸ hq')
  refine inside_bind.2 ⟨hp.inside rounds, fun p' hp' => ?_⟩
  obtain rfl := hp.end_eq (dnsSkipNameReading_result ▸ hp')
  exact dnsRecordReading_inside.2 hrecord

theorem answerWithin_of_inside (h : Inside n (dnsBodyReading reply n)) (hn : 12 < n) :
    AnswerWithin reply n := by
  obtain ⟨hquestion, hrest⟩ := inside_bind.1 h
  obtain ⟨q, hq⟩ := nameWithin_of_inside hquestion (by omega)
  have hq' := hrest q (by rw [dnsSkipNameReading_result, hq.skip (by omega)])
  obtain ⟨hname, hrecord⟩ := inside_bind.1 hq'
  obtain ⟨p, hp⟩ := nameWithin_of_inside hname (by omega)
  have hp' := hrecord p (by rw [dnsSkipNameReading_result, hp.skip (by omega)])
  exact ⟨q, p, hq, hp, dnsRecordReading_inside.1 hp'⟩

/-- The parser comes to the record behind the names. -/
theorem dnsBodyReading_result {q : Nat} (hq : NameWithin reply n 12 q)
    (hp : NameWithin reply n (q + 4) p) (hn : 12 < n) (hrounds : n ≤ rounds) :
    (dnsBodyReading reply rounds).result = (dnsRecordReading reply p).result := by
  rw [dnsBodyReading, result_bind, dnsSkipNameReading_result, hq.skip (by omega),
    Option.bind_some, result_bind, dnsSkipNameReading_result, hp.skip (by omega),
    Option.bind_some]

/-- A reply that its header refuses is not looked at further. -/
theorem dnsAnswerReading_refused (h : DnsRefused reply) (hn : 12 < n) :
    Inside n (dnsAnswerReading reply rounds) ∧
      ∃ code, dnsAnswer reply rounds = some (.error code) := by
  rw [← dnsAnswerReading_result]
  unfold DnsRefused dnsWord at h
  unfold dnsAnswerReading
  simp only [inside_byte_bind, result_byte_bind]
  split
  next hflags =>
    simp only [inside_byte_bind, result_byte_bind]
    split
    next hcode =>
      simp only [inside_byte_bind, result_byte_bind]
      rw [if_neg fun hcount => h ⟨hflags, hcode, hcount⟩]
      exact ⟨⟨by omega, by omega, by omega, by omega, inside_pure _⟩, -3, rfl⟩
    next => exact ⟨⟨by omega, by omega, inside_pure _⟩, -2, rfl⟩
  next => exact ⟨⟨by omega, inside_pure _⟩, -2, rfl⟩

/-- Of any other reply the names and the record are read. -/
theorem dnsAnswerReading_body (h : ¬DnsRefused reply) (hn : 12 < n) :
    (Inside n (dnsAnswerReading reply rounds) ↔ Inside n (dnsBodyReading reply rounds)) ∧
      dnsAnswer reply rounds = (dnsBodyReading reply rounds).result := by
  rw [← dnsAnswerReading_result]
  unfold DnsRefused dnsWord at h
  obtain ⟨hflags, hcode, hcount⟩ := not_not.1 h
  unfold dnsAnswerReading
  constructor
  · rw [inside_byte_bind, if_pos hflags, inside_byte_bind, if_pos hcode, inside_byte_bind,
      inside_byte_bind, if_pos hcount]
    exact ⟨fun h => h.2.2.2.2, fun h => ⟨by omega, by omega, by omega, by omega, h⟩⟩
  · rw [result_byte_bind, if_pos hflags, result_byte_bind, if_pos hcode, result_byte_bind,
      result_byte_bind, if_pos hcount]

/-- A record that is looked at within the reply is an address only if it is whole. -/
theorem dnsRecordReading_truncated (hrecord : RecordWithin reply n p)
    (htruncated : ¬p + 10 + dnsWord reply (p + 8) ≤ n) :
    (dnsRecordReading reply p).result = some (.error (-4)) := by
  unfold dnsRecordReading
  simp only [result_byte_bind, result_ite, result_pure]
  split
  next htype =>
    rw [if_neg]
    intro hfour
    have hlen : dnsWord reply (p + 8) = 4 := hfour
    obtain ⟨-, hdata⟩ := hrecord.2 htype
    have hend := hdata hlen
    omega
  next => rfl

/-- The parser examines the bytes of the reply only, and reports an error when it is
truncated, if and only if the header is enough for an error, or the names and what is
looked at of the record lie within the reply. -/
theorem dns_parses_inside_iff {reply : Memory} {n : Nat} (hn : 12 < n) :
    ParsesInside reply n ↔ DnsRefused reply ∨ AnswerWithin reply n := by
  by_cases hrefused : DnsRefused reply
  · refine iff_of_true ⟨fun rounds => (dnsAnswerReading_refused hrefused hn).1, ?_⟩ (.inl hrefused)
    exact fun _ _ _ => (dnsAnswerReading_refused hrefused hn).2
  rw [or_iff_right hrefused]
  constructor
  · exact fun h => answerWithin_of_inside ((dnsAnswerReading_body hrefused hn).1.1 (h.reads n)) hn
  · intro h
    refine ⟨fun rounds => (dnsAnswerReading_body hrefused hn).1.2 (h.inside rounds), ?_⟩
    intro htruncated rounds hrounds
    obtain ⟨q, p, hq, hp, hrecord⟩ := h
    have hshort : ¬p + 10 + dnsWord reply (p + 8) ≤ n :=
      fun hwhole => htruncated ⟨q, p, hq, hp, hwhole⟩
    refine ⟨-4, ?_⟩
    rw [(dnsAnswerReading_body hrefused hn).2, dnsBodyReading_result hq hp hn hrounds,
      dnsRecordReading_truncated hrecord hshort]

/-- A reply whose question has the name of the root, with one record of the same name
for an address. -/
def rootReply : Memory := frameMemory ([0x12, 0x34, 0x81, 0x80, 0, 1, 0, 1, 0, 0, 0, 0] ++
  [0, 0, 1, 0, 1] ++ [0, 0, 1, 0, 1, 0, 0, 0, 60, 0, 4, 10, 0, 2, 2])

/-- The whole reply has 32 bytes. -/
theorem dns_parses_inside_iff_root :
    ParsesInside rootReply 32 ↔ DnsRefused rootReply ∨ AnswerWithin rootReply 32 :=
  dns_parses_inside_iff (by decide)

/-- A reply of 13 bytes that ends with the length of a label. -/
def strayReply : Memory :=
  frameMemory [0x12, 0x34, 0x81, 0x80, 0, 1, 0, 1, 0, 0, 0, 0, 0x3F]

/-- The walk goes on 63 bytes behind its end. -/
theorem stray_label_read_outside :
    76 ∈ (dnsAnswerReading strayReply 2).reads ∧ ¬ParsesInside strayReply 13 :=
  ⟨by decide, fun h => absurd (h.reads 2 76 (by decide)) (by decide)⟩

end Dosfs
