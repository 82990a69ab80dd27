import Dosfs.Net.DnsName

/-!
# What `dns_resolve` makes of a reply

A reply has any number of records, and aliases often come before the address.
`dns_resolve` looks at the first record only, so it finds the address exactly when
that record has it.
-/

namespace Dosfs

open Foundation Fuelled

/-! ## Replies -/

/-- A number of two bytes, the more significant one first. -/
def wordBytes (n : Nat) : List UInt8 := [UInt8.ofNat (n / 256), UInt8.ofNat n]

/-- A resource record. -/
structure DnsRecord where
  name : List UInt8
  type : Nat
  /-- The class and the time to live. -/
  classTtl : List UInt8
  data : List UInt8
  isName : WireName name
  type_lt : type < 2 ^ 16
  classTtl_length : classTtl.length = 6
  data_lt : data.length < 2 ^ 16

namespace DnsRecord

def bytes (r : DnsRecord) : List UInt8 :=
  r.name ++ (wordBytes r.type ++ (r.classTtl ++ (wordBytes r.data.length ++ r.data)))

/-- An A record with an address of four bytes. -/
def IsAddress (r : DnsRecord) : Prop := r.type = 1 ∧ r.data.length = 4

instance (r : DnsRecord) : Decidable r.IsAddress := inferInstanceAs (Decidable (_ ∧ _))

/-- The address in the data. -/
def address (r : DnsRecord) : Ip := Ip.load (frameMemory r.data) 0

end DnsRecord

/-- A reply to a query of `dns_resolve`, with one question and without an error. -/
structure DnsReply where
  flags : UInt8
  code : UInt8
  question : List UInt8
  /-- The type and the class of the question. -/
  questionEnd : List UInt8
  answers : List DnsRecord
  /-- The numbers of records in the other sections. -/
  counts : List UInt8
  /-- The other sections. -/
  others : List UInt8
  isReply : flags &&& 0x80 ≠ 0
  noError : code &&& 0x0F = 0
  isName : WireName question
  questionEnd_length : questionEnd.length = 4
  answers_lt : answers.length < 2 ^ 16
  counts_length : counts.length = 4

namespace DnsReply

def header (reply : DnsReply) : List UInt8 :=
  [0x12, 0x34, reply.flags, reply.code, 0, 1] ++ (wordBytes reply.answers.length ++ reply.counts)

def bytes (reply : DnsReply) : List UInt8 :=
  reply.header ++ (reply.question ++ (reply.questionEnd ++
    (reply.answers.flatMap DnsRecord.bytes ++ reply.others)))

theorem header_length (reply : DnsReply) : reply.header.length = 12 := by
  simp [header, wordBytes, reply.counts_length]

end DnsReply

/-! ## Parsing a reply -/

variable {mem : Memory} {p n rounds : Nat}

theorem wordBytes_length (n : Nat) : (wordBytes n).length = 2 := rfl

theorem dnsWord_wordBytes (hmem : mem.Holds p (wordBytes n)) (hn : n < 2 ^ 16) :
    dnsWord mem p = n := by
  obtain ⟨hhigh, hrest⟩ := Memory.holds_cons.1 hmem
  obtain ⟨hlow, -⟩ := Memory.holds_cons.1 hrest
  rw [dnsWord, hhigh, hlow, UInt8.toNat_ofNat', UInt8.toNat_ofNat']
  omega

/-- What is read of a record. -/
theorem dnsRecordReading_record {r : DnsRecord}
    (hmem : mem.Holds p (wordBytes r.type ++ (r.classTtl ++ (wordBytes r.data.length ++ r.data)))) :
    (dnsRecordReading mem p).result =
      some (if r.IsAddress then .ok r.address else .error (-4)) := by
  simp only [Memory.holds_append, wordBytes_length, r.classTtl_length] at hmem
  obtain ⟨htype, -, hlen, hdata⟩ := hmem
  have htype' := dnsWord_wordBytes htype r.type_lt
  have hlen' := dnsWord_wordBytes hlen r.data_lt
  unfold dnsWord at htype' hlen'
  unfold dnsRecordReading
  simp only [Reading.result_byte_bind, Reading.result_ite, Reading.result_pure, htype']
  rw [show p + 9 = p + 2 + 6 + 1 from rfl, show p + 8 = p + 2 + 6 from rfl, hlen']
  by_cases haddress : r.IsAddress
  · rw [if_pos haddress.1, if_pos haddress.2, if_pos haddress]
    have hbyte (k : Nat) (hk : k < 4) : mem (p + 2 + 6 + 2 + k) = frameMemory r.data (0 + k) := by
      rw [hdata.getD (haddress.2 ▸ hk), Nat.zero_add]
      rfl
    refine congrArg (fun ip => some (Except.ok ip)) ?_
    exact Ip.mk.injEq .. ▸ ⟨hbyte 0 (by omega), hbyte 1 (by omega), hbyte 2 (by omega),
      hbyte 3 (by omega)⟩
  · rw [if_neg haddress]
    by_cases htype : r.type = 1
    · rw [if_pos htype, if_neg fun hfour => haddress ⟨htype, hfour⟩]
    · rw [if_neg htype]

/-- The header announces the records and no error. -/
theorem not_dnsRefused {reply : DnsReply} (hmem : mem.Holds 0 reply.header)
    (hanswers : reply.answers ≠ []) : ¬DnsRefused mem := by
  have hcount := hmem
  unfold DnsReply.header at hcount
  obtain ⟨-, hcount⟩ := Memory.holds_append.1 hcount
  obtain ⟨hcount, -⟩ := Memory.holds_append.1 hcount
  have hflags : mem 2 = reply.flags := (Nat.zero_add 2 ▸ hmem.getD (by simp [DnsReply.header]) :)
  have hcode : mem 3 = reply.code := (Nat.zero_add 3 ▸ hmem.getD (by simp [DnsReply.header]) :)
  have hword : dnsWord mem 6 = reply.answers.length :=
    dnsWord_wordBytes hcount reply.answers_lt
  refine not_not.2 ⟨?_, ?_, ?_⟩
  · rw [hflags]
    exact reply.isReply
  · rw [hcode]
    exact reply.noError
  · rw [hword]
    exact List.length_pos_iff.2 hanswers

/-- The answer to a reply with a record is what its first record says. -/
theorem dnsAnswer_reply {reply : DnsReply} {r : DnsRecord} {rs : List DnsRecord}
    (hanswers : reply.answers = r :: rs) (hmem : mem.Holds 0 reply.bytes)
    (hrounds : reply.bytes.length ≤ rounds) :
    dnsAnswer mem rounds = some (if r.IsAddress then .ok r.address else .error (-4)) := by
  have hlength : reply.bytes.length =
      12 + (reply.question.length + (4 + ((reply.answers.flatMap DnsRecord.bytes).length +
        reply.others.length))) := by
    simp only [DnsReply.bytes, List.length_append, reply.header_length, reply.questionEnd_length]
  have hrecords : (reply.answers.flatMap DnsRecord.bytes).length =
      r.name.length + (2 + (6 + (2 + r.data.length))) +
        (rs.flatMap DnsRecord.bytes).length := by
    simp only [hanswers, List.flatMap_cons, DnsRecord.bytes, List.length_append,
      wordBytes_length, r.classTtl_length]
  unfold DnsReply.bytes at hmem
  rw [hanswers, List.flatMap_cons, DnsRecord.bytes] at hmem
  obtain ⟨hheader, hmem⟩ := Memory.holds_append.1 hmem
  obtain ⟨hquestion, hmem⟩ := Memory.holds_append.1 hmem
  obtain ⟨-, hmem⟩ := Memory.holds_append.1 hmem
  obtain ⟨hmem, -⟩ := Memory.holds_append.1 hmem
  obtain ⟨hmem, -⟩ := Memory.holds_append.1 hmem
  obtain ⟨hname, hrecord⟩ := Memory.holds_append.1 hmem
  rw [reply.header_length, Nat.zero_add] at hquestion
  rw [reply.header_length, reply.questionEnd_length, Nat.zero_add] at hname hrecord
  have hq := reply.isName.within (n := reply.bytes.length) hquestion (by omega)
  have hp := r.isName.within (n := reply.bytes.length) hname (by omega)
  rw [(dnsAnswerReading_body (not_dnsRefused hheader (by simp [hanswers]))
    (by omega : 12 < reply.bytes.length)).2, dnsBodyReading_result hq hp (by omega) hrounds,
    dnsRecordReading_record hrecord]

/-! ## Awaiting a reply -/

section

variable (env : Env) (poll : NetM Unit) (rounds srcPort deadline : Nat)

/-- A datagram that `dns_resolve` takes for its reply. -/
def AnswersQuery (bytes : List UInt8) : Prop :=
  12 < bytes.length ∧ bytes.getD 0 0 = 0x12 ∧ bytes.getD 1 0 = 0x34

/-- The loop of `dns_resolve` comes to a round in which `udp_recv` returns the bytes,
and nothing that came before was taken for the reply. -/
inductive DnsHears (bytes : List UInt8) : Nat → Net → Net → Prop
  | now {fuel : Nat} {s s' : Net} (htime : env.ticks s.readings % 2 ^ 32 < deadline)
      (hrecv : outcome (udpRecv env poll rounds srcPort 512)
        { s with readings := s.readings + 1 } = (some (some bytes), s')) :
      DnsHears bytes (fuel + 1) s s'
  | nothing {fuel : Nat} {s t s' : Net} (htime : env.ticks s.readings % 2 ^ 32 < deadline)
      (hrecv : outcome (udpRecv env poll rounds srcPort 512)
        { s with readings := s.readings + 1 } = (some none, t))
      (hrest : DnsHears bytes fuel t s') : DnsHears bytes (fuel + 1) s s'
  | other {fuel : Nat} {s t s' : Net} {other : List UInt8}
      (htime : env.ticks s.readings % 2 ^ 32 < deadline)
      (hrecv : outcome (udpRecv env poll rounds srcPort 512)
        { s with readings := s.readings + 1 } = (some (some other), t))
      (hother : ¬AnswersQuery other) (hrest : DnsHears bytes fuel t s') :
      DnsHears bytes (fuel + 1) s s'

/-- The query of `dns_resolve` goes out, and the bytes come back. -/
def DnsReceives (hostname : CString) (bytes : List UInt8) (s s' : Net) : Prop :=
  ∃ enc t, dnsEncName hostname.bytes = some enc ∧
    outcome (udpSend env poll rounds ⟨10, 0, 2, 3⟩ 53 s.tcpEphPort
      (fun k => (dnsQuery enc).getD k 0) ((dnsQuery enc).length % 2 ^ 16))
      { s with tcpEphPort := (s.tcpEphPort + 1) % 2 ^ 16 } = (some 0, t) ∧
    DnsHears env poll rounds s.tcpEphPort ((env.ticks t.readings % 2 ^ 32 + 100) % 2 ^ 32) bytes
      rounds { t with readings := t.readings + 1 } s'

end

/-- Whenever the reply comes back, `dns_resolve` returns the address in one of its
records. -/
def FindsAddress (reply : DnsReply) : Prop :=
  ∀ (env : Env) (poll : NetM Unit) (rounds : Nat) (hostname : CString) (s s' : Net),
    512 ≤ rounds → DnsReceives env poll rounds hostname reply.bytes s s' →
      ∃ r ∈ reply.answers, r.IsAddress ∧
        outcome (dnsResolve env poll rounds hostname) s = (some (.ok r.address), s')

section

variable {env : Env} {poll : NetM Unit} {srcPort deadline : Nat} {bytes : List UInt8}

/-- The bytes in the buffer are those of the datagram that was put there. -/
theorem answersQuery_storeList {stale : Memory} :
    12 < bytes.length ∧ stale.storeList 0 bytes 0 = 0x12 ∧ stale.storeList 0 bytes 1 = 0x34 ↔
      AnswersQuery bytes := by
  refine and_congr_right fun hlength => ?_
  have hholds : (stale.storeList 0 bytes).Holds 0 bytes := Memory.holds_storeList
  have hbyte (k : Nat) (hk : k < 13) : stale.storeList 0 bytes k = bytes.getD k 0 := by
    rw [← hholds.getD (by omega), Nat.zero_add]
  rw [hbyte 0 (by omega), hbyte 1 (by omega)]

/-- The loop ends with what the reply says. -/
theorem dnsAwait_of_hears {fuel : Nat} {s s' : Net} {answer : Except Int Ip}
    (h : DnsHears env poll rounds srcPort deadline bytes fuel s s') (hquery : AnswersQuery bytes)
    (hanswer : ∀ mem : Memory, mem.Holds 0 bytes → dnsAnswer mem rounds = some answer)
    (stale : Memory) :
    outcome (dnsAwait env poll rounds srcPort deadline fuel stale) s = (some answer, s') := by
  induction h generalizing stale with
  | now htime hrecv =>
      rw [dnsAwait, outcome_bind_some outcome_timerGetTicks, if_pos htime,
        outcome_bind_some hrecv]
      dsimp only
      rw [if_pos (answersQuery_storeList.2 hquery), hanswer _ Memory.holds_storeList]
      rfl
  | nothing htime hrecv _ ih =>
      rw [dnsAwait, outcome_bind_some outcome_timerGetTicks, if_pos htime,
        outcome_bind_some hrecv]
      exact ih stale
  | other htime hrecv hother _ ih =>
      rw [dnsAwait, outcome_bind_some outcome_timerGetTicks, if_pos htime,
        outcome_bind_some hrecv]
      dsimp only
      rw [if_neg fun hsame => hother (answersQuery_storeList.1 hsame)]
      exact ih _

theorem dnsResolve_of_receives {hostname : CString} {s s' : Net} {answer : Except Int Ip}
    (h : DnsReceives env poll rounds hostname bytes s s') (hquery : AnswersQuery bytes)
    (hanswer : ∀ mem : Memory, mem.Holds 0 bytes → dnsAnswer mem rounds = some answer) :
    outcome (dnsResolve env poll rounds hostname) s = (some answer, s') := by
  obtain ⟨enc, t, henc, hsend, hhears⟩ := h
  rw [dnsResolve, outcome_get_bind, outcome_modify_bind, henc]
  dsimp only
  rw [outcome_bind_some hsend, if_neg (not_not.2 rfl), outcome_bind_some outcome_deadlineIn]
  exact dnsAwait_of_hears hhears hquery hanswer _

end

theorem DnsReply.answersQuery (reply : DnsReply) : AnswersQuery reply.bytes := by
  refine ⟨?_, rfl, rfl⟩
  simp only [DnsReply.bytes, List.length_append, reply.header_length, reply.questionEnd_length]
  omega

/-! ## A reply that comes at once -/

/-- The timer stands still. -/
def stillEnv : Env := { Env.quiet with ticks := fun _ => 0 }

/-- A datagram with these bytes has been delivered. -/
def delivered (bytes : List UInt8) (s : Net) : Net :=
  { s with
    udpBuf := frameMemory bytes
    udpLen := bytes.length
    udpGot := true }

/-- The hardware address of the server is known. -/
def serverNet : Net := { startNet with arpCache := [⟨⟨10, 0, 2, 3⟩, gatewayMac, true⟩] }

theorem udpRecvRound_delivered {bytes : List UInt8} (hlen : bytes.length ≤ 512) (s : Net) :
    outcome (udpRecvRound stillEnv (modify (delivered bytes)) 512 50) s =
      (some (some (some bytes)),
        { delivered bytes { s with readings := s.readings + 1 } with udpGot := false }) := by
  have hbytes : (frameMemory bytes).loadList 0 (min bytes.length 512) = bytes := by
    rw [Nat.min_eq_left hlen, loadList_frameMemory]
  have htime : stillEnv.ticks s.readings % 2 ^ 32 < 50 := show 0 % 2 ^ 32 < 50 by decide
  rw [udpRecvRound, outcome_bind_some outcome_timerGetTicks, if_pos htime, outcome_modify_bind,
    outcome_get_bind, if_pos (show (delivered bytes _).udpGot = true from rfl), outcome_modify_bind,
    outcome_pure]
  exact congrArg (fun list => (some (some (some list)), _)) hbytes

theorem udpRecv_delivered {bytes : List UInt8} (hlen : bytes.length ≤ 512) (rounds port : Nat)
    (s : Net) : ∃ s', outcome (udpRecv stillEnv (modify (delivered bytes)) (rounds + 1) port 512)
      s = (some (some bytes), s') := by
  rw [udpRecv, outcome_modify_bind, outcome_bind_some outcome_deadlineIn]
  exact ⟨_, outcome_loop_done (udpRecvRound_delivered hlen _)⟩

/-- Any datagram may come back to a query. -/
theorem exists_receives {bytes : List UInt8} (hlen : bytes.length ≤ 512) :
    ∃ (env : Env) (poll : NetM Unit) (hostname : CString) (s s' : Net),
      DnsReceives env poll 512 hostname bytes s s' := by
  obtain ⟨t, hsend⟩ : ∃ t, outcome (udpSend stillEnv (modify (delivered bytes)) 512
      ⟨10, 0, 2, 3⟩ 53 serverNet.tcpEphPort (fun k => (dnsQuery [0]).getD k 0)
      ((dnsQuery [0]).length % 2 ^ 16))
      { serverNet with tcpEphPort := (serverNet.tcpEphPort + 1) % 2 ^ 16 } = (some 0, t) :=
    ⟨_, rfl⟩
  obtain ⟨s', hrecv⟩ := udpRecv_delivered hlen 511 serverNet.tcpEphPort
    { t with readings := t.readings + 1 + 1 }
  have htime : 0 % 2 ^ 32 < (0 % 2 ^ 32 + 100) % 2 ^ 32 := by decide
  refine ⟨stillEnv, modify (delivered bytes), ⟨[], nofun⟩, serverNet, s', [0], t, ?_, hsend, ?_⟩
  · rw [dnsEncName]
  · exact .now htime hrecv

/-- `dns_resolve` returns what the first record says. -/
theorem dnsResolve_reply {env : Env} {poll : NetM Unit} {hostname : CString} {s s' : Net}
    {reply : DnsReply} {r : DnsRecord} {rs : List DnsRecord} (hanswers : reply.answers = r :: rs)
    (hrounds : reply.bytes.length ≤ rounds)
    (h : DnsReceives env poll rounds hostname reply.bytes s s') :
    outcome (dnsResolve env poll rounds hostname) s =
      (some (if r.IsAddress then .ok r.address else .error (-4)), s') :=
  dnsResolve_of_receives h reply.answersQuery fun _ hmem => dnsAnswer_reply hanswers hmem hrounds

theorem isAddress_of_finds {reply : DnsReply} {r : DnsRecord} {rs : List DnsRecord}
    (hfits : reply.bytes.length ≤ 512) (hanswers : reply.answers = r :: rs)
    (hfinds : FindsAddress reply) : r.IsAddress := by
  obtain ⟨env, poll, hostname, s, s', hreceives⟩ := exists_receives hfits
  obtain ⟨r', -, -, hreturns⟩ := hfinds env poll 512 hostname s s' (Nat.le_refl 512) hreceives
  rw [dnsResolve_reply hanswers hfits hreceives] at hreturns
  by_contra haddress
  rw [if_neg haddress] at hreturns
  cases hreturns

/-- `dns_resolve` finds an address in a well-formed reply that has one if and only if
the first record of the reply has it. -/
theorem dns_resolve_finds_iff {reply : DnsReply} (hfits : reply.bytes.length ≤ 512)
    (hsome : ∃ r ∈ reply.answers, r.IsAddress) :
    FindsAddress reply ↔ ∃ r ∈ reply.answers.head?, r.IsAddress := by
  obtain ⟨r₀, hr₀, -⟩ := hsome
  obtain ⟨r, rs, hanswers⟩ := List.exists_cons_of_ne_nil (List.ne_nil_of_mem hr₀)
  have hhead : reply.answers.head? = some r := by rw [hanswers]; rfl
  constructor
  · exact fun hfinds => ⟨r, hhead, isAddress_of_finds hfits hanswers hfinds⟩
  · rintro ⟨r', hr', haddress⟩ env poll rounds hostname s s' hrounds hreceives
    obtain rfl : r = r' := Option.some.inj (hhead.symm.trans hr')
    refine ⟨r, by simp [hanswers], haddress, ?_⟩
    rw [dnsResolve_reply hanswers (hfits.trans hrounds) hreceives, if_pos haddress]

/-- An address for the name in the question. -/
def addressRecord : DnsRecord where
  name := [0xC0, 12]
  type := 1
  classTtl := [0, 1, 0, 0, 0, 60]
  data := [10, 0, 2, 2]
  isName := .pointer 0xC0 12 (by decide)
  type_lt := by decide
  classTtl_length := rfl
  data_lt := by decide

/-- An alias, the name `b`, for the name in the question. -/
def aliasRecord : DnsRecord where
  name := [0xC0, 12]
  type := 5
  classTtl := [0, 1, 0, 0, 0, 60]
  data := [1, 0x62, 0]
  isName := .pointer 0xC0 12 (by decide)
  type_lt := by decide
  classTtl_length := rfl
  data_lt := by decide

/-- A reply to a question for the name `a`. -/
def replyWith (answers : List DnsRecord) (hanswers : answers.length < 2 ^ 16) : DnsReply where
  flags := 0x81
  code := 0x80
  question := [1, 0x61, 0]
  questionEnd := [0, 1, 0, 1]
  answers := answers
  counts := [0, 0, 0, 0]
  others := []
  isReply := by decide
  noError := by decide
  isName := @WireName.label [0x61] [0] (by decide) (by decide) .root
  questionEnd_length := rfl
  answers_lt := hanswers
  counts_length := rfl

/-- The address before its alias. -/
theorem dns_resolve_finds_iff_first :
    FindsAddress (replyWith [addressRecord, aliasRecord] (by decide)) ↔
      ∃ r ∈ [addressRecord, aliasRecord].head?, r.IsAddress :=
  dns_resolve_finds_iff (by decide) ⟨addressRecord, List.mem_cons_self, by decide⟩

/-- Behind an alias the address is not found. -/
theorem address_behind_alias_not_found :
    (∃ r ∈ [aliasRecord, addressRecord], r.IsAddress) ∧
    ¬FindsAddress (replyWith [aliasRecord, addressRecord] (by decide)) :=
  ⟨⟨addressRecord, by simp, by decide⟩, fun h =>
    absurd (isAddress_of_finds (by decide) rfl h) (by decide)⟩

end Dosfs
