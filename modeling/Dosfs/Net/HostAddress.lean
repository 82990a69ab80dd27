import Dosfs.Net.DnsName
import Dosfs.Net.Emission

/-!
# Host strings that are addresses

`tcp_connect` scans a host string for four numbers with an optional dot between
them. It takes the numbers of a dotted quad for what they are, but also finds four
numbers in many strings that are none.
-/

namespace Dosfs

open Foundation Fuelled

/-! ## Dotted quads -/

def IsDigit (c : UInt8) : Prop := 0x30 ≤ c ∧ c ≤ 0x39

instance : DecidablePred IsDigit := fun _ => inferInstanceAs (Decidable (_ ∧ _))

/-- A number with a further digit. -/
def appendDigit (n : Nat) (c : UInt8) : Nat := n * 10 + (c.toNat - 0x30)

/-- The value of a string of digits. -/
def decimalValue (part : List UInt8) : Nat := part.foldl appendDigit 0

/-- A decimal number up to 255. -/
def IsByteNumber (part : List UInt8) : Prop :=
  part ≠ [] ∧ (∀ c ∈ part, IsDigit c) ∧ decimalValue part ≤ 255

instance (part : List UInt8) : Decidable (IsByteNumber part) := inferInstanceAs (Decidable (_ ∧ _))

/-- The address that a host string of four numbers with dots between them stands for. -/
def dottedQuad (host : List UInt8) : Option Ip :=
  match host.splitOn dot with
  | [a, b, c, d] =>
      if IsByteNumber a ∧ IsByteNumber b ∧ IsByteNumber c ∧ IsByteNumber d then
        some ⟨UInt8.ofNat (decimalValue a), UInt8.ofNat (decimalValue b),
          UInt8.ofNat (decimalValue c), UInt8.ofNat (decimalValue d)⟩
      else none
  | _ => none

/-! ## The scanner -/

/-- A number, and as many more with an optional dot before each. -/
def scanNumbers : Nat → List UInt8 → List Nat × List UInt8
  | 0, p => ([(parseNumber p 0).1], (parseNumber p 0).2)
  | k + 1, p =>
      let (ns, rest) := scanNumbers k (skipDot (parseNumber p 0).2)
      ((parseNumber p 0).1 :: ns, rest)

/-- The string consists of digits and dots, with at most three dots. -/
def Scannable (host : List UInt8) : Prop :=
  (∀ c ∈ host, IsDigit c ∨ c = dot) ∧ host.count dot ≤ 3

instance (host : List UInt8) : Decidable (Scannable host) := inferInstanceAs (Decidable (_ ∧ _))

variable {k : Nat} {p : List UInt8}

/-- `tcp_connect` takes the numbers of the scan unless something is left or all are
zero without a zero at the start. -/
theorem hostAddress_scan (host : CString) :
    ∃ a b c d rest, scanNumbers 3 host.bytes = ([a, b, c, d], rest) ∧
      hostAddress host =
        if rest ≠ [] ∨ (a = 0 ∧ b = 0 ∧ c = 0 ∧ d = 0 ∧ host.bytes.head? ≠ some 0x30) then none
        else some ⟨UInt8.ofNat a, UInt8.ofNat b, UInt8.ofNat c, UInt8.ofNat d⟩ :=
  ⟨_, _, _, _, _, rfl, rfl⟩

/-- The digits before anything else are one number, cut to 32 bits. -/
theorem parseNumber_append {digits rest : List UInt8} {n : Nat}
    (hdigits : ∀ c ∈ digits, IsDigit c) (hrest : ∀ c ∈ rest.head?, ¬IsDigit c) :
    parseNumber (digits ++ rest) (n % 2 ^ 32) = (digits.foldl appendDigit n % 2 ^ 32, rest) := by
  induction digits generalizing n with
  | nil =>
      cases rest with
      | nil => rfl
      | cons c rest => exact if_neg (hrest c rfl)
  | cons c digits ih =>
      have hstep : (n % 2 ^ 32 * 10 + (c.toNat - 0x30)) % 2 ^ 32 = appendDigit n c % 2 ^ 32 := by
        unfold appendDigit
        omega
      have hc : 0x30 ≤ c ∧ c ≤ 0x39 := hdigits c List.mem_cons_self
      rw [List.cons_append, parseNumber, if_pos hc, hstep,
        ih fun c hc => hdigits c (List.mem_cons_of_mem _ hc), List.foldl_cons]

theorem parseNumber_digits {digits rest : List UInt8} (hdigits : ∀ c ∈ digits, IsDigit c)
    (hrest : ∀ c ∈ rest.head?, ¬IsDigit c) :
    parseNumber (digits ++ rest) 0 = (decimalValue digits % 2 ^ 32, rest) :=
  parseNumber_append (n := 0) hdigits hrest

theorem not_isDigit_dot : ¬IsDigit dot := by decide

/-- A label of digits is one number. -/
theorem parseNumber_label (hdigits : ∀ c ∈ firstLabel p, IsDigit c) :
    (p = firstLabel p ∧ afterLabel p = [] ∧
        parseNumber p 0 = (decimalValue (firstLabel p) % 2 ^ 32, [])) ∨
      (p = firstLabel p ++ dot :: afterLabel p ∧
        parseNumber p 0 = (decimalValue (firstLabel p) % 2 ^ 32, dot :: afterLabel p)) := by
  rcases eq_firstLabel_or p with ⟨hp, hafter⟩ | hp
  · refine .inl ⟨hp, hafter, ?_⟩
    have hparse : parseNumber (firstLabel p ++ []) 0 = _ := parseNumber_digits hdigits nofun
    rw [List.append_nil] at hparse
    exact (congrArg (parseNumber · 0) hp).trans hparse
  · refine .inr ⟨hp, ?_⟩
    have hrest : ∀ c ∈ (dot :: afterLabel p).head?, ¬IsDigit c := by
      intro c hc
      obtain rfl := Option.some.inj hc
      exact not_isDigit_dot
    exact (congrArg (parseNumber · 0) hp).trans (parseNumber_digits hdigits hrest)

/-- Nothing is scanned of a string that starts with another character. -/
theorem scanNumbers_stuck {c : UInt8} (hdigit : ¬IsDigit c) (hdot : c ≠ dot) (k : Nat) :
    (scanNumbers k (c :: p)).2 = c :: p := by
  have hparse : parseNumber (c :: p) 0 = (0, c :: p) := if_neg hdigit
  have hskip : skipDot (c :: p) = c :: p := if_neg hdot
  induction k with
  | zero => rw [scanNumbers, hparse]
  | succ k ih =>
      rw [scanNumbers, hparse, hskip]
      exact ih

theorem firstLabel_cons {c : UInt8} (hc : c ≠ dot) (p : List UInt8) :
    firstLabel (c :: p) = c :: firstLabel p := by
  simp [firstLabel, hc]

/-- The first label that is no number has a first character that is no digit. -/
theorem exists_not_digit (h : ¬∀ c ∈ firstLabel p, IsDigit c) :
    ∃ digits c rest, p = digits ++ c :: rest ∧ (∀ c ∈ digits, IsDigit c) ∧ ¬IsDigit c ∧
      c ≠ dot := by
  induction p with
  | nil => exact absurd nofun h
  | cons c p ih =>
      by_cases hdot : c = dot
      · subst hdot
        exact absurd nofun h
      · by_cases hc : IsDigit c
        · rw [firstLabel_cons hdot, List.forall_mem_cons] at h
          obtain ⟨digits, c', rest, rfl, hdigits, hc'⟩ := ih fun hall => h ⟨hc, hall⟩
          exact ⟨c :: digits, c', rest, rfl, List.forall_mem_cons.2 ⟨hc, hdigits⟩, hc'⟩
        · exact ⟨[], c, p, rfl, nofun, hc, hdot⟩

/-- Something is left of a string whose first label is no number. -/
theorem scanNumbers_of_not_digits (h : ¬∀ c ∈ firstLabel p, IsDigit c) (k : Nat) :
    (scanNumbers k p).2 ≠ [] := by
  obtain ⟨digits, c, rest, rfl, hdigits, hdigit, hdot⟩ := exists_not_digit h
  have hparse : parseNumber (digits ++ c :: rest) 0 = (_, c :: rest) :=
    parseNumber_digits hdigits (by rintro c' hc'; obtain rfl := Option.some.inj hc'; exact hdigit)
  cases k with
  | zero =>
      rw [scanNumbers, hparse]
      exact List.cons_ne_nil _ _
  | succ k =>
      have hskip : skipDot (c :: rest) = c :: rest := if_neg hdot
      rw [scanNumbers, hparse, hskip]
      rw [scanNumbers_stuck hdigit hdot]
      exact List.cons_ne_nil _ _

theorem skipDot_dot (p : List UInt8) : skipDot (dot :: p) = p := by
  rw [skipDot]
  exact if_pos rfl

theorem scanNumbers_nil (k : Nat) : scanNumbers k [] = (List.replicate (k + 1) 0, []) := by
  induction k with
  | zero => rfl
  | succ k ih =>
      have hstep : scanNumbers (k + 1) [] =
          (0 :: (scanNumbers k []).1, (scanNumbers k []).2) := rfl
      rw [hstep, ih]
      rfl

theorem count_dot_append {label rest : List UInt8} (h : dot ∉ label) :
    (label ++ dot :: rest).count dot = rest.count dot + 1 := by
  rw [List.count_append, List.count_eq_zero_of_not_mem h, List.count_cons_self, Nat.zero_add]

theorem firstLabel_digits (h : ∀ c ∈ p, IsDigit c ∨ c = dot) : ∀ c ∈ firstLabel p, IsDigit c :=
  fun c hc => (h c (List.takeWhile_subset _ hc)).resolve_right (firstLabel_noDot hc)

/-- A string of digits and dots, with no more dots than are scanned, is scanned for its
numbers, and for zeros after them. -/
theorem scanNumbers_eq (h : ∀ c ∈ p, IsDigit c ∨ c = dot) (hcount : p.count dot ≤ k) :
    scanNumbers k p = ((p.splitOn dot).map (decimalValue · % 2 ^ 32) ++
      List.replicate (k - p.count dot) 0, []) := by
  have hnoDot : dot ∉ firstLabel p := fun hmem => firstLabel_noDot hmem rfl
  induction k generalizing p with
  | zero =>
      have hdot : dot ∉ p := List.count_eq_zero.1 (Nat.le_zero.1 hcount)
      rcases parseNumber_label (firstLabel_digits h) with ⟨hp, -, hparse⟩ | ⟨hp, -⟩
      · rw [scanNumbers, hparse, ← hp, List.splitOn_eq_singleton hdot,
          List.count_eq_zero_of_not_mem hdot]
        rfl
      · exact absurd (hp ▸ List.mem_append_right _ List.mem_cons_self) hdot
  | succ k ih =>
      rcases parseNumber_label (firstLabel_digits h) with ⟨hp, -, hparse⟩ | ⟨hp, hparse⟩
      · have hskip : skipDot [] = [] := rfl
        rw [scanNumbers, hparse, hskip, scanNumbers_nil, ← hp,
          List.splitOn_eq_singleton (hp ▸ hnoDot), List.count_eq_zero_of_not_mem (hp ▸ hnoDot)]
        rfl
      · have hsplit : p.splitOn dot = firstLabel p :: (afterLabel p).splitOn dot := by
          conv_lhs => rw [hp]
          exact List.splitOn_append_cons_self_of_not_mem hnoDot _
        have hdots : p.count dot = (afterLabel p).count dot + 1 := by
          conv_lhs => rw [hp]
          exact count_dot_append hnoDot
        have hrest : ∀ c ∈ afterLabel p, IsDigit c ∨ c = dot := fun c hc =>
          h c (List.mem_of_mem_drop (List.mem_of_mem_drop hc))
        rw [scanNumbers, hparse, skipDot_dot, hsplit, hdots, Nat.add_sub_add_right,
          ih hrest (by omega) fun hmem => firstLabel_noDot hmem rfl]
        rfl

/-- The scan comes to the end of such strings only. -/
theorem scanNumbers_rest (h : (scanNumbers k p).2 = []) :
    (∀ c ∈ p, IsDigit c ∨ c = dot) ∧ p.count dot ≤ k := by
  have hdigits : ∀ c ∈ firstLabel p, IsDigit c :=
    not_not.1 fun hnot => scanNumbers_of_not_digits hnot k h
  have hnoDot : dot ∉ firstLabel p := fun hmem => firstLabel_noDot hmem rfl
  induction k generalizing p with
  | zero =>
      rcases parseNumber_label hdigits with ⟨hp, -, -⟩ | ⟨-, hparse⟩
      · rw [List.count_eq_zero_of_not_mem (hp ▸ hnoDot)]
        exact ⟨fun c hc => .inl (hdigits c (hp ▸ hc)), Nat.le_refl 0⟩
      · rw [scanNumbers, hparse] at h
        cases h
  | succ k ih =>
      rcases parseNumber_label hdigits with ⟨hp, -, -⟩ | ⟨hp, hparse⟩
      · rw [List.count_eq_zero_of_not_mem (hp ▸ hnoDot)]
        exact ⟨fun c hc => .inl (hdigits c (hp ▸ hc)), Nat.zero_le _⟩
      · rw [scanNumbers, hparse, skipDot_dot] at h
        obtain ⟨hall, hcount⟩ := ih h (not_not.1 fun hnot => scanNumbers_of_not_digits hnot k h)
          fun hmem => firstLabel_noDot hmem rfl
        constructor
        · rw [hp]
          intro c hc
          rcases List.mem_append.1 hc with hc | hc
          · exact .inl (hdigits c hc)
          · rcases List.mem_cons.1 hc with rfl | hc
            · exact .inr rfl
            · exact hall c hc
        · rw [hp, count_dot_append hnoDot]
          omega

/-! ## The scanner and dotted quads -/

/-- What holds of strings without a dot, and with a label in front of what it holds of,
holds of every string. -/
theorem dot_induction {P : List UInt8 → Prop} (hlabel : ∀ label, dot ∉ label → P label)
    (happend : ∀ label rest, dot ∉ label → P rest → P (label ++ dot :: rest))
    (p : List UInt8) : P p := by
  induction p using label_induction with
  | hnil => exact hlabel [] List.not_mem_nil
  | hlabel p _ ih =>
      have hnoDot : dot ∉ firstLabel p := fun hmem => firstLabel_noDot hmem rfl
      rcases eq_firstLabel_or p with ⟨hp, -⟩ | hp
      · rw [hp]
        exact hlabel _ hnoDot
      · rw [hp]
        exact happend _ _ hnoDot ih

theorem splitOn_dot_length (p : List UInt8) : (p.splitOn dot).length = p.count dot + 1 := by
  induction p using dot_induction with
  | hlabel label hnoDot =>
      rw [List.splitOn_eq_singleton hnoDot, List.count_eq_zero_of_not_mem hnoDot]
      rfl
  | happend label rest hnoDot ih =>
      rw [List.splitOn_append_cons_self_of_not_mem hnoDot, List.length_cons, ih,
        count_dot_append hnoDot]

theorem digits_or_dot (h : ∀ part ∈ p.splitOn dot, ∀ c ∈ part, IsDigit c) :
    ∀ c ∈ p, IsDigit c ∨ c = dot := by
  induction p using dot_induction with
  | hlabel label hnoDot =>
      rw [List.splitOn_eq_singleton hnoDot] at h
      exact fun c hc => .inl (h label List.mem_cons_self c hc)
  | happend label rest hnoDot ih =>
      rw [List.splitOn_append_cons_self_of_not_mem hnoDot, List.forall_mem_cons] at h
      intro c hc
      rcases List.mem_append.1 hc with hc | hc
      · exact .inl (h.1 c hc)
      · rcases List.mem_cons.1 hc with rfl | hc
        · exact .inr rfl
        · exact ih h.2 c hc

/-- The parts of a dotted quad. -/
theorem dottedQuad_eq_some {host : List UInt8} {ip : Ip} (h : dottedQuad host = some ip) :
    ∃ a b c d, host.splitOn dot = [a, b, c, d] ∧ (∀ part ∈ [a, b, c, d], IsByteNumber part) ∧
      ip = ⟨UInt8.ofNat (decimalValue a), UInt8.ofNat (decimalValue b),
        UInt8.ofNat (decimalValue c), UInt8.ofNat (decimalValue d)⟩ := by
  unfold dottedQuad at h
  split at h
  next a b c d hsplit =>
    split at h
    next hnumbers =>
      refine ⟨a, b, c, d, hsplit, ?_, (Option.some.inj h).symm⟩
      simpa only [List.forall_mem_cons, List.not_mem_nil, false_imp_iff, implies_true, and_true]
        using hnumbers
    next => cases h
  next => cases h

theorem scannable_of_dottedQuad {host : List UInt8} {ip : Ip} (h : dottedQuad host = some ip) :
    Scannable host := by
  obtain ⟨a, b, c, d, hsplit, hnumbers, -⟩ := dottedQuad_eq_some h
  have hlength := splitOn_dot_length host
  rw [hsplit] at hlength
  refine ⟨digits_or_dot fun part hpart => ?_, by simp at hlength; omega⟩
  exact (hnumbers part (hsplit ▸ hpart)).2.1

theorem le_foldl_appendDigit (digits : List UInt8) (n : Nat) : n ≤ digits.foldl appendDigit n := by
  induction digits generalizing n with
  | nil => exact Nat.le_refl n
  | cons c digits ih =>
      refine Nat.le_trans ?_ (ih (appendDigit n c))
      unfold appendDigit
      omega

/-- Only strings of zeros have the value zero. -/
theorem head_of_decimalValue_zero {part : List UInt8} (h : IsByteNumber part)
    (hzero : decimalValue part = 0) : part.head? = some 0x30 := by
  obtain ⟨hne, hdigits, -⟩ := h
  cases part with
  | nil => exact absurd rfl hne
  | cons c rest =>
      have hle : c.toNat - 0x30 ≤ 0 := by
        have hstep := le_foldl_appendDigit rest (appendDigit 0 c)
        have hvalue : decimalValue (c :: rest) = rest.foldl appendDigit (appendDigit 0 c) := rfl
        rw [← hvalue, hzero] at hstep
        unfold appendDigit at hstep
        omega
      obtain ⟨hlow, -⟩ := hdigits c List.mem_cons_self
      have hlow' : 0x30 ≤ c.toNat := hlow
      exact congrArg some (UInt8.toNat_inj.1 (show c.toNat = 0x30 by omega))

/-- A string that cannot be scanned is left to DNS. -/
theorem hostAddress_of_not_scannable {host : CString} (h : ¬Scannable host.bytes) :
    hostAddress host = none := by
  obtain ⟨a, b, c, d, rest, hscan, haddress⟩ := hostAddress_scan host
  rw [haddress, if_pos (Or.inl ?_)]
  exact fun hrest => h (scanNumbers_rest (k := 3) (by rw [hscan]; exact hrest))

/-- All numbers are zero, and the string does not say so with a zero at its start. -/
def ZeroNumbers (host : List UInt8) : Prop :=
  host.head? ≠ some 0x30 ∧ ∀ part ∈ host.splitOn dot, decimalValue part % 2 ^ 32 = 0

instance (host : List UInt8) : Decidable (ZeroNumbers host) :=
  inferInstanceAs (Decidable (_ ∧ _))

theorem hostAddress_eq_none_iff {host : CString} (h : Scannable host.bytes) :
    hostAddress host = none ↔ ZeroNumbers host.bytes := by
  obtain ⟨a, b, c, d, rest, hscan, haddress⟩ := hostAddress_scan host
  rw [scanNumbers_eq h.1 h.2] at hscan
  obtain ⟨hnumbers, rfl⟩ := Prod.mk.inj hscan
  have hzero : (a = 0 ∧ b = 0 ∧ c = 0 ∧ d = 0) ↔
      ∀ part ∈ host.bytes.splitOn dot, decimalValue part % 2 ^ 32 = 0 := by
    have hall : (∀ n ∈ [a, b, c, d], n = 0) ↔
        ∀ part ∈ host.bytes.splitOn dot, decimalValue part % 2 ^ 32 = 0 := by
      rw [← hnumbers, List.forall_mem_append, List.forall_mem_map]
      exact and_iff_left fun n hn => List.eq_of_mem_replicate hn
    rw [← hall]
    simp
  rw [haddress, ZeroNumbers, ← hzero]
  split
  next hcond =>
    obtain ⟨ha, hb, hc, hd, hhead⟩ := hcond.resolve_left (not_not.2 rfl)
    exact iff_of_true rfl ⟨hhead, ha, hb, hc, hd⟩
  next hcond =>
    refine iff_of_false nofun fun ⟨hhead, ha, hb, hc, hd⟩ => hcond ?_
    exact .inr ⟨ha, hb, hc, hd, hhead⟩

/-- A dotted quad is taken for the address it stands for. -/
theorem hostAddress_of_dottedQuad {host : CString} {ip : Ip} (h : dottedQuad host.bytes = some ip) :
    hostAddress host = some ip := by
  have hscannable := scannable_of_dottedQuad h
  obtain ⟨a, b, c, d, hsplit, hnumbers, rfl⟩ := dottedQuad_eq_some h
  have hlength := splitOn_dot_length host.bytes
  rw [hsplit] at hlength
  have hvalue : ∀ part ∈ [a, b, c, d], decimalValue part % 2 ^ 32 = decimalValue part := by
    intro part hpart
    have hle := (hnumbers part hpart).2.2
    exact Nat.mod_eq_of_lt (by omega)
  obtain ⟨a', b', c', d', rest, hscan, haddress⟩ := hostAddress_scan host
  rw [scanNumbers_eq hscannable.1 hscannable.2, hsplit] at hscan
  obtain ⟨hscanned, rfl⟩ := Prod.mk.inj hscan
  rw [show host.bytes.count dot = 3 by simpa using hlength.symm] at hscanned
  simp only [List.map_cons, List.map_nil, Nat.sub_self, List.replicate_zero, List.append_nil,
    List.cons.injEq, and_true] at hscanned
  obtain ⟨rfl, rfl, rfl, rfl⟩ := hscanned
  simp only [List.forall_mem_cons] at hvalue hnumbers
  rw [haddress, if_neg, hvalue.1, hvalue.2.1, hvalue.2.2.1, hvalue.2.2.2.1]
  rintro (hrest | ⟨hzero, -, -, -, hhead⟩)
  · exact hrest rfl
  · have hdigit := head_of_decimalValue_zero hnumbers.1 (hvalue.1 ▸ hzero)
    have hjoin : [dot].intercalate (host.bytes.splitOn dot) = host.bytes :=
      List.intercalate_splitOn dot
    refine hhead ?_
    rw [← hjoin, hsplit, List.intercalate_cons_cons, List.head?_append, List.head?_append, hdigit]
    rfl

/-! ## Connecting -/

section

variable (env : Env) (poll : NetM Unit) (rounds : Nat)

/-- Connect to an address, or to the one that DNS has for the host. -/
def connectBy (host : CString) (port : Nat) : Option Ip → NetM Int
  | some ip => tcpOpen env poll rounds ip port
  | none => do
      match ← dnsResolve env poll rounds host with
      | .error _ => return -2
      | .ok ip => tcpOpen env poll rounds ip port

end

/-- `tcp_connect` goes by the dotted quad that the host string is, if it is one, and
then has the four numbers for its peer; otherwise it goes by what DNS says. -/
structure ConnectsByQuad (host : CString) : Prop where
  calls : ∀ env poll rounds port s, outcome (tcpConnect env poll rounds host port) s =
    outcome (connectBy env poll rounds host port (dottedQuad host.bytes)) s
  address : ∀ ip, dottedQuad host.bytes = some ip → ∀ env rounds depth port s,
    (outcome (tcpConnect env (netPoll env rounds depth) rounds host port) s).2.tcpDstIp = ip

section

variable {env : Env} {poll : NetM Unit} {rounds port : Nat} {s : Net}

theorem tcpConnect_eq (host : CString) :
    tcpConnect env poll rounds host port =
      connectBy env poll rounds host port (hostAddress host) := by
  unfold tcpConnect
  cases hostAddress host <;> rfl

theorem tcpOpen_tcpDstIp {ip : Ip} (hpoll : ∀ s, Within KeepsPeer s poll) :
    (outcome (tcpOpen env poll rounds ip port) s).2.tcpDstIp = ip := by
  rw [tcpOpen, outcome_modify_bind]
  refine within_bind (R := KeepsPeer)
    (tcpSendSeg_within KeepsPeer.closed hpoll fun hack => absurd hack (by decide)) fun _ _ _ _ => ?_
  refine within_bind (deadlineIn_within KeepsPeer.closed.toClosedSteps) fun deadline s' _ _ => ?_
  refine within_bind (within_loop (fun s => waitRound_within KeepsPeer.closed.toClosedSteps hpoll)
    rounds s') fun _ s' _ _ => within_get_bind (within_ite (fun _ => within_pure 0) fun _ => ?_)
  exact within_modify_bind (show KeepsPeer s' _ from rfl) (within_pure (-1))

/-- Without rounds to wait in, DNS has no address. -/
theorem dnsResolve_no_rounds {host : CString} {ip : Ip} {s' : Net} :
    outcome (dnsResolve env poll 0 host) s ≠ (some (.ok ip), s') := by
  intro h
  rw [dnsResolve, outcome_get_bind, outcome_modify_bind] at h
  split at h
  next => cases h
  next enc _ =>
    dsimp only at h
    generalize udpSend env poll 0 _ _ _ _ _ = send at h
    generalize { s with tcpEphPort := _ } = t at h
    rcases hsend : outcome send t with ⟨_ | r, t'⟩
    · rw [outcome_bind_none hsend] at h
      cases h
    · rw [outcome_bind_some hsend] at h
      split at h
      next => cases h
      next => cases h

/-- So the peer stays the one it was. -/
theorem connectBy_none_tcpDstIp {host : CString} :
    (outcome (connectBy env failure 0 host port none) s).2.tcpDstIp = s.tcpDstIp := by
  have hkeeps : Within KeepsPeer s (dnsResolve env failure 0 host) :=
    dnsResolve_within KeepsPeer.closed fun _ => within_failure
  refine within_bind (R := KeepsPeer) hkeeps fun found t hfound _ => ?_
  cases found with
  | error _ => exact within_pure (-2)
  | ok ip => exact absurd hfound dnsResolve_no_rounds

end

/-- A string that is no dotted quad must be left to DNS. -/
theorem hostAddress_of_connectsByQuad {host : CString} (h : ConnectsByQuad host)
    (hnone : dottedQuad host.bytes = none) : hostAddress host = none := by
  by_contra hsome
  obtain ⟨ip, hip⟩ := Option.ne_none_iff_exists'.1 hsome
  -- the peer tells the two apart
  obtain ⟨s, hs⟩ : ∃ s : Net, s.tcpDstIp ≠ ip := by
    by_cases hzero : ip = ⟨0, 0, 0, 0⟩
    · exact ⟨{ startNet with tcpDstIp := ⟨1, 0, 0, 0⟩ }, by rw [hzero]; decide⟩
    · exact ⟨startNet, fun heq => hzero heq.symm⟩
  have hcalls := h.calls Env.quiet failure 0 0 s
  rw [tcpConnect_eq, hip, hnone] at hcalls
  have hopened : (outcome (tcpOpen Env.quiet failure 0 ip 0) s).2.tcpDstIp = ip :=
    tcpOpen_tcpDstIp fun _ => within_failure
  have hleft : (outcome (connectBy Env.quiet failure 0 host 0 none) s).2.tcpDstIp = s.tcpDstIp :=
    connectBy_none_tcpDstIp
  rw [← hcalls] at hleft
  exact hs (hleft.symm.trans hopened)

/-- `tcp_connect` takes exactly the dotted quads for addresses in the case of strings
that are dotted quads, that are not made of digits and up to three dots, or in which
all numbers are zero in 32 bits and no zero stands at the start. -/
theorem tcp_connect_by_quad_iff (host : CString) :
    ConnectsByQuad host ↔
      (dottedQuad host.bytes).isSome ∨ ¬Scannable host.bytes ∨ ZeroNumbers host.bytes := by
  cases hquad : dottedQuad host.bytes with
  | some ip =>
      have haddress := hostAddress_of_dottedQuad hquad
      refine iff_of_true ⟨fun env poll rounds port s => ?_, ?_⟩ (.inl rfl)
      · rw [tcpConnect_eq, haddress, hquad]
      · intro ip' hip' env rounds depth port s
        obtain rfl := Option.some.inj (hquad.symm.trans hip')
        rw [tcpConnect_eq, haddress]
        exact tcpOpen_tcpDstIp fun s => netPoll_within KeepsPeer.closed env rounds depth s
  | none =>
      have hleft : ConnectsByQuad host ↔ hostAddress host = none := by
        refine ⟨fun h => hostAddress_of_connectsByQuad h hquad, fun haddress => ⟨?_, ?_⟩⟩
        · intro env poll rounds port s
          rw [tcpConnect_eq, haddress, hquad]
        · intro ip hip
          rw [hquad] at hip
          cases hip
      rw [hleft]
      by_cases hscannable : Scannable host.bytes
      · rw [hostAddress_eq_none_iff hscannable]
        simp [hscannable]
      · exact iff_of_true (hostAddress_of_not_scannable hscannable) (.inr (.inl hscannable))

/-- The string `1234` is no dotted quad and is taken for the address 210.0.0.0. -/
theorem digits_taken_for_address :
    dottedQuad [0x31, 0x32, 0x33, 0x34] = none ∧
    hostAddress ⟨[0x31, 0x32, 0x33, 0x34], by simp⟩ = some ⟨210, 0, 0, 0⟩ ∧
    ¬ConnectsByQuad ⟨[0x31, 0x32, 0x33, 0x34], by simp⟩ := by
  have hquad : dottedQuad [0x31, 0x32, 0x33, 0x34] = none := by decide
  refine ⟨hquad, by decide, fun h => ?_⟩
  exact absurd (hostAddress_of_connectsByQuad h hquad) (by decide)

end Dosfs
