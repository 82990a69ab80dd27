import Dosfs.Net.DnsReply

/-!
# Names in DNS messages

A name in a message is a list of labels, each after its length, and ends with a
zero byte or with a pointer. `dns_enc_name` writes the labels between the dots of
a hostname, also the empty ones; so it writes a name exactly when there are none.
-/

namespace Dosfs

open Foundation

/-! ## The format -/

/-- A name in a message. -/
inductive WireName : List UInt8 → Prop
  | root : WireName [0]
  | pointer (high low : UInt8) (hmark : high &&& 0xC0 = 0xC0) : WireName [high, low]
  | label {label rest : List UInt8} (hne : label ≠ []) (hlen : label.length ≤ 63)
      (hrest : WireName rest) : WireName (UInt8.ofNat label.length :: label ++ rest)

/-- The labels, each after its length, and the zero byte. -/
def wireLabels (labels : List (List UInt8)) : List UInt8 :=
  labels.flatMap (fun label => UInt8.ofNat label.length :: label) ++ [0]

theorem wireLabels_cons (label : List UInt8) (labels : List (List UInt8)) :
    wireLabels (label :: labels) = UInt8.ofNat label.length :: label ++ wireLabels labels := by
  simp [wireLabels]

theorem wireName_wireLabels {labels : List (List UInt8)}
    (h : ∀ label ∈ labels, label ≠ [] ∧ label.length ≤ 63) : WireName (wireLabels labels) := by
  induction labels with
  | nil => exact .root
  | cons label labels ih =>
      obtain ⟨hne, hlen⟩ := h label List.mem_cons_self
      rw [wireLabels_cons]
      exact .label hne hlen (ih fun l hl => h l (List.mem_cons_of_mem _ hl))

/-- The length of a label is no pointer's first byte. -/
theorem labelLength_mark : ∀ k < 64, UInt8.ofNat k &&& 0xC0 = 0 := by decide

theorem labelLength_toNat {k : Nat} (hk : k ≤ 63) : (UInt8.ofNat k).toNat = k := by
  rw [UInt8.toNat_ofNat']
  omega

theorem labelLength_ne_zero {k : Nat} (hpos : 0 < k) (hk : k ≤ 63) : UInt8.ofNat k ≠ 0 := by
  intro h
  have hzero := congrArg UInt8.toNat h
  rw [labelLength_toNat hk] at hzero
  change k = 0 at hzero
  omega

variable {mem : Memory} {n p : Nat} {wire : List UInt8}

/-- A name that stands in a message ends where its bytes do. -/
theorem WireName.within (h : WireName wire) (hmem : mem.Holds p wire)
    (hn : p + wire.length ≤ n) : NameWithin mem n p (p + wire.length) := by
  induction h generalizing p with
  | root =>
      obtain ⟨hzero, -⟩ := Memory.holds_cons.1 hmem
      exact .root (Nat.lt_of_lt_of_le (Nat.lt_succ_self p) hn) hzero
  | pointer high low hmark =>
      obtain ⟨hhigh, -⟩ := Memory.holds_cons.1 hmem
      refine .pointer (Nat.lt_of_lt_of_le (by simp) hn) ?_
      rw [hhigh, hmark]
      decide
  | @label label rest hne hlen _ ih =>
      rw [List.cons_append, Memory.holds_cons, Memory.holds_append] at hmem
      obtain ⟨hlength, -, hrest⟩ := hmem
      have hpos := List.length_pos_iff.2 hne
      simp only [List.length_append, List.length_cons] at hn ⊢
      refine .label (by omega) ?_ ?_ ?_
      · rw [hlength]
        exact labelLength_ne_zero hpos hlen
      · rw [hlength]
        exact labelLength_mark _ (by omega)
      · have hwithin := ih hrest (by omega)
        rw [hlength, labelLength_toNat hlen]
        convert hwithin using 1
        · omega
        · omega

/-- `dns_skip_name` goes to the end of a name. -/
theorem WireName.skip {rounds : Nat} (h : WireName wire) (hmem : mem.Holds p wire)
    (hrounds : wire.length < rounds) : dnsSkipName mem rounds p = some (p + wire.length) :=
  (h.within hmem (Nat.le_refl _)).skip (by omega)

/-- The labels of a name without a pointer. -/
def decodeLabels : List UInt8 → List (List UInt8)
  | [] => []
  | len :: wire =>
      if len = 0 then []
      else wire.take len.toNat :: decodeLabels (wire.drop len.toNat)
termination_by wire => wire.length
decreasing_by
  rw [List.length_drop, List.length_cons]
  omega

theorem decodeLabels_wireLabels {labels : List (List UInt8)}
    (h : ∀ label ∈ labels, label ≠ [] ∧ label.length ≤ 63) :
    decodeLabels (wireLabels labels) = labels := by
  induction labels with
  | nil => simp [wireLabels, decodeLabels]
  | cons label labels ih =>
      obtain ⟨hne, hlen⟩ := h label List.mem_cons_self
      rw [wireLabels_cons, List.cons_append, decodeLabels,
        if_neg (labelLength_ne_zero (List.length_pos_iff.2 hne) hlen), labelLength_toNat hlen,
        List.take_left, List.drop_left, ih fun l hl => h l (List.mem_cons_of_mem _ hl)]

/-! ## Hostnames -/

/-- The character between labels. -/
def dot : UInt8 := 0x2E

/-- A hostname without the dot at its end, if it has one. -/
def withoutTrailingDot (name : List UInt8) : List UInt8 :=
  if name.getLast? = some dot then name.dropLast else name

/-- The labels of a hostname; the empty one has none. -/
def hostLabels (name : List UInt8) : List (List UInt8) :=
  if name = [] then [] else (withoutTrailingDot name).splitOn dot

/-- The first label of a name. -/
def firstLabel (name : List UInt8) : List UInt8 := name.takeWhile (· != dot)

/-- What stands behind the first label. -/
def afterLabel (name : List UInt8) : List UInt8 := (name.drop (firstLabel name).length).drop 1

variable {name : List UInt8}

theorem firstLabel_noDot {b : UInt8} (hb : b ∈ firstLabel name) : b ≠ dot := by
  simpa using List.mem_takeWhile_imp hb

/-- A name is its first label, or the label, a dot, and what stands behind it. -/
theorem eq_firstLabel_or (name : List UInt8) :
    (name = firstLabel name ∧ afterLabel name = []) ∨
      name = firstLabel name ++ dot :: afterLabel name := by
  induction name with
  | nil => exact .inl ⟨rfl, rfl⟩
  | cons c cs ih =>
      by_cases hc : c = dot
      · subst hc
        exact .inr rfl
      · have hlabel : firstLabel (c :: cs) = c :: firstLabel cs := by simp [firstLabel, hc]
        have hafter : afterLabel (c :: cs) = afterLabel cs := by
          rw [afterLabel, hlabel, List.length_cons, List.drop_succ_cons, afterLabel]
        rw [hlabel, hafter, List.cons_append]
        rcases ih with ⟨hcs, hnil⟩ | hcs
        · exact .inl ⟨congrArg (c :: ·) hcs, hnil⟩
        · exact .inr (congrArg (c :: ·) hcs)

/-- What holds of the empty name, and of a name when it holds of what stands behind
the first label, holds of every name. -/
theorem label_induction {P : List UInt8 → Prop} (hnil : P [])
    (hlabel : ∀ name, name ≠ [] → P (afterLabel name) → P name) (name : List UInt8) : P name := by
  induction hlen : name.length using Nat.strong_induction_on generalizing name with
  | _ k ih =>
      by_cases hempty : name = []
      · rw [hempty]
        exact hnil
      · refine hlabel name hempty (ih _ ?_ _ rfl)
        have hpos := List.length_pos_iff.2 hempty
        rw [afterLabel, List.length_drop, List.length_drop]
        omega

theorem dnsEncName_of_ne_nil (h : name ≠ []) :
    dnsEncName name =
      if 63 < (firstLabel name).length then none
      else (dnsEncName (afterLabel name)).map
        (UInt8.ofNat (firstLabel name).length :: firstLabel name ++ ·) := by
  cases name with
  | nil => exact absurd rfl h
  | cons c cs => rw [dnsEncName]; rfl

/-- The dot at the end belongs to what stands behind the first label. -/
theorem withoutTrailingDot_append {label rest : List UInt8} (h : rest ≠ []) :
    withoutTrailingDot (label ++ dot :: rest) = label ++ dot :: withoutTrailingDot rest := by
  have hlast : (label ++ dot :: rest).getLast? = rest.getLast? := by
    rw [List.getLast?_append, List.getLast?_cons_of_ne_nil h]
    cases hrest : rest.getLast? with
    | none => exact absurd (List.getLast?_eq_none_iff.1 hrest) h
    | some b => rfl
  unfold withoutTrailingDot
  rw [hlast]
  split
  · rw [List.dropLast_append_of_ne_nil (List.cons_ne_nil _ _), List.dropLast_cons_of_ne_nil h]
  · rfl

theorem hostLabels_of_ne_nil (h : name ≠ []) :
    hostLabels name = firstLabel name :: hostLabels (afterLabel name) := by
  have hnoDot : dot ∉ firstLabel name := fun hmem => firstLabel_noDot hmem rfl
  rw [hostLabels, if_neg h]
  rcases eq_firstLabel_or name with ⟨hname, hnil⟩ | hname
  · have hlast : name.getLast? ≠ some dot := fun hlast =>
      hnoDot (hname ▸ List.mem_of_getLast? hlast)
    rw [withoutTrailingDot, if_neg hlast, hnil]
    conv_lhs => rw [hname]
    rw [List.splitOn_eq_singleton hnoDot]
    rfl
  · conv_lhs => rw [hname]
    by_cases hempty : afterLabel name = []
    · rw [hempty, withoutTrailingDot, if_pos (by simp), List.dropLast_concat,
        List.splitOn_eq_singleton hnoDot]
      rfl
    · rw [withoutTrailingDot_append hempty, List.splitOn_append_cons_self_of_not_mem hnoDot,
        hostLabels, if_neg hempty]

/-! ## The encoder -/

/-- The encoder writes the labels between the dots. -/
theorem dnsEncName_eq {enc : List UInt8} (h : dnsEncName name = some enc) :
    enc = wireLabels (hostLabels name) ∧ ∀ label ∈ hostLabels name, label.length ≤ 63 := by
  induction name using label_induction generalizing enc with
  | hnil =>
      rw [dnsEncName] at h
      obtain rfl := Option.some.inj h
      exact ⟨rfl, fun _ hlabel => absurd hlabel List.not_mem_nil⟩
  | hlabel name hne ih =>
      rw [dnsEncName_of_ne_nil hne] at h
      split at h
      next => cases h
      next hlen =>
        obtain ⟨rest, hrest, rfl⟩ := Option.map_eq_some_iff.1 h
        obtain ⟨hwire, hlengths⟩ := ih hrest
        rw [hostLabels_of_ne_nil hne, wireLabels_cons, hwire]
        exact ⟨rfl, List.forall_mem_cons.2 ⟨Nat.not_lt.1 hlen, hlengths⟩⟩

/-- No dot stands at the start of a hostname or behind another dot. -/
structure DotsApart (name : List UInt8) : Prop where
  head : name.head? ≠ some dot
  apart : name.IsChain fun a b => a = dot → b ≠ dot

instance (name : List UInt8) : Decidable (DotsApart name) :=
  decidable_of_iff (name.head? ≠ some dot ∧ name.IsChain fun a b => a = dot → b ≠ dot)
    ⟨fun h => ⟨h.1, h.2⟩, fun h => ⟨h.head, h.apart⟩⟩

/-- A dot before the name would stand apart from those in it. -/
theorem dotsApart_iff : DotsApart name ↔ (dot :: name).IsChain fun a b => a = dot → b ≠ dot := by
  rw [List.isChain_cons]
  constructor
  · exact fun h => ⟨fun b hb _ hdot => h.head (hdot ▸ hb), h.apart⟩
  · exact fun h => ⟨fun hhead => h.1 dot hhead rfl rfl, h.2⟩

theorem dotsApart_of_noDot {label : List UInt8} (h : dot ∉ label) : DotsApart label := by
  constructor
  · exact fun hhead => h (List.mem_of_mem_head? hhead)
  · refine (List.isChain_isInfix label).imp fun a b hab hdot => ?_
    exact absurd (hdot ▸ hab.subset List.mem_cons_self) h

theorem dotsApart_append {label rest : List UInt8} (h : dot ∉ label) :
    DotsApart (label ++ dot :: rest) ↔ label ≠ [] ∧ DotsApart rest := by
  rw [dotsApart_iff, ← List.cons_append, List.isChain_append, ← dotsApart_iff, ← dotsApart_iff]
  constructor
  · rintro ⟨-, hrest, hlast⟩
    refine ⟨?_, hrest⟩
    rintro rfl
    exact hlast dot rfl dot rfl rfl rfl
  · rintro ⟨hne, hrest⟩
    refine ⟨dotsApart_of_noDot h, hrest, fun b hb _ _ hdot => ?_⟩
    rw [List.getLast?_cons_of_ne_nil hne] at hb
    exact absurd (hdot ▸ List.mem_of_getLast? hb) h

/-- Dots stand apart when no label is empty. -/
theorem hostLabels_ne_nil_iff : (∀ label ∈ hostLabels name, label ≠ []) ↔ DotsApart name := by
  induction name using label_induction with
  | hnil => exact iff_of_true nofun ⟨nofun, .nil⟩
  | hlabel name hne ih =>
      have hnoDot : dot ∉ firstLabel name := fun hmem => firstLabel_noDot hmem rfl
      rw [hostLabels_of_ne_nil hne, List.forall_mem_cons, ih]
      rcases eq_firstLabel_or name with ⟨hname, hnil⟩ | hname
      · rw [hnil, ← hname]
        exact iff_of_true ⟨hne, nofun, .nil⟩ (dotsApart_of_noDot (hname ▸ hnoDot))
      · conv_rhs => rw [hname]
        exact (dotsApart_append hnoDot).symm

/-- The bytes are a name in a message: the labels of the hostname after their lengths
with the only zero byte at the end. The walk over a name ends behind them, and its
labels are those of the hostname. -/
structure WellEncoded (name enc : List UInt8) : Prop where
  lengths : ∀ label ∈ hostLabels name, 1 ≤ label.length ∧ label.length ≤ 63
  wire : enc = wireLabels (hostLabels name)
  zero : ∀ i, enc[i]? = some 0 ↔ i + 1 = enc.length
  skip : ∀ (mem : Memory) (p rounds : Nat), mem.Holds p enc → enc.length < rounds →
    dnsSkipName mem rounds p = some (p + enc.length)
  decode : [dot].intercalate (decodeLabels enc) = withoutTrailingDot name

theorem wireLabels_zero {labels : List (List UInt8)}
    (hlengths : ∀ label ∈ labels, label ≠ [] ∧ label.length ≤ 63)
    (hbytes : ∀ label ∈ labels, ∀ b ∈ label, b ≠ 0) (i : Nat) :
    (wireLabels labels)[i]? = some 0 ↔ i + 1 = (wireLabels labels).length := by
  have hbody : ∀ b ∈ labels.flatMap fun label => UInt8.ofNat label.length :: label, b ≠ 0 := by
    intro b hb
    obtain ⟨label, hlabel, hb⟩ := List.mem_flatMap.1 hb
    obtain ⟨hne, hlen⟩ := hlengths label hlabel
    rcases List.mem_cons.1 hb with rfl | hb
    · exact labelLength_ne_zero (List.length_pos_iff.2 hne) hlen
    · exact hbytes label hlabel b hb
  unfold wireLabels
  generalize (labels.flatMap fun label => UInt8.ofNat label.length :: label) = body at hbody ⊢
  rw [List.length_append, List.length_singleton, Nat.add_right_cancel_iff]
  constructor
  · intro h
    rcases Nat.lt_trichotomy i body.length with hi | hi | hi
    · rw [List.getElem?_append_left hi] at h
      exact absurd rfl (hbody 0 (List.mem_of_getElem? h))
    · exact hi
    · rw [List.getElem?_append_right (Nat.le_of_lt hi), List.getElem?_eq_none ?_] at h
      · cases h
      · rw [List.length_singleton]
        omega
  · rintro rfl
    rw [List.getElem?_append_right (Nat.le_refl _), Nat.sub_self]
    rfl

/-- The labels of a hostname consist of its bytes. -/
theorem hostLabels_bytes {label : List UInt8} (hlabel : label ∈ hostLabels name) {b : UInt8}
    (hb : b ∈ label) : b ∈ name := by
  induction name using label_induction with
  | hnil => cases hlabel
  | hlabel name hne ih =>
      rw [hostLabels_of_ne_nil hne] at hlabel
      rcases List.mem_cons.1 hlabel with rfl | hlabel
      · exact (List.takeWhile_subset _) hb
      · exact List.mem_of_mem_drop (List.mem_of_mem_drop (ih hlabel))

/-- What `dns_enc_name` writes is a name in a message that stands for the hostname, if
and only if the hostname does not start with a dot and has no two dots in a row. -/
theorem dns_name_well_encoded_iff {name : CString} {enc : List UInt8}
    (h : dnsEncName name.bytes = some enc) :
    WellEncoded name.bytes enc ↔ DotsApart name.bytes := by
  obtain ⟨hwire, hlengths⟩ := dnsEncName_eq h
  rw [← hostLabels_ne_nil_iff]
  constructor
  · exact fun hwell label hlabel => List.length_pos_iff.1 (hwell.lengths label hlabel).1
  · intro hne
    have hlabels : ∀ label ∈ hostLabels name.bytes, label ≠ [] ∧ label.length ≤ 63 :=
      fun label hlabel => ⟨hne label hlabel, hlengths label hlabel⟩
    refine ⟨fun label hlabel => ?_, hwire, ?_, fun mem p rounds hmem hrounds => ?_, ?_⟩
    · exact ⟨List.length_pos_iff.2 (hne label hlabel), hlengths label hlabel⟩
    · rw [hwire]
      exact wireLabels_zero hlabels fun label hlabel b hb =>
        name.noNul b (hostLabels_bytes hlabel hb)
    · exact (hwire ▸ wireName_wireLabels hlabels).skip hmem hrounds
    · rw [hwire, decodeLabels_wireLabels hlabels, hostLabels]
      split
      next hempty => rw [hempty]; rfl
      next => exact List.intercalate_splitOn dot

/-- `a.b` with a dot at its end. -/
theorem dns_name_well_encoded_iff_ab :
    WellEncoded [0x61, 0x2E, 0x62, 0x2E] [1, 0x61, 1, 0x62, 0] ↔
      DotsApart [0x61, 0x2E, 0x62, 0x2E] :=
  dns_name_well_encoded_iff
    (show dnsEncName (⟨[0x61, 0x2E, 0x62, 0x2E], by simp⟩ : CString).bytes = _ by
      simp [dnsEncName])

/-- The empty label in `a..b` ends the name for the walk, before the label `b`. -/
theorem doubled_dot_ends_name :
    dnsEncName [0x61, 0x2E, 0x2E, 0x62] = some [1, 0x61, 0, 1, 0x62, 0] ∧
    dnsSkipName (frameMemory [1, 0x61, 0, 1, 0x62, 0]) 7 0 = some 3 ∧
    ¬WellEncoded [0x61, 0x2E, 0x2E, 0x62] [1, 0x61, 0, 1, 0x62, 0] := by
  refine ⟨by simp [dnsEncName], by decide, fun h => ?_⟩
  have hskip := h.skip (frameMemory [1, 0x61, 0, 1, 0x62, 0]) 0 7 (by decide) (by decide)
  exact absurd hskip (by decide)

end Dosfs
