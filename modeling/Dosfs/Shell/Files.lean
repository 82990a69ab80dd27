import Dosfs.Fs.TmpfsSlots

/-!
# Moving files in the shell

A translation of `cmd_mv` of `shell/shell.c`, and when the file survives it: the
command deletes the source whatever became of the write to the destination.
-/

namespace Dosfs

open Foundation

/-! ## The command -/

/-- `while (*args == ' ') args++;` -/
def skipSpaces (args : List UInt8) : List UInt8 := args.dropWhile (· == 0x20)

def blanks (count : Nat) : List UInt8 := List.replicate count 0x20

theorem mem_blanks {count : Nat} {c : UInt8} (h : c ∈ blanks count) : c = 0x20 :=
  List.eq_of_mem_replicate h

/-- Blanks are skipped up to what is none. -/
theorem skipSpaces_blanks {count : Nat} {s : List UInt8} (hs : ∀ c ∈ s.head?, c ≠ 0x20) :
    skipSpaces (blanks count ++ s) = s := by
  rw [skipSpaces, List.dropWhile_append_of_pos fun c hc => by simpa using mem_blanks hc]
  cases s with
  | nil => rfl
  | cons c s =>
      have hc : (c == 0x20) = false := by simpa using hs c rfl
      rw [List.dropWhile_cons, hc, if_neg Bool.false_ne_true]

theorem skipSpaces_space {count : Nat} {s : List UInt8} (hs : ∀ c ∈ s.head?, c ≠ 0x20) :
    skipSpaces (0x20 :: (blanks count ++ s)) = s := by
  rw [← List.cons_append, show 0x20 :: blanks count = blanks (count + 1) from rfl,
    skipSpaces_blanks hs]

/-- The loop that copies a name to a buffer with room for so many more bytes;
the name and what is left of the line. -/
def copyName : List UInt8 → Nat → List UInt8 × List UInt8
  | [], _ => ([], [])
  | c :: args, 0 => ([], c :: args)
  | c :: args, room + 1 =>
      if c = 0x20 then ([], c :: args)
      else
        let (name, rest) := copyName args room
        (c :: name, rest)

/-- The names that `cmd_mv` takes from its arguments. -/
def moveNames (args : CString) : Option (CString × CString) :=
  let args := skipSpaces args.bytes
  let (src, args) := copyName args 63
  let args := skipSpaces args
  if src = [] ∨ args = [] then none
  else
    let (dst, _) := copyName args 63
    some (CString.ofBuffer src, CString.ofBuffer dst)

/-- What `cmd_mv` prints. -/
inductive MvMessage
  | usage
  | outOfMemory
  | sourceNotFound (src : CString)
  | moved (src dst : CString)
  deriving DecidableEq

def cmdMv (kmallocFails : Bool) (args : CString) (t : Tmpfs) : Option (MvMessage × Tmpfs) :=
  match moveNames args with
  | none => some (.usage, t)
  | some (src, dst) =>
      if kmallocFails then some (.outOfMemory, t)
      else
        let (len, buf) := tmpfsRead src tmpfsDataSize t
        if len < 0 then some (.sourceNotFound src, t)
        else do
          let (_, t) ← tmpfsWrite dst (Memory.storeList (fun _ => 0) 0 buf) len.toNat t
          let (_, t) := tmpfsDelete src t
          some (.moved src dst, t)

/-! ## The names -/

theorem copyName_length (args : List UInt8) (room : Nat) :
    (copyName args room).1.length ≤ room := by
  induction args generalizing room with
  | nil => exact Nat.zero_le _
  | cons c args ih =>
      cases room with
      | zero => exact Nat.zero_le _
      | succ room =>
          rw [copyName]
          split_ifs
          · exact Nat.zero_le _
          · exact Nat.succ_le_succ (ih room)

/-- A word followed by a space, or by the end of the line. -/
theorem copyName_word {word rest : List UInt8} {room : Nat} (hspace : ∀ c ∈ word, c ≠ 0x20)
    (hroom : word.length ≤ room) (hrest : rest = [] ∨ rest.head? = some 0x20) :
    copyName (word ++ rest) room = (word, rest) := by
  induction word generalizing room with
  | nil =>
      rcases rest with - | ⟨c, rest⟩
      · rfl
      · obtain rfl : c = 0x20 := by simpa using hrest
        cases room <;> rfl
  | cons c word ih =>
      obtain ⟨room, rfl⟩ : ∃ n, room = n + 1 := ⟨room - 1, by simp at hroom; omega⟩
      rw [List.cons_append, copyName, if_neg (hspace c List.mem_cons_self),
        ih (fun b hb => hspace b (List.mem_cons_of_mem _ hb)) (by simpa using hroom)]

theorem skipSpaces_word {word : List UInt8} (hword : word ≠ []) (hspace : ∀ c ∈ word, c ≠ 0x20)
    (rest : List UInt8) : skipSpaces (word ++ rest) = word ++ rest := by
  obtain ⟨c, word, rfl⟩ := List.exists_cons_of_ne_nil hword
  have hc := hspace c List.mem_cons_self
  rw [skipSpaces, List.cons_append, List.dropWhile_cons_of_neg (by simpa using hc)]

variable {src dst args : CString}

/-- Every two names that fit, without spaces, can be given. -/
theorem moveNames_pair (hsrc : src.bytes ≠ []) (hdst : dst.bytes ≠ [])
    (hsrcSpace : ∀ c ∈ src.bytes, c ≠ 0x20) (hdstSpace : ∀ c ∈ dst.bytes, c ≠ 0x20)
    (hsrcFits : src.bytes.length ≤ 63) (hdstFits : dst.bytes.length ≤ 63)
    (hargs : args.bytes = src.bytes ++ 0x20 :: dst.bytes) :
    moveNames args = some (src, dst) := by
  have hskip : skipSpaces (0x20 :: dst.bytes) = dst.bytes := by
    have hdst' := skipSpaces_word hdst hdstSpace []
    rw [List.append_nil] at hdst'
    exact (List.dropWhile_cons_of_pos rfl).trans hdst'
  have hword := copyName_word hdstSpace hdstFits (Or.inl rfl)
  rw [List.append_nil] at hword
  rw [moveNames, hargs, skipSpaces_word hsrc hsrcSpace]
  dsimp only
  rw [copyName_word hsrcSpace hsrcFits (Or.inr rfl)]
  dsimp only
  rw [hskip, if_neg (not_or.2 ⟨hsrc, hdst⟩), hword]
  exact congrArg some (Prod.ext (CString.ext (CString.ofBuffer_bytes _ src.noNul))
    (CString.ext (CString.ofBuffer_bytes _ dst.noNul)))

theorem moveNames_fits (hnames : moveNames args = some (src, dst)) :
    dst.bytes.length ≤ 63 := by
  rw [moveNames] at hnames
  dsimp only at hnames
  split_ifs at hnames
  obtain ⟨-, rfl⟩ := Prod.mk.inj (Option.some.inj hnames)
  exact (List.takeWhile_sublist _).length_le.trans (copyName_length _ 63)

/-! ## What becomes of the file -/

variable {t : Tmpfs} {c : List UInt8}

/-- With a buffer, the source is deleted after the write, whether or not there
was room for the destination. -/
theorem cmdMv_cases (hsound : TmpfsSound t) (hnames : moveNames args = some (src, dst))
    (hcontent : t.content src = some c) :
    ∃ written, cmdMv false args t = some (.moved src dst, (tmpfsDelete src written).2) ∧
      ((t.contents dst ≠ [] ∨ t.fileCount < 32) ∧
        Replaces t written dst (c :: (t.contents dst).tail) ∨
      (t.contents dst = [] ∧ 32 ≤ t.fileCount) ∧ written = t) := by
  have hlength := content_length_le hsound hcontent
  have hread : tmpfsRead src tmpfsDataSize t = ((c.length : Int), c) := by
    rw [tmpfsRead_eq, hcontent]
    simp only [tmpfsDataSize, Nat.min_eq_left hlength, List.take_of_length_le hlength]
  have hmove {ret : Int} {written : Tmpfs}
      (hwrite : tmpfsWrite dst (Memory.storeList (fun _ => 0) 0 c) c.length t =
        some (ret, written)) :
      cmdMv false args t = some (.moved src dst, (tmpfsDelete src written).2) := by
    rw [cmdMv, hnames]
    dsimp only
    rw [if_neg Bool.false_ne_true, hread]
    dsimp only
    rw [if_neg (by omega), Int.toNat_natCast, hwrite]
    rfl
  by_cases hroom : t.contents dst ≠ [] ∨ t.fileCount < 32
  · obtain ⟨written, hwrite, hreplaces⟩ := tmpfsWrite_replaces hsound (moveNames_fits hnames) hroom
      (Memory.storeList (fun _ => 0) 0 c) c.length
    rw [Nat.min_eq_left hlength, Memory.loadList_storeList_same] at hreplaces
    exact ⟨written, hmove hwrite, Or.inl ⟨hroom, hreplaces⟩⟩
  · have habsent := not_not.1 (not_or.1 hroom).1
    have hfull := not_lt.1 (not_or.1 hroom).2
    exact ⟨t, hmove (tmpfsWrite_full habsent hfull _ _), Or.inr ⟨⟨habsent, hfull⟩, rfl⟩⟩

/-- In every state that `tmpfs` can be in, `mv` keeps the file exactly when there
is no memory for it, or the names differ and the destination exists or has a free
slot, or a second file under the name of the source has the same content. -/
theorem mv_keeps_file_iff (hreach : RunsTo stepTmpfs tmpfsInit t)
    (hnames : moveNames args = some (src, dst)) (hcontent : t.content src = some c)
    (kmallocFails : Bool) :
    (∃ message t', cmdMv kmallocFails args t = some (message, t') ∧
      (t'.content dst = some c ∨ t'.content src = some c)) ↔
    kmallocFails = true ∨ (src ≠ dst ∧ (t.content dst ≠ none ∨ t.fileCount < 32)) ∨
      (t.contents src)[1]? = some c := by
  have hsound := TmpfsSound.of_runsTo hreach
  cases kmallocFails with
  | true =>
      refine iff_of_true ⟨.outOfMemory, t, ?_, Or.inr hcontent⟩ (Or.inl rfl)
      rw [cmdMv, hnames]
      rfl
  | false =>
      obtain ⟨written, hmove, hwritten⟩ := cmdMv_cases hsound hnames hcontent
      have hiff : (∃ message t', cmdMv false args t = some (message, t') ∧
          (t'.content dst = some c ∨ t'.content src = some c)) ↔
          (tmpfsDelete src written).2.content dst = some c ∨
            (tmpfsDelete src written).2.content src = some c := by
        rw [hmove]
        simp
      rw [hiff]
      rcases hwritten with ⟨hroom, hreplaces⟩ | ⟨⟨habsent, hfull⟩, rfl⟩
      · have hdeleted := tmpfsDelete_replaces hreplaces.sound src
        by_cases hsame : src = dst
        · subst hsame
          rw [or_self, content_eq_head?, hdeleted.same, hreplaces.same, List.tail_cons,
            List.head?_tail]
          simp
        · refine iff_of_true (Or.inl ?_) (Or.inr (Or.inl ⟨hsame, ?_⟩))
          · rw [content_eq_head?, hdeleted.other dst (Ne.symm hsame), hreplaces.same]
            rfl
          · exact hroom.imp_left (mt content_eq_none_iff.1)
      · have hdeleted := tmpfsDelete_replaces hsound src
        have hne : dst ≠ src := by
          rintro rfl
          rw [content_eq_none_iff.2 habsent] at hcontent
          exact absurd hcontent (Option.some_ne_none c).symm
        have hdst : (tmpfsDelete src written).2.content dst = none := by
          rw [content_eq_none_iff, hdeleted.other dst hne, habsent]
        rw [hdst, content_eq_head?, hdeleted.same, List.head?_tail, content_eq_none_iff.2 habsent]
        simp [not_lt.2 hfull]

theorem mv_keeps_file_to_new_name :
    ∃ t c message t', RunsTo stepTmpfs tmpfsInit t ∧ t.content ⟨[0x61], by simp⟩ = some c ∧
      cmdMv false ⟨[0x61, 0x20, 0x62], by simp⟩ t = some (message, t') ∧
      (t'.content ⟨[0x62], by simp⟩ = some c ∨ t'.content ⟨[0x61], by simp⟩ = some c) := by
  obtain ⟨t, hreach, hcount, hcontents⟩ := exists_one_file
  have hcontent : t.content ⟨[0x61], by simp⟩ = some [7] := by
    rw [content_eq_head?, hcontents]
    rfl
  have hnames : moveNames ⟨[0x61, 0x20, 0x62], by simp⟩ =
      some (⟨[0x61], by simp⟩, ⟨[0x62], by simp⟩) :=
    moveNames_pair (by simp) (by simp) (by simp) (by simp) (by simp) (by simp) rfl
  obtain ⟨message, t', hmove, hkept⟩ :=
    (mv_keeps_file_iff hreach hnames hcontent false).2 (Or.inr (Or.inl ⟨by simp, Or.inr hcount⟩))
  exact ⟨t, [7], message, t', hreach, hcontent, hmove, hkept⟩

/-- `mv a a` reports the move and deletes the file. -/
theorem mv_to_itself_deletes :
    ∃ t t', RunsTo stepTmpfs tmpfsInit t ∧ t.content ⟨[0x61], by simp⟩ = some [7] ∧
      moveNames ⟨[0x61, 0x20, 0x61], by simp⟩ = some (⟨[0x61], by simp⟩, ⟨[0x61], by simp⟩) ∧
      cmdMv false ⟨[0x61, 0x20, 0x61], by simp⟩ t =
        some (.moved ⟨[0x61], by simp⟩ ⟨[0x61], by simp⟩, t') ∧
      t'.content ⟨[0x61], by simp⟩ = none := by
  obtain ⟨t, hreach, -, hcontents⟩ := exists_one_file
  have hcontent : t.content ⟨[0x61], by simp⟩ = some [7] := by
    rw [content_eq_head?, hcontents]
    rfl
  have hnames : moveNames ⟨[0x61, 0x20, 0x61], by simp⟩ =
      some (⟨[0x61], by simp⟩, ⟨[0x61], by simp⟩) :=
    moveNames_pair (by simp) (by simp) (by simp) (by simp) (by simp) (by simp) rfl
  obtain ⟨written, hmove, ⟨-, hreplaces⟩ | ⟨⟨habsent, -⟩, -⟩⟩ :=
    cmdMv_cases (TmpfsSound.of_runsTo hreach) hnames hcontent
  · refine ⟨t, _, hreach, hcontent, hnames, hmove, ?_⟩
    rw [content_eq_none_iff, (tmpfsDelete_replaces hreplaces.sound _).same, hreplaces.same,
      List.tail_cons, hcontents]
    rfl
  · rw [hcontents] at habsent
    exact absurd habsent (List.cons_ne_nil _ _)

end Dosfs
