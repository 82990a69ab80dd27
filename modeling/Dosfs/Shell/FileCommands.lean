import Dosfs.Foundation.Calls
import Dosfs.Shell.Commands

/-!
# The file commands of the shell

A translation of `cmd_touch`, `cmd_write_file`, `cmd_cat`, `cmd_rm` and `cmd_cp` of
`shell/shell.c`, each a program over the calls of `tmpfs`. Together with `cmd_mv` they are
commands on a finite map from names to contents.
-/

namespace Dosfs

open Foundation

/-- A program over the calls of `tmpfs`, with their return values and the bytes they read. -/
abbrev FileM := Calls TmpfsOp (Int × List UInt8)

/-- What the commands print. -/
inductive FileMessage
  | usage (fn : ShellFn)
  | outOfMemory
  | created (name : CString)
  | errorCreating
  | wrote (count : Nat) (name : CString)
  | contents (text : List UInt8)
  | fileNotFound (name : CString)
  | deleted (name : CString)
  | notFound (name : CString)
  | sourceNotFound (src : CString)
  | copied (src dst : CString) (count : Int)
  | moved (src dst : CString)
  deriving DecidableEq

/-! ## The commands -/

/-- The argument of `touch`, `cat` and `rm`: the rest of the line. -/
def nameArg (args : CString) : CString := CString.ofBuffer (skipSpaces args.bytes)

def cmdTouch (args : CString) : FileM FileMessage := do
  let name := nameArg args
  if name.bytes = [] then return .usage .touch
  let (ret, _) ← Calls.ask (.create name)
  if ret = 0 then return .created name
  return .errorCreating

/-- The name and the data that `cmd_write_file` takes from its arguments. -/
def writeArgs (args : CString) : Option (CString × List UInt8) :=
  let (name, args) := copyName (skipSpaces args.bytes) 63
  let args := skipSpaces args
  if name = [] ∨ args = [] then none
  else some (CString.ofBuffer name, args)

def cmdWriteFile (args : CString) : FileM FileMessage :=
  match writeArgs args with
  | none => return .usage .writeFile
  | some (name, data) => do
      let _ ← Calls.ask (.write name (Memory.storeList (fun _ => 0) 0 data) data.length)
      return .wrote data.length name

def cmdCat (kmallocFails : Bool) (args : CString) : FileM FileMessage := do
  let name := nameArg args
  if name.bytes = [] then return .usage .cat
  if kmallocFails then return .outOfMemory
  let (len, buf) ← Calls.ask (.read name tmpfsDataSize)
  if len < 0 then return .fileNotFound name
  -- the buffer is printed up to its first NUL
  return .contents (CString.ofBuffer buf).bytes

def cmdRm (args : CString) : FileM FileMessage := do
  let name := nameArg args
  if name.bytes = [] then return .usage .rm
  let (ret, _) ← Calls.ask (.delete name)
  if ret = 0 then return .deleted name
  return .notFound name

def cmdCp (kmallocFails : Bool) (args : CString) : FileM FileMessage :=
  match moveNames args with
  | none => return .usage .cp
  | some (src, dst) => do
      if kmallocFails then return .outOfMemory
      let (len, buf) ← Calls.ask (.read src tmpfsDataSize)
      if len < 0 then return .sourceNotFound src
      let _ ← Calls.ask (.write dst (Memory.storeList (fun _ => 0) 0 buf) len.toNat)
      return .copied src dst len

/-- `cmd_mv` as a program; see `cmdMv`. -/
def mvCalls (kmallocFails : Bool) (args : CString) : FileM FileMessage :=
  match moveNames args with
  | none => return .usage .mv
  | some (src, dst) => do
      if kmallocFails then return .outOfMemory
      let (len, buf) ← Calls.ask (.read src tmpfsDataSize)
      if len < 0 then return .sourceNotFound src
      let _ ← Calls.ask (.write dst (Memory.storeList (fun _ => 0) 0 buf) len.toNat)
      let _ ← Calls.ask (.delete src)
      return .moved src dst

def MvMessage.fileMessage : MvMessage → FileMessage
  | .usage => .usage .mv
  | .outOfMemory => .outOfMemory
  | .sourceNotFound src => .sourceNotFound src
  | .moved src dst => .moved src dst

/-- The two forms of `cmd_mv` are the same. -/
theorem mvCalls_run (kmallocFails : Bool) (args : CString) (t : Tmpfs) :
    (mvCalls kmallocFails args).run stepTmpfs t =
      (cmdMv kmallocFails args t).map fun r => (r.1.fileMessage, r.2) := by
  rw [mvCalls, cmdMv]
  cases moveNames args with
  | none => rfl
  | some names =>
      obtain ⟨src, dst⟩ := names
      cases kmallocFails with
      | true => rfl
      | false =>
          simp only [Bool.false_eq_true, if_false, Calls.run_ask_bind, stepTmpfs,
            Option.bind_some]
          generalize tmpfsRead src tmpfsDataSize t = read
          obtain ⟨len, buf⟩ := read
          dsimp only
          split
          · rfl
          · simp only [Calls.run_ask_bind, stepTmpfs, Option.bind_map]
            cases tmpfsWrite dst (Memory.storeList (fun _ => 0) 0 buf) len.toNat t with
            | none => rfl
            | some written => rfl

/-- The programs by the functions of the command table. -/
def fileCommand : ShellFn → Option (Bool → CString → FileM FileMessage)
  | .touch => some fun _ => cmdTouch
  | .writeFile => some fun _ => cmdWriteFile
  | .cat => some cmdCat
  | .rm => some fun _ => cmdRm
  | .cp => some cmdCp
  | .mv => some mvCalls
  | _ => none

/-- A line, and whether `kmalloc` fails meanwhile. Lines with other commands do nothing to the
files here. -/
def runLine {σ : Type} (step : TmpfsOp → σ → Option ((Int × List UInt8) × σ))
    (line : List UInt8 × Bool) (s : σ) : Option (Option FileMessage × σ) :=
  let (fn, args) := findCommand (skipSpaces line.1)
  match fileCommand fn with
  | some command =>
      ((command line.2 (CString.ofBuffer args)).run step s).map fun r => (some r.1, r.2)
  | none => some (none, s)

/-! ## What they are for -/

/-- There is a file of this name, or room for one. -/
def HasRoom (name : CString) (m : FileMap) : Prop := name ∈ m ∨ m.keys.card < 32

instance (name : CString) (m : FileMap) : Decidable (HasRoom name m) :=
  inferInstanceAs (Decidable (_ ∨ _))

/-- Store a file when there is room for it. -/
def FileMap.put (m : FileMap) (name : CString) (content : List UInt8) : FileMap :=
  if HasRoom name m then m.insert name content else m

/-- `touch` keeps what is there; the others that store a file report it whether or not there
was room. -/
def fileSpec (kmallocFails : Bool) (args : CString) (m : FileMap) :
    ShellFn → Option (FileMessage × FileMap)
  | .touch =>
      let name := nameArg args
      if name.bytes = [] then some (.usage .touch, m)
      else if name ∈ m then some (.created name, m)
      else if m.keys.card < 32 then some (.created name, m.insert name [])
      else some (.errorCreating, m)
  | .writeFile =>
      match writeArgs args with
      | none => some (.usage .writeFile, m)
      | some (name, data) => some (.wrote data.length name, m.put name (data.take 4096))
  | .cat =>
      let name := nameArg args
      if name.bytes = [] then some (.usage .cat, m)
      else if kmallocFails then some (.outOfMemory, m)
      else match m.lookup name with
        | none => some (.fileNotFound name, m)
        | some content => some (.contents (CString.ofBuffer content).bytes, m)
  | .rm =>
      let name := nameArg args
      if name.bytes = [] then some (.usage .rm, m)
      else if name ∈ m then some (.deleted name, m.erase name)
      else some (.notFound name, m)
  | .cp =>
      match moveNames args with
      | none => some (.usage .cp, m)
      | some (src, dst) =>
          if kmallocFails then some (.outOfMemory, m)
          else match m.lookup src with
            | none => some (.sourceNotFound src, m)
            | some content => some (.copied src dst content.length, m.put dst content)
  | .mv =>
      match moveNames args with
      | none => some (.usage .mv, m)
      | some (src, dst) =>
          if kmallocFails then some (.outOfMemory, m)
          else match m.lookup src with
            | none => some (.sourceNotFound src, m)
            | some content => some (.moved src dst, (m.put dst content).erase src)
  | _ => none

def specLine (line : List UInt8 × Bool) (m : FileMap) : Option (Option FileMessage × FileMap) :=
  let (fn, args) := findCommand (skipSpaces line.1)
  match fileSpec line.2 (CString.ofBuffer args) m fn with
  | some (message, m) => some (some message, m)
  | none => some (none, m)

/-! ## The commands on the map -/

/-- No file is too large. -/
def Small (m : FileMap) : Prop := ∀ name content, m.lookup name = some content →
  content.length ≤ 4096

section Spec

variable {m : FileMap} {args : CString} {kmallocFails : Bool}

theorem cmdTouch_spec :
    (cmdTouch args).run stepFiles m = fileSpec kmallocFails args m .touch := by
  rw [cmdTouch, fileSpec]
  dsimp only
  split
  · rfl
  · rw [Calls.run_ask_bind, stepFiles]
    split
    · rfl
    · split
      · rfl
      · rfl

theorem cmdRm_spec : (cmdRm args).run stepFiles m = fileSpec kmallocFails args m .rm := by
  rw [cmdRm, fileSpec]
  dsimp only
  split
  · rfl
  · rw [Calls.run_ask_bind, stepFiles]
    split
    · rfl
    · rfl

/-- A write answers, and puts the file into the map. -/
theorem stepFiles_write (name : CString) (data : Memory) (size : Nat) (m : FileMap) :
    ∃ r, stepFiles (.write name data size) m =
      some (r, m.put name (data.loadList 0 (min size 4096))) := by
  rw [stepFiles, FileMap.put]
  by_cases hroom : HasRoom name m
  · rw [if_pos hroom, if_pos (show name ∈ m ∨ m.keys.card < 32 from hroom)]
    exact ⟨_, rfl⟩
  · rw [if_neg hroom, if_neg (show ¬ (name ∈ m ∨ m.keys.card < 32) from hroom)]
    exact ⟨_, rfl⟩

theorem cmdWriteFile_spec :
    (cmdWriteFile args).run stepFiles m = fileSpec kmallocFails args m .writeFile := by
  rw [cmdWriteFile, fileSpec]
  cases writeArgs args with
  | none => rfl
  | some parsed =>
      obtain ⟨name, data⟩ := parsed
      dsimp only
      obtain ⟨r, hwrite⟩ := stepFiles_write name (Memory.storeList (fun _ => 0) 0 data)
        data.length m
      rw [Calls.run_ask_bind, hwrite, Nat.min_comm, ← Memory.loadList_take,
        Memory.loadList_storeList_same]
      rfl

/-- A read answers with the whole file. -/
theorem stepFiles_read (hsmall : Small m) (name : CString) :
    stepFiles (.read name tmpfsDataSize) m =
      some (match m.lookup name with
        | none => (-1, [])
        | some content => (content.length, content), m) := by
  rw [stepFiles]
  cases hlookup : m.lookup name with
  | none => rfl
  | some content =>
      have hlength := hsmall name content hlookup
      simp only [tmpfsDataSize, Nat.min_eq_left hlength, List.take_of_length_le hlength]

theorem cmdCat_spec (hsmall : Small m) :
    (cmdCat kmallocFails args).run stepFiles m = fileSpec kmallocFails args m .cat := by
  rw [cmdCat, fileSpec]
  dsimp only
  split
  · rfl
  · split
    · rfl
    · rw [Calls.run_ask_bind, stepFiles_read hsmall]
      cases m.lookup (nameArg args) with
      | none => rfl
      | some content =>
          have hlen : ¬ (content.length : Int) < 0 := by omega
          simp only [Option.bind_some, if_neg hlen]
          rfl

/-- A whole file is written. -/
theorem stepFiles_copy (dst : CString) {content : List UInt8} (hlength : content.length ≤ 4096)
    (m : FileMap) : ∃ r, stepFiles (.write dst (Memory.storeList (fun _ => 0) 0 content)
      (content.length : Int).toNat) m = some (r, m.put dst content) := by
  obtain ⟨r, hwrite⟩ := stepFiles_write dst (Memory.storeList (fun _ => 0) 0 content)
    content.length m
  refine ⟨r, ?_⟩
  rw [Int.toNat_natCast, hwrite, Nat.min_eq_left hlength, Memory.loadList_storeList_same]

theorem cmdCp_spec (hsmall : Small m) :
    (cmdCp kmallocFails args).run stepFiles m = fileSpec kmallocFails args m .cp := by
  rw [cmdCp, fileSpec]
  cases moveNames args with
  | none => rfl
  | some names =>
      obtain ⟨src, dst⟩ := names
      dsimp only
      split
      · rfl
      · rw [Calls.run_ask_bind, stepFiles_read hsmall]
        cases hlookup : m.lookup src with
        | none => rfl
        | some content =>
            have hlen : ¬ (content.length : Int) < 0 := by omega
            obtain ⟨r, hwrite⟩ := stepFiles_copy dst (hsmall src content hlookup) m
            simp only [Option.bind_some, if_neg hlen]
            rw [Calls.run_ask_bind, hwrite]
            rfl

theorem erase_of_notMem {name : CString} (h : name ∉ m) : m.erase name = m := by
  refine Finmap.ext_lookup fun other => ?_
  by_cases hother : other = name
  · rw [hother, Finmap.lookup_erase, Finmap.lookup_eq_none.mpr h]
  · rw [Finmap.lookup_erase_ne hother]

theorem stepFiles_delete (name : CString) (m : FileMap) :
    ∃ r, stepFiles (.delete name) m = some (r, m.erase name) := by
  rw [stepFiles]
  split
  next => exact ⟨_, rfl⟩
  next habsent => exact ⟨_, by rw [erase_of_notMem habsent]⟩

theorem mvCalls_spec (hsmall : Small m) :
    (mvCalls kmallocFails args).run stepFiles m = fileSpec kmallocFails args m .mv := by
  rw [mvCalls, fileSpec]
  cases moveNames args with
  | none => rfl
  | some names =>
      obtain ⟨src, dst⟩ := names
      dsimp only
      split
      · rfl
      · rw [Calls.run_ask_bind, stepFiles_read hsmall]
        cases hlookup : m.lookup src with
        | none => rfl
        | some content =>
            have hlen : ¬ (content.length : Int) < 0 := by omega
            obtain ⟨r, hwrite⟩ := stepFiles_copy dst (hsmall src content hlookup) m
            simp only [Option.bind_some, if_neg hlen]
            rw [Calls.run_ask_bind, hwrite]
            simp only [Option.bind_some]
            obtain ⟨r', hdelete⟩ := stepFiles_delete src (m.put dst content)
            rw [Calls.run_ask_bind, hdelete]
            rfl

/-- Each program does to the map what its command is for. -/
theorem fileCommand_spec (hsmall : Small m) (kmallocFails : Bool) (args : CString) (fn : ShellFn) :
    (fileCommand fn).bind (fun command => (command kmallocFails args).run stepFiles m) =
      fileSpec kmallocFails args m fn := by
  cases fn with
  | touch => exact cmdTouch_spec
  | writeFile => exact cmdWriteFile_spec
  | cat => exact cmdCat_spec hsmall
  | rm => exact cmdRm_spec
  | cp => exact cmdCp_spec hsmall
  | mv => exact mvCalls_spec hsmall
  | _ => rfl

end Spec

/-! ## The commands on the slots -/

/-- A name under which a file is stored has at most 63 bytes. -/
def ShortName : TmpfsOp → Prop
  | .create name | .write name _ _ => name.bytes.length ≤ 63
  | _ => True

theorem stepTmpfs_short {t : Tmpfs} {m : FileMap} (hinv : TmpfsInv t m) {op : TmpfsOp}
    (hshort : ShortName op) : TmpfsRefines op t m := by
  cases op with
  | create name => exact tmpfsCreate_refines hinv hshort
  | write name data size => exact tmpfsWrite_refines hinv hshort data size
  | read name maxSize => exact tmpfsRead_refines hinv maxSize
  | delete name => exact tmpfsDelete_refines hinv
  | queryExists name => exact tmpfsExists_refines hinv

theorem TmpfsInv.small {t : Tmpfs} {m : FileMap} (hinv : TmpfsInv t m) : Small m := by
  intro name content hlookup
  obtain ⟨i, hentry⟩ := (hinv.represents.lookup name content).1 hlookup
  obtain ⟨-, -, rfl⟩ := entries_eq_some.1 hentry
  rw [Memory.loadList_length]
  exact hinv.size i

theorem writeArgs_fits {args name : CString} {data : List UInt8}
    (h : writeArgs args = some (name, data)) : name.bytes.length ≤ 63 := by
  rw [writeArgs] at h
  dsimp only at h
  split at h
  · exact absurd h (Option.some_ne_none _).symm
  · obtain ⟨rfl, -⟩ := Prod.mk.inj (Option.some.inj h)
    exact (List.takeWhile_sublist _).length_le.trans (copyName_length _ 63)

/-- The name that `touch` is given fits; the other commands cut the names that they store
under. -/
def TouchFits (fn : ShellFn) (args : CString) : Prop :=
  fn = .touch → (nameArg args).bytes.length ≤ 63

theorem fileCommand_uses {fn : ShellFn} {args : CString} (hfits : TouchFits fn args)
    (kmallocFails : Bool) {command : Bool → CString → FileM FileMessage}
    (hcommand : fileCommand fn = some command) :
    Calls.Uses ShortName (command kmallocFails args) := by
  have hdone (message : FileMessage) : Calls.Uses ShortName (pure message : FileM FileMessage) :=
    .done message
  have hif {c : Prop} [Decidable c] {p q : FileM FileMessage} (hp : Calls.Uses ShortName p)
      (hq : Calls.Uses ShortName q) : Calls.Uses ShortName (if c then p else q) := by
    split
    · exact hp
    · exact hq
  cases fn with
  | touch =>
      obtain rfl := Option.some.inj hcommand
      refine hif (hdone _) (.ask_bind (hfits rfl) fun r => hif (hdone _) (hdone _))
  | writeFile =>
      obtain rfl := Option.some.inj hcommand
      change Calls.Uses ShortName (cmdWriteFile args)
      rw [cmdWriteFile]
      cases hargs : writeArgs args with
      | none => exact hdone _
      | some parsed => exact .ask_bind (writeArgs_fits hargs) fun r => hdone _
  | cat =>
      obtain rfl := Option.some.inj hcommand
      exact hif (hdone _) (hif (hdone _) (.ask_bind trivial fun r => hif (hdone _) (hdone _)))
  | rm =>
      obtain rfl := Option.some.inj hcommand
      exact hif (hdone _) (.ask_bind trivial fun r => hif (hdone _) (hdone _))
  | cp =>
      obtain rfl := Option.some.inj hcommand
      rw [cmdCp]
      cases hnames : moveNames args with
      | none => exact hdone _
      | some names =>
          exact hif (hdone _) (.ask_bind trivial fun r => hif (hdone _)
            (.ask_bind (moveNames_fits hnames) fun r => hdone _))
  | mv =>
      obtain rfl := Option.some.inj hcommand
      rw [mvCalls]
      cases hnames : moveNames args with
      | none => exact hdone _
      | some names =>
          exact hif (hdone _) (.ask_bind trivial fun r => hif (hdone _)
            (.ask_bind (moveNames_fits hnames) fun r => .ask_bind trivial fun r => hdone _))
  | _ => exact absurd hcommand (Option.some_ne_none _).symm

/-- The line gives `touch` a name that fits, if it calls `touch`. -/
def LineFits (line : List UInt8 × Bool) : Prop :=
  TouchFits (findCommand (skipSpaces line.1)).1
    (CString.ofBuffer (findCommand (skipSpaces line.1)).2)

/-- One line. -/
theorem runLine_refines {t : Tmpfs} {m : FileMap} (hinv : TmpfsInv t m)
    {line : List UInt8 × Bool} (hfits : LineFits line) :
    ∃ message t' m', runLine stepTmpfs line t = some (message, t') ∧
      specLine line m = some (message, m') ∧ TmpfsInv t' m' := by
  rw [runLine, specLine]
  rw [LineFits] at hfits
  generalize findCommand (skipSpaces line.1) = found at hfits
  obtain ⟨fn, args⟩ := found
  dsimp only at hfits ⊢
  have hspec := fileCommand_spec hinv.small line.2 (CString.ofBuffer args) fn
  cases hcommand : fileCommand fn with
  | none =>
      rw [hcommand] at hspec
      rw [← hspec]
      exact ⟨none, t, m, rfl, rfl, hinv⟩
  | some command =>
      have hstep (op : TmpfsOp) (hop : ShortName op) (t : Tmpfs) (m : FileMap)
          (hinv : TmpfsInv t m) : TmpfsRefines op t m := stepTmpfs_short hinv hop
      obtain ⟨message, t', m', ht, hm, hinv'⟩ :=
        (fileCommand_uses hfits line.2 hcommand).run_simulates hstep hinv
      rw [hcommand, Option.bind_some, hm] at hspec
      rw [← hspec]
      exact ⟨some message, t', m', by simp [ht], rfl, hinv'⟩

/-- In every session, with memory running out at any time, the file commands of the shell
print and do what they are for on a finite map from names to contents. -/
theorem file_commands_refine {lines : List (List UInt8 × Bool)}
    (hfits : ∀ line ∈ lines, LineFits line) :
    ∃ messages t m, runAll (runLine stepTmpfs) lines tmpfsInit = some (messages, t) ∧
      runAll specLine lines ∅ = some (messages, m) ∧ TmpfsInv t m := by
  refine runAll_simulates TmpfsInv lines (fun line hline t m hinv => ?_) tmpfsInit_inv
  exact runLine_refines hinv (hfits line hline)

/-- `touch a`, and then `cp a b` without memory. -/
theorem file_commands_refine_two :
    ∃ messages t m,
      runAll (runLine stepTmpfs) [(ascii ['t', 'o', 'u', 'c', 'h', ' ', 'a'], false),
        (ascii ['c', 'p', ' ', 'a', ' ', 'b'], true)] tmpfsInit = some (messages, t) ∧
      runAll specLine [(ascii ['t', 'o', 'u', 'c', 'h', ' ', 'a'], false),
        (ascii ['c', 'p', ' ', 'a', ' ', 'b'], true)] ∅ = some (messages, m) ∧ TmpfsInv t m := by
  refine file_commands_refine fun line hline => ?_
  have hall : ∀ line ∈ [(ascii ['t', 'o', 'u', 'c', 'h', ' ', 'a'], false),
      (ascii ['c', 'p', ' ', 'a', ' ', 'b'], true)],
      (nameArg (CString.ofBuffer (findCommand (skipSpaces line.1)).2)).bytes.length ≤ 63 := by
    decide
  exact fun _ => hall line hline

end Dosfs
