import Dosfs.Drivers.KeyboardBuffer
import Dosfs.Drivers.VgaLine
import Dosfs.Shell.Commands

/-!
# The command line

A translation of `shell_run` of `shell/shell.c`: the loop that reads characters, edits the
line in `cmd_buf` and hands it to `process_command`. What is executed are the lines that were
typed, and the history is the last twenty of them. Some commands read the keyboard as well,
and what they read is lost to the loop.
-/

namespace Dosfs

open Foundation

def cmdBufSize : Nat := 256

/-- The static variables of the shell. Beside them the bytes that the loop has handed to
`vga_putchar` since it showed the prompt, the lines handed to `process_command`, and what they
came to. -/
structure Shell where
  cmdBuf : Memory
  cmdLen : Nat
  echo : List UInt8
  submitted : List (List UInt8)
  results : List CommandResult
  state : ShellState

/-- `shell_init` -/
def shellInit (cpu : CpuSim) : Shell := ⟨fun _ => 0, 0, [], [], [], ⟨[], cpu⟩⟩

/-- The commands that read the keyboard themselves. -/
def ShellFn.readsKeys : ShellFn → Bool
  | .tuiTest | .curl | .dano => true
  | _ => false

/-- `process_command(cmd_buf)`. A command that reads the keyboard makes the calls `asked`. -/
def Shell.execute (asked : List KeyCall) (w : World Keyboard UInt8) (s : Shell) :
    Option (List KeyAnswer × World Keyboard UInt8 × Shell) := do
  let cmd := (CString.ofBuffer (s.cmdBuf.loadList 0 cmdBufSize)).bytes
  let (result, state) := processCommand cmd s.state
  let calls := if (findCommand (skipSpaces cmd)).1.readsKeys then asked else []
  let (answers, w) ← runAll KeyCall.run calls w
  return (answers, w, { s with
    submitted := s.submitted ++ [cmd]
    results := s.results ++ [result]
    state })

/-- A key that does not end the line. -/
def Shell.edit (s : Shell) (c : UInt8) : Shell :=
  if c = 0x08 then
    if 0 < s.cmdLen then
      { s with
        cmdLen := s.cmdLen - 1
        cmdBuf := s.cmdBuf.storeByte (s.cmdLen - 1) 0
        echo := s.echo ++ [0x08] }
    else s
  else if s.cmdLen < cmdBufSize - 1 then
    { s with
      cmdBuf := s.cmdBuf.storeByte s.cmdLen c
      cmdLen := s.cmdLen + 1
      echo := s.echo ++ [c] }
  else s

/-- The body of the loop of `shell_run`, once it has read a character. -/
def shellKey (asked : List KeyCall) (w : World Keyboard UInt8) (s : Shell) (c : UInt8) :
    Option (List KeyAnswer × World Keyboard UInt8 × Shell) :=
  if c = 0x0A then do
    let s := { s with cmdBuf := s.cmdBuf.storeByte s.cmdLen 0 }
    let (answers, w, s) ← if 0 < s.cmdLen then s.execute asked w else some ([], w, s)
    -- the prompt is shown
    return (answers, w, { s with
      cmdLen := 0
      cmdBuf := memset s.cmdBuf 0 0 cmdBufSize
      echo := [] })
  else some ([], w, s.edit c)

/-- A turn of the loop, with the character that it reads and what a command is answered. -/
def shellTurn (asked : List KeyCall) (ws : World Keyboard UInt8 × Shell) :
    Option ((UInt8 × List KeyAnswer) × World Keyboard UInt8 × Shell) := do
  let (c, w) ← keyboardGetchar ws.1
  let (answers, ws) ← shellKey asked w ws.2 c
  return ((c, answers), ws)

/-- `shell_run`, for so many turns; `none` while it waits for a character, or a command does. -/
def shellRun (asked : List (List KeyCall)) (w : World Keyboard UInt8) (s : Shell) :
    Option (List (UInt8 × List KeyAnswer) × World Keyboard UInt8 × Shell) :=
  runAll shellTurn asked (w, s)

/-- What the keyboard has answered, to the loop and to the commands. -/
def keyAnswers (turns : List (UInt8 × List KeyAnswer)) : List KeyAnswer :=
  turns.flatMap fun turn => .char turn.1 :: turn.2

/-! ## Editing a line -/

/-- What a key does to the line. -/
def editLine (line : List UInt8) (c : UInt8) : List UInt8 :=
  if c = 0x08 then line.dropLast
  else if line.length < 255 then line ++ [c]
  else line

/-- The lines that are submitted, and the line that is being edited. -/
def editLines : List UInt8 → List UInt8 → List (List UInt8) × List UInt8
  | line, [] => ([], line)
  | line, c :: text =>
      if c = 0x0A then
        let rest := editLines [] text
        (if line = [] then rest.1 else line :: rest.1, rest.2)
      else editLines (editLine line c) text

/-- The line that is being edited is in the buffer, with NULs behind it, and what was printed
since the prompt leaves it on the screen. -/
structure Editing (s : Shell) (line : List UInt8) : Prop where
  cmdLen : s.cmdLen = line.length
  fits : line.length ≤ 255
  cmdBuf : ∀ i < cmdBufSize, s.cmdBuf i = line.getD i 0
  noNul : ∀ c ∈ line, c ≠ 0
  echo : LeavesLine s.echo line

theorem editing_init (cpu : CpuSim) : Editing (shellInit cpu) [] :=
  ⟨rfl, Nat.zero_le _, fun _ _ => rfl, fun _ h => absurd h List.not_mem_nil, .nil⟩

variable {s : Shell} {line : List UInt8}

/-- The string in the buffer is the line. -/
theorem Editing.string (h : Editing s line) :
    (CString.ofBuffer (s.cmdBuf.loadList 0 cmdBufSize)).bytes = line := by
  have hfits := h.fits
  have hlist : s.cmdBuf.loadList 0 cmdBufSize =
      line ++ List.replicate (cmdBufSize - line.length) 0 := by
    refine List.ext_getElem ?_ fun i hi _ => ?_
    · rw [Memory.loadList_length, List.length_append, List.length_replicate, cmdBufSize]
      omega
    · rw [Memory.loadList_length] at hi
      have hbyte := h.cmdBuf i hi
      simp only [Memory.loadList, List.getElem_map, List.getElem_range, Nat.zero_add]
      rw [hbyte, List.getElem_append]
      split
      next hlt => rw [List.getD_eq_getElem _ _ hlt]
      next hge => rw [List.getElem_replicate, List.getD_eq_default _ _ (by omega)]
  change List.takeWhile (· != 0) (s.cmdBuf.loadList 0 cmdBufSize) = line
  rw [hlist, List.takeWhile_append_of_pos fun c hc => by simpa using h.noNul c hc,
    List.takeWhile_replicate]
  exact List.append_nil line

/-- A backspace takes the last character away. -/
theorem Editing.erase (h : Editing s line) (hpos : 0 < s.cmdLen) :
    Editing { s with
      cmdLen := s.cmdLen - 1
      cmdBuf := s.cmdBuf.storeByte (s.cmdLen - 1) 0
      echo := s.echo ++ [0x08] } line.dropLast := by
  obtain ⟨hlen, hfits, hbuf, hnoNul, hecho⟩ := h
  have hne : line ≠ [] := List.length_pos_iff.mp (hlen ▸ hpos)
  have hlength : line.dropLast.length = line.length - 1 := List.length_dropLast
  refine ⟨?_, by omega, fun i hi => ?_, fun b hb => hnoNul b (List.mem_of_mem_dropLast hb),
    hecho.backspace hne⟩
  · change s.cmdLen - 1 = _
    rw [hlength, hlen]
  · change s.cmdBuf.storeByte (s.cmdLen - 1) 0 i = _
    by_cases hlast : i = s.cmdLen - 1
    · rw [hlast, Memory.storeByte_same, List.getD_eq_default _ _ (by omega)]
    · rw [Memory.storeByte_of_ne hlast, hbuf i hi]
      rcases Nat.lt_or_ge i (line.length - 1) with hlt | hge
      · rw [List.getD_eq_getElem _ _ (by omega), List.getD_eq_getElem _ _ (by omega),
          List.getElem_dropLast]
      · rw [List.getD_eq_default _ _ (by omega), List.getD_eq_default _ _ (by omega)]

/-- Another character is put behind the line while there is room. -/
theorem Editing.append (h : Editing s line) (hroom : s.cmdLen < 255) {c : UInt8} (hc : c ≠ 0)
    (hback : c ≠ 0x08) (hline : c ≠ 0x0A) :
    Editing { s with
      cmdBuf := s.cmdBuf.storeByte s.cmdLen c
      cmdLen := s.cmdLen + 1
      echo := s.echo ++ [c] } (line ++ [c]) := by
  obtain ⟨hlen, hfits, hbuf, hnoNul, hecho⟩ := h
  have hlength : (line ++ [c]).length = line.length + 1 := List.length_append
  refine ⟨?_, by omega, fun i hi => ?_, fun b hb => ?_, hecho.print (by omega) hback hline⟩
  · change s.cmdLen + 1 = _
    rw [hlength, hlen]
  · change s.cmdBuf.storeByte s.cmdLen c i = _
    rw [hlen]
    by_cases hlast : i = line.length
    · rw [hlast, Memory.storeByte_same, List.getD_eq_getElem _ _ (by omega),
        List.getElem_concat_length rfl]
    · rw [Memory.storeByte_of_ne hlast, hbuf i hi]
      rcases Nat.lt_or_ge i line.length with hlt | hge
      · rw [List.getD_append _ _ _ _ hlt]
      · rw [List.getD_eq_default _ _ hge, List.getD_eq_default _ _ (by omega)]
  · rcases List.mem_append.mp hb with hb | hb
    · exact hnoNul b hb
    · rw [List.mem_singleton.mp hb]
      exact hc

/-- A key that does not end the line. -/
theorem Editing.edit (h : Editing s line) {c : UInt8} (hc : c ≠ 0) (hline : c ≠ 0x0A) :
    Editing (s.edit c) (editLine line c) ∧
      (s.edit c).submitted = s.submitted ∧ (s.edit c).state = s.state := by
  have hlen := h.cmdLen
  rw [Shell.edit, editLine]
  split
  next hback =>
    split
    next hpos => exact ⟨h.erase hpos, rfl, rfl⟩
    next hzero =>
      have hnil : line = [] := List.eq_nil_of_length_eq_zero (by omega)
      subst hnil
      exact ⟨h, rfl, rfl⟩
  next hback =>
    rw [← hlen, cmdBufSize]
    split
    next hroom => exact ⟨h.append hroom hc hback hline, rfl, rfl⟩
    next => exact ⟨h, rfl, rfl⟩

/-- What `process_command` leaves of the shell. -/
theorem Editing.execute (h : Editing s line) {asked : List KeyCall} {w w' : World Keyboard UInt8}
    {answers : List KeyAnswer} {s' : Shell} (hrun : s.execute asked w = some (answers, w', s')) :
    (∃ calls, runAll KeyCall.run calls w = some (answers, w')) ∧
      s'.submitted = s.submitted ++ [line] ∧ s'.state = (processCommand line s.state).2 := by
  simp only [Shell.execute, Option.bind_eq_bind, Option.bind_eq_some_iff] at hrun
  rw [h.string] at hrun
  obtain ⟨⟨answers', w₁⟩, hreads, heq⟩ := hrun
  obtain ⟨hanswers, hrest⟩ := Prod.mk.inj (Option.some.inj heq)
  obtain ⟨hworld, hshell⟩ := Prod.mk.inj hrest
  subst hanswers hworld hshell
  exact ⟨⟨_, hreads⟩, rfl, rfl⟩

/-- The key that ends the line. -/
theorem Editing.submit (h : Editing s line) {asked : List KeyCall} {w w' : World Keyboard UInt8}
    {answers : List KeyAnswer} {s' : Shell}
    (hrun : shellKey asked w s 0x0A = some (answers, w', s')) :
    Editing s' [] ∧ (∃ calls, runAll KeyCall.run calls w = some (answers, w')) ∧
      (line = [] ∧ s'.submitted = s.submitted ∧ s'.state = s.state ∨
        line ≠ [] ∧ s'.submitted = s.submitted ++ [line] ∧
          s'.state = (processCommand line s.state).2) := by
  have hfits := h.fits
  have hlen := h.cmdLen
  have hended : Editing { s with cmdBuf := s.cmdBuf.storeByte s.cmdLen 0 } line := by
    refine ⟨hlen, hfits, fun i hi => ?_, h.noNul, h.echo⟩
    change s.cmdBuf.storeByte s.cmdLen 0 i = _
    by_cases hlast : i = s.cmdLen
    · rw [hlast, Memory.storeByte_same, List.getD_eq_default _ _ (by omega)]
    · rw [Memory.storeByte_of_ne hlast, h.cmdBuf i hi]
  have hzero (mem : Memory) (i : Nat) (hi : i < cmdBufSize) : memset mem 0 0 cmdBufSize i = 0 :=
    Memory.overwrite_of_mem (Nat.zero_le i) (by rw [Nat.zero_add]; exact hi)
  have hprompt (s : Shell) : Editing { s with
      cmdLen := 0, cmdBuf := memset s.cmdBuf 0 0 cmdBufSize, echo := [] } [] :=
    ⟨rfl, Nat.zero_le _, hzero s.cmdBuf, fun c hc => absurd hc List.not_mem_nil, .nil⟩
  rw [shellKey, if_pos rfl] at hrun
  dsimp only at hrun
  by_cases hnil : line = []
  · rw [if_neg (by rw [hlen, hnil]; decide)] at hrun
    obtain ⟨hanswers, hrest⟩ := Prod.mk.inj (Option.some.inj hrun)
    obtain ⟨hworld, hshell⟩ := Prod.mk.inj hrest
    subst hanswers hworld hshell
    exact ⟨hprompt _, ⟨[], rfl⟩, .inl ⟨hnil, rfl, rfl⟩⟩
  · rw [if_pos (by rw [hlen]; exact List.length_pos_iff.mpr hnil), Option.bind_eq_bind,
      Option.bind_eq_some_iff] at hrun
    obtain ⟨⟨answers', w₁, s₁⟩, hexecute, heq⟩ := hrun
    obtain ⟨hanswers, hrest⟩ := Prod.mk.inj (Option.some.inj heq)
    obtain ⟨hworld, hshell⟩ := Prod.mk.inj hrest
    subst hanswers hworld hshell
    obtain ⟨hreads, hsubmitted, hstate⟩ := hended.execute hexecute
    exact ⟨hprompt _, hreads, .inr ⟨hnil, hsubmitted, hstate⟩⟩

/-! ## The history -/

/-- The lines that are kept in the history: those that are not blank, without the spaces in
front of them. -/
def nonBlank (lines : List (List UInt8)) : List (List UInt8) :=
  (lines.map skipSpaces).filter (· ≠ [])

/-- The last twenty. -/
def lastTwenty (lines : List (List UInt8)) : List (List UInt8) := lines.drop (lines.length - 20)

theorem processCommand_history (cmd : List UInt8) (state : ShellState) :
    (processCommand cmd state).2.history =
      if skipSpaces cmd = [] then state.history
      else addToHistory (skipSpaces cmd) state.history := by
  rw [processCommand]
  dsimp only
  split
  · rfl
  · generalize findCommand (skipSpaces cmd) = found
    obtain ⟨fn, args⟩ := found
    cases fn <;> rfl

theorem addToHistory_lastTwenty {line : List UInt8} (hfits : line.length ≤ 255)
    (lines : List (List UInt8)) :
    addToHistory line (lastTwenty lines) = lastTwenty (lines ++ [line]) := by
  rw [addToHistory, List.take_of_length_le hfits, lastTwenty, lastTwenty, List.length_drop,
    List.length_append, List.length_singleton]
  split
  next hroom =>
    rw [show lines.length - 20 = 0 by omega, show lines.length + 1 - 20 = 0 by omega]
    rfl
  next hfull =>
    rw [List.drop_drop, List.drop_append_of_le_length (by omega),
      show lines.length - 20 + 1 = lines.length + 1 - 20 by omega]

/-- The history is what it should be. -/
def HistoryKept (s : Shell) : Prop := s.state.history = lastTwenty (nonBlank s.submitted)

theorem nonBlank_append (lines : List (List UInt8)) (line : List UInt8) :
    nonBlank (lines ++ [line]) =
      nonBlank lines ++ if skipSpaces line = [] then [] else [skipSpaces line] := by
  rw [nonBlank, List.map_append, List.filter_append, ← nonBlank]
  by_cases hblank : skipSpaces line = []
  · simp [hblank]
  · simp [hblank]

theorem HistoryKept.edit (h : HistoryKept s) (hline : Editing s line) {c : UInt8} (hc : c ≠ 0)
    (hend : c ≠ 0x0A) : HistoryKept (s.edit c) := by
  obtain ⟨-, hsubmitted, hstate⟩ := hline.edit hc hend
  rw [HistoryKept, hsubmitted, hstate]
  exact h

theorem HistoryKept.submit (h : HistoryKept s) {line : List UInt8} (hfits : line.length ≤ 255)
    {s' : Shell} (hsubmitted : s'.submitted = s.submitted ++ [line])
    (hstate : s'.state = (processCommand line s.state).2) : HistoryKept s' := by
  have hfits' : (skipSpaces line).length ≤ 255 :=
    (List.dropWhile_sublist _).length_le.trans hfits
  rw [HistoryKept, hsubmitted, hstate, processCommand_history, nonBlank_append, h]
  split
  · rw [List.append_nil]
  · exact addToHistory_lastTwenty hfits' _

/-! ## Runs -/

/-- One turn reads a character, and then what the command asks for. -/
theorem Reads.turn {ahead : List (List UInt8)} {answers read : List KeyAnswer}
    {w w' : World Keyboard UInt8} {s' : Shell} {asked : List KeyCall} {c : UInt8}
    (h : Reads ahead answers w) (hediting : Editing s line)
    (hturn : shellTurn asked (w, s) = some ((c, read), w', s')) :
    Reads ahead (answers ++ .char c :: read) w' ∧
      ∃ w₁, shellKey asked w₁ s c = some (read, w', s') := by
  simp only [shellTurn, Option.bind_eq_bind, Option.bind_eq_some_iff] at hturn
  obtain ⟨⟨c', w₁⟩, hgetchar, ⟨read', ws⟩, hkey, heq⟩ := hturn
  obtain ⟨hread, hrest⟩ := Prod.mk.inj (Option.some.inj heq)
  obtain ⟨hchar, hanswers⟩ := Prod.mk.inj hread
  subst hchar hanswers hrest
  have hcall : KeyCall.getchar.run w = some (.char c', w₁) := by
    rw [KeyCall.run, hgetchar]
    rfl
  refine ⟨?_, w₁, hkey⟩
  obtain ⟨calls, hcalls⟩ : ∃ calls, runAll KeyCall.run calls w₁ = some (read', w') := by
    by_cases hend : c' = 0x0A
    · subst hend
      exact (hediting.submit hkey).2.1
    · rw [shellKey, if_neg hend] at hkey
      obtain ⟨hnone, hrest⟩ := Prod.mk.inj (Option.some.inj hkey)
      obtain ⟨hworld, -⟩ := Prod.mk.inj hrest
      exact ⟨[], congrArg some (Prod.ext hnone hworld)⟩
  have hreads := (h.call hcall).run hcalls
  rwa [List.append_assoc] at hreads

/-- What has been read so far is in order, so that no character is the end of a string. -/
theorem Reads.char_ne_zero {ahead : List (List UInt8)} {answers : List KeyAnswer}
    {w : World Keyboard UInt8} (h : Reads ahead answers w) {c : UInt8}
    (hc : .char c ∈ answers) : c ≠ 0 := by
  obtain ⟨past, -, hdelivered⟩ := h
  refine characters_ne_zero .boot past.flatten c
    (hdelivered.chars.sublist.subset (List.mem_append_left _ ?_))
  exact List.mem_filterMap.mpr ⟨some c, List.mem_filterMap.mpr ⟨_, hc, rfl⟩, rfl⟩

/-- One turn ends the line or edits it. -/
theorem Editing.turn (h : Editing s line) (hkept : HistoryKept s) {asked : List KeyCall}
    {read : List KeyAnswer} {w w' : World Keyboard UInt8} {s' : Shell} {c : UInt8} (hc : c ≠ 0)
    (hkey : shellKey asked w s c = some (read, w', s')) :
    ∃ line', Editing s' line' ∧ HistoryKept s' ∧ ∃ ended, s'.submitted = s.submitted ++ ended ∧
      ∀ text, editLines line (c :: text) =
        (ended ++ (editLines line' text).1, (editLines line' text).2) := by
  by_cases hend : c = 0x0A
  · subst hend
    obtain ⟨hediting, -, ⟨hnil, hsubmitted, hstate⟩ | ⟨hnil, hsubmitted, hstate⟩⟩ := h.submit hkey
    · refine ⟨[], hediting, ?_, [], ?_, fun text => ?_⟩
      · rw [HistoryKept, hsubmitted, hstate]
        exact hkept
      · rw [hsubmitted, List.append_nil]
      · rw [editLines, if_pos rfl]
        dsimp only
        rw [if_pos hnil]
        rfl
    · refine ⟨[], hediting, hkept.submit h.fits hsubmitted hstate, [line], hsubmitted,
        fun text => ?_⟩
      rw [editLines, if_pos rfl]
      dsimp only
      rw [if_neg hnil]
      rfl
  · rw [shellKey, if_neg hend] at hkey
    obtain ⟨-, hrest⟩ := Prod.mk.inj (Option.some.inj hkey)
    obtain ⟨-, rfl⟩ := Prod.mk.inj hrest
    obtain ⟨hediting, hsubmitted, -⟩ := h.edit hc hend
    refine ⟨_, hediting, hkept.edit h hc hend, [], ?_, fun text => ?_⟩
    · rw [hsubmitted, List.append_nil]
    · rw [editLines, if_neg hend]
      rfl

/-- All turns. -/
theorem Editing.run {ahead : List (List UInt8)} {answers : List KeyAnswer}
    {w w' : World Keyboard UInt8} {s' : Shell} {asked : List (List KeyCall)}
    {turns : List (UInt8 × List KeyAnswer)} (h : Editing s line) (hkept : HistoryKept s)
    (hreads : Reads ahead answers w) (hrun : shellRun asked w s = some (turns, w', s')) :
    Reads ahead (answers ++ keyAnswers turns) w' ∧
      Editing s' (editLines line (turns.map Prod.fst)).2 ∧
      s'.submitted = s.submitted ++ (editLines line (turns.map Prod.fst)).1 ∧ HistoryKept s' := by
  induction asked generalizing s line answers w turns with
  | nil =>
      obtain ⟨rfl, heq⟩ := Prod.mk.inj (Option.some.inj hrun)
      obtain ⟨rfl, rfl⟩ := Prod.mk.inj heq
      refine ⟨?_, h, (List.append_nil _).symm, hkept⟩
      exact (List.append_nil answers).symm ▸ hreads
  | cons calls asked ih =>
      simp only [shellRun, runAll, Option.bind_eq_some_iff, Option.map_eq_some_iff] at hrun
      obtain ⟨⟨⟨c, read⟩, w₁, s₁⟩, hturn, ⟨turns', ws⟩, hrest, heq⟩ := hrun
      obtain ⟨hturns, hlast⟩ := Prod.mk.inj heq
      subst hturns hlast
      obtain ⟨hreads₁, w₀, hkey⟩ := hreads.turn h hturn
      have hc : c ≠ 0 := hreads₁.char_ne_zero (by simp)
      obtain ⟨line₁, hediting, hkept₁, ended, hsubmitted, hlines⟩ := h.turn hkept hc hkey
      obtain ⟨hreads', hediting', hsubmitted', hkept'⟩ := ih hediting hkept₁ hreads₁ hrest
      have hanswers : answers ++ keyAnswers ((c, read) :: turns') =
          (answers ++ .char c :: read) ++ keyAnswers turns' := by
        rw [keyAnswers, List.flatMap_cons, List.append_assoc]
        rfl
      rw [hanswers, List.map_cons, hlines]
      refine ⟨hreads', hediting', ?_, hkept'⟩
      rw [hsubmitted', hsubmitted, List.append_assoc]

/-- However the interrupts of the keyboard come and whatever keys its commands read, the shell
executes the lines that were typed and edited, of the characters that it reads itself: each is
the last one typed since the place was emptied before, by the loop or by a command. The history
holds the last twenty lines that are not blank, and the buffer and the screen show the line
that is being edited, which always fits. -/
theorem shell_executes_typed {ahead : List (List UInt8)} {asked : List (List KeyCall)}
    {cpu : CpuSim} {turns : List (UInt8 × List KeyAnswer)} {w : World Keyboard UInt8} {s : Shell}
    (hrun : shellRun asked ⟨.boot, ahead⟩ (shellInit cpu) = some (turns, w, s)) :
    ∃ past, ahead = past ++ w.ahead ∧ Delivered past.flatten (keyAnswers turns) w.state ∧
      s.submitted = (editLines [] (turns.map Prod.fst)).1 ∧
      Editing s (editLines [] (turns.map Prod.fst)).2 ∧
      s.state.history = lastTwenty (nonBlank s.submitted) := by
  obtain ⟨⟨past, hahead, hdelivered⟩, hediting, hsubmitted, hkept⟩ :=
    (editing_init cpu).run rfl (reads_boot ahead) hrun
  exact ⟨past, hahead, hdelivered, hsubmitted, hediting, hkept⟩

/-- The editor is called and left again, and a key that is typed before it is through is lost. -/
theorem shell_executes_typed_dano :
    let ahead := [[0x20], [], [0x1E], [], [0x31], [], [0x18], [], [0x1C], [], [0x1D, 0x10], [],
      [0x9D, 0x26], [], [0x26], [], [0x1F], []]
    ∃ turns w s past, shellRun [[], [], [], [], [.getchar, .flush], [], []] ⟨.boot, ahead⟩
        (shellInit cpuSimReset) = some (turns, w, s) ∧
      turns.map Prod.fst = ascii ['d', 'a', 'n', 'o', '\n', 'l', 's'] ∧
      ahead = past ++ w.ahead ∧ Delivered past.flatten (keyAnswers turns) w.state ∧
      s.submitted = (editLines [] (turns.map Prod.fst)).1 ∧
      Editing s (editLines [] (turns.map Prod.fst)).2 ∧
      s.state.history = lastTwenty (nonBlank s.submitted) := by
  intro ahead
  obtain ⟨⟨turns, w, s⟩, hrun, htext⟩ := Option.map_eq_some_iff.mp (show (shellRun
    [[], [], [], [], [.getchar, .flush], [], []] ⟨.boot, ahead⟩ (shellInit cpuSimReset)).map
      (fun r => r.1.map Prod.fst) = some (ascii ['d', 'a', 'n', 'o', '\n', 'l', 's'])
    by decide +kernel)
  obtain ⟨past, h⟩ := shell_executes_typed hrun
  exact ⟨turns, w, s, past, hrun, htext, h⟩

end Dosfs
