import Dosfs.Fs.Tmpfs

/-!
# The text editor

A translation of `tools/editor.c`. Every access to the array `lines` is checked
against its 256 rows of 80 bytes, and the functions answer `none` at the first
access out of range; indices are signed, as in the source. Of `editor_draw` the
model keeps what it reads of the text, not the title, the line numbers and the
status bar.
-/

namespace Dosfs

open Foundation

def editorMaxLines : Int := 256

def editorLineLen : Int := 80

def contentH : Int := 23

/-- `editor_t` -/
structure Editor where
  lines : Nat → Nat → UInt8
  lineCount : Int
  cursorX : Int
  cursorY : Int
  scrollY : Int
  filename : CString
  modified : Bool
  running : Bool

namespace Editor

/-- The indices are within `lines`. -/
def InLines (y x : Int) : Prop := (0 ≤ y ∧ y < editorMaxLines) ∧ 0 ≤ x ∧ x < editorLineLen

instance (y x : Int) : Decidable (InLines y x) := inferInstanceAs (Decidable (_ ∧ _))

/-- Read `lines[y][x]`. -/
def get (ed : Editor) (y x : Int) : Option UInt8 :=
  if InLines y x then some (ed.lines y.toNat x.toNat) else none

def put (ed : Editor) (y x : Nat) (c : UInt8) : Editor :=
  { ed with lines := fun i j => if i = y ∧ j = x then c else ed.lines i j }

/-- Assign `lines[y][x]`. -/
def set (ed : Editor) (y x : Int) (c : UInt8) : Option Editor :=
  if InLines y x then some (ed.put y.toNat x.toNat c) else none

/-! ## String routines on rows

From column 80 on an access fails, so 81 turns are enough for every loop that
runs to a NUL. -/

def strlenLoop (ed : Editor) (y : Int) : Nat → Int → Option Int
  | 0, _ => none
  | fuel + 1, x => do
      let c ← ed.get y x
      if c = 0 then some x else strlenLoop ed y fuel (x + 1)

/-- `strlen(lines[y])` -/
def strlen (ed : Editor) (y : Int) : Option Int := ed.strlenLoop y 81 0

def copyLoop : Nat → Int → Int → Int → Int → Editor → Option Editor
  | 0, _, _, _, _, _ => none
  | fuel + 1, dst, dx, src, sx, ed => do
      let c ← ed.get src sx
      let ed ← ed.set dst dx c
      if c = 0 then some ed else copyLoop fuel dst (dx + 1) src (sx + 1) ed

/-- `strcpy(lines[dst], lines[src] + sx)` -/
def strcpy (dst src sx : Int) (ed : Editor) : Option Editor := copyLoop 81 dst 0 src sx ed

/-- `strcat(lines[dst], lines[src])` -/
def strcat (dst src : Int) (ed : Editor) : Option Editor := do
  let len ← ed.strlen dst
  copyLoop 81 dst len src 0 ed

end Editor

/-! ## Drawing -/

/-- What `editor_draw` shows of the text: the part of each line that fits, for
the lines on the screen, and the character under the cursor with its place. -/
structure EditorView where
  rows : List (List UInt8)
  cursor : Option (Int × Int × UInt8)

/-- `vga_puts_at` on a line, from column `5 + x` of the screen on. -/
def drawLine (ed : Editor) (y : Int) : Nat → Int → Option (List UInt8)
  | 0, _ => some []
  | fuel + 1, x => do
      let c ← ed.get y x
      if c = 0 ∨ 80 ≤ 5 + x then some []
      else
        let rest ← drawLine ed y fuel (x + 1)
        some (c :: rest)

def drawRows (ed : Editor) : Nat → Int → Option (List (List UInt8))
  | 0, _ => some []
  | todo + 1, i => do
      let lineIdx := i + ed.scrollY
      let row ← (if lineIdx < ed.lineCount then drawLine ed lineIdx 76 0 else some [])
      let rest ← drawRows ed todo (i + 1)
      some (row :: rest)

def editorDraw (ed : Editor) : Option EditorView := do
  let rows ← drawRows ed 23 0
  if ed.cursorY < ed.lineCount then
    let c ← ed.get ed.cursorY ed.cursorX
    let c := if c = 0 then 0x20 else c
    some ⟨rows, some (5 + ed.cursorX, ed.cursorY - ed.scrollY + 1, c)⟩
  else some ⟨rows, none⟩

/-! ## Editing -/

/-- The loop of `editor_insert_char` that shifts a line right, from column `i`
down. -/
def shiftRight (y : Int) : Nat → Int → Editor → Option Editor
  | 0, _, ed => some ed
  | todo + 1, i, ed => do
      let dst := i + 1
      if editorLineLen - 1 < dst then shiftRight y todo (i - 1) ed
      else
        let c ← ed.get y i
        let ed ← ed.set y dst c
        shiftRight y todo (i - 1) ed

/-- `editor_insert_char` once the row of the cursor exists. -/
def insertInLine (c : UInt8) (ed : Editor) : Option Editor := do
  let maxShift := editorLineLen - 1
  let len ← ed.strlen ed.cursorY
  if editorLineLen - 1 ≤ len then some ed
  else
    let ed := if len < ed.cursorX then { ed with cursorX := len } else ed
    let ed ← shiftRight ed.cursorY (len - ed.cursorX + 1).toNat len ed
    let ed ← (if ed.cursorX ≤ maxShift then ed.set ed.cursorY ed.cursorX c else some ed)
    let ed ← ed.set ed.cursorY (if len < maxShift then len + 1 else maxShift) 0
    some { ed with cursorX := ed.cursorX + 1, modified := true }

def editorInsertChar (c : UInt8) (ed : Editor) : Option Editor :=
  if ed.lineCount ≤ ed.cursorY then
    if editorMaxLines ≤ ed.lineCount then some ed
    else do
      let ed ← ed.set ed.lineCount 0 0
      insertInLine c { ed with lineCount := ed.lineCount + 1 }
  else insertInLine c ed

/-- The loop of `editor_delete_char` that shifts a line left. -/
def shiftLeft (y : Int) : Nat → Int → Editor → Option Editor
  | 0, _, ed => some ed
  | todo + 1, i, ed => do
      let c ← ed.get y (i + 1)
      let ed ← ed.set y i c
      shiftLeft y todo (i + 1) ed

/-- The loop of `editor_delete_char` that moves the following lines up. -/
def moveUp : Nat → Int → Editor → Option Editor
  | 0, _, ed => some ed
  | todo + 1, i, ed => do
      let ed ← ed.strcpy i (i + 1) 0
      moveUp todo (i + 1) ed

def editorDeleteChar (ed : Editor) : Option Editor :=
  if 0 < ed.cursorX then do
    let len ← ed.strlen ed.cursorY
    let ed ← shiftLeft ed.cursorY (len - (ed.cursorX - 1)).toNat (ed.cursorX - 1) ed
    some { ed with cursorX := ed.cursorX - 1, modified := true }
  else if 0 < ed.cursorY then do
    let prevLen ← ed.strlen (ed.cursorY - 1)
    let curLen ← ed.strlen ed.cursorY
    if prevLen + curLen < editorLineLen then
      let ed ← ed.strcat (ed.cursorY - 1) ed.cursorY
      let ed ← moveUp (ed.lineCount - 1 - ed.cursorY).toNat ed.cursorY ed
      some { ed with
        lineCount := ed.lineCount - 1, cursorY := ed.cursorY - 1, cursorX := prevLen
        modified := true }
    else some ed
  else some ed

/-- The loop of `editor_newline` that moves the following lines down, from line
`i` on. -/
def moveDown : Nat → Int → Editor → Option Editor
  | 0, _, ed => some ed
  | todo + 1, i, ed => do
      let ed ← ed.strcpy i (i - 1) 0
      moveDown todo (i - 1) ed

def editorNewline (ed : Editor) : Option Editor :=
  if editorMaxLines ≤ ed.lineCount then some ed
  else do
    let ed ← moveDown (ed.lineCount - (ed.cursorY + 1)).toNat ed.lineCount ed
    let ed ← ed.strcpy (ed.cursorY + 1) ed.cursorY ed.cursorX
    let ed ← ed.set ed.cursorY ed.cursorX 0
    some { ed with
      lineCount := ed.lineCount + 1, cursorY := ed.cursorY + 1, cursorX := 0, modified := true }

/-! ## Files -/

/-- What `editor_save` shows in the status bar. -/
inductive SaveMessage
  | noFilename
  | outOfMemory
  | saved (pos : Nat) (filename : CString)
  deriving DecidableEq

/-- The bytes that `memcpy` takes from a line. -/
def readChars (ed : Editor) (y : Int) : Nat → Int → Option (List UInt8)
  | 0, _ => some []
  | todo + 1, x => do
      let c ← ed.get y x
      let rest ← readChars ed y todo (x + 1)
      some (c :: rest)

/-- The loop of `editor_save`; `out` is the part of `save_buf` below `pos`. -/
def saveLoop (ed : Editor) : Nat → Int → List UInt8 → Option (List UInt8)
  | 0, _, out => some out
  | todo + 1, i, out => do
      let len ← ed.strlen i
      if editorLineLen * editorMaxLines < out.length + len + 1 then some out
      else
        let chars ← readChars ed i len.toNat 0
        let out := out ++ chars
        let out := if i < ed.lineCount - 1 then out ++ [0x0A] else out
        saveLoop ed todo (i + 1) out

def editorSave (kmallocFails : Bool) (ed : Editor) (t : Tmpfs) :
    Option ((Int × SaveMessage) × Editor × Tmpfs) :=
  if ed.filename.bytes = [] then some ((-1, .noFilename), ed, t)
  else if kmallocFails then some ((-1, .outOfMemory), ed, t)
  else do
    let out ← saveLoop ed ed.lineCount.toNat 0 []
    let (_, t) := tmpfsDelete ed.filename t
    let t ← (if 0 < out.length then
        (tmpfsWrite ed.filename (Memory.storeList (fun _ => 0) 0 out) out.length t).map Prod.snd
      else some t)
    some ((0, .saved out.length ed.filename), { ed with modified := false }, t)

/-- `ed` after `memset`, ready to run. -/
def editorBlank (filename : CString) : Editor :=
  ⟨fun _ _ => 0, 1, 0, 0, 0, filename, false, true⟩

def editorNew : Option Editor := (editorBlank ⟨[], by simp⟩).set 0 0 0

/-- The loop of `editor_open` over the bytes of the file. -/
def loadLoop : List UInt8 → Int → Int → Editor → Option (Int × Int × Editor)
  | [], line, col, ed => some (line, col, ed)
  | b :: bs, line, col, ed =>
      if line < editorMaxLines then
        if b = 0x0A then do
          let ed ← ed.set line col 0
          loadLoop bs (line + 1) 0 ed
        else if col < editorLineLen - 1 then do
          let ed ← ed.set line col b
          loadLoop bs line (col + 1) ed
        else loadLoop bs line col ed
      else some (line, col, ed)

def editorOpen (kmallocFails : Bool) (filename : CString) (t : Tmpfs) : Option Editor :=
  let ed := editorBlank (CString.ofBuffer (filename.bytes.take 63))
  if kmallocFails then ed.set 0 0 0
  else
    let (len, buf) := tmpfsRead filename (tmpfsDataSize - 1) t
    if 0 < len then do
      let (line, col, ed) ← loadLoop buf 0 0 ed
      if 0 < col ∨ line = 0 then
        let ed ← ed.set line col 0
        some { ed with lineCount := line + 1 }
      else some { ed with lineCount := line }
    else ed.set 0 0 0

/-! ## The main loop -/

/-- The repeated `if (ed.cursor_x > (int)strlen(line)) ed.cursor_x = strlen(line);` -/
def clampCursorX (ed : Editor) : Option Editor := do
  let len ← ed.strlen ed.cursorY
  some (if len < ed.cursorX then { ed with cursorX := len } else ed)

def keyUp (ed : Editor) : Option Editor :=
  if 0 < ed.cursorY then clampCursorX { ed with cursorY := ed.cursorY - 1 } else some ed

def keyDown (ed : Editor) : Option Editor :=
  if ed.cursorY < ed.lineCount - 1 then clampCursorX { ed with cursorY := ed.cursorY + 1 }
  else some ed

def keyLeft (ed : Editor) : Option Editor :=
  if 0 < ed.cursorX then some { ed with cursorX := ed.cursorX - 1 }
  else if 0 < ed.cursorY then do
    let ed := { ed with cursorY := ed.cursorY - 1 }
    let len ← ed.strlen ed.cursorY
    some { ed with cursorX := len }
  else some ed

def keyRight (ed : Editor) : Option Editor := do
  let c ← ed.get ed.cursorY ed.cursorX
  if c ≠ 0 then some { ed with cursorX := ed.cursorX + 1 }
  else if ed.cursorY < ed.lineCount - 1 then
    some { ed with cursorY := ed.cursorY + 1, cursorX := 0 }
  else some ed

def keyHome (ed : Editor) : Option Editor := some { ed with cursorX := 0 }

def keyEnd (ed : Editor) : Option Editor := do
  let len ← ed.strlen ed.cursorY
  some { ed with cursorX := len }

def keyPgup (ed : Editor) : Option Editor :=
  let target := ed.cursorY - contentH
  let target := if target < 0 then 0 else target
  clampCursorX { ed with
    cursorY := target
    scrollY := if contentH < target then target - contentH + 1 else 0 }

def keyPgdn (ed : Editor) : Option Editor :=
  let target := ed.cursorY + contentH
  let target := if ed.lineCount ≤ target then ed.lineCount - 1 else target
  let target := if target < 0 then 0 else target
  clampCursorX { ed with
    cursorY := if ed.lineCount - 1 < target then ed.lineCount - 1 else target
    scrollY := target }

/-- The last lines of the loop body. -/
def adjustScroll (ed : Editor) : Editor :=
  let scrollY := if ed.cursorY < ed.scrollY then ed.cursorY else ed.scrollY
  { ed with
    scrollY := if scrollY + contentH ≤ ed.cursorY then ed.cursorY - contentH + 1 else scrollY }

/-- A key, with the answer that `kmalloc` would give to `editor_save`. -/
structure KeyPress where
  key : UInt8
  kmallocFails : Bool

/-- The dispatch on a key; the bytes from 0xF1 on are the extended keys. -/
def dispatchKey (press : KeyPress) (ed : Editor) (t : Tmpfs) : Option (Editor × Tmpfs) :=
  let key := press.key
  let edit (result : Option Editor) : Option (Editor × Tmpfs) := result.map fun ed => (ed, t)
  if key = 0x11 then some ({ ed with running := false }, t)
  else if key = 0x13 then (editorSave press.kmallocFails ed t).map Prod.snd
  else if key = 0x0A then edit (editorNewline ed)
  else if key = 0x08 then edit (editorDeleteChar ed)
  else if key = 0xF1 then edit (keyUp ed)
  else if key = 0xF2 then edit (keyDown ed)
  else if key = 0xF3 then edit (keyLeft ed)
  else if key = 0xF4 then edit (keyRight ed)
  else if key = 0xF5 then edit (keyHome ed)
  else if key = 0xF6 then edit (keyEnd ed)
  else if key = 0xF7 then edit (keyPgup ed)
  else if key = 0xF8 then edit (keyPgdn ed)
  else if 32 ≤ key ∧ key < 127 then edit (editorInsertChar key ed)
  else some (ed, t)

/-- One turn of the loop of `editor_run`. -/
def editorTurn (press : KeyPress) (ed : Editor) (t : Tmpfs) : Option (Editor × Tmpfs) := do
  let _ ← editorDraw ed
  let (ed, t) ← dispatchKey press ed t
  some (adjustScroll ed, t)

/-- `editor_run` fed with the given keys: after `Ctrl+Q` no key is read, and
after the last key the editor draws and waits. -/
def editorRun : List KeyPress → Editor → Tmpfs → Option (Editor × Tmpfs)
  | [], ed, t => if ed.running then (editorDraw ed).map fun _ => (ed, t) else some (ed, t)
  | press :: keys, ed, t =>
      if ed.running then do
        let (ed, t) ← editorTurn press ed t
        editorRun keys ed t
      else some (ed, t)

end Dosfs
