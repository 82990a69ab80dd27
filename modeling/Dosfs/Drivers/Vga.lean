import Mathlib.Data.Int.Basic
import Mathlib.Logic.Function.Basic
import Dosfs.Libc.String

/-!
# The VGA text console

A translation of the printing functions of `drivers/vga.c`. The cursor and the
indices into the video memory are signed integers, as in the source, so an index
out of range would show; every cell that is written is recorded.
-/

namespace Dosfs

def vgaWidth : Int := 80

def vgaHeight : Int := 25

/-- The static variables of the driver, the video memory, and the registers of
the display controller; `written` lists the cells written so far. -/
structure Vga where
  buffer : Int → UInt16
  row : Int
  col : Int
  colorAttr : UInt8
  available : Bool
  crtc : UInt8 → UInt8
  written : List Int

/-- The driver before `vga_init`. -/
def Vga.boot (buffer : Int → UInt16) (crtc : UInt8 → UInt8) : Vga :=
  ⟨buffer, 0, 0, 0, false, crtc, []⟩

/-- `vga_buffer[i] = value`. -/
def Vga.store (vga : Vga) (i : Int) (value : UInt16) : Vga :=
  { vga with buffer := Function.update vga.buffer i value, written := i :: vga.written }

/-- The register is selected through port 0x3D4 and written through 0x3D5. -/
def Vga.outb (vga : Vga) (register value : UInt8) : Vga :=
  { vga with crtc := Function.update vga.crtc register value }

def vgaEntryColor (fg bg : UInt8) : UInt8 := fg ||| (bg <<< 4)

/-- `char` is signed, so a byte from 0x80 on spoils the attribute. -/
def vgaEntry (c color : UInt8) : UInt16 :=
  c.toInt8.toInt16.toUInt16 ||| (color.toUInt16 <<< 8)

/-- The loops that fill a range of cells with blanks. -/
def Vga.blankCells (vga : Vga) : Nat → Int → Vga
  | 0, _ => vga
  | todo + 1, i => (vga.store i (vgaEntry 0x20 vga.colorAttr)).blankCells todo (i + 1)

def vgaClear (vga : Vga) : Vga :=
  if !vga.available then vga
  else
    let vga := vga.blankCells 2000 0
    let vga := { vga with row := 0, col := 0 }
    (vga.outb 0x0F 0x00).outb 0x0E 0x00

/-- `answers` tells whether the test word can be read back. -/
def vgaInit (answers : Bool) (vga : Vga) : Vga :=
  let vga := { vga with available := false }
  if !answers then vga
  else
    let saved := vga.buffer 0
    let vga := (vga.store 0 0xA55A).store 0 saved
    let vga := { vga with available := true, row := 0, col := 0, colorAttr := vgaEntryColor 7 0 }
    let vga := (vga.outb 0x0C 0x00).outb 0x0D 0x00
    (vgaClear vga).outb 0x0A 0x20

def vgaSetColor (fg bg : UInt8) (vga : Vga) : Vga := { vga with colorAttr := vgaEntryColor fg bg }

/-- The loop of `vga_scroll` that moves the rows up in place. -/
def Vga.copyUp (vga : Vga) : Nat → Int → Vga
  | 0, _ => vga
  | todo + 1, i => (vga.store i (vga.buffer (i + vgaWidth))).copyUp todo (i + 1)

def vgaScroll (vga : Vga) : Vga :=
  if !vga.available then vga
  else if vgaHeight ≤ vga.row then
    let vga := vga.copyUp 1920 0
    let vga := vga.blankCells 80 1920
    { vga with row := vgaHeight - 1 }
  else vga

/-- `n & ~7` -/
def clearLowBits (n : Int) : Int := 8 * (n / 8)

/-- The cases of `vga_putchar`. -/
def putcharCases (vga : Vga) (c : UInt8) : Vga :=
  if c = 0x0A then { vga with col := 0, row := vga.row + 1 }
  else if c = 0x0D then { vga with col := 0 }
  else if c = 0x09 then
    let col := clearLowBits (vga.col + 8)
    { vga with col := if vgaWidth ≤ col then vgaWidth - 1 else col }
  else if c = 0x08 then
    if 0 < vga.col then
      let vga := { vga with col := vga.col - 1 }
      vga.store (vga.row * vgaWidth + vga.col) (vgaEntry 0x20 vga.colorAttr)
    else if 0 < vga.row then
      let vga := { vga with row := vga.row - 1, col := vgaWidth - 1 }
      vga.store (vga.row * vgaWidth + vga.col) (vgaEntry 0x20 vga.colorAttr)
    else vga
  else
    let vga := vga.store (vga.row * vgaWidth + vga.col) (vgaEntry c vga.colorAttr)
    { vga with col := vga.col + 1 }

/-- The end of a full row. -/
def putcharWrap (vga : Vga) : Vga :=
  if vgaWidth ≤ vga.col then { vga with col := 0, row := vga.row + 1 } else vga

/-- The end of `vga_putchar`, which moves the hardware cursor. -/
def putcharCursor (vga : Vga) : Vga :=
  let cursor := UInt16.ofInt (vga.row * vgaWidth + vga.col)
  (vga.outb 0x0F (cursor &&& 0xFF).toUInt8).outb 0x0E ((cursor >>> 8) &&& 0xFF).toUInt8

def vgaPutchar (vga : Vga) (c : UInt8) : Vga :=
  if !vga.available then vga
  else putcharCursor (vgaScroll (putcharWrap (putcharCases vga c)))

def vgaPuts (vga : Vga) (s : CString) : Vga := s.bytes.foldl vgaPutchar vga

end Dosfs
