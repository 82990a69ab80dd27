import Mathlib.Data.List.Basic
import Dosfs.Foundation.Terminal
import Dosfs.Drivers.Vga

/-!
# The console as a terminal

The cursor stays on the screen and no cell outside the video memory is written.
Without backspaces the glyphs on the screen are the last 25 rows of a terminal
with unboundedly many rows.
-/

namespace Dosfs

open Foundation

/-- The cursor is on the screen, and only cells of the screen were written. -/
structure Vga.OnScreen (vga : Vga) : Prop where
  row_nonneg : 0 ≤ vga.row
  row_lt : vga.row < 25
  col_nonneg : 0 ≤ vga.col
  col_lt : vga.col < 80
  written : ∀ i ∈ vga.written, 0 ≤ i ∧ i < 2000

/-- The glyph of a cell is its low byte. -/
def glyph (entry : UInt16) : UInt8 := entry.toUInt8

theorem glyph_vgaEntry (c color : UInt8) : glyph (vgaEntry c color) = c := by
  have hbits : (vgaEntry c color).toBitVec =
      c.toBitVec.signExtend 16 ||| (color.toBitVec.setWidth 16 <<< 8) := rfl
  rw [glyph, ← UInt8.toBitVec_inj, UInt16.toBitVec_toUInt8, hbits]
  ext i hi
  simp
  grind

/-- What is on the screen. -/
def Vga.screen (vga : Vga) : Screen 25 80 UInt8 where
  cell i j := glyph (vga.buffer (i.val * 80 + j.val))
  row := vga.row.toNat
  col := vga.col.toNat

/-- The meaning of a byte other than a backspace. -/
def termInput (c : UInt8) : TermInput UInt8 :=
  if c = 0x0A then .newline
  else if c = 0x0D then .carriageReturn
  else if c = 0x09 then .tab
  else .print c

/-! ## The loops -/

/-- Blanking `todo` cells from `i` on changes nothing else. -/
theorem blankCells_spec (vga : Vga) (todo : Nat) (i : Int) :
    (vga.blankCells todo i).row = vga.row ∧ (vga.blankCells todo i).col = vga.col ∧
      (vga.blankCells todo i).available = vga.available ∧
      (∀ x, (vga.blankCells todo i).buffer x =
        if i ≤ x ∧ x < i + todo then vgaEntry 0x20 vga.colorAttr else vga.buffer x) ∧
      ∀ x ∈ (vga.blankCells todo i).written, x ∈ vga.written ∨ i ≤ x ∧ x < i + todo := by
  induction todo generalizing vga i with
  | zero =>
      refine ⟨rfl, rfl, rfl, fun x => ?_, fun x hx => Or.inl hx⟩
      rw [if_neg (by omega)]
      rfl
  | succ todo ih =>
      obtain ⟨hrow, hcol, havailable, hbuffer, hwritten⟩ :=
        ih (vga.store i (vgaEntry 0x20 vga.colorAttr)) (i + 1)
      refine ⟨hrow, hcol, havailable, fun x => ?_, fun x hx => ?_⟩
      · rw [Vga.blankCells, hbuffer]
        simp only [Vga.store, Function.update_apply]
        split_ifs
        all_goals first | rfl | omega
      · rcases hwritten x hx with hold | hnew
        · rcases List.mem_cons.mp hold with rfl | hold
          · exact Or.inr (by omega)
          · exact Or.inl hold
        · exact Or.inr (by omega)

/-- The loop reads each cell before it is overwritten. -/
theorem copyUp_spec (vga : Vga) (todo : Nat) (i : Int) :
    (vga.copyUp todo i).row = vga.row ∧ (vga.copyUp todo i).col = vga.col ∧
      (vga.copyUp todo i).available = vga.available ∧
      (vga.copyUp todo i).colorAttr = vga.colorAttr ∧
      (∀ x, (vga.copyUp todo i).buffer x =
        if i ≤ x ∧ x < i + todo then vga.buffer (x + 80) else vga.buffer x) ∧
      ∀ x ∈ (vga.copyUp todo i).written, x ∈ vga.written ∨ i ≤ x ∧ x < i + todo := by
  induction todo generalizing vga i with
  | zero =>
      refine ⟨rfl, rfl, rfl, rfl, fun x => ?_, fun x hx => Or.inl hx⟩
      rw [if_neg (by omega)]
      rfl
  | succ todo ih =>
      obtain ⟨hrow, hcol, havailable, hcolor, hbuffer, hwritten⟩ :=
        ih (vga.store i (vga.buffer (i + vgaWidth))) (i + 1)
      refine ⟨hrow, hcol, havailable, hcolor, fun x => ?_, fun x hx => ?_⟩
      · rw [Vga.copyUp, hbuffer]
        simp only [Vga.store, Function.update_apply, vgaWidth]
        split_ifs
        all_goals first | rfl | omega | (congr 1; omega)
      · rcases hwritten x hx with hold | hnew
        · rcases List.mem_cons.mp hold with rfl | hold
          · exact Or.inr (by omega)
          · exact Or.inl hold
        · exact Or.inr (by omega)

/-! ## One byte -/

/-- The cursor while a byte is printed: at most one of its coordinates has left
the screen, and by one step only. -/
structure Vga.NearScreen (vga : Vga) : Prop where
  available : vga.available = true
  row : 0 ≤ vga.row ∧ vga.row ≤ 25
  col : 0 ≤ vga.col ∧ vga.col ≤ 80
  row_or_col : vga.row < 25 ∨ vga.col < 80
  written : ∀ i ∈ vga.written, 0 ≤ i ∧ i < 2000

variable {vga : Vga}

private theorem written_store (value : UInt16) {row col : Int}
    (h : ∀ i ∈ vga.written, 0 ≤ i ∧ i < 2000) (hrow : 0 ≤ row ∧ row < 25)
    (hcol : 0 ≤ col ∧ col < 80) :
    ∀ i ∈ (vga.store (row * vgaWidth + col) value).written, 0 ≤ i ∧ i < 2000 := by
  intro i hi
  rcases List.mem_cons.mp hi with rfl | hold
  · rw [vgaWidth]
    omega
  · exact h i hold

theorem putcharCases_near (havailable : vga.available = true) (h : vga.OnScreen) (c : UInt8) :
    (putcharCases vga c).NearScreen := by
  obtain ⟨hrow, hrow', hcol, hcol', hwritten⟩ := h
  unfold putcharCases
  split_ifs with hnewline hreturn htab hback hleft hup
  · exact ⟨havailable, ⟨by dsimp only; omega, by dsimp only; omega⟩,
      ⟨le_refl _, by dsimp only; omega⟩, Or.inr (by dsimp only; omega), hwritten⟩
  · exact ⟨havailable, ⟨hrow, hrow'.le⟩, ⟨le_refl _, by dsimp only; omega⟩, Or.inl hrow', hwritten⟩
  · refine ⟨havailable, ⟨hrow, hrow'.le⟩, ?_, Or.inl hrow', hwritten⟩
    simp only [clearLowBits, vgaWidth]
    split_ifs <;> omega
  · refine ⟨havailable, ⟨hrow, hrow'.le⟩, ⟨?_, ?_⟩, Or.inl hrow', written_store _ hwritten ?_ ?_⟩
    all_goals dsimp only [Vga.store]; omega
  · refine ⟨havailable, ⟨?_, ?_⟩, ⟨?_, ?_⟩, Or.inl ?_, written_store _ hwritten ?_ ?_⟩
    all_goals dsimp only [Vga.store, vgaWidth]; omega
  · exact ⟨havailable, ⟨hrow, hrow'.le⟩, ⟨hcol, hcol'.le⟩, Or.inl hrow', hwritten⟩
  · refine ⟨havailable, ⟨hrow, hrow'.le⟩, ⟨?_, ?_⟩, Or.inl hrow',
      written_store (vgaEntry c vga.colorAttr) hwritten ⟨hrow, hrow'⟩ ⟨hcol, hcol'⟩⟩
    all_goals dsimp only [Vga.store]; omega

/-- Once a full row has ended the cursor is inside its row. -/
theorem putcharWrap_near (h : vga.NearScreen) :
    (putcharWrap vga).NearScreen ∧ (putcharWrap vga).col < 80 := by
  unfold putcharWrap
  have hrow := h.row
  have hor := h.row_or_col
  split_ifs with hfull
  · rw [vgaWidth] at hfull
    refine ⟨⟨h.available, ⟨?_, ?_⟩, ⟨le_refl _, ?_⟩, Or.inr ?_, h.written⟩, ?_⟩
    all_goals dsimp only; omega
  · rw [vgaWidth] at hfull
    exact ⟨h, by omega⟩

/-- What scrolling does below the last row. -/
theorem vgaScroll_spec (havailable : vga.available = true) (hrow : 25 ≤ vga.row) :
    (vgaScroll vga).row = 24 ∧ (vgaScroll vga).col = vga.col ∧ (vgaScroll vga).available = true ∧
      (∀ x, 0 ≤ x → x < 2000 → (vgaScroll vga).buffer x =
        if x < 1920 then vga.buffer (x + 80) else vgaEntry 0x20 vga.colorAttr) ∧
      ∀ x ∈ (vgaScroll vga).written, x ∈ vga.written ∨ 0 ≤ x ∧ x < 2000 := by
  obtain ⟨-, hcol₁, havailable₁, hcolor₁, hbuffer₁, hwritten₁⟩ := copyUp_spec vga 1920 0
  unfold vgaScroll
  rw [havailable, if_neg (by decide), if_pos (show vgaHeight ≤ vga.row from hrow)]
  dsimp only
  generalize vga.copyUp 1920 0 = moved at hcol₁ havailable₁ hcolor₁ hbuffer₁ hwritten₁ ⊢
  obtain ⟨-, hcol₂, havailable₂, hbuffer₂, hwritten₂⟩ := blankCells_spec moved 80 1920
  generalize moved.blankCells 80 1920 = cleared at hcol₂ havailable₂ hbuffer₂ hwritten₂ ⊢
  refine ⟨rfl, hcol₂.trans hcol₁, havailable₂.trans (havailable₁.trans havailable),
    fun x hlow hhigh => ?_, fun x hx => ?_⟩
  · rw [hbuffer₂, hbuffer₁, hcolor₁]
    split_ifs
    all_goals first | rfl | omega
  · rcases hwritten₂ x hx with hold | hnew
    · rcases hwritten₁ x hold with hold | hnew
      · exact Or.inl hold
      · exact Or.inr (by omega)
    · exact Or.inr (by omega)

theorem vgaScroll_of_lt (hrow : vga.row < 25) : vgaScroll vga = vga := by
  unfold vgaScroll
  rw [if_neg (show ¬ vgaHeight ≤ vga.row from not_le.mpr hrow)]
  split_ifs <;> rfl

theorem vgaScroll_onScreen (h : vga.NearScreen) (hcol : vga.col < 80) :
    (vgaScroll vga).OnScreen ∧ (vgaScroll vga).available = true := by
  by_cases hfull : 25 ≤ vga.row
  · obtain ⟨hrow', hcol', havailable, -, hwritten⟩ := vgaScroll_spec h.available hfull
    refine ⟨⟨by omega, by omega, hcol' ▸ h.col.1, hcol' ▸ hcol, fun i hi => ?_⟩, havailable⟩
    rcases hwritten i hi with hold | hnew
    · exact h.written i hold
    · exact hnew
  · rw [vgaScroll_of_lt (by omega)]
    exact ⟨⟨h.row.1, by omega, h.col.1, hcol, h.written⟩, h.available⟩

/-- Printing a byte keeps the cursor on the screen. -/
theorem vgaPutchar_onScreen (havailable : vga.available = true) (h : vga.OnScreen) (c : UInt8) :
    (vgaPutchar vga c).OnScreen ∧ (vgaPutchar vga c).available = true := by
  obtain ⟨hnear, hcol⟩ := putcharWrap_near (putcharCases_near havailable h c)
  obtain ⟨hscreen, havailable'⟩ := vgaScroll_onScreen hnear hcol
  rw [vgaPutchar, havailable, if_neg (by decide)]
  exact ⟨⟨hscreen.row_nonneg, hscreen.row_lt, hscreen.col_nonneg, hscreen.col_lt, hscreen.written⟩,
    havailable'⟩

/-! ## The screen -/

theorem screen_ext {s s' : Screen 25 80 UInt8} (hrow : s.row = s'.row) (hcol : s.col = s'.col)
    (hcell : ∀ i j, s.cell i j = s'.cell i j) : s = s' := by
  cases s
  cases s'
  simp only [Screen.mk.injEq]
  exact ⟨funext fun i => funext fun j => hcell i j, hrow, hcol⟩

/-- Two cells of the screen are the same if their indices are. -/
private theorem index_eq_iff {row col : Int} (hrow : 0 ≤ row) (hcol : 0 ≤ col ∧ col < 80)
    (i : Fin 25) (j : Fin 80) : (i.val * 80 + j.val : Int) = row * vgaWidth + col ↔
      i.val = row.toNat ∧ j.val = col.toNat := by
  have hi := i.isLt
  have hj := j.isLt
  rw [vgaWidth]
  omega

theorem screen_putcharCases (h : vga.OnScreen) {c : UInt8} (hc : c ≠ 0x08) :
    (putcharCases vga c).screen = vga.screen.act 8 (termInput c) := by
  have hrow := h.row_nonneg
  have hcol := h.col_nonneg
  have hlt := h.col_lt
  unfold putcharCases termInput
  split_ifs with hnewline hreturn htab
  · refine screen_ext ?_ rfl fun _ _ => rfl
    change (vga.row + 1).toNat = vga.row.toNat + 1
    omega
  · rfl
  · refine screen_ext rfl ?_ fun _ _ => rfl
    simp only [Vga.screen, Screen.act, nextTab, clearLowBits, vgaWidth]
    split_ifs <;> omega
  · refine screen_ext rfl ?_ fun i j => ?_
    · change (vga.col + 1).toNat = vga.col.toNat + 1
      omega
    · change glyph (Function.update vga.buffer (vga.row * vgaWidth + vga.col)
          (vgaEntry c vga.colorAttr) (i.val * 80 + j.val)) =
        if i.val = vga.row.toNat ∧ j.val = vga.col.toNat then c
        else glyph (vga.buffer (i.val * 80 + j.val))
      rw [Function.update_apply]
      by_cases hhit : i.val = vga.row.toNat ∧ j.val = vga.col.toNat
      · rw [if_pos hhit, if_pos ((index_eq_iff hrow ⟨hcol, hlt⟩ i j).mpr hhit), glyph_vgaEntry]
      · rw [if_neg hhit, if_neg (mt (index_eq_iff hrow ⟨hcol, hlt⟩ i j).mp hhit)]

theorem screen_putcharWrap (h : vga.NearScreen) : (putcharWrap vga).screen = vga.screen.wrap := by
  have hrow := h.row
  have hcol := h.col
  have hfull : vgaWidth ≤ vga.col ↔ ¬ vga.screen.col < 80 := by
    simp only [Vga.screen, vgaWidth]
    omega
  unfold putcharWrap Screen.wrap
  by_cases hwrap : vga.screen.col < 80
  · rw [if_pos hwrap, if_neg (fun h => hfull.mp h hwrap)]
  · rw [if_neg hwrap, if_pos (hfull.mpr hwrap)]
    refine screen_ext ?_ rfl fun _ _ => rfl
    change (vga.row + 1).toNat = vga.row.toNat + 1
    omega

theorem screen_vgaScroll (h : vga.NearScreen) :
    (vgaScroll vga).screen = vga.screen.scroll 0x20 := by
  have hrow := h.row
  unfold Screen.scroll
  by_cases hfull : vga.screen.row < 25
  · rw [if_pos hfull, vgaScroll_of_lt]
    change vga.row.toNat < 25 at hfull
    omega
  · rw [if_neg hfull]
    change ¬ vga.row.toNat < 25 at hfull
    obtain ⟨hrow', hcol', -, hbuffer, -⟩ := vgaScroll_spec h.available (by omega)
    refine screen_ext ?_ (congrArg Int.toNat hcol') fun i j => ?_
    · change (vgaScroll vga).row.toNat = 24
      rw [hrow']
      rfl
    · have hi := i.isLt
      have hj := j.isLt
      simp only [Vga.screen]
      rw [hbuffer _ (by omega) (by omega)]
      by_cases hlast : i.val + 1 < 25
      · rw [if_pos (by omega), dif_pos hlast]
        congr 2
        push_cast
        ring
      · rw [if_neg (by omega), dif_neg hlast, glyph_vgaEntry]

/-- One byte other than a backspace does to the screen what it means. -/
theorem screen_vgaPutchar (havailable : vga.available = true) (h : vga.OnScreen) {c : UInt8}
    (hc : c ≠ 0x08) : (vgaPutchar vga c).screen = vga.screen.feed 8 0x20 (termInput c) := by
  have hnear := putcharCases_near havailable h c
  rw [vgaPutchar, havailable, if_neg (by decide), Screen.feed, ← screen_putcharCases h hc,
    ← screen_putcharWrap hnear, ← screen_vgaScroll (putcharWrap_near hnear).1]
  rfl

/-! ## Runs -/

/-- A call of one of the printing functions. -/
inductive PrintCall
  | putchar (c : UInt8)
  | puts (s : CString)

/-- The bytes that a call prints. -/
def PrintCall.bytes : PrintCall → List UInt8
  | .putchar c => [c]
  | .puts s => s.bytes

def PrintCall.run (vga : Vga) : PrintCall → Vga
  | .putchar c => vgaPutchar vga c
  | .puts s => vgaPuts vga s

/-- The terminal after the given bytes. -/
def terminalOf (bytes : List UInt8) : Terminal UInt8 :=
  (bytes.map termInput).foldl (Terminal.feed 80 8) (Terminal.empty 0x20)

theorem foldl_run (vga : Vga) (calls : List PrintCall) :
    calls.foldl PrintCall.run vga = (calls.flatMap PrintCall.bytes).foldl vgaPutchar vga := by
  induction calls generalizing vga with
  | nil => rfl
  | cons call calls ih =>
      rw [List.foldl_cons, List.flatMap_cons, List.foldl_append, ih]
      cases call <;> rfl

/-- The end of `vga_clear` moves the cursor only. -/
private theorem vgaClear_home (vga : Vga) :
    let home := (Vga.outb { vga with row := 0, col := 0 } 0x0F 0x00).outb 0x0E 0x00
    home.row = 0 ∧ home.col = 0 ∧ home.available = vga.available ∧ home.buffer = vga.buffer ∧
      home.written = vga.written :=
  ⟨rfl, rfl, rfl, rfl, rfl⟩

theorem vgaClear_spec (havailable : vga.available = true) :
    (vgaClear vga).row = 0 ∧ (vgaClear vga).col = 0 ∧ (vgaClear vga).available = true ∧
      (∀ x, 0 ≤ x → x < 2000 → (vgaClear vga).buffer x = vgaEntry 0x20 vga.colorAttr) ∧
      ∀ x ∈ (vgaClear vga).written, x ∈ vga.written ∨ 0 ≤ x ∧ x < 2000 := by
  obtain ⟨-, -, havailable₁, hbuffer₁, hwritten₁⟩ := blankCells_spec vga 2000 0
  obtain ⟨hrow, hcol, havailable₂, hbuffer₂, hwritten₂⟩ := vgaClear_home (vga.blankCells 2000 0)
  unfold vgaClear
  rw [havailable, if_neg (by decide)]
  refine ⟨hrow, hcol, havailable₂.trans (havailable₁.trans havailable),
    fun x hlow hhigh => ?_, fun x hx => ?_⟩
  · rw [hbuffer₂, hbuffer₁, if_pos (by omega)]
  · rw [hwritten₂] at hx
    exact (hwritten₁ x hx).imp_right fun hnew => by omega

/-- What `vga_init` hands to `vga_clear`: the test word was written twice. -/
theorem vgaInit_eq (buffer : Int → UInt16) (crtc : UInt8 → UInt8) :
    ∃ ready : Vga, vgaInit true (Vga.boot buffer crtc) = (vgaClear ready).outb 0x0A 0x20 ∧
      ready.available = true ∧ ready.written = [0, 0] := by
  unfold vgaInit
  rw [if_neg (by decide)]
  exact ⟨_, rfl, rfl, rfl⟩

/-- After `vga_init` the screen is empty. -/
theorem vgaInit_spec (buffer : Int → UInt16) (crtc : UInt8 → UInt8) :
    (vgaInit true (Vga.boot buffer crtc)).OnScreen ∧
      (vgaInit true (Vga.boot buffer crtc)).available = true ∧
      (vgaInit true (Vga.boot buffer crtc)).screen = Screen.empty 0x20 := by
  obtain ⟨ready, hinit, hready, hwritten₀⟩ := vgaInit_eq buffer crtc
  obtain ⟨hrow, hcol, havailable, hbuffer, hwritten⟩ := vgaClear_spec hready
  rw [hinit]
  generalize vgaClear ready = cleared at hrow hcol havailable hbuffer hwritten ⊢
  refine ⟨⟨hrow.ge, hrow.trans_lt (by decide), hcol.ge, hcol.trans_lt (by decide),
    fun i hi => ?_⟩, havailable, screen_ext (congrArg Int.toNat hrow) (congrArg Int.toNat hcol)
    fun i j => ?_⟩
  · rcases hwritten i hi with hold | hnew
    · rw [hwritten₀] at hold
      obtain rfl : i = 0 := by simpa using hold
      decide
    · exact hnew
  · have hi := i.isLt
    have hj := j.isLt
    change glyph (cleared.buffer (i.val * 80 + j.val)) = 0x20
    rw [hbuffer _ (by omega) (by omega), glyph_vgaEntry]

/-- A run of bytes keeps the cursor on the screen. -/
theorem putchars_onScreen (havailable : vga.available = true) (h : vga.OnScreen)
    (bytes : List UInt8) :
    (bytes.foldl vgaPutchar vga).OnScreen ∧ (bytes.foldl vgaPutchar vga).available = true := by
  induction bytes generalizing vga with
  | nil => exact ⟨h, havailable⟩
  | cons c bytes ih =>
      obtain ⟨hnext, havailable'⟩ := vgaPutchar_onScreen havailable h c
      exact ih havailable' hnext

/-- A run of bytes without backspaces shows the last rows of the terminal. -/
theorem putchars_shows {t : Terminal UInt8} (havailable : vga.available = true)
    (h : vga.OnScreen) (hshows : vga.screen.Shows t) (ht : t.Tidy 80 0x20) {bytes : List UInt8}
    (hbytes : 0x08 ∉ bytes) :
    (bytes.foldl vgaPutchar vga).screen.Shows
      ((bytes.map termInput).foldl (Terminal.feed 80 8) t) := by
  induction bytes generalizing vga t with
  | nil => exact hshows
  | cons c bytes ih =>
      rw [List.mem_cons, not_or] at hbytes
      obtain ⟨hnext, havailable'⟩ := vgaPutchar_onScreen havailable h c
      have hfed := hshows.feed 8 (by decide) ht (termInput c)
      rw [← screen_vgaPutchar havailable h (Ne.symm hbytes.1)] at hfed
      exact ih havailable' hnext hfed (ht.feed _) hbytes.2

/-- Whatever is printed, the cursor stays on the screen and only cells of the
screen are written; without backspaces the screen shows the last 25 rows of the
terminal, and the cursor is where the terminal has it. -/
theorem vga_refines_terminal (buffer : Int → UInt16) (crtc : UInt8 → UInt8)
    (calls : List PrintCall) :
    let vga := calls.foldl PrintCall.run (vgaInit true (Vga.boot buffer crtc))
    let bytes := calls.flatMap PrintCall.bytes
    ((0 ≤ vga.row ∧ vga.row < 25) ∧ (0 ≤ vga.col ∧ vga.col < 80) ∧
      ∀ i ∈ vga.written, 0 ≤ i ∧ i < 2000) ∧
    (0x08 ∉ bytes →
      let t := terminalOf bytes
      vga.row = t.row - t.top 25 ∧ vga.col = t.col ∧
        ∀ i j : Nat, i < 25 → j < 80 →
          glyph (vga.buffer (i * 80 + j)) = t.cell (t.top 25 + i) j) := by
  obtain ⟨hscreen, havailable, hempty⟩ := vgaInit_spec buffer crtc
  obtain ⟨hfinal, -⟩ := putchars_onScreen havailable hscreen (calls.flatMap PrintCall.bytes)
  simp only [foldl_run]
  refine ⟨⟨⟨hfinal.row_nonneg, hfinal.row_lt⟩, ⟨hfinal.col_nonneg, hfinal.col_lt⟩,
    hfinal.written⟩, fun hbytes => ?_⟩
  have hshows := putchars_shows havailable hscreen
    (by rw [hempty]; exact Screen.shows_empty (by decide))
    (Terminal.empty_tidy (by decide)) hbytes
  have hrow := hshows.row
  have hcol := hshows.col
  have hrow_nonneg := hfinal.row_nonneg
  have hcol_nonneg := hfinal.col_nonneg
  simp only [Vga.screen] at hrow hcol
  rw [← terminalOf] at hrow hcol hshows
  refine ⟨by omega, by omega, fun i j hi hj => hshows.cell ⟨i, hi⟩ ⟨j, hj⟩⟩

/-- A row and a quarter of the letter a, enough newlines to scroll twice, a tab and a b. -/
def scrollingText : List UInt8 :=
  List.replicate 100 0x61 ++ List.replicate 25 0x0A ++ [0x09, 0x62]

theorem vga_refines_terminal_scrolled :
    let vga := (scrollingText.map PrintCall.putchar).foldl PrintCall.run
      (vgaInit true (Vga.boot (fun _ => 0) fun _ => 0))
    vga.row = 24 ∧ vga.col = 9 ∧
      ∀ i j : Nat, i < 25 → j < 80 →
        glyph (vga.buffer (i * 80 + j)) = (terminalOf scrollingText).cell (2 + i) j := by
  have hbytes : (scrollingText.map PrintCall.putchar).flatMap PrintCall.bytes = scrollingText := by
    rw [List.flatMap_map]
    exact List.flatMap_singleton' _
  obtain ⟨-, hshows⟩ := vga_refines_terminal (fun _ => 0) (fun _ => 0)
    (scrollingText.map PrintCall.putchar)
  rw [hbytes] at hshows
  obtain ⟨hrow, hcol, hcells⟩ := hshows (by decide)
  have hcursor : (terminalOf scrollingText).row = 26 ∧ (terminalOf scrollingText).col = 9 := by
    decide +kernel
  have htop : (terminalOf scrollingText).top 25 = 2 := by
    rw [Terminal.top, hcursor.1]
  rw [htop] at hrow hcells
  rw [hcursor.1] at hrow
  rw [hcursor.2] at hcol
  exact ⟨hrow, hcol, hcells⟩

/-! ## The hardware cursor -/

private theorem cursor_bytes {n : Nat} (hn : n < 2000) :
    ((UInt16.ofInt n >>> 8) &&& 0xFF).toUInt8.toNat * 256 +
      (UInt16.ofInt n &&& 0xFF).toUInt8.toNat = n := by
  have hcursor : (UInt16.ofInt n).toNat = n := by
    rw [UInt16.ofInt]
    simp
    omega
  have hmask (m : Nat) : m &&& 255 = m % 256 := Nat.and_two_pow_sub_one_eq_mod m 8
  simp [hcursor, Nat.shiftRight_eq_div_pow, hmask]
  omega

/-- After a byte the two cursor registers hold the index of the cell at the
cursor. -/
theorem vgaPutchar_cursor (havailable : vga.available = true) (h : vga.OnScreen) (c : UInt8) :
    ((((vgaPutchar vga c).crtc 0x0E).toNat * 256 + ((vgaPutchar vga c).crtc 0x0F).toNat : Nat) :
      Int) = (vgaPutchar vga c).row * 80 + (vgaPutchar vga c).col := by
  obtain ⟨hnear, hcol⟩ := putcharWrap_near (putcharCases_near havailable h c)
  obtain ⟨hscreen, -⟩ := vgaScroll_onScreen hnear hcol
  rw [vgaPutchar, havailable, if_neg (by decide)]
  generalize vgaScroll (putcharWrap (putcharCases vga c)) = moved at hscreen ⊢
  have hrow := hscreen.row_nonneg
  have hrow' := hscreen.row_lt
  have hcol := hscreen.col_nonneg
  have hcol' := hscreen.col_lt
  obtain ⟨n, hn⟩ : ∃ n : Nat, moved.row * vgaWidth + moved.col = n :=
    Int.eq_ofNat_of_zero_le (by rw [vgaWidth]; omega)
  have hlt : n < 2000 := by
    rw [vgaWidth] at hn
    omega
  have hhigh : (putcharCursor moved).crtc 0x0E = ((UInt16.ofInt n >>> 8) &&& 0xFF).toUInt8 := by
    rw [← hn]
    rfl
  have hlow : (putcharCursor moved).crtc 0x0F = (UInt16.ofInt n &&& 0xFF).toUInt8 := by
    rw [← hn]
    rfl
  rw [hhigh, hlow, cursor_bytes hlt, ← hn]
  rfl

end Dosfs
