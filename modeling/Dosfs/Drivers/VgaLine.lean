import Dosfs.Drivers.Console

/-!
# A line on the screen

A line that is typed and shown byte by byte stands in the cells in front of the cursor, over
the ends of rows and while the screen scrolls, and a backspace takes its last cell away.
-/

namespace Dosfs

open Foundation

/-- The number of the cell at the cursor. -/
def Vga.position (vga : Vga) : Int := vga.row * vgaWidth + vga.col

/-- The cells in front of the cursor show the line. -/
structure Vga.ShowsLine (vga : Vga) (typed : List UInt8) : Prop where
  fits : (typed.length : Int) ≤ vga.position
  cell : ∀ k (hk : k < typed.length),
    glyph (vga.buffer (vga.position - typed.length + k)) = typed[k]

namespace Vga.ShowsLine

variable {vga : Vga} {typed : List UInt8}

/-- No cells are needed for the empty line. -/
theorem nil (h : vga.OnScreen) : vga.ShowsLine [] := by
  have hrow := h.row_nonneg
  have hcol := h.col_nonneg
  refine ⟨?_, fun k hk => absurd hk (Nat.not_lt_zero k)⟩
  rw [Vga.position, vgaWidth, List.length_nil]
  omega

/-- The end of a row and the start of the next one are the same place. -/
theorem wrap (h : vga.ShowsLine typed) (hcol : vga.col ≤ 80) :
    (putcharWrap vga).ShowsLine typed := by
  have hsame : (putcharWrap vga).position = vga.position ∧
      (putcharWrap vga).buffer = vga.buffer := by
    unfold putcharWrap
    split
    next hfull =>
      refine ⟨?_, rfl⟩
      simp only [Vga.position, vgaWidth] at hfull ⊢
      omega
    next => exact ⟨rfl, rfl⟩
  refine ⟨?_, fun k hk => ?_⟩
  · rw [hsame.1]
    exact h.fits
  · rw [hsame.1, hsame.2]
    exact h.cell k hk

/-- The line moves up with the cursor. -/
theorem scroll (h : vga.ShowsLine typed) (hnear : vga.NearScreen)
    (hbelow : vga.row = 25 → vga.col = 0) (hlength : typed.length ≤ 1920) :
    (vgaScroll vga).ShowsLine typed := by
  by_cases hfull : vga.row = 25
  · obtain ⟨hrow', hcol', -, hbuffer, -⟩ := vgaScroll_spec hnear.available hfull.ge
    have hcol := hbelow hfull
    have hposition : vga.position = 2000 := by
      rw [Vga.position, hfull, hcol]
      rfl
    have hposition' : (vgaScroll vga).position = 1920 := by
      rw [Vga.position, hrow', hcol', hcol]
      rfl
    refine ⟨by omega, fun k hk => ?_⟩
    have hcell := h.cell k hk
    rw [hposition] at hcell
    rw [hposition', hbuffer _ (by omega) (by omega), if_pos (by omega), ← hcell]
    congr 2
    omega
  · have hrow := hnear.row
    rw [vgaScroll_of_lt (by omega)]
    exact h

end Vga.ShowsLine

/-- A backspace clears the cell in front of the cursor, which may stand in the row above. -/
theorem putcharCases_backspace {vga : Vga} (h : vga.OnScreen) (hpos : 0 < vga.position) :
    (putcharCases vga 0x08).position = vga.position - 1 ∧
      (∀ x < vga.position - 1, (putcharCases vga 0x08).buffer x = vga.buffer x) ∧
      (putcharCases vga 0x08).col < 80 ∧ (putcharCases vga 0x08).row < 25 := by
  have hrow := h.row_lt
  have hcol := h.col_nonneg
  have hcol' := h.col_lt
  rw [Vga.position, vgaWidth] at hpos
  rw [putcharCases, if_neg (by decide), if_neg (by decide), if_neg (by decide), if_pos rfl]
  split
  next hleft =>
    refine ⟨?_, fun x hx => Function.update_of_ne ?_ _ _, ?_, hrow⟩
    · change vga.row * 80 + (vga.col - 1) = vga.row * 80 + vga.col - 1
      omega
    · change x < vga.row * 80 + vga.col - 1 at hx
      change x ≠ vga.row * 80 + (vga.col - 1)
      omega
    · change vga.col - 1 < 80
      omega
  next hleft =>
    rw [if_pos (by omega)]
    refine ⟨?_, fun x hx => Function.update_of_ne ?_ _ _, ?_, ?_⟩
    · change (vga.row - 1) * 80 + (80 - 1) = vga.row * 80 + vga.col - 1
      omega
    · change x < vga.row * 80 + vga.col - 1 at hx
      change x ≠ (vga.row - 1) * 80 + (80 - 1)
      omega
    · change (80 : Int) - 1 < 80
      decide
    · change vga.row - 1 < 25
      omega

section Byte

variable {vga : Vga} {typed : List UInt8} (havailable : vga.available = true) (h : vga.OnScreen)
variable (hline : vga.ShowsLine typed)

include havailable h hline

/-- A glyph is put behind the line. -/
theorem vgaPutchar_showsLine (hlength : typed.length < 1920) {c : UInt8} (hback : c ≠ 0x08)
    (hnewline : c ≠ 0x0A) (hreturn : c ≠ 0x0D) (htab : c ≠ 0x09) :
    (vgaPutchar vga c).ShowsLine (typed ++ [c]) := by
  have hnear := putcharCases_near havailable h c
  have hcases : putcharCases vga c =
      { vga.store vga.position (vgaEntry c vga.colorAttr) with col := vga.col + 1 } := by
    rw [putcharCases, if_neg hnewline, if_neg hreturn, if_neg htab, if_neg hback]
    rfl
  have hshown : (putcharCases vga c).ShowsLine (typed ++ [c]) := by
    have hposition : (putcharCases vga c).position = vga.position + 1 := by
      rw [hcases, Vga.position, Vga.position]
      exact (Int.add_assoc _ _ _).symm
    have hfits := hline.fits
    refine ⟨by rw [hposition, List.length_append, List.length_singleton]; omega, fun k hk => ?_⟩
    rw [List.length_append, List.length_singleton] at hk
    rw [hposition, List.length_append, List.length_singleton, hcases]
    change glyph (Function.update vga.buffer vga.position (vgaEntry c vga.colorAttr) _) = _
    rw [Function.update_apply, List.getElem_append]
    by_cases hlast : k < typed.length
    · rw [if_neg (by omega), dif_pos hlast, ← hline.cell k hlast]
      congr 2
      omega
    · rw [if_pos (by omega), dif_neg hlast, glyph_vgaEntry, List.getElem_singleton]
  obtain ⟨hwrapped, -⟩ := putcharWrap_near hnear
  have hbelow : (putcharWrap (putcharCases vga c)).row = 25 →
      (putcharWrap (putcharCases vga c)).col = 0 := by
    have hrow : (putcharCases vga c).row = vga.row := by rw [hcases]; rfl
    have hrow' := h.row_lt
    unfold putcharWrap
    split
    · exact fun _ => rfl
    · intro hfull
      omega
  have hlength' : (typed ++ [c]).length ≤ 1920 := by
    rw [List.length_append]
    exact hlength
  have hscrolled := (hshown.wrap hnear.col.2).scroll hwrapped hbelow hlength'
  rw [vgaPutchar, havailable, if_neg (by decide)]
  exact ⟨hscrolled.fits, hscrolled.cell⟩

/-- A backspace takes the last glyph away. -/
theorem vgaPutchar_backspace_showsLine (hne : typed ≠ []) :
    (vgaPutchar vga 0x08).ShowsLine typed.dropLast := by
  have hfits := hline.fits
  have hlength : typed.dropLast.length = typed.length - 1 := List.length_dropLast
  have hpos := List.length_pos_iff.mpr hne
  obtain ⟨hposition, hbuffer, hcol, hrow⟩ := putcharCases_backspace h (by omega)
  have hshown : (putcharCases vga 0x08).ShowsLine typed.dropLast := by
    refine ⟨by omega, fun k hk => ?_⟩
    rw [hposition, hlength, hbuffer _ (by omega), List.getElem_dropLast,
      ← hline.cell k (by omega)]
    congr 2
    omega
  have hwrap : putcharWrap (putcharCases vga 0x08) = putcharCases vga 0x08 :=
    if_neg (not_le.mpr hcol)
  rw [vgaPutchar, havailable, if_neg (by decide), hwrap, vgaScroll_of_lt hrow]
  exact ⟨hshown.fits, hshown.cell⟩

end Byte

/-! ## Many bytes -/

/-- Whatever the screen shows before, the bytes leave the line in front of the cursor, unless
a tab or a carriage return among them moves it. -/
def LeavesLine (bytes typed : List UInt8) : Prop :=
  0x09 ∉ bytes → 0x0D ∉ bytes → ∀ vga : Vga, vga.available = true → vga.OnScreen →
    (bytes.foldl vgaPutchar vga).ShowsLine typed

namespace LeavesLine

variable {bytes typed : List UInt8}

theorem nil : LeavesLine [] [] := fun _ _ _ _ h => .nil h

theorem print (h : LeavesLine bytes typed) (hlength : typed.length < 1920) {c : UInt8}
    (hback : c ≠ 0x08) (hnewline : c ≠ 0x0A) : LeavesLine (bytes ++ [c]) (typed ++ [c]) := by
  intro htab hreturn vga havailable hscreen
  rw [List.mem_append, not_or, List.mem_singleton] at htab hreturn
  obtain ⟨hscreen', havailable'⟩ := putchars_onScreen havailable hscreen bytes
  rw [List.foldl_append]
  exact vgaPutchar_showsLine havailable' hscreen' (h htab.1 hreturn.1 vga havailable hscreen)
    hlength hback hnewline (Ne.symm hreturn.2) (Ne.symm htab.2)

theorem backspace (h : LeavesLine bytes typed) (hne : typed ≠ []) :
    LeavesLine (bytes ++ [0x08]) typed.dropLast := by
  intro htab hreturn vga havailable hscreen
  rw [List.mem_append, not_or] at htab hreturn
  obtain ⟨hscreen', havailable'⟩ := putchars_onScreen havailable hscreen bytes
  rw [List.foldl_append]
  exact vgaPutchar_backspace_showsLine havailable' hscreen'
    (h htab.1 hreturn.1 vga havailable hscreen) hne

end LeavesLine

end Dosfs
