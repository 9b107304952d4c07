import X86Emu.BiosBounds
import X86Emu.Lib.Scrolling

/-!
# What teletype output leaves on the screen

Characters written by INT 10h stand one after another on an endless page, of which the screen shows
the last rows. The service has no control characters: each of the 256 takes a cell.
-/
namespace X86Emu.Cpu

open Scrolling

/-- A character in light grey on black. -/
def onText (ch : U8) : U16 := 0x0700 ||| u16 ch

/-- The characters a run of calls puts in AL. -/
def teletypeText (rs : List (Fin 16 → U64)) : List U8 := rs.map fun r => u8 (r 0)

/-- The screen as the start of an endless page, blank below it, typed on from the cursor. -/
def screenPage (s : Cpu) : Page U16 where
  cells i := if i < textCols * textRows then s.mem.vgaText i else 0x0720
  head := s.cursorCell

/-- The screen is the window on the page, with the cursor at its head. -/
structure ShowsPage (s : Cpu) (p : Page U16) : Prop where
  onScreen : s.OnScreen
  cursor : textCols * top textCols textRows p.head + s.cursorCell = p.head
  cells : ∀ i < textCols * textRows,
    s.mem.vgaText i = p.cells (textCols * top textCols textRows p.head + i)
  below : ∀ i, textCols * (top textCols textRows p.head + textRows) ≤ i → p.cells i = 0x0720

variable {s : Cpu}

theorem cursorCell_lt (h : s.OnScreen) : s.cursorCell < textCols * textRows := by
  obtain ⟨hrow, hcol⟩ := h
  have hcols : textCols = 80 := rfl
  have hrows : textRows = 25 := rfl
  unfold cursorCell
  rw [hrows] at hrow ⊢
  rw [hcols] at hcol ⊢
  omega

/-- A screen shows the page it begins. -/
theorem showsPage_screenPage (h : s.OnScreen) : ShowsPage s s.screenPage := by
  have htop : top textCols textRows s.screenPage.head = 0 :=
    top_of_lt (by decide) (by decide) (cursorCell_lt h)
  refine ⟨h, ?_, fun i hi => ?_, fun i hi => ?_⟩
  · rw [htop, Nat.mul_zero, Nat.zero_add]
    rfl
  · rw [htop, Nat.mul_zero, Nat.zero_add]
    exact (if_pos hi).symm
  · rw [htop, Nat.zero_add] at hi
    exact if_neg (not_lt.mpr hi)

/-! ## One character -/

/-- A character takes the cursor's cell; on the last cell of the screen everything then moves a row
up, over a blank last row. -/
theorem vgaText_putChar_screen (h : s.OnScreen) (ch : U8) {i : Nat}
    (hi : i < textCols * textRows) :
    (s.putChar ch).mem.vgaText i =
      if s.cursorCell + 1 = textCols * textRows then
        if textCols * (textRows - 1) ≤ i then 0x0720
        else if i + textCols = s.cursorCell then onText ch else s.mem.vgaText (i + textCols)
      else if i = s.cursorCell then onText ch else s.mem.vgaText i := by
  have hcols : textCols = 80 := rfl
  have hrows : textRows = 25 := rfl
  have hwindow : Memory.vgaTextCells = 0x4000 := rfl
  have hone : (1 : U8).toNat = 1 := rfl
  have hput (j : Nat) : (s.mem.putCharAt s.vga.cursorRow.toNat s.vga.cursorCol.toNat ch).vgaText j =
      if j = s.cursorCell then onText ch else s.mem.vgaText j := by
    rw [Memory.putCharAt, if_pos ⟨h.1, h.2⟩]
    rfl
  have hcell := cursorCell_lt h
  obtain ⟨hrow, hcol⟩ := h
  have hnextcol : (s.vga.cursorCol + 1).toNat = s.vga.cursorCol.toNat + 1 := by
    rw [BitVec.toNat_add, hone]
    omega
  have hnextrow : (s.vga.cursorRow + 1).toNat = s.vga.cursorRow.toNat + 1 := by
    rw [BitVec.toNat_add, hone]
    omega
  have hlast : s.cursorCell + 1 = textCols * textRows ↔
      textCols ≤ (s.vga.cursorCol + 1).toNat ∧ textRows ≤ (s.vga.cursorRow + 1).toNat := by
    rw [hnextcol, hnextrow]
    unfold cursorCell at hcell ⊢
    rw [hcols, hrows] at hcell ⊢
    rw [hcols] at hcol
    omega
  simp only [hlast]
  unfold putChar
  dsimp only [modifyMem]
  by_cases hc : textCols ≤ (s.vga.cursorCol + 1).toNat
  · by_cases hr : textRows ≤ (s.vga.cursorRow + 1).toNat
    · rw [if_pos hc, if_pos hr, if_pos ⟨hc, hr⟩]
      dsimp only [Memory.scroll]
      have hin : i + textCols < Memory.vgaTextCells := by
        rw [hcols, hrows] at hi
        rw [hcols, hwindow]
        omega
      rw [hput, if_pos hin]
      by_cases hbot : textCols * (textRows - 1) ≤ i
      · rw [if_pos ⟨hbot, hi⟩, if_pos hbot]
      · rw [if_neg fun hb => hbot hb.1, if_neg hbot]
    · rw [if_pos hc, if_neg hr, if_neg fun hb => hr hb.2]
      exact hput i
  · rw [if_neg hc, if_neg fun hb => hc hb.1]
    exact hput i

/-- A character typed on the page is a character written to the screen. -/
theorem ShowsPage.putChar {p : Page U16} (h : ShowsPage s p) (ch : U8) :
    ShowsPage (s.putChar ch) (p.put (onText ch)) := by
  have hcols : textCols = 80 := rfl
  have hrows : textRows = 25 := rfl
  obtain ⟨hon, hcell⟩ := cursor_putChar h.onScreen ch
  have hcur := h.cursor
  have hlt := cursorCell_lt h.onScreen
  have hsucc := @top_succ textCols textRows p.head (by decide) (by decide)
  have hhead : (p.put (onText ch)).head = p.head + 1 := rfl
  have htext {i : Nat} (hi : i < textCols * textRows) := vgaText_putChar_screen h.onScreen ch hi
  have hcells := h.cells
  have hbelow := h.below
  generalize top textCols textRows p.head = k at *
  unfold cellAfter at hcell
  have hiff : p.head + 1 = textCols * (k + textRows) ↔ p.head + 1 = 80 * (k + 25) := by
    rw [hcols, hrows]
  simp only [hiff] at hsucc
  simp only [hcols, hrows] at hcur hlt hcell hcells hbelow htext
  -- the head leaves the window with the last cell of the screen
  by_cases hend : s.cursorCell + 1 = 80 * 25
  · rw [if_pos (by omega)] at hsucc
    rw [if_neg (by omega)] at hcell
    refine ⟨hon, ?_, fun i hi => ?_, fun i hi => ?_⟩
    · rw [hhead, hsucc, hcell, hcols]
      omega
    · rw [hcols, hrows] at hi
      rw [hhead, hsucc, hcols, Page.put_cells, htext hi, if_pos hend]
      by_cases hbot : 80 * (25 - 1) ≤ i
      · rw [if_pos hbot, if_neg (by omega), hbelow _ (by omega)]
      · rw [if_neg hbot, hcells _ (by omega)]
        have hsame : 80 * k + (i + 80) = 80 * (k + 1) + i := by omega
        have hiff : i + 80 = s.cursorCell ↔ 80 * (k + 1) + i = p.head := by omega
        simp only [hsame, hiff]
    · rw [hhead, hsucc, hcols, hrows] at hi
      rw [Page.put_cells, if_neg (by omega), hbelow _ (by omega)]
  · rw [if_neg (by omega)] at hsucc
    rw [if_pos (by omega)] at hcell
    refine ⟨hon, ?_, fun i hi => ?_, fun i hi => ?_⟩
    · rw [hhead, hsucc, hcell, hcols]
      omega
    · rw [hcols, hrows] at hi
      rw [hhead, hsucc, hcols, Page.put_cells, htext hi, if_neg hend, hcells i hi]
      have hiff : i = s.cursorCell ↔ 80 * k + i = p.head := by omega
      simp only [hiff]
    · rw [hhead, hsucc, hcols, hrows] at hi
      rw [Page.put_cells, if_neg (by omega), hbelow _ (by omega)]

/-! ## A run of calls -/

theorem showsPage_calls :
    ∀ {rs : List (Fin 16 → U64)} {s : Cpu} {p : Page U16}, ShowsPage s p →
      EachCall (fun t => t.reg8 .ah = 0x0E) rs s →
      ShowsPage (calls rs s) (p.write ((teletypeText rs).map onText))
  | [], _, _, h, _ => h
  | r :: rs, s, p, h, hcalls => by
    have hcall : call r s = { s with regs := r }.putChar (u8 (r 0)) := video_teletype hcalls.1
    have hregs : ShowsPage { s with regs := r } p := ⟨h.onScreen, h.cursor, h.cells, h.below⟩
    have hone : ShowsPage (call r s) (p.put (onText (u8 (r 0)))) := by
      rw [hcall]
      exact hregs.putChar _
    have hrest := showsPage_calls hone hcalls.2
    exact hrest

/-- After any text typed from a cursor on the screen, the screen is the last rows of the page it
began: the characters stand one after another from the old cursor, what they did not reach is as it
was, and the cursor is after the last of them. -/
theorem teletype_page (hs : s.OnScreen) {rs : List (Fin 16 → U64)}
    (hcalls : EachCall (fun t => t.reg8 .ah = 0x0E) rs s) :
    let p := s.screenPage.write ((teletypeText rs).map onText)
    ShowsPage (calls rs s) p ∧ p.head = s.cursorCell + rs.length ∧
      (∀ i (h : i < rs.length), p.cells (s.cursorCell + i) = onText (u8 (rs.get ⟨i, h⟩ 0))) ∧
      ∀ i, i < s.cursorCell ∨ s.cursorCell + rs.length ≤ i → p.cells i = s.screenPage.cells i := by
  have hlen : ((teletypeText rs).map onText).length = rs.length := by
    rw [teletypeText, List.length_map, List.length_map]
  have hhead : s.screenPage.head = s.cursorCell := rfl
  refine ⟨showsPage_calls (showsPage_screenPage hs) hcalls, ?_, fun i hi => ?_, fun i hi => ?_⟩
  · rw [Page.write_head, hlen, hhead]
  · rw [Page.write_cells, hhead, if_pos (Nat.le_add_right _ _), Nat.add_sub_cancel_left,
      List.getD_eq_getElem _ _ (by omega)]
    simp [teletypeText]
  · rw [Page.write_cells, hhead]
    split
    · exact List.getD_eq_default _ _ (by omega)
    · rfl

/-- A letter typed in the last cell of a screen moves it a row up. -/
theorem teletype_page_scrolls :
    let s := { Cpu.withRam (2 ^ 20) Memory.mib_le 0 with
      vga := { (Cpu.withRam (2 ^ 20) Memory.mib_le 0).vga with cursorRow := 24, cursorCol := 79 } }
    let r (i : Fin 16) : U64 := if i = 0 then 0x0E41 else 0
    let p := s.screenPage.write ((teletypeText [r]).map onText)
    ShowsPage (calls [r] s) p ∧ p.cells 1999 = 0x0741 ∧ top textCols textRows p.head = 1 := by
  intro s r p
  obtain ⟨hshows, hhead, hcells, -⟩ := @teletype_page s ⟨by decide, by decide⟩ [r]
    ⟨by decide, trivial⟩
  have hcell : s.cursorCell = 1999 := rfl
  have hlast := hcells 0 Nat.one_pos
  rw [hcell] at hhead hlast
  refine ⟨hshows, hlast.trans (by decide), ?_⟩
  rw [hhead]
  decide

end X86Emu.Cpu
