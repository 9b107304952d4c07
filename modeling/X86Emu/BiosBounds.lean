import X86Emu.Bios
import X86Emu.MemoryFacts

/-!
# Bounds of the disk and video services

INT 13h and INT 10h take their addresses from guest registers unchecked. The sector number is
counted from one and the rest from zero; the cursor may be anywhere; and scrolling moves the whole
text window, of which the screen is the first 2000 cells.
-/
namespace X86Emu

namespace Memory

/-- Bytes written one after the other. -/
theorem stored_bytes (a : U64) (f : Nat → U8) :
    ∀ (m : Memory) (n : Nat), n ≤ 2 ^ 64 → Stored m
      ((List.range n).foldl (fun m i => m.writeU8 (a + BitVec.ofNat 64 i) (f i)) m) a n f
  | m, 0, _ => .refl m a f
  | m, n + 1, hn => by
    have ih := stored_bytes a f m n (by omega)
    rw [List.range_succ, List.foldl_append, List.foldl_cons, List.foldl_nil]
    have hlast := stored_writeU8 ((List.range n).foldl
      (fun m i => m.writeU8 (a + BitVec.ofNat 64 i) (f i)) m) (a + BitVec.ofNat 64 n) (f n)
    refine (ih.append hlast hn).congr fun i hi => ?_
    split
    · rfl
    · exact congrArg f (by omega)

end Memory

namespace Cpu

variable {s : Cpu}

/-! ## INT 13h -/

/-- No result wrapped: each word is the integer it stands for. -/
def NoOverflow {n : Nat} (steps : List (BitVec n × Int)) : Prop :=
  ∀ p ∈ steps, (p.1.toNat : Int) = p.2

/-- The sums and products by which a transfer is addressed, beside their exact values. -/
def chsSteps (s : Cpu) : List (U64 × Int) :=
  let count := u64 (s.reg8 .al)
  let cyl := u64 (s.reg8 .ch)
  let sector := u64 (s.reg8 .cl)
  let head := u64 (s.reg8 .dh)
  let n : Int := (s.reg8 .al).toNat
  let c : Int := (s.reg8 .ch).toNat
  let k : Int := (s.reg8 .cl).toNat
  let h : Int := (s.reg8 .dh).toNat
  [(cyl * 2, c * 2), (cyl * 2 + head, c * 2 + h), ((cyl * 2 + head) * 18, (c * 2 + h) * 18),
    (sector - 1, k - 1), ((cyl * 2 + head) * 18 + (sector - 1), (c * 2 + h) * 18 + (k - 1)),
    (s.chsOffset, ((c * 2 + h) * 18 + (k - 1)) * 512), (count * 512, n * 512),
    (s.chsOffset + count * 512, ((c * 2 + h) * 18 + (k - 1)) * 512 + n * 512)]

/-- The sectors a transfer names, with the sector number counted from one. -/
def chsByte (s : Cpu) : Nat :=
  (((s.reg8 .ch).toNat * 2 + (s.reg8 .dh).toNat) * 18 + ((s.reg8 .cl).toNat - 1)) * 512

def transferBytes (s : Cpu) : Nat := (s.reg8 .al).toNat * 512

/-- There is a disk, and the transfer lies within its image. -/
def InImage (s : Cpu) : Prop :=
  s.ide.present = true ∧ s.chsByte + s.transferBytes ≤ s.ide.disk.size

/-- The sectors are copied to ES:BX. -/
def ReadsSectors (s t : Cpu) : Prop :=
  ∃ mem, s.mem.Stored mem (Memory.phys s.es s.bx) s.transferBytes
      (fun i => s.ide.disk.getD (s.chsByte + i) 0) ∧
    t = { s with mem }.setFlags Flags.cf false

/-- The bytes at ES:BX are copied over the sectors. -/
def WritesSectors (s t : Cpu) : Prop :=
  ∃ disk : Array U8, disk.size = s.ide.disk.size ∧
    (∀ j, disk.getD j 0 = if s.chsByte ≤ j ∧ j < s.chsByte + s.transferBytes then
      s.mem.readU8 (Memory.phys s.es s.bx + BitVec.ofNat 64 (j - s.chsByte))
      else s.ide.disk.getD j 0) ∧
    t = { s with ide := { s.ide with disk } }.setFlags Flags.cf false

/-- What the transfer functions of INT 13h are for. -/
structure DiskRight (s : Cpu) : Prop where
  steps : NoOverflow s.chsSteps
  indexed : s.disk.panicked = s.panicked
  read : s.reg8 .ah = 0x02 → s.InImage → ReadsSectors s s.disk
  write : s.reg8 .ah = 0x03 → s.InImage → WritesSectors s s.disk
  refused : ¬ s.InImage → s.disk = s.setFlags Flags.cf true

theorem literals : (1 : U64).toNat = 1 ∧ (2 : U64).toNat = 2 ∧ (18 : U64).toNat = 18 ∧
    (512 : U64).toNat = 512 := by decide

/-- The product and the sum fit easily; only the sector number can wrap. -/
theorem chsOffset_toNat (h : s.reg8 .cl ≠ 0) : s.chsOffset.toNat = s.chsByte := by
  have hcl : (s.reg8 .cl).toNat ≠ 0 := fun h0 => h (BitVec.eq_of_toNat_eq h0)
  have h1 := (s.reg8 .cl).isLt
  have h2 := (s.reg8 .ch).isLt
  have h3 := (s.reg8 .dh).isLt
  obtain ⟨hone, htwo, heighteen, hsector⟩ := literals
  unfold chsOffset chsByte
  simp only [BitVec.toNat_mul, BitVec.toNat_add, BitVec.toNat_sub, BitVec.toNat_setWidth, hone,
    htwo, heighteen, hsector]
  omega

theorem noOverflow_chsSteps (h : s.reg8 .cl ≠ 0) : NoOverflow s.chsSteps := by
  have hcl : (s.reg8 .cl).toNat ≠ 0 := fun h0 => h (BitVec.eq_of_toNat_eq h0)
  have hoffset := chsOffset_toNat h
  unfold chsByte at hoffset
  have h0 := (s.reg8 .al).isLt
  have h1 := (s.reg8 .cl).isLt
  have h2 := (s.reg8 .ch).isLt
  have h3 := (s.reg8 .dh).isLt
  intro p hp
  simp only [chsSteps, List.mem_cons, List.not_mem_nil, or_false] at hp
  obtain ⟨hone, htwo, heighteen, hsector⟩ := literals
  rcases hp with rfl | rfl | rfl | rfl | rfl | rfl | rfl | rfl <;>
  · simp only [BitVec.toNat_mul, BitVec.toNat_add, BitVec.toNat_sub, BitVec.toNat_setWidth, hone,
      htwo, heighteen, hsector, hoffset]
    omega

/-- A sector number of zero wraps. -/
theorem overflow_of_sector_zero (h : s.reg8 .cl = 0) : ¬ NoOverflow s.chsSteps := by
  intro hno
  have hstep := hno (u64 (s.reg8 .cl) - 1, ((s.reg8 .cl).toNat : Int) - 1) (by simp [chsSteps])
  rw [h] at hstep
  exact absurd hstep (by decide)

/-- With a sector number the bound checked is the bound meant. -/
theorem fits_iff (h : s.reg8 .cl ≠ 0) :
    (s.ide.present && decide ((s.chsOffset + BitVec.ofNat 64 ((s.reg8 .al).toNat * 512)).toNat ≤
      s.ide.disk.size)) = true ↔ s.InImage := by
  have h0 := (s.reg8 .al).isLt
  have h1 := (s.reg8 .cl).isLt
  have h2 := (s.reg8 .ch).isLt
  have h3 := (s.reg8 .dh).isLt
  have hsum : (s.chsOffset + BitVec.ofNat 64 ((s.reg8 .al).toNat * 512)).toNat =
      s.chsByte + s.transferBytes := by
    rw [BitVec.toNat_add, chsOffset_toNat h, BitVec.toNat_ofNat]
    unfold chsByte transferBytes
    omega
  rw [Bool.and_eq_true, decide_eq_true_iff, hsum]
  rfl

theorem readSectors_eq (h : s.reg8 .cl ≠ 0) (hin : s.InImage) :
    readSectors (Memory.phys s.es s.bx) s.chsOffset s.transferBytes s = s.modifyMem fun m =>
      (List.range s.transferBytes).foldl (fun m i =>
        m.writeU8 (Memory.phys s.es s.bx + BitVec.ofNat 64 i) (s.ide.disk.getD (s.chsByte + i) 0))
        m := by
  rw [readSectors, chsOffset_toNat h, if_neg]
  have hle := hin.2
  omega

/-- The image after some of its bytes were replaced in order. -/
theorem getD_put (a : Nat) (f : Nat → U8) (d : Array U8) (j : Nat) :
    ∀ n, a + n ≤ d.size →
      ((List.range n).foldl (fun d i => d.setIfInBounds (a + i) (f i)) d).size = d.size ∧
      ((List.range n).foldl (fun d i => d.setIfInBounds (a + i) (f i)) d).getD j 0 =
        if a ≤ j ∧ j < a + n then f (j - a) else d.getD j 0
  | 0, _ => ⟨rfl, (if_neg (by omega)).symm⟩
  | n + 1, hn => by
    obtain ⟨hsize, hget⟩ := getD_put a f d j n (by omega)
    rw [List.range_succ, List.foldl_append, List.foldl_cons, List.foldl_nil]
    refine ⟨by rw [Array.size_setIfInBounds, hsize], ?_⟩
    by_cases hj : a + n = j
    · subst hj
      rw [if_pos (by omega), Array.getD_eq_getD_getElem?,
        Array.getElem?_setIfInBounds_self_of_lt (by omega)]
      exact congrArg f (by omega)
    · rw [Array.getD_eq_getD_getElem?, Array.getElem?_setIfInBounds_ne hj,
        ← Array.getD_eq_getD_getElem?, hget]
      by_cases hin : a ≤ j ∧ j < a + n
      · rw [if_pos hin, if_pos (by omega)]
      · rw [if_neg hin, if_neg (by omega)]

theorem writeSectors_eq (h : s.reg8 .cl ≠ 0) (hin : s.InImage) :
    writeSectors (Memory.phys s.es s.bx) s.chsOffset s.transferBytes s =
      { s with ide := { s.ide with
        disk := (List.range s.transferBytes).foldl (fun d i => d.setIfInBounds (s.chsByte + i)
          (s.mem.readU8 (Memory.phys s.es s.bx + BitVec.ofNat 64 i))) s.ide.disk } } := by
  rw [writeSectors, chsOffset_toNat h, if_neg]
  have hle := hin.2
  omega

/-- A transfer is right exactly when it names a sector. -/
theorem diskRight_iff (hah : s.reg8 .ah = 0x02 ∨ s.reg8 .ah = 0x03) :
    s.DiskRight ↔ s.reg8 .cl ≠ 0 := by
  refine ⟨fun h hcl => overflow_of_sector_zero hcl h.steps, fun h => ?_⟩
  have hreset : s.reg8 .ah ≠ 0x00 := by
    rcases hah with h2 | h3
    · rw [h2]; decide
    · rw [h3]; decide
  have hbytes : s.transferBytes < 2 ^ 64 := by
    have := (s.reg8 .al).isLt
    unfold transferBytes
    omega
  by_cases hin : s.InImage
  · have hfits := (fits_iff h).mpr hin
    have hread (h2 : s.reg8 .ah = 0x02) : s.disk = (readSectors (Memory.phys s.es s.bx) s.chsOffset
        s.transferBytes s).setFlags Flags.cf false := by
      unfold disk
      dsimp only
      rw [if_neg hreset, if_pos h2, if_pos hfits]
      rfl
    have hwrite (h3 : s.reg8 .ah = 0x03) : s.disk = (writeSectors (Memory.phys s.es s.bx)
        s.chsOffset s.transferBytes s).setFlags Flags.cf false := by
      have h2 : s.reg8 .ah ≠ 0x02 := by rw [h3]; decide
      unfold disk
      dsimp only
      rw [if_neg hreset, if_neg h2, if_pos h3, if_pos hfits]
      rfl
    refine ⟨noOverflow_chsSteps h, ?_, fun h2 _ => ?_, fun h3 _ => ?_,
      fun hout => absurd hin hout⟩
    · rcases hah with h2 | h3
      · rw [hread h2, readSectors_eq h hin]
        rfl
      · rw [hwrite h3, writeSectors_eq h hin]
        rfl
    · rw [hread h2, readSectors_eq h hin]
      exact ⟨_, s.mem.stored_bytes _ _ _ (by omega), rfl⟩
    · rw [hwrite h3, writeSectors_eq h hin]
      exact ⟨_, (getD_put _ _ _ 0 _ hin.2).1, fun j => (getD_put _ _ _ j _ hin.2).2, rfl⟩
  · have hfits := fun hc => hin ((fits_iff h).mp hc)
    have hdisk : s.disk = s.setFlags Flags.cf true := by
      unfold disk
      dsimp only
      rw [if_neg hreset, if_neg hfits, if_neg hfits]
      rcases hah with h2 | h3
      · rw [if_pos h2]
      · rw [if_neg (by rw [h3]; decide), if_pos h3]
    exact ⟨noOverflow_chsSteps h, by rw [hdisk]; rfl, fun _ hc => absurd hc hin,
      fun _ hc => absurd hc hin, fun _ => hdisk⟩

/-! ## INT 10h -/

/-- The cells past the 80 by 25 screen are left, whatever the text window holds. -/
def LeavesOffscreen (s : Cpu) : Prop :=
  ∀ (text : Nat → U16) (i : Nat), textCols * textRows ≤ i →
    (s.modifyMem fun m => { m with vgaText := text }).video.mem.vgaText i = text i

/-- The sums by which a call moves the cursor, beside their exact values. -/
def cursorSteps (s : Cpu) : List (U8 × Int) :=
  let col := s.vga.cursorCol
  let row := s.vga.cursorRow
  if s.reg8 .ah = 0x0E then
    (col + 1, (col.toNat : Int) + 1) ::
      if (col + 1).toNat ≥ textCols then [(row + 1, (row.toNat : Int) + 1)] else []
  else []

/-- What a call of INT 10h must not do. -/
structure ScreenSafe (s : Cpu) : Prop where
  cursor : NoOverflow s.cursorSteps
  offscreen : s.LeavesOffscreen

/-- A teletype character neither starts in the last column a byte can name nor ends the last
line. -/
def StaysOnScreen (s : Cpu) : Prop :=
  s.reg8 .ah = 0x0E →
    s.vga.cursorCol ≠ 255 ∧ ¬ (79 ≤ s.vga.cursorCol.toNat ∧ 24 ≤ s.vga.cursorRow.toNat)

/-- A character goes to a cell of the screen, or nowhere. -/
theorem vgaText_putCharAt (m : Memory) (row col : Nat) (ch : U8) {i : Nat}
    (hi : textCols * textRows ≤ i) : (m.putCharAt row col ch).vgaText i = m.vgaText i := by
  unfold Memory.putCharAt
  split
  · rename_i hin
    have hrows : textRows = 25 := rfl
    have hcols : textCols = 80 := rfl
    refine if_neg ?_
    rw [hrows, hcols] at hin
    rw [hcols, hrows] at hi
    rw [hcols]
    omega
  · rfl

theorem vgaText_putString (base : U64) (row col n : Nat) (s : Cpu) {i : Nat}
    (hi : textCols * textRows ≤ i) :
    (putString base row col n s).mem.vgaText i = s.mem.vgaText i := by
  unfold putString
  induction n with
  | zero => rfl
  | succ n ih =>
    rw [List.range_succ, List.foldl_append, List.foldl_cons, List.foldl_nil]
    exact (vgaText_putCharAt _ _ _ _ hi).trans ih

theorem mem_setReg8 (s : Cpu) (r : Reg8) (v : U8) : (s.setReg8 r v).mem = s.mem := by
  unfold setReg8
  split
  · rfl
  · split <;> rfl

/-- Off the end of the last line a character scrolls; elsewhere it writes its own cell. -/
theorem vgaText_putChar (s : Cpu) (ch : U8) {i : Nat} (hi : textCols * textRows ≤ i) :
    (s.putChar ch).mem.vgaText i =
      if textCols ≤ (s.vga.cursorCol + 1).toNat ∧ textRows ≤ (s.vga.cursorRow + 1).toNat then
        if i + textCols < Memory.vgaTextCells then s.mem.vgaText (i + textCols)
        else s.mem.vgaText i
      else s.mem.vgaText i := by
  have hcell {j : Nat} (hj : textCols * textRows ≤ j) := vgaText_putCharAt s.mem
    s.vga.cursorRow.toNat s.vga.cursorCol.toNat ch hj
  unfold putChar
  dsimp only [modifyMem]
  split
  · rename_i hcol
    split
    · rename_i hrow
      rw [if_pos ⟨hcol, hrow⟩]
      dsimp only [Memory.scroll]
      rw [if_neg (by omega), hcell hi, hcell (by omega)]
    · rename_i hrow
      rw [if_neg fun hc => hrow hc.2]
      exact hcell hi
  · rename_i hcol
    rw [if_neg fun hc => hcol hc.1]
    exact hcell hi

theorem video_teletype (h : s.reg8 .ah = 0x0E) : s.video = s.putChar (s.reg8 .al) := by
  unfold video
  rw [h]
  rfl

/-- Only a teletype character touches a cell past the screen. -/
theorem vgaText_video (h : s.reg8 .ah ≠ 0x0E) {i : Nat} (hi : textCols * textRows ≤ i) :
    s.video.mem.vgaText i = s.mem.vgaText i := by
  unfold video
  split_ifs
  · rfl
  · rfl
  · rw [mem_setReg8, mem_setReg8]
  · exact vgaText_putString _ _ _ _ _ hi
  · rfl

theorem noOverflow_cursorSteps (h : s.reg8 .ah = 0x0E) :
    NoOverflow s.cursorSteps ↔
      s.vga.cursorCol ≠ 255 ∧ ¬ (79 ≤ s.vga.cursorCol.toNat ∧ s.vga.cursorRow = 255) := by
  have hsum (v : U8) : ((v + 1).toNat : Int) = (v.toNat : Int) + 1 ↔ v ≠ 255 := by
    have hv := v.isLt
    have hone : (1 : U8).toNat = 1 := rfl
    have h255 : (255 : U8).toNat = 255 := rfl
    rw [BitVec.toNat_add, hone, Ne, ← BitVec.toNat_inj, h255]
    omega
  have hcols : textCols = 80 := rfl
  unfold NoOverflow cursorSteps
  dsimp only
  rw [if_pos h, List.forall_mem_cons, hsum]
  refine and_congr_right fun hcol => ?_
  have hnext : (s.vga.cursorCol + 1).toNat = s.vga.cursorCol.toNat + 1 := by
    have := (hsum _).mpr hcol
    omega
  rw [hnext, hcols]
  split
  · rename_i hge
    rw [List.forall_mem_singleton, hsum]
    exact ⟨fun hr hc => hr hc.2, fun hc hr => hc ⟨by omega, hr⟩⟩
  · rename_i hlt
    exact ⟨fun _ hc => hlt (by omega), fun _ _ hp => nomatch hp⟩

/-- A call is safe exactly when it stays on the screen. -/
theorem screenSafe_iff (s : Cpu) : s.ScreenSafe ↔ s.StaysOnScreen := by
  have hcols : textCols = 80 := rfl
  have hrows : textRows = 25 := rfl
  have hone : (1 : U8).toNat = 1 := rfl
  have h255 : (255 : U8).toNat = 255 := rfl
  by_cases h : s.reg8 .ah = 0x0E
  · have hstep (text : Nat → U16) {i : Nat} (hi : textCols * textRows ≤ i) :=
      vgaText_putChar (s.modifyMem fun m => { m with vgaText := text }) (s.reg8 .al) hi
    have hvideo (text : Nat → U16) :
        (s.modifyMem fun m => { m with vgaText := text }).video =
          (s.modifyMem fun m => { m with vgaText := text }).putChar (s.reg8 .al) :=
      video_teletype h
    have hcol := s.vga.cursorCol.isLt
    have hrow := s.vga.cursorRow.isLt
    constructor
    · rintro ⟨hcursor, hleaves⟩ -
      obtain ⟨hc, hr⟩ := (noOverflow_cursorSteps h).mp hcursor
      refine ⟨hc, fun hend => ?_⟩
      rw [Ne, ← BitVec.toNat_inj, h255] at hc
      rw [← BitVec.toNat_inj, h255] at hr
      -- a window whose cell below the first row past the screen alone is marked
      have hmoved := hleaves (fun j => if j = 2080 then 1 else 0) 2000 (by decide)
      rw [hvideo, hstep _ (by decide), if_pos, if_pos (by decide)] at hmoved
      · exact absurd (show (1 : U16) = 0 from hmoved) (by decide)
      · rw [hcols, hrows]
        show 80 ≤ (s.vga.cursorCol + 1).toNat ∧ 25 ≤ (s.vga.cursorRow + 1).toNat
        rw [BitVec.toNat_add, BitVec.toNat_add, hone]
        omega
    · intro hstays
      obtain ⟨hc, hend⟩ := hstays h
      refine ⟨(noOverflow_cursorSteps h).mpr ⟨hc, fun hr => hend ⟨hr.1, ?_⟩⟩,
        fun text i hi => ?_⟩
      · rw [hr.2]
        decide
      · rw [hvideo, hstep text hi, if_neg]
        · rfl
        · rw [hcols, hrows]
          show ¬ (80 ≤ (s.vga.cursorCol + 1).toNat ∧ 25 ≤ (s.vga.cursorRow + 1).toNat)
          rw [BitVec.toNat_add, BitVec.toNat_add, hone]
          omega
  · refine ⟨fun _ hc => absurd hc h, fun _ => ⟨?_, fun text i hi => ?_⟩⟩
    · unfold NoOverflow cursorSteps
      rw [if_neg h]
      exact fun _ hp => nomatch hp
    · exact vgaText_video (s := s.modifyMem fun m => { m with vgaText := text }) h hi

/-! ### Sequences of calls -/

/-- A call of INT 10h with the given registers. -/
def call (r : Fin 16 → U64) (s : Cpu) : Cpu := { s with regs := r }.video

def calls (rs : List (Fin 16 → U64)) (s : Cpu) : Cpu := rs.foldl (fun s r => call r s) s

/-- Every call of a sequence, made in the state the ones before it left, satisfies `P`. -/
def EachCall (P : Cpu → Prop) : List (Fin 16 → U64) → Cpu → Prop
  | [], _ => True
  | r :: rs, s => P { s with regs := r } ∧ EachCall P rs (call r s)

theorem EachCall.mono {P Q : Cpu → Prop} (hpq : ∀ s, P s → Q s) :
    ∀ {rs : List (Fin 16 → U64)} {s : Cpu}, EachCall P rs s → EachCall Q rs s
  | [], _, _ => trivial
  | _ :: _, _, h => ⟨hpq _ h.1, h.2.mono hpq⟩

/-- A sequence that stays on the screen leaves the rest of the text window. -/
theorem offscreen_calls {i : Nat} (hi : textCols * textRows ≤ i) :
    ∀ {rs : List (Fin 16 → U64)} {s : Cpu}, EachCall StaysOnScreen rs s →
      (calls rs s).mem.vgaText i = s.mem.vgaText i
  | [], _, _ => rfl
  | r :: rs, s, h => by
    have hone := ((screenSafe_iff { s with regs := r }).mpr h.1).offscreen s.mem.vgaText i hi
    exact (offscreen_calls hi h.2).trans hone

def OnScreen (s : Cpu) : Prop :=
  s.vga.cursorRow.toNat < textRows ∧ s.vga.cursorCol.toNat < textCols

/-- The cell of the cursor. -/
def cursorCell (s : Cpu) : Nat := s.vga.cursorRow.toNat * textCols + s.vga.cursorCol.toNat

/-- The cell `n` after `p`, on the last row once the screen is full. -/
def cellAfter (p n : Nat) : Nat :=
  if p + n < textCols * textRows then p + n
  else textCols * (textRows - 1) + (p + n) % textCols

theorem cellAfter_succ (p n : Nat) :
    cellAfter (cellAfter p 1) n = cellAfter p (n + 1) := by
  have hcols : textCols = 80 := rfl
  have hrows : textRows = 25 := rfl
  unfold cellAfter
  rw [hcols, hrows] at *
  split_ifs <;> omega

/-- A character moves the cursor one cell on, or scrolls it back to the start of the last row. -/
theorem cursor_putChar (h : s.OnScreen) (ch : U8) :
    (s.putChar ch).OnScreen ∧ (s.putChar ch).cursorCell = cellAfter s.cursorCell 1 := by
  have hcols : textCols = 80 := rfl
  have hrows : textRows = 25 := rfl
  have hone : (1 : U8).toNat = 1 := rfl
  obtain ⟨hrow, hcol⟩ := h
  have hnextcol : (s.vga.cursorCol + 1).toNat = s.vga.cursorCol.toNat + 1 := by
    rw [BitVec.toNat_add, hone]
    omega
  have hnextrow : (s.vga.cursorRow + 1).toNat = s.vga.cursorRow.toNat + 1 := by
    rw [BitVec.toNat_add, hone]
    omega
  have hlast : (24 : U8).toNat = 24 := rfl
  have hzero : (0 : U8).toNat = 0 := rfl
  unfold putChar OnScreen cursorCell cellAfter
  dsimp only [modifyMem]
  rw [hcols, hrows] at *
  split_ifs <;> dsimp only <;> simp only [hlast, hzero, hnextcol, hnextrow] at * <;>
    constructor <;> omega

/-- Teletype output from a cursor on the screen moves it a cell for each character. -/
theorem cursor_calls :
    ∀ {rs : List (Fin 16 → U64)} {s : Cpu}, s.OnScreen →
      EachCall (fun t => t.reg8 .ah = 0x0E) rs s →
      (calls rs s).OnScreen ∧ (calls rs s).cursorCell = cellAfter s.cursorCell rs.length ∧
        EachCall (fun t => NoOverflow t.cursorSteps) rs s
  | [], s, hs, _ => by
    have hcols : textCols = 80 := rfl
    have hrows : textRows = 25 := rfl
    refine ⟨hs, (if_pos ?_).symm, trivial⟩
    obtain ⟨hrow, hcol⟩ := hs
    unfold cursorCell
    rw [hcols, hrows] at *
    simp only [List.length_nil]
    omega
  | r :: rs, s, hs, h => by
    have hcols : textCols = 80 := rfl
    have hrows : textRows = 25 := rfl
    have hcall : call r s = { s with regs := r }.putChar ({ s with regs := r }.reg8 .al) :=
      video_teletype h.1
    obtain ⟨hon, hcell⟩ := cursor_putChar (s := { s with regs := r }) hs
      ({ s with regs := r }.reg8 .al)
    rw [← hcall] at hon hcell
    obtain ⟨hend, hcells, heach⟩ := cursor_calls hon h.2
    refine ⟨hend, ?_, (noOverflow_cursorSteps h.1).mpr ?_, heach⟩
    · have hsame : ({ s with regs := r } : Cpu).cursorCell = s.cursorCell := rfl
      exact hcells.trans ((congrArg (cellAfter · rs.length) (hcell.trans (by rw [hsame]))).trans
        (cellAfter_succ _ _))
    · have h255 : (255 : U8).toNat = 255 := rfl
      have hcol : s.vga.cursorCol.toNat < 80 := hs.2
      have hrow : s.vga.cursorRow.toNat < 25 := hs.1
      rw [Ne, ← BitVec.toNat_inj, ← BitVec.toNat_inj, h255]
      dsimp only
      omega

/-- A disk transfer is right exactly when it names a sector, and a video call safe exactly when it
stays on the screen; so is every sequence of calls that do. From a cursor on the screen `n` teletype
characters leave it `n` cells on, or on the last row. -/
theorem bios_bounds_iff (s : Cpu) (rs : List (Fin 16 → U64)) :
    (s.reg8 .ah = 0x02 ∨ s.reg8 .ah = 0x03 → (s.DiskRight ↔ s.reg8 .cl ≠ 0)) ∧
    (s.ScreenSafe ↔ s.StaysOnScreen) ∧
    (EachCall StaysOnScreen rs s → EachCall ScreenSafe rs s ∧
      ∀ i, textCols * textRows ≤ i → (calls rs s).mem.vgaText i = s.mem.vgaText i) ∧
    (s.OnScreen → EachCall (fun t => t.reg8 .ah = 0x0E) rs s →
      (calls rs s).OnScreen ∧ (calls rs s).cursorCell = cellAfter s.cursorCell rs.length ∧
        EachCall (fun t => NoOverflow t.cursorSteps) rs s) := by
  refine ⟨fun hah => diskRight_iff hah, screenSafe_iff s, fun h => ?_, cursor_calls⟩
  exact ⟨h.mono fun t ht => (screenSafe_iff t).mpr ht, fun i hi => offscreen_calls hi h⟩

end Cpu

/-- Cylinder, head and sector zero with one sector to read, on a disk of two sectors. -/
def sectorZero : Cpu :=
  let s := Cpu.withRam (2 ^ 20) Memory.mib_le 0
  { s with
    regs := fun i => if i = 0 then 0x0201 else 0
    ide := { s.ide with present := true, disk := Array.replicate 1024 0 } }

/-- The offset wraps to 512 bytes below zero, passes the bound, and indexes past the image. -/
theorem sector_zero_aborts :
    sectorZero.reg8 .ah = 0x02 ∧ sectorZero.disk.panicked = true ∧ ¬ sectorZero.DiskRight := by
  have hread : sectorZero.reg8 .ah = 0x02 := by decide
  have hpanic : sectorZero.disk.panicked = true := by decide +kernel
  refine ⟨hread, hpanic, fun h => ?_⟩
  have hkept := h.indexed
  rw [hpanic] at hkept
  exact absurd hkept (by decide)

end X86Emu
