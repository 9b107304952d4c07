import X86Emu.FxImage
import X86Emu.LinearBytes

/-!
# FXSAVE, then FXRSTOR

Over an accessible area FXSAVE stores its whole image, the reserved bytes included, and FXRSTOR loads
it again. Software sees no difference exactly when TOP stands in the status word as well, the tag
word's unused half is set, MXCSR has no reserved bit and the reserved bytes were zero before.
-/
namespace X86Emu

open StateRules

namespace Cpu

/-- The linear addresses of an FXSAVE area. -/
def fxLinear (s : Cpu) (m : ModRm) (k : Nat) : U64 :=
  s.linearAddr (s.sseOperand m).1 ((s.sseOperand m).2 + BitVec.ofNat 64 k)

/-- An aligned operand whose 512 bytes are granted to stores, have memory behind them and are not
among the entries that translate them, on a machine about to execute an instruction. -/
structure FxArea (s : Cpu) (m : ModRm) (phys : Nat → U64) : Prop where
  memory : m.isReg = false
  aligned : s.linearAddr (s.sseOperand m).1 (s.sseOperand m).2 &&& 15 = 0
  clear : s.pendingException = none
  area : s.DataArea 512 (s.fxLinear m) phys

/-- The bytes FXSAVE is to leave as they were: those of XMM8 to XMM15 outside long mode, and the
last 48. -/
def FxKept (s : Cpu) (k : Nat) : Prop :=
  (s.longMode = false ∧ 288 ≤ k ∧ k < 416) ∨ (464 ≤ k ∧ k < 512)

/-- Software sees nothing of FXSAVE and FXRSTOR: the state is as before, a second FXSAVE stores the
same image, and the first left the bytes it is to leave. -/
structure FxInvisible (s : Cpu) (m : ModRm) (phys : Nat → U64) : Prop where
  clear : (fxrstor m (fxsave m s).2).2.pendingException = none
  view : (fxrstor m (fxsave m s).2).2.fxView = s.fxView
  image : ∀ k < 512, (fxsave m (fxrstor m (fxsave m s).2).2).2.mem.readU8 (phys k) =
    (fxsave m s).2.mem.readU8 (phys k)
  kept : ∀ k, s.FxKept k → (fxsave m s).2.mem.readU8 (phys k) = s.mem.readU8 (phys k)

variable {s : Cpu} {m : ModRm} {phys : Nat → U64}

theorem consecutive_fxLinear (s : Cpu) (m : ModRm) : Consecutive 512 (s.fxLinear m) :=
  s.consecutive_linearAddr _ _ (by decide)

theorem FxArea.withTables {tlb : Fin 256 → TlbEntry} {mem : Memory} (h : s.FxArea m phys)
    (harea : (s.withTables tlb mem).DataArea 512 (s.fxLinear m) phys) :
    (s.withTables tlb mem).FxArea m phys :=
  ⟨h.memory, h.aligned, h.clear, harea⟩

/-! ## The two instructions over an area -/

/-- FXSAVE stores its image. -/
theorem fxsave_area (h : s.FxArea m phys) : ∃ tlb mem, (fxsave m s).2 = s.withTables tlb mem ∧
    (s.withTables tlb mem).FxArea m phys ∧ ∀ k < 512, mem.readU8 (phys k) = s.fxsaveImage k := by
  obtain ⟨tlb, mem, hrun, harea, hbyte⟩ := writeLinearBytes_area (fun _ => rfl)
    (consecutive_fxLinear s m) h.clear s.fxsaveImage 512 0 s.tlb s.mem (by decide) h.area
  refine ⟨tlb, mem, ?_, h.withTables harea, fun k hk => (hbyte k hk).trans (if_pos (Nat.zero_le k))⟩
  rw [fxsave, bind_run, get_run]
  dsimp only
  rw [h.memory, if_neg Bool.false_ne_true, ite_run, if_neg (not_not.mpr h.aligned)]
  exact hrun

/-- FXRSTOR loads the image the area holds. -/
theorem fxrstor_area (h : s.FxArea m phys) : ∃ b tlb mem,
    (fxrstor m s).2 = (s.withTables tlb mem).fxrstorImage b ∧
      (s.withTables tlb mem).FxArea m phys ∧
      (∀ k < 512, mem.readU8 (phys k) = s.mem.readU8 (phys k)) ∧
      ∀ k < 512, b k = s.mem.readU8 (phys k) := by
  obtain ⟨b, tlb, mem, hrun, harea, hkept, hread⟩ := readLinearBytes_area (fun _ => rfl)
    (consecutive_fxLinear s m) h.clear 512 0 (fun _ => 0) s.tlb s.mem (by decide) h.area
  have himage : s.fxImage m = (b, s.withTables tlb mem) := hrun
  refine ⟨b, tlb, mem, ?_, h.withTables harea, hkept,
    fun k hk => (hread k hk).trans (if_pos (Nat.zero_le k))⟩
  have hclear : ¬ (s.withTables tlb mem).pendingException.isSome = true := by
    show ¬ s.pendingException.isSome = true
    rw [h.clear]
    exact Bool.false_ne_true
  rw [fxrstor_eq, himage, h.memory, if_neg Bool.false_ne_true, if_neg (not_not.mpr h.aligned),
    if_neg hclear]

/-! ## One after the other -/

theorem FxArea.withFx (h : s.FxArea m phys) (fpu : Fpu) (mxcsr : U32) (xmm : Fin 16 → U128) :
    (s.withFx fpu mxcsr xmm).FxArea m phys :=
  ⟨h.memory, h.aligned, h.clear, h.area.target, h.area.backed, h.area.apart⟩

/-- FXSAVE stores zeros where it is to store nothing. -/
theorem fxsaveImage_kept {k : Nat} (h : s.FxKept k) : s.fxsaveImage k = 0 := by
  have hlast : 160 + 16 * (if s.longMode then 16 else 8) ≤ k := by
    rcases h with ⟨hlong, hk, -⟩ | ⟨hk, -⟩
    · rw [hlong]
      exact hk
    · split <;> omega
  have hk : 288 ≤ k := by
    split at hlast <;> omega
  unfold fxsaveImage
  dsimp only
  rw [if_neg (by omega), if_neg (by omega), if_neg (by omega), if_neg (by omega), if_neg (by omega),
    if_neg (by omega), if_neg (by omega)]

theorem FxKept.lt {k : Nat} (h : s.FxKept k) : k < 512 := by
  rcases h with ⟨-, -, hk⟩ | ⟨-, hk⟩ <;> omega

/-- FXSAVE leaves the image in the area, and FXRSTOR loads it on a machine that differs in its
tables only. -/
structure FxRun (s : Cpu) (m : ModRm) (phys : Nat → U64) (a u : Cpu) (b : Nat → U8) : Prop where
  saved : (fxsave m s).2 = a
  loaded : (fxrstor m a).2 = u.fxrstorImage b
  image : ∀ k < 512, a.mem.readU8 (phys k) = s.fxsaveImage k
  read : ImageOf b s
  tables : ∃ tlb mem, u = s.withTables tlb mem
  area : u.FxArea m phys

theorem fx_run (h : s.FxArea m phys) : ∃ a u b, FxRun s m phys a u b := by
  obtain ⟨tlb, mem, hsave, harea, himage⟩ := fxsave_area h
  obtain ⟨b, tlb', mem', hload, harea', -, hread⟩ := fxrstor_area harea
  exact ⟨_, _, b, hsave, hload, himage, fun k hk => (hread k hk).trans (himage k hk),
    ⟨tlb', mem', rfl⟩, harea'⟩

/-- FXSAVE zeroes the bytes it is to leave. -/
theorem fxsave_kept (h : s.FxArea m phys) {k : Nat} (hk : s.FxKept k) :
    (fxsave m s).2.mem.readU8 (phys k) = 0 := by
  obtain ⟨a, u, b, hrun⟩ := fx_run h
  rw [hrun.saved, hrun.image k hk.lt, fxsaveImage_kept hk]

theorem FxInvisible.kept_zero (hinv : s.FxInvisible m phys) (h : s.FxArea m phys) {k : Nat}
    (hk : s.FxKept k) : s.mem.readU8 (phys k) = 0 := by
  rw [← hinv.kept k hk, fxsave_kept h hk]

/-- A state that comes back is formed. -/
theorem FxInvisible.formed (hinv : s.FxInvisible m phys) (h : s.FxArea m phys) : s.FxFormed := by
  obtain ⟨a, u, b, hrun⟩ := fx_run h
  obtain ⟨tlb, mem, rfl⟩ := hrun.tables
  have hclear := hinv.clear
  have hview := hinv.view
  rw [hrun.saved, hrun.loaded] at hclear hview
  have hmx : test s.mxcsr (~~~mxcsrMask) = false := by
    rw [← hrun.read.mxcsr]
    exact Bool.eq_false_iff.mpr fun hmx => fxrstorImage_faults hrun.area.clear hmx hclear
  have hloaded := (view_fxrstorImage (u := s.withTables tlb mem) hrun.read rfl rfl hmx).symm.trans hview
  exact ⟨(savedStatus_eq_iff s).mp (congrArg FxView.status hloaded),
    (loadedTag_eq_iff _).mp (congrArg FxView.tag hloaded), hmx⟩

/-- A formed state comes back. -/
theorem FxFormed.invisible (hs : s.FxFormed) (h : s.FxArea m phys)
    (hzero : ∀ k, s.FxKept k → s.mem.readU8 (phys k) = 0) : s.FxInvisible m phys := by
  obtain ⟨a, u, b, hrun⟩ := fx_run h
  obtain ⟨tlb, mem, rfl⟩ := hrun.tables
  have hback : (fxrstor m (fxsave m s).2).2.fxView = s.fxView := by
    rw [hrun.saved, hrun.loaded]
    exact hs.view_fxrstorImage hrun.read rfl rfl
  obtain ⟨fpu, mxcsr, xmm, hfx⟩ := fxrstorImage_eq (u := s.withTables tlb mem)
    (hrun.read.mxcsr.symm ▸ hs.mxcsr)
  have hstate : (fxrstor m (fxsave m s).2).2 = (s.withTables tlb mem).withFx fpu mxcsr xmm := by
    rw [hrun.saved, hrun.loaded, hfx]
  refine ⟨?_, hback, fun k hk => ?_, fun k hk => ?_⟩
  · rw [hstate]
    exact h.clear
  · -- the second FXSAVE starts from what software saw before the first
    obtain ⟨tlb', mem', hagain, -, himage⟩ := fxsave_area (hrun.area.withFx fpu mxcsr xmm)
    rw [hstate] at hback
    have hsame := congrFun (fxsaveImage_congr hback rfl) k
    rw [hstate, hagain, hrun.saved, hrun.image k hk]
    exact (himage k hk).trans hsame
  · rw [fxsave_kept h hk, hzero k hk]

/-- FXSAVE and FXRSTOR are invisible exactly when TOP stands in the status word, the tag word's
unused half is set, MXCSR has no reserved bit, and the bytes to be kept are zero. -/
theorem fxInvisible_iff (h : s.FxArea m phys) :
    s.FxInvisible m phys ↔ s.FxFormed ∧ ∀ k, s.FxKept k → s.mem.readU8 (phys k) = 0 :=
  ⟨fun hinv => ⟨hinv.formed h, fun _ hk => hinv.kept_zero h hk⟩,
    fun ⟨hs, hzero⟩ => hs.invisible h hzero⟩

/-! ### Real mode -/

/-- A real-mode machine as reset leaves it. -/
def resetRam : Cpu := Cpu.withRam (2 ^ 20) Memory.mib_le 0

theorem resetRam_slot {k : Nat} (hk : k < 512) :
    resetRam.mem.slot (BitVec.ofNat 64 k) = some (BitVec.ofNat 64 k).toNat := by
  have hlow : resetRam.mem.lowSize = 2 ^ 20 := by decide +kernel
  rw [Memory.slot, if_pos (by rw [hlow, BitVec.toNat_ofNat]; omega)]

theorem resetRam_area : resetRam.FxArea atBx fun k => BitVec.ofNat 64 k where
  memory := rfl
  aligned := by decide
  clear := rfl
  area := by
    have hlin (k : Nat) (hk : k < 512) : resetRam.fxLinear atBx k = BitVec.ofNat 64 k := by
      have hsum : resetRam.fxLinear atBx k =
          (0#64 + (0#64 + BitVec.ofNat 64 k)) &&& 0xFFFFFFFF := rfl
      apply BitVec.eq_of_toNat_eq
      rw [hsum, BitVec.zero_add, BitVec.zero_add, BitVec.toNat_and, BitVec.toNat_ofNat]
      exact (Nat.and_two_pow_sub_one_eq_mod _ 32).trans (by omega)
    refine ⟨fun k hk => ?_, fun k hk => .inr ?_, fun hpg => absurd hpg (by decide)⟩
    · rw [hlin k hk]
      rfl
    · rw [resetRam_slot hk]
      rfl

/-- Memory with one value all over. -/
def filledWith (v : U8) : Memory := { resetRam.mem with data := fun _ => v }

def filledRam (v : U8) : Cpu := resetRam.withTables resetRam.tlb (filledWith v)

theorem filledRam_area (v : U8) : (filledRam v).FxArea atBx fun k => BitVec.ofNat 64 k :=
  resetRam_area.withTables
    (resetRam_area.area.stored (fun _ => rfl) fun hpg => absurd hpg (by decide))

theorem readU8_filledWith (v : U8) {k : Nat} (hk : k < 512) :
    (filledWith v).readU8 (BitVec.ofNat 64 k) = v := by
  have hvga : ¬ Memory.inVga (BitVec.ofNat 64 k) := by
    rw [Memory.inVga, BitVec.toNat_ofNat]
    omega
  have hslot : (filledWith v).slot (BitVec.ofNat 64 k) = _ := resetRam_slot hk
  rw [Memory.readU8_ram _ _ hvga, Memory.readU8Raw, hslot]
  rfl

/-- On a machine just reset, with memory of zeros, the two are invisible. -/
theorem cleanRam_invisible :
    (filledRam 0).FxInvisible atBx fun k => BitVec.ofNat 64 k :=
  (fxInvisible_iff (filledRam_area 0)).mpr
    ⟨⟨rfl, rfl, rfl⟩, fun _ hk => readU8_filledWith 0 hk.lt⟩

/-- The machine after FLD of a memory operand. -/
def loadedOnce : Cpu := (fld atBx true (filledRam 0x55)).2

theorem loadedOnce_area : loadedOnce.FxArea atBx fun k => BitVec.ofNat 64 k :=
  (filledRam_area 0x55).withFx ((filledRam 0x55).fpu.push ((filledRam 0x55).mem.readU64 0))
    (filledRam 0x55).mxcsr (filledRam 0x55).xmm

/-- After one FLD the status word FNSTSW returns changes, and FXSAVE overwrites the last byte of
the area. -/
theorem loadedOnce_visible : loadedOnce.FxArea atBx (fun k => BitVec.ofNat 64 k) ∧
    loadedOnce.fpu.fstsw = 0 ∧ (fxrstor atBx (fxsave atBx loadedOnce).2).2.fpu.fstsw = 0x3800 ∧
    loadedOnce.mem.readU8 511 = 0x55 ∧ (fxsave atBx loadedOnce).2.mem.readU8 511 = 0 ∧
    ¬ loadedOnce.FxInvisible atBx fun k => BitVec.ofNat 64 k := by
  have hmem : loadedOnce.mem.readU8 511 = 0x55 := readU8_filledWith 0x55 (k := 511) (by decide)
  have hzero : (fxsave atBx loadedOnce).2.mem.readU8 511 = 0 :=
    fxsave_kept loadedOnce_area (k := 511) (.inr (by decide))
  refine ⟨loadedOnce_area, rfl, ?_, hmem, hzero, fun hinv => ?_⟩
  · obtain ⟨a, u, b, hrun⟩ := fx_run loadedOnce_area
    obtain ⟨tlb, mem, rfl⟩ := hrun.tables
    have hview := view_fxrstorImage (u := loadedOnce.withTables tlb mem) hrun.read rfl rfl rfl
    rw [hrun.saved, hrun.loaded]
    exact congrArg FxView.status hview
  · have hkept : (fxsave atBx loadedOnce).2.mem.readU8 511 = loadedOnce.mem.readU8 511 :=
      hinv.kept 511 (.inr (by decide))
    rw [hzero, hmem] at hkept
    cases hkept

end Cpu
end X86Emu
