import X86Emu.DecodeOp
import X86Emu.Execute

/-!
# Effective addresses

What a memory operand's encoding says its address adds up, and when the computations of the source
come to that: the one behind every ModR/M access, those of INVLPG, LEA and the SSE helpers, and the
offsets of MOV moffs.
-/
namespace X86Emu

open StateRules

/-! ## Encodings -/

/-- The terms of an address. -/
structure AddressForm where
  bases : List U8
  /-- An index register and its scale. -/
  index : Option (U8 × U64)
  /-- Counted from the end of the instruction. -/
  relative : Bool
  disp : U64

/-- The bytes that encode a memory operand. -/
structure MemEncoding where
  byte : U8
  sib : U8
  disp : U32
  memory : (byte >>> 6) &&& 0b11 ≠ 3

namespace MemEncoding

variable (e : MemEncoding)

def mod : U8 := (e.byte >>> 6) &&& 0b11

def rm : U8 := e.byte &&& 0b111

def sibBase : U8 := e.sib &&& 0b111

def sibIndex : U8 := (e.sib >>> 3) &&& 0b111

/-- The base registers of 16-bit addressing. -/
def bases16 : List U8 :=
  if e.rm = 0 then [3, 6]
  else if e.rm = 1 then [3, 7]
  else if e.rm = 2 then [5, 6]
  else if e.rm = 3 then [5, 7]
  else if e.rm = 4 then [6]
  else if e.rm = 5 then [7]
  else if e.rm = 6 then (if e.mod = 0 then [] else [5])
  else [3]

def disp16 : U16 :=
  if e.mod = 0 then (if e.rm = 6 then u16 e.disp else 0)
  else if e.mod = 1 then (u8 e.disp).signExtend 16
  else u16 e.disp

/-- The base register of 32- and 64-bit addressing. -/
def bases32 (rexB : Bool) : List U8 :=
  if e.rm = 4 then (if e.mod = 0 ∧ e.sibBase = 5 then [] else [e.sibBase ||| rexBit rexB])
  else if e.mod = 0 ∧ e.rm = 5 then []
  else [e.rm ||| rexBit rexB]

def index32 (rexX : Bool) : Option (U8 × U64) :=
  if e.rm = 4 ∧ (e.sibIndex ≠ 4 ∨ rexX) then
    some (e.sibIndex ||| rexBit rexX, (1 : U64) <<< ((e.sib >>> 6) &&& 3).toNat)
  else none

def disp32 : U32 :=
  if e.mod = 0 then (if e.rm = 5 ∨ (e.rm = 4 ∧ e.sibBase = 5) then e.disp else 0)
  else if e.mod = 1 then (u8 e.disp).signExtend 32
  else e.disp

/-- The address an encoding forms under the address size and the REX prefix decoded. -/
def form (s : Cpu) : AddressForm :=
  if s.addrsize then
    { bases := e.bases32 s.rexB
      index := e.index32 s.rexX
      relative := s.long64 && e.mod == 0 && e.rm == 5
      disp := e.disp32.signExtend 64 }
  else
    { bases := e.bases16, index := none, relative := false, disp := e.disp16.signExtend 64 }

/-- The operand `fetchModrm` makes of the bytes. -/
def operand (s : Cpu) : ModRm where
  modField := e.mod
  reg := (e.byte >>> 3) &&& 0b111 ||| rexBit s.rexR
  rm := e.rm
  rmRaw := e.rm
  rexB := s.rexB
  rexX := s.rexX
  ripRel := s.addrsize && s.addr64 && e.mod == 0 && e.rm == 5
  sib := if s.addrsize ∧ e.rm = 4 then some e.sib else none
  disp8 := if ¬ s.addrsize ∧ e.mod = 1 then some ((u8 e.disp).signExtend 16) else none
  disp16 :=
    if ¬ s.addrsize ∧ (e.mod = 2 ∨ e.mod = 0 ∧ e.rm = 6) then some (u16 e.disp) else none
  disp32 :=
    if s.addrsize ∧ (e.mod ≠ 0 ∨ e.rm = 5 ∨ e.rm = 4 ∧ e.sibBase = 5) then some e.disp32 else none

end MemEncoding

namespace AddressForm

variable (f : AddressForm) (s : Cpu)

/-- The sum of the terms, modulo two to the address size. -/
def offset : U64 :=
  ((f.bases.map (s.regW · s.asize)).sum + (f.index.elim 0 fun i => s.regW i.1 s.asize * i.2) +
    (if f.relative then s.rip else 0) + f.disp) &&& s.asize.mask

/-- BP, EBP and ESP as a base take the stack segment. -/
def segment : SegReg := if 4 ∈ f.bases ∨ 5 ∈ f.bases then .ss else .ds

end AddressForm

/-- The segment and the offset an encoding names. -/
def MemEncoding.address (e : MemEncoding) (s : Cpu) : SegReg × U64 :=
  (s.operandSeg (e.form s).segment, (e.form s).offset s)

/-! ## The computations of the source -/

namespace Cpu

/-- The segment and the offset that `rmAddr` translates. -/
def rmOperand (s : Cpu) (m : ModRm) : SegReg × U64 :=
  (s.operandSeg (s.modrmEa m).2, (s.modrmEa m).1)

theorem rmAddr_eq (s : Cpu) (m : ModRm) (write : Bool) :
    rmAddr m write s = translateAccess (s.rmOperand m).1 (s.rmOperand m).2 write s := rfl

theorem modrmLinear_eq (s : Cpu) (m : ModRm) :
    s.modrmLinear m = s.linearAddr (s.rmOperand m).1 (s.rmOperand m).2 := rfl

theorem leaOffset_eq (s : Cpu) (m : ModRm) : s.leaOffset m = (s.rmOperand m).2 := rfl

/-- Every computation of an operand's address agrees with its encoding. -/
structure FollowsEncoding (s : Cpu) (e : MemEncoding) : Prop where
  rmAddr : s.rmOperand (e.operand s) = e.address s
  linear : s.modrmLinear (e.operand s) = s.linearAddr (e.address s).1 (e.address s).2
  lea : s.leaOffset (e.operand s) = (e.address s).2
  sse : s.sseOperand (e.operand s) = e.address s

theorem operandSeg_eq_iff (s : Cpu) (r q : SegReg) :
    s.operandSeg r = s.operandSeg q ↔ s.segOverride.isSome = true ∨ r = q := by
  unfold operandSeg
  cases s.segOverride <;> simp

theorem low16 (v : U64) : v &&& 0xFFFF = u64 (u16 v) := by
  apply BitVec.eq_of_getLsbD_eq
  intro k hk
  rw [show (0xFFFF : U64) = BitVec.ofNat 64 (2 ^ 16 - 1) from rfl, BitVec.getLsbD_and, getLsbD_ones,
    BitVec.getLsbD_setWidth, BitVec.getLsbD_setWidth]
  simp [hk, Bool.and_comm]

theorem u16_add (v w : U64) : u16 (v + w) = u16 v + u16 w := BitVec.setWidth_add v w (by decide)

theorem u16_regW (s : Cpu) (i : U8) : u16 (s.regW i .w16) = s.reg16Idx i := by
  rw [regW, Width.mask, low16, u16_u64, reg16Idx]

end Cpu

/-! ## 16-bit addressing -/

namespace MemEncoding

variable {e : MemEncoding} {s : Cpu}

/-- The base registers of a 16-bit form, which wrap at 16 bits. -/
def sum16 (e : MemEncoding) (s : Cpu) : U16 := (e.bases16.map s.reg16Idx).sum

theorem u16_sum (l : List U8) : u16 (l.map (s.regW · .w16)).sum = (l.map s.reg16Idx).sum := by
  induction l with
  | nil => rfl
  | cons i l ih =>
    rw [List.map_cons, List.sum_cons, List.map_cons, List.sum_cons,
      Cpu.u16_add, Cpu.u16_regW, ih]

theorem rm_cases (e : MemEncoding) : e.rm = 0 ∨ e.rm = 1 ∨ e.rm = 2 ∨ e.rm = 3 ∨ e.rm = 4 ∨
    e.rm = 5 ∨ e.rm = 6 ∨ e.rm = 7 := by
  have h (b : U8) : b &&& 0b111 = 0 ∨ b &&& 0b111 = 1 ∨ b &&& 0b111 = 2 ∨ b &&& 0b111 = 3 ∨
      b &&& 0b111 = 4 ∨ b &&& 0b111 = 5 ∨ b &&& 0b111 = 6 ∨ b &&& 0b111 = 7 := by
    revert b
    decide
  exact h e.byte

theorem mod_cases (e : MemEncoding) : e.mod = 0 ∨ e.mod = 1 ∨ e.mod = 2 := by
  have h (b : U8) : (b >>> 6) &&& 0b11 ≠ 3 → (b >>> 6) &&& 0b11 = 0 ∨ (b >>> 6) &&& 0b11 = 1 ∨
      (b >>> 6) &&& 0b11 = 2 := by
    revert b
    decide
  exact h e.byte e.memory

theorem offset16 (hsize : s.addrsize = false) (h64 : s.addr64 = false) :
    (e.form s).offset s = u64 (e.sum16 s + e.disp16) := by
  have hwidth : s.asize = .w16 := by rw [Cpu.asize, h64, hsize]; rfl
  have hdisp : u16 (e.disp16.signExtend 64) = e.disp16 := by
    apply BitVec.eq_of_getLsbD_eq
    intro k hk
    rw [BitVec.getLsbD_setWidth, BitVec.getLsbD_signExtend, if_pos hk]
    simp [hk, show k < 64 by omega]
  rw [AddressForm.offset, form, hsize, hwidth]
  simp only [Bool.false_eq_true, if_false, Option.elim_none, Width.mask]
  rw [Cpu.low16, Cpu.u16_add, Cpu.u16_add, Cpu.u16_add, hdisp, u16_sum, sum16]
  simp

/-- The code's base, which adds BP to an absolute operand. -/
theorem modrmBase16_eq : s.modrmBase16 (e.operand s) =
    (if e.mod = 0 ∧ e.rm = 6 then s.bp else e.sum16 s,
      if e.rm = 2 ∨ e.rm = 3 ∨ e.rm = 6 then .ss else .ds) := by
  have hraw : (e.operand s).rmRaw = e.rm := rfl
  unfold Cpu.modrmBase16 sum16 bases16
  rw [hraw]
  have hreg : s.bx = s.reg16Idx 3 ∧ s.bp = s.reg16Idx 5 ∧ s.si = s.reg16Idx 6 ∧
      s.di = s.reg16Idx 7 := ⟨rfl, rfl, rfl, rfl⟩
  rcases e.rm_cases with h | h | h | h | h | h | h | h <;> rw [h] <;> simp [hreg]
  by_cases h0 : e.mod = 0#8 <;> simp [h0]

theorem modrmOffset_eq (hsize : s.addrsize = false) : s.modrmOffset (e.operand s) =
    u32 (s.modrmBase16 (e.operand s)).1 + u32 e.disp16 := by
  rw [Cpu.modrmOffset, BitVec.add_assoc]
  refine congrArg (_ + ·) ?_
  rcases e.mod_cases with h | h | h
  · by_cases h6 : e.rm = 6#8 <;> simp [operand, disp16, hsize, h, h6]
  · simp [operand, disp16, hsize, h]
  · simp [operand, disp16, hsize, h]

theorem segment16 (hsize : s.addrsize = false) : (e.form s).segment =
    if e.rm = 2 ∨ e.rm = 3 ∨ e.rm = 6 ∧ e.mod ≠ 0 then .ss else .ds := by
  rw [AddressForm.segment, form, hsize]
  simp only [Bool.false_eq_true, if_false]
  unfold bases16
  rcases e.rm_cases with h | h | h | h | h | h | h | h <;> rw [h] <;> simp

/-- The code adds the displacement at 32 bits, where the architecture wraps at 16. -/
theorem carry_iff (b d : U16) :
    (u64 (u32 b + u32 d) : U64) = u64 (b + d) ↔ b.toNat + d.toNat < 2 ^ 16 := by
  have hb := b.isLt
  have hd := d.isLt
  rw [← BitVec.toNat_inj]
  simp only [BitVec.toNat_setWidth, BitVec.toNat_add]
  omega

theorem add_eq_iff (b d : U16) : (u64 (u32 b + u32 d) : U64) = u64 d ↔ b = 0 := by
  have hb := b.isLt
  have hd := d.isLt
  have hzero : (0 : U16).toNat = 0 := rfl
  rw [← BitVec.toNat_inj, ← BitVec.toNat_inj, hzero]
  simp only [BitVec.toNat_setWidth, BitVec.toNat_add]
  omega

/-- When 16-bit addressing follows the encoding: the offset does not pass the segment's end, a bare
displacement meets BP at zero, and BP as a base, which the SSE helpers take with DS, is overridden,
as is a bare displacement, which the others take with SS. -/
structure Regular16 (e : MemEncoding) (s : Cpu) : Prop where
  no_carry : (e.sum16 s).toNat + e.disp16.toNat < 2 ^ 16
  bare : e.mod = 0 → e.rm = 6 → s.bp = 0
  segment : e.rm = 2 ∨ e.rm = 3 ∨ e.rm = 6 → s.segOverride.isSome = true

theorem follows16_iff (hsize : s.addrsize = false) (h64 : s.addr64 = false) :
    s.FollowsEncoding e ↔ e.Regular16 s := by
  have hea : s.modrmEa (e.operand s) = (u64 (u32 (s.modrmBase16 (e.operand s)).1 + u32 e.disp16),
      (s.modrmBase16 (e.operand s)).2) := by
    rw [Cpu.modrmEa, hsize, ← modrmOffset_eq hsize]
    rfl
  have hsse : s.sseOperand (e.operand s) =
      (s.operandSeg .ds, u64 (u32 (s.modrmBase16 (e.operand s)).1 + u32 e.disp16)) := by
    rw [Cpu.sseOperand, hsize, ← modrmOffset_eq hsize]
    rfl
  have haddress : e.address s = (s.operandSeg (if e.rm = 2 ∨ e.rm = 3 ∨ e.rm = 6 ∧ e.mod ≠ 0 then
      .ss else .ds), u64 (e.sum16 s + e.disp16)) := by
    rw [address, segment16 hsize, offset16 hsize h64]
  have hoffset : (u64 (u32 (s.modrmBase16 (e.operand s)).1 + u32 e.disp16) : U64) =
      u64 (e.sum16 s + e.disp16) ↔ (e.sum16 s).toNat + e.disp16.toNat < 2 ^ 16 ∧
        (e.mod = 0 → e.rm = 6 → s.bp = 0) := by
    rw [modrmBase16_eq]
    by_cases habs : e.mod = 0 ∧ e.rm = 6
    · have hsum : e.sum16 s = 0 := by
        rw [sum16, bases16, habs.1, habs.2]
        rfl
      have hzero : (0 : U16) + e.disp16 = e.disp16 := by simp
      rw [if_pos habs, hsum, hzero, add_eq_iff]
      have hlt := e.disp16.isLt
      simp [habs.1, habs.2]
      omega
    · rw [if_neg habs, carry_iff]
      exact ⟨fun h => ⟨h, fun h0 h6 => absurd ⟨h0, h6⟩ habs⟩, fun h => h.1⟩
  have hseg : (s.modrmBase16 (e.operand s)).2 =
      if e.rm = 2 ∨ e.rm = 3 ∨ e.rm = 6 then .ss else .ds :=
    congrArg Prod.snd modrmBase16_eq
  constructor
  · intro h
    have hrm := h.rmAddr
    have hds := h.sse
    rw [Cpu.rmOperand, hea, haddress, Prod.mk.injEq, hseg, Cpu.operandSeg_eq_iff, hoffset] at hrm
    rw [hsse, haddress, Prod.mk.injEq, Cpu.operandSeg_eq_iff] at hds
    refine ⟨hrm.2.1, hrm.2.2, fun hbase => ?_⟩
    rcases hrm.1 with ho | hs
    · exact ho
    · refine hds.1.resolve_right fun hd => ?_
      rw [← hs, if_pos hbase] at hd
      exact absurd hd nofun
  · intro h
    have hoff := hoffset.mpr ⟨h.no_carry, h.bare⟩
    have hsegs (r : SegReg) (hr : (e.rm = 2 ∨ e.rm = 3 ∨ e.rm = 6) ∨ r = .ds) : s.operandSeg r =
        s.operandSeg (if e.rm = 2 ∨ e.rm = 3 ∨ e.rm = 6 ∧ e.mod ≠ 0 then .ss else .ds) := by
      rw [Cpu.operandSeg_eq_iff]
      by_cases hb : e.rm = 2 ∨ e.rm = 3 ∨ e.rm = 6
      · exact .inl (h.segment hb)
      · refine .inr ?_
        rw [if_neg fun hc => hb (hc.imp_right (·.imp_right And.left))]
        exact hr.resolve_left hb
    have hrm : s.rmOperand (e.operand s) = e.address s := by
      rw [Cpu.rmOperand, hea, haddress, hoff, hseg, hsegs]
      split
      · exact .inl ‹_›
      · exact .inr rfl
    refine ⟨hrm, ?_, ?_, ?_⟩
    · rw [Cpu.modrmLinear_eq, hrm]
    · rw [Cpu.leaOffset_eq, hrm]
    · rw [hsse, haddress, hoff, hsegs .ds (.inr rfl)]

/-! ## 32- and 64-bit addressing -/

theorem low32 (v : U64) : v &&& 0xFFFFFFFF = u64 (u32 v) := by
  apply BitVec.eq_of_getLsbD_eq
  intro k hk
  rw [BitVec.getLsbD_and, getLsbD_low32, BitVec.getLsbD_setWidth, BitVec.getLsbD_setWidth]
  simp [hk, Bool.and_comm]

theorem mask_asize (h : s.addrsize = true) (v : U64) :
    v &&& s.asize.mask = if s.addr64 then v else v &&& 0xFFFFFFFF := by
  rw [Cpu.asize, h]
  cases s.addr64 with
  | true =>
    refine (BitVec.and_comm _ _).trans ?_
    exact BitVec.allOnes_and
  | false => rfl

/-- A register as an address of 32 or 64 bits. -/
theorem reg_asize (h : s.addrsize = true) (i : U8) :
    (if s.addr64 then s.reg64 i else u64 (s.reg32Idx i)) = s.regW i s.asize := by
  rw [Cpu.regW, mask_asize h, low32]
  rfl

/-- The terms of the source's sum. -/
def sum32 (e : MemEncoding) (s : Cpu) : U64 :=
  ((e.bases32 s.rexB).map (s.regW · s.asize)).sum +
    ((e.index32 s.rexX).elim 0 fun i => s.regW i.1 s.asize * i.2) + e.disp32.signExtend 64

theorem offset32 (h : s.addrsize = true) : (e.form s).offset s =
    (e.sum32 s + if s.long64 ∧ e.mod = 0 ∧ e.rm = 5 then s.rip else 0) &&& s.asize.mask := by
  have hrel : (s.long64 && e.mod == 0 && e.rm == 5) = true ↔
      s.long64 ∧ e.mod = 0 ∧ e.rm = 5 := by
    simp [and_assoc]
  rw [AddressForm.offset, form, h]
  simp only [if_true, hrel, sum32]
  refine congrArg (· &&& s.asize.mask) ?_
  rw [BitVec.add_assoc _ _ (e.disp32.signExtend 64), BitVec.add_comm _ (e.disp32.signExtend 64),
    ← BitVec.add_assoc]

theorem rexBit_eq (b : Bool) : (bit b <<< 3 : U8) = rexBit b := by
  cases b <;> rfl

/-- The base numbers that REX.B may extend. -/
theorem stack_raw (b : U8) (rexB : Bool) :
    (b &&& 0b111 ||| rexBit rexB = 4 ∨ b &&& 0b111 ||| rexBit rexB = 5 ∨
      b &&& 0b111 ||| rexBit rexB = 12 ∨ b &&& 0b111 ||| rexBit rexB = 13) ↔
    b &&& 0b111 = 4 ∨ b &&& 0b111 = 5 := by
  revert b rexB
  decide

theorem operand_disp32 (h : s.addrsize = true) : (e.operand s).disp32.getD 0 = e.disp32 := by
  have hfield : (e.operand s).disp32 =
      if e.mod ≠ 0 ∨ e.rm = 5 ∨ e.rm = 4 ∧ e.sibBase = 5 then some e.disp32 else none := by
    rw [operand, h]
    simp
  rw [hfield]
  split
  · rfl
  · rename_i hnone
    rw [not_or, not_not] at hnone
    rw [disp32, if_pos hnone.1, if_neg hnone.2]
    rfl

theorem ea32_eq (h : s.addrsize = true) :
    s.modrmEa32 (e.operand s) =
      if s.addr64 ∧ e.mod = 0 ∧ e.rm = 5 then (s.rip + e.sum32 s, .ds)
      else (e.sum32 s &&& s.asize.mask,
        if ∃ b ∈ e.bases32 s.rexB, b = 4 ∨ b = 5 ∨ b = 12 ∨ b = 13 then .ss else .ds) := by
  have hsib : (e.operand s).sib = if e.rm = 4 then some e.sib else none := by
    rw [operand, h]
    simp
  have hrip : (e.operand s).ripRel = true ↔ s.addr64 ∧ e.mod = 0 ∧ e.rm = 5 := by
    simp [operand, h, and_assoc]
  have hfields : (e.operand s).rexX = s.rexX ∧ (e.operand s).rexB = s.rexB ∧
      (e.operand s).modField = e.mod ∧ (e.operand s).rmRaw = e.rm := ⟨rfl, rfl, rfl, rfl⟩
  unfold Cpu.modrmEa32
  rw [operand_disp32 h, hsib, hfields.1, hfields.2.1, hfields.2.2.1, hfields.2.2.2]
  by_cases hr : s.addr64 ∧ e.mod = 0 ∧ e.rm = 5
  · have hsum : e.sum32 s = e.disp32.signExtend 64 := by
      simp [sum32, bases32, index32, hr.2.1, hr.2.2]
    rw [if_pos (hrip.mpr hr), if_pos hr, hsum]
  · rw [if_neg (mt hrip.mp hr), if_neg hr]
    simp only [reg_asize h, rexBit_eq]
    by_cases h4 : e.rm = 4
    · rw [if_pos h4]
      dsimp only
      have hraw : e.sib &&& 7 = e.sibBase := rfl
      have hindex : (if (e.sib >>> 3) &&& 7 ≠ 4 ∨ s.rexX = true then
          s.regW ((e.sib >>> 3) &&& 7 ||| rexBit s.rexX) s.asize *
            ((1 : U64) <<< ((e.sib >>> 6) &&& 3).toNat) else 0) =
          (e.index32 s.rexX).elim 0 fun i => s.regW i.1 s.asize * i.2 := by
        have hidx : (e.sib >>> 3) &&& 7 = e.sibIndex := rfl
        rw [hidx, index32]
        by_cases hi : e.sibIndex ≠ 4 ∨ s.rexX = true
        · rw [if_pos hi, if_pos ⟨h4, hi⟩]
          rfl
        · rw [if_neg hi, if_neg fun hc => hi hc.2]
          rfl
      rw [hindex, hraw]
      by_cases hb : e.mod = 0 ∧ e.sibBase = 5
      · have hbases : e.bases32 s.rexB = [] := by
          rw [bases32, if_pos h4, if_pos hb]
        rw [if_neg (not_not.mpr hb), sum32, hbases, mask_asize h]
        simp
      · have hbases : e.bases32 s.rexB = [e.sibBase ||| rexBit s.rexB] := by
          rw [bases32, if_pos h4, if_neg hb]
        rw [if_pos hb, sum32, hbases, mask_asize h, List.map_singleton, List.sum_singleton,
          BitVec.add_comm (s.regW _ _)]
        simp only [List.mem_singleton, exists_eq_left]
        rw [sibBase, if_congr (stack_raw e.sib s.rexB) rfl rfl]
    · have hindex : e.index32 s.rexX = none := by
        rw [index32, if_neg fun hc => h4 hc.1]
      rw [if_neg h4]
      dsimp only
      by_cases hb : e.mod = 0 ∧ e.rm = 5
      · have hbases : e.bases32 s.rexB = [] := by
          rw [bases32, if_neg h4, if_pos hb]
        rw [if_neg (not_not.mpr hb), sum32, hbases, hindex, mask_asize h]
        simp
      · have hbases : e.bases32 s.rexB = [e.rm ||| rexBit s.rexB] := by
          rw [bases32, if_neg h4, if_neg hb]
        rw [if_pos hb, sum32, hbases, hindex, mask_asize h, List.map_singleton,
          List.sum_singleton]
        have hzero (v : U64) : v + 0 = v := BitVec.add_zero v
        simp only [List.mem_singleton, exists_eq_left, Option.elim_none, hzero]
        rw [rm, if_congr (stack_raw e.byte s.rexB) rfl rfl]

/-- When 32- and 64-bit addressing follow the encoding: 32-bit code in 64-bit mode, where the source
takes a bare displacement as an address, meets EIP at zero, and R12 or R13 as a base, which the
source takes with SS, is overridden. -/
structure Regular32 (e : MemEncoding) (s : Cpu) : Prop where
  eip : s.addr64 = false → s.long64 = true → e.mod = 0 → e.rm = 5 → s.eip = 0
  extended : 12 ∈ e.bases32 s.rexB ∨ 13 ∈ e.bases32 s.rexB → s.segOverride.isSome = true

theorem bases32_cases (e : MemEncoding) (rexB : Bool) :
    e.bases32 rexB = [] ∨ ∃ b, e.bases32 rexB = [b] := by
  unfold bases32
  split
  · split
    · exact .inl rfl
    · exact .inr ⟨_, rfl⟩
  · split
    · exact .inl rfl
    · exact .inr ⟨_, rfl⟩

theorem segment32_iff (h : s.addrsize = true) :
    s.operandSeg (if ∃ b ∈ e.bases32 s.rexB, b = 4 ∨ b = 5 ∨ b = 12 ∨ b = 13 then .ss else .ds) =
      s.operandSeg (e.form s).segment ↔
    (12 ∈ e.bases32 s.rexB ∨ 13 ∈ e.bases32 s.rexB → s.segOverride.isSome = true) := by
  have hform : (e.form s).segment =
      if 4 ∈ e.bases32 s.rexB ∨ 5 ∈ e.bases32 s.rexB then .ss else .ds := by
    rw [AddressForm.segment, form, h]
    rfl
  rw [Cpu.operandSeg_eq_iff, hform]
  rcases e.bases32_cases s.rexB with hb | ⟨b, hb⟩
  · rw [hb]
    simp
  · rw [hb]
    simp only [List.mem_singleton, exists_eq_left]
    by_cases h4 : b = 4 ∨ b = 5
    · have hnot : ¬((12 : U8) = b ∨ (13 : U8) = b) := by
        rcases h4 with rfl | rfl <;> decide
      rw [if_pos (h4.elim .inl fun h5 => .inr (.inl h5)), if_pos (h4.imp Eq.symm Eq.symm)]
      exact ⟨fun _ hc => absurd hc hnot, fun _ => .inr rfl⟩
    · by_cases h12 : b = 12 ∨ b = 13
      · rw [if_pos (.inr (.inr h12)), if_neg fun hc => h4 (hc.imp Eq.symm Eq.symm)]
        exact ⟨fun hs _ => hs.resolve_right nofun, fun hs => .inl (hs (h12.imp Eq.symm Eq.symm))⟩
      · rw [if_neg (by tauto), if_neg fun hc => h4 (hc.imp Eq.symm Eq.symm)]
        exact ⟨fun _ hc => absurd (hc.imp Eq.symm Eq.symm) h12, fun _ => .inr rfl⟩

theorem follows_iff (h : s.addrsize = true) :
    s.FollowsEncoding e ↔ s.rmOperand (e.operand s) = e.address s := by
  have hsse : s.sseOperand (e.operand s) = s.rmOperand (e.operand s) := by
    rw [Cpu.sseOperand, Cpu.rmOperand, Cpu.modrmEa, h]
    rfl
  refine ⟨fun hf => hf.rmAddr, fun hrm => ⟨hrm, ?_, ?_, hsse.trans hrm⟩⟩
  · rw [Cpu.modrmLinear_eq, hrm]
  · rw [Cpu.leaOffset_eq, hrm]

theorem low32_add_iff (v r : U64) :
    v &&& 0xFFFFFFFF = (v + r) &&& 0xFFFFFFFF ↔ u32 r = 0 := by
  have hadd : u32 (v + r) = u32 v + u32 r := BitVec.setWidth_add v r (by decide)
  have hinj (a b : U32) : (u64 a : U64) = u64 b ↔ a = b := by
    have ha := a.isLt
    have hb := b.isLt
    rw [← BitVec.toNat_inj, ← BitVec.toNat_inj, BitVec.toNat_setWidth, BitVec.toNat_setWidth]
    omega
  rw [low32, low32, hinj, hadd]
  exact left_eq_add

theorem follows32_iff (h : s.addrsize = true) (hlong : s.addr64 = true → s.long64 = true) :
    s.FollowsEncoding e ↔ e.Regular32 s := by
  have hea : s.modrmEa (e.operand s) = s.modrmEa32 (e.operand s) := by
    rw [Cpu.modrmEa, h]
    rfl
  rw [follows_iff h, Cpu.rmOperand, hea, ea32_eq h, address, offset32 h, Prod.mk.injEq]
  by_cases hr : s.addr64 ∧ e.mod = 0 ∧ e.rm = 5
  · have hbases : e.bases32 s.rexB = [] := by
      rw [bases32, hr.2.1, hr.2.2]
      rfl
    have hseg : (e.form s).segment = .ds := by
      rw [AddressForm.segment, form, h]
      simp [hbases]
    rw [if_pos hr, if_pos ⟨hlong hr.1, hr.2⟩, mask_asize h, if_pos hr.1, hseg]
    refine ⟨fun _ => ⟨fun h64 => ?_, fun hc => ?_⟩, fun _ => ⟨rfl, BitVec.add_comm _ _⟩⟩
    · rw [hr.1] at h64
      cases h64
    · rw [hbases] at hc
      simp at hc
  · rw [if_neg hr]
    dsimp only
    rw [segment32_iff h]
    by_cases hrel : s.long64 ∧ e.mod = 0 ∧ e.rm = 5
    · have h64 : ¬ s.addr64 = true := fun hc => hr ⟨hc, hrel.2⟩
      rw [if_pos hrel, mask_asize h, mask_asize h, if_neg h64, if_neg h64, low32_add_iff]
      exact ⟨fun hc => ⟨fun _ _ _ _ => hc.2, hc.1⟩, fun hc =>
        ⟨hc.extended, hc.eip (Bool.eq_false_iff.mpr h64) hrel.1 hrel.2.1 hrel.2.2⟩⟩
    · have hzero : e.sum32 s + 0 = e.sum32 s := BitVec.add_zero _
      rw [if_neg hrel, hzero]
      exact ⟨fun hc => ⟨fun _ hl h0 h5 => absurd ⟨hl, h0, h5⟩ hrel, hc.1⟩,
        fun hc => ⟨hc.extended, rfl⟩⟩

end MemEncoding

/-! ## Fetched operands -/

/-- What decoding an operand looks at. -/
def Cpu.addressFlags (s : Cpu) : Bool × Bool × Bool × Bool × Bool :=
  (s.addrsize, s.addr64, s.rexB, s.rexX, s.rexR)

section Fetch

variable (s : Cpu)

theorem flags_raise (f : Fault) : (s.raise f).addressFlags = s.addressFlags := by
  unfold Cpu.raise
  split <;> rfl

theorem flags_markAccessed (l : U64) (write : Bool) :
    (s.markAccessed l write).addressFlags = s.addressFlags := by
  unfold Cpu.markAccessed
  split <;> rfl

theorem flags_applyPaging (l : U64) (write fetch : Bool) :
    (applyPagingInner l write fetch s).2.addressFlags = s.addressFlags := by
  unfold applyPagingInner
  split
  · exact flags_raise s _
  · split
    · rfl
    · dsimp only
      split
      · split
        · dsimp only
          split
          · exact flags_markAccessed s l true
          · rfl
        · exact flags_raise s _
      · split
        · split
          · exact flags_raise s _
          · rfl
        · exact flags_raise s _

theorem flags_invlpg (l : U64) : (s.invlpg l).addressFlags = s.addressFlags := by
  unfold Cpu.invlpg
  dsimp only
  split <;> rfl

end Fetch

/-- Fetching leaves the address size and the REX bits alone. -/
def SameAddressing (s t : Cpu) : Prop := t.addressFlags = s.addressFlags

instance : UserFrame SameAddressing where
  refl _ := rfl
  trans _ _ _ h k := Eq.trans k h
  of_shell {s t} h := show t.shell.addressFlags = s.shell.addressFlags from congrArg _ h
  raise := flags_raise
  setPending _ _ _ _ := rfl
  translate := flags_applyPaging
  invlpg := flags_invlpg
  store _ h _ k _ := Eq.trans k h
  real _ _ _ := rfl

section Fetch

variable (s : Cpu)

theorem flags_fetchU8 : (fetchU8 s).2.addressFlags = s.addressFlags :=
  frame_fetchU8 (R := SameAddressing) s

/-- The bytes of a displacement, one of them with `mod = 1`. -/
def dispBytes (mod : U8) (dword : Bool) : U32 :=
  if mod = 1 then u32 (fetchU8 s).1 else if dword then (fetchU32 s).1 else u32 (fetchU16 s).1

/-- The displacement of 32- and 64-bit addressing, as its bytes give it. -/
theorem fetchDisp32_eq (m : ModRm) {d : U32}
    (hmod : m.modField = 0 ∨ m.modField = 1 ∨ m.modField = 2) (hnone : m.disp32 = none)
    (hrip : m.ripRel = false) (hd : dispBytes s m.modField true = d) :
    (fetchDisp32 m s).1 =
      { m with
        ripRel := m.modField == 0 && m.rmRaw == 5 && s.addr64
        disp32 :=
          if m.modField = 0 then
            (if m.rmRaw = 5 ∨ (m.sib.map fun b => b &&& 7 == 5).getD false then some d else none)
          else if m.modField = 1 then some ((u8 d).signExtend 32)
          else some d } := by
  have hrun : fetchDisp32 m s = (if m.modField = 0 then
      (if m.rmRaw == 5 || (m.sib.map fun b => b &&& 7 == 5).getD false then
        ({ m with
            ripRel := m.rmRaw == 5 && s.addr64
            disp32 := some (fetchU32 s).1 }, (fetchU32 s).2)
      else (m, s))
    else if m.modField = 1 then
      ({ m with disp32 := some ((fetchU8 s).1.signExtend 32) }, (fetchU8 s).2)
    else if m.modField = 2 then
      ({ m with disp32 := some (fetchU32 s).1 }, (fetchU32 s).2)
    else (m, s)) := by
    unfold fetchDisp32
    split
    · dsimp only
      split <;> rfl
    · split
      · rfl
      · split <;> rfl
  obtain ⟨modField, reg, rm, rmRaw, rexB, rexX, ripRel, sib, disp8, disp16, disp32⟩ := m
  dsimp only at hmod hnone hrip hrun hd ⊢
  subst hnone hrip hd
  rw [hrun]
  rcases hmod with rfl | rfl | rfl
  · by_cases h5 : rmRaw = 5#8
    · simp [dispBytes, h5]
    · cases (sib.map fun b => b &&& 7 == 5).getD false <;> simp [dispBytes, h5]
  · simp [dispBytes]
  · simp [dispBytes]

/-- The displacement of 16-bit addressing. -/
theorem fetchDisp16_eq (m : ModRm) {d : U32}
    (hmod : m.modField = 0 ∨ m.modField = 1 ∨ m.modField = 2) (h8 : m.disp8 = none)
    (h16 : m.disp16 = none) (hd : dispBytes s m.modField false = d) :
    (fetchDisp16 m s).1 =
      { m with
        disp8 := if m.modField = 1 then some ((u8 d).signExtend 16) else none
        disp16 :=
          if m.modField = 2 ∨ m.modField = 0 ∧ m.rmRaw = 6 then some (u16 d) else none } := by
  have hrun : fetchDisp16 m s = (if m.modField = 0 then
      (if m.rmRaw = 6 then ({ m with disp16 := some (fetchU16 s).1 }, (fetchU16 s).2) else (m, s))
    else if m.modField = 1 then
      ({ m with disp8 := some ((fetchU8 s).1.signExtend 16) }, (fetchU8 s).2)
    else if m.modField = 2 then
      ({ m with disp16 := some (fetchU16 s).1 }, (fetchU16 s).2)
    else (m, s)) := by
    unfold fetchDisp16
    split
    · split <;> rfl
    · split
      · rfl
      · split <;> rfl
  obtain ⟨modField, reg, rm, rmRaw, rexB, rexX, ripRel, sib, disp8, disp16, disp32⟩ := m
  dsimp only at hmod h8 h16 hrun hd ⊢
  subst h8 h16 hd
  rw [hrun]
  rcases hmod with rfl | rfl | rfl
  · by_cases h6 : rmRaw = 6#8 <;> simp [dispBytes, h6]
  · simp [dispBytes]
  · simp [dispBytes]

/-- The fields of a ModR/M byte, REX folded in. -/
def modrmOf (b : U8) : ModRm :=
  { ModRm.fromByte b with
    rexB := s.rexB
    rexX := s.rexX
    reg := (ModRm.fromByte b).reg ||| rexBit s.rexR
    rm := if (ModRm.fromByte b).modField = 3 then (ModRm.fromByte b).rm ||| rexBit s.rexB
      else (ModRm.fromByte b).rm }

theorem fetchModrm_eq : (fetchModrm s).1 =
    if s.addrsize then
      ((fetchSib (modrmOf s (fetchU8 s).1) >>= fetchDisp32 : Exec ModRm) (fetchU8 s).2).1
    else (fetchDisp16 (modrmOf s (fetchU8 s).1) (fetchU8 s).2).1 := by
  have hflags := flags_fetchU8 s
  simp only [Cpu.addressFlags, Prod.mk.injEq] at hflags
  obtain ⟨hsize, -, hB, hX, hR⟩ := hflags
  have hm : modrmOf (fetchU8 s).2 (fetchU8 s).1 = modrmOf s (fetchU8 s).1 := by
    rw [modrmOf, hB, hX, hR]
    rfl
  rw [← hsize, ← hm]
  show ((if (fetchU8 s).2.addrsize then
    fetchSib (modrmOf (fetchU8 s).2 (fetchU8 s).1) >>= fetchDisp32
    else fetchDisp16 (modrmOf (fetchU8 s).2 (fetchU8 s).1) : Exec ModRm) (fetchU8 s).2).1 = _
  split <;> rfl

/-- Where the SIB byte, if the operand has one, has been fetched. -/
def sibFetched (b : U8) (t : Cpu) : Cpu :=
  if s.addrsize ∧ b &&& 7 = 4 then (fetchU8 t).2 else t

/-- The bytes of an encoding are those fetched after the opcode. -/
structure FetchedAs (e : MemEncoding) : Prop where
  byte : e.byte = (fetchU8 s).1
  sib : s.addrsize = true → e.rm = 4 → e.sib = (fetchU8 (fetchU8 s).2).1
  disp : e.disp = dispBytes (sibFetched s e.byte (fetchU8 s).2) e.mod s.addrsize

section Operand

variable {s} {b : U8}

/-- A register operand has no more bytes. -/
theorem fetched_register (t : Cpu) (h3 : (b >>> 6) &&& 0b11 = 3) :
    fetchSib (modrmOf s b) t = (modrmOf s b, t) ∧
      fetchDisp32 (modrmOf s b) t = (modrmOf s b, t) ∧
      fetchDisp16 (modrmOf s b) t = (modrmOf s b, t) := by
  have hmod : (modrmOf s b).modField = 3 := h3
  refine ⟨?_, ?_, ?_⟩
  · rw [fetchSib, if_neg fun hc => hc.1 h3]
    rfl
  · unfold fetchDisp32
    rw [hmod]
    rfl
  · unfold fetchDisp16
    rw [hmod]
    rfl

theorem fetched_sib (t : Cpu) (h3 : (b >>> 6) &&& 0b11 ≠ 3) (hsize : s.addrsize = true) :
    fetchSib (modrmOf s b) t =
      ({ modrmOf s b with sib := if b &&& 7 = 4 then some (fetchU8 t).1 else none },
        sibFetched s b t) := by
  unfold fetchSib sibFetched
  by_cases h4 : b &&& 7 = 4
  · rw [if_pos ⟨h3, h4⟩, if_pos h4, if_pos ⟨hsize, h4⟩]
    rfl
  · rw [if_neg fun hc => h4 hc.2, if_neg h4, if_neg fun hc => h4 hc.2]
    rfl

theorem fetched_operand32 (t : Cpu) (h3 : (b >>> 6) &&& 0b11 ≠ 3) (hsize : s.addrsize = true)
    (h64 : (sibFetched s b t).addr64 = s.addr64) :
    (fetchDisp32 (fetchSib (modrmOf s b) t).1 (fetchSib (modrmOf s b) t).2).1 =
      MemEncoding.operand ⟨b, (fetchU8 t).1,
        dispBytes (sibFetched s b t) ((b >>> 6) &&& 0b11) true, h3⟩ s := by
  have hmod := MemEncoding.mod_cases ⟨b, 0, 0, h3⟩
  rw [fetched_sib t h3 hsize, fetchDisp32_eq (sibFetched s b t) _ hmod rfl rfl rfl, h64]
  have hfield : (modrmOf s b).modField = (b >>> 6) &&& 0b11 := rfl
  rw [hfield]
  generalize dispBytes (sibFetched s b t) ((b >>> 6) &&& 0b11) true = d
  generalize (fetchU8 t).1 = sib
  have hmod' : (b >>> 6) &&& 3#8 = 0#8 ∨ (b >>> 6) &&& 3#8 = 1#8 ∨ (b >>> 6) &&& 3#8 = 2#8 := hmod
  by_cases h4 : b &&& 7#8 = 4#8
  · rcases hmod' with h | h | h <;>
      simp [MemEncoding.operand, MemEncoding.mod, MemEncoding.rm, MemEncoding.sibBase,
        MemEncoding.disp32, modrmOf, ModRm.fromByte, hsize, h, h4]
    grind
  · rcases hmod' with h | h | h <;>
      simp [MemEncoding.operand, MemEncoding.mod, MemEncoding.rm, MemEncoding.sibBase,
        MemEncoding.disp32, modrmOf, ModRm.fromByte, hsize, h, h4]
    grind

theorem fetched_operand16 (t : Cpu) (sib : U8) (h3 : (b >>> 6) &&& 0b11 ≠ 3)
    (hsize : s.addrsize = false) :
    (fetchDisp16 (modrmOf s b) t).1 =
      MemEncoding.operand ⟨b, sib, dispBytes t ((b >>> 6) &&& 0b11) false, h3⟩ s := by
  have hmod := MemEncoding.mod_cases ⟨b, 0, 0, h3⟩
  rw [fetchDisp16_eq t _ hmod rfl rfl rfl]
  have hfield : (modrmOf s b).modField = (b >>> 6) &&& 0b11 := rfl
  rw [hfield]
  generalize dispBytes t ((b >>> 6) &&& 0b11) false = d
  have hmod' : (b >>> 6) &&& 3#8 = 0#8 ∨ (b >>> 6) &&& 3#8 = 1#8 ∨ (b >>> 6) &&& 3#8 = 2#8 := hmod
  rcases hmod' with h | h | h <;>
    simp [MemEncoding.operand, MemEncoding.mod, MemEncoding.rm, modrmOf, ModRm.fromByte, hsize, h]

end Operand

/-- Every memory operand fetched is the operand of its bytes. -/
theorem fetchModrm_operand (h : (fetchModrm s).1.isReg = false) :
    ∃ e : MemEncoding, FetchedAs s e ∧ (fetchModrm s).1 = e.operand s := by
  rw [fetchModrm_eq] at h ⊢
  obtain ⟨b, hb⟩ : ∃ b, (fetchU8 s).1 = b := ⟨_, rfl⟩
  rw [hb] at h ⊢
  by_cases h3 : (b >>> 6) &&& 0b11 = 3
  · obtain ⟨hsib, hd32, hd16⟩ := fetched_register (s := s) (fetchU8 s).2 h3
    have hreg : (modrmOf s b).isReg = true := beq_iff_eq.mpr h3
    rw [bind_run, hsib, hd32, hd16, ite_self, hreg] at h
    cases h
  cases hsize : s.addrsize with
  | true =>
    have h64 : (sibFetched s b (fetchU8 s).2).addr64 = s.addr64 := by
      have hflags : (sibFetched s b (fetchU8 s).2).addressFlags = s.addressFlags := by
        unfold sibFetched
        split
        · exact (flags_fetchU8 _).trans (flags_fetchU8 s)
        · exact flags_fetchU8 s
      simp only [Cpu.addressFlags, Prod.mk.injEq] at hflags
      exact hflags.2.1
    refine ⟨_, ⟨hb.symm, fun _ _ => rfl, ?_⟩, fetched_operand32 _ h3 hsize h64⟩
    rw [hsize]
    rfl
  | false =>
    refine ⟨_, ⟨hb.symm, fun hon => ?_, ?_⟩, fetched_operand16 (fetchU8 s).2 0 h3 hsize⟩
    · rw [hsize] at hon
      cases hon
    · rw [sibFetched, if_neg fun hc => ?_, hsize]
      · rfl
      · rw [hsize] at hc
        exact Bool.false_ne_true hc.1

end Fetch

/-! ## The address size decoded -/

/-- A 64-bit address size belongs to 64-bit mode, where no 16-bit one is decoded. -/
def Cpu.Addressing (long64 : Bool) (s : Cpu) : Prop :=
  s.addr64 = true → s.addrsize = true ∧ long64 = true

def KeepsAddressing (long64 : Bool) (s t : Cpu) : Prop := s.Addressing long64 → t.Addressing long64

section Addressing

variable {long64 : Bool}

instance : Std.Refl (KeepsAddressing long64) where
  refl _ h := h

instance : IsTrans Cpu (KeepsAddressing long64) where
  trans _ _ _ h k hs := k (h hs)

theorem keeps_of_same {α : Type} {p : Exec α} (h : Keeps SameAddressing p) :
    Keeps (KeepsAddressing long64) p := by
  refine h.mono fun s t hst hs h64 => ?_
  simp only [SameAddressing, Cpu.addressFlags, Prod.mk.injEq] at hst
  rw [hst.2.1] at h64
  rw [hst.1]
  exact hs h64

theorem keeps_legacyPrefix (b : U8) (s : Cpu) :
    KeepsAddressing long64 s (s.legacyPrefix long64 b) := by
  have h64 : (s.legacyPrefix long64 b).addr64 =
      if b = 0x67 ∧ long64 = true then false else s.addr64 := by
    by_cases hb : b = 0x67
    · subst hb
      cases long64 <;> rfl
    · rw [if_neg fun hc => hb hc.1, Cpu.legacyPrefix]
      simp only [hb, if_false, Cpu.overrideSeg]
      repeat' split
      all_goals rfl
  have hsize : (s.legacyPrefix long64 b).addrsize =
      if b = 0x67 ∧ ¬ long64 = true then !s.addrsize else s.addrsize := by
    by_cases hb : b = 0x67
    · subst hb
      cases long64 <;> rfl
    · rw [if_neg fun hc => hb hc.1, Cpu.legacyPrefix]
      simp only [hb, if_false, Cpu.overrideSeg]
      repeat' split
      all_goals rfl
  intro hs hon
  rw [h64] at hon
  rw [hsize]
  split at hon
  · cases hon
  · rename_i hb
    obtain ⟨ha, hl⟩ := hs hon
    rw [if_neg fun hc => hc.2 hl]
    exact ⟨ha, hl⟩

theorem keeps_prefixTurn (rep : Rep) : Keeps (KeepsAddressing long64) (prefixTurn long64 rep) := by
  refine (keeps_of_same frame_peekU8).bind fun b => .ite ?_ (.ite ?_ (.pure _))
  · exact (keeps_of_same frame_fetchU8).bind fun _ => (Keeps.modify fun s h => h).bind fun _ =>
      .pure _
  · exact (Keeps.modify fun s => keeps_legacyPrefix b s).bind fun _ =>
      (keeps_of_same frame_fetchU8).bind fun _ => .pure _

theorem keeps_prefixLoop (n : Nat) (rep : Rep) :
    Keeps (KeepsAddressing long64) (prefixLoop long64 n rep) := by
  induction n generalizing rep with
  | zero => exact .pure _
  | succ n ih =>
    refine (keeps_prefixTurn rep).bind fun r => ?_
    cases r with
    | none => exact .pure _
    | some rep => exact ih rep

/-- The address size an instruction is decoded with. -/
theorem decode_addressing (decodeOp : U8 → Rep → OpDecoder) (n : Nat) (s : Cpu) :
    (decode decodeOp n s).2.Addressing s.long64 := by
  have hstart : s.startDecode.Addressing s.long64 := by
    intro h64
    unfold Cpu.startDecode at h64 ⊢
    cases hl : s.long64 with
    | true =>
      rw [hl] at h64
      exact ⟨rfl, rfl⟩
    | false =>
      rw [hl] at h64
      exact absurd h64 nofun
  have hrest : Keeps (KeepsAddressing s.long64) (do
      let rep ← prefixLoop s.long64 n .none
      modify fun s => if s.rexW then { s with opsize := true } else s
      let op ← fetchU8
      (decodeOp op rep).run : Exec Inst) := by
    refine (keeps_prefixLoop n .none).bind fun rep => .bind (.modify fun t ht => ?_) fun _ => ?_
    · split
      · exact ht
      · exact ht
    · exact (keeps_of_same frame_fetchU8).bind fun op => keeps_of_same (frame_opDecoder _)
  exact hrest s.startDecode hstart

end Addressing

/-! ## MOV moffs -/

/-- The opcodes 0xA0 to 0xA3. -/
structure Moffs where
  /-- The accumulator is stored. -/
  store : Bool
  /-- At the operand size rather than as a byte. -/
  wide : Bool

namespace Moffs

variable (o : Moffs) (s : Cpu)

def opcode : U8 :=
  match o with
  | ⟨false, false⟩ => 0xA0
  | ⟨false, true⟩ => 0xA1
  | ⟨true, false⟩ => 0xA2
  | ⟨true, true⟩ => 0xA3

/-- How the opcode is decoded. -/
def decoder : OpDecoder := .look fun s =>
  match o with
  | ⟨false, false⟩ =>
    if s.addrsize then .dword fun a => .done (.movAccMem8Addr32 a)
    else .word fun a => .done (.movAccMem8 a)
  | ⟨true, false⟩ =>
    if s.addrsize then .dword fun a => .done (.movMem8AccAddr32 a)
    else .word fun a => .done (.movMem8Acc a)
  | ⟨false, true⟩ =>
    if s.addr64 then .qword fun a => .done (.movAccMem32 a)
    else if s.addrsize then
      .dword fun a => .done (if s.opsize then .movAccMem32 (u64 a) else .movAccMem16Addr32 a)
    else .word fun a => .done (if s.opsize then .movAccMem32 (u64 a) else .movAccMem16 a)
  | ⟨true, true⟩ =>
    if s.addr64 then .qword fun a => .done (.movMem32Acc a)
    else if s.addrsize then
      .dword fun a => .done (if s.opsize then .movMem32Acc (u64 a) else .movMem16AccAddr32 a)
    else .word fun a => .done (if s.opsize then .movMem32Acc (u64 a) else .movMem16Acc a)

theorem decodeOp_opcode (rep : Rep) : decodeOp o.opcode rep = o.decoder := by
  obtain ⟨store, wide⟩ := o
  cases store <;> cases wide <;> rfl

/-- The offset read from the bytes after the opcode. -/
def offset (q : U64) : U64 :=
  if o.wide && s.addr64 then q else if s.addrsize then u64 (u32 q) else u64 (u16 q)

/-- The segment of the arm that executes the instruction: the 8- and 16-bit stores to a 32-bit
address name DS themselves. -/
def segment : SegReg :=
  if o.store && s.addrsize && (!o.wide || !s.addr64 && !s.opsize) then .ds else s.operandSeg .ds

def width : Width := if !o.wide then .w8 else if s.addr64 || s.opsize then s.osize else .w16

/-- The arm: a load or a store of the accumulator. -/
def arm (q : U64) : Exec Unit :=
  if o.store then movMemAcc (o.width s) (o.segment s) (o.offset s q)
  else movAccMem (o.width s) (o.offset s q)

theorem run_look (k : Cpu → OpDecoder) : (OpDecoder.look k).run s = (k s).run s := rfl

theorem run_word (k : U16 → Inst) :
    ((OpDecoder.word fun a => .done (k a)).run s).1 = k (fetchU16 s).1 := by
  rw [OpDecoder.run, bind_run]
  generalize fetchU16 s = r
  rfl

theorem run_dword (k : U32 → Inst) :
    ((OpDecoder.dword fun a => .done (k a)).run s).1 = k (fetchU32 s).1 := by
  rw [OpDecoder.run, bind_run]
  generalize fetchU32 s = r
  rfl

theorem run_qword (k : U64 → Inst) :
    ((OpDecoder.qword fun a => .done (k a)).run s).1 = k (fetchU64 s).1 := by
  rw [OpDecoder.run, bind_run]
  generalize fetchU64 s = r
  rfl

theorem execute_movAccMem32 (a : U64) : execute (.movAccMem32 a) s = movAccMem s.osize a s := by
  show atOsize (fun w => movAccMem w a) s = _
  rw [atOsize, bind_run, get_run]

theorem execute_movMem32Acc (a : U64) :
    execute (.movMem32Acc a) s = movMemAcc s.osize (s.operandSeg .ds) a s := by
  show atOsize (fun w => do movMemAcc w ((← get).operandSeg .ds) a) s = _
  rw [atOsize, bind_run, get_run, bind_run, get_run]

/-- Executing what the opcode decodes to runs its arm. -/
theorem execute_decoder (rep : Rep) :
    ∃ q, execute ((decodeOp o.opcode rep).run s).1 s = o.arm s q s := by
  rw [decodeOp_opcode]
  obtain ⟨store, wide⟩ := o
  rw [decoder, run_look]
  -- the bytes fetched are opaque, so that no step unfolds a fetch
  obtain ⟨a16, h16⟩ : ∃ a, (fetchU16 s).1 = a := ⟨_, rfl⟩
  obtain ⟨a32, h32⟩ : ∃ a, (fetchU32 s).1 = a := ⟨_, rfl⟩
  obtain ⟨a64, h64⟩ : ∃ a, (fetchU64 s).1 = a := ⟨_, rfl⟩
  cases wide with
  | false =>
    cases hsize : s.addrsize with
    | false =>
      refine ⟨u64 a16, ?_⟩
      cases store <;> simp [run_word, h16, arm, offset, width, segment, hsize] <;> rfl
    | true =>
      refine ⟨u64 a32, ?_⟩
      cases store <;> simp [run_dword, h32, arm, offset, width, segment, hsize] <;> rfl
  | true =>
    cases haddr : s.addr64 with
    | true =>
      refine ⟨a64, ?_⟩
      cases store <;>
        simp [run_qword, h64, execute_movAccMem32, execute_movMem32Acc, arm, offset, width, segment,
          haddr]
    | false =>
      cases hsize : s.addrsize with
      | false =>
        refine ⟨u64 a16, ?_⟩
        cases hop : s.opsize with
        | false =>
          cases store <;>
            simp [run_word, h16, arm, offset, width, segment, haddr, hsize, hop] <;> rfl
        | true =>
          cases store <;>
            simp [run_word, h16, execute_movAccMem32, execute_movMem32Acc, arm, offset, width,
              segment, haddr, hsize, hop]
      | true =>
        refine ⟨u64 a32, ?_⟩
        cases hop : s.opsize with
        | false =>
          cases store <;>
            simp [run_dword, h32, arm, offset, width, segment, haddr, hsize, hop] <;> rfl
        | true =>
          cases store <;>
            simp [run_dword, h32, execute_movAccMem32, execute_movMem32Acc, arm, offset, width,
              segment, haddr, hsize, hop]

/-- The offset is the bytes at the address size, and the segment DS unless it is overridden. -/
def Follows (q : U64) : Prop :=
  (o.segment s, o.offset s q) = (s.operandSeg .ds, q &&& s.asize.mask)

/-- When a MOV moffs does: a byte form, which reads four bytes of its offset, has no more in 64-bit
mode, and a store through a 32-bit address of a byte or a word is not overridden. -/
structure Regular (q : U64) : Prop where
  short : o.wide = false → s.addr64 = true → u64 (u32 q) = q
  override : o.store = true → s.addrsize = true →
    o.wide = false ∨ s.addr64 = false ∧ s.opsize = false → s.operandSeg .ds = .ds

theorem follows_iff (h : s.addr64 = true → s.addrsize = true) (q : U64) :
    o.Follows s q ↔ o.Regular s q := by
  have hoffset : o.offset s q = q &&& s.asize.mask ↔
      (o.wide = false → s.addr64 = true → u64 (u32 q) = q) := by
    have hall : q &&& 0xFFFFFFFFFFFFFFFF = q :=
      (BitVec.and_comm _ _).trans BitVec.allOnes_and
    rw [offset, Cpu.asize]
    cases h64 : s.addr64 with
    | true =>
      have hsize := h h64
      simp only [Bool.and_true, if_true, Width.mask, hall, hsize, forall_true_left]
      cases o.wide <;> simp
    | false =>
      cases s.addrsize with
      | true =>
        simp [Width.mask]
        exact (MemEncoding.low32 q).symm
      | false =>
        simp [Width.mask]
        exact (Cpu.low16 q).symm
  have hsegment : o.segment s = s.operandSeg .ds ↔ (o.store = true → s.addrsize = true →
      o.wide = false ∨ s.addr64 = false ∧ s.opsize = false → s.operandSeg .ds = .ds) := by
    have hif : (o.store && s.addrsize && (!o.wide || !s.addr64 && !s.opsize)) = true ↔
        o.store = true ∧ s.addrsize = true ∧
          (o.wide = false ∨ s.addr64 = false ∧ s.opsize = false) := by
      simp [and_assoc]
    rw [segment]
    by_cases hc : o.store = true ∧ s.addrsize = true ∧
        (o.wide = false ∨ s.addr64 = false ∧ s.opsize = false)
    · rw [if_pos (hif.mpr hc)]
      exact ⟨fun hs _ _ _ => hs.symm, fun hs => (hs hc.1 hc.2.1 hc.2.2).symm⟩
    · rw [if_neg (mt hif.mp hc)]
      exact ⟨fun _ h1 h2 h3 => absurd ⟨h1, h2, h3⟩ hc, fun _ => rfl⟩
  rw [Follows, Prod.mk.injEq, hoffset, hsegment]
  exact ⟨fun hf => ⟨hf.2, hf.1⟩, fun hr => ⟨hr.override, hr.short⟩⟩

end Moffs

/-! ## Addresses that follow their encodings -/

/-- Every computation of an address agrees with the encoding of its operand, exactly where the
operand is none of those that the source takes differently. -/
theorem addresses_follow_iff (s : Cpu) (h : s.Addressing s.long64) :
    (∀ e : MemEncoding, s.FollowsEncoding e ↔
      if s.addrsize then e.Regular32 s else e.Regular16 s) ∧
    ∀ (o : Moffs) (q : U64), o.Follows s q ↔ o.Regular s q := by
  refine ⟨fun e => ?_, fun o q => o.follows_iff s (fun h64 => (h h64).1) q⟩
  cases hsize : s.addrsize with
  | true => exact MemEncoding.follows32_iff hsize fun h64 => (h h64).2
  | false =>
    refine MemEncoding.follows16_iff hsize (Bool.eq_false_iff.mpr fun h64 => ?_)
    have hon := (h h64).1
    rw [hsize] at hon
    cases hon

/-- A real-mode machine with 0x100 in BP, 0x1200 in BX and 0x34 in SI. -/
def framed : Cpu :=
  { Cpu.withRam (2 ^ 16) Memory.segment_le 0 with
    regs := fun i => if i = 3 then 0x1200 else if i = 5 then 0x100 else if i = 6 then 0x34 else 0 }

/-- `[bx+si+0x56]` is at DS:0x128A, where `[bx+si-4]` passes the end of the segment. -/
theorem bx_si_follows :
    framed.rmOperand ((⟨0x40, 0, 0xFC, by decide⟩ : MemEncoding).operand framed) =
        (.ds, 0x11230) ∧
      ¬framed.FollowsEncoding ⟨0x40, 0, 0xFC, by decide⟩ ∧
      (⟨0x40, 0, 0x56, by decide⟩ : MemEncoding).address framed = (.ds, 0x128A) ∧
      framed.FollowsEncoding ⟨0x40, 0, 0x56, by decide⟩ := by
  have hiff := (addresses_follow_iff framed nofun).1
  refine ⟨by decide +kernel, fun h => ?_, by decide +kernel, (hiff _).mpr ?_⟩
  · exact absurd ((hiff _).mp h).no_carry (by decide +kernel)
  · exact ⟨by decide +kernel, by decide +kernel, by decide +kernel⟩

/-- `[bp-4]` is taken 64 KiB too high, and `[0x1234]` from BP and the stack segment. -/
theorem bp_misses_encoding :
    framed.rmOperand ((⟨0x46, 0, 0xFC, by decide⟩ : MemEncoding).operand framed) = (.ss, 0x100FC) ∧
      (⟨0x46, 0, 0xFC, by decide⟩ : MemEncoding).address framed = (.ss, 0xFC) ∧
      framed.rmOperand ((⟨0x06, 0, 0x1234, by decide⟩ : MemEncoding).operand framed) =
        (.ss, 0x1334) ∧
      (⟨0x06, 0, 0x1234, by decide⟩ : MemEncoding).address framed = (.ds, 0x1234) ∧
      ¬framed.FollowsEncoding ⟨0x46, 0, 0xFC, by decide⟩ := by
  refine ⟨by decide +kernel, by decide +kernel, by decide +kernel, by decide +kernel, fun h => ?_⟩
  exact absurd h.rmAddr (by decide +kernel)

end X86Emu
