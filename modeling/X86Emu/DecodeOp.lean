import X86Emu.Decode

/-!
# The opcode decoder

What follows the prefixes: the one-byte and the two-byte opcode maps, the SSE forms and the VMX
pointer forms. The decoder reads the prefix flags once, since no fetch changes them.
-/
namespace X86Emu

open OpDecoder

/-! ## Fields of an opcode -/

/-- An ALU operation from a `reg` field, whose REX bit is part of it. -/
def AluOp.fromIndex (i : U8) : AluOp :=
  match i.toNat with
  | 0 => .add
  | 1 => .or
  | 2 => .adc
  | 3 => .sbb
  | 4 => .and
  | 5 => .sub
  | 6 => .xor
  | _ => .cmp

def ShiftOp.fromIndex (i : U8) : ShiftOp :=
  match (i &&& 7).toNat with
  | 0 => .rol
  | 1 => .ror
  | 2 => .rcl
  | 3 => .rcr
  | 4 => .shl
  | 5 => .shr
  | _ => .sar

def Cond.fromJcc (i : U8) : Cond :=
  match (i &&& 0xF).toNat with
  | 0 => .o
  | 1 => .no
  | 2 => .b
  | 3 => .nb
  | 4 => .e
  | 5 => .ne
  | 6 => .be
  | 7 => .nbe
  | 8 => .s
  | 9 => .ns
  | 10 => .p
  | 11 => .np
  | 12 => .l
  | 13 => .nl
  | 14 => .le
  | _ => .nle

def segFromIndex (i : U8) : SegReg :=
  match (i &&& 7).toNat with
  | 0 => .es
  | 1 => .cs
  | 2 => .ss
  | 3 => .ds
  | 4 => .fs
  | _ => .gs

/-- REX.B as the high bit of a register number in the opcode. -/
def Cpu.rb (s : Cpu) : U8 := rexBit s.rexB

/-- The three bits of the `reg` field that choose in a group. -/
def ModRm.group (m : ModRm) : U8 := m.reg &&& 7

/-! ## Shapes of instructions -/

namespace OpDecoder

/-- An instruction with a ModR/M operand and nothing after it. -/
def rm (f : ModRm → Inst) : OpDecoder := .modrm fun m => .done (f m)

/-- One with an immediate byte. -/
def imm8 (f : U8 → Inst) : OpDecoder := .byte fun imm => .done (f imm)

/-- A ModR/M operand and an immediate byte. -/
def rmImm8 (f : ModRm → U8 → Inst) : OpDecoder := .modrm fun m => .byte fun imm => .done (f m imm)

/-- An immediate of the operand size, four bytes at the widest. -/
def immW (w32 : Bool) (f32 : U32 → Inst) (f16 : U16 → Inst) : OpDecoder :=
  if w32 then .dword fun imm => .done (f32 imm) else .word fun imm => .done (f16 imm)

def rmImmW (w32 : Bool) (f32 : ModRm → U32 → Inst) (f16 : ModRm → U16 → Inst) : OpDecoder :=
  .modrm fun m => immW w32 (f32 m) (f16 m)

/-- A far pointer: an offset of the operand size and a selector. -/
def far (w32 : Bool) (f32 : U32 → U16 → Inst) (f16 : U16 → U16 → Inst) : OpDecoder :=
  if w32 then .dword fun off => .word fun seg => .done (f32 off seg)
  else .word fun off => .word fun seg => .done (f16 off seg)

def unknown (opcode : U16) : OpDecoder := .done (.unknown opcode)

end OpDecoder

/-! ## The one-byte map -/

section OneByte

variable (s : Cpu) (rep : Rep) (w32 : Bool) (op : U8)

/-- The six forms of an ALU operation, `k` counting from its first opcode. -/
def decodeAlu (alu : AluOp) (k : U8) : OpDecoder :=
  if k = 0 then rm fun m => .aluRm8Reg alu m m.reg .rmReg
  else if k = 1 then
    rm fun m => if w32 then .aluRm32Reg alu m m.reg .rmReg else .aluRm16Reg alu m m.reg .rmReg
  else if k = 2 then rm fun m => .aluRm8Reg alu m m.reg .regRm
  else if k = 3 then
    rm fun m => if w32 then .aluRm32Reg alu m m.reg .regRm else .aluRm16Reg alu m m.reg .regRm
  else if k = 4 then imm8 fun imm => .aluAccImm8 alu imm
  else immW w32 (.aluAccImm32 alu) (.aluAccImm16 alu)

/-- 0x00 to 0x3F, less the two-byte escape. -/
def decode00 : OpDecoder :=
  if op ≤ 0x05 then decodeAlu w32 .add op
  else if 0x08 ≤ op ∧ op ≤ 0x0D then decodeAlu w32 .or (op - 0x08)
  else if 0x10 ≤ op ∧ op ≤ 0x15 then decodeAlu w32 .adc (op - 0x10)
  else if 0x18 ≤ op ∧ op ≤ 0x1D then decodeAlu w32 .sbb (op - 0x18)
  else if 0x20 ≤ op ∧ op ≤ 0x25 then decodeAlu w32 .and (op - 0x20)
  else if 0x28 ≤ op ∧ op ≤ 0x2D then decodeAlu w32 .sub (op - 0x28)
  else if 0x30 ≤ op ∧ op ≤ 0x35 then decodeAlu w32 .xor (op - 0x30)
  else if 0x38 ≤ op ∧ op ≤ 0x3D then decodeAlu w32 .cmp (op - 0x38)
  else if op = 0x06 then .done (.pushSeg .es)
  else if op = 0x07 then .done (.popSeg .es)
  else if op = 0x0E then .done (.pushSeg .cs)
  else if op = 0x16 then .done (.pushSeg .ss)
  else if op = 0x17 then .done (.popSeg .ss)
  else if op = 0x1E then .done (.pushSeg .ds)
  else if op = 0x1F then .done (.popSeg .ds)
  else OpDecoder.unknown (u16 op)

/-- 0x40 to 0x7F. -/
def decode40 : OpDecoder :=
  if op ≤ 0x47 then .done (if w32 then .incReg32 (op - 0x40) else .incReg16 (op - 0x40))
  else if op ≤ 0x4F then .done (if w32 then .decReg32 (op - 0x48) else .decReg16 (op - 0x48))
  else if op ≤ 0x57 then
    let r := (op - 0x50) ||| s.rb
    .done (if w32 then .pushReg32 r else .pushReg16 r)
  else if op ≤ 0x5F then
    let r := (op - 0x58) ||| s.rb
    .done (if w32 then .popReg32 r else .popReg16 r)
  else if op = 0x60 then .done (.pusha w32)
  else if op = 0x61 then .done (.popa w32)
  -- ARPL in a legacy mode, where it checks nothing.
  else if op = 0x63 then rm fun m => if s.long64 then .movsxd m m.reg else .nop
  else if op = 0x68 then immW w32 .pushImm32 .pushImm16
  else if op = 0x69 then
    rmImmW w32 (fun m imm => .imulRegRmImm32 m m.reg imm) fun m imm => .imulRegRmImm16 m m.reg imm
  else if op = 0x6A then
    imm8 fun imm =>
      if w32 then .pushImm32 (imm.signExtend 32) else .pushImm16 (imm.signExtend 16)
  else if op = 0x6B then
    rmImm8 fun m imm =>
      if w32 then .imulRegRmImm32 m m.reg (imm.signExtend 32)
      else .imulRegRmImm16 m m.reg (imm.signExtend 16)
  else if 0x70 ≤ op then imm8 fun rel => .jcc (Cond.fromJcc (op - 0x70)) rel
  else OpDecoder.unknown (u16 op)

/-- 0x80 to 0xBF. -/
def decode80 : OpDecoder :=
  if op = 0x80 then rmImm8 fun m imm => .aluRm8Imm (AluOp.fromIndex m.reg) m imm
  else if op = 0x81 then
    rmImmW w32 (fun m imm => .aluRm32Imm (AluOp.fromIndex m.reg) m imm)
      fun m imm => .aluRm16Imm (AluOp.fromIndex m.reg) m imm
  else if op = 0x83 then
    rmImm8 fun m imm =>
      if w32 then .aluRm32Imm (AluOp.fromIndex m.reg) m (imm.signExtend 32)
      else .aluRm16Imm (AluOp.fromIndex m.reg) m (imm.signExtend 16)
  else if op = 0x84 then rm fun m => .testRm8Reg m m.reg
  else if op = 0x85 then rm fun m => if w32 then .testRm32Reg m m.reg else .testRm16Reg m m.reg
  else if op = 0x86 then rm fun m => .xchgRmReg m m.reg .w8
  else if op = 0x87 then rm fun m => .xchgRmReg m m.reg s.osize
  else if op = 0x88 then rm fun m => .movRm8Reg m m.reg
  else if op = 0x89 then rm fun m => if w32 then .movRm32Reg m m.reg else .movRm16Reg m m.reg
  else if op = 0x8A then rm fun m => .movRegRm8 m m.reg
  else if op = 0x8B then rm fun m => if w32 then .movRegRm32 m m.reg else .movRegRm16 m m.reg
  else if op = 0x8C then rm fun m => .movRmSeg m (segFromIndex m.reg)
  else if op = 0x8D then rm fun m => .lea m m.reg
  else if op = 0x8E then rm fun m => .movSegRm (segFromIndex m.reg) m
  else if op = 0x8F then
    rm fun m =>
      if m.group = 0 then (if w32 then .popRm32 m else .popRm16 m) else .unknown 0x008F
  -- NOP, and with REX.B the exchange that shares its encoding.
  else if op = 0x90 then
    .done (if s.rexB then (if w32 then .xchgEaxReg 8 else .xchgAxReg 8)
      else if rep = .repe then .pause else .nop)
  else if 0x91 ≤ op ∧ op ≤ 0x97 then
    let r := (op - 0x90) ||| s.rb
    .done (if w32 then .xchgEaxReg r else .xchgAxReg r)
  else if op = 0x98 then .done (if w32 then .cwde else .cbw)
  else if op = 0x99 then .done (if w32 then .cdq else .cwd)
  else if op = 0x9A then far w32 .callFar32 .callFar
  else if op = 0x9B then .done .nop
  else if op = 0x9C then .done .pushf
  else if op = 0x9D then .done .popf
  else if op = 0xA0 then
    if s.addrsize then .dword fun addr => .done (.movAccMem8Addr32 addr)
    else .word fun addr => .done (.movAccMem8 addr)
  else if op = 0xA1 then
    if s.addr64 then .qword fun addr => .done (.movAccMem32 addr)
    else if s.addrsize then
      .dword fun addr => .done (if w32 then .movAccMem32 (u64 addr) else .movAccMem16Addr32 addr)
    else .word fun addr => .done (if w32 then .movAccMem32 (u64 addr) else .movAccMem16 addr)
  else if op = 0xA2 then
    if s.addrsize then .dword fun addr => .done (.movMem8AccAddr32 addr)
    else .word fun addr => .done (.movMem8Acc addr)
  else if op = 0xA3 then
    if s.addr64 then .qword fun addr => .done (.movMem32Acc addr)
    else if s.addrsize then
      .dword fun addr => .done (if w32 then .movMem32Acc (u64 addr) else .movMem16AccAddr32 addr)
    else .word fun addr => .done (if w32 then .movMem32Acc (u64 addr) else .movMem16Acc addr)
  else if op = 0xA4 then .done (.movs rep false)
  else if op = 0xA5 then .done (.movs rep true)
  else if op = 0xA6 then .done (.cmps rep false)
  else if op = 0xA7 then .done (.cmps rep true)
  else if op = 0xA8 then imm8 .testAccImm8
  else if op = 0xA9 then immW w32 .testAccImm32 .testAccImm16
  else if op = 0xAA then .done (.stos rep false)
  else if op = 0xAB then .done (.stos rep true)
  else if op = 0xAC then .done (.lods rep false)
  else if op = 0xAD then .done (.lods rep true)
  else if op = 0xAE then .done (.scas rep false)
  else if op = 0xAF then .done (.scas rep true)
  else if 0xB0 ≤ op ∧ op ≤ 0xB7 then imm8 fun imm => .movReg8Imm ((op - 0xB0) ||| s.rb) imm
  else if 0xB8 ≤ op then
    let r := (op - 0xB8) ||| s.rb
    if s.rexW then .qword fun imm => .done (.movReg64Imm r imm)
    else immW w32 (.movReg32Imm r) (.movReg16Imm r)
  else OpDecoder.unknown (u16 op)

/-- Group 3 on a byte operand: TEST alone has an immediate. -/
def decodeF6 : OpDecoder := .modrm fun m =>
  match m.group.toNat with
  | 0 => imm8 (.testRm8Imm m)
  | 2 => .done (.notRm8 m)
  | 3 => .done (.negRm8 m)
  | 4 => .done (.mulRm8 m)
  | 5 => .done (.imulRm8 m)
  | 6 => .done (.divRm8 m)
  | _ => .done (.idivRm8 m)

def decodeF7 : OpDecoder := .modrm fun m =>
  match m.group.toNat with
  | 0 => immW w32 (.testRm32Imm m) (.testRm16Imm m)
  | 2 => .done (if w32 then .notRm32 m else .notRm16 m)
  | 3 => .done (if w32 then .negRm32 m else .negRm16 m)
  | 4 => .done (if w32 then .mulRm32 m else .mulRm16 m)
  | 5 => .done (if w32 then .imulRm32 m else .imulRm16 m)
  | 6 => .done (if w32 then .divRm32 m else .divRm16 m)
  | _ => .done (if w32 then .idivRm32 m else .idivRm16 m)

/-- Group 4. -/
def instFE (m : ModRm) : Inst :=
  match m.group.toNat with
  | 0 => .incRm8 m
  | 1 => .decRm8 m
  | _ => .unknown 0x00FE

/-- Group 5. -/
def instFF (m : ModRm) : Inst :=
  match m.group.toNat with
  | 0 => if w32 then .incRm32 m else .incRm16 m
  | 1 => if w32 then .decRm32 m else .decRm16 m
  | 2 => if w32 then .callRm32 m else .callRm16 m
  | 4 => if w32 then .jmpRm32 m else .jmpRm16 m
  | 6 => if w32 then .pushRm32 m else .pushRm16 m
  | _ => .unknown 0x00FF

/-! ### The x87 opcodes -/

def instD9 (m : ModRm) : Inst :=
  match m.group.toNat with
  | 0 => .fld m false
  | 2 => .fst m false
  | 3 => .fstp m false
  | 5 => .fldcw m
  | 7 => if m.isReg && m.rm == 4 then .fstswAx else .fstcw m
  | _ => .fstcw m

def instDD (m : ModRm) : Inst :=
  match m.group.toNat with
  | 0 => .fld m true
  | 2 => .fst m true
  | 3 => .fstp m true
  | 7 => .fstsw m
  | _ => .fst m true

def instDB (m : ModRm) : Inst :=
  match m.group.toNat with
  | 0 => .fild m
  | 3 => .fistp m
  | 4 => if m.isReg && m.rm == 3 then .fninit else .fstcw m
  | 7 => if m.isReg && m.rm == 0 then .fstswAx else .fstcw m
  | _ => .fild m

def instDF (m : ModRm) : Inst :=
  match m.group.toNat with
  | 0 => .fild m
  | 3 => .fistp m
  | 4 => if m.isReg && m.rm == 0 then .fstswAx else .fstsw m
  | _ => .fild m

/-- D8, DA, DC and DE, whatever their operand. -/
def FpuOp.fromGroup (i : U8) : FpuOp :=
  match i.toNat with
  | 0 => .add
  | 1 => .mul
  | 4 => .sub
  | 6 => .div
  | _ => .add

def decodeFpu : OpDecoder :=
  if op = 0xD9 then rm instD9
  else if op = 0xDB then rm instDB
  else if op = 0xDD then rm instDD
  else if op = 0xDF then rm instDF
  else rm fun m => .fop (FpuOp.fromGroup m.group) m

/-- 0xC0 to 0xFF. -/
def decodeC0 : OpDecoder :=
  if op = 0xC0 then rmImm8 fun m imm => .shiftImm (ShiftOp.fromIndex m.reg) m .w8 imm
  else if op = 0xC1 then rmImm8 fun m imm => .shiftImm (ShiftOp.fromIndex m.reg) m s.osize imm
  else if op = 0xC2 then .word fun imm => .done (.retImm imm w32)
  else if op = 0xC3 then .done (if w32 then .ret32 else .ret)
  else if op = 0xC4 then rm .les
  else if op = 0xC5 then rm .lds
  else if op = 0xC6 then rmImm8 .movRm8Imm
  else if op = 0xC7 then rmImmW w32 .movRm32Imm .movRm16Imm
  else if op = 0xC9 then .done (.leave w32)
  else if op = 0xCB then .done (if w32 then .retf32 else .retf)
  else if op = 0xCC then .done .int3
  else if op = 0xCD then imm8 .int
  else if op = 0xCE then .done .into
  else if op = 0xCF then .done (if w32 then .iret32 else .iret)
  else if op = 0xD0 then rm fun m => .shift (ShiftOp.fromIndex m.reg) m .w8 .one
  else if op = 0xD1 then rm fun m => .shift (ShiftOp.fromIndex m.reg) m s.osize .one
  else if op = 0xD2 then rm fun m => .shift (ShiftOp.fromIndex m.reg) m .w8 .cl
  else if op = 0xD3 then rm fun m => .shift (ShiftOp.fromIndex m.reg) m s.osize .cl
  else if 0xD8 ≤ op ∧ op ≤ 0xDF then decodeFpu op
  else if op = 0xE0 then imm8 (.loop .loop)
  else if op = 0xE1 then imm8 (.loop .loopz)
  else if op = 0xE2 then imm8 (.loop .loopnz)
  else if op = 0xE3 then imm8 (.loop .jcxz)
  else if op = 0xE4 then imm8 .inAlImm
  else if op = 0xE5 then imm8 .inAxImm
  else if op = 0xE6 then imm8 .outImmAl
  else if op = 0xE7 then imm8 .outImmAx
  else if op = 0xE8 then immW w32 .callRel32 .callRel16
  else if op = 0xE9 then immW w32 .jmpRel32 .jmpRel16
  else if op = 0xEA then far w32 .jmpFar32 .jmpFar
  else if op = 0xEB then imm8 .jmpRel8
  else if op = 0xEC then .done .inAlDx
  else if op = 0xED then .done .inAxDx
  else if op = 0xEE then .done .outDxAl
  else if op = 0xEF then .done .outDxAx
  else if op = 0xF4 then .done .hlt
  else if op = 0xF5 then .done .cmc
  else if op = 0xF6 then decodeF6
  else if op = 0xF7 then decodeF7 w32
  else if op = 0xF8 then .done .clc
  else if op = 0xF9 then .done .stc
  else if op = 0xFA then .done .cli
  else if op = 0xFB then .done .sti
  else if op = 0xFC then .done .cld
  else if op = 0xFD then .done .std
  else if op = 0xFE then rm instFE
  else if op = 0xFF then rm (instFF w32)
  else OpDecoder.unknown (u16 op)

end OneByte

/-! ## The SSE forms -/

/-- The mandatory prefix the prefix loop recorded. -/
def Cpu.pfx (s : Cpu) : Pfx :=
  if s.ssePfx = some 0x66 then .p66
  else if s.ssePfx = some 0xF3 then .f3
  else if s.ssePfx = some 0xF2 then .f2
  else .none

/-- The forms that an immediate byte follows. -/
def sseImm (p : Pfx) (op2 : U8) : Bool :=
  op2 == 0x70 || op2 == 0xC2 || op2 == 0xC6 ||
    p == .p66 && (op2 == 0x71 || op2 == 0x72 || op2 == 0x73 || op2 == 0xC4 || op2 == 0xC5)

section Sse

variable (p : Pfx) (gbits : Width) (m : ModRm) (op2 : U8)

/-- 0F 10 to 0F 2F: moves, conversions with a general register, comparisons. -/
def sseMove : Option SseOp :=
  if op2 = 0x10 ∨ op2 = 0x11 then
    match p with
    | .none | .p66 => some (.mov128 (op2 == 0x11) false)
    | .f3 => some (.movScalar (op2 == 0x11) .w32)
    | .f2 => some (.movScalar (op2 == 0x11) .w64)
  else if op2 = 0x12 then
    match p with
    | .f2 => some .movddup
    | .f3 => some .movsldup
    | _ => some (if m.isReg then .movhlps else .movHalf false false)
  else if op2 = 0x13 then some (.movHalf true false)
  else if op2 = 0x14 then some (.unpck false)
  else if op2 = 0x15 then some (.unpck true)
  else if op2 = 0x16 then
    match p with
    | .f3 => some .movshdup
    | _ => some (if m.isReg && p == .none then .movlhps else .movHalf false true)
  else if op2 = 0x17 then some (.movHalf true true)
  else if op2 = 0x28 then some (.mov128 false true)
  else if op2 = 0x29 then some (.mov128 true true)
  else if op2 = 0x2A then
    match p with
    | .f3 | .f2 => some (.cvtSi2 gbits)
    | _ => none
  else if op2 = 0x2B then some .movnt128
  else if op2 = 0x2C ∨ op2 = 0x2D then
    match p with
    | .f3 | .f2 => some (.cvt2Si (op2 == 0x2C) gbits)
    | _ => none
  else if op2 = 0x2E then some (.comis false)
  else if op2 = 0x2F then some (.comis true)
  else none

/-- 0F 50 to 0F 5F. -/
def sseFloat : Option SseOp :=
  if op2 = 0x50 then some (.movmsk (if p = .p66 then .w64 else .w32))
  else if op2 = 0x51 then some .sqrt
  else if op2 = 0x52 then some .rsqrt
  else if op2 = 0x53 then some .rcp
  else if op2 = 0x54 then some .and
  else if op2 = 0x55 then some .andn
  else if op2 = 0x56 then some .or
  else if op2 = 0x57 then some .xor
  else if op2 = 0x58 then some (.arith .add)
  else if op2 = 0x59 then some (.arith .mul)
  else if op2 = 0x5A then
    match p with
    | .none => some .cvtPs2Pd
    | .p66 => some .cvtPd2Ps
    | .f3 => some .cvtSs2Sd
    | .f2 => some .cvtSd2Ss
  else if op2 = 0x5B then
    match p with
    | .none => some .cvtDq2Ps
    | .p66 => some (.cvtPs2Dq false)
    | .f3 => some (.cvtPs2Dq true)
    | .f2 => none
  else if op2 = 0x5C then some (.arith .sub)
  else if op2 = 0x5D then some (.arith .min)
  else if op2 = 0x5E then some (.arith .div)
  else if op2 = 0x5F then some (.arith .max)
  else none

/-- 0F 71 to 0F 73: shifts by an immediate. -/
def sseShiftImm : Option SseOp :=
  let bits := if op2 = 0x71 then Width.w16 else if op2 = 0x72 then .w32 else .w64
  match m.group.toNat with
  | 2 => some (.pshift .srl bits true)
  | 3 => if op2 = 0x73 then some (.pshiftdq false) else none
  | 4 => if op2 = 0x73 then none else some (.pshift .sra bits true)
  | 6 => some (.pshift .sll bits true)
  | 7 => if op2 = 0x73 then some (.pshiftdq true) else none
  | _ => none

/-- 0F 60 to 0F 7F: packed integers; those with no prefix are MMX forms. -/
def ssePacked : Option SseOp :=
  if op2 ≤ 0x6F ∧ op2 ≠ 0x6E ∧ p = .none then none
  else if op2 = 0x60 then some (.punpckl .w8)
  else if op2 = 0x61 then some (.punpckl .w16)
  else if op2 = 0x62 then some (.punpckl .w32)
  else if op2 = 0x63 then some (.packss .w16)
  else if op2 = 0x64 then some (.pcmpgt .w8)
  else if op2 = 0x65 then some (.pcmpgt .w16)
  else if op2 = 0x66 then some (.pcmpgt .w32)
  else if op2 = 0x67 then some .packus
  else if op2 = 0x68 then some (.punpckh .w8)
  else if op2 = 0x69 then some (.punpckh .w16)
  else if op2 = 0x6A then some (.punpckh .w32)
  else if op2 = 0x6B then some (.packss .w32)
  else if op2 = 0x6C then some (.punpckl .w64)
  else if op2 = 0x6D then some (.punpckh .w64)
  else if op2 = 0x6E then if p = .p66 then some (.movGpr false gbits) else none
  else if op2 = 0x6F then
    match p with
    | .p66 => some (.mov128 false true)
    | .f3 => some (.mov128 false false)
    | _ => none
  else if op2 = 0x70 then
    match p with
    | .p66 => some .pshufd
    | .f3 => some .pshufhw
    | .f2 => some .pshuflw
    | .none => none
  else if op2 = 0x71 ∨ op2 = 0x72 ∨ op2 = 0x73 then if p = .p66 then sseShiftImm m op2 else none
  else if op2 = 0x74 then some (.pcmpeq .w8)
  else if op2 = 0x75 then some (.pcmpeq .w16)
  else if op2 = 0x76 then some (.pcmpeq .w32)
  else if op2 = 0x7C then if p = .p66 ∨ p = .f2 then some .hadd else none
  else if op2 = 0x7D then if p = .p66 ∨ p = .f2 then some .hsub else none
  else if op2 = 0x7E then
    match p with
    | .p66 => some (.movGpr true gbits)
    | .f3 => some .movqLoad
    | _ => none
  else if op2 = 0x7F then
    match p with
    | .p66 => some (.mov128 true true)
    | .f3 => some (.mov128 true false)
    | _ => none
  else none

/-- 0F C2 to 0F FE, all but a few with 66. -/
def sseHigh : Option SseOp :=
  if op2 = 0xC2 then some .cmp
  else if op2 = 0xC3 then if p = .none ∧ !m.isReg then some .movnti else none
  else if op2 = 0xC4 then if p = .p66 then some .pinsrw else none
  else if op2 = 0xC5 then if p = .p66 then some .pextrw else none
  else if op2 = 0xC6 then some .shuf
  else if op2 = 0xD0 then if p = .p66 ∨ p = .f2 then some .addsub else none
  else if op2 = 0xD6 then if p = .p66 then some .movqStore else none
  else if op2 = 0xF0 then if p = .f2 then some (.mov128 false false) else none
  else if op2 = 0xE6 then
    match p with
    | .f3 => some .cvtDq2Pd
    | .p66 => some (.cvtPd2Dq false)
    | .f2 => some (.cvtPd2Dq true)
    | .none => none
  else if p ≠ .p66 then none
  else if op2 = 0xD1 then some (.pshift .srl .w16 false)
  else if op2 = 0xD2 then some (.pshift .srl .w32 false)
  else if op2 = 0xD3 then some (.pshift .srl .w64 false)
  else if op2 = 0xD4 then some (.padd .w64 .wrap)
  else if op2 = 0xD5 then some .pmullw
  else if op2 = 0xD7 then some (.movmsk .w8)
  else if op2 = 0xD8 then some (.psub .w8 .unsigned)
  else if op2 = 0xD9 then some (.psub .w16 .unsigned)
  else if op2 = 0xDA then some (.pmin .w8 false)
  else if op2 = 0xDB then some .and
  else if op2 = 0xDC then some (.padd .w8 .unsigned)
  else if op2 = 0xDD then some (.padd .w16 .unsigned)
  else if op2 = 0xDE then some (.pmax .w8 false)
  else if op2 = 0xDF then some .andn
  else if op2 = 0xE0 then some (.pavg .w8)
  else if op2 = 0xE1 then some (.pshift .sra .w16 false)
  else if op2 = 0xE2 then some (.pshift .sra .w32 false)
  else if op2 = 0xE3 then some (.pavg .w16)
  else if op2 = 0xE4 then some .pmulhuw
  else if op2 = 0xE5 then some .pmulhw
  else if op2 = 0xE7 then some .movnt128
  else if op2 = 0xE8 then some (.psub .w8 .signed)
  else if op2 = 0xE9 then some (.psub .w16 .signed)
  else if op2 = 0xEA then some (.pmin .w16 true)
  else if op2 = 0xEB then some .or
  else if op2 = 0xEC then some (.padd .w8 .signed)
  else if op2 = 0xED then some (.padd .w16 .signed)
  else if op2 = 0xEE then some (.pmax .w16 true)
  else if op2 = 0xEF then some .xor
  else if op2 = 0xF1 then some (.pshift .sll .w16 false)
  else if op2 = 0xF2 then some (.pshift .sll .w32 false)
  else if op2 = 0xF3 then some (.pshift .sll .w64 false)
  else if op2 = 0xF4 then some .pmuludq
  else if op2 = 0xF5 then some .pmaddwd
  else if op2 = 0xF6 then some .psadbw
  else if op2 = 0xF7 then some .maskmovdqu
  else if op2 = 0xF8 then some (.psub .w8 .wrap)
  else if op2 = 0xF9 then some (.psub .w16 .wrap)
  else if op2 = 0xFA then some (.psub .w32 .wrap)
  else if op2 = 0xFB then some (.psub .w64 .wrap)
  else if op2 = 0xFC then some (.padd .w8 .wrap)
  else if op2 = 0xFD then some (.padd .w16 .wrap)
  else if op2 = 0xFE then some (.padd .w32 .wrap)
  else none

/-- The operation of `0F op2`; none for an MMX form, or for no instruction. -/
def sseOp : Option SseOp :=
  if op2 ≤ 0x2F then sseMove p gbits m op2
  else if op2 ≤ 0x5F then sseFloat p op2
  else if op2 ≤ 0x7F then ssePacked p gbits m op2
  else sseHigh p m op2

end Sse

/-- The shifts by an immediate name their XMM operand in `rm`. -/
def SseOp.operandInRm : SseOp → Bool
  | .pshift _ _ true | .pshiftdq _ => true
  | _ => false

def sseInst (p : Pfx) (gbits : Width) (m : ModRm) (op2 imm : U8) : Inst :=
  match sseOp p gbits m op2 with
  | some op =>
    if op.operandInRm then .sse ⟨op, { m with modField := 3 }, m.rm, imm, p⟩
    else .sse ⟨op, m, m.reg, imm, p⟩
  | none => .unknown (0x0F00 ||| u16 op2)

/-- Decode `0F op2` as an SSE instruction. -/
def decodeSse (s : Cpu) (op2 : U8) : OpDecoder := .modrm fun m =>
  let gbits := if s.rexW then Width.w64 else .w32
  if sseImm s.pfx op2 then .byte fun imm => .done (sseInst s.pfx gbits m op2 imm)
  else .done (sseInst s.pfx gbits m op2 0)

/-! ## The two-byte map -/

/-- The memory forms of `0F AE`; the register forms are fences. -/
def inst0fAe (m : ModRm) : Inst :=
  if m.modField = 3 then .nopHint
  else
    match m.group.toNat with
    | 0 => .sse ⟨.fxsave, m, m.reg, 0, .none⟩
    | 1 => .sse ⟨.fxrstor, m, m.reg, 0, .none⟩
    | 2 => .sse ⟨.ldmxcsr, m, m.reg, 0, .none⟩
    | 3 => .sse ⟨.stmxcsr, m, m.reg, 0, .none⟩
    | 7 => .nopHint
    | _ => .unknown 0x0FAE

/-- CMPXCHG8B, and the VMX instructions that take a pointer. -/
def inst0fC7 (pfx : Option U8) (m : ModRm) : Inst :=
  if m.group = 1 then .cmpxchg8b m
  else if m.isReg then .unknown 0x0FC7
  else if m.group = 6 ∧ pfx = none then .vmx ⟨.vmptrld, m, m.reg⟩
  else if m.group = 6 ∧ pfx = some 0x66 then .vmx ⟨.vmclear, m, m.reg⟩
  else if m.group = 6 ∧ pfx = some 0xF3 then .vmx ⟨.vmxon, m, m.reg⟩
  else if m.group = 7 ∧ pfx = none then .vmx ⟨.vmptrst, m, m.reg⟩
  else .unknown 0x0FC7

/-- Group 7 with a register operand. -/
def inst0f01Reg (m : ModRm) : Inst :=
  match m.group.toNat, m.rmRaw.toNat with
  | 7, 0 => .swapgs
  | 7, 1 => .rdtscp
  | 0, 1 => .vmx ⟨.vmcall, m, 0⟩
  | 0, 2 => .vmx ⟨.vmlaunch, m, 0⟩
  | 0, 3 => .vmx ⟨.vmresume, m, 0⟩
  | 0, 4 => .vmx ⟨.vmxoff, m, 0⟩
  | 1, 0 => .monitor
  | 1, 1 => .mwait
  | 1, 2 => .clac
  | 1, 3 => .stac
  | 2, 0 => .xgetbv
  | 2, 1 => .xsetbv
  | 4, _ => .smsw m
  | 6, _ => .lmsw m
  | _, _ => .unknown 0x0F01

def inst0f01 (m : ModRm) : Inst :=
  if m.modField = 3 then inst0f01Reg m
  else
    match m.group.toNat with
    | 0 => .sgdt m
    | 1 => .sidt m
    | 2 => .lgdt m
    | 3 => .lidt m
    | 4 => .smsw m
    | 6 => .lmsw m
    | 7 => .invlpg m
    | _ => .unknown 0x0F01

/-- Group 6: VERR and VERW check nothing. -/
def inst0f00 (m : ModRm) : Inst :=
  match m.group.toNat with
  | 0 => .sldt m
  | 1 => .str m
  | 2 => .lldt m
  | 3 => .ltr m
  | _ => .nop

def inst0fBa (m : ModRm) (imm : U8) : Inst :=
  match m.group.toNat with
  | 4 => .bt m (.imm imm)
  | 5 => .bts m (.imm imm)
  | 6 => .btr m (.imm imm)
  | _ => .btc m (.imm imm)

def inst0f38 (pfx : Option U8) (op3 : U8) (m : ModRm) : Inst :=
  if pfx = some 0x66 ∧ op3 = 0x80 then .vmx ⟨.invept, m, m.reg⟩
  else if pfx = some 0x66 ∧ op3 = 0x81 then .vmx ⟨.invvpid, m, m.reg⟩
  else .unknown 0x0F38

/-- The opcodes `decode_sse` is asked about. -/
def isSse (op2 : U8) : Bool :=
  (0x10 ≤ op2 && op2 ≤ 0x17) || (0x28 ≤ op2 && op2 ≤ 0x2F) || (0x50 ≤ op2 && op2 ≤ 0x76) ||
    (0x7C ≤ op2 && op2 ≤ 0x7F) || (0xC2 ≤ op2 && op2 ≤ 0xC6) || (0xD0 ≤ op2 && op2 ≤ 0xFE)

section TwoByte

variable (s : Cpu) (w32 : Bool) (op2 : U8)

/-- 0F 00 to 0F 7F, less the SSE forms. -/
def decode0fLow : OpDecoder :=
  if op2 = 0x00 then rm inst0f00
  else if op2 = 0x01 then rm inst0f01
  else if op2 = 0x05 then .done .syscall
  else if op2 = 0x06 then .done .clts
  else if op2 = 0x07 then .done .sysret
  else if op2 = 0x08 then .done .invd
  else if op2 = 0x09 then .done .wbinvd
  else if op2 = 0x0B then .done (.unknown 0x0F0B)
  else if op2 = 0x0D ∨ op2 = 0x18 ∨ op2 = 0x1F then rm fun _ => .nopHint
  else if 0x19 ≤ op2 ∧ op2 ≤ 0x1E then rm fun _ => .nop
  else if op2 = 0x20 then rm fun m => .movCr m.reg (m.rmRaw ||| s.rb)
  else if op2 = 0x21 then rm fun m => .movDr (Fin.ofNat 8 m.reg.toNat) (m.rmRaw ||| s.rb)
  else if op2 = 0x22 then rm fun m => .movToCr m.reg (m.rmRaw ||| s.rb)
  else if op2 = 0x23 then rm fun m => .movToDr (Fin.ofNat 8 m.reg.toNat) (m.rmRaw ||| s.rb)
  else if op2 = 0x30 then .done .wrmsr
  else if op2 = 0x31 then .done .rdtsc
  else if op2 = 0x32 then .done .rdmsr
  else if op2 = 0x38 then .byte fun op3 => rm (inst0f38 s.ssePfx op3)
  else if 0x40 ≤ op2 ∧ op2 ≤ 0x4F then rm fun m => .cmovcc (Cond.fromJcc (op2 &&& 0xF)) m m.reg
  else if op2 = 0x78 then rm fun m => .vmx ⟨.vmread, m, m.reg⟩
  else if op2 = 0x79 then rm fun m => .vmx ⟨.vmwrite, m, m.reg⟩
  else OpDecoder.unknown (0x0F00 ||| u16 op2)

/-- 0F 80 to 0F FF, less the SSE forms. -/
def decode0fHigh : OpDecoder :=
  if op2 ≤ 0x8F then .dword fun rel => .done (.jcc32 (Cond.fromJcc (op2 - 0x80)) rel)
  else if op2 ≤ 0x9F then rm fun m => .setcc (Cond.fromJcc (op2 &&& 0xF)) m
  else if op2 = 0xA0 then .done (.pushSeg .fs)
  else if op2 = 0xA1 then .done (.popSeg .fs)
  else if op2 = 0xA2 then .done .cpuid
  else if op2 = 0xA3 then rm fun m => .bt m (.reg m.reg)
  else if op2 = 0xA4 then rmImm8 fun m imm => .shld m m.reg (.imm imm) w32
  else if op2 = 0xA5 then rm fun m => .shld m m.reg .cl w32
  else if op2 = 0xA8 then .done (.pushSeg .gs)
  else if op2 = 0xA9 then .done (.popSeg .gs)
  else if op2 = 0xAB then rm fun m => .bts m (.reg m.reg)
  else if op2 = 0xAC then rmImm8 fun m imm => .shrd m m.reg (.imm imm) w32
  else if op2 = 0xAD then rm fun m => .shrd m m.reg .cl w32
  else if op2 = 0xAE then rm inst0fAe
  else if op2 = 0xAF then rm fun m => if w32 then .imulRegRm32 m m.reg else .imulRegRm16 m m.reg
  else if op2 = 0xB0 then rm fun m => .cmpxchg m m.reg .w8
  else if op2 = 0xB1 then rm fun m => .cmpxchg m m.reg s.osize
  else if op2 = 0xB2 then rm .lss
  else if op2 = 0xB3 then rm fun m => .btr m (.reg m.reg)
  else if op2 = 0xB4 then rm .lfs
  else if op2 = 0xB5 then rm .lgs
  else if op2 = 0xB6 then rm fun m => .movzx8 m m.reg
  else if op2 = 0xB7 then rm fun m => .movzx16 m m.reg
  else if op2 = 0xBA then rmImm8 inst0fBa
  else if op2 = 0xBB then rm fun m => .btc m (.reg m.reg)
  else if op2 = 0xBC then rm fun m => .bsf m m.reg
  else if op2 = 0xBD then rm fun m => .bsr m m.reg
  else if op2 = 0xBE then rm fun m => .movsx8 m m.reg
  else if op2 = 0xBF then rm fun m => .movsx16 m m.reg
  else if op2 = 0xC0 then rm fun m => .xadd m m.reg .w8
  else if op2 = 0xC1 then rm fun m => .xadd m m.reg s.osize
  else if op2 = 0xC7 then rm (inst0fC7 s.ssePfx)
  else if 0xC8 ≤ op2 ∧ op2 ≤ 0xCF then .done (.bswap ((op2 - 0xC8) ||| s.rb))
  else OpDecoder.unknown (0x0F00 ||| u16 op2)

/-- The two-byte escape. -/
def decode0f : OpDecoder := .byte fun op2 =>
  if isSse op2 then decodeSse s op2
  else if op2 < 0x80 then decode0fLow s op2
  else decode0fHigh s w32 op2

end TwoByte

/-- Decode what follows the prefixes. -/
def decodeOp (op : U8) (rep : Rep) : OpDecoder := .look fun s =>
  let w32 := s.opsize
  if op = 0x0F then decode0f s w32
  else if op < 0x40 then decode00 w32 op
  else if op < 0x80 then decode40 s w32 op
  else if op < 0xC0 then decode80 s rep w32 op
  else decodeC0 s w32 op

end X86Emu
