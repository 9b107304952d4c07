import X86Emu.Word

/-!
# Decoded instructions

The instruction type the decoder hands to the executor, with its operand descriptors. Operand and
address sizes are one of four widths.
-/
namespace X86Emu

/-- An operand, address or stack width. -/
inductive Width where
  | w8
  | w16
  | w32
  | w64
  deriving DecidableEq, Repr

namespace Width

def bits : Width → Nat
  | w8 => 8
  | w16 => 16
  | w32 => 32
  | w64 => 64

def bytes : Width → Nat
  | w8 => 1
  | w16 => 2
  | w32 => 4
  | w64 => 8

/-- Half the width, as the operand of a widening conversion. -/
def half : Width → Width
  | w64 => w32
  | w32 => w16
  | _ => w8

/-- All-ones for the low bits of this width. -/
def mask : Width → U64
  | w8 => 0xFF
  | w16 => 0xFFFF
  | w32 => 0xFFFFFFFF
  | w64 => 0xFFFFFFFFFFFFFFFF

end Width

inductive SegReg where
  | es
  | cs
  | ss
  | ds
  | fs
  | gs
  deriving DecidableEq, Repr

/-- Named views of the legacy registers, by ModR/M index. -/
inductive Reg16 where
  | ax | cx | dx | bx | sp | bp | si | di
  deriving DecidableEq, Repr

inductive Reg32 where
  | eax | ecx | edx | ebx | esp | ebp | esi | edi
  deriving DecidableEq, Repr

inductive Reg8 where
  | al | cl | dl | bl | ah | ch | dh | bh
  deriving DecidableEq, Repr

def Reg16.idx : Reg16 → U8
  | ax => 0 | cx => 1 | dx => 2 | bx => 3 | sp => 4 | bp => 5 | si => 6 | di => 7

def Reg32.idx : Reg32 → U8
  | eax => 0 | ecx => 1 | edx => 2 | ebx => 3 | esp => 4 | ebp => 5 | esi => 6 | edi => 7

def Reg8.idx : Reg8 → U8
  | al => 0 | cl => 1 | dl => 2 | bl => 3 | ah => 4 | ch => 5 | dh => 6 | bh => 7

/-- A decoded ModR/M operand with its SIB byte and displacements. `rmRaw` keeps the three encoded
bits, on which every addressing decision is made. -/
structure ModRm where
  modField : U8
  reg : U8
  rm : U8
  rmRaw : U8
  rexB : Bool := false
  rexX : Bool := false
  ripRel : Bool := false
  sib : Option U8 := none
  disp8 : Option U16 := none
  disp16 : Option U16 := none
  disp32 : Option U32 := none
  deriving DecidableEq, Repr

/-- A register-direct operand. -/
def ModRm.isReg (m : ModRm) : Bool := m.modField == 3

inductive AluOp where
  | add | or | adc | sbb | and | sub | xor | cmp
  deriving DecidableEq, Repr

inductive Dir where
  | rmReg | regRm
  deriving DecidableEq, Repr

inductive Cond where
  | o | no | b | nb | e | ne | be | nbe | s | ns | p | np | l | nl | le | nle
  deriving DecidableEq, Repr

inductive ShiftOp where
  | rol | ror | rcl | rcr | shl | shr | sar
  deriving DecidableEq, Repr

inductive ShiftCount where
  | one
  | cl
  | imm (i : U8)
  deriving DecidableEq, Repr

inductive Rep where
  | none | repe | repne
  deriving DecidableEq, Repr

inductive LoopCond where
  | loop | loopz | loopnz | jcxz
  deriving DecidableEq, Repr

/-- Where a bit-test instruction's bit offset comes from. -/
inductive BitOffset where
  | imm (i : U8)
  | reg (r : U8)
  deriving DecidableEq, Repr

inductive FpuOp where
  | add | sub | mul | div
  deriving DecidableEq, Repr

/-! ## SSE -/

/-- The mandatory prefix, as a data type. -/
inductive Pfx where
  | none | p66 | f3 | f2
  deriving DecidableEq, Repr

inductive Sat where
  | wrap | signed | unsigned
  deriving DecidableEq, Repr

inductive ShiftKind where
  | sll | srl | sra
  deriving DecidableEq, Repr

inductive FpOp where
  | add | sub | mul | div | min | max
  deriving DecidableEq, Repr

/-- Element widths are in bits where a family has several. -/
inductive SseOp where
  | mov128 (store aligned : Bool)
  | movnt128
  | movScalar (store : Bool) (bits : Width)
  | movHalf (store high : Bool)
  | movhlps
  | movlhps
  | movGpr (store : Bool) (bits : Width)
  | movqLoad
  | movqStore
  | movddup
  | movshdup
  | movsldup
  | movmsk (bits : Width)
  | movnti
  | maskmovdqu
  | and
  | andn
  | or
  | xor
  | arith (op : FpOp)
  | sqrt
  | rsqrt
  | rcp
  | cmp
  | comis (signal : Bool)
  | shuf
  | unpck (high : Bool)
  | addsub
  | hadd
  | hsub
  | cvtSi2 (bits : Width)
  | cvt2Si (trunc : Bool) (bits : Width)
  | cvtSs2Sd
  | cvtSd2Ss
  | cvtPs2Pd
  | cvtPd2Ps
  | cvtDq2Ps
  | cvtPs2Dq (trunc : Bool)
  | cvtDq2Pd
  | cvtPd2Dq (trunc : Bool)
  | padd (bits : Width) (sat : Sat)
  | psub (bits : Width) (sat : Sat)
  | pmullw
  | pmulhw
  | pmulhuw
  | pmuludq
  | pmaddwd
  | psadbw
  | pavg (bits : Width)
  | pmax (bits : Width) (signed : Bool)
  | pmin (bits : Width) (signed : Bool)
  | pcmpeq (bits : Width)
  | pcmpgt (bits : Width)
  | packss (bits : Width)
  | packus
  | punpckl (bits : Width)
  | punpckh (bits : Width)
  | pshufd
  | pshufhw
  | pshuflw
  | pinsrw
  | pextrw
  | pshift (kind : ShiftKind) (bits : Width) (imm : Bool)
  | pshiftdq (left : Bool)
  | ldmxcsr
  | stmxcsr
  | fxsave
  | fxrstor
  deriving DecidableEq, Repr

structure SseInst where
  op : SseOp
  m : ModRm
  reg : U8
  imm : U8
  pfx : Pfx
  deriving DecidableEq, Repr

/-! ## VMX -/

inductive VmxOp where
  | vmxon | vmxoff | vmclear | vmptrld | vmptrst | vmread | vmwrite | vmlaunch | vmresume | vmcall
  | invept | invvpid
  deriving DecidableEq, Repr

structure VmxInst where
  op : VmxOp
  m : ModRm
  reg : U8
  deriving DecidableEq, Repr

/-! ## The instruction type -/

inductive Inst where
  | nop
  | hlt
  | movRm8Reg (m : ModRm) (src : U8)
  | movRm16Reg (m : ModRm) (src : U8)
  | movRm32Reg (m : ModRm) (src : U8)
  | movRegRm8 (m : ModRm) (dst : U8)
  | movRegRm16 (m : ModRm) (dst : U8)
  | movRegRm32 (m : ModRm) (dst : U8)
  | movRm8Imm (m : ModRm) (imm : U8)
  | movRm16Imm (m : ModRm) (imm : U16)
  | movRm32Imm (m : ModRm) (imm : U32)
  | movReg8Imm (dst imm : U8)
  | movReg16Imm (dst : U8) (imm : U16)
  | movReg32Imm (dst : U8) (imm : U32)
  | movReg64Imm (dst : U8) (imm : U64)
  | movAccMem8 (addr : U16)
  | movMem8Acc (addr : U16)
  | movAccMem8Addr32 (addr : U32)
  | movMem8AccAddr32 (addr : U32)
  | movAccMem16 (addr : U16)
  | movMem16Acc (addr : U16)
  | movAccMem16Addr32 (addr : U32)
  | movMem16AccAddr32 (addr : U32)
  | movAccMem32 (addr : U64)
  | movMem32Acc (addr : U64)
  | movRmSeg (m : ModRm) (seg : SegReg)
  | movSegRm (seg : SegReg) (m : ModRm)
  | lds (m : ModRm)
  | les (m : ModRm)
  | lss (m : ModRm)
  | lfs (m : ModRm)
  | lgs (m : ModRm)
  | aluRm8Reg (op : AluOp) (m : ModRm) (reg : U8) (dir : Dir)
  | aluRm16Reg (op : AluOp) (m : ModRm) (reg : U8) (dir : Dir)
  | aluRm32Reg (op : AluOp) (m : ModRm) (reg : U8) (dir : Dir)
  | aluRm8Imm (op : AluOp) (m : ModRm) (imm : U8)
  | aluRm16Imm (op : AluOp) (m : ModRm) (imm : U16)
  | aluRm32Imm (op : AluOp) (m : ModRm) (imm : U32)
  | aluAccImm8 (op : AluOp) (imm : U8)
  | aluAccImm16 (op : AluOp) (imm : U16)
  | aluAccImm32 (op : AluOp) (imm : U32)
  | incReg16 (dst : U8)
  | decReg16 (dst : U8)
  | incReg32 (dst : U8)
  | decReg32 (dst : U8)
  | pushReg16 (src : U8)
  | popReg16 (dst : U8)
  | pushReg32 (src : U8)
  | popReg32 (dst : U8)
  | imulRegRm16 (m : ModRm) (dst : U8)
  | imulRegRm32 (m : ModRm) (dst : U8)
  | imulRegRmImm16 (m : ModRm) (dst : U8) (imm : U16)
  | imulRegRmImm32 (m : ModRm) (dst : U8) (imm : U32)
  | shld (m : ModRm) (reg : U8) (count : ShiftCount) (w32 : Bool)
  | shrd (m : ModRm) (reg : U8) (count : ShiftCount) (w32 : Bool)
  | setcc (cond : Cond) (m : ModRm)
  | bsf (m : ModRm) (dst : U8)
  | bsr (m : ModRm) (dst : U8)
  | xchgRmReg (m : ModRm) (reg : U8) (width : Width)
  | cmpxchg (m : ModRm) (reg : U8) (width : Width)
  | xadd (m : ModRm) (reg : U8) (width : Width)
  | cmpxchg8b (m : ModRm)
  | bswap (reg : U8)
  | cmovcc (cond : Cond) (m : ModRm) (dst : U8)
  | pushSeg (seg : SegReg)
  | popSeg (seg : SegReg)
  | movDr (dr : Fin 8) (reg : U8)
  | movToDr (dr : Fin 8) (reg : U8)
  | lldt (m : ModRm)
  | ltr (m : ModRm)
  | sldt (m : ModRm)
  | str (m : ModRm)
  | leave (w32 : Bool)
  | popRm16 (m : ModRm)
  | popRm32 (m : ModRm)
  | pusha (w32 : Bool)
  | popa (w32 : Bool)
  | pushImm16 (imm : U16)
  | pushImm32 (imm : U32)
  | jmpRel8 (rel : U8)
  | jmpRel16 (rel : U16)
  | jmpRel32 (rel : U32)
  | jcc (cond : Cond) (rel : U8)
  | jcc32 (cond : Cond) (rel : U32)
  | movzx8 (m : ModRm) (dst : U8)
  | movzx16 (m : ModRm) (dst : U8)
  | movsx8 (m : ModRm) (dst : U8)
  | movsx16 (m : ModRm) (dst : U8)
  | movsxd (m : ModRm) (dst : U8)
  | callRel16 (rel : U16)
  | callRel32 (rel : U32)
  | ret
  | ret32
  | retImm (imm : U16) (w32 : Bool)
  | xchgAxReg (reg : U8)
  | xchgEaxReg (reg : U8)
  | int (vector : U8)
  | int3
  | into
  | iret
  | iret32
  | pushf
  | popf
  | shift (op : ShiftOp) (m : ModRm) (width : Width) (count : ShiftCount)
  | shiftImm (op : ShiftOp) (m : ModRm) (width : Width) (imm : U8)
  | testRm8Imm (m : ModRm) (imm : U8)
  | testRm16Imm (m : ModRm) (imm : U16)
  | testRm32Imm (m : ModRm) (imm : U32)
  | testRm8Reg (m : ModRm) (reg : U8)
  | testRm16Reg (m : ModRm) (reg : U8)
  | testRm32Reg (m : ModRm) (reg : U8)
  | testAccImm8 (imm : U8)
  | testAccImm16 (imm : U16)
  | testAccImm32 (imm : U32)
  | notRm8 (m : ModRm)
  | notRm16 (m : ModRm)
  | notRm32 (m : ModRm)
  | negRm8 (m : ModRm)
  | negRm16 (m : ModRm)
  | negRm32 (m : ModRm)
  | mulRm8 (m : ModRm)
  | mulRm16 (m : ModRm)
  | mulRm32 (m : ModRm)
  | imulRm8 (m : ModRm)
  | imulRm16 (m : ModRm)
  | imulRm32 (m : ModRm)
  | divRm8 (m : ModRm)
  | divRm16 (m : ModRm)
  | divRm32 (m : ModRm)
  | idivRm8 (m : ModRm)
  | idivRm16 (m : ModRm)
  | idivRm32 (m : ModRm)
  | lea (m : ModRm) (dst : U8)
  | cbw
  | cwd
  | cwde
  | cdq
  | loop (cond : LoopCond) (rel : U8)
  | jmpFar (off seg : U16)
  | callFar (off seg : U16)
  | jmpFar32 (off : U32) (seg : U16)
  | callFar32 (off : U32) (seg : U16)
  | retf
  | retf32
  | incRm8 (m : ModRm)
  | decRm8 (m : ModRm)
  | incRm16 (m : ModRm)
  | incRm32 (m : ModRm)
  | decRm16 (m : ModRm)
  | decRm32 (m : ModRm)
  | callRm16 (m : ModRm)
  | callRm32 (m : ModRm)
  | jmpRm16 (m : ModRm)
  | jmpRm32 (m : ModRm)
  | pushRm16 (m : ModRm)
  | pushRm32 (m : ModRm)
  | movs (rep : Rep) (w : Bool)
  | stos (rep : Rep) (w : Bool)
  | lods (rep : Rep) (w : Bool)
  | cmps (rep : Rep) (w : Bool)
  | scas (rep : Rep) (w : Bool)
  | lgdt (m : ModRm)
  | lidt (m : ModRm)
  | sgdt (m : ModRm)
  | sidt (m : ModRm)
  | smsw (m : ModRm)
  | lmsw (m : ModRm)
  | xgetbv
  | xsetbv
  | clac
  | stac
  | invlpg (m : ModRm)
  | movCr (cr reg : U8)
  | movToCr (cr reg : U8)
  | clts
  | syscall
  | sysret
  | swapgs
  | rdtscp
  | nopHint
  | invd
  | wbinvd
  | monitor
  | mwait
  | pause
  | cpuid
  | rdtsc
  | rdmsr
  | wrmsr
  | bt (m : ModRm) (bit : BitOffset)
  | bts (m : ModRm) (bit : BitOffset)
  | btr (m : ModRm) (bit : BitOffset)
  | btc (m : ModRm) (bit : BitOffset)
  | inAlImm (port : U8)
  | inAxImm (port : U8)
  | inAlDx
  | inAxDx
  | outImmAl (port : U8)
  | outImmAx (port : U8)
  | outDxAl
  | outDxAx
  | clc
  | stc
  | cli
  | sti
  | cld
  | std
  | cmc
  | fninit
  | fstcw (m : ModRm)
  | fldcw (m : ModRm)
  | fstswAx
  | fstsw (m : ModRm)
  | fst (m : ModRm) (w64 : Bool)
  | fstp (m : ModRm) (w64 : Bool)
  | fld (m : ModRm) (w64 : Bool)
  | fild (m : ModRm)
  | fistp (m : ModRm)
  | fop (op : FpuOp) (m : ModRm)
  | sse (i : SseInst)
  | vmx (i : VmxInst)
  | unknown (opcode : U16)

end X86Emu
