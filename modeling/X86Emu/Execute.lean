import X86Emu.Control
import X86Emu.Strings
import X86Emu.System
import X86Emu.Sse
import X86Emu.VmInst

/-!
# The executor

`execute` dispatches a decoded instruction. In a guest, `guestExecute` runs the intercept first, as
`step` does once it has decoded.
-/
namespace X86Emu

/-- Sign-extend an immediate or a displacement. -/
def sx64 {n : Nat} (v : BitVec n) : U64 := v.signExtend 64

def setFlagInst (f : U32) (on : Bool) : Exec Unit := modify (·.setFlags f on)

/-- Run a body at the operand size, or at the stack width. -/
def atOsize (f : Width → Exec Unit) : Exec Unit := do f (← get).osize
def atStackWidth (f : Width → Exec Unit) : Exec Unit := do f (← get).stackWidth

/-- The width of an instruction that distinguishes 8 and 16 bits and takes the operand size
otherwise. -/
def atWidth (w : Width) (f : Width → Exec Unit) : Exec Unit := do
  match w with
  | .w8 => f .w8
  | .w16 => f .w16
  | _ => f (← get).osize

def execute (inst : Inst) : Exec Unit := do
  match inst with
  | .nop | .pause | .monitor | .invd | .wbinvd | .nopHint => pure ()
  | .mwait | .hlt => modify fun s => { s with halted := true }
  -- Moves
  | .movRm8Reg m src => movRmReg .w8 m src
  | .movRm16Reg m src => movRmReg .w16 m src
  | .movRm32Reg m src => atOsize fun w => movRmReg w m src
  | .movRegRm8 m dst => movRegRm .w8 m dst
  | .movRegRm16 m dst => movRegRm .w16 m dst
  | .movRegRm32 m dst => atOsize fun w => movRegRm w m dst
  | .movRm8Imm m imm => writeRm8 m imm
  | .movRm16Imm m imm => writeRm16 m imm
  | .movRm32Imm m imm => atOsize fun w => writeRmW m w (sx64 imm)
  | .movReg8Imm dst imm => modify (·.setReg8Idx dst imm)
  | .movReg16Imm dst imm => modify (·.setReg16Idx dst imm)
  | .movReg32Imm dst imm => modify (·.setRegW dst .w32 (u64 imm))
  | .movReg64Imm dst imm => modify (·.setRegW dst .w64 imm)
  | .movAccMem8 addr => movAccMem .w8 (u64 addr)
  | .movAccMem8Addr32 addr => movAccMem .w8 (u64 addr)
  | .movAccMem16 addr => movAccMem .w16 (u64 addr)
  | .movAccMem16Addr32 addr => movAccMem .w16 (u64 addr)
  | .movAccMem32 addr => atOsize fun w => movAccMem w addr
  | .movMem8Acc addr => do movMemAcc .w8 ((← get).operandSeg .ds) (u64 addr)
  | .movMem8AccAddr32 addr => movMemAcc .w8 .ds (u64 addr)
  | .movMem16Acc addr => do movMemAcc .w16 ((← get).operandSeg .ds) (u64 addr)
  | .movMem16AccAddr32 addr => movMemAcc .w16 .ds (u64 addr)
  | .movMem32Acc addr => atOsize fun w => do movMemAcc w ((← get).operandSeg .ds) addr
  | .movRmSeg m seg => movRmSeg m seg
  | .movSegRm seg m => movSegRm seg m
  | .lds m => loadFarPointer m .ds
  | .les m => loadFarPointer m .es
  | .lss m => loadFarPointer m .ss
  | .lfs m => loadFarPointer m .fs
  | .lgs m => loadFarPointer m .gs
  -- ALU
  | .aluRm8Reg op m reg dir => aluRmReg .w8 op m reg dir
  | .aluRm16Reg op m reg dir => aluRmReg .w16 op m reg dir
  | .aluRm32Reg op m reg dir => atOsize fun w => aluRmReg w op m reg dir
  | .aluRm8Imm op m imm => aluRmImm .w8 op m (u64 imm)
  | .aluRm16Imm op m imm => aluRmImm .w16 op m (u64 imm)
  | .aluRm32Imm op m imm => atOsize fun w => aluRmImm w op m (sx64 imm)
  | .aluAccImm8 op imm => aluAccImm .w8 op (u64 imm)
  | .aluAccImm16 op imm => aluAccImm .w16 op (u64 imm)
  | .aluAccImm32 op imm => atOsize fun w => aluAccImm w op (sx64 imm)
  | .testRm8Imm m imm => testRmImm .w8 m (u64 imm)
  | .testRm16Imm m imm => testRmImm .w16 m (u64 imm)
  | .testRm32Imm m imm => atOsize fun w => testRmImm w m (sx64 imm)
  | .testRm8Reg m reg => testRmReg .w8 m reg
  | .testRm16Reg m reg => testRmReg .w16 m reg
  | .testRm32Reg m reg => atOsize fun w => testRmReg w m reg
  | .testAccImm8 imm => testAccImm .w8 (u64 imm)
  | .testAccImm16 imm => testAccImm .w16 (u64 imm)
  | .testAccImm32 imm => atOsize fun w => testAccImm w (sx64 imm)
  | .incReg16 dst => incReg .w16 incFlagsRm16 dst
  | .decReg16 dst => decReg .w16 decFlagsRm16 dst
  | .incReg32 dst => incReg .w32 incFlagsReg32 dst
  | .decReg32 dst => decReg .w32 decFlagsReg32 dst
  | .incRm8 m => incRm .w8 incFlagsRm8 m
  | .decRm8 m => decRm .w8 decFlagsRm8 m
  | .incRm16 m => incRm .w16 incFlagsRm16 m
  | .decRm16 m => decRm .w16 decFlagsRm16 m
  | .incRm32 m => atOsize fun w => incRm w (incFlagsRm w) m
  | .decRm32 m => atOsize fun w => decRm w (decFlagsRm w) m
  | .notRm8 m => notRm .w8 m
  | .notRm16 m => notRm .w16 m
  | .notRm32 m => atOsize fun w => notRm w m
  | .negRm8 m => negRm .w8 m
  | .negRm16 m => negRm .w16 m
  | .negRm32 m => atOsize fun w => negRm w m
  -- Multiply and divide
  | .mulRm8 m => mulRm8With mul8 m
  | .mulRm16 m => mulRmWith .w16 (mulW .w16) m
  | .mulRm32 m => atOsize fun w => mulRmWith w (mulW w) m
  | .imulRm8 m => mulRm8With imul8 m
  | .imulRm16 m => mulRmWith .w16 imul16Halves m
  | .imulRm32 m => atOsize fun w => mulRmWith w (imulW w) m
  | .imulRegRm16 m dst => imulRegRm16 m dst
  | .imulRegRm32 m dst => imulRegRm32 m dst
  | .imulRegRmImm16 m dst imm => imulRegRmImm16 m dst imm
  | .imulRegRmImm32 m dst imm => imulRegRmImm32 m dst imm
  | .divRm8 m => divRm8 m
  | .divRm16 m => divRm16 m
  | .divRm32 m => divRm32 m
  | .idivRm8 m => idivRm8 m
  | .idivRm16 m => idivRm16 m
  | .idivRm32 m => idivRm32 m
  -- Shifts, exchanges and bits
  | .shift op m width count => do doShift op m width (u32 (count.value (← get)))
  | .shiftImm op m width imm => doShift op m width (u32 imm)
  | .shld m reg count w32 => doubleShift shldW m reg count w32
  | .shrd m reg count w32 => doubleShift shrdW m reg count w32
  | .setcc cond m => setcc cond m
  | .bsf m dst => bitScan lowestSet m dst
  | .bsr m dst => bitScan highestSet m dst
  | .xchgRmReg m reg width => atWidth width fun w => xchgRmReg w m reg
  | .xchgAxReg reg => xchgAccReg .w16 reg
  | .xchgEaxReg reg => atOsize fun w => xchgAccReg w reg
  | .cmpxchg m reg width => atWidth width fun w => cmpxchg w m reg
  | .xadd m reg width => atWidth width fun w => xadd w m reg
  | .cmpxchg8b m => cmpxchg8b m
  | .bswap reg => bswap reg
  | .cmovcc cond m dst => cmovcc cond m dst
  | .bt m bit => bitOp m bit .test
  | .bts m bit => bitOp m bit .set
  | .btr m bit => bitOp m bit .reset
  | .btc m bit => bitOp m bit .complement
  -- Conversions
  | .movzx8 m dst => atOsize fun w => loadReg m .w8 dst w id
  | .movzx16 m dst => atOsize fun w => loadReg m .w16 dst w id
  | .movsx8 m dst => atOsize fun w => loadReg m .w8 dst w (sext · .w8)
  | .movsx16 m dst => atOsize fun w => loadReg m .w16 dst w (sext · .w16)
  | .movsxd m dst => atOsize fun w => loadReg m .w32 dst w (sext · .w32)
  | .lea m dst => modify fun s => s.setRegW dst s.osize (s.leaOffset m)
  | .cbw => modify fun s => s.setReg16 .ax ((s.reg8 .al).signExtend 16)
  | .cwd => modify fun s => s.setReg16 .dx (if (s.reg16 .ax).msb then 0xFFFF else 0)
  | .cwde => atOsize widenAcc
  | .cdq => atOsize fillSign
  -- Stack
  | .pushReg16 src => pushReg .w16 src
  | .popReg16 dst => popReg .w16 dst
  | .pushReg32 src => atStackWidth fun w => pushReg w src
  | .popReg32 dst => atStackWidth fun w => popReg w dst
  | .pushImm16 imm => pushW .w16 (u64 imm)
  | .pushImm32 imm => atStackWidth fun w => pushW w (sx64 imm)
  | .pushSeg seg => pushSeg seg
  | .popSeg seg => popSeg seg
  | .pushRm16 m => pushRm .w16 m
  | .pushRm32 m => atStackWidth fun w => pushRm w m
  | .popRm16 m => popRm .w16 m
  | .popRm32 m => atStackWidth fun w => popRm w m
  | .pusha w32 => pusha w32
  | .popa w32 => popa w32
  | .pushf => pushf
  | .popf => popf
  | .leave w32 => leave w32
  -- Control flow
  | .jmpRel8 rel => modify (·.branchRel (sx64 rel))
  | .jmpRel16 rel => modify fun s => s.setIp (s.ip + rel)
  | .jmpRel32 rel => modify (·.branchRel (sx64 rel))
  | .jcc cond rel => jcc cond (sx64 rel)
  | .jcc32 cond rel => jcc cond (sx64 rel)
  | .callRel16 rel => callRel16 rel
  | .callRel32 rel => callRel32 (sx64 rel)
  | .callRm16 m => callRm16 m
  | .callRm32 m => callRm32 m
  | .jmpRm16 m => jmpRm16 m
  | .jmpRm32 m => jmpRm32 m
  | .ret => ret
  | .ret32 => ret32
  | .retImm imm w32 => retImm imm w32
  | .loop cond rel => loop cond rel
  | .jmpFar off seg => jmpFar off seg
  | .jmpFar32 off seg => jmpFar32 off seg
  | .callFar off seg => callFar off seg
  | .callFar32 off seg => callFar32 off seg
  | .retf => retf
  | .retf32 => retf32
  | .int vector => int vector
  | .int3 => modify (·.setPending 0x03 none)
  | .into => modify fun s => if s.getFlag Flags.of then s.setPending 0x04 none else s
  | .iret => iret
  | .iret32 => iret32
  -- Strings
  | .movs rep w => stringInst .movs rep w
  | .stos rep w => stringInst .stos rep w
  | .lods rep w => stringInst .lods rep w
  | .cmps rep w => stringInst .cmps rep w
  | .scas rep w => stringInst .scas rep w
  -- System
  | .lgdt m => lgdt m
  | .lidt m => lidt m
  | .sgdt m => sgdt m
  | .sidt m => sidt m
  | .lldt m => lldt m
  | .ltr m => ltr m
  | .sldt m => sldt m
  | .str m => str m
  | .smsw m => smsw m
  | .lmsw m => lmsw m
  | .clts => clts
  | .movCr cr reg => movCr cr reg
  | .movToCr cr reg => movToCr cr reg
  | .movDr dr reg => movDr dr reg
  | .movToDr dr reg => movToDr dr reg
  | .xgetbv => xgetbv
  | .xsetbv => xsetbv
  | .clac => setAc false
  | .stac => setAc true
  | .invlpg m => invlpg m
  | .syscall => syscall
  | .sysret => sysret
  | .swapgs => swapgs
  | .rdtsc => rdtsc
  | .rdtscp => rdtscp
  | .rdmsr => rdmsr
  | .wrmsr => wrmsr
  | .cpuid => cpuid
  | .inAlImm port => inAl (u16 port)
  | .inAxImm port => inAx (u16 port)
  | .inAlDx => do inAl (← get).dx
  | .inAxDx => do inAx (← get).dx
  | .outImmAl port => outAl (u16 port)
  | .outImmAx port => outAx (u16 port)
  | .outDxAl => do outAl (← get).dx
  | .outDxAx => do outAx (← get).dx
  -- Flags
  | .clc => setFlagInst Flags.cf false
  | .stc => setFlagInst Flags.cf true
  | .cli => setFlagInst Flags.if' false
  | .sti => setFlagInst Flags.if' true
  | .cld => setFlagInst Flags.df false
  | .std => setFlagInst Flags.df true
  | .cmc => modify fun s => s.setFlags Flags.cf (!s.getFlag Flags.cf)
  -- x87, SSE and VMX
  | .fninit => modify (·.modifyFpu Fpu.finit)
  | .fstcw m => fstcw m
  | .fldcw m => fldcw m
  | .fstswAx => modify fun s => s.setReg16 .ax s.fpu.fstsw
  | .fstsw m => fstsw m
  | .fst m w64 => fst m w64
  | .fstp m w64 => fstp m w64
  | .fld m w64 => fld m w64
  | .fild m => fild m
  | .fistp m => fistp m
  | .fop op m => fop op m
  | .sse i => executeSse i
  | .vmx v => executeVmx v
  | .unknown _ => modify (·.undefinedOpcode)

/-- Execute an instruction in a guest: unless the intercept handled it, it executes as usual. -/
def guestExecute (inst : Inst) : Exec Unit := do
  if ← intercept inst then pure () else execute inst

/-- The execution half of a step: an instruction whose fetch faulted does not run. -/
def stepInst (inst : Inst) : Exec Unit := do
  let s ← get
  if s.pendingException.isSome then pure ()
  else if s.vmx.inGuest then guestExecute inst
  else execute inst

end X86Emu
