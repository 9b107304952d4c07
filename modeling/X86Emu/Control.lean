import X86Emu.Arith
import X86Emu.Bios
import X86Emu.Deliver

/-!
# Stack and control flow

Pushes and pops, branches, calls and returns, near and far, and the interrupt instructions.
-/
namespace X86Emu

/-! ## Push and pop -/

/-- Push all eight general registers in index order, with the original stack pointer. -/
def pusha (w32 : Bool) : Exec Unit := do
  let s ← get
  let w := if w32 then .w32 else .w16
  pushAll w ((List.range 8).map fun i => s.regW (BitVec.ofNat 8 i) w)

/-- Pop `n` words, the first popped first. -/
def popAll (w : Width) : Nat → Exec (List U64)
  | 0 => pure []
  | n + 1 => do
    let v ← popW w
    let vs ← popAll w n
    pure (v :: vs)

/-- Set registers from the words popped for them, in order. -/
def setRegs (w : Width) (s : Cpu) (l : List (U8 × U64)) : Cpu :=
  l.foldl (fun s p => s.setRegW p.1 w p.2) s

/-- Pop in reverse order; the stored stack pointer is discarded. -/
def popa (w32 : Bool) : Exec Unit := do
  let w := if w32 then .w32 else .w16
  let vs ← popAll w 8
  modify fun s => setRegs w s (([7, 6, 5, 4, 3, 2, 1, 0].zip vs).filter fun p => p.1 ≠ 4)

def pushReg (w : Width) (src : U8) : Exec Unit := do pushW w ((← get).regW src w)

def popReg (w : Width) (dst : U8) : Exec Unit := do
  let v ← popW w
  modify (·.setRegW dst w v)

def pushRm (w : Width) (m : ModRm) : Exec Unit := do
  let v ← readRmW m w
  pushW w v

/-- The pop happens first, so an operand addressed through the stack pointer sees it moved. -/
def popRm (w : Width) (m : ModRm) : Exec Unit := do
  let v ← popW w
  writeRmW m w v

def pushSeg (seg : SegReg) : Exec Unit := do
  let s ← get
  pushW s.stackWidth (u64 (s.seg seg))

def popSeg (seg : SegReg) : Exec Unit := do
  let v ← popW (← get).stackWidth
  modify (·.loadSeg seg (u16 v))

/-- VM and RF read back as zero in a 32- or 64-bit image. -/
def pushf : Exec Unit := do
  let s ← get
  if s.stackWidth = .w16 then pushW .w16 (u64 s.flags)
  else pushW s.stackWidth (u64 (s.flags &&& ~~~(Flags.vm ||| Flags.rf)))

/-- Flags popped at 16 bits keep the high half. -/
def lowFlags (fl v : U32) : U32 := writeFlags fl (fl &&& 0xFFFF0000 ||| v)

def popf : Exec Unit := do
  let s ← get
  if s.stackWidth = .w16 then
    let f := u32 (← popW .w16)
    modify (·.modifyFlags fun fl => lowFlags fl f)
  else
    let f := u32 (← popW s.stackWidth)
    modify (·.modifyFlags fun fl => writeFlags fl f)

def leave (w32 : Bool) : Exec Unit := do
  let s ← get
  if s.long64 then
    set (s.setRsp (s.reg64 5))
    let v ← popW .w64
    modify (·.setRegW 5 .w64 v)
  else if w32 then
    set (s.setReg32 .esp s.ebp)
    let v ← pop32
    modify (·.setReg32 .ebp v)
  else
    set (s.setReg16 .sp s.bp)
    let v ← pop16
    modify (·.setReg16 .bp v)

/-! ## Near branches -/

namespace Cpu

/-- Branch by a signed displacement, at the width of the mode. -/
def branchRel (s : Cpu) (rel : U64) : Cpu :=
  if s.long64 then { s with rip := s.rip + rel }
  else if s.opsize then s.setEip (s.eip + u32 rel)
  else { s with ip := s.ip + u16 rel }

/-- The return address of a near call, and a near branch to an absolute target. -/
def nextIp (s : Cpu) : U64 := if s.long64 then s.rip else u64 s.eip

def jumpTo (s : Cpu) (target : U64) : Cpu :=
  if s.long64 then { s with rip := target } else s.setEip (u32 target)

def setIp (s : Cpu) (v : U16) : Cpu := { s with ip := v }

end Cpu

def jcc (cond : Cond) (rel : U64) : Exec Unit :=
  modify fun s => if cond.test s then s.branchRel rel else s

def callRel16 (rel : U16) : Exec Unit := do
  push16 (← get).ip
  modify fun s => s.setIp (s.ip + rel)

def callRel32 (rel : U64) : Exec Unit := do
  let s ← get
  pushW s.stackWidth s.nextIp
  if (← get).pendingException.isSome then pure () else modify (·.branchRel rel)

def callRm16 (m : ModRm) : Exec Unit := do
  let target ← readRm16 m
  push16 (← get).ip
  modify (·.setIp target)

def callRm32 (m : ModRm) : Exec Unit := do
  let w := (← get).stackWidth
  let target ← readRmW m w
  pushW w (← get).nextIp
  if (← get).pendingException.isSome then pure ()
  else modify fun s => (s.jumpTo target).invalidatePhysIp

def jmpRm16 (m : ModRm) : Exec Unit := do
  let target ← readRm16 m
  modify (·.setIp target)

def jmpRm32 (m : ModRm) : Exec Unit := do
  let target ← readRmW m (← get).stackWidth
  modify fun s => (s.jumpTo target).invalidatePhysIp

def ret : Exec Unit := do
  let t ← pop16
  modify (·.setIp t)

def ret32 : Exec Unit := do
  let t ← popW (← get).stackWidth
  modify (·.jumpTo t)

/-- The stack adjustment happens after the return address is popped. -/
def retImm (imm : U16) (w32 : Bool) : Exec Unit := do
  if (← get).long64 then
    let target ← popW .w64
    modify fun s => { s.setRsp (s.rsp + u64 imm) with rip := target }
  else if w32 then
    let target ← pop32
    modify fun s => (s.setEsp (s.esp + u32 imm)).setEip target
  else
    let target ← pop16
    modify fun s => (s.setSp (s.sp + imm)).setIp target

namespace Cpu

/-- The count register of LOOP at its width, and what LOOP leaves in it. -/
def loopWidth (s : Cpu) : Width := if s.addr64 then .w64 else if s.opsize then .w32 else .w16

def countDown (s : Cpu) : Cpu := s.setRegWRaw 1 s.loopWidth (s.regW 1 s.loopWidth - 1)

def loopTaken (s : Cpu) (cond : LoopCond) : Bool :=
  let c := s.regW 1 s.loopWidth
  match cond with
  | .jcxz => c == 0
  | .loop => c != 0
  | .loopz => c != 0 && s.getFlag Flags.zf
  | .loopnz => c != 0 && !s.getFlag Flags.zf

/-- Outside 64-bit addressing LOOP branches by the operand size, whatever the mode. -/
def loopBranch (s : Cpu) (rel : U8) : Cpu :=
  if s.addr64 then s.branchRel (rel.signExtend 64)
  else if s.opsize then s.setEip (s.eip + rel.signExtend 32)
  else s.setIp (s.ip + rel.signExtend 16)

end Cpu

def loop (cond : LoopCond) (rel : U8) : Exec Unit :=
  modify fun s =>
    let s := if cond = .jcxz then s else s.countDown
    if s.loopTaken cond then s.loopBranch rel else s

/-! ## Far transfers -/

def jmpFar (off seg : U16) : Exec Unit :=
  modify fun s => ((s.loadSeg .cs seg).setIp off).invalidatePhysIp

def jmpFar32 (off : U32) (seg : U16) : Exec Unit :=
  modify fun s => ((s.loadSeg .cs seg).setEip off).invalidatePhysIp

def callFar (off seg : U16) : Exec Unit := do
  let s ← get
  push16 s.cs
  push16 s.ip
  jmpFar off seg

def callFar32 (off : U32) (seg : U16) : Exec Unit := do
  let s ← get
  push32 (u32 s.cs)
  push32 s.eip
  jmpFar32 off seg

def retf : Exec Unit := do
  let t ← pop16
  modify (·.setIp t)
  let cs ← pop16
  modify (·.loadSeg .cs cs)

def retf32 : Exec Unit := do
  if (← get).longMode then
    let rip ← popW .w64
    let cs := u16 (← popW .w64)
    modify fun s => { s.loadSeg .cs cs with rip := rip }.invalidatePhysIp
  else
    let t ← pop32
    let cs := u16 (← pop32)
    modify fun s => ((s.loadSeg .cs cs).setEip t).invalidatePhysIp

/-! ## Interrupts -/

def int (vector : U8) : Exec Unit := do
  let s ← get
  match s.biosHandle vector with
  | some t => set t
  | none => if s.pe then protectedInt vector else realInt vector

def iret : Exec Unit := do
  let t ← pop16
  modify (·.setIp t)
  let cs ← pop16
  modify fun s => { s with cs := cs }
  let f ← pop16
  modify (·.modifyFlags fun fl => lowFlags fl (u32 f))

/-- In long mode the frame is always five words. -/
def iretLong : Exec Unit := do
  let rip ← popW .w64
  let cs := u16 (← popW .w64)
  let f := u32 (← popW .w64)
  let rsp ← popW .w64
  let ss := u16 (← popW .w64)
  modify fun s =>
    let s := ((s.loadSeg .cs cs).loadSeg .ss ss).setRsp rsp
    ({ s with rip := rip }.modifyFlags fun fl => writeFlags fl f).invalidatePhysIp

/-- Returning to a less privileged level, the frame carries the outer stack as well. -/
def iretLegacy : Exec Unit := do
  let eip ← pop32
  let cs := u16 (← pop32)
  let f ← pop32
  if u8 (cs &&& 3) > (← get).cpl then
    let esp ← pop32
    let ss := u16 (← pop32)
    modify fun s => (s.loadSeg .ss ss).setEsp esp
  else pure ()
  modify fun s =>
    (((s.setEip eip).loadSeg .cs cs).modifyFlags fun fl => writeFlags fl f).invalidatePhysIp

def iret32 : Exec Unit := do
  if (← get).longMode then iretLong else iretLegacy

end X86Emu
