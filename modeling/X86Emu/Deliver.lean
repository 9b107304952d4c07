import X86Emu.VmExit

/-!
# Delivering interrupts and exceptions

The frame builders of the three modes, exception dispatch with its escalation to a double and a
triple fault, and hardware interrupts.
-/
namespace X86Emu

/-- An IDT gate. The stack-table index is zero in a 32-bit one. -/
structure Gate where
  target : U64
  selector : U16
  ist : U8
  ty : U8
  deriving DecidableEq, Repr

namespace Cpu

/-- The 8-byte gate of a vector. -/
def gate32 (s : Cpu) (vector : U8) : Gate :=
  let addr := s.linearToPhysRo (s.idtBase + u64 vector * 8)
  { target := u64 (s.mem.readU16 addr) ||| u64 (s.mem.readU16 (addr + 6)) <<< 16
    selector := s.mem.readU16 (addr + 2)
    ist := 0
    ty := s.mem.readU8 (addr + 5) &&& 0x0F }

/-- The 16-byte gate of a vector. -/
def gate64 (s : Cpu) (vector : U8) : Gate :=
  let addr := s.linearToPhysRo (s.idtBase + u64 vector * 16)
  { target := u64 (s.mem.readU16 addr) ||| u64 (s.mem.readU16 (addr + 6)) <<< 16 |||
      u64 (s.mem.readU32 (addr + 8)) <<< 32
    selector := s.mem.readU16 (addr + 2)
    ist := s.mem.readU8 (addr + 4) &&& 7
    ty := s.mem.readU8 (addr + 5) &&& 0x0F }

/-- The gate leads to a more privileged code segment. -/
def switching (s : Cpu) (selector : U16) : Bool := (s.descriptorFor selector).dpl < s.cpl

/-- The flags a handler starts with: an interrupt gate clears IF. -/
def handlerFlags (interruptGate : Bool) (fl : U32) : U32 :=
  let fl := if interruptGate then setFlag Flags.if' false fl else fl
  setFlag Flags.rf false (setFlag Flags.tf false fl)

/-- The stack a 32-bit gate starts on. -/
def enterStack32 (s : Cpu) (switching : Bool) : Cpu :=
  if switching then (s.loadSeg .ss s.tssStack0.1).setEsp s.tssStack0.2 else s

/-- The stack a 64-bit gate starts on: an IST entry is taken unconditionally. -/
def enterStack64 (s : Cpu) (ist : U8) (switching : Bool) : Cpu :=
  if ist ≠ 0 then (s.loadSeg .ss 0).setRsp (s.tssIst ist)
  else if switching then (s.loadSeg .ss 0).setRsp s.tssRsp0
  else s

end Cpu

/-- The words a 32-bit gate pushes: the old stack only when it switches. -/
def frame32 (s : Cpu) (switching : Bool) (errorCode : Option U32) : List U64 :=
  (if switching then [u64 s.ss, u64 s.esp] else []) ++
    [u64 s.flags, u64 s.cs, u64 s.eip] ++ (errorCode.map fun c => (u64 c : U64)).toList

/-- The words a 64-bit gate pushes: the old stack always. -/
def frame64 (s : Cpu) (errorCode : Option U32) : List U64 :=
  [u64 s.ss, s.rsp, u64 s.flags, u64 s.cs, s.rip] ++ (errorCode.map fun c => (u64 c : U64)).toList

/-- Deliver through a long-mode IDT. -/
def longInt (vector : U8) (errorCode : Option U32) : Exec Unit := do
  let s ← get
  let gate := s.gate64 vector
  modify (·.enterStack64 gate.ist (s.switching gate.selector))
  -- The handler's privilege level comes before the frame: the pushes happen at the new CPL.
  modify (·.loadSeg .cs gate.selector)
  modify fun t => t.setRsp (t.rsp &&& ~~~0xF)
  pushAll .w64 (frame64 s errorCode)
  modify fun t =>
    { t.modifyFlags (Cpu.handlerFlags (gate.ty == 0xE)) with rip := gate.target }.invalidatePhysIp

/-- Deliver through the IDT. -/
def protectedIntErr (vector : U8) (errorCode : Option U32) : Exec Unit := do
  let s ← get
  if s.longMode then longInt vector errorCode
  else
    let gate := s.gate32 vector
    let switching := s.switching gate.selector
    modify (·.enterStack32 switching)
    modify (·.loadSeg .cs gate.selector)
    pushAll .w32 (frame32 s switching errorCode)
    modify fun t =>
      { t.modifyFlags (Cpu.handlerFlags (gate.ty == 0x6 || gate.ty == 0xE)) with
        rip := gate.target }.invalidatePhysIp

def protectedInt (vector : U8) : Exec Unit := protectedIntErr vector none

/-- Deliver through the real-mode vector table. -/
def realInt (vector : U8) : Exec Unit := do
  let s ← get
  push16 (u16 s.flags)
  push16 s.cs
  push16 s.ip
  modify fun t =>
    let entry := u64 vector * 4
    { t.modifyFlags fun fl => setFlag Flags.tf false (setFlag Flags.if' false fl) with
      ip := t.mem.readU16 entry
      cs := t.mem.readU16 (entry + 2) }

/-! ## Exceptions -/

namespace Cpu

/-- The machine resets: it halts, flagged, unless a guest is running. -/
def resetOnTripleFault (s : Cpu) : Cpu :=
  if s.vmx.inGuest then s.tripleFaultExit else { s with tripleFault := true, halted := true }

/-- #BP and #OF are traps: they report the next instruction. -/
def isTrap (vector : U8) : Bool := vector == 0x03 || vector == 0x04

/-- The descriptor or vector table covers this vector. -/
def vectorCovered (s : Cpu) (vector : U8) : Bool :=
  if s.pe then
    let gate : U32 := if s.longMode then 16 else 8
    !(u16 (u32 vector * gate + gate - 1) > s.idtLimit)
  else vector.toNat * 4 + 3 ≤ 0x3FF

def contributory (v : U8) : Bool :=
  v == 0x00 || v == 0x0A || v == 0x0B || v == 0x0C || v == 0x0D

/-- A fault raised while delivering `first` becomes a double fault. -/
def escalates (first second : U8) : Bool :=
  (first == 0x0E && (contributory second || second == 0x0E)) ||
    (contributory first && contributory second)

def clearPending (s : Cpu) : Cpu := { s with pendingException := none }

end Cpu

/-- What becomes of a fault raised while `vector` was being delivered. -/
def resolveNested (vector : U8) (doubleFault : Exec Unit) : Exec Unit := do
  let s ← get
  match s.pendingException with
  | none => modify (·.invalidatePhysIp)
  | some (second, _) =>
    if vector = 0x08 then modify fun s => s.clearPending.resetOnTripleFault
    else if Cpu.escalates vector second then do
      modify (·.clearPending)
      doubleFault
    else modify (·.invalidatePhysIp)

/-- Deliver an exception with no VMX intercept, given how a double fault is dispatched. -/
def deliverEvent (doubleFault : Exec Unit) (vector : U8) (errorCode : Option U32) : Exec Unit := do
  modify fun s => if Cpu.isTrap vector then s else { s with rip := s.ripStart, ip := s.ipStart }
  let s ← get
  if !s.vectorCovered vector then modify (·.resetOnTripleFault)
  else if s.pe then
    protectedIntErr vector errorCode
    resolveNested vector doubleFault
  else
    realInt vector
    modify (·.invalidatePhysIp)

/-- In a guest, an exception the bitmap names exits instead of being delivered. -/
def interceptException (deliver : U8 → Option U32 → Exec Unit) (vector : U8)
    (errorCode : Option U32) : Exec Unit := do
  let s ← get
  if s.vmx.inGuest && vector < 32 then
    let s := if Cpu.isTrap vector then s else { s with rip := s.ripStart }
    if (s.exceptionExit vector errorCode).1 then set (s.exceptionExit vector errorCode).2
    else do
      set s
      deliver vector errorCode
  else deliver vector errorCode

/-- A fault during a double fault's delivery is a triple fault, so nothing escalates past it. -/
def dispatchDoubleFault : Exec Unit := interceptException (deliverEvent (pure ())) 0x08 (some 0)

def dispatchExceptionRaw (vector : U8) (errorCode : Option U32) : Exec Unit :=
  deliverEvent dispatchDoubleFault vector errorCode

def dispatchException (vector : U8) (errorCode : Option U32) : Exec Unit :=
  interceptException dispatchExceptionRaw vector errorCode

/-! ## Hardware interrupts -/

namespace Cpu

def irqCheckInterval : U64 := 64
def pitClocks : U64 := 4
def pitHz : U64 := 1193182
def keyInterval : U64 := 20000

/-- Advance the timer and the wall clock. -/
def tickTimers (s : Cpu) : Cpu :=
  let subsecond := s.pitSubsecond + pitClocks
  { s with
    pit := s.pit.tick pitClocks
    pitSubsecond := subsecond % pitHz
    cmos := Cmos.tickSecond^[(subsecond / pitHz).toNat] s.cmos }

/-- Type the next scripted key once the guest has read the last one. -/
def typeNextKey (s : Cpu) : Cpu :=
  match s.keyScript with
  | scancode :: rest =>
    if s.kbd.driverAttached && s.kbd.idle && s.instructionsExecuted ≥ s.keyNext then
      { s with
        keyScript := rest
        kbd := s.kbd.pushScancode scancode
        keyNext := s.instructionsExecuted + keyInterval }
    else s
  | [] => s

def raiseIrq (s : Cpu) (line : Nat) : Cpu := { s with pic := s.pic.raiseIrq line }

/-- Move every device's request to the interrupt controller. -/
def collectIrqs (s : Cpu) : Cpu :=
  let s := s.tickTimers
  let s := if s.pit.irq0 then { s with pit := { s.pit with irq0 := false } }.raiseIrq 0 else s
  let s := s.typeNextKey
  let s := if s.kbd.irq1 then { s with kbd := { s.kbd with irq1 := false } }.raiseIrq 1 else s
  let s := if s.virtio.irq then s.raiseIrq virtioIrq else s
  if s.ide.busy then { s with ide := { s.ide with busy := false } }.raiseIrq 14 else s

end Cpu

/-- Deliver a pending hardware interrupt, if any; true when one was dispatched. -/
def deliverHardwareInterrupt : Exec Bool := do
  if (← get).instructionsExecuted % Cpu.irqCheckInterval ≠ 0 then pure false
  else
    modify (·.collectIrqs)
    let s ← get
    if !s.getFlag Flags.if' then pure false
    else if s.vmx.inGuest && s.pic.hasPending && s.interruptExit.1 then
      set s.interruptExit.2
      pure true
    else
      match s.pic.acknowledge with
      | (none, _) => pure false
      | (some vector, pic) =>
        set { s with pic }
        if s.pe then protectedInt vector else realInt vector
        modify (·.invalidatePhysIp)
        pure true

end X86Emu
