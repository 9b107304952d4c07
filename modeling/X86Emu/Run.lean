import X86Emu.Execute

/-!
# The run loop

One step of the machine and one turn of the loop around it. The decoder is a parameter: it reads the
instruction at CS:RIP and moves RIP past it.
-/
namespace X86Emu

namespace Cpu

/-- Where a step starts: the fetch cache is dropped and the instruction's address noted. -/
def beginInst (s : Cpu) : Cpu :=
  { s.invalidatePhysIp with
    ripStart := s.rip
    ipStart := s.ip
    ripMask := if s.long64 then 0xFFFFFFFFFFFFFFFF else 0xFFFFFFFF }

/-- One instruction more, or one turn of a halted machine. -/
def countInst (s : Cpu) : Cpu :=
  { s with instructionsExecuted := s.instructionsExecuted + 1, tsc := s.tsc + 1 }

/-- A halted machine that nothing can wake ends the run. -/
def parked (s : Cpu) : Bool := s.halted && (s.tripleFault || !s.getFlag Flags.if')

/-- The VMX hook before anything else. -/
def beforeStep (s : Cpu) : Cpu := if s.vmx.inGuest then s.preStep else s

end Cpu

/-- Dispatch the exception the last instruction raised, or else consider a hardware interrupt. -/
def serveEvents : Exec Unit := do
  let s ← get
  match s.pendingException with
  | some (vector, code) => do
    modify (·.clearPending)
    dispatchException vector code
  | none => do
    let _ ← deliverHardwareInterrupt
    pure ()

/-- Decode and execute an instruction. -/
def runInst (decode : Exec Inst) : Exec Unit := do
  modify (·.beginInst)
  let inst ← decode
  stepInst inst
  modify (·.countInst)

/-- Decode and execute a single instruction, events first. -/
def step (decode : Exec Inst) : Exec Unit := do
  modify (·.beforeStep)
  serveEvents
  runInst decode

/-- A turn of a halted machine: the devices go on, and an interrupt wakes it. -/
def idle : Exec Unit := do
  modify (·.countInst)
  if ← deliverHardwareInterrupt then modify fun s => { s with halted := false } else pure ()

/-- One turn of the run loop; none when the run ends. -/
def turn (decode : Exec Inst) (s : Cpu) : Option Cpu :=
  if s.halted then
    if s.parked then none else some (idle s).2
  else some (step decode s).2

/-- The machine after some turns. -/
def runFor (decode : Exec Inst) : Nat → Cpu → Option Cpu
  | 0, s => some s
  | n + 1, s => (turn decode s).bind (runFor decode n)

end X86Emu
