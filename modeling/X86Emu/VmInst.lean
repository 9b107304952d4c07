import X86Emu.Deliver

/-!
# VMX instructions

The instructions of root operation: the VMCS regions in memory, the working copy, and VM entry.
-/
namespace X86Emu

namespace VmError
def vmcallInRoot : U32 := 1
def vmclearBadAddr : U32 := 2
def vmclearVmxonPtr : U32 := 3
def vmlaunchNotClear : U32 := 4
def vmresumeNotLaunched : U32 := 5
def entryInvalidControls : U32 := 7
def entryInvalidHostState : U32 := 8
def vmptrldBadAddr : U32 := 9
def vmptrldVmxonPtr : U32 := 10
def vmptrldBadRevision : U32 := 11
def vmreadWriteBadField : U32 := 12
def vmwriteReadOnly : U32 := 13
def vmxonInRoot : U32 := 15
def invalidOperand : U32 := 28
end VmError

namespace Cpu

def vmSucceed (s : Cpu) : Cpu :=
  s.modifyFlags fun fl =>
    fl &&& ~~~(Flags.cf ||| Flags.pf ||| Flags.af ||| Flags.zf ||| Flags.sf ||| Flags.of)

def vmFailInvalid (s : Cpu) : Cpu := s.vmSucceed.modifyFlags (· ||| Flags.cf)

def vmFailValid (s : Cpu) (error : U32) : Cpu :=
  (s.vmSucceed.modifyFlags (· ||| Flags.zf)).vmWrite Field.instructionError (u64 error)

/-- A region must be 4 KiB aligned and within the physical address width. -/
def badRegionPtr (p : U64) : Bool := test p 0xFFF || p >>> 52 != 0

/-- Where a region keeps a slot: after the revision and abort words. -/
def slotAddr (p : U64) (i : Nat) : U64 := p + 8 + BitVec.ofNat 64 (i * 8)

end Cpu

/-- Write every slot of a working copy to its region. -/
def flushRegion (p : U64) (vmcs : Nat → U64) (mem : Memory) : Memory :=
  (List.range Vmx.slots).foldl (fun m i => m.writeU64 (Cpu.slotAddr p i) (vmcs i)) mem

namespace Cpu

/-- Write the working copy back to its region. -/
def flushVmcs (s : Cpu) : Cpu :=
  match s.vmx.current with
  | some p => s.modifyMem (flushRegion p s.vmx.vmcs)
  | none => s

/-- Load a region into the working copy. -/
def loadVmcs (s : Cpu) (p : U64) : Cpu :=
  { s with vmx := { s.vmx with vmcs := fun i => s.mem.readU64 (slotAddr p i), current := some p } }

def setCurrent (s : Cpu) (p : Option U64) : Cpu := { s with vmx := { s.vmx with current := p } }

def setLaunched (s : Cpu) (on : Bool) : Cpu := { s with vmx := s.vmx.setLaunched on }

/-! ## VMXON, VMXOFF and the region pointer -/

/-- The conditions on CR4, the feature-control MSR and CR0 under which VMXON may proceed. -/
def vmxonAllowed (s : Cpu) : Bool :=
  test s.vmx.featureControl Vmx.featLocked && test s.vmx.featureControl Vmx.featVmxOutsideSmx &&
    u64 s.cr0 &&& Vmx.cr0Fixed0 == Vmx.cr0Fixed0

def enterRoot (s : Cpu) (p : U64) : Cpu :=
  if badRegionPtr p then s.vmFailInvalid
  else if s.mem.readU32 p ≠ Vmx.vmcsRevision then s.vmFailInvalid
  else { s with vmx := { s.vmx with on := true, vmxonPtr := p, current := none } }.vmSucceed

def leaveRoot (s : Cpu) : Cpu :=
  let s := s.flushVmcs
  { s with vmx := { s.vmx with on := false, current := none } }.vmSucceed

/-- Clear a VMCS: the launch state goes, and a current one is flushed. -/
def clearVmcs (s : Cpu) (p : U64) : Cpu :=
  if badRegionPtr p then s.vmFailValid VmError.vmclearBadAddr
  else if p = s.vmx.vmxonPtr then s.vmFailValid VmError.vmclearVmxonPtr
  else if s.vmx.current = some p then (((s.setLaunched false).flushVmcs).setCurrent none).vmSucceed
  else (s.modifyMem (·.writeU64 (slotAddr p Vmx.launchSlot) 0)).vmSucceed

/-- Make a VMCS current. -/
def pointTo (s : Cpu) (p : U64) : Cpu :=
  if badRegionPtr p then s.vmFailValid VmError.vmptrldBadAddr
  else if p = s.vmx.vmxonPtr then s.vmFailValid VmError.vmptrldVmxonPtr
  else if s.mem.readU32 p ≠ Vmx.vmcsRevision then s.vmFailValid VmError.vmptrldBadRevision
  else if s.vmx.current = some p then s.vmSucceed
  else (s.flushVmcs.loadVmcs p).vmSucceed

/-! ## VM entry -/

/-- The checks an entry makes on the controls and the host state; the error it fails with. -/
def checkControls (s : Cpu) : Except U32 Unit :=
  let pin := u32 (s.vmRead Field.pinCtls)
  let cpuCtl := u32 (s.vmRead Field.cpuCtls)
  let exit := u32 (s.vmRead Field.exitCtls)
  let entry := u32 (s.vmRead Field.entryCtls)
  let hostCr0 := s.vmRead Field.hostCr0
  let hostCr4 := s.vmRead Field.hostCr4
  if test pin (~~~Vmx.pinAllowed1) || test cpuCtl (~~~Vmx.cpuAllowed1) ||
      test exit (~~~Vmx.exitAllowed1) || test entry (~~~Vmx.entryAllowed1) then
    .error VmError.entryInvalidControls
  else if test cpuCtl Vmx.cpuSecondaryControls &&
      test (u32 (s.vmRead Field.cpuCtls2)) (~~~Vmx.cpu2Allowed1) then
    .error VmError.entryInvalidControls
  else if hostCr0 &&& Vmx.cr0Fixed0 ≠ Vmx.cr0Fixed0 ∨ hostCr4 &&& Vmx.cr4Fixed0 ≠ Vmx.cr4Fixed0 then
    .error VmError.entryInvalidHostState
  else if !test exit Vmx.exitHostAddrSpaceSize && s.vmRead Field.hostRip >>> 32 != 0 then
    .error VmError.entryInvalidHostState
  else .ok ()

/-- Enter the guest, short of injecting an event. -/
def enterGuest (s : Cpu) : Cpu :=
  let hostLong := test (u32 (s.vmRead Field.exitCtls)) Vmx.exitHostAddrSpaceSize
  let s := { s with vmx := { s.vmx with hostLong } }.loadGuestState.setLaunched true
  { s with vmx := { s.vmx with inGuest := true } }

/-- The event the entry controls ask for: vector and error code. -/
def injectedEvent (s : Cpu) : Option (U8 × Option U32) :=
  let info := u32 (s.vmRead Field.entryIntrInfo)
  if test info ((1 : U32) <<< 31) then
    some (u8 (info &&& 0xFF),
      if test info ((1 : U32) <<< 11) then some (u32 (s.vmRead Field.entryExceptionError)) else none)
  else none

/-- Consume the injection: a software event reports the instruction after. -/
def consumeEvent (s : Cpu) : Cpu :=
  let ty := (u32 (s.vmRead Field.entryIntrInfo) >>> 8) &&& 7
  let s := s.vmWrite Field.entryIntrInfo 0
  let rip := if ty = 4 ∨ ty = 6 then s.rip + s.vmRead Field.entryInstrLen else s.rip
  { s with rip := rip, ripStart := rip, ipStart := u16 rip, halted := false }

end Cpu

/-- Enter the guest and inject an event, if the entry controls say so. -/
def vmEntry : Exec Unit := do
  modify (·.enterGuest)
  let s ← get
  match s.injectedEvent with
  | some (vector, code) => do
    set s.consumeEvent
    dispatchExceptionRaw vector code
  | none => pure ()

/-! ## The instructions -/

/-- Read the 64-bit memory operand of VMXON, VMCLEAR and VMPTRLD. -/
def readPtrOperand (m : ModRm) : Exec (Option U64) := do
  if m.isReg then
    modify (·.raiseUd)
    pure none
  else
    let a ← rmAddr m false
    let s ← get
    if s.pendingException.isSome then pure none else pure (some (s.mem.readU64 a))

/-- Read the pointer operand and hand it on, unless reading it faulted. -/
def withPtrOperand (m : ModRm) (f : U64 → Cpu → Cpu) : Exec Unit := do
  match ← readPtrOperand m with
  | some p => modify (f p)
  | none => pure ()

def vmxon (m : ModRm) : Exec Unit := do
  let s ← get
  if !test s.cr4 cr4Vmxe then modify (·.raiseUd)
  else if s.vmx.on then modify (·.vmFailValid VmError.vmxonInRoot)
  else if !s.vmxonAllowed then modify (·.raiseGp 0)
  else withPtrOperand m fun p s => s.enterRoot p

def vmptrst (m : ModRm) : Exec Unit := do
  if m.isReg then modify (·.raiseUd)
  else
    let a ← rmAddr m true
    let s ← get
    if s.pendingException.isSome then pure ()
    else
      let p := s.vmx.current.getD 0xFFFFFFFFFFFFFFFF
      set (s.modifyMem (·.writeU64 a p)).vmSucceed

/-- The operand width of VMREAD and VMWRITE. -/
def vmWidth (s : Cpu) : Width := if s.long64 then .w64 else .w32

def vmread (m : ModRm) (reg : U8) : Exec Unit := do
  let s ← get
  let enc := u32 (s.regW reg .w64)
  if s.vmx.current.isNone then modify (·.vmFailInvalid)
  else if (Vmx.slot enc).isNone then modify (·.vmFailValid VmError.vmreadWriteBadField)
  else
    writeRmW m (vmWidth s) (s.vmRead enc)
    if (← get).pendingException.isSome then pure () else modify (·.vmSucceed)

def vmwrite (m : ModRm) (reg : U8) : Exec Unit := do
  let s ← get
  let enc := u32 (s.regW reg .w64)
  if s.vmx.current.isNone then modify (·.vmFailInvalid)
  else if (Vmx.slot enc).isNone then modify (·.vmFailValid VmError.vmreadWriteBadField)
  else if Vmx.isReadOnly enc then modify (·.vmFailValid VmError.vmwriteReadOnly)
  else
    let val ← readRmW m (vmWidth s)
    if (← get).pendingException.isSome then pure ()
    else modify fun s => (s.vmWrite enc val).vmSucceed

def vmlaunch (resume : Bool) : Exec Unit := do
  let s ← get
  if s.vmx.current.isNone then modify (·.vmFailInvalid)
  else if !resume && s.vmx.launched then modify (·.vmFailValid VmError.vmlaunchNotClear)
  else if resume && !s.vmx.launched then modify (·.vmFailValid VmError.vmresumeNotLaunched)
  else
    match s.checkControls with
    | .error e => modify (·.vmFailValid e)
    | .ok () => vmEntry

/-- INVEPT and INVVPID type-check their operand; every entry and exit flushes already. -/
def vmInvalidate (invept : Bool) (m : ModRm) (reg : U8) : Exec Unit := do
  let s ← get
  if m.isReg then modify (·.raiseUd)
  else if invept || s.regW reg .w64 > 3 then modify (·.vmFailValid VmError.invalidOperand)
  else modify (·.flushTlb.vmSucceed)

/-- Execute a VMX instruction in root operation. -/
def executeVmx (v : VmxInst) : Exec Unit := do
  let s ← get
  if v.op ≠ .vmxon ∧ !s.vmx.on then modify (·.raiseUd)
  else if s.cpl ≠ 0 then modify (·.raiseGp 0)
  else
    match v.op with
    | .vmxon => vmxon v.m
    | .vmxoff => modify (·.leaveRoot)
    | .vmclear => withPtrOperand v.m fun p s => s.clearVmcs p
    | .vmptrld => withPtrOperand v.m fun p s => s.pointTo p
    | .vmptrst => vmptrst v.m
    | .vmread => vmread v.m v.reg
    | .vmwrite => vmwrite v.m v.reg
    | .vmlaunch => vmlaunch false
    | .vmresume => vmlaunch true
    | .vmcall => modify (·.vmFailValid VmError.vmcallInRoot)
    | .invept => vmInvalidate true v.m v.reg
    | .invvpid => vmInvalidate false v.m v.reg

end X86Emu
