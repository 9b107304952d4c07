import X86Emu.Arith
import X86Emu.Port

/-!
# System instructions

Descriptor tables, control and debug registers, MSRs, SYSCALL, CPUID and port I/O.
-/
namespace X86Emu

/-! ## Descriptor tables -/

/-- The table base in a pseudo-descriptor: eight bytes in long mode, four otherwise. -/
def tableBase (s : Cpu) (addr : U64) : U64 :=
  if s.longMode then s.mem.readU64 (addr + 2) else u64 (s.mem.readU32 (addr + 2))

def lgdt (m : ModRm) : Exec Unit := do
  let addr ← rmAddr m false
  modify fun s => { s with gdtBase := tableBase s addr, gdtLimit := s.mem.readU16 addr }

def lidt (m : ModRm) : Exec Unit := do
  let addr ← rmAddr m false
  modify fun s => { s with idtBase := tableBase s addr, idtLimit := s.mem.readU16 addr }

/-- Store a descriptor-table register. -/
def storeTable (m : ModRm) (base : U64) (limit : U16) : Exec Unit := do
  let addr ← rmAddr m true
  let s ← get
  if s.pendingException.isSome then pure ()
  else
    set (s.modifyMem fun mem =>
      let mem := mem.writeU16 addr limit
      if s.longMode then mem.writeU64 (addr + 2) base else mem.writeU32 (addr + 2) (u32 base))

def sgdt (m : ModRm) : Exec Unit := do
  let s ← get
  storeTable m s.gdtBase s.gdtLimit

def sidt (m : ModRm) : Exec Unit := do
  let s ← get
  storeTable m s.idtBase s.idtLimit

def lldt (m : ModRm) : Exec Unit := do
  let sel ← readRm16 m
  modify (·.loadLdt sel)

def ltr (m : ModRm) : Exec Unit := do
  let sel ← readRm16 m
  modify (·.loadTr sel)

def sldt (m : ModRm) : Exec Unit := do writeRm16 m (← get).ldtSelector

def str (m : ModRm) : Exec Unit := do writeRm16 m (← get).trSelector

def movRmSeg (m : ModRm) (seg : SegReg) : Exec Unit := do writeRm16 m ((← get).seg seg)

def movSegRm (seg : SegReg) (m : ModRm) : Exec Unit := do
  let v ← readRm16 m
  modify (·.loadSeg seg v)

/-! ## Control and debug registers -/

/-- The width of a control- or debug-register move. -/
def crWidth (s : Cpu) : Width := if s.longMode then .w64 else .w32

/-- SMSW: a register gets CR0 at the operand size, memory its low word. -/
def smsw (m : ModRm) : Exec Unit := do
  let s ← get
  if m.isReg then
    writeRmW m s.osize (if s.osize = .w16 then u64 s.cr0 &&& 0xFFFF else u64 s.cr0)
  else writeRm16 m (u16 s.cr0)

/-- What LMSW writes to CR0: the low four bits, of which PE can only be set. -/
def lmswValue (cr0 : U32) (v : U16) : U32 :=
  cr0 &&& ~~~0xE ||| u32 v &&& 0xE ||| cr0 &&& 1 ||| u32 v &&& 1

def lmsw (m : ModRm) : Exec Unit := do
  if (← get).cpl ≠ 0 then modify (·.raiseGp 0)
  else
    let v ← readRm16 m
    let s ← get
    if s.pendingException.isSome then pure () else set (s.writeCr0 (lmswValue s.cr0 v))

def clts : Exec Unit := modify fun s => { s with cr0 := s.cr0 &&& ~~~0x8 }

def movCr (cr reg : U8) : Exec Unit :=
  modify fun s =>
    let v : U64 :=
      if cr = 0 then u64 s.cr0
      else if cr = 2 then s.cr2
      else if cr = 3 then s.cr3
      else if cr = 4 then u64 s.cr4
      else s.cr8
    s.setRegW reg (crWidth s) v

def movToCr (cr reg : U8) : Exec Unit :=
  modify fun s =>
    let v := s.regW reg (crWidth s)
    if cr = 0 then s.writeCr0 (u32 v)
    else if cr = 2 then { s with cr2 := v }
    else if cr = 3 then { s with cr3 := v }.flushTlb
    else if cr = 4 then { s with cr4 := u32 v }.flushTlb
    else { s with cr8 := v &&& 0xF }

def movDr (dr : Fin 8) (reg : U8) : Exec Unit :=
  modify fun s => s.setRegW reg (crWidth s) (s.dr dr)

def movToDr (dr : Fin 8) (reg : U8) : Exec Unit :=
  modify fun s => { s with dr := fun i => if i = dr then s.regW reg (crWidth s) else s.dr i }

def xgetbv : Exec Unit :=
  modify fun s =>
    if !test s.cr4 cr4Osxsave then s.raiseUd
    else if s.reg32 .ecx ≠ 0 then s.raiseGp 0
    else (s.setReg32 .eax (u32 s.xcr0)).setReg32 .edx (u32 (s.xcr0 >>> 32))

/-- A doubleword pair, high half first. -/
def edxEax (s : Cpu) : U64 := s.reg32 .edx ++ s.reg32 .eax

def xsetbv : Exec Unit :=
  modify fun s =>
    if !test s.cr4 cr4Osxsave then s.raiseUd
    else if s.cpl ≠ 0 ∨ s.reg32 .ecx ≠ 0 then s.raiseGp 0
    else if edxEax s &&& 1 = 0 ∨ edxEax s &&& ~~~0x3 ≠ 0 then s.raiseGp 0
    else { s with xcr0 := edxEax s }

/-- CLAC and STAC: #UD outside ring 0. -/
def setAc (on : Bool) : Exec Unit :=
  modify fun s => if s.cpl ≠ 0 then s.raiseUd else s.modifyFlags (setFlag Flags.ac on)

def invlpg (m : ModRm) : Exec Unit := modify fun s => s.invlpg (s.modrmLinear m)

/-! ## MSRs, the time-stamp counter and CPUID -/

/-- Split a value over EDX:EAX. -/
def setEdxEax (s : Cpu) (v : U64) : Cpu := (s.setReg32 .eax (u32 v)).setReg32 .edx (u32 (v >>> 32))

def rdtsc : Exec Unit := modify fun s => setEdxEax s s.tsc

def rdtscp : Exec Unit := modify fun s => (setEdxEax s s.tsc).setReg32 .ecx 0

def rdmsr : Exec Unit := modify fun s => setEdxEax s (s.readMsr (s.reg32 .ecx))

def wrmsr : Exec Unit := modify fun s => s.writeMsr (s.reg32 .ecx) (edxEax s)

/-- EAX, EBX, ECX and EDX of a leaf. -/
def cpuidLeaf (leaf : U32) : U32 × U32 × U32 × U32 :=
  if leaf = 0 then (1, 0x756E6547, 0x6C65746E, 0x49656E69)
  else if leaf = 1 then (0x00000600, 0x00010800, 0x00000021, 0x0788A179)
  else if leaf = 0x80000000 then (0x80000008, 0, 0, 0)
  else if leaf = 0x80000001 then (0, 0, 0x00000021, 0x2490A97B)
  else if leaf = 0x80000008 then (0x00003034, 0, 0, 0)
  else (0, 0, 0, 0)

def cpuid : Exec Unit :=
  modify fun s =>
    let r := cpuidLeaf (s.reg32 .eax)
    (((s.setReg32 .eax r.1).setReg32 .ebx r.2.1).setReg32 .ecx r.2.2.1).setReg32 .edx r.2.2.2

/-! ## SYSCALL and SYSRET -/

namespace Cpu

/-- An undefined opcode recorded directly, over whatever is pending. -/
def undefinedOpcode (s : Cpu) : Cpu := s.setPending 0x06 none

/-- Enter the kernel through STAR and LSTAR; the stack stays. -/
def enterKernel (s : Cpu) : Cpu :=
  let sel := u16 (s.star >>> 32) &&& 0xFFFC
  let s := (s.setRegWRaw 1 .w64 s.rip).setRegWRaw 11 .w64 (u64 s.flags)
  let s := s.modifyFlags fun fl => fl &&& ~~~u32 s.sfmask ||| Flags.alwaysSet
  let s := (s.loadSeg .cs sel).loadSeg .ss (sel + 8)
  { s with rip := s.lstar }.invalidatePhysIp

/-- Return to user mode: the 64-bit form under REX.W. -/
def leaveKernel (s : Cpu) : Cpu :=
  let sel := u16 (s.star >>> 48)
  let cs := (if s.rexW then sel + 16 else sel) ||| 3
  let s := { s with rip := s.reg64 1 }.modifyFlags fun fl => writeFlags fl (u32 (s.reg64 11))
  ((s.loadSeg .cs cs).loadSeg .ss ((sel + 8) ||| 3)).invalidatePhysIp

end Cpu

def syscall : Exec Unit :=
  modify fun s => if !test s.efer Efer.sce then s.undefinedOpcode else s.enterKernel

def sysret : Exec Unit := modify Cpu.leaveKernel

def swapgs : Exec Unit :=
  modify fun s =>
    if !s.long64 then s.undefinedOpcode
    else { s with gsBase := s.kernelGsBase, kernelGsBase := s.gsBase }

/-! ## Port I/O -/

def inAl (port : U16) : Exec Unit := do
  let v ← portIn port
  modify (·.setReg8 .al v)

/-- A wide port access is 16 bits at a 16-bit operand size and 32 bits otherwise. -/
def wideIo (s : Cpu) : Bool := s.osize != .w16

def inAx (port : U16) : Exec Unit := do
  if wideIo (← get) then
    let v ← portIn32 port
    modify (·.setReg32 .eax v)
  else
    let v ← portIn16 port
    modify (·.setReg16 .ax v)

def outAl (port : U16) : Exec Unit := do portOut port ((← get).reg8 .al)

def outAx (port : U16) : Exec Unit := do
  let s ← get
  if wideIo s then portOut32 port s.eax else portOut16 port (s.reg16 .ax)

end X86Emu
