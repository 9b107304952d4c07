import X86Emu.Operand

/-!
# Leaving the guest

Segment state in VMCS form, the guest- and host-state areas, the VM exit, and the hooks `step` runs
in a guest: what exits, what is virtualised and what executes as usual.
-/
namespace X86Emu

namespace Reason
def exceptionNmi : U32 := 0
def externalInterrupt : U32 := 1
def tripleFault : U32 := 2
def interruptWindow : U32 := 7
def cpuid : U32 := 10
def hlt : U32 := 12
def invd : U32 := 13
def invlpg : U32 := 14
def rdtsc : U32 := 16
def vmcall : U32 := 18
def vmclear : U32 := 19
def vmlaunch : U32 := 20
def vmptrld : U32 := 21
def vmptrst : U32 := 22
def vmread : U32 := 23
def vmresume : U32 := 24
def vmwrite : U32 := 25
def vmxoff : U32 := 26
def vmxon : U32 := 27
def crAccess : U32 := 28
def drAccess : U32 := 29
def ioInstruction : U32 := 30
def rdmsr : U32 := 31
def wrmsr : U32 := 32
def mwait : U32 := 36
def monitor : U32 := 39
def pause : U32 := 40
def invept : U32 := 50
def rdtscp : U32 := 51
def invvpid : U32 := 53
def wbinvd : U32 := 54
def xsetbv : U32 := 55
end Reason

/-! ## Segment state in VMCS form -/

/-- Pack a cached descriptor into access-rights form. -/
def arOf (d : Descriptor) (usable : Bool) : U32 :=
  u32 d.attr ||| bit d.l <<< 13 ||| bit d.dB <<< 14 ||| bit d.g <<< 15 ||| bit (!usable) <<< 16

def descOf (base : U64) (limit ar : U32) : Descriptor where
  base := u32 base
  limit := limit
  attr := u8 (ar &&& 0xFF)
  g := test ar ((1 : U32) <<< 15)
  dB := test ar ((1 : U32) <<< 14)
  l := test ar ((1 : U32) <<< 13)

/-- The fields of one segment in the guest-state area. -/
structure SegFields where
  seg : SegReg
  sel : U32
  base : U32
  limit : U32
  ar : U32

def segs : List SegFields :=
  [⟨.es, Field.guestEsSel, Field.guestEsBase, Field.guestEsLimit, Field.guestEsAr⟩,
   ⟨.cs, Field.guestCsSel, Field.guestCsBase, Field.guestCsLimit, Field.guestCsAr⟩,
   ⟨.ss, Field.guestSsSel, Field.guestSsBase, Field.guestSsLimit, Field.guestSsAr⟩,
   ⟨.ds, Field.guestDsSel, Field.guestDsBase, Field.guestDsLimit, Field.guestDsAr⟩,
   ⟨.fs, Field.guestFsSel, Field.guestFsBase, Field.guestFsLimit, Field.guestFsAr⟩,
   ⟨.gs, Field.guestGsSel, Field.guestGsBase, Field.guestGsLimit, Field.guestGsAr⟩]

/-- Write a list of fields, in order. -/
def Vmx.writeAll (x : Vmx) (fields : List (U32 × U64)) : Vmx :=
  fields.foldl (fun x f => x.write f.1 f.2) x

namespace Cpu

def vmRead (s : Cpu) (enc : U32) : U64 := s.vmx.read enc

def vmWrite (s : Cpu) (enc : U32) (v : U64) : Cpu := { s with vmx := s.vmx.write enc v }

/-- The base saved for a segment: FS and GS take theirs from the MSRs in long mode. -/
def savedBase (s : Cpu) : SegReg → U64
  | .fs => if s.longMode then s.fsBase else u64 (s.segDesc .fs).base
  | .gs => if s.longMode then s.gsBase else u64 (s.segDesc .gs).base
  | r => u64 (s.segDesc r).base

/-- A null selector outside CS, SS and TR is an unusable segment. -/
def usable (s : Cpu) (r : SegReg) : Bool :=
  r == .cs || r == .ss || s.seg r &&& ~~~3 != 0 || (s.segDesc r).present

def savedSegment (s : Cpu) (f : SegFields) : List (U32 × U64) :=
  [(f.sel, u64 (s.seg f.seg)),
   (f.base, s.savedBase f.seg),
   (f.limit, u64 (s.segDesc f.seg).limit),
   (f.ar, u64 (arOf (s.segDesc f.seg) (s.usable f.seg)))]

/-- What `save_guest_state` writes, in its order. -/
def savedGuestState (s : Cpu) : List (U32 × U64) :=
  [(Field.guestCr0, u64 s.cr0),
   (Field.guestCr3, s.cr3),
   (Field.guestCr4, u64 s.cr4),
   (Field.guestRip, s.rip),
   (Field.guestRsp, s.regs 4),
   (Field.guestRflags, u64 s.flags),
   (Field.guestDr7, s.dr 7),
   (Field.guestEfer, s.efer),
   (Field.guestSysenterCs, u64 s.sysenterCs),
   (Field.guestSysenterEsp, u64 s.sysenterEsp),
   (Field.guestSysenterEip, u64 s.sysenterEip),
   (Field.guestGdtrBase, s.gdtBase),
   (Field.guestGdtrLimit, u64 s.gdtLimit),
   (Field.guestIdtrBase, s.idtBase),
   (Field.guestIdtrLimit, u64 s.idtLimit),
   (Field.guestLdtrSel, u64 s.ldtSelector),
   (Field.guestLdtrBase, s.ldtBase),
   (Field.guestLdtrLimit, u64 s.ldtLimit),
   (Field.guestLdtrAr, if s.ldtSelector &&& ~~~3 = 0 then (1 : U64) <<< 16 else 0x82),
   (Field.guestTrSel, u64 s.trSelector),
   (Field.guestTrBase, s.trBase),
   (Field.guestTrLimit, u64 s.trLimit),
   (Field.guestTrAr, 0x8B),
   (Field.guestActivity, bit s.halted),
   (Field.guestInterruptibility, 0)] ++
  segs.flatMap s.savedSegment

/-- Load one segment of the guest-state area, from the VMCS `x`. -/
def loadSegment (x : Vmx) (s : Cpu) (f : SegFields) : Cpu :=
  let base := x.read f.base
  let s := s.setSeg f.seg (u16 (x.read f.sel))
  let s := s.setSegDesc f.seg (descOf base (u32 (x.read f.limit)) (u32 (x.read f.ar)))
  match f.seg with
  | .fs => { s with fsBase := base }
  | .gs => { s with gsBase := base }
  | _ => s

/-- The EFER a VM entry loads. -/
def entryEfer (s : Cpu) : U64 :=
  if test (u32 (s.vmRead Field.entryCtls)) Vmx.entryLoadEfer then s.vmRead Field.guestEfer
  else if test (u32 (s.vmRead Field.entryCtls)) Vmx.entryIa32eGuest then s.efer ||| Efer.lme
  else s.efer &&& ~~~(Efer.lme ||| Efer.lma)

/-- The control registers of an entry. EFER comes first, so that PG finds LME when it lands. -/
def loadGuestControl (s : Cpu) : Cpu :=
  let t := { s with
    efer := s.entryEfer &&& ~~~Efer.lma
    cr4 := u32 (s.vmRead Field.guestCr4 ||| Vmx.cr4Fixed0)
    cr3 := s.vmRead Field.guestCr3 }
  (t.writeCr0 (u32 (s.vmRead Field.guestCr0 ||| Vmx.cr0Fixed0))).flushTlb

/-- The other registers and tables of an entry, read with `r`. -/
def loadGuestRegisters (s : Cpu) (r : U32 → U64) : Cpu :=
  { s.setReg 4 (r Field.guestRsp) with
    rip := r Field.guestRip
    flags := u32 (r Field.guestRflags) &&& Flags.writable ||| Flags.alwaysSet
    dr := fun i => if i = 7 then r Field.guestDr7 else s.dr i
    sysenterCs := u32 (r Field.guestSysenterCs)
    sysenterEsp := u32 (r Field.guestSysenterEsp)
    sysenterEip := u32 (r Field.guestSysenterEip)
    gdtBase := r Field.guestGdtrBase
    gdtLimit := u16 (r Field.guestGdtrLimit)
    idtBase := r Field.guestIdtrBase
    idtLimit := u16 (r Field.guestIdtrLimit)
    ldtSelector := u16 (r Field.guestLdtrSel)
    ldtBase := r Field.guestLdtrBase
    ldtLimit := u32 (r Field.guestLdtrLimit)
    trSelector := u16 (r Field.guestTrSel)
    trBase := r Field.guestTrBase
    trLimit := u32 (r Field.guestTrLimit) }

/-- Load the guest-state area. -/
def loadGuestState (s : Cpu) : Cpu :=
  let t := segs.foldl (loadSegment s.vmx) (s.loadGuestControl.loadGuestRegisters s.vmRead)
  { t with halted := s.vmRead Field.guestActivity == 1 }.invalidatePhysIp

/-- The EFER a VM exit loads. -/
def exitEfer (s : Cpu) : U64 :=
  if test (u32 (s.vmRead Field.exitCtls)) Vmx.exitLoadEfer then s.vmRead Field.hostEfer
  else if test (u32 (s.vmRead Field.exitCtls)) Vmx.exitHostAddrSpaceSize then s.efer ||| Efer.lme
  else s.efer &&& ~~~(Efer.lme ||| Efer.lma)

def hostSegs : List (SegReg × U32) :=
  [(.cs, Field.hostCsSel), (.ss, Field.hostSsSel), (.ds, Field.hostDsSel), (.es, Field.hostEsSel),
   (.fs, Field.hostFsSel), (.gs, Field.hostGsSel)]

/-- The flat segments a VM exit gives the host. -/
def hostDesc (long : Bool) (r : SegReg) : Descriptor :=
  if r = .cs then
    { base := 0, limit := 0xFFFFFFFF, attr := 0x9B, g := true, dB := !long, l := long }
  else { base := 0, limit := 0xFFFFFFFF, attr := 0x93, g := true, dB := true, l := false }

/-- Load the host-state area. -/
def loadHostState (s : Cpu) : Cpu :=
  let r := s.vmx.read
  let long := test (u32 (r Field.exitCtls)) Vmx.exitHostAddrSpaceSize
  let s := { s with
    efer := s.exitEfer &&& ~~~Efer.lma
    cr4 := u32 (r Field.hostCr4)
    cr3 := r Field.hostCr3 }
  let s := (s.writeCr0 (u32 (r Field.hostCr0))).flushTlb
  let s := { s.setReg 4 (r Field.hostRsp) with
    rip := r Field.hostRip
    flags := Flags.alwaysSet
    dr := fun i => if i = 7 then 0x400 else s.dr i
    sysenterCs := u32 (r Field.hostSysenterCs)
    sysenterEsp := u32 (r Field.hostSysenterEsp)
    sysenterEip := u32 (r Field.hostSysenterEip)
    gdtBase := r Field.hostGdtrBase
    gdtLimit := 0xFFFF
    idtBase := r Field.hostIdtrBase
    idtLimit := 0xFFFF
    ldtSelector := 0
    ldtBase := 0
    ldtLimit := 0
    trSelector := u16 (r Field.hostTrSel)
    trBase := r Field.hostTrBase
    trLimit := 0x67 }
  let s := hostSegs.foldl
    (fun s f => (s.setSeg f.1 (u16 (r f.2))).setSegDesc f.1 (hostDesc long f.1)) s
  { s with
    fsBase := r Field.hostFsBase
    gsBase := r Field.hostGsBase
    halted := false
    pendingException := none }.invalidatePhysIp

/-! ## The VM exit -/

/-- Exits that happen between instructions, whose guest RIP is the next one. -/
def betweenInstructions (reason : U32) : Bool :=
  reason == Reason.externalInterrupt || reason == Reason.interruptWindow ||
    reason == Reason.tripleFault

/-- The guest RIP an exit records. -/
def exitRip (s : Cpu) (reason : U32) : U64 := if betweenInstructions reason then s.rip else s.ripStart

/-- The exit-information fields, written after the guest-state area. -/
def exitInformation (s : Cpu) (reason : U32) (qualification : U64) (intrInfo intrError : U32) :
    List (U32 × U64) :=
  [(Field.exitReason, u64 reason),
   (Field.exitQualification, qualification),
   (Field.exitInstrLen, if betweenInstructions reason then 0 else s.rip - s.ripStart),
   (Field.exitIntrInfo, u64 intrInfo),
   (Field.exitIntrError, u64 intrError),
   (Field.idtVectoringInfo, 0)] ++
  if reason = Reason.exceptionNmi ∧ intrInfo &&& 0xFF = 0x0E then
    [(Field.guestLinearAddress, s.cr2)]
  else []

/-- Everything an exit writes to the VMCS before the host's state is loaded. -/
def exitVmcs (s : Cpu) (reason : U32) (qualification : U64) (intrInfo intrError : U32) : Vmx :=
  let x := (s.vmx.writeAll { s with rip := s.exitRip reason }.savedGuestState).writeAll
    (s.exitInformation reason qualification intrInfo intrError)
  if test (u32 (x.read Field.exitCtls)) Vmx.exitSaveEfer then x.write Field.guestEfer s.efer else x

/-- Leave the guest: record the reason, save its state, load the host's. -/
def vmExit (s : Cpu) (reason : U32) (qualification : U64) (intrInfo intrError : U32) : Cpu :=
  { s with vmx := { s.exitVmcs reason qualification intrInfo intrError with inGuest := false }
    }.loadHostState

/-! ## The hooks -/

/-- The interrupt-window exit fires as soon as the guest can take an interrupt. -/
def preStep (s : Cpu) : Cpu :=
  if test (u32 (s.vmRead Field.cpuCtls)) Vmx.cpuIntWindowExiting && s.getFlag Flags.if' &&
      s.pendingException.isNone then
    s.vmExit Reason.interruptWindow 0 0 0
  else s

/-- An unmasked interrupt in the guest; true when it exited. -/
def interruptExit (s : Cpu) : Bool × Cpu :=
  if !test (u32 (s.vmRead Field.pinCtls)) Vmx.pinExtIntExiting then (false, s)
  else if test (u32 (s.vmRead Field.exitCtls)) Vmx.exitAckIntOnExit then
    let info := match s.pic.acknowledge.1 with
      | some v => (1 : U32) <<< 31 ||| u32 v
      | none => 0
    (true, { s with pic := s.pic.acknowledge.2 }.vmExit Reason.externalInterrupt 0 info 0)
  else (true, s.vmExit Reason.externalInterrupt 0 0 0)

/-- The interruption information of an exception: vector, type, error code valid, valid. -/
def exceptionInfo (vector : U8) (errorCode : Option U32) : U32 :=
  let ty : U32 := if vector = 3 ∨ vector = 4 then 6 else 3
  (1 : U32) <<< 31 ||| ty <<< 8 ||| u32 vector ||| bit errorCode.isSome <<< 11

/-- The exception bitmap selects this exception, a page fault through its error-code filter. -/
def exceptionIntercepted (s : Cpu) (vector : U8) (errorCode : Option U32) : Bool :=
  test (u32 (s.vmRead Field.exceptionBitmap)) ((1 : U32) <<< vector.toNat) &&
    (vector != 0x0E ||
      errorCode.getD 0 &&& u32 (s.vmRead Field.pfErrorMask) == u32 (s.vmRead Field.pfErrorMatch))

/-- An exception in the guest; true when it exited. -/
def exceptionExit (s : Cpu) (vector : U8) (errorCode : Option U32) : Bool × Cpu :=
  if !s.exceptionIntercepted vector errorCode then (false, s)
  else
    (true, { s with rip := s.ripStart }.vmExit Reason.exceptionNmi
      (if vector = 0x0E then s.cr2 else 0) (exceptionInfo vector errorCode) (errorCode.getD 0))

def tripleFaultExit (s : Cpu) : Cpu := s.vmExit Reason.tripleFault 0 0 0

/-- Exit qualification of a control-register access: register, access type (0 MOV to, 1 MOV from,
2 CLTS, 3 LMSW), operand register, LMSW operand type. -/
def crQual (cr : U8) (ty : U32) (reg : U8) (lmsw : U32) : U64 :=
  u64 cr ||| u64 ty <<< 4 ||| u64 reg <<< 8 ||| u64 lmsw <<< 16

/-- The guest/host mask and read shadow of CR0 or CR4. -/
def crMask (s : Cpu) (cr : U8) : U64 :=
  s.vmRead (if cr = 0 then Field.cr0GuestHostMask else Field.cr4GuestHostMask)

def crShadow (s : Cpu) (cr : U8) : U64 :=
  s.vmRead (if cr = 0 then Field.cr0ReadShadow else Field.cr4ReadShadow)

/-- The register itself. -/
def crReal (s : Cpu) (cr : U8) : U64 := if cr = 0 then u64 s.cr0 else u64 s.cr4

/-- CR3 is in the target list, whose values do not exit. -/
def cr3Target (s : Cpu) (v : U64) : Bool :=
  (List.range (min (s.vmRead Field.cr3TargetCount).toNat 4)).any fun i =>
    s.vmRead (Field.cr3Target0 + 2 * BitVec.ofNat 32 i) == v

/-- The port's bit in the I/O bitmaps: A covers 0-0x7FFF, B the rest. -/
def ioBitmapBit (s : Cpu) (port : U16) : Bool :=
  let (bm, p) :=
    if port < 0x8000 then (s.vmRead Field.ioBitmapA, port)
    else (s.vmRead Field.ioBitmapB, port - 0x8000)
  s.mem.readU8 (bm + u64 (p / 8)) >>> (p % 8).toNat &&& 1 == 1

/-- The MSR's bit in the MSR bitmap; an MSR outside both ranges always exits. -/
def msrBitmapHit (s : Cpu) (idx : U32) (write : Bool) : Bool :=
  let hit (base off : U32) : Bool :=
    let base : U64 := u64 base + if write then 2048 else 0
    s.mem.readU8 (s.vmRead Field.msrBitmap + base + u64 (off / 8)) >>> (off % 8).toNat &&& 1 == 1
  if idx < 0x2000 then hit 0 idx
  else if 0xC0000000 ≤ idx ∧ idx < 0xC0002000 then hit 1024 (idx - 0xC0000000)
  else true

end Cpu

/-- Exit with a reason and a qualification. -/
def exitWith (reason : U32) (qualification : U64) : Exec Bool := do
  modify (·.vmExit reason qualification 0 0)
  pure true

/-- MOV to CR0 or CR4: a host-owned bit written unlike its shadow exits, otherwise the guest-owned
bits are written and the others keep the CPU's value. -/
def crShadowedWrite (cr reg : U8) (v : U64) : Exec Bool := do
  let s ← get
  let mask := s.crMask cr
  if (v ^^^ s.crShadow cr) &&& mask ≠ 0 then exitWith Reason.crAccess (Cpu.crQual cr 0 reg 0)
  else
    let new := u32 (v &&& ~~~mask ||| s.crReal cr &&& mask)
    modify fun s => if cr = 0 then s.writeCr0 new else { s with cr4 := new }.flushTlb
    pure true

/-- MOV to CR in the guest. -/
def crWriteIntercept (cr reg : U8) (ctl : U32) : Exec Bool := do
  let s ← get
  let v := s.regW reg (if s.longMode then .w64 else .w32)
  if cr = 3 then
    if test ctl Vmx.cpuCr3LoadExiting then
      if s.cr3Target v then pure false else exitWith Reason.crAccess (Cpu.crQual 3 0 reg 0)
    else pure false
  else if cr = 8 then
    if test ctl Vmx.cpuCr8LoadExiting then exitWith Reason.crAccess (Cpu.crQual 8 0 reg 0)
    else pure false
  else if cr = 0 ∨ cr = 4 then crShadowedWrite cr reg v
  else pure false

/-- MOV from CR in the guest: the host-owned bits come from the read shadow. -/
def crReadIntercept (cr reg : U8) (ctl : U32) : Exec Bool := do
  if cr = 3 ∧ test ctl Vmx.cpuCr3StoreExiting then
    exitWith Reason.crAccess (Cpu.crQual 3 1 reg 0)
  else if cr = 8 ∧ test ctl Vmx.cpuCr8StoreExiting then
    exitWith Reason.crAccess (Cpu.crQual 8 1 reg 0)
  else if cr = 0 ∨ cr = 4 then
    let s ← get
    let v := s.crReal cr &&& ~~~s.crMask cr ||| s.crShadow cr &&& s.crMask cr
    set (s.setRegW reg (if s.longMode then .w64 else .w32) v)
    pure true
  else pure false

/-- Exit qualification of an I/O instruction: size less one, direction, operand encoding, port. -/
def Cpu.ioQual (size : U64) (input imm : Bool) (port : U16) : U64 :=
  (size - (1 : U64)) ||| (bit input : U64) <<< 3 ||| (bit imm : U64) <<< 6 ||| u64 port <<< 16

/-- I/O in the guest: unconditional exiting, or the port's bit in the bitmaps. -/
def ioIntercept (port : U16) (size : U64) (input imm : Bool) (ctl : U32) : Exec Bool := do
  let s ← get
  let exits :=
    if test ctl Vmx.cpuUncondIoExiting then true
    else if test ctl Vmx.cpuUseIoBitmaps then s.ioBitmapBit port
    else false
  if exits then
    exitWith Reason.ioInstruction (Cpu.ioQual size input imm port)
  else pure false

/-- The size of an accumulator port access. -/
def ioSize (s : Cpu) : U64 := if s.osize = .w16 then 2 else 4

/-- CLTS in the guest. -/
def cltsIntercept : Exec Bool := do
  let s ← get
  if test (s.crMask 0) 0x8 && test (s.crShadow 0) 0x8 then
    exitWith Reason.crAccess (Cpu.crQual 0 2 0 0)
  else pure false

/-- LMSW in the guest: it touches PE, MP, EM and TS, and PE can only be set. -/
def lmswIntercept (m : ModRm) : Exec Bool := do
  let mask := (← get).crMask 0
  let shadow := (← get).crShadow 0
  let v := u64 (← readRm16 m)
  let s ← get
  if s.pendingException.isSome then pure true
  else
    let new := v &&& 0xF ||| u64 s.cr0 &&& 1
    if (new ^^^ shadow) &&& mask &&& 0xF ≠ 0 then
      exitWith Reason.crAccess
        (Cpu.crQual 0 3 0 (if m.isReg then 0 else 1) ||| (v &&& 0xFFFF) <<< 16)
    else pure false

/-- The exit reason of a VMX instruction executed in the guest. -/
def VmxOp.reason : VmxOp → U32
  | .vmcall => Reason.vmcall
  | .vmclear => Reason.vmclear
  | .vmlaunch => Reason.vmlaunch
  | .vmptrld => Reason.vmptrld
  | .vmptrst => Reason.vmptrst
  | .vmread => Reason.vmread
  | .vmresume => Reason.vmresume
  | .vmwrite => Reason.vmwrite
  | .vmxoff => Reason.vmxoff
  | .vmxon => Reason.vmxon
  | .invept => Reason.invept
  | .invvpid => Reason.invvpid

/-- Called before an instruction of the guest executes. True when it was handled here: it exited,
or executed with virtualised semantics. -/
def intercept (inst : Inst) : Exec Bool := do
  let s ← get
  let ctl := u32 (s.vmRead Field.cpuCtls)
  let ctl2 := if test ctl Vmx.cpuSecondaryControls then u32 (s.vmRead Field.cpuCtls2) else 0
  let exitIf (c : Bool) (reason : U32) : Exec Bool := if c then exitWith reason 0 else pure false
  match inst with
  | .cpuid => exitWith Reason.cpuid 0
  | .vmx v => exitWith v.op.reason 0
  | .xsetbv => exitWith Reason.xsetbv 0
  | .hlt => exitIf (test ctl Vmx.cpuHltExiting) Reason.hlt
  | .invlpg m =>
    if test ctl Vmx.cpuInvlpgExiting then exitWith Reason.invlpg (s.modrmLinear m) else pure false
  | .rdtsc => exitIf (test ctl Vmx.cpuRdtscExiting) Reason.rdtsc
  | .rdtscp =>
    if test ctl Vmx.cpuRdtscExiting then exitWith Reason.rdtscp 0
    else if !test ctl2 Vmx.cpu2Rdtscp then do
      modify (·.raiseUd)
      pure true
    else pure false
  | .rdmsr =>
    exitIf (!test ctl Vmx.cpuUseMsrBitmaps || s.msrBitmapHit (u32 (s.regs 1)) false) Reason.rdmsr
  | .wrmsr =>
    exitIf (!test ctl Vmx.cpuUseMsrBitmaps || s.msrBitmapHit (u32 (s.regs 1)) true) Reason.wrmsr
  | .movToCr cr reg => crWriteIntercept cr reg ctl
  | .movCr cr reg => crReadIntercept cr reg ctl
  | .clts => cltsIntercept
  | .lmsw m => lmswIntercept m
  | .movDr dr reg =>
    if test ctl Vmx.cpuMovDrExiting then
      exitWith Reason.drAccess (BitVec.ofNat 64 dr ||| (1 : U64) <<< 4 ||| u64 reg <<< 8)
    else pure false
  | .movToDr dr reg =>
    if test ctl Vmx.cpuMovDrExiting then
      exitWith Reason.drAccess (BitVec.ofNat 64 dr ||| u64 reg <<< 8)
    else pure false
  | .inAlImm port => ioIntercept (u16 port) 1 true true ctl
  | .inAxImm port => ioIntercept (u16 port) (ioSize s) true true ctl
  | .outImmAl port => ioIntercept (u16 port) 1 false true ctl
  | .outImmAx port => ioIntercept (u16 port) (ioSize s) false true ctl
  | .inAlDx => ioIntercept s.dx 1 true false ctl
  | .inAxDx => ioIntercept s.dx (ioSize s) true false ctl
  | .outDxAl => ioIntercept s.dx 1 false false ctl
  | .outDxAx => ioIntercept s.dx (ioSize s) false false ctl
  | .invd => exitWith Reason.invd 0
  | .wbinvd => exitIf (test ctl2 Vmx.cpu2WbinvdExiting) Reason.wbinvd
  | .mwait => exitIf (test ctl Vmx.cpuMwaitExiting) Reason.mwait
  | .monitor => exitIf (test ctl Vmx.cpuMonitorExiting) Reason.monitor
  | .pause => exitIf (test ctl Vmx.cpuPauseExiting) Reason.pause
  | _ => pure false

end X86Emu
