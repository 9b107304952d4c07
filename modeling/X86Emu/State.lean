import X86Emu.Paging
import X86Emu.Inst
import X86Emu.Lib.StateRules
import X86Emu.Devices.Pic
import X86Emu.Devices.Timers
import X86Emu.Devices.Keyboard
import X86Emu.Devices.Display
import X86Emu.Devices.Storage

/-!
# The CPU state

Every architectural field of `Cpu`, with the devices it owns, and the register file. Instructions
are programs over this state. Tracing and statistics, which no instruction reads, are left out.
-/
namespace X86Emu

namespace Flags
def cf : U32 := 0x00000001
def pf : U32 := 0x00000004
def af : U32 := 0x00000010
def zf : U32 := 0x00000040
def sf : U32 := 0x00000080
def tf : U32 := 0x00000100
def if' : U32 := 0x00000200
def df : U32 := 0x00000400
def of : U32 := 0x00000800
def rf : U32 := 0x00010000
def vm : U32 := 0x00020000
def ac : U32 := 0x00040000
/-- Bits software may write through POPF and IRET. -/
def writable : U32 := 0x003F7FD5
def alwaysSet : U32 := 0x00000002
end Flags

namespace Efer
def sce : U64 := 1
def lme : U64 := (1 : U64) <<< 8
def lma : U64 := (1 : U64) <<< 10
def nxe : U64 := (1 : U64) <<< 11
end Efer

def cr0Pe : U32 := 1
def cr0Wp : U32 := (1 : U32) <<< 16
def cr0Pg : U32 := (1 : U32) <<< 31
def cr4Pae : U32 := (1 : U32) <<< 5
def cr4Osfxsr : U32 := (1 : U32) <<< 9
def cr4Vmxe : U32 := (1 : U32) <<< 13
def cr4Osxsave : U32 := (1 : U32) <<< 18

/-- A cached 4 KiB translation. -/
structure TlbEntry where
  valid : Bool := false
  vpage : U64 := 0xFFFFFFFFFFFFFFFF
  ppage : U64 := 0
  writable : Bool := false
  user : Bool := false
  exec : Bool := true
  /-- The dirty bit has been set in the page tables for this entry. -/
  dirtied : Bool := false
  deriving DecidableEq, Repr

/-- VT-x state: VMXON, the current VMCS and its working copy, and whether a guest runs. -/
structure Vmx where
  featureControl : U64 := 0
  on : Bool := false
  vmxonPtr : U64 := 0
  current : Option U64 := none
  vmcs : Nat → U64 := fun _ => 0
  inGuest : Bool := false
  hostLong : Bool := false

/-- The x87 unit; data registers hold the bit patterns of 64-bit floats. -/
structure Fpu where
  control : U16 := 0x037F
  status : U16 := 0
  tag : U16 := 0xFFFF
  st : Fin 8 → U64 := fun _ => 0
  top : Fin 8 := 0

structure Bios where
  keyBuffer : List (U8 × U8) := []
  deriving DecidableEq, Repr

/-- A pending exception: vector and, when it has one, error code. -/
abbrev Pending := Option (U8 × Option U32)

/-- A fault as it was recorded: vector, error code, and CR2 from then on. -/
structure Fault where
  vector : U8
  code : Option U32
  cr2 : U64
  deriving DecidableEq, Repr

structure Cpu where
  regs : Fin 16 → U64
  es : U16
  cs : U16
  ss : U16
  ds : U16
  fs : U16
  gs : U16
  ip : U16
  rip : U64
  flags : U32
  mem : Memory
  bios : Bios
  instructionsExecuted : U64
  tsc : U64
  halted : Bool
  tripleFault : Bool
  opsize : Bool
  addrsize : Bool
  addr64 : Bool
  segOverride : Option SegReg
  rexPresent : Bool
  rexW : Bool
  rexR : Bool
  rexX : Bool
  rexB : Bool
  ssePfx : Option U8
  pe : Bool
  gdtBase : U64
  gdtLimit : U16
  idtBase : U64
  idtLimit : U16
  trSelector : U16
  trBase : U64
  trLimit : U32
  ldtSelector : U16
  ldtBase : U64
  ldtLimit : U32
  segDesc : SegReg → Descriptor
  cr0 : U32
  cr2 : U64
  cr3 : U64
  cr4 : U32
  cr8 : U64
  efer : U64
  star : U64
  lstar : U64
  cstar : U64
  sfmask : U64
  fsBase : U64
  gsBase : U64
  kernelGsBase : U64
  sysenterCs : U32
  sysenterEsp : U32
  sysenterEip : U32
  dr : Fin 8 → U64
  tlb : Fin 256 → TlbEntry
  pit : Pit
  pic : Pic
  pendingException : Pending
  vga : Vga
  kbd : Kbd
  keyScript : List U8
  keyNext : U64
  dma : Dma
  cmos : Cmos
  ide : Ide
  pci : Pci
  virtio : VirtioBlk
  fpu : Fpu
  xmm : Fin 16 → U128
  mxcsr : U32
  xcr0 : U64
  vmx : Vmx
  physIpCache : U64
  physIpLinear : U64
  ripMask : U64
  physIpValid : Bool
  ripStart : U64
  ipStart : U16
  pitSubsecond : U64
  vgaRetrace : Bool
  noTlb : Bool
  /-- Specification only: the faults the raising functions recorded, oldest first. -/
  faultLog : List Fault
  /-- Specification only: the host program has aborted on a division overflow. -/
  panicked : Bool

/-- An instruction or a part of one: a program over the CPU state. -/
abbrev Exec := StateM Cpu

namespace Cpu

/-- A machine with `bytes` of RAM. The clock starts at `epochSecs`. -/
def withRam (bytes : Nat) (h : bytes ≤ 2 ^ 56) (epochSecs : U64) : Cpu where
  regs _ := 0
  es := 0
  cs := 0
  ss := 0
  ds := 0
  fs := 0
  gs := 0
  ip := 0
  rip := 0
  flags := 0x0002
  mem := Memory.withSize bytes h
  bios := {}
  instructionsExecuted := 0
  tsc := 0
  halted := false
  tripleFault := false
  opsize := false
  addrsize := false
  addr64 := false
  segOverride := none
  rexPresent := false
  rexW := false
  rexR := false
  rexX := false
  rexB := false
  ssePfx := none
  pe := false
  gdtBase := 0
  gdtLimit := 0
  idtBase := 0
  idtLimit := 0
  trSelector := 0
  trBase := 0
  trLimit := 0
  ldtSelector := 0
  ldtBase := 0
  ldtLimit := 0
  segDesc _ := Descriptor.default
  cr0 := 0
  cr2 := 0
  cr3 := 0
  cr4 := 0
  cr8 := 0
  efer := 0
  star := 0
  lstar := 0
  cstar := 0
  sfmask := 0
  fsBase := 0
  gsBase := 0
  kernelGsBase := 0
  sysenterCs := 0
  sysenterEsp := 0
  sysenterEip := 0
  dr _ := 0
  tlb _ := {}
  pit := {}
  pic := {}
  pendingException := none
  vga := {}
  kbd := {}
  keyScript := []
  keyNext := 0
  dma := {}
  cmos := Cmos.new epochSecs
  ide := {}
  pci := Pci.new
  virtio := {}
  fpu := {}
  xmm _ := 0
  mxcsr := 0x1F80
  xcr0 := 1
  vmx := {}
  physIpCache := 0
  physIpLinear := 0
  ripMask := 0xFFFFFFFF
  physIpValid := false
  ripStart := 0
  ipStart := 0
  pitSubsecond := 0
  vgaRetrace := false
  noTlb := false
  faultLog := []
  panicked := false

/-! ## The register file -/

/-- The register a 4-bit index names. -/
def regIdx (i : U8) : Fin 16 := Fin.ofNat 16 i.toNat

def reg64 (s : Cpu) (i : U8) : U64 := s.regs (regIdx i)

/-- A register read at a width, zero-extended. -/
def regW (s : Cpu) (i : U8) (w : Width) : U64 := s.reg64 i &&& w.mask

/-- What a write of `v` at width `w` leaves in a register holding `old`: a 32-bit write
zero-extends, narrower ones keep the bits above them. -/
def mergeW (old : U64) (w : Width) (v : U64) : U64 :=
  match w with
  | .w64 => v
  | .w32 => v &&& 0xFFFFFFFF
  | .w16 => old &&& ~~~(0xFFFF : U64) ||| v &&& 0xFFFF
  | .w8 => old &&& ~~~(0xFF : U64) ||| v &&& 0xFF

def setReg (s : Cpu) (i : Fin 16) (v : U64) : Cpu :=
  { s with regs := fun j => if j = i then v else s.regs j }

/-- Write a register at a width, whatever is pending. -/
def setRegWRaw (s : Cpu) (i : U8) (w : Width) (v : U64) : Cpu :=
  s.setReg (regIdx i) (mergeW (s.reg64 i) w v)

/-- Write a register as an instruction result: suppressed once the instruction has faulted. -/
def setRegW (s : Cpu) (i : U8) (w : Width) (v : U64) : Cpu :=
  if s.pendingException.isSome then s else s.setRegWRaw i w v

def ax (s : Cpu) : U16 := u16 (s.regs 0)
def cx (s : Cpu) : U16 := u16 (s.regs 1)
def dx (s : Cpu) : U16 := u16 (s.regs 2)
def bx (s : Cpu) : U16 := u16 (s.regs 3)
def sp (s : Cpu) : U16 := u16 (s.regs 4)
def bp (s : Cpu) : U16 := u16 (s.regs 5)
def si (s : Cpu) : U16 := u16 (s.regs 6)
def di (s : Cpu) : U16 := u16 (s.regs 7)

def setSp (s : Cpu) (v : U16) : Cpu := s.setRegWRaw 4 .w16 (u64 v)

def reg16Idx (s : Cpu) (i : U8) : U16 := u16 (s.reg64 i)
def setReg16Idx (s : Cpu) (i : U8) (v : U16) : Cpu := s.setRegW i .w16 (u64 v)
def reg16 (s : Cpu) (r : Reg16) : U16 := s.reg16Idx r.idx
def setReg16 (s : Cpu) (r : Reg16) (v : U16) : Cpu := s.setRegW r.idx .w16 (u64 v)

def reg32Idx (s : Cpu) (i : U8) : U32 := u32 (s.reg64 i)
def setReg32Idx (s : Cpu) (i : U8) (v : U32) : Cpu := s.setRegW i .w32 (u64 v)
def reg32 (s : Cpu) (r : Reg32) : U32 := s.reg32Idx r.idx
def setReg32 (s : Cpu) (r : Reg32) (v : U32) : Cpu := s.setRegW r.idx .w32 (u64 v)

def eax (s : Cpu) : U32 := u32 (s.regs 0)
def ecx (s : Cpu) : U32 := u32 (s.regs 1)
def edx (s : Cpu) : U32 := u32 (s.regs 2)
def ebx (s : Cpu) : U32 := u32 (s.regs 3)
def esp (s : Cpu) : U32 := u32 (s.regs 4)
def ebp (s : Cpu) : U32 := u32 (s.regs 5)
def esi (s : Cpu) : U32 := u32 (s.regs 6)
def edi (s : Cpu) : U32 := u32 (s.regs 7)
def rsp (s : Cpu) : U64 := s.regs 4
def eip (s : Cpu) : U32 := u32 s.rip

def setEax (s : Cpu) (v : U32) : Cpu := s.setReg 0 (u64 v)
def setEbx (s : Cpu) (v : U32) : Cpu := s.setReg 3 (u64 v)
def setEcx (s : Cpu) (v : U32) : Cpu := s.setReg 1 (u64 v)
def setEsp (s : Cpu) (v : U32) : Cpu := s.setReg 4 (u64 v)
def setRsp (s : Cpu) (v : U64) : Cpu := s.setReg 4 v
def setEip (s : Cpu) (v : U32) : Cpu := { s with rip := u64 v }

/-- True when a byte register index names the high byte of a legacy register. -/
def isHighByte (s : Cpu) (i : U8) : Bool := !s.rexPresent && (4 ≤ i && i < 8)

def reg8Idx (s : Cpu) (i : U8) : U8 :=
  if s.isHighByte i then u8 (s.reg64 (i - 4) >>> 8) else u8 (s.reg64 i)

def setHighByte (s : Cpu) (i : U8) (v : U8) : Cpu :=
  s.setReg (regIdx i) (s.reg64 i &&& ~~~(0xFF00 : U64) ||| u64 v <<< 8)

def setReg8Idx (s : Cpu) (i : U8) (v : U8) : Cpu :=
  if s.pendingException.isSome then s
  else if s.isHighByte i then s.setHighByte (i - 4) v
  else s.setRegWRaw i .w8 (u64 v)

/-- A legacy byte register by name, whatever prefixes are in play. -/
def reg8 (s : Cpu) (r : Reg8) : U8 :=
  if r.idx ≥ 4 then u8 (s.reg64 (r.idx - 4) >>> 8) else u8 (s.reg64 r.idx)

def setReg8 (s : Cpu) (r : Reg8) (v : U8) : Cpu :=
  if s.pendingException.isSome then s
  else if r.idx ≥ 4 then s.setHighByte (r.idx - 4) v
  else s.setRegWRaw r.idx .w8 (u64 v)

/-! ## Segments, flags and modes -/

def seg (s : Cpu) : SegReg → U16
  | .es => s.es
  | .cs => s.cs
  | .ss => s.ss
  | .ds => s.ds
  | .fs => s.fs
  | .gs => s.gs

def setSeg (s : Cpu) (r : SegReg) (v : U16) : Cpu :=
  match r with
  | .es => { s with es := v }
  | .cs => { s with cs := v }
  | .ss => { s with ss := v }
  | .ds => { s with ds := v }
  | .fs => { s with fs := v }
  | .gs => { s with gs := v }

def setSegDesc (s : Cpu) (r : SegReg) (d : Descriptor) : Cpu :=
  { s with segDesc := fun x => if x = r then d else s.segDesc x }

def getFlag (s : Cpu) (f : U32) : Bool := test s.flags f

def longMode (s : Cpu) : Bool := test s.efer Efer.lma

/-- The current code segment is a 64-bit one. -/
def long64 (s : Cpu) : Bool := s.longMode && (s.segDesc .cs).l

def osize (s : Cpu) : Width := if s.rexW then .w64 else if s.opsize then .w32 else .w16

def asize (s : Cpu) : Width := if s.addr64 then .w64 else if s.addrsize then .w32 else .w16

def stackWidth (s : Cpu) : Width := if s.long64 then .w64 else if s.opsize then .w32 else .w16

def pagingMode (s : Cpu) : PagingMode :=
  if !test s.cr0 cr0Pg then .off
  else if s.longMode then .long
  else if test s.cr4 cr4Pae then .pae
  else .legacy

def nxe (s : Cpu) : Bool := test s.efer Efer.nxe

/-- Current privilege level. -/
def cpl (s : Cpu) : U8 := if s.pe then u8 (s.cs &&& 3) else 0

def operandSeg (s : Cpu) (default : SegReg) : SegReg := s.segOverride.getD default

def invalidatePhysIp (s : Cpu) : Cpu := { s with physIpValid := false }

end Cpu

/-! ## Flag arithmetic -/

/-- Set or clear the bits of `f` in a flags word. -/
def setFlag (f : U32) (on : Bool) (fl : U32) : U32 := if on then fl ||| f else fl &&& ~~~f

/-- Merge a software-written value onto the flags: only the writable bits move. -/
def writeFlags (old new : U32) : U32 :=
  new &&& Flags.writable ||| Flags.alwaysSet |||
    old &&& ~~~Flags.writable &&& ~~~Flags.alwaysSet

def Cpu.modifyFlags (s : Cpu) (f : U32 → U32) : Cpu := { s with flags := f s.flags }

/-! ## Raising exceptions -/

namespace Cpu

/-- Write the pending exception directly, over whatever is recorded. -/
def setPending (s : Cpu) (vector : U8) (code : Option U32) : Cpu :=
  { s with pendingException := some (vector, code) }

/-- Record a fault unless the instruction has already faulted. -/
def raise (s : Cpu) (f : Fault) : Cpu :=
  if s.pendingException.isSome then s
  else
    { s with
      pendingException := some (f.vector, f.code)
      cr2 := f.cr2
      faultLog := s.faultLog ++ [f] }

def raiseGp (s : Cpu) (code : U32) : Cpu := s.raise ⟨0x0D, some code, s.cr2⟩

def raiseUd (s : Cpu) : Cpu := s.raise ⟨0x06, none, s.cr2⟩

/-- The error code of a page fault. -/
def pageFaultCode (s : Cpu) (present write user fetch : Bool) : U32 :=
  bit present ||| bit write <<< 1 ||| bit user <<< 2 ||| (if fetch && s.nxe then 0x10 else 0)

def raisePageFault (s : Cpu) (linear : U64) (present write user fetch : Bool) : Cpu :=
  s.raise ⟨0x0E, some (s.pageFaultCode present write user fetch), linear⟩

end Cpu
end X86Emu
