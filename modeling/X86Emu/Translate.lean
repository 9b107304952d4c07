import X86Emu.Vmcs

/-!
# Address translation

Segment loads, the TLB and page-walk path of every memory access, control-register side effects,
and the MSRs, as `cpu.rs` has them.
-/
namespace X86Emu

namespace Cpu

def modifyMem (s : Cpu) (f : Memory → Memory) : Cpu := { s with mem := f s.mem }

/-! ## Descriptor tables -/

/-- Translate without side effects: no TLB fill, no accessed bits, no fault. -/
def linearToPhysRo (s : Cpu) (linear : U64) : U64 :=
  if !test s.cr0 cr0Pg then linear
  else
    match translateMode s.mem s.cr3 linear s.pagingMode s.nxe with
    | some map => map.phys
    | none => unbacked

/-- Resolve a selector to its descriptor in the GDT or the LDT. -/
def descriptorFor (s : Cpu) (selector : U16) : Descriptor :=
  let idx := (selector >>> 3) &&& 0x1FFF
  let base := if test selector 4 then s.ldtBase else s.gdtBase
  readDescriptor s.mem (s.linearToPhysRo (base + u64 idx * 8))

/-- Load a segment register: in protected mode its descriptor is cached. -/
def loadSeg (s : Cpu) (r : SegReg) (selector : U16) : Cpu :=
  let s := if s.pe then s.setSegDesc r (s.descriptorFor selector) else s
  let s := s.setSeg r selector
  if r = .cs then s.invalidatePhysIp else s

/-- Load the task register; a long-mode descriptor carries the base's top half. -/
def loadTr (s : Cpu) (selector : U16) : Cpu :=
  let d := s.descriptorFor selector
  let s := { s with trSelector := selector, trBase := u64 d.base, trLimit := d.limit }
  if s.longMode then
    let idx := (selector >>> 3) &&& 0x1FFF
    let hi := s.mem.readU64 (s.linearToPhysRo (s.gdtBase + (u64 idx * 8 + 8)))
    { s with trBase := s.trBase ||| (hi &&& 0xFFFFFFFF) <<< 32 }
  else s

/-- Load the local descriptor table register. A null selector clears it. -/
def loadLdt (s : Cpu) (selector : U16) : Cpu :=
  let s := { s with ldtSelector := selector }
  if selector &&& 0xFFF8 = 0 then { s with ldtBase := 0, ldtLimit := 0 }
  else
    let idx := (selector >>> 3) &&& 0x1FFF
    let d := readDescriptor s.mem (s.linearToPhysRo (s.gdtBase + u64 idx * 8))
    { s with ldtBase := u64 d.base, ldtLimit := d.limit }

/-- The ring-0 stack of a 32-bit TSS: SS0 and ESP0. -/
def tssStack0 (s : Cpu) : U16 × U32 :=
  (s.mem.readU16 (s.linearToPhysRo (s.trBase + 8)), s.mem.readU32 (s.linearToPhysRo (s.trBase + 4)))

/-- The ring-0 stack pointer of a 64-bit TSS. -/
def tssRsp0 (s : Cpu) : U64 := s.mem.readU64 (s.linearToPhysRo (s.trBase + 4))

/-- An interrupt-stack-table pointer of a 64-bit TSS. -/
def tssIst (s : Cpu) (ist : U8) : U64 :=
  s.mem.readU64 (s.linearToPhysRo (s.trBase + (0x24 + (u64 ist - 1) * 8)))

/-! ## The TLB and the control registers -/

def setTlb (s : Cpu) (i : Fin 256) (e : TlbEntry) : Cpu :=
  { s with tlb := fun j => if j = i then e else s.tlb j }

def tlbIndex (linear : U64) : Fin 256 := Fin.ofNat 256 (linear >>> 12).toNat

def flushTlb (s : Cpu) : Cpu :=
  { s with tlb := fun i => { s.tlb i with valid := false }, physIpValid := false }

/-- Invalidate the single entry of a linear address. -/
def invlpg (s : Cpu) (linear : U64) : Cpu :=
  let e := s.tlb (tlbIndex linear)
  if e.valid && e.vpage == linear >>> 12 then s.setTlb (tlbIndex linear) { e with valid := false }
  else s

/-- Recompute EFER.LMA from CR0.PG and EFER.LME. -/
def updateLongMode (s : Cpu) : Cpu :=
  let want := test s.cr0 cr0Pg && test s.efer Efer.lme
  if want != s.longMode then
    { s with efer := if want then s.efer ||| Efer.lma else s.efer &&& ~~~Efer.lma }.flushTlb
  else s

/-- Write CR0 with every side effect: PE, the TLB when PG toggles, long mode. -/
def writeCr0 (s : Cpu) (v : U32) : Cpu :=
  let oldPg := test s.cr0 cr0Pg
  let s := { s with cr0 := v, pe := test v cr0Pe }
  (if oldPg != test v cr0Pg then s.flushTlb else s).updateLongMode

/-! ## Accessed and dirty bits -/

end Cpu

/-- Set bits in one page-table entry. -/
def markEntry (mem : Memory) (entryBytes : U8) (addr bits : U64) : Memory :=
  if entryBytes = 4 then mem.writeU32 addr (mem.readU32 addr ||| u32 bits)
  else mem.writeU64 addr (mem.readU64 addr ||| bits)

/-- Set the accessed bit of every entry walked and, for a store, the leaf's dirty bit. -/
def markWalk (entryBytes : U8) (write : Bool) : List U64 → Memory → Memory
  | [], mem => mem
  | [leaf], mem => markEntry mem entryBytes leaf (Pte.a ||| if write then Pte.d else 0)
  | e :: rest, mem => markWalk entryBytes write rest (markEntry mem entryBytes e Pte.a)

namespace Cpu

def setAccessedBits (s : Cpu) (map : Mapping) (write : Bool) : Cpu :=
  { s with mem := markWalk map.entryBytes write map.walk s.mem }

/-- The walk of a linear address under the current control registers. -/
def walkOf (s : Cpu) (linear : U64) : Option Mapping :=
  translateMode s.mem s.cr3 linear s.pagingMode s.nxe

/-- Set the bits for an address served from the TLB. -/
def markAccessed (s : Cpu) (linear : U64) (write : Bool) : Cpu :=
  match s.walkOf linear with
  | some map => s.setAccessedBits map write
  | none => s

/-- Is an access permitted against a mapping's permission bits? -/
def accessAllowed (s : Cpu) (writable pageUser pageExec write user fetch : Bool) : Bool :=
  if fetch && !pageExec then false
  else if user then pageUser && !(write && !writable)
  else !(write && !writable && test s.cr0 cr0Wp)

/-! ## Linear and physical addresses -/

/-- The linear address a logical address names. -/
def linearAddr (s : Cpu) (r : SegReg) (offset : U64) : U64 :=
  if s.long64 then
    match r with
    | .fs => s.fsBase + offset
    | .gs => s.gsBase + offset
    | _ => offset
  else if s.pe then (u64 (s.segDesc r).base + offset) &&& 0xFFFFFFFF
  else (u64 (s.seg r) <<< 4 + offset) &&& 0xFFFFFFFF

end Cpu

/-- Translate a linear address for an access, through the TLB or a walk. A fault is recorded and
the unbacked address returned. -/
def applyPagingInner (linear : U64) (write fetch : Bool) : Exec U64 := fun s =>
  if s.longMode && !canonical linear then (unbacked, s.raiseGp 0)
  else if !test s.cr0 cr0Pg then (linear, s)
  else
    let user := s.cpl == 3
    let vpage := linear >>> 12
    let idx := Cpu.tlbIndex linear
    let entry := s.tlb idx
    if entry.valid && entry.vpage == vpage && !s.noTlb then
      if s.accessAllowed entry.writable entry.user entry.exec write user fetch then
        (entry.ppage <<< 12 ||| linear &&& 0xFFF,
          if write && !entry.dirtied then
            (s.markAccessed linear true).setTlb idx { entry with dirtied := true }
          else s)
      else (unbacked, s.raisePageFault linear true write user fetch)
    else
      match s.walkOf linear with
      | some map =>
        if !s.accessAllowed map.writable map.user map.exec write user fetch then
          (unbacked, s.raisePageFault linear true write user fetch)
        else
          let filled := s.setTlb idx
            { valid := true, vpage, ppage := map.phys >>> 12, writable := map.writable
              user := map.user, exec := map.exec, dirtied := write }
          (map.phys, filled.setAccessedBits map write)
      | none => (unbacked, s.raisePageFault linear false write user fetch)

def applyPagingAccess (linear : U64) (write : Bool) : Exec U64 := applyPagingInner linear write false

def applyPagingFetch (linear : U64) : Exec U64 := applyPagingInner linear false true

/-- Translate a logical address. -/
def translateAccess (r : SegReg) (offset : U64) (write : Bool) : Exec U64 := do
  applyPagingAccess ((← get).linearAddr r offset) write

def translate (r : SegReg) (offset : U64) : Exec U64 := translateAccess r offset false

def translateWrite (r : SegReg) (offset : U64) : Exec U64 := translateAccess r offset true

/-! ## Accesses that straddle a page -/

/-- True when an access of `bytes` bytes crosses a page boundary. -/
def straddles (phys : U64) (bytes : Nat) : Bool := (phys &&& 0xFFF).toNat + bytes > 0x1000

/-- The physical address of byte `i` of an operand split after `first` bytes. -/
def splitAddr (phys phys2 : U64) (first i : Nat) : U64 :=
  if i < first then phys + BitVec.ofNat 64 i else phys2 + BitVec.ofNat 64 i - BitVec.ofNat 64 first

/-- Read `bytes` bytes of an operand whose tail lives on the next page. -/
def readSplit (phys lin : U64) (bytes : Nat) : Exec U128 := do
  let first := 0x1000 - (phys &&& 0xFFF).toNat
  let phys2 ← applyPagingAccess ((lin &&& ~~~0xFFF) + 0x1000) false
  let s ← get
  if s.pendingException.isSome then pure 0
  else
    pure ((List.range bytes).foldl (fun v i =>
      v ||| u128 (s.mem.readU8 (splitAddr phys phys2 first i)) <<< (8 * i)) 0)

/-- The store side: both pages are translated before a byte is written. -/
def writeSplit (phys lin : U64) (bytes : Nat) (v : U128) : Exec Unit := do
  let first := 0x1000 - (phys &&& 0xFFF).toNat
  let phys2 ← applyPagingAccess ((lin &&& ~~~0xFFF) + 0x1000) true
  let s ← get
  if s.pendingException.isSome then pure ()
  else
    set (s.modifyMem fun m => (List.range bytes).foldl
      (fun m i => m.writeU8 (splitAddr phys phys2 first i) (byteOf v i)) m)

/-! ## Model-specific registers -/

namespace Msr
def sysenterCs : U32 := 0x174
def sysenterEsp : U32 := 0x175
def sysenterEip : U32 := 0x176
def efer : U32 := 0xC0000080
def star : U32 := 0xC0000081
def lstar : U32 := 0xC0000082
def cstar : U32 := 0xC0000083
def sfmask : U32 := 0xC0000084
def fsBase : U32 := 0xC0000100
def gsBase : U32 := 0xC0000101
def kernelGsBase : U32 := 0xC0000102
end Msr

namespace Cpu

def readMsr (s : Cpu) (index : U32) : U64 :=
  if index = Msr.efer then s.efer
  else if index = Msr.star then s.star
  else if index = Msr.lstar then s.lstar
  else if index = Msr.cstar then s.cstar
  else if index = Msr.sfmask then s.sfmask
  else if index = Msr.fsBase then s.fsBase
  else if index = Msr.gsBase then s.gsBase
  else if index = Msr.kernelGsBase then s.kernelGsBase
  else if index = Msr.sysenterCs then u64 s.sysenterCs
  else if index = Msr.sysenterEsp then u64 s.sysenterEsp
  else if index = Msr.sysenterEip then u64 s.sysenterEip
  else if index = Vmx.msrFeatureControl then s.vmx.featureControl
  else (Vmx.readCapabilityMsr index).getD 0

def writeMsr (s : Cpu) (index : U32) (value : U64) : Cpu :=
  if index = Msr.efer then
    { s with efer := value &&& ~~~Efer.lma ||| s.efer &&& Efer.lma }.updateLongMode
  else if index = Msr.star then { s with star := value }
  else if index = Msr.lstar then { s with lstar := value }
  else if index = Msr.cstar then { s with cstar := value }
  else if index = Msr.sfmask then { s with sfmask := value }
  else if index = Msr.fsBase then { s with fsBase := value }
  else if index = Msr.gsBase then { s with gsBase := value }
  else if index = Msr.kernelGsBase then { s with kernelGsBase := value }
  else if index = Msr.sysenterCs then { s with sysenterCs := u32 value }
  else if index = Msr.sysenterEsp then { s with sysenterEsp := u32 value }
  else if index = Msr.sysenterEip then { s with sysenterEip := u32 value }
  else if index = Vmx.msrFeatureControl then
    if test s.vmx.featureControl Vmx.featLocked then s.raiseGp 0
    else { s with vmx := { s.vmx with featureControl := value &&& 0x7 } }
  else s

end Cpu
end X86Emu
