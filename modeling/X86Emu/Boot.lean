import X86Emu.Translate

/-!
# Firmware hand-over to a 64-bit payload

The long-mode half of `boot.rs`: the 64-bit GDT, the identity map of the low 4 GiB in 2 MiB pages,
and the entry sequence that leaves the CPU in 64-bit mode.
-/
namespace X86Emu

namespace Boot

def gdt64Addr : U64 := 0x1800
def pml4Addr : U64 := 0x2000
def pdptAddr : U64 := 0x3000
/-- Page directories for the identity map: one per GiB covered. -/
def pdAddr : U64 := 0x4000
def kernelCs64 : U16 := 0x08
def kernelDs64 : U16 := 0x10
def identityMapBytes : U64 := (4 : U64) <<< 30

def presentRw : U64 := Pte.p ||| Pte.rw

/-- The null descriptor, the 64-bit code segment and the data segment. -/
def writeGdt64 (mem : Memory) : Memory :=
  ((mem.writeU64 gdt64Addr 0).writeU64 (gdt64Addr + 8) 0x00AF9A000000FFFF).writeU64
    (gdt64Addr + 16) 0x00CF92000000FFFF

/-- Write `n` words from `base` on. -/
def writeWords (base : U64) (n : Nat) (f : Nat → U64) (mem : Memory) : Memory :=
  (List.range n).foldl (fun m i => m.writeU64 (base + BitVec.ofNat 64 i * 8) (f i)) mem

/-- How many GiB the map covers. -/
def gibs : Nat := (identityMapBytes / (1 : U64) <<< 30).toNat

/-- Entry `i` of the page-directory-pointer table. -/
def pdptEntry (i : Nat) : U64 :=
  if i < gibs then (pdAddr + BitVec.ofNat 64 i * 0x1000) ||| presentRw else 0

/-- Entry `i` of the page directory of GiB `g`: one 2 MiB page. -/
def pdEntry (g i : Nat) : U64 :=
  (BitVec.ofNat 64 g * (1 : U64) <<< 30 + BitVec.ofNat 64 i * (2 : U64) <<< 20) ||| presentRw |||
    Pte.ps

/-- Build the tables of the identity map, and return the address of the PML4. -/
def buildIdentityMap (mem : Memory) : U64 × Memory :=
  let mem := writeWords pml4Addr 512 (fun _ => 0) mem
  let mem := mem.writeU64 pml4Addr (pdptAddr ||| presentRw)
  let mem := writeWords pdptAddr 512 pdptEntry mem
  let mem := (List.range gibs).foldl
    (fun m g => writeWords (pdAddr + BitVec.ofNat 64 g * 0x1000) 512 (pdEntry g) m) mem
  (pml4Addr, mem)

end Boot

open Boot

/-- The flat segments of the 64-bit GDT. -/
def loadFlatSegments (s : Cpu) : Cpu :=
  let s := s.loadSeg .cs kernelCs64
  let s := s.loadSeg .ds kernelDs64
  let s := s.loadSeg .es kernelDs64
  let s := s.loadSeg .ss kernelDs64
  let s := s.loadSeg .fs kernelDs64
  s.loadSeg .gs kernelDs64

/-- Where the payload starts: interrupts are off. -/
def startAt (entry stack : U64) (s : Cpu) : Cpu :=
  let s := (s.setRsp stack).modifyFlags (setFlag Flags.if' false)
  { s with rip := entry, halted := false }.invalidatePhysIp

/-- Put the CPU into 64-bit long mode with an identity-mapped low 4 GiB, a flat GDT and a stack. -/
def enterLongMode (entry stack : U64) (s : Cpu) : Cpu :=
  let (pml4, mem) := buildIdentityMap (writeGdt64 s.mem)
  let s := { s with
    mem
    gdtBase := gdt64Addr
    gdtLimit := 23
    cr4 := s.cr4 ||| cr4Pae
    cr3 := pml4
    efer := s.efer ||| (Efer.lme ||| Efer.nxe ||| Efer.sce)
    pe := true
    cr0 := s.cr0 ||| (cr0Pe ||| cr0Pg ||| cr0Wp) }
  startAt entry stack (loadFlatSegments s.updateLongMode.flushTlb)

end X86Emu
