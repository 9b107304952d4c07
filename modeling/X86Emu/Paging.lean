import X86Emu.Memory

/-!
# Page-table walks

The three paging structures of `paging.rs`. A walk reports the physical address, the combined
permissions, and the entries it read, outermost first.
-/
namespace X86Emu

namespace Pte
def p : U64 := 1
def rw : U64 := (1 : U64) <<< 1
def us : U64 := (1 : U64) <<< 2
def a : U64 := (1 : U64) <<< 5
def d : U64 := (1 : U64) <<< 6
def ps : U64 := (1 : U64) <<< 7
def nx : U64 := (1 : U64) <<< 63
end Pte

def addrMask64 : U64 := 0x000FFFFFFFFFF000
def addrMask32 : U64 := 0xFFFFF000

/-- Which paging structure CR3 roots. -/
inductive PagingMode where
  | off
  | legacy
  | pae
  | long
  deriving DecidableEq, Repr

/-- The result of a successful page-table walk. -/
structure Mapping where
  phys : U64
  writable : Bool
  user : Bool
  exec : Bool
  /-- The entries the walk read; the last is the leaf. -/
  walk : List U64
  entryBytes : U8
  deriving DecidableEq, Repr

def translateLegacy (mem : Memory) (cr3 : U64) (linear : U32) : Option Mapping :=
  let pdIndex := (linear >>> 22) &&& 0x3FF
  let ptIndex := (linear >>> 12) &&& 0x3FF
  let offset := u64 (linear &&& 0xFFF)
  let pdeAddr := (cr3 &&& addrMask32) + u64 pdIndex * 4
  let pde := u64 (mem.readU32 pdeAddr)
  if !test pde Pte.p then none
  else if test pde Pte.ps then
    some {
      phys := pde &&& 0xFFC00000 ||| u64 linear &&& 0x3FFFFF
      writable := test pde Pte.rw
      user := test pde Pte.us
      exec := true
      walk := [pdeAddr]
      entryBytes := 4 }
  else
    let pteAddr := (pde &&& addrMask32) + u64 ptIndex * 4
    let entry := u64 (mem.readU32 pteAddr)
    if !test entry Pte.p then none
    else some {
      phys := entry &&& addrMask32 ||| offset
      writable := test pde Pte.rw && test entry Pte.rw
      user := test pde Pte.us && test entry Pte.us
      exec := true
      walk := [pdeAddr, pteAddr]
      entryBytes := 4 }

/-- The PDPTE contributes only its present bit. -/
def translatePae (mem : Memory) (cr3 : U64) (linear : U32) (nxe : Bool) : Option Mapping :=
  let pdptIndex := (linear >>> 30) &&& 0x3
  let pdIndex := (linear >>> 21) &&& 0x1FF
  let ptIndex := (linear >>> 12) &&& 0x1FF
  let pdpteAddr := (cr3 &&& ~~~0x1F) + u64 pdptIndex * 8
  let pdpte := mem.readU64 pdpteAddr
  if !test pdpte Pte.p then none
  else
    let pdeAddr := (pdpte &&& addrMask64) + u64 pdIndex * 8
    let pde := mem.readU64 pdeAddr
    if !test pde Pte.p then none
    else if test pde Pte.ps then
      some {
        phys := pde &&& addrMask64 &&& ~~~0x1FFFFF ||| u64 linear &&& 0x1FFFFF
        writable := test pde Pte.rw
        user := test pde Pte.us
        exec := !nxe || !test pde Pte.nx
        walk := [pdpteAddr, pdeAddr]
        entryBytes := 8 }
    else
      let pteAddr := (pde &&& addrMask64) + u64 ptIndex * 8
      let entry := mem.readU64 pteAddr
      if !test entry Pte.p then none
      else some {
        phys := entry &&& addrMask64 ||| u64 linear &&& 0xFFF
        writable := test pde Pte.rw && test entry Pte.rw
        user := test pde Pte.us && test entry Pte.us
        exec := !nxe || !test (pde ||| entry) Pte.nx
        walk := [pdpteAddr, pdeAddr, pteAddr]
        entryBytes := 8 }

def translateLong (mem : Memory) (cr3 linear : U64) (nxe : Bool) : Option Mapping :=
  let pml4Index := (linear >>> 39) &&& 0x1FF
  let pdptIndex := (linear >>> 30) &&& 0x1FF
  let pdIndex := (linear >>> 21) &&& 0x1FF
  let ptIndex := (linear >>> 12) &&& 0x1FF
  let pml4eAddr := (cr3 &&& addrMask64) + pml4Index * 8
  let pml4e := mem.readU64 pml4eAddr
  if !test pml4e Pte.p then none
  else
    let pdpteAddr := (pml4e &&& addrMask64) + pdptIndex * 8
    let pdpte := mem.readU64 pdpteAddr
    if !test pdpte Pte.p then none
    else if test pdpte Pte.ps then
      some {
        phys := pdpte &&& addrMask64 &&& ~~~0x3FFFFFFF ||| linear &&& 0x3FFFFFFF
        writable := test pml4e Pte.rw && test pdpte Pte.rw
        user := test pml4e Pte.us && test pdpte Pte.us
        exec := !nxe || !test (pml4e ||| pdpte) Pte.nx
        walk := [pml4eAddr, pdpteAddr]
        entryBytes := 8 }
    else
      let pdeAddr := (pdpte &&& addrMask64) + pdIndex * 8
      let pde := mem.readU64 pdeAddr
      if !test pde Pte.p then none
      else if test pde Pte.ps then
        some {
          phys := pde &&& addrMask64 &&& ~~~0x1FFFFF ||| linear &&& 0x1FFFFF
          writable := test (pml4e &&& pdpte &&& pde) Pte.rw
          user := test (pml4e &&& pdpte &&& pde) Pte.us
          exec := !nxe || !test (pml4e ||| pdpte ||| pde) Pte.nx
          walk := [pml4eAddr, pdpteAddr, pdeAddr]
          entryBytes := 8 }
      else
        let pteAddr := (pde &&& addrMask64) + ptIndex * 8
        let entry := mem.readU64 pteAddr
        if !test entry Pte.p then none
        else some {
          phys := entry &&& addrMask64 ||| linear &&& 0xFFF
          writable := test (pml4e &&& pdpte &&& pde &&& entry) Pte.rw
          user := test (pml4e &&& pdpte &&& pde &&& entry) Pte.us
          exec := !nxe || !test (pml4e ||| pdpte ||| pde ||| entry) Pte.nx
          walk := [pml4eAddr, pdpteAddr, pdeAddr, pteAddr]
          entryBytes := 8 }

/-- Translate `linear` through the structure `mode` names; `none` when a level is not present. -/
def translateMode (mem : Memory) (cr3 linear : U64) (mode : PagingMode) (nxe : Bool) :
    Option Mapping :=
  match mode with
  | .off => some {
      phys := linear, writable := true, user := true, exec := true, walk := [], entryBytes := 0 }
  | .legacy => translateLegacy mem cr3 (u32 linear)
  | .pae => translatePae mem cr3 (u32 linear) nxe
  | .long => translateLong mem cr3 linear nxe

/-- Bits 63:48 all repeat bit 47. -/
def canonical (linear : U64) : Bool :=
  linear >>> 47 == 0 || linear >>> 47 == 0x1FFFF

/-! ## Segment descriptors -/

/-- A parsed segment descriptor. -/
structure Descriptor where
  base : U32
  limit : U32
  attr : U8
  g : Bool
  dB : Bool
  l : Bool
  deriving DecidableEq, Repr

namespace Descriptor

def default : Descriptor := { base := 0, limit := 0, attr := 0, g := false, dB := false, l := false }

/-- Parse an 8-byte descriptor. -/
def parse (raw : U64) : Descriptor :=
  let limit20 := u32 (raw &&& 0xFFFF) ||| u32 ((raw >>> 48) &&& 0xF) <<< 16
  let g := (raw >>> 55) &&& 1 == 1
  { base := u32 ((raw >>> 16) &&& 0xFFFF) ||| u32 ((raw >>> 32) &&& 0xFF) <<< 16 |||
      u32 ((raw >>> 56) &&& 0xFF) <<< 24
    limit := if g then limit20 <<< 12 ||| 0xFFF else limit20
    attr := u8 ((raw >>> 40) &&& 0xFF)
    g := g
    dB := (raw >>> 54) &&& 1 == 1
    l := (raw >>> 53) &&& 1 == 1 }

def present (d : Descriptor) : Bool := test d.attr 0x80
def dpl (d : Descriptor) : U8 := (d.attr >>> 5) &&& 0x3

end Descriptor

/-- Read a descriptor from a physical address. -/
def readDescriptor (mem : Memory) (entryPhys : U64) : Descriptor :=
  Descriptor.parse (mem.readU64 entryPhys)

end X86Emu
