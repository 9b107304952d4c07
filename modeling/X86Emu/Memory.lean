import X86Emu.Word

/-!
# Physical memory

Flat memory with the RAM layout of `memory.rs`: RAM below the MMIO hole, the rest above 4 GiB, the
VGA text window routed to character cells, and an open bus everywhere else. Only the store watch,
a debugging aid, is left out.
-/
namespace X86Emu

def vgaTextBase : U64 := 0xB8000
def vgaTextSize : U64 := 0x8000
def mmioHoleStart : Nat := 0xC0000000
def highRamBase : Nat := 0x100000000

/-- The physical address handed back for a linear address with no mapping. -/
def unbacked : U64 := 0x7FFFFFFFFFFFFFFF

/-- RAM, its split around the MMIO hole, and the VGA text cells. The layout fields are those
`Memory::with_size` establishes; a backing store fits in a host's address space. -/
structure Memory where
  data : Nat → U8
  lowSize : Nat
  ramSize : Nat
  vgaText : Nat → U16
  lowSize_eq : lowSize = min ramSize mmioHoleStart
  whole_pages : 4096 ∣ ramSize
  one_mib_le : 2 ^ 20 ≤ ramSize
  ramSize_le : ramSize ≤ 2 ^ 56

namespace Memory

/-- Build a machine with `bytes` of RAM, rounded up to a page and never below 1 MiB. -/
def withSize (bytes : Nat) (h : bytes ≤ 2 ^ 56) : Memory where
  data _ := 0
  ramSize := (max bytes (2 ^ 20) + 0xFFF) / 4096 * 4096
  lowSize := min ((max bytes (2 ^ 20) + 0xFFF) / 4096 * 4096) mmioHoleStart
  vgaText _ := 0x0720
  lowSize_eq := rfl
  whole_pages := Nat.dvd_mul_left _ _
  one_mib_le := by omega
  ramSize_le := by omega

/-- The sizes the concrete machines are built with: none, a page, a segment and one megabyte. -/
theorem empty_le : 0 ≤ 2 ^ 56 := Nat.zero_le _
theorem page_le : 0x1000 ≤ 2 ^ 56 := by decide
theorem segment_le : 2 ^ 16 ≤ 2 ^ 56 := by decide
theorem mib_le : 2 ^ 20 ≤ 2 ^ 56 := by decide

/-- Map a physical address onto an index into the backing store. -/
def slot (m : Memory) (addr : U64) : Option Nat :=
  if addr.toNat < m.lowSize then some addr.toNat
  else if highRamBase ≤ addr.toNat then
    if addr.toNat - highRamBase + m.lowSize < m.ramSize then
      some (addr.toNat - highRamBase + m.lowSize)
    else none
  else none

/-- Replace `n` bytes of the backing store from index `a` on. -/
def store (m : Memory) (a n : Nat) (v : Nat → U8) : Memory :=
  { m with data := fun i => if a ≤ i ∧ i < a + n then v (i - a) else m.data i }

def setCell (m : Memory) (idx : Nat) (v : U16) : Memory :=
  { m with vgaText := fun i => if i = idx then v else m.vgaText i }

/-- Translate a real-mode `segment:offset` pair to a 20-bit physical address. -/
def phys (segment offset : U16) : U64 :=
  u64 ((u32 segment <<< 4) + u32 offset) &&& 0xFFFFF

def readU8Raw (m : Memory) (addr : U64) : U8 :=
  match m.slot addr with
  | some a => m.data a
  | none => 0xFF

def readU8 (m : Memory) (addr : U64) : U8 :=
  if addr ≥ vgaTextBase ∧ addr < vgaTextBase + vgaTextSize then
    let cell := m.vgaText ((addr - vgaTextBase).toNat / 2)
    if (addr - vgaTextBase).toNat % 2 = 0 then u8 cell else u8 (cell >>> 8)
  else m.readU8Raw addr

def readU16 (m : Memory) (addr : U64) : U16 :=
  if addr ≥ vgaTextBase ∧ addr + 1 < vgaTextBase + vgaTextSize then
    m.vgaText ((addr - vgaTextBase).toNat / 2)
  else
    match m.slot addr with
    | some a =>
      if a + 1 < m.ramSize then le16 (m.data a) (m.data (a + 1))
      else le16 (m.readU8 addr) (m.readU8 (addr + 1))
    | none => le16 (m.readU8 addr) (m.readU8 (addr + 1))

def readU32 (m : Memory) (addr : U64) : U32 :=
  if addr + 3 < vgaTextBase + vgaTextSize ∧ addr + 3 ≥ vgaTextBase then
    m.readU16 (addr + 2) ++ m.readU16 addr
  else
    let bytewise := le32 (m.readU8 addr) (m.readU8 (addr + 1)) (m.readU8 (addr + 2))
      (m.readU8 (addr + 3))
    match m.slot addr with
    | some a =>
      if a + 3 < m.ramSize then
        le32 (m.data a) (m.data (a + 1)) (m.data (a + 2)) (m.data (a + 3))
      else bytewise
    | none => bytewise

def readU64 (m : Memory) (addr : U64) : U64 :=
  let halves := le64 (m.readU32 addr) (m.readU32 (addr + 4))
  if addr + 7 ≥ vgaTextBase ∧ addr < vgaTextBase + vgaTextSize then halves
  else
    match m.slot addr with
    | some a =>
      if a + 7 < m.ramSize then
        le64 (le32 (m.data a) (m.data (a + 1)) (m.data (a + 2)) (m.data (a + 3)))
          (le32 (m.data (a + 4)) (m.data (a + 5)) (m.data (a + 6)) (m.data (a + 7)))
      else halves
    | none => halves

def readU128 (m : Memory) (addr : U64) : U128 :=
  let halves := m.readU64 (addr + 8) ++ m.readU64 addr
  match m.slot addr with
  | some a =>
    if a + 15 < m.ramSize then
      let word (k : Nat) := le32 (m.data (a + k)) (m.data (a + k + 1)) (m.data (a + k + 2))
        (m.data (a + k + 3))
      le64 (word 8) (word 12) ++ le64 (word 0) (word 4)
    else halves
  | none => halves

def writeU8 (m : Memory) (addr : U64) (val : U8) : Memory :=
  if addr ≥ vgaTextBase ∧ addr < vgaTextBase + vgaTextSize then
    let idx := (addr - vgaTextBase).toNat / 2
    let cell := m.vgaText idx
    m.setCell idx
      (if (addr - vgaTextBase).toNat % 2 = 0 then cell &&& 0xFF00 ||| u16 val
       else cell &&& (0x00FF : U16) ||| u16 val <<< 8)
  else
    match m.slot addr with
    | some a => m.store a 1 fun _ => val
    | none => m

def writeU16 (m : Memory) (addr : U64) (val : U16) : Memory :=
  let bytewise := (m.writeU8 addr (byteOf val 0)).writeU8 (addr + 1) (byteOf val 1)
  if addr ≥ vgaTextBase ∧ addr + 1 < vgaTextBase + vgaTextSize then
    m.setCell ((addr - vgaTextBase).toNat / 2) val
  else
    match m.slot addr with
    | some a => if a + 1 < m.ramSize then m.store a 2 (byteOf val) else bytewise
    | none => bytewise

def writeU32 (m : Memory) (addr : U64) (val : U32) : Memory :=
  let bytewise :=
    (((m.writeU8 addr (byteOf val 0)).writeU8 (addr + 1) (byteOf val 1)).writeU8 (addr + 2)
      (byteOf val 2)).writeU8 (addr + 3) (byteOf val 3)
  if addr + 3 < vgaTextBase + vgaTextSize ∧ addr + 3 ≥ vgaTextBase then
    (m.writeU16 addr (u16 val)).writeU16 (addr + 2) (u16 (val >>> 16))
  else
    match m.slot addr with
    | some a => if a + 3 < m.ramSize then m.store a 4 (byteOf val) else bytewise
    | none => bytewise

def writeU64 (m : Memory) (addr : U64) (val : U64) : Memory :=
  let bytewise := (List.range 8).foldl
    (fun m i => m.writeU8 (addr + BitVec.ofNat 64 i) (byteOf val i)) m
  if addr + 7 ≥ vgaTextBase ∧ addr < vgaTextBase + vgaTextSize then
    (m.writeU32 addr (u32 val)).writeU32 (addr + 4) (u32 (val >>> 32))
  else
    match m.slot addr with
    | some a => if a + 7 < m.ramSize then m.store a 8 (byteOf val) else bytewise
    | none => bytewise

def writeU128 (m : Memory) (addr : U64) (val : U128) : Memory :=
  let halves := (m.writeU64 addr (u64 val)).writeU64 (addr + 8) (u64 (val >>> 64))
  match m.slot addr with
  | some a => if a + 15 < m.ramSize then m.store a 16 (byteOf val) else halves
  | none => halves

end Memory
end X86Emu
