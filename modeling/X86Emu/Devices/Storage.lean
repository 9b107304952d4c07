import X86Emu.Memory

/-!
# PCI, virtio block and IDE

Configuration space of `pci.rs`, the virtio block device of `virtio.rs` and the PIO controller of
`ide.rs`.
-/
namespace X86Emu

/-! ## PCI configuration space -/

structure PciFunction where
  config : Nat → U8
  barSize : Nat → U32

namespace PciFunction

def empty : PciFunction := { config := fun _ => 0, barSize := fun _ => 0 }

def put8 (f : PciFunction) (off : Nat) (val : U8) : PciFunction :=
  { f with config := fun i => if i = off then val else f.config i }

def put16 (f : PciFunction) (off : Nat) (val : U16) : PciFunction :=
  (f.put8 off (byteOf val 0)).put8 (off + 1) (byteOf val 1)

def put32 (f : PciFunction) (off : Nat) (val : U32) : PciFunction :=
  { f with config := fun i => if off ≤ i ∧ i < off + 4 then byteOf val (i - off) else f.config i }

def read32 (f : PciFunction) (off : Nat) : U32 :=
  le32 (f.config off) (f.config (off + 1)) (f.config (off + 2)) (f.config (off + 3))

def ioBase (f : PciFunction) (bar : Nat) : U16 := u16 (f.read32 (0x10 + bar * 4) &&& ~~~0x3)

end PciFunction

def virtioBlkIoBase : U16 := 0xC000
def virtioBlkSlot : Nat := 1
def virtioIrq : Nat := 11

structure Pci where
  address : U32
  slots : Nat → Option PciFunction

namespace Pci

def bridge : PciFunction :=
  let f := (((PciFunction.empty.put16 0x00 0x8086).put16 0x02 0x1237).put16 0x04 0x0006).put16
    0x06 0x0200
  (((f.put8 0x08 0x02).put8 0x0A 0x00).put8 0x0B 0x06).put8 0x0E 0x00

def blk : PciFunction :=
  let f := (((PciFunction.empty.put16 0x00 0x1AF4).put16 0x02 0x1001).put16 0x04 0x0001).put16
    0x06 0x0000
  let f := ((((f.put8 0x08 0x00).put8 0x09 0x00).put8 0x0A 0x00).put8 0x0B 0x01).put8 0x0E 0x00
  let f := (((f.put16 0x2C 0x1AF4).put16 0x2E 0x0002).put8 0x3C 11).put8 0x3D 0x01
  { f.put32 0x10 (u32 virtioBlkIoBase ||| 1) with barSize := fun i => if i = 0 then 64 else 0 }

def new : Pci where
  address := 0
  slots i := if i = 0 then some bridge else if i = virtioBlkSlot then some blk else none

/-- The slot and register the latched address names. -/
def target (p : Pci) : Option (Nat × Nat) :=
  if !test p.address 0x80000000 then none
  else if (p.address >>> 16) &&& 0xFF ≠ 0 ∨ (p.address >>> 8) &&& 0x07 ≠ 0 then none
  else some (((p.address >>> 11) &&& 0x1F).toNat, (p.address &&& 0xFC).toNat)

def readData (p : Pci) (lane size : Nat) : U32 :=
  match p.target with
  | none => 0xFFFFFFFF
  | some (slot, reg) =>
    match p.slots slot with
    | none => 0xFFFFFFFF
    | some func =>
      (List.range size).foldl (fun v i =>
        let off := reg + lane + i
        v ||| u32 (if off < 256 then func.config off else 0xFF) <<< (i * 8)) 0

def readOnly (off : Nat) : Bool :=
  off ≤ 0x03 || (0x08 ≤ off && off ≤ 0x0B) || off == 0x0E || (0x2C ≤ off && off ≤ 0x2F) ||
    off == 0x3D

/-- What a configuration write leaves in a function. -/
def writeFunction (func : PciFunction) (reg lane size : Nat) (value : U32) : PciFunction :=
  if (0x10 ≤ reg ∧ reg < 0x28) ∧ size = 4 ∧ lane = 0 then
    let bar := (reg - 0x10) / 4
    let sizeBytes := func.barSize bar
    if sizeBytes = 0 then func
    else
      let typeBits : U32 := if test (func.config (0x10 + bar * 4)) 1 then 1 else 0
      let mask := ~~~(sizeBytes - 1)
      func.put32 reg
        (if value = 0xFFFFFFFF then mask ||| typeBits else value &&& mask ||| typeBits)
  else
    (List.range size).foldl (fun f i =>
      let off := reg + lane + i
      if off ≥ 256 ∨ readOnly off then f else f.put8 off (byteOf value i)) func

def writeData (p : Pci) (lane size : Nat) (value : U32) : Pci :=
  match p.target with
  | none => p
  | some (slot, reg) =>
    match p.slots slot with
    | none => p
    | some func =>
      { p with slots := fun i =>
          if i = slot then some (writeFunction func reg lane size value) else p.slots i }

/-- The I/O base the guest has assigned the virtio device, when decoding is on. -/
def virtioIoBase (p : Pci) : Option U16 :=
  match p.slots virtioBlkSlot with
  | none => none
  | some func =>
    if !test (func.config 0x04) 0x01 then none
    else if func.ioBase 0 = 0 then none
    else some (func.ioBase 0)

end Pci

/-! ## The virtio block device -/

structure VirtioBlk where
  disk : Array U8 := #[]
  guestFeatures : U32 := 0
  status : U8 := 0
  queueSel : U16 := 0
  queuePfn : U32 := 0
  isr : U8 := 0
  irq : Bool := false
  lastAvail : U16 := 0

namespace VirtioBlk

def queueSize : U16 := 128
def descFNext : U16 := 1
def descFWrite : U16 := 2

def read (v : VirtioBlk) (offset : U16) (size : Nat) : U32 × VirtioBlk :=
  if offset = 0x04 then (v.guestFeatures, v)
  else if offset = 0x08 then (v.queuePfn, v)
  else if offset = 0x0C then (u32 queueSize, v)
  else if offset = 0x0E then (u32 v.queueSel, v)
  else if offset = 0x12 then (u32 v.status, v)
  else if offset = 0x13 then (u32 v.isr, { v with isr := 0, irq := false })
  else if 0x14 ≤ offset ∧ offset ≤ 0x1B then
    let value : U64 := BitVec.ofNat 64 (v.disk.size / 512) >>> ((offset - 0x14).toNat * 8)
    (if size = 1 then u32 (value &&& 0xFF) else if size = 2 then u32 (value &&& 0xFFFF)
      else u32 value, v)
  else (0, v)

/-- The descriptor, available and used rings. -/
def ring (v : VirtioBlk) : U64 × U64 × U64 :=
  let desc := u64 v.queuePfn * 4096
  let avail := desc + 16 * u64 queueSize
  let used := avail + 4 + 2 * u64 queueSize + 2
  (desc, avail, (used + 4095) / 4096 * 4096)

/-- Follow a descriptor chain for at most `fuel` entries. -/
def chainFrom (mem : Memory) (desc : U64) : Nat → U16 → List (U64 × U32 × U16)
  | 0, _ => []
  | fuel + 1, index =>
    let entry := desc + u64 index * 16
    let d := (mem.readU64 entry, mem.readU32 (entry + 8), mem.readU16 (entry + 12))
    if test d.2.2 descFNext then d :: chainFrom mem desc fuel (mem.readU16 (entry + 14)) else [d]

/-- Copy `n` disk bytes from `offset + i` on to guest memory; stops at the disk's end. -/
def copyIn (disk : Array U8) (addr offset : U64) : Nat → Nat → Memory → Memory × Bool
  | 0, _, mem => (mem, true)
  | n + 1, i, mem =>
    match disk[(offset + BitVec.ofNat 64 i).toNat]? with
    | some b => copyIn disk addr offset n (i + 1) (mem.writeU8 (addr + BitVec.ofNat 64 i) b)
    | none => (mem, false)

/-- The data descriptors of a read request. A short descriptor does not stop the next one. -/
def readChain (disk : Array U8) : List (U64 × U32 × U16) → U64 → U32 → Bool → Memory →
    Memory × U32 × Bool
  | [], _, written, ok, mem => (mem, written, ok)
  | (addr, len, flags) :: data, offset, written, ok, mem =>
    if !test flags descFWrite then (mem, written, false)
    else
      let (mem, full) := copyIn disk addr offset len.toNat 0 mem
      readChain disk data (offset + u64 len) (written + len) (ok && full) mem

def copyOut (mem : Memory) (addr offset : U64) : Nat → Nat → Array U8 → Array U8 × Bool
  | 0, _, disk => (disk, true)
  | n + 1, i, disk =>
    let at' := (offset + BitVec.ofNat 64 i).toNat
    if at' ≥ disk.size then (disk, false)
    else copyOut mem addr offset n (i + 1)
      (disk.setIfInBounds at' (mem.readU8 (addr + BitVec.ofNat 64 i)))

def writeChain (mem : Memory) : List (U64 × U32 × U16) → U64 → Bool → Array U8 → Array U8 × Bool
  | [], _, ok, disk => (disk, ok)
  | (addr, len, _) :: data, offset, ok, disk =>
    let (disk, full) := copyOut mem addr offset len.toNat 0 disk
    writeChain mem data (offset + u64 len) (ok && full) disk

/-- Blank the data buffers: the answer to an identity request. -/
def blankChain : List (U64 × U32 × U16) → U32 → Memory → Memory × U32
  | [], written, mem => (mem, written)
  | (addr, len, _) :: data, written, mem =>
    blankChain data (written + len)
      ((List.range len.toNat).foldl (fun m i => m.writeU8 (addr + BitVec.ofNat 64 i) 0) mem)

/-- Serve one request: the bytes reported written, the disk and the memory after it. -/
def request (disk : Array U8) (mem : Memory) (desc : U64) (head : U16) : U32 × Array U8 × Memory :=
  let chain := chainFrom mem desc queueSize.toNat head
  match chain with
  | (hdrAddr, _, _) :: rest@(_ :: _) =>
    let reqType := mem.readU32 hdrAddr
    let sector := mem.readU64 (hdrAddr + 8)
    let statusAt := (rest.getLastD (0, 0, 0)).1
    let data := rest.dropLast
    let ret (status : U8) (written : U32) (disk : Array U8) (mem : Memory) :=
      (written + 1, disk, mem.writeU8 statusAt status)
    if reqType = 0 then
      let (mem, written, ok) := readChain disk data (sector * 512) 0 true mem
      ret (if ok then 0 else 1) written disk mem
    else if reqType = 1 then
      let (disk, ok) := writeChain mem data (sector * 512) true disk
      ret (if ok then 0 else 1) 0 disk mem
    else if reqType = 4 then ret 0 0 disk mem
    else if reqType = 8 then
      let (mem, written) := blankChain data 0 mem
      ret 0 written disk mem
    else ret 2 0 disk mem
  | _ => (0, disk, mem)

/-- Serve the `n` requests the driver has published. -/
def serve (desc avail used : U64) : Nat → VirtioBlk → Memory → VirtioBlk × Memory
  | 0, v, mem => (v, mem)
  | n + 1, v, mem =>
    let slot := v.lastAvail % queueSize
    let head := mem.readU16 (avail + 4 + u64 slot * 2)
    let (written, disk, mem) := request v.disk mem desc head
    let usedSlot := mem.readU16 (used + 2) % queueSize
    let entry := used + 4 + u64 usedSlot * 8
    let mem := (mem.writeU32 entry (u32 head)).writeU32 (entry + 4) written
    let mem := mem.writeU16 (used + 2) (mem.readU16 (used + 2) + 1)
    serve desc avail used n
      { v with disk, lastAvail := v.lastAvail + 1, isr := v.isr ||| 1, irq := true } mem

def notify (v : VirtioBlk) (mem : Memory) : VirtioBlk × Memory :=
  if v.queuePfn = 0 then (v, mem)
  else
    let (desc, avail, used) := v.ring
    serve desc avail used (mem.readU16 (avail + 2) - v.lastAvail).toNat v mem

def write (v : VirtioBlk) (offset : U16) (value : U32) (mem : Memory) : VirtioBlk × Memory :=
  if offset = 0x04 then ({ v with guestFeatures := value }, mem)
  else if offset = 0x08 then ({ v with queuePfn := value, lastAvail := 0 }, mem)
  else if offset = 0x0E then ({ v with queueSel := u16 value }, mem)
  else if offset = 0x10 then v.notify mem
  else if offset = 0x12 then
    let v := { v with status := u8 value }
    (if value = 0 then { v with queuePfn := 0, lastAvail := 0, isr := 0, irq := false } else v, mem)
  else (v, mem)

end VirtioBlk

/-! ## IDE -/

structure Ide where
  disk : Array U8 := #[]
  present : Bool := false
  error : U8 := 0
  sectorCount : U8 := 0
  lbaLow : U8 := 0
  lbaMid : U8 := 0
  lbaHigh : U8 := 0
  driveHead : U8 := 0
  status : U8 := 0x40
  dataBuffer : Array U8 := #[]
  dataIndex : Nat := 0
  pendingCommand : U8 := 0
  busy : Bool := false

namespace Ide

def lba (d : Ide) : U32 :=
  u32 d.lbaLow ||| u32 d.lbaMid <<< 8 ||| u32 d.lbaHigh <<< 16 ||| u32 (d.driveHead &&& 0x0F) <<< 24

def writeReg (d : Ide) (port : U16) (val : U8) : Ide :=
  if port = 0x1F1 then { d with error := val }
  else if port = 0x1F2 then { d with sectorCount := val }
  else if port = 0x1F3 then { d with lbaLow := val }
  else if port = 0x1F4 then { d with lbaMid := val }
  else if port = 0x1F5 then { d with lbaHigh := val }
  else if port = 0x1F6 then { d with driveHead := val }
  else d

def writeCommand (d : Ide) (cmd : U8) : Ide :=
  let count := max d.sectorCount.toNat 1
  let start := d.lba.toNat * 512
  let d :=
    if cmd = 0x20 ∨ cmd = 0x21 then
      if d.present ∧ start + count * 512 ≤ d.disk.size then
        { d with dataBuffer := d.disk.extract start (start + count * 512), error := 0 }
      else { d with dataBuffer := #[], error := 0x04 }
    else if cmd = 0x30 ∨ cmd = 0x31 then
      { d with dataBuffer := Array.replicate (count * 512) 0, error := 0 }
    else { d with error := 0x04 }
  { d with pendingCommand := cmd, dataIndex := 0, busy := false, status := 0x40 }

def readData (d : Ide) : U16 × Ide :=
  if d.dataIndex + 1 < d.dataBuffer.size then
    (le16 (d.dataBuffer.getD d.dataIndex 0) (d.dataBuffer.getD (d.dataIndex + 1) 0),
      { d with dataIndex := d.dataIndex + 2 })
  else if d.dataIndex < d.dataBuffer.size then
    (u16 (d.dataBuffer.getD d.dataIndex 0), { d with dataIndex := d.dataIndex + 1 })
  else (0, d)

def writeData (d : Ide) (val : U16) : Ide :=
  if d.dataIndex + 1 < d.dataBuffer.size then
    { d with
      dataBuffer := (d.dataBuffer.setIfInBounds d.dataIndex (byteOf val 0)).setIfInBounds
        (d.dataIndex + 1) (byteOf val 1)
      dataIndex := d.dataIndex + 2 }
  else if d.dataIndex < d.dataBuffer.size then
    { d with
      dataBuffer := d.dataBuffer.setIfInBounds d.dataIndex (byteOf val 0)
      dataIndex := d.dataIndex + 1 }
  else d

def readStatus (d : Ide) : U8 := d.status

end Ide
end X86Emu
