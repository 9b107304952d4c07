import X86Emu.Operand

/-!
# Port I/O

The port dispatch of `cpu.rs`: which device register each byte, word and doubleword access reaches.
-/
namespace X86Emu

/-- Offset into the virtio register window, when `port` falls inside the assigned I/O range. -/
def Cpu.virtioPort (s : Cpu) (port : U16) : Option U16 :=
  match s.pci.virtioIoBase with
  | none => none
  | some base =>
    if port ≥ base ∧ port < base + 64 then some (port - base) else none

def virtioRead (off : U16) (size : Nat) : Exec U32 := fun s =>
  ((s.virtio.read off size).1, { s with virtio := (s.virtio.read off size).2 })

def virtioWrite (off : U16) (val : U32) : Exec Unit := fun s =>
  ((), { s with virtio := (s.virtio.write off val s.mem).1, mem := (s.virtio.write off val s.mem).2 })

/-- A PCI configuration data port: its lane. -/
def pciLane (port : U16) : Option Nat :=
  if 0xCFC ≤ port ∧ port ≤ 0xCFF then some (port - 0xCFC).toNat else none

/-- The fixed byte ports: everything but virtio and PCI configuration. -/
def deviceIn (port : U16) : Exec U8 := fun s =>
  if port = 0x20 then (s.pic.readCommand 0x20, s)
  else if port = 0x21 then (s.pic.readData 0x21, s)
  else if port = 0xA0 then (s.pic.readCommand 0xA0, s)
  else if port = 0xA1 then (s.pic.readData 0xA1, s)
  else if port = 0x40 ∨ port = 0x41 ∨ port = 0x42 then
    let r := s.pit.readData (u8 (port - 0x40))
    (r.1, { s with pit := r.2 })
  else if port = 0x60 then (s.kbd.readData.1, { s with kbd := s.kbd.readData.2 })
  else if port = 0x64 then (s.kbd.readStatus, s)
  else if port = 0x08 then (s.dma.status, s)
  else if port = 0x71 then (s.cmos.readData.1, { s with cmos := s.cmos.readData.2 })
  else if port = 0x1F1 then (s.ide.error, s)
  else if port = 0x1F7 ∨ port = 0x3F6 then (s.ide.readStatus, s)
  else if port = 0x3D4 then (s.vga.crtcIndex, s)
  else if port = 0x3D5 then (s.vga.readCrtcData, s)
  else if port = 0x3DA then
    (if !s.vgaRetrace then 0x09 else 0x00, { s with vgaRetrace := !s.vgaRetrace })
  else if port = 0x61 then (s.pit.readPort61.1, { s with pit := s.pit.readPort61.2 })
  else (0xFF, s)

/-- Read a byte from an I/O port. -/
def portIn (port : U16) : Exec U8 := do
  let s ← get
  match s.virtioPort port with
  | some off => return u8 (← virtioRead off 1)
  | none =>
    match pciLane port with
    | some lane => pure (u8 (s.pci.readData lane 1))
    | none => deviceIn port

/-- Read a 16-bit value: two byte reads, except from the IDE registers. -/
def portIn16 (port : U16) : Exec U16 := do
  let s ← get
  match s.virtioPort port with
  | some off => return u16 (← virtioRead off 2)
  | none =>
    match pciLane port with
    | some lane => pure (u16 (s.pci.readData lane 2))
    | none =>
      if port = 0x1F0 then
        modifyGet fun s => (s.ide.readData.1, { s with ide := s.ide.readData.2 })
      else if port = 0x1F1 then pure (u16 s.ide.error)
      else if port = 0x1F7 ∨ port = 0x3F6 then pure (u16 s.ide.readStatus)
      else
        let lo ← portIn port
        let hi ← portIn (port + 1)
        pure (le16 lo hi)

/-- Read a doubleword: two 16-bit accesses, low half first. -/
def portIn32 (port : U16) : Exec U32 := do
  let s ← get
  match s.virtioPort port with
  | some off => virtioRead off 4
  | none =>
    if port = 0xCF8 then pure s.pci.address
    else
      match pciLane port with
      | some lane => pure (s.pci.readData lane 4)
      | none =>
        let lo ← portIn16 port
        let hi ← portIn16 (port + 2)
        pure (hi ++ lo)

/-- The fixed byte ports on the way out. -/
def deviceOut (port : U16) (val : U8) (s : Cpu) : Cpu :=
  if port = 0x20 then { s with pic := s.pic.writeCommand 0x20 val }
  else if port = 0x21 then { s with pic := s.pic.writeData 0x21 val }
  else if port = 0xA0 then { s with pic := s.pic.writeCommand 0xA0 val }
  else if port = 0xA1 then { s with pic := s.pic.writeData 0xA1 val }
  else if port = 0x40 ∨ port = 0x41 ∨ port = 0x42 then { s with pit := s.pit.writeData val }
  else if port = 0x43 then { s with pit := s.pit.writeControl val }
  else if port = 0x60 then { s with kbd := s.kbd.writeData val }
  else if port = 0x64 then { s with kbd := s.kbd.writeCommand val }
  else if port = 0x08 then { s with dma := s.dma.writeCommand 0x08 val }
  else if port = 0x0A then { s with dma := s.dma.writeCommand 0x0A val }
  else if 0x81 ≤ port ∧ port ≤ 0x8F then { s with dma := s.dma.writePage (u8 port) val }
  else if port = 0x61 then { s with pit := s.pit.writePort61 val }
  else if 0x1F1 ≤ port ∧ port ≤ 0x1F6 then { s with ide := s.ide.writeReg port val }
  else if port = 0x1F7 then { s with ide := s.ide.writeCommand val }
  else if port = 0x3D4 then { s with vga := s.vga.writeCrtcIndex val }
  else if port = 0x3D5 then { s with vga := s.vga.writeCrtcData val }
  else if port = 0x70 then { s with cmos := s.cmos.writeIndex val }
  else if port = 0x71 then { s with cmos := s.cmos.writeData val }
  else s

def pciWrite (lane size : Nat) (val : U32) (s : Cpu) : Cpu :=
  { s with pci := s.pci.writeData lane size val }

/-- Write a byte to an I/O port. -/
def portOut (port : U16) (val : U8) : Exec Unit := do
  match (← get).virtioPort port with
  | some off => virtioWrite off (u32 val)
  | none =>
    match pciLane port with
    | some lane => modify (pciWrite lane 1 (u32 val))
    | none => modify (deviceOut port val)

/-- Write a 16-bit value: two byte writes, except to the IDE registers. -/
def portOut16 (port val : U16) : Exec Unit := do
  match (← get).virtioPort port with
  | some off => virtioWrite off (u32 val)
  | none =>
    match pciLane port with
    | some lane => modify (pciWrite lane 2 (u32 val))
    | none =>
      if port = 0x1F0 then modify fun s => { s with ide := s.ide.writeData val }
      else if 0x1F1 ≤ port ∧ port ≤ 0x1F6 then
        modify fun s => { s with ide := s.ide.writeReg port (byteOf val 0) }
      else if port = 0x1F7 then
        modify fun s => { s with ide := s.ide.writeCommand (byteOf val 0) }
      else if port = 0x3F6 then pure ()
      else
        portOut port (byteOf val 0)
        portOut (port + 1) (byteOf val 1)

/-- Write a doubleword to an I/O port. -/
def portOut32 (port : U16) (val : U32) : Exec Unit := do
  match (← get).virtioPort port with
  | some off => virtioWrite off val
  | none =>
    if port = 0xCF8 then modify fun s => { s with pci := { s.pci with address := val } }
    else
      match pciLane port with
      | some lane => modify (pciWrite lane 4 val)
      | none =>
        portOut16 port (u16 val)
        portOut16 (port + 2) (u16 (val >>> 16))

end X86Emu
