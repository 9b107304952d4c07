import X86Emu.Operand

/-!
# BIOS services

The interrupt services of `bios.rs` that INT reaches in real mode: video, memory map, keyboard and
disk.
-/
namespace X86Emu

/-- The physical memory map of a machine with `ram` bytes: base, length and type of each entry. -/
def e820Map (ram : Nat) : List (Nat × Nat × U32) :=
  let low := min ram mmioHoleStart
  [(0x00000000, 0x0009FC00, 1), (0x0009FC00, 0x00000400, 2), (0x000A0000, 0x00060000, 2)] ++
  (if low > 0x00100000 then [(0x00100000, low - 0x00100000, 1)] else []) ++
  (if ram > mmioHoleStart then
    [(mmioHoleStart, highRamBase - mmioHoleStart, 2), (highRamBase, ram - mmioHoleStart, 1)]
  else [])

namespace Memory

def vgaTextCells : Nat := 0x4000

def putCharAt (m : Memory) (row col : Nat) (ch : U8) : Memory :=
  if row < textRows ∧ col < textCols then m.setCell (row * textCols + col) (0x0700 ||| u16 ch) else m

/-- Scroll the text window up one line. -/
def scroll (m : Memory) : Memory :=
  let last := textCols * (textRows - 1)
  { m with vgaText := fun i =>
      if last ≤ i ∧ i < textCols * textRows then 0x0720
      else if i + textCols < vgaTextCells then m.vgaText (i + textCols)
      else m.vgaText i }

end Memory

namespace Cpu

def setFlags (s : Cpu) (f : U32) (on : Bool) : Cpu := s.modifyFlags (setFlag f on)

/-! ## INT 0x10: video -/

/-- Write a character at the cursor and advance it, scrolling at the bottom. -/
def putChar (s : Cpu) (ch : U8) : Cpu :=
  let s := s.modifyMem (·.putCharAt s.vga.cursorRow.toNat s.vga.cursorCol.toNat ch)
  let col := s.vga.cursorCol + 1
  if col.toNat ≥ textCols then
    let row := s.vga.cursorRow + 1
    if row.toNat ≥ textRows then
      { s.modifyMem (·.scroll) with vga := { s.vga with cursorCol := 0, cursorRow := 24 } }
    else { s with vga := { s.vga with cursorCol := 0, cursorRow := row } }
  else { s with vga := { s.vga with cursorCol := col } }

/-- Write `n` characters of a string in memory from a screen position on. -/
def putString (base : U64) (row col : Nat) (n : Nat) (s : Cpu) : Cpu :=
  (List.range n).foldl
    (fun s i => s.modifyMem (·.putCharAt row (col + i) (s.mem.readU8 (base + BitVec.ofNat 64 i)))) s

def video (s : Cpu) : Cpu :=
  if s.reg8 .ah = 0x00 then { s with vga := s.vga.setMode (s.reg8 .al) }
  else if s.reg8 .ah = 0x02 then
    { s with vga := { s.vga with cursorRow := s.reg8 .dh, cursorCol := s.reg8 .dl } }
  else if s.reg8 .ah = 0x03 then (s.setReg8 .dh s.vga.cursorRow).setReg8 .dl s.vga.cursorCol
  else if s.reg8 .ah = 0x0E then s.putChar (s.reg8 .al)
  else if s.reg8 .ah = 0x13 then
    putString (Memory.phys s.es s.bp) (s.reg8 .dh).toNat (s.reg8 .dl).toNat s.cx.toNat s
  else s

/-! ## INT 0x15: memory map -/

def e820 (s : Cpu) : Cpu :=
  if s.eax ≠ 0x0000E820 ∨ s.edx ≠ 0x534D4150 then s.setFlags Flags.cf true
  else
    let entries := e820Map s.mem.ramSize
    let cont := s.ebx.toNat
    match entries[cont]? with
    | none => s.setFlags Flags.cf true
    | some (base, len, typ) =>
      let buf := Memory.phys s.es s.di
      let s := s.modifyMem (·.writeU64 buf (BitVec.ofNat 64 base))
      let s := s.modifyMem (·.writeU64 (buf + 8) (BitVec.ofNat 64 len))
      let s := s.modifyMem (·.writeU32 (buf + 16) typ)
      let s := s.setEbx (if cont + 1 < entries.length then BitVec.ofNat 32 (cont + 1) else 0)
      ((s.setEax 0x0000E820).setEcx 20).setFlags Flags.cf false

/-- Set a 16-bit register, whatever is pending. -/
def setReg16Raw (s : Cpu) (r : Reg16) (v : U16) : Cpu := s.setRegWRaw r.idx .w16 (u64 v)

def e801 (s : Cpu) : Cpu :=
  let above16m := min s.mem.ramSize mmioHoleStart - 2 ^ 24
  let units := BitVec.ofNat 16 (min (above16m / 2 ^ 16) 0xFFFF)
  let s := (s.setReg16Raw .ax (15 * 1024)).setReg16Raw .cx (15 * 1024)
  (s.setReg16Raw .bx units).setReg16Raw .dx units

def mem88 (s : Cpu) : Cpu :=
  s.setReg16Raw .ax (BitVec.ofNat 16 (min ((s.mem.ramSize - 0x100000) / 1024) 0xFFFF))

def memoryMap (s : Cpu) : Cpu :=
  if s.reg8 .ah = 0xE8 then if s.reg8 .al = 0x20 then s.e820 else s.e801
  else if s.reg8 .ah = 0x88 then s.mem88
  else s.setFlags Flags.cf true

/-! ## INT 0x16: keyboard -/

def keyboard (s : Cpu) : Cpu :=
  if s.reg8 .ah = 0x00 then
    match s.bios.keyBuffer with
    | (ascii, scancode) :: rest =>
      ({ s with bios := { keyBuffer := rest } }.setReg8 .al ascii).setReg8 .ah scancode
    | [] => (s.setReg8 .al 0).setReg8 .ah 0
  else if s.reg8 .ah = 0x01 then s.setFlags Flags.zf s.bios.keyBuffer.isEmpty
  else s

/-! ## INT 0x13: disk -/

/-- The byte offset into the disk image of a CHS address: 2 heads, 18 sectors a track. -/
def chsOffset (s : Cpu) : U64 :=
  ((u64 (s.reg8 .ch) * 2 + u64 (s.reg8 .dh)) * 18 + (u64 (s.reg8 .cl) - 1)) * 512

/-- Copy `n` bytes of the disk image to memory. A wrapped offset indexes past the image: the host
program aborts. -/
def readSectors (buf lba : U64) (n : Nat) (s : Cpu) : Cpu :=
  if n ≠ 0 ∧ lba.toNat + n > s.ide.disk.size then { s with panicked := true }
  else
    s.modifyMem fun m => (List.range n).foldl
      (fun m i => m.writeU8 (buf + BitVec.ofNat 64 i) (s.ide.disk.getD (lba.toNat + i) 0)) m

def writeSectors (buf lba : U64) (n : Nat) (s : Cpu) : Cpu :=
  if n ≠ 0 ∧ lba.toNat + n > s.ide.disk.size then { s with panicked := true }
  else
    let put (d : Array U8) (i : Nat) : Array U8 :=
      d.setIfInBounds (lba.toNat + i) (s.mem.readU8 (buf + BitVec.ofNat 64 i))
    { s with ide := { s.ide with disk := (List.range n).foldl put s.ide.disk } }

def disk (s : Cpu) : Cpu :=
  let n := (s.reg8 .al).toNat * 512
  let lba := s.chsOffset
  let buf := Memory.phys s.es s.bx
  let fits := s.ide.present && (lba + BitVec.ofNat 64 n).toNat ≤ s.ide.disk.size
  if s.reg8 .ah = 0x00 then s.setFlags Flags.cf false
  else if s.reg8 .ah = 0x02 then
    if fits then (readSectors buf lba n s).setFlags Flags.cf false else s.setFlags Flags.cf true
  else if s.reg8 .ah = 0x03 then
    if fits then (writeSectors buf lba n s).setFlags Flags.cf false else s.setFlags Flags.cf true
  else s

/-- Handle an interrupt; `none` when the vector is not a BIOS service. -/
def biosHandle (s : Cpu) (vector : U8) : Option Cpu :=
  if vector = 0x10 then some s.video
  else if vector = 0x15 then some s.memoryMap
  else if vector = 0x16 then some s.keyboard
  else if vector = 0x13 then some s.disk
  else none

end Cpu
end X86Emu
