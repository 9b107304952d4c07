import X86Emu.Boot
import X86Emu.Bios

/-!
# Kernel images

The loaders of `boot.rs`: a bzImage and a 32-bit ELF entered in protected mode, a 64-bit ELF and a
flat binary entered in long mode. Arithmetic wraps, as in the release build; an index past the end
of an image panics. The host program ends when a loader fails, so what a failed load leaves in
memory is left out.
-/
namespace X86Emu

def Cpu.setEsi (s : Cpu) (v : U32) : Cpu := s.setReg 6 (u64 v)
def Cpu.setReg64Raw (s : Cpu) (i : U8) (v : U64) : Cpu := s.setReg (Cpu.regIdx i) v

namespace Boot

/-- Physical address of the boot_params structure. -/
def bootParamsAddr : U32 := 0x90000
/-- Physical address of the flat GDT. -/
def gdtAddr : U32 := 0x1000
/-- Physical address of the command line. -/
def cmdlineAddr : U32 := 0x20000
def kernelCs : U16 := 0x08
def kernelDs : U16 := 0x10

/-! ## Offsets of the setup header, from the start of the boot sector -/

def setupSects : U64 := 0x1F1
def sysSize : U64 := 0x1F4
def bootFlag : U64 := 0x1FE
def hdrMagic : U64 := 0x202
def typeOfLoader : U64 := 0x210
def loadFlags : U64 := 0x211
def code32Start : U64 := 0x214
def ramdiskImage : U64 := 0x218
def ramdiskSize : U64 := 0x21C
def cmdLinePtr : U64 := 0x228
def kernelAlignment : U64 := 0x22E
def relocatable : U64 := 0x232
def prefAddress : U64 := 0x250
def initSize : U64 := 0x258

/-! ## Offsets within boot_params -/

def bpOrigX : U64 := 0x00
def bpOrigY : U64 := 0x01
def bpOrigVideoPage : U64 := 0x04
def bpOrigVideoMode : U64 := 0x06
def bpOrigVideoCols : U64 := 0x07
def bpOrigVideoEgaBx : U64 := 0x0A
def bpOrigVideoLines : U64 := 0x0E
def bpOrigVideoIsvga : U64 := 0x0F
def bpOrigVideoPoints : U64 := 0x10
/-- A colour VGA text console. -/
def videoTypeVgac : U8 := 0x22
def videoModeColorText : U8 := 0x03
def bpHdr : U64 := 0x1F1
def bpAltMemK : U64 := 0x1E0
def bpE820Entries : U64 := 0x1E8
def bpE820Table : U64 := 0x2D0

/-! ## Slices of the host program -/

/-- Bytes of the host program: an image, a command line or a ramdisk. -/
structure Slice where
  bytes : Array U8
  size_lt : bytes.size < 2 ^ 63

/-- How a loader stops short: with an error, or at an index past the end of its image. -/
inductive Stop
  | refused (why : String)
  | panicked
  deriving DecidableEq

abbrev Load := Except Stop

namespace Slice

def size (b : Slice) : Nat := b.bytes.size
def len (b : Slice) : U64 := BitVec.ofNat 64 b.size
def at? (b : Slice) (off : U64) : Option U8 := b.bytes[off.toNat]?

def byte (b : Slice) (off : U64) : Load U8 :=
  match b.at? off with
  | some v => .ok v
  | none => .error .panicked

def le16 (b : Slice) (off : U64) : Load U16 :=
  return X86Emu.le16 (← b.byte off) (← b.byte (off + 1))

def le32 (b : Slice) (off : U64) : Load U32 :=
  return X86Emu.le32 (← b.byte off) (← b.byte (off + 1)) (← b.byte (off + 2)) (← b.byte (off + 3))

def le64 (b : Slice) (off : U64) : Load U64 :=
  return X86Emu.le64 (← b.le32 off) (← b.le32 (off + 4))

/-- The slice starts with the ELF magic. -/
def isElf (b : Slice) : Bool :=
  b.at? 0 == some 0x7F && b.at? 1 == some 0x45 && b.at? 2 == some 0x4C && b.at? 3 == some 0x46

end Slice

/-- Copy `n` bytes of an image, from an offset on, to memory. -/
def copyIn (image : Slice) (offset base n : U64) (mem : Memory) : Load Memory :=
  (List.range n.toNat).foldlM (fun m j => do
    return m.writeU8 (base + BitVec.ofNat 64 j) (← image.byte (offset + BitVec.ofNat 64 j))) mem

/-- Clear bytes `first` to `last` from a base address on. -/
def clear (base first last : U64) (mem : Memory) : Memory :=
  (List.range (last.toNat - first.toNat)).foldl
    (fun m j => m.writeU8 (base + (first + BitVec.ofNat 64 j)) 0) mem

/-- A whole slice at an address. -/
def place (b : Slice) (base : U64) (mem : Memory) : Memory :=
  (List.range b.size).foldl
    (fun m i => m.writeU8 (base + BitVec.ofNat 64 i) (b.bytes.getD i 0)) mem

/-! ## What every kernel is handed -/

/-- The null descriptor, the flat code segment and the flat data segment. -/
def writeGdt (mem : Memory) : Memory :=
  ((mem.writeU64 (u64 gdtAddr) 0).writeU64 (u64 gdtAddr + 8) 0x00CF9A000000FFFF).writeU64
    (u64 gdtAddr + 16) 0x00CF92000000FFFF

/-- Describe the VGA text console: mode 3, 80x25, colour. -/
def writeScreenInfo (mem : Memory) : Memory :=
  let bp := u64 bootParamsAddr
  let mem := mem.writeU8 (bp + bpOrigX) 0
  let mem := mem.writeU8 (bp + bpOrigY) 0
  let mem := mem.writeU16 (bp + bpOrigVideoPage) 0
  let mem := mem.writeU8 (bp + bpOrigVideoMode) videoModeColorText
  let mem := mem.writeU8 (bp + bpOrigVideoCols) (BitVec.ofNat 8 textCols)
  let mem := mem.writeU16 (bp + bpOrigVideoEgaBx) 3
  let mem := mem.writeU8 (bp + bpOrigVideoLines) (BitVec.ofNat 8 textRows)
  let mem := mem.writeU8 (bp + bpOrigVideoIsvga) videoTypeVgac
  mem.writeU16 (bp + bpOrigVideoPoints) 16

/-- One entry of the table: base, length and type. -/
def writeE820Entry (e : U64) (entry : Nat × Nat × U32) (mem : Memory) : Memory :=
  ((mem.writeU64 e (BitVec.ofNat 64 entry.1)).writeU64 (e + 8)
    (BitVec.ofNat 64 entry.2.1)).writeU32 (e + 16) entry.2.2

/-- Where entry `i` of the table stands. -/
def e820Slot (i : Nat) : U64 := u64 bootParamsAddr + bpE820Table + BitVec.ofNat 64 i * 20

/-- The machine's own memory map, and the older count of extended memory. -/
def writeE820 (mem : Memory) : Memory :=
  let entries := e820Map mem.ramSize
  let low := min mem.ramSize mmioHoleStart
  let extKb := (low - 0x100000) / 1024
  let mem := entries.zipIdx.foldl (fun m e => writeE820Entry (e820Slot e.2) e.1 m) mem
  let mem := mem.writeU8 (u64 bootParamsAddr + bpE820Entries) (BitVec.ofNat 8 entries.length)
  mem.writeU32 (u64 bootParamsAddr + bpAltMemK) (BitVec.ofNat 32 extKb)

/-- How much of a command line is kept. -/
def cmdlineLen (cmdline : Slice) : Nat := min cmdline.size 1023

/-- The command line, ended by a zero byte. -/
def writeCmdline (cmdline : Slice) (mem : Memory) : Memory :=
  let mem := (List.range (cmdlineLen cmdline)).foldl
    (fun m i => m.writeU8 (u64 cmdlineAddr + BitVec.ofNat 64 i) (cmdline.bytes.getD i 0)) mem
  mem.writeU8 (u64 cmdlineAddr + BitVec.ofNat 64 (cmdlineLen cmdline)) 0

/-- Where a field of the setup header stands in boot_params. -/
def hdrField (field : U64) : U64 := u64 bootParamsAddr + bpHdr + (field - setupSects)

/-- Where a ramdisk goes: as high in low memory as it fits. -/
def ramdiskAddr (mem : Memory) (rd : Slice) : U32 :=
  u32 ((BitVec.ofNat 64 (min mem.ramSize mmioHoleStart) - rd.len) &&& ~~~0xFFF)

/-- Place the ramdisk, and record it in the setup header. -/
def placeRamdisk (initrd : Option Slice) (mem : Memory) : Memory :=
  match initrd with
  | none => mem
  | some rd =>
    let addr := ramdiskAddr mem rd
    let mem := place rd (u64 addr) mem
    let mem := mem.writeU32 (hdrField ramdiskImage) addr
    mem.writeU32 (hdrField ramdiskSize) (u32 rd.len)

/-- The pointer to the command line and the loader's type. -/
def writeLoaderFields (mem : Memory) : Memory :=
  (mem.writeU32 (hdrField cmdLinePtr) cmdlineAddr).writeU8 (hdrField typeOfLoader) 0xFF

/-! ## 64-bit images -/

/-- What a loader reads of a program header. -/
structure ProgramHeader where
  type : U32
  offset : U64
  paddr : U64
  filesz : U64
  memsz : U64
  deriving DecidableEq

/-- Copy the file's bytes of a segment and clear the rest of it. -/
def loadSegment (elf : Slice) (ph : ProgramHeader) (mem : Memory) : Load Memory := do
  let mem ← copyIn elf ph.offset ph.paddr ph.filesz mem
  return clear ph.paddr ph.filesz ph.memsz mem

def readHeader64 (elf : Slice) (off : U64) : Load ProgramHeader :=
  return {
    type := ← elf.le32 off
    offset := ← elf.le64 (off + 8)
    paddr := ← elf.le64 (off + 24)
    filesz := ← elf.le64 (off + 32)
    memsz := ← elf.le64 (off + 40) }

/-- One program header of a 64-bit image, with the end of the segments so far. -/
def loadHeader64 (elf : Slice) (off : U64) (mem : Memory) (top : U64) : Load (Memory × U64) := do
  if off + 56 > elf.len then
    throw (.refused "program header table runs past the end of the file")
  let ph ← readHeader64 elf off
  if ph.type ≠ 1 then return (mem, top)
  if ph.offset + ph.filesz > elf.len then
    throw (.refused "PT_LOAD segment runs past the end of the file")
  let mem ← loadSegment elf ph mem
  return (mem, if ph.paddr + ph.memsz ≥ top then ph.paddr + ph.memsz else top)

/-- Every program header of a 64-bit image. -/
def loadHeaders64 (elf : Slice) (phoff : U64) (phentsize phnum : U16) (mem : Memory) :
    Load (Memory × U64) :=
  (List.range phnum.toNat).foldlM
    (fun p i => loadHeader64 elf (phoff + BitVec.ofNat 64 i * u64 phentsize) p.1 p.2) (mem, 0)

/-- The page-aligned stack above an image that ends at `top`. -/
def stackAbove (top : U64) : U64 :=
  let above := ((if top ≥ 0x100000 then top else 0x100000) + 0x100000) &&& ~~~0xFFF
  if above ≤ identityMapBytes - 0x1000 then above else identityMapBytes - 0x1000

/-- The boot structures of a 64-bit kernel. -/
def bootStructures64 (cmdline : Slice) (initrd : Option Slice) (mem : Memory) : Memory :=
  placeRamdisk initrd (writeLoaderFields (writeCmdline cmdline (writeE820 (writeScreenInfo mem))))

/-- Load a 64-bit ELF kernel and enter it in long mode. -/
def loadElf64Kernel (elf cmdline : Slice) (initrd : Option Slice) (s : Cpu) : Load (U64 × Cpu) := do
  if elf.size < 64 ∨ elf.isElf = false then throw (.refused "not an ELF file")
  if (← elf.byte 4) ≠ 2 then throw (.refused "not a 64-bit ELF (class is ELF32)")
  let entry ← elf.le64 24
  let phoff ← elf.le64 32
  let phentsize ← elf.le16 54
  let phnum ← elf.le16 56
  if phnum = 0 ∨ phentsize < 56 then throw (.refused "ELF has no program headers")
  let (mem, top) ← loadHeaders64 elf phoff phentsize phnum s.mem
  let s := { s with mem := bootStructures64 cmdline initrd mem }
  return (entry, (enterLongMode entry (stackAbove top) s).setReg64Raw 6 (u64 bootParamsAddr))

/-- Load a flat 64-bit binary and run it in long mode. -/
def loadFlat64 (code : Slice) (addr : U64) (s : Cpu) : Load (U64 × Cpu) :=
  let top := (addr + code.len + 0x10000) &&& ~~~0xFFF
  let stack := if top ≤ identityMapBytes - 0x1000 then top else identityMapBytes - 0x1000
  return (addr, enterLongMode addr stack { s with mem := place code addr s.mem })

/-! ## 32-bit images -/

def readHeader32 (elf : Slice) (off : U64) : Load ProgramHeader :=
  return {
    type := ← elf.le32 off
    offset := u64 (← elf.le32 (off + 4))
    paddr := u64 (← elf.le32 (off + 12))
    filesz := u64 (← elf.le32 (off + 16))
    memsz := u64 (← elf.le32 (off + 20)) }

/-- One program header of a 32-bit image. -/
def loadHeader32 (elf : Slice) (off : U64) (mem : Memory) : Load Memory := do
  let ph ← readHeader32 elf off
  if ph.type = 1 then loadSegment elf ph mem else return mem

/-- Protected mode on, with the flat segments of the GDT, a stack below boot_params and interrupts
off. -/
def enterProtectedMode (s : Cpu) : Cpu :=
  let s := { s with gdtBase := u64 gdtAddr, gdtLimit := 24, pe := true, cr0 := s.cr0 ||| 1 }
  let s := s.loadSeg .cs kernelCs
  let s := s.loadSeg .ds kernelDs
  let s := s.loadSeg .es kernelDs
  let s := s.loadSeg .ss kernelDs
  let s := s.loadSeg .fs kernelDs
  let s := s.loadSeg .gs kernelDs
  ((s.setEsp 0x8FFF0).setEsi bootParamsAddr).modifyFlags (setFlag Flags.if' false)

/-- The boot structures of a 32-bit kernel, then protected mode. -/
def setupProtectedModeInner (cmdline : Slice) (s : Cpu) : Cpu :=
  enterProtectedMode { s with
    mem := writeGdt (writeLoaderFields (writeCmdline cmdline (writeE820 (writeScreenInfo s.mem)))) }

def setupProtectedModeWithInitrd (cmdline : Slice) (initrd : Option Slice) (s : Cpu) : Cpu :=
  setupProtectedModeInner cmdline { s with mem := placeRamdisk initrd s.mem }

/-- Load a decompressed 32-bit ELF kernel and enter it in protected mode. -/
def loadElfKernelWithInitrd (elf cmdline : Slice) (initrd : Option Slice) (s : Cpu) :
    Load (U32 × Cpu) := do
  if elf.size < 52 ∨ elf.isElf = false then throw (.refused "not an ELF file")
  let entry ← elf.le32 24
  let phoff ← elf.le32 28
  let phentsize ← elf.le16 42
  let phnum ← elf.le16 44
  if phnum = 0 ∨ phentsize < 32 then throw (.refused "ELF has no program headers")
  let mem ← (List.range phnum.toNat).foldlM
    (fun m i => loadHeader32 elf (u64 phoff + BitVec.ofNat 64 i * u64 phentsize) m) s.mem
  let s := setupProtectedModeWithInitrd cmdline initrd { s with mem }
  return (entry, { s.setEip entry with halted := false })

/-! ## bzImages -/

/-- What `parse_bzimage` reads of the setup header. -/
structure KernelInfo where
  setupSects : Nat
  syssize : U32
  code32Start : U32
  loadflags : U8
  relocatable : Bool
  kernelAlignment : U32
  prefAddress : U64
  initSize : U32
  kernelOffset : Nat
  kernelLen : Nat

/-- A number in upper-case hexadecimal, of at least four digits. -/
def hex4 (v : U16) : String :=
  let digits := (Nat.toDigits 16 v.toNat).map Char.toUpper
  String.ofList (List.replicate (4 - digits.length) '0' ++ digits)

/-- Check a bzImage's flag, magic and size, and read its setup header. -/
def parseBzimage (image : Slice) : Load KernelInfo := do
  if image.size < 0x260 then
    throw (.refused "image too small to contain a setup header")
  let flag ← image.le16 bootFlag
  if flag ≠ 0xAA55 then
    throw (.refused ("bad boot flag 0x" ++ hex4 flag ++ " (not a bzImage?)"))
  let magic ← image.le32 hdrMagic
  if magic ≠ 0x53726448 then throw (.refused "bad setup header magic (not 'HdrS')")
  let setup := (← image.byte Boot.setupSects).toNat
  let syssize ← image.le32 sysSize
  let start ← image.le32 Boot.code32Start
  let flags ← image.byte loadFlags
  let reloc ← image.byte Boot.relocatable
  let alignment ← image.le32 Boot.kernelAlignment
  let pref ← image.le64 Boot.prefAddress
  let init ← image.le32 Boot.initSize
  let offset := (setup + 1) * 512
  let len := syssize.toNat * 16
  if image.size < offset + len then
    throw (.refused ("image too small for kernel (need " ++ toString len ++ " bytes at offset " ++
      toString offset ++ ", have " ++ toString image.size ++ ")"))
  return {
    setupSects := setup
    syssize := syssize
    code32Start := start
    loadflags := flags
    relocatable := reloc != 0
    kernelAlignment := alignment
    prefAddress := pref
    initSize := init
    kernelOffset := offset
    kernelLen := len }

/-- The setup header of an image, copied into boot_params. -/
def copySetupHeader (image : Slice) (mem : Memory) : Load Memory :=
  copyIn image setupSects (u64 bootParamsAddr + bpHdr) 0xEC mem

/-- The fields of the setup header a boot loader fills in. -/
def fixSetupHeader (start : U32) (mem : Memory) : Memory :=
  let mem := mem.writeU8 (hdrField typeOfLoader) 0xFF
  let mem := mem.writeU8 (hdrField loadFlags) (mem.readU8 (hdrField loadFlags) ||| 0x01)
  let mem := mem.writeU32 (hdrField code32Start) start
  mem.writeU32 (hdrField cmdLinePtr) cmdlineAddr

/-- Load a bzImage and enter its 32-bit kernel. -/
def loadKernel (image cmdline : Slice) (s : Cpu) : Load (KernelInfo × Cpu) := do
  let info ← parseBzimage image
  let mem ← copyIn image (BitVec.ofNat 64 info.kernelOffset) (u64 info.code32Start)
    (BitVec.ofNat 64 info.kernelLen) s.mem
  let mem ← copySetupHeader image mem
  let mem := writeGdt (writeE820 (writeCmdline cmdline (fixSetupHeader info.code32Start mem)))
  let s := enterProtectedMode { s with mem }
  return (info, { s.setEip info.code32Start with halted := false })

end Boot
end X86Emu
