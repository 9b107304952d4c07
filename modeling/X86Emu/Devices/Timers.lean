import X86Emu.Word

/-!
# Timers

The 8254 interval timer of `pit.rs` and the MC146818 clock of `cmos.rs`.
-/
namespace X86Emu

/-- The registers of one PIT channel that the data port reaches. -/
structure PitChannel where
  count : U16 := 0
  reload : U16 := 0
  mode : U8 := 3
  access : U8 := 3
  lsbPending : Bool := false
  lsb : U8 := 0
  deriving DecidableEq, Repr

namespace PitChannel

/-- Load the reload value and the count with it. -/
def load (c : PitChannel) (v : U16) : PitChannel := { c with reload := v, count := v }

/-- A data byte written to a channel, and whether it completed a new count. -/
def write (c : PitChannel) (val : U8) : PitChannel × Bool :=
  if c.access = 1 then (c.load (c.reload &&& 0xFF00 ||| u16 val), true)
  else if c.access = 2 then (c.load (c.reload &&& (0x00FF : U16) ||| u16 val <<< 8), true)
  else if c.lsbPending then
    ({ c.load (u16 c.lsb ||| u16 val <<< 8) with lsbPending := false }, true)
  else ({ c with lsb := val, lsbPending := true }, false)

/-- A data byte read from a channel. -/
def read (c : PitChannel) : U8 × PitChannel :=
  if c.access = 1 then (u8 c.count, c)
  else if c.access = 2 then (u8 (c.count >>> 8), c)
  else if !c.lsbPending then (u8 c.count, { c with lsb := u8 c.count, lsbPending := true })
  else (u8 (c.count >>> 8), { c with lsbPending := false })

end PitChannel

structure Pit where
  ch0 : PitChannel := {}
  ch0Bcd : Bool := false
  ch1 : PitChannel := {}
  ch2 : PitChannel := {}
  /-- Channel 2's gate input and output line. -/
  ch2Gate : Bool := false
  ch2Out : Bool := false
  speakerOn : Bool := false
  refreshToggle : Bool := false
  irq0 : Bool := false
  activeChannel : U8 := 0
  activeAccess : U8 := 3
  activeMode : U8 := 3
  activeBcd : Bool := false
  deriving DecidableEq, Repr

namespace Pit

def writeControl (p : Pit) (val : U8) : Pit :=
  let channel := (val >>> 6) &&& 3
  let access := (val >>> 4) &&& 3
  let mode := (val >>> 1) &&& 7
  let bcd := val &&& 1 == 1
  if channel = 3 then p
  else
    let p := { p with
      activeChannel := channel, activeAccess := access, activeMode := mode, activeBcd := bcd }
    if channel = 0 then { p with ch0 := { p.ch0 with mode, access }, ch0Bcd := bcd }
    else if channel = 1 then { p with ch1 := { p.ch1 with mode, access } }
    else { p with ch2 := { p.ch2 with mode, access } }

/-- A data byte goes to the active channel, whichever of the three data ports carried it. -/
def writeData (p : Pit) (val : U8) : Pit :=
  if p.activeChannel = 0 then { p with ch0 := (p.ch0.write val).1 }
  else if p.activeChannel = 1 then { p with ch1 := (p.ch1.write val).1 }
  else
    { p with
      ch2 := (p.ch2.write val).1
      -- Loading a new count restarts the countdown with OUT low.
      ch2Out := if (p.ch2.write val).2 then false else p.ch2Out }

def readPort61 (p : Pit) : U8 × Pit :=
  let p := { p with refreshToggle := !p.refreshToggle }
  (bit p.ch2Gate ||| bit p.speakerOn <<< 1 ||| bit p.refreshToggle <<< 4 ||| bit p.ch2Out <<< 5, p)

def writePort61 (p : Pit) (val : U8) : Pit :=
  { p with ch2Gate := test val 1, speakerOn := test val 2 }

def readData (p : Pit) (port : U8) : U8 × Pit :=
  if port = 0 then (p.ch0.read.1, { p with ch0 := p.ch0.read.2 })
  else if port = 1 then (p.ch1.read.1, { p with ch1 := p.ch1.read.2 })
  else (p.ch2.read.1, { p with ch2 := p.ch2.read.2 })

def tick (p : Pit) (cycles : U64) : Pit :=
  let p :=
    if p.ch0.count > 0 then
      if u64 p.ch0.count ≤ cycles then
        { p with ch0 := { p.ch0 with count := p.ch0.reload }, irq0 := true }
      else { p with ch0 := { p.ch0 with count := u16 (u64 p.ch0.count - cycles) } }
    else p
  let p :=
    if p.ch1.count > 0 then
      let c := if p.ch1.count ≤ u16 cycles then 0 else p.ch1.count - u16 cycles
      { p with ch1 := { p.ch1 with count := if c = 0 then p.ch1.reload else c } }
    else p
  if p.ch2Gate && !p.ch2Out then
    if u64 p.ch2.count ≤ cycles then
      { p with ch2 := { p.ch2 with count := 0 }, ch2Out := true }
    else { p with ch2 := { p.ch2 with count := u16 (u64 p.ch2.count - cycles) } }
  else p

end Pit

/-! ## The real-time clock -/

structure Cmos where
  index : U8 := 0
  ram : U8 → U8
  epochSecs : U64
  elapsedSecs : U64 := 0
  nmiDisabled : Bool := false

namespace Cmos

def seconds : U8 := 0x00
def minutes : U8 := 0x02
def hours : U8 := 0x04
def weekday : U8 := 0x06
def day : U8 := 0x07
def month : U8 := 0x08
def year : U8 := 0x09
def statusA : U8 := 0x0A
def statusB : U8 := 0x0B
def statusC : U8 := 0x0C
def statusD : U8 := 0x0D
def century : U8 := 0x32
def sb24Hour : U8 := 0x02
def sbBinary : U8 := 0x04

/-- The clock at reset, `epochSecs` seconds after 1970. -/
def new (epochSecs : U64) : Cmos where
  ram i := if i = statusB then sb24Hour else if i = statusD then 0x80 else if i = 0x14 then 0x21
    else 0
  epochSecs := epochSecs

/-- The civil date of a day number counted from 1970-01-01, in 64-bit arithmetic; the day number,
the era and the year are signed. -/
def civilFromDays (days : U64) : U64 × U32 × U32 :=
  let z := days + 719468
  let era := (if z.slt 0 then z - 146096 else z).sdiv 146097
  let doe := z - era * 146097
  let yoe := (doe - doe / 1460 + doe / 36524 - doe / 146096) / 365
  let y := yoe + era * 400
  let doy := doe - (365 * yoe + yoe / 4 - yoe / 100)
  let mp := (5 * doy + 2) / 153
  let d := u32 (doy - (153 * mp + 2) / 5 + 1)
  let m := u32 (if mp < 10 then mp + 3 else mp - 9)
  (if m ≤ 2 then y + 1 else y, m, d)

/-- Binary to packed BCD. -/
def toBcd (v : U32) : U8 := u8 ((v / 10) <<< 4 ||| v % 10)

def tickSecond (c : Cmos) : Cmos := { c with elapsedSecs := c.elapsedSecs + 1 }

def writeIndex (c : Cmos) (val : U8) : Cmos :=
  { c with nmiDisabled := test val 0x80, index := val &&& 0x7F }

/-- Year, month, day, hour, minute, second and weekday, 0 for Sunday. -/
def civilTime (c : Cmos) : U32 × U32 × U32 × U32 × U32 × U32 × U32 :=
  let t := c.epochSecs + c.elapsedSecs
  let days := t / 86400
  let rem := u32 (t % 86400)
  let (y, mo, d) := civilFromDays days
  let wd := u32 ((days + 4).srem 7)
  (u32 y, mo, d, rem / 3600, rem % 3600 / 60, rem % 60, wd)

def readData (c : Cmos) : U8 × Cmos :=
  let (y, mo, d, h, mi, s, wd) := c.civilTime
  let enc (v : U32) : U8 := if test (c.ram statusB) sbBinary then u8 v else toBcd v
  if c.index = seconds then (enc s, c)
  else if c.index = minutes then (enc mi, c)
  else if c.index = hours then (enc h, c)
  else if c.index = weekday then (enc (wd + 1), c)
  else if c.index = day then (enc d, c)
  else if c.index = month then (enc mo, c)
  else if c.index = year then (enc (y % 100), c)
  else if c.index = century then (enc (y / 100), c)
  else if c.index = statusA then (c.ram statusA &&& 0x7F, c)
  else if c.index = statusC then
    (c.ram statusC, { c with ram := fun i => if i = statusC then 0 else c.ram i })
  else (c.ram (c.index &&& 0x7F), c)

def writeData (c : Cmos) (val : U8) : Cmos :=
  if c.index ∈ [seconds, minutes, hours, weekday, day, month, year, century] then c
  else { c with ram := fun i => if i = c.index &&& 0x7F then val else c.ram i }

end Cmos
end X86Emu
