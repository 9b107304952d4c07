import X86Emu.Word

/-!
# 8259 interrupt controllers

The cascaded pair of `pic.rs`: command and data writes, and the priority walk.
-/
namespace X86Emu

structure Pic where
  masterBase : U8 := 0x08
  masterImr : U8 := 0
  masterIrr : U8 := 0
  masterIsr : U8 := 0
  slaveBase : U8 := 0x70
  slaveImr : U8 := 0
  slaveIrr : U8 := 0
  slaveIsr : U8 := 0
  /-- Which master line the slave feeds. -/
  cascadeIrq : U8 := 2
  initialized : Bool := false
  icw2Pending : Bool := false
  icw2ForSlave : Bool := false
  masterReadIsr : Bool := false
  slaveReadIsr : Bool := false
  deriving DecidableEq, Repr

namespace Pic

/-- Index of the lowest set bit in a byte. -/
def lowestBit (v : U8) : Nat :=
  ((List.range 8).find? fun i => v.getLsbD i).getD 0

/-- Apply an OCW2 command to an in-service register. -/
def ocw2 (isr val : U8) : U8 :=
  if val >>> 5 = 1 ∨ val >>> 5 = 5 then
    if isr ≠ 0 then isr &&& ~~~((1 : U8) <<< lowestBit isr) else isr
  else if val >>> 5 = 3 ∨ val >>> 5 = 7 then isr &&& ~~~((1 : U8) <<< (val &&& 7).toNat)
  else isr

def writeCommand (p : Pic) (port val : U8) : Pic :=
  let slave := port == 0xA0
  if test val 0x10 then
    let p := { p with icw2Pending := true, icw2ForSlave := slave }
    if slave then { p with slaveIrr := 0, slaveIsr := 0 } else { p with masterIrr := 0, masterIsr := 0 }
  else if val &&& 0x18 = 0x00 then
    let p := if slave then { p with slaveIsr := ocw2 p.slaveIsr val }
      else { p with masterIsr := ocw2 p.masterIsr val }
    if slave && p.slaveIsr == 0 then
      { p with masterIsr := p.masterIsr &&& ~~~((1 : U8) <<< p.cascadeIrq.toNat) }
    else p
  else if val &&& 0x18 = 0x08 then
    if val &&& 3 = 3 ∨ val &&& 3 = 2 then
      if slave then { p with slaveReadIsr := val &&& 3 == 3 }
      else { p with masterReadIsr := val &&& 3 == 3 }
    else p
  else p

def writeData (p : Pic) (port val : U8) : Pic :=
  let slave := port == 0xA1
  if p.icw2Pending then
    let p := if slave then { p with slaveBase := val &&& 0xF8 }
      else { p with masterBase := val &&& 0xF8 }
    { p with icw2Pending := false, initialized := true }
  else if slave then { p with slaveImr := val } else { p with masterImr := val }

def readCommand (p : Pic) (port : U8) : U8 :=
  if port = 0xA0 then if p.slaveReadIsr then p.slaveIsr else p.slaveIrr
  else if p.masterReadIsr then p.masterIsr else p.masterIrr

def readData (p : Pic) (port : U8) : U8 :=
  if port = 0xA1 then p.slaveImr else p.masterImr

def raiseIrq (p : Pic) (irq : Nat) : Pic :=
  if irq < 8 then { p with masterIrr := p.masterIrr ||| (1 : U8) <<< irq }
  else { p with slaveIrr := p.slaveIrr ||| (1 : U8) <<< (irq - 8) }

/-- The outcome of a priority walk: blocked by an in-service bit, a deliverable line, or neither. -/
inductive Walk where
  | blocked
  | found (irq : Nat)
  | nothing
  deriving DecidableEq, Repr

/-- The slave's walk over lines `j ..`, most urgent first. -/
def slaveWalk (p : Pic) : List Nat → Walk
  | [] => .nothing
  | j :: js =>
    if p.slaveIsr.getLsbD j then .blocked
    else if (p.slaveIrr &&& ~~~p.slaveImr).getLsbD j then .found (8 + j)
    else slaveWalk p js

/-- The master's walk; the slave's lines sit at the cascade input. -/
def masterWalk (p : Pic) : List Nat → Walk
  | [] => .nothing
  | i :: is =>
    let b : U8 := (1 : U8) <<< i
    let cascade : U8 := (1 : U8) <<< p.cascadeIrq.toNat
    if test p.masterIsr b && b != cascade then .blocked
    else if b = cascade then
      match if test p.masterImr cascade then .nothing else slaveWalk p (List.range 8) with
      | .nothing => if test p.masterIsr b then .blocked else masterWalk p is
      | w => w
    else if test (p.masterIrr &&& ~~~p.masterImr) b then .found i
    else masterWalk p is

/-- The line the pair would deliver next. -/
def nextIrq (p : Pic) : Option Nat :=
  match masterWalk p (List.range 8) with
  | .found irq => some irq
  | _ => none

/-- Acknowledge an interrupt: the vector delivered, moved from requested to in service. -/
def acknowledge (p : Pic) : Option U8 × Pic :=
  match p.nextIrq with
  | none => (none, p)
  | some irq =>
    if irq ≥ 8 then
      let b : U8 := (1 : U8) <<< (irq - 8)
      (some (p.slaveBase + BitVec.ofNat 8 (irq - 8)),
        { p with
          slaveIrr := p.slaveIrr &&& ~~~b
          slaveIsr := p.slaveIsr ||| b
          masterIsr := p.masterIsr ||| (1 : U8) <<< p.cascadeIrq.toNat })
    else
      let b : U8 := (1 : U8) <<< irq
      (some (p.masterBase + BitVec.ofNat 8 irq),
        { p with masterIrr := p.masterIrr &&& ~~~b, masterIsr := p.masterIsr ||| b })

def hasPending (p : Pic) : Bool := p.nextIrq.isSome

end Pic
end X86Emu
