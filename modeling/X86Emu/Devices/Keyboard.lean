import X86Emu.Word

/-!
# 8042 keyboard controller

The controller of `kbd.rs`: one output queue shared by replies and scancodes, and the command byte.
-/
namespace X86Emu

structure Kbd where
  /-- Waiting bytes, each marked when it came from the auxiliary port. -/
  out : List (U8 × Bool) := []
  ctr : U8 := 0x65
  pending : Option U8 := none
  devPending : Option U8 := none
  irq1 : Bool := false
  cmdWritten : Bool := false
  scanning : Bool := true
  driverAttached : Bool := false
  deriving DecidableEq, Repr

namespace Kbd

def stObf : U8 := 0x01
def stSys : U8 := 0x04
def stCmd : U8 := 0x08
def stUnlocked : U8 := 0x10
def stAux : U8 := 0x20
def ctrKbdInt : U8 := 0x01
def ctrSys : U8 := 0x04
def ctrKbdDisable : U8 := 0x10
def ctrAuxDisable : U8 := 0x20
def ack : U8 := 0xFA

def frontIs (k : Kbd) (aux : Bool) : Bool :=
  match k.out with
  | (_, a) :: _ => a == aux
  | [] => false

def refreshIrq (k : Kbd) : Kbd :=
  { k with irq1 := k.frontIs false && test k.ctr ctrKbdInt }

def reply (k : Kbd) (byte : U8) : Kbd :=
  { k with out := k.out ++ [(byte, false)] }.refreshIrq

def replyAux (k : Kbd) (byte : U8) : Kbd :=
  { k with out := k.out ++ [(byte, true)] }.refreshIrq

def pushScancode (k : Kbd) (scancode : U8) : Kbd :=
  if k.scanning then k.reply scancode else k

def readData (k : Kbd) : U8 × Kbd :=
  match k.out with
  | [] => (0, k.refreshIrq)
  | (b, _) :: rest => (b, { k with out := rest }.refreshIrq)

def idle (k : Kbd) : Bool := k.out.isEmpty

def readStatus (k : Kbd) : U8 :=
  stUnlocked ||| (if k.out.isEmpty then 0 else stObf) ||| (if test k.ctr ctrSys then stSys else 0) |||
    (if k.cmdWritten then stCmd else 0) ||| (if k.frontIs true then stAux else 0)

def writeCommand (k : Kbd) (cmd : U8) : Kbd :=
  let k := { k with cmdWritten := true }
  if cmd = 0x20 then k.reply k.ctr
  else if 0x21 ≤ cmd ∧ cmd ≤ 0x3F then k.reply 0
  else if 0x60 ≤ cmd ∧ cmd ≤ 0x7F then { k with pending := some cmd }
  else if cmd = 0xA7 then { k with ctr := k.ctr ||| ctrAuxDisable }
  else if cmd = 0xA8 then { k with ctr := k.ctr &&& ~~~ctrAuxDisable }
  else if cmd = 0xA9 then k.reply 0xFF
  else if cmd = 0xAA then { k with ctr := k.ctr ||| ctrSys }.reply 0x55
  else if cmd = 0xAB then k.reply 0x00
  else if cmd = 0xAD then { k with ctr := k.ctr ||| ctrKbdDisable }
  else if cmd = 0xAE then { k with ctr := k.ctr &&& ~~~ctrKbdDisable }
  else if cmd = 0xC0 then k.reply 0x00
  else if cmd = 0xD0 then k.reply 0x02
  else if 0xD1 ≤ cmd ∧ cmd ≤ 0xD4 then { k with pending := some cmd }
  else k

/-- The argument of a controller command. -/
def controllerArgument (k : Kbd) (cmd val : U8) : Kbd :=
  if cmd = 0x60 then { k with ctr := val }.refreshIrq
  else if cmd = 0xD2 then k.reply val
  else if cmd = 0xD3 then k.replyAux val
  else k

/-- A byte sent to the keyboard device itself. -/
def deviceCommand (k : Kbd) (val : U8) : Kbd :=
  if val = 0xFF then (k.reply ack).reply 0xAA
  else if val = 0xEE then k.reply 0xEE
  else if val = 0xF2 then ((k.reply ack).reply 0xAB).reply 0x83
  else if val = 0xF4 then { k with scanning := true, driverAttached := true }.reply ack
  else if val = 0xF5 then { k with scanning := false }.reply ack
  else if val = 0xED ∨ val = 0xF0 ∨ val = 0xF3 then { k with devPending := some val }.reply ack
  else k.reply ack

def writeData (k : Kbd) (val : U8) : Kbd :=
  let k := { k with cmdWritten := false }
  match k.pending with
  | some cmd => { k with pending := none }.controllerArgument cmd val
  | none =>
    match k.devPending with
    | some cmd =>
      let k := { k with devPending := none }
      if cmd = 0xF0 then
        let k := k.reply ack
        if val = 0 then k.reply 0x02 else k
      else k.reply ack
    | none => k.deviceCommand val

end Kbd
end X86Emu
