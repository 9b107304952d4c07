import X86Emu.Word

/-!
# Display and DMA registers

The VGA device of `vga.rs` and the DMA controller registers of `dma.rs` that ports reach.
-/
namespace X86Emu

def textCols : Nat := 80
def textRows : Nat := 25

structure Vga where
  crtcIndex : U8 := 0
  crtc : U8 → U8 := fun _ => 0
  mode : U8 := 0x03
  text : Nat → U16 := fun _ => 0x0720
  framebuffer : Nat → U8 := fun _ => 0
  fbW : Nat := 0
  fbH : Nat := 0
  cursorRow : U8 := 0
  cursorCol : U8 := 0

namespace Vga

def setMode (v : Vga) (mode : U8) : Vga :=
  if mode = 0x12 then { v with mode, fbW := 640, fbH := 480, framebuffer := fun _ => 0 }
  else if mode = 0x13 then { v with mode, fbW := 320, fbH := 200, framebuffer := fun _ => 0 }
  else
    { v with
      mode, text := fun _ => 0x0720, fbW := 0, fbH := 0, framebuffer := fun _ => 0
      cursorRow := 0, cursorCol := 0 }

def putCharAt (v : Vga) (row col : Nat) (ch : U8) (attr : U16) : Vga :=
  if row < textRows ∧ col < textCols then
    { v with text := fun i => if i = row * textCols + col then attr <<< 8 ||| u16 ch else v.text i }
  else v

def scroll (v : Vga) : Vga :=
  { v with text := fun i => if i < textCols * (textRows - 1) then v.text (i + textCols) else 0x0720 }

def writeCrtcIndex (v : Vga) (val : U8) : Vga := { v with crtcIndex := val &&& 0x1F }

def writeCrtcData (v : Vga) (val : U8) : Vga :=
  { v with crtc := fun i => if i = v.crtcIndex then val else v.crtc i }

def readCrtcData (v : Vga) : U8 := v.crtc v.crtcIndex

end Vga

structure DmaChannel where
  base : U16 := 0
  count : U16 := 0
  page : U8 := 0
  enabled : Bool := false
  deriving DecidableEq, Repr

structure Dma where
  channels : Fin 4 → DmaChannel := fun _ => {}
  command : U8 := 0
  status : U8 := 0
  mask : U8 := 0

namespace Dma

def setChannel (d : Dma) (ch : Fin 4) (c : DmaChannel) : Dma :=
  { d with channels := fun i => if i = ch then c else d.channels i }

def writePage (d : Dma) (port val : U8) : Dma :=
  let set (ch : Fin 4) := d.setChannel ch { d.channels ch with page := val }
  if port = 0x87 then set 0
  else if port = 0x83 then set 1
  else if port = 0x81 then set 2
  else if port = 0x82 then set 3
  else d

def writeCommand (d : Dma) (port val : U8) : Dma :=
  if port = 0x08 then { d with command := val }
  else if port = 0x0A then
    let ch := Fin.ofNat 4 (val &&& 3).toNat
    { d.setChannel ch { d.channels ch with enabled := !test val 4 } with mask := val }
  else d

end Dma
end X86Emu
