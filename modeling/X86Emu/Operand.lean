import X86Emu.Translate

/-!
# Operands and the stack

Effective addresses, the ModR/M operand helpers, and push and pop.
-/
namespace X86Emu

namespace Cpu

/-- The register part of a 16-bit effective address and the segment it defaults to. -/
def modrmBase16 (s : Cpu) (m : ModRm) : U16 × SegReg :=
  if m.rmRaw = 0 then (s.bx + s.si, .ds)
  else if m.rmRaw = 1 then (s.bx + s.di, .ds)
  else if m.rmRaw = 2 then (s.bp + s.si, .ss)
  else if m.rmRaw = 3 then (s.bp + s.di, .ss)
  else if m.rmRaw = 4 then (s.si, .ds)
  else if m.rmRaw = 5 then (s.di, .ds)
  else if m.rmRaw = 6 then (s.bp, .ss)
  else (s.bx, .ds)

/-- The offset of a 16-bit-addressed operand. -/
def modrmOffset (s : Cpu) (m : ModRm) : U32 :=
  u32 (s.modrmBase16 m).1 + u32 (m.disp8.getD 0) + u32 (m.disp16.getD 0)

/-- The offset and default segment of a 32- or 64-bit-addressed operand. -/
def modrmEa32 (s : Cpu) (m : ModRm) : U64 × SegReg :=
  if m.ripRel then (s.rip + (m.disp32.getD 0).signExtend 64, .ds)
  else
    let reg (i : U8) := if s.addr64 then s.reg64 i else u64 (s.reg32Idx i)
    let (ea, seg) : U64 × SegReg :=
      match m.sib with
      | some sib =>
        let indexRaw := (sib >>> 3) &&& 7
        let baseRaw := sib &&& 7
        let index :=
          if indexRaw ≠ 4 ∨ m.rexX then
            reg (indexRaw ||| bit m.rexX <<< 3) * ((1 : U64) <<< ((sib >>> 6) &&& 3).toNat)
          else 0
        if ¬(m.modField = 0 ∧ baseRaw = 5) then
          (index + reg (baseRaw ||| bit m.rexB <<< 3),
            if baseRaw = 4 ∨ baseRaw = 5 then .ss else .ds)
        else (index, .ds)
      | none =>
        if ¬(m.modField = 0 ∧ m.rmRaw = 5) then
          (reg (m.rmRaw ||| bit m.rexB <<< 3), if m.rmRaw = 4 ∨ m.rmRaw = 5 then .ss else .ds)
        else (0, .ds)
    let ea := ea + (m.disp32.getD 0).signExtend 64
    (if s.addr64 then ea else ea &&& 0xFFFFFFFF, seg)

/-- The offset and default segment at the instruction's address size. -/
def modrmEa (s : Cpu) (m : ModRm) : U64 × SegReg :=
  if s.addrsize then s.modrmEa32 m else (u64 (s.modrmOffset m), (s.modrmBase16 m).2)

/-- The linear address a memory operand names. -/
def modrmLinear (s : Cpu) (m : ModRm) : U64 :=
  s.linearAddr (s.operandSeg (s.modrmEa m).2) (s.modrmEa m).1

/-- The offset LEA computes. -/
def leaOffset (s : Cpu) (m : ModRm) : U64 := (s.modrmEa m).1

end Cpu

/-- The physical address of a memory operand. -/
def rmAddr (m : ModRm) (write : Bool) : Exec U64 := do
  let s ← get
  translateAccess (s.operandSeg (s.modrmEa m).2) (s.modrmEa m).1 write

/-- Read a width from a physical address. -/
def memReadW (mem : Memory) (addr : U64) : Width → U64
  | .w64 => mem.readU64 addr
  | .w32 => u64 (mem.readU32 addr)
  | .w16 => u64 (mem.readU16 addr)
  | .w8 => u64 (mem.readU8 addr)

/-- Write a width to a physical address. -/
def memWriteW (addr : U64) (w : Width) (v : U64) (mem : Memory) : Memory :=
  match w with
  | .w64 => mem.writeU64 addr v
  | .w32 => mem.writeU32 addr (u32 v)
  | .w16 => mem.writeU16 addr (u16 v)
  | .w8 => mem.writeU8 addr (u8 v)

/-- A register operand read and written at a width; a byte index may name a high byte. -/
def Cpu.regAt (s : Cpu) (i : U8) (w : Width) : U64 :=
  if w = .w8 then u64 (s.reg8Idx i) else s.regW i w

def Cpu.setRegAt (s : Cpu) (i : U8) (w : Width) (v : U64) : Cpu :=
  if w = .w8 then s.setReg8Idx i (u8 v) else s.setRegW i w v

/-- Read a memory operand whose first byte translates to `addr`. -/
def readRmAt (m : ModRm) (w : Width) (addr : U64) : Exec U64 := do
  let s ← get
  if w ≠ .w8 ∧ straddles addr w.bytes then
    if s.pendingException.isSome then pure 0
    else return u64 (← readSplit addr (s.modrmLinear m) w.bytes)
  else pure (memReadW s.mem addr w)

/-- Read a ModR/M operand. -/
def readRmW (m : ModRm) (w : Width) : Exec U64 := do
  if m.isReg then return (← get).regAt m.rm w
  else readRmAt m w (← rmAddr m false)

/-- Write a memory operand whose first byte translates to `addr`. -/
def writeRmAt (m : ModRm) (w : Width) (val addr : U64) : Exec Unit := do
  let s ← get
  if s.pendingException.isSome then pure ()
  else if w ≠ .w8 ∧ straddles addr w.bytes then
    writeSplit addr (s.modrmLinear m) w.bytes (u128 val)
  else modify (·.modifyMem (memWriteW addr w val))

/-- Write a ModR/M operand. Nothing happens once the instruction has faulted. -/
def writeRmW (m : ModRm) (w : Width) (val : U64) : Exec Unit := do
  if (← get).pendingException.isSome then pure ()
  else if m.isReg then modify (·.setRegAt m.rm w val)
  else writeRmAt m w val (← rmAddr m true)

def readRm8 (m : ModRm) : Exec U8 := return u8 (← readRmW m .w8)
def readRm16 (m : ModRm) : Exec U16 := return u16 (← readRmW m .w16)
def readRm32 (m : ModRm) : Exec U32 := return u32 (← readRmW m .w32)
def writeRm8 (m : ModRm) (val : U8) : Exec Unit := writeRmW m .w8 (u64 val)
def writeRm16 (m : ModRm) (val : U16) : Exec Unit := writeRmW m .w16 (u64 val)

/-! ## The stack -/

/-- A stack slot read: 64, 32 or 16 bits. -/
def stackRead (mem : Memory) (addr : U64) : Width → U64
  | .w64 => mem.readU64 addr
  | .w32 => u64 (mem.readU32 addr)
  | _ => u64 (mem.readU16 addr)

def stackWrite (addr : U64) (w : Width) (v : U64) (mem : Memory) : Memory :=
  match w with
  | .w64 => mem.writeU64 addr v
  | .w32 => mem.writeU32 addr (u32 v)
  | _ => mem.writeU16 addr (u16 v)

namespace Cpu

/-- The stack pointer at the width the mode gives it. -/
def stackPointer (s : Cpu) : U64 := if s.long64 then s.rsp else u64 s.esp

def setStackPointer (s : Cpu) (v : U64) : Cpu := if s.long64 then s.setRsp v else s.setEsp (u32 v)

/-- Where the next `n`-byte push lands. -/
def pushTarget (s : Cpu) (n : Nat) : U64 :=
  if s.long64 then s.rsp - BitVec.ofNat 64 n else u64 (s.esp - BitVec.ofNat 32 n)

end Cpu

/-- Push onto the stack. The address is translated before the stack pointer moves. -/
def pushW (w : Width) (val : U64) : Exec Unit := do
  let s ← get
  if s.pe then
    let newSp := s.pushTarget w.bytes
    let addr ← translateWrite .ss newSp
    if (← get).pendingException.isSome then pure ()
    else modify fun t => (t.setStackPointer newSp).modifyMem (stackWrite addr w val)
  else
    let s := s.setSp (s.sp - BitVec.ofNat 16 w.bytes)
    set (s.modifyMem (stackWrite (Memory.phys s.ss s.sp) w val))

/-- Pop off the stack. -/
def popW (w : Width) : Exec U64 := do
  let s ← get
  if s.pe then
    let sp := s.stackPointer
    let addr ← translate .ss sp
    let t ← get
    if t.pendingException.isSome then pure 0
    else
      set (t.setStackPointer
        (if s.long64 then sp + BitVec.ofNat 64 w.bytes else u64 (u32 sp + BitVec.ofNat 32 w.bytes)))
      pure (stackRead t.mem addr w)
  else
    set (s.setSp (s.sp + BitVec.ofNat 16 w.bytes))
    pure (stackRead s.mem (Memory.phys s.ss s.sp) w)

/-- Push several words, in order. -/
def pushAll (w : Width) : List U64 → Exec Unit
  | [] => pure ()
  | v :: vs => do
    pushW w v
    pushAll w vs

def push16 (val : U16) : Exec Unit := pushW .w16 (u64 val)
def pop16 : Exec U16 := return u16 (← popW .w16)
def push32 (val : U32) : Exec Unit := pushW .w32 (u64 val)
def pop32 : Exec U32 := return u32 (← popW .w32)

end X86Emu
