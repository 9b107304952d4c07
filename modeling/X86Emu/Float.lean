import X86Emu.Packed
import X86Emu.Operand

/-!
# Floating point

Host floating-point operations on bit patterns, the x87 register stack of `fpu.rs`, and the x87
instructions. The host's own arithmetic stands for what Rust's `f32` and `f64` compute.
-/
namespace X86Emu

def asF32 (v : U32) : Float32 := Float32.ofBits (UInt32.ofBitVec v)
def f32Bits (x : Float32) : U32 := x.toBits.toBitVec
def asF64 (v : U64) : Float := Float.ofBits (UInt64.ofBitVec v)
def f64Bits (x : Float) : U64 := x.toBits.toBitVec

/-- Conversions between the two formats and from signed integers. -/
def widen (v : U32) : U64 := f64Bits (asF32 v).toFloat
def shorten (v : U64) : U32 := f32Bits (asF64 v).toFloat32
def intToF64 (i : U64) : U64 := f64Bits (Int64.ofBitVec i).toFloat
def intToF32 (i : U64) : U32 := f32Bits (Int64.ofBitVec i).toFloat32

def truncF (v : Float) : Float := if v < 0 then v.ceil else v.floor

/-- Round to nearest, ties to even. -/
def roundTiesEven (v : Float) : Float :=
  let lo := v.floor
  let rest := v - lo
  if rest < 0.5 then lo
  else if rest > 0.5 then lo + 1
  else if (lo / 2).floor * 2 == lo then lo
  else lo + 1

/-- Round to an integer under the rounding control; `trunc` forces toward zero. -/
def roundRc (v : Float) (rc : U32) (trunc : Bool) : Float :=
  if trunc then truncF v
  else if rc = 0 then roundTiesEven v
  else if rc = 1 then v.floor
  else if rc = 2 then v.ceil
  else truncF v

/-- Float to signed integer, with the integer indefinite for NaN and out-of-range values. -/
def toInt (v : U64) (rc : U32) (trunc : Bool) (w : Width) : U64 :=
  let r := roundRc (asF64 v) rc trunc
  if w = .w64 then
    if r.isNaN || r < -9.223372036854775808e18 || r ≥ 9.223372036854775808e18 then
      0x8000000000000000
    else r.toInt64.toBitVec
  else if r.isNaN || r < -2147483648.0 || r ≥ 2147483648.0 then 0x80000000
  else u64 (u32 r.toInt64.toBitVec)

def Float.apply (op : FpOp) (a b : U64) : U64 :=
  let x := asF64 a
  let y := asF64 b
  match op with
  | .add => f64Bits (x + y)
  | .sub => f64Bits (x - y)
  | .mul => f64Bits (x * y)
  | .div => f64Bits (x / y)
  | .min => if x < y then a else b
  | .max => if x > y then a else b

def Float32.apply (op : FpOp) (a b : U32) : U32 :=
  let x := asF32 a
  let y := asF32 b
  match op with
  | .add => f32Bits (x + y)
  | .sub => f32Bits (x - y)
  | .mul => f32Bits (x * y)
  | .div => f32Bits (x / y)
  | .min => if x < y then a else b
  | .max => if x > y then a else b

/-- The eight comparison predicates; the negated ones hold of unordered operands. -/
def compareF (pred : U8) (a b : U64) : Bool :=
  let x := asF64 a
  let y := asF64 b
  if pred = 0 then x == y
  else if pred = 1 then x < y
  else if pred = 2 then x ≤ y
  else if pred = 3 then x.isNaN || y.isNaN
  else if pred = 4 then x != y
  else if pred = 5 then !(x < y)
  else if pred = 6 then !(x ≤ y)
  else !x.isNaN && !y.isNaN

/-! ## The x87 register stack -/

namespace Fpu

def finit (_ : Fpu) : Fpu := {}

def stI (f : Fpu) (i : Fin 8) : U64 := f.st (f.top + i)

def setSt (f : Fpu) (i : Fin 8) (v : U64) : Fpu :=
  { f with st := fun j => if j = i then v else f.st j, tag := f.tag &&& ~~~((1 : U16) <<< i.val) }

/-- Write ST(i), marking the register valid. -/
def setStI (f : Fpu) (i : Fin 8) (v : U64) : Fpu := f.setSt (f.top + i) v

/-- Push a value: the top moves down. -/
def push (f : Fpu) (v : U64) : Fpu := { f with top := f.top + 7 }.setSt (f.top + 7) v

def pop (f : Fpu) : Fpu :=
  { f with tag := f.tag ||| (1 : U16) <<< f.top.val, top := f.top + 1 }

def fstsw (f : Fpu) : U16 := f.status

end Fpu

def Cpu.modifyFpu (s : Cpu) (f : Fpu → Fpu) : Cpu := { s with fpu := f s.fpu }

/-- The register an x87 register operand names. -/
def stIdx (m : ModRm) : Fin 8 := Fin.ofNat 8 m.rm.toNat

/-! ## x87 instructions -/

def fstcw (m : ModRm) : Exec Unit := do
  let v := (← get).fpu.control
  if m.isReg then pure ()
  else
    let a ← rmAddr m true
    modify (·.modifyMem (·.writeU16 a v))

def fldcw (m : ModRm) : Exec Unit := do
  let a ← rmAddr m false
  modify fun s => s.modifyFpu fun f => { f with control := s.mem.readU16 a }

def fstsw (m : ModRm) : Exec Unit := do
  let v := (← get).fpu.fstsw
  let a ← rmAddr m true
  modify (·.modifyMem (·.writeU16 a v))

def fst (m : ModRm) (w64 : Bool) : Exec Unit := do
  let v := (← get).fpu.stI 0
  if m.isReg then modify (·.modifyFpu (·.setStI (stIdx m) v))
  else
    let a ← rmAddr m true
    modify (·.modifyMem fun mem => if w64 then mem.writeU64 a v else mem.writeU32 a (shorten v))

def fstp (m : ModRm) (w64 : Bool) : Exec Unit := do
  fst m w64
  modify (·.modifyFpu Fpu.pop)

def fld (m : ModRm) (w64 : Bool) : Exec Unit := do
  let v ← if m.isReg then pure ((← get).fpu.stI (stIdx m)) else do
    let a ← rmAddr m false
    let mem := (← get).mem
    pure (if w64 then mem.readU64 a else widen (mem.readU32 a))
  modify (·.modifyFpu (·.push v))

/-- Integer load: 32 or 16 bits by the address size. -/
def fild (m : ModRm) : Exec Unit := do
  let a ← rmAddr m false
  let s ← get
  let v : U64 :=
    if s.addrsize then (s.mem.readU32 a).signExtend 64 else (s.mem.readU16 a).signExtend 64
  modify (·.modifyFpu (·.push (intToF64 v)))

def fistp (m : ModRm) : Exec Unit := do
  let v : U32 := (asF64 ((← get).fpu.stI 0)).toInt32.toBitVec
  let a ← rmAddr m false
  modify fun s => s.modifyMem fun mem =>
    if s.addrsize then mem.writeU32 a v else mem.writeU16 a (u16 v)
  modify (·.modifyFpu Fpu.pop)

def FpuOp.apply (op : FpuOp) (a b : U64) : U64 :=
  match op with
  | .add => Float.apply .add a b
  | .sub => Float.apply .sub a b
  | .mul => Float.apply .mul a b
  | .div => if asF64 b != 0 then Float.apply .div a b else a

def fop (op : FpuOp) (m : ModRm) : Exec Unit := do
  let rhs ← if m.isReg then pure ((← get).fpu.stI (stIdx m)) else do
    let a ← rmAddr m false
    pure ((← get).mem.readU64 a)
  modify (·.modifyFpu fun f => f.setStI 0 (op.apply (f.stI 0) rhs))

end X86Emu
