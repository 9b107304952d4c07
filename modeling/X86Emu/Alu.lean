import X86Emu.Operand

/-!
# Arithmetic and flags

The ALU, multiply, shift and rotate computations of `instructions.rs`. Each is a function of its
operands and the incoming flags, so that what it does to the flags can be stated apart from any
memory access.
-/
namespace X86Emu

/-- Run a flag computation: its result, with the flags it leaves committed. -/
def withFlags {α : Type} (f : U32 → α × U32) : Exec α := fun s =>
  ((f s.flags).1, s.modifyFlags fun fl => (f fl).2)

/-- Even parity of a byte. -/
def parity (v : U8) : Bool :=
  let v := v ^^^ v >>> 4
  let v := v ^^^ v >>> 2
  let v := v ^^^ v >>> 1
  v &&& 1 == 0

/-- SF, ZF and PF of a result. -/
def setLogicFlags {n : Nat} (r : BitVec n) (fl : U32) : U32 :=
  setFlag Flags.pf (parity (u8 r)) (setFlag Flags.zf (r == 0) (setFlag Flags.sf r.msb fl))

def setLogicFlags8 (r : U8) : U32 → U32 := setLogicFlags r
def setLogicFlags16 (r : U16) : U32 → U32 := setLogicFlags r
def setLogicFlags32 (r : U32) : U32 → U32 := setLogicFlags r
def setLogicFlags64 (r : U64) : U32 → U32 := setLogicFlags r

def setLogicFlagsWidth (r : U64) : Width → U32 → U32
  | .w8 => setLogicFlags8 (u8 r)
  | .w16 => setLogicFlags16 (u16 r)
  | .w32 => setLogicFlags32 (u32 r)
  | .w64 => setLogicFlags64 r

/-- CF, AF and OF of an addition. -/
def addCarryFlags {n : Nat} (a b r : BitVec n) (c : Bool) (fl : U32) : U32 :=
  setFlag Flags.of ((a ^^^ r) &&& (b ^^^ r)).msb
    (setFlag Flags.af (test (a ^^^ b ^^^ r) 0x10) (setFlag Flags.cf c fl))

/-- CF, AF and OF of a subtraction. -/
def subBorrowFlags {n : Nat} (a b r : BitVec n) (c : Bool) (fl : U32) : U32 :=
  setFlag Flags.of ((a ^^^ b) &&& (a ^^^ r)).msb
    (setFlag Flags.af (test (a ^^^ b ^^^ r) 0x10) (setFlag Flags.cf c fl))

def setAddCarry (a b r : U16) : Bool → U32 → U32 := addCarryFlags a b r
def setAddCarry32 (a b r : U32) : Bool → U32 → U32 := addCarryFlags a b r
def setAddCarry64 (a b r : U64) : Bool → U32 → U32 := addCarryFlags a b r
def setSubBorrow (a b r : U16) : Bool → U32 → U32 := subBorrowFlags a b r
def setSubBorrow32 (a b r : U32) : Bool → U32 → U32 := subBorrowFlags a b r
def setSubBorrow64 (a b r : U64) : Bool → U32 → U32 := subBorrowFlags a b r

/-- Flags of an operation whose carry and overflow are always clear. -/
def clearCarryOverflow (fl : U32) : U32 := setFlag Flags.of false (setFlag Flags.cf false fl)

/-- One ALU operation, given how its width records a carry and a borrow. -/
def aluWith {n : Nat} (addFlags subFlags : BitVec n → BitVec n → BitVec n → Bool → U32 → U32)
    (op : AluOp) (a b : BitVec n) (fl : U32) : BitVec n × U32 :=
  let cin := test fl Flags.cf
  match op with
  | .add =>
    let r := a + b
    (r, addFlags a b r (r < a) (setLogicFlags r fl))
  | .adc =>
    let r := a + b + bit cin
    (r, addFlags a b r (a.toNat + b.toNat + cin.toNat ≥ 2 ^ n) (setLogicFlags r fl))
  | .sub | .cmp =>
    let r := a - b
    (r, subFlags a b r (a < b) (setLogicFlags r fl))
  | .sbb =>
    let r := a - b - bit cin
    (r, subFlags a b r (a.toNat < b.toNat + cin.toNat) (setLogicFlags r fl))
  | .and => (a &&& b, clearCarryOverflow (setLogicFlags (a &&& b) fl))
  | .or => (a ||| b, clearCarryOverflow (setLogicFlags (a ||| b) fl))
  | .xor => (a ^^^ b, clearCarryOverflow (setLogicFlags (a ^^^ b) fl))

/-- The byte form records carry and overflow through the 16-bit helpers. -/
def alu8 (op : AluOp) (a b : U8) : U32 → U8 × U32 :=
  aluWith (fun a b r => setAddCarry (u16 a) (u16 b) (u16 r))
    (fun a b r => setSubBorrow (u16 a) (u16 b) (u16 r)) op a b

def alu16 (op : AluOp) (a b : U16) : U32 → U16 × U32 := aluWith setAddCarry setSubBorrow op a b

def alu32 (op : AluOp) (a b : U32) : U32 → U32 × U32 := aluWith setAddCarry32 setSubBorrow32 op a b

/-- With nothing wider to widen into, the carries of ADC and SBB are read off the result. -/
def alu64 (op : AluOp) (a b : U64) (fl : U32) : U64 × U32 :=
  let cin := test fl Flags.cf
  match op with
  | .adc =>
    let r := a + b + bit cin
    (r, setAddCarry64 a b r (decide (r < a) || (cin && r == a)) (setLogicFlags64 r fl))
  | .sbb =>
    let r := a - b - bit cin
    (r, setSubBorrow64 a b r (decide (a < b) || (a == b && cin)) (setLogicFlags64 r fl))
  | op => aluWith setAddCarry64 setSubBorrow64 op a b fl

def aluW (op : AluOp) (a b : U64) (w : Width) (fl : U32) : U64 × U32 :=
  match w with
  | .w32 => let r := alu32 op (u32 a) (u32 b) fl; (u64 r.1, r.2)
  | .w64 => alu64 op a b fl
  | .w16 => let r := alu16 op (u16 a) (u16 b) fl; (u64 r.1, r.2)
  | .w8 => let r := alu8 op (u8 a) (u8 b) fl; (u64 r.1, r.2)

/-- Sign-extend the low bits of `v`. -/
def sext (v : U64) : Width → U64
  | .w8 => (u8 v).signExtend 64
  | .w16 => (u16 v).signExtend 64
  | .w32 => (u32 v).signExtend 64
  | .w64 => v

/-! ## Increment, decrement and negate -/

/-- Keep CF across a flag computation. -/
def keepCarry (f : U32 → U32) (fl : U32) : U32 := setFlag Flags.cf (test fl Flags.cf) (f fl)

def incFlags8 (v r : U8) : U32 → U32 :=
  keepCarry fun fl =>
    setFlag Flags.af (v &&& 0x0F == 0x0F) (setFlag Flags.of (v == 0x7F)
      (setAddCarry (u16 v) 1 (u16 r) false (setLogicFlags8 r fl)))

def decFlags8 (v r : U8) : U32 → U32 :=
  keepCarry fun fl =>
    setFlag Flags.af (v &&& 0x0F == 0x00) (setFlag Flags.of (v == 0x80) (setLogicFlags8 r fl))

def incFlags16 (v r : U16) : U32 → U32 :=
  keepCarry fun fl => setAddCarry v 1 r false (setLogicFlags16 r fl)

def decFlags16 (v r : U16) : U32 → U32 :=
  keepCarry fun fl => setSubBorrow v 1 r false (setLogicFlags16 r fl)

def incFlags32 (v r : U32) : U32 → U32 :=
  keepCarry fun fl => setAddCarry32 v 1 r false (setLogicFlags32 r fl)

def decFlags32 (v r : U32) : U32 → U32 :=
  keepCarry fun fl => setSubBorrow32 v 1 r false (setLogicFlags32 r fl)

/-- Only the sign bit of a width. -/
def signBit : Width → U64
  | .w8 => 0x80
  | .w16 => 0x8000
  | .w32 => 0x80000000
  | .w64 => 0x8000000000000000

def incFlagsW (v r : U64) (w : Width) : U32 → U32 :=
  keepCarry fun fl => setFlag Flags.of (v == w.mask >>> 1)
    (setAddCarry64 v 1 r false (setLogicFlagsWidth r w fl))

def decFlagsW (v r : U64) (w : Width) : U32 → U32 :=
  keepCarry fun fl => setFlag Flags.of (v == signBit w)
    (setSubBorrow64 v 1 r false (setLogicFlagsWidth r w fl))

def negFlags {n : Nat} (v smallest : BitVec n) (logic : U32 → U32) (fl : U32) : U32 :=
  setFlag Flags.af (v != 0) (setFlag Flags.of (v == smallest) (setFlag Flags.cf (v != 0) (logic fl)))

/-- CF and OF both report one condition. -/
def setCarryOverflow (c : Bool) (fl : U32) : U32 := setFlag Flags.of c (setFlag Flags.cf c fl)

/-! ## Double-precision shifts -/

def setShiftFlags {n : Nat} (r : BitVec n) (cf of : Bool) (fl : U32) : U32 :=
  setLogicFlags r (setFlag Flags.of of (setFlag Flags.cf cf fl))

def setShiftFlags16 (r : U16) : Bool → Bool → U32 → U32 := setShiftFlags r
def setShiftFlags32 (r : U32) : Bool → Bool → U32 → U32 := setShiftFlags r
def setShiftFlags64 (r : U64) : Bool → Bool → U32 → U32 := setShiftFlags r

/-! ## Shifts and rotates -/

/-- Rotate a 65-bit quantity, an operand and the carry, left by one. -/
def rclStep (p : U64 × Bool) : U64 × Bool := (p.1 <<< 1 ||| bit p.2, p.1.msb)

def rcrStep (p : U64 × Bool) : U64 × Bool := (p.1 >>> 1 ||| bit p.2 <<< 63, test p.1 1)

def rclRcr64 (v : U64) (carry : Bool) (k : Nat) (left : Bool) : U64 × Bool :=
  (if left then rclStep else rcrStep)^[k] (v, carry)

/-- OF of a rotate by one. -/
def setRotateOverflow (n : Nat) (x y : Bool) : U32 → U32 := setFlag Flags.of (n == 1 && x != y)

/-- Shift or rotate the low bits of `v`. A masked count of zero changes nothing. -/
def shiftWidth (op : ShiftOp) (v : U64) (count : U32) (w : Width) (fl : U32) : U64 × U32 :=
  let n := (count &&& if w = .w64 then 0x3F else 0x1F).toNat
  if n = 0 then (v, fl)
  else
    let width := w.bits
    let msb := signBit w
    let v := v &&& w.mask
    match op with
    | .shl =>
      let r := (v <<< min n 63) &&& w.mask
      let cf := decide (n ≤ width) && test (v >>> (width - min n width)) 1
      (r, setFlag Flags.of (n == 1 && test r msb != cf)
        (setLogicFlagsWidth r w (setFlag Flags.cf cf fl)))
    | .shr =>
      let r := if n ≥ width then 0 else v >>> n
      let cf := decide (n ≤ width) && test (v >>> (n - 1)) 1
      (r, setFlag Flags.of (n == 1 && test v msb)
        (setLogicFlagsWidth r w (setFlag Flags.cf cf fl)))
    | .sar =>
      let sv := sext v w
      let r := sv.sshiftRight (min n (width - 1)) &&& w.mask
      let cf := test (sv.sshiftRight (min (n - 1) (width - 1))) 1
      (r, setFlag Flags.of false (setLogicFlagsWidth r w (setFlag Flags.cf cf fl)))
    | .rol =>
      let k := n % width
      let r := if k = 0 then v else (v <<< k ||| v >>> (width - k)) &&& w.mask
      let cf := test r 1
      (r, setRotateOverflow n (test r msb) cf (setFlag Flags.cf cf fl))
    | .ror =>
      let k := n % width
      let r := if k = 0 then v else (v >>> k ||| v <<< (width - k)) &&& w.mask
      let cf := test r msb
      (r, setRotateOverflow n cf (test (r >>> (width - 2)) 1) (setFlag Flags.cf cf fl))
    | .rcl =>
      let k := n % (width + 1)
      let carry := test fl Flags.cf
      let (r, cf) :=
        if w = .w64 then rclRcr64 v carry k true
        else
          let wide := v ||| bit carry <<< width
          let full : U64 := (1 : U64) <<< (width + 1) - 1
          let rot := if k = 0 then wide else (wide <<< k ||| wide >>> (width + 1 - k)) &&& full
          (rot &&& w.mask, test (rot >>> width) 1)
      (r, setRotateOverflow n (test r msb) cf (setFlag Flags.cf cf fl))
    | .rcr =>
      let k := n % (width + 1)
      let carry := test fl Flags.cf
      let (r, cf) :=
        if w = .w64 then rclRcr64 v carry k false
        else
          let wide := v ||| bit carry <<< width
          let full : U64 := (1 : U64) <<< (width + 1) - 1
          let rot := if k = 0 then wide else (wide >>> k ||| wide <<< (width + 1 - k)) &&& full
          (rot &&& w.mask, test (rot >>> width) 1)
      (r, setRotateOverflow n (test r msb) (test (r >>> (width - 2)) 1) (setFlag Flags.cf cf fl))

/-! ## Bit tests -/

inductive BitOp where
  | test | set | reset | complement
  deriving DecidableEq, Repr

def applyBit (v : U64) (b : Nat) : BitOp → U64
  | .test => v
  | .set => v ||| (1 : U64) <<< b
  | .reset => v &&& ~~~((1 : U64) <<< b)
  | .complement => v ^^^ (1 : U64) <<< b

/-- The value of a condition code. -/
def Cond.test (c : Cond) (s : Cpu) : Bool :=
  match c with
  | .o => s.getFlag Flags.of
  | .no => !s.getFlag Flags.of
  | .b => s.getFlag Flags.cf
  | .nb => !s.getFlag Flags.cf
  | .e => s.getFlag Flags.zf
  | .ne => !s.getFlag Flags.zf
  | .be => s.getFlag Flags.cf || s.getFlag Flags.zf
  | .nbe => !s.getFlag Flags.cf && !s.getFlag Flags.zf
  | .s => s.getFlag Flags.sf
  | .ns => !s.getFlag Flags.sf
  | .p => s.getFlag Flags.pf
  | .np => !s.getFlag Flags.pf
  | .l => s.getFlag Flags.sf != s.getFlag Flags.of
  | .nl => s.getFlag Flags.sf == s.getFlag Flags.of
  | .le => s.getFlag Flags.zf || s.getFlag Flags.sf != s.getFlag Flags.of
  | .nle => !s.getFlag Flags.zf && s.getFlag Flags.sf == s.getFlag Flags.of

end X86Emu
