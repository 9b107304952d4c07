import X86Emu.Inst

/-!
# Packed lanes

The lane-wise integer operations of `sse.rs` on 128-bit words, and the conversion between 64-bit and
80-bit floating-point patterns.
-/
namespace X86Emu

def laneMask (bits : Nat) : U64 := if bits = 64 then 0xFFFFFFFFFFFFFFFF else (1 : U64) <<< bits - 1

/-- Split a 128-bit value into lanes, low lane first. -/
def lanes (v : U128) (bits : Nat) : List U64 :=
  (List.range (128 / bits)).map fun i => u64 (v >>> (i * bits)) &&& laneMask bits

/-- Reassemble lanes. -/
def join (l : List U64) (bits : Nat) : U128 :=
  l.zipIdx.foldl (fun acc p => acc ||| u128 (p.1 &&& laneMask bits) <<< (p.2 * bits)) 0

/-- Sign-extend a lane. -/
def sx (v : U64) (bits : Nat) : Int := (v.setWidth bits).toInt

/-- Saturate into a signed or unsigned lane. -/
def satSigned (v : Int) (bits : Nat) : U64 :=
  BitVec.ofInt 64 (max (-2 ^ (bits - 1)) (min v (2 ^ (bits - 1) - 1))) &&& laneMask bits

def satUnsigned (v : Int) (bits : Nat) : U64 := BitVec.ofInt 64 (max 0 (min v (2 ^ bits - 1)))

namespace Packed

/-- Combine two values lane by lane. -/
def zip (bits : Nat) (f : U64 → U64 → U64) (a b : U128) : U128 :=
  join (List.zipWith f (lanes a bits) (lanes b bits)) bits

def add (bits : Nat) (sat : Sat) : U128 → U128 → U128 :=
  zip bits fun x y =>
    match sat with
    | .wrap => x + y
    | .signed => satSigned (sx x bits + sx y bits) bits
    | .unsigned => satUnsigned (x.toNat + y.toNat) bits

def sub (bits : Nat) (sat : Sat) : U128 → U128 → U128 :=
  zip bits fun x y =>
    match sat with
    | .wrap => x - y
    | .signed => satSigned (sx x bits - sx y bits) bits
    | .unsigned => satUnsigned ((x.toNat : Int) - y.toNat) bits

def mullw : U128 → U128 → U128 := zip 16 fun x y => BitVec.ofInt 64 (sx x 16 * sx y 16)

def mulhw : U128 → U128 → U128 :=
  zip 16 fun x y => BitVec.ofInt 64 ((sx x 16 * sx y 16) >>> (16 : Nat))

def mulhuw : U128 → U128 → U128 := zip 16 fun x y => (x * y) >>> 16

/-- Lane `i` of a value. -/
def lane (v : U128) (bits i : Nat) : U64 := (lanes v bits).getD i 0

def muludq (a b : U128) : U128 :=
  join [lane a 32 0 * lane b 32 0, lane a 32 2 * lane b 32 2] 64

def maddwd (a b : U128) : U128 :=
  let product (i : Nat) : Int := sx (lane a 16 i) 16 * sx (lane b 16 i) 16
  join ((List.range 4).map fun i => BitVec.ofInt 64 (product (2 * i) + product (2 * i + 1))) 32

def sadbw (a b : U128) : U128 :=
  let half (lo : Nat) : U64 := BitVec.ofNat 64
    ((List.range 8).map fun i =>
      ((lane a 8 (lo + i)).toNat - (lane b 8 (lo + i)).toNat : Int).natAbs).sum
  join [half 0, half 8] 64

def avg (bits : Nat) : U128 → U128 → U128 := zip bits fun x y => (x + y + 1) >>> 1

/-- The larger or the smaller of each pair of lanes. -/
def select (bits : Nat) (signed max : Bool) : U128 → U128 → U128 :=
  zip bits fun x y =>
    let greater : Bool := if signed then sx x bits > sx y bits else x > y
    if x = y ∨ greater = max then x else y

def cmpeq (bits : Nat) : U128 → U128 → U128 := zip bits fun x y => if x = y then laneMask bits else 0

def cmpgt (bits : Nat) : U128 → U128 → U128 :=
  zip bits fun x y => if sx x bits > sx y bits then laneMask bits else 0

/-- Narrow every lane of `a` then `b` to half its width, saturating. -/
def pack (bits : Nat) (unsigned : Bool) (a b : U128) : U128 :=
  let narrow (x : U64) : U64 :=
    if unsigned then satUnsigned (sx x bits) (bits / 2) else satSigned (sx x bits) (bits / 2)
  join ((lanes a bits ++ lanes b bits).map narrow) (bits / 2)

/-- Interleave the low or the high halves. -/
def unpack (bits : Nat) (high : Bool) (a b : U128) : U128 :=
  let n := 128 / bits / 2
  let off := if high then n else 0
  join ((List.range n).flatMap fun i => [lane a bits (off + i), lane b bits (off + i)]) bits

/-- Field `i` of a shuffle control byte. -/
def control (imm : U8) (i : Nat) : Nat := ((imm >>> (2 * i)) &&& 3).toNat

def shufd (imm : U8) (b : U128) : U128 :=
  join ((List.range 4).map fun i => lane b 32 (control imm i)) 32

/-- Shuffle the four words from `base` on. -/
def shufw (base : Nat) (imm : U8) (b : U128) : U128 :=
  join ((List.range 8).map fun i =>
    if base ≤ i ∧ i < base + 4 then lane b 16 (base + control imm (i - base)) else lane b 16 i) 16

def insertWord (imm : U8) (v : U16) (a : U128) : U128 :=
  join ((lanes a 16).set (imm &&& 7).toNat (u64 v)) 16

def extractWord (imm : U8) (v : U128) : U64 := lane v 16 (imm &&& 7).toNat

/-- Shift every lane; a count past the width shifts everything out, or fills with the sign. -/
def shift (kind : ShiftKind) (bits : Nat) (count : U64) (a : U128) : U128 :=
  let one (x : U64) : U64 :=
    match kind with
    | .sll => if count.toNat ≥ bits then 0 else x <<< count.toNat
    | .srl => if count.toNat ≥ bits then 0 else x >>> count.toNat
    | .sra => BitVec.ofInt 64 (sx x bits >>> min count.toNat (bits - 1))
  join ((lanes a bits).map one) bits

/-- Shift the whole register by bytes. -/
def shiftBytes (left : Bool) (imm : U8) (a : U128) : U128 :=
  let n := min imm.toNat 16 * 8
  if n ≥ 128 then 0 else if left then a <<< n else a >>> n

/-- The sign bits of every lane. -/
def signMask (bits : Nat) (v : U128) : U64 :=
  (lanes v bits).zipIdx.foldl
    (fun r p => if p.1.getLsbD (bits - 1) then r ||| (1 : U64) <<< p.2 else r) 0

end Packed

/-! ## 80-bit floating point -/

/-- Number of leading zeros. -/
def leadingZeros (v : U64) : Nat := v.clz.toNat

/-- A 64-bit float pattern as an 80-bit one: significand with its integer bit, sign and exponent. -/
def f64ToF80 (bits : U64) : U64 × U16 :=
  let sign : U16 := u16 (bits >>> 63)
  let exp := ((bits >>> 52) &&& 0x7FF).toNat
  let mant := bits &&& 0x000FFFFFFFFFFFFF
  if exp = 0 ∧ mant = 0 then (0, sign <<< 15)
  else if exp = 0x7FF then (mant <<< 11 ||| 0x8000000000000000, sign <<< 15 ||| 0x7FFF)
  else if exp = 0 then
    let lz := leadingZeros mant
    (mant <<< lz, sign <<< 15 ||| BitVec.ofNat 16 (15372 - lz))
  else (mant <<< 11 ||| 0x8000000000000000, sign <<< 15 ||| BitVec.ofNat 16 (exp + 16383 - 1023))

/-- The reverse, rounding the significand to nearest even. -/
def f80ToF64 (sig : U64) (se : U16) : U64 :=
  let sign : U64 := u64 (se >>> 15)
  let exp := (se &&& 0x7FFF).toNat
  if exp = 0 ∧ sig = 0 then sign <<< 63
  else if exp = 0x7FFF then
    sign <<< 63 ||| (0x7FF : U64) <<< 52 ||| (sig &&& 0x7FFFFFFFFFFFFFFF) >>> 11
  else
    let lz := leadingZeros sig
    let sig := sig <<< lz
    let e : Int := exp - lz - 16383 + 1023
    if e ≥ 0x7FF then sign <<< 63 ||| (0x7FF : U64) <<< 52
    else if e ≤ 0 then
      let shift := (12 - e).toNat
      sign <<< 63 ||| (if shift ≥ 64 then 0 else sig >>> shift)
    else
      let frac := sig &&& 0x7FFFFFFFFFFFFFFF
      let m := frac >>> 11
      let rem := frac &&& 0x7FF
      let m := if rem > 0x400 ∨ (rem = 0x400 ∧ m &&& 1 = 1) then m + 1 else m
      if m >>> 52 ≠ 0 then sign <<< 63 ||| BitVec.ofNat 64 (e.toNat + 1) <<< 52
      else sign <<< 63 ||| BitVec.ofNat 64 e.toNat <<< 52 ||| m

end X86Emu
