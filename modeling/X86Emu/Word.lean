import Mathlib.Data.BitVec
import Mathlib.Tactic

/-!
# Machine words

Fixed-width words of the emulator. Host `usize` is a 64-bit word, and its
unchecked arithmetic wraps, as the release profile compiles it.
-/
namespace X86Emu

abbrev U8 := BitVec 8
abbrev U16 := BitVec 16
abbrev U32 := BitVec 32
abbrev U64 := BitVec 64
abbrev U128 := BitVec 128

/-- Literals index the register file, the segment registers and the TLB, and bytes are looked up
in lists: one name for each instance, in every module. -/
instance neZero_sixteen : NeZero 16 := ⟨by decide⟩
instance neZero_eight : NeZero 8 := ⟨by decide⟩
instance neZero_tlb : NeZero 256 := ⟨by decide⟩
instance lawfulBEq_u8 : LawfulBEq U8 := inferInstance

/-- Zero-extension to the widths the source casts to with `as`. -/
abbrev u8 {n : Nat} (v : BitVec n) : U8 := v.setWidth 8
abbrev u16 {n : Nat} (v : BitVec n) : U16 := v.setWidth 16
abbrev u32 {n : Nat} (v : BitVec n) : U32 := v.setWidth 32
abbrev u64 {n : Nat} (v : BitVec n) : U64 := v.setWidth 64
abbrev u128 {n : Nat} (v : BitVec n) : U128 := v.setWidth 128

/-- The low bit of a word made from a condition, as `b as u32` does. -/
def bit {n : Nat} (b : Bool) : BitVec n := if b then 1 else 0

/-- True when any bit of `mask` is set in `v`. -/
def test {n : Nat} (v mask : BitVec n) : Bool := v &&& mask != 0

/-- Little-endian assembly of a word from its bytes. -/
def le16 (b0 b1 : U8) : U16 := b1 ++ b0
def le32 (b0 b1 b2 b3 : U8) : U32 := b3 ++ b2 ++ b1 ++ b0
def le64 (lo hi : U32) : U64 := hi ++ lo

/-- Byte `k` of a word, in little-endian order. -/
def byteOf {n : Nat} (v : BitVec n) (k : Nat) : U8 := v.extractLsb' (8 * k) 8

theorem narrow_u64 {m : Nat} (hm : m ≤ 64) (a : BitVec m) : (u64 a).setWidth m = a := by
  rw [BitVec.setWidth_setWidth_of_le _ hm, BitVec.setWidth_eq]

theorem u8_u64 (a : U8) : u8 (u64 a) = a := narrow_u64 (by decide) a
theorem u16_u64 (a : U16) : u16 (u64 a) = a := narrow_u64 (by decide) a
theorem u32_u64 (a : U32) : u32 (u64 a) = a := narrow_u64 (by decide) a

theorem getLsbD_ones (w n i : Nat) :
    (BitVec.ofNat w (2 ^ n - 1)).getLsbD i = (decide (i < w) && decide (i < n)) := by
  rw [BitVec.getLsbD_ofNat, Nat.testBit_two_pow_sub_one]

theorem getLsbD_low32 (i : Nat) : (0xFFFFFFFF : U64).getLsbD i = decide (i < 32) := by
  rw [show (0xFFFFFFFF : U64) = BitVec.ofNat 64 (2 ^ 32 - 1) from rfl, getLsbD_ones]
  by_cases h : i < 32
  · simp [h]
    omega
  · simp [h]

@[simp] theorem le16_byteOf (v : U16) : le16 (byteOf v 0) (byteOf v 1) = v := by
  ext i hi
  simp [le16, byteOf]
  grind

@[simp] theorem le32_byteOf (v : U32) :
    le32 (byteOf v 0) (byteOf v 1) (byteOf v 2) (byteOf v 3) = v := by
  ext i hi
  simp [le32, byteOf]
  grind

theorem le64_halves (v : U64) : le64 (u32 v) (u32 (v >>> 32)) = v := by
  ext i hi
  simp [le64, u32]
  grind

theorem byteOf_le32 (b0 b1 b2 b3 : U8) :
    byteOf (le32 b0 b1 b2 b3) 0 = b0 ∧ byteOf (le32 b0 b1 b2 b3) 1 = b1 ∧
      byteOf (le32 b0 b1 b2 b3) 2 = b2 ∧ byteOf (le32 b0 b1 b2 b3) 3 = b3 := by
  refine ⟨?_, ?_, ?_, ?_⟩ <;>
  · ext i hi
    simp [le32, byteOf]
    grind

theorem le16_halves (v : U16) : le16 (u8 v) (u8 (v >>> 8)) = v := by
  ext i hi
  simp [le16, u8]
  grind

theorem le32_halves (b0 b1 b2 b3 : U8) : le32 b0 b1 b2 b3 = le16 b2 b3 ++ le16 b0 b1 := by
  ext i hi
  simp [le32, le16]
  grind

theorem le64_byteOf (v : U64) :
    le64 (le32 (byteOf v 0) (byteOf v 1) (byteOf v 2) (byteOf v 3))
      (le32 (byteOf v 4) (byteOf v 5) (byteOf v 6) (byteOf v 7)) = v := by
  have hlo : le32 (byteOf v 0) (byteOf v 1) (byteOf v 2) (byteOf v 3) = u32 v := by
    ext i hi
    simp [le32, byteOf]
    grind
  have hhi : le32 (byteOf v 4) (byteOf v 5) (byteOf v 6) (byteOf v 7) = u32 (v >>> 32) := by
    ext i hi
    simp [le32, byteOf]
    grind
  rw [hlo, hhi, le64_halves]

/-! ## Masks -/

theorem test_andNot {n : Nat} (v m : BitVec n) : test (v &&& ~~~m) m = false := by
  have h : v &&& ~~~m &&& m = 0 := by
    ext i hi
    simp
  simp [test, h]

theorem andNot_of_test {n : Nat} {v m : BitVec n} (h : test v m = false) : v &&& ~~~m = v := by
  have h0 : v &&& m = 0 := by simpa [test] using h
  ext i hi
  have hb : (v &&& m)[i] = false := by simp [h0]
  simp at hb ⊢
  grind

theorem andNot_or {n : Nat} (v m : BitVec n) : v &&& ~~~m ||| m = v ||| m := by
  ext i hi
  simp
  grind

theorem or_eq_self_of_and {n : Nat} {v m : BitVec n} (h : v &&& m = m) : v ||| m = v := by
  ext i hi
  have hb : (v &&& m)[i] = m[i] := by rw [h]
  simp at hb ⊢
  grind

theorem one_shiftLeft (n k : Nat) : (1 : BitVec n) <<< k = BitVec.twoPow n k := rfl

theorem test_bit {n k : Nat} (v : BitVec n) (hk : k < n) :
    test v ((1 : BitVec n) <<< k) = v.getLsbD k := by
  rw [one_shiftLeft, test, BitVec.and_twoPow]
  cases h : v.getLsbD k with
  | false => simp
  | true =>
    have hne : BitVec.twoPow n k ≠ 0 := by
      intro he
      have := congrArg (fun x => BitVec.getLsbD x k) he
      simp [hk] at this
    simpa using hne

theorem or_bit_of_test {n k : Nat} {v : BitVec n} (hk : k < n)
    (h : test v ((1 : BitVec n) <<< k) = true) : v ||| (1 : BitVec n) <<< k = v := by
  rw [test_bit v hk] at h
  apply or_eq_self_of_and
  rw [one_shiftLeft, BitVec.and_twoPow, if_pos h]

theorem getLsbD_bit {n : Nat} (b : Bool) (i : Nat) (hn : 0 < n) :
    (bit b : BitVec n).getLsbD i = (b && decide (i = 0)) := by
  cases b
  · simp [bit]
  · simp [bit, BitVec.getLsbD_one, hn]

/-- A mask at least as wide as a value keeps it. -/
theorem setWidth_and_ones {n : Nat} (v : BitVec n) (w : Nat) {k : Nat} (h : n ≤ k) :
    v.setWidth w &&& BitVec.ofNat w (2 ^ k - 1) = v.setWidth w := by
  apply BitVec.eq_of_getLsbD_eq
  intro i hi
  rw [BitVec.getLsbD_and, getLsbD_ones, BitVec.getLsbD_setWidth]
  by_cases hk : i < k
  · simp [hi, hk]
  · have hv : v.getLsbD i = false := BitVec.getLsbD_of_ge v i (by omega)
    simp [hv]

end X86Emu
