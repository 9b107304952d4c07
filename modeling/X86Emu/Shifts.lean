import X86Emu.Lib.ShiftSteps
import X86Emu.AluFlags
import X86Emu.Division

/-!
# Shifts and rotates

Every shift and rotate against its one-bit step repeated as often as the masked
count says.
-/
namespace X86Emu

open ShiftSteps

/-! ## The architecture -/

/-- One step of an operation on a word and the carry. -/
def ShiftOp.step {n : Nat} : ShiftOp → BitVec n × Bool → BitVec n × Bool
  | .rol => rolStep
  | .ror => rorStep
  | .rcl => ShiftSteps.rclStep
  | .rcr => ShiftSteps.rcrStep
  | .shl => shlStep
  | .shr => shrStep
  | .sar => sarStep

def ShiftOp.IsRotate : ShiftOp → Prop
  | .rol | .ror | .rcl | .rcr => True
  | .shl | .shr | .sar => False

/-- OF after a count of one: whether a left step changes the sign, the sign a right shift loses,
and what a right rotate leaves in the two top bits. -/
def ShiftOp.overflowOnce {n : Nat} (op : ShiftOp) (v : BitVec n) (c : Bool) : Bool :=
  let r := op.step (v, c)
  match op with
  | .shl | .rol | .rcl => r.1.msb ^^ r.2
  | .shr => v.msb
  | .sar => false
  | .ror => r.1.msb ^^ r.1.getLsbD (n - 2)
  | .rcr => v.msb ^^ c

/-- The count a shift of this width uses: its low five bits, or six at 64. -/
def maskedCount (w : Width) (count : U8) : Nat := count.toNat % if w = .w64 then 64 else 32

/-- What a shift or rotate of `v` owes. -/
structure ShiftExact (op : ShiftOp) (w : Width) (v : BitVec w.bits) (count : U8) (fl : U32) :
    Prop where
  value : (shiftWidth op (u64 v) (u32 count) w fl).1 =
    u64 (op.step^[maskedCount w count] (v, test fl Flags.cf)).1
  carry : test (shiftWidth op (u64 v) (u32 count) w fl).2 Flags.cf =
    (op.step^[maskedCount w count] (v, test fl Flags.cf)).2
  overflow : maskedCount w count = 1 → test (shiftWidth op (u64 v) (u32 count) w fl).2 Flags.of =
    op.overflowOnce v (test fl Flags.cf)
  unchanged : maskedCount w count = 0 → (shiftWidth op (u64 v) (u32 count) w fl).2 = fl
  rotate : op.IsRotate → ∀ f ∈ [Flags.sf, Flags.zf, Flags.pf],
    test (shiftWidth op (u64 v) (u32 count) w fl).2 f = test fl f
  shift : ¬op.IsRotate → maskedCount w count ≠ 0 →
    let r := (op.step^[maskedCount w count] (v, test fl Flags.cf)).1
    test (shiftWidth op (u64 v) (u32 count) w fl).2 Flags.sf = r.msb ∧
      test (shiftWidth op (u64 v) (u32 count) w fl).2 Flags.zf = decide (r = 0) ∧
      (test (shiftWidth op (u64 v) (u32 count) w fl).2 Flags.pf = true ↔ EvenParity r)

/-! ## Bits of an operand -/

section Bits

variable {w : Width} (v : BitVec w.bits) {i : Nat}

theorem width_le (w : Width) : w.bits ≤ 64 := by cases w <;> decide

theorem width_ge (w : Width) : 8 ≤ w.bits := by cases w <;> decide

theorem getLsbD_mask (w : Width) (i : Nat) : w.mask.getLsbD i = decide (i < w.bits) := by
  have hmask : w.mask = BitVec.ofNat 64 (2 ^ w.bits - 1) := by cases w <;> rfl
  have hbits := width_le w
  rw [hmask, getLsbD_ones, ← Bool.decide_and]
  exact decide_eq_decide.mpr ⟨fun h => h.2, fun h => ⟨by omega, h⟩⟩

theorem getLsbD_u64 (v : BitVec w.bits) (i : Nat) : (u64 v).getLsbD i = v.getLsbD i := by
  have hbits := width_le w
  rw [BitVec.getLsbD_setWidth]
  by_cases h : i < 64
  · simp [h]
  · simp [h, BitVec.getLsbD_of_ge v i (by omega)]

theorem and_mask : u64 v &&& w.mask = u64 v := by
  apply BitVec.eq_of_getLsbD_eq
  intro i hi
  rw [BitVec.getLsbD_and, getLsbD_mask, getLsbD_u64]
  by_cases h : i < w.bits
  · simp [h]
  · simp [h, BitVec.getLsbD_of_ge v i (by omega)]

/-- A word is known by its bits below the width. -/
theorem eq_u64_of_bits {r : U64}
    (h : ∀ i < 64, r.getLsbD i = (decide (i < w.bits) && v.getLsbD i)) :
    r = u64 v := by
  apply BitVec.eq_of_getLsbD_eq
  intro i hi
  rw [h i hi, getLsbD_u64]
  by_cases hw : i < w.bits
  · simp [hw]
  · simp [hw, BitVec.getLsbD_of_ge v i (by omega)]

theorem test_low (r : U64) : test r 1 = r.getLsbD 0 := test_bit (k := 0) r (by decide)

theorem test_signBit (r : U64) (w : Width) : test r (signBit w) = r.getLsbD (w.bits - 1) := by
  cases w with
  | w8 => exact test_bit (k := 7) r (by decide)
  | w16 => exact test_bit (k := 15) r (by decide)
  | w32 => exact test_bit (k := 31) r (by decide)
  | w64 => exact test_bit (k := 63) r (by decide)

end Bits

/-! ## The values -/

section Values

variable {w : Width} (v : BitVec w.bits) (c : Bool) {k : Nat}

theorem shl_value (hk : k < 64) :
    (u64 v <<< min k 63) &&& w.mask = u64 (shlStep^[k] (v, c)).1 := by
  refine eq_u64_of_bits _ fun i hi => ?_
  rw [BitVec.getLsbD_and, getLsbD_mask, BitVec.getLsbD_shiftLeft, Nat.min_eq_left (by omega),
    getLsbD_u64, Bool.and_comm]
  by_cases hw : i < w.bits
  · have h := above_shl (v, c) k (by omega) hw.le
    rw [above_lt _ hw] at h
    rw [h, above_lt _ (by omega)]
    by_cases hki : k ≤ i
    · simp [hi, hki, show ¬i < k by omega]
    · simp [hki, show i < k by omega]
  · simp [hw]

theorem shl_carry (hk : 0 < k) :
    (decide (k ≤ w.bits) && test (u64 v >>> (w.bits - min k w.bits)) 1) =
      (shlStep^[k] (v, c)).2 := by
  have hpos := width_ge w
  have h := above_shl (v, c) k (by omega) (Nat.le_refl w.bits)
  rw [above_top] at h
  rw [h, test_low, BitVec.getLsbD_ushiftRight, getLsbD_u64, Nat.add_zero]
  by_cases hkw : k ≤ w.bits
  · rw [above_lt _ (by omega), Nat.min_eq_left hkw]
  · simp [hkw]

theorem shr_value : (if k ≥ w.bits then 0 else u64 v >>> k) = u64 (shrStep^[k] (v, c)).1 := by
  refine eq_u64_of_bits _ fun i hi => ?_
  have h := below_shr (v, c) k (i + 1)
  rw [below_succ, Nat.add_right_comm, below_succ] at h
  rw [h]
  split
  · simp [BitVec.getLsbD_of_ge v (i + k) (by omega)]
  · rw [BitVec.getLsbD_ushiftRight, getLsbD_u64, Nat.add_comm]
    by_cases hw : i < w.bits
    · simp [hw]
    · simp [hw, BitVec.getLsbD_of_ge v (i + k) (by omega)]

theorem shr_carry (hk : 0 < k) :
    (decide (k ≤ w.bits) && test (u64 v >>> (k - 1)) 1) = (shrStep^[k] (v, c)).2 := by
  have h := below_shr (v, c) k 0
  rw [below_zero, Nat.zero_add, show k = k - 1 + 1 by omega, below_succ] at h
  rw [show k = k - 1 + 1 by omega, h, test_low, BitVec.getLsbD_ushiftRight, getLsbD_u64]
  by_cases hkw : k - 1 + 1 ≤ w.bits
  · simp [hkw]
  · simp [hkw, BitVec.getLsbD_of_ge v (k - 1) (by omega)]

/-- Bits of the operand shifted right with its sign, in the host's 64 bits. -/
theorem getLsbD_sar_wide (m : Nat) {i : Nat} (hi : i < 64) :
    ((sext (u64 v) w).sshiftRight m).getLsbD i = v.getLsbD (min (i + m) (w.bits - 1)) := by
  have hpos := width_ge w
  have hbits := width_le w
  have hsext : sext (u64 v) w = v.signExtend 64 := by rw [sext_eq, narrow_u64 hbits]
  have hbit (j : Nat) (hj : j < 64) :
      (v.signExtend 64).getLsbD j = v.getLsbD (min j (w.bits - 1)) := by
    rw [BitVec.getLsbD_signExtend]
    by_cases h : j < w.bits
    · simp [hj, h, Nat.min_eq_left (show j ≤ w.bits - 1 by omega)]
    · simp [hj, h, Nat.min_eq_right (show w.bits - 1 ≤ j by omega), BitVec.msb_eq_getLsbD_last]
  rw [hsext, BitVec.getLsbD_sshiftRight]
  by_cases h : m + i < 64
  · rw [if_pos h, hbit _ h, Nat.add_comm]
    simp [hi]
  · have hmsb : (v.signExtend 64).msb = v.getLsbD (w.bits - 1) := by
      rw [BitVec.msb_eq_getLsbD_last, hbit _ (by decide), Nat.min_eq_right (by omega)]
    simp [hi, h, hmsb, Nat.min_eq_right (show w.bits - 1 ≤ i + m by omega)]

theorem sar_value :
    (sext (u64 v) w).sshiftRight (min k (w.bits - 1)) &&& w.mask = u64 (sarStep^[k] (v, c)).1 := by
  have hpos := width_ge w
  refine eq_u64_of_bits _ fun i hi => ?_
  rw [BitVec.getLsbD_and, getLsbD_mask, getLsbD_sar_wide v _ hi, Bool.and_comm]
  by_cases hw : i < w.bits
  · have h := below_sar (v, c) k (by omega) (show i + 1 ≤ w.bits by omega)
    rw [below_succ, show min (i + 1 + k) w.bits = min (i + k) (w.bits - 1) + 1 by omega,
      below_succ] at h
    rw [h]
    congr 2
    omega
  · simp [hw]

theorem sar_carry (hk : 0 < k) :
    test ((sext (u64 v) w).sshiftRight (min (k - 1) (w.bits - 1))) 1 = (sarStep^[k] (v, c)).2 := by
  have hpos := width_ge w
  have h := below_sar (v, c) k (by omega) (Nat.zero_le w.bits)
  rw [below_zero, show min (0 + k) w.bits = min (k - 1) (w.bits - 1) + 1 by omega, below_succ] at h
  rw [h, test_low, getLsbD_sar_wide v _ (by decide)]
  congr 1
  omega

/-- A left step round a ring is a right step the other way round. -/
theorem ring_left {N : Nat} (hN : 0 < N) (i k : Nat) :
    (i + k * (N - 1)) % N = (i + (N - k % N)) % N := by
  have hlt := Nat.mod_lt k hN
  have hsum : k * (N - 1) + k % N + N * (k / N) = N * k := by
    rw [Nat.add_assoc, Nat.mod_add_div]
    obtain ⟨M, rfl⟩ : ∃ M, N = M + 1 := ⟨N - 1, by omega⟩
    rw [Nat.add_sub_cancel]
    ring
  have hleft : (i + k * (N - 1) + (k % N + N * (k / N))) % N = i % N := by
    rw [show i + k * (N - 1) + (k % N + N * (k / N)) = i + N * k by omega, Nat.add_mul_mod_self_left]
  have hright : (i + (N - k % N) + (k % N + N * (k / N))) % N = i % N := by
    rw [show i + (N - k % N) + (k % N + N * (k / N)) = i + N * (k / N + 1) by
      rw [Nat.mul_add, Nat.mul_one]
      omega, Nat.add_mul_mod_self_left]
  exact Nat.ModEq.add_right_cancel' _ (hleft.trans hright.symm)

theorem ring_index {N i j : Nat} (hi : i < N) (hj : j < N) (hj0 : j ≠ 0) :
    (i + (N - j)) % N = if j ≤ i then i - j else i + N - j := by
  have hpos : 0 < j := Nat.pos_of_ne_zero hj0
  split
  · rw [show i + (N - j) = i - j + N by omega, Nat.add_mod_right, Nat.mod_eq_of_lt (by omega)]
  · rw [Nat.mod_eq_of_lt (by omega)]
    omega

theorem rol_value : (if k % w.bits = 0 then u64 v
    else (u64 v <<< (k % w.bits) ||| u64 v >>> (w.bits - k % w.bits)) &&& w.mask) =
      u64 (rolStep^[k] (v, c)).1 := by
  have hpos := width_ge w
  have hj := Nat.mod_lt k (show 0 < w.bits by omega)
  refine eq_u64_of_bits _ fun i hi => ?_
  by_cases hw : i < w.bits
  · have h := getLsbD_rol (v, c) k hw
    rw [ring_left (by omega)] at h
    rw [h]
    split
    · rename_i h0
      rw [h0, Nat.sub_zero, Nat.add_mod_right, Nat.mod_eq_of_lt hw, getLsbD_u64]
      simp [hw]
    · rename_i h0
      rw [ring_index hw hj h0, BitVec.getLsbD_and, getLsbD_mask, BitVec.getLsbD_or,
        BitVec.getLsbD_shiftLeft, BitVec.getLsbD_ushiftRight, getLsbD_u64, getLsbD_u64]
      by_cases hji : k % w.bits ≤ i
      · simp [hi, hw, hji, show ¬i < k % w.bits by omega,
          BitVec.getLsbD_of_ge v (w.bits - k % w.bits + i) (by omega)]
      · simp [hw, hji, show i < k % w.bits by omega,
          show w.bits - k % w.bits + i = i + w.bits - k % w.bits by omega]
  · split
    · rw [getLsbD_u64, BitVec.getLsbD_of_ge v i (by omega)]
      simp [hw]
    · rw [BitVec.getLsbD_and, getLsbD_mask]
      simp [hw]

theorem ror_value : (if k % w.bits = 0 then u64 v
    else (u64 v >>> (k % w.bits) ||| u64 v <<< (w.bits - k % w.bits)) &&& w.mask) =
      u64 (rorStep^[k] (v, c)).1 := by
  have hpos := width_ge w
  have hlt := Nat.mod_lt k (show 0 < w.bits by omega)
  refine eq_u64_of_bits _ fun i hi => ?_
  by_cases hw : i < w.bits
  · have h := getLsbD_ror (v, c) k hw
    rw [← Nat.add_mod_mod] at h
    rw [h]
    obtain ⟨j, hj⟩ : ∃ j, k % w.bits = j := ⟨_, rfl⟩
    rw [hj] at hlt ⊢
    split
    · rename_i h0
      rw [h0, Nat.add_zero, Nat.mod_eq_of_lt hw, getLsbD_u64]
      simp [hw]
    · rw [BitVec.getLsbD_and, getLsbD_mask, BitVec.getLsbD_or, BitVec.getLsbD_shiftLeft,
        BitVec.getLsbD_ushiftRight, getLsbD_u64, getLsbD_u64]
      by_cases hji : i < w.bits - j
      · rw [Nat.mod_eq_of_lt (by omega : i + j < w.bits), Nat.add_comm]
        simp [hw, hji]
      · rw [show i + j = i - (w.bits - j) + w.bits by omega, Nat.add_mod_right,
          Nat.mod_eq_of_lt (by omega)]
        simp [hi, hw, hji, BitVec.getLsbD_of_ge v (j + i) (by omega)]
  · split
    · rw [getLsbD_u64, BitVec.getLsbD_of_ge v i (by omega)]
      simp [hw]
    · rw [BitVec.getLsbD_and, getLsbD_mask]
      simp [hw]

theorem rol_carry (hk : 0 < k) :
    (rolStep^[k] (v, c)).2 = (rolStep^[k] (v, c)).1.getLsbD 0 := by
  have hpos := width_ge w
  obtain ⟨j, rfl⟩ : ∃ j, k = j + 1 := ⟨k - 1, by omega⟩
  rw [Function.iterate_succ_apply', getLsbD_rolStep _ (by omega), Nat.zero_add,
    Nat.mod_eq_of_lt (by omega)]
  exact BitVec.msb_eq_getLsbD_last _

theorem ror_carry (hk : 0 < k) :
    (rorStep^[k] (v, c)).2 = (rorStep^[k] (v, c)).1.getLsbD (w.bits - 1) := by
  have hpos := width_ge w
  obtain ⟨j, rfl⟩ : ∃ j, k = j + 1 := ⟨k - 1, by omega⟩
  rw [Function.iterate_succ_apply', getLsbD_rorStep _ (by omega), Nat.sub_add_cancel (by omega),
    Nat.mod_self]
  rfl

/-- The operand with the carry parked above it, as the narrow rotates through carry hold it. -/
def parked (v : BitVec w.bits) (c : Bool) : U64 := u64 v ||| bit c <<< w.bits

theorem narrow_le (hw : w ≠ .w64) : w.bits ≤ 32 := by
  revert hw
  cases w <;> decide

theorem getLsbD_parked (hw : w ≠ .w64) (i : Nat) :
    (parked v c).getLsbD i = (decide (i ≤ w.bits) && above (v, c) i) := by
  have hbits := narrow_le hw
  have hbit (j : Nat) : (bit c : U64).getLsbD j = (decide (j = 0) && c) := by
    cases c with
    | false => simp [bit]
    | true => simp [bit, BitVec.getLsbD_one]
  rw [parked, BitVec.getLsbD_or, getLsbD_u64, BitVec.getLsbD_shiftLeft, hbit]
  obtain h | rfl | h := Nat.lt_trichotomy i w.bits
  · rw [above_lt _ h]
    simp [h, h.le]
  · rw [above_top]
    simp [show w.bits < 64 by omega]
  · simp [BitVec.getLsbD_of_ge v i h.le, show ¬i ≤ w.bits by omega, show i - w.bits ≠ 0 by omega]

theorem getLsbD_full (hw : w ≠ .w64) {i : Nat} (hi : i < 64) :
    ((1 : U64) <<< (w.bits + 1) - 1).getLsbD i = decide (i < w.bits + 1) := by
  have hfull : (1 : U64) <<< (w.bits + 1) - 1 = BitVec.ofNat 64 (2 ^ (w.bits + 1) - 1) := by
    cases w with
    | w64 => exact absurd rfl hw
    | w8 | w16 | w32 => rfl
  rw [hfull, getLsbD_ones]
  simp [hi]

/-- The carry and the operand, rotated as one word, are its bits above and below the width. -/
theorem parked_parts {rot : U64} {p : BitVec w.bits × Bool}
    (h : ∀ i ≤ w.bits, rot.getLsbD i = above p i) :
    rot &&& w.mask = u64 p.1 ∧ test (rot >>> w.bits) 1 = p.2 := by
  constructor
  · refine eq_u64_of_bits _ fun i hi => ?_
    rw [BitVec.getLsbD_and, getLsbD_mask, Bool.and_comm]
    by_cases hlt : i < w.bits
    · rw [h i hlt.le, above_lt _ hlt]
    · simp [hlt]
  · rw [test_low, BitVec.getLsbD_ushiftRight, Nat.add_zero, h _ (Nat.le_refl _), above_top]

theorem rcl_parked (hw : w ≠ .w64) {i : Nat} (hi : i ≤ w.bits) :
    (if k % (w.bits + 1) = 0 then parked v c
      else (parked v c <<< (k % (w.bits + 1)) |||
        parked v c >>> (w.bits + 1 - k % (w.bits + 1))) &&&
          ((1 : U64) <<< (w.bits + 1) - 1)).getLsbD i = above (ShiftSteps.rclStep^[k] (v, c)) i := by
  have hpos := width_ge w
  have hbits := narrow_le hw
  have h := above_rcl (v, c) k (by omega) hi
  rw [show i + k * w.bits = i + k * (w.bits + 1 - 1) by rw [Nat.add_sub_cancel],
    ring_left (Nat.succ_pos _)] at h
  have hlt := Nat.mod_lt k (Nat.succ_pos w.bits)
  obtain ⟨j, hj⟩ : ∃ j, k % (w.bits + 1) = j := ⟨_, rfl⟩
  rw [Nat.succ_eq_add_one, hj] at hlt
  rw [hj] at h ⊢
  rw [h]
  split
  · rename_i h0
    rw [h0, Nat.sub_zero, Nat.add_mod_right, Nat.mod_eq_of_lt (by omega),
      getLsbD_parked v c hw]
    simp [hi]
  · rename_i h0
    rw [ring_index (by omega) hlt h0, BitVec.getLsbD_and, getLsbD_full hw (by omega),
      BitVec.getLsbD_or, BitVec.getLsbD_shiftLeft, BitVec.getLsbD_ushiftRight,
      getLsbD_parked v c hw, getLsbD_parked v c hw]
    by_cases hji : j ≤ i
    · simp [hji, show i < 64 by omega, show ¬i < j by omega, show i - j ≤ w.bits by omega,
        show i < w.bits + 1 by omega, show ¬w.bits + 1 - j + i ≤ w.bits by omega]
    · rw [show w.bits + 1 - j + i = i + (w.bits + 1) - j by omega]
      simp [hji, show i < j by omega, show i < w.bits + 1 by omega,
        show i + (w.bits + 1) ≤ w.bits + j by omega]

theorem rcr_parked (hw : w ≠ .w64) {i : Nat} (hi : i ≤ w.bits) :
    (if k % (w.bits + 1) = 0 then parked v c
      else (parked v c >>> (k % (w.bits + 1)) |||
        parked v c <<< (w.bits + 1 - k % (w.bits + 1))) &&&
          ((1 : U64) <<< (w.bits + 1) - 1)).getLsbD i = above (ShiftSteps.rcrStep^[k] (v, c)) i := by
  have hpos := width_ge w
  have hbits := narrow_le hw
  have h := above_rcr (v, c) k (by omega) hi
  rw [← Nat.add_mod_mod] at h
  have hlt := Nat.mod_lt k (Nat.succ_pos w.bits)
  obtain ⟨j, hj⟩ : ∃ j, k % (w.bits + 1) = j := ⟨_, rfl⟩
  rw [Nat.succ_eq_add_one, hj] at hlt
  rw [hj] at h ⊢
  rw [h]
  split
  · rename_i h0
    rw [h0, Nat.add_zero, Nat.mod_eq_of_lt (by omega), getLsbD_parked v c hw]
    simp [hi]
  · rw [BitVec.getLsbD_and, getLsbD_full hw (by omega), BitVec.getLsbD_or,
      BitVec.getLsbD_shiftLeft, BitVec.getLsbD_ushiftRight,
      getLsbD_parked v c hw, getLsbD_parked v c hw]
    by_cases hji : i < w.bits + 1 - j
    · rw [Nat.mod_eq_of_lt (by omega), Nat.add_comm i j]
      simp [hji, show i < w.bits + 1 by omega, show j + i ≤ w.bits by omega]
    · rw [show i + j = i - (w.bits + 1 - j) + (w.bits + 1) by omega, Nat.add_mod_right,
        Nat.mod_eq_of_lt (by omega)]
      simp [hji, show i < 64 by omega, show i < w.bits + 1 by omega,
        show ¬j + i ≤ w.bits by omega, show i - (w.bits + 1 - j) ≤ w.bits by omega]

end Values

theorem rclStep_eq : X86Emu.rclStep = ShiftSteps.rclStep (n := 64) := rfl

theorem rcrStep_eq : X86Emu.rcrStep = ShiftSteps.rcrStep (n := 64) := by
  funext p
  rw [X86Emu.rcrStep, ShiftSteps.rcrStep, test_low]
  rfl

/-- The value and CF of RCL, at 64 bits one step at a time and below as one parked word. -/
theorem rcl_pair {w : Width} (v : BitVec w.bits) (c : Bool) {k : Nat} (hk : k < 64) :
    (if w = .w64 then rclRcr64 (u64 v) c (k % (w.bits + 1)) true
      else
        ((if k % (w.bits + 1) = 0 then u64 v ||| bit c <<< w.bits
          else ((u64 v ||| bit c <<< w.bits) <<< (k % (w.bits + 1)) |||
            (u64 v ||| bit c <<< w.bits) >>> (w.bits + 1 - k % (w.bits + 1))) &&&
              ((1 : U64) <<< (w.bits + 1) - 1)) &&& w.mask,
          test ((if k % (w.bits + 1) = 0 then u64 v ||| bit c <<< w.bits
            else ((u64 v ||| bit c <<< w.bits) <<< (k % (w.bits + 1)) |||
              (u64 v ||| bit c <<< w.bits) >>> (w.bits + 1 - k % (w.bits + 1))) &&&
                ((1 : U64) <<< (w.bits + 1) - 1)) >>> w.bits) 1)) =
      (u64 (ShiftSteps.rclStep^[k] (v, c)).1, (ShiftSteps.rclStep^[k] (v, c)).2) := by
  split
  · rename_i hw
    subst hw
    rw [show k % (Width.w64.bits + 1) = k from Nat.mod_eq_of_lt (hk.trans (by decide)), rclRcr64,
      if_pos rfl, rclStep_eq, show u64 v = v from BitVec.setWidth_eq v]
    exact Prod.ext (BitVec.setWidth_eq _).symm rfl
  · rename_i hw
    obtain ⟨hr, hcf⟩ := parked_parts fun i hi => rcl_parked v c hw (k := k) hi
    exact Prod.ext hr hcf

theorem rcr_pair {w : Width} (v : BitVec w.bits) (c : Bool) {k : Nat} (hk : k < 64) :
    (if w = .w64 then rclRcr64 (u64 v) c (k % (w.bits + 1)) false
      else
        ((if k % (w.bits + 1) = 0 then u64 v ||| bit c <<< w.bits
          else ((u64 v ||| bit c <<< w.bits) >>> (k % (w.bits + 1)) |||
            (u64 v ||| bit c <<< w.bits) <<< (w.bits + 1 - k % (w.bits + 1))) &&&
              ((1 : U64) <<< (w.bits + 1) - 1)) &&& w.mask,
          test ((if k % (w.bits + 1) = 0 then u64 v ||| bit c <<< w.bits
            else ((u64 v ||| bit c <<< w.bits) >>> (k % (w.bits + 1)) |||
              (u64 v ||| bit c <<< w.bits) <<< (w.bits + 1 - k % (w.bits + 1))) &&&
                ((1 : U64) <<< (w.bits + 1) - 1)) >>> w.bits) 1)) =
      (u64 (ShiftSteps.rcrStep^[k] (v, c)).1, (ShiftSteps.rcrStep^[k] (v, c)).2) := by
  split
  · rename_i hw
    subst hw
    rw [show k % (Width.w64.bits + 1) = k from Nat.mod_eq_of_lt (hk.trans (by decide)), rclRcr64,
      if_neg (by decide), rcrStep_eq, show u64 v = v from BitVec.setWidth_eq v]
    exact Prod.ext (BitVec.setWidth_eq _).symm rfl
  · rename_i hw
    obtain ⟨hr, hcf⟩ := parked_parts fun i hi => rcr_parked v c hw (k := k) hi
    exact Prod.ext hr hcf

/-- The two top bits after RCR by one are the carry and the sign before it. -/
theorem rcr_overflow {w : Width} (v : BitVec w.bits) (c : Bool) :
    (v.msb ^^ c) = ((ShiftSteps.rcrStep (v, c)).1.msb ^^
      (ShiftSteps.rcrStep (v, c)).1.getLsbD (w.bits - 2)) := by
  have hpos := width_ge w
  have htop := above_rcrStep (v, c) (by omega) (show w.bits - 1 ≤ w.bits by omega)
  have hsecond := above_rcrStep (v, c) (by omega) (show w.bits - 2 ≤ w.bits by omega)
  rw [above_lt _ (by omega), Nat.sub_add_cancel (by omega), Nat.mod_eq_of_lt (by omega),
    above_top] at htop
  rw [above_lt _ (by omega), show w.bits - 2 + 1 = w.bits - 1 by omega,
    Nat.mod_eq_of_lt (by omega), above_lt _ (by omega)] at hsecond
  rw [BitVec.msb_eq_getLsbD_last, BitVec.msb_eq_getLsbD_last, htop, hsecond, Bool.xor_comm]

/-! ## The flags -/

theorem msb_u64 {w : Width} (v : BitVec w.bits) : test (u64 v) (signBit w) = v.msb := by
  rw [test_signBit, getLsbD_u64, BitVec.msb_eq_getLsbD_last]

theorem second_u64 {w : Width} (v : BitVec w.bits) :
    test (u64 v >>> (w.bits - 2)) 1 = v.getLsbD (w.bits - 2) := by
  rw [test_low, BitVec.getLsbD_ushiftRight, getLsbD_u64, Nat.add_zero]

theorem masked_toNat (w : Width) (count : U8) :
    (u32 count &&& if w = .w64 then 0x3F else 0x1F).toNat = maskedCount w count := by
  have hcount : (u32 count).toNat = count.toNat := BitVec.toNat_setWidth_of_le (by decide)
  rw [maskedCount, BitVec.toNat_and, hcount]
  split
  · exact Nat.and_two_pow_sub_one_eq_mod count.toNat 6
  · exact Nat.and_two_pow_sub_one_eq_mod count.toNat 5

theorem maskedCount_lt (w : Width) (count : U8) : maskedCount w count < 64 := by
  unfold maskedCount
  split <;> omega

theorem logicFlags_word {w : Width} (r : BitVec w.bits) (fl : U32) :
    setLogicFlagsWidth (u64 r) w fl = setLogicFlags r fl := by
  cases w with
  | w8 => exact congrArg (fun x : U8 => setLogicFlags x fl) (u8_u64 r)
  | w16 => exact congrArg (fun x : U16 => setLogicFlags x fl) (u16_u64 r)
  | w32 => exact congrArg (fun x : U32 => setLogicFlags x fl) (u32_u64 r)
  | w64 => exact congrArg (fun x : U64 => setLogicFlags x fl) (BitVec.setWidth_eq r)

/-- The flags after a shift with result `r`, before OF. -/
def ShiftOp.logic (op : ShiftOp) {w : Width} (r : BitVec w.bits) (fl : U32) : U32 :=
  match op with
  | .rol | .ror | .rcl | .rcr => fl
  | .shl | .shr | .sar => setLogicFlags r fl

/-- A shift by a count that is not zero: the value and CF of the steps, with OF set last. -/
theorem shiftWidth_run (op : ShiftOp) {w : Width} (v : BitVec w.bits) {count : U8} (fl : U32)
    (hk : maskedCount w count ≠ 0) :
    ∃ o, (maskedCount w count = 1 → o = op.overflowOnce v (test fl Flags.cf)) ∧
      shiftWidth op (u64 v) (u32 count) w fl =
        (u64 (op.step^[maskedCount w count] (v, test fl Flags.cf)).1,
          setFlag Flags.of o (op.logic (op.step^[maskedCount w count] (v, test fl Flags.cf)).1
            (setFlag Flags.cf (op.step^[maskedCount w count] (v, test fl Flags.cf)).2 fl))) := by
  have hlt := maskedCount_lt w count
  unfold shiftWidth
  rw [masked_toNat]
  obtain ⟨k, hk'⟩ : ∃ k, maskedCount w count = k := ⟨_, rfl⟩
  obtain ⟨c, hc⟩ : ∃ c, test fl Flags.cf = c := ⟨_, rfl⟩
  rw [hk'] at hk hlt ⊢
  rw [hc]
  have hpos : 0 < k := by omega
  simp only [if_neg hk, and_mask]
  cases op with
  | shl =>
    simp only [shl_value v c hlt, shl_carry v c hpos, logicFlags_word, msb_u64]
    refine ⟨_, ?_, rfl⟩
    rintro rfl
    simp [ShiftOp.overflowOnce, ShiftOp.step]
  | shr =>
    simp only [shr_value v c, shr_carry v c hpos, logicFlags_word, msb_u64]
    refine ⟨_, ?_, rfl⟩
    rintro rfl
    simp [ShiftOp.overflowOnce]
  | sar =>
    simp only [sar_value v c, sar_carry v c hpos, logicFlags_word]
    exact ⟨_, fun _ => rfl, rfl⟩
  | rol =>
    simp only [rol_value v c, test_low, getLsbD_u64, ← rol_carry v c hpos, msb_u64]
    refine ⟨_, ?_, rfl⟩
    rintro rfl
    simp [ShiftOp.overflowOnce, ShiftOp.step]
  | ror =>
    simp only [ror_value v c, test_signBit, getLsbD_u64, ← ror_carry v c hpos, second_u64]
    refine ⟨_, ?_, rfl⟩
    rintro rfl
    have hcarry := ror_carry v c (k := 1) (by decide)
    rw [Function.iterate_one] at hcarry
    simp only [ShiftOp.overflowOnce, ShiftOp.step, Function.iterate_one]
    rw [BitVec.msb_eq_getLsbD_last, ← hcarry]
    simp
  | rcl =>
    simp only [rcl_pair v c hlt, msb_u64]
    refine ⟨_, ?_, rfl⟩
    rintro rfl
    simp [ShiftOp.overflowOnce, ShiftOp.step]
  | rcr =>
    simp only [rcr_pair v c hlt, msb_u64, second_u64]
    refine ⟨_, ?_, rfl⟩
    rintro rfl
    simp only [ShiftOp.overflowOnce, Function.iterate_one]
    rw [rcr_overflow]
    simp

theorem test_logicFlags_other {n : Nat} (r : BitVec n) (fl : U32) {f : U32}
    (hs : Flags.sf &&& f = 0) (hz : Flags.zf &&& f = 0) (hp : Flags.pf &&& f = 0) :
    test (setLogicFlags r fl) f = test fl f := by
  rw [setLogicFlags, test_setFlag_other hp, test_setFlag_other hz, test_setFlag_other hs]

theorem test_logic_cf (op : ShiftOp) {w : Width} (r : BitVec w.bits) (fl : U32) :
    test (op.logic r fl) Flags.cf = test fl Flags.cf := by
  cases op with
  | rol | ror | rcl | rcr => rfl
  | shl | shr | sar => exact test_logicFlags_other r fl (by decide) (by decide) (by decide)

/-- SF, ZF and PF of a result are its own. -/
theorem logicFlags_result {n : Nat} (r : BitVec n) (fl : U32) :
    test (setLogicFlags r fl) Flags.sf = r.msb ∧
      test (setLogicFlags r fl) Flags.zf = decide (r = 0) ∧
      (test (setLogicFlags r fl) Flags.pf = true ↔ EvenParity r) := by
  obtain ⟨hz, hs, hp⟩ := test_setLogicFlags r fl
  refine ⟨hs, hz, ?_⟩
  rw [hp, parity_low, decide_eq_true_iff]

theorem shift_exact (op : ShiftOp) (w : Width) (v : BitVec w.bits) (count : U8) (fl : U32) :
    ShiftExact op w v count fl := by
  by_cases hk : maskedCount w count = 0
  · have hrun : shiftWidth op (u64 v) (u32 count) w fl = (u64 v, fl) := by
      unfold shiftWidth
      rw [masked_toNat]
      exact if_pos hk
    refine ⟨?_, ?_, ?_, ?_, ?_, ?_⟩
    · rw [hrun, hk]
      rfl
    · rw [hrun, hk]
      rfl
    · intro h
      omega
    · intro _
      rw [hrun]
    · intro _ f _
      rw [hrun]
    · intro _ h
      exact absurd hk h
  · obtain ⟨o, hof, hrun⟩ := shiftWidth_run op v fl hk
    refine ⟨?_, ?_, ?_, ?_, ?_, ?_⟩
    · rw [hrun]
    · rw [hrun, test_setFlag_other (by decide), test_logic_cf, test_setFlag_self (by decide)]
    · intro h
      rw [hrun, test_setFlag_self (by decide), hof h]
    · intro h
      exact absurd h hk
    · intro hrot f hf
      have hone : op.logic (op.step^[maskedCount w count] (v, test fl Flags.cf)).1
          (setFlag Flags.cf (op.step^[maskedCount w count] (v, test fl Flags.cf)).2 fl) =
            setFlag Flags.cf (op.step^[maskedCount w count] (v, test fl Flags.cf)).2 fl := by
        cases op with
        | rol | ror | rcl | rcr => rfl
        | shl | shr | sar => exact absurd hrot id
      have hdisjoint : ∀ f ∈ [Flags.sf, Flags.zf, Flags.pf],
          Flags.of &&& f = 0 ∧ Flags.cf &&& f = 0 := by
        intro f hf
        simp only [List.mem_cons, List.not_mem_nil, or_false] at hf
        obtain rfl | rfl | rfl := hf <;> decide
      rw [hrun, hone, test_setFlag_other (hdisjoint f hf).1, test_setFlag_other (hdisjoint f hf).2]
    · intro hshift _
      have hone (r : BitVec w.bits) (fl : U32) : op.logic r fl = setLogicFlags r fl := by
        cases op with
        | rol | ror | rcl | rcr => exact absurd trivial hshift
        | shl | shr | sar => rfl
      rw [hrun, hone]
      dsimp only
      rw [test_setFlag_other (by decide), test_setFlag_other (by decide),
        test_setFlag_other (by decide)]
      exact logicFlags_result _ _

/-! ## Double-precision shifts -/

section Double

variable {n : Nat}

/-- The destination after `k` one-bit shifts of itself and the source as one word of twice the
width, with the last bit out. -/
def doubleSteps (left : Bool) (d src : BitVec n) (c : Bool) (k : Nat) : BitVec n × Bool :=
  if left then
    (((shlStep^[k] (d ++ src, c)).1 >>> n).setWidth n, (shlStep^[k] (d ++ src, c)).2)
  else ((shrStep^[k] (src ++ d, c)).1.setWidth n, (shrStep^[k] (src ++ d, c)).2)

/-- What SHLD or SHRD owes its destination `d`, leaving the result `r` and the flags `fl'`. -/
structure DoubleShiftExact (left : Bool) {w : Width} (d src : BitVec w.bits) (k : Nat)
    (fl : U32) (r : U64) (fl' : U32) : Prop where
  value : r = u64 (doubleSteps left d src (test fl Flags.cf) k).1
  carry : test fl' Flags.cf = (doubleSteps left d src (test fl Flags.cf) k).2
  overflow : k = 1 → test fl' Flags.of =
    (d.msb ^^ (doubleSteps left d src (test fl Flags.cf) k).1.msb)
  sign : test fl' Flags.sf = (doubleSteps left d src (test fl Flags.cf) k).1.msb
  zero : test fl' Flags.zf = decide ((doubleSteps left d src (test fl Flags.cf) k).1 = 0)
  parity : test fl' Flags.pf = true ↔
    EvenParity (doubleSteps left d src (test fl Flags.cf) k).1

def doubleInst (left : Bool) (m : ModRm) (reg : U8) (count : ShiftCount) (w32 : Bool) : Inst :=
  if left then .shld m reg count w32 else .shrd m reg count w32

/-- The shift the arm computes. -/
def doubleW (left : Bool) : Width → U64 → U64 → Nat → U64 × Bool := if left then shldW else shrdW

/-- What the arm owes: nothing happens for a count of zero, and otherwise the destination is
updated with the shift of whatever it held. -/
def DoubleShiftRun (left : Bool) (m : ModRm) (reg : U8) (count : ShiftCount) (w32 : Bool)
    (s : Cpu) : Prop :=
  let k := doubleCount count s
  let w := doubleWidth w32 s
  (k = 0 → execute (doubleInst left m reg count w32) s = ((), s)) ∧
    (k ≠ 0 → ∃ f g, execute (doubleInst left m reg count w32) s = rmUpdate m w f g s ∧
      ∀ (d : BitVec w.bits) (fl : U32),
        DoubleShiftExact left d ((s.reg64 reg).setWidth w.bits) k fl (f (u64 d)) (g (u64 d) fl))

theorem doubleSteps_left (d src : BitVec n) (c : Bool) {k : Nat} (hk : 0 < k) (hkn : k ≤ n) :
    doubleSteps true d src c k = (d <<< k ||| src >>> (n - k), d.getLsbD (n - k)) := by
  rw [doubleSteps, if_pos rfl, shl_word _ _ (by omega), shl_out _ _ (by omega) hk (by omega),
    shl_append_high d src hkn, Nat.add_sub_assoc hkn, getLsbD_append_high]

theorem doubleSteps_right (d src : BitVec n) (c : Bool) {k : Nat} (hk : 0 < k) (hkn : k ≤ n) :
    doubleSteps false d src c k = (d >>> k ||| src <<< (n - k), d.getLsbD (k - 1)) := by
  rw [doubleSteps, if_neg (by decide), shr_word, shr_out _ _ hk, shr_append_low d src hkn,
    getLsbD_append_low d src (by omega)]

variable {w : Width} (hw : w ≠ .w8) (d src : BitVec w.bits) (c : Bool) {k : Nat} (hk : 0 < k)
  (hkn : k ≤ w.bits)

include hw hk hkn in
theorem shldW_eq : shldW w (u64 d) (u64 src) k =
    (u64 (doubleSteps true d src c k).1, (doubleSteps true d src c k).2) := by
  cases w with
  | w8 => exact absurd rfl hw
  | w16 =>
    have hrun (d src : U16) (hk16 : k ≤ 16) : shldW .w16 (u64 d) (u64 src) k =
        (u64 (doubleSteps true d src c k).1, (doubleSteps true d src c k).2) := by
      rw [shldW, u16_u64, u16_u64, Nat.min_eq_left hk16, doubleSteps_left d src c hk hk16,
        BitVec.getLsbD_ushiftRight]
      · exact Prod.ext (congrArg u64 (shl_append_high d src hk16)) rfl
      · decide
      · decide
    exact hrun d src hkn
  | w32 =>
    have hrun (d src : U32) (hk32 : k ≤ 32) : shldW .w32 (u64 d) (u64 src) k =
        (u64 (doubleSteps true d src c k).1, (doubleSteps true d src c k).2) := by
      rw [shldW, u32_u64, u32_u64, doubleSteps_left d src c hk hk32, BitVec.getLsbD_ushiftRight,
        Nat.add_zero]
    exact hrun d src hkn
  | w64 =>
    have hrun (d src : U64) (hk64 : k ≤ 64) : shldW .w64 (u64 d) (u64 src) k =
        (u64 (doubleSteps true d src c k).1, (doubleSteps true d src c k).2) := by
      rw [shldW, show u64 d = d from BitVec.setWidth_eq d,
        show u64 src = src from BitVec.setWidth_eq src, doubleSteps_left d src c hk hk64,
        BitVec.getLsbD_ushiftRight, Nat.add_zero]
      exact Prod.ext (BitVec.setWidth_eq _).symm rfl
    exact hrun d src hkn

include hw hk hkn in
theorem shrdW_eq : shrdW w (u64 d) (u64 src) k =
    (u64 (doubleSteps false d src c k).1, (doubleSteps false d src c k).2) := by
  cases w with
  | w8 => exact absurd rfl hw
  | w16 =>
    have hrun (d src : U16) (hk16 : k ≤ 16) : shrdW .w16 (u64 d) (u64 src) k =
        (u64 (doubleSteps false d src c k).1, (doubleSteps false d src c k).2) := by
      rw [shrdW, u16_u64, u16_u64, Nat.min_eq_left (by omega), doubleSteps_right d src c hk hk16,
        BitVec.getLsbD_ushiftRight]
      · exact Prod.ext (congrArg u64 (shr_append_low d src hk16)) rfl
      · decide
      · decide
    exact hrun d src hkn
  | w32 =>
    have hrun (d src : U32) (hk32 : k ≤ 32) : shrdW .w32 (u64 d) (u64 src) k =
        (u64 (doubleSteps false d src c k).1, (doubleSteps false d src c k).2) := by
      rw [shrdW, u32_u64, u32_u64, doubleSteps_right d src c hk hk32, BitVec.getLsbD_ushiftRight,
        Nat.add_zero]
    exact hrun d src hkn
  | w64 =>
    have hrun (d src : U64) (hk64 : k ≤ 64) : shrdW .w64 (u64 d) (u64 src) k =
        (u64 (doubleSteps false d src c k).1, (doubleSteps false d src c k).2) := by
      rw [shrdW, show u64 d = d from BitVec.setWidth_eq d,
        show u64 src = src from BitVec.setWidth_eq src, doubleSteps_right d src c hk hk64,
        BitVec.getLsbD_ushiftRight, Nat.add_zero]
      exact Prod.ext (BitVec.setWidth_eq _).symm rfl
    exact hrun d src hkn

include hw in
theorem doubleShiftFlags_eq (r : BitVec w.bits) (cf : Bool) (fl : U32) :
    doubleShiftFlags w (u64 d) (u64 r, cf) fl = setShiftFlags r cf (d ^^^ r).msb fl := by
  cases w with
  | w8 => exact absurd rfl hw
  | w16 =>
    have h (d r : U16) : doubleShiftFlags .w16 (u64 d) (u64 r, cf) fl =
        setShiftFlags r cf (d ^^^ r).msb fl := by
      have hxor : u16 (u64 d ^^^ u64 r) = d ^^^ r :=
        BitVec.setWidth_xor.trans (congrArg₂ (· ^^^ ·) (u16_u64 d) (u16_u64 r))
      rw [doubleShiftFlags, u16_u64, hxor]
      · rfl
      · decide
      · decide
    exact h d r
  | w32 =>
    have h (d r : U32) : doubleShiftFlags .w32 (u64 d) (u64 r, cf) fl =
        setShiftFlags r cf (d ^^^ r).msb fl := by
      have hxor : u32 (u64 d ^^^ u64 r) = d ^^^ r :=
        BitVec.setWidth_xor.trans (congrArg₂ (· ^^^ ·) (u32_u64 d) (u32_u64 r))
      rw [doubleShiftFlags, u32_u64, hxor]
      rfl
    exact h d r
  | w64 =>
    have h (d r : U64) : doubleShiftFlags .w64 (u64 d) (u64 r, cf) fl =
        setShiftFlags r cf (d ^^^ r).msb fl := by
      rw [doubleShiftFlags, show u64 d = d from BitVec.setWidth_eq d,
        show u64 r = r from BitVec.setWidth_eq r]
      rfl
    exact h d r

include hw hk hkn in
theorem doubleShift_flags (left : Bool) (fl : U32) :
    DoubleShiftExact left d src k fl (doubleW left w (u64 d) (u64 src) k).1
      (doubleShiftFlags w (u64 d) (doubleW left w (u64 d) (u64 src) k) fl) := by
  have hrun : doubleW left w (u64 d) (u64 src) k =
      (u64 (doubleSteps left d src (test fl Flags.cf) k).1,
        (doubleSteps left d src (test fl Flags.cf) k).2) := by
    cases left with
    | true => exact shldW_eq hw d src _ hk hkn
    | false => exact shrdW_eq hw d src _ hk hkn
  rw [hrun, doubleShiftFlags_eq hw]
  obtain ⟨hs, hz, hp⟩ := logicFlags_result (doubleSteps left d src (test fl Flags.cf) k).1
    (setFlag Flags.of (d ^^^ (doubleSteps left d src (test fl Flags.cf) k).1).msb
      (setFlag Flags.cf (doubleSteps left d src (test fl Flags.cf) k).2 fl))
  refine ⟨rfl, ?_, ?_, hs, hz, hp⟩
  · rw [setShiftFlags, test_logicFlags_other _ _ (by decide) (by decide) (by decide),
      test_setFlag_other (by decide), test_setFlag_self (by decide)]
  · intro _
    rw [setShiftFlags, test_logicFlags_other _ _ (by decide) (by decide) (by decide),
      test_setFlag_self (by decide), BitVec.msb_xor]

end Double

/-- RCL of a byte by 9 goes all the way round the byte and the carry. -/
example : shiftWidth .rcl 0xA5 9 .w8 1 = (0xA5, 1) := by decide

end X86Emu
