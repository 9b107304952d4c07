import X86Emu.Lib.NearestEven
import X86Emu.Packed

/-!
# The 64- and 80-bit float formats

The conversions between the two formats on the numbers their bit patterns
denote, as exact integers: a magnitude is counted in the least 80-bit denormal,
2^-16445, of which the least 64-bit one holds 2^15371.
-/
namespace X86Emu

open NearestEven

/-! ## What the patterns denote -/

/-- What a floating-point pattern denotes; a payload is that of the wider format. -/
inductive Datum where
  | finite (negative : Bool) (mag : Nat)
  | infinity (negative : Bool)
  | nan (negative : Bool) (payload : Nat)
  deriving DecidableEq

/-- The least 64-bit magnitude in units of the least 80-bit one. -/
def doubleUnit : Nat := 2 ^ 15371

/-- The magnitude of a 64-bit pattern apart from its sign, in units of the least. -/
def doubleMag (n : Nat) : Nat :=
  if n / 2 ^ 52 = 0 then n % 2 ^ 52 else (2 ^ 52 + n % 2 ^ 52) * 2 ^ (n / 2 ^ 52 - 1)

def doubleGrid (n : Nat) : Nat := doubleMag n * doubleUnit

/-- The pattern of infinity, which stands for 2^1024 among the magnitudes. -/
def doubleTop : Nat := 2047 * 2 ^ 52

def datum64 (v : U64) : Datum :=
  let n := v.toNat % 2 ^ 63
  if n < doubleTop then .finite v.msb (doubleGrid n)
  else if n = doubleTop then .infinity v.msb
  else .nan v.msb ((n - doubleTop) * 2 ^ 11)

def datum80 (sig : U64) (se : U16) : Datum :=
  let exp := se.toNat % 2 ^ 15
  let frac := sig.toNat % 2 ^ 63
  if exp < 32767 then .finite se.msb (sig.toNat * 2 ^ (max exp 1 - 1))
  else if frac = 0 then .infinity se.msb
  else .nan se.msb frac

/-- The pattern `r` is a correct rounding of what is denoted. -/
def RoundsTo (r : U64) : Datum → Prop
  | .finite negative x => r.msb = negative ∧
      IsNearestEven doubleGrid doubleTop x (r.toNat % 2 ^ 63)
  | .infinity negative => datum64 r = .infinity negative
  | .nan _ _ => ∃ negative payload, datum64 r = .nan negative payload

/-- What a conversion back to 64 bits needs: in the range of the 64-bit denormals at most half a
unit to drop, and half a unit only above an even multiple; and a NaN payload that reaches above the
eleven bits that are dropped. -/
def RoundsWell : Datum → Prop
  | .finite _ x => x < 2 ^ 52 * doubleUnit → 2 * (x % doubleUnit) < doubleUnit ∨
      2 * (x % doubleUnit) = doubleUnit ∧ x / doubleUnit % 2 = 0
  | .infinity _ => True
  | .nan _ payload => 2 ^ 11 ≤ payload

/-! ## The magnitudes -/

theorem doubleUnit_pos : 0 < doubleUnit := by
  unfold doubleUnit
  positivity

theorem doubleUnit_large : 2 ^ 66 ≤ doubleUnit := by
  unfold doubleUnit
  gcongr <;> decide

/-- Two to an exponent of the 80-bit range, against the unit. -/
theorem pow_exp (j : Nat) : 2 ^ 11 * 2 ^ (15360 + j) = 2 ^ j * doubleUnit := by
  rw [doubleUnit, ← pow_add, ← pow_add]
  congr 1
  omega

theorem doubleMag_small {n : Nat} (h : n < 2 ^ 52) : doubleMag n = n := by
  rw [doubleMag, if_pos (Nat.div_eq_of_lt h), Nat.mod_eq_of_lt h]

theorem doubleMag_normal {e m : Nat} (he : 0 < e) (hm : m < 2 ^ 52) :
    doubleMag (e * 2 ^ 52 + m) = (2 ^ 52 + m) * 2 ^ (e - 1) := by
  have hdiv : (e * 2 ^ 52 + m) / 2 ^ 52 = e := by omega
  have hmod : (e * 2 ^ 52 + m) % 2 ^ 52 = m := by omega
  rw [doubleMag, hdiv, hmod, if_neg (by omega)]

/-- A pattern is a denormal or has an exponent. -/
theorem pattern_cases (n : Nat) :
    n < 2 ^ 52 ∨ ∃ e m, 0 < e ∧ m < 2 ^ 52 ∧ n = e * 2 ^ 52 + m := by
  by_cases h : n < 2 ^ 52
  · exact .inl h
  · exact .inr ⟨n / 2 ^ 52, n % 2 ^ 52, by omega, by omega, by omega⟩

/-- The next pattern is one unit in the last place away. -/
theorem doubleMag_succ (n : Nat) : doubleMag (n + 1) = doubleMag n + 2 ^ (n / 2 ^ 52 - 1) := by
  obtain h | ⟨e, m, he, hm, rfl⟩ := pattern_cases n
  · rw [doubleMag_small h, Nat.div_eq_of_lt h]
    by_cases hlast : n + 1 < 2 ^ 52
    · exact doubleMag_small hlast
    · have hn : n + 1 = 1 * 2 ^ 52 + 0 := by omega
      rw [hn, doubleMag_normal (by decide) (by decide)]
      omega
  · have hdiv : (e * 2 ^ 52 + m) / 2 ^ 52 = e := by omega
    rw [hdiv, doubleMag_normal he hm]
    by_cases hlast : m + 1 < 2 ^ 52
    · rw [Nat.add_assoc, doubleMag_normal he hlast]
      ring
    · obtain ⟨d, rfl⟩ : ∃ d, e = d + 1 := ⟨e - 1, by omega⟩
      have hn : (d + 1) * 2 ^ 52 + m + 1 = (d + 2) * 2 ^ 52 + 0 := by omega
      rw [hn, doubleMag_normal (by omega) (by decide), show m = 2 ^ 52 - 1 by omega,
        show d + 2 - 1 = d + 1 by omega, Nat.add_sub_cancel, pow_succ]
      omega

theorem doubleGrid_strictMono : StrictMono doubleGrid := by
  refine strictMono_nat_of_lt_succ fun n => ?_
  rw [doubleGrid, doubleGrid, doubleMag_succ]
  exact Nat.mul_lt_mul_of_pos_right (Nat.lt_add_of_pos_right (Nat.two_pow_pos _)) doubleUnit_pos

theorem doubleGrid_succ (n : Nat) :
    doubleGrid (n + 1) = doubleGrid n + 2 ^ (n / 2 ^ 52 - 1) * doubleUnit := by
  rw [doubleGrid, doubleMag_succ, Nat.add_mul]
  rfl

/-! ## Words with a sign -/

/-- A sign over the low 63 bits. -/
theorem signed_word (se : U16) {a : U64} (ha : a.toNat < 2 ^ 63) :
    (u64 (se >>> 15) <<< 63 ||| a).msb = se.msb ∧
      (u64 (se >>> 15) <<< 63 ||| a).toNat % 2 ^ 63 = a.toNat := by
  constructor
  · have hmsb : a.msb = false := BitVec.msb_eq_false_iff_two_mul_lt.mpr (by omega)
    rw [BitVec.msb_or, hmsb, Bool.or_false, BitVec.msb_eq_getLsbD_last, BitVec.msb_eq_getLsbD_last,
      BitVec.getLsbD_shiftLeft, BitVec.getLsbD_setWidth, BitVec.getLsbD_ushiftRight]
    simp
  · have hlow : (u64 (se >>> 15) <<< 63).toNat % 2 ^ 63 = 0 := by
      rw [BitVec.toNat_shiftLeft, Nat.shiftLeft_eq]
      omega
    rw [BitVec.toNat_or, Nat.or_mod_two_pow, hlow, Nat.zero_or, Nat.mod_eq_of_lt ha]

theorem low_toNat {n : Nat} (k : Nat) (hk : k ≤ n) (v : BitVec n) :
    (v &&& BitVec.ofNat n (2 ^ k - 1)).toNat = v.toNat % 2 ^ k := by
  have hlt : 2 ^ k - 1 < 2 ^ n := by
    have := Nat.pow_le_pow_right (show 0 < 2 by decide) hk
    have := Nat.two_pow_pos k
    omega
  rw [BitVec.toNat_and, BitVec.toNat_ofNat, Nat.mod_eq_of_lt hlt, Nat.and_two_pow_sub_one_eq_mod]

/-! ## Back to 64 bits -/

/-- The magnitude `f80_to_f64` finds, apart from the sign. -/
def roundedMag (sig : U64) (exp : Nat) : U64 :=
  if exp = 0 ∧ sig = 0 then 0
  else if exp = 0x7FFF then (0x7FF : U64) <<< 52 ||| (sig &&& 0x7FFFFFFFFFFFFFFF) >>> 11
  else
    let lz := leadingZeros sig
    let sig := sig <<< lz
    let e : Int := exp - lz - 16383 + 1023
    if e ≥ 0x7FF then (0x7FF : U64) <<< 52
    else if e ≤ 0 then
      let shift := (12 - e).toNat
      if shift ≥ 64 then 0 else sig >>> shift
    else
      let frac := sig &&& 0x7FFFFFFFFFFFFFFF
      let m := frac >>> 11
      let rem := frac &&& 0x7FF
      let m := if rem > 0x400 ∨ (rem = 0x400 ∧ m &&& 1 = 1) then m + 1 else m
      if m >>> 52 ≠ 0 then BitVec.ofNat 64 (e.toNat + 1) <<< 52
      else BitVec.ofNat 64 e.toNat <<< 52 ||| m

theorem or_branches {p q r : Prop} [Decidable p] [Decidable q] [Decidable r] (x a b c d m : U64) :
    (if p then x ||| a else if q then x ||| b else if r then x ||| c else x ||| d ||| m) =
      x ||| if p then a else if q then b else if r then c else d ||| m := by
  split
  · rfl
  split
  · rfl
  split
  · rfl
  · exact BitVec.or_assoc _ _ _

theorem f80ToF64_eq (sig : U64) (se : U16) :
    f80ToF64 sig se = u64 (se >>> 15) <<< 63 ||| roundedMag sig (se.toNat % 2 ^ 15) := by
  have hexp : (se &&& 0x7FFF).toNat = se.toNat % 2 ^ 15 := low_toNat 15 (by decide) se
  unfold f80ToF64 roundedMag
  rw [hexp]
  dsimp only
  by_cases h0 : se.toNat % 2 ^ 15 = 0 ∧ sig = 0
  · rw [if_pos h0, if_pos h0]
    exact BitVec.or_zero.symm
  rw [if_neg h0, if_neg h0]
  by_cases hmax : se.toNat % 2 ^ 15 = 0x7FFF
  · rw [if_pos hmax, if_pos hmax, BitVec.or_assoc]
  rw [if_neg hmax, if_neg hmax]
  exact or_branches ..

theorem leadingZeros_top {sig : U64} (h : 2 ^ 63 ≤ sig.toNat) : leadingZeros sig = 0 :=
  (BitVec.clz_eq_zero_iff (by decide)).mpr h

section Round

variable {sig : U64} {exp : Nat}

/-- Exponents past the 64-bit range give infinity. -/
theorem roundedMag_overflow (hsig : 2 ^ 63 ≤ sig.toNat) (h : 17407 ≤ exp) (hexp : exp < 32767) :
    (roundedMag sig exp).toNat = doubleTop := by
  unfold roundedMag
  rw [if_neg (by omega), if_neg (by omega), leadingZeros_top hsig]
  dsimp only
  rw [if_pos (by push_cast; omega)]
  rfl

/-- The denormals drop what is below their unit. -/
theorem roundedMag_denormal (hsig : 2 ^ 63 ≤ sig.toNat) (h0 : exp ≠ 0) (h : exp ≤ 15360) :
    (roundedMag sig exp).toNat = sig.toNat / 2 ^ (15372 - exp) := by
  unfold roundedMag
  rw [if_neg (by omega), if_neg (by omega), leadingZeros_top hsig]
  dsimp only
  rw [if_neg (by push_cast; omega), if_pos (by push_cast; omega), BitVec.shiftLeft_zero,
    show ((12 : Int) - (exp - (0 : Nat) - 16383 + 1023)).toNat = 15372 - exp by omega]
  split
  · rename_i hshift
    have hpow : 2 ^ 64 ≤ 2 ^ (15372 - exp) := Nat.pow_le_pow_right (by decide) hshift
    exact (Nat.div_eq_of_lt (Nat.lt_of_lt_of_le sig.isLt hpow)).symm
  · rw [BitVec.toNat_ushiftRight, Nat.shiftRight_eq_div_pow]

/-- An exponent field of zero is far below the 64-bit range. -/
theorem roundedMag_zero : (roundedMag sig 0).toNat = 0 := by
  unfold roundedMag
  split
  · rfl
  rw [if_neg (by decide)]
  dsimp only
  have hlz : leadingZeros sig ≤ 64 := by
    have := BitVec.clz_le (x := sig)
    exact this
  rw [if_neg (by omega), if_pos (by omega), if_pos (by omega)]
  rfl

/-- In the normal range the significand is rounded on its eleven lowest bits. -/
theorem roundedMag_normal (hsig : 2 ^ 63 ≤ sig.toNat) {e : Nat} (he : 0 < e) (hlt : e < 2047) :
    let m := sig.toNat % 2 ^ 63 / 2 ^ 11
    let rem := sig.toNat % 2 ^ 11
    (roundedMag sig (15360 + e)).toNat = e * 2 ^ 52 + m +
      if rem > 1024 ∨ rem = 1024 ∧ m % 2 = 1 then 1 else 0 := by
  intro m rem
  have hfrac : (sig &&& 0x7FFFFFFFFFFFFFFF).toNat = sig.toNat % 2 ^ 63 :=
    low_toNat 63 (by decide) sig
  obtain ⟨M, hM⟩ : ∃ M, (sig &&& 0x7FFFFFFFFFFFFFFF) >>> 11 = M := ⟨_, rfl⟩
  obtain ⟨R, hR⟩ : ∃ R, sig &&& 0x7FFFFFFFFFFFFFFF &&& 0x7FF = R := ⟨_, rfl⟩
  have hMn : M.toNat = m := by
    rw [← hM, BitVec.toNat_ushiftRight, Nat.shiftRight_eq_div_pow, hfrac]
  have hRn : R.toNat = rem := by
    rw [← hR]
    refine (low_toNat 11 (by decide) (sig &&& 0x7FFFFFFFFFFFFFFF)).trans ?_
    rw [hfrac]
    exact Nat.mod_mod_of_dvd _ (by decide)
  have hodd : (M &&& 1).toNat = m % 2 := by
    rw [← hMn]
    exact low_toNat 1 (by decide) M
  have hround : (R > 0x400 ∨ R = 0x400 ∧ M &&& 1 = 1) ↔ (rem > 1024 ∨ rem = 1024 ∧ m % 2 = 1) := by
    rw [gt_iff_lt, BitVec.lt_def, ← BitVec.toNat_inj, ← BitVec.toNat_inj, hRn, hodd]
    rfl
  have hm : m < 2 ^ 52 := by omega
  unfold roundedMag
  rw [if_neg (by omega), if_neg (by omega), leadingZeros_top hsig]
  dsimp only
  rw [if_neg (by push_cast; omega), if_neg (by push_cast; omega), BitVec.shiftLeft_zero, hM, hR,
    show ((15360 + e : Nat) - (0 : Nat) - 16383 + 1023 : Int).toNat = e by omega]
  obtain ⟨M', hM'⟩ : ∃ M', (if R > 0x400 ∨ R = 0x400 ∧ M &&& 1 = 1 then M + 1 else M) = M' :=
    ⟨_, rfl⟩
  have hsum : M'.toNat = m + if rem > 1024 ∨ rem = 1024 ∧ m % 2 = 1 then 1 else 0 := by
    rw [← hM']
    by_cases hup : rem > 1024 ∨ rem = 1024 ∧ m % 2 = 1
    · rw [if_pos (hround.mpr hup), if_pos hup, BitVec.toNat_add, hMn,
        show (1 : U64).toNat = 1 from rfl]
      exact Nat.mod_eq_of_lt (by omega)
    · rw [if_neg fun h => hup (hround.mp h), if_neg hup, hMn, Nat.add_zero]
  have hle : M'.toNat ≤ 2 ^ 52 := by
    rw [hsum]
    split <;> omega
  have hexp (n : Nat) (hn : n ≤ 2047) : (BitVec.ofNat 64 n <<< 52).toNat = n * 2 ^ 52 := by
    rw [BitVec.toNat_shiftLeft, BitVec.toNat_ofNat, Nat.shiftLeft_eq, Nat.mod_eq_of_lt (by omega),
      Nat.mod_eq_of_lt (by omega)]
  rw [hM', Nat.add_assoc, ← hsum]
  have hcarry : M' >>> 52 = 0 ↔ M'.toNat < 2 ^ 52 := by
    rw [← BitVec.toNat_inj, BitVec.toNat_ushiftRight, Nat.shiftRight_eq_div_pow]
    exact Nat.div_eq_zero_iff_lt (by decide)
  split
  · rename_i hne
    have := mt hcarry.mpr hne
    rw [hexp _ (by omega)]
    omega
  · rename_i heq
    have hlt' := hcarry.mp (not_not.mp heq)
    rw [BitVec.toNat_or, hexp _ (by omega), Nat.mul_comm, ← Nat.two_pow_add_eq_or_of_lt hlt']

end Round

/-! ## Nearest -/

theorem doubleGrid_top : doubleGrid doubleTop = 2 ^ 52 * 2 ^ 2046 * doubleUnit := by
  have h (e : Nat) : doubleMag ((e + 1) * 2 ^ 52) = 2 ^ 52 * 2 ^ e := by
    have hm := doubleMag_normal (e := e + 1) (m := 0) (Nat.succ_pos _) (Nat.two_pow_pos _)
    rwa [Nat.add_zero, Nat.add_zero, Nat.add_sub_cancel] at hm
  exact congrArg (· * doubleUnit) (h 2046)

/-- The least normal magnitude is below infinity. -/
theorem doubleGrid_top_ge : 2 ^ 52 * doubleUnit ≤ doubleGrid doubleTop := by
  have h : doubleMag (2 ^ 52) = 2 ^ 52 := doubleMag_normal (e := 1) (m := 0) (by decide) (by decide)
  have hle : 2 ^ 52 ≤ doubleTop := by
    rw [doubleTop]
    omega
  have hmono := doubleGrid_strictMono.monotone hle
  rwa [doubleGrid, h] at hmono

/-- In the denormal range a number lies between two multiples of the unit. -/
theorem nearest_denormal_iff {x : Nat} (hx : x < 2 ^ 52 * doubleUnit) :
    IsNearestEven doubleGrid doubleTop x (x / doubleUnit) ↔
      2 * (x % doubleUnit) < doubleUnit ∨
        2 * (x % doubleUnit) = doubleUnit ∧ x / doubleUnit % 2 = 0 := by
  have hq : x / doubleUnit < 2 ^ 52 := Nat.div_lt_of_lt_mul (by rwa [Nat.mul_comm])
  have hlow : doubleGrid (x / doubleUnit) = x / doubleUnit * doubleUnit := by
    rw [doubleGrid, doubleMag_small hq]
  have hhigh : doubleGrid (x / doubleUnit + 1) = x / doubleUnit * doubleUnit + doubleUnit := by
    rw [doubleGrid_succ, hlow, Nat.div_eq_of_lt hq, Nat.zero_sub, pow_zero, Nat.one_mul]
  have hsum := Nat.div_add_mod' x doubleUnit
  have hrem := Nat.mod_lt x doubleUnit_pos
  rw [nearest_lower_iff doubleGrid_strictMono (by rw [doubleTop]; omega) (by omega) (by omega),
    hlow, hhigh]
  omega

section Finite

variable {sig : U64} {exp : Nat}

theorem nearest_overflow (hsig : 2 ^ 63 ≤ sig.toNat) (h : 17407 ≤ exp) :
    doubleGrid doubleTop ≤ sig.toNat * 2 ^ (max exp 1 - 1) := by
  obtain ⟨top, htop⟩ : ∃ top, top = 2046 := ⟨_, rfl⟩
  obtain ⟨j, rfl⟩ : ∃ j, exp = 15361 + top + j := ⟨exp - (15361 + top), by omega⟩
  rw [doubleGrid_top, ← htop, show max (15361 + top + j) 1 - 1 = 15360 + (top + j) by omega]
  calc 2 ^ 52 * 2 ^ top * doubleUnit
      ≤ 2 ^ 52 * 2 ^ (top + j) * doubleUnit := by
        refine Nat.mul_le_mul_right _ (Nat.mul_le_mul_left _ ?_)
        exact Nat.pow_le_pow_right (by decide) (by omega)
    _ = 2 ^ 52 * (2 ^ 11 * 2 ^ (15360 + (top + j))) := by rw [pow_exp, Nat.mul_assoc]
    _ = 2 ^ 63 * 2 ^ (15360 + (top + j)) := by rw [← Nat.mul_assoc, ← pow_add]
    _ ≤ sig.toNat * 2 ^ (15360 + (top + j)) := Nat.mul_le_mul_right _ hsig

/-- Below the normal range the code keeps the whole units of the magnitude. -/
theorem denormal_units (h0 : exp ≠ 0) (h : exp ≤ 15360) :
    sig.toNat / 2 ^ (15372 - exp) = sig.toNat * 2 ^ (max exp 1 - 1) / doubleUnit ∧
      sig.toNat * 2 ^ (max exp 1 - 1) < 2 ^ 52 * doubleUnit := by
  have hunit : doubleUnit = 2 ^ (15372 - exp) * 2 ^ (max exp 1 - 1) := by
    rw [doubleUnit, ← pow_add]
    congr 1
    omega
  constructor
  · rw [hunit, Nat.mul_div_mul_right _ _ (Nat.two_pow_pos _)]
  · rw [hunit, ← Nat.mul_assoc]
    refine Nat.mul_lt_mul_of_pos_right ?_ (Nat.two_pow_pos _)
    calc sig.toNat < 2 ^ 52 * 2 ^ 12 := sig.isLt
      _ ≤ 2 ^ 52 * 2 ^ (15372 - exp) :=
        Nat.mul_le_mul_left _ (Nat.pow_le_pow_right (by decide) (by omega))

/-- Rounding the significand on its eleven lowest bits finds the nearest magnitude. -/
theorem nearest_normal (hsig : 2 ^ 63 ≤ sig.toNat) {e : Nat} (he : 0 < e) (hlt : e < 2047) :
    2 ^ 52 * doubleUnit ≤ sig.toNat * 2 ^ (15360 + e - 1) ∧
      IsNearestEven doubleGrid doubleTop (sig.toNat * 2 ^ (15360 + e - 1))
        (e * 2 ^ 52 + sig.toNat % 2 ^ 63 / 2 ^ 11 +
          if sig.toNat % 2 ^ 11 > 1024 ∨ sig.toNat % 2 ^ 11 = 1024 ∧
            sig.toNat % 2 ^ 63 / 2 ^ 11 % 2 = 1 then 1 else 0) := by
  obtain ⟨d, rfl⟩ : ∃ d, e = d + 1 := ⟨e - 1, by omega⟩
  obtain ⟨m, hm⟩ : ∃ m, sig.toNat % 2 ^ 63 / 2 ^ 11 = m := ⟨_, rfl⟩
  obtain ⟨r, hr⟩ : ∃ r, sig.toNat % 2 ^ 11 = r := ⟨_, rfl⟩
  have hsum : sig.toNat = (2 ^ 52 + m) * 2 ^ 11 + r := by
    have := sig.isLt
    omega
  have hmlt : m < 2 ^ 52 := by omega
  have hrlt : r < 2 ^ 11 := by omega
  -- the last place of the significand, and of the result
  obtain ⟨u, hu⟩ : ∃ u, u = 2 ^ (15360 + d) := ⟨_, rfl⟩
  have hupos : 0 < u := hu ▸ Nat.two_pow_pos _
  have hplace : 2 ^ d * doubleUnit = 2 ^ 11 * u := by rw [hu, pow_exp]
  have hlow : doubleGrid ((d + 1) * 2 ^ 52 + m) = (2 ^ 52 + m) * (2 ^ 11 * u) := by
    rw [doubleGrid, doubleMag_normal (by omega) hmlt, Nat.add_sub_cancel, Nat.mul_assoc, hplace]
  have hhigh : doubleGrid ((d + 1) * 2 ^ 52 + m + 1) =
      (2 ^ 52 + m) * (2 ^ 11 * u) + 2 ^ 11 * u := by
    rw [doubleGrid_succ, hlow, show ((d + 1) * 2 ^ 52 + m) / 2 ^ 52 = d + 1 by omega,
      Nat.add_sub_cancel, hplace]
  have hx : sig.toNat * 2 ^ (15360 + (d + 1) - 1) = (2 ^ 52 + m) * (2 ^ 11 * u) + r * u := by
    rw [show 15360 + (d + 1) - 1 = 15360 + d by omega, ← hu, hsum]
    ring
  have hru : r * u < 2 ^ 11 * u := Nat.mul_lt_mul_of_pos_right hrlt hupos
  rw [hm, hr, hx]
  obtain ⟨a, ha⟩ : ∃ a, (2 ^ 52 + m) * (2 ^ 11 * u) = a := ⟨_, rfl⟩
  rw [ha] at hlow hhigh ⊢
  constructor
  · rw [← ha]
    calc 2 ^ 52 * doubleUnit ≤ 2 ^ 52 * (2 ^ d * doubleUnit) :=
          Nat.mul_le_mul_left _ (Nat.le_mul_of_pos_left _ (Nat.two_pow_pos _))
      _ = 2 ^ 52 * (2 ^ 11 * u) := by rw [hplace]
      _ ≤ (2 ^ 52 + m) * (2 ^ 11 * u) := Nat.mul_le_mul_right _ (by omega)
      _ ≤ (2 ^ 52 + m) * (2 ^ 11 * u) + r * u := Nat.le_add_right _ _
  · have htop : (d + 1) * 2 ^ 52 + m + 1 ≤ doubleTop := by
      rw [doubleTop]
      omega
    split
    · rename_i hup
      refine nearest_upper doubleGrid_strictMono htop (by omega) (by omega) ?_
      rw [hlow, hhigh]
      obtain hgt | ⟨heq, hodd⟩ := hup
      · have : 1025 * u ≤ r * u := Nat.mul_le_mul_right _ hgt
        omega
      · subst heq
        omega
    · rename_i hdown
      rw [Nat.add_zero]
      refine nearest_lower doubleGrid_strictMono htop (by omega) (by omega) ?_
      rw [hlow, hhigh]
      obtain hlt | heq : r < 1024 ∨ r = 1024 := by omega
      · have : r * u ≤ 1023 * u := Nat.mul_le_mul_right _ (by omega)
        omega
      · subst heq
        omega

/-- The magnitude found is the nearest exactly where nothing that counts is dropped from a
denormal. -/
theorem nearest_roundedMag_iff (hdom : 2 ^ 63 ≤ sig.toNat ∨ exp = 0) (hexp : exp < 32767)
    (negative : Bool) :
    (roundedMag sig exp).toNat ≤ doubleTop ∧
      (IsNearestEven doubleGrid doubleTop (sig.toNat * 2 ^ (max exp 1 - 1))
          (roundedMag sig exp).toNat ↔
        RoundsWell (.finite negative (sig.toNat * 2 ^ (max exp 1 - 1)))) := by
  by_cases h0 : exp = 0
  · subst h0
    have hsmall := doubleUnit_large
    have hlt := sig.isLt
    have hx : sig.toNat * 2 ^ (max 0 1 - 1) = sig.toNat := Nat.mul_one _
    have hdiv : sig.toNat / doubleUnit = 0 := Nat.div_eq_of_lt (by omega)
    have hmod : sig.toNat % doubleUnit = sig.toNat := Nat.mod_eq_of_lt (by omega)
    have hrange : sig.toNat < 2 ^ 52 * doubleUnit := by omega
    have hiff := nearest_denormal_iff hrange
    rw [hdiv] at hiff
    rw [roundedMag_zero, hx, RoundsWell, hiff, hdiv]
    exact ⟨Nat.zero_le _, ⟨fun h _ => h, fun h => h hrange⟩⟩
  have hsig := hdom.resolve_right h0
  by_cases hover : 17407 ≤ exp
  · have hge := nearest_overflow hsig hover
    rw [roundedMag_overflow hsig hover hexp, RoundsWell]
    refine ⟨Nat.le_refl _, iff_of_true (nearest_top doubleGrid_strictMono hge) fun hlt => ?_⟩
    exact absurd (doubleGrid_top_ge.trans hge) (Nat.not_le.mpr hlt)
  by_cases hunder : exp ≤ 15360
  · obtain ⟨hunits, hrange⟩ := @denormal_units sig _ h0 hunder
    have hq := (Nat.div_lt_iff_lt_mul doubleUnit_pos).mpr hrange
    rw [roundedMag_denormal hsig h0 hunder, hunits, nearest_denormal_iff hrange, RoundsWell]
    exact ⟨by rw [doubleTop]; omega, ⟨fun h _ => h, fun h => h hrange⟩⟩
  · obtain ⟨e, rfl⟩ : ∃ e, exp = 15360 + e := ⟨exp - 15360, by omega⟩
    obtain ⟨hge, hnear⟩ := nearest_normal hsig (show 0 < e by omega) (by omega)
    rw [roundedMag_normal hsig (by omega) (by omega), Nat.max_eq_left (by omega), RoundsWell]
    exact ⟨hnear.mem, iff_of_true hnear fun hlt => absurd hlt (by omega)⟩

end Finite

/-! ## From 80 bits -/

section Narrow

variable {sig : U64} {se : U16}

/-- Past the finite exponents, infinity with what is left of a payload. -/
theorem roundedMag_special :
    (roundedMag sig 32767).toNat = doubleTop + sig.toNat % 2 ^ 63 / 2 ^ 11 := by
  have hfrac : (sig &&& 0x7FFFFFFFFFFFFFFF).toNat = sig.toNat % 2 ^ 63 :=
    low_toNat 63 (by decide) sig
  have hlt : sig.toNat % 2 ^ 63 / 2 ^ 11 < 2 ^ 52 := by omega
  unfold roundedMag
  rw [if_neg (by omega), if_pos rfl, BitVec.toNat_or, BitVec.toNat_ushiftRight, hfrac,
    Nat.shiftRight_eq_div_pow, show ((0x7FF : U64) <<< 52).toNat = 2 ^ 52 * 2047 from rfl,
    ← Nat.two_pow_add_eq_or_of_lt hlt, doubleTop, Nat.mul_comm]

/-- A conversion to 64 bits rounds correctly exactly where it rounds well. -/
theorem roundsTo_iff (hdom : sig.msb = true ∨ se.toNat % 2 ^ 15 = 0) :
    RoundsTo (f80ToF64 sig se) (datum80 sig se) ↔ RoundsWell (datum80 sig se) := by
  have hsig : 2 ^ 63 ≤ sig.toNat ∨ se.toNat % 2 ^ 15 = 0 :=
    hdom.imp_left fun h => by
      have := BitVec.msb_eq_true_iff_two_mul_ge.mp h
      omega
  have hmax : se.toNat % 2 ^ 15 < 2 ^ 15 := Nat.mod_lt _ (by decide)
  rw [f80ToF64_eq]
  by_cases hexp : se.toNat % 2 ^ 15 < 32767
  · have hd : datum80 sig se =
        .finite se.msb (sig.toNat * 2 ^ (max (se.toNat % 2 ^ 15) 1 - 1)) := if_pos hexp
    obtain ⟨hle, hiff⟩ := nearest_roundedMag_iff hsig hexp se.msb
    obtain ⟨hmsb, hlow⟩ := signed_word se
      (a := roundedMag sig (se.toNat % 2 ^ 15)) (by rw [doubleTop] at hle; omega)
    rw [hd, ← hiff, RoundsTo, hlow]
    exact ⟨fun h => h.2, fun h => ⟨hmsb, h⟩⟩
  · have he : se.toNat % 2 ^ 15 = 32767 := by omega
    have hbody := @roundedMag_special sig
    have hfrac := Nat.mod_lt sig.toNat (Nat.two_pow_pos 63)
    obtain ⟨hmsb, hlow⟩ := signed_word se (a := roundedMag sig 32767) (by
      rw [hbody, doubleTop]
      omega)
    rw [hbody] at hlow
    by_cases h0 : sig.toNat % 2 ^ 63 = 0
    · have hd : datum80 sig se = .infinity se.msb := by
        unfold datum80
        rw [if_neg hexp, if_pos h0]
      rw [h0, Nat.zero_div, Nat.add_zero] at hlow
      refine iff_of_true ?_ (by rw [hd]; trivial)
      rw [hd, he, RoundsTo, datum64, hlow, if_neg (Nat.lt_irrefl _), if_pos rfl, hmsb]
    · have hd : datum80 sig se = .nan se.msb (sig.toNat % 2 ^ 63) := by
        unfold datum80
        rw [if_neg hexp, if_neg h0]
      rw [hd, he, RoundsTo, RoundsWell, datum64, hlow, if_neg (by omega)]
      by_cases hpay : 2 ^ 11 ≤ sig.toNat % 2 ^ 63
      · rw [if_neg (by omega)]
        exact iff_of_true ⟨_, _, rfl⟩ hpay
      · rw [if_pos (by omega)]
        exact iff_of_false (fun ⟨_, _, h⟩ => by cases h) hpay

end Narrow

/-! ## To 80 bits -/

section Widen

variable (v : U64)

theorem signed_half {a : U16} (ha : a.toNat < 2 ^ 15) :
    (u16 (v >>> 63) <<< 15 ||| a).msb = v.msb ∧
      (u16 (v >>> 63) <<< 15 ||| a).toNat % 2 ^ 15 = a.toNat := by
  constructor
  · have hmsb : a.msb = false := BitVec.msb_eq_false_iff_two_mul_lt.mpr (by omega)
    rw [BitVec.msb_or, hmsb, Bool.or_false, BitVec.msb_eq_getLsbD_last, BitVec.msb_eq_getLsbD_last,
      BitVec.getLsbD_shiftLeft, BitVec.getLsbD_setWidth, BitVec.getLsbD_ushiftRight]
    simp
  · have hlow : (u16 (v >>> 63) <<< 15).toNat % 2 ^ 15 = 0 := by
      rw [BitVec.toNat_shiftLeft, Nat.shiftLeft_eq]
      omega
    rw [BitVec.toNat_or, Nat.or_mod_two_pow, hlow, Nat.zero_or, Nat.mod_eq_of_lt ha]

/-- What `f64_to_f80` finds for the exponent and the significand. -/
structure Widened (sig exp : Nat) : Prop where
  sig : (f64ToF80 v).1.toNat = sig
  exp : (f64ToF80 v).2.toNat % 2 ^ 15 = exp
  sign : (f64ToF80 v).2.msb = v.msb

variable {v}

theorem widened_of_pair {s : U64} {a : U16} (h : f64ToF80 v = (s, u16 (v >>> 63) <<< 15 ||| a))
    (ha : a.toNat < 2 ^ 15) : Widened v s.toNat a.toNat := by
  obtain ⟨hmsb, hlow⟩ := signed_half v ha
  exact ⟨by rw [h], by rw [h]; exact hlow, by rw [h]; exact hmsb⟩

theorem field_toNat : ((v >>> 52) &&& 0x7FF).toNat = v.toNat % 2 ^ 63 / 2 ^ 52 := by
  refine (low_toNat 11 (by decide) (v >>> 52)).trans ?_
  rw [BitVec.toNat_ushiftRight, Nat.shiftRight_eq_div_pow]
  omega

theorem fraction_toNat : (v &&& 0x000FFFFFFFFFFFFF).toNat = v.toNat % 2 ^ 63 % 2 ^ 52 := by
  refine (low_toNat 52 (by decide) v).trans ?_
  omega

/-- The integer bit goes above the fraction. -/
theorem integer_bit {a : U64} (ha : a.toNat < 2 ^ 52) :
    (a <<< 11 ||| 0x8000000000000000).toNat = 2 ^ 63 + a.toNat * 2 ^ 11 := by
  have hshift : (a <<< 11).toNat = a.toNat * 2 ^ 11 := by
    rw [BitVec.toNat_shiftLeft, Nat.shiftLeft_eq]
    omega
  rw [BitVec.toNat_or, Nat.or_comm, hshift,
    show (0x8000000000000000 : U64).toNat = 2 ^ 63 * 1 from rfl,
    ← Nat.two_pow_add_eq_or_of_lt (by omega), Nat.mul_one]

theorem widened_zero (h : v.toNat % 2 ^ 63 = 0) : Widened v 0 0 := by
  have hf := field_toNat (v := v)
  have hm : v &&& 0x000FFFFFFFFFFFFF = 0 := by
    apply BitVec.eq_of_toNat_eq
    rw [fraction_toNat, h]
    rfl
  refine widened_of_pair (s := 0) (a := 0) ?_ (by decide)
  unfold f64ToF80
  rw [hf, hm, h]
  dsimp only
  rw [if_pos (by simp)]
  exact congrArg (Prod.mk _) BitVec.or_zero.symm

theorem widened_special (h : v.toNat % 2 ^ 63 / 2 ^ 52 = 2047) :
    Widened v (2 ^ 63 + v.toNat % 2 ^ 63 % 2 ^ 52 * 2 ^ 11) 32767 := by
  have hf := field_toNat (v := v)
  rw [h] at hf
  have hpair : f64ToF80 v = ((v &&& 0x000FFFFFFFFFFFFF) <<< 11 ||| 0x8000000000000000,
      u16 (v >>> 63) <<< 15 ||| 0x7FFF) := by
    unfold f64ToF80
    rw [hf]
    dsimp only
    rw [if_neg (by omega), if_pos rfl]
  have hw := widened_of_pair hpair (by decide)
  rwa [integer_bit (by rw [fraction_toNat]; omega), fraction_toNat] at hw

theorem widened_normal {e : Nat} (he : 0 < e) (hlt : e < 2047)
    (h : v.toNat % 2 ^ 63 / 2 ^ 52 = e) :
    Widened v (2 ^ 63 + v.toNat % 2 ^ 63 % 2 ^ 52 * 2 ^ 11) (15360 + e) := by
  have hf := field_toNat (v := v)
  rw [h] at hf
  have hpair : f64ToF80 v = ((v &&& 0x000FFFFFFFFFFFFF) <<< 11 ||| 0x8000000000000000,
      u16 (v >>> 63) <<< 15 ||| BitVec.ofNat 16 (e + 16383 - 1023)) := by
    unfold f64ToF80
    rw [hf]
    dsimp only
    rw [if_neg (by omega), if_neg (by omega), if_neg (by omega)]
  have hexp : (BitVec.ofNat 16 (e + 16383 - 1023)).toNat = 15360 + e := by
    rw [BitVec.toNat_ofNat]
    omega
  have hw := widened_of_pair hpair (by omega)
  rwa [integer_bit (by rw [fraction_toNat]; omega), fraction_toNat, hexp] at hw

/-- A denormal is normalised, the shift taken out of the exponent. -/
theorem widened_denormal (h0 : v.toNat % 2 ^ 63 ≠ 0) (h : v.toNat % 2 ^ 63 < 2 ^ 52) :
    ∃ lz, 12 ≤ lz ∧ lz < 64 ∧ 2 ^ 63 ≤ v.toNat % 2 ^ 63 * 2 ^ lz ∧
      Widened v (v.toNat % 2 ^ 63 * 2 ^ lz) (15372 - lz) := by
  have hf := field_toNat (v := v)
  rw [Nat.div_eq_of_lt h] at hf
  obtain ⟨m, hm⟩ : ∃ m, v &&& 0x000FFFFFFFFFFFFF = m := ⟨_, rfl⟩
  have hmn : m.toNat = v.toNat % 2 ^ 63 := by
    rw [← hm, fraction_toNat]
    omega
  have hne : m ≠ 0 := by
    rintro rfl
    exact h0 hmn.symm
  have hlow := BitVec.two_pow_sub_clz_le_toNat_of_ne_zero (x := m) (by decide) hne
  have hhigh := BitVec.toNat_lt_two_pow_sub_clz (x := m)
  obtain ⟨lz, hlz⟩ : ∃ lz, m.clz.toNat = lz := ⟨_, rfl⟩
  rw [hlz] at hlow hhigh
  rw [hmn] at hlow hhigh
  have hlt : lz < 64 := by
    by_contra hge
    rw [Nat.sub_eq_zero_of_le (by omega : 64 ≤ lz)] at hhigh
    omega
  have hge : 12 ≤ lz := by
    by_contra hlt'
    have := Nat.pow_le_pow_right (show 0 < 2 by decide) (show 52 ≤ 64 - 1 - lz by omega)
    omega
  have htop : 2 ^ 63 ≤ v.toNat % 2 ^ 63 * 2 ^ lz := by
    calc 2 ^ 63 = 2 ^ (64 - 1 - lz) * 2 ^ lz := by rw [← pow_add]; congr 1; omega
      _ ≤ v.toNat % 2 ^ 63 * 2 ^ lz := Nat.mul_le_mul_right _ hlow
  have hfit : v.toNat % 2 ^ 63 * 2 ^ lz < 2 ^ 64 := by
    calc v.toNat % 2 ^ 63 * 2 ^ lz < 2 ^ (64 - lz) * 2 ^ lz :=
          Nat.mul_lt_mul_of_pos_right hhigh (Nat.two_pow_pos _)
      _ = 2 ^ 64 := by rw [← pow_add]; congr 1; omega
  have hpair : f64ToF80 v = (m <<< lz, u16 (v >>> 63) <<< 15 ||| BitVec.ofNat 16 (15372 - lz)) := by
    unfold f64ToF80
    rw [hf, hm]
    dsimp only
    rw [if_neg fun hc => hne hc.2, if_neg (by decide), if_pos rfl, leadingZeros, hlz]
  have hexp : (BitVec.ofNat 16 (15372 - lz)).toNat = 15372 - lz := by
    rw [BitVec.toNat_ofNat]
    omega
  have hw := widened_of_pair hpair (by omega)
  rw [hexp, BitVec.toNat_shiftLeft, Nat.shiftLeft_eq, hmn, Nat.mod_eq_of_lt hfit] at hw
  exact ⟨lz, hge, hlt, htop, hw⟩

end Widen

/-! ## There and back -/

/-- The 80-bit pattern of a 64-bit one denotes the same, with its integer bit set unless it is
zero. -/
theorem datum80_f64ToF80 (v : U64) :
    datum80 (f64ToF80 v).1 (f64ToF80 v).2 = datum64 v ∧
      ((f64ToF80 v).1.msb = true ∨ (f64ToF80 v).2.toNat % 2 ^ 15 = 0) := by
  obtain ⟨n, hn⟩ : ∃ n, v.toNat % 2 ^ 63 = n := ⟨_, rfl⟩
  have hlt : n < 2 ^ 63 := hn ▸ Nat.mod_lt _ (by decide)
  have integer {k : Nat} (h : (f64ToF80 v).1.toNat = k) (hk : 2 ^ 63 ≤ k) :
      (f64ToF80 v).1.msb = true :=
    BitVec.msb_eq_true_iff_two_mul_ge.mpr (by omega)
  unfold datum80 datum64
  rw [hn]
  by_cases h0 : n = 0
  · have hw := widened_zero (hn.trans h0)
    dsimp only
    rw [hw.sig, hw.exp, hw.sign, h0, if_pos (by decide), if_pos (by decide)]
    refine ⟨?_, .inr rfl⟩
    rw [Nat.zero_mul, doubleGrid, doubleMag_small (by decide), Nat.zero_mul]
  by_cases hden : n < 2 ^ 52
  · obtain ⟨lz, hge, hle, htop, hw⟩ := widened_denormal (v := v) (by omega) (by omega)
    rw [hn] at htop hw
    dsimp only
    rw [hw.sig, hw.exp, hw.sign, if_pos (by omega), if_pos (by rw [doubleTop]; omega)]
    refine ⟨?_, .inl (integer hw.sig htop)⟩
    rw [doubleGrid, doubleMag_small hden, Nat.mul_assoc, ← pow_add, doubleUnit,
      show lz + (max (15372 - lz) 1 - 1) = 15371 by omega]
  obtain ⟨e, m, he, hm, hem⟩ := (pattern_cases n).resolve_left hden
  have hdiv : n / 2 ^ 52 = e := by omega
  have hmod : n % 2 ^ 52 = m := by omega
  by_cases hfin : e < 2047
  · have hw := widened_normal (v := v) he hfin (by rw [hn, hdiv])
    rw [hn, hmod] at hw
    obtain ⟨d, rfl⟩ : ∃ d, e = d + 1 := ⟨e - 1, by omega⟩
    dsimp only
    rw [hw.sig, hw.exp, hw.sign, if_pos (by omega), if_pos (by rw [doubleTop]; omega)]
    refine ⟨?_, .inl (integer hw.sig (by omega))⟩
    rw [doubleGrid, hem, doubleMag_normal he hm, Nat.add_sub_cancel,
      show max (15360 + (d + 1)) 1 - 1 = 15360 + d by omega, Nat.mul_assoc, ← pow_exp,
      ← Nat.mul_assoc]
    congr 2
    omega
  · have he' : e = 2047 := by omega
    have hw := widened_special (v := v) (by rw [hn, hdiv, he'])
    rw [hn, hmod] at hw
    have htop : n = doubleTop + m := by rw [hem, he', doubleTop]
    have hfrac : (2 ^ 63 + m * 2 ^ 11) % 2 ^ 63 = m * 2 ^ 11 := by omega
    dsimp only
    rw [hw.sig, hw.exp, hw.sign, if_neg (Nat.lt_irrefl 32767),
      if_neg (show ¬n < doubleTop by omega), hfrac]
    refine ⟨?_, .inl (integer hw.sig (by omega))⟩
    by_cases hm0 : m = 0
    · rw [if_pos (show m * 2 ^ 11 = 0 by omega), if_pos (show n = doubleTop by omega)]
    · rw [if_neg (show ¬m * 2 ^ 11 = 0 by omega), if_neg (show ¬n = doubleTop by omega),
        show n - doubleTop = m by omega]

theorem eq_of_sign_low {v w : U64} (hs : v.msb = w.msb) (h : v.toNat % 2 ^ 63 = w.toNat % 2 ^ 63) :
    v = w := by
  apply BitVec.eq_of_toNat_eq
  have hv := v.isLt
  have hw := w.isLt
  rw [BitVec.msb_eq_decide, BitVec.msb_eq_decide, decide_eq_decide] at hs
  omega

/-- A pattern with an exponent field of ones comes back whole. -/
theorem back_special {v : U64} (h : doubleTop ≤ v.toNat % 2 ^ 63) :
    f80ToF64 (f64ToF80 v).1 (f64ToF80 v).2 = v := by
  have hlt := Nat.mod_lt v.toNat (Nat.two_pow_pos 63)
  rw [doubleTop] at h
  have hw := widened_special (v := v) (by omega)
  have hbody := @roundedMag_special (f64ToF80 v).1
  rw [hw.sig] at hbody
  have hvalue : (roundedMag (f64ToF80 v).1 32767).toNat = v.toNat % 2 ^ 63 := by
    rw [hbody, doubleTop]
    omega
  obtain ⟨hmsb, hlow⟩ := signed_word (f64ToF80 v).2 (a := roundedMag (f64ToF80 v).1 32767)
    (by rw [hvalue]; exact hlt)
  rw [f80ToF64_eq, hw.exp]
  exact eq_of_sign_low (hmsb.trans hw.sign) (hlow.trans hvalue)

theorem f80ToF64_f64ToF80 (v : U64) : f80ToF64 (f64ToF80 v).1 (f64ToF80 v).2 = v := by
  by_cases hfin : v.toNat % 2 ^ 63 < doubleTop
  · obtain ⟨hsame, hdom⟩ := datum80_f64ToF80 v
    have hd : datum64 v = .finite v.msb (doubleGrid (v.toNat % 2 ^ 63)) := if_pos hfin
    have hround := (roundsTo_iff hdom).mpr (by
      rw [hsame, hd]
      intro _
      rw [doubleGrid, Nat.mul_mod_left]
      exact .inl doubleUnit_pos)
    rw [hsame, hd] at hround
    exact eq_of_sign_low hround.1 (nearest_unique doubleGrid_strictMono hround.2
      (nearest_self doubleGrid_strictMono hfin.le))
  · exact back_special (by omega)

/-- Every 64-bit pattern converts to one that denotes the same, and back to itself. An 80-bit
pattern with its integer bit set or its exponent zero converts to the nearest 64-bit one, ties to
even, exactly where it rounds well. -/
theorem conversions_exact_iff (v sig : U64) (se : U16) :
    (f80ToF64 (f64ToF80 v).1 (f64ToF80 v).2 = v ∧
        datum80 (f64ToF80 v).1 (f64ToF80 v).2 = datum64 v) ∧
      (sig.msb = true ∨ se.toNat % 2 ^ 15 = 0 →
        (RoundsTo (f80ToF64 sig se) (datum80 sig se) ↔ RoundsWell (datum80 sig se))) :=
  ⟨⟨f80ToF64_f64ToF80 v, (datum80_f64ToF80 v).1⟩, roundsTo_iff⟩

/-- A NaN with a payload of 1 becomes an infinity, and 1.5 times the least denormal is cut to the
least denormal where the even neighbour is twice it. -/
theorem conversions_not_exact :
    f80ToF64 0x8000000000000001 0x7FFF = 0x7FF0000000000000 ∧
      ¬RoundsTo (f80ToF64 0x8000000000000001 0x7FFF) (datum80 0x8000000000000001 0x7FFF) ∧
      f80ToF64 0xC000000000000000 15309 = 1 ∧
      ¬RoundsTo (f80ToF64 0xC000000000000000 15309) (datum80 0xC000000000000000 15309) := by
  refine ⟨by decide +kernel, fun h => ?_, by decide +kernel, fun h => ?_⟩
  · obtain ⟨_, _, h⟩ := h
    rw [show datum64 (f80ToF64 0x8000000000000001 0x7FFF) = .infinity false by decide +kernel] at h
    cases h
  · obtain ⟨_, hnear⟩ := h
    have hfar := hnear.nearest 2 (by decide +kernel) (by decide +kernel)
    revert hfar
    decide +kernel

/-- One 80-bit place above 1 is rounded to 1. -/
theorem conversions_exact_one :
    RoundsTo (f80ToF64 0x8000000000000001 16383) (datum80 0x8000000000000001 16383) :=
  ((conversions_exact_iff 0 0x8000000000000001 16383).2 (.inl rfl)).mpr (by
    intro h
    revert h
    decide +kernel)

end X86Emu
