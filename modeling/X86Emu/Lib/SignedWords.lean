import Mathlib.Data.BitVec
import Mathlib.Tactic

/-!
# Sums of words on exact integers

What the wrapped sum or difference of two words of any width says about the
exact one: the carry out of the word, the carry out of one bit, the signed range.
-/
namespace SignedWords

variable {n : Nat}

/-- The signed range of an `n`-bit word. -/
def SignedFits (n : Nat) (x : Int) : Prop := -2 ^ (n - 1) ≤ x ∧ x < 2 ^ (n - 1)

/-- The unsigned range of an `n`-bit word. -/
def UnsignedFits (n : Nat) (x : Int) : Prop := 0 ≤ x ∧ x < 2 ^ n

instance (n : Nat) (x : Int) : Decidable (SignedFits n x) := inferInstanceAs (Decidable (_ ∧ _))
instance (n : Nat) (x : Int) : Decidable (UnsignedFits n x) := inferInstanceAs (Decidable (_ ∧ _))

theorem two_pow_eq_double (hn : 0 < n) : (2 : Int) ^ n = 2 * 2 ^ (n - 1) := by
  obtain ⟨k, rfl⟩ : ∃ k, n = k + 1 := ⟨n - 1, by omega⟩
  rw [Nat.add_sub_cancel, pow_succ, mul_comm]

theorem signedFits_toInt (a : BitVec n) : SignedFits n a.toInt :=
  ⟨BitVec.le_toInt a, BitVec.toInt_lt⟩

theorem unsignedFits_toNat (a : BitVec n) : UnsignedFits n a.toNat :=
  ⟨by omega, by exact_mod_cast a.isLt⟩

theorem toInt_ofInt_of_fits (hn : 0 < n) {x : Int} (h : SignedFits n x) :
    (BitVec.ofInt n x).toInt = x := by
  obtain ⟨hlo, hhi⟩ := h
  have hd := two_pow_eq_double hn
  rw [BitVec.toInt_ofInt]
  apply Int.bmod_eq_of_le_mul_two <;> push_cast <;> omega

theorem toNat_ofInt_of_fits {x : Int} (h : UnsignedFits n x) :
    ((BitVec.ofInt n x).toNat : Int) = x := by
  obtain ⟨hlo, hhi⟩ := h
  rw [BitVec.toNat_ofInt]
  have he : x % ((2 ^ n : Nat) : Int) = x := Int.emod_eq_of_lt hlo (by push_cast; exact hhi)
  omega

@[simp] theorem ofInt_toNat (a : BitVec n) : BitVec.ofInt n a.toNat = a := by
  rw [BitVec.ofInt_natCast, BitVec.ofNat_toNat, BitVec.setWidth_eq]

theorem ofInt_sub (x y : Int) : BitVec.ofInt n (x - y) = BitVec.ofInt n x - BitVec.ofInt n y := by
  rw [Int.sub_eq_add_neg, BitVec.ofInt_add, BitVec.ofInt_neg, BitVec.sub_eq_add_neg]

theorem ofInt_carry (c : Bool) : BitVec.ofInt n c.toNat = (BitVec.ofBool c).setWidth n := by
  apply BitVec.eq_of_toNat_eq
  rw [BitVec.ofInt_natCast, BitVec.toNat_ofNat, BitVec.toNat_setWidth, BitVec.toNat_ofBool]

/-- A sum that leaves the signed range by at most one period comes back with the other sign. -/
theorem toInt_ofInt_of_double (hn : 0 < n) {x : Int} (hlo : -2 ^ n ≤ x) (hhi : x < 2 ^ n) :
    (BitVec.ofInt n x).toInt =
      if x < -2 ^ (n - 1) then x + 2 ^ n else if 2 ^ (n - 1) ≤ x then x - 2 ^ n else x := by
  have hd := two_pow_eq_double hn
  have period (k : Int) : BitVec.ofInt n (x + k * 2 ^ n) = BitVec.ofInt n x := by
    apply BitVec.eq_of_toNat_eq
    rw [BitVec.toNat_ofInt, BitVec.toNat_ofInt, show ((2 ^ n : Nat) : Int) = 2 ^ n by push_cast; rfl,
      Int.add_mul_emod_self_right]
  split
  · rw [← period 1]
    exact (toInt_ofInt_of_fits hn ⟨by omega, by omega⟩).trans (by omega)
  · split
    · rw [← period (-1)]
      exact (toInt_ofInt_of_fits hn ⟨by omega, by omega⟩).trans (by omega)
    · exact toInt_ofInt_of_fits hn ⟨by omega, by omega⟩

/-! ## The overflow bit -/

/-- The sign of a wrapped sum is the sign of the exact one, flipped by a signed overflow. -/
theorem msb_ofInt_of_double (hn : 0 < n) {x : Int} (hlo : -2 ^ n ≤ x) (hhi : x < 2 ^ n) :
    (BitVec.ofInt n x).msb = (decide (x < 0) ^^ !decide (SignedFits n x)) := by
  have hd := two_pow_eq_double hn
  have hpos : (0 : Int) < 2 ^ (n - 1) := by positivity
  rw [BitVec.msb_eq_toInt, toInt_ofInt_of_double hn hlo hhi]
  by_cases hlow : x < -2 ^ (n - 1)
  · have hfit : ¬SignedFits n x := fun h => by have := h.1; omega
    have hneg : x < 0 := by omega
    have hwrap : ¬x + 2 ^ n < 0 := by omega
    simp [hlow, hfit, hneg, hwrap]
  · by_cases hhigh : 2 ^ (n - 1) ≤ x
    · have hfit : ¬SignedFits n x := fun h => by have := h.2; omega
      have hneg : ¬x < 0 := by omega
      have hwrap : x - 2 ^ n < 0 := by omega
      simp only [hlow, hhigh, hfit, hneg, hwrap, if_true, if_false, decide_true, decide_false]
      rfl
    · have hfit : SignedFits n x := ⟨by omega, by omega⟩
      simp [hlow, hhigh, hfit]

/-- The operands of a sum agree in sign and the sum disagrees, exactly on a signed overflow. -/
theorem msb_add_overflow (hn : 0 < n) (a b : BitVec n) {c : Int} (h0 : 0 ≤ c) (h1 : c ≤ 1) :
    ((a ^^^ BitVec.ofInt n (a.toInt + b.toInt + c)) &&&
        (b ^^^ BitVec.ofInt n (a.toInt + b.toInt + c))).msb =
      !decide (SignedFits n (a.toInt + b.toInt + c)) := by
  have hd := two_pow_eq_double hn
  obtain ⟨ha0, ha1⟩ := signedFits_toInt a
  obtain ⟨hb0, hb1⟩ := signedFits_toInt b
  rw [BitVec.msb_and, BitVec.msb_xor, BitVec.msb_xor, BitVec.msb_eq_toInt (x := a),
    BitVec.msb_eq_toInt (x := b), msb_ofInt_of_double hn (by omega) (by omega)]
  by_cases hfit : SignedFits n (a.toInt + b.toInt + c)
  · by_cases ha : a.toInt < 0 <;> by_cases hb : b.toInt < 0 <;>
      by_cases hs : a.toInt + b.toInt + c < 0 <;> simp [ha, hb, hs, hfit] <;> omega
  · have hout : a.toInt + b.toInt + c < -2 ^ (n - 1) ∨ 2 ^ (n - 1) ≤ a.toInt + b.toInt + c := by
      by_contra h
      exact hfit ⟨by omega, by omega⟩
    have hsigns : (a.toInt < 0 ↔ a.toInt + b.toInt + c < 0) ∧
        (b.toInt < 0 ↔ a.toInt + b.toInt + c < 0) := by omega
    simp [hsigns, hfit]

/-- The operands of a difference disagree in sign and the result takes the sign of the
subtrahend, exactly on a signed overflow. -/
theorem msb_sub_overflow (hn : 0 < n) (a b : BitVec n) {c : Int} (h0 : 0 ≤ c) (h1 : c ≤ 1) :
    ((a ^^^ b) &&& (a ^^^ BitVec.ofInt n (a.toInt - b.toInt - c))).msb =
      !decide (SignedFits n (a.toInt - b.toInt - c)) := by
  have hd := two_pow_eq_double hn
  obtain ⟨ha0, ha1⟩ := signedFits_toInt a
  obtain ⟨hb0, hb1⟩ := signedFits_toInt b
  rw [BitVec.msb_and, BitVec.msb_xor, BitVec.msb_xor, BitVec.msb_eq_toInt (x := a),
    BitVec.msb_eq_toInt (x := b), msb_ofInt_of_double hn (by omega) (by omega)]
  by_cases hfit : SignedFits n (a.toInt - b.toInt - c)
  · by_cases ha : a.toInt < 0 <;> by_cases hb : b.toInt < 0 <;>
      by_cases hs : a.toInt - b.toInt - c < 0 <;> simp [ha, hb, hs, hfit] <;> omega
  · have hout : a.toInt - b.toInt - c < -2 ^ (n - 1) ∨ 2 ^ (n - 1) ≤ a.toInt - b.toInt - c := by
      by_contra h
      exact hfit ⟨by omega, by omega⟩
    have hsigns : (a.toInt < 0 ↔ a.toInt - b.toInt - c < 0) ∧
        (b.toInt < 0 ↔ ¬a.toInt - b.toInt - c < 0) := by omega
    by_cases hs : a.toInt - b.toInt - c < 0
    · have ha : a.toInt < 0 := by omega
      have hb : ¬b.toInt < 0 := by omega
      simp only [ha, hb, hs, hfit, decide_true, decide_false]
      rfl
    · have ha : ¬a.toInt < 0 := by omega
      have hb : b.toInt < 0 := by omega
      simp only [ha, hb, hs, hfit, decide_true, decide_false]
      rfl

/-! ## The carry out of one bit -/

/-- Bit `i` of the three words of a sum adds up to the carry that reached it. -/
theorem getLsbD_sum_carry {i : Nat} (hi : i < n) (a b : BitVec n) (c : Bool) :
    (a ^^^ b ^^^ (a + b + (BitVec.ofBool c).setWidth n)).getLsbD i =
      decide (2 ^ i ≤ a.toNat % 2 ^ i + b.toNat % 2 ^ i + c.toNat) := by
  simp only [BitVec.getLsbD_xor, BitVec.getLsbD_add_add_bool hi, BitVec.carry, ge_iff_le]
  cases a.getLsbD i <;> cases b.getLsbD i <;> simp

/-- Bit `i` of the three words of a difference adds up to the borrow taken below it. -/
theorem getLsbD_diff_borrow {i : Nat} (hi : i < n) (a b : BitVec n) (c : Bool) :
    (a ^^^ b ^^^ (a - b - (BitVec.ofBool c).setWidth n)).getLsbD i =
      decide (a.toNat % 2 ^ i < b.toNat % 2 ^ i + c.toNat) := by
  obtain ⟨r, hr⟩ : ∃ r, r = a - b - (BitVec.ofBool c).setWidth n := ⟨_, rfl⟩
  have ha : a = r + b + (BitVec.ofBool c).setWidth n := by
    rw [hr]
    ring
  have hbit := getLsbD_sum_carry hi r b c
  rw [← ha] at hbit
  have hxor : (a ^^^ b ^^^ r).getLsbD i = (r ^^^ b ^^^ a).getLsbD i := by
    simp only [BitVec.getLsbD_xor]
    cases a.getLsbD i <;> cases b.getLsbD i <;> cases r.getLsbD i <;> rfl
  have hdvd : 2 ^ i ∣ 2 ^ n := Nat.pow_dvd_pow 2 hi.le
  have hword : ((BitVec.ofBool c).setWidth n).toNat % 2 ^ i = c.toNat % 2 ^ i := by
    rw [BitVec.toNat_setWidth, BitVec.toNat_ofBool, Nat.mod_mod_of_dvd _ hdvd]
  have hmod : a.toNat % 2 ^ i = (r.toNat % 2 ^ i + b.toNat % 2 ^ i + c.toNat) % 2 ^ i := by
    calc a.toNat % 2 ^ i
        = (r.toNat + b.toNat + ((BitVec.ofBool c).setWidth n).toNat) % 2 ^ i := by
          conv_lhs => rw [ha]
          rw [BitVec.toNat_add, BitVec.toNat_add, Nat.mod_add_mod, Nat.mod_mod_of_dvd _ hdvd]
      _ = (r.toNat % 2 ^ i + b.toNat % 2 ^ i + c.toNat) % 2 ^ i := by
          rw [Nat.add_mod, hword, Nat.add_mod r.toNat, ← Nat.add_mod]
  have hr' := Nat.mod_lt r.toNat (Nat.two_pow_pos i)
  have hb' := Nat.mod_lt b.toNat (Nat.two_pow_pos i)
  have hc := Bool.toNat_le c
  rw [← hr, hxor, hbit, decide_eq_decide, hmod]
  generalize r.toNat % 2 ^ i = x, b.toNat % 2 ^ i = y, c.toNat = z at *
  by_cases hcarry : 2 ^ i ≤ x + y + z
  · rw [Nat.mod_eq_sub_mod hcarry, Nat.mod_eq_of_lt (by omega)]
    omega
  · rw [Nat.mod_eq_of_lt (by omega)]
    omega

/-! ## Truncated division -/

/-- A word read as signed or as unsigned. -/
def valueOf (signed : Bool) (v : BitVec n) : Int := if signed then v.toInt else v.toNat

/-- The range of the reading. -/
def Fits (signed : Bool) (n : Nat) (x : Int) : Prop :=
  if signed then SignedFits n x else UnsignedFits n x

theorem valueOf_true (v : BitVec n) : valueOf true v = v.toInt := rfl

theorem valueOf_false (v : BitVec n) : valueOf false v = v.toNat := rfl

theorem valueOf_ofInt (hn : 0 < n) {signed : Bool} {x : Int} (h : Fits signed n x) :
    valueOf signed (BitVec.ofInt n x) = x := by
  cases signed with
  | false => exact toNat_ofInt_of_fits h
  | true => exact toInt_ofInt_of_fits hn h

@[simp] theorem valueOf_eq_zero {signed : Bool} {v : BitVec n} : valueOf signed v = 0 ↔ v = 0 := by
  cases signed with
  | false =>
    simp only [valueOf, Bool.false_eq_true, if_false]
    rw [← BitVec.toNat_inj]
    simp
  | true =>
    simp only [valueOf, if_true]
    rw [← BitVec.toInt_inj]
    simp

theorem fits_valueOf (signed : Bool) (v : BitVec n) : Fits signed n (valueOf signed v) := by
  cases signed with
  | false => exact unsignedFits_toNat v
  | true => exact signedFits_toInt v

theorem setWidth_ofInt {k : Nat} (h : n ≤ k) (x : Int) :
    (BitVec.ofInt k x).setWidth n = BitVec.ofInt n x := by
  apply BitVec.eq_of_toNat_eq
  have hdvd : ((2 ^ n : Nat) : Int) ∣ ((2 ^ k : Nat) : Int) := by
    exact_mod_cast Nat.pow_dvd_pow 2 h
  have hpos (m : Nat) : (0 : Int) < ((2 ^ m : Nat) : Int) := by positivity
  have hk := Int.emod_nonneg x (hpos k).ne'
  zify
  rw [BitVec.toNat_setWidth, BitVec.toNat_ofInt, BitVec.toNat_ofInt, Int.natCast_emod,
    Int.toNat_of_nonneg hk, Int.toNat_of_nonneg (Int.emod_nonneg x (hpos n).ne'),
    Int.emod_emod_of_dvd x hdvd]

theorem natAbs_tmod_lt (a : Int) {b : Int} (hb : b ≠ 0) : (a.tmod b).natAbs < b.natAbs := by
  rw [Int.natAbs_tmod]
  exact Nat.mod_lt _ (Int.natAbs_pos.mpr hb)

/-- The remainder has the sign of the dividend. -/
theorem sign_tmod (a b : Int) : a.tmod b = 0 ∨ (a.tmod b).sign = a.sign := by
  by_cases h : b ∣ a
  · exact .inl (Int.tmod_eq_zero_of_dvd h)
  · exact .inr (by rw [Int.sign_tmod, if_neg h])

/-- A remainder fits wherever its divisor does. -/
theorem fits_tmod {signed : Bool} {a b : Int} (ha : signed = false → 0 ≤ a) (hb : b ≠ 0)
    (h : Fits signed n b) : Fits signed n (a.tmod b) := by
  have hlt := natAbs_tmod_lt a hb
  cases signed with
  | false =>
    obtain ⟨h0, h1⟩ := h
    have hnonneg := Int.tmod_nonneg b (ha rfl)
    exact ⟨hnonneg, by omega⟩
  | true =>
    obtain ⟨h0, h1⟩ := h
    exact ⟨by omega, by omega⟩

section Narrow

variable {k : Nat}

theorem udiv_narrow (h : n ≤ k) (a : BitVec k) (v : BitVec n) :
    (a / v.setWidth k).setWidth n = BitVec.ofInt n ((a.toNat : Int).tdiv v.toNat) := by
  apply BitVec.eq_of_toNat_eq
  rw [← Int.ofNat_tdiv, BitVec.ofInt_natCast, BitVec.toNat_ofNat, BitVec.toNat_setWidth,
    BitVec.toNat_udiv, BitVec.toNat_setWidth_of_le h]

theorem umod_narrow (h : n ≤ k) (a : BitVec k) (v : BitVec n) :
    (a % v.setWidth k).setWidth n = BitVec.ofInt n ((a.toNat : Int).tmod v.toNat) := by
  apply BitVec.eq_of_toNat_eq
  rw [← Int.ofNat_tmod, BitVec.ofInt_natCast, BitVec.toNat_ofNat, BitVec.toNat_setWidth,
    BitVec.toNat_umod, BitVec.toNat_setWidth_of_le h]

theorem sdiv_narrow (h : n ≤ k) {a : BitVec k} {v : BitVec n}
    (hover : ¬(a = BitVec.intMin k ∧ v.signExtend k = -1)) :
    (a.sdiv (v.signExtend k)).setWidth n = BitVec.ofInt n (a.toInt.tdiv v.toInt) := by
  rw [← BitVec.ofInt_toInt (x := a.sdiv (v.signExtend k)), setWidth_ofInt h,
    BitVec.toInt_sdiv_of_ne_or_ne a _ (by tauto), BitVec.toInt_signExtend_of_le h]

theorem srem_narrow (h : n ≤ k) (a : BitVec k) (v : BitVec n) :
    (a.srem (v.signExtend k)).setWidth n = BitVec.ofInt n (a.toInt.tmod v.toInt) := by
  rw [← BitVec.ofInt_toInt (x := a.srem (v.signExtend k)), setWidth_ofInt h,
    BitVec.toInt_srem, BitVec.toInt_signExtend_of_le h]

/-- A wide word is the sign extension of its low part exactly when it fits there. -/
theorem eq_signExtend_iff (hn : 0 < n) (h : n ≤ k) (q : BitVec k) :
    q = (q.setWidth n).signExtend k ↔ SignedFits n q.toInt := by
  have hlow : q.setWidth n = BitVec.ofInt n q.toInt := by
    rw [← setWidth_ofInt h, BitVec.ofInt_toInt]
  rw [← BitVec.toInt_inj, BitVec.toInt_signExtend_of_le h]
  constructor
  · intro heq
    rw [heq]
    exact signedFits_toInt _
  · intro hfit
    rw [hlow, toInt_ofInt_of_fits hn hfit]

theorem eq_intMin_iff (hn : 0 < n) (a : BitVec n) :
    a = BitVec.intMin n ↔ a.toInt = -2 ^ (n - 1) := by
  rw [← BitVec.toInt_inj, BitVec.toInt_intMin_of_pos hn]

/-- Shifting a word to the top of a wider one and back down sign-extends it. -/
theorem shift_signExtend (h : n ≤ k) (a : BitVec n) :
    (a.setWidth k <<< (k - n)).sshiftRight (k - n) = a.signExtend k := by
  apply BitVec.eq_of_getLsbD_eq
  intro i hi
  have hmsb : (a.setWidth k <<< (k - n)).msb = a.msb := by
    rw [BitVec.msb_eq_getLsbD_last, BitVec.msb_eq_getLsbD_last, BitVec.getLsbD_shiftLeft,
      BitVec.getLsbD_setWidth]
    by_cases hn : n = 0
    · subst hn
      simp
    · rw [show k - 1 - (k - n) = n - 1 by omega]
      simp [show k - 1 < k by omega, show ¬k - 1 < k - n by omega, show n - 1 < k by omega]
  rw [BitVec.getLsbD_sshiftRight, BitVec.getLsbD_signExtend, hmsb]
  by_cases hin : i < n
  · simp [hi, hin, show k - n + i < k by omega, show ¬k ≤ i by omega]
  · simp [hi, hin, show ¬k - n + i < k by omega, show ¬k ≤ i by omega]

end Narrow

/-! ## Products -/

section Products

variable {k : Nat}

/-- Two words multiplied in a wider word, both read the same way. -/
theorem widen_mul (signed : Bool) (a b : BitVec n) :
    (if signed then a.signExtend k * b.signExtend k else a.setWidth k * b.setWidth k) =
      BitVec.ofInt k (valueOf signed a * valueOf signed b) := by
  cases signed with
  | true =>
    rw [BitVec.ofInt_mul]
    rfl
  | false =>
    have hcast (v : BitVec n) : v.setWidth k = BitVec.ofInt k (valueOf false v) := by
      rw [valueOf_false, BitVec.ofInt_natCast, BitVec.ofNat_toNat]
    rw [BitVec.ofInt_mul, ← hcast, ← hcast]
    rfl

theorem signedFits_mono {x : Int} (h : n ≤ k) (hx : SignedFits n x) : SignedFits k x := by
  have hpow : (2 : Int) ^ (n - 1) ≤ 2 ^ (k - 1) := pow_le_pow_right₀ (by decide) (by omega)
  exact ⟨by linarith [hx.1], by linarith [hx.2]⟩

theorem fits_mono {signed : Bool} {x : Int} (h : n ≤ k) (hx : Fits signed n x) :
    Fits signed k x := by
  cases signed with
  | true => exact signedFits_mono h hx
  | false =>
    have hpow : (2 : Int) ^ n ≤ 2 ^ k := pow_le_pow_right₀ (by decide) h
    exact ⟨hx.1, lt_of_lt_of_le hx.2 hpow⟩

theorem signedFits_mul (hn : 0 < n) {x y : Int} (hx : SignedFits n x) (hy : SignedFits n y) :
    SignedFits (n + n) (x * y) := by
  obtain ⟨hx0, hx1⟩ := hx
  obtain ⟨hy0, hy1⟩ := hy
  have hpow : (2 : Int) ^ (n + n - 1) = 2 * (2 ^ (n - 1) * 2 ^ (n - 1)) := by
    rw [← pow_add, ← pow_succ']
    congr 1
    omega
  have hp : (0 : Int) < 2 ^ (n - 1) := by positivity
  rw [SignedFits, hpow]
  constructor <;> nlinarith

/-- The product of two words fits twice their width. -/
theorem fits_mul (hn : 0 < n) (signed : Bool) (a b : BitVec n) :
    Fits signed (n + n) (valueOf signed a * valueOf signed b) := by
  cases signed with
  | false =>
    refine ⟨mul_nonneg (by exact Int.natCast_nonneg _) (by exact Int.natCast_nonneg _), ?_⟩
    have h := Nat.mul_lt_mul'' a.isLt b.isLt
    rw [← pow_add] at h
    rw [valueOf_false, valueOf_false]
    exact_mod_cast h
  | true => exact signedFits_mul hn (signedFits_toInt a) (signedFits_toInt b)

/-- The high half of a word that holds an integer. -/
theorem high_ofInt (h : n + n ≤ k) (x : Int) :
    (BitVec.ofInt k x >>> n).setWidth n = BitVec.ofInt n (x / 2 ^ n) := by
  obtain ⟨j, rfl⟩ : ∃ j, k = n + (n + j) := ⟨k - (n + n), by omega⟩
  have hpos (m : Nat) : (0 : Int) < 2 ^ m := by positivity
  have hmod : (x / 2 ^ n) % 2 ^ n = x % 2 ^ (n + (n + j)) / 2 ^ n % 2 ^ n := by
    calc x / 2 ^ n % 2 ^ n
        = (x % 2 ^ (n + (n + j)) + 2 ^ n * (2 ^ n * (2 ^ j * (x / 2 ^ (n + (n + j)))))) / 2 ^ n %
            2 ^ n := by
          rw [← mul_assoc, ← mul_assoc, ← pow_add, ← pow_add, Nat.add_assoc, Int.emod_add_mul_ediv]
      _ = x % 2 ^ (n + (n + j)) / 2 ^ n % 2 ^ n := by
          rw [Int.add_mul_ediv_left _ _ (hpos n).ne', Int.add_mul_emod_self_left]
  apply BitVec.eq_of_toNat_eq
  zify
  rw [BitVec.toNat_setWidth, BitVec.toNat_ushiftRight, BitVec.toNat_ofInt, BitVec.toNat_ofInt,
    Nat.shiftRight_eq_div_pow]
  push_cast
  rw [Int.toNat_of_nonneg (Int.emod_nonneg _ (hpos _).ne'),
    Int.toNat_of_nonneg (Int.emod_nonneg _ (hpos _).ne'), hmod]

theorem high_sshiftRight (h : n + n ≤ k) (v : BitVec k) :
    (v.sshiftRight n).setWidth n = (v >>> n).setWidth n := by
  apply BitVec.eq_of_getLsbD_eq
  intro i hi
  rw [BitVec.getLsbD_setWidth, BitVec.getLsbD_setWidth, BitVec.getLsbD_sshiftRight,
    BitVec.getLsbD_ushiftRight]
  simp [hi, show n + i < k by omega]
  omega

theorem append_halves (v : BitVec (n + n)) : (v >>> n).setWidth n ++ v.setWidth n = v := by
  apply BitVec.eq_of_getLsbD_eq
  intro i hi
  rw [BitVec.getLsbD_append, BitVec.getLsbD_setWidth, BitVec.getLsbD_setWidth,
    BitVec.getLsbD_ushiftRight]
  by_cases h : i < n
  · simp [h]
  · simp [h, show i - n < n by omega, show n + (i - n) = i by omega]

theorem setWidth_append_low (hi lo : BitVec n) : (hi ++ lo).setWidth n = lo := by
  apply BitVec.eq_of_getLsbD_eq
  intro i h
  rw [BitVec.getLsbD_setWidth, BitVec.getLsbD_append]
  simp [h]

/-- A word of twice the width extends its low half exactly when its value fits there. -/
theorem eq_extend_low_iff (hn : 0 < n) (signed : Bool) (v : BitVec (n + n)) :
    (v = if signed then (v.setWidth n).signExtend (n + n) else (v.setWidth n).setWidth (n + n)) ↔
      Fits signed n (valueOf signed v) := by
  cases signed with
  | true => exact eq_signExtend_iff hn (by omega) v
  | false =>
    rw [if_neg (by decide), ← BitVec.toNat_inj, BitVec.toNat_setWidth_of_le (by omega),
      BitVec.toNat_setWidth, eq_comm, Nat.mod_eq_iff_lt (Nat.two_pow_pos n).ne', valueOf_false]
    constructor
    · intro h
      exact ⟨Int.natCast_nonneg _, by exact_mod_cast h⟩
    · rintro ⟨-, h⟩
      exact_mod_cast h

end Products

end SignedWords
