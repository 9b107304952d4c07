import X86Emu.AluFlags
import X86Emu.Lib.CarryChain
import Mathlib.Data.Nat.Digits.Lemmas

/-!
# Numbers longer than a word

A program adds, subtracts and compares long numbers a word at a time, lowest first: ADD, SUB or CMP
on the lowest words, then ADC or SBB on the rest, each reading the CF the one before left. The words
are wider than a byte.
-/
namespace X86Emu

open SignedWords CarryChain

/-- Two numbers, word by word. -/
abbrev WordPairs (w : Width) := List (BitVec w.bits × BitVec w.bits)

/-- One operation on two words: the result and the flags it leaves. -/
def aluStep (w : Width) (op : AluOp) (p : BitVec w.bits × BitVec w.bits) (fl : U32) :
    BitVec w.bits × U32 :=
  let r := aluW op (u64 p.1) (u64 p.2) w fl
  (r.1.setWidth w.bits, r.2)

/-- One operation over all the words, each with the flags the one before left. -/
def aluChain (w : Width) (op : AluOp) : WordPairs w → U32 → List (BitVec w.bits) × U32
  | [], fl => ([], fl)
  | p :: rest, fl =>
    let r := aluStep w op p fl
    let t := aluChain w op rest r.2
    (r.1 :: t.1, t.2)

/-- A long operation: `first` on the lowest words and `next` on the others. -/
def longAlu (w : Width) (first next : AluOp) (p : BitVec w.bits × BitVec w.bits)
    (rest : WordPairs w) (fl : U32) : List (BitVec w.bits) × U32 :=
  let r := aluStep w first p fl
  let t := aluChain w next rest r.2
  (r.1 :: t.1, t.2)

/-- The number that words make, lowest first. -/
def longValue (w : Width) (l : List (BitVec w.bits)) : Nat :=
  Nat.ofDigits (2 ^ w.bits) (l.map BitVec.toNat)

/-! ## One word -/

/-- Whether an operation adds CF in, or takes it off. -/
def AluOp.usesCarry : AluOp → Bool
  | .adc | .sbb => true
  | _ => false

/-- The sign with which an operation takes its second operand. -/
def AluOp.sign : AluOp → Int
  | .add | .adc => 1
  | _ => -1

/-- The carry an operation reads. -/
def AluOp.carryIn (op : AluOp) (fl : U32) : Nat := (op.usesCarry && test fl Flags.cf).toNat

theorem AluOp.exact_eq {op : AluOp} (h : op.Arithmetic) (x y : Int) (fl : U32) :
    op.exact x y (test fl Flags.cf).toNat = x + op.sign * (y + op.carryIn fl) := by
  cases op with
  | add | adc | sub | sbb | cmp =>
    simp only [AluOp.exact, AluOp.sign, AluOp.carryIn, AluOp.usesCarry, Bool.true_and,
      Bool.false_and, Bool.toNat_false]
    omega
  | and | or | xor => exact h.elim

theorem ofInt_sub_two_pow (n : Nat) (e : Int) : BitVec.ofInt n (e - 2 ^ n) = BitVec.ofInt n e := by
  refine BitVec.eq_of_toNat_eq ?_
  rw [BitVec.toNat_ofInt, BitVec.toNat_ofInt, Nat.cast_pow, Nat.cast_ofNat, Int.sub_emod,
    Int.emod_self, sub_zero, Int.emod_emod]

/-- A value that overflows its word at most once, put together again from the word and the carry. -/
theorem ofInt_carry_out {n : Nat} {σ e : Int} (hσ : σ = 1 ∨ σ = -1)
    (hlo : if σ = 1 then 0 ≤ e else -2 ^ n ≤ e) (hhi : if σ = 1 then e < 2 * 2 ^ n else e < 2 ^ n) :
    ((BitVec.ofInt n e).toNat : Int) + σ * 2 ^ n * (decide ¬UnsignedFits n e).toNat = e := by
  by_cases hfit : UnsignedFits n e
  · rw [toNat_ofInt_of_fits hfit, decide_eq_false (not_not_intro hfit)]
    simp
  · -- The word holds the value moved back by one modulus.
    have hmoved : UnsignedFits n (e - σ * 2 ^ n) := by
      unfold UnsignedFits at hfit ⊢
      rcases hσ with rfl | rfl
      · simp only [if_true] at hlo hhi
        omega
      · rw [if_neg (by decide)] at hlo hhi
        omega
    have hword : BitVec.ofInt n e = BitVec.ofInt n (e - σ * 2 ^ n) := by
      rcases hσ with rfl | rfl
      · rw [one_mul, ofInt_sub_two_pow]
      · rw [← ofInt_sub_two_pow n (e - _), neg_one_mul, sub_neg_eq_add, add_sub_cancel_right]
    rw [hword, toNat_ofInt_of_fits hmoved, decide_eq_true hfit]
    simp

/-- A word operation is exact, counting its carry out. -/
theorem aluStep_exact {w : Width} (hw : w ≠ .w8) {op : AluOp} (h : op.Arithmetic)
    (p : BitVec w.bits × BitVec w.bits) (fl : U32) :
    ((aluStep w op p fl).1.toNat : Int) +
        op.sign * (2 ^ w.bits : Nat) * (test (aluStep w op p fl).2 Flags.cf).toNat =
      p.1.toNat + op.sign * (p.2.toNat + op.carryIn fl) := by
  obtain ⟨-, hresult, hstatus, -⟩ := alu_meets_spec_wide hw op p.1 p.2 fl
  have hbits : w.bits ≤ 64 := by cases w <;> decide
  have hvalue : (aluStep w op p fl).1 = op.value p.1 p.2 (test fl Flags.cf) := by
    show (aluW op (u64 p.1) (u64 p.2) w fl).1.setWidth w.bits = _
    rw [hresult, u64, BitVec.setWidth_setWidth_of_le _ hbits, BitVec.setWidth_eq]
  have hcf : test (aluStep w op p fl).2 Flags.cf = _ := hstatus.cf
  rw [AluOp.value_arithmetic h, AluOp.exact_eq h] at hvalue
  simp only [h, true_and, AluOp.exact_eq h] at hcf
  have hc : op.carryIn fl ≤ 1 := Bool.toNat_le _
  have hx : (p.1.toNat : Int) < 2 ^ w.bits := by exact_mod_cast p.1.isLt
  have hy : (p.2.toNat : Int) < 2 ^ w.bits := by exact_mod_cast p.2.isLt
  have hsign : op.sign = 1 ∨ op.sign = -1 := by cases op <;> decide
  rw [hcf, hvalue, Nat.cast_pow, Nat.cast_ofNat]
  refine ofInt_carry_out hsign ?_ ?_
  · rcases hsign with hs | hs <;> simp only [hs] <;> norm_num <;> omega
  · rcases hsign with hs | hs <;> simp only [hs] <;> norm_num <;> omega

/-! ## The chain -/

/-- What one word operation contributes to a chain. -/
def aluLink (w : Width) (op : AluOp) (p : BitVec w.bits × BitVec w.bits) (fl : U32) : Link where
  x := p.1.toNat
  y := p.2.toNat
  r := (aluStep w op p fl).1.toNat
  carry := (test (aluStep w op p fl).2 Flags.cf).toNat

def aluLinks (w : Width) (op : AluOp) : WordPairs w → U32 → List Link
  | [], _ => []
  | p :: rest, fl => aluLink w op p fl :: aluLinks w op rest (aluStep w op p fl).2

theorem length_aluLinks (w : Width) (op : AluOp) :
    ∀ (l : WordPairs w) (fl : U32), (aluLinks w op l fl).length = l.length
  | [], _ => rfl
  | _ :: rest, _ => congrArg (· + 1) (length_aluLinks w op rest _)

theorem map_aluLinks (w : Width) (op : AluOp) : ∀ (l : WordPairs w) (fl : U32),
    (aluLinks w op l fl).map Link.x = (l.map Prod.fst).map BitVec.toNat ∧
      (aluLinks w op l fl).map Link.y = (l.map Prod.snd).map BitVec.toNat ∧
      (aluLinks w op l fl).map Link.r = (aluChain w op l fl).1.map BitVec.toNat
  | [], _ => ⟨rfl, rfl, rfl⟩
  | p :: rest, fl => by
    obtain ⟨hx, hy, hr⟩ := map_aluLinks w op rest (aluStep w op p fl).2
    exact ⟨congrArg (p.1.toNat :: ·) hx, congrArg (p.2.toNat :: ·) hy,
      congrArg ((aluStep w op p fl).1.toNat :: ·) hr⟩

/-- An operation that reads CF hands it from word to word. -/
theorem exact_aluLinks {w : Width} (hw : w ≠ .w8) {op : AluOp} (hc : op.usesCarry = true) :
    ∀ (l : WordPairs w) (fl : U32),
      Exact (2 ^ w.bits) op.sign (test fl Flags.cf).toNat (aluLinks w op l fl) ∧
        carryOut (test fl Flags.cf).toNat (aluLinks w op l fl) =
          (test (aluChain w op l fl).2 Flags.cf).toNat
  | [], _ => ⟨trivial, rfl⟩
  | p :: rest, fl => by
    have harith : op.Arithmetic := by cases op <;> trivial
    obtain ⟨hrest, hout⟩ := exact_aluLinks hw hc rest (aluStep w op p fl).2
    have hword := aluStep_exact hw harith p fl
    rw [AluOp.carryIn, hc, Bool.true_and] at hword
    exact ⟨⟨hword, hrest⟩, hout⟩

/-- The pairs of operations that make a long one. -/
structure LongPair (first next : AluOp) : Prop where
  arithmetic : first.Arithmetic
  starts : first.usesCarry = false
  carries : next.usesCarry = true
  sign : first.sign = next.sign

/-- A long operation is exact, counting the carry out of its highest word. -/
theorem longAlu_exact {w : Width} (hw : w ≠ .w8) {first next : AluOp} (h : LongPair first next)
    (p : BitVec w.bits × BitVec w.bits) (rest : WordPairs w) (fl : U32) :
    (longValue w (longAlu w first next p rest fl).1 : Int) +
        next.sign * (2 ^ w.bits) ^ (rest.length + 1) *
          (test (longAlu w first next p rest fl).2 Flags.cf).toNat =
      longValue w (p.1 :: rest.map Prod.fst) +
        next.sign * longValue w (p.2 :: rest.map Prod.snd) := by
  obtain ⟨hrest, hout⟩ := exact_aluLinks hw h.carries rest (aluStep w first p fl).2
  obtain ⟨hx, hy, hr⟩ := map_aluLinks w next rest (aluStep w first p fl).2
  have hword := aluStep_exact hw h.arithmetic p fl
  rw [h.sign, AluOp.carryIn, h.starts, Bool.false_and, Bool.toNat_false] at hword
  have hchain := @ofDigits_chain (2 ^ w.bits) next.sign
    (aluLink w first p fl :: aluLinks w next rest (aluStep w first p fl).2) 0 ⟨hword, hrest⟩
  simp only [List.map_cons, hx, hy, hr, List.length_cons, length_aluLinks, carryOut_cons] at hchain
  have hcarry : carryOut (aluLink w first p fl).carry
      (aluLinks w next rest (aluStep w first p fl).2) =
        (test (longAlu w first next p rest fl).2 Flags.cf).toNat := hout
  rw [hcarry, Nat.cast_zero, add_zero] at hchain
  simp only [longValue, Nat.coe_ofDigits, List.map_cons]
  push_cast at hchain ⊢
  exact hchain

theorem longPair_add : LongPair .add .adc := ⟨trivial, rfl, rfl, rfl⟩

theorem longPair_sub : LongPair .sub .sbb := ⟨trivial, rfl, rfl, rfl⟩

theorem longPair_cmp : LongPair .cmp .sbb := ⟨trivial, rfl, rfl, rfl⟩

theorem longValue_lt (w : Width) (l : List (BitVec w.bits)) :
    longValue w l < (2 ^ w.bits) ^ l.length := by
  have hbase : 1 < 2 ^ w.bits := Nat.one_lt_two_pow (by cases w <;> decide)
  have h := Nat.ofDigits_lt_base_pow_length hbase (l := l.map BitVec.toNat) fun d hd => by
    obtain ⟨v, -, rfl⟩ := List.mem_map.mp hd
    exact v.isLt
  rwa [List.length_map] at h

theorem length_aluChain (w : Width) (op : AluOp) :
    ∀ (l : WordPairs w) (fl : U32), (aluChain w op l fl).1.length = l.length
  | [], _ => rfl
  | _ :: rest, _ => congrArg (· + 1) (length_aluChain w op rest _)

/-- ADD and then ADC add numbers of any length, and CF is the carry out of the whole. -/
theorem long_add {w : Width} (hw : w ≠ .w8) (p : BitVec w.bits × BitVec w.bits)
    (rest : WordPairs w) (fl : U32) :
    longValue w (longAlu w .add .adc p rest fl).1 +
        (2 ^ w.bits) ^ (rest.length + 1) *
          (test (longAlu w .add .adc p rest fl).2 Flags.cf).toNat =
      longValue w (p.1 :: rest.map Prod.fst) + longValue w (p.2 :: rest.map Prod.snd) := by
  have h := longAlu_exact hw longPair_add p rest fl
  rw [show AluOp.adc.sign = 1 from rfl, one_mul, one_mul] at h
  exact_mod_cast h

/-- SUB and then SBB subtract numbers of any length, and CF is the borrow out of the whole. -/
theorem long_sub {w : Width} (hw : w ≠ .w8) (p : BitVec w.bits × BitVec w.bits)
    (rest : WordPairs w) (fl : U32) :
    longValue w (p.1 :: rest.map Prod.fst) + (2 ^ w.bits) ^ (rest.length + 1) *
        (test (longAlu w .sub .sbb p rest fl).2 Flags.cf).toNat =
      longValue w (longAlu w .sub .sbb p rest fl).1 + longValue w (p.2 :: rest.map Prod.snd) := by
  have h := longAlu_exact hw longPair_sub p rest fl
  rw [show AluOp.sbb.sign = -1 from rfl] at h
  have hmoved : (longValue w (p.1 :: rest.map Prod.fst) : Int) + (2 ^ w.bits) ^ (rest.length + 1) *
      (test (longAlu w .sub .sbb p rest fl).2 Flags.cf).toNat =
        longValue w (longAlu w .sub .sbb p rest fl).1 + longValue w (p.2 :: rest.map Prod.snd) := by
    linarith
  exact_mod_cast hmoved

/-- Long addition and subtraction are exact at every length, CF the carry or borrow out. -/
theorem long_arithmetic {w : Width} (hw : w ≠ .w8) (p : BitVec w.bits × BitVec w.bits)
    (rest : WordPairs w) (fl : U32) :
    (longValue w (longAlu w .add .adc p rest fl).1 +
        (2 ^ w.bits) ^ (rest.length + 1) *
          (test (longAlu w .add .adc p rest fl).2 Flags.cf).toNat =
      longValue w (p.1 :: rest.map Prod.fst) + longValue w (p.2 :: rest.map Prod.snd)) ∧
    (longValue w (p.1 :: rest.map Prod.fst) + (2 ^ w.bits) ^ (rest.length + 1) *
        (test (longAlu w .sub .sbb p rest fl).2 Flags.cf).toNat =
      longValue w (longAlu w .sub .sbb p rest fl).1 +
        longValue w (p.2 :: rest.map Prod.snd)) :=
  ⟨long_add hw p rest fl, long_sub hw p rest fl⟩

/-- 0xFFFFFFFF + 1 in two 16-bit words wraps to zero with CF set. -/
theorem long_arithmetic_wraps :
    longValue .w16 (longAlu .w16 .add .adc ((0xFFFF : U16), (1 : U16))
        [((0xFFFF : U16), (0 : U16))] 0).1 = 0 ∧
      longValue .w16 (longAlu .w16 .add .adc ((0xFFFF : U16), (1 : U16))
          [((0xFFFF : U16), (0 : U16))] 0).1 + (2 ^ 16) ^ 2 *
        (test (longAlu .w16 .add .adc ((0xFFFF : U16), (1 : U16))
          [((0xFFFF : U16), (0 : U16))] 0).2 Flags.cf).toNat =
      longValue .w16 [(0xFFFF : U16), (0xFFFF : U16)] + longValue .w16 [(1 : U16), (0 : U16)] :=
  ⟨by decide, (long_arithmetic (w := .w16) (by decide) _ _ _).1⟩

/-! ## Comparing -/

/-- The number that words make, read as signed. -/
def longSigned (w : Width) (l : List (BitVec w.bits)) : Int :=
  (BitVec.ofNat (w.bits * l.length) (longValue w l)).toInt

theorem longValue_snoc (w : Width) (l : List (BitVec w.bits)) (v : BitVec w.bits) :
    longValue w (l ++ [v]) = longValue w l + (2 ^ w.bits) ^ l.length * v.toNat := by
  simp [longValue, Nat.ofDigits_append]

/-- The sign of a long number is the sign of its highest word. -/
theorem longSigned_snoc (w : Width) (l : List (BitVec w.bits)) (v : BitVec w.bits) :
    longSigned w (l ++ [v]) = longValue w l + (2 ^ w.bits) ^ l.length * v.toInt := by
  have hbits : 0 < w.bits := by cases w <;> decide
  have hlow : (longValue w l : Int) < (2 ^ w.bits) ^ l.length := by
    exact_mod_cast longValue_lt w l
  obtain ⟨hneg, hpos⟩ := signedFits_toInt v
  have hsize : (0 : Int) < (2 ^ w.bits) ^ l.length := by positivity
  have hhalf : ((2 : Int) ^ w.bits) ^ l.length * 2 ^ (w.bits - 1) =
      2 ^ (w.bits * (l.length + 1) - 1) := by
    rw [← pow_mul, ← pow_add]
    congr 1
    rw [Nat.mul_succ]
    omega
  have hfits : SignedFits (w.bits * (l.length + 1))
      (longValue w l + (2 ^ w.bits) ^ l.length * v.toInt) := by
    constructor
    · have := mul_le_mul_of_nonneg_left hneg hsize.le
      rw [mul_neg, hhalf] at this
      omega
    · have := mul_le_mul_of_nonneg_left (Int.add_one_le_of_lt hpos) hsize.le
      rw [hhalf, mul_add, mul_one] at this
      omega
  have hword : BitVec.ofNat (w.bits * (l.length + 1)) (longValue w (l ++ [v])) =
      BitVec.ofInt _ (longValue w l + (2 ^ w.bits) ^ l.length * v.toInt) := by
    have htop : v.toInt = v.toNat ∨ v.toInt = v.toNat - 2 ^ w.bits := by
      rw [BitVec.toInt_eq_toNat_cond]
      split
      · exact .inl rfl
      · exact .inr (by push_cast; rfl)
    rw [← BitVec.ofInt_natCast, longValue_snoc, Nat.cast_add, Nat.cast_mul, Nat.cast_pow,
      Nat.cast_pow, Nat.cast_ofNat]
    rcases htop with h | h
    · rw [h]
    · have hwhole : ((2 : Int) ^ w.bits) ^ l.length * 2 ^ w.bits =
          2 ^ (w.bits * (l.length + 1)) := by
        rw [← pow_succ, ← pow_mul]
      rw [h, mul_sub, hwhole, ← add_sub_assoc]
      exact (ofInt_sub_two_pow _ _).symm
  rw [longSigned, List.length_append, List.length_singleton, hword,
    toInt_ofInt_of_fits (Nat.mul_pos hbits (Nat.succ_pos _)) hfits]

/-- The state reads flags in which the order of two values can be tested. -/
structure OrderAgrees (lt ult : Prop) (s : Cpu) : Prop where
  l : Cond.l.test s = true ↔ lt
  nl : Cond.nl.test s = true ↔ ¬lt
  b : Cond.b.test s = true ↔ ult
  nb : Cond.nb.test s = true ↔ ¬ult

/-- After a subtraction SF and OF together tell the sign of the exact difference. -/
theorem signed_less {w : Width} (hw : w ≠ .w8) {op : AluOp} (h : op.Arithmetic) (hs : op.sign = -1)
    (p : BitVec w.bits × BitVec w.bits) (fl : U32) :
    (test (aluStep w op p fl).2 Flags.sf != test (aluStep w op p fl).2 Flags.of) =
      decide (p.1.toInt - (p.2.toInt + op.carryIn fl) < 0) := by
  obtain ⟨-, -, hstatus, -⟩ := alu_meets_spec_wide hw op p.1 p.2 fl
  have hn : 0 < w.bits := by cases w <;> decide
  have hd := two_pow_eq_double hn
  obtain ⟨ha0, ha1⟩ := signedFits_toInt p.1
  obtain ⟨hb0, hb1⟩ := signedFits_toInt p.2
  have hc : op.carryIn fl ≤ 1 := Bool.toNat_le _
  have hexact : op.signedValue p.1 p.2 (test fl Flags.cf) =
      p.1.toInt - (p.2.toInt + op.carryIn fl) := by
    rw [AluOp.signedValue, AluOp.exact_eq h, hs]
    omega
  have hsf : test (aluStep w op p fl).2 Flags.sf = _ := hstatus.sf
  have hof : test (aluStep w op p fl).2 Flags.of = _ := hstatus.of
  rw [← BitVec.msb_eq_toInt, AluOp.value_signed h, hexact,
    msb_ofInt_of_double hn (by omega) (by omega)] at hsf
  simp only [h, true_and, hexact] at hof
  rw [hsf, hof]
  by_cases hfit : SignedFits w.bits (p.1.toInt - (p.2.toInt + op.carryIn fl)) <;>
    by_cases hlt : p.1.toInt - (p.2.toInt + op.carryIn fl) < 0 <;> simp [hfit, hlt]

theorem aluChain_snoc (w : Width) (op : AluOp) (q : BitVec w.bits × BitVec w.bits) :
    ∀ (l : WordPairs w) (fl : U32),
      (aluChain w op (l ++ [q]) fl).2 = (aluStep w op q (aluChain w op l fl).2).2
  | [], _ => rfl
  | _ :: rest, _ => aluChain_snoc w op q rest _

/-- A long subtraction leaves in SF and OF which of the two signed numbers is less. -/
theorem long_signed_less {w : Width} (hw : w ≠ .w8) {first : AluOp} (h : LongPair first .sbb)
    (p : BitVec w.bits × BitVec w.bits) (rest : WordPairs w) (fl : U32) :
    (test (longAlu w first .sbb p rest fl).2 Flags.sf !=
        test (longAlu w first .sbb p rest fl).2 Flags.of) =
      decide (longSigned w (p.1 :: rest.map Prod.fst) <
        longSigned w (p.2 :: rest.map Prod.snd)) := by
  rcases List.eq_nil_or_concat rest with rfl | ⟨mid, q, rfl⟩
  · have hone (v : BitVec w.bits) : longSigned w [v] = v.toInt := by
      have := longSigned_snoc w [] v
      simpa [longValue, Nat.ofDigits] using this
    have hless := signed_less hw h.arithmetic h.sign p fl
    rw [AluOp.carryIn, h.starts, Bool.false_and, Bool.toNat_false] at hless
    refine hless.trans (decide_eq_decide.mpr ?_)
    rw [List.map_nil, List.map_nil, hone, hone]
    omega
  · -- The lower words leave a difference below their size and a borrow for the highest.
    have hlow := longAlu_exact hw h p mid fl
    have hlt := longValue_lt w (longAlu w first .sbb p mid fl).1
    have hlen : (longAlu w first .sbb p mid fl).1.length = mid.length + 1 :=
      congrArg (· + 1) (length_aluChain w .sbb mid _)
    have hless := @signed_less w hw .sbb trivial rfl q (longAlu w first .sbb p mid fl).2
    have hlast : (longAlu w first .sbb p (mid ++ [q]) fl).2 =
        (aluStep w .sbb q (longAlu w first .sbb p mid fl).2).2 := aluChain_snoc w .sbb q mid _
    have hsplit (f : BitVec w.bits × BitVec w.bits → BitVec w.bits) :
        f p :: (mid ++ [q]).map f = (f p :: mid.map f) ++ [f q] := by simp
    rw [hlen] at hlt
    rw [List.concat_eq_append, hlast, hless, hsplit Prod.fst, hsplit Prod.snd, longSigned_snoc,
      longSigned_snoc, decide_eq_decide, List.length_cons, List.length_cons, List.length_map,
      List.length_map]
    have hcarry : AluOp.sbb.carryIn (longAlu w first .sbb p mid fl).2 =
      (test (longAlu w first .sbb p mid fl).2 Flags.cf).toNat := rfl
    rw [hcarry]
    rw [show AluOp.sbb.sign = -1 from rfl] at hlow
    have hlt' : (longValue w (longAlu w first .sbb p mid fl).1 : Int) <
        (2 ^ w.bits) ^ (mid.length + 1) := by exact_mod_cast hlt
    refine (neg_iff_top_neg hlt').symm.trans ?_
    constructor <;> intro hless <;> linarith

/-- CMP (or SUB) and then SBB compare numbers of any length: JB decides on them as unsigned numbers
and JL as signed ones. -/
theorem long_compare {w : Width} (hw : w ≠ .w8) {first : AluOp}
    (hfirst : first = .cmp ∨ first = .sub) (p : BitVec w.bits × BitVec w.bits)
    (rest : WordPairs w) (fl : U32) {s : Cpu}
    (hs : s.flags = (longAlu w first .sbb p rest fl).2) :
    OrderAgrees (longSigned w (p.1 :: rest.map Prod.fst) < longSigned w (p.2 :: rest.map Prod.snd))
      (longValue w (p.1 :: rest.map Prod.fst) < longValue w (p.2 :: rest.map Prod.snd)) s := by
  have hpair : LongPair first .sbb := by
    rcases hfirst with rfl | rfl
    · exact longPair_cmp
    · exact longPair_sub
  have hsigned := long_signed_less hw hpair p rest fl
  have hexact := longAlu_exact hw hpair p rest fl
  have hlt := longValue_lt w (longAlu w first .sbb p rest fl).1
  have hlen : (longAlu w first .sbb p rest fl).1.length = rest.length + 1 :=
    congrArg (· + 1) (length_aluChain w .sbb rest _)
  rw [hlen] at hlt
  rw [← hs] at hsigned hexact
  have hunsigned : test s.flags Flags.cf = true ↔
      longValue w (p.1 :: rest.map Prod.fst) < longValue w (p.2 :: rest.map Prod.snd) := by
    rw [show AluOp.sbb.sign = -1 from rfl] at hexact
    have hlt' : (longValue w (longAlu w first .sbb p rest fl).1 : Int) <
        (2 ^ w.bits) ^ (rest.length + 1) := by exact_mod_cast hlt
    generalize ((2 : Int) ^ w.bits) ^ (rest.length + 1) = size at hexact hlt'
    cases hcf : test s.flags Flags.cf
    · simp only [hcf, Bool.toNat_false, Nat.cast_zero, mul_zero, add_zero] at hexact
      simp only [Bool.false_eq_true, false_iff]
      omega
    · simp only [hcf, Bool.toNat_true, Nat.cast_one, mul_one] at hexact
      simp only [true_iff]
      omega
  have hl : (s.getFlag Flags.sf != s.getFlag Flags.of) = _ := hsigned
  have heq : (s.getFlag Flags.sf == s.getFlag Flags.of) =
      !(s.getFlag Flags.sf != s.getFlag Flags.of) := by rw [bne, Bool.not_not]
  refine ⟨?_, ?_, hunsigned, ?_⟩
  · rw [Cond.test, hl, decide_eq_true_iff]
  · rw [Cond.test, heq, hl, Bool.not_eq_true', decide_eq_false_iff_not]
  · rw [Cond.test, Bool.not_eq_true', ← Bool.not_eq_true]
    exact not_congr hunsigned

/-- A machine that has compared -1 with 0, in two 16-bit words. -/
def comparedMinusOne : Cpu :=
  { Cpu.withRam 0 Memory.empty_le 0 with
    flags := (longAlu .w16 .cmp .sbb ((0xFFFF : U16), (0 : U16)) [((0xFFFF : U16), (0 : U16))] 0).2 }

/-- -1 is less than 0 as a signed number, and not as an unsigned one. -/
theorem long_compare_minus_one :
    Cond.l.test comparedMinusOne = true ∧ Cond.nb.test comparedMinusOne = true ∧
      longSigned .w16 [(0xFFFF : U16), (0xFFFF : U16)] = -1 := by
  have h := long_compare (w := .w16) (s := comparedMinusOne) (by decide) (.inl rfl) ((0xFFFF : U16), 0)
    [((0xFFFF : U16), (0 : U16))] 0 rfl
  exact ⟨h.l.mpr (by decide), h.nb.mpr (by decide), by decide⟩

end X86Emu
