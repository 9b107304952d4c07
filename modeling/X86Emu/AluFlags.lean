import X86Emu.Lib.SignedWords
import X86Emu.Alu

/-!
# ALU results and flags

The operations of `alu_w` against exact integer arithmetic at the width they run
at. The operands of the byte forms are zero-extended before the 16-bit helpers
look for a sign, so those forms never report a signed overflow, and the byte
SBB takes its difference with the host's checked subtraction.
-/
namespace X86Emu

open SignedWords

variable {n : Nat}

/-! ## The arithmetic the instruction set defines -/

def AluOp.Arithmetic : AluOp → Prop
  | .add | .adc | .sub | .sbb | .cmp => True
  | .and | .or | .xor => False

instance (op : AluOp) : Decidable op.Arithmetic := by
  cases op <;> simp only [AluOp.Arithmetic] <;> infer_instance

/-- The value an arithmetic operation has before it is reduced to a width. -/
def AluOp.exact (op : AluOp) (x y c : Int) : Int :=
  match op with
  | .add => x + y
  | .adc => x + y + c
  | .sub | .cmp => x - y
  | .sbb => x - y - c
  | .and | .or | .xor => 0

/-- The result of an operation on words. -/
def AluOp.value (op : AluOp) (a b : BitVec n) (cin : Bool) : BitVec n :=
  match op with
  | .and => a &&& b
  | .or => a ||| b
  | .xor => a ^^^ b
  | op => BitVec.ofInt n (op.exact a.toNat b.toNat cin.toNat)

def AluOp.signedValue (op : AluOp) (a b : BitVec n) (cin : Bool) : Int :=
  op.exact a.toInt b.toInt cin.toNat

/-- An even number of the low eight bits are set. -/
def EvenParity (v : BitVec n) : Prop :=
  ((List.range 8).countP fun i => v.getLsbD i) % 2 = 0

instance (v : BitVec n) : Decidable (EvenParity v) := inferInstanceAs (Decidable (_ = _))

/-- The status flags an operation leaves. AF is undefined after the logical ones. -/
structure StatusFlags (op : AluOp) (a b : BitVec n) (cin : Bool) (fl : U32) : Prop where
  zf : test fl Flags.zf = decide (op.value a b cin = 0)
  sf : test fl Flags.sf = decide ((op.value a b cin).toInt < 0)
  pf : test fl Flags.pf = decide (EvenParity (op.value a b cin))
  cf : test fl Flags.cf =
    decide (op.Arithmetic ∧ ¬UnsignedFits n (op.exact a.toNat b.toNat cin.toNat))
  of : test fl Flags.of = decide (op.Arithmetic ∧ ¬SignedFits n (op.signedValue a b cin))
  af : op.Arithmetic → test fl Flags.af =
    decide (¬UnsignedFits 4 (op.exact ↑(a.toNat % 16) ↑(b.toNat % 16) cin.toNat))

/-- The conditions CMP sets up, against the comparisons they are named for. -/
structure ComparisonsAgree (x y : BitVec n) (s : Cpu) : Prop where
  l : Cond.l.test s = decide (x.toInt < y.toInt)
  nl : Cond.nl.test s = decide (y.toInt ≤ x.toInt)
  le : Cond.le.test s = decide (x.toInt ≤ y.toInt)
  nle : Cond.nle.test s = decide (y.toInt < x.toInt)
  b : Cond.b.test s = decide (x.toNat < y.toNat)
  nb : Cond.nb.test s = decide (y.toNat ≤ x.toNat)
  be : Cond.be.test s = decide (x.toNat ≤ y.toNat)
  nbe : Cond.nbe.test s = decide (y.toNat < x.toNat)

/-! ## Host arithmetic -/

/-- Every sum and difference `alu8` takes without a wrapping operator stays within its `u16`. -/
def alu8Fits (op : AluOp) (a b : U8) (cin : Bool) : Bool :=
  match op with
  | .adc => decide (a.toNat + b.toNat + cin.toNat < 2 ^ 16)
  | .sbb => decide (b.toNat + cin.toNat ≤ a.toNat) && decide (b.toNat + cin.toNat < 2 ^ 16)
  | _ => true

/-- `alu16` and `alu32` widen to a word of `m` bits and subtract with wrapping. -/
def aluWideFits (m : Nat) (op : AluOp) (a b : BitVec n) (cin : Bool) : Bool :=
  match op with
  | .adc => decide (a.toNat + b.toNat + cin.toNat < 2 ^ m)
  | .sbb => decide (b.toNat + cin.toNat < 2 ^ m)
  | _ => true

/-- `alu64` uses the wrapping operators throughout. -/
def aluFits (op : AluOp) (a b : U64) (w : Width) (cin : Bool) : Bool :=
  match w with
  | .w8 => alu8Fits op (u8 a) (u8 b) cin
  | .w16 => aluWideFits 32 op (u16 a) (u16 b) cin
  | .w32 => aluWideFits 64 op (u32 a) (u32 b) cin
  | .w64 => true

/-- What `alu_w` owes its callers on operands of its width: a result computed without a host
overflow, the status flags of that result, and conditions that compare after a CMP. -/
structure AluMeetsSpec (w : Width) (op : AluOp) (a b : BitVec w.bits) (fl : U32) : Prop where
  host : aluFits op (u64 a) (u64 b) w (test fl Flags.cf) = true
  result : (aluW op (u64 a) (u64 b) w fl).1 = u64 (op.value a b (test fl Flags.cf))
  status : StatusFlags op a b (test fl Flags.cf) (aluW op (u64 a) (u64 b) w fl).2
  compare : op = .cmp → ∀ s : Cpu, s.flags = (aluW op (u64 a) (u64 b) w fl).2 →
    ComparisonsAgree a b s

/-! ## Reading a flag back -/

theorem test_setFlag_self {f : U32} (hf : f ≠ 0) (on : Bool) (fl : U32) :
    test (setFlag f on fl) f = on := by
  cases on with
  | false => exact test_andNot fl f
  | true =>
    have h : (fl ||| f) &&& f = f := by
      ext i hi
      simp
      exact fun hf' => .inr hf'
    simpa [setFlag, test, h] using hf

theorem test_setFlag_other {f g : U32} (h : f &&& g = 0) (on : Bool) (fl : U32) :
    test (setFlag f on fl) g = test fl g := by
  have hbit (i : Nat) (hi : i < 32) : (f[i] && g[i]) = false := by
    have := congrArg (fun v : U32 => v.getLsbD i) h
    simpa [hi] using this
  have hand : setFlag f on fl &&& g = fl &&& g := by
    ext i hi
    have hi' := hbit i hi
    cases on
    · simp [setFlag]
      grind
    · simp [setFlag]
      grind
  simp [test, hand]

theorem test_setLogicFlags (r : BitVec n) (fl : U32) :
    test (setLogicFlags r fl) Flags.zf = decide (r = 0) ∧
      test (setLogicFlags r fl) Flags.sf = r.msb ∧
      test (setLogicFlags r fl) Flags.pf = parity (u8 r) := by
  refine ⟨?_, ?_, test_setFlag_self (by decide) _ _⟩
  · rw [setLogicFlags, test_setFlag_other (by decide), test_setFlag_self (by decide)]
    exact beq_eq_decide r 0
  · rw [setLogicFlags, test_setFlag_other (by decide), test_setFlag_other (by decide),
      test_setFlag_self (by decide)]

theorem parity_eq (v : U8) : parity v = decide (EvenParity v) := by
  revert v
  decide

theorem parity_low (r : BitVec n) : parity (u8 r) = decide (EvenParity r) := by
  rw [parity_eq]
  have hbits : (List.range 8).countP (fun i => (u8 r).getLsbD i) =
      (List.range 8).countP fun i => r.getLsbD i := by
    apply List.countP_congr
    intro i hi
    have hi' : i < 8 := List.mem_range.mp hi
    simp [hi']
  rw [decide_eq_decide, EvenParity, EvenParity, hbits]

/-! ## The result -/

theorem bit_eq_ofInt (c : Bool) : (bit c : BitVec n) = BitVec.ofInt n c.toNat := by
  cases c <;> rfl

theorem AluOp.value_arithmetic {op : AluOp} (h : op.Arithmetic) (a b : BitVec n) (cin : Bool) :
    op.value a b cin = BitVec.ofInt n (op.exact a.toNat b.toNat cin.toNat) := by
  cases op <;> first | rfl | exact h.elim

/-- A result modulo the width is the same of the operands read as signed. -/
theorem AluOp.value_signed {op : AluOp} (h : op.Arithmetic) (a b : BitVec n) (cin : Bool) :
    op.value a b cin = BitVec.ofInt n (op.signedValue a b cin) := by
  rw [op.value_arithmetic h]
  cases op <;>
    simp only [AluOp.signedValue, AluOp.exact, BitVec.ofInt_add, ofInt_sub, ofInt_toNat,
      BitVec.ofInt_toInt]

/-- The flags an arithmetic operation commits, given its overflow bit. -/
def carryFlags (ov : Bool) (a b r : BitVec n) (c : Bool) (fl : U32) : U32 :=
  setFlag Flags.of ov (setFlag Flags.af (test (a ^^^ b ^^^ r) 0x10) (setFlag Flags.cf c fl))

theorem addCarryFlags_eq (a b r : BitVec n) :
    addCarryFlags a b r = carryFlags ((a ^^^ r) &&& (b ^^^ r)).msb a b r := rfl

theorem subBorrowFlags_eq (a b r : BitVec n) :
    subBorrowFlags a b r = carryFlags ((a ^^^ b) &&& (a ^^^ r)).msb a b r := rfl

/-! ## The carry out of the word -/

theorem carry_add (a b : BitVec n) :
    decide (a + b < a) = decide (¬UnsignedFits n ((a.toNat : Int) + b.toNat)) := by
  have ha := a.isLt
  have hb := b.isLt
  have hpow : ((2 ^ n : Nat) : Int) = 2 ^ n := by push_cast; rfl
  rw [decide_eq_decide, BitVec.lt_def, BitVec.toNat_add, UnsignedFits]
  by_cases hcarry : 2 ^ n ≤ a.toNat + b.toNat
  · rw [Nat.mod_eq_sub_mod hcarry, Nat.mod_eq_of_lt (by omega)]
    omega
  · rw [Nat.mod_eq_of_lt (by omega)]
    omega

theorem carry_adc (a b : BitVec n) (c : Bool) :
    decide (a.toNat + b.toNat + c.toNat ≥ 2 ^ n) =
      decide (¬UnsignedFits n ((a.toNat : Int) + b.toNat + c.toNat)) := by
  have hpow : ((2 ^ n : Nat) : Int) = 2 ^ n := by push_cast; rfl
  rw [decide_eq_decide, UnsignedFits]
  omega

theorem borrow_sub (a b : BitVec n) :
    decide (a < b) = decide (¬UnsignedFits n ((a.toNat : Int) - b.toNat)) := by
  have ha := a.isLt
  have hpow : ((2 ^ n : Nat) : Int) = 2 ^ n := by push_cast; rfl
  rw [decide_eq_decide, BitVec.lt_def, UnsignedFits]
  omega

theorem borrow_sbb (a b : BitVec n) (c : Bool) :
    decide (a.toNat < b.toNat + c.toNat) =
      decide (¬UnsignedFits n ((a.toNat : Int) - b.toNat - c.toNat)) := by
  have ha := a.isLt
  have hpow : ((2 ^ n : Nat) : Int) = 2 ^ n := by push_cast; rfl
  rw [decide_eq_decide, UnsignedFits]
  omega

/-- The word an arithmetic operation computes is the exact value reduced to the width. -/
theorem aluWith_value (add sub : BitVec n → BitVec n → BitVec n → Bool → U32 → U32)
    (op : AluOp) (a b : BitVec n) (fl : U32) :
    (aluWith add sub op a b fl).1 = op.value a b (test fl Flags.cf) := by
  cases op <;>
    simp only [aluWith, AluOp.value, AluOp.exact, BitVec.ofInt_add, ofInt_sub, ofInt_toNat,
      bit_eq_ofInt]

/-- How an operation looks for a signed overflow, given how sums and differences do. -/
def AluOp.overflowBit (op : AluOp) (sum diff : BitVec n → BitVec n → BitVec n → Bool)
    (a b r : BitVec n) : Bool :=
  match op with
  | .add | .adc => sum a b r
  | _ => diff a b r

/-- The flags of an arithmetic operation, at any width and any overflow test. -/
theorem aluWith_flags (sum diff : BitVec n → BitVec n → BitVec n → Bool) {op : AluOp}
    (h : op.Arithmetic) (a b : BitVec n) (fl : U32) :
    let r := op.value a b (test fl Flags.cf)
    (aluWith (fun a b r => carryFlags (sum a b r) a b r)
        (fun a b r => carryFlags (diff a b r) a b r) op a b fl).2 =
      carryFlags (op.overflowBit sum diff a b r) a b r
        (decide (¬UnsignedFits n (op.exact a.toNat b.toNat (test fl Flags.cf).toNat)))
        (setLogicFlags r fl) := by
  intro r
  have hr := aluWith_value (fun a b r => carryFlags (sum a b r) a b r)
    (fun a b r => carryFlags (diff a b r) a b r) op a b fl
  cases op with
  | add =>
    change carryFlags (sum a b (a + b)) a b (a + b) (decide (a + b < a)) (setLogicFlags _ fl) = _
    rw [carry_add, show a + b = r from hr]
    rfl
  | adc =>
    change carryFlags (sum a b (a + b + bit _)) a b (a + b + bit _)
      (decide (a.toNat + b.toNat + (test fl Flags.cf).toNat ≥ 2 ^ n)) (setLogicFlags _ fl) = _
    rw [carry_adc, show a + b + bit (test fl Flags.cf) = r from hr]
    rfl
  | sub | cmp =>
    change carryFlags (diff a b (a - b)) a b (a - b) (decide (a < b)) (setLogicFlags (a - b) fl) = _
    rw [borrow_sub, show a - b = r from hr]
    rfl
  | sbb =>
    change carryFlags (diff a b (a - b - bit _)) a b (a - b - bit _)
      (decide (a.toNat < b.toNat + (test fl Flags.cf).toNat)) (setLogicFlags _ fl) = _
    rw [borrow_sbb, show a - b - bit (test fl Flags.cf) = r from hr]
    rfl
  | and | or | xor => exact h.elim

/-- Bit 4 of the operands and the result adds up to the carry or borrow out of bit 3. -/
theorem nibble_carry (hn : 4 < n) {op : AluOp} (h : op.Arithmetic) (a b : BitVec n) (c : Bool) :
    test (a ^^^ b ^^^ op.value a b c) 0x10 =
      decide (¬UnsignedFits 4 (op.exact ↑(a.toNat % 16) ↑(b.toNat % 16) c.toNat)) := by
  have hmask : (0x10 : BitVec n) = (1 : BitVec n) <<< 4 := by
    rw [one_shiftLeft]
    apply BitVec.eq_of_toNat_eq
    simp [BitVec.toNat_twoPow]
  have hsum := getLsbD_sum_carry hn a b
  have hdiff := getLsbD_diff_borrow hn a b
  rw [hmask, test_bit _ hn]
  cases op with
  | add =>
    have hv : AluOp.add.value a b c = a + b + (BitVec.ofBool false).setWidth n := by
      simp [AluOp.value, AluOp.exact, BitVec.ofInt_add]
    rw [hv, hsum, decide_eq_decide, UnsignedFits]
    simp only [AluOp.exact, Bool.toNat_false]
    omega
  | adc =>
    have hv : AluOp.adc.value a b c = a + b + (BitVec.ofBool c).setWidth n := by
      rw [AluOp.value, AluOp.exact, BitVec.ofInt_add, BitVec.ofInt_add, ofInt_toNat, ofInt_toNat,
        ofInt_carry]
      all_goals exact AluOp.noConfusion
    rw [hv, hsum, decide_eq_decide, UnsignedFits]
    simp only [AluOp.exact]
    omega
  | sub | cmp =>
    rw [show AluOp.value _ a b c = a - b - (BitVec.ofBool false).setWidth n by
      simp [AluOp.value, AluOp.exact, ofInt_sub], hdiff, decide_eq_decide, UnsignedFits]
    simp only [AluOp.exact, Bool.toNat_false]
    omega
  | sbb =>
    have hv : AluOp.sbb.value a b c = a - b - (BitVec.ofBool c).setWidth n := by
      rw [AluOp.value, AluOp.exact, ofInt_sub, ofInt_sub, ofInt_toNat, ofInt_toNat, ofInt_carry]
      all_goals exact AluOp.noConfusion
    rw [hv, hdiff, decide_eq_decide, UnsignedFits]
    simp only [AluOp.exact]
    omega
  | and | or | xor => exact h.elim

/-! ## The status flags -/

/-- The flags of an arithmetic operation are the ones of the instruction set exactly when its
overflow bit reports a signed overflow. -/
theorem statusFlags_arithmetic (hn : 4 < n) {op : AluOp} (h : op.Arithmetic) (a b : BitVec n)
    (cin ov : Bool) (fl : U32) :
    StatusFlags op a b cin (carryFlags ov a b (op.value a b cin)
        (decide (¬UnsignedFits n (op.exact a.toNat b.toNat cin.toNat)))
        (setLogicFlags (op.value a b cin) fl)) ↔
      ov = decide (¬SignedFits n (op.signedValue a b cin)) := by
  have hof : test (carryFlags ov a b (op.value a b cin)
      (decide (¬UnsignedFits n (op.exact a.toNat b.toNat cin.toNat)))
      (setLogicFlags (op.value a b cin) fl)) Flags.of = ov :=
    test_setFlag_self (by decide) _ _
  obtain ⟨hzf, hsf, hpf⟩ := test_setLogicFlags (op.value a b cin) fl
  constructor
  · intro hs
    rw [← hof, hs.of]
    simp [h]
  · rintro rfl
    refine ⟨?_, ?_, ?_, ?_, ?_, fun _ => ?_⟩
    · simp only [carryFlags, test_setFlag_other (show Flags.of &&& Flags.zf = 0 by decide),
        test_setFlag_other (show Flags.af &&& Flags.zf = 0 by decide),
        test_setFlag_other (show Flags.cf &&& Flags.zf = 0 by decide), hzf]
    · simp only [carryFlags, test_setFlag_other (show Flags.of &&& Flags.sf = 0 by decide),
        test_setFlag_other (show Flags.af &&& Flags.sf = 0 by decide),
        test_setFlag_other (show Flags.cf &&& Flags.sf = 0 by decide), hsf, BitVec.msb_eq_toInt]
    · simp only [carryFlags, test_setFlag_other (show Flags.of &&& Flags.pf = 0 by decide),
        test_setFlag_other (show Flags.af &&& Flags.pf = 0 by decide),
        test_setFlag_other (show Flags.cf &&& Flags.pf = 0 by decide), hpf, parity_low]
    · simp only [carryFlags, test_setFlag_other (show Flags.of &&& Flags.cf = 0 by decide),
        test_setFlag_other (show Flags.af &&& Flags.cf = 0 by decide),
        test_setFlag_self (show Flags.cf ≠ 0 by decide), h, true_and]
    · rw [hof]
      simp [h]
    · simp only [carryFlags, test_setFlag_other (show Flags.of &&& Flags.af = 0 by decide),
        test_setFlag_self (show Flags.af ≠ 0 by decide), nibble_carry hn h]

/-- The logical operations leave CF and OF clear and the other flags from the result. -/
theorem statusFlags_logical {op : AluOp} (h : ¬op.Arithmetic) (a b : BitVec n) (cin : Bool)
    (fl : U32) :
    StatusFlags op a b cin (clearCarryOverflow (setLogicFlags (op.value a b cin) fl)) := by
  obtain ⟨hzf, hsf, hpf⟩ := test_setLogicFlags (op.value a b cin) fl
  refine ⟨?_, ?_, ?_, ?_, ?_, fun ha => (h ha).elim⟩
  · simp only [clearCarryOverflow, test_setFlag_other (show Flags.of &&& Flags.zf = 0 by decide),
      test_setFlag_other (show Flags.cf &&& Flags.zf = 0 by decide), hzf]
  · simp only [clearCarryOverflow, test_setFlag_other (show Flags.of &&& Flags.sf = 0 by decide),
      test_setFlag_other (show Flags.cf &&& Flags.sf = 0 by decide), hsf, BitVec.msb_eq_toInt]
  · simp only [clearCarryOverflow, test_setFlag_other (show Flags.of &&& Flags.pf = 0 by decide),
      test_setFlag_other (show Flags.cf &&& Flags.pf = 0 by decide), hpf, parity_low]
  · simp [clearCarryOverflow, test_setFlag_other (show Flags.of &&& Flags.cf = 0 by decide),
      test_setFlag_self (show Flags.cf ≠ 0 by decide), h]
  · simp [clearCarryOverflow, test_setFlag_self (show Flags.of ≠ 0 by decide), h]

/-- After a CMP with the flags of the instruction set, the conditions compare. -/
theorem comparisonsAgree_of_status (hn : 0 < n) {a b : BitVec n} {cin : Bool} {s : Cpu}
    (h : StatusFlags .cmp a b cin s.flags) : ComparisonsAgree a b s := by
  have hd := two_pow_eq_double hn
  obtain ⟨ha0, ha1⟩ := signedFits_toInt a
  obtain ⟨hb0, hb1⟩ := signedFits_toInt b
  have hcmp : AluOp.cmp.Arithmetic := trivial
  have hzf : s.getFlag Flags.zf = decide (a = b) := by
    refine h.zf.trans (decide_eq_decide.mpr ?_)
    rw [show AluOp.cmp.value a b cin = a - b by simp [AluOp.value, AluOp.exact, ofInt_sub]]
    exact sub_eq_zero
  have hcf : s.getFlag Flags.cf = decide (a.toNat < b.toNat) := by
    refine h.cf.trans (decide_eq_decide.mpr ?_)
    have hlt := b.isLt
    have hpow : ((2 ^ n : Nat) : Int) = 2 ^ n := by push_cast; rfl
    simp only [hcmp, true_and, UnsignedFits, AluOp.exact]
    omega
  -- the sign of the wrapped difference and the overflow flag disagree on the exact sign
  have hsign : (s.getFlag Flags.sf != s.getFlag Flags.of) = decide (a.toInt < b.toInt) := by
    have hsf : s.getFlag Flags.sf = (decide (a.toInt - b.toInt < 0) ^^
        !decide (SignedFits n (a.toInt - b.toInt))) := by
      refine h.sf.trans ?_
      rw [← BitVec.msb_eq_toInt, AluOp.value_signed hcmp]
      exact msb_ofInt_of_double hn (by simp only [AluOp.signedValue, AluOp.exact]; omega)
        (by simp only [AluOp.signedValue, AluOp.exact]; omega)
    have hof : s.getFlag Flags.of = !decide (SignedFits n (a.toInt - b.toInt)) := by
      refine h.of.trans ?_
      simp [hcmp, AluOp.signedValue, AluOp.exact]
    rw [hsf, hof]
    by_cases hfit : SignedFits n (a.toInt - b.toInt) <;>
      by_cases hlt : a.toInt < b.toInt <;> simp [hfit, hlt]
  have hnat : a = b ↔ a.toNat = b.toNat := BitVec.toNat_inj.symm
  have hint : a = b ↔ a.toInt = b.toInt := BitVec.toInt_inj.symm
  have hsame : (s.getFlag Flags.sf == s.getFlag Flags.of) = !decide (a.toInt < b.toInt) := by
    rw [← hsign, bne, Bool.not_not]
  refine ⟨hsign, ?_, ?_, ?_, hcf, ?_, ?_, ?_⟩
  · rw [Cond.test, hsame, ← decide_not, decide_eq_decide]
    omega
  · rw [Cond.test, hzf, hsign, ← Bool.decide_or, decide_eq_decide, hint]
    omega
  · rw [Cond.test, hzf, hsame, ← decide_not, ← decide_not, ← Bool.decide_and,
      decide_eq_decide, hint]
    omega
  · rw [Cond.test, hcf, ← decide_not, decide_eq_decide]
    omega
  · rw [Cond.test, hcf, hzf, ← Bool.decide_or, decide_eq_decide, hnat]
    omega
  · rw [Cond.test, hcf, hzf, ← decide_not, ← decide_not, ← Bool.decide_and,
      decide_eq_decide, hnat]
    omega

/-! ## The four widths -/

/-- The signs of the operands and of the result tell a signed overflow. -/
theorem overflowBit_eq (hn : 0 < n) {op : AluOp} (h : op.Arithmetic) (a b : BitVec n) (cin : Bool) :
    op.overflowBit (fun a b r => ((a ^^^ r) &&& (b ^^^ r)).msb)
        (fun a b r => ((a ^^^ b) &&& (a ^^^ r)).msb) a b (op.value a b cin) =
      decide (¬SignedFits n (op.signedValue a b cin)) := by
  have hc : (cin.toNat : Int) ≤ 1 := by exact_mod_cast Bool.toNat_le cin
  rw [op.value_signed h, decide_not]
  cases op with
  | add =>
    have h0 := msb_add_overflow hn a b le_rfl zero_le_one
    rw [Int.add_zero] at h0
    exact h0
  | adc => exact msb_add_overflow hn a b (by omega) hc
  | sub | cmp =>
    have h0 := msb_sub_overflow hn a b le_rfl zero_le_one
    rw [Int.sub_zero] at h0
    exact h0
  | sbb => exact msb_sub_overflow hn a b (by omega) hc
  | and | or | xor => exact h.elim

/-- The flags of a logical operation, at any width and any overflow test. -/
theorem aluWith_logical (add sub : BitVec n → BitVec n → BitVec n → Bool → U32 → U32)
    {op : AluOp} (h : ¬op.Arithmetic) (a b : BitVec n) (fl : U32) :
    StatusFlags op a b (test fl Flags.cf) (aluWith add sub op a b fl).2 := by
  have hfl : (aluWith add sub op a b fl).2 =
      clearCarryOverflow (setLogicFlags (op.value a b (test fl Flags.cf)) fl) := by
    cases op <;> first | rfl | exact absurd trivial h
  rw [hfl]
  exact statusFlags_logical h a b _ fl

/-- With the sign tests of its own width an operation leaves the flags it should. -/
theorem statusFlags_aluWith (hn : 4 < n) (op : AluOp) (a b : BitVec n) (fl : U32) :
    StatusFlags op a b (test fl Flags.cf) (aluWith addCarryFlags subBorrowFlags op a b fl).2 := by
  by_cases h : op.Arithmetic
  · rw [show aluWith addCarryFlags subBorrowFlags op a b fl = aluWith
      (fun a b r => carryFlags ((a ^^^ r) &&& (b ^^^ r)).msb a b r)
      (fun a b r => carryFlags ((a ^^^ b) &&& (a ^^^ r)).msb a b r) op a b fl from rfl,
      aluWith_flags _ _ h]
    exact (statusFlags_arithmetic hn h a b _ _ _).mpr (overflowBit_eq (by omega) h a b _)
  · exact aluWith_logical _ _ h a b fl

/-- The byte forms hand zero-extended operands to the 16-bit helpers, whose sign is clear. -/
theorem alu8_eq (op : AluOp) (a b : U8) :
    alu8 op a b = aluWith (fun a b r => carryFlags false a b r)
      (fun a b r => carryFlags false a b r) op a b := by
  have hmsb (v w x y : U8) : ((u16 v ^^^ u16 w) &&& (u16 x ^^^ u16 y)).msb = false := by
    rw [BitVec.msb_eq_getLsbD_last]
    simp
  have haf (a b r : U8) : test (u16 a ^^^ u16 b ^^^ u16 r) 0x10 = test (a ^^^ b ^^^ r) 0x10 := by
    rw [show (0x10 : U16) = (1 : U16) <<< 4 from rfl, show (0x10 : U8) = (1 : U8) <<< 4 from rfl,
      test_bit _ (by decide), test_bit _ (by decide)]
    simp
  have hadd : (fun a b r : U8 => setAddCarry (u16 a) (u16 b) (u16 r)) =
      fun a b r => carryFlags false a b r := by
    funext a b r c fl
    rw [setAddCarry, addCarryFlags_eq, hmsb, carryFlags, carryFlags, haf]
  have hsub : (fun a b r : U8 => setSubBorrow (u16 a) (u16 b) (u16 r)) =
      fun a b r => carryFlags false a b r := by
    funext a b r c fl
    rw [setSubBorrow, subBorrowFlags_eq, hmsb, carryFlags, carryFlags, haf]
  funext fl
  rw [alu8, hadd, hsub]

theorem bit_toNat (hn : 0 < n) (c : Bool) : (bit c : BitVec n).toNat = c.toNat := by
  rw [bit_eq_ofInt, BitVec.ofInt_natCast, BitVec.toNat_ofNat]
  exact Nat.mod_eq_of_lt ((Bool.toNat_lt c).trans_le (Nat.pow_le_pow_right two_pos hn))

/-- A 64-bit sum with a carry wraps exactly when it comes out below its first operand, or equal to
it with the carry set. -/
theorem carry_adc_wide (a b : U64) (c : Bool) :
    (decide (a + b + bit c < a) || (c && a + b + bit c == a)) =
      decide (a.toNat + b.toNat + c.toNat ≥ 2 ^ 64) := by
  have ha := a.isLt
  have hb := b.isLt
  have hsum : (a + b + bit c).toNat = (a.toNat + b.toNat + c.toNat) % 2 ^ 64 := by
    rw [BitVec.toNat_add, BitVec.toNat_add, bit_toNat (by decide), Nat.mod_add_mod]
  have heq : decide (a + b + bit c = a) =
      decide ((a.toNat + b.toNat + c.toNat) % 2 ^ 64 = a.toNat) := by
    rw [decide_eq_decide, ← BitVec.toNat_inj, hsum]
  have hlt : decide (a + b + bit c < a) =
      decide ((a.toNat + b.toNat + c.toNat) % 2 ^ 64 < a.toNat) := by
    rw [decide_eq_decide, BitVec.lt_def, hsum]
  rw [beq_eq_decide, heq, hlt]
  cases c
  · simp only [Bool.false_and, Bool.or_false, decide_eq_decide, Bool.toNat_false]
    omega
  · simp only [Bool.true_and, ← Bool.decide_or, decide_eq_decide, Bool.toNat_true]
    omega

theorem borrow_sbb_wide (a b : U64) (c : Bool) :
    (decide (a < b) || (a == b && c)) = decide (a.toNat < b.toNat + c.toNat) := by
  have heq : decide (a = b) = decide (a.toNat = b.toNat) :=
    decide_eq_decide.mpr BitVec.toNat_inj.symm
  have hlt : decide (a < b) = decide (a.toNat < b.toNat) := decide_eq_decide.mpr BitVec.lt_def
  rw [beq_eq_decide, heq, hlt]
  cases c
  · simp
  · simp only [Bool.and_true, ← Bool.decide_or, decide_eq_decide, Bool.toNat_true]
    omega

/-! ## The condition under which a width meets its specification -/

/-- Reading the carry of ADC and SBB off the 64-bit result finds the same carry. -/
theorem alu64_eq (op : AluOp) (a b : U64) (fl : U32) :
    alu64 op a b fl = aluWith addCarryFlags subBorrowFlags op a b fl := by
  cases op with
  | adc =>
    change (_, setAddCarry64 a b _ (decide (_ < a) || (test fl Flags.cf && _ == a)) _) = _
    rw [carry_adc_wide]
    rfl
  | sbb =>
    change (_, setSubBorrow64 a b _ (decide (a < b) || (a == b && test fl Flags.cf)) _) = _
    rw [borrow_sbb_wide]
    rfl
  | add | or | and | sub | xor | cmp => rfl

/-- The byte operations that go wrong: an arithmetic one whose signed result does not fit a byte,
and an SBB whose borrow reaches past the operand. -/
def ByteFormFails (w : Width) (op : AluOp) (a b : BitVec w.bits) (cin : Bool) : Prop :=
  w = .w8 ∧ (op.Arithmetic ∧ ¬SignedFits w.bits (op.signedValue a b cin) ∨
    op = .sbb ∧ a.toNat < b.toNat + cin.toNat)

theorem aluFits_wide {w : Width} (hw : w ≠ .w8) (op : AluOp) (a b : BitVec w.bits) (cin : Bool) :
    aluFits op (u64 a) (u64 b) w cin = true := by
  have hc := Bool.toNat_le cin
  cases w with
  | w8 => exact absurd rfl hw
  | w16 =>
    have ha := (u16 (u64 a)).isLt
    have hb := (u16 (u64 b)).isLt
    cases op <;> simp only [aluFits, aluWideFits, decide_eq_true_eq] <;> omega
  | w32 =>
    have ha := (u32 (u64 a)).isLt
    have hb := (u32 (u64 b)).isLt
    cases op <;> simp only [aluFits, aluWideFits, decide_eq_true_eq] <;> omega
  | w64 => rfl

/-- The operation `alu_w` picks for a width, on words of that width. -/
theorem aluW_eq {w : Width} (hw : w ≠ .w8) (op : AluOp) (a b : BitVec w.bits) (fl : U32) :
    aluW op (u64 a) (u64 b) w fl =
      (u64 (aluWith addCarryFlags subBorrowFlags op a b fl).1,
        (aluWith addCarryFlags subBorrowFlags op a b fl).2) := by
  cases w with
  | w8 => exact absurd rfl hw
  | w16 =>
    have h (a b : U16) : aluW op (u64 a) (u64 b) .w16 fl =
        (u64 (alu16 op a b fl).1, (alu16 op a b fl).2) := by
      rw [aluW, u16_u64, u16_u64]
    exact h a b
  | w32 =>
    have h (a b : U32) : aluW op (u64 a) (u64 b) .w32 fl =
        (u64 (alu32 op a b fl).1, (alu32 op a b fl).2) := by
      rw [aluW, u32_u64, u32_u64]
    exact h a b
  | w64 =>
    have h (a b : U64) : aluW op (u64 a) (u64 b) .w64 fl =
        (u64 (aluWith addCarryFlags subBorrowFlags op a b fl).1,
          (aluWith addCarryFlags subBorrowFlags op a b fl).2) := by
      rw [aluW, alu64_eq, show u64 a = a from BitVec.setWidth_eq a,
        show u64 b = b from BitVec.setWidth_eq b, u64, BitVec.setWidth_eq]
    exact h a b

theorem aluW_byte (op : AluOp) (a b : U8) (fl : U32) :
    aluW op (u64 a) (u64 b) .w8 fl =
      (u64 (op.value a b (test fl Flags.cf)), (aluWith (fun a b r => carryFlags false a b r)
        (fun a b r => carryFlags false a b r) op a b fl).2) := by
  rw [aluW, u8_u64, u8_u64, alu8_eq, aluWith_value]

theorem alu_meets_spec_wide {w : Width} (hw : w ≠ .w8) (op : AluOp) (a b : BitVec w.bits)
    (fl : U32) : AluMeetsSpec w op a b fl := by
  have hbits : 4 < w.bits := by cases w <;> decide
  have hstatus : StatusFlags op a b (test fl Flags.cf)
      (aluW op (u64 a) (u64 b) w fl).2 := by
    rw [aluW_eq hw]
    exact statusFlags_aluWith hbits op a b fl
  refine ⟨aluFits_wide hw op a b _, ?_, hstatus, ?_⟩
  · rw [aluW_eq hw, aluWith_value]
  · rintro rfl
    exact fun s hs => comparisonsAgree_of_status (by omega) (hs ▸ hstatus)

/-- A byte operation leaves the right flags exactly when its signed result fits a byte. -/
theorem status_byte_iff (op : AluOp) (a b : U8) (fl : U32) :
    StatusFlags op a b (test fl Flags.cf) (aluW op (u64 a) (u64 b) .w8 fl).2 ↔
      (op.Arithmetic → SignedFits 8 (op.signedValue a b (test fl Flags.cf))) := by
  rw [aluW_byte]
  by_cases h : op.Arithmetic
  · rw [aluWith_flags _ _ h, show op.overflowBit (fun _ _ _ => false) (fun _ _ _ => false) a b
      (op.value a b (test fl Flags.cf)) = false by cases op <;> rfl]
    refine (statusFlags_arithmetic (by decide) h a b _ _ _).trans ?_
    simp [h]
  · simp only [h, false_implies, iff_true]
    exact aluWith_logical _ _ h a b fl

/-- The byte SBB is the one operation whose host subtraction can overflow. -/
theorem alu8Fits_iff (op : AluOp) (a b : U8) (cin : Bool) :
    alu8Fits op a b cin = true ↔ ¬(op = .sbb ∧ a.toNat < b.toNat + cin.toNat) := by
  have ha := a.isLt
  have hb := b.isLt
  have hc := Bool.toNat_le cin
  cases op with
  | adc =>
    simp only [alu8Fits, decide_eq_true_eq]
    exact ⟨fun _ h => (nomatch h.1), fun _ => by omega⟩
  | sbb =>
    simp only [alu8Fits, Bool.and_eq_true, decide_eq_true_eq, true_and]
    omega
  | add | or | and | sub | xor | cmp => simp [alu8Fits]

/-- Every operation meets its specification at every width on every operand, unless it is one of
the byte operations that look for a sign in the wrong place or borrow without wrapping. -/
theorem alu_meets_spec_iff (w : Width) (op : AluOp) (a b : BitVec w.bits) (fl : U32) :
    AluMeetsSpec w op a b fl ↔ ¬ByteFormFails w op a b (test fl Flags.cf) := by
  by_cases hw : w = .w8
  · subst hw
    have hhost : aluFits op (u64 a) (u64 b) .w8 (test fl Flags.cf) = true ↔
        ¬(op = .sbb ∧ a.toNat < b.toNat + (test fl Flags.cf).toNat) := by
      have h (a b : U8) (c : Bool) : aluFits op (u64 a) (u64 b) .w8 c = alu8Fits op a b c := by
        rw [aluFits, u8_u64, u8_u64]
      exact (h a b _ ▸ alu8Fits_iff op a b _)
    have hstatus : StatusFlags op a b (test fl Flags.cf) (aluW op (u64 a) (u64 b) .w8 fl).2 ↔
        _ := status_byte_iff op a b fl
    constructor
    · rintro h ⟨-, hover | hborrow⟩
      · exact hover.2 (hstatus.mp h.status hover.1)
      · exact hhost.mp h.host hborrow
    · intro h
      have hs := hstatus.mpr fun harith => by
        by_contra hfit
        exact h ⟨rfl, .inl ⟨harith, hfit⟩⟩
      refine ⟨hhost.mpr fun hb => h ⟨rfl, .inr hb⟩, ?_, hs, ?_⟩
      · exact congrArg Prod.fst (aluW_byte op a b fl)
      · rintro rfl
        exact fun s hfl => comparisonsAgree_of_status (by decide) (hfl ▸ hs)
  · exact iff_of_true (alu_meets_spec_wide hw op a b fl) fun h => hw h.1

/-- Adding one to 0x7F as bytes overflows the signed range and leaves OF clear, and 5 - 6 with a
borrow is taken with a subtraction that overflows. -/
theorem alu8_misses_overflow :
    alu8 .add 0x7F 0x01 0 = (0x80, Flags.sf ||| Flags.af) ∧
      ¬SignedFits 8 (AluOp.add.signedValue (0x7F : U8) 0x01 false) ∧
      alu8Fits .sbb 5 6 false = false ∧
      ¬ ∀ (w : Width) (op : AluOp) (a b : BitVec w.bits) (fl : U32),
        AluMeetsSpec w op a b fl := by
  have hover : ¬SignedFits 8 (AluOp.add.signedValue (0x7F : U8) 0x01 false) := by decide
  refine ⟨by decide, hover, by decide, fun h => ?_⟩
  exact hover ((status_byte_iff .add 0x7F 0x01 0).mp (h .w8 .add (0x7F : U8) (0x01 : U8) 0).status
    trivial)

end X86Emu
