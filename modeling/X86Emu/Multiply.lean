import X86Emu.AluFlags
import X86Emu.DecodeOp
import X86Emu.Division

/-!
# MUL and IMUL

The multiplications against products of exact integers. IMUL of bytes and of
words into twice the width compares the two halves of the product for CF and OF,
where the form at the operand size asks whether the high half extends the low.
-/
namespace X86Emu

open StateRules SignedWords

/-! ## The instructions -/

/-- A multiplication, apart from its operand. -/
inductive MulForm where
  /-- The accumulator by the operand, into twice the width. -/
  | acc (signed byte : Bool)
  /-- The destination register by the operand. -/
  | reg
  /-- The operand by an immediate, of one byte when `short`. -/
  | imm (short : Bool)
  deriving DecidableEq, Repr

namespace MulForm

/-- The instruction, `imm` holding the bytes of its immediate. -/
def inst (f : MulForm) (w32 : Bool) (m : ModRm) (imm : U32) : Inst :=
  match f with
  | acc false true => .mulRm8 m
  | acc true true => .imulRm8 m
  | acc false false => if w32 then .mulRm32 m else .mulRm16 m
  | acc true false => if w32 then .imulRm32 m else .imulRm16 m
  | reg => if w32 then .imulRegRm32 m m.reg else .imulRegRm16 m m.reg
  | MulForm.imm true =>
    if w32 then .imulRegRmImm32 m m.reg ((u8 imm).signExtend 32)
    else .imulRegRmImm16 m m.reg ((u8 imm).signExtend 16)
  | MulForm.imm false =>
    if w32 then .imulRegRmImm32 m m.reg imm else .imulRegRmImm16 m m.reg (u16 imm)

def opcode : MulForm → U8
  | acc _ true => 0xF6
  | acc _ false => 0xF7
  | reg => 0x0F
  | MulForm.imm true => 0x6B
  | MulForm.imm false => 0x69

/-- The bytes after the opcode choose the form: the group's bits, or the second opcode byte. -/
def Chosen (f : MulForm) (s : Cpu) : Prop :=
  match f with
  | acc signed _ => (fetchModrm s).1.group = if signed then 5 else 4
  | reg => (fetchU8 s).1 = 0xAF
  | MulForm.imm _ => True

/-- The operand and the immediate, as they follow the opcode. -/
def fetched (f : MulForm) (s : Cpu) : ModRm × U32 :=
  match f with
  | acc _ _ => ((fetchModrm s).1, 0)
  | reg => ((fetchModrm (fetchU8 s).2).1, 0)
  | MulForm.imm true => ((fetchModrm s).1, u32 (fetchU8 (fetchModrm s).2).1)
  | MulForm.imm false =>
    ((fetchModrm s).1,
      if s.opsize then (fetchU32 (fetchModrm s).2).1 else u32 (fetchU16 (fetchModrm s).2).1)

def signed : MulForm → Bool
  | acc signed _ => signed
  | _ => true

variable (f : MulForm) (m : ModRm) (imm : U32) (s : Cpu)

def width : Width :=
  match f with
  | acc _ true => .w8
  | _ => if s.opsize then s.osize else .w16

/-- The width of the host type the source multiplies in. -/
def hostBits : Nat :=
  match f, f.width s with
  | acc _ true, _ => 16
  | acc _ false, _ => if s.opsize then 128 else 32
  | _, .w64 => 128
  | _, .w32 => 64
  | _, _ => 32

/-- The operand, as the instruction reads it. -/
def operandWord : BitVec (f.width s).bits :=
  (readRmW m (f.width s) s).1.setWidth (f.width s).bits

/-- The other factor: the accumulator, the destination, or the immediate with its sign. -/
def factor : Int :=
  match f with
  | acc signed _ => valueOf signed (s.quotientReg (f.width s))
  | reg => ((s.reg64 m.reg).setWidth (f.width s).bits).toInt
  | MulForm.imm true => (u8 imm).toInt
  | MulForm.imm false => if s.opsize then imm.toInt else (u16 imm).toInt

/-- The exact product. -/
def product : Int := f.factor m imm s * valueOf f.signed (f.operandWord m s)

/-- The machine at the end of the instruction. -/
def result : Cpu := (execute (f.inst s.opsize m imm) s).2

/-- The product is where the instruction puts it: whole, or reduced to the width. -/
def Stored : Prop :=
  match f with
  | acc signed _ => valueOf signed ((f.result m imm s).dividendWord (f.width s)) =
      f.product m imm s
  | _ => ((f.result m imm s).reg64 m.reg).setWidth (f.width s).bits =
      BitVec.ofInt (f.width s).bits (f.product m imm s)

/-- Nothing is lost in the low half: the high half extends it, or the product fits. -/
def Lossless : Prop :=
  match f with
  | acc signed _ =>
    let u := f.result m imm s
    let w := f.width s
    u.dividendWord w = if signed then (u.quotientReg w).signExtend (w.bits + w.bits)
      else (u.quotientReg w).setWidth (w.bits + w.bits)
  | _ => SignedFits (f.width s).bits (f.product m imm s)

end MulForm

/-- What a multiplication owes. -/
structure MultiplicationExact (f : MulForm) (m : ModRm) (imm : U32) (s : Cpu) : Prop where
  host : Fits f.signed (f.hostBits s) (f.product m imm s)
  stored : f.Stored m imm s
  carry : (f.result m imm s).getFlag Flags.cf = true ↔ ¬f.Lossless m imm s
  overflow : (f.result m imm s).getFlag Flags.of = true ↔ ¬f.Lossless m imm s

/-- The signed forms that compare the halves of the product. -/
def MulForm.ComparesHalves (f : MulForm) (s : Cpu) : Prop :=
  f = .acc true true ∨ f = .acc true false ∧ s.opsize = false

instance (f : MulForm) (s : Cpu) : Decidable (f.ComparesHalves s) :=
  inferInstanceAs (Decidable (_ ∨ _ ∧ _))

/-- When it does. Where the halves are compared, a product that fits has to be 0 or -1, and one
that does not has to have halves that differ as signed words. -/
def MulForm.MultipliesRight (f : MulForm) (m : ModRm) (imm : U32) (s : Cpu) : Prop :=
  let p := f.product m imm s
  let n := (f.width s).bits
  f.ComparesHalves s → p = 0 ∨ p = -1 ∨ ¬SignedFits n p ∧ p / 2 ^ n ≠ p.bmod (2 ^ n)

/-- The form is decoded to its instruction, at the operand size found. -/
theorem MulForm.decodeOp_run (f : MulForm) (rep : Rep) (s : Cpu) (h : f.Chosen s) :
    ((decodeOp f.opcode rep).run s).1 = f.inst s.opsize (f.fetched s).1 (f.fetched s).2 := by
  match f with
  | .acc signed true =>
    have hop : decodeOp 0xF6 rep = .look fun _ => decodeF6 := rfl
    rw [opcode, hop, OpDecoder.run, bind_run, get_run, decodeF6, OpDecoder.run, bind_run]
    unfold Chosen at h
    unfold fetched
    generalize fetchModrm s = r at h ⊢
    dsimp only at h ⊢
    rw [h]
    cases signed <;> rfl
  | .acc signed false =>
    have hop : decodeOp 0xF7 rep = .look fun s => decodeF7 s.opsize := rfl
    rw [opcode, hop, OpDecoder.run, bind_run, get_run, decodeF7, OpDecoder.run, bind_run]
    unfold Chosen at h
    unfold fetched
    generalize fetchModrm s = r at h ⊢
    dsimp only at h ⊢
    rw [h]
    cases signed <;> rfl
  | .reg =>
    have hop : decodeOp 0x0F rep = .look fun s => decode0f s s.opsize := rfl
    rw [opcode, hop, OpDecoder.run, bind_run, get_run, decode0f, OpDecoder.run, bind_run]
    rw [show (fetchU8 s).1 = 0xAF from h]
    show ((OpDecoder.rm fun m =>
      if s.opsize then .imulRegRm32 m m.reg else .imulRegRm16 m m.reg).run (fetchU8 s).2).1 = _
    rw [OpDecoder.rm, OpDecoder.run, bind_run]
    unfold fetched
    generalize fetchModrm (fetchU8 s).2 = r
    rfl
  | .imm true =>
    have hop : decodeOp 0x6B rep = .look fun s => OpDecoder.rmImm8 fun m b =>
      if s.opsize then .imulRegRmImm32 m m.reg (b.signExtend 32)
      else .imulRegRmImm16 m m.reg (b.signExtend 16) := rfl
    rw [opcode, hop, OpDecoder.run, bind_run, get_run, OpDecoder.rmImm8, OpDecoder.run, bind_run,
      OpDecoder.run, bind_run]
    unfold fetched
    generalize fetchModrm s = q
    generalize fetchU8 q.2 = r
    dsimp only
    rw [inst, show u8 (u32 r.1) = r.1 from BitVec.setWidth_setWidth_of_le _ (by decide)]
    rfl
  | .imm false =>
    have hop : decodeOp 0x69 rep = .look fun s => OpDecoder.rmImmW s.opsize
      (fun m d => .imulRegRmImm32 m m.reg d) fun m h => .imulRegRmImm16 m m.reg h := rfl
    rw [opcode, hop, OpDecoder.run, bind_run, get_run, OpDecoder.rmImmW, OpDecoder.run, bind_run,
      OpDecoder.immW]
    unfold fetched
    generalize fetchModrm s = r
    have hoff : ¬ false = true := Bool.false_ne_true
    cases s.opsize with
    | true =>
      rw [if_pos rfl, if_pos rfl, OpDecoder.run, bind_run]
      generalize fetchU32 r.2 = q
      rfl
    | false =>
      rw [if_neg hoff, if_neg hoff, OpDecoder.run, bind_run]
      generalize fetchU16 r.2 = q
      dsimp only
      rw [inst, show u16 (u32 q.1) = q.1 from BitVec.setWidth_setWidth_of_le _ (by decide)]
      rfl

/-! ## The products of words -/

/-- The halves of an integer, with a flag that reports `c`. -/
structure HalvesOf (n : Nat) (r : U64 × U64 × Bool) (p : Int) (c : Prop) : Prop where
  low : r.1.setWidth n = BitVec.ofInt n p
  high : r.2.1.setWidth n = BitVec.ofInt n (p / 2 ^ n)
  flag : r.2.2 = true ↔ c

section Words

variable {w : Width}

theorem u128_u64 (a : BitVec w.bits) : u128 (u64 a) = a.setWidth 128 := by
  have hbits : w.bits ≤ 64 := by cases w <;> decide
  apply BitVec.eq_of_toNat_eq
  rw [BitVec.toNat_setWidth_of_le (by decide), BitVec.toNat_setWidth_of_le hbits,
    BitVec.toNat_setWidth_of_le (by omega)]

theorem width_low {n : Nat} (hn : n ≤ 64) (r : U128) : (u64 r).setWidth n = r.setWidth n :=
  BitVec.setWidth_setWidth_of_le _ hn

theorem mulW_spec (a v : BitVec w.bits) :
    HalvesOf w.bits (mulW w (u64 a) (u64 v)) (a.toNat * v.toNat)
      ¬Fits false w.bits (a.toNat * v.toNat) := by
  have hbits : w.bits ≤ 64 := by cases w <;> decide
  have hr : u128 (u64 a) * u128 (u64 v) = BitVec.ofInt 128 (a.toNat * v.toNat) := by
    rw [u128_u64, u128_u64]
    exact widen_mul false a v
  have hfits : UnsignedFits 128 (a.toNat * v.toNat) :=
    fits_mono (k := 128) (by omega) (fits_mul (by cases w <;> decide) false a v)
  have hnat := toNat_ofInt_of_fits hfits
  rw [mulW, hr]
  refine ⟨?_, ?_, ?_⟩
  · rw [width_low hbits, setWidth_ofInt (by omega)]
  · rw [width_low hbits, high_ofInt (by omega)]
  · rw [bne_iff_ne, ne_eq, ← BitVec.toNat_inj, BitVec.toNat_ushiftRight, Nat.shiftRight_eq_div_pow]
    refine not_congr ⟨fun h => ?_, fun h => ?_⟩
    · have hlt := (Nat.div_eq_zero_iff_lt (Nat.two_pow_pos _)).mp h
      exact ⟨hfits.1, by rw [← hnat]; exact_mod_cast hlt⟩
    · have hlt := h.2
      rw [← hnat] at hlt
      exact Nat.div_eq_of_lt (by exact_mod_cast hlt)

theorem imulW_spec (a v : BitVec w.bits) :
    HalvesOf w.bits (imulW w (u64 a) (u64 v)) (a.toInt * v.toInt)
      ¬Fits true w.bits (a.toInt * v.toInt) := by
  have hbits : w.bits ≤ 64 := by cases w <;> decide
  have hpos : 0 < w.bits := by cases w <;> decide
  have hword (b : BitVec w.bits) : (sext (u64 b) w).signExtend 128 = b.signExtend 128 := by
    rw [signExtend_sext, narrow_u64 hbits]
  have hr : ((sext (u64 a) w).signExtend 128 * (sext (u64 v) w).signExtend 128 : U128) =
      BitVec.ofInt 128 (a.toInt * v.toInt) := by
    rw [hword, hword]
    exact widen_mul true a v
  have hfits : SignedFits 128 (a.toInt * v.toInt) :=
    signedFits_mono (by omega) (signedFits_mul hpos (signedFits_toInt a) (signedFits_toInt v))
  rw [imulW, hr]
  refine ⟨?_, ?_, ?_⟩
  · rw [width_low hbits, setWidth_ofInt (by omega)]
  · rw [width_low hbits, high_sshiftRight (by omega), high_ofInt (by omega)]
  · rw [bne_iff_ne, ne_eq, signExtend_sext, width_low hbits, eq_signExtend_iff hpos (by omega),
      toInt_ofInt_of_fits (by decide) hfits]
    rfl

/-- The halves of a signed product, compared as words of half its width. -/
theorem halves_ne_iff {n : Nat} (hn : 0 < n) {p : Int} (hp : SignedFits (n + n) p) :
    BitVec.ofInt n (p / 2 ^ n) ≠ BitVec.ofInt n p ↔ p / 2 ^ n ≠ p.bmod (2 ^ n) := by
  have hd := two_pow_eq_double hn
  have hpow : (2 : Int) ^ (n + n - 1) = 2 ^ n * 2 ^ (n - 1) := by
    rw [← pow_add]
    congr 1
    omega
  have hpos : (0 : Int) < 2 ^ n := by positivity
  have hhigh : SignedFits n (p / 2 ^ n) := by
    obtain ⟨h0, h1⟩ := hp
    rw [hpow] at h0 h1
    exact ⟨Int.le_ediv_of_mul_le hpos (by linarith), Int.ediv_lt_of_lt_mul hpos (by linarith)⟩
  rw [← BitVec.toInt_inj.ne, toInt_ofInt_of_fits hn hhigh, BitVec.toInt_ofInt]

theorem imul16_word (a v : U16) :
    HalvesOf 16 (imul16Halves (u64 a) (u64 v)) (a.toInt * v.toInt)
      (a.toInt * v.toInt / 2 ^ 16 ≠ (a.toInt * v.toInt).bmod (2 ^ 16)) := by
  have hr : ((u16 (u64 a)).signExtend 32 * (u16 (u64 v)).signExtend 32 : U32) =
      BitVec.ofInt 32 (a.toInt * v.toInt) := by
    rw [u16_u64, u16_u64]
    exact widen_mul true a v
  have hhigh := high_ofInt (n := 16) (k := 32) (by decide) (a.toInt * v.toInt)
  have hlow : u16 (BitVec.ofInt 32 (a.toInt * v.toInt)) = BitVec.ofInt 16 (a.toInt * v.toInt) :=
    setWidth_ofInt (by decide) _
  rw [imul16Halves, imul16, hr]
  refine ⟨?_, ?_, ?_⟩
  · exact (u16_u64 _).trans hlow
  · exact (u16_u64 _).trans hhigh
  · rw [bne_iff_ne]
    rw [show u16 ((BitVec.ofInt 32 (a.toInt * v.toInt)).sshiftRight 16) =
      BitVec.ofInt 16 (a.toInt * v.toInt / 2 ^ 16) from
        (high_sshiftRight (by decide) _).trans hhigh, hlow]
    exact halves_ne_iff (by decide)
      (signedFits_mul (by decide) (signedFits_toInt a) (signedFits_toInt v))

theorem imul16_spec (hw : w = .w16) (a v : BitVec w.bits) :
    HalvesOf w.bits (imul16Halves (u64 a) (u64 v)) (a.toInt * v.toInt)
      (a.toInt * v.toInt / 2 ^ w.bits ≠ (a.toInt * v.toInt).bmod (2 ^ w.bits)) := by
  subst hw
  exact imul16_word a v

end Words

theorem mul8_spec (a v : U8) :
    (mul8 a v).1 = BitVec.ofInt 16 (a.toNat * v.toNat) ∧
      ((mul8 a v).2 = true ↔ ¬Fits false 8 (a.toNat * v.toNat)) := by
  have hr : u16 a * u16 v = BitVec.ofInt 16 (a.toNat * v.toNat) := widen_mul false a v
  obtain ⟨hlo, hhi⟩ := fits_mul (by decide) false a v
  rw [valueOf_false, valueOf_false] at hlo hhi
  have hhigh : u8 (BitVec.ofInt 16 (a.toNat * v.toNat) >>> 8) =
      BitVec.ofInt 8 (a.toNat * v.toNat / 2 ^ 8) := high_ofInt (by decide) _
  have hfit : UnsignedFits 8 ((a.toNat * v.toNat : Int) / 2 ^ 8) := ⟨by omega, by omega⟩
  have hval := toNat_ofInt_of_fits hfit
  rw [mul8, hr]
  refine ⟨rfl, ?_⟩
  rw [bne_iff_ne, hhigh, ne_eq, ← BitVec.toNat_inj]
  refine not_congr ⟨fun h => ⟨hlo, ?_⟩, fun h => ?_⟩
  · rw [h] at hval
    have hzero : ((0 : U8).toNat : Int) = 0 := rfl
    omega
  · have hlt := h.2
    change ((BitVec.ofInt 8 (a.toNat * v.toNat / 2 ^ 8)).toNat : Nat) = 0
    omega

theorem imul8_spec (a v : U8) :
    (imul8 a v).1 = BitVec.ofInt 16 (a.toInt * v.toInt) ∧
      ((imul8 a v).2 = true ↔
        a.toInt * v.toInt / 2 ^ 8 ≠ (a.toInt * v.toInt).bmod (2 ^ 8)) := by
  have hr : (a.signExtend 16 * v.signExtend 16 : U16) = BitVec.ofInt 16 (a.toInt * v.toInt) :=
    widen_mul true a v
  have hhigh := high_ofInt (n := 8) (k := 16) (by decide) (a.toInt * v.toInt)
  have hlow : u8 (BitVec.ofInt 16 (a.toInt * v.toInt)) = BitVec.ofInt 8 (a.toInt * v.toInt) :=
    setWidth_ofInt (by decide) _
  rw [imul8, hr]
  refine ⟨rfl, ?_⟩
  rw [bne_iff_ne, show u8 ((BitVec.ofInt 16 (a.toInt * v.toInt)).sshiftRight 8) =
    BitVec.ofInt 8 (a.toInt * v.toInt / 2 ^ 8) from (high_sshiftRight (by decide) _).trans hhigh,
    hlow]
  exact halves_ne_iff (by decide)
    (signedFits_mul (by decide) (signedFits_toInt a) (signedFits_toInt v))

/-! ## Into twice the width -/

theorem test_setCarryOverflow (c : Bool) (fl : U32) :
    test (setCarryOverflow c fl) Flags.cf = c ∧ test (setCarryOverflow c fl) Flags.of = c := by
  refine ⟨?_, test_setFlag_self (by decide) _ _⟩
  rw [setCarryOverflow, test_setFlag_other (by decide), test_setFlag_self (by decide)]

/-- The product `p` in the accumulator and the data register, with CF and OF reporting `c`. -/
structure InHalves (u : Cpu) (w : Width) (p : Int) (c : Prop) : Prop where
  word : u.dividendWord w = BitVec.ofInt (w.bits + w.bits) p
  carry : u.getFlag Flags.cf = true ↔ c
  overflow : u.getFlag Flags.of = true ↔ c

theorem inHalves_flags {u : Cpu} {w : Width} {p : Int} {c : Prop} {b : Bool}
    (h : u.dividendWord w = BitVec.ofInt (w.bits + w.bits) p) (hb : b = true ↔ c) :
    InHalves (u.modifyFlags (setCarryOverflow b)) w p c := by
  obtain ⟨hcf, hof⟩ := test_setCarryOverflow b u.flags
  exact ⟨h, (iff_of_eq (congrArg (· = true) hcf)).trans hb,
    (iff_of_eq (congrArg (· = true) hof)).trans hb⟩

theorem inHalves_store {t : Cpu} (ht : t.pendingException = none) {w : Width} (hw : w ≠ .w8)
    {r : U64 × U64 × Bool} {p : Int} {c : Prop} (hr : HalvesOf w.bits r p c) :
    InHalves (storeProduct w r t) w p c := by
  have hd := divided_wide ht hw hr.low hr.high
  have hword : ((t.setRegW 0 w r.1).setRegW 2 w r.2.1).dividendWord w =
      BitVec.ofInt (w.bits + w.bits) p := by
    have hall := append_halves (BitVec.ofInt (w.bits + w.bits) p)
    rw [high_ofInt (Nat.le_refl _), setWidth_ofInt (by omega)] at hall
    rw [Cpu.dividendWord, hd.quotient, hd.remainder, hall]
  exact inHalves_flags hword hr.flag

theorem inHalves_byte {t : Cpu} (ht : t.pendingException = none) {r : U16 × Bool} {p : Int}
    {c : Prop} (hr : r.1 = BitVec.ofInt 16 p) (hc : r.2 = true ↔ c) :
    InHalves ((t.setReg16 .ax r.1).modifyFlags (setCarryOverflow r.2)) .w8 p c := by
  refine inHalves_flags ?_ hc
  have hax : t.setReg16 .ax r.1 = t.setRegWRaw 0 .w16 (u64 r.1) := by
    unfold Cpu.setReg16 Cpu.setRegW
    rw [ht]
    rfl
  rw [dividendWord_byte, hax]
  refine Eq.trans ?_ hr
  exact (setWidth_mergeW (t.regs 0) (u64 r.1) .w16).trans (u16_u64 r.1)

section Accumulator

variable {signed byte : Bool} {m : ModRm} {imm : U32} {s : Cpu}

theorem acc_hostBits : ((MulForm.acc signed byte).width s).bits +
    ((MulForm.acc signed byte).width s).bits ≤ (MulForm.acc signed byte).hostBits s := by
  cases byte with
  | true => exact Nat.le_refl _
  | false =>
    simp only [MulForm.width, MulForm.hostBits]
    cases s.opsize with
    | false => exact (by decide : Width.w16.bits + Width.w16.bits ≤ 32)
    | true =>
      have hbits : s.osize.bits ≤ 64 := by cases s.osize <;> decide
      simp only [if_true]
      omega

/-- A product that reached its halves is right when the flags report the one condition they
should. -/
theorem acc_exact_iff {c : Prop} (hu : InHalves ((MulForm.acc signed byte).result m imm s)
      ((MulForm.acc signed byte).width s) ((MulForm.acc signed byte).product m imm s) c) :
    MultiplicationExact (.acc signed byte) m imm s ↔
      (c ↔ ¬Fits signed ((MulForm.acc signed byte).width s).bits
        ((MulForm.acc signed byte).product m imm s)) := by
  have hpos : 0 < ((MulForm.acc signed byte).width s).bits := by
    cases (MulForm.acc signed byte).width s <;> decide
  have hfit : Fits signed _ ((MulForm.acc signed byte).product m imm s) :=
    fits_mul hpos signed (s.quotientReg _) _
  have hvalue := valueOf_ofInt (by omega) hfit
  have hlossless : (MulForm.acc signed byte).Lossless m imm s ↔
      Fits signed ((MulForm.acc signed byte).width s).bits
        ((MulForm.acc signed byte).product m imm s) := by
    have hext := eq_extend_low_iff hpos signed
      (((MulForm.acc signed byte).result m imm s).dividendWord ((MulForm.acc signed byte).width s))
    rw [Cpu.dividendWord, setWidth_append_low, ← Cpu.dividendWord] at hext
    refine hext.trans ?_
    rw [hu.word, hvalue]
  constructor
  · intro h
    exact hu.carry.symm.trans (h.carry.trans (not_congr hlossless))
  · intro h
    have hc := h.trans (not_congr hlossless).symm
    exact ⟨fits_mono acc_hostBits hfit, by rw [MulForm.Stored, hu.word, hvalue],
      hu.carry.trans hc, hu.overflow.trans hc⟩

theorem inHalves_wide {w : Width} (hw : w ≠ .w8) {g : U64 → U64 → U64 × U64 × Bool}
    {c : Int → Prop}
    (spec : ∀ a v : BitVec w.bits, HalvesOf w.bits (g (u64 a) (u64 v))
      (valueOf signed a * valueOf signed v) (c (valueOf signed a * valueOf signed v)))
    (h : (readRmW m w s).2.pendingException = none) :
    InHalves (mulRmWith w g m s).2 w
      (valueOf signed (s.quotientReg w) * valueOf signed ((readRmW m w s).1.setWidth w.bits))
      (c (valueOf signed (s.quotientReg w) *
        valueOf signed ((readRmW m w s).1.setWidth w.bits))) := by
  obtain ⟨t, ht⟩ : ∃ t, t = (readRmW m w s).2 := ⟨_, rfl⟩
  obtain ⟨v, hv⟩ : ∃ v, v = (readRmW m w s).1 := ⟨_, rfl⟩
  have hu : (mulRmWith w g m s).2 = storeProduct w (g (t.regW 0 w) v) t := by
    rw [ht, hv]
    rfl
  have hlt := toNat_readRmW_lt m w s
  have hword : v = u64 (v.setWidth w.bits) :=
    (BitVec.setWidth_eq v).symm.trans (setWidth_of_lt 64 (hv ▸ hlt))
  have hacc : t.regW 0 w = u64 (s.quotientReg w) := by
    rw [regW_eq, Cpu.quotientReg, ← (loads_readRmW m w s).regs, ← ht]
    rfl
  rw [hu, hacc, hword, ← hv]
  have hs := spec (s.quotientReg w) (v.setWidth w.bits)
  rw [← hword]
  rw [← hword] at hs
  exact inHalves_store (ht ▸ h) hw hs

/-- The condition the flags of a one-operand form report. -/
def MulForm.FlagsReport (f : MulForm) (m : ModRm) (imm : U32) (s : Cpu) : Prop :=
  let p := f.product m imm s
  let n := (f.width s).bits
  if f.ComparesHalves s then p / 2 ^ n ≠ p.bmod (2 ^ n) else ¬Fits f.signed n p

variable (h : (readRmW m ((MulForm.acc signed byte).width s) s).2.pendingException = none)
include h

theorem inHalves_acc : InHalves ((MulForm.acc signed byte).result m imm s)
    ((MulForm.acc signed byte).width s) ((MulForm.acc signed byte).product m imm s)
    ((MulForm.acc signed byte).FlagsReport m imm s) := by
  cases byte with
  | true =>
    obtain ⟨t, ht⟩ : ∃ t, t = (readRmW m .w8 s).2 := ⟨_, rfl⟩
    obtain ⟨v, hv⟩ : ∃ v, v = u8 (readRmW m .w8 s).1 := ⟨_, rfl⟩
    have hal : t.reg8 .al = s.quotientReg .w8 := by
      rw [Cpu.quotientReg, ← (loads_readRmW m .w8 s).regs, ← ht]
      rfl
    have hnone : t.pendingException = none := ht ▸ h
    cases signed with
    | false =>
      have hu : (MulForm.acc false true).result m imm s =
          (t.setReg16 .ax (mul8 (t.reg8 .al) v).1).modifyFlags
            (setCarryOverflow (mul8 (t.reg8 .al) v).2) := by
        rw [ht, hv]
        rfl
      obtain ⟨hr, hc⟩ := mul8_spec (s.quotientReg .w8) v
      rw [hu, hal, MulForm.FlagsReport, if_neg (by simp [MulForm.ComparesHalves])]
      rw [hv] at hr hc ⊢
      exact inHalves_byte hnone hr hc
    | true =>
      have hu : (MulForm.acc true true).result m imm s =
          (t.setReg16 .ax (imul8 (t.reg8 .al) v).1).modifyFlags
            (setCarryOverflow (imul8 (t.reg8 .al) v).2) := by
        rw [ht, hv]
        rfl
      obtain ⟨hr, hc⟩ := imul8_spec (s.quotientReg .w8) v
      rw [hu, hal, MulForm.FlagsReport, if_pos (.inl rfl)]
      rw [hv] at hr hc ⊢
      exact inHalves_byte hnone hr hc
  | false =>
    have hne : (MulForm.acc signed false).width s ≠ .w8 := by
      unfold MulForm.width
      dsimp only
      split
      · exact osize_ne_w8 s
      · decide
    cases hop : s.opsize with
    | false =>
      have hw : (MulForm.acc signed false).width s = .w16 := by simp [MulForm.width, hop]
      cases signed with
      | false =>
        have hu : (MulForm.acc false false).result m imm s =
            (mulRmWith ((MulForm.acc false false).width s)
              (mulW ((MulForm.acc false false).width s)) m s).2 := by
          rw [hw, MulForm.result, hop]
          rfl
        rw [hu, MulForm.FlagsReport, if_neg (by simp [MulForm.ComparesHalves])]
        exact inHalves_wide hne (c := fun p => ¬Fits false _ p) mulW_spec h
      | true =>
        have hu : (MulForm.acc true false).result m imm s =
            (mulRmWith ((MulForm.acc true false).width s) imul16Halves m s).2 := by
          rw [hw, MulForm.result, hop]
          rfl
        rw [hu, MulForm.FlagsReport, if_pos (.inr ⟨rfl, hop⟩)]
        exact inHalves_wide hne (c := fun p => p / 2 ^ _ ≠ p.bmod (2 ^ _)) (imul16_spec hw) h
    | true =>
      have hw : (MulForm.acc signed false).width s = s.osize := by simp [MulForm.width, hop]
      cases signed with
      | false =>
        have hu : (MulForm.acc false false).result m imm s =
            (mulRmWith ((MulForm.acc false false).width s)
              (mulW ((MulForm.acc false false).width s)) m s).2 := by
          rw [hw, MulForm.result, hop, MulForm.inst, if_pos rfl]
          show (atOsize (fun w => mulRmWith w (mulW w) m) s).2 = _
          rw [atOsize, bind_run, get_run]
        rw [hu, MulForm.FlagsReport, if_neg (by simp [MulForm.ComparesHalves])]
        exact inHalves_wide hne (c := fun p => ¬Fits false _ p) mulW_spec h
      | true =>
        have hu : (MulForm.acc true false).result m imm s =
            (mulRmWith ((MulForm.acc true false).width s)
              (imulW ((MulForm.acc true false).width s)) m s).2 := by
          rw [hw, MulForm.result, hop, MulForm.inst, if_pos rfl]
          show (atOsize (fun w => mulRmWith w (imulW w) m) s).2 = _
          rw [atOsize, bind_run, get_run]
        rw [hu, MulForm.FlagsReport, if_neg (by simp [MulForm.ComparesHalves, hop])]
        exact inHalves_wide hne (c := fun p => ¬Fits true _ p) imulW_spec h

end Accumulator

/-! ## Into a register -/

/-- The product `p` reduced to a register, with CF and OF reporting that it does not fit. -/
structure InRegister (u : Cpu) (i : U8) (w : Width) (p : Int) : Prop where
  word : (u.reg64 i).setWidth w.bits = BitVec.ofInt w.bits p
  carry : u.getFlag Flags.cf = true ↔ ¬SignedFits w.bits p
  overflow : u.getFlag Flags.of = true ↔ ¬SignedFits w.bits p

theorem inRegister_store {t : Cpu} (ht : t.pendingException = none) {w : Width} {i : U8} {k : Nat}
    {p : Int} (hk : w.bits ≤ k) (hfit : SignedFits k p) {v : U64} {r : BitVec w.bits}
    (hv : v.setWidth w.bits = r) (hr : r = BitVec.ofInt w.bits p) :
    InRegister ((t.setRegW i w v).modifyFlags fun fl =>
      setLogicFlags r (setCarryOverflow (BitVec.ofInt k p != r.signExtend k) fl)) i w p := by
  have hpos : 0 < w.bits := by cases w <;> decide
  have hword : ((t.setRegW i w v).reg64 i).setWidth w.bits = BitVec.ofInt w.bits p := by
    unfold Cpu.setRegW
    rw [ht]
    refine Eq.trans ?_ (hv.trans hr)
    refine Eq.trans ?_ (setWidth_mergeW (t.reg64 i) v w)
    unfold Cpu.setRegWRaw Cpu.setReg Cpu.reg64
    simp
  have hne : (BitVec.ofInt k p != r.signExtend k) = true ↔ ¬SignedFits w.bits p := by
    have he := eq_signExtend_iff hpos hk (BitVec.ofInt k p)
    rw [setWidth_ofInt hk, ← hr, toInt_ofInt_of_fits (by omega) hfit] at he
    rw [bne_iff_ne]
    exact not_congr he
  have logic (fl : U32) (g : U32) (hs : Flags.sf &&& g = 0) (hz : Flags.zf &&& g = 0)
      (hp : Flags.pf &&& g = 0) : test (setLogicFlags r fl) g = test fl g := by
    rw [setLogicFlags, test_setFlag_other hp, test_setFlag_other hz, test_setFlag_other hs]
  obtain ⟨hcf, hof⟩ := test_setCarryOverflow (BitVec.ofInt k p != r.signExtend k)
    (t.setRegW i w v).flags
  have hcf' := (logic _ Flags.cf (by decide) (by decide) (by decide)).trans hcf
  have hof' := (logic _ Flags.of (by decide) (by decide) (by decide)).trans hof
  exact ⟨hword, (iff_of_eq (congrArg (· = true) hcf')).trans hne,
    (iff_of_eq (congrArg (· = true) hof')).trans hne⟩

theorem ofInt_mul_words {n : Nat} (x y : Int) :
    BitVec.ofInt n x * BitVec.ofInt n y = BitVec.ofInt n (x * y) := (BitVec.ofInt_mul x y).symm

theorem imulStore16_exact {t : Cpu} (ht : t.pendingException = none) (i : U8) (a b : U16) :
    InRegister (imulStore16 i ((a.signExtend 32 : U32) * (b.signExtend 32 : U32)) t) i .w16
      (a.toInt * b.toInt) := by
  rw [show (a.signExtend 32 : U32) * (b.signExtend 32 : U32) =
    BitVec.ofInt 32 (a.toInt * b.toInt) from widen_mul true a b]
  have hlow : u16 (BitVec.ofInt 32 (a.toInt * b.toInt)) = BitVec.ofInt 16 (a.toInt * b.toInt) :=
    setWidth_ofInt (by decide) _
  exact inRegister_store (w := .w16) (k := 32) ht (by decide)
    (signedFits_mul (by decide) (signedFits_toInt a) (signedFits_toInt b)) (u16_u64 _) hlow

/-- The forms at the operand size, of 32 or 64 bits. -/
theorem imulStore_exact {t : Cpu} (ht : t.pendingException = none) (i : U8) {w : Width}
    (hw : w = .w32 ∨ w = .w64) {x y : Int} (hx : SignedFits w.bits x) (hy : SignedFits w.bits y) :
    InRegister (imulStore i w (BitVec.ofInt 64 x) (BitVec.ofInt 64 y) t) i w (x * y) := by
  obtain rfl | rfl := hw
  · rw [imulStore, if_neg (by decide), ofInt_mul_words]
    have hlow : u32 (BitVec.ofInt 64 (x * y)) = BitVec.ofInt 32 (x * y) :=
      setWidth_ofInt (by decide) _
    exact inRegister_store (w := .w32) (k := 64) ht (by decide)
      (signedFits_mul (by decide) hx hy) (u32_u64 _) hlow
  · have hwide (z : Int) (hz : SignedFits 64 z) :
        (BitVec.ofInt 64 z).signExtend 128 = BitVec.ofInt 128 z :=
      congrArg (BitVec.ofInt 128) (toInt_ofInt_of_fits (by decide) hz)
    rw [imulStore, if_pos rfl, hwide x hx, hwide y hy, ofInt_mul_words]
    have hlow : u64 (BitVec.ofInt 128 (x * y)) = BitVec.ofInt 64 (x * y) :=
      setWidth_ofInt (by decide) _
    exact inRegister_store (w := .w64) (k := 128) ht (by decide)
      (signedFits_mul (by decide) hx hy) (BitVec.setWidth_eq _) hlow

theorem sext_toInt (v : U64) (w : Width) :
    sext v w = BitVec.ofInt 64 (v.setWidth w.bits).toInt := sext_eq v w

section Register

variable {m : ModRm} {i : U8} {s : Cpu} {w : Width}

theorem inRegister_regRm16 (hw : w = .w16) (h : (readRmW m w s).2.pendingException = none) :
    InRegister (imulRegRm16 m i s).2 i w
      (((s.reg64 i).setWidth w.bits).toInt * ((readRmW m w s).1.setWidth w.bits).toInt) := by
  subst hw
  obtain ⟨t, ht⟩ : ∃ t, t = (readRmW m .w16 s).2 := ⟨_, rfl⟩
  obtain ⟨v, hv⟩ : ∃ v, v = u16 (readRmW m .w16 s).1 := ⟨_, rfl⟩
  have hu : (imulRegRm16 m i s).2 =
      imulStore16 i ((v.signExtend 32 : U32) * ((t.reg16Idx i).signExtend 32 : U32)) t := by
    rw [ht, hv]
    rfl
  have hreg : t.reg16Idx i = (s.reg64 i).setWidth Width.w16.bits := by
    rw [Cpu.reg64, ← (loads_readRmW m .w16 s).regs, ← ht]
    rfl
  rw [hu, hreg, hv, mul_comm]
  exact imulStore16_exact (ht ▸ h) i _ _

theorem inRegister_regRmImm16 (hw : w = .w16) (imm : U16)
    (h : (readRmW m w s).2.pendingException = none) :
    InRegister (imulRegRmImm16 m i imm s).2 i w
      (imm.toInt * ((readRmW m w s).1.setWidth w.bits).toInt) := by
  subst hw
  obtain ⟨t, ht⟩ : ∃ t, t = (readRmW m .w16 s).2 := ⟨_, rfl⟩
  obtain ⟨v, hv⟩ : ∃ v, v = u16 (readRmW m .w16 s).1 := ⟨_, rfl⟩
  have hu : (imulRegRmImm16 m i imm s).2 =
      imulStore16 i ((v.signExtend 32 : U32) * (imm.signExtend 32 : U32)) t := by
    rw [ht, hv]
    rfl
  rw [hu, hv, mul_comm]
  exact imulStore16_exact (ht ▸ h) i _ _

theorem inRegister_regRm32 (hw : s.osize = w) (hwide : w = .w32 ∨ w = .w64)
    (h : (readRmW m w s).2.pendingException = none) :
    InRegister (imulRegRm32 m i s).2 i w
      (((s.reg64 i).setWidth w.bits).toInt * ((readRmW m w s).1.setWidth w.bits).toInt) := by
  obtain ⟨t, ht⟩ : ∃ t, t = (readRmW m w s).2 := ⟨_, rfl⟩
  obtain ⟨v, hv⟩ : ∃ v, v = (readRmW m w s).1 := ⟨_, rfl⟩
  have hu : (imulRegRm32 m i s).2 = imulStore i w (sext v w) (sext (t.regW i w) w) t := by
    rw [ht, hv, imulRegRm32, bind_run, get_run]
    dsimp only
    rw [hw]
    rfl
  have hbits : w.bits ≤ 64 := by cases w <;> decide
  have hreg : (t.regW i w).setWidth w.bits = (s.reg64 i).setWidth w.bits := by
    rw [regW_eq, narrow_u64 hbits, Cpu.reg64, Cpu.reg64, ← (loads_readRmW m w s).regs, ← ht]
  rw [hu, sext_toInt, sext_toInt, hreg, ← hv, mul_comm]
  exact imulStore_exact (ht ▸ h) i hwide (signedFits_toInt _) (signedFits_toInt _)

theorem inRegister_regRmImm32 (hw : s.osize = w) (hwide : w = .w32 ∨ w = .w64) (imm : U32)
    (h : (readRmW m w s).2.pendingException = none) :
    InRegister (imulRegRmImm32 m i imm s).2 i w
      (imm.toInt * ((readRmW m w s).1.setWidth w.bits).toInt) := by
  obtain ⟨t, ht⟩ : ∃ t, t = (readRmW m w s).2 := ⟨_, rfl⟩
  obtain ⟨v, hv⟩ : ∃ v, v = (readRmW m w s).1 := ⟨_, rfl⟩
  have hu : (imulRegRmImm32 m i imm s).2 =
      imulStore i w (sext v w) (BitVec.ofInt 64 imm.toInt) t := by
    rw [ht, hv, imulRegRmImm32, bind_run, get_run]
    dsimp only
    rw [hw]
    rfl
  have himm : SignedFits w.bits imm.toInt :=
    signedFits_mono (by obtain rfl | rfl := hwide <;> decide) (signedFits_toInt imm)
  rw [hu, sext_toInt, ← hv, mul_comm]
  exact imulStore_exact (ht ▸ h) i hwide (signedFits_toInt _) himm

end Register

/-! ## When a multiplication is exact -/

section Exact

variable {f : MulForm} {m : ModRm} {imm : U32} {s : Cpu}

theorem operand_osize (h : s.opsize = true) : s.osize = .w32 ∨ s.osize = .w64 := by
  unfold Cpu.osize
  rw [h]
  split
  · exact .inr rfl
  · exact .inl rfl

theorem width_of_opsize (hf : ∀ signed byte, f ≠ .acc signed byte) :
    f.width s = if s.opsize then s.osize else .w16 := by
  cases f with
  | acc signed byte => exact absurd rfl (hf signed byte)
  | reg | imm short => rfl

theorem factor_fits (hf : ∀ signed byte, f ≠ .acc signed byte) :
    SignedFits (f.width s).bits (f.factor m imm s) := by
  cases f with
  | acc signed byte => exact absurd rfl (hf signed byte)
  | reg => exact signedFits_toInt _
  | imm short =>
    cases short with
    | true =>
      exact signedFits_mono (by cases MulForm.width (.imm true) s <;> decide)
        (signedFits_toInt (u8 imm))
    | false =>
      rw [MulForm.factor, width_of_opsize hf]
      cases hop : s.opsize with
      | true =>
        rw [if_pos rfl, if_pos rfl]
        refine signedFits_mono ?_ (signedFits_toInt imm)
        obtain h | h := operand_osize hop <;> rw [h] <;> decide
      | false => exact signedFits_toInt (u16 imm)

theorem inRegister_form (hf : ∀ signed byte, f ≠ .acc signed byte)
    (h : (readRmW m (f.width s) s).2.pendingException = none) :
    InRegister (f.result m imm s) m.reg (f.width s) (f.product m imm s) := by
  have hwidth := width_of_opsize hf (s := s)
  cases hop : s.opsize with
  | true =>
    rw [hop, if_pos rfl] at hwidth
    have hwide := operand_osize hop
    rw [← hwidth] at hwide
    cases f with
    | acc signed byte => exact absurd rfl (hf signed byte)
    | reg =>
      rw [MulForm.result, hop]
      exact inRegister_regRm32 hwidth.symm hwide h
    | imm short =>
      rw [MulForm.result, hop]
      cases short with
      | true =>
        have hr := inRegister_regRmImm32 (i := m.reg) hwidth.symm hwide
          ((u8 imm).signExtend 32) h
        rw [BitVec.toInt_signExtend_of_le (by decide)] at hr
        exact hr
      | false =>
        have hr := inRegister_regRmImm32 (i := m.reg) hwidth.symm hwide imm h
        rw [MulForm.product, MulForm.factor, hop]
        exact hr
  | false =>
    rw [hop] at hwidth
    cases f with
    | acc signed byte => exact absurd rfl (hf signed byte)
    | reg =>
      rw [MulForm.result, hop]
      exact inRegister_regRm16 hwidth h
    | imm short =>
      rw [MulForm.result, hop]
      cases short with
      | true =>
        have hr := inRegister_regRmImm16 (i := m.reg) hwidth ((u8 imm).signExtend 16) h
        rw [BitVec.toInt_signExtend_of_le (by decide)] at hr
        exact hr
      | false =>
        have hr := inRegister_regRmImm16 (i := m.reg) hwidth (u16 imm) h
        rw [MulForm.product, MulForm.factor, hop]
        exact hr

theorem exact_of_register (hf : ∀ signed byte, f ≠ .acc signed byte)
    (h : (readRmW m (f.width s) s).2.pendingException = none) :
    MultiplicationExact f m imm s := by
  have hu : InRegister (f.result m imm s) m.reg (f.width s) (f.product m imm s) :=
    inRegister_form hf h
  have hpos : 0 < (f.width s).bits := by cases f.width s <;> decide
  have hsigned : f.signed = true := by
    cases f with
    | acc signed byte => exact absurd rfl (hf signed byte)
    | reg | imm short => rfl
  have hfit : SignedFits ((f.width s).bits + (f.width s).bits) (f.product m imm s) := by
    rw [MulForm.product, hsigned]
    exact signedFits_mul hpos (factor_fits hf) (signedFits_toInt _)
  have hhost : (f.width s).bits + (f.width s).bits ≤ f.hostBits s := by
    cases f with
    | acc signed byte => exact absurd rfl (hf signed byte)
    | reg => cases hw : MulForm.reg.width s <;> simp [MulForm.hostBits, hw, Width.bits]
    | imm short =>
      cases hw : (MulForm.imm short).width s <;> simp [MulForm.hostBits, hw, Width.bits]
  have hhostFit : Fits f.signed (f.hostBits s) (f.product m imm s) := by
    rw [hsigned]
    exact signedFits_mono hhost hfit
  cases f with
  | acc signed byte => exact absurd rfl (hf signed byte)
  | reg | imm short => exact ⟨hhostFit, hu.word, hu.carry, hu.overflow⟩

/-- Comparing the halves finds a product that is lost exactly apart from 0, -1 and the products
whose halves happen to agree. -/
theorem halves_report_iff {n : Nat} (hn : 0 < n) (p : Int) :
    (p / 2 ^ n ≠ p.bmod (2 ^ n) ↔ ¬SignedFits n p) ↔
      p = 0 ∨ p = -1 ∨ ¬SignedFits n p ∧ p / 2 ^ n ≠ p.bmod (2 ^ n) := by
  by_cases hfit : SignedFits n p
  · obtain ⟨hlo, hhi⟩ := hfit
    have hd := two_pow_eq_double hn
    have hpos : (0 : Int) < 2 ^ (n - 1) := by positivity
    have hbmod : p.bmod (2 ^ n) = p := by
      apply Int.bmod_eq_of_le_mul_two <;> push_cast <;> omega
    have hdiv : p / 2 ^ n = p ↔ p = 0 ∨ p = -1 := by
      obtain hneg | hnonneg := lt_or_ge p 0
      · have hq : p / 2 ^ n = -1 := by
          rw [Int.ediv_eq_iff_of_pos (by omega)]
          constructor <;> linarith
        rw [hq]
        omega
      · rw [Int.ediv_eq_zero_of_lt hnonneg (by omega)]
        omega
    rw [hbmod]
    simp only [show SignedFits n p from ⟨hlo, hhi⟩, not_true_eq_false, false_and, or_false,
      iff_false, not_not]
    exact hdiv
  · have hne : ¬(p = 0 ∨ p = -1) := by
      have hpos : (0 : Int) < 2 ^ (n - 1) := by positivity
      rintro (rfl | rfl)
      · exact hfit ⟨by omega, by omega⟩
      · exact hfit ⟨by omega, by omega⟩
    simp only [hfit, not_false_eq_true, iff_true, true_and]
    tauto

/-- A multiplication is exact, except that IMUL of bytes and of words into twice the width leaves CF
and OF clear only where the halves of the product agree. -/
theorem multiplication_exact_iff (h : (readRmW m (f.width s) s).2.pendingException = none) :
    MultiplicationExact f m imm s ↔ f.MultipliesRight m imm s := by
  cases f with
  | reg =>
    refine iff_of_true (exact_of_register (by simp) h) fun hc => ?_
    simp [MulForm.ComparesHalves] at hc
  | imm short =>
    refine iff_of_true (exact_of_register (by simp) h) fun hc => ?_
    simp [MulForm.ComparesHalves] at hc
  | acc signed byte =>
    rw [acc_exact_iff (inHalves_acc h), MulForm.FlagsReport]
    by_cases hc : (MulForm.acc signed byte).ComparesHalves s
    · have hsigned : signed = true := by
        obtain hc | ⟨hc, -⟩ := hc <;> cases hc <;> rfl
      subst hsigned
      have hpos : 0 < ((MulForm.acc true byte).width s).bits := by
        cases (MulForm.acc true byte).width s <;> decide
      rw [if_pos hc, MulForm.MultipliesRight]
      simp only [hc, forall_const]
      exact halves_report_iff hpos _
    · rw [if_neg hc]
      exact iff_of_true Iff.rfl fun h => absurd h hc

end Exact

/-- 2 times 3 as signed bytes fits a byte, and sets CF. -/
theorem imul_byte_carry :
    (execute (.imulRm8 inBx) (dividing 2 0 3)).2.getFlag Flags.cf = true ∧
      ¬MultiplicationExact (.acc true true) inBx 0 (dividing 2 0 3) := by
  refine ⟨by decide +kernel, fun h => h.carry.mp (by decide +kernel) ?_⟩
  exact BitVec.eq_of_toNat_eq (by decide +kernel)

/-- 100 times 7 as signed bytes does not fit, and is multiplied exactly. -/
theorem imul_byte_exact : MultiplicationExact (.acc true true) inBx 0 (dividing 100 0 7) :=
  (multiplication_exact_iff rfl).mpr fun _ => .inr (.inr ⟨by decide +kernel, by decide +kernel⟩)

end X86Emu
