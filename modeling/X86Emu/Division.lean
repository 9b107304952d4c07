import X86Emu.Lib.SignedWords
import X86Emu.Execute

/-!
# DIV and IDIV

The six division instructions against truncated division on exact integers. The
forms at the operand size fault on a quotient that does not fit; the byte and
word forms store its low half. IDIV of the least 128-bit dividend by -1 leaves
the host's own division to overflow.
-/
namespace X86Emu

open StateRules SignedWords

/-! ## The operands -/

/-- The sizes a division comes in: bytes, words, and the operand size. -/
inductive DivSize where
  | byte | word | operand
  deriving DecidableEq, Repr

/-- A division instruction, apart from its operand. -/
structure DivForm where
  signed : Bool
  size : DivSize
  deriving DecidableEq, Repr

def DivForm.inst (f : DivForm) (m : ModRm) : Inst :=
  match f.signed, f.size with
  | false, .byte => .divRm8 m
  | false, .word => .divRm16 m
  | false, .operand => .divRm32 m
  | true, .byte => .idivRm8 m
  | true, .word => .idivRm16 m
  | true, .operand => .idivRm32 m

def DivForm.width (f : DivForm) (s : Cpu) : Width :=
  match f.size with
  | .byte => .w8
  | .word => .w16
  | .operand => s.osize

namespace Cpu

/-- AL, AX, EAX or RAX: the low half of a dividend, and the place of the quotient. -/
def quotientReg (s : Cpu) (w : Width) : BitVec w.bits := (s.regs 0).setWidth w.bits

/-- AH, DX, EDX or RDX: the high half of a dividend, and the place of the remainder. -/
def remainderReg (s : Cpu) (w : Width) : BitVec w.bits :=
  if w = .w8 then (s.regs 0 >>> 8).setWidth w.bits else (s.regs 2).setWidth w.bits

def dividendWord (s : Cpu) (w : Width) : BitVec (w.bits + w.bits) :=
  s.remainderReg w ++ s.quotientReg w

end Cpu

section Forms

variable (f : DivForm) (m : ModRm) (s : Cpu)

/-- The divisor, as the instruction reads it. -/
def DivForm.divisorWord : BitVec (f.width s).bits :=
  (readRmW m (f.width s) s).1.setWidth (f.width s).bits

def DivForm.dividendValue : Int := valueOf f.signed (s.dividendWord (f.width s))
def DivForm.divisorValue : Int := valueOf f.signed (f.divisorWord m s)

/-- The quotient the instruction is to find, truncated toward zero. -/
def DivForm.quotient : Int := (f.dividendValue s).tdiv (f.divisorValue m s)

/-- The quotient fits the register it goes to. -/
def DivForm.QuotientFits : Prop := Fits f.signed (f.width s).bits (f.quotient m s)

def DivForm.RaisesDe : Prop := (execute (f.inst m) s).2.pendingException = some (0x00, none)

/-- What a division owes: #DE exactly when there is no quotient to store, with every register as it
was, and otherwise a quotient and remainder that give back the dividend. -/
structure DivisionExact : Prop where
  host : (execute (f.inst m) s).2.panicked = s.panicked
  faults : f.RaisesDe m s ↔ f.divisorValue m s = 0 ∨ ¬f.QuotientFits m s
  keeps : f.RaisesDe m s → (execute (f.inst m) s).2.regs = s.regs
  divides : ¬f.RaisesDe m s →
    let q := valueOf f.signed ((execute (f.inst m) s).2.quotientReg (f.width s))
    let r := valueOf f.signed ((execute (f.inst m) s).2.remainderReg (f.width s))
    f.dividendValue s = q * f.divisorValue m s + r ∧
      r.natAbs < (f.divisorValue m s).natAbs ∧ (r = 0 ∨ r.sign = (f.dividendValue s).sign)

/-- The condition under which it does. At the operand size the quotient is checked, and the one
dividend whose quotient overflows the host is the least of 128 bits over -1. -/
def DivForm.DividesRight : Prop :=
  match f.size with
  | .operand => ¬(f.signed = true ∧ s.osize = .w64 ∧ f.dividendValue s = -2 ^ 127 ∧
      f.divisorValue m s = -1)
  | _ => f.divisorValue m s = 0 ∨ f.QuotientFits m s

end Forms

/-! ## Reading the divisor -/

/-- The registers are as they were and the host has not aborted. -/
structure Loads (s t : Cpu) : Prop where
  regs : t.regs = s.regs
  panicked : t.panicked = s.panicked

instance : Std.Refl Loads := ⟨fun _ => ⟨rfl, rfl⟩⟩

instance : IsTrans Cpu Loads :=
  ⟨fun _ _ _ h g => ⟨g.regs.trans h.regs, g.panicked.trans h.panicked⟩⟩

theorem loads_raise (s : Cpu) (f : Fault) : Loads s (s.raise f) := by
  unfold Cpu.raise
  split <;> exact ⟨rfl, rfl⟩

theorem loads_applyPagingInner (linear : U64) (write fetch : Bool) :
    Keeps Loads (applyPagingInner linear write fetch) := by
  intro s
  unfold applyPagingInner
  split
  · exact loads_raise s _
  split
  · exact refl s
  dsimp only
  split
  · split
    · split
      · unfold Cpu.markAccessed
        split <;> exact ⟨rfl, rfl⟩
      · exact ⟨rfl, rfl⟩
    · exact loads_raise s _
  · split
    · split
      · exact loads_raise s _
      · exact ⟨rfl, rfl⟩
    · exact loads_raise s _

theorem loads_readRmW (m : ModRm) (w : Width) : Keeps Loads (readRmW m w) := by
  have haddr : Keeps Loads (rmAddr m false) :=
    .get_bind fun _ => .get_bind fun _ => loads_applyPagingInner _ _ _
  have hsplit (phys lin : U64) : Keeps Loads (readSplit phys lin w.bytes) :=
    (loads_applyPagingInner _ _ _).bind fun _ => .get_bind fun _ => .ite (.pure _) (.pure _)
  refine .ite (.get_bind fun _ => .pure _) (haddr.bind fun _ => .get_bind fun _ => ?_)
  exact .ite (.ite (.pure _) ((hsplit _ _).bind fun _ => .pure _)) (.pure _)

/-- Bytes assembled into a word stay below its size. -/
theorem splitBytes_lt (mem : Memory) (phys phys2 : U64) (first n : Nat) :
    ((List.range n).foldl (fun v i =>
      v ||| u128 (mem.readU8 (splitAddr phys phys2 first i)) <<< (8 * i)) (0 : U128)).toNat <
      2 ^ (8 * n) := by
  induction n with
  | zero => simp
  | succ n ih =>
    rw [List.range_succ, List.foldl_append]
    simp only [List.foldl_cons, List.foldl_nil]
    rw [BitVec.toNat_or]
    refine Nat.or_lt_two_pow (ih.trans (Nat.pow_lt_pow_right (by decide) (by omega))) ?_
    have hb := (mem.readU8 (splitAddr phys phys2 first n)).isLt
    calc (u128 (mem.readU8 (splitAddr phys phys2 first n)) <<< (8 * n)).toNat
        ≤ (u128 (mem.readU8 (splitAddr phys phys2 first n))).toNat <<< (8 * n) := by
          rw [BitVec.toNat_shiftLeft]
          exact Nat.mod_le _ _
      _ = (mem.readU8 (splitAddr phys phys2 first n)).toNat * 2 ^ (8 * n) := by
          rw [Nat.shiftLeft_eq, BitVec.toNat_setWidth_of_le (by decide)]
      _ < 2 ^ 8 * 2 ^ (8 * n) := Nat.mul_lt_mul_of_pos_right hb (Nat.two_pow_pos _)
      _ = 2 ^ (8 * (n + 1)) := by rw [← pow_add]; congr 1; omega

theorem bits_eq_bytes (w : Width) : w.bits = 8 * w.bytes := by cases w <;> rfl

theorem toNat_memReadW_lt (mem : Memory) (addr : U64) (w : Width) :
    (memReadW mem addr w).toNat < 2 ^ w.bits := by
  cases w with
  | w8 => exact (BitVec.toNat_setWidth_of_le (by decide)).trans_lt (mem.readU8 addr).isLt
  | w16 => exact (BitVec.toNat_setWidth_of_le (by decide)).trans_lt (mem.readU16 addr).isLt
  | w32 => exact (BitVec.toNat_setWidth_of_le (by decide)).trans_lt (mem.readU32 addr).isLt
  | w64 => exact (mem.readU64 addr).isLt

theorem toNat_regAt_lt (s : Cpu) (i : U8) (w : Width) : (s.regAt i w).toNat < 2 ^ w.bits := by
  unfold Cpu.regAt
  split
  · rename_i h
    subst h
    exact (BitVec.toNat_setWidth_of_le (by decide)).trans_lt (s.reg8Idx i).isLt
  · have hmask : w.mask.toNat < 2 ^ w.bits := by cases w <;> decide
    rw [Cpu.regW, BitVec.toNat_and]
    exact Nat.and_le_right.trans_lt hmask

/-- An operand is read zero-extended. -/
theorem toNat_readRmW_lt (m : ModRm) (w : Width) (s : Cpu) :
    (readRmW m w s).1.toNat < 2 ^ w.bits := by
  unfold readRmW
  split
  · exact toNat_regAt_lt s m.rm w
  · rw [bind_run, readRmAt, bind_run, get_run]
    dsimp only
    split
    · split
      · exact Nat.two_pow_pos _
      · rw [bind_run, pure_run, readSplit, bind_run, bind_run, get_run]
        dsimp only
        split
        · exact Nat.two_pow_pos _
        · rw [bits_eq_bytes]
          refine ((BitVec.toNat_setWidth _ _).trans_le (Nat.mod_le _ _)).trans_lt ?_
          exact splitBytes_lt _ _ _ _ w.bytes
    · exact toNat_memReadW_lt _ _ _

/-! ## Storing the results -/

/-- The machine after a division that stored the exact `q` and `r`, each reduced to the width. -/
structure Divided (t u : Cpu) (w : Width) (q r : Int) : Prop where
  quotient : u.quotientReg w = BitVec.ofInt w.bits q
  remainder : u.remainderReg w = BitVec.ofInt w.bits r
  pending : u.pendingException = none
  panicked : u.panicked = t.panicked

theorem divided_bytes {t : Cpu} (h : t.pendingException = none) {q r : U8} {x y : Int}
    (hq : q = BitVec.ofInt 8 x) (hr : r = BitVec.ofInt 8 y) :
    Divided t ((t.setReg8 .al q).setReg8 .ah r) .w8 x y := by
  have hal : t.setReg8 .al q = t.setRegWRaw 0 .w8 (u64 q) := by
    unfold Cpu.setReg8
    rw [h]
    rfl
  have hah : (t.setRegWRaw 0 .w8 (u64 q)).setReg8 .ah r =
      (t.setRegWRaw 0 .w8 (u64 q)).setHighByte 0 r := by
    unfold Cpu.setReg8
    rw [show (t.setRegWRaw 0 .w8 (u64 q)).pendingException = none from h]
    rfl
  rw [hal, hah]
  refine ⟨Eq.trans ?_ hq, Eq.trans ?_ hr, h, rfl⟩
  · change u8 ((t.regs 0 &&& ~~~(0xFF : U64) ||| u64 q &&& (0xFF : U64)) &&& ~~~(0xFF00 : U64) |||
      u64 r <<< 8) = q
    ext i hi
    interval_cases i <;> simp
  · change u8 (((t.regs 0 &&& ~~~(0xFF : U64) ||| u64 q &&& (0xFF : U64)) &&& ~~~(0xFF00 : U64) |||
      u64 r <<< 8) >>> 8) = r
    ext i hi
    interval_cases i <;> simp

theorem setWidth_mergeW (old v : U64) (w : Width) :
    (Cpu.mergeW old w v).setWidth w.bits = v.setWidth w.bits := by
  cases w with
  | w64 => rfl
  | w32 =>
    change u32 (v &&& 0xFFFFFFFF) = u32 v
    apply BitVec.eq_of_getLsbD_eq
    intro i hi
    rw [BitVec.getLsbD_setWidth, BitVec.getLsbD_and, getLsbD_low32, BitVec.getLsbD_setWidth]
    simp [hi]
  | w16 =>
    change u16 (old &&& ~~~(0xFFFF : U64) ||| v &&& 0xFFFF) = u16 v
    apply BitVec.eq_of_getLsbD_eq
    intro i hi
    interval_cases i <;> simp
  | w8 =>
    change u8 (old &&& ~~~(0xFF : U64) ||| v &&& 0xFF) = u8 v
    apply BitVec.eq_of_getLsbD_eq
    intro i hi
    interval_cases i <;> simp

theorem divided_wide {t : Cpu} (h : t.pendingException = none) {w : Width} (hw : w ≠ .w8)
    {q r : U64} {x y : Int} (hq : q.setWidth w.bits = BitVec.ofInt w.bits x)
    (hr : r.setWidth w.bits = BitVec.ofInt w.bits y) :
    Divided t ((t.setRegW 0 w q).setRegW 2 w r) w x y := by
  have h0 : t.setRegW 0 w q = t.setRegWRaw 0 w q := by
    unfold Cpu.setRegW
    rw [h]
    rfl
  have h2 : (t.setRegWRaw 0 w q).setRegW 2 w r = (t.setRegWRaw 0 w q).setRegWRaw 2 w r := by
    unfold Cpu.setRegW
    rw [show (t.setRegWRaw 0 w q).pendingException = none from h]
    rfl
  rw [h0, h2]
  refine ⟨(setWidth_mergeW (t.regs 0) q w).trans hq, ?_, h, rfl⟩
  rw [Cpu.remainderReg, if_neg hw]
  exact (setWidth_mergeW (t.regs 2) r w).trans hr

theorem divided_words {t : Cpu} (h : t.pendingException = none) {q r : U16} {x y : Int}
    (hq : q = BitVec.ofInt 16 x) (hr : r = BitVec.ofInt 16 y) :
    Divided t ((t.setReg16 .ax q).setReg16 .dx r) .w16 x y := by
  have narrow (v : U16) : (u64 v).setWidth Width.w16.bits = v :=
    (BitVec.setWidth_setWidth_of_le v (by decide)).trans (BitVec.setWidth_eq v)
  exact divided_wide h (by decide) ((narrow q).trans hq) ((narrow r).trans hr)

/-! ## The dividend -/

theorem dividendWord_of_loads {s t : Cpu} (h : Loads s t) (w : Width) :
    t.dividendWord w = s.dividendWord w := by
  unfold Cpu.dividendWord Cpu.remainderReg Cpu.quotientReg
  rw [h.regs]

theorem dividendWord_byte (s : Cpu) : s.dividendWord .w8 = s.reg16 .ax := by
  change u8 (s.regs 0 >>> 8) ++ u8 (s.regs 0) = u16 (s.regs 0)
  ext i hi
  simp
  grind

theorem dividendWord_word (s : Cpu) : s.dividendWord .w16 = s.reg16 .dx ++ s.reg16 .ax := rfl

theorem regW_eq (s : Cpu) (i : U8) (w : Width) :
    s.regW i w = u64 ((s.reg64 i).setWidth w.bits) := by
  have hmask : w.mask = BitVec.ofNat 64 (2 ^ w.bits - 1) := by cases w <;> rfl
  apply BitVec.eq_of_getLsbD_eq
  intro k hk
  rw [Cpu.regW, hmask, BitVec.getLsbD_and, getLsbD_ones, BitVec.getLsbD_setWidth,
    BitVec.getLsbD_setWidth]
  simp [hk, Bool.and_comm]

theorem dividend_eq (s : Cpu) {w : Width} (hw : w ≠ .w8) :
    s.dividend w = (s.dividendWord w).setWidth 128 := by
  have hhi : s.regW 2 w = u64 (s.remainderReg w) := by
    rw [regW_eq, Cpu.remainderReg, if_neg hw]
    rfl
  have hlo : s.regW 0 w = u64 (s.quotientReg w) := regW_eq s 0 w
  have hbits : w.bits ≤ 64 := by cases w <;> decide
  rw [Cpu.dividend, hhi, hlo, Cpu.dividendWord]
  apply BitVec.eq_of_getLsbD_eq
  intro i hi
  rw [BitVec.getLsbD_setWidth, BitVec.getLsbD_append, BitVec.getLsbD_or, BitVec.getLsbD_shiftLeft]
  by_cases hlow : i < w.bits
  · simp [hi, hlow, show i < 64 by omega]
  · have hq : (s.quotientReg w).getLsbD i = false := BitVec.getLsbD_of_ge _ _ (by omega)
    by_cases hin : i - w.bits < w.bits
    · simp [hi, hlow, hq, show i - w.bits < 64 by omega, show i - w.bits < 128 by omega]
    · have hr : (s.remainderReg w).getLsbD (i - w.bits) = false :=
        BitVec.getLsbD_of_ge _ _ (by omega)
      simp [hlow, hq, hr]

/-! ## The six forms -/

section Outcome

variable (f : DivForm) (m : ModRm) (s : Cpu)

/-- The division the machine type of the source cannot carry out. -/
def DivForm.HostOverflows : Prop :=
  f.signed = true ∧ (f.size = .operand → s.osize = .w64) ∧
    f.dividendValue s = -2 ^ ((f.width s).bits + (f.width s).bits - 1) ∧ f.divisorValue m s = -1

/-- How a division ends, `t` being the machine once its divisor is read and `u` at the end. -/
inductive DivOutcome (t u : Cpu) : Prop
  | zero (hv : f.divisorValue m s = 0) (hu : u = divideError t)
  | abort (hov : f.HostOverflows m s) (hu : u = { t with panicked := true })
  | wide (hv : f.divisorValue m s ≠ 0) (hov : ¬f.HostOverflows m s) (hsize : f.size = .operand)
    (hfit : ¬f.QuotientFits m s) (hu : u = divideError t)
  | stored (hv : f.divisorValue m s ≠ 0) (hov : ¬f.HostOverflows m s)
    (hfit : f.size = .operand → f.QuotientFits m s)
    (hu : Divided t u (f.width s) (f.quotient m s)
      ((f.dividendValue s).tmod (f.divisorValue m s)))

end Outcome

/-- The host divides exactly, or aborts on the one quotient its type does not hold. -/
theorem signedDivide_cases {n k : Nat} (hn : 0 < n) (h : n ≤ k) (a : BitVec k) (v : BitVec n)
    (commit : BitVec k → BitVec k → Cpu → Cpu) (t : Cpu) :
    (a.toInt = -2 ^ (k - 1) ∧ v.toInt = -1) ∧
        signedDivide a (v.signExtend k) commit t = { t with panicked := true } ∨
      ¬(a.toInt = -2 ^ (k - 1) ∧ v.toInt = -1) ∧ ∃ q r,
        signedDivide a (v.signExtend k) commit t = commit q r t ∧
          q.toInt = a.toInt.tdiv v.toInt ∧ q.setWidth n = BitVec.ofInt n (a.toInt.tdiv v.toInt) ∧
          r.setWidth n = BitVec.ofInt n (a.toInt.tmod v.toInt) := by
  have hone : v.signExtend k = -1 ↔ v.toInt = -1 := by
    rw [← BitVec.toInt_inj, BitVec.toInt_signExtend_of_le h]
    have hk : (-1 : BitVec k).toInt = -1 := by
      rw [show (-1 : BitVec k) = BitVec.ofInt k (-1) by rw [BitVec.ofInt_neg]; rfl]
      have hpow : (0 : Int) < 2 ^ (k - 1) := by positivity
      exact toInt_ofInt_of_fits (by omega) ⟨by omega, by omega⟩
    rw [hk]
  have hover : a = BitVec.intMin k ∧ v.signExtend k = -1 ↔ a.toInt = -2 ^ (k - 1) ∧ v.toInt = -1 :=
    and_congr (eq_intMin_iff (by omega) a) hone
  unfold signedDivide
  split
  · rename_i hov
    exact .inl ⟨hover.mp hov, rfl⟩
  · rename_i hov
    refine .inr ⟨fun hc => hov (hover.mpr hc), _, _, rfl, ?_, sdiv_narrow h hov, srem_narrow h a v⟩
    rw [BitVec.toInt_sdiv_of_ne_or_ne a _ (by tauto), BitVec.toInt_signExtend_of_le h]

section Forms

variable {m : ModRm} {s : Cpu}

theorem divisor_ne_zero {f : DivForm} {v : BitVec (f.width s).bits} (hv : f.divisorWord m s = v)
    (h0 : v ≠ 0) : f.divisorValue m s ≠ 0 :=
  fun he => h0 (hv ▸ valueOf_eq_zero.mp he)

theorem outcome_divRm8 (h : (readRmW m .w8 s).2.pendingException = none) :
    DivOutcome ⟨false, .byte⟩ m s (readRmW m .w8 s).2 (execute (.divRm8 m) s).2 := by
  have hax := dividendWord_of_loads (loads_readRmW m .w8 s) .w8
  obtain ⟨t, ht⟩ : ∃ t, t = (readRmW m .w8 s).2 := ⟨_, rfl⟩
  obtain ⟨v, hv⟩ : ∃ v : U8, (⟨false, .byte⟩ : DivForm).divisorWord m s = v := ⟨_, rfl⟩
  have hu : (execute (.divRm8 m) s).2 = if v = 0 then divideError t else
      (t.setReg8 .al (u8 (t.reg16 .ax / u16 v))).setReg8 .ah (u8 (t.reg16 .ax % u16 v)) := by
    rw [ht, ← hv]
    rfl
  rw [← ht, dividendWord_byte] at hax
  rw [← ht] at h ⊢
  have hval : (⟨false, .byte⟩ : DivForm).divisorValue m s = v.toNat := by rw [← hv]; rfl
  have hdvd : (⟨false, .byte⟩ : DivForm).dividendValue s = (t.reg16 .ax).toNat := by rw [hax]; rfl
  rw [hu]
  split
  · rename_i h0
    exact .zero (valueOf_eq_zero.mpr (hv.trans h0)) rfl
  · rename_i h0
    refine .stored (divisor_ne_zero hv h0) (fun hov => nomatch hov.1) (fun hsize => nomatch hsize) ?_
    rw [DivForm.quotient, hval, hdvd]
    exact divided_bytes h (udiv_narrow (by decide) _ v) (umod_narrow (by decide) _ v)

theorem outcome_divRm16 (h : (readRmW m .w16 s).2.pendingException = none) :
    DivOutcome ⟨false, .word⟩ m s (readRmW m .w16 s).2 (execute (.divRm16 m) s).2 := by
  have hax := dividendWord_of_loads (loads_readRmW m .w16 s) .w16
  obtain ⟨t, ht⟩ : ∃ t, t = (readRmW m .w16 s).2 := ⟨_, rfl⟩
  obtain ⟨v, hv⟩ : ∃ v : U16, (⟨false, .word⟩ : DivForm).divisorWord m s = v := ⟨_, rfl⟩
  obtain ⟨a, ha⟩ : ∃ a : U32, a = t.reg16 .dx ++ t.reg16 .ax := ⟨_, rfl⟩
  have hu : (execute (.divRm16 m) s).2 = if v = 0 then divideError t else
      (t.setReg16 .ax (u16 (a / u32 v))).setReg16 .dx (u16 (a % u32 v)) := by
    rw [ht, ← hv, ha, ht]
    rfl
  rw [← ht, dividendWord_word, ← ha] at hax
  rw [← ht] at h ⊢
  have hval : (⟨false, .word⟩ : DivForm).divisorValue m s = v.toNat := by rw [← hv]; rfl
  have hdvd : (⟨false, .word⟩ : DivForm).dividendValue s = a.toNat := by rw [hax]; rfl
  rw [hu]
  split
  · rename_i h0
    exact .zero (valueOf_eq_zero.mpr (hv.trans h0)) rfl
  · rename_i h0
    refine .stored (divisor_ne_zero hv h0) (fun hov => nomatch hov.1) (fun hsize => nomatch hsize) ?_
    rw [DivForm.quotient, hval, hdvd]
    exact divided_words h (udiv_narrow (by decide) a v) (umod_narrow (by decide) a v)

theorem outcome_idivRm8 (h : (readRmW m .w8 s).2.pendingException = none) :
    DivOutcome ⟨true, .byte⟩ m s (readRmW m .w8 s).2 (execute (.idivRm8 m) s).2 := by
  have hax := dividendWord_of_loads (loads_readRmW m .w8 s) .w8
  obtain ⟨t, ht⟩ : ∃ t, t = (readRmW m .w8 s).2 := ⟨_, rfl⟩
  obtain ⟨v, hv⟩ : ∃ v : U8, (⟨true, .byte⟩ : DivForm).divisorWord m s = v := ⟨_, rfl⟩
  have hu : (execute (.idivRm8 m) s).2 = if v = 0 then divideError t else
      signedDivide (t.reg16 .ax) (v.signExtend 16)
        (fun q r u => (u.setReg8 .al (u8 q)).setReg8 .ah (u8 r)) t := by
    rw [ht, ← hv]
    rfl
  rw [← ht, dividendWord_byte] at hax
  rw [← ht] at h ⊢
  have hval : (⟨true, .byte⟩ : DivForm).divisorValue m s = v.toInt := by rw [← hv]; rfl
  have hdvd : (⟨true, .byte⟩ : DivForm).dividendValue s = (t.reg16 .ax).toInt := by rw [hax]; rfl
  have hover : (⟨true, .byte⟩ : DivForm).HostOverflows m s ↔
      (t.reg16 .ax).toInt = -2 ^ (16 - 1) ∧ v.toInt = -1 := by
    rw [DivForm.HostOverflows, hval, hdvd]
    simp [DivForm.width, Width.bits]
  rw [hu]
  split
  · rename_i h0
    exact .zero (valueOf_eq_zero.mpr (hv.trans h0)) rfl
  · rename_i h0
    obtain ⟨hov, he⟩ | ⟨hov, q, r, he, -, hq, hr⟩ := signedDivide_cases (by decide) (by decide)
      (t.reg16 .ax) v (fun q r u => (u.setReg8 .al (u8 q)).setReg8 .ah (u8 r)) t
    · exact .abort (hover.mpr hov) he
    · refine .stored (divisor_ne_zero hv h0) (fun h => hov (hover.mp h))
        (fun hsize => nomatch hsize) ?_
      rw [DivForm.quotient, hval, hdvd, he]
      exact divided_bytes h hq hr

theorem outcome_idivRm16 (h : (readRmW m .w16 s).2.pendingException = none) :
    DivOutcome ⟨true, .word⟩ m s (readRmW m .w16 s).2 (execute (.idivRm16 m) s).2 := by
  have hax := dividendWord_of_loads (loads_readRmW m .w16 s) .w16
  obtain ⟨t, ht⟩ : ∃ t, t = (readRmW m .w16 s).2 := ⟨_, rfl⟩
  obtain ⟨v, hv⟩ : ∃ v : U16, (⟨true, .word⟩ : DivForm).divisorWord m s = v := ⟨_, rfl⟩
  obtain ⟨a, ha⟩ : ∃ a : U32, a = t.reg16 .dx ++ t.reg16 .ax := ⟨_, rfl⟩
  have hu : (execute (.idivRm16 m) s).2 = if v = 0 then divideError t else
      signedDivide a (v.signExtend 32)
        (fun q r u => (u.setReg16 .ax (u16 q)).setReg16 .dx (u16 r)) t := by
    rw [ht, ← hv, ha, ht]
    rfl
  rw [← ht, dividendWord_word, ← ha] at hax
  rw [← ht] at h ⊢
  have hval : (⟨true, .word⟩ : DivForm).divisorValue m s = v.toInt := by rw [← hv]; rfl
  have hdvd : (⟨true, .word⟩ : DivForm).dividendValue s = a.toInt :=
    (valueOf_true (s.dividendWord .w16)).trans (congrArg (BitVec.toInt (n := 32)) hax.symm)
  have hover : (⟨true, .word⟩ : DivForm).HostOverflows m s ↔
      a.toInt = -2 ^ (32 - 1) ∧ v.toInt = -1 := by
    rw [DivForm.HostOverflows, hval, hdvd]
    simp [DivForm.width, Width.bits]
  rw [hu]
  split
  · rename_i h0
    exact .zero (valueOf_eq_zero.mpr (hv.trans h0)) rfl
  · rename_i h0
    obtain ⟨hov, he⟩ | ⟨hov, q, r, he, -, hq, hr⟩ := signedDivide_cases (by decide) (by decide)
      a v (fun q r u => (u.setReg16 .ax (u16 q)).setReg16 .dx (u16 r)) t
    · exact .abort (hover.mpr hov) he
    · refine .stored (divisor_ne_zero hv h0) (fun h => hov (hover.mp h))
        (fun hsize => nomatch hsize) ?_
      rw [DivForm.quotient, hval, hdvd, he]
      exact divided_words h hq hr

theorem osize_ne_w8 (s : Cpu) : s.osize ≠ .w8 := by
  unfold Cpu.osize
  split
  · decide
  · split <;> decide

theorem setWidth_of_lt {n : Nat} {v : U64} (k : Nat) (h : v.toNat < 2 ^ n) :
    v.setWidth k = (v.setWidth n).setWidth k := by
  apply BitVec.eq_of_toNat_eq
  rw [BitVec.toNat_setWidth, BitVec.toNat_setWidth, BitVec.toNat_setWidth, Nat.mod_eq_of_lt h]

theorem outcome_divRm32 (h : (readRmW m s.osize s).2.pendingException = none) :
    DivOutcome ⟨false, .operand⟩ m s (readRmW m s.osize s).2 (execute (.divRm32 m) s).2 := by
  have hw := osize_ne_w8 s
  have hbits : s.osize.bits ≤ 64 := by cases s.osize <;> decide
  have hax := dividendWord_of_loads (loads_readRmW m s.osize s) s.osize
  have hlt := toNat_readRmW_lt m s.osize s
  obtain ⟨t, ht⟩ : ∃ t, t = (readRmW m s.osize s).2 := ⟨_, rfl⟩
  obtain ⟨v, hv⟩ : ∃ v : U64, v = (readRmW m s.osize s).1 := ⟨_, rfl⟩
  have hword : (⟨false, .operand⟩ : DivForm).divisorWord m s = v.setWidth s.osize.bits := by
    rw [hv]
    rfl
  have hu : (execute (.divRm32 m) s).2 = if v = 0 then divideError t else
      if t.dividend s.osize / u128 v > u128 s.osize.mask then divideError t
      else (t.setRegW 0 s.osize (u64 (t.dividend s.osize / u128 v))).setRegW 2 s.osize
        (u64 (t.dividend s.osize % u128 v)) := by
    rw [ht, hv]
    rfl
  rw [← ht] at h hax ⊢
  rw [← hv] at hlt
  have hwide : u128 v = (v.setWidth s.osize.bits).setWidth 128 := setWidth_of_lt 128 hlt
  have hzero : v = 0 ↔ v.setWidth s.osize.bits = 0 := by
    rw [← BitVec.toNat_inj, ← BitVec.toNat_inj, BitVec.toNat_setWidth, Nat.mod_eq_of_lt hlt]
    simp
  have hval : (⟨false, .operand⟩ : DivForm).divisorValue m s =
      (v.setWidth s.osize.bits).toNat := by
    rw [← hword]
    rfl
  have hdvd : (⟨false, .operand⟩ : DivForm).dividendValue s = (t.dividend s.osize).toNat := by
    rw [dividend_eq t hw, hax, BitVec.toNat_setWidth_of_le (by omega)]
    rfl
  rw [hu, hwide]
  obtain ⟨a, ha⟩ : ∃ a, a = t.dividend s.osize := ⟨_, rfl⟩
  obtain ⟨d, hd⟩ : ∃ d, d = v.setWidth s.osize.bits := ⟨_, rfl⟩
  rw [← ha] at hdvd ⊢
  rw [← hd] at hword hzero hval ⊢
  have hq : (⟨false, .operand⟩ : DivForm).quotient m s = ((a / d.setWidth 128).toNat : Int) := by
    rw [DivForm.quotient, hval, hdvd, ← Int.ofNat_tdiv, BitVec.toNat_udiv,
      BitVec.toNat_setWidth_of_le (by omega)]
  have hfit : (⟨false, .operand⟩ : DivForm).QuotientFits m s ↔
      ¬a / d.setWidth 128 > u128 s.osize.mask := by
    have hmask : (u128 s.osize.mask).toNat = 2 ^ s.osize.bits - 1 := by cases s.osize <;> rfl
    have hpow := Nat.two_pow_pos s.osize.bits
    rw [DivForm.QuotientFits, hq, gt_iff_lt, BitVec.lt_def, hmask]
    constructor
    · rintro ⟨-, hlt⟩
      have : (a / d.setWidth 128).toNat < 2 ^ s.osize.bits := by exact_mod_cast hlt
      omega
    · intro hle
      exact ⟨by omega, by exact_mod_cast (by omega : (a / d.setWidth 128).toNat < 2 ^ s.osize.bits)⟩
  split
  · rename_i h0
    exact .zero (valueOf_eq_zero.mpr (hword.trans (hzero.mp h0))) rfl
  · rename_i h0
    have hne := divisor_ne_zero hword fun hd0 => h0 (hzero.mpr hd0)
    split
    · rename_i hbig
      exact .wide hne (fun hov => nomatch hov.1) rfl (fun hf => hfit.mp hf hbig) rfl
    · rename_i hsmall
      refine .stored hne (fun hov => nomatch hov.1) (fun _ => hfit.mpr hsmall) ?_
      rw [DivForm.quotient, hval, hdvd]
      refine divided_wide h hw ?_ ?_
      · rw [BitVec.setWidth_setWidth_of_le _ hbits]
        exact udiv_narrow (by omega) a d
      · rw [BitVec.setWidth_setWidth_of_le _ hbits]
        exact umod_narrow (by omega) a d

theorem sext_eq (v : U64) (w : Width) : sext v w = (v.setWidth w.bits).signExtend 64 := by
  cases w with
  | w8 | w16 | w32 => rfl
  | w64 => exact ((BitVec.signExtend_eq _).trans (BitVec.setWidth_eq v)).symm

theorem signExtend_sext (v : U64) (w : Width) :
    (sext v w).signExtend 128 = (v.setWidth w.bits).signExtend 128 := by
  have hbits : w.bits ≤ 64 := by cases w <;> decide
  rw [sext_eq, ← BitVec.toInt_inj, BitVec.toInt_signExtend_of_le (by decide),
    BitVec.toInt_signExtend_of_le hbits, BitVec.toInt_signExtend_of_le (by omega)]

/-- The dividend of IDIV, sign-extended from twice the operand size. -/
theorem signed_dividend (s : Cpu) {w : Width} (hw : w ≠ .w8) :
    (if w = .w64 then s.dividend w
      else (s.dividend w <<< (128 - 2 * w.bits)).sshiftRight (128 - 2 * w.bits)) =
      (s.dividendWord w).signExtend 128 := by
  rw [dividend_eq s hw]
  split
  · rename_i h
    subst h
    exact (BitVec.setWidth_eq _).trans (BitVec.signExtend_eq _).symm
  · have hbits : w.bits ≤ 64 := by cases w <;> decide
    rw [two_mul]
    exact shift_signExtend (by omega) _

/-- The body of IDIV at the operand size, once its divisor is read. -/
def idivStore (w : Width) (q r : U128) (u : Cpu) : Cpu :=
  if q ≠ (sext (u64 q) w).signExtend 128 then divideError u
  else (u.setRegW 0 w (u64 q)).setRegW 2 w (u64 r)

theorem outcome_idivRm32 (h : (readRmW m s.osize s).2.pendingException = none) :
    DivOutcome ⟨true, .operand⟩ m s (readRmW m s.osize s).2 (execute (.idivRm32 m) s).2 := by
  have hw := osize_ne_w8 s
  have hbits : s.osize.bits ≤ 64 := by cases s.osize <;> decide
  have hpos : 0 < s.osize.bits := by cases s.osize <;> decide
  have hax := dividendWord_of_loads (loads_readRmW m s.osize s) s.osize
  obtain ⟨t, ht⟩ : ∃ t, t = (readRmW m s.osize s).2 := ⟨_, rfl⟩
  obtain ⟨v, hv⟩ : ∃ v : U64, v = (readRmW m s.osize s).1 := ⟨_, rfl⟩
  have hword : (⟨true, .operand⟩ : DivForm).divisorWord m s = v.setWidth s.osize.bits := by
    rw [hv]
    rfl
  have hu : (execute (.idivRm32 m) s).2 = if sext v s.osize = 0 then divideError t else
      signedDivide (if s.osize = .w64 then t.dividend s.osize
        else (t.dividend s.osize <<< (128 - 2 * s.osize.bits)).sshiftRight
          (128 - 2 * s.osize.bits)) ((sext v s.osize).signExtend 128) (idivStore s.osize) t := by
    rw [ht, hv]
    rfl
  rw [← ht] at h hax ⊢
  have hzero : sext v s.osize = 0 ↔ v.setWidth s.osize.bits = 0 := by
    rw [sext_eq, ← BitVec.toInt_inj, BitVec.toInt_signExtend_of_le hbits, ← BitVec.toInt_inj]
    simp
  have hval : (⟨true, .operand⟩ : DivForm).divisorValue m s =
      (v.setWidth s.osize.bits).toInt := by
    rw [← hword]
    rfl
  rw [hu, signed_dividend t hw, hax, signExtend_sext]
  obtain ⟨a, ha⟩ : ∃ a, a = (s.dividendWord s.osize).signExtend 128 := ⟨_, rfl⟩
  obtain ⟨d, hd⟩ : ∃ d, d = v.setWidth s.osize.bits := ⟨_, rfl⟩
  have hdvd : (⟨true, .operand⟩ : DivForm).dividendValue s = a.toInt := by
    rw [ha, BitVec.toInt_signExtend_of_le (by omega)]
    rfl
  rw [← ha]
  rw [← hd] at hword hzero hval ⊢
  have hover : (⟨true, .operand⟩ : DivForm).HostOverflows m s ↔
      a.toInt = -2 ^ (128 - 1) ∧ d.toInt = -1 := by
    rw [DivForm.HostOverflows, hval, hdvd]
    constructor
    · rintro ⟨-, h64, hmin, hone⟩
      rw [show DivForm.width ⟨true, .operand⟩ s = .w64 from h64 rfl] at hmin
      exact ⟨hmin, hone⟩
    · rintro ⟨hmin, hone⟩
      have h64 : s.osize = .w64 := by
        have hlo := (signedFits_toInt (s.dividendWord s.osize)).1
        rw [← BitVec.toInt_signExtend_of_le (by omega : _ ≤ 128), ← ha, hmin] at hlo
        by_contra hne
        have hsmall : s.osize.bits ≤ 32 := by
          revert hne
          cases s.osize <;> decide
        have hpow : (2 : Int) ^ (s.osize.bits + s.osize.bits - 1) ≤ 2 ^ 63 :=
          pow_le_pow_right₀ (by decide) (by omega)
        omega
      refine ⟨rfl, fun _ => h64, ?_, hone⟩
      rw [show DivForm.width ⟨true, .operand⟩ s = .w64 from h64]
      exact hmin
  split
  · rename_i h0
    exact .zero (valueOf_eq_zero.mpr (hword.trans (hzero.mp h0))) rfl
  · rename_i h0
    have hne := divisor_ne_zero hword fun hd0 => h0 (hzero.mpr hd0)
    obtain ⟨hov, he⟩ | ⟨hov, q, r, he, hquot, hq, hr⟩ :=
      signedDivide_cases hpos (by omega) a d (idivStore s.osize) t
    · exact .abort (hover.mpr hov) he
    · have hnot : ¬(⟨true, .operand⟩ : DivForm).HostOverflows m s := fun hc => hov (hover.mp hc)
      have hfit : (⟨true, .operand⟩ : DivForm).QuotientFits m s ↔
          q = (sext (u64 q) s.osize).signExtend 128 := by
        rw [signExtend_sext, BitVec.setWidth_setWidth_of_le _ hbits,
          eq_signExtend_iff hpos (by omega), hquot, DivForm.QuotientFits, DivForm.quotient, hval, hdvd]
        rfl
      rw [he, idivStore]
      split
      · rename_i hbig
        exact .wide hne hnot rfl (fun hf => hbig (hfit.mp hf)) rfl
      · rename_i hsmall
        refine .stored hne hnot (fun _ => hfit.mpr (not_not.mp hsmall)) ?_
        rw [DivForm.quotient, hval, hdvd]
        refine divided_wide h hw ?_ ?_
        · rw [BitVec.setWidth_setWidth_of_le _ hbits]
          exact hq
        · rw [BitVec.setWidth_setWidth_of_le _ hbits]
          exact hr

end Forms

/-- How a division ends, whatever its form. -/
theorem divOutcome (f : DivForm) (m : ModRm) (s : Cpu)
    (h : (readRmW m (f.width s) s).2.pendingException = none) :
    DivOutcome f m s (readRmW m (f.width s) s).2 (execute (f.inst m) s).2 := by
  obtain ⟨signed, size⟩ := f
  cases signed with
  | false =>
    cases size with
    | byte => exact outcome_divRm8 h
    | word => exact outcome_divRm16 h
    | operand => exact outcome_divRm32 h
  | true =>
    cases size with
    | byte => exact outcome_idivRm8 h
    | word => exact outcome_idivRm16 h
    | operand => exact outcome_idivRm32 h

/-! ## When a division is exact -/

section Exact

variable {f : DivForm} {m : ModRm} {s : Cpu}

/-- The quotient the host cannot hold does not fit the destination either. -/
theorem not_fits_of_hostOverflows (h : f.HostOverflows m s) : ¬f.QuotientFits m s := by
  obtain ⟨hsigned, -, hmin, hone⟩ := h
  have hpos : 0 < (f.width s).bits := by cases f.width s <;> decide
  have hq : f.quotient m s = 2 ^ ((f.width s).bits + (f.width s).bits - 1) := by
    rw [DivForm.quotient, hmin, hone, Int.tdiv_neg, Int.tdiv_one, neg_neg]
  rw [DivForm.QuotientFits, hq, Fits, if_pos hsigned]
  rintro ⟨-, hlt⟩
  exact absurd hlt (not_lt.mpr (pow_le_pow_right₀ (by decide) (by omega)))

theorem dividesRight_iff : f.DividesRight m s ↔
    ¬f.HostOverflows m s ∧
      (f.divisorValue m s ≠ 0 → f.size ≠ .operand → f.QuotientFits m s) := by
  have narrow : (f.divisorValue m s = 0 ∨ f.QuotientFits m s) ↔ ¬f.HostOverflows m s ∧
      (f.divisorValue m s ≠ 0 → f.QuotientFits m s) := by
    constructor
    · rintro (hz | hfit)
      · exact ⟨fun hc => absurd (hc.2.2.2.symm.trans hz) (by decide), fun hne => absurd hz hne⟩
      · exact ⟨fun hc => not_fits_of_hostOverflows hc hfit, fun _ => hfit⟩
    · rintro ⟨-, hfit⟩
      exact or_iff_not_imp_left.mpr hfit
  obtain ⟨signed, size⟩ := f
  cases size with
  | byte | word => simpa [DivForm.DividesRight] using narrow
  | operand =>
    have hover : DivForm.HostOverflows ⟨signed, .operand⟩ m s ↔ signed = true ∧ s.osize = .w64 ∧
        DivForm.dividendValue ⟨signed, .operand⟩ s = -2 ^ 127 ∧
          DivForm.divisorValue ⟨signed, .operand⟩ m s = -1 := by
      constructor
      · rintro ⟨hs, h64, hmin, hone⟩
        rw [show DivForm.width ⟨signed, .operand⟩ s = .w64 from h64 rfl] at hmin
        exact ⟨hs, h64 rfl, hmin, hone⟩
      · rintro ⟨hs, h64, hmin, hone⟩
        refine ⟨hs, fun _ => h64, ?_, hone⟩
        rw [show DivForm.width ⟨signed, .operand⟩ s = .w64 from h64]
        exact hmin
    rw [hover]
    simp [DivForm.DividesRight]

variable (h : (readRmW m (f.width s) s).2.pendingException = none)
include h

theorem exact_of_dividesRight (hr : f.DividesRight m s) : DivisionExact f m s := by
  obtain ⟨hov, hfit⟩ := dividesRight_iff.mp hr
  have ht := loads_readRmW m (f.width s) s
  have raised {u : Cpu} (hu : u = divideError (readRmW m (f.width s) s).2) :
      u.pendingException = some (0x00, none) ∧ u.regs = s.regs ∧ u.panicked = s.panicked := by
    rw [hu]
    exact ⟨rfl, ht.regs, ht.panicked⟩
  cases divOutcome f m s h with
  | zero hv hu =>
    obtain ⟨hp, hregs, hpanic⟩ := raised hu
    exact ⟨hpanic, iff_of_true hp (.inl hv), fun _ => hregs, fun hn => absurd hp hn⟩
  | abort hc hu => exact absurd hc hov
  | wide hv hc hsize hnot hu =>
    obtain ⟨hp, hregs, hpanic⟩ := raised hu
    exact ⟨hpanic, iff_of_true hp (.inr hnot), fun _ => hregs, fun hn => absurd hp hn⟩
  | stored hv hc hsize hd =>
    have hq : f.QuotientFits m s := by
      by_cases hop : f.size = .operand
      · exact hsize hop
      · exact hfit hv hop
    have hnone : ¬f.RaisesDe m s := by
      rw [DivForm.RaisesDe, hd.pending]
      exact nofun
    have hpos : 0 < (f.width s).bits := by cases f.width s <;> decide
    refine ⟨hd.panicked.trans ht.panicked, iff_of_false hnone (by tauto), fun hr => absurd hr hnone,
      fun _ => ?_⟩
    have hrem : Fits f.signed (f.width s).bits ((f.dividendValue s).tmod (f.divisorValue m s)) := by
      refine fits_tmod (fun hu => ?_) hv (fits_valueOf _ _)
      rw [DivForm.dividendValue, hu, valueOf_false]
      omega
    dsimp only
    rw [hd.quotient, hd.remainder, valueOf_ofInt hpos hq, valueOf_ofInt hpos hrem]
    exact ⟨(Int.tdiv_mul_add_tmod _ _).symm, natAbs_tmod_lt _ hv, sign_tmod _ _⟩

theorem dividesRight_of_exact (he : DivisionExact f m s) : f.DividesRight m s := by
  rw [dividesRight_iff]
  have quiet {u : Cpu} (hu : (execute (f.inst m) s).2 = u) (hp : u.pendingException = none)
      (hnot : ¬f.QuotientFits m s) : False := by
    have hde : f.RaisesDe m s := he.faults.mpr (.inr hnot)
    rw [DivForm.RaisesDe, hu, hp] at hde
    cases hde
  cases divOutcome f m s h with
  | zero hv hu =>
    exact ⟨fun hc => absurd (hc.2.2.2.symm.trans hv) (by decide), fun hne => absurd hv hne⟩
  | abort hc hu => exact (quiet hu h (not_fits_of_hostOverflows hc)).elim
  | wide hv hc hsize hnot hu => exact ⟨hc, fun _ hop => absurd hsize hop⟩
  | stored hv hc hsize hd =>
    refine ⟨hc, fun _ _ => ?_⟩
    by_contra hnot
    exact quiet rfl hd.pending hnot

/-- A division at the operand size is exact unless the host's own quotient overflows; a byte or word
division is exact when the divisor is zero or the quotient fits. -/
theorem division_exact_iff : DivisionExact f m s ↔ f.DividesRight m s :=
  ⟨dividesRight_of_exact h, exact_of_dividesRight h⟩

end Exact

/-- BL, BX, EBX or RBX as the operand. -/
def inBx : ModRm where
  modField := 3
  reg := 6
  rm := 3
  rmRaw := 3

/-- A machine with these three registers. -/
def dividing (rax rdx rbx : U64) : Cpu :=
  { Cpu.withRam (2 ^ 16) Memory.segment_le 0 with
    regs := fun i => if i = 0 then rax else if i = 2 then rdx else if i = 3 then rbx else 0 }

/-- 0x1000 divided by one as bytes leaves a zero quotient and no fault; the least 128-bit dividend
over -1 aborts the host. -/
theorem division_not_exact :
    (execute (.divRm8 inBx) (dividing 0x1000 0 1)).2.pendingException = none ∧
      (execute (.divRm8 inBx) (dividing 0x1000 0 1)).2.quotientReg .w8 = 0 ∧
      ¬DivisionExact ⟨false, .byte⟩ inBx (dividing 0x1000 0 1) ∧
      (execute (.idivRm32 inBx) { dividing 0 (1 <<< 63) (-1) with rexW := true }).2.panicked =
        true := by
  refine ⟨rfl, rfl, fun h => ?_, by decide +kernel⟩
  have hde : DivForm.RaisesDe ⟨false, .byte⟩ inBx (dividing 0x1000 0 1) :=
    h.faults.mpr (.inr fun hf => absurd hf.2 (by decide +kernel))
  cases hde

/-- 100 over 7 as words is divided exactly. -/
theorem division_exact_word : DivisionExact ⟨true, .word⟩ inBx (dividing 100 0 7) :=
  (division_exact_iff (f := ⟨true, .word⟩) (m := inBx) (s := dividing 100 0 7) rfl).mpr
    (.inr ⟨by decide +kernel, by decide +kernel⟩)

end X86Emu
