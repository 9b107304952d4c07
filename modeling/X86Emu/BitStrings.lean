import X86Emu.AluFlags
import X86Emu.MemoryWidth
import X86Emu.WalkMarks
import X86Emu.X87Operands

/-!
# Bit strings

BT, BTS, BTR and BTC with a memory operand translate the operand's own address and displace the
physical one. What they read and change is one bit, and here is where it is the addressed one.
-/
namespace X86Emu

open StateRules Memory

/-! ## One bit of a word and of a byte -/

/-- What the instruction makes of the bit it selects. -/
def BitOp.onBit : BitOp → Bool → Bool
  | .test, old => old
  | .set, _ => true
  | .reset, _ => false
  | .complement, old => !old

/-- The operation on bit `b` of a byte. -/
def BitOp.onByte (op : BitOp) (b : Nat) (v : U8) : U8 :=
  if op.onBit (v.getLsbD b) then v ||| (1 : U8) <<< b else v &&& ~~~((1 : U8) <<< b)

theorem getLsbD_one_shiftLeft {n b i : Nat} (hi : i < n) :
    ((1 : BitVec n) <<< b).getLsbD i = decide (i = b) := by
  rw [one_shiftLeft, BitVec.getLsbD_twoPow]
  by_cases h : i = b
  · simp [← h, hi]
  · simp [h, Ne.symm h]

theorem getLsbD_applyBit (v : U64) {b i : Nat} (op : BitOp) (hi : i < 64) :
    (applyBit v b op).getLsbD i = if i = b then op.onBit (v.getLsbD i) else v.getLsbD i := by
  have hbit := getLsbD_one_shiftLeft (b := b) hi
  cases op with
  | test => simp only [applyBit, BitOp.onBit, ite_self]
  | set =>
    rw [applyBit, BitVec.getLsbD_or, hbit]
    by_cases h : i = b <;> simp [h, BitOp.onBit]
  | reset =>
    rw [applyBit, BitVec.getLsbD_and, BitVec.getLsbD_not, hbit]
    by_cases h : i = b
    · simp [h, BitOp.onBit]
    · simp [h, hi]
  | complement =>
    rw [applyBit, BitVec.getLsbD_xor, hbit]
    by_cases h : i = b <;> simp [h, BitOp.onBit]

theorem getLsbD_onByte (v : U8) {b i : Nat} (op : BitOp) (hi : i < 8) :
    (op.onByte b v).getLsbD i = if i = b then op.onBit (v.getLsbD i) else v.getLsbD i := by
  have hbit := getLsbD_one_shiftLeft (b := b) hi
  rw [BitOp.onByte]
  by_cases h : i = b
  · subst h
    rw [if_pos rfl]
    split <;> rename_i hop <;> simp only [hop, BitVec.getLsbD_or, BitVec.getLsbD_and,
      BitVec.getLsbD_not, hbit] <;> simp
  · rw [if_neg h]
    split <;> simp only [BitVec.getLsbD_or, BitVec.getLsbD_and, BitVec.getLsbD_not, hbit] <;>
      simp [h, hi]

theorem getLsbD_byteOf {n : Nat} (v : BitVec n) (k : Nat) {i : Nat} (hi : i < 8) :
    (byteOf v k).getLsbD i = v.getLsbD (8 * k + i) := by
  simp [byteOf, hi]

/-- The bit of a word is a bit of one of its bytes. -/
theorem getLsbD_of_byte {n : Nat} (v : BitVec n) (b : Nat) :
    v.getLsbD b = (byteOf v (b / 8)).getLsbD (b % 8) := by
  rw [getLsbD_byteOf v _ (Nat.mod_lt b (by decide)), Nat.div_add_mod]

theorem byteOf_applyBit (v : U64) {b k : Nat} (op : BitOp) (hk : k < 8) :
    byteOf (applyBit v b op) k =
      if k = b / 8 then op.onByte (b % 8) (byteOf v k) else byteOf v k := by
  refine BitVec.eq_of_getLsbD_eq fun i hi => ?_
  rw [getLsbD_byteOf _ _ hi, getLsbD_applyBit _ op (by omega)]
  by_cases hkb : k = b / 8
  · rw [if_pos hkb, getLsbD_onByte _ op hi, getLsbD_byteOf _ _ hi]
    have hbit : 8 * k + i = b ↔ i = b % 8 := by omega
    simp only [hbit]
  · rw [if_neg hkb, getLsbD_byteOf _ _ hi, if_neg (by omega)]

/-! ## A wide access as its bytes -/

theorem stored_writeBytes (m : Memory) (a : U64) (n : Nat) (hn : n ≤ 2 ^ 64) (f : Nat → U8) :
    Stored m (m.writeBytes a n f) a n f := by
  induction n with
  | zero => exact Stored.refl m a f
  | succ n ih =>
    rw [writeBytes_succ]
    refine ((ih (by omega)).append (stored_writeU8 _ _ (f n)) hn).congr fun i hi => ?_
    by_cases h : i < n
    · exact if_pos h
    · rw [if_neg h, show n = i by omega]

/-- The wide form of an operand width. -/
def Width.wide : Width → Wide
  | .w64 => .w8
  | .w32 => .w4
  | _ => .w2

/-- Where a wide access is not its byte accesses. -/
def OnSeam (ram : Nat) (a : U64) (w : Width) : Prop :=
  Seam ram a.toNat w.wide ∨ 2 ^ 64 < a.toNat + w.bytes

/-- The operand at `a` is read and written byte by byte. -/
structure Bytewise (m : Memory) (a : U64) (w : Width) : Prop where
  read : ∀ k < w.bytes, byteOf (memReadW m a w) k = m.readU8 (a + BitVec.ofNat 64 k)
  write : ∀ v, Stored m (memWriteW a w v m) a w.bytes (byteOf v)

theorem byteOf_narrow {n l : Nat} (v : BitVec l) {k : Nat} (hk : 8 * k + 8 ≤ n) :
    byteOf (v.setWidth n) k = byteOf v k := by
  refine BitVec.eq_of_getLsbD_eq fun i hi => ?_
  rw [getLsbD_byteOf _ _ hi, getLsbD_byteOf _ _ hi, BitVec.getLsbD_setWidth]
  simp [show 8 * k + i < n by omega]

theorem byteOf_widen {n l : Nat} (v : BitVec n) {k : Nat} (hn : n ≤ l) :
    byteOf (v.setWidth l) k = byteOf v k := by
  refine BitVec.eq_of_getLsbD_eq fun i hi => ?_
  rw [getLsbD_byteOf _ _ hi, getLsbD_byteOf _ _ hi, BitVec.getLsbD_setWidth]
  by_cases h : 8 * k + i < l
  · simp [h]
  · rw [BitVec.getLsbD_of_ge v _ (by omega)]
    simp

theorem byteOf_beyond {k : Nat} (v : BitVec k) {i : Nat} (h : k ≤ 8 * i) : byteOf v i = 0 := by
  refine BitVec.eq_of_getLsbD_eq fun j hj => ?_
  rw [getLsbD_byteOf _ _ hj, BitVec.getLsbD_of_ge v _ (by omega)]
  exact BitVec.getLsbD_zero.symm

theorem byteOf_le16 (lo hi : U8) : byteOf (le16 lo hi) 0 = lo ∧ byteOf (le16 lo hi) 1 = hi := by
  constructor <;>
  · ext i hi
    simp [le16, byteOf]
    grind

theorem byteOf_bytes4 (m : Memory) (a : U64) {k : Nat} (hk : k < 4) :
    byteOf (m.bytes4 a) k = m.readU8 (a + BitVec.ofNat 64 k) := by
  obtain ⟨h0, h1, h2, h3⟩ := byteOf_le32 (m.readU8 a) (m.readU8 (a + 1)) (m.readU8 (a + 2))
    (m.readU8 (a + 3))
  unfold bytes4
  interval_cases k
  · rw [h0, BitVec.add_zero]
  · exact h1
  · exact h2
  · exact h3

theorem byteOf_bytes8 (m : Memory) (a : U64) {k : Nat} (hk : k < 8) :
    byteOf (m.bytes8 a) k = m.readU8 (a + BitVec.ofNat 64 k) := by
  unfold bytes8
  by_cases h4 : k < 4
  · exact (byteOf_le64 _ _ h4).1.trans (byteOf_bytes4 m a h4)
  · obtain ⟨j, rfl⟩ : ∃ j, k = 4 + j := ⟨k - 4, by omega⟩
    refine (byteOf_le64 _ _ (by omega)).2.trans ?_
    rw [byteOf_bytes4 _ _ (by omega), BitVec.ofNat_add, ← BitVec.add_assoc]
    rfl

theorem bytewise (m : Memory) {a : U64} {w : Width} (hw : w ≠ .w8) (h : ¬ OnSeam m.ramSize a w) :
    Bytewise m a w := by
  rw [OnSeam, not_or, Nat.not_lt] at h
  obtain ⟨hseam, hwrap⟩ := h
  have hbytes : w.wide.bytes = w.bytes := by cases w <;> first | rfl | exact absurd rfl hw
  have hagree := bytesAgree (m := m) (a := a) w.wide (by rw [hbytes]; exact hwrap) hseam
  cases w with
  | w8 => exact absurd rfl hw
  | w16 =>
    refine ⟨fun k hk => ?_, fun v => ?_⟩
    · have hk2 : k < 2 := hk
      refine (byteOf_widen _ (by decide)).trans ?_
      rw [hagree.1]
      obtain ⟨h0, h1⟩ := byteOf_le16 (m.readU8 a) (m.readU8 (a + 1))
      interval_cases k
      · rw [h0, BitVec.add_zero]
      · exact h1
    · refine Stored.congr ?_ fun k hk => byteOf_narrow v (show 8 * k + 8 ≤ 16 from ?_)
      · rw [show memWriteW a .w16 v m = m.writeU16 a (u16 v) from rfl, hagree.2]
        exact stored_writeBytes m a 2 (by decide) _
      · have hk2 : k < 2 := hk
        omega
  | w32 =>
    refine ⟨fun k hk => ?_, fun v => ?_⟩
    · refine (byteOf_widen _ (by decide)).trans ?_
      rw [hagree.1]
      exact byteOf_bytes4 m a hk
    · refine Stored.congr ?_ fun k hk => byteOf_narrow v (show 8 * k + 8 ≤ 32 from ?_)
      · rw [show memWriteW a .w32 v m = m.writeU32 a (u32 v) from rfl, hagree.2]
        exact stored_writeBytes m a 4 (by decide) _
      · have hk4 : k < 4 := hk
        omega
  | w64 =>
    refine ⟨fun k hk => ?_, fun v => ?_⟩
    · exact (congrArg (byteOf · k) hagree.1).trans (byteOf_bytes8 m a hk)
    · rw [show memWriteW a .w64 v m = m.writeU64 a v from rfl, hagree.2]
      exact stored_writeBytes m a 8 (by decide) _

section Selected

variable {m : Memory} {a : U64} {w : Width} {b : Nat}

theorem Width.bytes_le_word (w : Width) : w.bytes ≤ 8 := by cases w <;> decide

theorem Bytewise.bit (h : Bytewise m a w) (hb : b < 8 * w.bytes) :
    (memReadW m a w).getLsbD b = (m.readU8 (a + BitVec.ofNat 64 (b / 8))).getLsbD (b % 8) := by
  rw [getLsbD_of_byte, h.read _ (by omega)]

/-- A word put back with one bit changed changes that bit of its byte. -/
theorem Bytewise.flip (h : Bytewise m a w) (hb : b < 8 * w.bytes) (op : BitOp) (x : U64) :
    (memWriteW a w (applyBit (memReadW m a w) b op) m).readU8 x =
      if x = a + BitVec.ofNat 64 (b / 8) ∧ m.backed x then op.onByte (b % 8) (m.readU8 x)
      else m.readU8 x := by
  have hle := w.bytes_le_word
  have hx : a + BitVec.ofNat 64 (x - a).toNat = x := by
    rw [BitVec.ofNat_toNat, BitVec.setWidth_eq, BitVec.add_comm, BitVec.sub_add_cancel]
  have hiff : x = a + BitVec.ofNat 64 (b / 8) ↔ (x - a).toNat = b / 8 := by
    constructor
    · rintro rfl
      rw [BitVec.add_comm, BitVec.add_sub_cancel, BitVec.toNat_ofNat]
      omega
    · intro hk
      rw [← hk, hx]
  simp only [(h.write _).byte x, hiff]
  by_cases hk : (x - a).toNat < w.bytes
  · have hread := h.read _ hk
    rw [hx] at hread
    rw [byteOf_applyBit _ op (by omega), hread]
    by_cases hback : m.backed x
    · simp only [hk, hback, and_self, if_true, and_true]
    · simp only [hback, and_false, if_false]
  · rw [if_neg fun hc => hk hc.1, if_neg fun hc => hk (by omega)]

end Selected

/-! ## What the manual says -/

/-- The bit offset: an immediate counts modulo the width. -/
def BitOffset.intended (bit : BitOffset) (s : Cpu) : Int :=
  match bit with
  | .imm i => (i.toNat : Int) % s.osize.bits
  | .reg _ => bit.value s

/-- The instruction of an operation. -/
def BitOp.inst (op : BitOp) (m : ModRm) (bit : BitOffset) : Inst :=
  match op with
  | .test => .bt m bit
  | .set => .bts m bit
  | .reset => .btr m bit
  | .complement => .btc m bit

namespace Cpu

variable (s : Cpu) (m : ModRm) (bit : BitOffset) (op : BitOp)

/-- The linear address `k` bytes from the operand's. -/
def linearFrom (k : Int) : U64 :=
  let l := s.modrmLinear m + BitVec.ofInt 64 k
  if s.long64 then l else l &&& 0xFFFFFFFF

/-- A byte's translation on its own, as the operation accesses it. -/
def reach (l : U64) : U64 × Cpu := applyPagingAccess l (op ≠ .test) s

/-- The addressed byte, and byte `k` of the operand-size word it lies in. -/
def bitByte : U64 × Cpu := s.reach op (s.linearFrom m (bit.intended s / 8))

def wordByte (k : Nat) : U64 × Cpu :=
  s.reach op (s.linearFrom m (bit.intended s / s.osize.bits * s.osize.bytes + k))

/-- The operand's own translation, and the byte the code displaces it to. -/
def operandByte : U64 × Cpu := s.reach op (s.modrmLinear m)

def displacedByte : U64 := (s.operandByte m op).1 + BitVec.ofInt 64 (bit.value s / 8)

/-- The place of the bit in its byte. -/
def bitPlace : Nat := (bit.intended s % 8).toNat

end Cpu

/-- CF is bit `b` of the byte at `p`, and of all memory only that bit is operated on. -/
structure Touches (u t : Cpu) (p : U64) (b : Nat) (op : BitOp) : Prop where
  carry : t.getFlag Flags.cf = (u.mem.readU8 p).getLsbD b
  bytes : ∀ x, t.mem.readU8 x =
    if x = p ∧ u.mem.backed x then op.onByte b (u.mem.readU8 x) else u.mem.readU8 x

/-- The two states raised one fault. -/
def SameFault (t v : Cpu) : Prop := t.pendingException = v.pendingException ∧ t.cr2 = v.cr2

/-- Either the addressed bit was reached and nothing else was touched, or a byte of its word was
not accessible, and CF and memory are as they were but for the marks of the walk. -/
def BitRight (s : Cpu) (m : ModRm) (bit : BitOffset) (op : BitOp) : Prop :=
  let t := (execute (op.inst m bit) s).2
  let u := (s.operandByte m op).2
  (t.pendingException = none ∧ (s.bitByte m bit op).2.pendingException = none ∧
      Touches u t (s.bitByte m bit op).1 (s.bitPlace bit) op) ∨
    (t.pendingException ≠ none ∧
      (∃ k < s.osize.bytes, SameFault t (s.wordByte m bit op k).2) ∧
      t.getFlag Flags.cf = s.getFlag Flags.cf ∧ ∀ x, t.mem.readU8 x = u.mem.readU8 x)

open Cpu

/-! ## What the arm does -/

section Arm

variable (s : Cpu) (m : ModRm) (bit : BitOffset) (op : BitOp)

/-- The word the arm reads. -/
def Cpu.displacedWord : U64 :=
  (s.operandByte m op).1 + BitVec.ofInt 64 (bit.value s / s.osize.bits * s.osize.bytes)

theorem osize_ne : s.osize ≠ .w8 := by
  unfold Cpu.osize
  split
  · decide
  · split <;> decide

theorem run_bitOp (hm : m.isReg = false) : (execute (op.inst m bit) s).2 =
    (bitOpMem m (bit.value s) op s).2 := by
  have h : (execute (op.inst m bit) s).2 = (bitOp m bit op s).2 := by cases op <;> rfl
  rw [h, bitOp, bind_run, get_run, hm]
  rfl

/-- The bit within the word, and the word displaced, come to the byte displaced. -/
theorem displaced_parts (o : Int) (w : Width) (hw : w ≠ .w8) :
    o / w.bits * w.bytes + ((o % w.bits).toNat / 8 : Nat) = o / 8 ∧
      (o % w.bits).toNat < 8 * w.bytes := by
  cases w with
  | w8 => exact absurd rfl hw
  | w16 =>
    simp only [Width.bits, Width.bytes]
    omega
  | w32 =>
    simp only [Width.bits, Width.bytes]
    omega
  | w64 =>
    simp only [Width.bits, Width.bytes]
    omega

theorem displacedWord_add : s.displacedWord m bit op +
    BitVec.ofNat 64 ((bit.value s % s.osize.bits).toNat / 8) = s.displacedByte m bit op := by
  rw [displacedWord, displacedByte, BitVec.add_assoc, ← BitVec.ofInt_natCast, ← BitVec.ofInt_add,
    (displaced_parts (bit.value s) s.osize (osize_ne s)).1]

/-- The immediate's reduction does not move the bit within its byte. -/
theorem bitPlace_eq : s.bitPlace bit = (bit.value s % s.osize.bits).toNat % 8 := by
  have hw := osize_ne s
  unfold bitPlace BitOffset.intended
  cases bit with
  | imm i =>
    simp only [BitOffset.value]
    cases h : s.osize <;> simp only [Width.bits] <;> first | exact absurd h hw | omega
  | reg r =>
    simp only
    cases h : s.osize <;> simp only [Width.bits] <;> first | exact absurd h hw | omega

/-- After the translation the arm sets CF and stores the word. -/
theorem run_bitOpMem (o : Int) : (bitOpMem m o op s).2 =
    let u := (s.operandByte m op).2
    let addr := (s.operandByte m op).1 + BitVec.ofInt 64 (o / s.osize.bits * s.osize.bytes)
    let v := memReadW u.mem addr s.osize
    let b := (o % s.osize.bits).toNat
    let f := u.modifyFlags (setFlag Flags.cf (v.getLsbD b))
    if op ≠ .test then f.modifyMem (memWriteW addr s.osize (applyBit v b op)) else f := rfl

/-- The arm raises nothing after the translation. -/
theorem fault_bitOpMem (o : Int) :
    SameFault (bitOpMem m o op s).2 (s.operandByte m op).2 := by
  rw [run_bitOpMem]
  dsimp only
  split <;> exact ⟨rfl, rfl⟩

theorem onByte_test (b : Nat) (v : U8) : BitOp.test.onByte b v = v := by
  refine BitVec.eq_of_getLsbD_eq fun i hi => ?_
  rw [getLsbD_onByte v _ hi]
  exact ite_self _

/-- Off the seams the arm touches the bit of the displaced byte. -/
theorem touches_displaced
    (hseam : ¬ OnSeam (s.operandByte m op).2.mem.ramSize (s.displacedWord m bit op) s.osize) :
    Touches (s.operandByte m op).2 (bitOpMem m (bit.value s) op s).2 (s.displacedByte m bit op)
      (s.bitPlace bit) op := by
  have hword := bytewise _ (osize_ne s) hseam
  have hb := (displaced_parts (bit.value s) s.osize (osize_ne s)).2
  have hread := hword.bit hb
  have hflip := hword.flip hb op
  rw [displacedWord_add, ← bitPlace_eq] at hread
  simp only [displacedWord_add, ← bitPlace_eq] at hflip
  have hcf : Flags.cf ≠ 0 := by decide
  rw [run_bitOpMem]
  dsimp only
  by_cases hop : op = .test
  · rw [if_neg (not_not_intro hop)]
    refine ⟨(test_setFlag_self hcf _ _).trans hread, fun x => ?_⟩
    rw [hop]
    simp only [onByte_test, ite_self]
    rfl
  · rw [if_pos hop]
    exact ⟨(test_setFlag_self hcf _ _).trans hread, hflip⟩

end Arm

/-! ## Where it is the addressed bit -/

/-- The operation would leave the byte at `p` as it is. -/
def Idle (u : Cpu) (p : U64) (b : Nat) (op : BitOp) : Prop :=
  u.mem.backed p → op.onByte b (u.mem.readU8 p) = u.mem.readU8 p

/-- The operand's own page is accessible, the byte's is too, and the displaced byte is the addressed
one or has the same bit in the place and neither would change. With the operand's page refused CF
was set already and the fault is one of the addressed word's. -/
def BitLands (s : Cpu) (m : ModRm) (bit : BitOffset) (op : BitOp) : Prop :=
  let u := (s.operandByte m op).2
  let q := s.displacedByte m bit op
  let p := (s.bitByte m bit op).1
  let b := s.bitPlace bit
  if u.pendingException.isNone then
    (s.bitByte m bit op).2.pendingException = none ∧
      (u.mem.readU8 q).getLsbD b = (u.mem.readU8 p).getLsbD b ∧
      (q = p ∨ Idle u q b op ∧ Idle u p b op)
  else s.getFlag Flags.cf = true ∧ ∃ k < s.osize.bytes, SameFault u (s.wordByte m bit op k).2

section Iff

variable {s u t : Cpu} {p q : U64} {b : Nat} {op : BitOp}

/-- What was touched at one byte was touched at another just where the two bits and the two
changes agree. -/
theorem Touches.at_iff (h : Touches u t q b op) : Touches u t p b op ↔
    (u.mem.readU8 q).getLsbD b = (u.mem.readU8 p).getLsbD b ∧
      (q = p ∨ Idle u q b op ∧ Idle u p b op) := by
  constructor
  · intro hp
    refine ⟨h.carry.symm.trans hp.carry, ?_⟩
    by_cases hqp : q = p
    · exact .inl hqp
    · refine .inr ⟨fun hback => ?_, fun hback => ?_⟩
      · have hq := (h.bytes q).symm.trans (hp.bytes q)
        rwa [if_pos ⟨rfl, hback⟩, if_neg fun hc => hqp hc.1] at hq
      · have hq := (hp.bytes p).symm.trans (h.bytes p)
        rwa [if_pos ⟨rfl, hback⟩, if_neg fun hc => hqp hc.1.symm] at hq
  · rintro ⟨hbit, rfl | ⟨hq, hp⟩⟩
    · exact h
    · refine ⟨h.carry.trans hbit, fun x => ?_⟩
      have hnone {y : U64} (hy : Idle u y b op) :
          (if x = y ∧ u.mem.backed x then op.onByte b (u.mem.readU8 x) else u.mem.readU8 x) =
            u.mem.readU8 x := by
        split
        · rename_i hc
          obtain ⟨rfl, hback⟩ := hc
          exact hy hback
        · rfl
      rw [h.bytes x, hnone hq, hnone hp]

end Iff

/-- A refused translation gives the open-bus address. -/
theorem reach_unbacked {s : Cpu} {op : BitOp} {l : U64} (hs : s.pendingException = none)
    (h : (s.reach op l).2.pendingException ≠ none) : (s.reach op l).1 = unbacked := by
  rcases (accessed_paging l (op ≠ .test) s).fault with heq | ⟨hp, -, -⟩
  · exact absurd (heq.trans hs) h
  · exact hp

theorem value_range (s : Cpu) (bit : BitOffset) :
    -2 ^ 63 ≤ bit.value s ∧ bit.value s < 2 ^ 63 := by
  cases bit with
  | imm i =>
    have hi := i.isLt
    simp only [BitOffset.value]
    omega
  | reg r =>
    exact ⟨BitVec.le_toInt _, BitVec.toInt_lt⟩

/-- Displaced from the open-bus address there is nothing either. -/
theorem unbacked_displaced (s : Cpu) (bit : BitOffset) (mem : Memory) :
    ¬ mem.backed (unbacked + BitVec.ofInt 64 (bit.value s / 8)) := by
  obtain ⟨hlo, hhi⟩ := value_range s bit
  have hu : unbacked.toNat = 2 ^ 63 - 1 := rfl
  have habove : 2 ^ 62 ≤ (unbacked + BitVec.ofInt 64 (bit.value s / 8)).toNat := by
    rw [BitVec.toNat_add, BitVec.toNat_ofInt, hu]
    omega
  rintro (hvga | hslot)
  · have hend := hvga.2
    omega
  · rw [mem.slot_above habove] at hslot
    cases hslot

/-- BT, BTS, BTR and BTC read and change exactly the addressed bit where `BitLands`. -/
theorem bitString_iff (s : Cpu) (m : ModRm) (hm : m.isReg = false) (bit : BitOffset) (op : BitOp)
    (hs : s.pendingException = none)
    (hseam : ¬ OnSeam (s.operandByte m op).2.mem.ramSize (s.displacedWord m bit op) s.osize) :
    BitRight s m bit op ↔ BitLands s m bit op := by
  have ht := touches_displaced s m bit op hseam
  obtain ⟨hfault, hcr2⟩ := fault_bitOpMem s m op (bit.value s)
  unfold BitRight BitLands
  rw [run_bitOp s m bit op hm]
  dsimp only
  cases hu : (s.operandByte m op).2.pendingException with
  | none =>
    rw [hu] at hfault
    simp only [hfault, ne_eq, not_true, false_and, or_false, true_and, Option.isNone_none, if_true]
    exact and_congr_right fun _ => ht.at_iff
  | some e =>
    have hfaulted : (s.operandByte m op).2.pendingException ≠ none := by simp [hu]
    have hback : ¬ (s.operandByte m op).2.mem.backed (s.displacedByte m bit op) := by
      rw [displacedByte, operandByte, reach_unbacked hs hfaulted]
      exact unbacked_displaced s bit _
    have hcarry : (bitOpMem m (bit.value s) op s).2.getFlag Flags.cf = true := by
      rw [ht.carry, readU8_unbacked hback]
      have hlt : s.bitPlace bit < 8 := by
        unfold bitPlace
        omega
      interval_cases s.bitPlace bit <;> rfl
    have hbytes (x : U64) : (bitOpMem m (bit.value s) op s).2.mem.readU8 x =
        (s.operandByte m op).2.mem.readU8 x := by
      rw [ht.bytes x, if_neg]
      rintro ⟨rfl, hx⟩
      exact hback hx
    rw [hu] at hfault
    have hsame (v : Cpu) : SameFault (bitOpMem m (bit.value s) op s).2 v ↔
        SameFault (s.operandByte m op).2 v := by
      rw [SameFault, SameFault, hfault, hcr2, hu]
    simp only [hfault, hcarry, hbytes, hsame, Option.isNone_some, Bool.false_eq_true, if_false,
      reduceCtorEq, false_and, false_or, ne_eq, not_false_eq_true, true_and, implies_true, and_true]
    exact ⟨fun ⟨h, hcf⟩ => ⟨hcf.symm, h⟩, fun ⟨hcf, h⟩ => ⟨h, hcf.symm⟩⟩

/-- A machine with the operand at 100h, 20 in CX and bit 4 of the byte at 102h set. -/
def bitMachine : Cpu :=
  let s := Cpu.withRam (2 ^ 20) Memory.mib_le 0
  { s with
    regs := fun i => if i = 3 then 0x100 else if i = 1 then 20 else 0
    mem := s.mem.writeU8 0x102 0x10 }

/-- BT of a word with immediate 20 tests bit 4 of the next word, not of the operand. -/
theorem immediate_leaves_operand :
    (execute (.bt atBx (.imm 20)) bitMachine).2.getFlag Flags.cf = true ∧
      ¬ BitRight bitMachine atBx (.imm 20) .test := by
  have hcf : (execute (.bt atBx (.imm 20)) bitMachine).2.getFlag Flags.cf = true := by
    decide +kernel
  refine ⟨hcf, ?_⟩
  rintro (⟨-, -, ht⟩ | ⟨hfault, -⟩)
  · have hbit : ((bitMachine.operandByte atBx .test).2.mem.readU8
        (bitMachine.bitByte atBx (.imm 20) .test).1).getLsbD (bitMachine.bitPlace (.imm 20)) =
          false := by decide +kernel
    exact absurd (hcf.symm.trans (ht.carry.trans hbit)) (by decide)
  · exact hfault (by decide +kernel)

theorem bitMachine_seam {bit : BitOffset} {op : BitOp}
    (ha : (bitMachine.displacedWord atBx bit op).toNat = 0x102) :
    ¬ OnSeam (bitMachine.operandByte atBx op).2.mem.ramSize (bitMachine.displacedWord atBx bit op)
      bitMachine.osize := by
  have hw : bitMachine.osize = .w16 := rfl
  rw [OnSeam, ha, hw]
  simp only [Seam, WindowSeam, Width.wide, Width.bytes, Wide.bytes, mmioHoleStart]
  omega

/-- BTC with 20 in CX complements the addressed bit, outside the operand. -/
theorem bitString_iff_bx :
    (BitRight bitMachine atBx (.imm 20) .test ↔ BitLands bitMachine atBx (.imm 20) .test) ∧
      BitRight bitMachine atBx (.reg 1) .complement := by
  constructor
  · exact bitString_iff bitMachine atBx rfl (.imm 20) .test rfl
      (bitMachine_seam (by decide +kernel))
  · refine (bitString_iff bitMachine atBx rfl (.reg 1) .complement rfl
      (bitMachine_seam (by decide +kernel))).mpr ?_
    rw [BitLands]
    rw [if_pos (by decide +kernel)]
    exact ⟨by decide +kernel, by decide +kernel, .inl (by decide +kernel)⟩

end X86Emu
