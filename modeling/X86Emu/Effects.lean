import X86Emu.Arith
import X86Emu.Sse

/-!
# Effects an ordinary instruction may have

On the flags: the status flags, DF and AC move, the others stay. On memory: writes near an address a
write translation granted, or nowhere, at the address a faulting translation hands back.
-/
namespace X86Emu

/-! ## Flags -/

/-- CF, PF, AF, ZF, SF, DF, OF and AC: the flags an unprivileged instruction may change. -/
def Flags.user : U32 := 0x00040CD5

/-- A flag computation that keeps every other flag. -/
def UserFlags (f : U32 → U32) : Prop := ∀ fl, f fl &&& ~~~Flags.user = fl &&& ~~~Flags.user

namespace UserFlags

theorem rfl : UserFlags id := fun _ => Eq.refl _

theorem comp {f g : U32 → U32} (hf : UserFlags f) (hg : UserFlags g) : UserFlags fun fl => f (g fl) :=
  fun fl => (hf _).trans (hg fl)

theorem setFlag {f : U32} (h : f &&& ~~~Flags.user = 0) (on : Bool) : UserFlags (setFlag f on) := by
  intro fl
  ext i hi
  have hb : (f[i] && !Flags.user[i]) = false := by
    have := congrArg (fun v : U32 => v[i]) h
    simp only [BitVec.getElem_and, BitVec.getElem_not] at this
    exact this.trans (BitVec.getElem_zero hi)
  revert hb
  cases on <;>
    simp only [X86Emu.setFlag, Bool.false_eq_true, ↓reduceIte, BitVec.getElem_and,
      BitVec.getElem_or, BitVec.getElem_not] <;>
    generalize fl[i] = x <;> generalize f[i] = y <;> generalize Flags.user[i] = z <;>
    revert x y z <;> decide

theorem cf (on : Bool) : UserFlags (X86Emu.setFlag Flags.cf on) := setFlag (by decide) on
theorem pf (on : Bool) : UserFlags (X86Emu.setFlag Flags.pf on) := setFlag (by decide) on
theorem af (on : Bool) : UserFlags (X86Emu.setFlag Flags.af on) := setFlag (by decide) on
theorem zf (on : Bool) : UserFlags (X86Emu.setFlag Flags.zf on) := setFlag (by decide) on
theorem sf (on : Bool) : UserFlags (X86Emu.setFlag Flags.sf on) := setFlag (by decide) on
theorem of (on : Bool) : UserFlags (X86Emu.setFlag Flags.of on) := setFlag (by decide) on
theorem ac (on : Bool) : UserFlags (X86Emu.setFlag Flags.ac on) := setFlag (by decide) on

theorem logic {n : Nat} (r : BitVec n) : UserFlags (setLogicFlags r) :=
  (pf _).comp ((zf _).comp (sf _))

theorem logicWidth (r : U64) (w : Width) : UserFlags (setLogicFlagsWidth r w) := by
  cases w <;> exact logic _

theorem addCarry {n : Nat} (a b r : BitVec n) (c : Bool) : UserFlags (addCarryFlags a b r c) :=
  (of _).comp ((af _).comp (cf _))

theorem subBorrow {n : Nat} (a b r : BitVec n) (c : Bool) : UserFlags (subBorrowFlags a b r c) :=
  (of _).comp ((af _).comp (cf _))

theorem clearCarryOverflow : UserFlags clearCarryOverflow := (of _).comp (cf _)

theorem carryOverflow (c : Bool) : UserFlags (setCarryOverflow c) := (of _).comp (cf _)

theorem keepCarry {f : U32 → U32} (hf : UserFlags f) : UserFlags (keepCarry f) :=
  fun fl => (cf _ _).trans (hf fl)

theorem shift {n : Nat} (r : BitVec n) (c o : Bool) : UserFlags (setShiftFlags r c o) :=
  (logic r).comp ((of _).comp (cf _))

theorem aluWith {n : Nat} {add sub : BitVec n → BitVec n → BitVec n → Bool → U32 → U32}
    (hadd : ∀ a b r c, UserFlags (add a b r c)) (hsub : ∀ a b r c, UserFlags (sub a b r c))
    (op : AluOp) (a b : BitVec n) : UserFlags fun fl => (aluWith add sub op a b fl).2 := by
  intro fl
  cases op with
  | add | adc => exact (hadd _ _ _ _ _).trans (logic _ fl)
  | sub | sbb | cmp => exact (hsub _ _ _ _ _).trans (logic _ fl)
  | and | or | xor => exact clearCarryOverflow.comp (logic _) fl

theorem alu64 (op : AluOp) (a b : U64) : UserFlags fun fl => (alu64 op a b fl).2 := by
  cases op with
  | adc => exact fun fl => (addCarry _ _ _ _ _).trans (logic _ fl)
  | sbb => exact fun fl => (subBorrow _ _ _ _ _).trans (logic _ fl)
  | _ => exact aluWith addCarry subBorrow _ a b

theorem aluW (op : AluOp) (a b : U64) (w : Width) : UserFlags fun fl => (aluW op a b w fl).2 := by
  cases w with
  | w8 => exact aluWith (fun _ _ _ => addCarry _ _ _) (fun _ _ _ => subBorrow _ _ _) op _ _
  | w16 => exact aluWith addCarry subBorrow op (u16 a) (u16 b)
  | w32 => exact aluWith addCarry subBorrow op (u32 a) (u32 b)
  | w64 => exact alu64 op a b

theorem test (w : Width) (a b : U64) : UserFlags (testFlags w a b) :=
  clearCarryOverflow.comp (logicWidth _ w)

theorem incW (w : Width) (v : U64) : UserFlags (incFlagsRm w v) :=
  keepCarry ((of _).comp ((addCarry _ _ _ _).comp (logicWidth _ w)))

theorem decW (w : Width) (v : U64) : UserFlags (decFlagsRm w v) :=
  keepCarry ((of _).comp ((subBorrow _ _ _ _).comp (logicWidth _ w)))

theorem inc8 (v : U64) : UserFlags (incFlagsRm8 v) :=
  keepCarry ((af _).comp ((of _).comp ((addCarry _ _ _ _).comp (logic _))))

theorem dec8 (v : U64) : UserFlags (decFlagsRm8 v) :=
  keepCarry ((af _).comp ((of _).comp (logic _)))

theorem inc16 (v : U64) : UserFlags (incFlagsRm16 v) :=
  keepCarry ((addCarry _ _ _ _).comp (logic _))

theorem dec16 (v : U64) : UserFlags (decFlagsRm16 v) :=
  keepCarry ((subBorrow _ _ _ _).comp (logic _))

theorem inc32 (v : U64) : UserFlags (incFlagsReg32 v) :=
  keepCarry ((addCarry _ _ _ _).comp (logic _))

theorem dec32 (v : U64) : UserFlags (decFlagsReg32 v) :=
  keepCarry ((subBorrow _ _ _ _).comp (logic _))

theorem neg (w : Width) (v : U64) : UserFlags (negFlagsW w v) :=
  (af _).comp ((of _).comp ((cf _).comp (logicWidth _ w)))

theorem doubleShift (w : Width) (d : U64) (r : U64 × Bool) : UserFlags (doubleShiftFlags w d r) := by
  cases w <;> exact shift _ _ _

theorem shiftWidth (op : ShiftOp) (v : U64) (n : U32) (w : Width) :
    UserFlags fun fl => (shiftWidth op v n w fl).2 := by
  intro fl
  unfold X86Emu.shiftWidth
  dsimp only
  generalize (n &&& if w = .w64 then 0x3F else 0x1F).toNat = k
  by_cases hk : k = 0
  · rw [if_pos hk]
  rw [if_neg hk]
  cases op with
  | shl | shr | sar => exact (of _).comp ((logicWidth _ w).comp (cf _)) fl
  | rol | ror | rcl | rcr => exact (of _).comp (cf _) fl

end UserFlags

/-! ## Stores -/

/-- The paging unit grants a store at a linear address: with paging off, from the TLB, or by a
walk. The physical address is the one it hands back. -/
inductive Cpu.Grants (s : Cpu) (linear : U64) : U64 → Prop
  | off (h : test s.cr0 cr0Pg = false) : s.Grants linear linear
  | hit (hv : (s.tlb (tlbIndex linear)).valid = true)
      (hp : (s.tlb (tlbIndex linear)).vpage = linear >>> 12)
      (ha : s.accessAllowed (s.tlb (tlbIndex linear)).writable (s.tlb (tlbIndex linear)).user
        (s.tlb (tlbIndex linear)).exec true (s.cpl == 3) false = true) :
      s.Grants linear ((s.tlb (tlbIndex linear)).ppage <<< 12 ||| linear &&& 0xFFF)
  | walk {map : Mapping} (hw : s.walkOf linear = some map)
      (ha : s.accessAllowed map.writable map.user map.exec true (s.cpl == 3) false = true) :
      s.Grants linear map.phys

theorem raise_pending (s : Cpu) (f : Fault) : (s.raise f).pendingException.isSome := by
  unfold Cpu.raise
  split
  · assumption
  · exact Eq.refl _

/-- A write translation grants the store, or faults. -/
theorem granted_or_unbacked (linear : U64) (s : Cpu) :
    s.Grants linear (applyPagingAccess linear true s).1 ∨
      (applyPagingAccess linear true s).1 = unbacked ∧
        (applyPagingAccess linear true s).2.pendingException.isSome := by
  unfold applyPagingAccess applyPagingInner
  split
  · exact .inr ⟨rfl, raise_pending _ _⟩
  split
  · exact .inl (.off (by simpa using ‹(!test s.cr0 cr0Pg) = true›))
  dsimp only
  split
  · rename_i hit
    simp only [Bool.and_eq_true, beq_iff_eq] at hit
    split
    · exact .inl (.hit hit.1.1 hit.1.2 ‹_›)
    · exact .inr ⟨rfl, raise_pending _ _⟩
  · split
    · split
      · exact .inr ⟨rfl, raise_pending _ _⟩
      · exact .inl (.walk ‹_› (by simpa using ‹¬(!s.accessAllowed _ _ _ _ _ _) = true›))
    · exact .inr ⟨rfl, raise_pending _ _⟩

/-- Byte `k` of a store at a linear address: on the same page, or among the 16 bytes of the widest
operand stored whole. -/
def Near (linear : U64) (k : Nat) : Prop := k < 16 ∨ (linear &&& 0xFFF).toNat + k < 0x1000

/-- One write of the memory unit. -/
inductive MemWrite (a : U64) : (Memory → Memory) → Prop
  | u8 (v : U8) : MemWrite a (·.writeU8 a v)
  | u16 (v : U16) : MemWrite a (·.writeU16 a v)
  | u32 (v : U32) : MemWrite a (·.writeU32 a v)
  | u64 (v : U64) : MemWrite a (·.writeU64 a v)
  | u128 (v : U128) : MemWrite a (·.writeU128 a v)

/-- Writes near the translations of some linear addresses, each paired with its own. -/
inductive Writes (A : List (U64 × U64)) : (Memory → Memory) → Prop
  | none : Writes A id
  | write {linear p : U64} {k : Nat} {f : Memory → Memory} (h : (linear, p) ∈ A)
      (hk : Near linear k) (hf : MemWrite (p + BitVec.ofNat 64 k) f) : Writes A f
  | seq {f g : Memory → Memory} (hf : Writes A f) (hg : Writes A g) : Writes A fun m => g (f m)

namespace Writes

variable {A : List (U64 × U64)} {linear p : U64}

theorem start {f : Memory → Memory} (h : (linear, p) ∈ A) (hf : MemWrite p f) : Writes A f :=
  .write (k := 0) h (.inl (by decide)) (by simpa using hf)

theorem offset {f : Memory → Memory} (k : Nat) (h : (linear, p) ∈ A) (hk : k < 16)
    (hf : MemWrite (p + BitVec.ofNat 64 k) f) : Writes A f :=
  .write h (.inl hk) hf

theorem foldl {β : Type} {g : Memory → β → Memory} :
    ∀ {l : List β}, (∀ b ∈ l, Writes A (g · b)) → Writes A fun m => l.foldl g m
  | [], _ => .none
  | b :: l, h =>
    .seq (h b List.mem_cons_self) (foldl (l := l) fun c hc => h c (List.mem_cons_of_mem b hc))

theorem mono {B : List (U64 × U64)} (h : ∀ x ∈ A, x ∈ B) {f : Memory → Memory}
    (hf : Writes A f) : Writes B f := by
  induction hf with
  | none => exact .none
  | write hm hk hf => exact .write (h _ hm) hk hf
  | seq _ _ ihf ihg => exact .seq ihf ihg

theorem memWriteW (h : (linear, p) ∈ A) (w : Width) (v : U64) : Writes A (memWriteW p w v) := by
  cases w with
  | w8 => exact start h (.u8 _)
  | w16 => exact start h (.u16 _)
  | w32 => exact start h (.u32 _)
  | w64 => exact start h (.u64 _)

theorem stackWrite (h : (linear, p) ∈ A) (w : Width) (v : U64) : Writes A (stackWrite p w v) := by
  cases w with
  | w8 | w16 => exact start h (.u16 _)
  | w32 => exact start h (.u32 _)
  | w64 => exact start h (.u64 _)

theorem sseMemWrite (h : (linear, p) ∈ A) (n : Nat) (v : U128) : Writes A (sseMemWrite p n v) := by
  unfold X86Emu.sseMemWrite
  split
  · exact start h (.u128 _)
  split
  · exact start h (.u64 _)
  · exact start h (.u32 _)

/-- An operand split over two pages. -/
theorem split {linear' p' : U64} (h : (linear, p) ∈ A) (h' : (linear', p') ∈ A) {n first : Nat}
    (hn : n ≤ 16) (b : Nat → U8) :
    Writes A fun m =>
      (List.range n).foldl (fun m i => m.writeU8 (splitAddr p p' first i) (b i)) m :=
  foldl fun i hi => by
    have hi : i < n := List.mem_range.mp hi
    unfold splitAddr
    split
    · exact offset i h (by omega) (.u8 _)
    · refine offset (i - first) h' (by omega) ?_
      have he : p' + BitVec.ofNat 64 i - BitVec.ofNat 64 first =
          p' + BitVec.ofNat 64 (i - first) := by
        have hf : BitVec.ofNat 64 i = BitVec.ofNat 64 (i - first) + BitVec.ofNat 64 first := by
          rw [← BitVec.ofNat_add, Nat.sub_add_cancel (by omega)]
        rw [hf, ← BitVec.add_assoc, BitVec.add_sub_cancel]
      rw [he]
      exact .u8 _

end Writes

/-! ### At the unbacked address -/

namespace Memory

variable (m : Memory) {a : U64}

theorem slot_above (ha : 2 ^ 62 ≤ a.toNat) : m.slot a = none := by
  have hlow := m.lowSize_eq
  have hram := m.ramSize_le
  unfold slot
  rw [if_neg (by omega)]
  split
  · exact if_neg (by simp only [highRamBase] at *; omega)
  · rfl

theorem writeU8_above (ha : 2 ^ 62 ≤ a.toNat) (v : U8) : m.writeU8 a v = m := by
  unfold writeU8
  rw [if_neg (fun h => ?_), m.slot_above ha]
  have h2 := BitVec.lt_def.mp h.2
  have h3 : (vgaTextBase + vgaTextSize).toNat = 0xC0000 := by decide
  omega

theorem writeU16_above (ha : 2 ^ 62 ≤ a.toNat) (hb : a.toNat + 2 ≤ 2 ^ 64) (v : U16) :
    m.writeU16 a v = m := by
  have h1 : (a + 1).toNat = a.toNat + 1 := BitVec.toNat_add_of_lt (by simp; omega)
  unfold writeU16
  rw [if_neg (fun h => ?_), m.slot_above ha]
  · dsimp only
    rw [m.writeU8_above ha, m.writeU8_above (by omega)]
  · have h2 := BitVec.lt_def.mp h.2
    have h3 : (vgaTextBase + vgaTextSize).toNat = 0xC0000 := by decide
    omega

theorem writeU32_above (ha : 2 ^ 62 ≤ a.toNat) (hb : a.toNat + 4 ≤ 2 ^ 64) (v : U32) :
    m.writeU32 a v = m := by
  have h1 : (a + 1).toNat = a.toNat + 1 := BitVec.toNat_add_of_lt (by simp; omega)
  have h2 : (a + 2).toNat = a.toNat + 2 := BitVec.toNat_add_of_lt (by simp; omega)
  have h3 : (a + 3).toNat = a.toNat + 3 := BitVec.toNat_add_of_lt (by simp; omega)
  unfold writeU32
  rw [if_neg (fun h => ?_), m.slot_above ha]
  · dsimp only
    rw [m.writeU8_above ha, m.writeU8_above (by omega), m.writeU8_above (by omega),
      m.writeU8_above (by omega)]
  · have h4 := BitVec.lt_def.mp h.1
    have h5 : (vgaTextBase + vgaTextSize).toNat = 0xC0000 := by decide
    omega

theorem writeU64_above (ha : 2 ^ 62 ≤ a.toNat) (hb : a.toNat + 8 ≤ 2 ^ 64) (v : U64) :
    m.writeU64 a v = m := by
  have hbyte (i : Nat) (hi : i < 8) (x : U8) : m.writeU8 (a + BitVec.ofNat 64 i) x = m := by
    refine m.writeU8_above ?_ x
    rw [BitVec.toNat_add_of_lt (by simp; omega)]
    omega
  unfold writeU64
  rw [if_neg (fun h => ?_), m.slot_above ha]
  · dsimp only
    refine List.foldlRecOn (motive := (· = m)) _ _ rfl fun k hk i hi => ?_
    rw [hk]
    exact hbyte i (List.mem_range.mp hi) _
  · have h4 := BitVec.lt_def.mp h.2
    have h5 : (vgaTextBase + vgaTextSize).toNat = 0xC0000 := by decide
    omega

theorem writeU128_above (ha : 2 ^ 62 ≤ a.toNat) (hb : a.toNat + 16 ≤ 2 ^ 64) (v : U128) :
    m.writeU128 a v = m := by
  have h8 : (a + 8).toNat = a.toNat + 8 := BitVec.toNat_add_of_lt (by simp; omega)
  unfold writeU128
  rw [m.slot_above ha]
  dsimp only
  rw [m.writeU64_above ha (by omega), m.writeU64_above (by omega) (by omega)]

end Memory

theorem MemWrite.above {a : U64} {f : Memory → Memory} (hf : MemWrite a f)
    (ha : 2 ^ 62 ≤ a.toNat) (hb : a.toNat + 16 ≤ 2 ^ 64) (m : Memory) : f m = m := by
  cases hf with
  | u8 v => exact m.writeU8_above ha v
  | u16 v => exact m.writeU16_above ha (by omega) v
  | u32 v => exact m.writeU32_above ha (by omega) v
  | u64 v => exact m.writeU64_above ha (by omega) v
  | u128 v => exact m.writeU128_above ha hb v

/-- What is stored at the unbacked address is lost. -/
theorem Writes.lost {A : List (U64 × U64)} (hA : ∀ x ∈ A, x.2 = unbacked) {f : Memory → Memory}
    (hf : Writes A f) : ∀ m, f m = m := by
  induction hf with
  | none => exact fun _ => rfl
  | write h hk hf =>
    rename_i linear p k f
    obtain rfl : p = unbacked := hA _ h
    have hu : unbacked.toNat = 0x7FFFFFFFFFFFFFFF := by decide
    have hlt : k < 0x1000 := by
      rcases hk with hk | hk <;> omega
    have ha : (unbacked + BitVec.ofNat 64 k).toNat = 0x7FFFFFFFFFFFFFFF + k := by
      rw [BitVec.toNat_add_of_lt (by simp; omega)]
      simp; omega
    exact hf.above (by omega) (by omega)
  | seq hf hg ihf ihg => exact fun m => (ihg _).trans (ihf m)

end X86Emu
