import X86Emu.Execute
import X86Emu.Lib.StateRules

/-!
# Branches and the live instruction pointer

The fetch reads IP in real mode and RIP otherwise. An arm of the executor picks the register it
writes by its operand size, so a branch arrives when the two choices meet.
-/
namespace X86Emu

open StateRules

/-- `v` cut to a width. -/
def trunc (w : Width) (v : U64) : U64 := v &&& w.mask

namespace Cpu

variable (s : Cpu)

/-- The instruction pointer the next fetch uses. -/
def liveIp : U64 := if s.pe then s.rip else u64 s.ip

/-- Where a write of `v` leaves the live pointer, made to IP (`toIp`) or to RIP. -/
def land (toIp : Bool) (v : U64) : U64 := if toIp = s.pe then s.liveIp else v

end Cpu

/-! ## Truncation -/

theorem u64_u32 (v : U64) : u64 (u32 v) = trunc .w32 v := by
  apply BitVec.eq_of_toNat_eq
  simp only [trunc, Width.mask, BitVec.toNat_setWidth, BitVec.toNat_and]
  rw [show (0xFFFFFFFF : U64).toNat = 2 ^ 32 - 1 from rfl, Nat.and_two_pow_sub_one_eq_mod]
  omega

theorem u64_u16 (v : U64) : u64 (u16 v) = trunc .w16 v := by
  apply BitVec.eq_of_toNat_eq
  simp only [trunc, Width.mask, BitVec.toNat_setWidth, BitVec.toNat_and]
  rw [show (0xFFFF : U64).toNat = 2 ^ 16 - 1 from rfl, Nat.and_two_pow_sub_one_eq_mod]
  omega

@[simp] theorem trunc_w64 (v : U64) : trunc .w64 v = v := BitVec.and_allOnes

@[simp] theorem trunc_trunc (w : Width) (v : U64) : trunc w (trunc w v) = trunc w v := by
  simp only [trunc, BitVec.and_assoc, BitVec.and_self]

/-- A word of 16 bits is what 32 bits keep of it. -/
theorem trunc_of_w16 {v : U64} (h : trunc .w16 v = v) : trunc .w32 v = v := by
  rw [← h, trunc, trunc, BitVec.and_assoc]
  rfl

theorem trunc_u64_u16 (v : U16) : trunc .w16 (u64 v) = u64 v := by rw [← u64_u16, u16_u64]

theorem trunc_u64_u32 (v : U32) : trunc .w32 (u64 v) = u64 v := by rw [← u64_u32, u32_u64]

theorem u64_u16_sum (v : U16) (r : U64) : u64 (v + u16 r) = trunc .w16 (u64 v + r) := by
  rw [← u64_u16, show u16 (u64 v + r) = u16 (u64 v) + u16 r from
    BitVec.setWidth_add _ _ (by decide), u16_u64]

theorem u64_u32_sum (v r : U64) : u64 (u32 v + u32 r) = trunc .w32 (v + r) := by
  rw [← u64_u32, show u32 (v + r) = u32 v + u32 r from BitVec.setWidth_add _ _ (by decide)]

/-! ## What loads and stores keep -/

namespace Cpu

/-- What a branch reads besides its operand. -/
def steering (s : Cpu) : Bool × U16 × U64 × Bool × U64 × Descriptor :=
  (s.pe, s.ip, s.rip, s.opsize, s.efer, s.segDesc .cs)

/-- A run changed none of it. -/
def Steers (s t : Cpu) : Prop := t.steering = s.steering

instance : Std.Refl Steers := ⟨fun _ => rfl⟩

instance : IsTrans Cpu Steers := ⟨fun _ _ _ h h' => Eq.trans h' h⟩

variable {s t : Cpu}

theorem Steers.fields (h : Steers s t) : t.pe = s.pe ∧ t.ip = s.ip ∧ t.rip = s.rip ∧
    t.opsize = s.opsize ∧ t.long64 = s.long64 := by
  simp only [Steers, steering, Prod.mk.injEq] at h
  obtain ⟨hpe, hip, hrip, hop, hefer, hcs⟩ := h
  exact ⟨hpe, hip, hrip, hop, by rw [long64, long64, longMode, longMode, hefer, hcs]⟩

theorem Steers.liveIp (h : Steers s t) : t.liveIp = s.liveIp := by
  obtain ⟨hpe, hip, hrip, -, -⟩ := h.fields
  rw [Cpu.liveIp, Cpu.liveIp, hpe, hip, hrip]

theorem Steers.land (h : Steers s t) (toIp : Bool) (v : U64) : t.land toIp v = s.land toIp v := by
  rw [Cpu.land, Cpu.land, h.liveIp, h.fields.1]

theorem steers_raise (s : Cpu) (f : Fault) : Steers s (s.raise f) := by
  unfold raise
  split <;> rfl

theorem steers_markAccessed (s : Cpu) (linear : U64) (write : Bool) :
    Steers s (s.markAccessed linear write) := by
  unfold markAccessed
  split <;> rfl

theorem steers_setStackPointer (s : Cpu) (v : U64) : Steers s (s.setStackPointer v) := by
  unfold setStackPointer
  split <;> rfl

end Cpu

open Cpu

theorem steers_applyPagingInner (linear : U64) (write fetch : Bool) :
    Keeps Steers (applyPagingInner linear write fetch) := by
  intro s
  unfold applyPagingInner
  split
  · exact steers_raise s _
  split
  · rfl
  dsimp only
  split
  · split
    · split
      · exact (steers_markAccessed s linear true)
      · rfl
    · exact steers_raise s _
  · split
    · split
      · exact steers_raise s _
      · rfl
    · exact steers_raise s _

theorem steers_translateAccess (r : SegReg) (off : U64) (write : Bool) :
    Keeps Steers (translateAccess r off write) := fun s => steers_applyPagingInner _ _ _ s

theorem steers_readSplit (phys lin : U64) (n : Nat) : Keeps Steers (readSplit phys lin n) := by
  unfold readSplit
  refine Keeps.bind (steers_applyPagingInner _ _ _) fun _ => .read fun t => ?_
  split <;> exact refl t

theorem steers_readRmW (m : ModRm) (w : Width) : Keeps Steers (readRmW m w) := by
  unfold readRmW
  split
  · exact .read fun s => refl s
  · refine Keeps.bind (.read fun s => steers_translateAccess _ _ _ s) fun addr => .read fun t => ?_
    split
    · split
      · exact refl t
      · exact Keeps.bind (steers_readSplit _ _ _) (fun _ => .pure _) t
    · exact refl t

theorem steers_popW (w : Width) : Keeps Steers (popW w) :=
  .read fun s => by
    split
    · refine Keeps.bind (steers_translateAccess _ _ _) (fun _ => .read fun t => ?_) s
      split
      · exact refl t
      · exact steers_setStackPointer t _
    · rfl

theorem steers_pushW (w : Width) (v : U64) : Keeps Steers (pushW w v) :=
  .read fun s => by
    split
    · refine Keeps.bind (steers_translateAccess _ _ _) (fun _ => .read fun t => ?_) s
      split
      · exact refl t
      · exact steers_setStackPointer t _
    · rfl

/-- Loading CS changes neither pointer nor the choice between them. -/
theorem liveIp_loadSeg (s : Cpu) (sel : U16) : (s.loadSeg .cs sel).pe = s.pe ∧
    (s.loadSeg .cs sel).ip = s.ip ∧ (s.loadSeg .cs sel).rip = s.rip := by
  unfold loadSeg
  split <;> exact ⟨rfl, rfl, rfl⟩

/-! ## Widths of what is loaded -/

theorem trunc_popW (w : Width) (hw : w ≠ .w8) (s : Cpu) :
    trunc w (popW w s).1 = (popW w s).1 := by
  have hread (mem : Memory) (a : U64) : trunc w (stackRead mem a w) = stackRead mem a w := by
    cases w with
    | w8 => exact absurd rfl hw
    | w16 => exact trunc_u64_u16 _
    | w32 => exact trunc_u64_u32 _
    | w64 => exact trunc_w64 _
  unfold popW
  rw [bind_run, get_run]
  split
  · rw [bind_run, bind_run, get_run]
    split
    · exact BitVec.zero_and
    · exact hread _ _
  · exact hread _ _

/-- Two bytes put together fill 16 bits. -/
theorem trunc_pair (lo hi : U8) :
    trunc .w16 (u64 (((0 : U128) ||| u128 lo <<< (8 * 0)) ||| u128 hi <<< (8 * 1))) =
      u64 (((0 : U128) ||| u128 lo <<< (8 * 0)) ||| u128 hi <<< (8 * 1)) := by
  rw [← u64_u16]
  ext i hi'
  simp only [BitVec.getElem_setWidth, BitVec.getLsbD_setWidth, BitVec.getLsbD_or,
    BitVec.getLsbD_shiftLeft]
  by_cases h : i < 16
  · simp [h, hi']
  · have hlo : lo.getLsbD i = false := BitVec.getLsbD_of_ge _ _ (by omega)
    have hhi : hi.getLsbD (i - 8) = false := BitVec.getLsbD_of_ge _ _ (by omega)
    simp [h, hlo, hhi]

theorem trunc_readSplit (phys lin : U64) (s : Cpu) :
    trunc .w16 (u64 (readSplit phys lin 2 s).1) = u64 (readSplit phys lin 2 s).1 := by
  unfold readSplit
  rw [bind_run, bind_run, get_run]
  split
  · exact (by decide : trunc .w16 (u64 (0 : U128)) = u64 (0 : U128))
  · exact trunc_pair _ _

theorem trunc_readRmW16 (m : ModRm) (s : Cpu) :
    trunc .w16 (readRmW m .w16 s).1 = (readRmW m .w16 s).1 := by
  unfold readRmW
  split
  · exact trunc_trunc .w16 (s.reg64 m.rm)
  · rw [bind_run]
    unfold readRmAt
    rw [bind_run, get_run]
    split
    · split
      · exact BitVec.zero_and
      · exact trunc_readSplit _ _ _
    · exact trunc_u64_u16 _

/-! ## Where each kind of write lands -/

namespace Cpu

variable (s : Cpu)

theorem liveIp_setIp (v : U16) : (s.setIp v).liveIp = s.land true (u64 v) := by
  unfold land liveIp setIp
  cases s.pe <;> rfl

theorem liveIp_setEip (v : U32) : (s.setEip v).liveIp = s.land false (u64 v) := by
  unfold land liveIp setEip
  cases s.pe <;> rfl

theorem liveIp_setRip (v : U64) : ({ s with rip := v } : Cpu).liveIp = s.land false v := by
  unfold land liveIp
  cases s.pe <;> rfl

/-- The register a relative branch moves follows the mode and the operand size. -/
def relToIp : Bool := !s.long64 && !s.opsize

theorem liveIp_branchRel (rel : U64) :
    (s.branchRel rel).liveIp = s.land s.relToIp (trunc s.stackWidth (s.liveIp + rel)) := by
  unfold branchRel relToIp stackWidth
  cases hl : s.long64 with
  | true =>
    simp only [if_true, Bool.not_true, Bool.false_and, trunc_w64]
    rw [liveIp_setRip]
    unfold land liveIp
    cases s.pe <;> rfl
  | false =>
    cases ho : s.opsize with
    | true =>
      simp only [Bool.false_eq_true, if_false, if_true, Bool.not_true, Bool.and_false]
      rw [liveIp_setEip, eip, u64_u32_sum]
      unfold land liveIp
      cases s.pe <;> rfl
    | false =>
      simp only [Bool.false_eq_true, if_false, Bool.not_false, Bool.and_self]
      refine (s.liveIp_setIp _).trans ?_
      rw [u64_u16_sum]
      unfold land liveIp
      cases s.pe <;> rfl

/-- RIP is set at 32 bits at least: a word of 16 bits has to be one already. -/
theorem liveIp_jumpTo {v : U64} (h : s.stackWidth = .w16 → trunc .w16 v = v) :
    (s.jumpTo v).liveIp = s.land false (trunc s.stackWidth v) := by
  unfold jumpTo
  cases hl : s.long64 with
  | true =>
    simp only [stackWidth, hl, if_true, trunc_w64]
    exact s.liveIp_setRip v
  | false =>
    rw [if_neg Bool.false_ne_true, liveIp_setEip, u64_u32]
    cases ho : s.opsize with
    | true => simp only [stackWidth, hl, ho, Bool.false_eq_true, if_false, if_true]
    | false =>
      have hw : s.stackWidth = .w16 := by simp [stackWidth, hl, ho]
      rw [hw, trunc_of_w16 (h hw), h hw]

end Cpu

/-! ## What a transfer should do -/

/-- The branches, calls and returns. -/
def Inst.transfers : Inst → Bool
  | .jmpRel8 _ | .jmpRel16 _ | .jmpRel32 _ | .jcc _ _ | .jcc32 _ _ | .callRel16 _ | .callRel32 _
  | .callRm16 _ | .callRm32 _ | .jmpRm16 _ | .jmpRm32 _ | .ret | .ret32 | .retImm _ _ | .loop _ _
  | .jmpFar _ _ | .jmpFar32 _ _ | .callFar _ _ | .callFar32 _ _ | .retf | .retf32 => true
  | _ => false

namespace Cpu

variable (s : Cpu)

/-- The operand size of a transfer. A near one has 64 bits in 64-bit mode. -/
def transferWidth : Inst → Width
  | .jmpRel16 _ | .callRel16 _ | .callRm16 _ | .jmpRm16 _ | .ret | .jmpFar _ _ | .callFar _ _
  | .retf => .w16
  | .retImm _ w32 => if s.long64 then .w64 else if w32 then .w32 else .w16
  | .jmpFar32 _ _ | .callFar32 _ _ => .w32
  | .retf32 => if s.long64 then .w64 else .w32
  | _ => s.stackWidth

/-- The word on top of the stack. -/
def stackTop (w : Width) : U64 := (popW w s).1

/-- The displaced pointer, or the target loaded. -/
def destination (i : Inst) : U64 :=
  match i with
  | .jmpRel8 rel | .jcc _ rel | .loop _ rel => s.liveIp + sx64 rel
  | .jmpRel16 rel | .callRel16 rel => s.liveIp + sx64 rel
  | .jmpRel32 rel | .jcc32 _ rel | .callRel32 rel => s.liveIp + sx64 rel
  | .callRm16 m | .jmpRm16 m | .callRm32 m | .jmpRm32 m => (readRmW m (s.transferWidth i) s).1
  | .jmpFar off _ | .callFar off _ => u64 off
  | .jmpFar32 off _ | .callFar32 off _ => u64 off
  | _ => s.stackTop (s.transferWidth i)

/-- LOOP's count stepped, and its test, at a width. -/
def counted (w : Width) (cond : LoopCond) : Cpu :=
  if cond = .jcxz then s else s.setRegWRaw 1 w (s.regW 1 w - 1)

def countTest (w : Width) (cond : LoopCond) : Bool :=
  let c := s.regW 1 w
  match cond with
  | .jcxz => c == 0
  | .loop => c != 0
  | .loopz => c != 0 && s.getFlag Flags.zf
  | .loopnz => c != 0 && !s.getFlag Flags.zf

/-- Whether the instruction goes anywhere, with LOOP counting at width `w`. -/
def taken (w : Width) : Inst → Bool
  | .jcc cond _ | .jcc32 cond _ => cond.test s
  | .loop cond _ => (s.counted w cond).countTest w cond
  | _ => true

/-- The next instruction pointer: the target at the operand size, or the next instruction. -/
def arrival (i : Inst) : U64 :=
  if s.taken s.asize i then trunc (s.transferWidth i) (s.destination i) else s.liveIp

/-! ## What the arms do -/

/-- The arm writes IP, and not RIP. -/
def writesIp : Inst → Bool
  | .jmpRel16 _ | .callRel16 _ | .callRm16 _ | .jmpRm16 _ | .ret | .jmpFar _ _ | .callFar _ _
  | .retf => true
  | .retImm _ w32 => !s.long64 && !w32
  | .loop _ _ => if s.addr64 then s.relToIp else !s.opsize
  | .callRm32 _ | .jmpRm32 _ | .ret32 | .jmpFar32 _ _ | .callFar32 _ _ | .retf32 => false
  | _ => s.relToIp

/-- What it writes: LOOP cuts at the operand size unless addresses have 64 bits, and RETF pops
64 bits in all of long mode. -/
def written (i : Inst) : U64 :=
  match i with
  | .loop _ _ =>
    trunc (if s.addr64 then s.stackWidth else if s.opsize then .w32 else .w16) (s.destination i)
  | .retf32 => if s.longMode then s.stackTop .w64 else s.stackTop .w32
  | _ => trunc (s.transferWidth i) (s.destination i)

end Cpu

/-! ## Each arm -/

section Arms

variable (s : Cpu)

theorem sx64_low {n k : Nat} (hk : k ≤ 64) (rel : BitVec n) :
    (sx64 rel).setWidth k = rel.signExtend k := by
  ext i hi
  simp [sx64, BitVec.getElem_signExtend, show i < 64 by omega]

theorem u64_ip_rel (v : U16) (rel : U16) : u64 (v + rel) = trunc .w16 (u64 v + sx64 rel) := by
  rw [← u64_u16_sum, show u16 (sx64 rel) = rel from
    (sx64_low (by decide) rel).trans (BitVec.signExtend_eq rel)]

/-- A 16-bit displacement added to IP. -/
theorem liveIp_moveIp (rel : U16) :
    (s.setIp (s.ip + rel)).liveIp = s.land true (trunc .w16 (s.liveIp + sx64 rel)) := by
  rw [liveIp_setIp, u64_ip_rel]
  unfold land liveIp
  cases s.pe <;> rfl

theorem land_loadSeg (sel : U16) (toIp : Bool) (v : U64) :
    (s.loadSeg .cs sel).land toIp v = s.land toIp v := by
  obtain ⟨hpe, hip, hrip⟩ := liveIp_loadSeg s sel
  unfold land liveIp
  rw [hpe, hip, hrip]

theorem live_loadSeg (sel : U16) : (s.loadSeg .cs sel).liveIp = s.liveIp := by
  obtain ⟨hpe, hip, hrip⟩ := liveIp_loadSeg s sel
  rw [liveIp, liveIp, hpe, hip, hrip]

variable {s} {t : Cpu}

theorem Cpu.Steers.relToIp (h : Steers s t) : t.relToIp = s.relToIp := by
  obtain ⟨-, -, -, hop, hlong⟩ := h.fields
  rw [Cpu.relToIp, Cpu.relToIp, hop, hlong]

theorem Cpu.Steers.stackWidth (h : Steers s t) : t.stackWidth = s.stackWidth := by
  obtain ⟨-, -, -, hop, hlong⟩ := h.fields
  rw [Cpu.stackWidth, Cpu.stackWidth, hop, hlong]

theorem Cpu.Steers.branchRel (h : Steers s t) (rel : U64) : (t.branchRel rel).liveIp =
    s.land s.relToIp (trunc s.stackWidth (s.liveIp + rel)) := by
  rw [liveIp_branchRel, h.land, h.relToIp, h.stackWidth, h.liveIp]

theorem Cpu.Steers.jumpTo (h : Steers s t) {v : U64}
    (hv : s.stackWidth = .w16 → trunc .w16 v = v) :
    (t.jumpTo v).liveIp = s.land false (trunc s.stackWidth v) := by
  rw [liveIp_jumpTo t (by rwa [h.stackWidth]), h.land, h.stackWidth]

theorem Cpu.Steers.setIp (h : Steers s t) (v : U64) :
    (t.setIp (u16 v)).liveIp = s.land true (trunc .w16 v) := by
  rw [liveIp_setIp, u64_u16, h.land]

variable (s)

theorem live_jcc {n : Nat} (cond : Cond) (rel : BitVec n) : (jcc cond (sx64 rel) s).2.liveIp =
    if cond.test s then s.land s.relToIp (trunc s.stackWidth (s.liveIp + sx64 rel))
    else s.liveIp := by
  show (if cond.test s then s.branchRel (sx64 rel) else s).liveIp = _
  split
  · exact s.liveIp_branchRel _
  · rfl

theorem live_ret : (ret s).2.liveIp = s.land true (trunc .w16 (s.stackTop .w16)) :=
  (steers_popW .w16 s).setIp _

theorem live_ret32 :
    (ret32 s).2.liveIp = s.land false (trunc s.stackWidth (s.stackTop s.stackWidth)) :=
  (steers_popW s.stackWidth s).jumpTo fun h => h ▸ trunc_popW .w16 (by decide) s

theorem live_retImm (imm : U16) (w32 : Bool) : (retImm imm w32 s).2.liveIp =
    s.land (s.writesIp (.retImm imm w32)) (s.written (.retImm imm w32)) := by
  unfold retImm written writesIp destination transferWidth
  rw [bind_run, get_run]
  cases hl : s.long64 with
  | true =>
    simp only [if_true, Bool.not_true, Bool.false_and, trunc_w64]
    exact (liveIp_setRip _ _).trans ((steers_popW .w64 s).land _ _)
  | false =>
    cases w32 with
    | true =>
      simp only [Bool.false_eq_true, if_false, if_true, Bool.not_true, Bool.and_false]
      refine (liveIp_setEip _ _).trans ?_
      rw [u64_u32]
      exact (steers_popW .w32 s).land _ _
    | false =>
      simp only [Bool.false_eq_true, if_false, Bool.not_false, Bool.and_self]
      refine (liveIp_setIp _ _).trans ?_
      rw [u64_u16]
      exact (steers_popW .w16 s).land _ _

theorem live_callRel16 (rel : U16) : (callRel16 rel s).2.liveIp =
    s.land true (trunc .w16 (s.liveIp + sx64 rel)) := by
  have h := steers_pushW .w16 (u64 s.ip) s
  refine (liveIp_moveIp (pushW .w16 (u64 s.ip) s).2 rel).trans ?_
  rw [h.land, h.liveIp]

theorem live_callRm16 (m : ModRm) : (callRm16 m s).2.liveIp =
    s.land true (trunc .w16 (readRmW m .w16 s).1) :=
  Steers.setIp (IsTrans.trans _ _ _ (steers_readRmW m .w16 s) (steers_pushW .w16 _ _)) _

theorem live_jmpRm16 (m : ModRm) : (jmpRm16 m s).2.liveIp =
    s.land true (trunc .w16 (readRmW m .w16 s).1) :=
  (steers_readRmW m .w16 s).setIp _

theorem trunc_readRmW (m : ModRm) (h : s.stackWidth = .w16) :
    trunc .w16 (readRmW m s.stackWidth s).1 = (readRmW m s.stackWidth s).1 := by
  rw [h]
  exact trunc_readRmW16 m s

theorem live_jmpRm32 (m : ModRm) : (jmpRm32 m s).2.liveIp =
    s.land false (trunc s.stackWidth (readRmW m s.stackWidth s).1) := by
  have hrun : (jmpRm32 m s).2 =
      ((readRmW m s.stackWidth s).2.jumpTo (readRmW m s.stackWidth s).1).invalidatePhysIp := rfl
  rw [hrun]
  exact (steers_readRmW m s.stackWidth s).jumpTo (trunc_readRmW s m)

/-- With no fault what is done unless something is pending was done. -/
theorem commit_run {g : Cpu → Cpu} (u : Cpu)
    (hf : ((do if (← get).pendingException.isSome then pure () else modify g : Exec Unit)
      u).2.pendingException = none) :
    ((do if (← get).pendingException.isSome then pure () else modify g : Exec Unit) u).2 = g u := by
  rw [bind_run, get_run, ite_run] at hf ⊢
  split
  · rename_i hp
    rw [if_pos hp] at hf
    have hnone : u.pendingException = none := hf
    rw [hnone] at hp
    cases hp
  · rfl

theorem live_callRel32 (rel : U64) (hf : (callRel32 rel s).2.pendingException = none) :
    (callRel32 rel s).2.liveIp = s.land s.relToIp (trunc s.stackWidth (s.liveIp + rel)) :=
  (congrArg liveIp (commit_run (pushW s.stackWidth s.nextIp s).2 hf)).trans
    ((steers_pushW s.stackWidth s.nextIp s).branchRel rel)

theorem run_callRm32 (m : ModRm) (hf : (callRm32 m s).2.pendingException = none) :
    (callRm32 m s).2 = ((pushW s.stackWidth (readRmW m s.stackWidth s).2.nextIp
      (readRmW m s.stackWidth s).2).2.jumpTo (readRmW m s.stackWidth s).1).invalidatePhysIp := by
  unfold callRm32 at hf ⊢
  rw [bind_run, get_run, bind_run] at hf ⊢
  dsimp only at hf ⊢
  generalize readRmW m s.stackWidth s = r at hf ⊢
  rw [bind_run, get_run, bind_run] at hf ⊢
  exact commit_run _ hf

theorem live_callRm32 (m : ModRm) (hf : (callRm32 m s).2.pendingException = none) :
    (callRm32 m s).2.liveIp =
      s.land false (trunc s.stackWidth (readRmW m s.stackWidth s).1) := by
  have h := IsTrans.trans _ _ _ (steers_readRmW m s.stackWidth s)
    (steers_pushW s.stackWidth (readRmW m s.stackWidth s).2.nextIp _)
  rw [run_callRm32 s m hf]
  exact h.jumpTo (trunc_readRmW s m)

theorem live_jmpFar (off sel : U16) :
    (jmpFar off sel s).2.liveIp = s.land true (trunc .w16 (u64 off)) := by
  refine (liveIp_setIp (s.loadSeg .cs sel) off).trans ?_
  rw [land_loadSeg, trunc_u64_u16]

theorem live_jmpFar32 (off : U32) (sel : U16) :
    (jmpFar32 off sel s).2.liveIp = s.land false (trunc .w32 (u64 off)) := by
  refine (liveIp_setEip (s.loadSeg .cs sel) off).trans ?_
  rw [land_loadSeg, trunc_u64_u32]

theorem live_callFar (off sel : U16) :
    (callFar off sel s).2.liveIp = s.land true (trunc .w16 (u64 off)) := by
  have h := IsTrans.trans _ _ _ (steers_pushW .w16 (u64 s.cs) s)
    (steers_pushW .w16 (u64 s.ip) (pushW .w16 (u64 s.cs) s).2)
  exact (live_jmpFar _ off sel).trans (h.land _ _)

theorem live_callFar32 (off : U32) (sel : U16) :
    (callFar32 off sel s).2.liveIp = s.land false (trunc .w32 (u64 off)) := by
  have h := IsTrans.trans _ _ _ (steers_pushW .w32 (u64 (u32 s.cs)) s)
    (steers_pushW .w32 (u64 s.eip) (pushW .w32 (u64 (u32 s.cs)) s).2)
  exact (live_jmpFar32 _ off sel).trans (h.land _ _)

/-- The second pop and the segment load leave the pointer where the first put it. -/
theorem live_retf : (retf s).2.liveIp = s.land true (trunc .w16 (s.stackTop .w16)) := by
  have h := steers_popW .w16 s
  refine (live_loadSeg _ _).trans ?_
  refine (steers_popW .w16 ((popW .w16 s).2.setIp (u16 (popW .w16 s).1))).liveIp.trans ?_
  exact h.setIp _

theorem live_retf32 : (retf32 s).2.liveIp = s.land false (s.written .retf32) := by
  unfold retf32 written stackTop
  rw [bind_run, get_run]
  cases s.longMode with
  | true =>
    have h := steers_popW .w64 s
    rw [if_pos rfl, bind_run, if_pos rfl]
    generalize popW .w64 s = p at h ⊢
    have h' := IsTrans.trans _ _ _ h (steers_popW .w64 p.2)
    rw [bind_run]
    generalize popW .w64 p.2 = q at h' ⊢
    refine (liveIp_setRip (q.2.loadSeg .cs (u16 q.1)) p.1).trans ?_
    rw [land_loadSeg, h'.land]
  | false =>
    have h := steers_popW .w32 s
    have hv := trunc_popW .w32 (by decide) s
    have h' := IsTrans.trans _ _ _ h (steers_popW .w32 (popW .w32 s).2)
    simp only [Bool.false_eq_true, if_false, pop32, bind_run, pure_run, modify_run]
    generalize popW .w32 (popW .w32 s).2 = q at h' ⊢
    refine (liveIp_setEip (q.2.loadSeg .cs (u16 (u32 q.1))) (u32 (popW .w32 s).1)).trans ?_
    rw [land_loadSeg, h'.land, u64_u32, hv]

theorem live_loopBranch (cond : LoopCond) (rel : U8) : (s.loopBranch rel).liveIp =
    s.land (s.writesIp (.loop cond rel)) (s.written (.loop cond rel)) := by
  unfold loopBranch writesIp written destination
  cases s.addr64 with
  | true => exact s.liveIp_branchRel _
  | false =>
    cases s.opsize with
    | true =>
      simp only [Bool.false_eq_true, if_false, if_true, Bool.not_true]
      rw [liveIp_setEip, ← sx64_low (by decide), eip, u64_u32_sum]
      unfold land liveIp
      cases s.pe <;> rfl
    | false =>
      simp only [Bool.false_eq_true, if_false, Bool.not_false]
      rw [liveIp_setIp, ← sx64_low (by decide), u64_u16_sum]
      unfold land liveIp
      cases s.pe <;> rfl

/-- LOOP counts, tests and branches at the code's width. -/
theorem run_loop (cond : LoopCond) (rel : U8) : (loop cond rel s).2 =
    if (s.counted s.loopWidth cond).countTest s.loopWidth cond then
      (s.counted s.loopWidth cond).loopBranch rel else s.counted s.loopWidth cond := by
  cases cond <;> rfl

/-- Counting moves neither pointer and none of the sizes. -/
theorem live_loop (cond : LoopCond) (rel : U8) : (loop cond rel s).2.liveIp =
    if s.taken s.loopWidth (.loop cond rel) then
      s.land (s.writesIp (.loop cond rel)) (s.written (.loop cond rel)) else s.liveIp := by
  have hrun := run_loop s cond rel
  obtain ⟨t, ht⟩ : ∃ t, t = s.counted s.loopWidth cond := ⟨_, rfl⟩
  rw [← ht] at hrun
  have hlive : t.liveIp = s.liveIp := by
    rw [ht]
    cases cond <;> rfl
  have hland : (t.loopBranch rel).liveIp =
      s.land (s.writesIp (.loop cond rel)) (s.written (.loop cond rel)) := by
    rw [live_loopBranch t cond rel, ht]
    cases cond <;> rfl
  rw [hrun, taken, ← ht]
  split
  · exact hland
  · exact hlive

end Arms

/-! ## The live pointer after a transfer -/

section Arrival

variable {s : Cpu} {i : Inst}

/-- One arm at a time: a taken transfer writes its own pointer, which is live or is not. -/
theorem liveIp_execute (hi : i.transfers) (hf : (execute i s).2.pendingException = none) :
    (execute i s).2.liveIp =
      if s.taken s.loopWidth i then s.land (s.writesIp i) (s.written i) else s.liveIp := by
  unfold Inst.transfers at hi
  split at hi
  case h_1 rel => exact s.liveIp_branchRel _
  case h_2 rel => exact liveIp_moveIp s rel
  case h_3 rel => exact s.liveIp_branchRel _
  case h_4 cond rel => exact live_jcc s cond rel
  case h_5 cond rel => exact live_jcc s cond rel
  case h_6 rel => exact live_callRel16 s rel
  case h_7 rel => exact live_callRel32 s _ hf
  case h_8 m => exact live_callRm16 s m
  case h_9 m => exact live_callRm32 s m hf
  case h_10 m => exact live_jmpRm16 s m
  case h_11 m => exact live_jmpRm32 s m
  case h_12 => exact live_ret s
  case h_13 => exact live_ret32 s
  case h_14 imm w32 => exact live_retImm s imm w32
  case h_15 cond rel => exact live_loop s cond rel
  case h_16 off sel => exact live_jmpFar s off sel
  case h_17 off sel => exact live_jmpFar32 s off sel
  case h_18 off sel => exact live_callFar s off sel
  case h_19 off sel => exact live_callFar32 s off sel
  case h_20 => exact live_retf s
  case h_21 => exact live_retf32 s
  case h_22 => cases hi

/-! ## When it is the target -/

namespace Cpu

/-- The arms that cut otherwise than their operand size does: LOOP with a 32-bit address size in
64-bit mode, and RETF in compatibility mode. -/
def CutsRight (s : Cpu) (i : Inst) : Prop :=
  match i with
  | .loop _ _ => s.long64 = true → s.addr64 = false →
      trunc (if s.opsize then .w32 else .w16) (s.destination i) = s.destination i
  | .retf32 => s.longMode = true → s.long64 = false → s.stackTop .w64 = s.stackTop .w32
  | _ => True

/-- The counts agree on whether to go, and the pointer written is the live one or the target is
the instruction that is next anyway. -/
def SteersRight (s : Cpu) (i : Inst) : Prop :=
  match s.taken s.loopWidth i, s.taken s.asize i with
  | false, false => True
  | true, true =>
    if s.writesIp i = s.pe then s.liveIp = trunc (s.transferWidth i) (s.destination i)
    else s.CutsRight i
  | false, true => s.liveIp = trunc (s.transferWidth i) (s.destination i)
  | true, false => s.writesIp i = s.pe ∨ s.written i = s.liveIp

end Cpu

theorem written_iff (s : Cpu) (i : Inst) :
    s.written i = trunc (s.transferWidth i) (s.destination i) ↔ s.CutsRight i := by
  unfold written CutsRight
  split
  · unfold transferWidth Cpu.stackWidth
    cases s.addr64 <;> cases s.long64 <;> simp
  · unfold destination transferWidth Cpu.long64
    have hv := trunc_popW .w32 (by decide) s
    cases s.longMode <;> cases (s.segDesc .cs).l <;> simp [stackTop, hv]
  · simp

theorem arrival_iff (hi : i.transfers) (hf : (execute i s).2.pendingException = none) :
    (execute i s).2.liveIp = s.arrival i ↔ s.SteersRight i := by
  rw [liveIp_execute hi hf, arrival, SteersRight, ← written_iff]
  unfold land
  cases s.taken s.loopWidth i <;> cases s.taken s.asize i
  · simp
  · simp
  · simp only [if_true, Bool.false_eq_true, if_false]
    split
    · simp [*]
    · simp [*]
  · simp only [if_true]
    split <;> rfl

end Arrival

/-! ## LOOP's count -/

section Count

theorem toNat_trunc16 (v : U64) : (trunc .w16 v).toNat = v.toNat % 65536 := by
  rw [← u64_u16, BitVec.toNat_setWidth, BitVec.toNat_setWidth]
  omega

theorem toNat_trunc32 (v : U64) : (trunc .w32 v).toNat = v.toNat % 4294967296 := by
  rw [← u64_u32, BitVec.toNat_setWidth, BitVec.toNat_setWidth]
  omega

/-- Replacing the low 16 bits takes the old ones away and adds the new. -/
theorem mergeW_w16 (v x : U64) : mergeW v .w16 x = v - trunc .w16 v + trunc .w16 x := by
  have hsplit (y : U64) : v &&& ~~~(0xFFFF : U64) ||| y &&& 0xFFFF =
      (v &&& ~~~(0xFFFF : U64)) + (y &&& 0xFFFF) := by
    refine (BitVec.add_eq_or_of_and_eq_zero _ _ ?_).symm
    ext i
    simp only [BitVec.getElem_and, BitVec.getElem_not, BitVec.getElem_zero]
    cases (65535 : U64)[i] <;> simp
  have hv : (v &&& ~~~(0xFFFF : U64)) + (v &&& 0xFFFF) = v := by
    rw [← hsplit]
    ext i
    simp only [BitVec.getElem_or, BitVec.getElem_and, BitVec.getElem_not]
    cases (65535 : U64)[i] <;> simp
  have hhigh : v &&& ~~~(0xFFFF : U64) = v - trunc .w16 v := (BitVec.eq_sub_iff_add_eq).mpr hv
  exact (hsplit x).trans (by rw [hhigh]; rfl)

theorem toNat_merge16 (v : U64) : (mergeW v .w16 (trunc .w16 v - 1)).toNat =
    v.toNat / 65536 * 65536 + (v.toNat + 65535) % 65536 := by
  have hv := v.isLt
  rw [mergeW_w16, BitVec.toNat_add, BitVec.toNat_sub, toNat_trunc16, toNat_trunc16,
    BitVec.toNat_sub, toNat_trunc16]
  rw [show ((1 : U64)).toNat = 1 from rfl]
  omega

theorem toNat_merge32 (v : U64) : (mergeW v .w32 (trunc .w32 v - 1)).toNat =
    (v.toNat + 4294967295) % 4294967296 := by
  have hv := v.isLt
  refine (toNat_trunc32 (trunc .w32 v - 1)).trans ?_
  rw [BitVec.toNat_sub, toNat_trunc32, show ((1 : U64)).toNat = 1 from rfl]
  omega

/-- Stepping CX and stepping ECX come to the same where neither borrows nor clears. -/
theorem merge_eq_iff (v : U64) :
    mergeW v .w16 (trunc .w16 v - 1) = mergeW v .w32 (trunc .w32 v - 1) ↔
      v.toNat < 2 ^ 32 ∧ v.toNat % 2 ^ 16 ≠ 0 := by
  rw [← BitVec.toNat_inj, toNat_merge16, toNat_merge32]
  have hv := v.isLt
  omega

variable (s : Cpu)

/-- The registers are those of a count at the address size. -/
def Cpu.Counts (i : Inst) : Prop :=
  ∀ cond rel, i = .loop cond rel → (execute i s).2.regs = (s.counted s.asize cond).regs

/-- The code counts by the operand size outside 64-bit addressing. -/
def Cpu.CountsRight (i : Inst) : Prop :=
  ∀ cond rel, i = .loop cond rel → cond = .jcxz ∨ s.loopWidth = s.asize ∨
    (s.regs 1).toNat < 2 ^ 32 ∧ (s.regs 1).toNat % 2 ^ 16 ≠ 0

theorem regs_branchRel (rel : U64) : (s.branchRel rel).regs = s.regs := by
  unfold branchRel
  split
  · rfl
  · split <;> rfl

theorem regs_loopBranch (rel : U8) : (s.loopBranch rel).regs = s.regs := by
  unfold loopBranch
  split
  · exact regs_branchRel s _
  · split <;> rfl

theorem regs_loop (cond : LoopCond) (rel : U8) :
    (loop cond rel s).2.regs = (s.counted s.loopWidth cond).regs := by
  rw [run_loop]
  split
  · exact regs_loopBranch _ _
  · rfl

/-- Two counts leave the same registers where they leave the same RCX. -/
theorem counted_regs_iff {cond : LoopCond} (hc : cond ≠ .jcxz) (w w' : Width) :
    (s.counted w cond).regs = (s.counted w' cond).regs ↔
      mergeW (s.regs 1) w (trunc w (s.regs 1) - 1) =
        mergeW (s.regs 1) w' (trunc w' (s.regs 1) - 1) := by
  unfold counted
  rw [if_neg hc, if_neg hc]
  constructor
  · intro h
    exact congrFun h 1
  · intro h
    funext j
    by_cases hj : j = 1
    · rw [hj]
      exact h
    · exact (if_neg hj).trans (if_neg hj).symm

theorem counts_iff (i : Inst) : s.Counts i ↔ s.CountsRight i := by
  refine forall_congr' fun cond => forall_congr' fun rel => forall_congr' fun hi => ?_
  subst hi
  refine Iff.trans (b := (s.counted s.loopWidth cond).regs = (s.counted s.asize cond).regs)
    (Eq.congr (regs_loop s cond rel) rfl) ?_
  by_cases hc : cond = .jcxz
  · simp [hc, counted]
  rw [counted_regs_iff s hc, or_iff_right hc]
  by_cases hw : s.loopWidth = s.asize
  · rw [hw]
    exact iff_of_true rfl (.inl rfl)
  rw [or_iff_right hw, ← merge_eq_iff]
  have hwidths : s.loopWidth = .w16 ∧ s.asize = .w32 ∨ s.loopWidth = .w32 ∧ s.asize = .w16 := by
    revert hw
    unfold loopWidth asize
    cases s.addr64 <;> cases s.opsize <;> cases s.addrsize <;> decide
  rcases hwidths with ⟨hl, ha⟩ | ⟨hl, ha⟩
  · rw [hl, ha]
  · rw [hl, ha]
    exact eq_comm

end Count

end X86Emu
