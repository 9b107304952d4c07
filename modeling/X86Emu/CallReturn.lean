import X86Emu.Branches
import X86Emu.PushedWords

/-!
# Calls and returns

A call stores the address of the next instruction on top of the stack, at the width of its operand
size. A return of that size finds it there, and the next fetch is after the call.
-/
namespace X86Emu

open StateRules Cpu

section Calls

variable (s : Cpu) {w : Width}

/-! ## The address a call pushes -/

def Inst.calls : Inst → Bool
  | .callRel16 _ | .callRel32 _ | .callRm16 _ | .callRm32 _ | .callFar _ _ | .callFar32 _ _ => true
  | _ => false

/-- The state a call pushes its return address in. -/
def Cpu.beforePush (i : Inst) : Cpu :=
  match i with
  | .callRm16 m => (readRmW m .w16 s).2
  | .callRm32 m => (readRmW m s.stackWidth s).2
  | .callFar _ _ => (push16 s.cs s).2
  | .callFar32 _ _ => (push32 (u32 s.cs) s).2
  | _ => s

/-- What pushing `v` as the return address leaves. -/
def Cpu.afterPush (i : Inst) (v : U64) : Cpu := (pushW (s.transferWidth i) v (s.beforePush i)).2

/-- The call leaves the memory and the registers of a push of the live pointer. -/
def Cpu.Pushes (i : Inst) : Prop :=
  (execute i s).2.mem = (s.afterPush i s.liveIp).mem ∧
    (execute i s).2.regs = (s.afterPush i s.liveIp).regs

/-- The arm pushes IP, and not RIP. -/
def Inst.pushesIp : Inst → Bool
  | .callRel16 _ | .callRm16 _ | .callFar _ _ => true
  | _ => false

/-- The pointer it pushes. -/
def Cpu.pushedIp (i : Inst) : U64 := if i.pushesIp then u64 s.ip else s.rip

/-- The pointer pushed is the live one, or the two say the same at the operand size. -/
def Cpu.PushesRight (i : Inst) : Prop :=
  i.pushesIp = s.pe → trunc (s.transferWidth i) (u64 s.ip) = trunc (s.transferWidth i) s.rip

/-- A push stores the low bits of its word. -/
theorem pushW_congr {v v' : U64} (hw : w ≠ .w8) (h : trunc w v = trunc w v') :
    pushW w v = pushW w v' := by
  have hwrite : ∀ a, stackWrite a w v = stackWrite a w v' := by
    intro a
    cases w with
    | w8 => exact absurd rfl hw
    | w16 =>
      have hv : u16 v = u16 v' := by rw [← u16_u64 (u16 v), u64_u16, h, ← u64_u16, u16_u64]
      unfold stackWrite
      rw [hv]
    | w32 =>
      have hv : u32 v = u32 v' := by rw [← u32_u64 (u32 v), u64_u32, h, ← u64_u32, u32_u64]
      unfold stackWrite
      rw [hv]
    | w64 => rw [← trunc_w64 v, h, trunc_w64]
  unfold pushW
  simp only [hwrite]

/-- The word an arm pushes is the live pointer's at the operand size, where it pushes right. -/
theorem pushesRight_iff (i : Inst) : s.PushesRight i ↔
    trunc (s.transferWidth i) s.liveIp = trunc (s.transferWidth i) (s.pushedIp i) := by
  unfold PushesRight liveIp pushedIp
  cases i.pushesIp <;> cases s.pe <;> simp [eq_comm]

theorem trunc_nextIp : trunc s.stackWidth s.nextIp = trunc s.stackWidth s.rip := by
  unfold nextIp stackWidth eip
  cases s.long64 with
  | true => rfl
  | false =>
    rw [if_neg Bool.false_ne_true, if_neg Bool.false_ne_true, u64_u32]
    cases s.opsize with
    | true => exact trunc_trunc .w32 s.rip
    | false =>
      simp only [trunc, BitVec.and_assoc]
      rfl

theorem stackWidth_ne : s.stackWidth ≠ .w8 := by
  unfold Cpu.stackWidth
  split
  · decide
  · split <;> decide

theorem callWidth_ne {i : Inst} (hi : i.calls) : s.transferWidth i ≠ .w8 := by
  unfold Inst.calls at hi
  split at hi
  case h_1 rel => exact Width.noConfusion
  case h_2 rel => exact stackWidth_ne s
  case h_3 m => exact Width.noConfusion
  case h_4 m => exact stackWidth_ne s
  case h_5 off sel => exact Width.noConfusion
  case h_6 off sel => exact Width.noConfusion
  case h_7 => cases hi

/-! ## What a call does after its push -/

/-- The state after a call has the stack, and the exception pending, of the state after its push. -/
structure Lands (q t : Cpu) : Prop where
  stack : SameStack q t
  pending : t.pendingException = q.pendingException

theorem lands_branchRel (rel : U64) (t : Cpu) : Lands t (t.branchRel rel) := by
  unfold branchRel
  split
  · exact ⟨⟨rfl, rfl, rfl, rfl, rfl, rfl, rfl, rfl⟩, rfl⟩
  · split <;> exact ⟨⟨rfl, rfl, rfl, rfl, rfl, rfl, rfl, rfl⟩, rfl⟩

theorem lands_jumpTo (v : U64) (t : Cpu) : Lands t (t.jumpTo v).invalidatePhysIp := by
  unfold jumpTo
  split <;> exact ⟨⟨rfl, rfl, rfl, rfl, rfl, rfl, rfl, rfl⟩, rfl⟩

theorem lands_loadSeg (sel : U16) (t : Cpu) : Lands t (t.loadSeg .cs sel) := by
  unfold loadSeg
  split <;> exact ⟨⟨rfl, rfl, rfl, rfl, rfl, rfl, rfl, rfl⟩, rfl⟩

/-- With no fault a call lands as a push of its pointer does. -/
theorem lands_execute {i : Inst} (hi : i.calls) (hf : (execute i s).2.pendingException = none)
    {v : U64} (hword : trunc (s.transferWidth i) v = trunc (s.transferWidth i) (s.pushedIp i)) :
    Lands (s.afterPush i v) (execute i s).2 := by
  unfold Inst.calls at hi
  split at hi
  case h_1 rel =>
    have hp : pushW .w16 (u64 s.ip) = pushW .w16 v := pushW_congr (by decide) hword.symm
    have hrun : (execute (.callRel16 rel) s).2 =
        (pushW .w16 (u64 s.ip) s).2.setIp ((pushW .w16 (u64 s.ip) s).2.ip + rel) := rfl
    rw [hrun, hp]
    exact ⟨⟨rfl, rfl, rfl, rfl, rfl, rfl, rfl, rfl⟩, rfl⟩
  case h_2 rel =>
    have hp : pushW s.stackWidth s.nextIp = pushW s.stackWidth v :=
      pushW_congr (stackWidth_ne s) ((trunc_nextIp s).trans hword.symm)
    have hrun : (execute (.callRel32 rel) s).2 =
        (pushW s.stackWidth s.nextIp s).2.branchRel (sx64 rel) := commit_run _ hf
    rw [hrun, hp]
    exact lands_branchRel _ _
  case h_3 m =>
    have hip : (readRmW m .w16 s).2.ip = s.ip := (steers_readRmW m .w16 s).fields.2.1
    have hp : pushW .w16 (u64 (readRmW m .w16 s).2.ip) = pushW .w16 v := by
      rw [hip]
      exact pushW_congr (by decide) hword.symm
    have hrun : (execute (.callRm16 m) s).2 = (pushW .w16 (u64 (readRmW m .w16 s).2.ip)
        (readRmW m .w16 s).2).2.setIp (u16 (readRmW m .w16 s).1) := rfl
    rw [hrun, hp]
    exact ⟨⟨rfl, rfl, rfl, rfl, rfl, rfl, rfl, rfl⟩, rfl⟩
  case h_4 m =>
    have hread := steers_readRmW m s.stackWidth s
    have hnext : trunc s.stackWidth (readRmW m s.stackWidth s).2.nextIp =
        trunc s.stackWidth s.rip := by
      have h := trunc_nextIp (readRmW m s.stackWidth s).2
      rwa [hread.stackWidth, hread.fields.2.2.1] at h
    have hp : pushW s.stackWidth (readRmW m s.stackWidth s).2.nextIp = pushW s.stackWidth v :=
      pushW_congr (stackWidth_ne s) (hnext.trans hword.symm)
    have hrun : (execute (.callRm32 m) s).2 = _ := run_callRm32 s m hf
    rw [hrun, hp]
    exact lands_jumpTo _ _
  case h_5 off sel =>
    have hp : pushW .w16 (u64 s.ip) = pushW .w16 v := pushW_congr (by decide) hword.symm
    have hrun : (execute (.callFar off sel) s).2 =
        (((pushW .w16 (u64 s.ip) (push16 s.cs s).2).2.loadSeg .cs sel).setIp
          off).invalidatePhysIp := rfl
    obtain ⟨⟨h1, h2, h3, h4, h5, h6, h7, h8⟩, h9⟩ :=
      lands_loadSeg sel (pushW .w16 v (push16 s.cs s).2).2
    rw [hrun, hp]
    exact ⟨⟨h1, h2, h3, h4, h5, h6, h7, h8⟩, h9⟩
  case h_6 off sel =>
    have hword' : trunc .w32 v = trunc .w32 (u64 s.eip) :=
      hword.trans (by rw [Cpu.eip, u64_u32, trunc_trunc]; rfl)
    have hp : pushW .w32 (u64 s.eip) = pushW .w32 v := pushW_congr (by decide) hword'.symm
    have hrun : (execute (.callFar32 off sel) s).2 =
        (((pushW .w32 (u64 s.eip) (push32 (u32 s.cs) s).2).2.loadSeg .cs sel).setEip
          off).invalidatePhysIp := rfl
    obtain ⟨⟨h1, h2, h3, h4, h5, h6, h7, h8⟩, h9⟩ :=
      lands_loadSeg sel (pushW .w32 v (push32 (u32 s.cs) s).2).2
    rw [hrun, hp]
    exact ⟨⟨h1, h2, h3, h4, h5, h6, h7, h8⟩, h9⟩
  case h_7 => cases hi

/-! ## The return address on the stack -/

/-- The offset of the top of the stack, at the width of the mode. -/
def Cpu.topOffset : U64 := if s.pe then s.stackPointer else u64 s.sp

/-- The offset `n` bytes further down. -/
def Cpu.offsetDown (n : Nat) : U64 :=
  if s.pe then s.pushTarget n else u64 (s.sp - BitVec.ofNat 16 n)

/-- The words a call pushes. -/
def Inst.pushed : Inst → Nat
  | .callFar _ _ | .callFar32 _ _ => 2
  | _ => 1

/-- Memory stands behind the slot of the return address, and no seam splits it. -/
def Cpu.SlotHeld (i : Inst) : Prop :=
  ∀ p, (s.beforePush i).slotPlace (s.transferWidth i) = some p →
    (s.beforePush i).mem.TakesWord p (s.transferWidth i)

/-- The returns. -/
def Inst.returns : Inst → Bool
  | .ret | .ret32 | .retImm _ _ | .retf | .retf32 => true
  | _ => false

/-- The next fetch after this return is at the return address of that call. -/
def Cpu.ReturnsTo (u : Cpu) (r i : Inst) : Prop :=
  (execute r u).2.liveIp = trunc (s.transferWidth i) s.liveIp

/-- The call leaves the return address on top of the stack. From there, and from any later state
with that word on top, a return of the same operand size goes to it just where it steers right. -/
structure Cpu.LeavesReturn (i : Inst) (t : Cpu) : Prop where
  offset : t.topOffset = s.offsetDown (i.pushed * (s.transferWidth i).bytes)
  word : ∀ p, t.topPlace = some p → ∀ k < (s.transferWidth i).bytes,
    t.mem.readU8 (p + BitVec.ofNat 64 k) = byteOf s.liveIp k
  top : (popW (s.transferWidth i) t).2.pendingException = none →
    t.stackTop (s.transferWidth i) = trunc (s.transferWidth i) s.liveIp
  next : ∀ r, r.returns → t.transferWidth r = s.transferWidth i →
    (execute r t).2.pendingException = none → (s.ReturnsTo t r i ↔ t.SteersRight r)
  later : ∀ r u, r.returns → u.transferWidth r = s.transferWidth i →
    u.stackTop (s.transferWidth i) = trunc (s.transferWidth i) s.liveIp →
    (execute r u).2.pendingException = none → (s.ReturnsTo u r i ↔ u.SteersRight r)

instance : Std.Refl PagingOnly := ⟨fun _ => ⟨rfl, rfl⟩⟩

instance : IsTrans Cpu PagingOnly :=
  ⟨fun _ _ _ h k => ⟨IsTrans.trans _ _ _ h.1 k.1, k.2.trans h.2⟩⟩

theorem pagingOnly_readRmW (m : ModRm) (w : Width) : Keeps PagingOnly (readRmW m w) := by
  have haccess (l : U64) (write : Bool) : Keeps PagingOnly (applyPagingAccess l write) :=
    pagingOnly_applyPagingInner _ _ _
  have hsplit (phys lin : U64) (n : Nat) : Keeps PagingOnly (readSplit phys lin n) :=
    (haccess _ _).bind fun _ => .read fun t => by split <;> exact refl t
  unfold readRmW
  split
  · exact .read fun s => refl s
  · refine Keeps.bind (.read fun s => haccess _ _ s) fun addr => .read fun t => ?_
    split
    · split
      · exact refl t
      · exact ((hsplit _ _ _).bind fun _ => .pure _) t
    · exact refl t

theorem noTlb_pushW (w : Width) (v : U64) : (pushW w v s).2.noTlb = s.noTlb := by
  cases hpe : s.pe with
  | true =>
    rw [pushOnly_pushW v hpe]
    rfl
  | false =>
    unfold pushW
    rw [bind_run, get_run]
    dsimp only
    rw [if_neg (by rw [hpe]; decide)]
    rfl

theorem noTlb_beforePush (i : Inst) : (s.beforePush i).noTlb = s.noTlb := by
  have hread (m : ModRm) (w : Width) : (readRmW m w s).2.noTlb = s.noTlb := by
    rw [(pagingOnly_readRmW m w s).1]
    rfl
  unfold beforePush
  split
  · exact hread _ _
  · exact hread _ _
  · exact noTlb_pushW s _ _
  · exact noTlb_pushW s _ _
  · rfl

theorem steers_beforePush (i : Inst) : Steers s (s.beforePush i) := by
  unfold beforePush
  split
  · exact steers_readRmW _ _ s
  · exact steers_readRmW _ _ s
  · exact steers_pushW _ _ s
  · exact steers_pushW _ _ s
  · rfl

variable {s}

/-- A push with no fault moves the top of the stack down by its word. -/
theorem topOffset_pushW {v : U64} {t : Cpu} (h : (pushW w v s).2.pendingException = none)
    (ht : SameStack (pushW w v s).2 t) (hlong : t.long64 = s.long64) :
    t.topOffset = s.offsetDown w.bytes ∧ t.pe = s.pe := by
  have htpe : t.pe = s.pe := ht.pe.trans (steers_pushW w v s).fields.1
  refine ⟨?_, htpe⟩
  unfold topOffset offsetDown
  rw [htpe]
  cases hpe : s.pe with
  | true => exact stackPointer_pushW hpe h ht hlong
  | false => exact congrArg u64 (real_pushW w v hpe ht).2.1

/-- Twice down is down by the sum. -/
theorem offsetDown_add {t : Cpu} {m n : Nat} (h : t.topOffset = s.offsetDown m)
    (hpe : t.pe = s.pe) (hlong : t.long64 = s.long64) :
    t.offsetDown n = s.offsetDown (m + n) := by
  have hadd {k : Nat} (x : BitVec k) :
      x - BitVec.ofNat k m - BitVec.ofNat k n = x - BitVec.ofNat k (m + n) := by
    rw [BitVec.sub_sub, BitVec.ofNat_add]
  unfold topOffset offsetDown at h
  unfold offsetDown
  rw [hpe] at h ⊢
  cases hs : s.pe with
  | false =>
    rw [hs] at h
    have hsp : t.sp = s.sp - BitVec.ofNat 16 m := by
      have h' := congrArg u16 h
      rwa [if_neg Bool.false_ne_true, if_neg Bool.false_ne_true, u16_u64, u16_u64] at h'
    rw [if_neg Bool.false_ne_true, if_neg Bool.false_ne_true, hsp, hadd]
  | true =>
    rw [hs, if_pos rfl, if_pos rfl] at h
    rw [if_pos rfl, if_pos rfl]
    unfold stackPointer pushTarget at h
    unfold pushTarget
    rw [hlong] at h ⊢
    cases hl : s.long64 with
    | true =>
      rw [hl, if_pos rfl, if_pos rfl] at h
      rw [if_pos rfl, if_pos rfl, h, hadd]
    | false =>
      rw [hl, if_neg Bool.false_ne_true, if_neg Bool.false_ne_true] at h
      have hesp : t.esp = s.esp - BitVec.ofNat 32 m := by
        have h' := congrArg u32 h
        rwa [u32_u64, u32_u64] at h'
      rw [if_neg Bool.false_ne_true, if_neg Bool.false_ne_true, hesp, hadd]

theorem offsetDown_zero : s.offsetDown 0 = s.topOffset := by
  unfold offsetDown topOffset pushTarget stackPointer
  rw [show s.rsp - BitVec.ofNat 64 0 = s.rsp from BitVec.sub_zero _,
    show s.esp - BitVec.ofNat 32 0 = s.esp from BitVec.sub_zero _,
    show s.sp - BitVec.ofNat 16 0 = s.sp from BitVec.sub_zero _]

/-- Before its last push a far call has pushed a word, and a near one none. -/
theorem topOffset_beforePush {i : Inst} (hi : i.calls)
    (h : (s.beforePush i).pendingException = none) :
    (s.beforePush i).topOffset = s.offsetDown ((i.pushed - 1) * (s.transferWidth i).bytes) := by
  have hself (q : Cpu) : SameStack q q := ⟨rfl, rfl, rfl, rfl, rfl, rfl, rfl, rfl⟩
  have hzero {n : Nat} : s.topOffset = s.offsetDown ((1 - 1) * n) := by
    rw [Nat.sub_self, Nat.zero_mul, offsetDown_zero]
  have hread (m : ModRm) (w : Width) : (readRmW m w s).2.topOffset = s.topOffset := by
    have hregs := (pagingOnly_readRmW m w s).2
    obtain ⟨hpe, -, -, -, hlong⟩ := (steers_readRmW m w s).fields
    unfold topOffset stackPointer rsp esp sp
    rw [hpe, hlong, hregs]
  have hpush {w : Width} {v : U64} (hnone : (pushW w v s).2.pendingException = none) :
      (pushW w v s).2.topOffset = s.offsetDown ((2 - 1) * w.bytes) := by
    rw [show (2 - 1) * w.bytes = w.bytes from Nat.one_mul _]
    exact (topOffset_pushW hnone (hself _) (steers_pushW w v s).fields.2.2.2.2).1
  unfold Inst.calls at hi
  split at hi
  case h_1 rel => exact hzero
  case h_2 rel => exact hzero
  case h_3 m => exact (hread _ _).trans hzero
  case h_4 m => exact (hread _ _).trans hzero
  case h_5 off sel => exact hpush h
  case h_6 off sel => exact hpush h
  case h_7 => cases hi

/-! ## Returning -/

/-- A pop faults where the translation of the top does, whatever its width. -/
theorem pending_popW (w : Width) (t : Cpu) : (popW w t).2.pendingException =
    if t.pe then (translate .ss t.stackPointer t).2.pendingException
    else t.pendingException := by
  have hset (u : Cpu) (x : U64) :
      (u.setStackPointer x).pendingException = u.pendingException := by
    unfold setStackPointer
    split <;> rfl
  unfold popW
  rw [bind_run, get_run]
  dsimp only
  split
  · rw [bind_run, bind_run, get_run, ite_run]
    split
    · rfl
    · exact hset _ _
  · rfl

/-- A return that does not fault has not faulted at its first pop. -/
theorem pending_return {r : Inst} {t : Cpu} (hr : r.returns) (w : Width)
    (h : (execute r t).2.pendingException = none) : (popW w t).2.pendingException = none := by
  have hkept {b : Width} {u : Cpu} (hk : PendingKept (popW b t).2 u)
      (hu : u.pendingException = none) : (popW w t).2.pendingException = none := by
    rw [pending_popW, ← pending_popW b t]
    by_contra hsome
    have hp := hk (Option.isSome_iff_ne_none.mpr hsome)
    exact hsome (hp.symm.trans hu)
  have hload (u : Cpu) (sel : U16) : (u.loadSeg .cs sel).pendingException = u.pendingException := by
    unfold loadSeg
    split <;> rfl
  unfold Inst.returns at hr
  split at hr
  case h_1 => exact hkept (b := .w16) (fun _ => rfl) h
  case h_2 =>
    have hjump (u : Cpu) (v : U64) : (u.jumpTo v).pendingException = u.pendingException := by
      unfold jumpTo
      split <;> rfl
    exact hkept (b := t.stackWidth) (fun _ => hjump _ _) h
  case h_3 imm w32 =>
    have hrun : (execute (.retImm imm w32) t).2.pendingException =
        (retImm imm w32 t).2.pendingException := rfl
    rw [hrun] at h
    unfold retImm at h
    rw [bind_run, get_run, ite_run, ite_run] at h
    split at h
    · exact hkept (b := .w64) (fun _ => rfl) h
    · split at h
      · exact hkept (b := .w32) (fun _ => rfl) h
      · exact hkept (b := .w16) (fun _ => rfl) h
  case h_4 =>
    refine hkept (b := .w16) (fun hs => ?_) h
    refine (hload _ _).trans ?_
    exact frame_popW (R := PendingKept) .w16 ((popW .w16 t).2.setIp (u16 (popW .w16 t).1)) hs
  case h_5 =>
    have hrun : (execute .retf32 t).2.pendingException = (retf32 t).2.pendingException := rfl
    rw [hrun] at h
    unfold retf32 at h
    rw [bind_run, get_run, ite_run] at h
    split at h
    · refine hkept (b := .w64) (fun hs => ?_) h
      refine (hload _ _).trans ?_
      exact frame_popW (R := PendingKept) .w64 (popW .w64 t).2 hs
    · refine hkept (b := .w32) (fun hs => ?_) h
      refine (hload _ _).trans ?_
      exact frame_popW (R := PendingKept) .w32 (popW .w32 t).2 hs
  case h_6 => cases hr

/-- With the return address on top a return arrives there just where it steers right. -/
theorem returnsTo_iff {i r : Inst} {u : Cpu} (hr : r.returns)
    (hw : u.transferWidth r = s.transferWidth i)
    (htop : u.stackTop (s.transferWidth i) = trunc (s.transferWidth i) s.liveIp)
    (h : (execute r u).2.pendingException = none) : s.ReturnsTo u r i ↔ u.SteersRight r := by
  have htransfer : r.transfers := by cases r <;> first | rfl | cases hr
  have hgoes : u.arrival r = trunc (u.transferWidth r) (u.stackTop (u.transferWidth r)) := by
    cases r <;> first | rfl | cases hr
  rw [← arrival_iff htransfer h, hgoes, hw, htop, trunc_trunc]
  exact Iff.rfl

section Called

variable {i : Inst} (hi : i.calls) (hf : (execute i s).2.pendingException = none)
  (hheld : s.SlotHeld i) (htlb : s.noTlb = false) (hlong : (execute i s).2.long64 = s.long64)
include hf

theorem noFault_push {v : U64} (h : Lands (s.afterPush i v) (execute i s).2) :
    (pushW (s.transferWidth i) v (s.beforePush i)).2.pendingException = none ∧
      (s.beforePush i).pendingException = none := by
  have hnone : (s.afterPush i v).pendingException = none := h.pending.symm.trans hf
  refine ⟨hnone, ?_⟩
  by_contra hsome
  have hkept := frame_pushW (R := PendingKept) (s.transferWidth i) v (s.beforePush i)
    (Option.isSome_iff_ne_none.mpr hsome)
  exact hsome (hkept.symm.trans hnone)

include hi hlong

theorem topOffset_call : (execute i s).2.topOffset =
    s.offsetDown (i.pushed * (s.transferWidth i).bytes) := by
  have hlands := lands_execute s hi hf (v := s.pushedIp i) rfl
  obtain ⟨hnone, hbefore⟩ := noFault_push hf hlands
  obtain ⟨hpe, -, -, -, hlong'⟩ := (steers_beforePush s i).fields
  have hlast := (topOffset_pushW hnone hlands.stack (hlong.trans hlong'.symm)).1
  rw [hlast, offsetDown_add (topOffset_beforePush hi hbefore) hpe hlong', ← Nat.succ_mul]
  congr 2
  cases i <;> rfl

include hheld htlb

/-- The bytes on top after a call are those of the word it pushed. -/
theorem word_call {v p : U64}
    (hv : trunc (s.transferWidth i) v = trunc (s.transferWidth i) (s.pushedIp i))
    (hp : (execute i s).2.topPlace = some p) :
    (execute i s).2.mem.TakesWord p (s.transferWidth i) ∧
      (∀ k < (s.transferWidth i).bytes,
        (execute i s).2.mem.readU8 (p + BitVec.ofNat 64 k) = byteOf v k) ∧
      ((execute i s).2.pe = true → applyPagingAccess ((execute i s).2.linearAddr .ss
        (execute i s).2.stackPointer) false (execute i s).2 = (p, (execute i s).2)) := by
  have hlands := lands_execute s hi hf hv
  exact word_on_top (callWidth_ne s hi) (noFault_push hf hlands).1 hheld hlands.stack
    (hlong.trans (steers_beforePush s i).fields.2.2.2.2.symm)
    ((noTlb_beforePush s i).trans htlb) hp

/-- So is the word popped. -/
theorem stackTop_call {v : U64}
    (hv : trunc (s.transferWidth i) v = trunc (s.transferWidth i) (s.pushedIp i))
    (hpop : (popW (s.transferWidth i) (execute i s).2).2.pendingException = none) :
    (execute i s).2.stackTop (s.transferWidth i) = trunc (s.transferWidth i) v := by
  have hw := callWidth_ne s hi
  obtain ⟨p, hp, hrun⟩ := popW_top hpop
  obtain ⟨htakes, hbytes, hagain⟩ := word_call hi hf hheld htlb hlong hv hp
  have hvalue : (execute i s).2.stackTop (s.transferWidth i) = _ := hrun hagain
  have hcut : trunc (s.transferWidth i) ((execute i s).2.stackTop (s.transferWidth i)) =
      (execute i s).2.stackTop (s.transferWidth i) := trunc_popW _ hw _
  rw [← hcut, hvalue]
  exact Memory.stackRead_word hw htakes hbytes

theorem leavesReturn_execute (hright : s.PushesRight i) :
    s.LeavesReturn i (execute i s).2 := by
  have hv := (pushesRight_iff s i).mp hright
  have htop := stackTop_call hi hf hheld htlb hlong hv
  exact
    { offset := topOffset_call hi hf hlong
      word := fun p hp => (word_call hi hf hheld htlb hlong hv hp).2.1
      top := htop
      next := fun r hr hwidth h => returnsTo_iff hr hwidth (htop (pending_return hr _ h)) h
      later := fun r u hr hwidth hword h => returnsTo_iff hr hwidth hword h }

/-- An arm that leaves the return address on top pushes right. -/
theorem pushesRight_of_top
    (hpop : (popW (s.transferWidth i) (execute i s).2).2.pendingException = none)
    (htop : (execute i s).2.stackTop (s.transferWidth i) = trunc (s.transferWidth i) s.liveIp) :
    s.PushesRight i :=
  (pushesRight_iff s i).mpr
    (htop.symm.trans (stackTop_call hi hf hheld htlb hlong (v := s.pushedIp i) rfl hpop))

end Called

/-- With no fault the next fetch is at the target and LOOP has counted at the address size exactly
where the arm steers and counts right. Where it pushes right, and there alone, a call leaves the
address of the next instruction on top of the stack for the return. -/
theorem transfers_iff (i : Inst) (s : Cpu) (hi : i.transfers)
    (hf : (execute i s).2.pendingException = none) :
    ((execute i s).2.liveIp = s.arrival i ∧ s.Counts i ↔ s.SteersRight i ∧ s.CountsRight i) ∧
      (i.calls → s.PushesRight i → s.Pushes i) ∧
      (i.calls → s.SlotHeld i → s.noTlb = false → (execute i s).2.long64 = s.long64 →
        (s.PushesRight i → s.LeavesReturn i (execute i s).2) ∧
          ((popW (s.transferWidth i) (execute i s).2).2.pendingException = none →
            (execute i s).2.stackTop (s.transferWidth i) =
              trunc (s.transferWidth i) s.liveIp → s.PushesRight i)) := by
  refine ⟨and_congr (arrival_iff hi hf) (counts_iff s i), fun hc h => ?_,
    fun hc hheld htlb hlong => ⟨leavesReturn_execute hc hf hheld htlb hlong,
      pushesRight_of_top hc hf hheld htlb hlong⟩⟩
  have hlands := lands_execute s hc hf ((pushesRight_iff s i).mp h)
  exact ⟨hlands.stack.mem, hlands.stack.regs⟩

end Calls

/-- Protected mode at 1000h, with IP as real mode left it. -/
def crossedPointers : Cpu :=
  { Cpu.withRam 0 Memory.empty_le 0 with pe := true, rip := 0x1000, ip := 0x20 }

/-- A jump with a 16-bit operand size moves IP, and the next fetch is where it was. -/
theorem crossed_jump_stays :
    Inst.transfers (.jmpRel16 0x10) = true ∧
      (execute (.jmpRel16 0x10) crossedPointers).2.pendingException = none ∧
      (execute (.jmpRel16 0x10) crossedPointers).2.liveIp = 0x1000 ∧
      crossedPointers.arrival (.jmpRel16 0x10) = 0x1010 :=
  ⟨rfl, rfl, rfl, by decide +kernel⟩

/-- There 32 bits are the operand size, and the stack ends at 8000h. -/
def crossedCaller : Cpu := { crossedPointers.setEsp 0x8000 with opsize := true }

theorem crossedCaller_slotHeld : crossedCaller.SlotHeld (.callRel32 0x10) := by
  intro p hp
  have hplace : crossedCaller.slotPlace .w32 = some 0x7FFC := by decide +kernel
  obtain rfl := Option.some.inj (hplace.symm.trans hp)
  show crossedCaller.mem.TakesWord 0x7FFC .w32
  refine ⟨?_, fun k hk => .inr ?_⟩
  · show ¬ ((_ ∨ (_ ∨ _)) ∨ _)
    decide +kernel
  · have hk4 : k < 4 := hk
    interval_cases k <;> decide +kernel

/-- CALL and RET of 32 bits move RIP and come back to it. -/
theorem crossed_call_returns :
    (execute (.callRel32 0x10) crossedCaller).2.liveIp = 0x1010 ∧
      (execute .ret32 (execute (.callRel32 0x10) crossedCaller).2).2.liveIp = 0x1000 := by
  have hcall := transfers_iff (.callRel32 0x10) crossedCaller rfl (by decide +kernel)
  have hright : crossedCaller.PushesRight (.callRel32 0x10) := fun h => by cases h
  have hleaves := (hcall.2.2 rfl crossedCaller_slotHeld rfl (by decide +kernel)).1 hright
  have hsteers (u : Cpu) (i : Inst) (hi : ∀ w, u.taken w i = true) (hip : u.writesIp i ≠ u.pe)
      (hcuts : u.CutsRight i) : u.SteersRight i := by
    unfold SteersRight
    rw [hi, hi]
    exact (if_neg hip).mpr hcuts
  have hthere := (hcall.1.mpr ⟨hsteers crossedCaller (.callRel32 0x10) (fun _ => rfl)
    (by decide +kernel) trivial, fun _ _ h => by cases h⟩).1
  have hback := (hleaves.next .ret32 rfl (by decide +kernel) (by decide +kernel)).mpr
    (hsteers _ .ret32 (fun _ => rfl) (by decide +kernel) trivial)
  exact ⟨hthere.trans (by decide +kernel), hback.trans (by decide +kernel)⟩

end X86Emu
