import X86Emu.Effects
import X86Emu.Execute

/-!
# What unprivileged instructions do

An unprivileged instruction computes in its own registers, translates addresses, raises faults and
stores where the paging unit granted it a store. A relation that tolerates these is a user frame;
one pass over the executor proves that every instruction without a privileged effect keeps them all.
-/
namespace X86Emu

open StateRules

/-- The state with everything an unprivileged instruction computes in erased. -/
def Cpu.shell (s : Cpu) : Cpu :=
  { s with
    regs := fun _ => 0, es := 0, ss := 0, ds := 0, fs := 0, gs := 0, ip := 0, rip := 0
    flags := s.flags &&& ~~~Flags.user
    halted := false, segDesc := fun _ => Descriptor.default, fpu := {}, xmm := fun _ => 0, mxcsr := 0
    physIpCache := 0, physIpLinear := 0, physIpValid := false, panicked := false }

/-- A relation between states that unprivileged effects keep. A store may use the translations of
two pages, the second made after the first. Real mode stores without translation. -/
class UserFrame (R : Cpu → Cpu → Prop) : Prop extends Std.Refl R, IsTrans Cpu R where
  of_shell : ∀ {s t : Cpu}, t.shell = s.shell → R s t
  raise : ∀ (s : Cpu) (f : Fault), R s (s.raise f)
  setPending : ∀ (s : Cpu) (v : U8) (c : Option U32), s.pendingException = none →
    R s (s.setPending v c)
  translate : ∀ (s : Cpu) (linear : U64) (write fetch : Bool),
    R s (applyPagingInner linear write fetch s).2
  invlpg : ∀ (s : Cpu) (linear : U64), R s (s.invlpg linear)
  store : ∀ {s t u : Cpu} {l p l' p' : U64} {f : Memory → Memory}, s.Grants l p → R s t →
    t.Grants l' p' → R t u → Writes [(l, p), (l', p')] f → R s (u.modifyMem f)
  real : ∀ (s : Cpu) (f : Memory → Memory), s.pe = false → R s (s.modifyMem f)

/-- A change of state within the shell. -/
def Inner (f : Cpu → Cpu) : Prop := ∀ s, (f s).shell = s.shell

/-! ## Shell of the primitive steps -/

namespace Cpu

variable (s : Cpu)

theorem shell_modifyFlags {f : U32 → U32} (h : UserFlags f) : (s.modifyFlags f).shell = s.shell := by
  show ({ s.shell with flags := f s.flags &&& ~~~Flags.user } : Cpu) = s.shell
  rw [h s.flags]
  rfl

@[simp] theorem shell_setReg (i : Fin 16) (v : U64) : (s.setReg i v).shell = s.shell := rfl
@[simp] theorem shell_setRegWRaw (i : U8) (w : Width) (v : U64) :
    (s.setRegWRaw i w v).shell = s.shell := rfl
@[simp] theorem shell_setHighByte (i v : U8) : (s.setHighByte i v).shell = s.shell := rfl
@[simp] theorem shell_setSegDesc (r : SegReg) (d : Descriptor) :
    (s.setSegDesc r d).shell = s.shell := rfl
@[simp] theorem shell_invalidatePhysIp : s.invalidatePhysIp.shell = s.shell := rfl
@[simp] theorem shell_setEip (v : U32) : (s.setEip v).shell = s.shell := rfl
@[simp] theorem shell_setIp (v : U16) : (s.setIp v).shell = s.shell := rfl
@[simp] theorem shell_setRsp (v : U64) : (s.setRsp v).shell = s.shell := rfl
@[simp] theorem shell_setSp (v : U16) : (s.setSp v).shell = s.shell := rfl
@[simp] theorem shell_modifyFpu (f : Fpu → Fpu) : (s.modifyFpu f).shell = s.shell := rfl

@[simp] theorem shell_setRegW (i : U8) (w : Width) (v : U64) :
    (s.setRegW i w v).shell = s.shell := by
  unfold setRegW
  split <;> rfl

@[simp] theorem shell_setReg16Idx (i : U8) (v : U16) : (s.setReg16Idx i v).shell = s.shell :=
  s.shell_setRegW _ _ _

@[simp] theorem shell_setReg16 (r : Reg16) (v : U16) : (s.setReg16 r v).shell = s.shell :=
  s.shell_setRegW _ _ _

@[simp] theorem shell_setReg32Idx (i : U8) (v : U32) : (s.setReg32Idx i v).shell = s.shell :=
  s.shell_setRegW _ _ _

@[simp] theorem shell_setReg32 (r : Reg32) (v : U32) : (s.setReg32 r v).shell = s.shell :=
  s.shell_setRegW _ _ _

@[simp] theorem shell_setReg8Idx (i v : U8) : (s.setReg8Idx i v).shell = s.shell := by
  unfold setReg8Idx
  split <;> try split
  all_goals rfl

@[simp] theorem shell_setReg8 (r : Reg8) (v : U8) : (s.setReg8 r v).shell = s.shell := by
  unfold setReg8
  split <;> try split
  all_goals rfl

@[simp] theorem shell_setRegAt (i : U8) (w : Width) (v : U64) :
    (s.setRegAt i w v).shell = s.shell := by
  unfold setRegAt
  split <;> simp

@[simp] theorem shell_setXmm (i : U8) (v : U128) : (s.setXmm i v).shell = s.shell := by
  unfold setXmm
  split <;> rfl

theorem shell_loadSeg {r : SegReg} (h : r ≠ .cs) (sel : U16) :
    (s.loadSeg r sel).shell = s.shell := by
  unfold loadSeg
  dsimp only
  rw [if_neg h]
  split <;> cases r <;> first | rfl | exact absurd rfl h

@[simp] theorem shell_setStackPointer (v : U64) : (s.setStackPointer v).shell = s.shell := by
  unfold setStackPointer
  split <;> rfl

@[simp] theorem shell_branchRel (rel : U64) : (s.branchRel rel).shell = s.shell := by
  unfold branchRel
  split
  · rfl
  · split <;> rfl

@[simp] theorem shell_jumpTo (target : U64) : (s.jumpTo target).shell = s.shell := by
  unfold jumpTo
  split <;> rfl

@[simp] theorem shell_loopBranch (rel : U8) : (s.loopBranch rel).shell = s.shell := by
  unfold loopBranch
  split
  · simp
  · split <;> rfl

@[simp] theorem shell_storeProduct (w : Width) (r : U64 × U64 × Bool) :
    (storeProduct w r s).shell = s.shell :=
  (shell_modifyFlags _ (UserFlags.carryOverflow _)).trans (by simp)

theorem shell_imulStore16 (dst : U8) (full : U32) : (imulStore16 dst full s).shell = s.shell :=
  (shell_modifyFlags _ ((UserFlags.logic _).comp (UserFlags.carryOverflow _))).trans
    (s.shell_setReg16Idx _ _)

@[simp] theorem shell_imulStore (dst : U8) (w : Width) (a b : U64) :
    (imulStore dst w a b s).shell = s.shell := by
  have hflags {n : Nat} (r : BitVec n) (c : Bool) :
      UserFlags fun fl => setLogicFlags r (setCarryOverflow c fl) :=
    (UserFlags.logic r).comp (UserFlags.carryOverflow c)
  unfold imulStore
  split
  · exact (shell_modifyFlags _ (hflags _ _)).trans (s.shell_setRegW _ _ _)
  · exact (shell_modifyFlags _ (hflags _ _)).trans (s.shell_setReg32Idx _ _)

@[simp] theorem shell_stringCommit (op : StringOp) (rep : Rep) (asize : Width) (p : StringPos) :
    (stringCommit op rep asize p s).shell = s.shell := by
  unfold stringCommit
  split <;> split <;> split <;> rfl

theorem shell_setRegs (w : Width) (l : List (U8 × U64)) : (setRegs w s l).shell = s.shell := by
  unfold setRegs
  induction l generalizing s with
  | nil => rfl
  | cons p l ih => rw [List.foldl_cons, ih, shell_setRegW]

end Cpu

/-! ## Rules -/

section Rules

variable {R : Cpu → Cpu → Prop} [UserFrame R] {α : Type}

theorem frame_inner {f : Cpu → Cpu} (h : Inner f) : Keeps R (modify f : Exec Unit) :=
  Keeps.modify fun s => UserFrame.of_shell (h s)

theorem frame_withFlags {f : U32 → α × U32} (h : UserFlags fun fl => (f fl).2) :
    Keeps R (withFlags f) :=
  fun s => UserFrame.of_shell (s.shell_modifyFlags h)

/-! ## Translation -/

theorem frame_applyPagingInner (linear : U64) (write fetch : Bool) :
    Keeps R (applyPagingInner linear write fetch) :=
  fun s => UserFrame.translate s linear write fetch

theorem frame_applyPagingAccess (linear : U64) (write : Bool) :
    Keeps R (applyPagingAccess linear write) := frame_applyPagingInner _ _ _

theorem frame_translateAccess (r : SegReg) (off : U64) (write : Bool) :
    Keeps R (translateAccess r off write) :=
  Keeps.read fun s => frame_applyPagingAccess _ _ s

theorem frame_translate (r : SegReg) (off : U64) : Keeps R (translate r off) :=
  frame_translateAccess _ _ _

theorem frame_readSplit (phys lin : U64) (n : Nat) : Keeps R (readSplit phys lin n) :=
  (frame_applyPagingAccess _ _).bind fun _ => .read fun s => by
    split <;> exact refl s

/-! ### Stores -/

/-- A store where it was granted, or lost. -/
theorem frame_store {s t : Cpu} {linear p : U64} {f : Memory → Memory}
    (hp : s.Grants linear p ∨ p = unbacked) (ht : R s t) (hf : Writes [(linear, p)] f) :
    R s (t.modifyMem f) := by
  rcases hp with hp | rfl
  · exact UserFrame.store hp (refl s) hp ht (hf.mono fun _ h => List.mem_cons_of_mem _ h)
  · have hlost : t.modifyMem f = t := by
      unfold Cpu.modifyMem
      rw [hf.lost fun x hx => by rw [List.mem_singleton.mp hx]]
    rw [hlost]
    exact ht

/-- A program that stores at an address it is handed from a write translation. -/
def StoresAt (R : Cpu → Cpu → Prop) (q : U64 → Exec α) : Prop :=
  ∀ s linear p t, s.Grants linear p ∨ p = unbacked ∧ t.pendingException.isSome → R s t →
    R s (q p t).2

theorem frame_translateStore (r : SegReg) (off : U64) {q : U64 → Exec α} (h : StoresAt R q) :
    Keeps R (translateWrite r off >>= q) :=
  fun s => h s _ _ _ (granted_or_unbacked _ s) (frame_translateAccess r off true s)

theorem frame_writeSplit {s t : Cpu} {linear phys : U64} (hp : s.Grants linear phys) (ht : R s t)
    (lin : U64) {n : Nat} (hn : n ≤ 16) (v : U128) : R s (writeSplit phys lin n v t).2 := by
  have htail := frame_applyPagingAccess (R := R) ((lin &&& ~~~0xFFF) + 0x1000) true t
  have hp' := granted_or_unbacked ((lin &&& ~~~0xFFF) + 0x1000) t
  unfold writeSplit
  rw [bind_run, bind_run, get_run]
  split
  · exact IsTrans.trans _ _ _ ht htail
  · dsimp only [set_run]
    refine UserFrame.store hp ht (hp'.resolve_right fun hp => absurd hp.2 ‹_›) htail ?_
    exact Writes.split List.mem_cons_self (List.mem_cons_of_mem _ (List.mem_singleton_self _)) hn _

/-! ## Operands and the stack -/

theorem frame_rmAddr (m : ModRm) (write : Bool) : Keeps R (rmAddr m write) :=
  .read fun s => frame_translateAccess _ _ _ s

theorem frame_readRmAt (m : ModRm) (w : Width) (addr : U64) : Keeps R (readRmAt m w addr) :=
  .read fun s => by
    split
    · split
      · exact refl s
      · exact frame_readSplit _ _ _ s
    · exact refl s

theorem frame_readRmW (m : ModRm) (w : Width) : Keeps R (readRmW m w) := by
  unfold readRmW
  split
  · exact .read fun s => refl s
  · exact (frame_rmAddr _ _).bind fun _ => frame_readRmAt _ _ _

theorem frame_readRm8 (m : ModRm) : Keeps R (readRm8 m) :=
  (frame_readRmW _ _).bind fun _ => .pure _

theorem frame_readRm16 (m : ModRm) : Keeps R (readRm16 m) :=
  (frame_readRmW _ _).bind fun _ => .pure _

theorem frame_readRm32 (m : ModRm) : Keeps R (readRm32 m) :=
  (frame_readRmW _ _).bind fun _ => .pure _

theorem frame_rmStore {m : ModRm} {q : U64 → Exec α} (h : StoresAt R q) :
    Keeps R (rmAddr m true >>= q) :=
  fun s => frame_translateStore (s.operandSeg (s.modrmEa m).2) (s.modrmEa m).1 h s

theorem storesAt_writeRmAt (m : ModRm) (w : Width) (val : U64) :
    StoresAt R (writeRmAt m w val) := by
  intro s linear p t hp ht
  unfold writeRmAt
  rw [bind_run, get_run]
  split
  · exact ht
  have hp := hp.resolve_right fun hp => absurd hp.2 ‹_›
  split
  · exact frame_writeSplit hp ht _ (by cases w <;> decide) _
  · exact frame_store (.inl hp) ht (Writes.memWriteW (List.mem_singleton_self _) w val)

theorem frame_writeRmW (m : ModRm) (w : Width) (val : U64) : Keeps R (writeRmW m w val) :=
  .read fun s => by
    split
    · exact refl s
    split
    · exact UserFrame.of_shell (s.shell_setRegAt _ _ _)
    · exact frame_rmStore (storesAt_writeRmAt m w val) s

theorem frame_pushW (w : Width) (val : U64) : Keeps R (pushW w val) :=
  .read fun s => by
    split
    · refine frame_translateStore _ _ (fun u linear p t hp ht => ?_) s
      rw [bind_run, get_run]
      split
      · exact ht
      · have hsp : R u (t.setStackPointer (s.pushTarget w.bytes)) :=
          IsTrans.trans _ _ _ ht (UserFrame.of_shell (t.shell_setStackPointer _))
        exact frame_store (hp.imp_right And.left) hsp (Writes.stackWrite (List.mem_singleton_self _) w val)
    · have hsp : R s (s.setSp (s.sp - BitVec.ofNat 16 w.bytes)) :=
        UserFrame.of_shell (s.shell_setSp _)
      refine IsTrans.trans _ _ _ hsp (UserFrame.real _ _ ?_)
      exact Bool.eq_false_iff.mpr ‹_›

theorem frame_popW (w : Width) : Keeps R (popW w) :=
  .read fun s => by
    split
    · refine ((frame_translate _ _).bind fun _ => .read fun t => ?_) s
      split
      · exact refl t
      · exact UserFrame.of_shell (t.shell_setStackPointer _)
    · exact UserFrame.of_shell rfl

theorem frame_pushAll (w : Width) : ∀ vs : List U64, Keeps R (pushAll w vs)
  | [] => .pure _
  | _ :: vs => (frame_pushW _ _).bind fun _ => frame_pushAll w vs

theorem frame_push16 (v : U16) : Keeps R (push16 v) := frame_pushW _ _
theorem frame_push32 (v : U32) : Keeps R (push32 v) := frame_pushW _ _
theorem frame_pop16 : Keeps R pop16 := (frame_popW _).bind fun _ => .pure _
theorem frame_pop32 : Keeps R pop32 := (frame_popW _).bind fun _ => .pure _

/-! ## Arithmetic -/

theorem frame_writeRm8 (m : ModRm) (v : U8) : Keeps R (writeRm8 m v) := frame_writeRmW _ _ _
theorem frame_writeRm16 (m : ModRm) (v : U16) : Keeps R (writeRm16 m v) := frame_writeRmW _ _ _

theorem frame_rmUpdate (m : ModRm) (w : Width) (f : U64 → U64) {flags : U64 → U32 → U32}
    (h : ∀ v, UserFlags (flags v)) : Keeps R (rmUpdate m w f flags) :=
  (frame_readRmW _ _).bind fun v => (frame_writeRmW _ _ _).bind fun _ =>
    frame_inner fun s => s.shell_modifyFlags (h v)

theorem frame_rmCompute (m : ModRm) (w : Width) {f : U64 → U32 → U64 × U32} (store : Bool)
    (h : ∀ v, UserFlags fun fl => (f v fl).2) : Keeps R (rmCompute m w f store) :=
  (frame_readRmW _ _).bind fun v => (frame_withFlags (h v)).bind fun _ =>
    .ite (frame_writeRmW _ _ _) (.pure _)

theorem frame_loadReg (m : ModRm) (w : Width) (dst : U8) (dw : Width) (f : U64 → U64) :
    Keeps R (loadReg m w dst dw f) :=
  (frame_readRmW _ _).bind fun _ => frame_inner fun s => s.shell_setRegAt _ _ _

theorem frame_movRmReg (w : Width) (m : ModRm) (src : U8) : Keeps R (movRmReg w m src) :=
  .read fun s => frame_writeRmW _ _ _ s

theorem frame_movRegRm (w : Width) (m : ModRm) (dst : U8) : Keeps R (movRegRm w m dst) :=
  frame_loadReg _ _ _ _ _

theorem frame_movAccMem (w : Width) (off : U64) : Keeps R (movAccMem w off) :=
  .read fun s => ((frame_translate _ _).bind fun _ => frame_inner fun s => s.shell_setRegAt _ _ _) s

theorem frame_movMemAcc (w : Width) (seg : SegReg) (off : U64) : Keeps R (movMemAcc w seg off) :=
  frame_translateStore _ _ fun _ _ _ _ hp ht =>
    frame_store (hp.imp_right And.left) ht (Writes.memWriteW (List.mem_singleton_self _) w _)

theorem frame_loadFarPointer (m : ModRm) {seg : SegReg} (h : seg ≠ .cs) :
    Keeps R (loadFarPointer m seg) :=
  (frame_rmAddr _ _).bind fun _ => frame_inner fun s => by
    split
    · exact (Cpu.shell_loadSeg _ h _).trans (s.shell_setReg32Idx _ _)
    · exact (Cpu.shell_loadSeg _ h _).trans (s.shell_setReg16Idx _ _)

theorem frame_xchgRmReg (w : Width) (m : ModRm) (reg : U8) : Keeps R (xchgRmReg w m reg) :=
  (frame_readRmW _ _).bind fun _ => .read fun s =>
    ((frame_writeRmW _ _ _).bind fun _ => frame_inner fun s => s.shell_setRegAt _ _ _) s

theorem frame_xchgAccReg (w : Width) (reg : U8) : Keeps R (xchgAccReg w reg) :=
  frame_inner fun s => (Cpu.shell_setRegAt _ _ _ _).trans (s.shell_setRegAt _ _ _)

theorem frame_bswap (reg : U8) : Keeps R (bswap reg) := frame_inner fun s => s.shell_setRegW _ _ _

theorem frame_widenAcc (w : Width) : Keeps R (widenAcc w) :=
  frame_inner fun s => s.shell_setRegW _ _ _

theorem frame_fillSign (w : Width) : Keeps R (fillSign w) :=
  frame_inner fun s => s.shell_setRegW _ _ _

theorem frame_setcc (cond : Cond) (m : ModRm) : Keeps R (setcc cond m) :=
  .read fun s => frame_writeRm8 _ _ s

theorem frame_cmovcc (cond : Cond) (m : ModRm) (dst : U8) : Keeps R (cmovcc cond m dst) :=
  .read fun s => by
    split
    · exact frame_loadReg _ _ _ _ _ s
    · exact refl s

theorem frame_aluRmReg (w : Width) (op : AluOp) (m : ModRm) (reg : U8) (dir : Dir) :
    Keeps R (aluRmReg w op m reg dir) :=
  .read fun s => by
    cases dir with
    | rmReg => exact frame_rmCompute _ _ _ (fun _ => UserFlags.aluW _ _ _ w) s
    | regRm =>
      refine ((frame_readRmW _ _).bind fun _ =>
        (frame_withFlags (UserFlags.aluW _ _ _ w)).bind fun _ => .ite ?_ ?_) s
      · exact frame_inner fun s => s.shell_setRegAt _ _ _
      · exact .pure _

theorem frame_aluRmImm (w : Width) (op : AluOp) (m : ModRm) (imm : U64) :
    Keeps R (aluRmImm w op m imm) :=
  frame_rmCompute _ _ _ fun _ => UserFlags.aluW _ _ _ w

theorem frame_aluAccImm (w : Width) (op : AluOp) (imm : U64) : Keeps R (aluAccImm w op imm) :=
  .read fun s => by
    refine ((frame_withFlags (UserFlags.aluW _ _ _ w)).bind fun _ => .ite ?_ (.pure _)) s
    exact frame_inner fun s => s.shell_setRegAt _ _ _

theorem frame_testRmImm (w : Width) (m : ModRm) (imm : U64) : Keeps R (testRmImm w m imm) :=
  frame_rmCompute _ _ _ fun _ => UserFlags.test w _ _

theorem frame_testAccImm (w : Width) (imm : U64) : Keeps R (testAccImm w imm) :=
  frame_inner fun s => s.shell_modifyFlags (UserFlags.test w _ _)

theorem frame_incReg (w : Width) {flags : U64 → U32 → U32} (h : ∀ v, UserFlags (flags v))
    (dst : U8) : Keeps R (incReg w flags dst) :=
  frame_inner fun s => (Cpu.shell_modifyFlags _ (h _)).trans (s.shell_setRegW _ _ _)

theorem frame_decReg (w : Width) {flags : U64 → U32 → U32} (h : ∀ v, UserFlags (flags v))
    (dst : U8) : Keeps R (decReg w flags dst) :=
  frame_inner fun s => (Cpu.shell_modifyFlags _ (h _)).trans (s.shell_setRegW _ _ _)

theorem frame_incRm (w : Width) {flags : U64 → U32 → U32} (h : ∀ v, UserFlags (flags v))
    (m : ModRm) : Keeps R (incRm w flags m) := frame_rmUpdate _ _ _ h

theorem frame_decRm (w : Width) {flags : U64 → U32 → U32} (h : ∀ v, UserFlags (flags v))
    (m : ModRm) : Keeps R (decRm w flags m) := frame_rmUpdate _ _ _ h

theorem frame_notRm (w : Width) (m : ModRm) : Keeps R (notRm w m) :=
  frame_rmUpdate _ _ _ fun _ => UserFlags.rfl

theorem frame_negRm (w : Width) (m : ModRm) : Keeps R (negRm w m) :=
  frame_rmUpdate _ _ _ (UserFlags.neg w)

theorem frame_doShift (op : ShiftOp) (m : ModRm) (w : Width) (n : U32) :
    Keeps R (doShift op m w n) :=
  frame_rmCompute _ _ _ fun _ => UserFlags.shiftWidth op _ n w

theorem frame_testRmReg (w : Width) (m : ModRm) (reg : U8) : Keeps R (testRmReg w m reg) :=
  .read fun s => frame_rmCompute _ _ _ (fun _ => UserFlags.test w _ _) s

theorem frame_mulRm8With (f : U8 → U8 → U16 × Bool) (m : ModRm) : Keeps R (mulRm8With f m) :=
  (frame_readRm8 _).bind fun _ => frame_inner fun s =>
    (Cpu.shell_modifyFlags _ (UserFlags.carryOverflow _)).trans (s.shell_setReg16 _ _)

theorem frame_mulRmWith (w : Width) (f : U64 → U64 → U64 × U64 × Bool) (m : ModRm) :
    Keeps R (mulRmWith w f m) :=
  (frame_readRmW _ _).bind fun _ => frame_inner fun s => s.shell_storeProduct _ _

theorem frame_imulRegRm16 (m : ModRm) (dst : U8) : Keeps R (imulRegRm16 m dst) :=
  (frame_readRm16 _).bind fun _ => frame_inner fun s => s.shell_imulStore16 _ _

theorem frame_imulRegRmImm16 (m : ModRm) (dst : U8) (imm : U16) :
    Keeps R (imulRegRmImm16 m dst imm) :=
  (frame_readRm16 _).bind fun _ => frame_inner fun s => s.shell_imulStore16 _ _

theorem frame_imulRegRm32 (m : ModRm) (dst : U8) : Keeps R (imulRegRm32 m dst) :=
  .read fun s =>
    ((frame_readRmW _ _).bind fun _ => frame_inner fun s => s.shell_imulStore _ _ _ _) s

theorem frame_imulRegRmImm32 (m : ModRm) (dst : U8) (imm : U32) :
    Keeps R (imulRegRmImm32 m dst imm) :=
  .read fun s =>
    ((frame_readRmW _ _).bind fun _ => frame_inner fun s => s.shell_imulStore _ _ _ _) s

theorem frame_doubleShift (f : Width → U64 → U64 → Nat → U64 × Bool) (m : ModRm) (reg : U8)
    (count : ShiftCount) (w32 : Bool) : Keeps R (doubleShift f m reg count w32) :=
  .read fun s => by
    split
    · exact refl s
    · exact frame_rmUpdate _ _ _ (fun _ => UserFlags.doubleShift _ _ _) s

theorem frame_cmpxchg (w : Width) (m : ModRm) (reg : U8) : Keeps R (cmpxchg w m reg) :=
  (frame_readRmW _ _).bind fun _ => .read fun s => by
    refine ((frame_withFlags (UserFlags.aluW _ _ _ w)).bind fun _ => .ite ?_ ?_) s
    · exact .read fun s => frame_writeRmW _ _ _ s
    · exact frame_inner fun s => s.shell_setRegAt _ _ _

theorem frame_xadd (w : Width) (m : ModRm) (reg : U8) : Keeps R (xadd w m reg) :=
  (frame_readRmW _ _).bind fun _ => .read fun s => by
    have hr (v : U64) : Keeps R (modify (·.setRegAt reg w v) : Exec Unit) :=
      frame_inner fun s => s.shell_setRegAt _ _ _
    refine ((frame_withFlags (UserFlags.aluW _ _ _ w)).bind fun _ => .ite ?_ ?_) s
    · exact (hr _).bind fun _ => frame_writeRmW _ _ _
    · exact (frame_writeRmW _ _ _).bind fun _ => hr _

theorem frame_cmpxchg8b (m : ModRm) : Keeps R (cmpxchg8b m) :=
  frame_rmStore fun s linear p t hp ht => by
    rw [modify_run]
    dsimp only
    split
    · have hflags : R s (t.modifyFlags (setFlag Flags.zf true)) :=
        IsTrans.trans _ _ _ ht (UserFrame.of_shell (t.shell_modifyFlags (UserFlags.zf _)))
      refine frame_store (hp.imp_right And.left) hflags ?_
      exact .seq (.start (List.mem_singleton_self _) (.u32 _))
        (.offset 4 (List.mem_singleton_self _) (by decide) (.u32 _))
    · refine IsTrans.trans _ _ _ ht (UserFrame.of_shell ?_)
      simp [Cpu.shell_modifyFlags t (UserFlags.zf false)]

theorem frame_bitScan (f : U64 → U64) (m : ModRm) (dst : U8) : Keeps R (bitScan f m dst) :=
  .read fun s =>
    ((frame_readRmW _ _).bind fun _ => frame_inner fun s => by
      dsimp only
      split <;> simp [Cpu.shell_modifyFlags s (UserFlags.zf _)]) s

/-- A memory operand only when the bit is read: a write lands outside the operand's translation. -/
theorem frame_bitOp {m : ModRm} (bit : BitOffset) {op : BitOp} (h : op = .test ∨ m.isReg = true) :
    Keeps R (bitOp m bit op) :=
  .read fun s => by
    have hcf (t : Cpu) (on : Bool) : (t.modifyFlags (setFlag Flags.cf on)).shell = t.shell :=
      t.shell_modifyFlags (UserFlags.cf on)
    split
    · refine UserFrame.of_shell ?_
      simp only [bitOpReg, modify_run]
      split <;> simp [hcf]
    · obtain rfl : op = .test := h.resolve_right ‹_›
      refine (Keeps.read fun s => ?_) s
      refine ((frame_rmAddr _ _).bind fun _ => frame_inner fun s => ?_) s
      simp [hcf]

/-! ## Stack and control flow -/

theorem frame_pusha (w32 : Bool) : Keeps R (pusha w32) := .read fun s => frame_pushAll _ _ s

theorem frame_popAll (w : Width) : ∀ n, Keeps R (popAll w n)
  | 0 => .pure _
  | n + 1 => (frame_popW _).bind fun _ => (frame_popAll w n).bind fun _ => .pure _

theorem frame_popa (w32 : Bool) : Keeps R (popa w32) :=
  (frame_popAll _ _).bind fun _ => frame_inner fun s => s.shell_setRegs _ _

theorem frame_pushReg (w : Width) (src : U8) : Keeps R (pushReg w src) :=
  .read fun s => frame_pushW _ _ s

theorem frame_popReg (w : Width) (dst : U8) : Keeps R (popReg w dst) :=
  (frame_popW _).bind fun _ => frame_inner fun s => s.shell_setRegW _ _ _

theorem frame_pushRm (w : Width) (m : ModRm) : Keeps R (pushRm w m) :=
  (frame_readRmW _ _).bind fun _ => frame_pushW _ _

theorem frame_popRm (w : Width) (m : ModRm) : Keeps R (popRm w m) :=
  (frame_popW _).bind fun _ => frame_writeRmW _ _ _

theorem frame_pushSeg (seg : SegReg) : Keeps R (pushSeg seg) := .read fun s => frame_pushW _ _ s

theorem frame_popSeg {seg : SegReg} (h : seg ≠ .cs) : Keeps R (popSeg seg) :=
  .read fun s => ((frame_popW _).bind fun _ => frame_inner fun s => s.shell_loadSeg h _) s

theorem frame_pushf : Keeps R pushf :=
  .read fun s => by split <;> exact frame_pushW _ _ s

theorem frame_leave (w32 : Bool) : Keeps R (leave w32) :=
  .read fun s => by
    split
    · refine Keeps.set_bind (UserFrame.of_shell (s.shell_setRsp _)) ((frame_popW _).bind fun _ => ?_)
      exact frame_inner fun s => s.shell_setRegW _ _ _
    split
    · refine Keeps.set_bind (UserFrame.of_shell (s.shell_setReg32 _ _)) (frame_pop32.bind fun _ => ?_)
      exact frame_inner fun s => s.shell_setReg32 _ _
    · refine Keeps.set_bind (UserFrame.of_shell (s.shell_setReg16 _ _)) (frame_pop16.bind fun _ => ?_)
      exact frame_inner fun s => s.shell_setReg16 _ _

theorem frame_jcc (cond : Cond) (rel : U64) : Keeps R (jcc cond rel) :=
  frame_inner fun s => by split <;> simp

theorem frame_callRel16 (rel : U16) : Keeps R (callRel16 rel) :=
  .read fun s => ((frame_push16 _).bind fun _ => frame_inner fun s => s.shell_setIp _) s

theorem frame_callRel32 (rel : U64) : Keeps R (callRel32 rel) :=
  .read fun s => ((frame_pushW _ _).bind fun _ => .read fun s => by
    split
    · exact refl s
    · exact UserFrame.of_shell (s.shell_branchRel _)) s

theorem frame_callRm16 (m : ModRm) : Keeps R (callRm16 m) :=
  (frame_readRm16 _).bind fun _ => .read fun s =>
    ((frame_push16 _).bind fun _ => frame_inner fun s => s.shell_setIp _) s

theorem frame_callRm32 (m : ModRm) : Keeps R (callRm32 m) :=
  .read fun s => ((frame_readRmW _ _).bind fun _ => .read fun s =>
    ((frame_pushW _ _).bind fun _ => .read fun s => by
      split
      · exact refl s
      · exact UserFrame.of_shell (by simp)) s) s

theorem frame_jmpRm16 (m : ModRm) : Keeps R (jmpRm16 m) :=
  (frame_readRm16 _).bind fun _ => frame_inner fun s => s.shell_setIp _

theorem frame_jmpRm32 (m : ModRm) : Keeps R (jmpRm32 m) :=
  .read fun s => ((frame_readRmW _ _).bind fun _ => frame_inner fun s => by simp) s

theorem frame_ret : Keeps R ret := frame_pop16.bind fun _ => frame_inner fun s => s.shell_setIp _

theorem frame_ret32 : Keeps R ret32 :=
  .read fun s => ((frame_popW _).bind fun _ => frame_inner fun s => s.shell_jumpTo _) s

theorem frame_retImm (imm : U16) (w32 : Bool) : Keeps R (retImm imm w32) :=
  .read fun s => by
    split
    · exact ((frame_popW _).bind fun _ => frame_inner fun s => by rfl) s
    split
    · exact (frame_pop32.bind fun _ => frame_inner fun s => by rfl) s
    · exact (frame_pop16.bind fun _ => frame_inner fun s => by rfl) s

theorem frame_loop (cond : LoopCond) (rel : U8) : Keeps R (loop cond rel) :=
  frame_inner fun s => by
    dsimp only
    split <;> split <;> simp [Cpu.countDown]

/-! ## Strings -/

theorem frame_strRead (phys : U64) (seg : SegReg) (off : U64) (w : Width) :
    Keeps R (strRead phys seg off w) :=
  .read fun s => by
    split
    · exact (frame_readSplit _ _ _) s
    · exact refl s

theorem frame_strWrite {s t : Cpu} {linear phys : U64} (hp : s.Grants linear phys) (ht : R s t)
    (seg : SegReg) (off : U64) (w : Width) (v : U64) :
    R s (strWrite phys seg off w v t).2 := by
  unfold strWrite
  rw [bind_run, get_run]
  split
  · exact frame_writeSplit hp ht _ (by cases w <;> decide) _
  · rw [set_run]
    exact frame_store (.inl hp) ht (Writes.memWriteW (List.mem_singleton_self _) w v)

theorem frame_movsElement (w : Width) (si di : U64) : Keeps R (movsElement w si di) :=
  .read fun s => ((frame_translate _ _).bind fun src =>
    frame_translateStore _ _ fun u linear p t hp ht => by
      rw [bind_run, get_run]
      split
      · exact ht
      · rw [bind_run]
        have hread := frame_strRead (R := R) src (s.operandSeg .ds) si w t
        exact frame_strWrite (hp.resolve_right fun hp => absurd hp.2 ‹_›)
          (IsTrans.trans _ _ _ ht hread) _ _ _ _) s

theorem frame_stosElement (w : Width) (si di : U64) : Keeps R (stosElement w si di) :=
  frame_translateStore _ _ fun u linear p t hp ht => by
    rw [bind_run, get_run]
    split
    · exact ht
    · exact frame_strWrite (hp.resolve_right fun hp => absurd hp.2 ‹_›) ht _ _ _ _

theorem frame_lodsElement (w : Width) (si di : U64) : Keeps R (lodsElement w si di) :=
  .read fun s => ((frame_translate _ _).bind fun _ => .read fun s => by
    split
    · exact refl s
    · refine ((frame_strRead _ _ _ _).bind fun _ => .read fun s => ?_) s
      split
      · exact refl s
      · exact UserFrame.of_shell (s.shell_setRegW _ _ _)) s

theorem frame_cmpsElement (w : Width) (si di : U64) : Keeps R (cmpsElement w si di) :=
  .read fun s => ((frame_translate _ _).bind fun _ => (frame_translate _ _).bind fun _ =>
    .read fun s => by
      split
      · exact refl s
      · exact ((frame_withFlags (UserFlags.aluW _ _ _ w)).bind fun _ => .pure _) s) s

theorem frame_scasElement (w : Width) (si di : U64) : Keeps R (scasElement w si di) :=
  (frame_translate _ _).bind fun _ => .read fun s => by
    split
    · exact refl s
    · exact ((frame_withFlags (UserFlags.aluW _ _ _ w)).bind fun _ => .pure _) s

/-- A loop keeps what its element keeps. -/
theorem frame_stringLoop {op : StringOp} (h : ∀ w si di, Keeps R (op.element w si di)) (rep : Rep)
    (w : Width) (step : U64) (asize : Width) :
    ∀ n si di, Keeps R (stringLoop op rep w step asize n si di)
  | 0, _, _ => .pure _
  | n + 1, si, di => (h _ _ _).bind fun _ => .read fun s => by
    split
    · exact refl s
    split
    · exact refl s
    · exact frame_stringLoop h rep w step asize n _ _ s

theorem frame_stringInst {op : StringOp} (h : ∀ w si di, Keeps R (op.element w si di)) (rep : Rep)
    (word : Bool) : Keeps R (stringInst op rep word) :=
  .read fun s => ((frame_stringLoop h _ _ _ _ _ _ _).bind fun _ =>
    frame_inner fun s => s.shell_stringCommit _ _ _ _) s

/-! ## Ports -/

/-! ## System instructions -/

theorem frame_storeTable (m : ModRm) (base : U64) (limit : U16) : Keeps R (storeTable m base limit) :=
  frame_rmStore fun s linear p t hp ht => by
    rw [bind_run, get_run]
    split
    · exact ht
    · dsimp only [set_run]
      refine frame_store (hp.imp_right And.left) ht ?_
      have hlimit : Writes [(linear, p)] (·.writeU16 p limit) :=
        .start (List.mem_singleton_self _) (.u16 _)
      split
      · exact hlimit.seq (.offset 2 (List.mem_singleton_self _) (by decide) (.u64 _))
      · exact hlimit.seq (.offset 2 (List.mem_singleton_self _) (by decide) (.u32 _))

theorem frame_sgdt (m : ModRm) : Keeps R (sgdt m) := .read fun s => frame_storeTable _ _ _ s
theorem frame_sidt (m : ModRm) : Keeps R (sidt m) := .read fun s => frame_storeTable _ _ _ s
theorem frame_sldt (m : ModRm) : Keeps R (sldt m) := .read fun s => frame_writeRm16 _ _ s
theorem frame_str (m : ModRm) : Keeps R (str m) := .read fun s => frame_writeRm16 _ _ s

theorem frame_movRmSeg (m : ModRm) (seg : SegReg) : Keeps R (movRmSeg m seg) :=
  .read fun s => frame_writeRm16 _ _ s

theorem frame_movSegRm {seg : SegReg} (h : seg ≠ .cs) (m : ModRm) : Keeps R (movSegRm seg m) :=
  (frame_readRm16 _).bind fun _ => frame_inner fun s => s.shell_loadSeg h _

theorem frame_smsw (m : ModRm) : Keeps R (smsw m) :=
  .read fun s => by split <;> exact frame_writeRmW _ _ _ s

theorem frame_movCr (cr reg : U8) : Keeps R (movCr cr reg) :=
  frame_inner fun s => s.shell_setRegW _ _ _

theorem frame_movDr (dr : Fin 8) (reg : U8) : Keeps R (movDr dr reg) :=
  frame_inner fun s => s.shell_setRegW _ _ _

theorem frame_invlpg (m : ModRm) : Keeps R (invlpg m) :=
  Keeps.modify fun s => UserFrame.invlpg s _

@[simp] theorem shell_setEdxEax (s : Cpu) (v : U64) : (setEdxEax s v).shell = s.shell := by
  simp [setEdxEax]

theorem frame_rdtsc : Keeps R rdtsc := frame_inner fun s => shell_setEdxEax s _
theorem frame_rdmsr : Keeps R rdmsr := frame_inner fun s => shell_setEdxEax s _
theorem frame_rdtscp : Keeps R rdtscp := frame_inner fun s => by simp

/-- A change of state that every frame tolerates: within the shell, or raising. -/
def Tolerated (s t : Cpu) : Prop := t.shell = s.shell ∨ ∃ e, t = s.raise e

theorem tolerated_ite {c : Prop} [Decidable c] {s x y : Cpu} (hx : Tolerated s x)
    (hy : Tolerated s y) : Tolerated s (if c then x else y) := by
  split
  · exact hx
  · exact hy

theorem frame_tolerated {f : Cpu → Cpu} (h : ∀ s, Tolerated s (f s)) :
    Keeps R (modify f : Exec Unit) :=
  Keeps.modify fun s => by
    rcases h s with h | ⟨e, h⟩
    · exact UserFrame.of_shell h
    · exact h ▸ UserFrame.raise s e

theorem frame_xgetbv : Keeps R xgetbv :=
  frame_tolerated fun s => tolerated_ite (.inr ⟨_, rfl⟩) <|
    tolerated_ite (.inr ⟨_, rfl⟩) (.inl (by simp))

theorem frame_setAc (on : Bool) : Keeps R (setAc on) :=
  frame_tolerated fun s =>
    tolerated_ite (.inr ⟨_, rfl⟩) (.inl (s.shell_modifyFlags (UserFlags.ac on)))

theorem frame_cpuid : Keeps R cpuid := frame_inner fun s => by simp

/-! ## Interrupt instructions -/

/-! ## x87 -/

theorem frame_fstcw (m : ModRm) : Keeps R (fstcw m) :=
  .read fun s => Keeps.ite (.pure _) (frame_rmStore fun _ _ _ _ hp ht =>
    frame_store (hp.imp_right And.left) ht (.start (List.mem_singleton_self _) (.u16 _))) s

theorem frame_fldcw (m : ModRm) : Keeps R (fldcw m) :=
  (frame_rmAddr _ _).bind fun _ => frame_inner fun s => s.shell_modifyFpu _

theorem frame_fstsw (m : ModRm) : Keeps R (fstsw m) :=
  .read fun s => frame_rmStore (fun _ _ _ _ hp ht =>
    frame_store (hp.imp_right And.left) ht (.start (List.mem_singleton_self _) (.u16 _))) s

theorem frame_fst (m : ModRm) (w64 : Bool) : Keeps R (fst m w64) :=
  .read fun s => by
    refine Keeps.ite (frame_inner fun s => s.shell_modifyFpu _)
      (frame_rmStore fun u linear p t hp ht => ?_) s
    dsimp only [modify_run]
    refine frame_store (hp.imp_right And.left) ht ?_
    split
    · exact .start (List.mem_singleton_self _) (.u64 _)
    · exact .start (List.mem_singleton_self _) (.u32 _)

theorem frame_fstp (m : ModRm) (w64 : Bool) : Keeps R (fstp m w64) :=
  (frame_fst _ _).bind fun _ => frame_inner fun s => s.shell_modifyFpu _

theorem frame_fld (m : ModRm) (w64 : Bool) : Keeps R (fld m w64) := by
  unfold fld
  split
  · exact .read fun s => UserFrame.of_shell (s.shell_modifyFpu _)
  · exact (frame_rmAddr _ _).bind fun _ => .read fun s => UserFrame.of_shell (s.shell_modifyFpu _)

theorem frame_fild (m : ModRm) : Keeps R (fild m) :=
  (frame_rmAddr _ _).bind fun _ => .read fun s => UserFrame.of_shell (s.shell_modifyFpu _)

theorem frame_fop (op : FpuOp) (m : ModRm) : Keeps R (fop op m) := by
  unfold fop
  split
  · exact .read fun s => UserFrame.of_shell (s.shell_modifyFpu _)
  · exact (frame_rmAddr _ _).bind fun _ => .read fun s => UserFrame.of_shell (s.shell_modifyFpu _)

/-! ## SSE -/

theorem frame_setXmm (f : Cpu → U8 × U128) :
    Keeps R (modify fun s => s.setXmm (f s).1 (f s).2 : Exec Unit) :=
  frame_inner fun s => s.shell_setXmm _ _

theorem frame_sseSrc (m : ModRm) (bytes : Nat) (aligned : Bool) :
    Keeps R (sseSrc m bytes aligned) := by
  unfold sseSrc
  refine .ite (.read fun s => refl s) ((frame_rmAddr _ _).bind fun _ => .read fun s => ?_)
  split
  · exact refl s
  split
  · exact UserFrame.raise s _
  split
  · exact frame_readSplit _ _ _ s
  · exact refl s

theorem Width.bytes_le (w : Width) : w.bytes ≤ 16 := by cases w <;> decide

theorem frame_sseStore (m : ModRm) {bytes : Nat} (hb : bytes ≤ 16) (v : U128) (aligned : Bool) :
    Keeps R (sseStore m bytes v aligned) := by
  unfold sseStore
  refine .ite (frame_setXmm fun s => (m.rm, _)) (frame_rmStore fun s linear p t hp ht => ?_)
  rw [bind_run, get_run]
  split
  · exact ht
  have hp := hp.resolve_right fun hp => absurd hp.2 ‹_›
  split
  · exact IsTrans.trans _ _ _ ht (UserFrame.raise t _)
  split
  · exact frame_writeSplit hp ht _ hb v
  · rw [set_run]
    exact frame_store (.inl hp) ht (Writes.sseMemWrite (List.mem_singleton_self _) bytes v)

/-- #NM is recorded directly, over nothing when nothing is pending. -/
theorem frame_sseGate : Keeps R sseGate :=
  .read fun s => by
    split
    · exact UserFrame.raise s _
    split
    · refine (?_ : R s (if s.pendingException.isNone then s.setPending 0x07 none else s))
      split
      · exact UserFrame.setPending s _ _ (Option.isNone_iff_eq_none.mp ‹_›)
      · exact refl s
    · exact refl s

theorem frame_readLinearBytes (seg : SegReg) (off : U64) (len : Nat) :
    ∀ fuel i buf, Keeps R (readLinearBytes seg off len fuel i buf)
  | 0, _, _ => .pure _
  | fuel + 1, i, buf => by
    unfold readLinearBytes
    refine .ite (.read fun s => ?_) (.pure _)
    refine ((frame_applyPagingAccess _ _).bind fun _ => .read fun s => ?_) s
    exact Keeps.ite (.pure _) (frame_readLinearBytes seg off len fuel _ _) s

theorem frame_writeLinearBytes (seg : SegReg) (off : U64) (len : Nat) (buf : Nat → U8) :
    ∀ fuel i, Keeps R (writeLinearBytes seg off len buf fuel i)
  | 0, _ => .pure _
  | fuel + 1, i => by
    unfold writeLinearBytes
    refine .ite (.read fun s => ?_) (.pure _)
    have htrans := frame_applyPagingAccess (R := R) (s.linearAddr seg (off + BitVec.ofNat 64 i)) true s
    have hp := granted_or_unbacked (s.linearAddr seg (off + BitVec.ofNat 64 i)) s
    rw [bind_run, bind_run, get_run]
    dsimp only
    split
    · exact htrans
    · refine IsTrans.trans _ _ _ ?_ (frame_writeLinearBytes seg off len buf fuel _ _)
      refine frame_store (.inl (hp.resolve_right fun hp => absurd hp.2 ‹_›)) htrans ?_
      refine Writes.foldl fun k hk => .write (List.mem_singleton_self _) (.inr ?_) (.u8 _)
      have hk := List.mem_range.mp hk
      omega

theorem frame_fxsave (m : ModRm) : Keeps R (fxsave m) :=
  .read fun s => Keeps.ite (frame_tolerated fun _ => .inr ⟨_, rfl⟩)
    (.ite (frame_tolerated fun _ => .inr ⟨_, rfl⟩) (frame_writeLinearBytes _ _ _ _ _ _)) s

theorem frame_fxrstorImage (s : Cpu) (b : Nat → U8) : R s (s.fxrstorImage b) := by
  unfold Cpu.fxrstorImage
  dsimp only
  split
  · exact IsTrans.trans _ _ _ (UserFrame.of_shell (s.shell_modifyFpu _)) (UserFrame.raise _ _)
  · refine UserFrame.of_shell ?_
    rfl

theorem frame_fxrstor (m : ModRm) : Keeps R (fxrstor m) :=
  .read fun s => by
    refine Keeps.ite (frame_tolerated fun _ => .inr ⟨_, rfl⟩)
      (.ite (frame_tolerated fun _ => .inr ⟨_, rfl⟩) ?_) s
    refine (frame_readLinearBytes _ _ _ _ _ _).bind fun _ => .read fun s => ?_
    split
    · exact refl s
    · exact frame_fxrstorImage s _

theorem frame_xmmOp (m : ModRm) (d : U8) (bytes : Nat) (aligned : Bool)
    (f : U128 → U128 → U128) : Keeps R (xmmOp m d bytes aligned f) :=
  (frame_sseSrc _ _ _).bind fun _ => frame_inner fun s => s.shell_setXmm _ _

theorem frame_xmmRegs (m : ModRm) (d : U8) (f : U128 → U128 → U128) : Keeps R (xmmRegs m d f) :=
  frame_inner fun s => s.shell_setXmm _ _

theorem frame_byPrefix (p : Pfx) (m : ModRm) (d : U8) (f : U32 → U32 → U32) (g : U64 → U64 → U64) :
    Keeps R (byPrefix p m d f g) := by
  cases p <;> exact frame_xmmOp _ _ _ _ _

theorem frame_gprOperand (m : ModRm) (w : Width) : Keeps R (gprOperand m w) := by
  unfold gprOperand
  refine .ite (.read fun s => refl s) ((frame_rmAddr _ _).bind fun _ => .read fun s => ?_)
  split <;> exact refl s

theorem frame_movGprStore (m : ModRm) (d : U8) (w : Width) : Keeps R (movGprStore m d w) :=
  .read fun s => by
    split
    · exact UserFrame.of_shell (s.shell_setRegW _ _ _)
    · refine frame_rmStore (fun u linear p t hp ht => ?_) s
      rw [bind_run, get_run]
      split
      · exact ht
      · dsimp only [set_run]
        refine frame_store (hp.imp_right And.left) ht ?_
        split
        · exact .start (List.mem_singleton_self _) (.u64 _)
        · exact .start (List.mem_singleton_self _) (.u32 _)

theorem frame_maskedStore (seg : SegReg) (base : U64) (mask v : U128) :
    ∀ l, Keeps R (maskedStore seg base mask v l)
  | [] => .pure _
  | i :: is => by
    refine .ite (frame_translateStore _ _ fun s linear p t hp ht => ?_)
      (frame_maskedStore seg base mask v is)
    rw [bind_run, get_run]
    split
    · exact ht
    · have hstore := frame_store (hp.imp_right And.left) ht
        (Writes.start (List.mem_singleton_self _) (.u8 (byteOf v i)))
      exact IsTrans.trans _ _ _ hstore (frame_maskedStore seg base mask v is _)

/-- After an operand, a result that is only committed when nothing has faulted. -/
theorem frame_unlessPending {t : Cpu} {s : Cpu} (h : t.shell = s.shell) :
    R s ((if s.pendingException.isSome then pure () else set t : Exec Unit) s).2 := by
  split
  · exact refl s
  · exact UserFrame.of_shell h

theorem userFlags_comis (a b : U64) : UserFlags (comisFlags a b) :=
  (UserFlags.af _).comp ((UserFlags.sf _).comp ((UserFlags.of _).comp
    ((UserFlags.cf _).comp ((UserFlags.pf _).comp (UserFlags.zf _)))))

theorem frame_comis (m : ModRm) (d : U8) (p : Pfx) : Keeps R (comis m d p) :=
  (frame_sseSrc _ _ _).bind fun _ => .read fun s =>
    frame_unlessPending (s.shell_modifyFlags (userFlags_comis _ _))

theorem frame_cvt2Si (m : ModRm) (d : U8) (p : Pfx) (trunc : Bool) (w : Width) :
    Keeps R (cvt2Si m d p trunc w) :=
  (frame_sseSrc _ _ _).bind fun _ => .read fun s => frame_unlessPending (s.shell_setRegW _ _ _)

theorem frame_pinsrw (m : ModRm) (d imm : U8) : Keeps R (pinsrw m d imm) := by
  unfold pinsrw
  split
  · exact .read fun s => frame_unlessPending (s.shell_setXmm _ _)
  · exact (frame_readRm16 _).bind fun _ => .read fun s => frame_unlessPending (s.shell_setXmm _ _)

theorem frame_pshift (m : ModRm) (d imm8 : U8) (kind : ShiftKind) (bits : Nat) (imm : Bool) :
    Keeps R (pshift m d imm8 kind bits imm) := by
  unfold pshift
  split
  · exact .read fun s => frame_unlessPending (s.shell_setXmm _ _)
  · exact (frame_sseSrc _ _ _).bind fun _ => .read fun s =>
      frame_unlessPending (s.shell_setXmm _ _)

theorem frame_ldmxcsr (m : ModRm) : Keeps R (ldmxcsr m) := by
  refine .ite (frame_tolerated fun _ => .inr ⟨_, rfl⟩) ((frame_readRm32 _).bind fun _ =>
    .read fun s => ?_)
  split
  · exact refl s
  split
  · exact UserFrame.raise s _
  · exact UserFrame.of_shell rfl

theorem frame_stmxcsr (m : ModRm) : Keeps R (stmxcsr m) :=
  .ite (frame_tolerated fun _ => .inr ⟨_, rfl⟩) (.read fun s => frame_writeRmW _ _ _ s)

theorem frame_packed (s : SseInst) : Keeps R (packed s) := by
  unfold packed
  dsimp only
  split
  all_goals first
    | exact frame_xmmOp _ _ _ _ _
    | exact frame_pinsrw _ _ _
    | exact frame_pshift _ _ _ _ _ _
    | exact frame_inner fun t => t.shell_setXmm _ _
    | exact frame_inner fun t => t.shell_setRegW _ _ _
    | exact .pure _

theorem frame_conversions (s : SseInst) : Keeps R (conversions s) := by
  refine .get_bind fun t => ?_
  dsimp only
  split
  · refine (frame_gprOperand _ _).bind fun v => ?_
    cases v with
    | none => exact .pure _
    | some v => exact frame_inner fun t => t.shell_setXmm _ _
  · exact frame_cvt2Si _ _ _ _ _
  all_goals first
    | exact frame_xmmOp _ _ _ _ _
    | exact frame_packed s

theorem frame_floats (s : SseInst) : Keeps R (floats s) := by
  unfold floats
  dsimp only
  have rcp : Keeps R (if s.pfx = .p66 ∨ s.pfx = .f2 then modify (·.raiseUd)
      else byPrefix s.pfx s.m s.reg (fun _ y => f32Unary s.op y) fun _ y => y) :=
    .ite (frame_tolerated fun _ => .inr ⟨_, rfl⟩) (frame_byPrefix _ _ _ _ _)
  split
  all_goals first
    | exact frame_byPrefix _ _ _ _ _
    | exact frame_xmmOp _ _ _ _ _
    | exact frame_comis _ _ _
    | exact rcp
    | exact frame_conversions s

theorem frame_moves (s : SseInst) : Keeps R (moves s) := by
  refine .get_bind fun t => ?_
  have ud {p : Exec Unit} (hp : Keeps R p) :
      Keeps R (if s.m.isReg then modify (·.raiseUd) else p) :=
    .ite (frame_tolerated fun _ => .inr ⟨_, rfl⟩) hp
  dsimp only
  split
  · exact frame_sseStore _ (by decide) _ _
  · exact frame_xmmOp _ _ _ _ _
  · exact ud (frame_sseStore _ (by decide) _ _)
  · exact frame_sseStore _ (Width.bytes_le _) _ _
  · exact .ite (frame_xmmRegs _ _ _) (frame_xmmOp _ _ _ _ _)
  · exact ud (frame_sseStore _ (by decide) _ _)
  · exact ud (frame_xmmOp _ _ _ _ _)
  · exact frame_xmmRegs _ _ _
  · exact frame_xmmRegs _ _ _
  · exact frame_movGprStore _ _ _
  · refine ((frame_gprOperand _ _).bind fun v => ?_)
    cases v with
    | none => exact .pure _
    | some v => exact frame_inner fun t => t.shell_setXmm _ _
  · exact frame_xmmOp _ _ _ _ _
  · rename_i bits _
    refine .ite (frame_inner fun t => t.shell_setXmm _ _) (frame_sseStore _ ?_ _ _)
    cases bits <;> decide
  · exact frame_xmmOp _ _ _ _ _
  · exact frame_xmmOp _ _ _ _ _
  · exact frame_xmmOp _ _ _ _ _
  · exact frame_inner fun t => t.shell_setRegW _ _ _
  · exact frame_writeRmW _ _ _
  · exact .read fun t => frame_maskedStore _ _ _ _ _ t
  · exact frame_floats s

theorem frame_executeSse (s : SseInst) : Keeps R (executeSse s) := by
  unfold executeSse
  split
  · exact frame_fxsave _
  · exact frame_fxrstor _
  · exact frame_ldmxcsr _
  · exact frame_stmxcsr _
  · exact frame_sseGate.bind fun _ => .ite (frame_moves _) (.pure _)

/-! ## The executor -/

omit [UserFrame R] in
theorem frame_atOsize {f : Width → Exec Unit} (h : ∀ w, Keeps R (f w)) : Keeps R (atOsize f) :=
  .read fun s => h _ s

omit [UserFrame R] in
theorem frame_atStackWidth {f : Width → Exec Unit} (h : ∀ w, Keeps R (f w)) :
    Keeps R (atStackWidth f) := .read fun s => h _ s

omit [UserFrame R] in
theorem frame_atWidth {w : Width} {f : Width → Exec Unit} (h : ∀ w, Keeps R (f w)) :
    Keeps R (atWidth w f) := by
  cases w with
  | w8 => exact h _
  | w16 => exact h _
  | w32 => exact .read fun s => h _ s
  | w64 => exact .read fun s => h _ s

theorem frame_setFlagInst {f : U32} (h : f &&& ~~~Flags.user = 0) (on : Bool) :
    Keeps R (setFlagInst f on) :=
  frame_inner fun s => s.shell_modifyFlags (UserFlags.setFlag h on)

end Rules

/-- Instructions whose effects every user frame allows. The others change privileged state, leave
the code segment, divide, or store outside the write translation of their operand. -/
def Inst.confined : Inst → Bool
  | .movToCr .. | .movToDr .. | .lmsw .. | .clts | .xsetbv | .wrmsr | .swapgs => false
  | .lgdt .. | .lidt .. | .lldt .. | .ltr .. => false
  | .cli | .sti | .popf => false
  | .int .. | .iret | .iret32 | .syscall | .sysret | .vmx .. => false
  | .jmpFar .. | .jmpFar32 .. | .callFar .. | .callFar32 .. | .retf | .retf32 => false
  | .movSegRm seg _ | .popSeg seg => seg != .cs
  | .inAlImm .. | .inAxImm .. | .inAlDx | .inAxDx => false
  | .outImmAl .. | .outImmAx .. | .outDxAl | .outDxAx => false
  | .divRm8 .. | .divRm16 .. | .divRm32 .. | .idivRm8 .. | .idivRm16 .. | .idivRm32 .. => false
  | .bts m _ | .btr m _ | .btc m _ => m.isReg
  | .fistp .. => false
  | _ => true

/-- Instructions that record their exception directly, over whatever is pending. -/
def Inst.traps : Inst → Bool
  | .int3 | .into | .unknown .. => true
  | _ => false

/-- A confined instruction keeps every user frame; a trap does with nothing pending. -/
theorem execute_userFrame {R : Cpu → Cpu → Prop} [UserFrame R] {inst : Inst} (hc : inst.confined)
    {s : Cpu} (hs : inst.traps → s.pendingException = none) : R s (execute inst s).2 := by
  cases inst with
  | nop | pause | monitor | invd | wbinvd | nopHint => exact refl s
  | mwait | hlt => exact frame_inner (fun _ => by rfl) s
  | movRm8Reg m src | movRm16Reg m src => exact frame_movRmReg _ _ _ s
  | movRm32Reg m src => exact frame_atOsize (fun w => frame_movRmReg w m src) s
  | movRegRm8 m dst | movRegRm16 m dst => exact frame_movRegRm _ _ _ s
  | movRegRm32 m dst => exact frame_atOsize (fun w => frame_movRegRm w m dst) s
  | movRm8Imm m imm => exact frame_writeRm8 _ _ s
  | movRm16Imm m imm => exact frame_writeRm16 _ _ s
  | movRm32Imm m imm => exact frame_atOsize (fun w => frame_writeRmW m w (sx64 imm)) s
  | movReg8Imm dst imm => exact frame_inner (fun s => s.shell_setReg8Idx _ _) s
  | movReg16Imm dst imm => exact frame_inner (fun s => s.shell_setReg16Idx _ _) s
  | movReg32Imm dst imm | movReg64Imm dst imm =>
    exact frame_inner (fun s => s.shell_setRegW _ _ _) s
  | movAccMem8 addr | movAccMem8Addr32 addr | movAccMem16 addr | movAccMem16Addr32 addr =>
    exact frame_movAccMem _ _ s
  | movAccMem32 addr => exact frame_atOsize (fun w => frame_movAccMem w addr) s
  | movMem8Acc addr | movMem16Acc addr => exact Keeps.read (fun s => frame_movMemAcc _ _ _ s) s
  | movMem8AccAddr32 addr | movMem16AccAddr32 addr => exact frame_movMemAcc _ _ _ s
  | movMem32Acc addr =>
    exact frame_atOsize (fun w => .read fun s => frame_movMemAcc w (s.operandSeg .ds) addr s) s
  | movRmSeg m seg => exact frame_movRmSeg _ _ s
  | movSegRm seg m => exact frame_movSegRm (bne_iff_ne.mp hc) m s
  | lds m | les m | lss m | lfs m | lgs m =>
    exact frame_loadFarPointer m (by decide) s
  | aluRm8Reg op m reg dir | aluRm16Reg op m reg dir => exact frame_aluRmReg _ _ _ _ _ s
  | aluRm32Reg op m reg dir => exact frame_atOsize (fun w => frame_aluRmReg w op m reg dir) s
  | aluRm8Imm op m imm | aluRm16Imm op m imm => exact frame_aluRmImm _ _ _ _ s
  | aluRm32Imm op m imm => exact frame_atOsize (fun w => frame_aluRmImm w op m (sx64 imm)) s
  | aluAccImm8 op imm | aluAccImm16 op imm => exact frame_aluAccImm _ _ _ s
  | aluAccImm32 op imm => exact frame_atOsize (fun w => frame_aluAccImm w op (sx64 imm)) s
  | testRm8Imm m imm | testRm16Imm m imm => exact frame_testRmImm _ _ _ s
  | testRm32Imm m imm => exact frame_atOsize (fun w => frame_testRmImm w m (sx64 imm)) s
  | testRm8Reg m reg | testRm16Reg m reg => exact frame_testRmReg _ _ _ s
  | testRm32Reg m reg => exact frame_atOsize (fun w => frame_testRmReg w m reg) s
  | testAccImm8 imm | testAccImm16 imm => exact frame_testAccImm _ _ s
  | testAccImm32 imm => exact frame_atOsize (fun w => frame_testAccImm w (sx64 imm)) s
  | incReg16 dst => exact frame_incReg _ UserFlags.inc16 dst s
  | incReg32 dst => exact frame_incReg _ UserFlags.inc32 dst s
  | decReg16 dst => exact frame_decReg _ UserFlags.dec16 dst s
  | decReg32 dst => exact frame_decReg _ UserFlags.dec32 dst s
  | incRm8 m => exact frame_incRm _ UserFlags.inc8 m s
  | incRm16 m => exact frame_incRm _ UserFlags.inc16 m s
  | decRm8 m => exact frame_decRm _ UserFlags.dec8 m s
  | decRm16 m => exact frame_decRm _ UserFlags.dec16 m s
  | notRm8 m | notRm16 m => exact frame_notRm _ _ s
  | negRm8 m | negRm16 m => exact frame_negRm _ _ s
  | incRm32 m => exact frame_atOsize (fun w => frame_incRm w (UserFlags.incW w) m) s
  | decRm32 m => exact frame_atOsize (fun w => frame_decRm w (UserFlags.decW w) m) s
  | notRm32 m => exact frame_atOsize (fun w => frame_notRm w m) s
  | negRm32 m => exact frame_atOsize (fun w => frame_negRm w m) s
  | mulRm8 m | imulRm8 m => exact frame_mulRm8With _ _ s
  | mulRm16 m | imulRm16 m => exact frame_mulRmWith _ _ _ s
  | mulRm32 m => exact frame_atOsize (fun w => frame_mulRmWith w (mulW w) m) s
  | imulRm32 m => exact frame_atOsize (fun w => frame_mulRmWith w (imulW w) m) s
  | imulRegRm16 m dst => exact frame_imulRegRm16 _ _ s
  | imulRegRm32 m dst => exact frame_imulRegRm32 _ _ s
  | imulRegRmImm16 m dst imm => exact frame_imulRegRmImm16 _ _ _ s
  | imulRegRmImm32 m dst imm => exact frame_imulRegRmImm32 _ _ _ s
  | shift op m width count => exact Keeps.read (fun s => frame_doShift _ _ _ _ s) s
  | shiftImm op m width imm => exact frame_doShift _ _ _ _ s
  | shld m reg count w32 | shrd m reg count w32 => exact frame_doubleShift _ _ _ _ _ s
  | setcc cond m => exact frame_setcc _ _ s
  | bsf m dst | bsr m dst => exact frame_bitScan _ _ _ s
  | xchgRmReg m reg width => exact frame_atWidth (fun w => frame_xchgRmReg w m reg) s
  | xchgAxReg reg => exact frame_xchgAccReg _ _ s
  | xchgEaxReg reg => exact frame_atOsize (fun w => frame_xchgAccReg w reg) s
  | cmpxchg m reg width => exact frame_atWidth (fun w => frame_cmpxchg w m reg) s
  | xadd m reg width => exact frame_atWidth (fun w => frame_xadd w m reg) s
  | cmpxchg8b m => exact frame_cmpxchg8b _ s
  | bswap reg => exact frame_bswap _ s
  | cmovcc cond m dst => exact frame_cmovcc _ _ _ s
  | bt m bit => exact frame_bitOp bit (.inl rfl) s
  | bts m bit | btr m bit | btc m bit => exact frame_bitOp bit (.inr hc) s
  | movzx8 m dst => exact frame_atOsize (fun w => frame_loadReg m .w8 dst w id) s
  | movzx16 m dst => exact frame_atOsize (fun w => frame_loadReg m .w16 dst w id) s
  | movsx8 m dst => exact frame_atOsize (fun w => frame_loadReg m .w8 dst w (sext · .w8)) s
  | movsx16 m dst => exact frame_atOsize (fun w => frame_loadReg m .w16 dst w (sext · .w16)) s
  | movsxd m dst => exact frame_atOsize (fun w => frame_loadReg m .w32 dst w (sext · .w32)) s
  | lea m dst => exact frame_inner (fun s => s.shell_setRegW _ _ _) s
  | cbw | cwd => exact frame_inner (fun s => s.shell_setReg16 _ _) s
  | cwde => exact frame_atOsize frame_widenAcc s
  | cdq => exact frame_atOsize frame_fillSign s
  | pushReg16 src => exact frame_pushReg _ _ s
  | popReg16 dst => exact frame_popReg _ _ s
  | pushReg32 src => exact frame_atStackWidth (fun w => frame_pushReg w src) s
  | popReg32 dst => exact frame_atStackWidth (fun w => frame_popReg w dst) s
  | pushImm16 imm => exact frame_pushW _ _ s
  | pushImm32 imm => exact frame_atStackWidth (fun w => frame_pushW w (sx64 imm)) s
  | pushSeg seg => exact frame_pushSeg _ s
  | popSeg seg => exact frame_popSeg (bne_iff_ne.mp hc) s
  | pushRm16 m => exact frame_pushRm _ _ s
  | pushRm32 m => exact frame_atStackWidth (fun w => frame_pushRm w m) s
  | popRm16 m => exact frame_popRm _ _ s
  | popRm32 m => exact frame_atStackWidth (fun w => frame_popRm w m) s
  | pusha w32 => exact frame_pusha _ s
  | popa w32 => exact frame_popa _ s
  | pushf => exact frame_pushf s
  | leave w32 => exact frame_leave _ s
  | jmpRel8 rel | jmpRel32 rel => exact frame_inner (fun s => s.shell_branchRel _) s
  | jmpRel16 rel => exact frame_inner (fun s => s.shell_setIp _) s
  | jcc cond rel | jcc32 cond rel => exact frame_jcc _ _ s
  | callRel16 rel => exact frame_callRel16 _ s
  | callRel32 rel => exact frame_callRel32 _ s
  | callRm16 m => exact frame_callRm16 _ s
  | callRm32 m => exact frame_callRm32 _ s
  | jmpRm16 m => exact frame_jmpRm16 _ s
  | jmpRm32 m => exact frame_jmpRm32 _ s
  | ret => exact frame_ret s
  | ret32 => exact frame_ret32 s
  | retImm imm w32 => exact frame_retImm _ _ s
  | loop cond rel => exact frame_loop _ _ s
  | int3 => exact UserFrame.setPending s _ _ (hs rfl)
  | into =>
    show R s (if s.getFlag Flags.of then s.setPending 0x04 none else s)
    split
    · exact UserFrame.setPending s _ _ (hs rfl)
    · exact refl s
  | movs rep w => exact frame_stringInst frame_movsElement _ _ s
  | stos rep w => exact frame_stringInst frame_stosElement _ _ s
  | lods rep w => exact frame_stringInst frame_lodsElement _ _ s
  | cmps rep w => exact frame_stringInst frame_cmpsElement _ _ s
  | scas rep w => exact frame_stringInst frame_scasElement _ _ s
  | sgdt m => exact frame_sgdt _ s
  | sidt m => exact frame_sidt _ s
  | sldt m => exact frame_sldt _ s
  | str m => exact frame_str _ s
  | smsw m => exact frame_smsw _ s
  | movCr cr reg => exact frame_movCr _ _ s
  | movDr dr reg => exact frame_movDr _ _ s
  | xgetbv => exact frame_xgetbv s
  | clac | stac => exact frame_setAc _ s
  | invlpg m => exact frame_invlpg _ s
  | rdtsc => exact frame_rdtsc s
  | rdtscp => exact frame_rdtscp s
  | rdmsr => exact frame_rdmsr s
  | cpuid => exact frame_cpuid s
  | clc | stc | cld | std => exact frame_setFlagInst (by decide) _ s
  | cmc => exact frame_inner (fun s => s.shell_modifyFlags (UserFlags.cf _)) s
  | fninit => exact frame_inner (fun s => s.shell_modifyFpu _) s
  | fstcw m => exact frame_fstcw _ s
  | fldcw m => exact frame_fldcw _ s
  | fstswAx => exact frame_inner (fun s => s.shell_setReg16 _ _) s
  | fstsw m => exact frame_fstsw _ s
  | fst m w64 => exact frame_fst _ _ s
  | fstp m w64 => exact frame_fstp _ _ s
  | fld m w64 => exact frame_fld _ _ s
  | fild m => exact frame_fild _ s
  | fop op m => exact frame_fop _ _ s
  | sse i => exact frame_executeSse _ s
  | unknown b => exact UserFrame.setPending s _ _ (hs rfl)
  | _ => cases hc

/-! ## Division -/

/-- DIV and IDIV. -/
def Inst.divides : Inst → Bool
  | .divRm8 .. | .divRm16 .. | .divRm32 .. | .idivRm8 .. | .idivRm16 .. | .idivRm32 .. => true
  | _ => false

/-- What a division does once its operand is read. -/
inductive DivideStep (t : Cpu) : Cpu → Prop
  | error : DivideStep t (divideError t)
  | abort : DivideStep t { t with panicked := true }
  | store {u : Cpu} (h : u.shell = t.shell) : DivideStep t u

theorem divideStep_signedDivide {n : Nat} (a v : BitVec n)
    {commit : BitVec n → BitVec n → Cpu → Cpu} {t : Cpu}
    (h : ∀ q r, DivideStep t (commit q r t)) : DivideStep t (signedDivide a v commit t) := by
  unfold signedDivide
  split
  · exact .abort
  · exact h _ _

/-- An operand is read, which keeps every user frame, and a division step taken on it. -/
def Divides (p : Exec Unit) : Prop :=
  ∀ s, ∃ t, (∀ (R : Cpu → Cpu → Prop) [UserFrame R], R s t) ∧ DivideStep t (p s).2

theorem divides_read {α : Type} {p : Exec α} {f : α → Cpu → Cpu}
    (hp : ∀ (R : Cpu → Cpu → Prop) [UserFrame R], Keeps R p) (hf : ∀ v t, DivideStep t (f v t)) :
    Divides (p >>= fun v => modify (f v)) :=
  fun s => ⟨(p s).2, fun R _ => hp R s, hf _ _⟩

/-- The same, where the operand size is read first. -/
theorem divides_readAt {α : Type} {p : Cpu → Exec α} {f : Cpu → α → Cpu → Cpu}
    (hp : ∀ s (R : Cpu → Cpu → Prop) [UserFrame R], Keeps R (p s))
    (hf : ∀ s v t, DivideStep t (f s v t)) :
    Divides (get >>= fun s => p s >>= fun v => modify (f s v)) :=
  fun s => divides_read (hp s) (hf s) s

theorem divides_execute {inst : Inst} (hd : inst.divides) : Divides (execute inst) := by
  cases inst with
  | divRm8 m =>
    refine divides_read (fun R _ => frame_readRm8 m) fun v t => ?_
    split
    · exact .error
    · exact .store (by simp)
  | divRm16 m =>
    refine divides_read (fun R _ => frame_readRm16 m) fun v t => ?_
    split
    · exact .error
    · exact .store (by simp)
  | divRm32 m =>
    refine divides_readAt (fun s R _ => frame_readRmW m s.osize) fun s v t => ?_
    split
    · exact .error
    dsimp only
    split
    · exact .error
    · exact .store (by simp)
  | idivRm8 m =>
    refine divides_read (fun R _ => frame_readRm8 m) fun v t => ?_
    split
    · exact .error
    · exact divideStep_signedDivide _ _ fun q r => .store (by simp)
  | idivRm16 m =>
    refine divides_read (fun R _ => frame_readRm16 m) fun v t => ?_
    split
    · exact .error
    · exact divideStep_signedDivide _ _ fun q r => .store (by simp)
  | idivRm32 m =>
    refine divides_readAt (fun s R _ => frame_readRmW m s.osize) fun s v t => ?_
    split
    · exact .error
    · refine divideStep_signedDivide _ _ fun q r => ?_
      split
      · exact .error
      · exact .store (by simp)
  | _ => cases hd

end X86Emu
