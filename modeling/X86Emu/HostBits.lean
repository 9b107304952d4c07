import X86Emu.FaultingDelivery
import X86Emu.GuestRoundTrip
import X86Emu.Run

/-!
# Control-register bits owned by the host

The guest/host masks give the hypervisor bits of CR0 and CR4. A run of the guest keeps them, and its
reads take them from the shadows, as long as none of its instructions leaks one.
-/
namespace X86Emu

open StateRules

/-! ## What a guest may do without touching a control register -/

/-- The control registers are kept, unless the guest was left. -/
def KeptOrLeft (s t : Cpu) : Prop := t.vmx.inGuest = true → ControlKept s t

instance : Frame KeptOrLeft where
  refl s _ := refl (r := ControlKept) s
  trans _ _ _ h k hu := by
    have hk := k hu
    exact IsTrans.trans (r := ControlKept) _ _ _ (h (hk.inGuest ▸ hu)) hk
  of_core h _ := Frame.of_core h
  raise s f _ := Frame.raise s f
  setPending s v c hs _ := Frame.setPending s v c hs

theorem keptOrLeft_vmExit (s t : Cpu) (reason : U32) (q : U64) (info err : U32) :
    KeptOrLeft s (t.vmExit reason q info err) := by
  intro h
  rw [Cpu.vmExit_inGuest] at h
  cases h

theorem keptOrLeft_exitWith (reason : U32) (q : U64) : Keeps KeptOrLeft (exitWith reason q) :=
  fun s => keptOrLeft_vmExit s s reason q 0 0

/-- An instruction handled by the intercept, or let through untouched. -/
def Handled (p : Exec Bool) : Prop :=
  ∀ s, p s = (false, s) ∨ ((p s).1 = true ∧ KeptOrLeft s (p s).2)

theorem handled_exitWith (reason : U32) (q : U64) : Handled (exitWith reason q) :=
  fun s => .inr ⟨rfl, keptOrLeft_exitWith reason q s⟩

theorem handled_pass : Handled (pure false) := fun _ => .inl rfl

theorem Handled.ite {c : Prop} [Decidable c] {p q : Exec Bool} (hp : Handled p) (hq : Handled q) :
    Handled (if c then p else q) := by
  split
  · exact hp
  · exact hq

theorem handled_ioIntercept (port : U16) (size : U64) (input imm : Bool) (ctl : U32) :
    Handled (ioIntercept port size input imm ctl) := by
  intro s
  exact (Handled.ite (handled_exitWith _ _) handled_pass) s

theorem handled_crReadIntercept (cr reg : U8) (ctl : U32) :
    Handled (crReadIntercept cr reg ctl) := by
  refine (handled_exitWith _ _).ite ((handled_exitWith _ _).ite (Handled.ite ?_ handled_pass))
  intro s
  refine .inr ⟨rfl, ?_⟩
  exact Frame.of_core (s.core_setRegW _ _ _)

/-- MOV to a control register, LMSW and CLTS: the instructions that write one. -/
def Inst.writesCr : Inst → Bool
  | .movToCr .. | .lmsw .. | .clts => true
  | _ => false

theorem handled_intercept {inst : Inst} (hw : inst.writesCr = false) : Handled (intercept inst) := by
  intro s
  have hexit (c : Bool) (reason : U32) (q : U64) :
      Handled (if c then exitWith reason q else pure false) := (handled_exitWith _ _).ite handled_pass
  cases inst with
  | cpuid | vmx | xsetbv | invd => exact handled_exitWith _ _ s
  | hlt | invlpg | rdtsc | rdmsr | wrmsr | movDr | movToDr | wbinvd | mwait | monitor | pause =>
    exact hexit _ _ _ s
  | rdtscp =>
    refine ((handled_exitWith _ _).ite (Handled.ite ?_ handled_pass)) s
    exact fun t => .inr ⟨rfl, Frame.raise t _⟩
  | movCr => exact handled_crReadIntercept _ _ _ s
  | inAlImm | inAxImm | outImmAl | outImmAx | inAlDx | inAxDx | outDxAl | outDxAx =>
    exact handled_ioIntercept _ _ _ _ _ s
  | movToCr | lmsw | clts => cases hw
  | _ => exact handled_pass s

/-! ### Division and VMX -/

theorem controlKept_of_divideStep {s t : Cpu} (h : DivideStep s t) : ControlKept s t := by
  cases h with
  | error => exact ⟨rfl, rfl, rfl, rfl⟩
  | abort => exact ⟨rfl, rfl, rfl, rfl⟩
  | store h => exact Frame.of_core (core_of_shell h)

theorem controlKept_divide {inst : Inst} (hp : inst.plain = false) (hw : inst.writesCr = false)
    (hx : ∀ v, inst ≠ .vmx v) : Keeps ControlKept (execute inst) := by
  intro s
  have hd : inst.divides = true := by
    cases inst with
    | vmx v => exact absurd rfl (hx v)
    | movToCr | lmsw | clts => cases hw
    | divRm8 | divRm16 | divRm32 | idivRm8 | idivRm16 | idivRm32 => rfl
    | _ => cases hp
  obtain ⟨t, hread, hstep⟩ := divides_execute hd s
  exact IsTrans.trans _ _ _ (hread ControlKept) (controlKept_of_divideStep hstep)

theorem keptOrLeft_guest {inst : Inst} (hh : Handled (intercept inst)) {s : Cpu}
    (hx : intercept inst s = (false, s) → KeptOrLeft s (execute inst s).2) :
    KeptOrLeft s (guestExecute inst s).2 := by
  rw [guestExecute, bind_run]
  rcases hh s with hpass | ⟨htrue, hkept⟩
  · have hexec := hx hpass
    rw [hpass]
    exact hexec
  · rw [htrue, if_pos rfl]
    exact hkept

/-- An instruction that writes no control register keeps them, or leaves the guest. -/
theorem keptOrLeft_guestExecute {inst : Inst} (hw : inst.writesCr = false) {s : Cpu}
    (hs : s.pendingException = none) : KeptOrLeft s (guestExecute inst s).2 := by
  refine keptOrLeft_guest (handled_intercept hw) fun hpass _ => ?_
  by_cases hp : inst.plain = true
  · exact execute_frame hp hs
  · refine controlKept_divide (Bool.eq_false_of_not_eq_true hp) hw ?_ s
    rintro v rfl
    exact Bool.noConfusion (congrArg Prod.fst hpass)

/-! ### Events -/

theorem keptOrLeft_reset (s : Cpu) : KeptOrLeft s s.resetOnTripleFault := by
  unfold Cpu.resetOnTripleFault
  split
  · exact keptOrLeft_vmExit s s _ _ _ _
  · exact fun _ => ⟨rfl, rfl, rfl, rfl⟩

theorem keptOrLeft_clearPending (s : Cpu) : KeptOrLeft s s.clearPending :=
  fun _ => ⟨rfl, rfl, rfl, rfl⟩

theorem keptOrLeft_resolveNested (v : U8) {df : Exec Unit} (hdf : Keeps KeptOrLeft df) :
    Keeps KeptOrLeft (resolveNested v df) := by
  refine .get_bind fun s => ?_
  split
  · exact frame_modify fun t => by rfl
  refine .ite ?_ (.ite ?_ (frame_modify fun t => by rfl))
  · exact .modify fun t => IsTrans.trans (r := KeptOrLeft) _ _ _ (keptOrLeft_clearPending t)
      (keptOrLeft_reset t.clearPending)
  · exact (Keeps.modify keptOrLeft_clearPending).bind fun _ => hdf

theorem keptOrLeft_deliverEvent {df : Exec Unit} (hdf : Keeps KeptOrLeft df) (v : U8)
    (code : Option U32) : Keeps KeptOrLeft (deliverEvent df v code) := by
  refine (frame_modify fun t => ?_).bind fun _ => .get_bind fun s => ?_
  · split <;> rfl
  refine .ite (.modify keptOrLeft_reset) (.ite ?_ ?_)
  · exact (frame_protectedIntErr v code).bind fun _ => keptOrLeft_resolveNested v hdf
  · exact (frame_realInt v).bind fun _ => frame_modify fun t => by rfl

theorem keptOrLeft_interceptException {deliver : U8 → Option U32 → Exec Unit} (v : U8)
    (code : Option U32) (hd : Keeps KeptOrLeft (deliver v code)) :
    Keeps KeptOrLeft (interceptException deliver v code) := by
  refine .read fun s => ?_
  split
  · have hset : KeptOrLeft s (if Cpu.isTrap v = true then s else { s with rip := s.ripStart }) := by
      split
      · exact refl s
      · exact Frame.of_core rfl
    dsimp only
    generalize (if Cpu.isTrap v = true then s else { s with rip := s.ripStart }) = u at hset ⊢
    refine IsTrans.trans _ _ _ hset ?_
    by_cases hx : u.exceptionIntercepted v code = true
    · have hexit : u.exceptionExit v code = (true, { u with rip := u.ripStart }.vmExit
          Reason.exceptionNmi (if v = 0x0E then u.cr2 else 0) (Cpu.exceptionInfo v code)
          (code.getD 0)) := by
        unfold Cpu.exceptionExit
        rw [hx]
        rfl
      rw [hexit, if_pos rfl]
      exact keptOrLeft_vmExit u _ _ _ _ _
    · have hstay : u.exceptionExit v code = (false, u) := by
        unfold Cpu.exceptionExit
        rw [Bool.eq_false_of_not_eq_true hx]
        rfl
      rw [hstay, if_neg Bool.false_ne_true]
      exact hd u
  · exact hd s

theorem keptOrLeft_dispatchException (v : U8) (code : Option U32) :
    Keeps KeptOrLeft (dispatchException v code) := by
  have hpure : Keeps KeptOrLeft (pure () : Exec Unit) := .pure ()
  have hdouble : Keeps KeptOrLeft dispatchDoubleFault :=
    keptOrLeft_interceptException _ _ (keptOrLeft_deliverEvent hpure _ _)
  exact keptOrLeft_interceptException _ _ (keptOrLeft_deliverEvent hdouble _ _)

theorem core_typeNextKey (s : Cpu) : s.typeNextKey.core = s.core := by
  unfold Cpu.typeNextKey
  split
  · exact core_ite rfl rfl
  · rfl

theorem core_collectIrqs (s : Cpu) : s.collectIrqs.core = s.core := by
  have htimer (t : Cpu) : (if t.pit.irq0 = true then
      { t with pit := { t.pit with irq0 := false } }.raiseIrq 0 else t).core = t.core :=
    core_ite rfl rfl
  have hkbd (t : Cpu) : (if t.kbd.irq1 = true then
      { t with kbd := { t.kbd with irq1 := false } }.raiseIrq 1 else t).core = t.core :=
    core_ite rfl rfl
  have hvirtio (t : Cpu) : (if t.virtio.irq = true then t.raiseIrq virtioIrq else t).core =
      t.core := core_ite rfl rfl
  have hide (t : Cpu) : (if t.ide.busy = true then
      { t with ide := { t.ide with busy := false } }.raiseIrq 14 else t).core = t.core :=
    core_ite rfl rfl
  have hticks : s.tickTimers.core = s.core := rfl
  exact (hide _).trans ((hvirtio _).trans ((hkbd _).trans ((core_typeNextKey _).trans
    ((htimer _).trans hticks))))

theorem keptOrLeft_interruptExit {s : Cpu} (h : s.interruptExit.1 = true) :
    KeptOrLeft s s.interruptExit.2 := by
  revert h
  unfold Cpu.interruptExit
  split
  · intro h
    cases h
  split
  · exact fun _ => keptOrLeft_vmExit s _ _ _ _ _
  · exact fun _ => keptOrLeft_vmExit s _ _ _ _ _

theorem keptOrLeft_deliverHardwareInterrupt : Keeps KeptOrLeft deliverHardwareInterrupt := by
  refine .get_bind fun s => .ite (.pure false) ?_
  refine (frame_modify core_collectIrqs).bind fun _ => .read fun t => ?_
  split
  · exact refl t
  split
  · rename_i hexit
    rw [Bool.and_eq_true] at hexit
    exact keptOrLeft_interruptExit hexit.2
  generalize t.pic.acknowledge = a
  obtain ⟨_ | vector, pic⟩ := a
  · exact refl t
  · have hlast : Keeps KeptOrLeft (do modify (·.invalidatePhysIp); pure true : Exec Bool) :=
      (frame_modify fun u => by rfl).bind fun _ => .pure true
    refine Keeps.set_bind (Frame.of_core rfl) (.ite ?_ ?_)
    · exact (frame_protectedIntErr vector none).bind fun _ => hlast
    · exact (frame_realInt vector).bind fun _ => hlast

theorem keptOrLeft_serveEvents : Keeps KeptOrLeft serveEvents := by
  refine .get_bind fun s => ?_
  split
  · exact (Keeps.modify keptOrLeft_clearPending).bind fun _ => keptOrLeft_dispatchException _ _
  · exact keptOrLeft_deliverHardwareInterrupt.bind fun _ => .pure ()

theorem keptOrLeft_beforeStep (s : Cpu) : KeptOrLeft s s.beforeStep := by
  unfold Cpu.beforeStep Cpu.preStep
  split
  · split
    · exact keptOrLeft_vmExit s _ _ _ _ _
    · exact refl s
  · exact refl s

/-! ## The bits the masks select -/

/-- The bits the masks select, and the VMCS that holds the masks, are as they were. -/
structure HostBits (s t : Cpu) : Prop where
  bits : ∀ cr, t.crReal cr &&& s.crMask cr = s.crReal cr &&& s.crMask cr
  vmcs : t.vmx.vmcs = s.vmx.vmcs

theorem crMask_congr {s t : Cpu} (h : t.vmx.vmcs = s.vmx.vmcs) (cr : U8) :
    t.crMask cr = s.crMask cr := by
  unfold Cpu.crMask Cpu.vmRead Vmx.read
  rw [h]

theorem HostBits.trans {s t u : Cpu} (h : HostBits s t) (k : HostBits t u) : HostBits s u where
  bits cr := by
    have hk := k.bits cr
    rw [crMask_congr h.vmcs] at hk
    exact hk.trans (h.bits cr)
  vmcs := k.vmcs.trans h.vmcs

theorem hostBits_of_kept {s t : Cpu} (h : ControlKept s t) : HostBits s t where
  bits cr := by
    unfold Cpu.crReal
    rw [h.cr0, h.cr4]
  vmcs := h.vmcs

/-- Replacing CR0 by a value with the same host-owned bits. -/
theorem hostBits_writeCr0 (s : Cpu) {v : U32}
    (h : u64 v &&& s.crMask 0 = u64 s.cr0 &&& s.crMask 0) : HostBits s (s.writeCr0 v) := by
  have hcr0 : (s.writeCr0 v).cr0 = v := by
    unfold Cpu.writeCr0 Cpu.updateLongMode
    dsimp only
    split <;> split <;> rfl
  have hcr4 : (s.writeCr0 v).cr4 = s.cr4 := by
    unfold Cpu.writeCr0 Cpu.updateLongMode
    dsimp only
    split <;> split <;> rfl
  refine ⟨fun cr => ?_, ?_⟩
  · unfold Cpu.crReal
    rw [hcr0, hcr4]
    by_cases hcr : cr = 0
    · subst hcr
      exact h
    · rw [if_neg hcr, if_neg hcr]
  · unfold Cpu.writeCr0 Cpu.updateLongMode
    dsimp only
    split <;> split <;> rfl

/-- The same for CR4. -/
theorem hostBits_writeCr4 (s : Cpu) {v : U32}
    (h : u64 v &&& s.crMask 4 = u64 s.cr4 &&& s.crMask 4) :
    HostBits s { s with cr4 := v }.flushTlb := by
  refine ⟨fun cr => ?_, rfl⟩
  by_cases h0 : cr = 0
  · subst h0
    rfl
  · have hmask : s.crMask cr = s.crMask 4 := by
      unfold Cpu.crMask
      rw [if_neg h0]
      rfl
    have hreal (t : Cpu) : t.crReal cr = u64 t.cr4 := if_neg h0
    rw [hmask, hreal, hreal]
    exact h

/-- The guest-owned bits of one value and the host-owned bits of another. -/
theorem and_mask_merge (v mask : U64) (r : U32) :
    u64 (u32 (v &&& ~~~mask ||| u64 r &&& mask)) &&& mask = u64 r &&& mask := by
  ext i hi
  simp only [BitVec.getElem_and, BitVec.getElem_setWidth, BitVec.getLsbD_setWidth,
    BitVec.getLsbD_or, BitVec.getLsbD_and, BitVec.getLsbD_not]
  by_cases h : i < 32
  · cases hm : mask[i] <;> simp [h, hi, hm, BitVec.getLsbD_eq_getElem]
  · simp [h, Nat.not_lt.mp h]

/-- The host's bits are kept, unless the guest was left. -/
def HostBitsOrLeft (s t : Cpu) : Prop := t.vmx.inGuest = true → HostBits s t

theorem KeptOrLeft.hostBits {s t : Cpu} (h : KeptOrLeft s t) : HostBitsOrLeft s t :=
  fun hg => hostBits_of_kept (h hg)

theorem crShadowedWrite_hostBits (cr reg : U8) (v : U64) (hcr : cr = 0 ∨ cr = 4) (s : Cpu) :
    (crShadowedWrite cr reg v s).1 = true ∧ HostBitsOrLeft s (crShadowedWrite cr reg v s).2 := by
  rw [crShadowedWrite, bind_run, get_run]
  dsimp only
  split
  · exact ⟨rfl, (keptOrLeft_exitWith _ _ s).hostBits⟩
  refine ⟨rfl, fun _ => ?_⟩
  rw [bind_run, modify_run, pure_run]
  dsimp only
  rcases hcr with rfl | rfl
  · exact hostBits_writeCr0 s (and_mask_merge v _ _)
  · exact hostBits_writeCr4 s (and_mask_merge v _ _)

/-! ## The instructions that write a control register -/

/-- The operand LMSW stores, and the state after it is read; the intercept has read it before. -/
def Cpu.lmswLoad (s : Cpu) (m : ModRm) : U16 × Cpu := readRm16 m (readRm16 m s).2

/-- CR0 or CR4 as the guest sees it. -/
def Cpu.crGuest (s : Cpu) (cr : U8) : U64 :=
  s.crReal cr &&& ~~~s.crMask cr ||| s.crShadow cr &&& s.crMask cr

/-- The part of a CR0 value that SMSW stores. -/
def Cpu.swPart (s : Cpu) (m : ModRm) (v : U64) : U64 :=
  v &&& if m.isReg then s.osize.mask else Width.w16.mask

/-- A host-owned bit escapes: CLTS clears TS behind a shadow that has it clear, LMSW stores an
operand that differs from CR0 in such a bit, SMSW stores one that differs from the shadow. -/
def Inst.Leaks (s : Cpu) : Inst → Prop
  | .clts => test (s.crMask 0) 0x8 = true ∧ test (s.crShadow 0) 0x8 = false ∧ test s.cr0 0x8 = true
  | .lmsw m =>
    s.cpl = 0 ∧ (s.lmswLoad m).2.pendingException = none ∧
      u64 (lmswValue s.cr0 (s.lmswLoad m).1) &&& s.crMask 0 ≠ u64 s.cr0 &&& s.crMask 0
  | .smsw m => s.swPart m (u64 s.cr0) ≠ s.swPart m (s.crGuest 0)
  | _ => False

theorem handled_crWriteIntercept {cr : U8} (hcr : ¬(cr = 0 ∨ cr = 4)) (reg : U8) (ctl : U32) :
    Handled (crWriteIntercept cr reg ctl) := by
  intro s
  have hexit := handled_exitWith Reason.crAccess
  refine Handled.ite (Handled.ite (handled_pass.ite (hexit _)) handled_pass)
    (Handled.ite (Handled.ite (hexit _) handled_pass) ?_) s
  rw [if_neg hcr]
  exact handled_pass

theorem hostBits_movToCr (cr reg : U8) (s : Cpu) :
    HostBitsOrLeft s (guestExecute (.movToCr cr reg) s).2 := by
  by_cases hcr : cr = 0 ∨ cr = 4
  · obtain ⟨htrue, hbits⟩ := crShadowedWrite_hostBits cr reg
      (s.regW reg (if s.longMode then .w64 else .w32)) hcr s
    have hrun : intercept (.movToCr cr reg) s =
        crShadowedWrite cr reg (s.regW reg (if s.longMode then .w64 else .w32)) s := by
      have h3 : cr ≠ 3 := by rintro rfl; exact absurd hcr (by decide)
      have h8 : cr ≠ 8 := by rintro rfl; exact absurd hcr (by decide)
      show crWriteIntercept cr reg _ s = _
      rw [crWriteIntercept, bind_run, get_run]
      dsimp only
      rw [if_neg h3, if_neg h8, if_pos hcr]
    rw [guestExecute, bind_run, hrun, htrue, if_pos rfl]
    exact hbits
  · have hh : Handled (intercept (.movToCr cr reg)) := fun t =>
      handled_crWriteIntercept hcr reg (u32 (t.vmRead Field.cpuCtls)) t
    refine (keptOrLeft_guest hh fun _ _ => ?_).hostBits
    show ControlKept s (if cr = 0 then _ else _ : Cpu)
    rw [if_neg fun h => hcr (.inl h), if_neg fun h => hcr (.inr h)]
    split
    · exact ⟨rfl, rfl, rfl, rfl⟩
    · split <;> exact ⟨rfl, rfl, rfl, rfl⟩

theorem hostBits_clts {s : Cpu} (hl : ¬ Inst.clts.Leaks s) :
    HostBitsOrLeft s (guestExecute .clts s).2 := by
  have hh : Handled (intercept .clts) := fun t =>
    ((handled_exitWith Reason.crAccess (Cpu.crQual 0 2 0 0)).ite handled_pass) t
  rw [guestExecute, bind_run]
  rcases hh s with hpass | ⟨htrue, hkept⟩
  swap
  · rw [htrue, if_pos rfl]
    exact hkept.hostBits
  rw [hpass]
  intro _
  have hstay : ¬(test (s.crMask 0) 0x8 && test (s.crShadow 0) 0x8) = true := by
    intro h
    have hexit : intercept .clts s = exitWith Reason.crAccess (Cpu.crQual 0 2 0 0) s :=
      congrFun (if_pos h) s
    exact Bool.noConfusion (congrArg Prod.fst (hexit.symm.trans hpass))
  rw [Bool.and_eq_true, not_and, Bool.not_eq_true] at hstay
  have hts : u64 (s.cr0 &&& ~~~0x8) &&& s.crMask 0 = u64 s.cr0 &&& s.crMask 0 := by
    by_cases hmask : test (s.crMask 0) 0x8 = true
    · have hreal : test s.cr0 0x8 = false := by
        by_contra h
        exact hl ⟨hmask, hstay hmask, Bool.eq_true_of_not_eq_false h⟩
      rw [andNot_of_test hreal]
    · have hzero : s.crMask 0 &&& u64 (8 : U32) = 0 := by simpa [test] using hmask
      ext i hi
      have hbit : ((s.crMask 0)[i] && (u64 (8 : U32))[i]) = false := by
        rw [← BitVec.getElem_and, getElem_congr_coll hzero]
        exact BitVec.getElem_zero (i := i) hi
      rw [Bool.and_eq_false_iff, BitVec.getElem_setWidth] at hbit
      simp only [BitVec.getElem_and, BitVec.getElem_setWidth, BitVec.getLsbD_and,
        BitVec.getLsbD_not]
      rcases hbit with hm | h8
      · rw [hm, Bool.and_false, Bool.and_false]
      · rw [h8]
        by_cases h32 : i < 32
        · simp [h32]
        · simp [Nat.not_lt.mp h32]
  refine ⟨fun cr => ?_, rfl⟩
  by_cases h0 : cr = 0
  · subst h0
    exact hts
  · have hreal (t : Cpu) : t.crReal cr = u64 t.cr4 := if_neg h0
    rw [hreal, hreal]
    rfl

theorem pushOnly_readRm16 (m : ModRm) : Keeps Cpu.PushOnly (readRm16 m) :=
  (pushOnly_readRmW m .w16).bind fun _ => .pure _

theorem cpl_of_pushOnly {s t : Cpu} (h : Cpu.PushOnly s t) : t.cpl = s.cpl := by
  rw [h]
  rfl

theorem hostBits_lmsw {m : ModRm} {s : Cpu} (hl : ¬ (Inst.lmsw m).Leaks s) :
    HostBitsOrLeft s (guestExecute (.lmsw m) s).2 := by
  have hread : ControlKept s (readRm16 m s).2 := frame_readRm16 m s
  have hcpl : (readRm16 m s).2.cpl = s.cpl := cpl_of_pushOnly (pushOnly_readRm16 m s)
  have hreread : ControlKept s (s.lmswLoad m).2 :=
    IsTrans.trans _ _ _ hread (frame_readRm16 m (readRm16 m s).2)
  have hexec : HostBits s (lmsw m (readRm16 m s).2).2 := by
    rw [lmsw, bind_run, get_run]
    dsimp only
    split
    · exact hostBits_of_kept (IsTrans.trans _ _ _ hread (Frame.raise _ _))
    rename_i hring
    rw [bind_run, bind_run, get_run]
    change HostBits s ((if (s.lmswLoad m).2.pendingException.isSome = true then pure ()
      else set ((s.lmswLoad m).2.writeCr0
        (lmswValue (s.lmswLoad m).2.cr0 (s.lmswLoad m).1)) : Exec Unit) (s.lmswLoad m).2).2
    split
    · exact hostBits_of_kept hreread
    rename_i hpend
    have hnone : (s.lmswLoad m).2.pendingException = none :=
      Option.not_isSome_iff_eq_none.mp hpend
    refine (hostBits_of_kept hreread).trans (hostBits_writeCr0 _ ?_)
    rw [crMask_congr hreread.vmcs, hreread.cr0]
    by_contra hne
    exact hl ⟨hcpl.symm.trans (not_not.mp hring), hnone, hne⟩
  rw [guestExecute, bind_run]
  change HostBitsOrLeft s ((if (lmswIntercept m s).1 = true then pure () else lmsw m : Exec Unit)
    (lmswIntercept m s).2).2
  have hrun : lmswIntercept m s =
      if (readRm16 m s).2.pendingException.isSome = true then (true, (readRm16 m s).2)
      else if ((u64 (readRm16 m s).1 &&& 0xF ||| u64 (readRm16 m s).2.cr0 &&& 1) ^^^ s.crShadow 0)
          &&& s.crMask 0 &&& 0xF ≠ 0 then
        exitWith Reason.crAccess (Cpu.crQual 0 3 0 (if m.isReg then 0 else 1) |||
          (u64 (readRm16 m s).1 &&& 0xFFFF) <<< 16) (readRm16 m s).2
      else (false, (readRm16 m s).2) := by
    rw [lmswIntercept]
    by_cases hp : (readRm16 m s).2.pendingException.isSome = true
    · simp only [bind_run, get_run, hp, ↓reduceIte, pure_run]
    · simp only [bind_run, get_run, hp, ↓reduceIte, Bool.false_eq_true]
      exact ite_run _ _ _ _
  rw [hrun]
  split
  · exact fun _ => hostBits_of_kept hread
  split
  · exact (IsTrans.trans (r := KeptOrLeft) _ _ _ (fun _ => hread)
      (keptOrLeft_exitWith _ _ (readRm16 m s).2)).hostBits
  · exact fun _ => hexec

/-- An instruction that leaks no host-owned bit changes none. -/
theorem hostBits_guestExecute {inst : Inst} {s : Cpu} (hs : s.pendingException = none)
    (hl : ¬ inst.Leaks s) : HostBitsOrLeft s (guestExecute inst s).2 := by
  by_cases hw : inst.writesCr = true
  · cases inst with
    | movToCr cr reg => exact hostBits_movToCr cr reg s
    | lmsw m => exact hostBits_lmsw hl
    | clts => exact hostBits_clts hl
    | _ => cases hw
  · exact (keptOrLeft_guestExecute (Bool.eq_false_of_not_eq_true hw) hs).hostBits

/-! ## The instructions that read one -/

/-- SMSW, storing the low bits of `v`. -/
def storeMsw (m : ModRm) (v : U64) : Exec Unit := do
  let s ← get
  if m.isReg then writeRmW m s.osize (if s.osize = .w16 then v &&& 0xFFFF else v)
  else writeRm16 m (u16 v)

/-- A read of CR0 or CR4 sees the shadow in the host-owned bits. -/
def Inst.ReadsGuestView (s : Cpu) : Inst → Prop
  | .movCr cr reg => cr = 0 ∨ cr = 4 →
    (guestExecute (.movCr cr reg) s).2 = s.setRegW reg (crWidth s) (s.crGuest cr)
  | .smsw m => (guestExecute (.smsw m) s).2 = (storeMsw m (s.crGuest 0) s).2
  | _ => True

theorem movCr_readsGuestView (cr reg : U8) (s : Cpu) : (Inst.movCr cr reg).ReadsGuestView s := by
  intro hcr
  have hrun : intercept (.movCr cr reg) s = (true, s.setRegW reg (crWidth s) (s.crGuest cr)) := by
    have h3 (c : Bool) : ¬(cr = 3 ∧ c = true) := by
      rintro ⟨rfl, -⟩
      exact absurd hcr (by decide)
    have h8 (c : Bool) : ¬(cr = 8 ∧ c = true) := by
      rintro ⟨rfl, -⟩
      exact absurd hcr (by decide)
    show crReadIntercept cr reg _ s = _
    rw [crReadIntercept, if_neg (h3 _), if_neg (h8 _), if_pos hcr]
    rfl
  rw [guestExecute, bind_run, hrun]
  rfl

theorem smsw_eq_storeMsw (m : ModRm) (s : Cpu) : smsw m s = storeMsw m (u64 s.cr0) s := by
  have hlow : u16 (u64 s.cr0) = u16 s.cr0 := BitVec.setWidth_setWidth_of_le _ (by decide)
  rw [smsw, storeMsw, bind_run, bind_run, get_run]
  dsimp only
  rw [hlow]

theorem mask_osize (s : Cpu) : s.osize ≠ .w8 := by
  unfold Cpu.osize
  split
  · decide
  · split <;> decide

theorem setRegAt_congr {i : U8} {v v' : U64}
    (h : v &&& Width.w32.mask = v' &&& Width.w32.mask) (s : Cpu) :
    s.setRegAt i .w32 v = s.setRegAt i .w32 v' := by
  have hmerge (old : U64) : Cpu.mergeW old .w32 v = Cpu.mergeW old .w32 v' := h
  have hw : Width.w32 ≠ Width.w8 := by decide
  unfold Cpu.setRegAt Cpu.setRegW Cpu.setRegWRaw
  rw [hmerge, if_neg hw, if_neg hw]

/-- SMSW does the same with two values that agree in the bits it stores. -/
theorem storeMsw_congr {m : ModRm} {s : Cpu} {v v' : U64} (h : s.swPart m v = s.swPart m v') :
    storeMsw m v s = storeMsw m v' s := by
  unfold Cpu.swPart at h
  rw [storeMsw, storeMsw, bind_run, bind_run, get_run]
  dsimp only
  by_cases hm : m.isReg = true
  · rw [if_pos hm, if_pos hm]
    rw [if_pos hm] at h
    cases hw : s.osize with
    | w8 => exact absurd hw (mask_osize s)
    | w16 =>
      rw [hw] at h
      exact congrArg (writeRmW m .w16 · s) h
    | w32 =>
      rw [hw] at h
      rw [if_neg (by decide), if_neg (by decide), writeRmW, writeRmW, if_pos hm, if_pos hm]
      simp only [setRegAt_congr h]
    | w64 =>
      rw [hw] at h
      have hall (x : U64) : x &&& Width.w64.mask = x := BitVec.and_allOnes
      rw [hall, hall] at h
      rw [h]
  · rw [if_neg hm, if_neg hm]
    rw [if_neg hm] at h
    have hlow (x : U64) : u16 (x &&& Width.w16.mask) = u16 x :=
      BitVec.setWidth_and.trans BitVec.and_allOnes
    rw [← hlow v, h, hlow]

/-- A read that leaks no host-owned bit sees the shadow. -/
theorem readsGuestView {inst : Inst} {s : Cpu} (hl : ¬ inst.Leaks s) : inst.ReadsGuestView s := by
  cases inst with
  | movCr cr reg => exact movCr_readsGuestView cr reg s
  | smsw m =>
    have hpart : s.swPart m (u64 s.cr0) = s.swPart m (s.crGuest 0) := not_not.mp hl
    show (smsw m s).2 = _
    rw [smsw_eq_storeMsw, storeMsw_congr hpart]
  | _ => exact trivial

/-! ## Runs of the guest -/

/-- What the run loop does around the instructions of a guest. -/
inductive Around : Cpu → Cpu → Prop
  | hook (s : Cpu) : Around s s.beforeStep
  | events (s : Cpu) : Around s (serveEvents s).2
  | fetch {decode : Exec Inst} (h : Keeps ControlKept decode) (s : Cpu) :
    Around s (decode s.beginInst).2
  | count (s : Cpu) : Around s s.countInst
  | idle (s : Cpu) : Around s (idle s).2

theorem keptOrLeft_around {s t : Cpu} (h : Around s t) : KeptOrLeft s t := by
  cases h with
  | hook => exact keptOrLeft_beforeStep s
  | events => exact keptOrLeft_serveEvents s
  | fetch h => exact fun _ =>
      IsTrans.trans (r := ControlKept) s s.beginInst _ (Frame.of_core rfl) (h s.beginInst)
  | count => exact Frame.of_core rfl
  | idle =>
    refine ((frame_modify fun t => by rfl).bind fun _ =>
      keptOrLeft_deliverHardwareInterrupt.bind fun b => ?_ : Keeps KeptOrLeft X86Emu.idle) s
    exact .ite (frame_modify fun t => by rfl) (.pure ())

/-- A run of a guest that never exits, with the instructions it executed and the states it executed
them in. -/
inductive GuestRun (s : Cpu) : List (Cpu × Inst) → Cpu → Prop
  | start (hg : s.vmx.inGuest = true) : GuestRun s [] s
  | around {l : List (Cpu × Inst)} {t u : Cpu} (hr : GuestRun s l t) (ha : Around t u)
      (hg : u.vmx.inGuest = true) : GuestRun s l u
  | inst {l : List (Cpu × Inst)} {t : Cpu} {inst : Inst} (hr : GuestRun s l t)
      (hp : t.pendingException = none) (hg : (guestExecute inst t).2.vmx.inGuest = true) :
    GuestRun s (l ++ [(t, inst)]) (guestExecute inst t).2

/-- A step of the run loop that never leaves the guest extends a run. -/
theorem GuestRun.step {decode : Exec Inst} (hd : Keeps ControlKept decode) {s t : Cpu}
    {l : List (Cpu × Inst)} (hr : GuestRun s l t) (hhook : t.beforeStep.vmx.inGuest = true)
    (hevents : (serveEvents t.beforeStep).2.vmx.inGuest = true)
    (hg : (X86Emu.step decode t).2.vmx.inGuest = true) :
    ∃ l', GuestRun s l' (X86Emu.step decode t).2 := by
  have hserved := (hr.around (.hook t) hhook).around (.events _) hevents
  have hstep : (X86Emu.step decode t).2 =
      (runInst decode (serveEvents t.beforeStep).2).2 := rfl
  rw [hstep] at hg ⊢
  generalize (serveEvents t.beforeStep).2 = u at hserved hevents hg ⊢
  have hinst : (runInst decode u).2 =
      (stepInst (decode u.beginInst).1 (decode u.beginInst).2).2.countInst := rfl
  have hin : (decode u.beginInst).2.vmx.inGuest = true := (hd u.beginInst).inGuest.trans hevents
  have hfetched := hserved.around (.fetch hd u) hin
  rw [hinst] at hg ⊢
  generalize decode u.beginInst = d at hin hfetched hg ⊢
  obtain ⟨i, v⟩ := d
  change v.vmx.inGuest = true at hin
  by_cases hp : v.pendingException = none
  · have hrun : stepInst i v = guestExecute i v := by
      simp [stepInst, hp, hin]
    rw [hrun] at hg ⊢
    exact ⟨_, (hfetched.inst hp hg).around (.count _) hg⟩
  · have hrun : stepInst i v = ((), v) := by
      have hsome : v.pendingException.isSome = true := Option.isSome_iff_ne_none.mpr hp
      simp [stepInst, hsome]
    rw [hrun] at hg ⊢
    exact ⟨_, hfetched.around (.count _) hg⟩

/-- In a run none of whose instructions leaks, the host's bits stay, and every read of a control
register sees the shadow in them. -/
theorem hostBits_run {s t : Cpu} {l : List (Cpu × Inst)} (h : GuestRun s l t)
    (hl : ∀ p ∈ l, ¬ p.2.Leaks p.1) : HostBits s t ∧ ∀ p ∈ l, p.2.ReadsGuestView p.1 := by
  induction h with
  | start => exact ⟨⟨fun _ => rfl, rfl⟩, fun p hp => absurd hp List.not_mem_nil⟩
  | around hr ha hg ih =>
    obtain ⟨hbits, hreads⟩ := ih hl
    exact ⟨hbits.trans ((keptOrLeft_around ha).hostBits hg), hreads⟩
  | inst hr hp hg ih =>
    obtain ⟨hbits, hreads⟩ := ih fun p hmem => hl p (List.mem_append_left _ hmem)
    have hlast := hl _ (List.mem_append_right _ (List.mem_singleton_self _))
    refine ⟨hbits.trans (hostBits_guestExecute hp hlast hg), fun p hmem => ?_⟩
    rcases List.mem_append.mp hmem with hmem | hmem
    · exact hreads p hmem
    · rw [List.mem_singleton.mp hmem]
      exact readsGuestView hlast

/-- A guest with TS set, which the host owns and shows as clear. RAX holds a machine status word with
TS clear, RBX a CR0 value. -/
def shadowedGuest : Cpu :=
  { Cpu.withRam (2 ^ 20) Memory.mib_le 0 with
    cr0 := 0x39
    pe := true
    regs := fun i => if i = 0 then 0x1 else if i = 3 then 0x31 else 0
    vmx := (({ inGuest := true } : Vmx).write Field.cr0GuestHostMask 0x8).write
      Field.cr0ReadShadow 0 }

/-- The operand EAX. -/
def eax : ModRm := { modField := 3, reg := 0, rm := 0, rmRaw := 0 }

/-- MOV to CR0 leaves TS to the host. -/
theorem shadowedGuest_movToCr :
    HostBits shadowedGuest (guestExecute (.movToCr 0 3) shadowedGuest).2 ∧
      (guestExecute (.movToCr 0 3) shadowedGuest).2.cr0 = 0x39 :=
  ⟨(hostBits_run (.inst (.start rfl) rfl (by decide +kernel)) (by
    intro p hp
    rw [List.nil_append, List.mem_singleton] at hp
    rw [hp]
    exact id)).1, by decide +kernel⟩

theorem not_hostBits {s t : Cpu} (h : u64 t.cr0 &&& s.crMask 0 ≠ u64 s.cr0 &&& s.crMask 0) :
    ¬ HostBits s t := fun hb => h (hb.bits 0)

/-- CLTS and LMSW clear the host's TS without an exit, and SMSW reads it. -/
theorem shadowedGuest_leaks :
    GuestRun shadowedGuest [(shadowedGuest, .clts)] (guestExecute .clts shadowedGuest).2 ∧
      ¬ HostBits shadowedGuest (guestExecute .clts shadowedGuest).2 ∧
      GuestRun shadowedGuest [(shadowedGuest, .lmsw eax)] (guestExecute (.lmsw eax) shadowedGuest).2 ∧
      ¬ HostBits shadowedGuest (guestExecute (.lmsw eax) shadowedGuest).2 ∧
      ¬ (Inst.smsw eax).ReadsGuestView shadowedGuest := by
  refine ⟨.inst (.start rfl) rfl (by decide +kernel), not_hostBits (by decide +kernel),
    .inst (.start rfl) rfl (by decide +kernel), not_hostBits (by decide +kernel), ?_⟩
  intro h
  have hreg := congrArg (Cpu.regs · 0) (h : (guestExecute (.smsw eax) shadowedGuest).2 = _)
  exact absurd hreg (by decide +kernel)

end X86Emu
