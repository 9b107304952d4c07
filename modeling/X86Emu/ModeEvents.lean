import X86Emu.ModeSteps

/-!
# Services, deliveries and exits keep the mode

What happens between instructions: BIOS services, the delivery of exceptions and interrupts, VM
exits, and the board's events.
-/
namespace X86Emu

open StateRules

/-! ## BIOS services -/

theorem steady_setFlags {f : U32} (h : f &&& Flags.reserved = 0#32) (on : Bool) (s : Cpu) :
    ModeSteady s (s.setFlags f on) :=
  .of_flags s (formed_setFlag h on)

theorem modeCore_foldl {β : Type} {f : Cpu → β → Cpu} (h : ∀ s b, (f s b).modeCore = s.modeCore) :
    ∀ (l : List β) (s : Cpu), (l.foldl f s).modeCore = s.modeCore
  | [], _ => rfl
  | b :: l, s => (modeCore_foldl h l (f s b)).trans (h s b)

theorem modeCore_modifyMem (s : Cpu) (f : Memory → Memory) :
    (s.modifyMem f).modeCore = s.modeCore := rfl

theorem modeCore_setReg8 (s : Cpu) (r : Reg8) (v : U8) : (s.setReg8 r v).modeCore = s.modeCore := by
  unfold Cpu.setReg8
  split <;> try split
  all_goals rfl

theorem modeCore_putChar (s : Cpu) (ch : U8) : (s.putChar ch).modeCore = s.modeCore := by
  unfold Cpu.putChar
  dsimp only
  split <;> try split
  all_goals rfl

theorem modeCore_video (s : Cpu) : s.video.modeCore = s.modeCore := by
  unfold Cpu.video
  refine modeCore_ite rfl <| modeCore_ite rfl <| modeCore_ite ?_ <|
    modeCore_ite (modeCore_putChar _ _) <| modeCore_ite ?_ rfl
  · exact (modeCore_setReg8 _ _ _).trans (modeCore_setReg8 _ _ _)
  · unfold Cpu.putString
    exact modeCore_foldl (fun s _ => modeCore_modifyMem s _) _ _

theorem steady_e820 (s : Cpu) : ModeSteady s s.e820 := by
  have hcf (t : Cpu) (on : Bool) : ModeSteady t (t.setFlags Flags.cf on) :=
    steady_setFlags (by decide) on t
  have hmem (t : Cpu) (f : Memory → Memory) : ModeSteady t (t.modifyMem f) := .of_core rfl
  have hebx (t : Cpu) (v : U32) : ModeSteady t (t.setEbx v) := .of_core rfl
  have heax (t : Cpu) (v : U32) : ModeSteady t (t.setEax v) := .of_core rfl
  have hecx (t : Cpu) (v : U32) : ModeSteady t (t.setEcx v) := .of_core rfl
  unfold Cpu.e820
  refine rel_ite (hcf s _) ?_
  dsimp only
  split
  · exact hcf s _
  · exact ((hmem s _).trans ((hmem _ _).trans (hmem _ _))).trans
      ((hebx _ _).trans ((heax _ _).trans ((hecx _ _).trans (hcf _ _))))

theorem steady_memoryMap (s : Cpu) : ModeSteady s s.memoryMap := by
  have h16 (t : Cpu) (r : Reg16) (v : U16) : (t.setReg16Raw r v).modeCore = t.modeCore := rfl
  have h801 : s.e801.modeCore = s.modeCore :=
    (h16 _ _ _).trans ((h16 _ _ _).trans ((h16 _ _ _).trans (h16 _ _ _)))
  unfold Cpu.memoryMap
  exact rel_ite (rel_ite (steady_e820 s) (.of_core h801)) <|
    rel_ite (.of_core rfl) (steady_setFlags (by decide) _ s)

theorem steady_keyboard (s : Cpu) : ModeSteady s s.keyboard := by
  unfold Cpu.keyboard
  refine rel_ite ?_ (rel_ite (steady_setFlags (by decide) _ s) (.refl s))
  split
  · exact .of_core ((modeCore_setReg8 _ _ _).trans (modeCore_setReg8 _ _ _))
  · exact .of_core ((modeCore_setReg8 _ _ _).trans (modeCore_setReg8 _ _ _))

theorem steady_disk (s : Cpu) : ModeSteady s s.disk := by
  have hread (buf lba : U64) (n : Nat) : ModeSteady s (Cpu.readSectors buf lba n s) :=
    rel_ite (.of_core rfl) (.of_core rfl)
  have hwrite (buf lba : U64) (n : Nat) : ModeSteady s (Cpu.writeSectors buf lba n s) :=
    rel_ite (.of_core rfl) (.of_core rfl)
  have hcarry (t : Cpu) (on : Bool) : ModeSteady t (t.setFlags Flags.cf on) :=
    steady_setFlags (by decide) on t
  unfold Cpu.disk
  exact rel_ite (hcarry s _) <|
    rel_ite (rel_ite ((hread _ _ _).trans (hcarry _ _)) (hcarry s _)) <|
      rel_ite (rel_ite ((hwrite _ _ _).trans (hcarry _ _)) (hcarry s _)) (.refl s)

theorem steady_biosHandle {s t : Cpu} {v : U8} (h : s.biosHandle v = some t) : ModeSteady s t := by
  unfold Cpu.biosHandle at h
  split at h
  · exact Option.some.inj h ▸ .of_core (modeCore_video s)
  split at h
  · exact Option.some.inj h ▸ steady_memoryMap s
  split at h
  · exact Option.some.inj h ▸ steady_keyboard s
  split at h
  · exact Option.some.inj h ▸ steady_disk s
  · cases h

/-! ## Delivery -/

theorem formed_handlerFlags (gate : Bool) (fl : U32) (hf : FlagsFormed fl) :
    FlagsFormed (Cpu.handlerFlags gate fl) := by
  have hif : FlagsFormed (if gate then setFlag Flags.if' false fl else fl) := by
    split
    · exact formed_setFlag (by decide) _ _ hf
    · exact hf
  exact formed_setFlag (by decide) _ _ (formed_setFlag (by decide) _ _ hif)

/-- The last step of a delivery through a gate. -/
theorem steady_enterHandler (gate : Bool) (target : U64) (t : Cpu) :
    ModeSteady t { t.modifyFlags (Cpu.handlerFlags gate) with rip := target }.invalidatePhysIp :=
  .around rfl (formed_handlerFlags gate) rfl

theorem modeCore_setRsp (s : Cpu) (v : U64) : (s.setRsp v).modeCore = s.modeCore := rfl

theorem modeCore_setEsp (s : Cpu) (v : U32) : (s.setEsp v).modeCore = s.modeCore := rfl

theorem modeCore_enterStack64 (s : Cpu) (ist : U8) (switching : Bool) :
    (s.enterStack64 ist switching).modeCore = s.modeCore :=
  modeCore_ite ((modeCore_setRsp _ _).trans (modeCore_loadSeg _ _ _)) <|
    modeCore_ite ((modeCore_setRsp _ _).trans (modeCore_loadSeg _ _ _)) rfl

theorem modeCore_enterStack32 (s : Cpu) (switching : Bool) :
    (s.enterStack32 switching).modeCore = s.modeCore :=
  modeCore_ite ((modeCore_setEsp _ _).trans (modeCore_loadSeg _ _ _)) rfl

theorem steady_longInt (v : U8) (code : Option U32) : Keeps ModeSteady (longInt v code) :=
  .read fun s => by
    refine ((steady_modify fun t => modeCore_enterStack64 t _ _).bind fun _ =>
      (steady_modify fun t => modeCore_loadSeg t _ _).bind fun _ =>
      (steady_modify fun t => modeCore_setRsp t _).bind fun _ =>
      (frame_pushAll _ _).bind fun _ => .modify fun t => ?_) s
    exact steady_enterHandler _ _ t

theorem steady_protectedIntErr (v : U8) (code : Option U32) :
    Keeps ModeSteady (protectedIntErr v code) :=
  .read fun s => by
    refine Keeps.ite (R := ModeSteady) (steady_longInt v code) ?_ s
    refine (steady_modify fun t => modeCore_enterStack32 t _).bind fun _ =>
      (steady_modify fun t => modeCore_loadSeg t _ _).bind fun _ =>
      (frame_pushAll _ _).bind fun _ => .modify fun t => ?_
    exact steady_enterHandler _ _ t

theorem steady_realInt (v : U8) : Keeps ModeSteady (realInt v) := by
  refine .get_bind fun _ => (frame_push16 _).bind fun _ => (frame_push16 _).bind fun _ =>
    (frame_push16 _).bind fun _ => .modify fun t => ?_
  have hflags (fl : U32) (hf : FlagsFormed fl) :
      FlagsFormed (setFlag Flags.tf false (setFlag Flags.if' false fl)) :=
    formed_setFlag (by decide) _ _ (formed_setFlag (by decide) _ _ hf)
  exact .around (a := t) rfl hflags rfl

theorem steady_int (v : U8) : Keeps ModeSteady (int v) :=
  .read fun s => by
    cases h : s.biosHandle v with
    | some t => exact steady_biosHandle h
    | none => exact Keeps.ite (R := ModeSteady) (steady_protectedIntErr v none) (steady_realInt v) s

/-! ## VM exits -/

/-- The mode was loaded whole, and the TLB is empty. -/
structure ModeLoaded (s t : Cpu) : Prop where
  coherent : t.ModeCoherent
  prefixes : t.prefixes = s.prefixes
  empty : t.TlbEmpty

theorem ModeLoaded.kept {s t : Cpu} (h : ModeLoaded s t) : ModeKept s t :=
  ⟨fun _ => h.coherent, h.prefixes, .inr h.empty⟩

/-- State loaded around a write of CR0, the TLB flushed after. -/
theorem modeLoaded_of {s t : Cpu} (u : Cpu) (v fl : U32) (hu : u.prefixes = s.prefixes)
    (hcore : t.modeCore =
      (((u.writeCr0 v).cr0, (u.writeCr0 v).pe, (u.writeCr0 v).efer, fl), (u.writeCr0 v).prefixes,
        (u.writeCr0 v).flushTlb.tlb)) (hfl : FlagsFormed fl) : ModeLoaded s t := by
  obtain ⟨hpe, hlma, -, hpre, -⟩ := writeCr0_mode u v
  have h1 := congrArg Prod.fst hcore
  have hcr0 : t.cr0 = (u.writeCr0 v).cr0 := congrArg (·.1) h1
  have hpe' : t.pe = (u.writeCr0 v).pe := congrArg (·.2.1) h1
  have hefer : t.efer = (u.writeCr0 v).efer := congrArg (·.2.2.1) h1
  have hflags : t.flags = fl := congrArg (·.2.2.2) h1
  have hprefixes : t.prefixes = (u.writeCr0 v).prefixes := congrArg (·.2.1) hcore
  have htlb : t.tlb = (u.writeCr0 v).flushTlb.tlb := congrArg (·.2.2) hcore
  have hempty : t.TlbEmpty := by
    intro i
    rw [htlb]
    rfl
  refine ⟨⟨?_, ?_, ?_, fun _ => hempty⟩, hprefixes.trans (hpre.trans hu), hempty⟩
  · rw [hpe', hcr0, hpe]
  · rw [Cpu.longMode, hefer, hcr0]
    exact hlma
  · rw [hflags]
    exact hfl

theorem modeLoaded_host (s : Cpu) : ModeLoaded s s.loadHostState := by
  let r := s.vmx.read
  have hseg (t : Cpu) (f : SegReg × U32) : ((t.setSeg f.1 (u16 (r f.2))).setSegDesc f.1
      (Cpu.hostDesc (test (u32 (r Field.exitCtls)) Vmx.exitHostAddrSpaceSize)
        f.1)).modeCore = t.modeCore := by
    cases f.1 <;> rfl
  have hlast (t : Cpu) (fs gs : U64) : ({ t with
      fsBase := fs
      gsBase := gs
      halted := false
      pendingException := none } : Cpu).invalidatePhysIp.modeCore = t.modeCore := rfl
  let u : Cpu := { s with
    efer := s.exitEfer &&& ~~~Efer.lma
    cr4 := u32 (r Field.hostCr4)
    cr3 := r Field.hostCr3 }
  refine modeLoaded_of u (u32 (r Field.hostCr0)) Flags.alwaysSet rfl ?_
    (by unfold FlagsFormed; decide)
  unfold Cpu.loadHostState
  dsimp only
  refine (hlast _ _ _).trans ((modeCore_foldl hseg _ _).trans ?_)
  show _ = (((u.writeCr0 _).cr0, _), _)
  generalize u.writeCr0 (u32 (r Field.hostCr0)) = w
  rfl

theorem steady_setVmx (s : Cpu) (x : Vmx) : ModeSteady s { s with vmx := x } := .of_core rfl

theorem steady_setRip (s : Cpu) (rip : U64) : ModeSteady s { s with rip := rip } := .of_core rfl

theorem steady_setPic (s : Cpu) (pic : Pic) : ModeSteady s { s with pic := pic } := .of_core rfl

theorem mode_vmExit (s : Cpu) (reason : U32) (qualification : U64) (info error : U32) :
    ModeKept s (s.vmExit reason qualification info error) := by
  unfold Cpu.vmExit
  exact (steady_setVmx s _).then (modeLoaded_host _).kept

/-! ### Intercepts -/

/-- An intercept keeps the mode, and stays in it when it lets the instruction execute. -/
def Handles (p : Exec Bool) : Prop :=
  ∀ s, ModeKept s (p s).2 ∧ ((p s).1 = false → ModeSteady s (p s).2)

namespace Handles

theorem pure (b : Bool) : Handles (Pure.pure b) := fun s => ⟨.refl s, fun _ => .refl s⟩

theorem ite {c : Prop} [Decidable c] {p q : Exec Bool} (hp : Handles p) (hq : Handles q) :
    Handles (if c then p else q) := by
  split
  · exact hp
  · exact hq

theorem get_bind {f : Cpu → Exec Bool} (h : ∀ s, Handles (f s)) : Handles (get >>= f) :=
  fun s => h s s

theorem bind {α : Type} {p : Exec α} {f : α → Exec Bool} (hp : Keeps ModeSteady p)
    (hf : ∀ a, Handles (f a)) : Handles (p >>= f) := by
  intro s
  obtain ⟨hkept, hpass⟩ := hf (p s).1 (p s).2
  exact ⟨(hp s).then hkept, fun h => (hp s).trans (hpass h)⟩

/-- One that always handles the instruction. -/
theorem handled {f : Cpu → Cpu} (h : ∀ s, ModeKept s (f s)) :
    Handles (do modify f; Pure.pure true) :=
  fun s => ⟨h s, fun hpass => Bool.noConfusion hpass⟩

theorem exit (reason : U32) (qualification : U64) : Handles (exitWith reason qualification) :=
  handled fun s => mode_vmExit s _ _ _ _

end Handles

theorem handles_crShadowedWrite (cr reg : U8) (v : U64) : Handles (crShadowedWrite cr reg v) := by
  refine .get_bind fun s => .ite (.exit _ _) (.handled fun t => ?_)
  refine rel_ite (mode_writeCr0 t _) ?_
  have hcr4 (v : U32) : ModeSteady t { t with cr4 := v } := .of_core rfl
  exact ((hcr4 _).trans (steady_flushTlb _)).kept

theorem handles_crWriteIntercept (cr reg : U8) (ctl : U32) :
    Handles (crWriteIntercept cr reg ctl) :=
  .get_bind fun _ => .ite (.ite (.ite (.pure _) (.exit _ _)) (.pure _)) <|
    .ite (.ite (.exit _ _) (.pure _)) (.ite (handles_crShadowedWrite _ _ _) (.pure _))

theorem handles_crReadIntercept (cr reg : U8) (ctl : U32) :
    Handles (crReadIntercept cr reg ctl) :=
  .ite (.exit _ _) <| .ite (.exit _ _) <| .ite
    (.handled fun s => (steady_of_shell (s.shell_setRegW _ _ _)).kept) (.pure _)

theorem handles_ioIntercept (port : U16) (size : U64) (input imm : Bool) (ctl : U32) :
    Handles (ioIntercept port size input imm ctl) :=
  .get_bind fun _ => .ite (.exit _ _) (.pure _)

theorem handles_cltsIntercept : Handles cltsIntercept :=
  .get_bind fun _ => .ite (.exit _ _) (.pure _)

theorem handles_lmswIntercept (m : ModRm) : Handles (lmswIntercept m) :=
  .get_bind fun _ => .get_bind fun _ => .bind (frame_readRm16 _) fun _ =>
    .get_bind fun _ => .ite (.pure _) (.ite (.exit _ _) (.pure _))

theorem handles_intercept (inst : Inst) : Handles (intercept inst) := by
  have hexit (c : Bool) (reason : U32) : Handles (if c then exitWith reason 0 else pure false) :=
    .ite (.exit _ _) (.pure _)
  refine .get_bind fun s => ?_
  cases inst with
  | cpuid | vmx | xsetbv | invd => exact .exit _ _
  | hlt | rdtsc | rdmsr | wrmsr | wbinvd | mwait | monitor | pause => exact hexit _ _
  | invlpg m => exact .ite (.exit _ _) (.pure _)
  | rdtscp =>
    exact .ite (.exit _ _) <| .ite (.handled fun s => (steady_raise s _).kept) (.pure _)
  | movToCr cr reg => exact handles_crWriteIntercept _ _ _
  | movCr cr reg => exact handles_crReadIntercept _ _ _
  | clts => exact handles_cltsIntercept
  | lmsw m => exact handles_lmswIntercept _
  | movDr | movToDr => exact .ite (.exit _ _) (.pure _)
  | inAlImm | inAxImm | outImmAl | outImmAx | inAlDx | inAxDx | outDxAl | outDxAx =>
    exact handles_ioIntercept _ _ _ _ _
  | _ => exact .pure _

/-! ## Dispatch -/

theorem mode_resetOnTripleFault (s : Cpu) : ModeKept s s.resetOnTripleFault := by
  have hreset : ({ s with tripleFault := true, halted := true } : Cpu).modeCore = s.modeCore := rfl
  exact rel_ite (mode_vmExit s _ _ _ _) (ModeSteady.of_core hreset).kept

theorem steady_clearPending (s : Cpu) : ModeSteady s s.clearPending := .of_core rfl

theorem steady_invalidatePhysIp (s : Cpu) : ModeSteady s s.invalidatePhysIp := .of_core rfl

theorem mode_resolveNested (v : U8) {p : Exec Unit} (hp : Keeps ModeKept p) :
    Keeps ModeKept (resolveNested v p) :=
  .read fun s => by
    cases s.pendingException with
    | none => exact (steady_invalidatePhysIp s).kept
    | some f =>
      refine Keeps.ite (R := ModeKept) (.modify fun t => ?_)
        (.ite (steady_bind (.modify steady_clearPending) fun _ => hp)
          (.modify fun t => (steady_invalidatePhysIp t).kept)) s
      exact (steady_clearPending t).then (mode_resetOnTripleFault _)

theorem mode_deliverEvent {p : Exec Unit} (hp : Keeps ModeKept p) (v : U8) (code : Option U32) :
    Keeps ModeKept (deliverEvent p v code) := by
  have hback (s : Cpu) : ({ s with rip := s.ripStart, ip := s.ipStart } : Cpu).modeCore =
    s.modeCore := rfl
  refine steady_bind (steady_modify fun s => ?_) fun _ => .get_bind fun _ => ?_
  · exact modeCore_ite rfl (hback s)
  refine .ite (.modify mode_resetOnTripleFault) (.ite ?_ ?_)
  · exact steady_bind (steady_protectedIntErr v code) fun _ => mode_resolveNested v hp
  · exact steady_kept ((steady_realInt v).bind fun _ => .modify steady_invalidatePhysIp)

theorem mode_interceptException {deliver : U8 → Option U32 → Exec Unit}
    (hd : ∀ v code, Keeps ModeKept (deliver v code)) (v : U8) (code : Option U32) :
    Keeps ModeKept (interceptException deliver v code) :=
  .read fun s => by
    split
    · have hat : ModeSteady s (if Cpu.isTrap v then s else { s with rip := s.ripStart }) :=
        rel_ite (.refl s) (steady_setRip s _)
      generalize (if Cpu.isTrap v then s else { s with rip := s.ripStart }) = t at hat
      refine hat.then ?_
      by_cases he : (t.exceptionExit v code).1 = true
      · rw [if_pos he]
        show ModeKept t (t.exceptionExit v code).2
        unfold Cpu.exceptionExit
        split
        · exact .refl t
        · exact (steady_setRip t _).then (mode_vmExit _ _ _ _ _)
      · rw [if_neg he]
        exact hd v code t
    · exact hd v code s

theorem mode_dispatchDoubleFault : Keeps ModeKept dispatchDoubleFault :=
  mode_interceptException (fun _ _ => mode_deliverEvent (.pure _) _ _) _ _

theorem mode_dispatchExceptionRaw (v : U8) (code : Option U32) :
    Keeps ModeKept (dispatchExceptionRaw v code) :=
  mode_deliverEvent mode_dispatchDoubleFault _ _

theorem mode_dispatchException (v : U8) (code : Option U32) :
    Keeps ModeKept (dispatchException v code) :=
  mode_interceptException mode_dispatchExceptionRaw _ _

/-! ## Between instructions -/

theorem modeCore_typeNextKey (s : Cpu) : s.typeNextKey.modeCore = s.modeCore := by
  unfold Cpu.typeNextKey
  split
  · exact modeCore_ite rfl rfl
  · rfl

theorem modeCore_collectIrqs (s : Cpu) : s.collectIrqs.modeCore = s.modeCore := by
  have htimer (t : Cpu) : (if t.pit.irq0 = true then
      { t with pit := { t.pit with irq0 := false } }.raiseIrq 0 else t).modeCore = t.modeCore :=
    modeCore_ite rfl rfl
  have hkbd (t : Cpu) : (if t.kbd.irq1 = true then
      { t with kbd := { t.kbd with irq1 := false } }.raiseIrq 1 else t).modeCore = t.modeCore :=
    modeCore_ite rfl rfl
  have hvirtio (t : Cpu) : (if t.virtio.irq = true then t.raiseIrq virtioIrq else t).modeCore =
      t.modeCore := modeCore_ite rfl rfl
  have hide (t : Cpu) : (if t.ide.busy = true then
      { t with ide := { t.ide with busy := false } }.raiseIrq 14 else t).modeCore = t.modeCore :=
    modeCore_ite rfl rfl
  have hticks : s.tickTimers.modeCore = s.modeCore := rfl
  exact (hide _).trans ((hvirtio _).trans ((hkbd _).trans ((modeCore_typeNextKey _).trans
    ((htimer _).trans hticks))))

theorem mode_interruptExit (s : Cpu) : ModeKept s s.interruptExit.2 := by
  unfold Cpu.interruptExit
  split
  · exact .refl s
  split
  · exact (steady_setPic s _).then (mode_vmExit _ _ _ _ _)
  · exact mode_vmExit s _ _ _ _

theorem mode_deliverHardwareInterrupt : Keeps ModeKept deliverHardwareInterrupt := by
  refine .get_bind fun s => .ite (.pure false) ?_
  refine steady_bind (steady_modify modeCore_collectIrqs) fun _ => .read fun t => ?_
  split
  · exact .refl t
  split
  · exact mode_interruptExit t
  generalize t.pic.acknowledge = a
  obtain ⟨_ | vector, pic⟩ := a
  · exact .refl t
  · have hlast : Keeps ModeSteady (do modify (·.invalidatePhysIp); pure true : Exec Bool) :=
      (Keeps.modify steady_invalidatePhysIp).bind fun _ => .pure true
    refine ModeSteady.kept (Keeps.set_bind (steady_setPic t pic) (.ite ?_ ?_))
    · exact (steady_protectedIntErr vector none).bind fun _ => hlast
    · exact (steady_realInt vector).bind fun _ => hlast

theorem mode_serveEvents : Keeps ModeKept serveEvents := by
  refine .get_bind fun s => ?_
  split
  · exact steady_bind (.modify steady_clearPending) fun _ => mode_dispatchException _ _
  · exact fun t => mode_deliverHardwareInterrupt t

theorem mode_beforeStep (s : Cpu) : ModeKept s s.beforeStep := by
  unfold Cpu.beforeStep Cpu.preStep
  split
  · split
    · exact mode_vmExit s _ _ _ _
    · exact .refl s
  · exact .refl s

end X86Emu
