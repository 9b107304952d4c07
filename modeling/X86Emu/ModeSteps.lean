import X86Emu.ModeRun

/-!
# Privileged instructions keep the mode

CR0 and EFER are written only through the functions that form PE and LMA, and the flags only under
a mask that leaves the reserved bits.
-/
namespace X86Emu

open StateRules

/-! ## Steps outside the mode -/

/-- A change of state outside the mode. -/
def SameMode (f : Cpu → Cpu) : Prop := ∀ s, (f s).modeCore = s.modeCore

theorem steady_modify {f : Cpu → Cpu} (h : SameMode f) : Keeps ModeSteady (modify f : Exec Unit) :=
  .modify fun s => .of_core (h s)

/-- A change of the flags amid steps outside the mode. -/
theorem ModeSteady.around {s a b : Cpu} {f : U32 → U32} (ha : a.modeCore = s.modeCore)
    (hf : ∀ fl, FlagsFormed fl → FlagsFormed (f fl))
    (hb : b.modeCore = (a.modifyFlags f).modeCore) : ModeSteady s b :=
  ((ModeSteady.of_core ha).trans (.of_flags a hf)).trans (.of_core hb)

theorem steady_flags {f : U32 → U32} (h : ∀ fl, FlagsFormed fl → FlagsFormed (f fl)) :
    Keeps ModeSteady (modify (·.modifyFlags f) : Exec Unit) :=
  .modify fun s => .of_flags s h

theorem rel_ite {R : Cpu → Cpu → Prop} {c : Prop} [Decidable c] {s x y : Cpu} (hx : R s x)
    (hy : R s y) : R s (if c then x else y) := by
  split
  · exact hx
  · exact hy

theorem modeCore_ite {c : Prop} [Decidable c] {s x y : Cpu} (hx : x.modeCore = s.modeCore)
    (hy : y.modeCore = s.modeCore) : (if c then x else y).modeCore = s.modeCore := by
  split
  · exact hx
  · exact hy

theorem modeCore_loadSeg (s : Cpu) (r : SegReg) (sel : U16) :
    (s.loadSeg r sel).modeCore = s.modeCore := by
  have hset (t : Cpu) : (t.setSeg r sel).modeCore = t.modeCore := by cases r <;> rfl
  have hdesc : (if s.pe then s.setSegDesc r (s.descriptorFor sel) else s).modeCore = s.modeCore :=
    modeCore_ite rfl rfl
  unfold Cpu.loadSeg
  dsimp only
  exact modeCore_ite ((hset _).trans hdesc) ((hset _).trans hdesc)

theorem modeCore_loadTr (s : Cpu) (sel : U16) : (s.loadTr sel).modeCore = s.modeCore := by
  unfold Cpu.loadTr
  dsimp only
  split <;> rfl

theorem modeCore_loadLdt (s : Cpu) (sel : U16) : (s.loadLdt sel).modeCore = s.modeCore := by
  unfold Cpu.loadLdt
  split <;> rfl

/-! ## Privileged instructions -/

theorem steady_lgdt (m : ModRm) : Keeps ModeSteady (lgdt m) :=
  (frame_rmAddr _ _).bind fun _ => steady_modify fun _ => by rfl

theorem steady_lidt (m : ModRm) : Keeps ModeSteady (lidt m) :=
  (frame_rmAddr _ _).bind fun _ => steady_modify fun _ => by rfl

theorem steady_lldt (m : ModRm) : Keeps ModeSteady (lldt m) :=
  (frame_readRm16 _).bind fun _ => steady_modify fun s => modeCore_loadLdt s _

theorem steady_ltr (m : ModRm) : Keeps ModeSteady (ltr m) :=
  (frame_readRm16 _).bind fun _ => steady_modify fun s => modeCore_loadTr s _

theorem steady_movSegRm (seg : SegReg) (m : ModRm) : Keeps ModeSteady (movSegRm seg m) :=
  (frame_readRm16 _).bind fun _ => steady_modify fun s => modeCore_loadSeg s _ _

theorem steady_popSeg (seg : SegReg) : Keeps ModeSteady (popSeg seg) :=
  .get_bind fun _ => (frame_popW _).bind fun _ => steady_modify fun s => modeCore_loadSeg s _ _

theorem mode_lmsw (m : ModRm) : Keeps ModeKept (lmsw m) :=
  .get_bind fun _ => .ite (.modify fun s => (steady_raise s _).kept) <|
    steady_bind (frame_readRm16 _) fun _ => .read fun s => by
      split
      · exact .refl s
      · exact mode_writeCr0 s _

theorem steady_clts : Keeps ModeSteady clts := by
  have hpe : ~~~(0x8 : U32) &&& cr0Pe = cr0Pe := by decide
  have hpg : ~~~(0x8 : U32) &&& cr0Pg = cr0Pg := by decide
  have hstay (v f : U32) (hf : ~~~(0x8 : U32) &&& f = f) : test (v &&& ~~~0x8) f = test v f := by
    rw [test, BitVec.and_assoc, hf, test]
  refine .modify fun s => ⟨fun hs => ⟨?_, ?_, hs.flags, ?_⟩, rfl, ⟨hstay _ _ hpg, rfl⟩⟩
  · exact hs.pe.trans (hstay _ _ hpe).symm
  · show s.longMode = (test (s.cr0 &&& ~~~0x8) cr0Pg && test s.efer Efer.lme)
    rw [hstay _ _ hpg]
    exact hs.lma
  · exact fun hoff => hs.tlb ((hstay _ _ hpg).symm.trans hoff)

theorem mode_movToCr (cr reg : U8) : Keeps ModeKept (movToCr cr reg) := by
  have hflush {t s : Cpu} (h : t.modeCore = s.modeCore) : ModeKept s t.flushTlb :=
    ((ModeSteady.of_core h).trans (steady_flushTlb t)).kept
  have hcore {t s : Cpu} (h : t.modeCore = s.modeCore) : ModeKept s t := (ModeSteady.of_core h).kept
  exact .modify fun s => rel_ite (mode_writeCr0 s _) <| rel_ite (hcore rfl) <|
    rel_ite (hflush rfl) <| rel_ite (hflush rfl) (hcore rfl)

theorem steady_xsetbv : Keeps ModeSteady xsetbv :=
  .modify fun s => rel_ite (steady_raise s _) <| rel_ite (steady_raise s _) <|
    rel_ite (steady_raise s _) (.of_core rfl)

/-- A write of EFER leaves LMA to the processor. -/
theorem mode_writeEfer (s : Cpu) (v : U64) :
    ModeKept s { s with efer := v &&& ~~~Efer.lma ||| s.efer &&& Efer.lma }.updateLongMode := by
  obtain ⟨hcr0, hpe, hfl, hpre, hlme, hlma, htlb⟩ :=
    updateLongMode_mode { s with efer := v &&& ~~~Efer.lma ||| s.efer &&& Efer.lma }
  have hlong : test (v &&& ~~~Efer.lma ||| s.efer &&& Efer.lma) Efer.lma = s.longMode := by
    have hmask : ~~~Efer.lma &&& Efer.lma = 0#64 := by decide
    have hbits : (v &&& ~~~Efer.lma ||| s.efer &&& Efer.lma) &&& Efer.lma =
        s.efer &&& Efer.lma := by
      rw [BitVec.and_comm, BitVec.and_or_distrib_left, BitVec.and_comm Efer.lma,
        BitVec.and_assoc, hmask, BitVec.and_zero, BitVec.zero_or, BitVec.and_comm,
        BitVec.and_assoc, BitVec.and_self]
    rw [test, hbits]
    rfl
  refine ⟨fun hs => ⟨?_, ?_, ?_, fun hoff => ?_⟩, hpre, ?_⟩
  · rw [hpe, hcr0]
    exact hs.pe
  · rw [hlma, hcr0, hlme]
  · rw [hfl]
    exact hs.flags
  · rcases htlb with ⟨-, htlb⟩ | hempty
    · intro i
      rw [htlb]
      exact hs.tlb (hcr0 ▸ hoff) i
    · exact hempty
  · rcases htlb with ⟨hsame, -⟩ | hempty
    · exact .inl ⟨by rw [hcr0], hsame.trans hlong⟩
    · exact .inr hempty

theorem mode_wrmsr : Keeps ModeKept wrmsr := by
  refine .modify fun s => ?_
  have hcore {t : Cpu} (h : t.modeCore = s.modeCore) : ModeKept s t := (ModeSteady.of_core h).kept
  unfold Cpu.writeMsr
  refine rel_ite (mode_writeEfer s _) ?_
  repeat' refine rel_ite ?_ ?_
  all_goals exact hcore rfl

theorem steady_syscall : Keeps ModeSteady syscall := by
  refine .modify fun s => rel_ite (.of_core rfl) ?_
  have hbefore : ((s.setRegWRaw 1 .w64 s.rip).setRegWRaw 11 .w64 (u64 s.flags)).modeCore =
      s.modeCore := rfl
  exact .around hbefore (formed_syscall (u32 s.sfmask))
    ((modeCore_loadSeg _ .ss _).trans (modeCore_loadSeg _ .cs _))

theorem steady_sysret : Keeps ModeSteady sysret := by
  refine .modify fun s => ?_
  have hbefore : ({ s with rip := s.reg64 1 } : Cpu).modeCore = s.modeCore := rfl
  exact .around hbefore (formed_writeFlags · (u32 (s.reg64 11)))
    ((modeCore_loadSeg _ .ss _).trans (modeCore_loadSeg _ .cs _))

theorem steady_swapgs : Keeps ModeSteady swapgs :=
  steady_modify fun _ => modeCore_ite rfl rfl

theorem steady_popf : Keeps ModeSteady popf :=
  .get_bind fun _ => .ite
    ((frame_popW _).bind fun _ => steady_flags fun _ => formed_lowFlags _ _)
    ((frame_popW _).bind fun _ => steady_flags fun _ => formed_writeFlags _ _)

theorem steady_jmpFar (off seg : U16) : Keeps ModeSteady (jmpFar off seg) :=
  steady_modify fun s => modeCore_loadSeg s _ _

theorem steady_jmpFar32 (off : U32) (seg : U16) : Keeps ModeSteady (jmpFar32 off seg) :=
  steady_modify fun s => modeCore_loadSeg s _ _

theorem steady_callFar (off seg : U16) : Keeps ModeSteady (callFar off seg) :=
  .get_bind fun _ => (frame_push16 _).bind fun _ => (frame_push16 _).bind fun _ => steady_jmpFar _ _

theorem steady_callFar32 (off : U32) (seg : U16) : Keeps ModeSteady (callFar32 off seg) :=
  .get_bind fun _ =>
    (frame_push32 _).bind fun _ => (frame_push32 _).bind fun _ => steady_jmpFar32 _ _

theorem steady_retf : Keeps ModeSteady retf :=
  frame_pop16.bind fun _ => (steady_modify fun _ => by rfl).bind fun _ =>
    frame_pop16.bind fun _ => steady_modify fun s => modeCore_loadSeg s _ _

theorem modeCore_withRip (s : Cpu) (rip : U64) :
    ({ s with rip := rip }.invalidatePhysIp).modeCore = s.modeCore := rfl

theorem steady_retf32 : Keeps ModeSteady retf32 :=
  .read fun s => by
    split
    · refine ((frame_popW _).bind fun rip => (frame_popW _).bind fun cs => steady_modify fun t => ?_) s
      exact (modeCore_withRip (t.loadSeg .cs (u16 cs)) rip).trans (modeCore_loadSeg t .cs (u16 cs))
    · refine (frame_pop32.bind fun _ => frame_pop32.bind fun cs => steady_modify fun t => ?_) s
      exact modeCore_loadSeg t .cs (u16 cs)

theorem steady_iret : Keeps ModeSteady iret :=
  frame_pop16.bind fun _ => (steady_modify fun _ => by rfl).bind fun _ =>
    frame_pop16.bind fun _ => (steady_modify fun _ => by rfl).bind fun _ =>
      frame_pop16.bind fun _ => steady_flags fun _ => formed_lowFlags _ _

theorem steady_iretLong : Keeps ModeSteady iretLong := by
  refine (frame_popW _).bind fun rip => (frame_popW _).bind fun cs => (frame_popW _).bind fun f =>
    (frame_popW _).bind fun rsp => (frame_popW _).bind fun ss => .modify fun s => ?_
  have hstack (t : Cpu) : ({ t.setRsp rsp with rip := rip } : Cpu).modeCore = t.modeCore := rfl
  have hload := (hstack _).trans ((modeCore_loadSeg (s.loadSeg .cs (u16 cs)) .ss (u16 ss)).trans
    (modeCore_loadSeg s .cs (u16 cs)))
  exact .around hload (formed_writeFlags · (u32 f)) rfl

theorem steady_iretLegacy : Keeps ModeSteady iretLegacy := by
  refine frame_pop32.bind fun eip => frame_pop32.bind fun cs => frame_pop32.bind fun f =>
    .read fun s => ?_
  have last (t : Cpu) : ModeSteady t ((((t.setEip eip).loadSeg .cs (u16 cs)).modifyFlags
      fun fl => writeFlags fl f).invalidatePhysIp) :=
    .around ((modeCore_loadSeg (t.setEip eip) .cs (u16 cs)).trans rfl) (formed_writeFlags · f) rfl
  split
  · refine (frame_pop32.bind fun esp => frame_pop32.bind fun ss =>
      (steady_modify fun t => ?_).bind fun _ => .modify last) s
    exact Eq.trans rfl (modeCore_loadSeg t .ss (u16 ss))
  · exact last s

/-! ## Ports -/

/-- A board change: everything the mode is made of stays. -/
theorem steady_deviceIn (port : U16) : Keeps ModeSteady (deviceIn port) := by
  intro s
  have hite {α : Type} {c : Prop} [Decidable c] {x y : α × Cpu} (hx : ModeSteady s x.2)
      (hy : ModeSteady s y.2) : ModeSteady s (if c then x else y).2 := by
    split
    · exact hx
    · exact hy
  unfold deviceIn
  repeat' refine hite ?_ ?_
  all_goals exact .of_core rfl

theorem steady_portIn (port : U16) : Keeps ModeSteady (portIn port) :=
  .read fun s => by
    cases s.virtioPort port with
    | some off => exact .of_core rfl
    | none =>
      cases pciLane port with
      | some lane => exact .refl s
      | none => exact steady_deviceIn _ s

theorem steady_portIn16 (port : U16) : Keeps ModeSteady (portIn16 port) :=
  .read fun s => by
    cases s.virtioPort port with
    | some off => exact .of_core rfl
    | none =>
      cases pciLane port with
      | some lane => exact .refl s
      | none =>
        refine Keeps.ite (R := ModeSteady) (fun _ => .of_core rfl) (.ite (.pure _) ?_) s
        exact .ite (.pure _) ((steady_portIn _).bind fun _ => (steady_portIn _).bind fun _ => .pure _)

theorem steady_portIn32 (port : U16) : Keeps ModeSteady (portIn32 port) :=
  .read fun s => by
    cases s.virtioPort port with
    | some off => exact .of_core rfl
    | none =>
      refine Keeps.ite (R := ModeSteady) (.pure _) ?_ s
      cases pciLane port with
      | some lane => exact .pure _
      | none => exact (steady_portIn16 _).bind fun _ => (steady_portIn16 _).bind fun _ => .pure _

theorem steady_deviceOut (port : U16) (val : U8) : SameMode (deviceOut port val) := by
  intro s
  unfold deviceOut
  repeat' refine modeCore_ite ?_ ?_
  all_goals rfl

theorem steady_portOut (port : U16) (val : U8) : Keeps ModeSteady (portOut port val) :=
  .read fun s => by
    cases s.virtioPort port with
    | some off => exact .of_core rfl
    | none =>
      cases pciLane port with
      | some lane => exact .of_core rfl
      | none => exact .of_core (steady_deviceOut _ _ s)

theorem steady_portOut16 (port val : U16) : Keeps ModeSteady (portOut16 port val) :=
  .read fun s => by
    cases s.virtioPort port with
    | some off => exact .of_core rfl
    | none =>
      cases pciLane port with
      | some lane => exact .of_core rfl
      | none =>
        refine Keeps.ite (R := ModeSteady) (steady_modify fun _ => by rfl) ?_ s
        refine .ite (steady_modify fun _ => by rfl) (.ite (steady_modify fun _ => by rfl) ?_)
        exact .ite (.pure _) ((steady_portOut _ _).bind fun _ => steady_portOut _ _)

theorem steady_portOut32 (port : U16) (val : U32) : Keeps ModeSteady (portOut32 port val) :=
  .read fun s => by
    cases s.virtioPort port with
    | some off => exact .of_core rfl
    | none =>
      refine Keeps.ite (R := ModeSteady) (steady_modify fun _ => by rfl) ?_ s
      cases pciLane port with
      | some lane => exact steady_modify fun _ => by rfl
      | none => exact (steady_portOut16 _ _).bind fun _ => steady_portOut16 _ _

theorem steady_inAl (port : U16) : Keeps ModeSteady (inAl port) :=
  (steady_portIn _).bind fun _ => frame_inner fun s => s.shell_setReg8 _ _

theorem steady_inAx (port : U16) : Keeps ModeSteady (inAx port) :=
  .read fun s => by
    split
    · exact ((steady_portIn32 _).bind fun _ => frame_inner fun s => s.shell_setReg32 _ _) s
    · exact ((steady_portIn16 _).bind fun _ => frame_inner fun s => s.shell_setReg16 _ _) s

theorem steady_outAl (port : U16) : Keeps ModeSteady (outAl port) := .get_bind fun _ => steady_portOut _ _

theorem steady_outAx (port : U16) : Keeps ModeSteady (outAx port) :=
  .read fun s => by
    split
    · exact steady_portOut32 _ _ s
    · exact steady_portOut16 _ _ s

end X86Emu
