import X86Emu.UserFrame

/-!
# What ordinary instructions leave alone

Most instructions change neither CR0, CR4 nor the current VMCS, and touch the fault record only by
raising. A relation that tolerates every other change, and raising, is a frame: every plain
instruction keeps it. One pass over the executor proves that for all frames at once.
-/
namespace X86Emu

open StateRules

/-- The fields a frame may speak of. -/
structure Core where
  cr0 : U32
  cr2 : U64
  cr4 : U32
  pending : Pending
  faultLog : List Fault
  vmcs : Nat → U64
  inGuest : Bool

def Cpu.core (s : Cpu) : Core :=
  ⟨s.cr0, s.cr2, s.cr4, s.pendingException, s.faultLog, s.vmx.vmcs, s.vmx.inGuest⟩

/-- A relation between states that only the core can break, and raising a fault does not. -/
class Frame (R : Cpu → Cpu → Prop) : Prop extends Std.Refl R, IsTrans Cpu R where
  of_core : ∀ {s t : Cpu}, t.core = s.core → R s t
  raise : ∀ (s : Cpu) (f : Fault), R s (s.raise f)
  setPending : ∀ (s : Cpu) (v : U8) (c : Option U32), s.pendingException = none →
    R s (s.setPending v c)

/-- A change of state outside the core. -/
def Quiet (f : Cpu → Cpu) : Prop := ∀ s, (f s).core = s.core

/-! ## Core of the primitive steps -/

namespace Cpu

variable (s : Cpu)

@[simp] theorem core_modifyMem (f : Memory → Memory) : (s.modifyMem f).core = s.core := rfl
@[simp] theorem core_modifyFlags (f : U32 → U32) : (s.modifyFlags f).core = s.core := rfl
@[simp] theorem core_setFlags (f : U32) (on : Bool) : (s.setFlags f on).core = s.core := rfl
@[simp] theorem core_setReg (i : Fin 16) (v : U64) : (s.setReg i v).core = s.core := rfl
@[simp] theorem core_setRegWRaw (i : U8) (w : Width) (v : U64) :
    (s.setRegWRaw i w v).core = s.core := rfl
@[simp] theorem core_setSegDesc (r : SegReg) (d : Descriptor) :
    (s.setSegDesc r d).core = s.core := rfl
@[simp] theorem core_setTlb (i : Fin 256) (e : TlbEntry) : (s.setTlb i e).core = s.core := rfl
@[simp] theorem core_flushTlb : s.flushTlb.core = s.core := rfl
@[simp] theorem core_invalidatePhysIp : s.invalidatePhysIp.core = s.core := rfl
@[simp] theorem core_setEip (v : U32) : (s.setEip v).core = s.core := rfl
@[simp] theorem core_setEax (v : U32) : (s.setEax v).core = s.core := rfl
@[simp] theorem core_setEbx (v : U32) : (s.setEbx v).core = s.core := rfl
@[simp] theorem core_setEcx (v : U32) : (s.setEcx v).core = s.core := rfl
@[simp] theorem core_setIp (v : U16) : (s.setIp v).core = s.core := rfl
@[simp] theorem core_setEsp (v : U32) : (s.setEsp v).core = s.core := rfl
@[simp] theorem core_setRsp (v : U64) : (s.setRsp v).core = s.core := rfl
@[simp] theorem core_modifyFpu (f : Fpu → Fpu) : (s.modifyFpu f).core = s.core := rfl
@[simp] theorem core_setAccessedBits (map : Mapping) (write : Bool) :
    (s.setAccessedBits map write).core = s.core := rfl

@[simp] theorem core_setRegW (i : U8) (w : Width) (v : U64) : (s.setRegW i w v).core = s.core := by
  unfold setRegW
  split <;> rfl

@[simp] theorem core_setReg16 (r : Reg16) (v : U16) : (s.setReg16 r v).core = s.core :=
  s.core_setRegW _ _ _

@[simp] theorem core_setReg32 (r : Reg32) (v : U32) : (s.setReg32 r v).core = s.core :=
  s.core_setRegW _ _ _

@[simp] theorem core_setReg8 (r : Reg8) (v : U8) : (s.setReg8 r v).core = s.core := by
  unfold setReg8
  split <;> try split
  all_goals rfl

@[simp] theorem core_setSeg (r : SegReg) (v : U16) : (s.setSeg r v).core = s.core := by
  cases r <;> rfl

@[simp] theorem core_loadSeg (r : SegReg) (sel : U16) : (s.loadSeg r sel).core = s.core := by
  unfold loadSeg
  split <;> split <;> simp

@[simp] theorem core_loadTr (sel : U16) : (s.loadTr sel).core = s.core := by
  unfold loadTr
  dsimp only
  split <;> rfl

@[simp] theorem core_loadLdt (sel : U16) : (s.loadLdt sel).core = s.core := by
  unfold loadLdt
  split <;> rfl

@[simp] theorem core_invlpg (linear : U64) : (s.invlpg linear).core = s.core := by
  unfold invlpg
  dsimp only
  split <;> rfl

@[simp] theorem core_updateLongMode : s.updateLongMode.core = s.core := by
  unfold updateLongMode
  dsimp only
  split <;> rfl

@[simp] theorem core_markAccessed (linear : U64) (write : Bool) :
    (s.markAccessed linear write).core = s.core := by
  unfold markAccessed
  split <;> rfl

@[simp] theorem core_enterKernel : s.enterKernel.core = s.core := by
  simp only [enterKernel, core_invalidatePhysIp]
  exact (core_loadSeg _ _ _).trans (core_loadSeg _ _ _)

@[simp] theorem core_leaveKernel : s.leaveKernel.core = s.core := by
  simp only [leaveKernel, core_invalidatePhysIp, core_loadSeg, core_modifyFlags]
  rfl

end Cpu

/-! ## Every frame is a user frame -/

section Rules

variable {R : Cpu → Cpu → Prop} [Frame R] {α : Type}

/-- A translation moves no more than the core and the fault record. -/
theorem frame_translation (s : Cpu) (linear : U64) (write fetch : Bool) :
    R s (applyPagingInner linear write fetch s).2 := by
  unfold applyPagingInner
  have hr (f : Fault) : R s (s.raise f) := Frame.raise s f
  split
  · exact hr _
  split
  · exact refl s
  dsimp only
  split
  · split
    · refine Frame.of_core ?_
      dsimp only
      split <;> simp
    · exact hr _
  · split
    · split
      · exact hr _
      · exact Frame.of_core rfl
    · exact hr _

theorem core_of_shell {s t : Cpu} (h : t.shell = s.shell) : t.core = s.core :=
  (congrArg Cpu.core h : t.shell.core = s.shell.core)

instance (priority := low) : UserFrame R where
  of_shell h := Frame.of_core (core_of_shell h)
  raise := Frame.raise
  setPending := Frame.setPending
  translate := frame_translation
  invlpg s linear := Frame.of_core (s.core_invlpg linear)
  store _ ht _ hu _ := IsTrans.trans _ _ _ ht (IsTrans.trans _ _ _ hu (Frame.of_core rfl))
  real _ _ _ := Frame.of_core rfl

theorem frame_modify {f : Cpu → Cpu} (h : Quiet f) : Keeps R (modify f : Exec Unit) :=
  Keeps.modify fun s => Frame.of_core (h s)

/-! ## Privileged instructions -/

theorem frame_popf : Keeps R popf :=
  .read fun s => by
    split <;> exact ((frame_popW _).bind fun _ => frame_modify fun s => s.core_modifyFlags _) s

theorem frame_jmpFar (off seg : U16) : Keeps R (jmpFar off seg) := frame_modify fun s => by simp

theorem frame_jmpFar32 (off : U32) (seg : U16) : Keeps R (jmpFar32 off seg) :=
  frame_modify fun s => by simp

theorem frame_callFar (off seg : U16) : Keeps R (callFar off seg) :=
  .read fun s => ((frame_push16 _).bind fun _ => (frame_push16 _).bind fun _ => frame_jmpFar _ _) s

theorem frame_callFar32 (off : U32) (seg : U16) : Keeps R (callFar32 off seg) :=
  .read fun s =>
    ((frame_push32 _).bind fun _ => (frame_push32 _).bind fun _ => frame_jmpFar32 _ _) s

theorem frame_retf : Keeps R retf :=
  frame_pop16.bind fun _ => (frame_modify fun s => s.core_setIp _).bind fun _ =>
    frame_pop16.bind fun _ => frame_modify fun s => s.core_loadSeg _ _

theorem frame_retf32 : Keeps R retf32 :=
  .read fun s => by
    split
    · refine ((frame_popW _).bind fun _ => (frame_popW _).bind fun _ => frame_modify fun s => ?_) s
      exact s.core_loadSeg .cs _
    · refine (frame_pop32.bind fun _ => frame_pop32.bind fun _ => frame_modify fun s => ?_) s
      simp

theorem frame_iret : Keeps R iret :=
  frame_pop16.bind fun _ => (frame_modify fun s => s.core_setIp _).bind fun _ =>
    frame_pop16.bind fun _ => (frame_modify fun _ => by rfl).bind fun _ =>
      frame_pop16.bind fun _ => frame_modify fun s => s.core_modifyFlags _

theorem frame_iretLong : Keeps R iretLong :=
  (frame_popW _).bind fun _ => (frame_popW _).bind fun _ => (frame_popW _).bind fun _ =>
    (frame_popW _).bind fun _ => (frame_popW _).bind fun _ => frame_modify fun _ =>
      (Cpu.core_loadSeg _ _ _).trans (Cpu.core_loadSeg _ _ _)

theorem frame_iretLegacy : Keeps R iretLegacy := by
  refine frame_pop32.bind fun _ => frame_pop32.bind fun _ => frame_pop32.bind fun _ =>
    .read fun s => ?_
  have last (eip : U32) (cs : U16) (f : U32) : Quiet fun s =>
      (((s.setEip eip).loadSeg .cs cs).modifyFlags fun fl => writeFlags fl f).invalidatePhysIp :=
    fun s => by simp
  split
  · refine (frame_pop32.bind fun _ => frame_pop32.bind fun _ => ?_) s
    exact (frame_modify fun s => by simp).bind fun _ => frame_modify (last _ _ _)
  · exact Frame.of_core (last _ _ _ s)

theorem frame_iret32 : Keeps R iret32 :=
  .read fun s => by
    split
    · exact frame_iretLong s
    · exact frame_iretLegacy s

theorem frame_virtioRead (off : U16) (size : Nat) : Keeps R (virtioRead off size) :=
  fun _ => Frame.of_core rfl

theorem frame_virtioWrite (off : U16) (val : U32) : Keeps R (virtioWrite off val) :=
  fun _ => Frame.of_core rfl

theorem core_ite {c : Prop} [Decidable c] {x y : Cpu} {k : Core} (hx : x.core = k)
    (hy : y.core = k) : (if c then x else y).core = k := by
  split
  · exact hx
  · exact hy

theorem core_ite_snd {β : Type} {c : Prop} [Decidable c] {x y : β × Cpu} {k : Core}
    (hx : x.2.core = k) (hy : y.2.core = k) : (if c then x else y).2.core = k := by
  split
  · exact hx
  · exact hy

theorem frame_deviceIn (port : U16) : Keeps R (deviceIn port) := by
  intro s
  refine Frame.of_core ?_
  unfold deviceIn
  repeat' refine core_ite_snd ?_ ?_
  all_goals rfl

theorem frame_portIn (port : U16) : Keeps R (portIn port) :=
  .read fun s => by
    cases s.virtioPort port with
    | some off => exact ((frame_virtioRead _ _).bind fun _ => .pure _) s
    | none =>
      cases pciLane port with
      | some lane => exact refl s
      | none => exact frame_deviceIn _ s

theorem frame_portIn16 (port : U16) : Keeps R (portIn16 port) :=
  .read fun s => by
    cases s.virtioPort port with
    | some off => exact ((frame_virtioRead _ _).bind fun _ => .pure _) s
    | none =>
      cases pciLane port with
      | some lane => exact refl s
      | none =>
        refine Keeps.ite (R := R) (fun _ => Frame.of_core rfl) (.ite (.pure _) (.ite (.pure _) ?_)) s
        exact (frame_portIn _).bind fun _ => (frame_portIn _).bind fun _ => .pure _

theorem frame_portIn32 (port : U16) : Keeps R (portIn32 port) :=
  .read fun s => by
    cases s.virtioPort port with
    | some off => exact frame_virtioRead _ _ s
    | none =>
      refine Keeps.ite (R := R) (.pure _) ?_ s
      cases pciLane port with
      | some lane => exact .pure _
      | none => exact (frame_portIn16 _).bind fun _ => (frame_portIn16 _).bind fun _ => .pure _

theorem core_deviceOut (port : U16) (val : U8) : Quiet (deviceOut port val) := by
  intro s
  unfold deviceOut
  repeat' refine core_ite ?_ ?_
  all_goals rfl

theorem frame_portOut (port : U16) (val : U8) : Keeps R (portOut port val) :=
  .read fun s => by
    cases s.virtioPort port with
    | some off => exact frame_virtioWrite _ _ s
    | none =>
      cases pciLane port with
      | some lane => exact Frame.of_core rfl
      | none => exact Frame.of_core (core_deviceOut _ _ s)

theorem frame_portOut16 (port val : U16) : Keeps R (portOut16 port val) :=
  .read fun s => by
    cases s.virtioPort port with
    | some off => exact frame_virtioWrite _ _ s
    | none =>
      cases pciLane port with
      | some lane => exact Frame.of_core rfl
      | none =>
        refine Keeps.ite (R := R) (frame_modify fun _ => by rfl) ?_ s
        refine .ite (frame_modify fun _ => by rfl) (.ite (frame_modify fun _ => by rfl) ?_)
        exact .ite (.pure _) ((frame_portOut _ _).bind fun _ => frame_portOut _ _)

theorem frame_portOut32 (port : U16) (val : U32) : Keeps R (portOut32 port val) :=
  .read fun s => by
    cases s.virtioPort port with
    | some off => exact frame_virtioWrite _ _ s
    | none =>
      refine Keeps.ite (R := R) (frame_modify fun _ => by rfl) ?_ s
      cases pciLane port with
      | some lane => exact frame_modify fun _ => by rfl
      | none => exact (frame_portOut16 _ _).bind fun _ => frame_portOut16 _ _

theorem frame_inAl (port : U16) : Keeps R (inAl port) :=
  (frame_portIn _).bind fun _ => frame_modify fun s => s.core_setReg8 _ _

theorem frame_inAx (port : U16) : Keeps R (inAx port) :=
  .read fun s => by
    split
    · exact ((frame_portIn32 _).bind fun _ => frame_modify fun s => s.core_setReg32 _ _) s
    · exact ((frame_portIn16 _).bind fun _ => frame_modify fun s => s.core_setReg16 _ _) s

theorem frame_outAl (port : U16) : Keeps R (outAl port) := .read fun s => frame_portOut _ _ s

theorem frame_outAx (port : U16) : Keeps R (outAx port) :=
  .read fun s => by
    split
    · exact frame_portOut32 _ _ s
    · exact frame_portOut16 _ _ s

theorem frame_lgdt (m : ModRm) : Keeps R (lgdt m) :=
  (frame_rmAddr _ _).bind fun _ => frame_modify fun _ => by rfl

theorem frame_lidt (m : ModRm) : Keeps R (lidt m) :=
  (frame_rmAddr _ _).bind fun _ => frame_modify fun _ => by rfl

theorem frame_lldt (m : ModRm) : Keeps R (lldt m) :=
  (frame_readRm16 _).bind fun _ => frame_modify fun s => s.core_loadLdt _

theorem frame_ltr (m : ModRm) : Keeps R (ltr m) :=
  (frame_readRm16 _).bind fun _ => frame_modify fun s => s.core_loadTr _

theorem frame_movToDr (dr : Fin 8) (reg : U8) : Keeps R (movToDr dr reg) :=
  frame_modify fun _ => by rfl

theorem frame_xsetbv : Keeps R xsetbv := by
  refine Keeps.modify fun s => ?_
  split
  · exact Frame.raise s _
  split
  · exact Frame.raise s _
  split
  · exact Frame.raise s _
  · exact Frame.of_core rfl

omit [Frame R] in
theorem frame_ite {c : Prop} [Decidable c] {s x y : Cpu} (hx : R s x) (hy : R s y) :
    R s (if c then x else y) := by
  split
  · exact hx
  · exact hy

theorem frame_wrmsr : Keeps R wrmsr := by
  refine Keeps.modify fun s => ?_
  unfold Cpu.writeMsr
  refine frame_ite (Frame.of_core (Cpu.core_updateLongMode _)) ?_
  iterate 10 refine frame_ite (Frame.of_core rfl) ?_
  exact frame_ite (frame_ite (Frame.raise s _) (Frame.of_core rfl)) (Frame.of_core rfl)

/-- SYSCALL and SWAPGS record #UD directly, over nothing when nothing is pending. -/
theorem syscall_frame {s : Cpu} (hs : s.pendingException = none) : R s (syscall s).2 := by
  simp only [syscall, modify_run]
  split
  · exact Frame.setPending s _ _ hs
  · exact Frame.of_core s.core_enterKernel

theorem frame_sysret : Keeps R sysret := frame_modify fun s => s.core_leaveKernel

theorem swapgs_frame {s : Cpu} (hs : s.pendingException = none) : R s (swapgs s).2 := by
  simp only [swapgs, modify_run]
  split
  · exact Frame.setPending s _ _ hs
  · exact Frame.of_core rfl

theorem core_putChar (s : Cpu) (ch : U8) : (s.putChar ch).core = s.core := by
  unfold Cpu.putChar
  dsimp only
  split <;> try split
  all_goals rfl

theorem core_foldl {β : Type} {f : Cpu → β → Cpu} (h : ∀ s b, (f s b).core = s.core) :
    ∀ (l : List β) (s : Cpu), (l.foldl f s).core = s.core
  | [], _ => rfl
  | b :: l, s => (core_foldl h l (f s b)).trans (h s b)

theorem core_putString (base : U64) (row col n : Nat) (s : Cpu) :
    (Cpu.putString base row col n s).core = s.core := by
  unfold Cpu.putString
  exact core_foldl (fun s _ => s.core_modifyMem _) _ _

theorem core_video (s : Cpu) : s.video.core = s.core := by
  unfold Cpu.video
  refine core_ite rfl (core_ite rfl (core_ite (by simp) (core_ite (core_putChar _ _) ?_)))
  exact core_ite (core_putString _ _ _ _ _) rfl

theorem core_memoryMap (s : Cpu) : s.memoryMap.core = s.core := by
  have he : s.e820.core = s.core := by
    unfold Cpu.e820
    refine core_ite rfl ?_
    dsimp only
    split <;> simp
  exact core_ite (core_ite he rfl) (core_ite rfl rfl)

theorem core_keyboard (s : Cpu) : s.keyboard.core = s.core := by
  refine core_ite ?_ (core_ite rfl rfl)
  cases s.bios.keyBuffer with
  | nil => simp
  | cons k rest => exact (Cpu.core_setReg8 _ _ _).trans (Cpu.core_setReg8 _ _ _)

theorem core_disk (s : Cpu) : s.disk.core = s.core := by
  have hr (buf lba : U64) (n : Nat) : (Cpu.readSectors buf lba n s).core = s.core :=
    core_ite rfl rfl
  have hw (buf lba : U64) (n : Nat) : (Cpu.writeSectors buf lba n s).core = s.core :=
    core_ite rfl rfl
  unfold Cpu.disk
  refine core_ite rfl (core_ite (core_ite ?_ rfl) (core_ite (core_ite ?_ rfl) rfl))
  · exact (Cpu.core_setFlags _ _ _).trans (hr _ _ _)
  · exact (Cpu.core_setFlags _ _ _).trans (hw _ _ _)

theorem core_biosHandle {s t : Cpu} {v : U8} (h : s.biosHandle v = some t) : t.core = s.core := by
  unfold Cpu.biosHandle at h
  split at h
  · exact Option.some.inj h ▸ core_video s
  split at h
  · exact Option.some.inj h ▸ core_memoryMap s
  split at h
  · exact Option.some.inj h ▸ core_keyboard s
  split at h
  · exact Option.some.inj h ▸ core_disk s
  · cases h

theorem frame_realInt (v : U8) : Keeps R (realInt v) :=
  .read fun s => ((frame_push16 _).bind fun _ => (frame_push16 _).bind fun _ =>
    (frame_push16 _).bind fun _ => frame_modify fun s => by rfl) s

theorem frame_longInt (v : U8) (code : Option U32) : Keeps R (longInt v code) :=
  .read fun s => by
    refine ((frame_modify fun t => ?_).bind fun _ =>
      (frame_modify fun t => t.core_loadSeg _ _).bind fun _ =>
      (frame_modify fun t => t.core_setRsp _).bind fun _ =>
      (frame_pushAll _ _).bind fun _ => frame_modify fun t => by rfl) s
    exact core_ite (Cpu.core_loadSeg _ _ _) (core_ite (Cpu.core_loadSeg _ _ _) rfl)

theorem frame_protectedIntErr (v : U8) (code : Option U32) : Keeps R (protectedIntErr v code) :=
  .read fun s => by
    refine Keeps.ite (frame_longInt _ _) ?_ s
    refine (frame_modify fun t => ?_).bind fun _ =>
      (frame_modify fun t => t.core_loadSeg _ _).bind fun _ =>
      (frame_pushAll _ _).bind fun _ => frame_modify fun t => by rfl
    exact core_ite (Cpu.core_loadSeg _ _ _) rfl

theorem frame_int (v : U8) : Keeps R (int v) :=
  .read fun s => by
    cases h : s.biosHandle v with
    | some t => exact Frame.of_core (core_biosHandle h)
    | none => exact Keeps.ite (frame_protectedIntErr _ _) (frame_realInt _) s

theorem frame_loadSegment (m : ModRm) (seg : SegReg) : Keeps R (movSegRm seg m) :=
  (frame_readRm16 _).bind fun _ => frame_modify fun s => s.core_loadSeg _ _

theorem frame_popSegment (seg : SegReg) : Keeps R (popSeg seg) :=
  .read fun s => ((frame_popW _).bind fun _ => frame_modify fun s => s.core_loadSeg _ _) s

theorem frame_bitWrite (m : ModRm) (bit : BitOffset) (op : BitOp) : Keeps R (bitOp m bit op) :=
  .read fun s => by
    split
    · refine Frame.of_core ?_
      simp only [bitOpReg, modify_run]
      split <;> simp
    · refine (Keeps.read fun s => ?_) s
      refine ((frame_rmAddr _ _).bind fun _ => frame_modify fun s => ?_) s
      dsimp only
      split <;> simp

theorem frame_fistp (m : ModRm) : Keeps R (fistp m) :=
  .read fun s => ((frame_rmAddr _ _).bind fun _ => (frame_modify fun s => s.core_modifyMem _).bind
    fun _ => frame_modify fun s => s.core_modifyFpu _) s

end Rules

/-- Instructions that change control registers or the VMX state, or divide: every other one keeps
every frame. -/
def Inst.plain : Inst → Bool
  | .movToCr .. | .lmsw .. | .clts | .vmx .. => false
  | .divRm8 .. | .divRm16 .. | .divRm32 .. | .idivRm8 .. | .idivRm16 .. | .idivRm32 .. => false
  | _ => true

/-- A plain instruction executed with nothing pending keeps every frame. -/
theorem execute_frame {R : Cpu → Cpu → Prop} [Frame R] {inst : Inst} (hp : inst.plain) {s : Cpu}
    (hs : s.pendingException = none) : R s (execute inst s).2 := by
  by_cases hc : inst.confined = true
  · exact execute_userFrame hc fun _ => hs
  cases inst with
  | popf => exact frame_popf s
  | jmpFar off seg => exact frame_jmpFar _ _ s
  | jmpFar32 off seg => exact frame_jmpFar32 _ _ s
  | callFar off seg => exact frame_callFar _ _ s
  | callFar32 off seg => exact frame_callFar32 _ _ s
  | retf => exact frame_retf s
  | retf32 => exact frame_retf32 s
  | int vector => exact frame_int _ s
  | iret => exact frame_iret s
  | iret32 => exact frame_iret32 s
  | lgdt m => exact frame_lgdt _ s
  | lidt m => exact frame_lidt _ s
  | lldt m => exact frame_lldt _ s
  | ltr m => exact frame_ltr _ s
  | movToDr dr reg => exact frame_movToDr _ _ s
  | xsetbv => exact frame_xsetbv s
  | syscall => exact syscall_frame hs
  | sysret => exact frame_sysret s
  | swapgs => exact swapgs_frame hs
  | wrmsr => exact frame_wrmsr s
  | inAlImm port => exact frame_inAl _ s
  | inAxImm port => exact frame_inAx _ s
  | inAlDx => exact Keeps.read (fun s => frame_inAl _ s) s
  | inAxDx => exact Keeps.read (fun s => frame_inAx _ s) s
  | outImmAl port => exact frame_outAl _ s
  | outImmAx port => exact frame_outAx _ s
  | outDxAl => exact Keeps.read (fun s => frame_outAl _ s) s
  | outDxAx => exact Keeps.read (fun s => frame_outAx _ s) s
  | fistp m => exact frame_fistp _ s
  | movSegRm seg m => exact frame_loadSegment m seg s
  | popSeg seg => exact frame_popSegment seg s
  | bts m bit | btr m bit | btc m bit => exact frame_bitWrite _ _ _ s
  | cli | sti => exact frame_modify (fun s => s.core_setFlags _ _) s
  | divRm8 | divRm16 | divRm32 | idivRm8 | idivRm16 | idivRm32 | movToCr | lmsw | clts | vmx =>
    cases hp
  | _ => exact absurd rfl hc

/-! ## The control registers -/

/-- CR0, CR4, the current VMCS and whether a guest runs are as they were. -/
structure ControlKept (s t : Cpu) : Prop where
  cr0 : t.cr0 = s.cr0
  cr4 : t.cr4 = s.cr4
  vmcs : t.vmx.vmcs = s.vmx.vmcs
  inGuest : t.vmx.inGuest = s.vmx.inGuest

theorem controlKept_of_core {s t : Cpu} (h : t.core = s.core) : ControlKept s t where
  cr0 := congrArg Core.cr0 h
  cr4 := congrArg Core.cr4 h
  vmcs := congrArg Core.vmcs h
  inGuest := congrArg Core.inGuest h

instance : Frame ControlKept where
  refl _ := ⟨rfl, rfl, rfl, rfl⟩
  trans _ _ _ h k := ⟨k.cr0.trans h.cr0, k.cr4.trans h.cr4, k.vmcs.trans h.vmcs,
    k.inGuest.trans h.inGuest⟩
  of_core := controlKept_of_core
  raise s f := by
    unfold Cpu.raise
    split <;> exact ⟨rfl, rfl, rfl, rfl⟩
  setPending _ _ _ _ := ⟨rfl, rfl, rfl, rfl⟩

end X86Emu
