import X86Emu.Decode
import X86Emu.UserMode

/-!
# What only events and VMX instructions reach

The VT-x state, the script of keys to type and the count of instructions. Every instruction but
WRMSR and those of VMX leaves them alone, and so does every delivery short of a VM exit.
-/
namespace X86Emu

open StateRules

/-- The VT-x state, the key script and the instruction count. -/
def Cpu.outer (s : Cpu) : Vmx × List U8 × U64 × U64 :=
  (s.vmx, s.keyScript, s.keyNext, s.instructionsExecuted)

def SameOuter (s t : Cpu) : Prop := t.outer = s.outer

namespace SameOuter

theorem trans {s t u : Cpu} (h : SameOuter s t) (k : SameOuter t u) : SameOuter s u := Eq.trans k h

theorem vmx {s t : Cpu} (h : SameOuter s t) : t.vmx = s.vmx := congrArg (·.1) h

theorem count {s t : Cpu} (h : SameOuter s t) : t.instructionsExecuted = s.instructionsExecuted :=
  congrArg (·.2.2.2) h

end SameOuter

theorem outer_ite {c : Prop} [Decidable c] {s x y : Cpu} (hx : SameOuter s x)
    (hy : SameOuter s y) : SameOuter s (if c then x else y) := by
  split
  · exact hx
  · exact hy

theorem outer_raise (s : Cpu) (f : Fault) : SameOuter s (s.raise f) := by
  unfold Cpu.raise
  split <;> rfl

theorem outer_markAccessed (s : Cpu) (linear : U64) (write : Bool) :
    SameOuter s (s.markAccessed linear write) := by
  unfold Cpu.markAccessed
  split <;> rfl

theorem outer_translate (s : Cpu) (linear : U64) (write fetch : Bool) :
    SameOuter s (applyPagingInner linear write fetch s).2 := by
  have hset (t : Cpu) (i : Fin 256) (e : TlbEntry) : SameOuter t (t.setTlb i e) := rfl
  unfold applyPagingInner
  split
  · exact outer_raise s _
  split
  · rfl
  dsimp only
  split
  · split
    · split
      · exact (outer_markAccessed s linear true).trans (hset _ _ _)
      · rfl
    · exact outer_raise s _
  · split
    · split
      · exact outer_raise s _
      · rfl
    · exact outer_raise s _

theorem outer_invlpg (s : Cpu) (linear : U64) : SameOuter s (s.invlpg linear) :=
  outer_ite rfl rfl

instance : UserFrame SameOuter where
  refl _ := rfl
  trans _ _ _ := .trans
  of_shell {s t} h := (congrArg Cpu.outer h : t.shell.outer = s.shell.outer)
  raise := outer_raise
  setPending _ _ _ _ := rfl
  translate := outer_translate
  invlpg := outer_invlpg
  store _ ht _ hu _ := ht.trans (hu.trans rfl)
  real _ _ _ := rfl

/-! ## Privileged instructions -/

theorem outer_modify {f : Cpu → Cpu} (h : ∀ s, SameOuter s (f s)) :
    Keeps SameOuter (modify f : Exec Unit) := .modify h

theorem outer_loadSeg (s : Cpu) (r : SegReg) (sel : U16) : SameOuter s (s.loadSeg r sel) := by
  have hset (t : Cpu) : SameOuter t (t.setSeg r sel) := by cases r <;> rfl
  have hdesc : SameOuter s (if s.pe then s.setSegDesc r (s.descriptorFor sel) else s) :=
    outer_ite rfl rfl
  unfold Cpu.loadSeg
  dsimp only
  exact outer_ite (hdesc.trans (hset _)) (hdesc.trans (hset _))

theorem outer_loadTr (s : Cpu) (sel : U16) : SameOuter s (s.loadTr sel) := by
  unfold Cpu.loadTr
  dsimp only
  split <;> rfl

theorem outer_loadLdt (s : Cpu) (sel : U16) : SameOuter s (s.loadLdt sel) := by
  unfold Cpu.loadLdt
  split <;> rfl

theorem outer_updateLongMode (s : Cpu) : SameOuter s s.updateLongMode := by
  unfold Cpu.updateLongMode
  exact outer_ite rfl rfl

theorem outer_writeCr0 (s : Cpu) (v : U32) : SameOuter s (s.writeCr0 v) := by
  have hset : SameOuter s { s with cr0 := v, pe := test v cr0Pe } := rfl
  have hflush (t : Cpu) : SameOuter t t.flushTlb := rfl
  unfold Cpu.writeCr0
  dsimp only
  split
  · exact (hset.trans (hflush _)).trans (outer_updateLongMode _)
  · exact hset.trans (outer_updateLongMode _)

theorem outer_lmsw (m : ModRm) : Keeps SameOuter (lmsw m) :=
  .get_bind fun _ => .ite (.modify fun s => outer_raise s _) <|
    (frame_readRm16 _).bind fun _ => .read fun s => by
      split
      · rfl
      · exact outer_writeCr0 s _

theorem outer_movToCr (cr reg : U8) : Keeps SameOuter (movToCr cr reg) :=
  .modify fun s => outer_ite (outer_writeCr0 s _) <|
    outer_ite rfl <| outer_ite rfl <| outer_ite rfl rfl

theorem outer_flags (f : U32 → U32) : Keeps SameOuter (modify (·.modifyFlags f) : Exec Unit) :=
  .modify fun _ => rfl

theorem outer_popf : Keeps SameOuter popf :=
  .get_bind fun _ => .ite ((frame_popW _).bind fun _ => outer_flags _)
    ((frame_popW _).bind fun _ => outer_flags _)

theorem outer_setIp (s : Cpu) (v : U16) : SameOuter s (s.setIp v) := rfl

theorem outer_withRip (s : Cpu) (rip : U64) :
    SameOuter s ({ s with rip := rip }.invalidatePhysIp) := rfl

theorem outer_jmpFar (off seg : U16) : Keeps SameOuter (jmpFar off seg) :=
  outer_modify fun s => outer_loadSeg s _ _

theorem outer_jmpFar32 (off : U32) (seg : U16) : Keeps SameOuter (jmpFar32 off seg) :=
  outer_modify fun s => outer_loadSeg s _ _

theorem outer_callFar (off seg : U16) : Keeps SameOuter (callFar off seg) :=
  .get_bind fun _ => (frame_push16 _).bind fun _ => (frame_push16 _).bind fun _ => outer_jmpFar _ _

theorem outer_callFar32 (off : U32) (seg : U16) : Keeps SameOuter (callFar32 off seg) :=
  .get_bind fun _ =>
    (frame_push32 _).bind fun _ => (frame_push32 _).bind fun _ => outer_jmpFar32 _ _

theorem outer_retf : Keeps SameOuter retf :=
  frame_pop16.bind fun _ => (outer_modify fun s => outer_setIp s _).bind fun _ =>
    frame_pop16.bind fun _ => outer_modify fun s => outer_loadSeg s _ _

theorem outer_retf32 : Keeps SameOuter retf32 :=
  .read fun s => by
    split
    · refine ((frame_popW _).bind fun rip => (frame_popW _).bind fun cs =>
        outer_modify fun t => ?_) s
      exact (outer_loadSeg t .cs (u16 cs)).trans (outer_withRip _ rip)
    · refine (frame_pop32.bind fun _ => frame_pop32.bind fun cs => outer_modify fun t => ?_) s
      exact outer_loadSeg t .cs (u16 cs)

theorem outer_iret : Keeps SameOuter iret :=
  frame_pop16.bind fun _ => (outer_modify fun s => outer_setIp s _).bind fun _ =>
    frame_pop16.bind fun _ => (outer_modify fun _ => by rfl).bind fun _ =>
      frame_pop16.bind fun _ => outer_flags _

theorem outer_iretLong : Keeps SameOuter iretLong := by
  refine (frame_popW _).bind fun rip => (frame_popW _).bind fun cs => (frame_popW _).bind fun f =>
    (frame_popW _).bind fun rsp => (frame_popW _).bind fun ss => .modify fun s => ?_
  have hstack (t : Cpu) : SameOuter t
      ({ t.setRsp rsp with rip := rip }.modifyFlags (writeFlags · (u32 f))).invalidatePhysIp := rfl
  exact (outer_loadSeg s .cs (u16 cs)).trans ((outer_loadSeg _ .ss (u16 ss)).trans (hstack _))

theorem outer_iretLegacy : Keeps SameOuter iretLegacy := by
  refine frame_pop32.bind fun eip => frame_pop32.bind fun cs => frame_pop32.bind fun f =>
    .read fun s => ?_
  have heip (t : Cpu) : SameOuter t (t.setEip eip) := rfl
  have hflags (t : Cpu) :
      SameOuter t (t.modifyFlags fun fl => writeFlags fl f).invalidatePhysIp := rfl
  have last (t : Cpu) : SameOuter t ((((t.setEip eip).loadSeg .cs (u16 cs)).modifyFlags
      fun fl => writeFlags fl f).invalidatePhysIp) :=
    (heip t).trans ((outer_loadSeg _ .cs (u16 cs)).trans (hflags _))
  split
  · refine (frame_pop32.bind fun esp => frame_pop32.bind fun ss =>
      (outer_modify fun t => ?_).bind fun _ => .modify last) s
    exact (outer_loadSeg t .ss (u16 ss)).trans rfl
  · exact last s

theorem outer_enterKernel (s : Cpu) : SameOuter s s.enterKernel := by
  have hregs : SameOuter s
      (((s.setRegWRaw 1 .w64 s.rip).setRegWRaw 11 .w64 (u64 s.flags)).modifyFlags fun fl =>
        fl &&& ~~~u32 s.sfmask ||| Flags.alwaysSet) := rfl
  have hlast (t : Cpu) : SameOuter t { t with rip := t.lstar }.invalidatePhysIp := rfl
  exact hregs.trans ((outer_loadSeg _ .cs _).trans ((outer_loadSeg _ .ss _).trans (hlast _)))

theorem outer_leaveKernel (s : Cpu) : SameOuter s s.leaveKernel := by
  have hrip : SameOuter s
      ({ s with rip := s.reg64 1 }.modifyFlags fun fl => writeFlags fl (u32 (s.reg64 11))) := rfl
  have hlast (t : Cpu) : SameOuter t t.invalidatePhysIp := rfl
  exact hrip.trans ((outer_loadSeg _ .cs _).trans ((outer_loadSeg _ .ss _).trans (hlast _)))

theorem outer_lgdt (m : ModRm) : Keeps SameOuter (lgdt m) :=
  (frame_rmAddr _ _).bind fun _ => outer_modify fun _ => by rfl

theorem outer_lidt (m : ModRm) : Keeps SameOuter (lidt m) :=
  (frame_rmAddr _ _).bind fun _ => outer_modify fun _ => by rfl

theorem outer_xsetbv : Keeps SameOuter xsetbv :=
  .modify fun s => outer_ite (outer_raise s _) <| outer_ite (outer_raise s _) <|
    outer_ite (outer_raise s _) rfl

/-! ## Ports -/

theorem outer_deviceIn (port : U16) : Keeps SameOuter (deviceIn port) := by
  intro s
  have hite {α : Type} {c : Prop} [Decidable c] {x y : α × Cpu} (hx : SameOuter s x.2)
      (hy : SameOuter s y.2) : SameOuter s (if c then x else y).2 := by
    split
    · exact hx
    · exact hy
  unfold deviceIn
  repeat' refine hite ?_ ?_
  all_goals rfl

theorem outer_portIn (port : U16) : Keeps SameOuter (portIn port) :=
  .read fun s => by
    cases s.virtioPort port with
    | some off => rfl
    | none =>
      cases pciLane port with
      | some lane => rfl
      | none => exact outer_deviceIn _ s

theorem outer_portIn16 (port : U16) : Keeps SameOuter (portIn16 port) :=
  .read fun s => by
    cases s.virtioPort port with
    | some off => rfl
    | none =>
      cases pciLane port with
      | some lane => rfl
      | none =>
        refine Keeps.ite (R := SameOuter) (fun _ => by rfl) (.ite (.pure _) ?_) s
        exact .ite (.pure _) ((outer_portIn _).bind fun _ => (outer_portIn _).bind fun _ => .pure _)

theorem outer_portIn32 (port : U16) : Keeps SameOuter (portIn32 port) :=
  .read fun s => by
    cases s.virtioPort port with
    | some off => rfl
    | none =>
      refine Keeps.ite (R := SameOuter) (.pure _) ?_ s
      cases pciLane port with
      | some lane => exact .pure _
      | none => exact (outer_portIn16 _).bind fun _ => (outer_portIn16 _).bind fun _ => .pure _

theorem outer_deviceOut (port : U16) (val : U8) (s : Cpu) : SameOuter s (deviceOut port val s) := by
  unfold deviceOut
  repeat' refine outer_ite ?_ ?_
  all_goals rfl

theorem outer_portOut (port : U16) (val : U8) : Keeps SameOuter (portOut port val) :=
  .read fun s => by
    cases s.virtioPort port with
    | some off => rfl
    | none =>
      cases pciLane port with
      | some lane => rfl
      | none => exact outer_deviceOut _ _ s

theorem outer_portOut16 (port val : U16) : Keeps SameOuter (portOut16 port val) :=
  .read fun s => by
    cases s.virtioPort port with
    | some off => rfl
    | none =>
      cases pciLane port with
      | some lane => rfl
      | none =>
        refine Keeps.ite (R := SameOuter) (outer_modify fun _ => by rfl) ?_ s
        refine .ite (outer_modify fun _ => by rfl) (.ite (outer_modify fun _ => by rfl) ?_)
        exact .ite (.pure _) ((outer_portOut _ _).bind fun _ => outer_portOut _ _)

theorem outer_portOut32 (port : U16) (val : U32) : Keeps SameOuter (portOut32 port val) :=
  .read fun s => by
    cases s.virtioPort port with
    | some off => rfl
    | none =>
      refine Keeps.ite (R := SameOuter) (outer_modify fun _ => by rfl) ?_ s
      cases pciLane port with
      | some lane => exact outer_modify fun _ => by rfl
      | none => exact (outer_portOut16 _ _).bind fun _ => outer_portOut16 _ _

theorem outer_inAl (port : U16) : Keeps SameOuter (inAl port) :=
  (outer_portIn _).bind fun _ => frame_inner fun s => s.shell_setReg8 _ _

theorem outer_inAx (port : U16) : Keeps SameOuter (inAx port) :=
  .read fun s => by
    split
    · exact ((outer_portIn32 _).bind fun _ => frame_inner fun s => s.shell_setReg32 _ _) s
    · exact ((outer_portIn16 _).bind fun _ => frame_inner fun s => s.shell_setReg16 _ _) s

theorem outer_outAx (port : U16) : Keeps SameOuter (outAx port) :=
  .read fun s => by
    split
    · exact outer_portOut32 _ _ s
    · exact outer_portOut16 _ _ s

/-! ## BIOS services -/

theorem outer_foldl {β : Type} {f : Cpu → β → Cpu} (h : ∀ s b, SameOuter s (f s b)) :
    ∀ (l : List β) (s : Cpu), SameOuter s (l.foldl f s)
  | [], _ => rfl
  | b :: l, s => (h s b).trans (outer_foldl h l (f s b))

theorem outer_setReg8 (s : Cpu) (r : Reg8) (v : U8) : SameOuter s (s.setReg8 r v) :=
  UserFrame.of_shell (s.shell_setReg8 r v)

theorem outer_putChar (s : Cpu) (ch : U8) : SameOuter s (s.putChar ch) := by
  unfold Cpu.putChar
  dsimp only
  split <;> try split
  all_goals rfl

theorem outer_video (s : Cpu) : SameOuter s s.video := by
  have hput (t : Cpu) (f : Memory → Memory) : SameOuter t (t.modifyMem f) := rfl
  unfold Cpu.video
  refine outer_ite rfl <| outer_ite rfl <| outer_ite ?_ <|
    outer_ite (outer_putChar _ _) <| outer_ite ?_ rfl
  · exact (outer_setReg8 _ _ _).trans (outer_setReg8 _ _ _)
  · exact outer_foldl (fun s _ => hput s _) _ _

theorem outer_memoryMap (s : Cpu) : SameOuter s s.memoryMap := by
  have hmem (t : Cpu) (f : Memory → Memory) : SameOuter t (t.modifyMem f) := rfl
  have hregs (t : Cpu) (b a c : U32) (on : Bool) :
      SameOuter t ((((t.setEbx b).setEax a).setEcx c).setFlags Flags.cf on) := rfl
  have h820 : SameOuter s s.e820 := by
    unfold Cpu.e820
    refine outer_ite rfl ?_
    dsimp only
    split
    · rfl
    · exact ((hmem s _).trans ((hmem _ _).trans (hmem _ _))).trans (hregs _ _ _ _ _)
  exact outer_ite (outer_ite h820 rfl) (outer_ite rfl rfl)

theorem outer_keyboard (s : Cpu) : SameOuter s s.keyboard := by
  have hbios (b : Bios) : SameOuter s { s with bios := b } := rfl
  unfold Cpu.keyboard
  refine outer_ite ?_ (outer_ite rfl rfl)
  split
  · exact (hbios _).trans ((outer_setReg8 _ _ _).trans (outer_setReg8 _ _ _))
  · exact (outer_setReg8 _ _ _).trans (outer_setReg8 _ _ _)

theorem outer_disk (s : Cpu) : SameOuter s s.disk := by
  have hread (buf lba : U64) (n : Nat) : SameOuter s (Cpu.readSectors buf lba n s) :=
    outer_ite rfl rfl
  have hwrite (buf lba : U64) (n : Nat) : SameOuter s (Cpu.writeSectors buf lba n s) :=
    outer_ite rfl rfl
  have hcarry (t : Cpu) (on : Bool) : SameOuter t (t.setFlags Flags.cf on) := rfl
  unfold Cpu.disk
  exact outer_ite rfl <|
    outer_ite (outer_ite ((hread _ _ _).trans (hcarry _ _)) rfl) <|
      outer_ite (outer_ite ((hwrite _ _ _).trans (hcarry _ _)) rfl) rfl

theorem outer_biosHandle {s t : Cpu} {v : U8} (h : s.biosHandle v = some t) : SameOuter s t := by
  unfold Cpu.biosHandle at h
  split at h
  · exact Option.some.inj h ▸ outer_video s
  split at h
  · exact Option.some.inj h ▸ outer_memoryMap s
  split at h
  · exact Option.some.inj h ▸ outer_keyboard s
  split at h
  · exact Option.some.inj h ▸ outer_disk s
  · cases h

/-! ## Deliveries -/

theorem outer_enterStack64 (s : Cpu) (ist : U8) (switching : Bool) :
    SameOuter s (s.enterStack64 ist switching) := by
  have hset (t : Cpu) (v : U64) : SameOuter t (t.setRsp v) := rfl
  exact outer_ite ((outer_loadSeg s _ _).trans (hset _ _)) <|
    outer_ite ((outer_loadSeg s _ _).trans (hset _ _)) rfl

theorem outer_enterStack32 (s : Cpu) (switching : Bool) :
    SameOuter s (s.enterStack32 switching) := by
  have hset (t : Cpu) (v : U32) : SameOuter t (t.setEsp v) := rfl
  exact outer_ite ((outer_loadSeg s _ _).trans (hset _ _)) rfl

theorem outer_longInt (v : U8) (code : Option U32) : Keeps SameOuter (longInt v code) :=
  .read fun s => ((outer_modify fun t => outer_enterStack64 t _ _).bind fun _ =>
    (outer_modify fun t => outer_loadSeg t _ _).bind fun _ =>
    (outer_modify fun t => by rfl).bind fun _ =>
    (frame_pushAll _ _).bind fun _ => .modify fun _ => by rfl) s

theorem outer_protectedIntErr (v : U8) (code : Option U32) :
    Keeps SameOuter (protectedIntErr v code) :=
  .read fun s => by
    refine Keeps.ite (R := SameOuter) (outer_longInt v code) ?_ s
    exact (outer_modify fun t => outer_enterStack32 t _).bind fun _ =>
      (outer_modify fun t => outer_loadSeg t _ _).bind fun _ =>
      (frame_pushAll _ _).bind fun _ => .modify fun _ => by rfl

theorem outer_realInt (v : U8) : Keeps SameOuter (realInt v) :=
  .get_bind fun _ => (frame_push16 _).bind fun _ => (frame_push16 _).bind fun _ =>
    (frame_push16 _).bind fun _ => .modify fun _ => by rfl

theorem outer_int (v : U8) : Keeps SameOuter (int v) :=
  .read fun s => by
    cases h : s.biosHandle v with
    | some t => exact outer_biosHandle h
    | none => exact Keeps.ite (R := SameOuter) (outer_protectedIntErr v none) (outer_realInt v) s

/-! ## The executor -/

theorem outer_divideStep {s t : Cpu} (h : DivideStep s t) : SameOuter s t := by
  cases h with
  | error | abort => rfl
  | store h => exact UserFrame.of_shell h

theorem outer_bitOp (m : ModRm) (bit : BitOffset) (op : BitOp) :
    Keeps SameOuter (bitOp m bit op) := by
  have hcf (s : Cpu) (on : Bool) : SameOuter s (s.modifyFlags (setFlag Flags.cf on)) := rfl
  have hput (t : Cpu) (f : Memory → Memory) : SameOuter t (t.modifyMem f) := rfl
  refine .get_bind fun s => .ite (.modify fun t => ?_) (.get_bind fun t => ?_)
  · exact outer_ite ((hcf t _).trans (UserFrame.of_shell (Cpu.shell_setRegW _ _ _ _))) (hcf t _)
  · refine (frame_rmAddr m _).bind fun base => .modify fun u => ?_
    exact outer_ite ((hcf u _).trans (hput _ _)) (hcf u _)

/-- Instructions that may change the VT-x state. -/
def Inst.reachesVmx : Inst → Bool
  | .wrmsr | .vmx .. => true
  | _ => false

/-- Every other instruction leaves the VT-x state, the key script and the count alone. -/
theorem outer_execute {inst : Inst} (hv : inst.reachesVmx = false) :
    Keeps SameOuter (execute inst) := by
  intro s
  by_cases ht : inst.traps = true
  · cases inst with
    | int3 | unknown => rfl
    | into => exact outer_ite rfl rfl
    | _ => cases ht
  by_cases hc : inst.confined = true
  · exact execute_userFrame hc fun h => absurd h ht
  by_cases hd : inst.divides = true
  · obtain ⟨t, hread, hstep⟩ := divides_execute hd s
    exact (hread SameOuter).trans (outer_divideStep hstep)
  cases inst with
  | wrmsr | vmx => cases hv
  | movToCr cr reg => exact outer_movToCr _ _ s
  | lmsw m => exact outer_lmsw _ s
  | movToDr dr reg => exact outer_modify (fun _ => by rfl) s
  | clts => rfl
  | xsetbv => exact outer_xsetbv s
  | swapgs => exact outer_ite rfl rfl
  | lgdt m => exact outer_lgdt _ s
  | lidt m => exact outer_lidt _ s
  | lldt m => exact ((frame_readRm16 _).bind fun _ => outer_modify fun s => outer_loadLdt s _) s
  | ltr m => exact ((frame_readRm16 _).bind fun _ => outer_modify fun s => outer_loadTr s _) s
  | cli | sti => rfl
  | popf => exact outer_popf s
  | int vector => exact outer_int _ s
  | iret => exact outer_iret s
  | iret32 =>
    exact Keeps.read (fun s => by
      split
      · exact outer_iretLong s
      · exact outer_iretLegacy s) s
  | syscall => exact outer_ite rfl (outer_enterKernel s)
  | sysret => exact outer_leaveKernel s
  | jmpFar off seg => exact outer_jmpFar _ _ s
  | jmpFar32 off seg => exact outer_jmpFar32 _ _ s
  | callFar off seg => exact outer_callFar _ _ s
  | callFar32 off seg => exact outer_callFar32 _ _ s
  | retf => exact outer_retf s
  | retf32 => exact outer_retf32 s
  | movSegRm seg m =>
    exact ((frame_readRm16 _).bind fun _ => outer_modify fun s => outer_loadSeg s _ _) s
  | popSeg seg =>
    exact Keeps.get_bind (R := SameOuter) (fun _ =>
      (frame_popW _).bind fun _ => outer_modify fun s => outer_loadSeg s _ _) s
  | inAlImm port => exact outer_inAl _ s
  | inAxImm port => exact outer_inAx _ s
  | inAlDx => exact Keeps.read (fun s => outer_inAl _ s) s
  | inAxDx => exact Keeps.read (fun s => outer_inAx _ s) s
  | outImmAl port => exact Keeps.get_bind (R := SameOuter) (fun _ => outer_portOut _ _) s
  | outImmAx port => exact outer_outAx _ s
  | outDxAl =>
    exact Keeps.read (fun s => Keeps.get_bind (R := SameOuter) (fun _ => outer_portOut _ _) s) s
  | outDxAx => exact Keeps.read (fun s => outer_outAx _ s) s
  | bts m bit | btr m bit | btc m bit => exact outer_bitOp _ _ _ s
  | fistp m =>
    exact Keeps.get_bind (R := SameOuter) (fun _ => (frame_rmAddr m false).bind fun _ =>
      (outer_modify fun _ => by rfl).bind fun _ => frame_inner fun s => by rfl) s
  | divRm8 | divRm16 | divRm32 | idivRm8 | idivRm16 | idivRm32 => exact absurd rfl hd
  | _ => exact absurd rfl hc

/-! ## The decoder -/

theorem outer_legacyPrefix (s : Cpu) (long64 : Bool) (b : U8) :
    SameOuter s (s.legacyPrefix long64 b) := by
  have hclear : SameOuter s s.clearRex := rfl
  have hover (t : Cpu) (r : SegReg) : SameOuter t (t.overrideSeg long64 r) := outer_ite rfl rfl
  refine hclear.trans ?_
  unfold Cpu.legacyPrefix
  generalize s.clearRex = t
  refine outer_ite rfl <| outer_ite rfl <| outer_ite (outer_ite rfl rfl) ?_
  exact outer_ite (hover t _) <| outer_ite (hover t _) <| outer_ite (hover t _) <|
    outer_ite (hover t _) <| outer_ite rfl <| outer_ite rfl rfl

theorem outer_prefixTurn (long64 : Bool) (rep : Rep) : Keeps SameOuter (prefixTurn long64 rep) := by
  refine frame_peekU8.bind fun b => .ite ?_ (.ite ?_ (.pure _))
  · exact frame_fetchU8.bind fun _ => (outer_modify fun _ => by rfl).bind fun _ => .pure _
  · exact (outer_modify fun s => outer_legacyPrefix s long64 b).bind fun _ =>
      frame_fetchU8.bind fun _ => .pure _

theorem outer_prefixLoop (long64 : Bool) :
    ∀ (n : Nat) (rep : Rep), Keeps SameOuter (prefixLoop long64 n rep)
  | 0, _ => .pure _
  | n + 1, rep => by
    refine (outer_prefixTurn long64 rep).bind fun o => ?_
    cases o with
    | none => exact .pure _
    | some rep => exact outer_prefixLoop long64 n rep

theorem outer_decode (decodeOp : U8 → Rep → OpDecoder) (n : Nat) :
    Keeps SameOuter (decode decodeOp n) := by
  have hstart (s : Cpu) : SameOuter s s.startDecode := by
    unfold Cpu.startDecode
    cases s.long64 <;> rfl
  have hwide (s : Cpu) : SameOuter s (if s.rexW then { s with opsize := true } else s) := by
    split <;> rfl
  exact .get_bind fun _ => (outer_modify hstart).bind fun _ =>
    (outer_prefixLoop _ n .none).bind fun _ => (outer_modify hwide).bind fun _ =>
      frame_fetchU8.bind fun _ => frame_opDecoder _

end X86Emu
