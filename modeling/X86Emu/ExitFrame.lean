import X86Emu.Outer

/-!
# Steps around VM exits

A relation that tolerates whatever leaves the outer state alone, and VM exits, is kept by every
delivery of an exception and by every intercept. One that tolerates the typing of a key besides is
kept up to the decoding of an instruction, and one that tolerates the instructions of VMX too by a
whole turn of the machine.
-/
namespace X86Emu

open StateRules

/-- A relation that ordinary steps and VM exits keep. -/
class ExitFrame (R : Cpu → Cpu → Prop) : Prop extends Std.Refl R, IsTrans Cpu R where
  of_outer : ∀ {s t : Cpu}, SameOuter s t → R s t
  exit : ∀ (s : Cpu) (reason : U32) (q : U64) (info error : U32), R s (s.vmExit reason q info error)

/-- A relation that events keep as well. -/
class EventFrame (R : Cpu → Cpu → Prop) : Prop extends ExitFrame R where
  types : ∀ s : Cpu, R s s.typeNextKey

/-- A relation that the instructions that reach VT-x keep as well. A guest never executes a VMX
instruction. -/
class TurnFrame (R : Cpu → Cpu → Prop) : Prop extends EventFrame R where
  reaching : ∀ (inst : Inst) (s : Cpu), inst.reachesVmx = true →
    (∀ v, inst = .vmx v → s.vmx.inGuest = false) → R s (execute inst s).2

theorem exit_ite {R : Cpu → Cpu → Prop} {c : Prop} [Decidable c] {s x y : Cpu} (hx : R s x)
    (hy : R s y) : R s (if c then x else y) := by
  split
  · exact hx
  · exact hy

section Exits

/-! ## Intercepts -/

variable {R : Cpu → Cpu → Prop}

/-- An intercept keeps the frame, and changes nothing outer when it lets the instruction execute. -/
def ExitHandles (R : Cpu → Cpu → Prop) (p : Exec Bool) : Prop :=
  ∀ s, R s (p s).2 ∧ ((p s).1 = false → SameOuter s (p s).2)

namespace ExitHandles

theorem ite {c : Prop} [Decidable c] {p q : Exec Bool} (hp : ExitHandles R p)
    (hq : ExitHandles R q) : ExitHandles R (if c then p else q) := by
  split
  · exact hp
  · exact hq

theorem get_bind {f : Cpu → Exec Bool} (h : ∀ s, ExitHandles R (f s)) : ExitHandles R (get >>= f) :=
  fun s => h s s

theorem handled {f : Cpu → Cpu} (h : ∀ s, R s (f s)) :
    ExitHandles R (do modify f; Pure.pure true) :=
  fun s => ⟨h s, fun hpass => Bool.noConfusion hpass⟩

variable [ExitFrame R]

theorem pure (b : Bool) : ExitHandles R (Pure.pure b) := fun s => ⟨refl s, fun _ => rfl⟩

theorem bind {α : Type} {p : Exec α} {f : α → Exec Bool} (hp : Keeps SameOuter p)
    (hf : ∀ a, ExitHandles R (f a)) : ExitHandles R (p >>= f) := by
  intro s
  obtain ⟨hkept, hpass⟩ := hf (p s).1 (p s).2
  exact ⟨IsTrans.trans _ _ _ (ExitFrame.of_outer (hp s)) hkept, fun h => (hp s).trans (hpass h)⟩

theorem exit (reason : U32) (qualification : U64) : ExitHandles R (exitWith reason qualification) :=
  handled fun s => ExitFrame.exit s _ _ _ _

end ExitHandles

variable [ExitFrame R]

theorem exit_crShadowedWrite (cr reg : U8) (v : U64) : ExitHandles R (crShadowedWrite cr reg v) :=
  .get_bind fun _ => .ite (.exit _ _) (.handled fun t =>
    ExitFrame.of_outer (outer_ite (outer_writeCr0 t _) rfl))

theorem exit_crWriteIntercept (cr reg : U8) (ctl : U32) :
    ExitHandles R (crWriteIntercept cr reg ctl) :=
  .get_bind fun _ => .ite (.ite (.ite (.pure _) (.exit _ _)) (.pure _)) <|
    .ite (.ite (.exit _ _) (.pure _)) (.ite (exit_crShadowedWrite _ _ _) (.pure _))

theorem exit_crReadIntercept (cr reg : U8) (ctl : U32) :
    ExitHandles R (crReadIntercept cr reg ctl) :=
  .ite (.exit _ _) <| .ite (.exit _ _) <| .ite
    (.handled fun s => ExitFrame.of_outer (UserFrame.of_shell (s.shell_setRegW _ _ _))) (.pure _)

theorem exit_lmswIntercept (m : ModRm) : ExitHandles R (lmswIntercept m) :=
  .get_bind fun _ => .get_bind fun _ => .bind (frame_readRm16 _) fun _ =>
    .get_bind fun _ => .ite (.pure _) (.ite (.exit _ _) (.pure _))

theorem exit_ioIntercept (port : U16) (size : U64) (input imm : Bool) (ctl : U32) :
    ExitHandles R (ioIntercept port size input imm ctl) :=
  .get_bind fun _ => .ite (.exit _ _) (.pure _)

theorem exit_intercept (inst : Inst) : ExitHandles R (intercept inst) := by
  have hexit (c : Bool) (reason : U32) :
      ExitHandles R (if c then exitWith reason 0 else pure false) := .ite (.exit _ _) (.pure _)
  refine .get_bind fun s => ?_
  cases inst with
  | cpuid | vmx | xsetbv | invd => exact .exit _ _
  | hlt | rdtsc | rdmsr | wrmsr | wbinvd | mwait | monitor | pause => exact hexit _ _
  | invlpg m => exact .ite (.exit _ _) (.pure _)
  | rdtscp =>
    exact .ite (.exit _ _) <|
      .ite (.handled fun s => ExitFrame.of_outer (outer_raise s _)) (.pure _)
  | movToCr cr reg => exact exit_crWriteIntercept _ _ _
  | movCr cr reg => exact exit_crReadIntercept _ _ _
  | clts => exact .get_bind fun _ => .ite (.exit _ _) (.pure _)
  | lmsw m => exact exit_lmswIntercept _
  | movDr | movToDr => exact .ite (.exit _ _) (.pure _)
  | inAlImm | inAxImm | outImmAl | outImmAx | inAlDx | inAxDx | outDxAl | outDxAx =>
    exact exit_ioIntercept _ _ _ _ _
  | _ => exact .pure _

/-- A VMX instruction never reaches the executor from a guest. -/
theorem intercept_vmx (v : VmxInst) (s : Cpu) : (intercept (.vmx v) s).1 = true := rfl

/-! ## Exceptions and interrupts -/

theorem exit_keeps {α : Type} {p : Exec α} (h : Keeps SameOuter p) : Keeps R p :=
  h.mono fun _ _ => ExitFrame.of_outer

theorem exit_resetOnTripleFault (s : Cpu) : R s s.resetOnTripleFault :=
  exit_ite (ExitFrame.exit s _ _ _ _) (ExitFrame.of_outer rfl)

theorem exit_resolveNested (v : U8) {p : Exec Unit} (hp : Keeps R p) :
    Keeps R (resolveNested v p) :=
  .read fun s => by
    have hclear (t : Cpu) : R t t.clearPending := ExitFrame.of_outer rfl
    have hip (t : Cpu) : R t t.invalidatePhysIp := ExitFrame.of_outer rfl
    cases s.pendingException with
    | none => exact hip s
    | some f =>
      exact Keeps.ite (R := R)
        (.modify fun t => IsTrans.trans _ _ _ (hclear t) (exit_resetOnTripleFault _))
        (.ite ((Keeps.modify hclear).bind fun _ => hp) (.modify hip)) s

theorem exit_deliverEvent {p : Exec Unit} (hp : Keeps R p) (v : U8) (code : Option U32) :
    Keeps R (deliverEvent p v code) := by
  have hback (s : Cpu) :
      R s (if Cpu.isTrap v then s else { s with rip := s.ripStart, ip := s.ipStart }) :=
    exit_ite (ExitFrame.of_outer rfl) (ExitFrame.of_outer rfl)
  refine (Keeps.modify hback).bind fun _ => .get_bind fun _ => ?_
  refine .ite (.modify exit_resetOnTripleFault) (.ite ?_ ?_)
  · exact (exit_keeps (outer_protectedIntErr v code)).bind fun _ => exit_resolveNested v hp
  · exact (exit_keeps (outer_realInt v)).bind fun _ => .modify fun _ => ExitFrame.of_outer rfl

theorem exit_interceptException {deliver : U8 → Option U32 → Exec Unit}
    (hd : ∀ v code, Keeps R (deliver v code)) (v : U8) (code : Option U32) :
    Keeps R (interceptException deliver v code) :=
  .read fun s => by
    have hrip (t : Cpu) : R t { t with rip := t.ripStart } := ExitFrame.of_outer rfl
    split
    · have hat : R s (if Cpu.isTrap v then s else { s with rip := s.ripStart }) :=
        exit_ite (refl s) (hrip s)
      generalize (if Cpu.isTrap v then s else { s with rip := s.ripStart }) = t at hat
      refine IsTrans.trans _ _ _ hat ?_
      by_cases he : (t.exceptionExit v code).1 = true
      · rw [if_pos he]
        show R t (t.exceptionExit v code).2
        unfold Cpu.exceptionExit
        split
        · exact refl t
        · exact IsTrans.trans _ _ _ (hrip t) (ExitFrame.exit _ _ _ _ _)
      · rw [if_neg he]
        exact hd v code t
    · exact hd v code s

theorem exit_dispatchExceptionRaw (v : U8) (code : Option U32) :
    Keeps R (dispatchExceptionRaw v code) :=
  exit_deliverEvent (exit_interceptException (fun _ _ => exit_deliverEvent (.pure _) _ _) _ _) _ _

theorem exit_dispatchException (v : U8) (code : Option U32) :
    Keeps R (dispatchException v code) :=
  exit_interceptException exit_dispatchExceptionRaw _ _

theorem exit_interruptExit (s : Cpu) : R s s.interruptExit.2 := by
  have hpic (p : Pic) : R s { s with pic := p } := ExitFrame.of_outer rfl
  unfold Cpu.interruptExit
  split
  · exact refl s
  split
  · exact IsTrans.trans _ _ _ (hpic _) (ExitFrame.exit _ _ _ _ _)
  · exact ExitFrame.exit s _ _ _ _

end Exits

/-! ## Turns of the machine -/

/-- Where a step decodes its instruction, the events served. -/
def Cpu.atDecode (s : Cpu) : Cpu := (serveEvents s.beforeStep).2.beginInst

/-- A step serves the events, and then decodes and executes an instruction. -/
theorem step_run (decode : Exec Inst) (s : Cpu) :
    (step decode s).2 =
      (stepInst (decode s.atDecode).1 (decode s.atDecode).2).2.countInst := rfl

/-- A turn is a step, or one of a halted machine that something can wake. -/
theorem turn_cases {decode : Exec Inst} {s t : Cpu} (h : turn decode s = some t) :
    (s.halted = false ∧ t = (step decode s).2) ∨ (s.halted = true ∧ t = (idle s).2) := by
  unfold turn at h
  split at h
  · rename_i hhalted
    split at h
    · cases h
    · exact .inr ⟨hhalted, (Option.some.inj h).symm⟩
  · rename_i hrunning
    exact .inl ⟨Bool.eq_false_iff.mpr hrunning, (Option.some.inj h).symm⟩

section Events

variable {R : Cpu → Cpu → Prop} [EventFrame R]

theorem event_collectIrqs (s : Cpu) : R s s.collectIrqs := by
  have hticks (t : Cpu) : SameOuter t t.tickTimers := rfl
  have htimer (t : Cpu) : SameOuter t (if t.pit.irq0 = true then
      { t with pit := { t.pit with irq0 := false } }.raiseIrq 0 else t) := outer_ite rfl rfl
  have hkbd (t : Cpu) : SameOuter t (if t.kbd.irq1 = true then
      { t with kbd := { t.kbd with irq1 := false } }.raiseIrq 1 else t) := outer_ite rfl rfl
  have hvirtio (t : Cpu) : SameOuter t (if t.virtio.irq = true then t.raiseIrq virtioIrq else t) :=
    outer_ite rfl rfl
  have hide (t : Cpu) : SameOuter t (if t.ide.busy = true then
      { t with ide := { t.ide with busy := false } }.raiseIrq 14 else t) := outer_ite rfl rfl
  refine IsTrans.trans _ _ _ (ExitFrame.of_outer ((hticks s).trans (htimer _))) ?_
  refine IsTrans.trans _ _ _ (EventFrame.types _) ?_
  exact ExitFrame.of_outer ((hkbd _).trans ((hvirtio _).trans (hide _)))

theorem event_deliverHardwareInterrupt : Keeps R deliverHardwareInterrupt := by
  have hpic (s : Cpu) (p : Pic) : R s { s with pic := p } := ExitFrame.of_outer rfl
  have hip (s : Cpu) : R s s.invalidatePhysIp := ExitFrame.of_outer rfl
  refine .get_bind fun s => .ite (.pure false) ?_
  refine (Keeps.modify event_collectIrqs).bind fun _ => .read fun t => ?_
  split
  · exact refl t
  split
  · exact exit_interruptExit t
  generalize t.pic.acknowledge = a
  obtain ⟨_ | vector, pic⟩ := a
  · exact refl t
  · have hlast : Keeps R (do modify (·.invalidatePhysIp); pure true : Exec Bool) :=
      (Keeps.modify hip).bind fun _ => .pure true
    refine Keeps.set_bind (hpic t pic) (.ite ?_ ?_)
    · exact (exit_keeps (outer_protectedIntErr vector none)).bind fun _ => hlast
    · exact (exit_keeps (outer_realInt vector)).bind fun _ => hlast

theorem event_serveEvents : Keeps R serveEvents := by
  have hclear (s : Cpu) : R s s.clearPending := ExitFrame.of_outer rfl
  refine .get_bind fun s => ?_
  split
  · exact (Keeps.modify hclear).bind fun _ => exit_dispatchException _ _
  · exact event_deliverHardwareInterrupt.bind fun _ => .pure _

/-- What comes before an instruction. -/
theorem event_atDecode (s : Cpu) : R s s.atDecode := by
  have hbefore : R s s.beforeStep := by
    unfold Cpu.beforeStep Cpu.preStep
    exact exit_ite (exit_ite (ExitFrame.exit s _ _ _ _) (refl s)) (refl s)
  have hbegin (s : Cpu) : R s s.beginInst := ExitFrame.of_outer rfl
  exact IsTrans.trans _ _ _ hbefore (IsTrans.trans _ _ _ (event_serveEvents _) (hbegin _))

/-- A turn of a halted machine, once counted. -/
theorem event_idle (s : Cpu) : R s.countInst (idle s).2 := by
  have hwake (s : Cpu) : R s { s with halted := false } := ExitFrame.of_outer rfl
  have hall : Keeps R (do
      if ← deliverHardwareInterrupt then modify fun s => { s with halted := false } else pure ()) :=
    event_deliverHardwareInterrupt.bind fun b => .ite (.modify hwake) (.pure _)
  exact hall s.countInst

end Events

section Turns

variable {R : Cpu → Cpu → Prop} [TurnFrame R]

theorem event_execute (inst : Inst) {s : Cpu} (hv : ∀ v, inst = .vmx v → s.vmx.inGuest = false) :
    R s (execute inst s).2 := by
  cases h : inst.reachesVmx with
  | false => exact ExitFrame.of_outer (outer_execute h s)
  | true => exact TurnFrame.reaching inst s h hv

theorem event_guestExecute (inst : Inst) : Keeps R (guestExecute inst) := by
  intro s
  obtain ⟨hkept, hpass⟩ := exit_intercept (R := R) inst s
  show R s ((if (intercept inst s).1 then pure () else execute inst : Exec Unit)
    (intercept inst s).2).2
  cases hb : (intercept inst s).1 with
  | true => exact hkept
  | false =>
    refine IsTrans.trans _ _ _ hkept (event_execute inst fun v hv => ?_)
    rw [hv, intercept_vmx] at hb
    cases hb

theorem event_stepInst (inst : Inst) : Keeps R (stepInst inst) := by
  refine .read fun s => ?_
  split
  · exact refl s
  split
  · exact event_guestExecute inst s
  · rename_i hg
    exact event_execute inst fun _ _ => Bool.eq_false_iff.mpr hg

/-- A turn of the run loop counts once: a step at its end, a halted machine before anything else. -/
theorem event_turn {decode : Exec Inst} (hd : Keeps SameOuter decode) {s t : Cpu}
    (h : turn decode s = some t) :
    (s.halted = false ∧ ∃ u, R s u ∧ t = u.countInst) ∨ (s.halted = true ∧ R s.countInst t) := by
  rcases turn_cases h with ⟨hrunning, rfl⟩ | ⟨hhalted, rfl⟩
  · have hdecoded : R s (decode s.atDecode).2 :=
      IsTrans.trans _ _ _ (event_atDecode s) (exit_keeps hd _)
    exact .inl ⟨hrunning, _, IsTrans.trans _ _ _ hdecoded (event_stepInst _ _), step_run decode s⟩
  · exact .inr ⟨hhalted, event_idle s⟩

end Turns

end X86Emu
