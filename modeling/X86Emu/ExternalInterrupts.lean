import X86Emu.ExceptionRouting
import X86Emu.PicPriority
import X86Emu.Run

/-!
# External interrupts of a guest

Over a run: at every boundary that samples the devices, a guest with external-interrupt exiting
leaves to its hypervisor with the request kept.
-/
namespace X86Emu

open StateRules

namespace Cpu

/-- The guest's hypervisor asked for external-interrupt exiting. -/
def extIntExiting (s : Cpu) : Bool := test (u32 (s.vmRead Field.pinCtls)) Vmx.pinExtIntExiting

def ackOnExit (s : Cpu) : Bool := test (u32 (s.vmRead Field.exitCtls)) Vmx.exitAckIntOnExit

/-- The state in which this turn comes to sample the devices. -/
def atSample (s : Cpu) : Cpu := if s.halted then s.countInst else s.beforeStep

/-- A boundary: a guest that is to exit for external interrupts, with no exception pending, on an
instruction count that samples the devices. -/
structure Boundary (s : Cpu) : Prop where
  inGuest : s.atSample.vmx.inGuest = true
  exiting : s.atSample.extIntExiting = true
  pending : s.atSample.pendingException = none
  count : s.atSample.instructionsExecuted % irqCheckInterval = 0
  alive : s.tripleFault = false

/-- What this turn's sampling comes to: whether an interrupt was dispatched, and the state. None
when the run ends, or an exception is dispatched, without sampling. -/
def sampled (s : Cpu) : Option (Bool × Cpu) :=
  if s.parked then none
  else if s.halted then some (deliverHardwareInterrupt s.countInst)
  else if s.beforeStep.pendingException.isSome then none
  else some (deliverHardwareInterrupt s.beforeStep)

/-- The machine goes on from the sampling. -/
def goOn (decode : Exec Inst) (s : Cpu) (r : Bool × Cpu) : Cpu :=
  if s.halted then if r.1 then { r.2 with halted := false } else r.2 else (runInst decode r.2).2

end Cpu

/-- A turn that samples goes on from what the sampling came to. -/
theorem turn_of_sampled (decode : Exec Inst) {s : Cpu} {r : Bool × Cpu} (h : s.sampled = some r) :
    turn decode s = some (s.goOn decode r) := by
  unfold Cpu.sampled at h
  by_cases hpark : s.parked = true
  · rw [if_pos hpark] at h
    cases h
  rw [if_neg hpark] at h
  unfold turn Cpu.goOn
  by_cases hhalt : s.halted = true
  · rw [if_pos hhalt, Option.some.injEq] at h
    subst h
    rw [if_pos hhalt, if_neg hpark, if_pos hhalt]
    unfold idle
    rw [bind_run, modify_run, bind_run]
    cases (deliverHardwareInterrupt s.countInst).1 <;> rfl
  · rw [if_neg hhalt] at h
    by_cases hp : s.beforeStep.pendingException.isSome = true
    · rw [if_pos hp] at h
      cases h
    rw [if_neg hp, Option.some.injEq] at h
    subst h
    rw [if_neg hhalt, if_neg hhalt]
    unfold step serveEvents
    rw [Option.not_isSome_iff_eq_none] at hp
    rw [bind_run, modify_run, bind_run, bind_run, get_run]
    dsimp only
    rw [hp]
    rfl

/-- The exit an external interrupt makes: the request stays in the PIC, or is acknowledged and its
vector recorded. -/
structure ExternalExit (c x : Cpu) : Prop where
  out : x.vmx.inGuest = false
  reason : x.vmRead Field.exitReason = u64 Reason.externalInterrupt
  requested : c.ackOnExit = false → x.pic = c.pic ∧ x.vmRead Field.exitIntrInfo = 0
  acknowledged : c.ackOnExit = true → ∃ vector, c.pic.acknowledge = (some vector, x.pic) ∧
    u32 (x.vmRead Field.exitIntrInfo) = (1 : U32) <<< 31 ||| u32 vector

/-- At a boundary: a deliverable request exits, and nothing else happens to the guest. -/
structure RequestExits (s : Cpu) : Prop where
  exits : s.atSample.collectIrqs.pic.hasPending = true →
    ∃ x, s.sampled = some (true, x) ∧ ExternalExit s.atSample.collectIrqs x
  notDelivered : ∀ r, s.sampled = some r →
    r = (false, s.atSample.collectIrqs) ∨ ExternalExit s.atSample.collectIrqs r.2

/-! ## The devices -/

/-- Neither the flags nor the VT-x state have moved. -/
def Calm (s t : Cpu) : Prop := t.flags = s.flags ∧ t.vmx = s.vmx

theorem Calm.trans {s t u : Cpu} (h1 : Calm s t) (h2 : Calm t u) : Calm s u :=
  ⟨h2.1.trans h1.1, h2.2.trans h1.2⟩

theorem calm_ite {c : Prop} [Decidable c] {t u : Cpu} (h : Calm t u) :
    Calm t (if c then u else t) := by
  split
  · exact h
  · exact ⟨rfl, rfl⟩

theorem calm_typeNextKey (t : Cpu) : Calm t t.typeNextKey := by
  unfold Cpu.typeNextKey
  split
  · exact calm_ite ⟨rfl, rfl⟩
  · exact ⟨rfl, rfl⟩

/-- Sampling the devices moves neither. -/
theorem calm_collectIrqs (s : Cpu) : Calm s s.collectIrqs := by
  have htimer (t : Cpu) : Calm t
      (if t.pit.irq0 then { t with pit := { t.pit with irq0 := false } }.raiseIrq 0 else t) :=
    calm_ite ⟨rfl, rfl⟩
  have hkbd (t : Cpu) : Calm t
      (if t.kbd.irq1 then { t with kbd := { t.kbd with irq1 := false } }.raiseIrq 1 else t) :=
    calm_ite ⟨rfl, rfl⟩
  have hvirtio (t : Cpu) : Calm t (if t.virtio.irq then t.raiseIrq virtioIrq else t) :=
    calm_ite ⟨rfl, rfl⟩
  have hide (t : Cpu) : Calm t
      (if t.ide.busy then { t with ide := { t.ide with busy := false } }.raiseIrq 14 else t) :=
    calm_ite ⟨rfl, rfl⟩
  have hticks : Calm s s.tickTimers := ⟨rfl, rfl⟩
  exact ((((hticks.trans (htimer _)).trans (calm_typeNextKey _)).trans (hkbd _)).trans
    (hvirtio _)).trans (hide _)

/-- Loading the host's state leaves the interrupt controller alone. -/
theorem pic_loadHostState (s : Cpu) : s.loadHostState.pic = s.pic := by
  have hcr0 (t : Cpu) (v : U32) : (t.writeCr0 v).pic = t.pic := by
    unfold Cpu.writeCr0 Cpu.updateLongMode
    dsimp only
    split <;> split <;> rfl
  have hseg (t : Cpu) (r : SegReg) (v : U16) : (t.setSeg r v).pic = t.pic := by
    cases r <;> rfl
  have hfold (r : U32 → U64) (long : Bool) : ∀ (l : List (SegReg × U32)) (t : Cpu),
      (l.foldl (fun s f => (s.setSeg f.1 (u16 (r f.2))).setSegDesc f.1 (Cpu.hostDesc long f.1))
        t).pic = t.pic := by
    intro l
    induction l with
    | nil => exact fun _ => rfl
    | cons f l ih => exact fun t => (ih _).trans (hseg t f.1 _)
  have hreg (t : Cpu) (i : Fin 16) (v : U64) : (t.setReg i v).pic = t.pic := rfl
  have hflush (t : Cpu) : t.flushTlb.pic = t.pic := rfl
  have hfetch (t : Cpu) : t.invalidatePhysIp.pic = t.pic := rfl
  simp only [Cpu.loadHostState, hfetch, hfold, hreg, hflush, hcr0]

theorem pic_vmExit (s : Cpu) (reason : U32) (q : U64) (info err : U32) :
    (s.vmExit reason q info err).pic = s.pic := pic_loadHostState _

section Sampling

variable {b : Cpu}

/-- With IF clear the routine returns as soon as it has sampled the devices. -/
theorem deliver_masked (hc : b.instructionsExecuted % Cpu.irqCheckInterval = 0)
    (hif : b.collectIrqs.getFlag Flags.if' = false) :
    deliverHardwareInterrupt b = (false, b.collectIrqs) := by
  unfold deliverHardwareInterrupt
  simp only [bind_run, get_run, modify_run, ne_eq, hc, not_true_eq_false, hif, Bool.not_false,
    ↓reduceIte, pure_run]

/-- With nothing deliverable it does no more. -/
theorem deliver_quiet (hc : b.instructionsExecuted % Cpu.irqCheckInterval = 0)
    (hp : b.collectIrqs.pic.hasPending = false) :
    deliverHardwareInterrupt b = (false, b.collectIrqs) := by
  have hnext : b.collectIrqs.pic.nextIrq = none := by
    rw [← Option.isNone_iff_eq_none, ← Option.not_isSome]
    exact congrArg not hp
  have hack := Pic.acknowledge_none _ hnext
  cases hif : b.collectIrqs.getFlag Flags.if' with
  | false => exact deliver_masked hc hif
  | true =>
    unfold deliverHardwareInterrupt
    simp only [bind_run, get_run, modify_run, ite_run, ne_eq, hc, not_true_eq_false, if_false, hif,
      Bool.not_true, Bool.false_eq_true, hp, hack, Bool.and_false, Bool.false_and, pure_run]

/-- With IF set a deliverable request goes to the exit hook of a guest. -/
theorem deliver_exits (hc : b.instructionsExecuted % Cpu.irqCheckInterval = 0)
    (hif : b.collectIrqs.getFlag Flags.if' = true) (hg : b.collectIrqs.vmx.inGuest = true)
    (hp : b.collectIrqs.pic.hasPending = true) (he : b.collectIrqs.interruptExit.1 = true) :
    deliverHardwareInterrupt b = (true, b.collectIrqs.interruptExit.2) := by
  unfold deliverHardwareInterrupt
  simp only [bind_run, get_run, modify_run, ite_run, ne_eq, hc, not_true_eq_false, if_false, hif,
    Bool.not_true, Bool.false_eq_true, hg, hp, he, Bool.and_self, if_true, set_run, pure_run]

/-- The exit hook, when the hypervisor asked for the exit. -/
theorem interruptExit_spec {c : Cpu} (he : c.extIntExiting = true)
    (hp : c.pic.hasPending = true) :
    c.interruptExit.1 = true ∧ ExternalExit c c.interruptExit.2 := by
  obtain ⟨line, hline⟩ := Option.isSome_iff_exists.mp hp
  have hvec : ∃ vector, c.pic.acknowledge.1 = some vector := by
    unfold Pic.acknowledge
    rw [hline]
    dsimp only
    split <;> exact ⟨_, rfl⟩
  obtain ⟨vector, hvec⟩ := hvec
  have hnot : ¬ (!test (u32 (c.vmRead Field.pinCtls)) Vmx.pinExtIntExiting) = true := by
    rw [show test (u32 (c.vmRead Field.pinCtls)) Vmx.pinExtIntExiting = true from he]
    decide
  unfold Cpu.interruptExit
  rw [if_neg hnot]
  cases hack : c.ackOnExit with
  | false =>
    have hno : ¬ test (u32 (c.vmRead Field.exitCtls)) Vmx.exitAckIntOnExit = true := by
      rw [show test (u32 (c.vmRead Field.exitCtls)) Vmx.exitAckIntOnExit = false from hack]
      decide
    rw [if_neg hno]
    refine ⟨rfl, ?_⟩
    exact
      { out := Cpu.vmExit_inGuest ..
        reason := vmRead_exitReason ..
        requested := fun _ => ⟨pic_vmExit .., vmRead_exitIntrInfo ..⟩
        acknowledged := by
          intro h
          rw [hack] at h
          cases h }
  | true =>
    rw [if_pos (show test (u32 (c.vmRead Field.exitCtls)) Vmx.exitAckIntOnExit = true from hack), hvec]
    refine ⟨rfl, ?_⟩
    exact
      { out := Cpu.vmExit_inGuest ..
        reason := vmRead_exitReason ..
        requested := by
          intro h
          rw [hack] at h
          cases h
        acknowledged := by
          intro _
          refine ⟨vector, ?_, ?_⟩
          · rw [pic_vmExit, ← hvec]
          · rw [vmRead_exitIntrInfo]
            exact (BitVec.setWidth_setWidth_of_le _ (by decide)).trans (BitVec.setWidth_eq _) }

end Sampling

/-! ## Boundaries -/

section Boundaries

variable {s : Cpu}

/-- At a boundary the devices are sampled unless the machine is parked. -/
theorem sampled_eq (hb : s.Boundary) :
    s.sampled = if s.parked then none else some (deliverHardwareInterrupt s.atSample) := by
  have hp := hb.pending
  unfold Cpu.sampled
  unfold Cpu.atSample at hp ⊢
  split
  · rfl
  · split
    · rfl
    · rw [if_neg ‹_›] at hp
      rw [hp]
      rfl

/-- Only a halted machine with IF clear is parked. -/
theorem masked_of_parked (hb : s.Boundary) (h : s.parked = true) :
    s.atSample.getFlag Flags.if' = false := by
  unfold Cpu.parked at h
  rw [hb.alive, Bool.false_or, Bool.and_eq_true] at h
  have hat : s.atSample = s.countInst := if_pos h.1
  rw [hat]
  exact Bool.not_eq_true' _ ▸ h.2

theorem getFlag_collectIrqs (b : Cpu) (f : U32) : b.collectIrqs.getFlag f = b.getFlag f := by
  unfold Cpu.getFlag
  rw [(calm_collectIrqs b).1]

/-- At a boundary a deliverable request exits just when IF is set. -/
theorem requestExits_iff (hb : s.Boundary) :
    RequestExits s ↔
      (s.atSample.collectIrqs.pic.hasPending = true → s.atSample.getFlag Flags.if' = true) := by
  have hsampled := sampled_eq hb
  have hparked := masked_of_parked hb
  have hflag := getFlag_collectIrqs s.atSample Flags.if'
  obtain ⟨-, hvmx⟩ := calm_collectIrqs s.atSample
  have hg : s.atSample.collectIrqs.vmx.inGuest = true := by rw [hvmx, hb.inGuest]
  have he : s.atSample.collectIrqs.extIntExiting = true := by
    have hx := hb.exiting
    unfold Cpu.extIntExiting Cpu.vmRead at hx ⊢
    rw [hvmx, hx]
  have hcount := hb.count
  constructor
  · intro h hp
    obtain ⟨x, hx, -⟩ := h.exits hp
    by_contra hif
    rw [Bool.not_eq_true] at hif
    rw [hsampled] at hx
    split at hx
    · cases hx
    · rw [deliver_masked hcount (hflag.trans hif)] at hx
      cases hx
  · intro hcond
    have hrun (hp : s.atSample.collectIrqs.pic.hasPending = true) :
        s.sampled = some (true, s.atSample.collectIrqs.interruptExit.2) := by
      have hif := hcond hp
      have hnot : ¬ s.parked = true := by
        intro hpark
        rw [hparked hpark] at hif
        cases hif
      obtain ⟨hexit, -⟩ := interruptExit_spec he hp
      rw [hsampled, if_neg hnot, deliver_exits hcount (hflag.trans hif) hg hp hexit]
    refine ⟨fun hp => ⟨_, hrun hp, (interruptExit_spec he hp).2⟩, ?_⟩
    intro r hr
    cases hp : s.atSample.collectIrqs.pic.hasPending with
    | true =>
      rw [hrun hp, Option.some.injEq] at hr
      rw [← hr]
      exact .inr (interruptExit_spec he hp).2
    | false =>
      rw [hsampled, deliver_quiet hcount hp] at hr
      split at hr
      · cases hr
      · exact .inl (Option.some.inj hr).symm

end Boundaries

/-- In a run, requests reach the hypervisor at every boundary just when IF is set at each boundary
that has one. -/
theorem external_run_iff (decode : Exec Inst) (s : Cpu) :
    (∀ n t, runFor decode n s = some t → t.Boundary → RequestExits t) ↔
      ∀ n t, runFor decode n s = some t → t.Boundary →
        t.atSample.collectIrqs.pic.hasPending = true → t.atSample.getFlag Flags.if' = true := by
  constructor
  · intro h n t hn hb
    exact (requestExits_iff hb).mp (h n t hn hb)
  · intro h n t hn hb
    exact (requestExits_iff hb).mpr (h n t hn hb)

/-- A guest with interrupts disabled, running or halted, while IRQ 1 is requested. -/
def maskedGuest (halted : Bool) : Cpu :=
  { longGuest false with
    halted
    instructionsExecuted := if halted then 63 else 64
    pic := { masterIrr := 0x02, masterImr := 0 }
    vmx := longVmcs.writeAll [(Field.pinCtls, u64 (Vmx.pinDefault1 ||| Vmx.pinExtIntExiting))] }

theorem maskedGuest_boundary (halted : Bool) :
    (maskedGuest halted).Boundary ∧ ¬ RequestExits (maskedGuest halted) := by
  have hb : (maskedGuest halted).Boundary := by
    cases halted <;> exact
      { inGuest := by decide +kernel
        exiting := by decide +kernel
        pending := by decide +kernel
        count := by decide +kernel
        alive := rfl }
  refine ⟨hb, fun h => ?_⟩
  have hif := (requestExits_iff hb).mp h (by cases halted <;> decide +kernel)
  cases halted <;> exact absurd hif (by decide +kernel)

/-- Running, the guest keeps the interrupt from its hypervisor; halted, it ends the run. -/
theorem maskedGuest_starves :
    ((maskedGuest false).Boundary ∧ ¬ RequestExits (maskedGuest false)) ∧
      (maskedGuest true).Boundary ∧ ¬ RequestExits (maskedGuest true) :=
  ⟨maskedGuest_boundary false, maskedGuest_boundary true⟩

end X86Emu
