import X86Emu.ExternalInterrupts
import X86Emu.PitTicks

/-!
# Sleeping and waking

HLT with interrupts on leaves the processor as it is and lets the devices go on. They are sampled
at every 64th turn, and the first sampling that finds something to deliver wakes it: the timer, if
its line is open, within the clocks left on its count.
-/
namespace X86Emu

open StateRules

/-! ## The interrupt controllers -/

namespace Pic

variable {p q : Pic}

/-- With the master's lines all masked nothing is found, the slave's lines included. -/
theorem hasPending_of_masked (h : p.masterImr = 0xFF) (hc : p.cascadeIrq = 2) :
    p.hasPending = false := by
  have hmask (v : U8) : v &&& ~~~p.masterImr = 0 := by
    rw [h]
    exact BitVec.and_zero
  have hopen (b : U8) : test (0 : U8) b = false := by
    simp [test]
  have hcascade : test p.masterImr ((1 : U8) <<< p.cascadeIrq.toNat) = true := by
    rw [h, hc]
    decide
  have hwalk : ∀ l : List Nat, ∀ irq, p.masterWalk l ≠ .found irq := by
    intro l
    induction l with
    | nil => exact fun irq he => Walk.noConfusion he
    | cons i l ih =>
      intro irq
      unfold masterWalk
      dsimp only
      rw [hmask, hopen, if_pos hcascade]
      split
      · exact fun he => Walk.noConfusion he
      · split
        · dsimp only
          split
          · exact fun he => Walk.noConfusion he
          · exact ih irq
        · rw [if_neg Bool.false_ne_true]
          exact ih irq
  unfold hasPending nextIrq
  cases hw : p.masterWalk (List.range 8) with
  | found irq => exact absurd hw (hwalk _ irq)
  | blocked => rfl
  | nothing => rfl

/-- Line 0 is the most urgent: unmasked and not in service, a request on it is next. -/
structure TimerOpen (p : Pic) : Prop where
  cascade : p.cascadeIrq = 2
  unmasked : p.masterImr.getLsbD 0 = false
  served : p.masterIsr.getLsbD 0 = false

theorem TimerOpen.nextIrq (h : p.TimerOpen) (hr : p.masterIrr.getLsbD 0 = true) :
    p.nextIrq = some 0 := by
  have hp : (p.masterIrr &&& ~~~p.masterImr).getLsbD 0 = true := by
    rw [BitVec.getLsbD_and, hr, BitVec.getLsbD_not, h.unmasked]
    decide
  have hw : p.masterWalk (List.range 8) = .found 0 := by
    rw [show List.range 8 = 0 :: List.range' 1 7 from rfl, p.masterWalk_step h.cascade (by omega),
      if_neg (by omega), if_neg (Bool.eq_false_iff.mp h.served), if_pos hp]
  rw [Pic.nextIrq, hw]

/-- The pair after some lines are raised. -/
inductive Raised (p : Pic) : Pic → Prop where
  | refl : Raised p p
  | raise {q : Pic} (line : Nat) : Raised p q → Raised p (q.raiseIrq line)

theorem Raised.trans {r : Pic} (h : p.Raised q) (k : q.Raised r) : p.Raised r := by
  induction k with
  | refl => exact h
  | raise line _ ih => exact .raise line ih

theorem Raised.masks (h : p.Raised q) :
    q.cascadeIrq = p.cascadeIrq ∧ q.masterImr = p.masterImr ∧ q.masterIsr = p.masterIsr := by
  induction h with
  | refl => exact ⟨rfl, rfl, rfl⟩
  | raise line _ ih =>
    refine ⟨Eq.trans ?_ ih.1, Eq.trans ?_ ih.2.1, Eq.trans ?_ ih.2.2⟩ <;>
      (unfold raiseIrq; split <;> rfl)

theorem Raised.timerOpen (h : p.Raised q) (hp : p.TimerOpen) : q.TimerOpen := by
  obtain ⟨hc, hm, hs⟩ := h.masks
  exact ⟨hc.trans hp.cascade, hm ▸ hp.unmasked, hs ▸ hp.served⟩

/-- A request stays until it is acknowledged. -/
theorem Raised.requested (h : p.Raised q) (hp : p.masterIrr.getLsbD 0 = true) :
    q.masterIrr.getLsbD 0 = true := by
  induction h with
  | refl => exact hp
  | raise line _ ih =>
    unfold raiseIrq
    split
    · rw [BitVec.getLsbD_or, ih, Bool.true_or]
    · exact ih

end Pic

/-! ## Asleep -/

namespace Cpu

variable {s t : Cpu}

/-- Halted, where an interrupt can wake it. -/
structure Asleep (s : Cpu) : Prop where
  halted : s.halted = true
  alive : s.tripleFault = false
  interrupts : s.getFlag Flags.if' = true

/-- A turn of a machine that sleeps on: the count advances, and at every 64th the devices do. -/
def nap (s : Cpu) : Cpu :=
  if s.countInst.instructionsExecuted % irqCheckInterval = 0 then s.countInst.collectIrqs
  else s.countInst

/-- The turn samples the devices and finds something to deliver. -/
def Rouses (s : Cpu) : Prop :=
  s.countInst.instructionsExecuted % irqCheckInterval = 0 ∧
    s.countInst.collectIrqs.pic.hasPending = true

/-- Only the counts and the devices have moved. -/
def SleptTo (s t : Cpu) : Prop :=
  t = { s with
    instructionsExecuted := t.instructionsExecuted
    tsc := t.tsc
    pit := t.pit
    pitSubsecond := t.pitSubsecond
    cmos := t.cmos
    keyScript := t.keyScript
    keyNext := t.keyNext
    kbd := t.kbd
    pic := t.pic
    ide := t.ide }

theorem SleptTo.trans {u : Cpu} (h : SleptTo s t) (k : SleptTo t u) : SleptTo s u := by
  unfold SleptTo at *
  rw [k, h]

theorem SleptTo.asleep (h : SleptTo s t) (hs : s.Asleep) : t.Asleep := by
  unfold SleptTo at h
  rw [h]
  exact ⟨hs.halted, hs.alive, hs.interrupts⟩

/-! ## A sampling -/

/-- The devices other than the timer put their requests to the controllers. -/
structure Asks (s t : Cpu) : Prop where
  slept : SleptTo s t
  count : t.instructionsExecuted = s.instructionsExecuted
  pit : t.pit = s.pit
  raised : s.pic.Raised t.pic

theorem Asks.refl (s : Cpu) : Asks s s := ⟨rfl, rfl, rfl, .refl⟩

theorem Asks.ite {c : Prop} [Decidable c] (h : Asks s t) : Asks s (if c then t else s) := by
  split
  · exact h
  · exact .refl s

theorem Asks.trans {u : Cpu} (h : Asks s t) (k : Asks t u) : Asks s u :=
  ⟨h.slept.trans k.slept, k.count.trans h.count, k.pit.trans h.pit, h.raised.trans k.raised⟩

theorem asks_typeNextKey (s : Cpu) : Asks s s.typeNextKey := by
  unfold typeNextKey
  split
  · exact Asks.ite ⟨rfl, rfl, rfl, .refl⟩
  · exact .refl s

/-- The timer's request goes first. -/
def raiseTimer (s : Cpu) : Cpu :=
  if s.pit.irq0 then { s with pit := { s.pit with irq0 := false } }.raiseIrq 0 else s

theorem asks_collectIrqs (s : Cpu) : Asks s.tickTimers.raiseTimer s.collectIrqs := by
  have hkbd (t : Cpu) : Asks t
      (if t.kbd.irq1 then { t with kbd := { t.kbd with irq1 := false } }.raiseIrq 1 else t) :=
    Asks.ite ⟨rfl, rfl, rfl, .raise 1 .refl⟩
  have hvirtio (t : Cpu) : Asks t (if t.virtio.irq then t.raiseIrq virtioIrq else t) :=
    Asks.ite ⟨rfl, rfl, rfl, .raise virtioIrq .refl⟩
  have hide (t : Cpu) : Asks t
      (if t.ide.busy then { t with ide := { t.ide with busy := false } }.raiseIrq 14 else t) :=
    Asks.ite ⟨rfl, rfl, rfl, .raise 14 .refl⟩
  exact (((asks_typeNextKey _).trans (hkbd _)).trans (hvirtio _)).trans (hide _)

theorem raiseTimer_spec (s : Cpu) :
    SleptTo s s.raiseTimer ∧ s.raiseTimer.instructionsExecuted = s.instructionsExecuted ∧
      s.raiseTimer.pit.ch0 = s.pit.ch0 ∧ s.pic.Raised s.raiseTimer.pic ∧
      (s.pit.irq0 = true → s.raiseTimer.pic.masterIrr.getLsbD 0 = true) := by
  unfold raiseTimer
  split
  · refine ⟨rfl, rfl, rfl, .raise 0 .refl, fun _ => ?_⟩
    show (s.pic.masterIrr ||| (1 : U8) <<< 0).getLsbD 0 = true
    rw [BitVec.getLsbD_or]
    exact Bool.or_eq_true _ _ |>.mpr (.inr (by decide))
  · exact ⟨rfl, rfl, rfl, .refl, fun h => absurd h ‹_›⟩

/-- A sampling leaves the processor alone, takes four clocks off the timer, and only adds
requests. -/
theorem collectIrqs_spec (s : Cpu) :
    SleptTo s s.collectIrqs ∧ s.collectIrqs.instructionsExecuted = s.instructionsExecuted ∧
      s.collectIrqs.pit.ch0 = (s.pit.tick pitClocks).ch0 ∧ s.pic.Raised s.collectIrqs.pic ∧
      ((s.pit.tick pitClocks).irq0 = true → s.collectIrqs.pic.masterIrr.getLsbD 0 = true) := by
  have hasks := asks_collectIrqs s
  obtain ⟨hslept, hcount, hch0, hraised, hline⟩ := raiseTimer_spec s.tickTimers
  have hticks : SleptTo s s.tickTimers := rfl
  exact ⟨(hticks.trans hslept).trans hasks.slept, hasks.count.trans hcount,
    (congrArg Pit.ch0 hasks.pit).trans hch0,
    hraised.trans hasks.raised, fun h => hasks.raised.requested (hline h)⟩

theorem sleptTo_nap (s : Cpu) : SleptTo s s.nap := by
  have hcount : SleptTo s s.countInst := rfl
  unfold nap
  split
  · exact hcount.trans (collectIrqs_spec _).1
  · exact hcount

end Cpu

/-- With IF set something to deliver is delivered, to the guest's hypervisor or to a handler. -/
theorem deliver_pending {b : Cpu} (hc : b.instructionsExecuted % Cpu.irqCheckInterval = 0)
    (hif : b.collectIrqs.getFlag Flags.if' = true) (hp : b.collectIrqs.pic.hasPending = true) :
    (deliverHardwareInterrupt b).1 = true := by
  obtain ⟨line, hline⟩ := Option.isSome_iff_exists.mp hp
  obtain ⟨vector, q, hack⟩ : ∃ vector q, b.collectIrqs.pic.acknowledge = (some vector, q) := by
    unfold Pic.acknowledge
    rw [hline]
    dsimp only
    split <;> exact ⟨_, _, rfl⟩
  have hite {c : Prop} [Decidable c] {x y : Exec Bool} (hx : ∀ t, (x t).1 = true)
      (hy : ∀ t, (y t).1 = true) (t : Cpu) : ((if c then x else y) t).1 = true := by
    split
    · exact hx t
    · exact hy t
  unfold deliverHardwareInterrupt
  simp only [bind_run, get_run, modify_run, ite_run, ne_eq, hc, not_true_eq_false, if_false, hif,
    Bool.not_true, Bool.false_eq_true, hack, set_run, pure_run]
  split
  · rfl
  · exact hite (fun _ => rfl) (fun _ => rfl) _

namespace Cpu

variable {s : Cpu}

/-- A turn that does not rouse the machine is a nap; one that does wakes it. -/
theorem turn_asleep (decode : Exec Inst) (h : s.Asleep) :
    (¬ s.Rouses → turn decode s = some s.nap) ∧
      (s.Rouses → ∃ t, turn decode s = some t ∧ t.halted = false) := by
  have hpark : ¬ s.parked = true := by
    unfold parked
    rw [h.halted, h.alive, h.interrupts]
    decide
  have hturn : turn decode s = some (idle s).2 := by
    rw [turn, if_pos h.halted, if_neg hpark]
  have hif : s.countInst.collectIrqs.getFlag Flags.if' = true :=
    (getFlag_collectIrqs _ _).trans h.interrupts
  rw [hturn]
  unfold idle
  rw [bind_run, modify_run, bind_run]
  by_cases hc : s.countInst.instructionsExecuted % irqCheckInterval = 0
  · refine ⟨fun hr => ?_, fun hr => ?_⟩
    · have hp : s.countInst.collectIrqs.pic.hasPending = false :=
        Bool.eq_false_iff.mpr fun hp => hr ⟨hc, hp⟩
      rw [deliver_quiet hc hp, nap, if_pos hc]
      rfl
    · have hd := deliver_pending hc hif hr.2
      generalize deliverHardwareInterrupt s.countInst = r at hd
      obtain ⟨woken, u⟩ := r
      obtain rfl : woken = true := hd
      exact ⟨_, rfl, rfl⟩
  · refine ⟨fun _ => ?_, fun hr => absurd hr.1 hc⟩
    have hd : deliverHardwareInterrupt s.countInst = (false, s.countInst) := by
      unfold deliverHardwareInterrupt
      rw [bind_run, get_run, ite_run, if_pos hc]
      rfl
    rw [hd, nap, if_neg hc]
    rfl

/-! ## Runs -/

theorem nap_iterate (n : Nat) (s : Cpu) : SleptTo s (nap^[n] s) := by
  induction n with
  | zero => rfl
  | succ n ih =>
    rw [Function.iterate_succ_apply']
    exact ih.trans (sleptTo_nap _)

theorem runFor_asleep (decode : Exec Inst) : ∀ {n : Nat} {s : Cpu}, s.Asleep →
    (∀ k < n, ¬ (nap^[k] s).Rouses) → runFor decode n s = some (nap^[n] s)
  | 0, _, _, _ => rfl
  | n + 1, s, h, hquiet => by
    rw [runFor, (turn_asleep decode h).1 (hquiet 0 (Nat.succ_pos n)), Option.bind_some]
    exact runFor_asleep decode ((sleptTo_nap s).asleep h) fun k hk => hquiet (k + 1) (by omega)

theorem runFor_add (decode : Exec Inst) : ∀ (m n : Nat) (s : Cpu),
    runFor decode (m + n) s = (runFor decode m s).bind (runFor decode n)
  | 0, n, s => by rw [Nat.zero_add]; rfl
  | m + 1, n, s => by
    rw [Nat.add_right_comm, runFor, runFor]
    cases turn decode s with
    | none => rfl
    | some t => exact runFor_add decode m n t

/-! ## The timer -/

/-- The turns until the timer's request is sampled. -/
def turnsLeft (s : Cpu) : Nat :=
  64 * ((s.pit.ch0.count.toNat + 3) / 4) - s.instructionsExecuted.toNat % 64

theorem count_mod (s : Cpu) :
    s.countInst.instructionsExecuted.toNat % 64 = (s.instructionsExecuted.toNat % 64 + 1) % 64 := by
  have hone : (1 : U64).toNat = 1 := rfl
  show (s.instructionsExecuted + 1).toNat % 64 = _
  rw [BitVec.toNat_add, hone]
  omega

theorem sampled_iff (s : Cpu) : s.countInst.instructionsExecuted % irqCheckInterval = 0 ↔
    s.countInst.instructionsExecuted.toNat % 64 = 0 := by
  rw [← BitVec.toNat_inj, BitVec.toNat_umod]
  rfl

/-- A nap brings the timer's request a turn nearer. -/
theorem turnsLeft_nap (hopen : s.pic.TimerOpen) (hcount : 0 < s.pit.ch0.count.toNat)
    (hr : ¬ s.Rouses) :
    s.nap.pic.TimerOpen ∧ 0 < s.nap.pit.ch0.count.toNat ∧ s.nap.turnsLeft + 1 = s.turnsLeft := by
  have hmod := count_mod s
  unfold turnsLeft nap
  by_cases hc : s.countInst.instructionsExecuted % irqCheckInterval = 0
  · rw [if_pos hc]
    have hzero := (sampled_iff s).mp hc
    obtain ⟨-, hsame, hch0, hraised, hline⟩ := collectIrqs_spec s.countInst
    obtain ⟨hticked, -, hirq⟩ := Pit.tick_ch0 s.pit pitClocks
    have hclocks : pitClocks.toNat = 4 := rfl
    have hopen' := hraised.timerOpen hopen
    have hnot : ¬ (s.pit.tick pitClocks).irq0 = true := fun h => hr ⟨hc, by
      rw [Pic.hasPending, hopen'.nextIrq (hline h)]
      rfl⟩
    rw [hirq, hclocks, Bool.or_eq_true, decide_eq_true_eq] at hnot
    have hlate : 4 < s.pit.ch0.count.toNat := by
      by_contra hle
      exact hnot (.inr ⟨hcount, by omega⟩)
    have hleft : s.countInst.collectIrqs.pit.ch0.count.toNat = s.pit.ch0.count.toNat - 4 := by
      rw [hch0]
      refine hticked.trans ?_
      rw [hclocks, Pit.reloaded, if_neg (by omega), if_neg (by omega)]
    refine ⟨hopen', by omega, ?_⟩
    rw [hsame, hleft]
    omega
  · rw [if_neg hc]
    have hzero := mt (sampled_iff s).mpr hc
    have hpit : s.countInst.pit = s.pit := rfl
    refine ⟨hopen, hcount, ?_⟩
    rw [hpit]
    omega

/-- The timer rouses the machine, if nothing does before. -/
theorem rouses_of_timer : ∀ {n : Nat} {s : Cpu}, s.turnsLeft = n → s.pic.TimerOpen →
    0 < s.pit.ch0.count.toNat →
    ∃ k < n, (nap^[k] s).Rouses ∧ ∀ j < k, ¬ (nap^[j] s).Rouses
  | 0, s, hn, _, hcount => by
    unfold turnsLeft at hn
    omega
  | n + 1, s, hn, hopen, hcount => by
    by_cases hr : s.Rouses
    · exact ⟨0, Nat.succ_pos n, hr, fun j hj => absurd hj (Nat.not_lt_zero j)⟩
    · obtain ⟨hopen', hcount', hleft⟩ := turnsLeft_nap hopen hcount hr
      obtain ⟨k, hk, hrouses, hbefore⟩ := rouses_of_timer (n := n) (by omega) hopen' hcount'
      refine ⟨k + 1, Nat.succ_lt_succ hk, hrouses, fun j hj => ?_⟩
      cases j with
      | zero => exact hr
      | succ j => exact hbefore j (by omega)

theorem masked_nap (h : s.pic.masterImr = 0xFF) (hc : s.pic.cascadeIrq = 2) :
    ¬ s.Rouses ∧ s.nap.pic.masterImr = 0xFF ∧ s.nap.pic.cascadeIrq = 2 := by
  have hmasks := (collectIrqs_spec s.countInst).2.2.2.1.masks
  have himr : s.countInst.collectIrqs.pic.masterImr = 0xFF := hmasks.2.1.trans h
  have hcascade : s.countInst.collectIrqs.pic.cascadeIrq = 2 := hmasks.1.trans hc
  refine ⟨fun hr => ?_, ?_⟩
  · rw [Rouses, Pic.hasPending_of_masked himr hcascade] at hr
    exact absurd hr.2 Bool.false_ne_true
  · unfold nap
    split
    · exact ⟨himr, hcascade⟩
    · exact ⟨h, hc⟩

theorem never_rouses (h : s.pic.masterImr = 0xFF) (hc : s.pic.cascadeIrq = 2) (n : Nat) :
    ¬ (nap^[n] s).Rouses ∧ (nap^[n] s).pic.masterImr = 0xFF ∧ (nap^[n] s).pic.cascadeIrq = 2 := by
  induction n with
  | zero => exact ⟨(masked_nap h hc).1, h, hc⟩
  | succ n ih =>
    rw [Function.iterate_succ_apply']
    obtain ⟨-, himr, hcascade⟩ := masked_nap ih.2.1 ih.2.2
    exact ⟨(masked_nap himr hcascade).1, himr, hcascade⟩

/-- What becomes of a halted machine that an interrupt can wake. -/
structure SleepsUntilRoused (decode : Exec Inst) (s : Cpu) : Prop where
  /-- It sleeps on, the processor as it was, until a sampling finds something to deliver. -/
  sleeps : ∀ n, (∀ k < n, ¬ (nap^[k] s).Rouses) →
    ∃ t, runFor decode n s = some t ∧ t.halted = true ∧ SleptTo s t
  /-- There it wakes. -/
  wakes : ∀ n, (∀ k < n, ¬ (nap^[k] s).Rouses) → (nap^[n] s).Rouses →
    ∃ t, runFor decode (n + 1) s = some t ∧ t.halted = false
  /-- With every line masked that never comes. -/
  masked : s.pic.masterImr = 0xFF → s.pic.cascadeIrq = 2 →
    ∀ n, ∃ t, runFor decode n s = some t ∧ t.halted = true ∧ SleptTo s t
  /-- With the timer counting and its line open it comes within the clocks the timer has left. -/
  timer : s.pic.TimerOpen → 0 < s.pit.ch0.count.toNat →
    ∃ n ≤ s.turnsLeft, (∃ t, runFor decode n s = some t ∧ t.halted = false) ∧
      ∀ k < n, ∃ t, runFor decode k s = some t ∧ t.halted = true ∧ SleptTo s t

/-- A halted machine with interrupts on sleeps until its devices ask for it, and wakes then. -/
theorem halted_wakes (decode : Exec Inst) (h : s.Asleep) : SleepsUntilRoused decode s := by
  have hsleeps (n : Nat) (hquiet : ∀ k < n, ¬ (nap^[k] s).Rouses) :
      ∃ t, runFor decode n s = some t ∧ t.halted = true ∧ SleptTo s t :=
    ⟨_, runFor_asleep decode h hquiet, ((nap_iterate n s).asleep h).halted, nap_iterate n s⟩
  have hwakes (n : Nat) (hquiet : ∀ k < n, ¬ (nap^[k] s).Rouses) (hr : (nap^[n] s).Rouses) :
      ∃ t, runFor decode (n + 1) s = some t ∧ t.halted = false := by
    obtain ⟨t, ht, hawake⟩ := (turn_asleep decode ((nap_iterate n s).asleep h)).2 hr
    refine ⟨t, ?_, hawake⟩
    rw [runFor_add, runFor_asleep decode h hquiet, Option.bind_some, runFor, ht]
    rfl
  refine ⟨hsleeps, hwakes, fun himr hc n => hsleeps n fun k _ => (never_rouses himr hc k).1,
    fun hopen hcount => ?_⟩
  obtain ⟨n, hn, hr, hquiet⟩ := rouses_of_timer rfl hopen hcount
  exact ⟨n + 1, hn, hwakes n hquiet hr, fun k hk => hsleeps k fun j hj => hquiet j (by omega)⟩

/-- A halted machine whose timer has eight clocks left. -/
def dozing : Cpu :=
  let s := Cpu.withRam (2 ^ 20) Memory.mib_le 0
  { s with
    halted := true
    flags := s.flags ||| Flags.if'
    pit := { s.pit with ch0 := s.pit.ch0.load 8 } }

/-- It is awake after at most 128 turns. -/
theorem dozing_wakes :
    ∃ n ≤ 128, ∃ t, runFor (pure .hlt) n dozing = some t ∧ t.halted = false := by
  obtain ⟨n, hn, hwoken, -⟩ := (halted_wakes (pure .hlt) (s := dozing)
    ⟨rfl, rfl, by decide⟩).timer ⟨rfl, by decide, by decide⟩ (by decide)
  exact ⟨n, hn, hwoken⟩

end Cpu
end X86Emu
