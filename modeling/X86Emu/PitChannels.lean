import X86Emu.Port
import X86Emu.Lib.StateRules

/-!
# Programming the interval timer

Runs of control words and data accesses on ports 0x40 to 0x43. Data bytes go to the channel of the
last control word and each channel's byte flip-flop is shared by reads and writes, so a driver gets
the count it wrote only under a discipline, stated here.
-/
namespace X86Emu

namespace PitChannels

open StateRules

/-- A channel and its data port. -/
inductive Channel where
  | ch0
  | ch1
  | ch2
  deriving DecidableEq, Repr

namespace Channel

def port : Channel → U16
  | ch0 => 0x40
  | ch1 => 0x41
  | ch2 => 0x42

/-- The channel's number in a control word. -/
def code : Channel → U8
  | ch0 => 0
  | ch1 => 1
  | ch2 => 2

def regs : Channel → Pit → PitChannel
  | ch0, p => p.ch0
  | ch1, p => p.ch1
  | ch2, p => p.ch2

/-- The other fields that belong to a channel: BCD of the first, gate and output of the third. -/
def lines : Channel → Pit → Bool × Bool
  | ch0, p => (p.ch0Bcd, false)
  | ch1, _ => (false, false)
  | ch2, p => (p.ch2Gate, p.ch2Out)

end Channel

inductive Op where
  | control (v : U8)
  | write (k : Channel) (v : U8)
  | read (k : Channel)

def step (s : Cpu) : Op → Cpu
  | .control v => (portOut 0x43 v s).2
  | .write k v => (portOut k.port v s).2
  | .read k => (portIn k.port s).2

def run (s : Cpu) (ops : List Op) : Cpu := ops.foldl step s

/-- The virtio window, which the guest places, is elsewhere. -/
def WindowClear (s : Cpu) : Prop :=
  s.virtioPort 0x43 = none ∧ ∀ k : Channel, s.virtioPort k.port = none

/-- The channel a control word selects; 3 is the read-back command. -/
def selects (v : U8) : U8 := (v >>> 6) &&& 3

def wordAccess (v : U8) : Prop := (v >>> 4) &&& 3 = 3

/-- An access to another channel: its data port, or a control word that does not select `k`. -/
def elsewhere (k : Channel) : Op → Prop
  | .control v => selects v ≠ k.code
  | .write j _ => j ≠ k
  | .read j => j ≠ k

/-! ## One access -/

section Step

variable {s : Cpu}

theorem step_control (h : WindowClear s) (v : U8) :
    step s (.control v) = { s with pit := s.pit.writeControl v } := by
  have hrun : portOut 0x43 v s = ((), deviceOut 0x43 v s) := by
    rw [portOut, bind_run, get_run, h.1]
    rfl
  rw [step, hrun]
  rfl

theorem step_write (h : WindowClear s) (k : Channel) (v : U8) :
    step s (.write k v) = { s with pit := s.pit.writeData v } := by
  have hrun : portOut k.port v s = ((), deviceOut k.port v s) := by
    rw [portOut, bind_run, get_run, h.2 k]
    cases k <;> rfl
  rw [step, hrun]
  cases k <;> rfl

theorem step_read (h : WindowClear s) (k : Channel) :
    step s (.read k) = { s with pit := (s.pit.readData k.code).2 } := by
  have hrun : portIn k.port s = deviceIn k.port s := by
    rw [portIn, bind_run, get_run, h.2 k]
    cases k <;> rfl
  rw [step, hrun]
  cases k <;> rfl

theorem windowClear_pit (h : WindowClear s) (p : Pit) : WindowClear { s with pit := p } := h

theorem windowClear_step (h : WindowClear s) (op : Op) : WindowClear (step s op) := by
  cases op with
  | control v =>
    rw [step_control h]
    exact windowClear_pit h _
  | write k v =>
    rw [step_write h]
    exact windowClear_pit h _
  | read k =>
    rw [step_read h]
    exact windowClear_pit h _

theorem windowClear_run (h : WindowClear s) (ops : List Op) : WindowClear (run s ops) := by
  induction ops generalizing s with
  | nil => exact h
  | cons op ops ih => exact ih (windowClear_step h op)

end Step

section Registers

variable (p : Pit)

theorem writeData_active {k : Channel} (h : p.activeChannel = k.code) (v : U8) :
    k.regs (p.writeData v) = (k.regs p |>.write v).1 ∧
    ∀ j, j ≠ k → j.regs (p.writeData v) = j.regs p ∧ j.lines (p.writeData v) = j.lines p := by
  unfold Pit.writeData
  rw [h]
  cases k <;>
  · refine ⟨rfl, ?_⟩
    intro j hj
    cases j <;> first | exact absurd rfl hj | exact ⟨rfl, rfl⟩

theorem readData_regs (k : Channel) : ∀ j, j ≠ k →
    j.regs (p.readData k.code).2 = j.regs p ∧ j.lines (p.readData k.code).2 = j.lines p := by
  intro j hj
  cases k <;> cases j <;> first | exact absurd rfl hj | exact ⟨rfl, rfl⟩

theorem selects_cases (v : U8) : selects v = 0 ∨ selects v = 1 ∨ selects v = 2 ∨ selects v = 3 := by
  have hle : (selects v).toNat ≤ 3 := by
    rw [selects, BitVec.toNat_and]
    exact Nat.and_le_right
  have heq (c : U8) (h : (selects v).toNat = c.toNat) : selects v = c := BitVec.eq_of_toNat_eq h
  have hcases : (selects v).toNat = 0 ∨ (selects v).toNat = 1 ∨ (selects v).toNat = 2 ∨
      (selects v).toNat = 3 := by omega
  rcases hcases with h | h | h | h
  · exact .inl (heq 0 h)
  · exact .inr (.inl (heq 1 h))
  · exact .inr (.inr (.inl (heq 2 h)))
  · exact .inr (.inr (.inr (heq 3 h)))

/-- A control word changes the mode and the access of the channel it selects. -/
theorem writeControl_regs (v : U8) (k : Channel) :
    (selects v = k.code → k.regs (p.writeControl v) =
        { k.regs p with mode := (v >>> 1) &&& 7, access := (v >>> 4) &&& 3 }) ∧
    (selects v ≠ k.code → k.regs (p.writeControl v) = k.regs p) := by
  have hc := selects_cases v
  unfold selects at hc ⊢
  unfold Pit.writeControl
  rcases hc with h | h | h | h <;> rw [h] <;> cases k <;>
    exact ⟨fun h => by first | rfl | exact absurd h (by decide),
      fun h => by first | rfl | exact absurd rfl h⟩

end Registers

/-! ## Runs -/

/-- The discipline: data bytes are written to the channel of the last control word, a word-access
control word finds its channel's byte flip-flop clear, and the ports reach the timer. -/
structure Orderly (s : Cpu) (ops : List Op) : Prop where
  window : WindowClear s
  routed : ∀ pre k v post, ops = pre ++ .write k v :: post →
    (run s pre).pit.activeChannel = k.code
  settled : ∀ pre v post (k : Channel), ops = pre ++ .control v :: post → selects v = k.code →
    wordAccess v → (k.regs (run s pre).pit).lsbPending = false

/-- A data access touches its own channel only, and a channel programmed with two bytes holds
them. -/
structure Independent (s : Cpu) (ops : List Op) : Prop where
  others : ∀ pre op post (k : Channel), ops = pre ++ op :: post →
    (op = .read k ∨ ∃ v, op = .write k v) → ∀ j, j ≠ k →
    j.regs (run s (pre ++ [op])).pit = j.regs (run s pre).pit ∧
      j.lines (run s (pre ++ [op])).pit = j.lines (run s pre).pit
  programmed : ∀ pre v between lo between' hi post (k : Channel),
    ops = pre ++ .control v :: (between ++ .write k lo :: (between' ++ .write k hi :: post)) →
    selects v = k.code → wordAccess v → (∀ op ∈ between ++ between', elsewhere k op) →
    (k.regs (run s (pre ++ .control v ::
      (between ++ .write k lo :: (between' ++ [.write k hi])))).pit).reload = u16 lo ||| u16 hi <<< 8

section Runs

variable {s : Cpu} {ops : List Op}

theorem run_append (pre post : List Op) : run s (pre ++ post) = run (run s pre) post :=
  List.foldl_append ..

theorem Orderly.drop {pre post : List Op} (h : Orderly s (pre ++ post)) :
    Orderly (run s pre) post where
  window := windowClear_run h.window pre
  routed := by
    intro p k v q he
    rw [← run_append]
    exact h.routed (pre ++ p) k v q (by rw [he, List.append_assoc])
  settled := by
    intro p v q k he
    rw [← run_append]
    exact h.settled (pre ++ p) v q k (by rw [he, List.append_assoc])

theorem Orderly.nil (h : WindowClear s) : Orderly s [] where
  window := h
  routed := by
    intro pre k v post heq
    cases pre <;> cases heq
  settled := by
    intro pre v post k heq
    cases pre <;> cases heq

/-- One more access in front of an orderly run. -/
theorem Orderly.cons {op : Op} (hw : WindowClear s) (h : Orderly (step s op) ops)
    (hr : ∀ k v, op = .write k v → s.pit.activeChannel = k.code)
    (hs : ∀ v (k : Channel), op = .control v → selects v = k.code → wordAccess v →
      (k.regs s.pit).lsbPending = false) : Orderly s (op :: ops) where
  window := hw
  routed := by
    intro pre k v post heq
    cases pre with
    | nil => exact hr k v (List.cons.inj heq).1
    | cons o pre =>
      obtain ⟨rfl, ht⟩ := List.cons.inj heq
      exact h.routed pre k v post ht
  settled := by
    intro pre v post k heq
    cases pre with
    | nil => exact hs v k (List.cons.inj heq).1
    | cons o pre =>
      obtain ⟨rfl, ht⟩ := List.cons.inj heq
      exact h.settled pre v post k ht

theorem Orderly.tail {op : Op} (h : Orderly s (op :: ops)) : Orderly (step s op) ops :=
  Orderly.drop (show Orderly s ([op] ++ ops) from h)

/-- Accesses to other channels leave a channel's registers alone. -/
theorem regs_elsewhere {k : Channel} {op : Op} (h : Orderly s (op :: ops)) (he : elsewhere k op) :
    k.regs (step s op).pit = k.regs s.pit := by
  cases op with
  | control v =>
    rw [step_control h.window]
    exact (writeControl_regs s.pit v k).2 he
  | write j v =>
    rw [step_write h.window]
    exact ((writeData_active s.pit (h.routed [] j v ops rfl) v).2 k (Ne.symm he)).1
  | read j =>
    rw [step_read h.window]
    exact (readData_regs s.pit j k (Ne.symm he)).1

theorem regs_between {k : Channel} (between : List Op) {post : List Op}
    (h : Orderly s (between ++ post)) (he : ∀ op ∈ between, elsewhere k op) :
    k.regs (run s between).pit = k.regs s.pit := by
  induction between generalizing s with
  | nil => rfl
  | cons op between ih =>
    have hstep := regs_elsewhere h (he op List.mem_cons_self)
    exact (ih h.tail (fun o ho => he o (List.mem_cons_of_mem _ ho))).trans hstep

/-- A byte for the channel the last control word selected. -/
theorem regs_write {k : Channel} {v : U8} (h : Orderly s (.write k v :: ops)) :
    k.regs (step s (.write k v)).pit = ((k.regs s.pit).write v).1 := by
  rw [step_write h.window]
  exact (writeData_active s.pit (h.routed [] k v ops rfl) v).1

/-- The low byte waits for the high one. -/
theorem write_low {c : PitChannel} (ha : c.access = 3) (hp : c.lsbPending = false) (lo : U8) :
    (c.write lo).1 = { c with lsb := lo, lsbPending := true } := by
  rw [PitChannel.write, if_neg (by rw [ha]; decide), if_neg (by rw [ha]; decide),
    if_neg (Bool.eq_false_iff.mp hp)]

theorem write_high {c : PitChannel} (ha : c.access = 3) (hp : c.lsbPending = true) (hi : U8) :
    (c.write hi).1.reload = u16 c.lsb ||| u16 hi <<< 8 := by
  rw [PitChannel.write, if_neg (by rw [ha]; decide), if_neg (by rw [ha]; decide), if_pos hp]
  rfl

/-- In every orderly run the channels are independent and hold what was written to them. -/
theorem independent_of_orderly (h : Orderly s ops) : Independent s ops where
  others := by
    intro pre op post k heq hop j hj
    have hd : Orderly (run s pre) (op :: post) := (heq ▸ h).drop
    rw [run_append]
    rcases hop with rfl | ⟨v, rfl⟩
    · have hs := step_read hd.window k
      have hr := readData_regs (run s pre).pit k j hj
      exact ⟨(congrArg (fun t : Cpu => j.regs t.pit) hs).trans hr.1,
        (congrArg (fun t : Cpu => j.lines t.pit) hs).trans hr.2⟩
    · have hs := step_write hd.window k v
      have hw := (writeData_active (run s pre).pit (hd.routed [] k v post rfl) v).2 j hj
      exact ⟨(congrArg (fun t : Cpu => j.regs t.pit) hs).trans hw.1,
        (congrArg (fun t : Cpu => j.lines t.pit) hs).trans hw.2⟩
  programmed := by
    intro pre v between lo between' hi post k heq hsel hword helse
    have hctl : Orderly (run s pre) (.control v :: (between ++ .write k lo ::
        (between' ++ .write k hi :: post))) := (heq ▸ h).drop
    have hpend := hctl.settled [] v _ k rfl hsel hword
    -- after the control word the channel takes whole words and its flip-flop is clear
    have h0 : k.regs (step (run s pre) (.control v)).pit =
        { k.regs (run s pre).pit with mode := (v >>> 1) &&& 7, access := 3 } := by
      rw [step_control hctl.window, ← hword]
      exact (writeControl_regs (run s pre).pit v k).1 hsel
    have hd1 := hctl.tail
    have h1 := regs_between between hd1 (fun op ho => helse op (List.mem_append_left _ ho))
    have hd2 := hd1.drop
    have h2 := regs_write hd2
    have hlow := write_low (c := { k.regs (run s pre).pit with
      mode := (v >>> 1) &&& 7, access := 3 }) rfl hpend lo
    rw [h1, h0, hlow] at h2
    have hd3 := hd2.tail
    have h3 := regs_between between' hd3 (fun op ho => helse op (List.mem_append_right _ ho))
    have hd4 := hd3.drop
    have h4 := regs_write hd4
    rw [h3, h2] at h4
    have hrun : run s (pre ++ .control v :: (between ++ .write k lo :: (between' ++ [.write k hi])))
        = step (run (step (run (step (run s pre) (.control v)) between) (.write k lo)) between')
          (.write k hi) := by
      rw [run_append]
      change run (step (run s pre) (.control v)) _ = _
      rw [run_append]
      change run (step _ (.write k lo)) _ = _
      rw [run_append]
      rfl
    rw [hrun, h4]
    exact write_high rfl rfl hi

end Runs

/-! ## A count that is not taken -/

/-- A driver programs channel 0, whose flip-flop a read has left set. -/
def interruptedRun : List Op :=
  [.control 0x36, .read .ch0, .control 0x36, .write .ch0 0x34, .write .ch0 0x12]

/-- The count written is 0x1234; the channel reloads 0x3400. -/
theorem interrupted_count_lost :
    ¬ ∀ (s : Cpu) (ops : List Op), WindowClear s → Independent s ops := by
  intro h
  have hw : WindowClear (Cpu.withRam (2 ^ 20) (by decide) 0) :=
    ⟨rfl, fun k => by cases k <;> rfl⟩
  have hp := (h _ interruptedRun hw).programmed [.control 0x36, .read .ch0] 0x36 [] 0x34 [] 0x12 []
    .ch0 rfl rfl rfl (by simp)
  exact absurd hp (by decide +kernel)

theorem independent_word :
    Independent (Cpu.withRam (2 ^ 20) (by decide) 0)
      [.control 0x36, .write .ch0 0x34, .write .ch0 0x12] := by
  apply independent_of_orderly
  have hw : WindowClear (Cpu.withRam (2 ^ 20) (by decide) 0) :=
    ⟨rfl, fun k => by cases k <;> rfl⟩
  have hw1 := windowClear_step hw (.control 0x36)
  have hw2 := windowClear_step hw1 (.write .ch0 0x34)
  have hw3 := windowClear_step hw2 (.write .ch0 0x12)
  have hroute (t : Cpu) (ht : t.pit.activeChannel = 0) (lo : U8) (k : Channel) (v : U8)
      (he : Op.write .ch0 lo = .write k v) : t.pit.activeChannel = k.code := by
    cases he
    exact ht
  refine .cons hw (.cons hw1 (.cons hw2 (.nil hw3) ?_ ?_) ?_ ?_) ?_ ?_
  · exact hroute _ (by decide +kernel) 0x12
  · intro v k he
    cases he
  · exact hroute _ (by decide +kernel) 0x34
  · intro v k he
    cases he
  · intro k v he
    cases he
  · intro v k he hsel _
    cases k <;> rfl

end PitChannels
end X86Emu
