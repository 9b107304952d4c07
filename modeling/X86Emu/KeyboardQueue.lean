import X86Emu.Deliver

/-!
# The keyboard's queue

Runs of the 8042: accesses to its two ports, keys from the host, samplings by the interrupt
controller. What a controller should hold follows from the run alone. Bytes leave in the order they
were queued, each write is taken for what the writes before it make it, and no keyboard byte waits
at the head without its interrupt.
-/
namespace X86Emu

namespace Kbd

inductive Op where
  | command (v : U8)
  | data (v : U8)
  | readData
  | readStatus
  | scancode (v : U8)
  | sample

/-- The sampler takes the edge and hands it to the interrupt controller. -/
def sample (k : Kbd) : Kbd := { k with irq1 := false }

def step (k : Kbd) : Op → Kbd
  | .command v => k.writeCommand v
  | .data v => k.writeData v
  | .readData => k.readData.2
  | .readStatus => k
  | .scancode v => k.pushScancode v
  | .sample => k.sample

def run (k : Kbd) (ops : List Op) : Kbd := ops.foldl step k

theorem run_cons (k : Kbd) (op : Op) (ops : List Op) : k.run (op :: ops) = (k.step op).run ops := rfl

/-! ## What is queued -/

/-- The answer to a controller command. -/
def commandReply (ctr cmd : U8) : List U8 :=
  if cmd = 0x20 then [ctr]
  else if 0x21 ≤ cmd ∧ cmd ≤ 0x3F then [0]
  else if cmd = 0xA9 then [0xFF]
  else if cmd = 0xAA then [0x55]
  else if cmd = 0xAB ∨ cmd = 0xC0 then [0]
  else if cmd = 0xD0 then [2]
  else []

/-- What the argument of a controller command echoes. -/
def argumentReply (cmd v : U8) : List (U8 × Bool) :=
  if cmd = 0xD2 then [(v, false)] else if cmd = 0xD3 then [(v, true)] else []

/-- The keyboard's answer to a command, and to the argument of one. -/
def deviceReply (v : U8) : List U8 :=
  if v = 0xFF then [ack, 0xAA]
  else if v = 0xEE then [0xEE]
  else if v = 0xF2 then [ack, 0xAB, 0x83]
  else [ack]

def deviceArgumentReply (cmd v : U8) : List U8 := if cmd = 0xF0 ∧ v = 0 then [ack, 2] else [ack]

def fromKeyboard (l : List U8) : List (U8 × Bool) := l.map fun b => (b, false)

/-- The bytes that reads of a queue with something in it return. -/
def readNow (k : Kbd) : Op → List U8
  | .readData => if k.out.isEmpty then [] else [k.readData.1]
  | _ => []

def readBy (k : Kbd) : List Op → List U8
  | [] => []
  | op :: ops => k.readNow op ++ (k.step op).readBy ops

/-! ## What a write means -/

/-- Commands that take an argument: of the controller, and of the keyboard. -/
def takesArgument (cmd : U8) : Bool := (0x60 ≤ cmd && cmd ≤ 0x7F) || (0xD1 ≤ cmd && cmd ≤ 0xD4)
def deviceTakesArgument (v : U8) : Bool := v == 0xED || v == 0xF0 || v == 0xF3

/-- The command byte after a command that is not one to write it: A7h and A8h close and open the
auxiliary port, ADh and AEh the keyboard's, and the self test AAh marks the system as up. -/
def commandByte (ctr cmd : U8) : U8 :=
  if cmd = 0xA7 then ctr ||| 0x20
  else if cmd = 0xA8 then ctr &&& 0xDF
  else if cmd = 0xAA then ctr ||| 0x04
  else if cmd = 0xAD then ctr ||| 0x10
  else if cmd = 0xAE then ctr &&& 0xEF
  else ctr

/-- Whether the keyboard scans after a command: F4h turns it on and F5h off. -/
def scansAfter (v : U8) (on : Bool) : Bool := if v = 0xF4 then true else if v = 0xF5 then false else on

/-- What a step leaves of the bytes that wait. -/
def unread (l : List (U8 × Bool)) : Op → List (U8 × Bool)
  | .readData => l.tail
  | _ => l

/-- What a run should have left in the controller: the commands that wait for an argument, the
command byte, whether the keyboard scans, and the bytes queued and not yet read. -/
structure Expected where
  ctl : Option U8 := none
  dev : Option U8 := none
  ctr : U8 := 0x65
  scanning : Bool := true
  waiting : List (U8 × Bool) := []

namespace Expected

/-- What a write to the command port, or to the data port, sets. -/
def written (e : Expected) : Op → Expected
  | .command v =>
    if takesArgument v then { e with ctl := some v } else { e with ctr := commandByte e.ctr v }
  | .data v =>
    match e.ctl, e.dev with
    | some cmd, _ => { e with ctl := none, ctr := if cmd = 0x60 then v else e.ctr }
    | none, some _ => { e with dev := none }
    | none, none =>
      { e with
        dev := if deviceTakesArgument v then some v else none
        scanning := scansAfter v e.scanning }
  | _ => e

/-- The bytes a step queues. -/
def queued (e : Expected) : Op → List (U8 × Bool)
  | .command v => fromKeyboard (commandReply e.ctr v)
  | .data v =>
    match e.ctl, e.dev with
    | some cmd, _ => argumentReply cmd v
    | none, some cmd => fromKeyboard (deviceArgumentReply cmd v)
    | none, none => fromKeyboard (deviceReply v)
  | .scancode v => if e.scanning then [(v, false)] else []
  | _ => []

/-- A read takes the head; every step appends what it queues. -/
def next (e : Expected) (op : Op) : Expected :=
  { e.written op with
    waiting := unread e.waiting op ++ e.queued op }

def queuedBy (e : Expected) : List Op → List (U8 × Bool)
  | [] => []
  | op :: ops => e.queued op ++ (e.next op).queuedBy ops

/-- A keyboard byte is at the head and its interrupt is enabled. -/
def due (e : Expected) : Bool :=
  match e.waiting with
  | (_, aux) :: _ => !aux && e.ctr.getLsbD 0
  | [] => false

end Expected

def expected (ops : List Op) : Expected := ops.foldl Expected.next {}

/-! ## The interrupt -/

/-- A run, with whether IRQ1 was raised at a sampling since the byte at the head became due. -/
structure Watched where
  kbd : Kbd := {}
  exp : Expected := {}
  raised : Bool := false

def Watched.step (w : Watched) (op : Op) : Watched where
  kbd := w.kbd.step op
  exp := w.exp.next op
  raised :=
    match op with
    | .sample => w.exp.due && (w.raised || w.kbd.irq1)
    | .readData => false
    | _ => w.exp.due && (w.exp.next op).due && w.raised

def watched (ops : List Op) : Watched := ops.foldl Watched.step {}

/-! ## One step -/

section Steps

variable (k : Kbd)

/-- The byte at the head is due, as the controller has it. -/
def due : Bool := k.frontIs false && test k.ctr ctrKbdInt

@[simp] theorem refreshIrq_out : k.refreshIrq.out = k.out := rfl
@[simp] theorem refreshIrq_ctr : k.refreshIrq.ctr = k.ctr := rfl
@[simp] theorem refreshIrq_due : k.refreshIrq.due = k.due := rfl
@[simp] theorem refreshIrq_irq1 : k.refreshIrq.irq1 = k.due := rfl
@[simp] theorem reply_out (b : U8) : (k.reply b).out = k.out ++ [(b, false)] := rfl
@[simp] theorem replyAux_out (b : U8) : (k.replyAux b).out = k.out ++ [(b, true)] := rfl
@[simp] theorem reply_pending (b : U8) : (k.reply b).pending = k.pending := rfl
@[simp] theorem reply_devPending (b : U8) : (k.reply b).devPending = k.devPending := rfl

theorem commandReply_of_takesArgument (ctr : U8) {v : U8} (h : takesArgument v = true) :
    commandReply ctr v = [] := by
  have h0 : ∀ v : U8, takesArgument v = true → v ≠ 0x20 ∧ commandReply 0 v = [] := by decide
  rw [← (h0 v h).2, commandReply, commandReply, if_neg (h0 v h).1, if_neg (h0 v h).1]

theorem takesArgument_iff (v : U8) :
    takesArgument v = true ↔ (0x60 ≤ v ∧ v ≤ 0x7F) ∨ (0xD1 ≤ v ∧ v ≤ 0xD4) := by
  simp [takesArgument]

/-- No command but 60h changes the interrupt bit. -/
theorem commandByte_int (c v : U8) : test (commandByte c v) ctrKbdInt = test c ctrKbdInt := by
  have hor (m : U8) (hm : m = 0x20 ∨ m = 0x04 ∨ m = 0x10) (c : U8) :
      test (c ||| m) ctrKbdInt = test c ctrKbdInt := by
    rcases hm with rfl | rfl | rfl <;> · revert c; decide
  have hand (m : U8) (hm : m = 0xDF ∨ m = 0xEF) (c : U8) :
      test (c &&& m) ctrKbdInt = test c ctrKbdInt := by
    rcases hm with rfl | rfl <;> · revert c; decide
  unfold commandByte
  split
  · exact hor _ (.inl rfl) c
  split
  · exact hand _ (.inl rfl) c
  split
  · exact hor _ (.inr (.inl rfl)) c
  split
  · exact hor _ (.inr (.inr rfl)) c
  split
  · exact hand _ (.inr rfl) c
  · rfl

/-- What a controller command does: it queues its answer, or waits for its argument, or changes the
command byte. -/
inductive CommandDoes (k : Kbd) (v : U8) : Kbd → Prop
  | answer (b : U8) (hr : commandReply k.ctr v = [b]) (ht : takesArgument v = false) :
      CommandDoes k v ({ k with cmdWritten := true, ctr := commandByte k.ctr v }.reply b)
  | wait (ht : takesArgument v = true) :
      CommandDoes k v { k with cmdWritten := true, pending := some v }
  | set (hr : commandReply k.ctr v = []) (ht : takesArgument v = false) :
      CommandDoes k v { k with cmdWritten := true, ctr := commandByte k.ctr v }

theorem commandDoes (v : U8) : CommandDoes k v (k.writeCommand v) := by
  unfold writeCommand
  dsimp only
  by_cases h20 : v = 0x20
  · subst h20
    exact .answer k.ctr rfl rfl
  rw [if_neg h20]
  by_cases h21 : 0x21 ≤ v ∧ v ≤ 0x3F
  · have ht : ∀ v : U8, 0x21 ≤ v ∧ v ≤ 0x3F → takesArgument v = false := by decide
    have hctr : ∀ v : U8, 0x21 ≤ v ∧ v ≤ 0x3F →
        v ≠ 0xA7 ∧ v ≠ 0xA8 ∧ v ≠ 0xAA ∧ v ≠ 0xAD ∧ v ≠ 0xAE := by decide
    obtain ⟨h7, h8, hA, hD, hE⟩ := hctr v h21
    have hsame : commandByte k.ctr v = k.ctr := by
      rw [commandByte, if_neg h7, if_neg h8, if_neg hA, if_neg hD, if_neg hE]
    have hdone := CommandDoes.answer (k := k) 0
      (by rw [commandReply, if_neg h20, if_pos h21]) (ht v h21)
    rw [if_pos h21]
    rwa [hsame] at hdone
  rw [if_neg h21]
  by_cases h60 : 0x60 ≤ v ∧ v ≤ 0x7F
  · rw [if_pos h60]
    exact .wait ((takesArgument_iff v).mpr (.inl h60))
  rw [if_neg h60]
  by_cases hA7 : v = 0xA7
  · subst hA7
    exact .set rfl rfl
  rw [if_neg hA7]
  by_cases hA8 : v = 0xA8
  · subst hA8
    exact .set rfl rfl
  rw [if_neg hA8]
  by_cases hA9 : v = 0xA9
  · subst hA9
    exact .answer 0xFF rfl rfl
  rw [if_neg hA9]
  by_cases hAA : v = 0xAA
  · subst hAA
    exact .answer 0x55 rfl rfl
  rw [if_neg hAA]
  by_cases hAB : v = 0xAB
  · subst hAB
    exact .answer 0 rfl rfl
  rw [if_neg hAB]
  by_cases hAD : v = 0xAD
  · subst hAD
    exact .set rfl rfl
  rw [if_neg hAD]
  by_cases hAE : v = 0xAE
  · subst hAE
    exact .set rfl rfl
  rw [if_neg hAE]
  by_cases hC0 : v = 0xC0
  · subst hC0
    exact .answer 0 rfl rfl
  rw [if_neg hC0]
  by_cases hD0 : v = 0xD0
  · subst hD0
    exact .answer 2 rfl rfl
  rw [if_neg hD0]
  by_cases hD1 : 0xD1 ≤ v ∧ v ≤ 0xD4
  · rw [if_pos hD1]
    exact .wait ((takesArgument_iff v).mpr (.inr hD1))
  rw [if_neg hD1]
  have ht : takesArgument v = false :=
    Bool.eq_false_iff.mpr fun h => ((takesArgument_iff v).mp h).elim h60 hD1
  have hsame : commandByte k.ctr v = k.ctr := by
    rw [commandByte, if_neg hA7, if_neg hA8, if_neg hAA, if_neg hAD, if_neg hAE]
  have hdone := CommandDoes.set (k := k) (v := v) (by
    rw [commandReply, if_neg h20, if_neg h21, if_neg hA9, if_neg hAA,
      if_neg (not_or.mpr ⟨hAB, hC0⟩), if_neg hD0]) ht
  rwa [hsame] at hdone

theorem command_out (v : U8) :
    (k.writeCommand v).out = k.out ++ fromKeyboard (commandReply k.ctr v) := by
  have hdoes := k.commandDoes v
  generalize k.writeCommand v = t at hdoes ⊢
  cases hdoes with
  | answer b hr ht =>
    rw [hr]
    rfl
  | wait ht =>
    rw [commandReply_of_takesArgument k.ctr ht]
    exact (List.append_nil _).symm
  | set hr ht =>
    rw [hr]
    exact (List.append_nil _).symm

/-- A run of answers. -/
def replies (l : List U8) : Kbd := l.foldl reply k

theorem replies_out (l : List U8) : (k.replies l).out = k.out ++ fromKeyboard l := by
  induction l generalizing k with
  | nil => exact (List.append_nil _).symm
  | cons b l ih =>
    have hstep : k.replies (b :: l) = (k.reply b).replies l := rfl
    rw [hstep, ih, reply_out, List.append_assoc]
    rfl

/-- What a keyboard command does before it answers: it turns scanning on or off, or waits. -/
theorem deviceCommand_does (v : U8) : ∃ driver,
    k.deviceCommand v =
      { k with
        scanning := scansAfter v k.scanning
        driverAttached := driver
        devPending := if deviceTakesArgument v then some v else k.devPending }.replies
          (deviceReply v) := by
  unfold deviceCommand deviceReply
  by_cases hFF : v = 0xFF
  · subst hFF
    exact ⟨_, rfl⟩
  rw [if_neg hFF, if_neg hFF]
  by_cases hEE : v = 0xEE
  · subst hEE
    exact ⟨_, rfl⟩
  rw [if_neg hEE, if_neg hEE]
  by_cases hF2 : v = 0xF2
  · subst hF2
    exact ⟨_, rfl⟩
  rw [if_neg hF2, if_neg hF2]
  by_cases hF4 : v = 0xF4
  · subst hF4
    exact ⟨_, rfl⟩
  rw [if_neg hF4]
  by_cases hF5 : v = 0xF5
  · subst hF5
    exact ⟨_, rfl⟩
  rw [if_neg hF5, scansAfter, if_neg hF4, if_neg hF5]
  by_cases hwait : v = 0xED ∨ v = 0xF0 ∨ v = 0xF3
  · have ht : deviceTakesArgument v = true := by
      rcases hwait with rfl | rfl | rfl <;> rfl
    rw [if_pos hwait, ht]
    exact ⟨_, rfl⟩
  · have ht : deviceTakesArgument v = false := by
      simpa [deviceTakesArgument, not_or, and_assoc] using hwait
    rw [if_neg hwait, ht]
    exact ⟨_, rfl⟩

/-- The controller but for its queue and its interrupt. -/
def latches : Option U8 × Option U8 × U8 × Bool := (k.pending, k.devPending, k.ctr, k.scanning)

theorem replies_latches (l : List U8) : (k.replies l).latches = k.latches := by
  induction l generalizing k with
  | nil => rfl
  | cons b l ih => exact ih (k.reply b)

theorem deviceArgument_eq (cmd v : U8) :
    (if cmd = 0xF0 then if v = 0 then (k.reply ack).reply 0x02 else k.reply ack else k.reply ack) =
      k.replies (deviceArgumentReply cmd v) := by
  unfold deviceArgumentReply
  by_cases hF0 : cmd = 0xF0
  · by_cases h0 : v = 0
    · rw [if_pos hF0, if_pos h0, if_pos ⟨hF0, h0⟩]
      rfl
    · rw [if_pos hF0, if_neg h0, if_neg fun h => h0 h.2]
      rfl
  · rw [if_neg hF0, if_neg fun h => hF0 h.1]
    rfl

/-- What a byte written to the data port does, by the latches. -/
inductive DataDoes (k : Kbd) (v : U8) : Kbd → Prop
  | argument (cmd : U8) (hp : k.pending = some cmd) :
      DataDoes k v ({ k with cmdWritten := false, pending := none }.controllerArgument cmd v)
  | deviceArgument (cmd : U8) (hp : k.pending = none) (hd : k.devPending = some cmd) :
      DataDoes k v
        ({ k with cmdWritten := false, devPending := none }.replies (deviceArgumentReply cmd v))
  | device (driver : Bool) (hp : k.pending = none) (hd : k.devPending = none) :
      DataDoes k v
        ({ k with
          cmdWritten := false
          scanning := scansAfter v k.scanning
          driverAttached := driver
          devPending := if deviceTakesArgument v then some v else none }.replies (deviceReply v))

theorem dataDoes (v : U8) : DataDoes k v (k.writeData v) := by
  unfold writeData
  dsimp only
  split
  · rename_i cmd hp
    exact .argument cmd hp
  · rename_i hp
    split
    · rename_i cmd hd
      rw [deviceArgument_eq]
      exact .deviceArgument cmd hp hd
    · rename_i hd
      obtain ⟨driver, he⟩ := deviceCommand_does { k with cmdWritten := false } v
      rw [he]
      dsimp only
      rw [hd]
      exact .device driver hp hd

theorem controllerArgument_out (cmd v : U8) :
    (k.controllerArgument cmd v).out = k.out ++ argumentReply cmd v := by
  unfold controllerArgument argumentReply
  by_cases h60 : cmd = 0x60
  · subst h60
    exact (List.append_nil _).symm
  rw [if_neg h60]
  by_cases hD2 : cmd = 0xD2
  · rw [if_pos hD2, if_pos hD2]
    rfl
  rw [if_neg hD2, if_neg hD2]
  by_cases hD3 : cmd = 0xD3
  · rw [if_pos hD3, if_pos hD3]
    rfl
  · rw [if_neg hD3, if_neg hD3]
    exact (List.append_nil _).symm

theorem controllerArgument_latches (cmd v : U8) : (k.controllerArgument cmd v).latches =
    (k.pending, k.devPending, if cmd = 0x60 then v else k.ctr, k.scanning) := by
  unfold controllerArgument
  split_ifs <;> rfl

/-! ## What a run leaves -/

/-- The controller holds what the run should have left in it. -/
structure Agrees (e : Expected) : Prop where
  latches : k.latches = (e.ctl, e.dev, e.ctr, e.scanning)
  out : k.out = e.waiting

variable {k} {e : Expected}

namespace Agrees

theorem ctl (h : k.Agrees e) : k.pending = e.ctl := congrArg Prod.fst h.latches

theorem dev (h : k.Agrees e) : k.devPending = e.dev := congrArg (·.2.1) h.latches

theorem ctr (h : k.Agrees e) : k.ctr = e.ctr := congrArg (·.2.2.1) h.latches

theorem scanning (h : k.Agrees e) : k.scanning = e.scanning := congrArg (·.2.2.2) h.latches

theorem due (h : k.Agrees e) : k.due = e.due := by
  have hbit : ∀ c : U8, test c ctrKbdInt = c.getLsbD 0 := by decide
  rw [Kbd.due, Expected.due, frontIs, h.out, h.ctr, hbit]
  cases e.waiting with
  | nil => rfl
  | cons b rest =>
    obtain ⟨b, aux⟩ := b
    cases aux <;> rfl

theorem command (h : k.Agrees e) (v : U8) :
    (k.writeCommand v).Agrees (e.next (.command v)) := by
  have hout := k.command_out v
  rw [h.out, h.ctr] at hout
  refine ⟨?_, hout⟩
  have hdoes := k.commandDoes v
  simp only [Expected.next, Expected.written]
  generalize k.writeCommand v = t at hdoes ⊢
  cases hdoes with
  | answer b hr ht =>
    rw [ht, ← h.ctr, ← h.ctl, ← h.dev, ← h.scanning]
    rfl
  | wait ht =>
    rw [ht, ← h.ctr, ← h.dev, ← h.scanning]
    rfl
  | set hr ht =>
    rw [ht, ← h.ctr, ← h.ctl, ← h.dev, ← h.scanning]
    rfl

theorem data (h : k.Agrees e) (v : U8) : (k.writeData v).Agrees (e.next (.data v)) := by
  have hdoes := k.dataDoes v
  have hctl := h.ctl
  have hdev := h.dev
  have hctr := h.ctr
  have hscan := h.scanning
  have hout := h.out
  simp only [Expected.next, Expected.written, Expected.queued]
  generalize k.writeData v = t at hdoes ⊢
  cases hdoes with
  | argument cmd hp =>
    simp only [← hctl, hp, ← hdev, ← hctr, ← hscan, ← hout]
    exact ⟨controllerArgument_latches _ cmd v, controllerArgument_out _ cmd v⟩
  | deviceArgument cmd hp hd =>
    simp only [← hctl, hp, ← hdev, hd, ← hctr, ← hscan, ← hout]
    exact ⟨(replies_latches _ _).trans rfl, replies_out _ _⟩
  | device driver hp hd =>
    simp only [← hctl, hp, ← hdev, hd, ← hctr, ← hscan, ← hout]
    exact ⟨(replies_latches _ _).trans rfl, replies_out _ _⟩

theorem step (h : k.Agrees e) (op : Op) : (k.step op).Agrees (e.next op) := by
  have hsame (hl : (k.step op).latches = k.latches) (hw : e.written op = e)
      (hout : (k.step op).out = unread k.out op ++ e.queued op) :
      (k.step op).Agrees (e.next op) := by
    refine ⟨hl.trans (h.latches.trans ?_), hout.trans (by rw [h.out]; rfl)⟩
    rw [Expected.next, hw]
  cases op with
  | command v => exact h.command v
  | data v => exact h.data v
  | readData =>
    refine hsame ?_ rfl ?_
    · simp only [Kbd.step, readData]
      cases k.out <;> rfl
    · simp only [Kbd.step, readData, Expected.queued, List.append_nil]
      cases hout : k.out with
      | nil => exact hout
      | cons b rest => rfl
  | readStatus => exact hsame rfl rfl (List.append_nil _).symm
  | scancode v =>
    refine hsame ?_ rfl ?_
    · simp only [Kbd.step, pushScancode]
      split <;> rfl
    · simp only [Kbd.step, pushScancode, Expected.queued, h.scanning]
      split
      · rfl
      · exact (List.append_nil _).symm
  | sample => exact hsame rfl rfl (List.append_nil _).symm

theorem run (h : k.Agrees e) (ops : List Op) : (k.run ops).Agrees (ops.foldl Expected.next e) := by
  induction ops generalizing k e with
  | nil => exact h
  | cons op ops ih => exact ih (h.step op)

/-- Nothing is lost, repeated or moved past another byte. -/
theorem fifo (h : k.Agrees e) (ops : List Op) :
    (k.out ++ e.queuedBy ops).map Prod.fst = k.readBy ops ++ (k.run ops).out.map Prod.fst := by
  induction ops generalizing k e with
  | nil =>
    rw [Expected.queuedBy, readBy, List.append_nil]
    rfl
  | cons op ops ih =>
    have hhead : k.out.map Prod.fst = k.readNow op ++ (unread k.out op).map Prod.fst := by
      cases op with
      | readData =>
        cases hout : k.out with
        | nil => simp [readNow, unread, hout]
        | cons b rest => simp [readNow, readData, unread, hout]
      | _ => rfl
    have hnext := ih (h.step op)
    have hout : (k.step op).out = unread k.out op ++ e.queued op := by
      rw [(h.step op).out, h.out]
      rfl
    rw [hout] at hnext
    simp only [List.map_append] at hnext hhead ⊢
    rw [Expected.queuedBy, readBy, run_cons, hhead, List.map_append, List.append_assoc,
      List.append_assoc, ← hnext, List.append_assoc]

end Agrees

variable (k)

/-! ## The interrupt -/

/-- The flag is as the head and the command byte have it, or it and they are as before. -/
def Tracks (k t : Kbd) : Prop := t.irq1 = t.due ∨ t.irq1 = k.irq1 ∧ t.due = k.due

theorem replies_irq1 (l : List U8) (h : l ≠ []) : (k.replies l).irq1 = (k.replies l).due := by
  induction l generalizing k with
  | nil => exact absurd rfl h
  | cons b l ih =>
    cases l with
    | nil => rfl
    | cons c l => exact ih (k.reply b) (List.cons_ne_nil c l)

theorem deviceReply_ne_nil (v : U8) : deviceReply v ≠ [] := by
  unfold deviceReply
  split_ifs <;> exact List.cons_ne_nil _ _

theorem deviceArgumentReply_ne_nil (cmd v : U8) : deviceArgumentReply cmd v ≠ [] := by
  unfold deviceArgumentReply
  split_ifs <;> exact List.cons_ne_nil _ _

theorem step_tracks {op : Op} (h : op ≠ .sample) : Tracks k (k.step op) := by
  cases op with
  | command v =>
    have hdoes := k.commandDoes v
    simp only [step]
    generalize k.writeCommand v = t at hdoes ⊢
    cases hdoes with
    | answer b hr ht => exact .inl rfl
    | wait ht => exact .inr ⟨rfl, rfl⟩
    | set hr ht => exact .inr ⟨rfl, congrArg (k.frontIs false && ·) (commandByte_int k.ctr v)⟩
  | data v =>
    have hdoes := k.dataDoes v
    simp only [step]
    generalize k.writeData v = t at hdoes ⊢
    cases hdoes with
    | argument cmd hp =>
      simp only [controllerArgument]
      split_ifs
      · exact .inl rfl
      · exact .inl rfl
      · exact .inl rfl
      · exact .inr ⟨rfl, rfl⟩
    | deviceArgument cmd hp hd => exact .inl (replies_irq1 _ _ (deviceArgumentReply_ne_nil cmd v))
    | device driver hp hd => exact .inl (replies_irq1 _ _ (deviceReply_ne_nil v))
  | readData =>
    simp only [step, readData]
    cases k.out <;> exact .inl rfl
  | readStatus => exact .inr ⟨rfl, rfl⟩
  | scancode v =>
    simp only [step, pushScancode]
    split
    · exact .inl rfl
    · exact .inr ⟨rfl, rfl⟩
  | sample => exact absurd rfl h

end Steps

/-- The run is as expected, and no due byte is without its interrupt. -/
structure Watched.Held (w : Watched) : Prop where
  agrees : w.kbd.Agrees w.exp
  served : w.exp.due → w.raised ∨ w.kbd.irq1

theorem Watched.step_held {w : Watched} (h : w.Held) (op : Op) : (w.step op).Held := by
  have hagrees := h.agrees.step op
  refine ⟨hagrees, fun hdue => ?_⟩
  have hstep : (w.kbd.step op).due = true := hagrees.due.trans hdue
  by_cases hs : op = .sample
  · subst hs
    have hbefore : w.exp.due = true := h.agrees.due.symm.trans hstep
    left
    simp only [Watched.step, hbefore, Bool.true_and, Bool.or_eq_true]
    exact h.served hbefore
  · rcases step_tracks w.kbd hs with hirq | ⟨hirq, hsame⟩
    · exact .inr (hirq.trans hstep)
    · have hbefore : w.exp.due = true := h.agrees.due.symm.trans (hsame.symm.trans hstep)
      by_cases hr : op = .readData
      · subst hr
        right
        have hread : (w.kbd.step .readData).irq1 = (w.kbd.step .readData).due := by
          simp only [Kbd.step, readData]
          cases w.kbd.out <;> rfl
        exact hread.trans hstep
      · rcases h.served hbefore with hraised | hset
        · left
          have hkeep : (w.step op).raised = (w.exp.due && (w.exp.next op).due && w.raised) := by
            cases op with
            | sample => exact absurd rfl hs
            | readData => exact absurd rfl hr
            | _ => rfl
          rw [hkeep, hbefore, hraised]
          exact congrArg (· && true) hdue
        · exact .inr (hirq.trans hset)

theorem watched_run (ops : List Op) (w : Watched) :
    (ops.foldl Watched.step w).kbd = w.kbd.run ops ∧
      (ops.foldl Watched.step w).exp = ops.foldl Expected.next w.exp := by
  induction ops generalizing w with
  | nil => exact ⟨rfl, rfl⟩
  | cons op ops ih => exact ih (w.step op)

theorem watched_held (ops : List Op) {w : Watched} (h : w.Held) : (ops.foldl Watched.step w).Held := by
  induction ops generalizing w with
  | nil => exact h
  | cons op ops ih => exact ih (Watched.step_held h op)

/-! ## The status register -/

theorem readStatus_obf (k : Kbd) : test k.readStatus stObf = !k.out.isEmpty := by
  unfold readStatus
  cases k.out.isEmpty <;> cases test k.ctr ctrSys <;> cases k.cmdWritten <;> cases k.frontIs true <;> rfl

theorem readStatus_aux (k : Kbd) : test k.readStatus stAux = k.frontIs true := by
  unfold readStatus
  cases k.out.isEmpty <;> cases test k.ctr ctrSys <;> cases k.cmdWritten <;> cases k.frontIs true <;> rfl

/-! ## The machine's sampling -/

/-- A sampling of the machine types at most one host key and then takes the edge; it raises IRQ1 in
the interrupt controller exactly when the edge is there. -/
structure Samples (s t : Cpu) (keys : List U8) : Prop where
  few : keys.length ≤ 1
  kbd : t.kbd = s.kbd.run (keys.map .scancode ++ [.sample])
  raised : (s.kbd.run (keys.map .scancode)).irq1 = true → test t.pic.masterIrr 0x02 = true

theorem raiseIrq_raised {s : Cpu} (line : Nat) (h : test s.pic.masterIrr 0x02 = true) :
    test (s.raiseIrq line).pic.masterIrr 0x02 = true := by
  have hor (b : U8) : test (s.pic.masterIrr ||| b) 0x02 = true := by
    simp only [test, bne_iff_ne, ne_eq] at h ⊢
    intro h0
    rw [BitVec.and_or_distrib_right] at h0
    exact h (BitVec.or_eq_zero_iff.mp h0).1
  simp only [Cpu.raiseIrq, Pic.raiseIrq]
  split
  · exact hor _
  · exact h

theorem typeNextKey_kbd (s : Cpu) : ∃ keys : List U8, keys.length ≤ 1 ∧
    s.typeNextKey.kbd = s.kbd.run (keys.map .scancode) := by
  unfold Cpu.typeNextKey
  split
  · rename_i scancode rest hscript
    split
    · exact ⟨[scancode], Nat.le_refl 1, rfl⟩
    · exact ⟨[], Nat.zero_le 1, rfl⟩
  · exact ⟨[], Nat.zero_le 1, rfl⟩

theorem collectIrqs_samples (s : Cpu) : ∃ keys, Samples s s.collectIrqs keys := by
  have hticks : ∃ t : Cpu, t.kbd = s.kbd ∧ s.collectIrqs =
      (let u := if t.typeNextKey.kbd.irq1 then
          { t.typeNextKey with kbd := { t.typeNextKey.kbd with irq1 := false } }.raiseIrq 1
        else t.typeNextKey
      let u := if u.virtio.irq then u.raiseIrq virtioIrq else u
      if u.ide.busy then { u with ide := { u.ide with busy := false } }.raiseIrq 14 else u) := by
    refine ⟨_, ?_, rfl⟩
    split <;> rfl
  obtain ⟨t, ht, he⟩ := hticks
  obtain ⟨keys, hfew, hkeys⟩ := typeNextKey_kbd t
  rw [ht] at hkeys
  generalize t.typeNextKey = u at he hkeys
  have hrest (w : Cpu) : (let w := if w.virtio.irq then w.raiseIrq virtioIrq else w
      if w.ide.busy then { w with ide := { w.ide with busy := false } }.raiseIrq 14 else w).kbd = w.kbd ∧
      (test w.pic.masterIrr 0x02 = true → test (let w := if w.virtio.irq then w.raiseIrq virtioIrq else w
        if w.ide.busy then { w with ide := { w.ide with busy := false } }.raiseIrq 14 else
          w).pic.masterIrr 0x02 = true) := by
    dsimp only
    constructor
    · split_ifs <;> rfl
    · intro h
      split_ifs
      · exact raiseIrq_raised _ (raiseIrq_raised _ h)
      · exact raiseIrq_raised _ h
      · exact raiseIrq_raised _ h
      · exact h
  have hrun : s.kbd.run (keys.map .scancode ++ [.sample]) = u.kbd.sample := by
    rw [run, List.foldl_append, hkeys]
    rfl
  refine ⟨keys, hfew, ?_, fun hirq => ?_⟩
  · rw [hrun, he]
    dsimp only
    rw [(hrest _).1]
    split
    · rfl
    · rename_i hirq
      have hoff : u.kbd.irq1 = false := Bool.eq_false_iff.mpr hirq
      rw [sample, ← hoff]
  · rw [← hkeys] at hirq
    rw [he]
    dsimp only
    refine (hrest _).2 ?_
    rw [if_pos hirq]
    have hset : ∀ a : U8, test (a ||| (1 : U8) <<< 1) 0x02 = true := by decide
    exact hset _

theorem writeCommand_wait (k : Kbd) {v : U8} (h : takesArgument v = true) :
    k.writeCommand v = { k with cmdWritten := true, pending := some v } := by
  have hdoes := k.commandDoes v
  generalize k.writeCommand v = t at hdoes ⊢
  cases hdoes with
  | wait ht => rfl
  | answer b hr ht | set hr ht =>
    rw [h] at ht
    cases ht

def withLatches (k : Kbd) (p d : Option U8) : Kbd := { k with pending := p, devPending := d }

theorem ite_withLatches {c : Prop} [Decidable c] {a b a' b' : Kbd} {p d : Option U8}
    (ha : c → a = a'.withLatches p d) (hb : b = b'.withLatches p d) :
    (if c then a else b) = (if c then a' else b').withLatches p d := by
  by_cases hc : c
  · rw [if_pos hc, if_pos hc]
    exact ha hc
  · rw [if_neg hc, if_neg hc]
    exact hb

/-- A byte at the command port is a command whatever is waited for. -/
theorem writeCommand_latches (k : Kbd) (v : U8) (p d : Option U8) :
    { k with pending := p, devPending := d }.writeCommand v =
      { k.writeCommand v with pending := if takesArgument v then some v else p, devPending := d } := by
  by_cases ht : takesArgument v = true
  · rw [writeCommand_wait _ ht, writeCommand_wait _ ht, if_pos ht]
  · have hlow : ¬ (0x60 ≤ v ∧ v ≤ 0x7F) := fun h => ht ((takesArgument_iff v).mpr (.inl h))
    have hhigh : ¬ (0xD1 ≤ v ∧ v ≤ 0xD4) := fun h => ht ((takesArgument_iff v).mpr (.inr h))
    have hrhs : { k.writeCommand v with
        pending := if takesArgument v then some v else p, devPending := d } =
        (k.writeCommand v).withLatches p d := by
      rw [if_neg ht]
      rfl
    rw [hrhs]
    unfold writeCommand
    dsimp only
    iterate 2 refine ite_withLatches (fun _ => rfl) ?_
    refine ite_withLatches (fun h => absurd h hlow) ?_
    iterate 9 refine ite_withLatches (fun _ => rfl) ?_
    exact ite_withLatches (fun h => absurd h hhigh) rfl

/-! ## Every run -/

/-- What a run of accesses, keys and samplings does, from a controller as it starts. -/
structure Faithful (ops : List Op) : Prop where
  /-- the latches, the command byte and the queue are what the run should have left -/
  agrees : (({} : Kbd).run ops).Agrees (expected ops)
  /-- reads return what was queued, in order -/
  fifo : (({} : Expected).queuedBy ops).map Prod.fst =
    ({} : Kbd).readBy ops ++ (({} : Kbd).run ops).out.map Prod.fst
  /-- the byte after a command that takes an argument is that argument -/
  argument : ∀ cmd v, (expected ops).ctl = some cmd →
    (({} : Kbd).run ops).writeData v =
      { ({} : Kbd).run ops with cmdWritten := false, pending := none }.controllerArgument cmd v
  deviceArgument : ∀ cmd v, (expected ops).ctl = none → (expected ops).dev = some cmd →
    (({} : Kbd).run ops).writeData v =
      { ({} : Kbd).run ops with cmdWritten := false, devPending := none }.replies
        (deviceArgumentReply cmd v)
  /-- any other byte is a command, and a byte at the command port always is -/
  device : ∀ v, (expected ops).ctl = none → (expected ops).dev = none →
    (({} : Kbd).run ops).writeData v =
      { ({} : Kbd).run ops with cmdWritten := false }.deviceCommand v
  command : ∀ v p d, { ({} : Kbd).run ops with pending := p, devPending := d }.writeCommand v =
    { (({} : Kbd).run ops).writeCommand v with
      pending := if takesArgument v then some v else p, devPending := d }
  obf : test (({} : Kbd).run ops).readStatus stObf = !(({} : Kbd).run ops).out.isEmpty
  aux : test (({} : Kbd).run ops).readStatus stAux = (({} : Kbd).run ops).frontIs true
  irq : (expected ops).due → (watched ops).raised ∨ (({} : Kbd).run ops).irq1

/-- The keyboard controller is faithful over every run from its reset state, and a sampling of the
machine is one of its own. -/
theorem keyboard_run (ops : List Op) :
    Faithful ops ∧ ∀ s : Cpu, ∃ keys, Samples s s.collectIrqs keys := by
  have hstart : ({} : Kbd).Agrees {} := ⟨rfl, rfl⟩
  have hend : (({} : Kbd).run ops).Agrees (expected ops) := hstart.run ops
  have hheld := (watched_held ops (w := {}) ⟨hstart, fun h => absurd h Bool.false_ne_true⟩).served
  obtain ⟨hkbd, hexp⟩ := watched_run ops {}
  rw [hkbd, hexp] at hheld
  refine ⟨⟨hend, hstart.fifo ops, fun cmd v hc => ?_, fun cmd v hc hd => ?_, fun v hc hd => ?_,
    writeCommand_latches _, readStatus_obf _, readStatus_aux _, hheld⟩, collectIrqs_samples⟩
  · have hp : (({} : Kbd).run ops).pending = some cmd := hend.ctl.trans hc
    unfold writeData
    dsimp only
    rw [hp]
  · have hp : (({} : Kbd).run ops).pending = none := hend.ctl.trans hc
    have hdp : (({} : Kbd).run ops).devPending = some cmd := hend.dev.trans hd
    unfold writeData
    dsimp only
    rw [hp, hdp]
    exact deviceArgument_eq _ cmd v
  · have hp : (({} : Kbd).run ops).pending = none := hend.ctl.trans hc
    have hdp : (({} : Kbd).run ops).devPending = none := hend.dev.trans hd
    unfold writeData
    dsimp only
    rw [hp, hdp]

end Kbd

end X86Emu
