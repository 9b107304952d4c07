import X86Emu.ModeExecute
import X86Emu.Decode

/-!
# Mode state never drifts

Every instruction, delivery, VM entry and VM exit keeps the mode, and decoding resets the prefixes
outside 64-bit mode. So the copies of the mode agree in every state the machine reaches.
-/
namespace X86Emu

open StateRules

/-! ## Decoding -/

/-- No REX bit is set, and addresses are not 64-bit. -/
def Cpu.Plain (s : Cpu) : Prop := s.prefixes = (false, false, false, false, false)

/-- Decoding stays in the mode; outside 64-bit mode it leaves no REX bit. -/
structure Decodes (long64 : Bool) (s t : Cpu) : Prop where
  coherent : s.ModeCoherent → t.ModeCoherent
  paging : SamePaging s t
  plain : long64 = false → s.Plain → t.Plain

theorem Decodes.trans {long64 : Bool} {s t u : Cpu} (h : Decodes long64 s t)
    (k : Decodes long64 t u) : Decodes long64 s u where
  coherent hs := k.coherent (h.coherent hs)
  paging := h.paging.trans k.paging
  plain hl hp := k.plain hl (h.plain hl hp)

theorem ModeSteady.decodes {s t : Cpu} (h : ModeSteady s t) (long64 : Bool) :
    Decodes long64 s t where
  coherent := h.coherent
  paging := h.paging
  plain _ hp := h.prefixes.trans hp

instance (long64 : Bool) : Std.Refl (Decodes long64) := ⟨fun s => (ModeSteady.refl s).decodes _⟩

instance (long64 : Bool) : IsTrans Cpu (Decodes long64) := ⟨fun _ _ _ => .trans⟩

theorem decodes_steady {α : Type} {p : Exec α} (h : Keeps ModeSteady p) (long64 : Bool) :
    Keeps (Decodes long64) p :=
  h.mono fun _ _ hs => hs.decodes long64

/-- A change of nothing of the mode but the prefixes. -/
theorem decodes_prefixes {long64 : Bool} {s t : Cpu} (hcore : t.modeCore.1 = s.modeCore.1)
    (htlb : t.tlb = s.tlb) (hplain : long64 = false → s.Plain → t.Plain) :
    Decodes long64 s t := by
  have hcr0 : t.cr0 = s.cr0 := congrArg (·.1) hcore
  have hpe : t.pe = s.pe := congrArg (·.2.1) hcore
  have hefer : t.efer = s.efer := congrArg (·.2.2.1) hcore
  have hflags : t.flags = s.flags := congrArg (·.2.2.2) hcore
  have hlong : t.longMode = s.longMode := by rw [Cpu.longMode, hefer, Cpu.longMode]
  refine ⟨fun hs => ⟨?_, ?_, ?_, fun hoff i => ?_⟩, ⟨by rw [hcr0], hlong⟩, hplain⟩
  · rw [hpe, hcr0, hs.pe]
  · rw [hlong, hcr0, hefer, hs.lma]
  · rw [hflags]
    exact hs.flags
  · rw [htlb]
    exact hs.tlb (hcr0 ▸ hoff) i

/-- A legacy prefix cancels a REX prefix, and touches 64-bit addressing in 64-bit mode only. -/
theorem decodes_legacyPrefix (long64 : Bool) (b : U8) (s : Cpu) :
    Decodes long64 s (s.legacyPrefix long64 b) := by
  have hclear : Decodes long64 s s.clearRex := by
    refine decodes_prefixes rfl rfl fun _ hp => ?_
    have haddr : s.addr64 = false := congrArg (·.2.2.2.2) hp
    show (false, false, false, false, s.addr64) = _
    rw [haddr]
  have hcore {t u : Cpu} (h : u.modeCore = t.modeCore) : Decodes long64 t u :=
    (ModeSteady.of_core h).decodes long64
  have hover (t : Cpu) (r : SegReg) : Decodes long64 t (t.overrideSeg long64 r) :=
    rel_ite (hcore rfl) (hcore rfl)
  have haddr (t : Cpu) : Decodes long64 t { t with addr64 := false } := by
    refine decodes_prefixes rfl rfl fun _ hp => ?_
    have h64 : false = t.addr64 := (congrArg (·.2.2.2.2) hp).symm
    exact (congrArg (fun a => (t.rexW, t.rexR, t.rexX, t.rexB, a)) h64).trans hp
  refine hclear.trans ?_
  unfold Cpu.legacyPrefix
  generalize s.clearRex = t
  refine rel_ite (hcore rfl) <| rel_ite (hcore rfl) <| rel_ite (rel_ite (haddr t) (hcore rfl)) ?_
  exact rel_ite (hover t _) <| rel_ite (hover t _) <| rel_ite (hover t _) <|
    rel_ite (hover t _) <| rel_ite (hcore rfl) <| rel_ite (hcore rfl) (hcore rfl)

theorem decodes_turn (long64 : Bool) (rep : Rep) :
    Keeps (Decodes long64) (prefixTurn long64 rep) := by
  have hfetch : Keeps (Decodes long64) fetchU8 := decodes_steady frame_fetchU8 long64
  refine (decodes_steady frame_peekU8 long64).bind fun peek => ?_
  split
  · rename_i hrex
    refine hfetch.bind fun b => Keeps.bind (.modify fun s => ?_) fun _ => .pure _
    refine decodes_prefixes rfl rfl fun hl _ => ?_
    rw [hl] at hrex
    cases hrex
  · refine .ite (Keeps.bind (.modify fun s => decodes_legacyPrefix long64 peek s) fun _ => ?_) (.pure _)
    exact hfetch.bind fun _ => .pure _

theorem decodes_loop (long64 : Bool) :
    ∀ (n : Nat) (rep : Rep), Keeps (Decodes long64) (prefixLoop long64 n rep)
  | 0, _ => .pure _
  | n + 1, rep => by
    refine (decodes_turn long64 rep).bind fun o => ?_
    cases o with
    | none => exact .pure _
    | some rep => exact decodes_loop long64 n rep

theorem plain_startDecode {s : Cpu} (h : s.long64 = false) : s.startDecode.Plain := by
  unfold Cpu.startDecode
  rw [h]
  rfl

/-- Decoding stays in the mode, and outside 64-bit mode leaves no prefix of it. -/
theorem decode_mode (decodeOp : U8 → Rep → OpDecoder) (n : Nat) (s : Cpu) :
    (s.ModeCoherent → (decode decodeOp n s).2.ModeCoherent) ∧
      SamePaging s (decode decodeOp n s).2 ∧
      (s.long64 = false → (decode decodeOp n s).2.Plain) := by
  have hstart : Decodes s.long64 s s.startDecode := by
    refine decodes_prefixes ?_ ?_ fun hl _ => plain_startDecode hl
    · unfold Cpu.startDecode
      cases s.long64 <;> rfl
    · unfold Cpu.startDecode
      cases s.long64 <;> rfl
  have hwide (t : Cpu) : Decodes s.long64 t (if t.rexW then { t with opsize := true } else t) := by
    have hop : ({ t with opsize := true } : Cpu).modeCore = t.modeCore := rfl
    exact rel_ite ((ModeSteady.of_core hop).decodes _) ((ModeSteady.refl t).decodes _)
  have hrest : Keeps (Decodes s.long64) (do
      let rep ← prefixLoop s.long64 n .none
      modify fun t => if t.rexW then { t with opsize := true } else t
      let op ← fetchU8
      (decodeOp op rep).run) :=
    (decodes_loop s.long64 n .none).bind fun rep => (Keeps.modify hwide).bind fun _ =>
      (decodes_steady frame_fetchU8 _).bind fun op => decodes_steady (frame_opDecoder _) _
  have hall := hrest s.startDecode
  refine ⟨fun hs => hall.coherent (hstart.coherent hs), hstart.paging.trans hall.paging, ?_⟩
  exact fun hl => hall.plain hl (plain_startDecode hl)

/-! ## The machine's moves -/

/-- A machine, and whether the instruction it is at was decoded in 64-bit mode. -/
structure Traced where
  cpu : Cpu
  long64 : Bool

/-- What moves the machine: the parts of a step, a turn of a halted machine, deliveries, VM entries
and VM exits, and the host program outside the mode. -/
inductive Move (decodeOp : U8 → Rep → OpDecoder) : Traced → Traced → Prop
  | hook (x : Traced) : Move decodeOp x ⟨x.cpu.beforeStep, x.long64⟩
  | serve (x : Traced) : Move decodeOp x ⟨(serveEvents x.cpu).2, x.long64⟩
  | decode (x : Traced) (n : Nat) :
      Move decodeOp x ⟨(decode decodeOp n x.cpu.beginInst).2, x.cpu.long64⟩
  | execute (x : Traced) (inst : Inst) : Move decodeOp x ⟨(stepInst inst x.cpu).2, x.long64⟩
  | count (x : Traced) : Move decodeOp x ⟨x.cpu.countInst, x.long64⟩
  | idle (x : Traced) : Move decodeOp x ⟨(idle x.cpu).2, x.long64⟩
  | exception (x : Traced) (vector : U8) (code : Option U32) :
      Move decodeOp x ⟨(dispatchException vector code x.cpu).2, x.long64⟩
  | interrupt (x : Traced) : Move decodeOp x ⟨(deliverHardwareInterrupt x.cpu).2, x.long64⟩
  | vmEntry (x : Traced) : Move decodeOp x ⟨(vmEntry x.cpu).2, x.long64⟩
  | vmExit (x : Traced) (reason : U32) (qualification : U64) (info error : U32) :
      Move decodeOp x ⟨x.cpu.vmExit reason qualification info error, x.long64⟩
  | host (x : Traced) (t : Cpu) (h : t.modeCore = x.cpu.modeCore) : Move decodeOp x ⟨t, x.long64⟩

/-- The states reached from a new machine. -/
inductive Reached (decodeOp : U8 → Rep → OpDecoder) : Traced → Prop
  | new (bytes : Nat) (h : bytes ≤ 2 ^ 56) (epochSecs : U64) :
      Reached decodeOp ⟨Cpu.withRam bytes h epochSecs, false⟩
  | move {x y : Traced} (h : Reached decodeOp x) (k : Move decodeOp x y) : Reached decodeOp y

/-- The copies of the mode agree, the prefixes included. -/
structure Undrifted (x : Traced) : Prop where
  coherent : x.cpu.ModeCoherent
  plain : x.long64 = false → x.cpu.Plain

/-- What a move keeps: the agreement, and no TLB entry across a change of CR0.PG or EFER.LMA. Only
the delivery of an event injected at a VM entry may have filled the TLB again. -/
structure MoveKept (x y : Traced) : Prop where
  undrifted : Undrifted x → Undrifted y
  fresh : SamePaging x.cpu y.cpu ∨ y.cpu.TlbEmpty ∨ InjectingEntry x.cpu y.cpu

theorem ModeKept.move {s t : Cpu} (h : ModeKept s t) (long64 : Bool) :
    MoveKept ⟨s, long64⟩ ⟨t, long64⟩ where
  undrifted hs := ⟨h.coherent hs.coherent, fun hl => h.prefixes.trans (hs.plain hl)⟩
  fresh := h.fresh.imp_right .inl

theorem move_of_entry {s t : Cpu} (h : ModeKept s t ∨ ModeEntered s t) (long64 : Bool) :
    MoveKept ⟨s, long64⟩ ⟨t, long64⟩ := by
  rcases h with hkept | hentered
  · exact hkept.move long64
  · exact ⟨fun hs => ⟨hentered.coherent, fun hl => hentered.prefixes.trans (hs.plain hl)⟩,
      .inr (.inr hentered.entry)⟩

theorem mode_idle : Keeps ModeKept idle := by
  have hcount (s : Cpu) : s.countInst.modeCore = s.modeCore := rfl
  have hwake (s : Cpu) : ({ s with halted := false } : Cpu).modeCore = s.modeCore := rfl
  refine steady_bind (steady_modify hcount) fun _ t => ?_
  have hint := mode_deliverHardwareInterrupt t
  show ModeKept t ((if (deliverHardwareInterrupt t).1 then
    modify (fun s : Cpu => { s with halted := false }) else pure () : Exec Unit)
      (deliverHardwareInterrupt t).2).2
  split
  · exact hint.core (hwake _)
  · exact hint

theorem move_kept {decodeOp : U8 → Rep → OpDecoder} {x y : Traced} (h : Move decodeOp x y) :
    MoveKept x y := by
  cases h with
  | hook => exact (mode_beforeStep _).move _
  | serve => exact (mode_serveEvents _).move _
  | decode n =>
    have hbegin : x.cpu.beginInst.modeCore = x.cpu.modeCore := rfl
    have hsteady := ModeSteady.of_core hbegin
    obtain ⟨hcoherent, hpaging, hplain⟩ := decode_mode decodeOp n x.cpu.beginInst
    exact ⟨fun hx => ⟨hcoherent (hsteady.coherent hx.coherent), hplain⟩,
      .inl (hsteady.paging.trans hpaging)⟩
  | execute inst => exact move_of_entry (mode_stepInst inst _) _
  | count =>
    have hcount : x.cpu.countInst.modeCore = x.cpu.modeCore := rfl
    exact (ModeSteady.of_core hcount).kept.move _
  | idle => exact (mode_idle _).move _
  | exception vector code => exact (mode_dispatchException vector code _).move _
  | interrupt => exact (mode_deliverHardwareInterrupt _).move _
  | vmEntry => exact move_of_entry (mode_vmEntry _) _
  | vmExit reason qualification info error => exact (mode_vmExit _ _ _ _ _).move _
  | host t ht => exact (ModeSteady.of_core ht).kept.move _

theorem undrifted_new (bytes : Nat) (h : bytes ≤ 2 ^ 56) (epochSecs : U64) :
    Undrifted ⟨Cpu.withRam bytes h epochSecs, false⟩ where
  coherent :=
    { pe := by
        show false = test (0 : U32) cr0Pe
        decide
      lma := by
        show test (0 : U64) Efer.lma = (test (0 : U32) cr0Pg && test (0 : U64) Efer.lme)
        decide
      flags := by
        show (0x0002 : U32) &&& Flags.reserved = Flags.alwaysSet
        decide
      tlb := fun _ _ => rfl }
  plain _ := rfl

theorem reached_undrifted {decodeOp : U8 → Rep → OpDecoder} {x : Traced}
    (h : Reached decodeOp x) : Undrifted x := by
  induction h with
  | new bytes hb epochSecs => exact undrifted_new bytes hb epochSecs
  | move _ k ih => exact (move_kept k).undrifted ih

/-! ## The run loop moves the machine -/

/-- A whole step is a sequence of moves. -/
theorem reached_step {decodeOp : U8 → Rep → OpDecoder} {x : Traced} (h : Reached decodeOp x)
    (n : Nat) : ∃ long64, Reached decodeOp ⟨(step (decode decodeOp n) x.cpu).2, long64⟩ := by
  have hhook := h.move (.hook x)
  have hserve := hhook.move (.serve _)
  have hdecode := hserve.move (.decode _ n)
  have hexec := hdecode.move (.execute _
    (decode decodeOp n (serveEvents x.cpu.beforeStep).2.beginInst).1)
  exact ⟨_, hexec.move (.count _)⟩

theorem reached_turn {decodeOp : U8 → Rep → OpDecoder} {x : Traced} (h : Reached decodeOp x)
    {n : Nat} {t : Cpu} (ht : turn (decode decodeOp n) x.cpu = some t) :
    ∃ long64, Reached decodeOp ⟨t, long64⟩ := by
  unfold turn at ht
  split at ht
  · split at ht
    · cases ht
    · exact ⟨x.long64, Option.some.inj ht ▸ h.move (.idle x)⟩
  · obtain ⟨long64, hstep⟩ := reached_step h n
    exact ⟨long64, Option.some.inj ht ▸ hstep⟩

/-! ## Nothing drifts -/

/-- In every state reached, PE is CR0.PE, LMA is PG and LME, the reserved flags have their values,
and an instruction decoded outside 64-bit mode sees no REX bit and no 64-bit addressing. A change of
CR0.PG or EFER.LMA leaves the TLB empty, or is a VM entry that fills it again as it delivers its
event. -/
theorem mode_never_drifts (decodeOp : U8 → Rep → OpDecoder) {x : Traced}
    (h : Reached decodeOp x) :
    x.cpu.pe = test x.cpu.cr0 cr0Pe ∧
      test x.cpu.efer Efer.lma = (test x.cpu.cr0 cr0Pg && test x.cpu.efer Efer.lme) ∧
      x.cpu.flags &&& 0xFFC0802A = 0x00000002 ∧
      (x.long64 = false → x.cpu.rexW = false ∧ x.cpu.rexR = false ∧ x.cpu.rexX = false ∧
        x.cpu.rexB = false ∧ x.cpu.addr64 = false) ∧
      (test x.cpu.cr0 cr0Pg = false → x.cpu.TlbEmpty) ∧
      ∀ y, Move decodeOp x y → ¬ SamePaging x.cpu y.cpu →
        y.cpu.TlbEmpty ∨ InjectingEntry x.cpu y.cpu := by
  obtain ⟨hcoherent, hplain⟩ := reached_undrifted h
  refine ⟨hcoherent.pe, hcoherent.lma, hcoherent.flags, fun hl => ?_, hcoherent.tlb,
    fun y hy hne => (move_kept hy).fresh.resolve_left hne⟩
  have hp := hplain hl
  exact ⟨congrArg (·.1) hp, congrArg (·.2.1) hp, congrArg (·.2.2.1) hp, congrArg (·.2.2.2.1) hp,
    congrArg (·.2.2.2.2) hp⟩

/-- A decoder that knows one opcode. -/
def decodeNop (op : U8) (_ : Rep) : OpDecoder :=
  .done (if op = 0x90 then .nop else .unknown (u16 op))

/-- A new machine after MOV CR0, RAX with PE and PG set. -/
def pagedMachine : Cpu :=
  (stepInst (.movToCr 0 0)
    { Cpu.withRam 0 Memory.empty_le 0 with regs := fun _ => 0x80000001 }).2

theorem pagedMachine_undrifted : pagedMachine.cr0 = 0x80000001 ∧
    pagedMachine.pe = test pagedMachine.cr0 cr0Pe ∧ pagedMachine.flags &&& 0xFFC0802A = 2 ∧
    pagedMachine.rexW = false := by
  have hnew : Reached decodeNop ⟨Cpu.withRam 0 (by decide) 0, false⟩ := .new _ _ _
  have hready := hnew.move
    (.host _ { Cpu.withRam 0 (by decide) 0 with regs := fun _ => 0x80000001 } rfl)
  obtain ⟨hpe, -, hflags, hrex, -⟩ :=
    mode_never_drifts decodeNop (hready.move (.execute _ (.movToCr 0 0)))
  exact ⟨by decide +kernel, hpe, hflags, (hrex rfl).1⟩

end X86Emu
