import X86Emu.ModeEvents

/-!
# Every instruction keeps the mode

The VMX instructions, with the entry they make, and one pass over the executor.
-/
namespace X86Emu

open StateRules

/-! ## VM entry -/

theorem modeCore_loadSegment (x : Vmx) (s : Cpu) (f : SegFields) :
    (s.loadSegment x f).modeCore = s.modeCore := by
  have hset (t : Cpu) (r : SegReg) (sel : U16) (d : Descriptor) :
      ((t.setSeg r sel).setSegDesc r d).modeCore = t.modeCore := by
    cases r <;> rfl
  have hfs (t : Cpu) (base : U64) : ({ t with fsBase := base } : Cpu).modeCore = t.modeCore := rfl
  have hgs (t : Cpu) (base : U64) : ({ t with gsBase := base } : Cpu).modeCore = t.modeCore := rfl
  unfold Cpu.loadSegment
  dsimp only
  split
  · exact (hfs _ _).trans (hset s _ _ _)
  · exact (hgs _ _).trans (hset s _ _ _)
  · exact hset s _ _ _

theorem modeLoaded_guest (s : Cpu) : ModeLoaded s s.loadGuestState := by
  have hlast (t : Cpu) (b : Bool) :
      ({ t with halted := b } : Cpu).invalidatePhysIp.modeCore = t.modeCore := rfl
  let u : Cpu := { s with
    efer := s.entryEfer &&& ~~~Efer.lma
    cr4 := u32 (s.vmRead Field.guestCr4 ||| Vmx.cr4Fixed0)
    cr3 := s.vmRead Field.guestCr3 }
  refine modeLoaded_of u (u32 (s.vmRead Field.guestCr0 ||| Vmx.cr0Fixed0)) _ rfl ?_
    (formed_masked (u32 (s.vmRead Field.guestRflags)))
  unfold Cpu.loadGuestState
  refine (hlast _ _).trans ((modeCore_foldl (modeCore_loadSegment s.vmx) _ _).trans ?_)
  unfold Cpu.loadGuestControl
  dsimp only
  show _ = (((u.writeCr0 _).cr0, _), _)
  generalize u.writeCr0 (u32 (s.vmRead Field.guestCr0 ||| Vmx.cr0Fixed0)) = w
  rfl

theorem ModeLoaded.core {s t u : Cpu} (h : ModeLoaded s t) (k : u.modeCore = t.modeCore) :
    ModeLoaded s u := by
  have hsteady := ModeSteady.of_core k
  have htlb : u.tlb = t.tlb := congrArg (·.2.2) k
  refine ⟨hsteady.coherent h.coherent, hsteady.prefixes.trans h.prefixes, fun i => ?_⟩
  rw [htlb]
  exact h.empty i

theorem steady_setLaunched (s : Cpu) (on : Bool) : ModeSteady s (s.setLaunched on) := .of_core rfl

theorem modeLoaded_enterGuest (s : Cpu) : ModeLoaded s s.enterGuest := by
  have hentered (t : Cpu) : ({ t.setLaunched true with
    vmx := { (t.setLaunched true).vmx with inGuest := true } } : Cpu).modeCore = t.modeCore := rfl
  unfold Cpu.enterGuest
  have hloaded := modeLoaded_guest { s with vmx := { s.vmx with
    hostLong := test (u32 (s.vmRead Field.exitCtls)) Vmx.exitHostAddrSpaceSize } }
  have hguest : ModeLoaded s _ := ⟨hloaded.coherent, hloaded.prefixes, hloaded.empty⟩
  exact hguest.core (hentered _)

theorem modeCore_consumeEvent (s : Cpu) : s.consumeEvent.modeCore = s.modeCore := rfl

/-- A VM entry from `s` with an event to inject: the entry leaves the TLB empty, and what is in it
at the end the event's delivery has put there, in the mode the entry has loaded. -/
structure InjectingEntry (s t : Cpu) : Prop where
  run : t = (vmEntry s).2
  empty : s.enterGuest.consumeEvent.TlbEmpty
  paging : SamePaging s.enterGuest.consumeEvent t
  delivers : ∃ vector code, s.enterGuest.injectedEvent = some (vector, code) ∧
    t = (dispatchExceptionRaw vector code s.enterGuest.consumeEvent).2

/-- What a VM entry with an event to inject keeps. -/
structure ModeEntered (s t : Cpu) : Prop where
  coherent : t.ModeCoherent
  prefixes : t.prefixes = s.prefixes
  entry : InjectingEntry s t

/-- A VM entry leaves no TLB entry from before, and none at all unless it injects an event. -/
theorem mode_vmEntry (s : Cpu) : ModeKept s (vmEntry s).2 ∨ ModeEntered s (vmEntry s).2 := by
  have hguest := modeLoaded_enterGuest s
  obtain ⟨t, ht⟩ : ∃ t, t = (vmEntry s).2 := ⟨_, rfl⟩
  have hrun := ht
  rw [← ht]
  rw [vmEntry, bind_run, modify_run, bind_run, get_run] at hrun
  dsimp only at hrun
  cases hev : s.enterGuest.injectedEvent with
  | none =>
    rw [hev] at hrun
    rw [hrun]
    exact .inl hguest.kept
  | some e =>
    obtain ⟨vector, code⟩ := e
    rw [hev] at hrun
    have hdelivered : t = (dispatchExceptionRaw vector code s.enterGuest.consumeEvent).2 := hrun
    have hready := hguest.core (modeCore_consumeEvent s.enterGuest)
    have hdispatch := mode_dispatchExceptionRaw vector code s.enterGuest.consumeEvent
    rw [← hdelivered] at hdispatch
    have hcoherent := hdispatch.coherent hready.coherent
    have hprefixes := hdispatch.prefixes.trans hready.prefixes
    rcases hdispatch.fresh with hsame | hempty
    · exact .inr ⟨hcoherent, hprefixes,
        ⟨ht, hready.empty, hsame, vector, code, hev, hdelivered⟩⟩
    · exact .inl ⟨fun _ => hcoherent, hprefixes, .inr hempty⟩

/-! ## VMX instructions -/

theorem steady_vmSucceed (s : Cpu) : ModeSteady s s.vmSucceed :=
  .of_flags s fun fl hf => by
    have hmask : ~~~(Flags.cf ||| Flags.pf ||| Flags.af ||| Flags.zf ||| Flags.sf ||| Flags.of) &&&
      Flags.reserved = Flags.reserved := by decide
    refine .of_eq ?_ hf
    rw [BitVec.and_assoc, hmask]

theorem steady_vmFailInvalid (s : Cpu) : ModeSteady s s.vmFailInvalid :=
  (steady_vmSucceed s).trans (.of_flags _ (formed_setFlag (f := Flags.cf) (by decide) true))

theorem steady_vmWrite (s : Cpu) (enc : U32) (v : U64) : ModeSteady s (s.vmWrite enc v) := .of_core rfl

theorem steady_vmFailValid (s : Cpu) (e : U32) : ModeSteady s (s.vmFailValid e) :=
  (steady_vmSucceed s).trans
    ((ModeSteady.of_flags _ (formed_setFlag (f := Flags.zf) (by decide) true)).trans
      (steady_vmWrite _ _ _))

theorem steady_modifyMem (s : Cpu) (f : Memory → Memory) : ModeSteady s (s.modifyMem f) := .of_core rfl

theorem steady_flushVmcs (s : Cpu) : ModeSteady s s.flushVmcs := by
  unfold Cpu.flushVmcs
  split
  · exact steady_modifyMem s _
  · exact .refl s

theorem steady_loadVmcs (s : Cpu) (p : U64) : ModeSteady s (s.loadVmcs p) := .of_core rfl

theorem steady_setCurrent (s : Cpu) (p : Option U64) : ModeSteady s (s.setCurrent p) := .of_core rfl

theorem steady_enterRoot (s : Cpu) (p : U64) : ModeSteady s (s.enterRoot p) :=
  rel_ite (steady_vmFailInvalid s) <| rel_ite (steady_vmFailInvalid s)
    ((steady_setVmx s _).trans (steady_vmSucceed _))

theorem steady_leaveRoot (s : Cpu) : ModeSteady s s.leaveRoot := by
  unfold Cpu.leaveRoot
  exact (steady_flushVmcs s).trans ((steady_setVmx _ _).trans (steady_vmSucceed _))

theorem steady_clearVmcs (p : U64) (s : Cpu) : ModeSteady s (s.clearVmcs p) :=
  rel_ite (steady_vmFailValid s _) <| rel_ite (steady_vmFailValid s _) <| rel_ite
    ((steady_setLaunched s _).trans ((steady_flushVmcs _).trans
      ((steady_setCurrent _ _).trans (steady_vmSucceed _))))
    ((steady_modifyMem s _).trans (steady_vmSucceed _))

theorem steady_pointTo (p : U64) (s : Cpu) : ModeSteady s (s.pointTo p) :=
  rel_ite (steady_vmFailValid s _) <| rel_ite (steady_vmFailValid s _) <|
    rel_ite (steady_vmFailValid s _) <| rel_ite (steady_vmSucceed s)
      ((steady_flushVmcs s).trans ((steady_loadVmcs _ p).trans (steady_vmSucceed _)))

theorem steady_raiseUd : Keeps ModeSteady (modify (·.raiseUd) : Exec Unit) :=
  .modify fun s => steady_raise s _

theorem steady_raiseGp (e : U32) : Keeps ModeSteady (modify (·.raiseGp e) : Exec Unit) :=
  .modify fun s => steady_raise s _

theorem steady_failValid (e : U32) : Keeps ModeSteady (modify (·.vmFailValid e) : Exec Unit) :=
  .modify fun s => steady_vmFailValid s e

theorem steady_failInvalid : Keeps ModeSteady (modify (·.vmFailInvalid) : Exec Unit) :=
  .modify steady_vmFailInvalid

theorem steady_readPtrOperand (m : ModRm) : Keeps ModeSteady (readPtrOperand m) := by
  unfold readPtrOperand
  split
  · exact steady_raiseUd.bind fun _ => .pure _
  · refine (frame_rmAddr m false).bind fun a => .get_bind fun s => ?_
    split
    · exact .pure _
    · exact .pure _

theorem steady_withPtrOperand (m : ModRm) {f : U64 → Cpu → Cpu} (hf : ∀ p s, ModeSteady s (f p s)) :
    Keeps ModeSteady (withPtrOperand m f) := by
  refine (steady_readPtrOperand m).bind fun o => ?_
  cases o with
  | some p => exact .modify (hf p)
  | none => exact .pure _

theorem steady_vmxon (m : ModRm) : Keeps ModeSteady (vmxon m) := by
  refine .get_bind fun s => .ite steady_raiseUd (.ite (steady_failValid _) ?_)
  exact .ite (steady_raiseGp 0) (steady_withPtrOperand m fun p s => steady_enterRoot s p)

theorem steady_vmptrst (m : ModRm) : Keeps ModeSteady (vmptrst m) := by
  refine .ite steady_raiseUd ((frame_rmAddr m true).bind fun a => .read fun s => ?_)
  split
  · exact .refl s
  · exact (steady_modifyMem s _).trans (steady_vmSucceed _)

theorem steady_vmread (m : ModRm) (reg : U8) : Keeps ModeSteady (vmread m reg) := by
  refine .get_bind fun s => .ite steady_failInvalid (.ite (steady_failValid _) ?_)
  refine (frame_writeRmW m (vmWidth s) _).bind fun _ => .get_bind fun t => ?_
  exact .ite (.pure _) (.modify steady_vmSucceed)

theorem steady_vmwrite (m : ModRm) (reg : U8) : Keeps ModeSteady (vmwrite m reg) := by
  refine .get_bind fun s => .ite steady_failInvalid (.ite (steady_failValid _)
    (.ite (steady_failValid _) ?_))
  refine (frame_readRmW m (vmWidth s)).bind fun v => .get_bind fun t => ?_
  exact .ite (.pure _) (.modify fun s => (steady_vmWrite s _ v).trans (steady_vmSucceed _))

theorem mode_vmlaunch (resume : Bool) (s : Cpu) :
    ModeKept s (vmlaunch resume s).2 ∨ ModeEntered s (vmlaunch resume s).2 := by
  rw [vmlaunch, bind_run, get_run]
  dsimp only
  rw [ite_run]
  split
  · exact .inl (steady_failInvalid s).kept
  rw [ite_run]
  split
  · exact .inl (steady_failValid _ s).kept
  rw [ite_run]
  split
  · exact .inl (steady_failValid _ s).kept
  cases s.checkControls with
  | error e => exact .inl (steady_failValid e s).kept
  | ok _ => exact mode_vmEntry s

theorem steady_vmInvalidate (invept : Bool) (m : ModRm) (reg : U8) :
    Keeps ModeSteady (vmInvalidate invept m reg) :=
  .get_bind fun _ => .ite steady_raiseUd <| .ite (steady_failValid _) <|
    .modify fun s => (steady_flushTlb s).trans (steady_vmSucceed _)

theorem mode_executeVmx (v : VmxInst) (s : Cpu) :
    ModeKept s (executeVmx v s).2 ∨ ModeEntered s (executeVmx v s).2 := by
  rw [executeVmx, bind_run, get_run]
  dsimp only
  rw [ite_run]
  split
  · exact .inl (steady_raiseUd s).kept
  rw [ite_run]
  split
  · exact .inl (steady_raiseGp 0 s).kept
  cases v.op with
  | vmxon => exact .inl (steady_vmxon v.m s).kept
  | vmxoff => exact .inl (steady_leaveRoot s).kept
  | vmclear => exact .inl (steady_withPtrOperand v.m steady_clearVmcs s).kept
  | vmptrld => exact .inl (steady_withPtrOperand v.m steady_pointTo s).kept
  | vmptrst => exact .inl (steady_vmptrst v.m s).kept
  | vmread => exact .inl (steady_vmread v.m v.reg s).kept
  | vmwrite => exact .inl (steady_vmwrite v.m v.reg s).kept
  | vmlaunch => exact mode_vmlaunch false s
  | vmresume => exact mode_vmlaunch true s
  | vmcall => exact .inl (steady_failValid _ s).kept
  | invept => exact .inl (steady_vmInvalidate true v.m v.reg s).kept
  | invvpid => exact .inl (steady_vmInvalidate false v.m v.reg s).kept

/-! ## The executor -/

theorem steady_divideStep {s t : Cpu} (h : DivideStep s t) : ModeSteady s t := by
  have hpanic : ({ s with panicked := true } : Cpu).modeCore = s.modeCore := rfl
  cases h with
  | error => exact .of_core rfl
  | abort => exact .of_core hpanic
  | store h => exact steady_of_shell h

theorem steady_fistp (m : ModRm) : Keeps ModeSteady (fistp m) :=
  .get_bind fun _ => (frame_rmAddr m false).bind fun _ =>
    (Keeps.modify fun s => steady_modifyMem s _).bind fun _ => frame_inner fun s => by rfl

/-- A bit instruction stores over its operand, having set CF to the bit it read. -/
theorem steady_bitOp (m : ModRm) (bit : BitOffset) (op : BitOp) : Keeps ModeSteady (bitOp m bit op) := by
  have hcf (s : Cpu) (on : Bool) : ModeSteady s (s.modifyFlags (setFlag Flags.cf on)) :=
    .of_flags s (formed_setFlag (by decide) on)
  refine .get_bind fun s => .ite (.modify fun t => ?_) (.get_bind fun t => ?_)
  · exact rel_ite ((hcf t _).trans (steady_of_shell (Cpu.shell_setRegW _ _ _ _))) (hcf t _)
  · refine (frame_rmAddr m _).bind fun base => .modify fun u => ?_
    exact rel_ite ((hcf u _).trans (steady_modifyMem _ _)) (hcf u _)

/-- A trap records its exception whatever is pending. -/
theorem steady_traps {inst : Inst} (ht : inst.traps) (s : Cpu) : ModeSteady s (execute inst s).2 := by
  have hset (v : U8) : (s.setPending v none).modeCore = s.modeCore := rfl
  cases inst with
  | int3 | unknown => exact .of_core (hset _)
  | into => exact rel_ite (.of_core (hset _)) (.refl s)
  | _ => cases ht

/-- Instructions that may change CR0.PG or EFER.LMA. -/
def Inst.changesMode : Inst → Bool
  | .movToCr .. | .lmsw .. | .wrmsr | .vmx .. => true
  | _ => false

/-- Every other instruction stays in the mode. -/
theorem steady_execute {inst : Inst} (hm : inst.changesMode = false) :
    Keeps ModeSteady (execute inst) := by
  intro s
  by_cases ht : inst.traps = true
  · exact steady_traps ht s
  by_cases hc : inst.confined = true
  · exact execute_userFrame hc fun h => absurd h ht
  by_cases hd : inst.divides = true
  · obtain ⟨t, hread, hstep⟩ := divides_execute hd s
    exact (hread ModeSteady).trans (steady_divideStep hstep)
  cases inst with
  | movToCr | lmsw | wrmsr | vmx => cases hm
  | movToDr dr reg => exact steady_modify (fun _ => by rfl) s
  | clts => exact steady_clts s
  | xsetbv => exact steady_xsetbv s
  | swapgs => exact steady_swapgs s
  | lgdt m => exact steady_lgdt _ s
  | lidt m => exact steady_lidt _ s
  | lldt m => exact steady_lldt _ s
  | ltr m => exact steady_ltr _ s
  | cli | sti => exact steady_setFlags (by decide) _ s
  | popf => exact steady_popf s
  | int vector => exact steady_int _ s
  | iret => exact steady_iret s
  | iret32 =>
    exact Keeps.read (fun s => by
      split
      · exact steady_iretLong s
      · exact steady_iretLegacy s) s
  | syscall => exact steady_syscall s
  | sysret => exact steady_sysret s
  | jmpFar off seg => exact steady_jmpFar _ _ s
  | jmpFar32 off seg => exact steady_jmpFar32 _ _ s
  | callFar off seg => exact steady_callFar _ _ s
  | callFar32 off seg => exact steady_callFar32 _ _ s
  | retf => exact steady_retf s
  | retf32 => exact steady_retf32 s
  | movSegRm seg m => exact steady_movSegRm seg m s
  | popSeg seg => exact steady_popSeg seg s
  | inAlImm port => exact steady_inAl _ s
  | inAxImm port => exact steady_inAx _ s
  | inAlDx => exact Keeps.read (fun s => steady_inAl _ s) s
  | inAxDx => exact Keeps.read (fun s => steady_inAx _ s) s
  | outImmAl port => exact steady_outAl _ s
  | outImmAx port => exact steady_outAx _ s
  | outDxAl => exact Keeps.read (fun s => steady_outAl _ s) s
  | outDxAx => exact Keeps.read (fun s => steady_outAx _ s) s
  | bts m bit | btr m bit | btc m bit => exact steady_bitOp _ _ _ s
  | fistp m => exact steady_fistp _ s
  | divRm8 | divRm16 | divRm32 | idivRm8 | idivRm16 | idivRm32 => exact absurd rfl hd
  | _ => exact absurd rfl hc

/-- Every instruction keeps the mode, but for the entry a VMX instruction may make. -/
theorem mode_execute {inst : Inst} (hv : ∀ v, inst ≠ .vmx v) : Keeps ModeKept (execute inst) := by
  cases hm : inst.changesMode with
  | false => exact steady_kept (steady_execute hm)
  | true =>
    cases inst with
    | movToCr cr reg => exact mode_movToCr _ _
    | lmsw m => exact mode_lmsw _
    | wrmsr => exact mode_wrmsr
    | vmx v => exact absurd rfl (hv v)
    | _ => cases hm

/-- An intercept that handles the instruction ends it, and one that does not leaves the mode. A VMX
instruction always exits. -/
theorem mode_guestExecute (inst : Inst) : Keeps ModeKept (guestExecute inst) := by
  intro s
  obtain ⟨hkept, hpass⟩ := handles_intercept inst s
  show ModeKept s ((if (intercept inst s).1 then pure () else execute inst : Exec Unit)
    (intercept inst s).2).2
  cases hb : (intercept inst s).1 with
  | true => exact hkept
  | false =>
    have hv (v : VmxInst) : inst ≠ .vmx v := by
      rintro rfl
      exact Bool.noConfusion hb
    exact (hpass hb).then (mode_execute hv _)

theorem mode_stepInst (inst : Inst) (s : Cpu) :
    ModeKept s (stepInst inst s).2 ∨ ModeEntered s (stepInst inst s).2 := by
  rw [stepInst, bind_run, get_run]
  dsimp only
  rw [ite_run]
  split
  · exact .inl (.refl s)
  rw [ite_run]
  split
  · exact .inl (mode_guestExecute inst s)
  by_cases hv : ∃ v, inst = .vmx v
  · obtain ⟨v, rfl⟩ := hv
    exact mode_executeVmx v s
  · exact .inl (mode_execute (fun v hi => hv ⟨v, hi⟩) s)

end X86Emu
