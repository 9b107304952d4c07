import X86Emu.Injection

/-!
# The first fault of an instruction

A fault recorded while an instruction executes is the one pending at its end. DIV and IDIV, and an
entry that injects an event, stand apart.
-/
namespace X86Emu

open StateRules

/-- A fault pending at the start stays, and the first one recorded is pending at the end. -/
structure FirstWins (s t : Cpu) : Prop where
  held : s.pendingException.isSome = true →
    t.pendingException = s.pendingException ∧ t.cr2 = s.cr2 ∧ t.faultLog = s.faultLog
  first : s.pendingException = none → (t.cr2 = s.cr2 ∧ t.faultLog = s.faultLog) ∨
    ∃ f : Fault, t.faultLog = s.faultLog ++ [f] ∧
      t.pendingException = some (f.vector, f.code) ∧ t.cr2 = f.cr2

/-- The parts of the state the relation reads. -/
theorem firstWins_of_fields {s t : Cpu} (hp : t.pendingException = s.pendingException)
    (hc : t.cr2 = s.cr2) (hl : t.faultLog = s.faultLog) : FirstWins s t where
  held _ := ⟨hp, hc, hl⟩
  first _ := .inl ⟨hc, hl⟩

theorem FirstWins.trans {s t u : Cpu} (h1 : FirstWins s t) (h2 : FirstWins t u) : FirstWins s u where
  held hs := by
    obtain ⟨hp, hc, hl⟩ := h1.held hs
    obtain ⟨hp', hc', hl'⟩ := h2.held (by rw [hp, hs])
    exact ⟨hp'.trans hp, hc'.trans hc, hl'.trans hl⟩
  first hs := by
    rcases h1.first hs with ⟨hc, hl⟩ | ⟨f, hl, hp, hc⟩
    · cases ht : t.pendingException with
      | none =>
        rcases h2.first ht with ⟨hc', hl'⟩ | ⟨f, hl', hp', hc'⟩
        · exact .inl ⟨hc'.trans hc, hl'.trans hl⟩
        · exact .inr ⟨f, by rw [hl', hl], hp', hc'⟩
      | some p =>
        obtain ⟨-, hc', hl'⟩ := h2.held (by rw [ht]; rfl)
        exact .inl ⟨hc'.trans hc, hl'.trans hl⟩
    · obtain ⟨hp', hc', hl'⟩ := h2.held (by rw [hp]; rfl)
      exact .inr ⟨f, hl'.trans hl, hp'.trans hp, hc'.trans hc⟩

instance : Frame FirstWins where
  refl _ := firstWins_of_fields rfl rfl rfl
  trans _ _ _ := FirstWins.trans
  of_core h := firstWins_of_fields (congrArg Core.pending h) (congrArg Core.cr2 h)
    (congrArg Core.faultLog h)
  raise s f := by
    unfold Cpu.raise
    split
    · exact firstWins_of_fields rfl rfl rfl
    · rename_i hnone
      exact
        { held := fun hs => absurd hs hnone
          first := fun _ => .inr ⟨f, rfl, rfl, rfl⟩ }
  setPending s v c hs :=
    { held := by
        intro h
        rw [hs] at h
        cases h
      first := fun _ => .inl ⟨rfl, rfl⟩ }

/-- Whatever faults the execution from `s` to `t` recorded, the first is pending, and CR2 holds its
address. -/
def FirstFaultPending (s t : Cpu) : Prop :=
  ∀ f l, t.faultLog = s.faultLog ++ f :: l →
    t.pendingException = some (f.vector, f.code) ∧ t.cr2 = f.cr2

theorem firstFaultPending_of_firstWins {s t : Cpu} (h : FirstWins s t)
    (hs : s.pendingException = none) : FirstFaultPending s t := by
  intro f l hlog
  rcases h.first hs with ⟨-, hl⟩ | ⟨g, hl, hp, hc⟩
  · rw [hl] at hlog
    have := congrArg List.length hlog
    simp at this
  · rw [hl, List.append_cancel_left_eq] at hlog
    obtain ⟨rfl, -⟩ := List.cons.inj hlog
    exact ⟨hp, hc⟩

theorem firstFaultPending_of_log {s t : Cpu} (h : t.faultLog = s.faultLog) :
    FirstFaultPending s t := by
  intro f l hlog
  rw [h] at hlog
  have := congrArg List.length hlog
  simp at this

/-! ## The instructions that are not plain -/

/-- A modification of other parts of the state. -/
def Apart (f : Cpu → Cpu) : Prop :=
  ∀ s : Cpu, (f s).pendingException = s.pendingException ∧ (f s).cr2 = s.cr2 ∧
    (f s).faultLog = s.faultLog

theorem Apart.comp {f g : Cpu → Cpu} (hf : Apart f) (hg : Apart g) : Apart fun s => g (f s) :=
  fun s => ⟨(hg _).1.trans (hf s).1, (hg _).2.1.trans (hf s).2.1, (hg _).2.2.trans (hf s).2.2⟩

theorem Apart.firstWins {f : Cpu → Cpu} (h : Apart f) (s : Cpu) : FirstWins s (f s) :=
  firstWins_of_fields (h s).1 (h s).2.1 (h s).2.2

theorem Apart.keeps {f : Cpu → Cpu} (h : Apart f) : Keeps FirstWins (modify f : Exec Unit) :=
  fun s => h.firstWins s

theorem apart_writeCr0 (v : U32) : Apart (·.writeCr0 v) := by
  intro s
  unfold Cpu.writeCr0 Cpu.updateLongMode
  dsimp only
  split <;> split <;> exact ⟨rfl, rfl, rfl⟩

theorem firstWins_lmsw (m : ModRm) : Keeps FirstWins (lmsw m) := by
  refine .read fun s => ?_
  refine Keeps.ite (.modify fun t => Frame.raise t _) ?_ s
  refine (frame_readRm16 m).bind fun v => .read fun t => ?_
  split
  · exact refl t
  · exact (apart_writeCr0 _).firstWins t

theorem firstWins_clts : Keeps FirstWins clts := Keeps.modify fun _ => firstWins_of_fields rfl rfl rfl

/-- MOV to a control register records no fault. -/
theorem log_movToCr (cr reg : U8) (s : Cpu) : (movToCr cr reg s).2.faultLog = s.faultLog := by
  show (if cr = 0 then _ else _ : Cpu).faultLog = _
  split
  · exact (apart_writeCr0 _ s).2.2
  · split
    · rfl
    · split
      · rfl
      · split <;> rfl

/-! ### VMX -/

theorem apart_vmSucceed : Apart Cpu.vmSucceed := fun _ => ⟨rfl, rfl, rfl⟩
theorem apart_vmFailInvalid : Apart Cpu.vmFailInvalid := fun _ => ⟨rfl, rfl, rfl⟩
theorem apart_vmFailValid (e : U32) : Apart (·.vmFailValid e) := fun _ => ⟨rfl, rfl, rfl⟩

theorem apart_modifyMem (f : Memory → Memory) : Apart (·.modifyMem f) := fun _ => ⟨rfl, rfl, rfl⟩

theorem apart_flushVmcs : Apart Cpu.flushVmcs := by
  intro s
  unfold Cpu.flushVmcs
  split
  · exact apart_modifyMem _ s
  · exact ⟨rfl, rfl, rfl⟩

theorem apart_loadVmcs (p : U64) : Apart (·.loadVmcs p) := fun _ => ⟨rfl, rfl, rfl⟩

theorem apart_setCurrent (p : Option U64) : Apart (·.setCurrent p) := fun _ => ⟨rfl, rfl, rfl⟩

theorem apart_setLaunched (on : Bool) : Apart (·.setLaunched on) := fun _ => ⟨rfl, rfl, rfl⟩

theorem apart_enterRoot (p : U64) : Apart (·.enterRoot p) := by
  intro s
  unfold Cpu.enterRoot
  dsimp only
  split
  · exact ⟨rfl, rfl, rfl⟩
  · split <;> exact ⟨rfl, rfl, rfl⟩

theorem apart_leaveRoot : Apart Cpu.leaveRoot := by
  intro s
  have h := apart_flushVmcs s
  unfold Cpu.leaveRoot
  generalize s.flushVmcs = t at h ⊢
  exact h

theorem apart_clearVmcs (p : U64) : Apart (·.clearVmcs p) := by
  intro s
  unfold Cpu.clearVmcs
  dsimp only
  split
  · exact ⟨rfl, rfl, rfl⟩
  split
  · exact ⟨rfl, rfl, rfl⟩
  split
  · exact ((((apart_setLaunched false).comp apart_flushVmcs).comp (apart_setCurrent none)).comp
      apart_vmSucceed) s
  · exact ((apart_modifyMem _).comp apart_vmSucceed) s

theorem apart_pointTo (p : U64) : Apart (·.pointTo p) := by
  intro s
  unfold Cpu.pointTo
  dsimp only
  split
  · exact ⟨rfl, rfl, rfl⟩
  split
  · exact ⟨rfl, rfl, rfl⟩
  split
  · exact ⟨rfl, rfl, rfl⟩
  split
  · exact ⟨rfl, rfl, rfl⟩
  · exact ((apart_flushVmcs.comp (apart_loadVmcs p)).comp apart_vmSucceed) s

theorem firstWins_raiseUd : Keeps FirstWins (modify (·.raiseUd) : Exec Unit) :=
  .modify fun s => Frame.raise s _

theorem firstWins_raiseGp (e : U32) : Keeps FirstWins (modify (·.raiseGp e) : Exec Unit) :=
  .modify fun s => Frame.raise s _

theorem firstWins_readPtrOperand (m : ModRm) : Keeps FirstWins (readPtrOperand m) := by
  unfold readPtrOperand
  split
  · exact firstWins_raiseUd.bind fun _ => .pure _
  · refine (frame_rmAddr m false).bind fun a => .get_bind fun s => ?_
    split
    · exact .pure _
    · exact .pure _

theorem firstWins_withPtrOperand (m : ModRm) {f : U64 → Cpu → Cpu} (hf : ∀ p, Apart (f p)) :
    Keeps FirstWins (withPtrOperand m f) := by
  refine (firstWins_readPtrOperand m).bind fun o => ?_
  cases o with
  | some p => exact (hf p).keeps
  | none => exact .pure _

theorem firstWins_vmxon (m : ModRm) : Keeps FirstWins (vmxon m) := by
  refine .get_bind fun s => .ite firstWins_raiseUd (.ite (apart_vmFailValid _).keeps ?_)
  exact .ite (firstWins_raiseGp 0) (firstWins_withPtrOperand m apart_enterRoot)

theorem firstWins_vmptrst (m : ModRm) : Keeps FirstWins (vmptrst m) := by
  refine .ite firstWins_raiseUd ((frame_rmAddr m true).bind fun a => .read fun s => ?_)
  split
  · exact refl s
  · exact ((apart_modifyMem _).comp apart_vmSucceed).firstWins s

theorem firstWins_vmread (m : ModRm) (reg : U8) : Keeps FirstWins (vmread m reg) := by
  refine .get_bind fun s => .ite apart_vmFailInvalid.keeps (.ite (apart_vmFailValid _).keeps ?_)
  refine (frame_writeRmW m (vmWidth s) _).bind fun _ => .get_bind fun t => ?_
  exact .ite (.pure _) apart_vmSucceed.keeps

theorem apart_vmWrite (enc : U32) (v : U64) : Apart (·.vmWrite enc v) := fun _ => ⟨rfl, rfl, rfl⟩

theorem firstWins_vmwrite (m : ModRm) (reg : U8) : Keeps FirstWins (vmwrite m reg) := by
  refine .get_bind fun s => .ite apart_vmFailInvalid.keeps (.ite (apart_vmFailValid _).keeps
    (.ite (apart_vmFailValid _).keeps ?_))
  refine (frame_readRmW m (vmWidth s)).bind fun v => .get_bind fun t => ?_
  exact .ite (.pure _) ((apart_vmWrite _ v).comp apart_vmSucceed).keeps

theorem firstWins_vmInvalidate (invept : Bool) (m : ModRm) (reg : U8) :
    Keeps FirstWins (vmInvalidate invept m reg) := by
  refine .get_bind fun s => .ite firstWins_raiseUd (.ite (apart_vmFailValid _).keeps ?_)
  exact .modify fun _ => firstWins_of_fields rfl rfl rfl

/-! ### VM entry -/

theorem apart_writeCr0_of {s t : Cpu} (h : t.pendingException = s.pendingException ∧
    t.cr2 = s.cr2 ∧ t.faultLog = s.faultLog) (v : U32) :
    (t.writeCr0 v).pendingException = s.pendingException ∧ (t.writeCr0 v).cr2 = s.cr2 ∧
      (t.writeCr0 v).faultLog = s.faultLog :=
  ⟨(apart_writeCr0 v t).1.trans h.1, (apart_writeCr0 v t).2.1.trans h.2.1,
    (apart_writeCr0 v t).2.2.trans h.2.2⟩

theorem apart_loadGuestState : Apart Cpu.loadGuestState := by
  intro s
  unfold Cpu.loadGuestState
  rw [Cpu.loadSegments_eq]
  exact apart_writeCr0_of ⟨rfl, rfl, rfl⟩ _

theorem apart_enterGuest : Apart Cpu.enterGuest := by
  have hhost (on : Bool) : Apart fun s : Cpu => { s with vmx := { s.vmx with hostLong := on } } :=
    fun _ => ⟨rfl, rfl, rfl⟩
  have hin : Apart fun s : Cpu => { s with vmx := { s.vmx with inGuest := true } } :=
    fun _ => ⟨rfl, rfl, rfl⟩
  intro s
  exact (((hhost (test (u32 (s.vmRead Field.exitCtls)) Vmx.exitHostAddrSpaceSize)).comp
    apart_loadGuestState).comp ((apart_setLaunched true).comp hin)) s

theorem firstWins_vmEntry {s : Cpu} (h : s.injectedEvent = none) : FirstWins s (vmEntry s).2 := by
  have hev : s.enterGuest.injectedEvent = none := injectedEvent_enterGuest.trans h
  have hap := apart_enterGuest.firstWins s
  rw [vmEntry, bind_run, modify_run, bind_run, get_run]
  dsimp only
  rw [hev]
  exact hap

theorem firstWins_vmlaunch (resume : Bool) {s : Cpu} (h : s.injectedEvent = none) :
    FirstWins s (vmlaunch resume s).2 := by
  rw [vmlaunch, bind_run, get_run]
  dsimp only
  split
  · exact apart_vmFailInvalid.firstWins s
  split
  · exact (apart_vmFailValid _).firstWins s
  split
  · exact (apart_vmFailValid _).firstWins s
  cases hc : s.checkControls with
  | error e => exact (apart_vmFailValid e).firstWins s
  | ok _ => exact firstWins_vmEntry h

theorem firstWins_executeVmx (v : VmxInst) {s : Cpu}
    (h : v.op = .vmlaunch ∨ v.op = .vmresume → s.injectedEvent = none) :
    FirstWins s (executeVmx v s).2 := by
  rw [executeVmx, bind_run, get_run]
  dsimp only
  split
  · exact firstWins_raiseUd s
  split
  · exact firstWins_raiseGp 0 s
  cases hop : v.op with
  | vmxon => exact firstWins_vmxon v.m s
  | vmxoff => exact apart_leaveRoot.firstWins s
  | vmclear => exact firstWins_withPtrOperand v.m apart_clearVmcs s
  | vmptrld => exact firstWins_withPtrOperand v.m apart_pointTo s
  | vmptrst => exact firstWins_vmptrst v.m s
  | vmread => exact firstWins_vmread v.m v.reg s
  | vmwrite => exact firstWins_vmwrite v.m v.reg s
  | vmlaunch => exact firstWins_vmlaunch false (h (.inl hop))
  | vmresume => exact firstWins_vmlaunch true (h (.inr hop))
  | vmcall => exact (apart_vmFailValid _).firstWins s
  | invept => exact firstWins_vmInvalidate true v.m v.reg s
  | invvpid => exact firstWins_vmInvalidate false v.m v.reg s

/-! ## Division -/

/-- Keeps what is pending, or replaces it by the divide error. -/
def DivideOutcome (t u : Cpu) : Prop :=
  (u.pendingException = t.pendingException ∨ u.pendingException = some (0x00, none)) ∧
    u.cr2 = t.cr2 ∧ u.faultLog = t.faultLog

theorem divideOutcome_of_step {t u : Cpu} (h : DivideStep t u) : DivideOutcome t u := by
  cases h with
  | error => exact ⟨.inr rfl, rfl, rfl⟩
  | abort => exact ⟨.inl rfl, rfl, rfl⟩
  | store h =>
    have hc := core_of_shell h
    exact ⟨.inl (congrArg Core.pending hc), congrArg Core.cr2 hc, congrArg Core.faultLog hc⟩

theorem firstFault_divides {inst : Inst} (hd : inst.divides) {s : Cpu}
    (hs : s.pendingException = none) :
    (execute inst s).2.pendingException = some (0x00, none) ∨
      FirstFaultPending s (execute inst s).2 := by
  obtain ⟨t, hread, hstep⟩ := divides_execute hd s
  obtain ⟨hpend, hcr2, hlog⟩ := divideOutcome_of_step hstep
  rcases hpend with hpend | hpend
  · refine .inr fun g l hl => ?_
    obtain ⟨hg, hc⟩ := firstFaultPending_of_firstWins (hread FirstWins) hs g l (hlog.symm.trans hl)
    exact ⟨hpend.trans hg, hcr2.trans hc⟩
  · exact .inl hpend

/-! ## Every instruction -/

/-- A VM entry. -/
def Inst.enters : Inst → Bool
  | .vmx v => v.op = .vmlaunch ∨ v.op = .vmresume
  | _ => false

theorem firstFault_other {inst : Inst} (hp : inst.plain = false) (hd : inst.divides = false)
    {s : Cpu} (hs : s.pendingException = none)
    (hin : inst.enters = true → s.injectedEvent = none) :
    FirstFaultPending s (execute inst s).2 := by
  cases inst with
  | movToCr cr reg => exact firstFaultPending_of_log (log_movToCr cr reg s)
  | lmsw m => exact firstFaultPending_of_firstWins (firstWins_lmsw m s) hs
  | clts => exact firstFaultPending_of_firstWins (firstWins_clts s) hs
  | vmx v =>
    refine firstFaultPending_of_firstWins (firstWins_executeVmx v fun h => hin ?_) hs
    exact decide_eq_true h
  | divRm8 | divRm16 | divRm32 | idivRm8 | idivRm16 | idivRm32 => cases hd
  | _ => cases hp

/-- The first fault wins, unless a division raises the divide error over it or a VM entry injects
an event. -/
theorem firstFault_execute (inst : Inst) (s : Cpu) (hs : s.pendingException = none)
    (hdiv : inst.divides = true → (execute inst s).2.pendingException ≠ some (0x00, none))
    (hin : inst.enters = true → s.injectedEvent = none) :
    FirstFaultPending s (execute inst s).2 := by
  by_cases hp : inst.plain = true
  · exact firstFaultPending_of_firstWins (execute_frame hp hs) hs
  by_cases hd : inst.divides = true
  · exact (firstFault_divides hd hs).resolve_left (hdiv hd)
  · exact firstFault_other (Bool.eq_false_of_not_eq_true hp) (Bool.eq_false_of_not_eq_true hd) hs
      hin

/-- A kernel about to divide by what lies on an unmapped page, its address in RAX. -/
def unmappedDivisor : Cpu :=
  { unmappedStack with
    addrsize := true
    regs := fun i => if i = 0 then 0x400000 else 0 }

/-- The operand [RAX]. -/
def atRax : ModRm := { modField := 0, reg := 0, rm := 0, rmRaw := 0 }

/-- A byte division goes on with a divisor that is not zero: the page fault stays. -/
theorem byteDivision_firstFault :
    FirstFaultPending unmappedDivisor (execute (.divRm8 atRax) unmappedDivisor).2 ∧
      (execute (.divRm8 atRax) unmappedDivisor).2.pendingException = some (0x0E, some 0) := by
  have hpend : (execute (.divRm8 atRax) unmappedDivisor).2.pendingException =
      some (0x0E, some 0) := by decide +kernel
  refine ⟨firstFault_execute (.divRm8 atRax) unmappedDivisor rfl ?_ (fun h => by cases h), hpend⟩
  intro _ h
  rw [hpend] at h
  exact absurd h (by decide)

/-- A hypervisor resuming a guest on an unmapped stack with a page fault to inject. -/
def injectingPageFault : Cpu :=
  { injectingHost 0x400000 with
    vmx := (injectingHost 0x400000).vmx.writeAll [(Field.entryIntrInfo, 0x80000B0E)] }

theorem not_firstFaultPending {s t : Cpu} (hs : s.faultLog = []) (hl : t.faultLog ≠ [])
    (h : ∀ f ∈ t.faultLog, t.pendingException ≠ some (f.vector, f.code)) :
    ¬ FirstFaultPending s t := by
  intro hff
  cases hlog : t.faultLog with
  | nil => exact hl hlog
  | cons f l =>
    have hpend := (hff f l (by rw [hs, hlog]; rfl)).1
    exact h f (hlog ▸ List.mem_cons_self) hpend

/-- A wider division reads zero and reports the divide error in place of the page fault, and a
page fault met while injecting one ends as a shutdown with nothing pending. -/
theorem first_fault_lost :
    unmappedDivisor.pendingException = none ∧
      ¬ FirstFaultPending unmappedDivisor (execute (.divRm32 atRax) unmappedDivisor).2 ∧
      injectingPageFault.pendingException = none ∧
      ¬ FirstFaultPending injectingPageFault
        (execute (.vmx { op := .vmresume, m := atRax, reg := 0 }) injectingPageFault).2 :=
  ⟨rfl, not_firstFaultPending rfl (by decide +kernel) (by decide +kernel), rfl,
    not_firstFaultPending rfl (by decide +kernel) (by decide +kernel)⟩

end X86Emu
