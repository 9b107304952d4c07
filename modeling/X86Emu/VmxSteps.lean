import X86Emu.Outer

/-!
# What VMX instructions and transitions do

Seen from the VT-x state, the key script and the instruction count: a VM exit and a VM entry load
the rest of the machine, most VMX instructions touch no more than a field of the VMCS, and the
others make one change to VT-x each.
-/
namespace X86Emu

open StateRules

/-! ## Loading a context -/

namespace SameOuter

/-- `s` with other VT-x state, as far as `t` shows. -/
theorem withVmx {s t : Cpu} (x : Vmx) (h : SameOuter s t) :
    SameOuter { s with vmx := x } { t with vmx := x } :=
  congrArg (fun o : Vmx × List U8 × U64 × U64 => (x, o.2)) h

/-- The key script and the count are as they were. -/
theorem rest {s t : Cpu} (h : SameOuter s t) : t.outer.2 = s.outer.2 := congrArg (·.2) h

theorem of_vmx {s t : Cpu} {x : Vmx} (hv : t.vmx = x) (h : t.outer.2 = s.outer.2) :
    SameOuter { s with vmx := x } t := Prod.ext hv h

end SameOuter

theorem outer_loadHostState (s : Cpu) : SameOuter s s.loadHostState := by
  let r := s.vmx.read
  have hseg (t : Cpu) (f : SegReg × U32) : SameOuter t ((t.setSeg f.1 (u16 (r f.2))).setSegDesc f.1
      (Cpu.hostDesc (test (u32 (r Field.exitCtls)) Vmx.exitHostAddrSpaceSize) f.1)) := by
    cases f.1 <;> rfl
  have hlast (t : Cpu) (fs gs : U64) : SameOuter t ({ t with
      fsBase := fs
      gsBase := gs
      halted := false
      pendingException := none } : Cpu).invalidatePhysIp := rfl
  let u : Cpu := { s with
    efer := s.exitEfer &&& ~~~Efer.lma
    cr4 := u32 (r Field.hostCr4)
    cr3 := r Field.hostCr3 }
  unfold Cpu.loadHostState
  dsimp only
  refine .trans (.trans ?_ (outer_foldl hseg _ _)) (hlast _ _ _)
  show SameOuter u (u.writeCr0 (u32 (r Field.hostCr0)))
  exact outer_writeCr0 u _

theorem outer_loadSegment (x : Vmx) (s : Cpu) (f : SegFields) :
    SameOuter s (s.loadSegment x f) := by
  have hset (t : Cpu) (r : SegReg) (sel : U16) (d : Descriptor) :
      SameOuter t ((t.setSeg r sel).setSegDesc r d) := by
    cases r <;> rfl
  have hfs (t : Cpu) (base : U64) : SameOuter t { t with fsBase := base } := rfl
  have hgs (t : Cpu) (base : U64) : SameOuter t { t with gsBase := base } := rfl
  unfold Cpu.loadSegment
  dsimp only
  split
  · exact (hset s _ _ _).trans (hfs _ _)
  · exact (hset s _ _ _).trans (hgs _ _)
  · exact hset s _ _ _

theorem outer_loadGuestState (s : Cpu) : SameOuter s s.loadGuestState := by
  have hlast (t : Cpu) (b : Bool) : SameOuter t ({ t with halted := b } : Cpu).invalidatePhysIp :=
    rfl
  let u : Cpu := { s with
    efer := s.entryEfer &&& ~~~Efer.lma
    cr4 := u32 (s.vmRead Field.guestCr4 ||| Vmx.cr4Fixed0)
    cr3 := s.vmRead Field.guestCr3 }
  unfold Cpu.loadGuestState
  refine .trans (.trans ?_ (outer_foldl (outer_loadSegment s.vmx) _ _)) (hlast _ _)
  unfold Cpu.loadGuestControl
  dsimp only
  show SameOuter u (u.writeCr0 (u32 (s.vmRead Field.guestCr0 ||| Vmx.cr0Fixed0)))
  exact outer_writeCr0 u _

/-- A VM exit ends with the VMCS it writes, out of the guest. -/
theorem outer_vmExit (s : Cpu) (reason : U32) (q : U64) (info error : U32) :
    SameOuter { s with vmx := { s.exitVmcs reason q info error with inGuest := false } }
      (s.vmExit reason q info error) :=
  outer_loadHostState _

/-- A VM entry moves nothing but VT-x. -/
theorem outer_enterGuest (s : Cpu) :
    SameOuter { s with vmx := s.enterGuest.vmx } s.enterGuest := by
  let x : Vmx := { s.vmx with
    hostLong := test (u32 (s.vmRead Field.exitCtls)) Vmx.exitHostAddrSpaceSize }
  exact (outer_loadGuestState { s with vmx := x }).withVmx s.enterGuest.vmx

/-! ## VMX instructions -/

theorem outer_vmSucceed (s : Cpu) : SameOuter s s.vmSucceed := rfl

theorem outer_vmFailInvalid (s : Cpu) : SameOuter s s.vmFailInvalid := rfl

theorem outer_modifyMem (s : Cpu) (f : Memory → Memory) : SameOuter s (s.modifyMem f) := rfl

theorem outer_flushVmcs (s : Cpu) : SameOuter s s.flushVmcs := by
  unfold Cpu.flushVmcs
  split
  · exact outer_modifyMem s _
  · rfl

theorem outer_readPtrOperand (m : ModRm) : Keeps SameOuter (readPtrOperand m) := by
  unfold readPtrOperand
  split
  · exact (Keeps.modify fun s => outer_raise s _).bind fun _ => .pure _
  · refine (frame_rmAddr m false).bind fun a => .get_bind fun s => ?_
    exact .ite (.pure _) (.pure _)

/-- What a VMX instruction does: nothing outer, a field of the VMCS, one change to VT-x with
the pointer it was given, or a VM entry past the checks. -/
inductive VmxDone (v : VmxInst) (s : Cpu) : Cpu → Prop
  | plain {t : Cpu} (h : SameOuter s t) : VmxDone v s t
  | wrote {t : Cpu} (hon : s.vmx.on = true) (f : U32) (x : U64)
      (h : SameOuter { s with vmx := s.vmx.write f x } t) : VmxDone v s t
  | on {t : Cpu} {p : U64} (hop : v.op = .vmxon) (hread : (readPtrOperand v.m s).1 = some p)
      (hoff : s.vmx.on = false) (hlock : test s.vmx.featureControl Vmx.featLocked = true)
      (hp : Cpu.badRegionPtr p = false)
      (h : SameOuter { s with vmx := { s.vmx with on := true, vmxonPtr := p, current := none } } t) :
      VmxDone v s t
  | off {t : Cpu} (hop : v.op = .vmxoff) (hon : s.vmx.on = true)
      (h : SameOuter { s with vmx := { s.vmx with on := false, current := none } } t) :
      VmxDone v s t
  | clear {t : Cpu} {p : U64} {vmcs : Nat → U64} (hop : v.op = .vmclear) (hon : s.vmx.on = true)
      (hread : (readPtrOperand v.m s).1 = some p) (hcurrent : s.vmx.current = some p)
      (h : SameOuter { s with vmx := { s.vmx with current := none, vmcs := vmcs } } t) :
      VmxDone v s t
  | load {t : Cpu} {p : U64} {vmcs : Nat → U64} (hop : v.op = .vmptrld) (hon : s.vmx.on = true)
      (hread : (readPtrOperand v.m s).1 = some p) (hp : Cpu.badRegionPtr p = false)
      (hne : p ≠ s.vmx.vmxonPtr)
      (h : SameOuter { s with vmx := { s.vmx with current := some p, vmcs := vmcs } } t) :
      VmxDone v s t
  | enter (hop : v.op = .vmlaunch ∨ v.op = .vmresume) (hon : s.vmx.on = true)
      (hcurrent : s.vmx.current.isSome = true) (hok : s.checkControls = .ok ()) :
      VmxDone v s (vmEntry s).2

namespace VmxDone

variable {v : VmxInst} {s t u : Cpu}

theorem raised (f : Fault) : VmxDone v s (s.raise f) := .plain (outer_raise s f)

theorem failInvalid : VmxDone v s s.vmFailInvalid := .plain (outer_vmFailInvalid s)

theorem failValid (hon : s.vmx.on = true) (e : U32) : VmxDone v s (s.vmFailValid e) :=
  .wrote hon Field.instructionError (u64 e) rfl

/-- What follows steps that leave the outer state alone, other than an entry. -/
theorem after {s' : Cpu} (h : SameOuter s s') {x : Vmx}
    (k : SameOuter { s' with vmx := x } t) : SameOuter { s with vmx := x } t :=
  (h.withVmx x).trans k

theorem ite {c : Prop} [Decidable c] {x y : Cpu} (hx : c → VmxDone v s x)
    (hy : ¬ c → VmxDone v s y) : VmxDone v s (if c then x else y) := by
  split
  · exact hx ‹_›
  · exact hy ‹_›

end VmxDone

section Instructions

variable {v : VmxInst} {s : Cpu}

/-- An instruction with a pointer operand does what it does with the pointer read. -/
theorem done_withPtrOperand {f : U64 → Cpu → Cpu}
    (hf : ∀ p u, (readPtrOperand v.m s).1 = some p → SameOuter s u → VmxDone v s (f p u)) :
    VmxDone v s (withPtrOperand v.m f s).2 := by
  have hread := outer_readPtrOperand v.m s
  unfold withPtrOperand
  rw [bind_run]
  cases h : (readPtrOperand v.m s).1 with
  | none => exact .plain hread
  | some p => exact hf p _ h hread

theorem done_enterRoot (hop : v.op = .vmxon) (hoff : s.vmx.on = false)
    (hlock : test s.vmx.featureControl Vmx.featLocked = true) (p : U64) (u : Cpu)
    (hread : (readPtrOperand v.m s).1 = some p) (hu : SameOuter s u) :
    VmxDone v s (u.enterRoot p) := by
  unfold Cpu.enterRoot
  refine VmxDone.ite (fun _ => .plain (hu.trans (outer_vmFailInvalid u))) fun hp => ?_
  refine VmxDone.ite (fun _ => .plain (hu.trans (outer_vmFailInvalid u))) fun _ => ?_
  refine .on hop hread hoff hlock (Bool.eq_false_iff.mpr hp) (VmxDone.after hu ?_)
  rw [← hu.vmx]
  rfl

theorem done_clearVmcs (hop : v.op = .vmclear) (hon : s.vmx.on = true) (p : U64) (u : Cpu)
    (hread : (readPtrOperand v.m s).1 = some p) (hu : SameOuter s u) :
    VmxDone v s (u.clearVmcs p) := by
  unfold Cpu.clearVmcs
  have hfail (e : U32) : VmxDone v s (u.vmFailValid e) := by
    refine .wrote hon Field.instructionError (u64 e) (VmxDone.after hu ?_)
    rw [← hu.vmx]
    rfl
  refine VmxDone.ite (fun _ => hfail _) fun _ => VmxDone.ite (fun _ => hfail _) fun _ => ?_
  refine VmxDone.ite (fun hcurrent => ?_) fun _ =>
    .plain (hu.trans ((outer_modifyMem u _).trans (outer_vmSucceed _)))
  have hflush := outer_flushVmcs (u.setLaunched false)
  have hv : ((((u.setLaunched false).flushVmcs).setCurrent none).vmSucceed).vmx =
      { s.vmx with current := none, vmcs := (s.vmx.setLaunched false).vmcs } := by
    show ({ ((u.setLaunched false).flushVmcs).vmx with current := none } : Vmx) = _
    rw [hflush.vmx, ← hu.vmx]
    rfl
  exact .clear hop hon hread (hu.vmx ▸ hcurrent) (.of_vmx hv (hflush.rest.trans hu.rest))

theorem done_pointTo (hop : v.op = .vmptrld) (hon : s.vmx.on = true) (p : U64) (u : Cpu)
    (hread : (readPtrOperand v.m s).1 = some p) (hu : SameOuter s u) :
    VmxDone v s (u.pointTo p) := by
  unfold Cpu.pointTo
  have hfail (e : U32) : VmxDone v s (u.vmFailValid e) := by
    refine .wrote hon Field.instructionError (u64 e) (VmxDone.after hu ?_)
    rw [← hu.vmx]
    rfl
  refine VmxDone.ite (fun _ => hfail _) fun hp => VmxDone.ite (fun _ => hfail _) fun hne => ?_
  refine VmxDone.ite (fun _ => hfail _) fun _ => ?_
  refine VmxDone.ite (fun _ => .plain (hu.trans (outer_vmSucceed u))) fun _ => ?_
  have hflush := outer_flushVmcs u
  have hv : ((u.flushVmcs.loadVmcs p).vmSucceed).vmx = { s.vmx with
      current := some p, vmcs := fun i => u.flushVmcs.mem.readU64 (Cpu.slotAddr p i) } := by
    show ({ u.flushVmcs.vmx with current := some p, vmcs := _ } : Vmx) = _
    rw [hflush.vmx, ← hu.vmx]
  exact .load hop hon hread (Bool.eq_false_iff.mpr hp) (hu.vmx ▸ hne)
    (.of_vmx hv (hflush.rest.trans hu.rest))

theorem done_leaveRoot (hop : v.op = .vmxoff) (hon : s.vmx.on = true) :
    VmxDone v s s.leaveRoot := by
  have hflush := outer_flushVmcs s
  have hv : s.leaveRoot.vmx = { s.vmx with on := false, current := none } := by
    show ({ s.flushVmcs.vmx with on := false, current := none } : Vmx) = _
    rw [hflush.vmx]
  exact .off hop hon (.of_vmx hv hflush.rest)

theorem done_vmptrst (m : ModRm) : VmxDone v s (vmptrst m s).2 := by
  have h : Keeps SameOuter (vmptrst m) :=
    .ite (.modify fun s => outer_raise s _) ((frame_rmAddr m true).bind fun _ => .read fun t => by
      split
      · rfl
      · exact (outer_modifyMem t _).trans (outer_vmSucceed _))
  exact .plain (h s)

theorem done_vmread (hon : s.vmx.on = true) (m : ModRm) (reg : U8) :
    VmxDone v s (vmread m reg s).2 := by
  unfold vmread
  rw [bind_run, get_run]
  dsimp only
  split
  · exact .failInvalid
  split
  · exact .failValid hon _
  refine .plain ?_
  have h (x : U64) : Keeps SameOuter (do
      writeRmW m (vmWidth s) x
      if (← get).pendingException.isSome then pure () else modify (·.vmSucceed) : Exec Unit) :=
    (frame_writeRmW m (vmWidth s) x).bind fun _ => .get_bind fun _ =>
      .ite (.pure _) (.modify outer_vmSucceed)
  exact h _ s

theorem done_vmwrite (hon : s.vmx.on = true) (m : ModRm) (reg : U8) :
    VmxDone v s (vmwrite m reg s).2 := by
  unfold vmwrite
  rw [bind_run, get_run]
  dsimp only
  split
  · exact .failInvalid
  split
  · exact .failValid hon _
  split
  · exact .failValid hon _
  have hread : SameOuter s (readRmW m (vmWidth s) s).2 := frame_readRmW m (vmWidth s) s
  rw [bind_run]
  generalize readRmW m (vmWidth s) s = r at hread ⊢
  rw [bind_run, get_run, ite_run]
  split
  · exact .plain hread
  · refine .wrote hon (u32 (s.regW reg .w64)) r.1 (VmxDone.after hread ?_)
    rw [← hread.vmx]
    rfl

/-- VMLAUNCH and VMRESUME enter the guest only past every check. -/
theorem done_vmlaunch (hon : s.vmx.on = true) (resume : Bool)
    (hop : v.op = .vmlaunch ∨ v.op = .vmresume) : VmxDone v s (vmlaunch resume s).2 := by
  unfold vmlaunch
  rw [bind_run, get_run]
  dsimp only
  split
  · exact .failInvalid
  rename_i hnone
  split
  · exact .failValid hon _
  split
  · exact .failValid hon _
  have hcurrent : s.vmx.current.isSome = true := by
    rwa [← Option.not_isNone, Bool.not_eq_true', ← Bool.not_eq_true]
  cases hok : s.checkControls with
  | error e => exact .failValid hon e
  | ok _ => exact .enter hop hon hcurrent hok

theorem done_vmInvalidate (hon : s.vmx.on = true) (invept : Bool) (m : ModRm) (reg : U8) :
    VmxDone v s (vmInvalidate invept m reg s).2 := by
  unfold vmInvalidate
  rw [bind_run, get_run]
  dsimp only
  split
  · exact .raised _
  split
  · exact .failValid hon _
  · exact .plain rfl

/-- VMXON, which is allowed under a locked feature control only. -/
theorem done_vmxon (hop : v.op = .vmxon) : VmxDone v s (vmxon v.m s).2 := by
  unfold vmxon
  rw [bind_run, get_run]
  dsimp only
  split
  · exact .raised _
  split
  · exact .failValid ‹_› _
  rename_i hoff
  split
  · exact .raised _
  rename_i hallowed
  have hlock : test s.vmx.featureControl Vmx.featLocked = true := by
    have h : s.vmxonAllowed = true := by simpa using hallowed
    unfold Cpu.vmxonAllowed at h
    simp only [Bool.and_eq_true] at h
    exact h.1.1
  exact done_withPtrOperand (done_enterRoot hop (Bool.eq_false_iff.mpr hoff) hlock)

/-- What every VMX instruction does. -/
theorem done_executeVmx (v : VmxInst) (s : Cpu) : VmxDone v s (executeVmx v s).2 := by
  unfold executeVmx
  rw [bind_run, get_run]
  dsimp only
  split
  · exact .raised _
  rename_i hop
  split
  · exact .raised _
  have hon (hne : v.op ≠ .vmxon) : s.vmx.on = true := by
    by_contra hoff
    exact hop ⟨hne, by simpa using hoff⟩
  cases ho : v.op with
  | vmxon => exact done_vmxon ho
  | vmxoff => exact done_leaveRoot ho (hon (by rw [ho]; nofun))
  | vmclear => exact done_withPtrOperand (done_clearVmcs ho (hon (by rw [ho]; nofun)))
  | vmptrld => exact done_withPtrOperand (done_pointTo ho (hon (by rw [ho]; nofun)))
  | vmptrst => exact done_vmptrst v.m
  | vmread => exact done_vmread (hon (by rw [ho]; nofun)) v.m v.reg
  | vmwrite => exact done_vmwrite (hon (by rw [ho]; nofun)) v.m v.reg
  | vmlaunch => exact done_vmlaunch (hon (by rw [ho]; nofun)) false (.inl ho)
  | vmresume => exact done_vmlaunch (hon (by rw [ho]; nofun)) true (.inr ho)
  | vmcall => exact .failValid (hon (by rw [ho]; nofun)) _
  | invept => exact done_vmInvalidate (hon (by rw [ho]; nofun)) true v.m v.reg
  | invvpid => exact done_vmInvalidate (hon (by rw [ho]; nofun)) false v.m v.reg

/-- WRMSR moves no outer state but the feature control, while that is not locked. -/
theorem done_wrmsr (s : Cpu) : SameOuter s (wrmsr s).2 ∨
    test s.vmx.featureControl Vmx.featLocked = false ∧
      ∃ f, SameOuter { s with vmx := { s.vmx with featureControl := f } } (wrmsr s).2 := by
  let done (t : Cpu) : Prop := SameOuter s t ∨
    test s.vmx.featureControl Vmx.featLocked = false ∧
      ∃ f, SameOuter { s with vmx := { s.vmx with featureControl := f } } t
  have hite {c : Prop} [Decidable c] {x y : Cpu} (hx : done x) (hy : done y) :
      done (if c then x else y) := by
    split
    · exact hx
    · exact hy
  show done (s.writeMsr _ _)
  unfold Cpu.writeMsr
  refine hite (.inl (SameOuter.trans rfl (outer_updateLongMode _))) ?_
  iterate 10 refine hite (.inl rfl) ?_
  refine hite ?_ (.inl rfl)
  split
  · exact .inl (outer_raise s _)
  · exact .inr ⟨Bool.eq_false_iff.mpr ‹_›, _, rfl⟩

end Instructions

end X86Emu
