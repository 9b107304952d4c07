import X86Emu.DecodeOp
import X86Emu.ExceptionRouting
import X86Emu.ExitFrame
import X86Emu.VmxSteps
import X86Emu.Lib.Refinement

/-!
# The order of VMX operation

VT-x is a small state machine: off, in root operation with or without a current VMCS, or running the
guest of the current one. A turn of the whole machine may take it out of the guest, and then makes
the step its instruction asks for, or none.
-/
namespace X86Emu

open StateRules Refinement

/-! ## The abstract machine -/

/-- Where VT-x stands: the VMXON pointer and the current VMCS. -/
inductive VtState
  | off
  | root (vmxon : U64) (current : Option U64)
  | guest (vmxon current : U64)
  deriving DecidableEq

/-- What happens to VT-x. -/
inductive VtEvent
  | vmxon (p : U64)
  | vmxoff
  | vmptrld (q : U64)
  | vmclear (q : U64)
  | vmentry
  | vmexit

inductive VtStep : VtEvent → VtState → VtState → Prop
  | vmxon {p : U64} (hp : Cpu.badRegionPtr p = false) : VtStep (.vmxon p) .off (.root p none)
  | vmxoff {p : U64} {c : Option U64} : VtStep .vmxoff (.root p c) .off
  | vmptrld {p q : U64} {c : Option U64} (hq : Cpu.badRegionPtr q = false) (hne : q ≠ p) :
      VtStep (.vmptrld q) (.root p c) (.root p (some q))
  | vmclear {p q : U64} : VtStep (.vmclear q) (.root p (some q)) (.root p none)
  | vmentry {p q : U64} : VtStep .vmentry (.root p (some q)) (.guest p q)
  | vmexit {p q : U64} : VtStep .vmexit (.guest p q) (.root p (some q))

/-- The regions are aligned and in range, and the current VMCS is not the VMXON region. -/
def VtState.Placed : VtState → Prop
  | .off => True
  | .root p c => Cpu.badRegionPtr p = false ∧ ∀ q, c = some q → Cpu.badRegionPtr q = false ∧ q ≠ p
  | .guest p q => Cpu.badRegionPtr p = false ∧ Cpu.badRegionPtr q = false ∧ q ≠ p

theorem placed_step {e : VtEvent} {a b : VtState} (h : a.Placed) (k : VtStep e a b) : b.Placed := by
  cases k with
  | vmxon hp => exact ⟨hp, fun q hq => nomatch hq⟩
  | vmxoff => trivial
  | vmptrld hq hne => exact ⟨h.1, fun r hr => Option.some.inj hr ▸ ⟨hq, hne⟩⟩
  | vmclear => exact ⟨h.1, fun q hq => nomatch hq⟩
  | vmentry => exact ⟨h.1, h.2 _ rfl⟩
  | vmexit => exact ⟨h.1, fun r hr => Option.some.inj hr ▸ h.2⟩

/-- What anything but an instruction does to VT-x: at most one VM exit. -/
def MayExit (a b : VtState) : Prop := b = a ∨ VtStep .vmexit a b

instance : Std.Refl MayExit := ⟨fun _ => .inl rfl⟩

/-- After one exit there is no guest to leave. -/
theorem MayExit.trans {a b c : VtState} (h : MayExit a b) (k : MayExit b c) : MayExit a c := by
  rcases h with rfl | h
  · exact k
  · cases h
    rcases k with rfl | k
    · exact .inr .vmexit
    · cases k

instance : IsTrans VtState MayExit := ⟨fun _ _ _ => MayExit.trans⟩

theorem placed_mayExit {a b : VtState} (h : a.Placed) (k : MayExit a b) : b.Placed := by
  rcases k with rfl | k
  · exact h
  · exact placed_step h k

/-! ## Whose step it is -/

/-- The event a VMX instruction asks for, with the pointer it reads on the machine `u`. -/
inductive VmxInst.Makes (v : VmxInst) (u : Cpu) : VtEvent → Prop
  | vmxon {p : U64} (hop : v.op = .vmxon) (hread : (readPtrOperand v.m u).1 = some p) :
      Makes v u (.vmxon p)
  | vmxoff (hop : v.op = .vmxoff) : Makes v u .vmxoff
  | vmptrld {q : U64} (hop : v.op = .vmptrld) (hread : (readPtrOperand v.m u).1 = some q) :
      Makes v u (.vmptrld q)
  | vmclear {q : U64} (hop : v.op = .vmclear) (hread : (readPtrOperand v.m u).1 = some q) :
      Makes v u (.vmclear q)
  | vmentry (hop : v.op = .vmlaunch ∨ v.op = .vmresume) : Makes v u .vmentry

/-- What an instruction on the machine `u` does to VT-x: nothing, a VM exit in its place, the event
it asks for, or an entry whose injected event exits at once. -/
inductive InstStep (inst : Inst) (u : Cpu) (a : VtState) : VtState → Prop
  | stay : InstStep inst u a a
  | exit {b : VtState} (h : VtStep .vmexit a b) : InstStep inst u a b
  | made {v : VmxInst} {e : VtEvent} {b : VtState} (hinst : inst = .vmx v) (hmakes : v.Makes u e)
      (h : VtStep e a b) : InstStep inst u a b
  | bounced {v : VmxInst} {b c : VtState} (hinst : inst = .vmx v) (hmakes : v.Makes u .vmentry)
      (h : VtStep .vmentry a b) (k : VtStep .vmexit b c) : InstStep inst u a c

theorem placed_instStep {inst : Inst} {u : Cpu} {a b : VtState} (h : a.Placed)
    (k : InstStep inst u a b) : b.Placed := by
  cases k with
  | stay => exact h
  | exit k | made _ _ k => exact placed_step h k
  | bounced _ _ k k' => exact placed_step (placed_step h k) k'

instance (inst : Inst) (u : Cpu) : Std.Refl (InstStep inst u) := ⟨fun _ => .stay⟩

theorem instStep_of_mayExit {inst : Inst} {u : Cpu} {a b : VtState} (h : MayExit a b) :
    InstStep inst u a b := by
  rcases h with rfl | h
  · exact .stay
  · exact .exit h

/-! ## The machine's state -/

/-- Where the machine's VT-x stands. -/
def Vmx.state (x : Vmx) : VtState :=
  if x.inGuest then .guest x.vmxonPtr (x.current.getD 0)
  else if x.on then .root x.vmxonPtr x.current
  else .off

def Cpu.vtState (s : Cpu) : VtState := s.vmx.state

/-- Off, there is no VMCS and no guest; on, the feature control is locked; a guest runs from a
launched VMCS whose controls and host state have passed the checks of an entry. -/
structure VtSound (s : Cpu) : Prop where
  off : s.vmx.on = false → s.vmx.current = none ∧ s.vmx.inGuest = false
  locked : s.vmx.on = true → test s.vmx.featureControl Vmx.featLocked = true
  guest : s.vmx.inGuest = true →
    s.vmx.current.isSome = true ∧ s.vmx.launched = true ∧ s.checkControls = .ok ()

/-- The machine keeps the VT-x state sound, and VT-x makes the move. -/
def VtMoves (T : VtState → VtState → Prop) : Cpu → Cpu → Prop := Refines VtSound Cpu.vtState T

section Moves

variable {T : VtState → VtState → Prop} [Std.Refl T] {s t u : Cpu}

instance : Std.Refl (VtMoves T) := inferInstanceAs (Std.Refl (Refines _ _ _))

instance : IsTrans Cpu (VtMoves MayExit) := inferInstanceAs (IsTrans Cpu (Refines _ _ _))

/-- Only the VT-x state counts. -/
theorem checkControls_congr (h : t.vmx = s.vmx) : t.checkControls = s.checkControls := by
  unfold Cpu.checkControls Cpu.vmRead
  rw [h]

theorem vtSound_congr (h : t.vmx = s.vmx) (hs : VtSound s) : VtSound t := by
  refine ⟨?_, ?_, ?_⟩
  · rw [h]
    exact hs.off
  · rw [h]
    exact hs.locked
  · rw [h, checkControls_congr h]
    exact hs.guest

theorem vt_of_vmx (h : t.vmx = s.vmx) : VtMoves T s t :=
  .stutter fun hs => ⟨vtSound_congr h hs, congrArg Vmx.state h⟩

theorem vt_of_outer (h : SameOuter s t) : VtMoves T s t := vt_of_vmx h.vmx

end Moves

/-! ## VMCS writes -/

/-- The VT-x state but for what the VMCS holds. -/
def Vmx.frame (x : Vmx) : U64 × Bool × U64 × Option U64 × Bool :=
  (x.featureControl, x.on, x.vmxonPtr, x.current, x.inGuest)

theorem frame_write (x : Vmx) (enc : U32) (v : U64) : (x.write enc v).frame = x.frame := by
  unfold Vmx.write
  split <;> rfl

theorem frame_writeAll : ∀ (l : List (U32 × U64)) (x : Vmx), (x.writeAll l).frame = x.frame
  | [], _ => rfl
  | f :: l, x => (frame_writeAll l (x.write f.1 f.2)).trans (frame_write x f.1 f.2)

theorem frame_exitVmcs (s : Cpu) (reason : U32) (q : U64) (info error : U32) :
    (s.exitVmcs reason q info error).frame = s.vmx.frame := by
  have hwritten := (frame_writeAll (s.exitInformation reason q info error) _).trans
    (frame_writeAll { s with rip := s.exitRip reason }.savedGuestState s.vmx)
  unfold Cpu.exitVmcs
  dsimp only
  split
  · exact (frame_write _ _ _).trans hwritten
  · exact hwritten

theorem state_of_frame {x y : Vmx} (h : y.frame = x.frame) : y.state = x.state := by
  have hptr : y.vmxonPtr = x.vmxonPtr := congrArg (·.2.2.1) h
  have hon : y.on = x.on := congrArg (·.2.1) h
  have hcurrent : y.current = x.current := congrArg (·.2.2.2.1) h
  have hguest : y.inGuest = x.inGuest := congrArg (·.2.2.2.2) h
  unfold Vmx.state
  rw [hptr, hon, hcurrent, hguest]

/-- Outside a guest, the VMCS may hold anything. -/
theorem vt_of_frame {T : VtState → VtState → Prop} [Std.Refl T] {s t : Cpu}
    (hg : s.vmx.inGuest = false) (h : t.vmx.frame = s.vmx.frame) :
    VtMoves T s t := by
  have hfeat : t.vmx.featureControl = s.vmx.featureControl := congrArg (·.1) h
  have hon : t.vmx.on = s.vmx.on := congrArg (·.2.1) h
  have hcurrent : t.vmx.current = s.vmx.current := congrArg (·.2.2.2.1) h
  have hguest : t.vmx.inGuest = s.vmx.inGuest := congrArg (·.2.2.2.2) h
  refine .stutter fun hs => ⟨⟨?_, ?_, fun hin => ?_⟩, state_of_frame h⟩
  · rw [hon, hcurrent, hguest]
    exact hs.off
  · rw [hon, hfeat]
    exact hs.locked
  · rw [hguest, hg] at hin
    cases hin

/-! ## VM exits -/

theorem frame_vmExit (s : Cpu) (reason : U32) (q : U64) (info error : U32) :
    (s.vmExit reason q info error).vmx.frame =
      (s.vmx.featureControl, s.vmx.on, s.vmx.vmxonPtr, s.vmx.current, false) := by
  rw [Cpu.vmExit, Cpu.vmx_loadHostState]
  have h := frame_exitVmcs s reason q info error
  exact congrArg (fun f : U64 × Bool × U64 × Option U64 × Bool =>
    (f.1, f.2.1, f.2.2.1, f.2.2.2.1, false)) h

theorem vt_vmExit (s : Cpu) (reason : U32) (q : U64) (info error : U32) :
    VtMoves MayExit s (s.vmExit reason q info error) := by
  have hframe := frame_vmExit s reason q info error
  cases hg : s.vmx.inGuest with
  | false => exact vt_of_frame hg (hframe.trans (by unfold Vmx.frame; rw [hg]))
  | true =>
    generalize s.vmExit reason q info error = t at hframe
    have hfeat : t.vmx.featureControl = s.vmx.featureControl := congrArg (·.1) hframe
    have hon : t.vmx.on = s.vmx.on := congrArg (·.2.1) hframe
    have hptr : t.vmx.vmxonPtr = s.vmx.vmxonPtr := congrArg (·.2.2.1) hframe
    have hcurrent : t.vmx.current = s.vmx.current := congrArg (·.2.2.2.1) hframe
    have hout : t.vmx.inGuest = false := congrArg (·.2.2.2.2) hframe
    intro hs
    have hson : s.vmx.on = true := by
      cases hoff : s.vmx.on with
      | true => rfl
      | false => exact absurd hg (by rw [(hs.off hoff).2]; decide)
    refine ⟨⟨fun hoff => ?_, ?_, fun hin => ?_⟩, ?_⟩
    · rw [hon, hson] at hoff
      cases hoff
    · rw [hon, hfeat]
      exact hs.locked
    · rw [hout] at hin
      cases hin
    · obtain ⟨q, hq⟩ := Option.isSome_iff_exists.mp (hs.guest hg).1
      unfold Cpu.vtState Vmx.state
      rw [hg, hout, hon, hson, hptr, hcurrent, hq]
      exact .inr .vmexit

theorem vmx_typeNextKey (s : Cpu) : s.typeNextKey.vmx = s.vmx := by
  unfold Cpu.typeNextKey
  split
  · split <;> rfl
  · rfl

instance : EventFrame (VtMoves MayExit) where
  of_outer := vt_of_outer
  exit := vt_vmExit
  types s := vt_of_vmx (vmx_typeNextKey s)

/-! ## VM entry -/

theorem vmRead_entered (s : Cpu) {f : U32} (hf : Vmx.slot f ≠ some Vmx.launchSlot) :
    s.enterGuest.vmRead f = s.vmRead f := vmRead_enterGuest hf

theorem checkControls_reads {s t : Cpu}
    (h : ∀ f ∈ [Field.pinCtls, Field.cpuCtls, Field.exitCtls, Field.entryCtls, Field.hostCr0,
      Field.hostCr4, Field.cpuCtls2, Field.hostRip], t.vmRead f = s.vmRead f) :
    t.checkControls = s.checkControls := by
  simp only [List.mem_cons, List.not_mem_nil, or_false, forall_eq_or_imp, forall_eq] at h
  obtain ⟨h1, h2, h3, h4, h5, h6, h7, h8⟩ := h
  unfold Cpu.checkControls
  simp only [h1, h2, h3, h4, h5, h6, h7, h8]

theorem vmx_enterGuest (s : Cpu) : s.enterGuest.vmx = { s.vmx with
    hostLong := test (u32 (s.vmRead Field.exitCtls)) Vmx.exitHostAddrSpaceSize
    vmcs := fun i => if i = Vmx.launchSlot then bit true else s.vmx.vmcs i
    inGuest := true } := by
  have h : s.enterGuest.vmx = { (({ s with vmx := { s.vmx with
      hostLong := test (u32 (s.vmRead Field.exitCtls)) Vmx.exitHostAddrSpaceSize
      } }.loadGuestState).vmx.setLaunched true) with inGuest := true } := rfl
  rw [h, Cpu.vmx_loadGuestState]
  rfl

theorem vt_enterGuest {s : Cpu} (hon : s.vmx.on = true) (hg : s.vmx.inGuest = false)
    (hcurrent : s.vmx.current.isSome = true) (hok : s.checkControls = .ok ()) :
    VtMoves (VtStep .vmentry) s s.enterGuest := by
  intro hs
  have hv := vmx_enterGuest s
  have hsame : s.enterGuest.checkControls = s.checkControls := by
    refine checkControls_reads fun f hf => vmRead_entered s ?_
    simp only [List.mem_cons, List.not_mem_nil, or_false] at hf
    rcases hf with rfl | rfl | rfl | rfl | rfl | rfl | rfl | rfl <;> decide
  refine ⟨⟨fun hoff => ?_, fun _ => ?_, fun _ => ⟨?_, ?_, hsame.trans hok⟩⟩, ?_⟩
  · rw [hv] at hoff
    rw [hon] at hoff
    cases hoff
  · rw [hv]
    exact hs.locked hon
  · rw [hv]
    exact hcurrent
  · rw [hv]
    rfl
  · obtain ⟨q, hq⟩ := Option.isSome_iff_exists.mp hcurrent
    unfold Cpu.vtState Vmx.state
    rw [hv, hg, hon, hq]
    exact .vmentry

theorem vt_consumeEvent (s : Cpu) : VtMoves MayExit s s.consumeEvent := by
  have hv : s.consumeEvent.vmx = s.vmx.write Field.entryIntrInfo 0 := rfl
  have hframe : s.consumeEvent.vmx.frame = s.vmx.frame := hv ▸ frame_write _ _ _
  have hfeat : s.consumeEvent.vmx.featureControl = s.vmx.featureControl := congrArg (·.1) hframe
  have hon : s.consumeEvent.vmx.on = s.vmx.on := congrArg (·.2.1) hframe
  have hcurrent : s.consumeEvent.vmx.current = s.vmx.current := congrArg (·.2.2.2.1) hframe
  have hguest : s.consumeEvent.vmx.inGuest = s.vmx.inGuest := congrArg (·.2.2.2.2) hframe
  have hlaunched : s.consumeEvent.vmx.launched = s.vmx.launched := by
    unfold Vmx.launched
    rw [hv, Vmx.vmcs_write, if_neg (by decide)]
  have hsame : s.consumeEvent.checkControls = s.checkControls := by
    refine checkControls_reads fun f hf => ?_
    show s.consumeEvent.vmx.read f = s.vmx.read f
    rw [hv]
    refine Vmx.read_write_of_ne _ ?_ _
    simp only [List.mem_cons, List.not_mem_nil, or_false] at hf
    rcases hf with rfl | rfl | rfl | rfl | rfl | rfl | rfl | rfl <;> decide
  refine .stutter fun hs => ⟨⟨?_, ?_, ?_⟩, state_of_frame hframe⟩
  · rw [hon, hcurrent, hguest]
    exact hs.off
  · rw [hon, hfeat]
    exact hs.locked
  · rw [hguest, hcurrent, hlaunched, hsame]
    exact hs.guest

theorem vt_vmEntry {s : Cpu} (hon : s.vmx.on = true) (hg : s.vmx.inGuest = false)
    (hcurrent : s.vmx.current.isSome = true) (hok : s.checkControls = .ok ()) :
    VtMoves (Relation.Comp (VtStep .vmentry) MayExit) s (vmEntry s).2 := by
  refine (vt_enterGuest hon hg hcurrent hok).comp (t := s.enterGuest) ?_
  rw [vmEntry, bind_run, modify_run, bind_run, get_run]
  dsimp only
  cases s.enterGuest.injectedEvent with
  | none => exact refl _
  | some e =>
    exact IsTrans.trans _ _ _ (vt_consumeEvent _)
      (exit_dispatchExceptionRaw (R := VtMoves MayExit) e.1 e.2 s.enterGuest.consumeEvent)

/-! ## VMX instructions -/

section Instructions

variable {v : VmxInst} {s t : Cpu}

/-- A change of the current VMCS and of what it holds, in root operation. -/
theorem vt_current {T : VtState → VtState → Prop} {c : Option U64} {f : Nat → U64}
    (hon : s.vmx.on = true) (hg : s.vmx.inGuest = false)
    (hv : t.vmx = { s.vmx with current := c, vmcs := f })
    (hstep : T (.root s.vmx.vmxonPtr s.vmx.current) (.root s.vmx.vmxonPtr c)) : VtMoves T s t := by
  refine fun hs => ⟨⟨fun h => ?_, fun _ => ?_, fun h => ?_⟩, ?_⟩
  · rw [hv] at h
    exact absurd h (by rw [hon]; decide)
  · rw [hv]
    exact hs.locked hon
  · rw [hv] at h
    exact absurd h (by rw [hg]; decide)
  · unfold Cpu.vtState Vmx.state
    rw [hv, hg, hon]
    exact hstep

/-- VMXON, under a locked feature control. -/
theorem vt_on {p : U64} (hoff : s.vmx.on = false) (hg : s.vmx.inGuest = false)
    (hlock : test s.vmx.featureControl Vmx.featLocked = true) (hp : Cpu.badRegionPtr p = false)
    (hv : t.vmx = { s.vmx with on := true, vmxonPtr := p, current := none }) :
    VtMoves (VtStep (.vmxon p)) s t := by
  refine fun _ => ⟨⟨fun h => ?_, fun _ => ?_, fun h => ?_⟩, ?_⟩
  · rw [hv] at h
    cases h
  · rw [hv]
    exact hlock
  · rw [hv] at h
    exact absurd h (by rw [hg]; decide)
  · unfold Cpu.vtState Vmx.state
    rw [hv, hg, hoff]
    exact .vmxon hp

/-- VMXOFF. -/
theorem vt_off (hon : s.vmx.on = true) (hg : s.vmx.inGuest = false)
    (hv : t.vmx = { s.vmx with on := false, current := none }) : VtMoves (VtStep .vmxoff) s t := by
  refine fun _ => ⟨⟨fun _ => ?_, fun h => ?_, fun h => ?_⟩, ?_⟩
  · rw [hv]
    exact ⟨rfl, hg⟩
  · rw [hv] at h
    cases h
  · rw [hv] at h
    exact absurd h (by rw [hg]; decide)
  · unfold Cpu.vtState Vmx.state
    rw [hv, hg, hon]
    exact .vmxoff

/-- Out of a guest, a VMX instruction makes the step it asks for, or none. -/
theorem vt_done (hg : s.vmx.inGuest = false) (h : VmxDone v s t) :
    VtMoves (InstStep (.vmx v) s) s t := by
  cases h with
  | plain h => exact vt_of_outer h
  | wrote _ f x h => exact vt_of_frame hg (h.vmx ▸ frame_write s.vmx f x)
  | on hop hread hoff hlock hp h =>
    exact (vt_on hoff hg hlock hp h.vmx).mono fun _ _ => .made rfl (.vmxon hop hread)
  | off hop hon h => exact (vt_off hon hg h.vmx).mono fun _ _ => .made rfl (.vmxoff hop)
  | clear hop hon hread hcurrent h =>
    exact vt_current hon hg h.vmx (.made rfl (.vmclear hop hread) (hcurrent ▸ .vmclear))
  | load hop hon hread hp hne h =>
    exact vt_current hon hg h.vmx (.made rfl (.vmptrld hop hread) (.vmptrld hp hne))
  | enter hop hon hcurrent hok =>
    refine (vt_vmEntry hon hg hcurrent hok).mono fun a c ⟨b, hentry, hexit⟩ => ?_
    rcases hexit with rfl | hexit
    · exact .made rfl (.vmentry hop) hentry
    · exact .bounced rfl (.vmentry hop) hentry hexit

/-- WRMSR changes the feature control only until it is locked, and VT-x is on only after. -/
theorem vt_wrmsr {T : VtState → VtState → Prop} [Std.Refl T] (s : Cpu) :
    VtMoves T s (wrmsr s).2 := by
  rcases done_wrmsr s with h | ⟨hunlocked, f, h⟩
  · exact vt_of_outer h
  refine .stutter fun hs => ?_
  have hoff : s.vmx.on = false := by
    by_contra hon
    rw [hs.locked (by simpa using hon)] at hunlocked
    cases hunlocked
  have hidle := hs.off hoff
  refine ⟨⟨fun _ => ?_, fun hon => ?_, fun hin => ?_⟩, ?_⟩
  · rw [h.vmx]
    exact hidle
  · rw [h.vmx] at hon
    exact absurd (hoff.symm.trans hon) (by decide)
  · rw [h.vmx] at hin
    exact absurd (hidle.2.symm.trans hin) (by decide)
  · rw [Cpu.vtState, h.vmx]
    rfl

/-! ## A turn -/

theorem vt_execute {inst : Inst} (hv : ∀ v, inst = .vmx v → s.vmx.inGuest = false) :
    VtMoves (InstStep inst s) s (execute inst s).2 := by
  cases h : inst.reachesVmx with
  | false => exact vt_of_outer (outer_execute h s)
  | true =>
    cases inst with
    | wrmsr => exact vt_wrmsr s
    | vmx v => exact vt_done (hv v rfl) (done_executeVmx v s)
    | _ => cases h

/-- In a guest, an instruction exits or leaves VT-x where it is. -/
theorem vt_guestExecute (inst : Inst) (s : Cpu) : VtMoves MayExit s (guestExecute inst s).2 := by
  obtain ⟨hkept, hpass⟩ := exit_intercept (R := VtMoves MayExit) inst s
  show VtMoves MayExit s ((if (intercept inst s).1 then pure () else execute inst : Exec Unit)
    (intercept inst s).2).2
  cases hb : (intercept inst s).1 with
  | true => exact hkept
  | false =>
    refine IsTrans.trans _ _ _ hkept ?_
    generalize (intercept inst s).2 = u
    show VtMoves MayExit u (execute inst u).2
    cases h : inst.reachesVmx with
    | false => exact vt_of_outer (outer_execute h u)
    | true =>
      cases inst with
      | wrmsr => exact vt_wrmsr u
      | vmx v => cases hb.symm.trans (intercept_vmx v s)
      | _ => cases h

theorem vt_stepInst (inst : Inst) (s : Cpu) :
    VtMoves (InstStep inst s) s (stepInst inst s).2 := by
  unfold stepInst
  rw [bind_run, get_run, ite_run, ite_run]
  split
  · exact refl s
  split
  · exact (vt_guestExecute inst s).mono fun _ _ => instStep_of_mayExit
  · rename_i hg
    exact vt_execute fun _ _ => Bool.eq_false_iff.mpr hg

end Instructions

/-- What a turn does to VT-x: events leave the guest at most, a running machine's instruction then
makes the step it asks for. -/
structure TurnOrdered (decode : Exec Inst) (s t : Cpu) : Prop where
  halted : s.halted = true → MayExit s.vtState t.vtState
  events : s.halted = false → MayExit s.vtState s.atDecode.vtState
  inst : s.halted = false →
    InstStep (decode s.atDecode).1 (decode s.atDecode).2 s.atDecode.vtState t.vtState

theorem vt_turn {decode : Exec Inst} (hd : Keeps SameOuter decode) {s t : Cpu}
    (h : turn decode s = some t) (hs : VtSound s) : VtSound t ∧ TurnOrdered decode s t := by
  have hcount (s : Cpu) : VtMoves MayExit s s.countInst := vt_of_vmx rfl
  rcases turn_cases h with ⟨hrunning, rfl⟩ | ⟨hhalted, rfl⟩
  · obtain ⟨hat, hevents⟩ := event_atDecode (R := VtMoves MayExit) s hs
    have hdecoded := hd s.atDecode
    obtain ⟨hend, hinst⟩ := vt_stepInst (decode s.atDecode).1 (decode s.atDecode).2
      (vtSound_congr hdecoded.vmx hat)
    rw [step_run]
    refine ⟨(hcount _ hend).1, ?_, fun _ => hevents, fun _ => ?_⟩
    · rw [hrunning]
      nofun
    · rw [Cpu.vtState, hdecoded.vmx] at hinst
      exact hinst
  · obtain ⟨hend, hexit⟩ := IsTrans.trans _ _ _ (hcount s) (event_idle (R := VtMoves MayExit) s) hs
    refine ⟨hend, fun _ => hexit, ?_, ?_⟩
    · rw [hhalted]
      nofun
    · rw [hhalted]
      nofun

theorem TurnOrdered.placed {decode : Exec Inst} {s t : Cpu} (h : TurnOrdered decode s t)
    (hs : s.vtState.Placed) : t.vtState.Placed := by
  cases hhalted : s.halted with
  | true => exact placed_mayExit hs (h.halted hhalted)
  | false => exact placed_instStep (placed_mayExit hs (h.events hhalted)) (h.inst hhalted)

/-! ## What an exit loads -/

/-- The fields an exit writes are none of the host's. -/
theorem vmRead_exitVmcs (s : Cpu) (reason : U32) (q : U64) (info error : U32) {f : U32}
    (hf : ((savedFields ++ informationFields).map Vmx.slot).contains (Vmx.slot f) = false) :
    (s.exitVmcs reason q info error).read f = s.vmRead f := by
  rw [← Bool.not_eq_true, List.contains_iff_mem, List.map_append, List.mem_append, not_or] at hf
  obtain ⟨hsaved, hinfo⟩ := hf
  rw [exitVmcs_eq, Vmx.read_writeAll_of_notMem, Vmx.read_writeAll_of_notMem]
  · rfl
  · show Vmx.slot f ∉ (Cpu.savedGuestState _).map (Vmx.slot ∘ Prod.fst)
    rwa [← List.map_map, savedGuestState_fields]
  · intro h
    refine hinfo ((exitInformation_fields s reason q info error).map Vmx.slot |>.subset ?_)
    rwa [List.map_map]

/-- CR0 and CR4. -/
def Cpu.fixable (s : Cpu) : U32 × U32 := (s.cr0, s.cr4)

theorem fixable_writeCr0 (s : Cpu) (v : U32) : (s.writeCr0 v).fixable = (v, s.cr4) := by
  have hlong (t : Cpu) : t.updateLongMode.fixable = t.fixable := by
    unfold Cpu.updateLongMode
    dsimp only
    split <;> rfl
  unfold Cpu.writeCr0
  dsimp only
  split
  · exact hlong _
  · exact hlong _

theorem fixable_foldl {β : Type} {f : Cpu → β → Cpu} (h : ∀ t b, (f t b).fixable = t.fixable) :
    ∀ (l : List β) (t : Cpu), (l.foldl f t).fixable = t.fixable
  | [], _ => rfl
  | b :: l, t => (fixable_foldl h l (f t b)).trans (h t b)

/-- CR0 and CR4 come from the host-state area. -/
theorem fixable_loadHostState (s : Cpu) : s.loadHostState.fixable =
    (u32 (s.vmRead Field.hostCr0), u32 (s.vmRead Field.hostCr4)) := by
  let r := s.vmx.read
  have hseg (t : Cpu) (f : SegReg × U32) : ((t.setSeg f.1 (u16 (r f.2))).setSegDesc f.1
      (Cpu.hostDesc (test (u32 (r Field.exitCtls)) Vmx.exitHostAddrSpaceSize)
        f.1)).fixable = t.fixable := by
    cases f.1 <;> rfl
  have hlast (t : Cpu) (fs gs : U64) : ({ t with
      fsBase := fs
      gsBase := gs
      halted := false
      pendingException := none } : Cpu).invalidatePhysIp.fixable = t.fixable := rfl
  let u : Cpu := { s with
    efer := s.exitEfer &&& ~~~Efer.lma
    cr4 := u32 (r Field.hostCr4)
    cr3 := r Field.hostCr3 }
  unfold Cpu.loadHostState
  dsimp only
  refine (hlast _ _ _).trans ((fixable_foldl hseg _ _).trans ?_)
  show (u.writeCr0 (u32 (r Field.hostCr0))).fixable = _
  exact fixable_writeCr0 u _

/-- A bit the checks of an entry require of a host register is on after the exit. -/
theorem fixed_of_low {v fixed : U64} (hlow : fixed &&& 0xFFFFFFFF = fixed)
    (h : v &&& fixed = fixed) : u64 (u32 v) &&& fixed = fixed := by
  have htrunc : (u64 (u32 v) : U64) = v &&& 0xFFFFFFFF := by
    refine BitVec.eq_of_toNat_eq ?_
    rw [BitVec.toNat_setWidth, BitVec.toNat_setWidth, BitVec.toNat_and]
    have hmask : (0xFFFFFFFF : U64).toNat = 2 ^ 32 - 1 := rfl
    rw [hmask, Nat.and_two_pow_sub_one_eq_mod]
    omega
  rw [htrunc, BitVec.and_assoc, BitVec.and_comm 0xFFFFFFFF, hlow, h]

theorem fixed_vmExit {s : Cpu} (hok : s.checkControls = .ok ()) (reason : U32) (q : U64)
    (info error : U32) :
    u64 (s.vmExit reason q info error).cr0 &&& Vmx.cr0Fixed0 = Vmx.cr0Fixed0 ∧
      u64 (s.vmExit reason q info error).cr4 &&& Vmx.cr4Fixed0 = Vmx.cr4Fixed0 := by
  have hfixed : s.vmRead Field.hostCr0 &&& Vmx.cr0Fixed0 = Vmx.cr0Fixed0 ∧
      s.vmRead Field.hostCr4 &&& Vmx.cr4Fixed0 = Vmx.cr4Fixed0 := by
    unfold Cpu.checkControls at hok
    dsimp only at hok
    split at hok
    · cases hok
    split at hok
    · cases hok
    split at hok
    · cases hok
    rename_i hfixed
    rw [not_or] at hfixed
    exact ⟨not_not.mp hfixed.1, not_not.mp hfixed.2⟩
  obtain ⟨hcr0, hcr4⟩ := Prod.mk.inj (fixable_loadHostState
    { s with vmx := { s.exitVmcs reason q info error with inGuest := false } })
  have hread {f : U32} (hf : ((savedFields ++ informationFields).map Vmx.slot).contains
      (Vmx.slot f) = false) : Cpu.vmRead { s with
        vmx := { s.exitVmcs reason q info error with inGuest := false } } f = s.vmRead f :=
    vmRead_exitVmcs s reason q info error hf
  unfold Cpu.vmExit
  rw [hcr0, hcr4, hread (by decide +kernel), hread (by decide +kernel)]
  exact ⟨fixed_of_low (by decide) hfixed.1, fixed_of_low (by decide) hfixed.2⟩

/-! ## The order holds -/

/-- Where a run leaves VT-x: its regions are aligned and apart, and a guest runs under a locked
feature control, from a launched VMCS that has passed the checks of an entry, so that leaving it has
protection, paging and VMXE on. -/
structure VtOrdered (t : Cpu) : Prop where
  placed : t.vtState.Placed
  sound : VtSound t
  exits : t.vmx.inGuest = true → ∀ reason q info error,
    u64 (t.vmExit reason q info error).cr0 &&& Vmx.cr0Fixed0 = Vmx.cr0Fixed0 ∧
      u64 (t.vmExit reason q info error).cr4 &&& Vmx.cr4Fixed0 = Vmx.cr4Fixed0

theorem vtOrdered_runFor {decode : Exec Inst} (hd : Keeps SameOuter decode) :
    ∀ (n : Nat) {s t : Cpu}, runFor decode n s = some t → VtSound s → s.vtState.Placed →
      VtSound t ∧ t.vtState.Placed
  | 0, _, _, h, hs, hp => Option.some.inj h ▸ ⟨hs, hp⟩
  | n + 1, s, t, h, hs, hp => by
    obtain ⟨u, hu, hrest⟩ := Option.bind_eq_some_iff.mp h
    obtain ⟨hsound, hturn⟩ := vt_turn hd hu hs
    exact vtOrdered_runFor hd n hrest hsound (hturn.placed hp)

/-- Every run of a machine whose VT-x starts as a new machine has it, off, is in order, and so is
each turn it goes on with. -/
theorem vmx_runs_in_order (decodeOp : U8 → Rep → OpDecoder) (n turns : Nat) {s t : Cpu}
    (hs : s.vmx = {}) (ht : runFor (decode decodeOp n) turns s = some t) :
    s.vtState = .off ∧ VtOrdered t ∧
      ∀ t', turn (decode decodeOp n) t = some t' → TurnOrdered (decode decodeOp n) t t' := by
  have hd := outer_decode decodeOp n
  have hoff : s.vtState = .off := by
    unfold Cpu.vtState
    rw [hs]
    rfl
  have hstart : VtSound s := by
    refine ⟨fun _ => ?_, fun hon => ?_, fun hin => ?_⟩
    · rw [hs]
      exact ⟨rfl, rfl⟩
    · rw [hs] at hon
      cases hon
    · rw [hs] at hin
      cases hin
  obtain ⟨hsound, hplaced⟩ := vtOrdered_runFor hd turns ht hstart (hoff ▸ trivial)
  exact ⟨hoff, ⟨hplaced, hsound, fun hin => fixed_vmExit (hsound.guest hin).2.2⟩,
    fun _ hturn => (vt_turn hd hturn hsound).2⟩

/-- Code at 800h of a paged machine: WRMSR, which locks the feature control, VMXON of the region the
word at 100h points to, and VMPTRLD of the one the word at 108h points to. -/
def enteringRoot : Cpu :=
  let s := Cpu.withRam (2 ^ 16) Memory.segment_le 0
  { s with
    cr0 := u32 Vmx.cr0Fixed0
    cr3 := 0x3000
    cr4 := 0x10 ||| u32 Vmx.cr4Fixed0
    pe := true
    rip := 0x800
    regs := fun r => if r = 0 then 5 else if r = 1 then 0x3A else 0
    mem := ((((((s.mem.writeU64 0x800 0x010036C70FF3300F).writeU64 0x808 0x010836C70F).writeU64 0x100
      0x1000).writeU64 0x108 0x2000).writeU32 0x1000 Vmx.vmcsRevision).writeU32 0x2000
      Vmx.vmcsRevision).writeU32 0x3000 0x83 }

theorem enteringRoot_in_order : ∃ t, runFor (decode decodeOp 15) 3 enteringRoot = some t ∧
    t.vtState = .root 0x1000 (some 0x2000) ∧ VtOrdered t := by
  have hstate : (runFor (decode decodeOp 15) 3 enteringRoot).map Cpu.vtState =
      some (.root 0x1000 (some 0x2000)) := by decide +kernel
  obtain ⟨t, ht, hend⟩ := Option.map_eq_some_iff.mp hstate
  exact ⟨t, ht, hend, (vmx_runs_in_order decodeOp 15 3 rfl ht).2.1⟩

end X86Emu
