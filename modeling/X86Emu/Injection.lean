import X86Emu.ExceptionRouting
import X86Emu.PushedWords

/-!
# Events injected at VM entry

What becomes of the event a VM entry injects: its handler is entered, or the fault that pushing its
frame raises ends it in a double or a triple fault, or it is lost.
-/
namespace X86Emu

open StateRules

/-! ## The context an entry loads -/

namespace Cpu

variable (h : Cpu)

/-- The guest about to take the event injected at this entry. -/
def injecting (v : U8) : Cpu := h.enterGuest.consumeEvent.atEvent v

/-- The length a software event adds to the guest's RIP. -/
def eventLength : U64 :=
  let ty := (u32 (h.vmRead Field.entryIntrInfo) >>> 8) &&& 7
  if ty = 4 ∨ ty = 6 then h.vmRead Field.entryInstrLen else 0

end Cpu

/-- `e` runs in the context of the guest-state area, after the instruction of a software event. -/
structure AreaContext (h e : Cpu) : Prop where
  cs : e.cs = u16 (h.vmRead Field.guestCsSel)
  ss : e.ss = u16 (h.vmRead Field.guestSsSel)
  rsp : e.rsp = h.vmRead Field.guestRsp
  flags : e.flags = u32 (h.vmRead Field.guestRflags) &&& Flags.writable ||| Flags.alwaysSet
  rip : e.rip = h.vmRead Field.guestRip + h.eventLength
  csDesc : e.segDesc .cs = Cpu.areaDesc h.vmx .cs
  ssDesc : e.segDesc .ss = Cpu.areaDesc h.vmx .ss

section Entry

variable (h : Cpu)

theorem loaded_enterGuest' :
    Loaded h.vmRead (h.entryEfer &&& ~~~Efer.lma) h.enterGuest :=
  ((loaded_loadGuestState { h with vmx := { h.vmx with
    hostLong := test (u32 (h.vmRead Field.exitCtls)) Vmx.exitHostAddrSpaceSize } }).withVmx _).withVmx _

theorem atEvent_rip (g : Cpu) (v : U8) (hg : g.ripStart = g.rip) :
    (g.atEvent v).ripStart = (g.atEvent v).rip ∧ (g.atEvent v).rip = g.rip := by
  unfold Cpu.atEvent
  split
  · exact ⟨hg, rfl⟩
  · exact ⟨rfl, hg⟩

theorem injecting_rip (v : U8) :
    (h.injecting v).ripStart = (h.injecting v).rip ∧
      (h.injecting v).rip = h.enterGuest.consumeEvent.rip :=
  atEvent_rip _ v rfl

theorem consumeEvent_rip :
    h.enterGuest.consumeEvent.rip = h.vmRead Field.guestRip + h.eventLength := by
  have hinfo : h.enterGuest.vmRead Field.entryIntrInfo = h.vmRead Field.entryIntrInfo :=
    vmRead_enterGuest (by decide)
  have hkeep : h.enterGuest.vmRead Field.entryInstrLen = h.vmRead Field.entryInstrLen :=
    vmRead_enterGuest (by decide)
  have hrip : h.enterGuest.rip = h.vmRead Field.guestRip := (loaded_enterGuest' h).rip
  generalize h.enterGuest = g at hinfo hkeep hrip ⊢
  have hslots : Vmx.slot Field.entryIntrInfo ≠ Vmx.slot Field.entryInstrLen := by decide
  have hlen : (g.vmWrite Field.entryIntrInfo 0).vmRead Field.entryInstrLen =
      g.vmRead Field.entryInstrLen := Vmx.read_write_of_ne g.vmx hslots 0
  unfold Cpu.consumeEvent Cpu.eventLength
  dsimp only
  rw [hinfo, hlen, hkeep, show (g.vmWrite Field.entryIntrInfo 0).rip = g.rip from rfl, hrip]
  split
  · rfl
  · exact (BitVec.add_zero _).symm

theorem consumed_fields (g : Cpu) (v : U8) :
    (g.consumeEvent.atEvent v).cs = g.cs ∧ (g.consumeEvent.atEvent v).ss = g.ss ∧
      (g.consumeEvent.atEvent v).regs = g.regs ∧ (g.consumeEvent.atEvent v).flags = g.flags ∧
      (g.consumeEvent.atEvent v).segDesc = g.segDesc ∧ (g.consumeEvent.atEvent v).pe = g.pe ∧
      (g.consumeEvent.atEvent v).pendingException = g.pendingException := by
  unfold Cpu.atEvent
  split <;> exact ⟨rfl, rfl, rfl, rfl, rfl, rfl, rfl⟩

theorem areaContext_of_loaded {g : Cpu} {efer : U64} (hl : Loaded h.vmRead efer g) (v : U8)
    (hrip : (g.consumeEvent.atEvent v).rip = h.vmRead Field.guestRip + h.eventLength) :
    AreaContext h (g.consumeEvent.atEvent v) := by
  obtain ⟨hcs, hss, hregs, hflags, hdesc, -⟩ := consumed_fields g v
  exact
    { cs := hcs.trans (hl.seg .cs)
      ss := hss.trans (hl.seg .ss)
      rsp := (congrFun hregs 4).trans hl.rsp
      flags := hflags.trans hl.flags
      rip := hrip
      csDesc := (congrFun hdesc .cs).trans (hl.segDesc .cs)
      ssDesc := (congrFun hdesc .ss).trans (hl.segDesc .ss) }

theorem areaContext_injecting (v : U8) : AreaContext h (h.injecting v) :=
  areaContext_of_loaded h (loaded_enterGuest' h) v
    ((injecting_rip h v).2.trans (consumeEvent_rip h))

/-- The fixed bits of CR0 put every guest in protected mode. -/
theorem pe_of_loaded {g : Cpu} {efer : U64} (hl : Loaded h.vmRead efer g) : g.pe = true := by
  rw [hl.pe, hl.cr0]
  have hbit : (u32 (h.vmRead Field.guestCr0 ||| Vmx.cr0Fixed0)).getLsbD 0 = true := by
    rw [BitVec.getLsbD_setWidth, BitVec.getLsbD_or]
    have : Vmx.cr0Fixed0.getLsbD 0 = true := by decide
    rw [this]
    simp
  have htest := test_bit (u32 (h.vmRead Field.guestCr0 ||| Vmx.cr0Fixed0)) (k := 0) (by decide)
  exact htest.trans hbit

theorem pending_writeCr0 (s : Cpu) (v : U32) : (s.writeCr0 v).pendingException = s.pendingException := by
  unfold Cpu.writeCr0 Cpu.updateLongMode
  dsimp only
  split <;> split <;> rfl

theorem pending_loadGuestState (s : Cpu) :
    s.loadGuestState.pendingException = s.pendingException := by
  unfold Cpu.loadGuestState
  rw [Cpu.loadSegments_eq]
  exact pending_writeCr0 _ _

theorem pending_enterGuest : h.enterGuest.pendingException = h.pendingException := by
  have hset (g : Cpu) (x : Vmx) : { g.setLaunched true with vmx := x }.pendingException =
      g.pendingException := rfl
  unfold Cpu.enterGuest
  dsimp only
  rw [hset, pending_loadGuestState]

/-- A guest always runs in protected or long mode, with no exception pending. -/
theorem injecting_ready (v : U8) (hp : h.pendingException = none) :
    (h.injecting v).pe = true ∧ (h.injecting v).vmx.inGuest = true ∧
      (h.injecting v).pendingException = none := by
  have hpe := pe_of_loaded h (loaded_enterGuest' h)
  have hpend : h.enterGuest.pendingException = none := (pending_enterGuest h).trans hp
  have hin : h.enterGuest.vmx.inGuest = true := rfl
  unfold Cpu.injecting
  generalize h.enterGuest = g at hpe hpend hin
  obtain ⟨-, -, -, -, -, hgpe, hgpend⟩ := consumed_fields g v
  refine ⟨hgpe.trans hpe, ?_, hgpend.trans hpend⟩
  rw [vmx_atEvent]
  exact (Vmx.inGuest_write g.vmx Field.entryIntrInfo 0).trans hin

end Entry

/-! ## What becomes of the event -/

/-- What a complete frame saves: SS and RSP, unless a 32-bit gate stays on its stack, RFLAGS, CS,
RIP, and the error code of an event that has one. -/
def Cpu.savedContext (e : Cpu) (v : U8) (code : Option U32) : List U64 :=
  let cut (x : U64) : U64 := if e.longMode then x else u64 (u32 x)
  (if e.longMode ∨ (e.descriptorFor (e.gateOf v).selector).dpl < e.cpl then
    [u64 e.ss, cut e.rsp] else []) ++
    [u64 e.flags, u64 e.cs, cut e.rip] ++ (code.map fun c => (u64 c : U64)).toList

/-- The event's handler has been entered, with a complete frame stored on its stack. -/
structure HandlerEntered (e : Cpu) (v : U8) (code : Option U32) (d : Cpu) : Prop where
  inGuest : d.vmx.inGuest = true
  noFault : d.pendingException = none
  rip : d.rip = (e.gateOf v).target
  cs : d.cs = (e.gateOf v).selector
  frame : Cpu.firstFault e.slotWidth (e.frameOf v code) (e.entered v) = none
  pushed : ∃ u, Cpu.FramePushed e.slotWidth (e.savedContext v code) (e.entered v) u ∧
    d.mem = u.mem ∧ d.regs = u.regs

/-- The delivery from `e`, which left `t`, ended in a triple fault or went on with a double fault, as
the escalation rules say, in the context `e` had. -/
inductive Resolved (e : Cpu) (v : U8) (t d : Cpu) : Prop
  | noGate (h : e.vectorCovered v = false) (hd : d = e.tripleFaultExit)
  | triple (h : v = 0x08) (hf : t.pendingException.isSome = true)
      (hd : d = t.clearPending.tripleFaultExit) (hc : ContextKept e t)
  | double {second : U8} {c : Option U32} (hf : t.pendingException = some (second, c))
      (h : Cpu.escalates v second = true) (hd : d = (dispatchDoubleFault t.clearPending).2)
      (hc : ContextKept e { t with rip := t.ripStart })

/-- The fault left pending exits when it is dispatched, and the exit reports the event. -/
def Reported (info : U32) (d : Cpu) : Prop :=
  ∃ vector code, d.pendingException = some (vector, code) ∧
    (dispatchException vector code d.clearPending).2.vmx.inGuest = false ∧
    u32 ((dispatchException vector code d.clearPending).2.vmRead Field.idtVectoringInfo) = info

/-- The event injected at this entry is not lost. -/
def EventKept (h : Cpu) (v : U8) (code : Option U32) : Prop :=
  AreaContext h (h.injecting v) ∧
    (HandlerEntered (h.injecting v) v code (vmEntry h).2 ∨
      Resolved (h.injecting v) v (protectedIntErr v code (h.injecting v)).2 (vmEntry h).2 ∨
      Reported (u32 (h.vmRead Field.entryIntrInfo)) (vmEntry h).2)

/-- The slot of the frame that cannot be written, if there is one, raises a fault that escalates, in
a context the handler shares. -/
def EventSafe (e : Cpu) (v : U8) (code : Option U32) : Prop :=
  e.vectorCovered v = true → ∀ k second,
    Cpu.firstFault e.slotWidth (e.frameOf v code) (e.entered v) = some (k, second) →
      (v = 0x08 ∧ Reenters e v k) ∨ (Cpu.escalates v second = true ∧ SharesContext e v k)

/-- A frame that can be pushed whole splits no page and no cell of the text window. -/
def FrameWhole (e : Cpu) (v : U8) (code : Option U32) : Prop :=
  e.vectorCovered v = true →
    Cpu.firstFault e.slotWidth (e.frameOf v code) (e.entered v) = none →
      Cpu.SlotsWhole e.slotWidth (e.frameOf v code) (e.entered v)

/-- Every exit clears the IDT-vectoring information. -/
theorem vmRead_idtVectoring (s : Cpu) (reason : U32) (q : U64) (info err : U32) :
    (s.vmExit reason q info err).vmRead Field.idtVectoringInfo = 0 := by
  have hmem : (Field.idtVectoringInfo, (0 : U64)) ∈ s.exitInformation reason q info err := by
    simp [Cpu.exitInformation]
  rw [vmRead_information s reason q info err hmem]
  rfl

/-- So nothing is ever reported. -/
theorem not_reported {info : U32} (hv : test info ((1 : U32) <<< 31) = true) {d : Cpu}
    (hd : d.vmx.inGuest = true ∨ d.pendingException = none) : ¬ Reported info d := by
  rintro ⟨vector, code, hp, hout, hinfo⟩
  have hg : d.vmx.inGuest = true := by
    refine hd.resolve_right fun hnone => ?_
    rw [hnone] at hp
    cases hp
  have houtcome := dispatchException_outcome d.clearPending vector code
    (Q := fun f => f.vmx.inGuest = true ∨ f.vmRead Field.idtVectoringInfo = 0) (fun _ => .inl)
    (fun t reason q i err => .inr (vmRead_idtVectoring t reason q i err)) hg
  rcases houtcome with hin | hzero
  · rw [hin] at hout
    cases hout
  · rw [hzero] at hinfo
    subst hinfo
    exact absurd hv (by decide)

section Runs

variable {h : Cpu} {v : U8} {code : Option U32}

theorem injectedEvent_enterGuest : h.enterGuest.injectedEvent = h.injectedEvent := by
  have hinfo : h.enterGuest.vmRead Field.entryIntrInfo = h.vmRead Field.entryIntrInfo :=
    vmRead_enterGuest (by decide)
  have herr : h.enterGuest.vmRead Field.entryExceptionError =
      h.vmRead Field.entryExceptionError := vmRead_enterGuest (by decide)
  generalize h.enterGuest = g at hinfo herr ⊢
  unfold Cpu.injectedEvent
  rw [hinfo, herr]

/-- An entry with an event delivers it from the state it loads. -/
theorem vmEntry_run (hev : h.injectedEvent = some (v, code)) :
    vmEntry h = deliverEvent dispatchDoubleFault v code h.enterGuest.consumeEvent := by
  have hev' : h.enterGuest.injectedEvent = some (v, code) := injectedEvent_enterGuest.trans hev
  unfold vmEntry
  rw [bind_run, modify_run, bind_run, get_run]
  dsimp only
  generalize h.enterGuest = g at hev' ⊢
  rw [hev']
  rfl

/-- The interruption information of an event is valid. -/
theorem info_valid (hev : h.injectedEvent = some (v, code)) :
    test (u32 (h.vmRead Field.entryIntrInfo)) ((1 : U32) <<< 31) = true := by
  unfold Cpu.injectedEvent at hev
  by_contra hno
  rw [if_neg hno] at hev
  cases hev

theorem pending_vmExit (s : Cpu) (reason : U32) (q : U64) (info err : U32) :
    (s.vmExit reason q info err).pendingException = none := rfl

/-- What an escalation comes to is in the guest still, or has nothing pending. -/
theorem doubleFault_settled (t : Cpu) (ht : t.vmx.inGuest = true) :
    (dispatchDoubleFault t).2.vmx.inGuest = true ∨
      (dispatchDoubleFault t).2.pendingException = none := by
  rw [dispatchDoubleFault_eq]
  exact dispatchException_outcome t 0x08 (some 0)
    (Q := fun f => f.vmx.inGuest = true ∨ f.pendingException = none) (fun _ => .inl)
    (fun s reason q i err => .inr (pending_vmExit s reason q i err)) ht

theorem not_escalates_doubleFault (second : U8) : Cpu.escalates 0x08 second = false := rfl

/-- The words delivery pushes are the context. -/
theorem frameOf_eq (e : Cpu) : e.frameOf v code = e.savedContext v code := by
  unfold Cpu.frameOf Cpu.savedContext frame64 frame32 Cpu.switching
  cases e.longMode with
  | true => rfl
  | false => simp [Cpu.esp, Cpu.eip, Cpu.rsp]

theorem slotWidth_ne (e : Cpu) : e.slotWidth ≠ .w8 := by
  unfold Cpu.slotWidth
  split <;> decide

/-- Delivered whole, the event's handler is entered. -/
theorem handlerEntered_whole {e : Cpu} (hpe : e.pe = true) (hg : e.vmx.inGuest = true)
    (hnone : (protectedIntErr v code e).2.pendingException = none)
    (hf : Cpu.firstFault e.slotWidth (e.frameOf v code) (e.entered v) = none)
    (hslots : Cpu.SlotsWhole e.slotWidth (e.frameOf v code) (e.entered v)) :
    HandlerEntered e v code (protectedIntErr v code e).2.invalidatePhysIp := by
  obtain ⟨hcs, -, -, -, hrip, -⟩ := delivered_fields v code hpe
  have hpe' : (e.entered v).pe = true := by
    rw [Cpu.enterOnly_entered v hpe]
    exact hpe
  have hpushed := Cpu.framePushed_pushAll (slotWidth_ne e) _ _ hpe' hf hslots
  rw [frameOf_eq] at hpushed
  refine
    { inGuest := (congrArg Vmx.inGuest (vmx_protectedIntErr e v code)).trans hg
      noFault := hnone
      rip := hrip
      cs := hcs
      frame := hf
      pushed := ⟨_, hpushed, ?_⟩ }
  rw [e.protectedIntErr_run v code, frameOf_eq]
  generalize (pushAll e.slotWidth (e.savedContext v code) (e.entered v)).2 = t
  exact ⟨rfl, rfl⟩

/-- A frame of 64-bit slots on the aligned stack of 64-bit code is always whole. -/
theorem frameWhole_long {e : Cpu} (hpe : e.pe = true) (hlong : (e.entered v).long64 = true) :
    FrameWhole e v code := by
  intro _ _
  have hent := Cpu.enterOnly_entered v hpe
  have hpe' : (e.entered v).pe = true := by
    rw [hent]
    exact hpe
  have hmode : e.longMode = true := by
    have hefer : (e.entered v).longMode = e.longMode := by
      rw [hent]
      rfl
    rw [← hefer]
    unfold Cpu.long64 at hlong
    rw [Bool.and_eq_true] at hlong
    exact hlong.1
  have hwidth : e.slotWidth = .w64 := if_pos hmode
  rw [hwidth]
  refine Cpu.slotsWhole_aligned _ _ hpe' hlong ?_
  unfold Cpu.entered
  rw [if_pos hmode]
  generalize ((e.handlerStack v).loadSeg .cs (e.gateOf v).selector) = t
  show (t.rsp &&& ~~~0xF).toNat % 8 = 0
  have hlow : (t.rsp &&& ~~~0xF) &&& 7 = 0 := by
    rw [BitVec.and_assoc, show (~~~0xF &&& 7 : U64) = 0 from rfl]
    exact BitVec.and_zero
  have hnat := congrArg BitVec.toNat hlow
  rwa [BitVec.toNat_and, show (7 : U64).toNat = 2 ^ 3 - 1 from rfl,
    Nat.and_two_pow_sub_one_eq_mod] at hnat

/-- What a fault while pushing comes to. -/
theorem resolved_iff {e d : Cpu} (hpe : e.pe = true) (hstart : e.ripStart = e.rip)
    (hcov : e.vectorCovered v = true) {k : Nat} {second : U8} {c : Option U32}
    (hsome : (protectedIntErr v code e).2.pendingException = some (second, c))
    (hregs : (protectedIntErr v code e).2.regs =
      ((Cpu.dropSlot e.slotWidth)^[k] (e.entered v)).regs)
    (hd8 : v = 0x08 → d = (protectedIntErr v code e).2.clearPending.tripleFaultExit)
    (hdf : Cpu.escalates v second = true →
      d = (dispatchDoubleFault (protectedIntErr v code e).2.clearPending).2) :
    Resolved e v (protectedIntErr v code e).2 d ↔
      (v = 0x08 ∧ Reenters e v k) ∨ (Cpu.escalates v second = true ∧ SharesContext e v k) := by
  obtain ⟨-, -, -, -, -, hkept⟩ := delivered_fields v code hpe
  have hrip : (protectedIntErr v code e).2.ripStart = e.rip := hkept.trans hstart
  have htriple := contextKept_iff v code hpe hregs
  have hdouble := contextKept_withRip_iff v code hpe (protectedIntErr v code e).2.ripStart hregs
  constructor
  · rintro (⟨hno, -⟩ | ⟨h8, -, -, hc⟩ | ⟨hf, hesc, -, hc⟩)
    · rw [hcov] at hno
      cases hno
    · exact .inl ⟨h8, htriple.mp hc⟩
    · rw [hsome, Option.some.injEq, Prod.mk.injEq] at hf
      rw [← hf.1] at hesc
      exact .inr ⟨hesc, (hdouble.mp hc).1⟩
  · rintro (⟨h8, hr⟩ | ⟨hesc, hs⟩)
    · exact .triple h8 (by rw [hsome]; rfl) (hd8 h8) (htriple.mpr hr)
    · exact .double hsome hesc (hdf hesc) (hdouble.mpr ⟨hs, hrip⟩)

end Runs

/-- An event injected at VM entry is kept just when no slot of its frame faults, or the fault
escalates in a context that its handler shares. Only 32-bit slots can split a page. -/
theorem eventKept_iff (h : Cpu) (v : U8) (code : Option U32) (hp : h.pendingException = none)
    (hev : h.injectedEvent = some (v, code)) :
    (EventKept h v code → EventSafe (h.injecting v) v code) ∧
      (FrameWhole (h.injecting v) v code →
        (EventKept h v code ↔ EventSafe (h.injecting v) v code)) ∧
      (((h.injecting v).entered v).long64 = true → FrameWhole (h.injecting v) v code) := by
  obtain ⟨hpe, hg, hpend⟩ := injecting_ready h v hp
  have hstart := (injecting_rip h v).1
  have hvalid := info_valid hev
  have harea := areaContext_injecting h v
  have hrun : vmEntry h = _ := (vmEntry_run hev).trans (deliverEvent_run _ v code _)
  rw [show h.enterGuest.consumeEvent.atEvent v = h.injecting v from rfl] at hrun
  suffices hboth : (EventKept h v code → EventSafe (h.injecting v) v code) ∧
      (FrameWhole (h.injecting v) v code → EventSafe (h.injecting v) v code →
        EventKept h v code) by
    exact ⟨hboth.1, fun hw => ⟨hboth.1, hboth.2 hw⟩, frameWhole_long hpe⟩
  unfold EventKept
  rw [hrun]
  generalize h.injecting v = e at hpe hg hpend hstart harea ⊢
  by_cases hcov : e.vectorCovered v = true
  · have hcov' : ¬ (!e.vectorCovered v) = true := by rw [hcov]; decide
    rw [if_neg hcov', if_pos hpe, resolveNested_run]
    have hgt : (protectedIntErr v code e).2.vmx.inGuest = true :=
      (congrArg Vmx.inGuest (vmx_protectedIntErr e v code)).trans hg
    rcases delivered_fault v code hpe hpend with ⟨hnone, hf, -⟩ | ⟨k, second, c, hf, hsome, hregs⟩
    · rw [hnone]
      refine ⟨fun _ _ k second hk => ?_, fun hwhole _ =>
        ⟨harea, .inl (handlerEntered_whole hpe hg hnone hf (hwhole hcov hf))⟩⟩
      rw [hf] at hk
      cases hk
    · rw [hsome]
      dsimp only
      generalize hd : (if v = 0x08 then ((), (protectedIntErr v code e).2.clearPending.resetOnTripleFault)
        else if Cpu.escalates v second = true then
          dispatchDoubleFault (protectedIntErr v code e).2.clearPending
        else ((), (protectedIntErr v code e).2.invalidatePhysIp)) = d
      have hd8 (h8 : v = 0x08) : d.2 = (protectedIntErr v code e).2.clearPending.tripleFaultExit := by
        rw [← hd, if_pos h8]
        exact if_pos hgt
      have hne (hesc : Cpu.escalates v second = true) : v ≠ 0x08 := by
        rintro rfl
        rw [not_escalates_doubleFault] at hesc
        cases hesc
      have hdf (hesc : Cpu.escalates v second = true) :
          d.2 = (dispatchDoubleFault (protectedIntErr v code e).2.clearPending).2 := by
        rw [← hd, if_neg (hne hesc), if_pos hesc]
      have hsettled : d.2.vmx.inGuest = true ∨ d.2.pendingException = none := by
        by_cases h8 : v = 0x08
        · rw [hd8 h8]
          exact .inr (pending_vmExit ..)
        by_cases hesc : Cpu.escalates v second = true
        · rw [hdf hesc]
          exact doubleFault_settled _ hgt
        · rw [← hd, if_neg h8, if_neg hesc]
          exact .inl hgt
      have hres := resolved_iff hpe hstart hcov hsome hregs hd8 hdf
      constructor
      · rintro ⟨-, hent | hr | hrep⟩ _ k' second' hf'
        · rw [hent.frame] at hf
          cases hf
        · rw [hf, Option.some.injEq, Prod.mk.injEq] at hf'
          rw [← hf'.1, ← hf'.2]
          exact hres.mp hr
        · exact absurd hrep (not_reported hvalid hsettled)
      · intro _ hsafe
        exact ⟨harea, .inr (.inl (hres.mpr (hsafe hcov k second hf)))⟩
  · have hcov' : (!e.vectorCovered v) = true := by
      rw [Bool.not_eq_true] at hcov
      rw [hcov]
      rfl
    rw [if_pos hcov']
    refine ⟨fun _ hc => absurd hc hcov, fun _ _ => ⟨harea, .inr (.inl (.noGate ?_ ?_))⟩⟩
    · rwa [Bool.not_eq_true] at hcov
    · exact if_pos hg

/-- A hypervisor entering a 64-bit guest with the first 2 MiB mapped, at 8:0x10000 on this stack,
with external interrupt 0x20 to inject and its gate at 8:0x4000. -/
def injectingHost (rsp : U64) : Cpu :=
  { unmappedStack with
    mem := (unmappedStack.mem.writeU64 0x488 0x00AF9B000000FFFF).writeU64 0x700 0x00008E0000084000
    vmx := longVmcs.writeAll
      [(Field.entryIntrInfo, 0x80000020), (Field.guestCr0, 0x80000021), (Field.guestCr3, 0x1000),
       (Field.guestCr4, 0x2020), (Field.guestEfer, 0x500), (Field.guestRip, 0x10000),
       (Field.guestRsp, rsp), (Field.guestCsSel, 8), (Field.guestCsAr, 0x209B),
       (Field.guestIdtrBase, 0x500), (Field.guestIdtrLimit, 0xFFF), (Field.guestGdtrBase, 0x480)] }

theorem injectingHost_event (rsp : U64) :
    (injectingHost rsp).pendingException = none ∧
      (injectingHost 0x8000).injectedEvent = some (0x20, none) ∧
      (injectingHost 0x400000).injectedEvent = some (0x20, none) :=
  ⟨rfl, by decide +kernel, by decide +kernel⟩

/-- On a mapped stack the interrupt is taken. -/
theorem mappedStack_eventKept :
    (injectingHost 0x8000).pendingException = none ∧
      (injectingHost 0x8000).injectedEvent = some (0x20, none) ∧
      EventKept (injectingHost 0x8000) 0x20 none :=
  ⟨rfl, (injectingHost_event 0).2.1,
    ((eventKept_iff (injectingHost 0x8000) 0x20 none rfl (injectingHost_event 0).2.1).2.1
      ((eventKept_iff (injectingHost 0x8000) 0x20 none rfl (injectingHost_event 0).2.1).2.2
        (by decide +kernel))).mpr (by
      have hnone : Cpu.firstFault ((injectingHost 0x8000).injecting 0x20).slotWidth
          (((injectingHost 0x8000).injecting 0x20).frameOf 0x20 none)
          (((injectingHost 0x8000).injecting 0x20).entered 0x20) = none := by decide +kernel
      intro _ k second hf
      rw [hnone] at hf
      cases hf)⟩

/-- On a stack that is not, it is lost: the page fault is left pending, and nothing will report the
interrupt. -/
theorem unmappedStack_eventLost :
    (injectingHost 0x400000).injectedEvent = some (0x20, none) ∧
      ¬ EventKept (injectingHost 0x400000) 0x20 none := by
  have hpend : (vmEntry (injectingHost 0x400000)).2.pendingException = some (0x0E, some 2) := by
    decide +kernel
  have hin : (vmEntry (injectingHost 0x400000)).2.vmx.inGuest = true := by decide +kernel
  have hev := (injectingHost_event 0).2.2
  refine ⟨hev, ?_⟩
  rintro ⟨-, hent | hres | hrep⟩
  · rw [hent.noFault] at hpend
    cases hpend
  · cases hres with
    | noGate h hd => exact absurd h (by decide +kernel)
    | triple h hf hd hc => exact absurd h (by decide)
    | double hf h hd hc => cases h
  · exact not_reported (info_valid hev) (.inl hin) hrep

end X86Emu
