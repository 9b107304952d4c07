import X86Emu.GuestRoundTrip
import X86Emu.Frame

/-!
# Exceptions of a guest

Which exceptions leave the guest, what the exit records, and that delivering one without an exit is
what it would be outside VMX.
-/
namespace X86Emu

open StateRules

/-! ## Delivery does not look at VMX -/

namespace Cpu

/-- The CPU with other VT-x state. -/
def withVmx (x : Vmx) (s : Cpu) : Cpu := { s with vmx := x }

section WithVmx

variable (x : Vmx) (s : Cpu)

theorem raise_withVmx (f : Fault) : (s.withVmx x).raise f = (s.raise f).withVmx x := by
  show (if s.pendingException.isSome then s.withVmx x else _) = withVmx x (if _ then _ else _)
  split <;> rfl

theorem loadSeg_withVmx (r : SegReg) (sel : U16) :
    (s.withVmx x).loadSeg r sel = (s.loadSeg r sel).withVmx x := by
  unfold loadSeg
  rw [show (s.withVmx x).pe = s.pe from rfl]
  split <;> split <;> cases r <;> rfl

theorem setStackPointer_withVmx (v : U64) :
    (s.withVmx x).setStackPointer v = (s.setStackPointer v).withVmx x := by
  unfold setStackPointer
  rw [show (s.withVmx x).long64 = s.long64 from rfl]
  split <;> rfl

theorem markAccessed_withVmx (linear : U64) (write : Bool) :
    (s.withVmx x).markAccessed linear write = (s.markAccessed linear write).withVmx x := by
  unfold markAccessed
  rw [show (s.withVmx x).walkOf linear = s.walkOf linear from rfl]
  split <;> rfl

end WithVmx

end Cpu

section Commuting

variable {x : Vmx}

theorem commutes_applyPagingInner (linear : U64) (write fetch : Bool) :
    Commutes (Cpu.withVmx x) (applyPagingInner linear write fetch) := by
  intro s
  have hraise (f : Fault) := s.raise_withVmx x f
  have hmark := s.markAccessed_withVmx x linear true
  have hlong : (s.withVmx x).longMode = s.longMode := rfl
  have hcr0 : (s.withVmx x).cr0 = s.cr0 := rfl
  have htlb : (s.withVmx x).tlb = s.tlb := rfl
  have hno : (s.withVmx x).noTlb = s.noTlb := rfl
  have hallow : (s.withVmx x).accessAllowed = s.accessAllowed := rfl
  have hwalk : (s.withVmx x).walkOf linear = s.walkOf linear := rfl
  have hcpl : (s.withVmx x).cpl = s.cpl := rfl
  have hgp : (s.withVmx x).raiseGp 0 = (s.raiseGp 0).withVmx x := hraise _
  have hpf (p : Bool) (user : Bool) : (s.withVmx x).raisePageFault linear p write user fetch =
      (s.raisePageFault linear p write user fetch).withVmx x := hraise _
  unfold applyPagingInner
  simp only [hlong, hcr0, htlb, hno, hallow, hwalk, hcpl, hgp, hpf, hmark]
  split
  · rfl
  split
  · rfl
  split
  · split
    · split <;> rfl
    · rfl
  · split
    · split <;> rfl
    · rfl

theorem commutes_translateWrite (r : SegReg) (off : U64) :
    Commutes (Cpu.withVmx x) (translateWrite r off) :=
  .read (fun _ => rfl) fun _ => commutes_applyPagingInner _ _ _

theorem commutes_pushW (w : Width) (val : U64) : Commutes (Cpu.withVmx x) (pushW w val) := by
  intro s
  unfold pushW
  rw [bind_run, bind_run, get_run, get_run, show (s.withVmx x).pe = s.pe from rfl]
  split
  · refine ((commutes_translateWrite _ _).bind fun addr => .read (fun _ => rfl) fun t => ?_) s
    refine .ite (.pure _) (.modify fun t => ?_)
    rw [Cpu.setStackPointer_withVmx]
    rfl
  · rfl

theorem commutes_pushAll (w : Width) : ∀ vs : List U64, Commutes (Cpu.withVmx x) (pushAll w vs)
  | [] => .pure _
  | _ :: vs => (commutes_pushW _ _).bind fun _ => commutes_pushAll w vs

theorem commutes_loadSeg (r : SegReg) (sel : U16) :
    Commutes (Cpu.withVmx x) (modify (·.loadSeg r sel) : Exec Unit) :=
  .modify fun s => s.loadSeg_withVmx x r sel

theorem enterStack32_withVmx (s : Cpu) (switching : Bool) :
    (s.withVmx x).enterStack32 switching = (s.enterStack32 switching).withVmx x := by
  unfold Cpu.enterStack32
  rw [Cpu.loadSeg_withVmx]
  split <;> rfl

theorem enterStack64_withVmx (s : Cpu) (ist : U8) (switching : Bool) :
    (s.withVmx x).enterStack64 ist switching = (s.enterStack64 ist switching).withVmx x := by
  unfold Cpu.enterStack64
  rw [Cpu.loadSeg_withVmx]
  split
  · rfl
  · split <;> rfl

theorem commutes_longInt (v : U8) (code : Option U32) : Commutes (Cpu.withVmx x) (longInt v code) :=
  .read (fun _ => rfl) fun s =>
    (Commutes.modify fun t => enterStack64_withVmx t _ _).bind fun _ =>
    (commutes_loadSeg _ _).bind fun _ =>
    (Commutes.modify fun t => by rfl).bind fun _ =>
    (commutes_pushAll _ _).bind fun _ => .modify fun t => by rfl

theorem commutes_protectedIntErr (v : U8) (code : Option U32) :
    Commutes (Cpu.withVmx x) (protectedIntErr v code) :=
  .read (fun _ => rfl) fun s => .ite (commutes_longInt _ _)
    ((Commutes.modify fun t => enterStack32_withVmx t _).bind fun _ =>
    (commutes_loadSeg _ _).bind fun _ =>
    (commutes_pushAll _ _).bind fun _ => .modify fun t => by rfl)

theorem commutes_realInt (v : U8) : Commutes (Cpu.withVmx x) (realInt v) :=
  .read (fun _ => rfl) fun s =>
    (commutes_pushW _ _).bind fun _ => (commutes_pushW _ _).bind fun _ =>
    (commutes_pushW _ _).bind fun _ => .modify fun t => by rfl

/-- A program that does not look at the VT-x state leaves it alone. -/
theorem vmx_of_commutes {α : Type} {p : Exec α} (h : ∀ x, Commutes (Cpu.withVmx x) p) (s : Cpu) :
    (p s).2.vmx = s.vmx :=
  congrArg (fun r => r.2.vmx) (h s.vmx s)

end Commuting

/-! ## What an exit records -/

/-- The exit-information fields, every one with a slot of its own. -/
def informationFields : List U32 :=
  [Field.exitReason, Field.exitQualification, Field.exitInstrLen, Field.exitIntrInfo,
   Field.exitIntrError, Field.idtVectoringInfo, Field.guestLinearAddress]

theorem informationFields_slots : (informationFields.map Vmx.slot).Nodup := by decide +kernel

theorem informationFields_known {f : U32} (hf : f ∈ informationFields) :
    (Vmx.slot f).isSome ∧ Vmx.isHigh f = false := by
  have all : informationFields.all (fun f => (Vmx.slot f).isSome && !Vmx.isHigh f) = true := by
    decide +kernel
  simpa using List.all_eq_true.mp all f hf

theorem exitInformation_fields (s : Cpu) (reason : U32) (q : U64) (info err : U32) :
    List.Sublist ((s.exitInformation reason q info err).map Prod.fst) informationFields := by
  unfold Cpu.exitInformation
  generalize (if Cpu.betweenInstructions reason then 0 else s.rip - s.ripStart) = len
  split
  · exact List.Sublist.refl _
  · exact List.sublist_append_left _ [Field.guestLinearAddress]

section Recorded

variable (s : Cpu) (reason : U32) (q : U64) (info err : U32)

/-- An exit leaves its information in the VMCS. -/
theorem vmRead_information {f : U32} {v : U64} (h : (f, v) ∈ s.exitInformation reason q info err) :
    (s.vmExit reason q info err).vmRead f = v &&& Vmx.fieldMask f := by
  have hsub := exitInformation_fields s reason q info err
  have hf : f ∈ informationFields := hsub.subset (List.mem_map_of_mem h)
  obtain ⟨hslot, hhigh⟩ := informationFields_known hf
  have hnd : ((s.exitInformation reason q info err).map fun p => Vmx.slot p.1).Nodup := by
    have := (hsub.map Vmx.slot).nodup informationFields_slots
    rwa [List.map_map] at this
  rw [Cpu.vmRead, Cpu.vmExit, Cpu.vmx_loadHostState, exitVmcs_eq]
  exact Vmx.read_writeAll_of_mem _ _ hnd h hslot hhigh

theorem vmRead_exitReason : (s.vmExit reason q info err).vmRead Field.exitReason = u64 reason := by
  have hmem : (Field.exitReason, u64 reason) ∈ s.exitInformation reason q info err := by
    simp [Cpu.exitInformation]
  rw [vmRead_information s reason q info err hmem]
  exact Vmx.and_fieldMask reason (by decide)

theorem vmRead_exitIntrInfo :
    (s.vmExit reason q info err).vmRead Field.exitIntrInfo = u64 info := by
  have hmem : (Field.exitIntrInfo, u64 info) ∈ s.exitInformation reason q info err := by
    simp [Cpu.exitInformation]
  rw [vmRead_information s reason q info err hmem]
  exact Vmx.and_fieldMask info (by decide)

theorem vmRead_exitIntrError :
    (s.vmExit reason q info err).vmRead Field.exitIntrError = u64 err := by
  have hmem : (Field.exitIntrError, u64 err) ∈ s.exitInformation reason q info err := by
    simp [Cpu.exitInformation]
  rw [vmRead_information s reason q info err hmem]
  exact Vmx.and_fieldMask err (by decide)

theorem vmRead_exitQualification : (s.vmExit reason q info err).vmRead Field.exitQualification = q := by
  have hmem : (Field.exitQualification, q) ∈ s.exitInformation reason q info err := by
    simp [Cpu.exitInformation]
  rw [vmRead_information s reason q info err hmem]
  exact Vmx.and_wide q (by decide)

end Recorded

/-! ## Routing -/

/-- The exit of this vector happened. -/
def ExitedFor (v : U8) (t : Cpu) : Prop :=
  t.vmx.inGuest = false ∧ t.vmRead Field.exitReason = u64 Reason.exceptionNmi ∧
    u8 (t.vmRead Field.exitIntrInfo) = v

/-- The vector's bit in the exception bitmap. -/
def Cpu.bitmapBit (s : Cpu) (v : U8) : Bool :=
  test (u32 (s.vmRead Field.exceptionBitmap)) ((1 : U32) <<< v.toNat)

/-- The error code passes the page-fault filter. -/
def Cpu.pfMatches (s : Cpu) (code : Option U32) : Prop :=
  code.getD 0 &&& u32 (s.vmRead Field.pfErrorMask) = u32 (s.vmRead Field.pfErrorMatch)

/-- What the exception bitmap says: for a page fault the bit is compared with the filter. -/
def Cpu.ShouldExit (s : Cpu) (v : U8) (code : Option U32) : Prop :=
  if v = 0x0E then s.bitmapBit v = true ↔ s.pfMatches code else s.bitmapBit v = true

/-- The same CPU, not in a guest. -/
def Cpu.outside (s : Cpu) : Cpu := s.withVmx { s.vmx with inGuest := false }

/-- What the exit of an exception raised in `s` is to record. -/
structure ExceptionRecorded (s t : Cpu) (v : U8) (code : Option U32) : Prop where
  valid : test (u32 (t.vmRead Field.exitIntrInfo)) ((1 : U32) <<< 31) = true
  type : (u32 (t.vmRead Field.exitIntrInfo) >>> 8) &&& 7 = if Cpu.isTrap v then 6 else 3
  hasCode : test (u32 (t.vmRead Field.exitIntrInfo)) ((1 : U32) <<< 11) = code.isSome
  code : ∀ c, code = some c → t.vmRead Field.exitIntrError = u64 c
  address : v = 0x0E →
    t.vmRead Field.exitQualification = s.cr2 ∧ t.vmRead Field.guestLinearAddress = s.cr2
  restarts : ¬ Cpu.isTrap v → t.vmRead Field.guestRip = s.ripStart
  continues : Cpu.isTrap v → t.vmRead Field.guestRip + t.vmRead Field.exitInstrLen = s.rip

/-- An exception raised in the guest state `s` is routed as the exception bitmap says. -/
structure Routed (s : Cpu) (v : U8) (code : Option U32) : Prop where
  exits : ExitedFor v (dispatchException v code s).2 ↔ s.ShouldExit v code
  recorded : ExitedFor v (dispatchException v code s).2 →
    ExceptionRecorded s (dispatchException v code s).2 v code
  delivered : (dispatchException v code s).2.vmx.inGuest = true →
    (dispatchException v code s.outside).2 = (dispatchException v code s).2.outside

/-- Where the code routes an exception so. -/
structure RoutingHolds (s : Cpu) (v : U8) (code : Option U32) : Prop where
  pageFault : v = 0x0E → s.bitmapBit v = true ∨ s.pfMatches code
  trap : Cpu.isTrap v → s.bitmapBit v = true → s.rip = s.ripStart

/-! ### The exit -/

/-- The parts of the interruption information of an exception. -/
theorem exceptionInfo_parts (v : U8) (code : Option U32) :
    u8 (Cpu.exceptionInfo v code) = v ∧
      Cpu.exceptionInfo v code &&& 0xFF = u32 v ∧
      test (Cpu.exceptionInfo v code) ((1 : U32) <<< 31) = true ∧
      (Cpu.exceptionInfo v code >>> 8) &&& 7 = (if Cpu.isTrap v then 6 else 3) ∧
      test (Cpu.exceptionInfo v code) ((1 : U32) <<< 11) = code.isSome := by
  unfold Cpu.exceptionInfo
  generalize code.isSome = b
  revert v b
  decide +kernel

section Routing

variable (s : Cpu) (v : U8) (code : Option U32)

/-- The state an intercepted exception exits to. -/
def Cpu.exceptionExitState : Cpu :=
  { s with rip := s.ripStart }.vmExit Reason.exceptionNmi (if v = 0x0E then s.cr2 else 0)
    (Cpu.exceptionInfo v code) (code.getD 0)

theorem exitedFor_exit : ExitedFor v (s.exceptionExitState v code) := by
  refine ⟨Cpu.vmExit_inGuest .., vmRead_exitReason .., ?_⟩
  rw [Cpu.exceptionExitState, vmRead_exitIntrInfo]
  exact (BitVec.setWidth_setWidth_of_le _ (by decide)).trans (exceptionInfo_parts v code).1

theorem exit_restarts : (s.exceptionExitState v code).vmRead Field.guestRip = s.ripStart := by
  have hmem : (Field.guestRip, s.ripStart) ∈
      { { s with rip := s.ripStart } with
        rip := { s with rip := s.ripStart }.exitRip Reason.exceptionNmi }.savedGuestState := by
    have hrip : { s with rip := s.ripStart }.exitRip Reason.exceptionNmi = s.ripStart := rfl
    simp [Cpu.savedGuestState, hrip]
  rw [Cpu.exceptionExitState, vmRead_vmExit _ _ _ _ _ hmem]
  exact Vmx.and_wide _ (by decide)

theorem exit_length : (s.exceptionExitState v code).vmRead Field.exitInstrLen = 0 := by
  have hmem : (Field.exitInstrLen, (0 : U64)) ∈ { s with rip := s.ripStart }.exitInformation
      Reason.exceptionNmi (if v = 0x0E then s.cr2 else 0) (Cpu.exceptionInfo v code)
      (code.getD 0) := by
    simp [Cpu.exitInformation, Cpu.betweenInstructions, Reason.exceptionNmi]
  rw [Cpu.exceptionExitState, vmRead_information _ _ _ _ _ hmem]
  rfl

theorem exit_address (hv : v = 0x0E) :
    (s.exceptionExitState v code).vmRead Field.exitQualification = s.cr2 ∧
      (s.exceptionExitState v code).vmRead Field.guestLinearAddress = s.cr2 := by
  have hmem : (Field.guestLinearAddress, s.cr2) ∈ { s with rip := s.ripStart }.exitInformation
      Reason.exceptionNmi (if v = 0x0E then s.cr2 else 0) (Cpu.exceptionInfo v code)
      (code.getD 0) := by
    have hlow : Cpu.exceptionInfo v code &&& 0xFF = 0x0E :=
      (exceptionInfo_parts v code).2.1.trans (by rw [hv]; rfl)
    refine List.mem_append_right _ ?_
    rw [if_pos ⟨rfl, hlow⟩]
    exact List.mem_singleton.mpr rfl
  refine ⟨?_, ?_⟩
  · rw [Cpu.exceptionExitState, vmRead_exitQualification, if_pos hv]
  · rw [Cpu.exceptionExitState, vmRead_information _ _ _ _ _ hmem]
    exact Vmx.and_wide _ (by decide)

/-- A fault's exit records all it should; a trap's loses the length of the instruction. -/
theorem recorded_exit (h : Cpu.isTrap v → s.rip = s.ripStart) :
    ExceptionRecorded s (s.exceptionExitState v code) v code := by
  obtain ⟨-, -, hvalid, htype, hcode⟩ := exceptionInfo_parts v code
  have hinfo : u32 ((s.exceptionExitState v code).vmRead Field.exitIntrInfo) =
      Cpu.exceptionInfo v code := by
    rw [Cpu.exceptionExitState, vmRead_exitIntrInfo]
    exact (BitVec.setWidth_setWidth_of_le _ (by decide)).trans (BitVec.setWidth_eq _)
  exact
    { valid := by rw [hinfo, hvalid]
      type := by rw [hinfo, htype]
      hasCode := by rw [hinfo, hcode]
      code := by
        rintro c rfl
        exact vmRead_exitIntrError ..
      address := exit_address s v code
      restarts := fun _ => exit_restarts s v code
      continues := by
        intro htrap
        rw [exit_restarts, exit_length, h htrap]
        exact BitVec.add_zero _ }

/-! ### The dispatch -/

/-- Where dispatch puts RIP: a fault's is the faulting instruction. -/
def Cpu.atFault : Cpu := if Cpu.isTrap v then s else { s with rip := s.ripStart }

theorem exceptionExit_atFault :
    (s.atFault v).exceptionExit v code =
      if s.exceptionIntercepted v code then (true, s.exceptionExitState v code)
      else (false, s.atFault v) := by
  unfold Cpu.atFault
  cases Cpu.isTrap v
  · cases h : s.exceptionIntercepted v code with
    | false =>
      have ht : { s with rip := s.ripStart }.exceptionIntercepted v code = false := h
      simp [Cpu.exceptionExit, ht]
    | true =>
      have ht : { s with rip := s.ripStart }.exceptionIntercepted v code = true := h
      simp [Cpu.exceptionExit, ht, Cpu.exceptionExitState]
  · cases h : s.exceptionIntercepted v code with
    | false => simp [Cpu.exceptionExit, h]
    | true => simp [Cpu.exceptionExit, h, Cpu.exceptionExitState]

/-- Dispatch in a guest, whatever delivers what does not exit. -/
theorem interceptException_run (deliver : U8 → Option U32 → Exec Unit) (hg : s.vmx.inGuest = true)
    (hv : v < 32) :
    interceptException deliver v code s =
      if s.exceptionIntercepted v code then ((), s.exceptionExitState v code)
      else deliver v code (s.atFault v) := by
  have hcond : (s.vmx.inGuest && decide (v < 32)) = true := by
    rw [hg, decide_eq_true hv]
    rfl
  unfold interceptException
  rw [bind_run, get_run]
  dsimp only
  rw [if_pos hcond, show (if Cpu.isTrap v then s else { s with rip := s.ripStart }) = s.atFault v
    from rfl, exceptionExit_atFault]
  cases s.exceptionIntercepted v code <;> rfl

/-- Where delivery puts RIP and IP. -/
def Cpu.atEvent : Cpu :=
  if Cpu.isTrap v then s else { s with rip := s.ripStart, ip := s.ipStart }

theorem deliverEvent_run (df : Exec Unit) :
    deliverEvent df v code s =
      if !(s.atEvent v).vectorCovered v then ((), (s.atEvent v).resetOnTripleFault)
      else if (s.atEvent v).pe then resolveNested v df (protectedIntErr v code (s.atEvent v)).2
      else ((), (realInt v (s.atEvent v)).2.invalidatePhysIp) := by
  show (if !(s.atEvent v).vectorCovered v then modify (·.resetOnTripleFault)
    else if (s.atEvent v).pe then do
      protectedIntErr v code
      resolveNested v df
    else do
      realInt v
      modify (·.invalidatePhysIp) : Exec Unit) (s.atEvent v) = _
  split
  · rfl
  · split <;> rfl

theorem resolveNested_run (df : Exec Unit) (t : Cpu) :
    resolveNested v df t =
      match t.pendingException with
      | none => ((), t.invalidatePhysIp)
      | some (second, _) =>
        if v = 0x08 then ((), t.clearPending.resetOnTripleFault)
        else if Cpu.escalates v second then df t.clearPending
        else ((), t.invalidatePhysIp) := by
  unfold resolveNested
  rw [bind_run, get_run]
  dsimp only
  cases t.pendingException with
  | none => rfl
  | some p =>
    obtain ⟨second, c⟩ := p
    dsimp only
    split
    · rfl
    · split <;> rfl

/-- Delivery starts by moving RIP where dispatch has moved it. -/
theorem deliverEvent_atFault (df : Exec Unit) :
    deliverEvent df v code (s.atFault v) = deliverEvent df v code s := by
  have hstart : (s.atFault v).atEvent v = s.atEvent v := by
    unfold Cpu.atFault Cpu.atEvent
    cases Cpu.isTrap v <;> rfl
  rw [deliverEvent_run, deliverEvent_run, hstart]

/-- The double fault an escalation produces is dispatched like any other exception. -/
theorem dispatchDoubleFault_eq : dispatchDoubleFault = dispatchException 0x08 (some 0) := by
  have hnested (df : Exec Unit) : resolveNested 0x08 df = resolveNested 0x08 (pure ()) := by
    unfold resolveNested
    rfl
  unfold dispatchDoubleFault dispatchException interceptException dispatchExceptionRaw deliverEvent
  rw [hnested dispatchDoubleFault]

/-- What delivery without an exit of its own can come to in a guest: no exit, the exit of a triple
fault, or that of the double fault it escalated to. -/
def Nested (t : Cpu) : Prop :=
  t.vmx.inGuest = true ∨ t.vmRead Field.exitReason = u64 Reason.tripleFault ∨
    (v ≠ 0x08 ∧ u8 (t.vmRead Field.exitIntrInfo) = 0x08)

theorem not_exitedFor_of_nested {t : Cpu} (h : Nested v t) : ¬ ExitedFor v t := by
  rintro ⟨hout, hreason, hvector⟩
  rcases h with hin | htriple | ⟨hne, hdouble⟩
  · rw [hin] at hout
    cases hout
  · rw [htriple] at hreason
    exact absurd hreason (by decide)
  · exact hne (hvector.symm.trans hdouble)

theorem nested_reset (hg : s.vmx.inGuest = true) : Nested v s.resetOnTripleFault := by
  refine .inr (.inl ?_)
  unfold Cpu.resetOnTripleFault
  rw [if_pos hg]
  exact vmRead_exitReason ..

theorem vmx_protectedIntErr : (protectedIntErr v code s).2.vmx = s.vmx :=
  vmx_of_commutes (fun x => commutes_protectedIntErr (x := x) v code) s

theorem vmx_realInt : (realInt v s).2.vmx = s.vmx :=
  vmx_of_commutes (fun x => commutes_realInt (x := x) v) s

theorem vmx_atEvent : (s.atEvent v).vmx = s.vmx := by
  unfold Cpu.atEvent
  split <;> rfl

theorem vmx_atFault : (s.atFault v).vmx = s.vmx := by
  unfold Cpu.atFault
  split <;> rfl

/-- What holds of every guest state and of every triple fault's outcome, and of what the double
fault comes to, holds of the outcome of a delivery. -/
theorem deliverEvent_outcome {Q : Cpu → Prop} {df : Exec Unit}
    (hin : ∀ t : Cpu, t.vmx.inGuest = true → Q t)
    (hreset : ∀ t : Cpu, t.vmx.inGuest = true → Q t.resetOnTripleFault)
    (hdf : ∀ t : Cpu, t.vmx.inGuest = true → v ≠ 0x08 → Q (df t).2)
    (hg : s.vmx.inGuest = true) : Q (deliverEvent df v code s).2 := by
  have hgr : (s.atEvent v).vmx.inGuest = true := by rw [vmx_atEvent, hg]
  rw [deliverEvent_run]
  by_cases hc : (!(s.atEvent v).vectorCovered v) = true
  · rw [if_pos hc]
    exact hreset _ hgr
  rw [if_neg hc]
  by_cases hpe : (s.atEvent v).pe = true
  · have hgt : (protectedIntErr v code (s.atEvent v)).2.vmx.inGuest = true := by
      rw [vmx_protectedIntErr, hgr]
    rw [if_pos hpe, resolveNested_run]
    cases (protectedIntErr v code (s.atEvent v)).2.pendingException with
    | none => exact hin _ hgt
    | some p =>
      dsimp only
      split
      · exact hreset _ hgt
      · split
        · exact hdf _ hgt ‹_›
        · exact hin _ hgt
  · rw [if_neg hpe]
    refine hin _ ?_
    show (realInt v (s.atEvent v)).2.vmx.inGuest = true
    rw [vmx_realInt, hgr]

/-- The same of a dispatch, for what holds of every guest state and of every exit. -/
theorem dispatchException_outcome {Q : Cpu → Prop} (hin : ∀ t : Cpu, t.vmx.inGuest = true → Q t)
    (hexit : ∀ (t : Cpu) (reason : U32) (q : U64) (info err : U32), Q (t.vmExit reason q info err))
    (hg : s.vmx.inGuest = true) : Q (dispatchException v code s).2 := by
  have hreset (t : Cpu) (ht : t.vmx.inGuest = true) : Q t.resetOnTripleFault := by
    unfold Cpu.resetOnTripleFault
    rw [if_pos ht]
    exact hexit ..
  have hdf (t : Cpu) (ht : t.vmx.inGuest = true) (_ : v ≠ 0x08) : Q (dispatchDoubleFault t).2 := by
    unfold dispatchDoubleFault
    rw [interceptException_run t 0x08 (some 0) _ ht (by decide)]
    split
    · exact hexit ..
    · rw [deliverEvent_atFault]
      exact deliverEvent_outcome t 0x08 (some 0) hin hreset (fun _ _ hne => absurd rfl hne) ht
  have hraw (t : Cpu) (ht : t.vmx.inGuest = true) : Q (dispatchExceptionRaw v code t).2 :=
    deliverEvent_outcome t v code hin hreset hdf ht
  by_cases hv : v < 32
  · unfold dispatchException
    rw [interceptException_run s v code _ hg hv]
    split
    · exact hexit ..
    · exact hraw _ (by rw [vmx_atFault, hg])
  · have hcond : ¬ (s.vmx.inGuest && decide (v < 32)) = true := by
      rw [hg, decide_eq_false hv]
      decide
    have hrun : dispatchException v code s = dispatchExceptionRaw v code s := by
      unfold dispatchException interceptException
      rw [bind_run, get_run]
      dsimp only
      rw [if_neg hcond]
    rw [hrun]
    exact hraw s hg

/-- The exit of a vector happened just when the dispatch decided on it. -/
theorem exitedFor_iff (hg : s.vmx.inGuest = true) (hv : v < 32) :
    ExitedFor v (dispatchException v code s).2 ↔ s.exceptionIntercepted v code = true := by
  unfold dispatchException
  rw [interceptException_run s v code _ hg hv]
  cases hi : s.exceptionIntercepted v code with
  | true => exact ⟨fun _ => rfl, fun _ => exitedFor_exit s v code⟩
  | false =>
    refine ⟨fun h => absurd h (not_exitedFor_of_nested v ?_), fun h => absurd h (by decide)⟩
    unfold dispatchExceptionRaw
    rw [if_neg (by decide), deliverEvent_atFault]
    have hreset (t : Cpu) (ht : t.vmx.inGuest = true) : Nested v t.resetOnTripleFault :=
      nested_reset t v ht
    refine deliverEvent_outcome s v code (fun _ => .inl) hreset ?_ hg
    intro t ht hne
    unfold dispatchDoubleFault
    rw [interceptException_run t 0x08 (some 0) _ ht (by decide)]
    cases t.exceptionIntercepted 0x08 (some 0) with
    | true => exact .inr (.inr ⟨hne, (exitedFor_exit t 0x08 (some 0)).2.2⟩)
    | false =>
      rw [if_neg (by decide), deliverEvent_atFault]
      exact deliverEvent_outcome t 0x08 (some 0) (fun _ => .inl) hreset
        (fun _ _ hne => absurd rfl hne) ht

/-! ### Outside VMX -/

/-- In a guest that it does not leave, the program does what it does outside VMX. -/
def AsOutside (p : Exec Unit) : Prop :=
  ∀ s : Cpu, s.vmx.inGuest = true → (p s).2.vmx.inGuest = true →
    (p s.outside).2 = (p s).2.outside

/-- A program that does not look at the VT-x state does the same outside VMX. -/
theorem outside_of_commutes {p : Exec Unit} (h : ∀ x, Commutes (Cpu.withVmx x) p) :
    (p s.outside).2 = (p s).2.outside := by
  rw [Cpu.outside, h, Cpu.outside, vmx_of_commutes h]

theorem not_reset_inGuest (hg : s.vmx.inGuest = true) : s.resetOnTripleFault.vmx.inGuest = false := by
  unfold Cpu.resetOnTripleFault
  rw [if_pos hg]
  exact Cpu.vmExit_inGuest ..

theorem asOutside_resolveNested {df : Exec Unit} (hdf : v ≠ 0x08 → AsOutside df) :
    AsOutside (resolveNested v df) := by
  intro t hg hin
  have hpend : t.outside.pendingException = t.pendingException := rfl
  rw [resolveNested_run] at hin
  rw [resolveNested_run, resolveNested_run, hpend]
  cases hp : t.pendingException with
  | none => rfl
  | some p =>
    rw [hp] at hin
    dsimp only at hin ⊢
    by_cases h8 : v = 0x08
    · rw [if_pos h8] at hin
      rw [not_reset_inGuest t.clearPending hg] at hin
      cases hin
    rw [if_neg h8] at hin ⊢
    rw [if_neg h8]
    by_cases hesc : Cpu.escalates v p.1 = true
    · rw [if_pos hesc] at hin ⊢
      rw [if_pos hesc]
      exact hdf h8 t.clearPending hg hin
    · rw [if_neg hesc, if_neg hesc]
      rfl

theorem asOutside_deliverEvent {df : Exec Unit} (hdf : v ≠ 0x08 → AsOutside df) :
    AsOutside (deliverEvent df v code) := by
  intro s hg hin
  have hat : s.outside.atEvent v = (s.atEvent v).outside := by
    unfold Cpu.atEvent
    cases Cpu.isTrap v <;> rfl
  have hga : (s.atEvent v).vmx.inGuest = true := by rw [vmx_atEvent, hg]
  rw [deliverEvent_run] at hin
  rw [deliverEvent_run, deliverEvent_run, hat,
    show (s.atEvent v).outside.vectorCovered v = (s.atEvent v).vectorCovered v from rfl,
    show (s.atEvent v).outside.pe = (s.atEvent v).pe from rfl]
  generalize s.atEvent v = r at hin hga ⊢
  by_cases hc : (!r.vectorCovered v) = true
  · rw [if_pos hc] at hin
    rw [not_reset_inGuest r hga] at hin
    cases hin
  rw [if_neg hc] at hin ⊢
  rw [if_neg hc]
  by_cases hpe : r.pe = true
  · rw [if_pos hpe] at hin ⊢
    rw [if_pos hpe, outside_of_commutes r fun x => commutes_protectedIntErr v code]
    refine asOutside_resolveNested v hdf _ ?_ hin
    rw [vmx_protectedIntErr, hga]
  · rw [if_neg hpe, if_neg hpe]
    show (realInt v r.outside).2.invalidatePhysIp = _
    rw [outside_of_commutes r fun x => commutes_realInt v]
    rfl

theorem asOutside_dispatch {df : Exec Unit} (hv : v < 32) (hdf : v ≠ 0x08 → AsOutside df) :
    AsOutside (interceptException (deliverEvent df) v code) := by
  intro s hg hin
  rw [interceptException_run s v code _ hg hv] at hin ⊢
  cases hi : s.exceptionIntercepted v code with
  | true =>
    rw [hi, if_pos rfl] at hin
    rw [show (s.exceptionExitState v code).vmx.inGuest = false from Cpu.vmExit_inGuest ..] at hin
    cases hin
  | false =>
    rw [hi, if_neg (by decide), deliverEvent_atFault] at hin
    rw [if_neg (by decide), deliverEvent_atFault]
    exact asOutside_deliverEvent v code hdf s hg hin

theorem asOutside_doubleFault : AsOutside dispatchDoubleFault :=
  asOutside_dispatch 0x08 (some 0) (by decide) fun h => absurd rfl h

/-! ### Every exception -/

theorem exceptionIntercepted_iff :
    s.exceptionIntercepted v code = true ↔ s.bitmapBit v = true ∧ (v = 0x0E → s.pfMatches code) := by
  have hdef : s.exceptionIntercepted v code = (s.bitmapBit v && (v != 0x0E ||
      code.getD 0 &&& u32 (s.vmRead Field.pfErrorMask) == u32 (s.vmRead Field.pfErrorMatch))) := rfl
  rw [hdef, Bool.and_eq_true, Bool.or_eq_true, bne_iff_ne, beq_iff_eq, ← imp_iff_not_or]
  rfl

/-- An intercepted exception exits, and nothing else of its dispatch happens. -/
theorem dispatchException_exit (hg : s.vmx.inGuest = true) (hv : v < 32)
    (hi : s.exceptionIntercepted v code = true) :
    (dispatchException v code s).2 = s.exceptionExitState v code := by
  unfold dispatchException
  rw [interceptException_run s v code _ hg hv, if_pos hi]

theorem not_isTrap_pageFault : Cpu.isTrap 0x0E = false := by decide

/-- Off the two defects the decision is the bitmap's. -/
theorem intercepted_iff_shouldExit (h : RoutingHolds s v code) :
    s.exceptionIntercepted v code = true ↔ s.ShouldExit v code := by
  rw [exceptionIntercepted_iff]
  unfold Cpu.ShouldExit
  by_cases hpf : v = 0x0E
  · rw [if_pos hpf]
    have := h.pageFault hpf
    tauto
  · rw [if_neg hpf]
    exact ⟨fun hb => hb.1, fun hb => ⟨hb, fun he => absurd he hpf⟩⟩

end Routing

/-- An exception of a guest is routed as the bitmap says just when it is no page fault that the bit
and the filter both pass over, and no intercepted trap of an instruction with a length. -/
theorem routed_iff (s : Cpu) (v : U8) (code : Option U32) (hg : s.vmx.inGuest = true)
    (hv : v < 32) : Routed s v code ↔ RoutingHolds s v code := by
  have hiff := exitedFor_iff s v code hg hv
  constructor
  · intro h
    refine ⟨?_, ?_⟩
    · intro hpf
      by_contra hno
      rw [not_or] at hno
      have hshould : s.ShouldExit v code := by
        unfold Cpu.ShouldExit
        rw [if_pos hpf]
        exact iff_of_false hno.1 hno.2
      have hi := (exceptionIntercepted_iff s v code).mp (hiff.mp (h.exits.mpr hshould))
      exact hno.1 hi.1
    · intro htrap hbit
      have hpf : v ≠ 0x0E := by
        rintro rfl
        rw [not_isTrap_pageFault] at htrap
        cases htrap
      have hi : s.exceptionIntercepted v code = true :=
        (exceptionIntercepted_iff s v code).mpr ⟨hbit, fun he => absurd he hpf⟩
      have hnext := (h.recorded (hiff.mpr hi)).continues htrap
      rw [dispatchException_exit s v code hg hv hi, exit_restarts, exit_length] at hnext
      exact hnext.symm.trans (BitVec.add_zero _)
  · intro h
    exact
      { exits := hiff.trans (intercepted_iff_shouldExit s v code h)
        recorded := by
          intro hex
          have hi := hiff.mp hex
          rw [dispatchException_exit s v code hg hv hi]
          have hbit := ((exceptionIntercepted_iff s v code).mp hi).1
          exact recorded_exit s v code fun htrap => h.trap htrap hbit
        delivered := asOutside_dispatch v code hv (fun _ => asOutside_doubleFault) s hg }

/-- A guest whose hypervisor wants #BP, #UD and the page faults whose code has bit 1 clear, with
bit 14 of the bitmap clear: code 0 must match 2 to be kept. -/
def filteredGuest : Cpu :=
  { longGuest false with
    rip := 0x1001
    ripStart := 0x1000
    vmx := longVmcs.writeAll
      [(Field.exceptionBitmap, 0x48), (Field.pfErrorMask, 2), (Field.pfErrorMatch, 2)] }

/-- #UD is routed right. -/
theorem routed_ud : filteredGuest.vmx.inGuest = true ∧ (6 : U8) < 32 ∧ Routed filteredGuest 6 none :=
  ⟨by decide +kernel, by decide, (routed_iff filteredGuest 6 none (by decide +kernel)
    (by decide)).mpr ⟨fun h => absurd h (by decide), fun h => absurd h (by decide)⟩⟩

/-- A page fault that the clear bit and the mismatch select is delivered to the guest instead, and
the exit of an INT3 puts RIP plus length back on the INT3. -/
theorem filteredGuest_misrouted :
    ¬ Routed filteredGuest 0x0E (some 0) ∧ ¬ Routed filteredGuest 3 none := by
  have hg : filteredGuest.vmx.inGuest = true := by decide +kernel
  constructor
  · intro h
    have hshould : filteredGuest.ShouldExit 0x0E (some 0) := by
      show _ ↔ _
      exact iff_of_false (by decide +kernel) (by unfold Cpu.pfMatches; decide +kernel)
    have hi := (exitedFor_iff filteredGuest 0x0E (some 0) hg (by decide)).mp (h.exits.mpr hshould)
    exact absurd hi (by decide +kernel)
  · intro h
    have hi : filteredGuest.exceptionIntercepted 3 none = true := by decide +kernel
    have hnext := (h.recorded ((exitedFor_iff filteredGuest 3 none hg (by decide)).mpr hi)).continues
      (by decide)
    rw [dispatchException_exit filteredGuest 3 none hg (by decide) hi, exit_restarts,
      exit_length] at hnext
    exact absurd hnext (by decide +kernel)

end X86Emu
