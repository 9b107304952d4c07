import X86Emu.Frame

/-!
# Delivery that faults

What the frame builders of protected and long mode leave behind when a slot of the frame cannot be
written.
-/
namespace X86Emu

open StateRules

/-! ## What a push touches -/

namespace Cpu

/-- `s` with the fields a push may move taken from `t`. -/
def pushedOnto (s t : Cpu) : Cpu :=
  { s with
    regs := t.regs
    tlb := t.tlb
    mem := t.mem
    pendingException := t.pendingException
    cr2 := t.cr2
    faultLog := t.faultLog }

/-- Nothing but those fields moved. -/
def PushOnly (s t : Cpu) : Prop := t = s.pushedOnto t

instance : Std.Refl PushOnly where
  refl _ := rfl

instance : IsTrans Cpu PushOnly where
  trans s t u h1 h2 :=
    calc u = t.pushedOnto u := h2
      _ = (s.pushedOnto t).pushedOnto u := by rw [← h1]
      _ = s.pushedOnto u := rfl

/-- Translation does not even move the registers. -/
def PagingOnly (s t : Cpu) : Prop := PushOnly s t ∧ t.regs = s.regs

theorem pagingOnly_raise (s : Cpu) (f : Fault) : PagingOnly s (s.raise f) := by
  unfold raise
  split <;> exact ⟨rfl, rfl⟩

theorem pagingOnly_markAccessed (s : Cpu) (linear : U64) (write : Bool) :
    PagingOnly s (s.markAccessed linear write) := by
  unfold markAccessed
  split <;> exact ⟨rfl, rfl⟩

end Cpu

open Cpu

theorem pagingOnly_applyPagingInner (linear : U64) (write fetch : Bool) :
    Keeps PagingOnly (applyPagingInner linear write fetch) := by
  intro s
  have hr (f : Fault) : PagingOnly s (s.raise f) := pagingOnly_raise s f
  have hself : PagingOnly s s := ⟨rfl, rfl⟩
  unfold applyPagingInner
  split
  · exact hr _
  split
  · exact hself
  dsimp only
  split
  · split
    · dsimp only
      split
      · obtain ⟨h1, h2⟩ := pagingOnly_markAccessed s linear true
        refine ⟨?_, h2⟩
        show (s.markAccessed linear true).setTlb _ _ = _
        rw [h1]
        rfl
      · exact hself
    · exact hr _
  · split
    · split
      · exact hr _
      · exact ⟨rfl, rfl⟩
    · exact hr _

theorem pagingOnly_translateWrite (r : SegReg) (off : U64) :
    Keeps PagingOnly (translateWrite r off) :=
  .read fun s => pagingOnly_applyPagingInner _ _ _ s

/-! ## What an operand touches -/

theorem pushOnly_applyPaging (linear : U64) (write : Bool) :
    Keeps Cpu.PushOnly (applyPagingAccess linear write) :=
  fun s => (pagingOnly_applyPagingInner linear write false s).1

theorem pushOnly_rmAddr (m : ModRm) (write : Bool) : Keeps Cpu.PushOnly (rmAddr m write) :=
  .read fun s => Keeps.read (R := Cpu.PushOnly) (fun t => pushOnly_applyPaging _ write t) s

theorem pushOnly_readSplit (phys lin : U64) (n : Nat) : Keeps Cpu.PushOnly (readSplit phys lin n) :=
  (pushOnly_applyPaging _ _).bind fun _ => .read fun s => by
    split <;> exact refl s

theorem pushOnly_readRmAt (m : ModRm) (w : Width) (addr : U64) :
    Keeps Cpu.PushOnly (readRmAt m w addr) :=
  .read fun s => by
    split
    · split
      · exact refl s
      · exact pushOnly_readSplit _ _ _ s
    · exact refl s

theorem pushOnly_readRmW (m : ModRm) (w : Width) : Keeps Cpu.PushOnly (readRmW m w) := by
  unfold readRmW
  split
  · exact .read fun s => refl s
  · exact (pushOnly_rmAddr m false).bind fun a => pushOnly_readRmAt m w a

theorem pushOnly_setRegAt (s : Cpu) (i : U8) (w : Width) (v : U64) :
    Cpu.PushOnly s (s.setRegAt i w v) := by
  unfold Cpu.setRegAt Cpu.setReg8Idx Cpu.setRegW
  split
  · split
    · rfl
    · split <;> rfl
  · split <;> rfl

theorem pushOnly_writeSplit (phys lin : U64) (n : Nat) (v : U128) :
    Keeps Cpu.PushOnly (writeSplit phys lin n v) :=
  (pushOnly_applyPaging _ _).bind fun _ => .read fun s => by
    split
    · exact refl s
    · rfl

theorem pushOnly_writeRmW (m : ModRm) (w : Width) (val : U64) :
    Keeps Cpu.PushOnly (writeRmW m w val) :=
  .read fun s => by
    split
    · exact refl s
    split
    · exact pushOnly_setRegAt s _ _ _
    · refine ((pushOnly_rmAddr m true).bind fun a => .read fun t => ?_) s
      split
      · exact refl t
      split
      · exact pushOnly_writeSplit _ _ _ _ t
      · rfl

namespace Cpu

/-- The stack pointer moved down a slot. -/
def dropSlot (w : Width) (s : Cpu) : Cpu := s.setStackPointer (s.pushTarget w.bytes)

/-- The address a push writes through, and the state its translation leaves. -/
def pushAddr (w : Width) (s : Cpu) : U64 × Cpu := translateWrite .ss (s.pushTarget w.bytes) s

variable {w : Width} {s : Cpu}

theorem pushW_run (v : U64) (hpe : s.pe = true) :
    pushW w v s =
      if (s.pushAddr w).2.pendingException.isSome then ((), (s.pushAddr w).2)
      else ((), ((s.pushAddr w).2.setStackPointer (s.pushTarget w.bytes)).modifyMem
        (stackWrite (s.pushAddr w).1 w v)) := by
  unfold pushW
  rw [bind_run, get_run]
  dsimp only
  rw [if_pos hpe]
  show (if (s.pushAddr w).2.pendingException.isSome then pure ()
    else modify fun t => (t.setStackPointer (s.pushTarget w.bytes)).modifyMem
      (stackWrite (s.pushAddr w).1 w v) : Exec Unit) (s.pushAddr w).2 = _
  split <;> rfl

theorem pagingOnly_pushAddr : PagingOnly s (s.pushAddr w).2 := pagingOnly_translateWrite _ _ s

theorem setStackPointer_regs {t : Cpu} (h : PagingOnly s t) (v : U64) :
    (t.setStackPointer v).regs = (s.setStackPointer v).regs := by
  have hlong : t.long64 = s.long64 := by rw [h.1]; rfl
  unfold setStackPointer
  rw [hlong]
  split
  · simp only [setRsp, setReg, h.2]
  · simp only [setEsp, setReg, h.2]

theorem pushOnly_setStackPointer (v : U64) : PushOnly s (s.setStackPointer v) := by
  unfold setStackPointer
  split <;> rfl

/-- A push moves only what a push may. -/
theorem pushOnly_pushW (v : U64) (hpe : s.pe = true) : PushOnly s (pushW w v s).2 := by
  have haddr : PushOnly s (s.pushAddr w).2 := pagingOnly_pushAddr.1
  rw [pushW_run v hpe]
  split
  · exact haddr
  · have hstack : PushOnly (s.pushAddr w).2 (((s.pushAddr w).2.setStackPointer
        (s.pushTarget w.bytes)).modifyMem (stackWrite (s.pushAddr w).1 w v)) :=
      IsTrans.trans _ _ _ (pushOnly_setStackPointer _) rfl
    exact IsTrans.trans _ _ _ haddr hstack

/-- A push with no fault pending afterwards moved the stack pointer down a slot. -/
theorem pushW_regs (v : U64) (hpe : s.pe = true)
    (h : (pushW w v s).2.pendingException = none) : (pushW w v s).2.regs = (s.dropSlot w).regs := by
  rw [pushW_run v hpe] at h ⊢
  by_cases hf : (s.pushAddr w).2.pendingException.isSome = true
  · rw [if_pos hf] at h
    rw [h] at hf
    cases hf
  · rw [if_neg hf]
    exact setStackPointer_regs pagingOnly_pushAddr _

/-- A push with a fault pending afterwards did not move it. -/
theorem pushW_regs_faulted (v : U64) (hpe : s.pe = true)
    (h : (pushW w v s).2.pendingException.isSome = true) : (pushW w v s).2.regs = s.regs := by
  rw [pushW_run v hpe] at h ⊢
  by_cases hf : (s.pushAddr w).2.pendingException.isSome = true
  · rw [if_pos hf]
    exact pagingOnly_pushAddr.2
  · rw [if_neg hf] at h
    have hp : (((s.pushAddr w).2.setStackPointer (s.pushTarget w.bytes)).modifyMem
        (stackWrite (s.pushAddr w).1 w v)).pendingException = (s.pushAddr w).2.pendingException := by
      unfold setStackPointer
      split <;> rfl
    rw [hp] at h
    exact absurd h hf

/-- A fault once pending stays the one pending. -/
def PendingKept (s t : Cpu) : Prop :=
  s.pendingException.isSome = true → t.pendingException = s.pendingException

instance : Frame PendingKept where
  refl _ _ := rfl
  trans s t u h1 h2 h := (h2 (by rw [h1 h]; exact h)).trans (h1 h)
  of_core h _ := congrArg Core.pending h
  raise s f h := by
    unfold raise
    rw [if_pos h]
  setPending s v c hn h := by
    rw [hn] at h
    cases h

/-! ## What a frame touches -/

/-- Which slot of a frame cannot be written, and the vector of the fault that raises. -/
def firstFault (w : Width) : List U64 → Cpu → Option (Nat × U8)
  | [], _ => none
  | v :: vs, s =>
    match (pushW w v s).2.pendingException with
    | some (vector, _) => some (0, vector)
    | none => (firstFault w vs (pushW w v s).2).map fun p => (p.1 + 1, p.2)

theorem pushOnly_pushAll (w : Width) :
    ∀ (vs : List U64) (s : Cpu), s.pe = true → PushOnly s (pushAll w vs s).2
  | [], _, _ => rfl
  | v :: vs, s, hpe => by
    have hhead : PushOnly s (pushW w v s).2 := pushOnly_pushW v hpe
    have hpe' : (pushW w v s).2.pe = true := by
      rw [hhead]
      exact hpe
    exact IsTrans.trans _ _ _ hhead (pushOnly_pushAll w vs _ hpe')

/-- With a fault pending the rest of a frame moves no register. -/
theorem pushAll_faulted (w : Width) :
    ∀ (vs : List U64) (s : Cpu), s.pe = true → s.pendingException.isSome = true →
      (pushAll w vs s).2.pendingException = s.pendingException ∧
        (pushAll w vs s).2.regs = s.regs
  | [], _, _, _ => ⟨rfl, rfl⟩
  | v :: vs, s, hpe, hp => by
    have hkept : (pushW w v s).2.pendingException = s.pendingException :=
      frame_pushW (R := PendingKept) w v s hp
    have hp' : (pushW w v s).2.pendingException.isSome = true := by rw [hkept, hp]
    have hpe' : (pushW w v s).2.pe = true := by
      rw [pushOnly_pushW v hpe]
      exact hpe
    obtain ⟨h1, h2⟩ := pushAll_faulted w vs (pushW w v s).2 hpe' hp'
    exact ⟨h1.trans hkept, h2.trans (pushW_regs_faulted v hpe hp')⟩

theorem long64_dropSlot (w : Width) (s : Cpu) : (s.dropSlot w).long64 = s.long64 := by
  unfold dropSlot setStackPointer
  split <;> rfl

/-- The slots depend on nothing but the stack pointer and its width. -/
theorem dropSlot_congr (w : Width) {s t : Cpu} (hl : t.long64 = s.long64) (hr : t.regs = s.regs) :
    (t.dropSlot w).regs = (s.dropSlot w).regs := by
  have htarget : t.pushTarget w.bytes = s.pushTarget w.bytes := by
    unfold pushTarget rsp esp
    rw [hl, hr]
  unfold dropSlot setStackPointer
  rw [hl, htarget]
  split
  · simp only [setRsp, setReg, hr]
  · simp only [setEsp, setReg, hr]

theorem dropSlots_congr (w : Width) (n : Nat) {s t : Cpu} (hl : t.long64 = s.long64)
    (hr : t.regs = s.regs) : ((dropSlot w)^[n] t).regs = ((dropSlot w)^[n] s).regs := by
  induction n generalizing s t with
  | zero => exact hr
  | succ n ih =>
    rw [Function.iterate_succ_apply, Function.iterate_succ_apply]
    exact ih (by rw [long64_dropSlot, long64_dropSlot, hl]) (dropSlot_congr w hl hr)

/-- After a good push, the slots of the rest are those after one slot. -/
theorem dropSlots_pushW (w : Width) (n : Nat) {s : Cpu} (v : U64) (hpe : s.pe = true)
    (h : (pushW w v s).2.pendingException = none) :
    ((dropSlot w)^[n] (pushW w v s).2).regs = ((dropSlot w)^[n + 1] s).regs := by
  rw [Function.iterate_succ_apply]
  refine dropSlots_congr w n ?_ (pushW_regs v hpe h)
  rw [long64_dropSlot, pushOnly_pushW v hpe]
  rfl

/-- A frame whose every slot can be written is pushed whole. -/
theorem pushAll_complete (w : Width) :
    ∀ (vs : List U64) (s : Cpu), s.pe = true → s.pendingException = none →
      firstFault w vs s = none →
      (pushAll w vs s).2.pendingException = none ∧
        (pushAll w vs s).2.regs = ((dropSlot w)^[vs.length] s).regs
  | [], _, _, hp, _ => ⟨hp, rfl⟩
  | v :: vs, s, hpe, _, h => by
    have hpe' : (pushW w v s).2.pe = true := by
      rw [pushOnly_pushW v hpe]
      exact hpe
    cases hq : (pushW w v s).2.pendingException with
    | some q => simp [firstFault, hq] at h
    | none =>
      simp only [firstFault, hq, Option.map_eq_none_iff] at h
      obtain ⟨h1, h2⟩ := pushAll_complete w vs _ hpe' hq h
      exact ⟨h1, h2.trans (dropSlots_pushW w vs.length v hpe hq)⟩

/-- One with a slot that cannot is pushed up to there, and the fault is pending. -/
theorem pushAll_partial (w : Width) {vector : U8} :
    ∀ (vs : List U64) (s : Cpu) (k : Nat), s.pe = true → s.pendingException = none →
      firstFault w vs s = some (k, vector) →
      (∃ code, (pushAll w vs s).2.pendingException = some (vector, code)) ∧
        (pushAll w vs s).2.regs = ((dropSlot w)^[k] s).regs
  | [], _, _, _, _, h => by cases h
  | v :: vs, s, k, hpe, _, h => by
    have hpe' : (pushW w v s).2.pe = true := by
      rw [pushOnly_pushW v hpe]
      exact hpe
    cases hq : (pushW w v s).2.pendingException with
    | some q =>
      obtain ⟨x, code⟩ := q
      simp only [firstFault, hq, Option.some.injEq, Prod.mk.injEq] at h
      obtain ⟨rfl, rfl⟩ := h
      have hsome : (pushW w v s).2.pendingException.isSome = true := by rw [hq]; rfl
      obtain ⟨h1, h2⟩ := pushAll_faulted w vs _ hpe' hsome
      exact ⟨⟨code, h1.trans hq⟩, h2.trans (pushW_regs_faulted v hpe hsome)⟩
    | none =>
      simp only [firstFault, hq, Option.map_eq_some_iff] at h
      obtain ⟨⟨j, y⟩, hj, hjk⟩ := h
      obtain ⟨rfl, rfl⟩ := Prod.mk.inj hjk
      obtain ⟨h1, h2⟩ := pushAll_partial w vs _ j hpe' hq hj
      exact ⟨h1, h2.trans (dropSlots_pushW w j v hpe hq)⟩

end Cpu

/-! ## Delivery through the IDT -/

namespace Cpu

section Delivery

variable (s : Cpu) (v : U8)

/-- The gate of a vector, in the width of the mode. -/
def gateOf : Gate := if s.longMode then s.gate64 v else s.gate32 v

/-- The gate clears IF. -/
def clearsIf : Bool :=
  if s.longMode then (s.gateOf v).ty == 0xE else (s.gateOf v).ty == 0x6 || (s.gateOf v).ty == 0xE

def slotWidth : Width := if s.longMode then .w64 else .w32

/-- The words of the frame, oldest first. -/
def frameOf (code : Option U32) : List U64 :=
  if s.longMode then frame64 s code else frame32 s (s.switching (s.gateOf v).selector) code

/-- The stack the handler starts on, before its alignment. -/
def handlerStack : Cpu :=
  if s.longMode then s.enterStack64 (s.gateOf v).ist (s.switching (s.gateOf v).selector)
  else s.enterStack32 (s.switching (s.gateOf v).selector)

/-- The state the frame is pushed in: the handler's stack, aligned in long mode, and its CS. -/
def entered : Cpu :=
  let t := (s.handlerStack v).loadSeg .cs (s.gateOf v).selector
  if s.longMode then t.setRsp (t.rsp &&& ~~~0xF) else t

/-- The handler starts. -/
def enterHandler (t : Cpu) : Cpu :=
  { t.modifyFlags (handlerFlags (s.clearsIf v)) with rip := (s.gateOf v).target }.invalidatePhysIp

theorem longInt_run (code : Option U32) (h : s.longMode = true) :
    longInt v code s = ((), s.enterHandler v (pushAll .w64 (frame64 s code) (s.entered v)).2) := by
  have hg : s.gateOf v = s.gate64 v := if_pos h
  have hc : s.clearsIf v = ((s.gateOf v).ty == 0xE) := if_pos h
  have hs : s.handlerStack v =
      s.enterStack64 (s.gateOf v).ist (s.switching (s.gateOf v).selector) := if_pos h
  unfold longInt entered enterHandler
  simp only [bind_run, get_run, modify_run, if_pos h, hs, hc, hg]

theorem protectedIntErr_run (code : Option U32) :
    protectedIntErr v code s =
      ((), s.enterHandler v (pushAll s.slotWidth (s.frameOf v code) (s.entered v)).2) := by
  unfold protectedIntErr slotWidth frameOf
  cases h : s.longMode with
  | true =>
    simp only [bind_run, get_run, h, ↓reduceIte]
    exact longInt_run s v code h
  | false =>
    have hno : ¬ s.longMode = true := by rw [h]; decide
    have hg : s.gateOf v = s.gate32 v := if_neg hno
    have hc : s.clearsIf v = ((s.gateOf v).ty == 0x6 || (s.gateOf v).ty == 0xE) := if_neg hno
    have hs : s.handlerStack v = s.enterStack32 (s.switching (s.gateOf v).selector) := if_neg hno
    unfold entered enterHandler
    simp only [bind_run, get_run, modify_run, h, Bool.false_eq_true, ↓reduceIte, hs, hc, hg]

/-- `s` with the fields that entering a handler's stack and code segment moves taken from `t`. -/
def enteredOnto (t : Cpu) : Cpu :=
  { s with
    regs := t.regs
    cs := t.cs
    ss := t.ss
    segDesc := t.segDesc
    physIpValid := t.physIpValid }

end Delivery

def EnterOnly (s t : Cpu) : Prop := t = s.enteredOnto t

instance : Std.Refl EnterOnly where
  refl _ := rfl

instance : IsTrans Cpu EnterOnly where
  trans s t u h1 h2 :=
    calc u = t.enteredOnto u := h2
      _ = (s.enteredOnto t).enteredOnto u := by rw [← h1]
      _ = s.enteredOnto u := rfl

variable {s : Cpu} (v : U8)

theorem loadSeg_cs (hpe : s.pe = true) (sel : U16) :
    s.loadSeg .cs sel =
      { s.setSegDesc .cs (s.descriptorFor sel) with cs := sel }.invalidatePhysIp := by
  unfold loadSeg
  rw [if_pos hpe]
  exact if_pos rfl

theorem loadSeg_ss (hpe : s.pe = true) (sel : U16) :
    s.loadSeg .ss sel = { s.setSegDesc .ss (s.descriptorFor sel) with ss := sel } := by
  unfold loadSeg
  rw [if_pos hpe]
  exact if_neg (by decide)

theorem enterOnly_handlerStack (hpe : s.pe = true) : EnterOnly s (s.handlerStack v) := by
  unfold handlerStack enterStack64 enterStack32
  rw [loadSeg_ss hpe, loadSeg_ss hpe]
  split
  · split
    · rfl
    · split <;> rfl
  · split <;> rfl

/-- Up to the frame, delivery moves registers, CS, SS and their descriptors only. -/
theorem enterOnly_entered (hpe : s.pe = true) : EnterOnly s (s.entered v) := by
  have hstack := enterOnly_handlerStack v hpe
  have hpe' : (s.handlerStack v).pe = true := by
    rw [hstack]
    exact hpe
  have hcs : EnterOnly (s.handlerStack v)
      ((s.handlerStack v).loadSeg .cs (s.gateOf v).selector) := by
    rw [loadSeg_cs hpe']
    rfl
  refine IsTrans.trans _ _ _ (IsTrans.trans _ _ _ hstack hcs) ?_
  unfold entered
  dsimp only
  split <;> rfl

theorem cs_entered (hpe : s.pe = true) : (s.entered v).cs = (s.gateOf v).selector := by
  have hpe' : (s.handlerStack v).pe = true := by
    rw [enterOnly_handlerStack v hpe]
    exact hpe
  unfold entered
  rw [loadSeg_cs hpe']
  dsimp only
  split <;> rfl

theorem ss_entered (hpe : s.pe = true) : (s.entered v).ss = (s.handlerStack v).ss := by
  have hpe' : (s.handlerStack v).pe = true := by
    rw [enterOnly_handlerStack v hpe]
    exact hpe
  unfold entered
  rw [loadSeg_cs hpe']
  dsimp only
  split <;> rfl

theorem segDesc_entered (hpe : s.pe = true) (r : SegReg) :
    (s.entered v).segDesc r =
      if r = .cs then s.descriptorFor (s.gateOf v).selector else (s.handlerStack v).segDesc r := by
  have hpe' : (s.handlerStack v).pe = true := by
    rw [enterOnly_handlerStack v hpe]
    exact hpe
  have hdesc : (s.handlerStack v).descriptorFor (s.gateOf v).selector =
      s.descriptorFor (s.gateOf v).selector := by
    rw [enterOnly_handlerStack v hpe]
    rfl
  unfold entered
  rw [loadSeg_cs hpe', hdesc]
  dsimp only
  split <;> rfl

theorem segDesc_handlerStack (hpe : s.pe = true) {r : SegReg} (hr : r ≠ .ss) :
    (s.handlerStack v).segDesc r = s.segDesc r := by
  have hset (t : Cpu) (d : Descriptor) : (t.setSegDesc .ss d).segDesc r = t.segDesc r := if_neg hr
  unfold handlerStack enterStack64 enterStack32
  rw [loadSeg_ss hpe, loadSeg_ss hpe]
  split
  · split
    · exact hset _ _
    · split
      · exact hset _ _
      · rfl
  · split
    · exact hset _ _
    · rfl

end Cpu

/-! ## All or nothing -/

/-- The interrupted context, as an event delivered later would find it. -/
structure ContextKept (s t : Cpu) : Prop where
  cs : t.cs = s.cs
  ss : t.ss = s.ss
  rsp : t.rsp = s.rsp
  flags : t.flags = s.flags
  rip : t.rip = s.rip
  segDesc : t.segDesc = s.segDesc

/-- If a slot of the frame faults, delivery leaves the interrupted context alone. -/
def AllOrNothing (s : Cpu) (v : U8) (code : Option U32) : Prop :=
  (protectedIntErr v code s).2.pendingException.isSome = true →
    ContextKept s (protectedIntErr v code s).2

/-- All of the interrupted context but RIP is also the handler's: its code segment, its flags, and
the stack it starts on, `k` slots down. -/
structure SharesContext (s : Cpu) (v : U8) (k : Nat) : Prop where
  selector : (s.gateOf v).selector = s.cs
  code : s.descriptorFor (s.gateOf v).selector = s.segDesc .cs
  flags : Cpu.handlerFlags (s.clearsIf v) s.flags = s.flags
  ss : (s.handlerStack v).ss = s.ss
  stack : (s.handlerStack v).segDesc .ss = s.segDesc .ss
  rsp : ((Cpu.dropSlot s.slotWidth)^[k] (s.entered v)).rsp = s.rsp

/-- The gate leads back into the interrupted context. -/
structure Reenters (s : Cpu) (v : U8) (k : Nat) : Prop extends SharesContext s v k where
  target : (s.gateOf v).target = s.rip

section AllOrNothing

variable {s : Cpu} (v : U8) (code : Option U32)

/-- What delivery leaves, however much of the frame it pushed. -/
theorem delivered_fields (hpe : s.pe = true) :
    (protectedIntErr v code s).2.cs = (s.gateOf v).selector ∧
      (protectedIntErr v code s).2.ss = (s.handlerStack v).ss ∧
      (protectedIntErr v code s).2.segDesc = (s.entered v).segDesc ∧
      (protectedIntErr v code s).2.flags = Cpu.handlerFlags (s.clearsIf v) s.flags ∧
      (protectedIntErr v code s).2.rip = (s.gateOf v).target ∧
      (protectedIntErr v code s).2.ripStart = s.ripStart := by
  have hent := enterOnly_entered v hpe
  have hpe' : (s.entered v).pe = true := by
    rw [hent]
    exact hpe
  have hpush := pushOnly_pushAll s.slotWidth (s.frameOf v code) (s.entered v) hpe'
  have hflags : (s.entered v).flags = s.flags := by
    rw [hent]
    rfl
  have hstart : (s.entered v).ripStart = s.ripStart := by
    rw [hent]
    rfl
  rw [s.protectedIntErr_run v code, ← cs_entered v hpe, ← ss_entered v hpe, ← hflags, ← hstart]
  generalize (pushAll s.slotWidth (s.frameOf v code) (s.entered v)).2 = t at hpush ⊢
  rw [hpush]
  exact ⟨rfl, rfl, rfl, rfl, rfl, rfl⟩

theorem delivered_push :
    (protectedIntErr v code s).2.pendingException =
        (pushAll s.slotWidth (s.frameOf v code) (s.entered v)).2.pendingException ∧
      (protectedIntErr v code s).2.regs =
        (pushAll s.slotWidth (s.frameOf v code) (s.entered v)).2.regs := by
  rw [s.protectedIntErr_run v code]
  exact ⟨rfl, rfl⟩

theorem segDesc_kept_iff (hpe : s.pe = true) :
    (s.entered v).segDesc = s.segDesc ↔
      s.descriptorFor (s.gateOf v).selector = s.segDesc .cs ∧
        (s.handlerStack v).segDesc .ss = s.segDesc .ss := by
  constructor
  · intro h
    have hcs := segDesc_entered v hpe .cs
    have hss := segDesc_entered v hpe .ss
    rw [h, if_pos rfl] at hcs
    rw [h, if_neg (by decide)] at hss
    exact ⟨hcs.symm, hss.symm⟩
  · rintro ⟨hcs, hss⟩
    funext r
    rw [segDesc_entered v hpe]
    by_cases hr : r = .cs
    · rw [if_pos hr, hr, hcs]
    · rw [if_neg hr]
      by_cases hr' : r = .ss
      · rw [hr', hss]
      · exact segDesc_handlerStack v hpe hr'

/-- With `k` slots pushed before the fault, what is kept of the context but RIP. -/
theorem contextKept_withRip_iff (hpe : s.pe = true) {k : Nat} (rip : U64)
    (hregs : (protectedIntErr v code s).2.regs =
      ((Cpu.dropSlot s.slotWidth)^[k] (s.entered v)).regs) :
    ContextKept s { (protectedIntErr v code s).2 with rip := rip } ↔
      SharesContext s v k ∧ rip = s.rip := by
  obtain ⟨hcs, hss, hdesc, hflags, -, -⟩ := delivered_fields v code hpe
  have hrsp : (protectedIntErr v code s).2.rsp =
      ((Cpu.dropSlot s.slotWidth)^[k] (s.entered v)).rsp := congrFun hregs 4
  constructor
  · intro h
    obtain ⟨hd1, hd2⟩ := (segDesc_kept_iff v hpe).mp (hdesc.symm.trans h.segDesc)
    exact ⟨
      { selector := hcs.symm.trans h.cs
        code := hd1
        flags := hflags.symm.trans h.flags
        ss := hss.symm.trans h.ss
        stack := hd2
        rsp := hrsp.symm.trans h.rsp }, h.rip⟩
  · rintro ⟨h, hrip⟩
    exact
      { cs := hcs.trans h.selector
        ss := hss.trans h.ss
        rsp := hrsp.trans h.rsp
        flags := hflags.trans h.flags
        rip := hrip
        segDesc := hdesc.trans ((segDesc_kept_iff v hpe).mpr ⟨h.code, h.stack⟩) }

/-- The whole context is kept just when the gate leads back into it. -/
theorem contextKept_iff (hpe : s.pe = true) {k : Nat}
    (hregs : (protectedIntErr v code s).2.regs =
      ((Cpu.dropSlot s.slotWidth)^[k] (s.entered v)).regs) :
    ContextKept s (protectedIntErr v code s).2 ↔ Reenters s v k := by
  obtain ⟨-, -, -, -, hrip, -⟩ := delivered_fields v code hpe
  have hkept := contextKept_withRip_iff v code hpe (protectedIntErr v code s).2.rip hregs
  constructor
  · intro h
    obtain ⟨hshares, htarget⟩ := hkept.mp h
    exact { toSharesContext := hshares, target := hrip.symm.trans htarget }
  · intro h
    exact hkept.mpr ⟨h.toSharesContext, hrip.trans h.target⟩

/-- Whether a push of the frame faulted, and what it left of the stack pointer. -/
theorem delivered_fault (hpe : s.pe = true) (hp : s.pendingException = none) :
    ((protectedIntErr v code s).2.pendingException = none ∧
        Cpu.firstFault s.slotWidth (s.frameOf v code) (s.entered v) = none ∧
        (protectedIntErr v code s).2.regs =
          ((Cpu.dropSlot s.slotWidth)^[(s.frameOf v code).length] (s.entered v)).regs) ∨
      ∃ k vector c, Cpu.firstFault s.slotWidth (s.frameOf v code) (s.entered v) = some (k, vector) ∧
        (protectedIntErr v code s).2.pendingException = some (vector, c) ∧
        (protectedIntErr v code s).2.regs =
          ((Cpu.dropSlot s.slotWidth)^[k] (s.entered v)).regs := by
  have hent := enterOnly_entered v hpe
  have hpe' : (s.entered v).pe = true := by
    rw [hent]
    exact hpe
  have hp' : (s.entered v).pendingException = none := by
    rw [hent]
    exact hp
  obtain ⟨hpend, hregs⟩ := delivered_push (s := s) v code
  cases hf : Cpu.firstFault s.slotWidth (s.frameOf v code) (s.entered v) with
  | none =>
    obtain ⟨h1, h2⟩ := pushAll_complete _ _ _ hpe' hp' hf
    exact .inl ⟨hpend.trans h1, rfl, hregs.trans h2⟩
  | some q =>
    obtain ⟨k, vector⟩ := q
    obtain ⟨⟨c, h1⟩, h2⟩ := pushAll_partial _ _ _ k hpe' hp' hf
    exact .inr ⟨k, vector, c, rfl, hpend.trans h1, hregs.trans h2⟩

end AllOrNothing

/-- Delivery is all or nothing just when every slot of the frame can be written, or the gate leads
back into the interrupted context from the slots pushed before the one that cannot. -/
theorem allOrNothing_iff (s : Cpu) (v : U8) (code : Option U32) (hpe : s.pe = true)
    (hp : s.pendingException = none) :
    AllOrNothing s v code ↔
      ∀ k vector, Cpu.firstFault s.slotWidth (s.frameOf v code) (s.entered v) = some (k, vector) →
        Reenters s v k := by
  rcases delivered_fault v code hpe hp with ⟨hnone, hf, -⟩ | ⟨k, vector, c, hf, hsome, hregs⟩
  · constructor
    · intro _ k vector h
      rw [hf] at h
      cases h
    · intro _ h
      rw [hnone] at h
      cases h
  · have hfault : (protectedIntErr v code s).2.pendingException.isSome = true := by
      rw [hsome]
      rfl
    constructor
    · intro h k' vector' hf'
      rw [hf, Option.some.injEq, Prod.mk.injEq] at hf'
      rw [← hf'.1]
      exact (contextKept_iff v code hpe hregs).mp (h hfault)
    · intro h _
      exact (contextKept_iff v code hpe hregs).mpr (h k vector hf)

/-- A flat 32-bit machine with paging off and a #GP gate at 8:0x4000. -/
def flatMachine : Cpu :=
  { Cpu.withRam (2 ^ 20) Memory.mib_le 0 with
    cr0 := 1
    pe := true
    rip := 0x1000
    regs := fun i => if i = 4 then 0x8000 else 0
    idtBase := 0x500
    idtLimit := 0x7FF
    mem := ((Memory.withSize (2 ^ 20) (by decide)).writeU64 0x568 0x00008E0000084000) }

/-- A 64-bit kernel with the first 2 MiB mapped to themselves, a stack at 0x400000 that is not
mapped, and a #PF gate at 8:0x4000. -/
def unmappedStack : Cpu :=
  { Cpu.withRam (2 ^ 20) Memory.mib_le 0 with
    cr0 := 0x80000001
    cr4 := 0x20
    cr3 := 0x1000
    efer := 0x500
    pe := true
    cs := 8
    rip := 0x10000
    regs := fun i => if i = 4 then 0x400000 else 0
    idtBase := 0x500
    idtLimit := 0xFFF
    mem := ((((Memory.withSize (2 ^ 20) (by decide)).writeU64 0x1000 0x2003).writeU64 0x2000
      0x3003).writeU64 0x3000 0x83).writeU64 0x5E0 0x00008E0000084000 }

/-- The frame of the flat machine can be pushed. -/
theorem flatMachine_allOrNothing :
    flatMachine.pe = true ∧ flatMachine.pendingException = none ∧
      AllOrNothing flatMachine 13 (some 0) :=
  ⟨rfl, rfl, (allOrNothing_iff flatMachine 13 (some 0) rfl rfl).mpr (by
    have hnone : Cpu.firstFault flatMachine.slotWidth (flatMachine.frameOf 13 (some 0))
        (flatMachine.entered 13) = none := by decide +kernel
    intro k vector h
    rw [hnone] at h
    cases h)⟩

/-- The first push of the other faults, with RIP the handler's already. -/
theorem unmappedStack_half_delivered :
    (protectedIntErr 14 (some 0) unmappedStack).2.rip = 0x4000 ∧
      ¬ AllOrNothing unmappedStack 14 (some 0) := by
  have hrun : (protectedIntErr 14 (some 0) unmappedStack).2.rip = 0x4000 := by decide +kernel
  refine ⟨hrun, ?_⟩
  intro h
  have hfault : (protectedIntErr 14 (some 0) unmappedStack).2.pendingException.isSome = true := by
    decide +kernel
  exact absurd (hrun.symm.trans (h hfault).rip) (by decide +kernel)

end X86Emu
