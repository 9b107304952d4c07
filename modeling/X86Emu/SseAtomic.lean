import X86Emu.Sse
import X86Emu.Lib.StateRules
import Mathlib.Logic.Relation

/-!
# Faults of SSE instructions

An SSE instruction first reads and translates, which leaves every register as it was, and then
commits, unless it has faulted. FXRSTOR commits half of its image before it checks the rest, and
MASKMOVDQU stores before it has translated everything.
-/
namespace X86Emu

open StateRules
open Cpu (imageU16 imageU32)

/-! ## What a faulting instruction leaves -/

/-- Memory that changed in the accessed and dirty bits of page walks only. -/
def OnlyMarked : Memory → Memory → Prop :=
  Relation.ReflTransGen fun a b => ∃ cr3 linear mode nxe map write,
    translateMode a cr3 linear mode nxe = some map ∧ b = markWalk map.entryBytes write map.walk a

/-- The registers an SSE instruction can write. -/
structure RegsHeld (s t : Cpu) : Prop where
  regs : t.regs = s.regs
  flags : t.flags = s.flags
  xmm : t.xmm = s.xmm
  mxcsr : t.mxcsr = s.mxcsr
  fpu : t.fpu = s.fpu

/-- They are as before, and nothing was stored. -/
structure Held (s t : Cpu) : Prop extends RegsHeld s t where
  mem : OnlyMarked s.mem t.mem

instance : Std.Refl RegsHeld := ⟨fun _ => ⟨rfl, rfl, rfl, rfl, rfl⟩⟩

instance : IsTrans Cpu RegsHeld :=
  ⟨fun _ _ _ h g => ⟨g.regs.trans h.regs, g.flags.trans h.flags, g.xmm.trans h.xmm,
    g.mxcsr.trans h.mxcsr, g.fpu.trans h.fpu⟩⟩

instance : Std.Refl Held := ⟨fun s => ⟨refl s, .refl⟩⟩

instance : IsTrans Cpu Held :=
  ⟨fun _ _ _ h g => ⟨trans_of RegsHeld h.toRegsHeld g.toRegsHeld, h.mem.trans g.mem⟩⟩

/-- An exception is pending. -/
def Cpu.faulted (s : Cpu) : Prop := s.pendingException.isSome = true

abbrev FaultAtomic {α : Type} (p : Exec α) : Prop := Atomic Cpu.faulted Held p

/-! ## Reading and translating -/

theorem held_raise (s : Cpu) (f : Fault) : Held s (s.raise f) := by
  unfold Cpu.raise
  split
  · exact refl s
  · exact ⟨⟨rfl, rfl, rfl, rfl, rfl⟩, .refl⟩

theorem held_applyPagingInner (linear : U64) (write fetch : Bool) :
    Keeps Held (applyPagingInner linear write fetch) := by
  intro s
  have hmark {map : Mapping} (hw : s.walkOf linear = some map) (w : Bool) {t : Cpu}
      (ht : t.mem = markWalk map.entryBytes w map.walk s.mem) (hregs : RegsHeld s t) : Held s t :=
    ⟨hregs, .single ⟨_, _, _, _, map, w, hw, ht⟩⟩
  unfold applyPagingInner
  split
  · exact held_raise s _
  split
  · exact refl s
  dsimp only
  split
  · split
    · dsimp only
      split
      · rename_i hdirty
        unfold Cpu.markAccessed
        split
        · rename_i map hw
          exact hmark hw true rfl ⟨rfl, rfl, rfl, rfl, rfl⟩
        · exact ⟨⟨rfl, rfl, rfl, rfl, rfl⟩, .refl⟩
      · exact refl s
    · exact held_raise s _
  · split
    · rename_i map hw
      split
      · exact held_raise s _
      · exact hmark hw write rfl ⟨rfl, rfl, rfl, rfl, rfl⟩
    · exact held_raise s _

theorem held_translateAccess (r : SegReg) (off : U64) (write : Bool) :
    Keeps Held (translateAccess r off write) := .get_bind fun _ => held_applyPagingInner _ _ _

theorem held_rmAddr (m : ModRm) (write : Bool) : Keeps Held (rmAddr m write) :=
  .get_bind fun _ => held_translateAccess _ _ _

theorem held_readSplit (phys lin : U64) (bytes : Nat) : Keeps Held (readSplit phys lin bytes) :=
  (held_applyPagingInner _ _ _).bind fun _ => .get_bind fun _ => .ite (.pure _) (.pure _)

theorem held_readRmW (m : ModRm) (w : Width) : Keeps Held (readRmW m w) := by
  refine .ite (.get_bind fun _ => .pure _) ((held_rmAddr _ _).bind fun _ => .get_bind fun _ => ?_)
  exact .ite (.ite (.pure _) ((held_readSplit _ _ _).bind fun _ => .pure _)) (.pure _)

theorem held_readRm16 (m : ModRm) : Keeps Held (readRm16 m) :=
  (held_readRmW _ _).bind fun _ => .pure _

theorem held_sseSrc (m : ModRm) (bytes : Nat) (aligned : Bool) :
    Keeps Held (sseSrc m bytes aligned) := by
  refine .ite (.get_bind fun _ => .pure _) ((held_rmAddr _ _).bind fun _ => .read fun s => ?_)
  split
  · exact refl s
  split
  · exact held_raise s _
  split
  · exact held_readSplit _ _ _ s
  · exact refl s

theorem held_gprOperand (m : ModRm) (w : Width) : Keeps Held (gprOperand m w) :=
  .ite (.get_bind fun _ => .pure _) ((held_rmAddr _ _).bind fun _ => .get_bind fun _ =>
    .ite (.pure _) (.pure _))

theorem held_sseGate : Keeps Held sseGate :=
  .read fun s => by
    split
    · exact held_raise s _
    split
    · rw [bind_run, set_run]
      dsimp only [pure_run]
      split
      · exact ⟨⟨rfl, rfl, rfl, rfl, rfl⟩, .refl⟩
      · exact refl s
    · exact refl s

theorem held_readLinearBytes (seg : SegReg) (off : U64) (len : Nat) :
    ∀ fuel i buf, Keeps Held (readLinearBytes seg off len fuel i buf)
  | 0, _, _ => .pure _
  | fuel + 1, i, buf => by
    unfold readLinearBytes
    refine .ite (.get_bind fun _ => (held_applyPagingInner _ _ _).bind fun _ => .get_bind fun _ => ?_)
      (.pure _)
    exact .ite (.pure _) (held_readLinearBytes seg off len fuel _ _)

/-! ## Committing -/

theorem pending_setXmm (s : Cpu) (i : U8) (v : U128) :
    (s.setXmm i v).pendingException = s.pendingException := by
  unfold Cpu.setXmm
  split <;> rfl

theorem pending_setRegW (s : Cpu) (i : U8) (w : Width) (v : U64) :
    (s.setRegW i w v).pendingException = s.pendingException := by
  unfold Cpu.setRegW
  split <;> rfl

section Commit

/-- What is committed only when nothing has faulted, and does not fault, is atomic. -/
theorem atomic_unlessPending {s : Cpu} {α : Type} {p : Exec α} (a : α)
    (hp : (p s).2.pendingException = s.pendingException)
    (h : ((if s.pendingException.isSome then pure a else p) s).2.faulted) :
    Held s ((if s.pendingException.isSome then pure a else p) s).2 := by
  by_cases hs : s.pendingException.isSome = true
  · rw [if_pos hs]
    exact refl s
  · rw [if_neg hs, Cpu.faulted, hp] at h
    exact absurd h hs

/-- The same, where what follows the check can still fault. -/
theorem atomic_ifClear {s : Cpu} {α : Type} {p : Exec α} {a : α}
    (hp : s.pendingException = none → (p s).2.faulted → Held s (p s).2)
    (h : ((if s.pendingException.isSome then pure a else p) s).2.faulted) :
    Held s ((if s.pendingException.isSome then pure a else p) s).2 := by
  by_cases hs : s.pendingException.isSome = true
  · rw [if_pos hs]
    exact refl s
  · rw [if_neg hs] at h ⊢
    exact hp (by simpa using hs) h

theorem atomic_setXmm (f : Cpu → U8 × U128) :
    FaultAtomic (modify fun s => s.setXmm (f s).1 (f s).2 : Exec Unit) :=
  .commit (fun s h => by rwa [Cpu.faulted, pending_setXmm] at h) (fun _ h => if_pos h)

theorem atomic_setRegW (f : Cpu → U8 × Width × U64) :
    FaultAtomic (modify fun s => s.setRegW (f s).1 (f s).2.1 (f s).2.2 : Exec Unit) :=
  .commit (fun s h => by rwa [Cpu.faulted, pending_setRegW] at h) (fun _ h => if_pos h)

theorem atomic_raiseUd : FaultAtomic (modify (·.raiseUd) : Exec Unit) :=
  Keeps.atomic (.modify fun s => held_raise s _)

/-- A store made with nothing pending does not fault. -/
theorem store_unfaulted {s t : Cpu} (hp : s.pendingException = none)
    (ht : t.pendingException = s.pendingException) (h : t.faulted) : Held s t := by
  rw [Cpu.faulted, ht, hp] at h
  cases h

/-- Both pages are translated before a byte is written. -/
theorem atomic_writeSplit (phys lin : U64) (bytes : Nat) (v : U128) :
    FaultAtomic (writeSplit phys lin bytes v) :=
  .bind (held_applyPagingInner _ _ _) fun _ => .read fun _ h => atomic_unlessPending _ rfl h

theorem atomic_writeRmAt (m : ModRm) (w : Width) (v addr : U64) :
    FaultAtomic (writeRmAt m w v addr) := by
  refine .read fun s => atomic_ifClear fun hp h => ?_
  by_cases hs : w ≠ .w8 ∧ straddles addr w.bytes
  · rw [if_pos hs] at h ⊢
    exact atomic_writeSplit _ _ _ _ s h
  · rw [if_neg hs] at h ⊢
    exact store_unfaulted hp rfl h

theorem atomic_writeRmW (m : ModRm) (w : Width) (hw : w ≠ .w8) (v : U64) :
    FaultAtomic (writeRmW m w v) := by
  refine .read fun s => atomic_ifClear fun hp h => ?_
  by_cases hr : m.isReg = true
  · rw [if_pos hr] at h ⊢
    refine store_unfaulted hp ?_ h
    rw [modify_run, Cpu.setRegAt, if_neg hw, pending_setRegW]
  · rw [if_neg hr] at h ⊢
    exact Atomic.bind (held_rmAddr m true) (fun a => atomic_writeRmAt m w v a) s h

theorem atomic_sseStore (m : ModRm) (bytes : Nat) (v : U128) (aligned : Bool) :
    FaultAtomic (sseStore m bytes v aligned) := by
  refine .ite (atomic_setXmm fun s => (m.rm, _)) (.bind (held_rmAddr _ _) fun a => .read fun s =>
    atomic_ifClear fun hp h => ?_)
  by_cases ha : aligned ∧ a &&& 15 ≠ 0
  · rw [if_pos ha]
    exact held_raise s _
  rw [if_neg ha] at h ⊢
  by_cases hs : straddles a bytes = true
  · rw [if_pos hs] at h ⊢
    exact atomic_writeSplit _ _ _ _ s h
  · rw [if_neg hs] at h ⊢
    exact store_unfaulted hp rfl h

theorem atomic_movGprStore (m : ModRm) (d : U8) (w : Width) : FaultAtomic (movGprStore m d w) := by
  refine .read fun s h => ?_
  by_cases hr : m.isReg = true
  · rw [if_pos hr] at h ⊢
    exact atomic_setRegW (fun _ => (m.rm, w, _)) s h
  · rw [if_neg hr] at h ⊢
    exact Atomic.bind (held_rmAddr m true) (fun _ => .read fun _ h => atomic_unlessPending _ rfl h)
      s h

theorem atomic_xmmOp (m : ModRm) (d : U8) (bytes : Nat) (aligned : Bool)
    (f : U128 → U128 → U128) : FaultAtomic (xmmOp m d bytes aligned f) :=
  .bind (held_sseSrc _ _ _) fun b => atomic_setXmm fun s => (d, f (s.xmmReg d) b)

theorem atomic_xmmRegs (m : ModRm) (d : U8) (f : U128 → U128 → U128) :
    FaultAtomic (xmmRegs m d f) := atomic_setXmm fun s => (d, f (s.xmmReg d) (s.xmmReg m.rm))

theorem atomic_byPrefix (p : Pfx) (m : ModRm) (d : U8) (f : U32 → U32 → U32)
    (g : U64 → U64 → U64) : FaultAtomic (byPrefix p m d f g) := by
  cases p <;> exact atomic_xmmOp _ _ _ _ _

theorem atomic_comis (m : ModRm) (d : U8) (p : Pfx) : FaultAtomic (comis m d p) :=
  .bind (held_sseSrc _ _ _) fun _ => .read fun _ h => atomic_unlessPending _ rfl h

theorem atomic_cvt2Si (m : ModRm) (d : U8) (p : Pfx) (trunc : Bool) (w : Width) :
    FaultAtomic (cvt2Si m d p trunc w) :=
  .bind (held_sseSrc _ _ _) fun _ => .read fun _ h =>
    atomic_unlessPending _ (pending_setRegW _ _ _ _) h

theorem atomic_pinsrw (m : ModRm) (d imm : U8) : FaultAtomic (pinsrw m d imm) := by
  unfold pinsrw
  split
  · exact .get_bind fun _ => .read fun _ h => atomic_unlessPending _ (pending_setXmm _ _ _) h
  · exact .bind (held_readRm16 m) fun _ => .read fun _ h =>
      atomic_unlessPending _ (pending_setXmm _ _ _) h

theorem atomic_pshift (m : ModRm) (d imm8 : U8) (kind : ShiftKind) (bits : Nat) (imm : Bool) :
    FaultAtomic (pshift m d imm8 kind bits imm) := by
  unfold pshift
  split
  · exact .read fun _ h => atomic_unlessPending _ (pending_setXmm _ _ _) h
  · exact .bind (held_sseSrc _ _ _) fun _ => .read fun _ h =>
      atomic_unlessPending _ (pending_setXmm _ _ _) h

theorem atomic_ldmxcsr (m : ModRm) : FaultAtomic (ldmxcsr m) := by
  refine .ite atomic_raiseUd (.bind ((held_readRmW _ _).bind fun _ => .pure _) fun v => .read fun s =>
    atomic_ifClear fun hp h => ?_)
  by_cases hv : test v (~~~mxcsrMask) = true
  · rw [if_pos hv]
    exact held_raise s _
  · rw [if_neg hv] at h ⊢
    exact store_unfaulted hp rfl h

theorem atomic_stmxcsr (m : ModRm) : FaultAtomic (stmxcsr m) :=
  .ite atomic_raiseUd (.read fun s h => atomic_writeRmW m .w32 (by decide) _ s h)

end Commit

/-! ## The families -/

theorem atomic_packed (i : SseInst) : FaultAtomic (packed i) := by
  unfold packed
  dsimp only
  split
  all_goals first
    | exact atomic_xmmOp _ _ _ _ _
    | exact atomic_pinsrw _ _ _
    | exact atomic_pshift _ _ _ _ _ _
    | exact atomic_setXmm fun t => (_, _)
    | exact atomic_setRegW fun t => (_, _, _)
    | exact Keeps.atomic (.pure _)

theorem atomic_conversions (i : SseInst) : FaultAtomic (conversions i) := by
  refine .get_bind fun t => ?_
  dsimp only
  split
  · refine .bind (held_gprOperand _ _) fun v => ?_
    cases v with
    | none => exact Keeps.atomic (.pure _)
    | some v => exact atomic_setXmm fun t => (_, _)
  · exact atomic_cvt2Si _ _ _ _ _
  all_goals first
    | exact atomic_xmmOp _ _ _ _ _
    | exact atomic_packed i

theorem atomic_floats (i : SseInst) : FaultAtomic (floats i) := by
  unfold floats
  dsimp only
  have rcp : FaultAtomic (if i.pfx = .p66 ∨ i.pfx = .f2 then modify (·.raiseUd)
      else byPrefix i.pfx i.m i.reg (fun _ y => f32Unary i.op y) fun _ y => y) :=
    .ite atomic_raiseUd (atomic_byPrefix _ _ _ _ _)
  split
  all_goals first
    | exact atomic_byPrefix _ _ _ _ _
    | exact atomic_xmmOp _ _ _ _ _
    | exact atomic_comis _ _ _
    | exact rcp
    | exact atomic_conversions i

/-- Every move but MASKMOVDQU. -/
theorem atomic_moves (i : SseInst) (hi : i.op ≠ .maskmovdqu) : FaultAtomic (moves i) := by
  refine .get_bind fun t => ?_
  have ud {p : Exec Unit} (hp : FaultAtomic p) :
      FaultAtomic (if i.m.isReg then modify (·.raiseUd) else p) := .ite atomic_raiseUd hp
  dsimp only
  split
  · exact atomic_sseStore _ _ _ _
  · exact atomic_xmmOp _ _ _ _ _
  · exact ud (atomic_sseStore _ _ _ _)
  · exact atomic_sseStore _ _ _ _
  · exact .ite (atomic_xmmRegs _ _ _) (atomic_xmmOp _ _ _ _ _)
  · exact ud (atomic_sseStore _ _ _ _)
  · exact ud (atomic_xmmOp _ _ _ _ _)
  · exact atomic_xmmRegs _ _ _
  · exact atomic_xmmRegs _ _ _
  · exact atomic_movGprStore _ _ _
  · refine .bind (held_gprOperand _ _) fun v => ?_
    cases v with
    | none => exact Keeps.atomic (.pure _)
    | some v => exact atomic_setXmm fun t => (_, _)
  · exact atomic_xmmOp _ _ _ _ _
  · exact .ite (atomic_setXmm fun t => (_, _)) (atomic_sseStore _ _ _ _)
  · exact atomic_xmmOp _ _ _ _ _
  · exact atomic_xmmOp _ _ _ _ _
  · exact atomic_xmmOp _ _ _ _ _
  · exact atomic_setRegW fun t => (_, _, _)
  · refine atomic_writeRmW _ _ ?_ _
    unfold Cpu.osize
    split <;> split <;> simp_all
  · exact absurd ‹_› hi
  · exact atomic_floats i

/-! ## MASKMOVDQU -/

/-- Some selected byte of MASKMOVDQU faults after another was stored. -/
def lateFault (seg : SegReg) (base : U64) (mask v : U128) : Bool → List Nat → Cpu → Bool
  | _, [], _ => false
  | stored, i :: is, s =>
    if mask.getLsbD (i * 8 + 7) then
      let r := translateWrite seg (base + BitVec.ofNat 64 i) s
      if r.2.pendingException.isSome then stored
      else lateFault seg base mask v true is (r.2.modifyMem (·.writeU8 r.1 (byteOf v i)))
    else lateFault seg base mask v stored is s

/-- Once a byte was stored no later byte faults, so the instruction does not. -/
theorem maskedStore_stored {seg : SegReg} {base : U64} {mask v : U128} :
    ∀ {l : List Nat} {s : Cpu}, s.pendingException = none →
      lateFault seg base mask v true l s = false →
        (maskedStore seg base mask v l s).2.pendingException = none
  | [], _, hp, _ => hp
  | i :: is, s, hp, hl => by
    unfold maskedStore
    unfold lateFault at hl
    split
    · rename_i hsel
      rw [if_pos hsel] at hl
      rw [bind_run, bind_run, get_run]
      dsimp only at hl ⊢
      split
      · rename_i hfault
        rw [if_pos hfault] at hl
        cases hl
      · rename_i hclear
        rw [if_neg hclear] at hl
        exact maskedStore_stored (Option.not_isSome_iff_eq_none.mp hclear) hl
    · rename_i hsel
      rw [if_neg hsel] at hl
      exact maskedStore_stored hp hl

theorem held_maskedStore {seg : SegReg} {base : U64} {mask v : U128} :
    ∀ {l : List Nat} {s : Cpu}, lateFault seg base mask v false l s = false →
      (maskedStore seg base mask v l s).2.faulted → Held s (maskedStore seg base mask v l s).2
  | [], s, _, _ => refl s
  | i :: is, s, hl, h => by
    unfold maskedStore at h ⊢
    unfold lateFault at hl
    split at h
    · rename_i hsel
      rw [if_pos hsel] at hl ⊢
      rw [bind_run, bind_run, get_run] at h ⊢
      dsimp only at hl h ⊢
      split at h
      · rename_i hfault
        rw [if_pos hfault]
        exact held_translateAccess _ _ _ s
      · rename_i hclear
        rw [if_neg hclear] at hl
        have hnone := maskedStore_stored (s := Cpu.modifyMem _ _)
          (Option.not_isSome_iff_eq_none.mp hclear) hl
        rw [bind_run, set_run, Cpu.faulted, hnone] at h
        cases h
    · rename_i hsel
      rw [if_neg hsel] at hl ⊢
      exact held_maskedStore hl h

/-! ## FXSAVE and FXRSTOR -/

theorem regsHeld_writeLinearBytes (seg : SegReg) (off : U64) (len : Nat) (buf : Nat → U8) :
    ∀ fuel i, Keeps RegsHeld (writeLinearBytes seg off len buf fuel i)
  | 0, _ => .pure _
  | fuel + 1, i => by
    unfold writeLinearBytes
    refine .ite (.get_bind fun s => .bind ((held_applyPagingInner _ _ _).mono fun _ _ => Held.toRegsHeld)
      fun _ => .read fun t => ?_) (.pure _)
    split
    · exact refl t
    · exact Keeps.set_bind ⟨rfl, rfl, rfl, rfl, rfl⟩ (regsHeld_writeLinearBytes seg off len buf fuel _)

theorem regsHeld_fxsave (m : ModRm) : Keeps RegsHeld (fxsave m) :=
  .get_bind fun _ => .ite (.modify fun s => (held_raise s _).toRegsHeld)
    (.ite (.modify fun s => (held_raise s _).toRegsHeld) (regsHeld_writeLinearBytes _ _ _ _ _ _))

/-- The image FXRSTOR reads, and the machine that read it. -/
def Cpu.fxImage (s : Cpu) (m : ModRm) : (Nat → U8) × Cpu :=
  readLinearBytes (s.sseOperand m).1 (s.sseOperand m).2 512 512 0 (fun _ => 0) s

/-- FXRSTOR gets as far as a whole image, whose MXCSR has a reserved bit set. -/
structure ReservedImage (s : Cpu) (m : ModRm) : Prop where
  memory : m.isReg = false
  aligned : s.linearAddr (s.sseOperand m).1 (s.sseOperand m).2 &&& 15 = 0
  read : (s.fxImage m).2.pendingException = none
  mxcsr : test (imageU32 (s.fxImage m).1 24) (~~~mxcsrMask) = true

/-- The x87 words at the head of an image are the ones loaded already. -/
structure SameHeader (f : Fpu) (b : Nat → U8) : Prop where
  control : imageU16 b 0 = f.control
  status : imageU16 b 2 = f.status
  top : Fin.ofNat 8 (imageU16 b 2 >>> 11).toNat = f.top
  tag : 0xFF00 ||| u16 (~~~b 4) = f.tag

/-- The first half of the commit. -/
def Cpu.loadHeader (s : Cpu) (b : Nat → U8) : Cpu :=
  s.modifyFpu fun f => { f with
    control := imageU16 b 0, status := imageU16 b 2
    top := Fin.ofNat 8 (imageU16 b 2 >>> 11).toNat, tag := 0xFF00 ||| u16 (~~~b 4) }

theorem loadHeader_fpu (s : Cpu) (b : Nat → U8) :
    (s.loadHeader b).fpu = s.fpu ↔ SameHeader s.fpu b := by
  constructor
  · intro h
    exact ⟨congrArg Fpu.control h, congrArg Fpu.status h, congrArg Fpu.top h, congrArg Fpu.tag h⟩
  · rintro ⟨hc, hs, ht, htag⟩
    unfold Cpu.loadHeader Cpu.modifyFpu
    dsimp only
    rw [hc, ht, hs, htag]

theorem fxrstor_eq (m : ModRm) (s : Cpu) :
    (fxrstor m s).2 =
      if m.isReg then s.raiseUd
      else if s.linearAddr (s.sseOperand m).1 (s.sseOperand m).2 &&& 15 ≠ 0 then s.raiseGp 0
      else if (s.fxImage m).2.pendingException.isSome then (s.fxImage m).2
      else (s.fxImage m).2.fxrstorImage (s.fxImage m).1 := by
  rw [fxrstor, bind_run, get_run]
  dsimp only
  split
  · rfl
  split
  · rfl
  rw [bind_run, bind_run, get_run]
  exact (congrArg Prod.snd (ite_run _ _ _ _)).trans (apply_ite Prod.snd _ _ _)

/-- FXRSTOR commits nothing before a fault, unless the image is a reserved one with a header of its
own. -/
theorem fxrstor_held_iff (m : ModRm) (s : Cpu) :
    ((fxrstor m s).2.faulted → Held s (fxrstor m s).2) ↔
      (ReservedImage s m → SameHeader s.fpu (s.fxImage m).1) := by
  have himage : Held s (s.fxImage m).2 := held_readLinearBytes _ _ _ _ _ _ s
  rw [fxrstor_eq]
  by_cases hreg : m.isReg = true
  · rw [if_pos hreg]
    refine ⟨fun _ h => ?_, fun _ _ => held_raise s _⟩
    rw [h.memory] at hreg
    cases hreg
  rw [if_neg hreg]
  by_cases hal : s.linearAddr (s.sseOperand m).1 (s.sseOperand m).2 &&& 15 ≠ 0
  · rw [if_pos hal]
    exact ⟨fun _ h => absurd h.aligned hal, fun _ _ => held_raise s _⟩
  rw [if_neg hal]
  by_cases hp : (s.fxImage m).2.pendingException.isSome = true
  · rw [if_pos hp]
    refine ⟨fun _ h => ?_, fun _ _ => himage⟩
    rw [h.read] at hp
    cases hp
  rw [if_neg hp]
  have hnone := Option.not_isSome_iff_eq_none.mp hp
  have hfpu : (s.fxImage m).2.fpu = s.fpu := himage.fpu
  generalize hu : (s.fxImage m).2 = u at *
  generalize hb : (s.fxImage m).1 = b at *
  by_cases hmx : test (imageU32 b 24) (~~~mxcsrMask) = true
  · have hrun : u.fxrstorImage b = (u.loadHeader b).raiseGp 0 := if_pos hmx
    have hfault : ((u.loadHeader b).raiseGp 0).faulted := by
      have hclear : ¬ (u.loadHeader b).pendingException.isSome = true := hp
      rw [Cpu.faulted, Cpu.raiseGp, Cpu.raise, if_neg hclear]
      rfl
    have hraise := held_raise (u.loadHeader b) ⟨0x0D, some 0, u.cr2⟩
    rw [hrun, ← hfpu, ← loadHeader_fpu]
    constructor
    · intro h _
      exact hraise.fpu.symm.trans ((h hfault).fpu.trans hfpu.symm)
    · intro h _
      have hsame := h ⟨by simpa using hreg, not_ne_iff.mp hal, hu ▸ hnone, hb ▸ hmx⟩
      have hload : Held u (u.loadHeader b) := ⟨⟨rfl, rfl, rfl, rfl, hsame⟩, .refl⟩
      exact trans_of Held himage (trans_of Held hload hraise)
  · have hrun : (u.fxrstorImage b).pendingException = u.pendingException := by
      unfold Cpu.fxrstorImage
      dsimp only
      rw [if_neg hmx]
      rfl
    refine ⟨fun _ h => absurd (hb ▸ h.mxcsr) hmx, fun _ h => ?_⟩
    rw [Cpu.faulted, hrun, hnone] at h
    cases h

/-! ## Every SSE instruction -/

/-- An instruction that faults changes no register and, unless it is FXSAVE, stores nothing. -/
def SseInst.FaultsWhole (i : SseInst) (s : Cpu) : Prop :=
  (executeSse i s).2.faulted →
    RegsHeld s (executeSse i s).2 ∧ (i.op ≠ .fxsave → OnlyMarked s.mem (executeSse i s).2.mem)

/-- FXRSTOR loads no reserved image with a header of its own, and MASKMOVDQU does not fault after it
has stored. -/
def SseInst.Restartable (i : SseInst) (s : Cpu) : Prop :=
  match i.op with
  | .fxrstor => ReservedImage s i.m → SameHeader s.fpu (s.fxImage i.m).1
  | .maskmovdqu =>
    (sseGate s).1 = true →
      lateFault (s.operandSeg .ds) (s.regW 7 (if s.addrsize then .w64 else .w16))
        (s.xmmReg i.m.rm) (s.xmmReg i.reg) false (List.range 16) s = false
  | _ => True

theorem faultsWhole_of_atomic {i : SseInst} {s : Cpu}
    (h : (executeSse i s).2.faulted → Held s (executeSse i s).2) : i.FaultsWhole s :=
  fun hf => ⟨(h hf).toRegsHeld, fun _ => (h hf).mem⟩

/-- The gate hands on the machine it found, or faults. -/
theorem sseGate_run (s : Cpu) : (sseGate s).1 = true → (sseGate s).2 = s := by
  rw [sseGate, bind_run, get_run]
  dsimp only
  split
  · intro h
    cases h
  split
  · intro h
    cases h
  · exact fun _ => rfl

theorem held_maskmovdqu {i : SseInst} {s : Cpu} (hi : i.op = .maskmovdqu) (h : i.Restartable s) :
    (executeSse i s).2.faulted → Held s (executeSse i s).2 := by
  have hrun : executeSse i s =
      (do if ← sseGate then moves i else pure () : Exec Unit) s := by
    rw [executeSse, hi]
  have hmoves : moves i s = maskmovdqu i.m i.reg s := by
    rw [moves, hi]
    rfl
  have hgate := held_sseGate s
  rw [SseInst.Restartable, hi] at h
  rw [hrun, bind_run]
  by_cases hg : (sseGate s).1 = true
  · rw [if_pos hg, sseGate_run s hg, hmoves]
    exact held_maskedStore (h hg)
  · rw [if_neg hg]
    exact fun _ => hgate

/-- An SSE instruction faults as a whole: FXRSTOR exactly, and MASKMOVDQU at least, when it is
restartable, every other instruction always. -/
theorem sse_faultsWhole (i : SseInst) (s : Cpu) :
    (i.Restartable s → i.FaultsWhole s) ∧
      (i.op ≠ .maskmovdqu → (i.FaultsWhole s ↔ i.Restartable s)) := by
  by_cases hmask : i.op = .maskmovdqu
  · exact ⟨fun h => faultsWhole_of_atomic (held_maskmovdqu hmask h), fun h => absurd hmask h⟩
  by_cases hfx : i.op = .fxrstor
  · have hrun : executeSse i s = fxrstor i.m s := by rw [executeSse, hfx]
    have hiff : i.FaultsWhole s ↔ i.Restartable s := by
      unfold SseInst.FaultsWhole SseInst.Restartable
      rw [hfx, hrun, ← fxrstor_held_iff]
      constructor
      · intro h hf
        exact ⟨(h hf).1, (h hf).2 (by decide)⟩
      · intro h hf
        exact ⟨(h hf).toRegsHeld, fun _ => (h hf).mem⟩
    exact ⟨hiff.mpr, fun _ => hiff⟩
  have hwhole : i.FaultsWhole s := by
    by_cases hsave : i.op = .fxsave
    · have hrun : executeSse i s = fxsave i.m s := by rw [executeSse, hsave]
      intro _
      rw [hrun]
      exact ⟨regsHeld_fxsave i.m s, fun h => absurd hsave h⟩
    · refine faultsWhole_of_atomic ?_
      have hatomic : FaultAtomic (executeSse i) := by
        unfold executeSse
        split
        · exact absurd ‹_› hsave
        · exact absurd ‹_› hfx
        · exact atomic_ldmxcsr _
        · exact atomic_stmxcsr _
        · exact .bind held_sseGate fun _ => .ite (atomic_moves i hmask) (Keeps.atomic (.pure _))
      exact hatomic s
  have hrestart : i.Restartable s := by
    unfold SseInst.Restartable
    split
    · exact absurd ‹_› hfx
    · exact absurd ‹_› hmask
    · trivial
  exact ⟨fun _ => hwhole, fun _ => ⟨fun _ => hrestart, fun _ => hwhole⟩⟩

/-- An operand at BX. -/
def atBx : ModRm := { modField := 0, reg := 0, rm := 7, rmRaw := 7 }

/-- A real-mode machine whose image at BX is zero but for a reserved MXCSR bit. -/
def reservedImage : Cpu :=
  { Cpu.withRam (2 ^ 16) Memory.segment_le 0 with
    regs := fun i => if i = 3 then 0x5000 else 0
    mem := (Memory.withSize (2 ^ 16) (by decide)).writeU32 0x5018 0x10000 }

/-- Page 0 is mapped to 0x3000 and page 1 is not, with EDI two bytes before it. -/
def lastBytes : Cpu :=
  { Cpu.withRam (2 ^ 16) Memory.segment_le 0 with
    pe := true, cr0 := 0x80000001, cr4 := 0x200, cr3 := 0x1000, addrsize := true
    regs := fun i => if i = 7 then 0xFFE else 0
    xmm := fun _ => 0xFFFFFFFFFFFFFFFFFFFFFFFFFFFFFFFF
    mem := ((Memory.withSize (2 ^ 16) Memory.segment_le).writeU32 0x1000 0x2003).writeU32 0x2000
      0x3003 }

def fxrstorBx : SseInst := { op := .fxrstor, m := atBx, reg := 0, imm := 0, pfx := .none }

def maskmovdquXmm : SseInst :=
  { op := .maskmovdqu, m := { atBx with modField := 3 }, reg := 0, imm := 0, pfx := .p66 }

/-- FXRSTOR has replaced the control word when it raises #GP, and MASKMOVDQU has stored two bytes
when it raises #PF. -/
theorem sse_commits_half :
    reservedImage.fpu.control = 0x037F ∧
      (executeSse fxrstorBx reservedImage).2.fpu.control = 0 ∧
      (executeSse fxrstorBx reservedImage).2.pendingException = some (0x0D, some 0) ∧
      ¬ fxrstorBx.FaultsWhole reservedImage ∧
      lastBytes.mem.readU8 0x3FFE = 0 ∧
      (executeSse maskmovdquXmm lastBytes).2.mem.readU8 0x3FFE = 0xFF ∧
      (executeSse maskmovdquXmm lastBytes).2.pendingException = some (0x0E, some 2) := by
  have hfault : (executeSse fxrstorBx reservedImage).2.pendingException = some (0x0D, some 0) := by
    decide +kernel
  refine ⟨rfl, by decide +kernel, hfault, fun h => ?_, by decide +kernel, by decide +kernel,
    by decide +kernel⟩
  have hheld := (h (by rw [Cpu.faulted, hfault]; rfl)).1
  exact absurd (congrArg Fpu.control hheld.fpu) (by decide +kernel)

end X86Emu
