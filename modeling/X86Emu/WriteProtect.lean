import X86Emu.StoreRun

/-!
# Write protection

Every instruction that stores through the operand and stack helpers runs as `StoreRun`, up to what
changes no memory. A store at an address no mapping grants faults before a byte is written.
-/
namespace X86Emu

open StateRules

/-! ## Ends of instructions -/

/-- Steps that change memory only in the accessed and dirty bits of walks. -/
inductive WalkRun : Cpu → Cpu → Prop
  | system {s t : Cpu} (hm : t.mem = s.mem) : WalkRun s t
  | mark {s : Cpu} {linear : U64} {map : Mapping} (hm : s.walkOf linear = some map) (write : Bool) :
      WalkRun s (s.setAccessedBits map write)
  | trans {s t u : Cpu} (h : WalkRun s t) (k : WalkRun t u) : WalkRun s u

/-- Stores where granted, then nothing but accessed and dirty bits. -/
def Protected (s t : Cpu) : Prop := ∃ u, StoreRun s u ∧ WalkRun u t

theorem Protected.trans {s t u : Cpu} (h : Protected s t) (k : WalkRun t u) : Protected s u := by
  obtain ⟨v, hs, hw⟩ := h
  exact ⟨v, hs, hw.trans k⟩

theorem Protected.after {s t u : Cpu} (h : StoreRun s t) (k : Protected t u) : Protected s u := by
  obtain ⟨v, hs, hw⟩ := k
  exact ⟨v, h.trans hs, hw⟩

theorem StoreRun.protected {s t : Cpu} (h : StoreRun s t) : Protected s t := ⟨t, h, .system rfl⟩

/-- From protected mode, a program that is protected. -/
def Ends {α : Type} (p : Exec α) : Prop := ∀ s, s.pe = true → Protected s (p s).2

namespace Ends

variable {α β : Type}

theorem stores {p : Exec α} (h : Keeps Stores p) : Ends p := fun s hpe => (h s hpe).protected

theorem walk {p : Exec α} (h : Keeps WalkRun p) : Ends p := fun s _ => ⟨s, .refl s, h s⟩

theorem system {p : Exec α} (h : ∀ s, (p s).2.mem = s.mem) : Ends p :=
  walk fun s => .system (h s)

theorem bind {p : Exec α} {q : α → Exec β} (hp : Keeps Stores p) (hq : ∀ a, Ends (q a)) :
    Ends (p >>= q) := fun s hpe => by
  have hrun := hp s hpe
  exact Protected.after hrun (hq _ _ (hrun.pe.trans hpe))

theorem read {q : Cpu → Exec α} (h : ∀ s, Ends (q s)) : Ends (get >>= q) :=
  fun s hpe => h s s hpe

theorem ite {c : Prop} [Decidable c] {p q : Exec α} (hp : Ends p) (hq : Ends q) :
    Ends (if c then p else q) := by
  split
  · exact hp
  · exact hq

end Ends

/-- A change of state outside memory. -/
def Outside (f : Cpu → Cpu) : Prop := ∀ s, (f s).mem = s.mem

theorem ends_modify {f : Cpu → Cpu} (h : Outside f) : Ends (modify f : Exec Unit) := .system h

instance : Std.Refl WalkRun := ⟨fun _ => .system rfl⟩

instance : IsTrans Cpu WalkRun := ⟨fun _ _ _ => .trans⟩

theorem mem_raise (s : Cpu) (f : Fault) : (s.raise f).mem = s.mem := by
  unfold Cpu.raise
  split <;> rfl

theorem walk_markAccessed (s : Cpu) (linear : U64) (write : Bool) :
    WalkRun s (s.markAccessed linear write) := by
  unfold Cpu.markAccessed
  split
  · exact .mark ‹_› write
  · exact .system rfl

theorem walk_applyPagingInner (linear : U64) (write fetch : Bool) :
    Keeps WalkRun (applyPagingInner linear write fetch) := by
  intro s
  unfold applyPagingInner
  split
  · exact .system (mem_raise s _)
  split
  · exact .system rfl
  dsimp only
  split
  · split
    · split
      · exact (walk_markAccessed s linear true).trans (.system rfl)
      · exact .system rfl
    · exact .system (mem_raise s _)
  · split
    · rename_i map hm
      split
      · exact .system (mem_raise s _)
      · have hm' : (s.setTlb (Cpu.tlbIndex linear) (cachedEntry linear map write)).walkOf linear =
            some map := hm
        have hfill : WalkRun s (s.setTlb (Cpu.tlbIndex linear) (cachedEntry linear map write)) :=
          .system rfl
        exact hfill.trans (.mark hm' write)
    · exact .system (mem_raise s _)

theorem mem_setStackPointer (s : Cpu) (v : U64) : (s.setStackPointer v).mem = s.mem := by
  unfold Cpu.setStackPointer
  split <;> rfl

theorem walk_popW (w : Width) : Keeps WalkRun (popW w) :=
  .read fun s => by
    split
    · refine Keeps.bind (R := WalkRun) (fun s => walk_applyPagingInner _ _ _ s)
        (fun _ => .read fun t => ?_) s
      split
      · exact .system rfl
      · exact .system (mem_setStackPointer t _)
    · exact .system rfl

/-! ## Memory of the privileged steps -/

theorem mem_ite {c : Prop} [Decidable c] {m : Memory} {x y : Cpu} (hx : x.mem = m)
    (hy : y.mem = m) : (if c then x else y).mem = m := by
  split
  · exact hx
  · exact hy

theorem mem_loadSeg (s : Cpu) (r : SegReg) (sel : U16) : (s.loadSeg r sel).mem = s.mem := by
  have hset (t : Cpu) : (t.setSeg r sel).mem = t.mem := by cases r <;> rfl
  have hdesc : (if s.pe then s.setSegDesc r (s.descriptorFor sel) else s).mem = s.mem :=
    mem_ite rfl rfl
  unfold Cpu.loadSeg
  dsimp only
  exact mem_ite ((hset _).trans hdesc) ((hset _).trans hdesc)

theorem mem_loadTr (s : Cpu) (sel : U16) : (s.loadTr sel).mem = s.mem := by
  unfold Cpu.loadTr
  dsimp only
  split <;> rfl

theorem mem_loadLdt (s : Cpu) (sel : U16) : (s.loadLdt sel).mem = s.mem := by
  unfold Cpu.loadLdt
  split <;> rfl

theorem mem_updateLongMode (s : Cpu) : s.updateLongMode.mem = s.mem := by
  unfold Cpu.updateLongMode
  dsimp only
  split <;> rfl

theorem mem_writeCr0 (s : Cpu) (v : U32) : (s.writeCr0 v).mem = s.mem := by
  unfold Cpu.writeCr0
  dsimp only
  rw [mem_updateLongMode]
  split <;> rfl

theorem mem_writeMsr (s : Cpu) (index : U32) (value : U64) :
    (s.writeMsr index value).mem = s.mem := by
  unfold Cpu.writeMsr
  refine mem_ite (mem_updateLongMode _) ?_
  repeat' refine mem_ite ?_ ?_
  all_goals rfl

theorem mem_setRegW (s : Cpu) (i : U8) (w : Width) (v : U64) : (s.setRegW i w v).mem = s.mem := by
  unfold Cpu.setRegW
  split <;> rfl

theorem mem_setReg8 (s : Cpu) (r : Reg8) (v : U8) : (s.setReg8 r v).mem = s.mem := by
  unfold Cpu.setReg8
  split <;> try split
  all_goals rfl

/-! ## Ports read -/

/-- Memory as it was. -/
def SameMem (s t : Cpu) : Prop := t.mem = s.mem

instance : Std.Refl SameMem := ⟨fun _ => rfl⟩

instance : IsTrans Cpu SameMem := ⟨fun _ _ _ h k => Eq.trans k h⟩

theorem sameMem_ite {α : Type} {c : Prop} [Decidable c] {s : Cpu} {x y : α × Cpu}
    (hx : SameMem s x.2) (hy : SameMem s y.2) : SameMem s (if c then x else y).2 := by
  split
  · exact hx
  · exact hy

theorem sameMem_portIn (port : U16) : Keeps SameMem (portIn port) :=
  .read fun s => by
    cases s.virtioPort port with
    | some off => exact rfl
    | none =>
      cases pciLane port with
      | some lane => exact rfl
      | none =>
        show SameMem s (deviceIn port s).2
        unfold deviceIn
        repeat' refine sameMem_ite ?_ ?_
        all_goals exact rfl

theorem sameMem_portIn16 (port : U16) : Keeps SameMem (portIn16 port) :=
  .read fun s => by
    cases s.virtioPort port with
    | some off => exact rfl
    | none =>
      cases pciLane port with
      | some lane => exact rfl
      | none =>
        refine Keeps.ite (R := SameMem) (fun _ => by exact rfl) (.ite (.pure _) ?_) s
        refine .ite (.pure _) ?_
        exact (sameMem_portIn _).bind fun _ => (sameMem_portIn _).bind fun _ => .pure _

theorem sameMem_portIn32 (port : U16) : Keeps SameMem (portIn32 port) :=
  .read fun s => by
    cases s.virtioPort port with
    | some off => exact rfl
    | none =>
      refine Keeps.ite (R := SameMem) (.pure _) ?_ s
      cases pciLane port with
      | some lane => exact .pure _
      | none =>
        exact (sameMem_portIn16 _).bind fun _ => (sameMem_portIn16 _).bind fun _ => .pure _

theorem ends_inAl (port : U16) : Ends (inAl port) :=
  .system ((sameMem_portIn port).bind fun _ => .modify fun s => mem_setReg8 s _ _)

theorem ends_inAx (port : U16) : Ends (inAx port) :=
  .read fun _ => .ite
    (.system ((sameMem_portIn32 port).bind fun _ => .modify fun s => mem_setRegW s _ _ _))
    (.system ((sameMem_portIn16 port).bind fun _ => .modify fun s => mem_setRegW s _ _ _))

/-! ## Privileged instructions -/

theorem ends_lgdt (m : ModRm) : Ends (lgdt m) :=
  .bind (frame_rmAddr _ _) fun _ => ends_modify fun _ => by rfl

theorem ends_lidt (m : ModRm) : Ends (lidt m) :=
  .bind (frame_rmAddr _ _) fun _ => ends_modify fun _ => by rfl

theorem ends_lldt (m : ModRm) : Ends (lldt m) :=
  .bind (frame_readRm16 _) fun _ => ends_modify fun s => mem_loadLdt s _

theorem ends_ltr (m : ModRm) : Ends (ltr m) :=
  .bind (frame_readRm16 _) fun _ => ends_modify fun s => mem_loadTr s _

theorem ends_movSegRm (seg : SegReg) (m : ModRm) : Ends (movSegRm seg m) :=
  .bind (frame_readRm16 _) fun _ => ends_modify fun s => mem_loadSeg s _ _

theorem ends_popSeg (seg : SegReg) : Ends (popSeg seg) :=
  .read fun _ => .bind (frame_popW _) fun _ => ends_modify fun s => mem_loadSeg s _ _

theorem ends_lmsw (m : ModRm) : Ends (lmsw m) :=
  .read fun _ => .ite (ends_modify fun s => mem_raise s _) <|
    .bind (frame_readRm16 _) fun _ => .system fun s => by
      rw [bind_run, get_run]
      dsimp only
      by_cases hf : s.pendingException.isSome = true
      · rw [if_pos hf]
        rfl
      · rw [if_neg hf]
        exact mem_writeCr0 s _

theorem ends_movToCr (cr reg : U8) : Ends (movToCr cr reg) :=
  ends_modify fun s => mem_ite (mem_writeCr0 s _) (mem_ite rfl (mem_ite rfl (mem_ite rfl rfl)))

theorem ends_xsetbv : Ends xsetbv :=
  ends_modify fun s => mem_ite (mem_raise s _) <| mem_ite (mem_raise s _) <|
    mem_ite (mem_raise s _) rfl

theorem ends_wrmsr : Ends wrmsr := ends_modify fun s => mem_writeMsr s _ _

theorem ends_syscall : Ends syscall :=
  ends_modify fun _ => mem_ite rfl ((mem_loadSeg _ _ _).trans (mem_loadSeg _ _ _))

theorem ends_sysret : Ends sysret :=
  ends_modify fun _ => (mem_loadSeg _ _ _).trans (mem_loadSeg _ _ _)

theorem ends_swapgs : Ends swapgs := ends_modify fun _ => mem_ite rfl rfl

theorem ends_popf : Ends popf :=
  .read fun _ => .ite (.bind (frame_popW _) fun _ => ends_modify fun _ => by rfl)
    (.bind (frame_popW _) fun _ => ends_modify fun _ => by rfl)

theorem ends_jmpFar (off seg : U16) : Ends (jmpFar off seg) :=
  ends_modify fun s => mem_loadSeg s _ _

theorem ends_jmpFar32 (off : U32) (seg : U16) : Ends (jmpFar32 off seg) :=
  ends_modify fun s => mem_loadSeg s _ _

theorem ends_callFar (off seg : U16) : Ends (callFar off seg) :=
  .read fun _ => .bind (frame_push16 _) fun _ => .bind (frame_push16 _) fun _ => ends_jmpFar _ _

theorem ends_callFar32 (off : U32) (seg : U16) : Ends (callFar32 off seg) :=
  .read fun _ => .bind (frame_push32 _) fun _ => .bind (frame_push32 _) fun _ => ends_jmpFar32 _ _

theorem ends_retf : Ends retf :=
  .bind frame_pop16 fun _ => .bind (frame_inner fun s => s.shell_setIp _) fun _ =>
    .bind frame_pop16 fun _ => ends_modify fun s => mem_loadSeg s _ _

theorem ends_retf32 : Ends retf32 :=
  .read fun _ => .ite
    (.bind (frame_popW _) fun _ => .bind (frame_popW _) fun _ =>
      ends_modify fun s => mem_loadSeg s _ _)
    (.bind frame_pop32 fun _ => .bind frame_pop32 fun _ => ends_modify fun s => mem_loadSeg s _ _)

/-- CS is written before the flags are popped, so the last pop is outside the run. -/
theorem ends_iret : Ends iret := by
  refine .bind frame_pop16 fun _ => .bind (frame_inner fun s => s.shell_setIp _) fun _ =>
    .bind frame_pop16 fun _ => .walk ?_
  refine Keeps.bind (.modify fun _ => .system rfl) fun _ => ?_
  exact Keeps.bind (Keeps.bind (walk_popW _) fun _ => .pure _) fun _ => .modify fun _ => .system rfl

theorem ends_iretLong : Ends iretLong :=
  .bind (frame_popW _) fun _ => .bind (frame_popW _) fun _ => .bind (frame_popW _) fun _ =>
    .bind (frame_popW _) fun _ => .bind (frame_popW _) fun _ =>
      ends_modify fun _ => (mem_loadSeg _ _ _).trans (mem_loadSeg _ _ _)

theorem ends_iretLegacy : Ends iretLegacy := by
  refine .bind frame_pop32 fun _ => .bind frame_pop32 fun _ => .bind frame_pop32 fun _ =>
    .read fun s => ?_
  have last (eip : U32) (cs : U16) (f : U32) : Outside fun s =>
      (((s.setEip eip).loadSeg .cs cs).modifyFlags fun fl => writeFlags fl f).invalidatePhysIp :=
    fun s => mem_loadSeg _ _ _
  split
  · refine .bind frame_pop32 fun _ => .bind frame_pop32 fun _ => .bind ?_ fun _ =>
      ends_modify (last _ _ _)
    exact frame_inner fun s =>
      (show ((s.loadSeg .ss _).setEsp _).shell = _ from Cpu.shell_loadSeg s (by decide) _)
  · exact ends_modify (last _ _ _)

/-! ## Every instruction -/

/-- Instructions that store through the operand and stack helpers, or not at all. INT writes BIOS
results and gate frames, a port write may start a transfer by the disk controller, and the VMX
instructions keep VMCS regions in physical memory. FISTP and the bit updates of memory store at an
address translated for another access. -/
def Inst.storesChecked : Inst → Bool
  | .int .. | .vmx .. => false
  | .outImmAl .. | .outImmAx .. | .outDxAl | .outDxAx => false
  | .fistp .. => false
  | .bts m _ | .btr m _ | .btc m _ => m.isReg
  | _ => true

theorem storeRun_divideStep {s t : Cpu} (h : DivideStep s t) : StoreRun s t := by
  cases h with
  | error => exact .quiet rfl rfl rfl
  | abort => exact .quiet rfl rfl rfl
  | store h => exact .of_shell h

theorem storeRun_traps {inst : Inst} (ht : inst.traps) (s : Cpu) :
    StoreRun s (execute inst s).2 := by
  cases inst with
  | int3 | unknown => exact .quiet rfl rfl rfl
  | into =>
    show StoreRun s (if s.getFlag Flags.of then s.setPending 0x04 none else s)
    split
    · exact .quiet rfl rfl rfl
    · exact .refl s
  | _ => cases ht

theorem ends_execute {inst : Inst} (hc : inst.storesChecked) : Ends (execute inst) := by
  by_cases ht : inst.traps = true
  · exact fun s _ => (storeRun_traps ht s).protected
  by_cases hconf : inst.confined = true
  · exact .stores fun s => execute_userFrame hconf fun h => absurd h ht
  by_cases hd : inst.divides = true
  · intro s hpe
    obtain ⟨t, hread, hstep⟩ := divides_execute hd s
    exact ((hread Stores hpe).trans (storeRun_divideStep hstep)).protected
  cases inst with
  | movToCr cr reg => exact ends_movToCr _ _
  | movToDr dr reg => exact ends_modify fun _ => by rfl
  | lmsw m => exact ends_lmsw _
  | clts => exact ends_modify fun _ => by rfl
  | xsetbv => exact ends_xsetbv
  | wrmsr => exact ends_wrmsr
  | swapgs => exact ends_swapgs
  | lgdt m => exact ends_lgdt _
  | lidt m => exact ends_lidt _
  | lldt m => exact ends_lldt _
  | ltr m => exact ends_ltr _
  | cli | sti => exact ends_modify fun _ => by rfl
  | popf => exact ends_popf
  | iret => exact ends_iret
  | iret32 => exact .read fun _ => .ite ends_iretLong ends_iretLegacy
  | syscall => exact ends_syscall
  | sysret => exact ends_sysret
  | jmpFar off seg => exact ends_jmpFar _ _
  | jmpFar32 off seg => exact ends_jmpFar32 _ _
  | callFar off seg => exact ends_callFar _ _
  | callFar32 off seg => exact ends_callFar32 _ _
  | retf => exact ends_retf
  | retf32 => exact ends_retf32
  | movSegRm seg m => exact ends_movSegRm _ _
  | popSeg seg => exact ends_popSeg _
  | inAlImm port => exact ends_inAl _
  | inAxImm port => exact ends_inAx _
  | inAlDx => exact .read fun _ => ends_inAl _
  | inAxDx => exact .read fun _ => ends_inAx _
  | bts m bit | btr m bit | btc m bit => exact absurd hc hconf
  | int | vmx | outImmAl | outImmAx | outDxAl | outDxAx | fistp => cases hc
  | _ => first | exact absurd rfl hconf | exact absurd rfl hd

/-! ## What an instruction changes -/

theorem WalkRun.changes {s t : Cpu} (h : WalkRun s t) : ∀ i, t.mem.data i ≠ s.mem.data i →
    ∃ u, WalkRun s u ∧ u.Marks i := by
  induction h with
  | system hm =>
    rw [hm]
    exact fun _ h => absurd rfl h
  | @mark s linear map hm write =>
    obtain ⟨-, hbytes⟩ := markWalk_spot map.entryBytes write map.walk s.mem
    exact fun i hi => ⟨s, .system rfl, linear, map, hm, hbytes i hi⟩
  | @trans s t u h k ihh ihk =>
    intro i hi
    by_cases ht : t.mem.data i = s.mem.data i
    · obtain ⟨v, hv, hm⟩ := ihk i fun he => hi (he.trans ht)
      exact ⟨v, h.trans hv, hm⟩
    · exact ihh i ht

/-- Byte `i` of RAM is one a protected program may change. -/
def Cpu.MayChange (s : Cpu) (i : Nat) : Prop :=
  (∃ u, StoreRun s u ∧ u.storeControl = s.storeControl ∧ u.Changes i) ∨
    ∃ u, Protected s u ∧ u.Marks i

theorem Protected.changes {s t : Cpu} (h : Protected s t) {i : Nat}
    (hi : t.mem.data i ≠ s.mem.data i) : s.MayChange i := by
  obtain ⟨u, hs, hw⟩ := h
  by_cases hu : u.mem.data i = s.mem.data i
  · obtain ⟨v, hv, hm⟩ := hw.changes i fun he => hi (he.trans hu)
    exact .inr ⟨v, ⟨u, hs, hv⟩, hm⟩
  · obtain ⟨v, hv, hc⟩ := hs.changes.2 i hu
    exact .inl ⟨v, hv, hv.control, hc⟩

/-! ## Stores refused -/

/-- The fault of a store refused at a linear address: #PF there with the W bit of its code set, or
#GP when the address is not canonical. -/
def Cpu.RefusedWith (s : Cpu) (linear : U64) (f : Fault) : Prop :=
  (f.vector = 0x0E ∧ f.cr2 = linear ∧ ∃ c, f.code = some c ∧ test c 2 = true) ∨
    s.longMode = true ∧ canonical linear = false ∧ f.vector = 0x0D

theorem pageFault_refused (s : Cpu) (linear : U64) (present user : Bool) :
    s.RefusedWith linear ⟨0x0E, some (s.pageFaultCode present true user false), linear⟩ := by
  refine .inl ⟨rfl, rfl, _, rfl, ?_⟩
  unfold Cpu.pageFaultCode
  rw [Bool.false_and, if_neg Bool.false_ne_true]
  cases present <;> cases user <;> decide

/-- Where no mapping grants a store, its translation faults. -/
theorem refused_translation {s : Cpu} {linear : U64} (hn : ∀ p, ¬ s.Grants linear p) :
    ∃ f, s.RefusedWith linear f ∧ applyPagingAccess linear true s = (unbacked, s.raise f) := by
  unfold applyPagingAccess applyPagingInner
  split
  · rename_i hgp
    rw [Bool.and_eq_true, Bool.not_eq_true'] at hgp
    exact ⟨_, .inr ⟨hgp.1, hgp.2, rfl⟩, rfl⟩
  split
  · exact absurd (.off (by simpa using ‹(!test s.cr0 cr0Pg) = true›)) (hn linear)
  dsimp only
  split
  · rename_i hit
    simp only [Bool.and_eq_true, beq_iff_eq] at hit
    split
    · exact absurd (.hit hit.1.1 hit.1.2 ‹_›) (hn _)
    · exact ⟨_, pageFault_refused s linear _ _, rfl⟩
  · split
    · split
      · exact ⟨_, pageFault_refused s linear _ _, rfl⟩
      · exact absurd (.walk ‹_› (by simpa using ‹¬(!s.accessAllowed _ _ _ _ _ _) = true›)) (hn _)
    · exact ⟨_, pageFault_refused s linear _ _, rfl⟩

section Refused

variable {s : Cpu} {linear : U64} {f : Fault}
  (ht : applyPagingAccess linear true s = (unbacked, s.raise f)) (hp : s.pendingException = none)

include ht

theorem refused_writeRmW {m : ModRm} (hm : m.isReg = false) (hl : s.modrmLinear m = linear)
    (w : Width) (v : U64) (hp : s.pendingException = none) : (writeRmW m w v s).2 = s.raise f := by
  have haddr : rmAddr m true s = (unbacked, s.raise f) := by
    rw [← ht, ← hl]
    rfl
  have hpend : ¬ s.pendingException.isSome = true := by simp [hp]
  unfold writeRmW
  rw [bind_run, get_run]
  dsimp only
  rw [if_neg hpend, hm, if_neg Bool.false_ne_true, bind_run, haddr]
  unfold writeRmAt
  rw [bind_run, get_run]
  dsimp only
  rw [if_pos (raise_pending s f)]
  rfl

theorem refused_pushW (hpe : s.pe = true) {w : Width}
    (hl : s.linearAddr .ss (s.pushTarget w.bytes) = linear) (v : U64) :
    (pushW w v s).2 = s.raise f := by
  have haddr : translateWrite .ss (s.pushTarget w.bytes) s = (unbacked, s.raise f) := by
    rw [← ht, ← hl]
    rfl
  unfold pushW
  rw [bind_run, get_run]
  dsimp only
  rw [if_pos hpe, bind_run, haddr]
  dsimp only
  rw [bind_run, get_run]
  dsimp only
  rw [if_pos (raise_pending s f)]
  rfl

theorem refused_movMemAcc {w : Width} {seg : SegReg} {off : U64}
    (hl : s.linearAddr seg off = linear) : (movMemAcc w seg off s).2 = s.raise f := by
  have haddr : translateWrite seg off s = (unbacked, s.raise f) := by
    rw [← ht, ← hl]
    rfl
  have hwrites : Writes [(linear, unbacked)] (memWriteW unbacked w ((s.raise f).regAt 0 w)) :=
    Writes.memWriteW (List.mem_singleton_self _) w _
  have hlost : ∀ m, memWriteW unbacked w ((s.raise f).regAt 0 w) m = m :=
    hwrites.lost fun x hx => by rw [List.mem_singleton.mp hx]
  unfold movMemAcc
  rw [bind_run, haddr]
  dsimp only
  rw [modify_run]
  show (s.raise f).modifyMem _ = s.raise f
  unfold Cpu.modifyMem
  rw [hlost]

theorem refused_writeSplit {phys lin : U64} {n : Nat}
    (hl : (lin &&& ~~~0xFFF) + 0x1000 = linear) (v : U128) :
    (writeSplit phys lin n v s).2 = s.raise f := by
  unfold writeSplit
  rw [bind_run, hl, ht]
  dsimp only
  rw [bind_run, get_run]
  dsimp only
  rw [if_pos (raise_pending s f)]
  rfl

end Refused

/-! ## Write protection -/

/-- In protected mode every byte of RAM that an instruction changes is an accessed or dirty bit of a
walk, the translation of a linear address a store is granted at under the control registers and
privilege level of the start, or past the end of a page such a store began in. A store refused
faults with the W bit set and writes nothing, on either page of an operand and on the stack. -/
theorem write_protected (inst : Inst) {s : Cpu} (hpe : s.pe = true) :
    (inst.storesChecked → Protected s (execute inst s).2 ∧
      ∀ i, (execute inst s).2.mem.data i ≠ s.mem.data i → s.MayChange i) ∧
    ∀ linear, (∀ p, ¬ s.Grants linear p) → s.pendingException = none →
      ∃ f, s.RefusedWith linear f ∧ applyPagingAccess linear true s = (unbacked, s.raise f) ∧
        (s.raise f).mem = s.mem ∧ (∀ g, Writes [(linear, unbacked)] g → ∀ mem, g mem = mem) ∧
        (∀ m w v, m.isReg = false → s.modrmLinear m = linear → (writeRmW m w v s).2 = s.raise f) ∧
        (∀ w v, s.linearAddr .ss (s.pushTarget w.bytes) = linear →
          (pushW w v s).2 = s.raise f) ∧
        (∀ w seg off, s.linearAddr seg off = linear → (movMemAcc w seg off s).2 = s.raise f) ∧
        ∀ phys lin n v, (lin &&& ~~~0xFFF) + 0x1000 = linear →
          (writeSplit phys lin n v s).2 = s.raise f := by
  refine ⟨fun hc => ?_, fun linear hn hp => ?_⟩
  · have hrun := ends_execute hc s hpe
    exact ⟨hrun, fun i hi => hrun.changes hi⟩
  · obtain ⟨f, hf, ht⟩ := refused_translation hn
    have hlost {g : Memory → Memory} (hg : Writes [(linear, unbacked)] g) : ∀ mem, g mem = mem :=
      hg.lost fun x hx => by rw [List.mem_singleton.mp hx]
    exact ⟨f, hf, ht, mem_raise s f, fun _ hg => hlost hg,
      fun _ w v hm hl => refused_writeRmW ht hm hl w v hp,
      fun _ v hl => refused_pushW ht hpe hl v, fun _ _ _ hl => refused_movMemAcc ht hl,
      fun _ _ _ v hl => refused_writeSplit ht hl v⟩

/-- Page 0 is writable in the TLB and nothing else is mapped. It names a VMCS region at 0x3000. -/
def stalePage : Cpu :=
  { Cpu.withRam 0x400000 (by decide) 0 with
    mem := { Memory.withSize 0x400000 (by decide) with
      data := fun i => if i = 1 then 0x30 else if 0x3000 ≤ i ∧ i < 0x4000 then 0xFF else 0 }
    pe := true, cr0 := 0x80010001, cr3 := 0x200000, regs := fun i => if i = 0 then 0xFFFF else 0
    vmx := { on := true }
    tlb := fun i => if i = 0 then
      { valid := true, vpage := 0, ppage := 0, writable := true, user := false, exec := true
        dirtied := true }
      else {} }

/-- A byte stored in that page may have changed. -/
theorem stalePage_store :
    (execute (.movMem8AccAddr32 0x10) stalePage).2.mem.data 0x10 = 0xFF ∧
      stalePage.MayChange 0x10 := by
  have hrun := (write_protected (.movMem8AccAddr32 0x10) (s := stalePage) rfl).1 rfl
  exact ⟨by decide +kernel, hrun.2 0x10 (by decide +kernel)⟩

theorem stalePage_directory {a : U64} (hlo : 0x200000 ≤ a.toNat) (hhi : a.toNat < 0x201000) :
    stalePage.mem.readU32 a = 0 := by
  have hslot : stalePage.mem.slot a = some a.toNat := if_pos (Nat.lt_trans hhi (by decide))
  have hfast : a.toNat + 3 < stalePage.mem.ramSize := by
    have hsize : stalePage.mem.ramSize = 0x400000 := rfl
    omega
  have hvga : ¬ (a + 3 < vgaTextBase + vgaTextSize ∧ a + 3 ≥ vgaTextBase) := by
    rintro ⟨h, -⟩
    have h3 : (a + 3).toNat = a.toNat + 3 := BitVec.toNat_add_of_lt (by simp; omega)
    have htop : (vgaTextBase + vgaTextSize).toNat = 0xC0000 := by decide
    have := BitVec.lt_def.mp h
    omega
  unfold Memory.readU32
  dsimp only
  rw [if_neg hvga, hslot]
  dsimp only
  rw [if_pos hfast]
  have hzero {k : Nat} (hk : 0x200000 ≤ k) : stalePage.mem.data k = 0 :=
    (if_neg (by omega)).trans (if_neg (by omega))
  rw [hzero hlo, hzero (by omega), hzero (by omega), hzero (by omega)]
  decide

theorem stalePage_walkOf (l : U64) : stalePage.walkOf l = none := by
  have hmode : stalePage.pagingMode = .legacy := by decide +kernel
  have hentry : stalePage.mem.readU32
      (((0x200000 : U64) &&& addrMask32) + u64 ((u32 l >>> 22) &&& 0x3FF) * 4) = 0 := by
    have hidx : (u64 ((u32 l >>> 22) &&& 0x3FF)).toNat < 0x400 := by
      rw [u64, BitVec.toNat_setWidth, BitVec.toNat_and]
      have hmask := Nat.and_le_right (n := (u32 l >>> 22).toNat) (m := (0x3FF : U32).toNat)
      have hnum : (0x3FF : U32).toNat = 0x3FF := rfl
      omega
    have haddr : (((0x200000 : U64) &&& addrMask32) + u64 ((u32 l >>> 22) &&& 0x3FF) * 4).toNat =
        0x200000 + (u64 ((u32 l >>> 22) &&& 0x3FF)).toNat * 4 := by
      have hbase : (0x200000 &&& addrMask32 : U64).toNat = 0x200000 := rfl
      have hfour : (4 : U64).toNat = 4 := rfl
      rw [BitVec.toNat_add, BitVec.toNat_mul, hbase, hfour]
      omega
    exact stalePage_directory (by omega) (by omega)
  show translateMode stalePage.mem 0x200000 l stalePage.pagingMode _ = none
  rw [hmode]
  show translateLegacy stalePage.mem 0x200000 (u32 l) = none
  unfold translateLegacy
  dsimp only
  rw [hentry]
  rfl

/-- No walk succeeds, and stores are granted in frame 0 only. -/
theorem stalePage_closed {i : Nat} (hi : 0x1000 ≤ i) :
    ¬ stalePage.Marks i ∧ ¬ stalePage.Stored i := by
  constructor
  · rintro ⟨l, map, hm, -⟩
    rw [stalePage_walkOf] at hm
    cases hm
  · rintro ⟨l, a, hg, hslot⟩
    cases hg with
    | off hoff => exact absurd hoff (by decide)
    | walk hm =>
      rw [stalePage_walkOf] at hm
      cases hm
    | hit hv hp =>
      have hzero : Cpu.tlbIndex l = 0 := by
        by_contra hne
        have hempty : stalePage.tlb (Cpu.tlbIndex l) = {} := if_neg hne
        rw [hempty] at hv
        cases hv
      have hframe : (stalePage.tlb (Cpu.tlbIndex l)).ppage = 0 := by
        rw [hzero]
        rfl
      have haddr : ((0 : U64) <<< 12 ||| l &&& 0xFFF) = l &&& 0xFFF := BitVec.zero_or
      have hoff := offset_toNat l
      have hbase : highRamBase = 0x100000000 := rfl
      rw [hframe, haddr, Memory.slot_eq_some_iff] at hslot
      omega

/-- VMCLEAR writes the launch state of a region that no linear address may store to, and a 16-bit
store at the last byte of a page lands its second byte in the next frame. Neither faults. -/
theorem stores_unprotected :
    stalePage.pe = true ∧ test stalePage.cr0 cr0Pg = true ∧
      ∀ x ∈ [(Inst.vmx ⟨.vmclear, atBxSi, 0⟩, 0x3100), (.movMem16AccAddr32 0xFFF, 0x1000)],
        (execute x.1 stalePage).2.mem.data x.2 ≠ stalePage.mem.data x.2 ∧
          (execute x.1 stalePage).2.pendingException = none ∧
          ¬ stalePage.Marks x.2 ∧ ¬ stalePage.Stored x.2 := by
  refine ⟨rfl, by decide, ?_⟩
  simp only [List.forall_mem_cons, List.not_mem_nil, false_implies, implies_true, and_true]
  exact ⟨⟨by decide +kernel, by decide +kernel, stalePage_closed (by decide)⟩,
    by decide +kernel, by decide +kernel, stalePage_closed (by decide)⟩

end X86Emu
