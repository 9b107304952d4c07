import X86Emu.FaultingDelivery
import X86Emu.SplitAccess
import X86Emu.MemoryMap

/-!
# Words on the stack

A push stores its word where the slot below the stack pointer translates to, and moves the pointer
down. Where memory stands behind the slot, the read of the top of the stack gives the word back.
-/
namespace X86Emu

open StateRules RadixWalk

/-! ## A word in memory -/

namespace Memory

variable {m m' : Memory} {p : U64} {w : Width} {v : U64}

theorem stackRead_eq (hw : w ≠ .w8) : stackRead m p w = memReadW m p w := by
  cases w <;> first | rfl | exact absurd rfl hw

theorem stackWrite_eq (hw : w ≠ .w8) : stackWrite p w v m = memWriteW p w v m := by
  cases w <;> first | rfl | exact absurd rfl hw

theorem stored_stackWrite (hw : w ≠ .w8) (h : ¬ OnSeam m.ramSize p w) :
    Stored m (stackWrite p w v m) p w.bytes (byteOf v) := by
  rw [stackWrite_eq hw]
  exact (bytewise m hw h).write v

/-- Memory stands behind every byte of the word at `p`, and no seam splits it. -/
structure TakesWord (m : Memory) (p : U64) (w : Width) : Prop where
  whole : ¬ OnSeam m.ramSize p w
  backed : ∀ k < w.bytes, m.backed (p + BitVec.ofNat 64 k)

/-- The bytes of a word stored. -/
theorem Stored.byteAt (h : Stored m m' p w.bytes (byteOf v)) {k : Nat} (hk : k < w.bytes)
    (hb : m.backed (p + BitVec.ofNat 64 k)) :
    m'.readU8 (p + BitVec.ofNat 64 k) = byteOf v k := by
  have hle := Width.bytes_le_word w
  have hsub : (p + BitVec.ofNat 64 k - p).toNat = k := by
    rw [BitVec.add_comm, BitVec.add_sub_cancel, BitVec.toNat_ofNat]
    omega
  rw [h.byte, hsub, if_pos ⟨hk, hb⟩]

end Memory

/-! ## Where a push stores -/

namespace Cpu

variable {s t : Cpu} {l p q : U64} {w : Width} {v : U64} {write : Bool}

/-- The TLB has the page of `l`, at the frame that puts `l` at `p`. -/
structure Serves (tlb : Fin 256 → TlbEntry) (l p : U64) : Prop where
  valid : (tlb (tlbIndex l)).valid = true
  page : (tlb (tlbIndex l)).vpage = l >>> 12
  frame : (tlb (tlbIndex l)).ppage <<< 12 ||| l &&& 0xFFF = p

/-- After an access the TLB serves it. -/
theorem serves_access (hpg : test s.cr0 cr0Pg = true) (h : s.target write l = some p) :
    s.noTlb = true ∨ Serves (applyPagingAccess l write s).2.tlb l p := by
  have hp : p = p >>> 12 <<< 12 ||| l &&& 0xFFF :=
    Option.some.inj (h.symm.trans (target_samePage rfl h))
  unfold target at h
  unfold applyPagingAccess applyPagingInner
  split at h
  · cases h
  rename_i hc
  rw [if_neg hc]
  rw [if_neg (by rw [hpg]; decide)] at h ⊢
  dsimp only
  split at h
  · rename_i hhit
    unfold TlbHit at hhit
    rw [if_pos hhit]
    dsimp only at h
    split at h
    · rename_i hallowed
      have hframe := Option.some.inj h
      rw [Bool.and_eq_true, Bool.and_eq_true, beq_iff_eq] at hhit
      obtain ⟨⟨hvalid, hpage⟩, -⟩ := hhit
      rw [if_pos hallowed]
      refine .inr ?_
      by_cases hd : (write && !(s.tlb (tlbIndex l)).dirtied) = true
      · rw [if_pos hd]
        have hset (u : Cpu) : (u.setTlb (tlbIndex l)
            { s.tlb (tlbIndex l) with dirtied := true }).tlb (tlbIndex l) =
              { s.tlb (tlbIndex l) with dirtied := true } := if_pos rfl
        exact ⟨by rw [hset]; exact hvalid, by rw [hset]; exact hpage, by rw [hset]; exact hframe⟩
      · rw [if_neg hd]
        exact ⟨hvalid, hpage, hframe⟩
    · cases h
  · rename_i hmiss
    unfold TlbHit at hmiss
    rw [if_neg hmiss]
    split at h
    · cases h
    · rename_i map hmap
      split at h
      · rename_i hallowed
        obtain rfl := Option.some.inj h
        rw [hmap]
        dsimp only
        rw [if_neg (by rw [hallowed]; decide)]
        have hset (e : TlbEntry) :
            ((s.setTlb (tlbIndex l) e).setAccessedBits map write).tlb (tlbIndex l) = e := if_pos rfl
        exact .inr ⟨by rw [hset], by rw [hset], by rw [hset]; exact hp.symm⟩
      · cases h

/-- A read that follows an access is served as it was, and changes nothing. -/
theorem access_again (h : s.target write l = some p)
    (htlb : t.tlb = (applyPagingAccess l write s).2.tlb) (hcr0 : t.cr0 = s.cr0)
    (hno : t.noTlb = s.noTlb) (htlbs : s.noTlb = false) (h' : t.target false l = some q) :
    q = p ∧ applyPagingAccess l false t = (q, t) := by
  unfold applyPagingAccess applyPagingInner
  unfold target at h'
  split at h'
  · cases h'
  rename_i hc
  rw [if_neg hc]
  cases hpg : test s.cr0 cr0Pg with
  | false =>
    have hunpaged : (!test t.cr0 cr0Pg) = true := by rw [hcr0, hpg]; rfl
    rw [if_pos hunpaged] at h' ⊢
    obtain rfl := Option.some.inj h'
    unfold target at h
    rw [hpg] at h
    split at h
    · cases h
    · exact ⟨Option.some.inj h, rfl⟩
  | true =>
    have hserves := (serves_access hpg h).resolve_left (by rw [htlbs]; decide)
    rw [← htlb] at hserves
    have hpaged : ¬ (!test t.cr0 cr0Pg) = true := by rw [hcr0, hpg]; decide
    have hhit : ((t.tlb (tlbIndex l)).valid && (t.tlb (tlbIndex l)).vpage == l >>> 12 &&
        !t.noTlb) = true := by
      rw [hserves.valid, hserves.page, hno, htlbs]
      simp
    have hhit' : t.TlbHit l := hhit
    rw [if_neg hpaged] at h' ⊢
    rw [if_pos hhit'] at h'
    dsimp only at h' ⊢
    rw [if_pos hhit]
    split at h'
    · rename_i hallowed
      obtain rfl := Option.some.inj h'
      rw [if_pos hallowed]
      exact ⟨hserves.frame, rfl⟩
    · cases h'

/-- The linear address of the slot the next push goes to. -/
def slotLinear (w : Width) (s : Cpu) : U64 := s.linearAddr .ss (s.pushTarget w.bytes)

/-- A push that leaves no fault has stored its word where the slot translates to. -/
theorem pushW_stored (hpe : s.pe = true) (h : (pushW w v s).2.pendingException = none) :
    s.pendingException = none ∧ ∃ p mem, s.target true (s.slotLinear w) = some p ∧
      s.Touched (s.slotLinear w) (pushW w v s).2.tlb mem ∧
      (pushW w v s).2.tlb = (applyPagingAccess (s.slotLinear w) true s).2.tlb ∧
      (pushW w v s).2.mem = stackWrite p w v mem := by
  have haddr : s.pushAddr w = applyPagingAccess (s.slotLinear w) true s := rfl
  have hset (u : Cpu) (x : U64) (f : Memory → Memory) :
      ((u.setStackPointer x).modifyMem f).pendingException = u.pendingException ∧
        ((u.setStackPointer x).modifyMem f).tlb = u.tlb ∧
        ((u.setStackPointer x).modifyMem f).mem = f u.mem := by
    unfold setStackPointer
    split <;> exact ⟨rfl, rfl, rfl⟩
  rw [pushW_run v hpe] at h ⊢
  by_cases hf : (s.pushAddr w).2.pendingException.isSome = true
  · rw [if_pos hf] at h
    rw [show (s.pushAddr w).2.pendingException = none from h] at hf
    cases hf
  rw [if_neg hf] at h ⊢
  obtain ⟨hpend, htlb, hmem⟩ := hset (s.pushAddr w).2 (s.pushTarget w.bytes)
    (stackWrite (s.pushAddr w).1 w v)
  have hnone : (s.pushAddr w).2.pendingException = none := hpend.symm.trans h
  dsimp only
  rw [htlb, hmem]
  cases hp : s.target true (s.slotLinear w) with
  | none =>
    obtain ⟨f, hrun, -⟩ := access_refused hp
    rw [haddr, hrun] at hf
    refine absurd ?_ hf
    show (s.raise f).pendingException.isSome = true
    unfold raise
    split
    · assumption
    · rfl
  | some p =>
    obtain ⟨tlb, mem, hrun, ht⟩ := access_granted hp
    rw [haddr, hrun] at hnone ⊢
    exact ⟨hnone, p, mem, rfl, ht, rfl, rfl⟩

end Cpu

/-! ## Words pushed one after another -/

namespace Cpu

variable {s t u : Cpu} {w : Width} {v : U64} {vs : List U64}

/-- A word has been pushed: its bytes are stored where each one's own address translates to, the
stack pointer is a slot down, and of the rest only the marks of the walk and the TLB moved. -/
structure WordPushed (w : Width) (v : U64) (s t : Cpu) : Prop where
  only : PushOnly s t
  stored : ∃ phys mem, s.Translates true (s.slotLinear w) w.bytes phys ∧
    s.OnlyMarks (s.slotLinear w) w.bytes mem ∧ StoredEach mem t.mem w.bytes phys (byteOf v)
  tlb : t.tlb = (applyPagingAccess (s.slotLinear w) true s).2.tlb
  rsp : t.rsp = if s.long64 then s.rsp - BitVec.ofNat 64 w.bytes
    else u64 (s.esp - BitVec.ofNat 32 w.bytes)
  others : ∀ i, i ≠ 4 → t.regs i = s.regs i

/-- The words have been pushed, the first one highest. -/
inductive FramePushed (w : Width) : List U64 → Cpu → Cpu → Prop
  | nil (s : Cpu) : FramePushed w [] s s
  | cons {v : U64} {vs : List U64} {s t u : Cpu} (h : WordPushed w v s t)
      (hs : FramePushed w vs t u) : FramePushed w (v :: vs) s u

/-- The next slot lies within a page and splits no cell of the text window. -/
def SlotWhole (w : Width) (s : Cpu) : Prop :=
  ∀ p, s.target true (s.slotLinear w) = some p →
    ¬ straddles p w.bytes = true ∧ ¬ Memory.WindowSeam p.toNat w.wide

/-- So do the slots of all the words. -/
def SlotsWhole (w : Width) : List U64 → Cpu → Prop
  | [], _ => True
  | v :: vs, s => SlotWhole w s ∧ SlotsWhole w vs (pushW w v s).2

theorem wordPushed_pushW (hw : w ≠ .w8) (hpe : s.pe = true) (hslot : s.SlotWhole w)
    (h : (pushW w v s).2.pendingException = none) : WordPushed w v s (pushW w v s).2 := by
  obtain ⟨hclear, p, mem, hp, ht, htlb, hmem⟩ := pushW_stored hpe h
  obtain ⟨hin, hcells⟩ := hslot p hp
  have hl : s.Unwrapped true (s.slotLinear w) w.bytes := by
    refine ⟨by cases w <;> decide, by cases w <;> decide, ?_⟩
    refine (linearAddr_low s .ss (s.pushTarget w.bytes)).imp_right fun hlt => .inl ?_
    have hoff := target_offset hp
    have hin' := hin
    rw [straddles, decide_eq_true_iff, offset_toNat, hoff] at hin'
    have hlt' : (s.slotLinear w).toNat < 2 ^ 32 := hlt
    omega
  have hstored : Memory.Stored mem (stackWrite p w v mem) p w.bytes (byteOf v) :=
    Memory.stored_stackWrite hw (Memory.not_onSeam hw hin hcells _)
  obtain ⟨phys, hT⟩ : ∃ phys, s.Translates true (s.slotLinear w) w.bytes phys := by
    refine ⟨fun i => p + BitVec.ofNat 64 i, fun i hi => ?_⟩
    rw [translation_eq hclear, target_byteLinear hclear hl hi]
    refine target_add hp ?_
    rw [straddles, decide_eq_true_iff, offset_toNat, target_offset hp] at hin
    omega
  obtain ⟨-, mem', hmarks, heach⟩ := (writes_within hclear ht hl hp hin hstored).served phys hT
  have hregs := pushW_regs v hpe h
  refine
    { only := pushOnly_pushW v hpe
      stored := ⟨phys, mem', hT, hmarks, ?_⟩
      tlb := htlb
      rsp := ?_
      others := fun i hi => ?_ }
  · rw [hmem]
    exact heach
  · show (pushW w v s).2.regs 4 = _
    rw [hregs]
    unfold dropSlot setStackPointer pushTarget
    split
    · rfl
    · exact congrArg u64 (u32_u64 _)
  · rw [hregs]
    unfold dropSlot setStackPointer
    split
    · exact if_neg hi
    · exact if_neg hi

/-- A frame no slot of which faults is pushed word by word. -/
theorem framePushed_pushAll (hw : w ≠ .w8) :
    ∀ (vs : List U64) (s : Cpu), s.pe = true → firstFault w vs s = none → SlotsWhole w vs s →
      FramePushed w vs s (pushAll w vs s).2
  | [], s, _, _, _ => .nil s
  | v :: vs, s, hpe, hfault, hslots => by
    have hpe' : (pushW w v s).2.pe = true := by
      rw [pushOnly_pushW v hpe]
      exact hpe
    cases hq : (pushW w v s).2.pendingException with
    | some q => simp [firstFault, hq] at hfault
    | none =>
      simp only [firstFault, hq, Option.map_eq_none_iff] at hfault
      exact .cons (wordPushed_pushW hw hpe hslots.1 hq)
        (framePushed_pushAll hw vs _ hpe' hfault hslots.2)

/-- Slots of 64 bits from an aligned stack pointer split nothing. -/
theorem slotsWhole_aligned :
    ∀ (vs : List U64) (s : Cpu), s.pe = true → s.long64 = true → s.rsp.toNat % 8 = 0 →
      SlotsWhole .w64 vs s
  | [], _, _, _, _ => trivial
  | v :: vs, s, hpe, hlong, hrsp => by
    have htarget : s.slotLinear .w64 = s.rsp - 8 := by
      unfold slotLinear linearAddr pushTarget
      rw [if_pos hlong, if_pos hlong]
      rfl
    have hlt := s.rsp.isLt
    have haligned : (s.rsp - 8).toNat % 8 = 0 := by
      rw [BitVec.toNat_sub, show ((8 : U64)).toNat = 8 from rfl]
      omega
    refine ⟨fun p hp => ?_, ?_⟩
    · have hoff := target_offset hp
      rw [htarget] at hoff
      rw [straddles, decide_eq_true_iff, offset_toNat, show Width.w64.bytes = 8 from rfl]
      refine ⟨by omega, ?_⟩
      show ¬ ((p.toNat % 2 = 1 ∧ 0xB8000 ≤ p.toNat + 7 ∧ p.toNat < 0xC0000) ∨
        p.toNat + 6 = 0xC0000 ∨ p.toNat + 2 = 0xC0000)
      omega
    · have honly := pushOnly_pushW (w := .w64) v hpe
      have hpe' : (pushW .w64 v s).2.pe = true := by
        rw [honly]
        exact hpe
      have hlong' : (pushW .w64 v s).2.long64 = true := by
        rw [honly]
        exact hlong
      refine slotsWhole_aligned vs _ hpe' hlong' ?_
      cases hq : (pushW .w64 v s).2.pendingException with
      | some q =>
        have hregs := pushW_regs_faulted v hpe (by rw [hq]; rfl)
        show ((pushW .w64 v s).2.regs 4).toNat % 8 = 0
        rw [hregs]
        exact hrsp
      | none =>
        have hregs := pushW_regs v hpe hq
        have hdrop : ((s.dropSlot .w64).regs 4) = s.rsp - 8 := by
          unfold dropSlot setStackPointer pushTarget
          rw [if_pos hlong, if_pos hlong]
          rfl
        show ((pushW .w64 v s).2.regs 4).toNat % 8 = 0
        rw [hregs, hdrop]
        exact haligned

end Cpu

/-! ## The top of the stack -/

namespace Memory

variable {m : Memory} {p : U64} {w : Width} {v x : U64}

theorem getLsbD_mask {w : Width} (hw : w ≠ .w8) {i : Nat} (hi : i < 64) :
    w.mask.getLsbD i = decide (i < 8 * w.bytes) := by
  have hones {n : Nat} (hn : n ≤ 64) :
      ((BitVec.allOnes n).setWidth 64 : U64).getLsbD i = decide (i < n) := by
    simp [hi]
  cases w with
  | w8 => exact absurd rfl hw
  | w16 => exact hones (n := 16) (by decide)
  | w32 => exact hones (n := 32) (by decide)
  | w64 => exact hones (n := 64) (by decide)

/-- Words with the same bytes are the same at a width. -/
theorem mask_congr (hw : w ≠ .w8) (h : ∀ k < w.bytes, byteOf x k = byteOf v k) :
    x &&& w.mask = v &&& w.mask := by
  refine BitVec.eq_of_getLsbD_eq fun i hi => ?_
  rw [BitVec.getLsbD_and, BitVec.getLsbD_and, getLsbD_mask hw hi]
  by_cases hlt : i < 8 * w.bytes
  · rw [getLsbD_of_byte x, getLsbD_of_byte v, h (i / 8) (by omega)]
  · rw [decide_eq_false hlt, Bool.and_false, Bool.and_false]

/-- The word read where its bytes are. -/
theorem stackRead_word (hw : w ≠ .w8) (h : TakesWord m p w)
    (hbytes : ∀ k < w.bytes, m.readU8 (p + BitVec.ofNat 64 k) = byteOf v k) :
    stackRead m p w &&& w.mask = v &&& w.mask := by
  rw [stackRead_eq hw]
  exact mask_congr hw fun k hk => ((bytewise m hw h.whole).read k hk).trans (hbytes k hk)

end Memory

namespace Cpu

variable {s t : Cpu} {p : U64} {w : Width} {v : U64}

/-- The physical address the next push stores its word at. -/
def slotPlace (w : Width) (s : Cpu) : Option U64 :=
  if s.pe then s.target true (s.slotLinear w)
  else some (Memory.phys s.ss (s.sp - BitVec.ofNat 16 w.bytes))

/-- The physical address the top of the stack is read at. -/
def topPlace (s : Cpu) : Option U64 :=
  if s.pe then s.target false (s.linearAddr .ss s.stackPointer)
  else some (Memory.phys s.ss s.sp)

/-- What the stack is read through. -/
structure SameStack (s t : Cpu) : Prop where
  mem : t.mem = s.mem
  regs : t.regs = s.regs
  tlb : t.tlb = s.tlb
  pe : t.pe = s.pe
  cr0 : t.cr0 = s.cr0
  noTlb : t.noTlb = s.noTlb
  ss : t.ss = s.ss
  desc : t.segDesc .ss = s.segDesc .ss

theorem slot_touched {l : U64} {tlb : Fin 256 → TlbEntry} {mem : Memory}
    (h : s.Touched l tlb mem) (b : U64) : mem.slot b = s.mem.slot b := by
  cases hpg : test s.cr0 cr0Pg with
  | false => rw [h.unpaged hpg]
  | true =>
    obtain ⟨walk, write, -, hmark⟩ := h.marked hpg
    exact hmark.slot b

theorem takesWord_slots {m m' : Memory} (hslot : ∀ b, m'.slot b = m.slot b)
    (h : m.TakesWord p w) : m'.TakesWord p w where
  whole := by
    rw [Memory.ramSize_congr hslot]
    exact h.whole
  backed k hk := (Memory.backed_congr (hslot _)).mpr (h.backed k hk)

/-- A word stored where memory takes it can be read there. -/
theorem takesWord_written (hw : w ≠ .w8) {m : Memory} (h : m.TakesWord p w) :
    (stackWrite p w v m).TakesWord p w ∧
      ∀ k < w.bytes, (stackWrite p w v m).readU8 (p + BitVec.ofNat 64 k) = byteOf v k := by
  have hstored := Memory.stored_stackWrite (v := v) hw h.whole
  exact ⟨takesWord_slots hstored.slot h, fun k hk => hstored.byteAt hk (h.backed k hk)⟩

theorem stackPointer_pushW (hpe : s.pe = true) (h : (pushW w v s).2.pendingException = none)
    (ht : SameStack (pushW w v s).2 t) (hlong : t.long64 = s.long64) :
    t.stackPointer = s.pushTarget w.bytes := by
  unfold stackPointer rsp esp
  rw [hlong, ht.regs, pushW_regs v hpe h]
  unfold dropSlot setStackPointer pushTarget
  split
  · rfl
  · show u64 (u32 (u64 (u32 (u64 (s.esp - BitVec.ofNat 32 w.bytes))))) = _
    rw [u32_u64, u32_u64]

/-- The top of the stack after a push is its slot. -/
theorem linear_top (hpe : s.pe = true) (h : (pushW w v s).2.pendingException = none)
    (ht : SameStack (pushW w v s).2 t) (hlong : t.long64 = s.long64) :
    t.linearAddr .ss t.stackPointer = s.slotLinear w := by
  have honly := pushOnly_pushW (w := w) v hpe
  have hdesc : t.segDesc .ss = s.segDesc .ss := by
    rw [ht.desc, honly]
    rfl
  have htpe : t.pe = true := by
    rw [ht.pe, honly]
    exact hpe
  unfold slotLinear linearAddr
  rw [stackPointer_pushW hpe h ht hlong, hlong, htpe, hpe, hdesc]
  rfl

theorem sp_setSp (s : Cpu) (v : U16) : (s.setSp v).sp = v := by
  change u16 (s.regs 4 &&& ~~~(0xFFFF : U64) ||| u64 v &&& 0xFFFF) = v
  ext i hi
  interval_cases i <;> simp

/-- A push of real mode. -/
theorem real_pushW (w : Width) (v : U64) (hpe : s.pe = false) (ht : SameStack (pushW w v s).2 t) :
    ¬ t.pe = true ∧ t.sp = s.sp - BitVec.ofNat 16 w.bytes ∧ t.ss = s.ss ∧
      t.mem = stackWrite (Memory.phys s.ss (s.sp - BitVec.ofNat 16 w.bytes)) w v s.mem := by
  have hreal : ¬ s.pe = true := by rw [hpe]; decide
  have hrun : (pushW w v s).2 = (s.setSp (s.sp - BitVec.ofNat 16 w.bytes)).modifyMem
      (stackWrite (Memory.phys s.ss (s.setSp (s.sp - BitVec.ofNat 16 w.bytes)).sp) w v) := by
    unfold pushW
    rw [bind_run, get_run]
    dsimp only
    rw [if_neg hreal]
    rfl
  have hsp : (s.setSp (s.sp - BitVec.ofNat 16 w.bytes)).sp = s.sp - BitVec.ofNat 16 w.bytes :=
    sp_setSp s _
  rw [hsp] at hrun
  refine ⟨?_, ?_, ?_, ?_⟩
  · rw [ht.pe, hrun]
    exact hreal
  · rw [← hsp]
    unfold sp
    rw [ht.regs, hrun]
    rfl
  · rw [ht.ss, hrun]
    rfl
  · rw [ht.mem, hrun]
    rfl

/-- After a push the word is on top, and reading it marks nothing. -/
theorem word_on_top (hw : w ≠ .w8) (h : (pushW w v s).2.pendingException = none)
    (hheld : ∀ p, s.slotPlace w = some p → s.mem.TakesWord p w)
    (ht : SameStack (pushW w v s).2 t) (hlong : t.long64 = s.long64) (htlb : s.noTlb = false)
    (hp : t.topPlace = some p) :
    t.mem.TakesWord p w ∧ (∀ k < w.bytes, t.mem.readU8 (p + BitVec.ofNat 64 k) = byteOf v k) ∧
      (t.pe = true →
        applyPagingAccess (t.linearAddr .ss t.stackPointer) false t = (p, t)) := by
  cases hpe : s.pe with
  | true =>
    have honly := pushOnly_pushW (w := w) v hpe
    have htpe : t.pe = true := by
      rw [ht.pe, honly]
      exact hpe
    obtain ⟨-, q, mem, hq, htouched, htlb', hmem⟩ := pushW_stored hpe h
    have hlin := linear_top hpe h ht hlong
    have htop : t.target false (s.slotLinear w) = some p := by
      unfold topPlace at hp
      rwa [if_pos htpe, hlin] at hp
    have hagain := access_again hq (ht.tlb.trans htlb')
      (by rw [ht.cr0, honly]; rfl) (by rw [ht.noTlb, honly]; rfl) htlb htop
    obtain ⟨rfl, hrun⟩ := hagain
    have htakes := hheld p (by rw [slotPlace, if_pos hpe, hq])
    have hwritten := takesWord_written (v := v) hw
      (takesWord_slots (slot_touched htouched) htakes)
    rw [ht.mem, hmem, hlin]
    exact ⟨hwritten.1, hwritten.2, fun _ => hrun⟩
  | false =>
    obtain ⟨htpe, htsp, htss, hmem⟩ := real_pushW w v hpe ht
    unfold topPlace at hp
    rw [if_neg htpe, htsp, htss, Option.some.injEq] at hp
    subst hp
    have htakes := hheld _ (by rw [slotPlace, if_neg (by rw [hpe]; decide)])
    have hwritten := takesWord_written (v := v) hw htakes
    rw [hmem]
    exact ⟨hwritten.1, hwritten.2, fun hpe => absurd hpe htpe⟩

/-- What a pop gives, if it does not fault. -/
theorem popW_top (h : (popW w t).2.pendingException = none) :
    ∃ p, t.topPlace = some p ∧
      ((t.pe = true → applyPagingAccess (t.linearAddr .ss t.stackPointer) false t = (p, t)) →
        (popW w t).1 = stackRead t.mem p w) := by
  unfold popW at h ⊢
  rw [bind_run, get_run] at h ⊢
  unfold topPlace
  cases hpe : t.pe with
  | false =>
    refine ⟨_, rfl, fun _ => rfl⟩
  | true =>
    have htrans : translate .ss t.stackPointer t =
        applyPagingAccess (t.linearAddr .ss t.stackPointer) false t := rfl
    dsimp only at h ⊢
    rw [hpe, if_pos rfl, bind_run, htrans, bind_run, get_run, ite_run] at h
    rw [if_pos rfl, if_pos rfl, bind_run, htrans, bind_run, get_run, ite_run]
    cases hp : t.target false (t.linearAddr .ss t.stackPointer) with
    | none =>
      obtain ⟨f, hrun, -⟩ := access_refused hp
      rw [hrun] at h
      have hsome : (t.raise f).pendingException.isSome = true := by
        unfold raise
        split
        · assumption
        · rfl
      dsimp only at h
      rw [if_pos hsome] at h
      rw [show (t.raise f).pendingException = none from h] at hsome
      cases hsome
    | some p =>
      refine ⟨p, rfl, fun hrun => ?_⟩
      rw [hrun rfl] at h ⊢
      dsimp only at h ⊢
      by_cases hf : t.pendingException.isSome = true
      · rw [if_pos hf] at h
        rw [show t.pendingException = none from h] at hf
        cases hf
      · rw [if_neg hf]
        rfl

end Cpu
end X86Emu
