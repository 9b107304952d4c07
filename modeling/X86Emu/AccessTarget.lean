import X86Emu.LinearBytes

/-!
# The translation of an access

An access is granted a physical address, by the TLB's entry for its page or else by the walk, or it
raises an exception. Either leaves the translations of other pages as they are.
-/
namespace X86Emu

open StateRules RadixWalk

namespace Cpu

variable {s : Cpu} {l l' p : U64} {write : Bool} {tlb : Fin 256 → TlbEntry} {mem : Memory}

/-! ## One translation -/

/-- What an address translates to on its own, if the access is granted. -/
def translation (s : Cpu) (write : Bool) (l : U64) : Option U64 :=
  let (p, t) := applyPagingAccess l write s
  if t.pendingException.isSome then none else some p

/-- The physical address that the TLB, or else the walk, grants an access. -/
def target (s : Cpu) (write : Bool) (l : U64) : Option U64 :=
  if s.longMode && !X86Emu.canonical l then none
  else if !test s.cr0 cr0Pg then some l
  else if s.TlbHit l then
    let e := s.tlb (tlbIndex l)
    if s.accessAllowed e.writable e.user e.exec write (s.cpl == 3) false then
      some (e.ppage <<< 12 ||| l &&& 0xFFF)
    else none
  else
    match s.walkOf l with
    | none => none
    | some map =>
      if s.accessAllowed map.writable map.user map.exec write (s.cpl == 3) false then some map.phys
      else none

/-- An access that is not granted raises #GP, or a page fault at its address. -/
def Refusal (l : U64) (f : Fault) : Prop := f.vector = 0x0D ∨ f.vector = 0x0E ∧ f.cr2 = l

theorem access_refused (h : s.target write l = none) :
    ∃ f, applyPagingAccess l write s = (unbacked, s.raise f) ∧ Refusal l f := by
  unfold target at h
  unfold applyPagingAccess applyPagingInner
  split at h
  · rename_i hc
    rw [if_pos hc]
    exact ⟨_, rfl, .inl rfl⟩
  rename_i hc
  rw [if_neg hc]
  split at h
  · cases h
  rename_i hpg
  rw [if_neg hpg]
  dsimp only
  split at h
  · rename_i hhit
    unfold TlbHit at hhit
    rw [if_pos hhit]
    dsimp only at h
    split at h
    · cases h
    · rename_i hno
      rw [if_neg hno]
      exact ⟨_, rfl, .inr ⟨rfl, rfl⟩⟩
  · rename_i hmiss
    unfold TlbHit at hmiss
    rw [if_neg hmiss]
    cases hmap : s.walkOf l with
    | none => exact ⟨_, rfl, .inr ⟨rfl, rfl⟩⟩
    | some map =>
      rw [hmap] at h
      dsimp only at h ⊢
      split at h
      · cases h
      · rename_i hno
        rw [if_pos (by simpa using hno)]
        exact ⟨_, rfl, .inr ⟨rfl, rfl⟩⟩

/-- What a granted access may change: the TLB's entry for the page and the marks of its walk. -/
structure Touched (s : Cpu) (l : U64) (tlb : Fin 256 → TlbEntry) (mem : Memory) : Prop where
  others : ∀ i, i ≠ tlbIndex l → tlb i = s.tlb i
  unpaged : test s.cr0 cr0Pg = false → mem = s.mem
  marked : test s.cr0 cr0Pg = true → ∃ walk write,
    (∀ a ∈ walk, ∃ v ∈ s.walkPath l, v.addr = a) ∧ s.mem.Marked mem (marks walk write)

theorem touched_self (s : Cpu) (l : U64) : s.Touched l s.tlb s.mem where
  others _ _ := rfl
  unpaged _ := rfl
  marked _ := ⟨[], false, fun _ ha => absurd ha List.not_mem_nil, marked_none s.mem⟩

theorem touched_set (hpg : test s.cr0 cr0Pg = true) {map : Mapping} (hmap : s.walkOf l = some map)
    (write : Bool) (e : TlbEntry) :
    s.Touched l (s.setTlb (tlbIndex l) e).tlb (markWalk map.entryBytes write map.walk s.mem) where
  others i hi := if_neg hi
  unpaged hoff := absurd (hpg.symm.trans hoff) (by decide)
  marked _ := marked_walk hpg hmap write

theorem access_granted (h : s.target write l = some p) :
    ∃ tlb mem, applyPagingAccess l write s = (p, s.withTables tlb mem) ∧ s.Touched l tlb mem := by
  unfold target at h
  unfold applyPagingAccess applyPagingInner
  split at h
  · cases h
  rename_i hc
  rw [if_neg hc]
  split at h
  · rename_i hpg
    rw [if_pos hpg]
    obtain rfl := Option.some.inj h
    exact ⟨s.tlb, s.mem, rfl, touched_self s l⟩
  rename_i hpg
  rw [if_neg hpg]
  replace hpg : test s.cr0 cr0Pg = true := by simpa using hpg
  dsimp only
  split at h
  · rename_i hhit
    unfold TlbHit at hhit
    rw [if_pos hhit]
    dsimp only at h
    split at h
    · rename_i hallowed
      obtain rfl := Option.some.inj h
      rw [if_pos hallowed]
      by_cases hd : (write && !(s.tlb (tlbIndex l)).dirtied) = true
      · rw [if_pos hd]
        unfold markAccessed
        cases hmap : s.walkOf l with
        | none =>
          refine ⟨_, s.mem, rfl, fun i hi => if_neg hi, fun _ => rfl, fun _ => ?_⟩
          exact (touched_self s l).marked hpg
        | some map => exact ⟨_, _, rfl, touched_set hpg hmap true _⟩
      · rw [if_neg hd]
        exact ⟨s.tlb, s.mem, rfl, touched_self s l⟩
    · cases h
  · rename_i hmiss
    unfold TlbHit at hmiss
    rw [if_neg hmiss]
    split at h
    · cases h
    · rename_i map hmap
      split at h
      · rename_i hallowed
        obtain rfl := Option.some.inj h
        rw [hmap]
        dsimp only
        rw [if_neg (by rw [hallowed]; decide)]
        exact ⟨_, _, rfl, touched_set hpg hmap write _⟩
      · cases h

theorem translation_eq (hclear : s.pendingException = none) :
    s.translation write l = s.target write l := by
  unfold translation
  cases h : s.target write l with
  | none =>
    obtain ⟨f, hrun, -⟩ := access_refused h
    rw [hrun]
    dsimp only
    rw [raise, hclear]
    rfl
  | some p =>
    obtain ⟨tlb, mem, hrun, -⟩ := access_granted h
    rw [hrun]
    dsimp only
    rw [show (s.withTables tlb mem).pendingException = none from hclear]
    rfl

/-- An access leaves the translations of other pages as they are. -/
theorem target_touched (h : s.Touched l tlb mem) (hidx : tlbIndex l' ≠ tlbIndex l) :
    (s.withTables tlb mem).target write l' = s.target write l' := by
  have hentry : (s.withTables tlb mem).tlb (tlbIndex l') = s.tlb (tlbIndex l') := h.others _ hidx
  have hwalk (hpg : test s.cr0 cr0Pg = true) :
      (s.withTables tlb mem).walkOf l' = s.walkOf l' := by
    obtain ⟨walk, write, hpath, hmark⟩ := h.marked hpg
    exact walkOf_marked hpg (isEntry_walkPath hpg hpath) hmark l'
  have hhit : (s.withTables tlb mem).TlbHit l' ↔ s.TlbHit l' := by
    unfold TlbHit
    rw [hentry]
    rfl
  unfold target
  rw [show (s.withTables tlb mem).longMode = s.longMode from rfl,
    show (s.withTables tlb mem).cr0 = s.cr0 from rfl,
    show (s.withTables tlb mem).cpl = s.cpl from rfl,
    show (s.withTables tlb mem).accessAllowed = s.accessAllowed from rfl]
  split
  · rfl
  split
  · rfl
  rename_i hpg
  rw [hentry, hwalk (by simpa using hpg), if_congr hhit rfl rfl]

theorem frame_shift (q l : U64) : (q <<< 12 ||| l &&& 0xFFF) >>> 12 <<< 12 = q <<< 12 := by
  apply BitVec.eq_of_getLsbD_eq
  intro i hi
  by_cases h12 : i < 12
  · simp [h12]
  · have hadd : 12 + (i - 12) = i := by omega
    simp only [BitVec.getLsbD_shiftLeft, BitVec.getLsbD_ushiftRight, BitVec.getLsbD_or,
      BitVec.getLsbD_and, getLsbD_offset, hadd, hi]
    simp [h12]

/-- A page has one frame. -/
theorem target_samePage (hl : l' >>> 12 = l >>> 12) (h : s.target write l = some p) :
    s.target write l' = some (p >>> 12 <<< 12 ||| l' &&& 0xFFF) := by
  unfold target at h ⊢
  rw [canonical_samePage hl, tlbIndex_samePage hl]
  split at h
  · cases h
  rename_i hc
  rw [if_neg hc]
  split at h
  · rename_i hpg
    rw [if_pos hpg]
    obtain rfl := Option.some.inj h
    rw [← hl]
    exact congrArg some (onPage_self rfl).symm
  rename_i hpg
  rw [if_neg hpg]
  by_cases hhit : s.TlbHit l
  · rw [if_pos hhit] at h
    rw [if_pos ((tlbHit_samePage hl).mpr hhit)]
    dsimp only at h ⊢
    split at h
    · rename_i hallowed
      obtain rfl := Option.some.inj h
      rw [if_pos hallowed, frame_shift]
    · cases h
  · rw [if_neg hhit] at h
    rw [if_neg ((tlbHit_samePage hl).not.mpr hhit), walkOf_samePage (by simpa using hpg) hl]
    cases hmap : s.walkOf l with
    | none =>
      rw [hmap] at h
      cases h
    | some map =>
      rw [hmap] at h
      dsimp only [Option.map_some] at h ⊢
      split at h
      · rename_i hallowed
        obtain rfl := Option.some.inj h
        exact if_pos hallowed
      · cases h

/-! ## Two pages -/

/-- Where the page after an address starts. -/
def nextPage (l : U64) : U64 := (l &&& ~~~0xFFF) + 0x1000

theorem nextPage_toNat (l : U64) :
    (nextPage l).toNat = (l.toNat / 4096 * 4096 + 4096) % 2 ^ 64 := by
  have hmask : (l &&& ~~~0xFFF : U64) = l >>> 12 <<< 12 := by
    apply BitVec.eq_of_getLsbD_eq
    intro i hi
    simp only [BitVec.getLsbD_and, BitVec.getLsbD_not, BitVec.getLsbD_shiftLeft,
      BitVec.getLsbD_ushiftRight, getLsbD_offset i hi, hi, decide_true, Bool.true_and]
    by_cases h12 : i < 12
    · simp [h12]
    · rw [show 12 + (i - 12) = i by omega]
      simp [h12]
  have hlt := l.isLt
  rw [nextPage, hmask, BitVec.toNat_add, BitVec.toNat_shiftLeft, BitVec.toNat_ushiftRight,
    Nat.shiftRight_eq_div_pow, Nat.shiftLeft_eq, show (0x1000 : U64).toNat = 4096 from rfl]
  omega

theorem tlbIndex_nextPage (l : U64) : tlbIndex (nextPage l) ≠ tlbIndex l := by
  have hlt := l.isLt
  intro h
  have hval := congrArg Fin.val h
  unfold tlbIndex at hval
  simp only [Fin.ofNat, BitVec.toNat_ushiftRight, Nat.shiftRight_eq_div_pow, nextPage_toNat] at hval
  omega

/-- Past the end of the page an address is in the next one. -/
theorem nextPage_add {l : U64} {i : Nat} (h : 0x1000 ≤ l.toNat % 4096 + i) (hi : i < 4096) :
    l + BitVec.ofNat 64 i = nextPage l + BitVec.ofNat 64 (i - (0x1000 - l.toNat % 4096)) := by
  have hlt := l.isLt
  apply BitVec.eq_of_toNat_eq
  rw [BitVec.toNat_add, BitVec.toNat_add, nextPage_toNat, BitVec.toNat_ofNat, BitVec.toNat_ofNat]
  omega

theorem nextPage_offset (l : U64) : (nextPage l).toNat % 4096 = 0 := by
  rw [nextPage_toNat]
  omega

/-- A translation serves the rest of its page. -/
theorem target_add (h : s.target write l = some p) {k : Nat} (hk : l.toNat % 4096 + k < 4096) :
    s.target write (l + BitVec.ofNat 64 k) = some (p + BitVec.ofNat 64 k) := by
  have hp : p = p >>> 12 <<< 12 ||| l &&& 0xFFF :=
    Option.some.inj (h.symm.trans (target_samePage rfl h))
  rw [target_samePage (page_add hk) h, onPage_add _ hk, ← hp]

theorem target_offset (h : s.target write l = some p) : p.toNat % 4096 = l.toNat % 4096 := by
  rw [Option.some.inj (h.symm.trans (target_samePage rfl h)), onPage_toNat]

end Cpu
end X86Emu
