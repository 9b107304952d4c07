import X86Emu.PageFetch

/-!
# Data areas

Addresses a store is granted at, with memory behind them that no walk to them reads. Translating one
of them, or storing to it, leaves all of them where they were.
-/
namespace X86Emu

open StateRules RadixWalk

/-! ## Walks that a store leaves alone -/

namespace PagingMode

variable {mode : PagingMode} {mem mem' : Memory} {cr3 linear : U64} {nxe : Bool}

theorem path_stored
    (h : ∀ v ∈ mode.path mem cr3 linear, mode.readEntry mem' v.addr = mode.readEntry mem v.addr) :
    mode.path mem' cr3 linear = mode.path mem cr3 linear :=
  Tree.path_read_congr (mode.tree mem linear) (mode.readEntry mem') h

theorem translateMode_stored (hmode : mode ≠ off)
    (h : ∀ v ∈ mode.path mem cr3 linear, mode.readEntry mem' v.addr = mode.readEntry mem v.addr) :
    translateMode mem' cr3 linear mode nxe = translateMode mem cr3 linear mode nxe := by
  rw [translateMode_eq_radixWalk hmode, translateMode_eq_radixWalk hmode, radixWalk, radixWalk,
    path_stored h]

theorem readEntry_congr (hmode : mode ≠ off) {a : U64} (ha : mode.IsEntry a)
    (hs : ∀ b, mem'.slot b = mem.slot b)
    (h : ∀ k < mode.entryBytes.toNat,
      mem'.readU8 (a + BitVec.ofNat 64 k) = mem.readU8 (a + BitVec.ofNat 64 k)) :
    mode.readEntry mem' a = mode.readEntry mem a := by
  have hblock := ha.block hmode mem
  have hblock' := ha.block hmode mem'
  have h0 : mem'.readU8 a = mem.readU8 a := by
    have hk := h 0 (by cases mode <;> first | exact absurd rfl hmode | decide)
    rwa [show a + BitVec.ofNat 64 0 = a from BitVec.add_zero a] at hk
  cases mode with
  | off => exact absurd rfl hmode
  | legacy =>
    rw [readEntry, readEntry, if_pos rfl, if_pos rfl, hblock.readU32_eq, hblock'.readU32_eq, h0,
      show mem'.readU8 (a + 1) = mem.readU8 (a + 1) from h 1 (by decide),
      show mem'.readU8 (a + 2) = mem.readU8 (a + 2) from h 2 (by decide),
      show mem'.readU8 (a + 3) = mem.readU8 (a + 3) from h 3 (by decide)]
  | pae | long =>
    rw [readEntry, readEntry, if_neg (by decide), if_neg (by decide)]
    exact hblock.readU64_congr hs h

end PagingMode

/-! ## Where a store goes -/

namespace Cpu

variable {s : Cpu} {l l' p : U64} {tlb : Fin 256 → TlbEntry} {mem : Memory}

/-- The state with another TLB and other memory. -/
def withTables (s : Cpu) (tlb : Fin 256 → TlbEntry) (mem : Memory) : Cpu := { s with tlb, mem }

/-- A permission to store, for the ring the machine is in. -/
def storeAllowed (s : Cpu) (writable user exec : Bool) : Bool :=
  s.accessAllowed writable user exec true (s.cpl == 3) false

/-- The physical address a store to a linear one is granted, if it is. -/
def storeTarget (s : Cpu) (l : U64) : Option U64 :=
  if s.longMode && !X86Emu.canonical l then none
  else if !test s.cr0 cr0Pg then some l
  else if s.TlbHit l then
    let e := s.tlb (tlbIndex l)
    if s.storeAllowed e.writable e.user e.exec then some (e.ppage <<< 12 ||| l &&& 0xFFF) else none
  else
    match s.walkOf l with
    | none => none
    | some map => if s.storeAllowed map.writable map.user map.exec then some map.phys else none

/-- The entries a walk to an address reads, outermost first. -/
def walkPath (s : Cpu) (l : U64) : List (Visit PageLevel U64 U64) :=
  s.pagingMode.path s.mem s.cr3 l

/-- A byte of an entry that a walk to an address reads. -/
def ReadByWalk (s : Cpu) (l p : U64) : Prop :=
  ∃ v ∈ s.walkPath l, ∃ k < s.pagingMode.entryBytes.toNat, p = v.addr + BitVec.ofNat 64 k

/-- Who may store may read. -/
theorem allowed_of_storeAllowed {writable user exec : Bool}
    (h : s.storeAllowed writable user exec = true) (write : Bool) :
    s.accessAllowed writable user exec write (s.cpl == 3) false = true := by
  unfold storeAllowed accessAllowed at h
  unfold accessAllowed
  cases write
  · revert h
    cases s.cpl == 3 <;> cases user <;> simp
  · exact h

/-- The TLB and the walk of an address decide where a store goes. -/
theorem storeTarget_congr (htlb : tlb (tlbIndex l) = s.tlb (tlbIndex l))
    (hwalk : test s.cr0 cr0Pg = true → (s.withTables tlb mem).walkOf l = s.walkOf l) :
    (s.withTables tlb mem).storeTarget l = s.storeTarget l := by
  have hhit : (s.withTables tlb mem).TlbHit l ↔ s.TlbHit l := by
    show (((tlb (tlbIndex l)).valid && (tlb (tlbIndex l)).vpage == l >>> 12 && !s.noTlb) = true) ↔ _
    rw [htlb]
    rfl
  unfold storeTarget
  show (if s.longMode && !X86Emu.canonical l then none else if !test s.cr0 cr0Pg then some l else
    if (s.withTables tlb mem).TlbHit l then _ else match (s.withTables tlb mem).walkOf l with
      | none => none
      | some map => if s.storeAllowed map.writable map.user map.exec then some map.phys else none) = _
  split
  · rfl
  split
  · rfl
  rename_i hpg
  by_cases h : s.TlbHit l
  · rw [if_pos (hhit.mpr h), if_pos h]
    dsimp only
    rw [show (s.withTables tlb mem).tlb (tlbIndex l) = s.tlb (tlbIndex l) from htlb]
    rfl
  · rw [if_neg (hhit.not.mpr h), if_neg h, hwalk (by simpa using hpg)]

theorem storeTarget_hit (hw : s.Walked l) (hhit : s.TlbHit l) :
    s.storeTarget l =
      if s.storeAllowed (s.tlb (tlbIndex l)).writable (s.tlb (tlbIndex l)).user
        (s.tlb (tlbIndex l)).exec then some ((s.tlb (tlbIndex l)).ppage <<< 12 ||| l &&& 0xFFF)
      else none := by
  rw [storeTarget, if_neg (by simp [hw.canonical]), if_neg (by simp [hw.paging]), if_pos hhit]

theorem storeTarget_entry (hw : s.Walked l) (hno : s.noTlb = false) {e : TlbEntry}
    (he : s.tlb (tlbIndex l) = e) (hvalid : e.valid = true) (hpage : e.vpage = l >>> 12) :
    s.storeTarget l =
      if s.storeAllowed e.writable e.user e.exec then some (e.ppage <<< 12 ||| l &&& 0xFFF)
      else none := by
  have hhit : s.TlbHit l := by
    unfold TlbHit
    rw [he, hvalid, hpage, hno]
    simp
  rw [storeTarget_hit hw hhit, he]

theorem storeTarget_walked (hw : s.Walked l) (hmiss : ¬ s.TlbHit l) {map : Mapping}
    (hmap : s.walkOf l = some map) :
    s.storeTarget l =
      if s.storeAllowed map.writable map.user map.exec then some map.phys else none := by
  rw [storeTarget, if_neg (by simp [hw.canonical]), if_neg (by simp [hw.paging]), if_neg hmiss, hmap]

theorem Walked.served (hw : s.Walked l) : (s.withTables tlb mem).Walked l := ⟨hw.canonical, hw.paging⟩

/-- What serving an access may change: the TLB's entry for the page and the marks of its walk. -/
structure Served (s : Cpu) (l : U64) (tlb : Fin 256 → TlbEntry) (mem : Memory) : Prop where
  others : ∀ i, i ≠ tlbIndex l → tlb i = s.tlb i
  unpaged : test s.cr0 cr0Pg = false → mem = s.mem
  marked : test s.cr0 cr0Pg = true → ∃ walk write,
    (∀ a ∈ walk, ∃ v ∈ s.walkPath l, v.addr = a) ∧ s.mem.Marked mem (marks walk write)
  page : ∀ l' : U64, l' >>> 12 = l >>> 12 → (s.withTables tlb mem).storeTarget l' = s.storeTarget l'

theorem marked_none (m : Memory) : m.Marked m (marks [] false) :=
  .refl fun b => by
    rw [marks_eq_zero List.not_mem_nil]
    exact BitVec.or_zero

theorem Served.refl (s : Cpu) (l : U64) : s.Served l s.tlb s.mem where
  others _ _ := rfl
  unpaged _ := rfl
  marked _ := ⟨[], false, nofun, marked_none s.mem⟩
  page _ _ := rfl

/-- The marks of a walk to an address. -/
theorem marked_walk (hpg : test s.cr0 cr0Pg = true) {map : Mapping} (hmap : s.walkOf l = some map)
    (write : Bool) : ∃ walk write',
      (∀ a ∈ walk, ∃ v ∈ s.walkPath l, v.addr = a) ∧
        s.mem.Marked (markWalk map.entryBytes write map.walk s.mem) (marks walk write') := by
  have hmode := pagingMode_ne_off hpg
  refine ⟨map.walk, write, fun a ha => PagingMode.mem_path_of_walk hmode hmap ha, ?_⟩
  rw [PagingMode.entryBytes_walk hmode hmap]
  exact PagingMode.marked_markWalk hmode write (fun a ha => isEntry_of_walkOf hpg hmap ha) s.mem

theorem isEntry_walkPath (hpg : test s.cr0 cr0Pg = true) {walk : List U64}
    (h : ∀ a ∈ walk, ∃ v ∈ s.walkPath l, v.addr = a) : ∀ a ∈ walk, s.pagingMode.IsEntry a := by
  intro a ha
  obtain ⟨v, hv, rfl⟩ := h a ha
  exact PagingMode.isEntry_path (pagingMode_ne_off hpg) hv

/-- An entry filled in for a page serves all of it. -/
theorem storeTarget_filled (hw : s.Walked l') (hl : l' >>> 12 = l >>> 12) (hno : s.noTlb = false)
    {e : TlbEntry} (hvalid : e.valid = true) (hpage : e.vpage = l >>> 12) :
    (s.withTables (s.setTlb (tlbIndex l) e).tlb mem).storeTarget l' =
      if s.storeAllowed e.writable e.user e.exec then some (e.ppage <<< 12 ||| l' &&& 0xFFF)
      else none := by
  have he : (s.withTables (s.setTlb (tlbIndex l) e).tlb mem).tlb (tlbIndex l') = e :=
    if_pos (tlbIndex_samePage hl)
  have hw' : (s.withTables (s.setTlb (tlbIndex l) e).tlb mem).Walked l' := hw.served
  exact storeTarget_entry hw' hno he hvalid (hpage.trans hl.symm)

/-- A hit on a page served before, whose entry turns dirty. -/
theorem served_dirtied (hw : s.Walked l) (hhit : s.TlbHit l)
    (hmarks : ∃ walk write, (∀ a ∈ walk, ∃ v ∈ s.walkPath l, v.addr = a) ∧
      s.mem.Marked mem (marks walk write)) :
    s.Served l (s.setTlb (tlbIndex l) { s.tlb (tlbIndex l) with dirtied := true }).tlb mem where
  others i hi := if_neg hi
  unpaged hpg := by
    rw [hw.paging] at hpg
    cases hpg
  marked _ := hmarks
  page l' hl := by
    have hw' := hw.samePage hl
    have hhit' := (tlbHit_samePage hl).mpr hhit
    obtain ⟨⟨hvalid, hpage⟩, hno⟩ : ((s.tlb (tlbIndex l)).valid = true ∧
        (s.tlb (tlbIndex l)).vpage = l >>> 12) ∧ s.noTlb = false := by
      simpa [TlbHit] using hhit
    rw [storeTarget_hit hw' hhit', tlbIndex_samePage hl]
    exact storeTarget_filled hw' hl hno hvalid hpage

/-- A page served by its walk. -/
theorem served_filled (hw : s.Walked l) (hmiss : ¬ s.TlbHit l) {map : Mapping}
    (hmap : s.walkOf l = some map) (write : Bool) :
    s.Served l (s.setTlb (tlbIndex l)
        { valid := true, vpage := l >>> 12, ppage := map.phys >>> 12, writable := map.writable
          user := map.user, exec := map.exec, dirtied := write }).tlb
      (markWalk map.entryBytes write map.walk s.mem) where
  others i hi := if_neg hi
  unpaged hpg := by
    rw [hw.paging] at hpg
    cases hpg
  marked hpg := marked_walk hpg hmap write
  page l' hl := by
    have hw' := hw.samePage hl
    have hmiss' := (tlbHit_samePage hl).not.mpr hmiss
    have hmap' : s.walkOf l' = some (PagingMode.served map l') := by
      rw [walkOf_samePage hw.paging hl, hmap]
      rfl
    obtain ⟨walk, write', hpath, hmark⟩ := marked_walk hw.paging hmap write
    have hwalk (tlb : Fin 256 → TlbEntry) :
        (s.withTables tlb (markWalk map.entryBytes write map.walk s.mem)).walkOf l' =
          some (PagingMode.served map l') :=
      (walkOf_marked hw.paging (isEntry_walkPath hw.paging hpath) hmark l').trans hmap'
    rw [storeTarget_walked hw' hmiss' hmap']
    by_cases hno : s.noTlb = true
    · -- the TLB is not used: the walk finds the marks it left
      have hoff (tlb : Fin 256 → TlbEntry) (mem : Memory) :
          ¬ (s.withTables tlb mem).TlbHit l' := by
        unfold TlbHit
        rw [show (s.withTables tlb mem).noTlb = true from hno]
        simp
      exact storeTarget_walked hw'.served (hoff _ _) (hwalk _)
    · exact storeTarget_filled hw' hl (by simpa using hno) rfl rfl

/-- An access to an address that may be stored to is served. -/
theorem served_access (h : s.storeTarget l = some p) (write : Bool) :
    ∃ tlb mem, applyPagingAccess l write s = (p, s.withTables tlb mem) ∧ s.Served l tlb mem := by
  have hsame {x : U64} (hrun : applyPagingAccess l write s = (x, s)) (hx : some x = some p) :
      ∃ tlb mem, applyPagingAccess l write s = (p, s.withTables tlb mem) ∧ s.Served l tlb mem :=
    ⟨s.tlb, s.mem, Option.some.inj hx ▸ hrun, .refl s l⟩
  unfold storeTarget at h
  split at h
  · cases h
  rename_i hc
  split at h
  · rename_i hpg
    refine hsame ?_ h
    rw [applyPagingAccess, applyPagingInner, if_neg hc, if_pos hpg]
  rename_i hpg
  have hw : s.Walked l := ⟨Bool.eq_false_iff.mpr hc, by simpa using hpg⟩
  split at h
  · rename_i hhit
    have hhit' := hhit
    unfold TlbHit at hhit'
    dsimp only at h
    split at h
    · rename_i hallowed
      have hrun : applyPagingAccess l write s =
          ((s.tlb (tlbIndex l)).ppage <<< 12 ||| l &&& 0xFFF,
            if write && !(s.tlb (tlbIndex l)).dirtied then
              (s.markAccessed l true).setTlb (tlbIndex l)
                { s.tlb (tlbIndex l) with dirtied := true }
            else s) := by
        rw [applyPagingAccess, applyPagingInner, if_neg hc, if_neg hpg]
        dsimp only
        rw [if_pos hhit', if_pos (allowed_of_storeAllowed hallowed write)]
      by_cases hd : (write && !(s.tlb (tlbIndex l)).dirtied) = true
      · rw [if_pos hd] at hrun
        rw [hrun, Option.some.inj h]
        unfold markAccessed
        cases hmap : s.walkOf l with
        | none =>
          have hnone : ∀ a ∈ ([] : List U64), ∃ v ∈ s.walkPath l, v.addr = a :=
            fun _ ha => absurd ha List.not_mem_nil
          exact ⟨_, s.mem, rfl, served_dirtied hw hhit ⟨[], false, hnone, marked_none s.mem⟩⟩
        | some map => exact ⟨_, _, rfl, served_dirtied hw hhit (marked_walk hw.paging hmap true)⟩
      · rw [if_neg hd] at hrun
        exact hsame hrun h
    · cases h
  · rename_i hmiss
    have hmiss' := hmiss
    unfold TlbHit at hmiss'
    split at h
    · cases h
    · rename_i map hmap
      split at h
      · rename_i hallowed
        have hrun : applyPagingAccess l write s = (map.phys, (s.setTlb (tlbIndex l)
            { valid := true, vpage := l >>> 12, ppage := map.phys >>> 12, writable := map.writable
              user := map.user, exec := map.exec, dirtied := write }).setAccessedBits map write) := by
          rw [applyPagingAccess, applyPagingInner, if_neg hc, if_neg hpg]
          dsimp only
          rw [if_neg hmiss', hmap]
          dsimp only
          rw [allowed_of_storeAllowed hallowed write]
          rfl
        obtain rfl := Option.some.inj h
        exact ⟨_, _, hrun, served_filled hw hmiss hmap write⟩
      · cases h

/-! ## Areas -/

/-- Addresses a store is granted at, with memory behind them that no walk to them reads. -/
structure DataArea (s : Cpu) (n : Nat) (lin phys : Nat → U64) : Prop where
  target : ∀ i < n, s.storeTarget (lin i) = some (phys i)
  backed : ∀ i < n, s.mem.backed (phys i)
  apart : test s.cr0 cr0Pg = true → ∀ i < n, ∀ j < n, ¬ s.ReadByWalk (lin j) (phys i)

/-- Linear addresses that follow each other, for a page at most. -/
structure Consecutive (n : Nat) (lin : Nat → U64) : Prop where
  run : ∀ i k, i + k < n → (lin i).toNat % 4096 + k < 4096 →
    lin (i + k) = lin i + BitVec.ofNat 64 k
  offset : ∀ i < n, ∀ j < n, (lin i).toNat % 4096 = (lin j).toNat % 4096 → i = j
  /-- Two pages of them have a TLB entry each. -/
  near : ∀ i < n, ∀ j < n, tlbIndex (lin i) = tlbIndex (lin j) → lin i >>> 12 = lin j >>> 12

variable {n : Nat} {lin phys : Nat → U64}

theorem walkPath_withTables :
    (s.withTables tlb mem).walkPath l = s.pagingMode.path mem s.cr3 l := rfl

theorem ReadByWalk.first (hpg : test s.cr0 cr0Pg = true) {v : Visit PageLevel U64 U64}
    (hv : v ∈ s.walkPath l) : s.ReadByWalk l v.addr := by
  refine ⟨v, hv, 0, ?_, (BitVec.add_zero _).symm⟩
  have hmode := pagingMode_ne_off hpg
  cases hm : s.pagingMode with
  | off => exact absurd hm hmode
  | legacy | pae | long => decide

/-- Serving one address of an area leaves the area where it was, and its bytes. -/
theorem DataArea.served (h : s.DataArea n lin phys) (hlin : Consecutive n lin) {j : Nat}
    (hj : j < n) (hs : s.Served (lin j) tlb mem) :
    (s.withTables tlb mem).DataArea n lin phys ∧
      ∀ i < n, mem.readU8 (phys i) = s.mem.readU8 (phys i) := by
  have hwalk (l : U64) (hpg : test s.cr0 cr0Pg = true) :
      (s.withTables tlb mem).walkOf l = s.walkOf l := by
    obtain ⟨walk, write, hpath, hmark⟩ := hs.marked hpg
    exact walkOf_marked hpg (isEntry_walkPath hpg hpath) hmark l
  have hslot (b : U64) : mem.slot b = s.mem.slot b := by
    cases hpg : test s.cr0 cr0Pg with
    | true =>
      obtain ⟨walk, write, -, hmark⟩ := hs.marked hpg
      exact hmark.slot b
    | false => rw [hs.unpaged hpg]
  refine ⟨⟨fun i hi => ?_, fun i hi => ?_, fun hpg i hi k hk hread => ?_⟩, fun i hi => ?_⟩
  · rw [← h.target i hi]
    by_cases hidx : tlbIndex (lin i) = tlbIndex (lin j)
    · exact hs.page _ (hlin.near i hi j hj hidx)
    · exact storeTarget_congr (hs.others _ hidx) (hwalk _)
  · exact (Memory.backed_congr (hslot _)).mpr (h.backed i hi)
  · have hpg : test s.cr0 cr0Pg = true := hpg
    obtain ⟨walk, write, hpath, hmark⟩ := hs.marked hpg
    obtain ⟨v, hv, e, he, hp⟩ := hread
    have hmap : s.pagingMode.path mem s.cr3 (lin k) = (s.walkPath (lin k)).map
        fun v => { v with entry := s.pagingMode.readEntry mem v.addr } :=
      PagingMode.path_marked (pagingMode_ne_off hpg) (isEntry_walkPath hpg hpath) hmark
    rw [walkPath_withTables, hmap] at hv
    obtain ⟨v', hv', rfl⟩ := List.mem_map.mp hv
    exact h.apart hpg i hi k hk ⟨v', hv', e, he, hp⟩
  · cases hpg : test s.cr0 cr0Pg with
    | true =>
      obtain ⟨walk, write, hpath, hmark⟩ := hs.marked hpg
      have hout : phys i ∉ walk := by
        intro hin
        obtain ⟨v, hv, he⟩ := hpath _ hin
        exact h.apart hpg i hi j hj (he ▸ ReadByWalk.first hpg hv)
      rw [hmark.byte, marks_eq_zero hout]
      exact BitVec.or_zero
    | false => rw [hs.unpaged hpg]

/-- Memory that differs in no entry a walk to the area reads leaves the area where it was. -/
theorem DataArea.stored (h : s.DataArea n lin phys) (hslot : ∀ b, mem.slot b = s.mem.slot b)
    (hbyte : test s.cr0 cr0Pg = true → ∀ j < n, ∀ p, s.ReadByWalk (lin j) p →
      mem.readU8 p = s.mem.readU8 p) :
    (s.withTables s.tlb mem).DataArea n lin phys := by
  have hentry (hpg : test s.cr0 cr0Pg = true) {j : Nat} (hj : j < n) :
      ∀ v ∈ s.walkPath (lin j),
        s.pagingMode.readEntry mem v.addr = s.pagingMode.readEntry s.mem v.addr := fun v hv =>
    PagingMode.readEntry_congr (pagingMode_ne_off hpg)
      (PagingMode.isEntry_path (pagingMode_ne_off hpg) hv) hslot
      fun k hk => hbyte hpg j hj _ ⟨v, hv, k, hk, rfl⟩
  refine ⟨fun i hi => ?_, fun i hi => (Memory.backed_congr (hslot _)).mpr (h.backed i hi),
    fun hpg i hi j hj hread => ?_⟩
  · have hwalk (hpg : test s.cr0 cr0Pg = true) :
        (s.withTables s.tlb mem).walkOf (lin i) = s.walkOf (lin i) :=
      PagingMode.translateMode_stored (pagingMode_ne_off hpg) (hentry hpg hi)
    rw [← h.target i hi]
    exact storeTarget_congr rfl hwalk
  · have hpg : test s.cr0 cr0Pg = true := hpg
    obtain ⟨v, hv, k, hk, hp⟩ := hread
    rw [walkPath_withTables, PagingMode.path_stored (hentry hpg hj)] at hv
    exact h.apart hpg i hi j hj ⟨v, hv, k, hk, hp⟩

end Cpu
end X86Emu
