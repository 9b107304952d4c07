import Mathlib.Data.Set.Basic
import X86Emu.PageFetch
import X86Emu.System

/-!
# Translating with and without the TLB

A store to the page tables or a change of EFER.NXE leaves the TLB as it is, and so may leave it with
entries that are outdated. A run that keeps to the pages without one translates as the tables
themselves do: the machine whose TLB is off makes the same run.

INVLPG drops the entry of one 4 KiB page. The rest of a large page keeps its entries, and a run that
relies on INVLPG for them can tell the two machines apart.
-/
namespace X86Emu

open StateRules PagingMode

/-- Translate by walking the page tables, whatever the TLB holds. -/
def walkAccess (linear : U64) (write fetch : Bool) : Exec U64 := fun s =>
  if s.longMode && !canonical linear then (unbacked, s.raiseGp 0)
  else if !test s.cr0 cr0Pg then (linear, s)
  else
    match s.walkOf linear with
    | some map =>
      if s.accessAllowed map.writable map.user map.exec write (s.cpl == 3) fetch then
        (map.phys, s.setAccessedBits map write)
      else (unbacked, s.raisePageFault linear true write (s.cpl == 3) fetch)
    | none => (unbacked, s.raisePageFault linear false write (s.cpl == 3) fetch)

namespace Cpu

variable {s t : Cpu} {l : U64} {S : Set U64}

/-- The state without its TLB. -/
def blind (s : Cpu) : Cpu := { s with noTlb := true, tlb := fun _ => {} }

/-- The state with another TLB. -/
def withTlb (s : Cpu) (tlb : Fin 256 → TlbEntry) : Cpu := { s with tlb }

theorem blind_raise (s : Cpu) (f : Fault) : (s.raise f).blind = s.blind.raise f := by
  unfold raise
  rw [show s.blind.pendingException = s.pendingException from rfl]
  split <;> rfl

theorem commutes_walkAccess (l : U64) (write fetch : Bool) :
    Commutes blind (walkAccess l write fetch) := by
  intro s
  unfold walkAccess
  rw [show s.blind.longMode = s.longMode from rfl, show s.blind.cr0 = s.cr0 from rfl,
    show s.blind.walkOf l = s.walkOf l from rfl, show s.blind.cpl = s.cpl from rfl]
  split
  · exact Prod.ext rfl (blind_raise s _).symm
  split
  · rfl
  cases s.walkOf l with
  | none => exact Prod.ext rfl (blind_raise s _).symm
  | some map =>
    dsimp only
    rw [show s.blind.accessAllowed = s.accessAllowed from rfl]
    split
    · rfl
    · exact Prod.ext rfl (blind_raise s _).symm

/-! ## Outdated entries -/

/-- The TLB has an entry of a page. -/
structure Holds (s : Cpu) (l : U64) : Prop where
  valid : (s.tlb (tlbIndex l)).valid = true
  page : (s.tlb (tlbIndex l)).vpage = l >>> 12

/-- The pages the TLB has an outdated entry of. -/
def stale (s : Cpu) : Set U64 :=
  {v | ∃ l : U64, l >>> 12 = v ∧ s.Holds l ∧ ¬ s.Caches (s.tlb (tlbIndex l))}

/-- The pages an entry of which, if it was right in one state, may be wrong in another: the mapping
has changed, or a bit of the walk is no longer set. -/
def outdated (s t : Cpu) : Set U64 := {v | ∃ e : TlbEntry, e.vpage = v ∧ s.Caches e ∧ ¬ t.Caches e}

theorem caches_of_fresh (h : s.stale ⊆ S) (hl : s.Holds l) (hpage : l >>> 12 ∉ S) :
    s.Caches (s.tlb (tlbIndex l)) :=
  not_not.mp fun hno => hpage (h ⟨l, rfl, hl, hno⟩)

theorem stale_empty (h : ∀ i, (s.tlb i).valid = false) : s.stale ⊆ S := by
  rintro v ⟨l, -, hl, -⟩
  exact absurd hl.valid (by simp [h])

theorem stale_outdated (h : s.stale ⊆ S) (htlb : t.tlb = s.tlb) :
    t.stale ⊆ S ∪ s.outdated t := by
  rintro v ⟨l, rfl, ⟨hvalid, hpage⟩, hno⟩
  rw [htlb] at hvalid hpage hno
  by_cases hs : s.Caches (s.tlb (tlbIndex l))
  · exact .inr ⟨_, hpage, hs, hno⟩
  · exact .inl (h ⟨l, rfl, ⟨hvalid, hpage⟩, hs⟩)

/-- Entries that are left alone stay right when what they cache does. -/
theorem stale_kept {S' : Set U64} (h : s.stale ⊆ S)
    (htlb : ∀ l : U64, t.Holds l → l >>> 12 ∉ S' →
      l >>> 12 ∉ S ∧ t.tlb (tlbIndex l) = s.tlb (tlbIndex l))
    (hcaches : ∀ e, s.Caches e → t.Caches e) : t.stale ⊆ S' := by
  rintro v ⟨l, rfl, hl, hno⟩
  by_contra hv
  obtain ⟨hpage, hsame⟩ := htlb l hl hv
  have hs : s.Holds l := ⟨hsame ▸ hl.valid, hsame ▸ hl.page⟩
  rw [hsame] at hno
  exact hno (hcaches _ (caches_of_fresh h hs hpage))

/-- Setting an entry to one that caches its page leaves no more outdated. -/
theorem stale_set (h : s.stale ⊆ S) (hpg : test s.cr0 cr0Pg = true) {walk : List U64} {write : Bool}
    (hwalk : ∀ a ∈ walk, s.pagingMode.IsEntry a) {mem : Memory}
    (hmem : s.mem.Marked mem (marks walk write)) (i : Fin 256) {e : TlbEntry}
    (he : { s with mem }.Caches e) :
    stale { s with tlb := fun j => if j = i then e else s.tlb j, mem } ⊆ S := by
  rintro v ⟨l, rfl, ⟨hvalid, hpage⟩, hno⟩
  dsimp only at hvalid hpage hno
  by_cases hi : tlbIndex l = i
  · rw [if_pos hi] at hno
    exact absurd he hno
  · rw [if_neg hi] at hvalid hpage hno
    exact h ⟨l, rfl, ⟨hvalid, hpage⟩, fun hs => hno (hs.marked hpg hwalk hmem)⟩

/-! ## One access -/

/-- An access to a page without an outdated entry does what the walk of the page does, and may fill
the TLB. -/
theorem access_walked (write fetch : Bool) (h : s.stale ⊆ S)
    (hl : s.TlbHit l → s.Caches (s.tlb (tlbIndex l))) :
    ∃ tlb, applyPagingInner l write fetch s =
        ((walkAccess l write fetch s).1, (walkAccess l write fetch s).2.withTlb tlb) ∧
      ((walkAccess l write fetch s).2.withTlb tlb).stale ⊆ S := by
  have hraise (f : Fault) : (s.raise f).withTlb s.tlb = s.raise f := by
    unfold raise
    split <;> rfl
  have hfresh (f : Fault) : ((s.raise f).withTlb s.tlb).stale ⊆ S := by
    obtain ⟨e, cr2, log, heq⟩ := s.raise_eq f
    rw [heq]
    exact stale_kept h (fun _ _ hv => ⟨hv, rfl⟩) fun _ he => he
  unfold applyPagingInner walkAccess
  split
  · exact ⟨s.tlb, Prod.ext rfl (hraise _).symm, hfresh _⟩
  split
  · exact ⟨s.tlb, rfl, h⟩
  rename_i hpg
  replace hpg : test s.cr0 cr0Pg = true := by simpa using hpg
  have hmarked {map : Mapping} (hmap : s.walkOf l = some map) (w : Bool) :
      s.mem.Marked (markWalk map.entryBytes w map.walk s.mem) (marks map.walk w) := by
    rw [entryBytes_walk (pagingMode_ne_off hpg) hmap]
    exact marked_markWalk (pagingMode_ne_off hpg) w (fun a ha => isEntry_of_walkOf hpg hmap ha)
      s.mem
  dsimp only
  split
  · rename_i hhit
    have hcaches := hl hhit
    simp only [Bool.and_eq_true, beq_iff_eq] at hhit
    obtain ⟨⟨hvalid, hvpage⟩, -⟩ := hhit
    obtain ⟨map, hmap, hphys, hw, hu, hx, ha, hd⟩ := hcaches l hvpage.symm
    have hentry : ∀ a ∈ map.walk, s.pagingMode.IsEntry a :=
      fun a ha => isEntry_of_walkOf hpg hmap ha
    rw [hmap]
    dsimp only
    rw [← hw, ← hu, ← hx]
    split
    · rw [hphys]
      split
      · rename_i hfirst
        obtain ⟨rfl, -⟩ := Bool.and_eq_true_iff.mp hfirst
        rw [markAccessed, hmap]
        refine ⟨_, rfl, stale_set h hpg hentry (hmarked hmap true) _ ?_⟩
        rw [hw, hu, hx]
        exact caches_dirtied hpg hcaches hvpage.symm hmap (hmarked hmap true)
      · rename_i hclean
        have hset : s.setAccessedBits map write = s := by
          have hmem : markWalk map.entryBytes write map.walk s.mem = s.mem := by
            rw [entryBytes_walk (pagingMode_ne_off hpg) hmap]
            refine markWalk_absorbed (pagingMode_ne_off hpg) hentry ha fun hwrite => hd ?_
            simpa [hwrite] using hclean
          rw [setAccessedBits, hmem]
        rw [hset]
        exact ⟨s.tlb, rfl, h⟩
    · exact ⟨s.tlb, Prod.ext rfl (hraise _).symm, hfresh _⟩
  · cases hmap : s.walkOf l with
    | none => exact ⟨s.tlb, Prod.ext rfl (hraise _).symm, hfresh _⟩
    | some map =>
      dsimp only
      cases s.accessAllowed map.writable map.user map.exec write (s.cpl == 3) fetch
      · exact ⟨s.tlb, Prod.ext rfl (hraise _).symm, hfresh _⟩
      · exact ⟨_, rfl, stale_set h hpg (fun a ha => isEntry_of_walkOf hpg hmap ha)
          (hmarked hmap write) _ (caches_filled hpg hmap (hmarked hmap write))⟩

/-- Two states that differ in their TLBs only, the second not using its own. -/
structure Twin (s t : Cpu) : Prop where
  blind : s.blind = t.blind
  off : t.noTlb = true

theorem noTlb_walkAccess (l : U64) (write fetch : Bool) (s : Cpu) :
    (walkAccess l write fetch s).2.noTlb = s.noTlb := by
  have hraise (f : Fault) : (s.raise f).noTlb = s.noTlb := by
    unfold raise
    split <;> rfl
  unfold walkAccess
  split
  · exact hraise _
  split
  · rfl
  cases s.walkOf l with
  | none => exact hraise _
  | some map =>
    dsimp only
    split
    · rfl
    · exact hraise _

/-- An access to a page without an outdated entry is the same with and without the TLB. -/
theorem twin_access (hst : s.Twin t) (write fetch : Bool) (h : s.stale ⊆ S) (hl : l >>> 12 ∉ S) :
    (applyPagingInner l write fetch s).1 = (applyPagingInner l write fetch t).1 ∧
      (applyPagingInner l write fetch s).2.Twin (applyPagingInner l write fetch t).2 ∧
      (applyPagingInner l write fetch s).2.stale ⊆ S := by
  have hholds (hhit : s.TlbHit l) : s.Holds l := by
    simp only [TlbHit, Bool.and_eq_true, beq_iff_eq] at hhit
    exact ⟨hhit.1.1, hhit.1.2⟩
  obtain ⟨tlb, hs, hfresh⟩ := access_walked write fetch h fun hhit =>
    caches_of_fresh h (hholds hhit) hl
  have hmiss : ¬ t.TlbHit l := by
    unfold TlbHit
    rw [hst.off]
    simp
  obtain ⟨tlb', ht, -⟩ := access_walked write fetch (Set.subset_univ t.stale) fun hhit =>
    absurd hhit hmiss
  have hwalk := commutes_walkAccess l write fetch s
  have hwalk' := commutes_walkAccess l write fetch t
  rw [hst.blind, hwalk', Prod.mk.injEq] at hwalk
  rw [hs, ht]
  exact ⟨hwalk.1.symm, ⟨hwalk.2.symm, (noTlb_walkAccess l write fetch t).trans hst.off⟩, hfresh⟩

end Cpu

/-! ## Runs -/

/-- What a guest does that the translation of an address may depend on. -/
inductive PagingOp
  | access (linear : U64) (write : Bool)
  | fetch (linear : U64)
  | writeCr0 (v : U32)
  | movToCr (cr reg : U8)
  | writeMsr (index : U32) (value : U64)
  | invlpg (linear : U64)
  | store (write : Memory → Memory)
  | setReg (i : Fin 16) (v : U64)
  | setCs (sel : U16)
  /-- The pending exception is delivered, so that the next one is recorded. -/
  | deliver

namespace PagingOp

/-- The physical address a translation gives. -/
def run : PagingOp → Exec (Option U64)
  | access l write => do return some (← applyPagingAccess l write)
  | fetch l => do return some (← applyPagingFetch l)
  | writeCr0 v => do modify (·.writeCr0 v); return none
  | movToCr cr reg => do X86Emu.movToCr cr reg; return none
  | writeMsr index value => do modify (·.writeMsr index value); return none
  | invlpg l => do modify (·.invlpg l); return none
  | store f => do modify fun s => { s with mem := f s.mem }; return none
  | setReg i v => do modify (·.setReg i v); return none
  | setCs sel => do modify ({ · with cs := sel }); return none
  | deliver => do modify ({ · with pendingException := none }); return none

/-- Another paging mode takes over: paging is turned on or off, or long mode entered or left. -/
def Switches (s t : Cpu) : Prop :=
  test s.cr0 cr0Pg ≠ test t.cr0 cr0Pg ∨ s.longMode ≠ t.longMode

instance (s t : Cpu) : Decidable (Switches s t) := inferInstanceAs (Decidable (_ ∨ _))

/-- The pages with an entry that may be outdated after an operation, from those before it. INVLPG is
relied on for the pages that it covers. -/
def settle (covers : Cpu → U64 → Set U64) (op : PagingOp) (S : Set U64) (s : Cpu) : Set U64 :=
  let t := (op.run s).2
  match op with
  | writeCr0 _ => if Switches s t then ∅ else S
  | movToCr cr _ => if cr = 3 ∨ cr = 4 ∨ Switches s t then ∅ else S
  | writeMsr .. => if Switches s t then ∅ else S ∪ s.outdated t
  | invlpg l => S \ covers s l
  | store _ => S ∪ s.outdated t
  | _ => S

/-- An operation translates no address of the pages. -/
def Avoids (S : Set U64) : PagingOp → Prop
  | access l _ | fetch l => l >>> 12 ∉ S
  | _ => True

/-- No address is translated while its page may have an outdated entry. -/
def Disciplined (covers : Cpu → U64 → Set U64) : List PagingOp → Set U64 → Cpu → Prop
  | [], _, _ => True
  | op :: ops, S, s => op.Avoids S ∧ Disciplined covers ops (op.settle covers S s) (op.run s).2

/-- What can be seen of a step: the physical address or the exception, and the page tables. -/
structure Observation where
  phys : Option U64
  exception : Option (U8 × Option U32)
  cr2 : U64
  mem : Memory

/-- What can be seen of every step of a run. -/
def observe : List PagingOp → Cpu → List Observation
  | [], _ => []
  | op :: ops, s =>
    let t := (op.run s).2
    ⟨(op.run s).1, t.pendingException, t.cr2, t.mem⟩ :: observe ops t

/-- The one 4 KiB page INVLPG drops the entry of. -/
def ownPage (_ : Cpu) (l : U64) : Set U64 := {l >>> 12}

/-- All of the page, of any size, that maps an address: what the same walk maps. -/
def wholePage (s : Cpu) (l : U64) : Set U64 :=
  {v | v = l >>> 12 ∨ ∃ l' walk, l' >>> 12 = v ∧ (s.walkOf l).map Mapping.walk = some walk ∧
    (s.walkOf l').map Mapping.walk = some walk}

/-! ### What one operation preserves -/

variable {s t : Cpu} {S : Set U64}

theorem blind_updateLongMode (s : Cpu) : s.blind.updateLongMode = s.updateLongMode.blind := by
  unfold Cpu.updateLongMode
  rw [show s.blind.longMode = s.longMode from rfl, show s.blind.cr0 = s.cr0 from rfl,
    show s.blind.efer = s.efer from rfl]
  dsimp only
  split <;> rfl

theorem noTlb_updateLongMode (s : Cpu) : s.updateLongMode.noTlb = s.noTlb := by
  unfold Cpu.updateLongMode
  dsimp only
  split <;> rfl

theorem updateLongMode_cases (s : Cpu) :
    (∀ i, (s.updateLongMode.tlb i).valid = false) ∨ s.updateLongMode = s := by
  unfold Cpu.updateLongMode
  dsimp only
  split
  · exact .inl fun _ => rfl
  · exact .inr rfl

theorem blind_writeCr0 (s : Cpu) (v : U32) : s.blind.writeCr0 v = (s.writeCr0 v).blind := by
  unfold Cpu.writeCr0
  rw [show s.blind.cr0 = s.cr0 from rfl]
  dsimp only
  split
  · exact blind_updateLongMode (Cpu.flushTlb { s with cr0 := v, pe := test v cr0Pe })
  · exact blind_updateLongMode { s with cr0 := v, pe := test v cr0Pe }

theorem noTlb_writeCr0 (s : Cpu) (v : U32) : (s.writeCr0 v).noTlb = s.noTlb := by
  unfold Cpu.writeCr0
  dsimp only
  rw [noTlb_updateLongMode]
  split <;> rfl

/-- Writing CR0 empties the TLB, or changes nothing that a walk depends on. -/
theorem writeCr0_cases (s : Cpu) (v : U32) :
    (∀ i, ((s.writeCr0 v).tlb i).valid = false) ∨
      s.writeCr0 v = { s with cr0 := v, pe := test v cr0Pe } ∧
        test s.cr0 cr0Pg = test v cr0Pg := by
  unfold Cpu.writeCr0
  dsimp only
  split
  · rcases updateLongMode_cases (Cpu.flushTlb { s with cr0 := v, pe := test v cr0Pe }) with h | h
    · exact .inl h
    · rw [h]
      exact .inl fun _ => rfl
  · rename_i hpg
    rcases updateLongMode_cases { s with cr0 := v, pe := test v cr0Pe } with h | h
    · exact .inl h
    · exact .inr ⟨h, by simpa using hpg⟩

theorem stale_writeCr0 (h : s.stale ⊆ S) (v : U32) :
    (s.writeCr0 v).stale ⊆ if Switches s (s.writeCr0 v) then ∅ else S := by
  rcases writeCr0_cases s v with hempty | ⟨heq, hpg⟩
  · exact Cpu.stale_empty hempty
  · have hno : ¬ Switches s { s with cr0 := v, pe := test v cr0Pe } :=
      not_or.mpr ⟨not_not.mpr hpg, not_not.mpr rfl⟩
    rw [heq, if_neg hno]
    refine Cpu.stale_kept h (fun _ _ hl => ⟨hl, rfl⟩) fun e he l hl => ?_
    have hmode : Cpu.pagingMode { s with cr0 := v, pe := test v cr0Pe } = s.pagingMode := by
      rw [Cpu.pagingMode, Cpu.pagingMode, hpg]
      rfl
    have hwalk : Cpu.walkOf { s with cr0 := v, pe := test v cr0Pe } l = s.walkOf l := by
      rw [Cpu.walkOf, hmode]
      rfl
    rw [hwalk, hmode]
    exact he l hl

theorem blind_ite {c : Prop} [Decidable c] {x y x' y' : Cpu} (hx : x' = x.blind)
    (hy : y' = y.blind) : (if c then x' else y') = (if c then x else y).blind := by
  rw [hx, hy]
  split <;> rfl

theorem blind_writeMsr (s : Cpu) (index : U32) (value : U64) :
    s.blind.writeMsr index value = (s.writeMsr index value).blind := by
  unfold Cpu.writeMsr
  refine blind_ite (blind_updateLongMode
    { s with efer := value &&& ~~~Efer.lma ||| s.efer &&& Efer.lma }) ?_
  iterate 10 refine blind_ite rfl ?_
  exact blind_ite (blind_ite (s.blind_raise _).symm rfl) rfl

/-- The TLB is emptied, or it and the paging mode stay as they are. -/
structure KeptOrFlushed (s t : Cpu) : Prop where
  off : t.noTlb = s.noTlb
  settled : (∀ i, (t.tlb i).valid = false) ∨ t.tlb = s.tlb ∧ ¬ Switches s t

theorem kept_of_same (hoff : t.noTlb = s.noTlb) (htlb : t.tlb = s.tlb) (hcr0 : t.cr0 = s.cr0)
    (hlong : t.longMode = s.longMode) : KeptOrFlushed s t :=
  ⟨hoff, .inr ⟨htlb, not_or.mpr ⟨not_not.mpr (by rw [hcr0]), not_not.mpr hlong.symm⟩⟩⟩

theorem kept_ite {c : Prop} [Decidable c] {x y : Cpu} (hx : KeptOrFlushed s x)
    (hy : KeptOrFlushed s y) : KeptOrFlushed s (if c then x else y) := by
  split
  · exact hx
  · exact hy

theorem kept_raise (s : Cpu) (f : Fault) : KeptOrFlushed s (s.raise f) := by
  obtain ⟨e, cr2, log, heq⟩ := s.raise_eq f
  rw [heq]
  exact kept_of_same rfl rfl rfl rfl

theorem lma_kept (efer value : U64) :
    test (value &&& ~~~Efer.lma ||| efer &&& Efer.lma) Efer.lma = test efer Efer.lma := by
  have hmask (m : U64) : (value &&& ~~~m ||| efer &&& m) &&& m = efer &&& m := by
    ext i hi
    simp only [BitVec.getElem_and, BitVec.getElem_or, BitVec.getElem_not]
    cases m[i] <;> simp
  rw [test, test, hmask]

theorem kept_writeEfer (s : Cpu) (value : U64) : KeptOrFlushed s
    (Cpu.updateLongMode { s with efer := value &&& ~~~Efer.lma ||| s.efer &&& Efer.lma }) := by
  refine ⟨noTlb_updateLongMode _, ?_⟩
  rcases updateLongMode_cases { s with efer := value &&& ~~~Efer.lma ||| s.efer &&& Efer.lma } with
    hempty | heq
  · exact .inl hempty
  · rw [heq]
    have hkept : KeptOrFlushed s { s with efer := value &&& ~~~Efer.lma ||| s.efer &&& Efer.lma } :=
      kept_of_same rfl rfl rfl (lma_kept s.efer value)
    exact hkept.settled

theorem kept_writeMsr (s : Cpu) (index : U32) (value : U64) :
    KeptOrFlushed s (s.writeMsr index value) := by
  have hsame {t : Cpu} (hoff : t.noTlb = s.noTlb) (htlb : t.tlb = s.tlb) (hcr0 : t.cr0 = s.cr0)
    (hefer : t.efer = s.efer) : KeptOrFlushed s t :=
    kept_of_same hoff htlb hcr0 (by rw [Cpu.longMode, Cpu.longMode, hefer])
  unfold Cpu.writeMsr
  refine kept_ite (kept_writeEfer s value) ?_
  iterate 10 refine kept_ite (hsame rfl rfl rfl rfl) ?_
  exact kept_ite (kept_ite (kept_raise s _) (hsame rfl rfl rfl rfl)) (hsame rfl rfl rfl rfl)

theorem stale_writeMsr (h : s.stale ⊆ S) (index : U32) (value : U64) :
    (s.writeMsr index value).stale ⊆
      if Switches s (s.writeMsr index value) then ∅
      else S ∪ s.outdated (s.writeMsr index value) := by
  rcases (kept_writeMsr s index value).settled with hempty | ⟨htlb, hno⟩
  · exact Cpu.stale_empty hempty
  · rw [if_neg hno]
    exact Cpu.stale_outdated h htlb

theorem blind_invlpg (s : Cpu) (l : U64) : s.blind.invlpg l = (s.invlpg l).blind := by
  have hblind : s.blind.invlpg l = s.blind := by
    unfold Cpu.invlpg
    exact if_neg Bool.false_ne_true
  rw [hblind]
  unfold Cpu.invlpg
  dsimp only
  split <;> rfl

theorem noTlb_invlpg (s : Cpu) (l : U64) : (s.invlpg l).noTlb = s.noTlb := by
  unfold Cpu.invlpg
  dsimp only
  split <;> rfl

/-- INVLPG leaves no entry of its page, and every other entry as it is. -/
theorem invlpg_tlb (s : Cpu) {l l' : U64} (h : (s.invlpg l).Holds l') :
    l' >>> 12 ≠ l >>> 12 ∧ (s.invlpg l).tlb (Cpu.tlbIndex l') = s.tlb (Cpu.tlbIndex l') := by
  obtain ⟨hvalid, hpage⟩ := h
  unfold Cpu.invlpg at hvalid hpage ⊢
  dsimp only at hvalid hpage ⊢
  split at hvalid
  · rename_i hdrop
    obtain ⟨-, hown⟩ := Bool.and_eq_true_iff.mp hdrop
    rw [if_pos hdrop] at hpage ⊢
    have hne : Cpu.tlbIndex l' ≠ Cpu.tlbIndex l := fun heq => by
      simp [Cpu.setTlb, heq] at hvalid
    exact ⟨fun heq => hne (Cpu.tlbIndex_samePage heq), if_neg hne⟩
  · rename_i hdrop
    rw [if_neg hdrop] at hpage ⊢
    refine ⟨fun heq => hdrop ?_, rfl⟩
    rw [← Cpu.tlbIndex_samePage heq, hvalid, hpage, heq]
    exact Bool.and_eq_true_iff.mpr ⟨rfl, beq_self_eq_true _⟩

theorem stale_invlpg (h : s.stale ⊆ S) (l : U64) : (s.invlpg l).stale ⊆ S \ {l >>> 12} := by
  refine Cpu.stale_kept h (fun l' hl hv => ?_) ?_
  · obtain ⟨hne, hsame⟩ := invlpg_tlb s hl
    exact ⟨fun hin => hv ⟨hin, hne⟩, hsame⟩
  · unfold Cpu.invlpg
    dsimp only
    split <;> exact fun e he => he

/-- An operation on the state commutes with taking the TLB away. -/
theorem twin_modify {f : Cpu → Cpu} (h : ∀ s, f s.blind = (f s).blind)
    (hoff : ∀ s, (f s).noTlb = s.noTlb) (hst : s.Twin t) : (f s).Twin (f t) :=
  ⟨by rw [← h, hst.blind, h], (hoff t).trans hst.off⟩

theorem twin_movToCr (cr reg : U8) (hst : s.Twin t) :
    (X86Emu.movToCr cr reg s).2.Twin (X86Emu.movToCr cr reg t).2 := by
  refine twin_modify (f := fun s => (X86Emu.movToCr cr reg s).2) (fun s => ?_) (fun s => ?_) hst
  · refine blind_ite (blind_writeCr0 s _) ?_
    iterate 3 refine blind_ite rfl ?_
    rfl
  · unfold X86Emu.movToCr
    rw [modify_run]
    dsimp only
    split
    · exact noTlb_writeCr0 s _
    repeat' split
    all_goals rfl

theorem stale_movToCr (h : s.stale ⊆ S) (cr reg : U8) :
    (X86Emu.movToCr cr reg s).2.stale ⊆
      if cr = 3 ∨ cr = 4 ∨ Switches s (X86Emu.movToCr cr reg s).2 then ∅ else S := by
  have hother {t : Cpu} (htlb : t.tlb = s.tlb) (hno : ¬ (cr = 3 ∨ cr = 4 ∨ Switches s t))
      (hcaches : ∀ e, s.Caches e → t.Caches e) :
      t.stale ⊆ if cr = 3 ∨ cr = 4 ∨ Switches s t then ∅ else S := by
    rw [if_neg hno]
    exact Cpu.stale_kept h (fun _ _ hl => ⟨hl, by rw [htlb]⟩) hcaches
  have hsteady {t : Cpu} (h3 : cr ≠ 3) (h4 : cr ≠ 4) (hcr0 : t.cr0 = s.cr0)
      (hlong : t.longMode = s.longMode) : ¬ (cr = 3 ∨ cr = 4 ∨ Switches s t) :=
    not_or.mpr ⟨h3, not_or.mpr ⟨h4,
      not_or.mpr ⟨not_not.mpr (by rw [hcr0]), not_not.mpr hlong.symm⟩⟩⟩
  unfold X86Emu.movToCr
  rw [modify_run]
  dsimp only
  by_cases h0 : cr = 0
  · rw [if_pos h0]
    subst h0
    have hswitch (t : Cpu) : ((0 : U8) = 3 ∨ (0 : U8) = 4 ∨ Switches s t) ↔ Switches s t := by simp
    rw [if_congr (hswitch _) rfl rfl]
    exact stale_writeCr0 h _
  rw [if_neg h0]
  by_cases h2 : cr = 2
  · subst h2
    exact hother rfl (hsteady (by decide) (by decide) rfl rfl) fun _ he => he
  rw [if_neg h2]
  by_cases h3 : cr = 3
  · rw [if_pos h3]
    exact Cpu.stale_empty fun _ => rfl
  rw [if_neg h3]
  by_cases h4 : cr = 4
  · rw [if_pos h4]
    exact Cpu.stale_empty fun _ => rfl
  rw [if_neg h4]
  exact hother rfl (hsteady h3 h4 rfl rfl) fun _ he => he

/-- One operation that avoids the outdated entries gives the same with and without the TLB. -/
theorem twin_step {op : PagingOp} (hst : s.Twin t) (h : s.stale ⊆ S) (hop : op.Avoids S) :
    (op.run s).1 = (op.run t).1 ∧ (op.run s).2.Twin (op.run t).2 ∧
      (op.run s).2.stale ⊆ op.settle ownPage S s := by
  have hsame {f : Cpu → Cpu} (htlb : (f s).tlb = s.tlb)
      (hcaches : ∀ e, s.Caches e → (f s).Caches e) : (f s).stale ⊆ S :=
    Cpu.stale_kept h (fun _ _ hl => ⟨hl, by rw [htlb]⟩) hcaches
  cases op with
  | access l write =>
    obtain ⟨hphys, htwin, hfresh⟩ := Cpu.twin_access hst write false h hop
    exact ⟨congrArg some hphys, htwin, hfresh⟩
  | fetch l =>
    obtain ⟨hphys, htwin, hfresh⟩ := Cpu.twin_access hst false true h hop
    exact ⟨congrArg some hphys, htwin, hfresh⟩
  | writeCr0 v =>
    exact ⟨rfl, twin_modify (blind_writeCr0 · v) (noTlb_writeCr0 · v) hst, stale_writeCr0 h v⟩
  | movToCr cr reg => exact ⟨rfl, twin_movToCr cr reg hst, stale_movToCr h cr reg⟩
  | writeMsr index value =>
    exact ⟨rfl, twin_modify (blind_writeMsr · index value)
      (fun s => (kept_writeMsr s index value).off) hst, stale_writeMsr h index value⟩
  | invlpg l => exact ⟨rfl, twin_modify (blind_invlpg · l) (noTlb_invlpg · l) hst, stale_invlpg h l⟩
  | store f =>
    exact ⟨rfl, twin_modify (f := fun s => { s with mem := f s.mem }) (fun _ => rfl)
      (fun _ => rfl) hst, Cpu.stale_outdated h rfl⟩
  | setReg i v =>
    exact ⟨rfl, twin_modify (f := (·.setReg i v)) (fun _ => rfl) (fun _ => rfl) hst,
      hsame (f := (·.setReg i v)) rfl fun _ he => he⟩
  | setCs sel =>
    exact ⟨rfl, twin_modify (f := ({ · with cs := sel })) (fun _ => rfl) (fun _ => rfl) hst,
      hsame (f := ({ · with cs := sel })) rfl fun _ he => he⟩
  | deliver =>
    exact ⟨rfl, twin_modify (f := ({ · with pendingException := none })) (fun _ => rfl)
      (fun _ => rfl) hst, hsame (f := ({ · with pendingException := none })) rfl fun _ he => he⟩

/-- A run that avoids the outdated entries is the same with and without the TLB. -/
theorem twin_run {ops : List PagingOp} (hst : s.Twin t) (h : s.stale ⊆ S)
    (hops : Disciplined ownPage ops S s) : observe ops s = observe ops t := by
  induction ops generalizing s t S with
  | nil => rfl
  | cons op ops ih =>
    obtain ⟨hop, hrest⟩ := hops
    obtain ⟨hphys, htwin, hfresh⟩ := twin_step hst h hop
    have htail := ih htwin hfresh hrest
    have hexception : (op.run s).2.pendingException = (op.run t).2.pendingException :=
      (congrArg Cpu.pendingException htwin.blind : (op.run s).2.blind.pendingException = _)
    have hcr2 : (op.run s).2.cr2 = (op.run t).2.cr2 :=
      (congrArg Cpu.cr2 htwin.blind : (op.run s).2.blind.cr2 = _)
    have hmem : (op.run s).2.mem = (op.run t).2.mem :=
      (congrArg Cpu.mem htwin.blind : (op.run s).2.blind.mem = _)
    rw [observe, observe, hphys, hexception, hcr2, hmem, htail]

/-- A run that avoids the outdated entries is seen no differently with the TLB than without it. -/
theorem tlb_transparent (s : Cpu) (ops : List PagingOp)
    (hops : Disciplined ownPage ops s.stale s) :
    observe ops s = observe ops { s with noTlb := true } :=
  twin_run ⟨rfl, rfl⟩ (Set.Subset.refl _) hops

/-- A page directory at 0x1000 whose first entry maps 4 MiB at 0, and an empty TLB. -/
def largePage : Cpu :=
  let s := Cpu.withRam (2 ^ 16) Memory.segment_le 0
  { s with
    cr0 := s.cr0 ||| cr0Pg
    cr3 := 0x1000
    mem := s.mem.writeU32 0x1000 0x83 }

/-- The 4 MiB page is read at 0x2000, moved up by 4 MiB, named to INVLPG, and read again. -/
def remap (named : U64) : List PagingOp :=
  [access 0x2000 false, store (·.writeU32 0x1000 0x400083), invlpg named, access 0x2000 false]

theorem remap_disciplined {covers : Cpu → U64 → Set U64} {named : U64}
    (h : 2 ∈ covers ((store (·.writeU32 0x1000 0x400083)).run
      ((access 0x2000 false).run largePage).2).2 named) :
    Disciplined covers (remap named) largePage.stale largePage := by
  refine ⟨fun hin => ?_, trivial, trivial, fun hin => hin.2 h, trivial⟩
  exact Cpu.stale_empty (S := ∅) (fun _ => rfl) hin

theorem remap_ownPage :
    Disciplined ownPage (remap 0x2FFF) largePage.stale largePage ∧
      observe (remap 0x2FFF) largePage =
        observe (remap 0x2FFF) { largePage with noTlb := true } := by
  have hops : Disciplined ownPage (remap 0x2FFF) largePage.stale largePage :=
    remap_disciplined (show (2 : U64) = 0x2FFF >>> 12 by decide)
  exact ⟨hops, tlb_transparent largePage _ hops⟩

/-- An INVLPG elsewhere in the large page leaves the old translation in the TLB. -/
theorem remap_wholePage :
    Disciplined wholePage (remap 0) largePage.stale largePage ∧
      observe (remap 0) largePage ≠ observe (remap 0) { largePage with noTlb := true } := by
  constructor
  · exact remap_disciplined
      (.inr ⟨0x2000, [0x1000], by decide, by decide +kernel, by decide +kernel⟩)
  · intro heq
    have hphys : (observe (remap 0) largePage).map (·.phys) ≠
        (observe (remap 0) { largePage with noTlb := true }).map (·.phys) := by decide +kernel
    exact hphys (by rw [heq])

end PagingOp

end X86Emu
