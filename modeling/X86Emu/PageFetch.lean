import X86Emu.Decode
import X86Emu.StoreRun
import X86Emu.WalkMarks

/-!
# Fetching twice from a page

Translating a page once leaves the TLB and the accessed marks such that every other address of the
page translates to the same frame, and changes nothing more.
-/
namespace X86Emu

open StateRules

/-! ## Storing what is there -/

namespace Memory

variable {m : Memory} {a : U64}

theorem store_self {i n : Nat} {f : Nat → U8} (h : ∀ k < n, f k = m.data (i + k)) :
    m.store i n f = m := by
  have hdata : (fun j => if i ≤ j ∧ j < i + n then f (j - i) else m.data j) = m.data := by
    funext j
    split
    · rw [h (j - i) (by omega), Nat.add_sub_cancel' (by omega)]
    · rfl
  unfold store
  rw [hdata]

theorem setCell_self {i : Nat} : m.setCell i (m.vgaText i) = m := by
  have htext : (fun j => if j = i then m.vgaText i else m.vgaText j) = m.vgaText := by
    funext j
    split
    · rename_i h
      rw [h]
    · rfl
  unfold setCell
  rw [htext]

theorem setWidth_append {n k : Nat} (x : BitVec n) (y : BitVec k) : (x ++ y).setWidth k = y := by
  apply BitVec.eq_of_getLsbD_eq
  intro i hi
  rw [BitVec.getLsbD_setWidth, BitVec.getLsbD_append, if_pos hi, decide_eq_true hi, Bool.true_and]

theorem setWidth_append_shift {n k : Nat} (x : BitVec n) (y : BitVec k) :
    ((x ++ y) >>> k).setWidth n = x := by
  apply BitVec.eq_of_getLsbD_eq
  intro i hi
  rw [BitVec.getLsbD_setWidth, BitVec.getLsbD_ushiftRight, BitVec.getLsbD_append,
    if_neg (by omega), Nat.add_sub_cancel_left, decide_eq_true hi, Bool.true_and]

namespace Block

theorem readU16_vga (h : m.Block a 2) (hv : inVga a) :
    m.readU16 a = m.vgaText ((a.toNat - 0xB8000) / 2) := by
  have hadd : (a + 1).toNat = a.toNat + 1 := h.toNat_add (k := 1) (by omega)
  have hif : a ≥ vgaTextBase ∧ a + 1 < vgaTextBase + vgaTextSize := by
    rw [ge_vga_iff, lt_vga_iff, hadd]
    exact (h.vga_iff (by omega)).1.mpr hv
  rw [readU16, if_pos hif, sub_vga a hv]

theorem readU32_vga (h : m.Block a 4) (hv : inVga a) :
    m.readU32 a =
      m.vgaText ((a.toNat - 0xB8000) / 2 + 1) ++ m.vgaText ((a.toNat - 0xB8000) / 2) := by
  have hadd : (a + 3).toNat = a.toNat + 3 := h.toNat_add (k := 3) (by omega)
  have hif : a + 3 < vgaTextBase + vgaTextSize ∧ a + 3 ≥ vgaTextBase := by
    rw [ge_vga_iff, lt_vga_iff, hadd]
    exact (h.vga_iff (by omega)).2.1.mpr hv
  have hv2 := (h.window 2 (by omega)).mpr hv
  have h2 := h.toNat_add (k := 2) (by omega)
  have hhi : m.readU16 (a + 2) = m.vgaText ((a.toNat - 0xB8000) / 2 + 1) := by
    have hge := hv.1
    refine ((h.drop (k := 2) (by omega) (by omega)).readU16_vga hv2).trans ?_
    rw [h2, show (a.toNat + 2 - 0xB8000) / 2 = (a.toNat - 0xB8000) / 2 + 1 by omega]
  rw [readU32, if_pos hif, hhi, (h.mono (k := 2) (by omega)).readU16_vga hv]

theorem writeU32_self (h : m.Block a 4) : m.writeU32 a (m.readU32 a) = m := by
  by_cases hv : inVga a
  · rw [h.writeU32_vga hv, h.readU32_vga hv]
    generalize (a.toNat - 0xB8000) / 2 = i
    have hlo : u16 (m.vgaText (i + 1) ++ m.vgaText i) = m.vgaText i := setWidth_append _ _
    have hhi : u16 ((m.vgaText (i + 1) ++ m.vgaText i) >>> 16) = m.vgaText (i + 1) :=
      setWidth_append_shift _ _
    rw [hlo, hhi, setCell_self, setCell_self]
  · rw [h.writeU32_ram hv]
    cases hs : m.slot a with
    | none => rfl
    | some i =>
      refine store_self fun k hk => ?_
      rw [h.byteOf_readU32 hk, h.readU8_ram hv hs hk]

theorem writeU64_self (h : m.Block a 8) : m.writeU64 a (m.readU64 a) = m := by
  by_cases hv : inVga a
  · have hadd : (a + 7).toNat = a.toNat + 7 := h.toNat_add (k := 7) (by omega)
    have hif : a + 7 ≥ vgaTextBase ∧ a < vgaTextBase + vgaTextSize := by
      rw [ge_vga_iff, lt_vga_iff, hadd]
      exact (h.vga_iff (by omega)).2.2.mpr hv
    have hword : m.readU64 a = le64 (m.readU32 a) (m.readU32 (a + 4)) := by
      rw [readU64, if_pos hif]
    have hlo : u32 (le64 (m.readU32 a) (m.readU32 (a + 4))) = m.readU32 a := setWidth_append _ _
    have hhi : u32 (le64 (m.readU32 a) (m.readU32 (a + 4)) >>> 32) = m.readU32 (a + 4) :=
      setWidth_append_shift _ _
    rw [h.writeU64_vga hv, hword, hlo, hhi, (h.mono (k := 4) (by omega)).writeU32_self]
    exact (h.drop (k := 4) (by omega) (by omega)).writeU32_self
  · rw [h.writeU64_ram hv]
    cases hs : m.slot a with
    | none => rfl
    | some i =>
      refine store_self fun k hk => ?_
      rw [h.byteOf_readU64 hk, h.readU8_ram hv hs hk]

end Block

end Memory
/-! ## Marking what is marked -/

namespace PagingMode

variable {mode : PagingMode} {mem : Memory}

theorem or_bit_self {n k : Nat} {v : BitVec n} (h : v.getLsbD k = true) :
    v ||| (1 : BitVec n) <<< k = v := by
  apply BitVec.eq_of_getLsbD_eq
  intro i hi
  rw [BitVec.getLsbD_or]
  by_cases hik : i = k
  · rw [hik, h, Bool.true_or]
  · have hbit : ((1 : BitVec n) <<< k).getLsbD i = false := by
      simp [hi]
      omega
    rw [hbit, Bool.or_false]

/-- Setting bits of an entry that are set leaves memory as it is. -/
theorem markEntry_absorbed (hmode : mode ≠ off) {a bits : U64} (ha : mode.IsEntry a)
    (h : mode.readEntry mem a ||| bits = mode.readEntry mem a) :
    markEntry mem mode.entryBytes a bits = mem := by
  have hblock := ha.block hmode mem
  cases mode with
  | off => exact absurd rfl hmode
  | legacy =>
    rw [readEntry, if_pos rfl] at h
    have hword : mem.readU32 a ||| u32 bits = mem.readU32 a := by
      have hlow := congrArg u32 h
      rwa [u32, BitVec.setWidth_or, ← u32, u32_u64] at hlow
    rw [markEntry, if_pos (by rfl), hword]
    exact hblock.writeU32_self
  | pae | long =>
    rw [readEntry, if_neg (by decide)] at h
    rw [markEntry, if_neg (by decide), h]
    exact hblock.writeU64_self

/-- Marking a walk that is marked leaves memory as it is. -/
theorem markWalk_absorbed (hmode : mode ≠ off) {walk : List U64} {write : Bool}
    (hwalk : ∀ a ∈ walk, mode.IsEntry a)
    (haccessed : ∀ a ∈ walk, test (mode.readEntry mem a) Pte.a = true)
    (hdirty : write = true → ∀ a, walk.getLast? = some a →
      test (mode.readEntry mem a) Pte.d = true) :
    markWalk mode.entryBytes write walk mem = mem := by
  have hset {v : U64} {k : Nat} (hk : k < 64) (h : test v ((1 : U64) <<< k) = true) :
      v ||| (1 : U64) <<< k = v := or_bit_self (by rwa [test_bit _ hk] at h)
  induction walk with
  | nil => rfl
  | cons e rest ih =>
    have ha : mode.readEntry mem e ||| Pte.a = mode.readEntry mem e :=
      hset (by decide) (haccessed e (List.mem_cons_self ..))
    have he := hwalk e (List.mem_cons_self ..)
    cases rest with
    | nil =>
      refine markEntry_absorbed hmode he ?_
      rw [← BitVec.or_assoc, ha]
      cases write with
      | true => exact hset (by decide) (hdirty rfl e rfl)
      | false => exact BitVec.or_zero
    | cons e' rest =>
      rw [markWalk, markEntry_absorbed hmode he ha]
      · exact ih (fun a ha => hwalk a (List.mem_cons_of_mem e ha))
          (fun a ha => haccessed a (List.mem_cons_of_mem e ha)) hdirty
      · exact nofun

end PagingMode

/-! ## Translating a page twice -/

namespace Cpu

variable {s : Cpu} {l : U64}

/-- A fault recorded once is not recorded again. -/
theorem raise_raise (s : Cpu) (f g : Fault) : (s.raise f).raise g = s.raise f := by
  cases hp : s.pendingException with
  | none => simp [raise, hp]
  | some e => simp [raise, hp]

/-- What the TLB holds for a page. -/
def TlbHit (s : Cpu) (l : U64) : Prop :=
  ((s.tlb (tlbIndex l)).valid && (s.tlb (tlbIndex l)).vpage == l >>> 12 && !s.noTlb) = true

instance (s : Cpu) (l : U64) : Decidable (s.TlbHit l) := inferInstanceAs (Decidable (_ = true))

/-- An address is translated at all: canonical, and paging on. -/
structure Walked (s : Cpu) (l : U64) : Prop where
  canonical : (s.longMode && !X86Emu.canonical l) = false
  paging : test s.cr0 cr0Pg = true

theorem fetch_hit (hw : s.Walked l) (hhit : s.TlbHit l) :
    applyPagingFetch l s =
      let e := s.tlb (tlbIndex l)
      if s.accessAllowed e.writable e.user e.exec false (s.cpl == 3) true then
        (e.ppage <<< 12 ||| l &&& 0xFFF, s)
      else (unbacked, s.raisePageFault l true false (s.cpl == 3) true) := by
  unfold TlbHit at hhit
  rw [applyPagingFetch, applyPagingInner, if_neg (by simp [hw.canonical]),
    if_neg (by simp [hw.paging])]
  dsimp only
  rw [if_pos hhit]
  rfl

/-- The state a granted walk leaves behind. -/
def filled (s : Cpu) (l : U64) (map : Mapping) : Cpu :=
  (s.setTlb (tlbIndex l)
    { valid := true, vpage := l >>> 12, ppage := map.phys >>> 12, writable := map.writable
      user := map.user, exec := map.exec, dirtied := false }).setAccessedBits map false

theorem fetch_unmapped (hw : s.Walked l) (hmiss : ¬ s.TlbHit l) (hmap : s.walkOf l = none) :
    applyPagingFetch l s = (unbacked, s.raisePageFault l false false (s.cpl == 3) true) := by
  unfold TlbHit at hmiss
  rw [applyPagingFetch, applyPagingInner, if_neg (by simp [hw.canonical]),
    if_neg (by simp [hw.paging])]
  dsimp only
  rw [if_neg hmiss, hmap]

theorem fetch_walked (hw : s.Walked l) (hmiss : ¬ s.TlbHit l) {map : Mapping}
    (hmap : s.walkOf l = some map) :
    applyPagingFetch l s =
      if s.accessAllowed map.writable map.user map.exec false (s.cpl == 3) true then
        (map.phys, s.filled l map)
      else (unbacked, s.raisePageFault l true false (s.cpl == 3) true) := by
  unfold TlbHit at hmiss
  rw [applyPagingFetch, applyPagingInner, if_neg (by simp [hw.canonical]),
    if_neg (by simp [hw.paging])]
  dsimp only
  rw [if_neg hmiss, hmap]
  dsimp only
  cases s.accessAllowed map.writable map.user map.exec false (s.cpl == 3) true <;> rfl

theorem canonical_samePage {l' : U64} (h : l' >>> 12 = l >>> 12) :
    X86Emu.canonical l' = X86Emu.canonical l := by
  have hshift (x : U64) : x >>> 47 = (x >>> 12) >>> 35 := by
    rw [← BitVec.shiftRight_add]
  rw [X86Emu.canonical, X86Emu.canonical, hshift, hshift, h]

theorem tlbIndex_samePage {l' : U64} (h : l' >>> 12 = l >>> 12) : tlbIndex l' = tlbIndex l := by
  rw [tlbIndex, tlbIndex, h]

/-- The state with the record of its faults replaced. -/
def withFaults (s : Cpu) (e : Option (U8 × Option U32)) (cr2 : U64) (log : List Fault) : Cpu :=
  { s with pendingException := e, cr2 := cr2, faultLog := log }

theorem raise_eq (s : Cpu) (f : Fault) : ∃ e cr2 log, s.raise f = s.withFaults e cr2 log := by
  unfold raise
  split
  · exact ⟨s.pendingException, s.cr2, s.faultLog, rfl⟩
  · exact ⟨_, _, _, rfl⟩

theorem frame_of_or_offset (q l : U64) : (q >>> 12 <<< 12 ||| l &&& 0xFFF) >>> 12 = q >>> 12 := by
  apply BitVec.eq_of_getLsbD_eq
  intro i hi
  by_cases h64 : 12 + i < 64
  · simp only [BitVec.getLsbD_or, BitVec.getLsbD_and, BitVec.getLsbD_shiftLeft,
      BitVec.getLsbD_ushiftRight, getLsbD_offset _ h64]
    simp [h64]
  · simp only [BitVec.getLsbD_ushiftRight, BitVec.getLsbD_of_ge _ _ (Nat.le_of_not_lt h64)]

/-- A walk's physical address is in the page frame of the address walked. -/
theorem phys_of_walk (hpg : test s.cr0 cr0Pg = true) {map : Mapping}
    (hmap : s.walkOf l = some map) : map.phys = (map.phys >>> 12 <<< 12 ||| l &&& 0xFFF) := by
  have hself := walkOf_samePage hpg (rfl : l >>> 12 = l >>> 12)
  rw [hmap] at hself
  exact congrArg Mapping.phys (Option.some.inj hself)

variable {l' : U64}

theorem Walked.samePage (hw : s.Walked l) (hl : l' >>> 12 = l >>> 12) : s.Walked l' :=
  ⟨by rw [canonical_samePage hl]; exact hw.canonical, hw.paging⟩

theorem tlbHit_samePage (hl : l' >>> 12 = l >>> 12) : s.TlbHit l' ↔ s.TlbHit l := by
  rw [TlbHit, TlbHit, tlbIndex_samePage hl, hl]

/-- The fault a fetch from a linear address raises, if it is refused. -/
def fetchRefusal (s : Cpu) (l : U64) : Option Fault :=
  if s.longMode && !X86Emu.canonical l then some ⟨0x0D, some 0, s.cr2⟩
  else if !test s.cr0 cr0Pg then none
  else if s.TlbHit l then
    let e := s.tlb (tlbIndex l)
    if s.accessAllowed e.writable e.user e.exec false (s.cpl == 3) true then none
    else some ⟨0x0E, some (s.pageFaultCode true false (s.cpl == 3) true), l⟩
  else
    match s.walkOf l with
    | none => some ⟨0x0E, some (s.pageFaultCode false false (s.cpl == 3) true), l⟩
    | some map =>
      if s.accessAllowed map.writable map.user map.exec false (s.cpl == 3) true then none
      else some ⟨0x0E, some (s.pageFaultCode true false (s.cpl == 3) true), l⟩

theorem fetch_refused {f : Fault} (h : s.fetchRefusal l = some f) :
    applyPagingFetch l s = (unbacked, s.raise f) := by
  unfold fetchRefusal at h
  split at h
  · rename_i hc
    cases h
    rw [applyPagingFetch, applyPagingInner, if_pos hc]
    rfl
  rename_i hc
  split at h
  · cases h
  rename_i hpg
  have hw : s.Walked l := ⟨Bool.eq_false_iff.mpr hc, by simpa using hpg⟩
  split at h
  · rename_i hhit
    dsimp only at h
    split at h
    · cases h
    · rename_i hno
      cases h
      rw [fetch_hit hw hhit]
      exact if_neg hno
  · rename_i hmiss
    split at h
    · rename_i hmap
      cases h
      exact fetch_unmapped hw hmiss hmap
    · rename_i map hmap
      split at h
      · cases h
      · rename_i hno
        cases h
        rw [fetch_walked hw hmiss hmap]
        exact if_neg hno

/-- Whether a fetch is refused is the same all over a page, whatever fault is pending. -/
theorem fetchRefusal_isSome (hl : l' >>> 12 = l >>> 12) (s : Cpu) (e : Option (U8 × Option U32))
    (cr2 : U64) (log : List Fault) :
    ((s.withFaults e cr2 log).fetchRefusal l').isSome = (s.fetchRefusal l).isSome := by
  have hhit : (s.withFaults e cr2 log).TlbHit l' ↔ s.TlbHit l := tlbHit_samePage hl
  have hidx := tlbIndex_samePage hl
  have hguard (b : Bool) (f g : Fault) : (if b then none else some f : Option Fault).isSome =
      (if b then none else some g : Option Fault).isSome := by cases b <;> rfl
  unfold fetchRefusal
  rw [canonical_samePage hl, hidx]
  show (if s.longMode && !X86Emu.canonical l then some _ else
    if !test s.cr0 cr0Pg then none else if (s.withFaults e cr2 log).TlbHit l' then _ else
      match s.walkOf l' with | none => _ | some _ => _ : Option Fault).isSome = _
  split
  · rfl
  split
  · rfl
  rename_i hpg
  have hwalk := walkOf_samePage (s := s) (l := l) (by simpa using hpg) hl
  by_cases h : s.TlbHit l
  · rw [if_pos (hhit.mpr h), if_pos h]
    exact hguard _ _ _
  · rw [if_neg h, if_neg (hhit.not.mpr h), hwalk]
    cases s.walkOf l with
    | none => rfl
    | some map => exact hguard _ _ _

/-- A fetch from a page whose walk is cached or marked finds it so, whichever the TLB serves. -/
theorem refetch_filled (hw : s.Walked l) (hl : l' >>> 12 = l >>> 12)
    {map : Mapping} (hmap : s.walkOf l = some map)
    (hallowed : s.accessAllowed map.writable map.user map.exec false (s.cpl == 3) true = true) :
    applyPagingFetch l' (s.filled l map) =
      (map.phys >>> 12 <<< 12 ||| l' &&& 0xFFF, s.filled l map) := by
  have hmode := pagingMode_ne_off hw.paging
  have hentry : ∀ a ∈ map.walk, s.pagingMode.IsEntry a :=
    fun a ha => isEntry_of_walkOf hw.paging hmap ha
  have hbytes : map.entryBytes = s.pagingMode.entryBytes := PagingMode.entryBytes_walk hmode hmap
  have hmark : s.mem.Marked (markWalk map.entryBytes false map.walk s.mem)
      (marks map.walk false) := by
    rw [hbytes]
    exact PagingMode.marked_markWalk hmode false hentry s.mem
  have hw' : (s.filled l map).Walked l' := ⟨(hw.samePage hl).canonical, hw.paging⟩
  have hentryAt : (s.filled l map).tlb (tlbIndex l') =
      { valid := true, vpage := l >>> 12, ppage := map.phys >>> 12, writable := map.writable
        user := map.user, exec := map.exec, dirtied := false } := by
    rw [tlbIndex_samePage hl]
    exact if_pos rfl
  by_cases hhit : (s.filled l map).TlbHit l'
  · rw [fetch_hit hw' hhit, hentryAt]
    exact if_pos hallowed
  · -- the TLB is not used: the walk finds the marks it left
    have hwalk : (s.filled l map).walkOf l' = some (PagingMode.served map l') := by
      refine (walkOf_marked hw.paging hentry hmark l').trans ?_
      rw [walkOf_samePage hw.paging hl, hmap]
      rfl
    rw [fetch_walked hw' hhit hwalk]
    refine (if_pos hallowed).trans (Prod.ext rfl ?_)
    have hphys : (PagingMode.served map l').phys >>> 12 = map.phys >>> 12 :=
      frame_of_or_offset _ _
    have hmem : markWalk map.entryBytes false map.walk (s.filled l map).mem =
        (s.filled l map).mem := by
      rw [hbytes]
      exact PagingMode.markWalk_absorbed hmode hentry
        (fun a ha => (test_walk_marked hw.paging hmap hmark ha).1) nofun
    have htlb (e : TlbEntry) (he : (s.filled l map).tlb (tlbIndex l') = e) :
        (fun j => if j = tlbIndex l' then e else (s.filled l map).tlb j) =
          (s.filled l map).tlb := by
      funext j
      split
      · rename_i h
        rw [h, he]
      · rfl
    show ({ s.filled l map with
        tlb := fun j => if j = tlbIndex l' then
            { valid := true, vpage := l' >>> 12, ppage := (PagingMode.served map l').phys >>> 12
              writable := map.writable, user := map.user, exec := map.exec, dirtied := false }
          else (s.filled l map).tlb j
        mem := markWalk map.entryBytes false map.walk (s.filled l map).mem } : Cpu) =
      s.filled l map
    rw [hphys, hl, htlb _ hentryAt, hmem]

/-- A refused page is refused again, and nothing more is recorded. -/
theorem refetch_refused (hl : l' >>> 12 = l >>> 12) {f : Fault} (h : s.fetchRefusal l = some f) :
    applyPagingFetch l' (s.raise f) = (unbacked, s.raise f) := by
  obtain ⟨e, cr2, log, heq⟩ := s.raise_eq f
  have hsome := fetchRefusal_isSome hl s e cr2 log
  rw [h, Option.isSome_some, Option.isSome_iff_exists] at hsome
  obtain ⟨g, hg⟩ := hsome
  rw [heq, fetch_refused hg, ← heq, raise_raise]

/-- A granted fetch is served by what is there all over the page, or else fills the TLB. -/
theorem fetch_granted (h : s.fetchRefusal l = none) :
    (∃ q : U64, ∀ x : U64, x >>> 12 = l >>> 12 →
      applyPagingFetch x s = (q <<< 12 ||| x &&& 0xFFF, s)) ∨
    ∃ map, s.Walked l ∧ s.walkOf l = some map ∧
      s.accessAllowed map.writable map.user map.exec false (s.cpl == 3) true = true ∧
      applyPagingFetch l s = (map.phys, s.filled l map) := by
  unfold fetchRefusal at h
  split at h
  · cases h
  rename_i hc
  split at h
  · rename_i hpg
    refine .inl ⟨l >>> 12, fun x hx => ?_⟩
    have hself : x = l >>> 12 <<< 12 ||| x &&& 0xFFF := by
      rw [← hx]
      exact (onPage_self rfl).symm
    rw [applyPagingFetch, applyPagingInner, if_neg (by rw [canonical_samePage hx]; exact hc),
      if_pos hpg, ← hself]
  rename_i hpg
  have hw : s.Walked l := ⟨Bool.eq_false_iff.mpr hc, by simpa using hpg⟩
  split at h
  · rename_i hhit
    dsimp only at h
    split at h
    · rename_i hallowed
      refine .inl ⟨(s.tlb (tlbIndex l)).ppage, fun x hx => ?_⟩
      rw [fetch_hit (hw.samePage hx) ((tlbHit_samePage hx).mpr hhit), tlbIndex_samePage hx]
      exact if_pos hallowed
    · cases h
  · rename_i hmiss
    split at h
    · cases h
    · rename_i map hmap
      split at h
      · rename_i hallowed
        refine .inr ⟨map, hw, hmap, hallowed, ?_⟩
        rw [fetch_walked hw hmiss hmap, if_pos hallowed]
      · cases h

/-- A granted page is found again in the same frame, and nothing changes. -/
theorem refetch_granted (hl : l' >>> 12 = l >>> 12) (h : s.fetchRefusal l = none) :
    ∃ q : U64, (applyPagingFetch l s).1 = (q <<< 12 ||| l &&& 0xFFF) ∧
      applyPagingFetch l' (applyPagingFetch l s).2 =
        (q <<< 12 ||| l' &&& 0xFFF, (applyPagingFetch l s).2) := by
  rcases fetch_granted h with ⟨q, hq⟩ | ⟨map, hw, hmap, hallowed, hfetch⟩
  · rw [hq l rfl]
    exact ⟨q, rfl, hq l' hl⟩
  · rw [hfetch]
    exact ⟨_, phys_of_walk hw.paging hmap, refetch_filled hw hl hmap hallowed⟩

/-- A granted fetch records no fault. -/
theorem granted_quiet (h : s.fetchRefusal l = none) :
    (applyPagingFetch l s).2.pendingException = s.pendingException ∧
      (applyPagingFetch l s).2.cr2 = s.cr2 := by
  rcases fetch_granted h with ⟨q, hq⟩ | ⟨map, -, -, -, hfetch⟩
  · rw [hq l rfl]
    exact ⟨rfl, rfl⟩
  · rw [hfetch]
    exact ⟨rfl, rfl⟩

/-! ## What a fetch does not read -/

/-- What the prefixes of an instruction have set. -/
structure Prefixes where
  opsize : Bool
  addrsize : Bool
  addr64 : Bool
  segOverride : Option SegReg
  rexPresent : Bool
  rexW : Bool
  rexR : Bool
  rexX : Bool
  rexB : Bool
  ssePfx : Option U8

def prefixState (s : Cpu) : Prefixes :=
  ⟨s.opsize, s.addrsize, s.addr64, s.segOverride, s.rexPresent, s.rexW, s.rexR, s.rexX, s.rexB,
    s.ssePfx⟩

/-- The state with other prefixes and instruction pointers and another fetch cache. -/
def withCursor (x : Prefixes) (ip : U16) (rip phys linear : U64) (valid : Bool) (s : Cpu) : Cpu :=
  { s with
    opsize := x.opsize, addrsize := x.addrsize, addr64 := x.addr64, segOverride := x.segOverride
    rexPresent := x.rexPresent, rexW := x.rexW, rexR := x.rexR, rexX := x.rexX, rexB := x.rexB
    ssePfx := x.ssePfx, ip := ip, rip := rip, physIpCache := phys, physIpLinear := linear
    physIpValid := valid }

theorem commutes_fetch (x : Prefixes) (ip : U16) (rip phys linear : U64) (valid : Bool) (l : U64) :
    Commutes (withCursor x ip rip phys linear valid) (applyPagingFetch l) := by
  intro s
  have hraise (f : Fault) : (s.withCursor x ip rip phys linear valid).raise f =
      (s.raise f).withCursor x ip rip phys linear valid := by
    unfold raise
    rw [show (s.withCursor x ip rip phys linear valid).pendingException =
      s.pendingException from rfl]
    split <;> rfl
  have hgp : (s.withCursor x ip rip phys linear valid).raiseGp 0 =
      (s.raiseGp 0).withCursor x ip rip phys linear valid := hraise _
  have hpf (p user : Bool) :
      (s.withCursor x ip rip phys linear valid).raisePageFault l p false user true =
        (s.raisePageFault l p false user true).withCursor x ip rip phys linear valid := hraise _
  have hlong : (s.withCursor x ip rip phys linear valid).longMode = s.longMode := rfl
  have hcr0 : (s.withCursor x ip rip phys linear valid).cr0 = s.cr0 := rfl
  have htlb : (s.withCursor x ip rip phys linear valid).tlb = s.tlb := rfl
  have hno : (s.withCursor x ip rip phys linear valid).noTlb = s.noTlb := rfl
  have hallow : (s.withCursor x ip rip phys linear valid).accessAllowed = s.accessAllowed := rfl
  have hwalk : (s.withCursor x ip rip phys linear valid).walkOf l = s.walkOf l := rfl
  have hcpl : (s.withCursor x ip rip phys linear valid).cpl = s.cpl := rfl
  unfold applyPagingFetch applyPagingInner
  simp only [hlong, hcr0, htlb, hno, hallow, hwalk, hcpl, hgp, hpf]
  split
  · rfl
  split
  · rfl
  split
  · split <;> rfl
  · split
    · split <;> rfl
    · rfl

/-- What a fetch may change: the TLB, the accessed marks and the record of faults. -/
def fetched (s : Cpu) (tlb : Fin 256 → TlbEntry) (mem : Memory) (e : Option (U8 × Option U32))
    (cr2 : U64) (log : List Fault) : Cpu :=
  { s with tlb := tlb, mem := mem, pendingException := e, cr2 := cr2, faultLog := log }

theorem fetch_changes (l : U64) (s : Cpu) :
    ∃ tlb mem e cr2 log, (applyPagingFetch l s).2 = s.fetched tlb mem e cr2 log := by
  have hraise (f : Fault) : ∃ tlb mem e cr2 log, s.raise f = s.fetched tlb mem e cr2 log := by
    obtain ⟨e, cr2, log, h⟩ := s.raise_eq f
    exact ⟨s.tlb, s.mem, e, cr2, log, h⟩
  unfold applyPagingFetch applyPagingInner
  split
  · exact hraise _
  split
  · exact ⟨s.tlb, s.mem, s.pendingException, s.cr2, s.faultLog, rfl⟩
  dsimp only
  split
  · split
    · exact ⟨s.tlb, s.mem, s.pendingException, s.cr2, s.faultLog, rfl⟩
    · exact hraise _
  · split
    · split
      · exact hraise _
      · exact ⟨_, _, s.pendingException, s.cr2, s.faultLog, rfl⟩
    · exact hraise _

/-- The state with another fetch cache. -/
def withCache (phys linear : U64) (valid : Bool) (s : Cpu) : Cpu :=
  s.withCursor s.prefixState s.ip s.rip phys linear valid

theorem commutes_fetch_cache (phys linear : U64) (valid : Bool) (l : U64) :
    Commutes (withCache phys linear valid) (applyPagingFetch l) := by
  intro s
  refine (commutes_fetch s.prefixState s.ip s.rip phys linear valid l s).trans (Prod.ext rfl ?_)
  obtain ⟨tlb, mem, e, cr2, log, h⟩ := fetch_changes l s
  rw [h]
  rfl

/-! ## A page settled by its first fetch -/

/-- Every address from `lin` to the end of its page translates as it stands, to the byte as far
after `phys`. -/
def Settled (s : Cpu) (lin phys : U64) : Prop :=
  ∀ k : Nat, lin.toNat % 4096 + k < 4096 →
    ∃ p, applyPagingFetch (lin + BitVec.ofNat 64 k) s = (p, s) ∧
      s.mem.readU8Raw p = s.mem.readU8Raw (phys + BitVec.ofNat 64 k)

variable {lin phys : U64}

theorem Settled.withCursor (h : s.Settled lin phys) (x : Prefixes) (ip : U16) (rip p a : U64)
    (valid : Bool) : (s.withCursor x ip rip p a valid).Settled lin phys := by
  intro k hk
  obtain ⟨q, hq, hbyte⟩ := h k hk
  refine ⟨q, ?_, hbyte⟩
  rw [commutes_fetch x ip rip p a valid _ s, hq]

theorem Settled.next (h : s.Settled lin phys) (hlin : lin.toNat % 4096 ≠ 4095) :
    s.Settled (lin + 1) (phys + 1) := by
  have h1 : (1 : U64).toNat = 1 := rfl
  have hone (x : U64) (k : Nat) : x + 1 + BitVec.ofNat 64 k = x + BitVec.ofNat 64 (k + 1) := by
    apply BitVec.eq_of_toNat_eq
    simp only [BitVec.toNat_add, BitVec.toNat_ofNat, h1]
    omega
  have hoff : (lin + 1).toNat % 4096 = lin.toNat % 4096 + 1 := by
    rw [BitVec.toNat_add, h1]
    omega
  intro k hk
  rw [hone, hone]
  exact h (k + 1) (by omega)

theorem readU8Raw_above (m : Memory) {a : U64} (h : unbacked.toNat ≤ a.toNat) :
    m.readU8Raw a = 0xFF := by
  have hu : unbacked.toNat = 2 ^ 63 - 1 := rfl
  cases hs : m.slot a with
  | none =>
    unfold Memory.readU8Raw
    rw [hs]
  | some i =>
    have hsize := m.ramSize_le
    have hlow := m.lowSize_le
    have hbase : highRamBase = 2 ^ 32 := rfl
    rcases (m.slot_eq_some_iff a).mp hs with h' | h' <;> omega

theorem or_offset (q l : U64) :
    (q <<< 12 ||| l &&& 0xFFF : U64) = (q <<< 12 : U64) + (l &&& 0xFFF : U64) := by
  refine (BitVec.add_eq_or_of_and_eq_zero _ _ ?_).symm
  apply BitVec.eq_of_getLsbD_eq
  intro i hi
  rw [BitVec.getLsbD_and, BitVec.getLsbD_and, BitVec.getLsbD_shiftLeft, getLsbD_offset i hi]
  by_cases h12 : i < 12
  · simp [h12]
  · simp [h12]

theorem page_add {l : U64} {k : Nat} (h : l.toNat % 4096 + k < 4096) :
    (l + BitVec.ofNat 64 k) >>> 12 = l >>> 12 := by
  have hlt := l.isLt
  apply BitVec.eq_of_toNat_eq
  rw [BitVec.toNat_ushiftRight, BitVec.toNat_ushiftRight, Nat.shiftRight_eq_div_pow,
    Nat.shiftRight_eq_div_pow, BitVec.toNat_add, BitVec.toNat_ofNat]
  omega

theorem onPage_add (q : U64) {l : U64} {k : Nat} (h : l.toNat % 4096 + k < 4096) :
    (q <<< 12 ||| (l + BitVec.ofNat 64 k) &&& 0xFFF : U64) =
      (q <<< 12 ||| l &&& 0xFFF) + BitVec.ofNat 64 k := by
  have hlt := l.isLt
  rw [or_offset, or_offset, BitVec.add_assoc]
  congr 1
  apply BitVec.eq_of_toNat_eq
  rw [BitVec.toNat_add, offset_toNat, offset_toNat, BitVec.toNat_add, BitVec.toNat_ofNat]
  omega

/-- The first fetch from a page settles the rest of it. -/
theorem settled_fetch (l : U64) (s : Cpu) :
    (applyPagingFetch l s).2.Settled l (applyPagingFetch l s).1 := by
  intro k hk
  have hpage := page_add hk
  cases h : s.fetchRefusal l with
  | some f =>
    rw [fetch_refused h]
    refine ⟨unbacked, refetch_refused hpage h, ?_⟩
    have hu : unbacked.toNat = 2 ^ 63 - 1 := rfl
    have hsum : (unbacked + BitVec.ofNat 64 k).toNat = unbacked.toNat + k := by
      rw [BitVec.toNat_add, BitVec.toNat_ofNat]
      omega
    rw [readU8Raw_above _ (Nat.le_refl _), readU8Raw_above _ (Nat.le.intro hsum.symm)]
  | none =>
    obtain ⟨q, hq, hagain⟩ := refetch_granted hpage h
    refine ⟨_, hagain, congrArg _ ?_⟩
    rw [hq, onPage_add q hk]

end Cpu

end X86Emu
