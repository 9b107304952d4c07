import X86Emu.UserMode
import X86Emu.MemoryFacts

/-!
# Runs that store where they may

A run that stores only where the paging unit granted a store, at the privilege level and control
registers it started with. Every byte of RAM it changes is an accessed or dirty bit of a walk, the
translation of a writable linear address, or past the end of a page a store started in.
-/
namespace X86Emu

open StateRules

/-! ## Bytes a write reaches -/

namespace Memory

/-- Byte `i` of the backing store lies within the `n` bytes from address `a`, counted from the place
of any of them. -/
def Reaches (m : Memory) (a : U64) (n i : Nat) : Prop :=
  ∃ b j x, b + j < n ∧ m.slot (a + BitVec.ofNat 64 b) = some x ∧ i = x + j

/-- The layout is as it was, and so is every byte that `n` bytes from `a` do not reach. -/
structure Spot (a : U64) (n : Nat) (m m' : Memory) : Prop where
  slots : ∀ b, m'.slot b = m.slot b
  bytes : ∀ i, m'.data i ≠ m.data i → m.Reaches a n i

variable {m m' : Memory} {a : U64}

theorem Reaches.congr {n i : Nat} (hs : ∀ b, m'.slot b = m.slot b) (h : m'.Reaches a n i) :
    m.Reaches a n i := by
  obtain ⟨b, j, x, hb, hx, hi⟩ := h
  exact ⟨b, j, x, hb, hs _ ▸ hx, hi⟩

theorem Reaches.offset {n i k N : Nat} (hk : k + n ≤ N)
    (h : m.Reaches (a + BitVec.ofNat 64 k) n i) : m.Reaches a N i := by
  obtain ⟨b, j, x, hb, hx, hi⟩ := h
  refine ⟨k + b, j, x, by omega, ?_, hi⟩
  rw [BitVec.ofNat_add, ← BitVec.add_assoc]
  exact hx

namespace Spot

theorem refl (a : U64) (n : Nat) (m : Memory) : Spot a n m m :=
  ⟨fun _ => rfl, fun _ h => absurd rfl h⟩

theorem trans {n : Nat} {m'' : Memory} (h : Spot a n m m') (k : Spot a n m' m'') :
    Spot a n m m'' where
  slots b := (k.slots b).trans (h.slots b)
  bytes i hi := by
    by_cases he : m'.data i = m.data i
    · exact (k.bytes i (he ▸ hi)).congr h.slots
    · exact h.bytes i he

theorem within {n k N : Nat} (hk : k + n ≤ N) (h : Spot (a + BitVec.ofNat 64 k) n m m') :
    Spot a N m m' :=
  ⟨h.slots, fun i hi => (h.bytes i hi).offset hk⟩

theorem start {n N : Nat} (hn : n ≤ N) (h : Spot a n m m') : Spot a N m m' := by
  have h0 : Spot (a + BitVec.ofNat 64 0) n m m' := (BitVec.add_zero a).symm ▸ h
  exact h0.within (by omega)

theorem store {x n : Nat} (hx : m.slot a = some x) (v : Nat → U8) :
    Spot a n m (m.store x n v) where
  slots _ := rfl
  bytes i hi := by
    have hin : x ≤ i ∧ i < x + n := by
      by_contra hout
      exact hi (if_neg hout)
    refine ⟨0, i - x, x, by omega, ?_, by omega⟩
    rw [BitVec.add_zero]
    exact hx

theorem setCell (k : Nat) (v : U16) (n : Nat) : Spot a n m (m.setCell k v) :=
  ⟨fun _ => rfl, fun _ h => absurd rfl h⟩

end Spot

theorem spot_writeU8 (m : Memory) (a : U64) (v : U8) : Spot a 1 m (m.writeU8 a v) := by
  unfold writeU8
  split
  · exact Spot.setCell _ _ _
  · split
    · exact Spot.store ‹_› _
    · exact Spot.refl _ _ _

/-- Bytes written one by one. -/
theorem spot_bytewise (a : U64) (n : Nat) (v : Nat → U8) :
    ∀ {l : List Nat} (m : Memory), (∀ i ∈ l, i < n) →
      Spot a n m (l.foldl (fun m i => m.writeU8 (a + BitVec.ofNat 64 i) (v i)) m)
  | [], _, _ => Spot.refl _ _ _
  | k :: l, m, hl => by
    have hfirst : Spot a n m (m.writeU8 (a + BitVec.ofNat 64 k) (v k)) :=
      Spot.within (hl k List.mem_cons_self) (spot_writeU8 m _ (v k))
    exact hfirst.trans (spot_bytewise a n v _ fun i hi => hl i (List.mem_cons_of_mem k hi))

theorem spot_writeU16 (m : Memory) (a : U64) (v : U16) : Spot a 2 m (m.writeU16 a v) := by
  have hbytes : Spot a 2 m ((m.writeU8 a (byteOf v 0)).writeU8 (a + 1) (byteOf v 1)) :=
    (Spot.start (by decide) (spot_writeU8 m a _)).trans
      (Spot.within (k := 1) (by decide) (spot_writeU8 _ _ _))
  unfold writeU16
  dsimp only
  split
  · exact Spot.setCell _ _ _
  · split
    · split
      · exact Spot.store ‹_› _
      · exact hbytes
    · exact hbytes

theorem spot_writeU32 (m : Memory) (a : U64) (v : U32) : Spot a 4 m (m.writeU32 a v) := by
  have hbytes : Spot a 4 m ((((m.writeU8 a (byteOf v 0)).writeU8 (a + 1) (byteOf v 1)).writeU8
      (a + 2) (byteOf v 2)).writeU8 (a + 3) (byteOf v 3)) :=
    (((Spot.start (by decide) (spot_writeU8 m a _)).trans
      (Spot.within (k := 1) (by decide) (spot_writeU8 _ _ _))).trans
      (Spot.within (k := 2) (by decide) (spot_writeU8 _ _ _))).trans
      (Spot.within (k := 3) (by decide) (spot_writeU8 _ _ _))
  unfold writeU32
  dsimp only
  split
  · exact (Spot.start (by decide) (spot_writeU16 m a _)).trans
      (Spot.within (k := 2) (by decide) (spot_writeU16 _ _ _))
  · split
    · split
      · exact Spot.store ‹_› _
      · exact hbytes
    · exact hbytes

theorem spot_writeU64 (m : Memory) (a : U64) (v : U64) : Spot a 8 m (m.writeU64 a v) := by
  have hbytes := spot_bytewise a 8 (byteOf v) m fun i hi => List.mem_range.mp hi
  unfold writeU64
  dsimp only
  split
  · exact (Spot.start (by decide) (spot_writeU32 m a _)).trans
      (Spot.within (k := 4) (by decide) (spot_writeU32 _ _ _))
  · split
    · split
      · exact Spot.store ‹_› _
      · exact hbytes
    · exact hbytes

theorem spot_writeU128 (m : Memory) (a : U64) (v : U128) : Spot a 16 m (m.writeU128 a v) := by
  have hhalves : Spot a 16 m ((m.writeU64 a (u64 v)).writeU64 (a + 8) (u64 (v >>> 64))) :=
    (Spot.start (by decide) (spot_writeU64 m a _)).trans
      (Spot.within (k := 8) (by decide) (spot_writeU64 _ _ _))
  unfold writeU128
  dsimp only
  split
  · split
    · exact Spot.store ‹_› _
    · exact hhalves
  · exact hhalves

end Memory

theorem MemWrite.spot {a : U64} {f : Memory → Memory} (hf : MemWrite a f) (m : Memory) :
    Memory.Spot a 16 m (f m) := by
  cases hf with
  | u8 v => exact .start (by decide) (m.spot_writeU8 a v)
  | u16 v => exact .start (by decide) (m.spot_writeU16 a v)
  | u32 v => exact .start (by decide) (m.spot_writeU32 a v)
  | u64 v => exact .start (by decide) (m.spot_writeU64 a v)
  | u128 v => exact m.spot_writeU128 a v

/-- What writes near some translations change, each byte is reached from one of them. -/
theorem Writes.spot {A : List (U64 × U64)} {f : Memory → Memory} (hf : Writes A f) (m : Memory) :
    (∀ b, (f m).slot b = m.slot b) ∧ ∀ i, (f m).data i ≠ m.data i →
      ∃ x ∈ A, ∃ k, Near x.1 k ∧ m.Reaches (x.2 + BitVec.ofNat 64 k) 16 i := by
  induction hf generalizing m with
  | none => exact ⟨fun _ => rfl, fun _ h => absurd rfl h⟩
  | write h hk hf =>
    have hspot := hf.spot m
    exact ⟨hspot.slots, fun i hi => ⟨_, h, _, hk, hspot.bytes i hi⟩⟩
  | @seq f g hf hg ihf ihg =>
    obtain ⟨hfs, hfb⟩ := ihf m
    obtain ⟨hgs, hgb⟩ := ihg (f m)
    refine ⟨fun b => (hgs b).trans (hfs b), fun i hi => ?_⟩
    by_cases he : (f m).data i = m.data i
    · obtain ⟨x, hx, k, hk, hr⟩ := hgb i (he ▸ hi)
      exact ⟨x, hx, k, hk, hr.congr hfs⟩
    · exact hfb i he

/-! ### The entries of a walk -/

theorem spot_markEntry (m : Memory) (n : U8) (e bits : U64) :
    Memory.Spot e 8 m (markEntry m n e bits) := by
  unfold markEntry
  split
  · exact .start (by decide) (m.spot_writeU32 e _)
  · exact m.spot_writeU64 e _

theorem markWalk_spot (n : U8) (write : Bool) (l : List U64) (m : Memory) :
    (∀ b, (markWalk n write l m).slot b = m.slot b) ∧ ∀ i,
      (markWalk n write l m).data i ≠ m.data i → ∃ e ∈ l, m.Reaches e 8 i := by
  induction l generalizing m with
  | nil => exact ⟨fun _ => rfl, fun _ h => absurd rfl h⟩
  | cons e l ih =>
    cases l with
    | nil =>
      have hspot := spot_markEntry m n e (Pte.a ||| if write then Pte.d else 0)
      exact ⟨hspot.slots, fun i hi => ⟨e, List.mem_cons_self, hspot.bytes i hi⟩⟩
    | cons e' l =>
      have hspot := spot_markEntry m n e Pte.a
      obtain ⟨hslots, hbytes⟩ := ih (markEntry m n e Pte.a)
      refine ⟨fun b => (hslots b).trans (hspot.slots b), fun i hi => ?_⟩
      by_cases he : (markEntry m n e Pte.a).data i = m.data i
      · obtain ⟨x, hx, hr⟩ := hbytes i (he ▸ hi)
        exact ⟨x, List.mem_cons_of_mem e hx, hr.congr hspot.slots⟩
      · exact ⟨e, List.mem_cons_self, hspot.bytes i he⟩

/-! ## Pages -/

/-- The byte of a frame at a linear address's offset. -/
def onPage (p linear : U64) : U64 := p >>> 12 <<< 12 ||| linear &&& 0xFFF

theorem getLsbD_offset (i : Nat) (h : i < 64) : (0xFFF : U64).getLsbD i = decide (i < 12) := by
  revert i; decide

theorem samePage_bit {l l' : U64} (h : l' >>> 12 = l >>> 12) {i : Nat} (hi : 12 ≤ i) :
    l'.getLsbD i = l.getLsbD i := by
  have hbit := congrArg (·.getLsbD (i - 12)) h
  simp only [BitVec.getLsbD_ushiftRight, Nat.add_sub_cancel' hi] at hbit
  exact hbit

theorem onPage_bit (p l : U64) {i : Nat} (hi : i < 64) :
    (onPage p l).getLsbD i = if i < 12 then l.getLsbD i else p.getLsbD i := by
  unfold onPage
  simp only [BitVec.getLsbD_or, BitVec.getLsbD_and, BitVec.getLsbD_shiftLeft,
    BitVec.getLsbD_ushiftRight, getLsbD_offset i hi, hi, decide_true, Bool.true_and]
  by_cases h12 : i < 12
  · simp [h12]
  · simp [h12, Nat.add_sub_cancel' (Nat.le_of_not_lt h12)]

/-- A frame and an offset, seen from another address on the page. -/
theorem onPage_frame {e M L l l' : U64} (hM : M &&& 0xFFF = 0) (hL : L &&& 0xFFF = 0xFFF)
    (h : l' >>> 12 = l >>> 12) :
    e &&& M ||| l' &&& L = onPage (e &&& M ||| l &&& L) l' := by
  apply BitVec.eq_of_getLsbD_eq
  intro i hi
  rw [onPage_bit _ _ hi]
  have hMi := congrArg (·.getLsbD i) hM
  have hLi := congrArg (·.getLsbD i) hL
  simp only [BitVec.getLsbD_and, getLsbD_offset i hi] at hMi hLi
  by_cases h12 : i < 12
  · simp only [h12, decide_true, Bool.and_true] at hMi hLi
    simp [BitVec.getLsbD_or, BitVec.getLsbD_and, h12, hMi, hLi]
  · simp only [BitVec.getLsbD_or, BitVec.getLsbD_and, h12, ↓reduceIte,
      samePage_bit h (Nat.le_of_not_lt h12)]

theorem onPage_self {l l' : U64} (h : l' >>> 12 = l >>> 12) : onPage l l' = l' := by
  apply BitVec.eq_of_getLsbD_eq
  intro i hi
  rw [onPage_bit _ _ hi]
  split
  · rfl
  · exact (samePage_bit h (by omega)).symm

theorem onPage_congr {p l l' : U64} (h : l &&& 0xFFF = l' &&& 0xFFF) :
    onPage p l = onPage p l' := by
  unfold onPage
  rw [h]

theorem samePage_shift {l l' : U64} (h : l' >>> 12 = l >>> 12) {n : Nat} (hn : 12 ≤ n) :
    l' >>> n = l >>> n := by
  have hsplit (x : U64) : x >>> n = x >>> 12 >>> (n - 12) := by
    rw [← BitVec.shiftRight_add, Nat.add_sub_cancel' hn]
  rw [hsplit, hsplit, h]

theorem low32_offset (l : U64) : u64 (u32 l) &&& 0xFFF = l &&& 0xFFF := by
  apply BitVec.eq_of_getLsbD_eq
  intro i hi
  simp only [BitVec.getLsbD_and, getLsbD_offset i hi, u64, u32, BitVec.getLsbD_setWidth, hi,
    decide_true, Bool.true_and]
  by_cases h12 : i < 12
  · simp [h12, Nat.lt_trans h12 (by decide : 12 < 32)]
  · simp [h12]

/-- A mapping as another address on its page sees it. -/
def Mapping.seenFrom (map : Mapping) (linear : U64) : Mapping :=
  { map with phys := onPage map.phys linear }

theorem translateLong_samePage (mem : Memory) (cr3 : U64) {l l' : U64}
    (h : l' >>> 12 = l >>> 12) (nxe : Bool) :
    translateLong mem cr3 l' nxe = (translateLong mem cr3 l nxe).map (·.seenFrom l') := by
  unfold translateLong
  simp only [samePage_shift h (n := 39) (by decide), samePage_shift h (n := 30) (by decide),
    samePage_shift h (n := 21) (by decide), h]
  split
  · rfl
  split
  · rfl
  split
  · exact congrArg some (congrArg (fun p => Mapping.mk p _ _ _ _ _)
      (onPage_frame (by decide) (by decide) h))
  split
  · rfl
  split
  · exact congrArg some (congrArg (fun p => Mapping.mk p _ _ _ _ _)
      (onPage_frame (by decide) (by decide) h))
  split
  · rfl
  · exact congrArg some (congrArg (fun p => Mapping.mk p _ _ _ _ _)
      (onPage_frame (by decide) (by decide) h))

theorem samePage_low32 {l l' : U64} (h : l' >>> 12 = l >>> 12) : u32 l' >>> 12 = u32 l >>> 12 := by
  apply BitVec.eq_of_getLsbD_eq
  intro i hi
  have hbit := samePage_bit h (i := 12 + i) (Nat.le_add_right _ _)
  simp only [BitVec.getLsbD_ushiftRight, u32, BitVec.getLsbD_setWidth, hbit]

theorem u64_low32 {l l' : U64} (h : l' >>> 12 = l >>> 12) :
    u64 (u32 l') >>> 12 = u64 (u32 l) >>> 12 := by
  apply BitVec.eq_of_getLsbD_eq
  intro i hi
  have hbit := samePage_bit h (i := 12 + i) (Nat.le_add_right _ _)
  simp only [BitVec.getLsbD_ushiftRight, u64, u32, BitVec.getLsbD_setWidth, hbit]

theorem samePage_shift32 {l l' : U32} (h : l' >>> 12 = l >>> 12) {n : Nat} (hn : 12 ≤ n) :
    l' >>> n = l >>> n := by
  have hsplit (x : U32) : x >>> n = x >>> 12 >>> (n - 12) := by
    rw [← BitVec.shiftRight_add, Nat.add_sub_cancel' hn]
  rw [hsplit, hsplit, h]

theorem u64_and_offset (l : U32) : u64 (l &&& 0xFFF) = u64 l &&& 0xFFF := by
  apply BitVec.eq_of_getLsbD_eq
  intro i hi
  simp only [u64, BitVec.getLsbD_setWidth, BitVec.getLsbD_and, hi, decide_true, Bool.true_and]
  by_cases h32 : i < 32
  · have hmask : (0xFFF : U32).getLsbD i = (0xFFF : U64).getLsbD i := by
      revert i; decide
    rw [hmask]
  · rw [BitVec.getLsbD_of_ge l i (by omega)]
    rfl

theorem onPage_low32 {e M L l l' : U64} (hM : M &&& 0xFFF = 0) (hL : L &&& 0xFFF = 0xFFF)
    (h : l' >>> 12 = l >>> 12) :
    e &&& M ||| u64 (u32 l') &&& L = onPage (e &&& M ||| u64 (u32 l) &&& L) l' :=
  (onPage_frame hM hL (u64_low32 h)).trans (onPage_congr (low32_offset l'))

theorem translatePae_samePage (mem : Memory) (cr3 : U64) {l l' : U64}
    (h : l' >>> 12 = l >>> 12) (nxe : Bool) :
    translatePae mem cr3 (u32 l') nxe =
      (translatePae mem cr3 (u32 l) nxe).map (·.seenFrom l') := by
  have h32 := samePage_low32 h
  unfold translatePae
  simp only [samePage_shift32 h32 (n := 30) (by decide), samePage_shift32 h32 (n := 21) (by decide),
    h32]
  split
  · rfl
  split
  · rfl
  split
  · exact congrArg some (congrArg (fun p => Mapping.mk p _ _ _ _ _)
      (onPage_low32 (by decide) (by decide) h))
  split
  · rfl
  · exact congrArg some (congrArg (fun p => Mapping.mk p _ _ _ _ _)
      (onPage_low32 (by decide) (by decide) h))

theorem translateLegacy_samePage (mem : Memory) (cr3 : U64) {l l' : U64}
    (h : l' >>> 12 = l >>> 12) :
    translateLegacy mem cr3 (u32 l') = (translateLegacy mem cr3 (u32 l)).map (·.seenFrom l') := by
  have h32 := samePage_low32 h
  unfold translateLegacy
  simp only [samePage_shift32 h32 (n := 22) (by decide), h32, u64_and_offset]
  split
  · rfl
  split
  · exact congrArg some (congrArg (fun p => Mapping.mk p _ _ _ _ _)
      (onPage_low32 (by decide) (by decide) h))
  split
  · rfl
  · exact congrArg some (congrArg (fun p => Mapping.mk p _ _ _ _ _)
      (onPage_low32 (by decide) (by decide) h))

/-- Addresses on one page share the mapping. -/
theorem walkOf_samePage {s : Cpu} {l l' : U64} (h : l' >>> 12 = l >>> 12) :
    s.walkOf l' = (s.walkOf l).map (·.seenFrom l') := by
  unfold Cpu.walkOf translateMode
  cases s.pagingMode with
  | off =>
    exact congrArg some (congrArg (fun p => Mapping.mk p _ _ _ _ _) (onPage_self h).symm)
  | legacy => exact translateLegacy_samePage _ _ h
  | pae => exact translatePae_samePage _ _ h _
  | long => exact translateLong_samePage _ _ h _

/-- A store granted at one address of a page is granted at all of them. -/
theorem Cpu.Grants.samePage {s : Cpu} {l l' p : U64} (hg : s.Grants l p)
    (h : l' >>> 12 = l >>> 12) : s.Grants l' (onPage p l') := by
  have hidx : tlbIndex l' = tlbIndex l := by
    unfold tlbIndex
    rw [h]
  cases hg with
  | off hoff =>
    rw [onPage_self h]
    exact .off hoff
  | hit hv hp ha =>
    have hphys : onPage ((s.tlb (tlbIndex l)).ppage <<< 12 ||| l &&& 0xFFF) l' =
        (s.tlb (tlbIndex l')).ppage <<< 12 ||| l' &&& 0xFFF := by
      apply BitVec.eq_of_getLsbD_eq
      intro i hi
      rw [onPage_bit _ _ hi, hidx]
      simp only [BitVec.getLsbD_or, BitVec.getLsbD_and, BitVec.getLsbD_shiftLeft,
        getLsbD_offset i hi, hi, decide_true, Bool.true_and]
      by_cases h12 : i < 12 <;> simp [h12]
    rw [hphys]
    rw [← hidx] at hv hp ha
    exact .hit hv (hp.trans h.symm) ha
  | @walk map hw ha =>
    have hw' : s.walkOf l' = some (map.seenFrom l') := by
      rw [walkOf_samePage h, hw]
      rfl
    exact .walk hw' ha

/-- The physical address a store is granted at has the linear address's offset. -/
theorem Cpu.Grants.onPage_eq {s : Cpu} {l p : U64} (hg : s.Grants l p) : onPage p l = p := by
  cases hg with
  | off => exact onPage_self rfl
  | hit =>
    apply BitVec.eq_of_getLsbD_eq
    intro i hi
    rw [onPage_bit _ _ hi]
    simp only [BitVec.getLsbD_or, BitVec.getLsbD_and, BitVec.getLsbD_shiftLeft,
      getLsbD_offset i hi, hi, decide_true, Bool.true_and]
    by_cases h12 : i < 12 <;> simp [h12]
  | @walk map hw ha =>
    have hself := walkOf_samePage (s := s) (rfl : l >>> 12 = l >>> 12)
    rw [hw, Option.map_some, Option.some.injEq] at hself
    exact (congrArg Mapping.phys hself).symm

/-! ## Runs -/

/-- What decides a store besides the TLB and memory: the control registers and the privilege
level. -/
def Cpu.storeControl (s : Cpu) : U32 × U64 × U32 × U64 × U16 × Bool :=
  (s.cr0, s.cr3, s.cr4, s.efer, s.cs, s.pe)

/-- Runs that store where the paging unit grants it, one or two pages at a time. Else memory changes
in the accessed and dirty bits of a walk. -/
inductive StoreRun : Cpu → Cpu → Prop
  | quiet {s t : Cpu} (hc : t.storeControl = s.storeControl) (htlb : t.tlb = s.tlb)
      (hm : t.mem = s.mem) : StoreRun s t
  | mark {s : Cpu} {linear : U64} {map : Mapping} (hm : s.walkOf linear = some map) (write : Bool) :
      StoreRun s (s.setAccessedBits map write)
  | fill {s : Cpu} {linear : U64} {map : Mapping} (hm : s.walkOf linear = some map) (d : Bool) :
      StoreRun s (s.setTlb (Cpu.tlbIndex linear) (cachedEntry linear map d))
  | dirty (s : Cpu) (i : Fin 256) : StoreRun s (s.setTlb i { s.tlb i with dirtied := true })
  | drop (s : Cpu) (i : Fin 256) : StoreRun s (s.setTlb i { s.tlb i with valid := false })
  | store {s t u : Cpu} {l p l' p' : U64} {f : Memory → Memory} (hp : s.Grants l p)
      (ht : StoreRun s t) (hp' : t.Grants l' p') (hu : StoreRun t u)
      (hf : Writes [(l, p), (l', p')] f) : StoreRun s (u.modifyMem f)
  | trans {s t u : Cpu} (h : StoreRun s t) (k : StoreRun t u) : StoreRun s u

namespace StoreRun

theorem refl (s : Cpu) : StoreRun s s := .quiet rfl rfl rfl

theorem control {s t : Cpu} (h : StoreRun s t) : t.storeControl = s.storeControl := by
  induction h with
  | quiet hc htlb hm => exact hc
  | mark | fill | dirty | drop => rfl
  | store hp ht hp' hu hf iht ihu => exact ihu.trans iht
  | trans h k ihh ihk => exact ihk.trans ihh

theorem pe {s t : Cpu} (h : StoreRun s t) : t.pe = s.pe :=
  congrArg (·.2.2.2.2.2) h.control

theorem of_shell {s t : Cpu} (h : t.shell = s.shell) : StoreRun s t :=
  .quiet (congrArg Cpu.storeControl h : t.shell.storeControl = s.shell.storeControl)
    (congrArg Cpu.tlb h : t.shell.tlb = s.shell.tlb)
    (congrArg Cpu.mem h : t.shell.mem = s.shell.mem)

theorem raise (s : Cpu) (f : Fault) : StoreRun s (s.raise f) := by
  unfold Cpu.raise
  split <;> exact .quiet rfl rfl rfl

theorem invlpg (s : Cpu) (linear : U64) : StoreRun s (s.invlpg linear) := by
  unfold Cpu.invlpg
  dsimp only
  split
  · exact .drop s _
  · exact refl s

theorem markAccessed (s : Cpu) (linear : U64) (write : Bool) :
    StoreRun s (s.markAccessed linear write) ∧ (s.markAccessed linear write).tlb = s.tlb := by
  unfold Cpu.markAccessed
  split
  · exact ⟨.mark ‹_› write, rfl⟩
  · exact ⟨refl s, rfl⟩

theorem translate (s : Cpu) (linear : U64) (write fetch : Bool) :
    StoreRun s (applyPagingInner linear write fetch s).2 := by
  unfold applyPagingInner
  split
  · exact raise s _
  split
  · exact refl s
  dsimp only
  split
  · split
    · obtain ⟨hmark, htlb⟩ := markAccessed s linear true
      split
      · rw [← htlb]
        exact hmark.trans (.dirty _ _)
      · exact refl s
    · exact raise s _
  · split
    · rename_i map hm
      split
      · exact raise s _
      · have hm' : (s.setTlb (Cpu.tlbIndex linear) (cachedEntry linear map write)).walkOf linear =
            some map := hm
        exact (StoreRun.fill hm write).trans (.mark hm' write)
    · exact raise s _

end StoreRun

/-- From protected mode, a run that stores where it is granted. -/
def Stores (s t : Cpu) : Prop := s.pe = true → StoreRun s t

instance : UserFrame Stores where
  refl s _ := .refl s
  trans s t u hst htu hpe := (hst hpe).trans (htu ((hst hpe).pe.trans hpe))
  of_shell h _ := .of_shell h
  raise s f _ := .raise s f
  setPending s v c _ _ := .quiet rfl rfl rfl
  translate s linear write fetch _ := .translate s linear write fetch
  invlpg s linear _ := .invlpg s linear
  store {s t u _ _ _ _ _} hp hst hp' htu hf hpe :=
    .store hp (hst hpe) hp' (htu ((hst hpe).pe.trans hpe)) hf
  real s f hreal hpe := absurd hpe (by rw [hreal]; decide)

/-! ### What a run changes -/

namespace Cpu

/-- Byte `i` of RAM is in an entry of a walk. -/
def Marks (s : Cpu) (i : Nat) : Prop :=
  ∃ linear map, s.walkOf linear = some map ∧ ∃ e ∈ map.walk, s.mem.Reaches e 8 i

/-- Byte `i` of RAM is the translation of a linear address a store is granted at. -/
def Stored (s : Cpu) (i : Nat) : Prop := ∃ linear a, s.Grants linear a ∧ s.mem.slot a = some i

/-- Byte `i` of RAM is less than 32 bytes past the end of a page a store is granted in, as the bytes
of a store in the page's last 16 bytes are counted. -/
def Overruns (s : Cpu) (i : Nat) : Prop :=
  ∃ linear p b j x, s.Grants linear p ∧ 0x1000 ≤ (linear &&& 0xFFF).toNat + b + j ∧
    (linear &&& 0xFFF).toNat + b + j < 0x1020 ∧
    s.mem.slot (p + BitVec.ofNat 64 b) = some x ∧ i = x + j

/-- The bytes a step may change. -/
inductive Changes (s : Cpu) (i : Nat) : Prop
  | mark (h : s.Marks i)
  | stored (h : s.Stored i)
  | overrun (h : s.Overruns i)

end Cpu

theorem offset_toNat (l : U64) : (l &&& 0xFFF).toNat = l.toNat % 4096 := by
  rw [BitVec.toNat_and]
  exact Nat.and_two_pow_sub_one_eq_mod l.toNat 12

theorem onPage_toNat (p l : U64) : (onPage p l).toNat = p.toNat / 4096 * 4096 + l.toNat % 4096 := by
  have hdisj : (onPage p l).toNat = 2 ^ 12 * (p.toNat / 2 ^ 12) ||| l.toNat % 2 ^ 12 := by
    unfold onPage
    rw [BitVec.toNat_or, offset_toNat, BitVec.toNat_shiftLeft, BitVec.toNat_ushiftRight,
      Nat.shiftRight_eq_div_pow, Nat.shiftLeft_eq, Nat.mod_eq_of_lt (by have := p.isLt; omega),
      Nat.mul_comm]
    rfl
  rw [hdisj, ← Nat.two_pow_add_eq_or_of_lt (Nat.mod_lt _ (by decide))]
  omega

/-- A byte reached near a granted address is granted too, or past the end of the page. -/
theorem changes_of_grants {s : Cpu} {l p : U64} {k i : Nat} (hg : s.Grants l p) (hk : Near l k)
    (hr : s.mem.Reaches (p + BitVec.ofNat 64 k) 16 i) : s.Changes i := by
  obtain ⟨b, j, x, hb, hx, rfl⟩ := hr
  rw [BitVec.add_assoc, ← BitVec.ofNat_add] at hx
  by_cases hend : 0x1000 ≤ (l &&& 0xFFF).toNat + (k + b) + j
  · refine .overrun ⟨l, p, k + b, j, x, hg, hend, ?_, hx, rfl⟩
    have hoff := offset_toNat l
    rcases hk with hk | hk <;> omega
  have hoff := offset_toNat l
  have hp := onPage_toNat p l
  rw [hg.onPage_eq] at hp
  have hpl := p.isLt
  have hll := l.isLt
  have hsum : (p + BitVec.ofNat 64 (k + b)).toNat = p.toNat + (k + b) := by
    rw [BitVec.toNat_add, BitVec.toNat_ofNat]
    omega
  have hslot := s.mem.slot_add (p + BitVec.ofNat 64 (k + b)) (k := j) (by omega)
  rw [hx, Option.map_some] at hslot
  have hl : (l + BitVec.ofNat 64 (k + b + j)).toNat = l.toNat + (k + b + j) := by
    rw [BitVec.toNat_add, BitVec.toNat_ofNat]
    omega
  have hpage : (l + BitVec.ofNat 64 (k + b + j)) >>> 12 = l >>> 12 := by
    apply BitVec.eq_of_toNat_eq
    rw [BitVec.toNat_ushiftRight, BitVec.toNat_ushiftRight, hl, Nat.shiftRight_eq_div_pow,
      Nat.shiftRight_eq_div_pow]
    omega
  have haddr : onPage p (l + BitVec.ofNat 64 (k + b + j)) =
      p + BitVec.ofNat 64 (k + b) + BitVec.ofNat 64 j := by
    apply BitVec.eq_of_toNat_eq
    rw [onPage_toNat, hl, BitVec.toNat_add, hsum, BitVec.toNat_ofNat]
    omega
  have hgrant := hg.samePage hpage
  rw [haddr] at hgrant
  exact .stored ⟨_, _, hgrant, hslot⟩

/-- A run moves no RAM, and every byte it changes is one a state it reaches may change. -/
theorem StoreRun.changes {s t : Cpu} (h : StoreRun s t) :
    (∀ b, t.mem.slot b = s.mem.slot b) ∧ ∀ i, t.mem.data i ≠ s.mem.data i →
      ∃ u, StoreRun s u ∧ u.Changes i := by
  induction h with
  | quiet hc htlb hm =>
    rw [hm]
    exact ⟨fun _ => rfl, fun _ h => absurd rfl h⟩
  | @mark s linear map hm write =>
    obtain ⟨hslots, hbytes⟩ := markWalk_spot map.entryBytes write map.walk s.mem
    exact ⟨hslots, fun i hi => ⟨s, .refl s, .mark ⟨linear, map, hm, hbytes i hi⟩⟩⟩
  | fill | dirty | drop => exact ⟨fun _ => rfl, fun _ h => absurd rfl h⟩
  | @store s t u l p l' p' f hp ht hp' hu hf iht ihu =>
    obtain ⟨hws, hwb⟩ := hf.spot u.mem
    refine ⟨fun b => (hws b).trans ((ihu.1 b).trans (iht.1 b)), fun i hi => ?_⟩
    by_cases hu' : u.mem.data i = t.mem.data i
    · by_cases ht' : t.mem.data i = s.mem.data i
      · obtain ⟨x, hx, k, hk, hr⟩ := hwb i fun he => hi (he.trans (hu'.trans ht'))
        have hrt := hr.congr ihu.1
        rcases List.mem_cons.mp hx with rfl | hx
        · exact ⟨s, .refl s, changes_of_grants hp hk (hrt.congr iht.1)⟩
        · rw [List.mem_singleton.mp hx] at hk hrt
          exact ⟨t, ht, changes_of_grants hp' hk hrt⟩
      · exact iht.2 i ht'
    · obtain ⟨v, hv, hc⟩ := ihu.2 i hu'
      exact ⟨v, ht.trans hv, hc⟩
  | @trans s t u h k ihh ihk =>
    refine ⟨fun b => (ihk.1 b).trans (ihh.1 b), fun i hi => ?_⟩
    by_cases ht : t.mem.data i = s.mem.data i
    · obtain ⟨v, hv, hc⟩ := ihk.2 i fun he => hi (he.trans ht)
      exact ⟨v, h.trans hv, hc⟩
    · exact ihh.2 i ht

end X86Emu
