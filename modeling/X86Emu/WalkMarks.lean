import X86Emu.MemoryFacts
import X86Emu.PageTree
import X86Emu.Translate

/-!
# Accessed and dirty bits

What a translation leaves in memory. Marking a walk sets bits in the low bytes of its entries and in
no other byte, and these bits steer no walk; so the tables map what they mapped before, even where
a walk visits an entry twice or the tables lie in the page they map.
-/
namespace X86Emu

open RadixWalk

namespace Memory

variable {m m' : Memory} {a : U64} {n : Nat}

/-- Every byte of `m'` is the byte of `m` with the bits of `f` set. -/
structure Marked (m m' : Memory) (f : U64 → U8) : Prop where
  slot : ∀ b, m'.slot b = m.slot b
  byte : ∀ b, m'.readU8 b = m.readU8 b ||| f b

theorem readU8_unbacked {b : U64} (h : ¬ m.backed b) : m.readU8 b = 0xFF := by
  have hslot : m.slot b = none := by
    simpa using fun hs => h (.inr hs)
  rw [readU8_ram m b (fun hv => h (.inl hv)), readU8Raw, hslot]

theorem byteOf_or {n : Nat} (v w : BitVec n) (k : Nat) :
    byteOf (v ||| w) k = byteOf v k ||| byteOf w k := by
  ext i hi
  simp [byteOf]

theorem byteOf_u8_zero {n : Nat} (hn : 8 ≤ n) (g : U8) : byteOf (g.setWidth n) 0 = g := by
  ext i hi
  simp [byteOf, show i < n by omega]
  exact BitVec.getLsbD_eq_getElem hi

theorem byteOf_u8_pos {n : Nat} (g : U8) {k : Nat} (hk : 0 < k) : byteOf (g.setWidth n) k = 0 := by
  ext i hi
  simp [byteOf]
  intro _
  exact BitVec.getLsbD_of_ge g _ (by omega)

theorem byteOf_le64 (lo hi : U32) {k : Nat} (hk : k < 4) :
    byteOf (le64 lo hi) k = byteOf lo k ∧ byteOf (le64 lo hi) (4 + k) = byteOf hi k := by
  constructor
  · ext i hi
    have hlt : 8 * k + i < 32 := by omega
    simp [byteOf, le64, hlt]
    refine (BitVec.getLsbD_append).trans ?_
    rw [if_pos hlt, BitVec.getLsbD_eq_getElem hlt]
  · ext i hi
    have hge : ¬ 8 * (4 + k) + i < 32 := by omega
    simp [byteOf, le64]
    refine (BitVec.getLsbD_append).trans ?_
    rw [if_neg hge, show 8 * (4 + k) + i - 32 = 8 * k + i by omega]

namespace Block

theorem byteOf_readU32 (h : m.Block a 4) {k : Nat} (hk : k < 4) :
    byteOf (m.readU32 a) k = m.readU8 (a + BitVec.ofNat 64 k) := by
  obtain ⟨h0, h1, h2, h3⟩ := byteOf_le32 (m.readU8 a) (m.readU8 (a + 1)) (m.readU8 (a + 2))
    (m.readU8 (a + 3))
  rw [h.readU32_eq]
  interval_cases k
  · rw [h0, BitVec.add_zero]
  · exact h1
  · exact h2
  · exact h3

theorem byteOf_readU64 (h : m.Block a 8) {k : Nat} (hk : k < 8) :
    byteOf (m.readU64 a) k = m.readU8 (a + BitVec.ofNat 64 k) := by
  have hlo := h.mono (k := 4) (by omega)
  have hhi := h.drop (k := 4) (by omega) (by omega)
  have hword : m.readU64 a = le64 (m.readU32 a) (m.readU32 (a + BitVec.ofNat 64 4)) := by
    rw [h.readU64_eq, hlo.readU32_eq, hhi.readU32_eq]
    simp only [BitVec.add_assoc]
    rfl
  rw [hword]
  by_cases h4 : k < 4
  · rw [(byteOf_le64 _ _ h4).1, hlo.byteOf_readU32 h4]
  · obtain ⟨j, rfl⟩ : ∃ j, k = 4 + j := ⟨k - 4, by omega⟩
    rw [(byteOf_le64 _ _ (by omega)).2, hhi.byteOf_readU32 (by omega), BitVec.add_assoc,
      ← BitVec.ofNat_add]

/-- A store of a block's own bytes, the first with bits set. -/
theorem marked_of_stored (h : m.Block a n) {f : Nat → U8} (hs : Stored m m' a n f) (g : U8)
    (h0 : f 0 = m.readU8 a ||| g) (hk : ∀ k < n, 0 < k → f k = m.readU8 (a + BitVec.ofNat 64 k))
    (hn : 0 < n) : Marked m m' fun b => if b = a then g else 0 where
  slot := hs.slot
  byte b := by
    rw [hs.byte]
    by_cases hlt : (b - a).toNat < n
    · have hb := (h.ofNat_sub b hlt).mpr rfl
      by_cases hback : m.backed b
      · rw [if_pos ⟨hlt, hback⟩]
        by_cases hba : b = a
        · rw [if_pos hba, hba, BitVec.sub_self]
          exact h0
        · have hpos : 0 < (b - a).toNat := by
            rcases Nat.eq_zero_or_pos (b - a).toNat with hz | hz
            · rw [hz, BitVec.add_zero] at hb
              exact absurd hb hba
            · exact hz
          rw [if_neg hba, hk _ hlt hpos, ← hb]
          exact BitVec.or_zero.symm
      · rw [if_neg (fun hc => hback hc.2), readU8_unbacked hback]
        exact BitVec.allOnes_or.symm
    · have hba : b ≠ a := by
        rintro rfl
        rw [BitVec.sub_self] at hlt
        exact hlt hn
      rw [if_neg (fun hc => hlt hc.1), if_neg hba]
      exact BitVec.or_zero.symm

theorem marked_writeU32 (h : m.Block a 4) (g : U8) :
    Marked m (m.writeU32 a (m.readU32 a ||| u32 g)) fun b => if b = a then g else 0 := by
  refine h.marked_of_stored (h.stored_writeU32 _) g ?_ (fun k hk hpos => ?_) (by omega)
  · rw [byteOf_or, h.byteOf_readU32 (by omega), byteOf_u8_zero (by omega), BitVec.add_zero]
  · rw [byteOf_or, h.byteOf_readU32 hk, byteOf_u8_pos g hpos]
    exact BitVec.or_zero

theorem marked_writeU64 (h : m.Block a 8) (g : U8) :
    Marked m (m.writeU64 a (m.readU64 a ||| u64 g)) fun b => if b = a then g else 0 := by
  refine h.marked_of_stored (h.stored_writeU64 _) g ?_ (fun k hk hpos => ?_) (by omega)
  · rw [byteOf_or, h.byteOf_readU64 (by omega), byteOf_u8_zero (by omega), BitVec.add_zero]
  · rw [byteOf_or, h.byteOf_readU64 hk, byteOf_u8_pos g hpos]
    exact BitVec.or_zero

variable {f : U64 → U8}

theorem readU32_marked (h : m.Block a 4) (hm : Marked m m' f)
    (h0 : ∀ k < 4, 0 < k → f (a + BitVec.ofNat 64 k) = 0) :
    m'.readU32 a = m.readU32 a ||| u32 (f a) := by
  refine (h.of_slot hm.slot).readU32_of_bytes fun k hk => ?_
  rw [hm.byte, byteOf_or, h.byteOf_readU32 hk]
  rcases Nat.eq_zero_or_pos k with rfl | hpos
  · rw [byteOf_u8_zero (by omega), BitVec.add_zero]
  · rw [h0 k hk hpos, byteOf_u8_pos _ hpos]

theorem readU64_marked (h : m.Block a 8) (hm : Marked m m' f)
    (h0 : ∀ k < 8, 0 < k → f (a + BitVec.ofNat 64 k) = 0) :
    m'.readU64 a = m.readU64 a ||| u64 (f a) := by
  refine (h.of_slot hm.slot).readU64_of_bytes fun k hk => ?_
  rw [hm.byte, byteOf_or, h.byteOf_readU64 hk]
  rcases Nat.eq_zero_or_pos k with rfl | hpos
  · rw [byteOf_u8_zero (by omega), BitVec.add_zero]
  · rw [h0 k hk hpos, byteOf_u8_pos _ hpos]

end Block

namespace Marked

theorem refl {f : U64 → U8} (h : ∀ b, m.readU8 b ||| f b = m.readU8 b) : Marked m m f where
  slot _ := rfl
  byte b := (h b).symm

theorem trans {m'' : Memory} {f g : U64 → U8} (h : Marked m m' f) (h' : Marked m' m'' g) :
    Marked m m'' fun b => f b ||| g b where
  slot b := (h'.slot b).trans (h.slot b)
  byte b := by rw [h'.byte, h.byte, BitVec.or_assoc]

theorem congr {f g : U64 → U8} (h : Marked m m' f) (hfg : ∀ b, f b = g b) : Marked m m' g where
  slot := h.slot
  byte b := by rw [h.byte, hfg]

end Marked

end Memory

/-! ## Entries -/

namespace PagingMode

variable {mode : PagingMode} {mem mem' : Memory} {cr3 linear : U64} {nxe : Bool}

/-- The address of an entry: entries lie at multiples of their size. -/
def IsEntry (mode : PagingMode) (a : U64) : Prop := mode.entryBytes.toNat ∣ a.toNat

theorem IsEntry.block {a : U64} (h : mode.IsEntry a) (hmode : mode ≠ off) (mem : Memory) :
    mem.Block a mode.entryBytes.toNat := by
  refine mem.block_of_aligned a ?_ ?_ h <;>
  · cases mode with
    | off => exact absurd rfl hmode
    | legacy | pae | long => decide

theorem isEntry_and (h : mode ≠ off) (e mask : U64) (hmask : mask &&& 7 = 0) :
    mode.IsEntry (e &&& mask) := by
  have hlow : (e &&& mask).toNat % 2 ^ 3 = 0 := by
    have hand : (e &&& mask) &&& 7 = 0 := by rw [BitVec.and_assoc, hmask]; exact BitVec.and_zero
    have hnat := congrArg BitVec.toNat hand
    rwa [BitVec.toNat_and, show (7 : U64).toNat = 2 ^ 3 - 1 from rfl,
      Nat.and_two_pow_sub_one_eq_mod] at hnat
  have h8 : 8 ∣ (e &&& mask).toNat := Nat.dvd_of_mod_eq_zero hlow
  cases mode with
  | off => exact absurd rfl h
  | legacy => exact Nat.dvd_trans (by decide) h8
  | pae | long => exact h8

theorem isEntry_slot (h : mode ≠ off) (mem : Memory) (linear : U64) (l : PageLevel) {base : U64}
    (hbase : mode.IsEntry base) : mode.IsEntry ((mode.tree mem linear).slot l base) := by
  have hstep (n : Nat) (hn : n ∣ 2 ^ 64) (hb : n ∣ base.toNat) (i w : U64) (hw : w.toNat = n) :
      n ∣ (base + i * w).toNat := by
    rw [BitVec.toNat_add, BitVec.toNat_mul, hw]
    exact (Nat.dvd_mod_iff hn).mpr
      (Nat.dvd_add hb ((Nat.dvd_mod_iff hn).mpr (Nat.dvd_mul_left n _)))
  cases mode with
  | off => exact absurd rfl h
  | legacy => exact hstep 4 (by decide) hbase _ _ rfl
  | pae | long => exact hstep 8 (by decide) hbase _ _ rfl

theorem isEntry_path (h : mode ≠ off) {v : Visit PageLevel U64 U64}
    (hv : v ∈ mode.path mem cr3 linear) : mode.IsEntry v.addr := by
  refine Tree.addr_of_mem_path _ (fun l _ b hb => isEntry_slot h mem linear l hb)
    (fun e => isEntry_and h e mode.tableMask ?_) (isEntry_and h cr3 mode.rootMask ?_) hv <;>
  · cases mode <;> decide

theorem mem_path_of_walk (h : mode ≠ off) {map : Mapping}
    (hmap : translateMode mem cr3 linear mode nxe = some map) {a : U64} (ha : a ∈ map.walk) :
    ∃ v ∈ mode.path mem cr3 linear, v.addr = a := by
  rw [translateMode_eq_radixWalk h, radixWalk] at hmap
  split at hmap
  · obtain ⟨leaf, -, rfl⟩ := Option.map_eq_some_iff.mp hmap
    obtain ⟨v, hv, rfl⟩ := List.mem_map.mp ha
    exact ⟨v, hv, rfl⟩
  · cases hmap

theorem isEntry_walk (h : mode ≠ off) {map : Mapping}
    (hmap : translateMode mem cr3 linear mode nxe = some map) {a : U64} (ha : a ∈ map.walk) :
    mode.IsEntry a := by
  obtain ⟨v, hv, rfl⟩ := mem_path_of_walk h hmap ha
  exact isEntry_path h hv

theorem entryBytes_walk (h : mode ≠ off) {map : Mapping}
    (hmap : translateMode mem cr3 linear mode nxe = some map) :
    map.entryBytes = mode.entryBytes := by
  rw [translateMode_eq_radixWalk h, radixWalk] at hmap
  split at hmap
  · obtain ⟨leaf, -, rfl⟩ := Option.map_eq_some_iff.mp hmap
    rfl
  · cases hmap

/-! ## Marks -/

end PagingMode

/-- The bits that marking a walk sets in the byte at `b`. -/
def marks (walk : List U64) (write : Bool) (b : U64) : U8 :=
  (if b ∈ walk then 0x20 else 0) ||| (if write ∧ walk.getLast? = some b then 0x40 else 0)

theorem marks_mask (walk : List U64) (write : Bool) (b : U64) {mask : U64}
    (h : mask &&& 0x60 = 0) : u64 (marks walk write b) &&& mask = 0 := by
  have hin : u64 (marks walk write b) = u64 (marks walk write b) &&& 0x60 := by
    unfold marks
    split <;> split <;> rfl
  rw [hin, BitVec.and_assoc, BitVec.and_comm 0x60, h]
  exact BitVec.and_zero

theorem test_marks (walk : List U64) (write : Bool) (b : U64) :
    test (u64 (marks walk write b)) Pte.a = decide (b ∈ walk) ∧
      test (u64 (marks walk write b)) Pte.d = decide (write ∧ walk.getLast? = some b) := by
  unfold marks
  by_cases ha : b ∈ walk <;> by_cases hd : write ∧ walk.getLast? = some b <;>
  · simp only [ha, hd, if_true, if_false, decide_true, decide_false]
    decide

theorem marks_eq_zero {walk : List U64} {write : Bool} {b : U64} (h : b ∉ walk) :
    marks walk write b = 0 := by
  have hlast : ¬ (write ∧ walk.getLast? = some b) := fun hc => h (List.mem_of_getLast? hc.2)
  rw [marks, if_neg h, if_neg hlast]
  rfl

namespace PagingMode

variable {mode : PagingMode} {mem mem' : Memory} {cr3 linear : U64} {nxe : Bool}

theorem marked_markEntry (hmode : mode ≠ off) {a : U64} (ha : mode.IsEntry a) (mem : Memory)
    (bits : U64) {g : U8} (hbits : bits = u64 g) :
    mem.Marked (markEntry mem mode.entryBytes a bits) fun b => if b = a then g else 0 := by
  have hblock := ha.block hmode mem
  rw [hbits]
  cases mode with
  | off => exact absurd rfl hmode
  | legacy =>
    rw [markEntry, if_pos (by rfl), show u32 (u64 g) = u32 g by simp]
    exact hblock.marked_writeU32 g
  | pae | long =>
    rw [markEntry, if_neg (by decide)]
    exact hblock.marked_writeU64 g

/-- Marking a walk sets its bits, and no others. -/
theorem marked_markWalk (hmode : mode ≠ off) (write : Bool) {walk : List U64}
    (hwalk : ∀ a ∈ walk, mode.IsEntry a) (mem : Memory) :
    mem.Marked (markWalk mode.entryBytes write walk mem) (marks walk write) := by
  induction walk generalizing mem with
  | nil => exact Memory.Marked.refl fun b => by simp [marks]
  | cons e rest ih =>
    have he := hwalk e (List.mem_cons_self ..)
    cases rest with
    | nil =>
      have hleaf := marked_markEntry hmode he mem (Pte.a ||| if write then Pte.d else 0)
        (g := 0x20 ||| if write then 0x40 else 0) (by cases write <;> decide)
      refine hleaf.congr fun b => ?_
      by_cases hb : b = e
      · cases write <;> simp [marks, hb]
      · simp [marks, hb, Ne.symm hb]
    | cons e' rest =>
      have hfirst := marked_markEntry hmode he mem Pte.a (g := 0x20) (by decide)
      have hrest := ih (fun a ha => hwalk a (List.mem_cons_of_mem e ha))
        (markEntry mem mode.entryBytes e Pte.a)
      refine (hfirst.trans hrest).congr fun b => ?_
      by_cases hb : b = e
      · have hset : (0x20 : U8) ||| (if b ∈ e' :: rest then 0x20 else 0) = 0x20 := by
          split <;> rfl
        have hmem : b ∈ e :: e' :: rest := hb ▸ List.mem_cons_self ..
        rw [if_pos hb, marks, marks, List.getLast?_cons_cons, ← BitVec.or_assoc, hset, if_pos hmem]
      · simp [marks, hb]

/-! ## Walks through marked tables -/

section Marked

variable {walk : List U64} {write : Bool}

/-- Between the first bytes of two entries there is no entry. -/
theorem marks_inside (hmode : mode ≠ off) (hwalk : ∀ a ∈ walk, mode.IsEntry a) {a : U64}
    (ha : mode.IsEntry a) {k : Nat} (hk : k < mode.entryBytes.toNat) (hpos : 0 < k) :
    marks walk write (a + BitVec.ofNat 64 k) = 0 := by
  refine marks_eq_zero fun hin => ?_
  have hdvd := hwalk _ hin
  have hadd := (ha.block hmode (Memory.withSize 0 (by decide))).toNat_add hk
  rw [IsEntry, hadd] at hdvd
  exact Nat.not_lt.mpr (Nat.le_of_dvd hpos ((Nat.dvd_add_right ha).mp hdvd)) hk

theorem readEntry_marked (hmode : mode ≠ off) (hwalk : ∀ a ∈ walk, mode.IsEntry a)
    (h : mem.Marked mem' (marks walk write)) {a : U64} (ha : mode.IsEntry a) :
    mode.readEntry mem' a = mode.readEntry mem a ||| u64 (marks walk write a) := by
  have hblock := ha.block hmode mem
  have hin (k : Nat) (hk : k < mode.entryBytes.toNat) (hpos : 0 < k) :
      marks walk write (a + BitVec.ofNat 64 k) = 0 := marks_inside hmode hwalk ha hk hpos
  cases mode with
  | off => exact absurd rfl hmode
  | legacy =>
    rw [readEntry, readEntry, if_pos rfl, if_pos rfl, hblock.readU32_marked h hin]
    simp
  | pae | long =>
    rw [readEntry, readEntry, if_neg (by decide), if_neg (by decide), hblock.readU64_marked h hin]

theorem and_marked (hmode : mode ≠ off) (hwalk : ∀ a ∈ walk, mode.IsEntry a)
    (h : mem.Marked mem' (marks walk write)) {a : U64} (ha : mode.IsEntry a) {mask : U64}
    (hmask : mask &&& 0x60 = 0) :
    mode.readEntry mem' a &&& mask = mode.readEntry mem a &&& mask := by
  rw [readEntry_marked hmode hwalk h ha, BitVec.and_or_distrib_right, marks_mask _ _ _ hmask]
  exact BitVec.or_zero

theorem test_marked (hmode : mode ≠ off) (hwalk : ∀ a ∈ walk, mode.IsEntry a)
    (h : mem.Marked mem' (marks walk write)) {a : U64} (ha : mode.IsEntry a) {mask : U64}
    (hmask : mask &&& 0x60 = 0) :
    test (mode.readEntry mem' a) mask = test (mode.readEntry mem a) mask := by
  rw [test, test, and_marked hmode hwalk h ha hmask]

/-- Marked tables are walked by the same entries. -/
theorem path_marked (hmode : mode ≠ off)
    (hwalk : ∀ a ∈ walk, mode.IsEntry a) (h : mem.Marked mem' (marks walk write)) :
    mode.path mem' cr3 linear = (mode.path mem cr3 linear).map
      fun v => { v with entry := mode.readEntry mem' v.addr } := by
  have htest (a : U64) (ha : mode.IsEntry a) (mask : U64) (hmask : mask &&& 0x60 = 0) :
      test (mode.readEntry mem' a) mask = test (mode.readEntry mem a) mask :=
    test_marked hmode hwalk h ha hmask
  have htable (a : U64) (ha : mode.IsEntry a) :
      mode.readEntry mem' a &&& mode.tableMask = mode.readEntry mem a &&& mode.tableMask := by
    refine and_marked hmode hwalk h ha ?_
    cases mode <;> decide
  refine Tree.path_reread (mode.tree mem linear) (fun l _ b (hb : mode.IsEntry b) =>
      isEntry_slot hmode mem linear l hb) (fun e => isEntry_and hmode e mode.tableMask ?_)
    (mode.readEntry mem')
    (fun a ha => ⟨htest a ha Pte.p (by decide), htable a ha, fun l => ?_⟩)
    (isEntry_and hmode cr3 mode.rootMask ?_)
  · cases mode <;> decide
  · exact congrArg (l.large && ·) (htest a ha Pte.ps (by decide))
  · cases mode <;> decide

/-- Marked tables map what they mapped before. -/
theorem translateMode_marked (hmode : mode ≠ off) (hwalk : ∀ a ∈ walk, mode.IsEntry a)
    (h : mem.Marked mem' (marks walk write)) (cr3 linear : U64) (nxe : Bool) :
    translateMode mem' cr3 linear mode nxe = translateMode mem cr3 linear mode nxe := by
  have htest (a : U64) (ha : mode.IsEntry a) (mask : U64) (hmask : mask &&& 0x60 = 0) :
      test (mode.readEntry mem' a) mask = test (mode.readEntry mem a) mask :=
    test_marked hmode hwalk h ha hmask
  have htable (a : U64) (ha : mode.IsEntry a) :
      mode.readEntry mem' a &&& mode.tableMask = mode.readEntry mem a &&& mode.tableMask := by
    refine and_marked hmode hwalk h ha ?_
    cases mode <;> decide
  have hpath : mode.path mem' cr3 linear = (mode.path mem cr3 linear).map
      fun v => { v with entry := mode.readEntry mem' v.addr } := path_marked hmode hwalk h
  have hentry {v : Visit PageLevel U64 U64} (hv : v ∈ mode.path mem cr3 linear) :
      v.entry = mode.readEntry mem v.addr := Tree.entry_of_mem_path _ hv
  have hbit {v : Visit PageLevel U64 U64} (hv : v ∈ mode.path mem cr3 linear) {mask : U64}
      (hmask : mask &&& 0x60 = 0) :
      test (mode.readEntry mem' v.addr) mask = test v.entry mask := by
    rw [htest v.addr (isEntry_path hmode hv) mask hmask, hentry hv]
  have hall {f g : Visit PageLevel U64 U64 → Bool}
      (hfg : ∀ v ∈ mode.path mem cr3 linear, f v = g v) :
      (mode.path mem cr3 linear).all f = (mode.path mem cr3 linear).all g := by
    rw [Bool.eq_iff_iff, List.all_eq_true, List.all_eq_true]
    exact forall₂_congr fun v hv => by rw [hfg v hv]
  have hany {f g : Visit PageLevel U64 U64 → Bool}
      (hfg : ∀ v ∈ mode.path mem cr3 linear, f v = g v) :
      (mode.path mem cr3 linear).any f = (mode.path mem cr3 linear).any g := by
    rw [Bool.eq_iff_iff, List.any_eq_true, List.any_eq_true]
    exact exists_congr fun v => and_congr_right fun hv => by rw [hfg v hv]
  have hpresent : (mode.path mem cr3 linear).all
      ((fun v => test v.entry Pte.p) ∘ fun v => { v with entry := mode.readEntry mem' v.addr }) =
      (mode.path mem cr3 linear).all fun v => test v.entry Pte.p :=
    hall fun v hv => hbit hv (by decide)
  rw [translateMode_eq_radixWalk hmode, translateMode_eq_radixWalk hmode, radixWalk, radixWalk,
    hpath, List.all_map, hpresent, List.getLast?_map, Option.map_map]
  split
  · refine Option.map_congr fun leaf hleaf => ?_
    have hmem := List.mem_of_getLast? hleaf
    have hframe : mode.frame { leaf with entry := mode.readEntry mem' leaf.addr } =
        mode.frame leaf := by
      rw [frame, frame, hentry hmem, htable leaf.addr (isEntry_path hmode hmem)]
    rw [Function.comp, mapping, mapping, hframe, List.all_map, List.all_map, List.any_map,
      List.map_map]
    congr 1
    · exact hall fun v hv => congrArg (_ || ·) (hbit hv (by decide))
    · exact hall fun v hv => congrArg (_ || ·) (hbit hv (by decide))
    · rw [hany (g := fun v => v.level.carries && test v.entry Pte.nx)]
      exact fun v hv => congrArg (_ && ·) (hbit hv (by decide))
  · rfl

theorem readU8_entry (hmode : mode ≠ off) {a : U64} (ha : mode.IsEntry a) :
    mem.readU8 a = u8 (mode.readEntry mem a) := by
  have hblock := ha.block hmode mem
  have hlow {n : Nat} (v : BitVec n) : byteOf v 0 = u8 v := by
    ext i hi
    simp [byteOf]
  cases mode with
  | off => exact absurd rfl hmode
  | legacy =>
    have hbyte := hblock.byteOf_readU32 (k := 0) (by decide)
    rw [BitVec.add_zero, hlow] at hbyte
    rw [readEntry, if_pos rfl, ← hbyte]
    simp
  | pae | long =>
    have hbyte := hblock.byteOf_readU64 (k := 0) (by decide)
    rw [BitVec.add_zero, hlow] at hbyte
    rw [readEntry, if_neg (by decide), ← hbyte]

theorem or_bit_of_test {v : U64} {k : Nat} (hk : k < 8) (h : test v ((1 : U64) <<< k) = true) :
    u8 v ||| (1 : U8) <<< k = u8 v := by
  rw [test_bit v (by omega)] at h
  apply BitVec.eq_of_getLsbD_eq
  intro i hi
  by_cases hik : i = k
  · simp [hik, hk, h]
  · simp
    omega

/-- Setting bits that are set changes nothing. -/
theorem marks_absorbed (hmode : mode ≠ off) (hwalk : ∀ a ∈ walk, mode.IsEntry a)
    (haccessed : ∀ a ∈ walk, test (mode.readEntry mem a) Pte.a = true)
    (hdirty : write = true → ∀ a, walk.getLast? = some a → test (mode.readEntry mem a) Pte.d = true)
    (b : U64) : mem.readU8 b ||| marks walk write b = mem.readU8 b := by
  have hset {a : U64} (ha : a ∈ walk) {k : Nat} (hk : k < 8)
      (h : test (mode.readEntry mem a) ((1 : U64) <<< k) = true) :
      mem.readU8 a ||| (1 : U8) <<< k = mem.readU8 a := by
    rw [readU8_entry hmode (hwalk a ha)]
    exact or_bit_of_test hk h
  have ha : mem.readU8 b ||| (if b ∈ walk then 0x20 else 0) = mem.readU8 b := by
    split
    · exact hset ‹_› (by decide) (haccessed b ‹_›)
    · exact BitVec.or_zero
  rw [marks, ← BitVec.or_assoc, ha]
  split
  · rename_i hw
    exact hset (List.mem_of_getLast? hw.2) (by decide) (hdirty hw.1 b hw.2)
  · exact BitVec.or_zero

end Marked

end PagingMode

/-! ## Translations -/

namespace Cpu

variable {s t : Cpu} {linear : U64} {write fetch : Bool} {map : Mapping}

/-- An entry of the TLB caches what the tables map its page to, and no bit is left to set: every
entry walked is accessed, and the leaf is dirty where the entry says so. -/
def Caches (s : Cpu) (e : TlbEntry) : Prop :=
  ∀ linear : U64, linear >>> 12 = e.vpage → ∃ map, s.walkOf linear = some map ∧
    map.phys = (e.ppage <<< 12 ||| linear &&& 0xFFF) ∧ map.writable = e.writable ∧
    map.user = e.user ∧ map.exec = e.exec ∧
    (∀ a ∈ map.walk, test (s.pagingMode.readEntry s.mem a) Pte.a = true) ∧
    (e.dirtied = true → ∀ a, map.walk.getLast? = some a →
      test (s.pagingMode.readEntry s.mem a) Pte.d = true)

/-- The TLB agrees with the page tables. -/
def TlbConsistent (s : Cpu) : Prop := ∀ i, (s.tlb i).valid = true → s.Caches (s.tlb i)

/-- The tables map an address and permit the access. -/
structure Permits (s : Cpu) (linear : U64) (write fetch : Bool) (map : Mapping) : Prop where
  canonical : (s.longMode && !X86Emu.canonical linear) = false
  walk : s.walkOf linear = some map
  allowed : s.accessAllowed map.writable map.user map.exec write (s.cpl == 3) fetch = true

theorem pagingMode_ne_off (h : test s.cr0 cr0Pg = true) : s.pagingMode ≠ .off := by
  unfold pagingMode
  rw [if_neg (by simp [h])]
  split
  · exact nofun
  · split <;> exact nofun

theorem walkOf_samePage (h : test s.cr0 cr0Pg = true) {l l' : U64} (hl : l' >>> 12 = l >>> 12) :
    s.walkOf l' = (s.walkOf l).map (PagingMode.served · l') :=
  PagingMode.translateMode_samePage hl (pagingMode_ne_off h)

theorem isEntry_of_walkOf (hpg : test s.cr0 cr0Pg = true) {l : U64}
    (hmap : s.walkOf l = some map) {a : U64} (ha : a ∈ map.walk) :
    s.pagingMode.IsEntry a :=
  PagingMode.isEntry_walk (pagingMode_ne_off hpg) hmap ha

section Marked

variable {walk : List U64} (hpg : test s.cr0 cr0Pg = true)
  (hwalk : ∀ a ∈ walk, s.pagingMode.IsEntry a) {tlb : Fin 256 → TlbEntry} {mem : Memory}
  (hmem : s.mem.Marked mem (marks walk write))
include hpg hwalk hmem

/-- Marks leave every walk as it was. -/
theorem walkOf_marked (l : U64) : { s with tlb, mem }.walkOf l = s.walkOf l :=
  PagingMode.translateMode_marked (pagingMode_ne_off hpg) hwalk hmem s.cr3 l s.nxe

theorem test_mono {a : U64} (ha : s.pagingMode.IsEntry a) {k : Nat} (hk : k < 64)
    (h : test (s.pagingMode.readEntry s.mem a) ((1 : U64) <<< k) = true) :
    test (s.pagingMode.readEntry mem a) ((1 : U64) <<< k) = true := by
  rw [PagingMode.readEntry_marked (pagingMode_ne_off hpg) hwalk hmem ha, PagingMode.test_or hk, h,
    Bool.true_or]

/-- What an entry caches it caches once more bits are marked. -/
theorem Caches.marked {e : TlbEntry} (h : s.Caches e) : { s with tlb, mem }.Caches e := by
  intro l hl
  obtain ⟨map, hmap, hphys, hw, hu, hx, ha, hd⟩ := h l hl
  have hentry {a : U64} (hin : a ∈ map.walk) : s.pagingMode.IsEntry a :=
    isEntry_of_walkOf hpg hmap hin
  refine ⟨map, (walkOf_marked hpg hwalk hmem l).trans hmap, hphys, hw, hu, hx, fun a hin => ?_,
    fun hdirty a hlast => ?_⟩
  · exact test_mono hpg hwalk hmem (hentry hin) (by decide) (ha a hin)
  · exact test_mono hpg hwalk hmem (hentry (List.mem_of_getLast? hlast)) (by decide)
      (hd hdirty a hlast)

end Marked

theorem test_walk_marked (hpg : test s.cr0 cr0Pg = true) (hmap : s.walkOf linear = some map)
    {mem : Memory} (hmem : s.mem.Marked mem (marks map.walk write)) {a : U64} (ha : a ∈ map.walk) :
    test (s.pagingMode.readEntry mem a) Pte.a = true ∧
      (write = true → map.walk.getLast? = some a →
        test (s.pagingMode.readEntry mem a) Pte.d = true) := by
  have hentry : ∀ a ∈ map.walk, s.pagingMode.IsEntry a :=
    fun a ha => isEntry_of_walkOf hpg hmap ha
  obtain ⟨hbita, hbitd⟩ := test_marks map.walk write a
  rw [PagingMode.readEntry_marked (pagingMode_ne_off hpg) hentry hmem (hentry a ha)]
  constructor
  · rw [decide_eq_true ha] at hbita
    rw [Pte.a, PagingMode.test_or (by decide)]
    exact Bool.or_eq_true_iff.mpr (.inr hbita)
  · intro hwrite hlast
    rw [decide_eq_true ⟨hwrite, hlast⟩] at hbitd
    rw [Pte.d, PagingMode.test_or (by decide)]
    exact Bool.or_eq_true_iff.mpr (.inr hbitd)

/-- A filled entry caches its walk, whose bits have been marked. -/
theorem caches_filled (hpg : test s.cr0 cr0Pg = true) (hmap : s.walkOf linear = some map)
    {tlb : Fin 256 → TlbEntry} {mem : Memory} (hmem : s.mem.Marked mem (marks map.walk write)) :
    { s with tlb, mem }.Caches
      { valid := true, vpage := linear >>> 12, ppage := map.phys >>> 12, writable := map.writable
        user := map.user, exec := map.exec, dirtied := write } := by
  intro l hl
  have hwalk : { s with tlb, mem }.walkOf l = some (PagingMode.served map l) := by
    rw [walkOf_marked hpg (fun a ha => isEntry_of_walkOf hpg hmap ha) hmem, walkOf_samePage hpg hl,
      hmap]
    rfl
  refine ⟨_, hwalk, rfl, rfl, rfl, rfl, fun a (ha : a ∈ map.walk) => ?_,
    fun hwrite a (hlast : map.walk.getLast? = some a) => ?_⟩
  · exact (test_walk_marked hpg hmap hmem ha).1
  · exact (test_walk_marked hpg hmap hmem (List.mem_of_getLast? hlast)).2 hwrite hlast

/-- An entry whose page's walk has been marked for a store may say so. -/
theorem caches_dirtied (hpg : test s.cr0 cr0Pg = true) {e : TlbEntry} (he : s.Caches e)
    (hpage : linear >>> 12 = e.vpage) (hmap : s.walkOf linear = some map)
    {tlb : Fin 256 → TlbEntry} {mem : Memory} (hmem : s.mem.Marked mem (marks map.walk true)) :
    { s with tlb, mem }.Caches { e with dirtied := true } := by
  have hold : { s with tlb, mem }.Caches e :=
    he.marked hpg (fun a ha => isEntry_of_walkOf hpg hmap ha) hmem
  have hnew := @caches_filled s linear true map hpg hmap tlb mem hmem
  intro l hl
  obtain ⟨map', hmap', hphys, hw, hu, hx, ha, -⟩ := hold l hl
  obtain ⟨map'', hmap'', -, -, -, -, -, hd⟩ := hnew l (hl.trans hpage.symm)
  obtain rfl : map' = map'' := Option.some.inj (hmap'.symm.trans hmap'')
  exact ⟨map', hmap', hphys, hw, hu, hx, ha, fun _ => hd rfl⟩

/-- Setting an entry that caches a mapping keeps the TLB consistent. -/
theorem TlbConsistent.set (h : s.TlbConsistent) (hpg : test s.cr0 cr0Pg = true) {walk : List U64}
    (hwalk : ∀ a ∈ walk, s.pagingMode.IsEntry a) {mem : Memory}
    (hmem : s.mem.Marked mem (marks walk write)) (i : Fin 256) {e : TlbEntry}
    (he : { s with mem }.Caches e) :
    { s with tlb := fun j => if j = i then e else s.tlb j, mem }.TlbConsistent := by
  intro j hj
  dsimp only at hj ⊢
  by_cases hji : j = i
  · rw [if_pos hji]
    exact he
  · rw [if_neg hji] at hj ⊢
    exact (h j hj).marked hpg hwalk hmem

/-- Without paging an address is its own translation. -/
theorem applyPaging_off (hpg : ¬ test s.cr0 cr0Pg = true) (hg : s.Permits linear write fetch map) :
    applyPagingInner linear write fetch s = (map.phys, s) ∧
      map = ⟨linear, true, true, true, [], 0⟩ := by
  have hmap := hg.walk
  rw [walkOf, pagingMode, if_pos (by simpa using hpg)] at hmap
  obtain rfl : _ = map := Option.some.inj hmap
  refine ⟨?_, rfl⟩
  unfold applyPagingInner
  rw [if_neg (by simp [hg.canonical]), if_pos (by simpa using hpg)]

/-- A granted translation sets the bits of its walk, and keeps the TLB consistent. -/
theorem applyPaging_granted (h : s.TlbConsistent) (hg : s.Permits linear write fetch map) :
    ∃ tlb mem, applyPagingInner linear write fetch s = (map.phys, { s with tlb, mem }) ∧
      s.mem.Marked mem (marks map.walk write) ∧ { s with tlb, mem }.TlbConsistent := by
  by_cases hpg : test s.cr0 cr0Pg
  · unfold applyPagingInner
    rw [if_neg (by simp [hg.canonical]), if_neg (by simp [hpg])]
    dsimp only
    have hmode := pagingMode_ne_off hpg
    have hentry : ∀ a ∈ map.walk, s.pagingMode.IsEntry a :=
      fun a ha => isEntry_of_walkOf hpg hg.walk ha
    have hbytes : map.entryBytes = s.pagingMode.entryBytes :=
      PagingMode.entryBytes_walk hmode hg.walk
    have hmark (w : Bool) :
        s.mem.Marked (markWalk map.entryBytes w map.walk s.mem) (marks map.walk w) := by
      rw [hbytes]
      exact PagingMode.marked_markWalk hmode w hentry s.mem
    split
    · rename_i hhit
      simp only [Bool.and_eq_true, beq_iff_eq] at hhit
      obtain ⟨⟨hvalid, hvpage⟩, -⟩ := hhit
      obtain ⟨map', hmap', hphys, hw, hu, hx, ha, hd⟩ := h _ hvalid linear hvpage.symm
      obtain rfl : map = map' := Option.some.inj (hg.walk.symm.trans hmap')
      rw [← hw, ← hu, ← hx, if_pos hg.allowed, ← hphys]
      split
      · rename_i hfirst
        obtain ⟨rfl, -⟩ := Bool.and_eq_true_iff.mp hfirst
        have hmarked : s.markAccessed linear true = s.setAccessedBits map true := by
          rw [markAccessed, hg.walk]
        rw [hmarked]
        refine ⟨_, _, rfl, hmark true, h.set hpg hentry (hmark true) _ ?_⟩
        rw [hw, hu, hx]
        exact caches_dirtied hpg (h _ hvalid) hvpage.symm hg.walk (hmark true)
      · rename_i hclean
        refine ⟨s.tlb, s.mem, rfl, .refl ?_, h⟩
        refine PagingMode.marks_absorbed hmode hentry ha fun hwrite => hd ?_
        simpa [hwrite] using hclean
    · rw [hg.walk]
      dsimp only
      rw [if_neg (by rw [hg.allowed]; exact nofun)]
      exact ⟨_, _, rfl, hmark write, h.set hpg hentry (hmark write) _
        (caches_filled hpg hg.walk (hmark write))⟩
  · obtain ⟨hresult, rfl⟩ := applyPaging_off hpg hg
    exact ⟨s.tlb, s.mem, hresult, .refl fun b => by simp [marks], h⟩

/-- Any other translation raises an exception, and does nothing else. -/
theorem applyPaging_refused (h : s.TlbConsistent) (hg : ∀ map, ¬ s.Permits linear write fetch map) :
    ∃ f, applyPagingInner linear write fetch s = (unbacked, s.raise f) := by
  unfold applyPagingInner
  by_cases hcanonical : (s.longMode && !X86Emu.canonical linear) = true
  · rw [if_pos hcanonical]
    exact ⟨_, rfl⟩
  · rw [if_neg hcanonical]
    have hrefused {map : Mapping} (hmap : s.walkOf linear = some map) :
        s.accessAllowed map.writable map.user map.exec write (s.cpl == 3) fetch ≠ true :=
      fun hallowed => hg map ⟨Bool.eq_false_iff.mpr hcanonical, hmap, hallowed⟩
    by_cases hpg : test s.cr0 cr0Pg
    · rw [if_neg (by simp [hpg])]
      dsimp only
      split
      · rename_i hhit
        simp only [Bool.and_eq_true, beq_iff_eq] at hhit
        obtain ⟨⟨hvalid, hvpage⟩, -⟩ := hhit
        obtain ⟨map, hmap, -, hw, hu, hx, -⟩ := h _ hvalid linear hvpage.symm
        rw [← hw, ← hu, ← hx, if_neg (hrefused hmap)]
        exact ⟨_, rfl⟩
      · split
        · rename_i map hmap
          rw [if_pos (by simpa using hrefused hmap)]
          exact ⟨_, rfl⟩
        · exact ⟨_, rfl⟩
    · -- without paging every access is permitted
      have hmap : s.walkOf linear = some ⟨linear, true, true, true, [], 0⟩ := by
        rw [walkOf, pagingMode, if_pos (by simpa using hpg)]
        rfl
      refine absurd ?_ (hrefused hmap)
      simp [accessAllowed]

/-- What a successful translation does to memory, and to the next one. -/
structure MarksExactly (s : Cpu) (linear : U64) (write fetch : Bool) (map : Mapping) (t : Cpu) :
    Prop where
  bytes : s.mem.Marked t.mem (marks map.walk write)
  accessed : ∀ a ∈ map.walk, test (s.pagingMode.readEntry t.mem a) Pte.a = true
  dirty : write = true → ∀ a, map.walk.getLast? = some a →
    test (s.pagingMode.readEntry t.mem a) Pte.d = true
  clean : write = false → ∀ a, s.pagingMode.IsEntry a →
    test (s.pagingMode.readEntry t.mem a) Pte.d = test (s.pagingMode.readEntry s.mem a) Pte.d
  walk : t.walkOf linear = some map
  again : ∃ u, applyPagingInner linear write fetch t = (map.phys, u) ∧
    u.pendingException = t.pendingException ∧ ∀ b, u.mem.readU8 b = t.mem.readU8 b
  consistent : t.TlbConsistent

theorem marksExactly_of_marked (hpg : test s.cr0 cr0Pg = true)
    (hg : s.Permits linear write fetch map) {tlb : Fin 256 → TlbEntry} {mem : Memory}
    (hmem : s.mem.Marked mem (marks map.walk write))
    (hcons : { s with tlb, mem }.TlbConsistent) :
    s.MarksExactly linear write fetch map { s with tlb, mem } := by
  have hmode := pagingMode_ne_off hpg
  have hentry : ∀ a ∈ map.walk, s.pagingMode.IsEntry a :=
    fun a ha => isEntry_of_walkOf hpg hg.walk ha
  have hbits {a : U64} (ha : a ∈ map.walk) := test_walk_marked hpg hg.walk hmem ha
  have hwalk : { s with tlb, mem }.walkOf linear = some map :=
    (walkOf_marked hpg hentry hmem linear).trans hg.walk
  have hdirty : write = true → ∀ a, map.walk.getLast? = some a →
      test (s.pagingMode.readEntry mem a) Pte.d = true :=
    fun hwrite a hlast => (hbits (List.mem_of_getLast? hlast)).2 hwrite hlast
  refine ⟨hmem, fun a ha => (hbits ha).1, hdirty, fun hread a ha => ?_, hwalk, ?_, hcons⟩
  · have hbit := (test_marks map.walk write a).2
    rw [decide_eq_false (by simp [hread])] at hbit
    refine (congrArg (test · Pte.d) (PagingMode.readEntry_marked hmode hentry hmem ha)).trans ?_
    rw [Pte.d, PagingMode.test_or (by decide)]
    exact (congrArg (_ || ·) hbit).trans (Bool.or_false _)
  · have hagain : { s with tlb, mem }.Permits linear write fetch map :=
      ⟨hg.canonical, hwalk, hg.allowed⟩
    obtain ⟨tlb', mem', hresult, hmem', -⟩ := applyPaging_granted hcons hagain
    refine ⟨_, hresult, rfl, fun b => ?_⟩
    rw [hmem'.byte]
    exact PagingMode.marks_absorbed hmode hentry (fun a ha => (hbits ha).1) hdirty b

/-- A translation that raises an exception leaves memory alone. One that succeeds sets the accessed
bits of its walk and, for a store, its leaf's dirty bit, and nothing else. -/
theorem accessed_dirty_exact (s : Cpu) (h : s.TlbConsistent) (linear : U64) (write fetch : Bool) :
    (∃ f, applyPagingInner linear write fetch s = (unbacked, s.raise f) ∧
      (s.raise f).mem = s.mem) ∨
    ∃ map t, s.walkOf linear = some map ∧
      applyPagingInner linear write fetch s = (map.phys, t) ∧
      t.pendingException = s.pendingException ∧ s.MarksExactly linear write fetch map t := by
  by_cases hg : ∃ map, s.Permits linear write fetch map
  · obtain ⟨map, hg⟩ := hg
    by_cases hpg : test s.cr0 cr0Pg
    · obtain ⟨tlb, mem, hresult, hmem, hcons⟩ := applyPaging_granted h hg
      exact .inr ⟨map, _, hg.walk, hresult, rfl, marksExactly_of_marked hpg hg hmem hcons⟩
    · obtain ⟨hresult, rfl⟩ := applyPaging_off hpg hg
      refine .inr ⟨_, s, hg.walk, hresult, rfl, ?_⟩
      exact {
        bytes := .refl fun b => by simp [marks]
        accessed := nofun
        dirty := nofun
        clean := fun _ _ _ => rfl
        walk := hg.walk
        again := ⟨s, hresult, rfl, fun _ => rfl⟩
        consistent := h }
  · rw [not_exists] at hg
    obtain ⟨f, hf⟩ := applyPaging_refused h hg
    refine .inl ⟨f, hf, ?_⟩
    unfold raise
    split <;> rfl

end Cpu

theorem consistent_of_empty {s : Cpu} (h : ∀ i, (s.tlb i).valid = false) : s.TlbConsistent :=
  fun i hi => absurd hi (by simp [h i])

/-- A page directory whose first entry names the directory itself: the walk of page 0 reads the
entry twice, and finds the page of the directory. -/
def recursiveTables : Cpu :=
  let s := Cpu.withRam (2 ^ 16) Memory.segment_le 0
  { s with
    cr0 := s.cr0 ||| cr0Pg
    cr3 := 0x1000
    mem := s.mem.writeU32 0x1000 0x1003 }

example : (applyPagingInner 0x10 true false recursiveTables).2.mem.readU32 0x1000 = 0x1063 := by
  decide +kernel

theorem recursive_walk_exact :
    (∃ f, applyPagingInner 0x10 true false recursiveTables =
      (unbacked, recursiveTables.raise f) ∧
      (recursiveTables.raise f).mem = recursiveTables.mem) ∨
    ∃ map t, recursiveTables.walkOf 0x10 = some map ∧
      applyPagingInner 0x10 true false recursiveTables = (map.phys, t) ∧
      t.pendingException = recursiveTables.pendingException ∧
      recursiveTables.MarksExactly 0x10 true false map t :=
  recursiveTables.accessed_dirty_exact (consistent_of_empty fun _ => rfl) 0x10 true false

end X86Emu
