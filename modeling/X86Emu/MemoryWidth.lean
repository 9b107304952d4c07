import X86Emu.MemoryFacts

/-!
# Wide accesses

Where a wide access to physical memory is the sequence of its byte accesses, whatever the memory
holds: everywhere but on the seams of the text window and of the MMIO hole.
-/
namespace X86Emu

namespace Memory

/-- The widths of a wide access. -/
inductive Wide where
  | w2
  | w4
  | w8
  | w16
  deriving DecidableEq, Repr

def Wide.bytes : Wide → Nat
  | .w2 => 2
  | .w4 => 4
  | .w8 => 8
  | .w16 => 16

variable (m : Memory) (a : U64)

/-- Byte stores, one after the other. -/
def writeBytes (n : Nat) (f : Nat → U8) : Memory :=
  (List.range n).foldl (fun m i => m.writeU8 (a + BitVec.ofNat 64 i) (f i)) m

/-- Four bytes read one by one. -/
def bytes4 : U32 := le32 (m.readU8 a) (m.readU8 (a + 1)) (m.readU8 (a + 2)) (m.readU8 (a + 3))

def bytes8 : U64 := le64 (m.bytes4 a) (m.bytes4 (a + 4))

/-- The wide accesses at `a` are their byte accesses. -/
def BytesAgree : Wide → Prop
  | .w2 => m.readU16 a = le16 (m.readU8 a) (m.readU8 (a + 1)) ∧
      ∀ v, m.writeU16 a v = m.writeBytes a 2 (byteOf v)
  | .w4 => m.readU32 a = m.bytes4 a ∧ ∀ v, m.writeU32 a v = m.writeBytes a 4 (byteOf v)
  | .w8 => m.readU64 a = m.bytes8 a ∧ ∀ v, m.writeU64 a v = m.writeBytes a 8 (byteOf v)
  | .w16 => m.readU128 a = m.bytes8 (a + 8) ++ m.bytes8 a ∧
      ∀ v, m.writeU128 a v = m.writeBytes a 16 (byteOf v)

/-- Only the reads of `BytesAgree`. -/
def ReadsAgree : Wide → Prop
  | .w2 => m.readU16 a = le16 (m.readU8 a) (m.readU8 (a + 1))
  | .w4 => m.readU32 a = m.bytes4 a
  | .w8 => m.readU64 a = m.bytes8 a
  | .w16 => m.readU128 a = m.bytes8 (a + 8) ++ m.bytes8 a

/-- Where the text window splits an access, or an access starts in the middle of a cell. -/
def WindowSeam (a : Nat) : Wide → Prop
  | .w2 => a % 2 = 1 ∧ 0xB8000 ≤ a + 1 ∧ a < 0xC0000
  | .w4 => (a % 2 = 1 ∧ 0xB8000 ≤ a + 3 ∧ a < 0xC0000) ∨ a + 2 = 0xC0000
  | .w8 => (a % 2 = 1 ∧ 0xB8000 ≤ a + 7 ∧ a < 0xC0000) ∨ a + 6 = 0xC0000 ∨ a + 2 = 0xC0000
  | .w16 => 0xB8000 ≤ a + 15 ∧ a < 0xC0000

/-- An access that straddles the end of low RAM on a machine with RAM above 4 GiB, or a seam of the
window. -/
def Seam (ram a : Nat) (w : Wide) : Prop :=
  (mmioHoleStart < ram ∧ a < mmioHoleStart ∧ mmioHoleStart < a + w.bytes) ∨ WindowSeam a w

/-! ## Byte stores -/

theorem writeBytes_succ (n : Nat) (f : Nat → U8) :
    m.writeBytes a (n + 1) f = (m.writeBytes a n f).writeU8 (a + BitVec.ofNat 64 n) (f n) := by
  unfold writeBytes
  rw [List.range_succ, List.foldl_append]
  rfl

theorem writeBytes_append (n k : Nat) (f : Nat → U8) :
    m.writeBytes a (n + k) f =
      (m.writeBytes a n f).writeBytes (a + BitVec.ofNat 64 n) k (fun i => f (n + i)) := by
  induction k with
  | zero => rfl
  | succ k ih =>
    rw [← Nat.add_assoc, writeBytes_succ, ih, writeBytes_succ, BitVec.add_assoc, ← BitVec.ofNat_add]

theorem writeBytes_congr {n : Nat} {f g : Nat → U8} (h : ∀ i < n, f i = g i) :
    m.writeBytes a n f = m.writeBytes a n g := by
  induction n with
  | zero => rfl
  | succ n ih =>
    rw [writeBytes_succ, writeBytes_succ, ih (fun i hi => h i (by omega)), h n (by omega)]

theorem ramSize_writeBytes (n : Nat) (f : Nat → U8) : (m.writeBytes a n f).ramSize = m.ramSize := by
  induction n with
  | zero => rfl
  | succ n ih =>
    rw [writeBytes_succ, ← ih]
    unfold writeU8
    split
    · rfl
    · cases (m.writeBytes a n f).slot (a + BitVec.ofNat 64 n) <;> rfl

/-- A block of RAM stored to at once is stored to byte by byte. -/
theorem Block.store_eq {m : Memory} {a : U64} {n i : Nat} (h : m.Block a n) (hv : ¬ inVga a)
    (hs : m.slot a = some i) (f : Nat → U8) : ∀ k ≤ n, m.store i k f = m.writeBytes a k f := by
  intro k
  induction k with
  | zero =>
    intro _
    have hd : (m.store i 0 f).data = m.data := by
      funext j
      exact if_neg (by omega)
    show m.store i 0 f = m
    unfold store at hd ⊢
    rw [show (fun j => if i ≤ j ∧ j < i + 0 then f (j - i) else m.data j) = m.data from hd]
  | succ k ih =>
    intro hk
    have hvk : ¬ inVga (a + BitVec.ofNat 64 k) := fun hc => hv ((h.window k (by omega)).mp hc)
    have hsk : (m.store i k f).slot (a + BitVec.ofNat 64 k) = some (i + k) := by
      have : m.slot (a + BitVec.ofNat 64 k) = some (i + k) := by
        rw [h.slots k (by omega), hs]
        rfl
      exact this
    rw [writeBytes_succ, ← ih (by omega), writeU8_ram _ _ hvk, hsk]
    have hd : (m.store i (k + 1) f).data = ((m.store i k f).store (i + k) 1 fun _ => f k).data := by
      funext j
      simp only [store]
      by_cases h1 : i + k ≤ j ∧ j < i + k + 1
      · obtain rfl : j = i + k := by omega
        rw [if_pos (by omega), if_pos (by omega), Nat.add_sub_cancel_left]
      · by_cases h2 : i ≤ j ∧ j < i + k
        · rw [if_pos (by omega), if_neg h1, if_pos h2]
        · rw [if_neg (by omega), if_neg h1, if_neg h2]
    unfold store at hd ⊢
    dsimp only at hd ⊢
    rw [hd]

/-- An aligned cell stored to at once is stored to half by half. -/
theorem Block.setCell_eq {m : Memory} {a : U64} (h : m.Block a 2) (hv : inVga a) (v : U16) :
    m.setCell ((a.toNat - 0xB8000) / 2) v = m.writeBytes a 2 (byteOf v) := by
  have hadd := h.toNat_add (k := 1) (by omega)
  have hv1 : inVga (a + BitVec.ofNat 64 1) := (h.window 1 (by omega)).mpr hv
  have heven := h.even hv
  have hge := hv.1
  rw [writeBytes_succ, writeBytes_succ, show m.writeBytes a 0 (byteOf v) = m from rfl,
    BitVec.add_zero, writeU8_vga m a hv, writeU8_vga _ _ hv1, hadd, if_pos (by omega),
    if_neg (by omega), show (a.toNat + 1 - 0xB8000) / 2 = (a.toNat - 0xB8000) / 2 by omega]
  have hcell : ∀ c : U16, (c &&& (0xFF00 : U16) ||| u16 (byteOf v 0)) &&& (0x00FF : U16) |||
      u16 (byteOf v 1) <<< 8 = v := by
    intro c
    apply BitVec.eq_of_getLsbD_eq
    intro i hi
    interval_cases i <;> simp [byteOf]
  have ht : ((m.setCell ((a.toNat - 0xB8000) / 2) (m.vgaText ((a.toNat - 0xB8000) / 2) &&& 0xFF00 |||
      u16 (byteOf v 0))).vgaText ((a.toNat - 0xB8000) / 2)) =
      m.vgaText ((a.toNat - 0xB8000) / 2) &&& 0xFF00 ||| u16 (byteOf v 0) := if_pos rfl
  rw [ht, hcell]
  unfold setCell
  dsimp only
  congr 1
  funext j
  by_cases hj : j = (a.toNat - 0xB8000) / 2
  · rw [if_pos hj, if_pos hj]
  · rw [if_neg hj, if_neg hj, if_neg hj]

/-! ## Away from the seams -/

section Agree

variable {m a}

/-- An access the fast path takes, off the seams, is a block. -/
theorem block_of_slot {n i : Nat} (hs : m.slot a = some i) (hi : i + n ≤ m.ramSize) (hn : 0 < n)
    (hole : ¬ (mmioHoleStart < m.ramSize ∧ a.toNat < mmioHoleStart ∧ mmioHoleStart < a.toNat + n))
    (hw : a.toNat + n ≤ 2 ^ 64)
    (hin : a.toNat + n ≤ 0xB8000 ∨ 0xC0000 ≤ a.toNat ∨
      (0xB8000 ≤ a.toNat ∧ a.toNat + n ≤ 0xC0000 ∧ a.toNat % 2 = 0)) : m.Block a n := by
  have hl := m.lowSize_eq
  have hh : mmioHoleStart = 3221225472 := rfl
  have hb : highRamBase = 4294967296 := rfl
  have hadd (k : Nat) (hk : k < n) : (a + BitVec.ofNat 64 k).toNat = a.toNat + k := by
    rw [BitVec.toNat_add, BitVec.toNat_ofNat]
    omega
  refine ⟨hw, ?_, ?_, ?_⟩
  · intro k hk
    simp only [inVga, hadd k hk]
    omega
  · intro hv
    have := hv.1
    have := hv.2
    omega
  · intro k hk
    rw [hs]
    show m.slot (a + BitVec.ofNat 64 k) = some (i + k)
    rw [slot_eq_some_iff, hadd k hk]
    rcases (m.slot_eq_some_iff a).mp hs with h | h
    · left
      omega
    · right
      omega

theorem slot_window (h : a.toNat < 0xC0000) : m.slot a = some a.toNat := by
  have h1 := m.one_mib_le
  have hl := m.lowSize_eq
  have hh : mmioHoleStart = 3221225472 := rfl
  exact (m.slot_eq_some_iff a).mpr (.inl ⟨by omega, rfl⟩)

theorem bytesAgree_w2 (hw : a.toNat + 2 ≤ 2 ^ 64) (h : ¬ Seam m.ramSize a.toNat .w2) :
    BytesAgree m a .w2 := by
  have h1 := m.one_mib_le
  have hh : mmioHoleStart = 3221225472 := rfl
  simp only [Seam, WindowSeam, Wide.bytes] at h
  by_cases hfast : ∃ i, m.slot a = some i ∧ i + 1 < m.ramSize
  · obtain ⟨i, hs, hi⟩ := hfast
    have hblock : m.Block a 2 := block_of_slot hs hi (by omega) (by omega) (by omega) (by omega)
    refine ⟨hblock.readU16_eq, ?_⟩
    intro v
    by_cases hv : inVga a
    · rw [hblock.writeU16_vga hv]
      exact hblock.setCell_eq hv v
    · rw [hblock.writeU16_ram hv, hs]
      exact hblock.store_eq hv hs _ 2 (le_refl 2)
  · have hge : ¬ a.toNat < 0xC0000 := by
      intro hlt
      exact hfast ⟨_, slot_window hlt, by omega⟩
    have hif : ¬ (a ≥ vgaTextBase ∧ a + 1 < vgaTextBase + vgaTextSize) := by
      rw [lt_vga_iff, BitVec.toNat_add]
      have : (1 : U64).toNat = 1 := rfl
      omega
    refine ⟨?_, ?_⟩
    · rw [readU16, if_neg hif]
      cases hs : m.slot a with
      | none => rfl
      | some i => exact if_neg (fun hi => hfast ⟨i, hs, hi⟩)
    · intro v
      rw [writeU16, if_neg hif]
      have hbytes : m.writeBytes a 2 (byteOf v) =
          (m.writeU8 a (byteOf v 0)).writeU8 (a + 1) (byteOf v 1) := by
        rw [writeBytes_succ, writeBytes_succ, BitVec.add_zero]
        rfl
      rw [hbytes]
      cases hs : m.slot a with
      | none => rfl
      | some i => exact if_neg (fun hi => hfast ⟨i, hs, hi⟩)

theorem toNat_add_lit {n k : Nat} (hw : a.toNat + n ≤ 2 ^ 64) (hk : k < n) :
    (a + BitVec.ofNat 64 k).toNat = a.toNat + k := by
  have := a.isLt
  rw [BitVec.toNat_add, BitVec.toNat_ofNat]
  omega

theorem bytesAgree_w4 (hw : a.toNat + 4 ≤ 2 ^ 64) (h : ¬ Seam m.ramSize a.toNat .w4) :
    BytesAgree m a .w4 := by
  have h1 := m.one_mib_le
  have hh : mmioHoleStart = 3221225472 := rfl
  have hadd2 : (a + 2).toNat = a.toNat + 2 := toNat_add_lit hw (k := 2) (by omega)
  have hadd3 : (a + 3).toNat = a.toNat + 3 := toNat_add_lit hw (k := 3) (by omega)
  simp only [Seam, WindowSeam, Wide.bytes] at h
  by_cases hif : a + 3 < vgaTextBase + vgaTextSize ∧ a + 3 ≥ vgaTextBase
  · have hif' := hif
    rw [lt_vga_iff, ge_vga_iff, hadd3] at hif'
    have hlo : BytesAgree m a .w2 := bytesAgree_w2 (by omega) (by
      simp only [Seam, WindowSeam, Wide.bytes]
      omega)
    have hseam (q : Memory) (hq : q.ramSize = m.ramSize) : ¬ Seam q.ramSize (a + 2).toNat .w2 := by
      rw [hadd2, hq]
      simp only [Seam, WindowSeam, Wide.bytes]
      omega
    have hhi : BytesAgree m (a + 2) .w2 := bytesAgree_w2 (by omega) (hseam m rfl)
    have e3 : a + 2 + 1 = a + 3 := by
      rw [BitVec.add_assoc]
      rfl
    refine ⟨?_, ?_⟩
    · rw [readU32, if_pos hif, hlo.1, hhi.1, e3, bytes4, le32_halves]
    · intro v
      have hhi' : BytesAgree (m.writeBytes a 2 (byteOf (u16 v))) (a + 2) .w2 :=
        bytesAgree_w2 (by omega) (hseam _ (ramSize_writeBytes ..))
      rw [writeU32, if_pos hif, hlo.2, hhi'.2, m.writeBytes_append a 2 2]
      rw [m.writeBytes_congr a (fun i hi => (Block.byteOf_halves v (i := i) (by omega)).symm.trans
        (if_pos hi)) (f := byteOf v) (n := 2)]
      apply writeBytes_congr
      intro i hi
      have hb := Block.byteOf_halves v (i := 2 + i) (by omega)
      rw [if_neg (by omega), Nat.add_sub_cancel_left] at hb
      exact hb
  · have hif' := hif
    rw [lt_vga_iff, ge_vga_iff, hadd3] at hif'
    by_cases hfast : ∃ i, m.slot a = some i ∧ i + 3 < m.ramSize
    · obtain ⟨i, hs, hi⟩ := hfast
      have hblock : m.Block a 4 := block_of_slot hs hi (by omega) (by omega) hw (by omega)
      have hv : ¬ inVga a := by
        intro hv
        have := hv.1
        have := hv.2
        omega
      refine ⟨hblock.readU32_eq, ?_⟩
      intro v
      rw [hblock.writeU32_ram hv, hs]
      exact hblock.store_eq hv hs _ 4 (le_refl 4)
    · refine ⟨?_, ?_⟩
      · rw [readU32, if_neg hif]
        cases hs : m.slot a with
        | none => rfl
        | some i => exact if_neg (fun hi => hfast ⟨i, hs, hi⟩)
      · intro v
        rw [writeU32, if_neg hif]
        have hbytes : m.writeBytes a 4 (byteOf v) =
            (((m.writeU8 a (byteOf v 0)).writeU8 (a + 1) (byteOf v 1)).writeU8 (a + 2)
              (byteOf v 2)).writeU8 (a + 3) (byteOf v 3) := by
          rw [writeBytes_succ, writeBytes_succ, writeBytes_succ, writeBytes_succ, BitVec.add_zero]
          rfl
        rw [hbytes]
        cases hs : m.slot a with
        | none => rfl
        | some i => exact if_neg (fun hi => hfast ⟨i, hs, hi⟩)

/-- The halves of a quadword store. -/
theorem writeU64_halves (hlo : ∀ v, m.writeU32 a v = m.writeBytes a 4 (byteOf v))
    (hhi : ∀ (q : Memory) v, q.ramSize = m.ramSize →
      q.writeU32 (a + 4) v = q.writeBytes (a + 4) 4 (byteOf v)) (v : U64) :
    (m.writeU32 a (u32 v)).writeU32 (a + 4) (u32 (v >>> 32)) = m.writeBytes a 8 (byteOf v) := by
  rw [hlo, hhi _ _ (ramSize_writeBytes ..), m.writeBytes_append a 4 4]
  rw [m.writeBytes_congr a (fun i hi => (Block.byteOf_halves64 v (i := i) (by omega)).symm.trans
    (if_pos hi)) (f := byteOf v) (n := 4)]
  apply writeBytes_congr
  intro i hi
  have hb := Block.byteOf_halves64 v (i := 4 + i) (by omega)
  rw [if_neg (by omega), Nat.add_sub_cancel_left] at hb
  exact hb

theorem bytesAgree_w8 (hw : a.toNat + 8 ≤ 2 ^ 64) (h : ¬ Seam m.ramSize a.toNat .w8) :
    BytesAgree m a .w8 := by
  have h1 := m.one_mib_le
  have hh : mmioHoleStart = 3221225472 := rfl
  have hadd4 : (a + 4).toNat = a.toNat + 4 := toNat_add_lit hw (k := 4) (by omega)
  have hadd7 : (a + 7).toNat = a.toNat + 7 := toNat_add_lit hw (k := 7) (by omega)
  simp only [Seam, WindowSeam, Wide.bytes] at h
  have hlo : BytesAgree m a .w4 := bytesAgree_w4 (by omega) (by
    simp only [Seam, WindowSeam, Wide.bytes]
    omega)
  have hhi (q : Memory) (hq : q.ramSize = m.ramSize) : BytesAgree q (a + 4) .w4 := by
    apply bytesAgree_w4 (by omega)
    rw [hadd4, hq]
    simp only [Seam, WindowSeam, Wide.bytes]
    omega
  have hhalves : le64 (m.readU32 a) (m.readU32 (a + 4)) = m.bytes8 a := by
    rw [hlo.1, (hhi m rfl).1, bytes8]
  by_cases hif : a + 7 ≥ vgaTextBase ∧ a < vgaTextBase + vgaTextSize
  · refine ⟨?_, ?_⟩
    · rw [readU64, if_pos hif, hhalves]
    · intro v
      rw [writeU64, if_pos hif]
      exact writeU64_halves hlo.2 (fun q v hq => (hhi q hq).2 v) v
  · have hif' := hif
    rw [lt_vga_iff, ge_vga_iff, hadd7] at hif'
    by_cases hfast : ∃ i, m.slot a = some i ∧ i + 7 < m.ramSize
    · obtain ⟨i, hs, hi⟩ := hfast
      have hblock : m.Block a 8 := block_of_slot hs hi (by omega) (by omega) hw (by omega)
      have hv : ¬ inVga a := by
        intro hv
        have := hv.1
        have := hv.2
        omega
      refine ⟨?_, ?_⟩
      · rw [hblock.readU64_eq, bytes8, bytes4, bytes4]
        have e (j : Nat) : a + 4 + BitVec.ofNat 64 j = a + BitVec.ofNat 64 (4 + j) := by
          rw [BitVec.add_assoc, BitVec.ofNat_add]
          rfl
        rw [show a + 4 + 1 = _ from e 1, show a + 4 + 2 = _ from e 2, show a + 4 + 3 = _ from e 3]
        rfl
      · intro v
        rw [hblock.writeU64_ram hv, hs]
        exact hblock.store_eq hv hs _ 8 (le_refl 8)
    · refine ⟨?_, ?_⟩
      · rw [readU64, if_neg hif]
        cases hs : m.slot a with
        | none => exact hhalves
        | some i => exact (if_neg (fun hi => hfast ⟨i, hs, hi⟩)).trans hhalves
      · intro v
        rw [writeU64, if_neg hif]
        cases hs : m.slot a with
        | none => rfl
        | some i => exact if_neg (fun hi => hfast ⟨i, hs, hi⟩)

/-- Four bytes of the backing store, as a block of RAM reads them. -/
theorem Block.bytes4_ram {n i : Nat} (h : m.Block a n) (hv : ¬ inVga a) (hs : m.slot a = some i)
    (k : Nat) (hk : k + 4 ≤ n) : m.bytes4 (a + BitVec.ofNat 64 k) =
      le32 (m.data (i + k)) (m.data (i + k + 1)) (m.data (i + k + 2)) (m.data (i + k + 3)) := by
  have e (j : Nat) : a + BitVec.ofNat 64 k + BitVec.ofNat 64 j = a + BitVec.ofNat 64 (k + j) := by
    rw [BitVec.add_assoc, ← BitVec.ofNat_add]
  have hr (j : Nat) (hj : j < 4) := h.readU8_ram hv hs (k := k + j) (by omega)
  rw [bytes4, show a + BitVec.ofNat 64 k + 1 = _ from e 1, show a + BitVec.ofNat 64 k + 2 = _ from e 2,
    show a + BitVec.ofNat 64 k + 3 = _ from e 3, hr 1 (by omega), hr 2 (by omega), hr 3 (by omega),
    show m.readU8 (a + BitVec.ofNat 64 k) = _ from hr 0 (by omega)]
  rfl

theorem byteOf_halves128 (v : U128) {i : Nat} (hi : i < 16) :
    (if i < 8 then byteOf (u64 v) i else byteOf (u64 (v >>> 64)) (i - 8)) = byteOf v i := by
  apply BitVec.eq_of_getLsbD_eq
  intro j hj
  split
  · simp only [byteOf, BitVec.getLsbD_extractLsb', BitVec.getLsbD_setWidth, hj, decide_true,
      Bool.true_and]
    simp
    omega
  · simp only [byteOf, BitVec.getLsbD_extractLsb', BitVec.getLsbD_setWidth, BitVec.getLsbD_ushiftRight,
      hj, decide_true, Bool.true_and]
    rw [show 64 + (8 * (i - 8) + j) = 8 * i + j by omega, decide_eq_true (by omega), Bool.true_and]

theorem bytesAgree_w16 (hw : a.toNat + 16 ≤ 2 ^ 64) (h : ¬ Seam m.ramSize a.toNat .w16) :
    BytesAgree m a .w16 := by
  have h1 := m.one_mib_le
  have hh : mmioHoleStart = 3221225472 := rfl
  have hadd8 : (a + 8).toNat = a.toNat + 8 := toNat_add_lit hw (k := 8) (by omega)
  simp only [Seam, WindowSeam, Wide.bytes] at h
  have hlo : BytesAgree m a .w8 := bytesAgree_w8 (by omega) (by
    simp only [Seam, WindowSeam, Wide.bytes]
    omega)
  have hhi (q : Memory) (hq : q.ramSize = m.ramSize) : BytesAgree q (a + 8) .w8 := by
    apply bytesAgree_w8 (by omega)
    rw [hadd8, hq]
    simp only [Seam, WindowSeam, Wide.bytes]
    omega
  have hreads : m.readU64 (a + 8) ++ m.readU64 a = m.bytes8 (a + 8) ++ m.bytes8 a := by
    rw [hlo.1, (hhi m rfl).1]
  have hwrites (v : U128) : (m.writeU64 a (u64 v)).writeU64 (a + 8) (u64 (v >>> 64)) =
      m.writeBytes a 16 (byteOf v) := by
    rw [hlo.2, (hhi _ (ramSize_writeBytes ..)).2, m.writeBytes_append a 8 8]
    rw [m.writeBytes_congr a (fun i hi => (byteOf_halves128 v (i := i) (by omega)).symm.trans
      (if_pos hi)) (f := byteOf v) (n := 8)]
    apply writeBytes_congr
    intro i hi
    have hb := byteOf_halves128 v (i := 8 + i) (by omega)
    rw [if_neg (by omega), Nat.add_sub_cancel_left] at hb
    exact hb
  by_cases hfast : ∃ i, m.slot a = some i ∧ i + 15 < m.ramSize
  · obtain ⟨i, hs, hi⟩ := hfast
    have hblock : m.Block a 16 := block_of_slot hs hi (by omega) (by omega) hw (by omega)
    have hv : ¬ inVga a := by
      intro hv
      have := hv.1
      have := hv.2
      omega
    refine ⟨?_, ?_⟩
    · have hword (k : Nat) (hk : k + 4 ≤ 16) := hblock.bytes4_ram hv hs k hk
      have e12 : a + 8 + 4 = a + BitVec.ofNat 64 12 := by
        rw [BitVec.add_assoc]
        rfl
      have h0 := hword 0 (by omega)
      rw [BitVec.add_zero] at h0
      rw [readU128, hs]
      dsimp only
      rw [if_pos hi, bytes8, bytes8, e12, hword 12 (by omega), h0,
        show m.bytes4 (a + 8) = _ from hword 8 (by omega),
        show m.bytes4 (a + 4) = _ from hword 4 (by omega)]
    · intro v
      rw [writeU128, hs]
      exact (if_pos hi).trans (hblock.store_eq hv hs _ 16 (le_refl 16))
  · refine ⟨?_, ?_⟩
    · rw [readU128]
      cases hs : m.slot a with
      | none => exact hreads
      | some i => exact (if_neg (fun hi => hfast ⟨i, hs, hi⟩)).trans hreads
    · intro v
      rw [writeU128]
      cases hs : m.slot a with
      | none => exact hwrites v
      | some i => exact (if_neg (fun hi => hfast ⟨i, hs, hi⟩)).trans (hwrites v)

end Agree

/-! ## On the seams

A memory of zeros whose text cells all hold 0x2211 tells the accesses apart on every seam. -/

/-- The same layout, with zero RAM and a constant text window. -/
def probe : Memory := { m with data := fun _ => 0, vgaText := fun _ => 0x2211 }

section Seams

variable {m a}

theorem probe_slot (b : U64) : (probe m).slot b = m.slot b := rfl

theorem probe_vga (h : inVga a) :
    (probe m).readU8 a = if a.toNat % 2 = 0 then 0x11 else 0x22 := by
  have hge := h.1
  have hcell (i : Nat) : (probe m).vgaText i = 0x2211 := rfl
  rw [readU8_vga _ a h, hcell]
  by_cases h2 : a.toNat % 2 = 0
  · rw [if_pos (by omega), if_pos h2]
    rfl
  · rw [if_neg (by omega), if_neg h2]
    rfl

theorem probe_hole (h1 : mmioHoleStart < m.ramSize) (h : a.toNat = mmioHoleStart) :
    (probe m).readU8 a = 0xFF := by
  have hh : mmioHoleStart = 3221225472 := rfl
  have hb : highRamBase = 4294967296 := rfl
  have hl := m.lowSize_eq
  have hv : ¬ inVga a := by
    intro hv
    have := hv.2
    omega
  have hs : (probe m).slot a = none := by
    rw [probe_slot, ← Option.not_isSome_iff_eq_none, Option.isSome_iff_exists]
    rintro ⟨i, hi⟩
    rcases (m.slot_eq_some_iff a).mp hi with h2 | h2 <;> omega
  rw [readU8_ram _ _ hv, readU8Raw, hs]

theorem le16_inj {b0 b1 c0 c1 : U8} (h : le16 b0 b1 = le16 c0 c1) : b0 = c0 ∧ b1 = c1 := by
  have e (x y : U8) : byteOf (le16 x y) 0 = x ∧ byteOf (le16 x y) 1 = y := by
    constructor <;>
    · ext i hi
      simp [le16, byteOf]
      grind
  exact ⟨by rw [← (e b0 b1).1, h, (e c0 c1).1], by rw [← (e b0 b1).2, h, (e c0 c1).2]⟩

theorem le32_inj {b0 b1 b2 b3 c0 c1 c2 c3 : U8} (h : le32 b0 b1 b2 b3 = le32 c0 c1 c2 c3) :
    b0 = c0 ∧ b1 = c1 ∧ b2 = c2 ∧ b3 = c3 := by
  have e := byteOf_le32 b0 b1 b2 b3
  have e' := byteOf_le32 c0 c1 c2 c3
  rw [h] at e
  exact ⟨e.1.symm.trans e'.1, e.2.1.symm.trans e'.2.1, e.2.2.1.symm.trans e'.2.2.1,
    e.2.2.2.symm.trans e'.2.2.2⟩

theorem append_inj {n k : Nat} {x x' : BitVec n} {y y' : BitVec k} (h : x ++ y = x' ++ y') :
    x = x' ∧ y = y' := by
  have hlo : y = y' := by
    apply BitVec.eq_of_getLsbD_eq
    intro i hi
    have := congrArg (fun v => BitVec.getLsbD v i) h
    simpa [BitVec.getLsbD_append, hi] using this
  have hhi : x = x' := by
    apply BitVec.eq_of_getLsbD_eq
    intro i hi
    have := congrArg (fun v => BitVec.getLsbD v (k + i)) h
    simpa [BitVec.getLsbD_append] using this
  exact ⟨hhi, hlo⟩

/-- Where the fast path is taken the probe reads zero. -/
theorem probe_fast16 {i : Nat} (hs : m.slot a = some i) (hi : i + 1 < m.ramSize)
    (hv : ¬ (a ≥ vgaTextBase ∧ a + 1 < vgaTextBase + vgaTextSize)) : (probe m).readU16 a = le16 0 0 := by
  rw [readU16, if_neg hv, probe_slot, hs]
  exact if_pos hi

theorem probe_fast32 {i : Nat} (hs : m.slot a = some i) (hi : i + 3 < m.ramSize)
    (hv : ¬ (a + 3 < vgaTextBase + vgaTextSize ∧ a + 3 ≥ vgaTextBase)) :
    (probe m).readU32 a = le32 0 0 0 0 := by
  rw [readU32, if_neg hv, probe_slot, hs]
  exact if_pos hi

theorem probe_fast64 {i : Nat} (hs : m.slot a = some i) (hi : i + 7 < m.ramSize)
    (hv : ¬ (a + 7 ≥ vgaTextBase ∧ a < vgaTextBase + vgaTextSize)) :
    (probe m).readU64 a = le64 (le32 0 0 0 0) (le32 0 0 0 0) := by
  rw [readU64, if_neg hv, probe_slot, hs]
  exact if_pos hi

theorem probe_fast128 {i : Nat} (hs : m.slot a = some i) (hi : i + 15 < m.ramSize) :
    (probe m).readU128 a =
      le64 (le32 0 0 0 0) (le32 0 0 0 0) ++ le64 (le32 0 0 0 0) (le32 0 0 0 0) := by
  rw [readU128, probe_slot, hs]
  exact if_pos hi

theorem BytesAgree.reads {w : Wide} (h : BytesAgree m a w) : ReadsAgree m a w := by
  cases w with
  | w2 => exact h.1
  | w4 => exact h.1
  | w8 => exact h.1
  | w16 => exact h.1

/-- A wide access that reads zeros over a byte that is not zero is not its byte accesses. -/
theorem bytes_zero (w : Wide) (h : ReadsAgree (probe m) a w)
    (hz : match w with
      | .w2 => (probe m).readU16 a = le16 0 0
      | .w4 => (probe m).readU32 a = le32 0 0 0 0
      | .w8 => (probe m).readU64 a = le64 (le32 0 0 0 0) (le32 0 0 0 0)
      | .w16 => (probe m).readU128 a =
          le64 (le32 0 0 0 0) (le32 0 0 0 0) ++ le64 (le32 0 0 0 0) (le32 0 0 0 0)) :
    ∀ k < w.bytes, (probe m).readU8 (a + BitVec.ofNat 64 k) = 0 := by
  have e (k j : Nat) : a + BitVec.ofNat 64 k + BitVec.ofNat 64 j = a + BitVec.ofNat 64 (k + j) := by
    rw [BitVec.add_assoc, ← BitVec.ofNat_add]
  -- four zero bytes at an offset
  have h4 (k : Nat) (hb : (probe m).bytes4 (a + BitVec.ofNat 64 k) = le32 0 0 0 0) :
      ∀ j < 4, (probe m).readU8 (a + BitVec.ofNat 64 (k + j)) = 0 := by
    obtain ⟨h0, h1, h2, h3⟩ := le32_inj hb
    intro j hj
    rw [← e]
    interval_cases j
    · rw [BitVec.add_zero]
      exact h0
    · exact h1
    · exact h2
    · exact h3
  have h8 (k : Nat) (hb : (probe m).bytes8 (a + BitVec.ofNat 64 k) =
      le64 (le32 0 0 0 0) (le32 0 0 0 0)) :
      ∀ j < 8, (probe m).readU8 (a + BitVec.ofNat 64 (k + j)) = 0 := by
    obtain ⟨hhi, hlo⟩ := append_inj hb
    intro j hj
    by_cases hj4 : j < 4
    · exact h4 k hlo j hj4
    · have hup : (probe m).bytes4 (a + BitVec.ofNat 64 (k + 4)) = le32 0 0 0 0 := by
        rw [← e]
        exact hhi
      have := h4 (k + 4) hup (j - 4) (by omega)
      rwa [show k + 4 + (j - 4) = k + j by omega] at this
  intro k hk
  cases w with
  | w2 =>
    obtain ⟨h0, h1⟩ := le16_inj (h.symm.trans hz)
    have hk2 : k < 2 := hk
    interval_cases k
    · rw [BitVec.add_zero]
      exact h0
    · exact h1
  | w4 =>
    have := h4 0 (by rw [BitVec.add_zero]; exact h.symm.trans hz) k hk
    rwa [Nat.zero_add] at this
  | w8 =>
    have := h8 0 (by rw [BitVec.add_zero]; exact h.symm.trans hz) k hk
    rwa [Nat.zero_add] at this
  | w16 =>
    obtain ⟨hhi, hlo⟩ := append_inj (h.symm.trans hz)
    have hk16 : k < 16 := hk
    by_cases hk8 : k < 8
    · have := h8 0 (by rw [BitVec.add_zero]; exact hlo) k hk8
      rwa [Nat.zero_add] at this
    · have := h8 8 hhi (k - 8) (by omega)
      rwa [show 8 + (k - 8) = k by omega] at this

/-- The fast path reads across the end of low RAM. -/
theorem not_readsAgree_hole (w : Wide) (h1 : mmioHoleStart < m.ramSize) (h2 : a.toNat < mmioHoleStart)
    (h3 : mmioHoleStart < a.toNat + w.bytes) : ¬ ReadsAgree (probe m) a w := by
  intro hagree
  have hh : mmioHoleStart = 3221225472 := rfl
  have hp := m.whole_pages
  have hl := m.lowSize_eq
  have hs : m.slot a = some a.toNat := (m.slot_eq_some_iff a).mpr (.inl ⟨by omega, rfl⟩)
  have hw : w.bytes ≤ 16 := by cases w <;> decide
  have hzero := bytes_zero w hagree (by
    cases w with
    | w2 =>
      have : Wide.bytes .w2 = 2 := rfl
      refine probe_fast16 hs (by omega) ?_
      rw [lt_vga_iff, show (a + 1).toNat = _ from toNat_add_lit (n := 2) (k := 1) (by omega) (by omega)]
      omega
    | w4 =>
      have : Wide.bytes .w4 = 4 := rfl
      refine probe_fast32 hs (by omega) ?_
      rw [lt_vga_iff, show (a + 3).toNat = _ from toNat_add_lit (n := 4) (k := 3) (by omega) (by omega)]
      omega
    | w8 =>
      have : Wide.bytes .w8 = 8 := rfl
      refine probe_fast64 hs (by omega) ?_
      rw [lt_vga_iff]
      omega
    | w16 =>
      have : Wide.bytes .w16 = 16 := rfl
      exact probe_fast128 hs (by omega))
  have hk := hzero (mmioHoleStart - a.toNat) (by omega)
  have hat : (a + BitVec.ofNat 64 (mmioHoleStart - a.toNat)).toNat = mmioHoleStart := by
    rw [toNat_add_lit (n := 16) (by omega) (by omega)]
    omega
  rw [probe_hole h1 hat] at hk
  exact absurd hk (by decide)

/-- A byte of the window is never the zero the fast path reads for it. -/
theorem probe_vga_ne_zero (h : inVga a) : (probe m).readU8 a ≠ 0 := by
  rw [probe_vga h]
  split <;> decide

theorem not_readsAgree_window2 (hw : a.toNat + 2 ≤ 2 ^ 64) (h : WindowSeam a.toNat .w2) :
    ¬ ReadsAgree (probe m) a .w2 := by
  obtain ⟨hodd, hlo, hhi⟩ := h
  have h1 := m.one_mib_le
  intro hagree
  have hadd : (a + 1).toNat = a.toNat + 1 := toNat_add_lit hw (k := 1) (by omega)
  by_cases hin : 0xB8000 ≤ a.toNat ∧ a.toNat + 1 < 0xC0000
  · -- both bytes come out of the cell the first one is in
    have hcell : (probe m).readU16 a = le16 0x11 0x22 := by
      rw [readU16, if_pos (by rw [ge_vga_iff, lt_vga_iff, hadd]; exact hin)]
      rfl
    have hbyte := (le16_inj (hcell.symm.trans hagree)).1
    rw [probe_vga ⟨hin.1, hhi⟩, if_neg (by omega)] at hbyte
    exact absurd hbyte (by decide)
  · have hzero := bytes_zero .w2 hagree (probe_fast16 (slot_window hhi) (by omega) (by
      rw [ge_vga_iff, lt_vga_iff, hadd]
      exact hin))
    by_cases hbase : 0xB8000 ≤ a.toNat
    · exact probe_vga_ne_zero ⟨hbase, hhi⟩ (by simpa using hzero 0 (by decide))
    · have hv : inVga (a + 1) := by
        constructor <;> omega
      exact probe_vga_ne_zero hv (hzero 1 (by decide))

theorem words_inj {x x' y y' : U16} {v v' : U32} (hv : v = x ++ y) (hv' : v' = x' ++ y')
    (h : v = v') : x = x' ∧ y = y' :=
  append_inj (n := 16) (k := 16) (hv.symm.trans (h.trans hv'))

theorem not_readsAgree_window4 (hw : a.toNat + 4 ≤ 2 ^ 64) (h : WindowSeam a.toNat .w4) :
    ¬ ReadsAgree (probe m) a .w4 := by
  have h1 := m.one_mib_le
  intro hagree
  have hadd2 : (a + 2).toNat = a.toNat + 2 := toNat_add_lit hw (k := 2) (by omega)
  have hadd3 : (a + 3).toNat = a.toNat + 3 := toNat_add_lit hw (k := 3) (by omega)
  have hlt : a.toNat < 0xC0000 := by
    rcases h with h | h <;> omega
  by_cases hif : a.toNat + 3 < 0xC0000
  · -- the upper half is a word of its own, on a seam of its own
    have hodd : a.toNat % 2 = 1 ∧ 0xB8000 ≤ a.toNat + 3 := by
      rcases h with h | h <;> omega
    have hread : (probe m).readU32 a = (probe m).readU16 (a + 2) ++ (probe m).readU16 a := by
      rw [readU32, if_pos]
      rw [lt_vga_iff, ge_vga_iff, hadd3]
      exact ⟨hif, hodd.2⟩
    have hbytes : (probe m).bytes4 a = le16 ((probe m).readU8 (a + 2)) ((probe m).readU8 (a + 3)) ++
        le16 ((probe m).readU8 a) ((probe m).readU8 (a + 1)) := by
      rw [bytes4, le32_halves]
    have hhalf := (words_inj hread hbytes hagree).1
    have e3 : a + 2 + 1 = a + 3 := by
      rw [BitVec.add_assoc]
      rfl
    rw [← e3] at hhalf
    have hseam : WindowSeam (a + 2).toNat .w2 := by
      rw [hadd2]
      exact ⟨by omega, by omega, by omega⟩
    exact not_readsAgree_window2 (by omega) hseam hhalf
  · have hzero := bytes_zero .w4 hagree (probe_fast32 (slot_window hlt) (by omega) (by
      rw [lt_vga_iff, hadd3]
      omega))
    exact probe_vga_ne_zero ⟨by omega, hlt⟩ (by simpa using hzero 0 (by decide))

theorem dwords_inj {x x' y y' : U32} {v v' : U64} (hv : v = le64 y x) (hv' : v' = le64 y' x')
    (h : v = v') : y = y' ∧ x = x' :=
  (append_inj (n := 32) (k := 32) (hv.symm.trans (h.trans hv'))).symm

theorem not_readsAgree_window8 (hw : a.toNat + 8 ≤ 2 ^ 64) (h : WindowSeam a.toNat .w8) :
    ¬ ReadsAgree (probe m) a .w8 := by
  intro hagree
  have hadd4 : (a + 4).toNat = a.toNat + 4 := toNat_add_lit hw (k := 4) (by omega)
  have hadd7 : (a + 7).toNat = a.toNat + 7 := toNat_add_lit hw (k := 7) (by omega)
  have hread : (probe m).readU64 a = le64 ((probe m).readU32 a) ((probe m).readU32 (a + 4)) := by
    rw [readU64, if_pos]
    rw [ge_vga_iff, lt_vga_iff, hadd7]
    rcases h with h | h | h <;> omega
  obtain ⟨hlo, hhi⟩ := dwords_inj hread rfl hagree
  by_cases hseam : WindowSeam a.toNat .w4
  · exact not_readsAgree_window4 (by omega) hseam hlo
  · refine not_readsAgree_window4 (by omega) ?_ hhi
    rw [hadd4]
    simp only [WindowSeam] at h hseam ⊢
    omega

theorem not_readsAgree_window16 (hw : a.toNat + 16 ≤ 2 ^ 64) (h : WindowSeam a.toNat .w16) :
    ¬ ReadsAgree (probe m) a .w16 := by
  obtain ⟨hlo, hhi⟩ := h
  have h1 := m.one_mib_le
  intro hagree
  have hzero := bytes_zero .w16 hagree (probe_fast128 (slot_window hhi) (by omega))
  by_cases hbase : 0xB8000 ≤ a.toNat
  · exact probe_vga_ne_zero ⟨hbase, hhi⟩ (by simpa using hzero 0 (by decide))
  · have hat := toNat_add_lit hw (k := 0xB8000 - a.toNat) (by omega)
    exact probe_vga_ne_zero ⟨by omega, by omega⟩ (hzero (0xB8000 - a.toNat)
      (show 0xB8000 - a.toNat < 16 by omega))

theorem not_readsAgree (w : Wide) (hw : a.toNat + w.bytes ≤ 2 ^ 64) (h : Seam m.ramSize a.toNat w) :
    ¬ ReadsAgree (probe m) a w := by
  rcases h with ⟨h1, h2, h3⟩ | h
  · exact not_readsAgree_hole w h1 h2 h3
  · cases w with
    | w2 => exact not_readsAgree_window2 hw h
    | w4 => exact not_readsAgree_window4 hw h
    | w8 => exact not_readsAgree_window8 hw h
    | w16 => exact not_readsAgree_window16 hw h

end Seams

variable {m a}

theorem bytesAgree (w : Wide) (hw : a.toNat + w.bytes ≤ 2 ^ 64) (h : ¬ Seam m.ramSize a.toNat w) :
    BytesAgree m a w := by
  cases w with
  | w2 => exact bytesAgree_w2 hw h
  | w4 => exact bytesAgree_w4 hw h
  | w8 => exact bytesAgree_w8 hw h
  | w16 => exact bytesAgree_w16 hw h

end Memory

open Memory

/-- Every access of a width at an address is the sequence of its byte accesses, in every memory of
a size, just where the access is on no seam. -/
theorem wideAccess_iff (m : Memory) (a : U64) (w : Wide) (h : a.toNat + 15 < 2 ^ 64) :
    (∀ q : Memory, q.ramSize = m.ramSize → BytesAgree q a w) ↔ ¬ Seam m.ramSize a.toNat w := by
  have hw : a.toNat + w.bytes ≤ 2 ^ 64 := by
    have : w.bytes ≤ 16 := by cases w <;> decide
    omega
  constructor
  · intro hall hseam
    exact not_readsAgree w hw hseam (hall (probe m) rfl).reads
  · intro hseam q hq
    exact bytesAgree w hw (by rwa [hq])

/-- A doubleword at the end of low RAM of a machine with 4 GiB. -/
theorem wideAccess_belowHole :
    (0xBFFFFFFC : U64).toNat + 15 < 2 ^ 64 ∧
      ∀ q : Memory, q.ramSize = (Memory.withSize (2 ^ 32) (by decide)).ramSize →
        BytesAgree q 0xBFFFFFFC .w4 :=
  ⟨by decide, (wideAccess_iff (Memory.withSize (2 ^ 32) (by decide)) 0xBFFFFFFC .w4
    (by decide)).mpr (by
      simp only [Seam, WindowSeam, Wide.bytes]
      decide)⟩

/-- In a blank machine the word at the first odd address of the text window is the cell there, its
bytes the other way round. -/
theorem oddCell_swapped :
    (Memory.withSize (2 ^ 20) (by decide)).readU16 0xB8001 = 0x0720 ∧
      le16 ((Memory.withSize (2 ^ 20) (by decide)).readU8 0xB8001)
        ((Memory.withSize (2 ^ 20) (by decide)).readU8 0xB8002) = 0x2007 ∧
      ¬ BytesAgree (Memory.withSize (2 ^ 20) (by decide)) 0xB8001 .w2 := by
  have h1 : (Memory.withSize (2 ^ 20) (by decide)).readU16 0xB8001 = 0x0720 := by decide +kernel
  have h2 : le16 ((Memory.withSize (2 ^ 20) (by decide)).readU8 0xB8001)
      ((Memory.withSize (2 ^ 20) (by decide)).readU8 0xB8002) = 0x2007 := by decide +kernel
  exact ⟨h1, h2, fun h => absurd (h1.symm.trans (h.1.trans h2)) (by decide)⟩

end X86Emu
