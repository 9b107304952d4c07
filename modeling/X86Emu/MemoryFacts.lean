import X86Emu.Memory

/-!
# Byte-level memory

Reads and writes of every width, byte by byte. An access that stays inside an aligned block sees and
changes exactly its bytes, whether the block is RAM, the text window or open bus.
-/
namespace X86Emu

namespace Memory

variable (m : Memory) (a b : U64)

/-- The VGA text window. -/
def inVga : Prop := 0xB8000 ≤ a.toNat ∧ a.toNat < 0xC0000

instance : Decidable (inVga a) := inferInstanceAs (Decidable (_ ∧ _))

theorem vga_iff : (a ≥ vgaTextBase ∧ a < vgaTextBase + vgaTextSize) ↔ inVga a := by
  simp only [inVga, ge_iff_le, BitVec.le_def, BitVec.lt_def]
  rfl

/-- A byte a store can change. -/
def backed : Prop := inVga a ∨ (m.slot a).isSome

instance : Decidable (m.backed a) := inferInstanceAs (Decidable (_ ∨ _))

theorem lowSize_le : m.lowSize ≤ mmioHoleStart ∧ m.lowSize ≤ m.ramSize ∧ 4096 ∣ m.lowSize := by
  have h := m.lowSize_eq
  refine ⟨by omega, by omega, ?_⟩
  rw [h]
  rcases min_choice m.ramSize mmioHoleStart with he | he
  · rw [he]
    exact m.whole_pages
  · rw [he]
    decide

theorem slot_eq_some_iff {i : Nat} :
    m.slot a = some i ↔
      (a.toNat < m.lowSize ∧ i = a.toNat) ∨
      (highRamBase ≤ a.toNat ∧ i = a.toNat - highRamBase + m.lowSize ∧ i < m.ramSize) := by
  have h := m.lowSize_le
  unfold slot
  split
  · rename_i hl
    simp only [Option.some.injEq]
    have : mmioHoleStart < highRamBase := by decide
    omega
  · split
    · split
      · simp only [Option.some.injEq]
        omega
      · simp only [reduceCtorEq, false_iff]
        omega
    · simp only [reduceCtorEq, false_iff]
      omega

theorem slot_lt {i : Nat} (h : m.slot a = some i) : i < m.ramSize := by
  have hs := m.lowSize_le
  rcases (m.slot_eq_some_iff a).mp h with h | h <;> omega

/-- Different addresses have different bytes. -/
theorem slot_inj {i : Nat} (ha : m.slot a = some i) (hb : m.slot b = some i) : a = b := by
  rw [slot_eq_some_iff] at ha hb
  apply BitVec.eq_of_toNat_eq
  omega

/-- Inside a page the backing store is contiguous. -/
theorem slot_add {k : Nat} (h : a.toNat % 4096 + k < 4096) :
    m.slot (a + BitVec.ofNat 64 k) = (m.slot a).map (· + k) := by
  obtain ⟨-, -, c, hc⟩ := m.lowSize_le
  obtain ⟨r, hr⟩ := m.whole_pages
  have hlt := a.isLt
  have hk : (a + BitVec.ofNat 64 k).toNat = a.toNat + k := by
    rw [BitVec.toNat_add, BitVec.toNat_ofNat]
    omega
  have hbase : highRamBase = 4096 * 1048576 := by norm_num [highRamBase]
  unfold slot
  rw [hk]
  by_cases h1 : a.toNat < m.lowSize
  · have h1' : a.toNat + k < m.lowSize := by omega
    rw [if_pos h1, if_pos h1']
    rfl
  · rw [if_neg h1, if_neg (by omega)]
    by_cases h2 : highRamBase ≤ a.toNat
    · rw [if_pos h2, if_pos (by omega)]
      by_cases h3 : a.toNat - highRamBase + m.lowSize < m.ramSize
      · rw [if_pos h3, if_pos (by omega)]
        simp only [Option.map_some, Option.some.injEq]
        omega
      · rw [if_neg h3, if_neg (by omega)]
        rfl
    · rw [if_neg h2, if_neg (by omega)]
      rfl

theorem inVga_add {k : Nat} (h : a.toNat % 4096 + k < 4096) :
    inVga (a + BitVec.ofNat 64 k) ↔ inVga a := by
  have hlt := a.isLt
  have hk : (a + BitVec.ofNat 64 k).toNat = a.toNat + k := by
    rw [BitVec.toNat_add, BitVec.toNat_ofNat]
    omega
  unfold inVga
  omega

theorem ge_vga_iff : a ≥ vgaTextBase ↔ 0xB8000 ≤ a.toNat := by
  rw [ge_iff_le, BitVec.le_def]
  rfl

theorem lt_vga_iff : a < vgaTextBase + vgaTextSize ↔ a.toNat < 0xC0000 := by
  rw [BitVec.lt_def]
  rfl

theorem sub_vga (h : inVga a) : (a - vgaTextBase).toNat = a.toNat - 0xB8000 := by
  rw [BitVec.toNat_sub_of_le]
  · rfl
  · exact BitVec.le_def.mpr h.1

/-! ## Single bytes -/

theorem readU8_vga (h : inVga a) :
    m.readU8 a =
      if (a.toNat - 0xB8000) % 2 = 0 then u8 (m.vgaText ((a.toNat - 0xB8000) / 2))
      else u8 (m.vgaText ((a.toNat - 0xB8000) / 2) >>> 8) := by
  have hsub := sub_vga a h
  unfold readU8
  rw [if_pos ((vga_iff a).mpr h), hsub]

theorem readU8_ram (h : ¬ inVga a) : m.readU8 a = m.readU8Raw a := by
  unfold readU8
  rw [if_neg (fun hv => h ((vga_iff a).mp hv))]

theorem writeU8_vga (h : inVga a) (v : U8) :
    m.writeU8 a v = m.setCell ((a.toNat - 0xB8000) / 2)
      (if (a.toNat - 0xB8000) % 2 = 0 then
        m.vgaText ((a.toNat - 0xB8000) / 2) &&& 0xFF00 ||| u16 v
      else m.vgaText ((a.toNat - 0xB8000) / 2) &&& (0x00FF : U16) ||| u16 v <<< 8) := by
  have hsub := sub_vga a h
  unfold writeU8
  rw [if_pos ((vga_iff a).mpr h), hsub]

theorem writeU8_ram (h : ¬ inVga a) (v : U8) :
    m.writeU8 a v = match m.slot a with
      | some i => m.store i 1 fun _ => v
      | none => m := by
  unfold writeU8
  exact if_neg (fun hv => h ((vga_iff a).mp hv))

/-- Replacing one half of a text cell keeps the other. -/
theorem cell_low (c : U16) (v : U8) :
    u8 (c &&& 0xFF00 ||| u16 v) = v ∧ u8 ((c &&& 0xFF00 ||| u16 v) >>> 8) = u8 (c >>> 8) := by
  constructor <;>
  · apply BitVec.eq_of_getLsbD_eq
    intro i hi
    interval_cases i <;> simp

theorem cell_high (c : U16) (v : U8) :
    u8 (c &&& (0x00FF : U16) ||| u16 v <<< 8) = u8 c ∧
      u8 ((c &&& (0x00FF : U16) ||| u16 v <<< 8) >>> 8) = v := by
  constructor <;>
  · apply BitVec.eq_of_getLsbD_eq
    intro i hi
    interval_cases i <;> simp

/-- A byte store changes its own byte, if anything stands behind it. -/
theorem readU8_writeU8 (v : U8) :
    (m.writeU8 a v).readU8 b = if b = a ∧ m.backed a then v else m.readU8 b := by
  by_cases ha : inVga a
  · rw [writeU8_vga m a ha]
    by_cases hb : inVga b
    · rw [readU8_vga _ b hb, readU8_vga m b hb]
      have hba : b = a ↔ (b.toNat - 0xB8000) / 2 = (a.toNat - 0xB8000) / 2 ∧
          (b.toNat - 0xB8000) % 2 = (a.toNat - 0xB8000) % 2 := by
        have h1 := ha.1
        have h2 := hb.1
        constructor
        · rintro rfl
          exact ⟨rfl, rfl⟩
        · rintro ⟨hd, hm⟩
          apply BitVec.eq_of_toNat_eq
          omega
      have hback : m.backed a := .inl ha
      simp only [setCell, hback, and_true, hba]
      by_cases hd : (b.toNat - 0xB8000) / 2 = (a.toNat - 0xB8000) / 2
      · rw [hd]
        simp only [true_and, if_true]
        generalize m.vgaText ((a.toNat - 0xB8000) / 2) = c
        obtain ⟨hl1, hl2⟩ := cell_low c v
        obtain ⟨hh1, hh2⟩ := cell_high c v
        by_cases h0 : (a.toNat - 0xB8000) % 2 = 0
        · by_cases h1 : (b.toNat - 0xB8000) % 2 = 0
          · simp only [h0, h1, if_true, hl1]
          · simp only [h0, h1, if_true, if_false, hl2]
        · by_cases h1 : (b.toNat - 0xB8000) % 2 = 0
          · simp only [h0, h1, if_true, if_false, hh1]
            rw [if_neg (Ne.symm h0)]
          · simp only [h0, h1, if_false, hh2]
            rw [if_pos (by omega)]
      · simp [hd]
    · have hne : b ≠ a := fun he => hb (he ▸ ha)
      have hno : ¬ (b = a ∧ m.backed a) := fun h => hne h.1
      rw [readU8_ram _ b hb, readU8_ram m b hb, if_neg hno]
      rfl
  · rw [writeU8_ram m a ha]
    have hback : m.backed a ↔ (m.slot a).isSome := ⟨fun h => h.resolve_left ha, .inr⟩
    cases hs : m.slot a with
    | none =>
      have : ¬ m.backed a := by simp [hback, hs]
      simp [this]
    | some i =>
      have hbk : m.backed a := hback.mpr (by simp [hs])
      simp only [hbk, and_true]
      by_cases hb : inVga b
      · have hne : b ≠ a := fun he => ha (he ▸ hb)
        rw [if_neg hne, readU8_vga _ b hb, readU8_vga m b hb]
        rfl
      · rw [readU8_ram _ b hb, readU8_ram m b hb]
        have hslot : (m.store i 1 fun _ => v).slot b = m.slot b := rfl
        unfold readU8Raw
        rw [hslot]
        by_cases he : b = a
        · subst he
          simp [hs, store]
        · rw [if_neg he]
          cases hsb : m.slot b with
          | none => rfl
          | some j =>
            have hij : j ≠ i := fun hji => he (m.slot_inj b a (hji ▸ hsb) hs)
            simp only [store]
            rw [if_neg (by omega)]

/-! ## Blocks

A block is a run of bytes the memory treats alike: all in the text window, or all at consecutive
places of the backing store, or all on the open bus. -/

structure Block (n : Nat) : Prop where
  no_wrap : a.toNat + n ≤ 2 ^ 64
  window : ∀ k < n, inVga (a + BitVec.ofNat 64 k) ↔ inVga a
  even : inVga a → a.toNat % 2 = 0
  slots : ∀ k < n, m.slot (a + BitVec.ofNat 64 k) = (m.slot a).map (· + k)

/-- An access that stays in its page is a block. -/
theorem block_of_page {n : Nat} (h : a.toNat % 4096 + n ≤ 4096)
    (he : inVga a → a.toNat % 2 = 0) : m.Block a n where
  no_wrap := by
    have := a.isLt
    omega
  window := by
    intro k hk
    exact inVga_add a (by omega)
  even := he
  slots := by
    intro k hk
    exact m.slot_add a (by omega)

/-- An aligned access is a block. -/
theorem block_of_aligned {n : Nat} (hn : n ∣ 4096) (h2 : 2 ∣ n) (h : n ∣ a.toNat) :
    m.Block a n := by
  obtain ⟨c, hc⟩ := hn
  obtain ⟨d, hd⟩ := h
  have hpos : 0 < n := by
    rcases Nat.eq_zero_or_pos n with h0 | h0
    · simp [h0] at hc
    · exact h0
  apply m.block_of_page a
  · have hmod : a.toNat % 4096 = n * (d % c) := by
      rw [hd, hc, Nat.mul_mod_mul_left]
    have hlt : d % c < c := Nat.mod_lt _ (by
      rcases Nat.eq_zero_or_pos c with h0 | h0
      · simp [h0] at hc
      · exact h0)
    have hle : n * (d % c) + n ≤ n * c := by
      rw [← Nat.mul_succ]
      exact Nat.mul_le_mul_left n hlt
    omega
  · intro _
    obtain ⟨e, he⟩ := h2
    rw [hd, he, Nat.mul_assoc]
    exact Nat.mul_mod_right 2 _

namespace Block

variable {m a} {n : Nat}

theorem toNat_add (h : m.Block a n) {k : Nat} (hk : k < n) :
    (a + BitVec.ofNat 64 k).toNat = a.toNat + k := by
  have := h.no_wrap
  rw [BitVec.toNat_add, BitVec.toNat_ofNat]
  omega

theorem mono (h : m.Block a n) {k : Nat} (hk : k ≤ n) : m.Block a k where
  no_wrap := by
    have := h.no_wrap
    omega
  window i hi := h.window i (by omega)
  even := h.even
  slots i hi := h.slots i (by omega)

/-- The tail of a block from an even offset on. -/
theorem drop (h : m.Block a n) {k : Nat} (hk : k < n) (h2 : k % 2 = 0) :
    m.Block (a + BitVec.ofNat 64 k) (n - k) where
  no_wrap := by
    have := h.no_wrap
    rw [h.toNat_add hk]
    omega
  window i hi := by
    rw [BitVec.add_assoc, ← BitVec.ofNat_add, h.window (k + i) (by omega), h.window k hk]
  even hv := by
    have := h.even ((h.window k hk).mp hv)
    rw [h.toNat_add hk]
    omega
  slots i hi := by
    rw [BitVec.add_assoc, ← BitVec.ofNat_add, h.slots (k + i) (by omega), h.slots k hk]
    simp [Option.map_map, Function.comp_def, Nat.add_assoc]

/-- Either end of a block tells whether it is in the text window. -/
theorem vga_iff (h : m.Block a n) {k : Nat} (hk : k < n) :
    ((0xB8000 ≤ a.toNat ∧ a.toNat + k < 0xC0000) ↔ inVga a) ∧
    ((a.toNat + k < 0xC0000 ∧ 0xB8000 ≤ a.toNat + k) ↔ inVga a) ∧
    ((0xB8000 ≤ a.toNat + k ∧ a.toNat < 0xC0000) ↔ inVga a) := by
  have hend := h.window k hk
  have hmid : 0xB8000 - a.toNat < n → (inVga (a + BitVec.ofNat 64 (0xB8000 - a.toNat)) ↔ inVga a) :=
    fun hj => h.window _ hj
  have hmid' : ∀ hj : 0xB8000 - a.toNat < n,
      (a + BitVec.ofNat 64 (0xB8000 - a.toNat)).toNat = a.toNat + (0xB8000 - a.toNat) :=
    fun hj => h.toNat_add hj
  simp only [inVga, h.toNat_add hk] at hend ⊢
  simp only [inVga] at hmid
  have h3 : a.toNat < 0xB8000 → ¬ (0xB8000 - a.toNat < n) := by
    intro hlt hj
    have h4 := hmid hj
    rw [hmid' hj] at h4
    omega
  omega

theorem slot_lt (h : m.Block a n) {i k : Nat} (hs : m.slot a = some i) (hk : k < n) :
    i + k < m.ramSize :=
  m.slot_lt (a + BitVec.ofNat 64 k) (by rw [h.slots k hk, hs]; rfl)

/-- A block of RAM reads the backing store. -/
theorem readU8_ram (h : m.Block a n) {i k : Nat} (hv : ¬ inVga a) (hs : m.slot a = some i)
    (hk : k < n) : m.readU8 (a + BitVec.ofNat 64 k) = m.data (i + k) := by
  rw [Memory.readU8_ram _ _ (fun hc => hv ((h.window k hk).mp hc)), readU8Raw, h.slots k hk, hs]
  rfl

theorem ofNat_sub (h : m.Block a n) (b : U64) {k : Nat} (hk : k < n) :
    b = a + BitVec.ofNat 64 k ↔ (b - a).toNat = k := by
  have := h.no_wrap
  have := a.isLt
  constructor
  · rintro rfl
    rw [BitVec.add_comm, BitVec.add_sub_cancel, BitVec.toNat_ofNat]
    omega
  · intro hb
    rw [← hb, BitVec.ofNat_toNat, BitVec.setWidth_eq, BitVec.add_comm, BitVec.sub_add_cancel]

theorem backed (h : m.Block a n) {k : Nat} (hk : k < n) :
    m.backed (a + BitVec.ofNat 64 k) ↔ m.backed a := by
  simp only [Memory.backed, h.window k hk, h.slots k hk, Option.isSome_map]

/-! ### Reads -/

theorem readU16_eq (h : m.Block a 2) : m.readU16 a = le16 (m.readU8 a) (m.readU8 (a + 1)) := by
  have hadd : (a + 1).toNat = a.toNat + 1 := h.toNat_add (k := 1) (by omega)
  have hif : (a ≥ vgaTextBase ∧ a + 1 < vgaTextBase + vgaTextSize) ↔ inVga a := by
    rw [ge_vga_iff, lt_vga_iff, hadd]
    exact (h.vga_iff (by omega)).1
  unfold Memory.readU16
  by_cases hv : inVga a
  · have hv1 : inVga (a + 1) := (h.window 1 (by omega)).mpr hv
    have heven := h.even hv
    have hsub : (a - vgaTextBase).toNat = a.toNat - 0xB8000 := sub_vga a hv
    have hge := hv.1
    rw [if_pos (hif.mpr hv), readU8_vga m a hv, readU8_vga m (a + 1) hv1, hadd, hsub,
      if_pos (by omega), if_neg (by omega),
      show (a.toNat + 1 - 0xB8000) / 2 = (a.toNat - 0xB8000) / 2 by omega]
    exact (le16_halves _).symm
  · rw [if_neg (fun hc => hv (hif.mp hc))]
    cases hs : m.slot a with
    | none => rfl
    | some i =>
      have h0 := h.readU8_ram hv hs (k := 0) (by omega)
      have h1 := h.readU8_ram hv hs (k := 1) (by omega)
      simp only [BitVec.add_zero, Nat.add_zero] at h0
      dsimp only
      rw [if_pos (h.slot_lt hs (by omega)), h0]
      exact congrArg (le16 _) h1.symm

theorem readU32_eq (h : m.Block a 4) :
    m.readU32 a = le32 (m.readU8 a) (m.readU8 (a + 1)) (m.readU8 (a + 2)) (m.readU8 (a + 3)) := by
  have hadd : (a + 3).toNat = a.toNat + 3 := h.toNat_add (k := 3) (by omega)
  have hif : (a + 3 < vgaTextBase + vgaTextSize ∧ a + 3 ≥ vgaTextBase) ↔ inVga a := by
    rw [ge_vga_iff, lt_vga_iff, hadd]
    exact (h.vga_iff (by omega)).2.1
  unfold Memory.readU32
  by_cases hv : inVga a
  · have hlo := (h.mono (k := 2) (by omega)).readU16_eq
    have hhi := (h.drop (k := 2) (by omega) (by omega)).readU16_eq
    have e3 : a + BitVec.ofNat 64 2 + 1 = a + 3 := by
      rw [BitVec.add_assoc]
      rfl
    rw [if_pos (hif.mpr hv), hlo]
    rw [e3] at hhi
    exact (congrArg (· ++ _) hhi).trans (le32_halves _ _ _ _).symm
  · rw [if_neg (fun hc => hv (hif.mp hc))]
    cases hs : m.slot a with
    | none => rfl
    | some i =>
      have h0 := h.readU8_ram hv hs (k := 0) (by omega)
      have h1 : m.readU8 (a + 1) = _ := h.readU8_ram hv hs (k := 1) (by omega)
      have h2 : m.readU8 (a + 2) = _ := h.readU8_ram hv hs (k := 2) (by omega)
      have h3 : m.readU8 (a + 3) = _ := h.readU8_ram hv hs (k := 3) (by omega)
      simp only [BitVec.add_zero, Nat.add_zero] at h0
      dsimp only
      rw [if_pos (h.slot_lt hs (by omega)), h0, h1, h2, h3]

theorem readU64_eq (h : m.Block a 8) :
    m.readU64 a =
      le64 (le32 (m.readU8 a) (m.readU8 (a + 1)) (m.readU8 (a + 2)) (m.readU8 (a + 3)))
        (le32 (m.readU8 (a + 4)) (m.readU8 (a + 5)) (m.readU8 (a + 6)) (m.readU8 (a + 7))) := by
  have hadd : (a + 7).toNat = a.toNat + 7 := h.toNat_add (k := 7) (by omega)
  have hif : (a + 7 ≥ vgaTextBase ∧ a < vgaTextBase + vgaTextSize) ↔ inVga a := by
    rw [ge_vga_iff, lt_vga_iff, hadd]
    exact (h.vga_iff (by omega)).2.2
  have hhalves : le64 (m.readU32 a) (m.readU32 (a + 4)) =
      le64 (le32 (m.readU8 a) (m.readU8 (a + 1)) (m.readU8 (a + 2)) (m.readU8 (a + 3)))
        (le32 (m.readU8 (a + 4)) (m.readU8 (a + 5)) (m.readU8 (a + 6)) (m.readU8 (a + 7))) := by
    have hlo := (h.mono (k := 4) (by omega)).readU32_eq
    have hhi : m.readU32 (a + 4) = _ := (h.drop (k := 4) (by omega) (by omega)).readU32_eq
    have e (j : Nat) : a + BitVec.ofNat 64 4 + BitVec.ofNat 64 j = a + BitVec.ofNat 64 (4 + j) := by
      rw [BitVec.add_assoc, ← BitVec.ofNat_add]
    rw [hlo, hhi, show a + BitVec.ofNat 64 4 + 1 = _ from e 1,
      show a + BitVec.ofNat 64 4 + 2 = _ from e 2, show a + BitVec.ofNat 64 4 + 3 = _ from e 3]
    rfl
  unfold Memory.readU64
  dsimp only
  by_cases hv : inVga a
  · rw [if_pos (hif.mpr hv), hhalves]
  · rw [if_neg (fun hc => hv (hif.mp hc))]
    cases hs : m.slot a with
    | none => exact hhalves
    | some i =>
      have h0 := h.readU8_ram hv hs (k := 0) (by omega)
      have hk (k : Nat) (hk : k < 8) := (h.readU8_ram hv hs hk).symm
      simp only [BitVec.add_zero, Nat.add_zero] at h0
      dsimp only
      rw [if_pos (h.slot_lt hs (by omega)), h0, hk 1 (by omega), hk 2 (by omega), hk 3 (by omega),
        hk 4 (by omega), hk 5 (by omega), hk 6 (by omega), hk 7 (by omega)]
      rfl

end Block

/-! ### Writes -/

/-- A store of `n` bytes changes exactly its bytes, where something stands behind them. -/
structure Stored (m m' : Memory) (a : U64) (n : Nat) (f : Nat → U8) : Prop where
  slot : ∀ b, m'.slot b = m.slot b
  byte : ∀ b, m'.readU8 b =
    if (b - a).toNat < n ∧ m.backed b then f (b - a).toNat else m.readU8 b

theorem backed_congr {m m' : Memory} {b : U64} (h : m'.slot b = m.slot b) :
    m'.backed b ↔ m.backed b := by
  rw [backed, backed, h]

theorem slot_writeU8 (v : U8) : (m.writeU8 a v).slot b = m.slot b := by
  unfold writeU8
  split
  · rfl
  · cases m.slot a <;> rfl

theorem stored_writeU8 (v : U8) : Stored m (m.writeU8 a v) a 1 (fun _ => v) where
  slot b := m.slot_writeU8 a b v
  byte b := by
    have hba : (b - a).toNat < 1 ↔ b = a := by
      rw [Nat.lt_one_iff, ← BitVec.toNat_zero (w := 64), BitVec.toNat_inj]
      exact sub_eq_zero
    simp only [readU8_writeU8, hba]
    by_cases h : b = a
    · rw [h]
    · rw [if_neg (fun hc => h hc.1), if_neg (fun hc => h hc.1)]

/-- A block of RAM is stored to at once. -/
theorem Block.stored_store {m : Memory} {a : U64} {n i : Nat} (h : m.Block a n) (hv : ¬ inVga a)
    (hs : m.slot a = some i) (f : Nat → U8) : Stored m (m.store i n f) a n f where
  slot _ := rfl
  byte b := by
    by_cases hb : inVga b
    · have hno : ¬ ((b - a).toNat < n ∧ m.backed b) := by
        rintro ⟨hlt, -⟩
        have he := (h.ofNat_sub b hlt).mpr rfl
        rw [he, h.window _ hlt] at hb
        exact hv hb
      rw [if_neg hno, readU8_vga _ b hb, readU8_vga m b hb]
      rfl
    · rw [Memory.readU8_ram _ b hb, Memory.readU8_ram m b hb]
      have hslot : (m.store i n f).slot b = m.slot b := rfl
      unfold readU8Raw
      rw [hslot]
      cases hsb : m.slot b with
      | none =>
        have hno : ¬ ((b - a).toNat < n ∧ m.backed b) := by
          rintro ⟨-, hc⟩
          rcases hc with hc | hc
          · exact hb hc
          · simp [hsb] at hc
        rw [if_neg hno]
      | some j =>
        have hbk : m.backed b := .inr (by simp [hsb])
        simp only [hbk, and_true, store]
        by_cases hlt : (b - a).toNat < n
        · have he := (h.ofNat_sub b hlt).mpr rfl
          have hj := h.slots _ hlt
          rw [← he, hsb, hs] at hj
          simp only [Option.map_some, Option.some.injEq] at hj
          rw [if_pos hlt, if_pos (by omega)]
          exact congrArg f (by omega)
        · have hno : ¬ (i ≤ j ∧ j < i + n) := by
            intro hj
            have hk : j - i < n := by omega
            have hsj := h.slots _ hk
            rw [hs] at hsj
            have he := m.slot_inj b _ (i := j) hsb (by rw [hsj]; simp; omega)
            exact hlt (by rw [(h.ofNat_sub b hk).mp he]; exact hk)
          rw [if_neg hlt, if_neg hno]

namespace Stored

variable {m m' m'' : Memory} {a : U64} {n k : Nat} {f g : Nat → U8}

theorem congr (h : Stored m m' a n f) (hfg : ∀ i < n, f i = g i) : Stored m m' a n g where
  slot := h.slot
  byte b := by
    rw [h.byte b]
    split
    · rename_i hc
      exact hfg _ hc.1
    · rfl

theorem refl (m : Memory) (a : U64) (f : Nat → U8) : Stored m m a 0 f where
  slot _ := rfl
  byte b := by
    rw [if_neg (fun h => Nat.not_lt_zero _ h.1)]

theorem sub_add (a b : U64) {n k : Nat} (hw : n + k ≤ 2 ^ 64) :
    (b - (a + BitVec.ofNat 64 n)).toNat < k ↔ n ≤ (b - a).toNat ∧ (b - a).toNat < n + k := by
  have h : b - (a + BitVec.ofNat 64 n) = (b - a) - BitVec.ofNat 64 n := by
    rw [BitVec.sub_sub]
  have := (b - a).isLt
  rw [h, BitVec.toNat_sub, BitVec.toNat_ofNat]
  omega

theorem sub_add_toNat (a b : U64) {n : Nat} (hw : n < 2 ^ 64) (h1 : n ≤ (b - a).toNat) :
    (b - (a + BitVec.ofNat 64 n)).toNat = (b - a).toNat - n := by
  have h : b - (a + BitVec.ofNat 64 n) = (b - a) - BitVec.ofNat 64 n := by
    rw [BitVec.sub_sub]
  have := (b - a).isLt
  rw [h, BitVec.toNat_sub, BitVec.toNat_ofNat]
  omega

/-- Two adjacent stores are one. -/
theorem append (h : Stored m m' a n f) (h' : Stored m' m'' (a + BitVec.ofNat 64 n) k g)
    (hw : n + k ≤ 2 ^ 64) : Stored m m'' a (n + k) (fun i => if i < n then f i else g (i - n)) where
  slot b := (h'.slot b).trans (h.slot b)
  byte b := by
    simp only [h'.byte b, h.byte b, backed_congr (h.slot b), sub_add a b hw]
    by_cases hb : m.backed b
    · simp only [hb, and_true]
      by_cases h1 : (b - a).toNat < n
      · rw [if_neg (by omega), if_pos h1, if_pos (by omega), if_pos h1]
      · by_cases h2 : (b - a).toNat < n + k
        · rw [if_pos ⟨by omega, h2⟩, if_pos h2, if_neg h1,
            sub_add_toNat a b (by omega) (by omega)]
        · rw [if_neg (by omega), if_neg h1, if_neg h2]
    · simp [hb]

end Stored

namespace Block

variable {m a}

/-- Nothing stands behind an open-bus block. -/
theorem stored_none {n : Nat} (h : m.Block a n) (hv : ¬ inVga a) (hs : m.slot a = none)
    (f : Nat → U8) : Stored m m a n f where
  slot _ := rfl
  byte b := by
    have hno : ¬ ((b - a).toNat < n ∧ m.backed b) := by
      rintro ⟨hlt, hb⟩
      rw [(h.ofNat_sub b hlt).mpr rfl, h.backed hlt] at hb
      rcases hb with hb | hb
      · exact hv hb
      · simp [hs] at hb
    rw [if_neg hno]

theorem writeU8_none {n : Nat} (h : m.Block a n) (hv : ¬ inVga a) (hs : m.slot a = none) {k : Nat}
    (hk : k < n) (v : U8) : m.writeU8 (a + BitVec.ofNat 64 k) v = m := by
  rw [writeU8_ram _ _ (fun hc => hv ((h.window k hk).mp hc)), h.slots k hk, hs]
  rfl

/-- A text cell is stored to at once. -/
theorem stored_setCell (h : m.Block a 2) (hv : inVga a) (v : U16) :
    Stored m (m.setCell ((a.toNat - 0xB8000) / 2) v) a 2 (byteOf v) where
  slot _ := rfl
  byte b := by
    have heven := h.even hv
    have hge := hv.1
    by_cases hb : inVga b
    · have hbge := hb.1
      have hbk : m.backed b := .inl hb
      have hd : (b - a).toNat = (2 ^ 64 - a.toNat + b.toNat) % 2 ^ 64 := BitVec.toNat_sub ..
      have hvlt := hv.2
      have hblt := hb.2
      rw [readU8_vga _ b hb, readU8_vga m b hb]
      simp only [setCell, hbk, and_true]
      by_cases hc : (b.toNat - 0xB8000) / 2 = (a.toNat - 0xB8000) / 2
      · rw [if_pos hc]
        by_cases h0 : (b.toNat - 0xB8000) % 2 = 0
        · rw [if_pos h0, show (b - a).toNat = 0 by omega]
          rfl
        · rw [if_neg h0, show (b - a).toNat = 1 by omega]
          rfl
      · have hno : ¬ (b - a).toNat < 2 := by omega
        rw [if_neg hc, if_neg hno]
    · have hno : ¬ ((b - a).toNat < 2 ∧ m.backed b) := by
        rintro ⟨hlt, -⟩
        have he := (h.ofNat_sub b hlt).mpr rfl
        rw [he, h.window _ hlt] at hb
        exact hb hv
      rw [if_neg hno, Memory.readU8_ram _ b hb, Memory.readU8_ram m b hb]
      rfl

/-! The three places a block can be, for each width of store. -/

theorem writeU16_vga (h : m.Block a 2) (hv : inVga a) (v : U16) :
    m.writeU16 a v = m.setCell ((a.toNat - 0xB8000) / 2) v := by
  have hadd : (a + 1).toNat = a.toNat + 1 := h.toNat_add (k := 1) (by omega)
  have hif : a ≥ vgaTextBase ∧ a + 1 < vgaTextBase + vgaTextSize := by
    rw [ge_vga_iff, lt_vga_iff, hadd]
    exact (h.vga_iff (by omega)).1.mpr hv
  unfold writeU16
  rw [if_pos hif, sub_vga a hv]

theorem writeU16_ram (h : m.Block a 2) (hv : ¬ inVga a) (v : U16) :
    m.writeU16 a v = match m.slot a with
      | some i => m.store i 2 (byteOf v)
      | none => m := by
  have hadd : (a + 1).toNat = a.toNat + 1 := h.toNat_add (k := 1) (by omega)
  have hif : ¬ (a ≥ vgaTextBase ∧ a + 1 < vgaTextBase + vgaTextSize) := by
    rw [ge_vga_iff, lt_vga_iff, hadd]
    exact fun hc => hv ((h.vga_iff (by omega)).1.mp hc)
  unfold writeU16
  rw [if_neg hif]
  cases hs : m.slot a with
  | none =>
    have h0 := h.writeU8_none hv hs (k := 0) (by omega)
    have h1 := h.writeU8_none hv hs (k := 1) (by omega)
    simp only [BitVec.add_zero] at h0
    dsimp only
    rw [h0]
    exact h1 _
  | some i =>
    dsimp only
    rw [if_pos (h.slot_lt hs (by omega))]

theorem stored_writeU16 (h : m.Block a 2) (v : U16) :
    Stored m (m.writeU16 a v) a 2 (byteOf v) := by
  by_cases hv : inVga a
  · rw [h.writeU16_vga hv]
    exact h.stored_setCell hv v
  · rw [h.writeU16_ram hv]
    cases hs : m.slot a with
    | none => exact h.stored_none hv hs _
    | some i => exact h.stored_store hv hs _

theorem of_slot {q : Memory} {n : Nat} (h : m.Block a n) (hs : ∀ b, q.slot b = m.slot b) :
    q.Block a n where
  no_wrap := h.no_wrap
  window := h.window
  even := h.even
  slots := by
    intro k hk
    rw [hs, hs, h.slots k hk]

theorem writeU32_vga (h : m.Block a 4) (hv : inVga a) (v : U32) :
    m.writeU32 a v = (m.setCell ((a.toNat - 0xB8000) / 2) (u16 v)).setCell
      ((a.toNat - 0xB8000) / 2 + 1) (u16 (v >>> 16)) := by
  have hadd : (a + 3).toNat = a.toNat + 3 := h.toNat_add (k := 3) (by omega)
  have hif : a + 3 < vgaTextBase + vgaTextSize ∧ a + 3 ≥ vgaTextBase := by
    rw [ge_vga_iff, lt_vga_iff, hadd]
    exact (h.vga_iff (by omega)).2.1.mpr hv
  have hlo := h.mono (k := 2) (by omega)
  have hhi := (h.drop (k := 2) (by omega) (by omega)).of_slot
    (q := m.setCell ((a.toNat - 0xB8000) / 2) (u16 v)) (fun _ => rfl)
  have hv2 := (h.window 2 (by omega)).mpr hv
  have h2 := h.toNat_add (k := 2) (by omega)
  have hge := hv.1
  unfold writeU32
  rw [if_pos hif, hlo.writeU16_vga hv]
  refine (hhi.writeU16_vga hv2 _).trans ?_
  rw [h2, show (a.toNat + 2 - 0xB8000) / 2 = (a.toNat - 0xB8000) / 2 + 1 by omega]

theorem writeU32_ram (h : m.Block a 4) (hv : ¬ inVga a) (v : U32) :
    m.writeU32 a v = match m.slot a with
      | some i => m.store i 4 (byteOf v)
      | none => m := by
  have hadd : (a + 3).toNat = a.toNat + 3 := h.toNat_add (k := 3) (by omega)
  have hif : ¬ (a + 3 < vgaTextBase + vgaTextSize ∧ a + 3 ≥ vgaTextBase) := by
    rw [ge_vga_iff, lt_vga_iff, hadd]
    exact fun hc => hv ((h.vga_iff (by omega)).2.1.mp hc)
  unfold writeU32
  rw [if_neg hif]
  cases hs : m.slot a with
  | none =>
    have hk (k : Nat) (hk : k < 4) := h.writeU8_none hv hs hk
    have h0 := hk 0 (by omega)
    have h1 (v) : m.writeU8 (a + 1) v = m := hk 1 (by omega) v
    have h2 (v) : m.writeU8 (a + 2) v = m := hk 2 (by omega) v
    simp only [BitVec.add_zero] at h0
    dsimp only
    rw [h0, h1, h2]
    exact hk 3 (by omega) _
  | some i =>
    dsimp only
    rw [if_pos (h.slot_lt hs (by omega))]

/-- The halves of a doubleword's bytes are the bytes of its halves. -/
theorem byteOf_halves (v : U32) {i : Nat} (hi : i < 4) :
    (if i < 2 then byteOf (u16 v) i else byteOf (u16 (v >>> 16)) (i - 2)) = byteOf v i := by
  interval_cases i <;>
  · apply BitVec.eq_of_getLsbD_eq
    intro j hj
    simp [byteOf, hj]
    grind

theorem byteOf_halves64 (v : U64) {i : Nat} (hi : i < 8) :
    (if i < 4 then byteOf (u32 v) i else byteOf (u32 (v >>> 32)) (i - 4)) = byteOf v i := by
  interval_cases i <;>
  · apply BitVec.eq_of_getLsbD_eq
    intro j hj
    simp [byteOf, hj]
    grind

theorem stored_writeU32 (h : m.Block a 4) (v : U32) :
    Stored m (m.writeU32 a v) a 4 (byteOf v) := by
  by_cases hv : inVga a
  · have hlo := h.mono (k := 2) (by omega)
    have hhi := (h.drop (k := 2) (by omega) (by omega)).of_slot
      (q := m.setCell ((a.toNat - 0xB8000) / 2) (u16 v)) (fun _ => rfl)
    have hv2 := (h.window 2 (by omega)).mpr hv
    have hcell := hhi.stored_setCell hv2 (u16 (v >>> 16))
    have h2 := h.toNat_add (k := 2) (by omega)
    have hge := hv.1
    rw [h2, show (a.toNat + 2 - 0xB8000) / 2 = (a.toNat - 0xB8000) / 2 + 1 by omega] at hcell
    rw [h.writeU32_vga hv]
    exact ((hlo.stored_setCell hv (u16 v)).append hcell (by omega)).congr
      (fun i hi => byteOf_halves v hi)
  · rw [h.writeU32_ram hv]
    cases hs : m.slot a with
    | none => exact h.stored_none hv hs _
    | some i => exact h.stored_store hv hs _

theorem writeU64_vga (h : m.Block a 8) (hv : inVga a) (v : U64) :
    m.writeU64 a v = (m.writeU32 a (u32 v)).writeU32 (a + 4) (u32 (v >>> 32)) := by
  have hadd : (a + 7).toNat = a.toNat + 7 := h.toNat_add (k := 7) (by omega)
  have hif : a + 7 ≥ vgaTextBase ∧ a < vgaTextBase + vgaTextSize := by
    rw [ge_vga_iff, lt_vga_iff, hadd]
    exact (h.vga_iff (by omega)).2.2.mpr hv
  unfold writeU64
  rw [if_pos hif]

theorem writeU64_ram (h : m.Block a 8) (hv : ¬ inVga a) (v : U64) :
    m.writeU64 a v = match m.slot a with
      | some i => m.store i 8 (byteOf v)
      | none => m := by
  have hadd : (a + 7).toNat = a.toNat + 7 := h.toNat_add (k := 7) (by omega)
  have hif : ¬ (a + 7 ≥ vgaTextBase ∧ a < vgaTextBase + vgaTextSize) := by
    rw [ge_vga_iff, lt_vga_iff, hadd]
    exact fun hc => hv ((h.vga_iff (by omega)).2.2.mp hc)
  unfold writeU64
  rw [if_neg hif]
  cases hs : m.slot a with
  | none =>
    -- every byte of the block is on the open bus
    have hbytes (l : List Nat) (hl : ∀ i ∈ l, i < 8) : l.foldl
        (fun m i => m.writeU8 (a + BitVec.ofNat 64 i) (byteOf v i)) m = m := by
      induction l with
      | nil => rfl
      | cons i l ih =>
        rw [List.foldl_cons, h.writeU8_none hv hs (hl i (by simp))]
        exact ih (fun j hj => hl j (by simp [hj]))
    exact hbytes _ (fun i hi => List.mem_range.mp hi)
  | some i =>
    dsimp only
    rw [if_pos (h.slot_lt hs (by omega))]

theorem stored_writeU64 (h : m.Block a 8) (v : U64) :
    Stored m (m.writeU64 a v) a 8 (byteOf v) := by
  by_cases hv : inVga a
  · have hlo := (h.mono (k := 4) (by omega)).stored_writeU32 (u32 v)
    have hhi := ((h.drop (k := 4) (by omega) (by omega)).of_slot hlo.slot).stored_writeU32
      (u32 (v >>> 32))
    rw [h.writeU64_vga hv]
    exact (hlo.append hhi (by omega)).congr (fun i hi => byteOf_halves64 v hi)
  · rw [h.writeU64_ram hv]
    cases hs : m.slot a with
    | none => exact h.stored_none hv hs _
    | some i => exact h.stored_store hv hs _

/-! ### Reads after writes -/

variable {m' : Memory}

theorem readU64_congr (h : m.Block a 8) (hs : ∀ b, m'.slot b = m.slot b)
    (hb : ∀ k < 8, m'.readU8 (a + BitVec.ofNat 64 k) = m.readU8 (a + BitVec.ofNat 64 k)) :
    m'.readU64 a = m.readU64 a := by
  have h0 := hb 0 (by omega)
  have h1 : m'.readU8 (a + 1) = _ := hb 1 (by omega)
  have h2 : m'.readU8 (a + 2) = _ := hb 2 (by omega)
  have h3 : m'.readU8 (a + 3) = _ := hb 3 (by omega)
  have h4 : m'.readU8 (a + 4) = _ := hb 4 (by omega)
  have h5 : m'.readU8 (a + 5) = _ := hb 5 (by omega)
  have h6 : m'.readU8 (a + 6) = _ := hb 6 (by omega)
  have h7 : m'.readU8 (a + 7) = _ := hb 7 (by omega)
  simp only [BitVec.add_zero] at h0
  rw [h.readU64_eq, (h.of_slot hs).readU64_eq, h0, h1, h2, h3, h4, h5, h6, h7]
  rfl

theorem readU32_of_bytes (h : m.Block a 4) {v : U32}
    (hb : ∀ k < 4, m.readU8 (a + BitVec.ofNat 64 k) = byteOf v k) : m.readU32 a = v := by
  have h0 := hb 0 (by omega)
  have h1 : m.readU8 (a + 1) = _ := hb 1 (by omega)
  have h2 : m.readU8 (a + 2) = _ := hb 2 (by omega)
  have h3 : m.readU8 (a + 3) = _ := hb 3 (by omega)
  simp only [BitVec.add_zero] at h0
  rw [h.readU32_eq, h0, h1, h2, h3]
  exact le32_byteOf v

/-- A block reads back the word whose bytes it holds. -/
theorem readU64_of_bytes (h : m.Block a 8) {v : U64}
    (hb : ∀ k < 8, m.readU8 (a + BitVec.ofNat 64 k) = byteOf v k) : m.readU64 a = v := by
  have h0 := hb 0 (by omega)
  have h1 : m.readU8 (a + 1) = _ := hb 1 (by omega)
  have h2 : m.readU8 (a + 2) = _ := hb 2 (by omega)
  have h3 : m.readU8 (a + 3) = _ := hb 3 (by omega)
  have h4 : m.readU8 (a + 4) = _ := hb 4 (by omega)
  have h5 : m.readU8 (a + 5) = _ := hb 5 (by omega)
  have h6 : m.readU8 (a + 6) = _ := hb 6 (by omega)
  have h7 : m.readU8 (a + 7) = _ := hb 7 (by omega)
  simp only [BitVec.add_zero] at h0
  rw [h.readU64_eq, h0, h1, h2, h3, h4, h5, h6, h7]
  exact le64_byteOf v

end Block

end Memory
end X86Emu
