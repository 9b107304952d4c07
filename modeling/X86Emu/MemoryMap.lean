import X86Emu.MemoryFacts
import X86Emu.Bios

/-!
# The memory map a guest is told

The RAM behind the address space, the E820 list, its enumeration through INT 15h and the two older
size calls, compared for every RAM size.
-/
namespace X86Emu

open Memory

/-! ## What the backing store answers -/

namespace Memory

variable (m : Memory)

/-- The highest physical address that has RAM behind it, exclusive. -/
def topOfRam : Nat :=
  if m.ramSize > mmioHoleStart then highRamBase + (m.ramSize - mmioHoleStart) else m.ramSize

/-- RAM answers on the low range and, past the MMIO hole, on the high one. -/
theorem slot_isSome_iff (a : U64) :
    (m.slot a).isSome ↔
      a.toNat < m.lowSize ∨
        (highRamBase ≤ a.toNat ∧ a.toNat < highRamBase + (m.ramSize - m.lowSize)) := by
  have h := m.lowSize_le
  rw [Option.isSome_iff_exists]
  constructor
  · rintro ⟨i, hi⟩
    rcases (m.slot_eq_some_iff a).mp hi with h1 | h1 <;> omega
  · rintro (h1 | h1)
    · exact ⟨a.toNat, (m.slot_eq_some_iff a).mpr (.inl ⟨h1, rfl⟩)⟩
    · exact ⟨_, (m.slot_eq_some_iff a).mpr (.inr ⟨h1.1, rfl, by omega⟩)⟩

/-- Every byte of RAM has an address. -/
theorem slot_surj {i : Nat} (hi : i < m.ramSize) : ∃ a, m.slot a = some i := by
  have h := m.lowSize_le
  have hs := m.ramSize_le
  have hb : highRamBase = 4294967296 := rfl
  by_cases hl : i < m.lowSize
  · refine ⟨BitVec.ofNat 64 i, (m.slot_eq_some_iff _).mpr (.inl ?_)⟩
    rw [BitVec.toNat_ofNat, Nat.mod_eq_of_lt (by omega)]
    exact ⟨hl, rfl⟩
  · refine ⟨BitVec.ofNat 64 (highRamBase + (i - m.lowSize)), (m.slot_eq_some_iff _).mpr (.inr ?_)⟩
    rw [BitVec.toNat_ofNat, Nat.mod_eq_of_lt (by omega)]
    omega

/-- The layout determines the size of RAM. -/
theorem ramSize_congr {m m' : Memory} (h : ∀ b, m'.slot b = m.slot b) : m'.ramSize = m.ramSize := by
  refine Nat.le_antisymm ?_ ?_
  · by_contra hlt
    obtain ⟨b, hb⟩ := m'.slot_surj (i := m.ramSize) (by omega)
    exact Nat.lt_irrefl _ (m.slot_lt b (h b ▸ hb))
  · by_contra hlt
    obtain ⟨b, hb⟩ := m.slot_surj (i := m'.ramSize) (by omega)
    exact Nat.lt_irrefl _ (m'.slot_lt b ((h b).trans hb))

theorem lowSize_of_big (h : m.ramSize > mmioHoleStart) : m.lowSize = mmioHoleStart := by
  rw [m.lowSize_eq]
  omega

theorem lowSize_of_small (h : ¬ m.ramSize > mmioHoleStart) : m.lowSize = m.ramSize := by
  rw [m.lowSize_eq]
  omega

/-- `topOfRam` is the least bound of the backed addresses. -/
theorem topOfRam_isLeast :
    IsLeast {b | ∀ a : U64, (m.slot a).isSome → a.toNat < b} m.topOfRam := by
  have h1 := m.one_mib_le
  have h2 := m.ramSize_le
  have hb : highRamBase = 4294967296 := rfl
  have hh : mmioHoleStart = 3221225472 := rfl
  constructor
  · intro a ha
    rw [slot_isSome_iff] at ha
    unfold topOfRam
    by_cases h : m.ramSize > mmioHoleStart
    · rw [m.lowSize_of_big h] at ha
      rw [if_pos h]
      omega
    · rw [m.lowSize_of_small h] at ha
      rw [if_neg h]
      omega
  · intro b hbound
    unfold topOfRam
    by_cases h : m.ramSize > mmioHoleStart
    · rw [if_pos h]
      have hlast := hbound (BitVec.ofNat 64 (highRamBase + (m.ramSize - mmioHoleStart) - 1))
        (by
          rw [slot_isSome_iff, BitVec.toNat_ofNat, m.lowSize_of_big h,
            Nat.mod_eq_of_lt (by omega)]
          omega)
      rw [BitVec.toNat_ofNat, Nat.mod_eq_of_lt (by omega)] at hlast
      omega
    · rw [if_neg h]
      have hlast := hbound (BitVec.ofNat 64 (m.ramSize - 1))
        (by
          rw [slot_isSome_iff, BitVec.toNat_ofNat, m.lowSize_of_small h,
            Nat.mod_eq_of_lt (by omega)]
          omega)
      rw [BitVec.toNat_ofNat, Nat.mod_eq_of_lt (by omega)] at hlast
      omega

end Memory

/-! ## The E820 list -/

/-- A byte lies in an entry of the list that reports usable RAM. -/
def usable (ram a : Nat) : Prop :=
  ∃ e ∈ e820Map ram, e.2.2 = 1 ∧ e.1 ≤ a ∧ a < e.1 + e.2.1

/-- The list in its three shapes. -/
theorem e820Map_cases (ram : Nat) (h : 2 ^ 20 ≤ ram) :
    (ram = 2 ^ 20 ∧ e820Map ram = [(0, 0x9FC00, 1), (0x9FC00, 0x400, 2), (0xA0000, 0x60000, 2)]) ∨
    (2 ^ 20 < ram ∧ ram ≤ mmioHoleStart ∧
      e820Map ram = [(0, 0x9FC00, 1), (0x9FC00, 0x400, 2), (0xA0000, 0x60000, 2),
        (0x100000, ram - 0x100000, 1)]) ∨
    (mmioHoleStart < ram ∧
      e820Map ram = [(0, 0x9FC00, 1), (0x9FC00, 0x400, 2), (0xA0000, 0x60000, 2),
        (0x100000, mmioHoleStart - 0x100000, 1), (mmioHoleStart, highRamBase - mmioHoleStart, 2),
        (highRamBase, ram - mmioHoleStart, 1)]) := by
  have hh : mmioHoleStart = 3221225472 := rfl
  unfold e820Map
  dsimp only
  by_cases h1 : ram > mmioHoleStart
  · right
    right
    refine ⟨h1, ?_⟩
    rw [Nat.min_eq_right (by omega), if_pos (by omega), if_pos h1]
    rfl
  · rw [Nat.min_eq_left (by omega), if_neg h1]
    by_cases h2 : ram > 0x100000
    · right
      left
      refine ⟨by omega, by omega, ?_⟩
      rw [if_pos h2]
      rfl
    · left
      refine ⟨by omega, ?_⟩
      rw [if_neg h2]
      rfl

/-- The entries are non-empty, in order and disjoint. -/
structure WellFormed (ram : Nat) : Prop where
  nonempty : ∀ e ∈ e820Map ram, 0 < e.2.1
  sorted : (e820Map ram).Pairwise fun e f => e.1 + e.2.1 ≤ f.1

theorem wellFormed_e820Map (ram : Nat) (h : 2 ^ 20 ≤ ram) : WellFormed ram := by
  have hh : mmioHoleStart = 3221225472 := rfl
  have hb : highRamBase = 4294967296 := rfl
  rcases e820Map_cases ram h with ⟨-, he⟩ | ⟨h1, h2, he⟩ | ⟨h1, he⟩
  · constructor
    · rw [he]
      decide
    · rw [he]
      decide
  · constructor
    · rw [he]
      simp only [List.mem_cons, List.not_mem_nil, or_false, forall_eq_or_imp, forall_eq]
      omega
    · rw [he]
      simp only [List.pairwise_cons, List.mem_cons, List.not_mem_nil, or_false, forall_eq_or_imp,
        forall_eq, List.Pairwise.nil, and_true, false_imp_iff, implies_true]
      omega
  · constructor
    · rw [he]
      simp only [List.mem_cons, List.not_mem_nil, or_false, forall_eq_or_imp, forall_eq]
      omega
    · rw [he]
      simp only [List.pairwise_cons, List.mem_cons, List.not_mem_nil, or_false, forall_eq_or_imp,
        forall_eq, List.Pairwise.nil, and_true, false_imp_iff, implies_true]
      omega

/-- The usable ranges, by RAM size. -/
theorem usable_iff (ram a : Nat) (h : 2 ^ 20 ≤ ram) :
    usable ram a ↔ a < 0x9FC00 ∨ (0x100000 ≤ a ∧ a < min ram mmioHoleStart) ∨
      (highRamBase ≤ a ∧ a < highRamBase + (ram - mmioHoleStart)) := by
  have hh : mmioHoleStart = 3221225472 := rfl
  have hb : highRamBase = 4294967296 := rfl
  unfold usable
  rcases e820Map_cases ram h with ⟨h0, he⟩ | ⟨h1, h2, he⟩ | ⟨h1, he⟩
  · rw [he]
    simp only [List.mem_cons, List.not_mem_nil, or_false, exists_eq_or_imp, exists_eq_left]
    simp only [true_and, show ¬ ((2 : U32) = 1) by decide, false_and, or_false]
    omega
  · rw [he]
    simp only [List.mem_cons, List.not_mem_nil, or_false, exists_eq_or_imp, exists_eq_left]
    simp only [true_and, show ¬ ((2 : U32) = 1) by decide, false_and, false_or]
    omega
  · rw [he]
    simp only [List.mem_cons, List.not_mem_nil, or_false, exists_eq_or_imp, exists_eq_left]
    simp only [true_and, show ¬ ((2 : U32) = 1) by decide, false_and, false_or]
    omega

/-- Usable bytes are backed, and backed bytes from 1 MiB on are usable. -/
theorem usable_backed (m : Memory) (a : U64) :
    (usable m.ramSize a.toNat → (m.slot a).isSome) ∧
    ((m.slot a).isSome → 2 ^ 20 ≤ a.toNat → usable m.ramSize a.toNat) := by
  have h1 := m.one_mib_le
  have h2 := m.lowSize_eq
  have hh : mmioHoleStart = 3221225472 := rfl
  have hb : highRamBase = 4294967296 := rfl
  rw [usable_iff _ _ h1, slot_isSome_iff]
  constructor <;> intro h <;> omega

/-! ## The BIOS calls -/

/-- INT 15h, as the guest calls it. -/
def int15 (s : Cpu) : Cpu := s.memoryMap

/-- The E820 call's registers: function, signature, continuation. -/
structure E820Call (s : Cpu) (cont : Nat) : Prop where
  eax : s.eax = 0x0000E820
  edx : s.edx = 0x534D4150
  ebx : s.ebx.toNat = cont

/-- The buffer is conventional memory. -/
def BufferPlain (s : Cpu) : Prop := (Memory.phys s.es s.di).toNat + 20 ≤ 0xA0000

/-- The call succeeded and left the entry in the buffer. -/
structure Received (s t : Cpu) (e : Nat × Nat × U32) : Prop where
  ok : t.getFlag Flags.cf = false
  eax : t.eax = 0x0000E820
  ecx : t.ecx = 20
  stored : t.mem = ((s.mem.writeU64 (Memory.phys s.es s.di) (BitVec.ofNat 64 e.1)).writeU64
    (Memory.phys s.es s.di + 8) (BitVec.ofNat 64 e.2.1)).writeU32 (Memory.phys s.es s.di + 16) e.2.2
  readable : BufferPlain s → t.mem.readU64 (Memory.phys s.es s.di) = BitVec.ofNat 64 e.1 ∧
    t.mem.readU64 (Memory.phys s.es s.di + 8) = BitVec.ofNat 64 e.2.1 ∧
    t.mem.readU32 (Memory.phys s.es s.di + 16) = e.2.2

section Calls

variable {s : Cpu}

theorem reg8_al (s : Cpu) : s.reg8 .al = u8 (s.regs 0) := rfl
theorem reg8_ah (s : Cpu) : s.reg8 .ah = u8 (s.regs 0 >>> 8) := rfl

theorem low_bytes (x : U64) : u8 x = u8 (u16 x) ∧ u8 (x >>> 8) = u8 (u16 x >>> 8) := by
  constructor
  · ext i hi
    simp
  · ext i hi
    simp
    omega

theorem memoryMap_e820 (h : s.eax = 0x0000E820) : int15 s = s.e820 := by
  have h16 : u16 (s.regs 0) = 0xE820 := by
    have : u16 (s.regs 0) = u16 s.eax := by
      rw [Cpu.eax]
      ext i hi
      simp
    rw [this, h]
    rfl
  have hah : s.reg8 .ah = 0xE8 := by
    rw [reg8_ah, (low_bytes _).2, h16]
    rfl
  have hal : s.reg8 .al = 0x20 := by
    rw [reg8_al, (low_bytes _).1, h16]
    rfl
  rw [int15, Cpu.memoryMap, if_pos hah, if_pos hal]

theorem memoryMap_e801 (h : s.ax = 0xE801) : int15 s = s.e801 := by
  have hah : s.reg8 .ah = 0xE8 := by
    rw [reg8_ah, (low_bytes _).2, show u16 (s.regs 0) = _ from h]
    rfl
  have hal : ¬ s.reg8 .al = 0x20 := by
    rw [reg8_al, (low_bytes _).1, show u16 (s.regs 0) = _ from h]
    decide
  rw [int15, Cpu.memoryMap, if_pos hah, if_neg hal]

theorem memoryMap_mem88 (h : s.reg8 .ah = 0x88) : int15 s = s.mem88 := by
  rw [int15, Cpu.memoryMap, if_neg (by rw [h]; decide), if_pos h]

/-- A block of conventional memory: RAM, and outside the text window. -/
theorem block_conventional (m : Memory) {a : U64} {n : Nat} (h : a.toNat + n ≤ 0xA0000) :
    m.Block a n ∧ ∀ k < n, m.backed (a + BitVec.ofNat 64 k) := by
  have hadd (k : Nat) (hk : k < n) : (a + BitVec.ofNat 64 k).toNat = a.toNat + k := by
    rw [BitVec.toNat_add, BitVec.toNat_ofNat]
    omega
  have hlow : 2 ^ 20 ≤ m.lowSize := by
    have h1 := m.one_mib_le
    have h2 := m.lowSize_eq
    have hh : mmioHoleStart = 3221225472 := rfl
    omega
  have hslot (k : Nat) (hk : k < n) : m.slot (a + BitVec.ofNat 64 k) = some (a.toNat + k) := by
    rw [slot_eq_some_iff, hadd k hk]
    exact .inl ⟨by omega, rfl⟩
  refine ⟨?_, ?_⟩
  · by_cases h0 : n = 0
    · subst h0
      refine ⟨by omega, fun k hk => by omega, ?_, fun k hk => by omega⟩
      intro hv
      have := hv.1
      omega
    · have hs0 : m.slot a = some a.toNat := by
        have := hslot 0 (by omega)
        simpa using this
      refine ⟨by omega, ?_, ?_, ?_⟩
      · intro k hk
        simp only [inVga, hadd k hk]
        omega
      · intro hv
        have := hv.1
        omega
      · intro k hk
        rw [hslot k hk, hs0]
        rfl
  · intro k hk
    right
    rw [hslot k hk]
    rfl

/-- The three stores of an entry read back. -/
theorem entry_readable (m : Memory) {a : U64} (h : a.toNat + 20 ≤ 0xA0000) (base len : U64)
    (typ : U32) :
    (((m.writeU64 a base).writeU64 (a + 8) len).writeU32 (a + 16) typ).readU64 a = base ∧
    (((m.writeU64 a base).writeU64 (a + 8) len).writeU32 (a + 16) typ).readU64 (a + 8) = len ∧
    (((m.writeU64 a base).writeU64 (a + 8) len).writeU32 (a + 16) typ).readU32 (a + 16) = typ := by
  obtain ⟨hb, hback⟩ := block_conventional m h
  have h1 := (hb.mono (k := 8) (by omega)).stored_writeU64 base
  have hb8 := (hb.drop (k := 8) (by omega) (by omega)).of_slot h1.slot
  have h2 := (hb8.mono (k := 8) (by omega)).stored_writeU64 len
  have hb16 := ((hb.drop (k := 16) (by omega) (by omega)).of_slot h1.slot).of_slot h2.slot
  have h3 := hb16.stored_writeU32 typ
  have hall := (h1.append h2 (by omega)).append h3 (by omega)
  have hq := hb.of_slot hall.slot
  have hbyte (k : Nat) (hk : k < 20) := hall.byte (a + BitVec.ofNat 64 k)
  have hsub (k : Nat) (hk : k < 20) : (a + BitVec.ofNat 64 k - a).toNat = k :=
    (hb.ofNat_sub _ hk).mp rfl
  have e8 (k : Nat) : a + BitVec.ofNat 64 8 + BitVec.ofNat 64 k = a + BitVec.ofNat 64 (8 + k) := by
    rw [BitVec.add_assoc, ← BitVec.ofNat_add]
  have e16 (k : Nat) : a + BitVec.ofNat 64 16 + BitVec.ofNat 64 k = a + BitVec.ofNat 64 (16 + k) := by
    rw [BitVec.add_assoc, ← BitVec.ofNat_add]
  refine ⟨?_, ?_, ?_⟩
  · apply (hq.mono (k := 8) (by omega)).readU64_of_bytes
    intro k hk
    rw [hbyte k (by omega), hsub k (by omega), if_pos ⟨by omega, hback k (by omega)⟩,
      if_pos (by omega), if_pos (by omega)]
  · apply ((hq.drop (k := 8) (by omega) (by omega)).mono (k := 8) (by omega)).readU64_of_bytes
    intro k hk
    rw [e8, hbyte (8 + k) (by omega), hsub (8 + k) (by omega),
      if_pos ⟨by omega, hback (8 + k) (by omega)⟩, if_pos (by omega), if_neg (by omega),
      Nat.add_sub_cancel_left]
  · apply (hq.drop (k := 16) (by omega) (by omega)).readU32_of_bytes
    intro k hk
    rw [e16, hbyte (16 + k) (by omega), hsub (16 + k) (by omega),
      if_pos ⟨by omega, hback (16 + k) (by omega)⟩, if_neg (by omega), Nat.add_sub_cancel_left]

/-- One E820 call: the entry the continuation names, and the next continuation. -/
theorem e820_call {cont : Nat} (h : E820Call s cont) (hlt : cont < (e820Map s.mem.ramSize).length) :
    Received s (int15 s) ((e820Map s.mem.ramSize)[cont]) ∧
    (int15 s).ebx.toNat = (if cont + 1 < (e820Map s.mem.ramSize).length then cont + 1 else 0) := by
  have hlen : (e820Map s.mem.ramSize).length ≤ 6 := by
    unfold e820Map
    dsimp only
    split <;> split <;> simp
  generalize he : (e820Map s.mem.ramSize)[cont] = e
  obtain ⟨base, len, typ⟩ := e
  have hget : (e820Map s.mem.ramSize)[s.ebx.toNat]? = some (base, len, typ) := by
    rw [h.ebx, List.getElem?_eq_getElem hlt, he]
  have hrun : int15 s = (((((s.modifyMem (·.writeU64 (Memory.phys s.es s.di)
        (BitVec.ofNat 64 base))).modifyMem (·.writeU64 (Memory.phys s.es s.di + 8)
        (BitVec.ofNat 64 len))).modifyMem (·.writeU32 (Memory.phys s.es s.di + 16) typ)).setEbx
        (if cont + 1 < (e820Map s.mem.ramSize).length then BitVec.ofNat 32 (cont + 1) else 0)).setEax
        0x0000E820 |>.setEcx 20).setFlags Flags.cf false := by
    rw [memoryMap_e820 h.eax, Cpu.e820, if_neg (by simp [h.eax, h.edx])]
    dsimp only
    rw [hget]
    dsimp only
    rw [h.ebx]
  rw [hrun]
  refine ⟨⟨?_, rfl, rfl, rfl, ?_⟩, ?_⟩
  · exact test_andNot _ _
  · intro hp
    exact entry_readable s.mem hp _ _ typ
  · have hebx : ∀ v : U32, u32 (u64 v) = v := by
      intro v
      ext i hi
      simp
    refine (congrArg BitVec.toNat (hebx _)).trans ?_
    split
    · rw [BitVec.toNat_ofNat]
      omega
    · rfl

/-- A guest's enumeration: call after call with the continuation the last one returned. Between the
calls it may change anything else but the size of its RAM. -/
structure Enumerates (ram : Nat) (t : Nat → Cpu) : Prop where
  ramSize : ∀ k, (t k).mem.ramSize = ram
  first : E820Call (t 0) 0
  next : ∀ k, E820Call (t (k + 1)) (int15 (t k)).ebx.toNat

/-- The enumeration hands over the list in order, then answers with continuation 0. -/
theorem enumerates_all {ram : Nat} {t : Nat → Cpu} (h : Enumerates ram t) (k : Nat)
    (hk : k < (e820Map ram).length) :
    Received (t k) (int15 (t k)) ((e820Map ram)[k]) ∧
      (int15 (t k)).ebx.toNat = (if k + 1 < (e820Map ram).length then k + 1 else 0) := by
  have hcall : E820Call (t k) k := by
    induction k with
    | zero => exact h.first
    | succ k ih =>
      have hlast := e820_call (ih (by omega)) (by rw [h.ramSize]; omega)
      simp only [h.ramSize k, if_pos hk] at hlast
      exact hlast.2 ▸ h.next k
  have hrun := e820_call hcall (by rw [h.ramSize]; exact hk)
  simp only [h.ramSize k] at hrun
  exact hrun

/-! ## The older size calls -/

theorem ax_setReg16Raw (s : Cpu) (r : Reg16) (v : U16) :
    u16 ((s.setReg16Raw r v).regs (Cpu.regIdx r.idx)) = v := by
  have hif : (s.setReg16Raw r v).regs (Cpu.regIdx r.idx) =
      Cpu.mergeW (s.reg64 r.idx) .w16 (u64 v) := if_pos rfl
  rw [hif]
  unfold Cpu.mergeW
  apply BitVec.eq_of_getLsbD_eq
  intro i hi
  have hones : (0xFFFF : U64).getLsbD i = true := by
    rw [show (0xFFFF : U64) = BitVec.ofNat 64 (2 ^ 16 - 1) from rfl, getLsbD_ones]
    simp only [Bool.and_eq_true, decide_eq_true_eq]
    omega
  simp only [u16, BitVec.getLsbD_setWidth, BitVec.getLsbD_or, BitVec.getLsbD_and, BitVec.getLsbD_not,
    hones]
  simp [hi, show i < 64 by omega]

theorem regs_setReg16Raw_of_ne (s : Cpu) (r : Reg16) (v : U16) {i : Fin 16}
    (h : i ≠ Cpu.regIdx r.idx) : (s.setReg16Raw r v).regs i = s.regs i := if_neg h

theorem kib_toNat : (15 * 1024 : U16).toNat = 15360 := rfl

/-- The answer of E801: kilobytes from 1 MiB on, 64 KiB units from 16 MiB on, twice. -/
theorem e801_answer (h : s.ax = 0xE801) :
    (int15 s).ax = 15 * 1024 ∧ (int15 s).cx = 15 * 1024 ∧
    (int15 s).bx.toNat = min ((min s.mem.ramSize mmioHoleStart - 2 ^ 24) / 2 ^ 16) 0xFFFF ∧
    (int15 s).dx = (int15 s).bx := by
  rw [memoryMap_e801 h]
  have hunits : (BitVec.ofNat 16 (min ((min s.mem.ramSize mmioHoleStart - 2 ^ 24) / 2 ^ 16)
      0xFFFF)).toNat = min ((min s.mem.ramSize mmioHoleStart - 2 ^ 24) / 2 ^ 16) 0xFFFF := by
    rw [BitVec.toNat_ofNat]
    omega
  unfold Cpu.e801
  dsimp only
  generalize BitVec.ofNat 16 (min ((min s.mem.ramSize mmioHoleStart - 2 ^ 24) / 2 ^ 16) 0xFFFF) = u
    at hunits ⊢
  unfold Cpu.ax Cpu.cx Cpu.bx Cpu.dx
  have hdx (r : Fin 16) (hr : r ≠ 2) := regs_setReg16Raw_of_ne
    (((s.setReg16Raw .ax (15 * 1024)).setReg16Raw .cx (15 * 1024)).setReg16Raw .bx u) .dx u hr
  have hbx (r : Fin 16) (hr : r ≠ 3) := regs_setReg16Raw_of_ne
    ((s.setReg16Raw .ax (15 * 1024)).setReg16Raw .cx (15 * 1024)) .bx u hr
  have hcx (r : Fin 16) (hr : r ≠ 1) := regs_setReg16Raw_of_ne
    (s.setReg16Raw .ax (15 * 1024)) .cx (15 * 1024) hr
  refine ⟨?_, ?_, ?_, ?_⟩
  · rw [hdx 0 (by decide), hbx 0 (by decide), hcx 0 (by decide)]
    exact ax_setReg16Raw s .ax _
  · rw [hdx 1 (by decide), hbx 1 (by decide)]
    exact ax_setReg16Raw _ .cx _
  · rw [hdx 3 (by decide)]
    exact (congrArg BitVec.toNat (ax_setReg16Raw _ .bx u)).trans hunits
  · rw [hdx 3 (by decide)]
    exact (ax_setReg16Raw _ .dx u).trans (ax_setReg16Raw _ .bx u).symm

theorem mem88_answer (h : s.reg8 .ah = 0x88) :
    (int15 s).ax.toNat = min ((s.mem.ramSize - 0x100000) / 1024) 0xFFFF := by
  rw [memoryMap_mem88 h]
  have hkb : (BitVec.ofNat 16 (min ((s.mem.ramSize - 0x100000) / 1024) 0xFFFF)).toNat =
      min ((s.mem.ramSize - 0x100000) / 1024) 0xFFFF := by
    rw [BitVec.toNat_ofNat]
    omega
  refine (congrArg BitVec.toNat ?_).trans hkb
  exact ax_setReg16Raw s .ax _

end Calls

/-- A byte one of the older calls describes: AX kilobytes from 1 MiB on, and for E801 BX units of
64 KiB from 16 MiB on. -/
def DescribedBy88 (s : Cpu) (a : Nat) : Prop :=
  2 ^ 20 ≤ a ∧ a < 2 ^ 20 + (int15 s).ax.toNat * 1024

def DescribedByE801 (s : Cpu) (a : Nat) : Prop :=
  (2 ^ 20 ≤ a ∧ a < 2 ^ 20 + (int15 s).ax.toNat * 1024) ∨
    (2 ^ 24 ≤ a ∧ a < 2 ^ 24 + (int15 s).bx.toNat * 2 ^ 16)

/-- What the machine says of its memory is what it has. -/
structure MapTrue (m : Memory) : Prop where
  slot_injective : ∀ a b i, m.slot a = some i → m.slot b = some i → a = b
  slot_domain : ∀ a : U64, (m.slot a).isSome ↔ a.toNat < m.lowSize ∨
    (highRamBase ≤ a.toNat ∧ a.toNat < highRamBase + (m.ramSize - m.lowSize))
  low : m.lowSize = min m.ramSize mmioHoleStart
  slot_image : ∀ i, i < m.ramSize ↔ ∃ a, m.slot a = some i
  top : IsLeast {b | ∀ a : U64, (m.slot a).isSome → a.toNat < b} m.topOfRam
  wellFormed : WellFormed m.ramSize
  usable_backed : ∀ a : U64, usable m.ramSize a.toNat → (m.slot a).isSome
  backed_usable : ∀ a : U64, (m.slot a).isSome → 2 ^ 20 ≤ a.toNat → usable m.ramSize a.toNat
  enumerated : ∀ t, Enumerates m.ramSize t → ∀ k (hk : k < (e820Map m.ramSize).length),
    Received (t k) (int15 (t k)) ((e820Map m.ramSize)[k]) ∧
      (int15 (t k)).ebx.toNat = (if k + 1 < (e820Map m.ramSize).length then k + 1 else 0)
  e801 : ∀ s : Cpu, s.mem.ramSize = m.ramSize → s.ax = 0xE801 → ∀ a, DescribedByE801 s a →
    usable m.ramSize a
  mem88 : ∀ s : Cpu, s.mem.ramSize = m.ramSize → s.reg8 .ah = 0x88 → ∀ a, DescribedBy88 s a →
    usable m.ramSize a

/-- The machine that asks for its E801 map. -/
def askE801 (m : Memory) : Cpu :=
  { (Cpu.withRam 0 Memory.empty_le 0).setReg 0 0xE801 with mem := m }

/-- Everything the machine says of its memory is true exactly when it has 16 MiB. -/
theorem mapTrue_iff (m : Memory) : MapTrue m ↔ 2 ^ 24 ≤ m.ramSize := by
  have h1 := m.one_mib_le
  have hh : mmioHoleStart = 3221225472 := rfl
  have hb : highRamBase = 4294967296 := rfl
  constructor
  · intro h
    have hax : (askE801 m).ax = 0xE801 := rfl
    obtain ⟨ha, -, -, -⟩ := e801_answer hax
    -- the last byte below 16 MiB is described whatever the size
    have hdesc : DescribedByE801 (askE801 m) (2 ^ 24 - 1) := by
      left
      rw [ha, kib_toNat]
      omega
    have hu := (usable_iff _ _ h1).mp (h.e801 (askE801 m) rfl hax _ hdesc)
    omega
  · intro h
    refine ⟨fun a b i ha hb => m.slot_inj a b ha hb, fun a => m.slot_isSome_iff a, m.lowSize_eq, ?_,
      m.topOfRam_isLeast, wellFormed_e820Map _ h1, fun a => (usable_backed m a).1,
      fun a => (usable_backed m a).2, fun t ht k hk => enumerates_all ht k hk, ?_, ?_⟩
    · intro i
      exact ⟨fun hi => m.slot_surj hi, fun ⟨a, ha⟩ => m.slot_lt a ha⟩
    · intro s hs hax a hd
      obtain ⟨hax', -, hbx, -⟩ := e801_answer hax
      rw [usable_iff _ _ h1]
      rw [DescribedByE801, hax', hbx, hs, kib_toNat] at hd
      have hunits := Nat.div_mul_le_self (min m.ramSize mmioHoleStart - 2 ^ 24) (2 ^ 16)
      generalize (min m.ramSize mmioHoleStart - 2 ^ 24) / 2 ^ 16 = q at hd hunits
      rcases hd with ⟨hlo, hhi⟩ | ⟨hlo, hhi⟩
      · right
        left
        omega
      · have hmin : min q 0xFFFF * 2 ^ 16 ≤ q * 2 ^ 16 := Nat.mul_le_mul_right _ (Nat.min_le_left _ _)
        right
        left
        omega
    · intro s hs hah a hd
      rw [usable_iff _ _ h1]
      rw [DescribedBy88, mem88_answer hah, hs] at hd
      omega

/-- A machine with 1 MiB of RAM reports 15 MiB more. -/
theorem e801_overstates : ¬ MapTrue (Memory.withSize (2 ^ 20) (by decide)) := by
  intro h
  have hax : (askE801 (Memory.withSize (2 ^ 20) (by decide))).ax = 0xE801 := rfl
  obtain ⟨ha, -, -, -⟩ := e801_answer hax
  have hdesc : DescribedByE801 (askE801 (Memory.withSize (2 ^ 20) (by decide))) (2 ^ 20) := by
    left
    rw [ha, kib_toNat]
    omega
  have hu := h.e801 _ rfl hax _ hdesc
  rw [usable_iff _ _ (Memory.one_mib_le _)] at hu
  have hh : mmioHoleStart = 3221225472 := rfl
  have hb : highRamBase = 4294967296 := rfl
  have hr : (Memory.withSize (2 ^ 20) (by decide)).ramSize = 2 ^ 20 := rfl
  omega

end X86Emu
