import X86Emu.HostBits
import X86Emu.MemoryFacts

/-!
# VMCS regions

The current VMCS lives in a working copy, written back when another is made current. Over every run
of the root-operation instructions a field reads as last written, and no byte outside the regions
moves, as long as the eight bytes after a region are as they were when it was loaded.
-/
namespace X86Emu

open StateRules

namespace Memory

/-- A 4 KiB-aligned page of RAM. -/
structure RamPage (m : Memory) (p : U64) : Prop where
  aligned : p.toNat % 4096 = 0
  plain : ¬ inVga p
  ram : (m.slot p).isSome = true

/-- The byte lies in the page. -/
def InPage (p b : U64) : Prop := (b - p).toNat < 4096

instance (p b : U64) : Decidable (InPage p b) := inferInstanceAs (Decidable (_ < _))

namespace RamPage

variable {m m' : Memory} {p q b : U64}

theorem of_slot (h : m.RamPage p) (hs : ∀ b, m'.slot b = m.slot b) : m'.RamPage p where
  aligned := h.aligned
  plain := h.plain
  ram := by
    rw [hs]
    exact h.ram

theorem le (h : m.RamPage p) : p.toNat + 8192 ≤ 2 ^ 64 := by
  obtain ⟨i, hi⟩ := Option.isSome_iff_exists.mp h.ram
  have hcap := m.slot_lt p hi
  have hmax := m.ramSize_le
  have hlow := m.lowSize_le
  have hbase : highRamBase = 2 ^ 32 := by norm_num [highRamBase]
  rcases (m.slot_eq_some_iff p).mp hi with h | h <;> omega

theorem inPage_iff (h : m.RamPage p) : InPage p b ↔ b.toNat / 4096 = p.toNat / 4096 := by
  have hal := h.aligned
  have hb := b.isLt
  unfold InPage
  rw [BitVec.toNat_sub]
  omega

theorem inPage_inj (hp : m.RamPage p) (hq : m.RamPage q) (h1 : InPage p b) (h2 : InPage q b) :
    p = q := by
  rw [hp.inPage_iff] at h1
  rw [hq.inPage_iff] at h2
  have ha := hp.aligned
  have hb := hq.aligned
  apply BitVec.eq_of_toNat_eq
  omega

theorem backed (h : m.RamPage p) (hb : InPage p b) : m.backed b := by
  have hadd : b = p + BitVec.ofNat 64 (b - p).toNat := by
    rw [BitVec.ofNat_toNat, BitVec.setWidth_eq, BitVec.add_comm, BitVec.sub_add_cancel]
  have hlt : (b - p).toNat < 4096 := hb
  refine .inr ?_
  rw [hadd, m.slot_add p (by rw [h.aligned]; omega), Option.isSome_map]
  exact h.ram

theorem slotAddr_toNat (h : m.RamPage p) {k : Nat} (hk : k ≤ 511) :
    (Cpu.slotAddr p k).toNat = p.toNat + 8 + 8 * k := by
  have hle := h.le
  unfold Cpu.slotAddr
  rw [BitVec.toNat_add, BitVec.toNat_add, BitVec.toNat_ofNat]
  have h8 : (8 : U64).toNat = 8 := rfl
  omega

theorem block (h : m.RamPage p) (n : Memory) {k : Nat} (hk : k ≤ 511) :
    n.Block (Cpu.slotAddr p k) 8 := by
  refine n.block_of_aligned _ (by decide) (by decide) ?_
  have hal := h.aligned
  rw [h.slotAddr_toNat hk]
  omega

/-- The bytes of a slot short of the last lie in the region. -/
theorem inPage_slot (h : m.RamPage p) {k j : Nat} (hk : k < 511) (hj : j < 8) :
    InPage p (Cpu.slotAddr p k + BitVec.ofNat 64 j) := by
  have hle := h.le
  have hal := h.aligned
  rw [h.inPage_iff, BitVec.toNat_add, h.slotAddr_toNat (by omega), BitVec.toNat_ofNat]
  omega

/-- A slot reads the same when the bytes of its region do. -/
theorem readU64_slot (h : m.RamPage p) {k : Nat} (hk : k < 511)
    (hs : ∀ b, m'.slot b = m.slot b) (hb : ∀ b, InPage p b → m'.readU8 b = m.readU8 b) :
    m'.readU64 (Cpu.slotAddr p k) = m.readU64 (Cpu.slotAddr p k) :=
  (h.block m (by omega)).readU64_congr hs fun _ hj => hb _ (h.inPage_slot hk hj)

/-! ### Writing a working copy back -/

theorem stored_slots (h : m.RamPage p) (vmcs : Nat → U64) :
    ∀ n ≤ 512, Stored m
      ((List.range n).foldl (fun m i => m.writeU64 (Cpu.slotAddr p i) (vmcs i)) m) (p + 8) (8 * n)
      (fun i => byteOf (vmcs (i / 8)) (i % 8))
  | 0, _ => Stored.refl m _ _
  | n + 1, hn => by
    have ih := h.stored_slots vmcs n (by omega)
    have haddr : Cpu.slotAddr p n = p + 8 + BitVec.ofNat 64 (8 * n) := by
      rw [Cpu.slotAddr, Nat.mul_comm]
    rw [List.range_succ, List.foldl_append, List.foldl_cons, List.foldl_nil]
    have hlast := (h.block ((List.range n).foldl
      (fun m i => m.writeU64 (Cpu.slotAddr p i) (vmcs i)) m) (k := n) (by omega)).stored_writeU64
      (vmcs n)
    rw [haddr] at hlast ⊢
    refine (ih.append hlast (by omega)).congr fun i hi => ?_
    split
    · rfl
    · rename_i hge
      have hdiv : i / 8 = n := by omega
      have hmod : i % 8 = i - 8 * n := by omega
      rw [hdiv, hmod]

theorem stored_flush (h : m.RamPage p) (vmcs : Nat → U64) :
    Stored m (flushRegion p vmcs m) (p + 8) 4096 (fun i => byteOf (vmcs (i / 8)) (i % 8)) :=
  h.stored_slots vmcs 512 (Nat.le_refl _)

/-- Every slot but the last reads back from the region. -/
theorem readU64_flush (h : m.RamPage p) (vmcs : Nat → U64) {k : Nat} (hk : k < 511) :
    (flushRegion p vmcs m).readU64 (Cpu.slotAddr p k) = vmcs k := by
  refine (h.block _ (by omega)).readU64_of_bytes fun j hj => ?_
  have hle := h.le
  have hfirst : (p + 8).toNat = p.toNat + 8 := by
    have h8 : (8 : U64).toNat = 8 := rfl
    rw [BitVec.toNat_add]
    omega
  have hbyte : (Cpu.slotAddr p k + BitVec.ofNat 64 j).toNat = p.toNat + 8 + 8 * k + j := by
    rw [BitVec.toNat_add, h.slotAddr_toNat (by omega), BitVec.toNat_ofNat]
    omega
  have hoff : (Cpu.slotAddr p k + BitVec.ofNat 64 j - (p + 8)).toNat = 8 * k + j := by
    rw [BitVec.toNat_sub, hfirst, hbyte]
    omega
  have hdiv : (8 * k + j) / 8 = k := by omega
  have hmod : (8 * k + j) % 8 = j := by omega
  rw [(h.stored_flush vmcs).byte, if_pos ⟨by rw [hoff]; omega, h.backed (h.inPage_slot hk hj)⟩]
  rw [hoff, hdiv, hmod]

end RamPage

/-- The eight bytes after the page hold `v`, where anything stands behind them. -/
def TailHolds (m : Memory) (p v : U64) : Prop :=
  ∀ j < 8, m.backed (p + BitVec.ofNat 64 (4096 + j)) →
    m.readU8 (p + BitVec.ofNat 64 (4096 + j)) = byteOf v j

/-- Outside its region a working copy is written back over what is there. -/
theorem RamPage.readU8_flush {m : Memory} {p b : U64} (h : m.RamPage p) {vmcs : Nat → U64}
    (ht : m.TailHolds p (vmcs 511)) (hb : ¬ InPage p b) :
    (flushRegion p vmcs m).readU8 b = m.readU8 b := by
  rw [(h.stored_flush vmcs).byte]
  split
  · rename_i hc
    obtain ⟨hlt, hbacked⟩ := hc
    have hfar : ¬(b - p).toNat < 4096 := hb
    have hsub : (b - (p + 8)).toNat = (b - p).toNat - 8 :=
      Stored.sub_add_toNat p b (n := 8) (by decide) (by omega)
    rw [hsub] at hlt ⊢
    have hadd : b = p + BitVec.ofNat 64 (4096 + ((b - p).toNat - 4096)) := by
      rw [Nat.add_sub_cancel' (by omega), BitVec.ofNat_toNat, BitVec.setWidth_eq, BitVec.add_comm,
        BitVec.sub_add_cancel]
    have hdiv : ((b - p).toNat - 8) / 8 = 511 := by omega
    have hmod : ((b - p).toNat - 8) % 8 = (b - p).toNat - 4096 := by omega
    have htail := ht ((b - p).toNat - 4096) (by omega)
    rw [← hadd] at htail
    rw [hdiv, hmod]
    exact (htail hbacked).symm
  · rfl

end Memory

open Memory

/-! ## Slots of fields -/

/-- The slot of a field that VMWRITE can write. -/
structure FieldSlot (k : Nat) : Prop where
  lt : k < 512
  index : k % 32 ≤ 26
  type : k / 32 % 4 ≠ 1

theorem FieldSlot.ne_launch {k : Nat} (h : FieldSlot k) : k ≠ Vmx.launchSlot := by
  have := h.index
  unfold Vmx.launchSlot
  omega

theorem FieldSlot.lt_last {k : Nat} (h : FieldSlot k) : k < 511 := by
  have := h.index
  have := h.lt
  omega

theorem slot_eq {enc : U32} {k : Nat} (h : Vmx.slot enc = some k) :
    k < 512 ∧ k % 32 ≤ 26 ∧ k / 32 % 4 = ((enc >>> 10) &&& 3).toNat := by
  have hty : ((enc >>> 10) &&& 3).toNat < 4 := by
    rw [BitVec.toNat_and]
    exact Nat.lt_succ_of_le Nat.and_le_right
  have hwidth : ((enc >>> 13) &&& 3).toNat < 4 := by
    rw [BitVec.toNat_and]
    exact Nat.lt_succ_of_le Nat.and_le_right
  unfold Vmx.slot at h
  dsimp only at h
  split at h
  · cases h
  · rename_i hc
    rw [not_or] at hc
    have hindex := hc.1
    unfold Vmx.highestIndex at hindex
    have hk := Option.some.inj h
    omega

theorem fieldSlot_of_slot {enc : U32} {k : Nat} (h : Vmx.slot enc = some k)
    (hro : Vmx.isReadOnly enc = false) : FieldSlot k := by
  obtain ⟨hlt, hindex, htype⟩ := slot_eq h
  refine ⟨hlt, hindex, fun h1 => ?_⟩
  rw [htype] at h1
  have hone : (enc >>> 10) &&& 3 = 1 := BitVec.eq_of_toNat_eq h1
  unfold Vmx.isReadOnly at hro
  rw [hone] at hro
  cases hro

theorem FieldSlot.ne_error {k : Nat} (h : FieldSlot k) :
    Vmx.slot Field.instructionError ≠ some k := by
  intro he
  exact h.type ((slot_eq he).2.2.trans (by decide))

/-! ## What a region holds -/

namespace Cpu

/-- A slot of a region: in the working copy while the region is current, in memory otherwise. -/
def contentsOf (s : Cpu) (p : U64) (k : Nat) : U64 :=
  if s.vmx.current = some p then s.vmx.vmcs k else s.mem.readU64 (slotAddr p k)

theorem contentsOf_none {s : Cpu} (h : s.vmx.current = none) (p : U64) (k : Nat) :
    s.contentsOf p k = s.mem.readU64 (slotAddr p k) := by
  unfold contentsOf
  rw [h]
  exact if_neg fun he => by cases he

/-- The eight bytes after the current region are as its working copy has them. -/
def TailKept (s : Cpu) : Prop := ∀ p, s.vmx.current = some p → s.mem.TailHolds p (s.vmx.vmcs 511)

end Cpu

/-- The regions hold `c`, and one of them may be current. -/
structure RegionsHold (R : Set U64) (c : U64 → Nat → U64) (s : Cpu) : Prop where
  pages : ∀ p ∈ R, s.mem.RamPage p
  current : ∀ p, s.vmx.current = some p → p ∈ R
  off : s.vmx.on = false → s.vmx.current = none
  contents : ∀ p ∈ R, ∀ k, FieldSlot k → s.contentsOf p k = c p k

/-- No byte outside the regions moved. -/
def OutsideKept (R : Set U64) (s t : Cpu) : Prop :=
  ∀ b, (∀ p ∈ R, ¬ InPage p b) → t.mem.readU8 b = s.mem.readU8 b

/-- Memory, the region made current and its fields are as they were. -/
structure FieldsKept (s t : Cpu) : Prop where
  mem : t.mem = s.mem
  on : t.vmx.on = s.vmx.on
  current : t.vmx.current = s.vmx.current
  vmcs : ∀ k, FieldSlot k → t.vmx.vmcs k = s.vmx.vmcs k

section Regions

variable {R : Set U64} {c : U64 → Nat → U64} {s t : Cpu}

theorem FieldsKept.trans {u : Cpu} (h : FieldsKept s t) (k : FieldsKept t u) : FieldsKept s u where
  mem := k.mem.trans h.mem
  on := k.on.trans h.on
  current := k.current.trans h.current
  vmcs i hi := (k.vmcs i hi).trans (h.vmcs i hi)

theorem FieldsKept.outside (h : FieldsKept s t) : OutsideKept R s t := fun b _ => by rw [h.mem]

theorem FieldsKept.regions (h : FieldsKept s t) (hs : RegionsHold R c s) : RegionsHold R c t where
  pages p hp := h.mem ▸ hs.pages p hp
  current p hp := hs.current p (h.current ▸ hp)
  off ho := h.current.trans (hs.off (h.on ▸ ho))
  contents p hp k hk := by
    rw [← hs.contents p hp k hk, Cpu.contentsOf, Cpu.contentsOf, h.current, h.mem, h.vmcs k hk]

theorem fieldsKept_vmSucceed (s : Cpu) : FieldsKept s s.vmSucceed := ⟨rfl, rfl, rfl, fun _ _ => rfl⟩

theorem fieldsKept_vmFailInvalid (s : Cpu) : FieldsKept s s.vmFailInvalid :=
  ⟨rfl, rfl, rfl, fun _ _ => rfl⟩

theorem write_parts (x : Vmx) (enc : U32) (v : U64) :
    (x.write enc v).on = x.on ∧ (x.write enc v).current = x.current := by
  unfold Vmx.write
  split <;> exact ⟨rfl, rfl⟩

theorem fieldsKept_vmFailValid (s : Cpu) (e : U32) : FieldsKept s (s.vmFailValid e) where
  mem := rfl
  on := (write_parts _ _ _).1
  current := (write_parts _ _ _).2
  vmcs k hk := (Vmx.vmcs_write _ _ _ k).trans (if_neg hk.ne_error)

theorem fieldsKept_setLaunched (s : Cpu) (on : Bool) : FieldsKept s (s.setLaunched on) where
  mem := rfl
  on := rfl
  current := rfl
  vmcs _ hk := if_neg hk.ne_launch

/-! ## Writing the working copy back -/

theorem modifyMem_mem (s : Cpu) (f : Memory → Memory) : (s.modifyMem f).mem = f s.mem := rfl

theorem modifyMem_vmSucceed (s : Cpu) (f : Memory → Memory) :
    (s.modifyMem f).vmSucceed.mem = f s.mem ∧ (s.modifyMem f).vmSucceed.vmx = s.vmx := ⟨rfl, rfl⟩

theorem flushVmcs_eq {p : U64} (h : s.vmx.current = some p) :
    s.flushVmcs = s.modifyMem (flushRegion p s.vmx.vmcs) := by
  unfold Cpu.flushVmcs
  rw [h]

theorem flushVmcs_mem {p : U64} (h : s.vmx.current = some p) :
    s.flushVmcs.mem = flushRegion p s.vmx.vmcs s.mem := by
  rw [flushVmcs_eq h, modifyMem_mem]

theorem flushVmcs_none (h : s.vmx.current = none) : s.flushVmcs.mem = s.mem := by
  unfold Cpu.flushVmcs
  rw [h]

theorem flush_slot (hs : RegionsHold R c s) (b : U64) :
    s.flushVmcs.mem.slot b = s.mem.slot b := by
  cases hc : s.vmx.current with
  | none => rw [flushVmcs_none hc]
  | some p =>
    rw [flushVmcs_mem hc]
    exact ((hs.pages p (hs.current p hc)).stored_flush s.vmx.vmcs).slot b

theorem flush_outside (hs : RegionsHold R c s) (ht : s.TailKept) : OutsideKept R s s.flushVmcs := by
  intro b hb
  cases hc : s.vmx.current with
  | none => rw [flushVmcs_none hc]
  | some p =>
    have hmem := hs.current p hc
    rw [flushVmcs_mem hc]
    exact (hs.pages p hmem).readU8_flush (ht p hc) (hb p hmem)

/-- After a write-back every region holds in memory what it held. -/
theorem flush_contents (hs : RegionsHold R c s) (ht : s.TailKept) {q : U64} (hq : q ∈ R) {k : Nat}
    (hk : FieldSlot k) : s.flushVmcs.mem.readU64 (Cpu.slotAddr q k) = c q k := by
  have hold := hs.contents q hq k hk
  unfold Cpu.contentsOf at hold
  cases hc : s.vmx.current with
  | none =>
    rw [hc, if_neg (by simp)] at hold
    rw [flushVmcs_none hc]
    exact hold
  | some p =>
    have hpage := hs.pages p (hs.current p hc)
    rw [hc] at hold
    rw [flushVmcs_mem hc]
    by_cases hpq : p = q
    · subst hpq
      rw [if_pos rfl] at hold
      exact (hpage.readU64_flush s.vmx.vmcs hk.lt_last).trans hold
    · rw [if_neg fun h => hpq (Option.some.inj h)] at hold
      rw [← hold]
      have hstored := hpage.stored_flush s.vmx.vmcs
      refine (hs.pages q hq).readU64_slot hk.lt_last hstored.slot fun b hb => ?_
      exact hpage.readU8_flush (ht p hc) fun hin => hpq (hpage.inPage_inj (hs.pages q hq) hin hb)

/-! ## The instructions -/

/-- The working copy written back, and nothing made current in its place. -/
theorem regions_released (hs : RegionsHold R c s) (ht : s.TailKept)
    (hmem : t.mem = s.flushVmcs.mem) (hcur : t.vmx.current = none) :
    RegionsHold R c t ∧ OutsideKept R s t := by
  refine ⟨?_, fun b hb => ?_⟩
  · exact
      { pages := fun p hp => hmem ▸ (hs.pages p hp).of_slot (flush_slot hs)
        current := fun p hp => by
          rw [hcur] at hp
          cases hp
        off := fun _ => hcur
        contents := fun q hq k hk => by
          rw [Cpu.contentsOf_none hcur, hmem]
          exact flush_contents hs ht hq hk }
  · rw [hmem]
    exact flush_outside hs ht b hb

theorem regions_leaveRoot (hs : RegionsHold R c s) (ht : s.TailKept) :
    RegionsHold R c s.leaveRoot ∧ OutsideKept R s s.leaveRoot := by
  have hmem : s.leaveRoot.mem = s.flushVmcs.mem := by
    unfold Cpu.leaveRoot
    generalize s.flushVmcs = u
    rfl
  exact regions_released hs ht hmem rfl

theorem regions_unload (hs : RegionsHold R c s) (ht : s.TailKept) :
    RegionsHold R c (s.flushVmcs.setCurrent none).vmSucceed ∧
      OutsideKept R s (s.flushVmcs.setCurrent none).vmSucceed := by
  have hmem : (s.flushVmcs.setCurrent none).vmSucceed.mem = s.flushVmcs.mem := by
    generalize s.flushVmcs = u
    rfl
  exact regions_released hs ht hmem rfl

theorem flushVmcs_on (s : Cpu) : s.flushVmcs.vmx.on = s.vmx.on := by
  unfold Cpu.flushVmcs
  split <;> rfl

theorem regions_load (hs : RegionsHold R c s) (ht : s.TailKept) (hon : s.vmx.on = true) {p : U64}
    (hp : p ∈ R) : RegionsHold R c (s.flushVmcs.loadVmcs p).vmSucceed ∧
      OutsideKept R s (s.flushVmcs.loadVmcs p).vmSucceed := by
  have hslot := flush_slot hs
  have hcontents := fun q hq k hk => flush_contents hs ht (q := q) hq (k := k) hk
  have hout := flush_outside hs ht
  have hpages (p : U64) (hp : p ∈ R) : s.flushVmcs.mem.RamPage p := (hs.pages p hp).of_slot hslot
  have hon' : s.flushVmcs.vmx.on = true := (flushVmcs_on s).trans hon
  generalize s.flushVmcs = u at hslot hcontents hout hpages hon' ⊢
  refine ⟨?_, hout⟩
  refine
    { pages := hpages
      current := fun q hq => Option.some.inj hq ▸ hp
      off := fun h => absurd (hon'.symm.trans h) (by decide)
      contents := fun q hq k hk => ?_ }
  rw [← hcontents q hq k hk]
  by_cases hpq : p = q
  · subst hpq
    exact if_pos rfl
  · exact if_neg fun h => hpq (Option.some.inj h)

theorem regions_enterRoot (hs : RegionsHold R c s) (hon : s.vmx.on = false) (p : U64) :
    RegionsHold R c (s.enterRoot p) ∧ OutsideKept R s (s.enterRoot p) := by
  have hfail := fieldsKept_vmFailInvalid s
  unfold Cpu.enterRoot
  split
  · exact ⟨hfail.regions hs, hfail.outside⟩
  split
  · exact ⟨hfail.regions hs, hfail.outside⟩
  refine ⟨?_, fun b _ => rfl⟩
  exact
    { pages := hs.pages
      current := fun q hq => by cases hq
      off := fun _ => rfl
      contents := fun q hq k hk => by
        rw [← hs.contents q hq k hk, Cpu.contentsOf_none (hs.off hon), Cpu.contentsOf_none rfl]
        rfl }

/-- A byte of a slot, by its distance from the slot's address. -/
theorem slot_byte {m : Memory} {p b : U64} (h : m.RamPage p) {k : Nat} (hk : k < 511)
    (hb : (b - Cpu.slotAddr p k).toNat < 8) :
    InPage p b ∧ b.toNat / 8 = p.toNat / 8 + 1 + k := by
  have hadd : b = Cpu.slotAddr p k + BitVec.ofNat 64 (b - Cpu.slotAddr p k).toNat := by
    rw [BitVec.ofNat_toNat, BitVec.setWidth_eq, BitVec.add_comm, BitVec.sub_add_cancel]
  have hin := h.inPage_slot hk hb
  rw [← hadd] at hin
  refine ⟨hin, ?_⟩
  have hle := h.le
  have hal := h.aligned
  have hslot := h.slotAddr_toNat (k := k) (by omega)
  have hlt := b.isLt
  rw [BitVec.toNat_sub] at hb
  omega

/-- Clearing a region that is not current writes its launch state only. -/
theorem regions_clearMemory (hs : RegionsHold R c s) {p : U64} (hp : p ∈ R)
    (hmem : t.mem = s.mem.writeU64 (Cpu.slotAddr p Vmx.launchSlot) 0) (hvmx : t.vmx = s.vmx) :
    RegionsHold R c t ∧ OutsideKept R s t := by
  have hpage := hs.pages p hp
  have hlast : Vmx.launchSlot < 511 := by decide
  have hstored := (hpage.block s.mem (k := Vmx.launchSlot) (by decide)).stored_writeU64 0
  rw [← hmem] at hstored
  have hkept {b : U64} (hb : ¬(b - Cpu.slotAddr p Vmx.launchSlot).toNat < 8) :
      t.mem.readU8 b = s.mem.readU8 b := by
    rw [hstored.byte, if_neg fun h => hb h.1]
  refine ⟨?_, fun b hb => hkept fun h => hb p hp (slot_byte hpage hlast h).1⟩
  refine
    { pages := fun q hq => (hs.pages q hq).of_slot hstored.slot
      current := fun q hq => hs.current q (hvmx ▸ hq)
      off := fun ho => hvmx ▸ hs.off (hvmx ▸ ho)
      contents := fun q hq k hk => ?_ }
  have hqpage := hs.pages q hq
  have hread : t.mem.readU64 (Cpu.slotAddr q k) = s.mem.readU64 (Cpu.slotAddr q k) := by
    refine (hqpage.block s.mem (by have := hk.lt; omega)).readU64_congr hstored.slot
      fun j hj => hkept fun h => ?_
    obtain ⟨hin, hdiv⟩ := slot_byte hpage hlast h
    have hpq := hpage.inPage_inj hqpage hin (hqpage.inPage_slot hk.lt_last hj)
    subst hpq
    have hle := hpage.le
    have hal := hpage.aligned
    have hklt := hk.lt
    have hne := hk.ne_launch
    rw [BitVec.toNat_add, hpage.slotAddr_toNat (by omega), BitVec.toNat_ofNat] at hdiv
    omega
  rw [← hs.contents q hq k hk, Cpu.contentsOf, Cpu.contentsOf, hvmx, hread]

end Regions

/-! ## Runs in root operation -/

/-- The instructions that manage regions and fields, with the operands they read. -/
inductive VmcsOp where
  | vmxon (p : U64)
  | vmxoff
  | vmptrld (p : U64)
  | vmclear (p : U64)
  | vmread (enc : U32)
  | vmwrite (enc : U32) (v : U64)

/-- A successful VMWRITE. -/
structure FieldWrite where
  region : U64
  enc : U32
  value : U64
  deriving DecidableEq

/-- The contents of the regions after a write. -/
def FieldWrite.apply (c : U64 → Nat → U64) (w : FieldWrite) : U64 → Nat → U64 := fun q k =>
  if q = w.region ∧ Vmx.slot w.enc = some k then Vmx.writeSlot w.enc (c q k) w.value else c q k

namespace VmcsOp

/-- What the instruction does once its operand is read. -/
def run (s : Cpu) : VmcsOp → Cpu
  | vmxon p => if s.vmx.on then s.vmFailValid VmError.vmxonInRoot else s.enterRoot p
  | vmxoff => s.leaveRoot
  | vmptrld p => s.pointTo p
  | vmclear p => s.clearVmcs p
  | vmread enc =>
    if s.vmx.current.isNone then s.vmFailInvalid
    else if (Vmx.slot enc).isNone then s.vmFailValid VmError.vmreadWriteBadField
    else s.vmSucceed
  | vmwrite enc v =>
    if s.vmx.current.isNone then s.vmFailInvalid
    else if (Vmx.slot enc).isNone then s.vmFailValid VmError.vmreadWriteBadField
    else if Vmx.isReadOnly enc then s.vmFailValid VmError.vmwriteReadOnly
    else (s.vmWrite enc v).vmSucceed

/-- The region the instruction is given, other than VMXON's. -/
def region : VmcsOp → Option U64
  | vmptrld p => some p
  | vmclear p => some p
  | _ => none

/-- The instruction writes the working copy back. -/
def writesBack (s : Cpu) : VmcsOp → Prop
  | vmxoff => True
  | vmptrld p =>
    Cpu.badRegionPtr p = false ∧ p ≠ s.vmx.vmxonPtr ∧ s.mem.readU32 p = Vmx.vmcsRevision ∧
      s.vmx.current ≠ some p
  | vmclear p => Cpu.badRegionPtr p = false ∧ p ≠ s.vmx.vmxonPtr ∧ s.vmx.current = some p
  | _ => False

/-- The field a successful VMWRITE writes. -/
def fieldWrite (s : Cpu) : VmcsOp → Option FieldWrite
  | vmwrite enc v =>
    if (Vmx.slot enc).isNone || Vmx.isReadOnly enc then none
    else s.vmx.current.map fun p => ⟨p, enc, v⟩
  | _ => none

end VmcsOp

section Runs

variable {R : Set U64} {c : U64 → Nat → U64} {s t : Cpu}

theorem regions_pointTo (hs : RegionsHold R c s) (hon : s.vmx.on = true) {p : U64} (hp : p ∈ R)
    (ht : (VmcsOp.vmptrld p).writesBack s → s.TailKept) :
    RegionsHold R c (s.pointTo p) ∧ OutsideKept R s (s.pointTo p) := by
  have hfail (e : U32) := fieldsKept_vmFailValid s e
  have hok := fieldsKept_vmSucceed s
  unfold Cpu.pointTo
  split
  · exact ⟨(hfail _).regions hs, (hfail _).outside⟩
  rename_i hbad
  split
  · exact ⟨(hfail _).regions hs, (hfail _).outside⟩
  rename_i hptr
  split
  · exact ⟨(hfail _).regions hs, (hfail _).outside⟩
  rename_i hrev
  split
  · exact ⟨hok.regions hs, hok.outside⟩
  rename_i hcur
  exact regions_load hs (ht ⟨Bool.eq_false_of_not_eq_true hbad, hptr, not_not.mp hrev, hcur⟩) hon hp

theorem regions_clearVmcs (hs : RegionsHold R c s) {p : U64} (hp : p ∈ R)
    (ht : (VmcsOp.vmclear p).writesBack s → s.TailKept) :
    RegionsHold R c (s.clearVmcs p) ∧ OutsideKept R s (s.clearVmcs p) := by
  have hfail (e : U32) := fieldsKept_vmFailValid s e
  unfold Cpu.clearVmcs
  split
  · exact ⟨(hfail _).regions hs, (hfail _).outside⟩
  rename_i hbad
  split
  · exact ⟨(hfail _).regions hs, (hfail _).outside⟩
  rename_i hptr
  split
  · rename_i hcur
    have htail : (s.setLaunched false).TailKept :=
      ht ⟨Bool.eq_false_of_not_eq_true hbad, hptr, hcur⟩
    exact regions_unload ((fieldsKept_setLaunched s false).regions hs) htail
  · have hparts := modifyMem_vmSucceed s (·.writeU64 (Cpu.slotAddr p Vmx.launchSlot) 0)
    exact regions_clearMemory hs hp hparts.1 hparts.2

theorem regions_vmwrite (hs : RegionsHold R c s) (enc : U32) (v : U64) :
    RegionsHold R (((VmcsOp.vmwrite enc v).fieldWrite s).toList.foldl FieldWrite.apply c)
        ((VmcsOp.vmwrite enc v).run s) ∧ OutsideKept R s ((VmcsOp.vmwrite enc v).run s) := by
  have hfail (e : U32) := fieldsKept_vmFailValid s e
  have hinvalid := fieldsKept_vmFailInvalid s
  unfold VmcsOp.run VmcsOp.fieldWrite
  dsimp only
  cases hc : s.vmx.current with
  | none =>
    rw [Option.isNone_none, if_pos rfl, Option.map_none, ite_self]
    exact ⟨hinvalid.regions hs, hinvalid.outside⟩
  | some p =>
  cases hk : Vmx.slot enc with
  | none => exact ⟨(hfail _).regions hs, (hfail _).outside⟩
  | some i =>
  cases hro : Vmx.isReadOnly enc with
  | true => exact ⟨(hfail _).regions hs, (hfail _).outside⟩
  | false =>
    change RegionsHold R (FieldWrite.apply c ⟨p, enc, v⟩) (s.vmWrite enc v).vmSucceed ∧
      OutsideKept R s (s.vmWrite enc v).vmSucceed
    refine ⟨?_, fun b _ => rfl⟩
    have hparts := write_parts s.vmx enc v
    refine
      { pages := hs.pages
        current := fun q hq => hs.current q (hparts.2.symm.trans hq)
        off := fun ho => hparts.2.trans (hs.off (hparts.1.symm.trans ho))
        contents := fun q hq k hfield => ?_ }
    have hold := hs.contents q hq k hfield
    have hcur : (s.vmWrite enc v).vmSucceed.vmx.current = some p := hparts.2.trans hc
    have hvmcs : (s.vmWrite enc v).vmSucceed.vmx.vmcs k = _ := Vmx.vmcs_write s.vmx enc v k
    rw [Cpu.contentsOf, hc] at hold
    rw [Cpu.contentsOf, hcur, hvmcs, FieldWrite.apply]
    dsimp only
    by_cases hpq : p = q
    · subst hpq
      rw [if_pos rfl] at hold
      rw [if_pos rfl, hold]
      by_cases hik : Vmx.slot enc = some k
      · rw [if_pos hik, if_pos ⟨rfl, hik⟩]
      · rw [if_neg hik, if_neg fun h => hik h.2]
    · have hne : some p ≠ some q := fun h => hpq (Option.some.inj h)
      rw [if_neg hne] at hold
      rw [if_neg hne, if_neg fun h => hpq h.1.symm]
      exact hold

/-- One instruction keeps the contents, the written field apart, and the bytes outside. -/
theorem regions_run (hs : RegionsHold R c s) {op : VmcsOp}
    (hroot : s.vmx.on = true ∨ ∃ p, op = .vmxon p) (hregion : ∀ p ∈ op.region, p ∈ R)
    (ht : op.writesBack s → s.TailKept) :
    RegionsHold R ((op.fieldWrite s).toList.foldl FieldWrite.apply c) (op.run s) ∧
      OutsideKept R s (op.run s) := by
  have hfail (e : U32) := fieldsKept_vmFailValid s e
  have hinvalid := fieldsKept_vmFailInvalid s
  have hok := fieldsKept_vmSucceed s
  have hon (h : ∀ p, op ≠ .vmxon p) : s.vmx.on = true :=
    hroot.resolve_right fun ⟨p, hp⟩ => h p hp
  cases op with
  | vmxon p =>
    unfold VmcsOp.run
    dsimp only
    split
    · exact ⟨(hfail _).regions hs, (hfail _).outside⟩
    · rename_i hoff
      exact regions_enterRoot hs (Bool.eq_false_of_not_eq_true hoff) p
  | vmxoff => exact regions_leaveRoot hs (ht trivial)
  | vmptrld p => exact regions_pointTo hs (hon (by simp)) (hregion p rfl) ht
  | vmclear p => exact regions_clearVmcs hs (hregion p rfl) ht
  | vmread enc =>
    unfold VmcsOp.run
    dsimp only
    split
    · exact ⟨hinvalid.regions hs, hinvalid.outside⟩
    split
    · exact ⟨(hfail _).regions hs, (hfail _).outside⟩
    · exact ⟨hok.regions hs, hok.outside⟩
  | vmwrite enc v => exact regions_vmwrite hs enc v

/-- The instruction executes in root operation, on one of the regions. -/
structure VmcsOp.Admits (R : Set U64) (s : Cpu) (op : VmcsOp) : Prop where
  root : s.vmx.on = true ∨ ∃ p, op = .vmxon p
  region : ∀ p ∈ op.region, p ∈ R

/-- A run of region instructions and of anything else that leaves the VMX state and the regions
alone, with the instructions and the states they executed in. -/
inductive RootRun (R : Set U64) (s : Cpu) : List (Cpu × VmcsOp) → Cpu → Prop
  | start : RootRun R s [] s
  | host {l : List (Cpu × VmcsOp)} {t u : Cpu} (hr : RootRun R s l t) (hv : u.vmx = t.vmx)
      (hs : ∀ b, u.mem.slot b = t.mem.slot b)
      (hm : ∀ p ∈ R, ∀ b, InPage p b → u.mem.readU8 b = t.mem.readU8 b) : RootRun R s l u
  | op {l : List (Cpu × VmcsOp)} {t : Cpu} {op : VmcsOp} (hr : RootRun R s l t)
      (ha : op.Admits R t) : RootRun R s (l ++ [(t, op)]) (op.run t)

/-- The successful VMWRITEs of a run. -/
def fieldWrites (l : List (Cpu × VmcsOp)) : List FieldWrite := l.filterMap fun e => e.2.fieldWrite e.1

/-- The regions at the start of a run: pages of RAM, the current one among them. -/
structure RegionStart (R : Set U64) (s : Cpu) : Prop where
  pages : ∀ p ∈ R, s.mem.RamPage p
  current : ∀ p, s.vmx.current = some p → p ∈ R
  off : s.vmx.on = false → s.vmx.current = none

theorem regions_host (hs : RegionsHold R c s) (hv : t.vmx = s.vmx)
    (hslot : ∀ b, t.mem.slot b = s.mem.slot b)
    (hm : ∀ p ∈ R, ∀ b, InPage p b → t.mem.readU8 b = s.mem.readU8 b) : RegionsHold R c t where
  pages p hp := (hs.pages p hp).of_slot hslot
  current p hp := hs.current p (hv ▸ hp)
  off ho := hv ▸ hs.off (hv ▸ ho)
  contents p hp k hk := by
    rw [← hs.contents p hp k hk, Cpu.contentsOf, Cpu.contentsOf, hv,
      (hs.pages p hp).readU64_slot hk.lt_last hslot (hm p hp)]

/-- In a run whose write-backs find the bytes after the region kept, the regions hold the fields
written, and no instruction moves a byte outside them. -/
theorem regions_rootRun {l : List (Cpu × VmcsOp)} (h0 : RegionStart R s) (h : RootRun R s l t)
    (hl : ∀ e ∈ l, e.2.writesBack e.1 → e.1.TailKept) :
    RegionsHold R ((fieldWrites l).foldl FieldWrite.apply s.contentsOf) t ∧
      ∀ e ∈ l, OutsideKept R e.1 (e.2.run e.1) := by
  induction h with
  | start =>
    refine ⟨?_, fun e he => absurd he List.not_mem_nil⟩
    exact ⟨h0.pages, h0.current, h0.off, fun _ _ _ _ => rfl⟩
  | host hr hv hslot hm ih =>
    obtain ⟨hold, hout⟩ := ih hl
    exact ⟨regions_host hold hv hslot hm, hout⟩
  | @op l t op hr ha ih =>
    obtain ⟨hold, hout⟩ := ih fun e he => hl e (List.mem_append_left _ he)
    have htail := hl (t, op) (List.mem_append_right _ (List.mem_singleton_self _))
    obtain ⟨hnext, houtside⟩ := regions_run hold ha.root ha.region htail
    have hwrites : fieldWrites (l ++ [(t, op)]) = fieldWrites l ++ (op.fieldWrite t).toList := by
      rw [fieldWrites, List.filterMap_append, fieldWrites]
      cases h : op.fieldWrite t <;> simp [h]
    refine ⟨?_, fun e he => ?_⟩
    · rw [hwrites, List.foldl_append]
      exact hnext
    · rcases List.mem_append.mp he with he | he
      · exact hout e he
      · rw [List.mem_singleton.mp he]
        exact houtside

/-- Writes to other regions and other slots do not matter. -/
theorem foldl_apply_of_ne {q : U64} {k : Nat} :
    ∀ (ws : List FieldWrite) (c : U64 → Nat → U64),
      (∀ w ∈ ws, w.region = q → Vmx.slot w.enc ≠ some k) → (ws.foldl FieldWrite.apply c) q k = c q k
  | [], _, _ => rfl
  | w :: ws, c, h => by
    rw [List.foldl_cons, foldl_apply_of_ne ws _ fun w' hw' => h w' (List.mem_cons_of_mem _ hw')]
    exact if_neg fun hc => h w List.mem_cons_self hc.1.symm hc.2

theorem writable_of_mem {l : List (Cpu × VmcsOp)} {w : FieldWrite} (h : w ∈ fieldWrites l) :
    Vmx.isReadOnly w.enc = false := by
  obtain ⟨⟨u, op⟩, -, hop⟩ := List.mem_filterMap.mp h
  cases op with
  | vmwrite enc v =>
    unfold VmcsOp.fieldWrite at hop
    dsimp only at hop
    split at hop
    · cases hop
    rename_i hc
    rw [Bool.or_eq_true, not_or] at hc
    obtain ⟨p, -, rfl⟩ := Option.map_eq_some_iff.mp hop
    exact Bool.eq_false_of_not_eq_true hc.2
  | _ => cases hop

/-- What a field of the current VMCS reads as after its last write, through any encoding of its
slot: for the encoding written, the value truncated to it. Bytes outside the regions are never
moved by an instruction. -/
theorem vmcs_coherent {l : List (Cpu × VmcsOp)} (h0 : RegionStart R s) (h : RootRun R s l t)
    (hl : ∀ e ∈ l, e.2.writesBack e.1 → e.1.TailKept) :
    (∀ (before after : List FieldWrite) (w : FieldWrite) (k : Nat),
      fieldWrites l = before ++ w :: after → t.vmx.current = some w.region →
      Vmx.slot w.enc = some k →
      (∀ w' ∈ after, w'.region = w.region → Vmx.slot w'.enc ≠ some k) →
      t.vmRead w.enc = w.value &&& (if Vmx.isHigh w.enc then 0xFFFFFFFF else Vmx.fieldMask w.enc) ∧
        ∀ enc, Vmx.slot enc = some k → t.vmRead enc = Vmx.readSlot enc (Vmx.writeSlot w.enc
          ((before.foldl FieldWrite.apply s.contentsOf) w.region k) w.value)) ∧
      ∀ e ∈ l, OutsideKept R e.1 (e.2.run e.1) := by
  obtain ⟨hold, hout⟩ := regions_rootRun h0 h hl
  refine ⟨fun before after w k hwrites hcur hk hafter => ?_, hout⟩
  have hmem : w ∈ fieldWrites l := hwrites ▸ List.mem_append_right _ List.mem_cons_self
  have hfield := fieldSlot_of_slot hk (writable_of_mem hmem)
  have hslot := hold.contents w.region (hold.current _ hcur) k hfield
  rw [Cpu.contentsOf, if_pos hcur, hwrites, List.foldl_append, List.foldl_cons,
    foldl_apply_of_ne after _ hafter, FieldWrite.apply, if_pos ⟨rfl, hk⟩] at hslot
  have hread {enc : U32} (he : Vmx.slot enc = some k) :
      t.vmRead enc = Vmx.readSlot enc (t.vmx.vmcs k) := by
    rw [Cpu.vmRead, Vmx.read, he]
  refine ⟨?_, fun enc he => (hread he).trans (by rw [hslot])⟩
  rw [hread hk, hslot]
  cases hh : Vmx.isHigh w.enc with
  | true => exact Vmx.readSlot_writeSlot_high hh _ _
  | false => exact Vmx.readSlot_writeSlot hh _ _

end Runs
/-- A hypervisor in root operation with one region, at 64 KiB. -/
def regionHost : Cpu :=
  { Cpu.withRam (2 ^ 20) Memory.mib_le 0 with
    mem := (Memory.withSize (2 ^ 20) Memory.mib_le).writeU32 0x10000 Vmx.vmcsRevision
    vmx := { on := true, vmxonPtr := 0x9000 } }

theorem regionHost_start : RegionStart {0x10000} regionHost where
  pages p hp := by
    rw [Set.mem_singleton_iff.mp hp]
    exact ⟨by decide, by decide, by decide +kernel⟩
  current p hp := by cases hp
  off h := by cases h

theorem regionHost_loads :
    RootRun {0x10000} regionHost [(regionHost, .vmptrld 0x10000)]
      ((VmcsOp.vmptrld 0x10000).run regionHost) :=
  .op .start ⟨.inl rfl, fun _ hp => (Option.some.inj hp).symm⟩

/-- The guest's RIP reads as written. -/
theorem regionHost_coherent :
    ((VmcsOp.vmwrite Field.guestRip 0x1234).run
      ((VmcsOp.vmptrld 0x10000).run regionHost)).vmRead Field.guestRip = 0x1234 := by
  have hadmits : (VmcsOp.vmwrite Field.guestRip 0x1234).Admits {0x10000}
      ((VmcsOp.vmptrld 0x10000).run regionHost) :=
    ⟨.inl (by decide +kernel), fun p hp => by cases hp⟩
  have hrun := RootRun.op regionHost_loads hadmits
  have htail : ∀ e ∈ [(regionHost, VmcsOp.vmptrld 0x10000)] ++
      [((VmcsOp.vmptrld 0x10000).run regionHost, VmcsOp.vmwrite Field.guestRip 0x1234)],
      e.2.writesBack e.1 → e.1.TailKept := by
    intro e he hback
    rw [List.singleton_append, List.mem_cons, List.mem_singleton] at he
    rcases he with rfl | rfl
    · intro p hp
      cases hp
    · exact hback.elim
  have hread := (vmcs_coherent regionHost_start hrun htail).1 [] [] ⟨0x10000, Field.guestRip, 0x1234⟩
    ((3 * 4 + 2) * 32 + 15) (by decide +kernel) (by decide +kernel) (by decide +kernel)
    fun _ hw => absurd hw List.not_mem_nil
  exact hread.1.trans (by decide +kernel)

/-- The same hypervisor after it has stored a byte just behind the region. -/
def neighbourStored : Cpu :=
  ((VmcsOp.vmptrld 0x10000).run regionHost).modifyMem (·.writeU8 0x11000 0x42)

/-- The byte is overwritten when the working copy goes back. -/
theorem neighbour_overwritten :
    RegionStart {0x10000} regionHost ∧
      RootRun {0x10000} regionHost [(regionHost, .vmptrld 0x10000)] neighbourStored ∧
      VmcsOp.vmxoff.Admits {0x10000} neighbourStored ∧
      ¬ OutsideKept {0x10000} neighbourStored (VmcsOp.vmxoff.run neighbourStored) := by
  have hout : ¬ InPage 0x10000 0x11000 := by decide
  have hstored := ((VmcsOp.vmptrld 0x10000).run regionHost).mem.stored_writeU8 0x11000 0x42
  refine ⟨regionHost_start, .host regionHost_loads rfl hstored.slot fun p hp b hb => ?_,
    ⟨.inl (by decide +kernel), fun p hp => by cases hp⟩, fun h => ?_⟩
  · refine (hstored.byte b).trans (if_neg fun hc => hout ?_)
    have hb' : b = 0x11000 := by
      apply BitVec.eq_of_toNat_eq
      have hlt := b.isLt
      have hc1 := hc.1
      rw [BitVec.toNat_sub] at hc1
      have h8 : (0x11000 : U64).toNat = 0x11000 := rfl
      omega
    rw [← hb', ← Set.mem_singleton_iff.mp hp]
    exact hb
  · have hpage : neighbourStored.mem.RamPage 0x10000 :=
      ⟨by decide, by decide, by decide +kernel⟩
    have hbyte := h 0x11000 fun p hp => Set.mem_singleton_iff.mp hp ▸ hout
    have hmem : (VmcsOp.vmxoff.run neighbourStored).mem = neighbourStored.flushVmcs.mem := by
      show neighbourStored.leaveRoot.mem = _
      unfold Cpu.leaveRoot
      generalize neighbourStored.flushVmcs = u
      rfl
    have hcur : neighbourStored.vmx.current = some 0x10000 := by decide +kernel
    rw [hmem, flushVmcs_mem hcur, (hpage.stored_flush neighbourStored.vmx.vmcs).byte,
      if_pos (by decide +kernel)] at hbyte
    exact absurd hbyte (by decide +kernel)

/-! ## The instructions of the executor -/

section Executor

variable {s : Cpu} {v : VmxInst}

/-- The instruction `op` of a run on the pointer operand, unless reading that faults. -/
def Cpu.withPointer (s : Cpu) (m : ModRm) (op : U64 → VmcsOp) : Cpu :=
  match (readPtrOperand m s).1 with
  | some p => (op p).run (readPtrOperand m s).2
  | none => (readPtrOperand m s).2

theorem withPtrOperand_run (m : ModRm) (f : U64 → Cpu → Cpu) (op : U64 → VmcsOp)
    (h : ∀ p, (op p).run (readPtrOperand m s).2 = f p (readPtrOperand m s).2) :
    (withPtrOperand m f s).2 = s.withPointer m op := by
  rw [withPtrOperand, bind_run, Cpu.withPointer]
  cases (readPtrOperand m s).1 with
  | none => rfl
  | some p => exact (h p).symm

/-! ### Operands leave the VMX state alone -/

theorem vmx_of_pushOnly {s t : Cpu} (h : Cpu.PushOnly s t) : t.vmx = s.vmx := by
  rw [h]
  rfl

theorem pushOnly_readPtrOperand (m : ModRm) : Keeps Cpu.PushOnly (readPtrOperand m) := by
  unfold readPtrOperand
  split
  · exact (Keeps.modify fun s => (Cpu.pagingOnly_raise s _).1).bind fun _ => .pure _
  · refine (pushOnly_rmAddr m false).bind fun a => .get_bind fun s => ?_
    split <;> exact .pure _

/-- VMXOFF, VMCLEAR and VMPTRLD of the executor. -/
theorem executeVmx_region (hon : s.vmx.on = true) (hcpl : s.cpl = 0) :
    (v.op = .vmxoff → (executeVmx v s).2 = VmcsOp.vmxoff.run s) ∧
      (v.op = .vmclear → (executeVmx v s).2 = s.withPointer v.m .vmclear) ∧
      (v.op = .vmptrld → (executeVmx v s).2 = s.withPointer v.m .vmptrld) := by
  have hroot (op : VmxOp) : ¬(op ≠ .vmxon ∧ (!s.vmx.on) = true) := by simp [hon]
  have hring : ¬ s.cpl ≠ 0 := not_not.mpr hcpl
  refine ⟨fun hop => ?_, fun hop => ?_, fun hop => ?_⟩
  · rw [executeVmx, bind_run, get_run]
    dsimp only
    rw [if_neg (hroot v.op), if_neg hring, hop]
    rfl
  · rw [executeVmx, bind_run, get_run]
    dsimp only
    rw [if_neg (hroot v.op), if_neg hring, hop]
    exact withPtrOperand_run v.m _ _ fun _ => rfl
  · rw [executeVmx, bind_run, get_run]
    dsimp only
    rw [if_neg (hroot v.op), if_neg hring, hop]
    exact withPtrOperand_run v.m _ _ fun _ => rfl

/-- VMXON of the executor. -/
theorem executeVmx_vmxon (hcpl : s.cpl = 0) (hop : v.op = .vmxon) (hcr4 : test s.cr4 cr4Vmxe = true)
    (hallowed : s.vmxonAllowed = true) :
    (executeVmx v s).2 =
      if s.vmx.on then (VmcsOp.vmxon 0).run s else s.withPointer v.m .vmxon := by
  have hroot : ¬(v.op ≠ .vmxon ∧ (!s.vmx.on) = true) := fun h => h.1 hop
  rw [executeVmx, bind_run, get_run]
  dsimp only
  rw [if_neg hroot, if_neg (not_not.mpr hcpl), hop]
  show (vmxon v.m s).2 = _
  rw [vmxon, bind_run, get_run]
  dsimp only
  rw [hcr4, hallowed]
  by_cases hon : s.vmx.on = true
  · rw [hon]
    exact (if_pos hon).symm
  · rw [if_neg (by decide), if_neg hon, if_neg (by decide), if_neg hon]
    refine withPtrOperand_run v.m _ _ fun p => ?_
    have hvmx := vmx_of_pushOnly (pushOnly_readPtrOperand v.m s)
    exact if_neg (by rwa [hvmx])

/-- VMWRITE of the executor reads its operand once the encoding is known to be writable. -/
theorem executeVmx_vmwrite (hon : s.vmx.on = true) (hcpl : s.cpl = 0) (hop : v.op = .vmwrite)
    {enc : U32} (henc : enc = u32 (s.regW v.reg .w64)) {val : U64} {t : Cpu}
    (hr : readRmW v.m (vmWidth s) s = (val, t)) :
    (executeVmx v s).2 =
      if s.vmx.current.isNone ∨ (Vmx.slot enc).isNone ∨ Vmx.isReadOnly enc then
        (VmcsOp.vmwrite enc 0).run s
      else if t.pendingException.isSome then t
      else (VmcsOp.vmwrite enc val).run t := by
  have hvmx : t.vmx = s.vmx := by
    have h := vmx_of_pushOnly (pushOnly_readRmW v.m (vmWidth s) s)
    rwa [hr] at h
  have hroot : ¬(v.op ≠ .vmxon ∧ (!s.vmx.on) = true) := by simp [hon]
  rw [executeVmx, bind_run, get_run]
  dsimp only
  rw [if_neg hroot, if_neg (not_not.mpr hcpl), hop]
  show (vmwrite v.m v.reg s).2 = _
  rw [vmwrite, bind_run, get_run]
  dsimp only
  rw [← henc]
  unfold VmcsOp.run
  dsimp only
  rw [hvmx]
  by_cases hc : s.vmx.current.isNone = true
  · rw [if_pos hc, if_pos (.inl hc), if_pos hc]
    rfl
  by_cases hk : (Vmx.slot enc).isNone = true
  · rw [if_neg hc, if_pos hk, if_pos (.inr (.inl hk)), if_neg hc, if_pos hk]
    rfl
  by_cases hro : Vmx.isReadOnly enc = true
  · rw [if_neg hc, if_neg hk, if_pos hro, if_pos (.inr (.inr hro)), if_neg hc, if_neg hk,
      if_pos hro]
    rfl
  have hnone : ¬(s.vmx.current.isNone = true ∨ (Vmx.slot enc).isNone = true ∨
      Vmx.isReadOnly enc = true) := by
    simp [hc, hk, hro]
  rw [if_neg hc, if_neg hk, if_neg hro, if_neg hnone, bind_run, hr, if_neg hc, if_neg hk,
    if_neg hro]
  show ((if t.pendingException.isSome = true then pure ()
    else modify fun s => (s.vmWrite enc val).vmSucceed : Exec Unit) t).2 = _
  split <;> rfl

/-- VMREAD of the executor hands its operand what the field reads as. -/
theorem executeVmx_vmread (hon : s.vmx.on = true) (hcpl : s.cpl = 0) (hop : v.op = .vmread)
    {enc : U32} (henc : enc = u32 (s.regW v.reg .w64)) {t : Cpu}
    (hw : (writeRmW v.m (vmWidth s) (s.vmRead enc) s).2 = t) :
    (executeVmx v s).2 =
      if s.vmx.current.isNone ∨ (Vmx.slot enc).isNone then (VmcsOp.vmread enc).run s
      else if t.pendingException.isSome then t
      else (VmcsOp.vmread enc).run t := by
  have hvmx : t.vmx = s.vmx :=
    hw ▸ vmx_of_pushOnly (pushOnly_writeRmW v.m (vmWidth s) (s.vmRead enc) s)
  have hroot : ¬(v.op ≠ .vmxon ∧ (!s.vmx.on) = true) := by simp [hon]
  rw [executeVmx, bind_run, get_run]
  dsimp only
  rw [if_neg hroot, if_neg (not_not.mpr hcpl), hop]
  show (vmread v.m v.reg s).2 = _
  rw [vmread, bind_run, get_run]
  dsimp only
  rw [← henc]
  unfold VmcsOp.run
  dsimp only
  rw [hvmx]
  by_cases hc : s.vmx.current.isNone = true
  · rw [if_pos hc, if_pos (.inl hc), if_pos hc]
    rfl
  by_cases hk : (Vmx.slot enc).isNone = true
  · rw [if_neg hc, if_pos hk, if_pos (.inr hk), if_neg hc, if_pos hk]
    rfl
  have hnone : ¬(s.vmx.current.isNone = true ∨ (Vmx.slot enc).isNone = true) := by
    simp [hc, hk]
  rw [if_neg hc, if_neg hk, if_neg hnone, bind_run, hw, if_neg hc, if_neg hk]
  show ((if t.pendingException.isSome = true then pure () else modify (·.vmSucceed) : Exec Unit)
    t).2 = _
  split <;> rfl

end Executor

end X86Emu
