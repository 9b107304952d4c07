import X86Emu.Port
import X86Emu.Bios
import X86Emu.Lib.StateRules

/-!
# PCI configuration space

What a run of writes to the configuration ports preserves: the identity of every function, and the
shape of its base address registers as long as these are written as aligned doublewords. The virtio
window is where the programmed base says, up to the last bases of the port space.
-/
namespace X86Emu

open StateRules

/-! ## Functions -/

/-- Identity, class, header type, subsystem and interrupt pin. -/
def IdentityByte (off : Nat) : Prop :=
  off < 4 ∨ 8 ≤ off ∧ off < 12 ∨ off = 0x0E ∨ 0x2C ≤ off ∧ off < 0x30 ∨ off = 0x3D

namespace PciFunction

/-- The register of a BAR. -/
def barReg (bar : Nat) : Nat := 0x10 + 4 * bar

/-- What a function keeps from power-on under any write. -/
structure SameIdentity (orig f : PciFunction) : Prop where
  config : ∀ off, IdentityByte off → f.config off = orig.config off
  barSize : f.barSize = orig.barSize

/-- A BAR reads as a multiple of its size with its original type bit, an unimplemented one as
zero. -/
def BarFormed (orig f : PciFunction) (bar : Nat) : Prop :=
  if orig.barSize bar = 0 then f.read32 (barReg bar) = 0
  else (f.read32 (barReg bar)).toNat % (orig.barSize bar).toNat =
    (orig.config (barReg bar) &&& 1).toNat

instance (orig f : PciFunction) (bar : Nat) : Decidable (BarFormed orig f bar) :=
  inferInstanceAs (Decidable (if orig.barSize bar = 0 then f.read32 (barReg bar) = 0
    else (f.read32 (barReg bar)).toNat % (orig.barSize bar).toNat =
      (orig.config (barReg bar) &&& 1).toNat))

structure SameBars (orig f : PciFunction) : Prop where
  barSize : f.barSize = orig.barSize
  formed : ∀ bar < 6, BarFormed orig f bar

/-- A write that takes the BAR path, or stays clear of the BARs. -/
def AlignedWrite (reg lane size : Nat) : Prop :=
  size = 4 ∧ lane = 0 ∨ reg + lane + size ≤ 0x10 ∨ 0x28 ≤ reg + lane

end PciFunction

open PciFunction

theorem put8_config_of_ne (f : PciFunction) {off i : Nat} (v : U8) (h : i ≠ off) :
    (f.put8 off v).config i = f.config i := if_neg h

/-- The plain path: a byte it may not change, or outside its range, stays. -/
theorem plainWrite_config (off size : Nat) (value : U32) (f : PciFunction) {i : Nat}
    (hi : i < off ∨ off + size ≤ i ∨ Pci.readOnly i = true) :
    ((List.range size).foldl (fun f k =>
      if off + k ≥ 256 ∨ Pci.readOnly (off + k) then f else f.put8 (off + k) (byteOf value k))
        f).config i = f.config i := by
  induction size with
  | zero => rfl
  | succ size ih =>
    rw [List.range_succ, List.foldl_append, List.foldl_cons, List.foldl_nil]
    have hprev := ih (hi.imp_right (Or.imp_left fun h => by omega))
    split
    · exact hprev
    · rename_i hw
      rw [put8_config_of_ne _ _ (fun h => ?_), hprev]
      subst h
      rcases hi with h | h | h
      · omega
      · omega
      · exact hw (.inr h)

theorem plainWrite_barSize (off size : Nat) (value : U32) (f : PciFunction) :
    ((List.range size).foldl (fun f k =>
      if off + k ≥ 256 ∨ Pci.readOnly (off + k) then f else f.put8 (off + k) (byteOf value k))
        f).barSize = f.barSize := by
  induction size with
  | zero => rfl
  | succ size ih =>
    rw [List.range_succ, List.foldl_append, List.foldl_cons, List.foldl_nil]
    split
    · exact ih
    · exact ih

theorem readOnly_iff (off : Nat) : Pci.readOnly off = true ↔ IdentityByte off := by
  simp only [Pci.readOnly, IdentityByte, Bool.or_eq_true, Bool.and_eq_true, decide_eq_true_eq,
    beq_iff_eq]
  omega

/-- A BAR write leaves every other byte. -/
theorem put32_config_of_out (f : PciFunction) {off i : Nat} (v : U32) (h : i < off ∨ off + 4 ≤ i) :
    (f.put32 off v).config i = f.config i := if_neg (by omega)

theorem writeFunction_barSize (f : PciFunction) (reg lane size : Nat) (value : U32) :
    (Pci.writeFunction f reg lane size value).barSize = f.barSize := by
  unfold Pci.writeFunction
  split
  · dsimp only
    split <;> rfl
  · exact plainWrite_barSize (reg + lane) size value f

/-- No write reaches an identity byte. -/
theorem writeFunction_identity (f : PciFunction) (reg lane size : Nat) (value : U32) {i : Nat}
    (hi : IdentityByte i) :
    (Pci.writeFunction f reg lane size value).config i = f.config i := by
  unfold Pci.writeFunction
  split
  · rename_i hbar
    dsimp only
    split
    · rfl
    · refine put32_config_of_out f _ ?_
      rcases hi with h | h | h | h | h <;> omega
  · exact plainWrite_config (reg + lane) size value f (.inr (.inr ((readOnly_iff i).mpr hi)))

theorem PciFunction.SameIdentity.writeFunction {orig f : PciFunction} (h : SameIdentity orig f)
    (reg lane size : Nat) (value : U32) :
    SameIdentity orig (Pci.writeFunction f reg lane size value) where
  config off hoff := (writeFunction_identity f reg lane size value hoff).trans (h.config off hoff)
  barSize := (writeFunction_barSize f reg lane size value).trans h.barSize

/-! ## Base address registers -/

@[simp] theorem read32_put32 (f : PciFunction) (off : Nat) (v : U32) :
    (f.put32 off v).read32 off = v := by
  simp [PciFunction.read32, PciFunction.put32]

theorem read32_congr {f g : PciFunction} {off : Nat}
    (h : ∀ i, off ≤ i → i < off + 4 → f.config i = g.config i) : f.read32 off = g.read32 off := by
  simp only [PciFunction.read32]
  rw [h off (by omega) (by omega), h (off + 1) (by omega) (by omega), h (off + 2) (by omega)
    (by omega), h (off + 3) (by omega) (by omega)]

theorem toNat_mod_64 (v : U32) : v.toNat % 64 = (v &&& 63).toNat := by
  rw [BitVec.toNat_and, show ((63 : U32).toNat) = 2 ^ 6 - 1 from rfl, Nat.and_two_pow_sub_one_eq_mod]

/-- The type bit of a BAR that is formed. -/
theorem typeBit_of_formed {f : PciFunction} {reg : Nat} {t : U8}
    (h : (f.read32 reg).toNat % 64 = (t &&& 1).toNat) :
    ((if test (f.config reg) 1 then 1 else 0 : U32)).toNat = (t &&& 1).toNat := by
  have hlow : (f.read32 reg).getLsbD 0 = (f.config reg).getLsbD 0 := by
    rw [PciFunction.read32, le32, BitVec.getLsbD_append]
    rfl
  have hbit : test (f.config reg) 1 = (f.config reg).getLsbD 0 := test_bit _ (k := 0) (by decide)
  have hodd (b : Bool) (n : Nat) (hn : n.testBit 0 = b) : (bit b : U32).toNat = n % 2 := by
    subst hn
    rw [Nat.testBit_zero]
    rcases Nat.mod_two_eq_zero_or_one n with hm | hm <;> rw [hm] <;> rfl
  have ht : (t &&& 1).toNat < 2 := by
    rw [BitVec.toNat_and]
    exact lt_of_le_of_lt Nat.and_le_right (by decide)
  rw [hbit, ← hlow]
  have hval := hodd _ _ (BitVec.testBit_toNat (f.read32 reg))
  simp only [bit] at hval
  omega

/-- Both the size query and a plain value leave the BAR formed. -/
theorem barValue_formed (value : U32) (t : Bool) :
    ((if value = 0xFFFFFFFF then ~~~((64 : U32) - 1) ||| (if t then 1 else 0)
      else value &&& ~~~((64 : U32) - 1) ||| (if t then 1 else 0))).toNat % 64 =
      ((if t then 1 else 0 : U32)).toNat := by
  have hmask (x b : U32) (hb : b &&& 63 = b) : (x &&& ~~~63 ||| b) &&& 63 = b := by
    rw [BitVec.and_or_distrib_right, BitVec.and_assoc, show (~~~63 &&& 63 : U32) = 0#32 from rfl,
      BitVec.and_zero, BitVec.zero_or, hb]
  have hb : (if t then 1 else 0 : U32) &&& 63 = if t then 1 else 0 := by cases t <;> rfl
  rw [toNat_mod_64]
  congr 1
  split
  · have h := hmask (~~~63) _ hb
    rwa [BitVec.and_self] at h
  · exact hmask value _ hb

/-- The BARs of a machine's functions have no size or 64 bytes. -/
theorem PciFunction.SameBars.writeFunction {orig f : PciFunction}
    (hsize : ∀ bar < 6, orig.barSize bar = 0 ∨ orig.barSize bar = 64) (h : SameBars orig f)
    {reg lane size : Nat} (hreg : reg % 4 = 0) (hw : AlignedWrite reg lane size) (value : U32) :
    SameBars orig (Pci.writeFunction f reg lane size value) where
  barSize := (writeFunction_barSize f reg lane size value).trans h.barSize
  formed bar hbar := by
    have hold := h.formed bar hbar
    have hkept (g : PciFunction) (hg : ∀ i, barReg bar ≤ i → i < barReg bar + 4 →
        g.config i = f.config i) : BarFormed orig g bar := by
      rw [BarFormed, read32_congr hg]
      exact hold
    unfold barReg at hkept
    unfold Pci.writeFunction
    split
    · rename_i hpath
      dsimp only
      split
      · exact hold
      · rename_i hs
        by_cases hthis : (reg - 0x10) / 4 = bar
        · have hat : reg = barReg bar := by unfold barReg; omega
          rw [hthis] at hs ⊢
          rw [h.barSize] at hs ⊢
          rcases hsize bar hbar with hz | h64
          · exact absurd hz hs
          · rw [BarFormed, if_neg hs, h64] at hold ⊢
            rw [hat, read32_put32, show 0x10 + bar * 4 = barReg bar by unfold barReg; omega]
            exact (barValue_formed value _).trans (typeBit_of_formed hold)
        · exact hkept _ fun i hlo hhi => put32_config_of_out f _ (by omega)
    · rename_i hpath
      refine hkept _ fun i hlo hhi => plainWrite_config (reg + lane) size value f ?_
      rcases hw with ⟨rfl, rfl⟩ | hw | hw <;> omega

/-! ## Runs of configuration writes -/

/-- A write to an I/O port. -/
inductive PortWrite
  | byte (port : U16) (val : U8)
  | word (port val : U16)
  | dword (port : U16) (val : U32)

namespace PortWrite

def port : PortWrite → U16
  | byte port _ => port
  | word port _ => port
  | dword port _ => port

def size : PortWrite → Nat
  | byte .. => 1
  | word .. => 2
  | dword .. => 4

def run : PortWrite → Exec Unit
  | byte port val => portOut port val
  | word port val => portOut16 port val
  | dword port val => portOut32 port val

/-- The address latch or a data port. -/
def OnConfig (w : PortWrite) : Prop := w.port = 0xCF8 ∨ 0xCFC ≤ w.port ∧ w.port ≤ 0xCFF

/-- The bytes of the write in the latched register. -/
def Aligned (s : Cpu) (w : PortWrite) : Prop :=
  ∀ slot reg lane, s.pci.target = some (slot, reg) → pciLane w.port = some lane →
    AlignedWrite reg lane w.size

/-- A sequence of writes, and that each is aligned where it is made. -/
def runs (ws : List PortWrite) (s : Cpu) : Cpu := ws.foldl (fun s w => (w.run s).2) s

def AlignedRun : Cpu → List PortWrite → Prop
  | _, [] => True
  | s, w :: ws => w.Aligned s ∧ AlignedRun (w.run s).2 ws

end PortWrite

namespace Pci

/-- Every function is still there and related to what it was at power-on. -/
def Kept (R : PciFunction → PciFunction → Prop) (p : Pci) : Prop :=
  ∀ slot, Option.Rel R (Pci.new.slots slot) (p.slots slot)

theorem target_aligned {p : Pci} {slot reg : Nat} (h : p.target = some (slot, reg)) :
    reg % 4 = 0 := by
  unfold target at h
  split at h
  · cases h
  · split at h
    · cases h
    · simp only [Option.some.injEq, Prod.mk.injEq] at h
      rw [← h.2, show 4 = 2 ^ 2 from rfl, ← Nat.and_two_pow_sub_one_eq_mod, BitVec.toNat_and,
        Nat.and_assoc]
      exact Nat.and_zero _

theorem Kept.writeData {R : PciFunction → PciFunction → Prop} {p : Pci} (h : p.Kept R)
    {lane size : Nat} {value : U32}
    (hR : ∀ slot reg, p.target = some (slot, reg) → ∀ orig f, Pci.new.slots slot = some orig →
      R orig f → R orig (writeFunction f reg lane size value)) :
    (p.writeData lane size value).Kept R := by
  unfold Pci.writeData
  cases ht : p.target with
  | none => exact h
  | some at_ =>
    obtain ⟨slot, reg⟩ := at_
    dsimp only
    cases hf : p.slots slot with
    | none => exact h
    | some f =>
      intro k
      by_cases hk : k = slot
      · subst hk
        have hrel := h k
        rw [hf] at hrel
        simp only [↓reduceIte]
        cases ho : Pci.new.slots k with
        | none => rw [ho] at hrel; cases hrel
        | some orig =>
          rw [ho] at hrel
          cases hrel with
          | some hrel => exact .some (hR k reg ht orig f ho hrel)
      · simp only [hk, ↓reduceIte]
        exact h k

/-- At power-on the only base address register is the virtio device's, of 64 bytes. -/
theorem new_barSize {slot : Nat} {orig : PciFunction} (h : Pci.new.slots slot = some orig) :
    ∀ bar, orig.barSize bar = 0 ∨ orig.barSize bar = 64 := by
  intro bar
  simp only [Pci.new] at h
  split at h
  · cases h
    exact .inl rfl
  · split at h
    · cases h
      by_cases hb : bar = 0
      · exact .inr (if_pos hb)
      · exact .inl (if_neg hb)
    · cases h

theorem new_kept {R : PciFunction → PciFunction → Prop}
    (hR : ∀ slot orig, Pci.new.slots slot = some orig → R orig orig) : Pci.new.Kept R := by
  intro slot
  cases h : Pci.new.slots slot with
  | none => exact .none
  | some orig => exact .some (hR slot orig h)

theorem new_sameIdentity : Pci.new.Kept SameIdentity :=
  new_kept fun _ _ _ => ⟨fun _ _ => rfl, rfl⟩

theorem new_sameBars : Pci.new.Kept SameBars := by
  refine new_kept fun slot orig h => ⟨rfl, fun bar hbar => ?_⟩
  simp only [Pci.new] at h
  split at h
  · cases h
    interval_cases bar <;> decide
  · split at h
    · cases h
      interval_cases bar <;> decide
    · cases h

end Pci

namespace PortWrite

variable {s : Cpu}

/-- No byte device answers at the latch. -/
theorem portOut_latch_pci {port : U16} (hp : port = 0xCF8 ∨ port = 0xCF9) (val : U8) (s : Cpu) :
    (portOut port val s).2.pci = s.pci := by
  rw [portOut, bind_run, get_run]
  dsimp only
  cases s.virtioPort port with
  | some off => rfl
  | none => rcases hp with rfl | rfl <;> rfl

/-- What a write to the configuration ports does to the configuration space: nothing, set the latch,
or write the latched register. A virtio window over the ports swallows it. -/
theorem run_pci {w : PortWrite} (hw : w.OnConfig) :
    (w.run s).2.pci = s.pci ∨ (∃ v, (w.run s).2.pci = { s.pci with address := v }) ∨
      ∃ lane v, pciLane w.port = some lane ∧
        (w.run s).2.pci = s.pci.writeData lane w.size v := by
  have hlane (h : w.port ≠ 0xCF8) : ∃ lane, pciLane w.port = some lane :=
    ⟨_, if_pos (hw.resolve_left h)⟩
  cases w with
  | byte port val =>
    by_cases hp : port = 0xCF8
    · exact .inl (portOut_latch_pci (.inl hp) val s)
    · obtain ⟨lane, hl⟩ := hlane hp
      simp only [PortWrite.port] at hl
      rw [run, portOut, bind_run, get_run]
      dsimp only
      cases s.virtioPort port with
      | some off => exact .inl rfl
      | none =>
        rw [hl]
        exact .inr (.inr ⟨lane, u32 val, hl, rfl⟩)
  | word port val =>
    rw [run, portOut16, bind_run, get_run]
    dsimp only
    cases s.virtioPort port with
    | some off => exact .inl rfl
    | none =>
      by_cases hp : port = 0xCF8
      · subst hp
        exact .inl ((portOut_latch_pci (.inr rfl) _ _).trans (portOut_latch_pci (.inl rfl) _ _))
      · obtain ⟨lane, hl⟩ := hlane hp
        simp only [PortWrite.port] at hl
        rw [hl]
        exact .inr (.inr ⟨lane, u32 val, hl, rfl⟩)
  | dword port val =>
    rw [run, portOut32, bind_run, get_run]
    dsimp only
    cases s.virtioPort port with
    | some off => exact .inl rfl
    | none =>
      by_cases hp : port = 0xCF8
      · rw [if_pos hp]
        exact .inr (.inl ⟨val, rfl⟩)
      · obtain ⟨lane, hl⟩ := hlane hp
        simp only [PortWrite.port] at hl
        rw [if_neg hp, hl]
        exact .inr (.inr ⟨lane, val, hl, rfl⟩)

theorem run_identity {w : PortWrite} (hw : w.OnConfig) (h : s.pci.Kept SameIdentity) :
    (w.run s).2.pci.Kept SameIdentity := by
  rcases run_pci hw with heq | ⟨v, heq⟩ | ⟨lane, v, -, heq⟩
  · rwa [heq]
  · rw [heq]
    exact h
  · rw [heq]
    exact h.writeData fun _ reg _ _ _ _ hf => hf.writeFunction reg lane w.size v

theorem run_bars {w : PortWrite} (hw : w.OnConfig) (ha : w.Aligned s) (h : s.pci.Kept SameBars) :
    (w.run s).2.pci.Kept SameBars := by
  rcases run_pci hw with heq | ⟨v, heq⟩ | ⟨lane, v, hlane, heq⟩
  · rwa [heq]
  · rw [heq]
    exact h
  · rw [heq]
    exact h.writeData fun slot reg ht orig _ ho hf =>
      hf.writeFunction (fun bar _ => Pci.new_barSize ho bar) (Pci.target_aligned ht)
        (ha slot reg lane ht hlane) v

theorem runs_identity {ws : List PortWrite} (hw : ∀ w ∈ ws, w.OnConfig) {s : Cpu}
    (h : s.pci.Kept SameIdentity) : (runs ws s).pci.Kept SameIdentity := by
  induction ws generalizing s with
  | nil => exact h
  | cons w ws ih =>
    exact ih (fun x hx => hw x (List.mem_cons_of_mem _ hx))
      (run_identity (hw w List.mem_cons_self) h)

theorem runs_bars {ws : List PortWrite} (hw : ∀ w ∈ ws, w.OnConfig) {s : Cpu}
    (ha : AlignedRun s ws) (h : s.pci.Kept SameBars) : (runs ws s).pci.Kept SameBars := by
  induction ws generalizing s with
  | nil => exact h
  | cons w ws ih =>
    exact ih (fun x hx => hw x (List.mem_cons_of_mem _ hx)) ha.2
      (run_bars (hw w List.mem_cons_self) ha.1 h)

end PortWrite

/-! ## The virtio window -/

/-- I/O decoding of the virtio device, and the base programmed in its BAR. -/
def Pci.ioDecoding (p : Pci) : Bool :=
  (p.slots virtioBlkSlot).any fun f => test (f.config 0x04) 0x01

def Pci.programmedBase (p : Pci) : U16 := ((p.slots virtioBlkSlot).map (·.ioBase 0)).getD 0

theorem virtioIoBase_eq (p : Pci) :
    p.virtioIoBase =
      if p.ioDecoding ∧ p.programmedBase ≠ 0 then some p.programmedBase else none := by
  unfold Pci.virtioIoBase Pci.ioDecoding Pci.programmedBase
  cases p.slots virtioBlkSlot with
  | none => rfl
  | some f =>
    change (if !test (f.config 0x04) 0x01 then none else if f.ioBase 0 = 0 then none
      else some (f.ioBase 0)) =
      if test (f.config 0x04) 0x01 ∧ f.ioBase 0 ≠ 0 then some (f.ioBase 0) else none
    by_cases hb : f.ioBase 0 = 0 <;> cases test (f.config 0x04) 0x01 <;> simp [hb]

/-- The window decodes exactly its 64 ports, where its end does not wrap. -/
theorem virtioPort_iff (s : Cpu) (hb : s.pci.programmedBase.toNat + 64 < 2 ^ 16) (port o : U16) :
    s.virtioPort port = some o ↔
      s.pci.ioDecoding = true ∧ s.pci.programmedBase ≠ 0 ∧
        port.toNat = s.pci.programmedBase.toNat + o.toNat ∧ o.toNat < 64 := by
  unfold Cpu.virtioPort
  rw [virtioIoBase_eq]
  generalize s.pci.programmedBase = base at *
  by_cases hon : s.pci.ioDecoding = true ∧ base ≠ 0
  · rw [if_pos hon]
    have hend : (base + 64).toNat = base.toNat + 64 := by
      rw [BitVec.toNat_add]
      exact Nat.mod_eq_of_lt hb
    dsimp only
    split
    · rename_i hin
      have hlo : base.toNat ≤ port.toNat := hin.1
      have hhi : port.toNat < base.toNat + 64 := hend ▸ hin.2
      have hsub : (port - base).toNat = port.toNat - base.toNat := BitVec.toNat_sub_of_le hlo
      rw [Option.some.injEq]
      constructor
      · rintro rfl
        exact ⟨hon.1, hon.2, by omega, by omega⟩
      · rintro ⟨-, -, hport, ho⟩
        exact BitVec.eq_of_toNat_eq (by omega)
    · rename_i hout
      simp only [reduceCtorEq, false_iff, not_and]
      intro _ _ hport ho
      have hhi : port.toNat < (base + 64).toNat := by omega
      exact hout ⟨by rw [ge_iff_le, BitVec.le_def]; omega, hhi⟩
  · rw [if_neg hon]
    simp only [reduceCtorEq, false_iff, not_and]
    intro hd hne
    exact absurd ⟨hd, hne⟩ hon

/-! ## Every run -/

/-- After any writes to the configuration ports every identity is intact, the BARs are formed if
they were written as aligned doublewords, and the virtio window is the 64 ports at a programmed base
other than zero whose end does not wrap. -/
theorem configSpace_run {s : Cpu} (hs : s.pci = Pci.new) {ws : List PortWrite}
    (hw : ∀ w ∈ ws, w.OnConfig) :
    (PortWrite.runs ws s).pci.Kept SameIdentity ∧
      (PortWrite.AlignedRun s ws → (PortWrite.runs ws s).pci.Kept SameBars) ∧
      ((PortWrite.runs ws s).pci.programmedBase.toNat + 64 < 2 ^ 16 → ∀ port o,
        (PortWrite.runs ws s).virtioPort port = some o ↔
          (PortWrite.runs ws s).pci.ioDecoding = true ∧
            (PortWrite.runs ws s).pci.programmedBase ≠ 0 ∧
            port.toNat = (PortWrite.runs ws s).pci.programmedBase.toNat + o.toNat ∧
            o.toNat < 64) := by
  refine ⟨PortWrite.runs_identity hw ?_, fun ha => PortWrite.runs_bars hw ha ?_,
    fun hb port o => virtioPort_iff _ hb port o⟩
  · rw [hs]
    exact Pci.new_sameIdentity
  · rw [hs]
    exact Pci.new_sameBars

/-- The latch of register `reg` of the virtio device. -/
def latchVirtio (reg : U32) : PortWrite := .dword 0xCF8 (0x80000800 ||| reg)

/-- Moving BAR0 to 0xD000 moves the window. -/
theorem configSpace_moved :
    (PortWrite.runs [latchVirtio 0x10, .dword 0xCFC 0xD000]
      (Cpu.withRam 0x1000 (by decide) 0)).virtioPort 0xD010 = some 0x10 := by
  have hw : ∀ w ∈ [latchVirtio 0x10, .dword 0xCFC 0xD000], w.OnConfig := by
    simp only [List.forall_mem_cons, List.not_mem_nil, false_implies, implies_true, and_true]
    exact ⟨.inl rfl, .inr (by decide)⟩
  obtain ⟨-, -, hport⟩ := configSpace_run (s := Cpu.withRam 0x1000 (by decide) 0) rfl hw
  exact (hport (by decide +kernel) 0xD010 0x10).mpr (by decide +kernel)

/-- The virtio device's register `reg` written in one access after power-on. -/
def writtenOnce (reg : U32) (w : PortWrite) : Cpu :=
  PortWrite.runs [latchVirtio reg, w] (Cpu.withRam 0x1000 Memory.page_le 0)

/-- A byte write breaks BAR0 and gives an unimplemented BAR a value, the sizing value has no window,
and nor has base zero. -/
theorem configSpace_broken :
    ¬ (writtenOnce 0x10 (.byte 0xCFC 0x08)).pci.Kept SameBars ∧
    ¬ (writtenOnce 0x14 (.byte 0xCFC 0x08)).pci.Kept SameBars ∧
    (writtenOnce 0x10 (.dword 0xCFC 0xFFFFFFFF)).pci.ioDecoding = true ∧
    (writtenOnce 0x10 (.dword 0xCFC 0xFFFFFFFF)).pci.programmedBase = 0xFFC0 ∧
    (writtenOnce 0x10 (.dword 0xCFC 0xFFFFFFFF)).virtioPort 0xFFC0 = none ∧
    (writtenOnce 0x10 (.dword 0xCFC 0)).pci.ioDecoding = true ∧
    (writtenOnce 0x10 (.dword 0xCFC 0)).pci.programmedBase = 0 ∧
    (writtenOnce 0x10 (.dword 0xCFC 0)).virtioPort 0 = none := by
  have hbroken (p : Pci) (f : PciFunction) (hf : p.slots 1 = some f) (bar : Nat) (hbar : bar < 6)
      (hbad : ¬ BarFormed Pci.blk f bar) : ¬ p.Kept SameBars := by
    intro h
    have hrel := h 1
    rw [hf] at hrel
    cases hrel with
    | some hrel => exact hbad (hrel.formed bar hbar)
  exact ⟨hbroken _ _ rfl 0 (by decide) (by decide +kernel),
    hbroken _ _ rfl 1 (by decide) (by decide +kernel), by decide +kernel, by decide +kernel,
    by decide +kernel, by decide +kernel, by decide +kernel, by decide +kernel⟩

end X86Emu
