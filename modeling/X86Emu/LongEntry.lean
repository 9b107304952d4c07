import X86Emu.BootStructures

/-!
# Entering long mode

The state a 64-bit payload starts in, and that the hand-over writes only its GDT and its tables.
-/
namespace X86Emu

open Boot Overlay Memory Cpu

/-- The machine runs 64-bit code at the entry, with this stack and interrupts off. -/
structure Started64 (t : Cpu) (entry stack : U64) : Prop where
  rip : t.rip = entry
  rsp : t.regs 4 = stack
  long : t.long64 = true
  cs : t.cs = kernelCs64
  mapped : IdentityMapped t
  masked : t.getFlag Flags.if' = false
  running : t.halted = false

/-! ## The code segment -/

theorem writeGdt64_code (m : Memory) :
    (writeGdt64 m).readU64 (word 769) = 0x00AF9A000000FFFF := by
  have hlast := Words.single (k := 770) (by decide)
    ((m.writeU64 (word 768) 0).writeU64 (word 769) 0x00AF9A000000FFFF) 0x00CF92000000FFFF
  refine (readU64_word_congr (by decide) hlast.slot fun b _ hb => hlast.outside b ?_).trans
    (readU64_writeU64_word (by decide) _)
  omega

/-- The map leaves the GDT. -/
theorem firmware_code (m : Memory) :
    (buildIdentityMap (writeGdt64 m)).2.readU64 (word 769) = 0x00AF9A000000FFFF := by
  have hmap := words_buildIdentityMap (writeGdt64 m)
  refine (readU64_word_congr (by decide) hmap.slot fun b _ hb => hmap.outside b ?_).trans
    (writeGdt64_code m)
  omega

theorem IdentityMapped.linearToPhysRo {s : Cpu} (h : IdentityMapped s) {l : U64}
    (hl : l.toNat < 2 ^ 32) : s.linearToPhysRo l = l := by
  obtain ⟨map, hmap, hphys, -⟩ := h.low l s.nxe hl
  unfold Cpu.linearToPhysRo
  split
  · rfl
  · rw [h.mode, hmap]
    exact hphys

namespace Cpu

theorem gdtBase_updateLongMode (s : Cpu) : s.updateLongMode.gdtBase = s.gdtBase := by
  unfold updateLongMode
  dsimp only
  split <;> rfl

theorem pe_updateLongMode (s : Cpu) : s.updateLongMode.pe = s.pe := by
  unfold updateLongMode
  dsimp only
  split <;> rfl

theorem segDesc_loadSeg_of_ne (s : Cpu) {r : SegReg} (hr : r ≠ .cs) (sel : U16) :
    (s.loadSeg r sel).segDesc .cs = s.segDesc .cs := by
  unfold loadSeg
  cases r <;> cases s.pe <;> first | exact absurd rfl hr | rfl

theorem cs_loadSeg_of_ne (s : Cpu) {r : SegReg} (hr : r ≠ .cs) (sel : U16) :
    (s.loadSeg r sel).cs = s.cs := by
  unfold loadSeg
  cases r <;> cases s.pe <;> first | exact absurd rfl hr | rfl

theorem loadFlatSegments_cs {s : Cpu} (hpe : s.pe = true) :
    (loadFlatSegments s).segDesc .cs = s.descriptorFor kernelCs64 ∧
      (loadFlatSegments s).cs = kernelCs64 := by
  have hcode := loadSeg_cs hpe kernelCs64
  unfold loadFlatSegments
  refine ⟨?_, ?_⟩
  · iterate 5 rw [segDesc_loadSeg_of_ne _ (by decide)]
    rw [hcode]
    rfl
  · iterate 5 rw [cs_loadSeg_of_ne _ (by decide)]
    rw [hcode]
    rfl

end Cpu

/-! ## The state -/

/-- The hand-over ends by loading the flat segments, in protected mode, from the 64-bit GDT. -/
theorem enterLongMode_segments (entry stack : U64) (s : Cpu) :
    ∃ u, enterLongMode entry stack s = startAt entry stack (loadFlatSegments u) ∧
      u.pe = true ∧ u.gdtBase = gdt64Addr := by
  refine ⟨_, rfl, ?_, ?_⟩
  · exact pe_updateLongMode _
  · exact gdtBase_updateLongMode _

theorem started64 (entry stack : U64) (s : Cpu) :
    Started64 (enterLongMode entry stack s) entry stack := by
  have htables := tables_enterLongMode entry stack s
  have hfirm := firmwareTables_enter entry stack s
  obtain ⟨u, hu, hpe, hgdt⟩ := enterLongMode_segments entry stack s
  rw [hu] at htables hfirm ⊢
  have hmapped : IdentityMapped (startAt entry stack (loadFlatSegments u)) :=
    identityMapped (congrArg (·.2.2) htables) (congrArg (·.2.1) htables) hfirm
  -- the segments are loaded with the tables already in place
  have hsame : u.tables = (startAt entry stack (loadFlatSegments u)).tables :=
    (tables_loadFlatSegments u).symm
  rw [htables] at hsame
  obtain ⟨hmem, hcr3, hmode⟩ : u.mem = (buildIdentityMap (writeGdt64 s.mem)).2 ∧
      u.cr3 = pml4Addr ∧ u.pagingMode = .long := by
    simpa only [Cpu.tables, Prod.mk.injEq] using hsame
  have hkept : (startAt entry stack (loadFlatSegments u)).mem = u.mem :=
    congrArg (·.1) (tables_loadFlatSegments u)
  have hearly : IdentityMapped u :=
    identityMapped hmode hcr3 (hkept ▸ hfirm)
  have hdesc : u.descriptorFor kernelCs64 = Descriptor.parse 0x00AF9A000000FFFF := by
    unfold descriptorFor
    rw [hgdt]
    show readDescriptor u.mem (u.linearToPhysRo (word 769)) = _
    rw [hearly.linearToPhysRo (by decide), hmem, readDescriptor, firmware_code]
  obtain ⟨hcs, hsel⟩ := loadFlatSegments_cs hpe
  have hlong : (startAt entry stack (loadFlatSegments u)).longMode = true := by
    have hmode := hmapped.mode
    unfold pagingMode at hmode
    by_contra hno
    rw [Bool.not_eq_true] at hno
    rw [hno] at hmode
    split at hmode
    · cases hmode
    · rw [if_neg (by decide)] at hmode
      split at hmode <;> cases hmode
  refine ⟨rfl, rfl, ?_, hsel, hmapped, test_andNot _ _, rfl⟩
  unfold long64
  rw [hlong, show (startAt entry stack (loadFlatSegments u)).segDesc .cs =
    (loadFlatSegments u).segDesc .cs from rfl, hcs, hdesc]
  decide

/-! ## The memory -/

/-- What the hand-over leaves between the GDT and the end of the tables. -/
def firmwareBlock (t : Memory) : U64 × List U8 :=
  (0x1800, (List.range 0x6800).map fun i => t.readU8 (0x1800 + BitVec.ofNat 64 i))

theorem slot_enterLongMode (entry stack : U64) (s : Cpu) (b : U64) :
    (enterLongMode entry stack s).mem.slot b = s.mem.slot b := by
  have hmem := congrArg (·.1) (tables_enterLongMode entry stack s)
  dsimp only [Cpu.tables] at hmem
  obtain ⟨f, hgdt⟩ := words_writeGdt64 s.mem
  rw [hmem]
  exact ((words_buildIdentityMap _).slot b).trans (hgdt.slot b)

theorem laidOver_enterLongMode (entry stack : U64) (s : Cpu) :
    LaidOver s.mem (enterLongMode entry stack s).mem
      [firmwareBlock (enterLongMode entry stack s).mem] := by
  refine .of_stored ⟨slot_enterLongMode entry stack s, fun b => ?_⟩
  have hb := b.isLt
  have hstart : (0x1800 : U64).toNat = 0x1800 := rfl
  have hsub := BitVec.toNat_sub b (0x1800 : U64)
  by_cases hin : (b - 0x1800).toNat < 0x6800
  · have hlow : b.toNat < 2 ^ 20 := by omega
    rw [if_pos ⟨hin, backed_low hlow⟩]
    congr 1
    rw [BitVec.ofNat_toNat, BitVec.setWidth_eq, BitVec.add_comm, BitVec.sub_add_cancel]
  · rw [if_neg fun h => hin h.1]
    exact enter_outside entry stack s (by omega)

end X86Emu
