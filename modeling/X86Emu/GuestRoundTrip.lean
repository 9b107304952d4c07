import X86Emu.VmcsFacts
import X86Emu.GuestState

/-!
# A VM exit and the entry that follows

The guest-state area holds what the exit saved, field by field, and the entry loads every field from
it. The two agree on everything but FS and GS, whose base comes from one place on the way out and
goes to two on the way in.
-/
namespace X86Emu

open StateRules

/-! ## What an exit leaves in the guest-state area -/

/-- The fields `save_guest_state` writes. -/
def savedFields : List U32 :=
  [Field.guestCr0, Field.guestCr3, Field.guestCr4, Field.guestRip, Field.guestRsp,
   Field.guestRflags, Field.guestDr7, Field.guestEfer, Field.guestSysenterCs,
   Field.guestSysenterEsp, Field.guestSysenterEip, Field.guestGdtrBase, Field.guestGdtrLimit,
   Field.guestIdtrBase, Field.guestIdtrLimit, Field.guestLdtrSel, Field.guestLdtrBase,
   Field.guestLdtrLimit, Field.guestLdtrAr, Field.guestTrSel, Field.guestTrBase,
   Field.guestTrLimit, Field.guestTrAr, Field.guestActivity, Field.guestInterruptibility] ++
  segs.flatMap fun f => [f.sel, f.base, f.limit, f.ar]

theorem savedGuestState_fields (s : Cpu) : s.savedGuestState.map Prod.fst = savedFields := by
  simp only [Cpu.savedGuestState, savedFields, segs, Cpu.savedSegment, List.flatMap_cons,
    List.flatMap_nil, List.map_append, List.map_cons, List.map_nil]

theorem savedFields_slots : (savedFields.map Vmx.slot).Nodup := by decide +kernel

/-- A saved field is a full-width, known, guest-state encoding. -/
theorem savedFields_guest {f : U32} (hf : f ∈ savedFields) :
    (Vmx.slot f).isSome ∧ Vmx.isHigh f = false ∧ (f >>> 10) &&& 3 = 2 := by
  have all : savedFields.all (fun f =>
      (Vmx.slot f).isSome && !Vmx.isHigh f && (f >>> 10) &&& 3 == 2) = true := by decide +kernel
  simpa [and_assoc] using List.all_eq_true.mp all f hf

/-- Exit information lives in slots of its own. -/
theorem exitInformation_slots (s : Cpu) (reason : U32) (q : U64) (info err : U32) {f : U32}
    (hf : f ∈ savedFields) :
    Vmx.slot f ∉ (s.exitInformation reason q info err).map fun p => Vmx.slot p.1 := by
  have all : savedFields.all (fun f => !([Field.exitReason, Field.exitQualification,
      Field.exitInstrLen, Field.exitIntrInfo, Field.exitIntrError, Field.idtVectoringInfo,
      Field.guestLinearAddress].map Vmx.slot).contains (Vmx.slot f)) = true := by decide +kernel
  have known := List.all_eq_true.mp all f hf
  rw [Bool.not_eq_true', ← Bool.not_eq_true, List.contains_iff_mem] at known
  refine fun h => known ?_
  unfold Cpu.exitInformation at h
  generalize (if Cpu.betweenInstructions reason then 0 else s.rip - s.ripStart) = len at h
  split at h
  · exact h
  · rw [List.append_nil] at h
    exact List.mem_append_left [Vmx.slot Field.guestLinearAddress] h

section Saved

variable (s : Cpu) (x : Vmx)

theorem saved_mem {f : U32} {v : U64} (h : (f, v) ∈ s.savedGuestState) : f ∈ savedFields := by
  rw [← savedGuestState_fields s]
  exact List.mem_map_of_mem h

theorem read_saved {f : U32} {v : U64} (h : (f, v) ∈ s.savedGuestState) :
    (x.writeAll s.savedGuestState).read f = v &&& Vmx.fieldMask f := by
  obtain ⟨hs, hh, -⟩ := savedFields_guest (saved_mem s h)
  refine Vmx.read_writeAll_of_mem _ _ ?_ h hs hh
  show (s.savedGuestState.map (Vmx.slot ∘ Prod.fst)).Nodup
  rw [← List.map_map, savedGuestState_fields]
  exact savedFields_slots

/-- Saving EFER again changes nothing. -/
theorem exitVmcs_eq (reason : U32) (q : U64) (info err : U32) :
    s.exitVmcs reason q info err =
      (s.vmx.writeAll { s with rip := s.exitRip reason }.savedGuestState).writeAll
        (s.exitInformation reason q info err) := by
  unfold Cpu.exitVmcs
  dsimp only
  split
  · refine Vmx.write_eq_self _ rfl ?_
    have hmem : (Field.guestEfer, s.efer) ∈ { s with rip := s.exitRip reason }.savedGuestState := by
      simp [Cpu.savedGuestState]
    rw [Vmx.read_writeAll_of_notMem _ _
      (exitInformation_slots s reason q info err (saved_mem _ hmem))]
    exact read_saved _ _ hmem
  · rfl

/-- An exit leaves every saved field in the VMCS. -/
theorem vmRead_vmExit (reason : U32) (q : U64) (info err : U32) {f : U32} {v : U64}
    (h : (f, v) ∈ { s with rip := s.exitRip reason }.savedGuestState) :
    (s.vmExit reason q info err).vmRead f = v &&& Vmx.fieldMask f := by
  have hread : (s.exitVmcs reason q info err).read f = v &&& Vmx.fieldMask f := by
    rw [exitVmcs_eq,
      Vmx.read_writeAll_of_notMem _ _ (exitInformation_slots s reason q info err (saved_mem _ h))]
    exact read_saved _ _ h
  rw [Cpu.vmRead, Cpu.vmExit, Cpu.vmx_loadHostState]
  exact hread

end Saved

/-! ## What an entry loads -/

/-- A CPU loaded from a guest-state area that reads as `r`, with the EFER the controls choose. -/
structure Loaded (r : U32 → U64) (efer : U64) (g : Cpu) : Prop where
  rip : g.rip = r Field.guestRip
  rsp : g.regs 4 = r Field.guestRsp
  flags : g.flags = u32 (r Field.guestRflags) &&& Flags.writable ||| Flags.alwaysSet
  cr0 : g.cr0 = u32 (r Field.guestCr0 ||| Vmx.cr0Fixed0)
  cr3 : g.cr3 = r Field.guestCr3
  cr4 : g.cr4 = u32 (r Field.guestCr4 ||| Vmx.cr4Fixed0)
  pe : g.pe = test g.cr0 cr0Pe
  efer : g.efer = if test g.cr0 cr0Pg && test efer Efer.lme then efer ||| Efer.lma else efer
  seg : ∀ sr : SegReg, g.seg sr = u16 (r sr.fields.sel)
  segDesc : ∀ sr : SegReg, g.segDesc sr =
    descOf (r sr.fields.base) (u32 (r sr.fields.limit)) (u32 (r sr.fields.ar))
  fsBase : g.fsBase = r Field.guestFsBase
  gsBase : g.gsBase = r Field.guestGsBase
  gdtBase : g.gdtBase = r Field.guestGdtrBase
  gdtLimit : g.gdtLimit = u16 (r Field.guestGdtrLimit)
  idtBase : g.idtBase = r Field.guestIdtrBase
  idtLimit : g.idtLimit = u16 (r Field.guestIdtrLimit)
  ldtSelector : g.ldtSelector = u16 (r Field.guestLdtrSel)
  ldtBase : g.ldtBase = r Field.guestLdtrBase
  ldtLimit : g.ldtLimit = u32 (r Field.guestLdtrLimit)
  trSelector : g.trSelector = u16 (r Field.guestTrSel)
  trBase : g.trBase = r Field.guestTrBase
  trLimit : g.trLimit = u32 (r Field.guestTrLimit)
  sysenterCs : g.sysenterCs = u32 (r Field.guestSysenterCs)
  sysenterEsp : g.sysenterEsp = u32 (r Field.guestSysenterEsp)
  sysenterEip : g.sysenterEip = u32 (r Field.guestSysenterEip)
  dr7 : g.dr 7 = r Field.guestDr7
  halted : g.halted = (r Field.guestActivity == 1)

namespace Cpu

variable (s : Cpu)

/-- Long mode turns on with PG when LME is set, and is otherwise left off. -/
theorem updateLongMode_spec (h : s.longMode = false) :
    s.updateLongMode.cr0 = s.cr0 ∧ s.updateLongMode.pe = s.pe ∧ s.updateLongMode.cr3 = s.cr3 ∧
      s.updateLongMode.cr4 = s.cr4 ∧ s.updateLongMode.efer =
        if test s.cr0 cr0Pg && test s.efer Efer.lme then s.efer ||| Efer.lma else s.efer := by
  unfold updateLongMode
  rw [h]
  cases hw : test s.cr0 cr0Pg && test s.efer Efer.lme <;> exact ⟨rfl, rfl, rfl, rfl, rfl⟩

/-- The parts of the state CR0's side effects decide. -/
theorem writeCr0_spec (v : U32) (h : s.longMode = false) :
    (s.writeCr0 v).cr0 = v ∧ (s.writeCr0 v).pe = test v cr0Pe ∧ (s.writeCr0 v).cr3 = s.cr3 ∧
      (s.writeCr0 v).cr4 = s.cr4 ∧ (s.writeCr0 v).efer =
        if test v cr0Pg && test s.efer Efer.lme then s.efer ||| Efer.lma else s.efer := by
  unfold writeCr0
  dsimp only
  split <;> exact updateLongMode_spec _ h

end Cpu

theorem loaded_loadGuestState (s : Cpu) :
    Loaded s.vmRead (s.entryEfer &&& ~~~Efer.lma) s.loadGuestState := by
  obtain ⟨h0, hpe, h3, h4, he⟩ := Cpu.writeCr0_spec { s with
    efer := s.entryEfer &&& ~~~Efer.lma
    cr4 := u32 (s.vmRead Field.guestCr4 ||| Vmx.cr4Fixed0)
    cr3 := s.vmRead Field.guestCr3 } (u32 (s.vmRead Field.guestCr0 ||| Vmx.cr0Fixed0))
    (test_andNot _ _)
  have hc0 : s.loadGuestControl.cr0 = u32 (s.vmRead Field.guestCr0 ||| Vmx.cr0Fixed0) := h0
  unfold Cpu.loadGuestState
  rw [Cpu.loadSegments_eq]
  constructor
  case cr0 => exact h0
  case pe => exact hpe.trans (by rw [← hc0]; rfl)
  case cr3 => exact h3
  case cr4 => exact h4
  case efer => exact he.trans (by rw [← hc0]; rfl)
  case seg =>
    intro sr
    cases sr <;> rfl
  all_goals first | rfl | exact fun _ => rfl

/-! ## The round trip -/

/-- A guest state the fixed bits of CR0 and CR4 admit, with PE and LMA following CR0 and EFER. -/
structure GuestMode (s : Cpu) : Prop where
  cr0Fixed : u64 s.cr0 &&& Vmx.cr0Fixed0 = Vmx.cr0Fixed0
  cr4Fixed : u64 s.cr4 &&& Vmx.cr4Fixed0 = Vmx.cr4Fixed0
  pe : s.pe = test s.cr0 cr0Pe
  lma : s.longMode = (test s.cr0 cr0Pg && test s.efer Efer.lme)

/-- The guest finds its state as the exit left it. -/
structure Restored (s : Cpu) (rip : U64) (g : Cpu) : Prop where
  rip : g.rip = rip
  rsp : g.regs 4 = s.regs 4
  flags : g.flags = s.flags
  cr0 : g.cr0 = s.cr0
  cr3 : g.cr3 = s.cr3
  cr4 : g.cr4 = s.cr4
  efer : g.efer = s.efer
  seg : ∀ sr : SegReg, g.seg sr = s.seg sr
  segDesc : ∀ sr : SegReg, g.segDesc sr = s.segDesc sr
  fsBase : g.fsBase = s.fsBase
  gsBase : g.gsBase = s.gsBase
  linear : ∀ (sr : SegReg) (off : U64), g.linearAddr sr off = s.linearAddr sr off
  gdtBase : g.gdtBase = s.gdtBase
  gdtLimit : g.gdtLimit = s.gdtLimit
  idtBase : g.idtBase = s.idtBase
  idtLimit : g.idtLimit = s.idtLimit
  ldtSelector : g.ldtSelector = s.ldtSelector
  ldtBase : g.ldtBase = s.ldtBase
  ldtLimit : g.ldtLimit = s.ldtLimit
  trSelector : g.trSelector = s.trSelector
  trBase : g.trBase = s.trBase
  trLimit : g.trLimit = s.trLimit
  sysenterCs : g.sysenterCs = s.sysenterCs
  sysenterEsp : g.sysenterEsp = s.sysenterEsp
  sysenterEip : g.sysenterEip = s.sysenterEip
  dr7 : g.dr 7 = s.dr 7
  halted : g.halted = s.halted

/-- The reserved bits of RFLAGS are as every instruction leaves them. -/
def Cpu.flagsFormed (s : Cpu) : Prop := s.flags &&& Flags.writable ||| Flags.alwaysSet = s.flags

instance (s : Cpu) : Decidable s.flagsFormed := inferInstanceAs (Decidable (_ = _))

/-- A segment's cached base and its base MSR agree, as far as the mode in use can tell. -/
def Cpu.baseAgrees (s : Cpu) (sr : SegReg) (msr : U64) : Prop :=
  if s.longMode then (s.segDesc sr).base = u32 msr else msr = u64 (s.segDesc sr).base

instance (s : Cpu) (sr : SegReg) (msr : U64) : Decidable (s.baseAgrees sr msr) :=
  inferInstanceAs (Decidable (ite _ _ _))

/-- A guest-state area that reads as what `s` saved, with `rip` for its instruction pointer. -/
def Holds (r : U32 → U64) (s : Cpu) (rip : U64) : Prop :=
  ∀ f v, (f, v) ∈ { s with rip := rip }.savedGuestState → r f = v &&& Vmx.fieldMask f

/-- A descriptor survives packing and unpacking, with the base that was saved for it. -/
theorem descOf_arOf (d : Descriptor) (usable : Bool) (base : U64) :
    descOf base d.limit (arOf d usable) = { d with base := u32 base } := by
  have attr : u8 (arOf d usable &&& 0xFF) = d.attr := by
    apply BitVec.eq_of_getLsbD_eq
    intro i hi
    rw [show (0xFF : U32) = BitVec.ofNat 32 (2 ^ 8 - 1) from rfl]
    simp only [arOf, BitVec.getLsbD_setWidth, BitVec.getLsbD_and, BitVec.getLsbD_or, getLsbD_ones,
      BitVec.getLsbD_shiftLeft]
    have h13 : i < 13 := by omega
    have h14 : i < 14 := by omega
    have h15 : i < 15 := by omega
    have h16 : i < 16 := by omega
    have h32 : i < 32 := by omega
    simp [hi, h13, h14, h15, h16, h32]
  unfold descOf
  rw [attr, test_bit _ (by decide), test_bit _ (by decide), test_bit _ (by decide)]
  simp only [arOf, BitVec.getLsbD_or, BitVec.getLsbD_shiftLeft, getLsbD_bit _ _ (Nat.succ_pos _)]
  simp

section RoundTrip

variable {r : U32 → U64} {s g : Cpu} {rip : U64}

/-- A value saved in a field wide enough for it reads back. -/
theorem holds_narrow {n : Nat} {v : BitVec n} {f : U32} (h : Holds r s rip)
    (hmem : (f, u64 v) ∈ { s with rip := rip }.savedGuestState) (hn : n ≤ 64)
    (hf : n ≤ Vmx.fieldBits f) : (r f).setWidth n = v := by
  rw [h _ _ hmem]
  exact Vmx.setWidth_fieldMask v hn hf

theorem holds_wide {v : U64} {f : U32} (h : Holds r s rip)
    (hmem : (f, v) ∈ { s with rip := rip }.savedGuestState) (hf : Vmx.fieldBits f = 64) :
    r f = v := by
  have hv : (u64 v : U64) = v := BitVec.setWidth_eq v
  have := holds_narrow (v := v) h (hv.symm ▸ hmem) le_rfl (by omega)
  rwa [BitVec.setWidth_eq] at this

theorem restored_cr0 (hm : GuestMode s) (h : Holds r s rip) :
    u32 (r Field.guestCr0 ||| Vmx.cr0Fixed0) = s.cr0 := by
  rw [holds_wide h (v := u64 s.cr0) (by simp [Cpu.savedGuestState]) rfl,
    or_eq_self_of_and hm.cr0Fixed]
  simp

theorem restored_cr4 (hm : GuestMode s) (h : Holds r s rip) :
    u32 (r Field.guestCr4 ||| Vmx.cr4Fixed0) = s.cr4 := by
  rw [holds_wide h (v := u64 s.cr4) (by simp [Cpu.savedGuestState]) rfl,
    or_eq_self_of_and hm.cr4Fixed]
  simp

/-- LMA comes back from PG and LME. -/
theorem restored_efer (hm : GuestMode s) :
    (if test s.cr0 cr0Pg && test (s.efer &&& ~~~Efer.lma) Efer.lme then
      (s.efer &&& ~~~Efer.lma) ||| Efer.lma else s.efer &&& ~~~Efer.lma) = s.efer := by
  have hlme : test (s.efer &&& ~~~Efer.lma) Efer.lme = test s.efer Efer.lme := by
    unfold test
    rw [BitVec.and_assoc]
    rfl
  rw [hlme, ← hm.lma]
  cases hl : s.longMode with
  | true =>
    rw [if_pos rfl, andNot_or]
    exact or_bit_of_test (by decide) hl
  | false => exact andNot_of_test hl

theorem seg_mem (sr : SegReg) {p : U32 × U64} (h : p ∈ s.savedSegment sr.fields) :
    p ∈ s.savedGuestState := by
  refine List.mem_append_right _ (List.mem_flatMap.mpr ⟨sr.fields, ?_, h⟩)
  rw [Cpu.segs_eq]
  exact List.mem_map_of_mem (by cases sr <;> simp)

/-- Everything a segment's fields give back; its base is the one that was saved. -/
theorem restored_segment (h : Holds r s rip) (sr : SegReg) :
    u16 (r sr.fields.sel) = s.seg sr ∧ r sr.fields.base = s.savedBase sr ∧
      descOf (r sr.fields.base) (u32 (r sr.fields.limit)) (u32 (r sr.fields.ar)) =
        { s.segDesc sr with base := u32 (s.savedBase sr) } := by
  have hlist : { s with rip := rip }.savedSegment sr.fields =
      [(sr.fields.sel, u64 (s.seg sr)), (sr.fields.base, s.savedBase sr),
       (sr.fields.limit, u64 (s.segDesc sr).limit),
       (sr.fields.ar, u64 (arOf (s.segDesc sr) (s.usable sr)))] := by cases sr <;> rfl
  have hmem {p : U32 × U64} (hp : p ∈ { s with rip := rip }.savedSegment sr.fields) :=
    seg_mem (s := { s with rip := rip }) sr hp
  rw [hlist] at hmem
  have hsel : u16 (r sr.fields.sel) = s.seg sr :=
    holds_narrow h (hmem (by simp)) (by decide) (by cases sr <;> decide)
  have hbase : r sr.fields.base = s.savedBase sr :=
    holds_wide h (hmem (by simp)) (by cases sr <;> decide)
  have hlimit : u32 (r sr.fields.limit) = (s.segDesc sr).limit :=
    holds_narrow h (hmem (by simp)) (by decide) (by cases sr <;> decide)
  have har : u32 (r sr.fields.ar) = arOf (s.segDesc sr) (s.usable sr) :=
    holds_narrow h (hmem (by simp)) (by decide) (by cases sr <;> decide)
  exact ⟨hsel, hbase, by rw [hbase, hlimit, har, descOf_arOf]⟩

theorem withBase_eq_iff (d : Descriptor) (b : U32) : { d with base := b } = d ↔ d.base = b := by
  cases d
  simp [eq_comm]

/-- What the base choice of the save and of the load comes to. -/
theorem savedBase_iff (sr : SegReg) (msr : U64)
    (hb : s.savedBase sr = if s.longMode then msr else u64 (s.segDesc sr).base) :
    ({ s.segDesc sr with base := u32 (s.savedBase sr) } = s.segDesc sr ∧ s.savedBase sr = msr) ↔
      s.baseAgrees sr msr := by
  rw [withBase_eq_iff, Cpu.baseAgrees, hb]
  cases s.longMode with
  | true => simp
  | false => simp [eq_comm]

/-- CS, SS, DS and ES save the base they cache. -/
theorem savedBase_cached {sr : SegReg} (hf : sr ≠ .fs) (hg : sr ≠ .gs) :
    { s.segDesc sr with base := u32 (s.savedBase sr) } = s.segDesc sr := by
  rw [withBase_eq_iff]
  cases sr with
  | fs => exact absurd rfl hf
  | gs => exact absurd rfl hg
  | es | cs | ss | ds => simp [Cpu.savedBase]

/-- Linear addresses follow from the parts they are made of. -/
theorem linearAddr_congr {s t : Cpu} (he : t.efer = s.efer) (hpe : t.pe = s.pe)
    (hd : ∀ sr : SegReg, t.segDesc sr = s.segDesc sr) (hs : ∀ sr : SegReg, t.seg sr = s.seg sr)
    (hf : t.fsBase = s.fsBase) (hg : t.gsBase = s.gsBase) (sr : SegReg) (off : U64) :
    t.linearAddr sr off = s.linearAddr sr off := by
  have hlong : t.long64 = s.long64 := by simp only [Cpu.long64, Cpu.longMode, he, hd]
  unfold Cpu.linearAddr
  rw [hlong, hpe]
  cases sr <;> simp only [hd, hs, hf, hg]

/-- A state loaded from what `s` saved is `s`, but for RFLAGS' reserved bits and the bases of FS
and GS. -/
theorem restored_iff (hm : GuestMode s) (h : Holds r s rip)
    (hl : Loaded r (r Field.guestEfer &&& ~~~Efer.lma) g) :
    Restored s rip g ↔
      s.flagsFormed ∧ s.baseAgrees .fs s.fsBase ∧ s.baseAgrees .gs s.gsBase := by
  have hflags : g.flags = s.flags &&& Flags.writable ||| Flags.alwaysSet := by
    have hsaved : u32 (r Field.guestRflags) = s.flags :=
      holds_narrow h (by simp [Cpu.savedGuestState]) (by decide) (by decide)
    rw [hl.flags, hsaved]
  have hseg (sr : SegReg) := restored_segment h sr
  have hdesc (sr : SegReg) : g.segDesc sr = { s.segDesc sr with base := u32 (s.savedBase sr) } :=
    (hl.segDesc sr).trans (hseg sr).2.2
  have hfs : g.fsBase = s.savedBase .fs := hl.fsBase.trans (hseg .fs).2.1
  have hgs : g.gsBase = s.savedBase .gs := hl.gsBase.trans (hseg .gs).2.1
  have fs_iff := savedBase_iff (s := s) .fs s.fsBase rfl
  have gs_iff := savedBase_iff (s := s) .gs s.gsBase rfl
  constructor
  · intro hr
    refine ⟨hflags.symm.trans hr.flags, fs_iff.mp ⟨?_, ?_⟩, gs_iff.mp ⟨?_, ?_⟩⟩
    · exact (hdesc .fs).symm.trans (hr.segDesc .fs)
    · exact hfs.symm.trans hr.fsBase
    · exact (hdesc .gs).symm.trans (hr.segDesc .gs)
    · exact hgs.symm.trans hr.gsBase
  · rintro ⟨hformed, hf, hg⟩
    obtain ⟨hfd, hfb⟩ := fs_iff.mpr hf
    obtain ⟨hgd, hgb⟩ := gs_iff.mpr hg
    have cr0 : g.cr0 = s.cr0 := hl.cr0.trans (restored_cr0 hm h)
    have efer : g.efer = s.efer := by
      rw [hl.efer, cr0, holds_wide h (v := s.efer) (by simp [Cpu.savedGuestState]) rfl]
      exact restored_efer hm
    have seg (sr : SegReg) : g.seg sr = s.seg sr := (hl.seg sr).trans (hseg sr).1
    have segDesc (sr : SegReg) : g.segDesc sr = s.segDesc sr := by
      refine (hdesc sr).trans ?_
      by_cases h1 : sr = .fs
      · exact h1 ▸ hfd
      by_cases h2 : sr = .gs
      · exact h2 ▸ hgd
      · exact savedBase_cached h1 h2
    have pe : g.pe = s.pe := by rw [hl.pe, cr0, hm.pe]
    refine {
      rip := hl.rip.trans (holds_wide h (by simp [Cpu.savedGuestState]) rfl)
      rsp := hl.rsp.trans (holds_wide h (by simp [Cpu.savedGuestState]) rfl)
      flags := hflags.trans hformed
      cr0
      cr3 := hl.cr3.trans (holds_wide h (by simp [Cpu.savedGuestState]) rfl)
      cr4 := hl.cr4.trans (restored_cr4 hm h)
      efer
      seg
      segDesc
      fsBase := hfs.trans hfb
      gsBase := hgs.trans hgb
      linear := linearAddr_congr efer pe segDesc seg (hfs.trans hfb) (hgs.trans hgb)
      gdtBase := hl.gdtBase.trans (holds_wide h (by simp [Cpu.savedGuestState]) rfl)
      idtBase := hl.idtBase.trans (holds_wide h (by simp [Cpu.savedGuestState]) rfl)
      ldtBase := hl.ldtBase.trans (holds_wide h (by simp [Cpu.savedGuestState]) rfl)
      trBase := hl.trBase.trans (holds_wide h (by simp [Cpu.savedGuestState]) rfl)
      gdtLimit := hl.gdtLimit.trans
        (holds_narrow h (by simp [Cpu.savedGuestState]) (by decide) (by decide))
      idtLimit := hl.idtLimit.trans
        (holds_narrow h (by simp [Cpu.savedGuestState]) (by decide) (by decide))
      ldtLimit := hl.ldtLimit.trans
        (holds_narrow h (by simp [Cpu.savedGuestState]) (by decide) (by decide))
      trLimit := hl.trLimit.trans
        (holds_narrow h (by simp [Cpu.savedGuestState]) (by decide) (by decide))
      ldtSelector := hl.ldtSelector.trans
        (holds_narrow h (by simp [Cpu.savedGuestState]) (by decide) (by decide))
      trSelector := hl.trSelector.trans
        (holds_narrow h (by simp [Cpu.savedGuestState]) (by decide) (by decide))
      sysenterCs := hl.sysenterCs.trans
        (holds_narrow h (by simp [Cpu.savedGuestState]) (by decide) (by decide))
      sysenterEsp := hl.sysenterEsp.trans
        (holds_narrow h (by simp [Cpu.savedGuestState]) (by decide) (by decide))
      sysenterEip := hl.sysenterEip.trans
        (holds_narrow h (by simp [Cpu.savedGuestState]) (by decide) (by decide))
      dr7 := hl.dr7.trans (holds_wide h (by simp [Cpu.savedGuestState]) rfl)
      halted := ?_ }
    rw [hl.halted, h _ (bit s.halted) (by simp [Cpu.savedGuestState])]
    cases s.halted <;> rfl

end RoundTrip

/-! ## VMRESUME -/

/-- The host left the guest-state area as the exit wrote it. -/
def GuestAreaKept (e h : Cpu) : Prop :=
  ∀ f : U32, (f >>> 10) &&& 3 = 2 → h.vmRead f = e.vmRead f

/-- VMRESUME enters the guest from here, loads EFER and injects nothing. -/
structure Resumes (h : Cpu) : Prop where
  on : h.vmx.on = true
  cpl : h.cpl = 0
  current : h.vmx.current.isSome = true
  launched : h.vmx.launched = true
  controls : h.checkControls = .ok ()
  loadEfer : test (u32 (h.vmRead Field.entryCtls)) Vmx.entryLoadEfer = true
  noEvent : test (u32 (h.vmRead Field.entryIntrInfo)) ((1 : U32) <<< 31) = false

section Resume

variable {s h : Cpu}

theorem holds_of_kept {reason : U32} {q : U64} {info err : U32}
    (hk : GuestAreaKept (s.vmExit reason q info err) h) : Holds h.vmRead s (s.exitRip reason) := by
  intro f v hmem
  rw [hk f (savedFields_guest (saved_mem _ hmem)).2.2]
  exact vmRead_vmExit s reason q info err hmem

/-- Marking the VMCS launched leaves every field. -/
theorem read_setLaunched (x : Vmx) (on : Bool) {f : U32} (hf : Vmx.slot f ≠ some Vmx.launchSlot) :
    (x.setLaunched on).read f = x.read f := by
  unfold Vmx.read
  cases hk : Vmx.slot f with
  | none => rfl
  | some k =>
    have hne : k ≠ Vmx.launchSlot := fun he => hf (hk.trans (congrArg some he))
    simp [Vmx.setLaunched, Vmx.setSlot, hne]

theorem vmRead_enterGuest {f : U32} (hf : Vmx.slot f ≠ some Vmx.launchSlot) :
    h.enterGuest.vmRead f = h.vmRead f := by
  have hread (t : Cpu) : (t.setLaunched true).vmRead f = t.vmRead f := read_setLaunched _ _ hf
  show (Cpu.setLaunched _ true).vmRead f = h.vmRead f
  rw [hread, Cpu.vmRead, Cpu.vmx_loadGuestState]
  rfl

theorem enterGuest_injectedEvent (hr : Resumes h) : h.enterGuest.injectedEvent = none := by
  have hinfo : h.enterGuest.vmRead Field.entryIntrInfo = h.vmRead Field.entryIntrInfo :=
    vmRead_enterGuest (by decide)
  refine if_neg ?_
  rw [hinfo, hr.noEvent]
  exact Bool.false_ne_true

theorem vmresume_run (hr : Resumes h) (v : VmxInst) (hv : v.op = .vmresume) :
    (execute (.vmx v) h).2 = h.enterGuest := by
  have hx : execute (.vmx v) h = vmlaunch true h := by
    show executeVmx v h = _
    simp only [executeVmx, bind_run, get_run, hr.on, hr.cpl, hv]
    rfl
  have hlaunch : vmlaunch true h = vmEntry h := by
    have hcur : h.vmx.current.isNone = false := by rw [← Option.not_isSome, hr.current]; rfl
    simp only [vmlaunch, bind_run, get_run, hr.launched, hcur, hr.controls]
    rfl
  rw [hx, hlaunch]
  simp only [vmEntry, bind_run, modify_run, get_run, enterGuest_injectedEvent hr]
  rfl

/-- The VMX state is not part of what is loaded. -/
theorem Loaded.withVmx {r : U32 → U64} {e : U64} {g : Cpu} (hl : Loaded r e g) (x : Vmx) :
    Loaded r e { g with vmx := x } := by
  cases hl
  constructor <;> assumption

theorem loaded_enterGuest (hr : Resumes h) :
    Loaded h.vmRead (h.vmRead Field.guestEfer &&& ~~~Efer.lma) h.enterGuest := by
  have hefer : h.entryEfer = h.vmRead Field.guestEfer := if_pos hr.loadEfer
  rw [← hefer]
  exact ((loaded_loadGuestState { h with vmx := { h.vmx with
    hostLong := test (u32 (h.vmRead Field.exitCtls)) Vmx.exitHostAddrSpaceSize } }).withVmx _).withVmx _

/-- An exit followed by VMRESUME restores the guest exactly when RFLAGS is well formed and the bases
of FS and GS agree with their MSRs as far as the mode in use can tell. -/
theorem exit_resume_iff (hm : GuestMode s) {reason : U32} {q : U64} {info err : U32}
    (hk : GuestAreaKept (s.vmExit reason q info err) h) (hr : Resumes h) (v : VmxInst)
    (hv : v.op = .vmresume) :
    Restored s (s.exitRip reason) (execute (.vmx v) h).2 ↔
      s.flagsFormed ∧ s.baseAgrees .fs s.fsBase ∧ s.baseAgrees .gs s.gsBase := by
  rw [vmresume_run hr v hv]
  exact restored_iff hm (holds_of_kept hk) (loaded_enterGuest hr)

end Resume
/-! ## A guest whose FS base is in the MSR only -/

/-- The VMCS of a 64-bit guest under a 64-bit host. -/
def longVmcs : Vmx :=
  (({ on := true, current := some 0x5000, inGuest := true } : Vmx).setLaunched true).writeAll
    [(Field.pinCtls, u64 Vmx.pinDefault1), (Field.cpuCtls, u64 Vmx.cpuDefault1),
     (Field.exitCtls, u64 (Vmx.exitDefault1 ||| Vmx.exitHostAddrSpaceSize ||| Vmx.exitSaveEfer |||
       Vmx.exitLoadEfer)),
     (Field.entryCtls, u64 (Vmx.entryDefault1 ||| Vmx.entryIa32eGuest ||| Vmx.entryLoadEfer)),
     (Field.hostCr0, 0x80000021), (Field.hostCr4, 0x2020), (Field.hostEfer, 0x500),
     (Field.hostCsSel, 8)]

/-- A 64-bit guest with a null FS segment, whose FS base may have been written through the MSR. -/
def longGuest (written : Bool) : Cpu :=
  { Cpu.withRam (2 ^ 20) Memory.mib_le 0 with
    cr0 := 0x80000021
    cr4 := 0x2020
    efer := 0x500
    pe := true
    flags := 0x2
    fsBase := if written then 0x1000 else 0
    vmx := longVmcs }

theorem longGuest_mode (written : Bool) : GuestMode (longGuest written) := by
  cases written <;> exact ⟨by decide, by decide, rfl, by decide⟩

/-- VMRESUME straight from the exit of a CPUID. -/
theorem longGuest_resumes (written : Bool) :
    Resumes ((longGuest written).vmExit Reason.cpuid 0 0 0) := by
  cases written <;> exact
    { on := by decide +kernel
      cpl := by decide +kernel
      current := by decide +kernel
      launched := by decide +kernel
      controls := by decide +kernel
      loadEfer := by decide +kernel
      noEvent := by decide +kernel }

/-- VMRESUME, whose operands are not looked at. -/
def vmresumeInst : VmxInst := ⟨.vmresume, { modField := 3, reg := 0, rm := 0, rmRaw := 0 }, 0⟩

theorem longGuest_kept (written : Bool) :
    GuestAreaKept ((longGuest written).vmExit Reason.cpuid 0 0 0)
      ((longGuest written).vmExit Reason.cpuid 0 0 0) := fun _ _ => rfl

/-- After WRMSR to FS_BASE, an exit and VMRESUME rewrite the cached FS base. -/
theorem exit_resume_moves_fs_base :
    ¬ ∀ (s h : Cpu) (reason : U32) (q : U64) (info err : U32) (v : VmxInst), GuestMode s →
      GuestAreaKept (s.vmExit reason q info err) h → Resumes h → v.op = .vmresume →
      Restored s (s.exitRip reason) (execute (.vmx v) h).2 := by
  intro hall
  have hr := hall _ _ _ _ _ _ vmresumeInst (longGuest_mode true) (longGuest_kept true)
    (longGuest_resumes true) rfl
  rw [vmresume_run (longGuest_resumes true) _ rfl] at hr
  have hbase : (((longGuest true).vmExit Reason.cpuid 0 0 0).enterGuest.segDesc .fs).base ≠
      ((longGuest true).segDesc .fs).base := by decide +kernel
  exact hbase (congrArg Descriptor.base (hr.segDesc .fs))

/-- With the MSR never written the guest resumes as it left. -/
theorem exit_resume_restores_null_fs :
    Restored (longGuest false) ((longGuest false).exitRip Reason.cpuid)
      (execute (.vmx vmresumeInst) ((longGuest false).vmExit Reason.cpuid 0 0 0)).2 :=
  (exit_resume_iff (longGuest_mode false) (longGuest_kept false) (longGuest_resumes false) _ rfl).mpr
    ⟨by decide +kernel, by decide +kernel, by decide +kernel⟩

end X86Emu
