import X86Emu.LongEntry

/-!
# Loading 64-bit ELF kernels

Which files the 64-bit loader takes, and what a kernel it has loaded starts with: its segments in
memory, the last over the earlier ones, the boot structures over them all, and long mode.
-/
namespace X86Emu

open Boot Overlay Stopping Memory

namespace Boot

variable {elf : Slice} {off : U64} {ph : ProgramHeader} {m m' : Memory} {top : U64}

/-! ## One program header -/

/-- A program header of a 64-bit image: it lies in the file, and so do the bytes of the segment it
names if that is to be loaded. -/
structure Header64 (elf : Slice) (off : U64) (ph : ProgramHeader) : Prop where
  read : readHeader64 elf off = .ok ph
  table : off.toNat + 56 ≤ elf.size
  inside : ph.type = 1 → ph.offset.toNat + ph.filesz.toNat ≤ elf.size

/-- The end of the segments so far, with this one. -/
def ProgramHeader.topOver (ph : ProgramHeader) (top : U64) : U64 :=
  if ph.type = 1 ∧ ph.paddr + ph.memsz ≥ top then ph.paddr + ph.memsz else top

theorem past_end_iff (b : Slice) (x n : U64) :
    ¬ (x + n > b.len) ↔ x.toNat + n.toNat ≤ b.size ∨
      2 ^ 64 ≤ x.toNat + n.toNat ∧ x.toNat + n.toNat - 2 ^ 64 ≤ b.size := by
  have hsize := b.size_lt'
  have hx := x.isLt
  have hn := n.isLt
  rw [gt_iff_lt, BitVec.lt_def, b.len_toNat, BitVec.toNat_add]
  omega

theorem loadHeader64_ok (h : Header64 elf off ph) (m : Memory) (top : U64) :
    ∃ m', loadHeader64 elf off m top = .ok (m', ph.topOver top) ∧
      LaidOver m m' (ph.blocks elf) := by
  have hfits : ¬ (off + 56 > elf.len) := (past_end_iff elf off 56).mpr (.inl h.table)
  unfold loadHeader64
  rw [if_neg hfits]
  by_cases ht : ph.type = 1
  · have hin := h.inside ht
    have hholds : elf.Holds ph.offset ph.filesz := fun _ => hin
    obtain ⟨m', hm, hlaid⟩ := loadSegment_ok hholds ht m
    refine ⟨m', ?_, hlaid⟩
    simp only [h.read, bind, Except.bind, pure, Except.pure, ht, ne_eq, not_true_eq_false, if_false,
      if_neg ((past_end_iff elf ph.offset ph.filesz).mpr (.inl hin)), hm]
    simp only [ProgramHeader.topOver, ht, true_and]
  · refine ⟨m, ?_, ?_⟩
    · simp only [h.read, bind, Except.bind, pure, Except.pure, ne_eq, ht, not_false_eq_true,
        if_true, ProgramHeader.topOver, false_and, if_false]
    · rw [ProgramHeader.blocks, if_neg ht]
      exact .refl m

theorem header64_of_ok {r : Memory × U64} (h : loadHeader64 elf off m top = .ok r) :
    ∃ ph, Header64 elf off ph := by
  unfold loadHeader64 at h
  split at h
  · cases h
  rename_i hfits
  cases hread : readHeader64 elf off with
  | error e =>
    rw [hread] at h
    cases h
  | ok ph =>
    have hneed := (needs_readHeader64 elf off).of_ok hread
    have hsize := elf.size_lt'
    have htable : off.toNat + 56 ≤ elf.size := by
      have hor := (past_end_iff elf off 56).mp hfits
      have h56 : (56 : U64).toNat = 56 := rfl
      omega
    refine ⟨ph, hread, htable, fun ht => ?_⟩
    simp only [hread, bind, Except.bind, ht, ne_eq, not_true_eq_false, if_false] at h
    split at h
    · cases h
    rename_i hinside
    cases hseg : loadSegment elf ph m with
    | error e =>
      rw [hseg] at h
      cases h
    | ok m' =>
      have hholds := (loadSegment_guarded elf ph m).of_ok hseg
      have hor := (past_end_iff elf ph.offset ph.filesz).mp hinside
      by_cases h0 : ph.filesz = 0
      · rw [h0] at hor ⊢
        have hz : (0 : U64).toNat = 0 := rfl
        have hlt := ph.offset.isLt
        omega
      · exact hholds h0

/-- A range of a file that ends past the address space. -/
def Wraps (x n : U64) : Prop := 2 ^ 64 ≤ x.toNat + n.toNat

/-- Only a range that ends past the address space makes the loader panic. -/
theorem wraps_of_panic (h : loadHeader64 elf off m top = .error .panicked) :
    Wraps off 56 ∨ ∃ ph, readHeader64 elf off = .ok ph ∧ ph.type = 1 ∧
      Wraps ph.offset ph.filesz := by
  unfold loadHeader64 at h
  split at h
  · cases h
  rename_i hfits
  have hor := (past_end_iff elf off 56).mp hfits
  cases hread : readHeader64 elf off with
  | error e =>
    have hneed := ((needs_readHeader64 elf off).of_error hread).1
    have h56 : (56 : U64).toNat = 56 := rfl
    refine .inl ?_
    unfold Wraps
    omega
  | ok ph =>
    refine .inr ⟨ph, rfl, ?_⟩
    by_cases ht : ph.type = 1
    · refine ⟨ht, ?_⟩
      simp only [hread, bind, Except.bind, ht, ne_eq, not_true_eq_false, if_false] at h
      split at h
      · cases h
      rename_i hinside
      have hor := (past_end_iff elf ph.offset ph.filesz).mp hinside
      cases hseg : loadSegment elf ph m with
      | error e =>
        obtain ⟨h0, hout⟩ := Classical.not_imp.mp ((loadSegment_guarded elf ph m).of_error hseg).1
        unfold Wraps
        omega
      | ok m' =>
        rw [hseg] at h
        cases h
    · simp only [hread, bind, Except.bind, ne_eq, ht, not_false_eq_true, if_true, pure,
        Except.pure] at h
      cases h

/-! ## A 64-bit image -/

/-- A 64-bit ELF file with this entry and these program headers. -/
structure Elf64 (elf : Slice) (entry : U64) (phs : List ProgramHeader) : Prop where
  size : 64 ≤ elf.size
  magic : elf.isElf = true
  class64 : elf.byte 4 = .ok 2
  entry : elf.le64 24 = .ok entry
  headers : ∃ phoff phentsize phnum, elf.le64 32 = .ok phoff ∧ elf.le16 54 = .ok phentsize ∧
    elf.le16 56 = .ok phnum ∧ phnum ≠ 0 ∧ 56 ≤ phentsize ∧
    List.Forall₂ (fun i => Header64 elf (phoff + BitVec.ofNat 64 i * u64 phentsize))
      (List.range phnum.toNat) phs

/-- The blocks of an image, in the order they are loaded. -/
def segments (elf : Slice) (phs : List ProgramHeader) : List (U64 × List U8) :=
  phs.flatMap (·.blocks elf)

/-- Where the segments of an image end. -/
def imageTop (phs : List ProgramHeader) : U64 := phs.foldl (fun top ph => ph.topOver top) 0

theorem loadHeaders64_ok {phoff : U64} {phentsize phnum : U16} {phs : List ProgramHeader}
    (h : List.Forall₂ (fun i => Header64 elf (phoff + BitVec.ofNat 64 i * u64 phentsize))
      (List.range phnum.toNat) phs) (m : Memory) :
    ∃ m', loadHeaders64 elf phoff phentsize phnum m = .ok (m', imageTop phs) ∧
      LaidOver m m' (segments elf phs) := by
  obtain ⟨⟨m', top⟩, hrun, hlaid, htop⟩ := foldlM_ok
    (f := fun (p : Memory × U64) i =>
      loadHeader64 elf (phoff + BitVec.ofNat 64 i * u64 phentsize) p.1 p.2)
    (I := fun ks p => LaidOver m p.1 (segments elf ks) ∧ p.2 = imageTop ks)
    (fun ks ph i p hph hI => by
      obtain ⟨m', hm, hlaid⟩ := loadHeader64_ok hph p.1 p.2
      refine ⟨_, hm, ?_, ?_⟩
      · refine (hI.1.trans hlaid).of_eq ?_
        rw [segments, segments, List.flatMap_append, List.flatMap_singleton]
      · rw [imageTop, List.foldl_append, hI.2]
        rfl) h [] (s := (m, 0)) ⟨.refl m, rfl⟩
  rw [List.nil_append] at hlaid htop
  subst htop
  exact ⟨m', hrun, hlaid⟩

theorem laidOver_bootStructures64 (cmdline : Slice) (initrd : Option Slice) (m : Memory) :
    LaidOver m (bootStructures64 cmdline initrd m) (bootBlocks cmdline initrd m) := by
  have h1 := laidOver_writeScreenInfo m
  have h2 := h1.trans (laidOver_writeE820 _)
  rw [ramSize_congr h1.slot] at h2
  have h3 := (h2.trans (laidOver_writeCmdline cmdline _)).trans (laidOver_writeLoaderFields _)
  have h4 := h3.trans (laidOver_placeRamdisk initrd _)
  rw [ramdiskBlocks_congr h3.slot] at h4
  exact h4

theorem bootBlocks_congr (hslot : ∀ b, m'.slot b = m.slot b) (cmdline : Slice)
    (initrd : Option Slice) : bootBlocks cmdline initrd m' = bootBlocks cmdline initrd m := by
  rw [bootBlocks, bootBlocks, ramdiskBlocks_congr hslot, ramSize_congr hslot]

theorem subperm_layout64 {α : Type} (S E C F G H L : List α) {R : List α} {r : α}
    (hR : R = [] ∨ R = r :: G) :
    (S ++ E ++ C ++ F ++ R ++ L).Subperm (S ++ E ++ F ++ G ++ H ++ L ++ (C ++ [r])) := by
  refine Multiset.coe_le.mp ?_
  rcases hR with rfl | rfl
  · refine Multiset.le_iff_exists_add.mpr ⟨G + H + {r}, ?_⟩
    simp only [← Multiset.coe_add, Multiset.coe_singleton, Multiset.coe_nil, add_zero]
    abel
  · refine Multiset.le_iff_exists_add.mpr ⟨H, ?_⟩
    simp only [← Multiset.coe_add, ← Multiset.cons_coe, ← Multiset.singleton_add,
      Multiset.coe_nil, add_zero]
    abel

/-- What is laid after the segments is part of the layout. -/
theorem spans64_subperm (cmdline : Slice) (initrd : Option Slice) (m t : Memory) :
    ((bootBlocks cmdline initrd m ++ [firmwareBlock t]).map span).Subperm
      (layout true (e820Map m.ramSize).length cmdline (ramdiskSpan m initrd)) := by
  have hfirm : [firmwareBlock t].map span = lowSpans true := by
    rw [List.map_singleton, firmwareBlock, span, List.length_map, List.length_range]
    rfl
  rw [List.map_append, hfirm, bootBlocks]
  simp only [List.map_append, spans_screenInfo, spans_e820, spans_cmdline, spans_loaderFields,
    spans_ramdisk, layout, fixedSpans]
  exact subperm_layout64 _ _ _ _ _ _ _ (ramdiskSpans_cases m initrd)

/-- Loading an accepted image goes through. -/
theorem loadElf64Kernel_runs {entry : U64} {phs : List ProgramHeader} (h : Elf64 elf entry phs)
    (cmdline : Slice) (initrd : Option Slice) (s : Cpu) :
    ∃ m', LaidOver s.mem m' (segments elf phs) ∧
      loadElf64Kernel elf cmdline initrd s = .ok (entry,
        (enterLongMode entry (stackAbove (imageTop phs))
          { s with mem := bootStructures64 cmdline initrd m' }).setReg64Raw 6
            (u64 bootParamsAddr)) := by
  obtain ⟨phoff, phentsize, phnum, hphoff, hentsize, hnum, hnum0, hent, hphs⟩ := h.headers
  obtain ⟨m', hm, hlaid⟩ := loadHeaders64_ok hphs s.mem
  have hstart : ¬ (elf.size < 64 ∨ elf.isElf = false) := by
    have hsize := h.size
    rw [h.magic]
    simp only [Bool.true_eq_false, or_false]
    omega
  have hheaders : ¬ (phnum = 0 ∨ phentsize < 56) := by
    rintro (h0 | hlt)
    · exact hnum0 h0
    · exact BitVec.not_lt.mpr hent hlt
  refine ⟨m', hlaid, ?_⟩
  unfold loadElf64Kernel
  simp only [if_neg hstart, h.class64, h.entry, hphoff, hentsize, hnum, bind, Except.bind, pure,
    Except.pure, if_neg hheaders, hm, ne_eq, not_true_eq_false, if_false]

/-- A program header, or the bytes of a segment, whose place ends past the address space. -/
def PastAddressSpace (elf : Slice) : Prop :=
  ∃ phoff phentsize phnum, elf.le64 32 = .ok phoff ∧ elf.le16 54 = .ok phentsize ∧
    elf.le16 56 = .ok phnum ∧ ∃ i < phnum.toNat,
      Wraps (phoff + BitVec.ofNat 64 i * u64 phentsize) 56 ∨
      ∃ ph, readHeader64 elf (phoff + BitVec.ofNat 64 i * u64 phentsize) = .ok ph ∧
        ph.type = 1 ∧ Wraps ph.offset ph.filesz

/-- The fixed part of a file of 64 bytes can be read. -/
theorem fixed_reads (h : 64 ≤ elf.size) : ∃ cls entry phoff phentsize phnum,
    elf.byte 4 = .ok cls ∧ elf.le64 24 = .ok entry ∧ elf.le64 32 = .ok phoff ∧
      elf.le16 54 = .ok phentsize ∧ elf.le16 56 = .ok phnum := by
  obtain ⟨cls, hcls⟩ := (elf.needs_byte 4).1 (show 5 ≤ elf.size by omega)
  obtain ⟨entry, hentry⟩ := (elf.needs_le64 24).1 (show 32 ≤ elf.size by omega)
  obtain ⟨phoff, hphoff⟩ := (elf.needs_le64 32).1 (show 40 ≤ elf.size by omega)
  obtain ⟨phentsize, hentsize⟩ := (elf.needs_le16 54).1 (show 56 ≤ elf.size by omega)
  obtain ⟨phnum, hnum⟩ := (elf.needs_le16 56).1 (show 58 ≤ elf.size by omega)
  exact ⟨cls, entry, phoff, phentsize, phnum, hcls, hentry, hphoff, hentsize, hnum⟩

/-- A run of the loader refuses the file, stops in its program headers, or takes it. -/
theorem loadElf64Kernel_cases (elf cmdline : Slice) (initrd : Option Slice) (s : Cpu) :
    (∃ why, loadElf64Kernel elf cmdline initrd s = .error (.refused why)) ∨
      (∃ phoff phentsize phnum e, elf.le64 32 = .ok phoff ∧ elf.le16 54 = .ok phentsize ∧
        elf.le16 56 = .ok phnum ∧ loadHeaders64 elf phoff phentsize phnum s.mem = .error e ∧
        loadElf64Kernel elf cmdline initrd s = .error e) ∨
      ∃ entry phs, Elf64 elf entry phs := by
  by_cases hstart : elf.size < 64 ∨ elf.isElf = false
  · refine .inl ⟨"not an ELF file", ?_⟩
    unfold loadElf64Kernel
    rw [if_pos hstart]
    rfl
  have hsize : 64 ≤ elf.size := by
    by_contra h
    exact hstart (.inl (by omega))
  have hmagic : elf.isElf = true := by
    by_contra h
    exact hstart (.inr (Bool.eq_false_iff.mpr h))
  obtain ⟨cls, entry, phoff, phentsize, phnum, hcls, hentry, hphoff, hentsize, hnum⟩ :=
    fixed_reads hsize
  by_cases h2 : cls = 2
  · subst h2
    by_cases hheaders : phnum = 0 ∨ phentsize < 56
    · refine .inl ⟨"ELF has no program headers", ?_⟩
      unfold loadElf64Kernel
      simp only [if_neg hstart, hcls, hentry, hphoff, hentsize, hnum, bind, Except.bind, pure,
        Except.pure, if_pos hheaders, ne_eq, not_true_eq_false, if_false]
      rfl
    · obtain ⟨hnum0, hent⟩ := not_or.mp hheaders
      cases hload : loadHeaders64 elf phoff phentsize phnum s.mem with
      | error e =>
        refine .inr (.inl ⟨phoff, phentsize, phnum, e, hphoff, hentsize, hnum, hload, ?_⟩)
        unfold loadElf64Kernel
        simp only [if_neg hstart, hcls, hentry, hphoff, hentsize, hnum, bind, Except.bind,
          if_neg hheaders, hload, ne_eq, not_true_eq_false, if_false]
      | ok p =>
        obtain ⟨phs, hphs⟩ := records_of_foldlM (P := fun i =>
          Header64 elf (phoff + BitVec.ofNat 64 i * u64 phentsize))
          (fun _ _ _ => header64_of_ok) hload
        exact .inr (.inr ⟨entry, phs, hsize, hmagic, hcls, hentry, phoff, phentsize, phnum, hphoff,
          hentsize, hnum, hnum0, BitVec.not_lt.mp hent, hphs⟩)
  · refine .inl ⟨"not a 64-bit ELF (class is ELF32)", ?_⟩
    unfold loadElf64Kernel
    simp only [if_neg hstart, hcls, bind, Except.bind, pure, Except.pure, h2, ne_eq,
      not_false_eq_true, if_true]
    rfl

/-- What the loader does with any file: it takes exactly the 64-bit ELF files whose headers and
segments lie within them, and panics only where one of those ends past the address space. -/
structure Screens64 (elf cmdline : Slice) (initrd : Option Slice) (s : Cpu) : Prop where
  takes : (∃ r, loadElf64Kernel elf cmdline initrd s = .ok r) ↔ ∃ entry phs, Elf64 elf entry phs
  panics : loadElf64Kernel elf cmdline initrd s = .error .panicked → PastAddressSpace elf

theorem elf64_screened (elf cmdline : Slice) (initrd : Option Slice) (s : Cpu) :
    Screens64 elf cmdline initrd s := by
  refine ⟨⟨fun ⟨r, hr⟩ => ?_, fun ⟨entry, phs, h⟩ => ?_⟩, fun hpanic => ?_⟩
  · rcases loadElf64Kernel_cases elf cmdline initrd s with ⟨why, hwhy⟩ |
      ⟨_, _, _, e, -, -, -, -, he⟩ | h
    · cases hr.symm.trans hwhy
    · cases hr.symm.trans he
    · exact h
  · obtain ⟨m', -, hrun⟩ := loadElf64Kernel_runs h cmdline initrd s
    exact ⟨_, hrun⟩
  · rcases loadElf64Kernel_cases elf cmdline initrd s with ⟨why, hwhy⟩ |
      ⟨phoff, phentsize, phnum, e, hphoff, hentsize, hnum, hload, he⟩ | ⟨entry, phs, h⟩
    · cases hpanic.symm.trans hwhy
    · obtain rfl : e = .panicked := Except.error.inj (he.symm.trans hpanic)
      obtain ⟨i, hi, p, hstop⟩ := error_of_foldlM hload
      exact ⟨phoff, phentsize, phnum, hphoff, hentsize, hnum, i, List.mem_range.mp hi,
        wraps_of_panic hstop⟩
    · obtain ⟨m', -, hrun⟩ := loadElf64Kernel_runs h cmdline initrd s
      cases hpanic.symm.trans hrun

theorem regs_setReg64Raw (u : Cpu) (i : U8) (v : U64) (j : Fin 16) :
    (u.setReg64Raw i v).regs j = if j = Cpu.regIdx i then v else u.regs j := rfl

theorem mem_setReg64Raw (u : Cpu) (i : U8) (v : U64) : (u.setReg64Raw i v).mem = u.mem := rfl

/-- Pointing RSI at boot_params changes nothing else. -/
theorem started64_setReg64Raw {u : Cpu} {entry stack : U64} (h : Started64 u entry stack)
    (v : U64) : Started64 (u.setReg64Raw 6 v) entry stack :=
  ⟨h.rip, (regs_setReg64Raw u 6 v 4).trans ((if_neg (by decide)).trans h.rsp), h.long, h.cs,
    ⟨h.mapped.mode, h.mapped.low, h.mapped.high⟩, h.masked, h.running⟩

/-! ### The stack -/

theorem topOver_ge (ph : ProgramHeader) (top : U64) :
    top ≤ ph.topOver top ∧ (ph.type = 1 → ph.paddr + ph.memsz ≤ ph.topOver top) := by
  unfold ProgramHeader.topOver
  split
  · rename_i h
    exact ⟨h.2, fun _ => BitVec.le_refl _⟩
  · rename_i h
    refine ⟨BitVec.le_refl _, fun ht => ?_⟩
    exact BitVec.le_of_lt (BitVec.not_le.mp fun hge => h ⟨ht, hge⟩)

/-- Every segment to be loaded ends at the top of the image or below. -/
theorem imageTop_ge {ph : ProgramHeader} (hmem : ph ∈ phs) (ht : ph.type = 1) :
    ph.paddr + ph.memsz ≤ imageTop phs := by
  have hfold : ∀ (l : List ProgramHeader) (top : U64),
      top ≤ l.foldl (fun top ph => ph.topOver top) top ∧
        (ph ∈ l → ph.paddr + ph.memsz ≤ l.foldl (fun top ph => ph.topOver top) top) := by
    intro l
    induction l with
    | nil => exact fun top => ⟨BitVec.le_refl top, fun h => absurd h List.not_mem_nil⟩
    | cons q l ih =>
      intro top
      obtain ⟨hge, hend⟩ := topOver_ge q top
      obtain ⟨htail, hin⟩ := ih (q.topOver top)
      refine ⟨BitVec.le_trans hge htail, fun h => ?_⟩
      rcases List.mem_cons.mp h with rfl | h
      · exact BitVec.le_trans (hend ht) htail
      · exact hin h
  exact (hfold phs 0).2 hmem

/-- The stack pointer is above an image that leaves a page below 4 GiB. -/
theorem stackAbove_ge {top : U64} (h : top ≤ identityMapBytes - 0x1000) : top ≤ stackAbove top := by
  have htop : top.toNat ≤ 2 ^ 32 - 4096 := h
  have habove : top.toNat ≤
      (((if top ≥ 0x100000 then top else 0x100000) + 0x100000 : U64) &&& ~~~0xFFF).toNat := by
    rw [pageStart_toNat, BitVec.toNat_add, show (0x100000 : U64).toNat = 2 ^ 20 from rfl]
    split
    · omega
    · rename_i hlow
      have hlow' : top.toNat < 2 ^ 20 := Nat.lt_of_not_le hlow
      rw [show (0x100000 : U64).toNat = 2 ^ 20 from rfl]
      omega
  unfold stackAbove
  dsimp only
  by_cases hfits : ((if top ≥ 0x100000 then top else 0x100000) + 0x100000 : U64) &&& ~~~0xFFF ≤
      identityMapBytes - 0x1000
  · rw [if_pos hfits]
    exact habove
  · rw [if_neg hfits]
    exact h

/-- Loading an accepted image leaves its segments in memory, the boot structures over them, and the
machine about to run it, RSI at boot_params. The stack is above the image where 4 GiB leave room
for it. -/
theorem elf64_loaded {cmdline : Slice} {initrd : Option Slice} {entry : U64}
    {phs : List ProgramHeader} (h : Elf64 elf entry phs) (s : Cpu)
    (hfits : ∀ rd ∈ initrd, RamdiskFits s.mem rd) :
    ∃ t, loadElf64Kernel elf cmdline initrd s = .ok (entry, t) ∧
      Started64 t entry (stackAbove (imageTop phs)) ∧
      (imageTop phs ≤ identityMapBytes - 0x1000 →
        ∀ ph ∈ phs, ph.type = 1 → ph.paddr + ph.memsz ≤ t.regs 4) ∧
      t.regs 6 = u64 bootParamsAddr ∧
      Handed true (segments elf phs) cmdline initrd s.mem t.mem := by
  obtain ⟨m', hlaid, hrun⟩ := loadElf64Kernel_runs h cmdline initrd s
  -- memory after the segments, the structures and the hand-over
  have hboot := hlaid.trans (laidOver_bootStructures64 cmdline initrd m')
  rw [bootBlocks_congr hlaid.slot] at hboot
  generalize bootStructures64 cmdline initrd m' = b at hboot hrun
  have henter := laidOver_enterLongMode entry (stackAbove (imageTop phs)) { s with mem := b }
  have hstarted := started64 entry (stackAbove (imageTop phs)) { s with mem := b }
  generalize enterLongMode entry (stackAbove (imageTop phs)) { s with mem := b } = u
    at henter hstarted hrun
  have hall := hboot.trans henter
  rw [List.append_assoc, ← mem_setReg64Raw u 6 (u64 bootParamsAddr)] at hall
  have hstarted' := started64_setReg64Raw hstarted (u64 bootParamsAddr)
  refine ⟨_, hrun, hstarted', fun hroom ph hmem ht => ?_,
    (regs_setReg64Raw u 6 _ 6).trans (if_pos (by decide)),
    handed_of_laidOver hfits hall (spans64_subperm cmdline initrd s.mem _)
      (List.subset_append_left _ _)⟩
  rw [hstarted'.rsp]
  exact BitVec.le_trans (imageTop_ge hmem ht) (stackAbove_ge hroom)

/-- A flat binary is entered where it is placed: its bytes are in memory, aside of the GDT and the
tables. -/
theorem flat64_loaded (code : Slice) (addr : U64) (s : Cpu) :
    ∃ t stack, loadFlat64 code addr s = .ok (addr, t) ∧ Started64 t addr stack ∧
      ∀ a : U64, a.toNat < 0x1800 ∨ 0x8000 ≤ a.toNat → s.mem.backed a →
        t.mem.readU8 a = (Overlay.top [(addr, code.bytes.toList)] a).getD (s.mem.readU8 a) := by
  refine ⟨_, _, rfl, started64 _ _ _, fun a ha hback => ?_⟩
  rw [enter_outside _ _ _ ha]
  exact ((laidOver_place code addr s.mem).laid a).1 hback

/-- The bytes of a file with one segment that are not zero: XOR RAX, RAX and HLT at the first
megabyte, and 16 bytes of zeros after them. -/
def tinyBytes : List (Nat × U8) :=
  [(0, 0x7F), (1, 0x45), (2, 0x4C), (3, 0x46), (4, 2), (5, 1), (6, 1), (16, 2), (18, 0x3E),
    (26, 0x10), (32, 64), (52, 64), (54, 56), (56, 1), (64, 1), (68, 5), (72, 120), (82, 0x10),
    (90, 0x10), (96, 4), (104, 20), (120, 0x48), (121, 0x31), (122, 0xC0), (123, 0xF4)]

def tinyElf : Slice where
  bytes := ((List.range 124).map fun i => (tinyBytes.lookup i).getD 0).toArray
  size_lt := by
    rw [List.size_toArray, List.length_map, List.length_range]
    decide

def noCmdline : Slice := ⟨#[], by decide⟩

def tinySegment : ProgramHeader := ⟨1, 120, 0x100000, 4, 20⟩

theorem tinyElf_elf64 : Elf64 tinyElf 0x100000 [tinySegment] where
  size := by decide +kernel
  magic := by decide +kernel
  class64 := by decide +kernel
  entry := by decide +kernel
  headers := by
    refine ⟨64, 56, 1, by decide +kernel, by decide +kernel, by decide +kernel, by decide,
      by decide, .cons ⟨?_, ?_, fun _ => ?_⟩ .nil⟩ <;> decide +kernel

theorem tinyElf_loaded : ∃ t, loadElf64Kernel tinyElf noCmdline none
      (Cpu.withRam (2 ^ 21) (by decide) 0) = .ok (0x100000, t) ∧
    Started64 t 0x100000 (stackAbove (imageTop [tinySegment])) ∧
    (imageTop [tinySegment] ≤ identityMapBytes - 0x1000 →
      ∀ ph ∈ [tinySegment], ph.type = 1 → ph.paddr + ph.memsz ≤ t.regs 4) ∧
    t.regs 6 = u64 bootParamsAddr ∧
    Handed true (segments tinyElf [tinySegment]) noCmdline none
      (Cpu.withRam (2 ^ 21) (by decide) 0).mem t.mem :=
  elf64_loaded tinyElf_elf64 (Cpu.withRam (2 ^ 21) (by decide) 0) fun _ h => nomatch h

end Boot
end X86Emu
