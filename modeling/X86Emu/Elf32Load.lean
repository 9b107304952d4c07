import X86Emu.Elf64Load
import X86Emu.ProtectedEntry

/-!
# Loading 32-bit ELF kernels

The 32-bit loader checks the magic and the size of the fixed header alone: a file whose headers or
segments do not lie within it makes the program panic. A kernel it has loaded starts in protected
mode with the same boot structures as a 64-bit one.
-/
namespace X86Emu

open Boot Overlay Stopping Memory

namespace Boot

variable {elf cmdline : Slice} {initrd : Option Slice} {off : U64} {ph : ProgramHeader}
  {m m' : Memory} {s : Cpu} {entry : U32} {phs : List ProgramHeader}

/-! ## One program header -/

/-- A program header of a 32-bit image. The 24 bytes of it that are read lie in the file, and so does
its segment if it is to be loaded. -/
structure Header32 (elf : Slice) (off : U64) (ph : ProgramHeader) : Prop where
  held : off.toNat + 24 ≤ elf.size
  read : readHeader32 elf off = .ok ph
  inside : ph.type = 1 → elf.Holds ph.offset ph.filesz

theorem loadHeader32_ok (h : Header32 elf off ph) (m : Memory) :
    ∃ m', loadHeader32 elf off m = .ok m' ∧ LaidOver m m' (ph.blocks elf) := by
  unfold loadHeader32
  rw [h.read]
  by_cases ht : ph.type = 1
  · obtain ⟨m', hm, hlaid⟩ := loadSegment_ok (h.inside ht) ht m
    exact ⟨m', (if_pos ht).trans hm, hlaid⟩
  · refine ⟨m, if_neg ht, ?_⟩
    rw [ProgramHeader.blocks, if_neg ht]
    exact .refl m

/-- A header that cannot be loaded makes the program panic. -/
theorem loadHeader32_cases (elf : Slice) (off : U64) (m : Memory) :
    (∃ ph, Header32 elf off ph) ∨ loadHeader32 elf off m = .error .panicked := by
  unfold loadHeader32
  cases hread : readHeader32 elf off with
  | error e =>
    obtain ⟨-, rfl⟩ := (needs_readHeader32 elf off).of_error hread
    exact .inr rfl
  | ok ph =>
    have hheld : off.toNat + 24 ≤ elf.size := by
      by_contra hout
      cases hread.symm.trans ((needs_readHeader32 elf off).2 hout)
    by_cases hin : ph.type = 1 → elf.Holds ph.offset ph.filesz
    · exact .inl ⟨ph, hheld, hread, hin⟩
    · obtain ⟨ht, hout⟩ := Classical.not_imp.mp hin
      exact .inr ((if_pos ht).trans ((loadSegment_guarded elf ph m).2 hout))

/-! ## A 32-bit image -/

/-- What the loader looks for before it reads the headers. -/
structure HasHeaders (elf : Slice) (phentsize phnum : U16) : Prop where
  size : 52 ≤ elf.size
  magic : elf.isElf = true
  entrySize : elf.le16 42 = .ok phentsize
  count : elf.le16 44 = .ok phnum
  some : phnum ≠ 0
  wide : 32 ≤ phentsize

/-- A 32-bit ELF file with this entry and these program headers. -/
structure Elf32 (elf : Slice) (entry : U32) (phs : List ProgramHeader) : Prop where
  entry : elf.le32 24 = .ok entry
  headers : ∃ phoff phentsize phnum, elf.le32 28 = .ok phoff ∧ HasHeaders elf phentsize phnum ∧
    List.Forall₂ (fun i => Header32 elf (u64 phoff + BitVec.ofNat 64 i * u64 phentsize))
      (List.range phnum.toNat) phs

/-- Every program header of a 32-bit image. -/
def loadHeaders32 (elf : Slice) (phoff : U32) (phentsize phnum : U16) (m : Memory) : Load Memory :=
  (List.range phnum.toNat).foldlM
    (fun m i => loadHeader32 elf (u64 phoff + BitVec.ofNat 64 i * u64 phentsize) m) m

theorem loadHeaders32_ok {phoff : U32} {phentsize phnum : U16}
    (h : List.Forall₂ (fun i => Header32 elf (u64 phoff + BitVec.ofNat 64 i * u64 phentsize))
      (List.range phnum.toNat) phs) (m : Memory) :
    ∃ m', loadHeaders32 elf phoff phentsize phnum m = .ok m' ∧
      LaidOver m m' (segments elf phs) := by
  have hrun := foldlM_ok
    (f := fun m i => loadHeader32 elf (u64 phoff + BitVec.ofNat 64 i * u64 phentsize) m)
    (I := fun ks m' => LaidOver m m' (segments elf ks))
    (fun ks ph i m' hph hI => by
      obtain ⟨m'', hm, hlaid⟩ := loadHeader32_ok hph m'
      refine ⟨m'', hm, (hI.trans hlaid).of_eq ?_⟩
      rw [segments, segments, List.flatMap_append, List.flatMap_singleton]) h [] (s := m) (.refl m)
  rwa [List.nil_append] at hrun

theorem loadHeaders32_cases (elf : Slice) (phoff : U32) (phentsize phnum : U16) (m : Memory) :
    (∃ phs, List.Forall₂ (fun i => Header32 elf (u64 phoff + BitVec.ofNat 64 i * u64 phentsize))
      (List.range phnum.toNat) phs) ∨
      loadHeaders32 elf phoff phentsize phnum m = .error .panicked := by
  cases hload : loadHeaders32 elf phoff phentsize phnum m with
  | error e =>
    obtain ⟨i, -, m', hi⟩ := error_of_foldlM hload
    rcases loadHeader32_cases elf (u64 phoff + BitVec.ofNat 64 i * u64 phentsize) m' with
      ⟨ph, hph⟩ | hpanic
    · obtain ⟨m'', hm, -⟩ := loadHeader32_ok hph m'
      cases hi.symm.trans hm
    · exact .inr (congrArg Except.error (Except.error.inj (hi.symm.trans hpanic)))
  | ok m' =>
    refine .inl (records_of_foldlM (fun m i m' hi => ?_) hload)
    rcases loadHeader32_cases elf (u64 phoff + BitVec.ofNat 64 i * u64 phentsize) m with h | hpanic
    · exact h
    · cases hi.symm.trans hpanic

/-! ## The loader -/

/-- The fixed part of a file of 52 bytes can be read. -/
theorem fixed_reads32 (h : 52 ≤ elf.size) : ∃ entry phoff phentsize phnum,
    elf.le32 24 = .ok entry ∧ elf.le32 28 = .ok phoff ∧ elf.le16 42 = .ok phentsize ∧
      elf.le16 44 = .ok phnum := by
  obtain ⟨entry, hentry⟩ := (elf.needs_le32 24).1 (show 28 ≤ elf.size by omega)
  obtain ⟨phoff, hphoff⟩ := (elf.needs_le32 28).1 (show 32 ≤ elf.size by omega)
  obtain ⟨phentsize, hentsize⟩ := (elf.needs_le16 42).1 (show 44 ≤ elf.size by omega)
  obtain ⟨phnum, hnum⟩ := (elf.needs_le16 44).1 (show 46 ≤ elf.size by omega)
  exact ⟨entry, phoff, phentsize, phnum, hentry, hphoff, hentsize, hnum⟩

/-- A file with headers to read comes down to them. -/
theorem loadElfKernel_headers {phoff : U32} {phentsize phnum : U16}
    (h : HasHeaders elf phentsize phnum) (hentry : elf.le32 24 = .ok entry)
    (hphoff : elf.le32 28 = .ok phoff) (cmdline : Slice) (initrd : Option Slice) (s : Cpu) :
    loadElfKernelWithInitrd elf cmdline initrd s =
      (loadHeaders32 elf phoff phentsize phnum s.mem).map fun m =>
        (entry, { (setupProtectedModeWithInitrd cmdline initrd { s with mem := m }).setEip
          entry with halted := false }) := by
  have hstart : ¬ (elf.size < 52 ∨ elf.isElf = false) := by
    have hsize := h.size
    rw [h.magic]
    simp only [Bool.true_eq_false, or_false]
    omega
  have hheaders : ¬ (phnum = 0 ∨ phentsize < 32) := by
    rintro (h0 | hlt)
    · exact h.some h0
    · exact BitVec.not_lt.mpr h.wide hlt
  unfold loadElfKernelWithInitrd
  simp only [if_neg hstart, hentry, hphoff, h.entrySize, h.count, bind, Except.bind, pure,
    Except.pure, if_neg hheaders]
  cases hload : loadHeaders32 elf phoff phentsize phnum s.mem with
  | error e =>
    unfold loadHeaders32 at hload
    rw [hload]
    rfl
  | ok m =>
    unfold loadHeaders32 at hload
    rw [hload]
    rfl

/-- Without headers to read, the file is refused. -/
theorem loadElfKernel_refuses (h : ¬ ∃ phentsize phnum, HasHeaders elf phentsize phnum)
    (cmdline : Slice) (initrd : Option Slice) (s : Cpu) :
    ∃ why, loadElfKernelWithInitrd elf cmdline initrd s = .error (.refused why) := by
  by_cases hstart : elf.size < 52 ∨ elf.isElf = false
  · refine ⟨"not an ELF file", ?_⟩
    unfold loadElfKernelWithInitrd
    rw [if_pos hstart]
    rfl
  have hsize : 52 ≤ elf.size := by
    by_contra hlt
    exact hstart (.inl (by omega))
  have hmagic : elf.isElf = true := by
    by_contra hno
    exact hstart (.inr (Bool.eq_false_iff.mpr hno))
  obtain ⟨entry, phoff, phentsize, phnum, hentry, hphoff, hentsize, hnum⟩ := fixed_reads32 hsize
  have hheaders : phnum = 0 ∨ phentsize < 32 := by
    by_contra hno
    obtain ⟨hnum0, hwide⟩ := not_or.mp hno
    exact h ⟨phentsize, phnum, hsize, hmagic, hentsize, hnum, hnum0, BitVec.not_lt.mp hwide⟩
  refine ⟨"ELF has no program headers", ?_⟩
  unfold loadElfKernelWithInitrd
  simp only [if_neg hstart, hentry, hphoff, hentsize, hnum, bind, Except.bind, if_pos hheaders]
  rfl

/-- What the loader does with any file: one whose fixed header is in order and which holds the first
24 bytes of every program header and all the segments is taken, one whose fixed header is not in
order is refused, and any other makes the program panic. -/
structure Screens32 (elf cmdline : Slice) (initrd : Option Slice) (s : Cpu) : Prop where
  takes : (∃ r, loadElfKernelWithInitrd elf cmdline initrd s = .ok r) ↔
    ∃ entry phs, Elf32 elf entry phs
  refuses : (∃ why, loadElfKernelWithInitrd elf cmdline initrd s = .error (.refused why)) ↔
    ¬ ∃ phentsize phnum, HasHeaders elf phentsize phnum

theorem elf32_screened (elf cmdline : Slice) (initrd : Option Slice) (s : Cpu) :
    Screens32 elf cmdline initrd s := by
  by_cases hhas : ∃ phentsize phnum, HasHeaders elf phentsize phnum
  · obtain ⟨phentsize, phnum, h⟩ := hhas
    obtain ⟨entry, phoff, -, -, hentry, hphoff, -, -⟩ := fixed_reads32 h.size
    have hrun := loadElfKernel_headers h hentry hphoff cmdline initrd s
    rcases loadHeaders32_cases elf phoff phentsize phnum s.mem with ⟨phs, hphs⟩ | hpanic
    · obtain ⟨m', hm, -⟩ := loadHeaders32_ok hphs s.mem
      rw [hm] at hrun
      refine ⟨⟨fun _ => ⟨entry, phs, hentry, phoff, phentsize, phnum, hphoff, h, hphs⟩,
        fun _ => ⟨_, hrun⟩⟩, ⟨fun ⟨why, hwhy⟩ => ?_, fun hno => absurd ⟨_, _, h⟩ hno⟩⟩
      cases hrun.symm.trans hwhy
    · rw [hpanic] at hrun
      refine ⟨⟨fun ⟨r, hr⟩ => ?_, fun ⟨entry', phs, hentry', hheaders⟩ => ?_⟩,
        ⟨fun ⟨why, hwhy⟩ => ?_, fun hno => absurd ⟨_, _, h⟩ hno⟩⟩
      · cases hrun.symm.trans hr
      · obtain ⟨phoff', phentsize', phnum', hphoff', h', hphs⟩ := hheaders
        obtain rfl : phoff' = phoff := Except.ok.inj (hphoff'.symm.trans hphoff)
        obtain rfl : phentsize' = phentsize := Except.ok.inj (h'.entrySize.symm.trans h.entrySize)
        obtain rfl : phnum' = phnum := Except.ok.inj (h'.count.symm.trans h.count)
        obtain ⟨m', hm, -⟩ := loadHeaders32_ok hphs s.mem
        cases hm.symm.trans hpanic
      · cases hrun.symm.trans hwhy
  · obtain ⟨why, hwhy⟩ := loadElfKernel_refuses hhas cmdline initrd s
    refine ⟨⟨fun ⟨r, hr⟩ => ?_, fun ⟨_, _, _, _, _, _, _, h, _⟩ => absurd ⟨_, _, h⟩ hhas⟩,
      ⟨fun _ => hhas, fun _ => ⟨why, hwhy⟩⟩⟩
    cases hr.symm.trans hwhy

/-! ## What the kernel starts with -/

/-- The memory a 32-bit kernel is handed, on top of its segments. -/
def bootStructures32 (cmdline : Slice) (initrd : Option Slice) (m : Memory) : Memory :=
  writeGdt (writeLoaderFields (writeCmdline cmdline (writeE820 (writeScreenInfo
    (placeRamdisk initrd m)))))

def bootBlocks32 (cmdline : Slice) (initrd : Option Slice) (m : Memory) : List (U64 × List U8) :=
  ramdiskBlocks m initrd ++ screenInfoBlocks ++ e820Blocks m.ramSize ++ cmdlineBlocks cmdline ++
    loaderFieldBlocks ++ gdtBlocks

theorem laidOver_bootStructures32 (cmdline : Slice) (initrd : Option Slice) (m : Memory) :
    LaidOver m (bootStructures32 cmdline initrd m) (bootBlocks32 cmdline initrd m) := by
  have h1 := (laidOver_placeRamdisk initrd m).trans (laidOver_writeScreenInfo _)
  have h2 := h1.trans (laidOver_writeE820 _)
  rw [ramSize_congr h1.slot] at h2
  exact ((h2.trans (laidOver_writeCmdline cmdline _)).trans (laidOver_writeLoaderFields _)).trans
    (laidOver_writeGdt _)

theorem bootBlocks32_congr (hslot : ∀ b, m'.slot b = m.slot b) (cmdline : Slice)
    (initrd : Option Slice) : bootBlocks32 cmdline initrd m' = bootBlocks32 cmdline initrd m := by
  rw [bootBlocks32, bootBlocks32, ramdiskBlocks_congr hslot, ramSize_congr hslot]

theorem subperm_layout32 {α : Type} (S E C F G H L : List α) {R : List α} {r : α}
    (hR : R = [] ∨ R = r :: G) :
    (R ++ S ++ E ++ C ++ F ++ L).Subperm (S ++ E ++ F ++ G ++ H ++ L ++ (C ++ [r])) := by
  refine Multiset.coe_le.mp ?_
  have h := Multiset.coe_le.mpr (subperm_layout64 S E C F G H L hR)
  simp only [← Multiset.coe_add] at h ⊢
  rwa [show (R : Multiset α) + S + E + C + F + L = S + E + C + F + R + L by abel]

theorem spans32_subperm (cmdline : Slice) (initrd : Option Slice) (m : Memory) :
    ((bootBlocks32 cmdline initrd m).map span).Subperm
      (layout false (e820Map m.ramSize).length cmdline (ramdiskSpan m initrd)) := by
  rw [bootBlocks32]
  simp only [List.map_append, spans_screenInfo, spans_e820, spans_cmdline, spans_loaderFields,
    spans_ramdisk, spans_gdt, layout, fixedSpans]
  exact subperm_layout32 _ _ _ _ _ _ _ (ramdiskSpans_cases m initrd)

theorem bootBlocks_subset (cmdline : Slice) (initrd : Option Slice) (m : Memory) :
    bootBlocks cmdline initrd m ⊆ bootBlocks32 cmdline initrd m := by
  intro b hb
  simp only [bootBlocks, bootBlocks32, List.mem_append] at hb ⊢
  tauto

/-- Loading a 32-bit file into a machine with paging off leaves its segments in memory, the boot
structures over them, and the machine about to run it in protected mode. -/
theorem elf32_loaded (h : Elf32 elf entry phs) (cmdline : Slice)
    (hpaging : test s.cr0 cr0Pg = false) (hfits : ∀ rd ∈ initrd, RamdiskFits s.mem rd) :
    ∃ t, loadElfKernelWithInitrd elf cmdline initrd s = .ok (entry, t) ∧ Started32 t entry ∧
      Handed false (segments elf phs) cmdline initrd s.mem t.mem := by
  obtain ⟨phoff, phentsize, phnum, hphoff, hhas, hphs⟩ := h.headers
  obtain ⟨m', hm, hlaid⟩ := loadHeaders32_ok hphs s.mem
  have hrun := loadElfKernel_headers hhas h.entry hphoff cmdline initrd s
  rw [hm, Except.map] at hrun
  have hall := hlaid.trans (laidOver_bootStructures32 cmdline initrd m')
  rw [bootBlocks32_congr hlaid.slot] at hall
  have hsetup : setupProtectedModeWithInitrd cmdline initrd { s with mem := m' } =
      enterProtectedMode { s with mem := bootStructures32 cmdline initrd m' } := rfl
  rw [hsetup] at hrun
  generalize bootStructures32 cmdline initrd m' = b at hall hrun
  have hspans := spans32_subperm cmdline initrd s.mem
  obtain ⟨hlow, hend⟩ := ramdiskSpan_low hfits
  have hgdt : ∀ c ∈ gdtBlocks, b.Shows c := fun c hc =>
    shows_of_layout (length_e820Map _) hlow hend hspans hall c (List.mem_append_right _ hc)
  obtain ⟨hstarted, hmem⟩ := started32 (s := { s with mem := b }) entry hpaging hgdt
  refine ⟨_, hrun, hstarted, ?_⟩
  rw [hmem]
  exact handed_of_laidOver hfits hall hspans (bootBlocks_subset cmdline initrd s.mem)

/-- The bytes of a 32-bit file with one segment that are not zero: INC EAX and HLT at the first
megabyte, and four bytes of zeros after them. -/
def tinyBytes32 : List (Nat × U8) :=
  [(0, 0x7F), (1, 0x45), (2, 0x4C), (3, 0x46), (4, 1), (5, 1), (6, 1), (16, 2), (18, 3),
    (26, 0x10), (28, 52), (40, 52), (42, 32), (44, 1), (52, 1), (56, 84), (62, 0x10), (66, 0x10),
    (68, 2), (72, 6), (76, 5), (84, 0x40), (85, 0xF4)]

def tinyElf32 : Slice where
  bytes := ((List.range 86).map fun i => (tinyBytes32.lookup i).getD 0).toArray
  size_lt := by
    rw [List.size_toArray, List.length_map, List.length_range]
    decide

def tinySegment32 : ProgramHeader := ⟨1, 84, 0x100000, 2, 6⟩

theorem tinyElf32_elf32 : Elf32 tinyElf32 0x100000 [tinySegment32] where
  entry := by decide +kernel
  headers := by
    refine ⟨52, 32, 1, by decide +kernel, ⟨by decide +kernel, by decide +kernel, by decide +kernel,
      by decide +kernel, by decide, by decide⟩, .cons ⟨?_, ?_, fun _ _ => ?_⟩ .nil⟩ <;>
      decide +kernel

theorem tinyElf32_loaded : ∃ t, loadElfKernelWithInitrd tinyElf32 noCmdline none
      (Cpu.withRam (2 ^ 21) (by decide) 0) = .ok (0x100000, t) ∧ Started32 t 0x100000 ∧
    Handed false (segments tinyElf32 [tinySegment32]) noCmdline none
      (Cpu.withRam (2 ^ 21) (by decide) 0).mem t.mem :=
  elf32_loaded tinyElf32_elf32 noCmdline (by decide) fun _ h => nomatch h

end Boot
end X86Emu
