import X86Emu.Elf32Load

/-!
# Loading a bzImage

The setup header decides whether an image is taken, and a short one that passes makes the loader
panic. The kernel starts in protected mode with its own setup header in boot_params, but for the
fields a boot loader fills in and the end that the memory map lies over.
-/
namespace X86Emu

open Boot Overlay Stopping Memory

namespace Boot

variable {image cmdline : Slice} {info : KernelInfo} {m m' : Memory} {s : Cpu}

/-! ## The setup header -/

/-- What makes an image a bzImage for the loader. -/
structure BzImage (image : Slice) : Prop where
  size : 0x260 ≤ image.size
  flag : image.le16 bootFlag = .ok 0xAA55
  magic : image.le32 hdrMagic = .ok 0x53726448
  kernel : ∃ sects syssize, image.byte setupSects = .ok sects ∧ image.le32 sysSize = .ok syssize ∧
    (sects.toNat + 1) * 512 + syssize.toNat * 16 ≤ image.size

/-- The header fields the kernel is loaded by. -/
structure Parsed (image : Slice) (info : KernelInfo) : Prop where
  start : image.le32 code32Start = .ok info.code32Start
  flags : image.byte loadFlags = .ok info.loadflags
  inside : info.kernelOffset + info.kernelLen ≤ image.size

/-- An image of 0x260 bytes has every field that is read. -/
theorem header_reads (h : 0x260 ≤ image.size) :
    ∃ flag magic sects syssize start flags reloc align pref init,
    image.le16 bootFlag = .ok flag ∧ image.le32 hdrMagic = .ok magic ∧
    image.byte setupSects = .ok sects ∧ image.le32 sysSize = .ok syssize ∧
    image.le32 code32Start = .ok start ∧ image.byte loadFlags = .ok flags ∧
    image.byte relocatable = .ok reloc ∧ image.le32 kernelAlignment = .ok align ∧
    image.le64 prefAddress = .ok pref ∧ image.le32 initSize = .ok init := by
  obtain ⟨flag, hflag⟩ := (image.needs_le16 bootFlag).1 (show 0x200 ≤ image.size by omega)
  obtain ⟨magic, hmagic⟩ := (image.needs_le32 hdrMagic).1 (show 0x206 ≤ image.size by omega)
  obtain ⟨sects, hsects⟩ := (image.needs_byte setupSects).1 (show 0x1F2 ≤ image.size by omega)
  obtain ⟨syssize, hsys⟩ := (image.needs_le32 sysSize).1 (show 0x1F8 ≤ image.size by omega)
  obtain ⟨start, hstart⟩ := (image.needs_le32 code32Start).1 (show 0x218 ≤ image.size by omega)
  obtain ⟨flags, hflags⟩ := (image.needs_byte loadFlags).1 (show 0x212 ≤ image.size by omega)
  obtain ⟨reloc, hreloc⟩ := (image.needs_byte relocatable).1 (show 0x233 ≤ image.size by omega)
  obtain ⟨align, halign⟩ := (image.needs_le32 kernelAlignment).1 (show 0x232 ≤ image.size by omega)
  obtain ⟨pref, hpref⟩ := (image.needs_le64 prefAddress).1 (show 0x258 ≤ image.size by omega)
  obtain ⟨init, hinit⟩ := (image.needs_le32 initSize).1 (show 0x25C ≤ image.size by omega)
  exact ⟨flag, magic, sects, syssize, start, flags, reloc, align, pref, init, hflag, hmagic, hsects,
    hsys, hstart, hflags, hreloc, halign, hpref, hinit⟩

/-- The parser takes a bzImage, and refuses any other image with an error. -/
theorem parseBzimage_cases (image : Slice) :
    (BzImage image ∧ ∃ info, parseBzimage image = .ok info ∧ Parsed image info) ∨
      (¬ BzImage image ∧ ∃ why, parseBzimage image = .error (.refused why)) := by
  by_cases hsize : image.size < 0x260
  · refine .inr ⟨fun h => ?_, "image too small to contain a setup header", ?_⟩
    · have hle := h.size
      omega
    · unfold parseBzimage
      rw [if_pos hsize]
      rfl
  obtain ⟨flag, magic, sects, syssize, start, flags, reloc, align, pref, init, hflag, hmagic,
    hsects, hsys, hstart, hflags, hreloc, halign, hpref, hinit⟩ := header_reads (not_lt.mp hsize)
  by_cases hf : flag = 0xAA55
  swap
  · refine .inr ⟨fun h => hf (Except.ok.inj (hflag.symm.trans h.flag)),
      "bad boot flag 0x" ++ hex4 flag ++ " (not a bzImage?)", ?_⟩
    unfold parseBzimage
    simp only [if_neg hsize, hflag, bind, Except.bind, ne_eq, hf, not_false_eq_true, if_true]
    rfl
  by_cases hm : magic = 0x53726448
  swap
  · refine .inr ⟨fun h => hm (Except.ok.inj (hmagic.symm.trans h.magic)),
      "bad setup header magic (not 'HdrS')", ?_⟩
    unfold parseBzimage
    simp only [if_neg hsize, hflag, hmagic, bind, Except.bind, pure, Except.pure, ne_eq, hf, hm,
      not_true_eq_false, not_false_eq_true, if_true, if_false]
    rfl
  by_cases hk : image.size < (sects.toNat + 1) * 512 + syssize.toNat * 16
  · refine .inr ⟨fun h => ?_, "image too small for kernel (need " ++
      toString (syssize.toNat * 16) ++ " bytes at offset " ++ toString ((sects.toNat + 1) * 512) ++
      ", have " ++ toString image.size ++ ")", ?_⟩
    · obtain ⟨sects', syssize', hsects', hsys', hle⟩ := h.kernel
      obtain rfl : sects' = sects := Except.ok.inj (hsects'.symm.trans hsects)
      obtain rfl : syssize' = syssize := Except.ok.inj (hsys'.symm.trans hsys)
      omega
    · unfold parseBzimage
      simp only [if_neg hsize, hflag, hmagic, hsects, hsys, hstart, hflags, hreloc, halign, hpref,
        hinit, bind, Except.bind, pure, Except.pure, ne_eq, hf, hm, not_true_eq_false, if_false,
        if_pos hk]
      rfl
  · refine .inl ⟨⟨not_lt.mp hsize, hf ▸ hflag, hm ▸ hmagic, sects, syssize, hsects, hsys,
      not_lt.mp hk⟩, ⟨sects.toNat, syssize, start, flags, reloc != 0, align, pref, init,
      (sects.toNat + 1) * 512, syssize.toNat * 16⟩, ?_, ?_⟩
    · unfold parseBzimage
      simp only [if_neg hsize, hflag, hmagic, hsects, hsys, hstart, hflags, hreloc, halign, hpref,
        hinit, bind, Except.bind, pure, Except.pure, ne_eq, hf, hm, not_true_eq_false, if_false,
        if_neg hk]
    · exact ⟨hstart, hflags, not_lt.mp hk⟩

/-! ## The loader -/

/-- The stores of the loader, kernel and header apart. -/
def bzStructures (start : U32) (cmdline : Slice) (m : Memory) : Memory :=
  writeGdt (writeE820 (writeCmdline cmdline (fixSetupHeader start m)))

/-- The kernel of an image that parses is copied. -/
theorem kernel_copied (h : Parsed image info) (m : Memory) :
    ∃ m', copyIn image (BitVec.ofNat 64 info.kernelOffset) (u64 info.code32Start)
        (BitVec.ofNat 64 info.kernelLen) m = .ok m' ∧
      LaidOver m m' [(u64 info.code32Start, image.run info.kernelOffset info.kernelLen)] := by
  have hsize := image.size_lt'
  have hin := h.inside
  have hoff : (BitVec.ofNat 64 info.kernelOffset).toNat = info.kernelOffset := by
    rw [BitVec.toNat_ofNat]
    omega
  have hlen : (BitVec.ofNat 64 info.kernelLen).toNat = info.kernelLen := by
    rw [BitVec.toNat_ofNat]
    omega
  have hholds : image.Holds (BitVec.ofNat 64 info.kernelOffset) (BitVec.ofNat 64 info.kernelLen) :=
    fun _ => by rwa [hoff, hlen]
  have hcopy := copyIn_ok hholds (u64 info.code32Start) m
  rwa [hoff, hlen] at hcopy

/-- The setup header has 0xEC bytes, from 0x1F1 on. -/
theorem header_guarded (image : Slice) (m : Memory) :
    Guarded (0x2DD ≤ image.size) .panicked (copySetupHeader image m) :=
  (copyIn_guarded image setupSects (u64 bootParamsAddr + bpHdr) 0xEC m).congr
    ⟨fun h => h (by decide), fun h _ => h⟩

theorem header_copied (h : 0x2DD ≤ image.size) (m : Memory) :
    ∃ m', copySetupHeader image m = .ok m' ∧
      LaidOver m m' [(u64 bootParamsAddr + bpHdr, image.run 0x1F1 0xEC)] :=
  copyIn_ok (show image.Holds setupSects 0xEC from fun _ => h) (u64 bootParamsAddr + bpHdr) m

/-- A parsed image goes on to its header: a short one panics there. -/
theorem loadKernel_cases (hparse : parseBzimage image = .ok info) (h : Parsed image info)
    (cmdline : Slice) (s : Cpu) :
    (image.size < 0x2DD ∧ loadKernel image cmdline s = .error .panicked) ∨
      0x2DD ≤ image.size ∧ ∃ m', LaidOver s.mem m'
          [(u64 info.code32Start, image.run info.kernelOffset info.kernelLen),
            (u64 bootParamsAddr + bpHdr, image.run 0x1F1 0xEC)] ∧
        loadKernel image cmdline s = .ok (info, { (enterProtectedMode { s with
          mem := bzStructures info.code32Start cmdline m' }).setEip info.code32Start with
            halted := false }) := by
  obtain ⟨m₁, hcopy, hlaid₁⟩ := kernel_copied h s.mem
  by_cases hsize : 0x2DD ≤ image.size
  · obtain ⟨m₂, hheader, hlaid₂⟩ := header_copied hsize m₁
    refine .inr ⟨hsize, m₂, hlaid₁.trans hlaid₂, ?_⟩
    unfold loadKernel
    simp only [hparse, hcopy, hheader, bind, Except.bind, pure, Except.pure]
    rfl
  · refine .inl ⟨not_le.mp hsize, ?_⟩
    have hpanic := (header_guarded image m₁).2 hsize
    unfold loadKernel
    simp only [hparse, hcopy, hpanic, bind, Except.bind]

/-- What the loader does with any image: a bzImage with a whole setup header is taken, one that ends
within it makes the program panic, and any other image is refused. -/
structure ScreensBz (image cmdline : Slice) (s : Cpu) : Prop where
  takes : (∃ r, loadKernel image cmdline s = .ok r) ↔ BzImage image ∧ 0x2DD ≤ image.size
  panics : loadKernel image cmdline s = .error .panicked ↔ BzImage image ∧ image.size < 0x2DD
  refuses : (∃ why, loadKernel image cmdline s = .error (.refused why)) ↔ ¬ BzImage image

theorem bzImage_screened (image cmdline : Slice) (s : Cpu) : ScreensBz image cmdline s := by
  rcases parseBzimage_cases image with ⟨hbz, info, hparse, h⟩ | ⟨hbz, why, hwhy⟩
  · rcases loadKernel_cases hparse h cmdline s with ⟨hsize, hrun⟩ | ⟨hsize, m', -, hrun⟩
    · refine ⟨⟨fun ⟨r, hr⟩ => ?_, fun h => absurd hsize (not_lt.mpr h.2)⟩,
        ⟨fun _ => ⟨hbz, hsize⟩, fun _ => hrun⟩, ⟨fun ⟨why, hwhy⟩ => ?_, fun h => absurd hbz h⟩⟩
      · cases hr.symm.trans hrun
      · cases hwhy.symm.trans hrun
    · refine ⟨⟨fun _ => ⟨hbz, hsize⟩, fun _ => ⟨_, hrun⟩⟩, ⟨fun hpanic => ?_, fun h =>
        absurd hsize (not_le.mpr h.2)⟩, ⟨fun ⟨why, hwhy⟩ => ?_, fun h => absurd hbz h⟩⟩
      · cases hpanic.symm.trans hrun
      · cases hwhy.symm.trans hrun
  · have hrun : loadKernel image cmdline s = .error (.refused why) := by
      unfold loadKernel
      rw [hwhy]
      rfl
    refine ⟨⟨fun ⟨r, hr⟩ => ?_, fun h => absurd h.1 hbz⟩, ⟨fun hpanic => ?_,
      fun h => absurd h.1 hbz⟩, ⟨fun _ => hbz, fun _ => ⟨why, hrun⟩⟩⟩
    · cases hr.symm.trans hrun
    · cases hpanic.symm.trans hrun

/-! ## What the kernel starts with -/

/-- The fields of the setup header the loader fills in. -/
def fixBlocks (start : U32) (flags : U8) : List (U64 × List U8) :=
  [(hdrField typeOfLoader, [0xFF]), (hdrField loadFlags, [flags]),
    wordBlock (hdrField code32Start) 4 start, wordBlock (hdrField cmdLinePtr) 4 cmdlineAddr]

theorem laidOver_fixSetupHeader (start : U32) (m : Memory) :
    LaidOver m (fixSetupHeader start m)
      (fixBlocks start (m.readU8 (hdrField loadFlags) ||| 1)) := by
  have hread : (m.writeU8 (hdrField typeOfLoader) 0xFF).readU8 (hdrField loadFlags) =
      m.readU8 (hdrField loadFlags) := by
    rw [readU8_writeU8, if_neg fun h => absurd h.1 (by decide)]
  unfold fixSetupHeader
  extract_lets m₁ m₂ m₃
  have h := (laidOver_writeU8 m (hdrField typeOfLoader) 0xFF).writeU8 (hdrField loadFlags)
    (m₁.readU8 (hdrField loadFlags) ||| 1)
  have h := (h.writeU32 (a := hdrField code32Start) start (by decide)).writeU32
    (a := hdrField cmdLinePtr) cmdlineAddr (by decide)
  rw [← hread]
  exact h

def bzBlocks (start : U32) (flags : U8) (cmdline : Slice) (ram : Nat) : List (U64 × List U8) :=
  fixBlocks start flags ++ cmdlineBlocks cmdline ++ e820Blocks ram ++ gdtBlocks

theorem laidOver_bzStructures (start : U32) (cmdline : Slice) (m : Memory) :
    LaidOver m (bzStructures start cmdline m)
      (bzBlocks start (m.readU8 (hdrField loadFlags) ||| 1) cmdline m.ramSize) := by
  have h1 := (laidOver_fixSetupHeader start m).trans (laidOver_writeCmdline cmdline _)
  have h2 := h1.trans (laidOver_writeE820 _)
  rw [ramSize_congr h1.slot] at h2
  exact h2.trans (laidOver_writeGdt _)

def fixSpans : List (Nat × Nat) := [(0x90210, 1), (0x90211, 1), (0x90214, 4), (0x90228, 4)]

theorem spans_fix (start : U32) (flags : U8) : (fixBlocks start flags).map span = fixSpans := by
  have hbyte (a : U64) (v : U8) : span (a, [v]) = (a.toNat, 1) := rfl
  simp only [fixBlocks, List.map_cons, List.map_nil, span_wordBlock, hbyte]
  decide

theorem bz_subperm (start : U32) (flags : U8) (cmdline : Slice) (ram : Nat) (rd : Nat × Nat) :
    ((bzBlocks start flags cmdline ram).map span).Subperm
      (layout false (e820Map ram).length cmdline rd) := by
  have hfix : (fixSpans : Multiset (Nat × Nat)) = (fieldSpans : Multiset (Nat × Nat)) +
      (headerSpans : Multiset (Nat × Nat)) := by decide
  rw [bzBlocks]
  simp only [List.map_append, spans_fix, spans_cmdline, spans_e820, spans_gdt, layout, fixedSpans]
  refine Multiset.coe_le.mp (Multiset.le_iff_exists_add.mpr
    ⟨(screenInfoSpans : Multiset (Nat × Nat)) + (ramdiskFieldSpans : Multiset (Nat × Nat)) + {rd},
      ?_⟩)
  simp only [← Multiset.coe_add, Multiset.coe_singleton, hfix, lowSpans]
  abel

/-- A byte of the copied setup header that nothing is stored over: short of the memory map, and none
of the fields the loader fills in. -/
def Unpatched (i : Nat) : Prop :=
  i < 0xDF ∧ i ≠ 0x1F ∧ i ≠ 0x20 ∧ ¬ (0x23 ≤ i ∧ i < 0x27) ∧ ¬ (0x37 ≤ i ∧ i < 0x3B)

/-- No ramdisk is loaded with a bzImage. -/
def noRamdisk : Nat × Nat := (2 ^ 20, 0)

/-- What a bzImage's kernel finds in memory: itself, aside of what the loader keeps, its setup
header with the loader's fields, the memory map and the command line. -/
structure HandedBz (image cmdline : Slice) (info : KernelInfo) (m m' : Memory) : Prop where
  kernel : ∀ a, Aside false cmdline noRamdisk a → m.backed a → m'.readU8 a =
    (Overlay.top [(u64 info.code32Start, image.run info.kernelOffset info.kernelLen)] a).getD
      (m.readU8 a)
  header : ∀ i, Unpatched i → m'.readU8 (u64 bootParamsAddr + bpHdr + BitVec.ofNat 64 i) =
    image.bytes.getD (0x1F1 + i) 0
  loader : m'.readU8 (hdrField typeOfLoader) = 0xFF
  flags : m'.readU8 (hdrField loadFlags) = info.loadflags ||| 1
  start : m'.readU32 (hdrField code32Start) = info.code32Start
  memoryMap : E820Handed m' m.ramSize
  cmdline : CmdlineHanded m' cmdline

theorem hdrByte_toNat {i : Nat} (hi : i < 0xEC) :
    (u64 bootParamsAddr + bpHdr + BitVec.ofNat 64 i).toNat = 0x901F1 + i := by
  rw [BitVec.toNat_add, BitVec.toNat_ofNat,
    show (u64 bootParamsAddr + bpHdr).toNat = 0x901F1 from rfl]
  omega

theorem e820Spans_outside {n : Nat} (hn : n ≤ 6) :
    ∀ x ∈ e820Spans n, x.1 + x.2 ≤ 0x901F1 ∨ 0x902D0 ≤ x.1 := by
  interval_cases n <;> decide +kernel

/-- The structures stored after the header leave its untouched bytes. -/
theorem unpatched_missed {i : Nat} (hi : Unpatched i) {start : U32} {flags : U8} {ram : Nat} :
    ∀ b ∈ bzBlocks start flags cmdline ram,
      ¬ Covers b (u64 bootParamsAddr + bpHdr + BitVec.ofNat 64 i) := by
  unfold Unpatched at hi
  have hlen : cmdlineLen cmdline ≤ 1023 := Nat.min_le_right _ _
  have hat := hdrByte_toNat (i := i) (by omega)
  intro b hb hcover
  have hmem : span b ∈ (bzBlocks start flags cmdline ram).map span := List.mem_map_of_mem hb
  rw [bzBlocks] at hmem
  simp only [List.map_append, spans_fix, spans_cmdline, spans_e820, spans_gdt,
    List.mem_append] at hmem
  have hout : (span b).1 + (span b).2 ≤ 2 ^ 64 ∧
      ((span b).1 + (span b).2 ≤ 0x901F1 + i ∨ 0x901F1 + i < (span b).1) := by
    rcases hmem with ((hx | hx) | hx) | hx
    · simp only [fixSpans, List.mem_cons, List.not_mem_nil, or_false] at hx
      rcases hx with hx | hx | hx | hx <;> rw [hx] <;> omega
    · simp only [cmdlineSpans, List.mem_cons, List.not_mem_nil, or_false] at hx
      rcases hx with hx | hx <;> rw [hx] <;> omega
    · have hwithin := (fixedSpans_clear false (length_e820Map ram)).2 (span b) (by
        simp only [fixedSpans, List.mem_append]
        tauto)
      have hx := e820Spans_outside (length_e820Map ram) _ hx
      have hlow : lowRegion false = (0x1000, 24) := rfl
      rw [hlow] at hwithin
      unfold Within at hwithin
      omega
    · simp only [gdtSpans, List.mem_cons, List.not_mem_nil, or_false] at hx
      rcases hx with hx | hx | hx <;> rw [hx] <;> omega
  have hin := (covers_iff hout.1).mp hcover
  rw [hat] at hin
  omega

/-- The copied header is there before the loader's own stores. -/
theorem header_shown {k : U64 × List U8} (hsize : 0x2DD ≤ image.size)
    (hl : LaidOver m m' [k, (u64 bootParamsAddr + bpHdr, image.run 0x1F1 0xEC)]) {i : Nat}
    (hi : i < 0xEC) : m'.readU8 (u64 bootParamsAddr + bpHdr + BitVec.ofNat 64 i) =
      image.bytes.getD (0x1F1 + i) 0 := by
  have hrun := Slice.run_eq image (show 0x1F1 + 0xEC ≤ image.size by omega)
  have hlen : (image.run 0x1F1 0xEC).length = 0xEC := by
    rw [hrun, List.length_map, List.length_range]
  have hshows := shows_of_laidOver
    (show LaidOver m m' ([k] ++ [(u64 bootParamsAddr + bpHdr, image.run 0x1F1 0xEC)]) from hl)
    (fun b hb => by
      obtain rfl := List.mem_singleton.mp hb
      show (u64 bootParamsAddr + bpHdr).toNat + (image.run 0x1F1 0xEC).length ≤ 2 ^ 64
      rw [hlen]
      decide) (List.pairwise_singleton _ _) List.mem_cons_self
    (fun j hj => m.backed_of_low (show (u64 bootParamsAddr + bpHdr).toNat + 0xEC ≤ 2 ^ 20 by decide)
      (hlen ▸ hj))
  rw [hrun] at hshows
  have hbyte := hshows i (by rwa [List.length_map, List.length_range])
  simpa only [List.get_eq_getElem, List.getElem_map, List.getElem_range] using hbyte

/-- Loading a bzImage with a whole setup header into a machine with paging off leaves the kernel in
memory, the boot structures over it, and the machine about to run it in protected mode. -/
theorem bzImage_loaded (hbz : BzImage image) (hsize : 0x2DD ≤ image.size) (cmdline : Slice)
    (hpaging : test s.cr0 cr0Pg = false) :
    ∃ info t, parseBzimage image = .ok info ∧ loadKernel image cmdline s = .ok (info, t) ∧
      Started32 t info.code32Start ∧ HandedBz image cmdline info s.mem t.mem := by
  rcases parseBzimage_cases image with ⟨-, info, hparse, h⟩ | ⟨hno, -⟩
  swap
  · exact absurd hbz hno
  rcases loadKernel_cases hparse h cmdline s with ⟨hshort, -⟩ | ⟨-, m', hlaid, hrun⟩
  · omega
  -- the flags byte the loader reads back is the image's
  have hflags : m'.readU8 (hdrField loadFlags) = info.loadflags := by
    refine (header_shown hsize hlaid (show 0x20 < 0xEC by decide)).trans ?_
    exact Except.ok.inj ((Slice.byte_ok (show loadFlags.toNat < image.size by
      show 0x211 < image.size
      omega)).symm.trans h.flags)
  have hstructures := laidOver_bzStructures info.code32Start cmdline m'
  rw [hflags, ramSize_congr hlaid.slot] at hstructures
  have hall := hlaid.trans hstructures
  generalize bzStructures info.code32Start cmdline m' = b at hall hrun hstructures
  have hlen := length_e820Map s.mem.ramSize
  have hspans := bz_subperm info.code32Start (info.loadflags ||| 1) cmdline s.mem.ramSize noRamdisk
  have hmib : noRamdisk.1 + noRamdisk.2 ≤ s.mem.lowSize := by
    have hram := s.mem.one_mib_le
    have hlow := s.mem.lowSize_eq
    have hhole : mmioHoleStart = 0xC0000000 := rfl
    show 2 ^ 20 + 0 ≤ s.mem.lowSize
    omega
  have hshows := shows_of_layout hlen (show 2 ^ 20 ≤ noRamdisk.1 from le_rfl) hmib hspans hall
  have hshown (c : U64 × List U8)
      (hc : c ∈ bzBlocks info.code32Start (info.loadflags ||| 1) cmdline s.mem.ramSize) :
      b.Shows c := hshows c hc
  simp only [bzBlocks, List.mem_append] at hshown
  have hfix (c : U64 × List U8) (hc : c ∈ fixBlocks info.code32Start (info.loadflags ||| 1)) :
      b.Shows c := hshown c (by tauto)
  obtain ⟨hstarted, hmem⟩ := started32 (s := { s with mem := b }) info.code32Start hpaging
    fun c hc => hshown c (.inr hc)
  refine ⟨info, _, hparse, hrun, hstarted, ?_⟩
  rw [hmem]
  refine ⟨fun a ha hback => ?_, fun i hi => ?_, readU8_of_shows (hfix _ List.mem_cons_self),
    readU8_of_shows (hfix _ (List.mem_cons_of_mem _ List.mem_cons_self)),
    readU32_of_shows (hfix _ (by simp [fixBlocks])) (by decide),
    e820Handed fun c hc => hshown c (by tauto),
    cmdlineHanded (fun c hc => hshown c (by tauto)) (hfix _ (by simp [fixBlocks]))⟩
  · have hkernel := read_aside hlen (by decide) hspans hall ha hback
    have haside := ha _ List.mem_cons_self
    have hmiss : ∀ c ∈ [(u64 bootParamsAddr + bpHdr, image.run 0x1F1 0xEC)], ¬ Covers c a := by
      intro c hc hcover
      obtain rfl := List.mem_singleton.mp hc
      have hrunlen : (image.run 0x1F1 0xEC).length ≤ 0xEC := List.length_take_le _ _
      have hin := (covers_iff (show (u64 bootParamsAddr + bpHdr).toNat +
        (image.run 0x1F1 0xEC).length ≤ 2 ^ 64 by
          rw [show (u64 bootParamsAddr + bpHdr).toNat = 0x901F1 from rfl]
          omega)).mp hcover
      simp only [span, show (u64 bootParamsAddr + bpHdr).toNat = 0x901F1 from rfl] at hin
      omega
    rw [hkernel, show ([(u64 info.code32Start, image.run info.kernelOffset info.kernelLen),
      (u64 bootParamsAddr + bpHdr, image.run 0x1F1 0xEC)] : List (U64 × List U8)) =
      [(u64 info.code32Start, image.run info.kernelOffset info.kernelLen)] ++
        [(u64 bootParamsAddr + bpHdr, image.run 0x1F1 0xEC)] from rfl, top_append,
      top_eq_none.mpr hmiss, Option.none_or]
  · rw [hstructures.laid.missed (unpatched_missed hi)]
    unfold Unpatched at hi
    exact header_shown hsize hlaid (by omega)

/-- The bytes of an image that are not zero: one setup sector and a kernel of 16 bytes, HLT first,
for the first megabyte. -/
def tinyBzBytes : List (Nat × U8) :=
  [(0x1F1, 1), (0x1F4, 1), (0x1FE, 0x55), (0x1FF, 0xAA), (0x202, 0x48), (0x203, 0x64),
    (0x204, 0x72), (0x205, 0x53), (0x211, 1), (0x216, 0x10), (0x400, 0xF4)]

def tinyBzImage : Slice where
  bytes := ((List.range 0x410).map fun i => (tinyBzBytes.lookup i).getD 0).toArray
  size_lt := by
    rw [List.size_toArray, List.length_map, List.length_range]
    decide

theorem tinyBzImage_bzImage : BzImage tinyBzImage where
  size := by decide +kernel
  flag := by decide +kernel
  magic := by decide +kernel
  kernel := ⟨1, 1, by decide +kernel, by decide +kernel, by decide +kernel⟩

theorem tinyBzImage_loaded : ∃ info t, parseBzimage tinyBzImage = .ok info ∧
    loadKernel tinyBzImage noCmdline (Cpu.withRam (2 ^ 21) (by decide) 0) = .ok (info, t) ∧
    Started32 t info.code32Start ∧
    HandedBz tinyBzImage noCmdline info (Cpu.withRam (2 ^ 21) (by decide) 0).mem t.mem :=
  bzImage_loaded tinyBzImage_bzImage (by decide +kernel) noCmdline (by decide)

end Boot
end X86Emu
