import X86Emu.LoadedMemory

/-!
# The boot structures

What the loaders leave for a kernel in boot_params and beside it. None of it lies over the rest, so
all of it is there when the kernel starts.
-/
namespace X86Emu

open Boot Overlay Memory

namespace Memory

variable {m m' : Memory} {b : U64 × List U8} {bs cs : List (U64 × List U8)} {a : U64}

/-- The block is there to be read. -/
def Shows (m : Memory) (b : U64 × List U8) : Prop :=
  ∀ i (h : i < b.2.length), m.readU8 (b.1 + BitVec.ofNat 64 i) = b.2.get ⟨i, h⟩

/-- Of blocks that do not meet, the last ones laid all show. -/
theorem shows_of_laidOver (hl : LaidOver m m' (cs ++ bs)) (hfit : Fit bs)
    (hclear : (bs.map span).Pairwise Clear) (hb : b ∈ bs)
    (hback : ∀ i < b.2.length, m.backed (b.1 + BitVec.ofNat 64 i)) : m'.Shows b := by
  intro i hi
  have hend : b.1.toNat + b.2.length ≤ 2 ^ 64 := hfit b hb
  have hsub : (b.1 + BitVec.ofNat 64 i - b.1).toNat = i := by
    rw [BitVec.add_comm, BitVec.add_sub_cancel, BitVec.toNat_ofNat]
    omega
  have hcover : Covers b (b.1 + BitVec.ofNat 64 i) := by
    rw [Covers, hsub]
    exact hi
  rw [hl.laid.all_shown hfit hclear hb (hback i hi) hcover]
  exact congrArg b.2.get (Fin.ext hsub)

/-- Memory below the first megabyte is always there. -/
theorem backed_of_low (m : Memory) {n i : Nat} (h : a.toNat + n ≤ 2 ^ 20) (hi : i < n) :
    m.backed (a + BitVec.ofNat 64 i) := by
  refine backed_low ?_
  rw [BitVec.toNat_add, BitVec.toNat_ofNat]
  omega

theorem readU8_of_shows {v : U8} (h : m.Shows (a, [v])) : m.readU8 a = v := by
  have h0 := h 0 (by exact Nat.one_pos)
  rwa [show (a, [v]).1 + BitVec.ofNat 64 0 = a from BitVec.add_zero a] at h0

theorem readByte_of_shows {k n i : Nat} {v : BitVec k} (h : m.Shows (wordBlock a n v))
    (hi : i < n) : m.readU8 (a + BitVec.ofNat 64 i) = byteOf v i := by
  have hlen : (wordBlock a n v).2.length = n := by
    rw [wordBlock, List.length_map, List.length_range]
  have hin : i < (wordBlock a n v).2.length := by rwa [hlen]
  refine (h i hin).trans ?_
  simp only [wordBlock, List.get_eq_getElem, List.getElem_map, List.getElem_range]

theorem readU32_of_shows {v : U32} (h : m.Shows (wordBlock a 4 v)) (ha : a.toNat + 4 ≤ 0xA0000) :
    m.readU32 a = v :=
  (block_conventional m ha).1.readU32_of_bytes fun _ => readByte_of_shows h

theorem readU64_of_shows {v : U64} (h : m.Shows (wordBlock a 8 v)) (ha : a.toNat + 8 ≤ 0xA0000) :
    m.readU64 a = v :=
  (block_conventional m ha).1.readU64_of_bytes fun _ => readByte_of_shows h

theorem span_wordBlock {k : Nat} (a : U64) (n : Nat) (v : BitVec k) :
    span (wordBlock a n v) = (a.toNat, n) := by
  rw [span, wordBlock, List.length_map, List.length_range]

/-- Stores made one after another lay their blocks one over another. -/
theorem LaidOver.foldl {ι : Type} {f : Memory → ι → Memory} {g : ι → List (U64 × List U8)} :
    ∀ {l : List ι}, (∀ i ∈ l, ∀ m, LaidOver m (f m i) (g i)) → ∀ m,
      LaidOver m (l.foldl f m) (l.flatMap g)
  | [], _, m => .refl m
  | i :: l, h, m => by
    rw [List.flatMap_cons]
    exact (h i List.mem_cons_self m).trans
      (LaidOver.foldl (fun j hj => h j (List.mem_cons_of_mem i hj)) (f m i))

end Memory

namespace Boot

/-! ## The blocks -/

def gdtBlocks : List (U64 × List U8) :=
  [wordBlock (u64 gdtAddr) 8 (0 : U64), wordBlock (u64 gdtAddr + 8) 8 (0x00CF9A000000FFFF : U64),
    wordBlock (u64 gdtAddr + 16) 8 (0x00CF92000000FFFF : U64)]

def screenInfoBlocks : List (U64 × List U8) :=
  let bp := u64 bootParamsAddr
  [(bp + bpOrigX, [0]), (bp + bpOrigY, [0]), wordBlock (bp + bpOrigVideoPage) 2 (0 : U16),
    (bp + bpOrigVideoMode, [videoModeColorText]),
    (bp + bpOrigVideoCols, [BitVec.ofNat 8 textCols]),
    wordBlock (bp + bpOrigVideoEgaBx) 2 (3 : U16),
    (bp + bpOrigVideoLines, [BitVec.ofNat 8 textRows]),
    (bp + bpOrigVideoIsvga, [videoTypeVgac]), wordBlock (bp + bpOrigVideoPoints) 2 (16 : U16)]

def e820EntryBlocks (e : (Nat × Nat × U32) × Nat) : List (U64 × List U8) :=
  [wordBlock (e820Slot e.2) 8 (BitVec.ofNat 64 e.1.1),
    wordBlock (e820Slot e.2 + 8) 8 (BitVec.ofNat 64 e.1.2.1),
    wordBlock (e820Slot e.2 + 16) 4 e.1.2.2]

/-- The count of extended memory in KiB. -/
def extKb (ram : Nat) : U32 := BitVec.ofNat 32 ((min ram mmioHoleStart - 0x100000) / 1024)

def e820Blocks (ram : Nat) : List (U64 × List U8) :=
  (e820Map ram).zipIdx.flatMap e820EntryBlocks ++
    [(u64 bootParamsAddr + bpE820Entries, [BitVec.ofNat 8 (e820Map ram).length]),
      wordBlock (u64 bootParamsAddr + bpAltMemK) 4 (extKb ram)]

def cmdlineBlocks (cmdline : Slice) : List (U64 × List U8) :=
  [(u64 cmdlineAddr, cmdline.run 0 (cmdlineLen cmdline)),
    (u64 cmdlineAddr + BitVec.ofNat 64 (cmdlineLen cmdline), [0])]

def loaderFieldBlocks : List (U64 × List U8) :=
  [wordBlock (hdrField cmdLinePtr) 4 cmdlineAddr, (hdrField typeOfLoader, [0xFF])]

/-- The fields a ramdisk is recorded in. -/
def ramdiskFieldBlocks (addr len : U32) : List (U64 × List U8) :=
  [wordBlock (hdrField ramdiskImage) 4 addr, wordBlock (hdrField ramdiskSize) 4 len]

variable {m : Memory}

theorem laidOver_writeGdt (m : Memory) : LaidOver m (writeGdt m) gdtBlocks := by
  unfold writeGdt
  exact ((laidOver_writeU64 m 0 (by decide)).writeU64 _ (by decide)).writeU64 _ (by decide)

theorem laidOver_writeScreenInfo (m : Memory) :
    LaidOver m (writeScreenInfo m) screenInfoBlocks := by
  unfold writeScreenInfo
  extract_lets
  have h := laidOver_writeU8 m (u64 bootParamsAddr + bpOrigX) 0
  have h := h.writeU8 (u64 bootParamsAddr + bpOrigY) 0
  have h := h.writeU16 (a := u64 bootParamsAddr + bpOrigVideoPage) 0 (by decide)
  have h := h.writeU8 (u64 bootParamsAddr + bpOrigVideoMode) videoModeColorText
  have h := h.writeU8 (u64 bootParamsAddr + bpOrigVideoCols) (BitVec.ofNat 8 textCols)
  have h := h.writeU16 (a := u64 bootParamsAddr + bpOrigVideoEgaBx) 3 (by decide)
  have h := h.writeU8 (u64 bootParamsAddr + bpOrigVideoLines) (BitVec.ofNat 8 textRows)
  have h := h.writeU8 (u64 bootParamsAddr + bpOrigVideoIsvga) videoTypeVgac
  have h := h.writeU16 (a := u64 bootParamsAddr + bpOrigVideoPoints) 16 (by decide)
  exact h.of_eq (by simp only [List.cons_append, List.nil_append, screenInfoBlocks])

theorem length_e820Map (ram : Nat) : (e820Map ram).length ≤ 6 := by
  unfold e820Map
  dsimp only
  split <;> split <;> simp

theorem e820Slot_toNat {i : Nat} (hi : i < 6) : (e820Slot i).toNat = 0x902D0 + 20 * i := by
  interval_cases i <;> rfl

theorem e820Slot_le {i : Nat} (hi : i < 6) : (e820Slot i).toNat + 20 ≤ 0xA0000 := by
  rw [e820Slot_toNat hi]
  omega

theorem laidOver_writeE820Entry {e : (Nat × Nat × U32) × Nat} (he : e.2 < 6) (m : Memory) :
    LaidOver m (writeE820Entry (e820Slot e.2) e.1 m) (e820EntryBlocks e) := by
  have h := e820Slot_le he
  have hat (k : Nat) (hk : k < 20) : (e820Slot e.2 + BitVec.ofNat 64 k).toNat =
      (e820Slot e.2).toNat + k := by
    rw [BitVec.toNat_add, BitVec.toNat_ofNat]
    omega
  have hat8 : (e820Slot e.2 + 8).toNat = _ := hat 8 (by decide)
  have hat16 : (e820Slot e.2 + 16).toNat = _ := hat 16 (by decide)
  unfold writeE820Entry
  exact ((laidOver_writeU64 m _ (by omega)).writeU64 _ (by omega)).writeU32 _ (by omega)

theorem laidOver_writeE820 (m : Memory) : LaidOver m (writeE820 m) (e820Blocks m.ramSize) := by
  have hlen := length_e820Map m.ramSize
  have htable := LaidOver.foldl (f := fun m e => writeE820Entry (e820Slot e.2) e.1 m)
    (g := e820EntryBlocks) (l := (e820Map m.ramSize).zipIdx) (fun e he m' => by
      have hlt := List.snd_lt_of_mem_zipIdx he
      exact laidOver_writeE820Entry (by omega) m') m
  unfold writeE820
  extract_lets
  have h := htable.writeU8 (u64 bootParamsAddr + bpE820Entries)
    (BitVec.ofNat 8 (e820Map m.ramSize).length)
  have h := h.writeU32 (a := u64 bootParamsAddr + bpAltMemK) (extKb m.ramSize) (by decide)
  exact h.of_eq (List.append_assoc ..)

theorem laidOver_writeCmdline (cmdline : Slice) (m : Memory) :
    LaidOver m (writeCmdline cmdline m) (cmdlineBlocks cmdline) := by
  have hlen : cmdlineLen cmdline ≤ 1023 := Nat.min_le_right _ _
  have hrun := Slice.run_eq cmdline (show 0 + cmdlineLen cmdline ≤ cmdline.size by
    rw [Nat.zero_add]
    exact Nat.min_le_left _ _)
  simp only [Nat.zero_add] at hrun
  have hline := LaidOver.of_stored (m.stored_bytes (u64 cmdlineAddr)
    (fun i => cmdline.bytes.getD i 0) (cmdlineLen cmdline) (by omega))
  rw [← hrun] at hline
  exact hline.writeU8 _ _

theorem laidOver_writeLoaderFields (m : Memory) :
    LaidOver m (writeLoaderFields m) loaderFieldBlocks := by
  unfold writeLoaderFields
  exact (laidOver_writeU32 (a := hdrField cmdLinePtr) m _ (by decide)).writeU8 _ _

/-- The blocks of a ramdisk, and of the fields that record it. -/
def ramdiskBlocks (m : Memory) : Option Slice → List (U64 × List U8)
  | none => []
  | some rd => (u64 (ramdiskAddr m rd), rd.bytes.toList) ::
      ramdiskFieldBlocks (ramdiskAddr m rd) (u32 rd.len)

theorem laidOver_placeRamdisk (initrd : Option Slice) (m : Memory) :
    LaidOver m (placeRamdisk initrd m) (ramdiskBlocks m initrd) := by
  cases initrd with
  | none => exact .refl m
  | some rd =>
    exact ((laidOver_place rd _ m).writeU32 (a := hdrField ramdiskImage) _ (by decide)).writeU32
      (a := hdrField ramdiskSize) _ (by decide)

/-! ## Where the blocks lie -/

def screenInfoSpans : List (Nat × Nat) :=
  [(0x90000, 1), (0x90001, 1), (0x90004, 2), (0x90006, 1), (0x90007, 1), (0x9000A, 2),
    (0x9000E, 1), (0x9000F, 1), (0x90010, 2)]

def e820Spans (n : Nat) : List (Nat × Nat) :=
  (List.range n).flatMap (fun i => [((e820Slot i).toNat, 8), ((e820Slot i + 8).toNat, 8),
    ((e820Slot i + 16).toNat, 4)]) ++ [(0x901E8, 1), (0x901E0, 4)]

/-- The command line and its end. -/
def cmdlineSpans (cmdline : Slice) : List (Nat × Nat) :=
  [(0x20000, cmdlineLen cmdline), (0x20000 + cmdlineLen cmdline, 1)]

def gdtSpans : List (Nat × Nat) := [(0x1000, 8), (0x1008, 8), (0x1010, 8)]

/-- The fields of the setup header that the loaders fill in. -/
def fieldSpans : List (Nat × Nat) := [(0x90228, 4), (0x90210, 1)]

def ramdiskFieldSpans : List (Nat × Nat) := [(0x90218, 4), (0x9021C, 4)]

/-- The fields of a bzImage's own setup header that its loader changes besides. -/
def headerSpans : List (Nat × Nat) := [(0x90211, 1), (0x90214, 4)]

theorem spans_screenInfo : screenInfoBlocks.map span = screenInfoSpans := by
  simp only [screenInfoBlocks, List.map_cons, List.map_nil, span_wordBlock]
  decide

theorem spans_e820 (ram : Nat) :
    (e820Blocks ram).map span = e820Spans (e820Map ram).length := by
  have hidx : (e820Map ram).zipIdx.map Prod.snd = List.range (e820Map ram).length := by
    rw [List.zipIdx_map_snd, List.range_eq_range']
  rw [e820Blocks, e820Spans, List.map_append, List.map_flatMap, ← hidx, List.flatMap_map]
  refine congrArg₂ (· ++ ·) (List.flatMap_congr fun e he => ?_) ?_
  · simp only [e820EntryBlocks, List.map_cons, List.map_nil, span_wordBlock]
  · simp only [List.map_cons, List.map_nil, span_wordBlock]
    rfl

theorem spans_cmdline (cmdline : Slice) :
    (cmdlineBlocks cmdline).map span = cmdlineSpans cmdline := by
  have hlen : cmdlineLen cmdline ≤ 1023 := Nat.min_le_right _ _
  have hsize : cmdlineLen cmdline ≤ cmdline.bytes.toList.length := by
    rw [Array.length_toList]
    exact Nat.min_le_left _ _
  have hend : (u64 cmdlineAddr + BitVec.ofNat 64 (cmdlineLen cmdline)).toNat =
      0x20000 + cmdlineLen cmdline := by
    rw [BitVec.toNat_add, BitVec.toNat_ofNat, show (u64 cmdlineAddr).toNat = 0x20000 from rfl]
    omega
  simp only [cmdlineBlocks, List.map_cons, List.map_nil, span, hend, cmdlineSpans, Slice.run,
    List.drop_zero, List.length_take, Nat.min_eq_left hsize, List.length_cons, List.length_nil]
  rfl

theorem spans_gdt : gdtBlocks.map span = gdtSpans := by
  simp only [gdtBlocks, List.map_cons, List.map_nil, span_wordBlock]
  decide

theorem spans_loaderFields : loaderFieldBlocks.map span = fieldSpans := by
  simp only [loaderFieldBlocks, List.map_cons, List.map_nil, span_wordBlock]
  decide

theorem spans_ramdiskFields (addr len : U32) :
    (ramdiskFieldBlocks addr len).map span = ramdiskFieldSpans := by
  simp only [ramdiskFieldBlocks, List.map_cons, List.map_nil, span_wordBlock]
  decide

/-- What a loader leaves in the first pages: the flat GDT, or the 64-bit one and the page tables. -/
def lowSpans : Bool → List (Nat × Nat)
  | false => gdtSpans
  | true => [(0x1800, 0x6800)]

/-- The spans within boot_params, with those of the first pages. -/
def fixedSpans (long : Bool) (n : Nat) : List (Nat × Nat) :=
  screenInfoSpans ++ e820Spans n ++ fieldSpans ++ ramdiskFieldSpans ++ headerSpans ++ lowSpans long

/-- The part of the first pages that a loader writes. -/
def lowRegion : Bool → Nat × Nat
  | false => (0x1000, 24)
  | true => (0x1800, 0x6800)

/-- One span lies within another. -/
def Within (x y : Nat × Nat) : Prop := y.1 ≤ x.1 ∧ x.1 + x.2 ≤ y.1 + y.2

instance : DecidableRel Within := fun _ _ => inferInstanceAs (Decidable (_ ∧ _))

theorem fixedSpans_clear (long : Bool) {n : Nat} (hn : n ≤ 6) :
    (fixedSpans long n).Pairwise Clear ∧
      ∀ x ∈ fixedSpans long n, Within x (0x90000, 0x400) ∨ Within x (lowRegion long) := by
  cases long <;> interval_cases n <;> decide +kernel

/-- Everything a loader may leave beside the image: the structures, the command line and a
ramdisk. -/
def layout (long : Bool) (n : Nat) (cmdline : Slice) (rd : Nat × Nat) : List (Nat × Nat) :=
  fixedSpans long n ++ (cmdlineSpans cmdline ++ [rd])

/-- The regions of the layout. -/
def regions (long : Bool) (cmdline : Slice) (rd : Nat × Nat) : List (Nat × Nat) :=
  [(0x90000, 0x400), lowRegion long, (0x20000, cmdlineLen cmdline + 1), rd]

section Layout

variable {long : Bool} {n : Nat} {cmdline : Slice} {rd : Nat × Nat}

theorem regions_cases {P : Nat × Nat → Prop} :
    (∀ y ∈ regions long cmdline rd, P y) ↔ P (0x90000, 0x400) ∧ P (lowRegion long) ∧
      P (0x20000, cmdlineLen cmdline + 1) ∧ P rd := by
  rw [regions, List.forall_mem_cons, List.forall_mem_cons, List.forall_mem_cons,
    List.forall_mem_singleton]

theorem layout_within (hn : n ≤ 6) {x : Nat × Nat} (hx : x ∈ layout long n cmdline rd) :
    ∃ y ∈ regions long cmdline rd, Within x y := by
  rcases List.mem_append.mp hx with hx | hx
  · rcases (fixedSpans_clear long hn).2 x hx with h | h
    · exact ⟨_, by simp [regions], h⟩
    · exact ⟨_, by simp [regions], h⟩
  · simp only [cmdlineSpans, List.cons_append, List.nil_append, List.mem_cons, List.not_mem_nil,
      or_false] at hx
    unfold Within
    rcases hx with rfl | rfl | rfl
    · exact ⟨(0x20000, cmdlineLen cmdline + 1), by simp [regions], by omega⟩
    · exact ⟨(0x20000, cmdlineLen cmdline + 1), by simp [regions], by omega⟩
    · exact ⟨x, by simp [regions], by omega⟩

theorem layout_clear (hn : n ≤ 6) (hrd : 2 ^ 20 ≤ rd.1) :
    (layout long n cmdline rd).Pairwise Clear := by
  have hlen : cmdlineLen cmdline ≤ 1023 := Nat.min_le_right _ _
  obtain ⟨hfixed, hwithin⟩ := fixedSpans_clear long hn
  refine List.pairwise_append.mpr ⟨hfixed, ?_, fun x hx y hy => ?_⟩
  · simp only [cmdlineSpans, List.cons_append, List.nil_append, List.pairwise_cons,
      List.forall_mem_cons, List.not_mem_nil, false_imp_iff, implies_true, and_true, Clear,
      List.Pairwise.nil]
    omega
  · have hx := hwithin x hx
    have hlow : (lowRegion long).1 + (lowRegion long).2 ≤ 0x8000 := by cases long <;> decide
    simp only [cmdlineSpans, List.cons_append, List.nil_append, List.mem_cons, List.not_mem_nil,
      or_false] at hy
    unfold Within at hx
    unfold Clear
    rcases hy with rfl | rfl | rfl <;> omega

/-- What a loader lays within the layout, whatever the order, all shows. -/
theorem shows_of_layout {m m' : Memory} {bs cs : List (U64 × List U8)} (hn : n ≤ 6)
    (hrd : 2 ^ 20 ≤ rd.1) (hend : rd.1 + rd.2 ≤ m.lowSize)
    (hspans : (bs.map span).Subperm (layout long n cmdline rd)) (hl : LaidOver m m' (cs ++ bs)) :
    ∀ b ∈ bs, m'.Shows b := by
  obtain ⟨l, hperm, hsub⟩ := hspans
  have hclear : (bs.map span).Pairwise Clear :=
    hperm.pairwise ((layout_clear hn hrd).sublist hsub) Clear.symm
  have hle : m.lowSize ≤ mmioHoleStart := m.lowSize_le.1
  have hhole : mmioHoleStart = 0xC0000000 := rfl
  have hlen : cmdlineLen cmdline ≤ 1023 := Nat.min_le_right _ _
  have hlow : (lowRegion long).1 + (lowRegion long).2 ≤ 0x8000 := by cases long <;> decide
  -- every span of the layout is low memory
  have hin : ∀ b ∈ bs, (span b).1 + (span b).2 ≤ m.lowSize := by
    intro b hb
    obtain ⟨y, hy, hby⟩ := layout_within hn
      (hsub.subset (hperm.symm.subset (List.mem_map_of_mem hb)))
    have hylow : ∀ y ∈ regions long cmdline rd, y.1 + y.2 ≤ m.lowSize :=
      regions_cases.mpr (by omega)
    exact hby.2.trans (hylow y hy)
  intro b hb
  refine shows_of_laidOver hl (fun c hc => ?_) hclear hb fun i hi => .inr ?_
  · have hcin := hin c hc
    omega
  · have hbin : b.1.toNat + b.2.length ≤ m.lowSize := hin b hb
    rw [(m.slot_eq_some_iff _).mpr (.inl ⟨?_, rfl⟩)]
    · rfl
    · rw [BitVec.toNat_add, BitVec.toNat_ofNat]
      omega

/-- The address is in none of the regions of the layout. -/
def Aside (long : Bool) (cmdline : Slice) (rd : Nat × Nat) (a : U64) : Prop :=
  ∀ y ∈ regions long cmdline rd, a.toNat < y.1 ∨ y.1 + y.2 ≤ a.toNat

/-- Aside of the layout, memory is what was laid before it. -/
theorem read_aside {m m' : Memory} {bs cs : List (U64 × List U8)} (hn : n ≤ 6)
    (hend : rd.1 + rd.2 ≤ 2 ^ 64) (hspans : (bs.map span).Subperm (layout long n cmdline rd))
    (hl : LaidOver m m' (cs ++ bs)) {a : U64} (ha : Aside long cmdline rd a) (hback : m.backed a) :
    m'.readU8 a = (top cs a).getD (m.readU8 a) := by
  have hlen : cmdlineLen cmdline ≤ 1023 := Nat.min_le_right _ _
  have hlow : (lowRegion long).1 + (lowRegion long).2 ≤ 0x8000 := by cases long <;> decide
  have hfit : ∀ y ∈ regions long cmdline rd, y.1 + y.2 ≤ 2 ^ 64 := regions_cases.mpr (by omega)
  have hmiss : ∀ b ∈ bs, ¬ Covers b a := by
    intro b hb hcover
    obtain ⟨y, hy, hby⟩ := layout_within hn (hspans.subset (List.mem_map_of_mem hb))
    have hyfit := hfit y hy
    have hyaside := ha y hy
    unfold Within at hby
    have hb := (covers_iff (by omega)).mp hcover
    omega
  rw [(hl.laid a).1 hback, top_append, top_eq_none.mpr hmiss, Option.none_or]

end Layout

/-! ## What the kernel reads -/

/-- boot_params describes the memory map of a machine with `ram` bytes. -/
structure E820Handed (m : Memory) (ram : Nat) : Prop where
  count : (m.readU8 (u64 bootParamsAddr + bpE820Entries)).toNat = (e820Map ram).length
  entry : ∀ i (h : i < (e820Map ram).length),
    m.readU64 (e820Slot i) = BitVec.ofNat 64 (e820Map ram)[i].1 ∧
    m.readU64 (e820Slot i + 8) = BitVec.ofNat 64 (e820Map ram)[i].2.1 ∧
    m.readU32 (e820Slot i + 16) = (e820Map ram)[i].2.2
  extended : m.readU32 (u64 bootParamsAddr + bpAltMemK) = extKb ram

/-- The command line is there, ended by a zero byte, and boot_params points at it. -/
structure CmdlineHanded (m : Memory) (cmdline : Slice) : Prop where
  bytes : ∀ i < cmdlineLen cmdline,
    m.readU8 (u64 cmdlineAddr + BitVec.ofNat 64 i) = cmdline.bytes.getD i 0
  ended : m.readU8 (u64 cmdlineAddr + BitVec.ofNat 64 (cmdlineLen cmdline)) = 0
  pointer : m.readU32 (hdrField cmdLinePtr) = cmdlineAddr

/-- boot_params describes the text console. -/
structure ConsoleHanded (m : Memory) : Prop where
  mode : m.readU8 (u64 bootParamsAddr + bpOrigVideoMode) = videoModeColorText
  cols : (m.readU8 (u64 bootParamsAddr + bpOrigVideoCols)).toNat = textCols
  lines : (m.readU8 (u64 bootParamsAddr + bpOrigVideoLines)).toNat = textRows
  isVga : m.readU8 (u64 bootParamsAddr + bpOrigVideoIsvga) = videoTypeVgac

/-- A ramdisk is in low memory, above its first megabyte, and boot_params records where. -/
structure RamdiskHanded (m : Memory) (rd : Slice) (addr : U32) : Prop where
  aligned : addr.toNat % 4096 = 0
  above : 2 ^ 20 ≤ addr.toNat
  below : addr.toNat + rd.size ≤ m.lowSize
  bytes : ∀ i < rd.size, m.readU8 (u64 addr + BitVec.ofNat 64 i) = rd.bytes.getD i 0
  image : m.readU32 (hdrField ramdiskImage) = addr
  size : (m.readU32 (hdrField ramdiskSize)).toNat = rd.size

variable {ram : Nat} {cmdline rd : Slice}

theorem e820Handed (h : ∀ b ∈ e820Blocks ram, m.Shows b) : E820Handed m ram where
  count := by
    have hlen := length_e820Map ram
    rw [readU8_of_shows (h _ (List.mem_append_right _ List.mem_cons_self)), BitVec.toNat_ofNat]
    omega
  entry i hi := by
    have hlen := length_e820Map ram
    have hmem : ((e820Map ram)[i], i) ∈ (e820Map ram).zipIdx :=
      List.mk_mem_zipIdx_iff_getElem?.mpr (List.getElem?_eq_getElem hi)
    have hblock (b : U64 × List U8) (hb : b ∈ e820EntryBlocks ((e820Map ram)[i], i)) :
        m.Shows b := h b (List.mem_append_left _ (List.mem_flatMap_of_mem hmem hb))
    have hslot := e820Slot_toNat (i := i) (by omega)
    have hat (k : Nat) (hk : k < 20) : (e820Slot i + BitVec.ofNat 64 k).toNat =
        (e820Slot i).toNat + k := by
      rw [BitVec.toNat_add, BitVec.toNat_ofNat]
      omega
    have hat8 : (e820Slot i + 8).toNat = _ := hat 8 (by decide)
    have hat16 : (e820Slot i + 16).toNat = _ := hat 16 (by decide)
    refine ⟨readU64_of_shows (hblock _ List.mem_cons_self) (by omega),
      readU64_of_shows (hblock _ (List.mem_cons_of_mem _ List.mem_cons_self)) (by omega),
      readU32_of_shows (hblock _ (List.mem_cons_of_mem _ (List.mem_cons_of_mem _
        List.mem_cons_self))) (by omega)⟩
  extended := readU32_of_shows (h _ (List.mem_append_right _ (List.mem_cons_of_mem _
    List.mem_cons_self))) (by decide)

theorem cmdlineHanded (h : ∀ b ∈ cmdlineBlocks cmdline, m.Shows b)
    (hptr : m.Shows (wordBlock (hdrField cmdLinePtr) 4 cmdlineAddr)) :
    CmdlineHanded m cmdline where
  bytes i hi := by
    have hle : 0 + cmdlineLen cmdline ≤ cmdline.size := by
      rw [Nat.zero_add]
      exact Nat.min_le_left _ _
    have hline := h _ List.mem_cons_self
    rw [Slice.run_eq cmdline hle] at hline
    have hbyte := hline i (by rwa [List.length_map, List.length_range])
    simpa only [List.get_eq_getElem, List.getElem_map, List.getElem_range, Nat.zero_add] using hbyte
  ended := readU8_of_shows (h _ (List.mem_cons_of_mem _ List.mem_cons_self))
  pointer := readU32_of_shows hptr (by decide)

theorem consoleHanded (h : ∀ b ∈ screenInfoBlocks, m.Shows b) : ConsoleHanded m where
  mode := readU8_of_shows (h _ (by simp [screenInfoBlocks]))
  cols := by
    rw [readU8_of_shows (h (_, [BitVec.ofNat 8 textCols]) (by simp [screenInfoBlocks]))]
    rfl
  lines := by
    rw [readU8_of_shows (h (_, [BitVec.ofNat 8 textRows]) (by simp [screenInfoBlocks]))]
    rfl
  isVga := readU8_of_shows (h _ (by simp [screenInfoBlocks]))

/-! ## The ramdisk -/

theorem pageStart_toNat (x : U64) : (x &&& ~~~0xFFF).toNat = x.toNat / 4096 * 4096 := by
  have hmask : (x &&& ~~~0xFFF : U64) = x >>> 12 <<< 12 := by
    apply BitVec.eq_of_getLsbD_eq
    intro i hi
    simp only [BitVec.getLsbD_and, BitVec.getLsbD_not, BitVec.getLsbD_shiftLeft,
      BitVec.getLsbD_ushiftRight, getLsbD_offset i hi, hi, decide_true, Bool.true_and]
    by_cases h12 : i < 12
    · simp [h12]
    · rw [show 12 + (i - 12) = i by omega]
      simp [h12]
  have hx := x.isLt
  rw [hmask, BitVec.toNat_shiftLeft, BitVec.toNat_ushiftRight, Nat.shiftRight_eq_div_pow,
    Nat.shiftLeft_eq]
  omega

/-- There is room for the ramdisk in low memory, above its first megabyte. -/
def RamdiskFits (m : Memory) (rd : Slice) : Prop := 2 ^ 20 + rd.size ≤ m.lowSize

theorem ramdiskAddr_toNat (h : RamdiskFits m rd) :
    (ramdiskAddr m rd).toNat = (m.lowSize - rd.size) / 4096 * 4096 := by
  have hle : m.lowSize ≤ mmioHoleStart := m.lowSize_le.1
  have hhole : mmioHoleStart = 0xC0000000 := rfl
  have hlow := m.lowSize_eq
  have hlen := rd.len_toNat
  unfold RamdiskFits at h
  rw [ramdiskAddr, BitVec.toNat_setWidth, pageStart_toNat, BitVec.toNat_sub, BitVec.toNat_ofNat,
    hlen, ← hlow]
  omega

/-- Where the ramdisk goes, if there is one. -/
def ramdiskSpan (m : Memory) : Option Slice → Nat × Nat
  | none => (2 ^ 20, 0)
  | some rd => ((ramdiskAddr m rd).toNat, rd.size)

theorem ramdiskSpan_low {initrd : Option Slice} (h : ∀ rd ∈ initrd, RamdiskFits m rd) :
    2 ^ 20 ≤ (ramdiskSpan m initrd).1 ∧
      (ramdiskSpan m initrd).1 + (ramdiskSpan m initrd).2 ≤ m.lowSize := by
  cases initrd with
  | none =>
    have hmib := m.one_mib_le
    have hlow := m.lowSize_eq
    have hhole : mmioHoleStart = 0xC0000000 := rfl
    show 2 ^ 20 ≤ 2 ^ 20 ∧ 2 ^ 20 + 0 ≤ m.lowSize
    omega
  | some rd =>
    have hfits := h rd rfl
    have haddr := ramdiskAddr_toNat hfits
    unfold RamdiskFits at hfits
    unfold ramdiskSpan
    dsimp only
    rw [haddr]
    omega

theorem ramdiskHanded {m' : Memory} (hfits : RamdiskFits m rd) (hslot : ∀ b, m'.slot b = m.slot b)
    (h : ∀ b ∈ ramdiskBlocks m (some rd), m'.Shows b) : RamdiskHanded m' rd (ramdiskAddr m rd) := by
  have haddr := ramdiskAddr_toNat hfits
  have hle : m.lowSize ≤ mmioHoleStart := m.lowSize_le.1
  have hhole : mmioHoleStart = 0xC0000000 := rfl
  have hsame : m'.lowSize = m.lowSize := by
    rw [m'.lowSize_eq, m.lowSize_eq, ramSize_congr hslot]
  unfold RamdiskFits at hfits
  refine ⟨?_, ?_, ?_, fun i hi => ?_, ?_, ?_⟩
  · omega
  · omega
  · omega
  · have hbyte := h _ List.mem_cons_self i (by rwa [Array.length_toList])
    refine hbyte.trans ?_
    rw [List.get_eq_getElem, Array.getElem_toList, Array.getD_eq_getD_getElem?,
      Array.getElem?_eq_getElem hi]
    rfl
  · exact readU32_of_shows (h _ (List.mem_cons_of_mem _ List.mem_cons_self)) (by decide)
  · rw [readU32_of_shows (h _ (List.mem_cons_of_mem _ (List.mem_cons_of_mem _ List.mem_cons_self)))
      (by decide), BitVec.toNat_setWidth, rd.len_toNat]
    omega

theorem ramdiskAddr_congr {m' : Memory} (hslot : ∀ b, m'.slot b = m.slot b) (rd : Slice) :
    ramdiskAddr m' rd = ramdiskAddr m rd := by
  rw [ramdiskAddr, ramdiskAddr, ramSize_congr hslot]

theorem ramdiskBlocks_congr {m' : Memory} (hslot : ∀ b, m'.slot b = m.slot b)
    (initrd : Option Slice) : ramdiskBlocks m' initrd = ramdiskBlocks m initrd := by
  cases initrd with
  | none => rfl
  | some rd => rw [ramdiskBlocks, ramdiskBlocks, ramdiskAddr_congr hslot]

/-- The spans of a ramdisk, and of the fields that record it. -/
def ramdiskSpans (m : Memory) (initrd : Option Slice) : List (Nat × Nat) :=
  if initrd.isSome then ramdiskSpan m initrd :: ramdiskFieldSpans else []

theorem spans_ramdisk (m : Memory) (initrd : Option Slice) :
    (ramdiskBlocks m initrd).map span = ramdiskSpans m initrd := by
  cases initrd with
  | none => rfl
  | some rd =>
    rw [ramdiskBlocks, List.map_cons, spans_ramdiskFields]
    rfl

theorem ramdiskSpans_cases (m : Memory) (initrd : Option Slice) :
    ramdiskSpans m initrd = [] ∨
      ramdiskSpans m initrd = ramdiskSpan m initrd :: ramdiskFieldSpans := by
  cases initrd with
  | none => exact .inl rfl
  | some rd => exact .inr rfl

/-! ## The kernel's memory -/

/-- What an ELF kernel finds in memory: its image, aside of what the loader keeps for itself, and
the boot structures. -/
structure Handed (long : Bool) (image : List (U64 × List U8)) (cmdline : Slice)
    (initrd : Option Slice) (m m' : Memory) : Prop where
  image : ∀ a, Aside long cmdline (ramdiskSpan m initrd) a → m.backed a →
    m'.readU8 a = (Overlay.top image a).getD (m.readU8 a)
  memoryMap : E820Handed m' m.ramSize
  cmdline : CmdlineHanded m' cmdline
  console : ConsoleHanded m'
  ramdisk : ∀ rd ∈ initrd, RamdiskHanded m' rd (ramdiskAddr m rd)

/-- The structures every ELF kernel is handed. -/
def bootBlocks (cmdline : Slice) (initrd : Option Slice) (m : Memory) : List (U64 × List U8) :=
  screenInfoBlocks ++ e820Blocks m.ramSize ++ cmdlineBlocks cmdline ++ loaderFieldBlocks ++
    ramdiskBlocks m initrd

/-- With the structures among what was laid after the image, and all of that in the layout, the
kernel finds them. -/
theorem handed_of_laidOver {long : Bool} {image bs : List (U64 × List U8)} {initrd : Option Slice}
    {m' : Memory} (hfits : ∀ rd ∈ initrd, RamdiskFits m rd) (hall : LaidOver m m' (image ++ bs))
    (hspans : (bs.map span).Subperm
      (layout long (e820Map m.ramSize).length cmdline (ramdiskSpan m initrd)))
    (hsub : bootBlocks cmdline initrd m ⊆ bs) : Handed long image cmdline initrd m m' := by
  have hlen := length_e820Map m.ramSize
  obtain ⟨hlow, hend⟩ := ramdiskSpan_low hfits
  have hshows := shows_of_layout hlen hlow hend hspans hall
  have hshown (b : U64 × List U8) (hb : b ∈ bootBlocks cmdline initrd m) : m'.Shows b :=
    hshows b (hsub hb)
  simp only [bootBlocks, List.mem_append] at hshown
  have hle : m.lowSize ≤ mmioHoleStart := m.lowSize_le.1
  have hhole : mmioHoleStart = 0xC0000000 := rfl
  refine ⟨fun a ha hback => read_aside hlen (by omega) hspans hall ha hback,
    e820Handed fun b hb => hshown b (by tauto),
    cmdlineHanded (fun b hb => hshown b (by tauto)) (hshown _ (.inl (.inr List.mem_cons_self))),
    consoleHanded fun b hb => hshown b (by tauto), fun rd hrd => ?_⟩
  obtain rfl : initrd = some rd := hrd
  exact ramdiskHanded (hfits rd rfl) hall.slot fun b hb => hshown b (.inr hb)

end Boot
end X86Emu
