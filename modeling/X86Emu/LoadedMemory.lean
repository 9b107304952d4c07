import X86Emu.KernelImage
import X86Emu.BiosBounds
import X86Emu.IdentityMap
import X86Emu.MemoryMap
import X86Emu.Lib.Overlay
import X86Emu.Lib.Stopping

/-!
# What the loaders store

Each store of a loader lays a block over memory: a segment's file bytes, the zeros after them, a
word of a boot structure. Copying from an image goes through exactly when it has the bytes.
-/
namespace X86Emu

open Boot Overlay Stopping

/-! ## Blocks of memory -/

namespace Memory

variable {m m' m'' : Memory} {a : U64} {n : Nat} {bs cs : List (U64 × List U8)}

/-- The second memory is the first with the blocks laid over it. -/
structure LaidOver (m m' : Memory) (bs : List (U64 × List U8)) : Prop where
  slot : ∀ b, m'.slot b = m.slot b
  laid : Laid m.backed bs m.readU8 m'.readU8

namespace LaidOver

theorem refl (m : Memory) : LaidOver m m [] := ⟨fun _ => rfl, .refl _ _⟩

theorem trans (h : LaidOver m m' bs) (k : LaidOver m' m'' cs) : LaidOver m m'' (bs ++ cs) where
  slot b := (k.slot b).trans (h.slot b)
  laid := by
    have hthere : m'.backed = m.backed := funext fun b => propext (backed_congr (h.slot b))
    exact h.laid.trans (hthere ▸ k.laid)

theorem of_stored {f : Nat → U8} (h : Stored m m' a n f) :
    LaidOver m m' [(a, (List.range n).map f)] where
  slot := h.slot
  laid b := by
    rw [h.byte b, top_cons, top_nil, Option.none_or, block, List.getElem?_map]
    dsimp only
    by_cases hlt : (b - a).toNat < n
    · rw [List.getElem?_range hlt]
      refine ⟨fun hb => if_pos ⟨hlt, hb⟩, fun hb => if_neg fun hc => hb hc.2⟩
    · rw [List.getElem?_eq_none (by rw [List.length_range]; omega), if_neg fun hc => hlt hc.1]
      exact ⟨fun _ => rfl, fun _ => rfl⟩

theorem of_eq (h : LaidOver m m' bs) (he : bs = cs) : LaidOver m m' cs := he ▸ h

end LaidOver

/-- The block a word takes up. -/
def wordBlock {k : Nat} (a : U64) (n : Nat) (v : BitVec k) : U64 × List U8 :=
  (a, (List.range n).map (byteOf v))

theorem laidOver_writeU8 (m : Memory) (a : U64) (v : U8) :
    LaidOver m (m.writeU8 a v) [(a, [v])] :=
  .of_stored (stored_writeU8 m a v)

theorem laidOver_writeU16 (m : Memory) (v : U16) (h : a.toNat + 2 ≤ 0xA0000) :
    LaidOver m (m.writeU16 a v) [wordBlock a 2 v] :=
  .of_stored ((block_conventional m h).1.stored_writeU16 v)

theorem laidOver_writeU32 (m : Memory) (v : U32) (h : a.toNat + 4 ≤ 0xA0000) :
    LaidOver m (m.writeU32 a v) [wordBlock a 4 v] :=
  .of_stored ((block_conventional m h).1.stored_writeU32 v)

theorem laidOver_writeU64 (m : Memory) (v : U64) (h : a.toNat + 8 ≤ 0xA0000) :
    LaidOver m (m.writeU64 a v) [wordBlock a 8 v] :=
  .of_stored ((block_conventional m h).1.stored_writeU64 v)

namespace LaidOver

theorem writeU8 (h : LaidOver m m' bs) (a : U64) (v : U8) :
    LaidOver m (m'.writeU8 a v) (bs ++ [(a, [v])]) :=
  h.trans (laidOver_writeU8 m' a v)

theorem writeU16 (h : LaidOver m m' bs) (v : U16) (ha : a.toNat + 2 ≤ 0xA0000) :
    LaidOver m (m'.writeU16 a v) (bs ++ [wordBlock a 2 v]) :=
  h.trans (laidOver_writeU16 m' v ha)

theorem writeU32 (h : LaidOver m m' bs) (v : U32) (ha : a.toNat + 4 ≤ 0xA0000) :
    LaidOver m (m'.writeU32 a v) (bs ++ [wordBlock a 4 v]) :=
  h.trans (laidOver_writeU32 m' v ha)

theorem writeU64 (h : LaidOver m m' bs) (v : U64) (ha : a.toNat + 8 ≤ 0xA0000) :
    LaidOver m (m'.writeU64 a v) (bs ++ [wordBlock a 8 v]) :=
  h.trans (laidOver_writeU64 m' v ha)

end LaidOver

end Memory

open Memory

namespace Boot

variable {m m' : Memory} {b : Slice} {off base n : U64}

/-! ## Reading an image -/

namespace Slice

/-- A read that needs an image of some size, and panics on a smaller one. -/
abbrev Needs {α : Type} (b : Slice) (size : Nat) (x : Load α) : Prop :=
  Guarded (size ≤ b.size) .panicked x

theorem size_lt' (b : Slice) : b.size < 2 ^ 63 := b.size_lt

theorem len_toNat (b : Slice) : b.len.toNat = b.size := by
  have hsize := b.size_lt'
  rw [Slice.len, BitVec.toNat_ofNat]
  omega

theorem byte_ok (h : off.toNat < b.size) : b.byte off = .ok (b.bytes.getD off.toNat 0) := by
  rw [byte, at?, Array.getElem?_eq_getElem h, Array.getD_eq_getD_getElem?,
    Array.getElem?_eq_getElem h]
  rfl

theorem needs_byte (b : Slice) (off : U64) : b.Needs (off.toNat + 1) (b.byte off) :=
  ⟨fun h => ⟨_, byte_ok h⟩, fun h => by
    rw [byte, at?, Array.getElem?_eq_none (show b.bytes.size ≤ off.toNat from by
      have hsize : b.bytes.size = b.size := rfl
      omega)]⟩

theorem toNat_add_of_inside {k : Nat} (h : off.toNat + k < b.size) :
    (off + BitVec.ofNat 64 k).toNat = off.toNat + k := by
  have hsize := b.size_lt'
  rw [BitVec.toNat_add, BitVec.toNat_ofNat]
  omega

theorem byte_add_ok {k : Nat} (h : off.toNat + k < b.size) :
    b.byte (off + BitVec.ofNat 64 k) = .ok (b.bytes.getD (off.toNat + k) 0) := by
  rw [byte_ok (by rw [toNat_add_of_inside h]; exact h), toNat_add_of_inside h]

/-- An image that holds the place and what is `k` bytes on holds the whole of it. -/
theorem inside_iff (b : Slice) (off : U64) (k n : Nat) (hk : k < 2 ^ 62) (hn : 0 < n) :
    (off.toNat + 1 ≤ b.size ∧ (off + BitVec.ofNat 64 k).toNat + n ≤ b.size) ↔
      off.toNat + 1 ≤ b.size ∧ off.toNat + k + n ≤ b.size := by
  have hsize := b.size_lt'
  rw [BitVec.toNat_add, BitVec.toNat_ofNat]
  omega

theorem needs_le16 (b : Slice) (off : U64) : b.Needs (off.toNat + 2) (b.le16 off) := by
  have h1 := inside_iff b off 1 1 (by decide) (by decide)
  refine ((b.needs_byte off).bind fun _ => (b.needs_byte (off + 1)).map _).congr ?_
  change _ ∧ (off + BitVec.ofNat 64 1).toNat + 1 ≤ b.size ↔ _
  omega

theorem needs_le32 (b : Slice) (off : U64) : b.Needs (off.toNat + 4) (b.le32 off) := by
  have h1 := inside_iff b off 1 1 (by decide) (by decide)
  have h2 := inside_iff b off 2 1 (by decide) (by decide)
  have h3 := inside_iff b off 3 1 (by decide) (by decide)
  refine ((b.needs_byte off).bind fun _ => (b.needs_byte (off + 1)).bind fun _ =>
    (b.needs_byte (off + 2)).bind fun _ => (b.needs_byte (off + 3)).map _).congr ?_
  change _ ∧ (off + BitVec.ofNat 64 1).toNat + 1 ≤ b.size ∧
    (off + BitVec.ofNat 64 2).toNat + 1 ≤ b.size ∧
    (off + BitVec.ofNat 64 3).toNat + 1 ≤ b.size ↔ _
  omega

theorem needs_le64 (b : Slice) (off : U64) : b.Needs (off.toNat + 8) (b.le64 off) := by
  have h4 := inside_iff b off 4 4 (by decide) (by decide)
  refine ((b.needs_le32 off).bind fun _ => (b.needs_le32 (off + 4)).map _).congr ?_
  change _ ∧ (off + BitVec.ofNat 64 4).toNat + 4 ≤ b.size ↔ _
  omega

end Slice

/-- A program header of a 64-bit image takes 48 bytes to read, and one of a 32-bit image 24. -/
theorem needs_readHeader64 (b : Slice) (off : U64) :
    b.Needs (off.toNat + 48) (readHeader64 b off) := by
  have h (k : Nat) (hk : k < 2 ^ 62) := Slice.inside_iff b off k 8 hk (by decide)
  have h8 := h 8 (by decide)
  have h24 := h 24 (by decide)
  have h32 := h 32 (by decide)
  have h40 := h 40 (by decide)
  refine ((b.needs_le32 off).bind fun _ => (b.needs_le64 (off + 8)).bind fun _ =>
    (b.needs_le64 (off + 24)).bind fun _ => (b.needs_le64 (off + 32)).bind fun _ =>
    (b.needs_le64 (off + 40)).map _).congr ?_
  change _ ∧ (off + BitVec.ofNat 64 8).toNat + 8 ≤ b.size ∧
    (off + BitVec.ofNat 64 24).toNat + 8 ≤ b.size ∧
    (off + BitVec.ofNat 64 32).toNat + 8 ≤ b.size ∧
    (off + BitVec.ofNat 64 40).toNat + 8 ≤ b.size ↔ _
  omega

theorem needs_readHeader32 (b : Slice) (off : U64) :
    b.Needs (off.toNat + 24) (readHeader32 b off) := by
  have h (k : Nat) (hk : k < 2 ^ 62) := Slice.inside_iff b off k 4 hk (by decide)
  have h4 := h 4 (by decide)
  have h12 := h 12 (by decide)
  have h16 := h 16 (by decide)
  have h20 := h 20 (by decide)
  refine ((b.needs_le32 off).bind fun _ => (b.needs_le32 (off + 4)).bind fun _ =>
    (b.needs_le32 (off + 12)).bind fun _ => (b.needs_le32 (off + 16)).bind fun _ =>
    (b.needs_le32 (off + 20)).map _).congr ?_
  change _ ∧ (off + BitVec.ofNat 64 4).toNat + 4 ≤ b.size ∧
    (off + BitVec.ofNat 64 12).toNat + 4 ≤ b.size ∧
    (off + BitVec.ofNat 64 16).toNat + 4 ≤ b.size ∧
    (off + BitVec.ofNat 64 20).toNat + 4 ≤ b.size ↔ _
  omega

/-- The bytes of an image from an offset on. -/
def Slice.run (b : Slice) (off n : Nat) : List U8 := (b.bytes.toList.drop off).take n

theorem Slice.run_eq (b : Slice) {off n : Nat} (h : off + n ≤ b.size) :
    b.run off n = (List.range n).map fun j => b.bytes.getD (off + j) 0 := by
  have hsize : b.bytes.toList.length = b.size := Array.length_toList
  have hlen : (b.run off n).length =
      ((List.range n).map fun j => b.bytes.getD (off + j) 0).length := by
    rw [Slice.run, List.length_take, List.length_drop, List.length_map, List.length_range]
    omega
  refine List.ext_getElem hlen fun i hi hi' => ?_
  have hin : i < n := by rwa [List.length_map, List.length_range] at hi'
  have hget : off + i < b.bytes.size := Nat.lt_of_lt_of_le (by omega) h
  simp only [Slice.run, List.getElem_take, List.getElem_drop, Array.getElem_toList,
    List.getElem_map, List.getElem_range, Array.getD_eq_getD_getElem?, Array.getElem?_eq_getElem hget,
    Option.getD_some]

/-! ## Copying -/

/-- An image has `n` bytes from an offset on. -/
def Slice.Holds (b : Slice) (off n : U64) : Prop := n ≠ 0 → off.toNat + n.toNat ≤ b.size

theorem copyIn_ok (h : b.Holds off n) (base : U64) (m : Memory) :
    ∃ m', copyIn b off base n m = .ok m' ∧
      LaidOver m m' [(base, b.run off.toNat n.toNat)] := by
  by_cases h0 : n = 0
  · subst h0
    exact ⟨m, rfl, (LaidOver.of_stored (.refl m base fun _ => 0)).of_eq rfl⟩
  have hin := h h0
  refine ⟨_, foldlM_eq_foldl (g := fun m j => m.writeU8 (base + BitVec.ofNat 64 j)
    (b.bytes.getD (off.toNat + j) 0)) (fun j hj m => ?_) m, ?_⟩
  · rw [Slice.byte_add_ok (by rw [List.mem_range] at hj; omega)]
    rfl
  · rw [Slice.run_eq b hin]
    exact .of_stored (m.stored_bytes base _ _ (by omega))

theorem copyIn_guarded (b : Slice) (off base n : U64) (m : Memory) :
    Guarded (b.Holds off n) .panicked (copyIn b off base n m) := by
  refine ⟨fun h => (copyIn_ok h base m).imp fun _ hm => hm.1, fun h => ?_⟩
  obtain ⟨h0, hout⟩ := Classical.not_imp.mp h
  have hpos : 0 < n.toNat := Nat.pos_of_ne_zero fun hn => h0 (BitVec.eq_of_toNat_eq hn)
  cases hrun : copyIn b off base n m with
  | error e =>
    obtain ⟨j, -, m', hj⟩ := error_of_foldlM hrun
    exact congrArg Except.error (((b.needs_byte _).map _).of_error hj).2
  | ok m' =>
    have hall := forall_of_foldlM (Q := fun j => (off + BitVec.ofNat 64 j).toNat + 1 ≤ b.size)
      (fun m j m' hj => ((b.needs_byte _).map _).of_ok hj) hrun
    -- the first byte past the end of the image is among those copied
    have hsize := b.size_lt'
    have hfirst := hall (b.size - off.toNat) (List.mem_range.mpr (by omega))
    rw [BitVec.toNat_add, BitVec.toNat_ofNat] at hfirst
    have hn := off.isLt
    omega

theorem laidOver_clear (base first last : U64) (m : Memory) :
    LaidOver m (clear base first last m)
      [(base + first, List.replicate (last.toNat - first.toNat) 0)] := by
  have hlast := last.isLt
  have hstored := m.stored_bytes (base + first) (fun _ => 0) (last.toNat - first.toNat) (by omega)
  simp only [BitVec.add_assoc] at hstored
  exact (LaidOver.of_stored hstored).of_eq (by rw [List.map_const', List.length_range])

theorem laidOver_place (b : Slice) (base : U64) (m : Memory) :
    LaidOver m (place b base m) [(base, b.bytes.toList)] := by
  have hsize := b.size_lt'
  refine (LaidOver.of_stored (m.stored_bytes base _ _ (by omega))).of_eq ?_
  have hrun := Slice.run_eq b (show 0 + b.size ≤ b.size by omega)
  simp only [Nat.zero_add] at hrun
  rw [← hrun, Slice.run, List.drop_zero, List.take_of_length_le]
  rw [Array.length_toList]
  exact le_rfl

/-- The blocks of a segment: its bytes in the file, then zeros. -/
def ProgramHeader.blocks (elf : Slice) (ph : ProgramHeader) : List (U64 × List U8) :=
  if ph.type = 1 then
    [(ph.paddr, elf.run ph.offset.toNat ph.filesz.toNat),
      (ph.paddr + ph.filesz, List.replicate (ph.memsz.toNat - ph.filesz.toNat) 0)]
  else []

theorem loadSegment_guarded (elf : Slice) (ph : ProgramHeader) (m : Memory) :
    Guarded (elf.Holds ph.offset ph.filesz) .panicked (loadSegment elf ph m) :=
  (copyIn_guarded elf ph.offset ph.paddr ph.filesz m).map _

theorem loadSegment_ok {elf : Slice} {ph : ProgramHeader} (h : elf.Holds ph.offset ph.filesz)
    (ht : ph.type = 1) (m : Memory) :
    ∃ m', loadSegment elf ph m = .ok m' ∧ LaidOver m m' (ph.blocks elf) := by
  obtain ⟨m', hm, hlaid⟩ := copyIn_ok h ph.paddr m
  refine ⟨clear ph.paddr ph.filesz ph.memsz m', ?_, ?_⟩
  · rw [loadSegment, hm]
    rfl
  · rw [ProgramHeader.blocks, if_pos ht]
    exact hlaid.trans (laidOver_clear ph.paddr ph.filesz ph.memsz m')

end Boot
end X86Emu
