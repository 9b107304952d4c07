import X86Emu.VmExit

/-!
# Reading and writing VMCS fields

A field reads back what was last written to its slot, truncated to its width; other slots are
untouched.
-/
namespace X86Emu

namespace Vmx

/-- A write moves its own slot only. -/
theorem vmcs_write (x : Vmx) (enc : U32) (v : U64) (i : Nat) :
    (x.write enc v).vmcs i =
      if slot enc = some i then writeSlot enc (x.vmcs i) v else x.vmcs i := by
  unfold write
  cases hk : slot enc with
  | none => simp
  | some k =>
    by_cases hi : i = k
    · subst hi
      simp [setSlot]
    · have hik : k ≠ i := fun h => hi h.symm
      simp [setSlot, hi, hik]

theorem inGuest_write (x : Vmx) (enc : U32) (v : U64) : (x.write enc v).inGuest = x.inGuest := by
  unfold write
  split <;> rfl

/-- The low half of a slot, through a full-width or a narrow encoding. -/
theorem readSlot_writeSlot {enc : U32} (h : isHigh enc = false) (old v : U64) :
    readSlot enc (writeSlot enc old v) = v &&& fieldMask enc := by
  simp only [readSlot, writeSlot, h, Bool.false_eq_true, if_false]
  ext i hi
  simp
  grind

theorem readSlot_writeSlot_high {enc : U32} (h : isHigh enc = true) (old v : U64) :
    readSlot enc (writeSlot enc old v) = v &&& 0xFFFFFFFF := by
  simp only [readSlot, writeSlot, h, if_true]
  apply BitVec.eq_of_getLsbD_eq
  intro i hi
  simp only [BitVec.getLsbD_ushiftRight, BitVec.getLsbD_or, BitVec.getLsbD_and,
    BitVec.getLsbD_shiftLeft, getLsbD_low32]
  by_cases h32 : i < 32
  · simp [h32]
    grind
  · simp [h32]
    grind

theorem read_write_self (x : Vmx) {enc : U32} {k : Nat} (hk : slot enc = some k)
    (h : isHigh enc = false) (v : U64) : (x.write enc v).read enc = v &&& fieldMask enc := by
  rw [read, hk]
  simp only [vmcs_write, hk, if_true]
  exact readSlot_writeSlot h _ _

/-- Writing what a field already reads as changes nothing. -/
theorem write_eq_self (x : Vmx) {enc : U32} {v : U64} (h : isHigh enc = false)
    (hr : x.read enc = v &&& fieldMask enc) : x.write enc v = x := by
  unfold read at hr
  unfold write
  cases hk : slot enc with
  | none => rfl
  | some k =>
    simp only [hk, readSlot, h, Bool.false_eq_true, if_false] at hr
    have hslot : writeSlot enc (x.vmcs k) v = x.vmcs k := by
      simp only [writeSlot, h, Bool.false_eq_true, if_false, ← hr]
      ext i hi
      simp
      grind
    simp only [setSlot, hslot]
    have hid : (fun i => if i = k then x.vmcs k else x.vmcs i) = x.vmcs := by
      funext i
      split
      · rename_i hi
        rw [hi]
      · rfl
    rw [hid]

theorem read_write_of_ne (x : Vmx) {enc enc' : U32} (h : slot enc ≠ slot enc') (v : U64) :
    (x.write enc v).read enc' = x.read enc' := by
  unfold read
  cases hk : slot enc' with
  | none => rfl
  | some k =>
    simp only [vmcs_write]
    rw [if_neg (hk ▸ h)]

/-- The width of a field. -/
def fieldBits (enc : U32) : Nat :=
  if (enc >>> 13) &&& 3 = 0 then 16 else if (enc >>> 13) &&& 3 = 2 then 32 else 64

theorem fieldMask_eq (enc : U32) : fieldMask enc = BitVec.ofNat 64 (2 ^ fieldBits enc - 1) := by
  unfold fieldMask fieldBits
  split
  · rfl
  · split <;> rfl

/-- A value no wider than its field passes through it whole. -/
theorem and_fieldMask {n : Nat} (v : BitVec n) {enc : U32} (h : n ≤ fieldBits enc) :
    u64 v &&& fieldMask enc = u64 v := by
  rw [fieldMask_eq, setWidth_and_ones v 64 h]

theorem and_wide (v : U64) {enc : U32} (h : 64 ≤ fieldBits enc) : v &&& fieldMask enc = v := by
  have := and_fieldMask v h
  rwa [show u64 v = v from BitVec.setWidth_eq v] at this

theorem setWidth_fieldMask {n : Nat} (v : BitVec n) {enc : U32} (hn : n ≤ 64)
    (h : n ≤ fieldBits enc) : (u64 v &&& fieldMask enc).setWidth n = v := by
  rw [and_fieldMask v h, BitVec.setWidth_setWidth_of_le v hn, BitVec.setWidth_eq]

/-! ## Lists of fields -/

@[simp] theorem writeAll_nil (x : Vmx) : x.writeAll [] = x := rfl

@[simp] theorem writeAll_cons (x : Vmx) (f : U32 × U64) (l : List (U32 × U64)) :
    x.writeAll (f :: l) = (x.write f.1 f.2).writeAll l := rfl

theorem read_writeAll_of_notMem {enc : U32} :
    ∀ (l : List (U32 × U64)) (x : Vmx), slot enc ∉ l.map (fun f => slot f.1) →
      (x.writeAll l).read enc = x.read enc
  | [], _, _ => rfl
  | f :: l, x, h => by
    rw [List.map_cons, List.mem_cons, not_or] at h
    rw [writeAll_cons, read_writeAll_of_notMem l _ h.2, read_write_of_ne _ (fun e => h.1 e.symm)]

/-- With no slot written twice, each field reads back the value written to it. -/
theorem read_writeAll_of_mem {enc : U32} {v : U64} :
    ∀ (l : List (U32 × U64)) (x : Vmx), (l.map fun f => slot f.1).Nodup → (enc, v) ∈ l →
      (slot enc).isSome → isHigh enc = false → (x.writeAll l).read enc = v &&& fieldMask enc
  | f :: l, x, hnd, hmem, hs, hh => by
    rw [List.map_cons, List.nodup_cons] at hnd
    rw [writeAll_cons]
    obtain ⟨k, hk⟩ := Option.isSome_iff_exists.mp hs
    rcases List.mem_cons.mp hmem with rfl | hmem
    · rw [read_writeAll_of_notMem l _ hnd.1]
      exact read_write_self x hk hh v
    · exact read_writeAll_of_mem l _ hnd.2 hmem hs hh

end Vmx
end X86Emu
