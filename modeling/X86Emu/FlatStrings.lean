import X86Emu.SplitAccess
import X86Emu.Strings
import X86Emu.Lib.BlockCopy

/-!
# String instructions without paging

Where an address is not translated no element faults, and a repeated MOVS or STOS runs to its end.
MOVS then moves a block, as the direction flag and the overlap of the two blocks allow, and STOS
fills one. Elements that cross a page are stored byte by byte and the others whole: it makes no
difference.
-/
namespace X86Emu

open StateRules Memory BlockCopy

namespace Cpu

variable {s : Cpu} {r : SegReg} {off l v : U64} {w : Width}

/-- Nothing pending and no paging: a linear address is a physical one. -/
structure Flat (s : Cpu) : Prop where
  clear : s.pendingException = none
  unpaged : test s.cr0 cr0Pg = false
  legacy : s.longMode = false

def withMem (s : Cpu) (m : Memory) : Cpu := { s with mem := m }

theorem Flat.withMem (h : s.Flat) (m : Memory) : (s.withMem m).Flat :=
  ⟨h.clear, h.unpaged, h.legacy⟩

/-- The base of a segment. -/
def segBase (s : Cpu) (r : SegReg) : U64 :=
  if s.pe then u64 (s.segDesc r).base else u64 (s.seg r) <<< 4

theorem Flat.linearAddr (h : s.Flat) (r : SegReg) (off : U64) :
    s.linearAddr r off = (s.segBase r + off) &&& 0xFFFFFFFF := by
  have hlong : ¬ s.long64 = true := by
    rw [long64, h.legacy]
    exact Bool.false_ne_true
  unfold Cpu.linearAddr segBase
  rw [if_neg hlong]
  split <;> rfl

theorem Flat.access (h : s.Flat) (l : U64) (write : Bool) :
    applyPagingAccess l write s = (l, s) := by
  unfold applyPagingAccess applyPagingInner
  rw [h.legacy, h.unpaged]
  rfl

theorem Flat.translate (h : s.Flat) (r : SegReg) (off : U64) :
    X86Emu.translate r off s = (s.linearAddr r off, s) ∧
      X86Emu.translateWrite r off s = (s.linearAddr r off, s) := by
  have hrun (write : Bool) : translateAccess r off write s = (s.linearAddr r off, s) := by
    rw [translateAccess, bind_run, get_run]
    exact h.access _ write
  exact ⟨hrun false, hrun true⟩

theorem splitAddr_flat {i : Nat} (hi : i < 16) :
    splitAddr l (nextPage l) (0x1000 - (l &&& 0xFFF).toNat) i = l + BitVec.ofNat 64 i := by
  unfold splitAddr
  rw [offset_toNat]
  split
  · rfl
  · rw [nextPage_add (l := l) (i := i) (by omega) (by omega)]
    have hsub : BitVec.ofNat 64 i = BitVec.ofNat 64 (i - (0x1000 - l.toNat % 4096)) +
        BitVec.ofNat 64 (0x1000 - l.toNat % 4096) := by
      rw [← BitVec.ofNat_add]
      congr 1
      omega
    nth_rewrite 1 [hsub]
    rw [← BitVec.add_assoc, BitVec.add_sub_cancel]

/-- An element splits no cell of the text window. -/
def CellsWhole (l : U64) (w : Width) : Prop := w ≠ .w8 → ¬ WindowSeam l.toNat w.wide

/-- An element read is its bytes. -/
theorem Flat.strRead (h : s.Flat) (hl : s.linearAddr r off = l) (hcells : CellsWhole l w) :
    ∃ v, X86Emu.strRead l r off w s = (v, s) ∧
      ∀ i < w.bytes, byteOf v i = s.mem.readU8 (l + BitVec.ofNat 64 i) := by
  unfold X86Emu.strRead
  rw [bind_run, get_run]
  dsimp only
  rw [ite_run]
  split
  · have hnone : ¬ s.pendingException.isSome = true := by
      rw [h.clear]
      exact Bool.false_ne_true
    rw [bind_run, hl, readSplit_run (h.access (nextPage l) false), if_neg hnone]
    refine ⟨_, rfl, fun i hi => ?_⟩
    have hbytes : w.bytes ≤ 8 := w.bytes_le_word
    rw [byteOf_narrow _ (by omega), byteOf_gather _ w.bytes (by omega), if_pos hi,
      splitAddr_flat (by omega)]
  · rename_i hin
    refine ⟨_, rfl, fun i hi => ?_⟩
    by_cases hw : w = .w8
    · subst hw
      obtain rfl : i = 0 := Nat.lt_one_iff.mp hi
      rw [BitVec.add_zero]
      exact (byteOf_widen _ (by decide)).trans (by simp [byteOf])
    · have hpage : ¬ straddles l w.bytes = true := fun hc => hin ⟨hw, hc⟩
      exact (byteOf_memReadW s.mem hw hpage (hcells hw) i).trans (if_pos hi)

/-- An element is stored as its bytes. -/
theorem Flat.strWrite (h : s.Flat) (hl : s.linearAddr r off = l) (hcells : CellsWhole l w)
    (v : U64) :
    ∃ m, X86Emu.strWrite l r off w v s = ((), s.withMem m) ∧
      Memory.Stored s.mem m l w.bytes (byteOf v) := by
  unfold X86Emu.strWrite
  rw [bind_run, get_run]
  dsimp only
  rw [ite_run]
  split
  · have hnone : ¬ s.pendingException.isSome = true := by
      rw [h.clear]
      exact Bool.false_ne_true
    have hrun := writeSplit_run (p := l) (n := w.bytes) (v := u128 v) (h.access (nextPage l) true)
    rw [if_neg hnone] at hrun
    refine ⟨_, Prod.ext rfl (by rw [hl, hrun]; rfl), ?_⟩
    have hbytes : w.bytes ≤ 8 := w.bytes_le_word
    refine Memory.Stored.congr ?_ fun i hi => congrFun (byteOf_u128 v) i
    have hfold : (List.range w.bytes).foldl (fun m i => m.writeU8
        (splitAddr l (nextPage l) (0x1000 - (l &&& 0xFFF).toNat) i) (byteOf (u128 v) i)) s.mem =
        s.mem.writeBytes l w.bytes (byteOf (u128 v)) := by
      refine List.foldl_ext _ _ _ fun m i hi => ?_
      have hin : i < w.bytes := List.mem_range.mp hi
      rw [splitAddr_flat (by omega)]
    dsimp only
    rw [hfold]
    exact stored_writeBytes s.mem l w.bytes (by omega) _
  · rename_i hin
    refine ⟨memWriteW l w v s.mem, rfl, ?_⟩
    by_cases hw : w = .w8
    · subst hw
      refine (stored_writeU8 s.mem l (u8 v)).congr fun i hi => ?_
      obtain rfl : i = 0 := Nat.lt_one_iff.mp hi
      exact BitVec.setWidth_eq_extractLsb' (by decide)
    · have hpage : ¬ straddles l w.bytes = true := fun hc => hin ⟨hw, hc⟩
      exact (bytewise s.mem hw (not_onSeam hw hpage (hcells hw) _)).write v

end Cpu

/-! ## The loop -/

section Loop

variable {s : Cpu} {w asize : Width} {step si di : U64} {n : Nat}

/-- Where the element `k` of a loop starts. -/
def elementIndex (step : U64) (asize : Width) (idx : U64) (k : Nat) : U64 :=
  (stringAdvance · step asize)^[k] idx

/-- A loop whose elements only store goes through them all. -/
theorem stringLoop_stores {op : StringOp} (hop : op.compares = false) (rep : Rep)
    (hclear : s.pendingException = none) {R : Nat → Memory → Memory → Prop}
    (helement : ∀ k < n, ∀ m, ∃ m', R k m m' ∧ op.element w (elementIndex step asize si k)
      (elementIndex step asize di k) (s.withMem m) = ((), s.withMem m')) :
    ∃ M : Nat → Memory, M 0 = s.mem ∧ (∀ k < n, R k (M k) (M (k + 1))) ∧
      stringLoop op rep w step asize n si di s =
        (⟨elementIndex step asize si n, elementIndex step asize di n, 0⟩, s.withMem (M n)) := by
  induction n generalizing s si di R with
  | zero => exact ⟨fun _ => s.mem, rfl, fun k hk => absurd hk (Nat.not_lt_zero k), rfl⟩
  | succ n ih =>
    obtain ⟨m, hm, hrun⟩ := helement 0 (Nat.succ_pos n) s.mem
    replace hrun : op.element w si di s = ((), s.withMem m) := hrun
    obtain ⟨M, hzero, hsteps, hloop⟩ := @ih (s.withMem m) (stringAdvance si step asize)
      (stringAdvance di step asize) hclear (fun k => R (k + 1)) fun k hk m' =>
        helement (k + 1) (by omega) m'
    have hnone : ¬ (s.withMem m).pendingException.isSome = true := by
      rw [show (s.withMem m).pendingException = none from hclear]
      exact Bool.false_ne_true
    have hmore : ¬ (op.compares && !stringRepeat (s.withMem m) rep n) = true := by
      rw [hop]
      exact Bool.false_ne_true
    refine ⟨fun k => Nat.casesOn k s.mem M, rfl, fun k hk => ?_, ?_⟩
    · cases k with
      | zero =>
        show R 0 s.mem (M 0)
        rw [hzero]
        exact hm
      | succ k => exact hsteps k (by omega)
    · unfold stringLoop
      rw [bind_run, hrun, bind_run, get_run]
      dsimp only
      rw [ite_run, if_neg hnone, ite_run, if_neg hmore]
      exact hloop

end Loop

/-! ## Strips of elements -/

/-- The place of the element `k` of `n` in memory: the elements are taken upwards, or downwards with
DF set. -/
def elementPlace (s : Cpu) (n k : Nat) : Nat := if s.getFlag Flags.df then n - 1 - k else k

theorem elementPlace_lt {s : Cpu} {n k : Nat} (hk : k < n) : elementPlace s n k < n := by
  unfold elementPlace
  split <;> omega

theorem elementPlace_surj (s : Cpu) {n j : Nat} (hj : j < n) : ∃ k < n, elementPlace s n k = j := by
  unfold elementPlace
  split
  · exact ⟨n - 1 - j, by omega, by omega⟩
  · exact ⟨j, hj, rfl⟩

/-- The `n` elements an index register is to go over lie from `a` on: it starts at the one taken
first, neither it nor the address wraps on the way, and none splits a cell of the text window. -/
structure Strip (s : Cpu) (w : Width) (r : SegReg) (idx : U64) (n a : Nat) : Prop where
  starts : ∃ off, idx.toNat = off + elementPlace s n 0 * w.bytes ∧
    off + n * w.bytes ≤ 2 ^ s.asize.bits ∧ (s.segBase r).toNat + off = a
  low : a + n * w.bytes ≤ 2 ^ 32
  cells : ∀ k < n, Cpu.CellsWhole (BitVec.ofNat 64 (a + k * w.bytes)) w

theorem stringAdvance_toNat (v step : U64) {asize : Width} (h : asize ≠ .w8) :
    (stringAdvance v step asize).toNat = (v.toNat + step.toNat) % 2 ^ asize.bits := by
  cases asize with
  | w8 => exact absurd rfl h
  | w16 =>
    show ((v + step) &&& 0xFFFF).toNat = _
    rw [BitVec.toNat_and, BitVec.toNat_add]
    refine (Nat.and_two_pow_sub_one_eq_mod _ 16).trans ?_
    exact Nat.mod_mod_of_dvd _ (by decide)
  | w32 =>
    show ((v + step) &&& 0xFFFFFFFF).toNat = _
    rw [BitVec.toNat_and, BitVec.toNat_add]
    refine (Nat.and_two_pow_sub_one_eq_mod _ 32).trans ?_
    exact Nat.mod_mod_of_dvd _ (by decide)
  | w64 => exact BitVec.toNat_add v step

section Strips

variable {s : Cpu} {w : Width} {r : SegReg} {idx : U64} {n a k : Nat}

theorem asize_ne_w8 (s : Cpu) : s.asize ≠ .w8 := by
  unfold Cpu.asize
  split
  · decide
  · split <;> decide

theorem elementIndex_toNat {off : Nat} (h : idx.toNat = off + elementPlace s n 0 * w.bytes)
    (hfit : off + n * w.bytes ≤ 2 ^ s.asize.bits) (hk : k < n) :
    (elementIndex (stringStep s w) s.asize idx k).toNat =
      off + elementPlace s n k * w.bytes := by
  have hbits : s.asize.bits ≤ 64 := by cases s.asize <;> decide
  have hdvd : 2 ^ s.asize.bits ∣ 2 ^ 64 := Nat.pow_dvd_pow 2 hbits
  have hbytes : w.bytes ≤ 8 := w.bytes_le_word
  have hpos : 0 < w.bytes := by cases w <;> decide
  induction k with
  | zero => exact h
  | succ k ih =>
    have hlast := Nat.mul_le_mul_right w.bytes (Nat.succ_le_of_lt (elementPlace_lt (s := s) hk))
    rw [Nat.succ_mul] at hlast
    unfold elementIndex at ih ⊢
    rw [Function.iterate_succ_apply', stringAdvance_toNat _ _ (asize_ne_w8 s), ih (by omega)]
    unfold elementPlace stringStep at *
    split
    · rename_i hdf
      rw [if_pos hdf] at hlast
      have hmul : (n - 1 - k) * w.bytes = (n - 1 - (k + 1)) * w.bytes + w.bytes := by
        rw [← Nat.succ_mul]
        congr 1
        omega
      have hneg : (-BitVec.ofNat 64 w.bytes).toNat = 2 ^ 64 - w.bytes := by
        rw [BitVec.toNat_neg, BitVec.toNat_ofNat]
        omega
      obtain ⟨c, hc⟩ := hdvd
      rw [hmul, hneg, show off + ((n - 1 - (k + 1)) * w.bytes + w.bytes) + (2 ^ 64 - w.bytes) =
        off + (n - 1 - (k + 1)) * w.bytes + 2 ^ s.asize.bits * c by omega,
        Nat.add_mul_mod_self_left, Nat.mod_eq_of_lt (by omega)]
    · rename_i hdf
      rw [if_neg hdf, Nat.succ_mul] at hlast
      have hone : (BitVec.ofNat 64 w.bytes).toNat = w.bytes := by
        rw [BitVec.toNat_ofNat]
        omega
      rw [hone, Nat.succ_mul, Nat.mod_eq_of_lt (by omega)]
      omega

/-- The address of an element. -/
theorem Strip.linearAddr (h : Strip s w r idx n a) (hs : s.Flat) (hk : k < n) :
    s.linearAddr r (elementIndex (stringStep s w) s.asize idx k) =
      BitVec.ofNat 64 (a + elementPlace s n k * w.bytes) := by
  obtain ⟨off, hstart, hfit, hbase⟩ := h.starts
  have hlow := h.low
  have hplace := Nat.mul_le_mul_right w.bytes (Nat.succ_le_of_lt (elementPlace_lt (s := s) hk))
  have hpos : 0 < w.bytes := by cases w <;> decide
  rw [Nat.succ_mul] at hplace
  apply BitVec.eq_of_toNat_eq
  rw [hs.linearAddr, BitVec.toNat_and, BitVec.toNat_add, elementIndex_toNat hstart hfit hk,
    BitVec.toNat_ofNat]
  refine (Nat.and_two_pow_sub_one_eq_mod _ 32).trans ?_
  omega

end Strips

/-! ## Bytes as places -/

section Places

variable {m m' : Memory} {n d : Nat} {v : Nat → U8}

/-- Memory by the number of a place. -/
def bytesAt (m : Memory) (x : Nat) : U8 := m.readU8 (BitVec.ofNat 64 x)

/-- There is RAM, or the text window, at each of the places. -/
def BackedAt (m : Memory) (d n : Nat) : Prop := ∀ i < n, m.backed (BitVec.ofNat 64 (d + i))

/-- A store where there is memory lays an element down. -/
theorem lays_of_stored (h : Memory.Stored m m' (BitVec.ofNat 64 d) n v) (hd : d + n ≤ 2 ^ 32)
    (hback : BackedAt m d n) : Lays (2 ^ 64) n d v (bytesAt m) (bytesAt m') := by
  intro x hx
  have hsub : (BitVec.ofNat 64 x - BitVec.ofNat 64 d).toNat = (2 ^ 64 - d + x) % 2 ^ 64 := by
    rw [BitVec.toNat_sub, BitVec.toNat_ofNat, BitVec.toNat_ofNat]
    omega
  unfold bytesAt
  rw [h.byte, hsub]
  by_cases hin : d ≤ x ∧ x < d + n
  · have hplace : (2 ^ 64 - d + x) % 2 ^ 64 = x - d := by omega
    have hb := hback (x - d) (by omega)
    rw [show d + (x - d) = x by omega] at hb
    rw [hplace, if_pos ⟨by omega, hb⟩, if_pos hin]
  · rw [if_neg fun hc => hin (by omega), if_neg hin]

end Places

end X86Emu
