import X86Emu.Lib.RadixWalk
import X86Emu.Paging

/-!
# The page walks as one radix walk

The three page walks of `paging.rs` are one walk of a radix tree, over the list of levels their mode
has: a level is a field of the linear address, whether its entries carry permissions, and whether an
entry may map a large page there. A mapping is read off the path, its leaf last.
-/
namespace X86Emu

open RadixWalk

/-- A level of a paging structure. -/
structure PageLevel where
  /-- The low bit of the level's index in the linear address, and the size of a page it maps. -/
  shift : Nat
  indexBits : Nat
  /-- RW, US and NX of the level's entries count. -/
  carries : Bool
  /-- An entry with PS set maps a page. -/
  large : Bool
  deriving DecidableEq, Repr

/-- The low `n` bits. -/
def lowMask (n : Nat) : U64 := BitVec.ofNat 64 (2 ^ n - 1)

namespace PagingMode

def levels : PagingMode → List PageLevel
  | off => []
  | legacy => [⟨22, 10, true, true⟩, ⟨12, 10, true, false⟩]
  | pae => [⟨30, 2, false, false⟩, ⟨21, 9, true, true⟩, ⟨12, 9, true, false⟩]
  | long => [⟨39, 9, true, false⟩, ⟨30, 9, true, true⟩, ⟨21, 9, true, true⟩, ⟨12, 9, true, false⟩]

def entryBytes : PagingMode → U8
  | off => 0
  | legacy => 4
  | pae | long => 8

/-- The address bits of an entry. -/
def tableMask : PagingMode → U64
  | legacy => addrMask32
  | _ => addrMask64

/-- The address bits of CR3. The PAE root is 32-byte aligned. -/
def rootMask : PagingMode → U64
  | legacy => addrMask32
  | pae => ~~~0x1F
  | _ => addrMask64

/-- Linear addresses have 32 bits outside long mode. -/
def linearBits (mode : PagingMode) (linear : U64) : U64 :=
  match mode with
  | legacy | pae => u64 (u32 linear)
  | _ => linear

def readEntry (mode : PagingMode) (mem : Memory) (addr : U64) : U64 :=
  if mode = legacy then u64 (mem.readU32 addr) else mem.readU64 addr

/-- The tables of a mode, as a linear address selects them. -/
def tree (mode : PagingMode) (mem : Memory) (linear : U64) : Tree PageLevel U64 U64 where
  slot l base :=
    base + ((mode.linearBits linear >>> l.shift) &&& lowMask l.indexBits) * u64 mode.entryBytes
  read := mode.readEntry mem
  present e := test e Pte.p
  stops l e := l.large && test e Pte.ps
  table e := e &&& mode.tableMask

/-- The entries on the way to a linear address, outermost first. -/
def path (mode : PagingMode) (mem : Memory) (cr3 linear : U64) :
    List (Visit PageLevel U64 U64) :=
  (mode.tree mem linear).path mode.levels (cr3 &&& mode.rootMask)

/-- The page frame of a leaf: its address bits less those within the page. -/
def frame (mode : PagingMode) (leaf : Visit PageLevel U64 U64) : U64 :=
  leaf.entry &&& mode.tableMask &&& ~~~lowMask leaf.level.shift

/-- What a complete path to a linear address maps it to. -/
def mapping (mode : PagingMode) (linear : U64) (nxe : Bool) (path : List (Visit PageLevel U64 U64))
    (leaf : Visit PageLevel U64 U64) : Mapping where
  phys := mode.frame leaf + (mode.linearBits linear &&& lowMask leaf.level.shift)
  writable := path.all fun v => !v.level.carries || test v.entry Pte.rw
  user := path.all fun v => !v.level.carries || test v.entry Pte.us
  exec := !(nxe && path.any fun v => v.level.carries && test v.entry Pte.nx)
  walk := path.map (·.addr)
  entryBytes := mode.entryBytes

/-- The radix walk: a mapping when every entry on the path is present. -/
def radixWalk (mode : PagingMode) (mem : Memory) (cr3 linear : U64) (nxe : Bool) : Option Mapping :=
  if (mode.path mem cr3 linear).all fun v => test v.entry Pte.p then
    (mode.path mem cr3 linear).getLast?.map
      (mode.mapping linear nxe (mode.path mem cr3 linear))
  else none

end PagingMode

/-! ## Addresses as the walks cut them -/

/-- A frame and an offset within the page add up without a carry. -/
theorem frame_or_offset (a b : U64) (n : Nat) :
    a &&& ~~~lowMask n ||| b &&& lowMask n = (a &&& ~~~lowMask n) + (b &&& lowMask n) := by
  refine (BitVec.add_eq_or_of_and_eq_zero _ _ ?_).symm
  ext i hi
  simp
  grind

/-- The same where the source writes the frame's bits as one mask. -/
theorem phys_eq (mask : U64) (n : Nat) {cut low : U64} (hcut : cut = mask &&& ~~~lowMask n)
    (hlow : low = lowMask n) (e b : U64) :
    e &&& cut ||| b &&& low = (e &&& mask &&& ~~~lowMask n) + (b &&& lowMask n) := by
  rw [hcut, hlow, ← BitVec.and_assoc, frame_or_offset]

theorem u64_index (x : U32) (k n : Nat) (hn : n ≤ 32) :
    u64 ((x >>> k) &&& BitVec.ofNat 32 (2 ^ n - 1)) = (u64 x >>> k) &&& lowMask n := by
  apply BitVec.eq_of_getLsbD_eq
  intro i hi
  rw [BitVec.getLsbD_setWidth, BitVec.getLsbD_and, BitVec.getLsbD_and, getLsbD_ones, lowMask,
    getLsbD_ones]
  by_cases hin : i < n
  · simp [hi, hin, show i < 32 by omega]
    intro hbit
    have := BitVec.lt_of_getLsbD hbit
    omega
  · simp [hin]

/-! ## The three walks -/

namespace PagingMode

variable {mem : Memory} {cr3 linear : U64} {nxe : Bool}

theorem radixWalk_of_path {mode : PagingMode} {vs : List (Visit PageLevel U64 U64)}
    (h : mode.path mem cr3 linear = vs) :
    mode.radixWalk mem cr3 linear nxe =
      if vs.all fun v => test v.entry Pte.p then vs.getLast?.map (mode.mapping linear nxe vs)
      else none := by
  rw [radixWalk, h]

theorem test_or {n k : Nat} (hk : k < n) (v w : BitVec n) :
    test (v ||| w) ((1 : BitVec n) <<< k) =
      (test v ((1 : BitVec n) <<< k) || test w ((1 : BitVec n) <<< k)) := by
  rw [test_bit _ hk, test_bit _ hk, test_bit _ hk, BitVec.getLsbD_or]

theorem test_and {n k : Nat} (hk : k < n) (v w : BitVec n) :
    test (v &&& w) ((1 : BitVec n) <<< k) =
      (test v ((1 : BitVec n) <<< k) && test w ((1 : BitVec n) <<< k)) := by
  rw [test_bit _ hk, test_bit _ hk, test_bit _ hk, BitVec.getLsbD_and]

theorem test_or_nx (v w : U64) : test (v ||| w) Pte.nx = (test v Pte.nx || test w Pte.nx) :=
  test_or (by decide) v w

theorem test_and_rw (v w : U64) : test (v &&& w) Pte.rw = (test v Pte.rw && test w Pte.rw) :=
  test_and (by decide) v w

theorem test_and_us (v w : U64) : test (v &&& w) Pte.us = (test v Pte.us && test w Pte.us) :=
  test_and (by decide) v w

/-- A 32-bit entry has no NX bit. -/
theorem test_nx_u64 (x : U32) : test (u64 x) Pte.nx = false := by
  rw [Pte.nx, test_bit _ (by decide)]
  simp

theorem legacy_eq : translateLegacy mem cr3 (u32 linear) =
    legacy.radixWalk mem cr3 linear nxe := by
  obtain ⟨t, ht⟩ : ∃ t, t = legacy.tree mem linear := ⟨_, rfl⟩
  obtain ⟨a1, ha1⟩ : ∃ a, a = t.slot ⟨22, 10, true, true⟩ (cr3 &&& addrMask32) := ⟨_, rfl⟩
  obtain ⟨pde, hpde⟩ : ∃ e, e = t.read a1 := ⟨_, rfl⟩
  obtain ⟨a2, ha2⟩ : ∃ a, a = t.slot ⟨12, 10, true, false⟩ (pde &&& addrMask32) := ⟨_, rfl⟩
  obtain ⟨pte, hpte⟩ : ∃ e, e = t.read a2 := ⟨_, rfl⟩
  have hs1 : (cr3 &&& addrMask32) + u64 ((u32 linear >>> 22) &&& 0x3FF) * 4 = a1 := by
    rw [ha1, ht]
    exact congrArg (fun i => (cr3 &&& addrMask32) + i * 4) (u64_index _ 22 10 (by decide))
  have hs2 : (pde &&& addrMask32) + u64 ((u32 linear >>> 12) &&& 0x3FF) * 4 = a2 := by
    rw [ha2, ht]
    exact congrArg (fun i => (pde &&& addrMask32) + i * 4) (u64_index _ 12 10 (by decide))
  have hr1 : u64 (mem.readU32 a1) = pde := by rw [hpde, ht]; rfl
  have hr2 : u64 (mem.readU32 a2) = pte := by rw [hpte, ht]; rfl
  unfold translateLegacy
  dsimp only
  rw [hs1, hr1, hs2, hr2]
  have hroot : legacy.path mem cr3 linear = t.path legacy.levels (cr3 &&& addrMask32) := by
    rw [ht]
    rfl
  by_cases hp : test pde Pte.p
  · by_cases hps : test pde Pte.ps
    · have hpath : legacy.path mem cr3 linear = [⟨⟨22, 10, true, true⟩, a1, pde⟩] := by
        rw [hroot, levels, t.path_stop (by rw [← ha1, ← hpde, ht]; exact hps), ← ha1, ← hpde]
      rw [radixWalk_of_path hpath, if_neg (by simp [hp]), if_pos hps, if_pos (by simp [hp])]
      refine congrArg some ?_
      rw [mapping]
      congr 1
      · exact phys_eq addrMask32 22 (by decide) (by decide) _ _
      · simp
      · simp
      · simp [← hr1, test_nx_u64]
    · have hpath : legacy.path mem cr3 linear =
          [⟨⟨22, 10, true, true⟩, a1, pde⟩, ⟨⟨12, 10, true, false⟩, a2, pte⟩] := by
        rw [hroot, levels, t.path_descend (by rw [← ha1, ← hpde, ht]; exact hp)
          (by rw [← ha1, ← hpde, ht]; exact Bool.eq_false_iff.mpr hps), t.path_last, ← ha1, ← hpde,
          show t.table pde = pde &&& addrMask32 by rw [ht]; rfl, ← ha2, ← hpte]
      rw [radixWalk_of_path hpath, if_neg (by simp [hp]), if_neg hps]
      by_cases hp2 : test pte Pte.p
      · rw [if_neg (by simp [hp2]), if_pos (by simp [hp, hp2])]
        refine congrArg some ?_
        rw [mapping]
        congr 1
        · rw [show u64 (u32 linear &&& 0xFFF) = u64 (u32 linear) &&& 0xFFF from
            BitVec.setWidth_and]
          exact phys_eq addrMask32 12 (by decide) (by decide) _ _
        · simp
        · simp
        · simp [← hr1, ← hr2, test_nx_u64]
      · rw [if_pos (by simp [hp2]), if_neg (by simp [hp2])]
  · have hpath : legacy.path mem cr3 linear = [⟨⟨22, 10, true, true⟩, a1, pde⟩] := by
      rw [hroot, levels, t.path_absent (by rw [← ha1, ← hpde, ht]; exact Bool.eq_false_iff.mpr hp),
        ← ha1, ← hpde]
    rw [radixWalk_of_path hpath, if_pos (by simp [hp]), if_neg (by simp [hp])]

theorem pae_eq : translatePae mem cr3 (u32 linear) nxe = pae.radixWalk mem cr3 linear nxe := by
  obtain ⟨t, ht⟩ : ∃ t, t = pae.tree mem linear := ⟨_, rfl⟩
  obtain ⟨a1, ha1⟩ : ∃ a, a = t.slot ⟨30, 2, false, false⟩ (cr3 &&& ~~~(0x1F : U64)) := ⟨_, rfl⟩
  obtain ⟨pdpte, he1⟩ : ∃ e, e = t.read a1 := ⟨_, rfl⟩
  obtain ⟨a2, ha2⟩ : ∃ a, a = t.slot ⟨21, 9, true, true⟩ (pdpte &&& addrMask64) := ⟨_, rfl⟩
  obtain ⟨pde, he2⟩ : ∃ e, e = t.read a2 := ⟨_, rfl⟩
  obtain ⟨a3, ha3⟩ : ∃ a, a = t.slot ⟨12, 9, true, false⟩ (pde &&& addrMask64) := ⟨_, rfl⟩
  obtain ⟨pte, he3⟩ : ∃ e, e = t.read a3 := ⟨_, rfl⟩
  have hs1 : (cr3 &&& ~~~(0x1F : U64)) + u64 ((u32 linear >>> 30) &&& 0x3) * 8 = a1 := by
    rw [ha1, ht]
    exact congrArg (fun i => (cr3 &&& ~~~(0x1F : U64)) + i * 8) (u64_index _ 30 2 (by decide))
  have hs2 : (pdpte &&& addrMask64) + u64 ((u32 linear >>> 21) &&& 0x1FF) * 8 = a2 := by
    rw [ha2, ht]
    exact congrArg (fun i => (pdpte &&& addrMask64) + i * 8) (u64_index _ 21 9 (by decide))
  have hs3 : (pde &&& addrMask64) + u64 ((u32 linear >>> 12) &&& 0x1FF) * 8 = a3 := by
    rw [ha3, ht]
    exact congrArg (fun i => (pde &&& addrMask64) + i * 8) (u64_index _ 12 9 (by decide))
  have hr1 : mem.readU64 a1 = pdpte := by rw [he1, ht]; rfl
  have hr2 : mem.readU64 a2 = pde := by rw [he2, ht]; rfl
  have hr3 : mem.readU64 a3 = pte := by rw [he3, ht]; rfl
  have htable (e : U64) : t.table e = e &&& addrMask64 := by rw [ht]; rfl
  unfold translatePae
  dsimp only
  rw [hs1, hr1, hs2, hr2, hs3, hr3]
  have hroot : pae.path mem cr3 linear = t.path pae.levels (cr3 &&& ~~~(0x1F : U64)) := by
    rw [ht]
    rfl
  by_cases hp1 : test pdpte Pte.p
  · have hfrom : pae.path mem cr3 linear = ⟨⟨30, 2, false, false⟩, a1, pdpte⟩ ::
        t.path [⟨21, 9, true, true⟩, ⟨12, 9, true, false⟩] (pdpte &&& addrMask64) := by
      rw [hroot, levels, t.path_descend (by rw [← ha1, ← he1, ht]; exact hp1)
        (by rw [ht]; rfl), ← ha1, ← he1, htable]
    rw [if_neg (by simp [hp1])]
    by_cases hp2 : test pde Pte.p
    · by_cases hps : test pde Pte.ps
      · rw [t.path_stop (by rw [← ha2, ← he2, ht]; exact hps), ← ha2, ← he2] at hfrom
        rw [radixWalk_of_path hfrom, if_neg (by simp [hp2]), if_pos hps, if_pos (by simp [hp1, hp2])]
        refine congrArg some ?_
        rw [mapping]
        congr 1
        · exact frame_or_offset (pde &&& addrMask64) _ 21
        · simp
        · simp
        · cases nxe <;> simp
      · rw [t.path_descend (by rw [← ha2, ← he2, ht]; exact hp2)
          (by rw [← ha2, ← he2, ht]; exact Bool.eq_false_iff.mpr hps), t.path_last, ← ha2, ← he2,
          htable, ← ha3, ← he3] at hfrom
        rw [radixWalk_of_path hfrom, if_neg (by simp [hp2]), if_neg hps]
        by_cases hp3 : test pte Pte.p
        · rw [if_neg (by simp [hp3]), if_pos (by simp [hp1, hp2, hp3])]
          refine congrArg some ?_
          rw [mapping]
          congr 1
          · exact phys_eq addrMask64 12 (by decide) (by decide) _ _
          · simp
          · simp
          · cases nxe <;> simp [test_or_nx]
        · rw [if_pos (by simp [hp3]), if_neg (by simp [hp3])]
    · rw [t.path_absent (by rw [← ha2, ← he2, ht]; exact Bool.eq_false_iff.mpr hp2), ← ha2,
        ← he2] at hfrom
      rw [radixWalk_of_path hfrom, if_pos (by simp [hp2]), if_neg (by simp [hp2])]
  · have hpath : pae.path mem cr3 linear = [⟨⟨30, 2, false, false⟩, a1, pdpte⟩] := by
      rw [hroot, levels, t.path_absent (by rw [← ha1, ← he1, ht]; exact Bool.eq_false_iff.mpr hp1),
        ← ha1, ← he1]
    rw [radixWalk_of_path hpath, if_pos (by simp [hp1]), if_neg (by simp [hp1])]

theorem long_eq : translateLong mem cr3 linear nxe = long.radixWalk mem cr3 linear nxe := by
  obtain ⟨t, ht⟩ : ∃ t, t = long.tree mem linear := ⟨_, rfl⟩
  obtain ⟨a1, ha1⟩ : ∃ a, a = t.slot ⟨39, 9, true, false⟩ (cr3 &&& addrMask64) := ⟨_, rfl⟩
  obtain ⟨pml4e, he1⟩ : ∃ e, e = t.read a1 := ⟨_, rfl⟩
  obtain ⟨a2, ha2⟩ : ∃ a, a = t.slot ⟨30, 9, true, true⟩ (pml4e &&& addrMask64) := ⟨_, rfl⟩
  obtain ⟨pdpte, he2⟩ : ∃ e, e = t.read a2 := ⟨_, rfl⟩
  obtain ⟨a3, ha3⟩ : ∃ a, a = t.slot ⟨21, 9, true, true⟩ (pdpte &&& addrMask64) := ⟨_, rfl⟩
  obtain ⟨pde, he3⟩ : ∃ e, e = t.read a3 := ⟨_, rfl⟩
  obtain ⟨a4, ha4⟩ : ∃ a, a = t.slot ⟨12, 9, true, false⟩ (pde &&& addrMask64) := ⟨_, rfl⟩
  obtain ⟨pte, he4⟩ : ∃ e, e = t.read a4 := ⟨_, rfl⟩
  have hs1 : (cr3 &&& addrMask64) + ((linear >>> 39) &&& 0x1FF) * 8 = a1 := by
    rw [ha1, ht]
    rfl
  have hs2 : (pml4e &&& addrMask64) + ((linear >>> 30) &&& 0x1FF) * 8 = a2 := by
    rw [ha2, ht]
    rfl
  have hs3 : (pdpte &&& addrMask64) + ((linear >>> 21) &&& 0x1FF) * 8 = a3 := by
    rw [ha3, ht]
    rfl
  have hs4 : (pde &&& addrMask64) + ((linear >>> 12) &&& 0x1FF) * 8 = a4 := by
    rw [ha4, ht]
    rfl
  have hr1 : mem.readU64 a1 = pml4e := by rw [he1, ht]; rfl
  have hr2 : mem.readU64 a2 = pdpte := by rw [he2, ht]; rfl
  have hr3 : mem.readU64 a3 = pde := by rw [he3, ht]; rfl
  have hr4 : mem.readU64 a4 = pte := by rw [he4, ht]; rfl
  have htable (e : U64) : t.table e = e &&& addrMask64 := by rw [ht]; rfl
  unfold translateLong
  dsimp only
  rw [hs1, hr1, hs2, hr2, hs3, hr3, hs4, hr4]
  have hroot : long.path mem cr3 linear = t.path long.levels (cr3 &&& addrMask64) := by
    rw [ht]
    rfl
  by_cases hp1 : test pml4e Pte.p
  · have hfrom : long.path mem cr3 linear = ⟨⟨39, 9, true, false⟩, a1, pml4e⟩ ::
        t.path [⟨30, 9, true, true⟩, ⟨21, 9, true, true⟩, ⟨12, 9, true, false⟩]
          (pml4e &&& addrMask64) := by
      rw [hroot, levels, t.path_descend (by rw [← ha1, ← he1, ht]; exact hp1)
        (by rw [ht]; rfl), ← ha1, ← he1, htable]
    rw [if_neg (by simp [hp1])]
    by_cases hp2 : test pdpte Pte.p
    · rw [if_neg (by simp [hp2])]
      by_cases hps2 : test pdpte Pte.ps
      · rw [t.path_stop (by rw [← ha2, ← he2, ht]; exact hps2), ← ha2, ← he2] at hfrom
        rw [radixWalk_of_path hfrom, if_pos hps2, if_pos (by simp [hp1, hp2])]
        refine congrArg some ?_
        rw [mapping]
        congr 1
        · exact frame_or_offset (pdpte &&& addrMask64) _ 30
        · simp
        · simp
        · cases nxe <;> simp [test_or_nx]
      · rw [t.path_descend (by rw [← ha2, ← he2, ht]; exact hp2)
          (by rw [← ha2, ← he2, ht]; exact Bool.eq_false_iff.mpr hps2), ← ha2, ← he2,
          htable] at hfrom
        rw [if_neg hps2]
        by_cases hp3 : test pde Pte.p
        · rw [if_neg (by simp [hp3])]
          by_cases hps3 : test pde Pte.ps
          · rw [t.path_stop (by rw [← ha3, ← he3, ht]; exact hps3), ← ha3, ← he3] at hfrom
            rw [radixWalk_of_path hfrom, if_pos hps3, if_pos (by simp [hp1, hp2, hp3])]
            refine congrArg some ?_
            rw [mapping]
            congr 1
            · exact frame_or_offset (pde &&& addrMask64) _ 21
            · simp [test_and_rw, Bool.and_assoc]
            · simp [test_and_us, Bool.and_assoc]
            · cases nxe <;> simp [test_or_nx, Bool.or_assoc]
          · rw [t.path_descend (by rw [← ha3, ← he3, ht]; exact hp3)
              (by rw [← ha3, ← he3, ht]; exact Bool.eq_false_iff.mpr hps3), t.path_last, ← ha3,
              ← he3, htable, ← ha4, ← he4] at hfrom
            rw [radixWalk_of_path hfrom, if_neg hps3]
            by_cases hp4 : test pte Pte.p
            · rw [if_neg (by simp [hp4]), if_pos (by simp [hp1, hp2, hp3, hp4])]
              refine congrArg some ?_
              rw [mapping]
              congr 1
              · exact phys_eq addrMask64 12 (by decide) (by decide) _ _
              · simp [test_and_rw, Bool.and_assoc]
              · simp [test_and_us, Bool.and_assoc]
              · cases nxe <;> simp [test_or_nx, Bool.or_assoc]
            · rw [if_pos (by simp [hp4]), if_neg (by simp [hp4])]
        · rw [t.path_absent (by rw [← ha3, ← he3, ht]; exact Bool.eq_false_iff.mpr hp3), ← ha3,
            ← he3] at hfrom
          rw [radixWalk_of_path hfrom, if_pos (by simp [hp3]), if_neg (by simp [hp3])]
    · rw [t.path_absent (by rw [← ha2, ← he2, ht]; exact Bool.eq_false_iff.mpr hp2), ← ha2,
        ← he2] at hfrom
      rw [radixWalk_of_path hfrom, if_pos (by simp [hp2]), if_neg (by simp [hp2])]
  · have hpath : long.path mem cr3 linear = [⟨⟨39, 9, true, false⟩, a1, pml4e⟩] := by
      rw [hroot, levels, t.path_absent (by rw [← ha1, ← he1, ht]; exact Bool.eq_false_iff.mpr hp1),
        ← ha1, ← he1]
    rw [radixWalk_of_path hpath, if_pos (by simp [hp1]), if_neg (by simp [hp1])]

/-- Each walk of the source is the radix walk of its mode. -/
theorem translateMode_eq_radixWalk {mode : PagingMode} (h : mode ≠ off) :
    translateMode mem cr3 linear mode nxe = mode.radixWalk mem cr3 linear nxe := by
  cases mode with
  | off => exact absurd rfl h
  | legacy => exact legacy_eq
  | pae => exact pae_eq
  | long => exact long_eq

/-! ## Addresses of one page -/

theorem bit_of_samePage {l l' : U64} (h : l' >>> 12 = l >>> 12) {i : Nat} (hi : 12 ≤ i) :
    l'.getLsbD i = l.getLsbD i := by
  have hbit := congrArg (fun v : U64 => v.getLsbD (i - 12)) h
  simpa [BitVec.getLsbD_ushiftRight, Nat.add_sub_cancel' hi] using hbit

theorem getLsbD_linearBits (mode : PagingMode) (linear : U64) (i : Nat) :
    (mode.linearBits linear).getLsbD i =
      (linear.getLsbD i && (decide (i < 32) || mode == off || mode == long)) := by
  cases mode with
  | off | long => simp [linearBits]
  | legacy | pae =>
    by_cases hi : i < 32
    · simp [linearBits, hi, show i < 64 by omega]
    · simp [linearBits, hi]

theorem shift_linearBits {l l' : U64} (h : l' >>> 12 = l >>> 12) (mode : PagingMode) {k : Nat}
    (hk : 12 ≤ k) : mode.linearBits l' >>> k = mode.linearBits l >>> k := by
  apply BitVec.eq_of_getLsbD_eq
  intro i hi
  rw [BitVec.getLsbD_ushiftRight, BitVec.getLsbD_ushiftRight, getLsbD_linearBits,
    getLsbD_linearBits, bit_of_samePage h (by omega)]

theorem shift_of_mem_levels {mode : PagingMode} {l : PageLevel} (h : l ∈ mode.levels) :
    12 ≤ l.shift ∧ l.shift ≤ 39 := by
  revert l
  cases mode <;> decide

/-- Addresses of one page take the same path. -/
theorem path_samePage {l l' : U64} (h : l' >>> 12 = l >>> 12) (mode : PagingMode) :
    mode.path mem cr3 l' = mode.path mem cr3 l := by
  refine Tree.path_congr (mode.tree mem l') (mode.tree mem l) (fun k hk => ?_) rfl rfl rfl rfl _
  funext base
  exact congrArg (fun x => base + (x &&& lowMask k.indexBits) * u64 mode.entryBytes)
    (shift_linearBits h mode (shift_of_mem_levels hk).1)

/-- The mapping of one address of a page served to another, as the TLB serves it. -/
def served (map : Mapping) (linear : U64) : Mapping :=
  { map with phys := (map.phys >>> 12) <<< 12 ||| linear &&& 0xFFF }

theorem mapping_samePage {l l' : U64} (h : l' >>> 12 = l >>> 12) (mode : PagingMode)
    (path : List (Visit PageLevel U64 U64)) {leaf : Visit PageLevel U64 U64}
    (hleaf : 12 ≤ leaf.level.shift) :
    mode.mapping l' nxe path leaf = served (mode.mapping l nxe path leaf) l' := by
  have hphys : mode.frame leaf + (mode.linearBits l' &&& lowMask leaf.level.shift) =
      ((mode.frame leaf + (mode.linearBits l &&& lowMask leaf.level.shift)) >>> 12) <<< 12 |||
        l' &&& 0xFFF := by
    rw [frame, ← frame_or_offset, ← frame_or_offset]
    apply BitVec.eq_of_getLsbD_eq
    intro i hi
    have hlow : (0xFFF : U64).getLsbD i = decide (i < 12) := by
      rw [show (0xFFF : U64) = BitVec.ofNat 64 (2 ^ 12 - 1) from rfl, getLsbD_ones]
      simp [hi]
    simp only [BitVec.getLsbD_or, BitVec.getLsbD_and, BitVec.getLsbD_not, BitVec.getLsbD_shiftLeft,
      BitVec.getLsbD_ushiftRight, lowMask, getLsbD_ones, hlow, getLsbD_linearBits, hi]
    by_cases h12 : i < 12
    · simp [h12, show i < leaf.level.shift by omega, show i < 32 by omega]
    · rw [show 12 + (i - 12) = i by omega, bit_of_samePage h (by omega)]
      simp [h12, hi]
  rw [served, mapping, hphys]
  rfl

/-- The walk of one address of a page serves every other. -/
theorem translateMode_samePage {l l' : U64} (h : l' >>> 12 = l >>> 12) {mode : PagingMode}
    (hmode : mode ≠ off) : translateMode mem cr3 l' mode nxe =
      (translateMode mem cr3 l mode nxe).map (served · l') := by
  have hlevels : mode.levels ≠ [] := by
    cases mode <;> first | exact absurd rfl hmode | exact nofun
  obtain ⟨leaf, hleaf⟩ : ∃ leaf, (mode.path mem cr3 l).getLast? = some leaf :=
    Option.isSome_iff_exists.mp (List.getLast?_isSome.mpr (Tree.path_ne_nil _ hlevels _))
  have hmem : leaf.level ∈ mode.levels :=
    Tree.level_of_mem_path _ (List.mem_of_getLast? hleaf)
  rw [translateMode_eq_radixWalk hmode, translateMode_eq_radixWalk hmode, radixWalk, radixWalk,
    path_samePage h, hleaf]
  split
  · exact congrArg some (mapping_samePage h mode _ (shift_of_mem_levels hmem).1)
  · rfl

end PagingMode

/-! ## The refinement -/

/-- A walk of the source is a walk of the radix tree of its mode. -/
structure RefinesRadixWalk (mem : Memory) (cr3 linear : U64) (mode : PagingMode) (nxe : Bool) :
    Prop where
  reads : ∀ v ∈ mode.path mem cr3 linear, v.entry = mode.readEntry mem v.addr
  absent : translateMode mem cr3 linear mode nxe = none ↔
    ∃ v ∈ mode.path mem cr3 linear, test v.entry Pte.p = false
  mapped : ∀ map, translateMode mem cr3 linear mode nxe = some map →
    ∃ leaf, (mode.path mem cr3 linear).getLast? = some leaf ∧
      map.phys = mode.frame leaf + (mode.linearBits linear &&& lowMask leaf.level.shift) ∧
      (map.writable = true ↔
        ∀ v ∈ mode.path mem cr3 linear, v.level.carries = true → test v.entry Pte.rw = true) ∧
      (map.user = true ↔
        ∀ v ∈ mode.path mem cr3 linear, v.level.carries = true → test v.entry Pte.us = true) ∧
      (map.exec = false ↔ nxe = true ∧
        ∃ v ∈ mode.path mem cr3 linear, v.level.carries = true ∧ test v.entry Pte.nx = true) ∧
      map.walk = (mode.path mem cr3 linear).map (·.addr) ∧ map.entryBytes = mode.entryBytes
  samePage : ∀ linear' : U64, linear' >>> 12 = linear >>> 12 →
    translateMode mem cr3 linear' mode nxe =
      (translateMode mem cr3 linear mode nxe).map (PagingMode.served · linear')

/-- Each of the three walks refines the radix walk of its mode, and what it finds for one address
of a page serves every other. -/
theorem page_walks_refine (mem : Memory) (cr3 linear : U64) (nxe : Bool) {mode : PagingMode}
    (h : mode ≠ .off) : RefinesRadixWalk mem cr3 linear mode nxe := by
  have hwalk : translateMode mem cr3 linear mode nxe = mode.radixWalk mem cr3 linear nxe :=
    PagingMode.translateMode_eq_radixWalk h
  have hlevels : mode.levels ≠ [] := by cases mode <;> first | exact absurd rfl h | exact nofun
  obtain ⟨leaf, hleaf⟩ : ∃ leaf, (mode.path mem cr3 linear).getLast? = some leaf :=
    Option.isSome_iff_exists.mp (List.getLast?_isSome.mpr (Tree.path_ne_nil _ hlevels _))
  have hradix : mode.radixWalk mem cr3 linear nxe =
      if (mode.path mem cr3 linear).all fun v => test v.entry Pte.p then
        some (mode.mapping linear nxe (mode.path mem cr3 linear) leaf)
      else none := by
    rw [PagingMode.radixWalk, hleaf]
    rfl
  refine ⟨fun v hv => Tree.entry_of_mem_path _ hv, ?_, fun map hmap => ?_, fun l hl =>
    PagingMode.translateMode_samePage hl h⟩
  · rw [hwalk, hradix]
    split
    · rename_i hall
      simp only [reduceCtorEq, false_iff, not_exists, not_and]
      exact fun v hv => by simpa using List.all_eq_true.mp hall v hv
    · rename_i hall
      simpa using hall
  · rw [hwalk, hradix] at hmap
    split at hmap
    · obtain rfl := Option.some.inj hmap
      refine ⟨leaf, hleaf, rfl, ?_, ?_, ?_, rfl, rfl⟩
      · simp [PagingMode.mapping, imp_iff_not_or]
      · simp [PagingMode.mapping, imp_iff_not_or]
      · simp [PagingMode.mapping]
    · cases hmap

/-- A page directory whose first entry maps a 4 MiB page. -/
theorem large_page_refines :
    RefinesRadixWalk ((Memory.withSize (2 ^ 16) (by decide)).writeU32 0x1000 0x83) 0x1000 0x12345
      .legacy false :=
  page_walks_refine _ _ _ _ (by decide)

end X86Emu
