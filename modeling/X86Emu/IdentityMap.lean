import X86Emu.Boot
import X86Emu.WalkMarks
import X86Emu.Operand
import X86Emu.StoreRun
import Mathlib.Logic.Relation

/-!
# The firmware identity map

The tables `build_identity_map` leaves are 3072 words, read back here by the four-level walk. An
access sets accessed and dirty bits in them, which steer no walk; so the map outlives any run of
accesses that stores nothing to the tables.
-/
namespace X86Emu

open Boot StateRules

namespace Memory

variable {m m' m'' : Memory} {k j lo hi lo' hi' : Nat}

/-! ## Words of low memory -/

/-- The address of the `k`-th word of memory. -/
def word (k : Nat) : U64 := BitVec.ofNat 64 (8 * k)

theorem word_toNat (hk : k < 2 ^ 16) : (word k).toNat = 8 * k := by
  rw [word, BitVec.toNat_ofNat]
  omega

theorem word_byte (hk : k < 2 ^ 16) {i : Nat} (hi : i < 8) :
    (word k + BitVec.ofNat 64 i).toNat = 8 * k + i := by
  rw [BitVec.toNat_add, word_toNat hk, BitVec.toNat_ofNat]
  omega

theorem word_add (k i n : Nat) :
    word k + BitVec.ofNat 64 i * BitVec.ofNat 64 (8 * n) = word (k + i * n) := by
  rw [word, word, ← BitVec.ofNat_mul, ← BitVec.ofNat_add]
  exact congrArg (BitVec.ofNat 64) (by ring)

theorem block_word (hk : k < 2 ^ 16) (m : Memory) : m.Block (word k) 8 :=
  m.block_of_aligned _ (by decide) (by decide) ⟨k, word_toNat hk⟩

/-- The first megabyte is RAM, whatever its size. -/
theorem backed_low {b : U64} (hb : b.toNat < 2 ^ 20) : m.backed b := by
  have hle := m.one_mib_le
  have hlow := m.lowSize_eq
  have hhole : 2 ^ 20 ≤ mmioHoleStart := by decide
  refine .inr ?_
  rw [(m.slot_eq_some_iff b).mpr (.inl ⟨by omega, rfl⟩)]
  rfl

/-- Reading back a word that was stored. -/
theorem readU64_writeU64_word (hk : k < 2 ^ 16) (v : U64) :
    (m.writeU64 (word k) v).readU64 (word k) = v := by
  refine (block_word hk _).readU64_of_bytes fun i hi => ?_
  have hadd := word_byte hk hi
  have hoff : (word k + BitVec.ofNat 64 i - word k).toNat = i := by
    rw [BitVec.toNat_sub, hadd, word_toNat hk]
    omega
  rw [((block_word hk m).stored_writeU64 v).byte, hoff, if_pos ⟨hi, backed_low (by omega)⟩]

/-- A store to a word leaves every byte outside it. -/
theorem readU8_writeU64_word (hk : k < 2 ^ 16) (v : U64) {b : U64}
    (hb : b.toNat < 8 * k ∨ 8 * (k + 1) ≤ b.toNat) :
    (m.writeU64 (word k) v).readU8 b = m.readU8 b := by
  rw [((block_word hk m).stored_writeU64 v).byte, if_neg]
  rintro ⟨hlt, -⟩
  have hb64 := b.isLt
  rw [BitVec.toNat_sub, word_toNat hk] at hlt
  omega

/-- A word reads the same where its bytes do. -/
theorem readU64_word_congr (hk : k < 2 ^ 16) (hs : ∀ b, m'.slot b = m.slot b)
    (hb : ∀ b : U64, 8 * k ≤ b.toNat → b.toNat < 8 * (k + 1) → m'.readU8 b = m.readU8 b) :
    m'.readU64 (word k) = m.readU64 (word k) := by
  refine (block_word hk m).readU64_congr hs fun i hi => hb _ ?_ ?_ <;>
  · rw [word_byte hk hi]
    omega

/-! ## Runs of words -/

/-- The words from `lo` to `hi` are those of `f`; every byte outside them is as it was. -/
structure Words (m m' : Memory) (lo hi : Nat) (f : Nat → U64) : Prop where
  slot : ∀ b, m'.slot b = m.slot b
  inside : ∀ k, lo ≤ k → k < hi → m'.readU64 (word k) = f k
  outside : ∀ b : U64, b.toNat < 8 * lo ∨ 8 * hi ≤ b.toNat → m'.readU8 b = m.readU8 b

namespace Words

variable {f g : Nat → U64}

theorem congr (h : Words m m' lo hi f) (hfg : ∀ k, lo ≤ k → k < hi → f k = g k) :
    Words m m' lo hi g :=
  ⟨h.slot, fun k hlo hhi => (h.inside k hlo hhi).trans (hfg k hlo hhi), h.outside⟩

theorem single (hk : k < 2 ^ 16) (m : Memory) (v : U64) :
    Words m (m.writeU64 (word k) v) k (k + 1) fun _ => v where
  slot := ((block_word hk m).stored_writeU64 v).slot
  inside j hlo hhi := by
    obtain rfl : j = k := by omega
    exact readU64_writeU64_word hk v
  outside b hb := readU8_writeU64_word hk v hb

theorem nil (m : Memory) (k : Nat) (f : Nat → U64) : Words m m k k f where
  slot _ := rfl
  inside j hlo hhi := by omega
  outside _ _ := rfl

/-- A second run of words, which may start within the first, lies over it. -/
theorem trans (h : Words m m' lo hi f) (h' : Words m' m'' lo' hi' g) (hlo : lo ≤ lo')
    (hmid : lo' ≤ hi) (hend : max hi hi' < 2 ^ 16) :
    Words m m'' lo (max hi hi') fun k => if lo' ≤ k ∧ k < hi' then g k else f k where
  slot b := (h'.slot b).trans (h.slot b)
  inside k hk hk' := by
    by_cases hin : lo' ≤ k ∧ k < hi'
    · rw [if_pos hin]
      exact h'.inside k hin.1 hin.2
    · rw [if_neg hin, ← h.inside k hk (by omega)]
      refine readU64_word_congr (by omega) h'.slot fun b hb hb' => h'.outside b ?_
      omega
  outside b hb := by
    rw [h'.outside b (by omega), h.outside b (by omega)]

/-- The words a run writes. -/
theorem run (lo : Nat) (f : Nat → U64) (m : Memory) :
    ∀ n, lo + n < 2 ^ 16 →
      Words m (writeWords (word lo) n f m) lo (lo + n) fun k => f (k - lo)
  | 0, _ => .nil m lo _
  | n + 1, hn => by
    have ih := run lo f m n (by omega)
    have haddr : word lo + BitVec.ofNat 64 n * 8 = word (lo + n) :=
      (word_add lo n 1).trans (congrArg word (by omega))
    have hstep : writeWords (word lo) (n + 1) f m =
        (writeWords (word lo) n f m).writeU64 (word (lo + n)) (f n) := by
      rw [writeWords, List.range_succ, List.foldl_append, List.foldl_cons, List.foldl_nil, haddr]
      rfl
    have hlast := single (k := lo + n) (by omega) (writeWords (word lo) n f m) (f n)
    have hboth := ih.trans hlast (by omega) (by omega) (by omega)
    rw [show max (lo + n) (lo + n + 1) = lo + (n + 1) by omega] at hboth
    rw [hstep]
    refine hboth.congr fun k hk hk' => ?_
    split
    · rename_i hin
      exact congrArg f (by omega)
    · rfl

end Words

end Memory

open Memory

/-! ## The tables -/

/-- The tables are the words 1024 to 4095: the PML4, the page-directory-pointer table and four page
directories, a page each. -/
def firmwareEntry (k : Nat) : U64 :=
  if k < 1536 then if k = 1024 then pdptAddr ||| presentRw else 0
  else if k < 2048 then pdptEntry (k - 1536)
  else pdEntry ((k - 2048) / 512) ((k - 2048) % 512)

theorem gibs_eq : gibs = 4 := by decide

/-- The page directories of the first `n` GiB. -/
theorem words_directories (m : Memory) : ∀ n ≤ 4,
    Words m ((List.range n).foldl
      (fun m g => writeWords (pdAddr + BitVec.ofNat 64 g * 0x1000) 512 (pdEntry g) m) m)
      2048 (2048 + 512 * n) fun k => pdEntry ((k - 2048) / 512) ((k - 2048) % 512)
  | 0, _ => .nil m 2048 _
  | n + 1, hn => by
    have ih := words_directories m n (by omega)
    have haddr : pdAddr + BitVec.ofNat 64 n * 0x1000 = word (2048 + 512 * n) :=
      (word_add 2048 n 512).trans (congrArg word (by omega))
    rw [List.range_succ, List.foldl_append, List.foldl_cons, List.foldl_nil, haddr]
    have hlast := Words.run (2048 + 512 * n) (pdEntry n) ((List.range n).foldl
      (fun m g => writeWords (pdAddr + BitVec.ofNat 64 g * 0x1000) 512 (pdEntry g) m) m) 512
      (by omega)
    have hboth := ih.trans hlast (by omega) (by omega) (by omega)
    rw [show max (2048 + 512 * n) (2048 + 512 * n + 512) = 2048 + 512 * (n + 1) by omega] at hboth
    refine hboth.congr fun k hk hk' => ?_
    split
    · rename_i hin
      rw [show (k - 2048) / 512 = n by omega, show (k - 2048) % 512 = k - (2048 + 512 * n) by omega]
    · rfl

/-- The tables, word by word, over any earlier contents. -/
theorem words_buildIdentityMap (m : Memory) :
    Words m (buildIdentityMap m).2 1024 4096 firmwareEntry := by
  have hpml4 : pml4Addr = word 1024 := rfl
  have hpdpt : pdptAddr = word 1536 := rfl
  unfold buildIdentityMap
  dsimp only
  rw [hpml4, gibs_eq]
  have hzero := Words.run 1024 (fun _ => 0) m 512 (by decide)
  have hroot := hzero.trans (Words.single (k := 1024) (by decide) _ (pdptAddr ||| presentRw))
    (by decide) (by decide) (by decide)
  have hpdpts := hroot.trans (Words.run 1536 pdptEntry _ 512 (by decide)) (by decide) (by decide)
    (by decide)
  have hall := hpdpts.trans (words_directories _ 4 (by decide)) (by decide) (by decide) (by decide)
  refine Words.congr hall fun k hk hk' => ?_
  have hk4 : k < 4096 := hk'
  unfold firmwareEntry
  split_ifs <;> first | omega | rfl

/-- The GDT touches its own three words. -/
theorem words_writeGdt64 (m : Memory) :
    ∃ f, Words m (writeGdt64 m) 768 771 f := by
  have h0 := Words.single (k := 768) (by decide) m 0
  have h1 := h0.trans (Words.single (k := 769) (by decide) _ 0x00AF9A000000FFFF) (by decide)
    (by decide) (by decide)
  have h2 := h1.trans (Words.single (k := 770) (by decide) _ 0x00CF92000000FFFF) (by decide)
    (by decide) (by decide)
  exact ⟨_, h2⟩

/-! ## The walk through them -/

/-- The tables hold the firmware's entries, up to accessed and dirty bits. -/
structure FirmwareTables (m : Memory) : Prop where
  entry : ∀ k, 1024 ≤ k → k < 4096 → m.readU64 (word k) &&& ~~~0x60 = firmwareEntry k

theorem and_clean {e c mask : U64} (h : e &&& ~~~0x60 = c) (hmask : mask &&& 0x60 = 0) :
    e &&& mask = c &&& mask := by
  have hkeep : mask = ~~~0x60 &&& mask := by
    generalize (0x60 : U64) = z at hmask
    apply BitVec.eq_of_getLsbD_eq
    intro i hi
    have hbit := congrArg (·.getLsbD i) hmask
    simp at hbit
    simp [hi]
    tauto
  rw [← h, BitVec.and_assoc, ← hkeep]

theorem test_clean {e c mask : U64} (h : e &&& ~~~0x60 = c) (hmask : mask &&& 0x60 = 0) :
    test e mask = test c mask := by
  rw [test, test, and_clean h hmask]

theorem present_clean : Pte.p &&& 0x60 = 0 := by decide

/-- The frame of the page directory entry that a low address selects. -/
theorem frame_of_low {l : U64} (h : l.toNat < 2 ^ 32) :
    BitVec.ofNat 64 (l.toNat / 2 ^ 30) * (1 : U64) <<< 30 +
      BitVec.ofNat 64 (l.toNat / 2 ^ 21 % 512) * (2 : U64) <<< 20 = l &&& 0xFFE00000 := by
  have hcut : l &&& (0xFFE00000 : U64) = ((l >>> 21) &&& (0x7FF : U64)) <<< 21 := by
    apply BitVec.eq_of_getLsbD_eq
    intro i hi
    interval_cases i <;> simp
  apply BitVec.eq_of_toNat_eq
  have h1 : ((1 : U64) <<< 30).toNat = 2 ^ 30 := by decide
  have h2 : ((2 : U64) <<< 20).toNat = 2 ^ 21 := by decide
  have h7 : ((l >>> 21) &&& 0x7FF).toNat = l.toNat / 2 ^ 21 % 2 ^ 11 := by
    rw [BitVec.toNat_and, BitVec.toNat_ushiftRight, Nat.shiftRight_eq_div_pow]
    exact Nat.and_two_pow_sub_one_eq_mod _ 11
  rw [hcut, BitVec.toNat_shiftLeft, h7, BitVec.toNat_add, BitVec.toNat_mul, BitVec.toNat_mul, h1,
    h2, BitVec.toNat_ofNat, BitVec.toNat_ofNat, Nat.shiftLeft_eq]
  omega

theorem index_eq (l : U64) (k : Nat) :
    (l >>> k) &&& 0x1FF = BitVec.ofNat 64 (l.toNat / 2 ^ k % 512) := by
  apply BitVec.eq_of_toNat_eq
  rw [BitVec.toNat_and, BitVec.toNat_ushiftRight, Nat.shiftRight_eq_div_pow, BitVec.toNat_ofNat,
    Nat.mod_eq_of_lt (a := l.toNat / 2 ^ k % 512) (by omega)]
  exact Nat.and_two_pow_sub_one_eq_mod _ 9

namespace FirmwareTables

variable {m : Memory} (h : FirmwareTables m) {l : U64}
include h

/-- The PML4 maps its first entry only. -/
theorem root {i : Nat} (hi : i < 512) :
    m.readU64 (word (1024 + i)) &&& ~~~0x60 = if i = 0 then 0x3003 else 0 := by
  rw [h.entry _ (by omega) (by omega), firmwareEntry, if_pos (by omega)]
  by_cases h0 : i = 0
  · rw [if_pos h0, if_pos (by omega)]
    rfl
  · rw [if_neg h0, if_neg (by omega)]

theorem directories {i : Nat} (hi : i < 512) :
    m.readU64 (word (1536 + i)) &&& ~~~0x60 = pdptEntry i := by
  rw [h.entry _ (by omega) (by omega), firmwareEntry, if_neg (by omega), if_pos (by omega)]
  exact congrArg pdptEntry (by omega)

theorem pages {g i : Nat} (hg : g < 4) (hi : i < 512) :
    m.readU64 (word (2048 + g * 512 + i)) &&& ~~~0x60 = pdEntry g i := by
  rw [h.entry _ (by omega) (by omega), firmwareEntry, if_neg (by omega), if_neg (by omega)]
  rw [show (2048 + g * 512 + i - 2048) / 512 = g by omega,
    show (2048 + g * 512 + i - 2048) % 512 = i by omega]

end FirmwareTables

/-- The entry of GiB `g` names its page directory, present and writable. -/
theorem pdptEntry_low {g : Nat} (hg : g < 4) :
    pdptEntry g &&& addrMask64 = word (2048 + g * 512) ∧ test (pdptEntry g) Pte.p = true ∧
      test (pdptEntry g) Pte.rw = true ∧ test (pdptEntry g) Pte.us = false ∧
      test (pdptEntry g) Pte.nx = false ∧ test (pdptEntry g) Pte.ps = false := by
  interval_cases g <;> decide

theorem pdptEntry_high {g : Nat} (hg : 4 ≤ g) : pdptEntry g = 0 := by
  rw [pdptEntry, gibs_eq, if_neg (by omega)]

/-- The page directory entry of a low address maps the 2 MiB page the address is in. -/
theorem pdEntry_low {l : U64} (hl : l.toNat < 2 ^ 32) :
    pdEntry (l.toNat / 2 ^ 30) (l.toNat / 2 ^ 21 % 512) = (l &&& 0xFFE00000) ||| 0x83 := by
  rw [pdEntry, frame_of_low hl, BitVec.or_assoc]
  rfl

theorem leaf_and (l mask : U64) :
    ((l &&& 0xFFE00000) ||| 0x83) &&& mask =
      (l &&& (0xFFE00000 &&& mask)) ||| (0x83 &&& mask) := by
  rw [BitVec.and_or_distrib_right, BitVec.and_assoc]

theorem test_leaf (l : U64) {mask : U64} (hmask : 0xFFE00000 &&& mask = 0) :
    test ((l &&& 0xFFE00000) ||| 0x83) mask = test 0x83 mask := by
  have hleaf := leaf_and l mask
  rw [hmask, show l &&& (0 : U64) = 0 from BitVec.and_zero] at hleaf
  rw [test, hleaf, test]
  exact congrArg (· != 0) BitVec.zero_or

theorem low_eq {l : U64} (hl : l.toNat < 2 ^ 32) : l &&& 0xFFFFFFFF = l := by
  apply BitVec.eq_of_toNat_eq
  rw [BitVec.toNat_and]
  exact (Nat.and_two_pow_sub_one_eq_mod _ 32).trans (Nat.mod_eq_of_lt hl)

/-- Every address below 4 GiB maps to itself. -/
theorem translateLong_low {m : Memory} (h : FirmwareTables m) {l : U64} (hl : l.toNat < 2 ^ 32)
    (nxe : Bool) :
    ∃ map, translateLong m pml4Addr l nxe = some map ∧ map.phys = l ∧ map.writable = true ∧
      map.exec = true ∧ map.user = false := by
  have hroot := h.root (i := 0) (by decide)
  rw [if_pos rfl] at hroot
  have hg : l.toNat / 2 ^ 30 < 4 := by omega
  have hdir := h.directories (i := l.toNat / 2 ^ 30) (by omega)
  have hpage := h.pages hg (i := l.toNat / 2 ^ 21 % 512) (by omega)
  rw [pdEntry_low hl] at hpage
  obtain ⟨htable, hp, hrw, hus, hnx, hps⟩ := pdptEntry_low hg
  generalize pdptEntry (l.toNat / 2 ^ 30) = d at hdir htable hp hrw hus hnx hps
  have haddr0 : (pml4Addr &&& addrMask64) + ((l >>> 39) &&& 0x1FF) * 8 = word (1024 + 0) := by
    rw [index_eq, show l.toNat / 2 ^ 39 % 512 = 0 by omega]
    rfl
  have haddr1 {e : U64} (he : e &&& ~~~0x60 = 0x3003) :
      (e &&& addrMask64) + ((l >>> 30) &&& 0x1FF) * 8 = word (1536 + l.toNat / 2 ^ 30) := by
    rw [and_clean he (by decide), index_eq, Nat.mod_eq_of_lt (by omega)]
    exact (word_add 1536 _ 1).trans (congrArg word (by omega))
  have haddr2 {e : U64} (he : e &&& ~~~0x60 = d) :
      (e &&& addrMask64) + ((l >>> 21) &&& 0x1FF) * 8 =
        word (2048 + l.toNat / 2 ^ 30 * 512 + l.toNat / 2 ^ 21 % 512) := by
    rw [and_clean he (by decide), htable, index_eq]
    exact (word_add _ _ 1).trans (congrArg word (by omega))
  have htest {e c mask : U64} (he : e &&& ~~~0x60 = c) (hmask : mask &&& 0x60 = 0) {v : Bool}
      (hv : test c mask = v) : test e mask = v := (test_clean he hmask).trans hv
  unfold translateLong
  dsimp only
  rw [haddr0]
  generalize m.readU64 (word (1024 + 0)) = e0 at hroot ⊢
  rw [if_neg (by simp [htest hroot present_clean (v := true) (by decide)]),
    haddr1 hroot]
  generalize m.readU64 (word (1536 + l.toNat / 2 ^ 30)) = e1 at hdir ⊢
  rw [if_neg (by simp [htest hdir (by decide) hp]), if_neg (by simp [htest hdir (by decide) hps]),
    haddr2 hdir]
  generalize m.readU64 (word (2048 + l.toNat / 2 ^ 30 * 512 + l.toNat / 2 ^ 21 % 512)) = e2
    at hpage ⊢
  have hleaf {mask : U64} (h1 : mask &&& 0x60 = 0) (h2 : 0xFFE00000 &&& mask = 0) {v : Bool}
      (hv : test 0x83 mask = v) : test e2 mask = v := htest hpage h1 ((test_leaf l h2).trans hv)
  rw [if_neg (by simp [hleaf present_clean (v := true) (by decide) (by decide)]),
    if_pos (hleaf (by decide) (by decide) (by decide))]
  refine ⟨_, rfl, ?_, ?_, ?_, ?_⟩
  · have hframe : ((0xFFE00000 : U64) &&& (addrMask64 &&& ~~~0x1FFFFF)) = 0xFFE00000 := by decide
    have hlow : ((0x83 : U64) &&& (addrMask64 &&& ~~~0x1FFFFF)) = 0 := by decide
    dsimp only
    rw [BitVec.and_assoc, and_clean hpage (by decide), leaf_and, hframe, hlow]
    refine (congrArg (· ||| l &&& 0x1FFFFF) BitVec.or_zero).trans ?_
    rw [← BitVec.and_or_distrib_left]
    exact low_eq hl
  · dsimp only
    rw [PagingMode.test_and_rw, PagingMode.test_and_rw,
      htest hroot (v := true) (by decide) (by decide),
      htest hdir (by decide) hrw, hleaf (v := true) (by decide) (by decide) (by decide)]
    rfl
  · dsimp only
    rw [PagingMode.test_or_nx, PagingMode.test_or_nx,
      htest hroot (v := false) (by decide) (by decide),
      htest hdir (by decide) hnx, hleaf (v := false) (by decide) (by decide) (by decide)]
    exact Bool.or_true _
  · dsimp only
    rw [PagingMode.test_and_us, PagingMode.test_and_us,
      htest hroot (v := false) (by decide) (by decide)]
    rfl

/-- No canonical address from 4 GiB on has a translation. -/
theorem translateLong_high {m : Memory} (h : FirmwareTables m) {l : U64}
    (hcanonical : canonical l = true) (hl : 2 ^ 32 ≤ l.toNat) (nxe : Bool) :
    translateLong m pml4Addr l nxe = none := by
  have haddr0 : (pml4Addr &&& addrMask64) + ((l >>> 39) &&& 0x1FF) * 8 =
      word (1024 + l.toNat / 2 ^ 39 % 512) := by
    rw [index_eq]
    exact (word_add 1024 _ 1).trans (congrArg word (by omega))
  have hroot := h.root (i := l.toNat / 2 ^ 39 % 512) (by omega)
  unfold translateLong
  dsimp only
  rw [haddr0]
  by_cases hi : l.toNat / 2 ^ 39 % 512 = 0
  · -- the address is below 512 GiB, in a GiB without a directory
    have hlow : l.toNat < 2 ^ 39 := by
      simp only [canonical, Bool.or_eq_true, beq_iff_eq] at hcanonical
      have hshift (v : U64) (hv : l >>> 47 = v) : l.toNat / 2 ^ 47 = v.toNat := by
        rw [← hv, BitVec.toNat_ushiftRight, Nat.shiftRight_eq_div_pow]
      rcases hcanonical with h0 | h1
      · have hz := hshift 0 h0
        have hval : (0 : U64).toNat = 0 := rfl
        omega
      · have ho := hshift 0x1FFFF h1
        have hval : (0x1FFFF : U64).toNat = 0x1FFFF := rfl
        omega
    rw [if_pos hi] at hroot
    have hdir := h.directories (i := l.toNat / 2 ^ 30) (by omega)
    rw [pdptEntry_high (by omega)] at hdir
    generalize m.readU64 (word (1024 + l.toNat / 2 ^ 39 % 512)) = e0 at hroot ⊢
    have haddr1 : (e0 &&& addrMask64) + ((l >>> 30) &&& 0x1FF) * 8 =
        word (1536 + l.toNat / 2 ^ 30) := by
      rw [and_clean hroot (by decide), index_eq, Nat.mod_eq_of_lt (by omega)]
      exact (word_add 1536 _ 1).trans (congrArg word (by omega))
    rw [haddr1, test_clean hdir present_clean,
      show test (0 : U64) Pte.p = false by decide, if_pos (c := (!false) = true) rfl, ite_self]
  · rw [if_neg hi] at hroot
    rw [test_clean hroot present_clean, show test (0 : U64) Pte.p = false by decide]
    rfl

/-! ## Entering long mode -/

/-- What a translation reads besides the TLB. -/
def Cpu.tables (s : Cpu) : Memory × U64 × PagingMode := (s.mem, s.cr3, s.pagingMode)

theorem tables_loadSeg (s : Cpu) (r : SegReg) (sel : U16) :
    (s.loadSeg r sel).tables = s.tables := by
  unfold Cpu.loadSeg
  cases r <;> cases s.pe <;> rfl

theorem tables_flushTlb (s : Cpu) : s.flushTlb.tables = s.tables := rfl

/-- With paging on and long mode asked for, long mode is entered. -/
theorem tables_updateLongMode {s : Cpu} (hpg : test s.cr0 cr0Pg = true)
    (hlme : test s.efer Efer.lme = true) :
    s.updateLongMode.tables = (s.mem, s.cr3, .long) := by
  have hwant : (test s.cr0 cr0Pg && test s.efer Efer.lme) = true := by rw [hpg, hlme]; rfl
  unfold Cpu.updateLongMode
  dsimp only
  rw [hwant]
  by_cases hlong : s.longMode = true
  · rw [if_neg (by simp [hlong])]
    simp [Cpu.tables, Cpu.pagingMode, hpg, hlong]
  · have hset : test (s.efer ||| Efer.lma) Efer.lma = true := by
      rw [Efer.lma, PagingMode.test_or (by decide)]
      exact Bool.or_true _
    rw [if_pos (by simpa using hlong), if_pos rfl, tables_flushTlb]
    simp [Cpu.tables, Cpu.pagingMode, Cpu.longMode, hpg, hset]

theorem tables_loadFlatSegments (s : Cpu) : (loadFlatSegments s).tables = s.tables := by
  unfold loadFlatSegments
  rw [tables_loadSeg, tables_loadSeg, tables_loadSeg, tables_loadSeg, tables_loadSeg,
    tables_loadSeg]

theorem tables_startAt (entry stack : U64) (s : Cpu) : (startAt entry stack s).tables = s.tables :=
  rfl

/-- Memory, CR3 and the paging mode after the hand-over. -/
theorem tables_enterLongMode (entry stack : U64) (s : Cpu) :
    (enterLongMode entry stack s).tables =
      ((buildIdentityMap (writeGdt64 s.mem)).2, pml4Addr, .long) := by
  have hpg : test (cr0Pe ||| cr0Pg ||| cr0Wp) ((1 : U32) <<< 31) = true := by decide
  have hlme : test (Efer.lme ||| Efer.nxe ||| Efer.sce) ((1 : U64) <<< 8) = true := by decide
  have hroot : (buildIdentityMap (writeGdt64 s.mem)).1 = pml4Addr := rfl
  unfold enterLongMode
  rw [← hroot]
  generalize buildIdentityMap (writeGdt64 s.mem) = b
  rw [tables_startAt, tables_loadFlatSegments, tables_flushTlb]
  refine tables_updateLongMode ?_ ?_
  · exact (PagingMode.test_or (k := 31) (by decide) _ _).trans
      ((congrArg (_ || ·) hpg).trans (Bool.or_true _))
  · exact (PagingMode.test_or (k := 8) (by decide) _ _).trans
      ((congrArg (_ || ·) hlme).trans (Bool.or_true _))

theorem firmwareTables_enter (entry stack : U64) (s : Cpu) :
    FirmwareTables (enterLongMode entry stack s).mem where
  entry k hlo hhi := by
    have hmem := congrArg (·.1) (tables_enterLongMode entry stack s)
    dsimp only [Cpu.tables] at hmem
    rw [hmem, (words_buildIdentityMap _).inside k hlo hhi]
    unfold firmwareEntry
    split_ifs
    · decide
    · decide
    · rw [pdptEntry, gibs_eq]
      split
      · have hi : k - 1536 < 4 := ‹_›
        interval_cases k - 1536 <;> decide
      · decide
    · have hlow : (BitVec.ofNat 64 ((k - 2048) * 2 ^ 21)).toNat = (k - 2048) * 2 ^ 21 := by
        rw [BitVec.toNat_ofNat]
        omega
      have hentry := pdEntry_low (l := BitVec.ofNat 64 ((k - 2048) * 2 ^ 21)) (by omega)
      rw [hlow, show (k - 2048) * 2 ^ 21 / 2 ^ 30 = (k - 2048) / 512 by omega,
        show (k - 2048) * 2 ^ 21 / 2 ^ 21 % 512 = (k - 2048) % 512 by omega] at hentry
      rw [hentry, leaf_and]
      rfl

/-- The hand-over writes the GDT and the tables, and no byte outside 0x1800 to 0x7FFF. -/
theorem enter_outside (entry stack : U64) (s : Cpu) {b : U64}
    (hb : b.toNat < 0x1800 ∨ 0x8000 ≤ b.toNat) :
    (enterLongMode entry stack s).mem.readU8 b = s.mem.readU8 b := by
  have hmem := congrArg (·.1) (tables_enterLongMode entry stack s)
  dsimp only [Cpu.tables] at hmem
  obtain ⟨f, hgdt⟩ := words_writeGdt64 s.mem
  rw [hmem, (words_buildIdentityMap _).outside b (by omega), hgdt.outside b (by omega)]

/-! ## Accesses -/

/-- A byte of the tables. -/
def InTables (b : U64) : Prop := 0x2000 ≤ b.toNat ∧ b.toNat < 0x8000

/-- The `n` bytes from `a` on are outside the tables. -/
def MissesTables (a : U64) (n : Nat) : Prop := ∀ k < n, ¬ InTables (a + BitVec.ofNat 64 k)

/-- A step of a run: a translation, a store outside the tables, or anything that leaves memory, CR3
and the paging mode alone. -/
inductive Access : Cpu → Cpu → Prop
  | translate (s : Cpu) (linear : U64) (write fetch : Bool) :
      Access s (applyPagingInner linear write fetch s).2
  | store (s : Cpu) {a : U64} {w : Width} (v : U64) (h : MissesTables a w.bytes) :
      Access s (s.modifyMem (memWriteW a w v))
  | store128 (s : Cpu) {a : U64} (v : U128) (h : MissesTables a 16) :
      Access s (s.modifyMem (·.writeU128 a v))
  | other {s t : Cpu} (h : t.tables = s.tables) : Access s t

/-- Each entry of the tables has at most gained accessed and dirty bits. -/
def TablesMarked (m m' : Memory) : Prop :=
  ∀ k, 1024 ≤ k → k < 4096 → ∃ g, g &&& ~~~0x60 = 0 ∧
    m'.readU64 (word k) = m.readU64 (word k) ||| g

namespace TablesMarked

variable {m m' m'' : Memory}

theorem of_eq (h : ∀ k, 1024 ≤ k → k < 4096 → m'.readU64 (word k) = m.readU64 (word k)) :
    TablesMarked m m' :=
  fun k hlo hhi => ⟨0, by decide, (h k hlo hhi).trans BitVec.or_zero.symm⟩

theorem trans (h : TablesMarked m m') (h' : TablesMarked m' m'') : TablesMarked m m'' := by
  intro k hlo hhi
  obtain ⟨g, hg, he⟩ := h k hlo hhi
  obtain ⟨g', hg', he'⟩ := h' k hlo hhi
  refine ⟨g ||| g', ?_, by rw [he', he, BitVec.or_assoc]⟩
  rw [BitVec.and_or_distrib_right, hg, hg']
  rfl

theorem tables (h : TablesMarked m m') (hm : FirmwareTables m) : FirmwareTables m' where
  entry k hlo hhi := by
    obtain ⟨g, hg, he⟩ := h k hlo hhi
    rw [he, BitVec.and_or_distrib_right, hg, hm.entry k hlo hhi]
    exact BitVec.or_zero

end TablesMarked

/-- A store that misses the tables leaves their words. -/
theorem tablesMarked_spot {m m' : Memory} {a : U64} {n : Nat} (h : Spot a n m m')
    (hmiss : MissesTables a n) : TablesMarked m m' := by
  refine .of_eq fun k hlo hhi => readU64_word_congr (by omega) h.slots fun b hb hb' => ?_
  have hle := m.one_mib_le
  have hlow := m.lowSize_eq
  have hhole : 2 ^ 20 ≤ mmioHoleStart := by decide
  have hvga : ¬ inVga b := fun hv => by
    have := hv.1
    omega
  have hslot : m.slot b = some b.toNat := (m.slot_eq_some_iff b).mpr (.inl ⟨by omega, rfl⟩)
  rw [readU8_ram _ b hvga, readU8_ram _ b hvga, readU8Raw, readU8Raw, h.slots, hslot]
  by_contra hne
  obtain ⟨c, j, x, hc, hx, hbx⟩ := h.bytes _ hne
  -- the byte is in low RAM, so it was reached from its own address
  rcases (m.slot_eq_some_iff _).mp hx with ⟨-, rfl⟩ | ⟨-, rfl, -⟩
  · have haddr : a + BitVec.ofNat 64 (c + j) = b := by
      apply BitVec.eq_of_toNat_eq
      have hsum : (a + BitVec.ofNat 64 (c + j)).toNat =
          ((a + BitVec.ofNat 64 c).toNat + j) % 2 ^ 64 := by
        rw [BitVec.toNat_add, BitVec.toNat_add, BitVec.toNat_ofNat, BitVec.toNat_ofNat]
        omega
      have hb64 := b.isLt
      rw [hsum, ← hbx, Nat.mod_eq_of_lt hb64]
    exact hmiss (c + j) hc (haddr ▸ ⟨by omega, by omega⟩)
  · omega

theorem spot_memWriteW (m : Memory) (a : U64) (w : Width) (v : U64) :
    Spot a w.bytes m (memWriteW a w v m) := by
  cases w
  · exact spot_writeU8 m a _
  · exact spot_writeU16 m a _
  · exact spot_writeU32 m a _
  · exact spot_writeU64 m a _

/-- A translation marks the entries of its walk, if it touches memory at all. -/
theorem mem_applyPagingInner (linear : U64) (write fetch : Bool) (s : Cpu) :
    (applyPagingInner linear write fetch s).2.mem = s.mem ∨
      ∃ map w, s.walkOf linear = some map ∧
        (applyPagingInner linear write fetch s).2.mem =
          markWalk map.entryBytes w map.walk s.mem := by
  have hraise (f : Fault) : (s.raise f).mem = s.mem := by
    unfold Cpu.raise
    split <;> rfl
  unfold applyPagingInner
  split
  · exact .inl (hraise _)
  split
  · exact .inl rfl
  dsimp only
  split
  · split
    · dsimp only
      split
      · unfold Cpu.markAccessed
        split
        · exact .inr ⟨_, true, ‹_›, rfl⟩
        · exact .inl rfl
      · exact .inl rfl
    · exact .inl (hraise _)
  · split
    · split
      · exact .inl (hraise _)
      · exact .inr ⟨_, write, ‹_›, rfl⟩
    · exact .inl (hraise _)

theorem tablesMarked_walk {s : Cpu} (hmode : s.pagingMode = .long) {linear : U64} {map : Mapping}
    (hmap : s.walkOf linear = some map) (w : Bool) :
    TablesMarked s.mem (markWalk map.entryBytes w map.walk s.mem) := by
  rw [Cpu.walkOf, hmode] at hmap
  have hentry : ∀ a ∈ map.walk, PagingMode.long.IsEntry a :=
    fun a ha => PagingMode.isEntry_walk (by decide) hmap ha
  rw [PagingMode.entryBytes_walk (by decide) hmap]
  have hmarked := PagingMode.marked_markWalk (show PagingMode.long ≠ .off by decide) w hentry s.mem
  intro k hlo hhi
  have hk : PagingMode.long.IsEntry (word k) := ⟨k, word_toNat (by omega)⟩
  exact ⟨_, marks_mask map.walk w (word k) (by decide),
    PagingMode.readEntry_marked (by decide) hentry hmarked hk⟩

/-- In long mode an access keeps the tables, up to accessed and dirty bits. -/
theorem Access.step {s t : Cpu} (h : Access s t) (hmode : s.pagingMode = .long) :
    t.cr3 = s.cr3 ∧ t.pagingMode = .long ∧ TablesMarked s.mem t.mem := by
  cases h with
  | translate linear write fetch =>
    have hcontrol := (StoreRun.translate s linear write fetch).control
    simp only [Cpu.storeControl, Prod.mk.injEq] at hcontrol
    obtain ⟨hcr0, hcr3, hcr4, hefer, -⟩ := hcontrol
    refine ⟨hcr3, ?_, ?_⟩
    · rw [← hmode, Cpu.pagingMode, Cpu.pagingMode, Cpu.longMode, Cpu.longMode, hcr0, hcr4, hefer]
    · rcases mem_applyPagingInner linear write fetch s with hm | ⟨map, w, hmap, hm⟩
      · rw [hm]
        exact .of_eq fun _ _ _ => rfl
      · rw [hm]
        exact tablesMarked_walk hmode hmap w
  | store v hmiss => exact ⟨rfl, hmode, tablesMarked_spot (spot_memWriteW s.mem _ _ v) hmiss⟩
  | store128 v hmiss => exact ⟨rfl, hmode, tablesMarked_spot (spot_writeU128 s.mem _ v) hmiss⟩
  | other heq =>
    simp only [Cpu.tables, Prod.mk.injEq] at heq
    obtain ⟨hm, hcr3, hpm⟩ := heq
    rw [hm]
    exact ⟨hcr3, hpm.trans hmode, .of_eq fun _ _ _ => rfl⟩

abbrev Accesses : Cpu → Cpu → Prop := Relation.ReflTransGen Access

theorem Accesses.run {s t : Cpu} (h : Accesses s t) (hmode : s.pagingMode = .long) :
    t.cr3 = s.cr3 ∧ t.pagingMode = .long ∧ TablesMarked s.mem t.mem := by
  induction h with
  | refl => exact ⟨rfl, hmode, .of_eq fun _ _ _ => rfl⟩
  | tail _ hstep ih =>
    obtain ⟨hcr3, hpm, hmark⟩ := ih
    obtain ⟨hcr3', hpm', hmark'⟩ := hstep.step hpm
    exact ⟨hcr3'.trans hcr3, hpm', hmark.trans hmark'⟩

/-! ### Operands -/

instance : Std.Refl Accesses := ⟨fun _ => .refl⟩

instance : IsTrans Cpu Accesses := ⟨fun _ _ _ => .trans⟩

theorem accesses_translate (linear : U64) (write fetch : Bool) :
    Keeps Accesses (applyPagingInner linear write fetch) :=
  fun s => .single (.translate s linear write fetch)

theorem accesses_rmAddr (m : ModRm) (write : Bool) : Keeps Accesses (rmAddr m write) :=
  .get_bind fun _ => .get_bind fun _ => accesses_translate _ _ _

theorem accesses_readRmW (m : ModRm) (w : Width) : Keeps Accesses (readRmW m w) := by
  refine .ite (.get_bind fun _ => .pure _)
    ((accesses_rmAddr _ _).bind fun _ => .get_bind fun _ => ?_)
  refine .ite (.ite (.pure _) (.bind ?_ fun _ => .pure _)) (.pure _)
  exact (accesses_translate _ _ _).bind fun _ => .get_bind fun _ => .ite (.pure _) (.pure _)

/-- Where byte `i` of a store of width `w` at `addr` lands, from the state that has translated its
first page. -/
def storeByteAddr (m : ModRm) (w : Width) (addr : U64) (s : Cpu) (i : Nat) : U64 :=
  if w ≠ .w8 ∧ straddles addr w.bytes then
    splitAddr addr (applyPagingAccess ((s.modrmLinear m &&& ~~~0xFFF) + 0x1000) true s).1
      (0x1000 - (addr &&& 0xFFF).toNat) i
  else addr + BitVec.ofNat 64 i

/-- Bytes stored one by one outside the tables. -/
theorem accesses_bytes (f : Nat → U64) (v : Nat → U8) :
    ∀ (l : List Nat) (s : Cpu), (∀ i ∈ l, ¬ InTables (f i)) →
      Accesses s (s.modifyMem fun m => l.foldl (fun m i => m.writeU8 (f i) (v i)) m)
  | [], _, _ => .refl
  | i :: l, s, hl => by
    have hmiss : MissesTables (f i) Width.w8.bytes := fun k hk => by
      obtain rfl : k = 0 := Nat.lt_one_iff.mp hk
      exact (BitVec.add_zero (f i)).symm ▸ hl i (List.mem_cons_self ..)
    have hbyte : u8 (u64 (v i)) = v i := by simp
    have hfirst := Access.store s (u64 (v i)) hmiss
    have hwrite : memWriteW (f i) .w8 (u64 (v i)) = fun m => m.writeU8 (f i) (v i) :=
      funext fun m => congrArg (m.writeU8 (f i)) hbyte
    rw [hwrite] at hfirst
    exact .head hfirst (accesses_bytes f v l _ fun j hj => hl j (List.mem_cons_of_mem i hj))

theorem accesses_writeRmAt {m : ModRm} {w : Width} {addr : U64} (val : U64) {s : Cpu}
    (h : ∀ i < w.bytes, ¬ InTables (storeByteAddr m w addr s i)) :
    Accesses s (writeRmAt m w val addr s).2 := by
  simp only [storeByteAddr] at h
  rw [writeRmAt, bind_run, get_run]
  dsimp only
  split
  · exact .refl
  · split
    · rename_i hsplit
      simp only [if_pos hsplit] at h
      rw [writeSplit, bind_run, bind_run, get_run]
      have htrans := accesses_translate ((s.modrmLinear m &&& ~~~0xFFF) + 0x1000) true false s
      dsimp only
      split
      · exact htrans
      · exact htrans.trans (accesses_bytes _ _ _ _ fun i hi => h i (List.mem_range.mp hi))
    · rename_i hsplit
      simp only [if_neg hsplit] at h
      exact .single (.store s val h)

/-- A store to an operand is a run of accesses, where it misses the tables. -/
theorem accesses_writeRmW {m : ModRm} {w : Width} (val : U64) {s : Cpu}
    (h : ∀ i < w.bytes,
      ¬ InTables (storeByteAddr m w (rmAddr m true s).1 (rmAddr m true s).2 i)) :
    Accesses s (writeRmW m w val s).2 := by
  rw [writeRmW, bind_run, get_run]
  dsimp only
  split
  · exact .refl
  · split
    · have hshell := s.shell_setRegAt m.rm w val
      exact .single (.other (congrArg Cpu.tables hshell :
        (s.setRegAt m.rm w val).shell.tables = s.shell.tables))
    · exact (accesses_rmAddr m true s).trans (accesses_writeRmAt val h)

/-! ## The map -/

/-- The low 4 GiB map to themselves, writable, executable and for the supervisor alone, and no other
canonical address has a translation. -/
structure IdentityMapped (s : Cpu) : Prop where
  mode : s.pagingMode = .long
  low : ∀ (l : U64) (nxe : Bool), l.toNat < 2 ^ 32 →
    ∃ map, translateMode s.mem s.cr3 l .long nxe = some map ∧ map.phys = l ∧
      map.writable = true ∧ map.exec = true ∧ map.user = false
  high : ∀ (l : U64) (nxe : Bool), canonical l = true → 2 ^ 32 ≤ l.toNat →
    translateMode s.mem s.cr3 l .long nxe = none

theorem identityMapped {s : Cpu} (hmode : s.pagingMode = .long) (hcr3 : s.cr3 = pml4Addr)
    (h : FirmwareTables s.mem) : IdentityMapped s where
  mode := hmode
  low l nxe hl := by
    rw [hcr3]
    exact translateLong_low h hl nxe
  high l nxe hcanonical hl := by
    rw [hcr3]
    exact translateLong_high h hcanonical hl nxe

/-- After the hand-over the map is one, and stays one over any run of accesses. -/
theorem identity_map_exact (entry stack : U64) (s : Cpu) :
    IdentityMapped (enterLongMode entry stack s) ∧
      (∀ b : U64, b.toNat < 0x1800 ∨ 0x7FFF < b.toNat →
        (enterLongMode entry stack s).mem.readU8 b = s.mem.readU8 b) ∧
      ∀ t, Accesses (enterLongMode entry stack s) t →
        IdentityMapped t ∧ TablesMarked (enterLongMode entry stack s).mem t.mem := by
  have htables := tables_enterLongMode entry stack s
  simp only [Cpu.tables, Prod.mk.injEq] at htables
  obtain ⟨-, hcr3, hmode⟩ := htables
  have hfirm := firmwareTables_enter entry stack s
  refine ⟨identityMapped hmode hcr3 hfirm, fun b hb => enter_outside entry stack s (by omega),
    fun t hrun => ?_⟩
  obtain ⟨hcr3', hmode', hmark⟩ := hrun.run hmode
  exact ⟨identityMapped hmode' (hcr3'.trans hcr3) (hmark.tables hfirm), hmark⟩

end X86Emu
