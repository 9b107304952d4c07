import X86Emu.AccessTarget
import X86Emu.BitStrings
import X86Emu.Sse
import X86Emu.Strings

/-!
# Accesses that cross a page

An access that crosses a page is translated page by page: what is read or written are the bytes at
the translations of its addresses, each on its own. A store that faults on either page writes
nothing, and leaves CR2 at the byte that faulted.
-/
namespace X86Emu

open StateRules RadixWalk

namespace Cpu

variable {s : Cpu} {l l' p : U64} {write : Bool} {tlb : Fin 256 → TlbEntry} {mem : Memory}

/-! ## What an access does -/

/-- Byte `i` of an operand at a linear address, which wraps at 4 GiB outside 64-bit mode. -/
def byteLinear (s : Cpu) (l : U64) (i : Nat) : U64 :=
  if s.long64 then l + BitVec.ofNat 64 i else (l + BitVec.ofNat 64 i) &&& 0xFFFFFFFF

/-- Memory that differs in accessed and dirty bits only, of entries that the walks of an operand's
bytes read. -/
structure OnlyMarks (s : Cpu) (l : U64) (n : Nat) (mem : Memory) : Prop where
  slot : ∀ b, mem.slot b = s.mem.slot b
  bits : ∀ b, mem.readU8 b &&& 0x9F = s.mem.readU8 b &&& 0x9F
  entries : ∀ b, (∀ i < n, ∀ v ∈ s.walkPath (s.byteLinear l i), v.addr ≠ b) →
    mem.readU8 b = s.mem.readU8 b

/-- Bytes stored each at its place, where there is memory. -/
structure StoredEach (m m' : Memory) (n : Nat) (phys : Nat → U64) (f : Nat → U8) : Prop where
  slot : ∀ b, m'.slot b = m.slot b
  stored : ∀ i < n, m.backed (phys i) → m'.readU8 (phys i) = f i
  kept : ∀ b, (∀ i < n, b ≠ phys i) → m'.readU8 b = m.readU8 b

/-- Every byte of an operand is translated on its own. -/
def Translates (s : Cpu) (write : Bool) (l : U64) (n : Nat) (phys : Nat → U64) : Prop :=
  ∀ i < n, s.translation write (s.byteLinear l i) = some (phys i)

/-- Byte `i` is the first of an operand that is not translated. -/
structure FaultsAt (s : Cpu) (write : Bool) (l : U64) (i : Nat) : Prop where
  here : s.translation write (s.byteLinear l i) = none
  before : ∀ j < i, s.translation write (s.byteLinear l j) ≠ none

/-- The exception an operand leaves: #GP, or a page fault whose CR2 is the byte that faulted. -/
structure FaultedAt (s : Cpu) (l : U64) (i : Nat) (t : Cpu) : Prop where
  pending : t.pendingException.isSome = true
  cr2 : ∀ code, t.pendingException = some (0x0E, code) → t.cr2 = s.byteLinear l i

/-- A read gives the bytes at the translations of its addresses, least significant first. -/
structure Reads (s : Cpu) (l : U64) (n : Nat) {k : Nat} (v : BitVec k) (t : Cpu) : Prop where
  served : ∀ phys, s.Translates false l n phys → t.pendingException = none ∧
    ∀ i, byteOf v i = if i < n then t.mem.readU8 (phys i) else 0
  faulted : ∀ i < n, s.FaultsAt false l i → s.FaultedAt l i t
  marks : s.OnlyMarks l n t.mem

/-- A write stores its bytes at the translations of its addresses, or no byte at all. -/
structure Writes (s : Cpu) (l : U64) (n : Nat) (f : Nat → U8) (t : Cpu) : Prop where
  served : ∀ phys, s.Translates true l n phys → t.pendingException = none ∧
    ∃ mem, s.OnlyMarks l n mem ∧ StoredEach mem t.mem n phys f
  faulted : ∀ i < n, s.FaultsAt true l i → s.FaultedAt l i t ∧ s.OnlyMarks l n t.mem

/-! ### Marks -/

variable {n i : Nat}

theorem marks_untouched (walk : List U64) (write : Bool) (b : U64) (x : U8) :
    (x ||| marks walk write b) &&& 0x9F = x &&& 0x9F := by
  have hmask : marks walk write b &&& 0x9F = 0 := by
    unfold marks
    split <;> split <;> rfl
  rw [BitVec.and_comm, BitVec.and_or_distrib_left, BitVec.and_comm 0x9F (marks walk write b), hmask,
    BitVec.and_comm]
  exact BitVec.or_zero

theorem OnlyMarks.refl (s : Cpu) (l : U64) (n : Nat) : s.OnlyMarks l n s.mem :=
  ⟨fun _ => rfl, fun _ => rfl, fun _ _ => rfl⟩

/-- An access marks the entries of its own walk. -/
theorem onlyMarks_touched {tlb₁ : Fin 256 → TlbEntry} {mem₁ : Memory} (hs : s.OnlyMarks l n mem₁)
    (h : (s.withTables tlb₁ mem₁).Touched l' tlb mem)
    (hpath : ∀ v ∈ (s.withTables tlb₁ mem₁).walkPath l',
      ∃ i < n, ∃ v' ∈ s.walkPath (s.byteLinear l i), v'.addr = v.addr) : s.OnlyMarks l n mem := by
  cases hpg : test s.cr0 cr0Pg with
  | false => rwa [h.unpaged hpg]
  | true =>
    obtain ⟨walk, w, hwalk, hmark⟩ := h.marked hpg
    refine ⟨fun b => (hmark.slot b).trans (hs.slot b), fun b => ?_, fun b hb => ?_⟩
    · rw [hmark.byte, marks_untouched]
      exact hs.bits b
    · have hout : b ∉ walk := by
        intro hin
        obtain ⟨v, hv, rfl⟩ := hwalk b hin
        obtain ⟨i, hi, v', hv', haddr⟩ := hpath v hv
        exact hb i hi v' hv' haddr
      rw [hmark.byte, marks_eq_zero hout]
      exact BitVec.or_zero.trans (hs.entries b hb)

/-- A walk reads the same entries after an access. -/
theorem walkPath_touched (h : s.Touched l tlb mem) (l' : U64) :
    ∀ v ∈ (s.withTables tlb mem).walkPath l', ∃ v' ∈ s.walkPath l', v'.addr = v.addr := by
  intro v hv
  cases hpg : test s.cr0 cr0Pg with
  | false =>
    rw [walkPath_withTables, h.unpaged hpg] at hv
    exact ⟨v, hv, rfl⟩
  | true =>
    obtain ⟨walk, w, hwalk, hmark⟩ := h.marked hpg
    have hmap : s.pagingMode.path mem s.cr3 l' = (s.walkPath l').map
        fun v => { v with entry := s.pagingMode.readEntry mem v.addr } :=
      PagingMode.path_marked (pagingMode_ne_off hpg) (isEntry_walkPath hpg hwalk) hmark
    rw [walkPath_withTables, hmap] at hv
    obtain ⟨v', hv', rfl⟩ := List.mem_map.mp hv
    exact ⟨v', hv', rfl⟩

/-! ### The bytes of an operand -/

/-- An operand that wraps at 4 GiB goes on, where it is split, on the page above. It is served there
as on page 0: by the same translation, through the same entries. -/
structure TopAlias (s : Cpu) (write : Bool) : Prop where
  served : ∃ p, s.translation write 0x100000000 = some p ∧ s.translation write 0 = some p
  path : ∀ v ∈ s.walkPath 0x100000000, ∃ v' ∈ s.walkPath 0, v'.addr = v.addr

/-- An operand of up to 16 bytes that does not wrap at 4 GiB, or that goes on above as at 0. -/
structure Unwrapped (s : Cpu) (write : Bool) (l : U64) (n : Nat) : Prop where
  pos : 0 < n
  le : n ≤ 16
  fits : s.long64 = true ∨ l.toNat + n ≤ 2 ^ 32 ∨ l.toNat < 2 ^ 32 ∧ s.TopAlias write

theorem faultedAt_raise {t : Cpu} (ht : t.pendingException = none) {f : Fault} {l' : U64}
    (hf : Refusal l' f) (hi : s.byteLinear l i = l') : s.FaultedAt l i (t.raise f) := by
  have hraise : t.raise f = { t with
      pendingException := some (f.vector, f.code)
      cr2 := f.cr2
      faultLog := t.faultLog ++ [f] } := by
    rw [raise, ht]
    rfl
  rw [hraise]
  refine ⟨rfl, fun code hcode => ?_⟩
  have hvector : f.vector = 0x0E := congrArg Prod.fst (Option.some.inj hcode)
  rcases hf with h13 | ⟨-, hcr2⟩
  · rw [hvector] at h13
    exact absurd h13 (by decide)
  · exact hcr2.trans hi.symm

theorem byteLinear_zero (hlow : s.long64 = true ∨ l.toNat < 2 ^ 32) : s.byteLinear l 0 = l := by
  unfold byteLinear
  rw [show l + BitVec.ofNat 64 0 = l from BitVec.add_zero l]
  split
  · rfl
  · rename_i hlong
    have hlt := hlow.resolve_left hlong
    apply BitVec.eq_of_toNat_eq
    rw [BitVec.toNat_and, show (0xFFFFFFFF : U64).toNat = 2 ^ 32 - 1 from rfl,
      Nat.and_two_pow_sub_one_eq_mod, Nat.mod_eq_of_lt hlt]

/-- Where an operand goes on, on the next page. -/
theorem nextPage_start (l : U64) :
    l + BitVec.ofNat 64 (0x1000 - l.toNat % 4096) = nextPage l := by
  have hlt := l.isLt
  apply BitVec.eq_of_toNat_eq
  rw [BitVec.toNat_add, nextPage_toNat, BitVec.toNat_ofNat]
  omega

theorem nextPage_top {l : U64} (hlt : l.toNat < 2 ^ 32)
    (hwrap : 2 ^ 32 ≤ l.toNat + (0x1000 - l.toNat % 4096)) : nextPage l = 0x100000000 := by
  apply BitVec.eq_of_toNat_eq
  rw [nextPage_toNat, show (0x100000000 : U64).toNat = 2 ^ 32 from rfl]
  omega

section Bytes

variable {phys : Nat → U64} (hclear : s.pendingException = none) (hl : s.Unwrapped write l n)

include hl

theorem Unwrapped.low : s.long64 = true ∨ l.toNat < 2 ^ 32 := by
  have hpos := hl.pos
  rcases hl.fits with hlong | hfits | hwrap
  · exact .inl hlong
  · exact .inr (by omega)
  · exact .inr hwrap.1

/-- Past 4 GiB the addresses of the bytes start from 0 again. -/
theorem byteLinear_wrapped (hi : i < n) (hlong : ¬ s.long64 = true) (hlt : l.toNat < 2 ^ 32)
    (hwrap : 2 ^ 32 ≤ l.toNat + i) :
    s.byteLinear l i = 0 + BitVec.ofNat 64 (l.toNat + i - 2 ^ 32) ∧
      l + BitVec.ofNat 64 i = 0x100000000 + BitVec.ofNat 64 (l.toNat + i - 2 ^ 32) := by
  have hi' := hl.le
  constructor
  · unfold byteLinear
    rw [if_neg hlong]
    apply BitVec.eq_of_toNat_eq
    rw [BitVec.toNat_and, show (0xFFFFFFFF : U64).toNat = 2 ^ 32 - 1 from rfl,
      Nat.and_two_pow_sub_one_eq_mod, BitVec.toNat_add, BitVec.toNat_add, BitVec.toNat_ofNat,
      BitVec.toNat_ofNat, show (0 : U64).toNat = 0 from rfl]
    omega
  · apply BitVec.eq_of_toNat_eq
    rw [BitVec.toNat_add, BitVec.toNat_add, BitVec.toNat_ofNat, BitVec.toNat_ofNat,
      show (0x100000000 : U64).toNat = 2 ^ 32 from rfl]
    omega

/-- A byte below 4 GiB, or one of an operand that does not wrap, is at its place. -/
theorem byteLinear_below (hi : i < n) (h : s.long64 = true ∨ l.toNat + i < 2 ^ 32) :
    s.byteLinear l i = l + BitVec.ofNat 64 i := by
  unfold byteLinear
  split
  · rfl
  · rename_i hlong
    have hlt := h.resolve_left hlong
    have hi' := hl.le
    apply BitVec.eq_of_toNat_eq
    rw [BitVec.toNat_and, show (0xFFFFFFFF : U64).toNat = 2 ^ 32 - 1 from rfl,
      Nat.and_two_pow_sub_one_eq_mod, BitVec.toNat_add, BitVec.toNat_ofNat]
    omega

include hclear

/-- Wherever a byte is, it is served as the one that many places on. -/
theorem target_byteLinear (hi : i < n) :
    s.target write (s.byteLinear l i) = s.target write (l + BitVec.ofNat 64 i) := by
  have hle := hl.le
  by_cases hbelow : s.long64 = true ∨ l.toNat + i < 2 ^ 32
  · rw [byteLinear_below hl hi hbelow]
  · rw [not_or, Nat.not_lt] at hbelow
    obtain ⟨hlong, hwrap⟩ := hbelow
    obtain ⟨hlt, halias⟩ := (hl.fits.resolve_left hlong).resolve_left (by omega)
    obtain ⟨p, htop, hzero⟩ := halias.served
    obtain ⟨hbyte, hplace⟩ := byteLinear_wrapped hl hi hlong hlt hwrap
    rw [translation_eq hclear] at htop hzero
    have hoff : l.toNat + i - 2 ^ 32 < 4096 := by omega
    rw [hbyte, hplace, target_add hzero (by rw [show (0 : U64).toNat = 0 from rfl]; omega),
      target_add htop (by rw [show (0x100000000 : U64).toNat = 2 ^ 32 from rfl]; omega)]

theorem target_of_translates (hT : s.Translates write l n phys) (hi : i < n) :
    s.target write (l + BitVec.ofNat 64 i) = some (phys i) := by
  rw [← target_byteLinear hclear hl hi, ← translation_eq hclear]
  exact hT i hi

/-- The bytes on the first page. -/
theorem phys_first (hT : s.Translates write l n phys) (hp : s.target write l = some p) (hi : i < n)
    (hpage : l.toNat % 4096 + i < 4096) : phys i = p + BitVec.ofNat 64 i :=
  Option.some.inj ((target_of_translates hclear hl hT hi).symm.trans (target_add hp hpage))

/-- The bytes on the second. -/
theorem phys_second {p₂ : U64} (hT : s.Translates write l n phys)
    (hp : s.target write (nextPage l) = some p₂) (hi : i < n)
    (hpage : 0x1000 ≤ l.toNat % 4096 + i) :
    phys i = p₂ + BitVec.ofNat 64 (i - (0x1000 - l.toNat % 4096)) := by
  have hle := hl.le
  have htarget := target_of_translates hclear hl hT hi
  rw [nextPage_add hpage (by omega), target_add hp (by rw [nextPage_offset]; omega)] at htarget
  exact (Option.some.inj htarget).symm

/-- An operand whose first byte is translated faults on its second page, if at all. -/
theorem faultsAt_second (hp : s.target write l = some p) (h : s.FaultsAt write l i) (hi : i < n) :
    0x1000 < l.toNat % 4096 + n ∧ i = 0x1000 - l.toNat % 4096 ∧
      s.target write (nextPage l) = none := by
  have hle := hl.le
  have htarget : s.target write (l + BitVec.ofNat 64 i) = none := by
    rw [← target_byteLinear hclear hl hi, ← translation_eq hclear]
    exact h.here
  have hpage : 0x1000 ≤ l.toNat % 4096 + i := by
    by_contra hlt
    rw [target_add hp (by omega)] at htarget
    cases htarget
  have hnext : s.target write (nextPage l) = none := by
    rw [nextPage_add hpage (by omega)] at htarget
    cases hp₂ : s.target write (nextPage l) with
    | none => rfl
    | some p₂ =>
      rw [target_add hp₂ (by rw [nextPage_offset]; omega)] at htarget
      cases htarget
  refine ⟨by omega, ?_, hnext⟩
  by_contra hne
  refine h.before (0x1000 - l.toNat % 4096) (by omega) ?_
  rw [translation_eq hclear, target_byteLinear hclear hl (by omega), nextPage_start, hnext]

/-- An operand whose second page is refused does not wrap, and goes on where that page starts. -/
theorem byteLinear_next (hcross : 0x1000 < l.toNat % 4096 + n)
    (hnone : s.target write (nextPage l) = none) :
    s.byteLinear l (0x1000 - l.toNat % 4096) = nextPage l := by
  have hle := hl.le
  have hi : 0x1000 - l.toNat % 4096 < n := by omega
  by_cases hbelow : s.long64 = true ∨ l.toNat + (0x1000 - l.toNat % 4096) < 2 ^ 32
  · rw [byteLinear_below hl hi hbelow, nextPage_start]
  · rw [not_or, Nat.not_lt] at hbelow
    obtain ⟨hlong, hwrap⟩ := hbelow
    obtain ⟨hlt, halias⟩ := (hl.fits.resolve_left hlong).resolve_left (by omega)
    obtain ⟨p, htop, -⟩ := halias.served
    rw [translation_eq hclear, ← nextPage_top hlt hwrap, hnone] at htop
    cases htop

omit hclear hl in
/-- An operand whose first byte is not translated faults there. -/
theorem faultsAt_first (hclear : s.pendingException = none) (hzero : s.byteLinear l 0 = l)
    (hp : s.target write l = none) (h : s.FaultsAt write l i) : i = 0 := by
  by_contra hne
  refine h.before 0 (by omega) ?_
  rw [translation_eq hclear, hzero, hp]

omit hclear in
/-- The marks a first access leaves. -/
theorem onlyMarks_first (h : s.Touched l tlb mem) : s.OnlyMarks l n mem := by
  have h' : (s.withTables s.tlb s.mem).Touched l tlb mem := h
  refine onlyMarks_touched (.refl s l n) h' fun v hv => ⟨0, hl.pos, v, ?_, rfl⟩
  rw [byteLinear_zero hl.low]
  exact hv

omit hclear in
/-- The marks of both pages. -/
theorem onlyMarks_second (h : s.Touched l tlb mem) {tlb' : Fin 256 → TlbEntry} {mem' : Memory}
    (h' : (s.withTables tlb mem).Touched (nextPage l) tlb' mem')
    (hcross : 0x1000 < l.toNat % 4096 + n) : s.OnlyMarks l n mem' := by
  refine onlyMarks_touched (onlyMarks_first hl h) h' fun v hv => ?_
  have hle := hl.le
  have hi : 0x1000 - l.toNat % 4096 < n := by omega
  obtain ⟨v₁, hv₁, haddr₁⟩ := walkPath_touched h _ v hv
  refine ⟨0x1000 - l.toNat % 4096, hi, ?_⟩
  by_cases hbelow : s.long64 = true ∨ l.toNat + (0x1000 - l.toNat % 4096) < 2 ^ 32
  · rw [byteLinear_below hl hi hbelow, nextPage_start]
    exact ⟨v₁, hv₁, haddr₁⟩
  · rw [not_or, Nat.not_lt] at hbelow
    obtain ⟨hlong, hwrap⟩ := hbelow
    obtain ⟨hlt, halias⟩ := (hl.fits.resolve_left hlong).resolve_left (by omega)
    rw [nextPage_top hlt hwrap] at hv₁
    obtain ⟨v₂, hv₂, haddr₂⟩ := halias.path v₁ hv₁
    have hzero : l.toNat + (0x1000 - l.toNat % 4096) - 2 ^ 32 = 0 := by omega
    rw [(byteLinear_wrapped hl hi hlong hlt hwrap).1, hzero]
    exact ⟨v₂, hv₂, haddr₂.trans haddr₁⟩

end Bytes

/-! ## The split helpers -/

section Split

variable {phys : Nat → U64} (hclear : s.pendingException = none) (ht : s.Touched l tlb mem)

theorem straddles_iff (hp : s.target write l = some p) :
    straddles p n = true ↔ 0x1000 < l.toNat % 4096 + n := by
  rw [straddles, decide_eq_true_iff, offset_toNat, target_offset hp]

theorem byteOf_shifted (b : U8) {n : Nat} (hn : n < 16) (i : Nat) :
    byteOf (u128 b <<< (8 * n)) i = if i = n then b else 0 := by
  refine BitVec.eq_of_getLsbD_eq fun k hk => ?_
  rw [getLsbD_byteOf _ _ hk, BitVec.getLsbD_shiftLeft, BitVec.getLsbD_setWidth]
  by_cases hi : i = n
  · subst hi
    rw [if_pos rfl, Nat.add_sub_cancel_left]
    simp [show 8 * i + k < 128 by omega, show k < 128 by omega]
  · rw [if_neg hi, show (0 : U8).getLsbD k = false from BitVec.getLsbD_zero]
    by_cases hlt : 8 * i + k < 8 * n
    · simp [hlt]
    · rw [BitVec.getLsbD_of_ge b _ (by omega)]
      simp

/-- Byte `i` of a little-endian value put together from bytes. -/
theorem byteOf_gather (f : Nat → U8) : ∀ n ≤ 16, ∀ i,
    byteOf ((List.range n).foldl (fun v i => v ||| u128 (f i) <<< (8 * i)) (0 : U128)) i =
      if i < n then f i else 0
  | 0, _, i => by
    rw [if_neg (Nat.not_lt_zero i)]
    exact BitVec.extractLsb'_zero
  | n + 1, hn, i => by
    rw [List.range_succ, List.foldl_append]
    dsimp only [List.foldl_cons, List.foldl_nil]
    rw [Memory.byteOf_or, byteOf_gather f n (by omega) i, byteOf_shifted _ (by omega)]
    by_cases hi : i < n
    · rw [if_pos hi, if_neg (by omega), if_pos (by omega)]
      exact BitVec.or_zero
    · rw [if_neg hi]
      by_cases hin : i = n
      · rw [if_pos hin, if_pos (by omega), hin]
        exact BitVec.zero_or
      · rw [if_neg hin, if_neg (by omega)]
        rfl

include ht in
/-- The access to the second page. -/
theorem access_next (write : Bool) :
    (∃ f, s.target write (nextPage l) = none ∧
      applyPagingAccess (nextPage l) write (s.withTables tlb mem) =
        (unbacked, (s.withTables tlb mem).raise f) ∧ Refusal (nextPage l) f) ∨
    ∃ p₂ tlb' mem', s.target write (nextPage l) = some p₂ ∧
      applyPagingAccess (nextPage l) write (s.withTables tlb mem) = (p₂, s.withTables tlb' mem') ∧
      (s.withTables tlb mem).Touched (nextPage l) tlb' mem' := by
  have htouched : (s.withTables tlb mem).target write (nextPage l) = s.target write (nextPage l) :=
    target_touched ht (tlbIndex_nextPage l)
  cases hp₂ : s.target write (nextPage l) with
  | none =>
    obtain ⟨f, hrun, hf⟩ := access_refused (htouched.trans hp₂)
    exact .inl ⟨f, rfl, hrun, hf⟩
  | some p₂ =>
    obtain ⟨tlb', mem', hrun, ht'⟩ := access_granted (htouched.trans hp₂)
    exact .inr ⟨p₂, tlb', mem', rfl, hrun, ht'⟩

theorem readSplit_run {t u : Cpu} {p₂ : U64}
    (h : applyPagingAccess (nextPage l) false t = (p₂, u)) :
    readSplit p l n t =
      (if u.pendingException.isSome then 0
        else (List.range n).foldl (fun v i => v |||
          u128 (u.mem.readU8 (splitAddr p p₂ (0x1000 - (p &&& 0xFFF).toNat) i)) <<< (8 * i)) 0,
        u) := by
  have hnext : applyPagingAccess ((l &&& ~~~0xFFF) + 0x1000) false t = (p₂, u) := h
  unfold readSplit
  rw [bind_run, hnext, bind_run, get_run]
  dsimp only
  split <;> rfl

theorem writeSplit_run {t u : Cpu} {p₂ : U64} {v : U128}
    (h : applyPagingAccess (nextPage l) true t = (p₂, u)) :
    (writeSplit p l n v t).2 =
      if u.pendingException.isSome then u
      else u.modifyMem fun m => (List.range n).foldl (fun m i =>
        m.writeU8 (splitAddr p p₂ (0x1000 - (p &&& 0xFFF).toNat) i) (byteOf v i)) m := by
  have hnext : applyPagingAccess ((l &&& ~~~0xFFF) + 0x1000) true t = (p₂, u) := h
  unfold writeSplit
  rw [bind_run, hnext, bind_run, get_run]
  dsimp only
  split <;> rfl

include hclear

theorem splitAddr_phys (hl : s.Unwrapped write l n) {p₂ : U64} (hT : s.Translates write l n phys)
    (hp : s.target write l = some p) (hp₂ : s.target write (nextPage l) = some p₂) {i : Nat}
    (hi : i < n) : splitAddr p p₂ (0x1000 - (p &&& 0xFFF).toNat) i = phys i := by
  have hle := hl.le
  unfold splitAddr
  rw [offset_toNat, target_offset hp]
  split
  · exact (phys_first hclear hl hT hp hi (by omega)).symm
  · rw [phys_second hclear hl hT hp₂ hi (by omega)]
    have hsub : BitVec.ofNat 64 i = BitVec.ofNat 64 (i - (0x1000 - l.toNat % 4096)) +
        BitVec.ofNat 64 (0x1000 - l.toNat % 4096) := by
      rw [← BitVec.ofNat_add]
      congr 1
      omega
    rw [hsub, ← BitVec.add_assoc, BitVec.add_sub_cancel]

/-- An operand whose second page is not translated is served nowhere. -/
theorem not_translates (hl : s.Unwrapped write l n) (hcross : 0x1000 < l.toNat % 4096 + n)
    (hp₂ : s.target write (nextPage l) = none) : ¬ s.Translates write l n phys := by
  intro hT
  have hle := hl.le
  have hi := hT (0x1000 - l.toNat % 4096) (by omega)
  rw [translation_eq hclear, target_byteLinear hclear hl (by omega), nextPage_start, hp₂] at hi
  cases hi

include ht

/-- A read that crosses a page. -/
theorem reads_split (hl : s.Unwrapped false l n) (hp : s.target false l = some p)
    (hcross : straddles p n = true) :
    s.Reads l n (readSplit p l n (s.withTables tlb mem)).1
      (readSplit p l n (s.withTables tlb mem)).2 := by
  have hcross' := (straddles_iff hp).mp hcross
  rcases access_next ht false with ⟨f, hp₂, hrun, hf⟩ | ⟨p₂, tlb', mem', hp₂, hrun, ht'⟩
  · rw [readSplit_run hrun]
    refine ⟨fun phys hT => absurd hT (not_translates hclear hl hcross' hp₂), fun i hi hat => ?_, ?_⟩
    · obtain ⟨-, rfl, -⟩ := faultsAt_second hclear hl hp hat hi
      exact faultedAt_raise (t := s.withTables tlb mem) hclear hf
        (byteLinear_next hclear hl hcross' hp₂)
    · obtain ⟨e, cr2, log, heq⟩ := (s.withTables tlb mem).raise_eq f
      dsimp only
      rw [heq]
      exact onlyMarks_first hl ht
  · rw [readSplit_run hrun]
    refine ⟨fun phys hT => ⟨hclear, fun i => ?_⟩, fun i hi hat => ?_,
      onlyMarks_second hl ht ht' hcross'⟩
    · have hno : ¬ (s.withTables tlb' mem').pendingException.isSome = true := by
        show ¬ s.pendingException.isSome = true
        rw [hclear]
        exact Bool.false_ne_true
      dsimp only
      rw [if_neg hno, byteOf_gather _ n hl.le]
      split
      · rename_i hi
        rw [splitAddr_phys hclear hl hT hp hp₂ hi]
      · rfl
    · obtain ⟨-, -, hnone⟩ := faultsAt_second hclear hl hp hat hi
      rw [hp₂] at hnone
      cases hnone

/-- A read within a page. -/
theorem reads_within (hl : s.Unwrapped false l n) {k : Nat} {v : BitVec k}
    (hp : s.target false l = some p)
    (hin : ¬ straddles p n = true)
    (hv : ∀ i, byteOf v i = if i < n then mem.readU8 (p + BitVec.ofNat 64 i) else 0) :
    s.Reads l n v (s.withTables tlb mem) := by
  have hin' := (straddles_iff (n := n) hp).not.mp hin
  refine ⟨fun phys hT => ⟨hclear, fun i => (hv i).trans ?_⟩, fun i hi hat => ?_,
    onlyMarks_first hl ht⟩
  · split
    · rename_i hi
      rw [phys_first hclear hl hT hp hi (by omega)]
      rfl
    · rfl
  · exact absurd (faultsAt_second hclear hl hp hat hi).1 hin'

omit ht in
/-- A read whose first byte is refused. -/
theorem reads_refused (hlow : s.long64 = true ∨ l.toNat < 2 ^ 32) (hpos : 0 < n) {k : Nat}
    {v : BitVec k} (hp : s.target false l = none) {f : Fault} (hf : Refusal l f) :
    s.Reads l n v (s.raise f) := by
  have hzero := byteLinear_zero hlow
  refine ⟨fun phys hT => ?_, fun i hi hat => ?_, ?_⟩
  · have h0 := hT 0 hpos
    rw [translation_eq hclear, hzero, hp] at h0
    cases h0
  · obtain rfl := faultsAt_first hclear hzero hp hat
    exact faultedAt_raise hclear hf hzero
  · obtain ⟨e, cr2, log, heq⟩ := s.raise_eq f
    rw [heq]
    exact .refl s l n

omit ht in
/-- The bytes of an operand have places of their own. -/
theorem phys_inj (hl : s.Unwrapped write l n) (hT : s.Translates write l n phys) :
    ∀ i < n, ∀ j < n, phys i = phys j → i = j := by
  intro i hi j hj he
  have hle := hl.le
  have hlt := l.isLt
  have hoffset {i : Nat} (hi : i < n) : (phys i).toNat % 4096 = (l.toNat + i) % 4096 := by
    rw [target_offset (target_of_translates hclear hl hT hi), BitVec.toNat_add, BitVec.toNat_ofNat]
    omega
  have hi' := hoffset hi
  rw [he, hoffset hj] at hi'
  omega

/-- A write that crosses a page. -/
theorem writes_split (hl : s.Unwrapped true l n) (v : U128) (hp : s.target true l = some p)
    (hcross : straddles p n = true) :
    s.Writes l n (byteOf v) (writeSplit p l n v (s.withTables tlb mem)).2 := by
  have hcross' := (straddles_iff hp).mp hcross
  rcases access_next ht true with ⟨f, hp₂, hrun, hf⟩ | ⟨p₂, tlb', mem', hp₂, hrun, ht'⟩
  · have hfault := faultedAt_raise (t := s.withTables tlb mem) hclear hf
      (byteLinear_next hclear hl hcross' hp₂)
    rw [writeSplit_run hrun, if_pos hfault.pending]
    refine ⟨fun phys hT => absurd hT (not_translates hclear hl hcross' hp₂), fun i hi hat => ?_⟩
    obtain ⟨-, rfl, -⟩ := faultsAt_second hclear hl hp hat hi
    obtain ⟨e, cr2, log, heq⟩ := (s.withTables tlb mem).raise_eq f
    refine ⟨hfault, ?_⟩
    rw [heq]
    exact onlyMarks_first hl ht
  · have hno : ¬ (s.withTables tlb' mem').pendingException.isSome = true := by
      show ¬ s.pendingException.isSome = true
      rw [hclear]
      exact Bool.false_ne_true
    rw [writeSplit_run hrun, if_neg hno]
    refine ⟨fun phys hT => ⟨hclear, mem', onlyMarks_second hl ht ht' hcross', ?_⟩,
      fun i hi hat => ?_⟩
    · have haddr {i : Nat} (hi : i < n) := splitAddr_phys hclear hl hT hp hp₂ hi
      obtain ⟨hslot, hin, hout⟩ := mem'.stored_each
        (splitAddr p p₂ (0x1000 - (p &&& 0xFFF).toNat)) (byteOf v) n fun i hi j hj he =>
          phys_inj hclear hl hT i hi j hj (by rwa [haddr hi, haddr hj] at he)
      refine ⟨hslot, fun i hi hb => ?_, fun b hb => hout b fun i hi => ?_⟩
      · have hi' := hin i hi
        rw [haddr hi] at hi'
        exact hi' hb
      · rw [haddr hi]
        exact hb i hi
    · obtain ⟨-, -, hnone⟩ := faultsAt_second hclear hl hp hat hi
      rw [hp₂] at hnone
      cases hnone

/-- A write within a page. -/
theorem writes_within (hl : s.Unwrapped true l n) {f : Nat → U8} {mem' : Memory}
    (hp : s.target true l = some p)
    (hin : ¬ straddles p n = true) (hv : Memory.Stored mem mem' p n f) :
    s.Writes l n f (s.withTables tlb mem') := by
  have hle := hl.le
  have hin' := (straddles_iff (n := n) hp).not.mp hin
  refine ⟨fun phys hT => ⟨hclear, mem, onlyMarks_first hl ht, ?_⟩, fun i hi hat => ?_⟩
  · have hphys {i : Nat} (hi : i < n) := phys_first hclear hl hT hp hi (by omega)
    refine ⟨hv.slot, fun i hi hb => ?_, fun b hb => ?_⟩
    · have hsub : (phys i - p).toNat = i := by
        rw [hphys hi, BitVec.add_comm, BitVec.add_sub_cancel, BitVec.toNat_ofNat]
        omega
      refine (hv.byte _).trans ?_
      rw [hsub, if_pos ⟨hi, hb⟩]
    · refine (hv.byte _).trans ?_
      rw [if_neg fun h => ?_]
      refine hb _ h.1 ?_
      rw [hphys h.1, BitVec.ofNat_toNat, BitVec.setWidth_eq, BitVec.add_comm, BitVec.sub_add_cancel]
  · exact absurd (faultsAt_second hclear hl hp hat hi).1 hin'

omit ht in
/-- A write whose first byte is refused. -/
theorem writes_refused (hlow : s.long64 = true ∨ l.toNat < 2 ^ 32) (hpos : 0 < n)
    {v : Nat → U8} (hp : s.target true l = none) {f : Fault} (hf : Refusal l f) :
    s.Writes l n v (s.raise f) := by
  have hzero := byteLinear_zero hlow
  refine ⟨fun phys hT => ?_, fun i hi hat => ?_⟩
  · have h0 := hT 0 hpos
    rw [translation_eq hclear, hzero, hp] at h0
    cases h0
  · obtain rfl := faultsAt_first hclear hzero hp hat
    refine ⟨faultedAt_raise hclear hf hzero, ?_⟩
    obtain ⟨e, cr2, log, heq⟩ := s.raise_eq f
    rw [heq]
    exact .refl s l n

end Split

end Cpu

/-! ## Wide accesses within a page -/

namespace Memory

theorem byteOf_quads (m : Memory) (a : U64) {k : Nat} (hk : k < 16) :
    byteOf (m.bytes8 (a + 8) ++ m.bytes8 a) k = m.readU8 (a + BitVec.ofNat 64 k) := by
  have hhalf : byteOf (m.bytes8 (a + 8) ++ m.bytes8 a) k =
      if k < 8 then byteOf (m.bytes8 a) k else byteOf (m.bytes8 (a + 8)) (k - 8) := by
    refine BitVec.eq_of_getLsbD_eq fun j hj => ?_
    rw [getLsbD_byteOf _ _ hj, BitVec.getLsbD_append]
    by_cases h8 : k < 8
    · rw [if_pos (by omega), if_pos h8, getLsbD_byteOf _ _ hj]
    · rw [if_neg (by omega), if_neg h8, getLsbD_byteOf _ _ hj]
      congr 1
      omega
  rw [hhalf]
  split
  · exact byteOf_bytes8 m a ‹_›
  · rw [byteOf_bytes8 m _ (by omega)]
    have hadd : (8 : U64) + BitVec.ofNat 64 (k - 8) = BitVec.ofNat 64 k := by
      rw [show (8 : U64) = BitVec.ofNat 64 8 from rfl, ← BitVec.ofNat_add]
      congr 1
      omega
    rw [BitVec.add_assoc, hadd]

/-- Within a page only the cells of the text window split an access. -/
theorem not_seam {p : U64} {w : Wide} (hin : ¬ straddles p w.bytes = true)
    (hcells : ¬ WindowSeam p.toNat w) (ram : Nat) : ¬ Seam ram p.toNat w := by
  rintro (⟨-, hlo, hhi⟩ | hwindow)
  · rw [straddles, decide_eq_true_iff, offset_toNat] at hin
    unfold mmioHoleStart at hlo hhi
    omega
  · exact hcells hwindow

theorem no_wrap {p : U64} {n : Nat} (hin : ¬ straddles p n = true) : p.toNat + n ≤ 2 ^ 64 := by
  have hlt := p.isLt
  rw [straddles, decide_eq_true_iff, offset_toNat] at hin
  omega

theorem not_onSeam {p : U64} {w : Width} (hw : w ≠ .w8) (hin : ¬ straddles p w.bytes = true)
    (hcells : ¬ WindowSeam p.toNat w.wide) (ram : Nat) : ¬ OnSeam ram p w := by
  have hbytes : w.wide.bytes = w.bytes := by cases w <;> first | rfl | exact absurd rfl hw
  have hwrap := no_wrap hin
  rw [← hbytes] at hin
  exact not_or.mpr ⟨not_seam hin hcells ram, by omega⟩

theorem byteOf_memReadW (m : Memory) {p : U64} {w : Width} (hw : w ≠ .w8)
    (hin : ¬ straddles p w.bytes = true) (hcells : ¬ WindowSeam p.toNat w.wide) (i : Nat) :
    byteOf (memReadW m p w) i =
      if i < w.bytes then m.readU8 (p + BitVec.ofNat 64 i) else 0 := by
  split
  · exact (bytewise m hw (not_onSeam hw hin hcells m.ramSize)).read i ‹_›
  · rename_i hi
    replace hi := Nat.le_of_not_lt hi
    cases w with
    | w8 => exact absurd rfl hw
    | w16 =>
      have h2 : 2 ≤ i := hi
      exact (byteOf_widen (m.readU16 p) (by decide)).trans (byteOf_beyond _ (by omega))
    | w32 =>
      have h4 : 4 ≤ i := hi
      exact (byteOf_widen (m.readU32 p) (by decide)).trans (byteOf_beyond _ (by omega))
    | w64 =>
      have h8 : 8 ≤ i := hi
      exact byteOf_beyond (m.readU64 p) (by omega)

/-- What an SSE read of a width gives, byte by byte. -/
theorem byteOf_sseMemRead (m : Memory) {p : U64} {w : Wide} (hw : w ≠ .w2)
    (hin : ¬ straddles p w.bytes = true) (hcells : ¬ WindowSeam p.toNat w) (i : Nat) :
    byteOf (sseMemRead m p w.bytes) i =
      if i < w.bytes then m.readU8 (p + BitVec.ofNat 64 i) else 0 := by
  have hagree := bytesAgree (m := m) w (no_wrap hin) (not_seam hin hcells m.ramSize)
  cases w with
  | w2 => exact absurd rfl hw
  | w4 =>
    have hread : sseMemRead m p Wide.w4.bytes = u128 (m.bytes4 p) := congrArg u128 hagree.1
    rw [hread, byteOf_widen _ (by decide)]
    split
    · exact byteOf_bytes4 m p ‹_›
    · have h4 : 4 ≤ i := Nat.le_of_not_lt ‹_›
      exact byteOf_beyond _ (by omega)
  | w8 =>
    have hread : sseMemRead m p Wide.w8.bytes = u128 (m.bytes8 p) := congrArg u128 hagree.1
    rw [hread, byteOf_widen _ (by decide)]
    split
    · exact byteOf_bytes8 m p ‹_›
    · have h8 : 8 ≤ i := Nat.le_of_not_lt ‹_›
      exact byteOf_beyond _ (by omega)
  | w16 =>
    have hread : sseMemRead m p Wide.w16.bytes = m.bytes8 (p + 8) ++ m.bytes8 p := hagree.1
    rw [hread]
    split
    · exact byteOf_quads m p ‹_›
    · have h16 : 16 ≤ i := Nat.le_of_not_lt ‹_›
      exact byteOf_beyond _ (by omega)

theorem stored_sseMemWrite (m : Memory) {p : U64} {w : Wide} (hw : w ≠ .w2)
    (hin : ¬ straddles p w.bytes = true) (hcells : ¬ WindowSeam p.toNat w) (v : U128) :
    Stored m (sseMemWrite p w.bytes v m) p w.bytes (byteOf v) := by
  have hagree := bytesAgree (m := m) w (no_wrap hin) (not_seam hin hcells m.ramSize)
  cases w with
  | w2 => exact absurd rfl hw
  | w4 =>
    refine Stored.congr ?_ fun k hk => byteOf_narrow v (show 8 * k + 8 ≤ 32 from ?_)
    · rw [show sseMemWrite p _ v m = m.writeU32 p (u32 v) from rfl, hagree.2]
      exact stored_writeBytes m p 4 (by decide) _
    · have hk4 : k < 4 := hk
      omega
  | w8 =>
    refine Stored.congr ?_ fun k hk => byteOf_narrow v (show 8 * k + 8 ≤ 64 from ?_)
    · rw [show sseMemWrite p _ v m = m.writeU64 p (u64 v) from rfl, hagree.2]
      exact stored_writeBytes m p 8 (by decide) _
    · have hk8 : k < 8 := hk
      omega
  | w16 =>
    rw [show sseMemWrite p _ v m = m.writeU128 p v from rfl, hagree.2]
    exact stored_writeBytes m p 16 (by decide) _

end Memory

/-! ## The operand helpers -/

namespace Cpu

variable {s : Cpu} {l p : U64} {w : Width} {tlb : Fin 256 → TlbEntry} {mem : Memory}

/-- An operand that does not wrap at 4 GiB, or is refused at its first byte, or finds above 4 GiB
what is at 0; and that within a page splits no cell of the text window. -/
structure Whole (s : Cpu) (write : Bool) (l : U64) (w : Memory.Wide) : Prop where
  clear : s.pendingException = none
  fits : s.long64 = true ∨ l.toNat + w.bytes ≤ 2 ^ 32 ∨ s.translation write l = none ∨
    s.TopAlias write
  cells : ∀ p, s.translation write l = some p →
    straddles p w.bytes = true ∨ ¬ Memory.WindowSeam p.toNat w

theorem Whole.unwrapped {write : Bool} {w : Memory.Wide} (h : s.Whole write l w)
    (hlow : s.long64 = true ∨ l.toNat < 2 ^ 32) (hp : s.target write l = some p) :
    s.Unwrapped write l w.bytes := by
  refine ⟨by cases w <;> decide, by cases w <;> decide, ?_⟩
  rcases h.fits with hlong | hfits | hnone | halias
  · exact .inl hlong
  · exact .inr (.inl hfits)
  · rw [translation_eq h.clear, hp] at hnone
    cases hnone
  · exact hlow.imp_right fun hlt => .inr ⟨hlt, halias⟩

/-- Outside 64-bit mode a linear address has 32 bits. -/
theorem linearAddr_low (s : Cpu) (r : SegReg) (off : U64) :
    s.long64 = true ∨ (s.linearAddr r off).toNat < 2 ^ 32 := by
  have hmask (x : U64) : (x &&& 0xFFFFFFFF).toNat < 2 ^ 32 := by
    rw [BitVec.toNat_and, show (0xFFFFFFFF : U64).toNat = 2 ^ 32 - 1 from rfl,
      Nat.and_two_pow_sub_one_eq_mod]
    exact Nat.mod_lt _ (by decide)
  unfold linearAddr
  split
  · exact .inl ‹_›
  · split
    · exact .inr (hmask _)
    · exact .inr (hmask _)

theorem Whole.window {write : Bool} {w : Memory.Wide} (h : s.Whole write l w)
    (hp : s.target write l = some p) (hin : ¬ straddles p w.bytes = true) :
    ¬ Memory.WindowSeam p.toNat w :=
  (h.cells p ((translation_eq h.clear).trans hp)).resolve_left hin

theorem Reads.narrow {n : Nat} {v : U128} {t : Cpu} (h : s.Reads l n v t) (hn : n ≤ 8) :
    s.Reads l n (u64 v) t := by
  refine ⟨fun phys hT => ⟨(h.served phys hT).1, fun i => ?_⟩, h.faulted, h.marks⟩
  by_cases hi : i < 8
  · rw [byteOf_narrow v (by omega)]
    exact (h.served phys hT).2 i
  · rw [byteOf_beyond _ (by omega), if_neg (by omega)]

theorem byteOf_u128 (v : U64) : byteOf (u128 v) = byteOf v :=
  funext fun _ => byteOf_widen v (by decide)

theorem bytes_wide (hw : w ≠ .w8) : w.wide.bytes = w.bytes := by
  cases w <;> first | rfl | exact absurd rfl hw

theorem pending_kept (h : s.pendingException = none) (tlb : Fin 256 → TlbEntry) (mem : Memory) :
    ¬ (s.withTables tlb mem).pendingException.isSome = true := by
  show ¬ s.pendingException.isSome = true
  rw [h]
  exact Bool.false_ne_true

theorem pending_raise (h : s.pendingException = none) (f : Fault) :
    (s.raise f).pendingException.isSome = true := by
  rw [raise, h]
  rfl

/-- `str_read` of an element whose first byte has been translated. -/
theorem reads_strRead {r : SegReg} {off : U64} (hw : w ≠ .w8)
    (h : s.Whole false (s.linearAddr r off) w.wide)
    (hp : s.target false (s.linearAddr r off) = some p) :
    s.Reads (s.linearAddr r off) w.bytes (strRead p r off w s).1 (strRead p r off w s).2 := by
  have hl := h.unwrapped (linearAddr_low s r off) hp
  have hwindow := h.window hp
  rw [bytes_wide hw] at hl hwindow
  have ht := touched_self s (s.linearAddr r off)
  unfold strRead
  rw [bind_run, get_run]
  dsimp only
  rw [ite_run]
  split
  · rename_i hcross
    have hreads := reads_split h.clear ht hl hp hcross.2
    exact hreads.narrow (by cases w <;> decide)
  · rename_i hin
    have hin' : ¬ straddles p w.bytes = true := fun hc => hin ⟨hw, hc⟩
    exact reads_within h.clear ht hl hp hin' (Memory.byteOf_memReadW s.mem hw hin' (hwindow hin'))

/-- `str_write` of an element whose first byte has been translated. -/
theorem writes_strWrite {r : SegReg} {off : U64} (v : U64) (hw : w ≠ .w8)
    (h : s.Whole true (s.linearAddr r off) w.wide)
    (hp : s.target true (s.linearAddr r off) = some p) :
    s.Writes (s.linearAddr r off) w.bytes (byteOf v) (strWrite p r off w v s).2 := by
  have hl := h.unwrapped (linearAddr_low s r off) hp
  have hwindow := h.window hp
  rw [bytes_wide hw] at hl hwindow
  have ht := touched_self s (s.linearAddr r off)
  unfold strWrite
  rw [bind_run, get_run]
  dsimp only
  rw [ite_run]
  split
  · rename_i hcross
    rw [← byteOf_u128 v]
    exact writes_split h.clear ht hl (u128 v) hp hcross.2
  · rename_i hin
    have hin' : ¬ straddles p w.bytes = true := fun hc => hin ⟨hw, hc⟩
    have hstored := (bytewise s.mem hw (Memory.not_onSeam hw hin' (hwindow hin') _)).write v
    exact writes_within h.clear ht hl hp hin' hstored

section Operand

variable {m : ModRm} (hm : m.isReg = false)
include hm

/-- `read_rm_w` of a memory operand. -/
theorem reads_readRmW (hw : w ≠ .w8) (h : s.Whole false (s.modrmLinear m) w.wide) :
    s.Reads (s.modrmLinear m) w.bytes (readRmW m w s).1 (readRmW m w s).2 := by
  have hlow : s.long64 = true ∨ (s.modrmLinear m).toNat < 2 ^ 32 := linearAddr_low s _ _
  have hl {p : U64} := h.unwrapped (p := p) hlow
  have hwindow {p : U64} := h.window (p := p)
  simp only [bytes_wide hw] at hl hwindow
  have hrun : readRmW m w s = (readRmAt m w (rmAddr m false s).1) (rmAddr m false s).2 := by
    unfold readRmW
    rw [hm]
    rfl
  have haddr : rmAddr m false s = applyPagingAccess (s.modrmLinear m) false s := rfl
  rw [hrun, haddr]
  unfold readRmAt
  cases hp : s.target false (s.modrmLinear m) with
  | none =>
    obtain ⟨f, haccess, hf⟩ := access_refused hp
    have hcross : w ≠ .w8 ∧ straddles unbacked w.bytes = true := by
      refine ⟨hw, ?_⟩
      cases w <;> first | exact absurd rfl hw | decide
    rw [haccess]
    dsimp only
    rw [bind_run, get_run]
    dsimp only
    rw [if_pos hcross, if_pos (pending_raise h.clear f)]
    exact reads_refused h.clear hlow (by cases w <;> decide) hp hf
  | some p =>
    obtain ⟨tlb, mem, haccess, ht⟩ := access_granted hp
    rw [haccess]
    dsimp only
    rw [bind_run, get_run]
    dsimp only
    rw [if_neg (pending_kept h.clear tlb mem)]
    split
    · rename_i hcross
      have hreads := reads_split h.clear ht (hl hp) hp hcross.2
      exact hreads.narrow (by cases w <;> decide)
    · rename_i hin
      have hin' : ¬ straddles p w.bytes = true := fun hc => hin ⟨hw, hc⟩
      exact reads_within h.clear ht (hl hp) hp hin'
        (Memory.byteOf_memReadW mem hw hin' (hwindow hp hin'))

/-- `write_rm_w` of a memory operand. -/
theorem writes_writeRmW (v : U64) (hw : w ≠ .w8) (h : s.Whole true (s.modrmLinear m) w.wide) :
    s.Writes (s.modrmLinear m) w.bytes (byteOf v) (writeRmW m w v s).2 := by
  have hlow : s.long64 = true ∨ (s.modrmLinear m).toNat < 2 ^ 32 := linearAddr_low s _ _
  have hl {p : U64} := h.unwrapped (p := p) hlow
  have hwindow {p : U64} := h.window (p := p)
  simp only [bytes_wide hw] at hl hwindow
  have hno : ¬ s.pendingException.isSome = true := by
    rw [h.clear]
    exact Bool.false_ne_true
  have hrun : writeRmW m w v s = (writeRmAt m w v (rmAddr m true s).1) (rmAddr m true s).2 := by
    unfold writeRmW
    rw [bind_run, get_run]
    dsimp only
    rw [if_neg hno, hm]
    rfl
  have haddr : rmAddr m true s = applyPagingAccess (s.modrmLinear m) true s := rfl
  rw [hrun, haddr]
  unfold writeRmAt
  cases hp : s.target true (s.modrmLinear m) with
  | none =>
    obtain ⟨f, haccess, hf⟩ := access_refused hp
    rw [haccess]
    dsimp only
    rw [bind_run, get_run]
    dsimp only
    rw [if_pos (pending_raise h.clear f)]
    exact writes_refused h.clear hlow (by cases w <;> decide) hp hf
  | some p =>
    obtain ⟨tlb, mem, haccess, ht⟩ := access_granted hp
    rw [haccess]
    dsimp only
    rw [bind_run, get_run]
    dsimp only
    rw [if_neg (pending_kept h.clear tlb mem)]
    split
    · rename_i hcross
      rw [← byteOf_u128 v]
      exact writes_split h.clear ht (hl hp) (u128 v) hp hcross.2
    · rename_i hin
      have hin' : ¬ straddles p w.bytes = true := fun hc => hin ⟨hw, hc⟩
      have hstored := (bytewise mem hw (Memory.not_onSeam hw hin' (hwindow hp hin') _)).write v
      exact writes_within h.clear ht (hl hp) hp hin' hstored

omit hm in
theorem aligned_offset {aligned write : Bool} (hp : s.target write l = some p)
    (h : aligned = true → l.toNat % 16 = 0) : ¬ (aligned = true ∧ p &&& 15 ≠ 0) := by
  rintro ⟨ha, hne⟩
  refine hne (BitVec.eq_of_toNat_eq ?_)
  have hoffset := target_offset hp
  have hl := h ha
  rw [BitVec.toNat_and, show (15 : U64).toNat = 2 ^ 4 - 1 from rfl, Nat.and_two_pow_sub_one_eq_mod,
    show (0 : U64).toNat = 0 from rfl]
  omega

variable {w : Memory.Wide} (hw : w ≠ .w2) {aligned : Bool}
  (halign : aligned = true → (s.modrmLinear m).toNat % 16 = 0)
include hw halign

/-- `sse_src` of a memory operand. -/
theorem reads_sseSrc (h : s.Whole false (s.modrmLinear m) w) :
    s.Reads (s.modrmLinear m) w.bytes (sseSrc m w.bytes aligned s).1
      (sseSrc m w.bytes aligned s).2 := by
  have hlow : s.long64 = true ∨ (s.modrmLinear m).toNat < 2 ^ 32 := linearAddr_low s _ _
  have hl {p : U64} := h.unwrapped (p := p) hlow
  have haddr : rmAddr m false s = applyPagingAccess (s.modrmLinear m) false s := rfl
  unfold sseSrc
  rw [hm, if_neg Bool.false_ne_true, bind_run, haddr]
  cases hp : s.target false (s.modrmLinear m) with
  | none =>
    obtain ⟨f, haccess, hf⟩ := access_refused hp
    rw [haccess]
    dsimp only
    rw [bind_run, get_run]
    dsimp only
    rw [if_pos (pending_raise h.clear f)]
    exact reads_refused h.clear hlow (by cases w <;> decide) hp hf
  | some p =>
    obtain ⟨tlb, mem, haccess, ht⟩ := access_granted hp
    rw [haccess]
    dsimp only
    rw [bind_run, get_run]
    dsimp only
    rw [if_neg (pending_kept h.clear tlb mem), if_neg (aligned_offset hp halign)]
    split
    · rename_i hcross
      exact reads_split h.clear ht (hl hp) hp hcross
    · rename_i hin
      exact reads_within h.clear ht (hl hp) hp hin
        (Memory.byteOf_sseMemRead mem hw hin (h.window hp hin))

/-- `sse_store` to a memory operand. -/
theorem writes_sseStore (v : U128) (h : s.Whole true (s.modrmLinear m) w) :
    s.Writes (s.modrmLinear m) w.bytes (byteOf v) (sseStore m w.bytes v aligned s).2 := by
  have hlow : s.long64 = true ∨ (s.modrmLinear m).toNat < 2 ^ 32 := linearAddr_low s _ _
  have hl {p : U64} := h.unwrapped (p := p) hlow
  have haddr : rmAddr m true s = applyPagingAccess (s.modrmLinear m) true s := rfl
  unfold sseStore
  rw [hm, if_neg Bool.false_ne_true, bind_run, haddr]
  cases hp : s.target true (s.modrmLinear m) with
  | none =>
    obtain ⟨f, haccess, hf⟩ := access_refused hp
    rw [haccess]
    dsimp only
    rw [bind_run, get_run]
    dsimp only
    rw [if_pos (pending_raise h.clear f)]
    exact writes_refused h.clear hlow (by cases w <;> decide) hp hf
  | some p =>
    obtain ⟨tlb, mem, haccess, ht⟩ := access_granted hp
    rw [haccess]
    dsimp only
    rw [bind_run, get_run]
    dsimp only
    rw [if_neg (pending_kept h.clear tlb mem), if_neg (aligned_offset hp halign)]
    split
    · rename_i hcross
      exact writes_split h.clear ht (hl hp) v hp hcross
    · rename_i hin
      exact writes_within h.clear ht (hl hp) hp hin
        (Memory.stored_sseMemWrite mem hw hin (h.window hp hin) v)

end Operand

/-- Every wide access that is whole reads and writes the bytes at their own translations. -/
theorem split_accesses (s : Cpu) :
    (∀ (m : ModRm) (w : Width), m.isReg = false → w ≠ .w8 →
      (s.Whole false (s.modrmLinear m) w.wide →
        s.Reads (s.modrmLinear m) w.bytes (readRmW m w s).1 (readRmW m w s).2) ∧
      ∀ v, s.Whole true (s.modrmLinear m) w.wide →
        s.Writes (s.modrmLinear m) w.bytes (byteOf v) (writeRmW m w v s).2) ∧
    (∀ (m : ModRm) (w : Memory.Wide) (aligned : Bool), m.isReg = false → w ≠ .w2 →
      (aligned = true → (s.modrmLinear m).toNat % 16 = 0) →
      (s.Whole false (s.modrmLinear m) w →
        s.Reads (s.modrmLinear m) w.bytes (sseSrc m w.bytes aligned s).1
          (sseSrc m w.bytes aligned s).2) ∧
      ∀ v, s.Whole true (s.modrmLinear m) w →
        s.Writes (s.modrmLinear m) w.bytes (byteOf v) (sseStore m w.bytes v aligned s).2) ∧
    ∀ (r : SegReg) (off p : U64) (w : Width), w ≠ .w8 →
      (s.Whole false (s.linearAddr r off) w.wide →
        s.translation false (s.linearAddr r off) = some p →
        s.Reads (s.linearAddr r off) w.bytes (strRead p r off w s).1 (strRead p r off w s).2) ∧
      ∀ v, s.Whole true (s.linearAddr r off) w.wide →
        s.translation true (s.linearAddr r off) = some p →
        s.Writes (s.linearAddr r off) w.bytes (byteOf v) (strWrite p r off w v s).2 := by
  refine ⟨fun m w hm hw => ⟨reads_readRmW hm hw, fun v => writes_writeRmW hm v hw⟩,
    fun m w aligned hm hw ha => ⟨reads_sseSrc hm hw ha, writes_sseStore hm hw ha⟩,
    fun r off p w hw =>
      ⟨fun h hp => reads_strRead hw h ?_, fun v h hp => writes_strWrite v hw h ?_⟩⟩
  · rw [← translation_eq h.clear]
    exact hp
  · rw [← translation_eq h.clear]
    exact hp

/-- A page directory at 0x1000 that maps the last 4 MiB below 4 GiB, and nothing else. -/
def topPage : Cpu :=
  let s := Cpu.withRam (2 ^ 16) Memory.segment_le 0
  { s with
    cr0 := s.cr0 ||| cr0Pg ||| cr0Pe
    pe := true
    cr3 := 0x1000
    mem := s.mem.writeU32 0x1FFC 0x83 }

theorem topPage_split :
    topPage.Whole false (topPage.linearAddr .ds 0xFFC01FFE) .w4 ∧
      topPage.translation false (topPage.linearAddr .ds 0xFFC01FFE) = some 0x1FFE ∧
      topPage.Reads (topPage.linearAddr .ds 0xFFC01FFE) 4
        (strRead 0x1FFE .ds 0xFFC01FFE .w32 topPage).1
        (strRead 0x1FFE .ds 0xFFC01FFE .w32 topPage).2 := by
  have hp : topPage.translation false (topPage.linearAddr .ds 0xFFC01FFE) = some 0x1FFE := by
    decide +kernel
  have hwhole : topPage.Whole false (topPage.linearAddr .ds 0xFFC01FFE) .w4 := by
    refine ⟨rfl, .inr (.inl (by decide +kernel)), fun p h => .inl ?_⟩
    rw [← Option.some.inj (hp.symm.trans h)]
    decide
  exact ⟨hwhole, hp,
    ((split_accesses topPage).2.2 .ds 0xFFC01FFE 0x1FFE .w32 (by decide)).1 hwhole hp⟩

/-- A doubleword stored two bytes below 4 GiB faults with a CR2 beyond them. -/
theorem topPage_wrap :
    topPage.translation true (topPage.linearAddr .ds 0xFFFFFFFE) = some 0x3FFFFE ∧
      ¬ topPage.Writes (topPage.linearAddr .ds 0xFFFFFFFE) 4 (byteOf (0 : U64))
        (strWrite 0x3FFFFE .ds 0xFFFFFFFE .w32 0 topPage).2 := by
  refine ⟨by decide +kernel, fun h => ?_⟩
  have hat : topPage.FaultsAt true (topPage.linearAddr .ds 0xFFFFFFFE) 2 :=
    ⟨by decide +kernel, by decide +kernel⟩
  have hcr2 := (h.faulted 2 (by decide) hat).1.cr2 (some 2) (by decide +kernel)
  revert hcr2
  decide +kernel

end Cpu
end X86Emu
