import X86Emu.FlatStrings
import X86Emu.IdentityMap

/-!
# Blocks moved and filled

Without paging a repeated MOVS is a move of a block, or where it goes up onto its own start the
repetition of the first places; a repeated STOS fills a block with the accumulator.
-/
namespace X86Emu

open StateRules Memory BlockCopy

variable {s : Cpu} {w : Width} {n src dst k : Nat} {si di : U64}

/-- The element `k` of the strip at `dst` takes the bytes `v`. -/
def ElementStored (s : Cpu) (w : Width) (n dst : Nat) (v : Nat → U8) (k : Nat) (m m' : Memory) :
    Prop :=
  m.Stored m' (BitVec.ofNat 64 (dst + elementPlace s n k * w.bytes)) w.bytes v

/-- The element `k` of the strip at `dst` takes that of the strip at `src`. -/
def ElementMoved (s : Cpu) (w : Width) (n src dst k : Nat) (m m' : Memory) : Prop :=
  ElementStored s w n dst (fun i => bytesAt m (src + elementPlace s n k * w.bytes + i)) k m m'

/-- One element of MOVS. -/
theorem movsElement_flat (h : s.Flat) (hsrc : Strip s w (s.operandSeg .ds) si n src)
    (hdst : Strip s w .es di n dst) (hk : k < n) (m : Memory) :
    ∃ m', ElementMoved s w n src dst k m m' ∧
      movsElement w (elementIndex (stringStep s w) s.asize si k)
        (elementIndex (stringStep s w) s.asize di k) (s.withMem m) = ((), s.withMem m') := by
  have hflat := h.withMem m
  have hnone : ¬ (s.withMem m).pendingException.isSome = true := by
    rw [hflat.clear]
    exact Bool.false_ne_true
  have hplace := elementPlace_lt (s := s) hk
  obtain ⟨v, hread, hbytes⟩ := hflat.strRead (hsrc.linearAddr h hk) (hsrc.cells _ hplace)
  obtain ⟨m', hwrite, hstored⟩ := hflat.strWrite (hdst.linearAddr h hk) (hdst.cells _ hplace) v
  refine ⟨m', Memory.Stored.congr hstored fun i hi => ?_, ?_⟩
  · refine (hbytes i hi).trans (congrArg m.readU8 ?_)
    rw [BitVec.ofNat_add _ i]
  · unfold movsElement
    rw [bind_run, get_run, bind_run, (hflat.translate _ _).1, bind_run, (hflat.translate _ _).2,
      bind_run, get_run]
    dsimp only
    rw [ite_run, if_neg hnone, bind_run]
    have hsrcAddr := hsrc.linearAddr h hk
    have hdstAddr := hdst.linearAddr h hk
    have hseg : (s.withMem m).operandSeg .ds = s.operandSeg .ds := rfl
    have hlinear (r : SegReg) (o : U64) : (s.withMem m).linearAddr r o = s.linearAddr r o := rfl
    rw [hseg, hlinear, hlinear, hsrcAddr, hdstAddr, hread]
    exact hwrite

/-- One element of STOS. -/
theorem stosElement_flat (h : s.Flat) (hdst : Strip s w .es di n dst) (hk : k < n)
    (m : Memory) :
    ∃ m', ElementStored s w n dst (byteOf (s.regW 0 w)) k m m' ∧
      ∀ si, stosElement w si (elementIndex (stringStep s w) s.asize di k) (s.withMem m) =
        ((), s.withMem m') := by
  have hflat := h.withMem m
  have hnone : ¬ (s.withMem m).pendingException.isSome = true := by
    rw [hflat.clear]
    exact Bool.false_ne_true
  have hplace := elementPlace_lt (s := s) hk
  have hreg : (s.withMem m).regW 0 w = s.regW 0 w := rfl
  obtain ⟨m', hwrite, hstored⟩ := hflat.strWrite (hdst.linearAddr h hk) (hdst.cells _ hplace)
    (s.regW 0 w)
  refine ⟨m', hstored, fun si => ?_⟩
  unfold stosElement
  have hlinear (r : SegReg) (o : U64) : (s.withMem m).linearAddr r o = s.linearAddr r o := rfl
  rw [bind_run, (hflat.translate _ _).2, bind_run, get_run]
  dsimp only
  rw [ite_run, if_neg hnone, hreg, hlinear, hdst.linearAddr h hk]
  exact hwrite

/-! ## Whole instructions -/

/-- Where a run of stores over a strip keeps its memory. -/
theorem backed_chain {M : Nat → Memory} {R : Nat → Memory → Memory → Prop}
    (hsteps : ∀ k < n, R k (M k) (M (k + 1)))
    (hslot : ∀ k m m', R k m m' → ∀ b, m'.slot b = m.slot b) :
    ∀ k ≤ n, ∀ b, (M k).slot b = (M 0).slot b := by
  intro k
  induction k with
  | zero => exact fun _ _ => rfl
  | succ k ih => exact fun hk b => (hslot k _ _ (hsteps k hk) b).trans (ih (by omega) b)

theorem backedAt_element {m : Memory} {p : Nat} (h : BackedAt m dst (n * w.bytes)) (hp : p < n) :
    BackedAt m (dst + p * w.bytes) w.bytes := by
  intro i hi
  have hle := Nat.mul_le_mul_right w.bytes (Nat.succ_le_of_lt hp)
  rw [Nat.succ_mul] at hle
  have hb := h (p * w.bytes + i) (by omega)
  rwa [← Nat.add_assoc] at hb

theorem backedAt_congr {m m' : Memory} {d c : Nat} (hslot : ∀ b, m'.slot b = m.slot b)
    (h : BackedAt m d c) : BackedAt m' d c :=
  fun i hi => (backed_congr (hslot _)).mpr (h i hi)

/-- The state a repeated instruction that goes through all its elements ends in. -/
def allElements (op : StringOp) (rep : Rep) (word : Bool) (s : Cpu) (m : Memory) : Cpu :=
  let step := stringStep s (stringWidth s word)
  let n := stringCount s rep
  stringCommit op rep s.asize ⟨elementIndex step s.asize (s.regW 6 s.asize) n,
    elementIndex step s.asize (s.regW 7 s.asize) n, 0⟩ (s.withMem m)

theorem stringInst_stores {op : StringOp} (hop : op.compares = false) {rep : Rep} {word : Bool}
    (h : s.Flat) {R : Nat → Memory → Memory → Prop}
    (helement : ∀ k < stringCount s rep, ∀ m, ∃ m', R k m m' ∧ op.element (stringWidth s word)
      (elementIndex (stringStep s (stringWidth s word)) s.asize (s.regW 6 s.asize) k)
      (elementIndex (stringStep s (stringWidth s word)) s.asize (s.regW 7 s.asize) k)
      (s.withMem m) = ((), s.withMem m')) :
    ∃ M : Nat → Memory, M 0 = s.mem ∧ (∀ k < stringCount s rep, R k (M k) (M (k + 1))) ∧
      stringInst op rep word s = ((), allElements op rep word s (M (stringCount s rep))) := by
  obtain ⟨M, hzero, hsteps, hrun⟩ := stringLoop_stores hop rep h.clear helement
  refine ⟨M, hzero, hsteps, ?_⟩
  unfold stringInst
  rw [bind_run, get_run]
  dsimp only
  rw [bind_run, hrun]
  rfl

/-- The block of `c` places from `src` on stands from `dst` on as it was, and nothing else has
changed. -/
structure BlockMoved (m m' : Memory) (src dst c : Nat) : Prop where
  moved : ∀ i < c, bytesAt m' (dst + i) = bytesAt m (src + i)
  aside : ∀ x < 2 ^ 64, x < dst ∨ dst + c ≤ x → bytesAt m' x = bytesAt m x

/-- The first `p` places from `src` on are repeated from `dst` on. -/
structure BlockRepeated (m m' : Memory) (src dst p c : Nat) : Prop where
  repeated : ∀ i < c, bytesAt m' (dst + i) = bytesAt m (src + i % p)
  aside : ∀ x < 2 ^ 64, x < dst ∨ dst + c ≤ x → bytesAt m' x = bytesAt m x

/-- What MOVS, repeated or not, does to a block of `c` bytes at `src` where it stores at `dst`. -/
structure MovsBlock (back : Bool) (w src dst c : Nat) (m m' : Memory) : Prop where
  down : back = true → src ≤ dst ∨ dst + c ≤ src → BlockMoved m m' src dst c
  up : back = false → dst ≤ src ∨ src + c ≤ dst → BlockMoved m m' src dst c
  pattern : back = false → ∀ p, dst = src + p → w ≤ p → BlockRepeated m m' src dst p c

/-- The places a chain of element copies leaves. -/
theorem movsBlock_of_copies {back : Bool} {w : Nat} {M : Nat → Memory}
    (hcopies : ∀ k < n, Copies (2 ^ 64) w (src + (if back then n - 1 - k else k) * w)
      (dst + (if back then n - 1 - k else k) * w) (bytesAt (M k)) (bytesAt (M (k + 1))))
    (hsrc : src + n * w ≤ 2 ^ 64) (hdst : dst + n * w ≤ 2 ^ 64) :
    MovsBlock back w src dst (n * w) (M 0) (M n) := by
  have hmoved (hall : ∀ x < 2 ^ 64, bytesAt (M n) x =
      if dst ≤ x ∧ x < dst + n * w then bytesAt (M 0) (src + (x - dst)) else bytesAt (M 0) x) :
      BlockMoved (M 0) (M n) src dst (n * w) := by
    refine ⟨fun i hi => ?_, fun x hx hout => ?_⟩
    · rw [hall _ (by omega), if_pos (by omega), Nat.add_sub_cancel_left]
    · rw [hall x hx, if_neg (by omega)]
  have hup (hback : back = false) : CopiesUp (2 ^ 64) w n src dst fun k => bytesAt (M k) :=
    fun k hk => by
      have hk' := hcopies k hk
      rwa [hback] at hk'
  have hpattern (hback : back = false) (p : Nat) (hp : dst = src + p) (hle : w ≤ p) :
      BlockRepeated (M 0) (M n) src dst p (n * w) := by
    have hall := (hup hback).repeats hp hle hdst n le_rfl
    refine ⟨fun i hi => ?_, fun x hx hout => ?_⟩
    · rw [hall _ (by omega), if_pos (by omega), Nat.add_sub_cancel_left]
    · rw [hall x hx, if_neg (by omega)]
  refine ⟨fun hback hsafe => hmoved fun x hx => ?_, fun hback hsafe => ?_, hpattern⟩
  · have hdown : CopiesDown (2 ^ 64) w n src dst fun k => bytesAt (M k) := fun k hk => by
      have hk' := hcopies k hk
      rwa [hback] at hk'
    have hall := hdown.moves hsrc hsafe n le_rfl x hx
    rwa [Nat.sub_self, Nat.zero_mul, Nat.add_zero] at hall
  · by_cases hle : dst ≤ src
    · exact hmoved fun x hx => (hup hback).moves hsrc hle n le_rfl x hx
    · -- apart, the block repeats less than once
      have hapart := hsafe.resolve_left hle
      rcases Nat.eq_zero_or_pos n with rfl | hn
      · refine ⟨fun i hi => ?_, fun x _ _ => rfl⟩
        rw [Nat.zero_mul] at hi
        exact absurd hi (Nat.not_lt_zero i)
      · have hone := Nat.mul_le_mul_right w hn
        have hrep := hpattern hback (dst - src) (by omega) (by omega)
        refine ⟨fun i hi => ?_, hrep.aside⟩
        rw [hrep.repeated i hi, Nat.mod_eq_of_lt (by omega)]

section Instructions

variable {rep : Rep} {word : Bool}

/-- MOVS goes through its elements, and the destination is RAM: a block has moved, if the direction
suits the way the blocks overlap, or its first places are repeated. -/
theorem movs_moves (h : s.Flat)
    (hsrc : Strip s (stringWidth s word) (s.operandSeg .ds) (s.regW 6 s.asize)
      (stringCount s rep) src)
    (hdst : Strip s (stringWidth s word) .es (s.regW 7 s.asize) (stringCount s rep) dst)
    (hram : BackedAt s.mem dst (stringCount s rep * (stringWidth s word).bytes)) :
    ∃ m, stringInst .movs rep word s = ((), allElements .movs rep word s m) ∧
      MovsBlock (s.getFlag Flags.df) (stringWidth s word).bytes src dst
        (stringCount s rep * (stringWidth s word).bytes) s.mem m := by
  have hlowSrc := hsrc.low
  have hlowDst := hdst.low
  have hpos : 0 < (stringWidth s word).bytes := by cases stringWidth s word <;> decide
  obtain ⟨M, hzero, hsteps, hrun⟩ := stringInst_stores
    (show StringOp.movs.compares = false from rfl) h fun k hk m => movsElement_flat h hsrc hdst hk m
  have hslot := backed_chain hsteps fun k m m' hst => hst.slot
  refine ⟨_, hrun, ?_⟩
  rw [← hzero] at hram ⊢
  refine movsBlock_of_copies (fun k hk => ?_) (by omega) (by omega)
  have hp := elementPlace_lt (s := s) hk
  have hle := Nat.mul_le_mul_right (stringWidth s word).bytes (Nat.succ_le_of_lt hp)
  rw [Nat.succ_mul] at hle
  exact lays_of_stored (hsteps k hk) (by omega)
    (backedAt_element (backedAt_congr (hslot k (by omega)) hram) hp)

/-- STOS fills its block with the accumulator, whichever end it starts from. -/
theorem stos_fills (h : s.Flat)
    (hdst : Strip s (stringWidth s word) .es (s.regW 7 s.asize) (stringCount s rep) dst)
    (hram : BackedAt s.mem dst (stringCount s rep * (stringWidth s word).bytes)) :
    ∃ m, stringInst .stos rep word s = ((), allElements .stos rep word s m) ∧
      ∀ x < 2 ^ 64, bytesAt m x =
        if dst ≤ x ∧ x < dst + stringCount s rep * (stringWidth s word).bytes then
          byteOf (s.regW 0 (stringWidth s word)) ((x - dst) % (stringWidth s word).bytes)
        else bytesAt s.mem x := by
  have hlowDst := hdst.low
  have hpos : 0 < (stringWidth s word).bytes := by cases stringWidth s word <;> decide
  obtain ⟨M, hzero, hsteps, hrun⟩ := stringInst_stores
    (show StringOp.stos.compares = false from rfl) h fun k hk m => by
      obtain ⟨m', hm, hrun⟩ := stosElement_flat h hdst hk m
      exact ⟨m', hm, hrun (elementIndex (stringStep s (stringWidth s word)) s.asize
        (s.regW 6 s.asize) k)⟩
  have hslot := backed_chain hsteps fun k m m' hst => hst.slot
  refine ⟨_, hrun, fun x hx => ?_⟩
  rw [← hzero] at hram ⊢
  refine fills (F := fun k => bytesAt (M k)) hpos (fun k hk => ?_) (fun k hk => elementPlace_lt hk)
    (fun j hj => elementPlace_surj s hj) hx
  have hp := elementPlace_lt (s := s) hk
  have hle := Nat.mul_le_mul_right (stringWidth s word).bytes (Nat.succ_le_of_lt hp)
  rw [Nat.succ_mul] at hle
  exact lays_of_stored (hsteps k hk) (by omega)
    (backedAt_element (backedAt_congr (hslot k (by omega)) hram) hp)

end Instructions

/-! ## Three words from 0x1000 to 0x1002 -/

/-- A machine in real mode about to move three words up by one. -/
def copying : Cpu :=
  let s := Cpu.withRam (2 ^ 20) Memory.mib_le 0
  { s with
    mem := s.mem.writeU16 0x1000 0xBEEF
    ds := 0
    es := 0
    regs := fun i => if i = 1 then 3 else if i = 6 then 0x1000 else if i = 7 then 0x1002 else 0 }

theorem copying_strip {r : SegReg} {idx : U64} {a : Nat} (hr : copying.segBase r = 0)
    (hidx : idx.toNat = a) (ha : a + 6 ≤ 0xA000) : Strip copying .w16 r idx 3 a where
  starts := ⟨a, hidx, by
    show a + 6 ≤ 2 ^ 16
    omega, by
    rw [hr]
    exact Nat.zero_add a⟩
  low := by
    show a + 6 ≤ 2 ^ 32
    omega
  cells k hk _ := by
    have hplace : (BitVec.ofNat 64 (a + k * Width.w16.bytes) : U64).toNat = a + k * 2 := by
      show (a + k * 2) % 2 ^ 64 = _
      omega
    rw [hplace]
    rintro ⟨-, hlow, -⟩
    omega

theorem copying_backed : BackedAt copying.mem 0x1002 6 := fun i hi => backed_low (by
  rw [BitVec.toNat_ofNat]
  omega)

/-- The words at 0x1002 and on are copies of the one at 0x1000. -/
theorem copying_repeats : ∃ m, stringInst .movs .repe true copying =
      ((), allElements .movs .repe true copying m) ∧
    ∀ i < 6, bytesAt m (0x1002 + i) = bytesAt copying.mem (0x1000 + i % 2) := by
  obtain ⟨m, hrun, hblock⟩ := @movs_moves copying 0x1000 0x1002 .repe true
    ⟨rfl, by decide, by decide⟩ (copying_strip rfl rfl (by decide))
    (copying_strip rfl rfl (by decide)) copying_backed
  exact ⟨m, hrun, (hblock.pattern rfl 2 rfl le_rfl).repeated⟩

/-- STOS would clear them. -/
theorem copying_cleared : ∃ m, stringInst .stos .repe true copying =
      ((), allElements .stos .repe true copying m) ∧ ∀ i < 6, bytesAt m (0x1002 + i) = 0 := by
  obtain ⟨m, hrun, hall⟩ := @stos_fills copying 0x1002 .repe true
    ⟨rfl, by decide, by decide⟩ (copying_strip rfl rfl (by decide)) copying_backed
  refine ⟨m, hrun, fun i hi => ?_⟩
  have hin : 0x1002 ≤ 0x1002 + i ∧ 0x1002 + i < 0x1002 + 3 * 2 := by omega
  refine (hall (0x1002 + i) (by omega)).trans ((if_pos hin).trans ?_)
  have hax : copying.regW 0 (stringWidth copying true) = 0 := by decide
  rw [hax]
  exact BitVec.extractLsb'_zero

end X86Emu
