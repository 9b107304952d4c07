import X86Emu.Lib.Lanes
import X86Emu.Lib.SignedWords
import X86Emu.SseAtomic
import X86Emu.Execute

/-!
# Packed integers, lane by lane

The packed operations carry each lane in a 64-bit word and mask it when the lanes are joined. Here
every lane of a result is the operation's own function of the lanes it names, at the lane's width.
-/
namespace X86Emu

open Lanes SignedWords

/-! ## Splitting and joining -/

/-- The lane widths. -/
def IsLane (n : Nat) : Prop := n = 8 ∨ n = 16 ∨ n = 32 ∨ n = 64

theorem isLane_bits (w : Width) : IsLane w.bits := by
  cases w
  · exact .inl rfl
  · exact .inr (.inl rfl)
  · exact .inr (.inr (.inl rfl))
  · exact .inr (.inr (.inr rfl))

namespace IsLane

variable {n : Nat} (h : IsLane n)
include h

theorem pos : 0 < n := by rcases h with rfl | rfl | rfl | rfl <;> decide

theorem le : n ≤ 64 := by rcases h with rfl | rfl | rfl | rfl <;> decide

theorem dvd : n ∣ 128 := by rcases h with rfl | rfl | rfl | rfl <;> decide

theorem fits {i : Nat} (hi : i < 128 / n) : (i + 1) * n ≤ 128 := by
  rcases h with rfl | rfl | rfl | rfl <;> omega

theorem getLsbD_laneMask (i : Nat) : (laneMask n).getLsbD i = decide (i < n) := by
  have hmask : laneMask n = BitVec.ofNat 64 (2 ^ n - 1) := by
    rcases h with rfl | rfl | rfl | rfl <;> decide
  have hle := h.le
  rw [hmask, getLsbD_ones, ← Bool.decide_and]
  exact decide_eq_decide.mpr ⟨fun hc => hc.2, fun hc => ⟨by omega, hc⟩⟩

/-- The mask keeps what the lane holds. -/
theorem setWidth_and_mask (v : U64) : (v &&& laneMask n).setWidth n = v.setWidth n := by
  apply BitVec.eq_of_getLsbD_eq
  intro i hi
  simp [h.getLsbD_laneMask, hi]

theorem narrow_lane (x : BitVec n) : (u64 x).setWidth n = x := by
  rw [BitVec.setWidth_setWidth_of_le x h.le, BitVec.setWidth_eq]

theorem toNat_u64 (x : BitVec n) : (u64 x).toNat = x.toNat := by
  rw [BitVec.toNat_setWidth]
  have hx := x.isLt
  have hle := Nat.pow_le_pow_right (show 0 < 2 by decide) h.le
  exact Nat.mod_eq_of_lt (by omega)

theorem sx_u64 (x : BitVec n) : sx (u64 x) n = x.toInt := by rw [sx, h.narrow_lane]

/-- A lane as `lanes` hands it out. -/
theorem getElem_lanes (v : U128) {i : Nat} (hi : i < 128 / n) :
    (lanes v n)[i]? = some (u64 (slice v n i)) := by
  rw [lanes, List.getElem?_map, List.getElem?_range hi, Option.map_some]
  refine congrArg some ?_
  apply BitVec.eq_of_getLsbD_eq
  intro k hk
  simp only [BitVec.getLsbD_and, h.getLsbD_laneMask, BitVec.getLsbD_setWidth, getLsbD_slice,
    BitVec.getLsbD_ushiftRight, hk, decide_true, Bool.true_and]
  exact Bool.and_comm _ _

omit h in
theorem length_lanes (v : U128) : (lanes v n).length = 128 / n := by
  rw [lanes, List.length_map, List.length_range]

theorem lane_eq (v : U128) {i : Nat} (hi : i < 128 / n) :
    Packed.lane v n i = u64 (slice v n i) := by
  rw [Packed.lane, List.getD_eq_getElem?_getD, h.getElem_lanes v hi]
  rfl

/-- A lane of a joined list, cut to its width. -/
theorem slice_join (l : List U64) {i : Nat} (hi : i < 128 / n) :
    slice (join l n) n i = (l[i]?.getD 0).setWidth n := by
  have hjoin := slice_foldl_or (fun x : U64 => u128 (x &&& laneMask n)) l (h.fits hi)
    fun x _ k hk => by
      simp only [BitVec.getLsbD_setWidth, BitVec.getLsbD_and, h.getLsbD_laneMask,
        decide_eq_false (Nat.not_lt.mpr hk), Bool.and_false]
  refine hjoin.trans ?_
  cases l[i]? with
  | none => simp
  | some x =>
    have hle := h.le
    rw [Option.map_some, Option.getD_some, Option.getD_some,
      BitVec.setWidth_setWidth_of_le _ (by omega), h.setWidth_and_mask]

/-- Joining the lanes of a word gives it back. -/
theorem join_lanes (v : U128) : join (lanes v n) n = v := by
  refine eq_of_slices h.dvd fun i hi => ?_
  rw [h.slice_join _ hi, h.getElem_lanes v hi, Option.getD_some, h.narrow_lane]

/-- The lanes of a joined list are its elements, cut to their width. -/
theorem lanes_join {l : List U64} (hl : l.length = 128 / n) :
    lanes (join l n) n = l.map (· &&& laneMask n) := by
  apply List.ext_getElem?
  intro i
  by_cases hi : i < 128 / n
  · have hget : l[i]? = some (l[i]) := List.getElem?_eq_getElem (by omega)
    rw [h.getElem_lanes _ hi, h.slice_join l hi, List.getElem?_map, hget]
    refine congrArg some ?_
    rw [Option.getD_some, ← h.setWidth_and_mask]
    apply BitVec.eq_of_getLsbD_eq
    intro k hk
    simp only [BitVec.getLsbD_setWidth, BitVec.getLsbD_and, h.getLsbD_laneMask, hk, decide_true,
      Bool.true_and]
    by_cases hin : k < n <;> simp [hin]
  · rw [List.getElem?_eq_none (by rw [length_lanes]; omega),
      List.getElem?_eq_none (by rw [List.length_map]; omega)]

/-- Lane `i` of a lane-wise combination is the function of lane `i` of each operand. -/
theorem slice_zip (f : U64 → U64 → U64) (a b : U128) {i : Nat} (hi : i < 128 / n) :
    slice (Packed.zip n f a b) n i = (f (u64 (slice a n i)) (u64 (slice b n i))).setWidth n := by
  rw [Packed.zip, h.slice_join _ hi, List.getElem?_zipWith, h.getElem_lanes a hi,
    h.getElem_lanes b hi]
  rfl

end IsLane

/-! ## The manual's functions of lanes -/

section Lanes

variable {n : Nat}

/-- Saturation to the signed and the unsigned range of a lane. -/
def clampSigned (n : Nat) (v : Int) : BitVec n :=
  BitVec.ofInt n (max (-2 ^ (n - 1)) (min v (2 ^ (n - 1) - 1)))

def clampUnsigned (n : Nat) (v : Int) : BitVec n := BitVec.ofInt n (max 0 (min v (2 ^ n - 1)))

def addLane (sat : Sat) (x y : BitVec n) : BitVec n :=
  match sat with
  | .wrap => x + y
  | .signed => clampSigned n (x.toInt + y.toInt)
  | .unsigned => clampUnsigned n (x.toNat + y.toNat)

def subLane (sat : Sat) (x y : BitVec n) : BitVec n :=
  match sat with
  | .wrap => x - y
  | .signed => clampSigned n (x.toInt - y.toInt)
  | .unsigned => clampUnsigned n ((x.toNat : Int) - y.toNat)

/-- The lane as the signed or unsigned number comparisons take it for. -/
def laneValue (signed : Bool) (x : BitVec n) : Int := if signed then x.toInt else x.toNat

def maxLane (signed : Bool) (x y : BitVec n) : BitVec n :=
  if laneValue signed x < laneValue signed y then y else x

def minLane (signed : Bool) (x y : BitVec n) : BitVec n :=
  if laneValue signed y < laneValue signed x then y else x

def avgLane (x y : BitVec n) : BitVec n := BitVec.ofNat n ((x.toNat + y.toNat + 1) / 2)

/-- All ones or all zeros. -/
def flagLane (c : Prop) [Decidable c] : BitVec n := if c then BitVec.allOnes n else 0

def shiftLane (kind : ShiftKind) (count : Nat) (x : BitVec n) : BitVec n :=
  match kind with
  | .sll => x <<< count
  | .srl => x >>> count
  | .sra => x.sshiftRight count

end Lanes

/-- Lane `i` of two words end to end. -/
def pairLane (n : Nat) (a b : U128) (i : Nat) : BitVec n :=
  if i < 128 / n then slice a n i else slice b n (i - 128 / n)

/-- The function of its operands each packed operation is, lane by lane. -/
def LaneSpec (op : SseOp) (imm : U8) (a b r : U128) : Prop :=
  match op with
  | .padd w sat => ∀ i < 128 / w.bits,
      slice r w.bits i = addLane sat (slice a w.bits i) (slice b w.bits i)
  | .psub w sat => ∀ i < 128 / w.bits,
      slice r w.bits i = subLane sat (slice a w.bits i) (slice b w.bits i)
  | .pmullw => ∀ i < 8, slice r 16 i = slice a 16 i * slice b 16 i
  | .pmulhw => ∀ i < 8,
      slice r 16 i = BitVec.ofInt 16 ((slice a 16 i).toInt * (slice b 16 i).toInt / 2 ^ 16)
  | .pmulhuw => ∀ i < 8,
      slice r 16 i = BitVec.ofNat 16 ((slice a 16 i).toNat * (slice b 16 i).toNat / 2 ^ 16)
  | .pmuludq => ∀ i < 2,
      slice r 64 i = BitVec.ofNat 64 ((slice a 32 (2 * i)).toNat * (slice b 32 (2 * i)).toNat)
  | .pmaddwd => ∀ i < 4,
      slice r 32 i = BitVec.ofInt 32 ((slice a 16 (2 * i)).toInt * (slice b 16 (2 * i)).toInt +
        (slice a 16 (2 * i + 1)).toInt * (slice b 16 (2 * i + 1)).toInt)
  | .psadbw => ∀ i < 2,
      slice r 64 i = BitVec.ofNat 64 ((List.range 8).map fun k =>
        ((slice a 8 (8 * i + k)).toNat - (slice b 8 (8 * i + k)).toNat : Int).natAbs).sum
  | .pavg w => ∀ i < 128 / w.bits,
      slice r w.bits i = avgLane (slice a w.bits i) (slice b w.bits i)
  | .pmax w signed => ∀ i < 128 / w.bits,
      slice r w.bits i = maxLane signed (slice a w.bits i) (slice b w.bits i)
  | .pmin w signed => ∀ i < 128 / w.bits,
      slice r w.bits i = minLane signed (slice a w.bits i) (slice b w.bits i)
  | .pcmpeq w => ∀ i < 128 / w.bits,
      slice r w.bits i = flagLane (slice a w.bits i = slice b w.bits i)
  | .pcmpgt w => ∀ i < 128 / w.bits,
      slice r w.bits i = flagLane ((slice b w.bits i).toInt < (slice a w.bits i).toInt)
  | .packss w => ∀ i < 128 / (w.bits / 2),
      slice r (w.bits / 2) i = clampSigned _ (pairLane w.bits a b i).toInt
  | .packus => ∀ i < 16, slice r 8 i = clampUnsigned _ (pairLane 16 a b i).toInt
  | .punpckl w => ∀ i < 128 / w.bits,
      slice r w.bits i = slice (if i % 2 = 0 then a else b) w.bits (i / 2)
  | .punpckh w => ∀ i < 128 / w.bits,
      slice r w.bits i = slice (if i % 2 = 0 then a else b) w.bits (128 / w.bits / 2 + i / 2)
  | .pshufd => ∀ i < 4, slice r 32 i = slice b 32 (Packed.control imm i)
  | .pshufhw => ∀ i < 8,
      slice r 16 i = slice b 16 (if 4 ≤ i then 4 + Packed.control imm (i - 4) else i)
  | .pshuflw => ∀ i < 8,
      slice r 16 i = slice b 16 (if i < 4 then Packed.control imm i else i)
  | .pshift kind w fromImm => ∀ i < 128 / w.bits,
      slice r w.bits i =
        shiftLane kind (if fromImm then imm.toNat else (u64 b).toNat) (slice a w.bits i)
  | .pshiftdq left => ∀ i < 16,
      slice r 8 i =
        if left then if imm.toNat ≤ i then slice a 8 (i - imm.toNat) else 0
        else if i + imm.toNat < 16 then slice a 8 (i + imm.toNat) else 0
  | _ => True

/-- The packed operations of the opcode table, with the widths they come in. -/
def Encoded : SseOp → Prop
  | .padd w sat | .psub w sat => sat = .wrap ∨ w = .w8 ∨ w = .w16
  | .pavg w => w = .w8 ∨ w = .w16
  | .pmax w signed | .pmin w signed => w = .w8 ∧ signed = false ∨ w = .w16 ∧ signed = true
  | .pcmpeq w | .pcmpgt w => w ≠ .w64
  | .packss w => w = .w16 ∨ w = .w32
  | .pshift kind w _ => w ≠ .w8 ∧ (kind = .sra → w ≠ .w64)
  | .pmullw | .pmulhw | .pmulhuw | .pmuludq | .pmaddwd | .psadbw | .packus | .punpckl _
  | .punpckh _ | .pshufd | .pshufhw | .pshuflw | .pshiftdq _ => True
  | _ => False

/-! ## Each operation -/

namespace IsLane

variable {n : Nat} (h : IsLane n)
include h

theorem setWidth_satSigned (v : Int) : (satSigned v n).setWidth n = clampSigned n v := by
  rw [satSigned, h.setWidth_and_mask, setWidth_ofInt h.le]
  rfl

theorem setWidth_satUnsigned (v : Int) : (satUnsigned v n).setWidth n = clampUnsigned n v := by
  rw [satUnsigned, setWidth_ofInt h.le]
  rfl

theorem slice_add (sat : Sat) (a b : U128) {i : Nat} (hi : i < 128 / n) :
    slice (Packed.add n sat a b) n i = addLane sat (slice a n i) (slice b n i) := by
  rw [Packed.add, h.slice_zip _ _ _ hi]
  cases sat with
  | wrap =>
    dsimp only [addLane]
    rw [BitVec.setWidth_add _ _ h.le, h.narrow_lane, h.narrow_lane]
  | signed =>
    dsimp only [addLane]
    rw [h.setWidth_satSigned, h.sx_u64, h.sx_u64]
  | unsigned =>
    dsimp only [addLane]
    rw [h.setWidth_satUnsigned, h.toNat_u64, h.toNat_u64]

theorem slice_sub (sat : Sat) (a b : U128) {i : Nat} (hi : i < 128 / n) :
    slice (Packed.sub n sat a b) n i = subLane sat (slice a n i) (slice b n i) := by
  rw [Packed.sub, h.slice_zip _ _ _ hi]
  cases sat with
  | wrap =>
    have hword (x y : BitVec n) : u64 x - u64 y = BitVec.ofInt 64 (x.toNat - y.toNat : Int) := by
      rw [ofInt_sub, ← h.toNat_u64 x, ← h.toNat_u64 y, ofInt_toNat, ofInt_toNat]
    dsimp only [subLane]
    rw [hword, setWidth_ofInt h.le, ofInt_sub, ofInt_toNat, ofInt_toNat]
  | signed =>
    dsimp only [subLane]
    rw [h.setWidth_satSigned, h.sx_u64, h.sx_u64]
  | unsigned =>
    dsimp only [subLane]
    rw [h.setWidth_satUnsigned, h.toNat_u64, h.toNat_u64]

/-- The sum of two lanes and one does not fill the word. -/
theorem slice_avg (hn : n ≤ 32) (a b : U128) {i : Nat} (hi : i < 128 / n) :
    slice (Packed.avg n a b) n i = avgLane (slice a n i) (slice b n i) := by
  rw [Packed.avg, h.slice_zip _ _ _ hi]
  generalize slice a n i = x
  generalize slice b n i = y
  have hx := x.isLt
  have hy := y.isLt
  have hle := Nat.pow_le_pow_right (show 0 < 2 by decide) hn
  have hone : (1 : U64).toNat = 1 := rfl
  apply BitVec.eq_of_toNat_eq
  rw [avgLane, BitVec.toNat_setWidth, BitVec.toNat_ushiftRight, BitVec.toNat_add, BitVec.toNat_add,
    h.toNat_u64, h.toNat_u64, hone, Nat.shiftRight_eq_div_pow, BitVec.toNat_ofNat]
  congr 1
  omega

theorem slice_select (signed max : Bool) (a b : U128) {i : Nat} (hi : i < 128 / n) :
    slice (Packed.select n signed max a b) n i =
      if max then maxLane signed (slice a n i) (slice b n i)
      else minLane signed (slice a n i) (slice b n i) := by
  rw [Packed.select, h.slice_zip _ _ _ hi]
  generalize slice a n i = x
  generalize slice b n i = y
  have heq : u64 x = u64 y ↔ laneValue signed x = laneValue signed y := by
    constructor
    · intro he
      rw [← h.narrow_lane x, he, h.narrow_lane]
    · intro he
      cases signed with
      | true => rw [BitVec.eq_of_toInt_eq (show x.toInt = y.toInt from he)]
      | false =>
        have hnat : (x.toNat : Int) = y.toNat := he
        rw [BitVec.eq_of_toNat_eq (Int.ofNat_inj.mp hnat)]
  have hgreater :
      (if signed then decide (sx (u64 x) n > sx (u64 y) n) else decide (u64 x > u64 y)) =
        decide (laneValue signed y < laneValue signed x) := by
    cases signed with
    | true => rw [if_pos rfl, h.sx_u64, h.sx_u64]; rfl
    | false =>
      rw [if_neg (by decide)]
      refine decide_eq_decide.mpr ?_
      rw [gt_iff_lt, BitVec.lt_def, h.toNat_u64, h.toNat_u64]
      exact Int.ofNat_lt.symm
  dsimp only
  rw [hgreater]
  have hxy (hv : laneValue signed x = laneValue signed y) : x = y := by
    rw [← h.narrow_lane x, heq.mpr hv, h.narrow_lane]
  cases max with
  | true =>
    rw [if_pos rfl, maxLane]
    by_cases hlt : laneValue signed x < laneValue signed y
    · rw [if_pos hlt, if_neg, h.narrow_lane]
      rw [heq, decide_eq_true_iff]
      omega
    · rw [if_neg hlt, if_pos, h.narrow_lane]
      rw [heq, decide_eq_true_iff]
      omega
  | false =>
    rw [if_neg Bool.false_ne_true, minLane]
    by_cases hlt : laneValue signed y < laneValue signed x
    · rw [if_pos hlt, if_neg, h.narrow_lane]
      rw [heq, decide_eq_false_iff_not]
      omega
    · rw [if_neg hlt, if_pos (.inr (decide_eq_false hlt)), h.narrow_lane]

theorem setWidth_laneMask : (laneMask n).setWidth n = BitVec.allOnes n := by
  apply BitVec.eq_of_getLsbD_eq
  intro i hi
  simp [h.getLsbD_laneMask, hi]

theorem slice_cmpeq (a b : U128) {i : Nat} (hi : i < 128 / n) :
    slice (Packed.cmpeq n a b) n i = flagLane (slice a n i = slice b n i) := by
  rw [Packed.cmpeq, h.slice_zip _ _ _ hi, flagLane]
  by_cases he : slice a n i = slice b n i
  · rw [if_pos he, if_pos (congrArg _ he), h.setWidth_laneMask]
  · have hne : u64 (slice a n i) ≠ u64 (slice b n i) := fun hc => he (by
      rw [← h.narrow_lane (slice a n i), hc, h.narrow_lane])
    rw [if_neg he, if_neg hne]
    simp

theorem slice_cmpgt (a b : U128) {i : Nat} (hi : i < 128 / n) :
    slice (Packed.cmpgt n a b) n i = flagLane ((slice b n i).toInt < (slice a n i).toInt) := by
  rw [Packed.cmpgt, h.slice_zip _ _ _ hi, flagLane, h.sx_u64, h.sx_u64]
  split
  · exact h.setWidth_laneMask
  · simp

omit h in
/-- A shift by the whole range leaves the sign. -/
theorem shiftRight_sign {v : Int} {k : Nat} (hlo : -2 ^ k ≤ v) (hhi : v < 2 ^ k) :
    v >>> k = if v < 0 then -1 else 0 := by
  have hcast : ((2 ^ k : Nat) : Int) = 2 ^ k := by push_cast; rfl
  rw [Int.shiftRight_eq_div_pow, hcast]
  split
  · exact Int.ediv_eq_neg_one_of_neg_of_le ‹_› (by omega)
  · exact Int.ediv_eq_zero_of_lt (by omega) hhi

/-- A count past the width shifts everything out, or fills with the sign. -/
theorem slice_shift (kind : ShiftKind) (count : U64) (a : U128) {i : Nat} (hi : i < 128 / n) :
    slice (Packed.shift kind n count a) n i = shiftLane kind count.toNat (slice a n i) := by
  rw [Packed.shift, h.slice_join _ hi, List.getElem?_map, h.getElem_lanes a hi, Option.map_some,
    Option.getD_some]
  generalize slice a n i = x
  have hle := h.le
  have hpos := h.pos
  cases kind with
  | sll =>
    dsimp only [shiftLane]
    apply BitVec.eq_of_getLsbD_eq
    intro k hk
    split
    · simp
      omega
    · simp only [BitVec.getLsbD_setWidth, BitVec.getLsbD_shiftLeft, hk, show k < 64 by omega,
        show k - count.toNat < 64 by omega, decide_true, Bool.true_and]
  | srl =>
    dsimp only [shiftLane]
    apply BitVec.eq_of_getLsbD_eq
    intro k hk
    split
    · simp
      exact BitVec.getLsbD_of_ge x _ (by omega)
    · simp [hk]
      intro hbit
      have := BitVec.lt_of_getLsbD hbit
      omega
  | sra =>
    dsimp only [shiftLane]
    rw [h.sx_u64, setWidth_ofInt h.le, BitVec.sshiftRight]
    refine congrArg (BitVec.ofInt n) ?_
    by_cases hc : count.toNat ≤ n - 1
    · rw [Nat.min_eq_left hc]
    · have hmono : (2 : Int) ^ (n - 1) ≤ 2 ^ count.toNat :=
        pow_le_pow_right₀ (by decide) (by omega)
      obtain ⟨hlo, hhi⟩ := signedFits_toInt x
      rw [Nat.min_eq_right (by omega), shiftRight_sign hlo hhi,
        shiftRight_sign (by omega) (by omega)]

/-- Narrowing two words to lanes of half the width. -/
theorem slice_pack (hhalf : IsLane (n / 2)) (unsigned : Bool) (a b : U128) {i : Nat}
    (hi : i < 128 / (n / 2)) :
    slice (Packed.pack n unsigned a b) (n / 2) i =
      if unsigned then clampUnsigned (n / 2) (pairLane n a b i).toInt
      else clampSigned (n / 2) (pairLane n a b i).toInt := by
  have hdouble : 128 / (n / 2) = 128 / n + 128 / n := by
    rcases h with rfl | rfl | rfl | rfl <;> decide
  have hget : (lanes a n ++ lanes b n)[i]? = some (u64 (pairLane n a b i)) := by
    unfold pairLane
    by_cases hlow : i < 128 / n
    · rw [List.getElem?_append_left (by rwa [length_lanes]), h.getElem_lanes a hlow, if_pos hlow]
    · rw [List.getElem?_append_right (by rw [length_lanes]; omega), length_lanes,
        h.getElem_lanes b (by omega), if_neg hlow]
  rw [Packed.pack, hhalf.slice_join _ hi, List.getElem?_map, hget, Option.map_some,
    Option.getD_some, h.sx_u64]
  cases unsigned with
  | true => exact hhalf.setWidth_satUnsigned _
  | false => exact hhalf.setWidth_satSigned _

omit h in
theorem getElem_pairs (f g : Nat → U64) (m i : Nat) (hi : i < 2 * m) :
    ((List.range m).flatMap fun i => [f i, g i])[i]? =
      some (if i % 2 = 0 then f (i / 2) else g (i / 2)) := by
  induction m with
  | zero => omega
  | succ m ih =>
    have hlen : ((List.range m).flatMap fun i => [f i, g i]).length = 2 * m := by
      simp [List.length_flatMap, Nat.mul_comm]
    rw [List.range_succ, List.flatMap_append]
    by_cases hlt : i < 2 * m
    · rw [List.getElem?_append_left (by omega), ih hlt]
    · rw [List.getElem?_append_right (by omega), hlen]
      rcases (by omega : i = 2 * m ∨ i = 2 * m + 1) with rfl | rfl
      · rw [if_pos (by omega), show 2 * m / 2 = m by omega, Nat.sub_self]
        rfl
      · rw [if_neg (by omega), show (2 * m + 1) / 2 = m by omega,
          show 2 * m + 1 - 2 * m = 1 by omega]
        rfl

/-- Interleaving takes the lanes of either operand in turn. -/
theorem slice_unpack (high : Bool) (a b : U128) {i : Nat} (hi : i < 128 / n) :
    slice (Packed.unpack n high a b) n i =
      slice (if i % 2 = 0 then a else b) n ((if high then 128 / n / 2 else 0) + i / 2) := by
  have heven : 128 / n = 2 * (128 / n / 2) := by
    rcases h with rfl | rfl | rfl | rfl <;> decide
  have hoff : (if high then 128 / n / 2 else 0) + i / 2 < 128 / n := by
    split <;> omega
  rw [Packed.unpack, h.slice_join _ hi]
  rw [getElem_pairs (fun k => Packed.lane a n ((if high then 128 / n / 2 else 0) + k))
    (fun k => Packed.lane b n ((if high then 128 / n / 2 else 0) + k)) _ _ (by omega),
    Option.getD_some]
  split
  · rw [h.lane_eq a hoff, h.narrow_lane]
  · rw [h.lane_eq b hoff, h.narrow_lane]

/-- A shuffle takes each lane from the operand's lane it names. -/
theorem slice_shuffle (b : U128) (f : Nat → Nat) (hf : ∀ i < 128 / n, f i < 128 / n) {i : Nat}
    (hi : i < 128 / n) :
    slice (join ((List.range (128 / n)).map fun i => Packed.lane b n (f i)) n) n i =
      slice b n (f i) := by
  rw [h.slice_join _ hi, List.getElem?_map, List.getElem?_range hi, Option.map_some,
    Option.getD_some, h.lane_eq b (hf i hi), h.narrow_lane]

end IsLane

theorem isLane_8 : IsLane 8 := .inl rfl
theorem isLane_16 : IsLane 16 := .inr (.inl rfl)
theorem isLane_32 : IsLane 32 := .inr (.inr (.inl rfl))
theorem isLane_64 : IsLane 64 := .inr (.inr (.inr rfl))

/-! ### Multiplications -/

theorem slice_mullw (a b : U128) {i : Nat} (hi : i < 8) :
    slice (Packed.mullw a b) 16 i = slice a 16 i * slice b 16 i := by
  rw [Packed.mullw, isLane_16.slice_zip _ _ _ hi, isLane_16.sx_u64, isLane_16.sx_u64,
    setWidth_ofInt (by decide), BitVec.ofInt_mul, BitVec.ofInt_toInt, BitVec.ofInt_toInt]

theorem slice_mulhw (a b : U128) {i : Nat} (hi : i < 8) :
    slice (Packed.mulhw a b) 16 i =
      BitVec.ofInt 16 ((slice a 16 i).toInt * (slice b 16 i).toInt / 2 ^ 16) := by
  rw [Packed.mulhw, isLane_16.slice_zip _ _ _ hi, isLane_16.sx_u64, isLane_16.sx_u64,
    setWidth_ofInt (by decide), Int.shiftRight_eq_div_pow]
  rfl

/-- A product of words of half the width does not wrap. -/
theorem toNat_mul_u64 {k : Nat} (hk : k ≤ 32) (x y : BitVec k) :
    (u64 x * u64 y).toNat = x.toNat * y.toNat := by
  have hx := x.isLt
  have hy := y.isLt
  have hle := Nat.pow_le_pow_right (show 0 < 2 by decide) hk
  have hprod : x.toNat * y.toNat < 2 ^ 32 * 2 ^ 32 :=
    Nat.mul_lt_mul_of_lt_of_lt (by omega) (by omega)
  rw [BitVec.toNat_mul, BitVec.toNat_setWidth, BitVec.toNat_setWidth,
    Nat.mod_eq_of_lt (a := x.toNat) (by omega), Nat.mod_eq_of_lt (a := y.toNat) (by omega),
    Nat.mod_eq_of_lt (by omega)]

theorem slice_mulhuw (a b : U128) {i : Nat} (hi : i < 8) :
    slice (Packed.mulhuw a b) 16 i =
      BitVec.ofNat 16 ((slice a 16 i).toNat * (slice b 16 i).toNat / 2 ^ 16) := by
  rw [Packed.mulhuw, isLane_16.slice_zip _ _ _ hi]
  apply BitVec.eq_of_toNat_eq
  rw [BitVec.toNat_setWidth, BitVec.toNat_ushiftRight, toNat_mul_u64 (by decide),
    Nat.shiftRight_eq_div_pow, BitVec.toNat_ofNat]

/-- The lanes of two joined halves. -/
theorem slice_halves (f : Nat → U64) {i : Nat} (hi : i < 2) :
    slice (join [f 0, f 1] 64) 64 i = f i := by
  rw [isLane_64.slice_join _ hi]
  interval_cases i <;> exact BitVec.setWidth_eq _

theorem slice_muludq (a b : U128) {i : Nat} (hi : i < 2) :
    slice (Packed.muludq a b) 64 i =
      BitVec.ofNat 64 ((slice a 32 (2 * i)).toNat * (slice b 32 (2 * i)).toNat) := by
  have hhalf := slice_halves (fun k => Packed.lane a 32 (2 * k) * Packed.lane b 32 (2 * k)) hi
  refine (show _ = _ from hhalf).trans ?_
  have hlane : 2 * i < 128 / 32 := by omega
  rw [isLane_32.lane_eq a hlane, isLane_32.lane_eq b hlane, ← toNat_mul_u64 (by decide),
    BitVec.ofNat_toNat, BitVec.setWidth_eq]

theorem slice_maddwd (a b : U128) {i : Nat} (hi : i < 4) :
    slice (Packed.maddwd a b) 32 i =
      BitVec.ofInt 32 ((slice a 16 (2 * i)).toInt * (slice b 16 (2 * i)).toInt +
        (slice a 16 (2 * i + 1)).toInt * (slice b 16 (2 * i + 1)).toInt) := by
  have hproduct {k : Nat} (hk : k < 128 / 16) :
      sx (Packed.lane a 16 k) 16 * sx (Packed.lane b 16 k) 16 =
        (slice a 16 k).toInt * (slice b 16 k).toInt := by
    rw [isLane_16.lane_eq a hk, isLane_16.lane_eq b hk, isLane_16.sx_u64, isLane_16.sx_u64]
  rw [Packed.maddwd, isLane_32.slice_join _ hi, List.getElem?_map, List.getElem?_range hi,
    Option.map_some, Option.getD_some, setWidth_ofInt (by decide)]
  dsimp only
  rw [hproduct (by omega), hproduct (by omega)]

theorem slice_sadbw (a b : U128) {i : Nat} (hi : i < 2) :
    slice (Packed.sadbw a b) 64 i = BitVec.ofNat 64 ((List.range 8).map fun k =>
      ((slice a 8 (8 * i + k)).toNat - (slice b 8 (8 * i + k)).toNat : Int).natAbs).sum := by
  have hhalf := slice_halves (fun j => BitVec.ofNat 64 ((List.range 8).map fun k =>
    ((Packed.lane a 8 (8 * j + k)).toNat - (Packed.lane b 8 (8 * j + k)).toNat : Int).natAbs).sum)
    hi
  refine (show _ = _ from hhalf).trans ?_
  refine congrArg (fun l : List Nat => BitVec.ofNat 64 l.sum) (List.map_congr_left fun k hk => ?_)
  have hlane : 8 * i + k < 128 / 8 := by
    have := List.mem_range.mp hk
    omega
  rw [isLane_8.lane_eq a hlane, isLane_8.lane_eq b hlane, isLane_8.toNat_u64, isLane_8.toNat_u64]

theorem slice_packus (a b : U128) {i : Nat} (hi : i < 16) :
    slice (Packed.pack 16 true a b) 8 i = clampUnsigned 8 (pairLane 16 a b i).toInt :=
  isLane_16.slice_pack isLane_8 true a b hi

/-! ### Shuffles and the whole register -/

theorem control_lt (imm : U8) (i : Nat) : Packed.control imm i < 4 := by
  have hand : ((imm >>> (2 * i)) &&& 3).toNat = (imm >>> (2 * i)).toNat % 2 ^ 2 := by
    rw [BitVec.toNat_and]
    exact Nat.and_two_pow_sub_one_eq_mod _ 2
  rw [Packed.control, hand]
  omega

theorem slice_shufd (imm : U8) (b : U128) {i : Nat} (hi : i < 4) :
    slice (Packed.shufd imm b) 32 i = slice b 32 (Packed.control imm i) :=
  isLane_32.slice_shuffle b (Packed.control imm) (fun k _ => control_lt imm k) hi

theorem slice_shufw {base : Nat} (hbase : base ≤ 4) (imm : U8) (b : U128) {i : Nat} (hi : i < 8) :
    slice (Packed.shufw base imm b) 16 i = slice b 16
      (if base ≤ i ∧ i < base + 4 then base + Packed.control imm (i - base) else i) := by
  have hshuffle := isLane_16.slice_shuffle b
    (fun i => if base ≤ i ∧ i < base + 4 then base + Packed.control imm (i - base) else i)
    (fun k hk => by
      have hc := control_lt imm (k - base)
      split <;> omega) hi
  refine Eq.trans ?_ hshuffle
  refine congrArg (fun l => slice (join l 16) 16 i) (List.map_congr_left fun k _ => ?_)
  split <;> rfl

theorem slice_shiftBytes (left : Bool) (imm : U8) (a : U128) {i : Nat} (hi : i < 16) :
    slice (Packed.shiftBytes left imm a) 8 i =
      if left then if imm.toNat ≤ i then slice a 8 (i - imm.toNat) else 0
      else if i + imm.toNat < 16 then slice a 8 (i + imm.toNat) else 0 := by
  have hplace (k : Nat) (hk : k < 8) : i * 8 + k < 128 := by omega
  unfold Packed.shiftBytes
  dsimp only
  by_cases hout : 16 ≤ imm.toNat
  · have hzero : slice (0 : U128) 8 i = 0 := BitVec.extractLsb'_zero
    rw [if_pos (by omega), hzero]
    cases left with
    | true => rw [if_pos rfl, if_neg (by omega)]
    | false => rw [if_neg Bool.false_ne_true, if_neg (by omega)]
  · rw [if_neg (by omega), Nat.min_eq_left (by omega)]
    apply BitVec.eq_of_getLsbD_eq
    intro k hk
    cases left with
    | true =>
      rw [if_pos rfl, if_pos rfl, getLsbD_slice, BitVec.getLsbD_shiftLeft]
      split
      · rw [getLsbD_slice, show i * 8 + k - imm.toNat * 8 = (i - imm.toNat) * 8 + k by omega]
        simp [hk, hplace k hk, show ¬ i * 8 + k < imm.toNat * 8 by omega]
      · simp [show i * 8 + k < imm.toNat * 8 by omega]
    | false =>
      rw [if_neg Bool.false_ne_true, if_neg Bool.false_ne_true, getLsbD_slice,
        BitVec.getLsbD_ushiftRight]
      split
      · rw [getLsbD_slice, show imm.toNat * 8 + (i * 8 + k) = (i + imm.toNat) * 8 + k by omega]
      · simp [BitVec.getLsbD_of_ge a (imm.toNat * 8 + (i * 8 + k)) (by omega)]

theorem slice_insertWord (imm : U8) (v : U16) (a : U128) {i : Nat} (hi : i < 8) :
    slice (Packed.insertWord imm v a) 16 i =
      if i = (imm &&& 7).toNat then v else slice a 16 i := by
  rw [Packed.insertWord, isLane_16.slice_join _ hi, List.getElem?_set]
  by_cases he : (imm &&& 7).toNat = i
  · rw [if_pos he, if_pos he.symm, if_pos (by rw [IsLane.length_lanes, he]; exact hi),
      Option.getD_some, isLane_16.narrow_lane]
  · rw [if_neg he, if_neg (Ne.symm he), isLane_16.getElem_lanes a hi, Option.getD_some,
      isLane_16.narrow_lane]

theorem extractWord_eq (imm : U8) (v : U128) :
    Packed.extractWord imm v = u64 (slice v 16 (imm &&& 7).toNat) := by
  have hand : (imm &&& 7).toNat = imm.toNat % 2 ^ 3 := by
    rw [BitVec.toNat_and]
    exact Nat.and_two_pow_sub_one_eq_mod _ 3
  exact isLane_16.lane_eq v (by omega)

/-! ## Instructions -/

open StateRules

/-- CR0.EM and CR0.TS are clear and CR4.OSFXSR is set. -/
structure Cpu.SseEnabled (s : Cpu) : Prop where
  em : test s.cr0 0x4 = false
  osfxsr : test s.cr4 cr4Osfxsr = true
  ts : test s.cr0 0x8 = false

/-- The XMM or memory operand of an instruction, and the state its read leaves; a shift by an
immediate has none. -/
def source (i : SseInst) (s : Cpu) : U128 × Cpu :=
  match i.op with
  | .pshift _ _ true | .pshiftdq _ => (0, s)
  | _ => if i.m.isReg then (s.xmm (Cpu.regIdx i.m.rm), s) else sseSrc i.m 16 true s

/-- The word written to an XMM register is right, and nothing else changed. -/
structure WritesXmm (s t : Cpu) (d : U8) (right : U128 → Prop) : Prop where
  written : right (t.xmm (Cpu.regIdx d))
  others : ∀ j, j ≠ Cpu.regIdx d → t.xmm j = s.xmm j
  rest : t = { s with xmm := t.xmm }

/-- An instruction stops with its operand's fault, or writes the lanes of the manual to the register
it names, from the register as it was and the operand. -/
def LaneRun (i : SseInst) (s : Cpu) : Prop :=
  ((source i s).2.faulted → (execute (.sse i) s).2 = (source i s).2) ∧
  (¬ (source i s).2.faulted → (source i s).2.xmm = s.xmm ∧
    WritesXmm (source i s).2 (execute (.sse i) s).2 i.reg
      (LaneSpec i.op i.imm (s.xmm (Cpu.regIdx i.reg)) (source i s).1))

/-! ### What runs -/

/-- The operations this file is about. -/
def IsPacked (op : SseOp) : Prop := Encoded op ∨ op = .pinsrw ∨ op = .pextrw

/-- With SSE enabled a packed instruction runs its arm. -/
theorem execute_packed {i : SseInst} {s : Cpu} (h : IsPacked i.op) (hs : s.SseEnabled) :
    (execute (.sse i) s).2 = (packed i s).2 := by
  have hgate : sseGate s = (true, s) := by
    unfold sseGate
    rw [bind_run, get_run]
    dsimp only
    rw [hs.em, hs.osfxsr, hs.ts]
    rfl
  have harm : (executeSse i s).2 = ((do if ← sseGate then packed i else pure ()) s).2 := by
    obtain ⟨op, m, d, imm, p⟩ := i
    cases op <;> first | rfl | exact (h.elim id fun h => h.elim nofun nofun).elim
  refine Eq.trans harm ?_
  rw [bind_run, hgate]
  rfl

theorem setXmm_faulted {t : Cpu} (h : t.faulted) (d : U8) (v : U128) : t.setXmm d v = t := if_pos h

/-- What `setXmm` does when nothing is pending. -/
theorem writesXmm_setXmm {t : Cpu} {d : U8} {v : U128} {right : U128 → Prop} (h : ¬ t.faulted)
    (hv : right v) : WritesXmm t (t.setXmm d v) d right := by
  have hset : t.setXmm d v = { t with xmm := fun j => if j = Cpu.regIdx d then v else t.xmm j } :=
    if_neg h
  rw [hset]
  refine ⟨?_, fun j hj => if_neg hj, rfl⟩
  show right (if Cpu.regIdx d = Cpu.regIdx d then v else t.xmm (Cpu.regIdx d))
  rwa [if_pos rfl]

/-- An instruction that ends by writing its register. -/
theorem laneRun_of_setXmm {i : SseInst} {s : Cpu} (h : Encoded i.op) (hs : s.SseEnabled) (r : U128)
    (hrun : (packed i s).2 = (source i s).2.setXmm i.reg r)
    (hxmm : (source i s).2.xmm = s.xmm)
    (hspec : LaneSpec i.op i.imm (s.xmm (Cpu.regIdx i.reg)) (source i s).1 r) : LaneRun i s := by
  unfold LaneRun
  rw [execute_packed (.inl h) hs, hrun]
  exact ⟨fun hf => setXmm_faulted hf _ _, fun hf => ⟨hxmm, writesXmm_setXmm hf hspec⟩⟩

theorem sseSrc_source (m : ModRm) (s : Cpu) : sseSrc m 16 true s =
    if m.isReg then (s.xmm (Cpu.regIdx m.rm), s) else sseSrc m 16 true s := by
  split
  · rename_i h
    rw [sseSrc, if_pos h]
    rfl
  · rfl

theorem laneRun_of {i : SseInst} {s : Cpu} (h : Encoded i.op) (hs : s.SseEnabled)
    (f : U128 → U128 → U128)
    (hsource : source i s = if i.m.isReg then (s.xmm (Cpu.regIdx i.m.rm), s)
      else sseSrc i.m 16 true s)
    (hrun : packed i = xmmOp i.m i.reg 16 true f)
    (hspec : ∀ a b, LaneSpec i.op i.imm a b (f a b)) : LaneRun i s := by
  rw [← sseSrc_source] at hsource
  have hxmm : (sseSrc i.m 16 true s).2.xmm = s.xmm := (held_sseSrc i.m 16 true s).xmm
  have hend : (packed i s).2 = (sseSrc i.m 16 true s).2.setXmm i.reg
      (f ((sseSrc i.m 16 true s).2.xmm (Cpu.regIdx i.reg)) (sseSrc i.m 16 true s).1) := by
    rw [hrun]
    rfl
  rw [hxmm, ← hsource] at hend
  rw [← hsource] at hxmm
  exact laneRun_of_setXmm h hs _ hend hxmm (hspec _ _)

/-- A result written unless an exception is pending. -/
theorem setXmm_unless (d : U8) (f : Cpu → U128) (t : Cpu) :
    ((do
      let s ← get
      if s.pendingException.isSome then pure () else set (s.setXmm d (f s)) : Exec Unit) t).2 =
      t.setXmm d (f t) := by
  rw [bind_run, get_run]
  dsimp only
  split
  · rename_i h
    exact (if_pos h).symm
  · rfl

theorem laneRun_pshift {m : ModRm} {d imm : U8} {p : Pfx} {kind : ShiftKind} {w : Width}
    {fromImm : Bool} {s : Cpu} (h : Encoded (.pshift kind w fromImm)) (hs : s.SseEnabled) :
    LaneRun ⟨.pshift kind w fromImm, m, d, imm, p⟩ s := by
  have hlane := isLane_bits w
  cases fromImm with
  | true =>
    have hrun : (packed ⟨.pshift kind w true, m, d, imm, p⟩ s).2 =
        s.setXmm d (Packed.shift kind w.bits (u64 imm) (s.xmmReg d)) :=
      setXmm_unless d (fun t => Packed.shift kind w.bits (u64 imm) (t.xmmReg d)) s
    refine laneRun_of_setXmm h hs _ hrun rfl fun i hi => ?_
    exact (hlane.slice_shift _ _ _ hi).trans (by rw [if_pos rfl, isLane_8.toNat_u64]; rfl)
  | false =>
    have hxmm : (sseSrc m 16 true s).2.xmm = s.xmm := (held_sseSrc m 16 true s).xmm
    have hsource : source ⟨.pshift kind w false, m, d, imm, p⟩ s = sseSrc m 16 true s :=
      (sseSrc_source m s).symm
    have hrun : (packed ⟨.pshift kind w false, m, d, imm, p⟩ s).2 =
        (sseSrc m 16 true s).2.setXmm d (Packed.shift kind w.bits (u64 (sseSrc m 16 true s).1)
          ((sseSrc m 16 true s).2.xmm (Cpu.regIdx d))) :=
      setXmm_unless d
        (fun t => Packed.shift kind w.bits (u64 (sseSrc m 16 true s).1) (t.xmmReg d)) _
    rw [hxmm, ← hsource] at hrun
    rw [← hsource] at hxmm
    refine laneRun_of_setXmm h hs _ hrun hxmm fun i hi => ?_
    exact (hlane.slice_shift _ _ _ hi).trans (by rw [if_neg Bool.false_ne_true])

theorem laneRun_pshiftdq {m : ModRm} {d imm : U8} {p : Pfx} {left : Bool} {s : Cpu}
    (hs : s.SseEnabled) : LaneRun ⟨.pshiftdq left, m, d, imm, p⟩ s :=
  laneRun_of_setXmm trivial hs _ rfl rfl fun _ hi => slice_shiftBytes left imm _ hi

/-- Every packed operation of the opcode table is lane-wise. -/
theorem laneRun_packed {i : SseInst} {s : Cpu} (h : Encoded i.op) (hs : s.SseEnabled) :
    LaneRun i s := by
  obtain ⟨op, m, d, imm, p⟩ := i
  cases op with
  | padd w sat =>
    exact laneRun_of h hs _ rfl rfl fun a b _ hi => (isLane_bits w).slice_add sat a b hi
  | psub w sat =>
    exact laneRun_of h hs _ rfl rfl fun a b _ hi => (isLane_bits w).slice_sub sat a b hi
  | pmullw => exact laneRun_of h hs _ rfl rfl fun a b _ hi => slice_mullw a b hi
  | pmulhw => exact laneRun_of h hs _ rfl rfl fun a b _ hi => slice_mulhw a b hi
  | pmulhuw => exact laneRun_of h hs _ rfl rfl fun a b _ hi => slice_mulhuw a b hi
  | pmuludq => exact laneRun_of h hs _ rfl rfl fun a b _ hi => slice_muludq a b hi
  | pmaddwd => exact laneRun_of h hs _ rfl rfl fun a b _ hi => slice_maddwd a b hi
  | psadbw => exact laneRun_of h hs _ rfl rfl fun a b _ hi => slice_sadbw a b hi
  | pavg w =>
    have hw : w.bits ≤ 32 := by rcases h with rfl | rfl <;> decide
    exact laneRun_of h hs _ rfl rfl fun a b _ hi => (isLane_bits w).slice_avg hw a b hi
  | pmax w signed =>
    exact laneRun_of h hs _ rfl rfl fun a b _ hi => (isLane_bits w).slice_select signed true a b hi
  | pmin w signed =>
    exact laneRun_of h hs _ rfl rfl fun a b _ hi => (isLane_bits w).slice_select signed false a b hi
  | pcmpeq w => exact laneRun_of h hs _ rfl rfl fun a b _ hi => (isLane_bits w).slice_cmpeq a b hi
  | pcmpgt w => exact laneRun_of h hs _ rfl rfl fun a b _ hi => (isLane_bits w).slice_cmpgt a b hi
  | packss w =>
    have hhalf : IsLane (w.bits / 2) := by
      rcases h with rfl | rfl
      · exact isLane_8
      · exact isLane_16
    exact laneRun_of h hs _ rfl rfl fun a b _ hi => (isLane_bits w).slice_pack hhalf false a b hi
  | packus => exact laneRun_of h hs (Packed.pack 16 true) rfl rfl fun a b _ hi => slice_packus a b hi
  | punpckl w =>
    refine laneRun_of h hs _ rfl rfl fun a b i hi => ?_
    rw [(isLane_bits w).slice_unpack false a b hi, if_neg Bool.false_ne_true, Nat.zero_add]
  | punpckh w =>
    refine laneRun_of h hs (Packed.unpack w.bits true) rfl rfl fun a b i hi => ?_
    rw [(isLane_bits w).slice_unpack true a b hi, if_pos rfl]
  | pshufd =>
    exact laneRun_of h hs (fun _ b => Packed.shufd imm b) rfl rfl fun _ b _ hi => slice_shufd imm b hi
  | pshufhw =>
    refine laneRun_of h hs (fun _ b => Packed.shufw 4 imm b) rfl rfl fun _ b i hi => ?_
    rw [slice_shufw (by decide) imm b hi]
    exact congrArg (slice b 16) (if_congr (by omega) rfl rfl)
  | pshuflw =>
    refine laneRun_of h hs (fun _ b => Packed.shufw 0 imm b) rfl rfl fun _ b i hi => ?_
    rw [slice_shufw (by decide) imm b hi]
    exact congrArg (slice b 16) (if_congr (by omega) (Nat.zero_add _) rfl)
  | pshift => exact laneRun_pshift h hs
  | pshiftdq => exact laneRun_pshiftdq hs
  | _ => exact h.elim

/-! ## Words in and out -/

/-- The word PINSRW inserts, and the state reading it leaves. -/
def wordSource (m : ModRm) (s : Cpu) : U16 × Cpu :=
  if m.isReg then (u16 (s.regs (Cpu.regIdx m.rm)), s) else readRm16 m s

/-- PINSRW replaces the word it names by the operand, or stops with the operand's fault. -/
def InsertRun (m : ModRm) (d imm : U8) (p : Pfx) (s : Cpu) : Prop :=
  ((wordSource m s).2.faulted →
    (execute (.sse ⟨.pinsrw, m, d, imm, p⟩) s).2 = (wordSource m s).2) ∧
  (¬ (wordSource m s).2.faulted → (wordSource m s).2.xmm = s.xmm ∧
    WritesXmm (wordSource m s).2 (execute (.sse ⟨.pinsrw, m, d, imm, p⟩) s).2 d fun r =>
      ∀ i < 8, slice r 16 i = if i = (imm &&& 7).toNat then (wordSource m s).1
        else slice (s.xmm (Cpu.regIdx d)) 16 i)

theorem wordSource_xmm (m : ModRm) (s : Cpu) : (wordSource m s).2.xmm = s.xmm := by
  unfold wordSource
  split
  · rfl
  · exact (held_readRm16 m s).xmm

theorem pinsrw_run (m : ModRm) (d imm : U8) (s : Cpu) : (pinsrw m d imm s).2 =
    (wordSource m s).2.setXmm d
      (Packed.insertWord imm (wordSource m s).1 ((wordSource m s).2.xmm (Cpu.regIdx d))) := by
  unfold pinsrw wordSource
  by_cases hreg : m.isReg = true
  · have hlow : u16 (s.regW m.rm .w32) = u16 (s.regs (Cpu.regIdx m.rm)) := by
      show u16 (s.regs (Cpu.regIdx m.rm) &&& 0xFFFFFFFF) = _
      ext i hi
      interval_cases i <;> simp
    rw [if_pos hreg, if_pos hreg, ← hlow]
    exact setXmm_unless d
      (fun t => Packed.insertWord imm (u16 (s.regW m.rm .w32)) (t.xmmReg d)) s
  · rw [if_neg hreg, if_neg hreg]
    exact setXmm_unless d (fun t => Packed.insertWord imm (readRm16 m s).1 (t.xmmReg d)) _

theorem insertRun (m : ModRm) (d imm : U8) (p : Pfx) {s : Cpu} (hs : s.SseEnabled) :
    InsertRun m d imm p s := by
  have hxmm := wordSource_xmm m s
  have hrun : (execute (.sse ⟨.pinsrw, m, d, imm, p⟩) s).2 = _ :=
    (execute_packed (.inr (.inl rfl)) hs).trans (pinsrw_run m d imm s)
  rw [InsertRun, hrun, hxmm]
  exact ⟨fun hf => setXmm_faulted hf _ _,
    fun hf => ⟨rfl, writesXmm_setXmm hf fun i hi => slice_insertWord imm _ _ hi⟩⟩

/-- PEXTRW leaves the word it names in a general register, zero-extended, and nothing else moved. -/
def ExtractRun (m : ModRm) (d imm : U8) (p : Pfx) (s : Cpu) : Prop :=
  let t := (execute (.sse ⟨.pextrw, m, d, imm, p⟩) s).2
  t.regs (Cpu.regIdx d) = u64 (slice (s.xmm (Cpu.regIdx m.rm)) 16 (imm &&& 7).toNat) ∧
    (∀ j, j ≠ Cpu.regIdx d → t.regs j = s.regs j) ∧ t = { s with regs := t.regs }

theorem extractRun (m : ModRm) (d imm : U8) (p : Pfx) {s : Cpu} (hs : s.SseEnabled)
    (hf : ¬ s.faulted) : ExtractRun m d imm p s := by
  have hrun : (execute (.sse ⟨.pextrw, m, d, imm, p⟩) s).2 = s.setRegWRaw d .w32
      (u64 (slice (s.xmm (Cpu.regIdx m.rm)) 16 (imm &&& 7).toNat)) := by
    refine (execute_packed (.inr (.inr rfl)) hs).trans ?_
    refine (congrArg (s.setRegW d .w32) (extractWord_eq imm _)).trans ?_
    exact if_neg hf
  have hword (x : U16) : u64 x &&& 0xFFFFFFFF = u64 x := by
    ext i hi
    interval_cases i <;> simp
  unfold ExtractRun
  rw [hrun]
  refine ⟨?_, fun j hj => if_neg hj, rfl⟩
  exact (if_pos rfl).trans (hword _)

/-- The packed integer operations are lane-wise: `join` inverts `lanes` at every width, and each
instruction writes in every lane the manual's function of the lanes it names. -/
theorem packed_lanewise :
    (∀ (w : Width) (v : U128), join (lanes v w.bits) w.bits = v) ∧
    (∀ (w : Width) (l : List U64), l.length = 128 / w.bits →
      lanes (join l w.bits) w.bits = l.map (· &&& laneMask w.bits)) ∧
    ∀ s : Cpu, s.SseEnabled →
      (∀ i : SseInst, Encoded i.op → LaneRun i s) ∧
      (∀ (m : ModRm) (d imm : U8) (p : Pfx), InsertRun m d imm p s) ∧
      ∀ (m : ModRm) (d imm : U8) (p : Pfx), ¬ s.faulted → ExtractRun m d imm p s :=
  ⟨fun w v => (isLane_bits w).join_lanes v, fun w _ hl => (isLane_bits w).lanes_join hl,
    fun _ hs => ⟨fun _ h => laneRun_packed h hs, fun m d imm p => insertRun m d imm p hs,
      fun m d imm p hf => extractRun m d imm p hs hf⟩⟩

end X86Emu
