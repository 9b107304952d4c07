import Mathlib.Data.BitVec
import Mathlib.Tactic

/-!
# Words as vectors of lanes

A word cut into lanes of one width. Two words with the same lanes are the same word, and a word built
from a list by shifting each element to its place has the elements for lanes, cut to the lane.
-/
namespace Lanes

variable {N n : Nat}

/-- Lane `i` of a word, `n` bits wide. -/
def slice (v : BitVec N) (n i : Nat) : BitVec n := v.extractLsb' (i * n) n

@[simp] theorem getLsbD_slice (v : BitVec N) (n i k : Nat) :
    (slice v n i).getLsbD k = (decide (k < n) && v.getLsbD (i * n + k)) :=
  BitVec.getLsbD_extractLsb' ..

/-- A word is determined by its lanes. -/
theorem eq_of_slices (hn : n ∣ N) {a b : BitVec N}
    (h : ∀ i < N / n, slice a n i = slice b n i) : a = b := by
  apply BitVec.eq_of_getLsbD_eq
  intro j hj
  have hpos : 0 < n := Nat.pos_of_dvd_of_pos hn (by omega)
  have hlane : j / n < N / n := Nat.div_lt_div_of_lt_of_dvd hn hj
  have hbit := congrArg (·.getLsbD (j % n)) (h _ hlane)
  have hplace : j / n * n + j % n = j := Nat.div_add_mod' j n
  simp only [getLsbD_slice, Nat.mod_lt j hpos, decide_true, Bool.true_and, hplace] at hbit
  exact hbit

/-- The bits of words or-ed together. -/
theorem getLsbD_foldl_or {α : Type} (g : α → BitVec N) (j : Nat) :
    ∀ (l : List α) (acc : BitVec N),
      (l.foldl (fun acc p => acc ||| g p) acc).getLsbD j =
        (acc.getLsbD j || l.any fun p => (g p).getLsbD j)
  | [], acc => by simp
  | p :: l, acc => by
    rw [List.foldl_cons, getLsbD_foldl_or g j l, List.any_cons, BitVec.getLsbD_or, Bool.or_assoc]

/-- Lanes of any word `m` shifted to their places and or-ed together. -/
theorem slice_foldl_or {α : Type} (m : α → BitVec N) (l : List α) {i : Nat} (hi : (i + 1) * n ≤ N)
    (hm : ∀ x ∈ l, ∀ k, n ≤ k → (m x).getLsbD k = false) :
    slice (l.zipIdx.foldl (fun acc p => acc ||| m p.1 <<< (p.2 * n)) 0) n i =
      ((l[i]?).map fun x => (m x).setWidth n).getD 0 := by
  apply BitVec.eq_of_getLsbD_eq
  intro k hk
  have hplace : i * n + k < N := by
    rw [Nat.add_mul] at hi
    omega
  rw [getLsbD_slice, getLsbD_foldl_or, Bool.eq_iff_iff]
  have hother {x : α} {j : Nat} (hx : l[j]? = some x)
      (hbit : (m x <<< (j * n)).getLsbD (i * n + k) = true) : j = i := by
    rw [BitVec.getLsbD_shiftLeft] at hbit
    simp only [Bool.and_eq_true, Bool.not_eq_true', decide_eq_true_eq, decide_eq_false_iff_not]
      at hbit
    obtain ⟨⟨-, hge⟩, hbit⟩ := hbit
    by_contra hne
    rcases Nat.lt_or_gt_of_ne hne with hlt | hgt
    · have hstep : (j + 1) * n ≤ i * n := Nat.mul_le_mul_right n hlt
      rw [Nat.add_mul] at hstep
      rw [hm x (List.mem_of_getElem? hx) _ (by omega)] at hbit
      cases hbit
    · have hstep : (i + 1) * n ≤ j * n := Nat.mul_le_mul_right n hgt
      rw [Nat.add_mul] at hstep
      omega
  have hown (x : α) : (m x <<< (i * n)).getLsbD (i * n + k) = (m x).getLsbD k := by
    rw [BitVec.getLsbD_shiftLeft]
    simp [hplace]
  simp only [hk, decide_true, Bool.true_and, BitVec.ofNat_eq_ofNat, BitVec.getLsbD_zero,
    Bool.false_or, List.any_eq_true, Prod.exists, List.mk_mem_zipIdx_iff_getElem?]
  cases hl : l[i]? with
  | none =>
    simp only [Option.map_none, Option.getD_none]
    constructor
    · rintro ⟨x, j, hx, hbit⟩
      obtain rfl := hother hx hbit
      rw [hl] at hx
      cases hx
    · intro h
      simp at h
  | some x =>
    simp only [Option.map_some, Option.getD_some, BitVec.getLsbD_setWidth, hk, decide_true,
      Bool.true_and]
    constructor
    · rintro ⟨y, j, hy, hbit⟩
      obtain rfl := hother hy hbit
      obtain rfl := Option.some.inj (hl.symm.trans hy)
      rwa [hown] at hbit
    · intro hbit
      exact ⟨x, i, hl, by rwa [hown]⟩

end Lanes
