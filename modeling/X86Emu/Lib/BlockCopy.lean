import Mathlib.Data.BitVec
import Mathlib.Tactic

/-!
# Blocks laid down element by element

A memory of which each step replaces one element of `w` places. Elements of one value fill a block
with it. Elements copied upwards move a block, unless onto the places just above its start, where
its first places are laid down again and again; copied downwards, unless onto those just below.
-/
namespace BlockCopy

variable {β : Type*} {w n top s d : Nat} {f g : Nat → β} {F : Nat → Nat → β}

/-- The element at `d` becomes `v`. Memory ends at `top`. -/
def Lays (top w d : Nat) (v : Nat → β) (f g : Nat → β) : Prop :=
  ∀ x < top, g x = if d ≤ x ∧ x < d + w then v (x - d) else f x

/-- The element at `d` becomes a copy of the one at `s`. -/
def Copies (top w s d : Nat) (f g : Nat → β) : Prop :=
  ∀ x < top, g x = if d ≤ x ∧ x < d + w then f (s + (x - d)) else f x

/-- A value laid down in every element of a block, in whatever order, fills it. -/
theorem fills {v : Nat → β} {e : Nat → Nat} (hw : 0 < w)
    (h : ∀ k < n, Lays top w (d + e k * w) v (F k) (F (k + 1))) (hin : ∀ k < n, e k < n)
    (hall : ∀ j < n, ∃ k < n, e k = j) {x : Nat} (hx : x < top) :
    F n x = if d ≤ x ∧ x < d + n * w then v ((x - d) % w) else F 0 x := by
  have hstep : ∀ k ≤ n, F k x =
      if d ≤ x ∧ ∃ j < k, e j = (x - d) / w then v ((x - d) % w) else F 0 x := by
    intro k
    induction k with
    | zero =>
      intro _
      exact (if_neg fun ⟨_, j, hj, _⟩ => absurd hj (Nat.not_lt_zero j)).symm
    | succ k ih =>
      intro hk
      have hplace : (d + e k * w ≤ x ∧ x < d + e k * w + w) ↔ d ≤ x ∧ e k = (x - d) / w := by
        rw [eq_comm, Nat.div_eq_iff hw]
        omega
      rw [h k hk x hx]
      simp only [hplace]
      split
      · rename_i hat
        have hmod := Nat.div_add_mod' (x - d) w
        rw [if_pos ⟨hat.1, k, Nat.lt_succ_self k, hat.2⟩, hat.2]
        congr 1
        omega
      · rename_i hnot
        rw [ih (by omega)]
        refine if_congr ⟨fun ⟨hd, j, hj, he⟩ => ⟨hd, j, by omega, he⟩,
          fun ⟨hd, j, hj, he⟩ => ⟨hd, j, ?_, he⟩⟩ rfl rfl
        have hne : j ≠ k := fun hjk => hnot ⟨hd, hjk ▸ he⟩
        omega
  rw [hstep n le_rfl]
  refine if_congr ⟨fun ⟨hd, j, hj, he⟩ => ⟨hd, ?_⟩, fun ⟨hd, hlt⟩ => ⟨hd, ?_⟩⟩ rfl rfl
  · have hlt := (Nat.div_lt_iff_lt_mul hw).mp (he ▸ hin j hj)
    omega
  · exact hall _ ((Nat.div_lt_iff_lt_mul hw).mpr (by omega))

/-- Elements copied one after another, lowest first. -/
def CopiesUp (top w n s d : Nat) (F : Nat → Nat → β) : Prop :=
  ∀ k < n, Copies top w (s + k * w) (d + k * w) (F k) (F (k + 1))

/-- Elements copied one after another, highest first. -/
def CopiesDown (top w n s d : Nat) (F : Nat → Nat → β) : Prop :=
  ∀ k < n, Copies top w (s + (n - 1 - k) * w) (d + (n - 1 - k) * w) (F k) (F (k + 1))

/-- Onto lower places, or the same, a block moves. -/
theorem CopiesUp.moves (h : CopiesUp top w n s d F) (hs : s + n * w ≤ top) (hds : d ≤ s) :
    ∀ k ≤ n, ∀ x < top, F k x = if d ≤ x ∧ x < d + k * w then F 0 (s + (x - d)) else F 0 x := by
  intro k
  induction k with
  | zero =>
    intro _ x _
    rw [Nat.zero_mul, if_neg (by omega)]
  | succ k ih =>
    intro hk x hx
    have hkn : (k + 1) * w ≤ n * w := Nat.mul_le_mul_right w hk
    rw [Nat.succ_mul] at hkn ⊢
    rw [h k hk x hx]
    split
    · rename_i hin
      -- the element read is above everything written so far
      have hread : s + k * w + (x - (d + k * w)) = s + (x - d) := by omega
      rw [hread, ih (by omega) (s + (x - d)) (by omega), if_neg (by omega), if_pos (by omega)]
    · rename_i hout
      rw [ih (by omega) x hx]
      refine if_congr ?_ rfl rfl
      omega

/-- Onto places an element or more above its start, a block repeats its first places. -/
theorem CopiesUp.repeats {p : Nat} (h : CopiesUp top w n s d F) (hp : d = s + p) (hw : w ≤ p)
    (hd : d + n * w ≤ top) :
    ∀ k ≤ n, ∀ x < top,
      F k x = if d ≤ x ∧ x < d + k * w then F 0 (s + (x - d) % p) else F 0 x := by
  intro k
  induction k with
  | zero =>
    intro _ x _
    rw [Nat.zero_mul, if_neg (by omega)]
  | succ k ih =>
    intro hk x hx
    have hkn : (k + 1) * w ≤ n * w := Nat.mul_le_mul_right w hk
    rw [Nat.succ_mul] at hkn ⊢
    rw [h k hk x hx]
    split
    · rename_i hin
      obtain ⟨e, rfl⟩ : ∃ e, x = d + e := ⟨x - d, by omega⟩
      have hread : s + k * w + (d + e - (d + k * w)) = s + e := by omega
      have hright : d ≤ d + e ∧ d + e < d + (k * w + w) := by omega
      rw [hread, if_pos hright, Nat.add_sub_cancel_left, ih (by omega) (s + e) (by omega)]
      split
      · -- what is read was written before, `p` places back
        have hback : s + e - d = e - p := by omega
        have hpe : e ≥ p := by omega
        rw [hback, Nat.mod_eq_sub_mod hpe]
      · have hep : e < p := by omega
        rw [Nat.mod_eq_of_lt hep]
    · rename_i hout
      rw [ih (by omega) x hx]
      refine if_congr ?_ rfl rfl
      omega

/-- Onto places that do not start below it within the block, a block copied downwards moves. -/
theorem CopiesDown.moves (h : CopiesDown top w n s d F) (hs : s + n * w ≤ top)
    (hsd : s ≤ d ∨ d + n * w ≤ s) :
    ∀ k ≤ n, ∀ x < top,
      F k x = if d + (n - k) * w ≤ x ∧ x < d + n * w then F 0 (s + (x - d)) else F 0 x := by
  intro k
  induction k with
  | zero =>
    intro _ x _
    rw [Nat.sub_zero, if_neg (by omega)]
  | succ k ih =>
    intro hk x hx
    obtain ⟨j, hj⟩ : ∃ j, n - k = j + 1 := ⟨n - k - 1, by omega⟩
    have hj' : n - (k + 1) = j := by omega
    have hlast : n - 1 - k = j := by omega
    have hjn : (j + 1) * w ≤ n * w := Nat.mul_le_mul_right w (by omega)
    have hstep := h k hk x hx
    have hih := ih (by omega)
    rw [hlast] at hstep
    rw [hj, Nat.succ_mul] at hih
    rw [Nat.succ_mul] at hjn
    rw [hj', hstep]
    split
    · rename_i hin
      have hread : s + j * w + (x - (d + j * w)) = s + (x - d) := by omega
      rw [hread, hih (s + (x - d)) (by omega), if_neg (by omega), if_pos (by omega)]
    · rename_i hout
      rw [hih x hx]
      refine if_congr ?_ rfl rfl
      omega

end BlockCopy
