import Mathlib.Data.Nat.Dist
import Mathlib.Tactic

/-!
# Rounding to the nearest point of a grid

Points are the values of a strictly increasing function on `0, …, top`. The
nearest point to a number is the one at the least distance; of two that are
equally near, the one with the even index.
-/
namespace NearestEven

variable {g : Nat → Nat} {top x n m : Nat}

/-- `n` indexes the point nearest to `x`, ties to even. -/
structure IsNearestEven (g : Nat → Nat) (top x n : Nat) : Prop where
  mem : n ≤ top
  nearest : ∀ k ≤ top, k ≠ n →
    Nat.dist x (g n) < Nat.dist x (g k) ∨ Nat.dist x (g n) = Nat.dist x (g k) ∧ n % 2 = 0

theorem dist_le_of_le {a b : Nat} (h : a ≤ b) : Nat.dist b a = b - a := by
  rw [Nat.dist_comm, Nat.dist_eq_sub_of_le h]

section Grid

variable (hg : StrictMono g)
include hg

/-- Points below the interval that holds `x` are farther than its lower end. -/
theorem dist_lt_of_lt {k : Nat} (hn : g n ≤ x) (hk : k < n) :
    Nat.dist x (g n) < Nat.dist x (g k) := by
  have h := hg hk
  rw [dist_le_of_le hn, dist_le_of_le (by omega)]
  omega

theorem dist_lt_of_gt {k : Nat} (hn : x ≤ g n) (hk : n < k) :
    Nat.dist x (g n) < Nat.dist x (g k) := by
  have h := hg hk
  rw [Nat.dist_eq_sub_of_le hn, Nat.dist_eq_sub_of_le (by omega)]
  omega

/-- Between two neighbouring points the lower is the nearest up to the middle. -/
theorem nearest_lower (htop : n + 1 ≤ top) (hn : g n ≤ x) (hx : x ≤ g (n + 1))
    (h : 2 * x < g n + g (n + 1) ∨ 2 * x = g n + g (n + 1) ∧ n % 2 = 0) :
    IsNearestEven g top x n := by
  have hlow := dist_le_of_le hn
  have hhigh := Nat.dist_eq_sub_of_le hx
  refine ⟨by omega, fun k _ hne => ?_⟩
  obtain hk | hk := Nat.lt_or_gt_of_ne hne
  · exact .inl (dist_lt_of_lt hg hn hk)
  · obtain rfl | hk := Nat.eq_or_lt_of_le (show n + 1 ≤ k from hk)
    · omega
    · have := dist_lt_of_gt hg hx hk
      omega

theorem nearest_upper (htop : n + 1 ≤ top) (hn : g n ≤ x) (hx : x ≤ g (n + 1))
    (h : g n + g (n + 1) < 2 * x ∨ 2 * x = g n + g (n + 1) ∧ (n + 1) % 2 = 0) :
    IsNearestEven g top x (n + 1) := by
  have hlow := dist_le_of_le hn
  have hhigh := Nat.dist_eq_sub_of_le hx
  refine ⟨htop, fun k _ hne => ?_⟩
  obtain hk | hk := Nat.lt_or_gt_of_ne hne
  · obtain rfl | hk := Nat.eq_or_lt_of_le (Nat.le_of_lt_succ hk)
    · omega
    · have := dist_lt_of_lt hg hn hk
      omega
  · exact .inl (dist_lt_of_gt hg hx hk)

/-- Past the last point, the last is the nearest. -/
theorem nearest_top (hx : g top ≤ x) : IsNearestEven g top x top :=
  ⟨Nat.le_refl _, fun _ hk hne => .inl (dist_lt_of_lt hg hx (by omega))⟩

/-- A point is the nearest to itself. -/
theorem nearest_self (hn : n ≤ top) : IsNearestEven g top (g n) n := by
  refine ⟨hn, fun k _ hne => ?_⟩
  obtain hk | hk := Nat.lt_or_gt_of_ne hne
  · exact .inl (dist_lt_of_lt hg (Nat.le_refl _) hk)
  · exact .inl (dist_lt_of_gt hg (Nat.le_refl _) hk)

theorem not_nearest_lt (hn : IsNearestEven g top x n) (hm : IsNearestEven g top x m)
    (h : n < m) : False := by
  have hnm := hn.nearest m hm.mem (by omega)
  have hmn := hm.nearest n hn.mem (by omega)
  have heven : n + 2 ≤ m := by omega
  have h1 := hg (Nat.lt_succ_self n)
  have h2 := hg (show n.succ < m by omega)
  have hmid := hn.nearest (n + 1) (by have := hm.mem; omega) (by omega)
  -- the point between the two would be nearer than both
  obtain hx | hx := Nat.le_total x (g (n + 1))
  · have := dist_lt_of_gt hg hx (show n + 1 < m by omega)
    omega
  · have := dist_lt_of_lt hg hx (Nat.lt_succ_self n)
    omega

theorem nearest_unique (hn : IsNearestEven g top x n) (hm : IsNearestEven g top x m) :
    n = m := by
  obtain h | h | h := Nat.lt_trichotomy n m
  · exact (not_nearest_lt hg hn hm h).elim
  · exact h
  · exact (not_nearest_lt hg hm hn h).elim

/-- Rounding down is right exactly up to the middle of the interval, and at it from an even
point. -/
theorem nearest_lower_iff (htop : n + 1 ≤ top) (hn : g n ≤ x) (hx : x < g (n + 1)) :
    IsNearestEven g top x n ↔
      2 * x < g n + g (n + 1) ∨ 2 * x = g n + g (n + 1) ∧ n % 2 = 0 := by
  constructor
  · intro h
    by_contra hc
    have hup := nearest_upper hg htop hn hx.le (by omega)
    have := nearest_unique hg h hup
    omega
  · exact nearest_lower hg htop hn hx.le

end Grid

end NearestEven
