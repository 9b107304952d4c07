import Mathlib.Data.List.GetD
import Mathlib.Data.Nat.Basic
import Mathlib.Logic.Function.Basic

/-!
# Endless pages behind a scrolling window

Text typed on a page without end, cell after cell, and the rows of it a window of `cols` columns
and `rows` rows shows: the first ones, then those that end with the row of the next cell.
-/
namespace Scrolling

variable {α : Type*} {cols rows h i : Nat}

/-- The cells of a page, and the cell to type next. -/
structure Page (α : Type*) where
  cells : Nat → α
  head : Nat

namespace Page

def put (p : Page α) (c : α) : Page α := ⟨Function.update p.cells p.head c, p.head + 1⟩

def write (p : Page α) (l : List α) : Page α := l.foldl put p

theorem put_cells (p : Page α) (c : α) (i : Nat) :
    (p.put c).cells i = if i = p.head then c else p.cells i :=
  Function.update_apply p.cells p.head c i

theorem write_cons (p : Page α) (c : α) (l : List α) : p.write (c :: l) = (p.put c).write l := rfl

theorem write_head (p : Page α) (l : List α) : (p.write l).head = p.head + l.length := by
  induction l generalizing p with
  | nil => rfl
  | cons c l ih =>
    rw [write_cons, ih, List.length_cons]
    show p.head + 1 + l.length = _
    omega

/-- What was typed stands from the head on, and the rest is as it was. -/
theorem write_cells (p : Page α) (l : List α) (i : Nat) :
    (p.write l).cells i =
      if p.head ≤ i then l.getD (i - p.head) (p.cells i) else p.cells i := by
  induction l generalizing p with
  | nil => exact (ite_self _).symm
  | cons c l ih =>
    rw [write_cons, ih, put_cells]
    show (if p.head + 1 ≤ i then _ else _) = _
    rcases Nat.lt_trichotomy i p.head with hlt | rfl | hgt
    · rw [if_neg (by omega), if_neg (by omega), if_neg (by omega)]
    · rw [if_neg (by omega), if_pos rfl, if_pos le_rfl, Nat.sub_self, List.getD_cons_zero]
    · have hsub : i - p.head = i - (p.head + 1) + 1 := by omega
      rw [if_pos (by omega), if_neg (by omega), if_pos (by omega), hsub, List.getD_cons_succ]
      rfl

end Page

/-! ## The window -/

/-- The first row of the window once the next cell is `h`. -/
def top (cols rows h : Nat) : Nat := (h - cols * (rows - 1)) / cols

/-- The window starts at the top of the page. -/
theorem top_of_lt (hcols : 0 < cols) (hrows : 0 < rows) (hh : h < cols * rows) :
    top cols rows h = 0 := by
  obtain ⟨r, rfl⟩ : ∃ r, rows = r + 1 := ⟨rows - 1, by omega⟩
  refine Nat.div_eq_of_lt ?_
  rw [Nat.mul_succ] at hh
  rw [Nat.add_sub_cancel]
  omega

/-- It moves a row down exactly when the next cell would be below it. -/
theorem top_succ (hcols : 0 < cols) (hrows : 0 < rows) :
    top cols rows (h + 1) =
      if h + 1 = cols * (top cols rows h + rows) then top cols rows h + 1
      else top cols rows h := by
  obtain ⟨r, rfl⟩ : ∃ r, rows = r + 1 := ⟨rows - 1, by omega⟩
  unfold top
  rw [Nat.add_sub_cancel, ← Nat.add_assoc, Nat.mul_add, Nat.mul_add, Nat.mul_one]
  by_cases hlow : h < cols * r
  · have hzero : h - cols * r = 0 := by omega
    have hzero' : h + 1 - cols * r = 0 := by omega
    rw [hzero, hzero', Nat.zero_div, Nat.mul_zero, if_neg (by omega)]
  · obtain ⟨d, rfl⟩ : ∃ d, h = cols * r + d := ⟨h - cols * r, by omega⟩
    have hsub : cols * r + d + 1 - cols * r = d + 1 := by omega
    rw [Nat.add_sub_cancel_left, hsub, Nat.succ_div]
    have hdiv := Nat.div_add_mod d cols
    have hmod := Nat.mod_lt d hcols
    have hiff : cols ∣ d + 1 ↔ cols * r + d + 1 = cols * (d / cols) + cols * r + cols := by
      refine ⟨fun ⟨k, hk⟩ => ?_, fun he => ⟨d / cols + 1, by rw [Nat.mul_succ]; omega⟩⟩
      have hlt : cols * (d / cols) < cols * k := by omega
      have hlek : d / cols + 1 ≤ k := Nat.lt_of_mul_lt_mul_left hlt
      have hmul := Nat.mul_le_mul_left cols hlek
      rw [Nat.mul_succ] at hmul
      omega
    simp only [hiff]
    split <;> rfl

end Scrolling
