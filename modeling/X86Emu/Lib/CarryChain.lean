import Mathlib.Data.Nat.Digits.Defs
import Mathlib.Tactic.LinearCombination
import Mathlib.Tactic.Linarith

/-!
# Carry chains

Addition and subtraction of numbers of any length a word at a time, each word handing a carry to the
next. The sign `σ` is 1 for addition and -1 for subtraction.
-/
namespace CarryChain

/-- One word of a chain: the operands, the result, and the carry out. -/
structure Link where
  x : Nat
  y : Nat
  r : Nat
  carry : Nat

/-- Every link adds (or subtracts) exactly, given the carry the one before hands it. -/
def Exact (base : Nat) (σ : Int) : Nat → List Link → Prop
  | _, [] => True
  | c, l :: rest =>
    (l.r : Int) + σ * base * l.carry = l.x + σ * (l.y + c) ∧ Exact base σ l.carry rest

/-- The carry out of the whole chain. -/
def carryOut : Nat → List Link → Nat
  | c, [] => c
  | _, l :: rest => carryOut l.carry rest

variable {base : Nat} {σ : Int}

@[simp] theorem carryOut_nil (c : Nat) : carryOut c [] = c := rfl

@[simp] theorem carryOut_cons (c : Nat) (l : Link) (rest : List Link) :
    carryOut c (l :: rest) = carryOut l.carry rest := rfl

/-- A chain adds (or subtracts) the numbers its words are the digits of. -/
theorem ofDigits_chain : ∀ (l : List Link) (c : Nat), Exact base σ c l →
    Nat.ofDigits (base : Int) (l.map Link.r) + σ * base ^ l.length * carryOut c l =
      Nat.ofDigits (base : Int) (l.map Link.x) +
        σ * (Nat.ofDigits (base : Int) (l.map Link.y) + c)
  | [], c, _ => by simp [Nat.ofDigits]
  | l :: rest, c, ⟨hword, hrest⟩ => by
    have ih := ofDigits_chain rest l.carry hrest
    have hcons (d : Nat) (ds : List Nat) : Nat.ofDigits (base : Int) (d :: ds) =
        d + base * Nat.ofDigits (base : Int) ds := rfl
    simp only [List.map_cons, hcons, List.length_cons, carryOut_cons, pow_succ]
    linear_combination hword + (base : Int) * ih

/-- A remainder with a borrow at the top is negative exactly when the top is. -/
theorem neg_iff_top_neg {low : Nat} {size top : Int} (h : (low : Int) < size) :
    (low : Int) + size * top < 0 ↔ top < 0 := by
  have hsize : 0 < size := by omega
  constructor
  · intro hneg
    by_contra htop
    have := mul_nonneg hsize.le (not_lt.mp htop)
    omega
  · intro htop
    have hstep : size * top ≤ size * (-1) := mul_le_mul_of_nonneg_left (by omega) hsize.le
    omega

end CarryChain
