import Mathlib.Data.BitVec
import Mathlib.Tactic

/-!
# Shifts and rotates one bit at a time

A word and a carry under the one-bit shifts and rotates, and what any number of
them leaves, bit by bit. The carry is a bit of its own: above the word for the
steps that move bits up, below it for the steps that move bits down.
-/
namespace ShiftSteps

variable {n : Nat}

/-- The word a carry is. -/
def carryWord (c : Bool) : BitVec n := if c then 1 else 0

def shlStep (p : BitVec n × Bool) : BitVec n × Bool := (p.1 <<< 1, p.1.msb)
def shrStep (p : BitVec n × Bool) : BitVec n × Bool := (p.1 >>> 1, p.1.getLsbD 0)
def sarStep (p : BitVec n × Bool) : BitVec n × Bool := (p.1.sshiftRight 1, p.1.getLsbD 0)

/-- The bit that leaves the top comes back at the bottom. -/
def rolStep (p : BitVec n × Bool) : BitVec n × Bool := (p.1 <<< 1 ||| carryWord p.1.msb, p.1.msb)

def rorStep (p : BitVec n × Bool) : BitVec n × Bool :=
  (p.1 >>> 1 ||| carryWord (p.1.getLsbD 0) <<< (n - 1), p.1.getLsbD 0)

/-- The carry is one more bit of what is rotated. -/
def rclStep (p : BitVec n × Bool) : BitVec n × Bool := (p.1 <<< 1 ||| carryWord p.2, p.1.msb)

def rcrStep (p : BitVec n × Bool) : BitVec n × Bool :=
  (p.1 >>> 1 ||| carryWord p.2 <<< (n - 1), p.1.getLsbD 0)

/-- The bits of a word with the carry above them. -/
def above (p : BitVec n × Bool) (i : Nat) : Bool := if i = n then p.2 else p.1.getLsbD i

/-- The bits of a word with the carry below them. -/
def below (p : BitVec n × Bool) (i : Nat) : Bool := if i = 0 then p.2 else p.1.getLsbD (i - 1)

theorem above_lt (p : BitVec n × Bool) {i : Nat} (h : i < n) : above p i = p.1.getLsbD i :=
  if_neg (by omega)

@[simp] theorem above_top (p : BitVec n × Bool) : above p n = p.2 := if_pos rfl

@[simp] theorem below_zero (p : BitVec n × Bool) : below p 0 = p.2 := rfl

@[simp] theorem below_succ (p : BitVec n × Bool) (i : Nat) : below p (i + 1) = p.1.getLsbD i := rfl

theorem getLsbD_carryWord (c : Bool) {i : Nat} (h : i < n) :
    (carryWord c : BitVec n).getLsbD i = (decide (i = 0) && c) := by
  unfold carryWord
  cases c with
  | false => simp
  | true =>
    have hn : 0 < n := by omega
    simp [BitVec.getLsbD_one, hn]

/-! ## One step -/

section Step

variable (p : BitVec n × Bool) {i : Nat}

theorem above_shlStep (hn : 0 < n) (h : i ≤ n) :
    above (shlStep p) i = (decide (0 < i) && above p (i - 1)) := by
  obtain rfl | hi := Nat.eq_zero_or_pos i
  · rw [above_lt _ hn]
    simp [shlStep]
  · rw [above_lt p (by omega : i - 1 < n)]
    obtain rfl | hlt := Nat.eq_or_lt_of_le h
    · simp [shlStep, hi, BitVec.msb_eq_getLsbD_last]
    · rw [above_lt _ hlt, shlStep, BitVec.getLsbD_shiftLeft]
      simp only [hlt, hi, show ¬i < 1 by omega, decide_true, decide_false, Bool.not_false,
        Bool.true_and]

theorem below_shrStep : below (shrStep p) i = below p (i + 1) := by
  cases i with
  | zero => rfl
  | succ i =>
    rw [below_succ, below_succ, shrStep, BitVec.getLsbD_ushiftRight, Nat.add_comm]

theorem below_sarStep (hn : 0 < n) (h : i ≤ n) :
    below (sarStep p) i = below p (min (i + 1) n) := by
  cases i with
  | zero =>
    rw [Nat.min_eq_left (by omega)]
    rfl
  | succ i =>
    obtain ⟨k, rfl⟩ : ∃ k, n = k + 1 := ⟨n - 1, by omega⟩
    have hi : ¬k + 1 ≤ i := by omega
    rw [below_succ]
    by_cases hlt : 1 + i < k + 1
    · rw [Nat.min_eq_left (by omega), below_succ, Nat.add_comm i 1]
      simp [sarStep, BitVec.getLsbD_sshiftRight, hi, hlt]
    · rw [Nat.min_eq_right (by omega), below_succ]
      simp [sarStep, BitVec.getLsbD_sshiftRight, hi, hlt, BitVec.msb_eq_getLsbD_last]

theorem getLsbD_rolStep (h : i < n) :
    (rolStep p).1.getLsbD i = p.1.getLsbD ((i + (n - 1)) % n) := by
  rw [rolStep, BitVec.getLsbD_or, BitVec.getLsbD_shiftLeft, getLsbD_carryWord _ h,
    BitVec.msb_eq_getLsbD_last]
  obtain rfl | hi := Nat.eq_zero_or_pos i
  · simp [h, Nat.mod_eq_of_lt (show n - 1 < n by omega)]
  · have hmod : (i + (n - 1)) % n = i - 1 := by
      rw [show i + (n - 1) = i - 1 + n by omega, Nat.add_mod_right, Nat.mod_eq_of_lt (by omega)]
    simp [h, hmod, show ¬i < 1 by omega, show i ≠ 0 by omega]

theorem getLsbD_rorStep (h : i < n) :
    (rorStep p).1.getLsbD i = p.1.getLsbD ((i + 1) % n) := by
  rw [rorStep, BitVec.getLsbD_or, BitVec.getLsbD_ushiftRight, BitVec.getLsbD_shiftLeft]
  by_cases hi : i = n - 1
  · have hmod : (i + 1) % n = 0 := by rw [show i + 1 = n by omega, Nat.mod_self]
    rw [getLsbD_carryWord _ (by omega), hmod]
    simp [hi, show n - 1 < n by omega, BitVec.getLsbD_of_ge _ _ (show n ≤ 1 + (n - 1) by omega)]
  · rw [Nat.mod_eq_of_lt (by omega : i + 1 < n), Nat.add_comm]
    simp [show i < n - 1 by omega]

theorem above_rclStep (hn : 0 < n) (h : i ≤ n) :
    above (rclStep p) i = above p ((i + n) % (n + 1)) := by
  obtain rfl | hi := Nat.eq_zero_or_pos i
  · rw [Nat.zero_add, Nat.mod_eq_of_lt (Nat.lt_succ_self n), above_top]
    rw [above_lt _ hn, rclStep, BitVec.getLsbD_or, getLsbD_carryWord _ hn]
    simp
  · have hmod : (i + n) % (n + 1) = i - 1 := by
      rw [show i + n = i - 1 + (n + 1) by omega, Nat.add_mod_right, Nat.mod_eq_of_lt (by omega)]
    rw [hmod, above_lt p (by omega : i - 1 < n)]
    obtain rfl | hlt := Nat.eq_or_lt_of_le h
    · simp [rclStep, BitVec.msb_eq_getLsbD_last]
    · rw [above_lt _ hlt, rclStep, BitVec.getLsbD_or, getLsbD_carryWord _ hlt,
        BitVec.getLsbD_shiftLeft]
      simp only [hlt, show ¬i < 1 by omega, show i ≠ 0 by omega, decide_true, decide_false,
        Bool.not_false, Bool.true_and, Bool.false_and, Bool.or_false]

theorem above_rcrStep (hn : 0 < n) (h : i ≤ n) :
    above (rcrStep p) i = above p ((i + 1) % (n + 1)) := by
  obtain rfl | hlt := Nat.eq_or_lt_of_le h
  · rw [Nat.mod_self, above_top, above_lt p hn]
    rfl
  · rw [above_lt _ hlt, Nat.mod_eq_of_lt (by omega), rcrStep, BitVec.getLsbD_or,
      BitVec.getLsbD_ushiftRight, BitVec.getLsbD_shiftLeft]
    by_cases hi : i = n - 1
    · rw [getLsbD_carryWord _ (by omega), show i + 1 = n by omega, above_top]
      simp [hi, show n - 1 < n by omega, BitVec.getLsbD_of_ge _ _ (show n ≤ 1 + (n - 1) by omega)]
    · rw [above_lt p (by omega), Nat.add_comm]
      simp [show i < n - 1 by omega]

end Step

/-! ## Any number of steps -/

section Run

variable (p : BitVec n × Bool) (k : Nat)

theorem above_shl (hn : 0 < n) {i : Nat} (h : i ≤ n) :
    above (shlStep^[k] p) i = (decide (k ≤ i) && above p (i - k)) := by
  induction k generalizing i with
  | zero => simp
  | succ k ih =>
    rw [Function.iterate_succ_apply', above_shlStep _ hn h, ih (by omega)]
    by_cases hi : k + 1 ≤ i
    · simp [hi, show 0 < i by omega, show k ≤ i - 1 by omega, show i - 1 - k = i - (k + 1) by omega]
    · have hk : ¬(0 < i ∧ k ≤ i - 1) := by omega
      simp only [hi, decide_false, Bool.false_and, ← Bool.and_assoc, ← Bool.decide_and, hk]

theorem below_shr (i : Nat) : below (shrStep^[k] p) i = below p (i + k) := by
  induction k generalizing i with
  | zero => rfl
  | succ k ih =>
    rw [Function.iterate_succ_apply', below_shrStep, ih, Nat.add_right_comm, Nat.add_assoc]

theorem below_sar (hn : 0 < n) {i : Nat} (h : i ≤ n) :
    below (sarStep^[k] p) i = below p (min (i + k) n) := by
  induction k generalizing i with
  | zero => rw [Nat.add_zero, Nat.min_eq_left h]; rfl
  | succ k ih =>
    rw [Function.iterate_succ_apply', below_sarStep _ hn h, ih (by omega)]
    congr 1
    omega

/-- Steps round a ring of `N` cells, each by `d`. -/
theorem ring_steps {α β : Type} {N d : Nat} (hN : 0 < N) (f : α → α) (cell : α → Nat → β)
    (hf : ∀ a, ∀ i < N, cell (f a) i = cell a ((i + d) % N)) (a : α) (k : Nat) {i : Nat}
    (h : i < N) : cell (f^[k] a) i = cell a ((i + k * d) % N) := by
  induction k generalizing i with
  | zero => rw [Nat.zero_mul, Nat.add_zero, Nat.mod_eq_of_lt h]; rfl
  | succ k ih =>
    rw [Function.iterate_succ_apply', hf _ i h, ih (Nat.mod_lt _ hN), Nat.mod_add_mod]
    congr 2
    ring

theorem getLsbD_rol {i : Nat} (h : i < n) :
    (rolStep^[k] p).1.getLsbD i = p.1.getLsbD ((i + k * (n - 1)) % n) :=
  ring_steps (by omega) rolStep (fun p i => p.1.getLsbD i) (fun p _ => getLsbD_rolStep p) p k h

theorem getLsbD_ror {i : Nat} (h : i < n) :
    (rorStep^[k] p).1.getLsbD i = p.1.getLsbD ((i + k) % n) := by
  have hr := ring_steps (by omega) rorStep (fun p i => p.1.getLsbD i)
    (fun p _ => getLsbD_rorStep p) p k h
  rwa [Nat.mul_one] at hr

theorem above_rcl (hn : 0 < n) {i : Nat} (h : i ≤ n) :
    above (rclStep^[k] p) i = above p ((i + k * n) % (n + 1)) :=
  ring_steps (by omega) rclStep above (fun p _ hi => above_rclStep p hn (by omega)) p k (by omega)

theorem above_rcr (hn : 0 < n) {i : Nat} (h : i ≤ n) :
    above (rcrStep^[k] p) i = above p ((i + k) % (n + 1)) := by
  have hr := ring_steps (by omega) rcrStep above (fun p _ hi => above_rcrStep p hn (by omega)) p k
    (by omega : i < n + 1)
  rwa [Nat.mul_one] at hr

/-- The steps up are a shift, and the last bit out is the carry. -/
theorem shl_word (hn : 0 < n) : (shlStep^[k] p).1 = p.1 <<< k := by
  apply BitVec.eq_of_getLsbD_eq
  intro i hi
  have h := above_shl p k hn hi.le
  rw [above_lt _ hi, above_lt _ (by omega)] at h
  rw [h, BitVec.getLsbD_shiftLeft]
  by_cases hki : k ≤ i
  · simp only [hi, hki, show ¬i < k by omega, decide_true, decide_false, Bool.not_false,
      Bool.true_and]
  · simp [hki, show i < k by omega]

theorem shl_out (hn : 0 < n) (hk : 0 < k) (hkn : k ≤ n) :
    (shlStep^[k] p).2 = p.1.getLsbD (n - k) := by
  have h := above_shl p k hn (Nat.le_refl n)
  rw [above_top, above_lt _ (by omega)] at h
  rw [h]
  simp [hkn]

theorem shr_word : (shrStep^[k] p).1 = p.1 >>> k := by
  apply BitVec.eq_of_getLsbD_eq
  intro i _
  have h := below_shr p k (i + 1)
  rw [below_succ, Nat.add_right_comm, below_succ] at h
  rw [h, BitVec.getLsbD_ushiftRight, Nat.add_comm]

theorem shr_out (hk : 0 < k) : (shrStep^[k] p).2 = p.1.getLsbD (k - 1) := by
  have h := below_shr p k 0
  rwa [below_zero, Nat.zero_add, show k = k - 1 + 1 by omega, below_succ,
    show k - 1 + 1 = k by omega] at h

end Run

/-! ## Two words as one -/

section Pair

variable (d s : BitVec n) {k : Nat}

theorem shl_append_high (hk : k ≤ n) :
    ((d ++ s) <<< k >>> n).setWidth n = d <<< k ||| s >>> (n - k) := by
  apply BitVec.eq_of_getLsbD_eq
  intro i hi
  rw [BitVec.getLsbD_setWidth, BitVec.getLsbD_ushiftRight, BitVec.getLsbD_shiftLeft,
    BitVec.getLsbD_append, BitVec.getLsbD_or, BitVec.getLsbD_shiftLeft, BitVec.getLsbD_ushiftRight]
  by_cases hki : k ≤ i
  · have hs : s.getLsbD (n - k + i) = false := BitVec.getLsbD_of_ge _ _ (by omega)
    simp [hi, hs, show ¬i < k by omega, show ¬n + i < k by omega, show ¬n + i - k < n by omega,
      show n + i - k - n = i - k by omega]
  · simp [hi, show i < k by omega, show ¬n + i < k by omega, show n + i - k < n by omega,
      show n - k + i = n + i - k by omega]

theorem shr_append_low (hk : k ≤ n) :
    ((s ++ d) >>> k).setWidth n = d >>> k ||| s <<< (n - k) := by
  apply BitVec.eq_of_getLsbD_eq
  intro i hi
  rw [BitVec.getLsbD_setWidth, BitVec.getLsbD_ushiftRight, BitVec.getLsbD_append,
    BitVec.getLsbD_or, BitVec.getLsbD_shiftLeft, BitVec.getLsbD_ushiftRight]
  by_cases hki : k + i < n
  · simp [hi, hki, show i < n - k by omega]
  · have hd : d.getLsbD (k + i) = false := BitVec.getLsbD_of_ge _ _ (by omega)
    simp [hi, hki, hd, show ¬i < n - k by omega, show k + i - n = i - (n - k) by omega]

theorem getLsbD_append_high {i : Nat} : (d ++ s).getLsbD (n + i) = d.getLsbD i := by
  rw [BitVec.getLsbD_append]
  simp

theorem getLsbD_append_low {i : Nat} (h : i < n) : (s ++ d).getLsbD i = d.getLsbD i := by
  rw [BitVec.getLsbD_append]
  simp [h]

end Pair

end ShiftSteps
