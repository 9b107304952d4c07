import X86Emu.Lib.StateRules

/-!
# Loops run on fuel

A loop whose turn hands on a value or stops, run for so many turns. A loop that stops within its
fuel does the same on any more of it; one that never stops exhausts every fuel.
-/
namespace FuelLoop

open StateRules

variable {σ α : Type} {turn : α → StateM σ (Option α)} {n m : Nat} {a : α} {s : σ}

/-- As many as `n` turns, and the value the last of them was given. -/
def loopFor (turn : α → StateM σ (Option α)) : Nat → α → StateM σ α
  | 0, a => pure a
  | n + 1, a => do
    match ← turn a with
    | some b => loopFor turn n b
    | none => pure a

/-- One of the first `n` turns stops. -/
def EndsWithin (turn : α → StateM σ (Option α)) : Nat → α → σ → Prop
  | 0, _, _ => False
  | n + 1, a, s =>
    match turn a s with
    | (some b, t) => EndsWithin turn n b t
    | (none, _) => True

theorem loopFor_some {b : α} {t : σ} (h : turn a s = (some b, t)) :
    loopFor turn (n + 1) a s = loopFor turn n b t := by
  rw [loopFor, bind_run, h]

theorem loopFor_none {t : σ} (h : turn a s = (none, t)) :
    loopFor turn (n + 1) a s = (a, t) := by
  rw [loopFor, bind_run, h]
  rfl

theorem endsWithin_some {b : α} {t : σ} (h : turn a s = (some b, t)) :
    EndsWithin turn (n + 1) a s ↔ EndsWithin turn n b t := by
  rw [EndsWithin, h]

theorem endsWithin_none {t : σ} (h : turn a s = (none, t)) : EndsWithin turn (n + 1) a s := by
  rw [EndsWithin, h]
  trivial

/-- Fuel that is enough is as good as any more. -/
theorem loopFor_stable (h : EndsWithin turn n a s) (hm : n ≤ m) :
    loopFor turn m a s = loopFor turn n a s := by
  induction n generalizing m a s with
  | zero => exact h.elim
  | succ n ih =>
    obtain ⟨m, rfl⟩ : ∃ k, m = k + 1 := ⟨m - 1, by omega⟩
    rcases hturn : turn a s with ⟨b | b, t⟩
    · rw [loopFor_none hturn, loopFor_none hturn]
    · rw [loopFor_some hturn, loopFor_some hturn]
      exact ih ((endsWithin_some hturn).mp h) (by omega)

section Invariant

/-- Turn `k` starts in `I k`, and goes on exactly when `P k` holds. -/
structure Turns (turn : α → StateM σ (Option α)) (I : Nat → α → σ → Prop) (P : Nat → Prop) :
    Prop where
  goes : ∀ {k a s}, I k a s → P k → ∃ b t, turn a s = (some b, t) ∧ I (k + 1) b t
  stops : ∀ {k a s}, I k a s → ¬ P k → ∃ t, turn a s = (none, t)

variable {I : Nat → α → σ → Prop} {P : Nat → Prop} {k : Nat}

theorem Turns.endsWithin_iff (h : Turns turn I P) (hI : I k a s) :
    EndsWithin turn n a s ↔ ∃ i < n, ¬ P (k + i) := by
  induction n generalizing k a s with
  | zero => exact ⟨False.elim, fun ⟨i, hi, _⟩ => absurd hi (Nat.not_lt_zero i)⟩
  | succ n ih =>
    by_cases hP : P k
    · obtain ⟨b, t, hturn, hI'⟩ := h.goes hI hP
      rw [endsWithin_some hturn, ih hI']
      constructor
      · rintro ⟨i, hi, hno⟩
        exact ⟨i + 1, by omega, by rwa [← Nat.add_assoc, Nat.add_right_comm]⟩
      · rintro ⟨i, hi, hno⟩
        cases i with
        | zero => exact absurd hP hno
        | succ i => exact ⟨i, by omega, by rwa [Nat.add_right_comm, Nat.add_assoc]⟩
    · obtain ⟨t, hturn⟩ := h.stops hI hP
      exact iff_of_true (endsWithin_none hturn) ⟨0, n.succ_pos, hP⟩

/-- A loop that goes on at every turn never has enough fuel. -/
theorem Turns.never_ends (h : Turns turn I P) (hI : I k a s) (hP : ∀ i, P (k + i)) :
    ¬ EndsWithin turn n a s := by
  rw [h.endsWithin_iff hI]
  rintro ⟨i, -, hno⟩
  exact hno (hP i)

/-- The turn that stops the loop. -/
theorem Turns.last_turn (h : Turns turn I P) (hI : I k a s) (hP : ∀ i < n, P (k + i))
    (hstop : ¬ P (k + n)) :
    ∃ b t u, I (k + n) b t ∧ turn b t = (none, u) ∧ loopFor turn (n + 1) a s = (b, u) := by
  induction n generalizing k a s with
  | zero =>
    obtain ⟨u, hturn⟩ := h.stops hI hstop
    exact ⟨a, s, u, hI, hturn, loopFor_none hturn⟩
  | succ n ih =>
    obtain ⟨b, t, hturn, hI'⟩ := h.goes hI (hP 0 n.succ_pos)
    have hshift (i : Nat) : k + 1 + i = k + (i + 1) := by omega
    obtain ⟨c, v, u, hc, hlast, hloop⟩ := ih hI' (fun i hi => by
      rw [hshift]
      exact hP (i + 1) (by omega)) (by rwa [hshift])
    rw [hshift] at hc
    exact ⟨c, v, u, hc, hlast, (loopFor_some hturn).trans hloop⟩

end Invariant
end FuelLoop
