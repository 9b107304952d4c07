import Mathlib.Logic.Relation

/-!
# Rules for state-passing programs

A relational frame calculus for `StateM`: what every run of a program preserves, and what a run
that ends in a failed state has left alone. Failure is a predicate of the state.
-/
namespace StateRules

variable {σ α β : Type}

@[simp] theorem bind_run (p : StateM σ α) (f : α → StateM σ β) (s : σ) :
    (p >>= f) s = f (p s).1 (p s).2 := rfl

@[simp] theorem pure_run (a : α) (s : σ) : (pure a : StateM σ α) s = (a, s) := rfl

@[simp] theorem get_run (s : σ) : (get : StateM σ σ) s = (s, s) := rfl

@[simp] theorem set_run (t s : σ) : (set t : StateM σ PUnit) s = (⟨⟩, t) := rfl

@[simp] theorem modify_run (f : σ → σ) (s : σ) :
    (modify f : StateM σ PUnit) s = (⟨⟩, f s) := rfl

@[simp] theorem map_run (f : α → β) (p : StateM σ α) (s : σ) :
    (f <$> p) s = (f (p s).1, (p s).2) := rfl

@[simp] theorem ite_run (c : Prop) [Decidable c] (p q : StateM σ α) (s : σ) :
    (if c then p else q) s = if c then p s else q s := by
  split <;> rfl

/-! ## Frames -/

/-- Every run of `p` relates its start to its end by `R`. -/
def Keeps (R : σ → σ → Prop) (p : StateM σ α) : Prop := ∀ s, R s (p s).2

section Frames

variable {R : σ → σ → Prop}

theorem Keeps.pure [Std.Refl R] (a : α) : Keeps R (pure a : StateM σ α) := fun s => refl s

theorem Keeps.get [Std.Refl R] : Keeps R (get : StateM σ σ) := fun s => refl s

theorem Keeps.bind [IsTrans σ R] {p : StateM σ α} {f : α → StateM σ β}
    (hp : Keeps R p) (hf : ∀ a, Keeps R (f a)) : Keeps R (p >>= f) :=
  fun s => IsTrans.trans _ _ _ (hp s) (hf _ _)

theorem Keeps.map {p : StateM σ α} (f : α → β) (hp : Keeps R p) : Keeps R (f <$> p) :=
  fun s => hp s

theorem Keeps.modify {f : σ → σ} (h : ∀ s, R s (f s)) : Keeps R (modify f : StateM σ PUnit) := h

/-- Reading the state hands the body the state it starts from. -/
theorem Keeps.read {f : σ → StateM σ α} (h : ∀ s, R s (f s s).2) :
    Keeps R (MonadState.get >>= f) := h

/-- The same, for a body that keeps `R` whatever state it read. -/
theorem Keeps.get_bind {f : σ → StateM σ α} (h : ∀ s, Keeps R (f s)) :
    Keeps R (MonadState.get >>= f) := fun s => h s s

/-- Replacing the state is one step; the rest runs from there. -/
theorem Keeps.set_bind [IsTrans σ R] {s t : σ} {f : PUnit → StateM σ α} (h : R s t)
    (hf : Keeps R (f ⟨⟩)) : R s ((MonadStateOf.set t >>= f) s).2 :=
  IsTrans.trans _ _ _ h (hf t)

theorem Keeps.ite {c : Prop} [Decidable c] {p q : StateM σ α} (hp : Keeps R p) (hq : Keeps R q) :
    Keeps R (if c then p else q) := by
  split
  · exact hp
  · exact hq

theorem Keeps.mono {S : σ → σ → Prop} {p : StateM σ α} (hp : Keeps R p)
    (h : ∀ s t, R s t → S s t) : Keeps S p := fun s => h _ _ (hp s)

/-- An invariant is kept when it survives every run. -/
theorem Keeps.invariant {I : σ → Prop} {p : StateM σ α} (hp : Keeps (fun s t => I s → I t) p)
    {s : σ} (h : I s) : I (p s).2 := hp s h

end Frames

/-! ## What a failed run has left alone -/

/-- A run of `p` that ends in a failed state relates its start to its end by `R`. -/
def Atomic (failed : σ → Prop) (R : σ → σ → Prop) (p : StateM σ α) : Prop :=
  ∀ s, failed (p s).2 → R s (p s).2

section Atomicity

variable {failed : σ → Prop} {R : σ → σ → Prop}

theorem Keeps.atomic {p : StateM σ α} (hp : Keeps R p) : Atomic failed R p := fun s _ => hp s

/-- What runs before the commit keeps `R` either way. -/
theorem Atomic.bind [IsTrans σ R] {p : StateM σ α} {f : α → StateM σ β} (hp : Keeps R p)
    (hf : ∀ a, Atomic failed R (f a)) : Atomic failed R (p >>= f) :=
  fun s h => IsTrans.trans _ _ _ (hp s) (hf _ _ h)

theorem Atomic.read {f : σ → StateM σ α} (h : ∀ s, failed (f s s).2 → R s (f s s).2) :
    Atomic failed R (MonadState.get >>= f) := h

theorem Atomic.get_bind {f : σ → StateM σ α} (h : ∀ s, Atomic failed R (f s)) :
    Atomic failed R (MonadState.get >>= f) := fun s => h s s

theorem Atomic.ite {c : Prop} [Decidable c] {p q : StateM σ α} (hp : Atomic failed R p)
    (hq : Atomic failed R q) : Atomic failed R (if c then p else q) := by
  split
  · exact hp
  · exact hq

/-- A commit that a failed state suppresses and that does not fail. -/
theorem Atomic.commit [Std.Refl R] {f : σ → σ} (hkeep : ∀ s, failed (f s) → failed s)
    (hheld : ∀ s, failed s → f s = s) : Atomic failed R (modify f : StateM σ PUnit) := by
  intro s h
  rw [modify_run] at h ⊢
  rw [hheld s (hkeep s h)]
  exact refl s

/-- The same commit after a step that is atomic itself. -/
theorem Atomic.then_commit {p : StateM σ α} (hp : Atomic failed R p) {f : σ → σ}
    (hkeep : ∀ s, failed (f s) → failed s) (hheld : ∀ s, failed s → f s = s) :
    Atomic failed R (p >>= fun _ => (modify f : StateM σ PUnit)) := by
  intro s h
  rw [bind_run, modify_run] at h ⊢
  have hfailed := hkeep _ h
  rw [hheld _ hfailed]
  exact hp s hfailed

end Atomicity

/-! ## Changes a program does not see -/

/-- Run from a changed state, the program does the same and ends with the same change. -/
def Commutes (g : σ → σ) (p : StateM σ α) : Prop := ∀ s, p (g s) = ((p s).1, g (p s).2)

section Commuting

variable {g : σ → σ}

theorem Commutes.pure (a : α) : Commutes g (pure a : StateM σ α) := fun _ => rfl

theorem Commutes.bind {p : StateM σ α} {f : α → StateM σ β} (hp : Commutes g p)
    (hf : ∀ a, Commutes g (f a)) : Commutes g (p >>= f) := by
  intro s
  rw [bind_run, hp s]
  exact hf _ _

theorem Commutes.modify {f : σ → σ} (h : ∀ s, f (g s) = g (f s)) :
    Commutes g (modify f : StateM σ PUnit) := by
  intro s
  rw [modify_run, modify_run, h s]

/-- A body that reads the same in the changed state. -/
theorem Commutes.read {f : σ → StateM σ α} (h : ∀ s, f (g s) = f s) (hf : ∀ s, Commutes g (f s)) :
    Commutes g (MonadState.get >>= f) := fun s => (congrFun (h s) (g s)).trans (hf s s)

theorem Commutes.ite {c : Prop} [Decidable c] {p q : StateM σ α} (hp : Commutes g p)
    (hq : Commutes g q) : Commutes g (if c then p else q) := by
  split
  · exact hp
  · exact hq

end Commuting
end StateRules
