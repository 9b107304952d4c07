import Mathlib.Data.List.Forall2

/-!
# Computations that may stop with an error

When a computation in `Except` goes through, and what a loop of them does: it stops at the first
error, and where every item has a record of what it was taken for, it goes through and keeps any
invariant of the records so far.
-/
namespace Stopping

/-! ## When a computation goes through -/

section Guards

variable {ε α β : Type} {e : ε} {p q : Prop} {x : Except ε α}

/-- The computation goes through exactly when the condition holds, and stops with the error
otherwise. -/
def Guarded (p : Prop) (e : ε) (x : Except ε α) : Prop :=
  (p → ∃ a, x = .ok a) ∧ (¬ p → x = .error e)

theorem Guarded.pure (e : ε) (a : α) : Guarded True e (Except.ok a) :=
  ⟨fun _ => ⟨a, rfl⟩, fun h => absurd trivial h⟩

theorem Guarded.bind {f : α → Except ε β} (hx : Guarded p e x) (hf : ∀ a, Guarded q e (f a)) :
    Guarded (p ∧ q) e (x >>= f) := by
  by_cases hp : p
  · obtain ⟨a, ha⟩ := hx.1 hp
    rw [ha]
    exact ⟨fun h => (hf a).1 h.2, fun h => (hf a).2 fun hq => h ⟨hp, hq⟩⟩
  · rw [hx.2 hp]
    exact ⟨fun h => absurd h.1 hp, fun _ => rfl⟩

theorem Guarded.congr (h : Guarded p e x) (hpq : p ↔ q) : Guarded q e x := propext hpq ▸ h

theorem Guarded.map (hx : Guarded p e x) (f : α → β) :
    Guarded p e (x >>= fun a => Pure.pure (f a)) :=
  (hx.bind fun a => .pure e (f a)).congr (iff_of_eq (and_true p))

theorem Guarded.ok_iff (h : Guarded p e x) : (∃ a, x = .ok a) ↔ p := by
  refine ⟨fun ⟨a, ha⟩ => ?_, h.1⟩
  by_contra hp
  cases ha.symm.trans (h.2 hp)

theorem Guarded.of_ok {a : α} (h : Guarded p e x) (ha : x = .ok a) : p := h.ok_iff.mp ⟨a, ha⟩

theorem Guarded.of_error {e' : ε} (h : Guarded p e x) (he : x = .error e') : ¬ p ∧ e' = e := by
  have hp : ¬ p := fun hp => by
    obtain ⟨a, ha⟩ := h.1 hp
    cases ha.symm.trans he
  exact ⟨hp, Except.error.inj (he.symm.trans (h.2 hp))⟩

end Guards

/-! ## Loops -/

variable {ε σ ι κ : Type*} {f : σ → ι → Except ε σ} {P : ι → κ → Prop}

theorem foldlM_cons (f : σ → ι → Except ε σ) (s : σ) (i : ι) (l : List ι) :
    (i :: l).foldlM f s = f s i >>= l.foldlM f := rfl

/-- Items that all have records go through, and keep an invariant of the records so far. -/
theorem foldlM_ok {I : List κ → σ → Prop}
    (hstep : ∀ ks k i s, P i k → I ks s → ∃ t, f s i = .ok t ∧ I (ks ++ [k]) t) :
    ∀ {l : List ι} {ks' : List κ}, List.Forall₂ P l ks' → ∀ (ks : List κ) {s : σ}, I ks s →
      ∃ t, l.foldlM f s = .ok t ∧ I (ks ++ ks') t
  | [], _, .nil, ks, s, hs => ⟨s, rfl, (List.append_nil ks).symm ▸ hs⟩
  | i :: l, k :: ks', .cons hi hl, ks, s, hs => by
    obtain ⟨t, ht, hI⟩ := hstep ks k i s hi hs
    obtain ⟨u, hu, hrest⟩ := foldlM_ok hstep hl (ks ++ [k]) hI
    refine ⟨u, ?_, ?_⟩
    · rw [foldlM_cons, ht]
      exact hu
    · rwa [List.append_assoc] at hrest

/-- A loop that goes through has a record of every item. -/
theorem records_of_foldlM (hstep : ∀ s i t, f s i = .ok t → ∃ k, P i k) :
    ∀ {l : List ι} {s t : σ}, l.foldlM f s = .ok t → ∃ ks, List.Forall₂ P l ks
  | [], _, _, _ => ⟨[], .nil⟩
  | i :: l, s, t, h => by
    rw [foldlM_cons] at h
    cases hi : f s i with
    | error e =>
      rw [hi] at h
      cases h
    | ok u =>
      rw [hi] at h
      obtain ⟨k, hk⟩ := hstep s i u hi
      obtain ⟨ks, hks⟩ := records_of_foldlM hstep (l := l) (s := u) (t := t) h
      exact ⟨k :: ks, .cons hk hks⟩

/-- A loop that goes through goes through each of its items. -/
theorem forall_of_foldlM {Q : ι → Prop} (hstep : ∀ s i t, f s i = .ok t → Q i) {l : List ι}
    {s t : σ} (h : l.foldlM f s = .ok t) : ∀ i ∈ l, Q i := by
  obtain ⟨ks, hks⟩ := records_of_foldlM (P := fun i (_ : Unit) => Q i)
    (fun s i t hi => ⟨(), hstep s i t hi⟩) h
  clear h
  induction hks with
  | nil => exact fun i hi => absurd hi List.not_mem_nil
  | cons hq _ ih => exact List.forall_mem_cons.mpr ⟨hq, ih⟩

/-- A loop whose items all go through is a loop without errors. -/
theorem foldlM_eq_foldl {g : σ → ι → σ} : ∀ {l : List ι},
    (∀ i ∈ l, ∀ s, f s i = .ok (g s i)) → ∀ s, l.foldlM f s = .ok (l.foldl g s)
  | [], _, _ => rfl
  | i :: l, h, s => by
    rw [foldlM_cons, h i List.mem_cons_self]
    exact foldlM_eq_foldl (fun j hj => h j (List.mem_cons_of_mem i hj)) (g s i)

/-- The error of a loop is the error of one of its items. -/
theorem error_of_foldlM : ∀ {l : List ι} {s : σ} {e : ε}, l.foldlM f s = .error e →
    ∃ i ∈ l, ∃ t, f t i = .error e
  | [], _, _, h => nomatch h
  | i :: l, s, e, h => by
    rw [foldlM_cons] at h
    cases hi : f s i with
    | error e' =>
      rw [hi] at h
      obtain rfl : e' = e := Except.error.inj h
      exact ⟨i, List.mem_cons_self, s, hi⟩
    | ok u =>
      rw [hi] at h
      obtain ⟨j, hj, t, ht⟩ := error_of_foldlM (l := l) (s := u) h
      exact ⟨j, List.mem_cons_of_mem i hj, t, ht⟩

end Stopping
