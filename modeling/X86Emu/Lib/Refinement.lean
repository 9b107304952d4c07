import Mathlib.Logic.Relation

/-!
# Refinement of a transition system

A concrete step refines an abstract one under an invariant: it keeps the invariant, and the abstract
system makes the move beside it. A step that refines a reflexive move may be invisible above, and
steps that refine moves one after another refine the moves composed.
-/
namespace Refinement

variable {σ α : Type*}

/-- Under the invariant, the step keeps it and is the move `T` of the abstract system. -/
def Refines (I : σ → Prop) (abs : σ → α) (T : α → α → Prop) (s t : σ) : Prop :=
  I s → I t ∧ T (abs s) (abs t)

variable {I : σ → Prop} {abs : σ → α} {T T' : α → α → Prop} {s t u : σ}

instance [Std.Refl T] : Std.Refl (Refines I abs T) := ⟨fun _ h => ⟨h, refl _⟩⟩

instance [IsTrans α T] : IsTrans σ (Refines I abs T) where
  trans _ _ _ h k hs :=
    have hstep := h hs
    have hrest := k hstep.1
    ⟨hrest.1, IsTrans.trans _ _ _ hstep.2 hrest.2⟩

namespace Refines

/-- A step the abstract system does not see. -/
theorem stutter [Std.Refl T] (h : I s → I t ∧ abs t = abs s) : Refines I abs T s t :=
  fun hs => ⟨(h hs).1, (h hs).2 ▸ refl _⟩

theorem mono (hsub : ∀ a b, T a b → T' a b) (h : Refines I abs T s t) : Refines I abs T' s t :=
  fun hs => ⟨(h hs).1, hsub _ _ (h hs).2⟩

/-- One step after another refines one move after the other. -/
theorem comp (h : Refines I abs T s t) (k : Refines I abs T' t u) :
    Refines I abs (Relation.Comp T T') s u :=
  fun hs =>
    have hstep := h hs
    have hrest := k hstep.1
    ⟨hrest.1, abs t, hstep.2, hrest.2⟩

end Refines

end Refinement
