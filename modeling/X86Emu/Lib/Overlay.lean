import Mathlib.Data.BitVec
import Mathlib.Tactic

/-!
# Blocks laid over a memory

A block is a run of values from a base address on, counted around the end of the address space. Of
blocks laid one over another, the last to reach an address shows there.
-/
namespace Overlay

variable {w : Nat} {β : Type*}

/-- What a block has at an address. -/
def block (b : BitVec w × List β) (a : BitVec w) : Option β := b.2[(a - b.1).toNat]?

/-- What the last block over an address has there. -/
def top : List (BitVec w × List β) → BitVec w → Option β
  | [], _ => none
  | b :: bs, a => (top bs a).or (block b a)

/-- The block reaches the address. -/
def Covers (b : BitVec w × List β) (a : BitVec w) : Prop := (a - b.1).toNat < b.2.length

instance (b : BitVec w × List β) (a : BitVec w) : Decidable (Covers b a) :=
  inferInstanceAs (Decidable (_ < _))

variable {bs cs : List (BitVec w × List β)} {b : BitVec w × List β} {a : BitVec w}

@[simp] theorem top_nil (a : BitVec w) : top ([] : List (BitVec w × List β)) a = none := rfl

@[simp] theorem top_cons (b : BitVec w × List β) (bs : List (BitVec w × List β)) (a : BitVec w) :
    top (b :: bs) a = (top bs a).or (block b a) := rfl

theorem block_eq_none : block b a = none ↔ ¬ Covers b a := by
  rw [block, List.getElem?_eq_none_iff, Covers, Nat.not_lt]

theorem top_append (bs cs : List (BitVec w × List β)) (a : BitVec w) :
    top (bs ++ cs) a = (top cs a).or (top bs a) := by
  induction bs with
  | nil => rw [List.nil_append, top_nil, Option.or_none]
  | cons b bs ih => rw [List.cons_append, top_cons, top_cons, ih, Option.or_assoc]

theorem top_eq_none : top bs a = none ↔ ∀ b ∈ bs, ¬ Covers b a := by
  induction bs with
  | nil => exact ⟨fun _ b hb => absurd hb List.not_mem_nil, fun _ => rfl⟩
  | cons b bs ih =>
    rw [top_cons, Option.or_eq_none_iff, ih, block_eq_none, List.forall_mem_cons]
    exact and_comm

/-- A block shows where it reaches and no later one does. -/
theorem top_of_covers (h : Covers b a) (hcs : ∀ c ∈ cs, ¬ Covers c a) :
    top (bs ++ b :: cs) a = some (b.2.get ⟨_, h⟩) := by
  rw [top_append, top_cons, top_eq_none.mpr hcs, Option.none_or, block,
    List.getElem?_eq_getElem h]
  rfl

/-! ## Memories -/

/-- The second memory is the first with the blocks laid over it, wherever there is memory. -/
def Laid (there : BitVec w → Prop) (bs : List (BitVec w × List β)) (f g : BitVec w → β) : Prop :=
  ∀ a, (there a → g a = (top bs a).getD (f a)) ∧ (¬ there a → g a = f a)

variable {there : BitVec w → Prop} {f g h : BitVec w → β}

theorem Laid.refl (there : BitVec w → Prop) (f : BitVec w → β) : Laid there [] f f :=
  fun _ => ⟨fun _ => rfl, fun _ => rfl⟩

/-- Blocks laid after others lie over them. -/
theorem Laid.trans (hf : Laid there bs f g) (hg : Laid there cs g h) :
    Laid there (bs ++ cs) f h := by
  intro a
  refine ⟨fun ha => ?_, fun ha => ((hg a).2 ha).trans ((hf a).2 ha)⟩
  rw [(hg a).1 ha, (hf a).1 ha, top_append]
  cases top cs a <;> rfl

/-- What the blocks miss is as it was. -/
theorem Laid.missed (hl : Laid there bs f g) (h : ∀ b ∈ bs, ¬ Covers b a) : g a = f a := by
  by_cases ha : there a
  · rw [(hl a).1 ha, top_eq_none.mpr h]
    rfl
  · exact (hl a).2 ha

/-- A block is there to be read wherever no later one lies over it. -/
theorem Laid.shown (hl : Laid there (bs ++ b :: cs) f g) (ha : there a) (h : Covers b a)
    (hcs : ∀ c ∈ cs, ¬ Covers c a) : g a = b.2.get ⟨_, h⟩ := by
  rw [(hl a).1 ha, top_of_covers h hcs]
  rfl

/-! ## Blocks that do not meet -/

/-- Where a block starts, and how long it is. -/
def span (b : BitVec w × List β) : Nat × Nat := (b.1.toNat, b.2.length)

/-- One span ends before the other starts. -/
def Clear (x y : Nat × Nat) : Prop := x.1 + x.2 ≤ y.1 ∨ y.1 + y.2 ≤ x.1

instance : DecidableRel Clear := fun _ _ => inferInstanceAs (Decidable (_ ∨ _))

theorem Clear.symm {x y : Nat × Nat} (h : Clear x y) : Clear y x := Or.symm h

/-- A block that stays within the address space covers its span. -/
theorem covers_iff (hb : (span b).1 + (span b).2 ≤ 2 ^ w) :
    Covers b a ↔ (span b).1 ≤ a.toNat ∧ a.toNat < (span b).1 + (span b).2 := by
  have ha := a.isLt
  have hstart := b.1.isLt
  unfold Covers span at *
  rw [BitVec.toNat_sub]
  by_cases hle : b.1.toNat ≤ a.toNat
  · rw [show 2 ^ w - b.1.toNat + a.toNat = a.toNat - b.1.toNat + 2 ^ w by omega, Nat.add_mod_right,
      Nat.mod_eq_of_lt (by omega)]
    omega
  · rw [Nat.mod_eq_of_lt (by omega)]
    omega

/-- The blocks stay within the address space. -/
def Fit (bs : List (BitVec w × List β)) : Prop := ∀ b ∈ bs, (span b).1 + (span b).2 ≤ 2 ^ w

/-- Of blocks that do not meet, every one is there to be read. -/
theorem Laid.all_shown (hl : Laid there (cs ++ bs) f g) (hfit : Fit bs)
    (hclear : (bs.map span).Pairwise Clear) (hb : b ∈ bs) (ha : there a) (h : Covers b a) :
    g a = b.2.get ⟨_, h⟩ := by
  obtain ⟨xs, ys, rfl⟩ := List.append_of_mem hb
  rw [← List.append_assoc] at hl
  refine hl.shown ha h fun c hc hcover => ?_
  have hlater : Clear (span b) (span c) := by
    rw [List.map_append, List.map_cons, List.pairwise_append] at hclear
    exact (List.pairwise_cons.mp hclear.2.1).1 _ (List.mem_map_of_mem hc)
  have hcmem : c ∈ xs ++ b :: ys := List.mem_append_right _ (List.mem_cons_of_mem b hc)
  have hb' := (covers_iff (hfit b hb)).mp h
  have hc' := (covers_iff (hfit c hcmem)).mp hcover
  rcases hlater with hlt | hlt <;> omega

end Overlay
