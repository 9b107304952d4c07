import X86Emu.Devices.Pic

/-!
# The interrupt controllers over whole runs

Requests, in-service lines and vectors of the cascaded pair, over any sequence of raises,
acknowledges, mask writes and end-of-interrupt commands after initialisation.
-/
namespace X86Emu

namespace Pic

variable (p : Pic)

/-! ## Lines -/

def requested (line : Nat) : Bool :=
  if line < 8 then p.masterIrr.getLsbD line else p.slaveIrr.getLsbD (line - 8)

/-- A slave line is masked by its own bit or by the cascade line's. -/
def masked (line : Nat) : Bool :=
  if line < 8 then p.masterImr.getLsbD line
  else p.slaveImr.getLsbD (line - 8) || p.masterImr.getLsbD 2

/-- In service, the master's cascade bit apart. -/
def inService (line : Nat) : Bool :=
  if line < 8 then line != 2 && p.masterIsr.getLsbD line else p.slaveIsr.getLsbD (line - 8)

/-- The place of a line in the fixed order 0, 1, 8..15, 3..7. -/
def rank (line : Nat) : Nat :=
  if line < 2 then line else if line < 8 then line + 7 else line - 6

/-- The pair as an initialisation leaves it, its requests and masks aside. -/
structure Ready : Prop where
  cascade : p.cascadeIrq = 2
  decoded : p.icw2Pending = false
  masterBase : p.masterBase.toNat % 8 = 0
  slaveBase : p.slaveBase.toNat % 8 = 0

structure Fresh : Prop extends Ready p where
  masterIsr : p.masterIsr = 0
  slaveIsr : p.slaveIsr = 0

/-! ## The priority walks -/

/-- Neither in service nor deliverable. -/
def slaveQuiet (j : Nat) : Prop :=
  p.slaveIsr.getLsbD j = false ∧ (p.slaveIrr &&& ~~~p.slaveImr).getLsbD j = false

def masterQuiet (i : Nat) : Prop :=
  p.masterIsr.getLsbD i = false ∧ (p.masterIrr &&& ~~~p.masterImr).getLsbD i = false

theorem slaveWalk_nothing (n : Nat) : ∀ s, p.slaveWalk (List.range' s n) = .nothing →
    ∀ j, s ≤ j → j < s + n → p.slaveQuiet j := by
  induction n with
  | zero =>
    intro s _ j h1 h2
    omega
  | succ n ih =>
    intro s h j h1 h2
    rw [List.range'_succ, slaveWalk] at h
    by_cases hi : p.slaveIsr.getLsbD s = true
    · simp [hi] at h
    · by_cases hp : (p.slaveIrr &&& ~~~p.slaveImr).getLsbD s = true
      · rw [if_neg hi, if_pos hp] at h
        cases h
      · rw [if_neg hi, if_neg hp] at h
        by_cases hj : j = s
        · subst hj
          exact ⟨by simpa using hi, by simpa using hp⟩
        · exact ih (s + 1) h j (by omega) (by omega)

theorem slaveWalk_found (n : Nat) : ∀ s irq, p.slaveWalk (List.range' s n) = .found irq →
    ∃ j, s ≤ j ∧ j < s + n ∧ irq = 8 + j ∧ p.slaveIsr.getLsbD j = false ∧
      (p.slaveIrr &&& ~~~p.slaveImr).getLsbD j = true ∧
      ∀ k, s ≤ k → k < j → p.slaveQuiet k := by
  induction n with
  | zero =>
    intro s irq h
    cases h
  | succ n ih =>
    intro s irq h
    rw [List.range'_succ, slaveWalk] at h
    by_cases hi : p.slaveIsr.getLsbD s = true
    · simp [hi] at h
    · by_cases hp : (p.slaveIrr &&& ~~~p.slaveImr).getLsbD s = true
      · rw [if_neg hi, if_pos hp, Walk.found.injEq] at h
        refine ⟨s, le_refl s, by omega, h.symm, by simpa using hi, hp, ?_⟩
        intro k h1 h2
        omega
      · rw [if_neg hi, if_neg hp] at h
        obtain ⟨j, h1, h2, hirq, hj, hpj, hk⟩ := ih (s + 1) irq h
        refine ⟨j, by omega, by omega, hirq, hj, hpj, ?_⟩
        intro k hk1 hk2
        by_cases hks : k = s
        · subst hks
          exact ⟨by simpa using hi, by simpa using hp⟩
        · exact hk k (by omega) hk2

/-- What the master's walk has seen of the slave once it is past the cascade line. -/
def passedCascade : Prop :=
  p.masterIsr.getLsbD 2 = false ∧ (p.masterImr.getLsbD 2 = true ∨ ∀ j < 8, p.slaveQuiet j)

theorem cascade_eq (hc : p.cascadeIrq = 2) {i : Nat} (hi : i < 8) :
    ((1 : U8) <<< i = (1 : U8) <<< p.cascadeIrq.toNat) ↔ i = 2 := by
  rw [hc]
  interval_cases i <;> decide

theorem masterWalk_step (hc : p.cascadeIrq = 2) {i : Nat} (hi : i < 8) (is : List Nat) :
    p.masterWalk (i :: is) =
      if i = 2 then
        match if p.masterImr.getLsbD 2 then .nothing else p.slaveWalk (List.range' 0 8) with
        | .nothing => if p.masterIsr.getLsbD 2 then .blocked else p.masterWalk is
        | w => w
      else if p.masterIsr.getLsbD i then .blocked
      else if (p.masterIrr &&& ~~~p.masterImr).getLsbD i then .found i
      else p.masterWalk is := by
  have hne : ((1 : U8) <<< i != (1 : U8) <<< p.cascadeIrq.toNat) = decide (i ≠ 2) := by
    by_cases h : i = 2
    · rw [(p.cascade_eq hc hi).mpr h]
      simp [h]
    · have hb : ¬ (1 : U8) <<< i = (1 : U8) <<< p.cascadeIrq.toNat :=
        fun he => h ((p.cascade_eq hc hi).mp he)
      rw [bne, beq_eq_false_iff_ne.mpr hb, decide_eq_true h]
      rfl
  have hbit : (1 : U8) <<< p.cascadeIrq.toNat = (1 : U8) <<< 2 := by rw [hc]; rfl
  rw [masterWalk]
  simp only [hne, p.cascade_eq hc hi, test_bit _ hi]
  rw [hbit, test_bit _ (by omega : 2 < 8), List.range_eq_range']
  by_cases h : i = 2
  · subst h
    exact if_neg (by simp)
  · simp [h]

/-- The line a walk finds, and what it passed on the way there. -/
theorem masterWalk_found (hc : p.cascadeIrq = 2) (n : Nat) : ∀ s irq, s + n = 8 →
    p.masterWalk (List.range' s n) = .found irq →
    ∃ i, s ≤ i ∧ i < 8 ∧ (∀ k, s ≤ k → k < i → k ≠ 2 → p.masterQuiet k) ∧
      (s ≤ 2 → 2 < i → p.passedCascade) ∧
      ((i ≠ 2 ∧ irq = i ∧ p.masterIsr.getLsbD i = false ∧
          (p.masterIrr &&& ~~~p.masterImr).getLsbD i = true) ∨
        (i = 2 ∧ p.masterImr.getLsbD 2 = false ∧
          p.slaveWalk (List.range' 0 8) = .found irq)) := by
  induction n with
  | zero =>
    intro s irq _ h
    cases h
  | succ n ih =>
    intro s irq hs h
    rw [List.range'_succ, p.masterWalk_step hc (by omega)] at h
    by_cases h2 : s = 2
    · subst h2
      rw [if_pos rfl] at h
      by_cases hm : p.masterImr.getLsbD 2 = true
      · rw [if_pos hm] at h
        by_cases hi : p.masterIsr.getLsbD 2 = true
        · simp [hi] at h
        · rw [if_neg hi] at h
          obtain ⟨i, h1, h2, hk, -, hf⟩ := ih 3 irq (by omega) h
          refine ⟨i, by omega, h2, ?_, ?_, ?_⟩
          · intro k hk1 hk2 hk3
            exact hk k (by omega) hk2 hk3
          · intro _ _
            exact ⟨by simpa using hi, .inl hm⟩
          · rcases hf with hf | hf
            · exact .inl hf
            · omega
      · rw [if_neg hm] at h
        cases hw : p.slaveWalk (List.range' 0 8) with
        | blocked => simp [hw] at h
        | found j =>
          rw [hw] at h
          refine ⟨2, le_refl 2, by omega, ?_, ?_, .inr ⟨rfl, by simpa using hm, ?_⟩⟩
          · intro k hk1 hk2
            omega
          · intro _ h3
            omega
          · exact h
        | nothing =>
          rw [hw] at h
          by_cases hi : p.masterIsr.getLsbD 2 = true
          · simp [hi] at h
          · simp only [hi, Bool.false_eq_true, if_false] at h
            obtain ⟨i, h1, h2, hk, -, hf⟩ := ih 3 irq (by omega) h
            refine ⟨i, by omega, h2, ?_, ?_, ?_⟩
            · intro k hk1 hk2 hk3
              exact hk k (by omega) hk2 hk3
            · intro _ _
              refine ⟨by simpa using hi, .inr ?_⟩
              intro j hj
              exact p.slaveWalk_nothing 8 0 hw j (by omega) (by omega)
            · rcases hf with hf | hf
              · exact .inl hf
              · omega
    · rw [if_neg h2] at h
      by_cases hi : p.masterIsr.getLsbD s = true
      · simp [hi] at h
      · by_cases hp : (p.masterIrr &&& ~~~p.masterImr).getLsbD s = true
        · rw [if_neg hi, if_pos hp, Walk.found.injEq] at h
          refine ⟨s, le_refl s, by omega, ?_, ?_, .inl ⟨h2, h.symm, by simpa using hi, hp⟩⟩
          · intro k hk1 hk2
            omega
          · intro _ _
            omega
        · rw [if_neg hi, if_neg hp] at h
          obtain ⟨i, h1, h2', hk, hpass, hf⟩ := ih (s + 1) irq (by omega) h
          refine ⟨i, by omega, h2', ?_, ?_, hf⟩
          · intro k hk1 hk2 hk3
            by_cases hks : k = s
            · subst hks
              exact ⟨by simpa using hi, by simpa using hp⟩
            · exact hk k (by omega) hk2 hk3
          · intro hs2 hi2
            exact hpass (by omega) hi2

/-- The lines before the one found are quiet, the slave's too once the cascade line is passed. -/
theorem nextIrq_found (hc : p.cascadeIrq = 2) {irq : Nat} (h : p.nextIrq = some irq) :
    (irq < 8 ∧ irq ≠ 2 ∧ p.masterIsr.getLsbD irq = false ∧
      (p.masterIrr &&& ~~~p.masterImr).getLsbD irq = true ∧
      (∀ k < irq, k ≠ 2 → p.masterQuiet k) ∧ (2 < irq → p.passedCascade)) ∨
    (∃ j < 8, irq = 8 + j ∧ p.masterImr.getLsbD 2 = false ∧ p.slaveIsr.getLsbD j = false ∧
      (p.slaveIrr &&& ~~~p.slaveImr).getLsbD j = true ∧
      (∀ k < 2, p.masterQuiet k) ∧ ∀ k < j, p.slaveQuiet k) := by
  have hw : p.masterWalk (List.range' 0 8) = .found irq := by
    rw [nextIrq, List.range_eq_range'] at h
    cases hm : p.masterWalk (List.range' 0 8) with
    | found i =>
      rw [hm] at h
      exact congrArg Walk.found (Option.some.inj h)
    | blocked =>
      rw [hm] at h
      cases h
    | nothing =>
      rw [hm] at h
      cases h
  obtain ⟨i, -, h8, hq, hpass, ⟨h2, rfl, hi, hpend⟩ | ⟨rfl, hm, hs⟩⟩ :=
    p.masterWalk_found hc 8 0 irq rfl hw
  · refine .inl ⟨h8, h2, hi, hpend, ?_, hpass (by omega)⟩
    intro k hk hk2
    exact hq k (by omega) hk hk2
  · obtain ⟨j, -, hj, hirq, hisr, hpend, hk⟩ := p.slaveWalk_found 8 0 irq hs
    refine .inr ⟨j, by omega, hirq, hm, hisr, hpend, ?_, ?_⟩
    · intro k hk2
      exact hq k (by omega) hk2 (by omega)
    · intro k hkj
      exact hk k (by omega) hkj

/-! ## Acknowledging -/

/-- `line` was delivered as vector `v`: what it was before, and what moved. -/
structure Delivered (line : Nat) (v : U8) (q : Pic) : Prop where
  line_lt : line < 16
  requested : p.requested line = true
  unmasked : p.masked line = false
  vector : v.toNat = (if line < 8 then p.masterBase else p.slaveBase).toNat + line % 8
  requests : ∀ k < 16, q.requested k = (p.requested k && k != line)
  services : ∀ k < 16, q.inService k = (p.inService k || k == line)
  masks : q.masterImr = p.masterImr ∧ q.slaveImr = p.slaveImr
  ready : q.Ready

/-- Strictly more urgent than everything in service. -/
def outranks (line : Nat) : Prop := ∀ k < 16, p.inService k = true → rank line < rank k

theorem clear_bit (v : U8) {i k : Nat} (hk : k < 8) :
    (v &&& ~~~((1 : U8) <<< i)).getLsbD k = (v.getLsbD k && k != i) := by
  rw [one_shiftLeft, BitVec.getLsbD_and, BitVec.getLsbD_not, BitVec.getLsbD_twoPow]
  by_cases h : i = k
  · subst h
    simp
  · simp [hk, h, Ne.symm h]

theorem set_bit (v : U8) {i k : Nat} (hk : k < 8) :
    (v ||| (1 : U8) <<< i).getLsbD k = (v.getLsbD k || k == i) := by
  rw [one_shiftLeft, BitVec.getLsbD_or, BitVec.getLsbD_twoPow]
  by_cases h : i = k
  · subst h
    simp [hk]
  · simp [h, Ne.symm h]

theorem pending_bits {irr imr : U8} {i : Nat} (h : (irr &&& ~~~imr).getLsbD i = true) :
    irr.getLsbD i = true ∧ imr.getLsbD i = false := by
  rw [BitVec.getLsbD_and, BitVec.getLsbD_not] at h
  simp only [Bool.and_eq_true, Bool.not_eq_true', decide_eq_true_eq] at h
  exact ⟨h.1, h.2.2⟩

theorem vector_toNat {base : U8} {i : Nat} (hb : base.toNat % 8 = 0) (hi : i < 8) :
    (base + BitVec.ofNat 8 i).toNat = base.toNat + i := by
  have := base.isLt
  rw [BitVec.toNat_add, BitVec.toNat_ofNat]
  omega

theorem delivered_master (hr : p.Ready) {i : Nat} (hi : i < 8) (h2 : i ≠ 2)
    (hp : (p.masterIrr &&& ~~~p.masterImr).getLsbD i = true) :
    p.Delivered i (p.masterBase + BitVec.ofNat 8 i)
      { p with
        masterIrr := p.masterIrr &&& ~~~((1 : U8) <<< i)
        masterIsr := p.masterIsr ||| (1 : U8) <<< i } where
  line_lt := by omega
  requested := by simp [requested, hi, (pending_bits hp).1]
  unmasked := by
    rw [masked, if_pos hi]
    exact (pending_bits hp).2
  vector := by
    rw [if_pos hi, Nat.mod_eq_of_lt hi]
    exact vector_toNat hr.masterBase hi
  requests := by
    intro k hk
    by_cases h : k < 8
    · simp only [requested, h, if_true]
      exact clear_bit _ h
    · have hne : (k != i) = true := by simp; omega
      simp [requested, h, hne]
  services := by
    intro k hk
    by_cases h : k < 8
    · simp only [inService, h, if_true, set_bit _ h]
      by_cases hki : k = i
      · subst hki
        simp [h2]
      · rw [beq_eq_false_iff_ne.mpr hki, Bool.or_false, Bool.or_false]
    · have hne : (k == i) = false := by simp; omega
      simp [inService, h, hne]
  masks := ⟨rfl, rfl⟩
  ready := ⟨hr.cascade, hr.decoded, hr.masterBase, hr.slaveBase⟩

theorem delivered_slave (hr : p.Ready) {j : Nat} (hj : j < 8)
    (hp : (p.slaveIrr &&& ~~~p.slaveImr).getLsbD j = true) (hm : p.masterImr.getLsbD 2 = false) :
    p.Delivered (8 + j) (p.slaveBase + BitVec.ofNat 8 j)
      { p with
        slaveIrr := p.slaveIrr &&& ~~~((1 : U8) <<< j)
        slaveIsr := p.slaveIsr ||| (1 : U8) <<< j
        masterIsr := p.masterIsr ||| (1 : U8) <<< p.cascadeIrq.toNat } where
  line_lt := by omega
  requested := by simp [requested, (pending_bits hp).1]
  unmasked := by
    simp only [masked, show ¬ 8 + j < 8 by omega, if_false, Nat.add_sub_cancel_left,
      (pending_bits hp).2, hm]
    rfl
  vector := by
    rw [if_neg (by omega), show (8 + j) % 8 = j by omega]
    exact vector_toNat hr.slaveBase hj
  requests := by
    intro k hk
    by_cases h : k < 8
    · have hne : (k != 8 + j) = true := by simp; omega
      simp [requested, h, hne]
    · have hkj : (k != 8 + j) = (k - 8 != j) := by
        rw [Bool.eq_iff_iff]
        simp only [bne_iff_ne, ne_eq]
        omega
      simp only [requested, h, if_false, hkj]
      exact clear_bit _ (by omega)
  services := by
    intro k hk
    have hc : p.cascadeIrq.toNat = 2 := by rw [hr.cascade]; rfl
    by_cases h : k < 8
    · have hne : (k == 8 + j) = false := by simp; omega
      simp only [inService, h, if_true, hc, set_bit _ h, hne, Bool.or_false]
      by_cases hk2 : k = 2
      · simp [hk2]
      · rw [beq_eq_false_iff_ne.mpr hk2, Bool.or_false]
    · have hkj : (k == 8 + j) = (k - 8 == j) := by
        rw [Bool.eq_iff_iff]
        simp only [beq_iff_eq]
        omega
      simp only [inService, h, if_false, hkj]
      exact set_bit _ (by omega)
  masks := ⟨rfl, rfl⟩
  ready := ⟨hr.cascade, hr.decoded, hr.masterBase, hr.slaveBase⟩

/-- An acknowledge delivers the line the walk found. -/
theorem acknowledge_delivered (hr : p.Ready) {line : Nat} (h : p.nextIrq = some line) :
    ∃ v, p.acknowledge.1 = some v ∧ p.Delivered line v p.acknowledge.2 := by
  rcases p.nextIrq_found hr.cascade h with ⟨h8, h2, -, hp, -, -⟩ | ⟨j, hj, rfl, hm, -, hp, -, -⟩
  · rw [acknowledge, h]
    dsimp only
    rw [if_neg (by omega)]
    exact ⟨_, rfl, p.delivered_master hr h8 h2 hp⟩
  · rw [acknowledge, h]
    dsimp only
    rw [if_pos (by omega), Nat.add_sub_cancel_left]
    exact ⟨_, rfl, p.delivered_slave hr hj hp hm⟩

theorem acknowledge_none (h : p.nextIrq = none) : p.acknowledge = (none, p) := by
  rw [acknowledge, h]

/-! ## Priority

The slave's in-service lines are seen from the master only through the cascade line: through its
in-service bit, or by walking the slave, which a masked cascade line skips. -/

/-- A slave line is in service behind a cascade line that is masked and not in service, and a
master line below it is the first one requested. -/
def Leak : Prop :=
  p.masterImr.getLsbD 2 = true ∧ p.masterIsr.getLsbD 2 = false ∧ p.slaveIsr ≠ 0 ∧
    (∀ k < 2, p.masterQuiet k) ∧
    ∃ i, 3 ≤ i ∧ i < 8 ∧ (p.masterIrr &&& ~~~p.masterImr).getLsbD i = true ∧
      ∀ k, 3 ≤ k → k ≤ i → p.masterIsr.getLsbD k = false

theorem exists_bit_of_ne_zero {v : U8} (h : v ≠ 0) : ∃ j < 8, v.getLsbD j = true := by
  by_contra hno
  apply h
  apply BitVec.eq_of_getLsbD_eq
  intro i hi
  have hv : ¬ v.getLsbD i = true := fun hb => hno ⟨i, hi, hb⟩
  simpa using hv

/-- From line 3 on the walk finds a line no later than the first one requested. -/
theorem masterWalk_finds (hc : p.cascadeIrq = 2) (n : Nat) : ∀ s i, s + n = 8 → 3 ≤ s → s ≤ i →
    i < 8 → (p.masterIrr &&& ~~~p.masterImr).getLsbD i = true →
    (∀ k, s ≤ k → k ≤ i → p.masterIsr.getLsbD k = false) →
    ∃ j, 3 ≤ j ∧ j < 8 ∧ p.masterWalk (List.range' s n) = .found j := by
  induction n with
  | zero =>
    intro s i hs h3 h1 h2
    omega
  | succ n ih =>
    intro s i hs h3 h1 h2 hp hk
    rw [List.range'_succ, p.masterWalk_step hc (by omega), if_neg (by omega),
      if_neg (Bool.eq_false_iff.mp (hk s (le_refl s) h1))]
    by_cases hps : (p.masterIrr &&& ~~~p.masterImr).getLsbD s = true
    · rw [if_pos hps]
      exact ⟨s, h3, by omega, rfl⟩
    · rw [if_neg hps]
      have hne : s ≠ i := fun he => hps (he ▸ hp)
      exact ih (s + 1) i (by omega) (by omega) (by omega) h2 hp (fun k h4 h5 => hk k (by omega) h5)

theorem nextIrq_of_leak (hc : p.cascadeIrq = 2) (h : p.Leak) :
    ∃ j, 3 ≤ j ∧ j < 8 ∧ p.nextIrq = some j := by
  obtain ⟨hm, hi2, -, hq, i, h3, h8, hp, hk⟩ := h
  obtain ⟨j, hj3, hj8, hw⟩ := p.masterWalk_finds hc 5 3 i rfl (le_refl 3) h3 h8 hp hk
  refine ⟨j, hj3, hj8, ?_⟩
  have h0 := hq 0 (by omega)
  have h1 := hq 1 (by omega)
  have hall : p.masterWalk (List.range 8) = .found j := by
    rw [show List.range 8 = 0 :: 1 :: 2 :: List.range' 3 5 from rfl,
      p.masterWalk_step hc (by omega), if_neg (by omega), if_neg (Bool.eq_false_iff.mp h0.1),
      if_neg (Bool.eq_false_iff.mp h0.2), p.masterWalk_step hc (by omega), if_neg (by omega),
      if_neg (Bool.eq_false_iff.mp h1.1), if_neg (Bool.eq_false_iff.mp h1.2),
      p.masterWalk_step hc (by omega), if_pos rfl, if_pos hm]
    dsimp only
    rw [if_neg (Bool.eq_false_iff.mp hi2), hw]
  rw [nextIrq, hall]

/-- The line found outranks everything in service exactly when nothing leaks past the cascade. -/
theorem outranks_iff (hc : p.cascadeIrq = 2) {line : Nat} (h : p.nextIrq = some line) :
    p.outranks line ↔ ¬ p.Leak := by
  constructor
  · intro ho hl
    obtain ⟨j, h3, h8, hj⟩ := p.nextIrq_of_leak hc hl
    obtain rfl : j = line := Option.some.inj (hj.symm.trans h)
    obtain ⟨k, hk, hks⟩ := exists_bit_of_ne_zero hl.2.2.1
    have hserv : p.inService (8 + k) = true := by simp [inService, hks]
    have := ho (8 + k) (by omega) hserv
    rw [rank, rank, if_neg (by omega), if_pos h8, if_neg (by omega), if_neg (by omega)] at this
    omega
  · intro hl k hk hs
    rcases p.nextIrq_found hc h with ⟨h8, h2, hisr, hp, hq, hpass⟩ | ⟨j, hj, rfl, -, hisr, -, hq, hqs⟩
    · by_cases hk8 : k < 8
      · simp only [inService, hk8, if_true, Bool.and_eq_true, bne_iff_ne, ne_eq] at hs
        have hgt : line < k := by
          rcases Nat.lt_trichotomy k line with hlt | rfl | hgt
          · have := (hq k hlt hs.1).1
            simp [this] at hs
          · simp [hisr] at hs
          · exact hgt
        unfold rank
        split <;> split <;> omega
      · simp only [inService, hk8, if_false] at hs
        by_cases hlt : line < 2
        · unfold rank
          rw [if_pos hlt, if_neg (by omega), if_neg hk8]
          omega
        · obtain ⟨h2isr, hm | hquiet⟩ := hpass (by omega)
          · refine absurd ⟨hm, h2isr, ?_, ?_, line, by omega, h8, hp, ?_⟩ hl
            · intro h0
              simp [h0] at hs
            · intro i hi
              exact hq i (by omega) (by omega)
            · intro i hi3 hi
              by_cases hil : i = line
              · exact hil ▸ hisr
              · exact (hq i (by omega) (by omega)).1
          · have := (hquiet (k - 8) (by omega)).1
            simp [this] at hs
    · by_cases hk8 : k < 8
      · simp only [inService, hk8, if_true, Bool.and_eq_true, bne_iff_ne, ne_eq] at hs
        have hk2 : ¬ k < 2 := by
          intro hlt
          simp [(hq k hlt).1] at hs
        unfold rank
        rw [if_neg (by omega), if_neg (by omega), if_neg hk2, if_pos hk8]
        omega
      · simp only [inService, hk8, if_false] at hs
        have hgt : j < k - 8 := by
          rcases Nat.lt_trichotomy (k - 8) j with hlt | heq | hgt
          · simp [(hqs (k - 8) hlt).1] at hs
          · simp [heq, hisr] at hs
          · exact hgt
        unfold rank
        rw [if_neg (by omega), if_neg (by omega), if_neg (by omega), if_neg hk8]
        omega

/-- Everything an acknowledge promises in the state it is made in. -/
structure AckOk : Prop where
  some_iff : p.acknowledge.1.isSome = p.hasPending
  idle : p.hasPending = false → p.acknowledge.2 = p
  delivers : ∀ v, p.acknowledge.1 = some v →
    ∃ line, p.Delivered line v p.acknowledge.2 ∧ p.outranks line

theorem Delivered.line_unique {p q : Pic} {i j : Nat} {v w : U8} (hi : p.Delivered i v q)
    (hj : p.Delivered j w q) : i = j := by
  have h1 := hi.requests i hi.line_lt
  have h2 := hj.requests i hi.line_lt
  rw [h1, hi.requested] at h2
  simpa using h2

theorem ackOk_iff (hr : p.Ready) : p.AckOk ↔ ¬ p.Leak := by
  cases h : p.nextIrq with
  | none =>
    have hack := p.acknowledge_none h
    constructor
    · intro _ hl
      obtain ⟨j, -, -, hj⟩ := p.nextIrq_of_leak hr.cascade hl
      rw [h] at hj
      cases hj
    · intro _
      refine ⟨?_, ?_, ?_⟩
      · rw [hack, hasPending, h]
        rfl
      · intro _
        rw [hack]
      · intro v hv
        rw [hack] at hv
        cases hv
  | some line =>
    obtain ⟨v, hv, hd⟩ := p.acknowledge_delivered hr h
    rw [← p.outranks_iff hr.cascade h]
    constructor
    · intro hok
      obtain ⟨l, hl, ho⟩ := hok.delivers v hv
      rw [hd.line_unique hl]
      exact ho
    · intro ho
      refine ⟨?_, ?_, ?_⟩
      · rw [hv, hasPending, h]
        rfl
      · intro hno
        rw [hasPending, h] at hno
        cases hno
      · intro w hw
        obtain rfl : v = w := Option.some.inj (hv.symm.trans hw)
        exact ⟨line, hd, ho⟩

/-! ## Runs -/

/-- What the machine does to the pair once both chips are initialised. -/
inductive Op where
  | raise (line : Fin 16)
  | acknowledge
  /-- OCW1: the mask register of one chip. -/
  | mask (slave : Bool) (v : U8)
  /-- OCW2: bits 4:3 clear. -/
  | ocw2 (slave : Bool) (v : U8) (isOcw2 : v &&& 0x18 = 0)

def step (p : Pic) : Op → Pic
  | .raise line => p.raiseIrq line
  | .acknowledge => p.acknowledge.2
  | .mask slave v => p.writeData (if slave then 0xA1 else 0x21) v
  | .ocw2 slave v _ => p.writeCommand (if slave then 0xA0 else 0x20) v

def run (p : Pic) (ops : List Op) : Pic := ops.foldl step p

/-- The line an operation delivers. -/
def taken (p : Pic) : Op → Option Nat
  | .acknowledge => p.nextIrq
  | _ => none

def raised (line : Nat) : Op → Bool
  | .raise l => l == line
  | _ => false

def deliveries (line : Nat) : Pic → List Op → Nat
  | _, [] => 0
  | p, op :: ops => (if p.taken op = some line then 1 else 0) + deliveries line (p.step op) ops

def raises (line : Nat) (ops : List Op) : Nat := ops.countP (raised line)

/-- An end of interrupt to the master that names the cascade line, or finds it the first in
service. -/
def endsCascade (p : Pic) : Op → Prop
  | .ocw2 false v _ => p.masterIsr.getLsbD 2 = true ∧ (ocw2 p.masterIsr v).getLsbD 2 = false
  | _ => False

/-- The master keeps the cascade line in service while the slave has anything in service. -/
def CascadeHeld : Prop := p.slaveIsr ≠ 0 → p.masterIsr.getLsbD 2 = true

theorem step_raise (line : Fin 16) :
    p.step (.raise line) =
      if line.val < 8 then { p with masterIrr := p.masterIrr ||| (1 : U8) <<< line.val }
      else { p with slaveIrr := p.slaveIrr ||| (1 : U8) <<< (line.val - 8) } := rfl

theorem writeData_mask (h : p.icw2Pending = false) (slave : Bool) (v : U8) :
    p.step (.mask slave v) =
      if slave then { p with slaveImr := v } else { p with masterImr := v } := by
  cases slave <;> simp [step, writeData, h]

theorem writeCommand_ocw2 (slave : Bool) {v : U8} (h : v &&& 0x18 = 0) :
    p.step (.ocw2 slave v h) =
      if slave then
        { p with
          slaveIsr := ocw2 p.slaveIsr v
          masterIsr := if ocw2 p.slaveIsr v = 0 then
              p.masterIsr &&& ~~~((1 : U8) <<< p.cascadeIrq.toNat)
            else p.masterIsr }
      else { p with masterIsr := ocw2 p.masterIsr v } := by
  have h10 : test v 0x10 = false := by
    have h16 : v &&& 0x10 = v &&& 0x18 &&& 0x10 := by
      rw [BitVec.and_assoc]
      rfl
    rw [test, h16, h]
    rfl
  have hstep : p.step (.ocw2 slave v h) = p.writeCommand (if slave then 0xA0 else 0x20) v := rfl
  rw [hstep, writeCommand, h10]
  cases slave with
  | false =>
    have hport : ((0x20 : U8) == 0xA0) = false := by decide
    simp only [h, Bool.false_eq_true, if_false, if_true, hport, Bool.false_and]
  | true =>
    by_cases hz : ocw2 p.slaveIsr v = 0
    · simp only [h, hz, Bool.false_eq_true, if_false, if_true, BEq.rfl, Bool.true_and]
    · simp only [h, hz, Bool.false_eq_true, if_false, if_true, BEq.rfl, Bool.true_and,
        beq_eq_false_iff_ne.mpr hz]

theorem ready_step (hr : p.Ready) (op : Op) : (p.step op).Ready := by
  cases op with
  | raise line =>
    rw [step_raise]
    by_cases h : line.val < 8
    · rw [if_pos h]
      exact ⟨hr.cascade, hr.decoded, hr.masterBase, hr.slaveBase⟩
    · rw [if_neg h]
      exact ⟨hr.cascade, hr.decoded, hr.masterBase, hr.slaveBase⟩
  | acknowledge =>
    cases h : p.nextIrq with
    | none =>
      rw [step, p.acknowledge_none h]
      exact hr
    | some line =>
      obtain ⟨v, -, hd⟩ := p.acknowledge_delivered hr h
      exact hd.ready
  | mask slave v =>
    rw [p.writeData_mask hr.decoded]
    cases slave <;> exact ⟨hr.cascade, hr.decoded, hr.masterBase, hr.slaveBase⟩
  | ocw2 slave v h =>
    rw [p.writeCommand_ocw2 slave h]
    cases slave <;> exact ⟨hr.cascade, hr.decoded, hr.masterBase, hr.slaveBase⟩

theorem ready_run (hr : p.Ready) (ops : List Op) : (p.run ops).Ready := by
  induction ops generalizing p with
  | nil => exact hr
  | cons op ops ih => exact ih (p.step op) (p.ready_step hr op)

/-- A request goes only when it is delivered, and comes only when it is raised. -/
theorem requested_step (hr : p.Ready) (op : Op) {line : Nat} (hl : line < 16) :
    (p.step op).requested line =
      (p.requested line && p.taken op != some line || raised line op) := by
  cases op with
  | raise l =>
    have hlt := l.isLt
    have hr' : raised line (.raise l) = (line == l.val) := by
      rw [raised, Bool.eq_iff_iff]
      simp only [beq_iff_eq]
      exact eq_comm
    rw [hr']
    have hne : (p.taken (.raise l) != some line) = true := rfl
    rw [hne, Bool.and_true]
    rw [step_raise]
    by_cases h8 : l.val < 8
    · rw [if_pos h8]
      by_cases hk : line < 8
      · simp only [requested, hk, if_true]
        exact set_bit _ hk
      · have hne : (line == l.val) = false := beq_eq_false_iff_ne.mpr (by omega)
        simp only [requested, hk, if_false, hne, Bool.or_false]
    · rw [if_neg h8]
      by_cases hk : line < 8
      · have hne : (line == l.val) = false := beq_eq_false_iff_ne.mpr (by omega)
        simp only [requested, hk, if_true, hne, Bool.or_false]
      · have he : (line == l.val) = (line - 8 == l.val - 8) := by
          rw [Bool.eq_iff_iff]
          simp only [beq_iff_eq]
          omega
        simp only [requested, hk, if_false, he]
        exact set_bit _ (by omega)
  | acknowledge =>
    simp only [raised, Bool.or_false, taken]
    cases h : p.nextIrq with
    | none =>
      rw [step, p.acknowledge_none h]
      simp
    | some i =>
      obtain ⟨v, -, hd⟩ := p.acknowledge_delivered hr h
      rw [step, hd.requests line hl]
      congr 1
      rw [Bool.eq_iff_iff]
      simp only [bne_iff_ne, ne_eq, Option.some.injEq]
      exact not_congr eq_comm
  | mask slave v =>
    rw [p.writeData_mask hr.decoded]
    cases slave <;> simp [requested, taken, raised]
  | ocw2 slave v h =>
    rw [p.writeCommand_ocw2 slave h]
    cases slave <;> simp [requested, taken, raised]

/-- Only a latched request is delivered. -/
theorem requested_of_taken (hr : p.Ready) {op : Op} {line : Nat} (h : p.taken op = some line) :
    p.requested line = true ∧ line < 16 := by
  cases op with
  | acknowledge =>
    obtain ⟨v, -, hd⟩ := p.acknowledge_delivered hr h
    exact ⟨hd.requested, hd.line_lt⟩
  | raise l => cases h
  | mask slave v => cases h
  | ocw2 slave v h' => cases h

/-- No line is delivered more often than it is raised, a request left over counted once. -/
theorem deliveries_le (hr : p.Ready) (ops : List Op) {line : Nat} (hl : line < 16) :
    deliveries line p ops + ((p.run ops).requested line).toNat ≤
      raises line ops + (p.requested line).toNat := by
  induction ops generalizing p with
  | nil => simp [deliveries, raises, run]
  | cons op ops ih =>
    have h := ih (p.step op) (p.ready_step hr op)
    have hs := p.requested_step hr op hl
    have hrun : p.run (op :: ops) = (p.step op).run ops := rfl
    rw [hrun, deliveries, raises, List.countP_cons]
    rw [raises] at h
    by_cases ht : p.taken op = some line
    · have hq := (p.requested_of_taken hr ht).1
      simp only [ht, bne_self_eq_false, Bool.and_false, Bool.false_or] at hs
      rw [hs] at h
      rw [if_pos ht, hq]
      cases hra : raised line op <;> simp [hra] at h ⊢ <;> omega
    · rw [if_neg ht]
      simp only [bne_iff_ne.mpr ht, Bool.and_true] at hs
      rw [hs] at h
      cases hra : raised line op <;> cases hq : p.requested line <;>
        simp [hra, hq] at h ⊢ <;> omega

/-- A latched request that is not delivered stays latched. -/
theorem requested_run (hr : p.Ready) (ops : List Op) {line : Nat} (hl : line < 16)
    (hd : deliveries line p ops = 0) (hq : p.requested line = true ∨ 0 < raises line ops) :
    (p.run ops).requested line = true := by
  induction ops generalizing p with
  | nil =>
    rcases hq with hq | hq
    · exact hq
    · cases hq
  | cons op ops ih =>
    have hnt : p.taken op ≠ some line := by
      intro ht
      rw [deliveries, if_pos ht] at hd
      omega
    rw [deliveries, if_neg hnt, Nat.zero_add] at hd
    apply ih (p.step op) (p.ready_step hr op) hd
    rw [p.requested_step hr op hl]
    rcases hq with hq | hq
    · left
      rw [hq, bne_iff_ne.mpr hnt]
      rfl
    · rw [raises, List.countP_cons] at hq
      cases hra : raised line op with
      | true => simp
      | false =>
        rw [hra] at hq
        right
        simpa [raises] using hq

theorem ocw2_zero (v : U8) : ocw2 0 v = 0 := by
  unfold ocw2
  split
  · rfl
  · split
    · simp
    · rfl

theorem cascadeHeld_step (hr : p.Ready) {op : Op} (h : p.CascadeHeld) (he : ¬ p.endsCascade op) :
    (p.step op).CascadeHeld := by
  cases op with
  | raise line =>
    rw [step_raise]
    by_cases h8 : line.val < 8
    · rw [if_pos h8]
      exact h
    · rw [if_neg h8]
      exact h
  | acknowledge =>
    cases hn : p.nextIrq with
    | none =>
      rw [step, p.acknowledge_none hn]
      exact h
    | some i =>
      have hc : p.cascadeIrq.toNat = 2 := by rw [hr.cascade]; rfl
      rw [step, acknowledge, hn]
      dsimp only
      split
      · intro _
        dsimp only
        rw [hc, set_bit _ (by omega)]
        simp
      · intro hs
        dsimp only
        rw [set_bit _ (by omega), h hs]
        rfl
  | mask slave v =>
    rw [p.writeData_mask hr.decoded]
    cases slave <;> exact h
  | ocw2 slave v hv =>
    rw [p.writeCommand_ocw2 slave hv]
    cases slave with
    | true =>
      intro hs
      have hne : ocw2 p.slaveIsr v ≠ 0 := hs
      have hold : p.slaveIsr ≠ 0 := by
        intro h0
        rw [h0, ocw2_zero] at hne
        exact hne rfl
      simp only [if_true, if_neg hne]
      exact h hold
    | false =>
      intro hs
      have h2 := h hs
      by_contra hno
      exact he ⟨h2, by simpa using hno⟩

theorem cascadeHeld_run (hr : p.Ready) (ops : List Op) (h : p.CascadeHeld)
    (he : ∀ pre op post, ops = pre ++ op :: post → ¬ (p.run pre).endsCascade op) :
    (p.run ops).CascadeHeld := by
  induction ops generalizing p with
  | nil => exact h
  | cons op ops ih =>
    apply ih (p.step op) (p.ready_step hr op) (p.cascadeHeld_step hr h (he [] op ops rfl))
    intro pre op' post heq
    exact he (op :: pre) op' post (by rw [heq]; rfl)

/-- What holds over a run: every acknowledge keeps its promises, no stretch of the run delivers a
request twice or loses one it does not deliver, and the cascade line is held while the slave is in
service. -/
structure RunOk (ops : List Op) : Prop where
  acks : ∀ pre post, ops = pre ++ .acknowledge :: post → (p.run pre).AckOk
  once : ∀ pre mid post, ops = pre ++ mid ++ post → ∀ line < 16,
    deliveries line (p.run pre) mid ≤ raises line mid + ((p.run pre).requested line).toNat
  kept : ∀ pre mid post, ops = pre ++ mid ++ post → ∀ line < 16,
    deliveries line (p.run pre) mid = 0 →
    (p.run pre).requested line = true ∨ 0 < raises line mid →
    (p.run (pre ++ mid)).requested line = true
  cascade : (∀ pre op post, ops = pre ++ op :: post → ¬ (p.run pre).endsCascade op) →
    (p.run ops).CascadeHeld

theorem run_append (pre mid : List Op) : p.run (pre ++ mid) = (p.run pre).run mid :=
  List.foldl_append

/-- A run from freshly initialised chips is as promised exactly when no acknowledge is made where a
line leaks past a masked cascade. -/
theorem runOk_iff (hf : p.Fresh) (ops : List Op) :
    p.RunOk ops ↔ ∀ pre post, ops = pre ++ .acknowledge :: post → ¬ (p.run pre).Leak := by
  have hr := hf.toReady
  constructor
  · intro h pre post heq
    exact ((p.run pre).ackOk_iff (p.ready_run hr pre)).mp (h.acks pre post heq)
  · intro h
    refine ⟨?_, ?_, ?_, ?_⟩
    · intro pre post heq
      exact ((p.run pre).ackOk_iff (p.ready_run hr pre)).mpr (h pre post heq)
    · intro pre mid _ _ line hl
      have hle := (p.run pre).deliveries_le (p.ready_run hr pre) mid hl
      omega
    · intro pre mid _ _ line hl hd hq
      rw [run_append]
      exact (p.run pre).requested_run (p.ready_run hr pre) mid hl hd hq
    · intro he
      refine p.cascadeHeld_run hr ops ?_ he
      intro hs
      exact absurd hf.slaveIsr hs

/-- The pair as reset leaves it. -/
theorem fresh_default : ({} : Pic).Fresh where
  cascade := rfl
  decoded := rfl
  masterBase := by decide
  slaveBase := by decide
  masterIsr := rfl
  slaveIsr := rfl

/-- The clock interrupt is taken, its cascade line ended at the master and masked, and then line 3
raised. -/
def leakingRun : List Op :=
  [.raise 8, .acknowledge, .ocw2 false 0x20 (by decide), .mask false 0x04, .raise 3]

/-- IRQ 3 is acknowledged while IRQ 8, which outranks it, is in service. -/
theorem acknowledge_outranked :
    ({} : Pic).Fresh ∧ ¬ ({} : Pic).RunOk (leakingRun ++ [.acknowledge]) := by
  refine ⟨fresh_default, ?_⟩
  intro h
  have hack := h.acks leakingRun [] rfl
  obtain ⟨line, hd, ho⟩ := hack.delivers 0x0B (by decide)
  have h3 : line = 3 := by
    have hreq := hd.requested
    have hlt := hd.line_lt
    interval_cases line <;> first | rfl | exact absurd hreq (by decide)
  subst h3
  exact absurd (ho 8 (by omega) (by decide)) (by decide)

theorem runOk_clock : ({} : Pic).RunOk [.raise 8, .acknowledge] := by
  refine (runOk_iff {} fresh_default _).mpr ?_
  intro pre post heq hl
  have hp : pre = [.raise 8] := by
    match pre, heq with
    | [], heq => cases heq
    | [op], heq =>
      injection heq with h1 h2
      rw [h1]
    | _ :: _ :: pre, heq =>
      have := congrArg List.length heq
      simp at this
  subst hp
  exact absurd hl.1 (by decide)

end Pic
end X86Emu
