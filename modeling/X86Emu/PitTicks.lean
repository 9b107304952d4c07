import X86Emu.Devices.Timers

/-!
# Ticks of the interval timer

How the counts of the 8254 depend on the way its input clocks are batched. A
channel that reaches zero reloads and forgets how far past zero the tick went,
channel 1 keeps only the low sixteen bits of the tick, and a count of zero
never starts.
-/
namespace X86Emu

namespace Pit

/-! ## One tick, channel by channel -/

/-- Channel 0 on numbers: its count after `t` clocks. -/
def reloaded (count reload t : Nat) : Nat :=
  if count = 0 then 0 else if count ≤ t then reload else count - t

/-- Channel 0 reaches zero during the tick. -/
def Expires (count t : Nat) : Prop := 0 < count ∧ count ≤ t

instance (count t : Nat) : Decidable (Expires count t) := inferInstanceAs (Decidable (_ ∧ _))

variable (p : Pit) (t : U64)

theorem u64_le_iff (c : U16) : u64 c ≤ t ↔ c.toNat ≤ t.toNat := by
  rw [BitVec.le_def, BitVec.toNat_setWidth_of_le (by decide)]

theorem toNat_pos_iff (c : U16) : c > 0 ↔ c.toNat ≠ 0 := by
  rw [gt_iff_lt, BitVec.lt_def, Nat.pos_iff_ne_zero.symm]
  rfl

/-- A difference taken at 64 bits is cut back to the counter without loss. -/
theorem toNat_countdown {c : U16} (h : ¬u64 c ≤ t) :
    (u16 (u64 c - t)).toNat = c.toNat - t.toNat := by
  rw [u64_le_iff] at h
  have hc := c.isLt
  have hsub : (u64 c - t).toNat = c.toNat - t.toNat := by
    have hwide : (u64 c).toNat = c.toNat := BitVec.toNat_setWidth_of_le (by decide)
    rw [BitVec.toNat_sub_of_le (BitVec.le_def.mpr (by omega)), hwide]
  rw [BitVec.toNat_setWidth, hsub, Nat.mod_eq_of_lt (by omega)]

/-- The three channels in the order the tick takes them. -/
def tickCh0 : Pit :=
  if p.ch0.count > 0 then
    if u64 p.ch0.count ≤ t then { p with ch0 := { p.ch0 with count := p.ch0.reload }, irq0 := true }
    else { p with ch0 := { p.ch0 with count := u16 (u64 p.ch0.count - t) } }
  else p

def tickCh1 : Pit :=
  if p.ch1.count > 0 then
    let c := if p.ch1.count ≤ u16 t then 0 else p.ch1.count - u16 t
    { p with ch1 := { p.ch1 with count := if c = 0 then p.ch1.reload else c } }
  else p

def tickCh2 : Pit :=
  if p.ch2Gate && !p.ch2Out then
    if u64 p.ch2.count ≤ t then { p with ch2 := { p.ch2 with count := 0 }, ch2Out := true }
    else { p with ch2 := { p.ch2 with count := u16 (u64 p.ch2.count - t) } }
  else p

theorem tick_eq : p.tick t = ((p.tickCh0 t).tickCh1 t).tickCh2 t := rfl

theorem tickCh0_frame : (p.tickCh0 t).ch1 = p.ch1 ∧ (p.tickCh0 t).ch2 = p.ch2 ∧
    (p.tickCh0 t).ch2Gate = p.ch2Gate ∧ (p.tickCh0 t).ch2Out = p.ch2Out := by
  unfold tickCh0
  split
  · split <;> exact ⟨rfl, rfl, rfl, rfl⟩
  · exact ⟨rfl, rfl, rfl, rfl⟩

theorem tickCh1_frame : (p.tickCh1 t).ch0 = p.ch0 ∧ (p.tickCh1 t).irq0 = p.irq0 ∧
    (p.tickCh1 t).ch2 = p.ch2 ∧ (p.tickCh1 t).ch2Gate = p.ch2Gate ∧
    (p.tickCh1 t).ch2Out = p.ch2Out := by
  unfold tickCh1
  split <;> exact ⟨rfl, rfl, rfl, rfl, rfl⟩

theorem tickCh2_frame : (p.tickCh2 t).ch0 = p.ch0 ∧ (p.tickCh2 t).irq0 = p.irq0 ∧
    (p.tickCh2 t).ch1 = p.ch1 ∧ (p.tickCh2 t).ch2Gate = p.ch2Gate := by
  unfold tickCh2
  split
  · split <;> exact ⟨rfl, rfl, rfl, rfl⟩
  · exact ⟨rfl, rfl, rfl, rfl⟩

/-- Channel 0 on numbers: reload at zero, and ask for the interrupt. -/
theorem tick_ch0 :
    (p.tick t).ch0.count.toNat = reloaded p.ch0.count.toNat p.ch0.reload.toNat t.toNat ∧
      (p.tick t).ch0.reload = p.ch0.reload ∧
      (p.tick t).irq0 = (p.irq0 || decide (Expires p.ch0.count.toNat t.toNat)) := by
  obtain ⟨h2, hirq2, -⟩ := tickCh2_frame ((p.tickCh0 t).tickCh1 t) t
  obtain ⟨h1, hirq1, -⟩ := tickCh1_frame (p.tickCh0 t) t
  have hexp : decide (Expires p.ch0.count.toNat t.toNat) =
      decide (0 < p.ch0.count.toNat ∧ p.ch0.count.toNat ≤ t.toNat) := rfl
  rw [tick_eq, h2, hirq2, h1, hirq1, reloaded, hexp, tickCh0]
  split
  · rename_i h0
    have hne := (toNat_pos_iff _).mp h0
    split
    · rename_i hle
      have hn := (u64_le_iff t _).mp hle
      rw [if_pos hn]
      exact ⟨rfl, rfl, by simp [hn, Nat.pos_of_ne_zero hne]⟩
    · rename_i hle
      have hn := mt (u64_le_iff t _).mpr hle
      rw [if_neg hn]
      exact ⟨toNat_countdown t hle, rfl, by simp [hn]⟩
  · rename_i h0
    have hne : p.ch0.count.toNat = 0 := not_not.mp (mt (toNat_pos_iff _).mpr h0)
    rw [if_pos hne]
    exact ⟨hne, rfl, by simp [hne]⟩

theorem tick_ch1 :
    (p.tick t).ch1.count.toNat =
        reloaded p.ch1.count.toNat p.ch1.reload.toNat (t.toNat % 2 ^ 16) ∧
      (p.tick t).ch1.reload = p.ch1.reload := by
  obtain ⟨-, -, h2, -⟩ := tickCh2_frame ((p.tickCh0 t).tickCh1 t) t
  obtain ⟨h0, -⟩ := tickCh0_frame p t
  have hlow : (u16 t).toNat = t.toNat % 2 ^ 16 := BitVec.toNat_setWidth _ _
  rw [tick_eq, h2, tickCh1, h0, reloaded]
  split
  · rename_i hpos
    have hne := (toNat_pos_iff _).mp hpos
    refine ⟨?_, rfl⟩
    dsimp only
    rw [if_neg hne]
    by_cases hle : p.ch1.count ≤ u16 t
    · rw [if_pos hle, if_pos rfl, if_pos (hlow ▸ BitVec.le_def.mp hle)]
    · have hn : ¬p.ch1.count.toNat ≤ t.toNat % 2 ^ 16 := hlow ▸ mt BitVec.le_def.mpr hle
      have hsub : (p.ch1.count - u16 t).toNat = p.ch1.count.toNat - t.toNat % 2 ^ 16 := by
        rw [BitVec.toNat_sub_of_le (BitVec.le_def.mpr (by omega)), hlow]
      have hleft : ¬p.ch1.count - u16 t = 0 := fun h => by
        have := congrArg BitVec.toNat h
        rw [hsub] at this
        simp at this
        omega
      rw [if_neg hle, if_neg hleft, if_neg hn, hsub]
  · rename_i hpos
    have hzero : p.ch1.count.toNat = 0 := not_not.mp (mt (toNat_pos_iff _).mpr hpos)
    rw [if_pos hzero]
    exact ⟨(congrArg (·.count.toNat) h0).trans hzero, congrArg PitChannel.reload h0⟩

/-- Channel 2 stops at zero with OUT high. -/
theorem tick_ch2 :
    (p.tick t).ch2Gate = p.ch2Gate ∧
      (p.tick t).ch2.count.toNat = (if p.ch2Gate && !p.ch2Out then p.ch2.count.toNat - t.toNat
        else p.ch2.count.toNat) ∧
      (p.tick t).ch2Out =
        (p.ch2Out || (p.ch2Gate && decide (p.ch2.count.toNat ≤ t.toNat))) := by
  obtain ⟨-, -, -, hg2⟩ := tickCh2_frame ((p.tickCh0 t).tickCh1 t) t
  obtain ⟨-, -, h1, hg1, ho1⟩ := tickCh1_frame (p.tickCh0 t) t
  obtain ⟨-, h0, hg0, ho0⟩ := tickCh0_frame p t
  refine ⟨(tick_eq p t ▸ hg2).trans (hg1.trans hg0), ?_⟩
  rw [tick_eq, tickCh2, hg1, hg0, ho1, ho0, h1, h0]
  split
  · rename_i hopen
    obtain ⟨hgate, hout⟩ : p.ch2Gate = true ∧ p.ch2Out = false := by simpa using hopen
    split
    · rename_i hle
      have hn := (u64_le_iff t _).mp hle
      exact ⟨(Nat.sub_eq_zero_of_le hn).symm, by simp [hgate, hn]⟩
    · rename_i hle
      have hn := mt (u64_le_iff t _).mpr hle
      exact ⟨toNat_countdown t hle, by simp [hout, hn]⟩
  · rename_i hshut
    refine ⟨by rw [h1, h0], ?_⟩
    rw [ho1, ho0]
    cases hg : p.ch2Gate <;> cases ho : p.ch2Out <;> simp [hg, ho] at hshut ⊢

/-! ## Two batches and their total -/

/-- What two batches leave is what one batch of their total leaves. -/
structure TicksAdd (p : Pit) (a b : U64) : Prop where
  ch0 : ((p.tick a).tick b).ch0.count = (p.tick (a + b)).ch0.count
  ch1 : ((p.tick a).tick b).ch1.count = (p.tick (a + b)).ch1.count
  ch2 : ((p.tick a).tick b).ch2.count = (p.tick (a + b)).ch2.count
  out : ((p.tick a).tick b).ch2Out = (p.tick (a + b)).ch2Out
  irq0 : ((p.tick a).tick b).irq0 = (p.tick (a + b)).irq0

/-- A counter that forgets its overshoot adds up when the first batch leaves it running, or when the
second one leaves the reload value alone. -/
def ReloadAdds (count reload a b : Nat) : Prop :=
  count = 0 ∨ a < count ∨ reload = 0 ∨ b = 0 ∨ reload ≤ b

/-- Channel 1 adds up like that while the two cut batches stay below 2^16. Where their total is cut
again, to `total`, the reload value has to make up for it. -/
def CutAdds (count reload a b : Nat) : Prop :=
  let total := a + b - 2 ^ 16
  if a + b < 2 ^ 16 then ReloadAdds count reload a b
  else count = 0 ∨
    if a < count then reload = count - total
    else if count ≤ total then reload = 0 ∨ reload ≤ b
    else reload ≤ b ∧ reload = count - total ∨ b < reload ∧ reload - b = count - total

theorem reloaded_add_iff (c r a b : Nat) :
    reloaded (reloaded c r a) r b = reloaded c r (a + b) ↔ ReloadAdds c r a b := by
  unfold reloaded ReloadAdds
  split_ifs <;> omega

theorem reloaded_cut_iff {c r a b : Nat} (hc : c < 2 ^ 16) (ha : a < 2 ^ 16) (hb : b < 2 ^ 16) :
    reloaded (reloaded c r a) r b = reloaded c r ((a + b) % 2 ^ 16) ↔ CutAdds c r a b := by
  by_cases hcut : a + b < 2 ^ 16
  · rw [Nat.mod_eq_of_lt hcut, reloaded_add_iff, CutAdds, if_pos hcut]
  · have hmod : (a + b) % 2 ^ 16 = a + b - 2 ^ 16 := by omega
    rw [hmod]
    simp only [CutAdds, if_neg hcut, reloaded]
    split_ifs <;> omega

theorem tick_add_iff (p : Pit) {a b : U64} (h : a.toNat + b.toNat < 2 ^ 64) :
    TicksAdd p a b ↔
      ReloadAdds p.ch0.count.toNat p.ch0.reload.toNat a.toNat b.toNat ∧
        CutAdds p.ch1.count.toNat p.ch1.reload.toNat (a.toNat % 2 ^ 16) (b.toNat % 2 ^ 16) := by
  have hadd : (a + b).toNat = a.toNat + b.toNat := by
    rw [BitVec.toNat_add, Nat.mod_eq_of_lt h]
  obtain ⟨ha0, har0, hai0⟩ := tick_ch0 p a
  obtain ⟨hb0, -, hbi0⟩ := tick_ch0 (p.tick a) b
  obtain ⟨ht0, -, hti0⟩ := tick_ch0 p (a + b)
  obtain ⟨ha1, har1⟩ := tick_ch1 p a
  obtain ⟨hb1, -⟩ := tick_ch1 (p.tick a) b
  obtain ⟨ht1, -⟩ := tick_ch1 p (a + b)
  have hch0 : ((p.tick a).tick b).ch0.count = (p.tick (a + b)).ch0.count ↔
      ReloadAdds p.ch0.count.toNat p.ch0.reload.toNat a.toNat b.toNat := by
    rw [← BitVec.toNat_inj, hb0, har0, ha0, ht0, hadd, reloaded_add_iff]
  have hch1 : ((p.tick a).tick b).ch1.count = (p.tick (a + b)).ch1.count ↔
      CutAdds p.ch1.count.toNat p.ch1.reload.toNat (a.toNat % 2 ^ 16) (b.toNat % 2 ^ 16) := by
    have hcut := reloaded_cut_iff (r := p.ch1.reload.toNat) p.ch1.count.isLt
      (Nat.mod_lt a.toNat (Nat.two_pow_pos 16)) (Nat.mod_lt b.toNat (Nat.two_pow_pos 16))
    rw [← Nat.add_mod] at hcut
    rw [← BitVec.toNat_inj, hb1, har1, ha1, ht1, hadd, hcut]
  constructor
  · exact fun ht => ⟨hch0.mp ht.ch0, hch1.mp ht.ch1⟩
  · rintro ⟨h0, h1⟩
    -- channel 2 remembers OUT, so nothing of an overshoot matters to it
    obtain ⟨hag, hac, hao⟩ := tick_ch2 p a
    obtain ⟨-, hbc, hbo⟩ := tick_ch2 (p.tick a) b
    obtain ⟨-, htc, hto⟩ := tick_ch2 p (a + b)
    refine ⟨hch0.mpr h0, hch1.mpr h1, ?_, ?_, ?_⟩
    · rw [← BitVec.toNat_inj, hbc, htc, hag, hao, hac, hadd]
      cases p.ch2Gate
      · simp
      · cases p.ch2Out
        · by_cases hle : p.ch2.count.toNat ≤ a.toNat
          · simp [hle]
            omega
          · simp [hle]
            omega
        · simp
    · rw [hbo, hto, hag, hao, hac, hadd]
      cases p.ch2Gate
      · simp
      · cases p.ch2Out
        · by_cases hle : p.ch2.count.toNat ≤ a.toNat
          · simp [hle]
            omega
          · simp [hle]
            omega
        · simp
    · rw [hbi0, hti0, hai0, ha0, hadd, Bool.or_assoc]
      congr 1
      rw [← Bool.decide_or, decide_eq_decide, reloaded, Expires, Expires, Expires]
      unfold ReloadAdds at h0
      split_ifs <;> omega

/-! ## Batches of a freshly programmed channel 0 -/

/-- Channel 0 with a new reload value. -/
def programmed (p : Pit) (v : U16) : Pit := { p with ch0 := p.ch0.load v }

/-- Run batches of clocks, acknowledging the interrupt after each, and count how often it was
asserted. -/
def batches : List U64 → Pit → Pit × Nat
  | [], p => (p, 0)
  | t :: ts, p =>
    let next := { p with irq0 := false }.tick t
    let rest := batches ts next
    (rest.1, next.irq0.toNat + rest.2)

/-- The clocks between interrupts: a reload value of zero stands for 65536. -/
def period (v : U16) : Nat := if v = 0 then 2 ^ 16 else v.toNat

def clocks (ts : List U64) : Nat := (ts.map (·.toNat)).sum

/-- Channel 0 asserts its interrupt once every period and keeps its phase, however its clocks are
batched. -/
structure KeepsPhase (p : Pit) (v : U16) (ts : List U64) : Prop where
  asserted : (batches ts (p.programmed v)).2 = clocks ts / period v
  remaining : (batches ts (p.programmed v)).1.ch0.count =
    BitVec.ofNat 16 (period v - clocks ts % period v)

/-- No batch runs past the end of a period, the first starting `phase` clocks into one. -/
def NoOvershoot (n : Nat) : Nat → List U64 → Prop
  | _, [] => True
  | phase, t :: ts => phase % n + t.toNat ≤ n ∧ NoOvershoot n (phase + t.toNat) ts

theorem noOvershoot_add_period (n phase : Nat) (ts : List U64) :
    NoOvershoot n (phase + n) ts ↔ NoOvershoot n phase ts := by
  induction ts generalizing phase with
  | nil => exact Iff.rfl
  | cons t ts ih =>
    rw [NoOvershoot, NoOvershoot, Nat.add_mod_right, Nat.add_right_comm, ih]

/-- The clocks a running channel has taken are whole periods, the phase of the current one, and the
clocks it has lost past zero. It has lost none exactly when no batch overshot. -/
theorem batches_clocks {n : Nat} (ts : List U64) (p : Pit) (hn : p.ch0.reload.toNat = n)
    (h0 : 0 < p.ch0.count.toNat) (hc : p.ch0.count.toNat ≤ n) :
    0 < (batches ts p).1.ch0.count.toNat ∧ (batches ts p).1.ch0.count.toNat ≤ n ∧
      ∃ lost, n - p.ch0.count.toNat + clocks ts =
          n * (batches ts p).2 + (n - (batches ts p).1.ch0.count.toNat) + lost ∧
        (lost = 0 ↔ NoOvershoot n (n - p.ch0.count.toNat) ts) := by
  induction ts generalizing p with
  | nil => exact ⟨h0, hc, 0, by simp [batches, clocks], iff_of_true rfl trivial⟩
  | cons t ts ih =>
    obtain ⟨hcount, hreload, hirq⟩ := tick_ch0 { p with irq0 := false } t
    obtain ⟨q, hq⟩ : ∃ q, q = { p with irq0 := false }.tick t := ⟨_, rfl⟩
    have hb : batches (t :: ts) p = ((batches ts q).1, q.irq0.toNat + (batches ts q).2) := by
      rw [hq]
      rfl
    rw [← hq] at hcount hreload hirq
    have hphase : (n - p.ch0.count.toNat) % n = n - p.ch0.count.toNat := Nat.mod_eq_of_lt (by omega)
    have hclocks : clocks (t :: ts) = t.toNat + clocks ts := by simp [clocks]
    rw [hb, hclocks, NoOvershoot, hphase]
    dsimp only at hcount hreload hirq ⊢
    rw [reloaded, if_neg (by omega)] at hcount
    by_cases hexp : p.ch0.count.toNat ≤ t.toNat
    · -- the period ends: whatever the batch had left is lost
      rw [if_pos hexp] at hcount
      rw [Bool.false_or, decide_eq_true ⟨h0, hexp⟩] at hirq
      obtain ⟨hq0, hqn, lost, hlost, hiff⟩ := ih q (hreload ▸ hn) (by omega) (by omega)
      refine ⟨hq0, hqn, lost + (t.toNat - p.ch0.count.toNat), ?_, ?_⟩
      · rw [hirq, Bool.toNat_true, Nat.mul_add, Nat.mul_one]
        omega
      · rw [show n - q.ch0.count.toNat = 0 by omega] at hiff
        have hwrap := noOvershoot_add_period n 0 ts
        constructor
        · intro hl
          have heq : n - p.ch0.count.toNat + t.toNat = 0 + n := by omega
          exact ⟨by omega, heq ▸ hwrap.mpr (hiff.mp (by omega))⟩
        · rintro ⟨hle, hno⟩
          have heq : n - p.ch0.count.toNat + t.toNat = 0 + n := by omega
          have := hiff.mpr (hwrap.mp (heq ▸ hno))
          omega
    · rw [if_neg hexp] at hcount
      rw [Bool.false_or, decide_eq_false (fun h => hexp h.2)] at hirq
      obtain ⟨hq0, hqn, lost, hlost, hiff⟩ := ih q (hreload ▸ hn) (by omega) (by omega)
      refine ⟨hq0, hqn, lost, ?_, ?_⟩
      · rw [hirq, Bool.toNat_false, Nat.zero_add]
        omega
      · rw [hiff, show n - q.ch0.count.toNat = n - p.ch0.count.toNat + t.toNat by omega]
        exact ⟨fun h => ⟨by omega, h⟩, fun h => h.2⟩

/-- A count of zero never starts. -/
theorem batches_zero (ts : List U64) (p : Pit) (h : p.ch0.count = 0) :
    (batches ts p).1.ch0.count = 0 ∧ (batches ts p).2 = 0 := by
  induction ts generalizing p with
  | nil => exact ⟨h, rfl⟩
  | cons t ts ih =>
    obtain ⟨hcount, -, hirq⟩ := tick_ch0 { p with irq0 := false } t
    have hzero : p.ch0.count.toNat = 0 := by rw [h]; rfl
    have hstays : ({ p with irq0 := false }.tick t).ch0.count = 0 :=
      BitVec.eq_of_toNat_eq (hcount.trans (by rw [reloaded, if_pos hzero]; rfl))
    have hquiet : ({ p with irq0 := false }.tick t).irq0 = false :=
      hirq.trans (decide_eq_false fun he => he.1.ne' hzero)
    obtain ⟨hc, hn⟩ := ih _ hstays
    exact ⟨hc, by rw [batches, hquiet, hn]; rfl⟩

theorem keepsPhase_iff (p : Pit) (v : U16) (ts : List U64) :
    KeepsPhase p v ts ↔ if v = 0 then clocks ts = 0 else NoOvershoot v.toNat 0 ts := by
  split
  · rename_i h0
    obtain ⟨hc, hn⟩ := batches_zero ts (p.programmed v) h0
    constructor
    · rintro ⟨hasserted, hremaining⟩
      rw [hn] at hasserted
      rw [hc, ← BitVec.toNat_inj, BitVec.toNat_ofNat] at hremaining
      simp only [period, h0, if_true] at hasserted hremaining
      have hz : (0 : U16).toNat = 0 := rfl
      omega
    · intro ht
      refine ⟨by rw [hn, ht, Nat.zero_div], ?_⟩
      rw [hc, ht, period, if_pos h0]
      rfl
  · rename_i h0
    have hpos : 0 < v.toNat := Nat.pos_of_ne_zero fun h => h0 (BitVec.toNat_inj.mp h)
    have hv := v.isLt
    obtain ⟨hc0, hcn, lost, hlost, hiff⟩ :=
      batches_clocks (n := v.toNat) ts (p.programmed v) rfl hpos le_rfl
    have hperiod : period v = v.toNat := if_neg h0
    rw [show v.toNat - (p.programmed v).ch0.count.toNat = 0 from Nat.sub_self _] at hlost hiff
    rw [← hiff]
    have hmod := Nat.mod_lt (clocks ts) hpos
    have hdiv := Nat.div_add_mod (clocks ts) v.toNat
    constructor
    · rintro ⟨hasserted, hremaining⟩
      rw [hperiod] at hasserted hremaining
      rw [← BitVec.toNat_inj, BitVec.toNat_ofNat, Nat.mod_eq_of_lt (by omega)] at hremaining
      rw [hasserted, hremaining] at hlost
      omega
    · intro hl
      have hexact : clocks ts = v.toNat - (batches ts (p.programmed v)).1.ch0.count.toNat +
          v.toNat * (batches ts (p.programmed v)).2 := by omega
      refine ⟨?_, ?_⟩
      · rw [hperiod, hexact, Nat.add_mul_div_left _ _ hpos, Nat.div_eq_of_lt (by omega),
          Nat.zero_add]
      · rw [hperiod, hexact, Nat.add_mul_mod_self_left, Nat.mod_eq_of_lt (by omega),
          ← BitVec.toNat_inj, BitVec.toNat_ofNat, Nat.mod_eq_of_lt (by omega)]
        omega

/-- How the timer depends on the batching of its clocks: two batches leave what their total leaves
exactly when neither counter's lost overshoot shows, and a freshly programmed channel 0 keeps its
phase exactly when no batch runs past the end of a period. -/
theorem pit_batching (p : Pit) :
    (∀ a b : U64, a.toNat + b.toNat < 2 ^ 64 → (TicksAdd p a b ↔
      ReloadAdds p.ch0.count.toNat p.ch0.reload.toNat a.toNat b.toNat ∧
        CutAdds p.ch1.count.toNat p.ch1.reload.toNat (a.toNat % 2 ^ 16) (b.toNat % 2 ^ 16))) ∧
      ∀ (v : U16) (ts : List U64),
        KeepsPhase p v ts ↔ if v = 0 then clocks ts = 0 else NoOvershoot v.toNat 0 ts :=
  ⟨fun _ _ h => tick_add_iff p h, keepsPhase_iff p⟩

/-- With a period of three, four clocks and then two leave the count at one where six leave it at
three, and three batches of two make one interrupt instead of two. -/
theorem batching_loses_clocks :
    ((((({} : Pit).programmed 3).tick 4).tick 2).ch0.count = 1 ∧
        ((({} : Pit).programmed 3).tick 6).ch0.count = 3) ∧
      ¬TicksAdd (({} : Pit).programmed 3) 4 2 ∧
      (batches [2, 2, 2] (({} : Pit).programmed 3)).2 = 1 ∧ ¬KeepsPhase {} 3 [2, 2, 2] := by
  refine ⟨⟨by decide, by decide⟩, fun h => absurd h.ch0 (by decide), by decide, fun h => ?_⟩
  exact absurd h.asserted (by decide)

/-- Batches of one clock add up and keep the phase. -/
theorem single_clocks_add :
    TicksAdd (({} : Pit).programmed 3) 1 1 ∧ KeepsPhase {} 3 [1, 1, 1, 1] := by
  constructor
  · refine ((pit_batching (({} : Pit).programmed 3)).1 1 1 (by decide)).mpr
      ⟨.inr (.inl (by decide)), ?_⟩
    rw [CutAdds, if_pos (by decide)]
    exact .inl rfl
  · refine ((pit_batching {}).2 3 [1, 1, 1, 1]).mpr ?_
    rw [if_neg (by decide)]
    exact ⟨by decide, by decide, by decide, by decide, trivial⟩

end Pit

end X86Emu
