import X86Emu.Run
import X86Emu.UserMode
import X86Emu.ModeSwitch

/-!
# The mode of the processor

The mode is kept four times: in CR0 and EFER, in PE and EFER.LMA, in what the TLB was filled under,
and in the prefixes the decoder left. One relation says that a run stays in its mode, another that
it may change the mode and then leaves no TLB entry from before.
-/
namespace X86Emu

open StateRules

/-- The reserved bits of RFLAGS: 1, 3, 5, 15 and 22 to 31. -/
def Flags.reserved : U32 := 0xFFC0802A

/-- The reserved bits of RFLAGS have their architectural values. -/
def FlagsFormed (fl : U32) : Prop := fl &&& Flags.reserved = Flags.alwaysSet

namespace Cpu

def TlbEmpty (s : Cpu) : Prop := ∀ i, (s.tlb i).valid = false

/-- The copies of the mode agree. -/
structure ModeCoherent (s : Cpu) : Prop where
  pe : s.pe = test s.cr0 cr0Pe
  lma : s.longMode = (test s.cr0 cr0Pg && test s.efer Efer.lme)
  flags : FlagsFormed s.flags
  tlb : test s.cr0 cr0Pg = false → s.TlbEmpty

/-- What the prefixes of the last instruction decoded left behind. -/
def prefixes (s : Cpu) : Bool × Bool × Bool × Bool × Bool :=
  (s.rexW, s.rexR, s.rexX, s.rexB, s.addr64)

/-- The fields the mode is made of. -/
def modeCore (s : Cpu) :
    (U32 × Bool × U64 × U32) × (Bool × Bool × Bool × Bool × Bool) × (Fin 256 → TlbEntry) :=
  ((s.cr0, s.pe, s.efer, s.flags), s.prefixes, s.tlb)

end Cpu

/-- CR0.PG and EFER.LMA are as they were. -/
structure SamePaging (s t : Cpu) : Prop where
  pg : test t.cr0 cr0Pg = test s.cr0 cr0Pg
  lma : t.longMode = s.longMode

theorem SamePaging.trans {s t u : Cpu} (h : SamePaging s t) (k : SamePaging t u) :
    SamePaging s u := ⟨k.pg.trans h.pg, k.lma.trans h.lma⟩

/-! ## Staying in the mode -/

/-- The mode stays, and the copies of it agree after if they did before. -/
structure ModeSteady (s t : Cpu) : Prop where
  coherent : s.ModeCoherent → t.ModeCoherent
  prefixes : t.prefixes = s.prefixes
  paging : SamePaging s t

namespace ModeSteady

theorem trans {s t u : Cpu} (h : ModeSteady s t) (k : ModeSteady t u) : ModeSteady s u where
  coherent hs := k.coherent (h.coherent hs)
  prefixes := k.prefixes.trans h.prefixes
  paging := h.paging.trans k.paging

/-- A change of the TLB: an empty one stays empty while paging is off. -/
theorem of_tlb {s t : Cpu} (hcore : (t.modeCore).1 = (s.modeCore).1)
    (hp : t.prefixes = s.prefixes)
    (htlb : test s.cr0 cr0Pg = false → s.TlbEmpty → t.TlbEmpty) : ModeSteady s t := by
  have hcr0 : t.cr0 = s.cr0 := congrArg (·.1) hcore
  have hpe : t.pe = s.pe := congrArg (·.2.1) hcore
  have hefer : t.efer = s.efer := congrArg (·.2.2.1) hcore
  have hflags : t.flags = s.flags := congrArg (·.2.2.2) hcore
  have hlong : t.longMode = s.longMode := by rw [Cpu.longMode, hefer, Cpu.longMode]
  refine ⟨fun hs => ⟨?_, ?_, ?_, ?_⟩, hp, by rw [hcr0], hlong⟩
  · rw [hpe, hcr0, hs.pe]
  · rw [hlong, hcr0, hefer, hs.lma]
  · rw [hflags]
    exact hs.flags
  · rw [hcr0]
    exact fun hpg => htlb hpg (hs.tlb hpg)

theorem of_core {s t : Cpu} (h : t.modeCore = s.modeCore) : ModeSteady s t := by
  have htlb : t.tlb = s.tlb := congrArg (·.2.2) h
  refine of_tlb (congrArg Prod.fst h) (congrArg (·.2.1) h) fun _ hempty i => ?_
  rw [htlb]
  exact hempty i

theorem refl (s : Cpu) : ModeSteady s s := of_core rfl

/-- A change of the flags. -/
theorem of_flags (s : Cpu) {f : U32 → U32} (h : ∀ fl, FlagsFormed fl → FlagsFormed (f fl)) :
    ModeSteady s (s.modifyFlags f) where
  coherent hs := ⟨hs.pe, hs.lma, h _ hs.flags, hs.tlb⟩
  prefixes := rfl
  paging := ⟨rfl, rfl⟩

end ModeSteady

/-! ## Changing the mode -/

/-- The copies of the mode agree after if they did before, and no TLB entry survives a change of
CR0.PG or EFER.LMA. -/
structure ModeKept (s t : Cpu) : Prop where
  coherent : s.ModeCoherent → t.ModeCoherent
  prefixes : t.prefixes = s.prefixes
  fresh : SamePaging s t ∨ t.TlbEmpty

theorem ModeSteady.kept {s t : Cpu} (h : ModeSteady s t) : ModeKept s t :=
  ⟨h.coherent, h.prefixes, .inl h.paging⟩

theorem ModeSteady.then {s t u : Cpu} (h : ModeSteady s t) (k : ModeKept t u) : ModeKept s u where
  coherent hs := k.coherent (h.coherent hs)
  prefixes := k.prefixes.trans h.prefixes
  fresh := k.fresh.imp_left h.paging.trans

namespace ModeKept

theorem refl (s : Cpu) : ModeKept s s := (ModeSteady.refl s).kept

/-- After a change of mode, nothing but a change outside it. -/
theorem core {s t u : Cpu} (h : ModeKept s t) (k : u.modeCore = t.modeCore) : ModeKept s u := by
  have hsteady := ModeSteady.of_core k
  have htlb : u.tlb = t.tlb := congrArg (·.2.2) k
  refine ⟨fun hs => hsteady.coherent (h.coherent hs), hsteady.prefixes.trans h.prefixes, ?_⟩
  refine h.fresh.imp (·.trans hsteady.paging) fun hempty i => ?_
  rw [htlb]
  exact hempty i

end ModeKept

instance : Std.Refl ModeKept := ⟨.refl⟩

/-- Steps in the mode, then a change of it. -/
theorem steady_bind {α β : Type} {p : Exec α} {f : α → Exec β} (hp : Keeps ModeSteady p)
    (hf : ∀ a, Keeps ModeKept (f a)) : Keeps ModeKept (p >>= f) :=
  fun s => (hp s).then (hf _ _)

theorem steady_kept {α : Type} {p : Exec α} (hp : Keeps ModeSteady p) : Keeps ModeKept p :=
  hp.mono fun _ _ => ModeSteady.kept

/-! ## Flags -/

theorem FlagsFormed.of_eq {fl fl' : U32} (h : fl' &&& Flags.reserved = fl &&& Flags.reserved)
    (hf : FlagsFormed fl) : FlagsFormed fl' := h.trans hf

theorem formed_setFlag {f : U32} (h : f &&& Flags.reserved = 0#32) (on : Bool) (fl : U32)
    (hf : FlagsFormed fl) : FlagsFormed (setFlag f on fl) := by
  refine .of_eq ?_ hf
  cases on with
  | true =>
    show (fl ||| f) &&& Flags.reserved = fl &&& Flags.reserved
    rw [BitVec.and_comm, BitVec.and_or_distrib_left, BitVec.and_comm Flags.reserved f, h,
      BitVec.or_zero, BitVec.and_comm]
  | false =>
    show fl &&& ~~~f &&& Flags.reserved = fl &&& Flags.reserved
    have hmask : ~~~f &&& Flags.reserved = Flags.reserved := by
      ext i hi
      have hbit : (f[i] && Flags.reserved[i]) = false := by
        have := congrArg (fun v : U32 => v[i]) h
        simpa only [BitVec.getElem_and, BitVec.getElem_zero] using this
      simp only [BitVec.getElem_and, BitVec.getElem_not]
      revert hbit
      cases f[i] <;> cases Flags.reserved[i] <;> simp
    rw [BitVec.and_assoc, hmask]

/-- A value masked to the writable bits has its reserved bits formed. -/
theorem formed_masked (v : U32) : FlagsFormed (v &&& Flags.writable ||| Flags.alwaysSet) := by
  have hw : Flags.writable &&& Flags.reserved = 0#32 := by decide
  unfold FlagsFormed
  rw [BitVec.and_comm, BitVec.and_or_distrib_left, BitVec.and_comm Flags.reserved,
    BitVec.and_assoc, hw, BitVec.and_zero, BitVec.zero_or]
  decide

theorem formed_writeFlags (fl v : U32) (hf : FlagsFormed fl) : FlagsFormed (writeFlags fl v) := by
  have hrest : fl &&& ~~~Flags.writable &&& ~~~Flags.alwaysSet &&& Flags.reserved = 0#32 := by
    have hsplit : fl &&& ~~~Flags.writable &&& ~~~Flags.alwaysSet &&& Flags.reserved =
        fl &&& Flags.reserved &&& (~~~Flags.writable &&& ~~~Flags.alwaysSet) := by
      ext i hi
      simp only [BitVec.getElem_and]
      cases fl[i] <;> cases Flags.reserved[i] <;> simp
    rw [hsplit, hf]
    decide
  unfold FlagsFormed writeFlags
  rw [BitVec.and_comm, BitVec.and_or_distrib_left, BitVec.and_comm Flags.reserved,
    BitVec.and_comm Flags.reserved, hrest, BitVec.or_zero]
  exact formed_masked v

theorem formed_lowFlags (v fl : U32) (hf : FlagsFormed fl) : FlagsFormed (lowFlags fl v) :=
  formed_writeFlags _ _ hf

/-- SYSCALL clears the masked flags and sets bit 1 again. -/
theorem formed_syscall (mask fl : U32) (hf : FlagsFormed fl) :
    FlagsFormed (fl &&& ~~~mask ||| Flags.alwaysSet) := by
  have hsplit : (fl &&& ~~~mask ||| Flags.alwaysSet) &&& Flags.reserved =
      fl &&& Flags.reserved &&& ~~~mask ||| Flags.alwaysSet &&& Flags.reserved := by
    ext i hi
    simp only [BitVec.getElem_and, BitVec.getElem_or]
    cases fl[i] <;> cases Flags.reserved[i] <;> simp
  have hset : Flags.alwaysSet &&& Flags.reserved = Flags.alwaysSet := by decide
  have habsorb : Flags.alwaysSet &&& ~~~mask ||| Flags.alwaysSet = Flags.alwaysSet := by
    ext i hi
    simp only [BitVec.getElem_and, BitVec.getElem_or]
    cases Flags.alwaysSet[i] <;> simp
  unfold FlagsFormed
  rw [hsplit, hf, hset, habsorb]

/-! ## The unprivileged machine -/

theorem steady_of_shell {s t : Cpu} (h : t.shell = s.shell) : ModeSteady s t := by
  have hcr0 : t.cr0 = s.cr0 := (congrArg Cpu.cr0 h : t.shell.cr0 = s.shell.cr0)
  have hpe : t.pe = s.pe := (congrArg Cpu.pe h : t.shell.pe = s.shell.pe)
  have hefer : t.efer = s.efer := (congrArg Cpu.efer h : t.shell.efer = s.shell.efer)
  have htlb : t.tlb = s.tlb := (congrArg Cpu.tlb h : t.shell.tlb = s.shell.tlb)
  have hfl : t.flags &&& ~~~Flags.user = s.flags &&& ~~~Flags.user :=
    (congrArg Cpu.flags h : t.shell.flags = s.shell.flags)
  have hpre : t.prefixes = s.prefixes :=
    (congrArg Cpu.prefixes h : t.shell.prefixes = s.shell.prefixes)
  have hlong : t.longMode = s.longMode := by rw [Cpu.longMode, hefer, Cpu.longMode]
  refine ⟨fun hs => ⟨?_, ?_, ?_, ?_⟩, hpre, by rw [hcr0], hlong⟩
  · rw [hpe, hcr0, hs.pe]
  · rw [hlong, hcr0, hefer, hs.lma]
  · have hsub : Flags.reserved = ~~~Flags.user &&& Flags.reserved := by decide
    refine .of_eq ?_ hs.flags
    rw [hsub, ← BitVec.and_assoc, ← BitVec.and_assoc, hfl]
  · intro hpg i
    rw [htlb]
    exact hs.tlb (hcr0 ▸ hpg) i

theorem steady_raise (s : Cpu) (f : Fault) : ModeSteady s (s.raise f) := by
  unfold Cpu.raise
  split <;> exact .of_core rfl

theorem modeCore_markAccessed (s : Cpu) (linear : U64) (write : Bool) :
    (s.markAccessed linear write).modeCore = s.modeCore := by
  unfold Cpu.markAccessed
  split <;> rfl

/-- A translation fills the TLB only while paging is on. -/
theorem steady_translate (s : Cpu) (linear : U64) (write fetch : Bool) :
    ModeSteady s (applyPagingInner linear write fetch s).2 := by
  unfold applyPagingInner
  split
  · exact steady_raise s _
  split
  · exact .refl s
  rename_i hon
  have hset (t : Cpu) (ht : t.modeCore = s.modeCore) (i : Fin 256) (e : TlbEntry) :
      ModeSteady s (t.setTlb i e) := by
    refine (ModeSteady.of_core ht).trans (.of_tlb rfl rfl fun hoff => absurd ?_ hon)
    have hcr0 : t.cr0 = s.cr0 := congrArg (·.1.1) ht
    rw [← hcr0, hoff]
    rfl
  dsimp only
  split
  · split
    · split
      · exact hset _ (modeCore_markAccessed s linear true) _ _
      · exact .refl s
    · exact steady_raise s _
  · split
    · split
      · exact steady_raise s _
      · exact (hset s rfl _ _).trans (.of_core rfl)
    · exact steady_raise s _

theorem steady_invlpg (s : Cpu) (linear : U64) : ModeSteady s (s.invlpg linear) := by
  unfold Cpu.invlpg
  dsimp only
  split
  · refine .of_tlb rfl rfl fun _ hempty i => ?_
    show (if i = Cpu.tlbIndex linear then _ else s.tlb i).valid = false
    split
    · rfl
    · exact hempty i
  · exact .refl s

theorem steady_flushTlb (s : Cpu) : ModeSteady s s.flushTlb :=
  .of_tlb rfl rfl fun _ _ _ => rfl

instance : UserFrame ModeSteady where
  refl := .refl
  trans _ _ _ := .trans
  of_shell := steady_of_shell
  raise := steady_raise
  setPending _ _ _ _ := .of_core rfl
  translate := steady_translate
  invlpg := steady_invlpg
  store _ ht _ hu _ := ht.trans (hu.trans (.of_core rfl))
  real _ _ _ := .of_core rfl

/-! ## Control -/

/-- What recomputing EFER.LMA leaves: LMA formed, and the TLB empty if it moved. -/
theorem updateLongMode_mode (t : Cpu) :
    t.updateLongMode.cr0 = t.cr0 ∧ t.updateLongMode.pe = t.pe ∧
      t.updateLongMode.flags = t.flags ∧ t.updateLongMode.prefixes = t.prefixes ∧
      test t.updateLongMode.efer Efer.lme = test t.efer Efer.lme ∧
      t.updateLongMode.longMode = (test t.cr0 cr0Pg && test t.efer Efer.lme) ∧
      (t.updateLongMode.longMode = t.longMode ∧ t.updateLongMode.tlb = t.tlb ∨
        t.updateLongMode.TlbEmpty) := by
  have hset (e : U64) : test (e ||| Efer.lma) Efer.lma = true := by
    rw [show Efer.lma = (1 : U64) <<< 10 from rfl, test_bit _ (by decide)]
    simp
  have hclear (e : U64) : test (e &&& ~~~Efer.lma) Efer.lma = false := by
    have hmask : ~~~Efer.lma &&& Efer.lma = 0 := by decide
    rw [test, BitVec.and_assoc, hmask]
    exact congrArg (· != 0) BitVec.and_zero
  have hlmeSet (e : U64) : test (e ||| Efer.lma) Efer.lme = test e Efer.lme := by
    rw [show Efer.lme = (1 : U64) <<< 8 from rfl, test_bit _ (by decide), test_bit _ (by decide)]
    simp [Efer.lma]
  have hlmeClear (e : U64) : test (e &&& ~~~Efer.lma) Efer.lme = test e Efer.lme := by
    have hmask : ~~~Efer.lma &&& Efer.lme = Efer.lme := by decide
    rw [test, BitVec.and_assoc, hmask, test]
  unfold Cpu.updateLongMode
  cases hwant : test t.cr0 cr0Pg && test t.efer Efer.lme <;> cases hlma : t.longMode
  · exact ⟨rfl, rfl, rfl, rfl, rfl, hlma, .inl ⟨hlma, rfl⟩⟩
  · exact ⟨rfl, rfl, rfl, rfl, hlmeClear _, hclear _, .inr fun _ => rfl⟩
  · exact ⟨rfl, rfl, rfl, rfl, hlmeSet _, hset _, .inr fun _ => rfl⟩
  · exact ⟨rfl, rfl, rfl, rfl, rfl, hlma, .inl ⟨hlma, rfl⟩⟩

/-- A write of CR0 forms PE and LMA, and empties the TLB when PG or LMA moves. -/
theorem writeCr0_mode (s : Cpu) (v : U32) :
    (s.writeCr0 v).pe = test (s.writeCr0 v).cr0 cr0Pe ∧
      (s.writeCr0 v).longMode =
        (test (s.writeCr0 v).cr0 cr0Pg && test (s.writeCr0 v).efer Efer.lme) ∧
      (s.writeCr0 v).flags = s.flags ∧ (s.writeCr0 v).prefixes = s.prefixes ∧
      (test (s.writeCr0 v).cr0 cr0Pg = test s.cr0 cr0Pg ∧ (s.writeCr0 v).longMode = s.longMode ∧
          (s.writeCr0 v).tlb = s.tlb ∨
        (s.writeCr0 v).TlbEmpty) := by
  unfold Cpu.writeCr0
  dsimp only
  cases hpg : test s.cr0 cr0Pg != test v cr0Pg
  · rw [if_neg Bool.false_ne_true]
    obtain ⟨hcr0, hpe, hfl, hpre, hlme, hlma, htlb⟩ :=
      updateLongMode_mode { s with cr0 := v, pe := test v cr0Pe }
    refine ⟨by rw [hpe, hcr0], by rw [hlma, hcr0, hlme], hfl, hpre, ?_⟩
    refine htlb.imp_left fun h => ⟨?_, h⟩
    rw [hcr0]
    exact (bne_eq_false_iff_eq.mp hpg).symm
  · rw [if_pos rfl]
    obtain ⟨hcr0, hpe, hfl, hpre, hlme, hlma, htlb⟩ :=
      updateLongMode_mode { s with cr0 := v, pe := test v cr0Pe }.flushTlb
    refine ⟨by rw [hpe, hcr0]; rfl, by rw [hlma, hcr0, hlme], hfl, hpre, .inr ?_⟩
    rcases htlb with ⟨-, htlb⟩ | hempty
    · intro i
      rw [htlb]
      rfl
    · exact hempty

theorem mode_writeCr0 (s : Cpu) (v : U32) : ModeKept s (s.writeCr0 v) := by
  obtain ⟨hpe, hlma, hfl, hpre, htlb⟩ := writeCr0_mode s v
  refine ⟨fun hs => ⟨hpe, hlma, hfl ▸ hs.flags, fun hoff => ?_⟩, hpre, ?_⟩
  · rcases htlb with ⟨hpg, -, htlb⟩ | hempty
    · intro i
      rw [htlb]
      exact hs.tlb (hpg ▸ hoff) i
    · exact hempty
  · rcases htlb with ⟨hpg, hlong, -⟩ | hempty
    · exact .inl ⟨hpg, hlong⟩
    · exact .inr hempty

end X86Emu
