import X86Emu.FaultingDelivery
import X86Emu.GuestState

/-!
# Switching CR0.PE

The machine keeps two instruction pointers and two sources of segment bases, and PE selects between
them. `writeCr0` flips the selector and copies nothing, so the switch stays in place exactly when
the copies agreed beforehand.
-/
namespace X86Emu

open StateRules

namespace Cpu

/-- The linear address of the instruction stream. -/
def ipLinear (s : Cpu) : U64 :=
  if s.long64 then s.rip
  else if s.pe then (u64 (s.segDesc .cs).base + (s.rip &&& 0xFFFFFFFF)) &&& 0xFFFFFFFF
  else (u64 s.cs <<< 4 + u64 s.ip) &&& 0xFFFFFFFF

/-- The copies the other mode uses say the same: each cached base is its selector's paragraph, and
RIP is IP. -/
structure Mirrored (s : Cpu) : Prop where
  base : ∀ r, (s.segDesc r).base = u32 (s.seg r) <<< 4
  ip : u32 s.rip = u32 s.ip

/-- Register `r` is as it was, in a machine that has not changed mode either. -/
structure Unreloaded (s t : Cpu) (r : SegReg) : Prop where
  pe : t.pe = s.pe
  longMode : t.longMode = s.longMode
  seg : t.seg r = s.seg r
  segDesc : t.segDesc r = s.segDesc r

/-- The switch from `s` to `t` moved nothing: the next fetch is where `s` points, and a segment
register keeps its base until it is reloaded. -/
structure SamePlace (s t : Cpu) : Prop where
  fetch : t.ipLinear = s.ipLinear
  data : ∀ u r off, t.Unreloaded u r → u.linearAddr r off = s.linearAddr r off

end Cpu

/-- MOV CR0 and LMSW. -/
inductive Inst.WritesMsw : Inst → Prop
  | movToCr (reg : U8) : WritesMsw (.movToCr 0 reg)
  | lmsw (m : ModRm) : WritesMsw (.lmsw m)

/-! ## What a write of CR0 leaves alone -/

/-- PE and the CPU's mode follow CR0; the rest of the machine stays. -/
theorem writeCr0_eq (s : Cpu) (v : U32) :
    ∃ (efer : U64) (tlb : Fin 256 → TlbEntry) (valid : Bool),
      s.writeCr0 v = { s with cr0 := v, pe := test v cr0Pe, efer, tlb, physIpValid := valid } ∧
        test efer Efer.lma = (test v cr0Pg && test s.efer Efer.lme) := by
  have hset (e : U64) : test (e ||| Efer.lma) Efer.lma = true := by
    rw [show Efer.lma = (1 : U64) <<< 10 from rfl, test_bit _ (by decide)]
    simp
  have hclear (e : U64) : test (e &&& ~~~Efer.lma) Efer.lma = false := by
    have hmask : ~~~Efer.lma &&& Efer.lma = 0 := by decide
    rw [test, BitVec.and_assoc, hmask]
    exact congrArg (· != 0) BitVec.and_zero
  have hupdate (t : Cpu) : ∃ (efer : U64) (tlb : Fin 256 → TlbEntry) (valid : Bool),
      t.updateLongMode = { t with efer, tlb, physIpValid := valid } ∧
        test efer Efer.lma = (test t.cr0 cr0Pg && test t.efer Efer.lme) := by
    unfold Cpu.updateLongMode
    cases hwant : test t.cr0 cr0Pg && test t.efer Efer.lme <;>
      cases hlma : t.longMode
    · exact ⟨_, _, _, rfl, hlma⟩
    · exact ⟨_, _, _, rfl, hclear _⟩
    · exact ⟨_, _, _, rfl, hset _⟩
    · exact ⟨_, _, _, rfl, hlma⟩
  cases hpg : test s.cr0 cr0Pg != test v cr0Pg
  · obtain ⟨efer, tlb, valid, h, hl⟩ := hupdate { s with cr0 := v, pe := test v cr0Pe }
    refine ⟨efer, tlb, valid, Eq.trans ?_ h, hl⟩
    unfold Cpu.writeCr0
    dsimp only
    rw [hpg, if_neg Bool.false_ne_true]
  · obtain ⟨efer, tlb, valid, h, hl⟩ := hupdate { s with cr0 := v, pe := test v cr0Pe }.flushTlb
    refine ⟨efer, tlb, valid, Eq.trans ?_ h, hl⟩
    unfold Cpu.writeCr0
    dsimp only
    rw [hpg, if_pos rfl]

/-! ## The instructions -/

/-- Without paging a translation does nothing, or raises #GP for an address that is not
canonical. -/
theorem applyPagingInner_off {s : Cpu} (hpg : test s.cr0 cr0Pg = false) (linear : U64)
    (write fetch : Bool) :
    (applyPagingInner linear write fetch s).2 = s ∨
      (applyPagingInner linear write fetch s).2 = s.raiseGp 0 := by
  unfold applyPagingInner
  rw [hpg]
  by_cases hc : (s.longMode && !canonical linear) = true
  · exact .inr (by rw [if_pos hc])
  · exact .inl (by rw [if_neg hc]; rfl)

theorem raise_cr0 (s : Cpu) (e : Fault) : (s.raise e).cr0 = s.cr0 := by
  unfold Cpu.raise
  split <;> rfl

theorem raiseGp_settled {s : Cpu} (hp : s.pendingException = none) (code : U32) :
    (s.raiseGp code).pendingException.isSome = true := by
  rw [Cpu.raiseGp, Cpu.raise, hp]
  rfl

/-- So does an operand read. -/
theorem readRm16_off {s : Cpu} (hpg : test s.cr0 cr0Pg = false)
    (hp : s.pendingException = none) (m : ModRm) :
    (readRm16 m s).2 = s ∨ (readRm16 m s).2 = s.raiseGp 0 := by
  have hat (addr : U64) (t : Cpu) (ht : t = s ∨ t = s.raiseGp 0) :
      (readRmAt m .w16 addr t).2 = s ∨ (readRmAt m .w16 addr t).2 = s.raiseGp 0 := by
    rw [readRmAt, bind_run, get_run]
    dsimp only
    by_cases hcross : Width.w16 ≠ .w8 ∧ straddles addr Width.w16.bytes
    · rw [if_pos hcross]
      obtain rfl | rfl := ht
      · rw [if_neg (by simp [hp]), bind_run, pure_run, readSplit, bind_run, bind_run, get_run]
        dsimp only
        rw [applyPagingAccess, ite_run, apply_ite Prod.snd, pure_run, pure_run, ite_self]
        exact applyPagingInner_off hpg _ false false
      · rw [if_pos (raiseGp_settled hp 0)]
        exact .inr rfl
    · rw [if_neg hcross]
      exact ht
  rw [readRm16, bind_run, pure_run, readRmW]
  by_cases hreg : m.isReg = true
  · rw [if_pos hreg]
    exact .inl rfl
  · rw [if_neg hreg]
    exact hat _ _ (applyPagingInner_off hpg _ _ _)

/-- What MOV CR0 and LMSW can do with paging off: leave CR0, leave the guest, or write CR0. -/
def MswOutcome (s t : Cpu) : Prop :=
  t.cr0 = s.cr0 ∨ (s.vmx.inGuest = true ∧ t.vmx.inGuest = false) ∨ ∃ v, t = s.writeCr0 v

theorem mswOutcome_movToCr (s : Cpu) (reg : U8) :
    MswOutcome s (movToCr 0 reg s).2 := .inr (.inr ⟨_, rfl⟩)

theorem mswOutcome_lmsw {s : Cpu} (hpg : test s.cr0 cr0Pg = false)
    (hp : s.pendingException = none) (m : ModRm) : MswOutcome s (lmsw m s).2 := by
  rw [lmsw, bind_run, get_run]
  dsimp only
  by_cases hcpl : s.cpl ≠ 0
  · rw [if_pos hcpl]
    exact .inl (raise_cr0 s _)
  · rw [if_neg hcpl]
    rw [bind_run, bind_run, get_run]
    dsimp only
    rcases readRm16_off hpg hp m with h | h
    · rw [h, if_neg (by simp [hp])]
      exact .inr (.inr ⟨_, rfl⟩)
    · rw [h, if_pos (raiseGp_settled hp 0)]
      exact .inl (raise_cr0 s _)

/-- In the guest LMSW raises the operand's fault, exits, or is left to execute. -/
theorem lmswIntercept_off {s : Cpu} (hpg : test s.cr0 cr0Pg = false)
    (hp : s.pendingException = none) (m : ModRm) :
    lmswIntercept m s = (true, s.raiseGp 0) ∨ (∃ r q, lmswIntercept m s = exitWith r q s) ∨
      lmswIntercept m s = (false, s) := by
  have hread : readRm16 m s = ((readRm16 m s).1, (readRm16 m s).2) := rfl
  generalize (readRm16 m s).1 = v at hread
  rw [lmswIntercept, bind_run, get_run]
  dsimp only
  rw [bind_run, get_run]
  dsimp only
  rw [bind_run, hread, bind_run, get_run]
  dsimp only
  rcases readRm16_off hpg hp m with h | h
  · rw [h, if_neg (by rw [hp]; exact Bool.false_ne_true)]
    split
    · exact .inr (.inl ⟨_, _, rfl⟩)
    · exact .inr (.inr rfl)
  · rw [h, if_pos (raiseGp_settled hp 0)]
    exact .inl rfl

/-- In the guest the write goes through the masks. -/
theorem mswOutcome_guestExecute {s : Cpu} {inst : Inst} (hi : inst.WritesMsw)
    (hpg : test s.cr0 cr0Pg = false) (hp : s.pendingException = none)
    (hg : s.vmx.inGuest = true) : MswOutcome s (guestExecute inst s).2 := by
  have hexit (r : U32) (q : U64) (t : Cpu) :
      MswOutcome s (exitWith r q t).2 := .inr (.inl ⟨hg, t.vmExit_inGuest r q 0 0⟩)
  cases hi with
  | movToCr reg =>
    obtain ⟨v, hrun⟩ : ∃ v, intercept (.movToCr 0 reg) s = crShadowedWrite 0 reg v s := ⟨_, rfl⟩
    rw [guestExecute, bind_run, hrun, crShadowedWrite, bind_run, get_run]
    dsimp only
    by_cases hown : (v ^^^ s.crShadow 0) &&& s.crMask 0 ≠ 0
    · rw [if_pos hown]
      exact hexit _ _ s
    · rw [if_neg hown]
      exact .inr (.inr ⟨_, rfl⟩)
  | lmsw m =>
    have hrun : intercept (.lmsw m) s = lmswIntercept m s := rfl
    rw [guestExecute, bind_run, hrun]
    obtain h | ⟨r, q, h⟩ | h := lmswIntercept_off hpg hp m
    · rw [h]
      exact .inl (raise_cr0 s _)
    · rw [h]
      exact hexit r q s
    · rw [h]
      exact mswOutcome_lmsw hpg hp m

theorem stepInst_writesMsw {s : Cpu} {inst : Inst} (hi : inst.WritesMsw)
    (hpg : test s.cr0 cr0Pg = false) : MswOutcome s (stepInst inst s).2 := by
  rw [stepInst, bind_run, get_run]
  dsimp only
  cases hp : s.pendingException with
  | some e => exact .inl rfl
  | none =>
    simp only [Option.isSome_none, Bool.false_eq_true, ↓reduceIte]
    by_cases hg : s.vmx.inGuest = true
    · rw [if_pos hg]
      exact mswOutcome_guestExecute hi hpg hp hg
    · rw [if_neg hg]
      cases hi with
      | movToCr reg => exact mswOutcome_movToCr s reg
      | lmsw m => exact mswOutcome_lmsw hpg hp m

/-! ## Both views of the machine -/

theorem and_low32_eq_iff (x y : U64) : x &&& 0xFFFFFFFF = y &&& 0xFFFFFFFF ↔ u32 x = u32 y := by
  have hlow (z : U64) : z &&& 0xFFFFFFFF = u64 (u32 z) := by
    refine BitVec.eq_of_getLsbD_eq fun i hi => ?_
    rw [BitVec.getLsbD_and, getLsbD_low32, BitVec.getLsbD_setWidth, BitVec.getLsbD_setWidth]
    grind
  rw [hlow, hlow]
  constructor
  · intro h
    simpa using congrArg u32 h
  · intro h
    rw [h]

theorem u32_add (x y : U64) : u32 (x + y) = u32 x + u32 y := BitVec.setWidth_add x y (by decide)

namespace Cpu

/-- The base and the instruction pointer that PE selects. -/
def baseAs (s : Cpu) (pe : Bool) (r : SegReg) : U64 :=
  if pe then u64 (s.segDesc r).base else u64 (s.seg r) <<< 4

def ipAs (s : Cpu) (pe : Bool) : U64 := if pe then s.rip &&& 0xFFFFFFFF else u64 s.ip

theorem linearAddr_eq {s : Cpu} (h : s.long64 = false) (r : SegReg) (off : U64) :
    s.linearAddr r off = (s.baseAs s.pe r + off) &&& 0xFFFFFFFF := by
  cases hpe : s.pe <;> simp [linearAddr, baseAs, h, hpe]

theorem ipLinear_eq {s : Cpu} (h : s.long64 = false) :
    s.ipLinear = (s.baseAs s.pe .cs + s.ipAs s.pe) &&& 0xFFFFFFFF := by
  cases hpe : s.pe <;> simp [ipLinear, baseAs, ipAs, h, hpe, seg]

/-- The two views agree exactly on a mirrored machine. -/
theorem mirrored_iff (s : Cpu) (pe : Bool) :
    s.Mirrored ↔ (∀ r, u32 (s.baseAs pe r) = u32 (s.baseAs (!pe) r)) ∧
      u32 (s.ipAs pe) = u32 (s.ipAs (!pe)) := by
  have hsel (r : SegReg) : u32 (u64 (s.seg r) <<< 4) = u32 (s.seg r) <<< 4 := by
    ext i hi
    simp
  have hbase (r : SegReg) : u32 (u64 (s.segDesc r).base) = (s.segDesc r).base := by simp
  have hrip : u32 (s.rip &&& 0xFFFFFFFF) = u32 s.rip := by
    rw [← and_low32_eq_iff, BitVec.and_assoc, BitVec.and_self]
  have hip : u32 (u64 s.ip) = u32 s.ip := by simp
  have hiff : s.Mirrored ↔ (∀ r, (s.segDesc r).base = u32 (s.seg r) <<< 4) ∧ u32 s.rip = u32 s.ip :=
    ⟨fun h => ⟨h.base, h.ip⟩, fun h => ⟨h.1, h.2⟩⟩
  cases pe
  · simp only [baseAs, ipAs, Bool.not_false, Bool.false_eq_true, ↓reduceIte, hsel, hbase, hrip, hip,
      hiff, eq_comm]
  · simp only [baseAs, ipAs, Bool.not_true, Bool.false_eq_true, ↓reduceIte, hsel, hbase, hrip, hip,
      hiff]

/-! ## The switch -/

variable {s : Cpu} {v : U32}

theorem writeCr0_long64 (hv : test v cr0Pg = false) : (s.writeCr0 v).long64 = false := by
  obtain ⟨efer, tlb, valid, ht, hl⟩ := writeCr0_eq s v
  have hlma : test efer Efer.lma = false := by rw [hl, hv, Bool.false_and]
  rw [ht]
  exact (congrArg (· && (s.segDesc .cs).l) hlma).trans (Bool.false_and _)

/-- After the switch a register that is not reloaded has the base the new PE selects. -/
theorem linearAddr_writeCr0 (hv : test v cr0Pg = false) {u : Cpu} {r : SegReg}
    (hu : (s.writeCr0 v).Unreloaded u r) (off : U64) :
    u.linearAddr r off = (s.baseAs (test v cr0Pe) r + off) &&& 0xFFFFFFFF := by
  obtain ⟨efer, tlb, valid, ht, hl⟩ := writeCr0_eq s v
  have hlma : test efer Efer.lma = false := by rw [hl, hv, Bool.false_and]
  rw [ht] at hu
  have hlong : u.long64 = false := by
    rw [long64, hu.longMode]
    exact (congrArg (· && (u.segDesc .cs).l) hlma).trans (Bool.false_and _)
  have hseg : u.seg r = s.seg r := hu.seg.trans (by cases r <;> rfl)
  rw [linearAddr_eq hlong, baseAs, baseAs, hu.pe, hu.segDesc, hseg]

theorem ipLinear_writeCr0 (hv : test v cr0Pg = false) :
    (s.writeCr0 v).ipLinear =
      (s.baseAs (test v cr0Pe) .cs + s.ipAs (test v cr0Pe)) &&& 0xFFFFFFFF := by
  rw [ipLinear_eq (writeCr0_long64 hv)]
  obtain ⟨efer, tlb, valid, ht, -⟩ := writeCr0_eq s v
  rw [ht]
  rfl

theorem samePlace_writeCr0 (hv : test v cr0Pg = false)
    (hpe : test v cr0Pe ≠ test s.cr0 cr0Pe) :
    s.SamePlace (s.writeCr0 v) ↔
      s.long64 = false ∧ (s.pe ≠ test s.cr0 cr0Pe ∨ s.Mirrored) := by
  have hself (r : SegReg) : (s.writeCr0 v).Unreloaded (s.writeCr0 v) r := ⟨rfl, rfl, rfl, rfl⟩
  cases h64 : s.long64 with
  | true =>
    -- 64-bit data addresses are not truncated, so address 2^32 moves.
    refine ⟨fun h => ?_, fun h => absurd h.1 (by decide)⟩
    have hdata := h.data _ .ds 0x100000000 (hself .ds)
    rw [linearAddr_writeCr0 hv (hself .ds)] at hdata
    have hbefore : s.linearAddr .ds 0x100000000 = 0x100000000 := by simp [linearAddr, h64]
    have hbit := congrArg (fun x => x.getLsbD 32) (hdata.trans hbefore)
    simp only [BitVec.getLsbD_and, getLsbD_low32] at hbit
    exact absurd hbit (by simp)
  | false =>
    by_cases hdrift : s.pe = test v cr0Pe
    · refine ⟨fun _ => ⟨rfl, .inl (by rw [hdrift]; exact hpe)⟩, fun _ => ⟨?_, ?_⟩⟩
      · rw [ipLinear_writeCr0 hv, ipLinear_eq h64, hdrift]
      · intro u r off hu
        rw [linearAddr_writeCr0 hv hu, linearAddr_eq h64, hdrift]
    · have hnew : test v cr0Pe = !s.pe := by
        revert hdrift
        cases s.pe <;> cases test v cr0Pe <;> simp
      have hold : s.pe = test s.cr0 cr0Pe := by
        revert hpe
        rw [hnew]
        cases s.pe <;> cases test s.cr0 cr0Pe <;> simp
      have hsum (x y z w : U64) (hx : u32 x = u32 z) (hy : u32 y = u32 w) :
          (x + y) &&& 0xFFFFFFFF = (z + w) &&& 0xFFFFFFFF := by
        rw [and_low32_eq_iff, u32_add, u32_add, hx, hy]
      rw [mirrored_iff s (!s.pe), Bool.not_not]
      constructor
      · intro h
        have hbase (r : SegReg) : u32 (s.baseAs (!s.pe) r) = u32 (s.baseAs s.pe r) := by
          have hdata := h.data _ r 0 (hself r)
          rw [linearAddr_writeCr0 hv (hself r), linearAddr_eq h64, hnew, and_low32_eq_iff, u32_add,
            u32_add] at hdata
          exact (BitVec.add_left_inj _).mp hdata
        refine ⟨rfl, .inr ⟨hbase, ?_⟩⟩
        have hfetch := h.fetch
        rw [ipLinear_writeCr0 hv, ipLinear_eq h64, hnew, and_low32_eq_iff, u32_add, u32_add,
          hbase .cs] at hfetch
        exact (BitVec.add_right_inj _).mp hfetch
      · rintro ⟨-, h | ⟨hbase, hip⟩⟩
        · exact absurd hold h
        · constructor
          · rw [ipLinear_writeCr0 hv, ipLinear_eq h64, hnew]
            exact hsum _ _ _ _ (hbase .cs) hip
          · intro u r off hu
            rw [linearAddr_writeCr0 hv hu, linearAddr_eq h64, hnew]
            exact hsum _ _ _ _ (hbase r) rfl

end Cpu

/-- MOV CR0 and LMSW with paging off stay in place exactly when the copies of the other mode
agreed. -/
theorem samePlace_iff {s : Cpu} {inst : Inst} (hi : inst.WritesMsw)
    (hpg : test s.cr0 cr0Pg = false) (hpg' : test (stepInst inst s).2.cr0 cr0Pg = false)
    (hpe : test (stepInst inst s).2.cr0 cr0Pe ≠ test s.cr0 cr0Pe)
    (hguest : (stepInst inst s).2.vmx.inGuest = s.vmx.inGuest) :
    s.SamePlace (stepInst inst s).2 ↔
      s.long64 = false ∧ (s.pe ≠ test s.cr0 cr0Pe ∨ s.Mirrored) := by
  have hcr0 (v : U32) : (s.writeCr0 v).cr0 = v := by
    obtain ⟨efer, tlb, valid, ht, -⟩ := writeCr0_eq s v
    rw [ht]
  rcases stepInst_writesMsw hi hpg with h | ⟨hin, hout⟩ | ⟨v, h⟩
  · exact absurd (by rw [h]) hpe
  · rw [hin, hout] at hguest
    cases hguest
  · rw [h, hcr0] at hpg' hpe
    rw [h]
    exact Cpu.samePlace_writeCr0 hpg' hpe

/-- Real-mode code just past the MOV CR0, EAX that sets PE, its data segment at 0x10000. -/
def realModeCode : Cpu :=
  { Cpu.withRam (2 ^ 20) Memory.mib_le 0 with
    ip := 0x7C20
    ds := 0x1000
    regs := fun i => if i = 0 then 1 else 0 }

/-- With its data segment at 0 and RIP equal to IP it stays. -/
theorem realModeCode_mirrored :
    { realModeCode with rip := 0x7C20, ds := 0 }.SamePlace
      (stepInst (.movToCr 0 0) { realModeCode with rip := 0x7C20, ds := 0 }).2 := by
  refine (samePlace_iff (.movToCr 0) (by decide +kernel) (by decide +kernel) (by decide +kernel)
    (by decide +kernel)).mpr ⟨by decide +kernel, .inr ⟨fun r => ?_, by decide +kernel⟩⟩
  cases r <;> decide +kernel

/-- The next fetch comes from address 0, and DS has lost its base. -/
theorem realModeCode_moved :
    realModeCode.pe = false ∧ (stepInst (.movToCr 0 0) realModeCode).2.pe = true ∧
      realModeCode.ipLinear = 0x7C20 ∧ (stepInst (.movToCr 0 0) realModeCode).2.ipLinear = 0 ∧
      realModeCode.linearAddr .ds 0 = 0x10000 ∧
      (stepInst (.movToCr 0 0) realModeCode).2.linearAddr .ds 0 = 0 ∧
      ¬ realModeCode.SamePlace (stepInst (.movToCr 0 0) realModeCode).2 := by
  have hip : realModeCode.ipLinear = 0x7C20 := by decide +kernel
  have hip' : (stepInst (.movToCr 0 0) realModeCode).2.ipLinear = 0 := by decide +kernel
  refine ⟨rfl, by decide +kernel, hip, hip', by decide +kernel, by decide +kernel, fun h => ?_⟩
  exact absurd (hip'.symm.trans (h.fetch.trans hip)) (by decide)

end X86Emu
