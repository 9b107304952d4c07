import X86Emu.GuestState

/-!
# The I/O bitmaps

Which ports a guest's IN or OUT names, and what the intercept decides from the bitmaps. Only the bit
of the first port is looked at, so an access is covered exactly when that bit speaks for all of them.
-/
namespace X86Emu

open StateRules

/-- The first port of an IN or OUT and the number of ports it names. -/
def Inst.ioAccess (s : Cpu) : Inst → Option (U16 × Nat)
  | .inAlImm port | .outImmAl port => some (u16 port, 1)
  | .inAxImm port | .outImmAx port => some (u16 port, if wideIo s then 4 else 2)
  | .inAlDx | .outDxAl => some (s.dx, 1)
  | .inAxDx | .outDxAx => some (s.dx, if wideIo s then 4 else 2)
  | _ => none

/-- Port I/O is decided by the bitmaps alone. -/
structure UsesIoBitmaps (s : Cpu) : Prop where
  inGuest : s.vmx.inGuest = true
  use : test (u32 (s.vmRead Field.cpuCtls)) Vmx.cpuUseIoBitmaps = true
  conditional : test (u32 (s.vmRead Field.cpuCtls)) Vmx.cpuUncondIoExiting = false

/-- Some port of the access has its bit set. -/
def Cpu.ioBitSet (s : Cpu) (port : U16) (n : Nat) : Prop :=
  ∃ i < n, s.ioBitmapBit (port + BitVec.ofNat 16 i) = true

/-- The bitmaps govern every port of the access: a set bit exits, reaching no device, and otherwise
the instruction runs and the guest goes on. -/
def IoCovered (s : Cpu) (inst : Inst) (port : U16) (n : Nat) : Prop :=
  (s.ioBitSet port n → ∃ q, guestExecute inst s = ((), s.vmExit Reason.ioInstruction q 0 0)) ∧
  (¬ s.ioBitSet port n →
    guestExecute inst s = execute inst s ∧ (guestExecute inst s).2.vmx.inGuest = true)

/-- What the intercept is asked for an IN or OUT, and what executing one leaves alone. -/
theorem ioAccess_spec {s : Cpu} {inst : Inst} {port : U16} {n : Nat}
    (h : inst.ioAccess s = some (port, n)) :
    0 < n ∧ ControlKept s (execute inst s).2 ∧ ∃ size input imm,
      intercept inst s = ioIntercept port size input imm (u32 (s.vmRead Field.cpuCtls)) s := by
  have wide : 0 < if wideIo s then 4 else 2 := by split <;> decide
  cases inst with
  | inAlImm p => cases h; exact ⟨by decide, frame_inAl _ s, _, _, _, rfl⟩
  | outImmAl p => cases h; exact ⟨by decide, frame_outAl _ s, _, _, _, rfl⟩
  | inAlDx => cases h; exact ⟨by decide, frame_inAl _ s, _, _, _, rfl⟩
  | outDxAl => cases h; exact ⟨by decide, frame_outAl _ s, _, _, _, rfl⟩
  | inAxImm p => cases h; exact ⟨wide, frame_inAx _ s, _, _, _, rfl⟩
  | outImmAx p => cases h; exact ⟨wide, frame_outAx _ s, _, _, _, rfl⟩
  | inAxDx => cases h; exact ⟨wide, frame_inAx _ s, _, _, _, rfl⟩
  | outDxAx => cases h; exact ⟨wide, frame_outAx _ s, _, _, _, rfl⟩
  | _ => cases h

/-- The intercept exits on the first port's bit. -/
theorem ioIntercept_run {s : Cpu} (hs : UsesIoBitmaps s) (port : U16) (size : U64)
    (input imm : Bool) :
    ∃ q, ioIntercept port size input imm (u32 (s.vmRead Field.cpuCtls)) s =
      if s.ioBitmapBit port then (true, s.vmExit Reason.ioInstruction q 0 0) else (false, s) := by
  refine ⟨Cpu.ioQual size input imm port, ?_⟩
  have hrun (ctl : U32) : ioIntercept port size input imm ctl s =
      (if (if test ctl Vmx.cpuUncondIoExiting then true
          else if test ctl Vmx.cpuUseIoBitmaps then s.ioBitmapBit port else false) then
        exitWith Reason.ioInstruction (Cpu.ioQual size input imm port)
      else pure false : Exec Bool) s := rfl
  rw [hrun, hs.conditional, hs.use]
  cases s.ioBitmapBit port <;> rfl

section Access

variable {s : Cpu} {inst : Inst} {port : U16} {n : Nat}

theorem guestExecute_ioSet (hs : UsesIoBitmaps s) (hio : inst.ioAccess s = some (port, n))
    (hb : s.ioBitmapBit port = true) :
    ∃ q, guestExecute inst s = ((), s.vmExit Reason.ioInstruction q 0 0) := by
  obtain ⟨-, -, size, input, imm, hi⟩ := ioAccess_spec hio
  obtain ⟨q, hq⟩ := ioIntercept_run hs port size input imm
  refine ⟨q, ?_⟩
  rw [guestExecute, bind_run, hi, hq, hb]
  rfl

theorem guestExecute_ioClear (hs : UsesIoBitmaps s) (hio : inst.ioAccess s = some (port, n))
    (hb : s.ioBitmapBit port = false) :
    guestExecute inst s = execute inst s ∧ (guestExecute inst s).2.vmx.inGuest = true := by
  obtain ⟨-, hk, size, input, imm, hi⟩ := ioAccess_spec hio
  obtain ⟨q, hq⟩ := ioIntercept_run hs port size input imm
  have he : guestExecute inst s = execute inst s := by
    rw [guestExecute, bind_run, hi, hq, hb]
    rfl
  exact ⟨he, he ▸ hk.inGuest.trans hs.inGuest⟩

/-- An exit is told from an instruction that ran. -/
theorem ioExit_ne_clear (hs : UsesIoBitmaps s) (hio : inst.ioAccess s = some (port, n))
    (hb : s.ioBitmapBit port = false) (q : U64) :
    guestExecute inst s ≠ ((), s.vmExit Reason.ioInstruction q 0 0) := by
  intro he
  have hg := (guestExecute_ioClear hs hio hb).2
  rw [he, Cpu.vmExit_inGuest] at hg
  exact Bool.false_ne_true hg

theorem ioBitSet_first (hn : 0 < n) (hb : s.ioBitmapBit port = true) : s.ioBitSet port n :=
  ⟨0, hn, by simpa using hb⟩

/-- The bitmaps cover an access exactly when its first port's bit is set or none is. -/
theorem ioCovered_iff (hs : UsesIoBitmaps s) (hio : inst.ioAccess s = some (port, n)) :
    IoCovered s inst port n ↔ (s.ioBitmapBit port = true ∨ ¬ s.ioBitSet port n) := by
  have hn : 0 < n := (ioAccess_spec hio).1
  cases hb : s.ioBitmapBit port with
  | true =>
    have hset := ioBitSet_first hn hb
    exact iff_of_true ⟨fun _ => guestExecute_ioSet hs hio hb, fun h => absurd hset h⟩ (.inl rfl)
  | false =>
    have hrun := guestExecute_ioClear hs hio hb
    constructor
    · intro h
      refine .inr fun hset => ?_
      obtain ⟨q, hq⟩ := h.1 hset
      exact ioExit_ne_clear hs hio hb q hq
    · intro h
      have hclear : ¬ s.ioBitSet port n := h.resolve_left Bool.false_ne_true
      exact ⟨fun hset => absurd hset hclear, fun _ => hrun⟩

end Access

/-! ## An access that slips through -/

/-- A guest whose bitmap selects port 0x20 only, about to read a word from port 0x1F. -/
def straddlingGuest : Cpu :=
  let s := Cpu.withRam (2 ^ 20) Memory.mib_le 0
  let ctls := ({ inGuest := true } : Vmx).write Field.cpuCtls
    (u64 (Vmx.cpuDefault1 ||| Vmx.cpuUseIoBitmaps))
  { s.setReg 2 0x1F with
    mem := s.mem.writeU8 0x10004 1
    vmx := ctls.write Field.ioBitmapA 0x10000 }

theorem straddlingGuest_uses : UsesIoBitmaps straddlingGuest :=
  ⟨rfl, by decide +kernel, by decide +kernel⟩

theorem straddlingGuest_access : Inst.ioAccess straddlingGuest .inAxDx = some (0x1F, 2) := by
  decide +kernel

theorem straddlingGuest_bits :
    straddlingGuest.ioBitmapBit 0x1F = false ∧ straddlingGuest.ioBitmapBit 0x20 = true := by
  decide +kernel

/-- IN AX, DX at port 0x1F reads port 0x20, whose bit is set. -/
theorem io_bitmap_misses_second_port :
    ¬ ∀ (s : Cpu) (inst : Inst) (port : U16) (n : Nat), UsesIoBitmaps s →
      inst.ioAccess s = some (port, n) → IoCovered s inst port n := by
  intro h
  obtain ⟨hclear, hset⟩ := straddlingGuest_bits
  obtain ⟨q, hq⟩ := (h _ _ _ _ straddlingGuest_uses straddlingGuest_access).1
    ⟨1, by decide, hset⟩
  exact ioExit_ne_clear straddlingGuest_uses straddlingGuest_access hclear q hq

/-- A word read from port 0x20 exits, and one from port 0x21 does not. -/
theorem ioCovered_iff_word :
    IoCovered straddlingGuest (.inAxImm 0x20) 0x20 2 ∧
      IoCovered straddlingGuest (.inAxImm 0x21) 0x21 2 := by
  have hio (port : U8) :
      Inst.ioAccess straddlingGuest (.inAxImm port) = some (u16 port, 2) := rfl
  constructor
  · exact (ioCovered_iff straddlingGuest_uses (hio 0x20)).mpr (.inl straddlingGuest_bits.2)
  · refine (ioCovered_iff straddlingGuest_uses (hio 0x21)).mpr (.inr ?_)
    rintro ⟨i, hi, hset⟩
    have hclear : straddlingGuest.ioBitmapBit 0x21 = false ∧
        straddlingGuest.ioBitmapBit 0x22 = false := by decide +kernel
    interval_cases i
    · exact Bool.false_ne_true (hclear.1.symm.trans hset)
    · exact Bool.false_ne_true (hclear.2.symm.trans hset)

end X86Emu
