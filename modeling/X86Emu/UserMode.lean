import X86Emu.FaultingDelivery

/-!
# What user code can do

The machine as code at CPL 3 may drive it: it computes in its own registers, has addresses
translated, faults, and stores through mappings open to user writes. An execution of any contained
instruction is a run of that machine, which reaches no privileged state.
-/
namespace X86Emu

open StateRules

/-! ## The user's machine -/

/-- A mapping open to user stores takes a linear address to a physical one. With paging off every
address is. -/
inductive Cpu.UserWritable (s : Cpu) (linear : U64) : U64 → Prop
  | off (h : test s.cr0 cr0Pg = false) : s.UserWritable linear linear
  | hit (hv : (s.tlb (tlbIndex linear)).valid = true)
      (hp : (s.tlb (tlbIndex linear)).vpage = linear >>> 12)
      (hu : (s.tlb (tlbIndex linear)).user = true)
      (hw : (s.tlb (tlbIndex linear)).writable = true) :
      s.UserWritable linear ((s.tlb (tlbIndex linear)).ppage <<< 12 ||| linear &&& 0xFFF)
  | walk {map : Mapping} (hm : s.walkOf linear = some map) (hu : map.user = true)
      (hw : map.writable = true) : s.UserWritable linear map.phys

theorem accessAllowed_user {s : Cpu} {writable user exec : Bool}
    (h : s.accessAllowed writable user exec true true false = true) :
    user = true ∧ writable = true := by
  unfold Cpu.accessAllowed at h
  cases writable <;> cases user <;> simp_all

theorem userWritable_of_grants {s : Cpu} (hcpl : s.cpl = 3) {linear p : U64}
    (h : s.Grants linear p) : s.UserWritable linear p := by
  have huser : (s.cpl == 3) = true := beq_iff_eq.mpr hcpl
  cases h with
  | off h => exact .off h
  | hit hv hp ha =>
    rw [huser] at ha
    exact .hit hv hp (accessAllowed_user ha).1 (accessAllowed_user ha).2
  | walk hm ha =>
    rw [huser] at ha
    exact .walk hm (accessAllowed_user ha).1 (accessAllowed_user ha).2

/-- The entry the TLB caches for a mapping. -/
def cachedEntry (linear : U64) (map : Mapping) (dirtied : Bool) : TlbEntry where
  valid := true
  vpage := linear >>> 12
  ppage := map.phys >>> 12
  writable := map.writable
  user := map.user
  exec := map.exec
  dirtied := dirtied

/-- Runs of the user's machine. Memory changes in two ways: the accessed and dirty bits of a walk
are set, and a store writes near the translations of one or two linear addresses. -/
inductive UserRun : Cpu → Cpu → Prop
  | inner {s t : Cpu} (h : t.shell = s.shell) : UserRun s t
  | raise (s : Cpu) (f : Fault) : UserRun s (s.raise f)
  | trap (s : Cpu) (v : U8) (c : Option U32) : UserRun s (s.setPending v c)
  | mark {s : Cpu} {linear : U64} {map : Mapping} (hm : s.walkOf linear = some map) (write : Bool) :
      UserRun s (s.setAccessedBits map write)
  | fill {s : Cpu} {linear : U64} {map : Mapping} (hm : s.walkOf linear = some map) (d : Bool) :
      UserRun s (s.setTlb (Cpu.tlbIndex linear) (cachedEntry linear map d))
  | dirty (s : Cpu) (i : Fin 256) : UserRun s (s.setTlb i { s.tlb i with dirtied := true })
  | invlpg (s : Cpu) (linear : U64) : UserRun s (s.invlpg linear)
  | store {s t u : Cpu} {l p l' p' : U64} {f : Memory → Memory} (hp : s.UserWritable l p)
      (ht : UserRun s t) (hp' : t.UserWritable l' p') (hu : UserRun t u)
      (hf : Writes [(l, p), (l', p')] f) : UserRun s (u.modifyMem f)
  | trans {s t u : Cpu} (h : UserRun s t) (k : UserRun t u) : UserRun s u

theorem userRun_markAccessed (s : Cpu) (linear : U64) (write : Bool) :
    UserRun s (s.markAccessed linear write) ∧ (s.markAccessed linear write).tlb = s.tlb := by
  unfold Cpu.markAccessed
  split
  · exact ⟨.mark ‹_› write, rfl⟩
  · exact ⟨.inner rfl, rfl⟩

/-- A translation is a run: a fault, a hit that may set the dirty bit late, or a walk. -/
theorem userRun_translate (s : Cpu) (linear : U64) (write fetch : Bool) :
    UserRun s (applyPagingInner linear write fetch s).2 := by
  unfold applyPagingInner
  split
  · exact .raise s _
  split
  · exact .inner rfl
  dsimp only
  split
  · split
    · obtain ⟨hmark, htlb⟩ := userRun_markAccessed s linear true
      split
      · rw [← htlb]
        exact .trans hmark (.dirty _ _)
      · exact .inner rfl
    · exact .raise s _
  · split
    · rename_i map hm
      split
      · exact .raise s _
      · have hfill := UserRun.fill hm write
        have hm' : (s.setTlb (Cpu.tlbIndex linear) (cachedEntry linear map write)).walkOf linear =
            some map := hm
        exact .trans hfill (.mark hm' write)
    · exact .raise s _

/-! ## Privileged state -/

/-- The state that user code must leave alone: control and debug registers, MSRs, descriptor tables,
the interrupt flag and IOPL, and the devices. -/
structure Privileged where
  cr0 : U32
  cr3 : U64
  cr4 : U32
  cr8 : U64
  efer : U64
  star : U64
  lstar : U64
  cstar : U64
  sfmask : U64
  fsBase : U64
  gsBase : U64
  kernelGsBase : U64
  sysenter : U32 × U32 × U32
  gdt : U64 × U16
  idt : U64 × U16
  ldt : U16 × U64 × U32
  tr : U16 × U64 × U32
  xcr0 : U64
  dr : Fin 8 → U64
  ifIopl : U32
  vmx : Vmx
  pit : Pit
  pic : Pic
  vga : Vga
  vgaRetrace : Bool
  kbd : Kbd
  keyNext : U64
  dma : Dma
  cmos : Cmos
  ide : Ide
  pci : Pci
  virtio : VirtioBlk

namespace Cpu

/-- RFLAGS.IF and RFLAGS.IOPL. -/
def ifIopl (s : Cpu) : U32 := s.flags &&& 0x3200

def privileged (s : Cpu) : Privileged where
  cr0 := s.cr0
  cr3 := s.cr3
  cr4 := s.cr4
  cr8 := s.cr8
  efer := s.efer
  star := s.star
  lstar := s.lstar
  cstar := s.cstar
  sfmask := s.sfmask
  fsBase := s.fsBase
  gsBase := s.gsBase
  kernelGsBase := s.kernelGsBase
  sysenter := (s.sysenterCs, s.sysenterEsp, s.sysenterEip)
  gdt := (s.gdtBase, s.gdtLimit)
  idt := (s.idtBase, s.idtLimit)
  ldt := (s.ldtSelector, s.ldtBase, s.ldtLimit)
  tr := (s.trSelector, s.trBase, s.trLimit)
  xcr0 := s.xcr0
  dr := s.dr
  ifIopl := s.ifIopl
  vmx := s.vmx
  pit := s.pit
  pic := s.pic
  vga := s.vga
  vgaRetrace := s.vgaRetrace
  kbd := s.kbd
  keyNext := s.keyNext
  dma := s.dma
  cmos := s.cmos
  ide := s.ide
  pci := s.pci
  virtio := s.virtio

end Cpu

/-- The privileged state, the code segment and the processor mode are as they were. -/
structure Sealed (s t : Cpu) : Prop where
  privileged : t.privileged = s.privileged
  cs : t.cs = s.cs
  pe : t.pe = s.pe

theorem Sealed.cpl {s t : Cpu} (h : Sealed s t) : t.cpl = s.cpl := by
  unfold Cpu.cpl
  rw [h.cs, h.pe]

theorem ifIopl_shell (s : Cpu) : s.shell.ifIopl = s.ifIopl := by
  show s.flags &&& ~~~Flags.user &&& 0x3200 = s.flags &&& 0x3200
  rw [BitVec.and_assoc]
  rfl

theorem privileged_shell (s : Cpu) : s.shell.privileged = s.privileged := by
  unfold Cpu.privileged
  rw [ifIopl_shell]
  rfl

theorem sealed_of_shell {s t : Cpu} (h : t.shell = s.shell) : Sealed s t where
  privileged := by rw [← privileged_shell, h, privileged_shell]
  cs := (congrArg Cpu.cs h : t.shell.cs = s.shell.cs)
  pe := (congrArg Cpu.pe h : t.shell.pe = s.shell.pe)

theorem Sealed.trans {s t u : Cpu} (h : Sealed s t) (k : Sealed t u) : Sealed s u where
  privileged := k.privileged.trans h.privileged
  cs := k.cs.trans h.cs
  pe := k.pe.trans h.pe

theorem sealed_raise (s : Cpu) (f : Fault) : Sealed s (s.raise f) := by
  unfold Cpu.raise
  split <;> exact ⟨rfl, rfl, rfl⟩

theorem sealed_modifyMem (s : Cpu) (f : Memory → Memory) : Sealed s (s.modifyMem f) :=
  ⟨rfl, rfl, rfl⟩

theorem sealed_invlpg (s : Cpu) (linear : U64) : Sealed s (s.invlpg linear) := by
  unfold Cpu.invlpg
  dsimp only
  split <;> exact ⟨rfl, rfl, rfl⟩

/-- The user's machine reaches no privileged state. -/
theorem sealed_userRun {s t : Cpu} (h : UserRun s t) : Sealed s t := by
  induction h with
  | inner h => exact sealed_of_shell h
  | raise s f => exact sealed_raise s f
  | trap s v c => exact ⟨rfl, rfl, rfl⟩
  | mark hm write => exact ⟨rfl, rfl, rfl⟩
  | fill hm d => exact ⟨rfl, rfl, rfl⟩
  | dirty s i => exact ⟨rfl, rfl, rfl⟩
  | invlpg s linear => exact sealed_invlpg s linear
  | store hp ht hp' hu hf iht ihu =>
    exact (iht.trans ihu).trans (sealed_modifyMem _ _)
  | trans h k ihh ihk => exact ihh.trans ihk

/-! ## Executions as runs -/

/-- From protected mode at CPL 3, a run of the user's machine. -/
def Confined (s t : Cpu) : Prop := s.pe = true → s.cpl = 3 → UserRun s t

instance : UserFrame Confined where
  refl s _ _ := .inner rfl
  trans s t u hst htu hpe hcpl := by
    have h := hst hpe hcpl
    have hs := sealed_userRun h
    exact .trans h (htu (hs.pe.trans hpe) (hs.cpl.trans hcpl))
  of_shell h _ _ := .inner h
  raise s f _ _ := .raise s f
  setPending s v c _ _ _ := .trap s v c
  translate s linear write fetch _ _ := userRun_translate s linear write fetch
  invlpg s linear _ _ := .invlpg s linear
  store {s t u _ _ _ _ _} hp hst hp' htu hf hpe hcpl := by
    have h := hst hpe hcpl
    have hs := sealed_userRun h
    have hpe' := hs.pe.trans hpe
    have hcpl' := hs.cpl.trans hcpl
    exact .store (userWritable_of_grants hcpl hp) h (userWritable_of_grants hcpl' hp')
      (htu hpe' hcpl') hf
  real s f hreal hpe _ := absurd hpe (by rw [hreal]; decide)

/-- Instructions that check the privilege level. -/
def Inst.guarded : Inst → Bool
  | .lmsw .. | .xsetbv | .clac | .stac | .vmx .. => true
  | _ => false

/-- Instructions that leave user code confined: those with no privileged effect, the divisions, and
those that check the privilege level. -/
def Inst.contained (i : Inst) : Bool := i.confined || i.divides || i.guarded

/-- An instruction that checks the privilege level raises #GP or #UD and does nothing else. -/
theorem guarded_execute {inst : Inst} (hg : inst.guarded) {s : Cpu} (hcpl : s.cpl = 3) :
    (execute inst s).2 = s.raiseGp 0 ∨ (execute inst s).2 = s.raiseUd := by
  have hring : s.cpl ≠ 0 := by rw [hcpl]; decide
  cases inst with
  | lmsw m =>
    refine .inl ?_
    show ((get >>= fun t => if t.cpl ≠ 0 then _ else _ : Exec Unit) s).2 = _
    rw [bind_run, get_run, if_pos hring, modify_run]
  | xsetbv =>
    cases h : test s.cr4 cr4Osxsave with
    | false =>
      refine .inr ?_
      show (if !test s.cr4 cr4Osxsave then s.raiseUd else _) = _
      rw [h]
      rfl
    | true =>
      refine .inl ?_
      show (if !test s.cr4 cr4Osxsave then _ else if s.cpl ≠ 0 ∨ _ then s.raiseGp 0 else _) = _
      rw [h]
      exact (if_neg (by decide)).trans (if_pos (Or.inl hring))
  | clac | stac => exact .inr (if_pos hring)
  | vmx v =>
    show (executeVmx v s).2 = _ ∨ (executeVmx v s).2 = _
    unfold executeVmx
    rw [bind_run, get_run]
    by_cases hon : v.op ≠ .vmxon ∧ !s.vmx.on
    · rw [if_pos hon]
      exact .inr rfl
    · rw [if_neg hon, if_pos hring]
      exact .inl rfl
  | _ => cases hg

theorem userRun_divideStep {s t : Cpu} (h : DivideStep s t) : UserRun s t := by
  cases h with
  | error => exact .trap s _ _
  | abort => exact .inner rfl
  | store h => exact .inner h

/-- A trap records its exception whatever is pending. -/
theorem userRun_traps {inst : Inst} (ht : inst.traps) (s : Cpu) : UserRun s (execute inst s).2 := by
  cases inst with
  | int3 | unknown => exact .trap s _ _
  | into =>
    show UserRun s (if s.getFlag Flags.of then s.setPending 0x04 none else s)
    split
    · exact .trap s _ _
    · exact .inner rfl
  | _ => cases ht

theorem userRun_execute {inst : Inst} (hc : inst.contained) {s : Cpu} (hpe : s.pe = true)
    (hcpl : s.cpl = 3) : UserRun s (execute inst s).2 := by
  by_cases ht : inst.traps = true
  · exact userRun_traps ht s
  simp only [Inst.contained, Bool.or_eq_true] at hc
  obtain (hc | hd) | hg := hc
  · have hrun : Confined s (execute inst s).2 := execute_userFrame hc fun h => absurd h ht
    exact hrun hpe hcpl
  · obtain ⟨t, hread, hstep⟩ := divides_execute hd s
    exact .trans (hread Confined hpe hcpl) (userRun_divideStep hstep)
  · rcases guarded_execute hg hcpl with h | h <;> rw [h] <;> exact .raise s _

/-! ## The two ways in -/

/-- INT n through a gate starts at the gate's CS:RIP. -/
theorem int_entry {v : U8} {s : Cpu} (hpe : s.pe = true) (hv : s.biosHandle v = none) :
    (execute (.int v) s).2.cs = (s.gateOf v).selector ∧
      (execute (.int v) s).2.rip = (s.gateOf v).target := by
  have hrun : (execute (.int v) s).2 = (protectedIntErr v none s).2 := by
    show (int v s).2 = _
    rw [int, bind_run, get_run, hv]
    dsimp only
    rw [if_pos hpe]
    rfl
  rw [hrun]
  exact ⟨(delivered_fields v none hpe).1, (delivered_fields v none hpe).2.2.2.2.1⟩

/-- SYSCALL, when enabled, starts at STAR's code segment and LSTAR. -/
theorem syscall_entry {s : Cpu} (hpe : s.pe = true) (hsce : test s.efer Efer.sce = true) :
    (execute .syscall s).2.cs = u16 (s.star >>> 32) &&& 0xFFFC ∧
      (execute .syscall s).2.rip = s.lstar := by
  have hrun : (execute .syscall s).2 = s.enterKernel := by
    show (if !test s.efer Efer.sce then s.undefinedOpcode else s.enterKernel) = _
    rw [hsce]
    rfl
  rw [hrun]
  have henter (t : Cpu) (h : t.pe = true) (sel : U16) :
      ((t.loadSeg .cs sel).loadSeg .ss (sel + 8)).cs = sel ∧
        ((t.loadSeg .cs sel).loadSeg .ss (sel + 8)).lstar = t.lstar := by
    have hcode := Cpu.loadSeg_cs h sel
    have hpe' : (t.loadSeg .cs sel).pe = true := by
      rw [hcode]
      exact h
    rw [Cpu.loadSeg_ss hpe', hcode]
    exact ⟨rfl, rfl⟩
  exact henter (((s.setRegWRaw 1 .w64 s.rip).setRegWRaw 11 .w64 (u64 s.flags)).modifyFlags _) hpe _

/-! ## User mode -/

/-- Executed at CPL 3, a contained instruction stays there, is a run of the user's machine and
reaches no privileged state; one that checks the privilege level raises #GP or #UD and does nothing
else. INT n through a gate and SYSCALL start at the configured entry. -/
theorem user_confined (inst : Inst) {s : Cpu} (hpe : s.pe = true) (hcpl : s.cpl = 3) :
    (inst.contained → UserRun s (execute inst s).2 ∧ (execute inst s).2.cpl = 3 ∧
      (execute inst s).2.privileged = s.privileged) ∧
    (inst.guarded → (execute inst s).2 = s.raiseGp 0 ∨ (execute inst s).2 = s.raiseUd) ∧
    (∀ v, inst = .int v → s.biosHandle v = none →
      (execute inst s).2.cs = (s.gateOf v).selector ∧
        (execute inst s).2.rip = (s.gateOf v).target) ∧
    (inst = .syscall → test s.efer Efer.sce = true →
      (execute inst s).2.cs = u16 (s.star >>> 32) &&& 0xFFFC ∧
        (execute inst s).2.rip = s.lstar) := by
  refine ⟨fun hc => ?_, fun hg => guarded_execute hg hcpl, ?_, ?_⟩
  · have hrun := userRun_execute hc hpe hcpl
    have hsealed := sealed_userRun hrun
    exact ⟨hrun, hsealed.cpl.trans hcpl, hsealed.privileged⟩
  · rintro v rfl hv
    exact int_entry hpe hv
  · rintro rfl hsce
    exact syscall_entry hpe hsce

/-- User code in protected mode, paging off, with interrupts on; ECX names LSTAR. -/
def userMachine : Cpu :=
  { Cpu.withRam 0x100000 (by decide) 0 with
    pe := true, cr0 := 0x9, cs := 3, flags := 0x202, gdtLimit := 0xFF, idtLimit := 0xFF
    regs := fun i => if i = 1 then 0xC0000082 else 0x10AB }

/-- A memory operand at BX+SI, and the register operand EAX. -/
def atBxSi : ModRm := { modField := 0, reg := 0, rm := 0, rmRaw := 0 }
def inEax : ModRm := { modField := 3, reg := 0, rm := 0, rmRaw := 0 }

/-- An increment in memory stays confined. -/
theorem userMachine_confined :
    UserRun userMachine (execute (.incRm8 atBxSi) userMachine).2 ∧
      (execute (.incRm8 atBxSi) userMachine).2.cpl = 3 := by
  have hpe : userMachine.pe = true := rfl
  have hcpl : userMachine.cpl = 3 := by decide
  obtain ⟨hrun, hring, -⟩ := (user_confined (.incRm8 atBxSi) hpe hcpl).1 rfl
  exact ⟨hrun, hring⟩

/-- None of these checks the privilege level: at CPL 3 with IOPL 0 each changes privileged state or
leaves the code segment, and raises nothing. -/
theorem user_escapes :
    userMachine.pe = true ∧ userMachine.cpl = 3 ∧ userMachine.flags &&& 0x3000 = 0 ∧
      ∀ i ∈ [Inst.cli, .popf, .clts, .movToCr 0 0, .movToCr 3 0, .movToCr 4 0, .movToDr 0 0, .wrmsr,
          .lgdt atBxSi, .lidt atBxSi, .lldt inEax, .ltr inEax, .outImmAl 0x21, .iret32, .retf32,
          .jmpFar32 0 0],
        ¬ Sealed userMachine (execute i userMachine).2 ∧
          (execute i userMachine).2.pendingException = none := by
  refine ⟨rfl, by decide, by decide, ?_⟩
  simp only [List.forall_mem_cons, List.not_mem_nil, false_implies, implies_true, and_true]
  refine ⟨⟨fun h => ?_, by decide +kernel⟩, ⟨fun h => ?_, by decide +kernel⟩,
    ⟨fun h => ?_, by decide +kernel⟩, ⟨fun h => ?_, by decide +kernel⟩,
    ⟨fun h => ?_, by decide +kernel⟩, ⟨fun h => ?_, by decide +kernel⟩,
    ⟨fun h => ?_, by decide +kernel⟩, ⟨fun h => ?_, by decide +kernel⟩,
    ⟨fun h => ?_, by decide +kernel⟩, ⟨fun h => ?_, by decide +kernel⟩,
    ⟨fun h => ?_, by decide +kernel⟩, ⟨fun h => ?_, by decide +kernel⟩,
    ⟨fun h => ?_, by decide +kernel⟩, ⟨fun h => ?_, by decide +kernel⟩,
    ⟨fun h => ?_, by decide +kernel⟩, ⟨fun h => ?_, by decide +kernel⟩⟩
  · exact absurd (congrArg Privileged.ifIopl h.privileged) (by decide +kernel)
  · exact absurd (congrArg Privileged.ifIopl h.privileged) (by decide +kernel)
  · exact absurd (congrArg Privileged.cr0 h.privileged) (by decide +kernel)
  · exact absurd (congrArg Privileged.cr0 h.privileged) (by decide +kernel)
  · exact absurd (congrArg Privileged.cr3 h.privileged) (by decide +kernel)
  · exact absurd (congrArg Privileged.cr4 h.privileged) (by decide +kernel)
  · exact absurd (congrArg (·.dr 0) h.privileged) (by decide +kernel)
  · exact absurd (congrArg Privileged.lstar h.privileged) (by decide +kernel)
  · exact absurd (congrArg Privileged.gdt h.privileged) (by decide +kernel)
  · exact absurd (congrArg Privileged.idt h.privileged) (by decide +kernel)
  · exact absurd (congrArg Privileged.ldt h.privileged) (by decide +kernel)
  · exact absurd (congrArg Privileged.tr h.privileged) (by decide +kernel)
  · exact absurd (congrArg (·.pic.masterImr) h.privileged) (by decide +kernel)
  · exact absurd h.cs (by decide +kernel)
  · exact absurd h.cs (by decide +kernel)
  · exact absurd h.cs (by decide +kernel)

end X86Emu
