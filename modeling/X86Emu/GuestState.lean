import X86Emu.Frame

/-!
# What entries and exits do to the VMX state

Loading a guest or a host writes no VMCS field; an exit leaves non-root operation.
-/
namespace X86Emu

/-- The area fields of a segment. -/
def SegReg.fields : SegReg → SegFields
  | .es => ⟨.es, Field.guestEsSel, Field.guestEsBase, Field.guestEsLimit, Field.guestEsAr⟩
  | .cs => ⟨.cs, Field.guestCsSel, Field.guestCsBase, Field.guestCsLimit, Field.guestCsAr⟩
  | .ss => ⟨.ss, Field.guestSsSel, Field.guestSsBase, Field.guestSsLimit, Field.guestSsAr⟩
  | .ds => ⟨.ds, Field.guestDsSel, Field.guestDsBase, Field.guestDsLimit, Field.guestDsAr⟩
  | .fs => ⟨.fs, Field.guestFsSel, Field.guestFsBase, Field.guestFsLimit, Field.guestFsAr⟩
  | .gs => ⟨.gs, Field.guestGsSel, Field.guestGsBase, Field.guestGsLimit, Field.guestGsAr⟩

namespace Cpu

variable (s : Cpu)

@[simp] theorem vmx_setReg (i : Fin 16) (v : U64) : (s.setReg i v).vmx = s.vmx := rfl
@[simp] theorem vmx_flushTlb : s.flushTlb.vmx = s.vmx := rfl
@[simp] theorem vmx_invalidatePhysIp : s.invalidatePhysIp.vmx = s.vmx := rfl
@[simp] theorem vmx_setSegDesc (r : SegReg) (d : Descriptor) : (s.setSegDesc r d).vmx = s.vmx := rfl

@[simp] theorem vmx_setSeg (r : SegReg) (v : U16) : (s.setSeg r v).vmx = s.vmx := by
  cases r <;> rfl

@[simp] theorem vmx_updateLongMode : s.updateLongMode.vmx = s.vmx := by
  unfold updateLongMode
  dsimp only
  split <;> rfl

@[simp] theorem vmx_writeCr0 (v : U32) : (s.writeCr0 v).vmx = s.vmx := by
  unfold writeCr0
  dsimp only
  split <;> simp

theorem vmx_foldl {β : Type} {f : Cpu → β → Cpu} (h : ∀ t b, (f t b).vmx = t.vmx) :
    ∀ (l : List β) (t : Cpu), (l.foldl f t).vmx = t.vmx
  | [], _ => rfl
  | b :: l, t => (vmx_foldl h l (f t b)).trans (h t b)

@[simp] theorem vmx_loadHostState : s.loadHostState.vmx = s.vmx := by
  have step (r : U32 → U64) (long : Bool) (t : Cpu) (f : SegReg × U32) :
      ((t.setSeg f.1 (u16 (r f.2))).setSegDesc f.1 (hostDesc long f.1)).vmx = t.vmx := by simp
  simp only [loadHostState, vmx_invalidatePhysIp, vmx_foldl (step _ _), vmx_setReg, vmx_flushTlb,
    vmx_writeCr0]

theorem segs_eq : segs = [SegReg.es, .cs, .ss, .ds, .fs, .gs].map SegReg.fields := rfl

/-- The descriptor the guest-state area of `x` holds for a segment. -/
def areaDesc (x : Vmx) (r : SegReg) : Descriptor :=
  descOf (x.read r.fields.base) (u32 (x.read r.fields.limit)) (u32 (x.read r.fields.ar))

/-- The segment loop of an entry, all at once. -/
theorem loadSegments_eq (x : Vmx) (t : Cpu) :
    segs.foldl (loadSegment x) t =
      { t with
        es := u16 (x.read Field.guestEsSel)
        cs := u16 (x.read Field.guestCsSel)
        ss := u16 (x.read Field.guestSsSel)
        ds := u16 (x.read Field.guestDsSel)
        fs := u16 (x.read Field.guestFsSel)
        gs := u16 (x.read Field.guestGsSel)
        segDesc := areaDesc x
        fsBase := x.read Field.guestFsBase
        gsBase := x.read Field.guestGsBase } := by
  have hdesc : (segs.foldl (loadSegment x) t).segDesc = areaDesc x := by
    funext r
    cases r <;> rfl
  rw [← hdesc]
  rfl

@[simp] theorem vmx_loadGuestState : s.loadGuestState.vmx = s.vmx := by
  simp only [loadGuestState, loadSegments_eq, loadGuestRegisters, loadGuestControl,
    vmx_invalidatePhysIp, vmx_setReg, vmx_flushTlb, vmx_writeCr0]

/-- An exit leaves the guest. -/
theorem vmExit_inGuest (reason : U32) (q : U64) (info err : U32) :
    (s.vmExit reason q info err).vmx.inGuest = false := by
  rw [vmExit, vmx_loadHostState]

end Cpu
end X86Emu
