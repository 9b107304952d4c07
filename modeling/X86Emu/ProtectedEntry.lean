import X86Emu.BootStructures
import X86Emu.FaultingDelivery

/-!
# Entering protected mode

The state a 32-bit kernel starts in: flat segments, a stack below boot_params and interrupts off.
-/
namespace X86Emu

open Boot Overlay Memory

/-- The flat segments: the whole address space, from zero. -/
def flatCode : Descriptor := Descriptor.parse 0x00CF9A000000FFFF
def flatData : Descriptor := Descriptor.parse 0x00CF92000000FFFF

/-- The machine runs 32-bit code at the entry with flat segments, ESI at boot_params and interrupts
off. -/
structure Started32 (t : Cpu) (entry : U32) : Prop where
  rip : t.rip = u64 entry
  esp : t.regs 4 = 0x8FFF0
  esi : t.regs 6 = u64 bootParamsAddr
  protection : t.pe = true ∧ test t.cr0 1 = true
  paging : t.pagingMode = .off
  code : t.segDesc .cs = flatCode ∧ t.cs = kernelCs
  data : ∀ r, r ≠ .cs → t.segDesc r = flatData ∧ t.seg r = kernelDs
  masked : t.getFlag Flags.if' = false
  running : t.halted = false

namespace Cpu

variable {s : Cpu}

/-- Loading a segment register caches its descriptor and leaves the others. -/
theorem loadSeg_fields (hpe : s.pe = true) (r r' : SegReg) (sel : U16) :
    (s.loadSeg r sel).segDesc r' = (if r' = r then s.descriptorFor sel else s.segDesc r') ∧
      (s.loadSeg r sel).seg r' = if r' = r then sel else s.seg r' := by
  unfold loadSeg
  rw [if_pos hpe]
  cases r <;> cases r' <;> exact ⟨rfl, rfl⟩

/-- What a segment load reads besides the selector is not changed by one. -/
theorem descriptorFor_loadSeg (hpe : s.pe = true) (r : SegReg) (sel sel' : U16) :
    (s.loadSeg r sel).descriptorFor sel' = s.descriptorFor sel' ∧ (s.loadSeg r sel).pe = true := by
  unfold loadSeg
  rw [if_pos hpe]
  cases r <;> exact ⟨rfl, hpe⟩

/-- Segment registers loaded one after another, each once, all hold what their selectors name. -/
theorem foldl_loadSeg : ∀ {l : List (SegReg × U16)} {s : Cpu}, s.pe = true →
    (l.map Prod.fst).Nodup →
    (∀ p ∈ l, (l.foldl (fun s p => s.loadSeg p.1 p.2) s).segDesc p.1 = s.descriptorFor p.2 ∧
      (l.foldl (fun s p => s.loadSeg p.1 p.2) s).seg p.1 = p.2) ∧
    ∀ r ∉ l.map Prod.fst, (l.foldl (fun s p => s.loadSeg p.1 p.2) s).segDesc r = s.segDesc r ∧
      (l.foldl (fun s p => s.loadSeg p.1 p.2) s).seg r = s.seg r
  | [], _, _, _ => ⟨fun p hp => absurd hp List.not_mem_nil, fun _ _ => ⟨rfl, rfl⟩⟩
  | q :: l, s, hpe, hnodup => by
    obtain ⟨hq, hl⟩ := List.nodup_cons.mp hnodup
    have hkept := (descriptorFor_loadSeg hpe q.1 q.2 0).2
    obtain ⟨hin, hout⟩ := foldl_loadSeg hkept hl
    rw [List.foldl_cons]
    refine ⟨fun p hp => ?_, fun r hr => ?_⟩
    · rcases List.mem_cons.mp hp with rfl | hp
      · obtain ⟨hdesc, hsel⟩ := hout p.1 hq
        obtain ⟨hdesc', hsel'⟩ := loadSeg_fields hpe p.1 p.1 p.2
        rw [if_pos rfl] at hdesc' hsel'
        exact ⟨hdesc.trans hdesc', hsel.trans hsel'⟩
      · obtain ⟨hdesc, hsel⟩ := hin p hp
        exact ⟨hdesc.trans (descriptorFor_loadSeg hpe q.1 q.2 p.2).1, hsel⟩
    · rw [List.map_cons, List.mem_cons, not_or] at hr
      obtain ⟨hdesc, hsel⟩ := hout r hr.2
      obtain ⟨hdesc', hsel'⟩ := loadSeg_fields hpe q.1 r q.2
      rw [if_neg hr.1] at hdesc' hsel'
      exact ⟨hdesc.trans hdesc', hsel.trans hsel'⟩

/-- What one segment load leaves, any number of them leave. -/
theorem foldl_loadSeg_keeps {α : Type} {f : Cpu → α} (h : ∀ s r sel, f (s.loadSeg r sel) = f s) :
    ∀ (l : List (SegReg × U16)) (s : Cpu), f (l.foldl (fun s p => s.loadSeg p.1 p.2) s) = f s
  | [], _ => rfl
  | p :: l, s => (foldl_loadSeg_keeps h l (s.loadSeg p.1 p.2)).trans (h s p.1 p.2)

/-- A segment load leaves memory, the paging unit, CR0 and protection. -/
theorem loadSeg_keeps (s : Cpu) (r : SegReg) (sel : U16) :
    ((s.loadSeg r sel).tables, (s.loadSeg r sel).cr0, (s.loadSeg r sel).pe) =
      (s.tables, s.cr0, s.pe) := by
  refine congrArg₂ Prod.mk (tables_loadSeg s r sel) ?_
  unfold loadSeg
  cases hpe : s.pe <;> cases r <;> exact congrArg (Prod.mk s.cr0) hpe

end Cpu

namespace Boot

/-- The segment loads of the protected-mode entry. -/
def flatLoads : List (SegReg × U16) :=
  [(.cs, kernelCs), (.ds, kernelDs), (.es, kernelDs), (.ss, kernelDs), (.fs, kernelDs),
    (.gs, kernelDs)]

/-- With paging off, the flat GDT is read where it is written. -/
theorem descriptorFor_flat {s : Cpu} (hpaging : test s.cr0 cr0Pg = false)
    (hgdt : s.gdtBase = u64 gdtAddr) (hshows : ∀ b ∈ gdtBlocks, s.mem.Shows b) :
    s.descriptorFor kernelCs = flatCode ∧ s.descriptorFor kernelDs = flatData := by
  have hcode := readU64_of_shows (hshows _ (List.mem_cons_of_mem _ List.mem_cons_self)) (by decide)
  have hdata := readU64_of_shows (hshows _ (List.mem_cons_of_mem _ (List.mem_cons_of_mem _
    List.mem_cons_self))) (by decide)
  have hphys (l : U64) : s.linearToPhysRo l = l := by
    unfold Cpu.linearToPhysRo
    rw [hpaging]
    rfl
  unfold Cpu.descriptorFor
  dsimp only
  rw [hgdt, hphys, hphys]
  exact ⟨congrArg Descriptor.parse hcode, congrArg Descriptor.parse hdata⟩

/-- The state a 32-bit kernel is entered in, with the flat GDT in memory. -/
theorem started32 {s : Cpu} (entry : U32) (hpaging : test s.cr0 cr0Pg = false)
    (hshows : ∀ b ∈ gdtBlocks, s.mem.Shows b) :
    Started32 { (enterProtectedMode s).setEip entry with halted := false } entry ∧
      ({ (enterProtectedMode s).setEip entry with halted := false } : Cpu).mem = s.mem := by
  obtain ⟨u, hu⟩ : ∃ u : Cpu, u = { s with
    gdtBase := u64 gdtAddr, gdtLimit := 24, pe := true, cr0 := s.cr0 ||| 1 } := ⟨_, rfl⟩
  have hpe : u.pe = true := by rw [hu]
  have hgdt : u.gdtBase = u64 gdtAddr := by rw [hu]
  have hmem : u.mem = s.mem := by rw [hu]
  have hpg : test u.cr0 cr0Pg = false := by
    rw [hu]
    show test (s.cr0 ||| 1) cr0Pg = false
    rw [show cr0Pg = (1 : U32) <<< 31 from rfl, PagingMode.test_or (by decide)]
    rw [show cr0Pg = (1 : U32) <<< 31 from rfl] at hpaging
    rw [hpaging]
    decide
  have hprotect : test u.cr0 1 = true := by
    rw [hu]
    show test (s.cr0 ||| 1) ((1 : U32) <<< 0) = true
    rw [PagingMode.test_or (by decide)]
    exact Bool.or_true _
  -- the six segment loads
  have hloads := (Cpu.foldl_loadSeg hpe (show (flatLoads.map Prod.fst).Nodup by decide)).1
  have hkeeps := Cpu.foldl_loadSeg_keeps (f := fun s => (s.tables, s.cr0, s.pe)) Cpu.loadSeg_keeps
    flatLoads u
  generalize hv : flatLoads.foldl (fun s p => s.loadSeg p.1 p.2) u = v at hloads hkeeps
  have henter : enterProtectedMode s =
      ((v.setEsp 0x8FFF0).setEsi bootParamsAddr).modifyFlags (setFlag Flags.if' false) := by
    rw [← hv, hu]
    rfl
  obtain ⟨htables, hcr0, hvpe⟩ : v.tables = u.tables ∧ v.cr0 = u.cr0 ∧ v.pe = u.pe := by
    simpa only [Prod.mk.injEq] using hkeeps
  have hvmem : v.mem = u.mem := congrArg (·.1) htables
  have hoff : v.pagingMode = .off := by
    unfold Cpu.pagingMode
    rw [hcr0, hpg]
    rfl
  obtain ⟨hcode, hdata⟩ := descriptorFor_flat hpg hgdt (hmem.symm ▸ hshows)
  rw [henter]
  refine ⟨⟨rfl, rfl, rfl, ⟨hvpe.trans hpe, ?_⟩, hoff, ?_, fun r hr => ?_, test_andNot _ _, rfl⟩,
    hvmem.trans hmem⟩
  · show test v.cr0 1 = true
    rw [hcr0]
    exact hprotect
  · obtain ⟨hdesc, hsel⟩ := hloads (.cs, kernelCs) (by decide)
    exact ⟨hdesc.trans hcode, hsel⟩
  · have hin : (r, kernelDs) ∈ flatLoads := by
      cases r <;> first | exact absurd rfl hr | decide
    obtain ⟨hdesc, hsel⟩ := hloads (r, kernelDs) hin
    refine ⟨hdesc.trans hdata, Eq.trans ?_ hsel⟩
    cases r <;> rfl

end Boot

end X86Emu
