import X86Emu.SseAtomic
import X86Emu.Effects
import X86Emu.Execute

/-!
# x87 operands

What a memory operand of D8 to DF is, by its opcode, against what the executor makes of it: the
executor goes by the address size, and moves its stack whether or not the access has faulted.
-/
namespace X86Emu

open StateRules

/-! ## Decoding -/

def fpuOp (reg : U8) : FpuOp :=
  if reg = 0 then .add else if reg = 1 then .mul else if reg = 4 then .sub
  else if reg = 6 then .div else .add

/-- The x87 part of `decode_op`. -/
def decodeX87 (opcode : U8) (m : ModRm) : Inst :=
  let reg := m.reg &&& 7
  if opcode = 0xD9 then
    if reg = 0 then .fld m false
    else if reg = 2 then .fst m false
    else if reg = 3 then .fstp m false
    else if reg = 5 then .fldcw m
    else if reg = 7 then if m.isReg ∧ m.rm = 4 then .fstswAx else .fstcw m
    else .fstcw m
  else if opcode = 0xDD then
    if reg = 0 then .fld m true
    else if reg = 2 then .fst m true
    else if reg = 3 then .fstp m true
    else if reg = 7 then .fstsw m
    else .fst m true
  else if opcode = 0xDB then
    if reg = 0 then .fild m
    else if reg = 3 then .fistp m
    else if reg = 4 then if m.isReg ∧ m.rm = 3 then .fninit else .fstcw m
    else if reg = 7 then if m.isReg ∧ m.rm = 0 then .fstswAx else .fstcw m
    else .fild m
  else if opcode = 0xDF then
    if reg = 0 then .fild m
    else if reg = 3 then .fistp m
    else if reg = 4 then if m.isReg ∧ m.rm = 0 then .fstswAx else .fstsw m
    else .fild m
  else if opcode = 0xD8 ∨ opcode = 0xDC ∨ opcode = 0xDA ∨ opcode = 0xDE then .fop (fpuOp reg) m
  else .unknown (u16 opcode)

/-! ## What the opcodes name -/

inductive X87Type where
  | real32 | real64 | int32 | int16
  deriving DecidableEq

namespace X87Type

def width : X87Type → Width
  | .real32 | .int32 => .w32
  | .real64 => .w64
  | .int16 => .w16

/-- The register value of an operand, and the operand of a register value. -/
def value : X87Type → U64 → U64
  | .real32, v => widen (u32 v)
  | .real64, v => v
  | .int32, v => intToF64 ((u32 v).signExtend 64)
  | .int16, v => intToF64 ((u16 v).signExtend 64)

def bits : X87Type → U64 → U64
  | .real32, v => u64 (shorten v)
  | .real64, v => v
  | .int32, v => u64 ((asF64 v).toInt32.toBitVec : U32)
  | .int16, v => u64 (u16 ((asF64 v).toInt32.toBitVec : U32))

end X87Type

inductive X87Op where
  | load (ty : X87Type)
  | store (ty : X87Type) (pop : Bool)
  | arith (ty : X87Type) (op : FpuOp)
  | loadControl | storeControl | storeStatus

/-- The memory operations of D8 to DF with a 16-, 32- or 64-bit operand. -/
def named (opcode reg : U8) : Option X87Op :=
  if opcode = 0xD8 then some (.arith .real32 (fpuOp reg))
  else if opcode = 0xDC then some (.arith .real64 (fpuOp reg))
  else if opcode = 0xDA then some (.arith .int32 (fpuOp reg))
  else if opcode = 0xDE then some (.arith .int16 (fpuOp reg))
  else if opcode = 0xD9 then
    if reg = 0 then some (.load .real32)
    else if reg = 2 then some (.store .real32 false)
    else if reg = 3 then some (.store .real32 true)
    else if reg = 5 then some .loadControl
    else if reg = 7 then some .storeControl
    else none
  else if opcode = 0xDD then
    if reg = 0 then some (.load .real64)
    else if reg = 2 then some (.store .real64 false)
    else if reg = 3 then some (.store .real64 true)
    else if reg = 7 then some .storeStatus
    else none
  else if opcode = 0xDB then
    if reg = 0 then some (.load .int32)
    else if reg = 2 then some (.store .int32 false)
    else if reg = 3 then some (.store .int32 true)
    else none
  else if opcode = 0xDF then
    if reg = 0 then some (.load .int16)
    else if reg = 2 then some (.store .int16 false)
    else if reg = 3 then some (.store .int16 true)
    else none
  else none

/-! ## What they should do -/

/-- The operand runs on to a page of its own. -/
def crosses (s : Cpu) (a : U64) (w : Width) : Bool := test s.cr0 cr0Pg && straddles a w.bytes

def operandRead (m : ModRm) (w : Width) : Exec U64 := do
  let a ← rmAddr m false
  let s ← get
  if s.pendingException.isSome then pure 0
  else if crosses s a w then return u64 (← readSplit a (s.modrmLinear m) w.bytes)
  else pure (memReadW s.mem a w)

def operandWrite (m : ModRm) (w : Width) (v : U64) : Exec Unit := do
  let a ← rmAddr m true
  let s ← get
  if s.pendingException.isSome then pure ()
  else if crosses s a w then writeSplit a (s.modrmLinear m) w.bytes (u128 v)
  else modify (·.modifyMem (memWriteW a w v))

/-- Change the unit unless the instruction has faulted. -/
def commitFpu (f : Fpu → Fpu) : Exec Unit :=
  modify fun s => if s.pendingException.isSome then s else s.modifyFpu f

/-- The operation on the operand its opcode names. -/
def X87Op.exec (m : ModRm) : X87Op → Exec Unit
  | .load ty => do
    let v ← operandRead m ty.width
    commitFpu (·.push (ty.value v))
  | .store ty pop => do
    operandWrite m ty.width (ty.bits ((← get).fpu.stI 0))
    commitFpu fun f => if pop then f.pop else f
  | .arith ty op => do
    let v ← operandRead m ty.width
    commitFpu fun f => f.setStI 0 (op.apply (f.stI 0) (ty.value v))
  | .loadControl => do
    let v ← operandRead m .w16
    commitFpu fun f => { f with control := u16 v }
  | .storeControl => do operandWrite m .w16 (u64 (← get).fpu.control)
  | .storeStatus => do operandWrite m .w16 (u64 (← get).fpu.fstsw)

/-- The executor leaves the unit, memory and the exception as the operation does. -/
structure X87Op.Whole (x : X87Op) (m : ModRm) (s t : Cpu) : Prop where
  fpu : t.fpu = (x.exec m s).2.fpu
  mem : t.mem = (x.exec m s).2.mem
  pending : t.pendingException = (x.exec m s).2.pendingException

/-! ## Faults -/

theorem held_operandRead (m : ModRm) (w : Width) : Keeps Held (operandRead m w) :=
  (held_rmAddr _ _).bind fun _ => .get_bind fun _ =>
    .ite (.pure _) (.ite ((held_readSplit _ _ _).bind fun _ => .pure _) (.pure _))

theorem commitFpu_faulted (f : Fpu → Fpu) (s : Cpu)
    (h : (if s.pendingException.isSome then s else s.modifyFpu f).faulted) : s.faulted := by
  by_cases hs : s.pendingException.isSome = true
  · exact hs
  · rw [if_neg hs] at h
    exact h

theorem atomic_commitFpu (f : Fpu → Fpu) : FaultAtomic (commitFpu f) :=
  .commit (commitFpu_faulted f) fun _ h => if_pos h

theorem atomic_operandWrite (m : ModRm) (w : Width) (v : U64) : FaultAtomic (operandWrite m w v) := by
  refine .bind (held_rmAddr _ _) fun a => .read fun s h => atomic_ifClear (fun hs hf => ?_) h
  by_cases hc : crosses s a w = true
  · rw [if_pos hc] at hf ⊢
    exact atomic_writeSplit _ _ _ _ s hf
  · rw [if_neg hc] at hf ⊢
    exact store_unfaulted hs rfl hf

/-- An operation that faults has changed nothing, so it can be restarted. -/
theorem X87Op.held (x : X87Op) (m : ModRm) : FaultAtomic (x.exec m) := by
  cases x with
  | load ty => exact .bind (held_operandRead _ _) fun _ => atomic_commitFpu _
  | arith ty op => exact .bind (held_operandRead _ _) fun _ => atomic_commitFpu _
  | loadControl => exact .bind (held_operandRead _ _) fun _ => atomic_commitFpu _
  | storeControl => exact .get_bind fun _ => atomic_operandWrite _ _ _
  | storeStatus => exact .get_bind fun _ => atomic_operandWrite _ _ _
  | store ty pop =>
    exact .get_bind fun _ => .then_commit (atomic_operandWrite _ _ _) (commitFpu_faulted _)
      fun _ h => if_pos h

/-! ## The first page -/

/-- Translating the operand leaves what the operation reads, and faults at the unbacked address. -/
structure Accessed (s : Cpu) (r : U64 × Cpu) : Prop where
  fpu : r.2.fpu = s.fpu
  cr0 : r.2.cr0 = s.cr0
  addrsize : r.2.addrsize = s.addrsize
  fault : r.2.pendingException = s.pendingException ∨
    r.1 = unbacked ∧ r.2.mem = s.mem ∧ r.2.faulted

theorem accessed_raise (s : Cpu) (f : Fault) : Accessed s (unbacked, s.raise f) := by
  have hpending := raise_pending s f
  unfold Cpu.raise at hpending ⊢
  split
  · rename_i hs
    exact ⟨rfl, rfl, rfl, .inl rfl⟩
  · rename_i hs
    rw [if_neg hs] at hpending
    exact ⟨rfl, rfl, rfl, .inr ⟨rfl, rfl, hpending⟩⟩

theorem accessed_paging (linear : U64) (write : Bool) (s : Cpu) :
    Accessed s (applyPagingAccess linear write s) := by
  unfold applyPagingAccess applyPagingInner
  split
  · exact accessed_raise s _
  split
  · exact ⟨rfl, rfl, rfl, .inl rfl⟩
  dsimp only
  split
  · split
    · split
      · unfold Cpu.markAccessed
        split <;> exact ⟨rfl, rfl, rfl, .inl rfl⟩
      · exact ⟨rfl, rfl, rfl, .inl rfl⟩
    · exact accessed_raise s _
  · split
    · split
      · exact accessed_raise s _
      · exact ⟨rfl, rfl, rfl, .inl rfl⟩
    · exact accessed_raise s _

theorem accessed_rmAddr (m : ModRm) (write : Bool) (s : Cpu) : Accessed s (rmAddr m write s) :=
  accessed_paging _ _ _

/-! ## Where the executor does it -/

/-- The instruction the decoder makes of an operation with a memory operand. -/
def X87Op.inst (m : ModRm) : X87Op → Inst
  | .load .real32 => .fld m false
  | .load .real64 => .fld m true
  | .load _ => .fild m
  | .store .real32 false => .fst m false
  | .store .real64 false => .fst m true
  | .store _ false => .fild m
  | .store .real32 true => .fstp m false
  | .store .real64 true => .fstp m true
  | .store _ true => .fistp m
  | .arith _ op => .fop op m
  | .loadControl => .fldcw m
  | .storeControl => .fstcw m
  | .storeStatus => .fstsw m

theorem decodeX87_named {opcode : U8} {m : ModRm} {x : X87Op} (hm : m.isReg = false)
    (h : named opcode (m.reg &&& 7) = some x) : decodeX87 opcode m = x.inst m := by
  have hax (n : U8) (i j : Inst) : (if m.isReg = true ∧ m.rm = n then i else j) = j :=
    if_neg fun hc => by rw [hm] at hc; cases hc.1
  unfold named at h
  unfold decodeX87
  dsimp only
  simp only [hax]
  generalize m.reg &&& 7 = reg at h ⊢
  by_cases hD8 : opcode = 0xD8
  · subst hD8
    obtain rfl := Option.some.inj h
    rfl
  rw [if_neg hD8] at h
  by_cases hDC : opcode = 0xDC
  · subst hDC
    obtain rfl := Option.some.inj h
    rfl
  rw [if_neg hDC] at h
  by_cases hDA : opcode = 0xDA
  · subst hDA
    obtain rfl := Option.some.inj h
    rfl
  rw [if_neg hDA] at h
  by_cases hDE : opcode = 0xDE
  · subst hDE
    obtain rfl := Option.some.inj h
    rfl
  rw [if_neg hDE] at h
  by_cases hD9 : opcode = 0xD9
  · rw [if_pos hD9] at h ⊢
    split_ifs at h <;> (obtain rfl := Option.some.inj h; subst_vars; rfl)
  rw [if_neg hD9] at h ⊢
  by_cases hDD : opcode = 0xDD
  · rw [if_pos hDD] at h ⊢
    split_ifs at h <;> (obtain rfl := Option.some.inj h; subst_vars; rfl)
  rw [if_neg hDD] at h ⊢
  by_cases hDB : opcode = 0xDB
  · rw [if_pos hDB] at h ⊢
    split_ifs at h <;> (obtain rfl := Option.some.inj h; subst_vars; rfl)
  rw [if_neg hDB] at h ⊢
  by_cases hDF : opcode = 0xDF
  · rw [if_pos hDF] at h ⊢
    split_ifs at h <;> (obtain rfl := Option.some.inj h; subst_vars; rfl)
  · rw [if_neg hDF] at h
    cases h

/-- The operand translates for the access, and lies on one page. -/
structure Reachable (m : ModRm) (w : Width) (write : Bool) (s : Cpu) : Prop where
  clear : ¬ (rmAddr m write s).2.faulted
  onePage : crosses (rmAddr m write s).2 (rmAddr m write s).1 w = false

/-- Where the executor carries the operation out. -/
def X87Op.Fits (m : ModRm) (s : Cpu) : X87Op → Prop
  | .load ty => Reachable m ty.width false s ∧ (ty = .int32 → s.addrsize = true) ∧
      (ty = .int16 → s.addrsize = false)
  | .store ty pop => (Reachable m ty.width true s ∨ pop = false ∧ (rmAddr m true s).2.faulted) ∧
      (ty = .int32 ∨ ty = .int16 → pop = true ∧ s.addrsize = decide (ty = .int32) ∧
        rmAddr m true s = rmAddr m false s)
  | .arith ty _ => Reachable m ty.width false s ∧ ty = .real64
  | .loadControl => Reachable m .w16 false s ∨
      (rmAddr m false s).2.faulted ∧ s.fpu.control = 0xFFFF
  | .storeControl | .storeStatus => Reachable m .w16 true s ∨ (rmAddr m true s).2.faulted

/-- What it takes at least: nothing is pushed or popped by a faulting access, nor by FIST. -/
def X87Op.Steady (m : ModRm) (s : Cpu) : X87Op → Prop
  | .load ty => ¬ ((X87Op.load ty).exec m s).2.faulted
  | .store ty true => ¬ ((X87Op.store ty true).exec m s).2.faulted
  | .store ty false => ty = .real32 ∨ ty = .real64
  | _ => True

section Operand

variable {m : ModRm} {w : Width} {s : Cpu}

theorem operandRead_fault (h : (rmAddr m false s).2.faulted) :
    operandRead m w s = (0, (rmAddr m false s).2) := by
  rw [operandRead, bind_run, bind_run, get_run]
  dsimp only
  have hp : (rmAddr m false s).2.pendingException.isSome = true := h
  rw [if_pos hp]
  rfl

theorem operandRead_clear (h : Reachable m w false s) :
    operandRead m w s = (memReadW (rmAddr m false s).2.mem (rmAddr m false s).1 w,
      (rmAddr m false s).2) := by
  rw [operandRead, bind_run, bind_run, get_run]
  dsimp only
  have hp : ¬ (rmAddr m false s).2.pendingException.isSome = true := h.clear
  rw [if_neg hp, if_neg (by rw [h.onePage]; decide)]
  rfl

theorem operandWrite_fault {v : U64} (h : (rmAddr m true s).2.faulted) :
    (operandWrite m w v s).2 = (rmAddr m true s).2 := by
  rw [operandWrite, bind_run, bind_run, get_run]
  dsimp only
  have hp : (rmAddr m true s).2.pendingException.isSome = true := h
  rw [if_pos hp]
  rfl

theorem operandWrite_clear {v : U64} (h : Reachable m w true s) :
    (operandWrite m w v s).2 =
      (rmAddr m true s).2.modifyMem (memWriteW (rmAddr m true s).1 w v) := by
  rw [operandWrite, bind_run, bind_run, get_run]
  dsimp only
  have hp : ¬ (rmAddr m true s).2.pendingException.isSome = true := h.clear
  rw [if_neg hp, if_neg (by rw [h.onePage]; decide)]
  rfl

theorem commitFpu_clear {f : Fpu → Fpu} (h : ¬ s.faulted) : (commitFpu f s).2 = s.modifyFpu f :=
  if_neg h

theorem commitFpu_fault {f : Fpu → Fpu} (h : s.faulted) : (commitFpu f s).2 = s := if_pos h

/-- What is stored at the unbacked address is lost, and what is read there is ones. -/
theorem memWriteW_unbacked (w : Width) (v : U64) (mem : Memory) : memWriteW unbacked w v mem = mem := by
  have hu : unbacked.toNat = 0x7FFFFFFFFFFFFFFF := by decide
  cases w with
  | w8 => exact mem.writeU8_above (a := unbacked) (by omega) _
  | w16 => exact mem.writeU16_above (a := unbacked) (by omega) (by omega) _
  | w32 => exact mem.writeU32_above (a := unbacked) (by omega) (by omega) _
  | w64 => exact mem.writeU64_above (a := unbacked) (by omega) (by omega) _

theorem readU16_unbacked (mem : Memory) : mem.readU16 unbacked = 0xFFFF := by
  have hbyte (a : U64) (ha : 2 ^ 62 ≤ a.toNat) : mem.readU8 a = 0xFF := by
    unfold Memory.readU8 Memory.readU8Raw
    rw [if_neg, mem.slot_above ha]
    rintro ⟨-, hlt⟩
    have hlt := BitVec.lt_def.mp hlt
    have hend : (vgaTextBase + vgaTextSize).toNat = 0xC0000 := by decide
    omega
  have hvga : ¬ (unbacked ≥ vgaTextBase ∧ unbacked + 1 < vgaTextBase + vgaTextSize) := by decide
  unfold Memory.readU16
  rw [if_neg hvga, mem.slot_above (by decide), hbyte _ (by decide), hbyte _ (by decide)]
  rfl

theorem modifyMem_eq {t : Cpu} {f : Memory → Memory} (h : f t.mem = t.mem) : t.modifyMem f = t := by
  unfold Cpu.modifyMem
  rw [h]

theorem memWriteW_w16 (a : U64) (v : U16) : memWriteW a .w16 (u64 v) = (·.writeU16 a v) := by
  funext mem
  rw [memWriteW, u16_u64]

theorem memWriteW_w32 (a : U64) (v : U32) : memWriteW a .w32 (u64 v) = (·.writeU32 a v) := by
  funext mem
  rw [memWriteW, u32_u64]

/-! ### What each operation comes to -/

theorem load_clear {ty : X87Type} (h : Reachable m ty.width false s) :
    ((X87Op.load ty).exec m s).2 = (rmAddr m false s).2.modifyFpu
      (·.push (ty.value (memReadW (rmAddr m false s).2.mem (rmAddr m false s).1 ty.width))) := by
  rw [X87Op.exec, bind_run, operandRead_clear h]
  exact commitFpu_clear h.clear

theorem arith_clear {ty : X87Type} {op : FpuOp} (h : Reachable m ty.width false s) :
    ((X87Op.arith ty op).exec m s).2 = (rmAddr m false s).2.modifyFpu fun f =>
      f.setStI 0 (op.apply (f.stI 0)
        (ty.value (memReadW (rmAddr m false s).2.mem (rmAddr m false s).1 ty.width))) := by
  rw [X87Op.exec, bind_run, operandRead_clear h]
  exact commitFpu_clear h.clear

theorem loadControl_clear (h : Reachable m .w16 false s) :
    (X87Op.loadControl.exec m s).2 = (rmAddr m false s).2.modifyFpu fun f =>
      { f with control := (rmAddr m false s).2.mem.readU16 (rmAddr m false s).1 } := by
  rw [X87Op.exec, bind_run, operandRead_clear h]
  dsimp only
  rw [memReadW, u16_u64]
  exact commitFpu_clear h.clear

theorem loadControl_fault (h : (rmAddr m false s).2.faulted) :
    (X87Op.loadControl.exec m s).2 = (rmAddr m false s).2 := by
  rw [X87Op.exec, bind_run, operandRead_fault h]
  exact commitFpu_fault h

theorem store_clear {ty : X87Type} {pop : Bool} (h : Reachable m ty.width true s) :
    ((X87Op.store ty pop).exec m s).2 =
      ((rmAddr m true s).2.modifyMem
        (memWriteW (rmAddr m true s).1 ty.width (ty.bits (s.fpu.stI 0)))).modifyFpu
        fun f => if pop then f.pop else f := by
  have hrun : ((X87Op.store ty pop).exec m s).2 = (commitFpu (fun f => if pop then f.pop else f)
      (operandWrite m ty.width (ty.bits (s.fpu.stI 0)) s).2).2 := rfl
  rw [hrun, operandWrite_clear h]
  exact commitFpu_clear h.clear

theorem store_fault {ty : X87Type} {pop : Bool} (h : (rmAddr m true s).2.faulted) :
    ((X87Op.store ty pop).exec m s).2 = (rmAddr m true s).2 := by
  have hrun : ((X87Op.store ty pop).exec m s).2 = (commitFpu (fun f => if pop then f.pop else f)
      (operandWrite m ty.width (ty.bits (s.fpu.stI 0)) s).2).2 := rfl
  rw [hrun, operandWrite_fault h]
  exact commitFpu_fault h

/-! ### What the executor does -/

variable (hm : m.isReg = false)
include hm

theorem fld_run (w64 : Bool) :
    (fld m w64 s).2 = (rmAddr m false s).2.modifyFpu (·.push
      (if w64 then (rmAddr m false s).2.mem.readU64 (rmAddr m false s).1
        else widen ((rmAddr m false s).2.mem.readU32 (rmAddr m false s).1))) := by
  unfold fld
  rw [if_neg (by rw [hm]; decide)]
  rfl

theorem fop_run (op : FpuOp) :
    (fop op m s).2 = (rmAddr m false s).2.modifyFpu fun f => f.setStI 0 (op.apply (f.stI 0)
      ((rmAddr m false s).2.mem.readU64 (rmAddr m false s).1)) := by
  unfold fop
  rw [if_neg (by rw [hm]; decide)]
  rfl

theorem fst_run (w64 : Bool) :
    (fst m w64 s).2 = (rmAddr m true s).2.modifyMem fun mem =>
      if w64 then mem.writeU64 (rmAddr m true s).1 (s.fpu.stI 0)
      else mem.writeU32 (rmAddr m true s).1 (shorten (s.fpu.stI 0)) := by
  unfold fst
  rw [bind_run, get_run]
  dsimp only
  rw [if_neg (by rw [hm]; decide)]
  rfl

theorem fstcw_run :
    (fstcw m s).2 = (rmAddr m true s).2.modifyMem (·.writeU16 (rmAddr m true s).1 s.fpu.control) := by
  unfold fstcw
  rw [bind_run, get_run]
  dsimp only
  rw [if_neg (by rw [hm]; decide)]
  rfl

omit hm

theorem fstp_run (w64 : Bool) : (fstp m w64 s).2 = (fst m w64 s).2.modifyFpu Fpu.pop := rfl

theorem fild_run :
    (fild m s).2 = (rmAddr m false s).2.modifyFpu (·.push (intToF64
      (if (rmAddr m false s).2.addrsize
        then ((rmAddr m false s).2.mem.readU32 (rmAddr m false s).1).signExtend 64
        else ((rmAddr m false s).2.mem.readU16 (rmAddr m false s).1).signExtend 64))) := rfl

theorem fistp_run :
    (fistp m s).2 = ((rmAddr m false s).2.modifyMem fun mem =>
      if (rmAddr m false s).2.addrsize
        then mem.writeU32 (rmAddr m false s).1 ((asF64 (s.fpu.stI 0)).toInt32.toBitVec : U32)
        else mem.writeU16 (rmAddr m false s).1
          (u16 ((asF64 (s.fpu.stI 0)).toInt32.toBitVec : U32))).modifyFpu Fpu.pop := rfl

theorem fldcw_run :
    (fldcw m s).2 = (rmAddr m false s).2.modifyFpu fun f =>
      { f with control := (rmAddr m false s).2.mem.readU16 (rmAddr m false s).1 } := rfl

theorem fstsw_run :
    (fstsw m s).2 = (rmAddr m true s).2.modifyMem (·.writeU16 (rmAddr m true s).1 s.fpu.fstsw) := rfl

end Operand

/-! ## The executor and the operations -/

theorem X87Op.whole_of_eq {x : X87Op} {m : ModRm} {s t : Cpu} (h : t = (x.exec m s).2) :
    x.Whole m s t := by
  subst h
  exact ⟨rfl, rfl, rfl⟩

/-- A fault of the operand's own: nothing was pending before. -/
theorem lost_of_faulted {m : ModRm} {write : Bool} {s : Cpu} (hs : s.pendingException = none)
    (h : (rmAddr m write s).2.faulted) : (rmAddr m write s).1 = unbacked := by
  rcases (accessed_rmAddr m write s).fault with hsame | ⟨hlost, -⟩
  · rw [Cpu.faulted, hsame, hs] at h
    cases h
  · exact hlost

/-- Where an operation fits, the executor carries it out. -/
theorem X87Op.eq_of_fits {x : X87Op} {m : ModRm} {s : Cpu} (hm : m.isReg = false)
    (hs : s.pendingException = none) (h : x.Fits m s) : (execute (x.inst m) s).2 = (x.exec m s).2 := by
  have haddr (w : Bool) : (rmAddr m w s).2.addrsize = s.addrsize := (accessed_rmAddr m w s).addrsize
  cases x with
  | load ty =>
    obtain ⟨hreach, h32, h16⟩ := h
    rw [load_clear hreach]
    cases ty with
    | real32 =>
      refine (fld_run hm false).trans ?_
      rw [X87Type.value, X87Type.width, memReadW, u32_u64]
      rfl
    | real64 => exact fld_run hm true
    | int32 =>
      refine fild_run.trans ?_
      rw [haddr, h32 rfl, X87Type.value, X87Type.width, memReadW, u32_u64]
      rfl
    | int16 =>
      refine fild_run.trans ?_
      rw [haddr, h16 rfl, X87Type.value, X87Type.width, memReadW, u16_u64]
      rfl
  | arith ty op =>
    obtain ⟨hreach, rfl⟩ := h
    rw [arith_clear hreach]
    exact fop_run hm op
  | loadControl =>
    refine fldcw_run.trans ?_
    rcases h with hreach | ⟨hfault, hones⟩
    · exact (loadControl_clear hreach).symm
    · have hcontrol : (rmAddr m false s).2.fpu.control = 0xFFFF := by
        rw [(accessed_rmAddr m false s).fpu, hones]
      rw [loadControl_fault hfault, lost_of_faulted hs hfault, readU16_unbacked, ← hcontrol]
      rfl
  | storeControl =>
    have hrun : (X87Op.storeControl.exec m s).2 = (operandWrite m .w16 (u64 s.fpu.control) s).2 := rfl
    refine (fstcw_run hm).trans ?_
    rcases h with hreach | hfault
    · rw [hrun, operandWrite_clear hreach]
      rw [memWriteW_w16]
    · have hlost := memWriteW_unbacked .w16 (u64 s.fpu.control) (rmAddr m true s).2.mem
      rw [memWriteW_w16] at hlost
      rw [hrun, operandWrite_fault hfault, lost_of_faulted hs hfault, modifyMem_eq hlost]
  | storeStatus =>
    have hrun : (X87Op.storeStatus.exec m s).2 = (operandWrite m .w16 (u64 s.fpu.fstsw) s).2 := rfl
    refine fstsw_run.trans ?_
    rcases h with hreach | hfault
    · rw [hrun, operandWrite_clear hreach]
      rw [memWriteW_w16]
    · have hlost := memWriteW_unbacked .w16 (u64 s.fpu.fstsw) (rmAddr m true s).2.mem
      rw [memWriteW_w16] at hlost
      rw [hrun, operandWrite_fault hfault, lost_of_faulted hs hfault, modifyMem_eq hlost]
  | store ty pop =>
    obtain ⟨hwrite, hint⟩ := h
    have hreal (w64 : Bool) (hty : ty = if w64 then .real64 else .real32) :
        (fst m w64 s).2 = (rmAddr m true s).2.modifyMem
          (memWriteW (rmAddr m true s).1 ty.width (ty.bits (s.fpu.stI 0))) := by
      rw [fst_run hm, hty]
      cases w64 with
      | true => rfl
      | false =>
        simp only [Bool.false_eq_true, if_false, X87Type.width, X87Type.bits, memWriteW_w32]
    have hfst (w64 : Bool) (hty : ty = if w64 then .real64 else .real32) :
        (fst m w64 s).2 = ((X87Op.store ty false).exec m s).2 := by
      rw [hreal w64 hty]
      rcases hwrite with hreach | ⟨-, hfault⟩
      · rw [store_clear hreach]
        rfl
      · rw [store_fault hfault, lost_of_faulted hs hfault,
          modifyMem_eq (memWriteW_unbacked _ _ _)]
    have hfstp (w64 : Bool) (hty : ty = if w64 then .real64 else .real32) (hpop : pop = true) :
        (fstp m w64 s).2 = ((X87Op.store ty true).exec m s).2 := by
      have hreach : Reachable m ty.width true s :=
        hwrite.resolve_right fun hc => by rw [hpop] at hc; cases hc.1
      rw [fstp_run, hreal w64 hty, store_clear hreach]
      rfl
    have hfistp (hty : ty = .int32 ∨ ty = .int16) :
        (fistp m s).2 = ((X87Op.store ty true).exec m s).2 := by
      obtain ⟨hpop, hsize, hsame⟩ := hint hty
      have hreach : Reachable m ty.width true s :=
        hwrite.resolve_right fun hc => by rw [hpop] at hc; cases hc.1
      rw [fistp_run, store_clear hreach, ← hsame, haddr, hsize]
      rcases hty with rfl | rfl
      · simp only [decide_true, if_true, X87Type.width, X87Type.bits, memWriteW_w32]
      · have hno : decide (X87Type.int16 = X87Type.int32) = false := rfl
        simp only [hno, Bool.false_eq_true, if_false, if_true, X87Type.width, X87Type.bits,
          memWriteW_w16]
    cases pop with
    | false =>
      cases ty with
      | real32 => exact hfst false rfl
      | real64 => exact hfst true rfl
      | int32 => exact absurd (hint (.inl rfl)).1 Bool.false_ne_true
      | int16 => exact absurd (hint (.inr rfl)).1 Bool.false_ne_true
    | true =>
      cases ty with
      | real32 => exact hfstp false rfl rfl
      | real64 => exact hfstp true rfl rfl
      | int32 => exact hfistp (.inl rfl)
      | int16 => exact hfistp (.inr rfl)

/-! ### Stack motion -/

theorem top_push (f : Fpu) (v : U64) : (f.push v).top = f.top + 7 := rfl

theorem top_pop (f : Fpu) : f.pop.top = f.top + 1 := rfl

theorem add_ne (i : Fin 8) : i + 7 ≠ i ∧ i + 1 ≠ i := by
  revert i
  decide

/-- The executor pushes for every load and for FIST, and pops for every popping store. -/
theorem X87Op.top_moves {x : X87Op} {m : ModRm} {s : Cpu} (hm : m.isReg = false)
    (hx : (∃ ty, x = .load ty) ∨ (∃ ty, x = .store ty true) ∨
      x = .store .int32 false ∨ x = .store .int16 false) :
    (execute (x.inst m) s).2.fpu.top ≠ s.fpu.top := by
  have hfpu (w : Bool) : (rmAddr m w s).2.fpu = s.fpu := (accessed_rmAddr m w s).fpu
  have hpush (v : U64) : ((rmAddr m false s).2.modifyFpu (·.push v)).fpu.top ≠ s.fpu.top := by
    have hne := (add_ne s.fpu.top).1
    rw [Cpu.modifyFpu, top_push, hfpu]
    exact hne
  have hpop (w : Bool) (f : Memory → Memory) :
      (((rmAddr m w s).2.modifyMem f).modifyFpu Fpu.pop).fpu.top ≠ s.fpu.top := by
    have hne := (add_ne s.fpu.top).2
    rw [Cpu.modifyFpu, top_pop, Cpu.modifyMem, hfpu]
    exact hne
  rcases hx with ⟨ty, rfl⟩ | ⟨ty, rfl⟩ | rfl | rfl
  · cases ty with
    | real32 => exact (fld_run hm false).symm ▸ hpush _
    | real64 => exact (fld_run hm true).symm ▸ hpush _
    | int32 | int16 => exact hpush _
  · cases ty with
    | real32 =>
      have hrun : (fstp m false s).2 = _ :=
        (fstp_run false).trans (congrArg (·.modifyFpu Fpu.pop) (fst_run hm false))
      exact hrun.symm ▸ hpop _ _
    | real64 =>
      have hrun : (fstp m true s).2 = _ :=
        (fstp_run true).trans (congrArg (·.modifyFpu Fpu.pop) (fst_run hm true))
      exact hrun.symm ▸ hpop _ _
    | int32 | int16 => exact hpop _ _
  · exact hpush _
  · exact hpush _

theorem operandWrite_fpu (m : ModRm) (w : Width) (v : U64) (s : Cpu) :
    (operandWrite m w v s).2.fpu = s.fpu := by
  have hfpu := (accessed_rmAddr m true s).fpu
  rw [operandWrite, bind_run, bind_run, get_run]
  dsimp only
  split
  · exact hfpu
  split
  · unfold writeSplit
    rw [bind_run, bind_run, get_run]
    dsimp only
    have hsecond := (accessed_paging
      (((rmAddr m true s).2.modrmLinear m &&& ~~~0xFFF) + 0x1000) true (rmAddr m true s).2).fpu
    split
    · exact hsecond.trans hfpu
    · exact hsecond.trans hfpu
  · exact hfpu

/-- The operations move the stack only where they do not fault. -/
theorem X87Op.steady_of_whole {x : X87Op} {m : ModRm} {s : Cpu} (hm : m.isReg = false)
    (h : x.Whole m s (execute (x.inst m) s).2) : x.Steady m s := by
  have htop := congrArg Fpu.top h.fpu
  cases x with
  | load ty =>
    intro hfault
    have hheld := X87Op.held (.load ty) m s hfault
    rw [hheld.fpu] at htop
    exact X87Op.top_moves hm (.inl ⟨ty, rfl⟩) htop
  | store ty pop =>
    cases pop with
    | true =>
      intro hfault
      have hheld := X87Op.held (.store ty true) m s hfault
      rw [hheld.fpu] at htop
      exact X87Op.top_moves hm (.inr (.inl ⟨ty, rfl⟩)) htop
    | false =>
      have hfpu : ((X87Op.store ty false).exec m s).2.fpu = s.fpu := by
        have hrun : ((X87Op.store ty false).exec m s).2 = (commitFpu (fun f => f)
          (operandWrite m ty.width (ty.bits (s.fpu.stI 0)) s).2).2 := rfl
        have hid (t : Cpu) : (commitFpu (fun f => f) t).2.fpu = t.fpu := by
          by_cases ht : t.faulted
          · rw [commitFpu_fault ht]
          · rw [commitFpu_clear ht]
            rfl
        rw [hrun, hid, operandWrite_fpu]
      rw [hfpu] at htop
      cases ty with
      | real32 => exact .inl rfl
      | real64 => exact .inr rfl
      | int32 => exact absurd htop (X87Op.top_moves hm (.inr (.inr (.inl rfl))))
      | int16 => exact absurd htop (X87Op.top_moves hm (.inr (.inr (.inr rfl))))
  | _ => trivial

/-- An x87 memory instruction faults whole in the operation its opcode names; the executor does that
operation where it fits, and nowhere that the stack would move over a fault. -/
theorem x87_operand {opcode : U8} {m : ModRm} {x : X87Op} {s : Cpu}
    (hx : named opcode (m.reg &&& 7) = some x) (hm : m.isReg = false)
    (hs : s.pendingException = none) :
    ((x.exec m s).2.faulted → Held s (x.exec m s).2) ∧
      (x.Fits m s → x.Whole m s (execute (decodeX87 opcode m) s).2) ∧
      (x.Whole m s (execute (decodeX87 opcode m) s).2 → x.Steady m s) := by
  rw [decodeX87_named hm hx]
  exact ⟨x.held m s, fun h => X87Op.whole_of_eq (X87Op.eq_of_fits hm hs h),
    X87Op.steady_of_whole hm⟩

/-- FLD of a 32-bit operand at BX in real mode is carried out. -/
theorem x87_operand_real :
    (X87Op.load .real32).Whole atBx (Cpu.withRam (2 ^ 16) (by decide) 0)
      (execute (decodeX87 0xD9 atBx) (Cpu.withRam (2 ^ 16) (by decide) 0)).2 := by
  have hclear : (rmAddr atBx false (Cpu.withRam (2 ^ 16) (by decide) 0)).2.pendingException = none := by
    decide +kernel
  have hreach : Reachable atBx X87Type.real32.width false (Cpu.withRam (2 ^ 16) (by decide) 0) :=
    ⟨by rw [Cpu.faulted, hclear]; decide, by decide +kernel⟩
  have hfits : (X87Op.load .real32).Fits atBx (Cpu.withRam (2 ^ 16) (by decide) 0) := by
    refine ⟨hreach, ?_, ?_⟩
    · intro h
      cases h
    · intro h
      cases h
  exact (x87_operand (x := .load .real32) rfl rfl rfl).2.1 hfits

/-- EDI at a page that is not mapped. -/
def unmappedOperand : Cpu := { lastBytes with regs := fun i => if i = 7 then 0x1000 else 0 }

/-- FLD there raises #PF and has pushed. -/
theorem fld_pushes_fault :
    named 0xD9 (atBx.reg &&& 7) = some (.load .real32) ∧ unmappedOperand.pendingException = none ∧
      (execute (decodeX87 0xD9 atBx) unmappedOperand).2.pendingException = some (0x0E, some 0) ∧
      unmappedOperand.fpu.top = 0 ∧ (execute (decodeX87 0xD9 atBx) unmappedOperand).2.fpu.top = 7 ∧
      ¬ (X87Op.load .real32).Whole atBx unmappedOperand
        (execute (decodeX87 0xD9 atBx) unmappedOperand).2 := by
  have htop : (execute (decodeX87 0xD9 atBx) unmappedOperand).2.fpu.top = 7 := by decide +kernel
  refine ⟨rfl, rfl, by decide +kernel, rfl, htop, fun h => ?_⟩
  have hspec : ((X87Op.load .real32).exec atBx unmappedOperand).2.fpu.top = 0 := by decide +kernel
  rw [h.fpu, hspec] at htop
  cases htop

end X86Emu
