import X86Emu.Alu

/-!
# String instructions

The five string instructions. They share one loop, which a fault leaves at the first element not yet
processed, and differ in what they do to an element.
-/
namespace X86Emu

/-- Read a string element whose first byte translates to `phys`. -/
def strRead (phys : U64) (seg : SegReg) (off : U64) (w : Width) : Exec U64 := do
  let s ← get
  if w ≠ .w8 ∧ straddles phys w.bytes then
    return u64 (← readSplit phys (s.linearAddr seg off) w.bytes)
  else pure (memReadW s.mem phys w)

def strWrite (phys : U64) (seg : SegReg) (off : U64) (w : Width) (v : U64) : Exec Unit := do
  let s ← get
  if w ≠ .w8 ∧ straddles phys w.bytes then
    writeSplit phys (s.linearAddr seg off) w.bytes (u128 v)
  else set (s.modifyMem (memWriteW phys w v))

/-- Signed step: forward, or backward when DF is set. -/
def stringStep (s : Cpu) (w : Width) : U64 :=
  if s.getFlag Flags.df then -BitVec.ofNat 64 w.bytes else BitVec.ofNat 64 w.bytes

/-- Advance an index, wrapping at the address size. -/
def stringAdvance (v step : U64) (asize : Width) : U64 :=
  match asize with
  | .w64 => v + step
  | .w32 => (v + step) &&& 0xFFFFFFFF
  | _ => (v + step) &&& 0xFFFF

/-- The iteration count: the count register under a REP prefix, one without. -/
def stringCount (s : Cpu) (rep : Rep) : Nat :=
  if rep = .none then 1 else (s.regW 1 s.asize).toNat

/-- Should a comparison keep going, once it has compared an element? -/
def stringRepeat (s : Cpu) (rep : Rep) (remaining : Nat) : Bool :=
  match rep with
  | .none => false
  | .repe => remaining != 0 && s.getFlag Flags.zf
  | .repne => remaining != 0 && !s.getFlag Flags.zf

/-! ## Elements -/

/-- What a string instruction does: to one element, and to the index registers. -/
structure StringOp where
  element : Width → U64 → U64 → Exec Unit
  usesSi : Bool
  usesDi : Bool
  /-- Comparisons also stop on ZF. -/
  compares : Bool

def movsElement (w : Width) (si di : U64) : Exec Unit := do
  let seg := (← get).operandSeg .ds
  let src ← translate seg si
  let dst ← translateWrite .es di
  if (← get).pendingException.isSome then pure ()
  else
    let v ← strRead src seg si w
    strWrite dst .es di w v

def stosElement (w : Width) (_ di : U64) : Exec Unit := do
  let dst ← translateWrite .es di
  let s ← get
  if s.pendingException.isSome then pure () else strWrite dst .es di w (s.regW 0 w)

def lodsElement (w : Width) (si _ : U64) : Exec Unit := do
  let seg := (← get).operandSeg .ds
  let src ← translate seg si
  if (← get).pendingException.isSome then pure ()
  else
    let v ← strRead src seg si w
    if (← get).pendingException.isSome then pure () else modify (·.setRegW 0 w v)

def cmpsElement (w : Width) (si di : U64) : Exec Unit := do
  let seg := (← get).operandSeg .ds
  let src ← translate seg si
  let dst ← translate .es di
  let s ← get
  if s.pendingException.isSome then pure ()
  else
    let _ ← withFlags (aluW .cmp (memReadW s.mem src w) (memReadW s.mem dst w) w)

def scasElement (w : Width) (_ di : U64) : Exec Unit := do
  let dst ← translate .es di
  let s ← get
  if s.pendingException.isSome then pure ()
  else
    let _ ← withFlags (aluW .cmp (s.regW 0 w) (memReadW s.mem dst w) w)

def StringOp.movs : StringOp := ⟨movsElement, true, true, false⟩
def StringOp.stos : StringOp := ⟨stosElement, false, true, false⟩
def StringOp.lods : StringOp := ⟨lodsElement, true, false, false⟩
def StringOp.cmps : StringOp := ⟨cmpsElement, true, true, true⟩
def StringOp.scas : StringOp := ⟨scasElement, false, true, true⟩

/-! ## The loop -/

/-- Where a loop stands: both indices and the elements left. -/
structure StringPos where
  si : U64
  di : U64
  left : Nat
  deriving DecidableEq, Repr

/-- Past one element. -/
def StringPos.next (p : StringPos) (step : U64) (asize : Width) : StringPos where
  si := stringAdvance p.si step asize
  di := stringAdvance p.di step asize
  left := p.left - 1

/-- Process elements until none is left, one faults, or a comparison stops. -/
def stringLoop (op : StringOp) (rep : Rep) (w : Width) (step : U64) (asize : Width) :
    Nat → U64 → U64 → Exec StringPos
  | 0, si, di => pure ⟨si, di, 0⟩
  | n + 1, si, di => do
    op.element w si di
    let s ← get
    let si' := stringAdvance si step asize
    let di' := stringAdvance di step asize
    if s.pendingException.isSome then pure ⟨si, di, n + 1⟩
    else if op.compares && !stringRepeat s rep n then pure ⟨si', di', n⟩
    else stringLoop op rep w step asize n si' di'

/-- Record where the loop stopped. These writes land even though a fault is pending. -/
def stringCommit (op : StringOp) (rep : Rep) (asize : Width) (p : StringPos) (s : Cpu) : Cpu :=
  let s := if op.usesSi then s.setRegWRaw 6 asize p.si else s
  let s := if op.usesDi then s.setRegWRaw 7 asize p.di else s
  if rep ≠ .none then s.setRegWRaw 1 asize (BitVec.ofNat 64 p.left) else s

/-- The element width: bytes, or the operand size. -/
def stringWidth (s : Cpu) (word : Bool) : Width := if word then s.osize else .w8

def stringInst (op : StringOp) (rep : Rep) (word : Bool) : Exec Unit := do
  let s ← get
  let w := stringWidth s word
  let p ← stringLoop op rep w (stringStep s w) s.asize (stringCount s rep) (s.regW 6 s.asize)
    (s.regW 7 s.asize)
  modify (stringCommit op rep s.asize p)

end X86Emu
