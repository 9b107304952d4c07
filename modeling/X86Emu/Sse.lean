import X86Emu.Float

/-!
# SSE instructions

The operand helpers and the executor of `sse.rs`. A register-file instruction is one helper applied
to the function it computes from its destination and its source.
-/
namespace X86Emu

def mxcsrMask : U32 := 0xFFFF
def lo64 : U128 := 0xFFFFFFFFFFFFFFFF
def lo32 : U128 := 0xFFFFFFFF

/-- Replace the low bits of `old` that `mask` selects. -/
def mergeLow (mask old v : U128) : U128 := old &&& ~~~mask ||| v &&& mask

namespace Cpu

def xmmReg (s : Cpu) (i : U8) : U128 := s.xmm (regIdx i)

/-- Write an XMM register as an instruction result: suppressed once the instruction has faulted. -/
def setXmm (s : Cpu) (i : U8) (v : U128) : Cpu :=
  if s.pendingException.isSome then s
  else { s with xmm := fun j => if j = regIdx i then v else s.xmm j }

/-- The segment and offset of a memory operand. -/
def sseOperand (s : Cpu) (m : ModRm) : SegReg × U64 :=
  if s.addrsize then (s.operandSeg (s.modrmEa32 m).2, (s.modrmEa32 m).1)
  else (s.operandSeg .ds, u64 (s.modrmOffset m))

end Cpu

/-! ## Operands -/

/-- Read 4, 8 or 16 bytes from physical memory. -/
def sseMemRead (mem : Memory) (a : U64) (bytes : Nat) : U128 :=
  if bytes = 16 then mem.readU128 a
  else if bytes = 8 then u128 (mem.readU64 a)
  else u128 (mem.readU32 a)

def sseMemWrite (a : U64) (bytes : Nat) (v : U128) (mem : Memory) : Memory :=
  if bytes = 16 then mem.writeU128 a v
  else if bytes = 8 then mem.writeU64 a (u64 v)
  else mem.writeU32 a (u32 v)

/-- Read the XMM-or-memory operand. -/
def sseSrc (m : ModRm) (bytes : Nat) (aligned : Bool) : Exec U128 := do
  if m.isReg then return (← get).xmmReg m.rm
  else
    let a ← rmAddr m false
    let s ← get
    if s.pendingException.isSome then pure 0
    else if aligned ∧ a &&& 15 ≠ 0 then
      set (s.raiseGp 0)
      pure 0
    else if straddles a bytes then readSplit a (s.modrmLinear m) bytes
    else pure (sseMemRead s.mem a bytes)

/-- Store to the memory operand, or the low bits to the register operand. -/
def sseStore (m : ModRm) (bytes : Nat) (v : U128) (aligned : Bool) : Exec Unit := do
  if m.isReg then
    modify fun s => s.setXmm m.rm <|
      if bytes = 16 then v
      else mergeLow (if bytes = 8 then lo64 else lo32) (s.xmmReg m.rm) v
  else
    let a ← rmAddr m true
    let s ← get
    if s.pendingException.isSome then pure ()
    else if aligned ∧ a &&& 15 ≠ 0 then set (s.raiseGp 0)
    else if straddles a bytes then writeSplit a (s.modrmLinear m) bytes v
    else set (s.modifyMem (sseMemWrite a bytes v))

/-- The gate of every register-file instruction: #UD without OSFXSR or with EM, #NM with TS. -/
def sseGate : Exec Bool := do
  let s ← get
  if test s.cr0 0x4 || !test s.cr4 cr4Osfxsr then
    set s.raiseUd
    pure false
  else if test s.cr0 0x8 then
    set (if s.pendingException.isNone then s.setPending 0x07 none else s)
    pure false
  else pure true

/-- Read bytes at a linear address, page by page, into `buf` from index `i` on. -/
def readLinearBytes (seg : SegReg) (off : U64) (len : Nat) :
    Nat → Nat → (Nat → U8) → Exec (Nat → U8)
  | 0, _, buf => pure buf
  | fuel + 1, i, buf => do
    if i < len then
      let lin := (← get).linearAddr seg (off + BitVec.ofNat 64 i)
      let phys ← applyPagingAccess lin false
      let s ← get
      if s.pendingException.isSome then pure buf
      else
        let run := min (0x1000 - (lin &&& 0xFFF).toNat) (len - i)
        readLinearBytes seg off len fuel (i + run) fun k =>
          if i ≤ k ∧ k < i + run then s.mem.readU8 (phys + BitVec.ofNat 64 (k - i)) else buf k
    else pure buf

def writeLinearBytes (seg : SegReg) (off : U64) (len : Nat) (buf : Nat → U8) :
    Nat → Nat → Exec Unit
  | 0, _ => pure ()
  | fuel + 1, i => do
    if i < len then
      let lin := (← get).linearAddr seg (off + BitVec.ofNat 64 i)
      let phys ← applyPagingAccess lin true
      let s ← get
      if s.pendingException.isSome then pure ()
      else
        let run := min (0x1000 - (lin &&& 0xFFF).toNat) (len - i)
        set (s.modifyMem fun mem => (List.range run).foldl
          (fun mem k => mem.writeU8 (phys + BitVec.ofNat 64 k) (buf (i + k))) mem)
        writeLinearBytes seg off len buf fuel (i + run)
    else pure ()

/-! ## The FXSAVE image -/

namespace Cpu

/-- The abridged tag byte: one bit per register, set when not empty. -/
def abridgedTag (tag : U16) : U8 := ~~~u8 tag

/-- The 512-byte image. The x87 registers are stored relative to the top. -/
def fxsaveImage (s : Cpu) (i : Nat) : U8 :=
  let status := s.fpu.status &&& ~~~(0x3800 : U16) ||| BitVec.ofNat 16 s.fpu.top.val <<< 11
  if i < 2 then byteOf s.fpu.control i
  else if i < 4 then byteOf status (i - 2)
  else if i = 4 then abridgedTag s.fpu.tag
  else if 24 ≤ i ∧ i < 28 then byteOf s.mxcsr (i - 24)
  else if 28 ≤ i ∧ i < 32 then byteOf mxcsrMask (i - 28)
  else if 32 ≤ i ∧ i < 160 then
    let f80 := f64ToF80 (s.fpu.stI (Fin.ofNat 8 ((i - 32) / 16)))
    let j := (i - 32) % 16
    if j < 8 then byteOf f80.1 j else if j < 10 then byteOf f80.2 (j - 8) else 0
  else if 160 ≤ i ∧ i < 160 + 16 * (if s.longMode then 16 else 8) then
    byteOf (s.xmm (Fin.ofNat 16 ((i - 160) / 16))) ((i - 160) % 16)
  else 0

/-- Little-endian words of an image. -/
def imageU16 (b : Nat → U8) (o : Nat) : U16 := le16 (b o) (b (o + 1))
def imageU32 (b : Nat → U8) (o : Nat) : U32 := le32 (b o) (b (o + 1)) (b (o + 2)) (b (o + 3))
def imageU64 (b : Nat → U8) (o : Nat) : U64 := le64 (imageU32 b o) (imageU32 b (o + 4))
def imageU128 (b : Nat → U8) (o : Nat) : U128 := imageU64 b (o + 8) ++ imageU64 b o

/-- Load the state an image holds; a reserved MXCSR bit stops it half way. -/
def fxrstorImage (s : Cpu) (b : Nat → U8) : Cpu :=
  let status := imageU16 b 2
  let top : Fin 8 := Fin.ofNat 8 (status >>> 11).toNat
  let s := s.modifyFpu fun f =>
    { f with control := imageU16 b 0, status, top, tag := 0xFF00 ||| u16 (~~~b 4) }
  let mx := imageU32 b 24
  if test mx (~~~mxcsrMask) then s.raiseGp 0
  else
    let st (j : Fin 8) : U64 :=
      let o := 32 + (j - top).val * 16
      f80ToF64 (imageU64 b o) (imageU16 b (o + 8))
    { s.modifyFpu fun f => { f with st } with
      mxcsr := mx
      xmm := fun j =>
        if j.val < (if s.longMode then 16 else 8) then imageU128 b (160 + j.val * 16) else s.xmm j }

end Cpu

/-! ## Families -/

/-- A register result computed from the destination and the source operand. -/
def xmmOp (m : ModRm) (d : U8) (bytes : Nat) (aligned : Bool) (f : U128 → U128 → U128) :
    Exec Unit := do
  let b ← sseSrc m bytes aligned
  modify fun s => s.setXmm d (f (s.xmmReg d) b)

/-- A register result computed from registers alone. -/
def xmmRegs (m : ModRm) (d : U8) (f : U128 → U128 → U128) : Exec Unit :=
  modify fun s => s.setXmm d (f (s.xmmReg d) (s.xmmReg m.rm))

/-- Apply a function to 32-bit or 64-bit lanes, or to the low one alone, as the prefix says. -/
def byPrefix (p : Pfx) (m : ModRm) (d : U8) (f : U32 → U32 → U32) (g : U64 → U64 → U64) :
    Exec Unit :=
  match p with
  | .none => xmmOp m d 16 true (Packed.zip 32 fun x y => u64 (f (u32 x) (u32 y)))
  | .p66 => xmmOp m d 16 true (Packed.zip 64 g)
  | .f3 => xmmOp m d 4 false fun a b => mergeLow lo32 a (u128 (f (u32 a) (u32 b)))
  | .f2 => xmmOp m d 8 false fun a b => mergeLow lo64 a (u128 (g (u64 a) (u64 b)))

def f32Unary (op : SseOp) (x : U32) : U32 :=
  match op with
  | .sqrt => f32Bits (asF32 x).sqrt
  | .rsqrt => f32Bits (1.0 / (asF32 x).sqrt)
  | _ => f32Bits (1.0 / asF32 x)

def allOnes32 (b : Bool) : U32 := if b then 0xFFFFFFFF else 0
def allOnes64 (b : Bool) : U64 := if b then 0xFFFFFFFFFFFFFFFF else 0

/-- Combine lanes pairwise with float operations chosen by position. -/
def lanes32 (a b : U128) (f : (Nat → U32) → (Nat → U32) → List U32) : U128 :=
  join ((f (fun i => u32 (Packed.lane a 32 i)) (fun i => u32 (Packed.lane b 32 i))).map
    fun v => (u64 v : U64)) 32

def lanes64 (a b : U128) (f : (Nat → U64) → (Nat → U64) → List U64) : U128 :=
  join (f (fun i => Packed.lane a 64 i) (fun i => Packed.lane b 64 i)) 64

def horizontal (op : SseOp) (p66 : Bool) (a b : U128) : U128 :=
  let add32 := Float32.apply .add
  let sub32 := Float32.apply .sub
  let add64 := Float.apply .add
  let sub64 := Float.apply .sub
  if p66 then
    lanes64 a b fun x y =>
      match op with
      | .addsub => [sub64 (x 0) (y 0), add64 (x 1) (y 1)]
      | .hadd => [add64 (x 0) (x 1), add64 (y 0) (y 1)]
      | _ => [sub64 (x 0) (x 1), sub64 (y 0) (y 1)]
  else
    lanes32 a b fun x y =>
      match op with
      | .addsub => [sub32 (x 0) (y 0), add32 (x 1) (y 1), sub32 (x 2) (y 2), add32 (x 3) (y 3)]
      | .hadd => [add32 (x 0) (x 1), add32 (x 2) (x 3), add32 (y 0) (y 1), add32 (y 2) (y 3)]
      | _ => [sub32 (x 0) (x 1), sub32 (x 2) (x 3), sub32 (y 0) (y 1), sub32 (y 2) (y 3)]

/-! ## Instructions with a shape of their own -/

/-- The scalar or general-register operand of MOVD and CVTSI2: never split across pages. -/
def gprOperand (m : ModRm) (w : Width) : Exec (Option U64) := do
  if m.isReg then return some ((← get).regW m.rm w)
  else
    let a ← rmAddr m false
    let s ← get
    if s.pendingException.isSome then pure none
    else pure (some (if w = .w64 then s.mem.readU64 a else u64 (s.mem.readU32 a)))

def movGprStore (m : ModRm) (d : U8) (w : Width) : Exec Unit := do
  let s ← get
  let v := u64 (s.xmmReg d)
  let v := if w = .w32 then u64 (u32 v) else v
  if m.isReg then set (s.setRegW m.rm w v)
  else
    let a ← rmAddr m true
    let s ← get
    if s.pendingException.isSome then pure ()
    else
      set (s.modifyMem fun mem => if w = .w64 then mem.writeU64 a v else mem.writeU32 a (u32 v))

/-- Store the bytes of `v` that `mask` selects, from byte `i` of `n` on. -/
def maskedStore (seg : SegReg) (base : U64) (mask v : U128) : List Nat → Exec Unit
  | [] => pure ()
  | i :: is => do
    if mask.getLsbD (i * 8 + 7) then
      let a ← translateWrite seg (base + BitVec.ofNat 64 i)
      let s ← get
      if s.pendingException.isSome then pure ()
      else
        set (s.modifyMem (·.writeU8 a (byteOf v i)))
        maskedStore seg base mask v is
    else maskedStore seg base mask v is

def maskmovdqu (m : ModRm) (d : U8) : Exec Unit := do
  let s ← get
  let base := s.regW 7 (if s.addrsize then .w64 else .w16)
  maskedStore (s.operandSeg .ds) base (s.xmmReg m.rm) (s.xmmReg d) (List.range 16)

/-- ZF, PF and CF of an ordered comparison; the other three are cleared. -/
def comisFlags (a b : U64) (fl : U32) : U32 :=
  let x := asF64 a
  let y := asF64 b
  let r : Bool × Bool × Bool :=
    if x.isNaN || y.isNaN then (true, true, true)
    else if x > y then (false, false, false)
    else if x < y then (false, false, true)
    else (true, false, false)
  setFlag Flags.af false (setFlag Flags.sf false (setFlag Flags.of false
    (setFlag Flags.cf r.2.2 (setFlag Flags.pf r.2.1 (setFlag Flags.zf r.1 fl)))))

def comis (m : ModRm) (d : U8) (p : Pfx) : Exec Unit := do
  let b ← sseSrc m (if p = .p66 then 8 else 4) false
  let s ← get
  let (x, y) : U64 × U64 :=
    if p = .p66 then (u64 (s.xmmReg d), u64 b) else (widen (u32 (s.xmmReg d)), widen (u32 b))
  if s.pendingException.isSome then pure () else set (s.modifyFlags (comisFlags x y))

def cvt2Si (m : ModRm) (d : U8) (p : Pfx) (trunc : Bool) (w : Width) : Exec Unit := do
  let b ← sseSrc m (if p = .f3 then 4 else 8) false
  let s ← get
  let v := if p = .f3 then widen (u32 b) else u64 b
  if s.pendingException.isSome then pure ()
  else set (s.setRegW d w (toInt v ((s.mxcsr >>> 13) &&& 3) trunc w))

def pinsrw (m : ModRm) (d imm : U8) : Exec Unit := do
  let v ← if m.isReg then pure (u16 ((← get).regW m.rm .w32)) else readRm16 m
  let s ← get
  if s.pendingException.isSome then pure ()
  else set (s.setXmm d (Packed.insertWord imm v (s.xmmReg d)))

def pshift (m : ModRm) (d imm8 : U8) (kind : ShiftKind) (bits : Nat) (imm : Bool) : Exec Unit := do
  let count ← if imm then pure (u64 imm8) else do
    let b ← sseSrc m 16 true
    pure (u64 b)
  let s ← get
  if s.pendingException.isSome then pure ()
  else set (s.setXmm d (Packed.shift kind bits count (s.xmmReg d)))

def ldmxcsr (m : ModRm) : Exec Unit := do
  if m.isReg then modify (·.raiseUd)
  else
    let v ← readRm32 m
    let s ← get
    if s.pendingException.isSome then pure ()
    else if test v (~~~mxcsrMask) then set (s.raiseGp 0)
    else set { s with mxcsr := v }

def stmxcsr (m : ModRm) : Exec Unit := do
  if m.isReg then modify (·.raiseUd) else writeRmW m .w32 (u64 (← get).mxcsr)

def fxsave (m : ModRm) : Exec Unit := do
  let s ← get
  let (seg, off) := s.sseOperand m
  if m.isReg then modify (·.raiseUd)
  else if s.linearAddr seg off &&& 15 ≠ 0 then modify (·.raiseGp 0)
  else writeLinearBytes seg off 512 s.fxsaveImage 512 0

def fxrstor (m : ModRm) : Exec Unit := do
  let s ← get
  let (seg, off) := s.sseOperand m
  if m.isReg then modify (·.raiseUd)
  else if s.linearAddr seg off &&& 15 ≠ 0 then modify (·.raiseGp 0)
  else
    let buf ← readLinearBytes seg off 512 512 0 fun _ => 0
    let s ← get
    if s.pendingException.isSome then pure () else set (s.fxrstorImage buf)

/-! ## The executor -/

/-- Each family hands what it does not know to the one before it. -/
def packed (s : SseInst) : Exec Unit :=
  let m := s.m
  let d := s.reg
  let op (f : U128 → U128 → U128) : Exec Unit := xmmOp m d 16 true f
  match s.op with
  | .and => op fun a b => a &&& b
  | .andn => op fun a b => ~~~a &&& b
  | .or => op fun a b => a ||| b
  | .xor => op fun a b => a ^^^ b
  | .padd bits sat => op (Packed.add bits.bits sat)
  | .psub bits sat => op (Packed.sub bits.bits sat)
  | .pmullw => op Packed.mullw
  | .pmulhw => op Packed.mulhw
  | .pmulhuw => op Packed.mulhuw
  | .pmuludq => op Packed.muludq
  | .pmaddwd => op Packed.maddwd
  | .psadbw => op Packed.sadbw
  | .pavg bits => op (Packed.avg bits.bits)
  | .pmax bits signed => op (Packed.select bits.bits signed true)
  | .pmin bits signed => op (Packed.select bits.bits signed false)
  | .pcmpeq bits => op (Packed.cmpeq bits.bits)
  | .pcmpgt bits => op (Packed.cmpgt bits.bits)
  | .packss bits => op (Packed.pack bits.bits false)
  | .packus => op (Packed.pack 16 true)
  | .punpckl bits => op (Packed.unpack bits.bits false)
  | .punpckh bits => op (Packed.unpack bits.bits true)
  | .pshufd => op fun _ b => Packed.shufd s.imm b
  | .pshufhw => op fun _ b => Packed.shufw 4 s.imm b
  | .pshuflw => op fun _ b => Packed.shufw 0 s.imm b
  | .pinsrw => pinsrw m d s.imm
  | .pextrw => modify fun t => t.setRegW d .w32 (Packed.extractWord s.imm (t.xmmReg m.rm))
  | .pshift kind bits imm => pshift m d s.imm kind bits.bits imm
  | .pshiftdq left => modify fun t => t.setXmm d (Packed.shiftBytes left s.imm (t.xmmReg d))
  | _ => pure ()

def conversions (s : SseInst) : Exec Unit := do
  let m := s.m
  let d := s.reg
  let rc := ((← get).mxcsr >>> 13) &&& 3
  match s.op with
  | .cvtSi2 bits => do
    match ← gprOperand m bits with
    | none => pure ()
    | some v =>
      let i := if bits = .w64 then v else (u32 v).signExtend 64
      modify fun t => t.setXmm d <|
        if s.pfx = .f3 then mergeLow lo32 (t.xmmReg d) (u128 (intToF32 i))
        else mergeLow lo64 (t.xmmReg d) (u128 (intToF64 i))
  | .cvt2Si trunc bits => cvt2Si m d s.pfx trunc bits
  | .cvtSs2Sd => xmmOp m d 4 false fun a b => mergeLow lo64 a (u128 (widen (u32 b)))
  | .cvtSd2Ss => xmmOp m d 8 false fun a b => mergeLow lo32 a (u128 (shorten (u64 b)))
  | .cvtPs2Pd =>
    xmmOp m d 8 false fun _ b =>
      join [widen (u32 (Packed.lane b 32 0)), widen (u32 (Packed.lane b 32 1))] 64
  | .cvtPd2Ps =>
    xmmOp m d 16 true fun _ b =>
      join [u64 (shorten (Packed.lane b 64 0)), u64 (shorten (Packed.lane b 64 1)), 0, 0] 32
  | .cvtDq2Ps =>
    xmmOp m d 16 true fun _ b =>
      join ((lanes b 32).map fun v => (u64 (intToF32 ((u32 v).signExtend 64)) : U64)) 32
  | .cvtPs2Dq trunc =>
    xmmOp m d 16 true fun _ b =>
      join ((lanes b 32).map fun v => toInt (widen (u32 v)) rc trunc .w32) 32
  | .cvtDq2Pd =>
    xmmOp m d 8 false fun _ b =>
      join [intToF64 ((u32 (Packed.lane b 32 0)).signExtend 64),
        intToF64 ((u32 (Packed.lane b 32 1)).signExtend 64)] 64
  | .cvtPd2Dq trunc =>
    xmmOp m d 16 true fun _ b =>
      join [toInt (Packed.lane b 64 0) rc trunc .w32, toInt (Packed.lane b 64 1) rc trunc .w32, 0, 0]
        32
  | _ => packed s

def floats (s : SseInst) : Exec Unit := do
  let m := s.m
  let d := s.reg
  let p66 := s.pfx == .p66
  match s.op with
  | .arith op => byPrefix s.pfx m d (Float32.apply op) (Float.apply op)
  | .sqrt => byPrefix s.pfx m d (fun _ y => f32Unary .sqrt y) (fun _ y => f64Bits (asF64 y).sqrt)
  | .rsqrt | .rcp =>
    if s.pfx = .p66 ∨ s.pfx = .f2 then modify (·.raiseUd)
    else byPrefix s.pfx m d (fun _ y => f32Unary s.op y) fun _ y => y
  | .cmp =>
    let pred := s.imm &&& 7
    byPrefix s.pfx m d (fun x y => allOnes32 (compareF pred (widen x) (widen y)))
      fun x y => allOnes64 (compareF pred x y)
  | .comis _ => comis m d s.pfx
  | .shuf =>
    xmmOp m d 16 true fun a b =>
      if p66 then
        lanes64 a b fun x y => [x (s.imm &&& 1).toNat, y ((s.imm >>> 1) &&& 1).toNat]
      else
        lanes32 a b fun x y =>
          [x (Packed.control s.imm 0), x (Packed.control s.imm 1), y (Packed.control s.imm 2),
           y (Packed.control s.imm 3)]
  | .unpck high => xmmOp m d 16 true (Packed.unpack (if p66 then 64 else 32) high)
  | .addsub | .hadd | .hsub => xmmOp m d 16 true (horizontal s.op p66)
  | _ => conversions s

def moves (s : SseInst) : Exec Unit := do
  let m := s.m
  let d := s.reg
  let old ← get
  let udIfReg (p : Exec Unit) : Exec Unit := if m.isReg then modify (·.raiseUd) else p
  match s.op with
  | .mov128 true aligned => sseStore m 16 (old.xmmReg d) aligned
  | .mov128 false aligned => xmmOp m d 16 aligned fun _ b => b
  | .movnt128 => udIfReg (sseStore m 16 (old.xmmReg d) true)
  | .movScalar true bits => sseStore m bits.bytes (old.xmmReg d) false
  | .movScalar false bits =>
    if m.isReg then xmmRegs m d (mergeLow (if bits = .w64 then lo64 else lo32))
    else xmmOp m d bits.bytes false fun _ b => b
  | .movHalf true high =>
    udIfReg (sseStore m 8 (if high then old.xmmReg d >>> 64 else old.xmmReg d &&& lo64) false)
  | .movHalf false high =>
    udIfReg (xmmOp m d 8 false fun a b =>
      if high then a &&& lo64 ||| b <<< 64 else a &&& ~~~lo64 ||| b)
  | .movhlps => xmmRegs m d fun a b => a &&& ~~~lo64 ||| b >>> 64
  | .movlhps => xmmRegs m d fun a b => a &&& lo64 ||| (b &&& lo64) <<< 64
  | .movGpr true bits => movGprStore m d bits
  | .movGpr false bits => do
    match ← gprOperand m bits with
    | some v => modify (·.setXmm d (u128 v))
    | none => pure ()
  | .movqLoad => xmmOp m d 8 false fun _ b => b &&& lo64
  | .movqStore =>
    let v := old.xmmReg d &&& lo64
    if m.isReg then modify (·.setXmm m.rm v) else sseStore m 8 v false
  | .movddup => xmmOp m d 8 false fun _ b => b &&& lo64 ||| (b &&& lo64) <<< 64
  | .movshdup => xmmOp m d 16 false fun a b => lanes32 a b fun _ y => [y 1, y 1, y 3, y 3]
  | .movsldup => xmmOp m d 16 false fun a b => lanes32 a b fun _ y => [y 0, y 0, y 2, y 2]
  | .movmsk bits => modify fun t => t.setRegW d .w32 (Packed.signMask bits.bits (t.xmmReg m.rm))
  | .movnti =>
    let w := if old.osize = .w16 then .w32 else old.osize
    writeRmW m w (old.regW d w)
  | .maskmovdqu => maskmovdqu m d
  | _ => floats s

/-- Execute an SSE instruction. -/
def executeSse (s : SseInst) : Exec Unit := do
  match s.op with
  | .fxsave => fxsave s.m
  | .fxrstor => fxrstor s.m
  | .ldmxcsr => ldmxcsr s.m
  | .stmxcsr => stmxcsr s.m
  | _ => if ← sseGate then moves s else pure ()

end X86Emu
