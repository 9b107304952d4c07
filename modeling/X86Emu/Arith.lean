import X86Emu.Alu

/-!
# Arithmetic instructions

The data-processing arms of the executor: moves, the ALU, multiply and divide, shifts, exchanges and
bit tests. Instructions that differ only in width share one body; an arm commits its flags and its
result in the order the source does.
-/
namespace X86Emu

/-! ## Shared shapes -/

/-- Read the operand, write a function of it back, then commit flags. -/
def rmUpdate (m : ModRm) (w : Width) (f : U64 → U64) (flags : U64 → U32 → U32) : Exec Unit := do
  let v ← readRmW m w
  writeRmW m w (f v)
  modify (·.modifyFlags (flags v))

/-- Read the operand, compute a result with its flags, and store the result when `store` says. -/
def rmCompute (m : ModRm) (w : Width) (f : U64 → U32 → U64 × U32) (store : Bool) : Exec Unit := do
  let v ← readRmW m w
  let r ← withFlags (f v)
  if store then writeRmW m w r else pure ()

/-- Read the operand into a register, through a conversion. -/
def loadReg (m : ModRm) (w : Width) (dst : U8) (dw : Width) (f : U64 → U64) : Exec Unit := do
  let v ← readRmW m w
  modify (·.setRegAt dst dw (f v))

/-! ## Moves -/

def movRmReg (w : Width) (m : ModRm) (src : U8) : Exec Unit := do
  writeRmW m w ((← get).regAt src w)

def movRegRm (w : Width) (m : ModRm) (dst : U8) : Exec Unit := loadReg m w dst w id

/-- The accumulator moves with an absolute offset. -/
def movAccMem (w : Width) (offset : U64) : Exec Unit := do
  let phys ← translate ((← get).operandSeg .ds) offset
  modify fun s => s.setRegAt 0 w (memReadW s.mem phys w)

def movMemAcc (w : Width) (seg : SegReg) (offset : U64) : Exec Unit := do
  let phys ← translateWrite seg offset
  modify fun s => s.modifyMem (memWriteW phys w (s.regAt 0 w))

/-- Load a far pointer into the `reg` register and a segment register. -/
def loadFarPointer (m : ModRm) (seg : SegReg) : Exec Unit := do
  let addr ← rmAddr m false
  modify fun s =>
    if s.opsize then
      (s.setReg32Idx m.reg (s.mem.readU32 addr)).loadSeg seg (s.mem.readU16 (addr + 4))
    else
      (s.setReg16Idx m.reg (s.mem.readU16 addr)).loadSeg seg (s.mem.readU16 (addr + 2))

def xchgRmReg (w : Width) (m : ModRm) (reg : U8) : Exec Unit := do
  let a ← readRmW m w
  writeRmW m w ((← get).regAt reg w)
  modify (·.setRegAt reg w a)

def xchgAccReg (w : Width) (reg : U8) : Exec Unit :=
  modify fun s => (s.setRegAt 0 w (s.regAt reg w)).setRegAt reg w (s.regAt 0 w)

def bswap (reg : U8) : Exec Unit :=
  modify fun s =>
    let v := s.regW reg s.osize
    let b (k : Nat) : U8 := byteOf v k
    s.setRegW reg s.osize <|
      if s.osize = .w64 then le64 (le32 (b 7) (b 6) (b 5) (b 4)) (le32 (b 3) (b 2) (b 1) (b 0))
      else u64 (le32 (b 3) (b 2) (b 1) (b 0))

def cmovcc (cond : Cond) (m : ModRm) (dst : U8) : Exec Unit := do
  let s ← get
  if cond.test s then movRegRm s.osize m dst else pure ()

/-- Sign-extend the lower half of the accumulator into the whole. -/
def widenAcc (w : Width) : Exec Unit :=
  modify fun s => s.setRegW 0 w (sext (s.regW 0 w.half) w.half)

/-- Fill the data register with the accumulator's sign. -/
def fillSign (w : Width) : Exec Unit :=
  modify fun s =>
    s.setRegW 2 w (if (s.regW 0 w).getLsbD (w.bits - 1) then 0xFFFFFFFFFFFFFFFF else 0)

def setcc (cond : Cond) (m : ModRm) : Exec Unit := do
  writeRm8 m (bit (cond.test (← get)))

/-! ## The ALU -/

/-- The operation writes its result: CMP sets flags only. -/
def AluOp.stores (op : AluOp) : Bool := op != .cmp

def aluRmReg (w : Width) (op : AluOp) (m : ModRm) (reg : U8) (dir : Dir) : Exec Unit := do
  let regv := (← get).regAt reg w
  match dir with
  | .rmReg => rmCompute m w (fun v => aluW op v regv w) op.stores
  | .regRm =>
    let v ← readRmW m w
    let r ← withFlags (aluW op regv v w)
    if op.stores then modify (·.setRegAt reg w r) else pure ()

def aluRmImm (w : Width) (op : AluOp) (m : ModRm) (imm : U64) : Exec Unit :=
  rmCompute m w (fun v => aluW op v imm w) op.stores

def aluAccImm (w : Width) (op : AluOp) (imm : U64) : Exec Unit := do
  let a := (← get).regAt 0 w
  let r ← withFlags (aluW op a imm w)
  if op.stores then modify (·.setRegAt 0 w r) else pure ()

/-- The flags of TEST. -/
def testFlags (w : Width) (a b : U64) (fl : U32) : U32 :=
  clearCarryOverflow (setLogicFlagsWidth (a &&& b) w fl)

/-- TEST as a computation that stores nothing. -/
def testW (w : Width) (a b : U64) (fl : U32) : U64 × U32 := (a &&& b, testFlags w a b fl)

def testRmImm (w : Width) (m : ModRm) (imm : U64) : Exec Unit :=
  rmCompute m w (fun v => testW w v imm) false

def testRmReg (w : Width) (m : ModRm) (reg : U8) : Exec Unit := do
  let s ← get
  rmCompute m w (fun v => testW w v (s.regAt reg w)) false

def testAccImm (w : Width) (imm : U64) : Exec Unit :=
  modify fun s => s.modifyFlags (testFlags w (s.regAt 0 w) imm)

/-! ## Increment, decrement and negate -/

def incFlagsRm8 (v : U64) : U32 → U32 := incFlags8 (u8 v) (u8 v + 1)
def decFlagsRm8 (v : U64) : U32 → U32 := decFlags8 (u8 v) (u8 v - 1)
def incFlagsRm16 (v : U64) : U32 → U32 := incFlags16 (u16 v) (u16 v + 1)
def decFlagsRm16 (v : U64) : U32 → U32 := decFlags16 (u16 v) (u16 v - 1)
def incFlagsRm (w : Width) (v : U64) : U32 → U32 := incFlagsW v ((v + 1) &&& w.mask) w
def decFlagsRm (w : Width) (v : U64) : U32 → U32 := decFlagsW v ((v - 1) &&& w.mask) w

def incRm (w : Width) (flags : U64 → U32 → U32) (m : ModRm) : Exec Unit :=
  rmUpdate m w (fun v => (v + 1) &&& w.mask) flags

def decRm (w : Width) (flags : U64 → U32 → U32) (m : ModRm) : Exec Unit :=
  rmUpdate m w (fun v => (v - 1) &&& w.mask) flags

/-- The register forms set the register before the flags. -/
def incReg (w : Width) (flags : U64 → U32 → U32) (dst : U8) : Exec Unit :=
  modify fun s => (s.setRegW dst w (s.regW dst w + 1)).modifyFlags (flags (s.regW dst w))

def decReg (w : Width) (flags : U64 → U32 → U32) (dst : U8) : Exec Unit :=
  modify fun s => (s.setRegW dst w (s.regW dst w - 1)).modifyFlags (flags (s.regW dst w))

def incFlagsReg32 (v : U64) : U32 → U32 := incFlags32 (u32 v) (u32 v + 1)
def decFlagsReg32 (v : U64) : U32 → U32 := decFlags32 (u32 v) (u32 v - 1)

def notRm (w : Width) (m : ModRm) : Exec Unit := rmUpdate m w (fun v => ~~~v) fun _ => id

def negFlagsW (w : Width) (v : U64) : U32 → U32 :=
  negFlags v (signBit w) (setLogicFlagsWidth (-v &&& w.mask) w)

def negRm (w : Width) (m : ModRm) : Exec Unit := rmUpdate m w (fun v => -v &&& w.mask) (negFlagsW w)

/-! ## Multiply -/

/-- The double-width products: the two halves, and whether the product needs both. -/
def mulW (w : Width) (a v : U64) : U64 × U64 × Bool :=
  let r := u128 a * u128 v
  (u64 r, u64 (r >>> w.bits), r >>> w.bits != 0)

def imulW (w : Width) (a v : U64) : U64 × U64 × Bool :=
  let r : U128 := (sext a w).signExtend 128 * (sext v w).signExtend 128
  (u64 r, u64 (r.sshiftRight w.bits), r != (sext (u64 r) w).signExtend 128)

/-- The byte product lands in AX whole. -/
def mul8 (a v : U8) : U16 × Bool :=
  let r := u16 a * u16 v
  (r, u8 (r >>> 8) != 0)

def imul8 (a v : U8) : U16 × Bool :=
  let r : U16 := a.signExtend 16 * v.signExtend 16
  (r, u8 (r.sshiftRight 8) != u8 r)

/-- CF and OF of the 16-bit signed product compare its halves. -/
def imul16 (a v : U16) : U32 × Bool :=
  let r : U32 := a.signExtend 32 * v.signExtend 32
  (r, u16 (r.sshiftRight 16) != u16 r)

def mulRm8With (f : U8 → U8 → U16 × Bool) (m : ModRm) : Exec Unit := do
  let v ← readRm8 m
  modify fun s =>
    let r := f (s.reg8 .al) v
    (s.setReg16 .ax r.1).modifyFlags (setCarryOverflow r.2)

/-- Store a product in the accumulator and the data register. -/
def storeProduct (w : Width) (r : U64 × U64 × Bool) (s : Cpu) : Cpu :=
  ((s.setRegW 0 w r.1).setRegW 2 w r.2.1).modifyFlags (setCarryOverflow r.2.2)

def mulRmWith (w : Width) (f : U64 → U64 → U64 × U64 × Bool) (m : ModRm) : Exec Unit := do
  let v ← readRmW m w
  modify fun s => storeProduct w (f (s.regW 0 w) v) s

def imul16Halves (a v : U64) : U64 × U64 × Bool :=
  let r := imul16 (u16 a) (u16 v)
  (u64 (u16 r.1), u64 (u16 (r.1 >>> 16)), r.2)

/-- Two- and three-operand IMUL: the flags say whether the truncated result is the product. -/
def imulStore16 (dst : U8) (full : U32) (s : Cpu) : Cpu :=
  let r := u16 full
  (s.setReg16Idx dst r).modifyFlags fun fl =>
    setLogicFlags16 r (setCarryOverflow (full != r.signExtend 32) fl)

def imulStore32 (dst : U8) (full : U64) (s : Cpu) : Cpu :=
  let r := u32 full
  (s.setReg32Idx dst r).modifyFlags fun fl =>
    setLogicFlags32 r (setCarryOverflow (full != r.signExtend 64) fl)

def imulStore64 (dst : U8) (full : U128) (s : Cpu) : Cpu :=
  let r := u64 full
  (s.setRegW dst .w64 r).modifyFlags fun fl =>
    setLogicFlags64 r (setCarryOverflow (full != r.signExtend 128) fl)

def imulStore (dst : U8) (w : Width) (a b : U64) : Cpu → Cpu :=
  if w = .w64 then imulStore64 dst (a.signExtend 128 * b.signExtend 128)
  else imulStore32 dst (a * b)

def imulRegRm16 (m : ModRm) (dst : U8) : Exec Unit := do
  let v ← readRm16 m
  modify fun s =>
    imulStore16 dst ((v.signExtend 32 : U32) * ((s.reg16Idx dst).signExtend 32 : U32)) s

def imulRegRmImm16 (m : ModRm) (dst : U8) (imm : U16) : Exec Unit := do
  let v ← readRm16 m
  modify (imulStore16 dst ((v.signExtend 32 : U32) * (imm.signExtend 32 : U32)))

def imulRegRm32 (m : ModRm) (dst : U8) : Exec Unit := do
  let w := (← get).osize
  let v ← readRmW m w
  modify fun s => imulStore dst w (sext v w) (sext (s.regW dst w) w) s

def imulRegRmImm32 (m : ModRm) (dst : U8) (imm : U32) : Exec Unit := do
  let w := (← get).osize
  let v ← readRmW m w
  modify (imulStore dst w (sext v w) (imm.signExtend 64))

/-! ## Divide -/

/-- The divide error is recorded directly, over whatever is pending. -/
def divideError (s : Cpu) : Cpu := s.setPending 0x00 none

/-- Signed division aborts the host program when the quotient of the machine type overflows. -/
def signedDivide {n : Nat} (a v : BitVec n) (commit : BitVec n → BitVec n → Cpu → Cpu) (s : Cpu) :
    Cpu :=
  if a = BitVec.intMin n ∧ v = -1 then { s with panicked := true }
  else commit (a.sdiv v) (a.srem v) s

def divRm8 (m : ModRm) : Exec Unit := do
  let v ← readRm8 m
  modify fun s =>
    if v = 0 then divideError s
    else
      let a := s.reg16 .ax
      (s.setReg8 .al (u8 (a / u16 v))).setReg8 .ah (u8 (a % u16 v))

def divRm16 (m : ModRm) : Exec Unit := do
  let v ← readRm16 m
  modify fun s =>
    if v = 0 then divideError s
    else
      let a : U32 := s.reg16 .dx ++ s.reg16 .ax
      (s.setReg16 .ax (u16 (a / u32 v))).setReg16 .dx (u16 (a % u32 v))

/-- The double-width dividend in the data register and the accumulator. -/
def Cpu.dividend (s : Cpu) (w : Width) : U128 := u128 (s.regW 2 w) <<< w.bits ||| u128 (s.regW 0 w)

def divRm32 (m : ModRm) : Exec Unit := do
  let w := (← get).osize
  let v ← readRmW m w
  modify fun s =>
    if v = 0 then divideError s
    else
      let q := s.dividend w / u128 v
      if q > u128 w.mask then divideError s
      else (s.setRegW 0 w (u64 q)).setRegW 2 w (u64 (s.dividend w % u128 v))

def idivRm8 (m : ModRm) : Exec Unit := do
  let v ← readRm8 m
  modify fun s =>
    if v = 0 then divideError s
    else
      signedDivide (s.reg16 .ax) (v.signExtend 16)
        (fun q rem s => (s.setReg8 .al (u8 q)).setReg8 .ah (u8 rem)) s

def idivRm16 (m : ModRm) : Exec Unit := do
  let v ← readRm16 m
  modify fun s =>
    if v = 0 then divideError s
    else
      signedDivide (s.reg16 .dx ++ s.reg16 .ax : U32) (v.signExtend 32)
        (fun q rem s => (s.setReg16 .ax (u16 q)).setReg16 .dx (u16 rem)) s

def idivRm32 (m : ModRm) : Exec Unit := do
  let w := (← get).osize
  let v ← readRmW m w
  modify fun s =>
    if sext v w = 0 then divideError s
    else
      let raw := s.dividend w
      let a := if w = .w64 then raw else (raw <<< (128 - 2 * w.bits)).sshiftRight (128 - 2 * w.bits)
      signedDivide a ((sext v w).signExtend 128)
        (fun q rem s =>
          if q ≠ (sext (u64 q) w).signExtend 128 then divideError s
          else (s.setRegW 0 w (u64 q)).setRegW 2 w (u64 rem)) s

/-! ## Shifts -/

def doShift (op : ShiftOp) (m : ModRm) (w : Width) (n : U32) : Exec Unit :=
  rmCompute m w (fun v => shiftWidth op v n w) true

def ShiftCount.value (c : ShiftCount) (s : Cpu) : U8 :=
  match c with
  | .one => 1
  | .cl => s.reg8 .cl
  | .imm i => i

/-- The masked count of a double-precision shift. -/
def doubleCount (c : ShiftCount) (s : Cpu) : Nat :=
  (c.value s &&& if s.osize = .w64 then 0x3F else 0x1F).toNat

/-- The operand width of a double-precision shift. -/
def doubleWidth (w32 : Bool) (s : Cpu) : Width :=
  if s.osize = .w64 then .w64 else if w32 then .w32 else .w16

/-- The 16-bit forms shift the two operands as one 32-bit value. -/
def shldW (w : Width) (d src : U64) (n : Nat) : U64 × Bool :=
  match w with
  | .w64 => (d <<< n ||| src >>> (64 - n), (d >>> (64 - n)).getLsbD 0)
  | .w32 => (u64 (u32 d <<< n ||| u32 src >>> (32 - n)), (u32 d >>> (32 - n)).getLsbD 0)
  | _ =>
    let wide : U32 := u16 d ++ u16 src
    (u64 (u16 ((wide <<< n) >>> 16)), (u16 d >>> (16 - min n 16)).getLsbD 0)

def shrdW (w : Width) (d src : U64) (n : Nat) : U64 × Bool :=
  match w with
  | .w64 => (d >>> n ||| src <<< (64 - n), (d >>> (n - 1)).getLsbD 0)
  | .w32 => (u64 (u32 d >>> n ||| u32 src <<< (32 - n)), (u32 d >>> (n - 1)).getLsbD 0)
  | _ =>
    let wide : U32 := u16 src ++ u16 d
    (u64 (u16 (wide >>> n)), (u16 d >>> min (n - 1) 15).getLsbD 0)

/-- The flags of a double-precision shift of `d` whose result is `r`. -/
def doubleShiftFlags (w : Width) (d : U64) (r : U64 × Bool) : U32 → U32 :=
  match w with
  | .w64 => setShiftFlags64 r.1 r.2 (d ^^^ r.1).msb
  | .w32 => setShiftFlags32 (u32 r.1) r.2 (u32 (d ^^^ r.1)).msb
  | _ => setShiftFlags16 (u16 r.1) r.2 (u16 (d ^^^ r.1)).msb

def doubleShift (f : Width → U64 → U64 → Nat → U64 × Bool) (m : ModRm) (reg : U8)
    (count : ShiftCount) (w32 : Bool) : Exec Unit := do
  let s ← get
  let n := doubleCount count s
  let w := doubleWidth w32 s
  if n = 0 then pure ()
  else
    rmUpdate m w (fun d => (f w d (s.regW reg w) n).1)
      fun d => doubleShiftFlags w d (f w d (s.regW reg w) n)

/-! ## Exchange and compare -/

def cmpxchg (w : Width) (m : ModRm) (reg : U8) : Exec Unit := do
  let dest ← readRmW m w
  let acc := (← get).regAt 0 w
  let _ ← withFlags (aluW .cmp acc dest w)
  if acc = dest then writeRmW m w ((← get).regAt reg w)
  else modify (·.setRegAt 0 w dest)

/-- A memory destination is stored first, since the store can fault. -/
def xadd (w : Width) (m : ModRm) (reg : U8) : Exec Unit := do
  let dest ← readRmW m w
  let src := (← get).regAt reg w
  let sum ← withFlags (aluW .add dest src w)
  if m.isReg then
    modify (·.setRegAt reg w dest)
    writeRmW m w sum
  else
    writeRmW m w sum
    modify (·.setRegAt reg w dest)

def cmpxchg8b (m : ModRm) : Exec Unit := do
  let addr ← rmAddr m true
  modify fun s =>
    let lo := s.mem.readU32 addr
    let hi := s.mem.readU32 (addr + 4)
    if lo = s.eax ∧ hi = s.edx then
      (s.modifyFlags (setFlag Flags.zf true)).modifyMem fun mem =>
        (mem.writeU32 addr s.ebx).writeU32 (addr + 4) s.ecx
    else ((s.modifyFlags (setFlag Flags.zf false)).setReg32 .eax lo).setReg32 .edx hi

/-! ## Bit scans and bit tests -/

/-- The lowest and highest set bit of a non-zero value. -/
def lowestSet (v : U64) : U64 := v.ctz
def highestSet (v : U64) : U64 := 63 - v.clz

/-- ZF reports a zero source, which leaves the destination alone. -/
def bitScan (f : U64 → U64) (m : ModRm) (dst : U8) : Exec Unit := do
  let w := (← get).osize
  let v ← readRmW m w
  modify fun s =>
    let s := s.modifyFlags (setFlag Flags.zf (v == 0))
    if v ≠ 0 then s.setRegW dst w (f v) else s

/-- The signed bit offset. -/
def BitOffset.value (b : BitOffset) (s : Cpu) : Int :=
  match b with
  | .imm i => i.toNat
  | .reg r => (sext (s.regW r s.osize) s.osize).toInt

/-- A register operand takes the offset modulo its width. -/
def bitOpReg (m : ModRm) (offset : Int) (op : BitOp) : Exec Unit :=
  modify fun s =>
    let w := s.osize
    let b := (offset % w.bits).toNat
    let v := s.regW m.rm w
    let s := s.modifyFlags (setFlag Flags.cf (v.getLsbD b))
    if op ≠ .test then s.setRegW m.rm w (applyBit v b op) else s

/-- A memory operand is a bit string: the offset steps whole operands, either way. -/
def bitOpMem (m : ModRm) (offset : Int) (op : BitOp) : Exec Unit := do
  let w := (← get).osize
  let disp := offset / w.bits * w.bytes
  let b := (offset % w.bits).toNat
  let base ← rmAddr m (op ≠ .test)
  let addr := base + BitVec.ofInt 64 disp
  modify fun s =>
    let v := memReadW s.mem addr w
    let s := s.modifyFlags (setFlag Flags.cf (v.getLsbD b))
    if op ≠ .test then s.modifyMem (memWriteW addr w (applyBit v b op)) else s

def bitOp (m : ModRm) (bit : BitOffset) (op : BitOp) : Exec Unit := do
  let offset := bit.value (← get)
  if m.isReg then bitOpReg m offset op else bitOpMem m offset op

end X86Emu
