import X86Emu.Run
import X86Emu.ModeSwitch

/-!
# Decoding

The instruction stream and the prefix loop in front of the opcode. Decoding an opcode only looks at
the machine and fetches, so the opcode decoder is a parameter that can do no more.
-/
namespace X86Emu

open StateRules

/-! ## Instruction stream fetch -/

/-- Ensure the fetch cache is valid for the current RIP. -/
def ensurePhysIp : Exec Unit := do
  let s ← get
  if s.physIpValid then pure ()
  else
    modify fun t => { t with physIpLinear := s.ipLinear }
    let phys ← applyPagingFetch s.ipLinear
    modify fun t => { t with physIpCache := phys, physIpValid := true }

namespace Cpu

/-- Advance the instruction pointer; RIP wraps at the width the step began with. -/
def advanceIp (s : Cpu) (n : U64) : Cpu :=
  if s.pe then { s with rip := (s.rip + n) &&& s.ripMask } else { s with ip := s.ip + u16 n }

/-- Move the fetch cache past `n` bytes, the last of which may end a page. -/
def advanceCache (s : Cpu) (n : U64) : Cpu :=
  { s with
    physIpCache := s.physIpCache + n
    physIpLinear := s.physIpLinear + n
    physIpValid := s.physIpValid && (s.physIpLinear + (n - 1)) &&& 0xFFF != 0xFFF }

end Cpu

/-- The next instruction byte, RIP left where it is. -/
def peekU8 : Exec U8 := do
  ensurePhysIp
  let s ← get
  pure (s.mem.readU8Raw s.physIpCache)

def fetchU8 : Exec U8 := do
  ensurePhysIp
  let s ← get
  modify fun t => (t.advanceIp 1).advanceCache 1
  pure (s.mem.readU8Raw s.physIpCache)

def fetchU16 : Exec U16 := do
  ensurePhysIp
  let s ← get
  if s.physIpLinear &&& 0xFFF ≤ 0xFFE then
    modify fun t => (t.advanceIp 2).advanceCache 2
    let lo := s.mem.readU8Raw s.physIpCache
    let hi := s.mem.readU8Raw (s.physIpCache + 1)
    pure (u16 lo ||| u16 hi <<< 8)
  else
    -- The word straddles a page boundary.
    let lo ← fetchU8
    let hi ← fetchU8
    pure (u16 lo ||| u16 hi <<< 8)

def fetchU32 : Exec U32 := do
  let lo ← fetchU16
  let hi ← fetchU16
  pure (u32 lo ||| u32 hi <<< 16)

def fetchU64 : Exec U64 := do
  let lo ← fetchU32
  let hi ← fetchU32
  pure (u64 lo ||| u64 hi <<< 32)

/-! ## ModR/M -/

def ModRm.fromByte (byte : U8) : ModRm :=
  { modField := byte >>> 6 &&& 0b11
    reg := byte >>> 3 &&& 0b111
    rm := byte &&& 0b111
    rmRaw := byte &&& 0b111 }

/-- A REX bit as the fourth bit of a register index. -/
def rexBit (on : Bool) : U8 := if on then 8 else 0

def fetchSib (m : ModRm) : Exec ModRm :=
  if m.modField ≠ 3 ∧ m.rmRaw = 4 then do pure { m with sib := some (← fetchU8) } else pure m

/-- The displacement of 32-bit and 64-bit addressing. -/
def fetchDisp32 (m : ModRm) : Exec ModRm :=
  if m.modField = 0 then
    let sibDisp32 := (m.sib.map fun b => b &&& 7 == 5).getD false
    if m.rmRaw == 5 || sibDisp32 then do
      -- Without a SIB byte, this is RIP-relative in 64-bit mode.
      let m := { m with ripRel := m.rmRaw == 5 && (← get).addr64 }
      pure { m with disp32 := some (← fetchU32) }
    else pure m
  else if m.modField = 1 then do pure { m with disp32 := some ((← fetchU8).signExtend 32) }
  else if m.modField = 2 then do pure { m with disp32 := some (← fetchU32) }
  else pure m

/-- The displacement of 16-bit addressing. -/
def fetchDisp16 (m : ModRm) : Exec ModRm :=
  if m.modField = 0 then
    if m.rmRaw = 6 then do pure { m with disp16 := some (← fetchU16) } else pure m
  else if m.modField = 1 then do pure { m with disp8 := some ((← fetchU8).signExtend 16) }
  else if m.modField = 2 then do pure { m with disp16 := some (← fetchU16) }
  else pure m

/-- Read the ModR/M byte and what it implies, REX folded in. -/
def fetchModrm : Exec ModRm := do
  let byte ← fetchU8
  let s ← get
  let m := ModRm.fromByte byte
  let m := { m with
    rexB := s.rexB
    rexX := s.rexX
    reg := m.reg ||| rexBit s.rexR
    rm := if m.modField = 3 then m.rm ||| rexBit s.rexB else m.rm }
  if s.addrsize then fetchSib m >>= fetchDisp32 else fetchDisp16 m

/-! ## The opcode decoder -/

/-- What an opcode decoder may do: look at the machine, and fetch. -/
inductive OpDecoder where
  | done (inst : Inst)
  | look (k : Cpu → OpDecoder)
  | byte (k : U8 → OpDecoder)
  | word (k : U16 → OpDecoder)
  | dword (k : U32 → OpDecoder)
  | qword (k : U64 → OpDecoder)
  | modrm (k : ModRm → OpDecoder)

def OpDecoder.run : OpDecoder → Exec Inst
  | .done inst => pure inst
  | .look k => do (k (← get)).run
  | .byte k => do (k (← fetchU8)).run
  | .word k => do (k (← fetchU16)).run
  | .dword k => do (k (← fetchU32)).run
  | .qword k => do (k (← fetchU64)).run
  | .modrm k => do (k (← fetchModrm)).run

/-! ## The prefix loop -/

namespace Cpu

def clearRex (s : Cpu) : Cpu :=
  { s with rexPresent := false, rexW := false, rexR := false, rexX := false, rexB := false }

def setRex (s : Cpu) (b : U8) : Cpu :=
  { s with
    rexPresent := true
    rexW := test b 8
    rexR := test b 4
    rexX := test b 2
    rexB := test b 1 }

/-- The defaults of the mode, and no prefix yet. -/
def startDecode (s : Cpu) : Cpu :=
  let d32 := s.pe && (s.segDesc .cs).dB
  let s :=
    if s.long64 then { s with opsize := true, addrsize := true, addr64 := true }
    else { s with opsize := d32, addrsize := d32, addr64 := false }
  { s.clearRex with segOverride := none, ssePfx := none }

/-- A segment override, ignored in 64-bit mode for a segment without a base there. -/
def overrideSeg (s : Cpu) (long64 : Bool) (r : SegReg) : Cpu :=
  if long64 then s else { s with segOverride := some r }

/-- What a legacy prefix does before it is consumed. -/
def legacyPrefix (s : Cpu) (long64 : Bool) (b : U8) : Cpu :=
  let s := s.clearRex
  if b = 0xF3 ∨ b = 0xF2 then { s with ssePfx := some b }
  else if b = 0x66 then
    { s with opsize := if long64 then false else !s.opsize, ssePfx := some 0x66 }
  else if b = 0x67 then
    if long64 then { s with addr64 := false } else { s with addrsize := !s.addrsize }
  else if b = 0x2E then s.overrideSeg long64 .cs
  else if b = 0x36 then s.overrideSeg long64 .ss
  else if b = 0x3E then s.overrideSeg long64 .ds
  else if b = 0x26 then s.overrideSeg long64 .es
  else if b = 0x64 then { s with segOverride := some .fs }
  else if b = 0x65 then { s with segOverride := some .gs }
  else s

end Cpu

def legacyPrefixes : List U8 :=
  [0xF0, 0xF3, 0xF2, 0x66, 0x67, 0x2E, 0x36, 0x3E, 0x26, 0x64, 0x65]

/-- The repeat prefix after a legacy prefix. -/
def Rep.after (rep : Rep) (b : U8) : Rep :=
  if b = 0xF3 then .repe else if b = 0xF2 then .repne else rep

/-- One turn of the prefix loop: the repeat prefix so far, or none where the opcode starts. -/
def prefixTurn (long64 : Bool) (rep : Rep) : Exec (Option Rep) := do
  let peek ← peekU8
  if long64 && decide (0x40 ≤ peek ∧ peek ≤ 0x4F) then
    let b ← fetchU8
    modify (·.setRex b)
    pure (some rep)
  else if peek ∈ legacyPrefixes then
    modify (·.legacyPrefix long64 peek)
    let _ ← fetchU8
    pure (some (rep.after peek))
  else pure none

/-- The prefix loop, for as many as `n` prefixes. -/
def prefixLoop (long64 : Bool) : Nat → Rep → Exec Rep
  | 0, rep => pure rep
  | n + 1, rep => do
    match ← prefixTurn long64 rep with
    | some rep => prefixLoop long64 n rep
    | none => pure rep

/-- Decode an instruction with at most `n` prefixes; REX.W wins over everything. -/
def decode (decodeOp : U8 → Rep → OpDecoder) (n : Nat) : Exec Inst := do
  let long64 := (← get).long64
  modify (·.startDecode)
  let rep ← prefixLoop long64 n .none
  modify fun s => if s.rexW then { s with opsize := true } else s
  let op ← fetchU8
  (decodeOp op rep).run

/-! ## Fetching keeps every frame -/

section Rules

variable {R : Cpu → Cpu → Prop} [UserFrame R]

theorem frame_ensurePhysIp : Keeps R ensurePhysIp := by
  refine .get_bind fun s => .ite (.pure _) ?_
  refine (frame_inner fun t => by rfl).bind fun _ => Keeps.bind ?_ fun phys => ?_
  · exact fun t => UserFrame.translate t _ _ _
  · exact frame_inner fun t => by rfl

theorem inner_advance (n : U64) : Inner fun s => (s.advanceIp n).advanceCache n := by
  intro s
  have hcache (t : Cpu) : (t.advanceCache n).shell = t.shell := rfl
  refine (hcache _).trans ?_
  unfold Cpu.advanceIp
  split <;> rfl

theorem frame_peekU8 : Keeps R peekU8 :=
  frame_ensurePhysIp.bind fun _ => .get_bind fun _ => .pure _

theorem frame_fetchU8 : Keeps R fetchU8 :=
  frame_ensurePhysIp.bind fun _ => .get_bind fun _ =>
    (frame_inner (inner_advance 1)).bind fun _ => .pure _

theorem frame_fetchU16 : Keeps R fetchU16 := by
  refine frame_ensurePhysIp.bind fun _ => .get_bind fun s => .ite ?_ ?_
  · exact (frame_inner (inner_advance 2)).bind fun _ => .pure _
  · exact frame_fetchU8.bind fun _ => frame_fetchU8.bind fun _ => .pure _

theorem frame_fetchU32 : Keeps R fetchU32 :=
  frame_fetchU16.bind fun _ => frame_fetchU16.bind fun _ => .pure _

theorem frame_fetchU64 : Keeps R fetchU64 :=
  frame_fetchU32.bind fun _ => frame_fetchU32.bind fun _ => .pure _

theorem frame_fetchSib (m : ModRm) : Keeps R (fetchSib m) :=
  .ite (frame_fetchU8.bind fun _ => .pure _) (.pure _)

theorem frame_fetchDisp32 (m : ModRm) : Keeps R (fetchDisp32 m) := by
  have hdisp : Keeps R (if m.modField = 1 then do
      pure { m with disp32 := some ((← fetchU8).signExtend 32) }
    else if m.modField = 2 then do pure { m with disp32 := some (← fetchU32) }
    else pure m : Exec ModRm) :=
    .ite (frame_fetchU8.bind fun _ => .pure _) (.ite (frame_fetchU32.bind fun _ => .pure _) (.pure _))
  refine .ite (.ite (.get_bind fun s => ?_) (.pure _)) hdisp
  exact frame_fetchU32.bind fun _ => .pure _

theorem frame_fetchDisp16 (m : ModRm) : Keeps R (fetchDisp16 m) :=
  .ite (.ite (frame_fetchU16.bind fun _ => .pure _) (.pure _)) <|
    .ite (frame_fetchU8.bind fun _ => .pure _) <|
      .ite (frame_fetchU16.bind fun _ => .pure _) (.pure _)

theorem frame_fetchModrm : Keeps R fetchModrm :=
  frame_fetchU8.bind fun _ => .get_bind fun _ =>
    .ite ((frame_fetchSib _).bind fun _ => frame_fetchDisp32 _) (frame_fetchDisp16 _)

theorem frame_opDecoder (d : OpDecoder) : Keeps R d.run := by
  induction d with
  | done inst => exact .pure _
  | look k ih => exact .get_bind fun s => ih s
  | byte k ih => exact frame_fetchU8.bind ih
  | word k ih => exact frame_fetchU16.bind ih
  | dword k ih => exact frame_fetchU32.bind ih
  | qword k ih => exact frame_fetchU64.bind ih
  | modrm k ih => exact frame_fetchModrm.bind ih

end Rules

end X86Emu
