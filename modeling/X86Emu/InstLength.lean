import X86Emu.DecodeOp
import X86Emu.FetchCache

/-!
# How far decoding reads

How many bytes a run of fetches consumes: one by one, for a ModR/M operand, and along every path of
the opcode decoder.
-/
namespace X86Emu

open StateRules OpDecoder

/-! ## What is consumed -/

section Consuming

variable {α β : Type} {m m' : Nat} {s : Cpu}

/-- A run moves the instruction pointer by at most `m` bytes. -/
structure Consumes (m : Nat) (p : Exec α) : Prop where
  moves : ∀ {n : Nat} {s t : Cpu},
    s.ripMask = (if s.long64 then 0xFFFFFFFFFFFFFFFF else 0xFFFFFFFF) →
    Advanced n s t → ∃ j ≤ m, Advanced (n + j) s (p t).2

theorem Consumes.pure (a : α) : Consumes 0 (pure a : Exec α) := ⟨fun _ h => ⟨0, Nat.le_refl 0, h⟩⟩

theorem Consumes.bind {p : Exec α} {f : α → Exec β} (hp : Consumes m p)
    (hf : ∀ a, Consumes m' (f a)) : Consumes (m + m') (p >>= f) := by
  refine ⟨fun {n s t} hmask h => ?_⟩
  obtain ⟨i, hi, hfirst⟩ := hp.moves hmask h
  obtain ⟨j, hj, hrest⟩ := (hf (p t).1).moves hmask hfirst
  exact ⟨i + j, by omega, by rwa [← Nat.add_assoc]⟩

theorem Consumes.mono {p : Exec α} (hp : Consumes m p) (hm : m ≤ m') : Consumes m' p := by
  refine ⟨fun hmask h => ?_⟩
  obtain ⟨i, hi, hrun⟩ := hp.moves hmask h
  exact ⟨i, by omega, hrun⟩

theorem Consumes.ite {c : Prop} [Decidable c] {p q : Exec α} (hp : Consumes m p)
    (hq : Consumes m q) : Consumes m (if c then p else q) := by
  split
  · exact hp
  · exact hq

theorem Consumes.get_bind {f : Cpu → Exec α} (hf : ∀ s, Consumes m (f s)) :
    Consumes m (get >>= f) := ⟨fun {_ _ t} hmask h => (hf t).moves hmask h⟩

theorem Consumes.map {p : Exec α} (hp : Consumes m p) (f : α → β) :
    Consumes m (do let a ← p; Pure.pure (f a)) := hp.bind fun _ => .pure _

theorem advanced_ensurePhysIp {n : Nat} {t : Cpu} (h : Advanced n s t) :
    Advanced n s (ensurePhysIp t).2 := by
  by_cases hv : t.physIpValid = true
  · rw [ensurePhysIp_valid hv]
    exact h
  · obtain ⟨tlb, mem, e, cr2, log, hchange⟩ := Cpu.fetch_changes t.ipLinear t
    rw [ensurePhysIp_invalid hv, hchange]
    exact ⟨h.pe, h.mask, h.ip, h.rip⟩

theorem Advanced.consume {n : Nat} {t : Cpu} (h : Advanced n s t)
    (hmask : s.ripMask = if s.long64 then 0xFFFFFFFFFFFFFFFF else 0xFFFFFFFF) {k : Nat}
    (hk : 0 < k) :
    Advanced (n + k) s
      ((t.advanceIp (BitVec.ofNat 64 k)).advanceCache (BitVec.ofNat 64 k)) := by
  have hadv := h.advance hmask hk
  exact ⟨hadv.pe, hadv.mask, hadv.ip, hadv.rip⟩

theorem advanced_fetchU8 {n : Nat} {t : Cpu} (h : Advanced n s t)
    (hmask : s.ripMask = if s.long64 then 0xFFFFFFFFFFFFFFFF else 0xFFFFFFFF) :
    Advanced (n + 1) s (fetchU8 t).2 :=
  (advanced_ensurePhysIp h).consume hmask Nat.one_pos

theorem consumes_fetchU8 : Consumes 1 fetchU8 :=
  ⟨fun hmask h => ⟨1, Nat.le_refl 1, advanced_fetchU8 h hmask⟩⟩

theorem consumes_ensurePhysIp : Consumes 0 ensurePhysIp :=
  ⟨fun _ h => ⟨0, Nat.le_refl 0, advanced_ensurePhysIp h⟩⟩

theorem consumes_advance {k : Nat} (hk : 0 < k) : Consumes k (modify fun t =>
    (t.advanceIp (BitVec.ofNat 64 k)).advanceCache (BitVec.ofNat 64 k) : Exec Unit) :=
  ⟨fun hmask h => ⟨k, Nat.le_refl k, h.consume hmask hk⟩⟩

theorem consumes_fetchU16 : Consumes 2 fetchU16 := by
  have hslow : Consumes 2 (do
      let lo ← fetchU8
      let hi ← fetchU8
      pure (u16 lo ||| u16 hi <<< 8) : Exec U16) :=
    consumes_fetchU8.bind fun _ => consumes_fetchU8.map _
  refine (Consumes.bind consumes_ensurePhysIp fun _ => .get_bind fun s => ?_ : Consumes (0 + 2) _)
  refine .ite ?_ hslow
  exact (consumes_advance (k := 2) (by decide)).bind fun _ => .pure _

theorem consumes_fetchU32 : Consumes 4 fetchU32 :=
  consumes_fetchU16.bind fun _ => consumes_fetchU16.map _

theorem consumes_fetchU64 : Consumes 8 fetchU64 :=
  consumes_fetchU32.bind fun _ => consumes_fetchU32.map _

theorem consumes_fetchSib (m : ModRm) : Consumes 1 (fetchSib m) := by
  unfold fetchSib
  exact .ite (consumes_fetchU8.map _) ((Consumes.pure _).mono (by decide))

theorem consumes_fetchDisp32 (m : ModRm) : Consumes 4 (fetchDisp32 m) := by
  have hnone : Consumes 4 (pure m : Exec ModRm) := (Consumes.pure m).mono (by decide)
  unfold fetchDisp32
  dsimp only
  refine .ite (.ite (.get_bind fun s => consumes_fetchU32.map _) hnone) ?_
  exact .ite ((consumes_fetchU8.map _).mono (by decide)) (.ite (consumes_fetchU32.map _) hnone)

theorem consumes_fetchDisp16 (m : ModRm) : Consumes 2 (fetchDisp16 m) := by
  have hnone : Consumes 2 (pure m : Exec ModRm) := (Consumes.pure m).mono (by decide)
  unfold fetchDisp16
  refine .ite (.ite (consumes_fetchU16.map _) hnone) ?_
  exact .ite ((consumes_fetchU8.map _).mono (by decide)) (.ite (consumes_fetchU16.map _) hnone)

/-- A ModR/M byte, a SIB byte and a displacement. -/
theorem consumes_fetchModrm : Consumes 6 fetchModrm := by
  refine (consumes_fetchU8.bind fun byte => .get_bind fun s => ?_ : Consumes (1 + 5) _)
  refine .ite ?_ ?_
  · exact (consumes_fetchSib _).bind fun m => consumes_fetchDisp32 m
  · exact (consumes_fetchDisp16 _).mono (by decide)

end Consuming

/-! ## Paths of an opcode decoder -/

/-- No path of an opcode decoder fetches more than `m` bytes. -/
def OpDecoder.Within : Nat → OpDecoder → Prop
  | _, .done _ => True
  | m, .look k => ∀ s, (k s).Within m
  | m, .byte k => 1 ≤ m ∧ ∀ b, (k b).Within (m - 1)
  | m, .word k => 2 ≤ m ∧ ∀ v, (k v).Within (m - 2)
  | m, .dword k => 4 ≤ m ∧ ∀ v, (k v).Within (m - 4)
  | m, .qword k => 8 ≤ m ∧ ∀ v, (k v).Within (m - 8)
  | m, .modrm k => 6 ≤ m ∧ ∀ v, (k v).Within (m - 6)

theorem consumes_opDecoder (d : OpDecoder) : ∀ {m : Nat}, d.Within m → Consumes m d.run := by
  have hfetch {α : Type} {c m : Nat} {p : Exec α} {f : α → Exec Inst} (hp : Consumes c p)
      (hc : c ≤ m) (hf : ∀ a, Consumes (m - c) (f a)) : Consumes m (p >>= f) :=
    (hp.bind hf).mono (by omega)
  induction d with
  | done inst => exact fun _ => (Consumes.pure inst).mono (Nat.zero_le _)
  | look k ih => exact fun h => .get_bind fun s => ih s (h s)
  | byte k ih => exact fun h => hfetch consumes_fetchU8 h.1 fun b => ih b (h.2 b)
  | word k ih => exact fun h => hfetch consumes_fetchU16 h.1 fun v => ih v (h.2 v)
  | dword k ih => exact fun h => hfetch consumes_fetchU32 h.1 fun v => ih v (h.2 v)
  | qword k ih => exact fun h => hfetch consumes_fetchU64 h.1 fun v => ih v (h.2 v)
  | modrm k ih => exact fun h => hfetch consumes_fetchModrm h.1 fun v => ih v (h.2 v)

namespace OpDecoder

variable {m : Nat} {w32 : Bool} {c : Prop} [Decidable c]

@[simp] theorem within_done (inst : Inst) : (OpDecoder.done inst).Within m := trivial

@[simp] theorem within_unknown (opcode : U16) : (OpDecoder.unknown opcode).Within m := trivial

@[simp] theorem within_look (k : Cpu → OpDecoder) :
    (OpDecoder.look k).Within m ↔ ∀ s, (k s).Within m := Iff.rfl

@[simp] theorem within_byte (k : U8 → OpDecoder) :
    (OpDecoder.byte k).Within m ↔ 1 ≤ m ∧ ∀ b, (k b).Within (m - 1) := Iff.rfl

@[simp] theorem within_word (k : U16 → OpDecoder) :
    (OpDecoder.word k).Within m ↔ 2 ≤ m ∧ ∀ v, (k v).Within (m - 2) := Iff.rfl

@[simp] theorem within_dword (k : U32 → OpDecoder) :
    (OpDecoder.dword k).Within m ↔ 4 ≤ m ∧ ∀ v, (k v).Within (m - 4) := Iff.rfl

@[simp] theorem within_qword (k : U64 → OpDecoder) :
    (OpDecoder.qword k).Within m ↔ 8 ≤ m ∧ ∀ v, (k v).Within (m - 8) := Iff.rfl

@[simp] theorem within_modrm (k : ModRm → OpDecoder) :
    (OpDecoder.modrm k).Within m ↔ 6 ≤ m ∧ ∀ v, (k v).Within (m - 6) := Iff.rfl

@[simp] theorem within_ite (d e : OpDecoder) :
    (if c then d else e).Within m ↔ if c then d.Within m else e.Within m := by
  split <;> rfl

@[simp] theorem within_rm (f : ModRm → Inst) : (rm f).Within m ↔ 6 ≤ m := by simp [rm]

@[simp] theorem within_imm8 (f : U8 → Inst) : (imm8 f).Within m ↔ 1 ≤ m := by simp [imm8]

@[simp] theorem within_rmImm8 (f : ModRm → U8 → Inst) (hm : 7 ≤ m) : (rmImm8 f).Within m :=
  ⟨by omega, fun _ => ⟨by omega, fun _ => trivial⟩⟩

@[simp] theorem within_immW (f32 : U32 → Inst) (f16 : U16 → Inst) (hm : 4 ≤ m) :
    (immW w32 f32 f16).Within m := by
  unfold immW
  split
  · exact ⟨hm, fun _ => trivial⟩
  · exact ⟨by omega, fun _ => trivial⟩

@[simp] theorem within_rmImmW (f32 : ModRm → U32 → Inst) (f16 : ModRm → U16 → Inst)
    (hm : 10 ≤ m) : (rmImmW w32 f32 f16).Within m :=
  ⟨by omega, fun _ => within_immW _ _ (by omega)⟩

@[simp] theorem within_far (f32 : U32 → U16 → Inst) (f16 : U16 → U16 → Inst) (hm : 6 ≤ m) :
    (far w32 f32 f16).Within m := by
  unfold far
  split
  · exact ⟨by omega, fun _ => ⟨by omega, fun _ => trivial⟩⟩
  · exact ⟨by omega, fun _ => ⟨by omega, fun _ => trivial⟩⟩

end OpDecoder

/-! ## The opcode decoder is bounded -/

section OpcodeMaps

variable (s : Cpu) (rep : Rep) (w32 : Bool) (op op2 : U8)

@[simp] theorem within_decodeAlu (alu : AluOp) (k : U8) : (decodeAlu w32 alu k).Within 10 := by
  simp [decodeAlu]

@[simp] theorem within_decode00 : (decode00 w32 op).Within 10 := by simp [decode00]

@[simp] theorem within_decode40 : (decode40 s w32 op).Within 10 := by simp [decode40]

@[simp] theorem within_decode80 : (decode80 s rep w32 op).Within 10 := by simp [decode80]

/-- Only TEST has an immediate. -/
@[simp] theorem within_decodeF6 : decodeF6.Within 10 := by
  rw [decodeF6, within_modrm]
  refine ⟨by decide, fun m => ?_⟩
  split <;> simp

@[simp] theorem within_decodeF7 : (decodeF7 w32).Within 10 := by
  rw [decodeF7, within_modrm]
  refine ⟨by decide, fun m => ?_⟩
  split <;> simp

@[simp] theorem within_decodeFpu : (decodeFpu op).Within 10 := by simp [decodeFpu]

@[simp] theorem within_decodeC0 : (decodeC0 s w32 op).Within 10 := by simp [decodeC0]

@[simp] theorem within_decodeSse : (decodeSse s op2).Within 9 := by simp [decodeSse]

@[simp] theorem within_decode0fLow : (decode0fLow s op2).Within 9 := by simp [decode0fLow]

@[simp] theorem within_decode0fHigh : (decode0fHigh s w32 op2).Within 9 := by simp [decode0fHigh]

@[simp] theorem within_decode0f : (decode0f s w32).Within 10 := by simp [decode0f]

/-- The opcode decoder fetches no more than ten bytes. -/
theorem within_decodeOp : (decodeOp op rep).Within 10 := by simp [decodeOp]

end OpcodeMaps

end X86Emu
