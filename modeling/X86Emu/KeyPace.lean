import X86Emu.ExitFrame
import X86Emu.KeyScript
import X86Emu.VmxSteps

/-!
# The pace of scripted keys

The run loop types the key script one code at a time. Over a whole run the codes leave the script in
order, the first at a count no less than the one it was queued for and each later one at a count at
least 20000 past that of the one before.
-/
namespace X86Emu

open StateRules

/-- The key script and the instruction count are as they were. -/
def SameScript (s t : Cpu) : Prop := t.outer.2 = s.outer.2

namespace SameScript

theorem of_outer {s t : Cpu} (h : SameOuter s t) : SameScript s t := h.rest

theorem trans {s t u : Cpu} (h : SameScript s t) (k : SameScript t u) : SameScript s u :=
  Eq.trans k h

theorem script {s t : Cpu} (h : SameScript s t) : t.keyScript = s.keyScript := congrArg (·.1) h

theorem next {s t : Cpu} (h : SameScript s t) : t.keyNext = s.keyNext := congrArg (·.2.1) h

theorem count {s t : Cpu} (h : SameScript s t) :
    t.instructionsExecuted = s.instructionsExecuted := congrArg (·.2.2) h

end SameScript

/-! ## What leaves the script alone -/

instance : ExitFrame SameScript where
  refl _ := rfl
  trans _ _ _ := .trans
  of_outer := .of_outer
  exit s _ _ _ _ := (outer_vmExit s _ _ _ _).rest

theorem script_vmEntry (s : Cpu) : SameScript s (vmEntry s).2 := by
  have hentered : SameScript s s.enterGuest := (outer_enterGuest s).rest
  have hconsumed (t : Cpu) : SameScript t t.consumeEvent := rfl
  rw [vmEntry, bind_run, modify_run, bind_run, get_run]
  dsimp only
  cases s.enterGuest.injectedEvent with
  | none => exact hentered
  | some e =>
    exact hentered.trans ((hconsumed _).trans
      (exit_dispatchExceptionRaw (R := SameScript) e.1 e.2 _))

theorem script_done {v : VmxInst} {s t : Cpu} (h : VmxDone v s t) : SameScript s t := by
  cases h with
  | plain h => exact h.rest
  | wrote _ _ _ h => exact h.rest
  | on _ _ _ _ _ h => exact h.rest
  | off _ _ h => exact h.rest
  | clear _ _ _ _ h => exact h.rest
  | load _ _ _ _ _ h => exact h.rest
  | enter => exact script_vmEntry s

theorem script_wrmsr (s : Cpu) : SameScript s (wrmsr s).2 := by
  rcases done_wrmsr s with h | ⟨-, f, h⟩
  · exact h.rest
  · exact h.rest

/-! ## Typing -/

/-- The pause is `keyInterval`. -/
def keyPause : Nat := Cpu.keyInterval.toNat

/-- A code goes from the front of the script when the count has come to `keyNext`, which moves on by
the pause. -/
structure KeyTyped (s t : Cpu) (code : U8) : Prop where
  script : s.keyScript = code :: t.keyScript
  due : s.keyNext.toNat ≤ s.instructionsExecuted.toNat
  next : t.keyNext.toNat = s.instructionsExecuted.toNat + keyPause

theorem KeyTyped.same {s t u : Cpu} {code : U8} (h : KeyTyped s t code) (k : SameScript t u) :
    KeyTyped s u code where
  script := h.script.trans (by rw [k.script])
  due := h.due
  next := by rw [k.next, h.next]

theorem SameScript.typed {s t u : Cpu} {code : U8} (h : SameScript s t) (k : KeyTyped t u code) :
    KeyTyped s u code where
  script := h.script.symm.trans k.script
  due := by rw [← h.next, ← h.count]; exact k.due
  next := by rw [k.next, h.count]

/-- A part of a turn: the count stands still, and while it is far from its end the script stays or
one code is typed. -/
def ScriptPaced (s t : Cpu) : Prop :=
  t.instructionsExecuted = s.instructionsExecuted ∧
    (s.instructionsExecuted.toNat + keyPause < 2 ^ 64 →
      SameScript s t ∨ ∃ code, KeyTyped s t code)

theorem scriptPaced_same {s t : Cpu} (h : SameScript s t) : ScriptPaced s t :=
  ⟨h.count, fun _ => .inl h⟩

/-- Once a code is typed the next is not due before the count moves. -/
theorem ScriptPaced.trans {s t u : Cpu} (h : ScriptPaced s t) (k : ScriptPaced t u) :
    ScriptPaced s u := by
  refine ⟨k.1.trans h.1, fun hroom => ?_⟩
  rcases h.2 hroom with hsame | ⟨code, htyped⟩
  · rcases k.2 (by rwa [h.1]) with hsame' | ⟨code, htyped⟩
    · exact .inl (hsame.trans hsame')
    · exact .inr ⟨code, hsame.typed htyped⟩
  · rcases k.2 (by rwa [h.1]) with hsame | ⟨code', hagain⟩
    · exact .inr ⟨code, htyped.same hsame⟩
    · have hdue := hagain.due
      have hpause : keyPause = 20000 := rfl
      rw [htyped.next, h.1] at hdue
      omega

/-- Typing a code takes the first one off the script, when it is due, and sets the next. -/
theorem paced_typeNextKey (s : Cpu) : ScriptPaced s s.typeNextKey := by
  unfold Cpu.typeNextKey
  cases hscript : s.keyScript with
  | nil => exact scriptPaced_same rfl
  | cons code rest =>
    dsimp only
    split
    · rename_i hdue
      have hnow : s.keyNext.toNat ≤ s.instructionsExecuted.toNat := by
        simp only [Bool.and_eq_true, decide_eq_true_eq] at hdue
        exact hdue.2
      refine ⟨rfl, fun hroom => .inr ⟨code, hscript, hnow, ?_⟩⟩
      show (s.instructionsExecuted + Cpu.keyInterval).toNat = _
      rw [BitVec.toNat_add]
      exact Nat.mod_eq_of_lt hroom
    · exact scriptPaced_same rfl

instance : TurnFrame ScriptPaced where
  refl _ := scriptPaced_same rfl
  trans _ _ _ := .trans
  of_outer h := scriptPaced_same (.of_outer h)
  exit s _ _ _ _ := scriptPaced_same (ExitFrame.exit s _ _ _ _)
  types := paced_typeNextKey
  reaching inst s h _ := by
    cases inst with
    | wrmsr => exact scriptPaced_same (script_wrmsr s)
    | vmx v => exact scriptPaced_same (script_done (done_executeVmx v s))
    | _ => cases h

/-! ## Runs -/

/-- The count at which a turn from here types: a halted machine has counted the turn already. -/
def Cpu.typingCount (s : Cpu) : Nat :=
  if s.halted then s.instructionsExecuted.toNat + 1 else s.instructionsExecuted.toNat

/-- What a turn does to the script: it stays, or a code is typed at the count of the turn. -/
structure TurnTypes (s t : Cpu) : Prop where
  count : t.instructionsExecuted.toNat = s.instructionsExecuted.toNat + 1
  script : (t.keyScript = s.keyScript ∧ t.keyNext = s.keyNext) ∨
    ∃ code, s.keyScript = code :: t.keyScript ∧ s.keyNext.toNat ≤ s.typingCount ∧
      t.keyNext.toNat = s.typingCount + keyPause

theorem paced_turn {decode : Exec Inst} (hd : Keeps SameOuter decode) {s t : Cpu}
    (h : turn decode s = some t) (hroom : s.instructionsExecuted.toNat + 1 + keyPause < 2 ^ 64) :
    TurnTypes s t := by
  have hone (u : Cpu) (hu : u.instructionsExecuted.toNat + 1 < 2 ^ 64) :
      u.countInst.instructionsExecuted.toNat = u.instructionsExecuted.toNat + 1 := by
    show (u.instructionsExecuted + 1).toNat = _
    rw [BitVec.toNat_add]
    exact Nat.mod_eq_of_lt hu
  rcases event_turn (R := ScriptPaced) hd h with
    ⟨hrunning, u, ⟨hsame, hpaced⟩, rfl⟩ | ⟨hhalted, hsame, hpaced⟩
  · have hcount : s.typingCount = s.instructionsExecuted.toNat := by
      rw [Cpu.typingCount, hrunning]
      rfl
    refine ⟨by rw [hone u (by rw [hsame]; omega), hsame], ?_⟩
    rw [hcount]
    rcases hpaced (by omega) with hu | ⟨code, hu⟩
    · exact .inl ⟨hu.script, hu.next⟩
    · exact .inr ⟨code, hu.script, hu.due, hu.next⟩
  · have hnext := hone s (by omega)
    have hcount : s.typingCount = s.countInst.instructionsExecuted.toNat := by
      rw [Cpu.typingCount, hhalted, hnext]
      rfl
    refine ⟨by rw [hsame, hnext], ?_⟩
    rw [hcount]
    rcases hpaced (by rw [hnext]; omega) with hu | ⟨code, hu⟩
    · exact .inl ⟨hu.script, hu.next⟩
    · exact .inr ⟨code, hu.script, hu.due, hu.next⟩

/-- The codes a run typed, each with the count it was typed at. -/
structure KeysTyped (decode : Exec Inst) (turns : Nat) (s t : Cpu) (typed : List (Nat × U8)) :
    Prop where
  script : s.keyScript = typed.map Prod.snd ++ t.keyScript
  first : ∀ k ∈ typed.head?, s.keyNext.toNat ≤ k.1
  gaps : typed.IsChain fun k k' => k.1 + 20000 ≤ k'.1
  counts : ∀ k ∈ typed, ∃ n < turns, ∃ u v, runFor decode n s = some u ∧
    turn decode u = some v ∧ u.keyScript = k.2 :: v.keyScript ∧ u.typingCount = k.1

section Runs

variable {decode : Exec Inst} {turns : Nat} {s t u : Cpu} {typed : List (Nat × U8)}

/-- The turns of a run after its first one. -/
theorem counts_after (hu : turn decode s = some u) (h : KeysTyped decode turns u t typed) :
    ∀ k ∈ typed, ∃ n < turns + 1, ∃ v w, runFor decode n s = some v ∧
      turn decode v = some w ∧ v.keyScript = k.2 :: w.keyScript ∧ v.typingCount = k.1 := by
  intro k hk
  obtain ⟨n, hn, v, w, hv, hw⟩ := h.counts k hk
  exact ⟨n + 1, Nat.succ_lt_succ hn, v, w, Option.bind_eq_some_iff.mpr ⟨u, hu, hv⟩, hw⟩

/-- A turn that types nothing before a run. -/
theorem KeysTyped.after_idle (hu : turn decode s = some u) (hscript : u.keyScript = s.keyScript)
    (hnext : u.keyNext = s.keyNext) (h : KeysTyped decode turns u t typed) :
    KeysTyped decode (turns + 1) s t typed where
  script := hscript.symm.trans h.script
  first := hnext ▸ h.first
  gaps := h.gaps
  counts := counts_after hu h

/-- A turn that types before a run. -/
theorem KeysTyped.after_typing {code : U8} (hu : turn decode s = some u)
    (hscript : s.keyScript = code :: u.keyScript) (hdue : s.keyNext.toNat ≤ s.typingCount)
    (hnext : u.keyNext.toNat = s.typingCount + keyPause) (h : KeysTyped decode turns u t typed) :
    KeysTyped decode (turns + 1) s t ((s.typingCount, code) :: typed) where
  script := by rw [hscript, h.script]; rfl
  first k hk := by
    obtain rfl := Option.some.inj hk
    exact hdue
  gaps := List.isChain_cons.mpr ⟨fun k hk => hnext ▸ h.first k hk, h.gaps⟩
  counts k hk := by
    rcases List.mem_cons.mp hk with rfl | hk
    · exact ⟨0, Nat.zero_lt_succ _, s, u, rfl, hu, hscript, rfl⟩
    · exact counts_after hu h k hk

theorem paced_runFor (hd : Keeps SameOuter decode) :
    ∀ (turns : Nat) {s t : Cpu}, runFor decode turns s = some t →
      s.instructionsExecuted.toNat + turns + keyPause < 2 ^ 64 →
      t.instructionsExecuted.toNat = s.instructionsExecuted.toNat + turns ∧
        ∃ typed, KeysTyped decode turns s t typed
  | 0, s, t, h, _ => by
    obtain rfl := Option.some.inj h
    exact ⟨rfl, [], rfl, nofun, .nil, nofun⟩
  | turns + 1, s, t, h, hroom => by
    obtain ⟨u, hu, hrest⟩ := Option.bind_eq_some_iff.mp h
    obtain ⟨hone, htypes⟩ := paced_turn hd hu (by omega)
    obtain ⟨hcount, typed, hrun⟩ := paced_runFor hd turns hrest (by omega)
    refine ⟨by omega, ?_⟩
    rcases htypes with ⟨hscript, hnext⟩ | ⟨code, hscript, hdue, hnext⟩
    · exact ⟨typed, hrun.after_idle hu hscript hnext⟩
    · exact ⟨_, hrun.after_typing hu hscript hdue hnext⟩

end Runs

/-- In every run, whatever it executes and however it is interrupted, the count goes up by one each
turn and the script is typed from its front: the first code at a count no less than `keyNext`, each
later one at a count at least 20000 past the one before. -/
theorem scripted_keys_paced (decodeOp : U8 → Rep → OpDecoder) (n turns : Nat) {s t : Cpu}
    (ht : runFor (decode decodeOp n) turns s = some t)
    (hroom : s.instructionsExecuted.toNat + turns + 20000 < 2 ^ 64) :
    t.instructionsExecuted.toNat = s.instructionsExecuted.toNat + turns ∧
      ∃ typed, KeysTyped (decode decodeOp n) turns s t typed :=
  paced_runFor (outer_decode decodeOp n) turns ht hroom

/-- A machine with a text queued, whose driver has attached. -/
def typingMachine : Cpu :=
  let s := (Cpu.withRam 0 Memory.empty_le 0).typeKeys [0x68, 0x69] 0
  { s with kbd := { s.kbd with driverAttached := true } }

/-- Its first step types the code of the letter h. -/
theorem typingMachine_paced : ∃ t typed,
    runFor (decode (fun _ _ => .done .nop) 15) 1 typingMachine = some t ∧
      KeysTyped (decode (fun _ _ => .done .nop) 15) 1 typingMachine t typed ∧
        typed.map Prod.snd = [0x23] := by
  have hrest : (runFor (decode (fun _ _ => .done .nop) 15) 1 typingMachine).map Cpu.keyScript =
      some [0xA3, 0x17, 0x97] := by decide +kernel
  obtain ⟨t, ht, hscript⟩ := Option.map_eq_some_iff.mp hrest
  obtain ⟨-, typed, htyped⟩ := scripted_keys_paced (fun _ _ => .done .nop) 15 1 ht (by decide)
  have hall : typed.map Prod.snd ++ t.keyScript = [0x23] ++ t.keyScript := by
    rw [← htyped.script, hscript]
    rfl
  exact ⟨t, typed, ht, htyped, List.append_cancel_right hall⟩

end X86Emu
