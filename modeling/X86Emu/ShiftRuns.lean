import X86Emu.FaultingDelivery
import X86Emu.Shifts
import X86Emu.SplitAccess

/-!
# Runs of shifts

What SHLD and SHRD leave in their destination and the flags, and the amounts by which the host
shifts on the way: a host that stops at a shift by as much as its type is wide computes the same.
-/
namespace X86Emu

open StateRules

/-! ## Updates of an operand -/

/-- What an update of an operand leaves: the flags of what the operand held, and in its place, a
register or the bytes of memory, the result. -/
structure RmUpdated (m : ModRm) (w : Width) (f : U64 → U64) (flags : U64 → U32 → U32)
    (s t : Cpu) : Prop where
  flags : t.flags = flags (readRmW m w s).1 s.flags
  register : m.isReg = true →
    (t.reg64 m.rm).setWidth w.bits = (f (readRmW m w s).1).setWidth w.bits
  memory : m.isReg = false →
    (readRmW m w s).2.Whole true ((readRmW m w s).2.modrmLinear m) w.wide →
    (readRmW m w s).2.Writes ((readRmW m w s).2.modrmLinear m) w.bytes
      (byteOf (f (readRmW m w s).1)) t

theorem flags_of_pushOnly {s t : Cpu} (h : Cpu.PushOnly s t) : t.flags = s.flags := by
  rw [h]
  rfl

theorem reg64_setRegAt {s : Cpu} (hs : s.pendingException = none) {w : Width} (hw : w ≠ .w8)
    (i : U8) (v : U64) : ((s.setRegAt i w v).reg64 i).setWidth w.bits = v.setWidth w.bits := by
  have hrun : s.setRegAt i w v = s.setRegWRaw i w v := by
    rw [Cpu.setRegAt, if_neg hw, Cpu.setRegW, hs]
    rfl
  have hreg : (s.setRegWRaw i w v).reg64 i = Cpu.mergeW (s.reg64 i) w v := if_pos rfl
  rw [hrun, hreg]
  exact setWidth_mergeW _ _ _

/-- What an update of an operand does, read back. -/
theorem rmUpdate_updated {m : ModRm} {w : Width} (hw : w ≠ .w8) (f : U64 → U64)
    (flags : U64 → U32 → U32) {s : Cpu} (hs : s.pendingException = none) :
    RmUpdated m w f flags s (rmUpdate m w f flags s).2 where
  flags := by
    have hread := flags_of_pushOnly (pushOnly_readRmW m w s)
    have hwrite := flags_of_pushOnly
      (pushOnly_writeRmW m w (f (readRmW m w s).1) (readRmW m w s).2)
    exact congrArg (flags (readRmW m w s).1) (hwrite.trans hread)
  register hm := by
    have hread : (readRmW m w s).2 = s := by
      unfold readRmW
      rw [if_pos hm]
      rfl
    have hrun : (writeRmW m w (f (readRmW m w s).1) s).2 =
        s.setRegAt m.rm w (f (readRmW m w s).1) := by
      unfold writeRmW
      rw [bind_run, get_run, hs]
      dsimp only
      rw [if_neg (by decide), if_pos hm]
      rfl
    show (((writeRmW m w (f (readRmW m w s).1) (readRmW m w s).2).2).reg64 m.rm).setWidth w.bits = _
    rw [hread, hrun]
    exact reg64_setRegAt hs hw _ _
  memory hm hwhole := by
    obtain ⟨hserved, hfaulted⟩ := Cpu.writes_writeRmW hm (f (readRmW m w s).1) hw hwhole
    refine ⟨hserved, fun i hi hat => ?_⟩
    obtain ⟨hfault, hmarks⟩ := hfaulted i hi hat
    exact ⟨⟨hfault.pending, hfault.cr2⟩, hmarks⟩

/-! ## SHLD and SHRD -/

theorem doubleWidth_ne (w32 : Bool) (s : Cpu) : doubleWidth w32 s ≠ .w8 := by
  unfold doubleWidth
  split
  · decide
  · split <;> decide

theorem doubleShift_run (left : Bool) (m : ModRm) (reg : U8) (count : ShiftCount) (w32 : Bool)
    (s : Cpu) (h : doubleCount count s ≤ (doubleWidth w32 s).bits) :
    DoubleShiftRun left m reg count w32 s := by
  have hw := doubleWidth_ne w32 s
  have hrun : execute (doubleInst left m reg count w32) s =
      (doubleShift (doubleW left) m reg count w32) s := by cases left <;> rfl
  constructor
  · intro hk
    rw [hrun]
    exact congrFun (if_pos hk) s
  · intro hk
    refine ⟨_, _, hrun.trans (congrFun (if_neg hk) s), fun d fl => ?_⟩
    rw [regW_eq]
    exact doubleShift_flags hw d _ (by omega) h left fl

/-- What SHLD or SHRD leaves: the flags of the shift of what its destination held, and the shift in
the destination. -/
structure DoubleShiftLeaves (left : Bool) (m : ModRm) (w : Width) (src : BitVec w.bits) (k : Nat)
    (s t : Cpu) : Prop where
  flags : DoubleShiftExact left ((readRmW m w s).1.setWidth w.bits) src k s.flags
    (u64 (doubleSteps left ((readRmW m w s).1.setWidth w.bits) src (test s.flags Flags.cf) k).1)
    t.flags
  register : m.isReg = true → (t.reg64 m.rm).setWidth w.bits =
    (doubleSteps left ((s.reg64 m.rm).setWidth w.bits) src (test s.flags Flags.cf) k).1
  memory : m.isReg = false →
    (readRmW m w s).2.Whole true ((readRmW m w s).2.modrmLinear m) w.wide →
    (readRmW m w s).2.Writes ((readRmW m w s).2.modrmLinear m) w.bytes
      (byteOf (u64 (doubleSteps left ((readRmW m w s).1.setWidth w.bits) src
        (test s.flags Flags.cf) k).1)) t

theorem doubleShift_leaves (left : Bool) (m : ModRm) (reg : U8) (count : ShiftCount) (w32 : Bool)
    {s : Cpu} (hs : s.pendingException = none) (hk : doubleCount count s ≠ 0)
    (h : doubleCount count s ≤ (doubleWidth w32 s).bits) :
    DoubleShiftLeaves left m (doubleWidth w32 s) ((s.reg64 reg).setWidth (doubleWidth w32 s).bits)
      (doubleCount count s) s (execute (doubleInst left m reg count w32) s).2 := by
  have hw := doubleWidth_ne w32 s
  obtain ⟨f, g, hrun, hexact⟩ := (doubleShift_run left m reg count w32 s h).2 hk
  have hheld : (readRmW m (doubleWidth w32 s) s).1 =
      u64 ((readRmW m (doubleWidth w32 s) s).1.setWidth (doubleWidth w32 s).bits) := by
    refine BitVec.eq_of_toNat_eq ?_
    have hlt := toNat_readRmW_lt m (doubleWidth w32 s) s
    have hle := width_le (doubleWidth w32 s)
    rw [BitVec.toNat_setWidth, BitVec.toNat_setWidth, Nat.mod_eq_of_lt hlt, Nat.mod_eq_of_lt]
    exact hlt.trans_le (Nat.pow_le_pow_right (by decide) hle)
  have hup := rmUpdate_updated (m := m) hw f g hs
  have hat := hexact ((readRmW m (doubleWidth w32 s) s).1.setWidth (doubleWidth w32 s).bits) s.flags
  rw [hrun]
  generalize rmUpdate m (doubleWidth w32 s) f g s = t at hup ⊢
  rw [← hheld] at hat
  refine ⟨?_, fun hm => ?_, fun hm hwhole => ?_⟩
  · rw [hup.flags]
    exact { hat with value := rfl }
  · have hreg : (readRmW m (doubleWidth w32 s) s).1.setWidth (doubleWidth w32 s).bits =
        (s.reg64 m.rm).setWidth (doubleWidth w32 s).bits := by
      have hrun : (readRmW m (doubleWidth w32 s) s).1 = s.regAt m.rm (doubleWidth w32 s) := by
        unfold readRmW
        rw [if_pos hm]
        rfl
      rw [hrun, Cpu.regAt, if_neg hw, regW_eq]
      exact narrow_u64 (width_le _) _
    rw [hup.register hm, hat.value, hreg]
    exact narrow_u64 (width_le _) _
  · have hwrites := hup.memory hm hwhole
    rwa [hat.value] at hwrites

/-! ## The host's shifts -/

/-- A shift the host carries out: the width of the type shifted, and the amount. -/
abbrev HostShift := Nat × Nat

/-- The two shifts of a rotate by `k` of `N` bits held in 64. -/
def ringShifts (k N : Nat) : List HostShift := if k = 0 then [] else [(64, k), (64, N - k)]

/-- The shifts `shift_width` makes for the masked count `n`. -/
def hostShifts (op : ShiftOp) (w : Width) (n : Nat) : List HostShift :=
  if n = 0 then []
  else
    let width := w.bits
    let mask : List HostShift := if w = .w64 then [] else [(64, width)]
    let carried : List HostShift :=
      if w = .w64 then [(64, 63), (64, 1)]
      else [(64, width), (64, width + 1), (64, width)] ++ ringShifts (n % (width + 1)) (width + 1)
    mask ++ (64, width - 1) ::
      match op with
      | .shl => (64, min n 63) :: if n ≤ width then [(64, width - min n width)] else []
      | .shr =>
        (if n ≥ width then [] else [(64, n)]) ++ if n ≤ width then [(64, n - 1)] else []
      | .sar => [(64, min n (width - 1)), (64, min (n - 1) (width - 1))]
      | .rol => ringShifts (n % width) width
      | .ror => (64, width - 2) :: ringShifts (n % width) width
      | .rcl => carried
      | .rcr => (64, width - 2) :: carried

/-- The shifts SHLD and SHRD make, the last of them for OF. -/
def doubleHostShifts (left : Bool) (w : Width) (n : Nat) : List HostShift :=
  if n = 0 then []
  else
    match left, w with
    | true, .w64 => [(64, n), (64, 64 - n), (64, 64 - n), (64, 63)]
    | true, .w32 => [(32, n), (32, 32 - n), (32, 32 - n), (32, 31)]
    | true, _ => [(32, 16), (32, n), (32, 16), (16, 16 - min n 16), (16, 15)]
    | false, .w64 => [(64, n), (64, 64 - n), (64, n - 1), (64, 63)]
    | false, .w32 => [(32, n), (32, 32 - n), (32, n - 1), (32, 31)]
    | false, _ => [(32, 16), (32, n), (16, min (n - 1) 15), (16, 15)]

theorem ringShifts_fit {k N : Nat} (hk : k < N) (hN : N ≤ 64) :
    ∀ p ∈ ringShifts k N, p.2 < p.1 := by
  unfold ringShifts
  split
  · simp
  · simp
    omega

theorem hostShifts_fit (op : ShiftOp) (w : Width) (count : U8) :
    ∀ p ∈ hostShifts op w (maskedCount w count), p.2 < p.1 := by
  have hlt := maskedCount_lt w count
  have hge := width_ge w
  have hle := width_le w
  have hring := ringShifts_fit (Nat.mod_lt (maskedCount w count) (show 0 < w.bits by omega)) hle
  unfold hostShifts
  split
  · simp
  dsimp only
  have hmask : ∀ p ∈ (if w = .w64 then [] else [(64, w.bits)] : List HostShift), p.2 < p.1 := by
    split
    · simp
    · rename_i h0 hw
      have := narrow_le hw
      simp
      omega
  have hcarried : ∀ p ∈ (if w = .w64 then [(64, 63), (64, 1)]
      else [(64, w.bits), (64, w.bits + 1), (64, w.bits)] ++
        ringShifts (maskedCount w count % (w.bits + 1)) (w.bits + 1) : List HostShift),
      p.2 < p.1 := by
    split
    · simp
    · rename_i h0 hw
      have hbits := narrow_le hw
      have hround := ringShifts_fit (Nat.mod_lt (maskedCount w count) (Nat.succ_pos w.bits))
        (by omega)
      intro p hp
      obtain hp | hp := List.mem_append.mp hp
      · simp only [List.mem_cons, List.not_mem_nil, or_false] at hp
        obtain rfl | rfl | rfl := hp <;> dsimp only <;> omega
      · exact hround p hp
  intro p hp
  obtain hp | hp := List.mem_append.mp hp
  · exact hmask p hp
  obtain rfl | hp := List.mem_cons.mp hp
  · dsimp only
    omega
  cases op with
  | rol => exact hring p hp
  | ror =>
    obtain rfl | hp := List.mem_cons.mp hp
    · dsimp only
      omega
    · exact hring p hp
  | rcl => exact hcarried p hp
  | rcr =>
    obtain rfl | hp := List.mem_cons.mp hp
    · dsimp only
      omega
    · exact hcarried p hp
  | shl =>
    dsimp only at hp
    split at hp
    · simp only [List.mem_cons, List.not_mem_nil, or_false] at hp
      obtain rfl | rfl := hp <;> dsimp only <;> omega
    · simp only [List.mem_cons, List.not_mem_nil, or_false] at hp
      subst hp
      dsimp only
      omega
  | shr =>
    dsimp only at hp
    obtain hp | hp := List.mem_append.mp hp
    · split at hp
      · simp at hp
      · simp only [List.mem_cons, List.not_mem_nil, or_false] at hp
        subst hp
        exact hlt
    · split at hp
      · simp only [List.mem_cons, List.not_mem_nil, or_false] at hp
        subst hp
        dsimp only
        omega
      · simp at hp
  | sar =>
    simp only [List.mem_cons, List.not_mem_nil, or_false] at hp
    obtain rfl | rfl := hp <;> dsimp only <;> omega

/-- The masked count of SHLD and SHRD is below the width of the type shifted. -/
theorem doubleCount_lt (count : ShiftCount) (s : Cpu) :
    doubleCount count s < if s.osize = .w64 then 64 else 32 := by
  unfold doubleCount
  rw [BitVec.toNat_and]
  split
  · exact Nat.lt_of_le_of_lt Nat.and_le_right (by decide)
  · exact Nat.lt_of_le_of_lt Nat.and_le_right (by decide)

theorem doubleHostShifts_fit (left : Bool) (count : ShiftCount) (w32 : Bool) (s : Cpu) :
    ∀ p ∈ doubleHostShifts left (doubleWidth w32 s) (doubleCount count s), p.2 < p.1 := by
  have hlt := doubleCount_lt count s
  unfold doubleHostShifts
  split
  · simp
  · rename_i h0
    by_cases h64 : s.osize = .w64
    · rw [if_pos h64] at hlt
      rw [doubleWidth, if_pos h64]
      cases left <;> simp <;> omega
    · rw [if_neg h64] at hlt
      rw [doubleWidth, if_neg h64]
      cases w32 <;> cases left <;> simp <;> omega

/-! ### Checked runs -/

section Checked

variable {n : Nat}

/-- A left shift the host carries out, of a type `n` bits wide. -/
def hostShl (v : BitVec n) (k : Nat) : Option (BitVec n) := if k < n then some (v <<< k) else none

def hostShr (v : BitVec n) (k : Nat) : Option (BitVec n) := if k < n then some (v >>> k) else none

def hostSar (v : BitVec n) (k : Nat) : Option (BitVec n) :=
  if k < n then some (v.sshiftRight k) else none

theorem hostShl_of {v : BitVec n} {k : Nat} (h : k < n) : hostShl v k = some (v <<< k) := if_pos h

theorem hostShr_of {v : BitVec n} {k : Nat} (h : k < n) : hostShr v k = some (v >>> k) := if_pos h

theorem hostSar_of {v : BitVec n} {k : Nat} (h : k < n) : hostSar v k = some (v.sshiftRight k) :=
  if_pos h

end Checked

def rclStepChecked (p : U64 × Bool) : Option (U64 × Bool) := do
  let out ← hostShr p.1 63
  let v ← hostShl p.1 1
  pure (v ||| bit p.2, out != 0)

def rcrStepChecked (p : U64 × Bool) : Option (U64 × Bool) := do
  let v ← hostShr p.1 1
  let c ← hostShl (bit p.2 : U64) 63
  pure (v ||| c, test p.1 1)

def rclRcr64Checked (v : U64) (carry : Bool) (k : Nat) (left : Bool) : Option (U64 × Bool) :=
  (· >>= if left then rclStepChecked else rcrStepChecked)^[k] (some (v, carry))

/-- The two shifts of a rotate by `k`, where there is anything to rotate. -/
def ringChecked (left : Bool) (v full : U64) (k N : Nat) : Option U64 :=
  if k = 0 then some v
  else if left then do
    let hi ← hostShl v k
    let lo ← hostShr v (N - k)
    pure ((hi ||| lo) &&& full)
  else do
    let lo ← hostShr v k
    let hi ← hostShl v (N - k)
    pure ((lo ||| hi) &&& full)

/-- Rotate an operand through the carry, and the new carry. -/
def carriedChecked (left : Bool) (v mask : U64) (carry : Bool) (n : Nat) (w : Width) :
    Option (U64 × Bool) :=
  if w = .w64 then rclRcr64Checked v carry (n % (w.bits + 1)) left
  else do
    let high ← hostShl (bit carry : U64) w.bits
    let full ← hostShl (1 : U64) (w.bits + 1)
    let rot ← ringChecked left (v ||| high) (full - 1) (n % (w.bits + 1)) (w.bits + 1)
    let out ← hostShr rot w.bits
    pure (rot &&& mask, test out 1)

/-- The mask of a width, made by a shift but at 64 bits. -/
def maskChecked (w : Width) : Option U64 :=
  if w = .w64 then some 0xFFFFFFFFFFFFFFFF else (hostShl (1 : U64) w.bits).map (· - 1)

/-- A shift made only where a condition holds. -/
def shiftWhen (c : Prop) [Decidable c] (o : Option U64) : Option U64 := if c then o else some 0

/-- `shift_width` on a host that stops at a shift by as much as the type is wide. -/
def shiftWidthChecked (op : ShiftOp) (v : U64) (count : U32) (w : Width) (fl : U32) :
    Option (U64 × U32) :=
  let n := (count &&& if w = .w64 then 0x3F else 0x1F).toNat
  if n = 0 then some (v, fl)
  else do
    let width := w.bits
    let mask ← maskChecked w
    let msb ← hostShl (1 : U64) (width - 1)
    let v := v &&& mask
    match op with
    | .shl => do
      let wide ← hostShl v (min n 63)
      let r := wide &&& mask
      let out ← shiftWhen (n ≤ width) (hostShr v (width - min n width))
      let cf := test out 1
      pure (r, setFlag Flags.of (n == 1 && test r msb != cf)
        (setLogicFlagsWidth r w (setFlag Flags.cf cf fl)))
    | .shr => do
      let r ← shiftWhen (¬ n ≥ width) (hostShr v n)
      let out ← shiftWhen (n ≤ width) (hostShr v (n - 1))
      let cf := test out 1
      pure (r, setFlag Flags.of (n == 1 && test v msb)
        (setLogicFlagsWidth r w (setFlag Flags.cf cf fl)))
    | .sar => do
      let sv := sext v w
      let wide ← hostSar sv (min n (width - 1))
      let r := wide &&& mask
      let out ← hostSar sv (min (n - 1) (width - 1))
      let cf := test out 1
      pure (r, setFlag Flags.of false (setLogicFlagsWidth r w (setFlag Flags.cf cf fl)))
    | .rol => do
      let r ← ringChecked true v mask (n % width) width
      let cf := test r 1
      pure (r, setRotateOverflow n (test r msb) cf (setFlag Flags.cf cf fl))
    | .ror => do
      let r ← ringChecked false v mask (n % width) width
      let cf := test r msb
      let second ← hostShr r (width - 2)
      pure (r, setRotateOverflow n cf (test second 1) (setFlag Flags.cf cf fl))
    | .rcl => do
      let (r, cf) ← carriedChecked true v mask (test fl Flags.cf) n w
      pure (r, setRotateOverflow n (test r msb) cf (setFlag Flags.cf cf fl))
    | .rcr => do
      let (r, cf) ← carriedChecked false v mask (test fl Flags.cf) n w
      let second ← hostShr r (width - 2)
      pure (r, setRotateOverflow n (test r msb) (test second 1) (setFlag Flags.cf cf fl))

theorem iterate_checked {α : Type} {f : α → Option α} {g : α → α} (h : ∀ a, f a = some (g a)) :
    ∀ (k : Nat) (a : α), (· >>= f)^[k] (some a) = some (g^[k] a)
  | 0, _ => rfl
  | k + 1, a => by
    rw [Function.iterate_succ_apply, Function.iterate_succ_apply]
    show (· >>= f)^[k] (f a) = _
    rw [h a, iterate_checked h k]

theorem rclRcr64Checked_eq (v : U64) (carry : Bool) (k : Nat) (left : Bool) :
    rclRcr64Checked v carry k left = some (rclRcr64 v carry k left) := by
  have hout (x : U64) : (x >>> 63 != 0) = x.msb := by
    have hzero : x >>> 63 = 0 ↔ ¬ 2 ^ 63 ≤ x.toNat := by
      rw [← BitVec.toNat_inj, BitVec.toNat_ushiftRight, Nat.shiftRight_eq_div_pow]
      exact (Nat.div_eq_zero_iff_lt (by decide)).trans Nat.not_le.symm
    rw [BitVec.msb_eq_decide]
    by_cases h : 2 ^ 63 ≤ x.toNat
    · rw [decide_eq_true h]
      exact bne_iff_ne.mpr fun h0 => hzero.mp h0 h
    · rw [decide_eq_false h, hzero.mpr h]
      rfl
  unfold rclRcr64Checked rclRcr64
  refine iterate_checked (fun p => ?_) k (v, carry)
  cases left with
  | true => exact congrArg (fun c => some (p.1 <<< 1 ||| bit p.2, c)) (hout p.1)
  | false => rfl

theorem ringChecked_eq (left : Bool) (v full : U64) {k N : Nat}
    (h : ∀ p ∈ ringShifts k N, p.2 < p.1) : ringChecked left v full k N =
      some (if k = 0 then v
        else if left then (v <<< k ||| v >>> (N - k)) &&& full
        else (v >>> k ||| v <<< (N - k)) &&& full) := by
  unfold ringChecked
  unfold ringShifts at h
  by_cases h0 : k = 0
  · rw [if_pos h0, if_pos h0]
  · rw [if_neg h0] at h
    have hk : k < 64 := h (64, k) (by simp)
    have hN : N - k < 64 := h (64, N - k) (by simp)
    rw [if_neg h0, if_neg h0, hostShl_of hk, hostShr_of hN, hostShr_of hk, hostShl_of hN]
    cases left <;> rfl

/-- A rotate through the carry makes the shifts listed for it. -/
theorem carriedChecked_eq (left : Bool) (v mask : U64) (carry : Bool) (n : Nat) (w : Width)
    (h : ∀ p ∈ (if w = .w64 then [(64, 63), (64, 1)]
      else [(64, w.bits), (64, w.bits + 1), (64, w.bits)] ++
        ringShifts (n % (w.bits + 1)) (w.bits + 1) : List HostShift), p.2 < p.1) :
    carriedChecked left v mask carry n w =
      some (if w = .w64 then rclRcr64 v carry (n % (w.bits + 1)) left
        else
          let wide := v ||| bit carry <<< w.bits
          let full : U64 := (1 : U64) <<< (w.bits + 1) - 1
          let k := n % (w.bits + 1)
          let rot := if k = 0 then wide
            else if left then (wide <<< k ||| wide >>> (w.bits + 1 - k)) &&& full
            else (wide >>> k ||| wide <<< (w.bits + 1 - k)) &&& full
          (rot &&& mask, test (rot >>> w.bits) 1)) := by
  unfold carriedChecked
  by_cases hw : w = .w64
  · rw [if_pos hw, if_pos hw, rclRcr64Checked_eq]
  · rw [if_neg hw, List.forall_mem_append] at h
    have hwidth : w.bits < 64 := h.1 (64, w.bits) (by simp)
    have hnext : w.bits + 1 < 64 := h.1 (64, w.bits + 1) (by simp)
    rw [if_neg hw, if_neg hw, hostShl_of hwidth, hostShl_of hnext]
    dsimp only [Option.bind_eq_bind, Option.bind_some]
    rw [ringChecked_eq left _ _ h.2, Option.bind_some, hostShr_of hwidth]
    rfl

theorem shiftWhen_of {c : Prop} [Decidable c] {v : U64} {k : Nat}
    (h : ∀ p ∈ (if c then [(64, k)] else [] : List HostShift), p.2 < p.1) :
    shiftWhen c (hostShr v k) = some (if c then v >>> k else 0) := by
  unfold shiftWhen
  by_cases hc : c
  · rw [if_pos hc] at h
    rw [if_pos hc, if_pos hc, hostShr_of (h _ (List.mem_singleton_self _))]
  · rw [if_neg hc, if_neg hc]

/-- A bit shifted out only where a condition holds is clear elsewhere. -/
theorem test_shiftWhen (c : Prop) [Decidable c] (v : U64) :
    test (if c then v else 0) 1 = (decide c && test v 1) := by
  by_cases hc : c
  · rw [if_pos hc, decide_eq_true hc, Bool.true_and]
  · rw [if_neg hc, decide_eq_false hc]
    rfl

theorem shiftWidthChecked_of_fit (op : ShiftOp) (v : U64) (count : U32) (w : Width) (fl : U32)
    (h : ∀ p ∈ hostShifts op w (count &&& if w = .w64 then 0x3F else 0x1F).toNat, p.2 < p.1) :
    shiftWidthChecked op v count w fl = some (shiftWidth op v count w fl) := by
  unfold shiftWidthChecked shiftWidth
  generalize (count &&& if w = .w64 then 0x3F else 0x1F).toNat = n at h ⊢
  dsimp only
  by_cases h0 : n = 0
  · rw [if_pos h0, if_pos h0]
  unfold hostShifts at h
  rw [if_neg h0] at h
  dsimp only at h
  rw [List.forall_mem_append, List.forall_mem_cons] at h
  obtain ⟨-, hmsb, h⟩ := h
  have hmask : maskChecked w = some w.mask := by cases w <;> rfl
  have hsign : hostShl (1 : U64) (w.bits - 1) = some (signBit w) := by cases w <;> rfl
  rw [if_neg h0, if_neg h0, hmask, hsign]
  simp only [Option.bind_eq_bind, Option.bind_some]
  cases op with
  | shl =>
    dsimp only at h ⊢
    rw [List.forall_mem_cons] at h
    rw [hostShl_of h.1, shiftWhen_of h.2]
    simp only [Option.bind_some, test_shiftWhen]
    rfl
  | shr =>
    dsimp only at h ⊢
    rw [List.forall_mem_append] at h
    rw [← ite_not] at h
    rw [shiftWhen_of h.1, shiftWhen_of h.2]
    simp only [Option.bind_some, test_shiftWhen, ite_not]
    rfl
  | sar =>
    dsimp only at h ⊢
    rw [List.forall_mem_cons] at h
    rw [hostSar_of h.1, hostSar_of (h.2 _ (List.mem_singleton_self _))]
    rfl
  | rol =>
    dsimp only at h ⊢
    rw [ringChecked_eq true _ _ h]
    rfl
  | ror =>
    dsimp only at h ⊢
    rw [List.forall_mem_cons] at h
    rw [ringChecked_eq false _ _ h.2, Option.bind_some, hostShr_of h.1]
    rfl
  | rcl =>
    dsimp only at h ⊢
    rw [carriedChecked_eq true _ _ _ _ _ h]
    rfl
  | rcr =>
    dsimp only at h ⊢
    rw [List.forall_mem_cons] at h
    rw [carriedChecked_eq false _ _ _ _ _ h.2, Option.bind_some, hostShr_of h.1]
    rfl

/-- SHLD and SHRD on such a host: the result, and the flags. -/
def doubleChecked (left : Bool) (w : Width) (d src : U64) (n : Nat) (fl : U32) :
    Option (U64 × U32) :=
  match left, w with
  | true, .w64 => do
    let hi ← hostShl d n
    let lo ← hostShr src (64 - n)
    let out ← hostShr d (64 - n)
    let sign ← hostShr (d ^^^ (hi ||| lo)) 63
    pure (hi ||| lo, setShiftFlags64 (hi ||| lo) (out.getLsbD 0) (sign.getLsbD 0) fl)
  | true, .w32 => do
    let hi ← hostShl (u32 d) n
    let lo ← hostShr (u32 src) (32 - n)
    let out ← hostShr (u32 d) (32 - n)
    let sign ← hostShr (u32 d ^^^ (hi ||| lo)) 31
    pure (u64 (hi ||| lo), setShiftFlags32 (hi ||| lo) (out.getLsbD 0) (sign.getLsbD 0) fl)
  | true, _ => do
    let high ← hostShl (u32 (u16 d)) 16
    let wide ← hostShl (high ||| u32 (u16 src)) n
    let res ← hostShr wide 16
    let out ← hostShr (u16 d) (16 - min n 16)
    let sign ← hostShr (u16 d ^^^ u16 res) 15
    pure (u64 (u16 res), setShiftFlags16 (u16 res) (out.getLsbD 0) (sign.getLsbD 0) fl)
  | false, .w64 => do
    let lo ← hostShr d n
    let hi ← hostShl src (64 - n)
    let out ← hostShr d (n - 1)
    let sign ← hostShr (d ^^^ (lo ||| hi)) 63
    pure (lo ||| hi, setShiftFlags64 (lo ||| hi) (out.getLsbD 0) (sign.getLsbD 0) fl)
  | false, .w32 => do
    let lo ← hostShr (u32 d) n
    let hi ← hostShl (u32 src) (32 - n)
    let out ← hostShr (u32 d) (n - 1)
    let sign ← hostShr (u32 d ^^^ (lo ||| hi)) 31
    pure (u64 (lo ||| hi), setShiftFlags32 (lo ||| hi) (out.getLsbD 0) (sign.getLsbD 0) fl)
  | false, _ => do
    let high ← hostShl (u32 (u16 src)) 16
    let res ← hostShr (high ||| u32 (u16 d)) n
    let out ← hostShr (u16 d) (min (n - 1) 15)
    let sign ← hostShr (u16 d ^^^ u16 res) 15
    pure (u64 (u16 res), setShiftFlags16 (u16 res) (out.getLsbD 0) (sign.getLsbD 0) fl)

/-- The two words the 16-bit forms shift as one. -/
theorem append_eq_or (x y : U16) : u32 x <<< 16 ||| u32 y = (x ++ y : U32) := by
  rw [← BitVec.setWidth_append_eq_shiftLeft_setWidth_or]
  exact BitVec.setWidth_eq _

/-- The sign of a difference, shifted down to the lowest bit. -/
theorem sign_out {n : Nat} (x : BitVec (n + 1)) : (x >>> n).getLsbD 0 = x.msb := by
  rw [BitVec.getLsbD_ushiftRight, BitVec.msb_eq_getLsbD_last]
  rfl

theorem doubleChecked_of_fit {left : Bool} {w : Width} (d src : U64) {n : Nat} (fl : U32)
    (h0 : n ≠ 0) (h : ∀ p ∈ doubleHostShifts left w n, p.2 < p.1) :
    doubleChecked left w d src n fl = some ((doubleW left w d src n).1,
      doubleShiftFlags w d (doubleW left w d src n) fl) := by
  have hsign64 (x : U64) : (x >>> 63).getLsbD 0 = x.msb := sign_out x
  have hsign32 (x : U32) : (x >>> 31).getLsbD 0 = x.msb := sign_out x
  have hsign16 (x : U16) : (x >>> 15).getLsbD 0 = x.msb := sign_out x
  have h32 (x : U32) (cf : Bool) : doubleShiftFlags .w32 d (u64 x, cf) fl =
      setShiftFlags32 x cf (u32 d ^^^ x).msb fl := by
    have hxor : u32 (d ^^^ u64 x) = u32 d ^^^ x :=
      BitVec.setWidth_xor.trans (congrArg (u32 d ^^^ ·) (u32_u64 x))
    rw [doubleShiftFlags, u32_u64, hxor]
  have h16 {w' : Width} (hw : w' ≠ .w64 ∧ w' ≠ .w32) (x : U16) (cf : Bool) :
      doubleShiftFlags w' d (u64 x, cf) fl = setShiftFlags16 x cf (u16 d ^^^ x).msb fl := by
    have hxor : u16 (d ^^^ u64 x) = u16 d ^^^ x :=
      BitVec.setWidth_xor.trans (congrArg (u16 d ^^^ ·) (u16_u64 x))
    rw [doubleShiftFlags, u16_u64, hxor]
    · exact hw.1
    · exact hw.2
  unfold doubleHostShifts at h
  rw [if_neg h0] at h
  cases left with
  | true =>
    cases w with
    | w64 =>
      simp only [List.forall_mem_cons] at h
      obtain ⟨h1, h2, -, h4, -⟩ := h
      simp only [doubleChecked, hostShl_of h1, hostShr_of h2, hostShr_of h4, Option.bind_eq_bind,
        Option.bind_some, hsign64]
      rfl
    | w32 =>
      simp only [List.forall_mem_cons] at h
      obtain ⟨h1, h2, -, h4, -⟩ := h
      simp only [doubleChecked, hostShl_of h1, hostShr_of h2, hostShr_of h4, Option.bind_eq_bind,
        Option.bind_some, hsign32]
      exact congrArg (fun fl' => some (_, fl')) (h32 _ _).symm
    | w8 | w16 =>
      simp only [List.forall_mem_cons] at h
      obtain ⟨h1, h2, h3, h4, h5, -⟩ := h
      simp only [doubleChecked, hostShl_of h1, hostShl_of h2, hostShr_of h3, hostShr_of h4,
        hostShr_of h5, Option.bind_eq_bind, Option.bind_some, hsign16, append_eq_or]
      exact congrArg (fun fl' => some (_, fl')) (h16 (by decide) _ _).symm
  | false =>
    cases w with
    | w64 =>
      simp only [List.forall_mem_cons] at h
      obtain ⟨h1, h2, h3, h4, -⟩ := h
      simp only [doubleChecked, hostShr_of h1, hostShl_of h2, hostShr_of h3, hostShr_of h4,
        Option.bind_eq_bind, Option.bind_some, hsign64]
      rfl
    | w32 =>
      simp only [List.forall_mem_cons] at h
      obtain ⟨h1, h2, h3, h4, -⟩ := h
      simp only [doubleChecked, hostShr_of h1, hostShl_of h2, hostShr_of h3, hostShr_of h4,
        Option.bind_eq_bind, Option.bind_some, hsign32]
      exact congrArg (fun fl' => some (_, fl')) (h32 _ _).symm
    | w8 | w16 =>
      simp only [List.forall_mem_cons] at h
      obtain ⟨h1, h2, h3, h4, -⟩ := h
      simp only [doubleChecked, hostShl_of h1, hostShr_of h2, hostShr_of h3, hostShr_of h4,
        Option.bind_eq_bind, Option.bind_some, hsign16, append_eq_or]
      exact congrArg (fun fl' => some (_, fl')) (h16 (by decide) _ _).symm

/-- Every shift and rotate is its one-bit step, repeated; SHLD and SHRD are, up to a count of the
width; and no host shift is by as much as its type is wide. -/
theorem shifts_exact :
    (∀ op w (v : BitVec w.bits) count fl, ShiftExact op w v count fl) ∧
      (∀ left m reg count w32 s, doubleCount count s ≤ (doubleWidth w32 s).bits →
        DoubleShiftRun left m reg count w32 s) ∧
      (∀ op w count, ∀ p ∈ hostShifts op w (maskedCount w count), p.2 < p.1) ∧
      (∀ left count w32 s,
        ∀ p ∈ doubleHostShifts left (doubleWidth w32 s) (doubleCount count s), p.2 < p.1) ∧
      (∀ left m reg count w32 s, s.pendingException = none → doubleCount count s ≠ 0 →
        doubleCount count s ≤ (doubleWidth w32 s).bits →
        DoubleShiftLeaves left m (doubleWidth w32 s)
          ((s.reg64 reg).setWidth (doubleWidth w32 s).bits) (doubleCount count s) s
          (execute (doubleInst left m reg count w32) s).2) ∧
      (∀ op v (count : U8) w fl,
        shiftWidthChecked op v (u32 count) w fl = some (shiftWidth op v (u32 count) w fl)) ∧
      ∀ left count w32 s d src fl, doubleCount count s ≠ 0 →
        doubleChecked left (doubleWidth w32 s) d src (doubleCount count s) fl =
          some ((doubleW left (doubleWidth w32 s) d src (doubleCount count s)).1,
            doubleShiftFlags (doubleWidth w32 s) d
              (doubleW left (doubleWidth w32 s) d src (doubleCount count s)) fl) := by
  refine ⟨shift_exact, doubleShift_run, hostShifts_fit, doubleHostShifts_fit,
    fun left m reg count w32 s hs hk h => doubleShift_leaves left m reg count w32 hs hk h,
    fun op v count w fl => ?_, fun left count w32 s d src fl hk => ?_⟩
  · refine shiftWidthChecked_of_fit op v (u32 count) w fl ?_
    rw [masked_toNat]
    exact hostShifts_fit op w count
  · exact doubleChecked_of_fit d src fl hk (doubleHostShifts_fit left count w32 s)

/-- SHLD of a register by 4 with the operand size at 16 bits. -/
theorem shifts_exact_shld :
    DoubleShiftRun true inBx 6 (.imm 4) false (dividing 0 0 0x1234) ∧
      DoubleShiftLeaves true inBx .w16 ((dividing 0 0 0x1234).reg64 6 |>.setWidth 16) 4
        (dividing 0 0 0x1234)
        (execute (doubleInst true inBx 6 (.imm 4) false) (dividing 0 0 0x1234)).2 :=
  ⟨shifts_exact.2.1 true inBx 6 (.imm 4) false (dividing 0 0 0x1234) (by decide +kernel),
    shifts_exact.2.2.2.2.1 true inBx 6 (.imm 4) false (dividing 0 0 0x1234) rfl (by decide +kernel)
      (by decide +kernel)⟩

end X86Emu
