import X86Emu.InstLength
import X86Emu.Lib.FuelLoop

/-!
# The prefix loop

Decoding consumes every prefix byte in front of the opcode, however many there are. The loop ends at
the first byte that is no prefix, and only there: a byte whose fetch faults is one, a segment filled
with prefixes has none.
-/
namespace X86Emu

open StateRules FuelLoop

/-! ## Fetching does not see the prefixes -/

namespace Cpu

variable {s : Cpu} {x : Prefixes}

/-- The state with other prefixes. -/
def withPrefixes (x : Prefixes) (s : Cpu) : Cpu :=
  s.withCursor x s.ip s.rip s.physIpCache s.physIpLinear s.physIpValid

theorem withPrefixes_twice (x y : Prefixes) :
    (s.withPrefixes x).withPrefixes y = s.withPrefixes y := rfl

theorem withPrefixes_advance (x : Prefixes) (s : Cpu) (n : U64) :
    ((s.withPrefixes x).advanceIp n).advanceCache n =
      ((s.advanceIp n).advanceCache n).withPrefixes x := by
  rw [consume_eq, consume_eq]
  rfl

/-- `t` is `s` with other prefixes. -/
def Prefixed (s t : Cpu) : Prop := ∃ x, t = s.withPrefixes x

theorem Prefixed.of_eq {t : Cpu} (h : t = s.withPrefixes t.prefixState) : s.Prefixed t := ⟨_, h⟩

theorem Prefixed.ite {c : Prop} [Decidable c] {t u : Cpu} (ht : s.Prefixed t) (hu : s.Prefixed u) :
    s.Prefixed (if c then t else u) := by
  split
  · exact ht
  · exact hu

theorem prefixed_startDecode (s : Cpu) : s.Prefixed s.startDecode := by
  unfold startDecode
  dsimp only
  split <;> exact .of_eq rfl

theorem prefixed_setRex (s : Cpu) (b : U8) : s.Prefixed (s.setRex b) := .of_eq rfl

theorem prefixed_legacyPrefix (s : Cpu) (long64 : Bool) (b : U8) :
    s.Prefixed (s.legacyPrefix long64 b) := by
  have hseg (r : SegReg) : s.Prefixed (s.clearRex.overrideSeg long64 r) :=
    .ite (.of_eq rfl) (.of_eq rfl)
  refine .ite (.of_eq rfl) (.ite (.of_eq rfl) (.ite (.ite (.of_eq rfl) (.of_eq rfl)) ?_))
  refine .ite (hseg .cs) (.ite (hseg .ss) (.ite (hseg .ds) (.ite (hseg .es) ?_)))
  exact .ite (.of_eq rfl) (.ite (.of_eq rfl) (.of_eq rfl))

end Cpu

theorem commutes_ensurePhysIp (x : Cpu.Prefixes) : Commutes (Cpu.withPrefixes x) ensurePhysIp := by
  intro s
  by_cases h : s.physIpValid = true
  · rw [ensurePhysIp_valid h, ensurePhysIp_valid (s := s.withPrefixes x) h]
  · have hfetch : applyPagingFetch s.ipLinear (s.withPrefixes x) =
        ((applyPagingFetch s.ipLinear s).1,
          (applyPagingFetch s.ipLinear s).2.withCursor x s.ip s.rip s.physIpCache s.physIpLinear
            s.physIpValid) := Cpu.commutes_fetch _ _ _ _ _ _ _ s
    obtain ⟨tlb, mem, e, cr2, log, hchange⟩ := Cpu.fetch_changes s.ipLinear s
    rw [ensurePhysIp_invalid h, ensurePhysIp_invalid (s := s.withPrefixes x) h]
    change ((), (applyPagingFetch s.ipLinear (s.withPrefixes x)).2.withCache
      (applyPagingFetch s.ipLinear (s.withPrefixes x)).1 s.ipLinear true) = _
    rw [hfetch, hchange]
    rfl

theorem commutes_peekU8 (x : Cpu.Prefixes) : Commutes (Cpu.withPrefixes x) peekU8 := by
  intro s
  rw [peekU8_eq, peekU8_eq, commutes_ensurePhysIp x s]
  rfl

theorem commutes_fetchU8 (x : Cpu.Prefixes) : Commutes (Cpu.withPrefixes x) fetchU8 := by
  intro s
  rw [fetchU8_eq, fetchU8_eq, commutes_ensurePhysIp x s, Cpu.withPrefixes_advance]
  rfl

/-! ## The stream of instruction bytes -/

/-- The state with `k` bytes of the stream consumed. -/
def skip : Nat → Cpu → Cpu
  | 0, s => s
  | k + 1, s => skip k (fetchU8 s).2

/-- Byte `k` of the stream from the instruction pointer on. -/
def streamByte (s : Cpu) (k : Nat) : U8 := (peekU8 (skip k s)).1

theorem skip_succ : ∀ (k : Nat) (s : Cpu), skip (k + 1) s = (fetchU8 (skip k s)).2
  | 0, _ => rfl
  | k + 1, s => skip_succ k (fetchU8 s).2

theorem advanced_skip {s : Cpu}
    (hmask : s.ripMask = if s.long64 then 0xFFFFFFFFFFFFFFFF else 0xFFFFFFFF) :
    ∀ k, Advanced k s (skip k s)
  | 0 => .refl s
  | k + 1 => by
    rw [skip_succ]
    exact advanced_fetchU8 (advanced_skip hmask k) hmask

/-- Peeking first changes nothing. -/
theorem fetchU8_peekU8 (s : Cpu) : fetchU8 (peekU8 s).2 = fetchU8 s := by
  rw [fetchU8_eq, fetchU8_eq, peekU8_eq, ensurePhysIp_valid (valid_ensurePhysIp s)]

/-! ## One turn -/

/-- A byte the prefix loop consumes. -/
def IsPrefix (long64 : Bool) (b : U8) : Prop :=
  (long64 && decide (0x40 ≤ b ∧ b ≤ 0x4F)) = true ∨ b ∈ legacyPrefixes

instance (long64 : Bool) (b : U8) : Decidable (IsPrefix long64 b) :=
  inferInstanceAs (Decidable (_ ∨ _))

variable {s : Cpu} {long64 : Bool}

/-- A turn that finds a prefix consumes that one byte. -/
theorem prefixTurn_goes (rep : Rep) (h : IsPrefix long64 (peekU8 s).1) :
    ∃ rep' x, prefixTurn long64 rep s = (some rep', (fetchU8 s).2.withPrefixes x) := by
  unfold prefixTurn
  rw [bind_run, ite_run]
  by_cases hrex : (long64 && decide (0x40 ≤ (peekU8 s).1 ∧ (peekU8 s).1 ≤ 0x4F)) = true
  · rw [if_pos hrex, bind_run, bind_run, modify_run, pure_run, fetchU8_peekU8]
    obtain ⟨x, hx⟩ := (fetchU8 s).2.prefixed_setRex (fetchU8 s).1
    exact ⟨_, x, Prod.ext rfl hx⟩
  · obtain ⟨x, hx⟩ := (peekU8 s).2.prefixed_legacyPrefix long64 (peekU8 s).1
    rw [if_neg hrex, ite_run, if_pos (h.resolve_left hrex), bind_run, modify_run, bind_run,
      pure_run, hx, commutes_fetchU8, fetchU8_peekU8]
    exact ⟨_, x, rfl⟩

/-- A turn that finds none stops, and has consumed nothing. -/
theorem prefixTurn_stops (rep : Rep) (h : ¬ IsPrefix long64 (peekU8 s).1) :
    prefixTurn long64 rep s = (none, (peekU8 s).2) := by
  rw [IsPrefix, not_or] at h
  unfold prefixTurn
  rw [bind_run, ite_run, if_neg h.1, ite_run, if_neg h.2, pure_run]

/-! ## The loop -/

theorem prefixLoop_eq (long64 : Bool) : ∀ (n : Nat) (rep : Rep),
    prefixLoop long64 n rep = loopFor (prefixTurn long64) n rep
  | 0, _ => rfl
  | n + 1, rep => by
    funext s
    have ih := prefixLoop_eq long64 n
    rcases h : prefixTurn long64 rep s with ⟨rep' | rep', t⟩
    · rw [loopFor_none h, prefixLoop, bind_run, h]
      rfl
    · rw [loopFor_some h, prefixLoop, bind_run, h, ← ih]

/-- Turn `k` has consumed `k` bytes, and goes on when the next is a prefix. -/
theorem turns_prefixTurn (s : Cpu) (long64 : Bool) :
    Turns (prefixTurn long64) (fun k _ t => (skip k s).Prefixed t)
      (fun k => IsPrefix long64 (streamByte s k)) where
  goes := by
    rintro k rep _ ⟨x, rfl⟩ hP
    have hpeek : (peekU8 ((skip k s).withPrefixes x)).1 = streamByte s k := by
      rw [commutes_peekU8]
      rfl
    obtain ⟨rep', y, hturn⟩ := prefixTurn_goes rep (hpeek.symm ▸ hP)
    refine ⟨rep', _, hturn, y, ?_⟩
    rw [commutes_fetchU8, Cpu.withPrefixes_twice, skip_succ]
  stops := by
    rintro k rep _ ⟨x, rfl⟩ hP
    refine ⟨_, prefixTurn_stops rep ?_⟩
    rw [commutes_peekU8]
    exact hP

/-- The prefix loop of a decode ends within `n` turns. -/
def DecodeEnds (n : Nat) (s : Cpu) : Prop :=
  EndsWithin (prefixTurn s.long64) n .none s.startDecode

theorem decodeEnds_iff (s : Cpu) (n : Nat) :
    DecodeEnds n s ↔ ∃ k < n, ¬ IsPrefix s.long64 (streamByte s k) := by
  have h := (turns_prefixTurn s s.long64).endsWithin_iff (n := n) (k := 0) (a := .none)
    s.prefixed_startDecode
  simp only [Nat.zero_add] at h
  exact h

/-- What a decode that comes to a byte that is no prefix hands the opcode decoder. -/
theorem decode_eq (s : Cpu) {k : Nat}
    (hP : ∀ i < k, IsPrefix s.long64 (streamByte s i))
    (hstop : ¬ IsPrefix s.long64 (streamByte s k)) :
    ∃ rep x, ∀ n > k, decode decodeOp n s =
      (decodeOp (streamByte s k) rep).run ((skip (k + 1) s).withPrefixes x) := by
  have hlast := (turns_prefixTurn s s.long64).last_turn (k := 0) (n := k) (a := .none)
    s.prefixed_startDecode
  simp only [Nat.zero_add] at hlast
  obtain ⟨rep, t, u, ⟨x, rfl⟩, hturn, hloop⟩ := hlast hP hstop
  -- the last turn only peeked
  have hpeek : (peekU8 ((skip k s).withPrefixes x)).1 = streamByte s k := by
    rw [commutes_peekU8]
    rfl
  have hu : u = (peekU8 (skip k s)).2.withPrefixes x := by
    have hstops := prefixTurn_stops rep (hpeek.symm ▸ hstop)
    rw [hturn, commutes_peekU8] at hstops
    exact congrArg Prod.snd hstops
  have hends : EndsWithin (prefixTurn s.long64) (k + 1) .none s.startDecode :=
    (decodeEnds_iff s (k + 1)).mpr ⟨k, k.lt_succ_self, hstop⟩
  obtain ⟨y, hy⟩ : u.Prefixed (if u.rexW then { u with opsize := true } else u) :=
    .ite (.of_eq rfl) (.of_eq rfl)
  refine ⟨rep, y, fun n hn => ?_⟩
  have hrun : prefixLoop s.long64 n .none s.startDecode = (rep, u) := by
    rw [prefixLoop_eq, loopFor_stable hends hn, hloop]
  have hdecode : decode decodeOp n s =
      (decodeOp (fetchU8 (if u.rexW then { u with opsize := true } else u)).1 rep).run
        (fetchU8 (if u.rexW then { u with opsize := true } else u)).2 := by
    unfold decode
    rw [bind_run, get_run, bind_run, modify_run, bind_run, hrun]
    rfl
  rw [hdecode, hy, hu, Cpu.withPrefixes_twice, commutes_fetchU8, fetchU8_peekU8, skip_succ]
  rfl

/-! ## Faults -/

/-- The fetch of the next byte faults. -/
def FetchFaults (s : Cpu) : Prop :=
  s.physIpValid = false ∧ (s.fetchRefusal s.ipLinear).isSome = true

/-- A byte whose fetch faults reads as FFh, which is no prefix. -/
theorem peekU8_faults (h : FetchFaults s) : (peekU8 s).1 = 0xFF := by
  obtain ⟨hv, hsome⟩ := h
  obtain ⟨f, hf⟩ := Option.isSome_iff_exists.mp hsome
  rw [peekU8_eq, ensurePhysIp_invalid (by rw [hv]; exact Bool.false_ne_true), Cpu.fetch_refused hf]
  exact Cpu.readU8Raw_above _ (Nat.le_refl _)

theorem not_isPrefix_openBus (long64 : Bool) : ¬ IsPrefix long64 0xFF := by
  cases long64 <;> decide

theorem fetchU8_quiet (h : ¬ FetchFaults s) :
    (fetchU8 s).2.pendingException = s.pendingException ∧ (fetchU8 s).2.cr2 = s.cr2 := by
  rw [fetchU8_eq, Cpu.consume_eq]
  show (ensurePhysIp s).2.pendingException = _ ∧ (ensurePhysIp s).2.cr2 = _
  by_cases hv : s.physIpValid = true
  · rw [ensurePhysIp_valid hv]
    exact ⟨rfl, rfl⟩
  · rw [ensurePhysIp_invalid hv]
    rw [FetchFaults, not_and, Option.isSome_iff_ne_none, not_not] at h
    exact Cpu.granted_quiet (h (Bool.eq_false_iff.mpr hv))

/-- Consuming prefixes raises nothing. -/
theorem skip_quiet {k : Nat} (hP : ∀ i < k, IsPrefix long64 (streamByte s i)) :
    (skip k s).pendingException = s.pendingException ∧ (skip k s).cr2 = s.cr2 := by
  induction k with
  | zero => exact ⟨rfl, rfl⟩
  | succ k ih =>
    have hrest := ih fun i hi => hP i (by omega)
    have hno : ¬ FetchFaults (skip k s) := by
      intro hfault
      have hbyte : streamByte s k = 0xFF := peekU8_faults hfault
      exact not_isPrefix_openBus long64 (hbyte ▸ hP k k.lt_succ_self)
    have hquiet := fetchU8_quiet hno
    rw [skip_succ]
    exact ⟨hquiet.1.trans hrest.1, hquiet.2.trans hrest.2⟩

/-! ## Decoding has no length limit -/

/-- Byte `k` of the stream, as long as the cursor keeps to the instruction pointer. -/
theorem streamByte_eq : ∀ (k : Nat) (s : Cpu), s.Tracks (k + 1) →
    streamByte s k = (byteAtIp (nextBytes k s).2).1
  | 0, _, h => (agrees_peekU8 h).value
  | k + 1, s, h => by
    have hfirst := agrees_fetchU8 h
    have hblind (u : Cpu) : (byteAtIp (nextBytes k u.uncached).2).1 =
        (byteAtIp (nextBytes k u).2).1 := by
      rw [commutes_nextBytes k u, commutes_byteAtIp]
    calc streamByte s (k + 1)
        = (byteAtIp (nextBytes k (fetchU8 s).2).2).1 := streamByte_eq k _ hfirst.tracks
      _ = (byteAtIp (nextBytes k (nextByte s).2).2).1 := by
        rw [← hblind, hfirst.state, hblind]

/-- A decode whose stream has `k` prefixes and then a byte that is none. -/
structure DecodedAt (s : Cpu) (k : Nat) : Prop where
  ends : ∀ n, DecodeEnds n s ↔ k < n
  quiet : (skip k s).pendingException = s.pendingException ∧ (skip k s).cr2 = s.cr2
  result : ∃ rep x, ∀ n > k, decode decodeOp n s =
    (decodeOp (streamByte s k) rep).run ((skip (k + 1) s).withPrefixes x)
  opcode : Advanced (k + 1) s (skip (k + 1) s)
  bounded : ∀ n > k, ∃ j ≤ 10, Advanced (k + 1 + j) s (decode decodeOp n s).2

theorem decodedAt (hs : s.Begun) {k : Nat}
    (hP : ∀ i < k, IsPrefix s.long64 (streamByte s i))
    (hstop : ¬ IsPrefix s.long64 (streamByte s k)) : DecodedAt s k := by
  have hresult := decode_eq s hP hstop
  refine ⟨fun n => ?_, skip_quiet hP, hresult, advanced_skip hs.mask _, fun n hn => ?_⟩
  · rw [decodeEnds_iff]
    constructor
    · rintro ⟨i, hi, hno⟩
      exact Nat.lt_of_le_of_lt (Nat.le_of_not_lt fun hlt => hno (hP i hlt)) hi
    · exact fun hk => ⟨k, hk, hstop⟩
  · obtain ⟨rep, x, hrun⟩ := hresult
    have hstart : Advanced (k + 1) s ((skip (k + 1) s).withPrefixes x) := by
      have hadv := advanced_skip hs.mask (k + 1)
      exact ⟨hadv.pe, hadv.mask, hadv.ip, hadv.rip⟩
    rw [hrun n hn]
    exact (consumes_opDecoder _ (within_decodeOp rep _)).moves hs.mask hstart

/-- Decoding ends at the first byte that is no prefix, however far that is; a byte whose fetch
faults is such a byte, and without one the loop never ends. -/
theorem decode_ends_at_opcode (hs : s.Begun) :
    (∀ k, (∀ i < k, IsPrefix s.long64 (streamByte s i)) →
      ¬ IsPrefix s.long64 (streamByte s k) → DecodedAt s k) ∧
    (∀ k, FetchFaults (skip k s) → ¬ IsPrefix s.long64 (streamByte s k)) ∧
    ((∀ k, IsPrefix s.long64 (streamByte s k)) → ∀ n, ¬ DecodeEnds n s) ∧
    (∀ k, s.WithinSegment (k + 1) → streamByte s k = (byteAtIp (nextBytes k s).2).1) := by
  refine ⟨fun k hP hstop => decodedAt hs hP hstop, fun k hfault => ?_, fun hall n => ?_,
    fun k hk => streamByte_eq k s ?_⟩
  · have hbyte : streamByte s k = 0xFF := peekU8_faults hfault
    rw [hbyte]
    exact not_isPrefix_openBus _
  · exact (turns_prefixTurn s s.long64).never_ends (k := 0) s.prefixed_startDecode
      fun i => by simpa using hall i
  · exact ⟨hk.mode, hs.mask, hk.real, fun hv => by rw [hs.cache] at hv; cases hv⟩

/-! ### A segment of prefixes -/

/-- Real mode with no paging, from a page-aligned segment base. -/
structure RealAligned (s : Cpu) : Prop where
  real : s.pe = false
  legacy : s.longMode = false
  paging : test s.cr0 cr0Pg = false
  aligned : s.cs &&& 0xFF = 0

theorem RealAligned.withinSegment (h : RealAligned s) (n : Nat) : s.WithinSegment n := by
  refine ⟨fun _ h64 => ?_, fun _ => .inl h.aligned⟩
  rw [Cpu.long64, h.legacy, Bool.false_and] at h64
  cases h64

theorem RealAligned.byteAtIp (h : RealAligned s) :
    byteAtIp s = (s.mem.readU8Raw ((u64 s.cs <<< 4 + u64 s.ip) &&& 0xFFFFFFFF), s) := by
  have hfetch (l : U64) : applyPagingFetch l s = (l, s) := by
    rw [applyPagingFetch, applyPagingInner, h.legacy, h.paging]
    rfl
  have hlinear : s.ipLinear = (u64 s.cs <<< 4 + u64 s.ip) &&& 0xFFFFFFFF := by
    rw [Cpu.ipLinear, Cpu.long64, h.legacy, h.real]
    rfl
  rw [byteAtIp_eq, hfetch, hlinear]

/-- Reading on in real mode moves IP, and nothing else. -/
theorem RealAligned.nextBytes (h : RealAligned s) : ∀ (k : Nat),
    ∃ ip, (nextBytes k s).2 = s.setIp ip := by
  intro k
  induction k generalizing s with
  | zero => exact ⟨s.ip, rfl⟩
  | succ k ih =>
    have hnext : (nextByte s).2 = s.setIp (s.ip + 1) := by
      rw [nextByte_eq, h.byteAtIp]
      exact if_neg (Bool.eq_false_iff.mp h.real)
    obtain ⟨ip, hip⟩ := ih (s := s.setIp (s.ip + 1)) ⟨h.real, h.legacy, h.paging, h.aligned⟩
    refine ⟨ip, ?_⟩
    show (X86Emu.nextBytes k (nextByte s).2).2 = _
    rw [hnext, hip]
    rfl

/-- A real-mode segment filled with prefixes keeps the loop running on any fuel. -/
theorem filled_never_ends (hs : s.Begun) (h : RealAligned s)
    (hfill : ∀ ip : U16,
      IsPrefix s.long64 (s.mem.readU8Raw ((u64 s.cs <<< 4 + u64 ip) &&& 0xFFFFFFFF))) (n : Nat) :
    ¬ DecodeEnds n s := by
  rw [decodeEnds_iff]
  rintro ⟨k, -, hno⟩
  have hw := h.withinSegment (k + 1)
  have htracks : s.Tracks (k + 1) :=
    ⟨hw.mode, hs.mask, hw.real, fun hv => by rw [hs.cache] at hv; cases hv⟩
  obtain ⟨ip, hip⟩ := h.nextBytes k
  have hreal : RealAligned (s.setIp ip) := ⟨h.real, h.legacy, h.paging, h.aligned⟩
  rw [streamByte_eq k s htracks, hip, hreal.byteAtIp] at hno
  exact hno (hfill ip)

/-- A real-mode machine whose memory is operand-size prefixes up to byte `n`, and NOPs after. -/
def prefixed (n : Nat) : Cpu :=
  let s := Cpu.withRam (2 ^ 20) Memory.mib_le 0
  { s with mem := { s.mem with data := fun i => if i < n then 0x66 else 0x90 } }

/-- An instruction of sixteen bytes decodes, with no exception; in a segment of prefixes the loop
has no end. -/
theorem decode_past_fifteen :
    (prefixed 15).beginInst.Begun ∧
      (decode decodeOp 16 (prefixed 15).beginInst).2.ip = 16 ∧
      (decode decodeOp 16 (prefixed 15).beginInst).2.pendingException = none ∧
      ∀ n, ¬ DecodeEnds n (prefixed (2 ^ 20)).beginInst := by
  refine ⟨Cpu.begun_beginInst _, by decide +kernel, by decide +kernel, ?_⟩
  refine filled_never_ends (Cpu.begun_beginInst _) ⟨rfl, rfl, rfl, rfl⟩ fun ip => ?_
  have hip := ip.isLt
  have hlin := toNat_realLinear 0 ip
  have hslot : (prefixed (2 ^ 20)).mem.slot ((u64 (0 : U16) <<< 4 + u64 ip) &&& 0xFFFFFFFF) =
      some ip.toNat := by
    rw [Memory.slot, hlin]
    refine (if_pos ?_).trans (congrArg some (Nat.zero_add _))
    show 0 * 16 + ip.toNat < 2 ^ 20
    omega
  have hbyte : (prefixed (2 ^ 20)).mem.readU8Raw ((u64 (0 : U16) <<< 4 + u64 ip) &&& 0xFFFFFFFF) =
      0x66 := by
    rw [Memory.readU8Raw, hslot]
    exact if_pos (by omega)
  show IsPrefix _ ((prefixed (2 ^ 20)).mem.readU8Raw ((u64 (0 : U16) <<< 4 + u64 ip) &&& _))
  rw [hbyte]
  exact .inr (by decide)

theorem decode_ends_prefixed : DecodedAt (prefixed 2).beginInst 2 :=
  (decode_ends_at_opcode (Cpu.begun_beginInst (prefixed 2))).1 2 (by decide +kernel)
    (by decide +kernel)

end X86Emu
