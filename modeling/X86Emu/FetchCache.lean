import X86Emu.PageFetch

/-!
# The fetch cache

Instruction fetch through the cached cursor, against fetch that translates every byte on its own.
-/
namespace X86Emu

open StateRules

/-! ## Fetch with no cache -/

/-- The byte at the instruction pointer, translated on its own. -/
def byteAtIp : Exec U8 := do
  let phys ← applyPagingFetch (← get).ipLinear
  pure ((← get).mem.readU8Raw phys)

def nextByte : Exec U8 := do
  let b ← byteAtIp
  modify (·.advanceIp 1)
  pure b

def nextBytes : Nat → Exec (List U8)
  | 0 => pure []
  | n + 1 => do
    let b ← nextByte
    let bs ← nextBytes n
    pure (b :: bs)

/-- A little-endian number. -/
def leValue : List U8 → U64
  | [] => 0
  | b :: bs => u64 b ||| leValue bs <<< 8

/-- A call of the decoder's. -/
inductive Fetch where
  | peekU8
  | fetchU8
  | fetchU16
  | fetchU32
  | fetchU64
  deriving DecidableEq, Repr

namespace Fetch

/-- The bytes a call consumes. -/
def bytes : Fetch → Nat
  | peekU8 => 0
  | fetchU8 => 1
  | fetchU16 => 2
  | fetchU32 => 4
  | fetchU64 => 8

def run : Fetch → Exec U64
  | peekU8 => u64 <$> X86Emu.peekU8
  | fetchU8 => u64 <$> X86Emu.fetchU8
  | fetchU16 => u64 <$> X86Emu.fetchU16
  | fetchU32 => u64 <$> X86Emu.fetchU32
  | fetchU64 => X86Emu.fetchU64

/-- The same with every byte translated on its own. -/
def each : Fetch → Exec U64
  | peekU8 => u64 <$> byteAtIp
  | f => leValue <$> nextBytes f.bytes

end Fetch

theorem Fetch.each_eq {f : Fetch} (hf : f ≠ .peekU8) : f.each = leValue <$> nextBytes f.bytes := by
  cases f with
  | peekU8 => exact absurd rfl hf
  | fetchU8 | fetchU16 | fetchU32 | fetchU64 => rfl

/-- A sequence of calls within one instruction. -/
def runFetches : List Fetch → Exec (List U64)
  | [] => pure []
  | f :: fs => do
    let v ← f.run
    let vs ← runFetches fs
    pure (v :: vs)

def eachFetch : List Fetch → Exec (List U64)
  | [] => pure []
  | f :: fs => do
    let v ← f.each
    let vs ← eachFetch fs
    pure (v :: vs)

/-- The bytes some calls consume. -/
def consumed : List Fetch → Nat
  | [] => 0
  | f :: fs => f.bytes + consumed fs

/-- The bytes some calls look at, from the instruction pointer on. -/
def needed : List Fetch → Nat
  | [] => 0
  | .peekU8 :: fs => max 1 (needed fs)
  | f :: fs => f.bytes + needed fs

/-! ## The reference sees no cache -/

namespace Cpu

variable {s : Cpu}

/-- The state with nothing in the fetch cache. -/
def uncached (s : Cpu) : Cpu := s.withCache 0 0 false

theorem uncached_advanceIp (n : U64) : (s.advanceIp n).uncached = s.uncached.advanceIp n := by
  unfold advanceIp
  rw [show s.uncached.pe = s.pe from rfl]
  split <;> rfl

theorem uncached_advanceCache (n : U64) : (s.advanceCache n).uncached = s.uncached := rfl

end Cpu

theorem byteAtIp_eq (s : Cpu) :
    byteAtIp s = ((applyPagingFetch s.ipLinear s).2.mem.readU8Raw (applyPagingFetch s.ipLinear s).1,
      (applyPagingFetch s.ipLinear s).2) := rfl

theorem commutes_byteAtIp : Commutes Cpu.uncached byteAtIp := by
  intro s
  have h : applyPagingFetch s.uncached.ipLinear s.uncached =
      ((applyPagingFetch s.ipLinear s).1, (applyPagingFetch s.ipLinear s).2.uncached) :=
    Cpu.commutes_fetch_cache 0 0 false s.ipLinear s
  rw [byteAtIp_eq, byteAtIp_eq, h]
  rfl

theorem commutes_nextByte : Commutes Cpu.uncached nextByte :=
  commutes_byteAtIp.bind fun _ =>
    (Commutes.modify fun _ => (Cpu.uncached_advanceIp 1).symm).bind fun _ => .pure _

theorem commutes_nextBytes : ∀ n, Commutes Cpu.uncached (nextBytes n)
  | 0 => .pure _
  | n + 1 => commutes_nextByte.bind fun _ => (commutes_nextBytes n).bind fun _ => .pure _

theorem commutes_each (f : Fetch) : Commutes Cpu.uncached f.each := by
  have hmap {α : Type} {p : Exec α} (h : Commutes Cpu.uncached p) (g : α → U64) :
      Commutes Cpu.uncached (g <$> p) := fun s => by rw [map_run, map_run, h s]
  cases f with
  | peekU8 => exact hmap commutes_byteAtIp _
  | fetchU8 | fetchU16 | fetchU32 | fetchU64 => exact hmap (commutes_nextBytes _) _

theorem commutes_eachFetch : ∀ fs, Commutes Cpu.uncached (eachFetch fs)
  | [] => .pure _
  | f :: fs => (commutes_each f).bind fun _ => (commutes_eachFetch fs).bind fun _ => .pure _

/-! ## The cursor keeps to the instruction pointer -/

theorem toNat_low32 (x : U64) : (x &&& 0xFFFFFFFF).toNat = x.toNat % 2 ^ 32 := by
  rw [BitVec.toNat_and]
  exact Nat.and_two_pow_sub_one_eq_mod x.toNat 32

theorem toNat_low8 (x : U16) : (x &&& 0xFF).toNat = x.toNat % 2 ^ 8 := by
  rw [BitVec.toNat_and]
  exact Nat.and_two_pow_sub_one_eq_mod x.toNat 8

theorem toNat_realLinear (cs ip : U16) :
    ((u64 cs <<< 4 + u64 ip) &&& 0xFFFFFFFF).toNat = cs.toNat * 16 + ip.toNat := by
  have hcs := cs.isLt
  have hip := ip.isLt
  rw [toNat_low32, BitVec.toNat_add, BitVec.toNat_shiftLeft, BitVec.toNat_setWidth,
    BitVec.toNat_setWidth, Nat.shiftLeft_eq]
  omega

namespace Cpu

variable {s t : Cpu} {n : Nat}

/-- The cache is good for the `n` bytes from the instruction pointer on: in real mode either CS is
page-aligned, so that IP wraps at a page end, or IP does not wrap. -/
structure Tracks (n : Nat) (s : Cpu) : Prop where
  mode : 1 < n → s.long64 = true → s.pe = true
  mask : s.ripMask = if s.long64 then 0xFFFFFFFFFFFFFFFF else 0xFFFFFFFF
  inSegment : s.pe = false → s.cs &&& 0xFF = 0 ∨ s.ip.toNat + n ≤ 0x10000
  cursor : s.physIpValid = true → 0 < n →
    s.physIpLinear = s.ipLinear ∧ s.Settled s.ipLinear s.physIpCache

/-- Inside a page the next byte is at the next linear address. -/
theorem Tracks.ipLinear_advanceIp (h : s.Tracks n) (hn : 2 ≤ n)
    (hoff : s.ipLinear.toNat % 4096 ≠ 4095) : (s.advanceIp 1).ipLinear = s.ipLinear + 1 := by
  have h1 : (1 : U64).toNat = 1 := rfl
  cases hpe : s.pe with
  | true =>
    have hadv : s.advanceIp 1 = { s with rip := (s.rip + 1) &&& s.ripMask } := if_pos hpe
    have hmask := h.mask
    cases h64 : s.long64 with
    | true =>
      rw [h64, if_pos rfl] at hmask
      have hself : s.ipLinear = s.rip := if_pos h64
      rw [hself, hadv, hmask]
      refine (if_pos h64).trans ?_
      exact BitVec.and_allOnes
    | false =>
      rw [h64, if_neg Bool.false_ne_true] at hmask
      have hself (rip : U64) : ({ s with rip := rip } : Cpu).ipLinear =
          (u64 (s.segDesc .cs).base + (rip &&& 0xFFFFFFFF)) &&& 0xFFFFFFFF := by
        refine (if_neg (Bool.eq_false_iff.mp h64)).trans ?_
        exact if_pos hpe
      have hs : s.ipLinear = _ := hself s.rip
      have hnext : (s.advanceIp 1).ipLinear = _ := (congrArg ipLinear hadv).trans (hself _)
      rw [hs] at hoff ⊢
      rw [hnext, hmask]
      apply BitVec.eq_of_toNat_eq
      rw [toNat_low32, BitVec.toNat_add, toNat_low32] at hoff
      rw [BitVec.toNat_add, toNat_low32, toNat_low32, BitVec.toNat_add, BitVec.toNat_add,
        toNat_low32, toNat_low32, toNat_low32, BitVec.toNat_add, h1]
      omega
  | false =>
    have h64 : s.long64 = false := by
      cases h64 : s.long64 with
      | true => rw [h.mode hn h64] at hpe; cases hpe
      | false => rfl
    have hadv : s.advanceIp 1 = { s with ip := s.ip + 1 } := if_neg (Bool.eq_false_iff.mp hpe)
    have hself (ip : U16) : ({ s with ip := ip } : Cpu).ipLinear =
        (u64 s.cs <<< 4 + u64 ip) &&& 0xFFFFFFFF := by
      refine (if_neg (Bool.eq_false_iff.mp h64)).trans ?_
      exact if_neg (Bool.eq_false_iff.mp hpe)
    have hs : s.ipLinear = _ := hself s.ip
    have hnext : (s.advanceIp 1).ipLinear = _ := (congrArg ipLinear hadv).trans (hself _)
    rw [hs] at hoff ⊢
    rw [hnext]
    apply BitVec.eq_of_toNat_eq
    have hcs := s.cs.isLt
    have hip := s.ip.isLt
    rw [toNat_realLinear] at hoff
    rw [BitVec.toNat_add, toNat_realLinear, toNat_realLinear, BitVec.toNat_add, h1,
      show (1 : U16).toNat = 1 from rfl]
    -- IP wraps only at a page end, or not at all
    rcases h.inSegment hpe with halign | hfits
    · have halign := congrArg BitVec.toNat halign
      rw [toNat_low8] at halign
      change s.cs.toNat % 2 ^ 8 = 0 at halign
      omega
    · omega

theorem Tracks.mono {m : Nat} (h : s.Tracks n) (hm : m ≤ n) : s.Tracks m where
  mode hlt := h.mode (by omega)
  mask := h.mask
  inSegment hpe := (h.inSegment hpe).imp_right fun hfits => by omega
  cursor hvalid hpos := h.cursor hvalid (by omega)

theorem consume_eq (s : Cpu) (n : U64) :
    (s.advanceIp n).advanceCache n =
      s.withCursor s.prefixState (if s.pe then s.ip else s.ip + u16 n)
        (if s.pe then (s.rip + n) &&& s.ripMask else s.rip) (s.physIpCache + n)
        (s.physIpLinear + n)
        (s.physIpValid && (s.physIpLinear + (n - 1)) &&& 0xFFF != 0xFFF) := by
  unfold advanceIp
  split <;> rfl

/-- Consuming a byte. -/
theorem Tracks.advance (h : s.Tracks (n + 1)) (hvalid : s.physIpValid = true) :
    ((s.advanceIp 1).advanceCache 1).Tracks n := by
  obtain ⟨hlin, hset⟩ := h.cursor hvalid n.succ_pos
  have hcache := s.consume_eq 1
  have hiplin : ((s.advanceIp 1).advanceCache 1).ipLinear = (s.advanceIp 1).ipLinear := rfl
  refine ⟨?_, ?_, ?_, ?_⟩
  · rw [hcache]
    exact fun hlt => h.mode (by omega)
  · rw [hcache]
    exact h.mask
  · rw [hcache]
    intro hpe
    refine (h.inSegment hpe).imp_right fun hfits => ?_
    show (if s.pe then s.ip else s.ip + 1).toNat + n ≤ 0x10000
    rw [show s.pe = false from hpe, if_neg Bool.false_ne_true, BitVec.toNat_add,
      show (1 : U16).toNat = 1 from rfl]
    omega
  · intro hv hn
    have hoff : s.ipLinear.toNat % 4096 ≠ 4095 := by
      intro hend
      rw [hcache] at hv
      have hbit := (Bool.and_eq_true_iff.mp hv).2
      rw [hlin, show s.ipLinear + (1 - 1) = s.ipLinear from BitVec.add_zero _] at hbit
      have hall : s.ipLinear &&& 0xFFF = 0xFFF := by
        apply BitVec.eq_of_toNat_eq
        rw [offset_toNat, hend]
        rfl
      rw [hall] at hbit
      cases hbit
    rw [hiplin, h.ipLinear_advanceIp (by omega) hoff, hcache]
    refine ⟨congrArg (· + 1) hlin, ?_⟩
    exact (hset.next hoff).withCursor _ _ _ _ _ _

end Cpu

/-! ## One byte -/

section Byte

variable {s : Cpu} {n : Nat}

/-- The state `ensurePhysIp` leaves. -/
theorem ensurePhysIp_valid (h : s.physIpValid = true) : ensurePhysIp s = ((), s) := by
  unfold ensurePhysIp
  rw [bind_run, get_run, ite_run, if_pos h, pure_run]

theorem ensurePhysIp_invalid (h : ¬ s.physIpValid = true) :
    ensurePhysIp s = ((), (applyPagingFetch s.ipLinear s).2.withCache
      (applyPagingFetch s.ipLinear s).1 s.ipLinear true) := by
  have hcommute := Cpu.commutes_fetch_cache s.physIpCache s.ipLinear s.physIpValid s.ipLinear s
  unfold ensurePhysIp
  rw [bind_run, get_run, ite_run, if_neg h, bind_run, modify_run, bind_run, modify_run]
  change ((), ({ (applyPagingFetch s.ipLinear
      (s.withCache s.physIpCache s.ipLinear s.physIpValid)).2 with
    physIpCache := (applyPagingFetch s.ipLinear
      (s.withCache s.physIpCache s.ipLinear s.physIpValid)).1
    physIpValid := true } : Cpu)) = _
  rw [hcommute]
  rfl

theorem valid_ensurePhysIp (s : Cpu) : (ensurePhysIp s).2.physIpValid = true := by
  by_cases h : s.physIpValid = true
  · rw [ensurePhysIp_valid h]
    exact h
  · rw [ensurePhysIp_invalid h]
    rfl

/-- After `ensurePhysIp` the cache holds the translation of the instruction pointer. -/
structure Ensured (n : Nat) (s t : Cpu) : Prop where
  same : t.uncached = (byteAtIp s).2.uncached
  byte : t.mem.readU8Raw t.physIpCache = (byteAtIp s).1
  tracks : t.Tracks (n + 1)

theorem ensured (h : s.Tracks (n + 1)) : Ensured n s (ensurePhysIp s).2 := by
  by_cases hv : s.physIpValid = true
  · obtain ⟨-, hset⟩ := h.cursor hv n.succ_pos
    obtain ⟨p, hp, hbyte⟩ := hset 0 (by omega)
    rw [BitVec.add_zero] at hp hbyte
    rw [ensurePhysIp_valid hv]
    refine ⟨?_, ?_, h⟩ <;> rw [byteAtIp_eq, hp]
    exact hbyte.symm
  · rw [ensurePhysIp_invalid hv]
    obtain ⟨tlb, mem, e, cr2, log, hchange⟩ := Cpu.fetch_changes s.ipLinear s
    have hset := Cpu.settled_fetch s.ipLinear s
    refine ⟨rfl, rfl, ?_, ?_, ?_, ?_⟩
    · rw [hchange]
      exact h.mode
    · rw [hchange]
      exact h.mask
    · rw [hchange]
      exact h.inSegment
    · intro _ _
      have hip : (applyPagingFetch s.ipLinear s).2.ipLinear = s.ipLinear := by
        rw [hchange]
        rfl
      refine ⟨hip.symm, ?_⟩
      show Cpu.Settled _ (applyPagingFetch s.ipLinear s).2.ipLinear _
      rw [hip]
      exact hset.withCursor _ _ _ _ _ _

theorem peekU8_eq (s : Cpu) :
    peekU8 s = ((ensurePhysIp s).2.mem.readU8Raw (ensurePhysIp s).2.physIpCache,
      (ensurePhysIp s).2) := rfl

theorem fetchU8_eq (s : Cpu) :
    fetchU8 s = ((ensurePhysIp s).2.mem.readU8Raw (ensurePhysIp s).2.physIpCache,
      ((ensurePhysIp s).2.advanceIp 1).advanceCache 1) := rfl

theorem nextByte_eq (s : Cpu) : nextByte s = ((byteAtIp s).1, (byteAtIp s).2.advanceIp 1) := rfl

/-- A run through the cache gives what its reference gives, and leaves the cache good for `n` bytes
more. -/
structure Agrees {α : Type} (n : Nat) (cached each : α × Cpu) : Prop where
  value : cached.1 = each.1
  state : cached.2.uncached = each.2.uncached
  tracks : cached.2.Tracks n

theorem agrees_peekU8 (h : s.Tracks (n + 1)) : Agrees (n + 1) (peekU8 s) (byteAtIp s) := by
  have hens := ensured h
  rw [peekU8_eq]
  exact ⟨hens.byte, hens.same, hens.tracks⟩

theorem agrees_fetchU8 (h : s.Tracks (n + 1)) : Agrees n (fetchU8 s) (nextByte s) := by
  have hens := ensured h
  rw [fetchU8_eq, nextByte_eq]
  refine ⟨hens.byte, ?_, hens.tracks.advance (valid_ensurePhysIp s)⟩
  dsimp only
  rw [Cpu.uncached_advanceCache, Cpu.uncached_advanceIp, hens.same, Cpu.uncached_advanceIp]

end Byte

/-! ## Wider fetches -/

section Wide

variable {s : Cpu} {m n : Nat} {α β : Type}

theorem Agrees.bind {p q : Exec α} {f g : α → Exec β} (h : Agrees m (p s) (q s))
    (hg : ∀ a, Commutes Cpu.uncached (g a))
    (hf : ∀ a t, t.Tracks m → Agrees n (f a t) (g a t)) :
    Agrees n ((p >>= f) s) ((q >>= g) s) := by
  have hstep := hf (p s).1 (p s).2 h.tracks
  have hsame : g (p s).1 (p s).2.uncached = g (q s).1 (q s).2.uncached := by
    rw [h.value, h.state]
  rw [hg, hg] at hsame
  rw [bind_run, bind_run]
  obtain ⟨hvalue, hstate⟩ := Prod.mk.inj hsame
  exact ⟨hstep.value.trans hvalue, hstep.state.trans hstate, hstep.tracks⟩

theorem Agrees.map {p q : Exec α} (h : Agrees n (p s) (q s)) (f : α → β) :
    Agrees n ((f <$> p) s) ((f <$> q) s) :=
  ⟨congrArg f h.value, h.state, h.tracks⟩

theorem Agrees.pure (h : s.Tracks n) (a : α) :
    Agrees n ((pure a : Exec α) s) ((pure a : Exec α) s) := ⟨rfl, rfl, h⟩

/-- Two bytes consumed inside a page. -/
theorem advance_twice (h : s.Tracks n) (hv : s.physIpValid = true)
    (hoff : s.physIpLinear &&& 0xFFF ≤ 0xFFE) :
    ((s.advanceIp 1).advanceCache 1).physIpValid = true ∧
      (((s.advanceIp 1).advanceCache 1).advanceIp 1).advanceCache 1 =
        (s.advanceIp 2).advanceCache 2 := by
  have htwo (x : U64) : x + 1 + 1 = x + 2 := BitVec.add_assoc x 1 1
  have hmask (x : U64) : (((x + 1) &&& s.ripMask) + 1) &&& s.ripMask = (x + 2) &&& s.ripMask := by
    rw [h.mask]
    split
    · have hall (y : U64) : y &&& 0xFFFFFFFFFFFFFFFF = y := BitVec.and_allOnes
      rw [hall, hall, hall, htwo]
    · apply BitVec.eq_of_toNat_eq
      rw [toNat_low32, BitVec.toNat_add, toNat_low32, toNat_low32, BitVec.toNat_add,
        BitVec.toNat_add, show (1 : U64).toNat = 1 from rfl, show (2 : U64).toNat = 2 from rfl]
      omega
  have hfirst := s.consume_eq 1
  have hin : ((s.physIpLinear + (1 - 1)) &&& 0xFFF != 0xFFF) = true := by
    rw [show s.physIpLinear + (1 - 1) = s.physIpLinear from BitVec.add_zero _, bne_iff_ne]
    intro hend
    rw [hend] at hoff
    exact absurd hoff (by decide)
  have hvalid : ((s.advanceIp 1).advanceCache 1).physIpValid = true := by
    rw [hfirst]
    exact Bool.and_eq_true_iff.mpr ⟨hv, hin⟩
  refine ⟨hvalid, ?_⟩
  have hip : (if s.pe then (if s.pe then s.ip else s.ip + 1)
      else (if s.pe then s.ip else s.ip + 1) + 1) = if s.pe then s.ip else s.ip + 2 := by
    cases s.pe
    · exact BitVec.add_assoc s.ip 1 1
    · rfl
  have hrip : (if s.pe then ((if s.pe then (s.rip + 1) &&& s.ripMask else s.rip) + 1) &&& s.ripMask
      else (if s.pe then (s.rip + 1) &&& s.ripMask else s.rip)) =
      if s.pe then (s.rip + 2) &&& s.ripMask else s.rip := by
    cases s.pe
    · rfl
    · exact hmask s.rip
  have hend : (true && (s.physIpLinear + 1 + (1 - 1)) &&& 0xFFF != 0xFFF) =
      (s.physIpValid && (s.physIpLinear + (2 - 1)) &&& 0xFFF != 0xFFF) := by
    rw [hv, show s.physIpLinear + 1 + (1 - 1) = s.physIpLinear + (2 - 1) from BitVec.add_zero _]
  rw [Cpu.consume_eq, hvalid, hfirst, Cpu.consume_eq]
  show s.withCursor _ _ _ (s.physIpCache + 1 + 1) (s.physIpLinear + 1 + 1) _ = _
  rw [htwo, htwo]
  exact congr (congr (congr (congr (congr (congr rfl hip) hrip) rfl) rfl) hend) rfl

/-- A word is two bytes, whichever way it is fetched. -/
theorem fetchU16_eq (h : s.Tracks (n + 1)) :
    fetchU16 s =
      (do
        let lo ← fetchU8
        let hi ← fetchU8
        pure (u16 lo ||| u16 hi <<< 8) : Exec U16) s := by
  obtain ⟨t, ht⟩ : ∃ t, (ensurePhysIp s).2 = t := ⟨_, rfl⟩
  have hv : t.physIpValid = true := ht ▸ valid_ensurePhysIp s
  have htracks : t.Tracks (n + 1) := ht ▸ (ensured h).tracks
  have hens : ensurePhysIp s = ((), t) := Prod.ext rfl ht
  have hfirst : fetchU8 s = fetchU8 t := by
    rw [fetchU8_eq, fetchU8_eq, ensurePhysIp_valid hv, hens]
  have hrun (u : Cpu) (hu : fetchU8 u = fetchU8 t) : (do
        let lo ← fetchU8
        let hi ← fetchU8
        pure (u16 lo ||| u16 hi <<< 8) : Exec U16) u =
      (u16 (fetchU8 t).1 ||| u16 (fetchU8 (fetchU8 t).2).1 <<< 8, (fetchU8 (fetchU8 t).2).2) := by
    rw [bind_run, hu]
    rfl
  have hlong : fetchU16 s = if t.physIpLinear &&& 0xFFF ≤ 0xFFE then
      (u16 (t.mem.readU8Raw t.physIpCache) ||| u16 (t.mem.readU8Raw (t.physIpCache + 1)) <<< 8,
        (t.advanceIp 2).advanceCache 2)
      else (do
        let lo ← fetchU8
        let hi ← fetchU8
        pure (u16 lo ||| u16 hi <<< 8) : Exec U16) t := by
    unfold fetchU16
    rw [bind_run, hens, bind_run, get_run, ite_run]
    rfl
  rw [hlong, hrun s hfirst]
  split
  · rename_i hoff
    obtain ⟨hv1, htwice⟩ := advance_twice htracks hv hoff
    have h1 : fetchU8 t = (t.mem.readU8Raw t.physIpCache, (t.advanceIp 1).advanceCache 1) := by
      rw [fetchU8_eq, ensurePhysIp_valid hv]
    rw [h1]
    dsimp only
    rw [fetchU8_eq, ensurePhysIp_valid hv1]
    dsimp only
    rw [htwice, Cpu.consume_eq t 1]
    rfl
  · exact hrun t rfl

/-- The references of the wider fetches. -/
def nextWord : Exec U16 := do
  let lo ← nextByte
  let hi ← nextByte
  pure (u16 lo ||| u16 hi <<< 8)

def nextDword : Exec U32 := do
  let lo ← nextWord
  let hi ← nextWord
  pure (u32 lo ||| u32 hi <<< 16)

def nextQword : Exec U64 := do
  let lo ← nextDword
  let hi ← nextDword
  pure (u64 lo ||| u64 hi <<< 32)

theorem commutes_pair {p : Exec α} (h : Commutes Cpu.uncached p) (f : α → α → β) :
    Commutes Cpu.uncached (do let lo ← p; let hi ← p; pure (f lo hi) : Exec β) :=
  h.bind fun _ => h.bind fun _ => .pure _

theorem agrees_pair {p q : Exec α} {k : Nat} (hq : Commutes Cpu.uncached q)
    (hp : ∀ n t, t.Tracks (n + k) → Agrees n (p t) (q t)) (f : α → α → β)
    (h : s.Tracks (n + (k + k))) :
    Agrees n ((do let lo ← p; let hi ← p; pure (f lo hi) : Exec β) s)
      ((do let lo ← q; let hi ← q; pure (f lo hi) : Exec β) s) := by
  have hfirst := hp (n + k) s (h.mono (by omega))
  refine hfirst.bind (fun _ => hq.bind fun _ => .pure _) fun lo t ht => ?_
  exact (hp n t ht).bind (fun _ => .pure _) fun hi u hu => .pure hu _

theorem agrees_fetchU16 (n : Nat) (t : Cpu) (h : t.Tracks (n + 2)) :
    Agrees n (fetchU16 t) (nextWord t) := by
  rw [fetchU16_eq h]
  exact agrees_pair commutes_nextByte (fun _ _ => agrees_fetchU8) _ h

theorem agrees_fetchU32 (n : Nat) (t : Cpu) (h : t.Tracks (n + 4)) :
    Agrees n (fetchU32 t) (nextDword t) :=
  agrees_pair (commutes_pair commutes_nextByte _) agrees_fetchU16 _ h

theorem agrees_fetchU64 (n : Nat) (t : Cpu) (h : t.Tracks (n + 8)) :
    Agrees n (fetchU64 t) (nextQword t) :=
  agrees_pair (commutes_pair (commutes_pair commutes_nextByte _) _) agrees_fetchU32 _ h

/-- Halves put together, seen as a wider number. -/
theorem setWidth_halves {w : Nat} (hw : w + w ≤ 64) (lo hi : BitVec w) :
    ((lo.setWidth (w + w) ||| hi.setWidth (w + w) <<< w).setWidth 64 : U64) =
      lo.setWidth 64 ||| hi.setWidth 64 <<< w := by
  apply BitVec.eq_of_getLsbD_eq
  intro i h64
  simp only [BitVec.getLsbD_setWidth, BitVec.getLsbD_or, BitVec.getLsbD_shiftLeft]
  by_cases hi2 : i < w + w
  · simp [h64, hi2, show i - w < w + w by omega, show i - w < 64 by omega]
  · have hlo : lo.getLsbD i = false := BitVec.getLsbD_of_ge _ _ (by omega)
    have hhi : hi.getLsbD (i - w) = false := BitVec.getLsbD_of_ge _ _ (by omega)
    simp [hi2, hlo, hhi]

theorem leValue_append : ∀ (xs ys : List U8),
    leValue (xs ++ ys) = leValue xs ||| leValue ys <<< (8 * xs.length)
  | [], ys => by
    rw [List.nil_append, leValue, List.length_nil, Nat.mul_zero, BitVec.shiftLeft_zero]
    exact BitVec.zero_or.symm
  | x :: xs, ys => by
    rw [List.cons_append, leValue, leValue, leValue_append xs ys, BitVec.shiftLeft_or_distrib,
      ← BitVec.shiftLeft_add, BitVec.or_assoc, List.length_cons, Nat.mul_succ]

theorem nextBytes_length : ∀ (n : Nat) (s : Cpu), (nextBytes n s).1.length = n
  | 0, _ => rfl
  | n + 1, s => congrArg (· + 1) (nextBytes_length n (nextByte s).2)

theorem nextBytes_add : ∀ (m n : Nat) (s : Cpu),
    nextBytes (m + n) s = ((nextBytes m s).1 ++ (nextBytes n (nextBytes m s).2).1,
      (nextBytes n (nextBytes m s).2).2)
  | 0, n, s => by rw [Nat.zero_add]; rfl
  | m + 1, n, s => by
    have ih := nextBytes_add m n (nextByte s).2
    rw [Nat.succ_add]
    refine (Prod.ext ?_ ?_ : ((nextByte s).1 :: (nextBytes (m + n) (nextByte s).2).1,
      (nextBytes (m + n) (nextByte s).2).2) = _)
    · rw [ih]
      rfl
    · rw [ih]
      rfl

/-- `p` reads `n` bytes as one little-endian number. -/
def ReadsLe {w : Nat} (n : Nat) (p : Exec (BitVec w)) : Prop :=
  ∀ s, ((p s).1.setWidth 64, (p s).2) = (leValue (nextBytes n s).1, (nextBytes n s).2)

theorem readsLe_nextByte : ReadsLe 1 nextByte := by
  intro s
  refine Prod.ext ?_ rfl
  exact BitVec.or_zero.symm

theorem ReadsLe.pair {w n : Nat} {p : Exec (BitVec w)} (h : ReadsLe n p) (hn : 8 * n = w)
    (hw : w + w ≤ 64) :
    ReadsLe (n + n) (do
      let lo ← p
      let hi ← p
      pure (lo.setWidth (w + w) ||| hi.setWidth (w + w) <<< w)) := by
  intro s
  obtain ⟨hlo, hs⟩ := Prod.mk.inj (h s)
  obtain ⟨hhi, hs'⟩ := Prod.mk.inj (h (p s).2)
  rw [nextBytes_add, leValue_append, nextBytes_length, hn, ← hs, ← hs', ← hlo, ← hhi]
  exact Prod.ext (setWidth_halves hw _ _) rfl

theorem readsLe_nextWord : ReadsLe 2 nextWord := readsLe_nextByte.pair rfl (by decide)

theorem readsLe_nextDword : ReadsLe 4 nextDword := readsLe_nextWord.pair rfl (by decide)

theorem readsLe_nextQword : ReadsLe 8 nextQword := readsLe_nextDword.pair rfl (by decide)

theorem ReadsLe.eq {w n : Nat} {p : Exec (BitVec w)} (h : ReadsLe n p) (s : Cpu) :
    (BitVec.setWidth 64 <$> p) s = (leValue <$> nextBytes n) s := h s

end Wide

/-! ## A run of fetches -/

section Runs

variable {s : Cpu} {n : Nat}

theorem agrees_wide {w k : Nat} {p q : Exec (BitVec w)}
    (hp : ∀ n t, t.Tracks (n + k) → Agrees n (p t) (q t)) (hq : ReadsLe k q)
    (h : s.Tracks (k + n)) :
    Agrees n ((BitVec.setWidth 64 <$> p : Exec U64) s) ((leValue <$> nextBytes k) s) := by
  rw [← hq.eq s]
  exact (hp n s (h.mono (Nat.le_of_eq (Nat.add_comm n k)))).map _

/-- One call through the cache does what its reference does. -/
theorem agrees_fetch (f : Fetch) (fs : List Fetch) (h : s.Tracks (needed (f :: fs))) :
    Agrees (needed fs) (f.run s) (f.each s) := by
  cases f with
  | peekU8 =>
    have hpos : needed (.peekU8 :: fs) = (needed (.peekU8 :: fs) - 1) + 1 :=
      (Nat.sub_add_cancel (Nat.le_max_left ..)).symm
    rw [hpos] at h
    have hpeek := (agrees_peekU8 h).map u64
    exact ⟨hpeek.value, hpeek.state, hpeek.tracks.mono (hpos ▸ Nat.le_max_right ..)⟩
  | fetchU8 => exact agrees_wide (fun _ _ => agrees_fetchU8) readsLe_nextByte h
  | fetchU16 => exact agrees_wide agrees_fetchU16 readsLe_nextWord h
  | fetchU32 => exact agrees_wide agrees_fetchU32 readsLe_nextDword h
  | fetchU64 =>
    have hwide := agrees_wide agrees_fetchU64 readsLe_nextQword h
    exact ⟨(BitVec.setWidth_eq _).symm.trans hwide.value, hwide.state, hwide.tracks⟩

theorem agrees_runFetches : ∀ (fs : List Fetch) (s : Cpu), s.Tracks (needed fs) →
    Agrees 0 (runFetches fs s) (eachFetch fs s)
  | [], s, h => .pure h _
  | f :: fs, s, h => by
    refine (agrees_fetch f fs h).bind (fun _ => (commutes_eachFetch fs).bind fun _ => .pure _) ?_
    intro v t ht
    exact (agrees_runFetches fs t ht).bind (fun _ => .pure _) fun vs u hu => .pure hu _

/-! ### Where the instruction pointer ends -/

theorem ip_byteAtIp (s : Cpu) :
    (byteAtIp s).2.ip = s.ip ∧ (byteAtIp s).2.rip = s.rip ∧ (byteAtIp s).2.pe = s.pe ∧
      (byteAtIp s).2.ripMask = s.ripMask := by
  obtain ⟨tlb, mem, e, cr2, log, h⟩ := Cpu.fetch_changes s.ipLinear s
  rw [byteAtIp_eq, h]
  exact ⟨rfl, rfl, rfl, rfl⟩

/-- `t` is where the instruction pointer of `s` is after `n` bytes. -/
structure Advanced (n : Nat) (s t : Cpu) : Prop where
  pe : t.pe = s.pe
  mask : t.ripMask = s.ripMask
  ip : t.ip = if s.pe then s.ip else s.ip + BitVec.ofNat 16 n
  rip : t.rip = if s.pe ∧ n ≠ 0 then (s.rip + BitVec.ofNat 64 n) &&& s.ripMask else s.rip

/-- RIP wraps at the width of the mode. -/
theorem ripMask_wraps {long64 : Bool} {m : U64}
    (h : m = if long64 then 0xFFFFFFFFFFFFFFFF else 0xFFFFFFFF) (x y : U64) :
    ((x &&& m) + y) &&& m = (x + y) &&& m := by
  cases long64 with
  | true =>
    have hall (z : U64) : z &&& m = z := by
      rw [h]
      exact BitVec.and_allOnes
    rw [hall, hall, hall]
  | false =>
    rw [h, if_neg Bool.false_ne_true]
    apply BitVec.eq_of_toNat_eq
    rw [toNat_low32, toNat_low32, BitVec.toNat_add, BitVec.toNat_add, toNat_low32]
    omega

variable {t : Cpu}

theorem Advanced.refl (s : Cpu) : Advanced 0 s s := by
  refine ⟨rfl, rfl, ?_, ?_⟩
  · split
    · rfl
    · exact (BitVec.add_zero _).symm
  · rw [if_neg fun h => h.2 rfl]

theorem Advanced.look (h : Advanced n s t) : Advanced n s (byteAtIp t).2 := by
  obtain ⟨hip, hrip, hpe, hmask⟩ := ip_byteAtIp t
  exact ⟨hpe.trans h.pe, hmask.trans h.mask, hip.trans h.ip, hrip.trans h.rip⟩

/-- Consuming `k` bytes more. -/
theorem Advanced.advance (h : Advanced n s t)
    (hmask : s.ripMask = if s.long64 then 0xFFFFFFFFFFFFFFFF else 0xFFFFFFFF) {k : Nat}
    (hk : 0 < k) : Advanced (n + k) s (t.advanceIp (BitVec.ofNat 64 k)) := by
  have hsum (w : Nat) (x : BitVec w) :
      x + BitVec.ofNat w n + BitVec.ofNat w k = x + BitVec.ofNat w (n + k) := by
    rw [BitVec.add_assoc, ← BitVec.ofNat_add]
  cases hpe : s.pe with
  | true =>
    have hadv : t.advanceIp (BitVec.ofNat 64 k) =
        { t with rip := (t.rip + BitVec.ofNat 64 k) &&& t.ripMask } := if_pos (h.pe.trans hpe)
    rw [hadv]
    refine ⟨h.pe, h.mask, ?_, ?_⟩
    · rw [hpe, if_pos rfl]
      exact h.ip.trans (by rw [hpe, if_pos rfl])
    · rw [hpe, if_pos ⟨rfl, by omega⟩]
      show (t.rip + BitVec.ofNat 64 k) &&& t.ripMask = _
      rw [h.mask, h.rip, hpe, ← hsum]
      by_cases hn : n = 0
      · rw [if_neg fun h => h.2 hn, hn]
        exact congrArg (fun x => (x + BitVec.ofNat 64 k) &&& s.ripMask) (BitVec.add_zero _).symm
      · rw [if_pos ⟨rfl, hn⟩]
        exact ripMask_wraps hmask _ _
  | false =>
    have hadv : t.advanceIp (BitVec.ofNat 64 k) = { t with ip := t.ip + BitVec.ofNat 16 k } := by
      refine (if_neg (Bool.eq_false_iff.mp (h.pe.trans hpe))).trans ?_
      rw [u16, BitVec.setWidth_ofNat_of_le (by decide)]
    rw [hadv]
    refine ⟨h.pe, h.mask, ?_, ?_⟩
    · show t.ip + BitVec.ofNat 16 k = _
      rw [h.ip, hpe, if_neg Bool.false_ne_true, if_neg Bool.false_ne_true]
      exact hsum 16 s.ip
    · refine h.rip.trans ?_
      rw [hpe, if_neg fun h => Bool.false_ne_true h.1, if_neg fun h => Bool.false_ne_true h.1]

theorem Advanced.next (h : Advanced n s t)
    (hmask : s.ripMask = if s.long64 then 0xFFFFFFFFFFFFFFFF else 0xFFFFFFFF) :
    Advanced (n + 1) s (nextByte t).2 := by
  rw [nextByte_eq]
  exact h.look.advance hmask Nat.one_pos

theorem advanced_nextBytes
    (hmask : s.ripMask = if s.long64 then 0xFFFFFFFFFFFFFFFF else 0xFFFFFFFF) :
    ∀ (k n : Nat) (t : Cpu), Advanced n s t → Advanced (n + k) s (nextBytes k t).2
  | 0, _, _, h => h
  | k + 1, n, t, h => by
    have hrest := advanced_nextBytes hmask k (n + 1) _ (h.next hmask)
    rwa [Nat.add_assoc, Nat.add_comm 1] at hrest

theorem eachFetch_cons (f : Fetch) (fs : List Fetch) (s : Cpu) :
    (eachFetch (f :: fs) s).2 = (eachFetch fs (f.each s).2).2 := by
  rw [eachFetch, bind_run, bind_run, pure_run]

theorem advanced_eachFetch
    (hmask : s.ripMask = if s.long64 then 0xFFFFFFFFFFFFFFFF else 0xFFFFFFFF) :
    ∀ (fs : List Fetch) (n : Nat) (t : Cpu), Advanced n s t →
      Advanced (n + consumed fs) s (eachFetch fs t).2
  | [], _, _, h => h
  | f :: fs, n, t, h => by
    have hfirst : Advanced (n + f.bytes) s (f.each t).2 := by
      by_cases hf : f = .peekU8
      · rw [hf]
        exact h.look
      · rw [Fetch.each_eq hf, map_run]
        exact advanced_nextBytes hmask f.bytes n t h
    rw [eachFetch_cons, consumed, ← Nat.add_assoc]
    exact advanced_eachFetch hmask fs (n + f.bytes) _ hfirst

/-! ### The fault of the first byte refused -/

/-- The bytes a call looks at. -/
def Fetch.looks : Fetch → List (Exec U8)
  | peekU8 => [byteAtIp]
  | f => List.replicate f.bytes nextByte

/-- The fault of the first of some bytes that is on an inaccessible page. -/
def firstRefusal : List (Exec U8) → Cpu → Option Fault
  | [], _ => none
  | p :: ps, s =>
    match s.fetchRefusal s.ipLinear with
    | some f => some f
    | none => firstRefusal ps (p s).2

def afterLooks : List (Exec U8) → Cpu → Cpu
  | [], s => s
  | p :: ps, s => afterLooks ps (p s).2

theorem afterLooks_append : ∀ (ps qs : List (Exec U8)) (s : Cpu),
    afterLooks (ps ++ qs) s = afterLooks qs (afterLooks ps s)
  | [], _, _ => rfl
  | p :: ps, qs, s => afterLooks_append ps qs (p s).2

theorem afterLooks_nextBytes : ∀ (n : Nat) (s : Cpu),
    (nextBytes n s).2 = afterLooks (List.replicate n nextByte) s
  | 0, _ => rfl
  | n + 1, s => afterLooks_nextBytes n (nextByte s).2

theorem afterLooks_each (f : Fetch) (s : Cpu) : (f.each s).2 = afterLooks f.looks s := by
  by_cases hf : f = .peekU8
  · rw [hf]
    rfl
  · have hlooks : f.looks = List.replicate f.bytes nextByte := by
      cases f with
      | peekU8 => exact absurd rfl hf
      | fetchU8 | fetchU16 | fetchU32 | fetchU64 => rfl
    rw [Fetch.each_eq hf, map_run, hlooks]
    exact afterLooks_nextBytes _ _

theorem afterLooks_eachFetch : ∀ (fs : List Fetch) (s : Cpu),
    (eachFetch fs s).2 = afterLooks (fs.flatMap Fetch.looks) s
  | [], _ => rfl
  | f :: fs, s => by
    rw [eachFetch_cons, List.flatMap_cons, afterLooks_append, afterLooks_eachFetch fs,
      afterLooks_each]

/-- A look at a byte, consumed or not. -/
structure IsLook (p : Exec U8) : Prop where
  pending : ∀ s, (p s).2.pendingException = (applyPagingFetch s.ipLinear s).2.pendingException
  cr2 : ∀ s, (p s).2.cr2 = (applyPagingFetch s.ipLinear s).2.cr2

theorem isLook_of_mem_looks {f : Fetch} {p : Exec U8} (hp : p ∈ f.looks) : IsLook p := by
  have hadv (u : Cpu) : (u.advanceIp 1).pendingException = u.pendingException ∧
      (u.advanceIp 1).cr2 = u.cr2 := by
    unfold Cpu.advanceIp
    split <;> exact ⟨rfl, rfl⟩
  have hnext : IsLook nextByte := ⟨fun _ => (hadv _).1, fun _ => (hadv _).2⟩
  cases f with
  | peekU8 =>
    obtain rfl := List.mem_singleton.mp hp
    exact ⟨fun _ => rfl, fun _ => rfl⟩
  | fetchU8 | fetchU16 | fetchU32 | fetchU64 =>
    rw [List.eq_of_mem_replicate hp]
    exact hnext

/-- A fault pending is the last one recorded. -/
theorem afterLooks_pending {e : U8 × Option U32} : ∀ (ps : List (Exec U8)) (s : Cpu),
    (∀ p ∈ ps, IsLook p) → s.pendingException = some e →
    (afterLooks ps s).pendingException = some e ∧ (afterLooks ps s).cr2 = s.cr2
  | [], s, _, h => ⟨h, rfl⟩
  | p :: ps, s, hps, h => by
    have hlook := hps p (List.mem_cons_self ..)
    have hquiet : (applyPagingFetch s.ipLinear s).2.pendingException = s.pendingException ∧
        (applyPagingFetch s.ipLinear s).2.cr2 = s.cr2 := by
      cases hr : s.fetchRefusal s.ipLinear with
      | none => exact Cpu.granted_quiet hr
      | some f =>
        have hno : s.raise f = s := if_pos (by rw [h]; rfl)
        rw [Cpu.fetch_refused hr, hno]
        exact ⟨rfl, rfl⟩
    have hrest := afterLooks_pending ps (p s).2 (fun q hq => hps q (List.mem_cons_of_mem p hq))
      ((hlook.pending s).trans (hquiet.1.trans h))
    exact ⟨hrest.1, hrest.2.trans ((hlook.cr2 s).trans hquiet.2)⟩

/-- The fault pending after some looks is that of the first byte refused. -/
theorem afterLooks_firstRefusal : ∀ (ps : List (Exec U8)) (s : Cpu),
    (∀ p ∈ ps, IsLook p) → s.pendingException = none →
    (afterLooks ps s).pendingException =
        (firstRefusal ps s).map (fun f => (f.vector, f.code)) ∧
      (afterLooks ps s).cr2 = ((firstRefusal ps s).map (·.cr2)).getD s.cr2
  | [], s, _, h => ⟨h, rfl⟩
  | p :: ps, s, hps, h => by
    have hlook := hps p (List.mem_cons_self ..)
    have hps' : ∀ q ∈ ps, IsLook q := fun q hq => hps q (List.mem_cons_of_mem p hq)
    have hpending := hlook.pending s
    have hcr2 := hlook.cr2 s
    cases hr : s.fetchRefusal s.ipLinear with
    | none =>
      obtain ⟨hquiet, hquiet2⟩ := Cpu.granted_quiet hr
      have hrest := afterLooks_firstRefusal ps (p s).2 hps' (hpending.trans (hquiet.trans h))
      rw [hcr2.trans hquiet2] at hrest
      rw [firstRefusal, hr]
      exact hrest
    | some f =>
      rw [Cpu.fetch_refused hr, Cpu.raise, h] at hpending hcr2
      have hrest := afterLooks_pending ps (p s).2 hps' hpending
      rw [firstRefusal, hr]
      exact ⟨hrest.1, hrest.2.trans hcr2⟩

/-! ### Transparency -/

namespace Cpu

/-- The state a step begins its fetches in. -/
structure Begun (s : Cpu) : Prop where
  cache : s.physIpValid = false
  mask : s.ripMask = if s.long64 then 0xFFFFFFFFFFFFFFFF else 0xFFFFFFFF

theorem begun_beginInst (s : Cpu) : s.beginInst.Begun := ⟨rfl, rfl⟩

/-- Past one byte CR0.PE is set in 64-bit code, and in real mode CS is page-aligned or the bytes do
not run past the end of the segment. -/
structure WithinSegment (n : Nat) (s : Cpu) : Prop where
  mode : 1 < n → s.long64 = true → s.pe = true
  real : s.pe = false → s.cs &&& 0xFF = 0 ∨ s.ip.toNat + n ≤ 0x10000

end Cpu

/-- The fetch cache changes no byte, no fault and no instruction pointer: a sequence of calls ends
as if every byte had been translated on its own. -/
structure Transparent (fs : List Fetch) (s : Cpu) : Prop where
  values : (runFetches fs s).1 = (eachFetch fs s).1
  state : (runFetches fs s).2.uncached = (eachFetch fs s).2.uncached
  advanced : Advanced (consumed fs) s (runFetches fs s).2
  fault : s.pendingException = none →
    (runFetches fs s).2.pendingException =
        (firstRefusal (fs.flatMap Fetch.looks) s).map (fun f => (f.vector, f.code)) ∧
      (runFetches fs s).2.cr2 =
        ((firstRefusal (fs.flatMap Fetch.looks) s).map (·.cr2)).getD s.cr2

theorem transparent_of_withinSegment (fs : List Fetch) (hs : s.Begun)
    (h : s.WithinSegment (needed fs)) : Transparent fs s := by
  have htracks : s.Tracks (needed fs) := by
    refine ⟨h.mode, hs.mask, h.real, fun hv => ?_⟩
    rw [hs.cache] at hv
    cases hv
  have hagrees := agrees_runFetches fs s htracks
  have hstate := hagrees.state
  refine ⟨hagrees.value, hstate, ?_, fun hnone => ?_⟩
  · have heach := advanced_eachFetch hs.mask fs 0 s (.refl s)
    rw [Nat.zero_add] at heach
    exact ⟨(congrArg Cpu.pe hstate).trans heach.pe,
      (congrArg Cpu.ripMask hstate).trans heach.mask,
      (congrArg Cpu.ip hstate).trans heach.ip, (congrArg Cpu.rip hstate).trans heach.rip⟩
  · have hlooks : ∀ p ∈ fs.flatMap Fetch.looks, IsLook p := by
      intro p hp
      obtain ⟨f, -, hf⟩ := List.mem_flatMap.mp hp
      exact isLook_of_mem_looks hf
    have hfault := afterLooks_firstRefusal _ s hlooks hnone
    rw [← afterLooks_eachFetch] at hfault
    exact ⟨(congrArg Cpu.pendingException hstate).trans hfault.1,
      (congrArg Cpu.cr2 hstate).trans hfault.2⟩

/-- A real-mode machine about to fetch the last byte of a segment whose base is 10h. -/
def segmentEnd : Cpu :=
  let s := Cpu.withRam (2 ^ 20) Memory.mib_le 0
  { s with cs := 1, ip := 0xFFFF, mem := s.mem.writeU8 0x10 0x90 }

/-- The second byte of a word at IP FFFFh is read past the segment, not from its start. -/
theorem fetchU16_past_segment :
    segmentEnd.beginInst.Begun ∧
      (runFetches [.fetchU16] segmentEnd.beginInst).1 = [0] ∧
      (eachFetch [.fetchU16] segmentEnd.beginInst).1 = [0x9000] ∧
      ¬ Transparent [.fetchU16] segmentEnd.beginInst := by
  have hrun : (runFetches [.fetchU16] segmentEnd.beginInst).1 = [0] := by decide +kernel
  have heach : (eachFetch [.fetchU16] segmentEnd.beginInst).1 = [0x9000] := by decide +kernel
  refine ⟨Cpu.begun_beginInst _, hrun, heach, fun h => ?_⟩
  have hvalues := h.values
  rw [hrun, heach] at hvalues
  exact absurd hvalues (by decide)

/-- A real-mode machine about to fetch from six bytes before the end of a page. -/
def pageEnd : Cpu :=
  let s := Cpu.withRam (2 ^ 20) Memory.mib_le 0
  { s with cs := 1, ip := 0xFEA, mem := (s.mem.writeU8 0xFFF 0x34).writeU8 0x1000 0x12 }

/-- The third word of the quadword lies on both pages. -/
theorem transparent_across_page :
    Transparent [.peekU8, .fetchU8, .fetchU64] pageEnd.beginInst ∧
      (runFetches [.peekU8, .fetchU8, .fetchU64] pageEnd.beginInst).1 = [0, 0, 0x123400000000] :=
  ⟨transparent_of_withinSegment _ (Cpu.begun_beginInst _)
    ⟨fun _ h => absurd h (by decide), fun _ => .inr (by decide)⟩, by decide +kernel⟩

end Runs

end X86Emu
