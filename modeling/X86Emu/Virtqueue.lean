import X86Emu.Devices.Storage
import X86Emu.MemoryFacts

/-!
# The virtqueue

The driver publishes heads in the available ring and the device answers them in the used ring. Both
indices run free over 16 bits and are taken modulo the queue size. A run of driver steps, notifies
and register accesses keeps: every head published is served or pending, in order.
-/
namespace X86Emu

namespace VirtioBlk

/-! ## The rings -/

/-- The queue's page, where the descriptor table is. -/
def queueBase (v : VirtioBlk) : U64 := u64 v.queuePfn * 4096

theorem queueBase_toNat (v : VirtioBlk) : v.queueBase.toNat = v.queuePfn.toNat * 4096 := by
  have := v.queuePfn.isLt
  have h4096 : (4096 : U64).toNat = 4096 := rfl
  rw [queueBase, BitVec.toNat_mul, BitVec.toNat_setWidth, h4096,
    Nat.mod_eq_of_lt (show v.queuePfn.toNat < 2 ^ 64 by omega), Nat.mod_eq_of_lt (by omega)]

theorem queueBase_add (v : VirtioBlk) {k : Nat} (hk : k < 2 ^ 32) :
    (v.queueBase + BitVec.ofNat 64 k).toNat = v.queuePfn.toNat * 4096 + k := by
  have := v.queuePfn.isLt
  rw [BitVec.toNat_add, queueBase_toNat, BitVec.toNat_ofNat]
  omega

theorem add_ofNat (a : U64) (j k : Nat) :
    a + BitVec.ofNat 64 j + BitVec.ofNat 64 k = a + BitVec.ofNat 64 (j + k) := by
  rw [BitVec.add_assoc, BitVec.ofNat_add]

theorem slot_mul (slot : U16) (k : Nat) (hk : k < 2 ^ 32) :
    u64 slot * BitVec.ofNat 64 k = BitVec.ofNat 64 (k * slot.toNat) := by
  apply BitVec.eq_of_toNat_eq
  rw [BitVec.toNat_mul, BitVec.toNat_setWidth, BitVec.toNat_ofNat, BitVec.toNat_ofNat]
  have := slot.isLt
  rw [Nat.mod_eq_of_lt (show slot.toNat < 2 ^ 64 by omega), Nat.mod_eq_of_lt (show k < 2 ^ 64 by omega),
    Nat.mul_comm]

/-- The available ring follows the 128 descriptors, the used ring is on the next page. -/
theorem ring_eq (v : VirtioBlk) :
    v.ring = (v.queueBase, v.queueBase + 2048, v.queueBase + 4096) := by
  have hused : (v.queueBase + 2048 + 4 + 256 + 2 + 4095) / 4096 * 4096 = v.queueBase + 4096 := by
    have hsum : v.queueBase + 2048 + 4 + 256 + 2 + 4095 = v.queueBase + BitVec.ofNat 64 6405 := by
      simp only [BitVec.add_assoc]
      rfl
    rw [hsum]
    apply BitVec.eq_of_toNat_eq
    have h4096 : (4096 : U64).toNat = 4096 := rfl
    have hend : (v.queueBase + 4096).toNat = v.queuePfn.toNat * 4096 + 4096 :=
      v.queueBase_add (k := 4096) (by decide)
    have := v.queuePfn.isLt
    rw [hend, BitVec.toNat_mul, BitVec.toNat_udiv, v.queueBase_add (by decide), h4096]
    omega
  exact congrArg (fun u => (v.queueBase, v.queueBase + 2048, u)) hused

/-- Where the available index, an available slot, the used index and a used entry are. -/
def availIdxAt (v : VirtioBlk) : U64 := v.queueBase + 2048 + 2
def availSlotAt (v : VirtioBlk) (slot : U16) : U64 := v.queueBase + 2048 + 4 + u64 slot * 2
def usedIdxAt (v : VirtioBlk) : U64 := v.queueBase + 4096 + 2
def usedEntryAt (v : VirtioBlk) (slot : U16) : U64 := v.queueBase + 4096 + 4 + u64 slot * 8

theorem availIdxAt_eq (v : VirtioBlk) : v.availIdxAt = v.queueBase + BitVec.ofNat 64 2050 := by
  rw [availIdxAt, BitVec.add_assoc]
  rfl

theorem usedIdxAt_eq (v : VirtioBlk) : v.usedIdxAt = v.queueBase + BitVec.ofNat 64 4098 := by
  rw [usedIdxAt, BitVec.add_assoc]
  rfl

theorem availSlotAt_eq (v : VirtioBlk) (slot : U16) :
    v.availSlotAt slot = v.queueBase + BitVec.ofNat 64 (2052 + 2 * slot.toNat) := by
  have hmul : u64 slot * 2 = BitVec.ofNat 64 (2 * slot.toNat) := slot_mul slot 2 (by decide)
  rw [availSlotAt, hmul, BitVec.ofNat_add, ← BitVec.add_assoc, BitVec.add_assoc v.queueBase]
  rfl

theorem usedEntryAt_eq (v : VirtioBlk) (slot : U16) :
    v.usedEntryAt slot = v.queueBase + BitVec.ofNat 64 (4100 + 8 * slot.toNat) := by
  have hmul : u64 slot * 8 = BitVec.ofNat 64 (8 * slot.toNat) := slot_mul slot 8 (by decide)
  rw [usedEntryAt, hmul, BitVec.ofNat_add, ← BitVec.add_assoc, BitVec.add_assoc v.queueBase]
  rfl

/-- The bytes at the offsets `K` from the queue's page on. -/
def Part (v : VirtioBlk) (K : Nat → Prop) (b : U64) : Prop :=
  ∃ k, K k ∧ b = v.queueBase + BitVec.ofNat 64 k

/-- The offsets of the available ring, of the used ring, and of both. -/
def availPart (k : Nat) : Prop := 2048 ≤ k ∧ k < 2308
def usedPart (k : Nat) : Prop := 4096 ≤ k ∧ k < 5124
def ringPart (k : Nat) : Prop := availPart k ∨ usedPart k

end VirtioBlk

/-! ## Memory that keeps some bytes -/

namespace Memory

/-- The bytes of `P` read as before, and the same bytes are backed. -/
structure KeepsBytes (P : U64 → Prop) (m m' : Memory) : Prop where
  slot : ∀ b, m'.slot b = m.slot b
  byte : ∀ b, P b → m'.readU8 b = m.readU8 b

namespace KeepsBytes

variable {P : U64 → Prop} {m m' m'' : Memory} {a : U64}

theorem refl (P : U64 → Prop) (m : Memory) : KeepsBytes P m m := ⟨fun _ => rfl, fun _ _ => rfl⟩

theorem trans (h : KeepsBytes P m m') (g : KeepsBytes P m' m'') : KeepsBytes P m m'' :=
  ⟨fun b => (g.slot b).trans (h.slot b), fun b hb => (g.byte b hb).trans (h.byte b hb)⟩

theorem mono {Q : U64 → Prop} (h : KeepsBytes P m m') (hq : ∀ b, Q b → P b) : KeepsBytes Q m m' :=
  ⟨h.slot, fun b hb => h.byte b (hq b hb)⟩

theorem backed (h : KeepsBytes P m m') (b : U64) : m'.backed b ↔ m.backed b := backed_congr (h.slot b)

theorem of_stored {n : Nat} {f : Nat → U8} (h : Stored m m' a n f)
    (hp : ∀ b, P b → ¬ (b - a).toNat < n) : KeepsBytes P m m' where
  slot := h.slot
  byte b hb := by rw [h.byte b, if_neg fun hc => hp b hb hc.1]

theorem writeU8 (ha : ¬ P a) (v : U8) : KeepsBytes P m (m.writeU8 a v) := by
  refine of_stored (m.stored_writeU8 a v) fun b hb hlt => ha ?_
  have hba : b = a := by
    have h0 : (b - a).toNat = (0 : U64).toNat := by
      rw [Nat.lt_one_iff.mp hlt]
      rfl
    exact sub_eq_zero.mp (BitVec.eq_of_toNat_eq h0)
  rwa [hba] at hb

theorem foldl {β : Type} {g : Memory → β → Memory} (l : List β)
    (hg : ∀ x ∈ l, ∀ q, KeepsBytes P q (g q x)) (m : Memory) : KeepsBytes P m (l.foldl g m) := by
  induction l generalizing m with
  | nil => exact refl P m
  | cons x l ih =>
    exact (hg x List.mem_cons_self m).trans (ih (fun y hy => hg y (List.mem_cons_of_mem _ hy)) _)

/-- An aligned word whose bytes are kept. -/
theorem readU16 (h : KeepsBytes P m m') (h2 : 2 ∣ a.toNat) (h0 : P a) (h1 : P (a + 1)) :
    m'.readU16 a = m.readU16 a := by
  have hb := m.block_of_aligned a (n := 2) (by decide) (by decide) h2
  have hb' := m'.block_of_aligned a (n := 2) (by decide) (by decide) h2
  rw [hb.readU16_eq, hb'.readU16_eq, h.byte a h0, h.byte _ h1]

theorem readU32 (h : KeepsBytes P m m') (h4 : 4 ∣ a.toNat)
    (hp : ∀ k < 4, P (a + BitVec.ofNat 64 k)) : m'.readU32 a = m.readU32 a := by
  have hb := m.block_of_aligned a (n := 4) (by decide) (by decide) h4
  have hb' := m'.block_of_aligned a (n := 4) (by decide) (by decide) h4
  have h0 : m'.readU8 a = m.readU8 a := by simpa using h.byte _ (hp 0 (by decide))
  have h1 : m'.readU8 (a + 1) = m.readU8 (a + 1) := h.byte _ (hp 1 (by decide))
  have h2 : m'.readU8 (a + 2) = m.readU8 (a + 2) := h.byte _ (hp 2 (by decide))
  have h3 : m'.readU8 (a + 3) = m.readU8 (a + 3) := h.byte _ (hp 3 (by decide))
  rw [hb.readU32_eq, hb'.readU32_eq, h0, h1, h2, h3]

end KeepsBytes

/-- A backed word reads back as stored. -/
theorem readU16_stored {m m' : Memory} {a : U64} {v : U16} (h : Stored m m' a 2 (byteOf v))
    (h2 : 2 ∣ a.toNat) (hb : ∀ k < 2, m.backed (a + BitVec.ofNat 64 k)) : m'.readU16 a = v := by
  have hblock := m'.block_of_aligned a (n := 2) (by decide) (by decide) h2
  have hbyte (k : Nat) (hk : k < 2) : m'.readU8 (a + BitVec.ofNat 64 k) = byteOf v k := by
    have hsub : (a + BitVec.ofNat 64 k - a).toNat = k := by
      rw [add_sub_cancel_left, BitVec.toNat_ofNat]
      omega
    rw [h.byte, hsub, if_pos ⟨hk, hb k hk⟩]
  have h0 : m'.readU8 a = byteOf v 0 := by simpa using hbyte 0 (by decide)
  have h1 : m'.readU8 (a + 1) = byteOf v 1 := hbyte 1 (by decide)
  rw [hblock.readU16_eq, h0, h1]
  exact le16_byteOf v

theorem readU32_stored {m m' : Memory} {a : U64} {v : U32} (h : Stored m m' a 4 (byteOf v))
    (h4 : 4 ∣ a.toNat) (hb : ∀ k < 4, m.backed (a + BitVec.ofNat 64 k)) : m'.readU32 a = v := by
  have hblock := m'.block_of_aligned a (n := 4) (by decide) (by decide) h4
  refine hblock.readU32_of_bytes fun k hk => ?_
  have hsub : (a + BitVec.ofNat 64 k - a).toNat = k := by
    rw [add_sub_cancel_left, BitVec.toNat_ofNat]
    omega
  rw [h.byte, hsub, if_pos ⟨hk, hb k hk⟩]

end Memory

namespace VirtioBlk

open Memory

/-! ## A request's buffers -/

/-- The status byte of a chain and the bytes of its data descriptors. -/
def BufferByte : List (U64 × U32 × U16) → U64 → Prop
  | _ :: d :: rest, b =>
    b = ((d :: rest).getLastD (0, 0, 0)).1 ∨
      ∃ e ∈ (d :: rest).dropLast, ∃ i < e.2.1.toNat, b = e.1 + BitVec.ofNat 64 i
  | _, _ => False

section Buffers

variable {P : U64 → Prop}

theorem copyIn_keeps (disk : Array U8) (addr offset : U64) (n i : Nat) (mem : Memory)
    (h : ∀ j, i ≤ j → j < i + n → ¬ P (addr + BitVec.ofNat 64 j)) :
    KeepsBytes P mem (copyIn disk addr offset n i mem).1 := by
  induction n generalizing i mem with
  | zero => exact KeepsBytes.refl P mem
  | succ n ih =>
    rw [copyIn]
    cases disk[(offset + BitVec.ofNat 64 i).toNat]? with
    | none => exact KeepsBytes.refl P mem
    | some b =>
      have hbyte := KeepsBytes.writeU8 (m := mem) (h i (Nat.le_refl i) (by omega)) b
      exact hbyte.trans (ih (i + 1) _ fun j hj hlt => h j (by omega) (by omega))

theorem readChain_keeps (disk : Array U8) (data : List (U64 × U32 × U16)) (offset : U64)
    (written : U32) (ok : Bool) (mem : Memory)
    (h : ∀ e ∈ data, ∀ i < e.2.1.toNat, ¬ P (e.1 + BitVec.ofNat 64 i)) :
    KeepsBytes P mem (readChain disk data offset written ok mem).1 := by
  induction data generalizing offset written ok mem with
  | nil => exact KeepsBytes.refl P mem
  | cons e data ih =>
    obtain ⟨addr, len, flags⟩ := e
    rw [readChain]
    split
    · exact KeepsBytes.refl P mem
    · have hcopy := copyIn_keeps (P := P) disk addr offset len.toNat 0 mem fun j _ hj =>
        h _ List.mem_cons_self j (by simpa using hj)
      exact hcopy.trans (ih _ _ _ _ fun e he => h e (List.mem_cons_of_mem _ he))

theorem blankChain_keeps (data : List (U64 × U32 × U16)) (written : U32) (mem : Memory)
    (h : ∀ e ∈ data, ∀ i < e.2.1.toNat, ¬ P (e.1 + BitVec.ofNat 64 i)) :
    KeepsBytes P mem (blankChain data written mem).1 := by
  induction data generalizing written mem with
  | nil => exact KeepsBytes.refl P mem
  | cons e data ih =>
    obtain ⟨addr, len, flags⟩ := e
    rw [blankChain]
    have hblank : KeepsBytes P mem ((List.range len.toNat).foldl
        (fun m i => m.writeU8 (addr + BitVec.ofNat 64 i) 0) mem) := by
      refine KeepsBytes.foldl _ (fun i hi q => KeepsBytes.writeU8 ?_ 0) mem
      exact h _ List.mem_cons_self i (List.mem_range.mp hi)
    exact hblank.trans (ih _ _ fun e he => h e (List.mem_cons_of_mem _ he))

/-- A request stores only to its chain's buffers. -/
theorem request_keeps (disk : Array U8) (mem : Memory) (desc : U64) (head : U16)
    (h : ∀ b, BufferByte (chainFrom mem desc queueSize.toNat head) b → ¬ P b) :
    KeepsBytes P mem (request disk mem desc head).2.2 := by
  unfold request
  dsimp only
  split
  · rename_i hdr len flags d rest hchain
    rw [hchain] at h
    have hstatus : ¬ P ((d :: rest).getLastD (0, 0, 0)).1 := h _ (.inl rfl)
    have hdata : ∀ e ∈ (d :: rest).dropLast, ∀ i < e.2.1.toNat, ¬ P (e.1 + BitVec.ofNat 64 i) :=
      fun e he i hi => h _ (.inr ⟨e, he, i, hi, rfl⟩)
    by_cases h0 : mem.readU32 hdr = 0
    · rw [if_pos h0]
      exact (readChain_keeps disk _ _ 0 true mem hdata).trans (KeepsBytes.writeU8 hstatus _)
    rw [if_neg h0]
    by_cases h1 : mem.readU32 hdr = 1
    · rw [if_pos h1]
      exact KeepsBytes.writeU8 hstatus _
    rw [if_neg h1]
    by_cases h4 : mem.readU32 hdr = 4
    · rw [if_pos h4]
      exact KeepsBytes.writeU8 hstatus _
    rw [if_neg h4]
    by_cases h8 : mem.readU32 hdr = 8
    · rw [if_pos h8]
      exact (blankChain_keeps _ 0 mem hdata).trans (KeepsBytes.writeU8 hstatus _)
    · rw [if_neg h8]
      exact KeepsBytes.writeU8 hstatus _
  · exact KeepsBytes.refl P mem

end Buffers

/-! ## One round of the loop -/

/-- The head in slot `i` of the available ring, and the indices of the two rings. -/
def headAt (v : VirtioBlk) (mem : Memory) (i : U16) : U16 :=
  mem.readU16 (v.availSlotAt (i % queueSize))

def availIdx (v : VirtioBlk) (mem : Memory) : U16 := mem.readU16 v.availIdxAt

def usedIdx (v : VirtioBlk) (mem : Memory) : U16 := mem.readU16 v.usedIdxAt

/-- The head named by entry `i` of the used ring. -/
def usedHead (v : VirtioBlk) (mem : Memory) (i : U16) : U32 :=
  mem.readU32 (v.usedEntryAt (i % queueSize))

/-- One round of the loop in `notify`. -/
def serveNext (q : VirtioBlk × Memory) : VirtioBlk × Memory :=
  serve q.1.ring.1 q.1.ring.2.1 q.1.ring.2.2 1 q.1 q.2

/-- The loop in `notify`, for at most `fuel` rounds. -/
def serveWhile (availIdx : U16) : Nat → VirtioBlk × Memory → Option (VirtioBlk × Memory)
  | 0, _ => none
  | fuel + 1, q =>
    if availIdx - q.1.lastAvail ≠ 0 then serveWhile availIdx fuel (serveNext q) else some q

/-- The request served next, and the memory it leaves. -/
def nextRequest (q : VirtioBlk × Memory) : U32 × Array U8 × Memory :=
  request q.1.disk q.2 q.1.queueBase (q.1.headAt q.2 q.1.lastAvail)

/-- The entry a request adds to the used ring. -/
def pushUsed (v : VirtioBlk) (mem : Memory) (head : U16) (written : U32) : Memory :=
  let entry := v.usedEntryAt (v.usedIdx mem % queueSize)
  let mem := (mem.writeU32 entry (u32 head)).writeU32 (entry + 4) written
  mem.writeU16 v.usedIdxAt (mem.readU16 v.usedIdxAt + 1)

theorem serveNext_eq (q : VirtioBlk × Memory) :
    serveNext q =
      ({ q.1 with
          disk := (nextRequest q).2.1
          lastAvail := q.1.lastAvail + 1
          isr := q.1.isr ||| 1
          irq := true },
        pushUsed q.1 (nextRequest q).2.2 (q.1.headAt q.2 q.1.lastAvail) (nextRequest q).1) := by
  rw [serveNext, ring_eq]
  rfl

theorem serve_iterate (n : Nat) (q : VirtioBlk × Memory) :
    serve q.1.ring.1 q.1.ring.2.1 q.1.ring.2.2 n q.1 q.2 = serveNext^[n] q := by
  induction n generalizing q with
  | zero => rfl
  | succ n ih =>
    rw [Function.iterate_succ_apply, ← ih (serveNext q)]
    rfl

/-- How many heads `notify` finds. -/
def backlog (v : VirtioBlk) (mem : Memory) : Nat := (v.availIdx mem - v.lastAvail).toNat

theorem notify_eq (v : VirtioBlk) (mem : Memory) (h : v.queuePfn ≠ 0) :
    v.notify mem = serveNext^[v.backlog mem] (v, mem) := by
  rw [notify, if_neg h, ← serve_iterate, backlog, availIdx, availIdxAt]
  simp only [ring_eq]

/-! ## The used ring -/

section UsedRing

variable {v : VirtioBlk} {mem mem' : Memory} {K : Nat → Prop}

theorem at_aligned {n k : Nat} (hn : n ∣ 4096) (hk : k < 2 ^ 32) (h : n ∣ k) :
    n ∣ (v.queueBase + BitVec.ofNat 64 k).toNat := by
  rw [v.queueBase_add hk]
  exact Nat.dvd_add (Nat.dvd_mul_left_of_dvd hn _) h

theorem at_sub {j k n : Nat} (hj : j < 2 ^ 32) (hk : k < 2 ^ 32) (hn : n < 2 ^ 32)
    (h : j < k ∨ k + n ≤ j) :
    ¬ (v.queueBase + BitVec.ofNat 64 j - (v.queueBase + BitVec.ofNat 64 k)).toNat < n := by
  have hb := v.queueBase.isLt
  rw [add_sub_add_left_eq_sub, BitVec.toNat_sub, BitVec.toNat_ofNat, BitVec.toNat_ofNat]
  omega

theorem keeps_stored {k n : Nat} {f : Nat → U8}
    (h : Stored mem mem' (v.queueBase + BitVec.ofNat 64 k) n f) (hk : k < 2 ^ 32) (hn : n < 2 ^ 32)
    (hK : ∀ j, K j → j < 2 ^ 32 ∧ (j < k ∨ k + n ≤ j)) : KeepsBytes (v.Part K) mem mem' := by
  refine KeepsBytes.of_stored h ?_
  rintro b ⟨j, hj, rfl⟩
  exact at_sub (hK j hj).1 hk hn (hK j hj).2

theorem readU16_kept (h : KeepsBytes (v.Part K) mem mem') {k : Nat} (hk : k < 2 ^ 32) (h2 : 2 ∣ k)
    (h0 : K k) (h1 : K (k + 1)) :
    mem'.readU16 (v.queueBase + BitVec.ofNat 64 k) =
      mem.readU16 (v.queueBase + BitVec.ofNat 64 k) := by
  refine h.readU16 (at_aligned (by decide) hk h2) ⟨k, h0, rfl⟩ ⟨k + 1, h1, ?_⟩
  exact add_ofNat v.queueBase k 1

theorem readU32_kept (h : KeepsBytes (v.Part K) mem mem') {k : Nat} (hk : k < 2 ^ 32) (h4 : 4 ∣ k)
    (hK : ∀ j < 4, K (k + j)) :
    mem'.readU32 (v.queueBase + BitVec.ofNat 64 k) =
      mem.readU32 (v.queueBase + BitVec.ofNat 64 k) := by
  refine h.readU32 (at_aligned (by decide) hk h4) fun j hj => ⟨k + j, hK j hj, ?_⟩
  exact add_ofNat v.queueBase k j

theorem stored16 (mem : Memory) {k : Nat} (hk : k < 2 ^ 32) (h2 : 2 ∣ k) (x : U16) :
    Stored mem (mem.writeU16 (v.queueBase + BitVec.ofNat 64 k) x) (v.queueBase + BitVec.ofNat 64 k) 2
      (byteOf x) :=
  (mem.block_of_aligned _ (by decide) (by decide) (at_aligned (by decide) hk h2)).stored_writeU16 x

theorem stored32 (mem : Memory) {k : Nat} (hk : k < 2 ^ 32) (h4 : 4 ∣ k) (x : U32) :
    Stored mem (mem.writeU32 (v.queueBase + BitVec.ofNat 64 k) x) (v.queueBase + BitVec.ofNat 64 k) 4
      (byteOf x) :=
  (mem.block_of_aligned _ (by decide) (by decide) (at_aligned (by decide) hk h4)).stored_writeU32 x

/-- There is memory behind the used ring. -/
def UsedBacked (v : VirtioBlk) (mem : Memory) : Prop := ∀ b, v.Part usedPart b → mem.backed b

theorem UsedBacked.at {k j : Nat} (h : v.UsedBacked mem) (hk : usedPart (k + j)) :
    mem.backed (v.queueBase + BitVec.ofNat 64 k + BitVec.ofNat 64 j) :=
  h _ ⟨k + j, hk, add_ofNat _ k j⟩

theorem UsedBacked.congr (h : v.UsedBacked mem) (hs : ∀ b, mem'.slot b = mem.slot b) :
    v.UsedBacked mem' := fun b hb => (backed_congr (hs b)).mpr (h b hb)

theorem mod_queueSize (i : U16) : (i % queueSize).toNat = i.toNat % 128 := rfl

/-- What one entry does: the head at the used index's slot, the index one further, and nothing else
of either ring. -/
structure Pushed (v : VirtioBlk) (mem mem' : Memory) (head : U16) : Prop where
  slot : ∀ b, mem'.slot b = mem.slot b
  avail : KeepsBytes (v.Part availPart) mem mem'
  idx : v.usedIdx mem' = v.usedIdx mem + 1
  entry : ∀ i : U16, v.usedHead mem' i =
    if i % queueSize = v.usedIdx mem % queueSize then u32 head else v.usedHead mem i

theorem pushUsed_pushed (h : v.UsedBacked mem) (head : U16) (written : U32) :
    v.Pushed mem (v.pushUsed mem head written) head := by
  have hlt : (v.usedIdx mem).toNat % 128 < 128 := Nat.mod_lt _ (by decide)
  generalize hs : (v.usedIdx mem).toNat % 128 = s at hlt
  have hentry : v.usedEntryAt (v.usedIdx mem % queueSize) =
      v.queueBase + BitVec.ofNat 64 (4100 + 8 * s) := by
    rw [usedEntryAt_eq, mod_queueSize, hs]
  have hsecond : v.usedEntryAt (v.usedIdx mem % queueSize) + 4 =
      v.queueBase + BitVec.ofNat 64 (4104 + 8 * s) := by
    have hk : 4104 + 8 * s = 4100 + 8 * s + 4 := by omega
    rw [hentry, hk]
    exact add_ofNat v.queueBase (4100 + 8 * s) 4
  have hstep1 := stored32 (v := v) mem (k := 4100 + 8 * s) (by omega) (by omega) (u32 head)
  generalize hm1 : mem.writeU32 (v.queueBase + BitVec.ofNat 64 (4100 + 8 * s)) (u32 head) = m1 at hstep1
  have hstep2 := stored32 (v := v) m1 (k := 4104 + 8 * s) (by omega) (by omega) written
  generalize hm2 : m1.writeU32 (v.queueBase + BitVec.ofNat 64 (4104 + 8 * s)) written = m2 at hstep2
  have hstep3 := stored16 (v := v) m2 (k := 4098) (by decide) (by decide) (m2.readU16 v.usedIdxAt + 1)
  have hpush : v.pushUsed mem head written =
      m2.writeU16 (v.queueBase + BitVec.ofNat 64 4098) (m2.readU16 v.usedIdxAt + 1) := by
    rw [pushUsed, hsecond, hentry, hm1, hm2, usedIdxAt_eq]
  rw [← hpush] at hstep3
  have hback2 : v.UsedBacked m2 := (h.congr hstep1.slot).congr hstep2.slot
  -- the offsets all three stores leave alone
  have hkept {K : Nat → Prop} (hK : ∀ j, K j →
      j < 2 ^ 32 ∧ (j < 4100 + 8 * s ∨ 4108 + 8 * s ≤ j)) : KeepsBytes (v.Part K) mem m2 :=
    (keeps_stored hstep1 (by omega) (by omega) fun j hj => by have := hK j hj; omega).trans
      (keeps_stored hstep2 (by omega) (by omega) fun j hj => by have := hK j hj; omega)
  have hidx2 : m2.readU16 v.usedIdxAt = v.usedIdx mem := by
    rw [usedIdx, usedIdxAt_eq]
    exact readU16_kept (K := fun k => k = 4098 ∨ k = 4099) (hkept fun j hj => by omega)
      (by decide) (by decide) (.inl rfl) (.inr rfl)
  refine ⟨fun b => ?_, ?_, ?_, fun i => ?_⟩
  · rw [hstep3.slot, hstep2.slot, hstep1.slot]
  · exact (hkept fun j hj => by unfold availPart at hj; omega).trans
      (keeps_stored hstep3 (by omega) (by omega) fun j hj => by unfold availPart at hj; omega)
  · rw [← hidx2, usedIdx]
    refine (congrArg _ v.usedIdxAt_eq).trans ?_
    exact readU16_stored hstep3 (at_aligned (by decide) (by decide) (by decide))
      fun k hk => hback2.at (by unfold usedPart; omega)
  · have hi : i.toNat % 128 < 128 := Nat.mod_lt _ (by decide)
    have hother : i % queueSize = v.usedIdx mem % queueSize ↔ i.toNat % 128 = s := by
      rw [← BitVec.toNat_inj, mod_queueSize, mod_queueSize, hs]
    have hlast : (v.pushUsed mem head written).readU32
          (v.queueBase + BitVec.ofNat 64 (4100 + 8 * (i.toNat % 128)))
        = m2.readU32 (v.queueBase + BitVec.ofNat 64 (4100 + 8 * (i.toNat % 128))) :=
      readU32_kept (K := fun k => 4100 ≤ k ∧ k < 5124)
        (keeps_stored hstep3 (by omega) (by omega) fun j hj => by omega) (by omega) (by omega)
        fun j hj => by omega
    rw [usedHead, usedHead, usedEntryAt_eq, mod_queueSize, hlast]
    by_cases hc : i.toNat % 128 = s
    · rw [if_pos (hother.mpr hc), hc]
      have hfirst : m1.readU32 (v.queueBase + BitVec.ofNat 64 (4100 + 8 * s)) = u32 head :=
        readU32_stored hstep1 (at_aligned (by decide) (by omega) (by omega))
          fun k hk => h.at (by unfold usedPart; omega)
      rw [← hfirst]
      exact readU32_kept (K := fun k => 4100 + 8 * s ≤ k ∧ k < 4104 + 8 * s)
        (keeps_stored hstep2 (by omega) (by omega) fun j hj => by omega) (by omega) (by omega)
        fun j hj => by omega
    · rw [if_neg (mt hother.mp hc)]
      exact readU32_kept
        (K := fun k => 4100 + 8 * (i.toNat % 128) ≤ k ∧ k < 4104 + 8 * (i.toNat % 128))
        (hkept fun j hj => by omega) (by omega) (by omega) fun j hj => by omega

end UsedRing

/-! ## A notify -/

section AvailRing

variable {v : VirtioBlk} {mem mem' : Memory}

theorem headAt_kept (h : KeepsBytes (v.Part availPart) mem mem') (i : U16) :
    v.headAt mem' i = v.headAt mem i := by
  have hi : i.toNat % 128 < 128 := Nat.mod_lt _ (by decide)
  rw [headAt, headAt, availSlotAt_eq, mod_queueSize]
  exact readU16_kept h (by omega) (by omega) (by unfold availPart; omega) (by unfold availPart; omega)

theorem availIdx_kept (h : KeepsBytes (v.Part availPart) mem mem') :
    v.availIdx mem' = v.availIdx mem := by
  rw [availIdx, availIdx, availIdxAt_eq]
  exact readU16_kept h (by decide) (by decide) (by unfold availPart; omega) (by unfold availPart; omega)

end AvailRing

theorem usedHead_kept {v : VirtioBlk} {mem mem' : Memory} (h : KeepsBytes (v.Part usedPart) mem mem')
    (i : U16) : v.usedHead mem' i = v.usedHead mem i := by
  have hi : i.toNat % 128 < 128 := Nat.mod_lt _ (by decide)
  rw [usedHead, usedHead, usedEntryAt_eq, mod_queueSize]
  exact readU32_kept h (by omega) (by omega) fun j hj => by unfold usedPart; omega

theorem usedIdx_kept {v : VirtioBlk} {mem mem' : Memory} (h : KeepsBytes (v.Part usedPart) mem mem') :
    v.usedIdx mem' = v.usedIdx mem := by
  rw [usedIdx, usedIdx, usedIdxAt_eq]
  exact readU16_kept h (by decide) (by decide) (by unfold usedPart; omega) (by unfold usedPart; omega)

/-- The buffers of the request served next stay clear of both rings. -/
def Apart (q : VirtioBlk × Memory) : Prop :=
  ∀ b, BufferByte (chainFrom q.2 q.1.queueBase queueSize.toNat (q.1.headAt q.2 q.1.lastAvail)) b →
    ¬ q.1.Part ringPart b

/-- The heads of `n` rounds of the loop, as each round reads its own. -/
def servedHeads (n : Nat) (q : VirtioBlk × Memory) : List U16 :=
  (List.range n).map fun k => (serveNext^[k] q).1.headAt (serveNext^[k] q).2 (serveNext^[k] q).1.lastAvail

/-- The heads published and not served. -/
def pending (v : VirtioBlk) (mem : Memory) : List U16 :=
  (List.range (v.backlog mem)).map fun k => v.headAt mem (v.lastAvail + BitVec.ofNat 16 k)

theorem mod_ne {i : U16} {j k : Nat} (h : j < k) (hk : k < j + 128) :
    (i + BitVec.ofNat 16 j) % queueSize ≠ (i + BitVec.ofNat 16 k) % queueSize := by
  intro he
  have hmod := congrArg BitVec.toNat he
  simp only [mod_queueSize, BitVec.toNat_add, BitVec.toNat_ofNat] at hmod
  omega

/-- What `n` rounds of the loop have done. -/
structure Served (n : Nat) (q p : VirtioBlk × Memory) : Prop where
  pfn : p.1.queuePfn = q.1.queuePfn
  last : p.1.lastAvail = q.1.lastAvail + BitVec.ofNat 16 n
  slot : ∀ b, p.2.slot b = q.2.slot b
  avail : KeepsBytes (q.1.Part availPart) q.2 p.2
  idx : q.1.usedIdx p.2 = q.1.usedIdx q.2 + BitVec.ofNat 16 n
  entry : ∀ k < n, n ≤ k + 128 → q.1.usedHead p.2 (q.1.usedIdx q.2 + BitVec.ofNat 16 k) =
    u32 (q.1.headAt q.2 (q.1.lastAvail + BitVec.ofNat 16 k))
  older : ∀ i : U16, (∀ k < n, i % queueSize ≠ (q.1.usedIdx q.2 + BitVec.ofNat 16 k) % queueSize) →
    q.1.usedHead p.2 i = q.1.usedHead q.2 i

/-- A device with the queue at the same page reads the same rings. -/
theorem headAt_congr {v v' : VirtioBlk} (h : v'.queuePfn = v.queuePfn) (mem : Memory) (i : U16) :
    v'.headAt mem i = v.headAt mem i := by
  rw [headAt, headAt, availSlotAt, availSlotAt, queueBase, queueBase, h]

theorem usedIdx_congr {v v' : VirtioBlk} (h : v'.queuePfn = v.queuePfn) (mem : Memory) :
    v'.usedIdx mem = v.usedIdx mem := by
  rw [usedIdx, usedIdx, usedIdxAt, usedIdxAt, queueBase, queueBase, h]

theorem availIdx_congr {v v' : VirtioBlk} (h : v'.queuePfn = v.queuePfn) (mem : Memory) :
    v'.availIdx mem = v.availIdx mem := by
  rw [availIdx, availIdx, availIdxAt, availIdxAt, queueBase, queueBase, h]

theorem usedHead_congr {v v' : VirtioBlk} (h : v'.queuePfn = v.queuePfn) (mem : Memory) (i : U16) :
    v'.usedHead mem i = v.usedHead mem i := by
  rw [usedHead, usedHead, usedEntryAt, usedEntryAt, queueBase, queueBase, h]

theorem part_congr {v v' : VirtioBlk} (h : v'.queuePfn = v.queuePfn) (K : Nat → Prop) :
    v'.Part K = v.Part K := by
  funext b
  rw [Part, Part, queueBase, queueBase, h]

theorem serveNext_pfn (q : VirtioBlk × Memory) : (serveNext q).1.queuePfn = q.1.queuePfn := by
  rw [serveNext_eq]

theorem serveNext_last (q : VirtioBlk × Memory) : (serveNext q).1.lastAvail = q.1.lastAvail + 1 := by
  rw [serveNext_eq]

/-- One round serves one head. -/
theorem serveNext_pushed {q : VirtioBlk × Memory} (h : q.1.UsedBacked q.2) (ha : Apart q) :
    q.1.Pushed q.2 (serveNext q).2 (q.1.headAt q.2 q.1.lastAvail) := by
  have hreq : KeepsBytes (q.1.Part ringPart) q.2 (nextRequest q).2.2 := request_keeps _ _ _ _ ha
  have hused := hreq.mono (Q := q.1.Part usedPart)
    fun b ⟨k, hk, hb⟩ => ⟨k, .inr hk, hb⟩
  have havail := hreq.mono (Q := q.1.Part availPart) fun b ⟨k, hk, hb⟩ => ⟨k, .inl hk, hb⟩
  have hpush := pushUsed_pushed (h.congr hreq.slot) (q.1.headAt q.2 q.1.lastAvail) (nextRequest q).1
  have hslot (b : U64) := (hpush.slot b).trans (hreq.slot b)
  have hkept := havail.trans hpush.avail
  have hmem : (serveNext q).2 =
      pushUsed q.1 (nextRequest q).2.2 (q.1.headAt q.2 q.1.lastAvail) (nextRequest q).1 := by
    rw [serveNext_eq]
  rw [hmem]
  refine ⟨hslot, hkept, ?_, fun i => ?_⟩
  · rw [hpush.idx, usedIdx_kept hused]
  · rw [hpush.entry, usedIdx_kept hused, usedHead_kept hused]

/-- The loop, by induction on its rounds. -/
theorem served_iterate {q : VirtioBlk × Memory} (h : q.1.UsedBacked q.2) (n : Nat)
    (ha : ∀ k < n, Apart (serveNext^[k] q)) : Served n q (serveNext^[n] q) := by
  induction n with
  | zero =>
    refine ⟨rfl, ?_, fun _ => rfl, KeepsBytes.refl _ _, ?_, fun k hk => absurd hk k.not_lt_zero,
      fun _ _ => rfl⟩
    · exact (add_zero _).symm
    · exact (add_zero _).symm
  | succ n ih =>
    have hn := ih fun k hk => ha k (by omega)
    rw [Function.iterate_succ_apply']
    generalize hp : serveNext^[n] q = p at hn
    have hbacked : p.1.UsedBacked p.2 := by
      intro b hb
      rw [part_congr hn.pfn] at hb
      exact h.congr hn.slot b hb
    have hpush := serveNext_pushed hbacked (hp ▸ ha n (by omega))
    have havail := hpush.avail
    rw [part_congr hn.pfn] at havail
    have hidx : q.1.usedIdx (serveNext p).2 = q.1.usedIdx q.2 + BitVec.ofNat 16 (n + 1) := by
      rw [← usedIdx_congr hn.pfn, hpush.idx, usedIdx_congr hn.pfn, hn.idx, BitVec.ofNat_add,
        ← BitVec.add_assoc]
      rfl
    have hhead : p.1.headAt p.2 p.1.lastAvail = q.1.headAt q.2 (q.1.lastAvail + BitVec.ofNat 16 n) := by
      rw [headAt_congr hn.pfn, headAt_kept hn.avail, hn.last]
    have hentry (i : U16) : q.1.usedHead (serveNext p).2 i =
        if i % queueSize = (q.1.usedIdx q.2 + BitVec.ofNat 16 n) % queueSize then
          u32 (q.1.headAt q.2 (q.1.lastAvail + BitVec.ofNat 16 n))
        else q.1.usedHead p.2 i := by
      rw [← usedHead_congr hn.pfn, hpush.entry, usedIdx_congr hn.pfn, hn.idx, hhead,
        usedHead_congr hn.pfn]
    refine ⟨(serveNext_pfn p).trans hn.pfn, ?_, fun b => (hpush.slot b).trans (hn.slot b),
      hn.avail.trans havail, hidx, fun k hk hrecent => ?_, fun i hi => ?_⟩
    · rw [serveNext_last, hn.last, BitVec.ofNat_add, ← BitVec.add_assoc]
      rfl
    · rw [hentry]
      rcases Nat.lt_succ_iff_lt_or_eq.mp hk with hlt | heq
      · rw [if_neg (mod_ne hlt (by omega)), hn.entry k hlt (by omega)]
      · rw [if_pos (by rw [heq]), heq]
    · rw [hentry, if_neg (hi n (by omega)), hn.older i fun k hk => hi k (by omega)]

/-- The loop ends. -/
theorem serveWhile_eq (idx : U16) (fuel : Nat) (q : VirtioBlk × Memory)
    (h : (idx - q.1.lastAvail).toNat < fuel) :
    serveWhile idx fuel q = some (serveNext^[(idx - q.1.lastAvail).toNat] q) := by
  induction fuel generalizing q with
  | zero => exact absurd h (Nat.not_lt_zero _)
  | succ fuel ih =>
    rw [serveWhile]
    by_cases h0 : idx - q.1.lastAvail = 0
    · rw [if_neg (not_not_intro h0), h0]
      rfl
    · have hpos : 0 < (idx - q.1.lastAvail).toNat :=
        Nat.pos_of_ne_zero fun hz => h0 (BitVec.eq_of_toNat_eq hz)
      have hnext : (idx - (serveNext q).1.lastAvail).toNat + 1 = (idx - q.1.lastAvail).toNat := by
        have hsub : idx - (serveNext q).1.lastAvail = idx - q.1.lastAvail - 1 := by
          rw [serveNext_last, BitVec.sub_sub]
        have hone : (1 : U16).toNat = 1 := rfl
        have := (idx - q.1.lastAvail).isLt
        rw [hsub, BitVec.toNat_sub, hone]
        omega
      rw [if_pos h0, ih (serveNext q) (by omega), ← hnext, Function.iterate_succ_apply]

/-- Every head pending is served, in order; one used entry names each. -/
structure NotifyServes (v : VirtioBlk) (mem : Memory) : Prop where
  ends : ∀ fuel, v.backlog mem < fuel →
    serveWhile (v.availIdx mem) fuel (v, mem) = some (v.notify mem)
  heads : servedHeads (v.backlog mem) (v, mem) = v.pending mem
  last : (v.notify mem).1.lastAvail = v.availIdx mem
  rest : (v.notify mem).1.pending (v.notify mem).2 = []
  idx : v.usedIdx (v.notify mem).2 - v.usedIdx mem = v.availIdx mem - v.lastAvail
  entry : ∀ (k : Nat) (hk : k < (v.pending mem).length),
    v.usedHead (v.notify mem).2 (v.usedIdx mem + BitVec.ofNat 16 k) = u32 ((v.pending mem).get ⟨k, hk⟩)

/-- The buffers of every request of the next notify stay clear of the rings. -/
def AllApart (v : VirtioBlk) (mem : Memory) : Prop :=
  ∀ k < v.backlog mem, Apart (serveNext^[k] (v, mem))

section Notify

variable {v : VirtioBlk} {mem : Memory}

theorem pending_length (v : VirtioBlk) (mem : Memory) : (v.pending mem).length = v.backlog mem := by
  rw [pending, List.length_map, List.length_range]

theorem ofNat_backlog (v : VirtioBlk) (mem : Memory) :
    BitVec.ofNat 16 (v.backlog mem) = v.availIdx mem - v.lastAvail := by
  rw [backlog, BitVec.ofNat_toNat, BitVec.setWidth_eq]

theorem notify_served (h : v.UsedBacked mem) (on : v.queuePfn ≠ 0) (ha : v.AllApart mem) :
    Served (v.backlog mem) (v, mem) (v.notify mem) := by
  rw [notify_eq v mem on]
  exact served_iterate (q := (v, mem)) h (v.backlog mem) ha

theorem servedHeads_eq (h : v.UsedBacked mem) (ha : v.AllApart mem) :
    servedHeads (v.backlog mem) (v, mem) = v.pending mem := by
  refine List.map_congr_left fun k hk => ?_
  have hlt := List.mem_range.mp hk
  have hserved := served_iterate (q := (v, mem)) h k fun j hj => ha j (by omega)
  rw [headAt_congr hserved.pfn, headAt_kept hserved.avail, hserved.last]

theorem notifyServes (h : v.UsedBacked mem) (on : v.queuePfn ≠ 0) (room : v.backlog mem ≤ 128)
    (ha : v.AllApart mem) : v.NotifyServes mem := by
  have hserved := notify_served h on ha
  have hlast : (v.notify mem).1.lastAvail = v.availIdx mem := by
    rw [hserved.last, ofNat_backlog]
    exact add_sub_cancel v.lastAvail (v.availIdx mem)
  have hends (fuel : Nat) (hf : v.backlog mem < fuel) :
      serveWhile (v.availIdx mem) fuel (v, mem) = some (v.notify mem) := by
    rw [notify_eq v mem on]
    exact serveWhile_eq _ fuel (v, mem) hf
  refine ⟨hends, servedHeads_eq h ha, hlast, ?_, ?_, fun k hk => ?_⟩
  · have hnone : (v.notify mem).1.backlog (v.notify mem).2 = 0 := by
      rw [backlog, availIdx_congr hserved.pfn, availIdx_kept hserved.avail, hlast, BitVec.sub_self]
      rfl
    rw [pending, hnone]
    rfl
  · have hidx := hserved.idx
    dsimp only at hidx
    rw [hidx, ofNat_backlog]
    exact add_sub_cancel_left (v.usedIdx mem) (v.availIdx mem - v.lastAvail)
  · have hlt : k < v.backlog mem := by rwa [pending_length] at hk
    rw [hserved.entry k hlt (by omega)]
    simp [pending]

end Notify

end VirtioBlk

/-! ## Runs -/

open VirtioBlk Memory

/-- The device and the guest's memory, with what the driver has published since it set the queue's
page, what the device has served of it, the used index it started from, and whether a request
completed since the ISR was read or the device reset. -/
structure Queue where
  dev : VirtioBlk
  mem : Memory
  published : List U16 := []
  done : List U16 := []
  start : U16 := 0
  completed : Bool := false

namespace Queue

def notified (q : Queue) (value : U32) : Queue :=
  let n := if q.dev.queuePfn = 0 then 0 else q.dev.backlog q.mem
  { q with
    dev := (q.dev.write 0x10 value q.mem).1
    mem := (q.dev.write 0x10 value q.mem).2
    done := q.done ++ servedHeads n (q.dev, q.mem)
    completed := q.completed || decide (0 < n) }

def setUp (q : Queue) (pfn : U32) : Queue :=
  let dev := (q.dev.write 0x08 pfn q.mem).1
  { q with dev, published := dev.pending q.mem, done := [], start := dev.usedIdx q.mem }

/-- The driver stores to memory, other than the used ring, and publishes `heads`. -/
structure Publishes (v : VirtioBlk) (mem mem' : Memory) (heads : List U16) : Prop where
  slot : ∀ b, mem'.slot b = mem.slot b
  used : KeepsBytes (v.Part usedPart) mem mem'
  idx : v.availIdx mem' = v.availIdx mem + BitVec.ofNat 16 heads.length
  old : ∀ k < v.backlog mem,
    v.headAt mem' (v.lastAvail + BitVec.ofNat 16 k) = v.headAt mem (v.lastAvail + BitVec.ofNat 16 k)
  new : ∀ (k : Nat) (hk : k < heads.length),
    v.headAt mem' (v.availIdx mem + BitVec.ofNat 16 k) = heads.get ⟨k, hk⟩
  room : v.backlog mem + heads.length ≤ 128

/-- One step of the driver. -/
inductive Step (q : Queue) : Queue → Prop
  | publish (mem' : Memory) (heads : List U16) (on : q.dev.queuePfn ≠ 0)
      (h : Publishes q.dev q.mem mem' heads) :
      Step q { q with mem := mem', published := q.published ++ heads }
  | store (mem' : Memory) (off : q.dev.queuePfn = 0) : Step q { q with mem := mem' }
  | notify (value : U32) (h : q.dev.queuePfn ≠ 0 → q.dev.AllApart q.mem) : Step q (q.notified value)
  | setUp (pfn : U32)
      (h : pfn ≠ 0 → (q.setUp pfn).dev.UsedBacked q.mem ∧ (q.setUp pfn).dev.backlog q.mem ≤ 128) :
      Step q (q.setUp pfn)
  | reset : Step q
      { q with
        dev := (q.dev.write 0x12 0 q.mem).1, published := [], done := [], completed := false }
  | write (offset : U16) (value : U32)
      (h : offset ≠ 0x10 ∧ offset ≠ 0x08 ∧ (offset = 0x12 → value ≠ 0)) :
      Step q { q with dev := (q.dev.write offset value q.mem).1 }
  | read (offset : U16) (size : Nat) :
      Step q
        { q with
          dev := (q.dev.read offset size).2
          completed := if offset = 0x13 then false else q.completed }

/-- A device as it starts, with any image. -/
def Fresh (q : Queue) : Prop := ∃ disk mem, q = { dev := { disk }, mem }

/-- The heads published are those served and those pending, in order; the used ring names those
served. -/
structure Rings (q : Queue) : Prop where
  backed : q.dev.UsedBacked q.mem
  room : q.dev.backlog q.mem ≤ 128
  heads : q.published = q.done ++ q.dev.pending q.mem
  idx : q.dev.usedIdx q.mem = q.start + BitVec.ofNat 16 q.done.length
  entry : ∀ (j : Nat) (hj : j < q.done.length), q.done.length ≤ j + 128 →
    q.dev.usedHead q.mem (q.start + BitVec.ofNat 16 j) = u32 (q.done.get ⟨j, hj⟩)

/-- The interrupt line is ISR bit 0, and no completion is without it. -/
structure Line (q : Queue) : Prop where
  isr : q.dev.irq = test q.dev.isr 1
  set : q.completed → q.dev.irq

/-- What every state of a run keeps. -/
structure Inv (q : Queue) : Prop where
  rings : q.dev.queuePfn ≠ 0 → q.Rings
  line : q.Line

theorem Fresh.inv {q : Queue} (h : q.Fresh) : q.Inv := by
  obtain ⟨disk, mem, rfl⟩ := h
  have hline : false = test (0 : U8) 1 := by decide
  exact ⟨fun on => absurd rfl on, hline, fun hc => absurd hc Bool.false_ne_true⟩

/-! ### The interrupt line -/

theorem test_or_one (isr : U8) : test (isr ||| 1) 1 = true := by
  revert isr
  decide

theorem serve_line (n : Nat) (q : VirtioBlk × Memory) (h : q.1.irq = test q.1.isr 1) :
    (serveNext^[n] q).1.irq = test (serveNext^[n] q).1.isr 1 ∧
      ((q.1.irq ∨ 0 < n) → (serveNext^[n] q).1.irq) := by
  induction n with
  | zero => exact ⟨h, fun hor => hor.resolve_right (Nat.lt_irrefl 0)⟩
  | succ n ih =>
    have hset : (serveNext (serveNext^[n] q)).1.irq = true := by rw [serveNext_eq]
    have hisr : test (serveNext (serveNext^[n] q)).1.isr 1 = true := by
      rw [serveNext_eq]
      exact test_or_one _
    rw [Function.iterate_succ_apply']
    exact ⟨hset.trans hisr.symm, fun _ => hset⟩

theorem notify_line (q : Queue) (value : U32) (h : q.Line) : (q.notified value).Line := by
  have hw : q.dev.write 0x10 value q.mem = q.dev.notify q.mem := rfl
  unfold notified
  rw [hw]
  by_cases h0 : q.dev.queuePfn = 0
  · have hn : q.dev.notify q.mem = (q.dev, q.mem) := by rw [notify, if_pos h0]
    simp only [hn, if_pos h0]
    exact ⟨h.isr, fun hc => h.set (by simpa using hc)⟩
  · simp only [notify_eq _ _ h0, if_neg h0]
    obtain ⟨hisr, hset⟩ := serve_line (q.dev.backlog q.mem) (q.dev, q.mem) h.isr
    generalize q.dev.backlog q.mem = n at hisr hset ⊢
    generalize serveNext^[n] (q.dev, q.mem) = p at hisr hset ⊢
    refine ⟨hisr, fun hc => hset ?_⟩
    rcases Bool.or_eq_true_iff.mp hc with hc | hc
    · exact .inl (h.set hc)
    · exact .inr (of_decide_eq_true hc)

theorem Step.line {q q' : Queue} (h : q.Step q') (hq : q.Line) : q'.Line := by
  cases h with
  | publish | store | setUp => exact ⟨hq.isr, hq.set⟩
  | notify value => exact notify_line q value hq
  | reset =>
    have hline : false = test (0 : U8) 1 := by decide
    exact ⟨hline, fun hc => absurd hc Bool.false_ne_true⟩
  | write offset value h =>
    have hkeep : (q.dev.write offset value q.mem).1.irq = q.dev.irq ∧
        (q.dev.write offset value q.mem).1.isr = q.dev.isr := by
      unfold VirtioBlk.write
      rw [if_neg h.1, if_neg h.2.1]
      by_cases h12 : offset = 0x12
      · dsimp only
        rw [if_neg (h.2.2 h12)]
        split_ifs <;> exact ⟨rfl, rfl⟩
      · rw [if_neg h12]
        split_ifs <;> exact ⟨rfl, rfl⟩
    exact ⟨by rw [hkeep.1, hkeep.2]; exact hq.isr, fun hc => hkeep.1.trans (hq.set hc)⟩
  | read offset size =>
    by_cases h13 : offset = 0x13
    · subst h13
      have hline : false = test (0 : U8) 1 := by decide
      exact ⟨hline, fun hc => absurd hc Bool.false_ne_true⟩
    · have hkeep : (q.dev.read offset size).2 = q.dev := by
        unfold VirtioBlk.read
        rw [if_neg h13]
        split_ifs <;> rfl
      rw [hkeep, if_neg h13]
      exact ⟨hq.isr, hq.set⟩

/-! ### The rings -/

theorem backlog_congr {v v' : VirtioBlk} {mem mem' : Memory} (hp : v'.queuePfn = v.queuePfn)
    (hl : v'.lastAvail = v.lastAvail) (ha : v.availIdx mem' = v.availIdx mem) :
    v'.backlog mem' = v.backlog mem := by
  rw [backlog, backlog, availIdx_congr hp, ha, hl]

/-- A device with the same queue page and position has the same rings. -/
theorem Rings.congr {q q' : Queue} (h : q.Rings) (hp : q'.dev.queuePfn = q.dev.queuePfn)
    (hl : q'.dev.lastAvail = q.dev.lastAvail) (hm : q'.mem = q.mem)
    (hg : q'.published = q.published ∧ q'.done = q.done ∧ q'.start = q.start) : q'.Rings := by
  obtain ⟨hpub, hdone, hstart⟩ := hg
  have hback : q'.dev.backlog q'.mem = q.dev.backlog q.mem := backlog_congr hp hl (by rw [hm])
  have hpend : q'.dev.pending q'.mem = q.dev.pending q.mem := by
    rw [pending, pending, hback, hl, hm]
    exact List.map_congr_left fun k _ => headAt_congr hp _ _
  refine ⟨fun b hb => ?_, hback.le.trans h.room, ?_, ?_, fun j hj hrecent => ?_⟩
  · rw [part_congr hp] at hb
    rw [hm]
    exact h.backed b hb
  · rw [hpub, hdone, hpend]
    exact h.heads
  · rw [hm, hdone, hstart, usedIdx_congr hp]
    exact h.idx
  · have hlt : j < q.done.length := hdone ▸ hj
    have hget : q'.done.get ⟨j, hj⟩ = q.done.get ⟨j, hlt⟩ := List.get_of_eq hdone ⟨j, hj⟩
    rw [hm, hstart, usedHead_congr hp, hget]
    exact h.entry j hlt (hdone ▸ hrecent)

theorem publish_rings {q : Queue} {mem' : Memory} {heads : List U16} (hq : q.Rings)
    (h : Publishes q.dev q.mem mem' heads) :
    Rings { q with mem := mem', published := q.published ++ heads } := by
  have hroom := h.room
  have hback : q.dev.backlog mem' = q.dev.backlog q.mem + heads.length := by
    have hlt := (q.dev.availIdx q.mem - q.dev.lastAvail).isLt
    have hsub : q.dev.availIdx q.mem + BitVec.ofNat 16 heads.length - q.dev.lastAvail =
        q.dev.availIdx q.mem - q.dev.lastAvail + BitVec.ofNat 16 heads.length :=
      add_sub_right_comm _ _ _
    unfold backlog at hroom ⊢
    rw [h.idx, hsub, BitVec.toNat_add, BitVec.toNat_ofNat]
    omega
  have hpend : q.dev.pending mem' = q.dev.pending q.mem ++ heads := by
    refine List.ext_get ?_ fun k hk hk' => ?_
    · rw [List.length_append, pending_length, pending_length, hback]
    · rw [pending_length, hback] at hk
      by_cases hlt : k < q.dev.backlog q.mem
      · have hleft : k < (q.dev.pending q.mem).length := by rwa [pending_length]
        simp only [List.get_eq_getElem, List.getElem_append_left hleft]
        simpa [pending] using h.old k hlt
      · have hright : (q.dev.pending q.mem).length ≤ k := by
          rw [pending_length]
          omega
        have hnew := h.new (k - q.dev.backlog q.mem) (by omega)
        have hpos : q.dev.lastAvail + BitVec.ofNat 16 k =
            q.dev.availIdx q.mem + BitVec.ofNat 16 (k - q.dev.backlog q.mem) := by
          have hk : k = q.dev.backlog q.mem + (k - q.dev.backlog q.mem) := by omega
          conv_lhs => rw [hk]
          rw [BitVec.ofNat_add, ofNat_backlog, ← BitVec.add_assoc, add_sub_cancel]
        simp only [List.get_eq_getElem, List.getElem_append_right hright, pending_length]
        simpa [pending, hpos] using hnew
  refine ⟨hq.backed.congr h.slot, ?_, ?_, ?_, fun j hj hrecent => ?_⟩
  · dsimp only
    rw [hback]
    exact hroom
  · dsimp only
    rw [hpend, hq.heads, List.append_assoc]
  · exact (usedIdx_kept h.used).trans hq.idx
  · exact (usedHead_kept h.used _).trans (hq.entry j hj hrecent)

theorem notify_rings {q : Queue} (value : U32) (hq : q.Rings) (on : q.dev.queuePfn ≠ 0)
    (ha : q.dev.AllApart q.mem) : (q.notified value).Rings := by
  have hserved := notify_served hq.backed on ha
  have hnotify := notifyServes hq.backed on hq.room ha
  have hw : q.dev.write 0x10 value q.mem = q.dev.notify q.mem := rfl
  have hroom := hq.room
  have hlen := pending_length q.dev q.mem
  unfold notified
  rw [hw]
  simp only [if_neg on, hnotify.heads]
  refine ⟨fun b hb => ?_, ?_, ?_, ?_, fun j hj hrecent => ?_⟩
  · rw [part_congr hserved.pfn] at hb
    exact hq.backed.congr hserved.slot b hb
  · rw [← pending_length, hnotify.rest]
    exact Nat.zero_le _
  · rw [hnotify.rest, List.append_nil]
    exact hq.heads
  · have hidx := hserved.idx
    dsimp only at hidx ⊢
    rw [usedIdx_congr hserved.pfn, hidx, hq.idx, List.length_append, hlen, BitVec.add_assoc,
      ← BitVec.ofNat_add]
  · simp only [List.length_append, hlen] at hj hrecent
    simp only [usedHead_congr hserved.pfn, List.get_eq_getElem]
    by_cases hlt : j < q.done.length
    · rw [List.getElem_append_left hlt]
      refine (hserved.older _ fun k hk => ?_).trans (hq.entry j hlt (by omega))
      dsimp only
      rw [hq.idx, BitVec.add_assoc, ← BitVec.ofNat_add]
      exact mod_ne (by omega) (by omega)
    · have hright : q.done.length ≤ j := by omega
      have hentry := hnotify.entry (j - q.done.length) (by omega)
      have hsum : q.done.length + (j - q.done.length) = j := by omega
      rw [List.getElem_append_right hright]
      rw [hq.idx, BitVec.add_assoc, ← BitVec.ofNat_add, hsum, usedHead_congr rfl] at hentry
      exact hentry

theorem setUp_rings (q : Queue) (pfn : U32)
    (h : (q.setUp pfn).dev.UsedBacked q.mem ∧ (q.setUp pfn).dev.backlog q.mem ≤ 128) :
    (q.setUp pfn).Rings where
  backed := h.1
  room := h.2
  heads := by
    unfold setUp
    dsimp only
    rw [List.nil_append]
  idx := by
    unfold setUp
    dsimp only
    exact (BitVec.add_zero _).symm
  entry j hj := absurd hj (Nat.not_lt_zero j)

theorem Step.rings {q q' : Queue} (h : q.Step q') (hq : q.dev.queuePfn ≠ 0 → q.Rings)
    (on : q'.dev.queuePfn ≠ 0) : q'.Rings := by
  cases h with
  | publish mem' heads on h => exact publish_rings (hq on) h
  | store mem' off => exact absurd off on
  | notify value h =>
    by_cases h0 : q.dev.queuePfn = 0
    · have hn : (q.notified value).dev = q.dev := by
        have hw : q.dev.write 0x10 value q.mem = q.dev.notify q.mem := rfl
        rw [notified, hw, VirtioBlk.notify, if_pos h0]
      exact absurd (hn ▸ h0) on
    · exact notify_rings value (hq h0) h0 (h h0)
  | setUp pfn h => exact setUp_rings q pfn (h on)
  | reset => exact absurd rfl on
  | write offset value h =>
    have hkeep : (q.dev.write offset value q.mem).1.queuePfn = q.dev.queuePfn ∧
        (q.dev.write offset value q.mem).1.lastAvail = q.dev.lastAvail := by
      unfold VirtioBlk.write
      rw [if_neg h.1, if_neg h.2.1]
      by_cases h12 : offset = 0x12
      · dsimp only
        rw [if_neg (h.2.2 h12)]
        split_ifs <;> exact ⟨rfl, rfl⟩
      · rw [if_neg h12]
        split_ifs <;> exact ⟨rfl, rfl⟩
    exact (hq (hkeep.1 ▸ on)).congr hkeep.1 hkeep.2 rfl ⟨rfl, rfl, rfl⟩
  | read offset size =>
    have hkeep : (q.dev.read offset size).2.queuePfn = q.dev.queuePfn ∧
        (q.dev.read offset size).2.lastAvail = q.dev.lastAvail := by
      unfold VirtioBlk.read
      split_ifs <;> exact ⟨rfl, rfl⟩
    exact (hq (hkeep.1 ▸ on)).congr hkeep.1 hkeep.2 rfl ⟨rfl, rfl, rfl⟩

theorem Step.inv {q q' : Queue} (h : q.Step q') (hq : q.Inv) : q'.Inv :=
  ⟨h.rings hq.rings, h.line hq.line⟩

theorem run_inv {q q' : Queue} (h : Relation.ReflTransGen Step q q') (hq : q.Inv) : q'.Inv := by
  induction h with
  | refl => exact hq
  | tail _ hstep ih => exact hstep.inv ih

/-- In every state a driver reaches, the heads published have been served once each and in order but
for those pending, the used ring names the last of them, the interrupt line is ISR bit 0, and a
notify ends with nothing pending. -/
theorem virtqueue_run {q q' : Queue} (h : q.Fresh) (hrun : Relation.ReflTransGen Step q q') :
    q'.Inv ∧ (q'.dev.queuePfn ≠ 0 → q'.dev.AllApart q'.mem → q'.dev.NotifyServes q'.mem) := by
  have hinv := run_inv hrun h.inv
  exact ⟨hinv, fun on ha =>
    notifyServes (hinv.rings on).backed on (hinv.rings on).room ha⟩

/-! ### A run, and a page half outside RAM -/

/-- One megabyte of RAM. -/
def blankRam : Memory := Memory.withSize 0 Memory.empty_le

/-- A queue on page 2 whose used index is about to wrap, and where descriptor 3 follows
descriptor 1. -/
def queueRam : Memory :=
  ((blankRam.writeU16 (({ queuePfn := 2 } : VirtioBlk).usedIdxAt) 0xFFFE).writeU16 0x201C 1).writeU16
    0x201E 3

/-- The driver's store `k` bytes into the queue. -/
def driverStore (mem : Memory) (k : Nat) (x : U16) : Memory :=
  mem.writeU16 (({ queuePfn := 2 } : VirtioBlk).queueBase + BitVec.ofNat 64 k) x

theorem driverStore_keeps (mem : Memory) {k : Nat} (hk : k + 2 ≤ 4096) (h2 : 2 ∣ k) (x : U16) :
    KeepsBytes (({ queuePfn := 2 } : VirtioBlk).Part usedPart) mem (driverStore mem k x) := by
  have hst := stored16 (v := { queuePfn := 2 }) mem (k := k) (by omega) h2 x
  exact keeps_stored hst (by omega) (by decide) fun j hj => by unfold usedPart at hj; omega

/-- Heads 1, 0 and 2 in the first slots of the available ring, and its index past them. -/
def threeHeads : Memory :=
  driverStore (driverStore (driverStore (driverStore queueRam 2052 1) 2054 0) 2056 2) 2050 3

theorem threeHeads_publishes : Publishes { queuePfn := 2 } queueRam threeHeads [1, 0, 2] := by
  have hkeeps : KeepsBytes (({ queuePfn := 2 } : VirtioBlk).Part usedPart) queueRam threeHeads :=
    (((driverStore_keeps _ (by decide) (by decide) _).trans
      (driverStore_keeps _ (by decide) (by decide) _)).trans
      (driverStore_keeps _ (by decide) (by decide) _)).trans
      (driverStore_keeps _ (by decide) (by decide) _)
  have hback : VirtioBlk.backlog { queuePfn := 2 } queueRam = 0 := by decide +kernel
  have hheads : ∀ k : Fin 3, VirtioBlk.headAt { queuePfn := 2 } threeHeads
      (VirtioBlk.availIdx { queuePfn := 2 } queueRam + BitVec.ofNat 16 k) = [1, 0, 2].get k := by
    decide +kernel
  refine ⟨hkeeps.slot, hkeeps, by decide +kernel, fun k hk => ?_, fun k hk => hheads ⟨k, hk⟩, ?_⟩
  · omega
  · rw [hback]
    decide

theorem queueRam_usedBacked : VirtioBlk.UsedBacked { queuePfn := 2 } queueRam := by
  rintro b ⟨k, hk, rfl⟩
  have hadd := queueBase_add { queuePfn := 2 } (k := k) (by unfold usedPart at hk; omega)
  have hpfn : (2 : U32).toNat = 2 := rfl
  have hlow : queueRam.lowSize = 2 ^ 20 := by decide +kernel
  unfold usedPart at hk
  right
  rw [slot, if_pos (by rw [hadd, hlow, hpfn]; omega)]
  rfl

theorem threeHeads_apart : VirtioBlk.AllApart { queuePfn := 2 } threeHeads := by
  intro k hk
  have hback : VirtioBlk.backlog { queuePfn := 2 } threeHeads = 3 := by decide +kernel
  rw [hback] at hk
  have hone (c : List (U64 × U32 × U16)) (hc : c.length = 1) (b : U64) : ¬ BufferByte c b := by
    obtain ⟨d, rfl⟩ := List.length_eq_one_iff.mp hc
    exact id
  intro b hb
  interval_cases k
  · have hchain : chainFrom threeHeads (queueBase { queuePfn := 2 }) queueSize.toNat
        (headAt { queuePfn := 2 } threeHeads 0) = [(0, 0, 1), (0, 0, 0)] := by decide +kernel
    have hb' : BufferByte [(0, 0, 1), (0, 0, 0)] b := hchain ▸ hb
    obtain rfl : b = 0 := hb'.elim id fun ⟨e, he, _⟩ => absurd he List.not_mem_nil
    rintro ⟨j, hj, h0⟩
    have hlt : j < 2 ^ 32 := by
      unfold ringPart availPart usedPart at hj
      omega
    have hadd : (0 : U64).toNat = (2 : U32).toNat * 4096 + j :=
      (congrArg BitVec.toNat h0).trans (queueBase_add { queuePfn := 2 } hlt)
    have hpfn : (2 : U32).toNat = 2 := rfl
    have hzero : (0 : U64).toNat = 0 := rfl
    omega
  · exact absurd hb (hone _ (by decide +kernel) b)
  · exact absurd hb (hone _ (by decide +kernel) b)

/-- After that run the device has served all three, and the used index has wrapped. -/
theorem threeHeads_served : ∃ q', Relation.ReflTransGen Step { dev := {}, mem := queueRam } q' ∧
    q'.done = [1, 0, 2] ∧ q'.dev.usedIdx q'.mem = 1 ∧ q'.Inv ∧
      (q'.dev.queuePfn ≠ 0 → q'.dev.AllApart q'.mem → q'.dev.NotifyServes q'.mem) := by
  have hback : VirtioBlk.backlog { queuePfn := 2 } queueRam = 0 := by decide +kernel
  have hset := Step.setUp (q := { dev := {}, mem := queueRam }) 2 fun _ => ⟨queueRam_usedBacked, by
    rw [show Queue.dev _ = ({ queuePfn := 2 } : VirtioBlk) from rfl, hback]; omega⟩
  have hpub := Step.publish (q := Queue.setUp { dev := {}, mem := queueRam } 2) threeHeads [1, 0, 2]
    (show (2 : U32) ≠ 0 by decide) threeHeads_publishes
  have hnotify := Step.notify
    (q := { Queue.setUp { dev := {}, mem := queueRam } 2 with
      mem := threeHeads
      published := (Queue.setUp { dev := {}, mem := queueRam } 2).published ++ [1, 0, 2] }) 0
    fun _ => threeHeads_apart
  have hrun := ((Relation.ReflTransGen.single hset).tail hpub).tail hnotify
  exact ⟨_, hrun, by decide +kernel, by decide +kernel, virtqueue_run ⟨#[], queueRam, rfl⟩ hrun⟩

/-- The last page of RAM: its used ring is past the end, and the head served there is not reported. -/
theorem used_dropped :
    ∃ (v : VirtioBlk) (mem : Memory), v.queuePfn ≠ 0 ∧ v.backlog mem = 1 ∧ v.AllApart mem ∧
      v.usedIdx (v.notify mem).2 - v.usedIdx mem ≠ v.availIdx mem - v.lastAvail := by
  refine ⟨{ queuePfn := 255 }, blankRam.writeU16 (availIdxAt { queuePfn := 255 }) 1, by decide,
    by decide +kernel, ?_, by decide +kernel⟩
  intro k hk
  have hback : VirtioBlk.backlog { queuePfn := 255 }
      (blankRam.writeU16 (availIdxAt { queuePfn := 255 }) 1) = 1 := by decide +kernel
  have h0 : k = 0 := by omega
  subst h0
  have hchain : chainFrom (blankRam.writeU16 (availIdxAt { queuePfn := 255 }) 1)
      (queueBase { queuePfn := 255 }) queueSize.toNat
      (headAt { queuePfn := 255 } (blankRam.writeU16 (availIdxAt { queuePfn := 255 }) 1) 0) =
        [(0, 0, 0)] := by decide +kernel
  intro b hb
  have hb' : BufferByte [(0, 0, 0)] b := hchain ▸ hb
  exact hb'.elim

end Queue

end X86Emu
