import X86Emu.DataArea
import X86Emu.SseAtomic

/-!
# Bytes at linear addresses

The page-by-page loops of FXSAVE and FXRSTOR, over a data area: one stores each byte at its own
address, the other reads it back.
-/
namespace X86Emu

open StateRules

/-! ## Stores to a page -/

namespace Cpu

theorem onPage_toNat (q l : U64) : (q <<< 12 ||| l &&& 0xFFF : U64).toNat % 4096 = l.toNat % 4096 := by
  rw [or_offset, BitVec.toNat_add, BitVec.toNat_shiftLeft, offset_toNat, Nat.shiftLeft_eq]
  omega

variable {s : Cpu} {l p : U64}

/-- Stores to a page go to one frame. -/
theorem storeTarget_page (h : s.storeTarget l = some p) :
    ∃ q : U64, ∀ x : U64, x >>> 12 = l >>> 12 →
      s.storeTarget x = some (q <<< 12 ||| x &&& 0xFFF) := by
  unfold storeTarget at h
  split at h
  · cases h
  rename_i hc
  split at h
  · rename_i hpg
    refine ⟨l >>> 12, fun x hx => ?_⟩
    have hself : x = l >>> 12 <<< 12 ||| x &&& 0xFFF := by
      rw [← hx]
      exact (onPage_self rfl).symm
    rw [storeTarget, if_neg (by rw [canonical_samePage hx]; exact hc), if_pos hpg, ← hself]
  rename_i hpg
  have hw : s.Walked l := ⟨Bool.eq_false_iff.mpr hc, by simpa using hpg⟩
  split at h
  · rename_i hhit
    dsimp only at h
    split at h
    · rename_i hallowed
      refine ⟨(s.tlb (tlbIndex l)).ppage, fun x hx => ?_⟩
      rw [storeTarget_hit (hw.samePage hx) ((tlbHit_samePage hx).mpr hhit), tlbIndex_samePage hx,
        if_pos hallowed]
    · cases h
  · rename_i hmiss
    split at h
    · cases h
    · rename_i map hmap
      split at h
      · rename_i hallowed
        refine ⟨map.phys >>> 12, fun x hx => ?_⟩
        have hmap' : s.walkOf x = some (PagingMode.served map x) := by
          rw [walkOf_samePage hw.paging hx, hmap]
          rfl
        rw [storeTarget_walked (hw.samePage hx) ((tlbHit_samePage hx).not.mpr hmiss) hmap']
        exact if_pos hallowed
      · cases h

variable {n : Nat} {lin phys : Nat → U64}

theorem DataArea.phys_run (h : s.DataArea n lin phys) (hlin : Consecutive n lin) {i k : Nat}
    (hn : i + k < n) (hk : (lin i).toNat % 4096 + k < 4096) :
    phys (i + k) = phys i + BitVec.ofNat 64 k := by
  obtain ⟨q, hq⟩ := storeTarget_page (h.target i (by omega))
  have hi := (h.target i (by omega)).symm.trans (hq _ rfl)
  have hik := (h.target (i + k) hn).symm.trans (hq _ (by rw [hlin.run i k hn hk]; exact page_add hk))
  rw [Option.some.inj hi, Option.some.inj hik, hlin.run i k hn hk, onPage_add q hk]

theorem DataArea.phys_inj (h : s.DataArea n lin phys) (hlin : Consecutive n lin) {i j : Nat}
    (hi : i < n) (hj : j < n) (he : phys i = phys j) : i = j := by
  have hoff {k : Nat} (hk : k < n) : (phys k).toNat % 4096 = (lin k).toNat % 4096 := by
    obtain ⟨q, hq⟩ := storeTarget_page (h.target k hk)
    rw [Option.some.inj ((h.target k hk).symm.trans (hq _ rfl)), onPage_toNat]
  refine hlin.offset i hi j hj ?_
  rw [← hoff hi, ← hoff hj, he]

end Cpu

/-! ## Stores of single bytes -/

namespace Memory

/-- Bytes stored at places of their own are there afterwards, where there is memory, and nothing else
has changed. -/
theorem stored_each (m : Memory) (p : Nat → U64) (f : Nat → U8) : ∀ n,
    (∀ i < n, ∀ j < n, p i = p j → i = j) →
    (∀ b, ((List.range n).foldl (fun m k => m.writeU8 (p k) (f k)) m).slot b = m.slot b) ∧
      (∀ k < n, m.backed (p k) →
        ((List.range n).foldl (fun m k => m.writeU8 (p k) (f k)) m).readU8 (p k) = f k) ∧
      ∀ b, (∀ k < n, b ≠ p k) →
        ((List.range n).foldl (fun m k => m.writeU8 (p k) (f k)) m).readU8 b = m.readU8 b
  | 0, _ => ⟨fun _ => rfl, nofun, fun _ _ => rfl⟩
  | n + 1, hp => by
    obtain ⟨hslot, hin, hout⟩ := stored_each m p f n fun i hi j hj => hp i (by omega) j (by omega)
    rw [List.range_succ, List.foldl_append]
    generalize (List.range n).foldl (fun m k => m.writeU8 (p k) (f k)) m = m' at hslot hin hout ⊢
    refine ⟨fun b => (slot_writeU8 ..).trans (hslot b), fun k hk hb => ?_, fun b hk => ?_⟩
    · show (m'.writeU8 (p n) (f n)).readU8 (p k) = f k
      rw [readU8_writeU8]
      by_cases hkn : k = n
      · rw [hkn] at hb ⊢
        rw [if_pos ⟨rfl, (backed_congr (hslot _)).mpr hb⟩]
      · rw [if_neg fun h => hkn (hp k hk n (by omega) h.1)]
        exact hin k (by omega) hb
    · show (m'.writeU8 (p n) (f n)).readU8 b = m.readU8 b
      rw [readU8_writeU8, if_neg fun h => hk n (by omega) h.1]
      exact hout b fun k hk' => hk k (by omega)

end Memory

/-! ## Logical addresses -/

namespace Cpu

/-- The linear addresses of consecutive offsets follow each other, around 2^32 or 2^64. -/
theorem linearAddr_add (s : Cpu) (r : SegReg) (off : U64) :
    ∃ b m : Nat, (m = 2 ^ 32 ∨ m = 2 ^ 64) ∧
      ∀ k < 4096, (s.linearAddr r (off + BitVec.ofNat 64 k)).toNat = (b + k) % m := by
  have hlow (x : U64) : (x &&& 0xFFFFFFFF).toNat = x.toNat % 2 ^ 32 := by
    rw [BitVec.toNat_and]
    exact Nat.and_two_pow_sub_one_eq_mod _ 32
  have hwide (x : U64) (k : Nat) (hk : k < 4096) :
      (x + (off + BitVec.ofNat 64 k)).toNat = (x.toNat + off.toNat + k) % 2 ^ 64 := by
    rw [BitVec.toNat_add, BitVec.toNat_add, BitVec.toNat_ofNat]
    omega
  have hnarrow (x : U64) (k : Nat) (hk : k < 4096) :
      ((x + (off + BitVec.ofNat 64 k)) &&& 0xFFFFFFFF).toNat =
        (x.toNat + off.toNat + k) % 2 ^ 32 := by
    rw [hlow, hwide x k hk]
    omega
  unfold linearAddr
  split
  · have hoff (k : Nat) (hk : k < 4096) :
        (off + BitVec.ofNat 64 k).toNat = (off.toNat + k) % 2 ^ 64 := by
      rw [BitVec.toNat_add, BitVec.toNat_ofNat]
      omega
    cases r with
    | fs => exact ⟨_, _, .inr rfl, hwide s.fsBase⟩
    | gs => exact ⟨_, _, .inr rfl, hwide s.gsBase⟩
    | es | cs | ss | ds => exact ⟨_, _, .inr rfl, hoff⟩
  · split
    · exact ⟨_, _, .inl rfl, hnarrow _⟩
    · exact ⟨_, _, .inl rfl, hnarrow _⟩

theorem consecutive_linearAddr (s : Cpu) (r : SegReg) (off : U64) {n : Nat} (hn : n ≤ 4096) :
    Consecutive n fun k => s.linearAddr r (off + BitVec.ofNat 64 k) := by
  obtain ⟨b, m, hm, hlin⟩ := s.linearAddr_add r off
  have hindex (x : U64) : (tlbIndex x).val = x.toNat / 4096 % 256 := by
    rw [tlbIndex, Fin.val_ofNat, BitVec.toNat_ushiftRight, Nat.shiftRight_eq_div_pow]
  refine ⟨fun i k hik hk => ?_, fun i hi j hj h => ?_, fun i hi j hj h => ?_⟩
  · rw [hlin i (by omega)] at hk
    apply BitVec.eq_of_toNat_eq
    rw [BitVec.toNat_add, BitVec.toNat_ofNat, hlin _ (by omega), hlin i (by omega)]
    rcases hm with rfl | rfl <;> omega
  · rw [hlin i (by omega), hlin j (by omega)] at h
    rcases hm with rfl | rfl <;> omega
  · have hval := congrArg Fin.val h
    rw [hindex, hindex, hlin i (by omega), hlin j (by omega)] at hval
    apply BitVec.eq_of_toNat_eq
    rw [BitVec.toNat_ushiftRight, BitVec.toNat_ushiftRight, Nat.shiftRight_eq_div_pow,
      Nat.shiftRight_eq_div_pow, hlin i (by omega), hlin j (by omega)]
    rcases hm with rfl | rfl <;> omega

end Cpu

/-! ## The loops -/

section Loops

variable {s : Cpu} {seg : SegReg} {off : U64} {n : Nat} {lin phys : Nat → U64}
variable (hlin : ∀ k, s.linearAddr seg (off + BitVec.ofNat 64 k) = lin k)
variable (hcons : Cpu.Consecutive n lin) (hclear : s.pendingException = none)
include hlin hcons hclear

/-- The bytes from `i` to the end of a page, or of the area. -/
def pageRun (n : Nat) (l : U64) (i : Nat) : Nat := min (0x1000 - (l &&& 0xFFF).toNat) (n - i)

omit hlin hcons hclear in
theorem pageRun_le {l : U64} {i : Nat} (hi : i < n) :
    0 < pageRun n l i ∧ i + pageRun n l i ≤ n ∧ l.toNat % 4096 + pageRun n l i ≤ 4096 := by
  unfold pageRun
  rw [offset_toNat]
  omega

omit hlin hclear in
/-- Serving the byte a loop has come to: the rest of its page follows at consecutive addresses. -/
theorem page_served {i : Nat} {tlb : Fin 256 → TlbEntry} {mem : Memory}
    (harea : (s.withTables tlb mem).DataArea n lin phys) (hi : i < n) (write : Bool) :
    ∃ tlb' mem', applyPagingAccess (lin i) write (s.withTables tlb mem) =
        (phys i, s.withTables tlb' mem') ∧ (s.withTables tlb' mem').DataArea n lin phys ∧
      (∀ k < n, mem'.readU8 (phys k) = mem.readU8 (phys k)) ∧
      ∀ k < pageRun n (lin i) i, phys i + BitVec.ofNat 64 k = phys (i + k) := by
  obtain ⟨tlb', mem', hrun, hserved⟩ := Cpu.served_access (harea.target i hi) write
  obtain ⟨harea', hsame⟩ := harea.served hcons hi hserved
  obtain ⟨-, hle, hpage⟩ := pageRun_le (l := lin i) hi
  exact ⟨tlb', mem', hrun, harea', hsame, fun k hk =>
    (harea.phys_run hcons (by omega) (by omega)).symm⟩

omit hlin hcons in
theorem not_faulted (tlb : Fin 256 → TlbEntry) (mem : Memory) :
    ¬ (s.withTables tlb mem).pendingException.isSome = true := by
  show ¬ s.pendingException.isSome = true
  rw [hclear]
  exact Bool.false_ne_true

/-- Storing bytes over a data area puts each at its own address. -/
theorem writeLinearBytes_area (buf : Nat → U8) : ∀ (fuel i : Nat) (tlb : Fin 256 → TlbEntry)
    (mem : Memory), n ≤ i + fuel → (s.withTables tlb mem).DataArea n lin phys →
    ∃ tlb' mem', (writeLinearBytes seg off n buf fuel i (s.withTables tlb mem)).2 =
        s.withTables tlb' mem' ∧ (s.withTables tlb' mem').DataArea n lin phys ∧
      ∀ k < n, mem'.readU8 (phys k) = if i ≤ k then buf k else mem.readU8 (phys k)
  | 0, i, tlb, mem, hn, harea => ⟨tlb, mem, rfl, harea, fun k hk => (if_neg (by omega)).symm⟩
  | fuel + 1, i, tlb, mem, hn, harea => by
    by_cases hi : i < n
    · obtain ⟨tlb₁, mem₁, hrun, harea₁, hsame, hphys⟩ := page_served hcons harea hi true
      obtain ⟨hpos, hle, -⟩ := pageRun_le (l := lin i) hi
      obtain ⟨hslot, hin, hout⟩ := mem₁.stored_each (fun k => phys i + BitVec.ofNat 64 k)
        (fun k => buf (i + k)) (pageRun n (lin i) i)
        (fun j hj k hk he => by
          rw [hphys j hj, hphys k hk] at he
          have := harea.phys_inj hcons (by omega) (by omega) he
          omega)
      generalize hmem : (List.range (pageRun n (lin i) i)).foldl (fun m k =>
        m.writeU8 (phys i + BitVec.ofNat 64 k) (buf (i + k))) mem₁ = mem₂ at hslot hin hout
      have harea₂ : (s.withTables tlb₁ mem₂).DataArea n lin phys := by
        refine harea₁.stored hslot fun hpg j hj p hread => hout p fun k hk he => ?_
        rw [he, hphys k hk] at hread
        exact harea₁.apart hpg _ (by omega) j hj hread
      obtain ⟨tlb', mem', hrest, harea', hbytes⟩ := writeLinearBytes_area buf fuel
        (i + pageRun n (lin i) i) tlb₁ mem₂ (by omega) harea₂
      refine ⟨tlb', mem', ?_, harea', fun k hk => ?_⟩
      · have haddr : (s.withTables tlb mem).linearAddr seg (off + BitVec.ofNat 64 i) = lin i := hlin i
        rw [writeLinearBytes, if_pos hi, bind_run, get_run]
        dsimp only
        rw [haddr, bind_run, hrun, bind_run, get_run]
        dsimp only
        rw [ite_run, if_neg (not_faulted hclear _ _), ← hrest, ← hmem]
        rfl
      · rw [hbytes k hk]
        by_cases hk1 : i + pageRun n (lin i) i ≤ k
        · rw [if_pos hk1, if_pos (by omega)]
        · rw [if_neg hk1]
          by_cases hk2 : i ≤ k
          · rw [if_pos hk2]
            have hj := hin (k - i) (by omega) (by
              rw [hphys (k - i) (by omega)]
              exact harea₁.backed _ (by omega))
            rwa [hphys (k - i) (by omega), Nat.add_sub_cancel' hk2] at hj
          · have hfar (j : Nat) (hj : j < pageRun n (lin i) i) :
                phys k ≠ phys i + BitVec.ofNat 64 j := by
              rw [hphys j hj]
              intro he
              have := harea.phys_inj hcons hk (by omega) he
              omega
            rw [if_neg hk2, hout _ hfar, hsame k hk]
    · refine ⟨tlb, mem, ?_, harea, fun k hk => (if_neg (by omega)).symm⟩
      rw [writeLinearBytes, if_neg hi]
      rfl

/-- Reading the bytes of a data area finds each at its own address. -/
theorem readLinearBytes_area : ∀ (fuel i : Nat) (buf : Nat → U8) (tlb : Fin 256 → TlbEntry)
    (mem : Memory), n ≤ i + fuel → (s.withTables tlb mem).DataArea n lin phys →
    ∃ buf' tlb' mem', readLinearBytes seg off n fuel i buf (s.withTables tlb mem) =
        (buf', s.withTables tlb' mem') ∧ (s.withTables tlb' mem').DataArea n lin phys ∧
      (∀ k < n, mem'.readU8 (phys k) = mem.readU8 (phys k)) ∧
      ∀ k < n, buf' k = if i ≤ k then mem.readU8 (phys k) else buf k
  | 0, i, buf, tlb, mem, hn, harea =>
    ⟨buf, tlb, mem, rfl, harea, fun _ _ => rfl, fun k hk => (if_neg (by omega)).symm⟩
  | fuel + 1, i, buf, tlb, mem, hn, harea => by
    by_cases hi : i < n
    · obtain ⟨tlb₁, mem₁, hrun, harea₁, hsame, hphys⟩ := page_served hcons harea hi false
      obtain ⟨hpos, hle, -⟩ := pageRun_le (l := lin i) hi
      obtain ⟨buf', tlb', mem', hrest, harea', hkept, hread⟩ := readLinearBytes_area fuel
        (i + pageRun n (lin i) i)
        (fun k => if i ≤ k ∧ k < i + pageRun n (lin i) i then
          mem₁.readU8 (phys i + BitVec.ofNat 64 (k - i)) else buf k) tlb₁ mem₁ (by omega) harea₁
      refine ⟨buf', tlb', mem', ?_, harea', fun k hk => (hkept k hk).trans (hsame k hk),
        fun k hk => ?_⟩
      · have haddr : (s.withTables tlb mem).linearAddr seg (off + BitVec.ofNat 64 i) = lin i := hlin i
        rw [readLinearBytes, if_pos hi, bind_run, get_run]
        dsimp only
        rw [haddr, bind_run, hrun, bind_run, get_run]
        dsimp only
        rw [ite_run, if_neg (not_faulted hclear _ _), ← hrest]
        rfl
      · rw [hread k hk]
        by_cases hk1 : i + pageRun n (lin i) i ≤ k
        · rw [if_pos hk1, if_pos (by omega)]
          exact hsame k hk
        · rw [if_neg hk1]
          by_cases hk2 : i ≤ k
          · rw [if_pos ⟨hk2, by omega⟩, if_pos hk2, hphys (k - i) (by omega),
              Nat.add_sub_cancel' hk2]
            exact hsame k hk
          · rw [if_neg fun h => hk2 h.1, if_neg hk2]
    · refine ⟨buf, tlb, mem, ?_, harea, fun _ _ => rfl, fun k hk => (if_neg (by omega)).symm⟩
      rw [readLinearBytes, if_neg hi]
      rfl

end Loops
end X86Emu
