import X86Emu.FloatFormats
import X86Emu.MemoryWidth
import X86Emu.SseAtomic

/-!
# The FXSAVE image

What software sees of the x87 and SSE state, and what loading the image of a state gives back of it:
all of it when TOP stands in the status word too, the tag word's unused half is set and MXCSR has no
reserved bit.
-/
namespace X86Emu

namespace Cpu

/-- What software sees of the x87 and SSE state; the status word is as FNSTSW returns it. -/
structure FxView where
  control : U16
  status : U16
  top : Fin 8
  tag : U16
  st : Fin 8 → U64
  mxcsr : U32
  xmm : Fin 16 → U128

def fxView (s : Cpu) : FxView where
  control := s.fpu.control
  status := s.fpu.fstsw
  top := s.fpu.top
  tag := s.fpu.tag
  st := s.fpu.stI
  mxcsr := s.mxcsr
  xmm := s.xmm

/-- TOP stands in the status word, the tag word's unused half is set, MXCSR has no reserved bit. -/
structure FxFormed (s : Cpu) : Prop where
  top : s.fpu.status &&& 0x3800 = BitVec.ofNat 16 s.fpu.top.val <<< 11
  tag : s.fpu.tag &&& 0xFF00 = 0xFF00
  mxcsr : test s.mxcsr (~~~mxcsrMask) = false

/-- The status word an image holds. -/
def savedStatus (s : Cpu) : U16 :=
  s.fpu.status &&& ~~~(0x3800 : U16) ||| BitVec.ofNat 16 s.fpu.top.val <<< 11

/-- Bytes hold the image of a state. -/
def ImageOf (b : Nat → U8) (s : Cpu) : Prop := ∀ i < 512, b i = s.fxsaveImage i

/-! ## The words of an image -/

section Words

variable {b : Nat → U8} {s : Cpu}

theorem ImageOf.control (h : ImageOf b s) : imageU16 b 0 = s.fpu.control := by
  rw [imageU16, h 0 (by decide), h 1 (by decide)]
  exact le16_byteOf _

theorem ImageOf.status (h : ImageOf b s) : imageU16 b 2 = s.savedStatus := by
  rw [imageU16, h 2 (by decide), h 3 (by decide)]
  exact le16_byteOf _

theorem ImageOf.tag (h : ImageOf b s) : b 4 = abridgedTag s.fpu.tag := h 4 (by decide)

theorem ImageOf.mxcsr (h : ImageOf b s) : imageU32 b 24 = s.mxcsr := by
  rw [imageU32, h 24 (by decide), h 25 (by decide), h 26 (by decide), h 27 (by decide)]
  exact le32_byteOf _

/-- Slot `k` starts with the significand, then the sign and exponent. -/
theorem fxsaveImage_slot (s : Cpu) (k : Fin 8) {j : Nat} (hj : j < 10) :
    s.fxsaveImage (32 + k.val * 16 + j) =
      if j < 8 then byteOf (f64ToF80 (s.fpu.stI k)).1 j
      else byteOf (f64ToF80 (s.fpu.stI k)).2 (j - 8) := by
  have hk := k.isLt
  have hslot : (32 + k.val * 16 + j - 32) / 16 = k.val := by omega
  have hoff : (32 + k.val * 16 + j - 32) % 16 = j := by omega
  have hfin : Fin.ofNat 8 k.val = k := Fin.ext (Nat.mod_eq_of_lt hk)
  unfold fxsaveImage
  dsimp only
  rw [if_neg (by omega), if_neg (by omega), if_neg (by omega), if_neg (by omega), if_neg (by omega),
    if_pos (by omega), hslot, hoff, hfin, if_pos hj]

theorem fxsaveImage_xmm (s : Cpu) (k : Fin 16) (hk : k.val < if s.longMode then 16 else 8) {j : Nat}
    (hj : j < 16) : s.fxsaveImage (160 + k.val * 16 + j) = byteOf (s.xmm k) j := by
  have hslot : (160 + k.val * 16 + j - 160) / 16 = k.val := by omega
  have hoff : (160 + k.val * 16 + j - 160) % 16 = j := by omega
  have hfin : Fin.ofNat 16 k.val = k := Fin.ext (Nat.mod_eq_of_lt k.isLt)
  unfold fxsaveImage
  dsimp only
  rw [if_neg (by omega), if_neg (by omega), if_neg (by omega), if_neg (by omega), if_neg (by omega),
    if_neg (by omega), if_pos (by omega), hslot, hoff, hfin]

theorem imageU64_of {o : Nat} {v : U64} (h : ∀ j < 8, b (o + j) = byteOf v j) :
    imageU64 b o = v := by
  rw [imageU64, imageU32, imageU32]
  simp only [Nat.add_assoc, Nat.reduceAdd]
  rw [h 1 (by decide), h 2 (by decide), h 3 (by decide), h 4 (by decide), h 5 (by decide),
    h 6 (by decide), h 7 (by decide), show b o = byteOf v 0 from h 0 (by decide)]
  exact le64_byteOf v

theorem ImageOf.significand (h : ImageOf b s) (k : Fin 8) :
    imageU64 b (32 + k.val * 16) = (f64ToF80 (s.fpu.stI k)).1 := by
  refine imageU64_of fun j hj => ?_
  rw [h _ (by omega), fxsaveImage_slot s k (by omega), if_pos hj]

theorem ImageOf.exponent (h : ImageOf b s) (k : Fin 8) :
    imageU16 b (32 + k.val * 16 + 8) = (f64ToF80 (s.fpu.stI k)).2 := by
  rw [imageU16, h _ (by omega), h _ (by omega), fxsaveImage_slot s k (by decide), Nat.add_assoc,
    fxsaveImage_slot s k (by decide)]
  exact le16_byteOf _

theorem ImageOf.xmm (h : ImageOf b s) (k : Fin 16) (hk : k.val < if s.longMode then 16 else 8) :
    imageU128 b (160 + k.val * 16) = s.xmm k := by
  have hbyte (j : Nat) (hj : j < 16) : b (160 + k.val * 16 + j) = byteOf (s.xmm k) j := by
    rw [h _ (by omega), fxsaveImage_xmm s k hk hj]
  have hlo : imageU64 b (160 + k.val * 16) = u64 (s.xmm k) := by
    refine imageU64_of fun j hj => ?_
    rw [hbyte j (by omega), ← Memory.byteOf_halves128 _ (by omega), if_pos hj]
  have hhi : imageU64 b (160 + k.val * 16 + 8) = u64 (s.xmm k >>> 64) := by
    refine imageU64_of fun j hj => ?_
    rw [Nat.add_assoc, hbyte (8 + j) (by omega), ← Memory.byteOf_halves128 _ (by omega),
      if_neg (by omega), Nat.add_sub_cancel_left]
  rw [imageU128, hlo, hhi]
  apply BitVec.eq_of_getLsbD_eq
  intro i hi
  simp only [BitVec.getLsbD_append, BitVec.getLsbD_setWidth, BitVec.getLsbD_ushiftRight]
  split
  · simp
    omega
  · simp
    grind

end Words

/-! ## Loading an image -/

section Load

variable {b : Nat → U8} {s u : Cpu}

theorem savedStatus_top (s : Cpu) : Fin.ofNat 8 (s.savedStatus >>> 11).toNat = s.fpu.top := by
  have hbits : s.savedStatus >>> 11 &&& 7 = BitVec.ofNat 16 s.fpu.top.val := by
    unfold savedStatus
    generalize s.fpu.status = w
    generalize s.fpu.top = t
    fin_cases t <;>
    · apply BitVec.eq_of_getLsbD_eq
      intro i hi
      interval_cases i <;> simp
  have hnat := congrArg BitVec.toNat hbits
  rw [BitVec.toNat_and, show (7 : U16).toNat = 2 ^ 3 - 1 from rfl, Nat.and_two_pow_sub_one_eq_mod,
    BitVec.toNat_ofNat] at hnat
  have ht := s.fpu.top.isLt
  exact Fin.ext (by rw [Fin.val_ofNat]; omega)

/-- A word is its part under a mask and the rest. -/
theorem or_and_not (w m : U16) : w &&& ~~~m ||| w &&& m = w := by
  rw [← BitVec.and_or_distrib_left, BitVec.or_comm, BitVec.or_not_self, BitVec.and_allOnes]

theorem savedStatus_eq_iff (s : Cpu) :
    s.savedStatus = s.fpu.status ↔
      s.fpu.status &&& 0x3800 = BitVec.ofNat 16 s.fpu.top.val <<< 11 := by
  unfold savedStatus
  generalize s.fpu.status = w
  have hmask : (BitVec.ofNat 16 s.fpu.top.val <<< 11).and (0x3800 : U16) =
      BitVec.ofNat 16 s.fpu.top.val <<< 11 := by
    generalize s.fpu.top = t
    fin_cases t <;> rfl
  change BitVec.ofNat 16 s.fpu.top.val <<< 11 &&& (0x3800 : BitVec 16) = _ at hmask
  generalize (BitVec.ofNat 16 s.fpu.top.val <<< 11 : U16) = x at hmask ⊢
  constructor
  · intro h
    calc w &&& 0x3800 = (w &&& ~~~(0x3800 : U16) ||| x) &&& 0x3800 := by rw [h]
      _ = w &&& (~~~(0x3800 : U16) &&& 0x3800) ||| x := by
        rw [BitVec.and_or_distrib_right, BitVec.and_assoc, hmask]
      _ = x := by
        rw [show ~~~(0x3800 : U16) &&& 0x3800 = 0#16 from rfl, BitVec.and_zero, BitVec.zero_or]
  · intro h
    rw [← h]
    exact or_and_not w 0x3800

theorem loadedTag_eq_iff (t : U16) :
    0xFF00 ||| u16 (~~~abridgedTag t) = t ↔ t &&& 0xFF00 = 0xFF00 := by
  have hlow : u16 (~~~abridgedTag t) = t &&& ~~~(0xFF00 : U16) := by
    rw [abridgedTag, BitVec.not_not]
    apply BitVec.eq_of_getLsbD_eq
    intro i hi
    interval_cases i <;> simp
  rw [hlow, BitVec.or_comm]
  constructor
  · intro h
    rw [← h, BitVec.and_or_distrib_right, BitVec.and_assoc,
      show ~~~(0xFF00 : U16) &&& 0xFF00 = 0#16 from rfl, BitVec.and_zero]
    rfl
  · intro h
    have hsplit := or_and_not t 0xFF00
    rwa [h] at hsplit

/-- An image of `s` loaded over a machine with the registers it leaves alone. -/
theorem view_fxrstorImage (h : ImageOf b s) (hlong : u.longMode = s.longMode)
    (hxmm : u.xmm = s.xmm) (hmx : test s.mxcsr (~~~mxcsrMask) = false) :
    (u.fxrstorImage b).fxView =
      { s.fxView with status := s.savedStatus, tag := 0xFF00 ||| u16 (~~~abridgedTag s.fpu.tag) } := by
  have hst (j : Fin 8) : f80ToF64 (imageU64 b (32 + (j - s.fpu.top).val * 16))
      (imageU16 b (32 + (j - s.fpu.top).val * 16 + 8)) = s.fpu.st j := by
    rw [h.significand, h.exponent, f80ToF64_f64ToF80, Fpu.stI]
    congr 1
    omega
  have hxmm' (j : Fin 16) : (if j.val < (if u.longMode then 16 else 8) then
      imageU128 b (160 + j.val * 16) else u.xmm j) = s.xmm j := by
    by_cases hj : j.val < if u.longMode then 16 else 8
    · rw [if_pos hj, h.xmm j (by rwa [← hlong])]
    · rw [if_neg hj, hxmm]
  have hload : u.fxrstorImage b =
      { u with
        fpu := { u.fpu with
          control := imageU16 b 0, status := imageU16 b 2
          top := Fin.ofNat 8 (imageU16 b 2 >>> 11).toNat, tag := 0xFF00 ||| u16 (~~~b 4)
          st := fun j => f80ToF64
            (imageU64 b (32 + (j - Fin.ofNat 8 (imageU16 b 2 >>> 11).toNat).val * 16))
            (imageU16 b (32 + (j - Fin.ofNat 8 (imageU16 b 2 >>> 11).toNat).val * 16 + 8)) }
        mxcsr := imageU32 b 24
        xmm := fun j => if j.val < (if u.longMode then 16 else 8) then
          imageU128 b (160 + j.val * 16) else u.xmm j } := by
    unfold fxrstorImage
    dsimp only
    rw [h.mxcsr, hmx]
    rfl
  rw [hload, h.control, h.status, h.tag, h.mxcsr, savedStatus_top]
  simp only [hst, hxmm']
  rfl

/-- Loading the image of a formed state gives the state back. -/
theorem FxFormed.view_fxrstorImage (hs : s.FxFormed) (h : ImageOf b s)
    (hlong : u.longMode = s.longMode) (hxmm : u.xmm = s.xmm) :
    (u.fxrstorImage b).fxView = s.fxView := by
  rw [Cpu.view_fxrstorImage h hlong hxmm hs.mxcsr, (savedStatus_eq_iff s).mpr hs.top,
    (loadedTag_eq_iff _).mpr hs.tag]
  rfl

/-- What loads an image changes. -/
def withFx (u : Cpu) (fpu : Fpu) (mxcsr : U32) (xmm : Fin 16 → U128) : Cpu :=
  { u with fpu, mxcsr, xmm }

theorem fxrstorImage_eq (hmx : test (imageU32 b 24) (~~~mxcsrMask) = false) :
    ∃ fpu mxcsr xmm, u.fxrstorImage b = u.withFx fpu mxcsr xmm := by
  unfold fxrstorImage
  dsimp only
  rw [hmx]
  exact ⟨_, _, _, rfl⟩

/-- A reserved MXCSR bit faults. -/
theorem fxrstorImage_faults (hclear : u.pendingException = none)
    (hmx : test (imageU32 b 24) (~~~mxcsrMask) = true) :
    (u.fxrstorImage b).pendingException ≠ none := by
  have hrun : u.fxrstorImage b = (u.loadHeader b).raiseGp 0 := if_pos hmx
  have hload : (u.loadHeader b).pendingException = none := hclear
  rw [hrun, raiseGp, raise, hload]
  exact Option.some_ne_none _

/-- The image of a state is that of what software sees of it. -/
theorem fxsaveImage_congr (h : u.fxView = s.fxView) (hlong : u.longMode = s.longMode) :
    u.fxsaveImage = s.fxsaveImage := by
  have hcontrol : u.fpu.control = s.fpu.control := congrArg FxView.control h
  have hstatus : u.fpu.status = s.fpu.status := congrArg FxView.status h
  have htop : u.fpu.top = s.fpu.top := congrArg FxView.top h
  have htag : u.fpu.tag = s.fpu.tag := congrArg FxView.tag h
  have hst : u.fpu.stI = s.fpu.stI := congrArg FxView.st h
  have hmx : u.mxcsr = s.mxcsr := congrArg FxView.mxcsr h
  have hxmm : u.xmm = s.xmm := congrArg FxView.xmm h
  funext i
  unfold fxsaveImage
  rw [hcontrol, hstatus, htop, htag, hst, hmx, hxmm, hlong]

end Load
end Cpu
end X86Emu
