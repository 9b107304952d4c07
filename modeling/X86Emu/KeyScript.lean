import X86Emu.State

/-!
# Typed text

The scancodes `kbd.rs` makes of a text, and a driver with a US layout of its own that reads them. The
driver gets back every character it has a key for, in order, and at the end no key is down.
-/
namespace X86Emu

/-! ## Text to scancodes -/

/-- The unshifted keycap of every key the table can type, with its set-1 make code. -/
def keys : List (U8 × U8) :=
  -- the digit row, backspace and tab
  [(0x31, 0x02), (0x32, 0x03), (0x33, 0x04), (0x34, 0x05), (0x35, 0x06),
   (0x36, 0x07), (0x37, 0x08), (0x38, 0x09), (0x39, 0x0A), (0x30, 0x0B),
   (0x2D, 0x0C), (0x3D, 0x0D), (0x08, 0x0E), (0x09, 0x0F),
   -- the rows under it: q to newline, a to backslash, z to slash, space
   (0x71, 0x10), (0x77, 0x11), (0x65, 0x12), (0x72, 0x13), (0x74, 0x14),
   (0x79, 0x15), (0x75, 0x16), (0x69, 0x17), (0x6F, 0x18), (0x70, 0x19),
   (0x5B, 0x1A), (0x5D, 0x1B), (0x0A, 0x1C),
   (0x61, 0x1E), (0x73, 0x1F), (0x64, 0x20), (0x66, 0x21), (0x67, 0x22),
   (0x68, 0x23), (0x6A, 0x24), (0x6B, 0x25), (0x6C, 0x26), (0x3B, 0x27),
   (0x27, 0x28), (0x60, 0x29), (0x5C, 0x2B),
   (0x7A, 0x2C), (0x78, 0x2D), (0x63, 0x2E), (0x76, 0x2F), (0x62, 0x30),
   (0x6E, 0x31), (0x6D, 0x32), (0x2C, 0x33), (0x2E, 0x34), (0x2F, 0x35),
   (0x20, 0x39)]

/-- The shifted keycap of a key, and the key it sits on. -/
def shifted : List (U8 × U8) :=
  [(0x21, 0x31), (0x40, 0x32), (0x23, 0x33), (0x24, 0x34), (0x25, 0x35),
   (0x5E, 0x36), (0x26, 0x37), (0x2A, 0x38), (0x28, 0x39), (0x29, 0x30),
   (0x5F, 0x2D), (0x2B, 0x3D), (0x7B, 0x5B), (0x7D, 0x5D), (0x3A, 0x3B),
   (0x22, 0x27), (0x7E, 0x60), (0x7C, 0x5C), (0x3C, 0x2C), (0x3E, 0x2E),
   (0x3F, 0x2F)]

/-- The make code of an unshifted keycap. -/
def keyCode (c : U8) : Option U8 := (keys.find? fun k => k.1 == c).map Prod.snd

/-- The make code of a character, and whether shift is held. -/
def asciiToScancode (c : U8) : Option (U8 × Bool) :=
  if 0x41 ≤ c ∧ c ≤ 0x5A then (keyCode (c + 0x20)).map (·, true)
  else
    match shifted.find? fun k => k.1 == c with
    | some k => (keyCode k.2).map (·, true)
    | none => (keyCode c).map (·, false)

def lshiftMake : U8 := 0x2A
def lshiftBreak : U8 := 0xAA

/-- The codes of one character: none when the layout has no key for it. -/
def codesOf (c : U8) : List U8 :=
  match asciiToScancode c with
  | none => []
  | some (sc, true) => [lshiftMake, sc, sc ||| 0x80, lshiftBreak]
  | some (sc, false) => [sc, sc ||| 0x80]

/-- The make and break codes a keyboard would send for a text. -/
def scancodesFor (text : List U8) : List U8 := text.flatMap codesOf

/-- Queue text to be typed, starting no earlier than instruction `start`. -/
def Cpu.typeKeys (s : Cpu) (text : List U8) (start : U64) : Cpu :=
  { s with keyScript := s.keyScript ++ scancodesFor text, keyNext := start }

/-! ## A driver for the layout -/

/-- What a driver has made of the codes so far: the keys that are down and the characters read. -/
structure KeyReader where
  down : U8 → Bool := fun _ => false
  chars : List U8 := []

namespace KeyReader

/-- What the keys of a US keyboard type, by make code: nothing for Escape, Control, the shifts, Alt
and the keypad's asterisk. -/
def plainKeys : List U8 :=
  [0, 0, 0x31, 0x32, 0x33, 0x34, 0x35, 0x36, 0x37, 0x38, 0x39, 0x30, 0x2D, 0x3D, 0x08, 0x09,
   0x71, 0x77, 0x65, 0x72, 0x74, 0x79, 0x75, 0x69, 0x6F, 0x70, 0x5B, 0x5D, 0x0A, 0,
   0x61, 0x73, 0x64, 0x66, 0x67, 0x68, 0x6A, 0x6B, 0x6C, 0x3B, 0x27, 0x60, 0, 0x5C,
   0x7A, 0x78, 0x63, 0x76, 0x62, 0x6E, 0x6D, 0x2C, 0x2E, 0x2F, 0, 0, 0, 0x20]

/-- The same with shift held. -/
def shiftedKeys : List U8 :=
  [0, 0, 0x21, 0x40, 0x23, 0x24, 0x25, 0x5E, 0x26, 0x2A, 0x28, 0x29, 0x5F, 0x2B, 0x08, 0x09,
   0x51, 0x57, 0x45, 0x52, 0x54, 0x59, 0x55, 0x49, 0x4F, 0x50, 0x7B, 0x7D, 0x0A, 0,
   0x41, 0x53, 0x44, 0x46, 0x47, 0x48, 0x4A, 0x4B, 0x4C, 0x3A, 0x22, 0x7E, 0, 0x7C,
   0x5A, 0x58, 0x43, 0x56, 0x42, 0x4E, 0x4D, 0x3C, 0x3E, 0x3F, 0, 0, 0, 0x20]

/-- The character a key types. -/
def keycap (shift : Bool) (sc : U8) : Option U8 :=
  (if shift then shiftedKeys else plainKeys)[sc.toNat]?.filter (· != 0)

/-- The characters there is a key for: the printable ones, backspace, tab and newline. -/
def hasKey (c : U8) : Bool :=
  decide (0x20 ≤ c ∧ c ≤ 0x7E) || c == 0x08 || c == 0x09 || c == 0x0A

def set (r : KeyReader) (key : U8) (on : Bool) : KeyReader :=
  { r with down := fun k => if k = key then on else r.down k }

/-- A code below 0x80 presses a key, and one above releases it. -/
def read (r : KeyReader) (code : U8) : KeyReader :=
  if 0x80 ≤ code then r.set (code &&& 0x7F) false
  else
    let typed := if code = lshiftMake then none else keycap (r.down lshiftMake) code
    { r.set code true with chars := r.chars ++ typed.toList }

def readAll (r : KeyReader) (codes : List U8) : KeyReader := codes.foldl read r

/-- No key is down. -/
def Released (r : KeyReader) : Prop := ∀ k, r.down k = false

/-- Only this key is down, beside shift. -/
def Only (key : U8) (r : KeyReader) : Prop := ∀ k, r.down k = true → k = key ∨ k = lshiftMake

/-- At most one key is down beside shift. -/
def OneKey (r : KeyReader) : Prop := ∃ key, r.Only key

/-- A property of the driver before the codes and after each of them. -/
def Throughout (P : KeyReader → Prop) : KeyReader → List U8 → Prop
  | r, [] => P r
  | r, c :: cs => P r ∧ Throughout P (r.read c) cs

theorem throughout_append {P : KeyReader → Prop} :
    ∀ {l l' : List U8} {r : KeyReader}, Throughout P r l → Throughout P (r.readAll l) l' →
      Throughout P r (l ++ l')
  | [], _, _, _, h' => h'
  | _ :: _, _, _, h, h' => ⟨h.1, throughout_append h.2 h'⟩

theorem Released.only {r : KeyReader} (h : r.Released) (key : U8) : r.Only key := by
  intro k hk
  rw [h k] at hk
  cases hk

theorem Only.set {r : KeyReader} {key k : U8} (h : r.Only key) (hk : k = key ∨ k = lshiftMake)
    (on : Bool) : (r.set k on).Only key := by
  intro i hi
  by_cases hik : i = k
  · exact hik ▸ hk
  · have hdown : (if i = k then on else r.down i) = true := hi
    rw [if_neg hik] at hdown
    exact h i hdown

/-! ## One character -/

/-- The code of a character is that of the key that types it, a make code other than shift's. -/
structure Types (shift : Bool) (c sc : U8) : Prop where
  cap : keycap shift sc = some c
  other : sc ≠ lshiftMake
  make : sc < 0x80

theorem mem_keys {c sc : U8} (h : keyCode c = some sc) : (c, sc) ∈ keys := by
  obtain ⟨k, hk, rfl⟩ := Option.map_eq_some_iff.mp h
  have hc : (k.1 == c) = true := List.find?_some (p := fun k : U8 × U8 => k.1 == c) hk
  exact beq_iff_eq.mp hc ▸ List.mem_of_find?_eq_some hk

theorem types_plain {c sc : U8} (h : keyCode c = some sc) : Types false c sc ∧ hasKey c := by
  have hall : (keys.all fun k => keycap false k.2 == some k.1 && k.2 != lshiftMake &&
      decide (k.2 < 0x80) && hasKey k.1) = true := by decide +kernel
  have hkey := List.all_eq_true.mp hall _ (mem_keys h)
  simp only [Bool.and_eq_true, beq_iff_eq, bne_iff_ne, decide_eq_true_eq] at hkey
  exact ⟨⟨hkey.1.1.1, hkey.1.1.2, hkey.1.2⟩, hkey.2⟩

theorem types_upper {c sc : U8} (h : keyCode c = some sc) (hc : 0x61 ≤ c ∧ c ≤ 0x7A) :
    Types true (c - 0x20) sc := by
  have hall : (keys.all fun k => !decide (0x61 ≤ k.1 ∧ k.1 ≤ 0x7A) ||
      keycap true k.2 == some (k.1 - 0x20)) = true := by decide +kernel
  have hkey := List.all_eq_true.mp hall _ (mem_keys h)
  rw [decide_eq_true hc] at hkey
  exact { (types_plain h).1 with cap := beq_iff_eq.mp hkey }

theorem types_shifted {k : U8 × U8} (hk : k ∈ shifted) :
    hasKey k.1 ∧ ∃ sc, keyCode k.2 = some sc ∧ Types true k.1 sc := by
  have hall : (shifted.all fun k => hasKey k.1 &&
      (keyCode k.2).any fun sc => keycap true sc == some k.1) = true := by decide +kernel
  obtain ⟨hkey, hany⟩ := Bool.and_eq_true_iff.mp (List.all_eq_true.mp hall k hk)
  cases hsc : keyCode k.2 with
  | none => simp [hsc] at hany
  | some sc =>
    rw [hsc] at hany
    exact ⟨hkey, sc, rfl, { (types_plain hsc).1 with cap := beq_iff_eq.mp hany }⟩

/-- A character with a key is a capital, a shifted one or has a code of its own. -/
theorem hasKey_cases {c : U8} (h : hasKey c = true) :
    (0x41 ≤ c ∧ c ≤ 0x5A) ∨ (∃ k ∈ shifted, k.1 = c) ∨ (keyCode c).isSome = true := by
  have hall : (([8, 9, 10] ++ List.range' 0x20 95).all fun n => (Nat.ble 0x41 n && Nat.ble n 0x5A) ||
      (shifted.any fun k => k.1 == BitVec.ofNat 8 n) || (keyCode (BitVec.ofNat 8 n)).isSome) =
      true := by decide +kernel
  have hmem : c.toNat ∈ [8, 9, 10] ++ List.range' 0x20 95 := by
    simp only [hasKey, Bool.or_eq_true, decide_eq_true_eq, beq_iff_eq] at h
    rw [List.mem_append]
    rcases h with ((⟨hlow, hhigh⟩ | rfl) | rfl) | rfl
    · rw [BitVec.le_def] at hlow hhigh
      exact .inr (List.mem_range'_1.mpr ⟨hlow, Nat.lt_succ_of_le hhigh⟩)
    · exact .inl (by decide)
    · exact .inl (by decide)
    · exact .inl (by decide)
  have hc := List.all_eq_true.mp hall _ hmem
  have hself : BitVec.ofNat 8 c.toNat = c := by rw [BitVec.ofNat_toNat, BitVec.setWidth_eq]
  rw [hself, Bool.or_eq_true, Bool.or_eq_true, Bool.and_eq_true, Nat.ble_eq, Nat.ble_eq,
    List.any_eq_true] at hc
  rcases hc with (hupper | ⟨k, hk, hc⟩) | hcode
  · exact .inl hupper
  · exact .inr (.inl ⟨k, hk, beq_iff_eq.mp hc⟩)
  · exact .inr (.inr hcode)

/-- The letter under a capital has a code. -/
theorem keyCode_letter {c : U8} (hc : 0x61 ≤ c ∧ c ≤ 0x7A) : (keyCode c).isSome = true := by
  have hkey : hasKey c = true := by
    rw [hasKey, decide_eq_true (show 0x20 ≤ c ∧ c ≤ 0x7E by bv_omega)]
    rfl
  rcases hasKey_cases hkey with hupper | ⟨k, hk, rfl⟩ | hcode
  · exact absurd hupper (by bv_omega)
  · have hall : (shifted.all fun k => !decide (0x61 ≤ k.1 ∧ k.1 ≤ 0x7A)) = true := by
      decide +kernel
    have hnot := List.all_eq_true.mp hall k hk
    rw [decide_eq_true hc] at hnot
    cases hnot
  · exact hcode

/-- The script's table agrees with the keyboard's, character by character. -/
theorem layout_agrees (c : U8) : hasKey c = (asciiToScancode c).isSome ∧
    ∀ k ∈ asciiToScancode c, Types k.2 c k.1 := by
  unfold asciiToScancode
  split
  · rename_i hupper
    obtain ⟨sc, hsc⟩ := Option.isSome_iff_exists.mp
      (keyCode_letter (c := c + 0x20) (by bv_omega))
    have htypes := types_upper hsc (by bv_omega)
    rw [BitVec.add_sub_cancel] at htypes
    rw [hsc]
    refine ⟨?_, fun k hk => Option.some.inj hk ▸ htypes⟩
    rw [hasKey, decide_eq_true (show 0x20 ≤ c ∧ c ≤ 0x7E by bv_omega)]
    rfl
  · rename_i hupper
    split
    · rename_i k hk
      have hc : k.1 = c :=
        beq_iff_eq.mp (List.find?_some (p := fun k : U8 × U8 => k.1 == c) hk)
      obtain ⟨hkey, sc, hsc, htypes⟩ := types_shifted (List.mem_of_find?_eq_some hk)
      rw [hc] at hkey htypes
      rw [hsc, hkey]
      exact ⟨rfl, fun k hk => Option.some.inj hk ▸ htypes⟩
    · rename_i hnone
      cases hsc : keyCode c with
      | some sc =>
        obtain ⟨htypes, hkey⟩ := types_plain hsc
        rw [hkey]
        exact ⟨rfl, fun k hk => Option.some.inj hk ▸ htypes⟩
      | none =>
        refine ⟨Bool.eq_false_iff.mpr fun hkey => ?_, nofun⟩
        rcases hasKey_cases hkey with h | ⟨k, hk, hc⟩ | h
        · exact hupper h
        · exact absurd (beq_iff_eq.mpr hc) (List.find?_eq_none.mp hnone k hk)
        · rw [hsc] at h
          cases h

theorem scancode_char (c sc : U8) (shift : Bool) (h : asciiToScancode c = some (sc, shift)) :
    Types shift c sc := (layout_agrees c).2 (sc, shift) h

theorem break_code {sc : U8} (h : sc < 0x80) :
    (0x80 : U8) ≤ sc ||| 0x80 ∧ (sc ||| 0x80) &&& 0x7F = sc := by
  have hlow : sc.toNat < 2 ^ 7 := h
  have hor : (sc ||| 0x80).toNat = 2 ^ 7 + sc.toNat := by
    rw [BitVec.toNat_or, Nat.or_comm]
    exact (Nat.two_pow_add_eq_or_of_lt hlow 1).symm
  refine ⟨?_, BitVec.eq_of_toNat_eq ?_⟩
  · rw [BitVec.le_def, hor]
    exact Nat.le_add_right _ _
  · rw [BitVec.toNat_and, hor]
    exact (Nat.and_two_pow_sub_one_eq_mod _ 7).trans (by omega)

theorem read_release (r : KeyReader) {sc : U8} (h : sc < 0x80) :
    r.read (sc ||| 0x80) = r.set sc false := by
  obtain ⟨hhigh, hkey⟩ := break_code h
  rw [read, if_pos hhigh, hkey]

theorem read_shift (r : KeyReader) : r.read lshiftMake = r.set lshiftMake true := by
  have hlow : ¬(0x80 : U8) ≤ lshiftMake := by decide
  rw [read, if_neg hlow]
  show { r.set lshiftMake true with chars := r.chars ++ [] } = _
  rw [List.append_nil]
  rfl

/-- Pressing the key of a character, with shift as the layout has it, reads the character. -/
theorem read_press (r : KeyReader) {c sc : U8}
    (h : asciiToScancode c = some (sc, r.down lshiftMake)) :
    r.read sc = { r.set sc true with chars := r.chars ++ [c] } := by
  obtain ⟨hcap, hshift, hlow⟩ := scancode_char c sc _ h
  rw [read, if_neg (BitVec.not_le.mpr hlow), if_neg hshift, hcap]
  rfl

/-- The codes of one character, read with every key up: the character, and every key up again. -/
structure Typed (r t : KeyReader) (c : U8) : Prop where
  released : t.Released
  chars : t.chars = r.chars ++ if hasKey c then [c] else []

theorem down_set (r : KeyReader) (key : U8) (on : Bool) (k : U8) :
    (r.set key on).down k = if k = key then on else r.down k := rfl

/-- A character whose key is pressed alone. -/
theorem typed_unshifted {r : KeyReader} (h : r.Released) {c sc : U8}
    (hc : asciiToScancode c = some (sc, false)) :
    Typed r (r.readAll [sc, sc ||| 0x80]) c ∧ Throughout OneKey r [sc, sc ||| 0x80] := by
  have hkey := (layout_agrees c).1
  obtain ⟨-, hne, hlow⟩ := scancode_char c sc false hc
  have honly := h.only sc
  have hpress := @read_press r c sc (by rw [hc, h lshiftMake])
  have hrelease := read_release (r.read sc) hlow
  rw [hpress] at hrelease
  refine ⟨⟨fun k => ?_, ?_⟩, ⟨sc, honly⟩, ⟨sc, ?_⟩, sc, ?_⟩
  · show ((r.read sc).read (sc ||| 0x80)).down k = false
    rw [hpress, hrelease, down_set]
    split
    · rfl
    · rename_i hk
      exact (if_neg hk).trans (h k)
  · show ((r.read sc).read (sc ||| 0x80)).chars = _
    rw [hpress, hrelease, hkey, hc]
    rfl
  · rw [hpress]
    exact honly.set (.inl rfl) true
  · rw [hpress, hrelease]
    exact Only.set (r := { r.set sc true with chars := r.chars ++ [c] })
      (honly.set (.inl rfl) true) (.inl rfl) false

/-- A character whose key is pressed with shift held. -/
theorem typed_shifted {r : KeyReader} (h : r.Released) {c sc : U8}
    (hc : asciiToScancode c = some (sc, true)) :
    Typed r (r.readAll [lshiftMake, sc, sc ||| 0x80, lshiftBreak]) c ∧
      Throughout OneKey r [lshiftMake, sc, sc ||| 0x80, lshiftBreak] := by
  have hkey := (layout_agrees c).1
  obtain ⟨-, hne, hlow⟩ := scancode_char c sc true hc
  have honly := h.only sc
  let held := r.set lshiftMake true
  let pressed : KeyReader := { held.set sc true with chars := r.chars ++ [c] }
  have hpress : (r.read lshiftMake).read sc = pressed := by
    rw [read_shift]
    exact @read_press held c sc (by rw [hc, down_set, if_pos rfl])
  have hbreak : lshiftBreak = lshiftMake ||| 0x80 := by decide
  have hheld : held.Only sc := honly.set (.inr rfl) true
  have hpressed : pressed.Only sc := hheld.set (.inl rfl) true
  have hrelease : pressed.read (sc ||| 0x80) = pressed.set sc false := read_release _ hlow
  have hlast : (pressed.set sc false).read lshiftBreak =
      (pressed.set sc false).set lshiftMake false := by
    rw [hbreak]
    exact read_release _ (by decide)
  refine ⟨⟨fun k => ?_, ?_⟩, ⟨sc, honly⟩, ⟨sc, ?_⟩, ⟨sc, ?_⟩, ⟨sc, ?_⟩, sc, ?_⟩
  · show ((((r.read lshiftMake).read sc).read (sc ||| 0x80)).read lshiftBreak).down k = false
    rw [hpress, hrelease, hlast, down_set, down_set]
    split
    · rfl
    · rename_i hshift
      split
      · rfl
      · rename_i hk
        exact (if_neg hk).trans ((if_neg hshift).trans (h k))
  · show ((((r.read lshiftMake).read sc).read (sc ||| 0x80)).read lshiftBreak).chars = _
    rw [hpress, hrelease, hlast, hkey, hc]
    rfl
  · rw [read_shift]
    exact hheld
  · rw [hpress]
    exact hpressed
  · rw [hpress, hrelease]
    exact hpressed.set (.inl rfl) false
  · rw [hpress, hrelease, hlast]
    exact (hpressed.set (.inl rfl) false).set (.inr rfl) false

theorem typed_char {r : KeyReader} (h : r.Released) (c : U8) :
    Typed r (r.readAll (codesOf c)) c ∧ Throughout OneKey r (codesOf c) := by
  unfold codesOf
  cases hc : asciiToScancode c with
  | none =>
    refine ⟨⟨h, ?_⟩, 0, h.only 0⟩
    rw [(layout_agrees c).1, hc]
    exact (List.append_nil _).symm
  | some k =>
    obtain ⟨sc, shift⟩ := k
    cases shift with
    | false => exact typed_unshifted h hc
    | true => exact typed_shifted h hc

/-! ## A whole text -/

theorem readAll_append (r : KeyReader) (l l' : List U8) :
    r.readAll (l ++ l') = (r.readAll l).readAll l' := List.foldl_append

/-- The driver reads back the characters there is a key for, in order, and in the end every key is up;
at no moment is more than one key down beside shift. -/
theorem reads_typed_text (text : List U8) : ∀ {r : KeyReader}, r.Released →
    (r.readAll (scancodesFor text)).Released ∧
      (r.readAll (scancodesFor text)).chars =
        r.chars ++ text.filter hasKey ∧
      Throughout OneKey r (scancodesFor text) := by
  induction text with
  | nil => exact fun h => ⟨h, (List.append_nil _).symm, 0, h.only 0⟩
  | cons c text ih =>
    intro r h
    obtain ⟨htyped, hone⟩ := typed_char h c
    obtain ⟨hreleased, hchars, hrest⟩ := ih htyped.released
    have hcodes : scancodesFor (c :: text) = codesOf c ++ scancodesFor text := List.flatMap_cons
    rw [hcodes, readAll_append]
    refine ⟨hreleased, ?_, throughout_append hone hrest⟩
    rw [hchars, htyped.chars, List.filter_cons, List.append_assoc]
    split <;> rfl

/-- "Hi?" and a character with no key. -/
theorem reads_hi : (KeyReader.readAll {} (scancodesFor [0x48, 0x69, 0xE2, 0x3F])).chars =
    [0x48, 0x69, 0x3F] := by
  have h := (reads_typed_text [0x48, 0x69, 0xE2, 0x3F] (r := {}) fun _ => rfl).2.1
  rw [h]
  decide

end KeyReader
end X86Emu
