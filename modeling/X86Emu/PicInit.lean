import X86Emu.Devices.Pic

/-!
# Initialising the two controllers

Interleavings of the port writes of two drivers, one for each chip, each made of full
initialisations and mask writes. The controllers share one "ICW2 expected" state and know no ICW3 or
ICW4, so an initialisation never leaves its chip's mask register alone.
-/
namespace X86Emu

namespace PicInit

/-- The bytes of a full initialisation; ICW1 announces an ICW4. -/
structure Icw where
  icw1 : U8
  icw2 : U8
  icw3 : U8
  icw4 : U8
  isIcw1 : test icw1 0x10 = true
  needsIcw4 : test icw1 0x01 = true

/-- What a driver does to its chip. -/
inductive Block where
  | init (i : Icw)
  | mask (v : U8)

/-- A port write; `ends` marks the last byte of an initialisation. -/
structure Write where
  slave : Bool
  command : Bool
  val : U8
  ends : Option Icw

def Block.writes (slave : Bool) : Block → List Write
  | .init i =>
    [⟨slave, true, i.icw1, none⟩, ⟨slave, false, i.icw2, none⟩, ⟨slave, false, i.icw3, none⟩,
      ⟨slave, false, i.icw4, some i⟩]
  | .mask v => [⟨slave, false, v, none⟩]

/-- The port writes of a chip's driver. -/
def program (slave : Bool) (blocks : List Block) : List Write :=
  blocks.flatMap (Block.writes slave)

/-- The writes of one chip. -/
def own (slave : Bool) (writes : List Write) : List Write := writes.filter (·.slave == slave)

def write (p : Pic) (w : Write) : Pic :=
  if w.command then p.writeCommand (if w.slave then 0xA0 else 0x20) w.val
  else p.writeData (if w.slave then 0xA1 else 0x21) w.val

def run (p : Pic) (writes : List Write) : Pic := writes.foldl write p

def base (slave : Bool) (p : Pic) : U8 := if slave then p.slaveBase else p.masterBase
def imr (slave : Bool) (p : Pic) : U8 := if slave then p.slaveImr else p.masterImr

/-- The registers an initialisation concerns: base vector, mask, and whether ICW2 is expected. -/
def view (slave : Bool) (p : Pic) : U8 × U8 × Bool := (base slave p, imr slave p, p.icw2Pending)

/-- After an initialisation the base is its ICW2 and the mask register holds neither ICW3 nor
ICW4. -/
def InitOk (slave : Bool) (p : Pic) (i : Icw) : Prop :=
  base slave p = i.icw2 &&& 0xF8 ∧ imr slave p ≠ i.icw3 ∧ imr slave p ≠ i.icw4

/-- Each chip ends as its own driver alone would leave it, and each initialisation took. -/
structure PerChip (p : Pic) (writes : List Write) : Prop where
  alone : ∀ slave, view slave (run p writes) = view slave (run p (own slave writes))
  inits : ∀ pre w post i, writes = pre ++ w :: post → w.ends = some i →
    InitOk w.slave (run p (pre ++ [w])) i

/-! ## One port write -/

theorem write_data (p : Pic) (slave : Bool) (v : U8) (e : Option Icw) :
    (write p ⟨slave, false, v, e⟩).icw2Pending = false ∧
    (∀ c, imr c (write p ⟨slave, false, v, e⟩) =
      if p.icw2Pending = false ∧ c = slave then v else imr c p) ∧
    ∀ c, base c (write p ⟨slave, false, v, e⟩) =
      if p.icw2Pending = true ∧ c = slave then v &&& 0xF8 else base c p := by
  unfold write Pic.writeData
  cases hp : p.icw2Pending <;> cases slave <;>
  · refine ⟨?_, ?_, ?_⟩
    · simp
    · intro c
      cases c <;> simp [imr]
    · intro c
      cases c <;> simp [base]

theorem write_icw1 (p : Pic) (slave : Bool) (i : Icw) (e : Option Icw) :
    (write p ⟨slave, true, i.icw1, e⟩).icw2Pending = true ∧
    ∀ c, imr c (write p ⟨slave, true, i.icw1, e⟩) = imr c p := by
  unfold write Pic.writeCommand
  cases slave <;>
  · simp only [i.isIcw1, if_true, Bool.false_eq_true, if_false]
    refine ⟨?_, ?_⟩
    · split <;> rfl
    · intro c
      cases c <;> · simp only [imr]; split <;> rfl

/-! ## Mask writes alone -/

/-- With no initialisation anywhere, each chip sees its own masks only. -/
theorem view_masks (slave : Bool) (writes : List Write)
    (hw : ∀ w ∈ writes, w.command = false) : ∀ p q : Pic, p.icw2Pending = false →
    q.icw2Pending = false → view slave p = view slave q →
    view slave (run p writes) = view slave (run q (own slave writes)) := by
  induction writes with
  | nil =>
    intro p q _ _ h
    exact h
  | cons w writes ih =>
    intro p q hp hq h
    obtain ⟨ws, c, v, e⟩ := w
    have hc : c = false := hw ⟨ws, c, v, e⟩ List.mem_cons_self
    subst hc
    obtain ⟨hp', himr, hbase⟩ := write_data p ws v e
    obtain ⟨hq', himr', hbase'⟩ := write_data q ws v e
    have hih := ih (fun w hm => hw w (List.mem_cons_of_mem _ hm))
    simp only [view, Prod.mk.injEq] at h
    by_cases hs : ws = slave
    · have hown : own slave (⟨ws, false, v, e⟩ :: writes) = ⟨ws, false, v, e⟩ :: own slave writes := by
        simp [own, hs]
      rw [hown]
      apply hih _ _ hp' hq'
      simp only [view, himr, hbase, himr', hbase', hp, hq, hp', hq', h.1, h.2.1]
    · have hown : own slave (⟨ws, false, v, e⟩ :: writes) = own slave writes := by
        simp [own, hs]
      rw [hown]
      apply hih _ _ hp' hq
      have hsw : ¬ slave = ws := fun he => hs he.symm
      simp only [view, himr, hbase, hp', hq, h.1, h.2.1, hsw, and_false, if_false]

/-! ## Where an initialisation stands -/

/-- The byte a chip's driver sends next within an initialisation. -/
inductive Phase where
  | idle
  | icw2 (i : Icw)
  | icw3 (i : Icw)
  | icw4 (i : Icw)

/-- What is left of a driver's program. -/
structure Driver where
  phase : Phase
  blocks : List Block

def Phase.rest (slave : Bool) : Phase → List Write
  | .idle => []
  | .icw2 i => [⟨slave, false, i.icw2, none⟩, ⟨slave, false, i.icw3, none⟩,
      ⟨slave, false, i.icw4, some i⟩]
  | .icw3 i => [⟨slave, false, i.icw3, none⟩, ⟨slave, false, i.icw4, some i⟩]
  | .icw4 i => [⟨slave, false, i.icw4, some i⟩]

def Driver.rest (slave : Bool) (d : Driver) : List Write :=
  d.phase.rest slave ++ program slave d.blocks

/-- An initialisation is under way or still to come. -/
def Driver.inits (d : Driver) : Prop := d.phase ≠ .idle ∨ ∃ i, .init i ∈ d.blocks

/-- The moves of a driver: the byte it writes and where that leaves it. -/
inductive Moves (slave : Bool) : Driver → Write → Driver → Prop where
  | icw1 (i bs) : Moves slave ⟨.idle, .init i :: bs⟩ ⟨slave, true, i.icw1, none⟩ ⟨.icw2 i, bs⟩
  | icw2 (i bs) : Moves slave ⟨.icw2 i, bs⟩ ⟨slave, false, i.icw2, none⟩ ⟨.icw3 i, bs⟩
  | icw3 (i bs) : Moves slave ⟨.icw3 i, bs⟩ ⟨slave, false, i.icw3, none⟩ ⟨.icw4 i, bs⟩
  | icw4 (i bs) : Moves slave ⟨.icw4 i, bs⟩ ⟨slave, false, i.icw4, some i⟩ ⟨.idle, bs⟩
  | mask (v bs) : Moves slave ⟨.idle, .mask v :: bs⟩ ⟨slave, false, v, none⟩ ⟨.idle, bs⟩

theorem moves_of_rest {slave : Bool} {d : Driver} {w : Write} {ws : List Write}
    (h : d.rest slave = w :: ws) : ∃ d', Moves slave d w d' ∧ d'.rest slave = ws := by
  obtain ⟨phase, blocks⟩ := d
  cases phase with
  | idle =>
    cases blocks with
    | nil => cases h
    | cons b bs =>
      cases b with
      | init i =>
        injection h with h1 h2
        subst h1
        exact ⟨_, .icw1 i bs, h2⟩
      | mask v =>
        injection h with h1 h2
        subst h1
        exact ⟨_, .mask v bs, h2⟩
  | icw2 i =>
    injection h with h1 h2
    subst h1
    exact ⟨_, .icw2 i blocks, h2⟩
  | icw3 i =>
    injection h with h1 h2
    subst h1
    exact ⟨_, .icw3 i blocks, h2⟩
  | icw4 i =>
    injection h with h1 h2
    subst h1
    exact ⟨_, .icw4 i blocks, h2⟩

/-- Before the first initialisation completes: an expected ICW2 is some chip's own, and a chip that
awaits its ICW4 has taken ICW3 for a mask, unless the other chip's ICW1 took it, which cannot happen
again before that chip's own ICW4. -/
structure Unfinished (p : Pic) (d : Bool → Driver) : Prop where
  pending : p.icw2Pending = true → ∃ c i, (d c).phase = .icw2 i
  taken : ∀ c i, (d c).phase = .icw4 i →
    imr c p = i.icw3 ∨ (p.icw2Pending = false ∧ (d !c).phase ≠ .idle)

/-- An ICW4 that follows leaves ICW3 or ICW4 in the mask register. -/
theorem not_initOk {p : Pic} {d : Bool → Driver} (hu : Unfinished p d) {c : Bool} {i : Icw}
    (hc : (d c).phase = .icw4 i) : ¬ InitOk c (write p ⟨c, false, i.icw4, some i⟩) i := by
  intro hok
  obtain ⟨-, himr, -⟩ := write_data p c i.icw4 (some i)
  obtain ⟨-, h3, h4⟩ := hok
  rw [himr] at h3 h4
  cases hp : p.icw2Pending with
  | false =>
    rw [if_pos ⟨hp, rfl⟩] at h4
    exact h4 rfl
  | true =>
    rw [if_neg (by simp [hp])] at h3
    rcases hu.taken c i hc with hm | ⟨hf, -⟩
    · exact h3 hm
    · simp [hp] at hf

/-- The drivers after one of them has moved. -/
def moved (d : Bool → Driver) (c : Bool) (x : Driver) : Bool → Driver :=
  fun k => if k = c then x else d k

theorem moved_self (d : Bool → Driver) (c : Bool) (x : Driver) : moved d c x c = x := if_pos rfl

theorem moved_other (d : Bool → Driver) (c : Bool) (x : Driver) : moved d c x (!c) = d !c :=
  if_neg (by cases c <;> decide)

/-- Short of an ICW4, every move keeps the bookkeeping. -/
theorem unfinished_move {p : Pic} {d : Bool → Driver} (hu : Unfinished p d) {c : Bool} {w : Write}
    {x : Driver} (hm : Moves c (d c) w x) (he : w.ends = none) :
    Unfinished (write p w) (moved d c x) := by
  have hcase (k : Bool) : k = c ∨ k = !c := by cases k <;> cases c <;> simp
  generalize hd : d c = dc at hm
  cases hm with
  | icw1 i bs =>
    obtain ⟨hp, himr⟩ := write_icw1 p c i none
    refine ⟨?_, ?_⟩
    · intro _
      exact ⟨c, i, by rw [moved_self]⟩
    · intro k j hk
      rcases hcase k with rfl | rfl
      · rw [moved_self] at hk
        cases hk
      · rw [moved_other] at hk
        rcases hu.taken _ j hk with h | ⟨-, h⟩
        · rw [himr]
          exact .inl h
        · rw [Bool.not_not, hd] at h
          exact absurd rfl h
  | icw2 i bs =>
    obtain ⟨hp, himr, -⟩ := write_data p c i.icw2 none
    refine ⟨fun h => by simp [hp] at h, ?_⟩
    intro k j hk
    rcases hcase k with rfl | rfl
    · rw [moved_self] at hk
      cases hk
    · rw [moved_other] at hk
      rw [hp, himr, if_neg (by cases c <;> simp), Bool.not_not, moved_self]
      rcases hu.taken _ j hk with h | -
      · exact .inl h
      · exact .inr ⟨rfl, by simp⟩
  | icw3 i bs =>
    obtain ⟨hp, himr, -⟩ := write_data p c i.icw3 none
    refine ⟨fun h => by simp [hp] at h, ?_⟩
    intro k j hk
    rcases hcase k with rfl | rfl
    · rw [moved_self] at hk
      obtain rfl : i = j := by injection hk
      rw [himr, hp, moved_other]
      cases hpend : p.icw2Pending with
      | false =>
        left
        rw [if_pos ⟨rfl, rfl⟩]
      | true =>
        -- the other chip's ICW1 is the one pending
        obtain ⟨c', i', hc'⟩ := hu.pending hpend
        rcases hcase c' with rfl | rfl
        · rw [hd] at hc'
          cases hc'
        · right
          refine ⟨rfl, ?_⟩
          rw [hc']
          simp
    · rw [moved_other] at hk
      rw [hp, himr, if_neg (by cases c <;> simp), Bool.not_not, moved_self]
      rcases hu.taken _ j hk with h | -
      · exact .inl h
      · exact .inr ⟨rfl, by simp⟩
  | icw4 i bs => cases he
  | mask v bs =>
    obtain ⟨hp, himr, -⟩ := write_data p c v none
    refine ⟨fun h => by simp [hp] at h, ?_⟩
    intro k j hk
    rcases hcase k with rfl | rfl
    · rw [moved_self] at hk
      cases hk
    · rw [moved_other] at hk
      rw [himr, if_neg (by cases c <;> simp)]
      rcases hu.taken _ j hk with h | ⟨-, h⟩
      · exact .inl h
      · rw [Bool.not_not, hd] at h
        exact absurd rfl h

/-- A driver that has an initialisation before it keeps it, until the ICW4. -/
theorem inits_move {c : Bool} {d x : Driver} {w : Write} (hm : Moves c d w x) (he : w.ends = none)
    (h : d.inits) : x.inits := by
  cases hm with
  | icw1 i bs => exact .inl (by simp)
  | icw2 i bs => exact .inl (by simp)
  | icw3 i bs => exact .inl (by simp)
  | icw4 i bs => cases he
  | mask v bs =>
    rcases h with h | ⟨i, hi⟩
    · exact absurd rfl h
    · right
      refine ⟨i, ?_⟩
      rcases List.mem_cons.mp hi with hi | hi
      · cases hi
      · exact hi

theorem moves_ends {c : Bool} {d x : Driver} {w : Write} {i : Icw} (hm : Moves c d w x)
    (he : w.ends = some i) : d.phase = .icw4 i ∧ w = ⟨c, false, i.icw4, some i⟩ := by
  cases hm with
  | icw4 j bs =>
    obtain rfl : j = i := Option.some.inj he
    exact ⟨rfl, rfl⟩
  | icw1 j bs => cases he
  | icw2 j bs => cases he
  | icw3 j bs => cases he
  | mask v bs => cases he

/-- The first initialisation to complete does not take. -/
theorem exists_bad_init (writes : List Write) : ∀ (p : Pic) (d : Bool → Driver), Unfinished p d →
    (∀ c, own c writes = (d c).rest c) → (∃ c, (d c).inits) →
    ∃ pre w post i, writes = pre ++ w :: post ∧ w.ends = some i ∧
      ¬ InitOk w.slave (run p (pre ++ [w])) i := by
  induction writes with
  | nil =>
    intro p d _ hown ⟨c, hi⟩
    have hrest := (hown c).symm
    have hnil : (d c).rest c = [] := hrest
    rcases hi with hph | ⟨i, hb⟩
    · cases hp : (d c).phase with
      | idle => exact absurd hp hph
      | icw2 i => rw [Driver.rest, hp] at hnil; cases hnil
      | icw3 i => rw [Driver.rest, hp] at hnil; cases hnil
      | icw4 i => rw [Driver.rest, hp] at hnil; cases hnil
    · have hp := (List.append_eq_nil_iff.mp hnil).2
      have hb' := List.flatMap_eq_nil_iff.mp hp (.init i) hb
      cases hb'
  | cons w writes ih =>
    intro p d hu hown hinit
    have hfirst : own w.slave (w :: writes) = w :: own w.slave writes := by simp [own]
    obtain ⟨x, hm, hx⟩ := moves_of_rest ((hown w.slave).symm.trans hfirst)
    cases he : w.ends with
    | some i =>
      obtain ⟨hph, hw⟩ := moves_ends hm he
      refine ⟨[], w, writes, i, rfl, he, ?_⟩
      have hbad := not_initOk hu hph
      rw [← hw] at hbad
      exact hbad
    | none =>
      have hown' : ∀ c, own c writes = (moved d w.slave x c).rest c := by
        intro c
        by_cases hc : c = w.slave
        · subst hc
          rw [moved_self]
          exact hx.symm
        · have hskip : own c (w :: writes) = own c writes :=
            List.filter_cons_of_neg (by rw [beq_iff_eq]; exact Ne.symm hc)
          rw [moved, if_neg hc, ← hown c, hskip]
      have hinit' : ∃ c, (moved d w.slave x c).inits := by
        obtain ⟨c, hi⟩ := hinit
        refine ⟨c, ?_⟩
        by_cases hc : c = w.slave
        · subst hc
          rw [moved_self]
          exact inits_move hm he hi
        · rw [moved, if_neg hc]
          exact hi
      obtain ⟨pre, w', post, i, heq, hends, hbad⟩ :=
        ih (write p w) (moved d w.slave x) (unfinished_move hu hm he) hown' hinit'
      exact ⟨w :: pre, w', post, i, by rw [heq]; rfl, hends, hbad⟩

/-! ## The claim -/

theorem mem_program {slave : Bool} {blocks : List Block} (h : ∀ i, .init i ∉ blocks) {w : Write}
    (hw : w ∈ program slave blocks) : w.command = false ∧ w.ends = none := by
  obtain ⟨b, hb, hwb⟩ := List.mem_flatMap.mp hw
  cases b with
  | init i => exact absurd hb (h i)
  | mask v =>
    obtain rfl := List.mem_singleton.mp hwb
    exact ⟨rfl, rfl⟩

/-- Two drivers get their chips initialised apart exactly when neither initialises anything. -/
theorem perChip_iff (p : Pic) (hp : p.icw2Pending = false) (blocks : Bool → List Block)
    (writes : List Write) (hw : ∀ c, own c writes = program c (blocks c)) :
    PerChip p writes ↔ ∀ c i, .init i ∉ blocks c := by
  constructor
  · intro h c i hi
    let d : Bool → Driver := fun c => ⟨.idle, blocks c⟩
    have hu : Unfinished p d := by
      refine ⟨fun hf => by simp [hp] at hf, ?_⟩
      intro k j hk
      cases hk
    obtain ⟨pre, w, post, j, heq, hends, hbad⟩ :=
      exists_bad_init writes p d hu (fun k => hw k) ⟨c, .inr ⟨i, hi⟩⟩
    exact hbad (h.inits pre w post j heq hends)
  · intro h
    have hmem : ∀ w ∈ writes, w.command = false ∧ w.ends = none := by
      intro w hm
      have hown : w ∈ own w.slave writes := List.mem_filter.mpr ⟨hm, by simp⟩
      rw [hw] at hown
      exact mem_program (h w.slave) hown
    refine ⟨?_, ?_⟩
    · intro slave
      exact view_masks slave writes (fun w hm => (hmem w hm).1) p p hp hp rfl
    · intro pre w post i heq he
      have hm := hmem w (by rw [heq]; simp)
      rw [hm.2] at he
      cases he

def linuxIcw (icw2 icw3 : U8) : Icw := ⟨0x11, icw2, icw3, 0x01, by decide, by decide⟩

/-- Linux initialises the master, then the slave. -/
def linuxWrites : List Write :=
  program false [.init (linuxIcw 0x30 0x04)] ++ program true [.init (linuxIcw 0x38 0x02)]

/-- After its four bytes the master's mask register holds ICW4. -/
theorem initialisation_masks_line : ¬ PerChip {} linuxWrites := by
  intro h
  have hinit := h.inits (linuxWrites.take 3) ⟨false, false, 0x01, some (linuxIcw 0x30 0x04)⟩
    (linuxWrites.drop 4) (linuxIcw 0x30 0x04) rfl rfl
  exact hinit.2.2 rfl

theorem perChip_masks : PerChip {} (program false [.mask 0xFB] ++ program true [.mask 0xFF]) := by
  refine (perChip_iff {} rfl (fun c => if c then [.mask 0xFF] else [.mask 0xFB]) _ ?_).mpr ?_
  · intro c
    cases c <;> rfl
  · intro c i
    cases c <;> simp

end PicInit
end X86Emu
