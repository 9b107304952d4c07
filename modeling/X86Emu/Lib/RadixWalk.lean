import Mathlib.Data.List.Basic

/-!
# Walks of a radix tree

A walk descends a tree of tables in memory, one level at a time: it reads the entry its level selects
in the current table, and goes on to the table the entry names unless the entry is absent or ends the
walk. What the walk visits depends on the key only through the slots the levels select.
-/
namespace RadixWalk

variable {Level Addr Entry : Type}

/-- One entry a walk read. -/
structure Visit (Level Addr Entry : Type) where
  level : Level
  addr : Addr
  entry : Entry

/-- How the tables of a tree are laid out. -/
structure Tree (Level Addr Entry : Type) where
  /-- The address of the entry a level selects in the table at a base. -/
  slot : Level → Addr → Addr
  read : Addr → Entry
  present : Entry → Bool
  /-- The entry ends the walk at its level. -/
  stops : Level → Entry → Bool
  /-- The base of the table an entry names. -/
  table : Entry → Addr

namespace Tree

variable (t u : Tree Level Addr Entry)

/-- The entries a walk reads, outermost first. -/
def path : List Level → Addr → List (Visit Level Addr Entry)
  | [], _ => []
  | l :: ls, base =>
    let e := t.read (t.slot l base)
    ⟨l, t.slot l base, e⟩ :: if t.present e && !t.stops l e then path ls (t.table e) else []

section Steps

variable {l : Level} {ls : List Level} {base : Addr}

@[simp] theorem path_last : t.path [l] base = [⟨l, t.slot l base, t.read (t.slot l base)⟩] := by
  rw [path]
  split <;> rfl

theorem path_absent (h : t.present (t.read (t.slot l base)) = false) :
    t.path (l :: ls) base = [⟨l, t.slot l base, t.read (t.slot l base)⟩] := by
  rw [path, if_neg (by simp [h])]

theorem path_stop (h : t.stops l (t.read (t.slot l base)) = true) :
    t.path (l :: ls) base = [⟨l, t.slot l base, t.read (t.slot l base)⟩] := by
  rw [path, if_neg (by simp [h])]

theorem path_descend (hp : t.present (t.read (t.slot l base)) = true)
    (hs : t.stops l (t.read (t.slot l base)) = false) :
    t.path (l :: ls) base = ⟨l, t.slot l base, t.read (t.slot l base)⟩ ::
      t.path ls (t.table (t.read (t.slot l base))) := by
  rw [path, if_pos (by simp [hp, hs])]

end Steps

theorem path_ne_nil {ls : List Level} (h : ls ≠ []) (base : Addr) : t.path ls base ≠ [] := by
  cases ls with
  | nil => exact absurd rfl h
  | cons l ls => exact List.cons_ne_nil _ _

theorem entry_of_mem_path {ls : List Level} {base : Addr} {v : Visit Level Addr Entry}
    (h : v ∈ t.path ls base) : v.entry = t.read v.addr := by
  induction ls generalizing base with
  | nil => cases h
  | cons l ls ih =>
    rcases List.mem_cons.mp h with rfl | h
    · rfl
    · split at h
      · exact ih h
      · cases h

theorem level_of_mem_path {ls : List Level} {base : Addr} {v : Visit Level Addr Entry}
    (h : v ∈ t.path ls base) : v.level ∈ ls := by
  induction ls generalizing base with
  | nil => cases h
  | cons l ls ih =>
    rcases List.mem_cons.mp h with rfl | h
    · exact List.mem_cons_self ..
    · split at h
      · exact List.mem_cons_of_mem l (ih h)
      · cases h

/-- Keys that select the same slots take the same path. -/
theorem path_congr {ls : List Level} (hslot : ∀ l ∈ ls, t.slot l = u.slot l)
    (hread : t.read = u.read) (hpresent : t.present = u.present) (hstops : t.stops = u.stops)
    (htable : t.table = u.table) (base : Addr) : t.path ls base = u.path ls base := by
  induction ls generalizing base with
  | nil => rfl
  | cons l ls ih =>
    have hl : t.slot l = u.slot l := hslot l (List.mem_cons_self ..)
    rw [path, path, hl, hread, hpresent, hstops, htable,
      ih fun k hk => hslot k (List.mem_cons_of_mem l hk)]

/-- A walk depends on the entries it reads only. -/
theorem path_read_congr (read : Addr → Entry) {ls : List Level} {base : Addr}
    (h : ∀ v ∈ t.path ls base, read v.addr = t.read v.addr) :
    Tree.path { t with read } ls base = t.path ls base := by
  induction ls generalizing base with
  | nil => rfl
  | cons l ls ih =>
    have hfirst : read (t.slot l base) = t.read (t.slot l base) := h _ (List.mem_cons_self ..)
    rw [path, path]
    simp only [hfirst]
    refine congrArg (_ :: ·) ?_
    split
    · rename_i hgo
      refine ih fun v hv => h v (List.mem_cons_of_mem _ ?_)
      rwa [if_pos hgo]
    · rfl

/-! ## Aligned tables -/

section Aligned

variable {ls : List Level} {Base Slot : Addr → Prop} {base : Addr}

/-- A walk of tables at good bases reads entries at good slots only. -/
theorem addr_of_mem_path (hslot : ∀ l ∈ ls, ∀ b, Base b → Slot (t.slot l b))
    (htable : ∀ e, Base (t.table e)) (hbase : Base base) {v : Visit Level Addr Entry}
    (h : v ∈ t.path ls base) : Slot v.addr := by
  induction ls generalizing base with
  | nil => cases h
  | cons l ls ih =>
    rcases List.mem_cons.mp h with rfl | h
    · exact hslot l (List.mem_cons_self ..) base hbase
    · split at h
      · exact ih (fun k hk => hslot k (List.mem_cons_of_mem l hk)) (htable _) h
      · cases h

/-- Where entries change only in bits that a walk does not follow, it visits the same addresses. -/
theorem path_reread (hslot : ∀ l ∈ ls, ∀ b, Base b → Slot (t.slot l b))
    (htable : ∀ e, Base (t.table e)) (read : Addr → Entry)
    (hread : ∀ a, Slot a → t.present (read a) = t.present (t.read a) ∧
      t.table (read a) = t.table (t.read a) ∧ ∀ l, t.stops l (read a) = t.stops l (t.read a))
    (hbase : Base base) :
    Tree.path { t with read } ls base =
      (t.path ls base).map fun v => { v with entry := read v.addr } := by
  induction ls generalizing base with
  | nil => rfl
  | cons l ls ih =>
    obtain ⟨hpresent, htab, hstops⟩ := hread _ (hslot l (List.mem_cons_self ..) base hbase)
    have hrest := ih (fun k hk => hslot k (List.mem_cons_of_mem l hk))
      (htable (t.read (t.slot l base)))
    rw [path, path, List.map_cons]
    refine congrArg (_ :: ·) ?_
    dsimp only
    rw [hpresent, hstops, htab]
    split
    · exact hrest
    · rfl

end Aligned

end Tree

end RadixWalk
