import X86Emu.Deliver
import X86Emu.Port
import X86Emu.Lib.StateRules

/-!
# PIO transfers

A driver's session with the IDE controller: task file, command, data words, and the samplings of the
devices in between. WRITE SECTORS only fills the transfer buffer, which nothing moves to the disk,
and a command is over before a sampling could see the controller busy.
-/
namespace X86Emu

namespace IdePio

open StateRules

inductive Op where
  | reg (i : Fin 6) (v : U8)
  | command (v : U8)
  | dataOut (v : U16)
  | dataIn
  | taskIn (i : Fin 8) (wide : Bool)
  | sample

/-- The task-file registers that are written, and those that are read. -/
def regPort (i : Fin 6) : U16 := 0x1F1 + BitVec.ofNat 16 i
def taskPort (i : Fin 8) : U16 := if i = 7 then 0x3F6 else 0x1F1 + BitVec.ofNat 16 i

/-- One access, and the word it returned if it read the data port. -/
def step (s : Cpu) : Op → Option U16 × Cpu
  | .reg i v => (none, (portOut (regPort i) v s).2)
  | .command v => (none, (portOut 0x1F7 v s).2)
  | .dataOut v => (none, (portOut16 0x1F0 v s).2)
  | .dataIn => (some (portIn16 0x1F0 s).1, (portIn16 0x1F0 s).2)
  | .taskIn i wide =>
    (none, if wide then (portIn16 (taskPort i) s).2 else (portIn (taskPort i) s).2)
  | .sample => (none, s.collectIrqs)

/-- The words a session reads, and the machine after it. -/
def run : List Op → Cpu → List U16 × Cpu
  | [], s => ([], s)
  | op :: ops, s =>
    ((step s op).1.toList ++ (run ops (step s op).2).1, (run ops (step s op).2).2)

/-- The times a step, and a session, raise IRQ14. -/
def raisesNow (s : Cpu) : Op → Nat
  | .sample => if s.ide.busy then 1 else 0
  | _ => 0

def raises : List Op → Cpu → Nat
  | [], _ => 0
  | op :: ops, s => raisesNow s op + raises ops (step s op).2

/-- The virtio window, which the guest places, is elsewhere. -/
def WindowClear (s : Cpu) : Prop :=
  (∀ port : U16, 0x1F0 ≤ port ∧ port ≤ 0x1F7 → s.virtioPort port = none) ∧
    s.virtioPort 0x3F6 = none

/-! ## The controller -/

/-- What an access does to the controller. -/
def effect (d : Ide) : Op → Option U16 × Ide
  | .reg i v => (none, d.writeReg (regPort i) v)
  | .command v => (none, d.writeCommand v)
  | .dataOut v => (none, d.writeData v)
  | .dataIn => (some d.readData.1, d.readData.2)
  | .taskIn .. => (none, d)
  | .sample => (none, d)

def effects : List Op → Ide → List U16 × Ide
  | [], d => ([], d)
  | op :: ops, d =>
    ((effect d op).1.toList ++ (effects ops (effect d op).2).1, (effects ops (effect d op).2).2)

theorem effects_append (l₁ l₂ : List Op) (d : Ide) :
    effects (l₁ ++ l₂) d =
      ((effects l₁ d).1 ++ (effects l₂ (effects l₁ d).2).1, (effects l₂ (effects l₁ d).2).2) := by
  induction l₁ generalizing d with
  | nil => rfl
  | cons op ops ih => simp only [List.cons_append, effects, ih, List.append_assoc]

/-- Task-file reads and samplings. -/
def idle : Op → Bool
  | .taskIn .. => true
  | .sample => true
  | _ => false

theorem effects_filter (l : List Op) (d : Ide) :
    effects (l.filter (!idle ·)) d = effects l d := by
  induction l generalizing d with
  | nil => rfl
  | cons op ops ih =>
    have hdo (op : Op) (h : idle op = false) :
        effects ((op :: ops).filter (!idle ·)) d = effects (op :: ops) d := by
      rw [List.filter_cons_of_pos (by rw [h]; rfl), effects, effects, ih]
    cases op with
    | taskIn | sample => exact ih d
    | _ => exact hdo _ rfl

/-- No access writes the disk, nor leaves the controller busy. -/
structure Kept (d e : Ide) : Prop where
  disk : e.disk = d.disk
  present : e.present = d.present
  busy : d.busy = false → e.busy = false

theorem Kept.trans {d e f : Ide} (h : Kept d e) (g : Kept e f) : Kept d f :=
  ⟨g.disk.trans h.disk, g.present.trans h.present, fun hb => g.busy (h.busy hb)⟩

theorem kept_effect (d : Ide) (op : Op) : Kept d (effect d op).2 := by
  cases op with
  | reg i v =>
    simp only [effect, Ide.writeReg]
    split_ifs <;> exact ⟨rfl, rfl, id⟩
  | command v =>
    simp only [effect, Ide.writeCommand]
    split_ifs <;> exact ⟨rfl, rfl, fun _ => rfl⟩
  | dataOut v =>
    simp only [effect, Ide.writeData]
    split_ifs <;> exact ⟨rfl, rfl, id⟩
  | dataIn =>
    simp only [effect, Ide.readData]
    split_ifs <;> exact ⟨rfl, rfl, id⟩
  | taskIn => exact ⟨rfl, rfl, id⟩
  | sample => exact ⟨rfl, rfl, id⟩

theorem kept_effects (l : List Op) (d : Ide) : Kept d (effects l d).2 := by
  induction l generalizing d with
  | nil => exact ⟨rfl, rfl, id⟩
  | cons op ops ih => exact (kept_effect d op).trans (ih _)

/-! ## The ports -/

/-- The controller and the configuration space are as they were. -/
structure Untouched (s t : Cpu) : Prop where
  ide : t.ide = s.ide
  pci : t.pci = s.pci

theorem Untouched.trans {s t u : Cpu} (h : Untouched s t) (g : Untouched t u) : Untouched s u :=
  ⟨g.ide.trans h.ide, g.pci.trans h.pci⟩

theorem untouched_ite {c : Prop} [Decidable c] {α : Type} {s : Cpu} {p q : α × Cpu}
    (hp : Untouched s p.2) (hq : Untouched s q.2) : Untouched s (if c then p else q).2 := by
  split
  · exact hp
  · exact hq

/-- Reading a byte port leaves both. -/
theorem portIn_untouched (port : U16) (s : Cpu) : Untouched s (portIn port s).2 := by
  have hdevice : Untouched s (deviceIn port s).2 := by
    unfold deviceIn
    repeat' refine untouched_ite ?_ ?_
    all_goals exact ⟨rfl, rfl⟩
  rw [portIn, bind_run, get_run]
  dsimp only
  cases s.virtioPort port with
  | some off => exact ⟨rfl, rfl⟩
  | none =>
    cases pciLane port with
    | some lane => exact ⟨rfl, rfl⟩
    | none => exact hdevice

theorem portIn16_untouched {port : U16} (hp : port ≠ 0x1F0) (s : Cpu) :
    Untouched s (portIn16 port s).2 := by
  rw [portIn16, bind_run, get_run]
  dsimp only
  cases s.virtioPort port with
  | some off => exact ⟨rfl, rfl⟩
  | none =>
    cases pciLane port with
    | some lane => exact ⟨rfl, rfl⟩
    | none =>
      dsimp only
      rw [if_neg hp]
      split
      · exact ⟨rfl, rfl⟩
      split
      · exact ⟨rfl, rfl⟩
      · exact (portIn_untouched port s).trans (portIn_untouched (port + 1) _)

theorem taskPort_ne (i : Fin 8) : taskPort i ≠ 0x1F0 := by
  revert i
  decide

/-- A sampling ends with the controller's line: IRQ14 is raised when it is busy. -/
theorem collectIrqs_eq (s : Cpu) :
    ∃ t, Untouched s t ∧ s.collectIrqs =
      if s.ide.busy then { t with ide := { t.ide with busy := false } }.raiseIrq 14 else t := by
  have hite {c : Prop} [Decidable c] {t u : Cpu} (hu : Untouched t u) :
      Untouched t (if c then u else t) := by
    split
    · exact hu
    · exact ⟨rfl, rfl⟩
  have htimer (t : Cpu) : Untouched t
      (if t.pit.irq0 then { t with pit := { t.pit with irq0 := false } }.raiseIrq 0 else t) :=
    hite ⟨rfl, rfl⟩
  have hkey (t : Cpu) : Untouched t t.typeNextKey := by
    unfold Cpu.typeNextKey
    split
    · exact hite ⟨rfl, rfl⟩
    · exact ⟨rfl, rfl⟩
  have hkbd (t : Cpu) : Untouched t
      (if t.kbd.irq1 then { t with kbd := { t.kbd with irq1 := false } }.raiseIrq 1 else t) :=
    hite ⟨rfl, rfl⟩
  have hvirtio (t : Cpu) : Untouched t (if t.virtio.irq then t.raiseIrq virtioIrq else t) :=
    hite ⟨rfl, rfl⟩
  have hticks : Untouched s s.tickTimers := ⟨rfl, rfl⟩
  have hbefore := (((hticks.trans (htimer _)).trans (hkey _)).trans (hkbd _)).trans (hvirtio _)
  exact ⟨_, hbefore, by rw [← hbefore.ide]; rfl⟩

theorem collectIrqs_untouched {s : Cpu} (hb : s.ide.busy = false) : Untouched s s.collectIrqs := by
  obtain ⟨t, ht, h⟩ := collectIrqs_eq s
  rw [h, hb]
  exact ht

theorem ide_pci_of_eq {s t : Cpu} {d : Ide} (h : t = { s with ide := d }) :
    t.ide = d ∧ t.pci = s.pci := by
  rw [h]
  exact ⟨rfl, rfl⟩

theorem step_effect {s : Cpu} (hc : WindowClear s) (hb : s.ide.busy = false) (op : Op) :
    (step s op).1 = (effect s.ide op).1 ∧ (step s op).2.ide = (effect s.ide op).2 ∧
      (step s op).2.pci = s.pci := by
  cases op with
  | reg i v =>
    have hport : ∀ i : Fin 6, (0x1F0 ≤ regPort i ∧ regPort i ≤ 0x1F7) ∧ pciLane (regPort i) = none := by
      decide
    have hd : deviceOut (regPort i) v s = { s with ide := s.ide.writeReg (regPort i) v } := by
      fin_cases i <;> rfl
    have hrun : (portOut (regPort i) v s).2 = { s with ide := s.ide.writeReg (regPort i) v } := by
      rw [portOut, bind_run, get_run]
      dsimp only
      rw [hc.1 _ (hport i).1, (hport i).2]
      exact hd
    exact ⟨rfl, ide_pci_of_eq hrun⟩
  | command v =>
    have hrun : (portOut 0x1F7 v s).2 = { s with ide := s.ide.writeCommand v } := by
      rw [portOut, bind_run, get_run]
      dsimp only
      rw [hc.1 0x1F7 (by decide)]
      rfl
    exact ⟨rfl, ide_pci_of_eq hrun⟩
  | dataOut v =>
    have hrun : (portOut16 0x1F0 v s).2 = { s with ide := s.ide.writeData v } := by
      rw [portOut16, bind_run, get_run]
      dsimp only
      rw [hc.1 0x1F0 (by decide)]
      rfl
    exact ⟨rfl, ide_pci_of_eq hrun⟩
  | dataIn =>
    have hrun : portIn16 0x1F0 s = (s.ide.readData.1, { s with ide := s.ide.readData.2 }) := by
      rw [portIn16, bind_run, get_run]
      dsimp only
      rw [hc.1 0x1F0 (by decide)]
      rfl
    exact ⟨congrArg some (congrArg Prod.fst hrun), ide_pci_of_eq (congrArg Prod.snd hrun)⟩
  | taskIn i wide =>
    cases wide with
    | false =>
      have h := portIn_untouched (taskPort i) s
      exact ⟨rfl, h.ide, h.pci⟩
    | true =>
      have h := portIn16_untouched (taskPort_ne i) s
      exact ⟨rfl, h.ide, h.pci⟩
  | sample =>
    have h := collectIrqs_untouched hb
    exact ⟨rfl, h.ide, h.pci⟩

theorem WindowClear.of_pci {s t : Cpu} (h : t.pci = s.pci) (hc : WindowClear s) : WindowClear t := by
  have hport (port : U16) : t.virtioPort port = s.virtioPort port := by
    unfold Cpu.virtioPort
    rw [h]
  exact ⟨fun port hp => (hport port).trans (hc.1 port hp), (hport _).trans hc.2⟩

/-- A session does to the controller what its accesses do, and none of its samplings raises IRQ14. -/
theorem run_effects (ops : List Op) {s : Cpu} (hc : WindowClear s) (hb : s.ide.busy = false) :
    (run ops s).1 = (effects ops s.ide).1 ∧ (run ops s).2.ide = (effects ops s.ide).2 ∧
      raises ops s = 0 := by
  induction ops generalizing s with
  | nil => exact ⟨rfl, rfl, rfl⟩
  | cons op ops ih =>
    obtain ⟨hword, hide, hpci⟩ := step_effect hc hb op
    have hbusy : (step s op).2.ide.busy = false := by
      rw [hide]
      exact (kept_effect s.ide op).busy hb
    obtain ⟨hwords, hides, hraises⟩ := ih (hc.of_pci hpci) hbusy
    refine ⟨?_, ?_, ?_⟩
    · rw [run, effects, hword, hwords, hide]
    · rw [run, effects, hides, hide]
    · have hnow : raisesNow s op = 0 := by
        cases op with
        | sample => exact if_neg (by rw [hb]; exact Bool.false_ne_true)
        | _ => rfl
      rw [raises, hnow, hraises]

/-! ## A write and a read of the same sectors -/

/-- What the sector count names: zero means 256. -/
def sectors (count : U8) : Nat := if count = 0 then 256 else count.toNat

def program (lba : BitVec 28) (count : U8) : List Op :=
  [.reg 1 count, .reg 2 (byteOf lba 0), .reg 3 (byteOf lba 1), .reg 4 (byteOf lba 2),
    .reg 5 (0xE0 ||| byteOf lba 3)]

def writeSectors (lba : BitVec 28) (count : U8) (data : List U16) : List Op :=
  program lba count ++ .command 0x30 :: data.map .dataOut

def readSectors (lba : BitVec 28) (count : U8) : List Op :=
  program lba count ++ .command 0x20 :: List.replicate (sectors count * 256) .dataIn

/-- A 16-bit word of the disk. -/
def diskWord (disk : Array U8) (i : Nat) : U16 := le16 (disk.getD i 0) (disk.getD (i + 1) 0)

/-- The session persisted: it reads back its data, the other sectors are as they were, and its two
commands raised IRQ14 once each. -/
structure Persisted (lba : BitVec 28) (count : U8) (data : List U16) (ops : List Op) (s : Cpu) :
    Prop where
  returned : (run ops s).1 = data
  others : ∀ i, i < lba.toNat * 512 ∨ (lba.toNat + sectors count) * 512 ≤ i →
    (run ops s).2.ide.disk.getD i 0 = s.ide.disk.getD i 0
  raised : raises ops s = 2

/-- The words READ SECTORS returns: the range of the disk, of one sector where the count is zero. -/
def readBack (disk : Array U8) (lba : BitVec 28) (count : U8) : List U16 :=
  (List.range (sectors count * 256)).map fun k =>
    if k < max count.toNat 1 * 256 then diskWord disk (lba.toNat * 512 + 2 * k) else 0

/-- A zeroed disk reads back as zeroes. -/
theorem readBack_zeroed (n : Nat) (lba : BitVec 28) (count : U8) :
    readBack (Array.replicate n 0) lba count = List.replicate (sectors count * 256) 0 := by
  have hbyte (i : Nat) : (Array.replicate n (0 : U8)).getD i 0 = 0 := by
    rw [Array.getD_eq_getD_getElem?, Array.getElem?_replicate]
    split <;> rfl
  have hword (i : Nat) : diskWord (Array.replicate n 0) i = 0 := by
    rw [diskWord, hbyte, hbyte]
    rfl
  rw [readBack, List.eq_replicate_iff]
  refine ⟨by rw [List.length_map, List.length_range], fun w hw => ?_⟩
  obtain ⟨k, -, rfl⟩ := List.mem_map.mp hw
  rw [hword, ite_self]

theorem effects_program (d : Ide) (lba : BitVec 28) (count : U8) :
    (effects (program lba count) d).1 = [] ∧
      (effects (program lba count) d).2.sectorCount = count ∧
      (effects (program lba count) d).2.lba.toNat = lba.toNat := by
  have hlba : (effects (program lba count) d).2.lba =
      u32 (byteOf lba 0) ||| u32 (byteOf lba 1) <<< 8 ||| u32 (byteOf lba 2) <<< 16 |||
        u32 ((0xE0 ||| byteOf lba 3) &&& 0x0F) <<< 24 := rfl
  refine ⟨rfl, rfl, ?_⟩
  have hbits : u32 (byteOf lba 0) ||| u32 (byteOf lba 1) <<< 8 ||| u32 (byteOf lba 2) <<< 16 |||
      u32 ((0xE0 ||| byteOf lba 3) &&& 0x0F) <<< 24 = u32 lba := by
    have hhigh : ∀ x : U8, x.toNat < 16 → (0xE0 ||| x) &&& 0x0F = x := by decide
    have hlt : (byteOf lba 3).toNat < 16 := by
      rw [byteOf, BitVec.extractLsb'_toNat, Nat.shiftRight_eq_div_pow]
      have := lba.isLt
      omega
    rw [hhigh _ hlt]
    ext i hi
    simp [byteOf]
    grind
  rw [hlba, hbits, BitVec.toNat_setWidth, Nat.mod_eq_of_lt (by have := lba.isLt; omega)]

theorem effects_dataOut (data : List U16) (d : Ide) : (effects (data.map .dataOut) d).1 = [] := by
  induction data generalizing d with
  | nil => rfl
  | cons v data ih => exact ih _

/-- A word of the transfer buffer; zero past its end. -/
def bufferWord (buffer : Array U8) (i : Nat) : U16 := if i < buffer.size then diskWord buffer i else 0

/-- Data reads hand out the buffer word by word. -/
theorem effects_dataIn {buffer : Array U8} (heven : buffer.size % 2 = 0) (n : Nat) {d : Ide}
    (hd : d.dataBuffer = buffer) (hi : d.dataIndex % 2 = 0) :
    (effects (List.replicate n .dataIn) d).1 =
      (List.range n).map fun k => bufferWord buffer (d.dataIndex + 2 * k) := by
  induction n generalizing d with
  | zero => rfl
  | succ n ih =>
    rw [List.replicate_succ, List.range_succ_eq_map, List.map_cons, List.map_map, effects]
    dsimp only [effect]
    by_cases hin : d.dataIndex < buffer.size
    · have hread : d.readData = (diskWord buffer d.dataIndex, { d with dataIndex := d.dataIndex + 2 }) := by
        rw [Ide.readData, hd, if_pos (by omega)]
        rfl
      have hrest := ih (d := { d with dataIndex := d.dataIndex + 2 }) hd
        (by change (d.dataIndex + 2) % 2 = 0; omega)
      rw [hread]
      refine (congrArg (diskWord buffer d.dataIndex :: ·) hrest).trans ?_
      refine congrArg₂ List.cons (if_pos hin).symm (List.map_congr_left fun k _ => ?_)
      exact congrArg (bufferWord buffer) (by change d.dataIndex + 2 + 2 * k = d.dataIndex + 2 * (k + 1); omega)
    · have hread : d.readData = (0, d) := by
        rw [Ide.readData, hd, if_neg (by omega), if_neg hin]
      rw [hread]
      refine (congrArg ((0 : U16) :: ·) (ih hd hi)).trans ?_
      refine congrArg₂ List.cons (if_neg hin).symm (List.map_congr_left fun k _ => ?_)
      · dsimp only [Function.comp]
        rw [bufferWord, bufferWord, if_neg (by omega), if_neg (by omega)]

/-- READ SECTORS hands out the disk, however the controller was left. -/
theorem effects_readSectors {d : Ide} {lba : BitVec 28} {count : U8} (hp : d.present = true)
    (hrange : (lba.toNat + sectors count) * 512 ≤ d.disk.size) :
    (effects (readSectors lba count) d).1 = readBack d.disk lba count := by
  obtain ⟨hwords, hcount, hlba⟩ := effects_program d lba count
  have hkept := kept_effects (program lba count) d
  rw [readSectors, effects_append, hwords, List.nil_append]
  generalize (effects (program lba count) d).2 = e at *
  have hle : max count.toNat 1 ≤ sectors count := by
    unfold sectors
    split
    · rename_i h
      rw [h]
      decide
    · rename_i h
      have : count.toNat ≠ 0 := fun h0 => h (BitVec.eq_of_toNat_eq h0)
      omega
  have hfits : e.present = true ∧ e.lba.toNat * 512 + max e.sectorCount.toNat 1 * 512 ≤ e.disk.size := by
    rw [hkept.present, hkept.disk, hcount, hlba]
    refine ⟨hp, le_trans ?_ hrange⟩
    rw [Nat.add_mul]
    exact Nat.add_le_add_left (Nat.mul_le_mul_right 512 hle) _
  have hbuffer : (e.writeCommand 0x20).dataBuffer =
      d.disk.extract (lba.toNat * 512) (lba.toNat * 512 + max count.toNat 1 * 512) := by
    unfold Ide.writeCommand
    dsimp only
    rw [if_pos (.inl rfl), if_pos hfits, hkept.disk, hcount, hlba]
  have hsize : (d.disk.extract (lba.toNat * 512)
      (lba.toNat * 512 + max count.toNat 1 * 512)).size = max count.toNat 1 * 512 := by
    rw [Array.size_extract]
    omega
  have hindex : (e.writeCommand 0x20).dataIndex = 0 := rfl
  rw [effects]
  dsimp only [effect, Option.toList]
  rw [List.nil_append, effects_dataIn (by rw [hsize]; omega) _ hbuffer (by rw [hindex]), hindex,
    readBack]
  refine List.map_congr_left fun k _ => ?_
  have hget (i : Nat) (hi : i < max count.toNat 1 * 512) :
      (d.disk.extract (lba.toNat * 512) (lba.toNat * 512 + max count.toNat 1 * 512)).getD i 0 =
        d.disk.getD (lba.toNat * 512 + i) 0 := by
    rw [Array.getD_eq_getD_getElem?, Array.getD_eq_getD_getElem?, Array.getElem?_extract, if_pos (by omega)]
  rw [bufferWord, hsize]
  by_cases hk : k < max count.toNat 1 * 256
  · rw [if_pos (by omega), if_pos hk, diskWord, diskWord, hget _ (by omega), hget _ (by omega)]
    simp only [Nat.zero_add, Nat.add_assoc]
  · rw [if_neg (by omega), if_neg hk]

/-- A session that writes and reads back, with task-file reads and samplings anywhere. -/
theorem session_outcome {lba : BitVec 28} {count : U8} {data : List U16} {ops : List Op} {s : Cpu}
    (hc : WindowClear s) (hb : s.ide.busy = false) (hp : s.ide.present = true)
    (hrange : (lba.toNat + sectors count) * 512 ≤ s.ide.disk.size)
    (hops : ops.filter (!idle ·) = writeSectors lba count data ++ readSectors lba count) :
    (run ops s).2.ide.disk = s.ide.disk ∧ (run ops s).1 = readBack s.ide.disk lba count ∧
      raises ops s = 0 := by
  obtain ⟨hwords, hide, hraises⟩ := run_effects ops hc hb
  refine ⟨?_, ?_, hraises⟩
  · rw [hide]
    exact (kept_effects ops s.ide).disk
  · have hkept := kept_effects (writeSectors lba count data) s.ide
    have hread := effects_readSectors (d := (effects (writeSectors lba count data) s.ide).2)
      (by rw [hkept.present, hp]) (by rw [hkept.disk]; exact hrange)
    rw [hwords, ← effects_filter, hops, effects_append, hread, hkept.disk]
    have hwrite : (effects (writeSectors lba count data) s.ide).1 = [] := by
      rw [writeSectors, effects_append, (effects_program s.ide lba count).1]
      exact effects_dataOut data _
    rw [hwrite, List.nil_append]

/-- No session persists: the disk is as it was, what is read back is what it held, and neither
command has raised IRQ14. -/
theorem never_persists {lba : BitVec 28} {count : U8} {data : List U16} {ops : List Op} {s : Cpu}
    (hc : WindowClear s) (hb : s.ide.busy = false) (hp : s.ide.present = true)
    (hrange : (lba.toNat + sectors count) * 512 ≤ s.ide.disk.size)
    (hops : ops.filter (!idle ·) = writeSectors lba count data ++ readSectors lba count) :
    ((run ops s).1 = data ↔ data = readBack s.ide.disk lba count) ∧
      (run ops s).2.ide.disk = s.ide.disk ∧ raises ops s = 0 ∧
      ¬ Persisted lba count data ops s := by
  obtain ⟨hdisk, hwords, hraises⟩ := session_outcome hc hb hp hrange hops
  refine ⟨by rw [hwords, eq_comm], hdisk, hraises, fun h => ?_⟩
  exact absurd (hraises.symm.trans h.raised) (by decide)

/-- A disk of one zeroed sector. -/
def oneSector : Cpu :=
  { Cpu.withRam 0x1000 Memory.page_le 0 with
    ide := { disk := Array.replicate 512 0, present := true } }

theorem oneSector_clear : WindowClear oneSector := by
  have hbase : oneSector.pci.virtioIoBase = some 0xC000 := by decide +kernel
  have hbelow (port : U16) (hp : port < 0xC000) : oneSector.virtioPort port = none := by
    unfold Cpu.virtioPort
    rw [hbase]
    exact if_neg fun h => absurd hp (BitVec.not_lt.mpr h.1)
  refine ⟨fun port hp => hbelow port ?_, hbelow _ (by decide)⟩
  exact BitVec.lt_def.mpr (lt_of_le_of_lt (BitVec.le_def.mp hp.2) (by decide))

/-- Nothing in a session's own accesses is idle. -/
theorem filter_session (lba : BitVec 28) (count : U8) (data : List U16) :
    (writeSectors lba count data ++ readSectors lba count).filter (!idle ·) =
      writeSectors lba count data ++ readSectors lba count := by
  rw [List.filter_eq_self]
  intro op hop
  have hprogram (h : op ∈ program lba count) : (!idle op) = true := by
    simp only [program, List.mem_cons, List.not_mem_nil, or_false] at h
    rcases h with rfl | rfl | rfl | rfl | rfl <;> rfl
  simp only [writeSectors, readSectors, List.mem_append, List.mem_cons, List.mem_map,
    List.mem_replicate] at hop
  rcases hop with (h | rfl | ⟨v, -, rfl⟩) | h | rfl | ⟨-, rfl⟩
  · exact hprogram h
  · rfl
  · rfl
  · exact hprogram h
  · rfl
  · rfl

def wordsCd : List U16 := List.replicate 256 0xABCD

theorem oneSector_never :
    ¬ Persisted 0 1 wordsCd (writeSectors 0 1 wordsCd ++ readSectors 0 1) oneSector :=
  (never_persists oneSector_clear rfl rfl (by decide +kernel) (filter_session 0 1 wordsCd)).2.2.2

/-- The sector reads back as it was, and no interrupt was raised. -/
theorem oneSector_lost :
    (run (writeSectors 0 1 wordsCd ++ readSectors 0 1) oneSector).1 = List.replicate 256 0 ∧
      raises (writeSectors 0 1 wordsCd ++ readSectors 0 1 ++ [.sample]) oneSector = 0 ∧
      ¬ Persisted 0 1 wordsCd (writeSectors 0 1 wordsCd ++ readSectors 0 1) oneSector := by
  obtain ⟨-, hwords, hraises⟩ := session_outcome oneSector_clear rfl rfl (by decide +kernel)
    (filter_session 0 1 wordsCd)
  have hzero : readBack oneSector.ide.disk 0 1 = List.replicate 256 0 := readBack_zeroed 512 0 1
  refine ⟨hwords.trans hzero, (run_effects _ oneSector_clear rfl).2.2, fun h => ?_⟩
  exact absurd (hraises.symm.trans h.raised) (by decide)

end IdePio

end X86Emu
