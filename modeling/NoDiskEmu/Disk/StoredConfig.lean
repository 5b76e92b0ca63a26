import Mathlib.Algebra.Group.Nat.Defs
import Mathlib.Data.List.Nodup
import Mathlib.Data.List.TakeWhile
import Mathlib.Logic.Function.Basic
import NoDiskEmu.Library.Run

/-! `eeprom-conf.c`: the settings that a device keeps in its EEPROM. -/

namespace NoDiskEmu.StoredConfig

open Library

def EXTENSION_HIDING : UInt8 := 8
def POSTMATCH : UInt8 := 16
def ROM_NAME_LENGTH : ℕ := 16

/-- The flags that are stored. -/
def permanent : UInt8 := POSTMATCH ||| EXTENSION_HIDING

/-! ### The settings -/

/-- The string in `rom_filename`. -/
@[ext] structure RomName where
  bytes : List UInt8
  short : bytes.length ≤ ROM_NAME_LENGTH
  noNul : ∀ x ∈ bytes, x ≠ 0

/-- The bytes in front of the first NUL. -/
def RomName.ofBytes (l : List UInt8) (h : l.length ≤ ROM_NAME_LENGTH) : RomName where
  bytes := l.takeWhile (· ≠ 0)
  short := Nat.le_trans (l.takeWhile_sublist _).length_le h
  noNul x hx := by simpa using List.mem_takeWhile_imp hx

def RomName.empty : RomName := ⟨[], Nat.zero_le _, fun _ h => absurd h List.not_mem_nil⟩

/-- The variables that the EEPROM keeps. -/
structure Settings where
  globalflags : UInt8
  deviceAddress : UInt8
  fileExtensionMode : UInt8
  driveConfig : UInt32
  imageAsDir : UInt8
  romFilename : RomName
  activeBus : UInt8
  menuSystemEnabled : UInt8
  lcdContrast : UInt8
  lcdBrightness : UInt8

/-- What the configuration of a board decides, and the values of the variables after a reset. -/
structure Board where
  needDiskmux : Bool
  haveDualInterface : Bool
  hwAddrOrButtons : Bool
  onboardDisplay : Bool
  defaultDriveconfig : UInt32
  reset : Settings

/-- `device_hw_address`: the jumpers count only while the menu system is off on some boards. -/
abbrev Jumpers := UInt8 → UInt8

structure Device where
  settings : Settings
  eeprom : ℕ → UInt8

/-! ### Writing -/

def driveByte (config : UInt32) (i : ℕ) : UInt8 := .ofNat (config.toNat / 256 ^ i)

/-- The bytes that `write_configuration` stores before the checksum, with their offsets in
`storedconfig`. -/
def Settings.stores (b : Board) (hw : UInt8) (c : Settings) : List (ℕ × UInt8) :=
  [(2, 34), (3, 0), (5, c.globalflags &&& permanent), (6, c.deviceAddress), (7, hw), (8, c.fileExtensionMode)] ++
    (if b.needDiskmux then (List.range 4).map fun i => (9 + i, driveByte c.driveConfig i) else []) ++
    [(13, c.imageAsDir)] ++
    ((List.range 16).map fun i => (14 + i, c.romFilename.bytes.getD i 0)) ++
    [(30, c.activeBus)] ++
    (if b.hwAddrOrButtons then [(31, c.menuSystemEnabled)] else []) ++
    (if b.onboardDisplay then [(32, c.lcdContrast), (33, c.lcdBrightness)] else [])

/-- The bytes of a list are written one after the other. -/
def puts (mem : ℕ → UInt8) (ws : List (ℕ × UInt8)) : ℕ → UInt8 :=
  ws.foldl (fun mem w => Function.update mem w.1 w.2) mem

/-- The sum over the stored bytes behind the checksum. -/
def checksum (mem : ℕ → UInt8) (size : ℕ) : UInt8 :=
  (List.range' 2 (size - 2)).foldl (fun sum i => sum + mem i) 0

/-- `write_configuration`. -/
def writeConfiguration (b : Board) (hw : UInt8) (c : Settings) (mem : ℕ → UInt8) : ℕ → UInt8 :=
  let mem := puts mem (c.stores b hw)
  Function.update mem 1 (checksum mem 34)

/-! ### Reading -/

def word (mem : ℕ → UInt8) (a : ℕ) : ℕ := (mem a).toNat + 256 * (mem (a + 1)).toNat

def storedDrives (mem : ℕ → UInt8) : UInt32 := .ofNat (word mem 9 + 65536 * word mem 11)

def storedName (mem : ℕ → UInt8) : RomName :=
  .ofBytes ((List.range 16).map fun i => mem (14 + i)) (by rw [List.length_map, List.length_range]; exact Nat.le_refl _)

/-- The EEPROM was never written, or its checksum is wrong. -/
def Refused (mem : ℕ → UInt8) : Prop := word mem 2 = 0xffff ∨ checksum mem (word mem 2) ≠ mem 1

instance (mem : ℕ → UInt8) : Decidable (Refused mem) := inferInstanceAs (Decidable (_ ∨ _))

/-- The default values at the start of `read_configuration`. -/
def Settings.defaults (b : Board) (c : Settings) : Settings :=
  { c with
    globalflags := c.globalflags ||| POSTMATCH
    fileExtensionMode := 0
    driveConfig := if b.needDiskmux then b.defaultDriveconfig else c.driveConfig
    romFilename := .empty }

/-- `menu_system_enabled` is read first because `device_hw_address` depends on it. -/
def storedMenu (b : Board) (mem : ℕ → UInt8) (c : Settings) : UInt8 :=
  if b.hwAddrOrButtons ∧ word mem 2 > 31 then mem 31 else c.menuSystemEnabled

/-- The part of `read_configuration` that takes the values over. -/
def Settings.load (b : Board) (jumpers : Jumpers) (mem : ℕ → UInt8) (c : Settings) : Settings :=
  let size := word mem 2
  let hw := jumpers (storedMenu b mem c)
  let config := if size > 9 then storedDrives mem else c.driveConfig
  { globalflags := (c.globalflags &&& ~~~permanent) ||| mem 5
    deviceAddress := if hw ≠ mem 7 then hw else mem 6
    fileExtensionMode := mem 8
    driveConfig :=
      if b.needDiskmux then if config = 0xffffffff then b.defaultDriveconfig else config else c.driveConfig
    imageAsDir := if size > 13 then mem 13 else c.imageAsDir
    romFilename := if size > 29 then storedName mem else c.romFilename
    activeBus := if b.haveDualInterface ∧ size > 30 then mem 30 else c.activeBus
    menuSystemEnabled := storedMenu b mem c
    lcdContrast := if b.onboardDisplay ∧ size > 32 then mem 32 else c.lcdContrast
    lcdBrightness := if b.onboardDisplay ∧ size > 32 then mem 33 else c.lcdBrightness }

/-- `read_configuration`. -/
def readConfiguration (b : Board) (jumpers : Jumpers) (x : Device) : Device :=
  let c := x.settings.defaults b
  if Refused x.eeprom then ⟨c, writeConfiguration b (jumpers c.menuSystemEnabled) c x.eeprom⟩
  else
    let hw := jumpers (storedMenu b x.eeprom c)
    let c := c.load b jumpers x.eeprom
    ⟨c, if hw ≠ x.eeprom 7 then writeConfiguration b hw c x.eeprom else x.eeprom⟩

/-- What happens to the settings. -/
inductive Step
  /-- A command changes variables. -/
  | change (c : Settings)
  /-- `XW`. -/
  | store (jumpers : Jumpers)
  /-- An interface clear reads the settings again. -/
  | reread (jumpers : Jumpers)
  | powerCycle (jumpers : Jumpers)

/-- The address of the jumpers, as `bus_init` takes it. -/
def Settings.busInit (jumpers : Jumpers) (c : Settings) : Settings :=
  { c with deviceAddress := jumpers c.menuSystemEnabled }

/-- The start of the device: `main` reads the settings, `bus_init` looks at the jumpers, and the settings
are read once more. -/
def boot (b : Board) (jumpers : Jumpers) (mem : ℕ → UInt8) : Device :=
  let x := readConfiguration b jumpers ⟨b.reset, mem⟩
  readConfiguration b jumpers ⟨x.settings.busInit jumpers, x.eeprom⟩

def store (b : Board) (jumpers : Jumpers) (x : Device) : Device :=
  ⟨x.settings, writeConfiguration b (jumpers x.settings.menuSystemEnabled) x.settings x.eeprom⟩

/-- A step returns the settings that the device has then. -/
def Device.step (b : Board) (x : Device) (s : Step) : Settings × Device :=
  let x := match s with
    | .change c => { x with settings := c }
    | .store jumpers => store b jumpers x
    | .reread jumpers => readConfiguration b jumpers x
    | .powerCycle jumpers => boot b jumpers x.eeprom
  (x.settings, x)

variable {b : Board} {mem mem' : ℕ → UInt8} {c : Settings} {hw : UInt8} {jumpers : Jumpers}

/-! ### Lists of written bytes -/

theorem puts_other {ws : List (ℕ × UInt8)} {a : ℕ} (h : a ∉ ws.map Prod.fst) : puts mem ws a = mem a := by
  induction ws generalizing mem with
  | nil => rfl
  | cons w ws ih =>
    rw [List.map_cons, List.mem_cons, not_or] at h
    exact (ih h.2).trans (Function.update_of_ne h.1 ..)

theorem puts_mem {ws : List (ℕ × UInt8)} {w : ℕ × UInt8} (hn : (ws.map Prod.fst).Nodup) (h : w ∈ ws) :
    puts mem ws w.1 = w.2 := by
  induction ws generalizing mem with
  | nil => exact absurd h List.not_mem_nil
  | cons w' ws ih =>
    obtain ⟨hnot, hn⟩ := List.nodup_cons.mp hn
    obtain rfl | h := List.mem_cons.mp h
    · exact (puts_other hnot).trans (Function.update_self ..)
    · exact ih hn h

/-- Where the stored bytes lie. -/
def places (b : Board) : List ℕ :=
  [2, 3, 5, 6, 7, 8] ++ (if b.needDiskmux then [9, 10, 11, 12] else []) ++ [13] ++ List.range' 14 16 ++ [30] ++
    (if b.hwAddrOrButtons then [31] else []) ++ (if b.onboardDisplay then [32, 33] else [])

theorem stores_places (b : Board) (hw : UInt8) (c : Settings) : (c.stores b hw).map Prod.fst = places b := by
  rw [Settings.stores, places]
  cases b.needDiskmux <;> cases b.hwAddrOrButtons <;> cases b.onboardDisplay <;> rfl

theorem places_nodup (b : Board) : (places b).Nodup := by
  rw [places]
  cases b.needDiskmux <;> cases b.hwAddrOrButtons <;> cases b.onboardDisplay <;> decide

theorem one_notMem_places (b : Board) : 1 ∉ places b := by
  rw [places]
  cases b.needDiskmux <;> cases b.hwAddrOrButtons <;> cases b.onboardDisplay <;> decide

/-! ### The checksum -/

theorem checksum_congr {size : ℕ} (h : ∀ i, 2 ≤ i → mem' i = mem i) : checksum mem' size = checksum mem size := by
  rw [checksum, checksum]
  refine List.foldl_ext _ _ _ fun sum i hi => ?_
  rw [h i (List.mem_range'_1.mp hi).1]

/-- Two sums that differ stay different when the same bytes are added. -/
theorem sum_injective {l : List ℕ} {s s' : UInt8} (h : s ≠ s') :
    l.foldl (fun sum i => sum + mem i) s ≠ l.foldl (fun sum i => sum + mem i) s' := by
  induction l generalizing s s' with
  | nil => exact h
  | cons i l ih => exact ih fun heq => h (UInt8.add_left_inj _ |>.mp heq)

/-- The sum changes with a single byte. -/
theorem sum_update {l : List ℕ} {i : ℕ} {v : UInt8} (hn : l.Nodup) (hi : i ∈ l) (hv : v ≠ mem i) (s : UInt8) :
    l.foldl (fun sum j => sum + Function.update mem i v j) s ≠ l.foldl (fun sum j => sum + mem j) s := by
  induction l generalizing s with
  | nil => exact absurd hi List.not_mem_nil
  | cons j l ih =>
    obtain ⟨hnot, hn⟩ := List.nodup_cons.mp hn
    by_cases hij : i = j
    · subst hij
      have hrest : l.foldl (fun sum j => sum + Function.update mem i v j) (s + v) =
          l.foldl (fun sum j => sum + mem j) (s + v) := by
        refine List.foldl_ext _ _ _ fun sum j hj => ?_
        have hne : j ≠ i := fun heq => hnot (heq ▸ hj)
        rw [Function.update_of_ne hne]
      rw [List.foldl_cons, List.foldl_cons, Function.update_self, hrest]
      exact sum_injective fun heq => hv ((UInt8.add_right_inj _).mp heq)
    · rw [List.foldl_cons, List.foldl_cons, Function.update_of_ne (Ne.symm hij)]
      exact ih hn ((List.mem_cons.mp hi).resolve_left hij) _

/-! ### What the EEPROM keeps -/

/-- The settings in the EEPROM, and the address of the jumpers when they were written. -/
structure Kept where
  settings : Settings
  hw : UInt8

/-- The settings `c` of a device after it has read what is kept. The flags that are not stored, and the
values of what the board does not have, stay. -/
def Kept.settled (b : Board) (jumpers : Jumpers) (k : Kept) (c : Settings) : Settings :=
  let menu := if b.hwAddrOrButtons then k.settings.menuSystemEnabled else c.menuSystemEnabled
  { k.settings with
    globalflags := (c.globalflags ||| POSTMATCH) &&& ~~~permanent ||| k.settings.globalflags &&& permanent
    deviceAddress := if jumpers menu ≠ k.hw then jumpers menu else k.settings.deviceAddress
    driveConfig :=
      if b.needDiskmux then
        if k.settings.driveConfig = 0xffffffff then b.defaultDriveconfig else k.settings.driveConfig
      else c.driveConfig
    activeBus := if b.haveDualInterface then k.settings.activeBus else c.activeBus
    menuSystemEnabled := menu
    lcdContrast := if b.onboardDisplay then k.settings.lcdContrast else c.lcdContrast
    lcdBrightness := if b.onboardDisplay then k.settings.lcdBrightness else c.lcdBrightness }

/-- When the jumpers were moved, the settings are kept with the new address. -/
def Kept.after (b : Board) (jumpers : Jumpers) (k : Kept) (c : Settings) : Kept :=
  let c := k.settled b jumpers c
  if jumpers c.menuSystemEnabled ≠ k.hw then ⟨c, jumpers c.menuSystemEnabled⟩ else k

/-- A device whose settings are kept as they are. -/
structure Keeper where
  settings : Settings
  kept : Kept

def Keeper.read (b : Board) (jumpers : Jumpers) (x : Keeper) : Keeper :=
  ⟨x.kept.settled b jumpers x.settings, x.kept.after b jumpers x.settings⟩

def Keeper.store (jumpers : Jumpers) (c : Settings) : Keeper := ⟨c, c, jumpers c.menuSystemEnabled⟩

def Keeper.step (b : Board) (x : Keeper) (s : Step) : Settings × Keeper :=
  let x := match s with
    | .change c => { x with settings := c }
    | .store jumpers => .store jumpers x.settings
    | .reread jumpers => x.read b jumpers
    | .powerCycle jumpers =>
      let x := Keeper.read b jumpers ⟨b.reset, x.kept⟩
      Keeper.read b jumpers ⟨x.settings.busInit jumpers, x.kept⟩
  (x.settings, x)

/-- The EEPROM holds the settings `k`. -/
structure Holds (b : Board) (mem : ℕ → UInt8) (k : Kept) : Prop where
  stored : ∀ w ∈ k.settings.stores b k.hw, mem w.1 = w.2
  sum : checksum mem 34 = mem 1

theorem writeConfiguration_holds (b : Board) (hw : UInt8) (c : Settings) (mem : ℕ → UInt8) :
    Holds b (writeConfiguration b hw c mem) ⟨c, hw⟩ := by
  constructor
  · intro w hw'
    have hplace : w.1 ∈ places b := stores_places b hw c ▸ List.mem_map_of_mem hw'
    have hne : w.1 ≠ 1 := fun heq => one_notMem_places b (heq ▸ hplace)
    rw [writeConfiguration, Function.update_of_ne hne]
    exact puts_mem (stores_places b hw c ▸ places_nodup b) hw'
  · rw [writeConfiguration, Function.update_self]
    refine checksum_congr fun i hi => Function.update_of_ne ?_ ..
    omega

namespace Holds

variable {k : Kept} (h : Holds b mem k)

include h

theorem size : word mem 2 = 34 := by
  have hlow : mem 2 = 34 := h.stored (2, 34) (by simp [Settings.stores])
  have hhigh : mem 3 = 0 := h.stored (3, 0) (by simp [Settings.stores])
  rw [word, hlow, hhigh]
  rfl

theorem not_refused : ¬Refused mem := by
  rw [Refused, h.size, h.sum]
  simp

theorem driveByte (hd : b.needDiskmux = true) {i : ℕ} (hi : i < 4) :
    mem (9 + i) = StoredConfig.driveByte k.settings.driveConfig i := by
  refine h.stored (9 + i, StoredConfig.driveByte k.settings.driveConfig i) ?_
  have hmem : (9 + i, StoredConfig.driveByte k.settings.driveConfig i) ∈
      (List.range 4).map fun i => (9 + i, StoredConfig.driveByte k.settings.driveConfig i) :=
    List.mem_map_of_mem (List.mem_range.mpr hi)
  simp only [Settings.stores, hd, if_true, List.mem_append, hmem, true_or, or_true]

theorem storedDrives (hd : b.needDiskmux = true) : StoredConfig.storedDrives mem = k.settings.driveConfig := by
  apply UInt32.toNat_inj.mp
  have hlt := k.settings.driveConfig.toNat_lt
  have hbytes : ∀ i < 4, (mem (9 + i)).toNat = k.settings.driveConfig.toNat / 256 ^ i % 256 := by
    intro i hi
    rw [h.driveByte hd hi]
    exact UInt8.toNat_ofNat'
  have h0 : (mem 9).toNat = k.settings.driveConfig.toNat / 1 % 256 := hbytes 0 (by decide)
  have h1 : (mem 10).toNat = k.settings.driveConfig.toNat / 256 % 256 := hbytes 1 (by decide)
  have h2 : (mem 11).toNat = k.settings.driveConfig.toNat / 65536 % 256 := hbytes 2 (by decide)
  have h3 : (mem 12).toNat = k.settings.driveConfig.toNat / 16777216 % 256 := hbytes 3 (by decide)
  rw [StoredConfig.storedDrives, UInt32.toNat_ofNat', word, word, h0, h1, h2, h3]
  omega

theorem storedName : StoredConfig.storedName mem = k.settings.romFilename := by
  have hlen := k.settings.romFilename.short
  have hbytes : (List.range 16).map (fun i => mem (14 + i)) =
      k.settings.romFilename.bytes ++ List.replicate (16 - k.settings.romFilename.bytes.length) 0 := by
    refine List.ext_getElem ?_ fun i hi hi' => ?_
    · rw [List.length_map, List.length_range, List.length_append, List.length_replicate]
      exact (Nat.add_sub_of_le hlen).symm
    · have hmem : (14 + i, k.settings.romFilename.bytes.getD i 0) ∈
          (List.range 16).map fun i => (14 + i, k.settings.romFilename.bytes.getD i 0) :=
        List.mem_map_of_mem (List.mem_range.mpr (by simpa using hi))
      have hbyte : mem (14 + i) = k.settings.romFilename.bytes.getD i 0 := by
        refine h.stored (14 + i, k.settings.romFilename.bytes.getD i 0) ?_
        simp only [Settings.stores, List.mem_append, hmem, true_or, or_true]
      rw [List.getElem_map, List.getElem_range, hbyte, List.getD_eq_getElem?_getD, List.getElem_append]
      split
      · next hlt => rw [List.getElem?_eq_getElem hlt, Option.getD_some]
      · next hge => rw [List.getElem?_eq_none (Nat.le_of_not_lt hge), List.getElem_replicate, Option.getD_none]
  apply RomName.ext
  rw [StoredConfig.storedName, RomName.ofBytes]
  dsimp only
  rw [hbytes, List.takeWhile_append_of_pos fun x hx => decide_eq_true (k.settings.romFilename.noNul x hx)]
  simp

theorem storedMenu : StoredConfig.storedMenu b mem c =
    if b.hwAddrOrButtons then k.settings.menuSystemEnabled else c.menuSystemEnabled := by
  rw [StoredConfig.storedMenu, h.size]
  by_cases hb : b.hwAddrOrButtons = true
  · rw [if_pos ⟨hb, by decide⟩, if_pos hb]
    exact h.stored (31, k.settings.menuSystemEnabled) (by simp [Settings.stores, hb])
  · rw [if_neg fun hand => hb hand.1, if_neg hb]

/-- The values that the EEPROM holds are taken over. -/
theorem load : (c.defaults b).load b jumpers mem = k.settled b jumpers c := by
  have hflags : mem 5 = k.settings.globalflags &&& permanent := h.stored (5, _) (by simp [Settings.stores])
  have haddr : mem 6 = k.settings.deviceAddress := h.stored (6, _) (by simp [Settings.stores])
  have hhw : mem 7 = k.hw := h.stored (7, _) (by simp [Settings.stores])
  have hext : mem 8 = k.settings.fileExtensionMode := h.stored (8, _) (by simp [Settings.stores])
  have himage : mem 13 = k.settings.imageAsDir := h.stored (13, _) (by simp [Settings.stores])
  have hbus : mem 30 = k.settings.activeBus := h.stored (30, _) (by simp [Settings.stores])
  have hmenu : StoredConfig.storedMenu b mem (c.defaults b) = _ := h.storedMenu
  have hcontrast (hb : b.onboardDisplay = true) : mem 32 = k.settings.lcdContrast :=
    h.stored (32, _) (by simp [Settings.stores, hb])
  have hbright (hb : b.onboardDisplay = true) : mem 33 = k.settings.lcdBrightness :=
    h.stored (33, _) (by simp [Settings.stores, hb])
  rw [Settings.load, Kept.settled, hmenu, h.size, h.storedName, hflags, haddr, hhw, hext, himage, hbus]
  by_cases hd : b.needDiskmux = true <;> by_cases hb : b.onboardDisplay = true <;>
    simp [Settings.defaults, hd, hb, h.storedDrives, hcontrast, hbright]

/-- Reading the settings goes by what is kept. -/
theorem read : (readConfiguration b jumpers ⟨c, mem⟩).settings = k.settled b jumpers c ∧
    Holds b (readConfiguration b jumpers ⟨c, mem⟩).eeprom (k.after b jumpers c) := by
  have hhw : mem 7 = k.hw := h.stored (7, _) (by simp [Settings.stores])
  have hmenu : (k.settled b jumpers c).menuSystemEnabled = StoredConfig.storedMenu b mem (c.defaults b) :=
    h.storedMenu.symm
  rw [readConfiguration, if_neg h.not_refused]
  dsimp only
  rw [h.load, Kept.after]
  simp only [hhw, hmenu]
  refine ⟨trivial, ?_⟩
  split
  · exact writeConfiguration_holds ..
  · exact h

/-- A record with one byte changed is refused: the byte, or the checksum itself, no longer fits the others. -/
theorem refused_update {a : ℕ} (ha : a = 1 ∨ 4 ≤ a ∧ a < 34) (v : UInt8) :
    Refused (Function.update mem a v) ↔ v ≠ mem a := by
  have hne : ∀ i, i = 2 ∨ i = 3 → i ≠ a := by omega
  have hsize : word (Function.update mem a v) 2 = 34 := by
    rw [word, Function.update_of_ne (hne 2 (.inl rfl)), Function.update_of_ne (hne 3 (.inr rfl))]
    exact h.size
  constructor
  · rintro hrefused rfl
    rw [Function.update_eq_self] at hrefused
    exact h.not_refused hrefused
  · intro hv
    refine .inr ?_
    rw [hsize]
    obtain rfl | ha := ha
    · rw [Function.update_self, checksum_congr fun i hi => Function.update_of_ne (by omega) .., h.sum]
      exact hv.symm
    · have hone : 1 ≠ a := by omega
      rw [Function.update_of_ne hone, ← h.sum]
      exact sum_update (List.nodup_range' ..) (List.mem_range'_1.mpr (by omega)) hv 0

end Holds

/-- A refused record is written anew with the default values. -/
theorem readConfiguration_refused (h : Refused mem) : readConfiguration b jumpers ⟨c, mem⟩ =
    ⟨c.defaults b, writeConfiguration b (jumpers c.menuSystemEnabled) (c.defaults b) mem⟩ := if_pos h

/-- When one byte of the stored settings changes, other than those of the size, the device notices it: it has
the default values, and stores them. -/
theorem damaged_restored (b : Board) (jumpers jumpers' : Jumpers) (x : Device) {a : ℕ}
    (ha : a = 1 ∨ 4 ≤ a ∧ a < 34) {v : UInt8} (hv : v ≠ (store b jumpers x).eeprom a) (c : Settings) :
    (readConfiguration b jumpers' ⟨c, Function.update (store b jumpers x).eeprom a v⟩).settings = c.defaults b ∧
      Holds b (readConfiguration b jumpers' ⟨c, Function.update (store b jumpers x).eeprom a v⟩).eeprom
        ⟨c.defaults b, jumpers' c.menuSystemEnabled⟩ := by
  have hholds : Holds b (store b jumpers x).eeprom ⟨x.settings, _⟩ := writeConfiguration_holds ..
  rw [readConfiguration_refused ((hholds.refused_update ha v).mpr hv)]
  exact ⟨rfl, writeConfiguration_holds ..⟩

/-- A board with buttons, a display and two buses. -/
def petBoard : Board where
  needDiskmux := true
  haveDualInterface := true
  hwAddrOrButtons := true
  onboardDisplay := true
  defaultDriveconfig := 0xfffffff0
  reset := ⟨0, 8, 0, 0, 0, .empty, 0, 1, 0, 0⟩

/-- The address byte of a record changes from 9 to 10. -/
theorem petBoard_damaged :
    (readConfiguration petBoard (fun _ => 8) ⟨petBoard.reset, Function.update
        (store petBoard (fun _ => 8) ⟨⟨16, 9, 0, 0, 0, .empty, 0, 1, 0, 0⟩, fun _ => 255⟩).eeprom 6 10⟩).settings =
      petBoard.reset.defaults petBoard ∧
    Holds petBoard (readConfiguration petBoard (fun _ => 8) ⟨petBoard.reset, Function.update
        (store petBoard (fun _ => 8) ⟨⟨16, 9, 0, 0, 0, .empty, 0, 1, 0, 0⟩, fun _ => 255⟩).eeprom 6 10⟩).eeprom
      ⟨petBoard.reset.defaults petBoard, 8⟩ :=
  damaged_restored petBoard (fun _ => 8) (fun _ => 8) _ (.inr (by decide)) (by decide) _

/-! ### Runs -/

/-- The device shows the settings of the keeper, and its EEPROM holds what is kept. -/
structure Keeps (b : Board) (x : Device) (y : Keeper) : Prop where
  settings : x.settings = y.settings
  holds : Holds b x.eeprom y.kept

theorem Keeps.read {x : Device} {y : Keeper} (h : Keeps b x y) (jumpers : Jumpers) :
    Keeps b (readConfiguration b jumpers x) (y.read b jumpers) := by
  obtain ⟨c, mem⟩ := x
  obtain ⟨c', k⟩ := y
  obtain ⟨hsettings, hholds⟩ := h
  cases hsettings
  exact ⟨hholds.read.1, hholds.read.2⟩

theorem Keeps.step {x : Device} {y : Keeper} (h : Keeps b x y) (s : Step) :
    (x.step b s).1 = (y.step b s).1 ∧ Keeps b (x.step b s).2 (y.step b s).2 := by
  suffices hkeeps : Keeps b (x.step b s).2 (y.step b s).2 from ⟨hkeeps.settings, hkeeps⟩
  cases s with
  | change c => exact ⟨rfl, h.holds⟩
  | store jumpers =>
    obtain ⟨c, mem⟩ := x
    obtain ⟨c', k⟩ := y
    obtain ⟨hsettings, -⟩ := h
    cases hsettings
    exact ⟨rfl, writeConfiguration_holds ..⟩
  | reread jumpers => exact h.read jumpers
  | powerCycle jumpers =>
    have hfirst := Keeps.read (x := ⟨b.reset, x.eeprom⟩) (y := ⟨b.reset, y.kept⟩) ⟨rfl, h.holds⟩ jumpers
    have hbus : Keeps b ⟨(readConfiguration b jumpers ⟨b.reset, x.eeprom⟩).settings.busInit jumpers, _⟩
        ⟨(Keeper.read b jumpers ⟨b.reset, y.kept⟩).settings.busInit jumpers, _⟩ :=
      ⟨congrArg (Settings.busInit jumpers) hfirst.settings, hfirst.holds⟩
    exact hbus.read jumpers

/-- Once the settings are stored, the bytes in the EEPROM are as good as the settings themselves: whatever is
done to the device, it has the settings that the keeper has at every step. -/
theorem stored_refines (b : Board) (jumpers : Jumpers) (x : Device) (steps : List Step) :
    (Run.run (Device.step b) (store b jumpers x) steps).1 =
      (Run.run (Keeper.step b) (.store jumpers x.settings) steps).1 := by
  have hstart : Keeps b (store b jumpers x) (.store jumpers x.settings) :=
    ⟨rfl, writeConfiguration_holds ..⟩
  refine (Run.run_simulates (P := fun _ _ => True) (Keeper.step b) (Keeps b) (fun x y s h _ => h.step s) hstart ?_).1
  exact Run.meets_of_forall fun _ _ => trivial

/-! ### The address after the start -/

/-- The stored address counts while the jumpers are as they were. -/
theorem Holds.deviceAddress {k : Kept} (h : Holds b mem k) (hmenu : k.settings.menuSystemEnabled = c.menuSystemEnabled)
    (hhw : jumpers c.menuSystemEnabled = k.hw) :
    (readConfiguration b jumpers ⟨c.busInit jumpers, mem⟩).settings.deviceAddress = k.settings.deviceAddress := by
  have hsame : (if b.hwAddrOrButtons then k.settings.menuSystemEnabled
      else (c.busInit jumpers).menuSystemEnabled) = c.menuSystemEnabled := by
    split
    · exact hmenu
    · rfl
  rw [h.read.1, Kept.settled]
  dsimp only
  rw [hsame, if_neg (not_not.mpr hhw)]

/-- A device whose record is refused starts at the address after a reset, whatever its jumpers say: the
record is written before `bus_init` looks at them. Otherwise the jumpers count when they were moved. -/
theorem boot_deviceAddress (b : Board) (jumpers : Jumpers) (mem : ℕ → UInt8) :
    (boot b jumpers mem).settings.deviceAddress =
      if Refused mem then b.reset.deviceAddress
      else if jumpers (storedMenu b mem b.reset) = mem 7 then mem 6
      else jumpers (storedMenu b mem b.reset) := by
  rw [boot]
  by_cases hrefused : Refused mem
  · rw [readConfiguration_refused hrefused, if_pos hrefused]
    rw [(writeConfiguration_holds b _ (b.reset.defaults b) mem).deviceAddress rfl rfl]
    rfl
  · obtain ⟨c, hc⟩ : ∃ c, c = (b.reset.defaults b).load b jumpers mem := ⟨_, rfl⟩
    have hmenu : c.menuSystemEnabled = storedMenu b mem b.reset := by
      rw [hc]
      rfl
    have haddress : c.deviceAddress =
        if jumpers (storedMenu b mem b.reset) ≠ mem 7 then jumpers (storedMenu b mem b.reset) else mem 6 := by
      rw [hc]
      rfl
    have hfirst : readConfiguration b jumpers ⟨b.reset, mem⟩ =
        ⟨c, if jumpers (storedMenu b mem b.reset) ≠ mem 7 then
          writeConfiguration b (jumpers (storedMenu b mem b.reset)) c mem else mem⟩ := by
      rw [hc]
      exact if_neg hrefused
    rw [hfirst, if_neg hrefused]
    by_cases hmoved : jumpers (storedMenu b mem b.reset) = mem 7
    · -- the record is read a second time as it is
      rw [if_neg (not_not.mpr hmoved), if_pos hmoved]
      have hagain : storedMenu b mem ((c.busInit jumpers).defaults b) = storedMenu b mem b.reset := by
        rw [storedMenu]
        split
        · next hstored => exact (if_pos hstored).symm
        · exact hmenu
      rw [readConfiguration, if_neg hrefused]
      refine if_neg (not_not.mpr ?_)
      rw [hagain]
      exact hmoved
    · rw [if_pos hmoved, if_neg hmoved]
      rw [if_pos hmoved] at haddress
      have hholds := writeConfiguration_holds b (jumpers (storedMenu b mem b.reset)) c mem
      have hkept : jumpers c.menuSystemEnabled = jumpers (storedMenu b mem b.reset) := congrArg jumpers hmenu
      rw [hholds.deviceAddress rfl hkept]
      exact haddress

end NoDiskEmu.StoredConfig
