import Mathlib.Data.Fin.Basic
import Mathlib.Tactic.Cases
import NoDiskEmu.Library.Bits

/-! The 32-byte directory entries of EEPROMFS, `nameentry_t` and `listentry_t` of `eeprom-fs.c`: the
fields that both share, and how an assignment to one field leaves the others alone. -/

namespace NoDiskEmu.Eeprom

open Library.Bits

/-- `EEFS_NAME_LENGTH` bytes. -/
abbrev Name := Fin 16 → UInt8

/-- `sizeof(nameentry_t)` bytes: sector numbers from byte 0 on, the flags in byte 30 and `nextentry`
in byte 31; a name entry has its name in bytes 12 to 27 and its size in bytes 28 and 29. -/
abbrev Entry := Fin 32 → UInt8

instance entrySize_neZero : NeZero (32 : ℕ) := ⟨by decide⟩

namespace Entry

/-- `flags & EEFS_FLAG_DELETED`. -/
def deleted (e : Entry) : Bool := test (e 30) 1

/-- `flags & EEFS_FLAG_LISTENTRY`. -/
def isListentry (e : Entry) : Bool := test (e 30) 2

def maxSectors (e : Entry) : ℕ := if e.isListentry then 30 else 12

def sector (e : Entry) (j : ℕ) : ℕ := (e (Fin.ofNat 32 j)).toNat

def nextentry (e : Entry) : ℕ := (e 31).toNat

def name (e : Entry) : Name := fun k => e (Fin.ofNat 32 (12 + k))

/-- The `size` field, little-endian. -/
def size (e : Entry) : ℕ := (e 28).toNat + 256 * (e 29).toNat

def setSector (e : Entry) (j sector : ℕ) : Entry :=
  Function.update e (Fin.ofNat 32 j) (UInt8.ofNat sector)

def setNextentry (e : Entry) (next : ℕ) : Entry := Function.update e 31 (UInt8.ofNat next)

def setSize (e : Entry) (size : ℕ) : Entry :=
  Function.update (Function.update e 28 (UInt8.ofNat size)) 29 (UInt8.ofNat (size / 256))

def setName (e : Entry) (name : Name) : Entry :=
  fun k => if h : 12 ≤ k.val ∧ k.val < 28 then name ⟨k.val - 12, by omega⟩ else e k

/-- All bytes `0xff`. -/
def erased : Entry := fun _ => 0xff

/-- The entry that `eepromfs_open` writes for a new file. -/
def newName (name : Name) : Entry :=
  Function.update (setSize (setName erased name) 0) 30 0

/-- The entry that `eepromfs_write` builds when a file needs more sector numbers. -/
def newList : Entry := Function.update erased 30 2

theorem maxSectors_le (e : Entry) : e.maxSectors ≤ 30 := by
  unfold maxSectors
  split <;> decide

theorem maxSectors_pos (e : Entry) : 0 < e.maxSectors := by
  unfold maxSectors
  split <;> decide

theorem maxSectors_eq_of_flags {e e' : Entry} (h : e'.isListentry = e.isListentry) :
    e'.maxSectors = e.maxSectors := by
  rw [maxSectors, maxSectors, h]

theorem sector_lt (e : Entry) (j : ℕ) : e.sector j < 256 := UInt8.toNat_lt _

section SetSector

variable {e : Entry} {j k sector : ℕ}

theorem setSector_byte {i : Fin 32} (h : j < i.val) : e.setSector j sector i = e i := by
  apply Function.update_of_ne
  intro heq
  rw [heq, Fin.val_ofNat] at h
  have hlt := Nat.mod_le j 32
  omega

@[simp] theorem sector_setSector_self (h : sector < 256) : (e.setSector j sector).sector j = sector := by
  simp [setSector, Entry.sector, Nat.mod_eq_of_lt h]

theorem sector_setSector_ne (hj : j < 30) (hk : k < 30) (h : k ≠ j) :
    (e.setSector j sector).sector k = e.sector k := by
  have hne : Fin.ofNat 32 k ≠ Fin.ofNat 32 j := by
    intro heq
    have hval := congrArg Fin.val heq
    rw [Fin.val_ofNat, Fin.val_ofNat] at hval
    omega
  rw [Entry.sector, setSector, Function.update_of_ne hne, Entry.sector]

theorem deleted_setSector (h : j < 30) : (e.setSector j sector).deleted = e.deleted := by
  rw [deleted, setSector_byte h, deleted]

theorem isListentry_setSector (h : j < 30) :
    (e.setSector j sector).isListentry = e.isListentry := by
  rw [isListentry, setSector_byte h, isListentry]

theorem nextentry_setSector (h : j < 30) : (e.setSector j sector).nextentry = e.nextentry := by
  rw [nextentry, setSector_byte (by show j < 31; omega), nextentry]

theorem name_setSector (h : j < 12) : (e.setSector j sector).name = e.name := by
  funext k
  have hk := k.isLt
  apply setSector_byte
  rw [Fin.val_ofNat, Nat.mod_eq_of_lt (by omega)]
  omega

theorem size_setSector (h : j < 28) : (e.setSector j sector).size = e.size := by
  rw [size, setSector_byte h, setSector_byte (by show j < 29; omega), size]

end SetSector

section SetNextentry

variable {e : Entry} {next : ℕ}

theorem setNextentry_byte {i : Fin 32} (h : i ≠ 31) : e.setNextentry next i = e i :=
  Function.update_of_ne h _ _

@[simp] theorem nextentry_setNextentry (h : next < 256) : (e.setNextentry next).nextentry = next := by
  simp [setNextentry, nextentry, Nat.mod_eq_of_lt h]

@[simp] theorem deleted_setNextentry : (e.setNextentry next).deleted = e.deleted := by
  rw [deleted, setNextentry_byte (by decide), deleted]

@[simp] theorem isListentry_setNextentry : (e.setNextentry next).isListentry = e.isListentry := by
  rw [isListentry, setNextentry_byte (by decide), isListentry]

theorem sector_setNextentry {j : ℕ} (h : j < 30) : (e.setNextentry next).sector j = e.sector j := by
  rw [sector, setNextentry_byte, sector]
  intro heq
  have hval := congrArg Fin.val heq
  rw [Fin.val_ofNat] at hval
  change j % 32 = 31 at hval
  omega

@[simp] theorem name_setNextentry : (e.setNextentry next).name = e.name := by
  funext k
  have hk := k.isLt
  apply setNextentry_byte
  intro heq
  have hval := congrArg Fin.val heq
  rw [Fin.val_ofNat] at hval
  change (12 + k.val) % 32 = 31 at hval
  omega

@[simp] theorem size_setNextentry : (e.setNextentry next).size = e.size := by
  rw [size, setNextentry_byte (by decide), setNextentry_byte (by decide), size]

end SetNextentry

section SetSize

variable {e : Entry} {n : ℕ}

theorem setSize_byte {i : Fin 32} (h : i.val ≠ 28) (h' : i.val ≠ 29) : e.setSize n i = e i := by
  rw [setSize, Function.update_of_ne (fun heq => h' (congrArg Fin.val heq)),
    Function.update_of_ne (fun heq => h (congrArg Fin.val heq))]

theorem size_setSize (h : n < 65536) : (e.setSize n).size = n := by
  have h29 : e.setSize n 29 = UInt8.ofNat (n / 256) := Function.update_self _ _ _
  have h28 : e.setSize n 28 = UInt8.ofNat n := by
    rw [setSize, Function.update_of_ne (by decide), Function.update_self]
  rw [size, h28, h29, UInt8.toNat_ofNat', UInt8.toNat_ofNat']
  omega

@[simp] theorem deleted_setSize : (e.setSize n).deleted = e.deleted := by
  rw [deleted, setSize_byte (by decide) (by decide), deleted]

@[simp] theorem isListentry_setSize : (e.setSize n).isListentry = e.isListentry := by
  rw [isListentry, setSize_byte (by decide) (by decide), isListentry]

@[simp] theorem nextentry_setSize : (e.setSize n).nextentry = e.nextentry := by
  rw [nextentry, setSize_byte (by decide) (by decide), nextentry]

theorem sector_setSize {j : ℕ} (h : j < 28) : (e.setSize n).sector j = e.sector j := by
  rw [sector, setSize_byte, sector] <;> rw [Fin.val_ofNat] <;> omega

@[simp] theorem name_setSize : (e.setSize n).name = e.name := by
  funext k
  have hk := k.isLt
  apply setSize_byte <;> rw [Fin.val_ofNat] <;> omega

end SetSize

section SetName

variable {e : Entry} {nm : Name}

theorem setName_byte {i : Fin 32} (h : i.val < 12 ∨ 28 ≤ i.val) : e.setName nm i = e i := by
  rw [setName, dif_neg (by omega)]

@[simp] theorem name_setName : (e.setName nm).name = nm := by
  funext k
  have hk := k.isLt
  have hval : (Fin.ofNat 32 (12 + k.val)).val = 12 + k.val := by
    rw [Fin.val_ofNat]
    omega
  rw [name, setName, dif_pos (by omega)]
  congr 1
  apply Fin.ext
  show (Fin.ofNat 32 (12 + k.val)).val - 12 = k.val
  omega

@[simp] theorem deleted_setName : (e.setName nm).deleted = e.deleted := by
  rw [deleted, setName_byte (.inr (by decide)), deleted]

@[simp] theorem isListentry_setName : (e.setName nm).isListentry = e.isListentry := by
  rw [isListentry, setName_byte (.inr (by decide)), isListentry]

@[simp] theorem nextentry_setName : (e.setName nm).nextentry = e.nextentry := by
  rw [nextentry, setName_byte (.inr (by decide)), nextentry]

@[simp] theorem size_setName : (e.setName nm).size = e.size := by
  rw [size, setName_byte (.inr (by decide)), setName_byte (.inr (by decide)), size]

theorem sector_setName {j : ℕ} (h : j < 12) : (e.setName nm).sector j = e.sector j := by
  rw [sector, setName_byte, sector]
  rw [Fin.val_ofNat]
  omega

end SetName

section New

variable {nm : Name}

@[simp] theorem deleted_erased : erased.deleted = true := rfl

@[simp] theorem deleted_newName : (newName nm).deleted = false := by
  rw [deleted, newName, Function.update_self]
  decide

@[simp] theorem isListentry_newName : (newName nm).isListentry = false := by
  rw [isListentry, newName, Function.update_self]
  decide

theorem newName_byte {i : Fin 32} (h : i ≠ 30) :
    newName nm i = (setSize (setName erased nm) 0) i :=
  Function.update_of_ne h _ _

@[simp] theorem nextentry_newName : (newName nm).nextentry = 255 := by
  rw [nextentry, newName_byte (by decide)]
  exact nextentry_setSize.trans nextentry_setName

@[simp] theorem size_newName : (newName nm).size = 0 := by
  rw [size, newName_byte (by decide), newName_byte (by decide)]
  exact size_setSize (by decide)

@[simp] theorem name_newName : (newName nm).name = nm := by
  have hname : (newName nm).name = (setSize (setName erased nm) 0).name := by
    funext k
    have hk := k.isLt
    apply newName_byte
    intro heq
    have hval := congrArg Fin.val heq
    rw [Fin.val_ofNat] at hval
    change (12 + k.val) % 32 = 30 at hval
    omega
  rw [hname, name_setSize, name_setName]

theorem sector_newName {j : ℕ} (h : j < 12) : (newName nm).sector j = 255 := by
  have hsector : (newName nm).sector j = (setSize (setName erased nm) 0).sector j := by
    rw [sector, newName_byte, sector]
    intro heq
    have hval := congrArg Fin.val heq
    rw [Fin.val_ofNat] at hval
    change j % 32 = 30 at hval
    omega
  rw [hsector, sector_setSize (by omega), sector_setName h]
  rfl

@[simp] theorem deleted_newList : newList.deleted = false := by decide

@[simp] theorem isListentry_newList : newList.isListentry = true := by decide

@[simp] theorem nextentry_newList : newList.nextentry = 255 := by decide

theorem sector_newList : ∀ j < 30, newList.sector j = 255 := by decide

end New

end Entry

end NoDiskEmu.Eeprom
