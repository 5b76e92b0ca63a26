import NoDiskEmu.Dos.Parser
import NoDiskEmu.Library.Run
import Mathlib.Tactic.IntervalCases

/-! The drive configuration of `diskio.c`, eight slots of four bits, and the command `XDdrv=val` of
`doscmd.c` that changes it. -/

namespace NoDiskEmu.Disk

open Library Dos

def DISK_TYPE_ATA : ℕ := 0

def DISK_TYPE_SD : ℕ := 2

def DISK_TYPE_NONE : ℕ := 7

def ERROR_STATUS : ℕ := 3

def ERROR_SYNTAX_UNKNOWN : ℕ := 30

/-- What is compiled in, and whether `int` has the 16 bits of the AVR or 32. -/
structure Hardware where
  int16 : Bool
  ata : Bool
  sd : Bool
  twinsd : Bool

namespace Hardware

variable (hw : Hardware)

/-- The bits of an `int`. -/
def intBits : ℕ := if hw.int16 then 16 else 32

/-- `x << n` for an `int`, taken to the 32 bits of the configuration: with its sign, and without the bits
that an `int` has no place for. -/
def shifted (x n : ℕ) : BitVec 32 := (BitVec.ofNat hw.intBits x <<< n).signExtend 32

/-- `get_default_driveconfig`. -/
def defaultDriveconfig : BitVec 32 :=
  let result := 0xffffffff#32
  let result := if hw.twinsd then (result <<< 4) + .ofNat 32 (DISK_TYPE_SD * 2) + 1 else result
  let result := if hw.sd then (result <<< 4) + .ofNat 32 (DISK_TYPE_SD * 2) else result
  if hw.ata then (result <<< 4) + .ofNat 32 (DISK_TYPE_ATA * 2) else result

/-- The cases of the `switch` on the disk type. -/
def supports (type : ℕ) : Bool :=
  type = DISK_TYPE_NONE || (hw.sd && type = DISK_TYPE_SD) || (hw.ata && type = DISK_TYPE_ATA)

end Hardware

/-- The macro `map_drive`. -/
def mapDrive (config : BitVec 32) (drv : ℕ) : ℕ := ((config >>> (4 * drv)) &&& 15#32).toNat

/-- The macro `set_map_drive`. -/
def setMapDrive (hw : Hardware) (config : BitVec 32) (drv val : ℕ) : BitVec 32 :=
  (config &&& (0xffffffff#32 - hw.shifted 15 (drv * 4))) ||| hw.shifted val (drv * 4)

/-- The part of the command behind its check of `val`; `filesystem_init` reports no error on hardware that
notices a change of the medium. -/
def setDrive (hw : Hardware) (config : BitVec 32) (num val : ℕ) : Option ℕ × BitVec 32 :=
  -- The loop looks at slot `num` each time.
  let error := if val ≠ 15 ∧ (List.range 8).any (fun i => i ≠ num && mapDrive config num = val) then
    some ERROR_SYNTAX_UNKNOWN else none
  if hw.supports (val / 2) then
    if mapDrive config num ≠ val then
      let config := setMapDrive hw config num val
      (error, if config = 0xffffffff#32 then hw.defaultDriveconfig else config)
    else (error, config)
  else (some ERROR_SYNTAX_UNKNOWN, config)

/-- The slot and the value in the bytes behind `XD`. -/
def parseDrive (text : List UInt8) : ℕ × Option ℕ :=
  let r := parseNumber text
  let str := r.2.dropWhile (· = 32)
  (r.1 % 256, if str.headD 0 = 61 then some ((parseNumber str.tail).1 % 256) else none)

/-- The case `D` of `parse_xcommand`, with the error that is set. -/
def driveCommand (hw : Hardware) (config : BitVec 32) (text : List UInt8) : Option ℕ × BitVec 32 :=
  if text.headD 0 = 63 then (some ERROR_STATUS, config)
  else
    let r := parseDrive text
    if r.1 < 8 then
      match r.2 with
      | some val => if val ≤ 15 then setDrive hw config r.1 val else (none, config)
      | none => (none, config)
    else (some ERROR_SYNTAX_UNKNOWN, config)

/-- No device but 15 is in two slots. -/
def Unique (config : BitVec 32) : Prop :=
  ∀ i < 8, ∀ j < 8, mapDrive config i = mapDrive config j → mapDrive config i ≠ 15 → i = j

instance : DecidablePred Unique := fun _ => inferInstanceAs (Decidable (∀ _ < _, _))

variable {hw : Hardware} {config : BitVec 32} {n v i j : ℕ}

/-! ### The bits of a slot -/

theorem testBit_mapDrive : (mapDrive config i).testBit j = (decide (j < 4) && config.getLsbD (4 * i + j)) := by
  have hmask : (15#32).getLsbD j = decide (j < 4) := by
    rw [show 15#32 = BitVec.ofNat 32 (2 ^ 4 - 1) from rfl, BitVec.getLsbD_ofNat, Nat.testBit_two_pow_sub_one]
    by_cases h : j < 4
    · simp [h]
      omega
    · simp [h]
  rw [mapDrive, BitVec.testBit_toNat, BitVec.getLsbD_and, BitVec.getLsbD_ushiftRight, hmask, Bool.and_comm]

theorem testBit_le_15 (hv : v ≤ 15) (hj : 4 ≤ j) : v.testBit j = false :=
  Nat.testBit_lt_two_pow (Nat.lt_of_le_of_lt hv (Nat.lt_of_lt_of_le (by decide : 15 < 2 ^ 4)
    (Nat.pow_le_pow_right (by decide) hj)))

/-- The bits behind the last one of an `int` are copies of it. -/
theorem getLsbD_shifted {k : ℕ} (hk : k < 32) : (hw.shifted v n).getLsbD k =
    (decide (n ≤ min k (hw.intBits - 1)) && v.testBit (min k (hw.intBits - 1) - n)) := by
  have hbits : hw.intBits = 16 ∨ hw.intBits = 32 := by
    rw [Hardware.intBits]
    split
    · exact .inl rfl
    · exact .inr rfl
  rw [Hardware.shifted]
  generalize hw.intBits = w at hbits ⊢
  have hbit : ∀ m < w, (BitVec.ofNat w v <<< n).getLsbD m = (decide (n ≤ m) && v.testBit (m - n)) := by
    intro m hm
    rw [BitVec.getLsbD_shiftLeft, BitVec.getLsbD_ofNat, decide_eq_true hm, decide_eq_true (by omega : m - n < w)]
    by_cases h : m < n
    · simp [h, Nat.not_le.mpr h]
    · simp [h, Nat.not_lt.mp h]
  rw [BitVec.getLsbD_signExtend, decide_eq_true hk, Bool.true_and]
  split
  · next hlt =>
    rw [hbit k hlt, Nat.min_eq_left (by omega)]
  · rw [BitVec.msb_eq_getLsbD_last, hbit _ (by omega), Nat.min_eq_right (by omega)]

/-- A bit of a configuration with slot `n` set; `m` is the bit of an `int` that decides about it. -/
theorem getLsbD_setMapDrive {k m : ℕ} (hk : k < 32) (hm : m = min k (hw.intBits - 1)) :
    (setMapDrive hw config n v).getLsbD k =
      if 4 * n ≤ m ∧ m < 4 * n + 4 then v.testBit (m - 4 * n)
      else config.getLsbD k || (decide (4 * n ≤ m) && v.testBit (m - 4 * n)) := by
  have hmask : Nat.testBit 15 (m - n * 4) = decide (m - n * 4 < 4) := Nat.testBit_two_pow_sub_one 4 _
  have hnot : (0xffffffff#32 - hw.shifted 15 (n * 4)) = ~~~hw.shifted 15 (n * 4) := by
    rw [← BitVec.allOnes_sub_eq_not]
    rfl
  rw [setMapDrive, BitVec.getLsbD_or, BitVec.getLsbD_and, hnot, BitVec.getLsbD_not, decide_eq_true hk,
    Bool.true_and, getLsbD_shifted hk, getLsbD_shifted hk, ← hm, hmask, Nat.mul_comm n 4]
  by_cases h : 4 * n ≤ m ∧ m < 4 * n + 4
  · have hlt : m - 4 * n < 4 := by omega
    rw [if_pos h]
    simp [h.1, hlt]
  · have hge : ¬(4 * n ≤ m ∧ m - 4 * n < 4) := by omega
    rw [if_neg h]
    by_cases hle : 4 * n ≤ m
    · have hge' : ¬m - 4 * n < 4 := fun hlt => hge ⟨hle, hlt⟩
      simp [hle, hge']
    · simp [hle]

/-! ### Setting a slot -/

theorem mapDrive_le_15 : mapDrive config i ≤ 15 := by
  have hlt : mapDrive config i < 2 ^ 4 := by
    apply Nat.lt_pow_two_of_testBit
    intro j hj
    simp [testBit_mapDrive, Nat.not_lt.mpr hj]
  omega

/-- A slot holds the value that its four bits say. -/
theorem mapDrive_eq_of_bits (hv : v ≤ 15) (h : ∀ j < 4, config.getLsbD (4 * i + j) = v.testBit j) :
    mapDrive config i = v := by
  apply Nat.eq_of_testBit_eq
  intro j
  rw [testBit_mapDrive]
  by_cases hj : j < 4
  · rw [decide_eq_true hj, Bool.true_and, h j hj]
  · rw [decide_eq_false hj, Bool.false_and, testBit_le_15 hv (Nat.not_lt.mp hj)]

theorem getLsbD_of_mapDrive (hj : j < 4) : config.getLsbD (4 * i + j) = (mapDrive config i).testBit j := by
  rw [testBit_mapDrive, decide_eq_true hj, Bool.true_and]

/-- Where the `int` has place for it, a slot is set and the others stay. -/
theorem mapDrive_setMapDrive (config : BitVec 32) (i : ℕ) (hn : n < 8) (hi : i < 8) (hv : v ≤ 15) (h : hw.int16 = true → n < 3) :
    mapDrive (setMapDrive hw config n v) i = if i = n then v else mapDrive config i := by
  have hbits : hw.intBits = 32 ∨ hw.intBits = 16 ∧ n < 3 := by
    rw [Hardware.intBits]
    split
    · next h16 => exact .inr ⟨rfl, h h16⟩
    · exact .inl rfl
  by_cases heq : i = n
  · subst heq
    rw [if_pos rfl]
    apply mapDrive_eq_of_bits hv
    intro j hj
    have hm : 4 * i + j = min (4 * i + j) (hw.intBits - 1) := by omega
    rw [getLsbD_setMapDrive (by omega) hm, if_pos (by omega), Nat.add_sub_cancel_left]
  · rw [if_neg heq]
    apply mapDrive_eq_of_bits mapDrive_le_15
    intro j hj
    have hfalse : ∀ m, m = min (4 * i + j) (hw.intBits - 1) →
        (decide (4 * n ≤ m) && v.testBit (m - 4 * n)) = false := by
      intro m hm
      by_cases hle : 4 * n ≤ m
      · rw [testBit_le_15 hv (by omega), Bool.and_false]
      · rw [decide_eq_false hle, Bool.false_and]
    rw [getLsbD_setMapDrive (by omega) rfl, if_neg (by omega), hfalse _ rfl, Bool.or_false,
      getLsbD_of_mapDrive hj]

/-- With 16 bits, slot 3 ends with the sign, and the slots behind it become copies of that bit. -/
theorem mapDrive_setMapDrive_sign (config : BitVec 32) (i : ℕ) (hi : i < 8) (hv : v ≤ 15) (h : hw.int16 = true) :
    mapDrive (setMapDrive hw config 3 v) i =
      if i < 3 then mapDrive config i else if i = 3 then v else if v.testBit 3 then 15 else 0 := by
  have hbits : hw.intBits = 16 := if_pos h
  by_cases hlow : i < 3
  · rw [if_pos hlow]
    apply mapDrive_eq_of_bits mapDrive_le_15
    intro j hj
    have hm : 4 * i + j = min (4 * i + j) (hw.intBits - 1) := by omega
    rw [getLsbD_setMapDrive (by omega) hm, if_neg (by omega), decide_eq_false (by omega), Bool.false_and,
      Bool.or_false, getLsbD_of_mapDrive hj]
  · rw [if_neg hlow]
    by_cases heq : i = 3
    · subst heq
      rw [if_pos rfl]
      apply mapDrive_eq_of_bits hv
      intro j hj
      have hm : 4 * 3 + j = min (4 * 3 + j) (hw.intBits - 1) := by omega
      rw [getLsbD_setMapDrive (by omega) hm, if_pos (by omega), Nat.add_sub_cancel_left]
    · rw [if_neg heq]
      apply mapDrive_eq_of_bits (by split <;> decide)
      intro j hj
      have hm : 15 = min (4 * i + j) (hw.intBits - 1) := by omega
      rw [getLsbD_setMapDrive (by omega) hm, if_pos (by omega)]
      cases hsign : v.testBit 3 with
      | true =>
        rw [if_pos rfl]
        interval_cases j <;> rfl
      | false => rw [if_neg Bool.false_ne_true, Nat.zero_testBit]

/-- With 16 bits, there is no place for slots 4 to 7. -/
theorem setMapDrive_high (hn : 4 ≤ n) (h : hw.int16 = true) : setMapDrive hw config n v = config := by
  have hbits : hw.intBits = 16 := if_pos h
  apply BitVec.eq_of_getLsbD_eq
  intro k hk
  rw [getLsbD_setMapDrive hk rfl, if_neg (by omega), decide_eq_false (by omega), Bool.false_and,
    Bool.or_false]

/-! ### Devices in two slots -/

theorem unique_default (hw : Hardware) : Unique hw.defaultDriveconfig := by
  obtain ⟨int16, ata, sd, twinsd⟩ := hw
  cases int16 <;> cases ata <;> cases sd <;> cases twinsd <;> decide +kernel

/-- The value comes into a slot, and its device is in no other slot then. With an `int` of 16 bits the
slots behind slot 3 are emptied if the value is 14, and become 0 for every device that the hardware has. -/
def Apart (hw : Hardware) (config : BitVec 32) (num val : ℕ) : Prop :=
  (hw.int16 = true ∧ 4 ≤ num) ∨ val = 15 ∨
    (∀ i < 8, i ≠ num → (hw.int16 = true → num = 3 → i < 3) → mapDrive config i ≠ val) ∧
      (hw.int16 = true → num = 3 → val = 14)

instance : Decidable (Apart hw config n v) := inferInstanceAs (Decidable (_ ∨ _))

theorem unique_setMapDrive (hconfig : Unique config) (hn : n < 8) (hv : v ≤ 15) (h : hw.int16 = true → n < 3) :
    Unique (setMapDrive hw config n v) ↔ v = 15 ∨ ∀ i < 8, i ≠ n → mapDrive config i ≠ v := by
  have hmap := fun {i} hi => mapDrive_setMapDrive config i hn hi hv h
  constructor
  · intro hunique
    by_cases hv15 : v = 15
    · exact .inl hv15
    · refine .inr fun i hi hne heq => hne (hunique i hi n hn ?_ ?_)
      · rw [hmap hi, if_neg hne, hmap hn, if_pos rfl, heq]
      · rwa [hmap hi, if_neg hne, heq]
  · intro hfree i hi j hj heq h15
    rw [hmap hi, hmap hj] at heq
    rw [hmap hi] at h15
    by_cases hin : i = n
    · rw [if_pos hin] at heq h15
      by_contra hij
      rw [if_neg (fun hjn => hij (hin.trans hjn.symm))] at heq
      exact hfree.resolve_left h15 j hj (fun hjn => hij (hin.trans hjn.symm)) heq.symm
    · rw [if_neg hin] at heq h15
      by_cases hjn : j = n
      · rw [if_pos hjn] at heq
        rw [heq] at h15
        exact absurd heq (hfree.resolve_left h15 i hi hin)
      · rw [if_neg hjn] at heq
        exact hconfig i hi j hj heq h15

theorem unique_setMapDrive_sign (hconfig : Unique config) (hv : v ≤ 15) (hhigh : v < 8 ∨ 14 ≤ v)
    (h : hw.int16 = true) :
    Unique (setMapDrive hw config 3 v) ↔ v = 15 ∨ (∀ i < 3, mapDrive config i ≠ v) ∧ v = 14 := by
  have hmap := fun {i} hi => mapDrive_setMapDrive_sign config i hi hv h
  rcases hhigh with hlow | hhigh
  · -- Slots 4 and 5 become 0.
    have hsign : v.testBit 3 = false := Nat.testBit_lt_two_pow hlow
    have hzero : ∀ i < 8, 3 < i → mapDrive (setMapDrive hw config 3 v) i = 0 := by
      intro i hi h3
      rw [hmap hi, if_neg (by omega), if_neg (by omega), if_neg (by simp [hsign])]
    refine iff_of_false (fun hunique => ?_) (by omega)
    have hfour := hzero 4 (by decide) (by decide)
    have heq : 4 = 5 := hunique 4 (by decide) 5 (by decide)
      (hfour.trans (hzero 5 (by decide) (by decide)).symm) (by omega)
    exact absurd heq (by decide)
  · have hsign : v.testBit 3 = true := by
      interval_cases v <;> rfl
    rw [hsign] at hmap
    constructor
    · intro hunique
      by_cases hv15 : v = 15
      · exact .inl hv15
      · refine .inr ⟨fun i hi heq => ?_, by omega⟩
        have hi3 : i = 3 := by
          apply hunique i (by omega) 3 (by decide)
          · rw [hmap (by omega), if_pos hi, hmap (by decide), heq]
            rfl
          · rwa [hmap (by omega), if_pos hi, heq]
        omega
    · intro hfree i hi j hj heq h15
      have hkept : ∀ k < 8, mapDrive (setMapDrive hw config 3 v) k ≠ 15 →
          k < 3 ∧ mapDrive (setMapDrive hw config 3 v) k = mapDrive config k ∨
            k = 3 ∧ v = 14 ∧ mapDrive (setMapDrive hw config 3 v) k = 14 := by
        intro k hk hne
        rw [hmap hk] at hne ⊢
        split_ifs at hne ⊢
        · exact .inl ⟨‹_›, rfl⟩
        · exact .inr ⟨‹_›, by omega, by omega⟩
        · exact absurd rfl hne
        · exact absurd rfl ‹¬true = true›
      have hkepti := hkept i hi h15
      have hkeptj := hkept j hj (heq ▸ h15)
      rcases hkepti with ⟨hi3, hmapi⟩ | ⟨rfl, hv14, hmapi⟩
      · rcases hkeptj with ⟨hj3, hmapj⟩ | ⟨rfl, hv14, hmapj⟩
        · rw [hmapi, hmapj] at heq
          rw [hmapi] at h15
          exact hconfig i hi j hj heq h15
        · rw [hmapi, hmapj, ← hv14] at heq
          exact absurd heq ((hfree.resolve_left (by omega)).1 i hi3)
      · rcases hkeptj with ⟨hj3, hmapj⟩ | ⟨rfl, -, -⟩
        · rw [hmapi, hmapj, ← hv14] at heq
          exact absurd heq.symm ((hfree.resolve_left (by omega)).1 j hj3)
        · rfl

/-! ### Commands -/

/-- A supported device has a low number, or is none. -/
theorem supports_cases (h : hw.supports (v / 2) = true) : v < 8 ∨ 14 ≤ v := by
  simp only [Hardware.supports, Bool.or_eq_true, Bool.and_eq_true, decide_eq_true_eq] at h
  simp only [DISK_TYPE_NONE, DISK_TYPE_SD, DISK_TYPE_ATA] at h
  omega

theorem unique_set_iff (hconfig : Unique config) (hn : n < 8) (hv : v ≤ 15)
    (hsupports : hw.supports (v / 2) = true) :
    Unique (setMapDrive hw config n v) ↔ Apart hw config n v := by
  by_cases h16 : hw.int16 = true
  · rcases Nat.lt_trichotomy n 3 with hlt | rfl | hgt
    · rw [unique_setMapDrive hconfig hn hv fun _ => hlt, Apart]
      simp [h16, Nat.ne_of_lt hlt, show ¬4 ≤ n by omega]
    · rw [unique_setMapDrive_sign hconfig hv (supports_cases hsupports) h16, Apart]
      simp only [h16, true_and, forall_const, show ¬4 ≤ 3 by decide, false_or]
      refine or_congr_right (and_congr_left fun _ => ⟨fun h i _ _ hi => h i hi, fun h i hi => ?_⟩)
      exact h i (by omega) (by omega) hi
    · rw [setMapDrive_high hgt h16, Apart]
      exact iff_of_true hconfig (.inl ⟨h16, hgt⟩)
  · rw [unique_setMapDrive hconfig hn hv fun h => absurd h h16, Apart]
    simp [h16]

/-- The command does not set a slot, or to a device that is apart. -/
def Sound (hw : Hardware) (config : BitVec 32) (text : List UInt8) : Prop :=
  text.headD 0 ≠ 63 → (parseDrive text).1 < 8 → ∀ val ∈ (parseDrive text).2, val ≤ 15 →
    hw.supports (val / 2) = true → mapDrive config (parseDrive text).1 ≠ val →
      Apart hw config (parseDrive text).1 val

/-- A command that reports an error changes nothing. -/
def Reported (hw : Hardware) (config : BitVec 32) (text : List UInt8) : Prop :=
  (driveCommand hw config text).1 ≠ none → (driveCommand hw config text).2 = config

theorem setDrive_reported {num val : ℕ} (h : (setDrive hw config num val).1 ≠ none) :
    (setDrive hw config num val).2 = config := by
  rw [setDrive] at h ⊢
  dsimp only at h ⊢
  by_cases hsupports : hw.supports (val / 2) = true
  · rw [if_pos hsupports] at h ⊢
    by_cases hsame : mapDrive config num = val
    · rw [if_neg (not_not.mpr hsame)]
    · -- The loop reports an error only if the slot has the value already.
      have hany : ¬(val ≠ 15 ∧ (List.range 8).any (fun i => i ≠ num && mapDrive config num = val) = true) := by
        simp [hsame]
      rw [if_pos hsame, if_neg hany] at h
      exact absurd rfl h
  · rw [if_neg hsupports]

theorem driveCommand_reported (hw : Hardware) (config : BitVec 32) (text : List UInt8) :
    Reported hw config text := by
  intro h
  rw [driveCommand] at h ⊢
  dsimp only at h ⊢
  split_ifs at h ⊢
  · rfl
  · split at h
    · split_ifs at h ⊢
      · exact setDrive_reported h
      · rfl
    · rfl
  · rfl

theorem unique_reset : Unique (if config = 0xffffffff#32 then hw.defaultDriveconfig else config) ↔
    Unique config := by
  split
  · next h => exact iff_of_true (unique_default hw) (h ▸ by decide +kernel)
  · rfl

/-- The configuration stays unique exactly if the command is sound. -/
theorem driveCommand_unique (hconfig : Unique config) (text : List UInt8) :
    Unique (driveCommand hw config text).2 ↔ Sound hw config text := by
  rw [driveCommand, Sound]
  dsimp only
  by_cases hquery : text.headD 0 = 63
  · rw [if_pos hquery]
    exact iff_of_true hconfig fun h => absurd hquery h
  · rw [if_neg hquery]
    by_cases hnum : (parseDrive text).1 < 8
    · rw [if_pos hnum]
      cases hval : (parseDrive text).2 with
      | none => exact iff_of_true hconfig fun _ _ val h => absurd h (by simp)
      | some val =>
        dsimp only
        by_cases hle : val ≤ 15
        · rw [if_pos hle, setDrive]
          dsimp only
          by_cases hsupports : hw.supports (val / 2) = true
          · rw [if_pos hsupports]
            by_cases hsame : mapDrive config (parseDrive text).1 = val
            · rw [if_neg (not_not.mpr hsame)]
              refine iff_of_true hconfig fun _ _ val' h' _ _ hne => ?_
              obtain rfl := Option.some.inj h'
              exact absurd hsame hne
            · rw [if_pos hsame]
              dsimp only
              rw [unique_reset, unique_set_iff hconfig hnum hle hsupports]
              refine ⟨fun h _ _ val' h' _ _ _ => ?_, fun h => h hquery hnum val rfl hle hsupports hsame⟩
              obtain rfl := Option.some.inj h'
              exact h
          · rw [if_neg hsupports]
            refine iff_of_true hconfig fun _ _ val' h' _ hsup _ => ?_
            obtain rfl := Option.some.inj h'
            exact absurd hsup hsupports
        · rw [if_neg hle]
          refine iff_of_true hconfig fun _ _ val' h' hle' _ _ => ?_
          obtain rfl := Option.some.inj h'
          exact absurd hle' hle
    · rw [if_neg hnum]
      exact iff_of_true hconfig fun _ h => absurd h hnum

theorem driveCommands_reported (hw : Hardware) (config : BitVec 32) (texts : List (List UInt8)) :
    Run.Meets (driveCommand hw) (Reported hw) config texts := by
  induction texts generalizing config with
  | nil => exact True.intro
  | cons text texts ih => exact ⟨driveCommand_reported hw config text, ih _⟩

/-- Along a run of commands no device is ever in two slots, and no command that reports an error changes
anything, exactly if every command that sets a slot takes a device that no other slot has. -/
theorem driveCommands_iff (hw : Hardware) (hconfig : Unique config) (texts : List (List UInt8)) :
    (Run.Always (driveCommand hw) Unique config texts ∧
        Run.Meets (driveCommand hw) (Reported hw) config texts) ↔
      Run.Meets (driveCommand hw) (Sound hw) config texts := by
  rw [and_iff_left (driveCommands_reported hw config texts)]
  refine Run.always_iff_meets (fun _ h => h) (fun config text hs h => ?_) (fun config text hs h => ?_) hconfig
  · exact (driveCommand_unique hs text).mpr h
  · exact mt (driveCommand_unique hs text).mp h

/-- An ATA drive in slot 0 and a card in slot 1. -/
def uIec : Hardware := ⟨true, true, true, false⟩

/-- `XD1=15` and `XD2=4` move the card to slot 2. -/
theorem driveCommands_move : (Run.Always (driveCommand uIec) Unique uIec.defaultDriveconfig
      [[49, 61, 49, 53], [50, 61, 52]] ∧
    Run.Meets (driveCommand uIec) (Reported uIec) uIec.defaultDriveconfig [[49, 61, 49, 53], [50, 61, 52]]) := by
  refine (driveCommands_iff uIec (unique_default uIec) _).mpr ⟨?_, ?_, True.intro⟩
  · rintro - - _ ⟨⟩ - - -
    decide
  · rintro - - _ ⟨⟩ - - -
    decide +kernel

/-- `XD2=4` alone puts the card into a second slot. -/
theorem driveCommands_twice : ¬∀ (hw : Hardware) (config : BitVec 32), Unique config →
    ∀ texts, Run.Always (driveCommand hw) Unique config texts ∧
      Run.Meets (driveCommand hw) (Reported hw) config texts := by
  intro h
  have htwice := (h uIec uIec.defaultDriveconfig (unique_default uIec) [[50, 61, 52]]).1 1
  revert htwice
  decide +kernel

end NoDiskEmu.Disk
