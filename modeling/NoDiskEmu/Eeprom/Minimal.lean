import NoDiskEmu.Eeprom.State

/-! The two versions of `write_entry`: with `EEPROMFS_MINIMIZE_WRITES` only the bytes that change are
written. -/

namespace NoDiskEmu.Eeprom

open Library

namespace Eefs

/-- The positions in the blocks that `write_entry` finds are those of the bytes that differ. -/
theorem changedBlocks_positions (new old : Entry) (n : ℕ) (hn : n ≤ 32) (start : Option ℕ)
    (hstart : ∀ k ∈ start, k ≤ 32 - n) :
    (changedBlocks new old n start).flatMap (fun block => List.range' block.1 block.2) =
      (start.elim [] fun k => List.range' k (32 - n - k)) ++
        (List.range' (32 - n) n).filter fun k => new (Fin.ofNat 32 k) ≠ old (Fin.ofNat 32 k) := by
  induction n generalizing start with
  | zero =>
    cases start with
    | none => rfl
    | some k => simp [changedBlocks]
  | succ n ih =>
    have hi : 32 - (n + 1) = 31 - n := by omega
    have hnext : 31 - n + 1 = 32 - n := by omega
    rw [hi, List.range'_succ, hnext]
    cases start with
    | none =>
      rw [changedBlocks]
      split
      · next hne =>
        have hlen : 32 - n - (31 - n) = 1 := by omega
        rw [ih (by omega) _ (by simp; omega), List.filter_cons_of_pos (by simpa using hne),
          Option.elim_some, hlen]
        rfl
      · next heq =>
        rw [ih (by omega) _ (by simp), List.filter_cons_of_neg (by simpa using heq)]
        rfl
    | some k =>
      have hk : k ≤ 31 - n := by
        have := hstart k rfl
        omega
      rw [changedBlocks]
      split
      · next heq =>
        rw [List.flatMap_cons, ih (by omega) _ (by simp), List.filter_cons_of_neg (by simpa using heq)]
        rfl
      · next hne =>
        have hlen : 32 - n - k = 31 - n - k + 1 := by omega
        have hlast : k + (31 - n - k) = 31 - n := by omega
        rw [ih (by omega) _ (by simp; omega), List.filter_cons_of_pos (by simpa using hne), Option.elim_some,
          Option.elim_some, hlen, List.range'_1_concat, hlast, List.append_assoc]
        rfl

variable (c : Config) (s : Eefs) (i : ℕ)

/-- `write_entry` without `EEPROMFS_MINIMIZE_WRITES`. -/
def writeEntryFull : Eefs :=
  { s with mem := Memory.write s.mem (c.entryAddr i) 32 fun k => s.buffer (Fin.ofNat 32 k) }

/-- The bytes that the blocks of `write_entry` consist of, with their addresses and in their order. -/
def writtenBytes : List (ℕ × UInt8) :=
  (changedBlocks s.buffer (s.entry c i) 32 none).flatMap fun block =>
    (List.range' block.1 block.2).map fun k => (c.entryAddr i + k, s.buffer (Fin.ofNat 32 k))

/-- A block write is the write of its bytes. -/
theorem write_eq_foldl (mem : ℕ → UInt8) (addr first n : ℕ) (data : ℕ → UInt8) :
    Memory.write mem (addr + first) n (fun k => data (first + k)) =
      ((List.range' first n).map fun k => (addr + k, data k)).foldl
        (fun m w => Function.update m w.1 w.2) mem := by
  induction n with
  | zero => exact Memory.write_same fun k hk => absurd hk (Nat.not_lt_zero k)
  | succ n ih =>
    rw [List.range'_1_concat, List.map_append, List.foldl_append, ← ih]
    funext o
    by_cases ho : o = addr + (first + n)
    · subst ho
      have hin : Memory.write mem (addr + first) (n + 1) (fun k => data (first + k)) (addr + first + n) =
          data (first + n) := Memory.write_inside (Nat.lt_succ_self n)
      rw [Nat.add_assoc] at hin
      rw [hin, List.map_singleton, List.foldl_cons, List.foldl_nil, Function.update_self]
    · rw [List.map_singleton, List.foldl_cons, List.foldl_nil, Function.update_of_ne ho]
      by_cases hmem : addr + first ≤ o ∧ o < addr + first + n
      · rw [Memory.write, if_pos ⟨hmem.1, by omega⟩, Memory.write, if_pos hmem]
      · rw [Memory.write_outside (by omega), Memory.write_outside (by omega)]

/-- The blocks of `write_entry` as single bytes. -/
theorem mem_writeEntry_bytes : (s.writeEntry c i).mem =
    (s.writtenBytes c i).foldl (fun m w => Function.update m w.1 w.2) s.mem := by
  have hblocks : ∀ (blocks : List (ℕ × ℕ)) (mem : ℕ → UInt8), blocks.foldl (s.writeBlock c i) mem =
      (blocks.flatMap fun block => (List.range' block.1 block.2).map fun k =>
        (c.entryAddr i + k, s.buffer (Fin.ofNat 32 k))).foldl (fun m w => Function.update m w.1 w.2) mem := by
    intro blocks
    induction blocks with
    | nil => exact fun _ => rfl
    | cons block blocks ih =>
      intro mem
      rw [List.foldl_cons, List.flatMap_cons, List.foldl_append, ih, writeBlock,
        write_eq_foldl mem (c.entryAddr i) block.1 block.2 fun k => s.buffer (Fin.ofNat 32 k)]
  exact hblocks _ _

/-- The bytes that are written are those of the buffer that differ from the entry. -/
theorem writtenBytes_eq : s.writtenBytes c i =
    ((List.range' 0 32).filter fun k => s.buffer (Fin.ofNat 32 k) ≠ s.entry c i (Fin.ofNat 32 k)).map
      fun k => (c.entryAddr i + k, s.buffer (Fin.ofNat 32 k)) := by
  have hpositions := changedBlocks_positions s.buffer (s.entry c i) 32 le_rfl none (by simp)
  rw [writtenBytes, ← List.map_flatMap, hpositions]
  rfl

/-- The minimal write leaves what the full one does, and writes a byte once at most, to a place that held
another value. -/
theorem writeEntry_minimal :
    (s.writeEntry c i).mem = (s.writeEntryFull c i).mem ∧
      (∀ a, a < c.entryAddr i ∨ c.entryAddr i + 32 ≤ a → (s.writeEntry c i).mem a = s.mem a) ∧
      (s.writeEntry c i).mem =
        (s.writtenBytes c i).foldl (fun m w => Function.update m w.1 w.2) s.mem ∧
      ((s.writtenBytes c i).map Prod.fst).Nodup ∧ ∀ w ∈ s.writtenBytes c i, s.mem w.1 ≠ w.2 := by
  refine ⟨mem_writeEntry .., fun a ha => ?_, mem_writeEntry_bytes .., ?_, ?_⟩
  · rw [mem_writeEntry, Memory.write_outside ha]
  · rw [writtenBytes_eq, List.map_map]
    apply List.Nodup.map
    · intro k j hkj
      exact Nat.add_left_cancel hkj
    · exact (List.nodup_range' 1 Nat.one_pos).filter _
  · intro w hw
    rw [writtenBytes_eq] at hw
    obtain ⟨k, hk, rfl⟩ := List.mem_map.mp hw
    obtain ⟨hrange, hne⟩ := List.mem_filter.mp hk
    have hlt : k < 32 := by
      rw [List.mem_range'_1] at hrange
      omega
    have hne' := of_decide_eq_true hne
    rw [entry, Fin.val_ofNat, Nat.mod_eq_of_lt hlt] at hne'
    exact hne'.symm

end Eefs

end NoDiskEmu.Eeprom
