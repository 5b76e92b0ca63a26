import NoDiskEmu.Dos.Parser

/-! The places at which commands, file names and directory requests use a number as an index into
`partition[]`. -/

namespace NoDiskEmu.Dos

/-- A string handed to one of the parsers. Commands and file names come with the bytes of
`command_buffer` up to `command_length`. -/
inductive Request
  /-- `parse_path`, as the commands that take a path call it. -/
  | path (s : List UInt8) (forCd : Bool)
  | rmdir (cmd : List UInt8)
  | new (cmd : List UInt8)
  | changepart (cmd : List UInt8)
  | directory (cmd : List UInt8) (length secondary : ℕ)
  | fileOpen (cmd : List UInt8) (secondary : ℕ)

section

variable {D : Type*} (fs : Lookup D) (currentDir : ℕ → D) (v : Partitions) (previous : Option ℕ)

def usedByPath (s : List UInt8) (forCd : Bool) : List ℕ :=
  (parsePath fs forCd v currentDir s).path?.toList.map Path.part

/-- `parse_rmdir`. -/
def usedByRmdir (cmd : List UInt8) : List ℕ :=
  if (ustrchr cmd 47).isSome then []
  else
    let r := parsePartition v (cmd.drop 2)
    if peek r.2 ≠ 58 then [] else [r.1]

/-- `parse_new`. -/
def usedByNew (cmd : List UInt8) : List ℕ :=
  let r := parsePartition v (cmd.drop 1)
  if (ustrchr cmd 58).isNone then [] else [r.1]

/-- `parse_changepart`; the number becomes `current_part`. -/
def usedByChangepart (cmd : List UInt8) : List ℕ :=
  let part := if peek (cmd.drop 1) = 80 then (parsePartition v (cmd.drop 2)).1
    else ((peek (cmd.drop 2)).toNat + 255) % 256
  if v.maxPart ≤ part then [] else [part]

/-- `load_directory`. -/
def usedByDirectory (cmd : List UInt8) (length secondary : ℕ) : List ℕ :=
  let options := 2 < length ∧ secondary = 0 ∧ peek (cmd.drop 1) = 61
  if options ∧ peek (cmd.drop 2) = 80 then
    if 3 < length then usedByPath fs currentDir v (cmd.drop 3) false else []
  else
    let pos := if options ∧ peek (cmd.drop 2) = 84 then 3 else 1
    if peek (cmd.drop pos) ≠ 0 then
      if 2 < length then usedByPath fs currentDir v (cmd.drop pos) false
      else
        let c := peek (cmd.drop 1)
        let part :=
          if c = 48 then v.currentPart
          else if isdigit c then c.toNat - 48 - 1
          else if c = 33 ∧ v.eefsPartition ≠ 255 then v.eefsPartition
          else v.currentPart
        if v.maxPart ≤ part then [] else [part]
    else [v.currentPart]

/-- The carriage returns that `file_open` strips. -/
def stripReturn (cmd : List UInt8) : List UInt8 :=
  if 1 < cmd.length then
    if cmd.getLastD 0 = 13 then cmd.dropLast
    else if cmd.dropLast.getLastD 0 = 13 then cmd.dropLast.dropLast
    else cmd
  else cmd

/-- `file_open`. The string ends at the first comma, where the type and the mode start; `previous` is
the partition of the file that a single `*` opens again. -/
def usedByFileOpen (cmd : List UInt8) (secondary : ℕ) : List ℕ :=
  let cmd := stripReturn cmd
  let name := cmd.takeWhile (· ≠ 44)
  if peek cmd = 35 then []
  else if secondary = 0 ∧ cmd = [42] ∧ previous.isSome then previous.toList
  else if peek cmd = 36 then usedByDirectory fs currentDir v name cmd.length secondary
  else usedByPath fs currentDir v name false

def Request.used : Request → List ℕ
  | path s forCd => usedByPath fs currentDir v s forCd
  | rmdir cmd => usedByRmdir v cmd
  | new cmd => usedByNew v cmd
  | changepart cmd => usedByChangepart v cmd
  | directory cmd length secondary => usedByDirectory fs currentDir v cmd length secondary
  | fileOpen cmd secondary => usedByFileOpen fs currentDir v previous cmd secondary

end

/-- The decimal number at the start of a string, of any length. -/
def leadingNumber : List UInt8 → ℕ → ℕ
  | [], n => n
  | c :: cs, n =>
    if isdigit c then leadingNumber cs (n * 10 + (c.toNat - 48))
    else if c = 32 ∨ c = 64 then leadingNumber cs n
    else n

/-- The partition number at the start of a string names a partition: the name of the EEPROM file
system, a number that is a multiple of 256 for the current one, or one that is in range modulo 256. -/
def Names (v : Partitions) (s : List UInt8) : Prop :=
  if v.eefsPartition ≠ 255 ∧ peek s = 33 ∧ peek s.tail = 58 then v.eefsPartition < v.maxPart
  else if leadingNumber s 0 % 256 = 0 then v.currentPart < v.maxPart
  else leadingNumber s 0 % 256 ≤ v.maxPart

/-- A path without a partition number is one of the current partition. -/
def SafePath (v : Partitions) (s : List UInt8) (forCd : Bool) : Prop :=
  forCd = false → ustrchr s 58 = none → v.currentPart < v.maxPart

def SafeDirectory (v : Partitions) (cmd : List UInt8) (length secondary : ℕ) : Prop :=
  let options := 2 < length ∧ secondary = 0 ∧ peek (cmd.drop 1) = 61
  if options ∧ peek (cmd.drop 2) = 80 then 3 < length → SafePath v (cmd.drop 3) false
  else
    let pos := if options ∧ peek (cmd.drop 2) = 84 then 3 else 1
    (peek (cmd.drop pos) = 0 → v.currentPart < v.maxPart) ∧
      (peek (cmd.drop pos) ≠ 0 → 2 < length → SafePath v (cmd.drop pos) false)

def Request.Safe (v : Partitions) (previous : Option ℕ) : Request → Prop
  | path s forCd => SafePath v s forCd
  | rmdir cmd => ustrchr cmd 47 = none → peek (parsePartition v (cmd.drop 2)).2 = 58 →
      Names v (cmd.drop 2)
  | new cmd => ustrchr cmd 58 ≠ none → Names v (cmd.drop 1)
  | changepart _ => True
  | directory cmd length secondary => SafeDirectory v cmd length secondary
  | fileOpen cmd secondary =>
    let cmd := stripReturn cmd
    let name := cmd.takeWhile (· ≠ 44)
    if peek cmd = 35 then True
    else if secondary = 0 ∧ cmd = [42] ∧ previous.isSome then ∀ part, previous = some part →
      part < v.maxPart
    else if peek cmd = 36 then SafeDirectory v name cmd.length secondary
    else SafePath v name false

theorem partitionDigits_eq (s : List UInt8) (n : ℕ) :
    (partitionDigits s (n % 256)).1 = leadingNumber s n % 256 := by
  induction s generalizing n with
  | nil => rfl
  | cons c cs ih =>
    rw [partitionDigits, leadingNumber]
    split
    · rw [show (n % 256 * 10 + (c.toNat - 48)) % 256 = (n * 10 + (c.toNat - 48)) % 256 by omega]
      exact ih _
    · split
      · exact ih n
      · rfl

theorem parsePartition_lt_iff (v : Partitions) (s : List UInt8) :
    (parsePartition v s).1 < v.maxPart ↔ Names v s := by
  rw [parsePartition, Names]
  split
  · rfl
  · have hdigits := partitionDigits_eq s 0
    rw [Nat.zero_mod] at hdigits
    dsimp only
    rw [hdigits]
    split
    · rfl
    · omega

/-- A number that was compared with `max_part` before its use. -/
theorem lt_of_mem_checked {m p part : ℕ} (h : part ∈ if m ≤ p then [] else [p]) : part < m := by
  split at h
  · cases h
  · next hlt =>
    rw [List.mem_singleton.mp h]
    exact Nat.lt_of_not_le hlt

section

variable {D : Type*} {fs : Lookup D} {currentDir : ℕ → D} {v : Partitions}

/-- The way along a path stays in its partition. -/
theorem walkPath_part (forCd : Bool) (fuel : ℕ) (path : Path D) (s : List UInt8) :
    ∃ path', (walkPath fs forCd fuel path s).path? = some path' ∧ path'.part = path.part := by
  induction fuel generalizing path s with
  | zero => exact ⟨path, rfl, rfl⟩
  | succ fuel ih =>
    rw [walkPath]
    split
    · exact ⟨path, rfl, rfl⟩
    · dsimp only
      split
      · split
        · exact ih { path with dir := fs.root path.dir } s.tail
        · split
          · exact ⟨path, rfl, rfl⟩
          · split
            · exact ⟨path, rfl, rfl⟩
            · split
              · exact ⟨path, rfl, rfl⟩
              · next isDir dir _ =>
                split
                · exact ih { path with dir } _
                · split
                  · exact ⟨path, rfl, rfl⟩
                  · exact ⟨path, rfl, rfl⟩
      · split
        · exact ⟨path, rfl, rfl⟩
        · exact ih path s.tail

theorem usedByPath_safe (s : List UInt8) (forCd : Bool) :
    (∀ part ∈ usedByPath fs currentDir v s forCd, part < v.maxPart) ↔ SafePath v s forCd := by
  rw [usedByPath, parsePath, SafePath]
  by_cases hcolon : (forCd || (ustrchr s 58).isSome) = true
  · rw [if_pos hcolon]
    have hsafe : forCd = false → ustrchr s 58 = none → v.currentPart < v.maxPart := by
      intro hcd hnone
      rw [hcd, hnone] at hcolon
      cases hcolon
    refine iff_of_true (fun part hpart => ?_) hsafe
    dsimp only at hpart
    split at hpart
    · cases hpart
    · next hlt =>
      split at hpart
      · rw [List.mem_singleton.mp hpart]
        exact Nat.lt_of_not_le hlt
      · obtain ⟨path', hpath, hsame⟩ := walkPath_part forCd (parsePartition v s).2.length
          ⟨(parsePartition v s).1, currentDir (parsePartition v s).1⟩ (parsePartition v s).2
        rw [hpath] at hpart
        rw [List.mem_singleton.mp hpart, hsame]
        exact Nat.lt_of_not_le hlt
  · rw [if_neg hcolon]
    have hnone : forCd = false ∧ ustrchr s 58 = none := by
      simpa [Option.isSome_iff_ne_none] using hcolon
    simp [Parsed.path?, hnone]

theorem usedByDirectory_safe (cmd : List UInt8) (length secondary : ℕ) :
    (∀ part ∈ usedByDirectory fs currentDir v cmd length secondary, part < v.maxPart) ↔
      SafeDirectory v cmd length secondary := by
  rw [usedByDirectory, SafeDirectory]
  dsimp only
  split
  · split
    · next hlen =>
      rw [usedByPath_safe]
      exact ⟨fun h _ => h, fun h => h hlen⟩
    · next hlen => exact iff_of_true (by simp) fun h => absurd h hlen
  · generalize (if (2 < length ∧ secondary = 0 ∧ peek (cmd.drop 1) = 61) ∧ peek (cmd.drop 2) = 84
      then 3 else 1) = pos
    by_cases hpos : peek (cmd.drop pos) ≠ 0
    · rw [if_pos hpos]
      by_cases hlen : 2 < length
      · rw [if_pos hlen, usedByPath_safe]
        exact ⟨fun h => ⟨fun h0 => absurd h0 hpos, fun _ _ => h⟩, fun h => h.2 hpos hlen⟩
      · rw [if_neg hlen]
        exact iff_of_true (fun part hpart => lt_of_mem_checked hpart)
          ⟨fun h0 => absurd h0 hpos, fun _ h => absurd h hlen⟩
    · rw [if_neg hpos]
      have hzero : peek (cmd.drop pos) = 0 := not_not.mp hpos
      simp [hzero]

end

/-- The numbers that a request uses as an index into `partition[]` are below `max_part` exactly if it
is safe. -/
theorem request_safe_iff {D : Type*} (fs : Lookup D) (currentDir : ℕ → D) (v : Partitions)
    (previous : Option ℕ) (q : Request) :
    (∀ part ∈ q.used fs currentDir v previous, part < v.maxPart) ↔ q.Safe v previous := by
  cases q with
  | path s forCd => exact usedByPath_safe s forCd
  | rmdir cmd =>
    rw [Request.used, usedByRmdir, Request.Safe, ← parsePartition_lt_iff]
    cases hslash : ustrchr cmd 47 with
    | some rest => simp
    | none =>
      by_cases hcolon : peek (parsePartition v (cmd.drop 2)).2 = 58
      · simp [hcolon]
      · simp [hcolon]
  | new cmd =>
    rw [Request.used, usedByNew, Request.Safe, ← parsePartition_lt_iff]
    cases hcolon : ustrchr cmd 58 with
    | none => simp
    | some rest => simp
  | changepart cmd =>
    rw [Request.used, usedByChangepart, Request.Safe]
    exact iff_true_intro fun part hpart => lt_of_mem_checked hpart
  | directory cmd length secondary => exact usedByDirectory_safe cmd length secondary
  | fileOpen cmd secondary =>
    rw [Request.used, usedByFileOpen, Request.Safe]
    split
    · simp
    · split
      · cases previous with
        | none => simp
        | some part => simp
      · split
        · exact usedByDirectory_safe _ _ _
        · exact usedByPath_safe _ _

/-- `N3:A` formats a partition behind the last one of two. -/
theorem new_out_of_range : ¬∀ part ∈ (Request.new [78, 51, 58, 65]).used
    (⟨id, fun _ _ => .error ERROR_FILE_NOT_FOUND, fun _ => false⟩ : Lookup Unit) (fun _ => ()) ⟨2, 0, 255⟩ none,
    part < 2 := by
  decide

end NoDiskEmu.Dos
