import Mathlib.Data.List.Basic
import Mathlib.Data.Nat.Notation

/-! The parts of `parser.c` that read numbers and paths out of a command string. A string is the list of
its bytes; what lies behind them is zero, and so is the end. -/

namespace NoDiskEmu.Dos

def ERROR_FILE_NOT_FOUND_39 : ℕ := 39
def ERROR_FILE_NOT_FOUND : ℕ := 62
def ERROR_DRIVE_NOT_READY : ℕ := 74

/-- The byte that a pointer into a string points to. -/
def peek (s : List UInt8) : UInt8 := s.headD 0

/-- `strchr` for a character other than the terminator. -/
def ustrchr : List UInt8 → UInt8 → Option (List UInt8)
  | [], _ => none
  | x :: xs, c => if x = c then some (x :: xs) else if x = 0 then none else ustrchr xs c

def isdigit (c : UInt8) : Bool := 48 ≤ c && c ≤ 57

/-- The variables of `parser.c` that the partition numbers depend on; 255 in `eefsPartition` means that
there is no EEPROM file system. -/
structure Partitions where
  maxPart : ℕ
  currentPart : ℕ
  eefsPartition : ℕ

/-- The loop of `parse_partition`: the number in its `uint8_t`, and the rest of the string. -/
def partitionDigits : List UInt8 → ℕ → ℕ × List UInt8
  | [], part => (part, [])
  | c :: cs, part =>
    if isdigit c then partitionDigits cs ((part * 10 + (c.toNat - 48)) % 256)
    else if c = 32 ∨ c = 64 then partitionDigits cs part
    else (part, c :: cs)

def parsePartition (v : Partitions) (s : List UInt8) : ℕ × List UInt8 :=
  if v.eefsPartition ≠ 255 ∧ peek s = 33 ∧ peek s.tail = 58 then (v.eefsPartition, s.drop 2)
  else
    let r := partitionDigits s 0
    (if r.1 = 0 then v.currentPart else r.1 - 1, r.2)

/-- The loop of `parse_number`. -/
def numberDigits : List UInt8 → ℕ → ℕ × List UInt8
  | [], res => (res, [])
  | c :: cs, res =>
    if isdigit c then numberDigits cs ((res * 10 + (c.toNat - 48)) % 65536) else (res, c :: cs)

def parseNumber (s : List UInt8) : ℕ × List UInt8 := numberDigits (s.dropWhile (· = 32)) 0

/-- `path_t`, with the directory references of the file systems. -/
structure Path (D : Type*) where
  part : ℕ
  dir : D

/-- What the file system of a partition says to `parse_path`: the root that `chdir` goes to, the match
for a name (an error, or whether it is a directory, and which one), and whether a name is one of an
image. -/
structure Lookup (D : Type*) where
  root : D → D
  firstMatch : D → List UInt8 → Except ℕ (Bool × D)
  isImage : List UInt8 → Bool

/-- What `parse_path` comes to: an error before a path is set, an error on the way along it, or a path
with the name that follows. -/
inductive Parsed (D : Type*)
  | refused (code : ℕ)
  | failed (path : Path D) (code : ℕ)
  | found (path : Path D) (name : List UInt8)

section

variable {D : Type*} (fs : Lookup D) (forCd : Bool)

/-- The characters of a path component, up to a slash, a colon or the end. -/
def isComponent (c : UInt8) : Bool := c ≠ 0 && c ≠ 47 && c ≠ 58

/-- The loop of `parse_path` along the components; each round consumes a character. -/
def walkPath : ℕ → Path D → List UInt8 → Parsed D
  | 0, path, s => .found path s
  | fuel + 1, path, s =>
    if peek s = 0 then .found path s
    else
      let rest := s.tail
      if peek s = 47 then
        if peek rest = 47 then walkPath fuel { path with dir := fs.root path.dir } rest
        else if peek rest = 0 then .found path rest
        else if peek rest = 58 then .found path rest.tail
        else
          let name := rest.takeWhile isComponent
          let after := rest.dropWhile isComponent
          match fs.firstMatch path.dir name with
          | .error code =>
            .failed path (if code = ERROR_FILE_NOT_FOUND then ERROR_FILE_NOT_FOUND_39 else code)
          | .ok (isDir, dir) =>
            if isDir then walkPath fuel { path with dir } after
            else if forCd && peek after = 0 && fs.isImage name then .found path name
            else .failed path ERROR_FILE_NOT_FOUND_39
      else if peek s = 58 then .found path rest
      else walkPath fuel path rest

def parsePath (v : Partitions) (currentDir : ℕ → D) (s : List UInt8) : Parsed D :=
  if forCd || (ustrchr s 58).isSome then
    let r := parsePartition v s
    if v.maxPart ≤ r.1 then .refused ERROR_DRIVE_NOT_READY
    else
      let path := ⟨r.1, currentDir r.1⟩
      if peek r.2 ≠ 47 then
        .found path (match ustrchr r.2 58 with | none => r.2 | some name => name.tail)
      else walkPath fs forCd r.2.length path r.2
  else .found ⟨v.currentPart, currentDir v.currentPart⟩ s

end

/-- The path that was set, if one was. -/
def Parsed.path? {D : Type*} : Parsed D → Option (Path D)
  | refused _ => none
  | failed path _ => some path
  | found path _ => some path

end NoDiskEmu.Dos
