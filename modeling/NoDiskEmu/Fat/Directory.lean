import NoDiskEmu.Dos.Listing
import NoDiskEmu.Fat.Volume

/-! Directories of a FAT file system, as `fatops.c` reads and changes them, and the cache of
`p00cache.c` for the names inside of PC64 files. `fat_readdir` takes the function that looks up a name
as a parameter: with one that never finds a name it reads the header of every file. -/

namespace NoDiskEmu.Fat

open Library

/-- The cache; an entry has the cluster and the 16 characters of the name. -/
structure P00cache where
  cachePart : UInt8
  entries : List (UInt32 × (ℕ → UInt8))

/-- `memcpy` of a name to a place that is 0. -/
def copyName (name : ℕ → UInt8) : ℕ → UInt8 := Memory.write (fun _ => 0) 0 CBM_NAME_LENGTH name

/-- `p00cache_invalidate`. -/
def p00cacheInvalidate : P00cache := ⟨255, []⟩

/-- `p00cache_lookup`. -/
def p00cacheLookup (cache : P00cache) (part : UInt8) (cluster : UInt32) : Option (ℕ → UInt8) :=
  if part ≠ cache.cachePart then none else cache.entries.lookup cluster

/-- A lookup that fails. -/
def missingLookup (_ : P00cache) (_ : UInt8) (_ : UInt32) : Option (ℕ → UInt8) := none

/-- `p00cache_add`, for a cache of `capacity` names. -/
def p00cacheAdd (capacity : ℕ) (cache : P00cache) (part : UInt8) (cluster : UInt32) (name : ℕ → UInt8) :
    P00cache :=
  if cache.entries.length = capacity then cache
  else
    let cache := if part ≠ cache.cachePart then { p00cacheInvalidate with cachePart := part } else cache
    { cache with entries := cache.entries ++ [(cluster, copyName name)] }

/-- `exttype_t`, with the first character of the extension. -/
inductive Exttype
  | unknown
  | isX00 (typechar : UInt8)
  | isType (typechar : UInt8)

/-- `isdigit`. -/
def isdigit (c : UInt8) : Bool := 48 ≤ c && c ≤ 57

/-- `check_extension`. -/
def checkExtension (name : List UInt8) : Exttype :=
  match Dxx.lastDot name with
  | none => .unknown
  | some ext =>
    let f := ext.getD 1 0
    let s := ext.getD 2 0
    let t := ext.getD 3 0
    if (f = 80 || f = 83 || f = 85 || f = 82) && isdigit s && isdigit t then .isX00 f
    else if f = 80 && s = 82 && t = 71 || f = 83 && s = 69 && t = 81 || f = 82 && s = 69 && t = 76 ||
        f = 85 && s = 83 && t = 82 then .isType f
    else .unknown

/-- `asc2pet`, for one character. -/
def asc2pet (ch : UInt8) : UInt8 :=
  if ch > 64 ∧ ch < 91 then ch + 128
  else if ch > 96 ∧ ch < 123 then ch - 32
  else if ch > 192 ∧ ch < 219 then ch - 128
  else if ch = 126 then 255
  else ch

/-- The switch over `typechar`. -/
def typeOf (typechar : UInt8) : UInt8 :=
  if typechar = 80 then 2 else if typechar = 83 then 1 else if typechar = 85 then 3
  else if typechar = 82 then 4 else 0

/-- The string at the start of a block of `n` bytes. -/
def cString (n : ℕ) (bytes : ℕ → UInt8) : List UInt8 := ((List.range n).map bytes).takeWhile (· ≠ 0)

/-- `ustrcpy` to a place that is 0. -/
def copyString (s : List UInt8) : ℕ → UInt8 := fun i => s.getD i 0

/-- What comes of the attempt to read the name inside of a PC64 file: the name, or `notp00` with
`ops_scratch` as it was or with the bytes of the file in it. -/
inductive Internal
  | name (name : ℕ → UInt8)
  | unread
  | other (scratch : ℕ → UInt8)

/-- The name field of a header; the name of a program may be padded with 160. -/
def headerName (scratch : ℕ → UInt8) : ℕ → UInt8 := fun i =>
  let c := copyString (cString (P00_HEADER_SIZE - P00_CBMNAME_OFFSET) fun j => scratch (P00_CBMNAME_OFFSET + j)) i
  if i < 16 ∧ c = 160 then 0 else c

/-- The name is read from the file. -/
def Volume.readName (v : Volume) (clust : UInt32) : Internal :=
  match v.readCluster clust with
  | none => .unread
  | some scratch =>
    if (List.range p00marker.length).map scratch ≠ p00marker then .other scratch
    else .name (headerName scratch)

/-- `dirent` of a FAT directory: `fat` is false for `OPSTYPE_FAT_X00`. -/
structure FatDirent extends Dos.Dirent where
  second : UInt8
  cluster : UInt32

namespace Filinfo

/-- The long name is used. -/
def usesLfn (f : Filinfo) : Bool := f.lfn ≠ [] && f.lfn.length ≤ CBM_NAME_LENGTH + 4

/-- `nameptr`. -/
def nameptr (f : Filinfo) : List UInt8 := if f.usesLfn then f.lfn.map asc2pet else f.fname

/-- The name of a file that is no PC64 one. -/
def plainName (f : Filinfo) (nameptr : List UInt8) : ℕ → UInt8 :=
  copyString ((if nameptr.length > CBM_NAME_LENGTH then f.fname else nameptr).map
    fun c => if c = 126 then 255 else c)

/-- A PC64 file by its extension. -/
def isX00 (f : Filinfo) : Bool :=
  !f.isDir && match checkExtension f.fname with
    | .isX00 _ => true
    | _ => false

/-- The name, the type, the size and `opstype`. -/
def shown (hideExt : Bool) (f : Filinfo) (internal : Internal) : (ℕ → UInt8) × UInt8 × UInt32 × Bool :=
  if f.isDir then
    (f.plainName f.nameptr, Dos.TYPE_DIR ||| if f.nameptr.headD 0 = 46 then Dos.FLAG_HIDDEN else 0,
      f.fsize, true)
  else
    match checkExtension f.fname with
    | .isX00 typechar =>
      match internal with
      | .name name => (name, typeOf typechar, f.fsize - UInt32.ofNat P00_HEADER_SIZE, false)
      | .unread => (f.plainName f.nameptr, typeOf typechar, f.fsize, true)
      -- `nameptr` points into `ops_scratch` if it is the long name
      | .other scratch =>
        (f.plainName (if f.usesLfn then cString P00_HEADER_SIZE scratch else f.nameptr),
          typeOf typechar, f.fsize, true)
    | .isType typechar =>
      if hideExt then
        (f.plainName (f.nameptr.take ((f.nameptr.length + 252) % 256)), typeOf typechar, f.fsize, true)
      else (f.plainName f.nameptr, typeOf 80, f.fsize, true)
    | .unknown => (f.plainName f.nameptr, typeOf 80, f.fsize, true)

/-- The directory entry that `fat_readdir` returns. -/
def dirent (hideExt : Bool) (f : Filinfo) (internal : Internal) : FatDirent :=
  let (name, type, fsize, fat) := f.shown hideExt internal
  { name
    typeflags := type ||| (if f.isReadonly then Dos.FLAG_RO else 0) |||
      if f.fattrib &&& (AM_HID ||| AM_SYS) ≠ 0 then Dos.FLAG_HIDDEN else 0
    blocksize := if fsize > 16255746 then 63999 else ((fsize + 253) / 254).toUInt16
    remainder := (fsize % 254).toUInt8
    date :=
      { year := (f.fdate >>> 9).toUInt8 + 80
        month := (f.fdate >>> 5).toUInt8 &&& 15
        day := f.fdate.toUInt8 &&& 31
        hour := (f.ftime >>> 11).toUInt8
        minute := (f.ftime >>> 5).toUInt8 &&& 63 }
    fat
    realname := f.fname
    second := (f.ftime.toUInt8 &&& 31) <<< 1
    cluster := f.clust }

end Filinfo

/-- `dh_t`: a directory of a partition and a position in it. -/
structure Dh where
  part : UInt8
  dir : UInt32
  index : ℕ

/-- The loop of `fat_readdir` over `f_readdir`, for the slots that are left of the directory: the
first entry that is not deleted, no label and neither `.` nor `..`, and the position behind it. -/
def nextEntry : List (Option Filinfo) → ℕ → Option Filinfo × ℕ
  | [], i => (none, i)
  | none :: slots, i => nextEntry slots (i + 1)
  | some f :: slots, i =>
    if f.isLabel ∨ f.fname = [46] ∨ f.fname = [46, 46] then nextEntry slots (i + 1)
    else (some f, i + 1)

section

variable (lookup : P00cache → UInt8 → UInt32 → Option (ℕ → UInt8)) (capacity : ℕ)

/-- The name inside of a PC64 file, from the cache or from the file. -/
def findName (cache : P00cache) (v : Volume) (part : UInt8) (clust : UInt32) : Internal × P00cache :=
  match lookup cache part clust with
  | some name => (.name (copyName name), cache)
  | none =>
    match v.readName clust with
    | .name name => (.name name, p00cacheAdd capacity cache part clust name)
    | internal => (internal, cache)

/-- `fat_readdir`; there is no entry at the end of the directory. -/
def fatReaddir (hideExt : Bool) (v : Volume) (cache : P00cache) (dh : Dh) :
    Option FatDirent × Dh × P00cache :=
  match nextEntry ((v.dirs dh.dir).drop dh.index) dh.index with
  | (none, i) => (none, { dh with index := i }, cache)
  | (some f, i) =>
    if f.fname = [] then (none, { dh with index := i }, cache)
    else if f.isX00 then
      let r := findName lookup capacity cache v dh.part f.clust
      (some (f.dirent hideExt r.1), { dh with index := i }, r.2)
    else (some (f.dirent hideExt .unread), { dh with index := i }, cache)

end

/-- A file that is open for writing: the slot of its entry and what was written to it. -/
structure OpenFile where
  part : UInt8
  dir : UInt32
  slot : ℕ
  bytes : List UInt8

/-- The mounted volumes, the cache and the new files. -/
structure Drive where
  volume : UInt8 → Volume
  cache : P00cache
  files : List OpenFile

/-- `build_name` for the number of a type, which may be the one of a directory. -/
def buildNameOf (mode : ℕ) (name : List UInt8) (type : UInt8) : List UInt8 × Bool :=
  let name := name.map pet2asc
  let text := (Dos.filetypes.drop (3 * type.toNat)).take 3
  if type = 2 ∧ checkImageext name then (name, false)
  else if mode = 1 ∧ type ≠ 2 ∨ mode = 2 ∨ !isValidFatName name then
    (name.map (fun c => if isValidFatChar c then c else 95) ++ 46 :: text.headD 0 :: [48, 48], true)
  else if mode = 3 ∧ type ≠ 2 ∨ mode = 4 then (name ++ 46 :: text, false)
  else (name, false)

/-- A name of at most 16 characters. -/
def Name := { name : List UInt8 // name.length ≤ CBM_NAME_LENGTH ∧ 0 ∉ name }

namespace Drive

def setVolume (d : Drive) (part : UInt8) (v : Volume) : Drive :=
  { d with volume := Function.update d.volume part v }

/-- `fat_delete`. -/
def fatDelete (d : Drive) (part : UInt8) (dir : UInt32) (dent : FatDirent) : FResult × Drive :=
  let (name, cache) :=
    if dent.realname ≠ [] then (dent.realname, p00cacheInvalidate)
    else ((cString CBM_NAME_LENGTH dent.name).map pet2asc, d.cache)
  let r := (d.volume part).fUnlink dir name
  (r.1, { d.setVolume part r.2 with cache })

/-- `fat_rename`. A PC64 file only gets another name inside of it; in the other cases the extension
for the type is kept. -/
def fatRename (mode : ℕ) (d : Drive) (part : UInt8) (dir : UInt32) (dent : FatDirent) (newname : Name)
    (new : NewEntry) (fresh : UInt32) : FResult × Drive :=
  if !dent.fat then
    let r := (d.volume part).fPatch dir dent.realname P00_CBMNAME_OFFSET CBM_NAME_LENGTH
      (copyString newname.val) fresh
    (r.1, { d.setVolume part r.2 with cache := p00cacheInvalidate })
  else
    let r := match checkExtension dent.realname with
      | .isType _ =>
        (d.volume part).fRename dir dent.realname (buildNameOf mode newname.val (dent.typeflags &&& 7)).1 new
      | _ =>
        (d.volume part).fRename dir ((cString CBM_NAME_LENGTH dent.name).map pet2asc)
          (newname.val.map pet2asc) new
    (r.1, d.setVolume part r.2)

/-- The names that `create_file` tries: `.x00` to `.x99` for a PC64 file. -/
def candidates (built : List UInt8 × Bool) : List (List UInt8) :=
  if built.2 then
    (List.range 100).map fun k =>
      built.1.take (built.1.length - 2) ++ [UInt8.ofNat (48 + k / 10), UInt8.ofNat (48 + k % 10)]
  else [built.1]

/-- `create_file`. Where a plain file exists the source tries the same name for ever. -/
def createFile (mode : ℕ) (d : Drive) (part : UInt8) (dir : UInt32) (name : Name) (type : FileType)
    (recordlen : ℕ) (new : NewEntry) : FResult × Drive :=
  let built := buildName mode name.val type
  match (candidates built).find? fun n => ((d.volume part).find dir n).isNone with
  | none => (.exist, d)
  | some n =>
    let r := (d.volume part).fOpenNew dir n new
    if r.1 ≠ .ok then (r.1, d)
    else
      (.ok, { d.setVolume part r.2 with
        files := d.files ++ [⟨part, dir, new.slot, header built.2 (copyString name.val) recordlen⟩] })

/-- `fat_file_close` of the `k`th new file. -/
def closeFile (d : Drive) (k : ℕ) (chain : List UInt32) : FResult × Drive :=
  match d.files[k]? with
  | none => (.ok, d)
  | some f =>
    let r := (d.volume f.part).fClose f.dir f.slot f.bytes chain
    (r.1, { d.setVolume f.part r.2 with files := d.files.eraseIdx k })

end Drive

/-- The volumes of a card. -/
structure Card where
  volume : UInt8 → Volume
  faithful : ∀ part, (volume part).Faithful

/-- What can be done with the files of the drive. Scratching and renaming work on an entry that
`fat_readdir` has just returned; the inputs of FatFs and the settings at that time go with each. -/
inductive Op
  | readdir (hideExt : Bool) (dh : Dh)
  | create (mode : ℕ) (part : UInt8) (dir : UInt32) (name : Name) (type : FileType) (recordlen : ℕ)
    (new : NewEntry)
  | write (k : ℕ) (bs : List UInt8)
  | close (k : ℕ) (chain : List UInt32)
  | delete (hideExt : Bool) (dh : Dh)
  | rename (hideExt : Bool) (mode : ℕ) (dh : Dh) (newname : Name) (new : NewEntry) (fresh : UInt32)
  | init (card : Card)

/-- What comes back: the entry that was read, the position behind it and the result of FatFs. -/
structure Reply where
  dent : Option FatDirent
  index : ℕ
  res : FResult

namespace Drive

section

variable (lookup : P00cache → UInt8 → UInt32 → Option (ℕ → UInt8)) (capacity : ℕ)

/-- `fat_readdir` on the drive. -/
def readdir (hideExt : Bool) (d : Drive) (dh : Dh) : Option FatDirent × ℕ × Drive :=
  let r := fatReaddir lookup capacity hideExt (d.volume dh.part) d.cache dh
  (r.1, r.2.1.index, { d with cache := r.2.2 })

/-- A command for the entry that `fat_readdir` returns, as `parse_scratch` and `parse_rename` give it. -/
def onEntry (hideExt : Bool) (d : Drive) (dh : Dh) (act : Drive → FatDirent → FResult × Drive) :
    Reply × Drive :=
  match d.readdir lookup capacity hideExt dh with
  | (none, i, d') => (⟨none, i, .noFile⟩, d')
  | (some dent, i, d') =>
    let r := act d' dent
    (⟨some dent, i, r.1⟩, r.2)

def step (d : Drive) : Op → Reply × Drive
  | .readdir hideExt dh =>
    let r := d.readdir lookup capacity hideExt dh
    (⟨r.1, r.2.1, .ok⟩, r.2.2)
  | .create mode part dir name type recordlen new =>
    let r := d.createFile mode part dir name type recordlen new
    (⟨none, 0, r.1⟩, r.2)
  | .write k bs => (⟨none, 0, .ok⟩, { d with files := d.files.modify k fun f => { f with bytes := f.bytes ++ bs } })
  | .close k chain =>
    let r := d.closeFile k chain
    (⟨none, 0, r.1⟩, r.2)
  | .delete hideExt dh =>
    d.onEntry lookup capacity hideExt dh fun d dent => d.fatDelete dh.part dh.dir dent
  | .rename hideExt mode dh newname new fresh =>
    d.onEntry lookup capacity hideExt dh fun d dent =>
      d.fatRename mode dh.part dh.dir dent newname new fresh
  | .init card => (⟨none, 0, .ok⟩, { d with volume := card.volume, cache := p00cacheInvalidate })

end

end Drive

end NoDiskEmu.Fat
