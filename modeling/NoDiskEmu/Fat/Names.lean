import NoDiskEmu.Fat.NameCache
import NoDiskEmu.Library.Walk

/-! The names of new files on a FAT file system: what `build_name` makes of the name that the host
gives, and the loop of `create_file` over such names. -/

namespace NoDiskEmu.Fat

open Library

/-- `sizeof(ops_scratch)`. -/
def SCRATCH_SIZE : ℕ := 33

/-- Neither a space nor a full stop. -/
def EdgeChar (c : UInt8) : Prop := c ≠ 32 ∧ c ≠ 46

instance (c : UInt8) : Decidable (EdgeChar c) := inferInstanceAs (Decidable (_ ∧ _))

/-- The rules for the names of files on FAT. -/
structure ValidName (name : List UInt8) : Prop where
  chars : ∀ c ∈ name, 32 ≤ c ∧ c ≤ 126 ∧ c ∉ [34, 42, 44, 47, 92, 58, 61, 63, 64]
  first : ∀ c ∈ name.head?, EdgeChar c
  last : ∀ c ∈ name.getLast?, EdgeChar c

/-- A valid name comes out, it has room in `ops_scratch`, and a name that is not valid gets the
extension of a PC64 file. -/
structure BuildsValid (mode : ℕ) (name : List UInt8) (type : UInt8) : Prop where
  valid : ValidName (buildNameOf mode name type).1
  fits : (buildNameOf mode name type).1.length + 1 ≤ SCRATCH_SIZE
  suffix : ¬ValidName (name.map pet2asc) → (buildNameOf mode name type).2 = true

theorem isValidFatChar_iff {c : UInt8} :
    isValidFatChar c = true ↔ 32 ≤ c ∧ c ≤ 126 ∧ c ∉ [34, 42, 44, 47, 92, 58, 61, 63, 64] := by
  simp [isValidFatChar, and_assoc]

theorem all_isValidFatChar_iff {name : List UInt8} : name.all isValidFatChar = true ↔
    ∀ c ∈ name, 32 ≤ c ∧ c ≤ 126 ∧ c ∉ [34, 42, 44, 47, 92, 58, 61, 63, 64] := by
  simp only [List.all_eq_true, isValidFatChar_iff]

/-- `is_valid_fat_name` looks at all characters, but only at the first one for a space or a stop. -/
theorem isValidFatName_iff {name : List UInt8} (hne : name ≠ []) :
    isValidFatName name = true ↔ (∀ c ∈ name.head?, EdgeChar c) ∧ name.all isValidFatChar = true := by
  obtain ⟨c, rest, rfl⟩ := List.exists_cons_of_ne_nil hne
  simp [isValidFatName, EdgeChar]

theorem validName_iff {name : List UInt8} (hne : name ≠ []) :
    ValidName name ↔ isValidFatName name = true ∧ ∀ c ∈ name.getLast?, EdgeChar c := by
  rw [isValidFatName_iff hne, all_isValidFatChar_iff]
  constructor
  · rintro ⟨hchars, hfirst, hlast⟩
    exact ⟨⟨hfirst, hchars⟩, hlast⟩
  · rintro ⟨⟨hfirst, hchars⟩, hlast⟩
    exact ⟨hchars, hfirst, hlast⟩

/-- The characters for a standard type, `TYPE_DEL` to `TYPE_DIR`. -/
theorem typeText_valid {type : UInt8} (htype : type ≤ 6) :
    ∃ a b c, (Dos.filetypes.drop (3 * type.toNat)).take 3 = [a, b, c] ∧
      isValidFatChar a = true ∧ isValidFatChar b = true ∧ isValidFatChar c = true ∧ EdgeChar c := by
  have hlt : type.toNat < 7 := Nat.lt_succ_of_le htype
  have hall : ∀ t < 7, ((Dos.filetypes.drop (3 * t)).take 3).length = 3 ∧
      ((Dos.filetypes.drop (3 * t)).take 3).all isValidFatChar = true ∧
        ∀ c ∈ ((Dos.filetypes.drop (3 * t)).take 3).getLast?, EdgeChar c := by
    decide +kernel
  obtain ⟨hlength, hchars, hlast⟩ := hall type.toNat hlt
  obtain ⟨a, b, c, htext⟩ := List.length_eq_three.mp hlength
  rw [htext] at hchars hlast
  simp only [List.all_cons, List.all_nil, Bool.and_true, Bool.and_eq_true] at hchars
  exact ⟨a, b, c, htext, hchars.1, hchars.2.1, hchars.2.2, hlast c rfl⟩

/-- The character that takes the place of `c` in the name of a PC64 file. -/
def fatChar (c : UInt8) : UInt8 := if isValidFatChar c then c else 95

theorem isValidFatChar_fatChar (c : UInt8) : isValidFatChar (fatChar c) = true := by
  rw [fatChar]
  split
  · assumption
  · decide

theorem edgeChar_fatChar {c : UInt8} : EdgeChar (fatChar c) ↔ EdgeChar c := by
  rw [fatChar]
  split
  · exact Iff.rfl
  · next h =>
    refine iff_of_true (by decide) ⟨?_, ?_⟩
    · rintro rfl
      exact h (by decide)
    · rintro rfl
      exact h (by decide)

/-- The name of a PC64 file is valid if it begins well. -/
theorem validName_x00 {name : List UInt8} (hne : name ≠ []) {a : UInt8} (ha : isValidFatChar a = true) :
    ValidName (name.map fatChar ++ [46, a, 48, 48]) ↔ ∀ c ∈ name.head?, EdgeChar c := by
  obtain ⟨d, rest, rfl⟩ := List.exists_cons_of_ne_nil hne
  rw [validName_iff (by simp), isValidFatName_iff (by simp), List.all_append]
  have hmap : ((d :: rest).map fatChar).all isValidFatChar = true := by
    simp [isValidFatChar_fatChar]
  have hend : [46, a, 48, 48].all isValidFatChar = true := by
    simp only [List.all_cons, List.all_nil, ha, Bool.and_true, Bool.true_and]
    decide
  have hlast : ∀ c ∈ ((d :: rest).map fatChar ++ [46, a, 48, 48]).getLast?, EdgeChar c := by
    simp only [List.getLast?_append, List.getLast?_cons_cons, List.getLast?_singleton, Option.some_or,
      Option.mem_def, Option.some.injEq]
    rintro c rfl
    decide
  rw [hmap, hend, Bool.and_self]
  constructor
  · rintro ⟨⟨hfirst, -⟩, -⟩ c hc
    rw [← Option.some.inj hc]
    exact edgeChar_fatChar.mp (hfirst (fatChar d) rfl)
  · intro hfirst
    refine ⟨⟨fun c hc => ?_, rfl⟩, hlast⟩
    rw [← Option.some.inj hc]
    exact edgeChar_fatChar.mpr (hfirst d rfl)

/-- A valid name with the extension for a type is valid. -/
theorem validName_type {name : List UInt8} (hne : name ≠ []) {a b c : UInt8} (ha : isValidFatChar a = true)
    (hb : isValidFatChar b = true) (hc : isValidFatChar c = true) (hedge : EdgeChar c) :
    ValidName (name ++ 46 :: [a, b, c]) ↔ isValidFatName name = true := by
  obtain ⟨d, rest, rfl⟩ := List.exists_cons_of_ne_nil hne
  rw [validName_iff (by simp), isValidFatName_iff (by simp), isValidFatName_iff (by simp), List.all_append]
  have hend : (46 :: [a, b, c]).all isValidFatChar = true := by
    simp only [List.all_cons, List.all_nil, ha, hb, hc, Bool.and_true]
    decide
  have hlast : ∀ x ∈ ((d :: rest) ++ 46 :: [a, b, c]).getLast?, EdgeChar x := by
    simp only [List.getLast?_append, List.getLast?_cons_cons, List.getLast?_singleton, Option.some_or,
      Option.mem_def, Option.some.injEq]
    rintro x rfl
    exact hedge
  simp only [hend, Bool.and_true, List.cons_append, List.head?_cons]
  exact and_iff_left hlast

/-- The name begins well, it ends well unless a PC64 extension follows, and the name of a disk image
has valid characters only. -/
structure Suits (mode : ℕ) (name : List UInt8) (type : UInt8) : Prop where
  first : ∀ c ∈ (name.map pet2asc).head?, EdgeChar c
  last : (∀ c ∈ (name.map pet2asc).getLast?, EdgeChar c) ∨
    ¬(type = 2 ∧ checkImageext (name.map pet2asc) = true) ∧
      (mode = 1 ∧ type ≠ 2 ∨ mode = 2 ∨ (name.map pet2asc).all isValidFatChar = false)
  image : type = 2 ∧ checkImageext (name.map pet2asc) = true → (name.map pet2asc).all isValidFatChar = true

theorem buildNameOf_image {mode : ℕ} {name : List UInt8} {type : UInt8}
    (h : type = 2 ∧ checkImageext (name.map pet2asc) = true) :
    buildNameOf mode name type = (name.map pet2asc, false) := if_pos h

theorem buildNameOf_x00 {mode : ℕ} {name : List UInt8} {type : UInt8}
    (h : ¬(type = 2 ∧ checkImageext (name.map pet2asc) = true))
    (hx00 : mode = 1 ∧ type ≠ 2 ∨ mode = 2 ∨ isValidFatName (name.map pet2asc) = false) {a b c : UInt8}
    (htext : (Dos.filetypes.drop (3 * type.toNat)).take 3 = [a, b, c]) :
    buildNameOf mode name type = ((name.map pet2asc).map fatChar ++ [46, a, 48, 48], true) := by
  rw [buildNameOf, if_neg h, if_pos (by simpa using hx00), htext]
  rfl

theorem buildNameOf_plain {mode : ℕ} {name : List UInt8} {type : UInt8}
    (h : ¬(type = 2 ∧ checkImageext (name.map pet2asc) = true))
    (hx00 : ¬(mode = 1 ∧ type ≠ 2 ∨ mode = 2 ∨ isValidFatName (name.map pet2asc) = false)) {a b c : UInt8}
    (htext : (Dos.filetypes.drop (3 * type.toNat)).take 3 = [a, b, c]) :
    buildNameOf mode name type = (name.map pet2asc ++ 46 :: [a, b, c], false) ∨
      buildNameOf mode name type = (name.map pet2asc, false) := by
  rw [buildNameOf, if_neg h, if_neg (by simpa using hx00), htext]
  split
  · exact .inl rfl
  · exact .inr rfl

/-- `build_name` makes a valid name of every name of 1 to 16 characters, and a PC64 one where there is
need, exactly if the name suits. -/
theorem buildName_valid_iff (mode : ℕ) (name : Name) (hne : name.val ≠ []) {type : UInt8} (htype : type ≤ 6) :
    BuildsValid mode name.val type ↔ Suits mode name.val type := by
  have hlen : name.val.length ≤ 16 := name.property.1
  generalize name.val = name at hlen hne ⊢
  obtain ⟨a, b, c, htext, ha, hb, hc, hedge⟩ := typeText_valid htype
  have hn : name.map pet2asc ≠ [] := by simpa using hne
  have hroom : (name.map pet2asc).length ≤ 16 := by
    rw [List.length_map]
    exact hlen
  have hshort : (name.map pet2asc).length + 1 ≤ SCRATCH_SIZE := by
    rw [SCRATCH_SIZE]
    omega
  have hvalid := validName_iff hn
  have hfirst := isValidFatName_iff hn
  have hbuild : ∀ {r}, buildNameOf mode name type = r → r.1.length + 1 ≤ SCRATCH_SIZE →
      (BuildsValid mode name type ↔ ValidName r.1 ∧ (ValidName (name.map pet2asc) ∨ r.2 = true)) := by
    rintro r rfl hfits
    rw [or_iff_not_imp_left]
    exact ⟨fun h => ⟨h.valid, h.suffix⟩, fun h => ⟨h.1, hfits, h.2⟩⟩
  by_cases himage : type = 2 ∧ checkImageext (name.map pet2asc) = true
  · rw [hbuild (buildNameOf_image himage) hshort]
    rw [or_iff_left Bool.false_ne_true, and_self, hvalid, hfirst]
    constructor
    · rintro ⟨⟨hstart, hall⟩, hend⟩
      exact ⟨hstart, .inl hend, fun _ => hall⟩
    · intro h
      exact ⟨⟨h.first, h.image himage⟩, h.last.resolve_right fun hx00 => hx00.1 himage⟩
  by_cases hx00 : mode = 1 ∧ type ≠ 2 ∨ mode = 2 ∨ isValidFatName (name.map pet2asc) = false
  · have hfits : ((name.map pet2asc).map fatChar ++ [46, a, 48, 48]).length + 1 ≤ SCRATCH_SIZE := by
      rw [List.length_append, List.length_map, SCRATCH_SIZE]
      exact Nat.succ_le_succ (Nat.add_le_add_right hroom 4) |>.trans (by decide)
    rw [hbuild (buildNameOf_x00 himage hx00 htext) hfits, validName_x00 hn ha]
    constructor
    · rintro ⟨hstart, -⟩
      refine ⟨hstart, .inr ⟨himage, ?_⟩, fun h => absurd h himage⟩
      rcases hx00 with hmode | hmode | hname
      · exact .inl hmode
      · exact .inr (.inl hmode)
      · -- it begins well, so that a character is not valid
        refine .inr (.inr (Bool.eq_false_iff.mpr fun hall => ?_))
        rw [hfirst.mpr ⟨hstart, hall⟩] at hname
        cases hname
    · exact fun h => ⟨h.first, .inr rfl⟩
  · have hname : isValidFatName (name.map pet2asc) = true := by
      by_contra h
      exact hx00 (.inr (.inr (Bool.not_eq_true _ ▸ h)))
    obtain ⟨hstart, hall⟩ := hfirst.mp hname
    have hsuits : Suits mode name type ↔ ∀ c ∈ (name.map pet2asc).getLast?, EdgeChar c := by
      constructor
      · intro h
        refine h.last.resolve_right fun hright => ?_
        rcases hright.2 with hmode | hmode | hbad
        · exact hx00 (.inl hmode)
        · exact hx00 (.inr (.inl hmode))
        · rw [hall] at hbad
          cases hbad
      · exact fun hend => ⟨hstart, .inl hend, fun h => absurd h himage⟩
    have hmine : ValidName (name.map pet2asc) ↔ ∀ c ∈ (name.map pet2asc).getLast?, EdgeChar c := by
      rw [hvalid]
      exact and_iff_right hname
    rcases buildNameOf_plain himage hx00 htext with hplain | hplain
    · have hfits : (name.map pet2asc ++ 46 :: [a, b, c]).length + 1 ≤ SCRATCH_SIZE := by
        rw [List.length_append, SCRATCH_SIZE]
        exact Nat.succ_le_succ (Nat.add_le_add_right hroom 4) |>.trans (by decide)
      rw [hbuild hplain hfits, validName_type hn ha hb hc hedge, or_iff_left Bool.false_ne_true, hmine, hsuits]
      exact and_iff_right hname
    · rw [hbuild hplain hshort, or_iff_left Bool.false_ne_true, and_self, hmine, hsuits]

/-- A name with a space at its end is taken as it is. -/
theorem buildName_not_valid : ¬BuildsValid 0 [65, 32] 2 := by
  intro h
  exact absurd (h.valid.last 32 rfl) (by decide)

/-- The file `A/B` of type SEQ is called `a_b.S00` on FAT. -/
theorem buildName_valid_x00 : buildNameOf 1 [65, 47, 66] 1 = ([97, 95, 98, 46, 83, 48, 48], true) ∧
    BuildsValid 1 [65, 47, 66] 1 := by
  refine ⟨by decide, (buildName_valid_iff 1 ⟨[65, 47, 66], by decide⟩ (List.cons_ne_nil _ _) (by decide)).mpr
    ⟨?_, .inr ⟨fun h => absurd h.1 (by decide), .inl ⟨rfl, by decide⟩⟩, fun h => absurd h.1 (by decide)⟩⟩
  rintro _ ⟨⟩
  decide

/-! ### The loop of `create_file` -/

/-- The two digits of the extension count up; nothing comes after `99`. -/
def nextDigits (t u : UInt8) : Option (UInt8 × UInt8) :=
  if u + 1 = 58 then if t + 1 = 58 then none else some (t + 1, 48) else some (t, u + 1)

/-- The name after one that exists, with `x00ext` at its last character. -/
def nextName (name : List UInt8) : Option (List UInt8) :=
  (nextDigits (name.getD (name.length - 2) 0) (name.getD (name.length - 1) 0)).map
    fun d => name.take (name.length - 2) ++ [d.1, d.2]

section

variable (v : Volume) (dir : UInt32) (new : List UInt8 → NewEntry)

/-- A round of the loop, with the name in `ops_scratch`. -/
def openRound (x00 : Bool) (name : List UInt8) : FResult × List UInt8 ⊕ List UInt8 :=
  let res := (v.fOpenNew dir name (new name)).1
  if res = .exist then
    if x00 then
      match nextName name with
      | none => .inl (res, name)
      | some name => .inr name
    else .inr name
  else .inl (res, name)

/-- The loop of `create_file`, with at most `fuel` calls of `f_open`: the last result of `f_open` and
the name that it was for. -/
def createLoop (fuel : ℕ) (built : List UInt8 × Bool) : Option (FResult × List UInt8) :=
  Walk.loop (openRound v dir new built.2) fuel built.1

/-- The loop ends, and it does so with `FR_EXIST` if no name is free. -/
def CreateEnds (built : List UInt8 × Bool) : Prop :=
  ∃ fuel r, createLoop v dir new fuel built = some r ∧
    ((∀ n ∈ Drive.candidates built, (v.find dir n).isSome = true) → r.1 = .exist)

end

variable {v : Volume} {dir : UInt32} {new : List UInt8 → NewEntry}

theorem fOpenNew_exist_iff (name : List UInt8) (entry : NewEntry) :
    (v.fOpenNew dir name entry).1 = .exist ↔ (v.find dir name).isSome = true := by
  rw [Volume.fOpenNew]
  split
  · next h => exact iff_of_true rfl h
  · next h =>
    refine iff_of_false ?_ h
    split
    all_goals
      intro hres
      cases hres

/-- The `k`th name of a PC64 file. -/
def x00Name (base : List UInt8) (k : ℕ) : List UInt8 :=
  base ++ [UInt8.ofNat (48 + k / 10), UInt8.ofNat (48 + k % 10)]

theorem nextDigits_eq {k : ℕ} (hk : k < 100) :
    nextDigits (UInt8.ofNat (48 + k / 10)) (UInt8.ofNat (48 + k % 10)) =
      if k = 99 then none
      else some (UInt8.ofNat (48 + (k + 1) / 10), UInt8.ofNat (48 + (k + 1) % 10)) := by
  have hall : ∀ k < 100, nextDigits (UInt8.ofNat (48 + k / 10)) (UInt8.ofNat (48 + k % 10)) =
      if k = 99 then none
      else some (UInt8.ofNat (48 + (k + 1) / 10), UInt8.ofNat (48 + (k + 1) % 10)) := by
    decide +kernel
  exact hall k hk

theorem nextName_x00Name (base : List UInt8) {k : ℕ} (hk : k < 100) :
    nextName (x00Name base k) = if k = 99 then none else some (x00Name base (k + 1)) := by
  have hlen : (x00Name base k).length = base.length + 2 := by simp [x00Name]
  have htens : (x00Name base k).getD base.length 0 = UInt8.ofNat (48 + k / 10) := by simp [x00Name]
  have hones : (x00Name base k).getD (base.length + 1) 0 = UInt8.ofNat (48 + k % 10) := by simp [x00Name]
  have htake : (x00Name base k).take base.length = base := by simp [x00Name]
  rw [nextName, hlen, Nat.add_sub_cancel, show base.length + 2 - 1 = base.length + 1 by omega, htens, hones,
    htake, nextDigits_eq hk]
  split
  · rfl
  · rfl

theorem candidates_x00 (base : List UInt8) :
    Drive.candidates (x00Name base 0, true) = (List.range 100).map (x00Name base) := by
  have htake : (x00Name base 0).take ((x00Name base 0).length - 2) = base := by simp [x00Name]
  rw [Drive.candidates, if_pos rfl]
  dsimp only
  rw [htake]
  rfl

theorem openRound_free {x00 : Bool} {name : List UInt8} (h : v.find dir name = none) :
    openRound v dir new x00 name = .inl ((v.fOpenNew dir name (new name)).1, name) := by
  refine if_neg fun hexist => ?_
  rw [fOpenNew_exist_iff, h] at hexist
  cases hexist

theorem openRound_taken {name : List UInt8} (h : (v.find dir name).isSome = true) :
    openRound v dir new true name = match nextName name with
      | none => .inl (.exist, name)
      | some name => .inr name := by
  have hexist := (fOpenNew_exist_iff name (new name)).mpr h
  rw [openRound, if_pos hexist, if_pos rfl, hexist]

/-- A name that is free ends the loop. -/
theorem loop_free {x00 : Bool} {name : List UInt8} (h : v.find dir name = none) :
    Walk.loop (openRound v dir new x00) 1 name = some ((v.fOpenNew dir name (new name)).1, name) := by
  rw [Walk.loop, openRound_free h]

/-- The names from `.x00` to `.x99` are tried one after the other. -/
theorem createLoop_x00 (v : Volume) (dir : UInt32) (new : List UInt8 → NewEntry) (base : List UInt8) (m : ℕ) :
    ∀ k, k + m = 99 → ∃ fuel r, Walk.loop (openRound v dir new true) fuel (x00Name base k) = some r ∧
      ((∀ j < 100, k ≤ j → (v.find dir (x00Name base j)).isSome = true) → r.1 = .exist) := by
  induction m with
  | zero =>
    intro k hk
    cases hfind : v.find dir (x00Name base k) with
    | none =>
      refine ⟨1, _, loop_free hfind, fun hall => ?_⟩
      have htaken := hall k (by omega) le_rfl
      rw [hfind] at htaken
      cases htaken
    | some f =>
      refine ⟨1, (.exist, x00Name base k), ?_, fun _ => rfl⟩
      rw [Walk.loop, openRound_taken (by rw [hfind]; rfl), nextName_x00Name base (by omega), if_pos (by omega)]
  | succ m ih =>
    intro k hk
    cases hfind : v.find dir (x00Name base k) with
    | none =>
      refine ⟨1, _, loop_free hfind, fun hall => ?_⟩
      have htaken := hall k (by omega) le_rfl
      rw [hfind] at htaken
      cases htaken
    | some f =>
      obtain ⟨fuel, r, hloop, hres⟩ := ih (k + 1) (by omega)
      refine ⟨fuel + 1, r, ?_, fun hall => hres fun j hj hkj => hall j hj (by omega)⟩
      rw [Walk.loop, openRound_taken (by rw [hfind]; rfl), nextName_x00Name base (by omega),
        if_neg (by omega)]
      exact hloop

/-- A name that `build_name` gives an extension ends in `00`. -/
theorem buildNameOf_digits {mode : ℕ} {name : List UInt8} {type : UInt8}
    (h : (buildNameOf mode name type).2 = true) :
    ∃ base, buildNameOf mode name type = (x00Name base 0, true) := by
  rw [buildNameOf] at h ⊢
  split at h
  · cases h
  next himage =>
  split at h
  · next hx00 =>
    rw [if_neg himage, if_pos hx00]
    refine ⟨(name.map pet2asc).map (fun c => if isValidFatChar c then c else 95) ++
      [46, ((Dos.filetypes.drop (3 * type.toNat)).take 3).headD 0], ?_⟩
    rw [x00Name, List.append_assoc]
    rfl
  · split at h
    all_goals cases h

/-- A plain name that exists is tried again and again. -/
theorem not_createEnds {built : List UInt8 × Bool} (hplain : built.2 = false)
    (htaken : (v.find dir built.1).isSome = true) : ¬CreateEnds v dir new built := by
  rintro ⟨fuel, r, hloop, -⟩
  have hround : openRound v dir new false built.1 = .inr built.1 := by
    have hexist := (fOpenNew_exist_iff built.1 (new built.1)).mpr htaken
    rw [openRound, if_pos hexist, if_neg Bool.false_ne_true]
  rw [createLoop, hplain] at hloop
  induction fuel with
  | zero => cases hloop
  | succ fuel ih =>
    rw [Walk.loop, hround] at hloop
    exact ih hloop

/-- `create_file` comes to an end exactly if the file gets a PC64 extension or its name is free. -/
theorem createFile_ends_iff (v : Volume) (dir : UInt32) (new : List UInt8 → NewEntry) (mode : ℕ)
    (name : Name) (type : UInt8) :
    CreateEnds v dir new (buildNameOf mode name.val type) ↔
      (buildNameOf mode name.val type).2 = true ∨
        v.find dir (buildNameOf mode name.val type).1 = none := by
  constructor
  · intro h
    by_contra hnot
    rw [not_or, Bool.not_eq_true] at hnot
    exact not_createEnds hnot.1 (Option.isSome_iff_ne_none.mpr hnot.2) h
  · intro hends
    by_cases hx00 : (buildNameOf mode name.val type).2 = true
    · obtain ⟨base, hbase⟩ := buildNameOf_digits hx00
      obtain ⟨fuel, r, hloop, hres⟩ := createLoop_x00 v dir new base 99 0 rfl
      rw [hbase, CreateEnds, candidates_x00]
      refine ⟨fuel, r, hloop, fun hall => hres fun j hj _ => ?_⟩
      exact hall _ (List.mem_map_of_mem (List.mem_range.mpr hj))
    · have hfree := hends.resolve_left hx00
      refine ⟨1, _, loop_free hfree, fun hall => ?_⟩
      have htaken := hall (buildNameOf mode name.val type).1 (by simp [Drive.candidates, hx00])
      rw [hfree] at htaken
      cases htaken

/-- The file `A.P00` of the card is listed as `HELLO`: a plain file `A.P00` cannot be created, and the
attempt does not end. -/
theorem createFile_not_ends :
    ¬CreateEnds helloVolume 0 (fun _ => ⟨1, false, [], 0, 0⟩) (buildNameOf 0 [65, 46, 80, 48, 48] 2) :=
  not_createEnds (by decide) (by decide)

end NoDiskEmu.Fat
