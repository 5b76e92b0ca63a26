import NoDiskEmu.Fat.NameCache

/-! The names under which `fat_readdir` lists the entries of a directory. -/

namespace NoDiskEmu.Fat

open Library

/-- The extensions `.PRG`, `.SEQ`, `.USR` and `.REL`. -/
def typeExtensions : List (List UInt8) := [[46, 80, 82, 71], [46, 83, 69, 81], [46, 85, 83, 82], [46, 82, 69, 76]]

/-- A name with an extension that stands for a type, in letters of either case. -/
def hasTypeExtension (name : List UInt8) : Bool :=
  typeExtensions.contains ((name.drop (name.length - 4)).map toupper)

/-- An 8.3 name. -/
structure ShortName (name : List UInt8) : Prop where
  length : name.length ≤ 12
  ext : ∀ e, Dxx.lastDot name = some e → e.length ≤ 4
  upper : ∀ c ∈ name, c ≠ 0 ∧ toupper c = c

namespace Filinfo

/-- What `f_readdir` finds: an 8.3 name, and a long name that is a string, or none. -/
structure Named (f : Filinfo) : Prop where
  short : ShortName f.fname
  long : 0 ∉ f.lfn

/-- A name of the file without an extension that is hidden. -/
def bare (hideExt : Bool) (f : Filinfo) (name : List UInt8) : List UInt8 :=
  if hideExt && !f.isDir && hasTypeExtension name then name.take (name.length - 4) else name

/-- The name of an entry of its own: the long name if it has at most 16 characters, else the 8.3 name,
without an extension that is hidden. -/
def ownName (hideExt : Bool) (f : Filinfo) : List UInt8 :=
  if f.lfn ≠ [] ∧ (f.bare hideExt f.lfn).length ≤ CBM_NAME_LENGTH then
    (f.bare hideExt f.lfn).map asc2pet
  else f.bare hideExt f.fname

/-- A name in the directory listing; the tilde is a character of its own in PETSCII. -/
def display (name : List UInt8) : ℕ → UInt8 := copyString (name.map fun c => if c = 126 then 255 else c)

/-- What the file on the volume tells about the name inside of it. -/
def internal (f : Filinfo) (v : Volume) : Internal := if f.isX00 then v.readName f.clust else .unread

/-- The name under which an entry ought to be listed: the one in its header, or its own. -/
def listedName (hideExt : Bool) (f : Filinfo) (v : Volume) : ℕ → UInt8 :=
  match f.internal v with
  | .name name => copyName name
  | _ => display (f.ownName hideExt)

end Filinfo

/-- The entry is listed under the right name, in at most 16 characters. -/
structure Listed (hideExt : Bool) (f : Filinfo) (v : Volume) (dent : FatDirent) : Prop where
  name : dent.name = f.listedName hideExt v
  short : ∀ i, CBM_NAME_LENGTH ≤ i → dent.name i = 0

/-- `fat_readdir` cuts off what it should when extensions are hidden: the long name, if it is short enough
to be used and has four characters, has the extension of a type exactly if the 8.3 name has one. -/
def Filinfo.CutsWell (hideExt : Bool) (f : Filinfo) : Prop :=
  hideExt = true → f.isDir = false → f.lfn = [] ∨ CBM_NAME_LENGTH + 4 < f.lfn.length ∨ f.lfn.length < 4 ∨
    hasTypeExtension f.lfn = hasTypeExtension f.fname

/-- The file can be listed well. The name in a header ends within its 17 bytes or is in the cache. A
file with the extension of a PC64 file but without a header has no long name of up to 20 characters,
or what it begins with is its own name by chance: the string in its first 26 bytes is that name, or
is too long while the own name is the 8.3 one. Any other file is cut well. -/
def ListsWell (hideExt : Bool) (f : Filinfo) (v : Volume) (cache : P00cache) (part : UInt8) : Prop :=
  match f.internal v with
  | .name _ => (p00cacheLookup cache part f.clust).isSome = true ∨
      ∃ j ≤ CBM_NAME_LENGTH, v.data f.clust (P00_CBMNAME_OFFSET + j) = 0
  | .unread => f.CutsWell hideExt
  | .other scratch => f.lfn = [] ∨ CBM_NAME_LENGTH + 4 < f.lfn.length ∨
      let start := cString P00_HEADER_SIZE scratch
      Filinfo.display (if start.length ≤ CBM_NAME_LENGTH then start else f.fname) =
        Filinfo.display (f.ownName hideExt)

variable {f : Filinfo} {hideExt : Bool}

theorem Filinfo.usesLfn_iff : f.usesLfn = true ↔ f.lfn ≠ [] ∧ f.lfn.length ≤ 20 := by
  rw [usesLfn, Bool.and_eq_true, decide_eq_true_iff, decide_eq_true_iff, CBM_NAME_LENGTH]

theorem Filinfo.nameptr_long (h : f.lfn ≠ [] ∧ f.lfn.length ≤ 20) : f.nameptr = f.lfn.map asc2pet :=
  if_pos (usesLfn_iff.mpr h)

theorem Filinfo.nameptr_short (h : ¬(f.lfn ≠ [] ∧ f.lfn.length ≤ 20)) : f.nameptr = f.fname :=
  if_neg (mt usesLfn_iff.mp h)

section Extension

variable {name ext : List UInt8}

theorem lastDot_append (pre : List UInt8) (hrest : ∀ c ∈ ext, c ≠ 46) :
    Dxx.lastDot (pre ++ 46 :: ext) = some (46 :: ext) := by
  have hnone : Dxx.lastDot ext = none := by
    clear pre
    induction ext with
    | nil => rfl
    | cons c ext ih =>
      rw [Dxx.lastDot, ih fun c hc => hrest c (List.mem_cons_of_mem _ hc), if_neg (hrest c List.mem_cons_self)]
      rfl
  induction pre with
  | nil =>
    rw [List.nil_append, Dxx.lastDot, hnone, if_pos rfl]
    rfl
  | cons c pre ih =>
    rw [List.cons_append, Dxx.lastDot, ih]
    rfl

theorem lastDot_eq_some (h : Dxx.lastDot name = some ext) :
    (∃ pre, name = pre ++ ext) ∧ ∃ rest, ext = 46 :: rest := by
  induction name with
  | nil => cases h
  | cons c name ih =>
    rw [Dxx.lastDot] at h
    cases hrest : Dxx.lastDot name with
    | some e =>
      rw [hrest, Option.some_or, Option.some_inj] at h
      obtain ⟨⟨pre, hpre⟩, hhead⟩ := ih (h ▸ hrest)
      exact ⟨⟨c :: pre, by rw [hpre, List.cons_append]⟩, hhead⟩
    | none =>
      rw [hrest, Option.none_or] at h
      split at h
      · next hdot =>
        rw [Option.some_inj] at h
        exact ⟨⟨[], h.symm ▸ rfl⟩, name, hdot ▸ h.symm⟩
      · cases h

/-- A name with an extension of three characters ends with it. -/
theorem drop_ext (pre : List UInt8) (hext : ext.length = 4) :
    (pre ++ ext).drop ((pre ++ ext).length - 4) = ext := by
  rw [List.length_append, hext, Nat.add_sub_cancel, List.drop_left]

theorem length_of_hasTypeExtension (h : hasTypeExtension name = true) : 4 ≤ name.length := by
  by_contra hlt
  have hdrop : name.drop (name.length - 4) = name := by
    rw [show name.length - 4 = 0 by omega, List.drop_zero]
  rw [hasTypeExtension, hdrop, List.contains_iff_mem] at h
  have hlen : ∀ e ∈ typeExtensions, e.length = 4 := by decide
  have hfour := hlen _ h
  rw [List.length_map] at hfour
  omega

/-- `check_extension` knows the extensions of types in 8.3 names. -/
theorem ShortName.hasTypeExtension_iff (h : ShortName name) :
    hasTypeExtension name = true ↔ ∃ typechar, checkExtension name = .isType typechar := by
  constructor
  · intro htype
    have hfour := length_of_hasTypeExtension htype
    have hupper : (name.drop (name.length - 4)).map toupper = name.drop (name.length - 4) :=
      (List.map_congr_left fun c hc => (h.upper c (List.mem_of_mem_drop hc)).2).trans (List.map_id _)
    rw [hasTypeExtension, hupper, List.contains_iff_mem] at htype
    have hsplit := (List.take_append_drop (name.length - 4) name).symm
    generalize name.drop (name.length - 4) = ext at htype hsplit
    have hcases : ∀ ext ∈ typeExtensions, ∃ rest, ext = 46 :: rest ∧ (∀ c ∈ rest, c ≠ 46) ∧
        ∀ pre, Dxx.lastDot (pre ++ ext) = some ext → ∃ typechar, checkExtension (pre ++ ext) = .isType typechar := by
      intro ext hext
      simp only [typeExtensions, List.mem_cons, List.not_mem_nil, or_false] at hext
      obtain rfl | rfl | rfl | rfl := hext <;>
        exact ⟨_, rfl, by simp, fun pre hdot => ⟨_, by rw [checkExtension, hdot]; rfl⟩⟩
    obtain ⟨rest, rfl, hdots, hcheck⟩ := hcases ext htype
    rw [hsplit]
    exact hcheck _ (lastDot_append _ hdots)
  · rintro ⟨typechar, hcheck⟩
    rw [checkExtension] at hcheck
    cases hdot : Dxx.lastDot name with
    | none =>
      rw [hdot] at hcheck
      cases hcheck
    | some ext =>
      rw [hdot] at hcheck
      dsimp only at hcheck
      obtain ⟨⟨pre, rfl⟩, rest, rfl⟩ := lastDot_eq_some hdot
      have hle := h.ext _ hdot
      have hupper : (46 :: rest).map toupper = 46 :: rest :=
        (List.map_congr_left fun c hc => (h.upper c (List.mem_append_right _ hc)).2).trans (List.map_id _)
      split at hcheck
      · cases hcheck
      split at hcheck
      · next htype =>
        have hext : (46 :: rest : List UInt8) ∈ typeExtensions := by
          obtain _ | ⟨f, _ | ⟨s, _ | ⟨t, _ | ⟨u, rest⟩⟩⟩⟩ := rest
          · simp at htype
          · simp at htype
          · simp at htype
          · simp only [List.getD_cons_succ, List.getD_cons_zero, Bool.or_eq_true, Bool.and_eq_true,
              decide_eq_true_eq] at htype
            obtain ((⟨⟨rfl, rfl⟩, rfl⟩ | ⟨⟨rfl, rfl⟩, rfl⟩) | ⟨⟨rfl, rfl⟩, rfl⟩) |
              ⟨⟨rfl, rfl⟩, rfl⟩ := htype <;> decide
          · simp at hle
            omega
        have hlen : ∀ e ∈ typeExtensions, e.length = 4 := by decide
        rw [hasTypeExtension, drop_ext pre (hlen _ hext), hupper, List.contains_iff_mem]
        exact hext
      · cases hcheck

end Extension

section Display

variable {name name' : List UInt8}

theorem Filinfo.display_zero_iff (h : 0 ∉ name) (i : ℕ) : display name i = 0 ↔ name.length ≤ i := by
  rw [display, copyString]
  by_cases hi : i < name.length
  · have hmem : name[i] ∈ name := List.getElem_mem hi
    rw [List.getD_eq_getElem _ _ (by rwa [List.length_map]), List.getElem_map]
    refine iff_of_false (fun hzero => ?_) (by omega)
    split at hzero
    · exact absurd hzero (by decide)
    · exact h (hzero ▸ hmem)
  · rw [List.getD_eq_default _ _ (by rw [List.length_map]; omega)]
    exact iff_of_true rfl (by omega)

/-- Names that are shown alike have the same length. -/
theorem Filinfo.length_of_display (h : 0 ∉ name) (h' : 0 ∉ name') (heq : display name = display name') :
    name.length = name'.length := by
  have hle := (display_zero_iff h' name.length).mp (heq ▸ (display_zero_iff h name.length).mpr le_rfl)
  have hge := (display_zero_iff h name'.length).mp (heq ▸ (display_zero_iff h' name'.length).mpr le_rfl)
  omega

theorem asc2pet_ne_zero : ∀ c : UInt8, c ≠ 0 → asc2pet c ≠ 0 := by
  intro c hc
  rw [asc2pet]
  split_ifs <;> grind

theorem zero_notMem_asc2pet (h : 0 ∉ name) : 0 ∉ name.map asc2pet := by
  intro hmem
  obtain ⟨c, hc, hzero⟩ := List.mem_map.mp hmem
  exact asc2pet_ne_zero c (fun heq => h (heq ▸ hc)) hzero

end Display

namespace Filinfo

/-- `nameptr` without what `fat_readdir` cuts off. -/
def cutName (hideExt : Bool) (f : Filinfo) : List UInt8 :=
  if hideExt && !f.isDir && hasTypeExtension f.fname then f.nameptr.take ((f.nameptr.length + 252) % 256) else f.nameptr

theorem bare_off (hoff : (hideExt && !f.isDir) = false) (name : List UInt8) : f.bare hideExt name = name := by
  rw [bare, hoff, Bool.false_and, if_neg Bool.false_ne_true]

theorem bare_on (hon : (hideExt && !f.isDir) = true) (name : List UInt8) :
    f.bare hideExt name = if hasTypeExtension name = true then name.take (name.length - 4) else name := by
  rw [bare, hon, Bool.true_and]

/-- The name that is too long gives way to the 8.3 name. -/
theorem plainName_eq (name : List UInt8) :
    f.plainName name = display (if name.length > CBM_NAME_LENGTH then f.fname else name) := rfl

theorem length_bare_ge (name : List UInt8) : name.length ≤ (f.bare hideExt name).length + 4 := by
  rw [bare]
  split
  · rw [List.length_take]
    omega
  · omega

theorem length_bare_le (name : List UInt8) : (f.bare hideExt name).length ≤ name.length := by
  rw [bare]
  split
  · exact List.length_take_le' _ _
  · exact le_rfl

/-- Without a long name that is short enough the 8.3 name is shown. -/
theorem ownName_short (h : ¬(f.lfn ≠ [] ∧ f.lfn.length ≤ 20)) : f.ownName hideExt = f.bare hideExt f.fname := by
  have hge : f.lfn.length ≤ (f.bare hideExt f.lfn).length + 4 := f.length_bare_ge f.lfn
  refine if_neg fun hand => h ⟨hand.1, ?_⟩
  have hle := hand.2
  rw [CBM_NAME_LENGTH] at hle
  omega

/-- What is shown of an entry without a header. -/
theorem plainName_cut_iff (hn : f.Named) :
    f.plainName (f.cutName hideExt) = display (f.ownName hideExt) ↔ f.CutsWell hideExt := by
  have hshort := hn.short.length
  have hzero : 0 ∉ f.fname := fun hmem => (hn.short.upper 0 hmem).1 rfl
  cases hon : hideExt && !f.isDir with
  | false =>
    have hwell : f.CutsWell hideExt := by
      intro hhide hdir
      rw [hhide, hdir] at hon
      cases hon
    rw [plainName_eq, cutName, hon, Bool.false_and, if_neg Bool.false_ne_true]
    refine iff_of_true (congrArg display ?_) hwell
    by_cases hlfn : f.lfn ≠ [] ∧ f.lfn.length ≤ 20
    · rw [nameptr_long hlfn, List.length_map, ownName, bare_off hon, bare_off hon, CBM_NAME_LENGTH]
      by_cases hlong : f.lfn.length ≤ 16
      · rw [if_neg (by omega), if_pos ⟨hlfn.1, hlong⟩]
      · rw [if_pos (by omega), if_neg fun h => hlong h.2]
    · rw [nameptr_short hlfn, ite_self, ownName_short hlfn, bare_off hon]
  | true =>
    have hhide : hideExt = true ∧ f.isDir = false := by simpa using hon
    have hwell : f.CutsWell hideExt ↔ f.lfn = [] ∨ CBM_NAME_LENGTH + 4 < f.lfn.length ∨ f.lfn.length < 4 ∨
        hasTypeExtension f.lfn = hasTypeExtension f.fname :=
      ⟨fun h => h hhide.1 hhide.2, fun h _ _ => h⟩
    rw [plainName_eq, cutName, hon, Bool.true_and, hwell, CBM_NAME_LENGTH]
    by_cases hlfn : f.lfn ≠ [] ∧ f.lfn.length ≤ 20
    · have hlen := hlfn.2
      have hlong : 0 ∉ f.lfn.map asc2pet := zero_notMem_asc2pet hn.long
      have hcut : ∀ k, 0 ∉ (f.lfn.take k).map asc2pet := fun k =>
        zero_notMem_asc2pet fun hmem => hn.long (List.mem_of_mem_take hmem)
      have hown : f.ownName hideExt = if (f.bare hideExt f.lfn).length ≤ 16 then (f.bare hideExt f.lfn).map asc2pet
          else f.bare hideExt f.fname := by
        rw [ownName, CBM_NAME_LENGTH]
        exact if_congr (and_iff_right hlfn.1) rfl rfl
      rw [nameptr_long hlfn, List.length_map, ← List.map_take, hown, or_iff_right hlfn.1,
        or_iff_right (show ¬16 + 4 < f.lfn.length by omega)]
      have hfour := @length_of_hasTypeExtension f.lfn
      cases hfname : hasTypeExtension f.fname with
      | false =>
        have hbare : f.bare hideExt f.fname = f.fname := by
          rw [bare_on hon, hfname, if_neg Bool.false_ne_true]
        rw [if_neg Bool.false_ne_true, List.length_map, hbare]
        cases hext : hasTypeExtension f.lfn with
        | false =>
          rw [bare_on hon, hext, if_neg Bool.false_ne_true]
          refine iff_of_true (congrArg display ?_) (.inr rfl)
          by_cases hle : f.lfn.length ≤ 16
          · rw [if_neg (by omega), if_pos hle]
          · rw [if_pos (by omega), if_neg hle]
        | true =>
          -- the long name keeps an extension that should be hidden
          have hlow := hfour hext
          have hcutle : min (f.lfn.length - 4) f.lfn.length ≤ 16 := by omega
          rw [bare_on hon, hext, if_pos rfl, List.length_take, if_pos hcutle]
          refine iff_of_false (fun heq => ?_) (fun hor => hor.elim (by omega) fun heq => by cases heq)
          by_cases hle : f.lfn.length ≤ 16
          · rw [if_neg (by omega)] at heq
            have hsame := length_of_display hlong (hcut _) heq
            rw [List.length_map, List.length_map, List.length_take] at hsame
            omega
          · rw [if_pos (by omega)] at heq
            have hsame := length_of_display hzero (hcut _) heq
            rw [List.length_map, List.length_take] at hsame
            omega
      | true =>
        rw [if_pos rfl, List.length_map, List.length_take]
        cases hext : hasTypeExtension f.lfn with
        | true =>
          have hlow := hfour hext
          have hfull : (f.lfn.length + 252) % 256 = f.lfn.length - 4 := by omega
          rw [bare_on hon, hext, if_pos rfl, hfull, if_neg (by omega), if_pos (by rw [List.length_take]; omega)]
          exact iff_of_true rfl (.inr rfl)
        | false =>
          rw [bare_on hon f.lfn, hext, if_neg Bool.false_ne_true, if_neg (by omega)]
          by_cases hlow : f.lfn.length < 4
          · -- there are no four characters to cut
            rw [List.take_of_length_le (by omega), if_pos (by omega)]
            exact iff_of_true rfl (.inl hlow)
          · -- the long name loses characters that are no extension
            refine iff_of_false (fun heq => ?_) (fun hor => hor.elim hlow fun heq => by cases heq)
            by_cases hle : f.lfn.length ≤ 16
            · rw [if_pos hle] at heq
              have hsame := length_of_display (hcut _) hlong heq
              rw [List.length_map, List.length_map, List.length_take] at hsame
              omega
            · rw [if_neg hle, bare_on hon, hfname, if_pos rfl] at heq
              have hsame := length_of_display (hcut _) (fun hmem => hzero (List.mem_of_mem_take hmem)) heq
              rw [List.length_map, List.length_take, List.length_take] at hsame
              omega
    · rw [nameptr_short hlfn, ownName_short hlfn, bare_on hon]
      have hfour := @length_of_hasTypeExtension f.fname
      refine iff_of_true (congrArg display ?_) ?_
      · cases hext : hasTypeExtension f.fname with
        | false => rw [if_neg Bool.false_ne_true, if_neg Bool.false_ne_true, ite_self]
        | true =>
          have hlow := hfour hext
          rw [if_pos rfl, if_pos rfl, show (f.fname.length + 252) % 256 = f.fname.length - 4 by omega,
            if_neg (by rw [List.length_take]; omega)]
      · rw [not_and_or, not_not, not_le] at hlfn
        exact hlfn.imp id .inl

/-- Without a header the name is cut by the extension of the 8.3 name. -/
theorem shown_unread (hn : f.Named) : (f.shown hideExt .unread).1 = f.plainName (f.cutName hideExt) := by
  have htype := hn.short.hasTypeExtension_iff
  have hno : (∀ typechar, checkExtension f.fname ≠ .isType typechar) → hasTypeExtension f.fname = false := by
    intro hne
    rw [← Bool.not_eq_true, htype]
    exact fun ⟨typechar, heq⟩ => hne typechar heq
  rw [shown]
  split
  · next hdir =>
    have hcut : f.cutName hideExt = f.nameptr := by
      rw [cutName, hdir, Bool.not_true, Bool.and_false, Bool.false_and, if_neg Bool.false_ne_true]
    rw [hcut]
  next hdir =>
  have hwhole : hasTypeExtension f.fname = false → f.cutName hideExt = f.nameptr := by
    intro hext
    rw [cutName, hext, Bool.and_false, if_neg Bool.false_ne_true]
  split
  · next hext => rw [hwhole (hno fun typechar heq => by cases hext.symm.trans heq)]
  · next hext =>
    rw [cutName, htype.mpr ⟨_, hext⟩, Bool.and_true, (Bool.not_eq_true _).mp hdir, Bool.not_false, Bool.and_true]
    cases hideExt with
    | true => rw [if_pos rfl, if_pos rfl]
    | false => rw [if_neg Bool.false_ne_true, if_neg Bool.false_ne_true]
  · next hext => rw [hwhole (hno fun typechar heq => by cases hext.symm.trans heq)]

end Filinfo

theorem Filinfo.shown_x00 (hx00 : f.isX00 = true) (internal : Internal) :
    (f.shown hideExt internal).1 = match internal with
      | .name name => name
      | .unread => f.plainName f.nameptr
      | .other scratch => f.plainName (if f.usesLfn then cString P00_HEADER_SIZE scratch else f.nameptr) := by
  rw [isX00, Bool.and_eq_true, Bool.not_eq_true'] at hx00
  rw [shown, if_neg (by rw [hx00.1]; exact Bool.false_ne_true)]
  split
  · cases internal <;> rfl
  · next hext => simp [hext] at hx00
  · next hext => simp [hext] at hx00

theorem Filinfo.ownName_length_le (hn : f.Named) : (f.ownName hideExt).length ≤ CBM_NAME_LENGTH := by
  rw [ownName]
  split
  · next h =>
    rw [List.length_map]
    exact h.2
  · exact (length_bare_le _).trans (hn.short.length.trans (by decide))

theorem Filinfo.display_end {name : List UInt8} {i : ℕ} (hi : name.length ≤ i) : display name i = 0 := by
  rw [display, copyString, List.getD_eq_default]
  rw [List.length_map]
  exact hi

theorem copyName_end {name : ℕ → UInt8} {i : ℕ} (hi : CBM_NAME_LENGTH ≤ i) : copyName name i = 0 :=
  Memory.write_outside (.inr (by omega))

/-- A name field without an end has more than 16 characters. -/
theorem headerName_end {scratch : ℕ → UInt8} (hend : headerName scratch CBM_NAME_LENGTH = 0) :
    ∃ j ≤ CBM_NAME_LENGTH, scratch (P00_CBMNAME_OFFSET + j) = 0 := by
  by_contra hnone
  push Not at hnone
  have hstring : cString (P00_HEADER_SIZE - P00_CBMNAME_OFFSET) (fun j => scratch (P00_CBMNAME_OFFSET + j)) =
      ((List.range 17).map fun j => scratch (P00_CBMNAME_OFFSET + j)) ++
        ([17].map fun j => scratch (P00_CBMNAME_OFFSET + j)).takeWhile (· ≠ 0) := by
    rw [cString, show P00_HEADER_SIZE - P00_CBMNAME_OFFSET = 17 + 1 from rfl, List.range_succ, List.map_append,
      List.takeWhile_append_of_pos]
    intro c hc
    obtain ⟨j, hj, rfl⟩ := List.mem_map.mp hc
    rw [List.mem_range] at hj
    exact decide_eq_true (hnone j (by rw [CBM_NAME_LENGTH]; omega))
  have hbyte : headerName scratch CBM_NAME_LENGTH = scratch (P00_CBMNAME_OFFSET + CBM_NAME_LENGTH) := by
    rw [headerName, hstring, CBM_NAME_LENGTH]
    rfl
  exact hnone CBM_NAME_LENGTH le_rfl (hbyte ▸ hend)

/-- An entry with its own name is listed well if it has no name in a header. -/
theorem listed_own {v : Volume} {dent : FatDirent} (hn : f.Named)
    (hname : dent.name = Filinfo.display (f.ownName hideExt))
    (hlisted : f.listedName hideExt v = Filinfo.display (f.ownName hideExt)) : Listed hideExt f v dent where
  name := by rw [hname, hlisted]
  short i hi := by
    rw [hname]
    exact Filinfo.display_end ((Filinfo.ownName_length_le hn).trans hi)

/-- A file that has no name in a header is listed under its own name if that is cut well. -/
theorem listed_unread {v : Volume} (hn : f.Named) (hunread : f.internal v = .unread) :
    Listed hideExt f v (f.dirent hideExt .unread) ↔ f.CutsWell hideExt := by
  have hshown : (f.dirent hideExt .unread).name = f.plainName (f.cutName hideExt) := Filinfo.shown_unread hn
  have hwanted : f.listedName hideExt v = Filinfo.display (f.ownName hideExt) := by
    rw [Filinfo.listedName, hunread]
  rw [← Filinfo.plainName_cut_iff hn]
  exact ⟨fun h => hshown.symm.trans (h.name.trans hwanted), fun h => listed_own hn (hshown.trans h) hwanted⟩

/-- No type extension is hidden in the 8.3 name of a PC64 file. -/
theorem Filinfo.not_hasTypeExtension (hn : f.Named) (hx00 : f.isX00 = true) : hasTypeExtension f.fname = false := by
  rw [isX00, Bool.and_eq_true] at hx00
  rw [← Bool.not_eq_true, hn.short.hasTypeExtension_iff]
  rintro ⟨typechar, hext⟩
  simp [hext] at hx00

section

variable {v : Volume} {name scratch : ℕ → UInt8}

/-- A name from the cache has 16 characters at most. -/
theorem listed_cached (hx00 : f.isX00 = true) (hread : v.readName f.clust = .name name) :
    Listed hideExt f v (f.dirent hideExt (.name (copyName name))) := by
  have hshown : (f.dirent hideExt (.name (copyName name))).name = copyName name :=
    Filinfo.shown_x00 hx00 (.name (copyName name))
  refine ⟨?_, fun i hi => ?_⟩
  · rw [hshown, Filinfo.listedName, Filinfo.internal, if_pos hx00, hread]
  · rw [hshown]
    exact copyName_end hi

/-- A name from a header is listed well if it ends. -/
theorem listed_header (hx00 : f.isX00 = true) (hread : v.readName f.clust = .name name) :
    Listed hideExt f v (f.dirent hideExt (.name name)) ↔
      ∃ j ≤ CBM_NAME_LENGTH, v.data f.clust (P00_CBMNAME_OFFSET + j) = 0 := by
  have hshown : (f.dirent hideExt (.name name)).name = name := Filinfo.shown_x00 hx00 (.name name)
  obtain ⟨scratch, hcluster, -, hname⟩ := Volume.readName_eq_name hread
  have hdata : v.data f.clust = scratch := by
    rw [Volume.readCluster] at hcluster
    split at hcluster
    · simp at hcluster
    · exact Option.some.inj hcluster
  rw [hdata]
  constructor
  · intro h
    refine headerName_end ?_
    rw [← hname, ← hshown]
    exact h.short _ le_rfl
  · rintro ⟨j, hj, hzero⟩
    have hcopy : copyName name = name := by
      rw [hname]
      exact copyName_headerName hj hzero
    rw [← hcopy]
    exact listed_cached hx00 hread

/-- The long name is gone once the file is read, so that the entry gets what the file begins with. -/
theorem listed_other (hn : f.Named) (hx00 : f.isX00 = true)
    (hread : v.readName f.clust = .other scratch) :
    Listed hideExt f v (f.dirent hideExt (.other scratch)) ↔
      f.lfn = [] ∨ CBM_NAME_LENGTH + 4 < f.lfn.length ∨
        Filinfo.display (if (cString P00_HEADER_SIZE scratch).length ≤ CBM_NAME_LENGTH then
          cString P00_HEADER_SIZE scratch else f.fname) = Filinfo.display (f.ownName hideExt) := by
  have hwanted : f.listedName hideExt v = Filinfo.display (f.ownName hideExt) := by
    rw [Filinfo.listedName, Filinfo.internal, if_pos hx00, hread]
  have hshown : (f.dirent hideExt (.other scratch)).name =
      f.plainName (if f.usesLfn then cString P00_HEADER_SIZE scratch else f.nameptr) :=
    Filinfo.shown_x00 hx00 (.other scratch)
  have hright : Listed hideExt f v (f.dirent hideExt (.other scratch)) ↔
      (f.dirent hideExt (.other scratch)).name = Filinfo.display (f.ownName hideExt) :=
    ⟨fun h => h.name.trans hwanted, fun h => listed_own hn h hwanted⟩
  rw [hright, hshown]
  by_cases huses : f.usesLfn = true
  · rw [if_pos huses]
    obtain ⟨hne, hlen⟩ := Filinfo.usesLfn_iff.mp huses
    have hstart : f.plainName (cString P00_HEADER_SIZE scratch) = Filinfo.display
        (if (cString P00_HEADER_SIZE scratch).length ≤ CBM_NAME_LENGTH then cString P00_HEADER_SIZE scratch
          else f.fname) := by
      rw [Filinfo.plainName, Filinfo.display]
      by_cases hle : (cString P00_HEADER_SIZE scratch).length ≤ CBM_NAME_LENGTH
      · rw [if_neg (not_lt.mpr hle), if_pos hle]
      · rw [if_pos (not_le.mp hle), if_neg hle]
    rw [hstart]
    constructor
    · exact fun h => .inr (.inr h)
    · rintro (hnil | hlong | h)
      · exact absurd hnil hne
      · rw [CBM_NAME_LENGTH] at hlong
        omega
      · exact h
  · rw [Filinfo.usesLfn_iff] at huses
    have hbare : f.bare hideExt f.fname = f.fname := by
      rw [Filinfo.bare, Filinfo.not_hasTypeExtension hn hx00, Bool.and_false, if_neg Bool.false_ne_true]
    rw [if_neg (mt Filinfo.usesLfn_iff.mp huses), Filinfo.nameptr_short huses, Filinfo.ownName_short huses, hbare,
      Filinfo.plainName_eq, ite_self]
    rw [not_and_or, not_not, not_le] at huses
    refine iff_of_true rfl ?_
    rcases huses with hnil | hlong
    · exact .inl hnil
    · exact .inr (.inl hlong)

/-- A file whose name is not in the cache. -/
theorem listed_read (hn : f.Named) (hx00 : f.isX00 = true) {cache : P00cache}
    {part : UInt8} (hmiss : p00cacheLookup cache part f.clust = none) :
    Listed hideExt f v (f.dirent hideExt (v.readName f.clust)) ↔ ListsWell hideExt f v cache part := by
  have hinternal : f.internal v = v.readName f.clust := if_pos hx00
  rw [ListsWell, hinternal]
  cases hread : v.readName f.clust with
  | name name =>
    rw [listed_header hx00 hread, hmiss]
    simp
  | unread => exact listed_unread hn (hinternal.trans hread)
  | other scratch => exact listed_other hn hx00 hread

end

namespace Drive

variable {d : Drive} {capacity : ℕ}

/-- `fat_readdir` on a drive with a sound cache. -/
theorem Sound.listed_iff (h : d.Sound) {hideExt : Bool} {dh : Dh} {f : Filinfo} {i : ℕ}
    (hnext : nextEntry (((d.volume dh.part).dirs dh.dir).drop dh.index) dh.index = (some f, i))
    (hne : f.fname ≠ []) (hn : f.Named) :
    (∃ dent, (fatReaddir p00cacheLookup capacity hideExt (d.volume dh.part) d.cache dh).1 = some dent ∧
        Listed hideExt f (d.volume dh.part) dent) ↔
      ListsWell hideExt f (d.volume dh.part) d.cache dh.part := by
  have hdent : ∀ found, (∃ dent, some (f.dirent hideExt found) = some dent ∧
      Listed hideExt f (d.volume dh.part) dent) ↔
        Listed hideExt f (d.volume dh.part) (f.dirent hideExt found) := by
    intro found
    simp
  rw [fatReaddir, hnext]
  dsimp only
  rw [if_neg hne]
  by_cases hx00 : f.isX00 = true
  · rw [if_pos hx00, hdent]
    cases hlookup : p00cacheLookup d.cache dh.part f.clust with
    | none =>
      rw [← listed_read hn hx00 hlookup, findName, hlookup]
      dsimp only
      split
      · next hread => rw [hread]
      · exact Iff.rfl
    | some name =>
      obtain ⟨n, hread, rfl⟩ := h.readName_of_lookup hlookup
      rw [findName, hlookup, ListsWell, Filinfo.internal, if_pos hx00, hread, hlookup]
      dsimp only
      rw [copyName_copyName]
      exact iff_of_true (listed_cached hx00 hread) (.inl rfl)
  · have hunread : f.internal (d.volume dh.part) = .unread := if_neg hx00
    rw [if_neg hx00, hdent, ListsWell, hunread]
    exact listed_unread hn hunread

/-- Whatever was done since the initialisation, `fat_readdir` lists the next entry of a directory under
the right name, in at most 16 characters, exactly if it can be listed well. -/
theorem fatReaddir_lists_iff (capacity : ℕ) (card : Card) (files : List OpenFile) (ops : List Op)
    (hideExt : Bool) (dh : Dh) {d : Drive}
    (hd : d = (Run.run (step p00cacheLookup capacity) ⟨card.volume, p00cacheInvalidate, files⟩ ops).2)
    {f : Filinfo} {i : ℕ}
    (hnext : nextEntry (((d.volume dh.part).dirs dh.dir).drop dh.index) dh.index = (some f, i))
    (hne : f.fname ≠ []) (hn : f.Named) :
    (∃ dent, (fatReaddir p00cacheLookup capacity hideExt (d.volume dh.part) d.cache dh).1 = some dent ∧
        Listed hideExt f (d.volume dh.part) dent) ↔
      ListsWell hideExt f (d.volume dh.part) d.cache dh.part := by
  have hsound : d.Sound := by
    rw [hd]
    exact sound_run capacity card files ops
  exact hsound.listed_iff hnext hne hn

end Drive

theorem helloName_named : Filinfo.Named ⟨30, 0, 0, 0, [65, 46, 80, 48, 48], 2, []⟩ :=
  ⟨⟨by decide, fun e he => by cases he; decide, by simp [toupper]⟩, by decide⟩

/-- The PC64 file of the card is listed as `HELLO`. -/
theorem fatReaddir_lists_hello :
    ∃ dent, (fatReaddir p00cacheLookup 1 false helloVolume p00cacheInvalidate ⟨0, 0, 0⟩).1 = some dent ∧
      Listed false ⟨30, 0, 0, 0, [65, 46, 80, 48, 48], 2, []⟩ helloVolume dent :=
  (Drive.fatReaddir_lists_iff 1 helloCard [] [] false ⟨0, 0, 0⟩ rfl rfl (by decide) helloName_named).mpr
    (.inr ⟨5, by decide, rfl⟩)

/-- An empty card. -/
def emptyCard : Card where
  volume _ := { helloVolume with dirs _ := [], chains := [] }
  faithful _ :=
    { allocated h := by
        obtain ⟨⟨f, hf, -⟩, -⟩ := h
        cases hf
      distinct h := by
        obtain ⟨⟨f, hf, -⟩, -⟩ := h
        cases hf }

/-- The plain file `hi there.p00` is written, with `X` and a NUL in it. -/
def plainOps : List Op :=
  [.create 0 0 0 ⟨[72, 73, 32, 84, 72, 69, 82, 69, 46, 80, 48, 48], by decide⟩ .prg 0
      ⟨0, true, [72, 73, 84, 72, 69, 82, 126, 49, 46, 80, 48, 48], 0, 0⟩,
    .write 0 [88, 0], .close 0 [2]]

/-- The file is listed as `X`. -/
theorem fatReaddir_not_lists :
    ¬∀ (capacity : ℕ) (card : Card) (files : List OpenFile) (ops : List Op) (hideExt : Bool) (dh : Dh)
      (d : Drive) (f : Filinfo) (i : ℕ),
      d = (Run.run (Drive.step p00cacheLookup capacity) ⟨card.volume, p00cacheInvalidate, files⟩ ops).2 →
      nextEntry (((d.volume dh.part).dirs dh.dir).drop dh.index) dh.index = (some f, i) →
      f.fname ≠ [] → f.Named →
      ∃ dent, (fatReaddir p00cacheLookup capacity hideExt (d.volume dh.part) d.cache dh).1 = some dent ∧
        Listed hideExt f (d.volume dh.part) dent := by
  intro h
  obtain ⟨dent, hdent, hlisted⟩ := h 1 emptyCard [] plainOps false ⟨0, 0, 0⟩ _
    ⟨2, 0, 0, AM_ARC, [72, 73, 84, 72, 69, 82, 126, 49, 46, 80, 48, 48], 2,
      [104, 105, 32, 116, 104, 101, 114, 101, 46, 112, 48, 48]⟩ 1 rfl rfl (by decide)
    ⟨⟨by decide, fun e he => by cases he; decide, by simp [toupper]⟩, by decide⟩
  have hname := congrFun hlisted.name 0
  rw [← Option.some.inj hdent] at hname
  have hbad : ¬((88 : UInt8) = 72) := by decide
  exact hbad hname

end NoDiskEmu.Fat
