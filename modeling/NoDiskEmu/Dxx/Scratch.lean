import NoDiskEmu.Dxx.Delete
import NoDiskEmu.Dxx.Faults
import NoDiskEmu.Dxx.Marking

/-! What scratching a file changes, whatever becomes of the accesses to the image. Each sector is freed
before the link in it has been checked, so a chain with a bad link loses its sectors though the file
stays. -/

namespace NoDiskEmu.Dxx

open Library

variable {s s' s₀ : State} {part track sector : ℕ} {p p' : Partition}

/-! ### Freed sectors -/

/-- A bit that is not set yet adds to the byte. -/
theorem lt_setBit {byte : UInt8} {dnp : Bool} (h : Bits.test byte (sectorMask dnp sector) ≠ true) :
    byte.toNat < (setBit true byte (sectorMask dnp sector)).toNat := by
  have hle : byte.toNat ≤ (byte ||| sectorMask dnp sector).toNat := by
    rw [UInt8.toNat_or]
    exact Nat.left_le_or
  refine lt_of_le_of_ne hle fun heq => h ?_
  rw [UInt8.toNat_inj.mp heq]
  exact test_setBit_self true byte (sectorMask_ne_zero dnp sector)

namespace Partition

/-- `p'` has the bytes of `p`, or greater ones. -/
def Adds (p p' : Partition) : Prop := ∀ o, (p.image o).toNat ≤ (p'.image o).toNat

theorem Adds.refl (p : Partition) : p.Adds p := fun _ => le_rfl

theorem Adds.trans {p'' : Partition} (h : p.Adds p') (h' : p'.Adds p'') : p.Adds p'' :=
  fun o => (h o).trans (h' o)

/-- Only the bytes and the format matter for a bit. -/
theorem isFree_congr (himage : p'.image = p.image) (htype : p'.imagetype = p.imagetype) (t q : ℕ) :
    p'.isFree t q = p.isFree t q := by
  rw [isFree, isFree, bitAddress, bitAddress, bamAddress, bamAddress, isDnp, isDnp, himage, htype]

theorem adds_setByte {a : ℕ} {v : UInt8} (h : (p.image a).toNat ≤ v.toNat) : p.Adds (p.setByte a v) := by
  intro o
  by_cases ho : o = a
  · subst ho
    rwa [setByte_image_self]
  · rw [setByte_image_of_ne ho]

theorem adds_adjustCount {n : ℕ} (hn : n ≤ 40) (p : Partition) (track : ℕ) :
    p.Adds (p.adjustCount track fun count => if count.toNat < n then some (count + 1) else none) := by
  rw [adjustCount]
  split
  · exact Adds.refl p
  · next count hcount =>
    split at hcount
    · cases hcount
      refine adds_setByte ?_
      rw [UInt8.toNat_add]
      show _ ≤ (_ + 1) % 256
      omega
    · cases hcount

/-- Freeing an allocated sector sets its bit, and then may only add. -/
theorem freeSector_of_allocated (hm : p.Mounted) (h : p.isFree track sector ≠ true) :
    (p.flipBit true track sector).Adds (p.freeSector track sector) := by
  rw [show p.freeSector track sector = p.mark true track sector from rfl, mark_of_ne h]
  split
  · exact Adds.refl _
  · next hdnp =>
    have h40 : sectorsPerTrack p.imagetype.type track ≤ 40 := by
      have hle := sectorsPerTrack_le p.imagetype.type track
      cases htype : p.imagetype.type <;> simp only [htype] at hle ⊢
      case dnp => exact absurd (hm.isDnp_iff.mpr htype) hdnp
      all_goals omega
    exact adds_adjustCount h40 _ track

/-- What `free_sector` may leave of an allocated sector: the counter of its track stays if the BAM sector
with it cannot be had. -/
def Freed (p p' : Partition) (track sector : ℕ) : Prop :=
  p' = p.freeSector track sector ∨ p' = p.flipBit true track sector

theorem Freed.adds (h : p.Freed p' track sector) (hm : p.Mounted) (hallocated : p.isFree track sector ≠ true) :
    (p.flipBit true track sector).Adds p' := by
  rcases h with rfl | rfl
  · exact freeSector_of_allocated hm hallocated
  · exact Adds.refl _

theorem Freed.grows (h : p.Freed p' track sector) (hm : p.Mounted) (hallocated : p.isFree track sector ≠ true) :
    p.Adds p' :=
  (adds_setByte (lt_setBit hallocated).le).trans (h.adds hm hallocated)

/-- What adds nothing in the end frees no allocated sector on the way. -/
theorem Freed.not_adds (h : p.Freed p' track sector) (hm : p.Mounted) (hallocated : p.isFree track sector ≠ true) :
    ¬p'.Adds p := by
  intro hback
  have hbyte := (h.adds hm hallocated).trans hback (p.bitAddress track sector)
  rw [flipBit, setByte_image_self] at hbyte
  have hlt := lt_setBit hallocated
  omega

theorem Freed.bytes (h : p.Freed p' track sector) {o : ℕ} (hne : p'.image o ≠ p.image o) :
    o = p.bitAddress track sector ∨ ¬p.isDnp = true ∧ o = p.bamAddress track .freecount := by
  rcases h with rfl | rfl
  · exact freeSector_bytes hne
  · by_contra hnot
    exact hne (setByte_image_of_ne (not_or.mp hnot).1 _)

/-- Only BAM sectors change. -/
theorem Freed.outside (h : p.Freed p' track sector) (hle : track ≤ 255)
    (hpos : (bamPosition p.imagetype.type track .bitfield).2.2 + sector / 8 < 256) {o : ℕ}
    (ho : ¬InBam p.imagetype.type o) : p'.image o = p.image o := by
  by_contra hne
  rcases h.bytes hne with rfl | ⟨-, rfl⟩
  · exact ho (bamAddress_inBam hle hpos)
  · exact ho (bamAddress_inBam (i := 0) hle (bamPosition_freecount p.imagetype.type track).1)

theorem Freed.others (h : p.Freed p' track sector) (hm : p.Mounted) (hv : p.Valid track sector) {t q : ℕ}
    (hv' : p.Valid t q) (hne : ¬(t = track ∧ q = sector)) : p'.isFree t q = p.isFree t q := by
  rcases h with rfl | rfl
  · exact (mark_marked hm true hv).others t q hv' hne
  · exact isFree_flipBit_other hm true hv hv' hne

/-- `p'` is `p` with bits and counters of some of its sectors changed. -/
structure FreesOnly (p p' : Partition) (chain : ℕ × ℕ → Prop) : Prop where
  bytes : ∀ o, p'.image o ≠ p.image o → ∃ x, chain x ∧ p.Valid x.1 x.2 ∧
    (o = p.bitAddress x.1 x.2 ∨ ¬p.isDnp = true ∧ o = p.bamAddress x.1 .freecount)
  bits : ∀ t q, p.Valid t q → ¬chain (t, q) → p'.isFree t q = p.isFree t q

theorem FreesOnly.refl (p : Partition) (chain : ℕ × ℕ → Prop) : FreesOnly p p chain :=
  ⟨fun _ hne => absurd rfl hne, fun _ _ _ _ => rfl⟩

theorem FreesOnly.freed {p'' : Partition} {chain : ℕ × ℕ → Prop} (h : FreesOnly p p' chain) (hm : p.Mounted)
    (htype : p'.imagetype = p.imagetype) (hdata : p'.d64data = p.d64data) {x : ℕ × ℕ} (hx : chain x)
    (hv : p.Valid x.1 x.2) (hfreed : p'.Freed p'' x.1 x.2) : FreesOnly p p'' chain := by
  have hm' : p'.Mounted := by rwa [Mounted, htype, hdata]
  have hv' : ∀ t q, p.Valid t q → p'.Valid t q := fun t q hv => by rwa [Valid, htype, hdata]
  refine ⟨fun o hne => ?_, fun t q hvalid hnot => ?_⟩
  · by_cases hbefore : p'.image o = p.image o
    · rw [← hbefore] at hne
      have hbyte := hfreed.bytes hne
      refine ⟨x, hx, hv, ?_⟩
      rw [bitAddress, bamAddress, bamAddress, isDnp, htype] at hbyte
      exact hbyte
    · exact h.bytes o hbefore
  · have hother := hfreed.others hm' (hv' _ _ hv) (hv' t q hvalid) (by
      rintro ⟨rfl, rfl⟩
      exact hnot hx)
    exact hother.trans (h.bits t q hvalid hnot)

end Partition

/-! ### The loop -/

/-! ### Reads -/

/-- `checked_read` gets the link in the sector: the sector is on the disk, not marked as bad, and no
access on the way fails. -/
def Fetches (s : State) (part : ℕ) (x : ℕ × ℕ) : Prop :=
  ValidTS (s.type part) (s.lastTrack part) x.1 x.2 ∧ (checkErrors s part x.1 x.2).1 = 0 ∧
    (checkErrors s part x.1 x.2).2.io 0 = .ok

theorem imageRead_calm (s : State) (part off n : ℕ) (buf : ℕ → UInt8) :
    ∃ error, (imageRead s part off n buf).2.2.calm = { s.calm with error } := by
  rw [imageRead]
  split
  · exact ⟨s.error, rfl⟩
  · exact ⟨s.error, rfl⟩
  · exact ⟨_, rfl⟩

theorem loadErrors_calm (s : State) (part track : ℕ) :
    ∃ errorcache error, (loadErrors s part track).2.calm = { s.calm with errorcache, error } := by
  rw [loadErrors]
  dsimp only
  split
  · exact ⟨_, s.error, rfl⟩
  · obtain ⟨error, hread⟩ := imageRead_calm (s.setErrorcache { s.errorcache with errors := fun _ => 1 }) part
      (errorOffset (s.type part) + sectorLba (s.type part) track 0) (sectorsPerTrack (s.type part) track) fun _ => 1
    have hset : ∀ errorcache, ((imageRead (s.setErrorcache { s.errorcache with errors := fun _ => 1 }) part
        (errorOffset (s.type part) + sectorLba (s.type part) track 0) (sectorsPerTrack (s.type part) track)
        fun _ => 1).2.2.setErrorcache errorcache).calm = { s.calm with errorcache, error } := fun errorcache =>
      congrArg (fun t : State => t.setErrorcache errorcache) hread
    split <;> exact ⟨_, error, hset _⟩

theorem checkErrors_calm (s : State) (part track sector : ℕ) :
    ∃ errorcache error, (checkErrors s part track sector).2.calm = { s.calm with errorcache, error } := by
  have hload : ∃ errorcache error, (if s.errorcache.part ≠ part ∨ s.errorcache.track ≠ track then
      loadErrors s part track else (0, s)).2.calm = { s.calm with errorcache, error } := by
    split
    · exact loadErrors_calm s part track
    · exact ⟨s.errorcache, s.error, rfl⟩
  obtain ⟨errorcache, error, hload⟩ := hload
  rw [checkErrors]
  split
  · generalize (if s.errorcache.part ≠ part ∨ s.errorcache.track ≠ track then loadErrors s part track else (0, s)) = l
      at hload ⊢
    have hset : ∀ error, ({ l.2 with error } : State).calm = { s.calm with errorcache, error } := fun error =>
      congrArg (fun t : State => { t with error }) hload
    dsimp only
    split
    · exact ⟨errorcache, error, hload⟩
    · split
      · exact ⟨errorcache, _, hset _⟩
      · split
        · exact ⟨errorcache, _, hset _⟩
        · exact ⟨errorcache, error, hload⟩
  · exact ⟨s.errorcache, s.error, rfl⟩

/-- A read changes the cache of the error info and the error, and succeeds where the sector can be fetched. -/
theorem checkedRead_fetches (s : State) (part : ℕ) (x : ℕ × ℕ) (buf : ℕ → UInt8) (len code : ℕ) :
    ((checkedRead s part x.1 x.2 buf len code).1 = 0 ↔ Fetches s part x) ∧
      ∃ errorcache error, (checkedRead s part x.1 x.2 buf len code).2.2.calm = { s.calm with errorcache, error } := by
  rw [checkedRead, Fetches]
  split
  · next hrange =>
    refine ⟨iff_of_false (show ¬(2 : ℕ) = 0 by decide) fun hfetch => ?_, s.errorcache, _, rfl⟩
    obtain ⟨h1, h2, h3⟩ := hfetch.1
    omega
  · next hrange =>
    have hvalid : ValidTS (s.type part) (s.lastTrack part) x.1 x.2 := by
      rw [ValidTS]
      omega
    obtain ⟨errorcache, error, hcheck⟩ := checkErrors_calm s part x.1 x.2
    dsimp only
    split
    · next hbad =>
      have htwo : ¬(2 : ℕ) = 0 := by decide
      exact ⟨iff_of_false htwo fun hfetch => hbad hfetch.2.1, errorcache, error, hcheck⟩
    · next hgood =>
      obtain ⟨error', hread⟩ := imageRead_calm (checkErrors s part x.1 x.2).2 part (s.offset part x.1 x.2) len buf
      refine ⟨⟨fun hzero => ⟨hvalid, not_not.mp hgood, imageRead_succeeds hzero⟩, fun hfetch => ?_⟩,
        errorcache, error', ?_⟩
      · rw [imageRead, hfetch.2.2]
      · rw [hread, hcheck]

/-- Such a change is not seen. -/
theorem calm_with {s1 : State} {errorcache : ErrorCache} {error : DosError}
    (h : s'.calm = { s1.calm with errorcache, error }) :
    SameFormat s1 s' ∧ s'.scratch = s1.scratch ∧ s'.through = s1.through ∧ (Coherent s1.calm → Coherent s'.calm) := by
  have hpartition := congrArg State.partition h
  have hmax := congrArg State.maxPart h
  have hscratch := congrArg State.scratch h
  have hthrough := congrArg State.through h
  refine ⟨(SameFormat.refl s1).congr hpartition hmax, hscratch, hthrough, fun hco => ?_⟩
  rw [h]
  exact ⟨hco.noFault, hco.maxPart, hco.first.congr rfl rfl, fun b hb => (hco.second b hb).congr rfl rfl, hco.apart⟩

/-! ### The loop -/

/-- `d64_delete` begins a round in `y`: with the link in the buffer and the state. -/
def Comes (s : State) (part : ℕ) (dh : D64dh) (y : (ℕ → UInt8) × State) : Prop :=
  (readEntry s part dh).1 = 0 ∧ ∃ n, Walk.place (Walk.rounds (deleteRound part)) (scratchStart s part dh) n = some y

/-- `d64_delete` comes to the sector `x`. -/
def Visits (s : State) (part : ℕ) (dh : D64dh) (x : ℕ × ℕ) : Prop := ∃ y, Comes s part dh y ∧ linked y.1 = x

/-- The loop ends in `s'` at the end of the chain. -/
def EndsIn (s : State) (part : ℕ) (dh : D64dh) (s' : State) : Prop :=
  (readEntry s part dh).1 = 0 ∧ ∃ fuel, Walk.loop (deleteRound part) fuel (scratchStart s part dh) = some (0, s')

/-- A state that the rounds of the loop lead to. -/
structure Scratching (s₀ : State) (part : ℕ) (dh : D64dh) (s : State) : Prop where
  coherent : Coherent s.calm
  format : SameFormat s₀ s
  outside : ∀ o, ¬InBam (s₀.type part) o → s.view part o = s₀.view part o
  scratch : ∀ i < 32, s.scratch i = s₀.view part (entryOffset s₀ part dh + i)
  images : ∀ i, i ≠ part → s.view i = s₀.view i

variable {dh : D64dh}

theorem Scratching.mounted (h : Scratching s₀ part dh s) (hm : (s₀.partition part).Mounted) :
    (s.through part).Mounted := (h.format.mounted part).mpr hm

/-- The BAM after a round: it stays where `is_free` does not find the sector allocated. -/
def RoundFrees (part : ℕ) (y : (ℕ → UInt8) × State) (s' : State) : Prop :=
  (isFree y.2 part (linked y.1).1 (linked y.1).2).1 ≠ 0 ∧ s'.through part = y.2.through part ∨
    (isFree y.2 part (linked y.1).1 (linked y.1).2).1 = 0 ∧
      (y.2.through part).isFree (linked y.1).1 (linked y.1).2 ≠ true ∧
      (y.2.through part).Freed (s'.through part) (linked y.1).1 (linked y.1).2

/-- A round frees the sector that the link names, and then reads the link in it. -/
theorem deleteRound_eq {y : (ℕ → UInt8) × State} (h : Scratching s₀ part dh y.2)
    (hx : InBuffer s₀ part (linked y.1).1 (linked y.1).2)
    (hsafe : FreesSafely y.2 part (linked y.1).1 (linked y.1).2) :
    ∃ s' buf', Scratching s₀ part dh s' ∧ RoundFrees part y s' ∧
      (Fetches (freeSector y.2 part (linked y.1).1 (linked y.1).2).2 part (linked y.1) →
        deleteRound part y = if buf' 0 ≠ 0 then .inr (buf', s') else .inl (0, s')) ∧
      (¬Fetches (freeSector y.2 part (linked y.1).1 (linked y.1).2).2 part (linked y.1) →
        deleteRound part y = .inl (255, s')) := by
  obtain ⟨buf, s⟩ := y
  dsimp only at h hx hsafe ⊢
  have hx' := hx.sameFormat h.format
  obtain ⟨hbecomes, hallocated⟩ := freeSector_intact h.coherent hx' hsafe
  obtain ⟨hfetch, errorcache, error, hstate⟩ := checkedRead_fetches
    (freeSector s part (linked buf).1 (linked buf).2).2 part (linked buf) buf 2 ERROR_ILLEGAL_TS_LINK
  have hformat := freeSector_sameFormat s part (linked buf).1 (linked buf).2
  have hround : deleteRound part (buf, s) =
      let r := checkedRead (freeSector s part (linked buf).1 (linked buf).2).2 part (linked buf).1 (linked buf).2
        buf 2 ERROR_ILLEGAL_TS_LINK
      if r.1 ≠ 0 then .inl (255, r.2.2) else if r.2.1 0 ≠ 0 then .inr r.2 else .inl (0, r.2.2) := rfl
  generalize (freeSector s part (linked buf).1 (linked buf).2).2 = s1 at hbecomes hfetch hstate hformat hround ⊢
  generalize checkedRead s1 part (linked buf).1 (linked buf).2 buf 2 ERROR_ILLEGAL_TS_LINK = r
    at hfetch hstate hround
  obtain ⟨hformat', hscratch, hthrough, hco⟩ := calm_with hstate
  have hframe : RoundFrees part (buf, s) r.2.2 := by
    rw [RoundFrees, hthrough, show s1.through part = _ from hbecomes.through_self]
    by_cases hzero : (isFree s part (linked buf).1 (linked buf).2).1 = 0
    · refine .inr ⟨hzero, hallocated hzero, ?_⟩
      rw [if_neg (not_not.mpr hzero)]
      split
      · exact .inl rfl
      · exact .inr rfl
    · exact .inl ⟨hzero, by rw [if_pos hzero]⟩
  have hsame : r.2.2.view part = (r.2.2.through part).image := rfl
  refine ⟨r.2.2, r.2.1, ⟨hco hbecomes.coherent, (h.format.trans hformat).trans hformat', fun o ho => ?_, fun i hi => ?_,
    fun i hi => ?_⟩, hframe, fun hok => ?_, fun hno => ?_⟩
  · rw [← h.outside o ho, hsame]
    rcases hframe with ⟨-, heq⟩ | ⟨-, -, hfreed⟩
    · rw [heq]
      rfl
    · have ho' : ¬InBam (s.type part) o := by rwa [h.format.type]
      exact hfreed.outside (p := s.through part) hx'.le hx'.pos ho'
  · have hscratch' : s1.scratch = s.scratch := hbecomes.scratch
    rw [hscratch, hscratch']
    exact h.scratch i hi
  · have hother : s1.through i = s.through i := (congrFun hbecomes.through i).trans (Function.update_of_ne hi _ _)
    have hview := congrArg Partition.image ((congrFun hthrough i).trans hother)
    rw [← h.images i hi]
    exact hview
  · rw [hround]
    dsimp only
    rw [if_neg (not_not.mpr (hfetch.mpr hok))]
  · rw [hround]
    dsimp only
    rw [if_pos fun hzero => hno (hfetch.mp hzero)]

/-- Where the entry has been read, the loop begins. -/
theorem scratchStart_scratching (hs : Coherent s.calm) (hread : (readEntry s part dh).1 = 0)
    (hr : InRange s part dh.track dh.sector) (hentry : dh.entry < 8)
    (hbam : ¬IsBamSector (s.type part) dh.track dh.sector) :
    Scratching s part dh (scratchStart s part dh).2 ∧ (scratchStart s part dh).2.through = s.through := by
  have hio := imageRead_succeeds hread
  have hstate : (scratchStart s part dh).2 = s.nextIo.setScratch
      (Memory.write s.scratch 0 32 fun i => s.image part (entryOffset s part dh + i)) := by
    rw [scratchStart, readEntry, imageRead, hio]
  rw [hstate]
  refine ⟨⟨⟨rfl, hs.maxPart, hs.first.congr rfl rfl, fun b hb => (hs.second b hb).congr rfl rfl, hs.apart⟩,
    (SameFormat.refl s).congr rfl rfl, fun _ _ => rfl, fun i hi => ?_, fun _ _ => rfl⟩, rfl⟩
  have hout := not_inBam_of_valid hr.mounted (x := (dh.track, dh.sector)) hr.valid hbam
    (show dh.entry * 32 + i < 256 by omega)
  rw [← Nat.add_assoc] at hout
  have hview : s.view part (entryOffset s part dh + i) = s.image part (entryOffset s part dh + i) :=
    view_outside hs hout
  have hscratch : Memory.write s.scratch 0 32 (fun i => s.image part (entryOffset s part dh + i)) i =
      s.image part (entryOffset s part dh + i) := Memory.write_zero hi
  exact hscratch.trans hview.symm

theorem readEntry_calm (s : State) (part : ℕ) (dh : D64dh) :
    ∃ error, ((readEntry s part dh).2.setScratch s.scratch).calm = { s.calm with error } := by
  obtain ⟨error, hread⟩ := imageRead_calm s part (entryOffset s part dh) 32 s.scratch
  exact ⟨error, congrArg (fun t : State => t.setScratch s.scratch) hread⟩

theorem readEntry_sameFormat (s : State) (part : ℕ) (dh : D64dh) : SameFormat s (readEntry s part dh).2 := by
  obtain ⟨error, hread⟩ := readEntry_calm s part dh
  have hpartition := congrArg State.partition hread
  have hmax := congrArg State.maxPart hread
  exact (SameFormat.refl s).congr hpartition hmax

/-- The rounds keep the formats of the images, whatever they come to. -/
theorem Comes.format {y : (ℕ → UInt8) × State} (h : Comes s part dh y) : SameFormat s y.2 := by
  obtain ⟨-, n, hplace⟩ := h
  induction n generalizing y with
  | zero =>
    cases hplace
    exact readEntry_sameFormat s part dh
  | succ n ih =>
    obtain ⟨z, hz, hnext⟩ := Option.bind_eq_some_iff.mp hplace
    have hfree := freeSector_sameFormat z.2 part (linked z.1).1 (linked z.1).2
    obtain ⟨-, errorcache, error, hread⟩ := checkedRead_fetches
      (freeSector z.2 part (linked z.1).1 (linked z.1).2).2 part (linked z.1) z.1 2 ERROR_ILLEGAL_TS_LINK
    have hround := ((ih hz).trans hfree).trans (calm_with hread).1
    rw [Walk.rounds, Sum.getRight?_eq_some_iff, deleteRound] at hnext
    split at hnext
    · cases hnext
    · split at hnext
      · cases hnext
        exact hround
      · cases hnext

section

variable (hs : Coherent s.calm) (hr : InRange s part dh.track dh.sector) (hentry : dh.entry < 8)
  (hbam : ¬IsBamSector (s.type part) dh.track dh.sector)
  (hbound : ∀ x, Visits s part dh x → InBuffer s part x.1 x.2)
  (hsafe : ∀ y, Comes s part dh y → FreesSafely y.2 part (linked y.1).1 (linked y.1).2)
include hs hr hentry hbam hbound hsafe

/-- What the rounds keep. -/
theorem comes_rule {I : State → Prop} (hstart : I (scratchStart s part dh).2)
    (hround : ∀ y s', Comes s part dh y → Scratching s part dh y.2 → I y.2 → RoundFrees part y s' → I s')
    {y : (ℕ → UInt8) × State} (hy : Comes s part dh y) : Scratching s part dh y.2 ∧ I y.2 := by
  obtain ⟨hread, n, hplace⟩ := hy
  induction n generalizing y with
  | zero =>
    cases hplace
    exact ⟨(scratchStart_scratching hs hread hr hentry hbam).1, hstart⟩
  | succ n ih =>
    obtain ⟨z, hz, hnext⟩ := Option.bind_eq_some_iff.mp hplace
    have hcomes : Comes s part dh z := ⟨hread, n, hz⟩
    obtain ⟨hst, hI⟩ := ih hz
    obtain ⟨s', buf', hst', hframe, hok, hno⟩ := deleteRound_eq hst (hbound _ ⟨z, hcomes, rfl⟩) (hsafe z hcomes)
    rw [Walk.rounds, Sum.getRight?_eq_some_iff] at hnext
    by_cases hfetch : Fetches (freeSector z.2 part (linked z.1).1 (linked z.1).2).2 part (linked z.1)
    · rw [hok hfetch] at hnext
      split at hnext
      · cases hnext
        exact ⟨hst', hround z s' hcomes hst hI hframe⟩
      · cases hnext
    · rw [hno hfetch] at hnext
      cases hnext

omit hs hr hentry hbam in
/-- The same for the end of the loop. -/
theorem ends_rule {I : State → Prop}
    (hround : ∀ y s', Comes s part dh y → Scratching s part dh y.2 → I y.2 → RoundFrees part y s' → I s')
    {y : (ℕ → UInt8) × State} (hy : Comes s part dh y) (hst : Scratching s part dh y.2) (hI : I y.2) {fuel : ℕ}
    {r : ℕ × State} (hloop : Walk.loop (deleteRound part) fuel y = some r) :
    Scratching s part dh r.2 ∧ I r.2 ∧ (r.1 = 0 ∨ r.1 = 255 ∧ ∃ z, Comes s part dh z ∧
      ¬Fetches (freeSector z.2 part (linked z.1).1 (linked z.1).2).2 part (linked z.1)) := by
  induction fuel generalizing y with
  | zero => cases hloop
  | succ fuel ih =>
    obtain ⟨s', buf', hst', hframe, hok, hno⟩ := deleteRound_eq hst (hbound _ ⟨y, hy, rfl⟩) (hsafe y hy)
    have hI' := hround y s' hy hst hI hframe
    rw [Walk.loop] at hloop
    by_cases hfetch : Fetches (freeSector y.2 part (linked y.1).1 (linked y.1).2).2 part (linked y.1)
    · by_cases hmore : buf' 0 ≠ 0
      · have hnext : deleteRound part y = .inr (buf', s') := (hok hfetch).trans (if_pos hmore)
        rw [hnext] at hloop
        obtain ⟨hread, n, hplace⟩ := hy
        refine ih ⟨hread, n + 1, ?_⟩ hst' hI' hloop
        rw [Walk.place, hplace, Option.bind_some, Walk.rounds, hnext]
        rfl
      · rw [(hok hfetch).trans (if_neg hmore)] at hloop
        cases hloop
        exact ⟨hst', hI', .inl rfl⟩
    · rw [hno hfetch] at hloop
      cases hloop
      exact ⟨hst', hI', .inr ⟨rfl, y, hy, hfetch⟩⟩

omit hs hr hentry hbam hbound hsafe in
theorem RoundFrees.adds {y : (ℕ → UInt8) × State} (h : RoundFrees part y s')
    (hm : (y.2.through part).Mounted) : (y.2.through part).Adds (s'.through part) := by
  rcases h with ⟨-, hsame⟩ | ⟨-, hallocated, hfreed⟩
  · rw [hsame]
    exact Partition.Adds.refl _
  · exact hfreed.grows hm hallocated

omit hs hr hentry hbam in
/-- From the first round on, the BAM only gets more free sectors. -/
theorem adds_to_end (hm : (s.partition part).Mounted) {y : (ℕ → UInt8) × State} (hy : Comes s part dh y)
    (hst : Scratching s part dh y.2) {fuel : ℕ} {r : ℕ × State}
    (hloop : Walk.loop (deleteRound part) fuel y = some r) :
    ∃ s', RoundFrees part y s' ∧ (s'.through part).Adds (r.2.through part) := by
  cases fuel with
  | zero => cases hloop
  | succ fuel =>
    obtain ⟨s', buf', hst', hframe, hok, hno⟩ := deleteRound_eq hst (hbound _ ⟨y, hy, rfl⟩) (hsafe y hy)
    refine ⟨s', hframe, ?_⟩
    rw [Walk.loop] at hloop
    by_cases hmore : Fetches (freeSector y.2 part (linked y.1).1 (linked y.1).2).2 part (linked y.1) ∧ buf' 0 ≠ 0
    · have hnext : deleteRound part y = .inr (buf', s') := (hok hmore.1).trans (if_pos hmore.2)
      rw [hnext] at hloop
      obtain ⟨hread, n, hplace⟩ := hy
      have hcomes : Comes s part dh (buf', s') := by
        refine ⟨hread, n + 1, ?_⟩
        rw [Walk.place, hplace, Option.bind_some, Walk.rounds, hnext]
        rfl
      exact (ends_rule hbound hsafe (I := fun st => (s'.through part).Adds (st.through part))
        (fun z st _ hz hadds hround => hadds.trans (hround.adds (hz.mounted hm))) hcomes hst'
        (Partition.Adds.refl _) hloop).2.1
    · have hend : r.2 = s' := by
        by_cases hfetch : Fetches (freeSector y.2 part (linked y.1).1 (linked y.1).2).2 part (linked y.1)
        · rw [hok hfetch, if_neg fun hne => hmore ⟨hfetch, hne⟩] at hloop
          cases hloop
          rfl
        · rw [hno hfetch] at hloop
          cases hloop
          rfl
      rw [hend]
      exact Partition.Adds.refl _

/-- If the BAM is what it was when the loop ends, no sector has been freed on the way. -/
theorem unfreed_of_unchanged {y : (ℕ → UInt8) × State} (hy : Comes s part dh y) {fuel : ℕ} {r : ℕ × State}
    (hloop : Walk.loop (deleteRound part) fuel y = some r) (hsame : r.2.view part = s.view part) :
    (isFree y.2 part (linked y.1).1 (linked y.1).2).1 ≠ 0 := by
  have hm := hr.mounted
  obtain ⟨hst, hbefore⟩ := comes_rule hs hr hentry hbam hbound hsafe
    (I := fun st => (s.through part).Adds (st.through part))
    (by rw [(scratchStart_scratching hs hy.1 hr hentry hbam).2]; exact Partition.Adds.refl _)
    (fun z st _ hz hadds hround => hadds.trans (hround.adds (hz.mounted hm))) hy
  obtain ⟨s', hround, hafter⟩ := adds_to_end hbound hsafe hm hy hst hloop
  have hback : (r.2.through part).Adds (s.through part) := fun o => by
    rw [show (r.2.through part).image = (s.through part).image from hsame]
  rcases hround with ⟨hne, -⟩ | ⟨-, hallocated, hfreed⟩
  · exact hne
  · exact absurd (hafter.trans (hback.trans hbefore)) (hfreed.not_adds (hst.mounted hm) hallocated)

/-- Where all links can be fetched, the loop frees sectors of the chain and nothing else. -/
theorem freesOnly_of_fetches
    (hfetch : ∀ y, Comes s part dh y → Fetches (freeSector y.2 part (linked y.1).1 (linked y.1).2).2 part (linked y.1))
    (hread : (readEntry s part dh).1 = 0) {fuel : ℕ} {r : ℕ × State}
    (hloop : Walk.loop (deleteRound part) fuel (scratchStart s part dh) = some r) :
    r.1 = 0 ∧ Scratching s part dh r.2 ∧ (s.through part).FreesOnly (r.2.through part) (Visits s part dh) := by
  obtain ⟨hstart, hthrough⟩ := scratchStart_scratching hs hread hr hentry hbam
  have hround : ∀ y s', Comes s part dh y → Scratching s part dh y.2 →
      (s.through part).FreesOnly (y.2.through part) (Visits s part dh) → RoundFrees part y s' →
      (s.through part).FreesOnly (s'.through part) (Visits s part dh) := by
    intro y s' hy hst hfrees hround
    rcases hround with ⟨-, hsame⟩ | ⟨-, -, hfreed⟩
    · rwa [hsame]
    · have hformat := hst.format.trans (freeSector_sameFormat y.2 part (linked y.1).1 (linked y.1).2)
      have hvalid := (hfetch y hy).1
      rw [hformat.type, hformat.lastTrack] at hvalid
      exact hfrees.freed hr.mounted (hst.format.imagetype part) (hst.format.d64data part) ⟨y, hy, rfl⟩ hvalid hfreed
  obtain ⟨hst, hfrees, hcode⟩ := ends_rule hbound hsafe
    (I := fun st => (s.through part).FreesOnly (st.through part) (Visits s part dh)) hround ⟨hread, 0, rfl⟩ hstart
    (by rw [hthrough]; exact Partition.FreesOnly.refl _ _) hloop
  refine ⟨hcode.resolve_right ?_, hst, hfrees⟩
  rintro ⟨-, y, hy, hno⟩
  exact hno (hfetch y hy)

/-- Where no sector is found allocated, the loop changes nothing. -/
theorem unchanged_of_unfreed
    (hunfreed : ∀ y, Comes s part dh y → (isFree y.2 part (linked y.1).1 (linked y.1).2).1 ≠ 0)
    (hread : (readEntry s part dh).1 = 0) {fuel : ℕ} {r : ℕ × State}
    (hloop : Walk.loop (deleteRound part) fuel (scratchStart s part dh) = some r) :
    (r.1 = 0 ∨ r.1 = 255) ∧ Scratching s part dh r.2 ∧ r.2.through part = s.through part := by
  obtain ⟨hstart, hthrough⟩ := scratchStart_scratching hs hread hr hentry hbam
  have hround : ∀ y s', Comes s part dh y → Scratching s part dh y.2 → y.2.through part = s.through part →
      RoundFrees part y s' → s'.through part = s.through part := by
    intro y s' hy _ hbefore hround
    rcases hround with ⟨-, hsame⟩ | ⟨hzero, -, -⟩
    · exact hsame.trans hbefore
    · exact absurd hzero (hunfreed y hy)
  obtain ⟨hst, hsame, hcode⟩ := ends_rule hbound hsafe (I := fun st => st.through part = s.through part) hround
    ⟨hread, 0, rfl⟩ hstart (congrFun hthrough part) hloop
  exact ⟨hcode.imp_right And.left, hst, hsame⟩

end

/-! ### The directory entry -/

/-- What a write leaves: its data, or the junk of a write that fails. -/
theorem imageWrite_stored (s : State) (part off n : ℕ) (data : ℕ → UInt8) :
    ((imageWrite s part off n data).1 = 0 ↔ s.io 0 = .ok) ∧ ∃ error, (imageWrite s part off n data).2.calm =
      { (imageWrite s.calm part off n ((s.io 0).junk?.getD data)).2 with error } := by
  refine ⟨⟨imageWrite_succeeds, fun hok => by rw [imageWrite, hok]⟩, ?_⟩
  cases hio : s.io 0 with
  | ok => exact ⟨s.error, by rw [imageWrite, imageWrite, hio]; rfl⟩
  | short junk => exact ⟨s.error, by rw [imageWrite, imageWrite, hio]; rfl⟩
  | failed error junk => exact ⟨error, by rw [imageWrite, imageWrite, hio]; rfl⟩

/-- The entry is written back with another type; a write that fails leaves what it leaves in its place. -/
theorem writeEntry_bytes (hst : Scratching s₀ part dh s) (hr : InRange s₀ part dh.track dh.sector)
    (hentry : dh.entry < 8) (hbam : ¬IsBamSector (s₀.type part) dh.track dh.sector) :
    ∃ code s', writeEntry (s.setScratch (Function.update s.scratch DIR_OFS_FILE_TYPE 0)) part dh = (code, s') ∧
      (code = 0 ↔ s.io 0 = .ok) ∧ SameFormat s₀ s' ∧ s'.view = Function.update s.view part (Memory.write (s.view part)
        (entryOffset s₀ part dh) 32 ((s.io 0).junk?.getD (Function.update s.scratch DIR_OFS_FILE_TYPE 0))) := by
  have hset : SameFormat s (s.calm.setScratch (Function.update s.scratch DIR_OFS_FILE_TYPE 0)) :=
    (SameFormat.refl s).congr rfl rfl
  have hco : Coherent (s.calm.setScratch (Function.update s.scratch DIR_OFS_FILE_TYPE 0)) :=
    ⟨hst.coherent.noFault, hst.coherent.maxPart, hst.coherent.first.congr rfl rfl,
      fun b hb => (hst.coherent.second b hb).congr rfl rfl, hst.coherent.apart⟩
  have hr' : InRange (s.calm.setScratch (Function.update s.scratch DIR_OFS_FILE_TYPE 0)) part dh.track dh.sector :=
    (hr.sameFormat hst.format).sameFormat hset
  have hbam' : ¬IsBamSector (s.type part) dh.track dh.sector := by rwa [hst.format.type]
  have hoff : s.offset part dh.track dh.sector + dh.entry * 32 = entryOffset s₀ part dh := by
    rw [hst.format.offset]
    rfl
  obtain ⟨s1, hwrite, hbecomes⟩ := imageWrite_becomes hco hr'
    ((s.io 0).junk?.getD (Function.update s.scratch DIR_OFS_FILE_TYPE 0)) (show dh.entry * 32 + 32 ≤ 256 by omega)
    fun b hb hhold => absurd hhold (hco.not_holds hr' hbam' hb)
  obtain ⟨hcode, error, hcalm⟩ := imageWrite_stored (s.setScratch (Function.update s.scratch DIR_OFS_FILE_TYPE 0)) part
    (entryOffset s₀ part dh) 32 (Function.update s.scratch DIR_OFS_FILE_TYPE 0)
  have hplace : entryOffset (s.setScratch (Function.update s.scratch DIR_OFS_FILE_TYPE 0)) part dh =
      entryOffset s₀ part dh := hoff
  have hwrite' : imageWrite (s.setScratch (Function.update s.scratch DIR_OFS_FILE_TYPE 0)).calm part
      (entryOffset s₀ part dh) 32 ((s.io 0).junk?.getD (Function.update s.scratch DIR_OFS_FILE_TYPE 0)) = (0, s1) := by
    rw [← hoff]
    exact hwrite
  have hcalm' := hcalm.trans (congrArg (fun w : ℕ × State => { w.2 with error }) hwrite')
  refine ⟨_, _, rfl, ?_, ?_, ?_⟩
  · rw [← hplace] at hcode
    exact hcode
  · rw [← hplace] at hcalm'
    have hformat : SameFormat s₀ { s1 with error } :=
      (hst.format.trans (hset.trans hbecomes.toSameFormat)).congr rfl rfl
    have hpartition := congrArg State.partition hcalm'
    have hmax := congrArg State.maxPart hcalm'
    exact hformat.congr hpartition hmax
  · rw [← hplace] at hcalm'
    have hview := congrArg State.view hcalm'
    have hseen : s1.view = _ := hbecomes.view
    refine (Eq.trans hview hseen).trans ?_
    rw [← hoff]
    rfl

/-- The entry that the loop leaves in the buffer is the one on the disk. -/
theorem Scratching.entry_eq (hst : Scratching s₀ part dh s) (hr : InRange s₀ part dh.track dh.sector)
    (hentry : dh.entry < 8) (hbam : ¬IsBamSector (s₀.type part) dh.track dh.sector) {i : ℕ} (hi : i < 32) :
    s.view part (entryOffset s₀ part dh + i) = s.scratch i := by
  have hout := not_inBam_of_valid hr.mounted (x := (dh.track, dh.sector)) hr.valid hbam
    (show dh.entry * 32 + i < 256 by omega)
  rw [← Nat.add_assoc] at hout
  rw [hst.scratch i hi]
  exact hst.outside _ hout

/-! ### The call -/

/-- The call changes the type of the file, and in the BAM the bits and counters of sectors that are on
its chain and on the disk. -/
structure ScratchesOnly (s s' : State) (part : ℕ) (dh : D64dh) : Prop where
  images : ∀ i, i ≠ part → s'.view i = s.view i
  bytes : ∀ o, s'.view part o ≠ s.view part o → o = entryOffset s part dh + DIR_OFS_FILE_TYPE ∨
    ∃ x, Visits s part dh x ∧ (s.through part).Valid x.1 x.2 ∧
      (o = (s.through part).bitAddress x.1 x.2 ∨
        ¬(s.through part).isDnp = true ∧ o = (s.through part).bamAddress x.1 .freecount)
  bits : ∀ t q, (s.through part).Valid t q → ¬Visits s part dh (t, q) →
    (s'.through part).isFree t q = (s.through part).isFree t q

/-- `d64_delete` keeps to the file: it stays inside the BAM buffers, changes only what belongs to the
file, and nothing when it fails. -/
structure Scratches (s : State) (part : ℕ) (dh : D64dh) : Prop where
  bounded : ∀ x, Visits s part dh x → InBuffer s part x.1 x.2
  only : ∀ fuel code s', d64Delete fuel part dh s = some (code, s') → ScratchesOnly s s' part dh
  failed : ∀ fuel s', d64Delete fuel part dh s = some (255, s') → s'.view = s.view

theorem ScratchesOnly.of_view (hview : s'.view = s.view) (hformat : SameFormat s s') : ScratchesOnly s s' part dh := by
  refine ⟨fun i _ => congrFun hview i, fun o hne => absurd (congrFun (congrFun hview part) o) hne, fun t q _ _ => ?_⟩
  exact Partition.isFree_congr (show (s'.through part).image = (s.through part).image from congrFun hview part)
    (hformat.imagetype part) t q

/-- The result of `d64_delete` behind its loop. -/
theorem d64Delete_eq (hread : (readEntry s part dh).1 = 0) (fuel : ℕ) :
    d64Delete fuel part dh s =
      (Walk.loop (deleteRound part) fuel (scratchStart s part dh)).map fun r =>
        if r.1 ≠ 0 then (255, r.2)
        else
          let w := writeEntry (r.2.setScratch (Function.update r.2.scratch DIR_OFS_FILE_TYPE 0)) part dh
          (if w.1 ≠ 0 then 255 else 1, w.2) := by
  rw [d64Delete]
  dsimp only
  rw [if_neg (not_not.mpr hread), scratchStart]
  cases Walk.loop (deleteRound part) fuel _ with
  | none => rfl
  | some r =>
    dsimp only [Option.map]
    split <;> rfl

theorem scratchesOnly_of_view {chain : State} (hr : InRange s part dh.track dh.sector)
    (hst : Scratching s part dh chain)
    (hfrees : (s.through part).FreesOnly (chain.through part) (Visits s part dh)) (hentry : dh.entry < 8)
    (hbam : ¬IsBamSector (s.type part) dh.track dh.sector) (hformat : SameFormat s s')
    (hview : s'.view = Function.update chain.view part
      (Function.update (chain.view part) (entryOffset s part dh + DIR_OFS_FILE_TYPE) 0)) :
    ScratchesOnly s s' part dh := by
  have hself : s'.view part = Function.update (chain.view part) (entryOffset s part dh + DIR_OFS_FILE_TYPE) 0 := by
    rw [hview, Function.update_self]
  refine ⟨fun i hi => ?_, fun o ho => ?_, fun t q hv hnot => ?_⟩
  · rw [hview, Function.update_of_ne hi, hst.images i hi]
  · by_cases heq : o = entryOffset s part dh + DIR_OFS_FILE_TYPE
    · exact .inl heq
    · rw [hself, Function.update_of_ne heq] at ho
      exact .inr (hfrees.bytes o ho)
  · rw [← hfrees.bits t q hv hnot]
    -- the bit is in a BAM sector, the type is not
    have hne : (s.through part).bitAddress t q ≠ entryOffset s part dh + DIR_OFS_FILE_TYPE := by
      intro heq
      have hout := not_inBam_of_valid hr.mounted (x := (dh.track, dh.sector)) hr.valid hbam
        (show dh.entry * 32 + DIR_OFS_FILE_TYPE < 256 by rw [DIR_OFS_FILE_TYPE]; omega)
      have hin : InBam (s.type part) ((s.through part).bitAddress t q) :=
        Partition.bamAddress_inBam (p := s.through part) (hv.2.1.trans hr.mounted.lastTrack_le)
          (bamPosition_bitfield hr.mounted hv)
      rw [heq, entryOffset, Nat.add_assoc] at hin
      exact hout hin
    have htype : (chain.through part).imagetype = (s.through part).imagetype := hst.format.imagetype part
    have htype' : (s'.through part).imagetype = (s.through part).imagetype := hformat.imagetype part
    have hbyte : (s'.through part).image ((s.through part).bitAddress t q) =
        (chain.through part).image ((s.through part).bitAddress t q) := by
      rw [show (s'.through part).image = s'.view part from rfl, hself, Function.update_of_ne hne]
      rfl
    rw [Partition.bitAddress, Partition.bamAddress] at hbyte
    rw [Partition.isFree, Partition.isFree, Partition.bitAddress, Partition.bitAddress, Partition.bamAddress,
      Partition.bamAddress, Partition.isDnp, Partition.isDnp, htype, htype', hbyte]

/-- A call whose entry cannot be read changes nothing. -/
theorem scratches_of_unread (hread : (readEntry s part dh).1 ≠ 0) : Scratches s part dh := by
  have hrun : ∀ fuel code s', d64Delete fuel part dh s = some (code, s') → s' = (readEntry s part dh).2 := by
    intro fuel code s' hdelete
    rw [d64Delete] at hdelete
    dsimp only at hdelete
    rw [if_pos hread] at hdelete
    cases hdelete
    rfl
  have hview : (readEntry s part dh).2.view = s.view := by
    obtain ⟨error, hcalm⟩ := readEntry_calm s part dh
    have hview := congrArg State.view hcalm
    exact hview
  refine ⟨?_, fun fuel code s' hdelete => ?_, fun fuel s' hdelete => ?_⟩
  · rintro _ ⟨y, ⟨hok, -⟩, -⟩
    exact absurd hok hread
  · rw [hrun _ _ _ hdelete]
    exact ScratchesOnly.of_view hview (readEntry_sameFormat s part dh)
  · rw [hrun _ _ _ hdelete]
    exact hview

section

variable (hs : Coherent s.calm) (hr : InRange s part dh.track dh.sector) (hentry : dh.entry < 8)
  (hbam : ¬IsBamSector (s.type part) dh.track dh.sector)
  (hsafe : ∀ y, Comes s part dh y → FreesSafely y.2 part (linked y.1).1 (linked y.1).2)
include hs hr hentry hbam hsafe

/-- A call that fails for a link, and leaves the image as it was, finds no allocated sector. -/
theorem unfreed_of_bad (h : Scratches s part dh) {y z : (ℕ → UInt8) × State} (hy : Comes s part dh y)
    (hbad : ¬Fetches (freeSector y.2 part (linked y.1).1 (linked y.1).2).2 part (linked y.1))
    (hz : Comes s part dh z) :
    (isFree z.2 part (linked z.1).1 (linked z.1).2).1 ≠ 0 ∧ ∀ st, ¬EndsIn s part dh st := by
  obtain ⟨hst, -⟩ := comes_rule hs hr hentry hbam h.bounded hsafe (I := fun _ => True) trivial
    (fun _ _ _ _ _ _ => trivial) hy
  obtain ⟨s', buf', -, -, -, hno⟩ := deleteRound_eq hst (h.bounded _ ⟨y, hy, rfl⟩) (hsafe y hy)
  obtain ⟨hread, n, hplace⟩ := hy
  have hend : Walk.rounds (deleteRound part) y = none := by
    rw [Walk.rounds, hno hbad]
    rfl
  have hlast : Walk.loop (deleteRound part) 1 y = some (255, s') := by
    rw [Walk.loop, hno hbad]
  have hloop : Walk.loop (deleteRound part) (n + 1) (scratchStart s part dh) = some (255, s') := by
    rw [Walk.loop_of_place hplace]
    exact hlast
  have hview : s'.view = s.view := by
    refine h.failed (n + 1) s' ?_
    rw [d64Delete_eq hread, hloop]
    rfl
  refine ⟨?_, fun st hst => ?_⟩
  · obtain ⟨-, m, hm⟩ := hz
    have hle : m ≤ n := by
      by_contra hlt
      rw [Walk.place_of_end hplace hend (by omega)] at hm
      cases hm
    have hrest : Walk.loop (deleteRound part) (n - m + 1) z = some (255, s') := by
      rw [← Walk.loop_of_place hm, show m + (n - m + 1) = n + 1 by omega]
      exact hloop
    exact unfreed_of_unchanged hs hr hentry hbam h.bounded hsafe ⟨hread, m, hm⟩ hrest (congrFun hview part)
  · obtain ⟨-, fuel, hfuel⟩ := hst
    cases Walk.loop_unique hloop hfuel

/-- A call whose last write fails, and that leaves the image as it was, finds no allocated sector. -/
theorem unfreed_of_failed (h : Scratches s part dh) {st : State} (hend : EndsIn s part dh st) (hfail : st.io 0 ≠ .ok)
    {z : (ℕ → UInt8) × State} (hz : Comes s part dh z) :
    (isFree z.2 part (linked z.1).1 (linked z.1).2).1 ≠ 0 ∧ ∀ st', EndsIn s part dh st' → ∀ junk,
      (st'.io 0).junk? = some junk → ∀ i < 32, junk i = st'.scratch i := by
  obtain ⟨hread, fuel, hloop⟩ := hend
  obtain ⟨hstart, -⟩ := scratchStart_scratching hs hread hr hentry hbam
  obtain ⟨hst, -⟩ := ends_rule h.bounded hsafe (I := fun _ => True) (fun _ _ _ _ _ _ => trivial)
    ⟨hread, 0, rfl⟩ hstart trivial hloop
  dsimp only at hst
  obtain ⟨code, s', hwrite, hcode, -, hview⟩ := writeEntry_bytes hst hr hentry hbam
  have hsame : s'.view = s.view := by
    refine h.failed fuel s' ?_
    rw [d64Delete_eq hread, hloop, Option.map_some]
    dsimp only
    rw [if_neg (not_not.mpr rfl), hwrite, if_pos fun hzero => hfail (hcode.mp hzero)]
  obtain ⟨junk, hjunk⟩ := Option.ne_none_iff_exists'.mp fun hnone => hfail (Io.junk?_eq_none.mp hnone)
  rw [hjunk, Option.getD_some] at hview
  -- what the write has left is what was there, so the loop has left the image as it was
  have hbytes : ∀ o, Memory.write (st.view part) (entryOffset s part dh) 32 junk o = s.view part o := by
    intro o
    rw [← hsame, hview, Function.update_self]
  have hentryBytes : ∀ i < 32, junk i = st.scratch i := by
    intro i hi
    rw [hst.scratch i hi, ← hbytes, Memory.write_inside hi]
  have hback : st.view part = s.view part := by
    funext o
    rw [← hbytes o, Memory.write_same fun i hi => ?_]
    rw [hentryBytes i hi, hst.entry_eq hr hentry hbam hi]
  refine ⟨?_, fun st' hend' junk' hjunk' => ?_⟩
  · obtain ⟨-, m, hm⟩ := hz
    have hrest : ∃ fuel', Walk.loop (deleteRound part) fuel' z = some (0, st) := by
      refine ⟨fuel, ?_⟩
      have hlong := Walk.loop_mono hloop (show fuel ≤ m + fuel by omega)
      rwa [Walk.loop_of_place hm] at hlong
    obtain ⟨fuel', hrest⟩ := hrest
    exact unfreed_of_unchanged hs hr hentry hbam h.bounded hsafe ⟨hread, m, hm⟩ hrest hback
  · obtain ⟨-, fuel', hloop'⟩ := hend'
    cases Walk.loop_unique hloop hloop'
    rw [hjunk] at hjunk'
    cases hjunk'
    exact hentryBytes

/-- Whatever accesses fail, as long as no BAM buffer loses its sector by it: `d64_delete` keeps to the
file exactly if it gets every link that it comes to and writes the entry back, or if it finds no
sector allocated, and the entry is not harmed. -/
theorem scratches_iff : Scratches s part dh ↔
    ((∀ y, Comes s part dh y → Fetches (freeSector y.2 part (linked y.1).1 (linked y.1).2).2 part (linked y.1)) ∧
      ∀ st, EndsIn s part dh st → st.io 0 = .ok) ∨
    ((∀ y, Comes s part dh y → InBuffer s part (linked y.1).1 (linked y.1).2 ∧
        (isFree y.2 part (linked y.1).1 (linked y.1).2).1 ≠ 0) ∧
      ∀ st, EndsIn s part dh st → ∀ junk, (st.io 0).junk? = some junk → ∀ i < 32, junk i = st.scratch i) := by
  constructor
  · intro h
    by_cases hfetch : ∀ y, Comes s part dh y →
        Fetches (freeSector y.2 part (linked y.1).1 (linked y.1).2).2 part (linked y.1)
    · by_cases hwrite : ∀ st, EndsIn s part dh st → st.io 0 = .ok
      · exact .inl ⟨hfetch, hwrite⟩
      · push Not at hwrite
        obtain ⟨st, hend, hfail⟩ := hwrite
        have hunfreed := fun z hz => unfreed_of_failed hs hr hentry hbam hsafe h hend hfail (z := z) hz
        exact .inr ⟨fun z hz => ⟨h.bounded _ ⟨z, hz, rfl⟩, (hunfreed z hz).1⟩,
          (hunfreed (scratchStart s part dh) ⟨hend.1, 0, rfl⟩).2⟩
    · push Not at hfetch
      obtain ⟨y, hy, hbad⟩ := hfetch
      have hunfreed := fun z hz => unfreed_of_bad hs hr hentry hbam hsafe h hy hbad (z := z) hz
      exact .inr ⟨fun z hz => ⟨h.bounded _ ⟨z, hz, rfl⟩, (hunfreed z hz).1⟩,
        fun st hend => absurd hend ((hunfreed y hy).2 st)⟩
  · intro hcond
    by_cases hread : (readEntry s part dh).1 = 0
    swap
    · exact scratches_of_unread hread
    have hbound : ∀ x, Visits s part dh x → InBuffer s part x.1 x.2 := by
      rintro _ ⟨y, hy, rfl⟩
      rcases hcond with ⟨hfetch, -⟩ | ⟨hunfreed, -⟩
      · have hformat := hy.format.trans (freeSector_sameFormat y.2 part (linked y.1).1 (linked y.1).2)
        have hvalid := (hfetch y hy).1
        rw [hformat.type, hformat.lastTrack] at hvalid
        exact InRange.inBuffer ⟨hr.lt, hr.mounted, hvalid⟩
      · exact (hunfreed y hy).1
    have hresult : ∀ fuel code s', d64Delete fuel part dh s = some (code, s') →
        ScratchesOnly s s' part dh ∧ (code = 255 → s'.view = s.view) := by
      intro fuel code s' hrun
      rw [d64Delete_eq hread, Option.map_eq_some_iff] at hrun
      obtain ⟨⟨code', st⟩, hloop, hresult⟩ := hrun
      -- either way the entry is written when the loop ends well, and otherwise nothing has changed
      have hend : Scratching s part dh st ∧ (s.through part).FreesOnly (st.through part) (Visits s part dh) ∧
          (code' = 0 ∧ ((st.io 0 = .ok) ∨ st.view = s.view ∧ ∀ junk, (st.io 0).junk? = some junk →
            ∀ i < 32, junk i = st.scratch i) ∨ code' = 255 ∧ st.view = s.view) := by
        rcases hcond with ⟨hfetch, hwrite⟩ | ⟨hunfreed, hleaves⟩
        · obtain ⟨hcode, hst, hfrees⟩ := freesOnly_of_fetches hs hr hentry hbam hbound hsafe hfetch hread hloop
          cases hcode
          exact ⟨hst, hfrees, .inl ⟨rfl, .inl (hwrite st ⟨hread, fuel, hloop⟩)⟩⟩
        · obtain ⟨hcode, hst, hsame⟩ := unchanged_of_unfreed hs hr hentry hbam hbound hsafe
            (fun y hy => (hunfreed y hy).2) hread hloop
          dsimp only at hcode hst hsame
          have hview : st.view = s.view := by
            funext i
            by_cases hi : i = part
            · subst hi
              exact congrArg Partition.image hsame
            · exact hst.images i hi
          refine ⟨hst, by rw [hsame]; exact Partition.FreesOnly.refl _ _, ?_⟩
          rcases hcode with rfl | rfl
          · exact .inl ⟨rfl, .inr ⟨hview, hleaves st ⟨hread, fuel, hloop⟩⟩⟩
          · exact .inr ⟨rfl, hview⟩
      obtain ⟨hst, hfrees, hcode⟩ := hend
      rcases hcode with ⟨rfl, hwrite⟩ | ⟨rfl, hview⟩
      · obtain ⟨code'', s'', hwritten, hok, hformat, hview⟩ := writeEntry_bytes hst hr hentry hbam
        rw [if_neg (not_not.mpr rfl), hwritten] at hresult
        cases hresult
        cases hjunk : (st.io 0).junk? with
        | none =>
          rw [hjunk, Option.getD_none, Memory.write_update (by decide),
            Memory.write_same fun i hi => (hst.entry_eq hr hentry hbam hi).symm] at hview
          rw [if_neg (not_not.mpr (hok.mpr (Io.junk?_eq_none.mp hjunk)))]
          exact ⟨scratchesOnly_of_view hr hst hfrees hentry hbam hformat hview, fun hcode => by cases hcode⟩
        | some junk =>
          have hfail : ¬st.io 0 = .ok := by
            intro hio
            rw [hio] at hjunk
            cases hjunk
          obtain ⟨hbefore, hleaves⟩ := hwrite.resolve_left hfail
          rw [hjunk, Option.getD_some, Memory.write_same fun i hi => (hleaves junk hjunk i hi).trans
            (hst.entry_eq hr hentry hbam hi).symm, Function.update_eq_self, hbefore] at hview
          exact ⟨ScratchesOnly.of_view hview hformat, fun _ => hview⟩
      · rw [if_pos (show (255 : ℕ) ≠ 0 by decide)] at hresult
        cases hresult
        exact ⟨ScratchesOnly.of_view hview hst.format, fun _ => hview⟩
    exact ⟨hbound, fun fuel code s' hrun => (hresult fuel code s' hrun).1,
      fun fuel s' hrun => (hresult fuel 255 s' hrun).2 rfl⟩

end

/-- A D41 image with one file of one sector, 17/0, and the second access, the read of the BAM, fails. -/
def unreadBam : State where
  partition _ := ⟨⟨.d41, false⟩, d41param, fun o => if o = 91650 then 0x82 else if o = 91651 then 17 else 0, true⟩
  maxPart := 1
  bamBuffer := ⟨255, 0, 0, false, fun _ => 0, 0⟩
  bamBuffer2 := none
  errorcache := ⟨255, 0, fun _ => 0⟩
  scratch _ := 0
  error := ⟨0, 0, 0⟩
  io n := if n = 1 then .failed ⟨23, 0, 0⟩ fun _ => 0 else .ok
  sysFree _ := none

theorem unreadBam_coherent : Coherent unreadBam.calm :=
  (⟨rfl, by decide, ⟨rfl, rfl⟩, by rintro _ ⟨⟩⟩ : Started unreadBam.calm).coherent

/-- There the loop has one round. -/
theorem unreadBam_comes {y : (ℕ → UInt8) × State} (h : Comes unreadBam 0 ⟨18, 1, 0⟩ y) :
    y = scratchStart unreadBam 0 ⟨18, 1, 0⟩ := by
  obtain ⟨-, n, hplace⟩ := h
  cases n with
  | zero => exact (Option.some.inj hplace).symm
  | succ n =>
    have hend : Walk.rounds (deleteRound 0) (scratchStart unreadBam 0 ⟨18, 1, 0⟩) = none := rfl
    rw [Walk.place_of_end (show Walk.place _ _ 0 = _ from rfl) hend (Nat.succ_pos n)] at hplace
    cases hplace

/-- The witness of `scratches_iff`: the sector stays allocated, and the entry loses its type. -/
theorem unreadBam_scratches : Scratches unreadBam 0 ⟨18, 1, 0⟩ := by
  refine (scratches_iff unreadBam_coherent ⟨by decide, ⟨174848, [], by decide⟩, by decide⟩ (by decide)
    (by rintro ⟨-, ⟨⟩⟩) fun y hy => ?_).mpr (.inl ⟨fun y hy => ?_, fun st hend => ?_⟩)
  · rw [unreadBam_comes hy]
    exact ⟨.inr (.inr ⟨fun hwrites => absurd hwrites (by decide), fun _ _ => .inl rfl⟩),
      fun hzero => absurd hzero (by decide)⟩
  · rw [unreadBam_comes hy]
    exact ⟨by decide, by decide, rfl⟩
  · obtain ⟨-, fuel, hloop⟩ := hend
    have hone : ∃ s', Walk.loop (deleteRound 0) 1 (scratchStart unreadBam 0 ⟨18, 1, 0⟩) = some (0, s') ∧
        s'.io 0 = .ok :=
      ⟨_, rfl, rfl⟩
    obtain ⟨s', hone, hio⟩ := hone
    cases Walk.loop_unique hone hloop
    exact hio

/-- A D41 image with one file, whose only sector 17/0 has a link to track 99. -/
def badLink : State where
  partition _ := ⟨⟨.d41, false⟩, d41param, fun o =>
    if o = 91650 then 0x82 else if o = 91651 then 17 else if o = 86016 then 99 else 0, true⟩
  maxPart := 1
  bamBuffer := ⟨255, 0, 0, false, fun _ => 0, 0⟩
  bamBuffer2 := none
  errorcache := ⟨255, 0, fun _ => 0⟩
  scratch _ := 0
  error := ⟨0, 0, 0⟩
  io _ := .ok
  sysFree _ := none

/-- There `d64_delete` fails, and leaves the sector 17/0 marked as free. -/
theorem badLink_not_scratches : ¬Scratches badLink 0 ⟨18, 1, 0⟩ := by
  intro h
  have hrun : ((d64Delete 2 0 ⟨18, 1, 0⟩ badLink).map fun r => (r.1, r.2.view 0 91461)) = some (255, 1) := by
    decide +kernel
  obtain ⟨⟨code, s'⟩, hdelete, hr⟩ := Option.map_eq_some_iff.mp hrun
  simp only [Prod.mk.injEq] at hr
  obtain ⟨rfl, hbyte⟩ := hr
  rw [h.failed 2 s' hdelete] at hbyte
  exact absurd hbyte (by decide)

end NoDiskEmu.Dxx
