import NoDiskEmu.Dxx.Next

/-! Which sector `get_first_sector` finds for a new file. -/

namespace NoDiskEmu.Dxx

open Library

variable {s s₀ : State} {part track sector : ℕ}

/-- A number in an `int8_t`. -/
def int8 (x : ℤ) : ℤ := (x + 128) % 256 - 128

/-- `DIR_TRACK - distance` in a byte. -/
def awayTrack (dir : ℕ) (distance : ℤ) : ℕ := ((dir - distance) % 256).toNat

/-- The track loop of `get_first_sector`: the distance from the directory track changes its sign each
time and grows every second time. -/
def distanceRound (part : ℕ) (x : ℤ × State) : ℤ × State ⊕ ℤ × State :=
  if x.1 < (x.2.param part).lastTrack then
    let f := sectorsFree x.2 part (awayTrack (x.2.param part).dirTrack x.1)
    if f.1 ≠ 0 then .inl (x.1, f.2)
    else
      let distance := int8 (-x.1)
      .inr (if distance > 0 then int8 (distance + 1) else distance, f.2)
  else .inl x

/-- The sector loop of `get_first_sector`, with the result code and `*sector`. -/
def firstSectorRound (part track : ℕ) (x : ℕ × State) : ℕ × ℕ × State ⊕ ℕ × State :=
  if x.1 < sectorsPerTrack (x.2.type part) track then
    let f := isFree x.2 part track x.1
    if f.1 > 0 then .inl (0, x.1, f.2) else .inr ((x.1 + 1) % 256, f.2)
  else .inl (1, x.1, diskFull x.2)

/-- The sector search of `get_first_sector`. -/
def firstSector (fuel part track : ℕ) (s : State) : Option (ℕ × ℕ × ℕ × State) :=
  match Walk.loop (firstSectorRound part track) fuel (0, s) with
  | none => none
  | some (code, sector, s) => some (code, track, sector, s)

/-- `get_first_sector`: the result code, `*track` and `*sector` afterwards, and the state. On a DNP
image the track loop is the one of `get_next_sector` from track 2. -/
def getFirstSector (fuel part track sector : ℕ) (s : State) : Option (ℕ × ℕ × ℕ × State) :=
  if s.isDnp part then
    match Walk.loop (dnpTrackRound part 2) fuel (2, s) with
    | none => none
    | some (none, s) => some (1, 2, sector, s)
    | some (some newtrack, s) => firstSector fuel part newtrack s
  else
    match Walk.loop (distanceRound part) fuel (1, s) with
    | none => none
    | some (distance, s) =>
      if distance = (s.param part).lastTrack then some (1, track, sector, diskFull s)
      else firstSector fuel part (awayTrack (s.param part).dirTrack distance) s

/-- The tracks that `d64_freeblocks` leaves out. -/
def skipsTrack (type : DxxType) (i : ℕ) : Bool :=
  match type with
  | .d81 => i = 40
  | .dnp => false
  | .d41 | .d71 | .none => i = 18 || i = 53
  | .d80 | .d82 => i = 39

/-- The count of a track in `d64_freeblocks`. The first 64 sectors of a DNP image do not count. -/
def freeblocksStep (part : ℕ) (x : ℕ × State) (i : ℕ) : ℕ × State :=
  if skipsTrack (x.2.type part) i then x
  else if x.2.type part = .dnp ∧ i = 1 then
    (List.range' 64 192).foldl (fun x j =>
      let f := isFree x.2 part 1 j
      (if f.1 > 0 then (x.1 + 1) % 65536 else x.1, f.2)) x
  else
    let f := sectorsFree x.2 part i
    ((x.1 + f.1) % 65536, f.2)

/-- `d64_freeblocks`. -/
def d64Freeblocks (part : ℕ) (s : State) : ℕ × State :=
  (List.range' 1 (s.lastTrack part)).foldl (freeblocksStep part) (0, s)

/-! ### The sector search -/

/-- The sector search finds the first free sector of a track that has one. -/
theorem firstSector_finds (h : Searching s₀ s) (hlt : part < s₀.maxPart)
    (hm : (s₀.partition part).Mounted) (hfree : (s₀.through part).HasFree track) :
    ∃ fuel q s', firstSector fuel part track s = some (0, track, q, s') ∧ Searching s₀ s' ∧
      (s₀.through part).Valid track q ∧ (s₀.through part).isFree track q = true := by
  obtain ⟨q, hq, hbit⟩ := hfree
  have hqn : q < sectorsPerTrack (s₀.type part) track := hq.2.2
  have hq256 : q < 256 := by
    have hle := sectorsPerTrack_le (s₀.type part) track
    cases htype : s₀.type part <;> simp only [htype] at hle hqn <;> omega
  have hfinds : ∃ fuel r, Walk.loop (firstSectorRound part track) fuel (0, s) = some r ∧ r.1 = 0 ∧
      Searching s₀ r.2.2 ∧ (s₀.through part).Valid track r.2.1 ∧
      (s₀.through part).isFree track r.2.1 = true := by
    refine Walk.exists_loop (I := fun y => y.1 ≤ q ∧ Searching s₀ y.2) (fun y => q - y.1)
      (fun y hy => ?_) ⟨Nat.zero_le q, h⟩
    obtain ⟨x, s⟩ := y
    obtain ⟨hx, hsearch⟩ := hy
    dsimp only at hx hsearch
    have hvalid : (s₀.through part).Valid track x := ⟨hq.1, hq.2.1, hx.trans_lt hqn⟩
    obtain ⟨s', hisfree, hsearch'⟩ := hsearch.isFree ⟨hlt, hm, hvalid⟩
    rw [firstSectorRound, hsearch.keeps.type, if_pos (hx.trans_lt hqn), hisfree]
    by_cases hxfree : (s₀.through part).isFree track x = true
    · refine .inl ⟨(0, x, s'), ?_, rfl, hsearch', hvalid, hxfree⟩
      dsimp only
      rw [if_pos hxfree, if_pos (by decide)]
    · have hne : x ≠ q := fun heq => hxfree (heq ▸ hbit)
      refine .inr ⟨(x + 1, s'), ?_, ⟨by dsimp only; omega, hsearch'⟩, by dsimp only; omega⟩
      dsimp only
      rw [if_neg hxfree, if_neg (by decide), show (x + 1) % 256 = x + 1 by omega]
  obtain ⟨fuel, ⟨code, q', s'⟩, hloop, hcode, hsearch, hvalid, hfree⟩ := hfinds
  dsimp only at hcode
  subst hcode
  exact ⟨fuel, q', s', by rw [firstSector, hloop], hsearch, hvalid, hfree⟩

theorem firstSector_mono {fuel fuel' : ℕ} {r : ℕ × ℕ × ℕ × State}
    (h : firstSector fuel part track s = some r) (hle : fuel ≤ fuel') :
    firstSector fuel' part track s = some r := by
  rw [firstSector] at h ⊢
  cases hloop : Walk.loop (firstSectorRound part track) fuel (0, s) with
  | none =>
    rw [hloop] at h
    cases h
  | some r' =>
    rw [hloop] at h
    rw [Walk.loop_mono hloop hle]
    exact h

/-! ### The track search away from the directory -/

/-- The tracks away from the directory track, and how far they are from it. -/
def distance (p : Partition) (t : ℕ) : ℕ := ((p.d64data.dirTrack : ℤ) - t).natAbs

/-- The directory track is nearer to the ends of the disk than an `int8_t` reaches. -/
theorem Partition.Mounted.near {p : Partition} (h : p.Mounted) (hdnp : ¬p.isDnp = true) :
    p.d64data.lastTrack ≤ p.d64data.dirTrack + 115 ∧
      (p.imagetype.type ≠ .d82 → p.d64data.lastTrack ≤ 127) ∧
      (p.imagetype.type = .d82 → p.d64data.lastTrack = 154) := by
  obtain ⟨fsize, name, hformat⟩ := h
  rcases imageFormat_cases hformat with hmem | ⟨-, hit, -⟩
  · have hall : ∀ f ∈ fixedFormats, f.2.2.lastTrack ≤ f.2.2.dirTrack + 115 ∧
        (f.2.1.type ≠ .d82 → f.2.2.lastTrack ≤ 127) ∧ (f.2.1.type = .d82 → f.2.2.lastTrack = 154) := by
      decide
    exact hall _ hmem
  · exact absurd (decide_eq_true hit) hdnp

/-- What the track loop knows at distance `d`: no nearer track has a free sector. -/
structure Passed (p : Partition) (d : ℤ) : Prop where
  ne : d ≠ 0
  le : -127 ≤ d ∧ d ≤ 127
  nearer : ∀ t, t ≠ p.d64data.dirTrack → distance p t < d.natAbs → p.sectorsFree t = 0
  before : d < 0 → ∀ t, t < p.d64data.dirTrack → distance p t = d.natAbs → p.sectorsFree t = 0

/-- A track that is out of range has no free sectors, also when its number wraps around. -/
theorem awayTrack_eq {p : Partition} (hp : Middle p.d64data)
    (hnear : p.d64data.lastTrack ≤ p.d64data.dirTrack + 115) {d : ℤ} (hd : -127 ≤ d ∧ d ≤ 127)
    (hfree : p.sectorsFree (awayTrack p.d64data.dirTrack d) ≠ 0) :
    (awayTrack p.d64data.dirTrack d : ℤ) = p.d64data.dirTrack - d := by
  have hrange : ¬(awayTrack p.d64data.dirTrack d < 1 ∨ awayTrack p.d64data.dirTrack d > p.d64data.lastTrack) :=
    fun hout => hfree (if_pos hout)
  have hle := hp.le
  have htwo := hp.two
  rw [awayTrack] at hrange ⊢
  omega

/-- The distance of the next round. -/
def nextDistance (d : ℤ) : ℤ := if int8 (-d) > 0 then int8 (int8 (-d) + 1) else int8 (-d)

theorem nextDistance_of_pos {d : ℤ} (hd : 0 < d) (hle : d ≤ 127) : nextDistance d = -d := by
  have hneg : int8 (-d) = -d := by
    rw [int8]
    omega
  rw [nextDistance, hneg, if_neg (by omega)]

theorem nextDistance_of_neg {d : ℤ} (hd : d < 0) (hle : -126 ≤ d) : nextDistance d = 1 - d := by
  have hneg : int8 (-d) = -d := by
    rw [int8]
    omega
  rw [nextDistance, hneg, if_pos (by omega), int8]
  omega

theorem nextDistance_cases {d : ℤ} (hne : d ≠ 0) (hd : -127 ≤ d ∧ d ≤ 127) (hneg : d < 0 → -126 ≤ d) :
    0 < d ∧ nextDistance d = -d ∨ d < 0 ∧ nextDistance d = 1 - d := by
  rcases lt_or_gt_of_ne hne with hlt | hgt
  · exact .inr ⟨hlt, nextDistance_of_neg hlt (hneg hlt)⟩
  · exact .inl ⟨hgt, nextDistance_of_pos hgt hd.2⟩

theorem Passed.next {p : Partition} {d : ℤ} (h : Passed p d) (hp : Middle p.d64data)
    (hzero : p.sectorsFree (awayTrack p.d64data.dirTrack d) = 0) (hneg : d < 0 → -126 ≤ d) :
    Passed p (nextDistance d) := by
  have hdir := hp.le
  rcases lt_or_gt_of_ne h.ne with hd | hd
  · rw [nextDistance_of_neg hd (hneg hd)]
    have hle := hneg hd
    refine ⟨by omega, by omega, fun t hne ht => ?_, fun hpos => by omega⟩
    by_cases hnear : distance p t < d.natAbs
    · exact h.nearer t hne hnear
    · have heq : distance p t = d.natAbs := by omega
      by_cases hlow : t < p.d64data.dirTrack
      · exact h.before hd t hlow heq
      · have htrack : awayTrack p.d64data.dirTrack d = t := by
          rw [distance] at heq
          rw [awayTrack]
          omega
        rwa [← htrack]
  · have hle := h.le.2
    rw [nextDistance_of_pos hd hle]
    refine ⟨by omega, by omega, fun t hne ht => h.nearer t hne (by omega), fun _ t hlow heq => ?_⟩
    have htrack : awayTrack p.d64data.dirTrack d = t := by
      rw [distance] at heq
      rw [awayTrack]
      omega
    rwa [← htrack]

/-- Where the track loop ends: at the nearest track with free sectors, or past the last distance. -/
structure Nearest (s₀ : State) (part : ℕ) (r : ℤ × State) : Prop where
  searching : Searching s₀ r.2
  passed : Passed (s₀.through part) r.1
  found : r.1 ≠ s₀.lastTrack part →
    (s₀.through part).sectorsFree (awayTrack (s₀.param part).dirTrack r.1) ≠ 0

theorem distanceRound_eq (h : Searching s₀ s) (hlt : part < s₀.maxPart)
    (hm : (s₀.partition part).Mounted) (d : ℤ) :
    ∃ s', Searching s₀ s' ∧ distanceRound part (d, s) =
      if d < s₀.lastTrack part then
        if (s₀.through part).sectorsFree (awayTrack (s₀.param part).dirTrack d) ≠ 0 then .inl (d, s')
        else .inr (nextDistance d, s')
      else .inl (d, s) := by
  obtain ⟨s', hfree, hsearch⟩ := h.sectorsFree hlt hm (awayTrack (s₀.param part).dirTrack d)
  refine ⟨s', hsearch, ?_⟩
  rw [distanceRound, h.toLooking.param, hfree]
  rfl

theorem distanceRound_nearest (hs : Coherent s₀) (hlt : part < s₀.maxPart)
    (hm : (s₀.partition part).Mounted) (hdnp : ¬s₀.isDnp part = true)
    (hends : s₀.lastTrack part ≤ 127 ∨
      ∃ t, t ≠ (s₀.param part).dirTrack ∧ (s₀.through part).sectorsFree t ≠ 0) :
    ∃ fuel r, Walk.loop (distanceRound part) fuel (1, s₀) = some r ∧ Nearest s₀ part r := by
  have hp : Middle (s₀.through part).d64data := hm.middle hdnp
  obtain ⟨hnear, -, -⟩ : s₀.lastTrack part ≤ (s₀.param part).dirTrack + 115 ∧ _ := hm.near hdnp
  have hlast : (s₀.param part).dirTrack < s₀.lastTrack part := hp.lt
  have hdir : 2 ≤ (s₀.param part).dirTrack := hp.two
  refine Walk.exists_loop
    (I := fun y : ℤ × State => Searching s₀ y.2 ∧ Passed (s₀.through part) y.1 ∧
      y.1 ≤ s₀.lastTrack part ∧ (y.1 < 0 → -y.1 < s₀.lastTrack part))
    (fun y => 1000 - (4 * y.1 - 1).natAbs) (fun y hy => ?_)
    ⟨Searching.refl hs, ⟨show (1 : ℤ) ≠ 0 by decide, show -127 ≤ (1 : ℤ) ∧ (1 : ℤ) ≤ 127 by decide, ?_,
      fun hneg => by dsimp only at hneg; omega⟩, by dsimp only; omega, fun hneg => by dsimp only at hneg; omega⟩
  · obtain ⟨d, s⟩ := y
    obtain ⟨hsearch, hpassed, hle, hneg⟩ := hy
    dsimp only at hsearch hpassed hle hneg
    obtain ⟨s', hsearch', hround⟩ := distanceRound_eq hsearch hlt hm d
    by_cases hd : d < s₀.lastTrack part
    · rw [if_pos hd] at hround
      by_cases hzero : (s₀.through part).sectorsFree (awayTrack (s₀.param part).dirTrack d) = 0
      · rw [if_neg (not_not.mpr hzero)] at hround
        -- a free sector that is still to come is near enough
        have hsmall : d < 0 → -126 ≤ d := by
          intro hd
          rcases hends with h127 | ⟨t, hne, hfree⟩
          · have := hneg hd
            omega
          · have hfar : ¬distance (s₀.through part) t < d.natAbs := fun hlt =>
              hfree (hpassed.nearer t hne hlt)
            have hrange : ¬(t < 1 ∨ t > s₀.lastTrack part) := fun hout => hfree (if_pos hout)
            have hfar' : ¬((s₀.param part).dirTrack - t : ℤ).natAbs < d.natAbs := hfar
            have hdir' : (s₀.param part).dirTrack ≤ 40 := hp.le
            omega
        refine .inr ⟨(nextDistance d, s'), hround, ⟨hsearch', hpassed.next hp hzero hsmall, ?_, ?_⟩, ?_⟩
        all_goals
          have hrange := hpassed.le
          have hnext := nextDistance_cases hpassed.ne hrange hsmall
          dsimp only
          omega
      · rw [if_pos hzero] at hround
        exact .inl ⟨(d, s'), hround, hsearch', hpassed, fun _ => hzero⟩
    · rw [if_neg hd] at hround
      exact .inl ⟨(d, s), hround, hsearch, hpassed, fun hne => absurd (by dsimp only; omega) hne⟩
  · intro t hne hlt'
    rw [distance] at hlt'
    exfalso
    omega

/-- On a D82 image the distance never comes to the number of tracks: it turns from 127 to -128, and
stays there. -/
theorem distanceRound_diverges (hs : Coherent s₀) (hlt : part < s₀.maxPart)
    (hm : (s₀.partition part).Mounted) (hdnp : ¬s₀.isDnp part = true)
    (hlast : s₀.lastTrack part = 154)
    (hfull : ∀ t, t ≠ (s₀.param part).dirTrack → (s₀.through part).sectorsFree t = 0) :
    ¬Walk.Terminates (distanceRound part) (1, s₀) := by
  have hdir : (s₀.param part).dirTrack ≤ 40 := (hm.middle hdnp).le
  rw [Walk.terminates_iff_ends]
  refine Walk.not_ends_of_closed
    (P := fun y : ℤ × State => Searching s₀ y.2 ∧ y.1 ≠ 0 ∧ -128 ≤ y.1 ∧ y.1 ≤ 127) (fun y hy => ?_)
    ⟨Searching.refl hs, show (1 : ℤ) ≠ 0 by decide, show (-128 : ℤ) ≤ 1 by decide,
      show (1 : ℤ) ≤ 127 by decide⟩
  obtain ⟨d, s⟩ := y
  obtain ⟨hsearch, hne, hlow, hhigh⟩ := hy
  dsimp only at hsearch hne hlow hhigh
  obtain ⟨s', hsearch', hround⟩ := distanceRound_eq hsearch hlt hm d
  have haway : awayTrack (s₀.param part).dirTrack d ≠ (s₀.param part).dirTrack := by
    rw [awayTrack]
    omega
  rw [if_pos (show d < (s₀.lastTrack part : ℤ) by omega), if_neg (not_not.mpr (hfull _ haway))] at hround
  refine ⟨(nextDistance d, s'), by rw [Walk.rounds, hround]; rfl, hsearch', ?_⟩
  dsimp only
  rw [nextDistance, int8, int8]
  split <;> omega

/-! ### Free blocks -/

theorem skipsTrack_eq {p : Partition} (hm : p.Mounted) (hdnp : ¬p.isDnp = true) {i : ℕ}
    (hi : i = p.d64data.dirTrack) : skipsTrack p.imagetype.type i = true := by
  obtain ⟨fsize, name, hformat⟩ := hm
  rcases imageFormat_cases hformat with hmem | ⟨-, hit, -⟩
  · have hall : ∀ f ∈ fixedFormats, skipsTrack f.2.1.type f.2.2.dirTrack = true := by decide
    rw [hi]
    exact hall _ hmem
  · exact absurd (decide_eq_true hit) hdnp

/-- What `d64_freeblocks` adds up comes from a track beside the directory track. -/
theorem freeblocks_fold (h : Searching s₀ s) (hlt : part < s₀.maxPart)
    (hm : (s₀.partition part).Mounted) (hdnp : ¬s₀.isDnp part = true) (l : List ℕ) (blocks : ℕ)
    (hpos : (l.foldl (freeblocksStep part) (blocks, s)).1 ≠ 0) :
    blocks ≠ 0 ∨ ∃ t ∈ l, t ≠ (s₀.param part).dirTrack ∧ (s₀.through part).sectorsFree t ≠ 0 := by
  induction l generalizing blocks s with
  | nil => exact .inl hpos
  | cons i l ih =>
    obtain ⟨s', hfree, hsearch⟩ := h.sectorsFree hlt hm i
    have htype : s.type part ≠ .dnp := by
      rw [h.keeps.type]
      exact fun htype => hdnp (hm.isDnp_iff.mpr htype)
    rw [List.foldl_cons, freeblocksStep, h.keeps.type] at hpos
    by_cases hskip : skipsTrack (s₀.type part) i = true
    · rw [if_pos hskip] at hpos
      rcases ih h blocks hpos with hblocks | ⟨t, ht, hrest⟩
      · exact .inl hblocks
      · exact .inr ⟨t, List.mem_cons_of_mem i ht, hrest⟩
    · rw [if_neg hskip, if_neg fun hcase => htype (h.keeps.type ▸ hcase.1), hfree] at hpos
      rcases ih hsearch _ hpos with hblocks | ⟨t, ht, hrest⟩
      · by_cases hzero : (s₀.through part).sectorsFree i = 0
        · rw [hzero, Nat.add_zero] at hblocks
          refine .inl fun heq => hblocks ?_
          rw [heq]
          rfl
        · exact .inr ⟨i, List.mem_cons_self, fun hi => hskip (skipsTrack_eq hm hdnp hi), hzero⟩
      · exact .inr ⟨t, List.mem_cons_of_mem i ht, hrest⟩

/-! ### The first sector of a new file -/

/-- The tracks beside the directory track. -/
def Beside (s : State) (part t : ℕ) : Prop :=
  1 ≤ t ∧ t ≤ s.lastTrack part ∧ t ≠ (s.param part).dirTrack

/-- The search for a first sector is right: it takes one from a track that is nearest to the directory,
and there is one when `d64_freeblocks` counts any. -/
structure FindsFirst (s : State) (part : ℕ) (r : ℕ × ℕ × ℕ × State) : Prop
    extends Finds s part (Beside s part) r where
  nearest : r.1 = 0 → ∀ t, Beside s part t → (s.through part).HasFree t →
    distance (s.through part) r.2.1 ≤ distance (s.through part) t
  freeblocks : 0 < (d64Freeblocks part s).1 → r.1 = 0

theorem hasFree_range {t : ℕ} (h : (s.through part).HasFree t) : 1 ≤ t ∧ t ≤ s.lastTrack part := by
  obtain ⟨q, hq, -⟩ := h
  exact ⟨hq.1, hq.2.1⟩

/-- A first sector is found on every image that has a free sector or is no D82 image. -/
theorem getFirstSector_finds (hs : Coherent s) (hlt : part < s.maxPart)
    (hm : (s.partition part).Mounted) (hdnp : ¬s.isDnp part = true)
    (hcount : (s.through part).Consistent) (track sector : ℕ)
    (hends : s.lastTrack part ≤ 127 ∨ ∃ t, Beside s part t ∧ (s.through part).HasFree t) :
    ∃ fuel r, getFirstSector fuel part track sector s = some r ∧ FindsFirst s part r := by
  have hp : Middle (s.through part).d64data := hm.middle hdnp
  obtain ⟨hnear, -, -⟩ : s.lastTrack part ≤ (s.param part).dirTrack + 115 ∧ _ := hm.near hdnp
  have hends' : s.lastTrack part ≤ 127 ∨
      ∃ t, t ≠ (s.param part).dirTrack ∧ (s.through part).sectorsFree t ≠ 0 := by
    rcases hends with h127 | ⟨t, hbeside, hfree⟩
    · exact .inl h127
    · exact .inr ⟨t, hbeside.2.2, (hcount.hasFree_iff t).mpr hfree⟩
  have hblocks : 0 < (d64Freeblocks part s).1 → ∃ t, Beside s part t ∧ (s.through part).HasFree t := by
    intro hpos
    rcases freeblocks_fold (Searching.refl hs) hlt hm hdnp _ 0 (Nat.ne_of_gt hpos) with hzero | ⟨t, -, hne, hfree⟩
    · exact absurd rfl hzero
    · have hfree := (hcount.hasFree_iff t).mp hfree
      exact ⟨t, ⟨(hasFree_range hfree).1, (hasFree_range hfree).2, hne⟩, hfree⟩
  obtain ⟨fuel, ⟨d, s'⟩, hloop, hnearest⟩ := distanceRound_nearest hs hlt hm hdnp hends'
  have hparam : s'.param part = s.param part := hnearest.searching.toLooking.param
  by_cases hd : d = s.lastTrack part
  · -- every track is nearer than the last distance
    have hnone : ∀ t, Beside s part t → ¬(s.through part).HasFree t := by
      intro t hbeside hfree
      refine (hcount.hasFree_iff t).mpr hfree (hnearest.passed.nearer t hbeside.2.2 ?_)
      have hlt' : (s.param part).dirTrack < s.lastTrack part := hp.lt
      have h1 : 2 ≤ (s.param part).dirTrack := hp.two
      have ht1 := hbeside.1
      have ht2 := hbeside.2.1
      rw [hd]
      show ((s.param part).dirTrack - t : ℤ).natAbs < (s.lastTrack part : ℤ).natAbs
      omega
    refine ⟨fuel, (1, track, sector, diskFull s'), ?_, ⟨Finds.of_full hnone hnearest.searching.diskFull _ _,
      nofun, fun hpos => ?_⟩⟩
    · rw [getFirstSector, if_neg hdnp, hloop]
      dsimp only
      rw [hparam]
      exact if_pos hd
    · obtain ⟨t, hbeside, hfree⟩ := hblocks hpos
      exact absurd hfree (hnone t hbeside)
  · have hcountne := hnearest.found hd
    have hfree := (hcount.hasFree_iff _).mp hcountne
    obtain ⟨fuel', q, s'', hrun, -, hvalid, hbit⟩ := firstSector_finds hnearest.searching hlt hm hfree
    have haway : (awayTrack (s.param part).dirTrack d : ℤ) = (s.param part).dirTrack - d :=
      awayTrack_eq hp hnear hnearest.passed.le hcountne
    have hbeside : Beside s part (awayTrack (s.param part).dirTrack d) := by
      have hne := hnearest.passed.ne
      dsimp only at hne
      refine ⟨(hasFree_range hfree).1, (hasFree_range hfree).2, ?_⟩
      omega
    refine ⟨max fuel fuel', (0, awayTrack (s.param part).dirTrack d, q, s''), ?_,
      ⟨Finds.of_found hbeside hvalid hbit s'', fun _ t ht hfree' => ?_, fun _ => rfl⟩⟩
    · rw [getFirstSector, if_neg hdnp, Walk.loop_mono hloop (Nat.le_max_left _ _)]
      dsimp only
      rw [hparam, if_neg (show ¬d = (s.param part).lastTrack from hd)]
      exact firstSector_mono hrun (Nat.le_max_right _ _)
    · by_contra hfar
      refine (hcount.hasFree_iff t).mpr hfree' (hnearest.passed.nearer t ht.2.2 ?_)
      have hfar' : ¬((s.param part).dirTrack - (awayTrack (s.param part).dirTrack d : ℤ)).natAbs ≤
        distance (s.through part) t := hfar
      dsimp only
      omega

/-- On every image other than a DNP one whose counters are right, `get_first_sector` is right exactly
if the image is no D82 image or has a free sector beside the directory track. -/
theorem getFirstSector_exact_iff (hs : Coherent s) (hlt : part < s.maxPart)
    (hm : (s.partition part).Mounted) (hdnp : ¬s.isDnp part = true)
    (hcount : (s.through part).Consistent) (track sector : ℕ) :
    (∃ fuel r, getFirstSector fuel part track sector s = some r ∧ FindsFirst s part r) ↔
      s.type part ≠ .d82 ∨ ∃ t, Beside s part t ∧ (s.through part).HasFree t := by
  obtain ⟨-, hother, hd82⟩ := hm.near hdnp
  constructor
  · rintro ⟨fuel, r, hrun, -⟩
    by_contra hnot
    push Not at hnot
    obtain ⟨htype, hnone⟩ := hnot
    refine distanceRound_diverges hs hlt hm hdnp (hd82 htype) (fun t ht => ?_) ⟨fuel, ?_⟩
    · by_contra hfree
      have hfree := (hcount.hasFree_iff t).mp hfree
      exact hnone t ⟨(hasFree_range hfree).1, (hasFree_range hfree).2, ht⟩ hfree
    · rw [getFirstSector, if_neg hdnp] at hrun
      cases hloop : Walk.loop (distanceRound part) fuel (1, s) with
      | none =>
        rw [hloop] at hrun
        cases hrun
      | some r => rfl
  · rintro (htype | hfree)
    · exact getFirstSector_finds hs hlt hm hdnp hcount track sector (.inl (hother htype))
    · exact getFirstSector_finds hs hlt hm hdnp hcount track sector (.inr hfree)

/-- The witness of `getFirstSector_exact_iff`: a D41 image. -/
theorem oneFree_getFirstSector :
    ∃ fuel r, getFirstSector fuel 0 0 0 oneFree = some r ∧ FindsFirst oneFree 0 r :=
  (getFirstSector_exact_iff oneFree_started.coherent (by decide) ⟨174848, [], by decide⟩ (by decide)
    oneFree_consistent 0 0).mpr (.inl (by decide))

/-- A D82 image without a free sector. -/
def fullD82 : State where
  partition _ := ⟨⟨.d82, false⟩, d82param, fun _ => 0, true⟩
  maxPart := 1
  bamBuffer := ⟨255, 0, 0, false, fun _ => 0, 0⟩
  bamBuffer2 := none
  errorcache := ⟨255, 0, fun _ => 0⟩
  scratch _ := 0
  error := ⟨0, 0, 0⟩
  io _ := .ok
  sysFree _ := none

/-- The search for a first sector on it never ends. -/
theorem fullD82_getFirstSector_diverges :
    Coherent fullD82 ∧ (fullD82.partition 0).Mounted ∧ (fullD82.through 0).Consistent ∧
      ∀ fuel, getFirstSector fuel 0 0 0 fullD82 = none := by
  have hstarted : Started fullD82 := ⟨rfl, by decide, ⟨rfl, rfl⟩, by rintro _ ⟨⟩⟩
  have hm : (fullD82.partition 0).Mounted := ⟨1066496, [], by decide⟩
  have hfull : ∀ t, (fullD82.through 0).sectorsFree t = 0 := by
    intro t
    rw [hstarted.through, Partition.sectorsFree]
    split <;> rfl
  refine ⟨hstarted.coherent, hm, fun t _ _ => ?_, fun fuel => ?_⟩
  · rw [Partition.Counted, hfull, hstarted.through]
    by_contra hne
    obtain ⟨q, -, hq⟩ := Tally.tally_ne_zero_iff.mp (Ne.symm hne)
    have hzero : Bits.test 0 (sectorMask (fullD82.partition 0).isDnp q) = true := hq
    simp [Bits.test] at hzero
  · rw [getFirstSector, if_neg (by decide)]
    cases hloop : Walk.loop (distanceRound 0) fuel (1, fullD82) with
    | none => rfl
    | some r =>
      exact absurd ⟨fuel, by rw [hloop]; rfl⟩ (distanceRound_diverges hstarted.coherent (by decide) hm (by decide)
        rfl fun t _ => hfull t)

end NoDiskEmu.Dxx
