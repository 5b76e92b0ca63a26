import NoDiskEmu.Dxx.Direct
import NoDiskEmu.Library.Tally

/-! What `allocate_sector` and `free_sector` change in the BAM, and what they leave alone. -/

namespace NoDiskEmu.Dxx

open Library

variable {p : Partition} {track sector t q : ℕ}

/-! ### The places of the tracks in the BAM -/

/-- The bytes in the bitmap of a track. -/
def bitmapBytes : DxxType → ℕ
  | .d41 | .d71 | .none => 3
  | .d81 => 5
  | .dnp => 32
  | .d80 | .d82 => 4

/-- The bytes that the BAM has for a track, from the place of its bitmap or of its counter on. -/
def BamData.extent (type : DxxType) : BamData → ℕ
  | .bitfield => bitmapBytes type
  | .freecount => 1

theorem div_lt_bitmapBytes {type : DxxType} (h : sector < sectorsPerTrack type track) :
    sector / 8 < bitmapBytes type := by
  have hle := sectorsPerTrack_le type track
  cases type <;> dsimp only [bitmapBytes] at hle ⊢ <;> omega

/-- DNP images have no counters. -/
def HasData (type : DxxType) (data : BamData) : Prop := type = .dnp → data = .bitfield

/-- No two tracks share a byte of the BAM, and no bitmap shares one with a counter. -/
theorem bamPosition_apart (hm : p.Mounted) {t t' i j : ℕ} {data data' : BamData} (h1 : 1 ≤ t)
    (h2 : t ≤ p.d64data.lastTrack) (h1' : 1 ≤ t') (h2' : t' ≤ p.d64data.lastTrack)
    (hi : i < data.extent p.imagetype.type) (hj : j < data'.extent p.imagetype.type)
    (hdata : HasData p.imagetype.type data) (hdata' : HasData p.imagetype.type data')
    (htrack : (bamPosition p.imagetype.type t data).1 = (bamPosition p.imagetype.type t' data').1)
    (hsector : (bamPosition p.imagetype.type t data).2.1 =
      (bamPosition p.imagetype.type t' data').2.1)
    (hpos : (bamPosition p.imagetype.type t data).2.2 + i =
      (bamPosition p.imagetype.type t' data').2.2 + j) : t = t' ∧ data = data' ∧ i = j := by
  have hlast := hm.lastTrack
  -- no position wraps around, so the places are linear in the numbers of the tracks
  cases ht : p.imagetype.type <;> simp only [ht] at hlast hi hj hdata hdata' htrack hsector hpos
  case dnp =>
    obtain rfl := hdata rfl
    obtain rfl := hdata' rfl
    simp only [bamPosition, BamData.extent, bitmapBytes, true_and] at htrack hsector hpos hi hj ⊢
    omega
  case d71 =>
    cases data <;> cases data' <;>
      simp only [bamPosition, BamData.skip, BamData.extent, bitmapBytes, reduceCtorEq, and_true, and_false,
        true_and, false_and, if_false] at htrack hsector hpos hi hj ⊢
    all_goals
      split_ifs at htrack hsector hpos <;> dsimp only at htrack hsector hpos <;>
        simp (disch := omega) only [Nat.mod_eq_of_lt] at hpos <;> omega
  case d81 =>
    cases data <;> cases data' <;>
      simp only [bamPosition, BamData.skip, BamData.extent, bitmapBytes, reduceCtorEq, and_false, true_and,
        false_and] at htrack hsector hpos hi hj ⊢
    all_goals
      split_ifs at hsector hpos <;> simp (disch := omega) only [Nat.mod_eq_of_lt] at hpos <;> omega
  case d80 | d82 =>
    have hw := d80Window_spec t 0 t h1 (by omega)
    have hw' := d80Window_spec t' 0 t' h1' (by omega)
    cases data <;> cases data' <;>
      simp only [bamPosition, BamData.skip, BamData.extent, bitmapBytes, reduceCtorEq, and_false, true_and,
        false_and] at htrack hsector hpos hi hj ⊢
    all_goals
      simp (disch := omega) only [Nat.mod_eq_of_lt] at hpos
      omega
  case d41 | none =>
    cases data <;> cases data' <;>
      simp only [bamPosition, BamData.skip, BamData.extent, bitmapBytes, reduceCtorEq, and_false, true_and,
        false_and] at htrack hsector hpos hi hj ⊢
    all_goals
      simp (disch := omega) only [Nat.mod_eq_of_lt] at hpos
      omega

theorem bamAddress_apart (hm : p.Mounted) {t t' i j : ℕ} {data data' : BamData} (h1 : 1 ≤ t)
    (h2 : t ≤ p.d64data.lastTrack) (h1' : 1 ≤ t') (h2' : t' ≤ p.d64data.lastTrack)
    (hi : i < data.extent p.imagetype.type) (hj : j < data'.extent p.imagetype.type)
    (hdata : HasData p.imagetype.type data) (hdata' : HasData p.imagetype.type data')
    (hpos : (bamPosition p.imagetype.type t data).2.2 + i < 256)
    (hpos' : (bamPosition p.imagetype.type t' data').2.2 + j < 256)
    (heq : p.bamAddress t data + i = p.bamAddress t' data' + j) : t = t' ∧ data = data' ∧ i = j := by
  have hbam := bamPosition_isBamSector hm h2 data
  have hbam' := bamPosition_isBamSector hm h2' data'
  simp only [Partition.bamAddress, sectorOffset] at heq
  obtain ⟨htrack, hsector⟩ := bamSector_injective hbam hbam' (by omega)
  rw [htrack, hsector] at heq
  exact bamPosition_apart hm h1 h2 h1' h2' hi hj hdata hdata' htrack hsector (by omega)

/-- A mounted image without error info is a DNP image exactly if its type says so. -/
theorem Partition.Mounted.isDnp_iff (hm : p.Mounted) : p.isDnp = true ↔ p.imagetype.type = .dnp := by
  rw [Partition.isDnp, decide_eq_true_eq]
  refine ⟨fun h => by rw [h], fun h => ?_⟩
  obtain ⟨fsize, name, hformat⟩ := hm
  rcases imageFormat_cases hformat with hmem | ⟨-, hit, -⟩
  · have hall : ∀ f ∈ fixedFormats, f.2.1.type ≠ .dnp := by decide
    exact absurd h (hall _ hmem)
  · exact hit

namespace Partition

/-- The image has the given sector. -/
def Valid (p : Partition) (track sector : ℕ) : Prop :=
  ValidTS p.imagetype.type p.d64data.lastTrack track sector

theorem bitAddress_apart (hm : p.Mounted) {t' q' : ℕ} (h : p.Valid t q) (h' : p.Valid t' q')
    (heq : p.bitAddress t q = p.bitAddress t' q') : t = t' ∧ q / 8 = q' / 8 := by
  obtain ⟨htrack, -, hbyte⟩ := bamAddress_apart hm h.1 h.2.1 h'.1 h'.2.1 (div_lt_bitmapBytes h.2.2)
    (div_lt_bitmapBytes h'.2.2) (fun _ => rfl) (fun _ => rfl) (bamPosition_bitfield hm h)
    (bamPosition_bitfield hm h') heq
  exact ⟨htrack, hbyte⟩

/-- The counter of a track is no byte of a bitmap. -/
theorem bitAddress_ne_count (hm : p.Mounted) (hdnp : p.imagetype.type ≠ .dnp) {t' : ℕ}
    (h : p.Valid t q) (h1 : 1 ≤ t') (h2 : t' ≤ p.d64data.lastTrack) :
    p.bitAddress t q ≠ p.bamAddress t' .freecount := by
  intro heq
  obtain ⟨-, hdata, -⟩ := bamAddress_apart hm h.1 h.2.1 h1 h2 (div_lt_bitmapBytes h.2.2)
    (show 0 < 1 by decide) (fun _ => rfl) (fun hd => absurd hd hdnp) (bamPosition_bitfield hm h)
    (bamPosition_freecount p.imagetype.type t').1
    (show _ = p.bamAddress t' .freecount + 0 from heq)
  cases hdata

theorem countAddress_apart (hm : p.Mounted) (hdnp : p.imagetype.type ≠ .dnp) {t' : ℕ} (h1 : 1 ≤ t)
    (h2 : t ≤ p.d64data.lastTrack) (h1' : 1 ≤ t') (h2' : t' ≤ p.d64data.lastTrack)
    (heq : p.bamAddress t .freecount = p.bamAddress t' .freecount) : t = t' :=
  (bamAddress_apart hm h1 h2 h1' h2' (show 0 < 1 by decide) (show 0 < 1 by decide)
    (fun hd => absurd hd hdnp) (fun hd => absurd hd hdnp)
    (bamPosition_freecount p.imagetype.type t).1 (bamPosition_freecount p.imagetype.type t').1
    (show p.bamAddress t .freecount + 0 = p.bamAddress t' .freecount + 0 from heq)).1

/-- On a DNP image the bits of a track are counted where its bitmap is. -/
theorem bamAddress_dnp (htype : p.imagetype.type = .dnp) (t : ℕ) :
    p.bamAddress t .freecount = p.bamAddress t .bitfield := by
  rw [bamAddress, bamAddress, htype]
  rfl

/-! ### One byte of the BAM -/

@[simp] theorem setByte_imagetype (p : Partition) (a : ℕ) (v : UInt8) :
    (p.setByte a v).imagetype = p.imagetype := rfl

@[simp] theorem setByte_d64data (p : Partition) (a : ℕ) (v : UInt8) :
    (p.setByte a v).d64data = p.d64data := rfl

@[simp] theorem setByte_bamAddress (p : Partition) (a : ℕ) (v : UInt8) :
    (p.setByte a v).bamAddress = p.bamAddress := rfl

@[simp] theorem setByte_bitAddress (p : Partition) (a : ℕ) (v : UInt8) :
    (p.setByte a v).bitAddress = p.bitAddress := rfl

@[simp] theorem setByte_isDnp (p : Partition) (a : ℕ) (v : UInt8) :
    (p.setByte a v).isDnp = p.isDnp := rfl

theorem setByte_image_self (p : Partition) (a : ℕ) (v : UInt8) : (p.setByte a v).image a = v :=
  Function.update_self _ _ _

theorem setByte_image_of_ne {o a : ℕ} (h : o ≠ a) (v : UInt8) : (p.setByte a v).image o = p.image o :=
  Function.update_of_ne h _ _

theorem isFree_setByte_of_ne {a : ℕ} (h : p.bitAddress t q ≠ a) (v : UInt8) :
    (p.setByte a v).isFree t q = p.isFree t q := by
  rw [isFree, isFree, setByte_bitAddress, setByte_isDnp, setByte_image_of_ne h]

end Partition

/-- The masks of two sectors of one byte have no bit in common. -/
theorem sectorMask_and {dnp : Bool} {q q' : ℕ} (h : q % 8 ≠ q' % 8) :
    sectorMask dnp q &&& sectorMask dnp q' = 0 := by
  have hlt := Nat.mod_lt q (show 8 > 0 by decide)
  have hlt' := Nat.mod_lt q' (show 8 > 0 by decide)
  cases dnp
  · exact Bits.lowMask_and_lowMask _ hlt _ hlt' h
  · exact Bits.highMask_and_highMask _ hlt _ hlt' h

theorem sectorMask_ne_zero (dnp : Bool) (q : ℕ) : sectorMask dnp q ≠ 0 := by
  have hlt := Nat.mod_lt q (show 8 > 0 by decide)
  cases dnp
  · exact Bits.lowMask_ne_zero _ hlt
  · exact Bits.highMask_ne_zero _ hlt

/-- A bit is set for a free sector and cleared for an allocated one. -/
def setBit (free : Bool) (byte mask : UInt8) : UInt8 := if free then byte ||| mask else byte &&& ~~~mask

theorem test_setBit_self (free : Bool) (byte : UInt8) {mask : UInt8} (h : mask ≠ 0) :
    Bits.test (setBit free byte mask) mask = free := by
  cases free
  · exact Bits.test_clear_self byte mask
  · exact Bits.test_set_self h

theorem test_setBit_other (free : Bool) (byte : UInt8) {mask other : UInt8} (h : mask &&& other = 0) :
    Bits.test (setBit free byte mask) other = Bits.test byte other := by
  cases free
  · exact Bits.test_clear_other h
  · exact Bits.test_set_other h

theorem sectorMask_toNat (dnp : Bool) (q : ℕ) : ∃ j, (sectorMask dnp q).toNat = 2 ^ j := by
  have hlt := Nat.mod_lt q (show 8 > 0 by decide)
  cases dnp
  · exact ⟨q % 8, Bits.lowMask_toNat _ hlt⟩
  · exact ⟨7 - q % 8, Bits.highMask_toNat _ hlt⟩

/-- A bit that is changed and changed back. -/
theorem setBit_setBit {dnp free : Bool} {byte : UInt8} (h : Bits.test byte (sectorMask dnp q) = free) :
    setBit free (setBit (!free) byte (sectorMask dnp q)) (sectorMask dnp q) = byte := by
  obtain ⟨j, hj⟩ := sectorMask_toNat dnp q
  rw [Bits.test] at h
  cases free with
  | false => exact Bits.set_clear (by simpa using h)
  | true => exact Bits.clear_set ((Bits.and_mask hj).resolve_left (by simpa using h))

namespace Partition

/-- `free_sector` or `allocate_sector`. -/
def mark (p : Partition) (free : Bool) (track sector : ℕ) : Partition :=
  if free then p.freeSector track sector else p.allocateSector track sector

def flipBit (p : Partition) (free : Bool) (track sector : ℕ) : Partition :=
  p.setByte (p.bitAddress track sector)
    (setBit free (p.image (p.bitAddress track sector)) (sectorMask p.isDnp sector))

/-- The counter of a track after one of its sectors was marked, if it changes. -/
def nextCount (p : Partition) (free : Bool) (track : ℕ) (count : UInt8) : Option UInt8 :=
  if free then
    if count.toNat < sectorsPerTrack p.imagetype.type track then some (count + 1) else none
  else if 0 < count then some (count - 1) else none

theorem mark_of_eq {free : Bool} (h : p.isFree track sector = free) : p.mark free track sector = p := by
  rw [mark, freeSector, allocateSector, h]
  cases free <;> rfl

theorem mark_of_ne {free : Bool} (h : p.isFree track sector ≠ free) :
    p.mark free track sector = if p.isDnp then p.flipBit free track sector
      else (p.flipBit free track sector).adjustCount track (p.nextCount free track) := by
  cases free
  · show p.allocateSector track sector = _
    rw [allocateSector, if_pos (show p.isFree track sector = true by simpa using h)]
    rfl
  · show p.freeSector track sector = _
    rw [freeSector, if_neg h]
    rfl

theorem isFree_flipBit_self (p : Partition) (free : Bool) (track sector : ℕ) :
    (p.flipBit free track sector).isFree track sector = free := by
  rw [isFree, flipBit, setByte_bitAddress, setByte_isDnp, setByte_image_self]
  exact test_setBit_self free _ (sectorMask_ne_zero _ _)

theorem isFree_flipBit_other (hm : p.Mounted) (free : Bool) (h : p.Valid track sector)
    (h' : p.Valid t q) (hne : ¬(t = track ∧ q = sector)) :
    (p.flipBit free track sector).isFree t q = p.isFree t q := by
  by_cases hbyte : p.bitAddress t q = p.bitAddress track sector
  · obtain ⟨htrack, hdiv⟩ := bitAddress_apart hm h' h hbyte
    rw [isFree, isFree, flipBit, setByte_bitAddress, setByte_isDnp, hbyte, setByte_image_self]
    exact test_setBit_other free _ (sectorMask_and (by omega))
  · exact isFree_setByte_of_ne hbyte _

theorem freeCount_congr {type : DxxType} {data data' : ℕ → UInt8} {pos : ℕ}
    (hbits : type = .dnp → ∀ i < 32, data (pos + i) = data' (pos + i))
    (hcount : type ≠ .dnp → data pos = data' pos) :
    freeCount type data pos = freeCount type data' pos := by
  rw [freeCount, freeCount]
  by_cases hdnp : type = .dnp
  · rw [if_pos hdnp, if_pos hdnp]
    refine congrArg List.sum (List.map_congr_left fun i hi => ?_)
    rw [hbits hdnp i (List.mem_range.mp hi)]
  · rw [if_neg hdnp, if_neg hdnp, hcount hdnp]

/-- The counters of all tracks are where no sector has its bit. -/
theorem sectorsFree_flipBit (hm : p.Mounted) (free : Bool) (h : p.Valid track sector) {t : ℕ}
    (ht : t ≠ track ∨ p.imagetype.type ≠ .dnp) :
    (p.flipBit free track sector).sectorsFree t = p.sectorsFree t := by
  rw [sectorsFree, sectorsFree, flipBit, setByte_d64data, setByte_imagetype, setByte_bamAddress]
  by_cases hrange : t < 1 ∨ t > p.d64data.lastTrack
  · rw [if_pos hrange, if_pos hrange]
  · rw [if_neg hrange, if_neg hrange]
    refine freeCount_congr (fun hdnp i hi => ?_) fun hdnp => ?_
    · have hvalid : p.Valid t (8 * i) := by
        refine ⟨by omega, by omega, ?_⟩
        rw [hdnp]
        show 8 * i < 256
        omega
      refine setByte_image_of_ne (fun heq => ?_) _
      rw [bamAddress_dnp hdnp] at heq
      have hsame : p.bitAddress t (8 * i) = p.bitAddress track sector := by
        rw [← heq, bitAddress, Nat.mul_div_cancel_left i (by decide)]
      exact (ht.resolve_right (not_not.mpr hdnp)) (bitAddress_apart hm hvalid h hsame).1
    · exact setByte_image_of_ne (bitAddress_ne_count hm hdnp h (by omega) (by omega)).symm _

theorem sectorsFree_count (p : Partition) (hdnp : p.imagetype.type ≠ .dnp) (h1 : 1 ≤ t)
    (h2 : t ≤ p.d64data.lastTrack) :
    p.sectorsFree t = (p.image (p.bamAddress t .freecount)).toNat := by
  rw [sectorsFree, if_neg (by omega), freeCount, if_neg hdnp]

/-- Another counter changes nothing in a track. -/
theorem sectorsFree_setCount (hm : p.Mounted) (hdnp : p.imagetype.type ≠ .dnp) (h1 : 1 ≤ track)
    (h2 : track ≤ p.d64data.lastTrack) (ht : t ≠ track) (value : UInt8) :
    (p.setByte (p.bamAddress track .freecount) value).sectorsFree t = p.sectorsFree t := by
  by_cases hrange : t < 1 ∨ t > p.d64data.lastTrack
  · rw [sectorsFree, sectorsFree, if_pos hrange, setByte_d64data, if_pos hrange]
  · rw [sectorsFree_count p hdnp (by omega) (by omega), sectorsFree_count (p.setByte _ _) hdnp (by omega)
      (show t ≤ p.d64data.lastTrack by omega)]
    rw [setByte_bamAddress, setByte_image_of_ne fun heq =>
      ht (countAddress_apart hm hdnp (by omega) (by omega) h1 h2 heq)]

/-! ### Counters and bitmaps -/

/-- The number of free sectors in the bitmap of a track. -/
def freeBits (p : Partition) (track : ℕ) : ℕ :=
  Tally.tally (sectorsPerTrack p.imagetype.type track) (p.isFree track)

/-- The counter of the track is the number of free sectors in its bitmap. -/
def Counted (p : Partition) (track : ℕ) : Prop := p.sectorsFree track = p.freeBits track

/-- The bytes of the BAM that belong to a track. -/
def BamByte (p : Partition) (track o : ℕ) : Prop :=
  (∃ q, p.Valid track q ∧ o = p.bitAddress track q) ∨
    p.imagetype.type ≠ .dnp ∧ o = p.bamAddress track .freecount

/-- `p'` is `p` with one sector marked as free or as allocated, and nothing else changed. -/
structure Marked (p p' : Partition) (free : Bool) (track sector : ℕ) : Prop where
  imagetype : p'.imagetype = p.imagetype
  d64data : p'.d64data = p.d64data
  here : p'.isFree track sector = free
  others : ∀ t q, p.Valid t q → ¬(t = track ∧ q = sector) → p'.isFree t q = p.isFree t q
  counts : ∀ t, t ≠ track → p'.sectorsFree t = p.sectorsFree t
  bytes : ∀ o, ¬p.BamByte track o → p'.image o = p.image o

theorem flipBit_marked (hm : p.Mounted) (free : Bool) (h : p.Valid track sector) :
    Marked p (p.flipBit free track sector) free track sector where
  imagetype := rfl
  d64data := rfl
  here := isFree_flipBit_self p free track sector
  others _ _ h' hne := isFree_flipBit_other hm free h h' hne
  counts _ ht := sectorsFree_flipBit hm free h (.inl ht)
  bytes _ ho := setByte_image_of_ne (fun heq => ho (.inl ⟨sector, h, heq⟩)) _

/-- The counter of the track may change too. -/
theorem Marked.setCount {p' : Partition} {free : Bool} (hm : p.Mounted)
    (hdnp : p.imagetype.type ≠ .dnp) (h : p.Valid track sector)
    (hmarked : Marked p p' free track sector) (value : UInt8) :
    Marked p (p'.setByte (p'.bamAddress track .freecount) value) free track sector := by
  have hsame : ∀ t data, p'.bamAddress t data = p.bamAddress t data := fun t data => by
    rw [bamAddress, bamAddress, hmarked.imagetype]
  have hm' : p'.Mounted := by rwa [Mounted, hmarked.imagetype, hmarked.d64data]
  have hdnp' : p'.imagetype.type ≠ .dnp := by rwa [hmarked.imagetype]
  have hbit : ∀ t q, p.Valid t q → p'.bitAddress t q ≠ p'.bamAddress track .freecount := by
    intro t q hv
    refine bitAddress_ne_count hm' hdnp' ?_ h.1 ?_
    · rwa [Valid, hmarked.imagetype, hmarked.d64data]
    · rw [hmarked.d64data]
      exact h.2.1
  refine ⟨hmarked.imagetype, hmarked.d64data, ?_, fun t q hv hne => ?_, fun t ht => ?_, fun o ho => ?_⟩
  · rw [isFree_setByte_of_ne (hbit track sector h), hmarked.here]
  · rw [isFree_setByte_of_ne (hbit t q hv), hmarked.others t q hv hne]
  · rw [sectorsFree_setCount hm' hdnp' h.1 (by rw [hmarked.d64data]; exact h.2.1) ht, hmarked.counts t ht]
  · rw [setByte_image_of_ne fun heq => ho (.inr ⟨hdnp, by rw [heq, hsame]⟩), hmarked.bytes o ho]

theorem mark_marked (hm : p.Mounted) (free : Bool) (h : p.Valid track sector) :
    Marked p (p.mark free track sector) free track sector := by
  by_cases hsame : p.isFree track sector = free
  · rw [mark_of_eq hsame]
    exact ⟨rfl, rfl, hsame, fun _ _ _ _ => rfl, fun _ _ => rfl, fun _ _ => rfl⟩
  · rw [mark_of_ne hsame]
    have hflip := flipBit_marked hm free h
    by_cases hdnp : p.isDnp = true
    · rwa [if_pos hdnp]
    · rw [if_neg hdnp, adjustCount]
      split
      · exact hflip
      · exact hflip.setCount hm (fun htype => hdnp (hm.isDnp_iff.mpr htype)) h _

theorem mark_mark (hm : p.Mounted) (free : Bool) (h : p.Valid track sector) :
    (p.mark free track sector).mark free track sector = p.mark free track sector :=
  mark_of_eq (mark_marked hm free h).here

/-- The number of free bits follows the bit of the sector. -/
theorem Marked.freeBits {p' : Partition} {free : Bool} (h : p.Valid track sector)
    (hmarked : Marked p p' free track sector) :
    p'.freeBits track + (p.isFree track sector).toNat = p.freeBits track + free.toNat := by
  have hupdate := Tally.tally_update (f := p'.isFree track) (g := p.isFree track) h.2.2 fun q hq hne =>
    hmarked.others track q ⟨h.1, h.2.1, hq⟩ fun heq => hne heq.2
  rw [hmarked.here] at hupdate
  rw [Partition.freeBits, Partition.freeBits, hmarked.imagetype]
  exact hupdate

end Partition

/-- The byte-wise count of the source is the number of bits. -/
theorem countBits_eq (x : UInt8) : countBits x = Tally.tally 8 fun k => Bits.test x (Bits.highMask k) := by
  have hall : ∀ n < 256, countBits (UInt8.ofNat n) =
      Tally.tally 8 fun k => Bits.test (UInt8.ofNat n) (Bits.highMask k) := by
    decide +kernel
  rw [← UInt8.ofNat_toNat (x := x)]
  exact hall _ (UInt8.toNat_lt x)

namespace Partition

/-- DNP images count the bits of their bitmaps. -/
theorem counted_of_dnp (hm : p.Mounted) (hdnp : p.imagetype.type = .dnp) (h1 : 1 ≤ track)
    (h2 : track ≤ p.d64data.lastTrack) : p.Counted track := by
  rw [Counted, sectorsFree, if_neg (by omega), freeCount, if_pos hdnp, freeBits, hdnp,
    bamAddress_dnp hdnp]
  show _ = Tally.tally (8 * 32) _
  rw [Tally.tally_groups]
  refine congrArg List.sum (List.map_congr_left fun i _ => ?_)
  rw [countBits_eq]
  refine Tally.tally_congr fun k hk => ?_
  rw [isFree, bitAddress, sectorMask, if_pos (hm.isDnp_iff.mpr hdnp),
    show (8 * i + k) / 8 = i by omega, show (8 * i + k) % 8 = k by omega]

theorem freeBits_le (p : Partition) (track : ℕ) :
    p.freeBits track ≤ sectorsPerTrack p.imagetype.type track := by
  refine (List.countP_le_length).trans ?_
  rw [List.length_range]

/-- A counter that was right is moved to the new number of free sectors. -/
theorem nextCount_eq (hdnp : p.imagetype.type ≠ .dnp) {free : Bool} {count : UInt8} {n : ℕ}
    (hcount : n + (!free).toNat = count.toNat + free.toNat)
    (hle : n ≤ sectorsPerTrack p.imagetype.type track) :
    ∃ value, p.nextCount free track count = some value ∧ value.toNat = n := by
  have hspt : sectorsPerTrack p.imagetype.type track < 256 := by
    have hmax := sectorsPerTrack_le p.imagetype.type track
    cases htype : p.imagetype.type <;> simp only [htype] at hmax ⊢
    case dnp => exact absurd htype hdnp
    all_goals omega
  rw [nextCount]
  cases free with
  | false =>
    simp only [Bool.not_false, Bool.toNat_true, Bool.toNat_false] at hcount
    have hpos : 0 < count := by
      rw [UInt8.lt_iff_toNat_lt]
      show 0 < count.toNat
      omega
    refine ⟨count - 1, by rw [if_neg Bool.false_ne_true, if_pos hpos], ?_⟩
    have hone : 1 ≤ count := UInt8.le_iff_toNat_le.mpr (show 1 ≤ count.toNat by omega)
    rw [UInt8.toNat_sub_of_le _ _ hone]
    show count.toNat - 1 = n
    omega
  | true =>
    simp only [Bool.not_true, Bool.toNat_true, Bool.toNat_false] at hcount
    refine ⟨count + 1, by rw [if_pos rfl, if_pos (by omega)], ?_⟩
    rw [UInt8.toNat_add]
    show (count.toNat + 1) % 256 = n
    omega

/-- The byte that counts the free sectors of a track is moved by one. -/
theorem mark_of_counted (hm : p.Mounted) (hdnp : p.imagetype.type ≠ .dnp) {free : Bool}
    (h : p.Valid track sector) (hcounted : p.Counted track) (hne : p.isFree track sector ≠ free) :
    ∃ value, p.mark free track sector =
        (p.flipBit free track sector).setByte (p.bamAddress track .freecount) value ∧
      value.toNat + (!free).toNat = (p.image (p.bamAddress track .freecount)).toNat + free.toNat := by
  have hbits := (flipBit_marked hm free h).freeBits h
  have hle := (p.flipBit free track sector).freeBits_le track
  have hcount := sectorsFree_count p hdnp h.1 h.2.1
  rw [Counted] at hcounted
  have hflip : p.isFree track sector = !free := by
    cases free <;> simpa using hne
  rw [hflip, ← hcounted, hcount] at hbits
  obtain ⟨value, hnext, hvalue⟩ := nextCount_eq hdnp hbits hle
  refine ⟨value, ?_, by rw [hvalue, hbits]⟩
  rw [mark_of_ne hne, if_neg fun htrue => hdnp (hm.isDnp_iff.mp htrue), adjustCount, flipBit,
    setByte_bamAddress, setByte_image_of_ne (bitAddress_ne_count hm hdnp h h.1 h.2.1).symm, hnext]

/-- The counter of a track when one of its bits changes. It stops at 0 and at the length of the track. -/
theorem sectorsFree_mark (hm : p.Mounted) (hdnp : p.imagetype.type ≠ .dnp) {free : Bool}
    (h : p.Valid track sector) (hne : p.isFree track sector ≠ free) :
    (p.mark free track sector).sectorsFree track =
      if free then
        if p.sectorsFree track < sectorsPerTrack p.imagetype.type track then p.sectorsFree track + 1
        else p.sectorsFree track
      else p.sectorsFree track - 1 := by
  have hmarked := mark_marked hm free h
  have hlast : track ≤ (p.mark free track sector).d64data.lastTrack := by
    rw [hmarked.d64data]
    exact h.2.1
  have hspt : sectorsPerTrack p.imagetype.type track < 256 := by
    have hmax := sectorsPerTrack_le p.imagetype.type track
    cases htype : p.imagetype.type <;> simp only [htype] at hmax ⊢
    case dnp => exact absurd htype hdnp
    all_goals omega
  have hbyte : (p.mark free track sector).image (p.bamAddress track .freecount) =
      (p.nextCount free track (p.image (p.bamAddress track .freecount))).getD
        (p.image (p.bamAddress track .freecount)) := by
    have hbit := setByte_image_of_ne (p := p) (bitAddress_ne_count hm hdnp h h.1 h.2.1).symm
    rw [mark_of_ne hne, if_neg fun htrue => hdnp (hm.isDnp_iff.mp htrue), adjustCount, flipBit,
      setByte_bamAddress, hbit]
    cases p.nextCount free track (p.image (p.bamAddress track .freecount)) with
    | none => exact hbit _
    | some value => exact setByte_image_self _ _ _
  have haddress : (p.mark free track sector).bamAddress track .freecount = p.bamAddress track .freecount := by
    rw [bamAddress, hmarked.imagetype]
    rfl
  rw [sectorsFree_count _ (by rwa [hmarked.imagetype]) h.1 hlast, haddress, hbyte,
    sectorsFree_count p hdnp h.1 h.2.1]
  generalize p.image (p.bamAddress track .freecount) = count
  rw [nextCount]
  cases free with
  | false =>
    rw [if_neg Bool.false_ne_true, if_neg Bool.false_ne_true]
    by_cases hpos : 0 < count
    · have hone : 1 ≤ count := UInt8.le_iff_toNat_le.mpr (UInt8.lt_iff_toNat_lt.mp hpos)
      rw [if_pos hpos, Option.getD_some, UInt8.toNat_sub_of_le _ _ hone]
      rfl
    · have hzero : ¬0 < count.toNat := fun hlt => hpos (UInt8.lt_iff_toNat_lt.mpr hlt)
      rw [if_neg hpos, Option.getD_none]
      omega
  | true =>
    rw [if_pos rfl, if_pos rfl]
    split
    · rw [Option.getD_some, UInt8.toNat_add]
      show (count.toNat + 1) % 256 = count.toNat + 1
      omega
    · rfl

/-- Marking a sector keeps the counter of its track right. -/
theorem mark_counted (hm : p.Mounted) (free : Bool) (h : p.Valid track sector)
    (hcounted : p.Counted track) : (p.mark free track sector).Counted track := by
  by_cases hsame : p.isFree track sector = free
  · rwa [mark_of_eq hsame]
  · have hmarked := mark_marked hm free h
    by_cases hdnp : p.imagetype.type = .dnp
    · refine counted_of_dnp ?_ ?_ h.1 ?_
      · rwa [Mounted, hmarked.imagetype, hmarked.d64data]
      · rw [hmarked.imagetype, hdnp]
      · rw [hmarked.d64data]
        exact h.2.1
    · have hbits := hmarked.freeBits h
      have hle := (p.mark free track sector).freeBits_le track
      rw [hmarked.imagetype] at hle
      rw [show p.isFree track sector = !free by cases free <;> simpa using hsame] at hbits
      rw [Counted] at hcounted ⊢
      rw [sectorsFree_mark hm hdnp h hsame, hcounted]
      cases free with
      | false =>
        simp only [Bool.not_false, Bool.toNat_true, Bool.toNat_false] at hbits
        rw [if_neg Bool.false_ne_true]
        omega
      | true =>
        simp only [Bool.not_true, Bool.toNat_true, Bool.toNat_false] at hbits
        rw [if_pos rfl, if_pos (by omega)]
        omega

theorem setByte_setByte (p : Partition) (a : ℕ) (v w : UInt8) :
    (p.setByte a v).setByte a w = p.setByte a w := by
  simp only [setByte, Function.update_idem]

theorem setByte_comm {a b : ℕ} (h : a ≠ b) (v w : UInt8) :
    (p.setByte a v).setByte b w = (p.setByte b w).setByte a v := by
  simp only [setByte, Function.update_comm h]

theorem setByte_same {a : ℕ} {v : UInt8} (h : p.image a = v) : p.setByte a v = p := by
  rw [setByte, ← h, Function.update_eq_self]

theorem flipBit_flipBit {free : Bool} (h : p.isFree track sector = free) :
    (p.flipBit (!free) track sector).flipBit free track sector = p := by
  rw [flipBit, flipBit, setByte_bitAddress, setByte_isDnp, setByte_setByte, setByte_image_self]
  exact setByte_same (setBit_setBit h).symm

/-- On a track with the right counter, marking a sector and marking it back changes nothing. -/
theorem mark_undo (hm : p.Mounted) {free : Bool} (h : p.Valid track sector)
    (hcounted : p.Counted track) (hbit : p.isFree track sector = free) :
    (p.mark (!free) track sector).mark free track sector = p := by
  have hne : p.isFree track sector ≠ !free := by rw [hbit]; cases free <;> decide
  have hmarked := mark_marked hm (!free) h
  have hne' : (p.mark (!free) track sector).isFree track sector ≠ free := by
    rw [hmarked.here]
    cases free <;> decide
  by_cases hdnp : p.imagetype.type = .dnp
  · have htrue := hm.isDnp_iff.mpr hdnp
    have hmark : p.mark (!free) track sector = p.flipBit (!free) track sector := by
      rw [mark_of_ne hne, if_pos htrue]
    rw [mark_of_ne hne', hmark, if_pos (show (p.flipBit (!free) track sector).isDnp = true from htrue)]
    exact flipBit_flipBit hbit
  · have hm' : (p.mark (!free) track sector).Mounted := by
      rwa [Mounted, hmarked.imagetype, hmarked.d64data]
    have hvalid' : (p.mark (!free) track sector).Valid track sector := by
      rwa [Valid, hmarked.imagetype, hmarked.d64data]
    have hdnp' : (p.mark (!free) track sector).imagetype.type ≠ .dnp := by rwa [hmarked.imagetype]
    obtain ⟨value, hmark, hvalue⟩ := mark_of_counted hm hdnp h hcounted hne
    obtain ⟨value', hmark', hvalue'⟩ := mark_of_counted hm' hdnp' hvalid'
      (mark_counted hm (!free) h hcounted) hne'
    have hapart := bitAddress_ne_count hm hdnp h h.1 h.2.1
    have haddr : (p.mark (!free) track sector).bamAddress track .freecount =
        p.bamAddress track .freecount := by rw [hmark]; rfl
    have hback : ∀ value, ((p.flipBit (!free) track sector).setByte (p.bamAddress track .freecount)
        value).flipBit free track sector = p.setByte (p.bamAddress track .freecount) value := by
      intro value
      have hplace : (p.flipBit (!free) track sector).bitAddress track sector ≠
          p.bamAddress track .freecount := hapart
      rw [flipBit, setByte_bitAddress, setByte_isDnp, setByte_image_of_ne hplace, setByte_comm hplace.symm]
      exact congrArg (setByte · _ value) (flipBit_flipBit hbit)
    rw [haddr, hmark, setByte_image_self] at hvalue'
    rw [hmark', haddr, hmark, hback, setByte_setByte]
    refine setByte_same (UInt8.toNat_inj.mp ?_)
    rw [Bool.not_not] at hvalue
    omega

end Partition

/-! ### The two calls -/

variable {s : State} {part : ℕ}

/-- `free_sector` or `allocate_sector`. -/
def markSector (s : State) (free : Bool) (part track sector : ℕ) : ℕ × State :=
  if free then freeSector s part track sector else allocateSector s part track sector

theorem markSector_ok (hs : Coherent s) (h : InRange s part track sector) (free : Bool) :
    ∃ s', markSector s free part track sector = (0, s') ∧
      Becomes s s' part ((s.through part).mark free track sector) := by
  cases free with
  | false => exact allocateSector_ok hs h.inBuffer
  | true => exact freeSector_ok hs h.inBuffer

/-- The call leaves the sector marked, and the rest of the BAM as it was. -/
structure MarksOnly (s s' : State) (free : Bool) (part track sector : ℕ) : Prop where
  here : (isFree s' part track sector).1 = if free then 1 else 0
  others : ∀ t q, ValidTS (s.type part) (s.lastTrack part) t q → ¬(t = track ∧ q = sector) →
    (isFree s' part t q).1 = (isFree s part t q).1
  counts : ∀ t, t ≠ track → (sectorsFree s' part t).1 = (sectorsFree s part t).1
  bytes : ∀ o, ¬(s.through part).BamByte track o → s'.view part o = s.view part o
  images : ∀ i, i ≠ part → s'.view i = s.view i
  counted : (s.through part).Counted track → (s'.through part).Counted track
  again : (markSector s' free part track sector).2.view = s'.view
  undo : (s.through part).Counted track →
    (isFree s part track sector).1 ≠ (if free then 1 else 0) →
    (markSector s' (!free) part track sector).2.view = s.view

theorem Becomes.view {s' : State} {p : Partition} (h : Becomes s s' part p) :
    s'.view = Function.update s.view part p.image := by
  funext i
  have hthrough := congrArg Partition.image (congrFun h.through i)
  by_cases hi : i = part
  · subst hi
    rw [Function.update_self] at hthrough ⊢
    exact hthrough
  · rw [Function.update_of_ne hi] at hthrough ⊢
    exact hthrough

theorem isFree_result (hs : Coherent s) (h : InRange s part track sector) :
    (isFree s part track sector).1 = if (s.through part).isFree track sector then 1 else 0 := by
  obtain ⟨s', hfree, -, -⟩ := isFree_ok hs h.inBuffer
  rw [hfree]

theorem sectorsFree_result (hs : Coherent s) (hlt : part < s.maxPart)
    (hm : (s.partition part).Mounted) (track : ℕ) :
    (sectorsFree s part track).1 = (s.through part).sectorsFree track := by
  obtain ⟨s', hfree, -, -⟩ := sectorsFree_ok hs hlt hm track
  rw [hfree]

/-- On every image, with every BAM, `allocate_sector` and `free_sector` mark the sector and leave the
rest of the BAM alone. -/
theorem markSector_exact (hs : Coherent s) (h : InRange s part track sector) (free : Bool) :
    ∃ s', markSector s free part track sector = (0, s') ∧ Coherent s' ∧
      MarksOnly s s' free part track sector := by
  obtain ⟨s', hrun, hbecomes⟩ := markSector_ok hs h free
  have hco := hbecomes.coherent
  have h' := h.sameFormat hbecomes.toSameFormat
  have hm : (s.through part).Mounted := h.mounted
  have hvalid : (s.through part).Valid track sector := h.valid
  have hmarked := Partition.mark_marked hm free hvalid
  refine ⟨s', hrun, hco, ?_, fun t q hv hne => ?_, fun t ht => ?_, fun o ho => ?_, fun i hi => ?_,
    fun hcounted => ?_, ?_, fun hcounted hbit => ?_⟩
  · rw [isFree_result hco h', hbecomes.through_self, hmarked.here]
  · have hr : InRange s part t q := ⟨h.lt, h.mounted, hv⟩
    rw [isFree_result hco (hr.sameFormat hbecomes.toSameFormat), isFree_result hs hr,
      hbecomes.through_self, hmarked.others t q hv hne]
  · rw [sectorsFree_result hco h'.lt h'.mounted, sectorsFree_result hs h.lt h.mounted,
      hbecomes.through_self, hmarked.counts t ht]
  · rw [hbecomes.view, Function.update_self]
    exact hmarked.bytes o ho
  · rw [hbecomes.view, Function.update_of_ne hi]
  · rw [hbecomes.through_self]
    exact Partition.mark_counted hm free hvalid hcounted
  · obtain ⟨s'', hrun', hbecomes'⟩ := markSector_ok hco h' free
    rw [hrun', hbecomes'.view, hbecomes.through_self, Partition.mark_mark hm free hvalid, hbecomes.view,
      Function.update_idem]
  · obtain ⟨s'', hrun', hbecomes'⟩ := markSector_ok hco h' (!free)
    have hbit' : (s.through part).isFree track sector = !free := by
      rw [isFree_result hs h] at hbit
      cases free <;> cases hfree : (s.through part).isFree track sector <;> simp_all
    have hundo := Partition.mark_undo hm hvalid hcounted hbit'
    rw [Bool.not_not] at hundo
    rw [hrun', hbecomes'.view, hbecomes.through_self, hundo, hbecomes.view, Function.update_idem]
    exact Function.update_eq_self part s.view

/-- The witness of `markSector_exact`: a sector on the second side of a D71 image. -/
theorem twoImages_markSector_exact :
    ∃ s', markSector twoImages false 0 40 1 = (0, s') ∧ Coherent s' ∧
      MarksOnly twoImages s' false 0 40 1 :=
  markSector_exact (show Started twoImages from ⟨rfl, by decide, ⟨rfl, rfl⟩, by rintro _ ⟨⟩⟩).coherent
    ⟨by decide, ⟨349696, [], by decide⟩, by decide⟩ false

end NoDiskEmu.Dxx
