import NoDiskEmu.Dxx.Format
import NoDiskEmu.Dxx.Delete

/-! What a format leaves: which sectors are allocated, what the counters of the BAM say, and what is in
the directory and the label. -/

namespace NoDiskEmu.Dxx

open Library

variable {s : State} {part track sector : ℕ}

namespace Partition

variable {p p' p'' : Partition}

/-! ### Writes that leave the BAM alone -/

/-- The bytes of the BAM are the same. -/
structure SameBam (p p' : Partition) : Prop extends SameKind p p' where
  bytes : ∀ t o, 1 ≤ t → t ≤ p.d64data.lastTrack → p.BamByte t o → p'.image o = p.image o

namespace SameBam

theorem trans (h : SameBam p p') (h' : SameBam p' p'') : SameBam p p'' := by
  refine ⟨h.toSameKind.trans h'.toSameKind, fun t o h1 h2 hbyte => ?_⟩
  rw [h'.bytes t o h1 (by rw [h.d64data]; exact h2) (h.bamByte.mpr hbyte), h.bytes t o h1 h2 hbyte]

theorem isFree (h : SameBam p p') (hv : p.Valid track sector) : p'.isFree track sector = p.isFree track sector := by
  rw [Partition.isFree, h.bitAddress, h.bytes track _ hv.1 hv.2.1 (.inl ⟨sector, hv, rfl⟩), isDnp, h.imagetype]
  rfl

theorem freeBits (h : SameBam p p') (h1 : 1 ≤ track) (h2 : track ≤ p.d64data.lastTrack) :
    p'.freeBits track = p.freeBits track := by
  rw [Partition.freeBits, h.imagetype]
  exact Tally.tally_congr fun q hq => h.isFree ⟨h1, h2, hq⟩

theorem counted (h : SameBam p p') (hm : p.Mounted) (h1 : 1 ≤ track) (h2 : track ≤ p.d64data.lastTrack) :
    p'.Counted track ↔ p.Counted track := by
  have h2' : track ≤ p'.d64data.lastTrack := by
    rw [h.d64data]
    exact h2
  by_cases hdnp : p.imagetype.type = .dnp
  · exact iff_of_true (counted_of_dnp (h.mounted hm) (by rw [h.imagetype]; exact hdnp) h1 h2')
      (counted_of_dnp hm hdnp h1 h2)
  · rw [Counted, Counted, h.freeBits h1 h2, sectorsFree_count p' (by rw [h.imagetype]; exact hdnp) h1 h2',
      sectorsFree_count p hdnp h1 h2, h.bamAddress, h.bytes track _ h1 h2 (.inr ⟨hdnp, rfl⟩)]

end SameBam

/-- Where a byte of the BAM is. -/
theorem BamByte.position (hm : p.Mounted) {o : ℕ} (h : p.BamByte track o) : ∃ data i, HasData p.imagetype.type data ∧ i < data.extent p.imagetype.type ∧
      (bamPosition p.imagetype.type track data).2.2 + i < 256 ∧ o = p.bamAddress track data + i := by
  rcases h with ⟨q, hv, rfl⟩ | ⟨hdnp, rfl⟩
  · exact ⟨.bitfield, q / 8, fun _ => rfl, div_lt_bitmapBytes hv.2.2, bamPosition_bitfield hm hv, rfl⟩
  · exact ⟨.freecount, 0, fun htype => absurd htype hdnp, show 0 < 1 by decide,
      (bamPosition_freecount p.imagetype.type track).1, rfl⟩

/-- The byte `i` of the BAM sector `y`, if it is a byte of the BAM, belongs to a place of that sector. -/
theorem BamByte.inSector (hm : p.Mounted) (hlast : track ≤ p.d64data.lastTrack) {y : ℕ × ℕ}
    (hy : IsBamSector p.imagetype.type y.1 y.2) {i : ℕ} (hi : i < 256)
    (h : p.BamByte track (sectorOffset p.imagetype.type y.1 y.2 + i)) :
    ∃ data j, HasData p.imagetype.type data ∧ j < data.extent p.imagetype.type ∧
      (bamPosition p.imagetype.type track data).1 = y.1 ∧ (bamPosition p.imagetype.type track data).2.1 = y.2 ∧
      i = (bamPosition p.imagetype.type track data).2.2 + j := by
  obtain ⟨data, j, hdata, hj, hpos, heq⟩ := h.position hm
  have hbam := isBamSector_bamPosition p.imagetype.type (hlast.trans hm.lastTrack_le) data
  rw [bamAddress] at heq
  simp only [sectorOffset] at heq
  obtain ⟨ht, hq⟩ := bamSector_injective hbam hy (by omega)
  refine ⟨data, j, hdata, hj, ht, hq, ?_⟩
  rw [ht, hq] at heq
  omega

theorem setSector_kind (p : Partition) (t q : ℕ) (data : ℕ → UInt8) : SameKind p (p.setSector t q data) := ⟨rfl, rfl⟩

/-- A sector outside of the BAM. -/
theorem setSector_sameBam (hm : p.Mounted) (hv : p.Valid track sector)
    (hbam : ¬IsBamSector p.imagetype.type track sector) (data : ℕ → UInt8) :
    SameBam p (p.setSector track sector data) := by
  refine ⟨p.setSector_kind _ _ _, fun t o _ h2 hbyte => Memory.write_outside ?_⟩
  obtain ⟨which, i, -, -, hpos, rfl⟩ := hbyte.position hm
  by_contra hin
  push Not at hin
  obtain ⟨j, hj⟩ := Nat.exists_eq_add_of_le hin.1
  refine not_inBam_of_valid (x := (track, sector)) hm hv hbam (show j < 256 by omega) ?_
  show InBam p.imagetype.type (sectorOffset p.imagetype.type track sector + j)
  rw [← hj]
  exact bamAddress_inBam (h2.trans hm.lastTrack_le) hpos

/-- An edit of a BAM sector that keeps the bytes of the BAM. -/
theorem editSector_sameBam {y : ℕ × ℕ} {edit : (ℕ → UInt8) → ℕ → UInt8}
    (hedit : ∀ t i, 1 ≤ t → t ≤ p.d64data.lastTrack → i < 256 →
      p.BamByte t (sectorOffset p.imagetype.type y.1 y.2 + i) → ∀ data, edit data i = data i) :
    SameBam p (p.editSector y.1 y.2 edit) := by
  refine ⟨p.setSector_kind _ _ _, fun t o h1 h2 hbyte => ?_⟩
  by_cases hin : sectorOffset p.imagetype.type y.1 y.2 ≤ o ∧ o < sectorOffset p.imagetype.type y.1 y.2 + 256
  · obtain ⟨i, rfl⟩ := Nat.exists_eq_add_of_le hin.1
    have hi : i < 256 := by omega
    refine (Memory.write_inside hi).trans ?_
    rw [hedit t i h1 h2 hi hbyte]
    rfl
  · exact Memory.write_outside (by omega)

/-! ### Clearing -/

theorem setAll_kind (data : ℕ → UInt8) (xs : List (ℕ × ℕ)) (p : Partition) : SameKind p (p.setAll data xs) := by
  induction xs generalizing p with
  | nil => exact SameKind.refl p
  | cons x xs ih => exact (p.setSector_kind x.1 x.2 data).trans (ih _)

/-- The byte is in one of the sectors. -/
def InSectors (type : DxxType) (xs : List (ℕ × ℕ)) (o : ℕ) : Prop :=
  ∃ x ∈ xs, sectorOffset type x.1 x.2 ≤ o ∧ o < sectorOffset type x.1 x.2 + 256

theorem setAll_outside {xs : List (ℕ × ℕ)} {o : ℕ} (ho : ¬InSectors p.imagetype.type xs o) (data : ℕ → UInt8) :
    (p.setAll data xs).image o = p.image o := by
  induction xs generalizing p with
  | nil => rfl
  | cons x xs ih =>
    have hout : o < sectorOffset p.imagetype.type x.1 x.2 ∨ sectorOffset p.imagetype.type x.1 x.2 + 256 ≤ o := by
      by_contra hin
      exact ho ⟨x, List.mem_cons_self, by omega, by omega⟩
    refine (ih (p := p.setSector x.1 x.2 data) ?_).trans (Memory.write_outside hout)
    rintro ⟨y, hy, hin⟩
    exact ho ⟨y, List.mem_cons_of_mem x hy, hin⟩

/-- Zeros in all of the sectors. -/
theorem setAll_zero {xs : List (ℕ × ℕ)} {o : ℕ} (ho : InSectors p.imagetype.type xs o ∨ p.image o = 0) :
    (p.setAll (fun _ => 0) xs).image o = 0 := by
  induction xs generalizing p with
  | nil =>
    rcases ho with ⟨x, hx, -⟩ | hzero
    · exact absurd hx List.not_mem_nil
    · exact hzero
  | cons x xs ih =>
    refine ih (p := p.setSector x.1 x.2 fun _ => 0) ?_
    by_cases hin : sectorOffset p.imagetype.type x.1 x.2 ≤ o ∧ o < sectorOffset p.imagetype.type x.1 x.2 + 256
    · exact .inr (if_pos hin)
    · rcases ho with ⟨y, hy, hyin⟩ | hzero
      · rcases List.mem_cons.mp hy with rfl | hy
        · exact absurd hyin hin
        · exact .inl ⟨y, hy, hyin⟩
      · exact .inr ((if_neg hin).trans hzero)

/-- The BAM sector of a track is cleared. -/
theorem zero_of_cleared {xs : List (ℕ × ℕ)} {data : BamData} {i : ℕ}
    (hx : ((bamPosition p.imagetype.type track data).1, (bamPosition p.imagetype.type track data).2.1) ∈ xs)
    (hpos : (bamPosition p.imagetype.type track data).2.2 + i < 256) :
    (p.setAll (fun _ => 0) xs).image (p.bamAddress track data + i) = 0 := by
  refine setAll_zero (.inl ⟨_, hx, ?_, ?_⟩) <;> (rw [bamAddress]; dsimp only; omega)

theorem isFree_of_cleared (hm : p.Mounted) {xs : List (ℕ × ℕ)} (hv : p.Valid track sector)
    (hx : ((bamPosition p.imagetype.type track .bitfield).1, (bamPosition p.imagetype.type track .bitfield).2.1) ∈ xs) :
    (p.setAll (fun _ => 0) xs).isFree track sector = false := by
  have hzero := zero_of_cleared hx (bamPosition_bitfield hm hv)
  have hkind := setAll_kind (fun _ => 0) xs p
  rw [Partition.isFree, hkind.bitAddress, bitAddress, hzero]
  exact Bits.test_zero _

/-! ### The counters while sectors are marked -/

theorem Marked.kind {free : Bool} (h : Marked p p' free track sector) : SameKind p p' := ⟨h.imagetype, h.d64data⟩

/-- What marking one sector keeps, marking a list of them keeps. -/
theorem markAll_induct (hm : p.Mounted) {free : Bool} {xs : List (ℕ × ℕ)} (hxs : ∀ x ∈ xs, p.Valid x.1 x.2)
    {P : Partition → Prop}
    (hstep : ∀ p' t q, SameKind p p' → p'.Mounted → p'.Valid t q → P p' → P (p'.mark free t q)) (h : P p) :
    P (p.markAll free xs) := by
  induction xs generalizing p with
  | nil => exact h
  | cons x xs ih =>
    have hx := hxs x List.mem_cons_self
    have hkind := (mark_marked hm free hx).kind
    exact ih (p := p.mark free x.1 x.2) (hkind.mounted hm)
      (fun y hy => hkind.valid.mpr (hxs y (List.mem_cons_of_mem x hy)))
      (fun p' t q hkind' => hstep p' t q (hkind.trans hkind')) (hstep p x.1 x.2 (SameKind.refl p) hm hx h)

/-- Another track. -/
theorem Marked.freeBits_other {free : Bool} (h : Marked p p' free track sector) {t : ℕ} (h1 : 1 ≤ t)
    (h2 : t ≤ p.d64data.lastTrack) (hne : t ≠ track) : p'.freeBits t = p.freeBits t := by
  rw [Partition.freeBits, h.imagetype]
  exact Tally.tally_congr fun q hq => h.others t q ⟨h1, h2, hq⟩ fun heq => hne heq.1

/-- The counter and the bits of a track go together in every step, or the track is another one. -/
theorem markAll_track (hm : p.Mounted) {free : Bool} {xs : List (ℕ × ℕ)} (hxs : ∀ x ∈ xs, p.Valid x.1 x.2)
    (h1 : 1 ≤ track) (h2 : track ≤ p.d64data.lastTrack) {R : ℕ → ℕ → Prop}
    (hstep : ∀ p' q, SameKind p p' → p'.Mounted → p'.Valid track q → p'.isFree track q ≠ free →
      R (p'.sectorsFree track) (p'.freeBits track) →
      R ((p'.mark free track q).sectorsFree track) ((p'.mark free track q).freeBits track))
    (h : R (p.sectorsFree track) (p.freeBits track)) :
    R ((p.markAll free xs).sectorsFree track) ((p.markAll free xs).freeBits track) := by
  refine markAll_induct hm hxs (P := fun p => R (p.sectorsFree track) (p.freeBits track))
    (fun p' t q hkind hm' hv hR => ?_) h
  have hmarked := mark_marked hm' free hv
  by_cases ht : t = track
  · subst ht
    by_cases hsame : p'.isFree t q = free
    · rwa [mark_of_eq hsame]
    · exact hstep p' q hkind hm' hv hsame hR
  · rwa [hmarked.counts track (Ne.symm ht),
      hmarked.freeBits_other h1 (by rw [hkind.d64data]; exact h2) (Ne.symm ht)]

/-- A counter that is short by some sectors stays so while sectors are freed. -/
theorem markAll_short (hm : p.Mounted) (hdnp : p.imagetype.type ≠ .dnp) {xs : List (ℕ × ℕ)}
    (hxs : ∀ x ∈ xs, p.Valid x.1 x.2) (h1 : 1 ≤ track) (h2 : track ≤ p.d64data.lastTrack) {k : ℕ}
    (h : p.sectorsFree track + k = p.freeBits track) :
    (p.markAll true xs).sectorsFree track + k = (p.markAll true xs).freeBits track := by
  refine markAll_track hm hxs h1 h2 (R := fun count bits => count + k = bits) (fun p' q hkind hm' hv hne hR => ?_) h
  have hmarked := mark_marked hm' true hv
  have hbits := hmarked.freeBits hv
  have hle := (p'.mark true track q).freeBits_le track
  rw [hmarked.imagetype] at hle
  rw [show p'.isFree track q = false by simpa using hne] at hbits
  simp only [Bool.toNat_true, Bool.toNat_false] at hbits
  rw [sectorsFree_mark hm' (by rw [hkind.imagetype]; exact hdnp) hv hne, if_pos rfl, if_pos (by omega)]
  omega

/-- A counter never passes the number of free sectors while sectors are allocated. -/
theorem markAll_le (hm : p.Mounted) (hdnp : p.imagetype.type ≠ .dnp) {xs : List (ℕ × ℕ)}
    (hxs : ∀ x ∈ xs, p.Valid x.1 x.2) (h1 : 1 ≤ track) (h2 : track ≤ p.d64data.lastTrack)
    (h : p.sectorsFree track ≤ p.freeBits track) :
    (p.markAll false xs).sectorsFree track ≤ (p.markAll false xs).freeBits track := by
  refine markAll_track hm hxs h1 h2 (R := fun count bits => count ≤ bits) (fun p' q hkind hm' hv hne hR => ?_) h
  have hbits := (mark_marked hm' false hv).freeBits hv
  rw [show p'.isFree track q = true by simpa using hne] at hbits
  simp only [Bool.toNat_true, Bool.toNat_false] at hbits
  rw [sectorsFree_mark hm' (by rw [hkind.imagetype]; exact hdnp) hv hne, if_neg Bool.false_ne_true]
  omega

theorem markAll_counted (hm : p.Mounted) (free : Bool) {xs : List (ℕ × ℕ)} (hxs : ∀ x ∈ xs, p.Valid x.1 x.2)
    (h1 : 1 ≤ track) (h2 : track ≤ p.d64data.lastTrack) (h : p.Counted track) :
    (p.markAll free xs).Counted track :=
  markAll_track hm hxs h1 h2 (R := fun count bits => count = bits)
    (fun _ _ _ hm' hv _ hR => mark_counted hm' free hv hR) h

/-! ### Allocating the system sectors -/

/-- `p'` is `p` with some sectors allocated. Counters that were right stay right, and those of the other
tracks stay as they were. -/
structure Allocates (p p' : Partition) (xs : List (ℕ × ℕ)) : Prop extends SameKind p p' where
  bits : ∀ t q, p.Valid t q → (p'.isFree t q = true ↔ p.isFree t q = true ∧ (t, q) ∉ xs)
  counted : ∀ t, 1 ≤ t → t ≤ p.d64data.lastTrack → p.Counted t → p'.Counted t
  others : ∀ t, 1 ≤ t → t ≤ p.d64data.lastTrack → (∀ x ∈ xs, x.1 ≠ t) → p'.Counted t → p.Counted t
  le : p.imagetype.type ≠ .dnp → ∀ t, 1 ≤ t → t ≤ p.d64data.lastTrack →
    p.sectorsFree t ≤ p.freeBits t → p'.sectorsFree t ≤ p'.freeBits t

theorem Allocates.trans {xs ys : List (ℕ × ℕ)} (h : Allocates p p' xs) (h' : Allocates p' p'' ys) :
    Allocates p p'' (xs ++ ys) := by
  have hlast : ∀ {t}, t ≤ p.d64data.lastTrack → t ≤ p'.d64data.lastTrack := fun ht => by
    rw [h.d64data]
    exact ht
  refine ⟨h.toSameKind.trans h'.toSameKind, fun t q hv => ?_, fun t h1 h2 hc => ?_, fun t h1 h2 hne hc => ?_,
    fun hdnp t h1 h2 hle => ?_⟩
  · rw [h'.bits t q (h.valid.mpr hv), h.bits t q hv, and_assoc, List.mem_append, not_or]
  · exact h'.counted t h1 (hlast h2) (h.counted t h1 h2 hc)
  · exact h.others t h1 h2 (fun x hx => hne x (List.mem_append_left ys hx))
      (h'.others t h1 (hlast h2) (fun x hx => hne x (List.mem_append_right xs hx)) hc)
  · exact h'.le (by rw [h.imagetype]; exact hdnp) t h1 (hlast h2) (h.le hdnp t h1 h2 hle)

theorem allocates_markAll (hm : p.Mounted) (xs : List (ℕ × ℕ)) (hxs : ∀ x ∈ xs, p.Valid x.1 x.2) :
    Allocates p (p.markAll false xs) xs := by
  have hmarked := markAll_marked hm false xs hxs
  refine ⟨hmarked.toSameKind, fun t q hv => ?_, fun t h1 h2 => markAll_counted hm false hxs h1 h2,
    fun t h1 h2 hne hc => ?_, fun hdnp t h1 h2 => markAll_le hm hdnp hxs h1 h2⟩
  · by_cases hin : (t, q) ∈ xs
    · rw [hmarked.here (t, q) hin]
      exact iff_of_false Bool.false_ne_true fun h => h.2 hin
    · rw [hmarked.others t q hv hin]
      exact (and_iff_left hin).symm
  · have hbits : (p.markAll false xs).freeBits t = p.freeBits t := by
      rw [freeBits, hmarked.imagetype]
      exact Tally.tally_congr fun q hq => hmarked.others t q ⟨h1, h2, hq⟩ fun hin => hne (t, q) hin rfl
    rwa [Counted, hmarked.counts t hne, hbits] at hc

theorem SameBam.allocates (h : SameBam p p') (hm : p.Mounted) : Allocates p p' [] := by
  refine ⟨h.toSameKind, fun t q hv => ?_, fun t h1 h2 => (h.counted hm h1 h2).mpr,
    fun t h1 h2 _ => (h.counted hm h1 h2).mp, fun hdnp t h1 h2 hle => ?_⟩
  · rw [h.isFree hv]
    exact (and_iff_left List.not_mem_nil).symm
  · rw [h.freeBits h1 h2, sectorsFree_count p' (by rw [h.imagetype]; exact hdnp) h1 (by rw [h.d64data]; exact h2),
      h.bamAddress, h.bytes t _ h1 h2 (.inr ⟨hdnp, rfl⟩), ← sectorsFree_count p hdnp h1 h2]
    exact hle

end Partition

/-! ### The bytes that the format puts into the sectors -/

theorem putBytes_outside {data : ℕ → UInt8} {pos i : ℕ} {bytes : List UInt8} (h : i < pos ∨ pos + bytes.length ≤ i) :
    putBytes data pos bytes i = data i :=
  Memory.write_outside h

theorem putBytes_inside {data : ℕ → UInt8} {pos i : ℕ} {bytes : List UInt8} (h : i < bytes.length) :
    putBytes data pos bytes (pos + i) = bytes.getD i 0 :=
  Memory.write_inside h

theorem labelChars_length (name : List UInt8) : (labelChars name).length ≤ 16 := List.length_take_le 16 _

section

variable {param : Param} {name : List UInt8} {id dos : UInt8 × UInt8} {data : ℕ → UInt8} {i : ℕ}

theorem formatCopyLabel_outside (hlabel : i < param.labelOffset ∨ param.labelOffset + 25 ≤ i)
    (hid : i < param.idOffset ∨ param.idOffset + 5 ≤ i) : formatCopyLabel param name id dos data i = data i := by
  have hlength := labelChars_length name
  rw [formatCopyLabel, putBytes_outside hid, putBytes_outside (by omega), Memory.write_outside hlabel]

/-- The label holds the name, padded with shifted spaces. -/
theorem formatCopyLabel_label (hid : param.labelOffset + 16 ≤ param.idOffset) (hi : i < 16) :
    formatCopyLabel param name id dos data (param.labelOffset + i) = (labelChars name).getD i 0xa0 := by
  rw [formatCopyLabel, putBytes_outside (.inl (by omega))]
  by_cases hchar : i < (labelChars name).length
  · rw [putBytes_inside hchar, List.getD_eq_getElem _ _ hchar, List.getD_eq_getElem _ _ hchar]
  · rw [putBytes_outside (by omega), Memory.write_inside (by omega), List.getD_eq_default _ _ (by omega)]

end

namespace Partition

variable {p : Partition}

/-- The bytes of the BAM in 18/0 are neither in its first four bytes nor in the label. -/
theorem bamByte_d41 (hm : p.Mounted) (htype : p.imagetype.type = .d41 ∨ p.imagetype.type = .d71) {i : ℕ}
    (h1 : 1 ≤ track) (h2 : track ≤ p.d64data.lastTrack) (hi : i < 256)
    (h : p.BamByte track (sectorOffset p.imagetype.type 18 0 + i)) : 4 ≤ i ∧ i < 144 ∨ 221 ≤ i := by
  have hlast := hm.lastTrack
  have hbam : IsBamSector p.imagetype.type 18 0 := by
    rcases htype with h | h <;> rw [h] <;> decide
  obtain ⟨data, j, -, hj, ht, -, rfl⟩ := h.inSector (y := (18, 0)) hm h2 hbam hi
  rcases htype with h | h <;> rw [h] at hlast hj ht ⊢
  · cases data <;> simp only [bamPosition, BamData.extent, BamData.skip, bitmapBytes] at hlast hj ⊢ <;> omega
  · by_cases hside : track > 35
    · cases data with
      | bitfield =>
        simp only [bamPosition, hside, true_and, if_true] at ht
        omega
      | freecount =>
        simp only [bamPosition, hside, BamData.extent, true_and, if_true, reduceCtorEq, if_false] at hlast hj ⊢
        omega
    · cases data <;> simp only [bamPosition, hside, BamData.extent, BamData.skip, bitmapBytes, false_and,
        if_false] at hlast hj ⊢ <;> omega

/-- The bytes of the BAM in 40/1 and 40/2 are behind the signature. -/
theorem bamByte_d81 (hm : p.Mounted) (htype : p.imagetype.type = .d81) {i q : ℕ} (hq : q = 1 ∨ q = 2)
    (h1 : 1 ≤ track) (h2 : track ≤ p.d64data.lastTrack) (hi : i < 256)
    (h : p.BamByte track (sectorOffset p.imagetype.type 40 q + i)) : 16 ≤ i := by
  have hlast := hm.lastTrack
  have hbam : IsBamSector p.imagetype.type 40 q := by
    rw [htype]
    exact ⟨rfl, hq⟩
  obtain ⟨data, j, -, -, -, -, rfl⟩ := h.inSector (y := (40, q)) hm h2 hbam hi
  rw [htype] at hlast ⊢
  have hle : track ≤ 80 := h2.trans hlast
  have hpos : 10 + (if track > 40 then track - 40 else track) * 6 + data.skip < 256 := by
    cases data <;> simp only [BamData.skip] <;> split <;> omega
  simp only [bamPosition]
  rw [Nat.mod_eq_of_lt hpos]
  split <;> omega

/-- The bytes of the BAM in 1/2 are behind the signature. -/
theorem bamByte_dnp (hm : p.Mounted) (htype : p.imagetype.type = .dnp) {i : ℕ}
    (h1 : 1 ≤ track) (h2 : track ≤ p.d64data.lastTrack) (hi : i < 256)
    (h : p.BamByte track (sectorOffset p.imagetype.type 1 2 + i)) : 32 ≤ i := by
  have hlast := hm.lastTrack
  have hbam : IsBamSector p.imagetype.type 1 2 := by
    rw [htype]
    decide
  obtain ⟨data, j, -, -, -, hq, rfl⟩ := h.inSector (y := (1, 2)) hm h2 hbam hi
  rw [htype] at hlast hq ⊢
  simp only [bamPosition] at hlast hq ⊢
  omega

/-! ### The empty disk -/

/-- The first sector of the root directory. On a DNP image the header of the directory leads to it. -/
def firstDirSector (p : Partition) : ℕ × ℕ :=
  if p.isDnp then
    let header := p.sectorData p.d64data.dirTrack p.d64data.dirStartSector
    ((header 0).toNat, (header 1).toNat)
  else (p.d64data.dirTrack, p.d64data.dirStartSector)

/-- The byte `i` of the disk label. -/
def labelByte (p : Partition) (i : ℕ) : UInt8 :=
  p.sectorData p.d64data.dirTrack (if p.isDnp then 1 else 0) (p.d64data.labelOffset + i)

end Partition

/-- The sectors that are allocated on an empty disk. -/
def systemSectors : DxxType → List (ℕ × ℕ)
  | .d41 => trackSectors 18 2
  | .d71 => trackSectors 18 2 ++ trackSectors 53 19
  | .d81 => trackSectors 40 4
  | .dnp => trackSectors 1 35
  | .d80 | .d82 | .none => []

/-- A consistent disk that is empty and has a name: the directory is one sector without entries. -/
structure EmptyDisk (p : Partition) (name : List UInt8) : Prop where
  counted : p.Consistent
  allocated : ∀ t q, p.Valid t q ∧ p.isFree t q = false ↔ (t, q) ∈ systemSectors p.imagetype.type
  directory : ∀ i < 256, p.sectorData p.firstDirSector.1 p.firstDirSector.2 i = emptyDirSector i
  label : ∀ i < 16, p.labelByte i = (labelChars name).getD i 0xa0

namespace Partition

variable {p p' : Partition}

theorem sectorData_setSector {i : ℕ} (hi : i < 256) (data : ℕ → UInt8) :
    (p.setSector track sector data).sectorData track sector i = data i :=
  Memory.write_inside hi

theorem sectorData_setSector_other {t q i : ℕ} (data : ℕ → UInt8)
    (h : sectorOffset p.imagetype.type t q + i < sectorOffset p.imagetype.type track sector ∨
      sectorOffset p.imagetype.type track sector + 256 ≤ sectorOffset p.imagetype.type t q + i) :
    (p.setSector track sector data).sectorData t q i = p.sectorData t q i :=
  Memory.write_outside h

theorem d41Header_sameBam (hm : p.Mounted) (htype : p.imagetype.type = .d41 ∨ p.imagetype.type = .d71)
    {param : Param} (hlabel : param.labelOffset = 0x90) (hid : param.idOffset = 0xa2) (name : List UInt8)
    (id : UInt8 × UInt8) : SameBam p (p.editSector 18 0 (d41Header param name id)) := by
  refine editSector_sameBam (y := (18, 0)) fun t i h1 h2 hi hbyte data => ?_
  have hplace := bamByte_d41 hm htype h1 h2 hi hbyte
  rw [d41Header, putBytes_outside (by simp only [List.length_cons, List.length_nil]; omega),
    formatCopyLabel_outside (by omega) (by omega),
    putBytes_outside (by simp only [List.length_cons, List.length_nil]; omega)]

theorem formatD41_allocates (hm : p.Mounted) (htype : p.imagetype.type = .d41 ∨ p.imagetype.type = .d71)
    (hlabel : p.d64data.labelOffset = 0x90) (hid : p.d64data.idOffset = 0xa2) (hlast : 35 ≤ p.d64data.lastTrack)
    (name : List UInt8) (id : UInt8 × UInt8) : Allocates p (p.formatD41 name id) (trackSectors 18 2) := by
  have hvalid : ∀ q < 2, p.Valid 18 q := by
    intro q hq
    refine ⟨by decide, by omega, ?_⟩
    rcases htype with h | h <;> rw [h] <;> exact hq.trans (by decide)
  have hmark := allocates_markAll hm (trackSectors 18 2) fun x hx => by
    obtain ⟨ht, hq⟩ := mem_trackSectors.mp hx
    rw [ht]
    exact hvalid _ hq
  have hm1 := hmark.mounted hm
  have htype1 : (p.markAll false (trackSectors 18 2)).imagetype.type = .d41 ∨
      (p.markAll false (trackSectors 18 2)).imagetype.type = .d71 := by rwa [hmark.imagetype]
  have hedit := d41Header_sameBam hm1 htype1 hlabel hid name id
  have hset := setSector_sameBam (hedit.mounted hm1) ((hmark.trans (hedit.allocates hm1)).valid.mpr (hvalid 1 (by decide)))
    (by
      rw [hedit.imagetype, hmark.imagetype]
      rcases htype with h | h <;> rw [h] <;> decide) emptyDirSector
  have hall := hmark.trans ((hedit.trans hset).allocates hm1)
  rwa [List.append_nil] at hall

theorem formatD41_label (hm : p.Mounted) (htype : p.imagetype.type = .d41 ∨ p.imagetype.type = .d71)
    (hlabel : p.d64data.labelOffset = 0x90) (hid : p.d64data.idOffset = 0xa2) (hlast : 35 ≤ p.d64data.lastTrack)
    (name : List UInt8) (id : UInt8 × UInt8) {i : ℕ} (hi : i < 16) :
    (p.formatD41 name id).sectorData 18 0 (0x90 + i) = (labelChars name).getD i 0xa0 := by
  have hkind := formatD41_allocates hm htype hlabel hid hlast name id
  have hnext : sectorOffset (p.formatD41 name id).imagetype.type 18 1 =
      sectorOffset (p.formatD41 name id).imagetype.type 18 0 + 256 := by
    rw [hkind.imagetype]
    rcases htype with h | h <;> rw [h] <;> decide
  rw [formatD41]
  refine (sectorData_setSector_other _ (.inl ?_)).trans ((sectorData_setSector (by omega) _).trans ?_)
  · refine Nat.lt_of_lt_of_eq ?_ hnext.symm
    exact Nat.add_lt_add_left (by omega) _
  · rw [d41Header, putBytes_outside (.inl (by omega)), ← hlabel]
    exact formatCopyLabel_label (by omega) hi

theorem formatD71_allocates (hm : p.Mounted) (htype : p.imagetype.type = .d71) (name : List UInt8)
    (id : UInt8 × UInt8) :
    Allocates p (p.formatD71 name id) (trackSectors 18 2 ++ trackSectors 53 19) ∧
      SameBam (p.formatD41 name id) ((p.formatD41 name id).editSector 18 0 fun data => putBytes data 3 [0x80]) := by
  have hparam := hm.param.2.1 htype
  have hd41 := formatD41_allocates hm (.inr htype) (by rw [hparam]; rfl) (by rw [hparam]; rfl)
    (by rw [hparam]; decide) name id
  have hm1 := hd41.mounted hm
  have hedit : SameBam (p.formatD41 name id)
      ((p.formatD41 name id).editSector 18 0 fun data => putBytes data 3 [0x80]) := by
    refine editSector_sameBam (y := (18, 0)) fun t i h1 h2 hi hbyte data => putBytes_outside ?_
    have hplace := bamByte_d41 hm1 (.inr (by rw [hd41.imagetype]; exact htype)) h1 h2 hi hbyte
    simp only [List.length_cons, List.length_nil]
    omega
  have hmark := allocates_markAll (hedit.mounted hm1) (trackSectors 53 19) fun x hx => by
    obtain ⟨ht, hq⟩ := mem_trackSectors.mp hx
    refine (hd41.toSameKind.trans hedit.toSameKind).valid.mpr ?_
    rw [ht]
    refine ⟨by decide, ?_, ?_⟩
    · rw [hparam]
      decide
    · rw [htype]
      exact hq
  exact ⟨hd41.trans ((hedit.allocates hm1).trans hmark), hedit⟩

/-- The second side is allocated in the BAM, and nothing else is written there. -/
theorem formatD71_sectorData (hm : p.Mounted) (htype : p.imagetype.type = .d71) (name : List UInt8)
    (id : UInt8 × UInt8) {q i : ℕ} (h : q = 1 ∧ i < 256 ∨ q = 0 ∧ 144 ≤ i ∧ i < 221) :
    (p.formatD71 name id).sectorData 18 q i = (p.formatD41 name id).sectorData 18 q i := by
  obtain ⟨-, hedit⟩ := formatD71_allocates hm htype name id
  have hparam := hm.param.2.1 htype
  have hkind := (formatD41_allocates hm (.inr htype) (by rw [hparam]; rfl) (by rw [hparam]; rfl)
    (by rw [hparam]; decide) name id).toSameKind.trans hedit.toSameKind
  have htype' := congrArg ImageType.type hkind.imagetype
  rw [htype] at htype'
  have hvalid : ∀ t q, ValidTS .d71 70 t q →
      ((p.formatD41 name id).editSector 18 0 fun data => putBytes data 3 [0x80]).Valid t q := by
    intro t q hv
    rw [hkind.valid, Valid, htype, hparam]
    exact hv
  have hmarked := markAll_marked (hkind.mounted hm) false (trackSectors 53 19) fun x hx => by
    obtain ⟨ht, hq⟩ := mem_trackSectors.mp hx
    rw [ht]
    exact hvalid 53 x.2 ⟨by decide, by decide, hq⟩
  have hbytes : (p.formatD71 name id).sectorData 18 q i =
      ((p.formatD41 name id).editSector 18 0 fun data => putBytes data 3 [0x80]).sectorData 18 q i := by
    rw [sectorData, formatD71, hmarked.imagetype, hmarked.bytes]
    · rfl
    · intro x hx hbyte
      rw [(mem_trackSectors.mp hx).1] at hbyte
      rcases h with ⟨rfl, hi⟩ | ⟨rfl, hlow, hhigh⟩
      · obtain ⟨data, j, -, -, hpos, heq⟩ := hbyte.position (hkind.mounted hm)
        refine not_inBam_of_valid (x := (18, 1)) (hkind.mounted hm) (hvalid 18 1 (by decide)) ?_ hi ?_
        · rw [htype']
          decide
        · rw [heq]
          exact bamAddress_inBam (by decide) hpos
      · have hplace := bamByte_d41 (hkind.mounted hm) (.inr htype') (by decide)
          (by rw [hkind.d64data, hparam]; decide) (by omega) hbyte
        omega
  rw [hbytes]
  have htype1 : (p.formatD41 name id).imagetype.type = .d71 := htype'
  rcases h with ⟨rfl, hi⟩ | ⟨rfl, hlow, hhigh⟩
  · refine sectorData_setSector_other _ (.inr ?_)
    rw [htype1, show sectorOffset .d71 18 1 = sectorOffset .d71 18 0 + 256 by decide]
    exact Nat.le_add_right _ _
  · refine (sectorData_setSector (by omega) _).trans (putBytes_outside ?_)
    simp only [List.length_cons, List.length_nil]
    omega

theorem formatD41_directory (name : List UInt8) (id : UInt8 × UInt8) {i : ℕ} (hi : i < 256) :
    (p.formatD41 name id).sectorData 18 1 i = emptyDirSector i :=
  sectorData_setSector hi _

/-- A header and the first directory sector are written behind the BAM. -/
theorem setHeader_sameBam (hm : p.Mounted) {q q' : ℕ} (hv : p.Valid track q) (hv' : p.Valid track q')
    (hbam : ¬IsBamSector p.imagetype.type track q) (hbam' : ¬IsBamSector p.imagetype.type track q')
    (data data' : ℕ → UInt8) : SameBam p ((p.setSector track q data).setSector track q' data') := by
  have hset := setSector_sameBam hm hv hbam data
  exact hset.trans (setSector_sameBam (hset.mounted hm) (hset.valid.mpr hv') hbam' data')

theorem d81Bam_sameBam (hm : p.Mounted) (htype : p.imagetype.type = .d81) {q : ℕ} (hq : q = 1 ∨ q = 2)
    (id : UInt8 × UInt8) (a b : UInt8) : SameBam p (p.editSector 40 q (d81Bam id [a, b])) := by
  refine editSector_sameBam (y := (40, q)) fun t i h1 h2 hi hbyte data => ?_
  have hplace := bamByte_d81 hm htype hq h1 h2 hi hbyte
  rw [d81Bam, formatAddBamSignature, putBytes_outside (by simp only [List.length_cons, List.length_nil]; omega),
    putBytes_outside (by simp only [List.length_cons, List.length_nil]; omega)]

theorem formatD81_allocates (hm : p.Mounted) (htype : p.imagetype.type = .d81) (name : List UInt8)
    (id : UInt8 × UInt8) : Allocates p (p.formatD81 name id) (trackSectors 40 4) := by
  have hvalid : ∀ q < 4, p.Valid 40 q := by
    intro q hq
    rw [Valid, htype, hm.param.2.2.1 htype]
    exact ⟨by decide, by decide, hq.trans (by decide)⟩
  have hmark := allocates_markAll hm (trackSectors 40 4) fun x hx => by
    obtain ⟨ht, hq⟩ := mem_trackSectors.mp hx
    rw [ht]
    exact hvalid _ hq
  have hm1 := hmark.mounted hm
  have htype1 : (p.markAll false (trackSectors 40 4)).imagetype.type = .d81 := by rw [hmark.imagetype]; exact htype
  have hedit1 := d81Bam_sameBam hm1 htype1 (.inl rfl) id 40 2
  have hedit := hedit1.trans (d81Bam_sameBam (hedit1.mounted hm1) htype1 (.inr rfl) id 0 0xff)
  have hkind := hmark.toSameKind.trans hedit.toSameKind
  have hbam : ∀ q, q ≠ 1 → q ≠ 2 → ¬IsBamSector (p.markAll false (trackSectors 40 4)).imagetype.type 40 q := by
    intro q h1 h2
    rw [htype1]
    rintro ⟨-, rfl | rfl⟩
    · exact h1 rfl
    · exact h2 rfl
  have hset := setHeader_sameBam (hedit.mounted hm1) (hkind.valid.mpr (hvalid 0 (by decide)))
    (hkind.valid.mpr (hvalid 3 (by decide))) (hbam 0 (by decide) (by decide)) (hbam 3 (by decide) (by decide))
    (d81Header p.d64data name id) emptyDirSector
  have hall := hmark.trans ((hedit.trans hset).allocates hm1)
  rwa [List.append_nil] at hall

theorem formatDnp_allocates (hm : p.Mounted) (htype : p.imagetype.type = .dnp) (hlast : 1 ≤ p.d64data.lastTrack)
    (name : List UInt8) (id : UInt8 × UInt8) : Allocates p (p.formatDnp name id) (trackSectors 1 35) := by
  have hvalid : ∀ q < 35, p.Valid 1 q := by
    intro q hq
    rw [Valid, htype]
    exact ⟨le_rfl, hlast, hq.trans (by decide)⟩
  have hmark := allocates_markAll hm (trackSectors 1 35) fun x hx => by
    obtain ⟨ht, hq⟩ := mem_trackSectors.mp hx
    rw [ht]
    exact hvalid _ hq
  have hm1 := hmark.mounted hm
  have htype1 : (p.markAll false (trackSectors 1 35)).imagetype.type = .dnp := by rw [hmark.imagetype]; exact htype
  have hedit : SameBam (p.markAll false (trackSectors 1 35))
      ((p.markAll false (trackSectors 1 35)).editSector 1 2 (dnpBam p.d64data.lastTrack id)) := by
    refine editSector_sameBam (y := (1, 2)) fun t i h1 h2 hi hbyte data => ?_
    have hplace := bamByte_dnp hm1 htype1 h1 h2 hi hbyte
    rw [dnpBam, formatAddBamSignature, putBytes_outside (by simp only [List.length_cons, List.length_nil]; omega),
      putBytes_outside (by simp only [List.length_cons, List.length_nil]; omega)]
  have hkind := hmark.toSameKind.trans hedit.toSameKind
  have hbam : ∀ q, q < 2 ∨ 34 ≤ q → ¬IsBamSector (p.markAll false (trackSectors 1 35)).imagetype.type 1 q := by
    intro q hq
    rw [htype1]
    rintro ⟨-, h2, h34⟩
    omega
  have hset := setHeader_sameBam (hedit.mounted hm1) (hkind.valid.mpr (hvalid 1 (by decide)))
    (hkind.valid.mpr (hvalid 34 (by decide))) (hbam 1 (by decide)) (hbam 34 (by decide))
    (dnpHeader p.d64data name id) emptyDirSector
  have hall := hmark.trans ((hedit.trans hset).allocates hm1)
  rwa [List.append_nil] at hall

/-- The header sector of a directory, which the first directory sector does not overlap. -/
theorem sectorData_header {q q' i : ℕ} {data data' : ℕ → UInt8} (hi : i < 256)
    (hnext : sectorOffset p.imagetype.type track q + 256 ≤ sectorOffset p.imagetype.type track q') :
    ((p.setSector track q data).setSector track q' data').sectorData track q i = data i := by
  refine (sectorData_setSector_other _ (.inl ?_)).trans (sectorData_setSector hi _)
  show sectorOffset p.imagetype.type track q + i < sectorOffset p.imagetype.type track q'
  omega

/-- What the function for the format of an image leaves on a disk. -/
structure Laid (p p' : Partition) (name : List UInt8) : Prop where
  allocates : Allocates p p' (systemSectors p.imagetype.type)
  directory : ∀ i < 256, p'.sectorData p'.firstDirSector.1 p'.firstDirSector.2 i = emptyDirSector i
  label : ∀ i < 16, p'.labelByte i = (labelChars name).getD i 0xa0

/-- The formats with a fixed directory. -/
theorem laid_of_fixed (hm : p.Mounted) (hdnp : p.imagetype.type ≠ .dnp) {name : List UInt8}
    (hall : Allocates p p' (systemSectors p.imagetype.type))
    (hdir : ∀ i < 256, p'.sectorData p.d64data.dirTrack p.d64data.dirStartSector i = emptyDirSector i)
    (hlabel : ∀ i < 16, p'.sectorData p.d64data.dirTrack 0 (p.d64data.labelOffset + i) =
      (labelChars name).getD i 0xa0) : Laid p p' name := by
  have hno : ¬p'.isDnp = true := by
    rw [isDnp, hall.imagetype]
    exact fun htrue => hdnp (hm.isDnp_iff.mp htrue)
  refine ⟨hall, ?_, ?_⟩
  · rw [firstDirSector, if_neg hno, hall.d64data]
    exact hdir
  · intro i hi
    rw [labelByte, if_neg hno, hall.d64data]
    exact hlabel i hi

/-- The header of a DNP image begins with the link to the directory. -/
theorem dnpHeader_link {param : Param} {name : List UInt8} {id : UInt8 × UInt8} {i : ℕ} (hi : i < 2)
    (hlabel : param.labelOffset > 1) (hid : param.idOffset > 1) :
    dnpHeader param name id i = if i = 0 then 1 else 34 := by
  rw [dnpHeader, putBytes_outside (.inl (by omega)), formatCopyLabel_outside (.inl (by omega)) (.inl (by omega)),
    putBytes, Memory.write_zero (by simp only [List.length_cons, List.length_nil]; omega)]
  obtain rfl | rfl : i = 0 ∨ i = 1 := by omega
  · rfl
  · rfl

theorem formatSystem_laid (hm : p.Mounted) (htype : p.imagetype.type ∈ [DxxType.d41, .d71, .d81, .dnp])
    (hlast : 1 ≤ p.d64data.lastTrack) (name : List UInt8) (id : UInt8 × UInt8) :
    Laid p (p.formatSystem name id) name := by
  cases h : p.imagetype.type <;> rw [h] at htype
  case d41 =>
    have hparam := hm.param.1 h
    have hall := formatD41_allocates hm (.inl h) (by rw [hparam]; rfl) (by rw [hparam]; rfl)
      (by rw [hparam]; decide) name id
    rw [formatSystem, h]
    refine laid_of_fixed hm (by rw [h]; decide) (by rw [h]; exact hall) ?_ ?_ <;> rw [hparam]
    · exact fun i hi => formatD41_directory name id hi
    · exact fun i hi => formatD41_label hm (.inl h) (by rw [hparam]; rfl) (by rw [hparam]; rfl)
        (by rw [hparam]; decide) name id hi
  case d71 =>
    have hparam := hm.param.2.1 h
    rw [formatSystem, h]
    refine laid_of_fixed hm (by rw [h]; decide) (by rw [h]; exact (formatD71_allocates hm h name id).1) ?_ ?_ <;>
      rw [hparam]
    · intro i hi
      exact (formatD71_sectorData hm h name id (.inl ⟨rfl, hi⟩)).trans (formatD41_directory name id hi)
    · intro i hi
      refine (formatD71_sectorData hm h name id (.inr ⟨rfl, ?_⟩)).trans (formatD41_label hm (.inr h)
        (by rw [hparam]; rfl) (by rw [hparam]; rfl) (by rw [hparam]; decide) name id hi)
      show 144 ≤ 144 + i ∧ 144 + i < 221
      omega
  case d81 =>
    have hparam := hm.param.2.2.1 h
    have hall := formatD81_allocates hm h name id
    rw [formatSystem, h]
    refine laid_of_fixed hm (by rw [h]; decide) (by rw [h]; exact hall) ?_ ?_ <;> rw [hparam]
    · exact fun i hi => sectorData_setSector hi _
    · intro i hi
      have hkind : (p.formatD81 name id).imagetype.type = .d81 := by
        rw [hall.imagetype]
        exact h
      refine (sectorData_header (show 4 + i < 256 by omega) ?_).trans ?_
      · show sectorOffset (p.formatD81 name id).imagetype.type 40 0 + 256 ≤
          sectorOffset (p.formatD81 name id).imagetype.type 40 3
        rw [hkind]
        decide
      · rw [d81Header, hparam]
        exact formatCopyLabel_label (show d81param.labelOffset + 16 ≤ d81param.idOffset by decide) hi
  case dnp =>
    have hparam := hm.param.2.2.2 h
    have hall := formatDnp_allocates hm h hlast name id
    have hkind : (p.formatDnp name id).imagetype.type = .dnp := by
      rw [hall.imagetype]
      exact h
    have hdnp : (p.formatDnp name id).isDnp = true := (hall.mounted hm).isDnp_iff.mpr hkind
    have hheader : ∀ i < 256, (p.formatDnp name id).sectorData 1 1 i = dnpHeader p.d64data name id i := by
      intro i hi
      refine sectorData_header hi ?_
      show sectorOffset (p.formatDnp name id).imagetype.type 1 1 + 256 ≤
        sectorOffset (p.formatDnp name id).imagetype.type 1 34
      rw [hkind]
      decide
    rw [formatSystem, h]
    refine ⟨by rw [h]; exact hall, ?_, ?_⟩
    · have hlink : (p.formatDnp name id).firstDirSector = (1, 34) := by
        rw [firstDirSector, if_pos hdnp, hall.d64data, hparam]
        dsimp only
        show (((p.formatDnp name id).sectorData 1 1 0).toNat, ((p.formatDnp name id).sectorData 1 1 1).toNat) = _
        rw [hheader 0 (by decide), hheader 1 (by decide), hparam, dnpHeader_link (by decide) (show 4 > 1 by decide)
          (show 22 > 1 by decide), dnpHeader_link (by decide) (show 4 > 1 by decide) (show 22 > 1 by decide)]
        rfl
      rw [hlink]
      exact fun i hi => sectorData_setSector hi _
    · intro i hi
      rw [labelByte, if_pos hdnp, hall.d64data, hparam]
      show (p.formatDnp name id).sectorData 1 1 (4 + i) = _
      rw [hheader _ (by omega), dnpHeader, putBytes_outside (.inl (by omega)), hparam]
      have hid : Param.labelOffset { dnpparam with lastTrack := p.d64data.lastTrack } + 16 ≤
          Param.idOffset { dnpparam with lastTrack := p.d64data.lastTrack } := show 4 + 16 ≤ 22 by decide
      exact formatCopyLabel_label hid hi
  all_goals exact absurd htype (by decide)

/-! ### The disk with all sectors free -/

/-- The image before the system sectors are allocated. -/
def opened (p : Partition) (id : Option (UInt8 × UInt8)) : Partition :=
  (p.setAll (fun _ => 0) (p.cleared id)).markAll true (imageSectors p.imagetype.type p.d64data.lastTrack)

/-- The free sectors of a track in the old BAM, where they are still in the BAM when the counter of the
track has been cleared: on the second side of a D71 image that is formatted without an ID. -/
def surplus (p : Partition) (id : Option (UInt8 × UInt8)) (track : ℕ) : ℕ :=
  if p.imagetype.type = .d71 ∧ id = none ∧ 36 ≤ track then p.freeBits track else 0

theorem mem_cleared (hm : p.Mounted) (hlast : 1 ≤ p.d64data.lastTrack) (id : Option (UInt8 × UInt8)) {q : ℕ}
    (hq : q < sectorsPerTrack p.imagetype.type p.d64data.dirTrack) : (p.d64data.dirTrack, q) ∈ p.cleared id := by
  rw [cleared]
  split
  · obtain ⟨h1, h2⟩ := hm.dirTrack hlast
    exact mem_imageSectors.mpr ⟨h1, h2, hq⟩
  · exact mem_trackSectors.mpr ⟨rfl, hq⟩

/-- The counters are on the directory track, and so are the bitmaps but for those of the second side of
a D71 image. -/
theorem bamPosition_dirTrack (hm : p.Mounted) (htype : p.imagetype.type ∈ [DxxType.d41, .d71, .d81]) {data : BamData}
    (hside : p.imagetype.type = .d71 → data = .bitfield → track ≤ 35) :
    (bamPosition p.imagetype.type track data).1 = p.d64data.dirTrack ∧
      (bamPosition p.imagetype.type track data).2.1 < sectorsPerTrack p.imagetype.type p.d64data.dirTrack := by
  cases h : p.imagetype.type <;> rw [h] at htype hside
  case d41 =>
    rw [hm.param.1 h]
    exact ⟨rfl, show 0 < sectorsPerTrack .d41 18 by decide⟩
  case d71 =>
    rw [hm.param.2.1 h, bamPosition]
    split
    · next hboth => exact absurd (hside rfl hboth.2) (by omega)
    · split <;> exact ⟨rfl, show 0 < sectorsPerTrack .d71 18 by decide⟩
  case d81 =>
    rw [hm.param.2.2.1 h]
    refine ⟨rfl, ?_⟩
    show (if track < 41 then 1 else 2) < sectorsPerTrack .d81 40
    split <;> decide
  all_goals exact absurd htype (by decide)

theorem mem_cleared_of_bam (hm : p.Mounted) (hlast : 1 ≤ p.d64data.lastTrack)
    (htype : p.imagetype.type ∈ [DxxType.d41, .d71, .d81]) (id : Option (UInt8 × UInt8)) {data : BamData}
    (hside : p.imagetype.type = .d71 → data = .bitfield → track ≤ 35) :
    ((bamPosition p.imagetype.type track data).1, (bamPosition p.imagetype.type track data).2.1) ∈ p.cleared id := by
  obtain ⟨htrack, hsector⟩ := bamPosition_dirTrack hm htype hside
  rw [htrack]
  exact mem_cleared hm hlast id hsector

theorem sectorsFree_cleared (hm : p.Mounted) (htype : p.imagetype.type ∈ [DxxType.d41, .d71, .d81])
    (id : Option (UInt8 × UInt8)) (h1 : 1 ≤ track) (h2 : track ≤ p.d64data.lastTrack) :
    (p.setAll (fun _ => 0) (p.cleared id)).sectorsFree track = 0 := by
  have hkind := setAll_kind (fun _ => 0) (p.cleared id) p
  have hdnp : p.imagetype.type ≠ .dnp := fun h => absurd (h ▸ htype) (by decide)
  have hside : p.imagetype.type = .d71 → BamData.freecount = .bitfield → track ≤ 35 := fun _ h => nomatch h
  have hzero := zero_of_cleared (i := 0) (mem_cleared_of_bam hm (h1.trans h2) htype id hside)
    (bamPosition_freecount _ _).1
  rw [Nat.add_zero] at hzero
  rw [sectorsFree_count _ (by rw [hkind.imagetype]; exact hdnp) h1 (by rw [hkind.d64data]; exact h2),
    hkind.bamAddress, hzero]
  rfl

/-- The bits of the second side of a D71 image stay when only the directory track is cleared. -/
theorem isFree_second_side (hm : p.Mounted) (htype : p.imagetype.type = .d71) (hv : p.Valid track sector)
    (hside : 36 ≤ track) : (p.setAll (fun _ => 0) (p.cleared none)).isFree track sector = p.isFree track sector := by
  have hkind := setAll_kind (fun _ => 0) (p.cleared none) p
  have hposition : bamPosition p.imagetype.type track .bitfield = (53, 0, (track - 36) * 3 % 256) := by
    rw [htype]
    exact if_pos ⟨by omega, rfl⟩
  have hpos := bamPosition_bitfield hm hv
  rw [Partition.isFree, hkind.bitAddress, setAll_outside, isDnp, hkind.imagetype]
  · rfl
  · rintro ⟨x, hx, hlow, hhigh⟩
    have hvalid := valid_cleared hm (hv.1.trans hv.2.1) none x hx
    rw [cleared, if_neg (by decide), hm.param.2.1 htype] at hx
    have hlba : sectorLba p.imagetype.type x.1 x.2 = sectorLba p.imagetype.type 53 0 := by
      rw [bitAddress, bamAddress, hposition] at hlow hhigh
      rw [hposition] at hpos
      simp only [sectorOffset] at hlow hhigh hpos
      omega
    obtain ⟨hx53, -⟩ := bamSector_apart hm hvalid (by rw [htype]; decide) hlba
    have hx18 : x.1 = 18 := (mem_trackSectors.mp hx).1
    omega

theorem freeBits_cleared (hm : p.Mounted) (htype : p.imagetype.type ∈ [DxxType.d41, .d71, .d81])
    (id : Option (UInt8 × UInt8)) (h1 : 1 ≤ track) (h2 : track ≤ p.d64data.lastTrack) :
    (p.setAll (fun _ => 0) (p.cleared id)).freeBits track = p.surplus id track := by
  have hkind := setAll_kind (fun _ => 0) (p.cleared id) p
  rw [freeBits, hkind.imagetype, surplus]
  split
  · next hquick =>
    obtain ⟨h71, rfl, hside⟩ := hquick
    exact Tally.tally_congr fun q hq => isFree_second_side hm h71 ⟨h1, h2, hq⟩ hside
  · next hquick =>
    have hbam : ((bamPosition p.imagetype.type track .bitfield).1,
        (bamPosition p.imagetype.type track .bitfield).2.1) ∈ p.cleared id := by
      by_cases hside : p.imagetype.type = .d71 ∧ 36 ≤ track
      · have hid : id.isSome = true := by
          cases id with
          | none => exact absurd ⟨hside.1, rfl, hside.2⟩ hquick
          | some id => rfl
        rw [cleared, if_pos hid, hside.1, hm.param.2.1 hside.1, mem_imageSectors, bamPosition,
          if_pos ⟨by omega, rfl⟩]
        exact show ValidTS .d71 70 53 0 by decide
      · exact mem_cleared_of_bam hm (h1.trans h2) htype id fun h71 _ => by
          by_contra hgt
          exact hside ⟨h71, by omega⟩
    by_contra hne
    obtain ⟨q, hq, hfree⟩ := Tally.tally_ne_zero_iff.mp hne
    rw [isFree_of_cleared hm ⟨h1, h2, hq⟩ hbam] at hfree
    cases hfree

/-- When all sectors are free, each counter is short by the sectors that were free before. -/
theorem opened_counts (hm : p.Mounted) (htype : p.imagetype.type ∈ [DxxType.d41, .d71, .d81])
    (id : Option (UInt8 × UInt8)) (h1 : 1 ≤ track) (h2 : track ≤ p.d64data.lastTrack) :
    (p.opened id).sectorsFree track + p.surplus id track = (p.opened id).freeBits track := by
  have hkind := setAll_kind (fun _ => 0) (p.cleared id) p
  refine markAll_short (hkind.mounted hm) ?_ (fun x hx => hkind.valid.mpr (mem_imageSectors.mp hx)) h1
    (by rw [hkind.d64data]; exact h2) ?_
  · rw [hkind.imagetype]
    exact fun h => absurd (h ▸ htype) (by decide)
  · rw [sectorsFree_cleared hm htype id h1 h2, freeBits_cleared hm htype id h1 h2, Nat.zero_add]

theorem opened_marked (hm : p.Mounted) (id : Option (UInt8 × UInt8)) :
    SameKind p (p.opened id) ∧ ∀ t q, p.Valid t q → (p.opened id).isFree t q = true := by
  have hkind := setAll_kind (fun _ => 0) (p.cleared id) p
  have hmarked := markAll_marked (hkind.mounted hm) true
    (imageSectors p.imagetype.type p.d64data.lastTrack) fun x hx => hkind.valid.mpr (mem_imageSectors.mp hx)
  exact ⟨hkind.trans hmarked.toSameKind, fun t q hv => hmarked.here (t, q) (mem_imageSectors.mpr hv)⟩

theorem valid_systemSectors (hm : p.Mounted) (hlast : 1 ≤ p.d64data.lastTrack) {x : ℕ × ℕ}
    (hx : x ∈ systemSectors p.imagetype.type) : p.Valid x.1 x.2 := by
  cases h : p.imagetype.type <;> rw [h] at hx <;> rw [Valid, h]
  case d41 =>
    obtain ⟨ht, hq⟩ := mem_trackSectors.mp hx
    rw [ht, hm.param.1 h]
    exact ⟨by decide, by decide, hq.trans (by decide)⟩
  case d71 =>
    rw [hm.param.2.1 h]
    rcases List.mem_append.mp hx with hx | hx <;> obtain ⟨ht, hq⟩ := mem_trackSectors.mp hx <;> rw [ht]
    · exact ⟨by decide, by decide, hq.trans (by decide)⟩
    · exact ⟨by decide, by decide, hq⟩
  case d81 =>
    obtain ⟨ht, hq⟩ := mem_trackSectors.mp hx
    rw [ht, hm.param.2.2.1 h]
    exact ⟨by decide, by decide, hq.trans (by decide)⟩
  case dnp =>
    obtain ⟨ht, hq⟩ := mem_trackSectors.mp hx
    rw [ht]
    exact ⟨le_rfl, hlast, hq.trans (by decide)⟩
  all_goals exact absurd hx List.not_mem_nil

/-- On the tracks with system sectors. -/
theorem mem_systemSectors_track {x : ℕ × ℕ} (htype : p.imagetype.type = .d71)
    (hx : x ∈ systemSectors p.imagetype.type) : x.1 = 18 ∨ x.1 = 53 := by
  rw [htype] at hx
  exact (List.mem_append.mp hx).imp (fun h => (mem_trackSectors.mp h).1) fun h => (mem_trackSectors.mp h).1

/-- No sector of the second side was free, but for those of track 53. -/
def SecondSideFull (p : Partition) : Prop :=
  ∀ t q, 36 ≤ t → t ≠ 53 → p.Valid t q → p.isFree t q = false

theorem surplus_eq_zero {id : Option (UInt8 × UInt8)}
    (h : p.imagetype.type = .d71 → id = none → p.SecondSideFull) (h1 : 1 ≤ track) (h2 : track ≤ p.d64data.lastTrack) (hne : track ≠ 53) :
    p.surplus id track = 0 := by
  rw [surplus]
  split
  · next hquick =>
    by_contra hbits
    obtain ⟨q, hq, hfree⟩ := Tally.tally_ne_zero_iff.mp hbits
    rw [h hquick.1 hquick.2.1 track q hquick.2.2 hne ⟨h1, h2, hq⟩] at hfree
    cases hfree
  · rfl

/-- The format without buffers leaves an empty disk exactly if no counter is short. -/
theorem format_emptyDisk_iff (hm : p.Mounted) (htype : p.imagetype.type ∈ [DxxType.d41, .d71, .d81, .dnp])
    (hlast : 1 ≤ p.d64data.lastTrack) (name : List UInt8) (id : Option (UInt8 × UInt8)) :
    EmptyDisk (p.format name id) name ↔ (p.imagetype.type = .d71 → id = none → p.SecondSideFull) := by
  obtain ⟨hkind, hfree⟩ := opened_marked hm id
  have hlaid : Laid (p.opened id) (p.format name id) name := formatSystem_laid (hkind.mounted hm)
    (by rw [hkind.imagetype]; exact htype) (by rw [hkind.d64data]; exact hlast) name (id.getD (oldId p))
  have hall := hlaid.allocates
  have hsame := hkind.trans hall.toSameKind
  rw [hkind.imagetype] at hall
  have hbit : ∀ t q, p.Valid t q → ((p.format name id).isFree t q = true ↔ (t, q) ∉ systemSectors p.imagetype.type) := by
    intro t q hv
    rw [hall.bits t q (hkind.valid.mpr hv)]
    exact and_iff_right (hfree t q hv)
  have hlast2 : ∀ {t}, t ≤ p.d64data.lastTrack → t ≤ (p.opened id).d64data.lastTrack := fun ht => by
    rw [hkind.d64data]
    exact ht
  constructor
  · intro hempty h71 hid t q hside hne hv
    have hcounted := hempty.counted t hv.1 (by rw [hsame.d64data]; exact hv.2.1)
    have hopen := hall.others t hv.1 (hlast2 hv.2.1) (fun x hx => by
      have hplace := mem_systemSectors_track h71 hx
      omega) hcounted
    have hshort := opened_counts hm (by rw [h71]; decide) id hv.1 hv.2.1
    rw [Counted] at hopen
    rw [surplus, if_pos ⟨h71, hid, hside⟩] at hshort
    by_contra hyes
    refine absurd (Tally.tally_ne_zero_iff.mpr ⟨q, hv.2.2, by simpa using hyes⟩) (not_not.mpr ?_)
    show p.freeBits t = 0
    omega
  · intro hfull
    refine ⟨fun t h1 h2 => ?_, fun t q => ?_, hlaid.directory, hlaid.label⟩
    · rw [hsame.d64data] at h2
      by_cases hdnp : p.imagetype.type = .dnp
      · exact counted_of_dnp (hsame.mounted hm) (by rw [hsame.imagetype]; exact hdnp) h1
          (by rw [hsame.d64data]; exact h2)
      · have htype' : p.imagetype.type ∈ [DxxType.d41, .d71, .d81] := by
          simp only [List.mem_cons, List.not_mem_nil, or_false] at htype ⊢
          tauto
        have hshort := opened_counts hm htype' id h1 h2
        by_cases hzero : p.surplus id t = 0
        · refine hall.counted t h1 (hlast2 h2) ?_
          rw [Counted]
          omega
        · -- only on track 53, which has no free sector any more
          have h53 : t = 53 := by
            by_contra hne
            exact hzero (surplus_eq_zero hfull h1 h2 hne)
          have h71 : p.imagetype.type = .d71 := by
            by_contra hno
            exact hzero (if_neg fun h => hno h.1)
          have hle := hall.le (by rw [hkind.imagetype]; exact hdnp) t h1 (hlast2 h2) (by omega)
          have hnone : (p.format name id).freeBits t = 0 := by
            by_contra hbits
            obtain ⟨q, hq, hset⟩ := Tally.tally_ne_zero_iff.mp hbits
            rw [hsame.imagetype] at hq
            refine (hbit t q ⟨h1, h2, hq⟩).mp hset ?_
            rw [h71, h53]
            refine List.mem_append_right _ (mem_trackSectors.mpr ⟨rfl, ?_⟩)
            rw [h71, h53] at hq
            exact hq
          have hle' : (p.format name id).sectorsFree t ≤ (p.format name id).freeBits t := hle
          rw [Counted]
          omega
    · rw [show (p.format name id).imagetype = p.imagetype from hsame.imagetype]
      constructor
      · rintro ⟨hv, hno⟩
        by_contra hout
        rw [(hbit t q (hsame.valid.mp hv)).mpr hout] at hno
        cases hno
      · intro hin
        have hv := valid_systemSectors hm hlast hin
        refine ⟨hsame.valid.mpr hv, ?_⟩
        by_contra hyes
        exact (hbit t q hv).mp (by simpa using hyes) hin

end Partition

/-! ### The format of the code -/

theorem d64BamCommit_sameFormat (s : State) : SameFormat s (d64BamCommit s).2 := by
  have hflush : ∀ s, SameFormat s (flushBam2 s).2 := by
    intro s
    rw [flushBam2]
    split
    · exact SameFormat.refl s
    · rw [bamBufferFlush]
      split
      · exact (imageWrite_sameFormat s _ _ _ _).congr rfl rfl
      · exact (SameFormat.refl s).congr rfl rfl
  exact (flushBam_sameFormat s).trans (hflush _)

theorem writeSectors_sameFormat (data : ℕ → UInt8) (xs : List (ℕ × ℕ)) (s : State) :
    SameFormat s (writeSectors part data xs s).2 := by
  induction xs generalizing s with
  | nil => exact SameFormat.refl s
  | cons x xs ih =>
    have hwrite := imageWrite_sameFormat s part (s.offset part x.1 x.2) 256 data
    rw [writeSectors]
    split
    · exact hwrite
    · exact hwrite.trans (ih _)

theorem markSectors_sameFormat (part : ℕ) (free : Bool) (xs : List (ℕ × ℕ)) (s : State) :
    SameFormat s (markSectors free part xs s) := by
  have hmark : ∀ (x : ℕ × ℕ) s, SameFormat s (markSector s free part x.1 x.2).2 := by
    intro x s
    cases free with
    | true => exact freeSector_sameFormat s part x.1 x.2
    | false => exact allocateSector_sameFormat s part x.1 x.2
  induction xs generalizing s with
  | nil => exact SameFormat.refl s
  | cons x xs ih => exact (hmark x s).trans (ih _)

theorem SameFormat.editBam {s₀ : State} (h : SameFormat s₀ s) (edit : (ℕ → UInt8) → ℕ → UInt8) :
    SameFormat s₀ (s.editBam edit) := h.congr rfl rfl

theorem SameFormat.dirtyBam {s₀ : State} (h : SameFormat s₀ s) : SameFormat s₀ s.dirtyBam := h.congr rfl rfl

theorem SameFormat.clearDirSector {s₀ : State} (h : SameFormat s₀ s) (t q : ℕ) :
    SameFormat s₀ (clearDirSector s part t q).2 := h.trans (imageWrite_sameFormat _ _ _ _ _)

theorem formatD41Image_sameFormat (name : List UInt8) (id : UInt8 × UInt8) (s : State) :
    SameFormat s (formatD41Image part name id s) := by
  have hmark := markSectors_sameFormat part false (trackSectors 18 2) s
  rw [formatD41Image]
  generalize markSectors false part (trackSectors 18 2) s = s1 at hmark ⊢
  exact (hmark.editBam _).clearDirSector 18 1

theorem formatD81Image_sameFormat (name : List UInt8) (id : UInt8 × UInt8) (s : State) :
    SameFormat s (formatD81Image part name id s) := by
  have hmark := markSectors_sameFormat part false (trackSectors 40 4) s
  rw [formatD81Image]
  generalize markSectors false part (trackSectors 40 4) s = s1 at hmark ⊢
  have hwindow := (hmark.editBam (d81Bam id [40, 2])).trans (sectorsFree_sameFormat _ part 41)
  generalize (sectorsFree (s1.editBam (d81Bam id [40, 2])) part 41).2 = s2 at hwindow ⊢
  have hwrite := fun data => ((hwindow.editBam (d81Bam id [0, 0xff])).dirtyBam).trans
    (imageWrite_sameFormat _ part ((40 - 1) * 40 * 256) 256 data)
  split
  · exact hwrite _
  · exact (hwrite _).clearDirSector 40 3

theorem formatDnpImage_sameFormat (name : List UInt8) (id : UInt8 × UInt8) (s : State) :
    SameFormat s (formatDnpImage part name id s) := by
  have hmark := markSectors_sameFormat part false (trackSectors 1 35) s
  rw [formatDnpImage]
  generalize markSectors false part (trackSectors 1 35) s = s1 at hmark ⊢
  have hwrite := fun data => (hmark.editBam (dnpBam (s1.lastTrack part) id)).trans
    (imageWrite_sameFormat _ part 256 256 data)
  split
  · exact hwrite _
  · exact (hwrite _).clearDirSector 1 34

theorem formatImage_sameFormat (name : List UInt8) (id : UInt8 × UInt8) (s : State) :
    SameFormat s (formatImage part name id s) := by
  rw [formatImage]
  split
  · exact formatD41Image_sameFormat name id s
  · rw [formatD71Image]
    exact ((formatD41Image_sameFormat name id s).editBam _).trans (markSectors_sameFormat _ _ _ _)
  · exact formatD81Image_sameFormat name id s
  · exact formatDnpImage_sameFormat name id s
  all_goals exact SameFormat.refl s

theorem clearImage_sameFormat (part : ℕ) (id : Option (UInt8 × UInt8)) (s : State) : SameFormat s (clearImage part id s).2.2 := by
  cases id with
  | some id => exact writeSectors_sameFormat _ _ s
  | none =>
    have hread : SameFormat s (d64Getid s part ((s.param part).dirTrack, 1)).2.2 := imageRead_sameFormat s _ _ _ _
    rw [clearImage]
    dsimp only
    split
    · exact hread
    · exact hread.trans (writeSectors_sameFormat _ _ _)

/-- No format changes what kind of disk it is. -/
theorem d64Format_sameFormat (part : ℕ) (room : Bool) (dir : ℕ × ℕ) (name : List UInt8) (id : Option (UInt8 × UInt8)) (s : State) :
    SameFormat s (d64Format room part dir name id s) := by
  have hdrop : SameFormat s (d64BamCommit s).2.dropBam := (d64BamCommit_sameFormat s).congr rfl rfl
  have hclear := hdrop.trans (clearImage_sameFormat part id _)
  rw [d64Format]
  split
  · exact SameFormat.refl s
  · split
    · dsimp only
      split
      · exact hclear
      · exact hclear.trans ((markSectors_sameFormat _ _ _ _).trans (formatImage_sameFormat _ _ _))
    · exact (SameFormat.refl s).congr rfl rfl

/-- What is on the disk after the format and `d64_bam_commit`. -/
theorem d64Format_result (hs : Coherent s) (hlt : part < s.maxPart) (hm : (s.partition part).Mounted)
    (htype : s.type part ∈ [DxxType.d41, .d71, .d81, .dnp]) (hlast : 1 ≤ s.lastTrack part) {dir : ℕ × ℕ}
    (hroot : s.isDnp part = true → dir = (1, 1)) (name : List UInt8) (id : Option (UInt8 × UInt8)) :
    (d64BamCommit (d64Format true part dir name id s)).2.partition part = (s.through part).format name id := by
  have hsystem : ∀ q ≤ (systemTrack (s.type part)).2, ((systemTrack (s.type part)).1, q) ∈ systemSectors (s.type part) := by
    intro q hq
    cases h : s.type part <;> rw [h] at htype hq
    case d41 => exact mem_trackSectors.mpr ⟨rfl, Nat.lt_succ_of_le hq⟩
    case d71 => exact List.mem_append_left _ (mem_trackSectors.mpr ⟨rfl, Nat.lt_succ_of_le hq⟩)
    case d81 => exact mem_trackSectors.mpr ⟨rfl, Nat.lt_succ_of_le hq⟩
    case dnp => exact mem_trackSectors.mpr ⟨rfl, Nat.lt_succ_of_le hq⟩
    all_goals exact absurd htype (by decide)
  have hbecomes := d64Format_ok hs hlt hm hlast hroot
    (fun q hq => Partition.valid_systemSectors (p := s.through part) hm hlast (hsystem q hq)) name id
  rw [d64BamCommit_through hbecomes.coherent, hbecomes.through_self]

/-- With no fault, `d64_format` makes a D41, D71, D81 or DNP image with any contents an empty disk,
exactly if the image has a track and no counter of a second side is short: without an ID only the
directory track of a D71 image is cleared, and with it the counters of the second side but not its
bitmaps. -/
theorem d64Format_empty_iff (hs : Coherent s) (hlt : part < s.maxPart) (hm : (s.partition part).Mounted)
    (htype : s.type part ∈ [DxxType.d41, .d71, .d81, .dnp]) {dir : ℕ × ℕ}
    (hroot : s.isDnp part = true → dir = (1, 1)) (name : List UInt8) (id : Option (UInt8 × UInt8)) :
    EmptyDisk ((d64BamCommit (d64Format true part dir name id s)).2.partition part) name ↔
      1 ≤ s.lastTrack part ∧ (s.type part = .d71 → id = none → (s.through part).SecondSideFull) := by
  by_cases hlast : 1 ≤ s.lastTrack part
  · rw [d64Format_result hs hlt hm htype hlast hroot name id, and_iff_right hlast]
    exact Partition.format_emptyDisk_iff (p := s.through part) hm htype hlast name id
  · -- no sector is on the disk, not even one for the system
    refine iff_of_false (fun hempty => hlast ?_) fun h => hlast h.1
    have hformat := (d64Format_sameFormat part true dir name id s).trans (d64BamCommit_sameFormat _)
    have hsome : ∃ x, x ∈ systemSectors (s.type part) := by
      cases h : s.type part <;> rw [h] at htype
      case d41 => exact ⟨(18, 0), by decide⟩
      case d71 => exact ⟨(18, 0), by decide⟩
      case d81 => exact ⟨(40, 0), by decide⟩
      case dnp => exact ⟨(1, 0), by decide⟩
      all_goals exact absurd htype (by decide)
    obtain ⟨x, hx⟩ := hsome
    have hvalid := ((hempty.allocated x.1 x.2).mpr (by rw [hformat.imagetype]; exact hx)).1
    have hrange := hvalid.1.trans hvalid.2.1
    rw [hformat.d64data] at hrange
    exact hrange

/-- A D71 image on which the sectors of track 36 are free, and no others. -/
def secondSide : State where
  partition _ := ⟨⟨.d71, false⟩, d71param, fun o =>
    if o = 91613 then 21 else if o = 266240 ∨ o = 266241 then 0xff else if o = 266242 then 0x1f else 0, true⟩
  maxPart := 1
  bamBuffer := ⟨255, 0, 0, false, fun _ => 0, 0⟩
  bamBuffer2 := none
  errorcache := ⟨255, 0, fun _ => 0⟩
  scratch _ := 0
  error := ⟨0, 0, 0⟩
  io _ := .ok
  sysFree _ := none

theorem secondSide_started : Started secondSide := ⟨rfl, by decide, ⟨rfl, rfl⟩, by rintro _ ⟨⟩⟩

/-- The witness of `d64Format_empty_iff`: a format with an ID. -/
theorem secondSide_empty :
    EmptyDisk ((d64BamCommit (d64Format true 0 (18, 1) [65, 66] (some (48, 49)) secondSide)).2.partition 0) [65, 66] :=
  (d64Format_empty_iff secondSide_started.coherent (by decide) ⟨349696, [], by decide⟩ (by decide) (by decide)
    [65, 66] (some (48, 49))).mpr ⟨by decide, nofun⟩

/-- Without an ID the sectors of track 36 stay free, and the counter of the track is 0. -/
theorem secondSide_not_empty :
    ((secondSide.partition 0).sectorsFree 36 = (secondSide.partition 0).freeBits 36) ∧
      ¬EmptyDisk ((d64BamCommit (d64Format true 0 (18, 1) [65, 66] none secondSide)).2.partition 0) [65, 66] := by
  refine ⟨by decide, fun hempty => ?_⟩
  have hm : (secondSide.partition 0).Mounted := ⟨349696, [], by decide⟩
  rw [d64Format_result secondSide_started.coherent (by decide) hm (by decide) (by decide) (by decide) [65, 66] none,
    secondSide_started.through] at hempty
  have hfull := (Partition.format_emptyDisk_iff hm (by decide) (by decide) [65, 66] none).mp hempty rfl rfl
  have hfree := hfull 36 0 (by decide) (by decide) (by decide : ValidTS .d71 70 36 0)
  exact absurd hfree (by decide)

end NoDiskEmu.Dxx
