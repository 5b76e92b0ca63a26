import NoDiskEmu.Dos.Listing
import Mathlib.Data.List.GetD
import Mathlib.Tactic.IntervalCases

/-! The raw directory, which a host reads as it reads the blocks of a directory on a disk: what
`rawdir_refill` and the talk loops make of the entries that `readdir` finds. -/

namespace NoDiskEmu.Dos

open Library

/-- The name of an entry, with shifted spaces behind it. -/
def rawName (dent : Dirent) : List UInt8 :=
  let name := Fat.nameChars dent.name
  name ++ List.replicate (Fat.CBM_NAME_LENGTH - name.length) 160

/-- An entry as a block of a directory has it, with the two bytes for a link in front. -/
def rawForm (dent : Dirent) : List UInt8 :=
  [0, 0, dent.typeflags ^^^ FLAG_SPLAT, 1, 0] ++ rawName dent ++ List.replicate 9 (0 : UInt8) ++
    [dent.blocksize.toUInt8, (dent.blocksize >>> 8).toUInt8]

/-- What is shown of an entry that `readdir` finds. -/
def shown (v : ListingInput) (dent : Dirent) : List Dirent :=
  if Listing.imageEntry v dent then
    if v.imageAsDir = .dir then [{ dent with typeflags := dent.typeflags &&& 240 ||| TYPE_DIR }]
    else [dent, { dent with typeflags := TYPE_DIR }]
  else [dent]

/-- A block of up to eight entries without its link: the rest of the block is zero. -/
def rawBlock (dents : List Dirent) : List UInt8 :=
  (dents.flatMap rawForm ++ List.replicate (32 * (8 - dents.length)) 0).drop 2

/-- The blocks of a directory: behind a full one there is always another one. -/
def rawBlocks (dents : List Dirent) : List UInt8 :=
  (List.range (dents.length / 8 + 1)).flatMap fun j => rawBlock ((dents.drop (8 * j)).take 8)

/-- The buffer of a raw directory, and the entries that `readdir` has not yet returned. -/
structure RawScan where
  listing : Listing
  entries : List Dirent

/-- What `readdir` returns next. -/
def RawScan.next (s : RawScan) : NextEntry :=
  match s.entries with
  | [] => .none
  | dent :: _ => .entry dent

/-- A raw directory as the talk loops use it; an entry that is shown a second time is not read again. -/
def rawChannel (v : ListingInput) : Channel RawScan where
  cursor s := s.listing.toCursor
  store s c := { s with listing := { s.listing with toCursor := c } }
  markDirty := id
  refill s :=
    let r := s.listing.callRefill { v with next := s.next }
    (r.1, ⟨r.2, if s.listing.counter &&& 128 = 0 then s.entries.tail else s.entries⟩)
  find s := if s.listing.allocated then some s else none
  command := false
  direct _ := false

theorem rawChannel_lawful (v : ListingInput) : (rawChannel v).Lawful where
  cursor_store _ _ := rfl
  store_store _ _ _ := rfl
  direct_store _ _ := rfl

/-! ### The shape of the blocks -/

theorem rawName_length (dent : Dirent) : (rawName dent).length = 16 := by
  have hle : (Fat.nameChars dent.name).length ≤ 16 := by
    rw [Fat.nameChars]
    refine (List.takeWhile_prefix _).length_le.trans ?_
    rw [List.length_map, List.length_range]
    rfl
  rw [rawName, List.length_append, List.length_replicate, show Fat.CBM_NAME_LENGTH = 16 from rfl]
  omega

theorem rawForm_length (dent : Dirent) : (rawForm dent).length = 32 := by
  simp only [rawForm, List.length_append, rawName_length, List.length_replicate, List.length_cons,
    List.length_nil]

theorem flatMap_rawForm_length (dents : List Dirent) :
    (dents.flatMap rawForm).length = 32 * dents.length := by
  induction dents with
  | nil => rfl
  | cons dent dents ih =>
    rw [List.flatMap_cons, List.length_append, rawForm_length, ih, List.length_cons]
    omega

theorem rawBlock_length {dents : List Dirent} (h : dents.length ≤ 8) : (rawBlock dents).length = 254 := by
  rw [rawBlock, List.length_drop, List.length_append, flatMap_rawForm_length, List.length_replicate]
  omega

theorem rawBlocks_length (dents : List Dirent) :
    (rawBlocks dents).length = 254 * (dents.length / 8 + 1) := by
  rw [rawBlocks]
  induction dents.length / 8 + 1 with
  | zero => rfl
  | succ m ih =>
    rw [List.range_succ, List.flatMap_append, List.length_append, ih, List.flatMap_singleton,
      rawBlock_length (List.length_take_le ..)]
    omega

theorem rawBlocks_of_lt {dents : List Dirent} (h : dents.length < 8) : rawBlocks dents = rawBlock dents := by
  rw [rawBlocks, Nat.div_eq_of_lt h, List.range_one, List.flatMap_singleton, Nat.mul_zero, List.drop_zero,
    List.take_of_length_le (by omega)]

theorem rawBlocks_append {block : List Dirent} (h : block.length = 8) (dents : List Dirent) :
    rawBlocks (block ++ dents) = rawBlock block ++ rawBlocks dents := by
  have hdiv : (block ++ dents).length / 8 + 1 = (dents.length / 8 + 1) + 1 := by
    rw [List.length_append, h]
    omega
  rw [rawBlocks, hdiv, List.range_succ_eq_map, List.flatMap_cons, List.flatMap_map, rawBlocks]
  congr 1
  · rw [Nat.mul_zero, List.drop_zero, List.take_append_of_le_length (by omega),
      List.take_of_length_le (by omega)]
  · apply List.flatMap_congr
    intro j _
    have hdrop : (block ++ dents).drop (8 * (j + 1)) = dents.drop (8 * j) := by
      rw [show 8 * (j + 1) = block.length + 8 * j by omega, List.drop_append, List.drop_of_length_le (by omega),
        Nat.add_sub_cancel_left]
      rfl
    rw [hdrop]

/-! ### What a call of `rawdir_refill` leaves -/

/-- `counter` with `k` entries in the block, and its bit 7. -/
def ctr (again : Bool) (k : ℕ) : UInt8 := .ofNat k ||| if again then 128 else 0

section

variable {again : Bool} {k : ℕ}

theorem ctr_flag (hk : k < 8) : ctr again k &&& 128 = 0 ↔ again = false := by
  interval_cases k <;> cases again <;> decide

theorem ctr_place (hk : k < 8) : ctr again k &&& 127 = 0 ↔ k = 0 := by
  interval_cases k <;> cases again <;> decide

theorem ctr_set (hk : k < 8) : ctr false k ||| 128 = ctr true k := by
  interval_cases k <;> decide

theorem ctr_clear (hk : k < 8) : ctr true k &&& 127 = ctr false k := by
  interval_cases k <;> decide

theorem ctr_next (hk : k < 8) :
    (if (ctr again k + 1) &&& 127 = 8 then (ctr again k + 1) &&& 128 else ctr again k + 1) =
      ctr again ((k + 1) % 8) := by
  interval_cases k <;> cases again <;> decide

theorem ctr_dummy (hk : k < 8) :
    (ctr false k ≠ 0 ↔ k ≠ 0) ∧ ctr false k + 1 = ctr false (k + 1) ∧ (ctr false (k + 1) = 8 ↔ k + 1 = 8) := by
  interval_cases k <;> decide

end

/-- The start of an entry in a block. -/
def startOf (k : ℕ) : ℕ := if k = 0 then 2 else 0

theorem startOf_succ (k : ℕ) : startOf (k + 1) = 0 := if_neg (Nat.succ_ne_zero k)

theorem fill_eq_drop {c : Cursor} {xs : List UInt8} (hlast : c.lastused = 31) (hlen : xs.length = 32)
    (hdata : ∀ i (h : i < xs.length), c.data i = xs[i]) : c.fill = xs.drop c.position := by
  rw [Cursor.fill, hlast]
  apply List.ext_getElem
  · rw [List.length_map, List.length_range, List.length_drop, hlen]
  · intro i hi _
    rw [List.length_map, List.length_range] at hi
    rw [List.getElem_map, List.getElem_range, List.getElem_drop]
    exact hdata _ _

/-- The buffer that a raw directory is read from; it has no `sendeoi` before its last fill. -/
structure Listing.Raw (b : Listing) : Prop where
  refill : b.refill = .rawdirRefill
  allocated : b.allocated = true
  read : b.read = true
  recordlen : b.recordlen = 0

namespace Listing

variable {b : Listing} {dent : Dirent} {v : ListingInput}

/-- The data of a buffer with an entry written to it. -/
def rawData (dent : Dirent) (data : ℕ → UInt8) : ℕ → UInt8 :=
  Memory.write (Function.update (Function.update (Function.update (Function.update data 3 1)
    30 dent.blocksize.toUInt8) 31 (dent.blocksize >>> 8).toUInt8) 2 (dent.typeflags ^^^ FLAG_SPLAT))
    5 (rawName dent).length fun i => (rawName dent).getD i 0

theorem rawdirEntry_eq (dent : Dirent) (b : Listing) :
    rawdirEntry dent b = (false, { b with
      data := rawData dent b.data
      position := if b.counter &&& 127 ≠ 0 then 0 else 2
      lastused := 31
      counter := if (b.counter + 1) &&& 127 = 8 then (b.counter + 1) &&& 128 else b.counter + 1 }) := by
  show (false, if (b.counter + 1) &&& 127 = 8 then _ else _) = _
  split
  · rfl
  · rfl

/-- The bytes of an entry in a buffer that was cleared. -/
theorem rawData_eq {data : ℕ → UInt8} (hzero : ∀ i < 32, data i = 0) (i : ℕ)
    (hi : i < (rawForm dent).length) : rawData dent data i = (rawForm dent)[i] := by
  have hname := rawName_length dent
  have hi' : i < 32 := rawForm_length dent ▸ hi
  have hhead : ([0, 0, dent.typeflags ^^^ FLAG_SPLAT, 1, 0] ++ rawName dent).length = 21 := by
    rw [List.length_append, hname]
    rfl
  have hfront : ([0, 0, dent.typeflags ^^^ FLAG_SPLAT, 1, 0] ++ rawName dent ++
      List.replicate 9 (0 : UInt8)).length = 30 := by
    rw [List.length_append, hhead, List.length_replicate]
  rw [rawData, hname]
  simp only [rawForm]
  obtain hlow | hin | hpad | hsize : i < 5 ∨ (5 ≤ i ∧ i < 21) ∨ (21 ≤ i ∧ i < 30) ∨ 30 ≤ i := by omega
  · rw [Memory.write_outside (by omega), List.getElem_append_left (by omega),
      List.getElem_append_left (by omega), List.getElem_append_left hlow]
    interval_cases i
    · exact hzero 0 (by omega)
    · exact hzero 1 (by omega)
    · rfl
    · rfl
    · exact hzero 4 (by omega)
  · obtain ⟨k, rfl⟩ := Nat.exists_eq_add_of_le hin.1
    rw [Memory.write_inside (by omega), List.getElem_append_left (by omega),
      List.getElem_append_left (by omega), List.getElem_append_right (Nat.le_add_right 5 k),
      List.getD_eq_getElem _ _ (by omega)]
    congr 1
    exact (Nat.add_sub_cancel_left 5 k).symm
  · rw [Memory.write_outside (by omega), List.getElem_append_left (by omega),
      List.getElem_append_right (by omega), List.getElem_replicate, Function.update_of_ne (by omega),
      Function.update_of_ne (by omega), Function.update_of_ne (by omega), Function.update_of_ne (by omega)]
    exact hzero i hi'
  · rw [Memory.write_outside (by omega), List.getElem_append_right (by omega)]
    simp only [hfront]
    interval_cases i
    · rfl
    · rfl

/-- An entry that is written to a cleared buffer. -/
structure Shows (dent : Dirent) (again : Bool) (k : ℕ) (saved : Dirent) (b : Listing) : Prop where
  raw : b.Raw
  sendeoi : b.sendeoi = false
  counter : b.counter = ctr again ((k + 1) % 8)
  saved : b.saved = saved
  position : b.position = startOf k
  lastused : b.lastused = 31
  fill : b.fill = (rawForm dent).drop (startOf k)

theorem rawdirEntry_shows {again : Bool} {k : ℕ} (hraw : b.Raw) (heoi : b.sendeoi = false)
    (hzero : ∀ i < 32, b.data i = 0) (hk : k < 8) (hcounter : b.counter = ctr again k) :
    (rawdirEntry dent b).1 = false ∧ Shows dent again k b.saved (rawdirEntry dent b).2 := by
  have hposition : (if b.counter &&& 127 ≠ 0 then 0 else 2) = startOf k := by
    rw [hcounter, startOf]
    by_cases hzero : k = 0
    · rw [if_pos hzero, if_neg (not_not.mpr ((ctr_place hk).mpr hzero))]
    · rw [if_neg hzero, if_pos fun h => hzero ((ctr_place hk).mp h)]
  rw [rawdirEntry_eq]
  refine ⟨rfl, ⟨hraw.refill, hraw.allocated, hraw.read, hraw.recordlen⟩, heoi, ?_, rfl, hposition, rfl, ?_⟩
  · dsimp only
    rw [hcounter, ctr_next hk]
  · rw [fill_eq_drop rfl (rawForm_length dent) (rawData_eq hzero), hposition]

end Listing

/-- A scan in front of its next fill: the entries that are still to be shown, and the place in the
block of the first of them. -/
structure Scanning (v : ListingInput) (s : RawScan) (rest : List Dirent) (k : ℕ) : Prop where
  raw : s.listing.Raw
  sendeoi : s.listing.sendeoi = false
  lt : k < 8
  pending : (s.listing.counter = ctr false k ∧ rest = s.entries.flatMap (shown v)) ∨
    (s.listing.counter = ctr true k ∧
      rest = { s.listing.saved with typeflags := TYPE_DIR } :: s.entries.flatMap (shown v))

variable {v : ListingInput} {s s' : RawScan}

/-- After a fill without EOI the buffer is filled again. -/
theorem afterFill_of_refill (heoi : s.listing.sendeoi = false)
    (hrefill : (rawChannel v).refill ((rawChannel v).store s s.listing.spent) = (false, s'))
    (halloc : s'.listing.allocated = true) : (rawChannel v).afterFill s = .more s' := by
  have hgo : ¬((rawChannel v).cursor s).spent.sendeoi = true := by
    show ¬s.listing.sendeoi = true
    rw [heoi]
    exact Bool.false_ne_true
  rw [Channel.afterFill, if_neg fun h => hgo h.1, Channel.refillFind, show ((rawChannel v).cursor s) = s.listing.toCursor from rfl,
    hrefill]
  dsimp only
  rw [if_neg Bool.false_ne_true, show (rawChannel v).find s' = some s' from if_pos halloc]

/-- The bytes that `rawdir_refill` clears first. -/
theorem cleared_zero (b : Listing) : ∀ i < 32, (b.copy 0 (List.replicate 32 0)).data i = 0 := by
  intro i hi
  rw [Listing.copy]
  dsimp only
  rw [List.length_replicate, Memory.write_zero hi]
  exact List.getD_replicate 0 hi

theorem rawChannel_refill (hraw : s.listing.refill = .rawdirRefill) :
    (rawChannel v).refill s = ((s.listing.rawdirRefill { v with next := s.next }).1,
      ⟨(s.listing.rawdirRefill { v with next := s.next }).2,
        if s.listing.counter &&& 128 = 0 then s.entries.tail else s.entries⟩) := by
  have hcall : s.listing.callRefill { v with next := s.next } =
      s.listing.rawdirRefill { v with next := s.next } := by
    rw [Listing.callRefill, hraw]
  rw [← hcall]
  rfl

/-- A fill with an entry that was read. -/
theorem rawdirRefill_entry {b : Listing} (dent : Dirent) {k : ℕ} (hraw : b.Raw) (heoi : b.sendeoi = false)
    (hk : k < 8) (hcounter : b.counter = ctr false k) :
    ∃ first more saved, shown v dent = first :: (if more then [{ saved with typeflags := TYPE_DIR }] else []) ∧
      (b.rawdirRefill { v with next := .entry dent }).1 = false ∧
      (b.rawdirRefill { v with next := .entry dent }).2.Shows first more k saved := by
  have hflag : b.counter &&& 128 = 0 := by
    rw [hcounter]
    exact (ctr_flag hk).mpr rfl
  have hzero := cleared_zero b
  have hrefill : b.rawdirRefill { v with next := .entry dent } =
      if Listing.imageEntry v dent then
        if v.imageAsDir = .dir then
          Listing.rawdirEntry { dent with typeflags := dent.typeflags &&& 240 ||| TYPE_DIR }
            (b.copy 0 (List.replicate 32 0))
        else Listing.rawdirEntry dent
          { b.copy 0 (List.replicate 32 0) with counter := b.counter ||| 128, saved := dent }
      else Listing.rawdirEntry dent (b.copy 0 (List.replicate 32 0)) := by
    rw [Listing.rawdirRefill]
    exact if_pos hflag
  rw [hrefill, shown]
  split
  · split
    · exact ⟨_, false, _, rfl, Listing.rawdirEntry_shows (b := b.copy 0 (List.replicate 32 0))
        ⟨hraw.refill, hraw.allocated, hraw.read, hraw.recordlen⟩ heoi hzero hk hcounter⟩
    · exact ⟨dent, true, dent, rfl, Listing.rawdirEntry_shows
        (b := { b.copy 0 (List.replicate 32 0) with counter := b.counter ||| 128, saved := dent })
        ⟨hraw.refill, hraw.allocated, hraw.read, hraw.recordlen⟩ heoi hzero hk
        ((congrArg (· ||| 128) hcounter).trans (ctr_set hk))⟩
  · exact ⟨dent, false, _, rfl, Listing.rawdirEntry_shows (b := b.copy 0 (List.replicate 32 0))
      ⟨hraw.refill, hraw.allocated, hraw.read, hraw.recordlen⟩ heoi hzero hk hcounter⟩

/-- A fill with an entry that is shown again. -/
theorem rawdirRefill_again {b : Listing} {k : ℕ} (next : NextEntry) (hraw : b.Raw)
    (heoi : b.sendeoi = false) (hk : k < 8) (hcounter : b.counter = ctr true k) :
    (b.rawdirRefill { v with next }).1 = false ∧
      (b.rawdirRefill { v with next }).2.Shows { b.saved with typeflags := TYPE_DIR } false k b.saved := by
  have hflag : ¬b.counter &&& 128 = 0 := by
    rw [hcounter, ctr_flag hk]
    exact Bool.noConfusion
  have hrefill : b.rawdirRefill { v with next } =
      Listing.rawdirEntry { b.saved with typeflags := TYPE_DIR }
        ((b.copy 0 (List.replicate 32 0)).setCounter (b.counter &&& 127)) := by
    rw [Listing.rawdirRefill]
    exact if_neg hflag
  rw [hrefill]
  exact Listing.rawdirEntry_shows (b := (b.copy 0 (List.replicate 32 0)).setCounter (b.counter &&& 127))
    ⟨hraw.refill, hraw.allocated, hraw.read, hraw.recordlen⟩ heoi (cleared_zero b) hk
    ((congrArg (· &&& 127) hcounter).trans (ctr_clear hk))

/-- A fill shows the next entry. -/
theorem Scanning.next {dent : Dirent} {rest : List Dirent} {k : ℕ} (h : Scanning v s (dent :: rest) k) :
    ∃ s', (rawChannel v).afterFill s = .more s' ∧ Scanning v s' rest ((k + 1) % 8) ∧
      s'.listing.position = startOf k ∧ s'.listing.lastused = 31 ∧
      s'.listing.fill = (rawForm dent).drop (startOf k) := by
  obtain ⟨hraw, heoi, hk, hpending⟩ := h
  set t := (rawChannel v).store s s.listing.spent with ht
  have htraw : t.listing.Raw := ⟨hraw.refill, hraw.allocated, hraw.read, hraw.recordlen⟩
  have hrefill := rawChannel_refill (v := v) htraw.refill
  have hk' : (k + 1) % 8 < 8 := Nat.mod_lt _ (by decide)
  obtain ⟨hcounter, hrest⟩ | ⟨hcounter, hrest⟩ := hpending
  · cases hentries : s.entries with
    | nil =>
      rw [hentries] at hrest
      exact absurd hrest (List.cons_ne_nil _ _)
    | cons found ds =>
      have hnext : t.next = .entry found := by
        show (match s.entries with | [] => NextEntry.none | dent :: _ => .entry dent) = _
        rw [hentries]
      obtain ⟨first, more, saved, hshown, hok, hshows⟩ :=
        rawdirRefill_entry (v := v) found htraw heoi hk hcounter
      rw [hentries, List.flatMap_cons, hshown] at hrest
      obtain ⟨rfl, rfl⟩ := List.cons.inj hrest
      have hflag : t.listing.counter &&& 128 = 0 := (congrArg (· &&& 128) hcounter).trans ((ctr_flag hk).mpr rfl)
      rw [hnext, hok, if_pos hflag, show t.entries = found :: ds from hentries, List.tail_cons] at hrefill
      refine ⟨_, afterFill_of_refill heoi hrefill hshows.raw.allocated, ⟨hshows.raw, hshows.sendeoi, hk', ?_⟩,
        hshows.position, hshows.lastused, hshows.fill⟩
      cases more with
      | false => exact .inl ⟨hshows.counter, rfl⟩
      | true =>
        refine .inr ⟨hshows.counter, ?_⟩
        dsimp only
        rw [hshows.saved]
        rfl
  · obtain ⟨hok, hshows⟩ := rawdirRefill_again (v := v) t.next htraw heoi hk hcounter
    obtain ⟨rfl, rfl⟩ := List.cons.inj hrest
    rw [hok] at hrefill
    refine ⟨_, afterFill_of_refill heoi hrefill hshows.raw.allocated, ⟨hshows.raw, hshows.sendeoi, hk', ?_⟩,
      hshows.position, hshows.lastused, hshows.fill⟩
    refine .inl ⟨hshows.counter, ?_⟩
    have hflag : ¬t.listing.counter &&& 128 = 0 := by
      rw [show t.listing.counter = ctr true k from hcounter, ctr_flag hk]
      exact Bool.noConfusion
    dsimp only
    rw [if_neg hflag]
    rfl

/-! ### The empty entries at the end -/

/-- A scan without entries, with `k` entries in the block, in front of a fill or of the EOI. -/
structure Padding (s : RawScan) (k lastused : ℕ) : Prop where
  raw : s.listing.Raw
  entries : s.entries = []
  le : k ≤ 8
  counter : s.listing.counter = ctr false k
  sendeoi : s.listing.sendeoi = decide (k = 8)
  position : s.listing.position ≤ lastused
  lastused : s.listing.lastused = lastused

theorem rawdirDummyRefill_eq (b : Listing) :
    b.rawdirDummyRefill = (false, { b with
      position := if b.counter ≠ 0 then 0 else 2
      counter := b.counter + 1
      sendeoi := if b.counter + 1 = 8 then true else b.sendeoi }) := by
  show (false, if b.counter + 1 = 8 then _ else _) = _
  split
  · rfl
  · rfl

theorem Padding.next {k lastused : ℕ} (h : Padding s k lastused) (hk : k < 8) (hlast : 31 ≤ lastused) :
    ∃ s', (rawChannel v).afterFill s = .more s' ∧ Padding s' (k + 1) lastused ∧
      s'.listing.position = startOf k ∧ ∀ i < 32, s'.listing.data i = 0 := by
  have heoi : s.listing.sendeoi = false := h.sendeoi.trans (decide_eq_false (by omega))
  set t := (rawChannel v).store s s.listing.spent with ht
  have hraw := h.raw
  have hcounter : t.listing.counter = ctr false k := h.counter
  have hflag : t.listing.counter &&& 128 = 0 := by
    rw [hcounter]
    exact (ctr_flag hk).mpr rfl
  have hnext : t.next = .none := by
    show (match s.entries with | [] => NextEntry.none | dent :: _ => .entry dent) = _
    rw [h.entries]
  obtain ⟨hne, hsucc, height⟩ := ctr_dummy hk
  have hposition : (if ctr false k ≠ 0 then 0 else 2) = startOf k := by
    simp only [hne, startOf, ite_not]
  have hdummy : t.listing.rawdirRefill { v with next := .none } =
      (t.listing.copy 0 (List.replicate 32 0)).rawdirDummyRefill := by
    rw [Listing.rawdirRefill]
    exact if_pos hflag
  have hrefill := rawChannel_refill (v := v) (s := t) hraw.refill
  rw [hnext, hdummy, rawdirDummyRefill_eq, if_pos hflag, show t.entries = [] from h.entries] at hrefill
  refine ⟨_, afterFill_of_refill heoi hrefill hraw.allocated,
    ⟨⟨hraw.refill, hraw.allocated, hraw.read, hraw.recordlen⟩, rfl, hk, ?_, ?_, ?_, h.lastused⟩, ?_,
    cleared_zero t.listing⟩
  · exact (congrArg (· + 1) hcounter).trans hsucc
  · show (if t.listing.counter + 1 = 8 then true else s.listing.sendeoi) = decide (k + 1 = 8)
    rw [hcounter, hsucc, heoi]
    by_cases hlast8 : k + 1 = 8
    · rw [if_pos (height.mpr hlast8), decide_eq_true hlast8]
    · rw [if_neg (height.not.mpr hlast8), decide_eq_false hlast8]
  · show (if t.listing.counter ≠ 0 then 0 else 2) ≤ lastused
    split <;> omega
  · show (if t.listing.counter ≠ 0 then 0 else 2) = startOf k
    rw [hcounter, hposition]

/-- The bytes of the empty entries from place `k` on. -/
def padLength (k lastused : ℕ) : ℕ := if k = 0 then 8 * (lastused + 1) - 2 else (8 - k) * (lastused + 1)

/-- The empty entries are sent, as long as each fill is, and EOI comes with the last byte of the eighth. -/
theorem Padding.delivers {k lastused : ℕ} (h : Padding s k lastused) (hlow : 31 ≤ lastused)
    (hhigh : lastused ≤ 255) :
    ∃ xs, (rawChannel v).Delivers s (s.listing.fill ++ xs) ∧ xs.length = padLength k lastused ∧
      (lastused = 31 → ∀ x ∈ xs, x = 0) := by
  have hle : s.listing.position ≤ s.listing.lastused := h.lastused.symm ▸ h.position
  have hlt : s.listing.lastused ≤ 255 := h.lastused.symm ▸ hhigh
  induction hd : 8 - k generalizing s k with
  | zero =>
    have hk : k = 8 := by have := h.le; omega
    have heoi : s.listing.sendeoi = true := h.sendeoi.trans (decide_eq_true hk)
    have hstop : ∃ s', (rawChannel v).afterFill s = .stop s' := by
      rw [Channel.afterFill]
      exact ⟨_, if_pos ⟨heoi, Bool.false_ne_true, h.raw.recordlen, Bool.false_ne_true⟩⟩
    refine ⟨[], ?_, ?_, fun _ x hx => absurd hx List.not_mem_nil⟩
    · rw [List.append_nil]
      exact .last h.raw.read hle hlt heoi hstop
    · rw [padLength, hk, if_neg (by decide), Nat.sub_self, Nat.zero_mul]
      rfl
  | succ d ih =>
    have hk : k < 8 := by omega
    have heoi : s.listing.sendeoi = false := h.sendeoi.trans (decide_eq_false (by omega))
    obtain ⟨s', hafter, hpad, hposition, hzero⟩ := h.next (v := v) hk hlow
    have hle' : s'.listing.position ≤ s'.listing.lastused := hpad.lastused.symm ▸ hpad.position
    obtain ⟨xs, hdelivers, hlength, hxs⟩ := ih hpad hle' (hpad.lastused.symm ▸ hhigh) (by omega)
    refine ⟨s'.listing.fill ++ xs, .more h.raw.read hle hlt heoi hafter hdelivers, ?_, ?_⟩
    · have hstart : startOf k = if k = 0 then 2 else 0 := rfl
      rw [List.length_append, hlength, Cursor.fill_length hle', hposition, hpad.lastused, padLength, padLength,
        if_neg (Nat.succ_ne_zero k), hstart]
      split
      · next hzero =>
        subst hzero
        omega
      · rw [show 8 - k = 8 - (k + 1) + 1 by omega, Nat.succ_mul]
        omega
    · intro hlast x hx
      obtain hfill | hrest := List.mem_append.mp hx
      · rw [Cursor.fill] at hfill
        obtain ⟨i, hi, rfl⟩ := List.mem_map.mp hfill
        rw [List.mem_range, hpad.lastused, hlast] at hi
        exact hzero _ (by omega)
      · exact hxs hlast x hrest

/-- The bytes of the entries from place `k` on, and of the empty ones behind them. -/
def rawTail : ℕ → List Dirent → List UInt8
  | k, [] => List.replicate (padLength k 31) 0
  | k, dent :: dents => (rawForm dent).drop (startOf k) ++ rawTail ((k + 1) % 8) dents

/-- What is left of a raw directory is sent with EOI on the last byte. -/
theorem Scanning.delivers {rest : List Dirent} {k : ℕ} (h : Scanning v s rest k)
    (hle : s.listing.position ≤ s.listing.lastused) (hlt : s.listing.lastused ≤ 255)
    (hlast : rest = [] → s.listing.lastused = 31) :
    (rawChannel v).Delivers s (s.listing.fill ++ rawTail k rest) := by
  induction rest generalizing s k with
  | nil =>
    have hk := h.lt
    obtain ⟨hcounter, hentries⟩ | ⟨-, hentries⟩ := h.pending
    · have hempty : s.entries = [] := by
        cases hs : s.entries with
        | nil => rfl
        | cons dent dents =>
          obtain ⟨first, more, saved, hshown, -⟩ :=
            rawdirRefill_entry (v := v) dent h.raw h.sendeoi hk hcounter
          rw [hs, List.flatMap_cons, hshown] at hentries
          cases hentries
      have hpad : Padding s k 31 := ⟨h.raw, hempty, by omega, hcounter,
        h.sendeoi.trans (decide_eq_false (by omega)).symm, hlast rfl ▸ hle, hlast rfl⟩
      obtain ⟨xs, hdelivers, hlength, hzero⟩ := hpad.delivers (v := v) (le_refl 31) (by decide)
      rw [rawTail, ← hlength, ← List.eq_replicate_iff.mpr ⟨rfl, hzero rfl⟩]
      exact hdelivers
    · cases hentries
  | cons dent rest ih =>
    obtain ⟨s', hafter, hscan, hposition, hlastused, hfill⟩ := h.next
    have hrest := ih hscan (by rw [hposition, hlastused, startOf]; split <;> decide) (by omega)
      fun _ => hlastused
    rw [hfill] at hrest
    rw [rawTail]
    exact .more h.raw.read hle hlt h.sendeoi hafter hrest

/-- The entries up to the end of a block, and the blocks behind it. -/
theorem rawTail_append {k : ℕ} {block : List Dirent} (h : k + block.length = 8) (hne : block ≠ [])
    (dents : List Dirent) :
    rawTail k (block ++ dents) = (block.flatMap rawForm).drop (startOf k) ++ rawTail 0 dents := by
  induction block generalizing k with
  | nil => exact absurd rfl hne
  | cons dent block ih =>
    rw [List.length_cons] at h
    have hstart : startOf k ≤ (rawForm dent).length := by
      rw [rawForm_length, startOf]
      split <;> decide
    rw [List.cons_append, rawTail, List.flatMap_cons, List.drop_append_of_le_length hstart, List.append_assoc]
    congr 1
    cases hblock : block with
    | nil =>
      rw [hblock] at h
      rw [show k = 7 from Nat.succ.inj h]
      rfl
    | cons _ _ =>
      have hne' : block ≠ [] := hblock ▸ List.cons_ne_nil _ _
      have hpos := List.length_pos_iff.mpr hne'
      rw [← hblock, Nat.mod_eq_of_lt (by omega), ih (by omega) hne', startOf_succ,
        List.drop_zero]

/-- A last block that is not full. -/
theorem rawTail_of_lt {k : ℕ} {dents : List Dirent} (h : k + dents.length < 8) :
    rawTail k dents =
      (dents.flatMap rawForm ++ List.replicate (32 * (8 - k - dents.length)) 0).drop (startOf k) := by
  induction dents generalizing k with
  | nil =>
    rw [rawTail, List.flatMap_nil, List.nil_append, List.drop_replicate, padLength, startOf, List.length_nil]
    congr 1
    split <;> omega
  | cons dent dents ih =>
    rw [List.length_cons] at h
    have hstart : startOf k ≤ (rawForm dent).length := by
      rw [rawForm_length, startOf]
      split <;> decide
    rw [rawTail, List.flatMap_cons, List.append_assoc, List.drop_append_of_le_length hstart,
      Nat.mod_eq_of_lt (by omega), ih (by omega), startOf_succ, List.drop_zero,
      List.length_cons, show 8 - (k + 1) - dents.length = 8 - k - (dents.length + 1) by omega]

theorem rawTail_zero (dents : List Dirent) : rawTail 0 dents = rawBlocks dents := by
  induction hn : dents.length / 8 generalizing dents with
  | zero =>
    have hlt : dents.length < 8 := by omega
    rw [rawTail_of_lt (by omega), rawBlocks_of_lt hlt]
    rfl
  | succ n ih =>
    have hblock : (dents.take 8).length = 8 := List.length_take_of_le (by omega)
    have hrest := ih (dents.drop 8) (by rw [List.length_drop]; omega)
    rw [← List.take_append_drop 8 dents, rawTail_append (by omega) (List.length_pos_iff.mp (by omega)), hrest,
      rawBlocks_append hblock, rawBlock, hblock, Nat.sub_self, Nat.mul_zero]
    rw [List.replicate_zero, List.append_nil]
    rfl

/-- The stream of a raw directory: a block for the header, then the blocks of the entries, and EOI with
the last byte. -/
def RawStream (v : ListingInput) (s : RawScan) : Prop :=
  let dents := s.entries.flatMap (shown v)
  ∃ header, header.length = 254 ∧ (header ++ rawBlocks dents).length = 254 * (2 + dents.length / 8) ∧
    ∀ n, ((rawChannel v).talkLoop s n).1 = (withEoi (header ++ rawBlocks dents)).take n

/-- A raw directory as `load_directory` leaves it. -/
theorem loadDirectory_raw {d : DirectoryInput} {data : ℕ → UInt8} {saved : Dirent} {b : Listing}
    (hsec : d.secondary ≠ 0) (h : loadDirectory d (.fresh data saved) = some b) :
    b.Raw ∧ b.sendeoi = false ∧ b.counter = 0 ∧ b.position = 0 ∧ b.lastused = 253 := by
  have hpart : d.partitions = false := by
    rw [DirectoryInput.partitions, decide_eq_false hsec, Bool.and_false, Bool.false_and, Bool.false_and]
  rw [loadDirectory, hpart] at h
  dsimp only at h
  rw [if_neg Bool.false_ne_true] at h
  split at h
  · cases h
  · split at h
    · obtain rfl := Option.some.inj h
      split
      · exact ⟨⟨rfl, rfl, rfl, rfl⟩, rfl, rfl, rfl, rfl⟩
      · exact ⟨⟨rfl, rfl, rfl, rfl⟩, rfl, rfl, rfl, rfl⟩
    · cases h

/-- A directory is sent in its blocks exactly if it has an entry. Without one the empty entries are as
long as the header is. -/
theorem rawStream_iff (d : DirectoryInput) (v : ListingInput) (data : ℕ → UInt8) (saved : Dirent)
    (entries : List Dirent) (b : Listing) (hsec : d.secondary ≠ 0)
    (hload : loadDirectory d (.fresh data saved) = some b) :
    RawStream v ⟨b, entries⟩ ↔ entries ≠ [] := by
  obtain ⟨hraw, heoi, hcounter, hposition, hlastused⟩ := loadDirectory_raw hsec hload
  have hle : b.position ≤ b.lastused := by omega
  have hfill : b.fill.length = 254 := by
    rw [Cursor.fill_length hle]
    omega
  have htalk : ∀ n, (rawChannel v).talkLoop ⟨b, entries⟩ n = (rawChannel v).talkBytes ⟨b, entries⟩ n := by
    intro n
    rw [Channel.talkLoop, show (rawChannel v).find ⟨b, entries⟩ = some ⟨b, entries⟩ from if_pos hraw.allocated]
  constructor
  · rintro ⟨header, hheader, hlength, hsent⟩ rfl
    -- The first two empty entries and the header are more than two blocks.
    have hpad : Padding ⟨b, []⟩ 0 253 := ⟨hraw, rfl, Nat.zero_le 8, hcounter, heoi,
      show b.position ≤ 253 by omega, hlastused⟩
    obtain ⟨xs, hdelivers, hxs, -⟩ := hpad.delivers (v := v) (by decide) (by decide)
    have hlong := hdelivers.talkBytes_take (rawChannel_lawful v) 509
    rw [← htalk, hsent] at hlong
    have hcount := congrArg List.length hlong
    rw [List.length_take, List.length_take, withEoi_length, withEoi_length, hlength, List.length_append, hxs,
      hfill] at hcount
    dsimp only at hcount
    rw [List.flatMap_nil] at hcount
    exact absurd hcount (by decide)
  · intro hne
    set dents := entries.flatMap (shown v) with hdents
    have hscan : Scanning v ⟨b, entries⟩ dents 0 := ⟨hraw, heoi, by decide, .inl ⟨hcounter, hdents⟩⟩
    have hshown : dents ≠ [] := by
      obtain ⟨dent, rest, rfl⟩ := List.exists_cons_of_ne_nil hne
      rw [hdents, List.flatMap_cons, shown]
      split
      · split <;> exact List.cons_ne_nil _ _
      · exact List.cons_ne_nil _ _
    have hdelivers := hscan.delivers hle (show b.lastused ≤ 255 by omega) fun hnil => absurd hnil hshown
    rw [rawTail_zero] at hdelivers
    refine ⟨b.fill, hfill, ?_, fun n => ?_⟩
    · rw [List.length_append, hfill, rawBlocks_length]
      omega
    · rw [htalk]
      exact hdelivers.talkBytes_take (rawChannel_lawful v) n

/-- A file of three blocks. -/
def threeBlocks : Dirent :=
  ⟨fun i => if i = 0 then 65 else 0, 2, 3, 0, ⟨0, 0, 0, 0, 0⟩, false, []⟩

/-- `$` on the secondary address 2. -/
def dollar : DirectoryInput := ⟨2, [36], 1, 0, true, .cbm, some fun _ => 65, some fun _ => 66⟩

theorem rawStream_oneFile : ∃ b, loadDirectory dollar (.fresh (fun _ => 0) threeBlocks) = some b ∧
    RawStream ⟨true, .normal, 0, .none, 1, fun _ => ⟨none, 0, true⟩, threeBlocks⟩ ⟨b, [threeBlocks]⟩ :=
  ⟨_, rfl, (rawStream_iff dollar _ (fun _ => 0) threeBlocks [threeBlocks] _ (by decide) rfl).mpr
    (List.cons_ne_nil _ _)⟩

end NoDiskEmu.Dos
