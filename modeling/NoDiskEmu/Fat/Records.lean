import Mathlib.Data.FinEnum
import NoDiskEmu.Buffers.Listen
import NoDiskEmu.Fat.RoundTrip
import NoDiskEmu.Library.Slots

/-! Relative files: the P command moves to a record, and a transfer with EOI on its last byte writes
it. -/

namespace NoDiskEmu.Fat

open Library

def ERROR_NO_CHANNEL : ℕ := 70

namespace State

/-- `parse_position` for the file on `secondary`; `command` is the command as it was received, and the
rest of the command buffer is zero. Every file of `fatops.c` has a seek callback. -/
def parsePosition (secondary : UInt8) (command : List UInt8) (s : State) : State :=
  if command.length < 2 ∨ ¬(s.allocated ∧ command.getD 1 0 &&& 15 = secondary) then
    s.setError ERROR_NO_CHANNEL
  else if s.recordlen ≠ 0 then
    let record := if command.length > 1 then (command.getD 2 0).toNat else 1
    let record := if command.length > 2 then record ||| (command.getD 3 0).toNat <<< 8 else record
    let pos := if command.length > 3 then (command.getD 4 0).toNat else 1
    if pos > s.recordlen then s.setError ERROR_RECORD_OVERFLOW
    else (s.fatFileSeek ((record - 1) * s.recordlen) (pos - 1)).2
  else
    let offset := (command.getD 2 0).toNat + (command.getD 3 0).toNat * 2 ^ 8 +
      (command.getD 4 0).toNat * 2 ^ 16 + (command.getD 5 0).toNat * 2 ^ 24
    (s.fatFileSeek offset 0).2

end State

/-- A P command for position 1 of a record, and what is sent to the file after it, if anything. -/
structure Access (r : ℕ) (secondary : UInt8) where
  channel : UInt8
  low : UInt8
  high : UInt8
  payload : Option (List UInt8)
  channel_eq : channel &&& 15 = secondary
  length : ∀ p ∈ payload, 1 ≤ p.length ∧ p.length ≤ r

namespace Access

variable {r : ℕ} {secondary : UInt8}

def command (a : Access r secondary) : List UInt8 := [80, a.channel, a.low, a.high, 1]

/-- The number of the record, from 0 on. Record 0 of the command is record 1. -/
def index (a : Access r secondary) : ℕ := a.low.toNat + a.high.toNat * 256 - 1

/-- The file after the command and the transfer. -/
def run (a : Access r secondary) (s : State) : State :=
  let s := s.parsePosition secondary a.command
  match a.payload with
  | none => s
  | some p => s.listens [withEoi p]

end Access

/-- The file after some commands and transfers. -/
def runs {r : ℕ} {secondary : UInt8} (s : State) (as : List (Access r secondary)) : State :=
  as.foldl (fun s a => a.run s) s

/-! ### What the records should hold -/

def blank (r : ℕ) : List UInt8 := 255 :: List.replicate (r - 1) 0

def padded (r : ℕ) (p : List UInt8) : List UInt8 := p ++ List.replicate (r - p.length) 0

/-- The payloads with their records, filled up with zeros. -/
def writes {r : ℕ} {secondary : UInt8} (as : List (Access r secondary)) : List (ℕ × List UInt8) :=
  as.filterMap fun a => a.payload.map fun p => (a.index, padded r p)

/-- The records after some accesses: a record holds its last payload, or what it held before, and is
blank when there was no such record. -/
def expected {r : ℕ} {secondary : UInt8} (recs : List (List UInt8)) (as : List (Access r secondary)) :
    List (List UInt8) :=
  (List.range (Slots.count recs.length (writes as))).map fun i =>
    (Slots.last (writes as) i).getD (recs.getD i (blank r))

/-- An access meets a record of zeros with a payload that has other bytes. -/
def Access.Shifted {r : ℕ} {secondary : UInt8} (a : Access r secondary) (recs : List (List UInt8)) :
    Prop :=
  (∃ p ∈ a.payload, ∃ x ∈ p, x ≠ 0) ∧ ∀ x ∈ recs.getD a.index (blank r), x = 0

/-- A relative file that was opened: its header and its records. A new one has no records; one that is
opened again with the length it was created with, or with length 0, has the records that are in the
file. -/
inductive RelOpened (r : ℕ) : State → List UInt8 → List (List UInt8) → Prop
  | created (ext : ℕ) (name : ℕ → UInt8) (x00 : Bool) (data bytes : ℕ → UInt8) (pointer : ℕ) :
      RelOpened r ((State.fresh data ⟨bytes, 0, pointer⟩ fun _ => .ok).fatOpenRel ext name x00 r false)
        (header (buildName ext (nameChars name) .rel).2 name r) []
  | reopened (ext : ℕ) (name : ℕ → UInt8) (x00 : Bool) (data : ℕ → UInt8) (fh : File) (length : ℕ)
      (head : List UInt8) (recs : List (List UInt8)) (contents : fh.contents = head ++ recs.flatten)
      (header : head.length = if x00 then P00_HEADER_SIZE else 1)
      (stored : head.getLast? = some (UInt8.ofNat r)) (length_eq : length = 0 ∨ length = r)
      (records : ∀ x ∈ recs, x.length = r) :
      RelOpened r ((State.fresh data fh fun _ => .ok).fatOpenRel ext name x00 length true) head recs

namespace State

variable {s : State} {r k : ℕ} {head : List UInt8} {recs : List (List UInt8)}

/-! ### Stripping zeros -/

theorem stripNulls_spec (data : ℕ → UInt8) {fuel l : ℕ} (hl : 2 ≤ l) (hle : l ≤ 255) (hfuel : l ≤ fuel) :
    (stripNulls data fuel l = 1 ∧ ∀ o, 2 ≤ o → o ≤ l → data o = 0) ∨
      (2 ≤ stripNulls data fuel l ∧ stripNulls data fuel l ≤ l ∧ data (stripNulls data fuel l) ≠ 0) := by
  induction fuel generalizing l with
  | zero => omega
  | succ fuel ih =>
    have hpred : (l + 255) % 256 = l - 1 := by omega
    by_cases hzero : data l = 0
    · by_cases hmore : l - 1 > 1
      · have hstep : stripNulls data (fuel + 1) l = stripNulls data fuel (l - 1) := by
          rw [stripNulls, if_pos hzero, hpred, if_pos hmore]
        rw [hstep]
        obtain ⟨hone, hall⟩ | ⟨hlow, hhigh, hne⟩ := ih (l := l - 1) (by omega) (by omega) (by omega)
        · refine .inl ⟨hone, fun o ho ho' => ?_⟩
          by_cases heq : o = l
          · rw [heq, hzero]
          · exact hall o ho (by omega)
        · exact .inr ⟨hlow, by omega, hne⟩
      · have hstep : stripNulls data (fuel + 1) l = l - 1 := by
          rw [stripNulls, if_pos hzero, hpred, if_neg hmore]
        refine .inl ⟨by rw [hstep]; omega, fun o ho ho' => ?_⟩
        rw [show o = l by omega, hzero]
    · have hstep : stripNulls data (fuel + 1) l = l := by rw [stripNulls, if_neg hzero]
      rw [hstep]
      exact .inr ⟨hl, le_refl l, hzero⟩

/-! ### Seeking -/

/-- A relative file that is open with a header and records of length `r`. -/
structure Ready (s : State) (r : ℕ) (head : List UInt8) : Prop where
  noFault : s.NoFault
  recordlen : s.recordlen = r
  pos : 1 ≤ r
  le : r ≤ 254
  allocated : s.allocated = true
  write : s.write = true
  refill : s.refill = .fatFileSync
  writable : s.writable = true
  headersize : s.headersize = head.length

/-- The file has the header and the records, and its pointer is at the end when the buffer is for the
record there. -/
structure Store (s : State) (r : ℕ) (head : List UInt8) (recs : List (List UInt8)) : Prop
    extends Ready s r head where
  contents : s.fh.contents = head ++ recs.flatten
  records : ∀ x ∈ recs, x.length = r
  pointer : s.fptr + s.headersize = s.fh.size → s.fh.pointer = s.fh.size

/-- The buffer holds nothing that is not in the file. -/
structure Clean (s : State) : Prop where
  dirty : s.dirty = false
  mustflush : s.mustflush = false

theorem Store.size (h : s.Store r head recs) : s.fh.size = head.length + recs.length * r := by
  rw [← File.contents_length, h.contents, List.length_append, Slots.length_flatten h.records]

/-- A record as it is in the file. -/
theorem Store.bytes (h : s.Store r head recs) {i : ℕ} (hk : k < recs.length) (hi : i < r) :
    s.fh.bytes (head.length + k * r + i) = recs[k].getD i 0 := by
  have hsize := h.size
  have hle : (k + 1) * r ≤ recs.length * r := Nat.mul_le_mul_right r hk
  rw [Nat.succ_mul] at hle
  have hbyte : s.fh.contents[head.length + k * r + i]? = some (s.fh.bytes (head.length + k * r + i)) := by
    rw [File.contents, List.getElem?_map, List.getElem?_range (by omega)]
    rfl
  obtain ⟨hsplit, hlen⟩ := Slots.flatten_split h.records hk
  rw [h.contents, hsplit, Nat.add_assoc, List.getElem?_append_right (by omega), Nat.add_sub_cancel_left,
    List.getElem?_append_right (by omega), hlen, Nat.add_sub_cancel_left, List.getElem?_append_left
      (by rw [h.records _ (List.getElem_mem hk)]; exact hi)] at hbyte
  rw [Nat.add_assoc, List.getD_eq_getElem?_getD, hbyte]
  rfl

/-- The end of `fat_file_seek`. -/
def setPosition (s : State) (index : ℕ) : State :=
  { s with position := if index + 2 > s.lastused then s.lastused else index + 2 }

/-- A buffer for a record behind the end of the file. -/
def missing (s : State) (position : ℕ) : State :=
  { s with
    data := Function.update s.data 2 (if s.recordlen ≠ 0 then 255 else 13)
    lastused := 2
    fptr := position
    error := ERROR_RECORD_MISSING }

theorem fatFileSeek_inside (h : s.NoFault) (hdirty : s.dirty = false) (hwritable : s.writable = true)
    {position : ℕ} (hle : position + s.headersize ≤ s.fh.size) (index : ℕ) :
    s.fatFileSeek position index =
      (false, ((s.setFh (s.fh.seek (position + s.headersize))).filled
        (if s.recordlen ≠ 0 then s.recordlen else 254)).setPosition index) := by
  have hio : (s.setFh (s.fh.seek (position + s.headersize))).NoFault := h
  rw [fatFileSeek, hdirty, if_neg Bool.false_ne_true]
  dsimp only
  rw [if_neg Bool.false_ne_true, if_pos hle, fLseek_ok h, hwritable, if_pos rfl]
  dsimp only
  rw [if_neg (not_not.mpr rfl), fatFileRead_ok hio, if_neg Bool.false_ne_true]
  rfl

theorem fatFileSeek_outside (hdirty : s.dirty = false) {position : ℕ}
    (hlt : s.fh.size < position + s.headersize) (index : ℕ) :
    s.fatFileSeek position index = (false, (s.missing position).setPosition index) := by
  have hout : ¬s.fh.size ≥ position + s.headersize := Nat.not_le.mpr hlt
  rw [fatFileSeek, hdirty, if_neg Bool.false_ne_true]
  dsimp only
  rw [if_neg Bool.false_ne_true, if_neg hout]
  rfl

/-- A buffer that is dirty is written before the seek. -/
theorem fatFileSeek_dirty {s' : State} (hdirty : s.dirty = true) (hwrite : s.fatFileWrite = (false, s'))
    (hs' : s'.dirty = false) (hheader : s'.headersize = s.headersize) (position index : ℕ) :
    s.fatFileSeek position index = s'.fatFileSeek position index := by
  rw [fatFileSeek, fatFileSeek, hdirty, hs', hheader, if_pos rfl, hwrite]
  rfl

/-- What is left of a record after its zeros were stripped. -/
theorem filled_lastused (hrecordlen : s.recordlen = r) (hpos : 1 ≤ r) (hn : s.fh.available r ≤ 254) :
    let l := (if s.fh.available r = 0 then 1 else s.fh.available r) + 1
    ((s.filled r).lastused = 1 ∧ ∀ o, 2 ≤ o → o ≤ l → s.fetched (s.fh.available r) o = 0) ∨
      (2 ≤ (s.filled r).lastused ∧ (s.filled r).lastused ≤ 255 ∧
        ∃ o, 2 ≤ o ∧ o ≤ l ∧ s.fetched (s.fh.available r) o ≠ 0) := by
  intro l
  have hl : 2 ≤ l ∧ l ≤ 255 := by
    show 2 ≤ (if s.fh.available r = 0 then 1 else s.fh.available r) + 1 ∧
      (if s.fh.available r = 0 then 1 else s.fh.available r) + 1 ≤ 255
    split <;> omega
  have hlast : (s.filled r).lastused = stripNulls (s.fetched (s.fh.available r)) 256 l := by
    rw [filled]
    dsimp only
    rw [hrecordlen, if_pos (Nat.ne_of_gt hpos), Nat.mod_eq_of_lt (Nat.lt_succ_of_le hl.2)]
  rw [hlast]
  obtain hone | ⟨hlow, hhigh, hne⟩ := stripNulls_spec (s.fetched (s.fh.available r)) hl.1 hl.2
    (show l ≤ 256 by omega)
  · exact .inl hone
  · exact .inr ⟨hlow, hhigh.trans hl.2, _, hlow, hhigh, hne⟩

/-- The buffer after a seek: it is for the place `position`. -/
structure Sought (s : State) (r position : ℕ) (head : List UInt8) (recs : List (List UInt8)) : Prop
    extends Store s r head recs, Clean s where
  fptr : s.fptr = position
  lastused : s.lastused ≤ 255

theorem Store.fatFileSeek (h : s.Store r head recs) (hs : s.Clean) (position index : ℕ) :
    ∃ s', s.fatFileSeek position index = (false, s') ∧ s'.Sought r position head recs := by
  by_cases hle : position + s.headersize ≤ s.fh.size
  · rw [fatFileSeek_inside h.noFault hs.dirty h.writable hle, h.recordlen,
      if_pos (Nat.ne_of_gt h.pos)]
    refine ⟨_, rfl, ⟨⟨{ h.toReady with }, ?_, h.records, ?_⟩, { hs with }, Nat.add_sub_cancel _ _, ?_⟩⟩
    · exact (File.contents_seek_of_le hle).trans h.contents
    · intro hend
      have hend' : position + s.headersize - s.headersize + s.headersize =
        max s.fh.size (position + s.headersize) := hend
      show position + s.headersize +
        min r (max s.fh.size (position + s.headersize) - (position + s.headersize)) =
          max s.fh.size (position + s.headersize)
      omega
    · have hlast := filled_lastused (s := s.setFh (s.fh.seek (position + s.headersize))) h.recordlen
        h.pos ((Nat.min_le_left _ _).trans h.le)
      obtain ⟨hone, -⟩ | ⟨-, hlast, -⟩ := hlast
      · exact hone.le.trans (show 1 ≤ 255 by decide)
      · exact hlast
  · rw [fatFileSeek_outside hs.dirty (by omega)]
    refine ⟨_, rfl, ⟨⟨{ h.toReady with }, h.contents, h.records, ?_⟩, { hs with }, rfl,
      show 2 ≤ 255 by decide⟩⟩
    intro hend
    exact absurd (show position + s.headersize = s.fh.size from hend) (by omega)

theorem blank_not_zeros (r : ℕ) : ¬∀ x ∈ blank r, x = 0 :=
  fun hall => absurd (hall 255 List.mem_cons_self) (by decide)

/-- What was read of record `k` has only zeros when the record has. -/
theorem Store.fetched_zeros (h : s.Store r head recs) (hk : k ≤ recs.length) {t : State}
    (ht : t = s.setFh (s.fh.seek (head.length + k * r))) :
    (∀ o, 2 ≤ o → o ≤ (if t.fh.available r = 0 then 1 else t.fh.available r) + 1 →
      t.fetched (t.fh.available r) o = 0) ↔ ∀ x ∈ recs.getD k (blank r), x = 0 := by
  have hsize := h.size
  have hpos := h.pos
  have hmul : k * r ≤ recs.length * r := Nat.mul_le_mul_right r hk
  have hpointer : t.fh.pointer = head.length + k * r := by rw [ht]; rfl
  have hbytes : t.fh.bytes = s.fh.bytes := by rw [ht]; rfl
  have hrecordlen : t.recordlen = r := by
    rw [ht]
    exact h.recordlen
  have havail : t.fh.available r = min r (s.fh.size - (head.length + k * r)) := by
    have htsize : t.fh.size = s.fh.size := by
      rw [ht]
      exact Nat.max_eq_left (by omega)
    rw [File.available, hpointer, htsize]
  by_cases hlast : k = recs.length
  · have hzero : t.fh.available r = 0 := by
      rw [havail, hsize, hlast, Nat.sub_self, Nat.min_zero]
    rw [List.getD_eq_default _ _ (by omega), if_pos hzero, hzero]
    refine iff_of_false (fun hall => ?_) (blank_not_zeros r)
    have hfirst : t.fetched 0 2 = 255 := by
      rw [fetched, if_pos rfl, hrecordlen, if_pos (Nat.ne_of_gt hpos), Function.update_self]
    exact absurd (hfirst.symm.trans (hall 2 (le_refl 2) (le_refl 2))) (by decide)
  · have hlt : k < recs.length := by omega
    have hmul' : (k + 1) * r ≤ recs.length * r := Nat.mul_le_mul_right r hlt
    rw [Nat.succ_mul] at hmul'
    have hfull : t.fh.available r = r := by
      rw [havail]
      omega
    have hdata : ∀ i < r, t.fetched r (2 + i) = recs[k].getD i 0 := by
      intro i hi
      rw [fetched, if_neg (by omega), Memory.write_inside hi, hpointer, hbytes, h.bytes hlt hi]
    have hlen : recs[k].length = r := h.records _ (List.getElem_mem hlt)
    rw [hfull, if_neg (by omega), List.getD_eq_getElem _ _ hlt]
    constructor
    · intro hall x hx
      obtain ⟨i, hi, rfl⟩ := List.getElem_of_mem hx
      have hbyte := hall (2 + i) (by omega) (by omega)
      rw [hdata i (by omega), List.getD_eq_getElem _ _ hi] at hbyte
      exact hbyte
    · intro hall o ho ho'
      have hbyte := hdata (o - 2) (by omega)
      rw [show 2 + (o - 2) = o by omega, List.getD_eq_getElem _ _ (by omega)] at hbyte
      rw [hbyte]
      exact hall _ (List.getElem_mem _)

/-- The position after a seek to a record: a record of zeros is stripped of its first byte too. -/
theorem Store.seek_position (h : s.Store r head recs) (hs : s.Clean) (k : ℕ) :
    (s.fatFileSeek (k * r) 0).2.position =
      if ∀ x ∈ recs.getD k (blank r), x = 0 then 1 else 2 := by
  have hsize := h.size
  by_cases hk : k ≤ recs.length
  · have hmul : k * r ≤ recs.length * r := Nat.mul_le_mul_right r hk
    rw [fatFileSeek_inside h.noFault hs.dirty h.writable (by rw [h.headersize]; omega), h.recordlen,
      if_pos (Nat.ne_of_gt h.pos), h.headersize, Nat.add_comm]
    obtain ⟨t, ht⟩ : ∃ t, t = s.setFh (s.fh.seek (head.length + k * r)) := ⟨_, rfl⟩
    have hzeros := h.fetched_zeros hk ht
    have hrecordlen : t.recordlen = r := by
      rw [ht]
      exact h.recordlen
    rw [← ht]
    show (if 0 + 2 > (t.filled r).lastused then (t.filled r).lastused else 0 + 2) = _
    obtain ⟨hone, hall⟩ | ⟨hlow, -, o, ho, ho', hne⟩ := filled_lastused hrecordlen h.pos
      ((Nat.min_le_left _ _).trans h.le)
    · rw [if_pos (hzeros.mp hall), hone, if_pos (by decide)]
    · rw [if_neg (by omega), if_neg fun hall => hne (hzeros.mpr hall o ho ho')]
  · have hmul : (recs.length + 1) * r ≤ k * r := Nat.mul_le_mul_right r (by omega)
    rw [Nat.succ_mul] at hmul
    have hpos := h.pos
    rw [fatFileSeek_outside hs.dirty (by rw [h.headersize]; omega), List.getD_eq_default _ _ (by omega),
      if_neg (blank_not_zeros r)]
    rfl

/-! ### Writing a record -/

/-- The file is ready for a write of record `k`; one behind the end extends it by bytes of no
meaning. -/
theorem Store.reposition (h : s.Store r head recs) (hk : s.fptr = k * r) :
    ∃ fh junk, (if s.fptr ≠ s.fh.size - s.headersize then s.fLseek (s.headersize + s.fptr)
        else (.ok, s)) = (.ok, s.setFh fh) ∧
      fh.pointer = head.length + k * r ∧ fh.contents = head ++ recs.flatten ++ junk ∧
      junk.length = (k - recs.length) * r := by
  have hsize := h.size
  rw [Nat.sub_mul]
  by_cases hend : s.fptr = s.fh.size - s.headersize
  · have heq : s.fptr + s.headersize = s.fh.size := by
      rw [hend, h.headersize]
      omega
    have hpointer := h.pointer heq
    rw [h.headersize] at heq
    rw [if_neg (not_not.mpr hend)]
    refine ⟨s.fh, [], rfl, by omega, by rw [h.contents, List.append_nil], ?_⟩
    rw [List.length_nil]
    omega
  · rw [if_pos hend, fLseek_ok h.noFault, h.writable, if_pos rfl, h.headersize, hk]
    by_cases hle : head.length + k * r ≤ s.fh.size
    · refine ⟨_, [], rfl, rfl, ?_, ?_⟩
      · rw [File.contents_seek_of_le hle, h.contents, List.append_nil]
      · rw [List.length_nil]
        omega
    · obtain ⟨junk, hlen, hjunk⟩ := File.contents_seek (f := s.fh)
        (show s.fh.size ≤ head.length + k * r by omega)
      refine ⟨_, junk, rfl, rfl, ?_, ?_⟩
      · rw [hjunk, h.contents]
      · rw [hlen]
        omega

/-- A flush of a record writes `r` bytes. -/
theorem Ready.writeData (h : s.Ready r head) {last : ℕ}
    (hlast : (if s.mustflush then s.lastused else (s.position + 255) % 256) = last) :
    s.writeData = (false, s.written
      (Memory.write s.data (last + 1) (r + 1 - last) fun _ => 0) r) := by
  have hle := h.le
  rw [writeData_ok h.noFault hlast, h.recordlen, if_pos (Nat.ne_of_gt h.pos),
    Nat.mod_eq_of_lt (by omega), uintPred_succ (by omega)]

theorem blank_length (h : 1 ≤ r) : (blank r).length = r := by
  rw [blank, List.length_cons, List.length_replicate]
  omega

/-- The loop of `fat_file_write` puts blank records into the gap. -/
theorem fillBytes_ok {pre junk post : List UInt8} {fuel : ℕ} (n : ℕ) (h : s.Ready r head) (hs : s.Clean)
    (hdata : (List.range r).map (fun i => s.data (2 + i)) = blank r)
    (hcontents : s.fh.contents = pre ++ (junk ++ post)) (hjunk : junk.length = n * r)
    (hpointer : s.fh.pointer = pre.length) (hfuel : n * r ≤ fuel) :
    ∃ s', fillBytes fuel (n * r) s = (false, s') ∧ s'.Ready r head ∧ s'.Clean ∧
      s'.fh.contents = pre ++ ((List.replicate n (blank r)).flatten ++ post) := by
  induction n generalizing s pre junk fuel with
  | zero =>
    have hnil : junk = [] := List.eq_nil_of_length_eq_zero (by omega)
    refine ⟨s, ?_, h, hs, ?_⟩
    · cases fuel <;> simp [fillBytes]
    · rw [hcontents, hnil]
      rfl
  | succ n ih =>
    have hpos := h.pos
    have hle := h.le
    have hsucc : (n + 1) * r = n * r + r := Nat.succ_mul n r
    obtain ⟨fuel, rfl⟩ := Nat.exists_eq_succ_of_ne_zero (n := fuel) (by omega)
    obtain ⟨t, ht⟩ : ∃ t : State, t = { s with lastused := r, position := (r + 2) % 256 } := ⟨_, rfl⟩
    have hready : t.Ready r head := by
      rw [ht]
      exact { h with }
    have hlast : (if t.mustflush then t.lastused else (t.position + 255) % 256) = r + 1 := by
      have hflush : t.mustflush = false := by rw [ht]; exact hs.mustflush
      have htpos : t.position = (r + 2) % 256 := by rw [ht]
      rw [hflush, if_neg Bool.false_ne_true, htpos]
      omega
    have hwrite := hready.writeData hlast
    rw [Nat.sub_self, Memory.write_same fun i hi => absurd hi (Nat.not_lt_zero i)] at hwrite
    have hstep : fillBytes (fuel + 1) ((n + 1) * r) s =
        fillBytes fuel (n * r) (t.written t.data r) := by
      have hlen : (if s.recordlen ≠ 0 then s.recordlen else min ((n + 1) * r) 254) = r := by
        rw [h.recordlen, if_pos (Nat.ne_of_gt hpos)]
      rw [fillBytes, if_neg (by omega)]
      dsimp only
      rw [hlen, if_neg (by omega), ← ht, hwrite, if_neg Bool.false_ne_true, hsucc, Nat.add_sub_cancel]
    have hfh : (t.written t.data r).fh = s.fh.write r fun i => s.data (2 + i) := by rw [ht]; rfl
    have hdata' : (List.range r).map (fun i => (t.written t.data r).data (2 + i)) = blank r := by
      rw [ht]
      exact hdata
    have hcontents' : (t.written t.data r).fh.contents = (pre ++ blank r) ++ (junk.drop r ++ post) := by
      rw [hfh, File.contents_write_inside hcontents hpointer (by rw [List.length_append]; omega), hdata,
        List.append_assoc, List.drop_append_of_le_length (by omega)]
    have hpointer' : (t.written t.data r).fh.pointer = (pre ++ blank r).length := by
      rw [hfh, List.length_append, blank_length hpos, ← hpointer]
      rfl
    have hjunk' : (junk.drop r).length = n * r := by
      rw [List.length_drop, hjunk, hsucc, Nat.add_sub_cancel]
    have hready' : (t.written t.data r).Ready r head := { hready with }
    have hclean : (t.written t.data r).Clean := ⟨rfl, rfl⟩
    obtain ⟨s', hrest, hready'', hclean', hcontents''⟩ := ih hready' hclean hdata' hcontents'
      hjunk' hpointer' (show n * r ≤ fuel by omega)
    refine ⟨s', hstep.trans hrest, hready'', hclean', ?_⟩
    rw [hcontents'', List.replicate_succ, List.flatten_cons, List.append_assoc, List.append_assoc]

/-- The state in which `fat_file_write` begins to fill the gap before a record. -/
def gap (s : State) (fh : File) (fptr : ℕ) : State :=
  { s with
    fh
    mustflush := false
    fptr
    data := Function.update (Memory.write s.data 3 253 fun _ => 0) 2 (if s.recordlen ≠ 0 then 255 else 0) }

/-- The end of `fat_file_write` after a gap was filled. -/
def endGap (f : Bool × State) : Bool × State :=
  if f.1 then f
  else
    let l := f.2.fLseek f.2.fh.size
    if l.1 ≠ .ok then l.2.fail (parseError l.1 true)
    else (false, { l.2 with fptr := l.2.fh.pointer - l.2.headersize })

theorem fillGap_eq (h : s.NoFault) (hwritable : s.writable = true) (fptr i : ℕ) :
    s.fillGap fptr i = endGap (fillBytes i i (s.gap (s.fh.seek (s.headersize + fptr)) fptr)) := by
  rw [fillGap, fLseek_ok h, hwritable]
  rfl

/-- After a write behind the end, the records before it are blank. -/
theorem fillGap_ok {junk x : List UInt8} (n : ℕ) (h : s.Ready r head) (hs : s.Clean)
    (hrecs : ∀ y ∈ recs, y.length = r) (hx : x.length = r)
    (hcontents : s.fh.contents = (head ++ recs.flatten) ++ (junk ++ x)) (hjunk : junk.length = n * r) :
    ∃ s', s.fillGap (recs.length * r) (n * r) = (false, s') ∧ s'.Clean ∧
      s'.Store r head (recs ++ List.replicate n (blank r) ++ [x]) := by
  have hpre : (head ++ recs.flatten).length = head.length + recs.length * r := by
    rw [List.length_append, Slots.length_flatten hrecs]
  have hsize : s.fh.size = (head.length + recs.length * r) + (n * r + r) := by
    rw [← File.contents_length, hcontents, List.length_append, hpre, List.length_append, hjunk, hx]
  obtain ⟨t, ht⟩ : ∃ t : State, t = s.gap (s.fh.seek (head.length + recs.length * r)) (recs.length * r) :=
    ⟨_, rfl⟩
  have hready : t.Ready r head := by
    rw [ht]
    exact { h with }
  have hclean : t.Clean := by
    rw [ht]
    exact ⟨hs.dirty, rfl⟩
  have hdata : (List.range r).map (fun i => t.data (2 + i)) = blank r := by
    have hpos := h.pos
    have hle := h.le
    rw [ht]
    apply List.ext_getElem
    · rw [blank_length hpos, List.length_map, List.length_range]
    · intro i hi _
      rw [List.length_map, List.length_range] at hi
      rw [List.getElem_map, List.getElem_range]
      cases i with
      | zero =>
        have hbyte : (if s.recordlen ≠ 0 then (255 : UInt8) else 0) = 255 := by
          rw [h.recordlen, if_pos (Nat.ne_of_gt hpos)]
        exact hbyte
      | succ i =>
        show Function.update _ 2 _ (2 + (i + 1)) = _
        rw [Function.update_of_ne (by omega), show 2 + (i + 1) = 3 + i by omega,
          Memory.write_inside (by omega)]
        simp [blank]
  have htcontents : t.fh.contents = (head ++ recs.flatten) ++ (junk ++ x) := by
    rw [ht, ← hcontents]
    exact File.contents_seek_of_le (by omega)
  have htpointer : t.fh.pointer = (head ++ recs.flatten).length := by
    rw [ht, hpre]
    rfl
  obtain ⟨u, hfill, huready, huclean, hucontents⟩ :=
    fillBytes_ok n hready hclean hdata htcontents hjunk htpointer (le_refl _)
  have hseek : (u.fh.seek u.fh.size).contents = u.fh.contents := File.contents_seek_of_le (le_refl _)
  refine ⟨{ u.setFh (u.fh.seek u.fh.size) with fptr := u.fh.size - u.headersize }, ?_,
    { huclean with }, ⟨{ huready with }, ?_, ?_, fun _ => (Nat.max_self _).symm⟩⟩
  · rw [fillGap_eq h.noFault h.writable, h.headersize, ← ht, hfill, endGap, if_neg Bool.false_ne_true,
      fLseek_ok huready.noFault, huready.writable]
    rfl
  · refine (hseek.trans hucontents).trans ?_
    simp only [List.flatten_append, List.flatten_cons, List.flatten_nil, List.append_nil, List.append_assoc]
  · intro y hy
    simp only [List.mem_append, List.mem_replicate, List.mem_singleton] at hy
    obtain (hmem | ⟨-, rfl⟩) | rfl := hy
    · exact hrecs y hmem
    · exact blank_length h.pos
    · exact hx

/-- A write of the buffer puts its bytes, with zeros up to the length of a record, to record `k`. -/
theorem Store.fatFileWrite (h : s.Store r head recs) (hk : s.fptr = k * r) {last : ℕ}
    (hlast : (if s.mustflush then s.lastused else (s.position + 255) % 256) = last) {x : List UInt8}
    (hx : x = (List.range r).map fun i =>
      Memory.write s.data (last + 1) (r + 1 - last) (fun _ => 0) (2 + i)) :
    ∃ s', s.fatFileWrite = (false, s') ∧ s'.Clean ∧ s'.Store r head (Slots.put (blank r) recs k x) := by
  have hpos := h.pos
  have hlen : x.length = r := by rw [hx, List.length_map, List.length_range]
  have hsize := h.size
  have hend : s.fh.size - s.headersize = recs.length * r := by
    rw [hsize, h.headersize, Nat.add_sub_cancel_left]
  obtain ⟨fh, junk, hseek, hpointer, hcontents, hjunk⟩ := h.reposition hk
  obtain ⟨t, ht⟩ : ∃ t, t = (s.setFh fh).written
    (Memory.write s.data (last + 1) (r + 1 - last) fun _ => 0) r := ⟨_, rfl⟩
  have hready : t.Ready r head := by
    rw [ht]
    exact { h.toReady with }
  have hclean : t.Clean := by
    rw [ht]
    exact ⟨rfl, rfl⟩
  have hset : (s.setFh fh).Ready r head := { h.toReady with }
  have hwrite : (s.setFh fh).writeData = (false, t) := by
    rw [ht]
    exact hset.writeData hlast
  have hunfold : s.fatFileWrite =
      if k * r > recs.length * r then t.fillGap (recs.length * r) (k * r - recs.length * r)
      else (false, t) := by
    rw [State.fatFileWrite]
    dsimp only
    rw [hseek, if_neg (not_not.mpr rfl), hwrite, hend, hk]
    rfl
  have hfh : t.fh = fh.write r fun i =>
      Memory.write s.data (last + 1) (r + 1 - last) (fun _ => 0) (2 + i) := by
    rw [ht]
    rfl
  have hpointer' : t.fptr + t.headersize = t.fh.pointer := by
    rw [hready.headersize, ht]
    show fh.pointer + r - s.headersize + head.length = fh.pointer + r
    rw [h.headersize, hpointer]
    omega
  have hrecords : ∀ y ∈ Slots.put (blank r) recs k x, y.length = r :=
    Slots.forall_mem_put (blank_length hpos) hlen h.records
  rw [hunfold]
  by_cases hlt : k < recs.length
  · have hle : k * r ≤ recs.length * r := Nat.mul_le_mul_right r hlt.le
    have hnil : junk = [] := List.eq_nil_of_length_eq_zero (by rw [hjunk, Nat.sub_eq_zero_of_le hlt.le, Nat.zero_mul])
    obtain ⟨hsplit, htake⟩ := Slots.flatten_split h.records hlt
    have hk' : recs[k].length = r := h.records _ (List.getElem_mem hlt)
    rw [hnil, List.append_nil, hsplit, ← List.append_assoc] at hcontents
    rw [if_neg (by omega)]
    refine ⟨t, rfl, hclean, ⟨hready, ?_, hrecords, fun hsame => hpointer'.symm.trans hsame⟩⟩
    rw [hfh, File.contents_write_inside hcontents (by rw [List.length_append, htake, hpointer])
      (by rw [List.length_append, hk']; omega), ← hx, List.drop_left' hk', Slots.put, if_pos hlt,
      Slots.flatten_set hlt, List.append_assoc]
  · have hpast : recs.length * r + (k - recs.length) * r = k * r := by
      rw [← Nat.add_mul]
      congr 1
      omega
    have hfhsize : fh.pointer = fh.size := by
      rw [hpointer, ← File.contents_length, hcontents, List.length_append, List.length_append, hjunk,
        Slots.length_flatten h.records]
      omega
    have htcontents : t.fh.contents = (head ++ recs.flatten) ++ (junk ++ x) := by
      rw [hfh, File.contents_write_end hfhsize, ← hx, hcontents, List.append_assoc]
    rw [Slots.put, if_neg hlt]
    by_cases hgap : k * r > recs.length * r
    · rw [if_pos hgap, ← hpast, Nat.add_sub_cancel_left]
      exact fillGap_ok _ hready hclean h.records hlen htcontents hjunk
    · have hzero : k - recs.length = 0 := by
        obtain hz | hr := Nat.mul_eq_zero.mp (show (k - recs.length) * r = 0 by omega)
        · exact hz
        · omega
      have hnil : junk = [] := List.eq_nil_of_length_eq_zero (by rw [hjunk, hzero, Nat.zero_mul])
      rw [Slots.put, if_neg hlt] at hrecords
      rw [if_neg hgap]
      refine ⟨t, rfl, hclean, ⟨hready, ?_, hrecords, fun hsame => hpointer'.symm.trans hsame⟩⟩
      rw [htcontents, hnil, hzero]
      simp only [List.flatten_append, List.flatten_cons, List.flatten_nil, List.append_nil,
        List.append_assoc, List.replicate_zero, List.nil_append]

/-! ### One access -/

/-- The record that is written after a payload went into the buffer from `q` on. -/
theorem record_eq {data : ℕ → UInt8} {p : List UInt8} {q : ℕ} (hq : q = 1 ∨ q = 2) (hp : 1 ≤ p.length)
    (hr : p.length ≤ r) :
    (List.range r).map (fun i => Memory.write (Memory.write data q p.length fun i => p.getD i 0)
      (q + p.length - 1 + 1) (r + 1 - (q + p.length - 1)) (fun _ => 0) (2 + i)) =
      padded r (p.drop (2 - q)) := by
  apply List.ext_getElem
  · rw [List.length_map, List.length_range, padded, List.length_append, List.length_replicate,
      List.length_drop]
    omega
  · intro i hi _
    rw [List.length_map, List.length_range] at hi
    rw [List.getElem_map, List.getElem_range]
    by_cases hin : 2 + i < q + p.length
    · have hdrop : i < (p.drop (2 - q)).length := by
        rw [List.length_drop]
        omega
      rw [Memory.write_outside (.inl (by omega)), Memory.write, if_pos ⟨by omega, hin⟩,
        List.getD_eq_getElem _ _ (by omega)]
      simp only [padded, List.getElem_append_left hdrop, List.getElem_drop]
      congr 1
      omega
    · have hdrop : (p.drop (2 - q)).length ≤ i := by
        rw [List.length_drop]
        omega
      rw [Memory.write, if_pos ⟨by omega, by omega⟩]
      simp only [padded, List.getElem_append_right hdrop, List.getElem_replicate]

theorem channel_marks : channel.Marks where
  toLawful := channel_lawful
  cursor_markDirty _ := rfl

/-- The file is untouched while a payload goes into the buffer. -/
theorem stored_eq {p : List UInt8} (hp : p ≠ []) :
    channel.stored s p = { s with toCursor := s.toCursor.puts p, dirty := true } := by
  induction p generalizing s with
  | nil => exact absurd rfl hp
  | cons x p ih =>
    by_cases hnil : p = []
    · subst hnil
      rfl
    · exact ih hnil

/-- The last byte that a flush writes after a payload. -/
theorem puts_last {c : Cursor} {p : List UInt8} (hp : 1 ≤ p.length) (hlen : c.position + p.length ≤ 256)
    (hlast : c.lastused ≤ 255) (hflush : c.mustflush = false) :
    (if (c.puts p).mustflush then (c.puts p).lastused else ((c.puts p).position + 255) % 256) =
      c.position + p.length - 1 := by
  by_cases hfull : c.position + p.length = 256
  · obtain ⟨hmust, hlast⟩ := Cursor.puts_full hfull (List.length_pos_iff.mp hp) hlast
    rw [if_pos hmust, hlast, hfull]
  · rw [Cursor.puts_mustflush (by omega), hflush, if_neg Bool.false_ne_true, Cursor.puts_position (by omega)]
    omega

/-- A payload that is sent to a record that was sought is written there. -/
theorem Sought.listens (h : s.Sought r (k * r) head recs) {q : ℕ} (hq : q = 1 ∨ q = 2)
    (hposition : s.position = q) {p : List UInt8} (hp : 1 ≤ p.length) (hle : p.length ≤ r) :
    (s.listens [withEoi p]).Clean ∧
      (s.listens [withEoi p]).Store r head (Slots.put (blank r) recs k (padded r (p.drop (2 - q)))) := by
  have hne : p ≠ [] := List.length_pos_iff.mp hp
  have hr := h.le
  have hlen : s.position + p.length ≤ 256 := by omega
  obtain ⟨t, ht⟩ : ∃ t : State, t = { s with toCursor := s.toCursor.puts p, dirty := true } := ⟨_, rfl⟩
  have hstore : t.Store r head recs := by
    rw [ht]
    exact { h.toStore with
      recordlen := (Cursor.puts_recordlen _ _).trans h.recordlen
      write := (Cursor.puts_write _ _).trans h.write }
  have hfptr : t.fptr = k * r := by
    rw [ht]
    exact h.fptr
  have hlast : (if t.mustflush then t.lastused else (t.position + 255) % 256) = q + p.length - 1 := by
    rw [ht, ← hposition]
    exact puts_last hp hlen h.lastused h.mustflush
  have hrecord : padded r (p.drop (2 - q)) = (List.range r).map fun i =>
      Memory.write t.data (q + p.length - 1 + 1) (r + 1 - (q + p.length - 1)) (fun _ => 0) (2 + i) := by
    have hdata : t.data = Memory.write s.data q p.length fun i => p.getD i 0 := by
      rw [ht, ← hposition]
      exact Cursor.puts_data hlen
    rw [hdata, record_eq hq hp hle]
  obtain ⟨u, hwrite, huclean, hustore⟩ := hstore.fatFileWrite hfptr hlast hrecord
  obtain ⟨v, hseek, hv⟩ := hustore.fatFileSeek huclean (t.fptr + t.recordlen) 0
  have hrefill : channel.refill (channel.stored s p) = (false, v) := by
    show (channel.stored s p).callRefill = _
    rw [stored_eq hne, ← ht, callRefill, hstore.refill]
    show t.fatFileSeek (t.fptr + t.recordlen) 0 = _
    rw [fatFileSeek_dirty (by rw [ht]) hwrite huclean.dirty
      (hustore.headersize.trans hstore.headersize.symm), hseek]
  have hloop : channel.listenLoop s (withEoi p) = .more v := by
    have hfind : channel.find s = some s := if_pos h.allocated
    have hwrite' : (channel.cursor s).write = true := h.write
    have hrecordlen : (channel.cursor s).recordlen ≠ 0 := by
      show s.recordlen ≠ 0
      rw [h.recordlen]
      exact Nat.ne_of_gt h.pos
    rw [Channel.listenLoop, hfind]
    dsimp only
    rw [if_pos hwrite', Channel.listenBytes_record channel_marks hne hrecordlen h.mustflush hlen, hrefill]
    rfl
  rw [State.listens, hloop]
  exact ⟨hv.toClean, hv.toStore⟩

theorem parsePosition_access {secondary : UInt8} (h : s.Ready r head) (a : Access r secondary) :
    s.parsePosition secondary a.command = (s.fatFileSeek (a.index * r) 0).2 := by
  have hlow : a.low.toNat < 2 ^ 8 := a.low.toNat_lt
  have hfound : ¬(a.command.length < 2 ∨ ¬(s.allocated ∧ a.command.getD 1 0 &&& 15 = secondary)) := by
    rintro (hshort | hnone)
    · exact absurd hshort (by simp [Access.command])
    · exact hnone ⟨h.allocated, a.channel_eq⟩
  have hrecord : a.low.toNat ||| a.high.toNat <<< 8 = a.low.toNat + a.high.toNat * 256 := by
    rw [Nat.or_comm, ← Nat.shiftLeft_add_eq_or_of_lt hlow, Nat.shiftLeft_eq, Nat.add_comm]
  rw [parsePosition, if_neg hfound, if_pos (by rw [h.recordlen]; exact Nat.ne_of_gt h.pos)]
  show (if 1 > s.recordlen then _ else (s.fatFileSeek
    (((a.low.toNat ||| a.high.toNat <<< 8) - 1) * s.recordlen) (1 - 1)).2) = _
  rw [h.recordlen, if_neg (Nat.not_lt.mpr h.pos), hrecord]
  rfl

end State

/-! ### Whole runs -/

section

variable {r : ℕ} {secondary : UInt8} {recs : List (List UInt8)}

/-- What an access does to the records: the first byte of a payload for a record of zeros is lost. -/
def Access.effect (a : Access r secondary) (recs : List (List UInt8)) : List (List UInt8) :=
  match a.payload with
  | none => recs
  | some p =>
    Slots.put (blank r) recs a.index
      (padded r (if ∀ x ∈ recs.getD a.index (blank r), x = 0 then p.drop 1 else p))

def effects (recs : List (List UInt8)) (as : List (Access r secondary)) : List (List UInt8) :=
  as.foldl (fun recs a => a.effect recs) recs

/-- A run of accesses does to the file what they do to the records. -/
theorem State.Store.run {s : State} {head : List UInt8} (h : s.Store r head recs) (hs : s.Clean)
    (a : Access r secondary) : (a.run s).Clean ∧ (a.run s).Store r head (a.effect recs) := by
  obtain ⟨t, hseek, ht⟩ := h.fatFileSeek hs (a.index * r) 0
  have hposition := h.seek_position hs a.index
  rw [Access.run, State.parsePosition_access h.toReady, Access.effect]
  rw [hseek] at hposition ⊢
  cases hpayload : a.payload with
  | none => exact ⟨ht.toClean, ht.toStore⟩
  | some p =>
    obtain ⟨hp, hle⟩ := a.length p hpayload
    by_cases hzeros : ∀ x ∈ recs.getD a.index (blank r), x = 0
    · rw [if_pos hzeros] at hposition
      dsimp only
      rw [if_pos hzeros]
      exact ht.listens (.inl rfl) hposition hp hle
    · rw [if_neg hzeros] at hposition
      dsimp only
      rw [if_neg hzeros]
      exact ht.listens (.inr rfl) hposition hp hle

theorem State.Store.runs {s : State} {head : List UInt8} (h : s.Store r head recs) (hs : s.Clean)
    (as : List (Access r secondary)) : (runs s as).Clean ∧ (runs s as).Store r head (effects recs as) := by
  induction as generalizing s recs with
  | nil => exact ⟨hs, h⟩
  | cons a as ih =>
    obtain ⟨hclean, hstore⟩ := h.run hs a
    exact ih hstore hclean

/-- Closing the file leaves the records in it. -/
theorem State.Store.fatFileClose {s : State} {head : List UInt8} (h : s.Store r head recs) (hs : s.Clean) :
    s.fatFileClose.2.fh.contents = head ++ recs.flatten := by
  obtain ⟨t, hseek, ht⟩ := h.fatFileSeek hs (s.fptr + s.recordlen) 0
  have hrefill : s.callRefill = (false, t) := by
    rw [State.callRefill, h.refill]
    exact hseek
  rw [State.fatFileClose, if_neg (by rw [h.allocated]; decide)]
  dsimp only
  rw [if_pos h.write, hrefill]
  exact ht.contents

/-! ### Opening -/

theorem header_length {name : ℕ → UInt8} (x00 : Bool) (hr : 1 ≤ r) :
    (header x00 name r).length = if x00 then P00_HEADER_SIZE else 1 := by
  rw [header]
  cases x00 with
  | true => exact p00Header_length name r
  | false =>
    rw [if_neg Bool.false_ne_true, if_neg Bool.false_ne_true, if_pos (Nat.ne_of_gt hr)]
    rfl

/-- The first record is read into the buffer when a file is opened. -/
theorem State.store_startRecords {s : State} {head : List UInt8} (hio : s.NoFault)
    (hallocated : s.allocated = true) (hwritable : s.writable = true) (hs : s.Clean) (hpos : 1 ≤ r)
    (hle : r ≤ 254) (hhead : head.length < 256) (hpointer : s.fh.pointer = head.length)
    (hcontents : s.fh.contents = head ++ recs.flatten) (hrecs : ∀ x ∈ recs, x.length = r) :
    ∃ s', (s.startRecords r).fatFileRead = (false, s') ∧ s'.Clean ∧ s'.Store r head recs := by
  have hio' : (s.startRecords r).NoFault := hio
  have hheadersize : s.fh.pointer % 256 = head.length := by
    rw [hpointer]
    exact Nat.mod_eq_of_lt hhead
  refine ⟨_, fatFileRead_ok hio', { hs with }, ⟨⟨hio, rfl, hpos, hle, hallocated, rfl, rfl, hwritable,
    hheadersize⟩, hcontents, hrecs, ?_⟩⟩
  intro hend
  have hsize : head.length ≤ s.fh.size := by
    rw [← File.contents_length, hcontents, List.length_append]
    exact Nat.le_add_right _ _
  have hend' : s.fh.pointer - s.fh.pointer % 256 + s.fh.pointer % 256 = s.fh.size := hend
  show s.fh.pointer + min _ (s.fh.size - s.fh.pointer) = s.fh.size
  rw [hheadersize, hpointer] at hend'
  rw [hpointer]
  omega

theorem State.fatOpenRel_ok {s t u : State} {ext length : ℕ} {name : ℕ → UInt8} {x00 mode : Bool}
    (hopen : s.openRecords ext name x00 length mode = (.ok, 1, r, t))
    (hlength : (if mode ∧ length = 0 then r else length) = r)
    (hread : (t.startRecords r).fatFileRead = (false, u)) : s.fatOpenRel ext name x00 length mode = u := by
  rw [State.fatOpenRel, hopen]
  dsimp only
  rw [if_neg (by decide), hlength, hread, if_neg fun hne => hne.2 rfl]

/-- An existing file is opened behind the byte with the length of its records. -/
theorem State.openRecords_ok {data : ℕ → UInt8} {fh : File} {ext length n : ℕ} {name : ℕ → UInt8}
    {x00 : Bool} (hn : n = if x00 then P00_HEADER_SIZE else 1) (hsize : n ≤ fh.size)
    (hbyte : (fh.bytes (n - 1)).toNat = r) :
    ∃ t : State, (State.fresh data fh fun _ => .ok).openRecords ext name x00 length true =
      (.ok, 1, r, t) ∧ t.NoFault ∧ t.allocated = true ∧ t.writable = true ∧ t.Clean ∧
      t.fh.pointer = n ∧ t.fh.contents = fh.contents := by
  have hfault : (State.fresh data fh fun _ => .ok).NoFault := rfl
  have hopened : ((State.fresh data fh fun _ => .ok).opened true).NoFault := rfl
  have hn0 : 1 ≤ n := by
    rw [hn]
    split <;> decide
  obtain ⟨g, hg⟩ : ∃ g, g = fh.seek (n - 1) := ⟨_, rfl⟩
  have hlseek : (if x00 then ((State.fresh data fh fun _ => .ok).opened true).fLseek P00_RECORDLEN_OFFSET
      else (.ok, (State.fresh data fh fun _ => .ok).opened true)) =
      (.ok, ((State.fresh data fh fun _ => .ok).opened true).setFh g) := by
    cases x00 with
    | true =>
      rw [if_pos rfl, fLseek_ok hopened, hg, hn]
      rfl
    | false =>
      have hopen : ((State.fresh data fh fun _ => .ok).opened true).fh = fh.seek 0 := by
        show (⟨fh.bytes, fh.size, 0⟩ : File) = ⟨fh.bytes, max fh.size 0, 0⟩
        rw [Nat.max_zero]
      rw [if_neg Bool.false_ne_true, hg, hn, if_neg Bool.false_ne_true, Nat.sub_self, ← hopen]
      rfl
  have hgsize : g.size = fh.size := by
    rw [hg]
    exact Nat.max_eq_left (by omega)
  have hgpointer : g.pointer = n - 1 := by rw [hg]; rfl
  have hone : g.available 1 = 1 := by
    rw [File.available, hgsize, hgpointer]
    omega
  have hset : (((State.fresh data fh fun _ => .ok).opened true).setFh g).NoFault := rfl
  refine ⟨(((State.fresh data fh fun _ => .ok).opened true).setFh g).setFh (g.read 1), ?_, rfl, rfl, rfl,
    ⟨rfl, rfl⟩, ?_, ?_⟩
  · rw [openRecords, fOpen_ok hfault]
    dsimp only
    rw [hlseek, if_neg (by decide), if_neg (not_not.mpr rfl), if_neg (not_not.mpr rfl), fRead_ok hset]
    have hlength : (g.bytes g.pointer).toNat = r := by
      rw [hgpointer, hg]
      exact hbyte
    show (FResult.ok, g.available 1, (g.bytes g.pointer).toNat, _) = _
    rw [hone, hlength]
    rfl
  · show g.pointer + g.available 1 = n
    rw [hone, hgpointer]
    omega
  · show g.contents = fh.contents
    rw [hg]
    exact File.contents_seek_of_le (by omega)

theorem RelOpened.store {s : State} {head : List UInt8} (h : RelOpened r s head recs) (hpos : 1 ≤ r)
    (hle : r ≤ 254) : s.Clean ∧ s.Store r head recs := by
  cases h with
  | created ext name x00 data bytes pointer =>
    obtain ⟨t, hcreate, ht⟩ := State.createFile_ok (s := State.fresh data ⟨bytes, 0, pointer⟩ fun _ => .ok)
      rfl rfl rfl ext name .rel r
    generalize hhead : header (buildName ext (nameChars name) .rel).2 name r = head at ht ⊢
    have hlen : head.length < 256 := by
      rw [← hhead, header_length _ hpos]
      split <;> decide
    have heq := ht.eq
    have hpointer : t.fh.pointer = head.length := by
      rw [ht.pointer, ← ht.contents, File.contents_length]
    have hcontents : t.fh.contents = head ++ ([] : List (List UInt8)).flatten := by
      rw [ht.contents]
      exact (List.append_nil _).symm
    obtain ⟨u, hread, hclean, hstore⟩ := State.store_startRecords (s := t) (by rw [heq]; rfl)
      (by rw [heq]; rfl) (by rw [heq]; rfl) (by rw [heq]; exact ⟨rfl, rfl⟩) hpos hle hlen hpointer
      hcontents (by simp)
    rw [State.fatOpenRel_ok (by rw [State.openRecords, hcreate]; rfl) rfl hread]
    exact ⟨hclean, hstore⟩
  | reopened ext name x00 data fh length _ _ hcontents hheader hstored hlength hrecords =>
    have hsize : fh.size = head.length + recs.length * r := by
      rw [← File.contents_length, hcontents, List.length_append, Slots.length_flatten hrecords]
    have hne : 1 ≤ head.length := by
      rw [hheader]
      split <;> decide
    have hbyte : fh.bytes (head.length - 1) = UInt8.ofNat r := by
      have hget : fh.contents[head.length - 1]? = some (fh.bytes (head.length - 1)) := by
        rw [File.contents, List.getElem?_map, List.getElem?_range (by omega)]
        rfl
      rw [hcontents, List.getElem?_append_left (by omega), ← List.getLast?_eq_getElem?, hstored] at hget
      exact (Option.some.inj hget).symm
    have hopen : ∃ t : State, (State.fresh data fh fun _ => .ok).openRecords ext name x00 length true =
        (.ok, 1, r, t) ∧ t.NoFault ∧ t.allocated = true ∧ t.writable = true ∧ t.Clean ∧
        t.fh.pointer = head.length ∧ t.fh.contents = head ++ recs.flatten := by
      rw [← hcontents]
      exact State.openRecords_ok hheader (by omega) (by rw [hbyte, UInt8.toNat_ofNat_of_lt' (show r < 256 by omega)])
    obtain ⟨t, hopened, hio, hallocated, hwritable, hclean, hpointer, htcontents⟩ := hopen
    have hlen : head.length < 256 := by
      rw [hheader]
      split <;> decide
    obtain ⟨u, hread, hclean, hstore⟩ := State.store_startRecords hio hallocated hwritable hclean hpos hle
      hlen hpointer htcontents hrecords
    have hrecordlen : (if true = true ∧ length = 0 then r else length) = r := by
      obtain rfl | rfl := hlength
      · exact if_pos ⟨rfl, rfl⟩
      · exact if_neg fun hzero => absurd hzero.2 (by omega)
    rw [State.fatOpenRel_ok hopened hrecordlen hread]
    exact ⟨hclean, hstore⟩

/-! ### When the records are right -/

/-- What an access should do to the records. -/
def Access.wanted (a : Access r secondary) (recs : List (List UInt8)) : List (List UInt8) :=
  Slots.puts (blank r) recs (writes [a])

theorem expected_append (as : List (Access r secondary)) (a : Access r secondary) :
    expected recs (as ++ [a]) = a.wanted (expected recs as) := by
  rw [expected, expected, ← Slots.puts_eq, ← Slots.puts_eq, Access.wanted, Slots.puts, Slots.puts,
    Slots.puts, writes, List.filterMap_append, List.foldl_append]
  rfl

/-- A payload without its first byte is the same record only if it has nothing but zeros. -/
theorem padded_drop_iff {p : List UInt8} (hp : 1 ≤ p.length) (hr : p.length ≤ r) :
    padded r (p.drop 1) = padded r p ↔ ∀ x ∈ p, x = 0 := by
  induction p generalizing r with
  | nil => exact absurd hp (by decide)
  | cons x p ih =>
    rw [List.length_cons] at hr
    obtain ⟨r, rfl⟩ := Nat.exists_eq_succ_of_ne_zero (n := r) (by omega)
    cases p with
    | nil => simp [padded, List.replicate_succ, eq_comm]
    | cons y p =>
      have hrest := ih (r := r) (by simp) (by omega)
      have hcons : ∀ z : UInt8, ∀ q : List UInt8, padded (r + 1) (z :: q) = z :: padded r q := by
        intro z q
        rw [padded, padded, List.length_cons, Nat.add_sub_add_right, List.cons_append]
      rw [List.drop_one, List.tail_cons] at hrest ⊢
      rw [hcons, hcons, List.cons.injEq, hrest, List.forall_mem_cons (a := x)]
      constructor
      · rintro ⟨hxy, hall⟩
        exact ⟨hxy ▸ hall y List.mem_cons_self, hall⟩
      · rintro ⟨hx, hall⟩
        exact ⟨(hall y List.mem_cons_self).trans hx.symm, hall⟩

/-- An access does what it should, unless its payload is shifted. -/
theorem Access.effect_eq_iff (a : Access r secondary) :
    a.effect recs = a.wanted recs ↔ ¬a.Shifted recs := by
  rw [Access.effect, Access.wanted, Access.Shifted, writes]
  cases hpayload : a.payload with
  | none => exact iff_of_true (by simp [hpayload, Slots.puts]) (by simp)
  | some p =>
    obtain ⟨hp, hr⟩ := a.length p hpayload
    have hwanted : Slots.puts (blank r) recs ([a].filterMap fun a => a.payload.map fun p =>
        (a.index, padded r p)) = Slots.put (blank r) recs a.index (padded r p) := by
      simp [hpayload, Slots.puts]
    rw [hwanted]
    dsimp only
    by_cases hzeros : ∀ x ∈ recs.getD a.index (blank r), x = 0
    · rw [if_pos hzeros]
      have hput : Slots.put (blank r) recs a.index (padded r (p.drop 1)) =
          Slots.put (blank r) recs a.index (padded r p) ↔ padded r (p.drop 1) = padded r p := by
        constructor
        · intro heq
          have hget := congrArg (fun xs => xs.getD a.index (blank r)) heq
          simpa only [Slots.getD_put, if_pos] using hget
        · intro heq
          rw [heq]
      rw [hput, padded_drop_iff hp hr]
      constructor
      · rintro hall ⟨⟨q, hq, x, hx, hne⟩, -⟩
        rw [Option.mem_some_iff] at hq
        exact hne (hall x (hq ▸ hx))
      · intro hshift x hx
        by_contra hne
        exact hshift ⟨⟨p, rfl, x, hx, hne⟩, hzeros⟩
    · rw [if_neg hzeros]
      exact iff_of_true rfl fun hshift => hzeros hshift.2

theorem expected_nil (recs : List (List UInt8)) :
    expected recs ([] : List (Access r secondary)) = recs := by
  rw [expected, ← Slots.puts_eq]
  rfl

theorem effects_append (as : List (Access r secondary)) (a : Access r secondary) :
    effects recs (as ++ [a]) = a.effect (effects recs as) := by
  rw [effects, List.foldl_append]
  rfl

theorem padded_length {p : List UInt8} (h : p.length ≤ r) : (padded r p).length = r := by
  rw [padded, List.length_append, List.length_replicate]
  omega

theorem length_mem_expected (hr : 1 ≤ r) (hrecs : ∀ x ∈ recs, x.length = r) (as : List (Access r secondary)) :
    ∀ x ∈ expected recs as, x.length = r := by
  induction as using List.reverseRecOn with
  | nil => rwa [expected_nil]
  | append_singleton as a ih =>
    rw [expected_append, Access.wanted, writes]
    cases hpayload : a.payload with
    | none => simpa [hpayload, Slots.puts] using ih
    | some p =>
      have hlen := padded_length (a.length p hpayload).2
      have hput := Slots.forall_mem_put (k := a.index) (State.blank_length hr) hlen ih
      simpa [hpayload, Slots.puts] using hput

/-- The file is right after each access, and when it is closed then, just when no payload that has
other bytes is sent to a record that holds only zeros. -/
theorem relFile_records_iff {s : State} {head : List UInt8} (hpos : 1 ≤ r) (hle : r ≤ 254)
    (hopen : RelOpened r s head recs) (as : List (Access r secondary)) :
    (∀ bs, bs <+: as → (runs s bs).fatFileClose.2.fh.contents = head ++ (expected recs bs).flatten ∧
      ∀ x ∈ expected recs bs, x.length = r) ↔
      ∀ bs a, bs ++ [a] <+: as → ¬a.Shifted (expected recs bs) := by
  obtain ⟨hclean, hstore⟩ := hopen.store hpos hle
  have hcontents : ∀ bs : List (Access r secondary),
      (runs s bs).fatFileClose.2.fh.contents = head ++ (effects recs bs).flatten := by
    intro bs
    obtain ⟨hclean', hstore'⟩ := hstore.runs hclean bs
    exact hstore'.fatFileClose hclean'
  constructor
  · intro hall bs a hprefix
    have heq : ∀ cs, cs <+: as → effects recs cs = expected recs cs := by
      intro cs hcs
      have hfile := (hall cs hcs).1
      rw [hcontents] at hfile
      exact Slots.flatten_injective hpos (hstore.runs hclean cs).2.records (hall cs hcs).2
        (List.append_cancel_left hfile)
    rw [← a.effect_eq_iff, ← expected_append, ← heq _ hprefix, effects_append,
      heq bs ((List.prefix_append bs [a]).trans hprefix)]
  · intro hall bs hprefix
    refine ⟨?_, length_mem_expected hpos hstore.records bs⟩
    rw [hcontents]
    congr 2
    induction bs using List.reverseRecOn with
    | nil => exact (expected_nil recs).symm
    | append_singleton bs a ih =>
      rw [effects_append, ih ((List.prefix_append bs [a]).trans hprefix), expected_append]
      exact a.effect_eq_iff.mpr (hall bs a hprefix)

end

/-- A new file `A` with records of two bytes, on secondary address 3. -/
def twoByteRecords : State :=
  (State.fresh (fun _ => 0) ⟨fun _ => 0, 0, 0⟩ fun _ => .ok).fatOpenRel 0
    (fun i => if i = 0 then 65 else 0) false 2 false

def twoByteAccess (low : UInt8) (p : List UInt8) (h : 1 ≤ p.length ∧ p.length ≤ 2) : Access 2 3 where
  channel := 99
  low
  high := 0
  payload := some p
  channel_eq := by decide
  length := by
    intro q hq
    rw [Option.mem_some_iff] at hq
    exact hq ▸ h

/-- The third record of a new file is written behind two blank ones. -/
theorem twoByteRecords_third :
    (runs twoByteRecords [twoByteAccess 3 [65] (by decide)]).fatFileClose.2.fh.contents =
      [2] ++ [[255, 0], [255, 0], [65, 0]].flatten := by
  have hright := (relFile_records_iff (by decide) (by decide)
    (RelOpened.created (r := 2) 0 (fun i => if i = 0 then 65 else 0) false (fun _ => 0) (fun _ => 0) 0)
    [twoByteAccess 3 [65] (by decide)]).mpr ?_ _ (List.prefix_refl _)
  · exact hright.1.trans (by decide +kernel)
  · intro bs a hprefix hshifted
    have hnil : bs = [] := by
      have hlen := hprefix.length_le
      simp only [List.length_append, List.length_singleton] at hlen
      exact List.eq_nil_of_length_eq_zero (by omega)
    subst hnil
    have ha : a = twoByteAccess 3 [65] (by decide) := by simpa using hprefix
    subst ha
    exact absurd (hshifted.2 255 (by decide +kernel)) (by decide)

/-- `A` is lost when it is sent to a record that was written with a zero. -/
theorem twoByteRecords_shifted :
    let as := [twoByteAccess 1 [0] (by decide), twoByteAccess 1 [65] (by decide)]
    RelOpened 2 twoByteRecords [2] [] ∧ expected [] as = [[65, 0]] ∧
      (runs twoByteRecords as).fatFileClose.2.fh.contents = [2, 0, 0] ∧
      (runs twoByteRecords as).fatFileClose.2.fh.contents ≠ [2] ++ (expected [] as).flatten := by
  refine ⟨?_, by decide +kernel, by decide +kernel, by decide +kernel⟩
  exact RelOpened.created (r := 2) 0 (fun i => if i = 0 then 65 else 0) false (fun _ => 0) (fun _ => 0) 0

end NoDiskEmu.Fat
