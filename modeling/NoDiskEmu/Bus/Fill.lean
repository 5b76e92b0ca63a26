import NoDiskEmu.Dos.Block
import NoDiskEmu.Dos.Listing
import NoDiskEmu.Dxx.Fill
import NoDiskEmu.Eeprom.Refill
import NoDiskEmu.Fat.Fill

/-! The functions that fill a buffer for the talk loops, in all file systems and for direct-access
buffers. -/

namespace NoDiskEmu

open Library

/-- A buffer that the talk loops can send: they send the bytes up to `lastused`, all of them and nothing
else, and EOI goes with the last one when `sendeoi` is set. -/
structure Cursor.Sendable (c : Cursor) : Prop where
  le : c.position ≤ c.lastused
  sends : ∀ (σ : Type) (ch : Channel σ) (s : σ) (n : ℕ), ch.Lawful → ch.cursor s = c → c.read = true →
    ch.talkBytes s (c.fill.length + n) = (c.tagged ++ (ch.afterTalk s n).1, (ch.afterTalk s n).2)

theorem Cursor.sendable_iff {c : Cursor} (h : c.lastused ≤ 255) : c.Sendable ↔ c.position ≤ c.lastused := by
  refine ⟨Sendable.le, fun hle => ⟨hle, fun σ ch s n hlawful hcursor hread => ?_⟩⟩
  subst hcursor
  exact Channel.talkBytes_fill hlawful hread hle h n

/-- The calls that fill a buffer which the host reads. What they work on is arbitrary: the image or the
file, the outcomes of the accesses to it, and what was in the buffer before. -/
inductive Producer
  | d64OpenRead (s : Dxx.State) (part : ℕ) (dh : Dxx.D64dh) (data : ℕ → UInt8)
  | d64RawDirectory (s : Dxx.State) (part : ℕ) (track sector : UInt8) (data : ℕ → UInt8)
  | d64Read (s : Dxx.State) (buf : Dxx.FileBuffer)
  | fatOpenRead (x00 : Bool) (data : ℕ → UInt8) (fh : File) (io : ℕ → Fat.Io)
  | fatOpenRel (ext : ℕ) (name : ℕ → UInt8) (x00 mode : Bool) (length : UInt8) (data : ℕ → UInt8)
      (fh : File) (io : ℕ → Fat.Io) (new : mode = false → fh.size = 0)
  | fatRefill (s : Fat.State) (recordlen : s.recordlen ≤ 255)
      (refill : s.refill = .fatFileRead ∨ s.refill = .fatFileSync)
  | fatFileSeek (s : Fat.State) (position index : ℕ)
  | eefsOpenRead (c : Eeprom.Config) (b : Eeprom.EefsBuffer) (name : Eeprom.Name)
  | eefsRefillRead (c : Eeprom.Config) (b : Eeprom.EefsBuffer) (opened : b.Opened c)
  | loadDirectory (v : Dos.DirectoryInput) (data : ℕ → UInt8) (saved : Dos.Dirent)
  | listingRefill (v : Dos.ListingInput) (b : Dos.Listing) (opened : b.Opened)
  | directbufferRefill (b : Channels) (i : ℕ) (lastused : ∀ j, (b.chan j).lastused ≤ 255)
  | blockRead (media : Dos.Media) (b : Bool) (i track sector : ℕ) (t : Traced)

namespace Producer

/-- The buffer after a call that succeeded. -/
def result : Producer → Option Cursor
  | d64OpenRead s part dh data =>
    let buf := (Dxx.d64OpenRead part dh (.fresh data) s).1
    if buf.read = true ∧ buf.freed = false then some buf.cursor else none
  | d64RawDirectory s part track sector data =>
    let buf := (Dxx.d64RawDirectory part track.toNat sector.toNat (.fresh data) s).1
    if buf.freed = false then some buf.cursor else none
  | d64Read s buf =>
    let r := Dxx.d64Read buf s
    if r.1 = 0 then some r.2.1.cursor else none
  | fatOpenRead x00 data fh io =>
    let s := (Fat.State.fresh data fh io).fatOpenRead x00
    if s.read = true ∧ s.allocated = true then some s.toCursor else none
  | fatOpenRel ext name x00 mode length data fh io _ =>
    let s := (Fat.State.fresh data fh io).fatOpenRel ext name x00 length.toNat mode
    if s.read = true ∧ s.allocated = true then some s.toCursor else none
  | fatRefill s _ _ => if s.callRefill.1 = false then some s.callRefill.2.toCursor else none
  | fatFileSeek s position index =>
    if (s.fatFileSeek position index).1 = false then some (s.fatFileSeek position index).2.toCursor
    else none
  | eefsOpenRead c b name =>
    if (b.fs.eepromfsOpen c name .read).1 = .ok then some (b.eefsOpenRead c name).toCursor else none
  | eefsRefillRead c b _ =>
    if (b.eefsRefillRead c).1 = false then some (b.eefsRefillRead c).2.toCursor else none
  | loadDirectory v data saved => (Dos.loadDirectory v (.fresh data saved)).map Dos.Listing.toCursor
  | listingRefill v b _ => if (b.callRefill v).1 = false then some (b.callRefill v).2.toCursor else none
  | directbufferRefill b i _ =>
    ((b.chan i).next.or (b.chan i).first).map fun j => (b.directbufferRefill i).cursor j
  | blockRead media b i track sector t =>
    let r := Dos.blockRead media b i track sector t
    if r.1 = 0 then some (r.2.chans.cursor i) else none

/-- A sector of an image that is the last one of a file and has no bytes. -/
def EmptySector (s : Dxx.State) (part : ℕ) (x : ℕ × ℕ) : Prop :=
  (s.linkBytes part x).1 = 0 ∧ (s.linkBytes part x).2 < 2

/-- What the call needs to find: a sector with bytes in an image, a record that is not zeros only, a file
of the EEPROM with bytes that are left, and for `B-R` a sector whose first byte is not 0. -/
def Fills : Producer → Prop
  | d64OpenRead s part dh _ => ¬EmptySector s part (Dxx.fileStart s part dh)
  | d64RawDirectory s part track sector _ =>
    ¬EmptySector s part (track.toNat,
      if (s.partition part).imagetype = ⟨.dnp, false⟩ then sector.toNat else 0)
  | d64Read s buf => ¬EmptySector s buf.part ((buf.data 0).toNat, (buf.data 1).toNat)
  | fatOpenRel _ _ x00 mode length data fh _ _ =>
    let recordlen := if length.toNat = 0 then (fh.bytes (Fat.State.firstRecord x00 - 1)).toNat
      else length.toNat
    mode = false ∨ recordlen = 0 ∨
      Fat.Strippable (data 0) ((fh.contents.drop (Fat.State.firstRecord x00)).take recordlen)
  | fatRefill s _ _ => s.refill = .fatFileSync ∨ s.Fillable
  | eefsOpenRead c b name => (b.fs.findEntry c name).2.buffer.size ≠ 0
  | eefsRefillRead _ b _ => b.fh.curOffset < b.fh.size
  | blockRead media b i track sector t =>
    b = true → ((media.readSector (t.chans.chan i).part track sector).2.getD
      (t.chans.table.buffers i).data) 0 ≠ 0
  | _ => True

variable {c : Cursor}

theorem some_of_if {p : Prop} [Decidable p] {x : Cursor} (h : (if p then some x else none) = some c) :
    p ∧ x = c := by
  split at h
  · next hp => exact ⟨hp, Option.some.inj h⟩
  · cases h

theorem blockRead_cursor (media : Dos.Media) (b : Bool) (i track sector : ℕ) (t : Traced) :
    let c := (Dos.blockRead media b i track sector t).2.chans.cursor i
    c.lastused ≤ 255 ∧ (c.position ≤ c.lastused ↔ (blockRead media b i track sector t).Fills) := by
  have hassign : ∀ u : Traced, (u.assign (some i) fun i c => c.setChan i { c.chan i with
      position := if b then 1 else 0
      lastused := if b then ((c.table.buffers i).data 0).toNat else 255 }).chans.cursor i =
      { u.chans.cursor i with
        position := if b then 1 else 0
        lastused := if b then ((u.chans.table.buffers i).data 0).toNat else 255 } := by
    intro u
    dsimp only [Traced.assign, Channels.cursor]
    rw [Channels.setChan_self]
    rfl
  obtain ⟨u, hcursor, hfirst⟩ : ∃ u : Traced, (Dos.blockRead media b i track sector t).2.chans.cursor i =
      { u.chans.cursor i with
        position := if b then 1 else 0
        lastused := if b then ((u.chans.table.buffers i).data 0).toNat else 255 } ∧
      (u.chans.table.buffers i).data 0 =
        ((media.readSector (t.chans.chan i).part track sector).2.getD (t.chans.table.buffers i).data) 0 := by
    rw [Dos.blockRead]
    cases (media.readSector (t.chans.chan i).part track sector).2 with
    | none => exact ⟨t, hassign t, rfl⟩
    | some data =>
      refine ⟨t.putBytes i 256 data, hassign _, ?_⟩
      dsimp only [Traced.putBytes, Option.getD_some]
      rw [Nat.sub_self, if_pos ⟨le_refl i, by decide⟩]
      rfl
  rw [hcursor, Fills, ← hfirst]
  generalize (u.chans.table.buffers i).data 0 = first
  have hlt := first.toNat_lt
  cases b with
  | true =>
    refine ⟨show first.toNat ≤ 255 by omega, ?_⟩
    show 1 ≤ first.toNat ↔ (true = true → first ≠ 0)
    constructor
    · intro hone _ hzero
      rw [hzero] at hone
      exact absurd hone (by decide)
    · intro hne
      exact Nat.pos_of_ne_zero fun hzero => hne rfl (UInt8.toNat_inj.mp hzero)
  | false => exact ⟨le_refl 255, iff_of_true (Nat.zero_le 255) fun hfalse => by cases hfalse⟩

theorem directbufferRefill_cursor {b : Channels} {i j : ℕ} (h : (b.chan i).next.or (b.chan i).first = some j)
    (hlast : ∀ j, (b.chan j).lastused ≤ 255) :
    ((b.directbufferRefill i).cursor j).lastused ≤ 255 ∧ ((b.directbufferRefill i).cursor j).position = 0 := by
  have hchan : (b.directbufferRefill i).chan j = { b.chan j with position := 0, mustflush := false } := by
    rw [Channels.directbufferRefill]
    dsimp only
    rw [Channels.setSecondary_chan, h]
    exact Channels.setChan_self ..
  rw [Channels.cursor, hchan]
  exact ⟨hlast j, rfl⟩

/-- Whenever a call fills a buffer, the talk loops send the fill just when the call found something to
send. -/
theorem sendable_iff_fills (p : Producer) (h : p.result = some c) : c.Sendable ↔ p.Fills := by
  have hsplit : c.lastused ≤ 255 ∧ (c.position ≤ c.lastused ↔ p.Fills) → (c.Sendable ↔ p.Fills) := by
    rintro ⟨hlast, hiff⟩
    exact (Cursor.sendable_iff hlast).trans hiff
  apply hsplit
  cases p with
  | d64OpenRead s part dh data =>
    obtain ⟨⟨hread, hfreed⟩, rfl⟩ := some_of_if h
    exact Dxx.d64OpenRead_filled hread hfreed
  | d64RawDirectory s part track sector data =>
    obtain ⟨hfreed, rfl⟩ := some_of_if h
    exact Dxx.d64RawDirectory_filled hfreed
  | d64Read s buf =>
    obtain ⟨hok, rfl⟩ := some_of_if h
    exact Dxx.d64Read_filled hok
  | fatOpenRead x00 data fh io =>
    obtain ⟨⟨hread, hallocated⟩, rfl⟩ := some_of_if h
    obtain ⟨hlast, hle⟩ := Fat.State.fatOpenRead_filled hread hallocated
    exact ⟨hlast, iff_of_true hle trivial⟩
  | fatOpenRel ext name x00 mode length data fh io new =>
    obtain ⟨⟨hread, hallocated⟩, rfl⟩ := some_of_if h
    have hlength : length.toNat ≤ 255 := Nat.le_of_lt_succ length.toNat_lt
    exact Fat.State.fatOpenRel_filled hlength new hread hallocated
  | fatRefill s recordlen refill =>
    obtain ⟨hok, rfl⟩ := some_of_if h
    rw [Fills]
    obtain hread | hsync := refill
    · have hcall : s.callRefill = s.fatFileRead := by rw [Fat.State.callRefill, hread]
      rw [hcall] at hok ⊢
      rw [hread, or_iff_right (by decide)]
      exact Fat.State.fatFileRead_filled recordlen (Prod.ext hok rfl)
    · have hcall : s.callRefill = s.fatFileSeek (s.fptr + s.recordlen) 0 := by
        rw [Fat.State.callRefill, hsync]
        rfl
      rw [hcall] at hok ⊢
      obtain ⟨hlast, hle⟩ := Fat.State.fatFileSeek_filled (Prod.ext hok rfl)
      exact ⟨hlast, iff_of_true hle (.inl hsync)⟩
  | fatFileSeek s position index =>
    obtain ⟨hok, rfl⟩ := some_of_if h
    obtain ⟨hlast, hle⟩ := Fat.State.fatFileSeek_filled (Prod.ext hok rfl)
    exact ⟨hlast, iff_of_true hle trivial⟩
  | eefsOpenRead config b name =>
    obtain ⟨hok, rfl⟩ := some_of_if h
    exact Eeprom.EefsBuffer.eefsOpenRead_filled hok
  | eefsRefillRead config b opened =>
    obtain ⟨hok, rfl⟩ := some_of_if h
    exact (Eeprom.EefsBuffer.eefsRefillRead_filled opened.curSoffset (Prod.ext hok rfl)).2
  | loadDirectory v data saved =>
    obtain ⟨b, hload, rfl⟩ := Option.map_eq_some_iff.mp h
    have hfilled := Dos.Listing.loadDirectory_filled hload
    exact ⟨hfilled.lt, iff_of_true hfilled.le trivial⟩
  | listingRefill v b opened =>
    obtain ⟨hok, rfl⟩ := some_of_if h
    obtain ⟨hraw, hlast⟩ := opened.bounds
    have hfilled := Dos.Listing.callRefill_filled hraw hlast (Prod.ext hok rfl)
    exact ⟨hfilled.lt, iff_of_true hfilled.le trivial⟩
  | directbufferRefill b i lastused =>
    obtain ⟨j, hj, rfl⟩ := Option.map_eq_some_iff.mp h
    obtain ⟨hlast, hpos⟩ := directbufferRefill_cursor hj lastused
    exact ⟨hlast, iff_of_true (by rw [hpos]; exact Nat.zero_le _) trivial⟩
  | blockRead media b i track sector t =>
    obtain ⟨-, rfl⟩ := some_of_if h
    exact blockRead_cursor media b i track sector t

/-- A file of six bytes on a FAT file system, opened for reading. -/
def sixBytes : Producer := fatOpenRead false (fun _ => 0) ⟨fun i => 65 + UInt8.ofNat i, 6, 0⟩ fun _ => .ok

/-- The file fills the buffer with its bytes. -/
theorem sendable_sixBytes :
    ∃ c, sixBytes.result = some c ∧ c.fill = [65, 66, 67, 68, 69, 70] ∧ c.Sendable :=
  ⟨_, rfl, rfl, (sendable_iff_fills sixBytes rfl).mpr trivial⟩

/-- The file of records of two bytes whose first record is zeros only. -/
def zeroRecord : Producer :=
  fatOpenRel 0 (fun _ => 65) false true 0 (fun _ => 0) ⟨fun i => if i = 0 then 2 else 0, 3, 0⟩
    (fun _ => .ok) (fun h => absurd h (by decide))

/-- A record of zeros leaves the position behind the end of the fill. -/
theorem zeroRecord_not_sendable :
    zeroRecord.result.map (fun c => (c.position, c.lastused)) = some (2, 1) ∧
      ¬∀ (p : Producer) (c : Cursor), p.result = some c → c.position ≤ c.lastused := by
  have hresult : zeroRecord.result.map (fun c => (c.position, c.lastused)) = some (2, 1) := by
    decide +kernel
  refine ⟨hresult, fun hall => ?_⟩
  obtain ⟨c, hc, hfields⟩ := Option.map_eq_some_iff.mp hresult
  have hle := hall zeroRecord c hc
  rw [Prod.mk.injEq] at hfields
  omega

end Producer

end NoDiskEmu
