import NoDiskEmu.Dxx.Sector
import NoDiskEmu.Library.Walk

/-! The choice of the next sector for a growing file or directory. The loops of the source get fuel;
`none` is for a loop that has not ended when the fuel is used up. -/

namespace NoDiskEmu.Dxx

open Library

/-- `get_param(part, ...)`. -/
def State.param (s : State) (part : ℕ) : Param := (s.partition part).d64data

/-- `if (current_error == ERROR_OK) set_error(ERROR_DISK_FULL)`. -/
def diskFull (s : State) : State := if s.error.code = ERROR_OK then s.setError ERROR_DISK_FULL else s

/-- The track loop of `get_next_sector` on a DNP image: a track with free sectors, or `none` back at
the first one. -/
def dnpTrackRound (part track : ℕ) (x : ℕ × State) : Option ℕ × State ⊕ ℕ × State :=
  let f := sectorsFree x.2 part x.1
  if f.1 ≠ 0 then .inl (some x.1, f.2)
  else
    let next := (x.1 + 1) % 256
    let next := if next = f.2.lastTrack part ∨ next = 0 then 1 else next
    if next = track then .inl (none, f.2) else .inr (next, f.2)

/-- The sector loop of `get_next_sector` on a DNP image. -/
def dnpSectorRound (part track : ℕ) (x : ℕ × State) : ℕ × State ⊕ ℕ × State :=
  let f := isFree x.2 part track x.1
  if f.1 ≠ 0 then .inl (x.1, f.2) else .inr ((x.1 + 1) % 256, f.2)

/-- The variables of `get_next_sector` for the other formats. -/
structure Search where
  track : ℕ
  sector : ℕ
  tries : ℕ

/-- One step of the track loop away from the directory, and past the ends of the disk. -/
def Search.step (type : DxxType) (p : Param) (v : Search) : Search :=
  let track := if v.track < p.dirTrack then (v.track + 255) % 256
    else
      let track := (v.track + 1) % 256
      if type = .d71 ∧ track = 53 then (track + 1) % 256 else track
  let v := if track < 1 then ⟨p.dirTrack + 1, 0, v.tries + 1⟩ else { v with track }
  if v.track > p.lastTrack then ⟨p.dirTrack - 1, 0, v.tries + 1⟩ else v

def trackRound (part : ℕ) (x : Search × State) : Search × State ⊕ Search × State :=
  if x.1.tries < 3 then
    let f := sectorsFree x.2 part x.1.track
    if f.1 = 0 then .inr (x.1.step (f.2.type part) (f.2.param part), f.2) else .inl (x.1, f.2)
  else .inl x

/-- The sector loop: `tries` runs from 99 down, and past 0 to 255. -/
def sectorRound (part : ℕ) (x : Search × State) : Search × State ⊕ Search × State :=
  let f := isFree x.2 part x.1.track x.1.sector
  let v := { x.1 with tries := (x.1.tries + 255) % 256 }
  if f.1 ≤ 0 then
    if x.1.tries ≠ 0 then
      let sector := (v.sector + 1) % 256
      .inr ({ v with sector := if sector ≥ sectorsPerTrack (f.2.type part) v.track then 0 else sector },
        f.2)
    else .inl (v, f.2)
  else .inl (x.1, f.2)

/-- The sector at interleave distance, in a byte. -/
def interleaved (type : DxxType) (interleave : ℕ) (v : Search) : ℕ :=
  let sector := (v.sector + interleave) % 256
  if sector ≥ sectorsPerTrack type v.track then
    let sector := sector - sectorsPerTrack type v.track
    if sector ≠ 0 then sector - 1 else sector
  else sector

/-- `get_next_sector` on a DNP image. -/
def dnpNextSector (fuel part track sector : ℕ) (s : State) : Option (ℕ × ℕ × ℕ × State) :=
  match Walk.loop (dnpTrackRound part track) fuel (track, s) with
  | none => none
  | some (none, s) => some (1, track, sector, s)
  | some (some newtrack, s) =>
    match Walk.loop (dnpSectorRound part newtrack) fuel
      (if newtrack = track then sector else 0, s) with
    | none => none
    | some (newsector, s) => some (0, newtrack, newsector, s)

/-- `get_next_sector` on an image of another format, from the track loop on. -/
def searchNextSector (fuel part track sector interleave : ℕ) (s : State) :
    Option (ℕ × ℕ × ℕ × State) :=
  match Walk.loop (trackRound part) fuel (⟨track, sector, 0⟩, s) with
  | none => none
  | some (v, s) =>
    if v.tries = 3 then some (1, v.track, v.sector, diskFull s)
    else
      match Walk.loop (sectorRound part) fuel
        (⟨v.track, interleaved (s.type part) interleave v, 99⟩, s) with
      | none => none
      | some (v, s) =>
        if v.tries ≠ 0 then some (0, v.track, v.sector, s)
        else some (1, v.track, v.sector, diskFull s)

/-- `get_next_sector`: the result code, `*track` and `*sector` afterwards, and the state. -/
def getNextSector (fuel part track sector : ℕ) (s : State) : Option (ℕ × ℕ × ℕ × State) :=
  if s.isDnp part then dnpNextSector fuel part track sector s
  else if track = (s.param part).dirTrack then
    let f := sectorsFree s part track
    if f.1 = 0 then some (1, track, sector, diskFull f.2)
    else searchNextSector fuel part track sector (s.param part).dirInterleave f.2
  else searchNextSector fuel part track sector (s.param part).fileInterleave s

end NoDiskEmu.Dxx
