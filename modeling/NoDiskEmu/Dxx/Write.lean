import NoDiskEmu.Dxx.Counters
import NoDiskEmu.Dxx.DnpSearch
import NoDiskEmu.Dxx.Delete

/-! Writing a full buffer to a file: the next sector is searched and allocated, and the sector that the
buffer belongs to gets the data and the link. -/

namespace NoDiskEmu.Dxx

open Library

variable {s s₀ s' : State} {part track sector : ℕ} {p : Partition}

/-! ### The code -/

namespace FileBuffer

/-- The buffer as `free_buffer` leaves it. -/
def free (buf : FileBuffer) : FileBuffer := { buf with freed := true }

/-- The first two bytes of the data. -/
def setLink (buf : FileBuffer) (t q : ℕ) : FileBuffer :=
  { buf with data := Memory.write buf.data 0 2 fun i => .ofNat (if i = 0 then t else q) }

/-- The buffer belongs to the sector `t`/`q`, and it is empty. -/
def moveTo (buf : FileBuffer) (t q : ℕ) : FileBuffer :=
  { buf with track := t, sector := q, position := 2, lastused := 1, mustflush := false }

end FileBuffer

/-- What `d64_write` returns is right: after success the buffer belongs to a new sector, which was free
and is allocated now, and the old one links to it. After an error the old sector is the last one of its
chain. The data of the buffer are in the old sector in both cases. -/
structure Written (s : State) (buf : FileBuffer) (r : ℕ × FileBuffer × State) : Prop where
  code : r.1 = 0 ∨ r.1 = 1
  stored : ∀ i, 2 ≤ i → i < 256 →
    r.2.2.image buf.part (s.offset buf.part buf.track buf.sector + i) = buf.data i
  success : r.1 = 0 → (s.through buf.part).Valid r.2.1.track r.2.1.sector ∧
    (s.through buf.part).isFree r.2.1.track r.2.1.sector = true ∧
    (r.2.2.through buf.part).isFree r.2.1.track r.2.1.sector = false ∧
    r.2.2.linkBytes buf.part (buf.track, buf.sector) = (r.2.1.track, r.2.1.sector)
  failure : r.1 = 1 → r.2.2.error.code ≠ ERROR_OK ∧ r.2.1.freed = true ∧
    r.2.2.linkBytes buf.part (buf.track, buf.sector) = (0, buf.lastused % 256)

variable {buf : FileBuffer}

/-- The message after an access. -/
def Io.error (io : Io) (error : DosError) : DosError :=
  match io with
  | .ok | .short _ => error
  | .failed error _ => error

/-- The image files once the buffer has been stored with the link `t`/`q`. -/
def stored (s : State) (buf : FileBuffer) (t q : ℕ) : State :=
  (imageWrite s buf.part (s.offset buf.part buf.track buf.sector) 256 (buf.setLink t q).data).2

end NoDiskEmu.Dxx
