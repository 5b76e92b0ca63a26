import NoDiskEmu.Buffers.Channels

/-! The loops of `ieee.c` and `iec.c` that move bytes between the bus and a buffer. -/

namespace NoDiskEmu

/-- The fields of a buffer that the loops work with. -/
structure Cursor where
  data : ℕ → UInt8
  position : ℕ
  lastused : ℕ
  recordlen : ℕ
  mustflush : Bool
  read : Bool
  write : Bool
  sendeoi : Bool

/-- A byte from the bus goes to the position, which is a byte itself. -/
def Cursor.put (c : Cursor) (x : UInt8) : Cursor :=
  let position := (c.position + 1) % 256
  { c with
    data := Function.update c.data c.position x
    lastused := if c.lastused < c.position then c.position else c.lastused
    position
    mustflush := c.mustflush || decide (position = 0) }

/-- A byte that is sent, with its EOI. -/
def Cursor.out (c : Cursor) : UInt8 × Bool :=
  (c.data c.position, decide (c.position = c.lastused) && c.sendeoi)

/-- The post-increment of the condition of the inner talk loop. -/
def Cursor.sent (c : Cursor) : Cursor := { c with position := (c.position + 1) % 256 }

/-- What the loops use of a channel: `σ` is the state of the drive together with the pointer `buf` of
the loop. -/
structure Channel (σ : Type) where
  cursor : σ → Cursor
  store : σ → Cursor → σ
  markDirty : σ → σ
  /-- `buf->refill(buf)`, with its result. -/
  refill : σ → Bool × σ
  /-- `buf = find_buffer(sa)`. -/
  find : σ → Option σ
  /-- The secondary address is 15. -/
  command : Bool
  /-- `buf->refill == directbuffer_refill`. -/
  direct : σ → Bool

/-- How a round of a loop ends; `null` stands for the use of a pointer that is NULL. -/
inductive Outcome (σ : Type)
  | more (s : σ)
  | stop (s : σ)
  | null

namespace Channel

variable {σ : Type} (ch : Channel σ)

/-- The refill of both loops, after which the buffer is looked up again. -/
def refillFind (s : σ) : Outcome σ :=
  let r := ch.refill s
  if r.1 then .stop r.2
  else match ch.find r.2 with
    | some s => .more s
    | none => .null

/-- A byte goes into the buffer; a record is written at the end of the transfer. -/
def storeByte (s : σ) (x : UInt8) (eoi : Bool) : Outcome σ :=
  let s := ch.markDirty (ch.store s ((ch.cursor s).put x))
  if (ch.cursor s).recordlen ≠ 0 ∧ eoi then
    let r := ch.refill s
    if r.1 then .stop r.2 else .more r.2
  else .more s

/-- A round of `ieee488_ListenLoop` and `iec_listen_handler` for a byte of data. -/
def listenByte (s : σ) (x : UInt8) (eoi : Bool) : Outcome σ :=
  if (ch.cursor s).mustflush then
    match ch.refillFind s with
    | .more s => ch.storeByte s x eoi
    | r => r
  else ch.storeByte s x eoi

/-- The bytes of one LISTEN, each with its EOI. -/
def listenBytes : σ → List (UInt8 × Bool) → Outcome σ
  | s, [] => .more s
  | s, (x, eoi) :: xs =>
    match ch.listenByte s x eoi with
    | .more s => listenBytes s xs
    | r => r

/-- `ieee488_ListenLoop` and `iec_listen_handler`. -/
def listenLoop (s : σ) (xs : List (UInt8 × Bool)) : Outcome σ :=
  match ch.find s with
  | none => .stop s
  | some s => if (ch.cursor s).write then ch.listenBytes s xs else .stop s

/-- What follows a byte that was sent in `ieee488_TalkLoop` and `iec_talk_handler`. -/
def afterByte (s : σ) : Outcome σ :=
  let c := ch.cursor s
  let s := ch.store s c.sent
  if c.position < c.lastused then .more s
  else if c.sendeoi ∧ ¬ch.command ∧ c.recordlen = 0 ∧ ¬ch.direct s then
    .stop (ch.store s { ch.cursor s with read := false })
  else ch.refillFind s

/-- `n` bytes of one TALK: the loop ends when the computer has taken them or when there are no
more. -/
def talkBytes : σ → ℕ → List (UInt8 × Bool) × Outcome σ
  | s, 0 => ([], .more s)
  | s, n + 1 =>
    if (ch.cursor s).read then
      let rest := match ch.afterByte s with
        | .more s => talkBytes s n
        | r => ([], r)
      ((ch.cursor s).out :: rest.1, rest.2)
    else ([], .stop s)

/-- `ieee488_TalkLoop` and `iec_talk_handler`. -/
def talkLoop (s : σ) (n : ℕ) : List (UInt8 × Bool) × Outcome σ :=
  match ch.find s with
  | none => ([], .stop s)
  | some s => ch.talkBytes s n

end Channel

end NoDiskEmu
