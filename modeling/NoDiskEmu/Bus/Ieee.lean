import NoDiskEmu.Bus.Coherence
import NoDiskEmu.Bus.Iec

/-! The command handler of `handle_ieee488`.  One step is one command byte with the bytes that are
transferred for it.  No step frees unused buffers or commits the BAM. -/

namespace NoDiskEmu.Bus

open Library Dxx DosCall

def IEEE_LISTEN : ℕ := 0x20
def IEEE_UNLISTEN : ℕ := 0x3f
def IEEE_TALK : ℕ := 0x40
def IEEE_UNTALK : ℕ := 0x5f
def IEEE_SECONDARY : ℕ := 0x60
def IEEE_CLOSE : ℕ := 0xe0
def IEEE_OPEN : ℕ := 0xf0

/-- The variables of `ieee.c`.  `idle` holds when the last byte completed a transaction. -/
structure Ieee where
  drive : Drive
  listenActive : Bool
  talkingDevice : Bool
  openActive : Bool
  openSa : ℕ
  commandReceived : Bool
  idle : Bool

/-- A command byte, the calls of the file-system code that it causes, and whether its channel is open
for writing. -/
structure IeeeInput where
  cmd : ℕ
  work : List DosCall
  cleanup : Cleanup
  write : Bool

namespace Ieee

/-- `ieee488_ListenLoop`; `isOpen` stands for `LL_OPEN`. -/
def listenLoop (b : Ieee) (isOpen : Bool) (sa : ℕ) (input : IeeeInput) : Ieee :=
  if ((b.drive.table.findBuffer sa).isNone || !input.write) && !isOpen then b
  else
    let b := if sa = 15 then { b with commandReceived := true } else b
    -- commands and file names go to the command buffer
    if isOpen || b.commandReceived then b
    else { b with drive := runAll b.drive input.work }

/-- `ieee488_TalkLoop`. -/
def talkLoop (b : Ieee) (sa : ℕ) (input : IeeeInput) : Ieee :=
  if (b.drive.table.findBuffer sa).isNone then b
  else { b with drive := runAll b.drive input.work }

/-- `ieee488_Unlisten`: a received command or file name is processed. -/
def unlisten (b : Ieee) (input : IeeeInput) : Ieee :=
  { b with
    drive := if b.commandReceived || b.openActive then runAll b.drive input.work else b.drive
    listenActive := false
    commandReceived := false
    openActive := false
    idle := true }

/-- `ieee488_Untalk`. -/
def untalk (b : Ieee) : Ieee := { b with talkingDevice := false, idle := true }

/-- The CLOSE command. -/
def close (b : Ieee) (sa : ℕ) (input : IeeeInput) : Ieee :=
  if sa = 15 then
    { b with
      drive := (freeMultipleBuffers FMB_USER_CLEAN input.cleanup b.drive).2
      talkingDevice := false }
  else { b with drive := (closeChannel input.cleanup sa b.drive).2 }

/-- A round of the loop in `handle_ieee488`. -/
def step (deviceAddress : ℕ) (b : Ieee) (input : IeeeInput) : Unit × Ieee :=
  let cmd := input.cmd
  let sa := cmd % 16
  let forMe := cmd % 32 = deviceAddress
  ((), if cmd = IEEE_UNLISTEN then b.unlisten input
  else if cmd = IEEE_UNTALK then b.untalk
  else
    let b := { b with idle := false }
    if cmd &&& 0xe0 = IEEE_LISTEN then
      if forMe then { b with listenActive := true, talkingDevice := false } else b
    else if cmd &&& 0xe0 = IEEE_TALK then
      if forMe then { b with talkingDevice := true, listenActive := false } else b
    else if cmd &&& 0xf0 = IEEE_SECONDARY then
      if b.listenActive then b.listenLoop false sa input
      else if b.talkingDevice then b.talkLoop sa input
      else b
    else if cmd &&& 0xf0 = IEEE_CLOSE then if b.listenActive then b.close sa input else b
    else if cmd &&& 0xf0 = IEEE_OPEN then
      if b.listenActive then { b with openActive := true, openSa := sa }.listenLoop true sa input
      else b
    else b)

end Ieee

namespace Ieee

variable {b : Ieee} {P : Drive → Prop}

end Ieee

/-! ### Work that leaves nothing behind -/

/-- A change of the BAM waits for a commit, after a call that found one waiting or not. -/
def pending (p : Bool) : DosCall → Bool
  | .bamCommit | .fatopsInit _ _ => false
  | c => p || c.changesBam

/-- What holds between two calls, if `p` says whether a change of the BAM waits for a commit. -/
structure Between (p : Bool) (v : Drive) : Prop where
  ready : Ready v
  sticky : Entries Sticky v.table
  clean : p = false → Orderly 0 v

variable {v : Drive} {p : Bool}

namespace Ieee

variable {b : Ieee} {input : IeeeInput}

end Ieee

/-! ### Both buses -/

/-- The main loop of the serial bus when it starts. -/
def Iec.start (v : Drive) : Iec := ⟨v, .idle, .idle, false, 0, 0⟩

/-- The IEEE-488 bus after `ieee488_Init`. -/
def Ieee.start (v : Drive) : Ieee := ⟨v, false, false, false, 0, false, true⟩

end NoDiskEmu.Bus
