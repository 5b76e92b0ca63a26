import NoDiskEmu.Bus.Dos

/-! The state machine of `iec_mainloop`.  One step is one round of its loop.  What the round sees on
the bus lines and receives, and the calls that the file-system code makes in it, are its input. -/

namespace NoDiskEmu.Bus

open Library Dxx

inductive BusState
  | idle | atnActive | foundAtn | forMe | notForMe | atnFinish | atnProcess | cleanup | sleep
  deriving DecidableEq

inductive DeviceState
  | idle | listen | talk
  deriving DecidableEq

/-- How the listen and talk handlers end: ATN was seen, `refill` failed, or there is nothing more to
transfer. -/
inductive Transfer
  | attention | refillFailed | finished
  deriving DecidableEq

/-- `iec_data` as far as the main loop uses it, the local `cmd`, and the drive. -/
structure Iec where
  drive : Drive
  busState : BusState
  deviceState : DeviceState
  commandRecvd : Bool
  secondaryAddress : ℕ
  cmd : ℕ

/-- What a round of the loop meets. -/
structure IecInput where
  /-- `IEC_ATN` is high. -/
  atn : Bool
  /-- The byte of `iec_getc`, or none if `iec_check_atn` interrupted it. -/
  byte : Option ℕ
  /-- The sleep button. -/
  sleep : Bool
  /-- How a listen or talk handler ends. -/
  transfer : Transfer
  /-- The byte with EOI of a command or file name was among those received. -/
  commandRecvd : Bool
  /-- The channel of a listen or talk request is open for writing. -/
  write : Bool
  /-- The calls of the handlers, of `parse_doscommand` or of `file_open`. -/
  work : List DosCall
  cleanup : Cleanup

namespace Iec

/-- CLOSE: the buffer of the secondary address is closed, or all buffers for address 15. -/
def close (b : Iec) (input : IecInput) : Iec :=
  let c := if b.cmd = 0xef then freeMultipleBuffers FMB_USER_CLEAN input.cleanup b.drive
    else closeChannel input.cleanup b.secondaryAddress b.drive
  { b with drive := c.2, busState := if c.1 then .cleanup else .forMe }

/-- The answer to a command byte under ATN. -/
def command (b : Iec) (deviceAddress cmd : ℕ) (input : IecInput) : Iec :=
  if cmd = 0x3f then
    { b with
      deviceState := if b.deviceState = .listen then .idle else b.deviceState
      busState := .atnFinish }
  else if cmd = 0x5f then
    { b with
      deviceState := if b.deviceState = .talk then .idle else b.deviceState
      busState := .atnFinish }
  else if cmd = 0x40 + deviceAddress then { b with deviceState := .talk, busState := .forMe }
  else if cmd = 0x20 + deviceAddress then { b with deviceState := .listen, busState := .forMe }
  else if cmd &&& 0x60 = 0x60 then
    -- JiffyDOS asks for the LOAD protocol with 0x61
    let cmd := if cmd = 0x61 ∧ b.deviceState = .talk then 0x60 else cmd
    let b := { b with cmd, secondaryAddress := cmd % 16 }
    if cmd &&& 0xf0 = 0xe0 then b.close input else { b with busState := .atnFinish }
  else { b with busState := .notForMe }

/-- `iec_listen_handler`: the bus state afterwards. -/
def listenHandler (b : Iec) (input : IecInput) : Iec :=
  if ((b.drive.table.findBuffer (b.cmd % 16)).isNone || !input.write) &&
      (b.cmd &&& 0xf0) ≠ 0xf0 then
    { b with busState := .cleanup }
  else
    { b with
      drive := DosCall.runAll b.drive input.work
      commandRecvd := b.commandRecvd || input.commandRecvd
      busState := match input.transfer with
        | .refillFailed => .atnProcess
        | .attention | .finished => .foundAtn }

/-- `iec_talk_handler`, and the end of the round when it returns 0. -/
def talkHandler (b : Iec) (input : IecInput) : Iec :=
  if (b.drive.table.findBuffer (b.cmd % 16)).isNone then { b with busState := .cleanup }
  else
    { b with
      drive := DosCall.runAll b.drive input.work
      busState := match input.transfer with
        | .attention => .foundAtn
        | .refillFailed | .finished => .cleanup }

/-- `BUS_CLEANUP`: the received command or file name is processed, then unused buffers are freed and
the BAM is committed. -/
def cleanUp (b : Iec) (input : IecInput) : Iec :=
  let v := if b.commandRecvd then DosCall.runAll b.drive input.work else b.drive
  { b with drive := garbageCollect v, commandRecvd := false, busState := .idle }

/-- A round of the loop in `iec_mainloop`. -/
def step (deviceAddress : ℕ) (b : Iec) (input : IecInput) : Unit × Iec :=
  ((), match b.busState with
  | .sleep => { b with busState := if input.sleep then .sleep else .idle }
  | .idle => { b with busState := if input.sleep then .sleep else .foundAtn }
  | .foundAtn =>
    { b with
      deviceState := .idle
      busState := if input.atn then .atnProcess else .atnActive }
  | .atnActive =>
    match input.byte with
    | none => { b with cmd := 255, busState := .atnProcess }
    | some cmd => { b with cmd }.command deviceAddress cmd input
  | .forMe => { b with busState := if input.atn then .atnProcess else .atnActive }
  | .notForMe => { b with busState := .atnFinish }
  | .atnFinish => { b with busState := .atnProcess }
  | .atnProcess =>
    match b.deviceState with
    | .listen => b.listenHandler input
    | .talk => b.talkHandler input
    | .idle => { b with busState := .cleanup }
  | .cleanup => b.cleanUp input)

variable {b : Iec} {P : Drive → Prop}

/-! ### What the calls keep -/

end Iec

end NoDiskEmu.Bus
