import Mathlib.Data.Fintype.Basic
import NoDiskEmu.Buffers.Talk

/-! The handshake of `ieee.c`: `ieee488_TalkLoop` of one device and `ieee488_RxByte` of any number of others. Each
access to the bus is a step of its own, and the devices take their steps in any order. ATN and IFC stay high. -/

namespace NoDiskEmu.Bus.Handshake

/-- The next access to the bus in `ieee488_RxByte`, or the work of its caller with a byte. -/
inductive RxAt
  | nrfdHigh
  | ndacLow
  | waitDav
  | nrfdLow
  | readEoi
  | readData
  | checkDav
  | ndacHigh
  | waitDavHigh
  | ndacEnd
  | work
  deriving DecidableEq

/-- A device in `ieee488_ListenLoop` or `ieee488_IgnoreBytes`, with the levels at which it leaves NRFD and NDAC.
`got` has what the calls of `ieee488_RxByte` returned. -/
structure Listener where
  pc : RxAt
  nrfd : Bool
  ndac : Bool
  eoi : Bool
  c : UInt8
  got : List (UInt8 × Bool)

/-- A step of `ieee488_RxByte`, for the levels of DAV and EOI and the data on the bus. -/
def Listener.step (l : Listener) (dav eoi : Bool) (data : UInt8) : Listener :=
  match l.pc with
  | .nrfdHigh => { l with nrfd := true, pc := .ndacLow }
  | .ndacLow => { l with ndac := false, pc := .waitDav }
  | .waitDav => if dav then l else { l with pc := .nrfdLow }
  | .nrfdLow => { l with nrfd := false, pc := .readEoi }
  | .readEoi => { l with eoi := l.eoi || !eoi, pc := .readData }
  | .readData => { l with c := data, pc := .checkDav }
  -- DAV that is high again was a glitch
  | .checkDav => { l with pc := if dav then .nrfdHigh else .ndacHigh }
  | .ndacHigh => { l with ndac := true, pc := .waitDavHigh }
  | .waitDavHigh => if dav then { l with pc := .ndacEnd } else l
  | .ndacEnd => { l with ndac := false, got := l.got ++ [(l.c, l.eoi)], pc := .work }
  | .work => { l with eoi := false, pc := .nrfdHigh }

/-- The next access to the bus in `ieee488_TalkLoop`. -/
inductive TxAt
  | davHigh
  | eoiHigh
  | waitNdac
  | waitNrfd
  | checkReady
  | putEoi
  | putData
  | checkData
  | davLow
  | testNrfd
  | testNdac
  | dropDav
  | dropEoi
  | waitAccept
  | next
  | endDav
  | endEoi
  | gaveUp
  | left
  deriving DecidableEq

/-- A device in `ieee488_TalkLoop`, with the levels of DAV and EOI and the data that it puts on the bus. `sent` is
the number of the bytes that it has seen to be accepted. -/
structure Talker (σ : Type) where
  pc : TxAt
  dav : Bool
  eoi : Bool
  data : UInt8
  buf : σ
  sent : ℕ

variable {ι σ : Type}

/-- A step of `ieee488_TalkLoop`, for the levels of NDAC and NRFD. -/
def Talker.step (ch : Channel σ) (t : Talker σ) (ndac nrfd : Bool) : Talker σ :=
  match t.pc with
  | .davHigh => { t with dav := true, pc := .eoiHigh }
  | .eoiHigh => { t with eoi := true, pc := .waitNdac }
  | .waitNdac => if ndac then t else { t with pc := .waitNrfd }
  | .waitNrfd => if nrfd then { t with pc := .checkReady } else t
  -- T3, where `ieee488_BusIdle` releases the lines
  | .checkReady => if ndac then { t with dav := true, eoi := true, pc := .gaveUp } else { t with pc := .putEoi }
  | .putEoi => { t with eoi := !(ch.cursor t.buf).out.2, pc := .putData }
  | .putData => { t with data := (ch.cursor t.buf).out.1, pc := .checkData }
  -- T4
  | .checkData => { t with pc := if ndac then .gaveUp else .davLow }
  | .davLow => { t with dav := false, pc := .testNrfd }
  | .testNrfd => { t with pc := if nrfd then .testNdac else .waitAccept }
  | .testNdac => { t with pc := if ndac then .dropDav else .testNrfd }
  -- T5
  | .dropDav => { t with dav := true, pc := .dropEoi }
  | .dropEoi => { t with eoi := true, pc := .gaveUp }
  | .waitAccept => if ndac then { t with pc := .next } else t
  | .next =>
    match ch.afterByte t.buf with
    -- DAV stays low while the buffer is filled, and also when it cannot be read any more
    | .more s => { t with sent := t.sent + 1, buf := s, pc := if (ch.cursor s).read then .davHigh else .left }
    | .stop s => { t with sent := t.sent + 1, buf := s, pc := .endDav }
    | .null => { t with sent := t.sent + 1, pc := .left }
  | .endDav => { t with dav := true, pc := .endEoi }
  | .endEoi => { t with eoi := true, pc := .left }
  | .gaveUp | .left => t

theorem Talker.step_next {ch : Channel σ} {t : Talker σ} {ndac nrfd : Bool} (h : t.pc = .next) :
    t.step ch ndac nrfd = match ch.afterByte t.buf with
      | .more s => { t with sent := t.sent + 1, buf := s, pc := if (ch.cursor s).read then .davHigh else .left }
      | .stop s => { t with sent := t.sent + 1, buf := s, pc := .endDav }
      | .null => { t with sent := t.sent + 1, pc := .left } := by
  rw [Talker.step, h]

/-- A talker and its listeners. -/
structure Devices (ι σ : Type) where
  tx : Talker σ
  rx : ι → Listener

namespace Devices

variable [Fintype ι]

/-- NDAC is high when no listener pulls it low. -/
def ndac (w : Devices ι σ) : Bool := decide (∀ i, (w.rx i).ndac = true)

def nrfd (w : Devices ι σ) : Bool := decide (∀ i, (w.rx i).nrfd = true)

variable [DecidableEq ι]

/-- A step of the talker, or of a listener. -/
def step (ch : Channel σ) (w : Devices ι σ) : Option ι → Devices ι σ
  | none => { w with tx := w.tx.step ch w.ndac w.nrfd }
  | some i => { w with rx := Function.update w.rx i ((w.rx i).step w.tx.dav w.tx.eoi w.tx.data) }

/-- The devices after the steps of a schedule. -/
def run (ch : Channel σ) (w : Devices ι σ) (schedule : List (Option ι)) : Devices ι σ := schedule.foldl (step ch) w

end Devices

/-- The talker enters its loop. -/
def Talker.start (ch : Channel σ) (s : σ) : Talker σ :=
  ⟨if (ch.cursor s).read then .davHigh else .left, true, true, 0, s, 0⟩

/-- A listener that has called `ieee488_RxByte` for the first time; NDAC may be high from the command before. -/
structure Listener.Starts (l : Listener) : Prop where
  pc : l.pc = .nrfdHigh
  nrfd : l.nrfd = false
  eoi : l.eoi = false
  got : l.got = []

end NoDiskEmu.Bus.Handshake
