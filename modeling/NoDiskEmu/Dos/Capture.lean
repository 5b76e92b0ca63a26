import NoDiskEmu.Buffers.Channels
import NoDiskEmu.Library.Memory
import NoDiskEmu.Library.Run

/-! `M-W`: the code that a host uploads is recognised by its CRC, and a part of it is captured in a
buffer. -/

namespace NoDiskEmu.Dos

open Library.Run

def BUFFER_SYS_CAPTURE1 : ℕ := BUFFER_SEC_SYSTEM + 2

/-- `fastloaderid_t` without `FL_NONE`. -/
inductive FastloaderId
  | dreamload | dreamloadOld | turbodisk | fc3Load | fc3Save | fc3Freezed | uload3 | giJoe | epyxcart
  | geosS1_64 | geosS1_128 | geosS23_1541 | geosS23_1571 | geosS23_1581
  | wheelsS1_64 | wheelsS1_128 | wheelsS2 | wheels44S2 | wheels44S2_1581
  | nippon | ar6_1581Load | ar6_1581Save | eload1 | fc3Oldfreezed | mmzak | n0sdosFileread | samsjourney
deriving DecidableEq

/-- What the code is compiled for: the `CONFIG_LOADER` options, and whether `int` has 16 bits. -/
structure Build where
  turbodisk : Bool
  fc3 : Bool
  dreamload : Bool
  uload3 : Bool
  eload1 : Bool
  epyxcart : Bool
  geos : Bool
  wheels : Bool
  nippon : Bool
  ar6 : Bool
  mmzak : Bool
  gijoe : Bool
  n0sdos : Bool
  samsjourney : Bool
  int16 : Bool

/-- The rows of `fl_crc_table` with the options that they are compiled for. -/
def loaderRows (b : Build) : List (Bool × List (UInt16 × FastloaderId)) :=
  [(b.turbodisk, [(0x9c9f, .turbodisk)]),
    (b.fc3, [(0xdab0, .fc3Load), (0x973b, .fc3Load), (0x7e38, .fc3Load), (0x1b30, .fc3Save),
      (0x8b0e, .fc3Save), (0x9930, .fc3Freezed), (0x0281, .fc3Oldfreezed), (0xc196, .fc3Oldfreezed)]),
    (b.dreamload, [(0x2e69, .dreamload)]),
    (b.uload3, [(0xdd81, .uload3)]),
    (b.eload1, [(0x393e, .eload1)]),
    (b.epyxcart, [(0x5a01, .epyxcart)]),
    (b.geos, [(0xb979, .geosS1_64), (0x2469, .geosS1_128), (0x4d79, .geosS23_1541),
      (0xb2bc, .geosS23_1541), (0xb272, .geosS23_1541), (0xdaed, .geosS23_1571),
      (0x3f8d, .geosS23_1581), (0xc947, .geosS23_1581)]),
    (b.geos && b.wheels, [(0xf140, .wheelsS1_64), (0x737e, .wheelsS1_128), (0x755a, .wheelsS2),
      (0x2920, .wheelsS2), (0x18e9, .wheelsS2), (0x9804, .wheelsS2), (0x48f5, .wheelsS2),
      (0x1356, .wheelsS2), (0xe885, .wheelsS2), (0x4eca, .wheelsS2), (0xdbf6, .wheelsS2),
      (0xe4ab, .wheelsS2), (0x6de5, .wheelsS2), (0x30ff, .wheelsS2), (0x46e7, .wheelsS2),
      (0x2253, .wheelsS2), (0xc26a, .wheels44S2), (0x550c, .wheels44S2),
      (0x825b, .wheels44S2_1581), (0x245b, .wheels44S2_1581), (0x7021, .wheels44S2_1581),
      (0xd537, .wheels44S2_1581), (0xf635, .wheels44S2_1581)]),
    (b.nippon, [(0x43c1, .nippon)]),
    (b.ar6, [(0x4870, .ar6_1581Load), (0x2925, .ar6_1581Save)]),
    (b.mmzak, [(0x12a6, .mmzak)]),
    (b.gijoe, [(0x0c92, .giJoe)]),
    (b.n0sdos, [(0x327d, .n0sdosFileread)]),
    (b.samsjourney, [(0x6af4, .samsjourney)])]

/-- `fl_crc_table`. -/
def flCrcTable (b : Build) : List (UInt16 × FastloaderId) :=
  (loaderRows b).flatMap fun rows => if rows.1 then rows.2 else []

/-- `struct fastloader_capture_s`. -/
structure FastloaderCapture where
  loadertype : FastloaderId
  startaddr : ℕ
  length : ℕ
  bufferId : ℕ
deriving DecidableEq

/-- `fl_capture_table`. -/
def flCaptureTable (b : Build) : List FastloaderCapture :=
  if b.geos then [⟨.geosS1_64, 0x42a, 255, BUFFER_SYS_CAPTURE1⟩,
    ⟨.geosS1_128, 0x44f, 255, BUFFER_SYS_CAPTURE1⟩]
  else []

/-- `command_buffer`, with what is left in it of earlier commands, and `original_length`. -/
structure Command where
  buffer : ℕ → UInt8
  received : ℕ

namespace Command

/-- `command_length`, without the CR at the end. -/
def commandLength (c : Command) : ℕ :=
  if 0 < c.received ∧ c.buffer (c.received - 1) = 13 then c.received - 1 else c.received

def address (c : Command) : ℕ := (c.buffer 3).toNat + 256 * (c.buffer 4).toNat

def length (c : Command) : ℕ := (c.buffer 5).toNat

end Command

/-- The variables that the M-W command works on. -/
structure Upload where
  channels : Channels
  datacrc : UInt16
  detectedLoader : Option FastloaderId
  previousLoader : Option FastloaderId
  deviceAddress : UInt8
  captureAddress : ℕ
  captureRemain : ℕ
  captureOffset : ℕ
  captureBuffer : Option ℕ

/-- A `memcpy` of `capture_fl_data`: from byte `source` of the command buffer to byte `offset` of the
buffer that `capture_buffer` points to, if it is not NULL, with `capture_remain` in front of it. -/
structure Copy where
  target : Option Buffer
  offset : ℕ
  source : ℕ
  bytes : ℕ
  remain : ℕ
  received : ℕ

/-- What is copied was received, and it goes into an allocated capture buffer. -/
structure Copy.Ok (c : Copy) : Prop where
  target : ∃ buf, c.target = some buf ∧ buf.allocated = true ∧ buf.secondary = BUFFER_SYS_CAPTURE1
  writes : ∀ k < c.bytes, c.offset + k < 256
  reads : ∀ k < c.bytes, c.source + k < c.received
  remain : c.bytes ≤ c.remain

/-- One bit of `crc16_update`. -/
def crc16Shift (crc : UInt16) : UInt16 := if crc &&& 1 = 1 then (crc >>> 1) ^^^ 0xa001 else crc >>> 1

/-- `crc16_update`. -/
def crc16Update (crc : UInt16) (data : UInt8) : UInt16 :=
  (List.range 8).foldl (fun c _ => crc16Shift c) (crc ^^^ data.toUInt16)

/-- The CRC with the first `n` bytes of the payload. -/
def crcOver (crc : UInt16) (c : Command) : ℕ → UInt16
  | 0 => crc
  | n + 1 => crc16Update (crcOver crc c n) (c.buffer (n + 6))

/-- `detected_loader` after the first `n` bytes of the payload. -/
def detectGijoe (b : Build) (s : Upload) (c : Command) : ℕ → Option FastloaderId
  | 0 => s.detectedLoader
  | n + 1 =>
    if b.gijoe ∧ crcOver s.datacrc c (n + 1) = 0x38a2 ∧ c.buffer (n + 6) = 0x60 then some .giJoe
    else detectGijoe b s c n

/-- The loader that is uploaded, as the CRC up to the end of the payload has it. -/
def loader (b : Build) (crc : UInt16) (c : Command) : Option FastloaderId :=
  ((flCrcTable b).find? fun row => crcOver crc c c.length = row.1).map Prod.snd

/-- The capture that starts with a loader. -/
def captureEntry (b : Build) (crc : UInt16) (c : Command) : Option FastloaderCapture :=
  (loader b crc c).bind fun l => (flCaptureTable b).find? fun e => e.loadertype = l

/-- The bytes of a copy stay below a bound. -/
theorem forall_add_lt_iff {a n m : ℕ} : (∀ k < n, a + k < m) ↔ n = 0 ∨ a + n ≤ m := by
  constructor
  · intro h
    by_cases hn : n = 0
    · exact .inl hn
    · have hlast := h (n - 1) (by omega)
      omega
  · intro h k hk
    omega

namespace Upload

/-- `min(capture_remain, length - dataofs)`, as a byte. The two types have a common one with a sign
only if `int` is wider than `uint16_t`. -/
def captureBytes (int16 : Bool) (remain length dataofs : ℕ) : ℕ :=
  if int16 then min remain ((length + 65536 - dataofs) % 65536) % 256
  else (min (remain : ℤ) (length - dataofs) % 256).toNat

/-- `dataofs`. -/
def dataofs (captureAddress address : ℕ) : ℕ := (captureAddress + 65536 - address) % 256

/-- `capture_fl_data`. -/
def captureFlData (b : Build) (s : Upload) (c : Command) (address length : ℕ) : Copy × Upload :=
  let dataofs := dataofs s.captureAddress address
  let bytes := captureBytes b.int16 s.captureRemain length dataofs
  let remain := (s.captureRemain + 65536 - bytes) % 65536
  let table := s.channels.table
  let written := match s.captureBuffer with
    | none => table
    | some i => table.set i { table.buffers i with
        data := Library.Memory.write (table.buffers i).data s.captureOffset bytes
          fun k => c.buffer (6 + dataofs + k) }
  (⟨s.captureBuffer.map table.buffers, s.captureOffset, 6 + dataofs, bytes, s.captureRemain, c.received⟩,
    { s with
      channels := { s.channels with table := written }
      captureOffset := (s.captureOffset + bytes) % 256
      captureAddress := (s.captureAddress + bytes) % 65536
      captureRemain := remain
      captureBuffer := if remain = 0 then none else s.captureBuffer })

/-- The CRC of the payload and the loader that it shows. -/
def recognise (b : Build) (s : Upload) (c : Command) : Upload :=
  { s with
    previousLoader := none
    datacrc := crcOver s.datacrc c c.length
    detectedLoader := (loader b s.datacrc c).or (detectGijoe b s c c.length) }

/-- The variables for a capture that starts, and its buffer, if there is one. -/
def startCapture (s : Upload) (e : FastloaderCapture) : Upload :=
  let s := { s with captureAddress := e.startaddr, captureRemain := e.length + 1, captureOffset := 0 }
  match s.channels.allocSystemBuffer with
  | (none, channels) => { s with channels, captureBuffer := none }
  | (some i, channels) =>
    { s with
      channels := { channels with table := channels.table.stickBuffer i }.setSecondary i e.bufferId
      captureBuffer := some i }

/-- The part of a capture that goes on. -/
def continueCapture (b : Build) (s : Upload) (c : Command) : List Copy × Upload :=
  match s.captureBuffer with
  | none => ([], s)
  | some _ =>
    let r := captureFlData b s c c.address c.length
    ([r.1], r.2)

/-- The part of a capture that starts with this command. -/
def beginCapture (b : Build) (s : Upload) (c : Command) : Option FastloaderCapture → List Copy × Upload
  | none => ([], s)
  | some e =>
    if s.captureBuffer = none then
      let r := captureFlData b (startCapture s e) c c.address c.length
      ([r.1], r.2)
    else ([], s)

/-- `handle_memwrite`. -/
def handleMemwrite (b : Build) (s : Upload) (c : Command) : List Copy × Upload :=
  if c.commandLength < 6 then ([], s)
  else if c.address = 119 then ([], { s with deviceAddress := c.buffer 6 &&& 0x1f })
  else if c.address = 0x1c06 ∨ c.address = 0x1c07 ∨ c.address = 0x1802 then ([], s)
  else
    let r := continueCapture b (recognise b s c) c
    let r' := beginCapture b r.2 c (captureEntry b s.datacrc c)
    (r.1 ++ r'.1, r'.2)

/-- The bytes that a block has for the rest of a capture were received, and do not go beyond it. -/
def Covered (int16 : Bool) (captureAddress remain : ℕ) (c : Command) : Prop :=
  let ofs := dataofs captureAddress c.address
  (ofs < c.length → 6 + ofs + min remain (c.length - ofs) ≤ c.received) ∧
    (c.length < ofs → if int16 then remain = 256 ∨ 6 + ofs + remain ≤ c.received
      else 256 + c.length - ofs ≤ remain ∧ 262 + c.length ≤ c.received)

/-- The block has the rest of the capture. -/
def Ends (int16 : Bool) (captureAddress remain : ℕ) (c : Command) : Prop :=
  let ofs := dataofs captureAddress c.address
  if ofs ≤ c.length then remain ≤ c.length - ofs
  else if int16 then remain < 256 else remain = 256 + c.length - ofs

/-- The command is one of those that upload code. -/
def Uploads (c : Command) : Prop :=
  6 ≤ c.commandLength ∧ c.address ≠ 119 ∧
    ¬(c.address = 0x1c06 ∨ c.address = 0x1c07 ∨ c.address = 0x1802)

/-- A capture that goes on is covered, and so is one that starts, for which a buffer is free. -/
def Fits (b : Build) (s : Upload) (c : Command) : Prop :=
  Uploads c →
    (s.captureBuffer ≠ none → Covered b.int16 s.captureAddress s.captureRemain c) ∧
      ∀ e ∈ captureEntry b s.datacrc c,
        (s.captureBuffer ≠ none → Ends b.int16 s.captureAddress s.captureRemain c) →
          (∃ i < s.channels.count, (s.channels.table.buffers i).allocated = false) ∧
            Covered b.int16 e.startaddr (e.length + 1) c

/-- A capture that goes on: its buffer is allocated, and has room for what remains. -/
structure Capturing (s : Upload) (i : ℕ) : Prop where
  allocated : (s.channels.table.buffers i).allocated = true
  secondary : (s.channels.table.buffers i).secondary = BUFFER_SYS_CAPTURE1
  room : s.captureOffset + s.captureRemain = 256
  pos : 0 < s.captureRemain

def Intact (s : Upload) : Prop := ∀ i ∈ s.captureBuffer, s.Capturing i

theorem dataofs_lt (captureAddress address : ℕ) : dataofs captureAddress address < 256 :=
  Nat.mod_lt _ (by decide)

theorem captureBytes_of_le {int16 : Bool} {remain length ofs : ℕ} (hlen : length < 256)
    (hle : ofs ≤ length) : captureBytes int16 remain length ofs = min remain (length - ofs) := by
  rw [captureBytes]
  split <;> omega

theorem captureBytes_of_lt {int16 : Bool} {remain length ofs : ℕ} (hremain : remain ≤ 256)
    (hofs : ofs < 256) (hlt : length < ofs) :
    captureBytes int16 remain length ofs = if int16 then remain % 256 else 256 + length - ofs := by
  rw [captureBytes]
  split <;> omega

/-- The bytes of a copy are in bounds exactly if the block covers the capture. -/
theorem covered_iff {int16 : Bool} {address offset remain : ℕ} {c : Command}
    (hroom : offset + remain = 256) (hpos : 0 < remain) :
    ((∀ k < captureBytes int16 remain c.length (dataofs address c.address), offset + k < 256) ∧
      (∀ k < captureBytes int16 remain c.length (dataofs address c.address),
        6 + dataofs address c.address + k < c.received) ∧
      captureBytes int16 remain c.length (dataofs address c.address) ≤ remain) ↔
      Covered int16 address remain c := by
  set ofs := dataofs address c.address with hofsdef
  set bytes := captureBytes int16 remain c.length ofs with hbytesdef
  have hofs : ofs < 256 := dataofs_lt _ _
  have hlen : c.length < 256 := (c.buffer 5).toNat_lt
  have hcovered : Covered int16 address remain c ↔
      (ofs < c.length → 6 + ofs + min remain (c.length - ofs) ≤ c.received) ∧
        (c.length < ofs → if int16 then remain = 256 ∨ 6 + ofs + remain ≤ c.received
          else 256 + c.length - ofs ≤ remain ∧ 262 + c.length ≤ c.received) := Iff.rfl
  rw [hcovered, forall_add_lt_iff, forall_add_lt_iff]
  obtain hlt | hle := Nat.lt_or_ge c.length ofs
  · have hbytes : bytes = if int16 then remain % 256 else 256 + c.length - ofs :=
      captureBytes_of_lt (by omega) hofs hlt
    cases int16 with
    | true =>
      rw [if_pos rfl] at hbytes ⊢
      omega
    | false =>
      rw [if_neg Bool.false_ne_true] at hbytes ⊢
      omega
  · have hbytes : bytes = min remain (c.length - ofs) := captureBytes_of_le hlen hle
    omega

theorem ends_iff {int16 : Bool} {address remain : ℕ} {c : Command} (hremain : remain ≤ 256)
    (hpos : 0 < remain) :
    Ends int16 address remain c ↔
      captureBytes int16 remain c.length (dataofs address c.address) = remain := by
  have hofs := dataofs_lt address c.address
  have hlen : c.length < 256 := (c.buffer 5).toNat_lt
  rw [Ends]
  split
  · next hle =>
    rw [captureBytes_of_le hlen hle]
    omega
  · next hlt =>
    rw [captureBytes_of_lt hremain hofs (by omega)]
    split <;> omega

variable {b : Build} {s : Upload} {c : Command} {e : FastloaderCapture} {crc : UInt16} {i : ℕ}

theorem captureEntry_spec (he : e ∈ captureEntry b crc c) :
    e.length = 255 ∧ e.bufferId = BUFFER_SYS_CAPTURE1 := by
  obtain ⟨l, -, hfind⟩ := Option.bind_eq_some_iff.mp he
  have hmem := List.mem_of_find?_eq_some hfind
  rw [flCaptureTable] at hmem
  split at hmem
  · obtain rfl | hmem := List.mem_cons.mp hmem
    · exact ⟨rfl, rfl⟩
    · obtain rfl := List.mem_singleton.mp hmem
      exact ⟨rfl, rfl⟩
  · exact absurd hmem List.not_mem_nil

theorem captureFlData_ok_iff (hbuf : s.captureBuffer = some i) (h : s.Capturing i) :
    (captureFlData b s c c.address c.length).1.Ok ↔
      Covered b.int16 s.captureAddress s.captureRemain c := by
  rw [← covered_iff h.room h.pos]
  constructor
  · intro hok
    exact ⟨hok.writes, hok.reads, hok.remain⟩
  · rintro ⟨hwrites, hreads, hremain⟩
    refine ⟨⟨s.channels.table.buffers i, ?_, h.allocated, h.secondary⟩, hwrites, hreads, hremain⟩
    rw [captureFlData]
    dsimp only
    rw [hbuf]
    rfl

/-- Captured data changes no buffer but in its bytes. -/
theorem captureFlData_buffers (address length j : ℕ) :
    ∃ data, (captureFlData b s c address length).2.channels.table.buffers j =
      { s.channels.table.buffers j with data } := by
  rw [captureFlData]
  dsimp only
  split
  · exact ⟨_, rfl⟩
  · next i _ =>
    by_cases hj : j = i
    · subst hj
      exact ⟨_, Table.set_self ..⟩
    · exact ⟨_, Table.set_of_ne _ _ hj⟩

theorem captureFlData_count (address length : ℕ) :
    (captureFlData b s c address length).2.channels.count = s.channels.count := by
  rw [captureFlData, Channels.count]
  dsimp only
  split <;> rfl

/-- The capture goes on until the block has the rest of it. -/
theorem captureFlData_next (hbuf : s.captureBuffer = some i) (h : s.Capturing i)
    (hcovered : Covered b.int16 s.captureAddress s.captureRemain c) :
    (captureFlData b s c c.address c.length).2.Intact ∧
      ((captureFlData b s c c.address c.length).2.captureBuffer = none ↔
        Ends b.int16 s.captureAddress s.captureRemain c) := by
  have hroom := h.room
  have hpos := h.pos
  obtain ⟨-, -, hle⟩ := (covered_iff hroom hpos).mpr hcovered
  rw [ends_iff (by omega) hpos]
  obtain ⟨data, hdata⟩ := captureFlData_buffers (b := b) (s := s) (c := c) c.address c.length i
  set bytes := captureBytes b.int16 s.captureRemain c.length (dataofs s.captureAddress c.address)
    with hbytes
  have hremain : (captureFlData b s c c.address c.length).2.captureRemain =
      (s.captureRemain + 65536 - bytes) % 65536 := rfl
  have hoffset : (captureFlData b s c c.address c.length).2.captureOffset =
      (s.captureOffset + bytes) % 256 := rfl
  have hnext : (captureFlData b s c c.address c.length).2.captureBuffer =
      if (s.captureRemain + 65536 - bytes) % 65536 = 0 then none else some i := by
    rw [← hbuf]
    rfl
  have hzero : (s.captureRemain + 65536 - bytes) % 65536 = s.captureRemain - bytes := by omega
  rw [hzero] at hnext hremain
  by_cases hend : bytes = s.captureRemain
  · rw [if_pos (by omega)] at hnext
    refine ⟨fun j hj => ?_, iff_of_true hnext hend⟩
    rw [hnext] at hj
    exact absurd hj (Option.not_mem_none j)
  · rw [if_neg (by omega)] at hnext
    refine ⟨fun j hj => ?_, iff_of_false ?_ hend⟩
    · rw [hnext] at hj
      obtain rfl := Option.mem_some.mp hj
      refine ⟨?_, ?_, ?_, ?_⟩
      · rw [hdata]
        exact h.allocated
      · rw [hdata]
        exact h.secondary
      · rw [hoffset, hremain]
        omega
      · rw [hremain]
        omega
    · rw [hnext]
      exact Option.some_ne_none i

/-- A capture starts with a whole buffer to fill. -/
theorem startCapture_some (hlength : e.length = 255) (hid : e.bufferId = BUFFER_SYS_CAPTURE1)
    (hfree : ∃ i < s.channels.count, (s.channels.table.buffers i).allocated = false) :
    ∃ i, (startCapture s e).captureBuffer = some i ∧ (startCapture s e).Capturing i ∧
      (startCapture s e).captureAddress = e.startaddr ∧
      (startCapture s e).captureRemain = e.length + 1 := by
  obtain ⟨j, hj, hjfree⟩ := hfree
  rw [startCapture]
  dsimp only
  obtain ⟨hnone, -⟩ | ⟨i, -, heq⟩ := s.channels.allocSystemBuffer_first
  · have hall := List.find?_eq_none.mp hnone j (List.mem_range.mpr hj)
    rw [hjfree] at hall
    exact absurd rfl hall
  · rw [heq]
    refine ⟨i, rfl, ⟨?_, ?_, ?_, Nat.succ_pos _⟩, rfl, rfl⟩
    · dsimp only
      rw [Channels.setSecondary_allocated, Table.stickBuffer, Table.set_self]
      exact congrArg Buffer.allocated (Table.set_self ..)
    · dsimp only
      rw [Channels.setSecondary_self, hid]
    · dsimp only
      rw [hlength]

theorem startCapture_none
    (hfull : ¬∃ i < s.channels.count, (s.channels.table.buffers i).allocated = false) :
    (startCapture s e).captureBuffer = none := by
  rw [startCapture]
  dsimp only
  obtain heq | ⟨i, hi, hfree, -⟩ := s.channels.allocSystemBuffer_cases
  · rw [heq]
  · exact absurd ⟨i, hi, hfree⟩ hfull

/-- A capture that starts is in bounds exactly if it is covered and has a buffer. -/
theorem beginCapture_spec (he : e ∈ captureEntry b crc c) (hnone : s.captureBuffer = none) :
    ((∀ copy ∈ (beginCapture b s c (some e)).1, copy.Ok) ↔
      (∃ i < s.channels.count, (s.channels.table.buffers i).allocated = false) ∧
        Covered b.int16 e.startaddr (e.length + 1) c) ∧
      ((∀ copy ∈ (beginCapture b s c (some e)).1, copy.Ok) →
        (beginCapture b s c (some e)).2.Intact) := by
  obtain ⟨hlength, hid⟩ := captureEntry_spec he
  rw [beginCapture, if_pos hnone]
  dsimp only
  rw [List.forall_mem_singleton]
  by_cases hfree : ∃ i < s.channels.count, (s.channels.table.buffers i).allocated = false
  · obtain ⟨i, hbuf, hcapturing, haddress, hremain⟩ := startCapture_some hlength hid hfree
    rw [captureFlData_ok_iff hbuf hcapturing, haddress, hremain, and_iff_right hfree]
    refine ⟨Iff.rfl, fun hcovered => ?_⟩
    rw [← haddress, ← hremain] at hcovered
    exact (captureFlData_next hbuf hcapturing hcovered).1
  · have hbuf := startCapture_none (e := e) hfree
    have hbad : ¬(captureFlData b (startCapture s e) c c.address c.length).1.Ok := by
      intro hok
      obtain ⟨buf, htarget, -⟩ := hok.target
      rw [captureFlData] at htarget
      dsimp only at htarget
      rw [hbuf] at htarget
      exact Option.some_ne_none buf htarget.symm
    exact ⟨iff_of_false hbad fun h => hfree h.1, fun hok => absurd hok hbad⟩

theorem handleMemwrite_of_not_uploads (h : ¬Uploads c) :
    ∃ deviceAddress, handleMemwrite b s c = ([], { s with deviceAddress }) := by
  rw [handleMemwrite]
  split
  · exact ⟨s.deviceAddress, rfl⟩
  · next hlen =>
    split
    · exact ⟨_, rfl⟩
    · next haddress =>
      split
      · exact ⟨s.deviceAddress, rfl⟩
      · next hignored => exact absurd ⟨by omega, haddress, hignored⟩ h

theorem handleMemwrite_of_uploads (h : Uploads c) :
    handleMemwrite b s c =
      ((continueCapture b (recognise b s c) c).1 ++
        (beginCapture b (continueCapture b (recognise b s c) c).2 c (captureEntry b s.datacrc c)).1,
        (beginCapture b (continueCapture b (recognise b s c) c).2 c (captureEntry b s.datacrc c)).2) := by
  rw [handleMemwrite, if_neg (by have := h.1; omega), if_neg h.2.1, if_neg h.2.2]

/-- Without a capture, or with one that ends here, only a capture that starts decides. -/
theorem beginCapture_iff (h : s.Intact) :
    ((∀ copy ∈ (beginCapture b s c (captureEntry b crc c)).1, copy.Ok) ↔
      ∀ e ∈ captureEntry b crc c, s.captureBuffer = none →
        (∃ i < s.channels.count, (s.channels.table.buffers i).allocated = false) ∧
          Covered b.int16 e.startaddr (e.length + 1) c) ∧
      ((∀ copy ∈ (beginCapture b s c (captureEntry b crc c)).1, copy.Ok) →
        (beginCapture b s c (captureEntry b crc c)).2.Intact) := by
  cases hentry : captureEntry b crc c with
  | none => exact ⟨iff_of_true (fun r hr => absurd hr List.not_mem_nil)
      fun e he => absurd he (Option.not_mem_none e), fun _ => h⟩
  | some e =>
    have hmem : ∀ P : FastloaderCapture → Prop, (∀ e' ∈ some e, P e') ↔ P e :=
      fun P => ⟨fun hall => hall e rfl, fun hP e' he' => Option.mem_some.mp he' ▸ hP⟩
    rw [hmem]
    by_cases hnone : s.captureBuffer = none
    · obtain ⟨hiff, hintact⟩ := beginCapture_spec (b := b) (s := s) (Option.mem_def.mpr hentry) hnone
      exact ⟨hiff.trans ⟨fun hP _ => hP, fun hP => hP hnone⟩, hintact⟩
    · rw [beginCapture, if_neg hnone]
      exact ⟨iff_of_true (fun r hr => absurd hr List.not_mem_nil) fun hb => absurd hb hnone, fun _ => h⟩

/-- A capture that goes on is in bounds exactly if it is covered, and ends with the block that has the
rest of it. -/
theorem continueCapture_spec (h : s.Intact) :
    ((∀ copy ∈ (continueCapture b s c).1, copy.Ok) ↔
      (s.captureBuffer ≠ none → Covered b.int16 s.captureAddress s.captureRemain c)) ∧
    ((s.captureBuffer ≠ none → Covered b.int16 s.captureAddress s.captureRemain c) →
      (continueCapture b s c).2.Intact ∧
      ((continueCapture b s c).2.captureBuffer = none ↔
        (s.captureBuffer ≠ none → Ends b.int16 s.captureAddress s.captureRemain c)) ∧
      (continueCapture b s c).2.channels.count = s.channels.count ∧
      ∀ j, ((continueCapture b s c).2.channels.table.buffers j).allocated =
        (s.channels.table.buffers j).allocated) := by
  cases hbuf : s.captureBuffer with
  | none =>
    have heq : continueCapture b s c = ([], s) := by rw [continueCapture, hbuf]
    rw [heq]
    exact ⟨iff_of_true (fun r hr => absurd hr List.not_mem_nil) fun hne => absurd rfl hne,
      fun _ => ⟨h, iff_of_true hbuf fun hne => absurd rfl hne, rfl, fun _ => rfl⟩⟩
  | some i =>
    have hcapturing := h i hbuf
    have heq : continueCapture b s c = ([(captureFlData b s c c.address c.length).1],
        (captureFlData b s c c.address c.length).2) := by rw [continueCapture, hbuf]
    have hsome : some i ≠ none := Option.some_ne_none i
    rw [heq, List.forall_mem_singleton, imp_iff_right hsome, imp_iff_right hsome]
    refine ⟨captureFlData_ok_iff hbuf hcapturing, fun hcovered => ?_⟩
    obtain ⟨hintact, hends⟩ := captureFlData_next hbuf hcapturing hcovered
    refine ⟨hintact, hends, captureFlData_count .., fun j => ?_⟩
    obtain ⟨data, hdata⟩ := captureFlData_buffers (b := b) (s := s) (c := c) c.address c.length j
    rw [hdata]

/-- A command copies in bounds exactly if it fits, and then the capture stays intact. -/
theorem handleMemwrite_spec (h : s.Intact) :
    ((∀ copy ∈ (handleMemwrite b s c).1, copy.Ok) ↔ Fits b s c) ∧
      (Fits b s c → (handleMemwrite b s c).2.Intact) := by
  by_cases hup : Uploads c
  · have hrecognised : (recognise b s c).Intact := fun i hi =>
      ⟨(h i hi).allocated, (h i hi).secondary, (h i hi).room, (h i hi).pos⟩
    obtain ⟨hcopies, hnext⟩ := continueCapture_spec (b := b) (c := c) hrecognised
    have hiff : (∀ copy ∈ (handleMemwrite b s c).1, copy.Ok) ↔ Fits b s c := by
      rw [handleMemwrite_of_uploads hup, Fits, imp_iff_right hup, List.forall_mem_append, hcopies]
      refine and_congr_right fun hcovered => ?_
      obtain ⟨hintact, hends, hcount, hallocated⟩ := hnext hcovered
      rw [(beginCapture_iff hintact).1, hends, hcount]
      simp only [hallocated]
      rfl
    refine ⟨hiff, fun hfits => ?_⟩
    have hok := hiff.mpr hfits
    rw [handleMemwrite_of_uploads hup, List.forall_mem_append] at hok
    rw [handleMemwrite_of_uploads hup]
    exact (beginCapture_iff (hnext (hcopies.mp hok.1)).1).2 hok.2
  · obtain ⟨deviceAddress, heq⟩ := handleMemwrite_of_not_uploads (b := b) (s := s) hup
    rw [heq]
    exact ⟨iff_of_true (fun r hr => absurd hr List.not_mem_nil) fun hu => absurd hu hup, fun _ i hi =>
      ⟨(h i hi).allocated, (h i hi).secondary, (h i hi).room, (h i hi).pos⟩⟩

/-- The captures of a run of commands are in bounds exactly if every command fits. -/
theorem captures_iff (b : Build) (s : Upload) (hs : s.captureBuffer = none) (commands : List Command) :
    (∀ copies ∈ (run (handleMemwrite b) s commands).1, ∀ copy ∈ copies, copy.Ok) ↔
      Meets (handleMemwrite b) (Fits b) s commands := by
  have hintact : s.Intact := by
    intro i hi
    rw [hs] at hi
    exact absurd hi (Option.not_mem_none i)
  exact results_iff_meets (I := Intact) (Q := fun copies => ∀ copy ∈ copies, Copy.Ok copy)
    (fun _ _ hi => handleMemwrite_spec hi) hintact

/-- A device with an AVR that has all loaders. -/
def avr : Build :=
  ⟨true, true, true, true, true, true, true, true, true, true, true, true, true, true, true⟩

/-- No code was uploaded, and four buffers are free. -/
def atReset : Upload := ⟨buffersInit 4, 0xffff, none, none, 8, 0, 0, 0, none⟩

/-- `M-W` with two bytes for `$042A` that have the CRC of the first stage of GEOS 64. -/
def geosBlock : Command := ⟨fun i => [77, 45, 87, 0x2a, 0x04, 2, 161, 220].getD i 0, 8⟩

/-- `M-W` for `$042C` that announces a byte and ends in front of it. -/
def emptyBlock : Command := ⟨fun i => [77, 45, 87, 0x2c, 0x04, 1].getD i 0, 6⟩

theorem captures_geosBlock :
    Meets (handleMemwrite avr) (Fits avr) atReset [geosBlock] ∧
      ∀ copies ∈ (run (handleMemwrite avr) atReset [geosBlock]).1, ∀ copy ∈ copies, copy.Ok := by
  have hfits : Meets (handleMemwrite avr) (Fits avr) atReset [geosBlock] := by
    refine ⟨fun _ => ⟨fun hne => absurd rfl hne, ?_⟩, trivial⟩
    intro e he _
    have hentry : captureEntry avr atReset.datacrc geosBlock =
        some ⟨.geosS1_64, 0x42a, 255, BUFFER_SYS_CAPTURE1⟩ := by decide +kernel
    rw [hentry] at he
    obtain rfl := Option.mem_some.mp he
    exact ⟨⟨0, by decide, rfl⟩, by decide, by decide⟩
  exact ⟨hfits, (captures_iff avr atReset rfl [geosBlock]).mpr hfits⟩

theorem not_captures :
    ¬∀ copies ∈ (run (handleMemwrite avr) atReset [geosBlock, emptyBlock]).1, ∀ copy ∈ copies, copy.Ok := by
  intro h
  have hread : ∃ copies ∈ (run (handleMemwrite avr) atReset [geosBlock, emptyBlock]).1, ∃ copy ∈ copies,
      copy.bytes = 1 ∧ copy.source = 6 ∧ copy.received = 6 := by decide +kernel
  obtain ⟨copies, hcopies, copy, hcopy, hbytes, hsource, hreceived⟩ := hread
  have hlt := (h copies hcopies copy hcopy).reads 0 (by omega)
  omega

end Upload

end NoDiskEmu.Dos
