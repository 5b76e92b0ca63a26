import NoDiskEmu.Fat.Records
import NoDiskEmu.Library.Run

/-! The P command for files without records: it moves to any byte of a file that is open for
reading. -/

namespace NoDiskEmu.Fat

open Library

/-- The offset in a P command; bytes that were not sent are zero. -/
def offsetOf (command : List UInt8) : ℕ :=
  (command.getD 2 0).toNat + (command.getD 3 0).toNat * 2 ^ 8 + (command.getD 4 0).toNat * 2 ^ 16 +
    (command.getD 5 0).toNat * 2 ^ 24

/-- A P command for the file on `secondary`, to a place inside of its `len` bytes. -/
structure Position (secondary : UInt8) (len : ℕ) where
  command : List UInt8
  length : 2 ≤ command.length
  channel : command.getD 1 0 &&& 15 = secondary
  inside : offsetOf command < len

/-- What is done with an open file: a P command, or a TALK in which the computer takes `n` bytes. -/
inductive Use (secondary : UInt8) (len : ℕ)
  | position (p : Position secondary len)
  | talk (n : ℕ)

/-- A TALK: the bytes that are sent, with their EOI, and the file afterwards. -/
def State.talk (s : State) (n : ℕ) : List (UInt8 × Bool) × State :=
  let r := channel.talkLoop s n
  (r.1, match r.2 with
    | .more s => s
    | .stop s => s
    | .null => s)

namespace Use

variable {secondary : UInt8} {len : ℕ}

def step (s : State) : Use secondary len → List (UInt8 × Bool) × State
  | .position p => ([], s.parsePosition secondary p.command)
  | .talk n => s.talk n

/-- A TALK takes the last byte of the file; `offset` is the place of the next byte. -/
def ReachesEnd : ℕ → List (Use secondary len) → Prop
  | _, [] => False
  | _, .position p :: us => ReachesEnd (offsetOf p.command) us
  | offset, .talk n :: us => len ≤ offset + n ∨ ReachesEnd (offset + n) us

end Use

/-- The state after some uses of the file. -/
def uses {secondary : UInt8} {len : ℕ} (s : State) (us : List (Use secondary len)) : State :=
  (Run.run Use.step s us).2

/-- The bytes of some TALKs. -/
def State.talks (s : State) (ns : List ℕ) : List (UInt8 × Bool) := (Run.run State.talk s ns).1.flatten

namespace State

/-- A file without records that was opened for reading: a header of `head` bytes and the data `xs`. -/
structure Plain (s : State) (head : ℕ) (xs : List UInt8) : Prop where
  noFault : s.NoFault
  recordlen : s.recordlen = 0
  allocated : s.allocated = true
  refill : s.refill = .fatFileRead
  clean : s.dirty = false
  readonly : s.writable = false
  headersize : s.headersize = head
  size : s.fh.size = head + xs.length
  data : s.fh.contents.drop head = xs

/-- The file is about to deliver its data from `offset` on. -/
structure Stream (s : State) (head : ℕ) (xs : List UInt8) (offset : ℕ) : Prop extends Plain s head xs where
  inside : offset < xs.length
  delivers : channel.Delivers s (xs.drop offset)

/-- The talk loop does not send anything from the file. -/
structure Retired (s : State) (head : ℕ) (xs : List UInt8) : Prop extends Plain s head xs where
  unread : s.read = false

variable {s : State} {head offset : ℕ} {xs : List UInt8}

theorem Plain.filled (h : s.Plain head xs) : (s.filled 254).Plain head xs :=
  ⟨h.noFault, h.recordlen, h.allocated, h.refill, h.clean, h.readonly, h.headersize, h.size, h.data⟩

theorem Plain.store (h : s.Plain head xs) {c : Cursor} (hc : c.recordlen = s.recordlen) :
    (channel.store s c).Plain head xs :=
  ⟨h.noFault, hc.trans h.recordlen, h.allocated, h.refill, h.clean, h.readonly, h.headersize, h.size, h.data⟩

theorem Plain.setPosition (h : s.Plain head xs) (index : ℕ) : (s.setPosition index).Plain head xs :=
  ⟨h.noFault, h.recordlen, h.allocated, h.refill, h.clean, h.readonly, h.headersize, h.size, h.data⟩

/-- The file pointer moves to a byte of the data. -/
theorem Plain.seek (h : s.Plain head xs) (hoffset : offset < xs.length) :
    (s.setFh (s.fh.seek (offset + head))).Plain head xs := by
  have hsize := h.size
  have hcontents : (s.fh.seek (offset + head)).contents = s.fh.contents :=
    File.contents_seek_of_le (by omega)
  refine ⟨h.noFault, h.recordlen, h.allocated, h.refill, h.clean, h.readonly, h.headersize, ?_, ?_⟩
  · show max s.fh.size (offset + head) = _
    omega
  · show (s.fh.seek (offset + head)).contents.drop head = xs
    rw [hcontents, h.data]

/-- `fat_file_seek` moves the pointer and refills the buffer. -/
theorem Plain.fatFileSeek (h : s.Plain head xs) (hoffset : offset < xs.length) :
    s.fatFileSeek offset 0 = (false, ((s.setFh (s.fh.seek (offset + head))).filled 254).setPosition 0) := by
  have hle : s.fh.size ≥ offset + s.headersize := by
    have hsize := h.size
    rw [h.headersize]
    omega
  have hio : (s.setFh (s.fh.seek (offset + head))).NoFault := h.noFault
  have hread := fatFileRead_ok hio
  rw [show (s.setFh (s.fh.seek (offset + head))).recordlen = 0 from h.recordlen,
    if_neg (not_not.mpr rfl)] at hread
  rw [State.fatFileSeek, h.clean, if_neg Bool.false_ne_true]
  dsimp only
  rw [if_neg Bool.false_ne_true, if_pos hle, fLseek_ok h.noFault, h.readonly, if_neg Bool.false_ne_true,
    Nat.min_eq_left hle, h.headersize]
  dsimp only
  rw [if_neg (not_not.mpr rfl), hread, if_neg Bool.false_ne_true]
  rfl

variable {secondary : UInt8}

theorem Plain.parsePosition (h : s.Plain head xs) (p : Position secondary xs.length) :
    s.parsePosition secondary p.command =
      ((s.setFh (s.fh.seek (offsetOf p.command + head))).filled 254).setPosition 0 := by
  have hlength := p.length
  have hchannel : ¬(p.command.length < 2 ∨ ¬(s.allocated ∧ p.command.getD 1 0 &&& 15 = secondary)) := by
    rintro (hshort | hother)
    · omega
    · exact hother ⟨h.allocated, p.channel⟩
  have hseek := h.fatFileSeek p.inside
  rw [State.parsePosition, if_neg hchannel, if_neg (not_not.mpr h.recordlen)]
  exact congrArg Prod.snd hseek

/-- A seek while the file is open: it delivers its data from there on. -/
theorem Plain.sought (h : s.Plain head xs) (hread : s.read = true) (hoffset : offset < xs.length) :
    (((s.setFh (s.fh.seek (offset + head))).filled 254).setPosition 0).Stream head xs offset := by
  have hplain := h.seek hoffset
  have hpointer : (s.setFh (s.fh.seek (offset + head))).fh.contents.drop
      (s.setFh (s.fh.seek (offset + head))).fh.pointer = xs.drop offset := by
    have hdrop := congrArg (List.drop offset) hplain.data
    rw [List.drop_drop, Nat.add_comm] at hdrop
    exact hdrop
  have hstart : (s.setFh (s.fh.seek (offset + head))).Reading :=
    ⟨hplain.noFault, hplain.recordlen, hplain.allocated, hread, hplain.refill⟩
  revert hpointer hstart hplain
  generalize s.setFh (s.fh.seek (offset + head)) = t
  intro hplain hpointer hstart
  obtain ⟨t', hfill, -, hdelivers⟩ := hstart.delivers
  obtain ⟨t'', hfill', -, -, hposition, hlast, -⟩ := hstart.fatFileRead
  have hok := fatFileRead_ok hstart.noFault
  rw [hstart.recordlen, if_neg (not_not.mpr rfl)] at hok
  obtain rfl : t' = t.filled 254 := congrArg Prod.snd (hfill.symm.trans hok)
  obtain rfl : t'' = t.filled 254 := congrArg Prod.snd (hfill'.symm.trans hok)
  have hset : (t.filled 254).setPosition 0 = t.filled 254 := by
    rw [State.setPosition, if_neg (by omega), Nat.zero_add, ← hposition]
  have hne : xs.drop offset ≠ [] := by
    rw [← List.length_pos_iff, List.length_drop]
    omega
  rw [hpointer, delivered, if_neg hne] at hdelivers
  rw [hset]
  exact ⟨hplain.filled, hoffset, hdelivers⟩

theorem Plain.position (h : s.Plain head xs) (hread : s.read = true) (p : Position secondary xs.length) :
    (s.parsePosition secondary p.command).Stream head xs (offsetOf p.command) := by
  have hsought := h.sought hread p.inside
  have hparse := h.parsePosition p
  generalize s.parsePosition secondary p.command = t at hparse ⊢
  subst hparse
  exact hsought

theorem Retired.sought (h : s.Retired head xs) (hoffset : offset < xs.length) :
    (((s.setFh (s.fh.seek (offset + head))).filled 254).setPosition 0).Retired head xs :=
  ⟨(h.seek hoffset).filled.setPosition 0, h.unread⟩

/-- A P command does not open the file again. -/
theorem Retired.position (h : s.Retired head xs) (p : Position secondary xs.length) :
    (s.parsePosition secondary p.command).Retired head xs := by
  have hsought := h.sought p.inside
  have hparse := h.parsePosition p
  generalize s.parsePosition secondary p.command = t at hparse ⊢
  subst hparse
  exact hsought

/-! ### TALK -/

/-- The buffer is filled again. -/
theorem Plain.refilled (h : s.Plain head xs) {s' : State} (heoi : s.sendeoi = false)
    (hmore : channel.afterFill s = .more s') : s'.Plain head xs := by
  have hspent : (channel.store s s.toCursor.spent).Plain head xs := h.store rfl
  have hok := fatFileRead_ok hspent.noFault
  rw [hspent.recordlen, if_neg (not_not.mpr rfl)] at hok
  have hrefill : channel.refill (channel.store s s.toCursor.spent) =
      (false, (channel.store s s.toCursor.spent).filled 254) := by
    show State.callRefill _ = _
    rw [State.callRefill, hspent.refill]
    exact hok
  have hfind : channel.find ((channel.store s s.toCursor.spent).filled 254) =
      some ((channel.store s s.toCursor.spent).filled 254) := if_pos hspent.filled.allocated
  have hnot : ¬(channel.cursor s).spent.sendeoi = true := by
    show ¬s.sendeoi = true
    rw [heoi]
    exact Bool.false_ne_true
  rw [Channel.afterFill, if_neg fun hall => hnot hall.1, Channel.refillFind] at hmore
  rw [show channel.refill (channel.store s (channel.cursor s).spent) = _ from hrefill] at hmore
  dsimp only at hmore
  rw [if_neg Bool.false_ne_true, hfind] at hmore
  rw [← Outcome.more.inj hmore]
  exact hspent.filled

/-- The file is read to its end. -/
theorem Plain.retired (h : s.Plain head xs) (heoi : s.sendeoi = true) :
    ∃ s', channel.afterFill s = .stop s' ∧ s'.Retired head xs :=
  ⟨_, if_pos ⟨heoi, Bool.false_ne_true, h.recordlen, Bool.false_ne_true⟩, h.store rfl, rfl⟩

/-- `n` bytes of a file: it has more to deliver, or was read to its end. -/
theorem Plain.talkBytes (h : s.Plain head xs) {ys : List UInt8} (hdelivers : channel.Delivers s ys) (n : ℕ) :
    (n < ys.length ∧ ∃ s', (channel.talkBytes s n).2 = .more s' ∧ s'.Plain head xs ∧
        channel.Delivers s' (ys.drop n)) ∨
      (ys.length ≤ n ∧ ∃ s', (channel.talkBytes s n).2 = .stop s' ∧ s'.Retired head xs) := by
  induction n generalizing s ys with
  | zero => exact .inl ⟨List.length_pos_iff.mpr hdelivers.ne_nil, s, rfl, h, hdelivers⟩
  | succ n ih =>
    obtain ⟨hread, ⟨hlen, hafter, heoi⟩ | ⟨hlen, s', hafter, hrest, hnext⟩⟩ := hdelivers.byte channel_lawful
    · obtain ⟨s', hstop, hs'⟩ := h.retired heoi
      refine .inr ⟨by omega, s', ?_, hs'⟩
      rw [Channel.talkBytes_succ hread, hafter, hstop]
    · have hs' : s'.Plain head xs := by
        rcases hnext with rfl | ⟨heoi, hmore⟩
        · exact h.store rfl
        · exact h.refilled heoi hmore
      have hlength : ys.tail.length = ys.length - 1 := List.length_tail
      have htalk : (channel.talkBytes s (n + 1)).2 = (channel.talkBytes s' n).2 := by
        rw [Channel.talkBytes_succ hread, hafter]
      rw [htalk]
      obtain ⟨hlt, t, ht, hplain, hrest⟩ | ⟨hle, t, ht, hretired⟩ := ih hs' hrest
      · refine .inl ⟨by omega, t, ht, hplain, ?_⟩
        rwa [← List.drop_one, List.drop_drop, Nat.add_comm] at hrest
      · exact .inr ⟨by omega, t, ht, hretired⟩

theorem Plain.talk_eq (h : s.Plain head xs) {ys : List UInt8} (hdelivers : channel.Delivers s ys) (n : ℕ) :
    (s.talk n).1 = (withEoi ys).take n ∧
      (n < ys.length ∧ (s.talk n).2.Plain head xs ∧ channel.Delivers (s.talk n).2 (ys.drop n) ∨
        ys.length ≤ n ∧ (s.talk n).2.Retired head xs) := by
  have hfind : channel.find s = some s := if_pos h.allocated
  have hloop : channel.talkLoop s n = channel.talkBytes s n := by
    rw [Channel.talkLoop, hfind]
  rw [State.talk, hloop]
  refine ⟨hdelivers.talkBytes_take channel_lawful n, ?_⟩
  obtain ⟨hlt, t, ht, hplain, hrest⟩ | ⟨hle, t, ht, hretired⟩ := h.talkBytes hdelivers n
  · dsimp only
    rw [ht]
    exact .inl ⟨hlt, hplain, hrest⟩
  · dsimp only
    rw [ht]
    exact .inr ⟨hle, hretired⟩

/-- A TALK that stops before the end of the file. -/
theorem Stream.talk (h : s.Stream head xs offset) {n : ℕ} (hn : offset + n < xs.length) :
    (s.talk n).1 = (withEoi (xs.drop offset)).take n ∧ (s.talk n).2.Stream head xs (offset + n) := by
  obtain ⟨hbytes, ⟨-, hplain, hrest⟩ | ⟨hle, -⟩⟩ := h.talk_eq h.delivers n
  · rw [List.drop_drop] at hrest
    exact ⟨hbytes, hplain, hn, hrest⟩
  · rw [List.length_drop] at hle
    omega

/-- A TALK that takes the last byte. -/
theorem Stream.talk_end (h : s.Stream head xs offset) {n : ℕ} (hn : xs.length ≤ offset + n) :
    (s.talk n).1 = (withEoi (xs.drop offset)).take n ∧ (s.talk n).2.Retired head xs := by
  obtain ⟨hbytes, ⟨hlt, -⟩ | ⟨-, hretired⟩⟩ := h.talk_eq h.delivers n
  · rw [List.length_drop] at hlt
    omega
  · exact ⟨hbytes, hretired⟩

/-- Nothing is sent of a file that was read to its end. -/
theorem Retired.talk (h : s.Retired head xs) (n : ℕ) : s.talk n = ([], s) := by
  have hfind : channel.find s = some s := if_pos h.allocated
  rw [State.talk, Channel.talkLoop, hfind]
  cases n with
  | zero => rfl
  | succ n =>
    have hread : ¬(channel.cursor s).read = true := by
      rw [show (channel.cursor s).read = false from h.unread]
      exact Bool.false_ne_true
    dsimp only
    rw [Channel.talkBytes, if_neg hread]

theorem Retired.talks (h : s.Retired head xs) (ns : List ℕ) : s.talks ns = [] := by
  induction ns with
  | nil => rfl
  | cons n ns ih =>
    rw [State.talks, Run.run, h.talk n]
    exact ih

/-- Some TALKs get what is left of the data. -/
theorem Stream.talks (h : s.Stream head xs offset) (ns : List ℕ) :
    s.talks ns = (withEoi (xs.drop offset)).take ns.sum := by
  induction ns generalizing s offset with
  | nil => rfl
  | cons n ns ih =>
    have hcons : s.talks (n :: ns) = (s.talk n).1 ++ (s.talk n).2.talks ns := rfl
    rw [hcons, List.sum_cons]
    by_cases hn : xs.length ≤ offset + n
    · obtain ⟨hbytes, hretired⟩ := h.talk_end hn
      rw [hbytes, hretired.talks, List.append_nil, List.take_of_length_le, List.take_of_length_le]
      all_goals
        rw [withEoi_length, List.length_drop]
        omega
    · obtain ⟨hbytes, hstream⟩ := h.talk (Nat.lt_of_not_le hn)
      rw [hbytes, ih hstream, ← List.drop_drop, ← withEoi_drop _ n, ← List.take_add]

/-! ### Histories -/

theorem Retired.uses (h : s.Retired head xs) (us : List (Use secondary xs.length)) :
    (uses s us).Retired head xs := by
  induction us generalizing s with
  | nil => exact h
  | cons u us ih =>
    refine ih (s := (u.step s).2) ?_
    cases u with
    | position p => exact h.position p
    | talk n =>
      rw [Use.step, h.talk n]
      exact h

/-- The file is retired exactly by a history that reached the end. -/
theorem Stream.uses (h : s.Stream head xs offset) (us : List (Use secondary xs.length)) :
    (Use.ReachesEnd offset us ∧ (uses s us).Retired head xs) ∨
      (¬Use.ReachesEnd offset us ∧ ∃ offset', (uses s us).Stream head xs offset') := by
  induction us generalizing s offset with
  | nil => exact .inr ⟨id, offset, h⟩
  | cons u us ih =>
    cases u with
    | position p =>
      have hread : s.read = true := (h.delivers.byte channel_lawful).1
      exact ih (h.position hread p)
    | talk n =>
      by_cases hn : xs.length ≤ offset + n
      · exact .inl ⟨.inl hn, (h.talk_end hn).2.uses us⟩
      · obtain ⟨hend, hafter⟩ | ⟨hend, hafter⟩ := ih (h.talk (Nat.lt_of_not_le hn)).2
        · exact .inl ⟨.inr hend, hafter⟩
        · refine .inr ⟨?_, hafter⟩
          rintro (hle | hlater)
          · exact hn hle
          · exact hend hlater

theorem Plain.fatFileRead (h : s.Plain head xs) : s.fatFileRead.2.Plain head xs := by
  rw [fatFileRead_ok h.noFault, h.recordlen]
  exact h.filled

theorem plain_fatOpenRead (data : ℕ → UInt8) (fh : File) (x00 : Bool)
    (hsize : x00 = true → P00_HEADER_SIZE ≤ fh.size) :
    ((fresh data fh fun _ => .ok).fatOpenRead x00).Plain (if x00 then P00_HEADER_SIZE else 0)
      (fh.contents.drop (if x00 then P00_HEADER_SIZE else 0)) := by
  have hfault : (fresh data fh fun _ => .ok).NoFault := rfl
  rw [fatOpenRead, fOpen_ok hfault, if_neg (not_not.mpr rfl)]
  apply Plain.fatFileRead
  cases x00 with
  | true =>
    have hopened : ((fresh data fh fun _ => .ok).opened false).NoFault := rfl
    have hmin : min P00_HEADER_SIZE fh.size = P00_HEADER_SIZE := Nat.min_eq_left (hsize rfl)
    have hcontents : (File.seek { fh with pointer := 0 } P00_HEADER_SIZE).contents = fh.contents :=
      File.contents_seek_of_le (hsize rfl)
    have hlength : fh.size = P00_HEADER_SIZE + (fh.contents.drop P00_HEADER_SIZE).length := by
      have hle := hsize rfl
      rw [List.length_drop, File.contents_length]
      omega
    have hseek := fLseek_ok hopened P00_HEADER_SIZE
    rw [show ((fresh data fh fun _ => .ok).opened false).writable = false from rfl, if_neg Bool.false_ne_true,
      show ((fresh data fh fun _ => .ok).opened false).fh.size = fh.size from rfl, hmin] at hseek
    rw [if_pos rfl, if_pos rfl, hseek]
    refine ⟨rfl, rfl, rfl, rfl, rfl, rfl, rfl, ?_, congrArg _ hcontents⟩
    exact (Nat.max_eq_left (hsize rfl)).trans hlength
  | false =>
    rw [if_neg Bool.false_ne_true, if_neg Bool.false_ne_true]
    refine ⟨rfl, rfl, rfl, rfl, rfl, rfl, rfl, ?_, rfl⟩
    rw [List.drop_zero, File.contents_length, Nat.zero_add]
    rfl

end State

/-- A P command makes a file deliver its data from the offset on, with EOI on the last byte, whatever P
commands and TALKs came before it, exactly if none of these TALKs took the last byte of the file. -/
theorem position_readable_iff (data : ℕ → UInt8) (fh : File) (x00 : Bool)
    (hsize : x00 = true → P00_HEADER_SIZE ≤ fh.size) (secondary : UInt8) (xs : List UInt8)
    (hxs : xs = fh.contents.drop (if x00 then P00_HEADER_SIZE else 0))
    (us : List (Use secondary xs.length)) (p : Position secondary xs.length) :
    (∀ ns, (uses ((State.fresh data fh fun _ => .ok).fatOpenRead x00) (us ++ [.position p])).talks ns =
        (withEoi (xs.drop (offsetOf p.command))).take ns.sum) ↔
      ¬Use.ReachesEnd 0 us := by
  have hpos : 0 < xs.length := Nat.zero_lt_of_lt p.inside
  have hplain := State.plain_fatOpenRead data fh x00 hsize
  obtain ⟨hdelivers, -⟩ := State.delivers_fatOpenRead data x00 (show (fun _ : ℕ => Io.ok) = _ from rfl) hsize
  rw [← hxs] at hplain hdelivers
  rw [State.delivered, if_neg (List.length_pos_iff.mp hpos)] at hdelivers
  have hstream : ((State.fresh data fh fun _ => .ok).fatOpenRead x00).Stream
      (if x00 then P00_HEADER_SIZE else 0) xs 0 := ⟨hplain, hpos, hdelivers⟩
  have hlast : ∀ s, uses s (us ++ [.position p]) = (uses s us).parsePosition secondary p.command := by
    intro s
    rw [uses, Run.run_append]
    rfl
  rw [hlast]
  obtain ⟨hend, hretired⟩ | ⟨hend, offset, hopen⟩ := hstream.uses us
  · refine iff_of_false (fun hall => ?_) (not_not.mpr hend)
    have hone := congrArg List.length (hall [1])
    have hinside := p.inside
    rw [(hretired.position p).talks, List.length_take, withEoi_length, List.length_drop] at hone
    simp only [List.length_nil, List.sum_cons, List.sum_nil] at hone
    omega
  · have hread := (hopen.delivers.byte State.channel_lawful).1
    exact iff_of_true (fun ns => (hopen.position hread p).talks ns) hend

/-- A file with two bytes. -/
def abFile : File := ⟨fun i => UInt8.ofNat (65 + i), 2, 0⟩

def abData : List UInt8 := [65, 66]

/-- The P command for the start of a file on secondary address 2. -/
def rewind : Position 2 abData.length := ⟨[80, 2, 0, 0, 0, 0], by decide, by decide, by decide⟩

/-- One byte is taken before the P command, and both bytes of the file behind it. -/
theorem position_readable_ab :
    (uses ((State.fresh (fun _ => 0) abFile fun _ => .ok).fatOpenRead false)
      ([.talk 1] ++ [.position rewind])).talks [1, 5] = [((65 : UInt8), false), (66, true)] := by
  have hend : ¬Use.ReachesEnd 0 [(.talk 1 : Use 2 abData.length)] := by
    rintro (hle | hfalse)
    · exact absurd hle (by decide)
    · exact hfalse
  exact (position_readable_iff (fun _ => 0) abFile false (by decide) 2 abData rfl [.talk 1] rewind).mpr hend
    [1, 5]

/-- The file was read to its end before the P command. -/
theorem position_not_readable :
    ¬∀ (data : ℕ → UInt8) (fh : File) (x00 : Bool), (x00 = true → P00_HEADER_SIZE ≤ fh.size) →
      ∀ (secondary : UInt8) (xs : List UInt8), xs = fh.contents.drop (if x00 then P00_HEADER_SIZE else 0) →
      ∀ (us : List (Use secondary xs.length)) (p : Position secondary xs.length) (ns : List ℕ),
        (uses ((State.fresh data fh fun _ => .ok).fatOpenRead x00) (us ++ [.position p])).talks ns =
          (withEoi (xs.drop (offsetOf p.command))).take ns.sum := by
  intro h
  have hbytes := h (fun _ => 0) abFile false (by decide) 2 abData rfl [.talk 2] rewind [1]
  have hlength := congrArg List.length hbytes
  revert hlength
  decide

end NoDiskEmu.Fat
