import Mathlib.Algebra.Order.BigOperators.Group.Finset
import NoDiskEmu.Bus.Transfer
import NoDiskEmu.Library.Fair

/-! That a transfer comes to its end: as long as every device goes on, the listeners get all bytes, unless the talker
finds NDAC high where it does not expect it. -/

namespace NoDiskEmu

open Library.Fair

namespace Channel

variable {σ : Type} {ch : Channel σ} {s s' : σ} {xs : List UInt8} {n : ℕ}

theorem Delivers.stream (hl : ch.Lawful) (h : ch.Delivers s xs) (n : ℕ) : ch.stream s n = (withEoi xs).take n :=
  h.talkBytes_take hl n

/-- What a channel still delivers behind the first bytes. -/
theorem Delivers.drop (hl : ch.Lawful) (h : ch.Delivers s xs) (hn : (ch.talkBytes s n).2 = .more s')
    (hlt : n < xs.length) : ch.Delivers s' (xs.drop n) := by
  induction n generalizing s xs with
  | zero =>
    rw [Channel.talkBytes] at hn
    cases hn
    exact h
  | succ n ih =>
    obtain ⟨hread, ⟨hone, -⟩ | ⟨-, s₁, hafter, hrest, -⟩⟩ := h.byte hl
    · omega
    · rw [Channel.talkBytes, if_pos hread, hafter] at hn
      have hdrop := ih hrest hn (by rw [List.length_tail]; omega)
      rwa [List.drop_tail] at hdrop

/-- The loop goes on with a buffer that can be read, or stops. -/
theorem Delivers.afterByte (hl : ch.Lawful) (h : ch.Delivers s xs) :
    (∃ s', ch.afterByte s = .more s' ∧ (ch.cursor s').read = true) ∨ ∃ s', ch.afterByte s = .stop s' := by
  obtain ⟨-, ⟨hone, hafter, heoi⟩ | ⟨-, s₁, hafter, hrest, -⟩⟩ := h.byte hl
  · rw [hafter]
    cases h with
    | last _ _ _ _ stop => exact .inr stop
    | more _ _ _ eoi => exact absurd (heoi.symm.trans eoi) Bool.true_eq_false.mp
  · exact .inl ⟨s₁, hafter, (hrest.byte hl).1⟩

theorem Sends.delivers (hl : ch.Lawful) (h : ch.Delivers s xs) (hs : ch.Sends s n s') : n < xs.length := by
  have hlength := hs.length_succ
  rw [h.stream hl, List.length_take, withEoi_length] at hlength
  omega

theorem Ends.delivers (hl : ch.Lawful) (h : ch.Delivers s xs) (he : ch.Ends s n) : ch.stream s n = withEoi xs := by
  have hstop := he.stop xs.length
  rw [h.stream hl, h.stream hl] at hstop
  rw [h.stream hl, ← hstop]
  exact List.take_of_length_le (by rw [withEoi_length]; omega)

end Channel

namespace Bus.Handshake

namespace Listener

/-- The listener waits for a change of DAV. -/
def Stuck (dav : Bool) (l : Listener) : Prop := l.pc = .waitDav ∧ dav = true ∨ l.pc = .waitDavHigh ∧ dav = false

/-- The steps up to the end of the `n`th byte. -/
def rank (n : ℕ) (l : Listener) : ℕ :=
  11 * (n - l.got.length) +
    match l.pc with
    | .work => 10
    | .nrfdHigh => 9
    | .ndacLow => 8
    | .waitDav => 7
    | .nrfdLow => 6
    | .readEoi => 5
    | .readData => 4
    | .checkDav => 3
    | .ndacHigh => 2
    | .waitDavHigh => 1
    | .ndacEnd => 0

variable {l : Listener} {dav eoi : Bool} {data : UInt8} {n : ℕ}

theorem Stuck.step (h : l.Stuck dav) : l.step dav eoi data = l := by
  obtain ⟨hpc, rfl⟩ | ⟨hpc, rfl⟩ := h <;> rw [Listener.step, hpc] <;> rfl

theorem rank_step (h : ¬l.Stuck dav) (hcheck : l.pc = .checkDav → dav = false)
    (hend : l.pc = .ndacEnd → l.got.length < n) : (l.step dav eoi data).rank n < l.rank n := by
  cases hpc : l.pc <;> simp_all [Stuck, Listener.step, rank]
  omega

end Listener

variable {ι σ : Type} {ch : Channel σ} {s : σ} {w : Devices ι σ} {n : ℕ}

/-- The steps of the talker up to the end of the `n`th byte. -/
def Talker.rank (n : ℕ) (t : Talker σ) : ℕ :=
  13 * (n - t.sent) +
    match t.pc with
    | .davHigh => 12
    | .eoiHigh => 11
    | .waitNdac => 10
    | .waitNrfd => 9
    | .checkReady => 8
    | .putEoi => 7
    | .putData => 6
    | .checkData => 5
    | .davLow => 4
    | .testNrfd | .testNdac => 3
    | .waitAccept | .dropDav | .endDav => 2
    | .next | .dropEoi | .endEoi => 1
    | .gaveUp | .left => 0

/-- What is known of the listeners while they go on. -/
theorem Agrees.listener_facts (h : Agrees ch s w) (hn : ∀ k, (ch.stream s k).length ≤ n) (i : ι) :
    ((w.rx i).pc = .checkDav → w.tx.dav = false) ∧ ((w.rx i).pc = .ndacEnd → (w.rx i).got.length < n) := by
  have hbetween : ∀ {P k}, (w.rx i).Between P (ch.stream s k) →
      (w.rx i).pc ≠ .checkDav ∧ ((w.rx i).pc = .ndacEnd → (w.rx i).got.length < n) := by
    intro P k hi
    obtain haccepted | ⟨-, -, hpc⟩ := hi
    · refine ⟨?_, fun _ => ?_⟩
      · obtain hpc | hpc := haccepted.pc <;> rw [hpc] <;> nofun
      · have hlength := hn k
        rw [← haccepted.got, List.length_append, List.length_singleton] at hlength
        exact hlength
    · cases hl : (w.rx i).pc <;> rw [hl] at hpc <;> simp_all
  cases h with
  | taken pc dav rx => exact ⟨fun _ => dav, (hbetween (P := False) (.inl (rx i).2)).2⟩
  | free pc dav rx => exact (hbetween (rx i)).imp_left fun h h' => absurd h' h
  | ready pc sends dav rx => obtain hpc | hpc := (rx i).pc <;> rw [hpc] <;> exact ⟨nofun, nofun⟩
  | valid pc sends dav eoi data rx =>
    refine ⟨fun _ => dav, fun hpc => ?_⟩
    have := (rx i).2
    rw [hpc] at this
    exact this.elim
  | dropped pc sends dav rx => exact (hbetween (rx i)).imp_left fun h h' => absurd h' h

theorem Agrees.sent_lt (h : Agrees ch s w) (hn : ∀ k, (ch.stream s k).length ≤ n) (hpc : w.tx.pc = .next) :
    w.tx.sent < n := by
  obtain sends | ⟨pc | pc | pc, -⟩ := h.counted
  · exact sends.length_succ.ge.trans (hn _)
  · cases hpc.symm.trans pc
  · cases hpc.symm.trans pc
  · cases hpc.symm.trans pc

/-- How a transfer ends: the listeners have all bytes, or the last one is left on the bus, or the talker has given up
a byte that all listeners have. -/
inductive Over (ch : Channel σ) (s : σ) (w : Devices ι σ) : Prop
  | all (pc : w.tx.pc = .left) (dav : w.tx.dav = true) (ends : ch.Ends s w.tx.sent)
      (rx : ∀ i, (w.rx i).pc = .waitDav ∧ (w.rx i).got = ch.stream s w.tx.sent)
  | held (pc : w.tx.pc = .left) (dav : w.tx.dav = false) (ends : ch.Ends s w.tx.sent)
      (rx : ∀ i, (w.rx i).Holds (ch.stream s w.tx.sent))
  | gaveUp (pc : w.tx.pc = .gaveUp) (dav : w.tx.dav = true) (sends : ch.Sends s w.tx.sent w.tx.buf)
      (rx : ∀ i, (w.rx i).pc = .waitDav ∧ (w.rx i).got = ch.stream s (w.tx.sent + 1))

theorem Listener.Between.got {P : Prop} {xs : List (UInt8 × Bool)} {l : Listener} (h : l.Between P xs)
    (hstuck : l.Stuck true) : l.pc = .waitDav ∧ l.got = xs ∧ l.nrfd = true ∧ l.ndac = false := by
  obtain ⟨hpc, -⟩ | ⟨-, hdav⟩ := hstuck
  · obtain haccepted | ⟨hgot, -, hlines⟩ := h
    · obtain hpc' | hpc' := haccepted.pc <;> cases hpc.symm.trans hpc'
    · rw [hpc] at hlines
      exact ⟨hpc, hgot, hlines.1, hlines.2.1⟩
  · cases hdav

variable [Fintype ι]

/-- The steps of all devices. The two tests of the wait for NRFD count for more than one step once NRFD is low. -/
def Devices.rank (n : ℕ) (w : Devices ι σ) : ℕ :=
  2 * ∑ i, (w.rx i).rank n + 2 * w.tx.rank n + if w.tx.pc = .testNdac ∧ w.nrfd = false then 1 else 0

/-- The next step of the talker is not part of a wait. -/
def Devices.TalkerHelps (w : Devices ι σ) : Prop :=
  match w.tx.pc with
  | .waitNdac => w.ndac = false
  | .waitNrfd => w.nrfd = true
  | .testNrfd => w.nrfd = false
  | .testNdac => w.ndac = true ∨ w.nrfd = false
  | .waitAccept => w.ndac = true
  | .gaveUp | .left => False
  | _ => True

/-- The devices whose next step is not part of a wait. -/
def Devices.Helps (w : Devices ι σ) : Option ι → Prop
  | none => w.TalkerHelps
  | some i => ¬(w.rx i).Stuck w.tx.dav

/-- When no device helps any more, the transfer is over. -/
theorem Agrees.over [Nonempty ι] (h : Agrees ch s w) (hstop : ∀ p, ¬w.Helps p) : Over ch s w := by
  have htalker : ¬w.TalkerHelps := hstop none
  have hstuck : ∀ i, (w.rx i).Stuck w.tx.dav := fun i => not_not.mp (hstop (some i))
  obtain ⟨i₀⟩ := ‹Nonempty ι›
  rw [Devices.TalkerHelps] at htalker
  cases h with
  | taken pc dav rx =>
    obtain ⟨pc, -⟩ | ⟨pc | pc, ends⟩ := pc
    · rw [pc] at htalker
      exact absurd trivial htalker
    · rw [pc] at htalker
      exact absurd trivial htalker
    · exact .held pc dav ends rx
  | free pc dav rx =>
    rw [dav] at hstuck
    have hgot := fun i => (rx i).got (hstuck i)
    obtain ⟨pc | pc | pc | pc, -⟩ | ⟨pc | pc, ends⟩ := pc
    · rw [pc] at htalker
      exact absurd trivial htalker
    · rw [pc] at htalker
      exact absurd trivial htalker
    · rw [pc] at htalker
      refine absurd (decide_eq_false fun hndac => ?_) htalker
      exact Bool.false_ne_true ((hgot i₀).2.2.2.symm.trans (hndac i₀))
    · rw [pc] at htalker
      exact absurd (decide_eq_true fun i => (hgot i).2.2.1) htalker
    · rw [pc] at htalker
      exact absurd trivial htalker
    · exact .all pc dav ends fun i => ⟨(hgot i).1, (hgot i).2.1⟩
  | ready pc sends dav rx =>
    obtain pc | pc | ⟨pc | ⟨pc | pc, -⟩, -⟩ := pc <;> rw [pc] at htalker <;> exact absurd trivial htalker
  | valid pc sends dav eoi data rx =>
    have haccepted : ∀ i, (w.rx i).nrfd = false ∧ (w.rx i).ndac = true := by
      intro i
      obtain ⟨-, hdav⟩ | ⟨hpc, -⟩ := hstuck i
      · cases dav.symm.trans hdav
      · have hlines := (rx i).2
        rw [hpc] at hlines
        exact ⟨hlines.1, hlines.2.1⟩
    have hndac : w.ndac = true := decide_eq_true fun i => (haccepted i).2
    have hnrfd : w.nrfd = false := decide_eq_false fun h => Bool.false_ne_true ((haccepted i₀).1.symm.trans (h i₀))
    obtain pc | pc | pc | ⟨pc | pc, -⟩ := pc <;> rw [pc] at htalker
    · exact absurd hnrfd htalker
    · exact absurd (.inl hndac) htalker
    · exact absurd hndac htalker
    · exact absurd trivial htalker
    · exact absurd trivial htalker
  | dropped pc sends dav rx =>
    rw [dav] at hstuck
    have hgot := fun i => (rx i).got (hstuck i)
    obtain pc | pc := pc
    · rw [pc] at htalker
      exact absurd trivial htalker
    · exact .gaveUp pc dav sends fun i => ⟨(hgot i).1, (hgot i).2.1⟩

variable [DecidableEq ι]

theorem Devices.rank_step_none : (w.step ch none).rank n =
    2 * ∑ i, (w.rx i).rank n + 2 * (w.tx.step ch w.ndac w.nrfd).rank n +
      if (w.tx.step ch w.ndac w.nrfd).pc = .testNdac ∧ w.nrfd = false then 1 else 0 := rfl

/-- A step of the talker that is not part of a wait. -/
theorem Devices.rank_talker (h : w.TalkerHelps) (hnext : w.tx.pc = .next → w.tx.sent < n) :
    (w.step ch none).rank n < w.rank n := by
  suffices ht : 2 * (w.tx.step ch w.ndac w.nrfd).rank n +
      (if (w.tx.step ch w.ndac w.nrfd).pc = .testNdac ∧ w.nrfd = false then 1 else 0) <
        2 * w.tx.rank n + if w.tx.pc = .testNdac ∧ w.nrfd = false then 1 else 0 by
    rw [Devices.rank_step_none, Devices.rank, Nat.add_assoc, Nat.add_assoc]
    exact Nat.add_lt_add_left ht _
  rw [Devices.TalkerHelps] at h
  cases hpc : w.tx.pc with
  | next =>
    have hlt := hnext hpc
    rw [Talker.step_next hpc]
    cases hafter : ch.afterByte w.tx.buf with
    | more s' =>
      cases hread : (ch.cursor s').read <;> simp [Talker.rank, hpc, hread] <;> omega
    | stop s' =>
      simp [Talker.rank, hpc]
      omega
    | null =>
      simp [Talker.rank, hpc]
      omega
  | testNdac =>
    rw [hpc] at h
    cases hndac : w.ndac with
    | true =>
      simp only [Talker.rank, Talker.step, hpc, if_true]
      split <;> split <;> omega
    | false =>
      obtain hhigh | hnrfd := h
      · exact absurd (hndac.symm.trans hhigh) Bool.false_ne_true
      · simp [Talker.rank, Talker.step, hpc, hnrfd]
  | checkReady | checkData => cases hndac : w.ndac <;> simp [Talker.rank, Talker.step, hpc]
  | _ => rw [hpc] at h; simp_all [Talker.rank, Talker.step]

/-- A step of the talker that is part of a wait. -/
theorem Devices.step_wait (h : ¬w.TalkerHelps) :
    (w.step ch none).rank n = w.rank n ∧ (w.step ch none).tx.dav = w.tx.dav := by
  have hdav : (w.step ch none).tx.dav = (w.tx.step ch w.ndac w.nrfd).dav := rfl
  rw [Devices.rank_step_none, Devices.rank, hdav]
  rw [Devices.TalkerHelps] at h
  cases hpc : w.tx.pc <;> rw [hpc] at h <;> simp_all [Talker.rank, Talker.step]

theorem Devices.step_stuck {i : ι} (h : (w.rx i).Stuck w.tx.dav) : w.step ch (some i) = w := by
  rw [Devices.step, h.step, Function.update_eq_self]

/-- A step of a listener that does not wait. -/
theorem Devices.rank_listener {i : ι} (h : ¬(w.rx i).Stuck w.tx.dav)
    (hcheck : (w.rx i).pc = .checkDav → w.tx.dav = false) (hend : (w.rx i).pc = .ndacEnd → (w.rx i).got.length < n) :
    (w.step ch (some i)).rank n < w.rank n := by
  have hstep : (w.rx i |>.step w.tx.dav w.tx.eoi w.tx.data).rank n < (w.rx i).rank n := Listener.rank_step h hcheck hend
  have hsum : ∑ j, ((w.step ch (some i)).rx j).rank n < ∑ j, (w.rx j).rank n := by
    refine Finset.sum_lt_sum (fun j _ => ?_) ⟨i, Finset.mem_univ i, by rwa [Devices.rx_step_self]⟩
    by_cases hji : j = i
    · subst hji
      rw [Devices.rx_step_self]
      exact hstep.le
    · rw [Devices.rx_step_other w hji]
  have hone : (if (w.step ch (some i)).tx.pc = .testNdac ∧ (w.step ch (some i)).nrfd = false then 1 else 0) ≤ 1 := by
    split <;> omega
  have htx : (w.step ch (some i)).tx.rank n = w.tx.rank n := rfl
  rw [Devices.rank, Devices.rank, htx]
  omega

/-- The steps of the devices make progress towards the end of the transfer. -/
theorem ranked [Nonempty ι] (hn : ∀ k, (ch.stream s k).length ≤ n) :
    Ranked (Devices.step ch) (Agrees ch s : Devices ι σ → Prop) (Devices.rank n) Devices.Helps where
  keep _ p h := h.step p
  le w p h := by
    cases p with
    | none =>
      by_cases hhelps : w.TalkerHelps
      · exact (Devices.rank_talker hhelps (h.sent_lt hn)).le
      · exact (Devices.step_wait hhelps).1.le
    | some i =>
      by_cases hstuck : (w.rx i).Stuck w.tx.dav
      · rw [Devices.step_stuck hstuck]
      · obtain ⟨hcheck, hend⟩ := h.listener_facts hn i
        exact (Devices.rank_listener hstuck hcheck hend).le
  lt w p h hhelps := by
    cases p with
    | none => exact Devices.rank_talker hhelps (h.sent_lt hn)
    | some i =>
      obtain ⟨hcheck, hend⟩ := h.listener_facts hn i
      exact Devices.rank_listener hhelps hcheck hend
  stable w p q h hhelps := by
    cases q with
    | none =>
      by_cases htalker : w.TalkerHelps
      · exact .inl (Devices.rank_talker htalker (h.sent_lt hn))
      cases p with
      | none => exact absurd hhelps htalker
      | some i =>
        refine .inr ?_
        rw [Devices.Helps, (Devices.step_wait (n := n) htalker).2]
        exact hhelps
    | some j =>
      by_cases hstuck : (w.rx j).Stuck w.tx.dav
      · rw [Devices.step_stuck hstuck]
        exact .inr hhelps
      · obtain ⟨hcheck, hend⟩ := h.listener_facts hn j
        exact .inl (Devices.rank_listener hstuck hcheck hend)

/-- A talker whose channel delivers releases DAV when it leaves. -/
theorem Agrees.left_step {xs : List UInt8} (hl : ch.Lawful) (hd : ch.Delivers s xs) (h : Agrees ch s w)
    (hleft : w.tx.pc = .left → w.tx.dav = true) (p : Option ι) :
    (w.step ch p).tx.pc = .left → (w.step ch p).tx.dav = true := by
  cases p with
  | some i => exact hleft
  | none =>
    show (w.tx.step ch w.ndac w.nrfd).pc = .left → (w.tx.step ch w.ndac w.nrfd).dav = true
    cases hpc : w.tx.pc with
    | next =>
      obtain sends | ⟨pc | pc | pc, -⟩ := h.counted
      · obtain ⟨s', hafter, hread⟩ | ⟨s', hafter⟩ := (hd.drop hl sends.state (sends.delivers hl hd)).afterByte hl
        · simp [Talker.step_next hpc, hafter, hread]
        · simp [Talker.step_next hpc, hafter]
      · cases hpc.symm.trans pc
      · cases hpc.symm.trans pc
      · cases hpc.symm.trans pc
    | endEoi =>
      cases h with
      | free _ dav => simp [Talker.step, hpc, dav]
      | taken pc => simp [hpc] at pc
      | ready pc => simp [hpc] at pc
      | valid pc => simp [hpc] at pc
      | dropped pc => simp [hpc] at pc
    | left =>
      intro _
      rw [Talker.step, hpc]
      exact hleft hpc
    | _ => simp [Talker.step, hpc]; try split <;> simp_all

/-- When a transfer is over, nothing changes any more. -/
theorem Over.step (h : Over ch s w) (p : Option ι) : w.step ch p = w := by
  have htalker : (w.tx.pc = .left ∨ w.tx.pc = .gaveUp) ∧ ∀ i, (w.rx i).Stuck w.tx.dav := by
    cases h with
    | all pc dav ends rx => exact ⟨.inl pc, fun i => .inl ⟨(rx i).1, dav⟩⟩
    | held pc dav ends rx => exact ⟨.inl pc, fun i => .inr ⟨(rx i).1, dav⟩⟩
    | gaveUp pc dav sends rx => exact ⟨.inr pc, fun i => .inl ⟨(rx i).1, dav⟩⟩
  cases p with
  | none => obtain pc | pc := htalker.1 <;> rw [Devices.step, Talker.step, pc]
  | some i => exact Devices.step_stuck (htalker.2 i)

/-- In every fair order of steps a transfer comes to rest with all bytes at all listeners, or with the talker having
given up a byte that all listeners have. -/
theorem transfer_ends [Nonempty ι] {rx : ι → Listener} (h : ∀ i, (rx i).Starts)
    (hndac : ∀ i, (rx i).ndac = false ∨ Subsingleton ι) {xs : List UInt8} (hl : ch.Lawful) (hd : ch.Delivers s xs)
    {f : ℕ → Option ι} (hf : IsFair f) :
    ∃ n, let w := trace (Devices.step ch) (Devices.start ch s rx) f n
      (∀ p, w.step ch p = w) ∧
        (w.tx.pc = .left ∧ (∀ i, (w.rx i).got = withEoi xs) ∨
          w.tx.pc = .gaveUp ∧ w.tx.sent < xs.length ∧ ∀ i, (w.rx i).got = (withEoi xs).take (w.tx.sent + 1)) := by
  have hn : ∀ k, (ch.stream s k).length ≤ xs.length := by
    intro k
    rw [hd.stream hl, List.length_take, withEoi_length]
    exact min_le_right _ _
  have hranked := @ranked ι _ _ _ _ _ _ _ hn
  have hstart : Agrees ch s (Devices.start ch s rx) := Agrees.start h hndac
  have hleft : ∀ n, (trace (Devices.step ch) (Devices.start ch s rx) f n).tx.pc = .left →
      (trace (Devices.step ch) (Devices.start ch s rx) f n).tx.dav = true := by
    intro n
    induction n with
    | zero => exact fun _ => rfl
    | succ n ih => exact (hranked.trace_keep hstart n).left_step hl hd ih (f n)
  obtain ⟨n, hstop⟩ := hranked.eventually hstart hf
  have hover := (hranked.trace_keep hstart n).over hstop
  refine ⟨n, hover.step, ?_⟩
  cases hover with
  | all pc dav ends rx => exact .inl ⟨pc, fun i => (rx i).2.trans (ends.delivers hl hd)⟩
  | held pc dav ends rx => exact absurd (dav.symm.trans (hleft n pc)) Bool.false_ne_true
  | gaveUp pc dav sends rx =>
    exact .inr ⟨pc, sends.delivers hl hd, fun i => (rx i).2.trans (hd.stream hl _)⟩

theorem twoBytes_delivers : lastBuffer.Delivers twoBytes [65, 66] :=
  .last (s := twoBytes) rfl (by decide) (by decide) rfl ⟨_, rfl⟩

theorem lastBuffer_lawful : lastBuffer.Lawful := ⟨fun _ _ => rfl, fun _ _ _ => rfl, fun _ _ => rfl⟩

/-- A listener that pulls NDAC low since its last byte. -/
def Listener.listening : Listener := ⟨.nrfdHigh, false, false, false, 0, []⟩

/-- One device sends two bytes to two others. -/
def toTwo : Devices Bool Cursor := Devices.start lastBuffer twoBytes fun _ => .listening

/-- The devices take turns. -/
def turns (n : ℕ) : Option Bool := if n % 3 = 0 then none else some (n % 3 = 1)

theorem turns_fair : IsFair turns := by
  intro p n
  match p with
  | none => exact ⟨3 * n, by omega, by rw [turns, if_pos (by omega)]⟩
  | some true =>
    refine ⟨3 * n + 1, by omega, ?_⟩
    rw [turns, if_neg (by omega)]
    exact congrArg some (decide_eq_true (by omega))
  | some false =>
    refine ⟨3 * n + 2, by omega, ?_⟩
    rw [turns, if_neg (by omega)]
    exact congrArg some (decide_eq_false (by omega))

theorem toTwo_ends : ∃ n, ∀ p,
    (trace (Devices.step lastBuffer) toTwo turns n).step lastBuffer p =
      trace (Devices.step lastBuffer) toTwo turns n := by
  obtain ⟨n, hrest, -⟩ := @transfer_ends Bool Cursor lastBuffer twoBytes _ _ _ (fun _ => .listening)
    (fun _ => ⟨rfl, rfl, rfl, rfl⟩) (fun _ => .inl rfl) _ lastBuffer_lawful twoBytes_delivers _ turns_fair
  exact ⟨n, hrest⟩

/-- The talker gives up when its only listener takes the byte between the tests of NRFD and NDAC. -/
theorem can_give_up (hread : (ch.cursor s).read = true) :
    ∃ schedule : List (Option Unit), let w := (Devices.start ch s fun _ => .addressed).run ch schedule
      w.tx.pc = .gaveUp ∧ w.tx.sent = 0 ∧ (w.rx ()).got = [(ch.cursor s).out] := by
  refine ⟨List.replicate 2 (some ()) ++ List.replicate 10 none ++ List.replicate 6 (some ()) ++ List.replicate 3 none ++
    List.replicate 2 (some ()), ?_⟩
  simp [Devices.run, Devices.start, Talker.start, hread, List.replicate, Devices.step, Listener.step, Talker.step,
    Listener.addressed, Devices.ndac, Devices.nrfd]

/-- Several listeners have to pull NDAC low before the first byte: a listener that is late with it misses the byte. -/
theorem can_miss {xs : List UInt8} (hl : ch.Lawful) (hd : ch.Delivers s xs) :
    ∃ schedule : List (Option Bool), let w := (Devices.start ch s fun _ => .addressed).run ch schedule
      w.tx.sent = 1 ∧ w.tx.dav = true ∧ (w.rx true).got = [] ∧ (w.rx true).pc = .ndacLow := by
  have hread := (hd.byte hl).1
  refine ⟨List.replicate 2 (some false) ++ [some true] ++ List.replicate 9 none ++ List.replicate 6 (some false) ++
    List.replicate 4 none, ?_⟩
  obtain ⟨s', hafter, hread'⟩ | ⟨s', hafter⟩ := hd.afterByte hl <;>
    simp [*, Devices.run, Devices.start, Talker.start, List.replicate, Devices.step, Listener.step, Talker.step,
      Listener.addressed, Devices.ndac, Devices.nrfd]

end Bus.Handshake

end NoDiskEmu
