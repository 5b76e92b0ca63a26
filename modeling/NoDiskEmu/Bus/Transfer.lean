import NoDiskEmu.Bus.Handshake

/-! What arrives: however the steps of the devices are mixed, every listener has the bytes that the talker has sent,
in their order, and none twice. -/

namespace NoDiskEmu

namespace Channel

variable {σ : Type} {ch : Channel σ} {s s' : σ} {n m : ℕ}

/-- The first bytes of a transfer. -/
def stream (ch : Channel σ) (s : σ) (n : ℕ) : List (UInt8 × Bool) := (ch.talkBytes s n).1

/-- A transfer goes on where it is. -/
theorem talkBytes_add (h : (ch.talkBytes s n).2 = .more s') (m : ℕ) :
    ch.talkBytes s (n + m) = (ch.stream s n ++ ch.stream s' m, (ch.talkBytes s' m).2) := by
  induction n generalizing s with
  | zero =>
    rw [talkBytes] at h
    cases h
    rw [Nat.zero_add]
    rfl
  | succ n ih =>
    rw [Nat.add_right_comm]
    rw [talkBytes] at h
    rw [stream, talkBytes, talkBytes]
    split at h
    · rename_i hread
      rw [if_pos hread, if_pos hread]
      cases hafter : ch.afterByte s with
      | more s₁ =>
        rw [hafter] at h
        dsimp only at h ⊢
        rw [ih h]
        rfl
      | stop s₁ =>
        rw [hafter] at h
        cases h
      | null =>
        rw [hafter] at h
        cases h
    · cases h

theorem stream_add (h : (ch.talkBytes s n).2 = .more s') (m : ℕ) :
    ch.stream s (n + m) = ch.stream s n ++ ch.stream s' m :=
  congrArg Prod.fst (talkBytes_add h m)

theorem stream_length (h : (ch.talkBytes s n).2 = .more s') : (ch.stream s n).length = n := by
  induction n generalizing s with
  | zero => rfl
  | succ n ih =>
    rw [talkBytes] at h
    rw [stream, talkBytes]
    split at h
    · rename_i hread
      rw [if_pos hread]
      cases hafter : ch.afterByte s with
      | more s₁ =>
        rw [hafter] at h
        exact congrArg (· + 1) (ih h)
      | stop s₁ =>
        rw [hafter] at h
        cases h
      | null =>
        rw [hafter] at h
        cases h
    · cases h

theorem stream_one (hread : (ch.cursor s).read = true) : ch.stream s 1 = [(ch.cursor s).out] := by
  rw [stream, talkBytes_succ hread]
  cases ch.afterByte s <;> rfl

theorem stream_of_not_read (hread : (ch.cursor s).read = false) (m : ℕ) : ch.stream s m = [] := by
  cases m with
  | zero => rfl
  | succ m =>
    rw [stream, talkBytes, if_neg (by simp [hread])]

/-- There is a byte behind the first `n`, for which the loop is at `s'`. -/
structure Sends (ch : Channel σ) (s : σ) (n : ℕ) (s' : σ) : Prop where
  state : (ch.talkBytes s n).2 = .more s'
  read : (ch.cursor s').read = true

/-- There are `n` bytes in all. -/
structure Ends (ch : Channel σ) (s : σ) (n : ℕ) : Prop where
  length : (ch.stream s n).length = n
  stop : ∀ m, ch.stream s (n + m) = ch.stream s n

theorem Sends.stream_succ (h : ch.Sends s n s') : ch.stream s (n + 1) = ch.stream s n ++ [(ch.cursor s').out] := by
  rw [stream_add h.state, stream_one h.read]

theorem Sends.next (h : ch.Sends s n s') :
    (ch.talkBytes s (n + 1)).2 = match ch.afterByte s' with | .more s'' => .more s'' | r => r := by
  rw [talkBytes_add h.state, talkBytes_succ h.read]
  cases ch.afterByte s' <;> rfl

theorem Sends.length_succ (h : ch.Sends s n s') : (ch.stream s (n + 1)).length = n + 1 := by
  rw [h.stream_succ, List.length_append, stream_length h.state, List.length_singleton]

theorem Sends.ends (h : ch.Sends s n s') (hend : ∀ s'', ch.afterByte s' ≠ .more s'') : ch.Ends s (n + 1) := by
  refine ⟨h.length_succ, fun m => ?_⟩
  have hone : ∀ k, ch.stream s' (k + 1) = [(ch.cursor s').out] := by
    intro k
    rw [stream, talkBytes_succ h.read]
    cases hafter : ch.afterByte s' with
    | more s'' => exact absurd hafter (hend s'')
    | stop s'' => rfl
    | null => rfl
  rw [Nat.add_assoc, stream_add h.state, h.stream_succ, Nat.add_comm 1 m, hone]

theorem ends_of_not_read (h : (ch.talkBytes s n).2 = .more s') (hread : (ch.cursor s').read = false) : ch.Ends s n := by
  refine ⟨stream_length h, fun m => ?_⟩
  rw [stream_add h, stream_of_not_read hread, List.append_nil]

end Channel

namespace Bus.Handshake

namespace Listener

variable {P Q : Prop} {xs : List (UInt8 × Bool)} {x : UInt8 × Bool} {l : Listener} {eoi : Bool} {data : UInt8}

/-- The listener has taken the bytes `xs` and is on its way to the next one. It pulls NDAC low, except under the
condition `P`. -/
def Idle (P : Prop) (xs : List (UInt8 × Bool)) (l : Listener) : Prop :=
  l.got = xs ∧ (l.ndac = false ∨ P) ∧
    match l.pc with
    | .work => l.nrfd = false
    | .nrfdHigh => l.nrfd = false ∧ l.eoi = false
    | .ndacLow => l.nrfd = true ∧ l.eoi = false
    | .waitDav => l.nrfd = true ∧ l.ndac = false ∧ l.eoi = false
    | _ => False

/-- The listener has accepted the last byte of `xs`, and has not returned it yet. -/
structure Accepted (xs : List (UInt8 × Bool)) (l : Listener) : Prop where
  pc : l.pc = .waitDavHigh ∨ l.pc = .ndacEnd
  nrfd : l.nrfd = false
  ndac : l.ndac = true
  got : l.got ++ [(l.c, l.eoi)] = xs

/-- The listener waits until the last byte of `xs` is taken from the bus. -/
def Holds (xs : List (UInt8 × Bool)) (l : Listener) : Prop := l.pc = .waitDavHigh ∧ l.Accepted xs

/-- The listener has accepted the bytes `xs`. -/
def Between (P : Prop) (xs : List (UInt8 × Bool)) (l : Listener) : Prop := l.Accepted xs ∨ l.Idle P xs

/-- The listener is ready for a byte behind `xs`. -/
structure Ready (xs : List (UInt8 × Bool)) (l : Listener) : Prop where
  pc : l.pc = .ndacLow ∨ l.pc = .waitDav
  nrfd : l.nrfd = true
  ndac : l.ndac = false
  eoi : l.eoi = false
  got : l.got = xs

/-- The byte `x` is on the bus, behind `xs`. -/
def Taking (xs : List (UInt8 × Bool)) (x : UInt8 × Bool) (l : Listener) : Prop :=
  l.got = xs ∧
    match l.pc with
    | .ndacLow | .waitDav | .nrfdLow => l.nrfd = true ∧ l.ndac = false ∧ l.eoi = false
    | .readEoi => l.nrfd = false ∧ l.ndac = false ∧ l.eoi = false
    | .readData => l.nrfd = false ∧ l.ndac = false ∧ l.eoi = x.2
    | .checkDav | .ndacHigh => l.nrfd = false ∧ l.ndac = false ∧ (l.c, l.eoi) = x
    | .waitDavHigh => l.nrfd = false ∧ l.ndac = true ∧ (l.c, l.eoi) = x
    | _ => False

theorem Idle.mono (h : l.Idle P xs) (hPQ : P → Q) : l.Idle Q xs := ⟨h.1, h.2.1.imp_right hPQ, h.2.2⟩

theorem Idle.step (h : l.Idle P xs) : (l.step true eoi data).Idle P xs := by
  obtain ⟨hgot, hndac, hpc⟩ := h
  cases hl : l.pc <;> rw [hl] at hpc <;> simp_all [Idle, Listener.step]

theorem Between.mono (h : l.Between P xs) (hPQ : P → Q) : l.Between Q xs := h.imp_right fun h => h.mono hPQ

theorem Accepted.step (h : l.Accepted xs) : (l.step true eoi data).Between False xs := by
  obtain ⟨hpc | hpc, hnrfd, hndac, hgot⟩ := h
  · refine .inl ⟨.inr ?_, ?_, ?_, ?_⟩ <;> simp_all [Listener.step]
  · refine .inr ⟨?_, ?_, ?_⟩ <;> simp_all [Listener.step]

theorem Between.step (h : l.Between P xs) : (l.step true eoi data).Between P xs := by
  obtain h | h := h
  · exact h.step.mono False.elim
  · exact .inr h.step

theorem Ready.step (h : l.Ready xs) : (l.step true eoi data).Ready xs := by
  obtain ⟨hpc | hpc, hnrfd, hndac, heoi, hgot⟩ := h <;> constructor <;> simp_all [Listener.step]

theorem Ready.taking (h : l.Ready xs) (x : UInt8 × Bool) : l.Taking xs x := by
  obtain ⟨hpc | hpc, hnrfd, hndac, heoi, hgot⟩ := h <;> simp_all [Taking]

/-- A listener that lets NRFD go and pulls NDAC low is ready. -/
theorem Idle.ready (h : l.Idle False xs) (hnrfd : l.nrfd = true) : l.Ready xs := by
  obtain ⟨hgot, hndac, hpc⟩ := h
  cases hl : l.pc <;> rw [hl] at hpc <;> simp_all
  all_goals constructor <;> simp_all

theorem Taking.step (h : l.Taking xs x) : (l.step false (!x.2) x.1).Taking xs x := by
  obtain ⟨hgot, hpc⟩ := h
  cases hl : l.pc <;> rw [hl] at hpc <;> simp_all [Taking, Listener.step]

theorem Taking.holds (h : l.Taking xs x) (hndac : l.ndac = true) : l.Holds (xs ++ [x]) := by
  obtain ⟨hgot, hpc⟩ := h
  cases hl : l.pc <;> rw [hl] at hpc <;> simp_all
  refine ⟨hl, .inl hl, hpc.1, hpc.2.1, ?_⟩
  rw [hgot, hpc.2.2]

end Listener

variable {ι σ : Type} {ch : Channel σ} {s : σ} {w : Devices ι σ}

/-- How the devices agree: whether the bytes that the talker has counted were taken, and whether the next one is on the
bus. -/
inductive Agrees (ch : Channel σ) (s : σ) (w : Devices ι σ) : Prop
  /-- All listeners have accepted a byte that is still on the bus. -/
  | taken (pc : w.tx.pc = .davHigh ∧ ch.Sends s w.tx.sent w.tx.buf ∨
      (w.tx.pc = .endDav ∨ w.tx.pc = .left) ∧ ch.Ends s w.tx.sent)
      (dav : w.tx.dav = false)
      (rx : ∀ i, (w.rx i).Holds (ch.stream s w.tx.sent))
  /-- No byte is on the bus. -/
  | free (pc : (w.tx.pc = .davHigh ∨ w.tx.pc = .eoiHigh ∨ w.tx.pc = .waitNdac ∨ w.tx.pc = .waitNrfd) ∧
        ch.Sends s w.tx.sent w.tx.buf ∨
      (w.tx.pc = .endEoi ∨ w.tx.pc = .left) ∧ ch.Ends s w.tx.sent)
      (dav : w.tx.dav = true)
      (rx : ∀ i, (w.rx i).Between (w.tx.pc ≠ .waitNrfd ∧ Subsingleton ι) (ch.stream s w.tx.sent))
  /-- All listeners are ready, and the talker prepares a byte. -/
  | ready (pc : w.tx.pc = .checkReady ∨ w.tx.pc = .putEoi ∨
        (w.tx.pc = .putData ∨ (w.tx.pc = .checkData ∨ w.tx.pc = .davLow) ∧
          w.tx.data = (ch.cursor w.tx.buf).out.1) ∧ w.tx.eoi = !(ch.cursor w.tx.buf).out.2)
      (sends : ch.Sends s w.tx.sent w.tx.buf) (dav : w.tx.dav = true)
      (rx : ∀ i, (w.rx i).Ready (ch.stream s w.tx.sent))
  /-- A byte is on the bus. -/
  | valid (pc : w.tx.pc = .testNrfd ∨ w.tx.pc = .testNdac ∨ w.tx.pc = .waitAccept ∨
        (w.tx.pc = .next ∨ w.tx.pc = .dropDav) ∧ ∀ i, (w.rx i).ndac = true)
      (sends : ch.Sends s w.tx.sent w.tx.buf) (dav : w.tx.dav = false)
      (eoi : w.tx.eoi = !(ch.cursor w.tx.buf).out.2) (data : w.tx.data = (ch.cursor w.tx.buf).out.1)
      (rx : ∀ i, (w.rx i).Taking (ch.stream s w.tx.sent) (ch.cursor w.tx.buf).out)
  /-- The talker has given up, and the listeners have one byte more than it has counted. -/
  | dropped (pc : w.tx.pc = .dropEoi ∨ w.tx.pc = .gaveUp) (sends : ch.Sends s w.tx.sent w.tx.buf)
      (dav : w.tx.dav = true)
      (rx : ∀ i, (w.rx i).Between False (ch.stream s (w.tx.sent + 1)))

/-- The devices at the start of a transfer. -/
def Devices.start (ch : Channel σ) (s : σ) (rx : ι → Listener) : Devices ι σ := ⟨Talker.start ch s, rx⟩

theorem Agrees.start {rx : ι → Listener} (h : ∀ i, (rx i).Starts)
    (hndac : ∀ i, (rx i).ndac = false ∨ Subsingleton ι) :
    Agrees ch s (Devices.start ch s rx) := by
  have hidle : ∀ i, (rx i).Between (True ∧ Subsingleton ι) (ch.stream s 0) := by
    intro i
    refine .inr ⟨(h i).got, (hndac i).imp_right fun hone => ⟨trivial, hone⟩, ?_⟩
    rw [(h i).pc]
    exact ⟨(h i).nrfd, (h i).eoi⟩
  cases hread : (ch.cursor s).read with
  | true =>
    have hpc : (Devices.start ch s rx).tx.pc = .davHigh := if_pos hread
    refine .free (.inl ⟨.inl hpc, rfl, hread⟩) rfl fun i => (hidle i).mono fun h => ⟨?_, h.2⟩
    rw [hpc]
    nofun
  | false =>
    have hpc : (Devices.start ch s rx).tx.pc = .left := if_neg (by simp [hread])
    refine .free (.inr ⟨.inr hpc, Channel.ends_of_not_read (n := 0) rfl hread⟩) rfl fun i =>
      (hidle i).mono fun h => ⟨?_, h.2⟩
    rw [hpc]
    nofun

/-- The talker is at the byte that it has counted up to. -/
theorem Agrees.counted (h : Agrees ch s w) : ch.Sends s w.tx.sent w.tx.buf ∨
    (w.tx.pc = .endDav ∨ w.tx.pc = .endEoi ∨ w.tx.pc = .left) ∧ ch.Ends s w.tx.sent := by
  cases h with
  | taken pc => exact pc.imp And.right (And.imp_left (Or.imp_right .inr))
  | free pc => exact pc.imp And.right (And.imp_left .inr)
  | ready _ sends => exact .inl sends
  | valid _ sends => exact .inl sends
  | dropped _ sends => exact .inl sends

theorem Agrees.length (h : Agrees ch s w) : (ch.stream s w.tx.sent).length = w.tx.sent := by
  obtain sends | ⟨-, ends⟩ := h.counted
  · exact Channel.stream_length sends.state
  · exact ends.length

/-- What a listener has is the beginning of what the talker sends, up to the byte on the bus. -/
theorem Agrees.got (h : Agrees ch s w) (i : ι) :
    (w.rx i).got <+: ch.stream s w.tx.sent ∧ w.tx.sent ≤ (w.rx i).got.length + 1 ∨
      (w.tx.pc = .dropEoi ∨ w.tx.pc = .gaveUp) ∧ (w.rx i).got = ch.stream s (w.tx.sent + 1) := by
  have hlength := h.length
  have hidle : ∀ {P}, (w.rx i).Between P (ch.stream s w.tx.sent) →
      (w.rx i).got <+: ch.stream s w.tx.sent ∧ w.tx.sent ≤ (w.rx i).got.length + 1 := by
    intro P hi
    obtain haccepted | hidle := hi
    · rw [← haccepted.got, List.length_append, List.length_singleton] at hlength
      exact ⟨⟨_, haccepted.got⟩, hlength.ge⟩
    · rw [hidle.1, hlength]
      exact ⟨List.prefix_rfl, Nat.le_succ _⟩
  cases h with
  | taken pc dav rx => exact .inl (hidle (P := False) (.inl (rx i).2))
  | free pc dav rx => exact .inl (hidle (rx i))
  | ready pc sends dav rx =>
    rw [(rx i).got, hlength]
    exact .inl ⟨List.prefix_rfl, Nat.le_succ _⟩
  | valid pc sends dav eoi data rx =>
    rw [(rx i).1, hlength]
    exact .inl ⟨List.prefix_rfl, Nat.le_succ _⟩
  | dropped pc sends dav rx =>
    obtain haccepted | hidle := rx i
    · have hgot := haccepted.got
      rw [sends.stream_succ] at hgot
      rw [(List.append_inj_left' hgot rfl), hlength]
      exact .inl ⟨List.prefix_rfl, Nat.le_succ _⟩
    · exact .inr ⟨pc, hidle.1⟩

variable [Fintype ι]

/-- The bus while all listeners are ready, when there is one. -/
theorem Devices.ndac_of_ready [Nonempty ι] {xs : List (UInt8 × Bool)} (h : ∀ i, (w.rx i).Ready xs) : w.ndac = false := by
  rw [Devices.ndac, decide_eq_false_iff_not]
  intro hndac
  obtain ⟨i⟩ := ‹Nonempty ι›
  exact Bool.false_ne_true ((h i).ndac.symm.trans (hndac i))

variable [DecidableEq ι]

theorem Devices.rx_step_other (w : Devices ι σ) {i j : ι} (hne : j ≠ i) : (w.step ch (some i)).rx j = w.rx j :=
  Function.update_of_ne hne _ _

theorem Devices.rx_step_self (w : Devices ι σ) (i : ι) :
    (w.step ch (some i)).rx i = (w.rx i).step w.tx.dav w.tx.eoi w.tx.data := Function.update_self _ _ _

/-- A step of a listener that keeps what is known of it keeps what is known of all. -/
theorem Devices.step_listener (I : Listener → Prop) {i : ι} (h : ∀ j, I (w.rx j))
    (hstep : I (w.rx i) → I ((w.rx i).step w.tx.dav w.tx.eoi w.tx.data)) (j : ι) : I ((w.step ch (some i)).rx j) := by
  by_cases hji : j = i
  · subst hji
    rw [Devices.rx_step_self]
    exact hstep (h j)
  · rw [Devices.rx_step_other w hji]
    exact h j

/-- A step of a listener. -/
theorem Agrees.listener (h : Agrees ch s w) (i : ι) : Agrees ch s (w.step ch (some i)) := by
  cases h with
  | taken pc dav rx =>
    refine .taken pc dav (Devices.step_listener (Listener.Holds _) rx fun hi => ?_)
    rw [Listener.step, hi.1, dav]
    exact hi
  | free pc dav rx =>
    refine .free pc dav (Devices.step_listener (Listener.Between _ _) rx fun hi => ?_)
    rw [dav]
    exact hi.step
  | ready pc sends dav rx =>
    refine .ready pc sends dav (Devices.step_listener (Listener.Ready _) rx fun hi => ?_)
    rw [dav]
    exact hi.step
  | valid pc sends dav eoi data rx =>
    refine .valid ?_ sends dav eoi data (Devices.step_listener (Listener.Taking _ _) rx fun hi => ?_)
    · refine pc.imp_right (Or.imp_right (Or.imp_right (And.imp_right fun hndac => ?_)))
      refine Devices.step_listener (fun l => l.ndac = true) hndac fun hi => ?_
      rw [Listener.step, ((rx i).holds hi).1, dav]
      exact hi
    · rw [dav, eoi, data]
      exact hi.step
  | dropped pc sends dav rx =>
    refine .dropped pc sends dav (Devices.step_listener (Listener.Between _ _) rx fun hi => ?_)
    rw [dav]
    exact hi.step

theorem Devices.step_talker {t : Talker σ} (h : w.tx.step ch w.ndac w.nrfd = t) : w.step ch none = { w with tx := t } := by
  rw [Devices.step, h]

/-- The talker has seen that the byte on the bus was accepted. -/
theorem Agrees.next (pc : w.tx.pc = .next) (hndac : ∀ i, (w.rx i).ndac = true) (sends : ch.Sends s w.tx.sent w.tx.buf)
    (dav : w.tx.dav = false) (rx : ∀ i, (w.rx i).Taking (ch.stream s w.tx.sent) (ch.cursor w.tx.buf).out) :
    Agrees ch s (w.step ch none) := by
  have hheld : ∀ i, (w.rx i).Holds (ch.stream s (w.tx.sent + 1)) := by
    intro i
    rw [sends.stream_succ]
    exact (rx i).holds (hndac i)
  have hnext := sends.next
  cases hafter : ch.afterByte w.tx.buf with
  | more s' =>
    rw [Devices.step_talker (Talker.step_next pc), hafter]
    rw [hafter] at hnext
    cases hread : (ch.cursor s').read with
    | true => exact .taken (.inl ⟨if_pos hread, hnext, hread⟩) dav hheld
    | false => exact .taken (.inr ⟨.inr (if_neg (by simp [hread])), Channel.ends_of_not_read hnext hread⟩) dav hheld
  | stop s' =>
    rw [Devices.step_talker (Talker.step_next pc), hafter]
    exact .taken (.inr ⟨.inl rfl, sends.ends (by rw [hafter]; nofun)⟩) dav hheld
  | null =>
    rw [Devices.step_talker (Talker.step_next pc), hafter]
    exact .taken (.inr ⟨.inr rfl, sends.ends (by rw [hafter]; nofun)⟩) dav hheld

/-- A step of the talker. -/
theorem Agrees.talker [Nonempty ι] (h : Agrees ch s w) : Agrees ch s (w.step ch none) := by
  cases h with
  | taken pc dav rx =>
    have hbetween (P : Prop) (i : ι) : (w.rx i).Between P (ch.stream s w.tx.sent) := .inl (rx i).2
    obtain ⟨pc, sends⟩ | ⟨pc | pc, ends⟩ := pc
    · rw [Devices.step_talker (by rw [Talker.step, pc])]
      exact .free (.inl ⟨.inr (.inl rfl), sends⟩) rfl (hbetween _)
    · rw [Devices.step_talker (by rw [Talker.step, pc])]
      exact .free (.inr ⟨.inl rfl, ends⟩) rfl (hbetween _)
    · rw [Devices.step_talker (by rw [Talker.step, pc])]
      exact .taken (.inr ⟨.inr pc, ends⟩) dav rx
  | free pc dav rx =>
    obtain ⟨pc | pc | pc | pc, sends⟩ | ⟨pc | pc, ends⟩ := pc
    · rw [Devices.step_talker (by rw [Talker.step, pc])]
      exact .free (.inl ⟨.inr (.inl rfl), sends⟩) rfl fun i =>
        (rx i).mono fun h => ⟨(fun hpc => by cases hpc), h.2⟩
    · rw [Devices.step_talker (by rw [Talker.step, pc])]
      exact .free (.inl ⟨.inr (.inr (.inl rfl)), sends⟩) dav fun i =>
        (rx i).mono fun h => ⟨(fun hpc => by cases hpc), h.2⟩
    · cases hndac : w.ndac with
      | true =>
        rw [Devices.step_talker (by rw [Talker.step, pc, hndac, if_pos rfl])]
        exact .free (.inl ⟨.inr (.inr (.inl pc)), sends⟩) dav rx
      | false =>
        -- the listener that pulls NDAC low is the only one that may not have done so
        rw [Devices.step_talker (by rw [Talker.step, pc, hndac])]
        refine .free (.inl ⟨.inr (.inr (.inr rfl)), sends⟩) dav fun i => ?_
        rw [Devices.ndac, decide_eq_false_iff_not, not_forall] at hndac
        obtain ⟨j, hj⟩ := hndac
        refine (rx i).imp_right fun h => ⟨h.1, .inl ?_, h.2.2⟩
        obtain hlow | ⟨-, hone⟩ := h.2.1
        · exact hlow
        · rw [Subsingleton.elim i j]
          exact Bool.not_eq_true _ ▸ hj
    · cases hnrfd : w.nrfd with
      | false =>
        rw [Devices.step_talker (by rw [Talker.step, pc, hnrfd])]
        exact .free (.inl ⟨.inr (.inr (.inr pc)), sends⟩) dav rx
      | true =>
        rw [Devices.step_talker (by rw [Talker.step, pc, hnrfd])]
        rw [Devices.nrfd, decide_eq_true_iff] at hnrfd
        refine .ready (.inl rfl) sends dav fun i => ?_
        obtain haccepted | hidle := rx i
        · exact absurd (haccepted.nrfd.symm.trans (hnrfd i)) Bool.false_ne_true
        · exact (hidle.mono fun h => h.1 pc).ready (hnrfd i)
    · rw [Devices.step_talker (by rw [Talker.step, pc])]
      exact .free (.inr ⟨.inr rfl, ends⟩) dav fun i => (rx i).mono fun h => ⟨(fun hpc => by cases hpc), h.2⟩
    · rw [Devices.step_talker (by rw [Talker.step, pc])]
      exact .free (.inr ⟨.inr pc, ends⟩) dav rx
  | ready pc sends dav rx =>
    have hndac := Devices.ndac_of_ready rx
    obtain pc | pc | ⟨pc | ⟨pc | pc, data⟩, eoi⟩ := pc
    · rw [Devices.step_talker (by rw [Talker.step, pc, hndac])]
      exact .ready (.inr (.inl rfl)) sends dav rx
    · rw [Devices.step_talker (by rw [Talker.step, pc])]
      exact .ready (.inr (.inr ⟨.inl rfl, rfl⟩)) sends dav rx
    · rw [Devices.step_talker (by rw [Talker.step, pc])]
      exact .ready (.inr (.inr ⟨.inr ⟨.inl rfl, rfl⟩, eoi⟩)) sends dav rx
    · rw [Devices.step_talker (by rw [Talker.step, pc, hndac])]
      exact .ready (.inr (.inr ⟨.inr ⟨.inr rfl, data⟩, eoi⟩)) sends dav rx
    · rw [Devices.step_talker (by rw [Talker.step, pc])]
      exact .valid (.inl rfl) sends rfl eoi data fun i => (rx i).taking _
  | valid pc sends dav eoi data rx =>
    obtain pc | pc | pc | ⟨pc | pc, hndac⟩ := pc
    · cases hnrfd : w.nrfd with
      | true =>
        rw [Devices.step_talker (by rw [Talker.step, pc, hnrfd])]
        exact .valid (.inr (.inl rfl)) sends dav eoi data rx
      | false =>
        rw [Devices.step_talker (by rw [Talker.step, pc, hnrfd])]
        exact .valid (.inr (.inr (.inl rfl))) sends dav eoi data rx
    · cases hndac : w.ndac with
      | true =>
        rw [Devices.step_talker (by rw [Talker.step, pc, hndac])]
        exact .valid (.inr (.inr (.inr ⟨.inr rfl, of_decide_eq_true hndac⟩))) sends dav eoi data rx
      | false =>
        rw [Devices.step_talker (by rw [Talker.step, pc, hndac])]
        exact .valid (.inl rfl) sends dav eoi data rx
    · cases hndac : w.ndac with
      | true =>
        rw [Devices.step_talker (by rw [Talker.step, pc, hndac])]
        exact .valid (.inr (.inr (.inr ⟨.inl rfl, of_decide_eq_true hndac⟩))) sends dav eoi data rx
      | false =>
        rw [Devices.step_talker (by rw [Talker.step, pc, hndac])]
        exact .valid (.inr (.inr (.inl pc))) sends dav eoi data rx
    · exact .next pc hndac sends dav rx
    · rw [Devices.step_talker (by rw [Talker.step, pc])]
      refine .dropped (.inl rfl) sends rfl fun i => .inl ?_
      rw [sends.stream_succ]
      exact ((rx i).holds (hndac i)).2
  | dropped pc sends dav rx =>
    obtain pc | pc := pc
    · rw [Devices.step_talker (by rw [Talker.step, pc])]
      exact .dropped (.inr rfl) sends dav rx
    · rw [Devices.step_talker (by rw [Talker.step, pc])]
      exact .dropped (.inr pc) sends dav rx

/-- Any step. -/
theorem Agrees.step [Nonempty ι] (h : Agrees ch s w) (p : Option ι) : Agrees ch s (w.step ch p) := by
  cases p with
  | none => exact h.talker
  | some i => exact h.listener i

theorem Agrees.run [Nonempty ι] (h : Agrees ch s w) (schedule : List (Option ι)) : Agrees ch s (w.run ch schedule) := by
  induction schedule generalizing w with
  | nil => exact h
  | cons p schedule ih => exact ih (h.step p)

/-- A transfer neither loses nor repeats a byte, in whatever order the devices take their steps. -/
theorem transfer_safe {rx : ι → Listener} (h : ∀ i, (rx i).Starts) (hndac : ∀ i, (rx i).ndac = false ∨ Subsingleton ι)
    (schedule : List (Option ι)) :
    let w := (Devices.start ch s rx).run ch schedule
    ∀ i, (ch.Sends s w.tx.sent w.tx.buf ∨
        (w.tx.pc = .endDav ∨ w.tx.pc = .endEoi ∨ w.tx.pc = .left) ∧ ch.Ends s w.tx.sent) ∧
      ((w.rx i).got <+: ch.stream s w.tx.sent ∧ w.tx.sent ≤ (w.rx i).got.length + 1 ∨
        (w.tx.pc = .dropEoi ∨ w.tx.pc = .gaveUp) ∧ (w.rx i).got = ch.stream s (w.tx.sent + 1)) := by
  intro w i
  have : Nonempty ι := ⟨i⟩
  have hagrees : Agrees ch s w := (Agrees.start h hndac).run schedule
  exact ⟨hagrees.counted, hagrees.got i⟩

/-- A file of one buffer. -/
def lastBuffer : Channel Cursor where
  cursor := id
  store _ c := c
  markDirty := id
  refill c := (true, c)
  find := some
  command := false
  direct _ := false

def twoBytes : Cursor := ⟨fun i => [65, 66].getD i 0, 0, 1, 0, false, true, false, true⟩

/-- A listener as it is after the command that has addressed it. -/
def Listener.addressed : Listener := ⟨.nrfdHigh, false, true, false, 0, []⟩

/-- The talker and its listener take turns. -/
def toOne (n : ℕ) : Devices Unit Cursor :=
  (Devices.start lastBuffer twoBytes fun _ => .addressed).run lastBuffer (List.replicate n [none, some ()]).flatten

theorem toOne_safe : ((toOne 18).rx ()).got = [(65, false)] ∧
    ((toOne 18).rx ()).got <+: lastBuffer.stream twoBytes (toOne 18).tx.sent := by
  refine ⟨rfl, ?_⟩
  obtain ⟨-, ⟨hgot, -⟩ | ⟨hpc, -⟩⟩ := @transfer_safe Unit Cursor lastBuffer twoBytes _ _ (fun _ => .addressed)
    (fun _ => ⟨rfl, rfl, rfl, rfl⟩) (fun _ => .inr inferInstance) (List.replicate 18 [none, some ()]).flatten ()
  · exact hgot
  · exact absurd hpc (by decide)

end Bus.Handshake

end NoDiskEmu
