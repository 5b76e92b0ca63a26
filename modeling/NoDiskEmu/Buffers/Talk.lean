import NoDiskEmu.Buffers.Loops

/-! What the talk loops send of a buffer that a callback has filled. -/

namespace NoDiskEmu

/-- The bytes `data[position..lastused]`. -/
def Cursor.fill (c : Cursor) : List UInt8 :=
  (List.range (c.lastused + 1 - c.position)).map fun i => c.data (c.position + i)

/-- The bytes of a transfer, of which the last one comes with EOI. -/
def withEoi : List UInt8 → List (UInt8 × Bool)
  | [] => []
  | [x] => [(x, true)]
  | x :: y :: xs => (x, false) :: withEoi (y :: xs)

/-- The bytes of a fill: the last one comes with EOI if `sendeoi` is set. -/
def Cursor.tagged (c : Cursor) : List (UInt8 × Bool) :=
  if c.sendeoi then withEoi c.fill else c.fill.map fun x => (x, false)

/-- The cursor after the last byte of a fill. -/
def Cursor.spent (c : Cursor) : Cursor := { c with position := (c.lastused + 1) % 256 }

theorem withEoi_cons {x : UInt8} {xs : List UInt8} (h : xs ≠ []) :
    withEoi (x :: xs) = (x, false) :: withEoi xs := by
  cases xs with
  | nil => exact absurd rfl h
  | cons y xs => rfl

theorem withEoi_append {xs ys : List UInt8} (h : ys ≠ []) :
    withEoi (xs ++ ys) = xs.map (fun x => (x, false)) ++ withEoi ys := by
  induction xs with
  | nil => rfl
  | cons x xs ih =>
    rw [List.cons_append, withEoi_cons (by simp [h]), ih]
    rfl

@[simp]
theorem withEoi_length (xs : List UInt8) : (withEoi xs).length = xs.length := by
  induction xs with
  | nil => rfl
  | cons x xs ih =>
    cases xs with
    | nil => rfl
    | cons y xs => exact congrArg (· + 1) ih

theorem withEoi_drop (xs : List UInt8) (n : ℕ) : (withEoi xs).drop n = withEoi (xs.drop n) := by
  induction n generalizing xs with
  | zero => rfl
  | succ n ih =>
    cases xs with
    | nil => rfl
    | cons x xs =>
      cases xs with
      | nil => cases n <;> rfl
      | cons y xs => exact ih (y :: xs)

namespace Cursor

variable {c : Cursor}

theorem fill_of_eq (h : c.position = c.lastused) : c.fill = [c.data c.position] := by
  rw [fill, h, Nat.add_sub_cancel_left]
  rfl

theorem fill_of_lt (h : c.position < c.lastused) (hlast : c.lastused ≤ 255) :
    c.fill = c.data c.position :: c.sent.fill := by
  have hpos : (c.position + 1) % 256 = c.position + 1 := Nat.mod_eq_of_lt (by omega)
  rw [fill, fill, sent]
  dsimp only
  rw [hpos, show c.lastused + 1 - c.position = c.lastused + 1 - (c.position + 1) + 1 by omega,
    List.range_succ_eq_map, List.map_cons, List.map_map]
  congr 1
  apply List.map_congr_left
  intro i _
  exact congrArg c.data (by omega)

theorem fill_length (h : c.position ≤ c.lastused) : c.fill.length = c.lastused - c.position + 1 := by
  rw [fill, List.length_map, List.length_range]
  omega

theorem fill_ne_nil (h : c.position ≤ c.lastused) : c.fill ≠ [] := by
  rw [← List.length_pos_iff, fill_length h]
  omega

end Cursor

namespace Channel

variable {σ : Type} {ch : Channel σ} {s : σ}

/-- What is stored is what the loops see. -/
structure Lawful (ch : Channel σ) : Prop where
  cursor_store : ∀ s c, ch.cursor (ch.store s c) = c
  store_store : ∀ s c c', ch.store (ch.store s c) c' = ch.store s c'
  direct_store : ∀ s c, ch.direct (ch.store s c) = ch.direct s

/-- What follows the last byte of a fill. -/
def afterFill (ch : Channel σ) (s : σ) : Outcome σ :=
  let c := (ch.cursor s).spent
  if c.sendeoi ∧ ¬ch.command ∧ c.recordlen = 0 ∧ ¬ch.direct s then
    .stop (ch.store s { c with read := false })
  else ch.refillFind (ch.store s c)

theorem afterByte_of_lt (h : (ch.cursor s).position < (ch.cursor s).lastused) :
    ch.afterByte s = .more (ch.store s (ch.cursor s).sent) := if_pos h

theorem afterByte_of_eq (hl : ch.Lawful) (h : (ch.cursor s).position = (ch.cursor s).lastused) :
    ch.afterByte s = ch.afterFill s := by
  rw [afterByte, afterFill]
  dsimp only
  rw [if_neg (by omega), hl.direct_store, hl.cursor_store, hl.store_store]
  have hsent : (ch.cursor s).sent = (ch.cursor s).spent := by
    rw [Cursor.sent, Cursor.spent, h]
  rw [hsent]
  rfl

theorem talkBytes_succ (hread : (ch.cursor s).read = true) (n : ℕ) :
    ch.talkBytes s (n + 1) =
      let rest := match ch.afterByte s with
        | .more s => ch.talkBytes s n
        | r => ([], r)
      ((ch.cursor s).out :: rest.1, rest.2) := by
  rw [talkBytes]
  exact if_pos hread

/-- The rest of a transfer after a fill. -/
def afterTalk (ch : Channel σ) (s : σ) (n : ℕ) : List (UInt8 × Bool) × Outcome σ :=
  match ch.afterFill s with
  | .more s => ch.talkBytes s n
  | r => ([], r)

/-- The loops send the bytes of a fill, all of them and nothing else, and EOI with the last one. -/
theorem talkBytes_fill (hl : ch.Lawful) (hread : (ch.cursor s).read = true)
    (hle : (ch.cursor s).position ≤ (ch.cursor s).lastused) (hlast : (ch.cursor s).lastused ≤ 255)
    (n : ℕ) :
    ch.talkBytes s ((ch.cursor s).fill.length + n) =
      ((ch.cursor s).tagged ++ (ch.afterTalk s n).1, (ch.afterTalk s n).2) := by
  induction hd : (ch.cursor s).lastused - (ch.cursor s).position generalizing s with
  | zero =>
    have heq : (ch.cursor s).position = (ch.cursor s).lastused := by omega
    rw [Cursor.fill_length hle, hd, Nat.zero_add, Nat.add_comm, talkBytes_succ hread,
      afterByte_of_eq hl heq, Cursor.tagged, Cursor.fill_of_eq heq]
    have hout : (ch.cursor s).out = ((ch.cursor s).data (ch.cursor s).position, (ch.cursor s).sendeoi) := by
      rw [Cursor.out, decide_eq_true heq, Bool.true_and]
    rw [hout]
    cases (ch.cursor s).sendeoi <;> rfl
  | succ d ih =>
    have hlt : (ch.cursor s).position < (ch.cursor s).lastused := by omega
    have hpos : ((ch.cursor s).position + 1) % 256 = (ch.cursor s).position + 1 :=
      Nat.mod_eq_of_lt (by omega)
    have hfill := Cursor.fill_of_lt hlt hlast
    have hlaw := hl.cursor_store s (ch.cursor s).sent
    have hsent : (ch.cursor s).sent.position = (ch.cursor s).position + 1 := hpos
    have hrest := ih (s := ch.store s (ch.cursor s).sent) (by rw [hlaw]; exact hread)
      (by rw [hlaw, hsent]; exact hlt) (by rw [hlaw]; exact hlast)
      (by rw [hlaw, hsent]; show (ch.cursor s).lastused - _ = d; omega)
    have hafter : ch.afterTalk (ch.store s (ch.cursor s).sent) n = ch.afterTalk s n := by
      rw [afterTalk, afterTalk, afterFill, afterFill, hl.direct_store, hlaw, hl.store_store,
        hl.store_store]
      rfl
    have hne : (ch.cursor s).sent.fill ≠ [] := Cursor.fill_ne_nil (by rw [hsent]; exact hlt)
    have hout : (ch.cursor s).out = ((ch.cursor s).data (ch.cursor s).position, false) := by
      rw [Cursor.out, decide_eq_false (by omega), Bool.false_and]
    have htag : (ch.cursor s).tagged =
        ((ch.cursor s).data (ch.cursor s).position, false) :: (ch.cursor s).sent.tagged := by
      rw [Cursor.tagged, Cursor.tagged, hfill]
      show (if (ch.cursor s).sendeoi then _ else _) = _ :: (if (ch.cursor s).sendeoi then _ else _)
      split
      · exact withEoi_cons hne
      · rfl
    rw [hlaw, hafter] at hrest
    rw [hfill, List.length_cons, Nat.add_right_comm, talkBytes_succ hread, afterByte_of_lt hlt, hout,
      htag]
    dsimp only
    rw [hrest]
    rfl

/-- A shorter transfer is the beginning of a longer one. -/
theorem talkBytes_take (s : σ) (n m : ℕ) :
    (ch.talkBytes s n).1 = (ch.talkBytes s (n + m)).1.take n := by
  induction n generalizing s with
  | zero => rw [List.take_zero, talkBytes]
  | succ n ih =>
    rw [Nat.add_right_comm, talkBytes, talkBytes]
    split
    · cases hafter : ch.afterByte s with
      | more s' =>
        dsimp only
        rw [List.take_succ_cons, ih s']
      | stop s' => exact (List.take_succ_cons.trans (congrArg _ List.take_nil)).symm
      | null => exact (List.take_succ_cons.trans (congrArg _ List.take_nil)).symm
    · rfl

/-- A channel that delivers `xs` with EOI on the last byte: its fills follow one another, and only the
last one has `sendeoi` set. -/
inductive Delivers (ch : Channel σ) : σ → List UInt8 → Prop
  | last {s : σ} (read : (ch.cursor s).read = true)
      (le : (ch.cursor s).position ≤ (ch.cursor s).lastused) (lt : (ch.cursor s).lastused ≤ 255)
      (eoi : (ch.cursor s).sendeoi = true) (stop : ∃ s', ch.afterFill s = .stop s') :
      Delivers ch s (ch.cursor s).fill
  | more {s s' : σ} {xs : List UInt8} (read : (ch.cursor s).read = true)
      (le : (ch.cursor s).position ≤ (ch.cursor s).lastused) (lt : (ch.cursor s).lastused ≤ 255)
      (eoi : (ch.cursor s).sendeoi = false) (next : ch.afterFill s = .more s')
      (rest : Delivers ch s' xs) : Delivers ch s ((ch.cursor s).fill ++ xs)

theorem Delivers.ne_nil {xs : List UInt8} (h : ch.Delivers s xs) : xs ≠ [] := by
  cases h with
  | last _ le _ _ _ => exact Cursor.fill_ne_nil le
  | more _ le _ _ _ _ =>
    intro hnil
    exact Cursor.fill_ne_nil le (List.append_eq_nil_iff.mp hnil).1

/-- The first byte of what a channel delivers: the loop goes on with the rest, from this fill or from
the next one, or stops after the last byte. -/
theorem Delivers.byte {xs : List UInt8} (hl : ch.Lawful) (h : ch.Delivers s xs) :
    (ch.cursor s).read = true ∧
      ((xs.length = 1 ∧ ch.afterByte s = ch.afterFill s ∧ (ch.cursor s).sendeoi = true) ∨
        (1 < xs.length ∧ ∃ s', ch.afterByte s = .more s' ∧ ch.Delivers s' xs.tail ∧
          (s' = ch.store s (ch.cursor s).sent ∨
            (ch.cursor s).sendeoi = false ∧ ch.afterFill s = .more s'))) := by
  have hsent : (ch.cursor s).position < (ch.cursor s).lastused → (ch.cursor s).lastused ≤ 255 →
      (ch.cursor (ch.store s (ch.cursor s).sent)).position = (ch.cursor s).position + 1 := by
    intro hlt hlast
    rw [hl.cursor_store]
    exact Nat.mod_eq_of_lt (by omega)
  have hafter : ch.afterFill (ch.store s (ch.cursor s).sent) = ch.afterFill s := by
    rw [afterFill, afterFill, hl.direct_store, hl.cursor_store, hl.store_store, hl.store_store]
    rfl
  cases h with
  | last read le lt eoi stop =>
    refine ⟨read, ?_⟩
    rcases Nat.eq_or_lt_of_le le with heq | hlt
    · exact .inl ⟨by rw [Cursor.fill_of_eq heq]; rfl, afterByte_of_eq hl heq, eoi⟩
    · have hrest : ch.Delivers (ch.store s (ch.cursor s).sent)
          (ch.cursor (ch.store s (ch.cursor s).sent)).fill :=
        .last (by rw [hl.cursor_store]; exact read)
          (by rw [hsent hlt lt, hl.cursor_store]; exact hlt)
          (by rw [hl.cursor_store]; exact lt) (by rw [hl.cursor_store]; exact eoi)
          (by rw [hafter]; exact stop)
      rw [hl.cursor_store] at hrest
      refine .inr ⟨?_, _, afterByte_of_lt hlt, ?_, .inl rfl⟩
      · rw [Cursor.fill_length le]
        omega
      · rw [Cursor.fill_of_lt hlt lt]
        exact hrest
  | @more _ s' xs read le lt eoi next rest =>
    refine ⟨read, .inr ?_⟩
    have hne := List.length_pos_iff.mpr rest.ne_nil
    refine ⟨by rw [List.length_append, Cursor.fill_length le]; omega, ?_⟩
    rcases Nat.eq_or_lt_of_le le with heq | hlt
    · refine ⟨s', (afterByte_of_eq hl heq).trans next, ?_, .inr ⟨eoi, next⟩⟩
      rw [Cursor.fill_of_eq heq]
      exact rest
    · have hrest : ch.Delivers (ch.store s (ch.cursor s).sent)
          ((ch.cursor (ch.store s (ch.cursor s).sent)).fill ++ xs) :=
        .more (by rw [hl.cursor_store]; exact read)
          (by rw [hsent hlt lt, hl.cursor_store]; exact hlt)
          (by rw [hl.cursor_store]; exact lt) (by rw [hl.cursor_store]; exact eoi)
          (by rw [hafter]; exact next) rest
      rw [hl.cursor_store] at hrest
      refine ⟨_, afterByte_of_lt hlt, ?_, .inl rfl⟩
      rw [Cursor.fill_of_lt hlt lt]
      exact hrest

/-- What a channel delivers is what the loops send. -/
theorem Delivers.talkBytes {xs : List UInt8} (hl : ch.Lawful) (h : ch.Delivers s xs) (n : ℕ) :
    (ch.talkBytes s (xs.length + n)).1 = withEoi xs := by
  induction h generalizing n with
  | @last s read le lt eoi stop =>
    obtain ⟨s', hstop⟩ := stop
    rw [talkBytes_fill hl read le lt, afterTalk, hstop, Cursor.tagged, if_pos eoi]
    exact List.append_nil _
  | @more s s' xs read le lt eoi next rest ih =>
    rw [List.length_append, Nat.add_assoc, talkBytes_fill hl read le lt, afterTalk, next,
      withEoi_append rest.ne_nil, Cursor.tagged, if_neg (by simp [eoi])]
    dsimp only
    rw [ih]

theorem Delivers.talkBytes_take {xs : List UInt8} (hl : ch.Lawful) (h : ch.Delivers s xs) (n : ℕ) :
    (ch.talkBytes s n).1 = (withEoi xs).take n := by
  rw [Channel.talkBytes_take s n xs.length, Nat.add_comm, h.talkBytes hl]

end Channel

end NoDiskEmu
