import NoDiskEmu.Buffers.Talk
import NoDiskEmu.Library.Memory

/-! What the listen loops put into a buffer before it is flushed. -/

namespace NoDiskEmu

open Library

namespace Cursor

variable {c : Cursor} {xs : List UInt8}

/-- The cursor after some bytes from the bus. -/
def puts (c : Cursor) (xs : List UInt8) : Cursor := xs.foldl put c

theorem puts_append (c : Cursor) (xs ys : List UInt8) : c.puts (xs ++ ys) = (c.puts xs).puts ys :=
  List.foldl_append

theorem puts_recordlen (c : Cursor) (xs : List UInt8) : (c.puts xs).recordlen = c.recordlen := by
  induction xs generalizing c with
  | nil => rfl
  | cons x xs ih => exact ih (c.put x)

theorem puts_write (c : Cursor) (xs : List UInt8) : (c.puts xs).write = c.write := by
  induction xs generalizing c with
  | nil => rfl
  | cons x xs ih => exact ih (c.put x)

theorem puts_position (h : c.position + xs.length ≤ 255) :
    (c.puts xs).position = c.position + xs.length := by
  induction xs generalizing c with
  | nil => rfl
  | cons x xs ih =>
    rw [List.length_cons] at h ⊢
    have hput : (c.put x).position = c.position + 1 := Nat.mod_eq_of_lt (by omega)
    have hrest := ih (c := c.put x) (by omega)
    rw [hput] at hrest
    exact hrest.trans (by omega)

theorem puts_mustflush (h : c.position + xs.length ≤ 255) :
    (c.puts xs).mustflush = c.mustflush := by
  induction xs generalizing c with
  | nil => rfl
  | cons x xs ih =>
    rw [List.length_cons] at h
    have hput : (c.put x).position = c.position + 1 := Nat.mod_eq_of_lt (by omega)
    have hrest := ih (c := c.put x) (by omega)
    refine hrest.trans ?_
    show (c.mustflush || decide ((c.position + 1) % 256 = 0)) = c.mustflush
    rw [decide_eq_false (by omega), Bool.or_false]

theorem puts_lastused (hc : c.lastused ≤ 255) (h : c.position + xs.length ≤ 256) :
    (c.puts xs).lastused ≤ 255 := by
  induction xs generalizing c with
  | nil => exact hc
  | cons x xs ih =>
    rw [List.length_cons] at h
    have hlast : (c.put x).lastused ≤ 255 := by
      show (if c.lastused < c.position then c.position else c.lastused) ≤ 255
      split <;> omega
    have hpos : (c.put x).position ≤ c.position + 1 := Nat.mod_le _ _
    exact ih hlast (by omega)

/-- The bytes are in the buffer from the position on. -/
theorem puts_data (h : c.position + xs.length ≤ 256) :
    (c.puts xs).data = Memory.write c.data c.position xs.length fun i => xs.getD i 0 := by
  induction xs generalizing c with
  | nil => exact (Memory.write_same fun i hi => absurd hi (by simp)).symm
  | cons x xs ih =>
    rw [List.length_cons] at h
    have hput : xs ≠ [] → (c.put x).position = c.position + 1 := by
      intro hnil
      have hlen : 0 < xs.length := List.length_pos_iff.mpr hnil
      exact Nat.mod_eq_of_lt (by omega)
    have hle : (c.put x).position ≤ c.position + 1 := Nat.mod_le _ _
    have hrest := ih (c := c.put x) (by omega)
    refine hrest.trans ?_
    funext o
    have hfirst : Memory.write c.data c.position (xs.length + 1) (fun i => (x :: xs).getD i 0)
        (c.position + 0) = x := Memory.write_inside (Nat.succ_pos _)
    by_cases ho : c.position + 1 ≤ o ∧ o < c.position + 1 + xs.length
    · have hnil : xs ≠ [] := by
        intro hnil
        rw [hnil, List.length_nil] at ho
        omega
      rw [hput hnil, Memory.write, if_pos ho, Memory.write, if_pos (by rw [List.length_cons]; omega),
        show o - c.position = o - (c.position + 1) + 1 by omega, List.getD_cons_succ]
    · rw [Memory.write, if_neg ?_]
      · show Function.update c.data c.position x o = _
        by_cases heq : o = c.position
        · rw [heq, Function.update_self]
          exact hfirst.symm
        · rw [Function.update_of_ne heq, Memory.write_outside (by rw [List.length_cons]; omega)]
      · intro hin
        by_cases hnil : xs = []
        · rw [hnil, List.length_nil] at hin
          omega
        · rw [hput hnil] at hin
          exact ho hin

/-- The last byte of a full buffer sets `mustflush`. -/
theorem puts_full (h : c.position + xs.length = 256) (hxs : xs ≠ []) (hc : c.lastused ≤ 255) :
    (c.puts xs).mustflush = true ∧ (c.puts xs).lastused = 255 := by
  obtain ⟨ys, y, rfl⟩ := (List.eq_nil_or_concat' xs).resolve_left hxs
  rw [List.length_append, List.length_singleton] at h
  have hpos : (c.puts ys).position = c.position + ys.length := puts_position (by omega)
  have hlast : (c.puts ys).lastused ≤ 255 := puts_lastused hc (by omega)
  rw [puts_append]
  constructor
  · show ((c.puts ys).mustflush || decide (((c.puts ys).position + 1) % 256 = 0)) = true
    rw [hpos, decide_eq_true (by omega), Bool.or_true]
  · show (if (c.puts ys).lastused < (c.puts ys).position then (c.puts ys).position
      else (c.puts ys).lastused) = 255
    rw [hpos]
    split <;> omega

end Cursor

/-- The state after a round of a loop has the property. -/
def Outcome.All {σ : Type} (I : σ → Prop) : Outcome σ → Prop
  | .more s => I s
  | .stop s => I s
  | .null => True

namespace Channel

variable {σ : Type} {ch : Channel σ} {s : σ}

/-- The state after some bytes went into the buffer. -/
def stored (ch : Channel σ) (s : σ) (xs : List UInt8) : σ :=
  xs.foldl (fun s x => ch.markDirty (ch.store s ((ch.cursor s).put x))) s

/-- The cursor is what was stored, also in a buffer that is dirty. -/
structure Marks (ch : Channel σ) : Prop extends Lawful ch where
  cursor_markDirty : ∀ s, ch.cursor (ch.markDirty s) = ch.cursor s

/-- A transfer into a record is flushed with its last byte. -/
theorem listenBytes_record (hl : ch.Marks) {xs : List UInt8} (hxs : xs ≠ [])
    (hrecord : (ch.cursor s).recordlen ≠ 0) (hflush : (ch.cursor s).mustflush = false)
    (hlen : (ch.cursor s).position + xs.length ≤ 256) :
    ch.listenBytes s (withEoi xs) =
      (let r := ch.refill (ch.stored s xs)
      if r.1 then .stop r.2 else .more r.2) := by
  induction xs generalizing s with
  | nil => exact absurd rfl hxs
  | cons x xs ih =>
    have hcursor : ch.cursor (ch.markDirty (ch.store s ((ch.cursor s).put x))) = (ch.cursor s).put x := by
      rw [hl.cursor_markDirty, hl.cursor_store]
    have hbyte : ∀ eoi, ch.listenByte s x eoi = ch.storeByte s x eoi := by
      intro eoi
      rw [listenByte, if_neg (by simp [hflush])]
    rw [List.length_cons] at hlen
    by_cases hnil : xs = []
    · subst hnil
      have hrecord' : (ch.cursor (ch.markDirty (ch.store s ((ch.cursor s).put x)))).recordlen ≠ 0 := by
        rw [hcursor]
        exact hrecord
      rw [withEoi, listenBytes, hbyte, storeByte]
      dsimp only
      rw [if_pos ⟨hrecord', rfl⟩]
      have hstored : ch.markDirty (ch.store s ((ch.cursor s).put x)) = ch.stored s [x] := rfl
      rw [hstored]
      cases (ch.refill (ch.stored s [x])).1 with
      | true => rfl
      | false => rfl
    · have hlt : 0 < xs.length := List.length_pos_iff.mpr hnil
      have hput : ((ch.cursor s).put x).position = (ch.cursor s).position + 1 :=
        Nat.mod_eq_of_lt (by omega)
      have hstore : ch.storeByte s x false =
          .more (ch.markDirty (ch.store s ((ch.cursor s).put x))) := by
        rw [storeByte]
        exact if_neg fun hboth => Bool.false_ne_true hboth.2
      rw [withEoi_cons hnil, listenBytes, hbyte, hstore]
      refine ih hnil ?_ ?_ ?_
      · rw [hcursor]
        exact hrecord
      · rw [hcursor]
        have hone : ((ch.cursor s).puts [x]).mustflush = (ch.cursor s).mustflush :=
          Cursor.puts_mustflush (by rw [List.length_singleton]; omega)
        exact hone.trans hflush
      · rw [hcursor, hput]
        omega

/-! ### What the loops keep -/

/-- What the loops do with a channel keeps a property of its state. -/
structure Keeps (ch : Channel σ) (I : σ → Prop) : Prop where
  store : ∀ {s c}, I s → c.recordlen = (ch.cursor s).recordlen → I (ch.store s c)
  markDirty : ∀ {s}, I s → I (ch.markDirty s)
  refill : ∀ {s}, I s → I (ch.refill s).2
  find : ∀ {s s'}, I s → ch.find s = some s' → I s'

namespace Keeps

variable {I : σ → Prop}

theorem refillFind (h : ch.Keeps I) (hs : I s) : (ch.refillFind s).All I := by
  rw [Channel.refillFind]
  split
  · exact h.refill hs
  · split
    · next hfind => exact h.find (h.refill hs) hfind
    · trivial

theorem storeByte (h : ch.Keeps I) (hs : I s) (x : UInt8) (eoi : Bool) : (ch.storeByte s x eoi).All I := by
  have hput : I (ch.markDirty (ch.store s ((ch.cursor s).put x))) := h.markDirty (h.store hs rfl)
  rw [Channel.storeByte]
  dsimp only
  split
  · split
    · exact h.refill hput
    · exact h.refill hput
  · exact hput

theorem listenByte (h : ch.Keeps I) (hs : I s) (x : UInt8) (eoi : Bool) : (ch.listenByte s x eoi).All I := by
  rw [Channel.listenByte]
  split
  · have hrefill := h.refillFind hs
    split
    · next hmore =>
      rw [hmore] at hrefill
      exact h.storeByte hrefill x eoi
    · exact hrefill
  · exact h.storeByte hs x eoi

theorem listenBytes (h : ch.Keeps I) (hs : I s) (xs : List (UInt8 × Bool)) : (ch.listenBytes s xs).All I := by
  induction xs generalizing s with
  | nil => exact hs
  | cons x xs ih =>
    have hbyte := h.listenByte hs x.1 x.2
    rw [Channel.listenBytes]
    split
    · next hmore =>
      rw [hmore] at hbyte
      exact ih hbyte
    · exact hbyte

theorem listenLoop (h : ch.Keeps I) (hs : I s) (xs : List (UInt8 × Bool)) : (ch.listenLoop s xs).All I := by
  rw [Channel.listenLoop]
  split
  · exact hs
  · next hfind =>
    have hfound := h.find hs hfind
    split
    · exact h.listenBytes hfound xs
    · exact hfound

theorem afterByte (h : ch.Keeps I) (hs : I s) : (ch.afterByte s).All I := by
  have hsent : I (ch.store s (ch.cursor s).sent) := h.store hs rfl
  rw [Channel.afterByte]
  dsimp only
  split
  · exact hsent
  split
  · exact h.store hsent rfl
  · exact h.refillFind hsent

theorem talkBytes (h : ch.Keeps I) (hs : I s) (n : ℕ) : (ch.talkBytes s n).2.All I := by
  induction n generalizing s with
  | zero => exact hs
  | succ n ih =>
    have hafter := h.afterByte hs
    rw [Channel.talkBytes]
    split
    · dsimp only
      split
      · next hmore =>
        rw [hmore] at hafter
        exact ih hafter
      · exact hafter
    · exact hs

theorem talkLoop (h : ch.Keeps I) (hs : I s) (n : ℕ) : (ch.talkLoop s n).2.All I := by
  rw [Channel.talkLoop]
  split
  · exact hs
  · next hfind => exact h.talkBytes (h.find hs hfind) n

end Keeps

end Channel

end NoDiskEmu
