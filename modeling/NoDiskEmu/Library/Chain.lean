import Mathlib.Data.Finset.Card
import Mathlib.Data.List.Nodup
import Mathlib.Logic.Function.Basic

/-! Chains of cells in a table that holds a link for every cell, and ledgers of them: no cell is in two
chains. -/

namespace Library.Chain

variable {α ι : Type*}

/-- What a table holds for a cell. A cell that cannot be used, or has no place in the table, is bad. -/
inductive Link (α : Type*)
  | free
  | next (a : α)
  | last
  | bad
  deriving DecidableEq

/-- The cell is in use. -/
def Link.Taken (l : Link α) : Prop := (∃ a, l = .next a) ∨ l = .last

/-- The cells of a chain: each has the link to the one behind it. -/
def IsChain (t : α → Link α) : List α → Prop
  | [] => True
  | [a] => t a = .last
  | a :: b :: l => t a = .next b ∧ IsChain t (b :: l)

/-- The chains of several owners have no cell in common. -/
structure Ledger (t : α → Link α) (chains : ι → List α) : Prop where
  chain : ∀ i, IsChain t (chains i)
  apart : ∀ i j, i ≠ j → (chains i).Disjoint (chains j)

section Tables

variable [DecidableEq α]

/-- The free cell `b` goes to the end of a chain. -/
def grow (t : α → Link α) (l : List α) (b : α) : α → Link α :=
  match l.getLast? with
  | none => Function.update t b .last
  | some a => Function.update (Function.update t b .last) a (.next b)

/-- The cells of a chain are free again. -/
def clear (t : α → Link α) (l : List α) : α → Link α := fun a => if a ∈ l then .free else t a

/-- How many of the cells `s` are free. -/
def freeCount (s : Finset α) (t : α → Link α) : ℕ := (s.filter fun a => t a = .free).card

end Tables

variable {t t' : α → Link α} {a b : α} {l l' : List α} {chains : ι → List α} {i j : ι}

theorem IsChain.tail (h : IsChain t (a :: l)) : IsChain t l := by
  cases l with
  | nil => trivial
  | cons b l => exact h.2

theorem IsChain.congr (h : IsChain t l) (heq : ∀ a ∈ l, t' a = t a) : IsChain t' l := by
  induction l with
  | nil => trivial
  | cons a l ih =>
    have hrest := ih h.tail fun b hb => heq b (List.mem_cons_of_mem a hb)
    have ha := heq a List.mem_cons_self
    cases l with
    | nil => exact ha.trans h
    | cons b l => exact ⟨ha.trans h.1, hrest⟩

theorem IsChain.taken (h : IsChain t l) (ha : a ∈ l) : (t a).Taken := by
  induction l with
  | nil => exact absurd ha List.not_mem_nil
  | cons b l ih =>
    obtain rfl | ha := List.mem_cons.mp ha
    · cases l with
      | nil => exact .inr h
      | cons c l => exact .inl ⟨c, h.1⟩
    · exact ih h.tail ha

theorem Link.Taken.ne_free {l : Link α} (h : l.Taken) : l ≠ .free := by
  obtain ⟨a, rfl⟩ | rfl := h
  · exact nofun
  · exact nofun

/-- A chain is determined by its first cell. -/
theorem IsChain.unique (h : IsChain t (a :: l)) (h' : IsChain t (a :: l')) : l = l' := by
  induction l generalizing a l' with
  | nil =>
    cases l' with
    | nil => rfl
    | cons b l' => cases h.symm.trans h'.1
  | cons b l ih =>
    cases l' with
    | nil => cases h'.symm.trans h.1
    | cons b' l' =>
      obtain rfl : b = b' := by injection h.1.symm.trans h'.1
      rw [ih h.2 h'.2]

theorem IsChain.suffix (h : IsChain t (l' ++ l)) : IsChain t l := by
  induction l' with
  | nil => exact h
  | cons a l' ih => exact ih h.tail

/-- No chain comes to a cell twice: what follows the cell would follow itself. -/
theorem IsChain.nodup (h : IsChain t l) : l.Nodup := by
  induction l with
  | nil => exact List.nodup_nil
  | cons a l ih =>
    refine List.nodup_cons.mpr ⟨fun ha => ?_, ih h.tail⟩
    obtain ⟨xs, ys, rfl⟩ := List.append_of_mem ha
    have hagain : IsChain t (a :: ys) := h.tail.suffix
    have hlength := congrArg List.length (h.unique hagain)
    rw [List.length_append, List.length_cons] at hlength
    omega

theorem IsChain.last (h : IsChain t l) (hl : l.getLast? = some a) : t a = .last := by
  induction l with
  | nil => cases hl
  | cons b l ih =>
    cases l with
    | nil =>
      cases hl
      exact h
    | cons c l => exact ih h.2 hl

/-- A cell of a chain has the link to the next one, unless it is the last one. -/
theorem IsChain.link {k : ℕ} (h : IsChain t l) (ha : l[k]? = some a) :
    (∃ b, l[k + 1]? = some b ∧ t a = .next b) ∨ l.length = k + 1 ∧ l.getLast? = some a ∧ t a = .last := by
  induction l generalizing k with
  | nil => cases ha
  | cons b l ih =>
    cases l with
    | nil =>
      cases k with
      | zero =>
        cases ha
        exact .inr ⟨rfl, rfl, h⟩
      | succ k => cases ha
    | cons c l =>
      cases k with
      | zero =>
        cases ha
        exact .inl ⟨c, rfl, h.1⟩
      | succ k =>
        obtain hnext | ⟨hlength, hlast⟩ := ih h.2 ha
        · exact .inl hnext
        · exact .inr ⟨congrArg Nat.succ hlength, hlast⟩

/-- A chain goes on with another cell. -/
theorem IsChain.snoc (h : IsChain t l) (heq : ∀ c ∈ l, l.getLast? ≠ some c → t' c = t c)
    (hlast : ∀ c, l.getLast? = some c → t' c = .next b) (hb : t' b = .last) : IsChain t' (l ++ [b]) := by
  induction l with
  | nil => exact hb
  | cons a l ih =>
    cases l with
    | nil => exact ⟨hlast a rfl, hb⟩
    | cons c l =>
      have hne : (a :: c :: l).getLast? ≠ some a := fun hl => by
        cases h.1.symm.trans (h.last hl)
      refine ⟨(heq a List.mem_cons_self hne).trans h.1, ih h.2 (fun d hd => ?_) hlast⟩
      exact heq d (List.mem_cons_of_mem a hd)

variable [DecidableEq α]

theorem grow_of_ne {c : α} (hb : c ≠ b) (hl : l.getLast? ≠ some c) : grow t l b c = t c := by
  rw [grow]
  cases hlast : l.getLast? with
  | none => exact Function.update_of_ne hb ..
  | some a =>
    have hne : c ≠ a := fun heq => hl (heq ▸ hlast)
    dsimp only
    rw [Function.update_of_ne hne, Function.update_of_ne hb]

theorem grow_new (h : l.getLast? ≠ some b) : grow t l b b = .last := by
  rw [grow]
  cases hlast : l.getLast? with
  | none => exact Function.update_self ..
  | some a =>
    have hne : b ≠ a := fun heq => h (heq ▸ hlast)
    dsimp only
    rw [Function.update_of_ne hne, Function.update_self]

theorem grow_last (h : l.getLast? = some a) : grow t l b a = .next b := by
  rw [grow, h]
  exact Function.update_self ..

/-- Only the last cell of a chain counts. -/
theorem grow_congr (h : l.getLast? = l'.getLast?) : grow t l b = grow t l' b := by
  rw [grow, grow, h]

theorem clear_of_notMem (h : a ∉ l) : clear t l a = t a := if_neg h

theorem clear_of_mem (h : a ∈ l) : clear t l a = .free := if_pos h

/-- The cells of a chain can be freed one after the other. -/
theorem clear_cons : clear t (a :: l) = clear (Function.update t a .free) l := by
  funext b
  by_cases hb : b ∈ l
  · rw [clear_of_mem hb, clear_of_mem (List.mem_cons_of_mem a hb)]
  · rw [clear_of_notMem hb]
    by_cases hab : b = a
    · subst hab
      rw [clear_of_mem List.mem_cons_self, Function.update_self]
    · rw [Function.update_of_ne hab, clear_of_notMem (fun hmem => (List.mem_cons.mp hmem).elim hab hb)]

namespace Ledger

variable (h : Ledger t chains)

include h

omit [DecidableEq α] in
/-- A free cell is in no chain. -/
theorem notMem_of_free (hb : t b = .free) : b ∉ chains i :=
  fun hmem => ((h.chain i).taken hmem).ne_free hb

theorem grow [DecidableEq ι] (hb : t b = .free) :
    Ledger (grow t (chains i) b) (Function.update chains i (chains i ++ [b])) := by
  have hnot : ∀ j, b ∉ chains j := fun j => h.notMem_of_free hb
  have hlast : (chains i).getLast? ≠ some b := fun hl => hnot i (List.mem_of_getLast? hl)
  have hother : ∀ j, j ≠ i → ∀ c ∈ chains j, Chain.grow t (chains i) b c = t c := by
    intro j hj c hc
    refine grow_of_ne (fun heq => hnot j (heq ▸ hc)) fun hl => ?_
    exact h.apart j i hj hc (List.mem_of_getLast? hl)
  have hdisjoint : ∀ j, j ≠ i → (chains i ++ [b]).Disjoint (chains j) := by
    intro j hj c hc hcj
    obtain hc | hc := List.mem_append.mp hc
    · exact h.apart i j hj.symm hc hcj
    · exact hnot j (List.mem_singleton.mp hc ▸ hcj)
  constructor
  · intro j
    by_cases hj : j = i
    · subst hj
      rw [Function.update_self]
      refine (h.chain j).snoc (fun c hc hl => ?_) (fun c hl => grow_last hl) (grow_new hlast)
      exact grow_of_ne (fun heq => hnot j (heq ▸ hc)) hl
    · rw [Function.update_of_ne hj]
      exact (h.chain j).congr (hother j hj)
  · intro j k hjk
    by_cases hj : j = i
    · subst hj
      rw [Function.update_self, Function.update_of_ne hjk.symm]
      exact hdisjoint k hjk.symm
    · rw [Function.update_of_ne hj]
      by_cases hk : k = i
      · subst hk
        rw [Function.update_self]
        exact (hdisjoint j hj).symm
      · rw [Function.update_of_ne hk]
        exact h.apart j k hjk

theorem clear [DecidableEq ι] : Ledger (clear t (chains i)) (Function.update chains i []) := by
  constructor
  · intro j
    by_cases hj : j = i
    · subst hj
      rw [Function.update_self]
      trivial
    · rw [Function.update_of_ne hj]
      exact (h.chain j).congr fun c hc => clear_of_notMem fun hci => h.apart j i hj hc hci
  · intro j k hjk
    by_cases hj : j = i
    · subst hj
      rw [Function.update_self]
      exact fun c hc => absurd hc List.not_mem_nil
    · rw [Function.update_of_ne hj]
      by_cases hk : k = i
      · subst hk
        rw [Function.update_self]
        exact fun c _ hc => absurd hc List.not_mem_nil
      · rw [Function.update_of_ne hk]
        exact h.apart j k hjk

end Ledger

variable {s : Finset α}

theorem freeCount_congr (h : ∀ a ∈ s, t' a = .free ↔ t a = .free) : freeCount s t' = freeCount s t := by
  rw [freeCount, freeCount, Finset.filter_congr h]

/-- A free cell that is taken is no longer counted. -/
theorem freeCount_take (hb : b ∈ s) (hfree : t b = .free) (hb' : t' b ≠ .free)
    (h : ∀ a ∈ s, a ≠ b → (t' a = .free ↔ t a = .free)) : freeCount s t' + 1 = freeCount s t := by
  have hset : (s.filter fun a => t a = .free) = insert b (s.filter fun a => t' a = .free) := by
    ext a
    rw [Finset.mem_insert, Finset.mem_filter, Finset.mem_filter]
    by_cases hab : a = b
    · subst hab
      exact iff_of_true ⟨hb, hfree⟩ (.inl rfl)
    · constructor
      · exact fun ha => .inr ⟨ha.1, (h a ha.1 hab).mpr ha.2⟩
      · exact fun ha => ha.elim (absurd · hab) fun ha => ⟨ha.1, (h a ha.1 hab).mp ha.2⟩
  have hnot : b ∉ s.filter fun a => t' a = .free := fun hmem => hb' (Finset.mem_filter.mp hmem).2
  rw [freeCount, freeCount, hset, Finset.card_insert_of_notMem hnot]

theorem freeCount_grow (h : IsChain t l) (hb : b ∈ s) (hfree : t b = .free) :
    freeCount s (grow t l b) + 1 = freeCount s t := by
  have hlast : l.getLast? ≠ some b := fun hl => (h.taken (List.mem_of_getLast? hl)).ne_free hfree
  refine freeCount_take hb hfree (by rw [grow_new hlast]; exact nofun) fun a _ hab => ?_
  by_cases hl : l.getLast? = some a
  · rw [grow_last hl, h.last hl]
    exact iff_of_false nofun nofun
  · rw [grow_of_ne hab hl]

theorem freeCount_update (ha : a ∈ s) (h : t a ≠ .free) :
    freeCount s (Function.update t a .free) = freeCount s t + 1 := by
  refine (freeCount_take ha (Function.update_self ..) h fun b _ hb => ?_).symm
  rw [Function.update_of_ne hb]

end Library.Chain
