import Mathlib.Data.List.Basic
import Mathlib.Data.List.GetD
import Mathlib.Data.List.Range

/-! Lists of slots: a slot past the end is put there behind blank ones. -/

namespace Library.Slots

variable {α : Type*} {blank : α}

def put (blank : α) (xs : List α) (k : ℕ) (x : α) : List α :=
  if k < xs.length then xs.set k x else xs ++ List.replicate (k - xs.length) blank ++ [x]

def puts (blank : α) (xs : List α) (ws : List (ℕ × α)) : List α :=
  ws.foldl (fun xs w => put blank xs w.1 w.2) xs

/-- What was put to slot `i` last. -/
def last (ws : List (ℕ × α)) (i : ℕ) : Option α :=
  ((ws.filter fun w => w.1 = i).map Prod.snd).getLast?

/-- The number of slots after all of `ws` was put to `n` slots. -/
def count (n : ℕ) (ws : List (ℕ × α)) : ℕ := (ws.map fun w => w.1 + 1).foldl max n

theorem length_put (xs : List α) (k : ℕ) (x : α) :
    (put blank xs k x).length = max xs.length (k + 1) := by
  rw [put]
  split
  · rw [List.length_set]
    omega
  · simp only [List.length_append, List.length_replicate, List.length_singleton]
    omega

theorem getD_put (xs : List α) (k i : ℕ) (x : α) :
    (put blank xs k x).getD i blank = if i = k then x else xs.getD i blank := by
  rw [put]
  simp only [List.getD_eq_getElem?_getD]
  split
  · next hk =>
    rw [List.getElem?_set]
    by_cases hi : i = k
    · rw [if_pos hi.symm, if_pos hi, if_pos (hi ▸ hk)]
      rfl
    · rw [if_neg (Ne.symm hi), if_neg hi]
  · next hk =>
    by_cases hlow : i < xs.length
    · rw [List.append_assoc, List.getElem?_append_left hlow, if_neg (by omega)]
    · have hnone : xs[i]? = none := List.getElem?_eq_none (by omega)
      rw [List.append_assoc, List.getElem?_append_right (by omega), hnone]
      by_cases hmid : i < k
      · rw [List.getElem?_append_left (by simp; omega), List.getElem?_replicate, if_pos (by omega),
          if_neg (by omega)]
        rfl
      · rw [List.getElem?_append_right (by simp; omega), List.length_replicate,
          List.getElem?_singleton]
        by_cases hi : i = k
        · rw [if_pos (by omega), if_pos hi]
          rfl
        · rw [if_neg (by omega), if_neg hi]

theorem length_puts (xs : List α) (ws : List (ℕ × α)) :
    (puts blank xs ws).length = count xs.length ws := by
  induction ws generalizing xs with
  | nil => rfl
  | cons w ws ih =>
    rw [puts, List.foldl_cons]
    exact (ih _).trans (by rw [length_put]; rfl)

theorem last_cons_getD (w : ℕ × α) (ws : List (ℕ × α)) (i : ℕ) (x : α) :
    (last (w :: ws) i).getD x = (last ws i).getD (if i = w.1 then w.2 else x) := by
  by_cases hi : i = w.1
  · rw [last, List.filter_cons_of_pos (by simpa using hi.symm), List.map_cons, List.getLast?_cons,
      if_pos hi]
    rfl
  · rw [last, List.filter_cons_of_neg (by simpa using Ne.symm hi), if_neg hi]
    rfl

theorem getD_puts (xs : List α) (ws : List (ℕ × α)) (i : ℕ) :
    (puts blank xs ws).getD i blank = (last ws i).getD (xs.getD i blank) := by
  induction ws generalizing xs with
  | nil => rfl
  | cons w ws ih =>
    rw [puts, List.foldl_cons, last_cons_getD]
    exact (ih _).trans (by rw [getD_put])

/-- A slot holds what was put to it last; a slot that nothing was put to keeps its contents, and is
blank when it had none. -/
theorem puts_eq (xs : List α) (ws : List (ℕ × α)) :
    puts blank xs ws =
      (List.range (count xs.length ws)).map fun i => (last ws i).getD (xs.getD i blank) := by
  apply List.ext_getElem
  · rw [length_puts, List.length_map, List.length_range]
  · intro i hi _
    rw [← List.getD_eq_getElem _ blank hi, getD_puts, List.getElem_map, List.getElem_range]

/-! ### Slots of one length -/

variable {xs : List (List α)} {r k : ℕ}

theorem length_flatten (h : ∀ x ∈ xs, x.length = r) : xs.flatten.length = xs.length * r := by
  induction xs with
  | nil => simp
  | cons x xs ih =>
    rw [List.flatten_cons, List.length_append, h x List.mem_cons_self,
      ih fun y hy => h y (List.mem_cons_of_mem _ hy), List.length_cons, Nat.succ_mul, Nat.add_comm]

/-- Slot `k` lies behind `k` others. -/
theorem flatten_split (h : ∀ x ∈ xs, x.length = r) (hk : k < xs.length) :
    xs.flatten = (xs.take k).flatten ++ (xs[k] ++ (xs.drop (k + 1)).flatten) ∧
      (xs.take k).flatten.length = k * r := by
  constructor
  · rw [← List.flatten_cons, ← List.flatten_append, ← List.drop_eq_getElem_cons hk,
      List.take_append_drop]
  · rw [length_flatten fun x hx => h x (List.mem_of_mem_take hx), List.length_take,
      Nat.min_eq_left (by omega)]

theorem flatten_set (hk : k < xs.length) (x : List α) :
    (xs.set k x).flatten = (xs.take k).flatten ++ (x ++ (xs.drop (k + 1)).flatten) := by
  rw [List.set_eq_take_append_cons_drop, if_pos hk, List.flatten_append, List.flatten_cons]

theorem flatten_injective {ys : List (List α)} (hr : 0 < r) (hxs : ∀ x ∈ xs, x.length = r)
    (hys : ∀ y ∈ ys, y.length = r) (h : xs.flatten = ys.flatten) : xs = ys := by
  have hlen : xs.length = ys.length := by
    have hflat := congrArg List.length h
    rw [length_flatten hxs, length_flatten hys] at hflat
    exact Nat.eq_of_mul_eq_mul_right hr hflat
  induction xs generalizing ys with
  | nil => exact (List.eq_nil_of_length_eq_zero hlen.symm).symm
  | cons x xs ih =>
    cases ys with
    | nil => exact absurd hlen (by simp)
    | cons y ys =>
      rw [List.flatten_cons, List.flatten_cons] at h
      have hxy : x.length = y.length := by
        rw [hxs x List.mem_cons_self, hys y List.mem_cons_self]
      obtain ⟨hhead, hrest⟩ := List.append_inj h hxy
      rw [hhead, ih (fun z hz => hxs z (List.mem_cons_of_mem _ hz))
        (fun z hz => hys z (List.mem_cons_of_mem _ hz)) hrest (Nat.succ.inj hlen)]

theorem forall_mem_put {blank x : List α} (hblank : blank.length = r) (hx : x.length = r)
    (h : ∀ y ∈ xs, y.length = r) : ∀ y ∈ put blank xs k x, y.length = r := by
  intro y hy
  rw [put] at hy
  split at hy
  · obtain hmem | heq := List.mem_or_eq_of_mem_set hy
    · exact h y hmem
    · rw [heq, hx]
  · simp only [List.mem_append, List.mem_replicate, List.mem_singleton] at hy
    obtain (hmem | ⟨-, heq⟩) | heq := hy
    · exact h y hmem
    · rw [heq, hblank]
    · rw [heq, hx]

end Library.Slots
