import Mathlib.Algebra.GroupWithZero.Nat
import Mathlib.Data.List.Range

/-! How many numbers below a bound meet a test. -/

namespace Library.Tally

def tally (n : ℕ) (f : ℕ → Bool) : ℕ := (List.range n).countP f

variable {n i : ℕ} {f g : ℕ → Bool}

theorem tally_succ (n : ℕ) (f : ℕ → Bool) : tally (n + 1) f = tally n f + (f n).toNat := by
  rw [tally, List.range_succ, List.countP_append, tally]
  cases hf : f n <;> simp [hf]

theorem tally_congr (h : ∀ j < n, f j = g j) : tally n f = tally n g :=
  List.countP_congr fun j hj => by rw [h j (List.mem_range.mp hj)]

theorem tally_mono (h : ∀ j < n, f j = true → g j = true) : tally n f ≤ tally n g :=
  List.countP_mono_left fun j hj => h j (List.mem_range.mp hj)

/-- A change of the test at one number. -/
theorem tally_update (hi : i < n) (h : ∀ j < n, j ≠ i → f j = g j) :
    tally n f + (g i).toNat = tally n g + (f i).toNat := by
  induction n with
  | zero => omega
  | succ n ih =>
    rw [tally_succ, tally_succ]
    by_cases hn : i = n
    · subst hn
      rw [tally_congr fun j hj => h j (by omega) (by omega)]
      omega
    · have hlt := ih (by omega) fun j hj hne => h j (by omega) hne
      rw [h n (by omega) (Ne.symm hn)]
      omega

/-- Something meets the test if it does not tally to 0. -/
theorem tally_ne_zero_iff : tally n f ≠ 0 ↔ ∃ j < n, f j = true := by
  rw [tally, Ne, List.countP_eq_zero]
  push Not
  exact exists_congr fun j => and_congr_left fun _ => List.mem_range

/-- The numbers below `8 * n`, counted in groups of eight. -/
theorem tally_groups (n : ℕ) (f : ℕ → Bool) :
    tally (8 * n) f = ((List.range n).map fun i => tally 8 fun k => f (8 * i + k)).sum := by
  induction n with
  | zero => rfl
  | succ n ih =>
    rw [List.range_succ, List.map_append, List.sum_append, ← ih, Nat.mul_succ]
    have hzero : ∀ g : ℕ → Bool, tally 0 g = 0 := fun _ => rfl
    simp only [tally_succ, hzero, List.map_cons, List.map_nil, List.sum_cons, List.sum_nil, Nat.add_zero]
    omega

end Library.Tally
