import Mathlib.Algebra.BigOperators.Intervals
import Mathlib.Algebra.Order.BigOperators.Group.Finset

/-! A range of cells cut into consecutive tiles.  Tile `t`, counted from 1, has `size t` cells, and
`start size t` is the number of cells of the tiles before it.  A cell is a pair `(t, s)` with
`s < size t`; its number is `start size t + s`. -/

namespace Library.Tiling

variable (size : ℕ → ℕ)

/-- The number of cells in the tiles from 1 up to, but not including, tile `t`. -/
def start (t : ℕ) : ℕ := ∑ u ∈ Finset.Ico 1 t, size u

@[simp] theorem start_one : start size 1 = 0 := by simp [start]

theorem start_succ {t : ℕ} (ht : 1 ≤ t) : start size (t + 1) = start size t + size t :=
  Finset.sum_Ico_succ_top ht size

theorem start_mono {t u : ℕ} (h : t ≤ u) : start size t ≤ start size u :=
  Finset.sum_le_sum_of_subset (Finset.Ico_subset_Ico_right h)

variable {size}

/-- The cells of tile `t` end where the cells of any later tile can begin. -/
theorem start_add_lt {t u s : ℕ} (ht : 1 ≤ t) (htu : t < u) (hs : s < size t) :
    start size t + s < start size u := by
  have hle := start_mono size (show t + 1 ≤ u by omega)
  rw [start_succ size ht] at hle
  omega

/-- Two cells with one number are the same cell. -/
theorem cell_injective {t s t' s' : ℕ} (ht : 1 ≤ t) (ht' : 1 ≤ t') (hs : s < size t)
    (hs' : s' < size t') (h : start size t + s = start size t' + s') : t = t' ∧ s = s' := by
  rcases Nat.lt_trichotomy t t' with hlt | rfl | hlt
  · have := start_add_lt ht hlt hs
    omega
  · exact ⟨rfl, by omega⟩
  · have := start_add_lt ht' hlt hs'
    omega

/-- A numbering of tile starts that begins at 0 and grows by each tile's size is `start`. -/
theorem eq_start_of_succ {first : ℕ → ℕ} {last : ℕ} (h1 : first 1 = 0)
    (hsucc : ∀ t, 1 ≤ t → t < last → first (t + 1) = first t + size t) :
    ∀ t, 1 ≤ t → t ≤ last → first t = start size t := by
  intro t ht
  induction t, ht using Nat.le_induction with
  | base => intro _; simp [h1]
  | succ t ht ih =>
    intro hlast
    rw [hsucc t ht (by omega), ih (by omega), start_succ size ht]

end Library.Tiling
