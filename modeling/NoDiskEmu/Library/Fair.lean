import Mathlib.Data.Nat.Notation

/-! Parties that take steps in an order in which each of them comes up again and again. -/

namespace Library.Fair

variable {σ ι : Type*}

/-- The states of a run in which party `f n` takes step number `n`. -/
def trace (step : σ → ι → σ) (s : σ) (f : ℕ → ι) : ℕ → σ
  | 0 => s
  | n + 1 => step (trace step s f n) (f n)

/-- Each party comes up again and again. -/
def IsFair (f : ℕ → ι) : Prop := ∀ i n, ∃ m, n ≤ m ∧ f m = i

/-- How steps make progress. No step raises the rank, a step of a party that helps lowers it, and a party helps until
the rank is lower. -/
structure Ranked (step : σ → ι → σ) (I : σ → Prop) (rank : σ → ℕ) (helps : σ → ι → Prop) : Prop where
  keep : ∀ s i, I s → I (step s i)
  le : ∀ s i, I s → rank (step s i) ≤ rank s
  lt : ∀ s i, I s → helps s i → rank (step s i) < rank s
  stable : ∀ s i j, I s → helps s i → rank (step s j) < rank s ∨ helps (step s j) i

variable {step : σ → ι → σ} {I : σ → Prop} {rank : σ → ℕ} {helps : σ → ι → Prop} {s : σ} {f : ℕ → ι}

theorem Ranked.trace_keep (h : Ranked step I rank helps) (hs : I s) (n : ℕ) : I (trace step s f n) := by
  induction n with
  | zero => exact hs
  | succ n ih => exact h.keep _ _ ih

/-- A party that helps has helped when it has come up, or the rank is lower before. -/
theorem Ranked.wait (h : Ranked step I rank helps) (hs : I s) {i : ι} {n : ℕ} (hi : helps (trace step s f n) i) (d : ℕ) :
    (∃ m, rank (trace step s f m) < rank (trace step s f n)) ∨
      helps (trace step s f (n + d)) i ∧ rank (trace step s f (n + d)) ≤ rank (trace step s f n) := by
  induction d with
  | zero => exact .inr ⟨hi, Nat.le_refl _⟩
  | succ d ih =>
    obtain hlt | ⟨hi, hle⟩ := ih
    · exact .inl hlt
    · have hI := h.trace_keep (f := f) hs (n + d)
      obtain hlt | hi := h.stable _ i (f (n + d)) hI hi
      · exact .inl ⟨n + d + 1, Nat.lt_of_lt_of_le hlt hle⟩
      · exact .inr ⟨hi, Nat.le_trans (h.le _ _ hI) hle⟩

/-- In a fair run there comes a state in which no party helps. -/
theorem Ranked.eventually (h : Ranked step I rank helps) (hs : I s) (hf : IsFair f) :
    ∃ n, ∀ i, ¬helps (trace step s f n) i := by
  suffices hrank : ∀ k n, rank (trace step s f n) = k → ∃ n, ∀ i, ¬helps (trace step s f n) i from hrank _ 0 rfl
  intro k
  induction k using Nat.strongRecOn with
  | ind k ih =>
    intro n hk
    by_cases hstop : ∀ i, ¬helps (trace step s f n) i
    · exact ⟨n, hstop⟩
    obtain ⟨i, hi⟩ := Classical.not_forall.mp hstop
    obtain ⟨m, hm, hfm⟩ := hf i n
    obtain ⟨d, rfl⟩ := Nat.exists_eq_add_of_le hm
    obtain ⟨m, hlt⟩ | ⟨hi, hle⟩ := h.wait hs (Classical.not_not.mp hi) d
    · exact ih _ (hk ▸ hlt) m rfl
    · refine ih _ (hk ▸ Nat.lt_of_lt_of_le ?_ hle) (n + d + 1) rfl
      rw [trace, hfm]
      exact h.lt _ i (h.trace_keep hs _) hi

end Library.Fair
