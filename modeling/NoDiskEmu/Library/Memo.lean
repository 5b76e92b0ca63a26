import Mathlib.Data.List.Basic

/-! Tables of remembered results: pairs of an argument and what a partial function gave for it. -/

namespace Library.Memo

variable {K V : Type*} {table : List (K × V)} {f g : K → Option V} {k : K} {v : V}

/-- Every pair of the table is one of the graph of `f`. -/
def Sound (table : List (K × V)) (f : K → Option V) : Prop := ∀ e ∈ table, f e.1 = some e.2

theorem Sound.nil : Sound [] f := by
  intro e he
  simp at he

/-- What is found in a table is what the function gives. -/
theorem Sound.lookup [BEq K] [LawfulBEq K] (h : Sound table f) (hfind : table.lookup k = some v) :
    f k = some v := by
  induction table with
  | nil => simp at hfind
  | cons e table ih =>
    obtain ⟨k', v'⟩ := e
    rw [List.lookup_cons] at hfind
    split at hfind
    · next heq =>
      rw [Option.some.injEq] at hfind
      rw [eq_of_beq heq, ← hfind]
      exact h (k', v') (by simp)
    · exact ih (fun e he => h e (by simp [he])) hfind

theorem Sound.add (h : Sound table f) (hk : f k = some v) : Sound (table ++ [(k, v)]) f := by
  intro e he
  rcases List.mem_append.mp he with he | he
  · exact h e he
  · rw [List.mem_singleton] at he
    rw [he]
    exact hk

/-- A function that gives the same results for what is in the table. -/
theorem Sound.congr (h : Sound table f) (hfg : ∀ k v, f k = some v → g k = some v) : Sound table g :=
  fun e he => hfg e.1 e.2 (h e he)

end Library.Memo
