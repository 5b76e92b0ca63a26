import Mathlib.Data.List.Basic
import Mathlib.Data.Nat.Notation

/-! Runs of a deterministic step function that returns a result and the next state. -/

namespace Library.Run

variable {σ τ α ρ : Type*}

/-- The results of a list of actions, and the state they lead to. -/
def run (step : σ → α → ρ × σ) (s : σ) : List α → List ρ × σ
  | [] => ([], s)
  | a :: as =>
    let rest := run step (step s a).2 as
    ((step s a).1 :: rest.1, rest.2)

/-- Every action of the run meets `P` in the state in which it is taken. -/
def Meets (step : σ → α → ρ × σ) (P : σ → α → Prop) (s : σ) : List α → Prop
  | [] => True
  | a :: as => P s a ∧ Meets step P (step s a).2 as

/-- `I` holds in every state that the run reaches, the first and the last one included. -/
def Always (step : σ → α → ρ × σ) (I : σ → Prop) (s : σ) (as : List α) : Prop :=
  ∀ n, I (run step s (as.take n)).2

variable {step : σ → α → ρ × σ} {I : σ → Prop} {P : σ → α → Prop} {s : σ}

theorem run_append (as bs : List α) :
    run step s (as ++ bs) = ((run step s as).1 ++ (run step (run step s as).2 bs).1,
      (run step (run step s as).2 bs).2) := by
  induction as generalizing s with
  | nil => rfl
  | cons a as ih =>
    rw [List.cons_append, run, ih]
    rfl

theorem meets_of_forall {Q : α → Prop} {as : List α} (h : ∀ a ∈ as, Q a) :
    Meets step (fun _ => Q) s as := by
  induction as generalizing s with
  | nil => trivial
  | cons a as ih => exact ⟨h a (by simp), ih fun b hb => h b (by simp [hb])⟩

theorem Meets.and {Q : σ → α → Prop} {as : List α} (h : Meets step P s as)
    (h' : Meets step Q s as) : Meets step (fun s a => P s a ∧ Q s a) s as := by
  induction as generalizing s with
  | nil => trivial
  | cons a as ih => exact ⟨⟨h.1, h'.1⟩, ih h.2 h'.2⟩

theorem Meets.take {as : List α} (h : Meets step P s as) (n : ℕ) : Meets step P s (as.take n) := by
  induction as generalizing s n with
  | nil => simpa using h
  | cons a as ih =>
    cases n with
    | zero => trivial
    | succ n => exact ⟨h.1, ih h.2 n⟩

theorem always_nil : Always step I s [] ↔ I s := by
  simp [Always, run]

theorem always_cons {a : α} {as : List α} :
    Always step I s (a :: as) ↔ I s ∧ Always step I (step s a).2 as := by
  constructor
  · intro h
    exact ⟨h 0, fun n => h (n + 1)⟩
  · rintro ⟨h0, h⟩ n
    cases n with
    | zero => exact h0
    | succ n => exact h n

/-- The last state of a run is one of the states it reaches. -/
theorem Always.last {as : List α} (h : Always step I s as) : I (run step s as).2 := by
  have hlast := h as.length
  rwa [List.take_length] at hlast

theorem Always.mono {J : σ → Prop} {as : List α} (h : Always step I s as) (hIJ : ∀ s, I s → J s) :
    Always step J s as :=
  fun n => hIJ _ (h n)

theorem Always.and {J : σ → Prop} {as : List α} (h : Always step I s as)
    (h' : Always step J s as) : Always step (fun s => I s ∧ J s) s as :=
  fun n => ⟨h n, h' n⟩

theorem Always.meets {as : List α} (h : Always step I s as) : Meets step (fun s _ => I s) s as := by
  induction as generalizing s with
  | nil => trivial
  | cons a as ih =>
    obtain ⟨hs, hrest⟩ := always_cons.mp h
    exact ⟨hs, ih hrest⟩

/-- An invariant of every action that meets `P` holds along every run whose actions meet `P`. -/
theorem always_of_step (hstep : ∀ s a, I s → P s a → I (step s a).2) {as : List α} (hs : I s)
    (h : Meets step P s as) : Always step I s as := by
  induction as generalizing s with
  | nil => exact always_nil.mpr hs
  | cons a as ih => exact always_cons.mpr ⟨hs, ih (hstep s a hs h.1) h.2⟩

/-- An invariant of every action holds along every run. -/
theorem always_of_invariant (hstep : ∀ s a, I s → I (step s a).2) (hs : I s) (as : List α) :
    Always step I s as :=
  always_of_step (P := fun _ _ => True) (fun s a h _ => hstep s a h) hs (meets_of_forall fun _ _ => trivial)

/-- What an invariant and `P` say of an action holds of every action of such a run. -/
theorem Meets.imp_of_step {Q : σ → α → Prop} (hstep : ∀ s a, I s → P s a → I (step s a).2)
    (himp : ∀ s a, I s → P s a → Q s a) {as : List α} (hs : I s) (h : Meets step P s as) :
    Meets step Q s as := by
  induction as generalizing s with
  | nil => trivial
  | cons a as ih => exact ⟨himp s a hs h.1, ih (hstep s a hs h.1) h.2⟩

/-- What an invariant and `P` say of a result holds of every result of such a run. -/
theorem Meets.results {Q : ρ → Prop}
    (hstep : ∀ s a, I s → P s a → Q (step s a).1 ∧ I (step s a).2) {as : List α} (hs : I s)
    (h : Meets step P s as) : ∀ r ∈ (run step s as).1, Q r := by
  induction as generalizing s with
  | nil => exact fun r hr => absurd hr List.not_mem_nil
  | cons a as ih =>
    obtain ⟨hresult, hnext⟩ := hstep s a hs h.1
    intro r hr
    obtain rfl | hr := List.mem_cons.mp hr
    · exact hresult
    · exact ih hnext h.2 r hr

/-- Where a result is as it should be exactly if its action meets `P`, the same is true of runs. -/
theorem results_iff_meets {Q : ρ → Prop}
    (hstep : ∀ s a, I s → (Q (step s a).1 ↔ P s a) ∧ (P s a → I (step s a).2)) {as : List α} (hs : I s) :
    (∀ r ∈ (run step s as).1, Q r) ↔ Meets step P s as := by
  induction as generalizing s with
  | nil => exact iff_of_true (fun r hr => absurd hr List.not_mem_nil) trivial
  | cons a as ih =>
    obtain ⟨hresult, hnext⟩ := hstep s a hs
    rw [run, List.forall_mem_cons, hresult]
    exact and_congr_right fun hP => ih (hnext hP)

/-- Where an action that does not meet `P` breaks `I` at once, `I` holds along a run exactly if all
actions meet `P`. -/
theorem always_iff_meets {J : σ → Prop} (hJ : ∀ s, J s → I s)
    (hstep : ∀ s a, J s → P s a → J (step s a).2)
    (hbreak : ∀ s a, J s → ¬P s a → ¬I (step s a).2) {as : List α} (hs : J s) :
    Always step I s as ↔ Meets step P s as := by
  refine ⟨fun h => ?_, fun h => (always_of_step hstep hs h).mono hJ⟩
  induction as generalizing s with
  | nil => trivial
  | cons a as ih =>
    obtain ⟨-, hrest⟩ := always_cons.mp h
    have hP : P s a := by
      by_contra hnot
      exact hbreak s a hs hnot (hrest 0)
    exact ⟨hP, ih (hstep s a hs hP) hrest⟩

/-- A simulation: related states stay related and give the same results. -/
theorem run_simulates (step' : τ → α → ρ × τ) (R : σ → τ → Prop)
    (hstep : ∀ s t a, R s t → P s a →
      (step s a).1 = (step' t a).1 ∧ R (step s a).2 (step' t a).2)
    {t : τ} {as : List α} (hs : R s t) (h : Meets step P s as) :
    (run step s as).1 = (run step' t as).1 ∧ R (run step s as).2 (run step' t as).2 := by
  induction as generalizing s t with
  | nil => exact ⟨rfl, hs⟩
  | cons a as ih =>
    obtain ⟨hres, hrel⟩ := hstep s t a hs h.1
    obtain ⟨hrest, hlast⟩ := ih hrel h.2
    exact ⟨by rw [run, run, hres, hrest], hlast⟩

end Library.Run
