import Mathlib.Data.Finite.Prod
import Mathlib.Data.Set.Finite.Basic
import Mathlib.Data.Nat.Notation
import Mathlib.Data.Fintype.Pigeonhole

/-! Walks along a partial function, and loops that make them. -/

namespace Library.Walk

variable {α β γ σ ρ : Type*} {f : α → Option α} {a b : α}

/-- The walk from `a` along `f` comes to an end. -/
inductive Ends (f : α → Option α) : α → Prop
  | intro {a : α} (h : ∀ b, f a = some b → Ends f b) : Ends f a

/-- Place `n` of the walk from `a`. -/
def place (f : α → Option α) (a : α) : ℕ → Option α
  | 0 => some a
  | n + 1 => (place f a n).bind f

/-- The walk from `a` comes to some place twice. -/
def Revisits (f : α → Option α) (a : α) : Prop :=
  ∃ i j x, i < j ∧ place f a i = some x ∧ place f a j = some x

/-- The walk from `a` comes to two places that `g` does not tell apart. -/
def Repeats (g : α → γ) (f : α → Option α) (a : α) : Prop :=
  ∃ i j x y, i < j ∧ place f a i = some x ∧ place f a j = some y ∧ g x = g y

theorem ends_iff : Ends f a ↔ ∀ b, f a = some b → Ends f b :=
  ⟨fun h => by cases h with | intro h => exact h, .intro⟩

theorem ends_of_none (h : f a = none) : Ends f a :=
  .intro fun _ hb => nomatch h.symm.trans hb

theorem ends_iff_of_some (h : f a = some b) : Ends f a ↔ Ends f b := by
  rw [ends_iff]
  refine ⟨fun hall => hall b h, fun hb c hc => ?_⟩
  rwa [← Option.some.inj (h.symm.trans hc)]

theorem place_add (i j : ℕ) : place f a (i + j) = (place f a i).bind fun x => place f x j := by
  induction j with
  | zero => simp [place]
  | succ j ih =>
    rw [← Nat.add_assoc, place, ih, Option.bind_assoc]
    rfl

theorem Ends.place {i : ℕ} {x : α} (h : Ends f a) (hx : place f a i = some x) : Ends f x := by
  induction i generalizing x with
  | zero => rwa [← Option.some.inj hx]
  | succ i ih =>
    obtain ⟨y, hy, hf⟩ := Option.bind_eq_some_iff.mp hx
    exact ends_iff.mp (ih hy) x hf

/-- A place that the walk comes back to has no end. -/
theorem not_ends_of_returns {n : ℕ} (h : place f a (n + 1) = some a) : ¬Ends f a := by
  intro hends
  induction hends generalizing n with
  | @intro a hall ih =>
    rw [Nat.add_comm, place_add] at h
    obtain ⟨b, hb, hrest⟩ := Option.bind_eq_some_iff.mp h
    have hab : f a = some b := hb
    refine ih b hab (n := n) ?_
    rw [place, hrest]
    exact hab

theorem Ends.not_revisits (h : Ends f a) : ¬Revisits f a := by
  rintro ⟨i, j, x, hij, hi, hj⟩
  obtain ⟨n, rfl⟩ := Nat.exists_eq_add_of_lt hij
  rw [Nat.add_assoc, place_add, hi] at hj
  exact not_ends_of_returns hj (h.place hi)

/-- A walk that can always go on has no end. -/
theorem not_ends_of_closed {P : α → Prop} (h : ∀ x, P x → ∃ y, f x = some y ∧ P y) (ha : P a) :
    ¬Ends f a := by
  intro hends
  induction hends with
  | @intro a hall ih =>
    obtain ⟨b, hb, hP⟩ := h a ha
    exact ih b hb hP

/-- A walk with a measure that each step lowers has an end. -/
theorem ends_of_measure {I : α → Prop} (m : α → ℕ)
    (hstep : ∀ x y, I x → f x = some y → I y ∧ m y < m x) (ha : I a) : Ends f a := by
  induction hn : m a using Nat.strong_induction_on generalizing a with
  | _ n ih =>
    refine .intro fun b hb => ?_
    obtain ⟨hI, hlt⟩ := hstep a b ha hb
    exact ih (m b) (by omega) hI rfl

theorem exists_place_of_not_ends (h : ¬Ends f a) (n : ℕ) : ∃ x, place f a n = some x ∧ ¬Ends f x := by
  induction n with
  | zero => exact ⟨a, rfl, h⟩
  | succ n ih =>
    obtain ⟨x, hx, hends⟩ := ih
    rw [ends_iff] at hends
    push Not at hends
    obtain ⟨y, hy, hnot⟩ := hends
    exact ⟨y, by rw [place, hx]; exact hy, hnot⟩

/-- A walk whose places with a successor have finitely many values ends, if it comes to no value twice. -/
theorem ends_of_not_repeats {I : α → Prop} {g : α → γ} {S : Set γ} (hS : S.Finite)
    (hf : ∀ x y, I x → f x = some y → g x ∈ S ∧ I y) (ha : I a) (h : ¬Repeats g f a) : Ends f a := by
  by_contra hends
  choose x hx hnot using exists_place_of_not_ends hends
  have hstep : ∀ n, f (x n) = some (x (n + 1)) := fun n => by
    have hnext := hx (n + 1)
    rwa [place, hx n] at hnext
  have hI : ∀ n, I (x n) := by
    intro n
    induction n with
    | zero => rwa [← Option.some.inj (hx 0)]
    | succ n ih => exact (hf _ _ ih (hstep n)).2
  have hfinite := hS.to_subtype
  obtain ⟨i, j, hne, heq⟩ := Finite.exists_ne_map_eq_of_infinite
    fun n : ℕ => (⟨g (x n), (hf _ _ (hI n) (hstep n)).1⟩ : S)
  have hgeq : g (x i) = g (x j) := congrArg Subtype.val heq
  rcases Nat.lt_or_gt_of_ne hne with hlt | hlt
  · exact h ⟨i, j, x i, x j, hlt, hx i, hx j, hgeq⟩
  · exact h ⟨j, i, x j, x i, hlt, hx j, hx i, hgeq.symm⟩

/-- Where only finitely many places have a successor, a walk ends exactly if it comes to no place
twice. -/
theorem ends_iff_not_revisits {S : Set α} (hS : S.Finite) (hf : ∀ x y, f x = some y → x ∈ S) :
    Ends f a ↔ ¬Revisits f a := by
  refine ⟨Ends.not_revisits, fun h => ends_of_not_repeats (I := fun _ => True) (g := id) hS
    (fun x y _ hxy => ⟨hf x y hxy, trivial⟩) trivial ?_⟩
  rintro ⟨i, j, x, y, hij, hi, hj, rfl⟩
  exact h ⟨i, j, x, hij, hi, hj⟩

theorem place_of_end {n m : ℕ} {x : α} (hx : place f a n = some x) (hend : f x = none) (hlt : n < m) :
    place f a m = none := by
  obtain ⟨k, rfl⟩ := Nat.exists_eq_add_of_lt hlt
  rw [Nat.add_assoc, place_add, hx, Nat.add_comm, Option.bind_some, place_add]
  show ((some x).bind f).bind _ = none
  rw [Option.bind_some, hend]
  rfl

/-- A walk has one end at most. -/
theorem end_unique {n m : ℕ} {x y : α} (hx : place f a n = some x) (hxend : f x = none)
    (hy : place f a m = some y) (hyend : f y = none) : x = y := by
  rcases Nat.lt_trichotomy n m with hlt | rfl | hlt
  · rw [place_of_end hx hxend hlt] at hy
    cases hy
  · exact Option.some.inj (hx.symm.trans hy)
  · rw [place_of_end hy hyend hlt] at hx
    cases hx

/-- Walks that go along together end together. -/
theorem ends_iff_of_simulates {g : β → Option β} {b : β} (R : α → β → Prop)
    (hstep : ∀ a b, R a b → (f a = none ∧ g b = none) ∨
      ∃ a' b', f a = some a' ∧ g b = some b' ∧ R a' b') (hR : R a b) : Ends f a ↔ Ends g b := by
  constructor
  · intro h
    induction h generalizing b with
    | @intro a hall ih =>
      rcases hstep a b hR with ⟨-, hg⟩ | ⟨a', b', hf, hg, hR'⟩
      · exact ends_of_none hg
      · exact (ends_iff_of_some hg).mpr (ih a' hf hR')
  · intro h
    induction h generalizing a with
    | @intro b hall ih =>
      rcases hstep a b hR with ⟨hf, -⟩ | ⟨a', b', hf, hg, hR'⟩
      · exact ends_of_none hf
      · exact (ends_iff_of_some hf).mpr (ih b' hg hR')

/-- The places of a walk along `f`, up to its end. -/
def Trail (f : α → Option α) : List α → Prop
  | [] => True
  | [a] => f a = none
  | a :: b :: l => f a = some b ∧ Trail f (b :: l)

theorem Trail.congr {g : α → Option α} {l : List α} (h : Trail f l) (hfg : ∀ a ∈ l, g a = f a) :
    Trail g l := by
  induction l with
  | nil => trivial
  | cons a l ih =>
    have ha := hfg a List.mem_cons_self
    cases l with
    | nil => exact ha.trans h
    | cons b l => exact ⟨ha.trans h.1, ih h.2 fun c hc => hfg c (List.mem_cons_of_mem a hc)⟩

/-- A walk goes on from its end. -/
theorem Trail.snoc {g : α → Option α} {l : List α} (h : Trail f (l ++ [a])) (hne : a ∉ l)
    (hfg : ∀ c ∈ l, g c = f c) (ha : g a = some b) (hb : g b = none) : Trail g (l ++ [a, b]) := by
  induction l with
  | nil => exact ⟨ha, hb⟩
  | cons c l ih =>
    obtain ⟨hca, hal⟩ := not_or.mp (List.mem_cons.not.mp hne)
    have hc := hfg c List.mem_cons_self
    have hrest := fun x hx => hfg x (List.mem_cons_of_mem c hx)
    cases l with
    | nil => exact ⟨hc.trans h.1, ha, hb⟩
    | cons d l => exact ⟨hc.trans h.1, ih h.2 hal hrest⟩

/-- A loop: each round gives the result or the state of the next round. -/
def loop (body : σ → ρ ⊕ σ) : ℕ → σ → Option ρ
  | 0, _ => none
  | fuel + 1, s =>
    match body s with
    | .inl r => some r
    | .inr s => loop body fuel s

/-- The states that the rounds of a loop go through. -/
def rounds (body : σ → ρ ⊕ σ) (s : σ) : Option σ := (body s).getRight?

def Terminates (body : σ → ρ ⊕ σ) (s : σ) : Prop := ∃ fuel, (loop body fuel s).isSome

variable {body : σ → ρ ⊕ σ} {s : σ}

theorem terminates_iff_ends : Terminates body s ↔ Ends (rounds body) s := by
  constructor
  · rintro ⟨fuel, h⟩
    induction fuel generalizing s with
    | zero => cases h
    | succ fuel ih =>
      rw [loop] at h
      refine .intro fun s' hs' => ?_
      rw [rounds, Sum.getRight?_eq_some_iff] at hs'
      rw [hs'] at h
      exact ih h
  · intro h
    induction h with
    | @intro s hall ih =>
      cases hbody : body s with
      | inl r => exact ⟨1, by rw [loop, hbody]; rfl⟩
      | inr s' =>
        obtain ⟨fuel, hfuel⟩ := ih s' (by rw [rounds, hbody]; rfl)
        exact ⟨fuel + 1, by rw [loop, hbody]; exact hfuel⟩

/-- More fuel makes no difference. -/
theorem loop_mono {fuel fuel' : ℕ} {r : ρ} (h : loop body fuel s = some r) (hle : fuel ≤ fuel') :
    loop body fuel' s = some r := by
  induction fuel generalizing s fuel' with
  | zero => cases h
  | succ fuel ih =>
    obtain ⟨fuel', rfl⟩ := Nat.exists_eq_add_of_le hle
    rw [Nat.add_right_comm, loop]
    rw [loop] at h
    cases hbody : body s with
    | inl r' => rwa [hbody] at h
    | inr s' =>
      rw [hbody] at h
      exact ih h (Nat.le_add_right _ _)

theorem loop_unique {fuel fuel' : ℕ} {r r' : ρ} (h : loop body fuel s = some r)
    (h' : loop body fuel' s = some r') : r = r' := by
  have hmono := loop_mono h (Nat.le_max_left fuel fuel')
  rw [loop_mono h' (Nat.le_max_right fuel fuel')] at hmono
  exact (Option.some.inj hmono).symm

/-- A loop goes on from every state that its rounds come to. -/
theorem loop_of_place {n fuel : ℕ} {s' : σ} (h : place (rounds body) s n = some s') :
    loop body (n + fuel) s = loop body fuel s' := by
  induction n generalizing s' fuel with
  | zero =>
    cases h
    rw [Nat.zero_add]
  | succ n ih =>
    obtain ⟨y, hy, hround⟩ := Option.bind_eq_some_iff.mp h
    rw [rounds, Sum.getRight?_eq_some_iff] at hround
    rw [Nat.add_assoc, Nat.add_comm 1 fuel, ih hy, loop, hround]

/-- Loops whose rounds go along together end together. -/
theorem loop_simulates {τ υ : Type*} {body' : τ → υ ⊕ τ} (R : σ → τ → Prop) (Q : ρ → υ → Prop)
    (hround : ∀ s t, R s t → (∃ r r', body s = .inl r ∧ body' t = .inl r' ∧ Q r r') ∨
      ∃ s' t', body s = .inr s' ∧ body' t = .inr t' ∧ R s' t') (fuel : ℕ) {t : τ} (h : R s t) :
    (loop body fuel s = none ∧ loop body' fuel t = none) ∨
      ∃ r r', loop body fuel s = some r ∧ loop body' fuel t = some r' ∧ Q r r' := by
  induction fuel generalizing s t with
  | zero => exact .inl ⟨rfl, rfl⟩
  | succ fuel ih =>
    rw [loop, loop]
    rcases hround s t h with ⟨r, r', hs, ht, hQ⟩ | ⟨s', t', hs, ht, hR⟩
    · rw [hs, ht]
      exact .inr ⟨r, r', rfl, rfl, hQ⟩
    · rw [hs, ht]
      exact ih hR

/-- What holds in every round of a loop, and what its last round makes of it. -/
theorem loop_result {I : σ → Prop} {Q : ρ → Prop} (hgo : ∀ s s', I s → body s = .inr s' → I s')
    (hstop : ∀ s r, I s → body s = .inl r → Q r) {fuel : ℕ} {r : ρ} (hs : I s)
    (h : loop body fuel s = some r) : Q r := by
  induction fuel generalizing s with
  | zero => cases h
  | succ fuel ih =>
    rw [loop] at h
    cases hbody : body s with
    | inl r' =>
      rw [hbody] at h
      cases h
      exact hstop s r hs hbody
    | inr s' =>
      rw [hbody] at h
      exact ih (hgo s s' hs hbody) h

/-- A loop with a measure that each round lowers terminates. -/
theorem terminates_of_measure {I : σ → Prop} (m : σ → ℕ)
    (hstep : ∀ s s', I s → body s = .inr s' → I s' ∧ m s' < m s) (hs : I s) : Terminates body s := by
  rw [terminates_iff_ends]
  refine ends_of_measure m (fun x y hx hxy => ?_) hs
  rw [rounds, Sum.getRight?_eq_some_iff] at hxy
  exact hstep x y hx hxy

/-- A loop whose rounds keep `I` and lower a measure until one gives a result with `Q`. -/
theorem exists_loop {I : σ → Prop} {Q : ρ → Prop} (m : σ → ℕ)
    (hround : ∀ s, I s → (∃ r, body s = .inl r ∧ Q r) ∨ ∃ s', body s = .inr s' ∧ I s' ∧ m s' < m s)
    (hs : I s) : ∃ fuel r, loop body fuel s = some r ∧ Q r := by
  have hterm : Terminates body s := terminates_of_measure m (fun s s' hI hbody => by
    rcases hround s hI with ⟨r, hr, -⟩ | ⟨s'', hs'', hI', hlt⟩
    · cases hr.symm.trans hbody
    · cases hs''.symm.trans hbody
      exact ⟨hI', hlt⟩) hs
  obtain ⟨fuel, h⟩ := hterm
  obtain ⟨r, hr⟩ := Option.isSome_iff_exists.mp h
  refine ⟨fuel, r, hr, loop_result (fun s s' hI hbody => ?_) (fun s r hI hbody => ?_) hs hr⟩
  · rcases hround s hI with ⟨r, hr, -⟩ | ⟨s'', hs'', hI', -⟩
    · cases hr.symm.trans hbody
    · cases hs''.symm.trans hbody
      exact hI'
  · rcases hround s hI with ⟨r', hr', hQ⟩ | ⟨s'', hs'', -⟩
    · cases hr'.symm.trans hbody
      exact hQ
    · cases hs''.symm.trans hbody

end Library.Walk
