import NoDiskEmu.Dos.Parser
import Mathlib.Data.List.GetD
import Mathlib.Data.List.TakeWhile

/-! `match_name`: the patterns of file names, and which bytes are read to decide about one. -/

namespace NoDiskEmu.Dos

/-- A string in memory: the bytes in front of its 0. -/
structure CString where
  chars : List UInt8
  nonzero : ∀ c ∈ chars, c ≠ 0

namespace CString

def length (s : CString) : ℕ := s.chars.length

/-- Byte `i`, up to the 0 at the end. -/
def byte (s : CString) (i : ℕ) : UInt8 := s.chars.getD i 0

theorem byte_ne_zero_iff (s : CString) (i : ℕ) : s.byte i ≠ 0 ↔ i < s.length := by
  constructor
  · intro hne
    by_contra hge
    exact hne (List.getD_eq_default _ _ (Nat.le_of_not_lt hge))
  · intro hlt
    rw [byte, List.getD_eq_getElem _ _ hlt]
    exact s.nonzero _ (List.getElem_mem hlt)

end CString

/-- `tolower_pet`. -/
def tolowerPet (c : UInt8) : UInt8 :=
  if 0x61 ≤ c ∧ c ≤ 0x7a then c - 0x20
  else if 0xc1 ≤ c ∧ c ≤ 0xda then c - 0x80
  else c

/-- A character as `match_name` compares it. -/
def folded (ignorecase : Bool) (c : UInt8) : UInt8 := if ignorecase then tolowerPet c else c

/-- A byte that is read: of the name, which lies in memory behind other bytes, or of the pattern. -/
inductive MatchRead
  | name (i : ℤ)
  | pattern (i : ℕ)

/-- What `match_name` works with. `postmatch` is the flag `POSTMATCH`, `before` are the bytes in front
of the name, the nearest first. -/
structure Matching where
  pattern : CString
  name : CString
  before : ℕ → UInt8
  ignorecase : Bool
  postmatch : Bool

namespace Matching

variable (v : Matching)

/-- The byte at an index that may lie in front of the name. -/
def nameAt (i : ℤ) : UInt8 := if 0 ≤ i then v.name.byte i.toNat else v.before (-i - 1).toNat

/-- The loop behind a star at `star`, with `n` characters of the pattern left and the name read from
`i` backwards. -/
def matchBack (star : ℕ) : ℕ → ℤ → Bool × List MatchRead
  | 0, _ => (true, [])
  | n + 1, i =>
    let m := folded v.ignorecase (v.pattern.byte (star + n + 1))
    let f := folded v.ignorecase (v.nameAt i)
    if m ≠ f ∧ m ≠ 63 then (false, [.pattern (star + n + 1), .name i])
    else
      let r := matchBack star n (i - 1)
      (r.1, .pattern (star + n + 1) :: .name i :: r.2)

/-- The loop over both strings, with `chars_remain`; both pointers are at `i`. -/
def matchFrom : ℕ → ℕ → Bool × List MatchRead
  | 0, i => (true, [.pattern i])
  | charsRemain + 1, i =>
    if v.name.byte i = 0 then
      (!(v.pattern.byte i ≠ 0 && v.pattern.byte i ≠ 42), [.name i, .pattern i])
    else
      let m := folded v.ignorecase (v.pattern.byte i)
      let f := folded v.ignorecase (v.name.byte i)
      if m = 63 then
        let r := matchFrom charsRemain (i + 1)
        (r.1, .name i :: .pattern i :: r.2)
      else if m = 42 then
        if v.postmatch then
          let r := v.matchBack i (v.pattern.length - 1 - i) (v.name.length - 1)
          (r.1, .name i :: .pattern i :: ((List.range' i (v.pattern.length + 1 - i)).map .pattern ++
            (List.range' i (v.name.length + 1 - i)).map (fun j : ℕ => .name j) ++ r.2))
        else (true, [.name i, .pattern i])
      else if m ≠ f then (false, [.name i, .pattern i])
      else
        let r := matchFrom charsRemain (i + 1)
        (r.1, .name i :: .pattern i :: r.2)

/-- `match_name`: whether it returns 1, and the bytes that it reads. -/
def matchName : Bool × List MatchRead := v.matchFrom 16 0

/-- The byte is one of the string or the 0 behind it. -/
def InString : MatchRead → Prop
  | .name i => 0 ≤ i ∧ i ≤ v.name.length
  | .pattern i => i ≤ v.pattern.length

/-- A character of the pattern stands for one of the name. -/
def CharMatch (m c : UInt8) : Prop := m = 63 ∨ folded v.ignorecase m = folded v.ignorecase c

/-- The place of the first star of the pattern, or its end. -/
def star : ℕ := v.pattern.chars.findIdx (· = 42)

/-- The number of characters behind the star. -/
def tail : ℕ := v.pattern.length - 1 - v.star

/-- The first `n` characters match. -/
def Starts (n : ℕ) : Prop := ∀ j < n, v.CharMatch (v.pattern.byte j) (v.name.byte j)

/-- The last `n` characters match. -/
def Finishes (n : ℕ) : Prop :=
  ∀ j < n, v.CharMatch (v.pattern.byte (v.pattern.length - 1 - j)) (v.name.byte (v.name.length - 1 - j))

/-- What a pattern means: what is in front of the first star matches the beginning of the name. Without
a star that is all of the name; behind a star, with `POSTMATCH`, the rest of the pattern matches the end
of what is left of the name. -/
def Selects : Prop :=
  v.star ≤ v.name.length ∧ v.Starts v.star ∧ (v.star = v.pattern.length → v.star = v.name.length) ∧
    (v.star < v.pattern.length → v.postmatch = true →
      v.star + v.tail ≤ v.name.length ∧ v.Finishes v.tail)

end Matching

/-- Folding goes to a letter or changes nothing. -/
theorem folded_cases (ignorecase : Bool) (c : UInt8) :
    folded ignorecase c = c ∨ 0x41 ≤ c ∧ 0x41 ≤ folded ignorecase c := by
  have hsub : ∀ {k : UInt8}, k ≤ c → (c - k).toNat = c.toNat - k.toNat :=
    fun h => UInt8.toNat_sub_of_le _ _ h
  cases ignorecase with
  | false => exact .inl rfl
  | true =>
    show tolowerPet c = c ∨ 0x41 ≤ c ∧ 0x41 ≤ tolowerPet c
    rw [tolowerPet]
    split
    · next h =>
      have hlow : 0x61 ≤ c.toNat := h.1
      have heq := hsub (k := 0x20) (Nat.le_trans (by decide) hlow)
      refine .inr ⟨show 0x41 ≤ c.toNat by omega, show 0x41 ≤ (c - 0x20).toNat from ?_⟩
      rw [heq]
      exact Nat.le_sub_of_add_le hlow
    · split
      · next h =>
        have hlow : 0xc1 ≤ c.toNat := h.1
        have heq := hsub (k := 0x80) (Nat.le_trans (by decide) hlow)
        refine .inr ⟨show 0x41 ≤ c.toNat by omega, show 0x41 ≤ (c - 0x80).toNat from ?_⟩
        rw [heq]
        exact Nat.le_sub_of_add_le hlow
      · exact .inl rfl

/-- The characters with a meaning of their own, and the 0, are kept apart from the others. -/
theorem folded_eq_iff (ignorecase : Bool) {c k : UInt8} (hk : k < 0x41) : folded ignorecase c = k ↔ c = k := by
  obtain heq | ⟨hc, hfolded⟩ := folded_cases ignorecase c
  · rw [heq]
  · have hne : ∀ {x : UInt8}, 0x41 ≤ x → x ≠ k := by
      rintro x hx rfl
      exact UInt8.not_le.mpr hk hx
    exact iff_of_false (hne hfolded) (hne hc)

namespace Matching

variable {v : Matching}

theorem star_le (v : Matching) : v.star ≤ v.pattern.length := List.findIdx_le_length

theorem byte_of_lt_star {j : ℕ} (h : j < v.star) : v.pattern.byte j ≠ 42 ∧ v.pattern.byte j ≠ 0 := by
  have hlt : j < v.pattern.length := Nat.lt_of_lt_of_le h v.star_le
  have hnot := List.not_of_lt_findIdx h
  refine ⟨?_, (v.pattern.byte_ne_zero_iff j).mpr hlt⟩
  rw [CString.byte, List.getD_eq_getElem _ _ hlt]
  exact of_decide_eq_false hnot

theorem byte_star (h : v.star < v.pattern.length) : v.pattern.byte v.star = 42 := by
  have hstar : decide (v.pattern.chars.get ⟨v.star, h⟩ = 42) = true :=
    List.findIdx_getElem (p := fun c : UInt8 => decide (c = 42)) (w := h)
  rw [CString.byte, List.getD_eq_getElem _ _ h]
  exact of_decide_eq_true hstar

theorem byte_of_end (h : v.star = v.pattern.length) : v.pattern.byte v.star = 0 := by
  by_contra hne
  exact absurd ((v.pattern.byte_ne_zero_iff _).mp hne) (by omega)

theorem not_charMatch_zero {c : UInt8} (hc : c ≠ 0) : ¬v.CharMatch 0 c := by
  rintro (h | h)
  · exact absurd h (by decide)
  · have hzero : folded v.ignorecase 0 = 0 := (folded_eq_iff v.ignorecase (by decide)).mpr rfl
    exact hc ((folded_eq_iff v.ignorecase (by decide)).mp (h.symm.trans hzero))

/-- The comparison of a character. -/
theorem charMatch_iff {m c : UInt8} : v.CharMatch m c ↔
    ¬(folded v.ignorecase m ≠ folded v.ignorecase c ∧ folded v.ignorecase m ≠ 63) := by
  rw [CharMatch, ← folded_eq_iff v.ignorecase (c := m) (k := 63) (by decide), not_and_or, not_not, not_not]
  exact or_comm

/-- Character `j` from the end of `n` characters behind a star, compared with the name up to `i`. -/
def BackMatch (v : Matching) (star n : ℕ) (i : ℤ) (j : ℕ) : Prop :=
  v.CharMatch (v.pattern.byte (star + n - j)) (v.nameAt (i - j))

theorem backMatch_succ (star n : ℕ) (i : ℤ) (j : ℕ) :
    v.BackMatch star (n + 1) i (j + 1) ↔ v.BackMatch star n (i - 1) j := by
  have hpattern : star + (n + 1) - (j + 1) = star + n - j := by omega
  have hname : i - (j + 1 : ℕ) = i - 1 - j := by omega
  rw [BackMatch, hpattern, hname]
  rfl

theorem backMatch_zero (star n : ℕ) (i : ℤ) :
    v.BackMatch star (n + 1) i 0 ↔ ¬(folded v.ignorecase (v.pattern.byte (star + n + 1)) ≠
      folded v.ignorecase (v.nameAt i) ∧ folded v.ignorecase (v.pattern.byte (star + n + 1)) ≠ 63) := by
  have hname : i - (0 : ℕ) = i := by omega
  rw [BackMatch, hname]
  exact charMatch_iff

/-- The loop from the ends says whether all characters match. -/
theorem matchBack_result (star n : ℕ) (i : ℤ) :
    (v.matchBack star n i).1 = true ↔ ∀ j < n, v.BackMatch star n i j := by
  induction n generalizing i with
  | zero => exact iff_of_true rfl fun j hj => absurd hj (Nat.not_lt_zero j)
  | succ n ih =>
    rw [matchBack]
    dsimp only
    split
    · next hne =>
      refine iff_of_false Bool.false_ne_true fun hall => ?_
      exact (backMatch_zero star n i).mp (hall 0 n.succ_pos) hne
    · next heq =>
      dsimp only
      rw [ih]
      constructor
      · rintro hall (_ | j) hj
        · exact (backMatch_zero star n i).mpr heq
        · exact (backMatch_succ star n i j).mpr (hall j (Nat.lt_of_succ_lt_succ hj))
      · intro hall j hj
        exact (backMatch_succ star n i j).mp (hall (j + 1) (Nat.succ_lt_succ hj))

/-- The loop from the ends reads a character once all before it match. -/
theorem matchBack_reads {star n : ℕ} {i : ℤ} (hpattern : star + n ≤ v.pattern.length)
    (hi : i ≤ v.name.length) :
    (∀ r ∈ (v.matchBack star n i).2, v.InString r) ↔
      ∀ j < n, (∀ k < j, v.BackMatch star n i k) → (j : ℤ) ≤ i := by
  induction n generalizing i with
  | zero =>
    exact iff_of_true (fun r hr => absurd hr List.not_mem_nil) fun j hj => absurd hj (Nat.not_lt_zero j)
  | succ n ih =>
    have hread : v.InString (.pattern (star + n + 1)) := hpattern
    have hname : v.InString (.name i) ↔ 0 ≤ i := and_iff_left hi
    rw [matchBack]
    dsimp only
    split
    · next hne =>
      rw [List.forall_mem_cons, List.forall_mem_singleton, hname, and_iff_right hread]
      constructor
      · rintro hzero (_ | j) hj hall
        · exact hzero
        · exact absurd hne ((backMatch_zero star n i).mp (hall 0 j.succ_pos))
      · intro hall
        exact hall 0 n.succ_pos fun k hk => absurd hk (Nat.not_lt_zero k)
    · next heq =>
      have hfirst := (backMatch_zero star n i).mpr heq
      rw [List.forall_mem_cons, List.forall_mem_cons, hname, and_iff_right hread,
        ih (Nat.le_of_succ_le hpattern) (by omega)]
      constructor
      · rintro ⟨hzero, hrest⟩ (_ | j) hj hall
        · exact hzero
        · have hle := hrest j (Nat.lt_of_succ_lt_succ hj) fun k hk =>
            (backMatch_succ star n i k).mp (hall (k + 1) (Nat.succ_lt_succ hk))
          omega
      · intro hall
        refine ⟨hall 0 n.succ_pos fun k hk => absurd hk (Nat.not_lt_zero k), fun j hj hrest => ?_⟩
        have hle := hall (j + 1) (Nat.succ_lt_succ hj) fun k hk => by
          cases k with
          | zero => exact hfirst
          | succ k => exact (backMatch_succ star n i k).mpr (hrest k (Nat.lt_of_succ_lt_succ hk))
        omega

/-- The characters from `i` on match up to the star or to the end of the name. -/
def Agrees (v : Matching) (i : ℕ) : Prop :=
  ∀ j, i ≤ j → j < v.star → j < v.name.length → v.CharMatch (v.pattern.byte j) (v.name.byte j)

theorem agrees_succ {i : ℕ} (h : v.CharMatch (v.pattern.byte i) (v.name.byte i)) :
    v.Agrees i ↔ v.Agrees (i + 1) := by
  refine ⟨fun hall j hj => hall j (Nat.le_of_succ_le hj), fun hall j hj hstar hname => ?_⟩
  obtain heq | hlt := Nat.eq_or_lt_of_le hj
  · exact heq ▸ h
  · exact hall j hlt hstar hname

/-- The loop from the ends as `match_name` starts it. -/
def back (v : Matching) : Bool × List MatchRead := v.matchBack v.star v.tail (v.name.length - 1)

/-- The loop comes to the star with some of the name left. -/
def AtStar (v : Matching) : Prop :=
  v.star < v.name.length ∧ v.star < v.pattern.length ∧ v.postmatch = true

/-- The result of the loop over both strings. -/
def Accepts (v : Matching) : Prop :=
  (v.star < v.name.length → v.star < v.pattern.length) ∧ (v.AtStar → v.back.1 = true) ∧
    (v.name.length < v.star → v.name.length = 16)

/-- The loop at the end of the name. -/
theorem matchFrom_end {k i : ℕ} (hname : v.name.length = i) (hstar : i ≤ v.star) :
    v.matchFrom (k + 1) i = (decide (v.star = i), [.name i, .pattern i]) := by
  have hzero : v.name.byte i = 0 := by
    by_contra hne
    exact absurd ((v.name.byte_ne_zero_iff i).mp hne) (by omega)
  rw [matchFrom, if_pos hzero]
  obtain heq | hlt := Nat.eq_or_lt_of_le hstar
  · have hbyte : v.pattern.byte i = 42 ∨ v.pattern.byte i = 0 := by
      obtain hend | hlt := Nat.eq_or_lt_of_le v.star_le
      · refine .inr ?_
        by_contra hne
        exact absurd ((v.pattern.byte_ne_zero_iff i).mp hne) (by omega)
      · exact .inl (heq ▸ byte_star hlt)
    obtain hbyte | hbyte := hbyte
    · rw [hbyte, decide_eq_true heq.symm]
      rfl
    · rw [hbyte, decide_eq_true heq.symm]
      rfl
  · obtain ⟨hstar, hzero⟩ := byte_of_lt_star hlt
    rw [decide_eq_true hzero, decide_eq_true hstar, decide_eq_false (by omega)]
    rfl

/-- The loop at the star. -/
theorem matchFrom_star {k : ℕ} (hname : v.star < v.name.length) (hstar : v.star < v.pattern.length) :
    (v.matchFrom (k + 1) v.star).1 = (!v.postmatch || v.back.1) ∧
      ((∀ r ∈ (v.matchFrom (k + 1) v.star).2, v.InString r) ↔
        (v.postmatch = true → ∀ r ∈ v.back.2, v.InString r)) := by
  have hbyte : folded v.ignorecase (v.pattern.byte v.star) = 42 :=
    (folded_eq_iff v.ignorecase (by decide)).mpr (byte_star hstar)
  have hin : v.InString (.name v.star) := ⟨Int.natCast_nonneg _, Int.ofNat_le.mpr (Nat.le_of_lt hname)⟩
  have hpattern : v.InString (.pattern v.star) := Nat.le_of_lt hstar
  rw [matchFrom, if_neg ((v.name.byte_ne_zero_iff _).mpr hname)]
  dsimp only
  rw [hbyte, if_neg (by decide), if_pos rfl]
  cases v.postmatch with
  | false =>
    refine ⟨rfl, iff_of_true ?_ fun h => absurd h Bool.false_ne_true⟩
    exact List.forall_mem_cons.mpr ⟨hin, List.forall_mem_singleton.mpr hpattern⟩
  | true =>
    refine ⟨rfl, ?_⟩
    rw [if_pos rfl, List.forall_mem_cons, List.forall_mem_cons, List.forall_mem_append,
      List.forall_mem_append, and_iff_right hin, and_iff_right hpattern, forall_prop_of_true rfl]
    refine and_iff_right ⟨fun r hr => ?_, fun r hr => ?_⟩
    · obtain ⟨j, hj, rfl⟩ := List.mem_map.mp hr
      have hrange := List.mem_range'_1.mp hj
      show j ≤ v.pattern.length
      omega
    · obtain ⟨j, hj, rfl⟩ := List.mem_map.mp hr
      have hrange := List.mem_range'_1.mp hj
      exact ⟨Int.natCast_nonneg j, Int.ofNat_le.mpr (by omega)⟩

/-- The loop at a character in front of the star. -/
theorem matchFrom_char {k i : ℕ} (hname : i < v.name.length) (hne : v.pattern.byte i ≠ 42)
    [Decidable (v.CharMatch (v.pattern.byte i) (v.name.byte i))] :
    v.matchFrom (k + 1) i =
      if v.CharMatch (v.pattern.byte i) (v.name.byte i) then
        ((v.matchFrom k (i + 1)).1, .name i :: .pattern i :: (v.matchFrom k (i + 1)).2)
      else (false, [.name i, .pattern i]) := by
  have hstar : folded v.ignorecase (v.pattern.byte i) ≠ 42 :=
    fun h => hne ((folded_eq_iff v.ignorecase (by decide)).mp h)
  rw [matchFrom, if_neg ((v.name.byte_ne_zero_iff _).mpr hname)]
  dsimp only
  by_cases hany : folded v.ignorecase (v.pattern.byte i) = 63
  · rw [if_pos hany, if_pos (.inl ((folded_eq_iff v.ignorecase (by decide)).mp hany))]
  · rw [if_neg hany, if_neg hstar]
    by_cases heq : folded v.ignorecase (v.pattern.byte i) = folded v.ignorecase (v.name.byte i)
    · rw [if_neg (not_not.mpr heq), if_pos (.inr heq)]
    · rw [if_pos heq, if_neg (charMatch_iff.not.mpr (not_not.mpr ⟨heq, hany⟩))]

/-- The loop over both strings: what it returns and what it reads. -/
theorem matchFrom_spec (hname : v.name.length ≤ 16) {k i : ℕ} (hk : i + k = 16) (hstar : i ≤ v.star)
    (hi : i ≤ v.name.length) :
    ((v.matchFrom k i).1 = true ↔ v.Agrees i ∧ v.Accepts) ∧
      ((∀ r ∈ (v.matchFrom k i).2, v.InString r) ↔
        (v.Agrees i → v.AtStar → ∀ r ∈ v.back.2, v.InString r)) := by
  classical
  induction k generalizing i with
  | zero =>
    have hpattern : v.InString (.pattern i) := Nat.le_trans hstar v.star_le
    have hno : ¬v.AtStar := fun h => absurd h.1 (by omega)
    rw [matchFrom, List.forall_mem_singleton]
    refine ⟨iff_of_true rfl ⟨fun j hj _ hlt => absurd hlt (by omega), fun hlt => absurd hlt (by omega),
      fun h => absurd h hno, fun _ => by omega⟩, iff_of_true hpattern fun _ h => absurd h hno⟩
  | succ k ih =>
    have hpattern : v.InString (.pattern i) := Nat.le_trans hstar v.star_le
    have hin : v.InString (.name i) := ⟨Int.natCast_nonneg i, Int.ofNat_le.mpr hi⟩
    have hreads : ∀ r ∈ [.name i, .pattern i], v.InString r :=
      List.forall_mem_cons.mpr ⟨hin, List.forall_mem_singleton.mpr hpattern⟩
    obtain hend | hlt := Nat.eq_or_lt_of_le hi
    · -- the name ends here
      have hno : ¬v.AtStar := fun h => absurd h.1 (by omega)
      rw [matchFrom_end hend.symm hstar, decide_eq_true_iff]
      refine ⟨⟨fun heq => ⟨fun j hj _ hlt => absurd hlt (by omega), fun hlt => absurd hlt (by omega),
        fun h => absurd h hno, fun hlt => absurd hlt (by omega)⟩, fun h => ?_⟩,
        iff_of_true hreads fun _ h => absurd h hno⟩
      by_contra hne
      have hfull := h.2.2.2 (by omega)
      omega
    · obtain heq | hbefore := Nat.eq_or_lt_of_le hstar
      · -- the star, or the end of the pattern
        subst heq
        have hagrees : v.Agrees v.star := fun j hj hlt => absurd hlt (by omega)
        obtain hend | hmore := Nat.eq_or_lt_of_le v.star_le
        · have hno : ¬v.CharMatch (v.pattern.byte v.star) (v.name.byte v.star) := by
            rw [byte_of_end hend]
            exact not_charMatch_zero ((v.name.byte_ne_zero_iff _).mpr hlt)
          have hnot : ¬v.AtStar := fun h => absurd h.2.1 (by omega)
          rw [matchFrom_char hlt (by rw [byte_of_end hend]; decide), if_neg hno]
          refine ⟨iff_of_false Bool.false_ne_true fun h => ?_, iff_of_true hreads fun _ h => absurd h hnot⟩
          exact absurd (h.2.1 hlt) (by omega)
        · obtain ⟨hresult, hback⟩ := matchFrom_star (k := k) hlt hmore
          rw [hresult, hback, Bool.or_eq_true, Bool.not_eq_true']
          refine ⟨⟨fun h => ⟨hagrees, fun _ => hmore, fun hat => ?_, fun h => absurd h (by omega)⟩,
            fun h => ?_⟩, fun h _ hat => h hat.2.2, fun h hpost => h hagrees ⟨hlt, hmore, hpost⟩⟩
          · exact h.resolve_left fun hfalse => Bool.false_ne_true (hfalse.symm.trans hat.2.2)
          · cases hpost : v.postmatch with
            | false => exact .inl rfl
            | true => exact .inr (h.2.2.1 ⟨hlt, hmore, hpost⟩)
      · -- a character of the pattern
        rw [matchFrom_char hlt (byte_of_lt_star hbefore).1]
        split
        · next hmatch =>
          obtain ⟨hresult, hrest⟩ := ih (by omega) hbefore hlt
          dsimp only
          rw [hresult, agrees_succ hmatch, List.forall_mem_cons, List.forall_mem_cons, and_iff_right hin,
            and_iff_right hpattern]
          exact ⟨Iff.rfl, hrest⟩
        · next hno =>
          have hnot : ¬v.Agrees i := fun hall => hno (hall i (Nat.le_refl i) hbefore hlt)
          exact ⟨iff_of_false Bool.false_ne_true fun h => hnot h.1,
            iff_of_true hreads fun h => absurd h hnot⟩

/-- In the name, the loop from the ends compares what the pattern means. -/
theorem backMatch_iff (hstar : v.star < v.pattern.length) {j : ℕ} (hj : j < v.name.length) :
    v.BackMatch v.star v.tail (v.name.length - 1) j ↔
      v.CharMatch (v.pattern.byte (v.pattern.length - 1 - j)) (v.name.byte (v.name.length - 1 - j)) := by
  have hlast : v.star + v.tail = v.pattern.length - 1 := by
    rw [tail]
    omega
  have hname : v.nameAt ((v.name.length : ℤ) - 1 - j) = v.name.byte (v.name.length - 1 - j) := by
    rw [nameAt, if_pos (by omega)]
    congr 1
    omega
  rw [BackMatch, hlast, hname]

theorem finishes_iff (hstar : v.star < v.pattern.length) {n : ℕ} (hn : n ≤ v.name.length) :
    v.Finishes n ↔ ∀ j < n, v.BackMatch v.star v.tail (v.name.length - 1) j :=
  forall₂_congr fun _ hj => (backMatch_iff hstar (Nat.lt_of_lt_of_le hj hn)).symm

/-- The loop from the ends leaves the name once all of it matches. -/
theorem back_reads (hstar : v.star < v.pattern.length) :
    (∀ r ∈ v.back.2, v.InString r) ↔ (v.name.length < v.tail → ¬v.Finishes v.name.length) := by
  have hlast : v.star + v.tail ≤ v.pattern.length := by
    rw [tail]
    omega
  rw [back, matchBack_reads hlast (by omega), finishes_iff hstar (Nat.le_refl _)]
  constructor
  · intro hall hlt hfinishes
    have hle := hall v.name.length hlt hfinishes
    omega
  · intro hnot j hj hall
    by_contra hgt
    exact hnot (by omega) fun k hk => hall k (by omega)

theorem agrees_zero {n : ℕ} (hn : n = min v.star v.name.length) : v.Agrees 0 ↔ v.Starts n := by
  refine ⟨fun h j hj => h j (Nat.zero_le j) (by omega) (by omega), fun h j _ hstar hname => h j (by omega)⟩

/-- Names that fill their field take longer patterns, and characters behind a star may match what the
star or the characters in front of it match as well, or what lies in front of the name. -/
structure Exact (v : Matching) : Prop where
  full : ¬(v.name.length = 16 ∧ 16 < v.star ∧ v.Starts 16)
  apart : ¬(v.postmatch = true ∧ v.star < v.pattern.length ∧ v.star ≤ v.name.length ∧ v.Starts v.star ∧
    v.name.length < v.star + v.tail ∧
      (v.star = v.name.length ∨ v.Finishes (min v.tail v.name.length)))

/-- The decision of the loops and what it should be. -/
def Decides (v : Matching) : Prop :=
  (v.Agrees 0 ∧ v.Accepts ↔ v.Selects) ∧ (v.Agrees 0 → v.AtStar → ∀ r ∈ v.back.2, v.InString r)

/-- The name ends in front of the star. -/
theorem decides_of_lt (h : v.name.length < v.star) : v.Decides ↔ v.Exact := by
  have hat : ¬v.AtStar := fun hat => absurd hat.1 (by omega)
  have hselects : ¬v.Selects := fun hselects => absurd hselects.1 (by omega)
  have haccepts : v.Accepts ↔ v.name.length = 16 :=
    ⟨fun haccepts => haccepts.2.2 h,
      fun hfull => ⟨fun hlt => absurd hlt (by omega), fun h => absurd h hat, fun _ => hfull⟩⟩
  have hexact : v.Exact ↔ ¬(v.Starts v.name.length ∧ v.name.length = 16) := by
    refine ⟨fun hexact hfull => hexact.full ⟨hfull.2, by omega, hfull.2 ▸ hfull.1⟩, fun hno => ⟨?_, ?_⟩⟩
    · rintro ⟨hfull, -, hstarts⟩
      exact hno ⟨hfull.symm ▸ hstarts, hfull⟩
    · exact fun hapart => absurd hapart.2.2.1 (by omega)
  rw [Decides, haccepts, agrees_zero (n := v.name.length) (by omega), iff_false_right hselects, hexact]
  exact and_iff_left fun _ h => absurd h hat

/-- The name ends at the star, or with a pattern that has none. -/
theorem decides_of_eq (h : v.star = v.name.length) (hname : v.name.length ≤ 16) :
    v.Decides ↔ v.Exact := by
  have hle : v.star ≤ 16 := h.trans_le hname
  have hat : ¬v.AtStar := fun hat => absurd hat.1 (by omega)
  have haccepts : v.Accepts :=
    ⟨fun hlt => absurd hlt (by omega), fun h => absurd h hat, fun hlt => absurd hlt (by omega)⟩
  rw [Decides, and_iff_left haccepts, agrees_zero (n := v.star) (by omega)]
  constructor
  · rintro ⟨hiff, -⟩
    refine ⟨fun hfull => absurd hfull.2.1 (by omega), ?_⟩
    rintro ⟨hpost, hlt, -, hstarts, hmore, -⟩
    have hle := ((hiff.mp hstarts).2.2.2 hlt hpost).1
    omega
  · intro hexact
    refine ⟨⟨fun hstarts => ⟨by omega, hstarts, fun _ => h, fun hlt hpost => ?_⟩, fun h => h.2.1⟩,
      fun _ h => absurd h hat⟩
    have htail : ¬v.name.length < v.star + v.tail := fun hmore =>
      hexact.apart ⟨hpost, hlt, by omega, hstarts, hmore, .inl h⟩
    exact ⟨by omega, fun j hj => absurd hj (by omega)⟩

/-- The characters behind the star, where those in front of it match. -/
theorem back_iff (hstar : v.star < v.pattern.length) :
    ((v.back.1 = true ↔ v.star + v.tail ≤ v.name.length ∧ v.Finishes v.tail) ∧
        ∀ r ∈ v.back.2, v.InString r) ↔
      ¬(v.name.length < v.star + v.tail ∧ v.Finishes (min v.tail v.name.length)) := by
  have hback : v.back.1 = true ↔ ∀ j < v.tail, v.BackMatch v.star v.tail (v.name.length - 1) j :=
    matchBack_result ..
  rw [back_reads hstar]
  by_cases hle : v.tail ≤ v.name.length
  · rw [Nat.min_eq_left hle, hback, ← finishes_iff hstar hle]
    constructor
    · rintro ⟨hiff, -⟩ ⟨hmore, hfinishes⟩
      exact absurd (hiff.mp hfinishes).1 (by omega)
    · intro hno
      refine ⟨⟨fun hfinishes => ⟨?_, hfinishes⟩, fun h => h.2⟩, fun hlt => absurd hlt (by omega)⟩
      by_contra hmore
      exact hno ⟨by omega, hfinishes⟩
  · rw [Nat.min_eq_right (by omega)]
    constructor
    · rintro ⟨-, hreads⟩ ⟨-, hfinishes⟩
      exact hreads (by omega) hfinishes
    · intro hno
      have hnot : ¬v.Finishes v.name.length := fun hfinishes => hno ⟨by omega, hfinishes⟩
      refine ⟨iff_of_false (fun hall => hnot ?_) fun h => absurd h.1 (by omega), fun _ => hnot⟩
      exact (finishes_iff hstar (Nat.le_refl _)).mpr fun j hj => hback.mp hall j (by omega)

/-- Some of the name is left at the star. -/
theorem decides_of_atStar (hat : v.AtStar) (hname : v.name.length ≤ 16) : v.Decides ↔ v.Exact := by
  obtain ⟨hlt, hstar, hpost⟩ := hat
  have hle : v.star ≤ 16 := (Nat.le_of_lt hlt).trans hname
  have haccepts : v.Accepts ↔ v.back.1 = true :=
    ⟨fun haccepts => haccepts.2.1 ⟨hlt, hstar, hpost⟩,
      fun hback => ⟨fun _ => hstar, fun _ => hback, fun hlt => absurd hlt (by omega)⟩⟩
  have hselects : v.Selects ↔ v.Starts v.star ∧ v.star + v.tail ≤ v.name.length ∧ v.Finishes v.tail :=
    ⟨fun hs => ⟨hs.2.1, hs.2.2.2 hstar hpost⟩,
      fun hs => ⟨by omega, hs.1, fun heq => absurd heq (by omega), fun _ _ => hs.2⟩⟩
  have hexact : v.Exact ↔ ¬(v.Starts v.star ∧ v.name.length < v.star + v.tail ∧
      v.Finishes (min v.tail v.name.length)) :=
    ⟨fun hexact hno => hexact.apart ⟨hpost, hstar, by omega, hno.1, hno.2.1, .inr hno.2.2⟩,
      fun hno => ⟨fun hfull => absurd hfull.2.1 (by omega), fun hap => hno ⟨hap.2.2.2.1, hap.2.2.2.2.1,
        hap.2.2.2.2.2.resolve_left (by omega)⟩⟩⟩
  rw [Decides, agrees_zero (n := v.star) (by omega), haccepts, hselects, hexact]
  by_cases hstarts : v.Starts v.star
  · rw [and_iff_right hstarts, and_iff_right hstarts, and_iff_right hstarts, ← back_iff hstar,
      imp_iff_right hstarts, imp_iff_right ⟨hlt, hstar, hpost⟩]
  · exact iff_of_true ⟨iff_of_false (fun h => hstarts h.1) fun h => hstarts h.1,
      fun h => absurd h hstarts⟩ fun h => hstarts h.1

/-- Some of the name is left, and the characters behind the star, if there is one, do not matter. -/
theorem decides_of_not_atStar (h : v.star < v.name.length) (hat : ¬v.AtStar) (hname : v.name.length ≤ 16) :
    v.Decides ↔ v.Exact := by
  have hle : v.star ≤ 16 := (Nat.le_of_lt h).trans hname
  have hpost : v.star < v.pattern.length → v.postmatch ≠ true := fun hstar hpost => hat ⟨h, hstar, hpost⟩
  have haccepts : v.Accepts ↔ v.star < v.pattern.length :=
    ⟨fun haccepts => haccepts.1 h, fun hstar => ⟨fun _ => hstar, fun h => absurd h hat,
      fun hlt => absurd hlt (by omega)⟩⟩
  have hselects : v.Selects ↔ v.Starts v.star ∧ v.star < v.pattern.length := by
    refine ⟨fun hs => ⟨hs.2.1, Nat.lt_of_le_of_ne v.star_le fun heq => ?_⟩,
      fun hs => ⟨by omega, hs.1, fun heq => absurd hs.2 (by omega), fun hlt hp => absurd hp (hpost hlt)⟩⟩
    exact absurd (hs.2.2.1 heq) (by omega)
  rw [Decides, agrees_zero (n := v.star) (by omega), haccepts, hselects]
  refine iff_of_true ⟨Iff.rfl, fun _ h => absurd h hat⟩ ⟨fun hfull => absurd hfull.2.1 (by omega), ?_⟩
  exact fun hap => hpost hap.2.1 hap.1

/-- `match_name` decides what the pattern means, and reads only the two strings. -/
theorem matchName_iff (hname : v.name.length ≤ 16) :
    ((v.matchName.1 = true ↔ v.Selects) ∧ ∀ r ∈ v.matchName.2, v.InString r) ↔ v.Exact := by
  obtain ⟨hresult, hreads⟩ := matchFrom_spec hname (k := 16) (Nat.zero_add 16) (Nat.zero_le v.star)
    (Nat.zero_le v.name.length)
  rw [matchName, hresult, hreads]
  obtain hlt | heq | hgt := Nat.lt_trichotomy v.name.length v.star
  · exact decides_of_lt hlt
  · exact decides_of_eq heq.symm hname
  · by_cases hat : v.AtStar
    · exact decides_of_atStar hat hname
    · exact decides_of_not_atStar hgt hat hname

/-- The pattern `a*?` and the name `AXB`, without regard to case. -/
theorem matchName_axb :
    let v : Matching := ⟨⟨[97, 42, 63], by simp⟩, ⟨[65, 88, 66], by simp⟩, fun _ => 0, true, true⟩
    (v.matchName.1 = true ↔ v.Selects) ∧ ∀ r ∈ v.matchName.2, v.InString r := by
  intro v
  refine (matchName_iff (v := v) (by decide)).mpr ⟨fun h => absurd h.1 (by decide), fun h => ?_⟩
  exact absurd h.2.2.2.2.1 (by decide)

/-- The pattern `A*B` and the name `A`. -/
theorem not_matchName : ¬∀ v : Matching, v.name.length ≤ 16 →
    (v.matchName.1 = true ↔ v.Selects) ∧ ∀ r ∈ v.matchName.2, v.InString r := by
  intro h
  obtain ⟨hiff, -⟩ := h ⟨⟨[65, 42, 66], by simp⟩, ⟨[65], by simp⟩, fun _ => 0, false, true⟩ (by decide)
  have hselects := hiff.mp (by decide)
  exact absurd (hselects.2.2.2 (by decide) rfl).1 (by decide)

end Matching

end NoDiskEmu.Dos
