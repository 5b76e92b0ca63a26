import NoDiskEmu.Dos.Listing
import NoDiskEmu.Dos.Parser

/-! Numbers of two digits, as `appendnumber` writes and `parse_number` reads them. -/

namespace NoDiskEmu.Dos

open Library

/-- The two digits of a number below 100. -/
def twoDigits (value : UInt8) : List UInt8 := [48 + value / 10, 48 + value % 10]

/-- Bytes one behind the other. -/
def Pen.puts (p : Pen) (xs : List UInt8) : Pen := xs.foldl Pen.put p

section Writing

variable {p : Pen} {xs ys : List UInt8} {value : UInt8}

@[simp] theorem Pen.puts_nil : p.puts [] = p := rfl

@[simp] theorem Pen.puts_cons (x : UInt8) : p.puts (x :: xs) = (p.put x).puts xs := rfl

theorem Pen.puts_append : p.puts (xs ++ ys) = (p.puts xs).puts ys := List.foldl_append

theorem Pen.pos_puts (p : Pen) (xs : List UInt8) : (p.puts xs).pos = p.pos + xs.length := by
  induction xs generalizing p with
  | nil => rfl
  | cons x xs ih =>
    have hput : (p.put x).pos = p.pos + 1 := rfl
    rw [puts_cons, ih, hput, List.length_cons]
    omega

theorem Pen.data_puts : (p.puts xs).data = Memory.write p.data p.pos xs.length fun i => xs.getD i 0 := by
  induction xs generalizing p with
  | nil =>
    funext j
    rw [Memory.write_outside (by simp; omega)]
    rfl
  | cons x xs ih =>
    have hput : p.put x = ⟨Function.update p.data p.pos x, p.pos + 1⟩ := rfl
    rw [puts_cons, ih, hput]
    funext j
    simp only
    by_cases hin : p.pos + 1 ≤ j ∧ j < p.pos + 1 + xs.length
    · rw [Memory.write, if_pos hin, Memory.write, if_pos (by simp; omega),
        show j - p.pos = j - (p.pos + 1) + 1 by omega, List.getD_cons_succ]
    · rw [Memory.write, if_neg hin]
      by_cases hself : j = p.pos
      · subst hself
        rw [Function.update_self, Memory.write, if_pos (by simp), Nat.sub_self, List.getD_cons_zero]
      · rw [Function.update_of_ne hself, Memory.write_outside (by simp; omega)]

theorem Pen.appendnumber_lt (h : value < 100) : p.appendnumber value = p.puts (twoDigits value) := by
  have hnot : ¬value ≥ 100 := UInt8.not_le.mpr h
  simp only [appendnumber, if_neg hnot]
  rfl

end Writing

section Reading

variable {value : UInt8} {s : List UInt8}

theorem digit_lt {n : UInt8} (h : n < 10) : isdigit (48 + n) = true ∧ (48 + n).toNat = 48 + n.toNat := by
  have hn : n.toNat < 10 := h
  have hsum : (48 + n).toNat = 48 + n.toNat := by
    rw [UInt8.toNat_add]
    simp only [UInt8.reduceToNat]
    omega
  refine ⟨?_, hsum⟩
  rw [isdigit, Bool.and_eq_true, decide_eq_true_eq, decide_eq_true_eq, UInt8.le_iff_toNat_le,
    UInt8.le_iff_toNat_le, hsum]
  simp only [UInt8.reduceToNat]
  omega

theorem digits_lt (h : value < 100) : value / 10 < 10 ∧ value % 10 < 10 := by
  have hv : value.toNat < 100 := h
  rw [UInt8.lt_iff_toNat_lt, UInt8.lt_iff_toNat_lt, UInt8.toNat_div, UInt8.toNat_mod]
  simp only [UInt8.reduceToNat]
  omega

theorem numberDigits_two (h : value < 100) (res : ℕ) :
    numberDigits (twoDigits value ++ s) res = numberDigits s ((res * 100 + value.toNat) % 65536) := by
  obtain ⟨htens, hones⟩ := digits_lt h
  obtain ⟨hdigit, hnum⟩ := digit_lt htens
  obtain ⟨hdigit', hnum'⟩ := digit_lt hones
  have hv : value.toNat < 100 := h
  rw [twoDigits, List.cons_append, List.cons_append, List.nil_append, numberDigits, if_pos hdigit, numberDigits,
    if_pos hdigit', hnum, hnum', UInt8.toNat_div, UInt8.toNat_mod]
  simp only [UInt8.reduceToNat]
  congr 1
  omega

theorem numberDigits_end (hs : isdigit (peek s) = false) (res : ℕ) : numberDigits s res = (res, s) := by
  cases s with
  | nil => rfl
  | cons c cs =>
    have hc : isdigit c = false := hs
    rw [numberDigits, hc]
    rfl

theorem parseNumber_of_digit {c : UInt8} (hc : isdigit c = true) :
    parseNumber (c :: s) = numberDigits (c :: s) 0 := by
  have hne : ¬c = 32 := by
    rintro rfl
    exact absurd hc (by decide)
  rw [parseNumber, List.dropWhile_cons_of_neg (by simpa using hne)]

/-- A number of two digits is read back. -/
theorem parseNumber_two (h : value < 100) (hs : isdigit (peek s) = false) :
    parseNumber (twoDigits value ++ s) = (value.toNat, s) := by
  have hv : value.toNat < 100 := h
  have hdigits : parseNumber (twoDigits value ++ s) = numberDigits (twoDigits value ++ s) 0 :=
    parseNumber_of_digit (digit_lt (digits_lt h).1).1
  rw [hdigits, numberDigits_two h, numberDigits_end hs, Nat.zero_mul, Nat.zero_add,
    Nat.mod_eq_of_lt (by omega)]

/-- A number of four digits is read back. -/
theorem parseNumber_four {value' : UInt8} (h : value < 100) (h' : value' < 100)
    (hs : isdigit (peek s) = false) :
    parseNumber (twoDigits value ++ (twoDigits value' ++ s)) = (100 * value.toNat + value'.toNat, s) := by
  have hv : value.toNat < 100 := h
  have hv' : value'.toNat < 100 := h'
  have hdigits : parseNumber (twoDigits value ++ (twoDigits value' ++ s)) =
      numberDigits (twoDigits value ++ (twoDigits value' ++ s)) 0 :=
    parseNumber_of_digit (digit_lt (digits_lt h).1).1
  rw [hdigits, numberDigits_two h, numberDigits_two h', numberDigits_end hs]
  congr 1
  omega

end Reading

end NoDiskEmu.Dos
