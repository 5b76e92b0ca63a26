import Mathlib.Data.Nat.Notation
import Mathlib.Logic.Function.Basic

/-! A byte-addressed store as a function from addresses to bytes, with block writes. -/

namespace Library.Memory

/-- `m` with the `n` bytes from `off` on replaced by the first `n` bytes of `data`. -/
def write (m : ℕ → UInt8) (off n : ℕ) (data : ℕ → UInt8) : ℕ → UInt8 :=
  fun o => if off ≤ o ∧ o < off + n then data (o - off) else m o

variable {m : ℕ → UInt8} {off n o : ℕ} {data : ℕ → UInt8}

theorem write_inside (h : o < n) : write m off n data (off + o) = data o := by
  rw [write, if_pos ⟨by omega, by omega⟩, Nat.add_sub_cancel_left]

theorem write_zero (h : o < n) : write m 0 n data o = data o := by
  rw [write, if_pos ⟨Nat.zero_le o, by omega⟩, Nat.sub_zero]

theorem write_outside (h : o < off ∨ off + n ≤ o) : write m off n data o = m o := by
  rw [write, if_neg (by omega)]

theorem write_congr {data' : ℕ → UInt8} (h : ∀ i < n, data i = data' i) :
    write m off n data = write m off n data' := by
  funext o
  by_cases ho : off ≤ o ∧ o < off + n
  · rw [write, if_pos ho, write, if_pos ho, h _ (by omega)]
  · rw [write, if_neg ho, write, if_neg ho]

theorem write_one : write m off 1 data = Function.update m off (data 0) := by
  funext o
  by_cases ho : o = off
  · subst ho
    rw [Function.update_self]
    exact write_inside Nat.zero_lt_one
  · rw [Function.update_of_ne ho, write_outside (by omega)]

/-- A block that is written twice has the second data. -/
theorem write_write {data' : ℕ → UInt8} : write (write m off n data) off n data' = write m off n data' := by
  funext o
  by_cases ho : off ≤ o ∧ o < off + n
  · rw [write, if_pos ho, write, if_pos ho]
  · rw [write_outside (by omega), write_outside (by omega), write_outside (by omega)]

/-- Writing back the bytes that a store holds leaves it unchanged. -/
theorem write_same (h : ∀ i < n, data i = m (off + i)) : write m off n data = m := by
  funext o
  by_cases ho : off ≤ o ∧ o < off + n
  · rw [write, if_pos ho, h _ (by omega)]
    congr 1
    omega
  · rw [write, if_neg ho]

/-- Two writes commute when they agree on the addresses they share. -/
theorem write_comm_of_agree {off' n' : ℕ} {data' : ℕ → UInt8}
    (h : ∀ o, off ≤ o → o < off + n → off' ≤ o → o < off' + n' → data (o - off) = data' (o - off')) :
    write (write m off n data) off' n' data' = write (write m off' n' data') off n data := by
  funext o
  by_cases ho : off ≤ o ∧ o < off + n
  · by_cases ho' : off' ≤ o ∧ o < off' + n'
    · rw [write, if_pos ho', write, if_pos ho, h o ho.1 ho.2 ho'.1 ho'.2]
    · rw [write_outside (by omega), write, if_pos ho, write, if_pos ho]
  · by_cases ho' : off' ≤ o ∧ o < off' + n'
    · rw [write, if_pos ho', write, if_neg ho, write, if_pos ho']
    · rw [write, if_neg ho', write, if_neg ho, write, if_neg ho, write, if_neg ho']

/-- Writes to disjoint blocks commute. -/
theorem write_comm {off' n' : ℕ} {data' : ℕ → UInt8} (h : off + n ≤ off' ∨ off' + n' ≤ off) :
    write (write m off n data) off' n' data' = write (write m off' n' data') off n data :=
  write_comm_of_agree fun o _ _ _ _ => by omega

/-- A byte changed in the data of a block is a byte changed in the store. -/
theorem write_update {pos : ℕ} {value : UInt8} (h : pos < n) :
    write m off n (Function.update data pos value) =
      Function.update (write m off n data) (off + pos) value := by
  funext o
  by_cases heq : o = off + pos
  · subst heq
    rw [write_inside h, Function.update_self, Function.update_self]
  · rw [Function.update_of_ne heq]
    by_cases ho : off ≤ o ∧ o < off + n
    · rw [write, if_pos ho, write, if_pos ho, Function.update_of_ne (by omega)]
    · rw [write, if_neg ho, write, if_neg ho]

end Library.Memory
