import Mathlib.Data.List.Basic
import Mathlib.Data.Nat.Notation
import Mathlib.Logic.Function.Basic

/-! A circular array with one cursor. -/

namespace Library

structure Ring (α : Type*) where
  size : ℕ
  cells : ℕ → α
  cursor : ℕ

namespace Ring

variable {α : Type*} (r : Ring α)

def next : ℕ := (r.cursor + 1) % r.size

def put (x : α) : Ring α :=
  { r with cells := Function.update r.cells r.cursor x, cursor := r.next }

def putAll (xs : List α) : Ring α := xs.foldl put r

/-- The next `n` elements and the array with the cursor after them. -/
def getAll (r : Ring α) : ℕ → List α × Ring α
  | 0 => ([], r)
  | n + 1 =>
    let rest := getAll { r with cursor := r.next } n
    (r.cells r.cursor :: rest.1, rest.2)

def seek (i : ℕ) : Ring α := { r with cursor := i }

@[simp] theorem put_size (x : α) : (r.put x).size = r.size := rfl

@[simp] theorem put_cursor (x : α) : (r.put x).cursor = r.next := rfl

end Ring

end Library
