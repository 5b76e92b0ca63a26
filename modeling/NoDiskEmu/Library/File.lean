import NoDiskEmu.Library.Memory
import Mathlib.Data.List.Basic
import Mathlib.Data.List.Range

/-! Files as arrays of bytes with a pointer. -/

namespace Library

/-- The file has the bytes before `size`; those from there on are what the medium holds behind its
end. -/
structure File where
  bytes : ℕ → UInt8
  size : ℕ
  pointer : ℕ

namespace File

variable {f : File} {n pos : ℕ} {data : ℕ → UInt8}

def contents (f : File) : List UInt8 := (List.range f.size).map f.bytes

/-- The number of bytes that a read of `n` bytes gets. -/
def available (f : File) (n : ℕ) : ℕ := min n (f.size - f.pointer)

def read (f : File) (n : ℕ) : File := { f with pointer := f.pointer + f.available n }

def write (f : File) (n : ℕ) (data : ℕ → UInt8) : File where
  bytes := Memory.write f.bytes f.pointer n data
  size := max f.size (f.pointer + n)
  pointer := f.pointer + n

/-- A pointer past the end extends the file by the bytes that lie there. -/
def seek (f : File) (pos : ℕ) : File := { f with size := max f.size pos, pointer := pos }

@[simp]
theorem contents_length : f.contents.length = f.size := by simp [contents]

theorem contents_congr {g : File} (hsize : f.size = g.size) (hbytes : ∀ o < f.size, f.bytes o = g.bytes o) :
    f.contents = g.contents := by
  rw [contents, contents, ← hsize]
  exact List.map_congr_left fun o ho => hbytes o (List.mem_range.mp ho)

/-- A write at the end of a file appends to it. -/
theorem contents_write_end (h : f.pointer = f.size) :
    (f.write n data).contents = f.contents ++ (List.range n).map data := by
  have hsize : (f.write n data).size = f.size + n := by
    rw [write, h]
    exact Nat.max_eq_right (by omega)
  rw [contents, hsize, List.range_add, List.map_append, contents, List.map_map]
  congr 1
  · apply List.map_congr_left
    intro o ho
    apply Memory.write_outside
    exact .inl (h ▸ List.mem_range.mp ho)
  · apply List.map_congr_left
    intro o ho
    show Memory.write f.bytes f.pointer n data (f.size + o) = data o
    rw [← h]
    exact Memory.write_inside (List.mem_range.mp ho)

/-- A write inside a file replaces the bytes from the pointer on. -/
theorem contents_write_inside {xs ys : List UInt8} (h : f.contents = xs ++ ys)
    (hpointer : f.pointer = xs.length) (hn : n ≤ ys.length) :
    (f.write n data).contents = xs ++ ((List.range n).map data ++ ys.drop n) := by
  obtain ⟨b, hb⟩ := Nat.exists_eq_add_of_le hn
  have hsize : f.size = f.pointer + (n + b) := by
    rw [hpointer, ← hb, ← List.length_append, ← h, contents_length]
  have hsize' : (f.write n data).size = f.pointer + (n + b) := by
    show max f.size (f.pointer + n) = _
    omega
  have hsplit : f.contents = (List.range f.pointer).map f.bytes ++
      (List.range (n + b)).map fun i => f.bytes (f.pointer + i) := by
    rw [contents, hsize, List.range_add, List.map_append, List.map_map]
    rfl
  obtain ⟨hxs, hys⟩ := List.append_inj (h.symm.trans hsplit) (by simp [hpointer])
  have hdrop : ys.drop n = (List.range b).map fun i => f.bytes (f.pointer + (n + i)) := by
    rw [hys, List.range_add, List.map_append, List.map_map]
    exact List.drop_left' (by simp)
  rw [contents, hsize', List.range_add, List.map_append, List.range_add, List.map_append, List.map_append,
    hdrop, hxs]
  simp only [List.map_map]
  congr 1
  · apply List.map_congr_left
    intro o ho
    apply Memory.write_outside
    exact .inl (List.mem_range.mp ho)
  · congr 1
    · apply List.map_congr_left
      intro o ho
      exact Memory.write_inside (List.mem_range.mp ho)
    · apply List.map_congr_left
      intro o _
      apply Memory.write_outside
      exact .inr (by simp only [Function.comp_apply]; omega)

/-- A pointer past the end adds bytes to the file. -/
theorem contents_seek (h : f.size ≤ pos) :
    ∃ junk : List UInt8, junk.length = pos - f.size ∧ (f.seek pos).contents = f.contents ++ junk := by
  refine ⟨(List.range (pos - f.size)).map fun i => f.bytes (f.size + i), by simp, ?_⟩
  have hsize : (f.seek pos).size = f.size + (pos - f.size) := by
    show max f.size pos = _
    omega
  rw [contents, hsize, List.range_add, List.map_append, contents, List.map_map]
  rfl

theorem contents_seek_of_le (h : pos ≤ f.size) : (f.seek pos).contents = f.contents :=
  contents_congr (Nat.max_eq_left h) fun _ _ => rfl

/-- A read delivers the contents from the pointer on. -/
theorem range_available :
    (List.range (f.available n)).map (fun i => f.bytes (f.pointer + i)) =
      (f.contents.drop f.pointer).take n := by
  apply List.ext_getElem
  · simp [contents, available]
  · intro i hi hi'
    simp [contents]

end File

end Library
