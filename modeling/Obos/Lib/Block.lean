/-
Blocks of memory from an allocator.

A block is the list of its cells.  `get` and `put` copy out of it and into it, and have no
result when they would leave it; `realloc` makes it longer or shorter, and what it gains holds
`junk`.

* `put_eq` — a copy that stays inside,
* `take_put` — the cells up to the end of what was copied,
* `take_realloc` — the cells that a block keeps when it is reallocated.
-/
import Mathlib

namespace Block

open List

variable {α : Type*}

/-- Copy `n` cells out, from the cell `i` on. -/
def get (l : List α) (i n : ℕ) : Option (List α) :=
  if i + n ≤ l.length then some ((l.drop i).take n) else none

/-- Copy `xs` in, from the cell `i` on. -/
def put (l : List α) (i : ℕ) (xs : List α) : Option (List α) :=
  if i + xs.length ≤ l.length then some (l.take i ++ xs ++ l.drop (i + xs.length)) else none

/-- Set the `n` cells from the cell `i` on. -/
def fill (l : List α) (i n : ℕ) (x : α) : Option (List α) :=
  if i + n ≤ l.length then some (l.take i ++ List.replicate n x ++ l.drop (i + n)) else none

/-- A block of `n` cells in place of `l`. -/
def realloc (l : List α) (n : ℕ) (junk : ℕ → α) : List α :=
  l.take n ++ (List.range' l.length (n - l.length)).map junk

variable {l l' xs : List α} {i n : ℕ} {junk : ℕ → α}

theorem get_eq (h : i + n ≤ l.length) : get l i n = some ((l.drop i).take n) := if_pos h

theorem put_eq (h : i + xs.length ≤ l.length) :
    put l i xs = some (l.take i ++ xs ++ l.drop (i + xs.length)) := if_pos h

/-- The same for a block that is given in parts. -/
theorem put_append {as ys bs : List α} (h : xs.length = ys.length) :
    put (as ++ ys ++ bs) as.length xs = some (as ++ xs ++ bs) := by
  rw [put_eq (by simp only [length_append]; omega), append_assoc as ys bs,
    take_left, h, ← drop_drop, drop_left, drop_left]

theorem fill_eq {x : α} (h : i + n ≤ l.length) :
    fill l i n x = some (l.take i ++ List.replicate n x ++ l.drop (i + n)) := if_pos h

theorem length_fill {x : α} (h : fill l i n x = some l') : l'.length = l.length := by
  rw [fill] at h
  split_ifs at h with hle
  cases h
  simp only [length_append, length_take, length_replicate, length_drop]
  omega

theorem put_cases (h : put l i xs = some l') :
    i + xs.length ≤ l.length ∧ l' = l.take i ++ xs ++ l.drop (i + xs.length) := by
  rw [put] at h
  split_ifs at h with hle
  exact ⟨hle, (Option.some.inj h).symm⟩

theorem length_put (h : put l i xs = some l') : l'.length = l.length := by
  obtain ⟨hle, rfl⟩ := put_cases h
  simp only [length_append, length_take, length_drop]
  omega

theorem take_put (h : put l i xs = some l') : l'.take (i + xs.length) = l.take i ++ xs := by
  obtain ⟨hle, rfl⟩ := put_cases h
  have hlen : (l.take i ++ xs).length = i + xs.length := by
    rw [length_append, length_take]
    omega
  rw [← hlen, take_left]

/-- A copy that stays inside, by what it leaves. -/
theorem put_spec (h : i + xs.length ≤ l.length) :
    ∃ l', put l i xs = some l' ∧ l'.length = l.length ∧ l'.take (i + xs.length) = l.take i ++ xs :=
  ⟨_, put_eq h, length_put (put_eq h), take_put (put_eq h)⟩

theorem length_realloc : (realloc l n junk).length = n := by
  simp only [realloc, length_append, length_take, length_map, length_range']
  omega

theorem take_realloc (h : i ≤ n) (hi : i ≤ l.length) : (realloc l n junk).take i = l.take i := by
  rw [realloc, take_append_of_le_length (by rw [length_take]; omega), take_take,
    min_eq_left h]

end Block
