/-
A growable array with cursors.

`items` is the array, and each `d : D` has a cursor into it.  A read takes what is
left behind its cursor, up to the length it asks for; a write replaces what is
there and lets the array grow; both move the cursor.

* `length_patch`, `getElem?_patch_inside`, `getElem?_patch_outside` — the array
  behind a write.
-/
import Mathlib

/-- An array and a cursor for each `d : D`. -/
structure CursorArray (D α : Type*) where
  items : List α
  cursor : D → ℕ

namespace CursorArray

variable {D α : Type*}

/-- Replace the items from position `i` on by `xs`. -/
def patch (l : List α) (i : ℕ) (xs : List α) : List α := l.take i ++ xs ++ l.drop (i + xs.length)

theorem length_patch {l : List α} (xs : List α) {i : ℕ} (h : i ≤ l.length) :
    (patch l i xs).length = max l.length (i + xs.length) := by
  simp only [patch, List.length_append, List.length_take, List.length_drop]
  omega

theorem getElem?_patch_inside {l xs : List α} {i j : ℕ} (h : i ≤ l.length) (h1 : i ≤ j)
    (h2 : j < i + xs.length) : (patch l i xs)[j]? = xs[j - i]? := by
  have hlen : (l.take i).length = i := List.length_take_of_le h
  rw [patch, List.getElem?_append_left (by rw [List.length_append, hlen]; omega),
    List.getElem?_append_right (by rw [hlen]; exact h1), hlen]

theorem getElem?_patch_outside {l xs : List α} {i j : ℕ} (h : i ≤ l.length)
    (hj : j < i ∨ i + xs.length ≤ j) : (patch l i xs)[j]? = l[j]? := by
  have hlen : (l.take i).length = i := List.length_take_of_le h
  rcases hj with hlt | hge
  · rw [patch, List.append_assoc, List.getElem?_append_left (by rw [hlen]; exact hlt),
      List.getElem?_take_of_lt hlt]
  · rw [patch, List.getElem?_append_right (by rw [List.length_append, hlen]; exact hge),
      List.length_append, hlen, List.getElem?_drop]
    congr 1
    omega

variable [DecidableEq D]

variable (f : CursorArray D α)

variable (d : D)

/-- What is left behind the cursor, `n` items at most. -/
def ahead (n : ℕ) : List α := (f.items.drop (f.cursor d)).take n

def moveTo (i : ℕ) : CursorArray D α :=
  { f with cursor := Function.update f.cursor d i }

def read (n : ℕ) : CursorArray D α × List α :=
  (f.moveTo d (f.cursor d + (f.ahead d n).length), f.ahead d n)

def write (xs : List α) : CursorArray D α :=
  { f with items := patch f.items (f.cursor d) xs }.moveTo d (f.cursor d + xs.length)

theorem moveTo_cursor : f.moveTo d (f.cursor d) = f := by
  rw [moveTo, Function.update_eq_self]

theorem read_zero : f.read d 0 = (f, []) := by
  have hnil : f.ahead d 0 = [] := List.take_zero
  rw [read, hnil, List.length_nil, Nat.add_zero, moveTo_cursor]

theorem write_nil : f.write d [] = f := by
  have hsame : patch f.items (f.cursor d) [] = f.items := by
    rw [patch, List.append_nil, List.length_nil, Nat.add_zero, List.take_append_drop]
  rw [write, hsame, List.length_nil, Nat.add_zero]
  exact moveTo_cursor f d

/-- Go to a position, if it is not negative. -/
def seek (target : ℤ) : CursorArray D α :=
  if target < 0 then f else f.moveTo d target.toNat

end CursorArray
