/-
Several doubly linked lists through one pool of nodes.

`IsLists nx pv null head tail xs` says that for every index `i` the list from
`head i` to `tail i` is well linked and visits `xs i`, and that no node is on
two of the lists.  The operations change the list of one index:

* `IsLists.append`, `IsLists.prepend` — link a node that is on no list behind the
  tail, or in front of the head, of one,
* `IsLists.unlink` — take a node out of the list it is on.

As for single lists, they are stated for arbitrary new links that agree with the
old ones wherever the operation does not write.
-/
import Obos.Lib.DLinked

namespace DLinked

open Function

variable {ι α : Type*} {nx pv nx' pv' : α → α} {null x : α} {head tail head' tail' : ι → α}
  {xs : ι → List α} {i : ι}

structure IsLists (nx pv : α → α) (null : α) (head tail : ι → α) (xs : ι → List α) : Prop where
  isList : ∀ i, IsList nx pv null (head i) (tail i) (xs i)
  disjoint : ∀ i j x, x ∈ xs i → x ∈ xs j → i = j

/-- The tail of a list is on it, unless it is empty. -/
theorem IsList.tail_mem {head tail : α} {xs : List α} (h : IsList nx pv null head tail xs)
    (hne : tail ≠ null) : tail ∈ xs := by
  have hxs : xs ≠ [] := fun he => hne (h.tail_eq_null_iff.mpr he)
  rw [h.tail_eq]
  exact IsList.getLastD_mem hxs null

theorem headD_mem {xs : List α} (hne : xs ≠ []) (d : α) : xs.headD d ∈ xs := by
  cases xs with
  | nil => exact absurd rfl hne
  | cons y ys => exact List.mem_cons_self

/-- The node behind a member is on the list too, unless it is null. -/
theorem IsList.next_mem_of_ne {head tail : α} {xs : List α} (h : IsList nx pv null head tail xs)
    (hx : x ∈ xs) (hne : nx x ≠ null) : nx x ∈ xs := by
  obtain ⟨l, r, rfl⟩ := List.append_of_mem hx
  have hr : r ≠ [] := by
    rintro rfl
    exact hne h.next_mem
  rw [h.next_mem]
  exact List.mem_append_right _ (List.mem_cons_of_mem _ (headD_mem hr null))

/-- The node before a member is on the list too, unless it is null. -/
theorem IsList.prev_mem_of_ne {head tail : α} {xs : List α} (h : IsList nx pv null head tail xs)
    (hx : x ∈ xs) (hne : pv x ≠ null) : pv x ∈ xs := by
  obtain ⟨l, r, rfl⟩ := List.append_of_mem hx
  have hl : l ≠ [] := by
    rintro rfl
    exact hne h.prev_mem
  rw [h.prev_mem]
  exact List.mem_append_left _ (IsList.getLastD_mem hl null)

/-- No member is its own predecessor. -/
theorem IsList.prev_ne {head tail : α} {xs : List α} (h : IsList nx pv null head tail xs)
    (hx : x ∈ xs) : pv x ≠ x := by
  obtain ⟨l, r, rfl⟩ := List.append_of_mem hx
  rw [h.prev_mem]
  rcases eq_or_ne l [] with rfl | hl
  · exact fun e => h.null_notMem (e ▸ hx)
  · have hnd := h.nodup
    rw [List.nodup_middle, List.nodup_cons] at hnd
    intro e
    exact hnd.1 (List.mem_append_left _ (e ▸ IsList.getLastD_mem hl null))

/-- A search that ends has found the null pointer or a node of the list. -/
theorem IsList.mem_of_walk [DecidableEq α] {head tail : α} {xs : List α} {p : α → Bool}
    (h : IsList nx pv null head tail xs) {fuel : ℕ} {a b : α} (ha : a ≠ null → a ∈ xs)
    (hw : walk nx null p fuel a = some b) : b ≠ null → b ∈ xs := by
  induction fuel generalizing a with
  | zero => cases hw
  | succ fuel ih =>
    rw [walk] at hw
    split at hw
    · cases hw
      intro hb
      exact absurd rfl hb
    · rename_i hne
      split at hw
      · cases hw
        exact ha
      · exact ih (h.next_mem_of_ne (ha hne)) hw

namespace IsLists

theorem null_notMem (h : IsLists nx pv null head tail xs) (i : ι) : null ∉ xs i :=
  (h.isList i).null_notMem

theorem congr (h : IsLists nx pv null head tail xs)
    (hnx : ∀ i, ∀ y ∈ xs i, nx' y = nx y) (hpv : ∀ i, ∀ y ∈ xs i, pv' y = pv y) :
    IsLists nx' pv' null head tail xs :=
  ⟨fun i => (h.isList i).congr (hnx i) (hpv i), h.disjoint⟩

variable [DecidableEq ι] [DecidableEq α]

variable (h : IsLists nx pv null head tail xs)
include h

/-- Link `x`, which is on no list, behind the tail of the list of `i`. -/
theorem append (hx : ∀ j, x ∉ xs j) (hn : x ≠ null)
    (hnx : ∀ j, ∀ y ∈ xs j, nx' y = if y = tail i then x else nx y)
    (hpv : ∀ j, ∀ y ∈ xs j, pv' y = pv y) (hxn : nx' x = null) (hxp : pv' x = tail i)
    (hhead : head' = update head i (if head i = null then x else head i))
    (htail : tail' = update tail i x) :
    IsLists nx' pv' null head' tail' (update xs i (xs i ++ [x])) := by
  subst hhead htail
  refine ⟨fun j => ?_, fun j k y hj hk => ?_⟩
  · by_cases hji : j = i
    · subst hji
      simp only [update_self]
      exact (h.isList j).append (hx j) hn (hnx j) (hpv j) hxn hxp
    · -- no member of another list is the old tail
      simp only [update_of_ne hji]
      refine (h.isList j).congr (fun y hy => ?_) (hpv j)
      rw [hnx j y hy, if_neg]
      rintro rfl
      have hne : tail i ≠ null := fun he => h.null_notMem j (he ▸ hy)
      exact hji (h.disjoint j i _ hy ((h.isList i).tail_mem hne))
  · have hsplit : ∀ {j}, y ∈ update xs i (xs i ++ [x]) j → y ∈ xs j ∨ (y = x ∧ j = i) := by
      intro j hj
      by_cases hji : j = i
      · subst hji
        rw [update_self, List.mem_append, List.mem_singleton] at hj
        exact hj.imp_right fun e => ⟨e, rfl⟩
      · rw [update_of_ne hji] at hj
        exact .inl hj
    rcases hsplit hj with hj' | ⟨hy, rfl⟩
    · rcases hsplit hk with hk' | ⟨hy, -⟩
      · exact h.disjoint j k y hj' hk'
      · exact absurd (hy ▸ hj') (hx j)
    · rcases hsplit hk with hk' | ⟨-, rfl⟩
      · exact absurd (hy ▸ hk') (hx k)
      · rfl

omit [DecidableEq ι] [DecidableEq α] in
theorem reverse :
    IsLists pv nx null tail head fun i => (xs i).reverse :=
  ⟨fun i => (h.isList i).reverse, fun i j y hi hj =>
    h.disjoint i j y (List.mem_reverse.mp hi) (List.mem_reverse.mp hj)⟩

/-- Link `x`, which is on no list, in front of the head of the list of `i`. -/
theorem prepend (hx : ∀ j, x ∉ xs j) (hn : x ≠ null)
    (hnx : ∀ j, ∀ y ∈ xs j, nx' y = nx y)
    (hpv : ∀ j, ∀ y ∈ xs j, pv' y = if y = head i then x else pv y)
    (hxn : nx' x = head i) (hxp : pv' x = null)
    (hhead : head' = update head i x)
    (htail : tail' = update tail i (if tail i = null then x else tail i)) :
    IsLists nx' pv' null head' tail' (update xs i (x :: xs i)) := by
  have happ : IsLists pv' nx' null tail' head' (update (fun i => (xs i).reverse) i
      ((xs i).reverse ++ [x])) :=
    h.reverse.append (by simpa using hx) hn (by simpa using hpv) (by simpa using hnx) hxp hxn htail
      hhead
  have hrev := happ.reverse
  have heq : (fun j => (update (fun i => (xs i).reverse) i
      ((xs i).reverse ++ [x]) j).reverse) = update xs i (x :: xs i) := by
    funext j
    by_cases hji : j = i
    · subst hji
      simp
    · simp [update_of_ne hji]
  rwa [heq] at hrev

/-- Take `x` out of the list of `i` by joining its neighbours. -/
theorem unlink {l r : List α} (hx : xs i = l ++ x :: r)
    (hnx : ∀ j, ∀ y ∈ xs j, y ≠ x → nx' y = if y = pv x then nx x else nx y)
    (hpv : ∀ j, ∀ y ∈ xs j, y ≠ x → pv' y = if y = nx x then pv x else pv y)
    (hhead : head' = update head i (if head i = x then nx x else head i))
    (htail : tail' = update tail i (if tail i = x then pv x else tail i)) :
    IsLists nx' pv' null head' tail' (update xs i (l ++ r)) := by
  subst hhead htail
  have hi : IsList nx pv null (head i) (tail i) (l ++ x :: r) := hx ▸ h.isList i
  have hxi : x ∈ xs i := hx ▸ List.mem_append_right _ List.mem_cons_self
  have hsub : ∀ y ∈ l ++ r, y ∈ xs i ∧ y ≠ x := by
    intro y hy
    have hnd := hi.nodup
    rw [List.nodup_middle, List.nodup_cons] at hnd
    refine ⟨?_, fun he => hnd.1 (he ▸ hy)⟩
    rw [hx]
    rcases List.mem_append.mp hy with hy | hy
    · exact List.mem_append_left _ hy
    · exact List.mem_append_right _ (List.mem_cons_of_mem _ hy)
  refine ⟨fun j => ?_, fun j k y hj hk => ?_⟩
  · by_cases hji : j = i
    · subst hji
      simp only [update_self]
      exact hi.unlink (fun y hy => hnx j y (hsub y hy).1 (hsub y hy).2)
        fun y hy => hpv j y (hsub y hy).1 (hsub y hy).2
    · -- the neighbours of `x` are on its own list
      simp only [update_of_ne hji]
      have hne : ∀ y ∈ xs j, y ≠ x := fun y hy he => hji (h.disjoint j i _ hy (he ▸ hxi))
      have haway : ∀ y ∈ xs j, ∀ z, (z ≠ null → z ∈ xs i) → y ≠ z := by
        intro y hy z hz he
        subst he
        exact hji (h.disjoint j i y hy (hz fun e => h.null_notMem j (e ▸ hy)))
      refine (h.isList j).congr (fun y hy => ?_) (fun y hy => ?_)
      · rw [hnx j y hy (hne y hy), if_neg]
        exact haway y hy _ ((h.isList i).prev_mem_of_ne hxi)
      · rw [hpv j y hy (hne y hy), if_neg]
        exact haway y hy _ ((h.isList i).next_mem_of_ne hxi)
  · have hold : ∀ {j}, y ∈ update xs i (l ++ r) j → y ∈ xs j := by
      intro j hj
      by_cases hji : j = i
      · subst hji
        rw [update_self] at hj
        exact (hsub y hj).1
      · rwa [update_of_ne hji] at hj
    exact h.disjoint j k y (hold hj) (hold hk)

end IsLists

end DLinked
