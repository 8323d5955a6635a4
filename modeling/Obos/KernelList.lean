/-
The list operations of `utils/list.h`.

A list is a record of its head, its tail and a count; its nodes are linked through
`next` and `prev`.  Pointers to nodes are numbers and `0` is the null pointer; one
`Links` holds the link fields of all nodes, so that several lists can share them.

* `Lists.prepend`, `Lists.remove` — `LIST_PREPEND` and `LIST_REMOVE` do to the nodes what
  their names say,
* `Lists.isNodeUnlinked_eq` — a node of a list is not taken for an unlinked one.
-/
import Obos.Machine
import Obos.Lib.ListFamily

namespace Obos.KernelList

open Function

/-- The fields `next` and `prev` of all nodes. -/
structure Links where
  next : ℕ → ℕ
  prev : ℕ → ℕ

/-- `LIST_HEAD`. -/
structure Head where
  head : ℕ
  tail : ℕ
  nNodes : ℕ
  deriving DecidableEq, Repr

/-- `if (d) d->field = v;` -/
def setAt (f : ℕ → ℕ) (d v : ℕ) : ℕ → ℕ := if d = 0 then f else update f d v

/-- `LIST_PREPEND`. -/
def listPrepend (m : Links) (q : Head) (d : ℕ) : Links × Head :=
  let next := update m.next d 0
  let prev := update m.prev d 0
  let prev := setAt prev q.head d
  let next := update next d q.head
  (⟨next, prev⟩, ⟨d, if q.tail = 0 then d else q.tail, q.nNodes + 1⟩)

/-- `LIST_REMOVE`. -/
def listRemove (m : Links) (q : Head) (d : ℕ) : Links × Head :=
  let tail := if q.tail = d then m.prev d else q.tail
  let head := if q.head = d then m.next d else q.head
  let next := setAt m.next (m.prev d) (m.next d)
  let prev := setAt m.prev (next d) (m.prev d)
  (⟨update next d 0, update prev d 0⟩, ⟨head, tail, decrement q.nNodes⟩)

/-- `LIST_IS_NODE_UNLINKED`. -/
def isNodeUnlinked (m : Links) (q : Head) (d : ℕ) : Bool :=
  q.head != d && m.next d == 0 && m.prev d == 0

variable {ι : Type*} {m : Links} {q : ι → Head} {xs : ι → List ℕ} {d y v : ℕ} {f : ℕ → ℕ}

theorem setAt_of_ne_zero (hy : y ≠ 0) : setAt f d v y = if y = d then v else f y := by
  rw [setAt]
  split
  · next h => rw [if_neg (h ▸ hy)]
  · exact update_apply f d v y

/-- The lists `q i` are well linked, disjoint, and have the nodes `xs i` and their counts. -/
structure Lists (m : Links) (q : ι → Head) (xs : ι → List ℕ) : Prop where
  isLists : DLinked.IsLists m.next m.prev 0 (fun i => (q i).head) (fun i => (q i).tail) xs
  nNodes : ∀ i, (q i).nNodes = (xs i).length

namespace Lists

section

variable (h : Lists m q xs)
include h

theorem ne_zero {i : ι} (hd : d ∈ xs i) : d ≠ 0 :=
  fun h0 => h.isLists.null_notMem i (h0 ▸ hd)

theorem head_eq (i : ι) : (q i).head = (xs i).headD 0 :=
  (h.isLists.isList i).head_eq

theorem next_eq {i : ι} {l r : List ℕ} (hi : xs i = l ++ d :: r) :
    m.next d = r.headD 0 := by
  have hlist := h.isLists.isList i
  rw [hi] at hlist
  exact hlist.next_mem

theorem eq_of_mem {i j : ι} (hi : d ∈ xs i) (hj : d ∈ xs j) : i = j :=
  h.isLists.disjoint i j d hi hj

theorem isNodeUnlinked_eq {i : ι} (hd : d ∈ xs i) :
    isNodeUnlinked m (q i) d = false := by
  have hlist := h.isLists.isList i
  obtain ⟨l, r, hi⟩ := List.append_of_mem hd
  rw [hi] at hlist
  rcases eq_or_ne l [] with rfl | hl
  · -- the first node is the head
    have hhead : (q i).head = d := hlist.head_eq
    simp [isNodeUnlinked, hhead]
  · have hprev : m.prev d ≠ 0 := by
      rw [hlist.prev_mem]
      intro h0
      have hmem := DLinked.IsList.getLastD_mem hl 0
      exact hlist.null_notMem (List.mem_append_left _ (h0 ▸ hmem))
    simp [isNodeUnlinked, hprev]

/-- What the second write of a removal reads behind the first. -/
theorem setAt_next_self {i : ι} (hd : d ∈ xs i) :
    setAt m.next (m.prev d) (m.next d) d = m.next d := by
  rw [setAt_of_ne_zero (h.ne_zero hd), if_neg ((h.isLists.isList i).prev_ne hd).symm]

end

variable [DecidableEq ι]

/-- `LIST_PREPEND` of a node that is on no list. -/
theorem prepend (h : Lists m q xs) (i : ι) (hd : ∀ j, d ∉ xs j) (h0 : d ≠ 0) :
    Lists (listPrepend m (q i) d).1 (update q i (listPrepend m (q i) d).2)
      (update xs i (d :: xs i)) := by
  have hne : ∀ j, ∀ y ∈ xs j, y ≠ d := fun j y hy he => hd j (he ▸ hy)
  have hhead : d ≠ (q i).head := by
    intro he
    rw [h.head_eq i] at he
    rcases hxs : xs i with _ | ⟨z, zs⟩
    · rw [hxs] at he
      exact h0 he
    · rw [hxs] at he
      exact hd i (by rw [hxs, he]; exact List.mem_cons_self)
  refine ⟨h.isLists.prepend hd h0 (fun j y hy => ?_) (fun j y hy => ?_) ?_ ?_ ?_ ?_, fun j => ?_⟩
  · simp [listPrepend, update_of_ne (hne j y hy)]
  · simp [listPrepend, setAt_of_ne_zero (h.ne_zero hy), update_of_ne (hne j y hy)]
  · exact update_self ..
  · simp [listPrepend, setAt_of_ne_zero h0, if_neg hhead]
  · exact funext (apply_update (fun _ => Head.head) q i _)
  · exact funext (apply_update (fun _ => Head.tail) q i _)
  · by_cases hj : j = i
    · subst hj
      simp [listPrepend, h.nNodes j]
    · simp [update_of_ne hj, h.nNodes j]

/-- The neighbours of a node of the list `i` are joined. -/
theorem unlink {m' : Links} {q' : Head} (h : Lists m q xs) {i : ι} {l r : List ℕ}
    (hi : xs i = l ++ d :: r)
    (hnext : ∀ y ≠ 0, y ≠ d → m'.next y = if y = m.prev d then m.next d else m.next y)
    (hprev : ∀ y ≠ 0, y ≠ d → m'.prev y = if y = m.next d then m.prev d else m.prev y)
    (hq : q' = ⟨if (q i).head = d then m.next d else (q i).head,
      if (q i).tail = d then m.prev d else (q i).tail, decrement (q i).nNodes⟩) :
    Lists m' (update q i q') (update xs i (l ++ r)) := by
  subst hq
  refine ⟨h.isLists.unlink hi (fun j y hy hne => hnext y (h.ne_zero hy) hne)
    (fun j y hy hne => hprev y (h.ne_zero hy) hne) ?_ ?_, fun j => ?_⟩
  · exact funext (apply_update (fun _ => Head.head) q i _)
  · exact funext (apply_update (fun _ => Head.tail) q i _)
  · by_cases hj : j = i
    · subst hj
      have hlen : (q j).nNodes = (l ++ r).length + 1 := by
        rw [h.nNodes, hi, List.length_append, List.length_cons, List.length_append, Nat.add_assoc]
      simp only [update_self, hlen]
      rfl
    · simp [update_of_ne hj, h.nNodes j]

/-- `LIST_REMOVE` of a node of the list `i`. -/
theorem remove (h : Lists m q xs) {i : ι} {l r : List ℕ} (hi : xs i = l ++ d :: r) :
    Lists (listRemove m (q i) d).1 (update q i (listRemove m (q i) d).2)
      (update xs i (l ++ r)) := by
  have hd : d ∈ xs i := hi ▸ List.mem_append_right _ List.mem_cons_self
  refine h.unlink hi (fun y h0 hne => ?_) (fun y h0 hne => ?_) rfl
  · simp [listRemove, update_of_ne hne, setAt_of_ne_zero h0]
  · simp [listRemove, update_of_ne hne, h.setAt_next_self hd, setAt_of_ne_zero h0]

end Lists

end Obos.KernelList
