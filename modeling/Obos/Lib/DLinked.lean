/-
Doubly linked lists threaded through link fields.

The links of all nodes are two functions `nx pv : α → α`, whatever they are
read from (a record field, a word in memory); `null` ends a list.
`IsList nx pv null head tail xs` says that the list from `head` to `tail` is
well linked and visits exactly `xs`:

* `IsList.append` — link a new node behind the tail,
* `IsList.reverse` — the list read from its tail,
* `IsList.unlink` — take a node out by joining its neighbours,
* `IsList.walk_eq` — a search along `nx` finds the first node wanted,
* `IsList.toList_eq` — following `nx` visits exactly the nodes.

The first two are stated for arbitrary new links `nx' pv'` that agree with the
old ones wherever the operation does not write, so that a caller supplies one
frame fact for each field.
-/
import Mathlib

namespace DLinked

open List

variable {α : Type*}

/-- Consecutive members of `xs` point at one another; the first points back to
`p` and the last points on to `q`. -/
def Links (nx pv : α → α) : α → List α → α → Prop
  | _, [], _ => True
  | p, x :: xs, q => pv x = p ∧ nx x = xs.headD q ∧ Links nx pv x xs q

/-- The list from `head` to `tail` is null-terminated, acyclic and doubly
linked, and its nodes are `xs` in order. -/
structure IsList (nx pv : α → α) (null head tail : α) (xs : List α) : Prop where
  head_eq : head = xs.headD null
  tail_eq : tail = xs.getLastD null
  links : Links nx pv null xs null
  nodup : xs.Nodup
  null_notMem : null ∉ xs

theorem Links.congr {nx pv nx' pv' : α → α} {p q : α} {xs : List α} (h : Links nx pv p xs q)
    (hnx : ∀ y ∈ xs, nx' y = nx y) (hpv : ∀ y ∈ xs, pv' y = pv y) : Links nx' pv' p xs q := by
  induction xs generalizing p with
  | nil => trivial
  | cons x xs ih =>
    obtain ⟨h1, h2, h3⟩ := h
    refine ⟨?_, ?_, ?_⟩
    · rw [hpv x mem_cons_self, h1]
    · rw [hnx x mem_cons_self, h2]
    · exact ih h3 (fun y hy => hnx y (mem_cons_of_mem _ hy))
        (fun y hy => hpv y (mem_cons_of_mem _ hy))

theorem links_append {nx pv : α → α} {p q : α} {xs ys : List α} :
    Links nx pv p (xs ++ ys) q ↔
      Links nx pv p xs (ys.headD q) ∧ Links nx pv (xs.getLastD p) ys q := by
  induction xs generalizing p with
  | nil => simp [Links]
  | cons x xs ih =>
    have hhead : (xs ++ ys).headD q = xs.headD (ys.headD q) := by
      cases xs <;> simp
    simp only [cons_append, Links, ih, hhead, getLastD_cons, and_assoc]

/-- A segment read backwards. -/
theorem Links.reverse {nx pv : α → α} {p q : α} {xs : List α} (h : Links nx pv p xs q) :
    Links pv nx q xs.reverse p := by
  induction xs generalizing p with
  | nil => trivial
  | cons x xs ih =>
    obtain ⟨h1, h2, h3⟩ := h
    have hlast : xs.reverse.getLastD q = xs.headD q := by
      simp [getLastD_eq_getLast?, headD_eq_head?_getD]
    rw [reverse_cons, links_append, hlast]
    exact ⟨ih h3, h2, h1, trivial⟩

/-- Redirect the last node of a segment. -/
theorem Links.redirect_last {nx pv nx' pv' : α → α} {p q q' : α} {xs : List α}
    [DecidableEq α] (h : Links nx pv p xs q) (hnd : xs.Nodup)
    (hnx : ∀ y ∈ xs, nx' y = if y = xs.getLastD p then q' else nx y)
    (hpv : ∀ y ∈ xs, pv' y = pv y) : Links nx' pv' p xs q' := by
  induction xs generalizing p with
  | nil => trivial
  | cons x xs ih =>
    obtain ⟨h1, h2, h3⟩ := h
    have hx := nodup_cons.mp hnd
    refine ⟨by rw [hpv x mem_cons_self, h1], ?_, ?_⟩
    · rw [hnx x mem_cons_self]
      rcases xs with _ | ⟨z, zs⟩
      · simp
      · -- the last node is further on, so `x` keeps its link
        have hne : x ≠ (z :: zs).getLastD x := by
          intro he
          have hl : (z :: zs).getLastD x = (z :: zs).getLast (by simp) := by
            simp [getLastD_eq_getLast?, List.getLast?_eq_getLast_of_ne_nil]
          exact hx.1 (he.trans hl ▸ getLast_mem _)
        rw [getLastD_cons, if_neg hne, h2]
        rfl
    · refine ih h3 hx.2 (fun y hy => ?_) (fun y hy => hpv y (mem_cons_of_mem _ hy))
      have := hnx y (mem_cons_of_mem _ hy)
      rwa [getLastD_cons] at this

/-- Redirect the first node of a segment. -/
theorem Links.redirect_first {nx pv nx' pv' : α → α} {p p' q : α} {xs : List α}
    [DecidableEq α] (h : Links nx pv p xs q) (hnd : xs.Nodup) (hq : q ∉ xs)
    (hnx : ∀ y ∈ xs, nx' y = nx y)
    (hpv : ∀ y ∈ xs, pv' y = if y = xs.headD q then p' else pv y) : Links nx' pv' p' xs q := by
  rcases xs with _ | ⟨x, xs⟩
  · trivial
  · obtain ⟨h1, h2, h3⟩ := h
    have hx := nodup_cons.mp hnd
    refine ⟨?_, ?_, ?_⟩
    · rw [hpv x mem_cons_self]
      simp
    · rw [hnx x mem_cons_self, h2]
    · refine h3.congr (fun y hy => hnx y (mem_cons_of_mem _ hy)) (fun y hy => ?_)
      have hne : y ≠ x := fun he => hx.1 (he ▸ hy)
      rw [hpv y (mem_cons_of_mem _ hy)]
      simp [hne]

namespace IsList

variable {nx pv nx' pv' : α → α} {null head tail x : α} {xs l r : List α}

theorem nil (nx pv : α → α) (null : α) : IsList nx pv null null null [] :=
  ⟨rfl, rfl, trivial, nodup_nil, not_mem_nil⟩

theorem congr (h : IsList nx pv null head tail xs) (hnx : ∀ y ∈ xs, nx' y = nx y)
    (hpv : ∀ y ∈ xs, pv' y = pv y) : IsList nx' pv' null head tail xs :=
  { h with links := h.links.congr hnx hpv }

theorem head_eq_null_iff (h : IsList nx pv null head tail xs) : head = null ↔ xs = [] := by
  rcases xs with _ | ⟨x, xs⟩
  · simp [h.head_eq]
  · have hne : x ≠ null := fun he => h.null_notMem (he ▸ mem_cons_self)
    simp [h.head_eq, hne]

theorem getLastD_mem {xs : List α} (hne : xs ≠ []) (d : α) : xs.getLastD d ∈ xs := by
  have : xs.getLastD d = xs.getLast hne := by
    simp [getLastD_eq_getLast?, List.getLast?_eq_getLast_of_ne_nil hne]
  rw [this]
  exact getLast_mem hne

theorem getLastD_append {l r : List α} (hne : r ≠ []) (d : α) :
    (l ++ r).getLastD d = r.getLastD d := by
  obtain ⟨ys, y, rfl⟩ : ∃ ys y, r = ys ++ [y] :=
    ⟨r.dropLast, r.getLast hne, (dropLast_append_getLast hne).symm⟩
  rw [← append_assoc]
  simp

theorem tail_eq_null_iff (h : IsList nx pv null head tail xs) : tail = null ↔ xs = [] := by
  rcases eq_or_ne xs [] with rfl | hxs
  · simp [h.tail_eq]
  · have hmem := getLastD_mem hxs null
    have hne : xs.getLastD null ≠ null := fun he => h.null_notMem (he ▸ hmem)
    rw [h.tail_eq]
    exact ⟨fun he => absurd he hne, fun he => absurd he hxs⟩

/-- The list is null-terminated. -/
theorem next_tail (h : IsList nx pv null head tail xs) (ht : tail ≠ null) : nx tail = null := by
  have hne : xs ≠ [] := fun he => ht (h.tail_eq_null_iff.mpr he)
  obtain ⟨ys, y, rfl⟩ : ∃ ys y, xs = ys ++ [y] :=
    ⟨xs.dropLast, xs.getLast hne, (dropLast_append_getLast hne).symm⟩
  have hy : tail = y := by rw [h.tail_eq]; simp
  have := (links_append.mp h.links).2
  rw [hy]
  exact this.2.1

theorem prev_mem (h : IsList nx pv null head tail (l ++ x :: r)) : pv x = l.getLastD null :=
  (links_append.mp h.links).2.1

theorem next_mem (h : IsList nx pv null head tail (l ++ x :: r)) : nx x = r.headD null :=
  (links_append.mp h.links).2.2.1

/-- Link `x` behind the tail. -/
theorem append [DecidableEq α] (h : IsList nx pv null head tail xs) (hx : x ∉ xs)
    (hn : x ≠ null) (hnx : ∀ y ∈ xs, nx' y = if y = tail then x else nx y)
    (hpv : ∀ y ∈ xs, pv' y = pv y) (hxn : nx' x = null) (hxp : pv' x = tail) :
    IsList nx' pv' null (if head = null then x else head) x (xs ++ [x]) := by
  refine ⟨?_, ?_, ?_, ?_, ?_⟩
  · rcases xs with _ | ⟨y, ys⟩
    · simp [h.head_eq]
    · have hne : head ≠ null := fun he => by simpa using h.head_eq_null_iff.mp he
      rw [if_neg hne, h.head_eq]
      rfl
  · simp
  · rw [links_append]
    refine ⟨h.links.redirect_last h.nodup ?_ hpv, ?_, ?_, trivial⟩
    · intro y hy
      rw [hnx y hy, h.tail_eq]
      rfl
    · rw [hxp, h.tail_eq]
    · rw [hxn]
      rfl
  · exact h.nodup.append (nodup_singleton x) (by simpa using hx)
  · simp only [mem_append, mem_singleton, not_or]
    exact ⟨h.null_notMem, hn.symm⟩

/-- Take `x` out by joining its neighbours. -/
theorem unlink [DecidableEq α] (h : IsList nx pv null head tail (l ++ x :: r))
    (hnx : ∀ y ∈ l ++ r, nx' y = if y = pv x then nx x else nx y)
    (hpv : ∀ y ∈ l ++ r, pv' y = if y = nx x then pv x else pv y) :
    IsList nx' pv' null (if head = x then nx x else head) (if tail = x then pv x else tail)
      (l ++ r) := by
  have hlinks := links_append.mp h.links
  have hl : Links nx pv null l x := hlinks.1
  have hr : Links nx pv x r null := hlinks.2.2.2
  have hnd := nodup_append.mp h.nodup
  have hndr := nodup_cons.mp hnd.2.1
  have hnull : null ∉ l ∧ null ≠ x ∧ null ∉ r := by
    simpa [not_or] using h.null_notMem
  have hxl : x ∉ l := fun hx => hnd.2.2 x hx x mem_cons_self rfl
  have hdisj : ∀ y ∈ l, y ∉ r := fun y hy hy' =>
    hnd.2.2 y hy y (mem_cons_of_mem _ hy') rfl
  refine ⟨?_, ?_, ?_, ?_, ?_⟩
  · rcases l with _ | ⟨y, ys⟩
    · simp [h.head_eq, h.next_mem (l := [])]
    · have hne : y ≠ x := fun he => hxl (he ▸ mem_cons_self)
      simp [h.head_eq, hne]
  · rcases eq_or_ne r [] with rfl | hr0
    · simp [h.tail_eq, h.prev_mem]
    · have hlast : (l ++ x :: r).getLastD null = r.getLastD null := by
        rw [append_cons, getLastD_append hr0]
      have hne : tail ≠ x := by
        rw [h.tail_eq, hlast]
        exact fun he => hndr.1 (he ▸ getLastD_mem hr0 null)
      rw [if_neg hne, h.tail_eq, hlast, getLastD_append hr0]
  · rw [links_append]
    constructor
    · -- the last node of `l` now points at the head of `r`
      refine hl.redirect_last hnd.1 (fun y hy => ?_) (fun y hy => ?_)
      · rw [hnx y (mem_append_left _ hy), h.prev_mem, h.next_mem]
      · have hne : y ≠ nx x := by
          rw [h.next_mem]
          rcases r with _ | ⟨z, zs⟩
          · rintro rfl
            exact hnull.1 hy
          · rintro rfl
            exact hdisj _ hy mem_cons_self
        rw [hpv y (mem_append_left _ hy), if_neg hne]
    · -- the head of `r` now points back at the last node of `l`
      refine hr.redirect_first hndr.2 hnull.2.2 (fun y hy => ?_) (fun y hy => ?_)
      · have hne : y ≠ pv x := by
          rw [h.prev_mem]
          rcases eq_or_ne l [] with rfl | hl0
          · rintro rfl
            exact hnull.2.2 hy
          · rintro rfl
            exact hdisj _ (getLastD_mem hl0 null) hy
        rw [hnx y (mem_append_right _ hy), if_neg hne]
      · rw [hpv y (mem_append_right _ hy), h.next_mem, h.prev_mem]
  · exact hnd.1.append hndr.2 fun y hy hy' => hdisj y hy hy'
  · simp only [mem_append, not_or]
    exact ⟨hnull.1, hnull.2.2⟩

/-- The list read from its tail. -/
theorem reverse (h : IsList nx pv null head tail xs) :
    IsList pv nx null tail head xs.reverse := by
  refine ⟨?_, ?_, h.links.reverse, nodup_reverse.mpr h.nodup, ?_⟩
  · simp [h.tail_eq, getLastD_eq_getLast?, headD_eq_head?_getD]
  · simp [h.head_eq, getLastD_eq_getLast?, headD_eq_head?_getD]
  · simpa using h.null_notMem

end IsList

/-! ### Searching along the links -/

/-- Follow `nx` from `a` until `p` holds or the list ends; `none` when `fuel`
nodes were passed over. -/
def walk [DecidableEq α] (nx : α → α) (null : α) (p : α → Bool) : ℕ → α → Option α
  | 0, _ => none
  | fuel + 1, a =>
    if a = null then some null else if p a then some a else walk nx null p fuel (nx a)

/-- A search stops at the null pointer or where `p` holds. -/
theorem pred_of_walk [DecidableEq α] {nx : α → α} {null a b : α} {p : α → Bool} {fuel : ℕ}
    (hw : walk nx null p fuel a = some b) (hb : b ≠ null) : p b = true := by
  induction fuel generalizing a with
  | zero => cases hw
  | succ fuel ih =>
    rw [walk] at hw
    split at hw
    · exact absurd (Option.some.inj hw).symm hb
    split at hw
    · next hp => exact Option.some.inj hw ▸ hp
    · exact ih hw

theorem Links.walk_eq [DecidableEq α] {nx pv : α → α} {null b : α} {p : α → Bool}
    {xs : List α} {fuel : ℕ} (h : Links nx pv b xs null) (hn : null ∉ xs)
    (hf : xs.length < fuel) :
    walk nx null p fuel (xs.headD null) = some ((xs.find? p).getD null) := by
  induction xs generalizing b fuel with
  | nil =>
    obtain ⟨f, rfl⟩ : ∃ f, fuel = f + 1 := ⟨fuel - 1, by simp at hf; omega⟩
    simp [walk]
  | cons x xs ih =>
    obtain ⟨f, rfl⟩ : ∃ f, fuel = f + 1 := ⟨fuel - 1, by simp at hf; omega⟩
    obtain ⟨-, h2, h3⟩ := h
    have hx : x ≠ null := fun he => hn (he ▸ mem_cons_self)
    rw [headD_cons, walk, if_neg hx]
    by_cases hp : p x
    · rw [if_pos hp, List.find?_cons_of_pos hp, Option.getD_some]
    · rw [if_neg hp, List.find?_cons_of_neg hp, h2]
      exact ih h3 (fun hm => hn (mem_cons_of_mem _ hm)) (by simpa using hf)

/-- A search that ends among the nodes does not depend on what follows them. -/
theorem Links.walk_found [DecidableEq α] {nx pv : α → α} {null b q x : α} {p : α → Bool}
    {xs : List α} {fuel : ℕ} (h : Links nx pv b xs q) (hn : null ∉ xs) (hf : xs.length < fuel)
    (hx : x ∈ xs) (hp : p x) : ∃ y ∈ xs, walk nx null p fuel (xs.headD q) = some y := by
  induction xs generalizing b fuel with
  | nil => exact absurd hx not_mem_nil
  | cons z xs ih =>
    obtain ⟨f, rfl⟩ : ∃ f, fuel = f + 1 := ⟨fuel - 1, by simp at hf; omega⟩
    obtain ⟨-, h2, h3⟩ := h
    have hz : z ≠ null := fun he => hn (he ▸ mem_cons_self)
    rw [headD_cons, walk, if_neg hz]
    by_cases hpz : p z
    · exact ⟨z, mem_cons_self, if_pos hpz⟩
    · have hx' : x ∈ xs := (mem_cons.mp hx).resolve_left fun he => hpz (he ▸ hp)
      obtain ⟨y, hy, hw⟩ := ih h3 (fun hm => hn (mem_cons_of_mem _ hm)) (by simpa using hf) hx'
      exact ⟨y, mem_cons_of_mem z hy, by rw [if_neg hpz, h2, hw]⟩

/-- A search from the head finds the first node with `p`, or the null pointer. -/
theorem IsList.walk_eq [DecidableEq α] {nx pv : α → α} {null head tail : α} {p : α → Bool}
    {xs : List α} {fuel : ℕ} (h : IsList nx pv null head tail xs) (hf : xs.length < fuel) :
    walk nx null p fuel head = some ((xs.find? p).getD null) := by
  rw [h.head_eq]
  exact h.links.walk_eq h.null_notMem hf

/-- The nodes that at most `fuel` steps along `nx` visit before the null pointer. -/
def toList [DecidableEq α] (nx : α → α) (null : α) : ℕ → α → List α
  | 0, _ => []
  | fuel + 1, a => if a = null then [] else a :: toList nx null fuel (nx a)

theorem Links.toList_eq [DecidableEq α] {nx pv : α → α} {null b : α} {xs : List α} {fuel : ℕ}
    (h : Links nx pv b xs null) (hn : null ∉ xs) (hf : xs.length ≤ fuel) :
    toList nx null fuel (xs.headD null) = xs := by
  induction xs generalizing b fuel with
  | nil => cases fuel <;> simp [toList]
  | cons x xs ih =>
    obtain ⟨f, rfl⟩ : ∃ f, fuel = f + 1 := ⟨fuel - 1, by simp at hf; omega⟩
    obtain ⟨-, h2, h3⟩ := h
    have hx : x ≠ null := fun he => hn (he ▸ mem_cons_self)
    rw [headD_cons, toList, if_neg hx, h2,
      ih h3 (fun hm => hn (mem_cons_of_mem _ hm)) (by simpa using hf)]

/-- Reading a list from its head gives its nodes. -/
theorem IsList.toList_eq [DecidableEq α] {nx pv : α → α} {null head tail : α} {xs : List α}
    {fuel : ℕ} (h : IsList nx pv null head tail xs) (hf : xs.length ≤ fuel) :
    toList nx null fuel head = xs := by
  rw [h.head_eq]
  exact h.links.toList_eq h.null_notMem hf

/-- The nodes that following `nx` visits before the null pointer. -/
inductive Reach (nx : α → α) (null : α) : α → α → Prop
  | here {a : α} (h : a ≠ null) : Reach nx null a a
  | there {a x : α} (h : a ≠ null) (hx : Reach nx null (nx a) x) : Reach nx null a x

theorem Links.mem_of_reach {nx pv : α → α} {null b x : α} {xs : List α}
    (h : Links nx pv b xs null) (hx : Reach nx null (xs.headD null) x) : x ∈ xs := by
  induction xs generalizing b with
  | nil =>
    cases hx with
    | here h0 => exact absurd rfl h0
    | there h0 _ => exact absurd rfl h0
  | cons y ys ih =>
    obtain ⟨-, h2, h3⟩ := h
    cases hx with
    | here _ => exact mem_cons_self
    | there _ hx =>
      rw [headD_cons, h2] at hx
      exact mem_cons_of_mem _ (ih h3 hx)

/-- A list has no other nodes than those of its spine. -/
theorem IsList.mem_of_reach {nx pv : α → α} {null head tail x : α} {xs : List α}
    (h : IsList nx pv null head tail xs) (hx : Reach nx null head x) : x ∈ xs := by
  rw [h.head_eq] at hx
  exact h.links.mem_of_reach hx

theorem Links.reach_of_mem {nx pv : α → α} {null b x : α} {xs : List α}
    (h : Links nx pv b xs null) (hn : null ∉ xs) (hx : x ∈ xs) :
    Reach nx null (xs.headD null) x := by
  induction xs generalizing b with
  | nil => exact absurd hx not_mem_nil
  | cons y ys ih =>
    obtain ⟨-, h2, h3⟩ := h
    have hy : y ≠ null := fun he => hn (he ▸ mem_cons_self)
    rcases mem_cons.mp hx with rfl | hx
    · exact .here hy
    · refine .there hy ?_
      rw [headD_cons, h2]
      exact ih h3 (fun hm => hn (mem_cons_of_mem _ hm)) hx

/-- A list visits the nodes of its spine. -/
theorem IsList.reach_iff {nx pv : α → α} {null head tail x : α} {xs : List α}
    (h : IsList nx pv null head tail xs) : Reach nx null head x ↔ x ∈ xs := by
  refine ⟨h.mem_of_reach, fun hx => ?_⟩
  rw [h.head_eq]
  exact h.links.reach_of_mem h.null_notMem hx

end DLinked
