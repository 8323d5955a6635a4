/-
Free lists that live in the memory they manage.

The header of a free region is the first bytes of the region itself: a word
`count` at offset 0, `next` at 8 and `prev` at 16.  A region has `count` units
of `L.unit` bytes.  Several lists, one for each `z : ζ`, share the memory with
the spans that are `taken`.

`Inv` says that every list is null-terminated, acyclic and doubly linked, that
regions and taken spans are pairwise apart, and that every region has room for
its header.  The operations of an allocator keep it:

* `Inv.shrink` — the end of a region is taken,
* `Inv.drop` — a whole region is taken and its node leaves the list,
* `Inv.append` — a taken span becomes a region, provided its `next` word is null,
* `Inv.write` — any write into taken spans.

`append` writes the link of the old tail and the new node's `prev`, and does
not write its `next`.
-/
import Obos.Lib.ByteMem
import Obos.Lib.DLinked

open DLinked List

namespace FreeList

open Function

/-- Bytes for each unit of `count`, and bytes of a header. -/
structure Layout where
  unit : ℕ
  hdr : ℕ
  unit_pos : 0 < unit
  words : 24 ≤ hdr

/-- The two ends of a list. -/
structure Ends where
  head : ℕ
  tail : ℕ
  deriving DecidableEq, Repr

/-! ### Headers -/

section

variable (m : ByteMem)

def count (x : ℕ) : ℕ := m.load64 x

def next (x : ℕ) : ℕ := m.load64 (x + 8)

def prev (x : ℕ) : ℕ := m.load64 (x + 16)

def setCount (x v : ℕ) : ByteMem := m.store64 x v

def setNext (x v : ℕ) : ByteMem := m.store64 (x + 8) v

def setPrev (x v : ℕ) : ByteMem := m.store64 (x + 16) v

/-- Join the neighbours of `x` and move the ends of the list off it. -/
def unlink (l : Ends) (x : ℕ) : ByteMem × Ends :=
  let m := if next m x ≠ 0 then setPrev m (next m x) (prev m x) else m
  let m := if prev m x ≠ 0 then setNext m (prev m x) (next m x) else m
  (m, { head := if l.head = x then next m x else l.head
        tail := if l.tail = x then prev m x else l.tail })

/-- Put `x` behind the tail. -/
def append (l : Ends) (x : ℕ) : ByteMem × Ends :=
  let m := if l.tail ≠ 0 then setNext m l.tail x else m
  (setPrev m x l.tail, { head := if l.head = 0 then x else l.head, tail := x })

end

/-- The words of the two headers have no byte in common. -/
def Far (x y : ℕ) : Prop := x + 24 ≤ y ∨ y + 24 ≤ x

theorem Far.symm {x y : ℕ} (h : Far x y) : Far y x := Or.symm h

theorem Far.ne {x y : ℕ} (h : Far x y) : y ≠ x := by
  unfold Far at h
  omega

section Fields

variable {m m' m'' : ByteMem} {x y v o o' : ℕ}

theorem load64_store64_far (h : Far x y) (ho : o ≤ 16) (ho' : o' ≤ 16) :
    (m.store64 (x + o) v).load64 (y + o') = m.load64 (y + o') := by
  refine ByteMem.load64_store64_apart ?_
  unfold Far at h
  omega

@[simp] theorem count_setNext_self : count (setNext m x v) x = count m x :=
  ByteMem.load64_store64_apart (by omega)

@[simp] theorem count_setPrev_self : count (setPrev m x v) x = count m x :=
  ByteMem.load64_store64_apart (by omega)

@[simp] theorem next_setCount_self : next (setCount m x v) x = next m x :=
  ByteMem.load64_store64_apart (by omega)

@[simp] theorem next_setPrev_self : next (setPrev m x v) x = next m x :=
  ByteMem.load64_store64_apart (by omega)

@[simp] theorem prev_setCount_self : prev (setCount m x v) x = prev m x :=
  ByteMem.load64_store64_apart (by omega)

@[simp] theorem prev_setNext_self : prev (setNext m x v) x = prev m x :=
  ByteMem.load64_store64_apart (by omega)

theorem count_setCount_self (hv : v < 2 ^ 64) : count (setCount m x v) x = v :=
  ByteMem.load64_store64_self hv

theorem next_setNext_self (hv : v < 2 ^ 64) : next (setNext m x v) x = v :=
  ByteMem.load64_store64_self hv

theorem prev_setPrev_self (hv : v < 2 ^ 64) : prev (setPrev m x v) x = v :=
  ByteMem.load64_store64_self hv

/-- The three words of `y` are the same in both memories. -/
structure SameNode (m m' : ByteMem) (y : ℕ) : Prop where
  count : count m' y = count m y
  next : next m' y = next m y
  prev : prev m' y = prev m y

theorem SameNode.refl (m : ByteMem) (y : ℕ) : SameNode m m y := ⟨rfl, rfl, rfl⟩

theorem SameNode.trans (h : SameNode m m' y) (h' : SameNode m' m'' y) : SameNode m m'' y :=
  ⟨h'.count.trans h.count, h'.next.trans h.next, h'.prev.trans h.prev⟩

theorem sameNode_store (h : Far x y) (ho : o ≤ 16) : SameNode m (m.store64 (x + o) v) y := by
  have h0 : (m.store64 (x + o) v).load64 (y + 0) = m.load64 (y + 0) :=
    load64_store64_far h ho (by omega)
  exact ⟨h0, load64_store64_far h ho (by omega), load64_store64_far h ho (by omega)⟩

theorem sameNode_setCount (h : Far x y) (v : ℕ) : SameNode m (setCount m x v) y :=
  sameNode_store (o := 0) h (by omega)

theorem sameNode_setNext (h : Far x y) (v : ℕ) : SameNode m (setNext m x v) y :=
  sameNode_store h (by omega)

theorem sameNode_setPrev (h : Far x y) (v : ℕ) : SameNode m (setPrev m x v) y :=
  sameNode_store h (by omega)

/-- Memory that agrees on the words of `y`. -/
theorem sameNode_of_agree (h : ∀ a, (Span.mk y 24).Has a → m' a = m a) : SameNode m m' y := by
  have hw : ∀ o, o ≤ 16 → m'.load64 (y + o) = m.load64 (y + o) := by
    intro o ho
    refine ByteMem.load_congr fun a ha => h a ⟨?_, ?_⟩
    · have := ha.1
      simp only at this ⊢
      omega
    · have := ha.2
      simp only [Span.stop_mk] at this ⊢
      omega
  exact ⟨hw 0 (by omega), hw 8 (by omega), hw 16 (by omega)⟩

/-- A store into a word of `x` changes bytes of its three words only. -/
theorem store_of_not_words {a : ℕ} (ho : o ≤ 16) (ha : ¬ (Span.mk x 24).Has a) :
    m.store64 (x + o) v a = m a := by
  refine ByteMem.store_of_not_has fun hh => ha ⟨?_, ?_⟩
  · exact le_trans (Nat.le_add_right x o) hh.1
  · have hlt := hh.2
    simp only [Span.stop_mk] at hlt ⊢
    omega

theorem setCount_of_not_has {a : ℕ} (v : ℕ) (ha : ¬ (Span.mk x 24).Has a) :
    setCount m x v a = m a :=
  store_of_not_words (Nat.zero_le 16) ha

theorem setNext_of_not_has {a : ℕ} (v : ℕ) (ha : ¬ (Span.mk x 24).Has a) :
    setNext m x v a = m a :=
  store_of_not_words (by norm_num) ha

theorem setPrev_of_not_has {a : ℕ} (v : ℕ) (ha : ¬ (Span.mk x 24).Has a) :
    setPrev m x v a = m a :=
  store_of_not_words le_rfl ha

/-- The words of a node that was zeroed before its count was set. -/
theorem fields_of_zero {n : ℕ} (hn : 24 ≤ n) (hv : v < 2 ^ 64) :
    count (setCount (m.zero ⟨x, n⟩) x v) x = v ∧ next (setCount (m.zero ⟨x, n⟩) x v) x = 0 ∧
    prev (setCount (m.zero ⟨x, n⟩) x v) x = 0 := by
  have hzero : ∀ o ≤ 16, (m.zero ⟨x, n⟩).load64 (x + o) = 0 := fun o ho =>
    ByteMem.load64_zero_within ⟨Nat.le_add_right x o, by simp only [Span.stop_mk]; omega⟩
  refine ⟨count_setCount_self hv, ?_, ?_⟩
  · rw [next_setCount_self]
    exact hzero 8 (by norm_num)
  · rw [prev_setCount_self]
    exact hzero 16 le_rfl

end Fields

/-! ### Unlinking a node -/

section Unlink

variable {m : ByteMem} {l : Ends} {x y : ℕ}

section

variable (hn : next m x ≠ 0 → Far (next m x) x)
include hn

/-- With neighbours whose headers are apart from the node's own, unlinking
reads the old links throughout. -/
theorem unlink_eq (hp : prev m x ≠ 0 → Far (prev m x) x) :
    unlink m l x =
      ((let m₁ := if next m x ≠ 0 then setPrev m (next m x) (prev m x) else m
        if prev m x ≠ 0 then setNext m₁ (prev m x) (next m x) else m₁),
       { head := if l.head = x then next m x else l.head
         tail := if l.tail = x then prev m x else l.tail }) := by
  set m₁ := if next m x ≠ 0 then setPrev m (next m x) (prev m x) else m with hm₁
  have h₁ : SameNode m m₁ x := by
    rw [hm₁]
    split
    · exact sameNode_setPrev (hn ‹_›) _
    · exact SameNode.refl m x
  set m₂ := if prev m x ≠ 0 then setNext m₁ (prev m x) (next m x) else m₁ with hm₂
  have h₂ : SameNode m₁ m₂ x := by
    rw [hm₂]
    split
    · exact sameNode_setNext (hp ‹_›) _
    · exact SameNode.refl m₁ x
  have h12 := h₁.trans h₂
  simp [unlink, ← hm₁, h₁.next, h₁.prev, ← hm₂, h12.next, h12.prev]

/-- What unlinking does to the words of a node `y` whose header is one of the
neighbours' or apart from both. -/
theorem unlink_fields
    (hp : prev m x ≠ 0 → Far (prev m x) x) (hyn : next m x ≠ 0 → y = next m x ∨ Far (next m x) y)
    (hyp : prev m x ≠ 0 → y = prev m x ∨ Far (prev m x) y) (hy : y ≠ 0) :
    count (unlink m l x).1 y = count m y ∧
    next (unlink m l x).1 y = (if y = prev m x then next m x else next m y) ∧
    prev (unlink m l x).1 y = (if y = next m x then prev m x else prev m y) := by
  have hnlt : next m x < 2 ^ 64 := m.load64_lt _
  have hplt : prev m x < 2 ^ 64 := m.load64_lt _
  rw [unlink_eq hn hp]
  set m₁ := if next m x ≠ 0 then setPrev m (next m x) (prev m x) else m with hm₁
  -- the store into the successor
  have h₁ : count m₁ y = count m y ∧ next m₁ y = next m y ∧
      prev m₁ y = (if y = next m x then prev m x else prev m y) := by
    by_cases h0 : next m x = 0
    · have hne : y ≠ next m x := by rw [h0]; exact hy
      rw [hm₁, if_neg (not_not.mpr h0), if_neg hne]
      exact ⟨rfl, rfl, rfl⟩
    · rw [hm₁, if_pos h0]
      obtain he | hfar := hyn h0
      · rw [he, if_pos rfl, prev_setPrev_self hplt]
        exact ⟨count_setPrev_self, next_setPrev_self, rfl⟩
      · have hs : SameNode m (setPrev m (next m x) (prev m x)) y := sameNode_setPrev hfar _
        rw [if_neg hfar.ne]
        exact ⟨hs.count, hs.next, hs.prev⟩
  obtain ⟨hc1, hn1, hv1⟩ := h₁
  by_cases h0 : prev m x = 0
  · have hne : y ≠ prev m x := by rw [h0]; exact hy
    simp only [h0, ne_eq, not_true_eq_false, if_false]
    rw [if_neg hy]
    refine ⟨hc1, hn1, ?_⟩
    rw [hv1, h0]
  · simp only [ne_eq, h0, not_false_eq_true, if_true]
    obtain he | hfar := hyp h0
    · rw [he] at hc1 hv1 ⊢
      rw [if_pos rfl, next_setNext_self hnlt]
      exact ⟨count_setNext_self.trans hc1, rfl, prev_setNext_self.trans hv1⟩
    · have hs : SameNode m₁ (setNext m₁ (prev m x) (next m x)) y := sameNode_setNext hfar _
      rw [if_neg hfar.ne]
      exact ⟨hs.count.trans hc1, hs.next.trans hn1, hs.prev.trans hv1⟩

/-- Only words of the two neighbours change. -/
theorem unlink_of_not_has {a : ℕ}
    (hp : prev m x ≠ 0 → Far (prev m x) x) (hna : next m x ≠ 0 → ¬ (Span.mk (next m x) 24).Has a)
    (hpa : prev m x ≠ 0 → ¬ (Span.mk (prev m x) 24).Has a) : (unlink m l x).1 a = m a := by
  rw [unlink_eq hn hp]
  have h₁ : (if next m x ≠ 0 then setPrev m (next m x) (prev m x) else m) a = m a := by
    by_cases h0 : next m x = 0
    · rw [if_neg (not_not.mpr h0)]
    · rw [if_pos h0, setPrev_of_not_has _ (hna h0)]
  by_cases h0 : prev m x = 0
  · simpa only [if_neg (not_not.mpr h0)] using h₁
  · simpa only [if_pos h0, setNext_of_not_has _ (hpa h0)] using h₁

end

end Unlink

/-! ### Appending a node -/

section Append

variable {m : ByteMem} {l : Ends} {x y : ℕ}

/-- The words of a node `y` away from the new one: the old tail gets a
successor. -/
theorem append_old (hx : Far x y) (ht : l.tail ≠ 0 → y = l.tail ∨ Far l.tail y) (hy : y ≠ 0)
    (hx64 : x < 2 ^ 64) :
    count (append m l x).1 y = count m y ∧
    next (append m l x).1 y = (if y = l.tail then x else next m y) ∧
    prev (append m l x).1 y = prev m y := by
  rw [append]
  by_cases h0 : l.tail = 0
  · have hne : y ≠ l.tail := fun he => hy (he.trans h0)
    have hs : SameNode m (setPrev m x l.tail) y := sameNode_setPrev hx _
    simp only [h0, ne_eq, not_true_eq_false, if_false]
    rw [if_neg hy, ← h0]
    exact ⟨hs.count, hs.next, hs.prev⟩
  · simp only [ne_eq, h0, not_false_eq_true, if_true]
    have hs : SameNode (setNext m l.tail x) (setPrev (setNext m l.tail x) x l.tail) y :=
      sameNode_setPrev hx _
    rw [hs.count, hs.next, hs.prev]
    obtain rfl | hfar := ht h0
    · rw [if_pos rfl, next_setNext_self hx64]
      exact ⟨count_setNext_self, rfl, prev_setNext_self⟩
    · have hs' : SameNode m (setNext m l.tail x) y := sameNode_setNext hfar _
      rw [if_neg hfar.ne]
      exact ⟨hs'.count, hs'.next, hs'.prev⟩

/-- The words of the new node; its `next` is what was there before. -/
theorem append_new (ht : l.tail ≠ 0 → Far l.tail x) (ht64 : l.tail < 2 ^ 64) :
    count (append m l x).1 x = count m x ∧ next (append m l x).1 x = next m x ∧
    prev (append m l x).1 x = l.tail := by
  rw [append]
  simp only [count_setPrev_self, next_setPrev_self, prev_setPrev_self ht64]
  by_cases h0 : l.tail = 0
  · simp [h0]
  · have hs : SameNode m (setNext m l.tail x) x := sameNode_setNext (ht h0) _
    simp only [ne_eq, h0, not_false_eq_true, if_true]
    exact ⟨hs.count, hs.next, trivial⟩

/-- Only words of the new node and of the old tail change. -/
theorem append_of_not_has {a : ℕ} (hx : ¬ (Span.mk x 24).Has a)
    (ht : l.tail ≠ 0 → ¬ (Span.mk l.tail 24).Has a) : (append m l x).1 a = m a := by
  show setPrev (if l.tail ≠ 0 then setNext m l.tail x else m) x l.tail a = m a
  rw [setPrev_of_not_has _ hx]
  by_cases h0 : l.tail = 0
  · rw [if_neg (not_not.mpr h0)]
  · rw [if_pos h0, setNext_of_not_has _ (ht h0)]

end Append

/-! ### The invariant -/

/-- The memory of a free region. -/
def region (L : Layout) (m : ByteMem) (x : ℕ) : Span := ⟨x, count m x * L.unit⟩

/-- The region has room for its header and ends below the end of memory. -/
def Room (L : Layout) (m : ByteMem) (x : ℕ) : Prop :=
  x ≠ 0 ∧ L.hdr ≤ count m x * L.unit ∧ x + count m x * L.unit < 2 ^ 64

section Lists

variable {ζ : Type*} [Fintype ζ]

/-- The regions of all lists. -/
noncomputable def regions (L : Layout) (m : ByteMem) (ns : ζ → List ℕ) : List Span :=
  Finset.univ.toList.flatMap fun z => (ns z).map (region L m)

/-- The regions of all lists but one. -/
noncomputable def others [DecidableEq ζ] (L : Layout) (m : ByteMem) (ns : ζ → List ℕ) (z : ζ) :
    List Span :=
  (Finset.univ.erase z).toList.flatMap fun z' => (ns z').map (region L m)

/-- The lists `ns` with ends `fl` are well linked, and their regions and the
taken spans are pairwise apart. -/
structure Inv (L : Layout) (m : ByteMem) (fl : ζ → Ends) (ns : ζ → List ℕ)
    (taken : List Span) : Prop where
  lists : ∀ z, IsList (next m) (prev m) 0 (fl z).head (fl z).tail (ns z)
  apart : (regions L m ns ++ taken).Pairwise Span.Apart
  nodes : ∀ z, ∀ x ∈ ns z, Room L m x

theorem regions_perm [DecidableEq ζ] (L : Layout) (m : ByteMem) (ns : ζ → List ℕ) (z : ζ) :
    (regions L m ns).Perm ((ns z).map (region L m) ++ others L m ns z) := by
  have hperm : (Finset.univ : Finset ζ).toList.Perm (z :: (Finset.univ.erase z).toList) := by
    rw [perm_ext_iff_of_nodup (Finset.nodup_toList _)]
    · intro z'
      by_cases hz : z' = z <;> simp [hz]
    · simp [Finset.nodup_toList]
  exact hperm.flatMap_right _

/-- Regions depend on the counts of their nodes only. -/
theorem others_congr [DecidableEq ζ] {L : Layout} {m m' : ByteMem} {ns ns' : ζ → List ℕ} {z : ζ}
    (hns : ∀ z', z' ≠ z → ns' z' = ns z')
    (h : ∀ z', z' ≠ z → ∀ x ∈ ns z', count m' x = count m x) :
    others L m' ns' z = others L m ns z := by
  refine flatMap_congr fun z' hz' => ?_
  have hne : z' ≠ z := by simpa using hz'
  rw [hns z' hne]
  exact map_congr_left fun x hx => by rw [region, region, h z' hne x hx]

namespace Inv

variable {L : Layout} {m m' : ByteMem} {fl : ζ → Ends} {ns : ζ → List ℕ}
  {taken taken' : List Span} {z z' : ζ} {x y : ℕ} {l r : List ℕ} {b : Span}

section

variable (h : Inv L m fl ns taken)
include h

theorem ne_zero (hx : x ∈ ns z) : x ≠ 0 := (h.nodes z x hx).1

theorem lt (hx : x ∈ ns z) : x < 2 ^ 64 :=
  lt_of_le_of_lt (Nat.le_add_right _ _) (h.nodes z x hx).2.2

/-- The header of a node lies in its region. -/
theorem header_within (hx : x ∈ ns z) :
    (Span.mk x L.hdr).Within (region L m x) :=
  ⟨le_rfl, Nat.add_le_add_left (h.nodes z x hx).2.1 x⟩

/-- In a list with `x` in the middle the other nodes are not `x`. -/
theorem mem_rest (hlr : ns z = l ++ x :: r) (hy : y ∈ l ++ r) :
    y ∈ ns z ∧ y ≠ x := by
  have hnd := (h.lists z).nodup
  rw [hlr] at hnd ⊢
  have hxlr := (nodup_cons.mp (nodup_middle.mp hnd)).1
  refine ⟨?_, fun he => hxlr (he ▸ hy)⟩
  obtain hl | hr := mem_append.mp hy
  · exact mem_append_left _ hl
  · exact mem_append_right _ (mem_cons_of_mem _ hr)

end

omit [Fintype ζ] in
theorem mem_middle (hlr : ns z = l ++ x :: r) : x ∈ ns z := by
  rw [hlr]
  exact mem_append_right _ mem_cons_self

/-- The neighbours of a node in a list are nodes of that list. -/
theorem neighbour_mem (h : Inv L m fl ns taken) (hlr : ns z = l ++ x :: r) :
    (next m x ≠ 0 → next m x ∈ l ++ r) ∧ (prev m x ≠ 0 → prev m x ∈ l ++ r) := by
  have hlist := h.lists z
  rw [hlr] at hlist
  constructor
  · intro hne
    rw [hlist.next_mem] at hne ⊢
    cases r with
    | nil => simp at hne
    | cons y ys => simp
  · intro hne
    rw [hlist.prev_mem] at hne ⊢
    by_cases hl : l = []
    · simp [hl] at hne
    · exact mem_append_left _ (IsList.getLastD_mem hl 0)

/-- The tail of a list is one of its nodes. -/
theorem tail_mem (h : Inv L m fl ns taken) (ht : (fl z).tail ≠ 0) : (fl z).tail ∈ ns z := by
  have hne : ns z ≠ [] := fun he => ht ((h.lists z).tail_eq_null_iff.mpr he)
  rw [(h.lists z).tail_eq]
  exact IsList.getLastD_mem hne 0

theorem tail_lt (h : Inv L m fl ns taken) : (fl z).tail < 2 ^ 64 := by
  by_cases h0 : (fl z).tail = 0
  · omega
  · exact h.lt (h.tail_mem h0)

/-- The order of the taken spans does not matter. -/
theorem perm (h : Inv L m fl ns taken) (hp : taken.Perm taken') : Inv L m fl ns taken' :=
  ⟨h.lists, Span.pairwise_perm (hp.append_left _) h.apart, h.nodes⟩

/-- Taken spans may shrink. -/
theorem shrink_taken (h : Inv L m fl ns (b :: taken)) {b' : Span} (hb : b'.Within b) :
    Inv L m fl ns (b' :: taken) := by
  refine ⟨h.lists, ?_, h.nodes⟩
  have hfront := Span.pairwise_perm perm_middle h.apart
  exact Span.pairwise_perm perm_middle.symm (Span.pairwise_shrink hfront hb)

/-- Memory in which the words of every node are the same is as good. -/
theorem congr (h : Inv L m fl ns taken) (hs : ∀ z, ∀ y ∈ ns z, SameNode m m' y) :
    Inv L m' fl ns taken := by
  have hregions : regions L m' ns = regions L m ns := by
    refine flatMap_congr fun z _ => map_congr_left fun y hy => ?_
    rw [region, region, (hs z y hy).count]
  refine ⟨fun z => ?_, ?_, fun z y hy => ?_⟩
  · exact (h.lists z).congr (fun y hy => (hs z y hy).next) (fun y hy => (hs z y hy).prev)
  · rw [hregions]
    exact h.apart
  · rw [Room, (hs z y hy).count]
    exact h.nodes z y hy

/-- The number of nodes of a list is below the number of addresses. -/
theorem length_lt (h : Inv L m fl ns taken) (z : ζ) : (ns z).length < 2 ^ 64 := by
  have hsub : ns z ⊆ List.range' 1 (2 ^ 64 - 1) := by
    intro x hx
    have h0 := h.ne_zero hx
    have hlt := h.lt hx
    rw [mem_range'_1]
    omega
  have hle := ((h.lists z).nodup.subperm hsub).length_le
  rw [length_range'] at hle
  omega

variable [DecidableEq ζ]

theorem apart_front (h : Inv L m fl ns taken) (z : ζ) :
    ((ns z).map (region L m) ++ (others L m ns z ++ taken)).Pairwise Span.Apart := by
  rw [← append_assoc]
  exact Span.pairwise_perm ((regions_perm L m ns z).append_right _) h.apart

/-- Different nodes have different regions. -/
theorem region_apart (h : Inv L m fl ns taken) (hx : x ∈ ns z) (hy : y ∈ ns z')
    (hne : (z, x) ≠ (z', y)) : (region L m x).Apart (region L m y) := by
  have hap := pairwise_append.mp (h.apart_front z)
  by_cases hz : z' = z
  · subst hz
    have hxy : x ≠ y := fun he => hne (by rw [he])
    exact Span.apart_of_mem hap.1 hx hy hxy
  · have hmem : region L m y ∈ others L m ns z :=
      mem_flatMap.mpr ⟨z', by simp [hz], mem_map_of_mem hy⟩
    exact hap.2.2 _ (mem_map_of_mem hx) _ (mem_append_left _ hmem)

theorem taken_apart (h : Inv L m fl ns taken) (hb : b ∈ taken) (hx : x ∈ ns z) :
    b.Apart (region L m x) := by
  have hap := pairwise_append.mp (h.apart_front z)
  exact (hap.2.2 _ (mem_map_of_mem hx) _ (mem_append_right _ hb)).symm

theorem far_of_apart {x y len len' : ℕ} (h : (Span.mk x len).Apart ⟨y, len'⟩) (hx : 24 ≤ len)
    (hy : 24 ≤ len') : Far x y := by
  simp only [Span.Apart, Span.stop_mk] at h
  unfold Far
  omega

section

variable (h : Inv L m fl ns taken)
include h

theorem far (hx : x ∈ ns z) (hy : y ∈ ns z')
    (hne : (z, x) ≠ (z', y)) : Far x y :=
  far_of_apart (h.region_apart hx hy hne) (le_trans L.words (h.nodes z x hx).2.1)
    (le_trans L.words (h.nodes z' y hy).2.1)

/-- Two nodes are one node or their headers are apart. -/
theorem eq_or_far {w : ζ} (hx : x ∈ ns z) (hy : y ∈ ns w) :
    y = x ∨ Far x y := by
  by_cases he : (z, x) = (w, y)
  · exact Or.inl (Prod.ext_iff.mp he).2.symm
  · exact Or.inr (h.far hx hy he)

theorem far_of_ne (hx : x ∈ ns z) (hy : y ∈ ns z') (hne : y ≠ x) :
    Far x y :=
  (h.eq_or_far hx hy).resolve_left hne

theorem not_mem_of_ne (hx : x ∈ ns z) (hz : z' ≠ z) : x ∉ ns z' := by
  intro hx'
  exact (h.far hx hx' fun he => hz (Prod.ext_iff.mp he).1.symm).ne rfl

/-- The words of a node are not in a taken span. -/
theorem words_not_has (hx : x ∈ ns z) (hb : b ∈ taken) {a : ℕ}
    (ha : b.Has a) : ¬ (Span.mk x 24).Has a := by
  have hwords : (Span.mk x 24).Within (region L m x) :=
    ⟨le_rfl, Nat.add_le_add_left (le_trans L.words (h.nodes z x hx).2.1) x⟩
  exact ((h.taken_apart hb hx).mono (Span.Within.refl b) hwords).not_has ha

/-- The nodes in memory that differs inside taken spans only. -/
theorem sameNode (hm : ∀ a, (∀ b ∈ taken, ¬ b.Has a) → m' a = m a)
    (hx : x ∈ ns z) : SameNode m m' x := by
  refine sameNode_of_agree fun a ha => hm a fun b hb hba => ?_
  exact h.words_not_has hx hb hba ha

/-- Memory that differs inside taken spans only. -/
theorem write (hm : ∀ a, (∀ b ∈ taken, ¬ b.Has a) → m' a = m a) :
    Inv L m' fl ns taken :=
  h.congr fun _ _ hy => h.sameNode hm hy

/-! ### Taking memory of a region -/

section

variable (hlr : ns z = l ++ x :: r)
include hlr

/-- The memory with `x`'s region in front, when `x` is in the middle of its list. -/
theorem apart_middle :
    (region L m x :: ((l ++ r).map (region L m) ++ (others L m ns z ++ taken))).Pairwise
      Span.Apart := by
  have hpw := h.apart_front z
  rwa [hlr, map_append, map_cons, append_assoc, cons_append,
    pairwise_middle fun h => Span.Apart.symm h, ← append_assoc, ← map_append] at hpw

/-- The regions of the other nodes when only `x` changed its count. -/
theorem map_region {ns' : ζ → List ℕ}
    (hns : ∀ z', z' ≠ z → ns' z' = ns z')
    (hsame : ∀ z', ∀ y ∈ ns z', y ≠ x → count m' y = count m y) :
    (l ++ r).map (region L m') = (l ++ r).map (region L m) ∧
    others L m' ns' z = others L m ns z := by
  constructor
  · refine map_congr_left fun y hy => ?_
    obtain ⟨hyz, hyx⟩ := h.mem_rest hlr hy
    rw [region, region, hsame z y hyz hyx]
  · refine others_congr hns fun z' hz' y hy => hsame z' y hy fun he => ?_
    exact h.not_mem_of_ne (mem_middle hlr) hz' (he ▸ hy)

/-- The region of `x` gives up the span `b` and keeps a part of the rest. -/
theorem apart_keep (hsame : ∀ z', ∀ y ∈ ns z', y ≠ x → count m' y = count m y)
    (hkeep : (region L m' x).Within (region L m x)) (hb : b.Within (region L m x))
    (hab : (region L m' x).Apart b) : (regions L m' ns ++ b :: taken).Pairwise Span.Apart := by
  obtain ⟨hlr', ho⟩ := h.map_region hlr (fun _ _ => rfl) hsame
  have hsplit := Span.pairwise_split (h.apart_middle hlr) hkeep hb hab
  rw [← hlr', ← ho] at hsplit
  refine Span.pairwise_perm ?_ hsplit
  refine List.Perm.trans ?_ ((regions_perm L m' ns z).append_right _).symm
  -- the region of `x` and `b` move to their places
  simp only [hlr, map_append, map_cons, append_assoc, cons_append]
  refine List.Perm.trans (List.Perm.cons _ ?_) perm_middle.symm
  simp only [← append_assoc]
  exact perm_middle.symm

/-- The region of `x` leaves its list, and a part of it becomes the span `b`. -/
theorem apart_drop (hsame : ∀ z', ∀ y ∈ ns z', y ≠ x → count m' y = count m y)
    (hb : b.Within (region L m x)) :
    (regions L m' (update ns z (l ++ r)) ++ b :: taken).Pairwise Span.Apart := by
  have hns : ∀ z', z' ≠ z → update ns z (l ++ r) z' = ns z' :=
    fun z' hz' => update_of_ne hz' _ _
  obtain ⟨hlr', ho⟩ := h.map_region hlr hns hsame
  have hshrink := Span.pairwise_shrink (h.apart_middle hlr) hb
  rw [← hlr', ← ho] at hshrink
  refine Span.pairwise_perm ?_ hshrink
  refine List.Perm.trans ?_ ((regions_perm L m' _ z).append_right _).symm
  rw [update_self, ← append_assoc]
  exact perm_middle.symm

/-! ### Unlinking a node of a list -/

/-- A neighbour of `x` is another node. -/
theorem far_neighbour :
    (next m x ≠ 0 → Far (next m x) x) ∧ (prev m x ≠ 0 → Far (prev m x) x) := by
  obtain ⟨hnm, hpm⟩ := h.neighbour_mem hlr
  have hfar : ∀ w ∈ l ++ r, Far w x := fun w hw =>
    h.far_of_ne (h.mem_rest hlr hw).1 (mem_middle hlr) (h.mem_rest hlr hw).2.symm
  exact ⟨fun hn => hfar _ (hnm hn), fun hp => hfar _ (hpm hp)⟩

/-- What unlinking `x` does to the nodes of all lists, in a memory `m'` in
which the links of `x` are still those of `m`. -/
theorem unlink_nodes
    (hmn : next m' x = next m x) (hmp : prev m' x = prev m x) (f : Ends) (hy : y ∈ ns z') :
    count (unlink m' f x).1 y = count m' y ∧
    next (unlink m' f x).1 y = (if y = prev m x then next m x else next m' y) ∧
    prev (unlink m' f x).1 y = (if y = next m x then prev m x else prev m' y) := by
  obtain ⟨hnm, hpm⟩ := h.neighbour_mem hlr
  obtain ⟨hfn, hfp⟩ := h.far_neighbour hlr
  have hfar : ∀ w ∈ l ++ r, y = w ∨ Far w y := fun w hw =>
    h.eq_or_far (h.mem_rest hlr hw).1 hy
  rw [← hmn] at hnm hfn ⊢
  rw [← hmp] at hpm hfp ⊢
  exact unlink_fields hfn hfp (fun hn => hfar _ (hnm hn)) (fun hp => hfar _ (hpm hp))
    (h.ne_zero hy)

/-- The ends of the list after unlinking `x`. -/
theorem unlink_ends (hmn : next m' x = next m x) (hmp : prev m' x = prev m x) (f : Ends) :
    (unlink m' f x).2 =
      { head := if f.head = x then next m x else f.head
        tail := if f.tail = x then prev m x else f.tail } := by
  obtain ⟨hfn, hfp⟩ := h.far_neighbour hlr
  rw [← hmn] at hfn ⊢
  rw [← hmp] at hfp ⊢
  rw [unlink_eq hfn hfp]

/-- A node of another list is no neighbour of `x`. -/
theorem ne_neighbour (hz : z' ≠ z)
    (hy : y ∈ ns z') : y ≠ next m x ∧ y ≠ prev m x := by
  obtain ⟨hnm, hpm⟩ := h.neighbour_mem hlr
  have hmem : ∀ w ∈ l ++ r, w ∉ ns z' := fun w hw =>
    h.not_mem_of_ne (h.mem_rest hlr hw).1 hz
  constructor
  · intro he
    rw [he] at hy
    exact hmem _ (hnm (h.ne_zero hy)) hy
  · intro he
    rw [he] at hy
    exact hmem _ (hpm (h.ne_zero hy)) hy

end

/-- Changing the count of `x` changes nothing else of any node. -/
theorem setCount_fields (hx : x ∈ ns z) (hy : y ∈ ns z') (v : ℕ) :
    next (setCount m x v) y = next m y ∧ prev (setCount m x v) y = prev m y ∧
    (y ≠ x → count (setCount m x v) y = count m y) := by
  obtain rfl | hfar := h.eq_or_far hx hy
  · exact ⟨next_setCount_self, prev_setCount_self, fun hne => absurd rfl hne⟩
  · have hs : SameNode m (setCount m x v) y := sameNode_setCount hfar v
    exact ⟨hs.next, hs.prev, fun _ => hs.count⟩

/-- The words of the node `y` after the count of `x` was set and `x` unlinked. -/
theorem dropped_fields (hlr : ns z = l ++ x :: r) (v : ℕ) (f : Ends)
    (hy : y ∈ ns z') (hyx : y ≠ x) :
    count (unlink (setCount m x v) f x).1 y = count m y ∧
    next (unlink (setCount m x v) f x).1 y = (if y = prev m x then next m x else next m y) ∧
    prev (unlink (setCount m x v) f x).1 y = (if y = next m x then prev m x else prev m y) := by
  have hx := mem_middle hlr
  obtain ⟨hc, hn, hv⟩ := h.unlink_nodes hlr (h.setCount_fields hx hx v).1
    (h.setCount_fields hx hx v).2.1 f hy
  obtain ⟨hsn, hsp, hsq⟩ := h.setCount_fields hx hy v
  rw [hc, hn, hv, hsn, hsp, hsq hyx]
  exact ⟨rfl, rfl, rfl⟩

/-! ### Taken bytes stay -/

theorem setCount_taken (hx : x ∈ ns z) (v : ℕ) (hb : b ∈ taken) {a : ℕ}
    (ha : b.Has a) : setCount m x v a = m a :=
  setCount_of_not_has v (h.words_not_has hx hb ha)

/-- Unlinking a node changes no byte of a taken span. -/
theorem unlink_taken (hx : x ∈ ns z) (v : ℕ) (f : Ends) (hb : b ∈ taken)
    {a : ℕ} (ha : b.Has a) : (unlink (setCount m x v) f x).1 a = m a := by
  obtain ⟨l, r, hlr⟩ := append_of_mem hx
  obtain ⟨hnm, hpm⟩ := h.neighbour_mem hlr
  obtain ⟨hfn, hfp⟩ := h.far_neighbour hlr
  obtain ⟨hn, hp, -⟩ := h.setCount_fields hx hx v
  have hnot : ∀ w ∈ l ++ r, ¬ (Span.mk w 24).Has a := fun w hw =>
    h.words_not_has (h.mem_rest hlr hw).1 hb ha
  rw [← hn] at hnm hfn
  rw [← hp] at hpm hfp
  rw [unlink_of_not_has hfn hfp (fun h0 => hnot _ (hnm h0)) (fun h0 => hnot _ (hpm h0))]
  exact h.setCount_taken hx v hb ha

end

/-- Appending a node changes no byte of a span that stays taken. -/
theorem append_taken {len : ℕ} (h : Inv L m fl ns (⟨x, len⟩ :: taken)) (hlen : 24 ≤ len)
    (hb : b ∈ taken) {a : ℕ} (ha : b.Has a) : (FreeList.append m (fl z) x).1 a = m a := by
  have hbx : b.Apart ⟨x, len⟩ := by
    have hpw := (pairwise_append.mp h.apart).2.1
    exact ((pairwise_cons.mp hpw).1 b hb).symm
  have hwords : (Span.mk x 24).Within ⟨x, len⟩ := ⟨le_rfl, Nat.add_le_add_left hlen x⟩
  have hx : ¬ (Span.mk x 24).Has a := (hbx.mono (Span.Within.refl b) hwords).not_has ha
  exact append_of_not_has hx fun h0 =>
    h.words_not_has (h.tail_mem h0) (mem_cons_of_mem _ hb) ha

/-! ### The operations -/

/-- The span `b` is taken off the end of the region of `x`, which keeps `left`
units. -/
theorem shrink (h : Inv L m fl ns taken) (hx : x ∈ ns z) {left : ℕ}
    (hhdr : L.hdr ≤ left * L.unit) (hleft : left ≤ count m x) (hb : b.Within (region L m x))
    (hstart : x + left * L.unit ≤ b.base) : Inv L (setCount m x left) fl ns (b :: taken) := by
  obtain ⟨l, r, hlr⟩ := append_of_mem hx
  obtain ⟨hx0, -, hbd⟩ := h.nodes z x hx
  have hself : count (setCount m x left) x = left :=
    count_setCount_self (lt_of_le_of_lt hleft (m.load64_lt x))
  have hmul : left * L.unit ≤ count m x * L.unit := Nat.mul_le_mul_right _ hleft
  refine ⟨fun z' => ?_, ?_, fun z' y hy => ?_⟩
  · exact (h.lists z').congr (fun y hy => (h.setCount_fields hx hy left).1)
      (fun y hy => (h.setCount_fields hx hy left).2.1)
  · refine h.apart_keep hlr (fun z' y hy => (h.setCount_fields hx hy left).2.2) ?_ hb ?_
    · rw [region, hself]
      exact ⟨le_rfl, Nat.add_le_add_left hmul x⟩
    · rw [region, hself]
      exact Or.inl hstart
  · by_cases hyx : y = x
    · subst hyx
      rw [Room, hself]
      exact ⟨hx0, hhdr, by omega⟩
    · rw [Room, (h.setCount_fields hx hy left).2.2 hyx]
      exact h.nodes z' y hy

/-- The node `x` leaves its list, and the span `b` of its region is taken. -/
theorem drop (h : Inv L m fl ns taken) (hx : x ∈ ns z) (v : ℕ) (hb : b.Within (region L m x)) :
    ∃ l r, ns z = l ++ x :: r ∧ Inv L (unlink (setCount m x v) (fl z) x).1
      (update fl z (unlink (setCount m x v) (fl z) x).2)
      (update ns z (l ++ r)) (b :: taken) ∧
      ∀ z', ∀ y ∈ update ns z (l ++ r) z', y ∈ ns z' ∧
        count (unlink (setCount m x v) (fl z) x).1 y = count m y := by
  obtain ⟨l, r, hlr⟩ := append_of_mem hx
  have hf := fun {z'} {y} (hy : y ∈ ns z') (hyx : y ≠ x) => h.dropped_fields hlr v (fl z) hy hyx
  have hne : ∀ z', z' ≠ z → ∀ y ∈ ns z', y ≠ x := fun z' hz' y hy he =>
    h.not_mem_of_ne hx hz' (he ▸ hy)
  have hmem : ∀ z', ∀ y ∈ update ns z (l ++ r) z', y ∈ ns z' ∧ y ≠ x := by
    intro z' y hy
    by_cases hz : z' = z
    · subst hz
      rw [update_self] at hy
      exact h.mem_rest hlr hy
    · rw [update_of_ne hz] at hy
      exact ⟨hy, hne z' hz y hy⟩
  refine ⟨l, r, hlr, ⟨fun z' => ?_, ?_, fun z' y hy => ?_⟩, fun z' y hy => ?_⟩
  · by_cases hz : z' = z
    · subst hz
      rw [update_self, update_self,
        h.unlink_ends hlr (h.setCount_fields hx hx v).1 (h.setCount_fields hx hx v).2.1]
      refine (hlr ▸ h.lists z').unlink (fun y hy => ?_) (fun y hy => ?_)
      · exact (hf (h.mem_rest hlr hy).1 (h.mem_rest hlr hy).2).2.1
      · exact (hf (h.mem_rest hlr hy).1 (h.mem_rest hlr hy).2).2.2
    · -- no node of another list is a neighbour of `x`
      rw [update_of_ne hz, update_of_ne hz]
      refine (h.lists z').congr (fun y hy => ?_) (fun y hy => ?_)
      · rw [(hf hy (hne z' hz y hy)).2.1, if_neg (h.ne_neighbour hlr hz hy).2]
      · rw [(hf hy (hne z' hz y hy)).2.2, if_neg (h.ne_neighbour hlr hz hy).1]
  · exact h.apart_drop hlr (fun z' y hy hyx => (hf hy hyx).1) hb
  · obtain ⟨hyz, hyx⟩ := hmem z' y hy
    rw [Room, (hf hyz hyx).1]
    exact h.nodes z' y hyz
  · obtain ⟨hyz, hyx⟩ := hmem z' y hy
    exact ⟨hyz, (hf hyz hyx).1⟩

/-- The words of a header in a taken span are apart from those of every node. -/
theorem far_taken (h : Inv L m fl ns taken) {len : ℕ} (hb : ⟨x, len⟩ ∈ taken) (hlen : 24 ≤ len)
    (hy : y ∈ ns z) : Far x y :=
  far_of_apart (h.taken_apart hb hy) hlen (le_trans L.words (h.nodes z y hy).2.1)

/-- A taken span whose header has a count that fits it and a null `next` becomes
a region. -/
theorem append (h : Inv L m fl ns (⟨x, count m x * L.unit⟩ :: taken)) (hroom : Room L m x)
    (hnext : next m x = 0) :
    Inv L (append m (fl z) x).1 (update fl z (append m (fl z) x).2)
        (update ns z (ns z ++ [x])) taken ∧
      ∀ z', ∀ y ∈ update ns z (ns z ++ [x]) z',
        (y ∈ ns z' ∨ y = x) ∧ count (append m (fl z) x).1 y = count m y := by
  have hx64 : x < 2 ^ 64 := lt_of_le_of_lt (Nat.le_add_right _ _) hroom.2.2
  have hfar : ∀ {z' y}, y ∈ ns z' → Far x y := fun hy =>
    h.far_taken mem_cons_self (le_trans L.words hroom.2.1) hy
  have hold := fun {z'} {y} (hy : y ∈ ns z') => append_old (m := m) (l := fl z) (hfar hy)
    (fun h0 => h.eq_or_far (h.tail_mem h0) hy) (h.ne_zero hy) hx64
  obtain ⟨hcn, hnn, hvn⟩ := append_new (m := m) (l := fl z) (x := x)
    (fun h0 => (hfar (h.tail_mem h0)).symm) h.tail_lt
  have hxnot : ∀ z', x ∉ ns z' := fun z' hm => (hfar hm).ne rfl
  have hmem : ∀ z', ∀ y ∈ update ns z (ns z ++ [x]) z', y ∈ ns z' ∨ y = x := by
    intro z' y hy
    by_cases hz : z' = z
    · subst hz
      rw [update_self] at hy
      simpa using hy
    · rw [update_of_ne hz] at hy
      exact Or.inl hy
  have hcount : ∀ z', ∀ y ∈ update ns z (ns z ++ [x]) z',
      count (FreeList.append m (fl z) x).1 y = count m y := by
    intro z' y hy
    obtain hy | rfl := hmem z' y hy
    · exact (hold hy).1
    · exact hcn
  refine ⟨⟨fun z' => ?_, ?_, fun z' y hy => ?_⟩,
    fun z' y hy => ⟨hmem z' y hy, hcount z' y hy⟩⟩
  · by_cases hz : z' = z
    · subst hz
      rw [update_self, update_self]
      exact (h.lists z').append (hxnot z') hroom.1 (fun y hy => (hold hy).2.1)
        (fun y hy => (hold hy).2.2) (hnn.trans hnext) hvn
    · rw [update_of_ne hz, update_of_ne hz]
      refine (h.lists z').congr (fun y hy => ?_) (fun y hy => (hold hy).2.2)
      have hyt : y ≠ (fl z).tail := by
        rintro rfl
        exact h.not_mem_of_ne (h.tail_mem (h.ne_zero hy)) hz hy
      rw [(hold hy).2.1, if_neg hyt]
  · have hmap : (ns z).map (region L (FreeList.append m (fl z) x).1) = (ns z).map (region L m) :=
      map_congr_left fun y hy => by rw [region, region, (hold hy).1]
    have hothers : others L (FreeList.append m (fl z) x).1 (update ns z (ns z ++ [x])) z =
        others L m ns z :=
      others_congr (fun z' hz' => update_of_ne hz' _ _) fun z' _ y hy => (hold hy).1
    refine Span.pairwise_perm ?_ (h.apart_front z)
    refine List.Perm.trans ?_ ((regions_perm _ _ _ z).append_right _).symm
    rw [update_self, map_append, hmap, hothers, map_cons, map_nil, region,
      hcn, append_assoc, append_assoc]
    exact List.Perm.append_left _ perm_middle
  · rw [Room, hcount z' y hy]
    obtain hy | rfl := hmem z' y hy
    · exact h.nodes z' y hy
    · exact hroom

/-- A list of one node. -/
theorem single (hroom : Room L m x) (hnext : next m x = 0) (hprev : prev m x = 0)
    (hap : (region L m x :: taken).Pairwise Span.Apart) :
    Inv L m (fun _ : Unit => ⟨x, x⟩) (fun _ => [x]) taken where
  lists := fun _ => ⟨rfl, rfl, ⟨hprev, hnext, trivial⟩, nodup_singleton x, by
    simpa using hroom.1.symm⟩
  apart := by simpa [regions] using hap
  nodes := by
    intro _ y hy
    rw [mem_singleton.mp hy]
    exact hroom

end Inv

end Lists

end FreeList
