/-
Half-open address ranges and the two moves every allocator makes with them.

A `Span` is a range `[base, base + len)`.  `Apart` is the decidable form of
"no common address", and the bookkeeping of an allocator is a list of spans
that are pairwise apart:

* `pairwise_split` — carve one span into two parts that are apart,
* `pairwise_shrink` — give up a part of one span,

both stated for a span at any position of the list, so that a proof about an
allocator never has to redo the case analysis over pairs.
-/
import Mathlib

/-- The addresses `[base, base + len)`. -/
structure Span where
  base : ℕ
  len : ℕ
  deriving DecidableEq, Repr

namespace Span

/-- One past the last address. -/
def stop (s : Span) : ℕ := s.base + s.len

/-- `x` lies in the span. -/
def Has (s : Span) (x : ℕ) : Prop := s.base ≤ x ∧ x < s.stop

/-- The spans have no address in common. -/
def Apart (s t : Span) : Prop := s.stop ≤ t.base ∨ t.stop ≤ s.base

/-- Every address of `s` is one of `t`. -/
def Within (s t : Span) : Prop := t.base ≤ s.base ∧ s.stop ≤ t.stop

instance (s : Span) (x : ℕ) : Decidable (s.Has x) := inferInstanceAs (Decidable (_ ∧ _))

instance : DecidableRel Apart := fun _ _ => inferInstanceAs (Decidable (_ ∨ _))

instance : DecidableRel Within := fun _ _ => inferInstanceAs (Decidable (_ ∧ _))

@[simp] theorem stop_mk (b n : ℕ) : (Span.mk b n).stop = b + n := rfl

theorem has_add (b : ℕ) {n i : ℕ} (hi : i < n) : (Span.mk b n).Has (b + i) :=
  ⟨Nat.le_add_right _ _, Nat.add_lt_add_left hi _⟩

theorem has_last (b : ℕ) {n : ℕ} (hn : n ≠ 0) : (Span.mk b n).Has (b + (n - 1)) :=
  has_add b (by omega)

theorem Apart.symm {s t : Span} (h : s.Apart t) : t.Apart s := Or.symm h

theorem Within.refl (s : Span) : s.Within s := ⟨le_rfl, le_rfl⟩

theorem Apart.mono {s t s' t' : Span} (h : s.Apart t) (hs : s'.Within s) (ht : t'.Within t) :
    s'.Apart t' := by
  rcases h with h | h
  · exact Or.inl (le_trans hs.2 (le_trans h ht.1))
  · exact Or.inr (le_trans ht.2 (le_trans h hs.1))

theorem Apart.not_has {s t : Span} (h : s.Apart t) {x : ℕ} (hs : s.Has x) : ¬ t.Has x := by
  rintro ⟨h3, h4⟩
  obtain ⟨h1, h2⟩ := hs
  rcases h with h | h <;> omega

/-! ### Lists of spans that are pairwise apart -/

/-- Reordering a list of spans keeps them pairwise apart. -/
theorem pairwise_perm {l l' : List Span} (hp : l.Perm l') (h : l.Pairwise Apart) :
    l'.Pairwise Apart :=
  (hp.pairwise_iff fun h => Apart.symm h).mp h

/-- The span at the head of the list is replaced by a part of it. -/
theorem pairwise_shrink {s s' : Span} {l : List Span} (h : (s :: l).Pairwise Apart)
    (hs : s'.Within s) : (s' :: l).Pairwise Apart := by
  rw [List.pairwise_cons] at h ⊢
  exact ⟨fun t ht => (h.1 t ht).mono hs (Within.refl t), h.2⟩

/-- The span at the head of the list is replaced by two parts of it. -/
theorem pairwise_split {s s₁ s₂ : Span} {l : List Span} (h : (s :: l).Pairwise Apart)
    (h₁ : s₁.Within s) (h₂ : s₂.Within s) (ha : s₁.Apart s₂) :
    (s₁ :: s₂ :: l).Pairwise Apart := by
  have h2 : (s₂ :: l).Pairwise Apart := pairwise_shrink h h₂
  have h1 : (s₁ :: l).Pairwise Apart := pairwise_shrink h h₁
  rw [List.pairwise_cons] at h1 ⊢
  refine ⟨fun t ht => ?_, h2⟩
  rcases List.mem_cons.mp ht with rfl | ht
  · exact ha
  · exact h1.1 t ht

/-- Two different members of the list are apart. -/
theorem apart_of_mem {α : Type*} {f : α → Span} {l : List α} (h : (l.map f).Pairwise Apart)
    {a b : α} (ha : a ∈ l) (hb : b ∈ l) (hne : a ≠ b) : (f a).Apart (f b) := by
  rw [List.pairwise_map] at h
  have : Std.Symm fun a b => (f a).Apart (f b) := ⟨fun _ _ hab => Apart.symm hab⟩
  exact h.forall ha hb hne

/-- No address is in two of the spans. -/
theorem countP_has_le_one {l : List Span} (h : l.Pairwise Apart) (x : ℕ) :
    l.countP (fun s => s.Has x) ≤ 1 := by
  induction l with
  | nil => exact Nat.zero_le 1
  | cons s l ih =>
    obtain ⟨hs, hl⟩ := List.pairwise_cons.mp h
    rw [List.countP_cons]
    split
    · next hx =>
      have hzero : l.countP (fun t => t.Has x) = 0 := List.countP_eq_zero.mpr fun t ht htx =>
        (hs t ht).not_has (of_decide_eq_true hx) (of_decide_eq_true htx)
      rw [hzero]
    · exact ih hl

/-- As many addresses as there are in the spans of a list lie in one of them. -/
theorem exists_finset {l : List Span} (h : l.Pairwise Apart) :
    ∃ S : Finset ℕ, S.card = (l.map len).sum ∧ ∀ x ∈ S, ∃ s ∈ l, s.Has x := by
  induction l with
  | nil => exact ⟨∅, rfl, by simp⟩
  | cons s l ih =>
    obtain ⟨hs, hl⟩ := List.pairwise_cons.mp h
    obtain ⟨S, hcard, hS⟩ := ih hl
    have hdisj : Disjoint (Finset.Ico s.base s.stop) S := by
      rw [Finset.disjoint_left]
      intro x hx hxS
      obtain ⟨t, ht, hxt⟩ := hS x hxS
      exact (hs t ht).not_has (Finset.mem_Ico.mp hx) hxt
    refine ⟨Finset.Ico s.base s.stop ∪ S, ?_, fun x hx => ?_⟩
    · rw [Finset.card_union_of_disjoint hdisj, Nat.card_Ico, hcard, List.map_cons, List.sum_cons,
        stop, Nat.add_sub_cancel_left]
    · rcases Finset.mem_union.mp hx with hx | hx
      · exact ⟨s, List.mem_cons_self, Finset.mem_Ico.mp hx⟩
      · obtain ⟨t, ht, hxt⟩ := hS x hx
        exact ⟨t, List.mem_cons_of_mem _ ht, hxt⟩

/-- Spans that are apart and end below `N` have at most `N` addresses. -/
theorem sum_len_le {l : List Span} {N : ℕ} (h : l.Pairwise Apart) (hN : ∀ s ∈ l, s.stop ≤ N) :
    (l.map len).sum ≤ N := by
  obtain ⟨S, hcard, hS⟩ := exists_finset h
  have hsub : S ⊆ Finset.range N := by
    intro x hx
    obtain ⟨s, hs, hxs⟩ := hS x hx
    exact Finset.mem_range.mpr (lt_of_lt_of_le hxs.2 (hN s hs))
  rw [← hcard, ← Finset.card_range N]
  exact Finset.card_le_card hsub

end Span
