/-
Trees of tables in memory.

A table is named by a value of `F` and has an entry of type `E` for each index
of type `ι`.  An entry at depth `d` may point to a table of the next depth,
`sub d e`; the entry `0` never does.  The tables are found from a root along
paths, which are lists of indices with the last step in front.

`entry` is the tree as its readers see it: the entries along every path, and `0`
where there is no table.  When no table is reached along two paths (`Owned`),
every write that the maintenance of such a tree makes is one update of that view:

* `Owned.set` — an entry that points where the old one did,
* `Owned.relink` — an entry by which an empty table is cut off or hooked up,
* `Owned.frame` — memory outside the tree.
-/
import Mathlib

namespace Radix

variable {F ι E : Type*} {sub : ℕ → E → Option F} {mem mem' : F → ι → E} {root f g : F}
  {p q : List ι} {i j : ι} {e : E}

/-! ### Paths -/

/-- The table that a path leads to. -/
def reach (sub : ℕ → E → Option F) (mem : F → ι → E) (root : F) : List ι → Option F
  | [] => some root
  | i :: p => (reach sub mem root p).bind fun f => sub p.length (mem f i)

/-- No table is reached along two paths. -/
def Owned (sub : ℕ → E → Option F) (mem : F → ι → E) (root : F) : Prop :=
  ∀ p q f, reach sub mem root p = some f → reach sub mem root q = some f → p = q

theorem reach_cons_of (h : reach sub mem root p = some f) :
    reach sub mem root (i :: p) = sub p.length (mem f i) := by
  rw [reach, h]
  rfl

/-- The same tables are reached when every entry points where it did. -/
theorem reach_of_agree (h : ∀ p f i, reach sub mem root p = some f →
    sub p.length (mem' f i) = sub p.length (mem f i))
    (q : List ι) : reach sub mem' root q = reach sub mem root q := by
  induction q with
  | nil => rfl
  | cons j q ih =>
    rw [reach, reach, ih]
    cases hq : reach sub mem root q with
    | none => rfl
    | some g => exact h q g j hq

theorem Owned.of_reach (h : Owned sub mem root)
    (hr : ∀ q, reach sub mem' root q = reach sub mem root q) : Owned sub mem' root := by
  intro p q f hp hq
  rw [hr] at hp hq
  exact h p q f hp hq

/-! ### The entries along a path -/

variable [Zero E]

/-- The entries of the table that a path leads to. -/
def entry (sub : ℕ → E → Option F) (mem : F → ι → E) (root : F) (p : List ι) (i : ι) : E :=
  match reach sub mem root p with
  | some f => mem f i
  | none => 0

theorem entry_eq (h : reach sub mem root p = some f) : entry sub mem root p i = mem f i := by
  rw [entry, h]

theorem entry_of_none (h : reach sub mem root p = none) : entry sub mem root p i = 0 := by
  rw [entry, h]

theorem entry_of_empty {o : Option F} (h : reach sub mem root p = o)
    (h0 : ∀ f, o = some f → ∀ i, mem f i = 0) : entry sub mem root p i = 0 := by
  cases o with
  | none => exact entry_of_none h
  | some f => exact (entry_eq h).trans (h0 f rfl i)

/-- A path is a path to a table and an entry that points on. -/
theorem reach_cons (h0 : ∀ d, sub d 0 = none) :
    reach sub mem root (i :: p) = sub p.length (entry sub mem root p i) := by
  rw [reach, entry]
  cases reach sub mem root p with
  | none =>
    rw [h0]
    rfl
  | some f => rfl

/-- Memory outside the tree. -/
theorem Owned.frame (h : Owned sub mem root)
    (hm : ∀ p f i, reach sub mem root p = some f → mem' f i = mem f i) :
    Owned sub mem' root ∧ (∀ q, reach sub mem' root q = reach sub mem root q) ∧
    ∀ q j, entry sub mem' root q j = entry sub mem root q j := by
  have hr := reach_of_agree fun p f i hp => congrArg (sub p.length) (hm p f i hp)
  refine ⟨h.of_reach hr, hr, fun q j => ?_⟩
  cases hq : reach sub mem root q with
  | none => rw [entry_of_none hq, entry_of_none ((hr q).trans hq)]
  | some g => rw [entry_eq hq, entry_eq ((hr q).trans hq), hm q g j hq]

/-! ### Writing -/

/-- Every entry of a table is cleared. -/
def clear [DecidableEq F] (mem : F → ι → E) (f : F) : F → ι → E := fun g j =>
  if g = f then 0 else mem g j

/-- One entry is written. -/
def write [DecidableEq F] [DecidableEq ι] (mem : F → ι → E) (f : F) (i : ι) (e : E) : F → ι → E :=
  fun g j => if g = f ∧ j = i then e else mem g j

variable [DecidableEq F] [DecidableEq ι]

namespace Owned

omit [Zero E] in
/-- The written entry is met on one path only. -/
theorem write_eq (h : Owned sub mem root) (hp : reach sub mem root p = some f)
    (hq : reach sub mem root q = some g) :
    write mem f i e g j = if q = p ∧ j = i then e else mem g j := by
  by_cases hpj : q = p ∧ j = i
  · obtain ⟨rfl, rfl⟩ := hpj
    rw [if_pos ⟨rfl, rfl⟩, Option.some.inj (hq.symm.trans hp)]
    exact if_pos ⟨rfl, rfl⟩
  · rw [if_neg hpj]
    refine if_neg fun hgj => hpj ⟨?_, hgj.2⟩
    exact h q p g hq (hgj.1 ▸ hp)

/-- The entries of a table that is reached as before. -/
theorem entry_write (h : Owned sub mem root) (hp : reach sub mem root p = some f)
    (hr : reach sub (write mem f i e) root q = reach sub mem root q) (j : ι) :
    entry sub (write mem f i e) root q j = if q = p ∧ j = i then e else entry sub mem root q j := by
  cases hq : reach sub mem root q with
  | none =>
    rw [entry_of_none hq, entry_of_none (hr.trans hq), if_neg]
    rintro ⟨rfl, -⟩
    rw [hq] at hp
    cases hp
  | some g => rw [entry_eq hq, entry_eq (hr.trans hq), h.write_eq hp hq]

/-- An entry that points where the old one did. -/
theorem set (h : Owned sub mem root) (hp : reach sub mem root p = some f)
    (he : sub p.length e = sub p.length (mem f i)) :
    Owned sub (write mem f i e) root ∧
    (∀ q, reach sub (write mem f i e) root q = reach sub mem root q) ∧
    ∀ q j, entry sub (write mem f i e) root q j =
      if q = p ∧ j = i then e else entry sub mem root q j := by
  have hr : ∀ q, reach sub (write mem f i e) root q = reach sub mem root q := by
    refine reach_of_agree fun q g j hq => ?_
    rw [h.write_eq hp hq]
    split_ifs with hpj
    · obtain ⟨rfl, rfl⟩ := hpj
      rw [he, Option.some.inj (hq.symm.trans hp)]
    · rfl
  exact ⟨h.of_reach hr, hr, fun q => h.entry_write hp (hr q)⟩

/-- The table that the old entry points to is empty, and the one that the new
entry points to is empty and was outside the tree. -/
theorem relink (h : Owned sub mem root) (h0 : ∀ d, sub d 0 = none)
    (hp : reach sub mem root p = some f)
    (hold : ∀ g, sub p.length (mem f i) = some g → ∀ j, mem g j = 0)
    (hnew : ∀ g, sub p.length e = some g →
      (∀ q, reach sub mem root q ≠ some g) ∧ ∀ j, mem g j = 0) :
    Owned sub (write mem f i e) root ∧
    (∀ q, reach sub (write mem f i e) root q =
      if q = i :: p then sub p.length e else reach sub mem root q) ∧
    ∀ q j, entry sub (write mem f i e) root q j =
      if q = p ∧ j = i then e else entry sub mem root q j := by
  have hp' : p ≠ i :: p := fun he => by simpa using congrArg List.length he
  have hnew0 : ∀ g, sub p.length e = some g → ∀ j, write mem f i e g j = 0 := by
    intro g hg j
    have hgf : g ≠ f := fun he => (hnew g hg).1 p (he ▸ hp)
    exact (if_neg fun hgj => hgf hgj.1).trans ((hnew g hg).2 j)
  -- what lies below the changed entry has no tables, before and after
  have hbelow : ∀ j, reach sub mem root (j :: i :: p) = none := by
    intro j
    rw [reach, reach_cons_of hp]
    cases hg : sub p.length (mem f i) with
    | none => rfl
    | some g => exact (congrArg _ (hold g hg j)).trans (h0 _)
  have hr : ∀ q, reach sub (write mem f i e) root q =
      if q = i :: p then sub p.length e else reach sub mem root q := by
    intro q
    induction q with
    | nil => rfl
    | cons j q ih =>
      rw [reach, ih]
      by_cases hq : q = i :: p
      · subst hq
        rw [if_pos rfl, if_neg fun he => hp' (List.cons.inj he).2.symm, hbelow]
        cases hg : sub p.length e with
        | none => rfl
        | some g => exact (congrArg _ (hnew0 g hg j)).trans (h0 _)
      rw [if_neg hq, reach]
      cases hg : reach sub mem root q with
      | none =>
        rw [if_neg]
        · rfl
        · intro he
          rw [(List.cons.inj he).2, hp] at hg
          cases hg
      | some g =>
        show sub q.length (write mem f i e g j) = _
        rw [h.write_eq hp hg]
        by_cases hpj : q = p ∧ j = i
        · obtain ⟨rfl, rfl⟩ := hpj
          rw [if_pos ⟨rfl, rfl⟩, if_pos rfl]
        · rw [if_neg hpj, if_neg fun he => hpj ⟨(List.cons.inj he).2, (List.cons.inj he).1⟩]
          rfl
  refine ⟨?_, hr, fun q j => ?_⟩
  · intro q₁ q₂ g h₁ h₂
    rw [hr] at h₁ h₂
    split_ifs at h₁ h₂ with hq₁ hq₂ hq₂
    · rw [hq₁, hq₂]
    · exact absurd h₂ ((hnew g h₁).1 q₂)
    · exact absurd h₁ ((hnew g h₂).1 q₁)
    · exact h q₁ q₂ g h₁ h₂
  · by_cases hq : q = i :: p
    · subst hq
      rw [if_neg fun he => hp' he.1.symm]
      rw [entry_of_empty ((hr _).trans (if_pos rfl)) hnew0, entry_of_empty (reach_cons_of hp) hold]
    · exact h.entry_write hp ((hr q).trans (if_neg hq)) j

end Owned

end Radix
