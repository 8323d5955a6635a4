/-
Runs of a system given by a partial step function.

`as.foldlM step s` runs the labels `as` from `s`; it is `none` when some step
has no result (it hangs or faults).  `Meets ok step s as` says that every step
of that run is taken in a state in which `ok` allows it.  `invariant` is the
induction that every safety result uses: an invariant that each allowed step
keeps, and that makes each allowed step produce a result, holds after every
allowed run.  `preserves` is the same for steps that may stop the machine, `simulate`
carries a run over to another system, and `refines` compares the outputs of the steps with those
of a specification.

`follows_iff` says exactly when a run follows a specification.

`sum_of_eq_off` is for systems of several parties, one of which moves at a time: a
quantity summed over the parties changes by what the moving party contributes.

`Update` has what is used of a function changed at one point: `keep` for a projection that the
new value leaves as it was, `exists_iff` to look at that point and then at the others.
-/
import Mathlib

namespace Run

variable {σ α : Type*}

/-- Every step of the run of `as` from `s` is allowed by `ok`. -/
def Meets (ok : σ → α → Prop) (step : σ → α → Option σ) : σ → List α → Prop
  | _, [] => True
  | s, a :: as => ok s a ∧ ∀ s', step s a = some s' → Meets ok step s' as

/-- Running the steps decides whether they are all allowed. -/
instance decidableMeets {ok : σ → α → Prop} [∀ s a, Decidable (ok s a)]
    (step : σ → α → Option σ) : ∀ s as, Decidable (Meets ok step s as)
  | _, [] => isTrue trivial
  | s, a :: as =>
    match hs : step s a with
    | none =>
      decidable_of_iff (ok s a)
        ⟨fun h => ⟨h, fun s' hs' => by simp [hs] at hs'⟩, fun h => h.1⟩
    | some s' =>
      have : Decidable (Meets ok step s' as) := decidableMeets step s' as
      decidable_of_iff (ok s a ∧ Meets ok step s' as)
        ⟨fun h => ⟨h.1, fun t ht => Option.some.inj (hs.symm.trans ht) ▸ h.2⟩,
          fun h => ⟨h.1, h.2 s' hs⟩⟩

/-- A condition on the labels alone. -/
theorem Meets.of_forall {ok : α → Prop} {step : σ → α → Option σ} {s : σ} {as : List α}
    (h : ∀ a ∈ as, ok a) : Meets (fun _ a => ok a) step s as := by
  induction as generalizing s with
  | nil => trivial
  | cons a as ih =>
    exact ⟨h a List.mem_cons_self, fun _ _ => ih fun b hb => h b (List.mem_cons_of_mem a hb)⟩

/-- An allowed run is an allowed run up to any point, and from there on. -/
theorem Meets.append {ok : σ → α → Prop} {step : σ → α → Option σ} {s : σ} {as bs : List α}
    (hm : Meets ok step s (as ++ bs)) :
    Meets ok step s as ∧ ∀ s', as.foldlM step s = some s' → Meets ok step s' bs := by
  induction as generalizing s with
  | nil =>
    refine ⟨trivial, fun s' hs' => ?_⟩
    rw [List.foldlM_nil, Option.pure_def, Option.some.injEq] at hs'
    exact hs' ▸ hm
  | cons a as ih =>
    refine ⟨⟨hm.1, fun s' hs' => (ih (hm.2 s' hs')).1⟩, fun t ht => ?_⟩
    rw [List.foldlM_cons] at ht
    obtain ⟨s', hs', ht⟩ := Option.bind_eq_some_iff.mp ht
    exact (ih (hm.2 s' hs')).2 t ht

/-- Safety of allowed runs: the run has a result and the invariant holds of it. -/
theorem invariant {ok : σ → α → Prop} {step : σ → α → Option σ} {I : σ → Prop}
    (hstep : ∀ s a, I s → ok s a → ∃ s', step s a = some s' ∧ I s') {s : σ} {as : List α}
    (hs : I s) (hm : Meets ok step s as) : ∃ s', as.foldlM step s = some s' ∧ I s' := by
  induction as generalizing s with
  | nil => exact ⟨s, rfl, hs⟩
  | cons a as ih =>
    obtain ⟨s', hs', hI⟩ := hstep s a hs hm.1
    obtain ⟨t, ht, hIt⟩ := ih hI (hm.2 s' hs')
    refine ⟨t, ?_, hIt⟩
    rw [List.foldlM_cons, hs']
    exact ht

/-- The same for steps that may have no result: the invariant holds of whatever
state an allowed run reaches. -/
theorem preserves {ok : σ → α → Prop} {step : σ → α → Option σ} {I : σ → Prop}
    (hstep : ∀ s a s', I s → ok s a → step s a = some s' → I s') {s s' : σ} {as : List α}
    (hs : I s) (hm : Meets ok step s as) (hrun : as.foldlM step s = some s') : I s' := by
  induction as generalizing s with
  | nil =>
    rw [List.foldlM_nil, Option.pure_def, Option.some.injEq] at hrun
    exact hrun ▸ hs
  | cons a as ih =>
    rw [List.foldlM_cons] at hrun
    obtain ⟨t, ht, hrun⟩ := Option.bind_eq_some_iff.mp hrun
    exact ih (hstep s a t hs hm.1 ht) (hm.2 t ht) hrun

/-- A relation that allowed steps keep carries an allowed run over to the other system. -/
theorem simulate {τ : Type*} {ok : σ → α → Prop} {ok' : τ → α → Prop} {step : σ → α → Option σ}
    {step' : τ → α → Option τ} {R : σ → τ → Prop} (hok : ∀ s t a, R s t → ok s a → ok' t a)
    (hstep : ∀ s t a s', R s t → ok s a → step s a = some s' →
      ∃ t', step' t a = some t' ∧ R s' t')
    {s s' : σ} {t : τ} {as : List α} (hR : R s t) (hm : Meets ok step s as)
    (hrun : as.foldlM step s = some s') :
    ∃ t', as.foldlM step' t = some t' ∧ R s' t' ∧ Meets ok' step' t as := by
  induction as generalizing s t with
  | nil =>
    rw [List.foldlM_nil, Option.pure_def, Option.some.injEq] at hrun
    exact ⟨t, rfl, hrun ▸ hR, trivial⟩
  | cons a as ih =>
    rw [List.foldlM_cons] at hrun
    obtain ⟨s1, hs1, hrun⟩ := Option.bind_eq_some_iff.mp hrun
    obtain ⟨t1, ht1, hR1⟩ := hstep s t a s1 hR hm.1 hs1
    obtain ⟨t', ht', hR', hm'⟩ := ih hR1 (hm.2 s1 hs1) hrun
    refine ⟨t', ?_, hR', hok s t a hR hm.1, fun t2 ht2 => ?_⟩
    · rw [List.foldlM_cons, ht1]
      exact ht'
    · exact Option.some.inj (ht1.symm.trans ht2) ▸ hm'

/-- Every state that the run of `as` passes is related to the state that the specification is
in by then. -/
def Follows {τ : Type*} (step : σ → α → Option σ) (spec : τ → α → τ) (R : σ → τ → Prop)
    (s : σ) (t : τ) (as : List α) : Prop :=
  ∀ n, ∃ s', (as.take n).foldlM step s = some s' ∧ R s' ((as.take n).foldl spec t)

/-- A condition that is exact for each step is exact for runs. -/
theorem follows_iff {τ : Type*} {ok : σ → α → Prop} {step : σ → α → Option σ}
    {spec : τ → α → τ} {R : σ → τ → Prop}
    (hstep : ∀ s t a, R s t → ((∃ s', step s a = some s' ∧ R s' (spec t a)) ↔ ok s a))
    {s : σ} {t : τ} {as : List α} (hR : R s t) :
    Follows step spec R s t as ↔ Meets ok step s as := by
  induction as generalizing s t with
  | nil =>
    refine iff_of_true (fun n => ⟨s, ?_, ?_⟩) trivial
    · rw [List.take_nil]
      rfl
    · rwa [List.take_nil]
  | cons a as ih =>
    constructor
    · intro h
      have hone : ∃ s', step s a = some s' ∧ R s' (spec t a) := by
        obtain ⟨s', hs', hR'⟩ := h 1
        refine ⟨s', ?_, hR'⟩
        rwa [List.take_succ_cons, List.take_zero, List.foldlM_cons, Option.bind_eq_bind,
          show (fun s : σ => List.foldlM step s []) = some from rfl, Option.bind_fun_some] at hs'
      refine ⟨(hstep s t a hR).mp hone, fun s' hs' => ?_⟩
      obtain ⟨s₁, hs₁, hR₁⟩ := hone
      obtain rfl := Option.some.inj (hs'.symm.trans hs₁)
      refine (ih hR₁).mp fun n => ?_
      obtain ⟨u, hu, hRu⟩ := h (n + 1)
      rw [List.take_succ_cons, List.foldlM_cons, hs'] at hu
      exact ⟨u, hu, hRu⟩
    · rintro ⟨hok, hrest⟩ n
      obtain ⟨s', hs', hR'⟩ := (hstep s t a hR).mpr hok
      cases n with
      | zero => exact ⟨s, rfl, hR⟩
      | succ n =>
        obtain ⟨u, hu, hRu⟩ := (ih hR').mpr (hrest s' hs') n
        refine ⟨u, ?_, hRu⟩
        rw [List.take_succ_cons, List.foldlM_cons, hs']
        exact hu

/-! ### Runs with outputs -/

section outputs

variable {τ ω : Type*}

/-- Run steps that have outputs, and collect those. -/
def outputs (step : σ → α → Option (σ × ω)) : σ → List α → Option (σ × List ω)
  | s, [] => some (s, [])
  | s, a :: as =>
    (step s a).bind fun r => (outputs step r.1 as).map fun t => (t.1, r.2 :: t.2)

/-- The same for total steps, those of a specification. -/
def answers (spec : τ → α → τ × ω) : τ → List α → τ × List ω
  | t, [] => (t, [])
  | t, a :: as =>
    let r := answers spec (spec t a).1 as
    (r.1, (spec t a).2 :: r.2)

/-- Refinement of allowed runs: if each allowed step answers as the specification does, so
does the run. -/
theorem refines {ok : σ → α → Prop} {step : σ → α → Option (σ × ω)} {spec : τ → α → τ × ω}
    {R : σ → τ → Prop}
    (hstep : ∀ s t a, R s t → ok s a → ∃ s', step s a = some (s', (spec t a).2) ∧ R s' (spec t a).1)
    {s : σ} {t : τ} {as : List α} (hR : R s t)
    (hm : Meets ok (fun s a => (step s a).map Prod.fst) s as) :
    ∃ s', outputs step s as = some (s', (answers spec t as).2) ∧ R s' (answers spec t as).1 := by
  induction as generalizing s t with
  | nil => exact ⟨s, rfl, hR⟩
  | cons a as ih =>
    obtain ⟨s', hs', hR'⟩ := hstep s t a hR hm.1
    obtain ⟨u, hu, hRu⟩ := ih hR' (hm.2 s' (by simp only [hs', Option.map_some]))
    refine ⟨u, ?_, hRu⟩
    rw [outputs, hs', Option.bind_some, hu]
    rfl

end outputs

/-- Two sums over the parties that differ at one of them. -/
theorem sum_of_eq_off {T : Type*} [Fintype T] [DecidableEq T] {f g : T → ℕ} (t : T)
    (h : ∀ u, u ≠ t → f u = g u) : ∑ u, f u + g t = ∑ u, g u + f t := by
  have hrest : ∑ u ∈ Finset.univ.erase t, f u = ∑ u ∈ Finset.univ.erase t, g u :=
    Finset.sum_congr rfl fun u hu => h u (Finset.ne_of_mem_erase hu)
  rw [← Finset.add_sum_erase _ f (Finset.mem_univ t), ← Finset.add_sum_erase _ g (Finset.mem_univ t),
    hrest]
  omega

end Run

namespace Update

open Function

variable {α β γ : Type*} [DecidableEq α]

theorem keep (f : β → γ) {g : α → β} {a : α} {x : β} (h : f x = f (g a)) (b : α) :
    f (update g a x b) = f (g b) := by
  rw [apply_update (fun _ => f), h, update_eq_self]

theorem exists_iff (f : α → β) (p : α → β → Prop) (a : α) :
    (∃ x, p x (f x)) ↔ p a (f a) ∨ ∃ x, x ≠ a ∧ p x (f x) := by
  rw [← exists_update_iff f p, update_eq_self]

end Update
