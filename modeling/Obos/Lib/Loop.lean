/-
Loops that go on until a round returns.

`round s` is one round of a loop body: it goes on from a new state or it
returns.  `run round n s` runs at most `n` rounds, so it can be evaluated;
`Returns round s r` says that the loop returns `r`, whatever the bound on the
rounds once it is large enough.

* `Returns.of_done`, `Returns.of_again` — follow a loop round by round,
* `run_invariant` — what every round keeps holds when the loop returns,
* `exists_returns` — a measure that falls in every round makes the loop return.

`forUntil body as s` is a loop over a list that the body can leave.

* `forUntil_invariant` — what every round keeps holds behind the loop.
-/
import Mathlib

namespace Loop

variable {σ ρ : Type*}

/-- The outcome of one round. -/
inductive Round (σ ρ : Type*) where
  | again (s : σ)
  | done (r : ρ)

/-- At most `n` rounds from `s`; `none` when the loop did not return in them. -/
def run (round : σ → Round σ ρ) : ℕ → σ → Option ρ
  | 0, _ => none
  | n + 1, s =>
    match round s with
    | .again s' => run round n s'
    | .done r => some r

/-- The loop returns `r` from `s`. -/
def Returns (round : σ → Round σ ρ) (s : σ) (r : ρ) : Prop :=
  ∃ N, ∀ n, N ≤ n → run round n s = some r

variable {round : σ → Round σ ρ} {s s' : σ} {r r' : ρ}

theorem run_succ_again (h : round s = .again s') (n : ℕ) : run round (n + 1) s = run round n s' := by
  rw [run, h]

theorem run_succ_done (h : round s = .done r) (n : ℕ) : run round (n + 1) s = some r := by
  rw [run, h]

theorem Returns.of_done (h : round s = .done r) : Returns round s r := by
  refine ⟨1, fun n hn => ?_⟩
  obtain ⟨m, rfl⟩ : ∃ m, n = m + 1 := ⟨n - 1, by omega⟩
  exact run_succ_done h m

theorem Returns.of_again (h : round s = .again s') (hr : Returns round s' r) :
    Returns round s r := by
  obtain ⟨N, hN⟩ := hr
  refine ⟨N + 1, fun n hn => ?_⟩
  obtain ⟨m, rfl⟩ : ∃ m, n = m + 1 := ⟨n - 1, by omega⟩
  rw [run_succ_again h]
  exact hN m (by omega)

/-- What every round keeps holds when the loop returns. -/
theorem run_invariant {I : σ → Prop} {P : ρ → Prop} (hagain : ∀ s s', I s → round s = .again s' → I s')
    (hdone : ∀ s r, I s → round s = .done r → P r) {n : ℕ} (hs : I s) (h : run round n s = some r) :
    P r := by
  induction n generalizing s with
  | zero => exact absurd h (by simp [run])
  | succ n ih =>
    rw [run] at h
    split at h
    · next s' hs' => exact ih (hagain s s' hs hs') h
    · next r' hr' =>
      obtain rfl := Option.some.inj h
      exact hdone s r' hs hr'

/-- A loop whose rounds go down in a well-founded order returns. -/
theorem exists_returns {β : Type*} {lt : β → β → Prop} (hwf : WellFounded lt) (f : σ → β)
    (h : ∀ s s', round s = .again s' → lt (f s') (f s)) (s : σ) : ∃ r, Returns round s r := by
  have hall : ∀ b s, f s = b → ∃ r, Returns round s r := by
    intro b
    induction b using hwf.induction with
    | _ b ih =>
      intro s hs
      cases hround : round s with
      | done r => exact ⟨r, Returns.of_done hround⟩
      | again s' =>
        obtain ⟨r, hr⟩ := ih (f s') (hs ▸ h s s' hround) s' rfl
        exact ⟨r, Returns.of_again hround hr⟩
  exact hall (f s) s rfl

/-! ### Loops over a list -/

section list

variable {α : Type*}

/-- The flag of a round, and of the loop, says that the loop is left. -/
def forUntil (body : σ → α → σ × Bool) : List α → σ → σ × Bool
  | [], s => (s, false)
  | a :: as, s =>
    match body s a with
    | (s', true) => (s', true)
    | (s', false) => forUntil body as s'

variable {body : σ → α → σ × Bool} {as : List α}

theorem forUntil_invariant {I : σ → Prop} (h : ∀ s, ∀ a ∈ as, I s → I (body s a).1) (hs : I s) :
    I (forUntil body as s).1 := by
  induction as generalizing s with
  | nil => exact hs
  | cons a as ih =>
    have hstep := h s a List.mem_cons_self hs
    rw [forUntil]
    split <;> rename_i s' heq
    · rwa [heq] at hstep
    · rw [heq] at hstep
      exact ih (fun s b hb => h s b (List.mem_cons_of_mem _ hb)) hstep

end list

end Loop
