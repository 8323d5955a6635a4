/-
Swapping a page out and in is invisible to its owner.

The runs are those of one page: calls of `Mm_SwapOut` and `Mm_SwapIn` on it with
arbitrary answers of the devices, the page tables and the allocator, writes to the
page while it is mapped, and steps of the rest of the system, which may do
anything that leaves the page and its frames or its reservation alone.

* `Held` — the page is mapped and reads what it held when last mapped, or it is
  paged out and that is what its reservation holds,
* `Held.step` — a step keeps it,
* `transparent_run` — in every run, whenever the page is mapped it reads what it
  held when last mapped, and a call that returns an error has changed nothing of
  the page, the mappings and the reservations,
* `swapped_out_twice` — a second `Mm_SwapOut` loses the contents.
-/
import Obos.Vmm.SwapPage

namespace Obos.Vmm

variable {γ : Type}

/-! ### One page -/

/-- The system, and what the page held when it was last mapped. -/
structure PageRun (γ : Type) where
  state : State γ
  last : List γ

inductive PageOp (γ : Type) where
  | swapOut (a : OutAnswers γ)
  | swapIn (a : InAnswers γ)
  /-- A write to the page. -/
  | store (data : List γ)
  /-- A step of the rest of the system. -/
  | other (s : State γ)

/-- The entry that maps the page. -/
def State.entry (s : State γ) (p : ℕ) : Option Pte := s.pte (s.page p).owner (s.page p).addr

/-- What the rest of the system leaves alone. -/
structure Rely (p : ℕ) (s s' : State γ) : Prop where
  page : s'.page p = s.page p
  entry : s'.entry p = s.entry p
  current : s'.current = s.current
  provider : s'.swapProvider = s.swapProvider
  contents : ∀ e, s.entry p = some e →
    s'.read e.phys (s.page p).nPages = s.read e.phys (s.page p).nPages
  saved : ∀ dev, s.swapProvider = some dev → (s.page p).pagedOut = true →
    s'.device dev (s.page p).swapId = s.device dev (s.page p).swapId

variable [Inhabited γ]

def PageRun.step (p : ℕ) (x : PageRun γ) : PageOp γ → Option (PageRun γ)
  | .swapOut a => some ⟨(swapOut x.state p a).1, x.last⟩
  | .swapIn a => (swapIn x.state p a).map fun r => ⟨r.1, x.last⟩
  | .store data => (x.state.entry p).map fun e => ⟨x.state.fill e.phys data, data⟩
  | .other s => some ⟨s, x.last⟩

/-- What a step must meet.  An `Mm_SwapOut` on a page that is paged out must not get
as far as a successful write; when its write fails the reservation must be
released again; and unmapping and freeing the frame must not fail. -/
def PageRun.Allowed (p : ℕ) (x : PageRun γ) : PageOp γ → Prop
  | .swapOut a =>
    ((x.state.page p).pagedOut = true → a.query ≠ .success ∨ a.resv ≠ .success ∨ a.write ≠ .success) ∧
    (a.write ≠ .success → a.free = .success) ∧ a.unmap = .success ∧ a.freePhys = .success
  | .swapIn _ => True
  | .store data => data.length = (x.state.page p).nPages
  | .other s => Rely p x.state s

/-- The page reads `last` if it is mapped, and otherwise `last` is saved. -/
structure Held (p : ℕ) (x : PageRun γ) : Prop where
  current : x.state.current = (x.state.page p).owner
  length : x.last.length = (x.state.page p).nPages
  mapped : (x.state.page p).pagedOut = false →
    ∃ e, x.state.entry p = some e ∧ e.phys ≠ 0 ∧
      x.state.read e.phys (x.state.page p).nPages = x.last
  unmapped : (x.state.page p).pagedOut = true → x.state.entry p = none
  saved : (x.state.page p).pagedOut = true → ∃ dev, x.state.swapProvider = some dev ∧
    x.state.device dev (x.state.page p).swapId = some x.last

section

variable {p : ℕ} {x : PageRun γ}

omit [Inhabited γ] in
theorem Held.getPagePhysicalAddress (h : Held p x) {e : Pte} (he : x.state.entry p = some e) :
    getPagePhysicalAddress x.state (x.state.page p).addr = e.phys := by
  rw [Vmm.getPagePhysicalAddress, h.current, ← State.entry, he]
  rfl

/-- A page that is mapped is saved with what it holds. -/
theorem Held.swappedOut (h : Held p x) {dev : ℕ} {a : OutAnswers γ}
    (hin : (x.state.page p).pagedOut = false) (hok : OutOk x.state p dev a) :
    Held p ⟨swappedOut x.state p dev a.id, x.last⟩ := by
  obtain ⟨e, he, hphys, hread⟩ := h.mapped hin
  have hp := h.getPagePhysicalAddress he
  have hframe := swapOut_touches x.state p a
  rw [swapOut_of_ok hok] at hframe
  have hpage : (Vmm.swappedOut x.state p dev a.id).page p =
      (((x.state.page p).setPresent false).setSwapId a.id).setPagedOut true := Function.update_self ..
  constructor
  · rw [hpage, hframe.current]
    exact h.current
  · rw [hpage]
    exact h.length
  · rw [hpage]
    intro hno
    cases hno
  · intro _
    rw [State.entry, hpage, swappedOut_pte]
    simp
  · intro _
    rw [hpage, swappedOut_device, hframe.swapProvider, hp, hread]
    refine ⟨dev, hok.provider, ?_⟩
    simp

omit [Inhabited γ] in
/-- A page that is brought in reads what was saved. -/
theorem Held.swappedIn (h : Held p x) {dev : ℕ} {data : List γ} {a : InAnswers γ}
    (hok : InOk x.state p dev data a) : Held p ⟨swappedIn x.state p dev data a.phys, x.last⟩ := by
  have hdata : data = x.last := by
    obtain ⟨dev', hdev', hsaved⟩ := h.saved hok.pagedOut
    obtain rfl := Option.some.inj (hok.provider.symm.trans hdev')
    exact Option.some.inj (hok.saved.symm.trans hsaved)
  subst hdata
  have hpage : (Vmm.swappedIn x.state p dev x.last a.phys).page p =
      ((x.state.page p).setPresent true).setPagedOut false := Function.update_self ..
  have hentry : (Vmm.swappedIn x.state p dev x.last a.phys).pte (x.state.page p).owner
      (x.state.page p).addr = pteOf ((x.state.page p).setPresent true) a.phys.phys := by
    simp [Vmm.swappedIn]
  constructor
  · rw [hpage]
    exact h.current
  · rw [hpage]
    exact h.length
  · intro _
    rw [State.entry, hpage]
    refine ⟨_, hentry, hok.grants.2.1, ?_⟩
    have htake : x.last.take ((x.state.page p).setPresent true).nPages = x.last :=
      List.take_of_length_le (le_of_eq h.length)
    have := (x.state.take (x.state.page p).nPages a.phys).read_fill a.phys.phys h.length
    rw [← htake] at this
    nth_rewrite 2 [htake] at this
    exact this
  · rw [hpage]
    intro hno
    cases hno
  · rw [hpage]
    intro hno
    cases hno

omit [Inhabited γ] in
theorem Held.quiet (h : Held p x) {s : State γ} (hout : (x.state.page p).pagedOut = true)
    (hq : Quiet x.state s) : Held p ⟨s, x.last⟩ := by
  obtain ⟨_, _, _, rfl⟩ := hq
  refine ⟨h.current, h.length, fun hno => ?_, h.unmapped, h.saved⟩
  rw [hout] at hno
  cases hno

omit [Inhabited γ] in
theorem Held.store (h : Held p x) {e : Pte} {data : List γ} (he : x.state.entry p = some e)
    (hlen : data.length = (x.state.page p).nPages) : Held p ⟨x.state.fill e.phys data, data⟩ where
  current := h.current
  length := hlen
  mapped := by
    intro hin
    obtain ⟨e', he', hphys, -⟩ := h.mapped hin
    obtain rfl := Option.some.inj (he.symm.trans he')
    exact ⟨e, he, hphys, State.read_fill _ _ hlen⟩
  unmapped := h.unmapped
  saved := by
    intro hout
    rw [h.unmapped hout] at he
    cases he

omit [Inhabited γ] in
theorem Held.rely (h : Held p x) {s : State γ} (hr : Rely p x.state s) : Held p ⟨s, x.last⟩ := by
  constructor
  · rw [hr.page, hr.current]
    exact h.current
  · rw [hr.page]
    exact h.length
  · intro hin
    rw [hr.page] at hin
    obtain ⟨e, he, hphys, hread⟩ := h.mapped hin
    refine ⟨e, hr.entry.trans he, hphys, ?_⟩
    rw [hr.page]
    exact (hr.contents e he).trans hread
  · intro hout
    rw [hr.page] at hout
    exact hr.entry.trans (h.unmapped hout)
  · intro hout
    rw [hr.page] at hout
    obtain ⟨dev, hdev, hsaved⟩ := h.saved hout
    refine ⟨dev, hr.provider.trans hdev, ?_⟩
    rw [hr.page]
    exact (hr.saved dev hdev hout).trans hsaved

/-- An allowed `Mm_SwapOut` pages out a page that is mapped, or changes nothing. -/
theorem PageRun.Allowed.swapOut {a : OutAnswers γ} (ha : x.Allowed p (.swapOut a)) :
    (∃ dev, OutOk x.state p dev a ∧ (x.state.page p).pagedOut = false ∧
      Vmm.swapOut x.state p a = (Vmm.swappedOut x.state p dev a.id, .success)) ∨
      ∃ st, st ≠ .success ∧ Vmm.swapOut x.state p a = (x.state, st) := by
  obtain ⟨hout, hundo, hunmap, hphys⟩ := ha
  by_cases hok : ∃ dev, OutOk x.state p dev a
  · obtain ⟨dev, hok⟩ := hok
    refine .inl ⟨dev, hok, ?_, swapOut_of_ok hok⟩
    cases hin : (x.state.page p).pagedOut with
    | false => rfl
    | true =>
      rcases hout hin with hq | hr | hw
      · exact absurd hok.query hq
      · exact absurd hok.resv hr
      · exact absurd hok.write hw
  · exact .inr (swapOut_of_not_ok (fun dev h => hok ⟨dev, h⟩) hundo hunmap hphys)

/-- A step keeps the contents. -/
theorem Held.step (h : Held p x) {op : PageOp γ} (ha : x.Allowed p op) {y : PageRun γ}
    (hy : x.step p op = some y) : Held p y := by
  cases op with
  | swapOut a =>
    cases hy
    rcases ha.swapOut with ⟨dev, hok, hin, he⟩ | ⟨st, -, he⟩
    · rw [he]
      exact h.swappedOut hin hok
    · rw [he]
      exact h
  | swapIn a =>
    obtain ⟨⟨s, st⟩, hs, rfl⟩ := Option.map_eq_some_iff.mp hy
    rcases swapIn_cases hs with ⟨dev, data, hok, rfl, -⟩ | ⟨rfl, -⟩ | ⟨hq, -, rfl | hout⟩
    · exact h.swappedIn hok
    · exact h
    · exact h
    · exact h.quiet hout hq
  | store data =>
    obtain ⟨e, he, rfl⟩ := Option.map_eq_some_iff.mp hy
    exact h.store he ha
  | other s =>
    cases hy
    exact h.rely ha

end

/-! ### Runs -/

/-- Nothing of the page, of the mappings and of the reservations has changed. -/
def Unchanged (p : ℕ) (s s' : State γ) : Prop :=
  s'.page p = s.page p ∧ s'.pte = s.pte ∧ s'.device = s.device

/-- **Swap transparency.**  After every allowed run that starts with a mapped page:
when the page is mapped it reads what it held when last mapped, when it is paged
out its reservation holds that, and the next call that returns an error changes
nothing. -/
theorem transparent_run (p : ℕ) (x₀ x : PageRun γ) (ops : List (PageOp γ)) (h₀ : Held p x₀)
    (hm : Run.Meets (PageRun.Allowed p) (PageRun.step p) x₀ ops)
    (hrun : ops.foldlM (PageRun.step p) x₀ = some x) :
    (∀ e, x.state.entry p = some e → x.state.read e.phys (x.state.page p).nPages = x.last) ∧
    ((x.state.page p).pagedOut = true → ∃ dev, x.state.swapProvider = some dev ∧
      x.state.device dev (x.state.page p).swapId = some x.last) ∧
    (∀ a, x.Allowed p (.swapOut a) → (swapOut x.state p a).2 ≠ .success →
      Unchanged p x.state (swapOut x.state p a).1) ∧
    ∀ a s st, swapIn x.state p a = some (s, st) → st ≠ .success → Unchanged p x.state s := by
  have h : Held p x := Run.preserves (fun x op y h ha hy => h.step ha hy) h₀ hm hrun
  refine ⟨?_, h.saved, ?_, ?_⟩
  · intro e he
    cases hin : (x.state.page p).pagedOut with
    | true =>
      rw [h.unmapped hin] at he
      cases he
    | false =>
      obtain ⟨e', he', -, hread⟩ := h.mapped hin
      obtain rfl := Option.some.inj (he.symm.trans he')
      exact hread
  · intro a ha hst
    rcases ha.swapOut with ⟨dev, -, -, he⟩ | ⟨st, -, he⟩
    · rw [he] at hst
      exact absurd rfl hst
    · rw [he]
      exact ⟨rfl, rfl, rfl⟩
  · intro a s st hs hst
    rcases swapIn_cases hs with ⟨_, _, _, _, hok⟩ | ⟨_, hok, _⟩ | ⟨hq, _, _⟩
    · exact absurd hok hst
    · exact absurd hok hst
    · obtain ⟨_, _, _, rfl⟩ := hq
      exact ⟨rfl, rfl, rfl⟩

theorem transparent_run_outIn :
    ∃ x, [PageOp.swapOut (.ok 5), .swapIn (.ok 0x2000)].foldlM (PageRun.step 0) ⟨onePage, [7]⟩ =
        some x ∧ x.state.entry 0 = some ⟨0x2000, false, false, false, false, false⟩ ∧
      x.state.read 0x2000 (x.state.page 0).nPages = [7] := by
  have h₀ : Held 0 ⟨onePage, [7]⟩ :=
    ⟨rfl, rfl, fun _ => ⟨_, rfl, by decide, rfl⟩, nofun, nofun⟩
  have hm : Run.Meets (PageRun.Allowed 0) (PageRun.step 0) ⟨onePage, [7]⟩
      [PageOp.swapOut (.ok 5), .swapIn (.ok 0x2000)] :=
    ⟨⟨nofun, fun _ => rfl, rfl, rfl⟩, fun _ _ => ⟨trivial, fun _ _ => trivial⟩⟩
  refine ⟨_, rfl, rfl, ?_⟩
  exact (transparent_run 0 ⟨onePage, [7]⟩ _ _ h₀ hm rfl).1 _ rfl

/-- The page holds 7 and is swapped out twice, with success; the second call saves
the frame 0 under a new id, and what `Mm_SwapIn` brings back is that. -/
theorem swapped_out_twice :
    ((swapOut onePage 0 (.ok 5)).2 = .success ∧
      (swapOut (swapOut onePage 0 (.ok 5)).1 0 (.ok 6)).2 = .success) ∧
    ((swapIn (swapOut (swapOut onePage 0 (.ok 5)).1 0 (.ok 6)).1 0 (.ok 0x2000)).map fun r =>
      (r.2, r.1.entry 0, r.1.read 0x2000 1)) =
    some (.success, some ⟨0x2000, false, false, false, false, false⟩, [9]) := by
  refine ⟨⟨rfl, rfl⟩, rfl⟩

end Obos.Vmm
