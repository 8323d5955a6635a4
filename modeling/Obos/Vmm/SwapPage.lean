/-
`Mm_SwapOut` and `Mm_SwapIn` (`mm/swap.c`) on one page.

* `swapOut`, `swapIn` — the two functions, with every early return,
* `OutOk`, `swapOut_of_ok`, `swapOut_of_not_ok` — when `Mm_SwapOut` succeeds and what it
  does, and when a failed call leaves everything as it was,
* `InOk`, `swapIn_cases` — the same for `Mm_SwapIn`,
* `swapOut_touches`, `swapIn_touches` — neither reaches another page.
-/
import Obos.Vmm.State
import Obos.Lib.Run

namespace Obos.Vmm

open Function

variable {γ : Type} [Inhabited γ]

/-! ### The two calls -/

/-- What the calls made by one `Mm_SwapOut` answer. -/
structure OutAnswers (γ : Type) where
  /-- `OBOSS_GetPagePhysicalAddress`. -/
  query : Status
  resv : Status
  id : ℕ
  write : Status
  junk : List γ
  /-- The `swap_free` of whichever undo is reached. -/
  free : Status
  unmap : Status
  freePhys : Status
  remap : Status

/-- `Mm_SwapOut`. -/
def swapOut (s : State γ) (p : ℕ) (a : OutAnswers γ) : State γ × Status :=
  match s.swapProvider with
  | none => (s, .invalidInitPhase)
  | some dev =>
    let pg := s.page p
    if pg.reserved then (s, .invalidArgument)
    else if !pg.pageable || 0 < pg.workingSets then (s, .invalidArgument)
    else if a.query ≠ .success then (s, a.query)
    else
      let phys := getPagePhysicalAddress s pg.addr
      let (s, st) := swapResv s dev a.id pg.nPages a.resv
      if st ≠ .success then (s, st)
      else
        let (s, st) := swapWrite s dev a.id phys pg.nPages a.write a.junk
        if st ≠ .success then
          let (s, freed) := swapFree s dev a.id a.free
          (s, if freed ≠ .success then .internalError else st)
        else
          let pg := (pg.setPresent false).setSwapId a.id
          let s := s.setPage p pg
          if a.unmap ≠ .success then
            let (s, freed) := swapFree s dev a.id a.free
            (s, if freed ≠ .success then .internalError else a.unmap)
          else
            let s := setPageMapping s pg.owner pg 0
            let (s, st) := if phys ≠ 0 then freePhysicalPages s phys pg.nPages a.freePhys
              else (s, .success)
            if st ≠ .success then
              let (s, freed) := swapFree s dev a.id a.free
              if freed ≠ .success then (s, .internalError)
              else
                let pg := pg.setPresent true
                let s := s.setPage p pg
                if a.remap ≠ .success then (s, .internalError)
                else (setPageMapping s pg.owner pg phys, st)
            else (s.setPage p (pg.setPagedOut true), .success)

/-- What the calls made by one `Mm_SwapIn` answer. -/
structure InAnswers (γ : Type) where
  phys : PhysAnswer
  read : Status
  junk : List γ
  free : Status
  /-- The `Mm_FreePhysicalPages` of whichever undo is reached. -/
  freePhys : Status
  map : Status

/-- `Mm_SwapIn`; there is no result when it panics. -/
def swapIn (s : State γ) (p : ℕ) (a : InAnswers γ) : Option (State γ × Status) :=
  match s.swapProvider with
  | none => some (s, .invalidInitPhase)
  | some dev =>
    let pg := s.page p
    if pg.reserved then some (s, .invalidArgument)
    else if !pg.pageable || !pg.pagedOut then some (s, .success)
    else
      let (s, phys, st) := allocatePhysicalPages s pg.nPages pg.nPages a.phys
      if st ≠ .success then some (s, st)
      else
        let (s, st) := swapRead s dev pg.swapId phys pg.nPages a.read a.junk
        if st ≠ .success then
          let (s, freed) := freePhysicalPages s phys pg.nPages a.freePhys
          some (s, if freed ≠ .success then .internalError else st)
        else
          let (s, st) := swapFree s dev pg.swapId a.free
          if st ≠ .success then
            let (s, freed) := freePhysicalPages s phys pg.nPages a.freePhys
            some (s, if freed ≠ .success then .internalError else st)
          else
            let pg := pg.setPresent true
            if a.map ≠ .success then none
            else
              let s := setPageMapping (s.setPage p pg) pg.owner pg phys
              some (s.setPage p (pg.setPagedOut false), .success)

/-! ### What the calls do -/

section Spec

variable {s : State γ} {p dev : ℕ} {a : OutAnswers γ}

omit [Inhabited γ] in
@[simp] theorem State.setReservation_idem (s : State γ) (dev id : ℕ) (x y : Option (List γ)) :
    (s.setReservation dev id x).setReservation dev id y = s.setReservation dev id y := by
  simp only [State.setReservation, State.mk.injEq, true_and, and_true]
  funext dev' id'
  split <;> rfl

omit [Inhabited γ] in
theorem State.setReservation_self {dev id : ℕ} {x : Option (List γ)} (h : s.device dev id = x) :
    s.setReservation dev id x = s := by
  cases s
  simp only [State.setReservation, State.mk.injEq, true_and, and_true]
  funext dev' id'
  split
  · rename_i he
    rw [he.1, he.2]
    exact h.symm
  · rfl

/-- The conditions under which `Mm_SwapOut` succeeds. -/
structure OutOk (s : State γ) (p dev : ℕ) (a : OutAnswers γ) : Prop where
  provider : s.swapProvider = some dev
  reserved : (s.page p).reserved = false
  pageable : (s.page p).pageable = true
  workingSets : (s.page p).workingSets = 0
  query : a.query = .success
  resv : a.resv = .success
  fresh : s.device dev a.id = none
  write : a.write = .success
  unmap : a.unmap = .success
  freePhys : getPagePhysicalAddress s (s.page p).addr ≠ 0 → a.freePhys = .success

/-- The page was saved under `id` and unmapped. -/
def unmapped (s : State γ) (p dev id : ℕ) : State γ :=
  let pg := s.page p
  (((s.setReservation dev id
    (some (s.read (getPagePhysicalAddress s pg.addr) pg.nPages))).setPage p
      ((pg.setPresent false).setSwapId id)).setPte pg.owner pg.addr none)

/-- The state after a successful `Mm_SwapOut`. -/
def swappedOut (s : State γ) (p dev id : ℕ) : State γ :=
  let pg := s.page p
  let phys := getPagePhysicalAddress s pg.addr
  (if phys ≠ 0 then (unmapped s p dev id).give phys pg.nPages else unmapped s p dev id).setPage p (((pg.setPresent false).setSwapId id).setPagedOut true)

section

omit [Inhabited γ]

variable (s p dev) (id : ℕ)

theorem swappedOut_page : (swappedOut s p dev id).page = update s.page p
    ((((s.page p).setPresent false).setSwapId id).setPagedOut true) := by
  unfold swappedOut
  dsimp only
  split <;> exact update_idem ..

theorem swappedOut_pte : (swappedOut s p dev id).pte = (s.setPte (s.page p).owner (s.page p).addr
    none).pte := by
  unfold swappedOut
  dsimp only
  split <;> rfl

theorem swappedOut_device : (swappedOut s p dev id).device = (s.setReservation dev id
    (some (s.read (getPagePhysicalAddress s (s.page p).addr) (s.page p).nPages))).device := by
  unfold swappedOut
  dsimp only
  split <;> rfl

end

theorem swapOut_of_ok (h : OutOk s p dev a) : swapOut s p a = (swappedOut s p dev a.id, .success) := by
  have hw : ¬ (0 < (s.page p).workingSets) := by rw [h.workingSets]; exact lt_irrefl 0
  have hread : ∀ x, (s.setReservation dev a.id x).read = s.read := fun x => rfl
  have hlive : ∀ x, (s.setReservation dev a.id x).device dev a.id = x := by
    intro x
    rw [State.setReservation_device, if_pos ⟨rfl, rfl⟩]
  unfold swapOut swappedOut
  simp only [h.provider, h.reserved, h.pageable, hw, h.query, h.resv, swapResv_of_ok h.fresh,
    h.write, swapWrite_of_ok _ _ (hlive _), h.unmap, Bool.not_true, Bool.false_or, decide_false,
    Bool.false_eq_true, ne_eq, not_true, if_false, State.setReservation_idem, hread]
  by_cases hp : getPagePhysicalAddress s (s.page p).addr = 0
  · simp only [unmapped, hp, not_true, if_false]
    rfl
  · simp only [hp, not_false_eq_true, if_true, h.freePhys hp, freePhysicalPages_of_ne _ hp, if_false,
      not_true]
    rfl

/-- A call that is refused, or whose write fails and is undone, changes nothing. -/
theorem swapOut_of_not_ok (h : ∀ dev, ¬ OutOk s p dev a)
    (hundo : a.write ≠ .success → a.free = .success) (hunmap : a.unmap = .success)
    (hphys : a.freePhys = .success) : ∃ st, st ≠ .success ∧ swapOut s p a = (s, st) := by
  unfold swapOut
  cases hdev : s.swapProvider with
  | none => exact ⟨_, by decide, rfl⟩
  | some dev =>
    dsimp only
    by_cases hres : (s.page p).reserved = true
    · exact ⟨_, by decide, if_pos hres⟩
    rw [if_neg hres]
    by_cases hpg : (!(s.page p).pageable || decide (0 < (s.page p).workingSets)) = true
    · exact ⟨_, by decide, if_pos hpg⟩
    rw [if_neg hpg]
    by_cases hq : a.query ≠ .success
    · exact ⟨_, hq, if_pos hq⟩
    rw [if_neg hq]
    by_cases hresv : a.resv = .success ∧ s.device dev a.id = none
    · have hw : a.write ≠ .success := by
        intro hw
        simp only [Bool.not_eq_true, Bool.or_eq_false_iff, Bool.not_eq_false',
          decide_eq_false_iff_not, not_lt, Nat.le_zero] at hpg
        exact h dev ⟨hdev, by simpa using hres, hpg.1, hpg.2, not_not.mp hq, hresv.1, hresv.2, hw,
          hunmap, fun _ => hphys⟩
      refine ⟨a.write, hw, ?_⟩
      simp only [swapResv, if_pos hresv, ne_eq, not_true, if_false, swapWrite,
        State.setReservation_device, and_self, hw, not_false_eq_true, if_true,
        swapFree, hundo hw, State.setReservation_idem, reduceCtorEq]
      rw [State.setReservation_self hresv.2]
    · refine ⟨_, refusal_ne a.resv, ?_⟩
      simp [swapResv, if_neg hresv, if_pos (refusal_ne a.resv)]

/-- Only the page node `p`, the entry of its address, the frames and the devices
may differ. -/
structure Touches (p c addr : ℕ) (s s' : State γ) : Prop where
  ctx : s'.ctx = s.ctx
  nextNode : s'.nextNode = s.nextNode
  current : s'.current = s.current
  swapProvider : s'.swapProvider = s.swapProvider
  page : ∀ q ≠ p, s'.page q = s.page q
  pte : ∀ c' addr', c' ≠ c ∨ addr' ≠ addr → s'.pte c' addr' = s.pte c' addr'

namespace Touches

omit [Inhabited γ]

variable {c addr : ℕ} {s s' : State γ}

theorem refl (p c addr : ℕ) (s : State γ) : Touches p c addr s s :=
  ⟨rfl, rfl, rfl, rfl, fun _ _ => rfl, fun _ _ _ => rfl⟩

variable (h : Touches p c addr s s')
include h

theorem setPage (pg : Page) : Touches p c addr s (s'.setPage p pg) where
  ctx := h.ctx
  nextNode := h.nextNode
  current := h.current
  swapProvider := h.swapProvider
  page := by
    intro q hq
    rw [State.setPage_page, update_of_ne hq, h.page q hq]
  pte := h.pte

theorem setPte (x : Option Pte) :
    Touches p c addr s (s'.setPte c addr x) where
  ctx := h.ctx
  nextNode := h.nextNode
  current := h.current
  swapProvider := h.swapProvider
  page := h.page
  pte := by
    intro c' addr' hne
    rw [← h.pte c' addr' hne, State.setPte_pte, if_neg]
    rintro ⟨rfl, rfl⟩
    exact hne.elim (absurd rfl) (absurd rfl)

theorem setReservation (dev id : ℕ) (x : Option (List γ)) :
    Touches p c addr s (s'.setReservation dev id x) := ⟨h.1, h.2, h.3, h.4, h.5, h.6⟩

theorem give (phys n : ℕ) :
    Touches p c addr s (s'.give phys n) := ⟨h.1, h.2, h.3, h.4, h.5, h.6⟩

end Touches

/-- What is kept by each write of `Mm_SwapOut` is kept by the call, unless the call
succeeds. -/
theorem swapOut_invariant (s : State γ) (p : ℕ) (a : OutAnswers γ) {P : State γ → Prop} (h0 : P s)
    (hres : ∀ t dev x, P t → P (t.setReservation dev a.id x))
    (hpage : ∀ t b, P t → P (t.setPage p (((s.page p).setPresent b).setSwapId a.id)))
    (hpte : ∀ t b phys, P t → P (t.setPte (s.page p).owner (s.page p).addr
      (pteOf (((s.page p).setPresent b).setSwapId a.id) phys))) :
    (∃ dev, OutOk s p dev a) ∨ P (swapOut s p a).1 := by
  by_cases hok : ∃ dev, OutOk s p dev a
  · exact .inl hok
  right
  have hwrite : ∀ t dev phys n st junk, P t → P (swapWrite t dev a.id phys n st junk).1 := by
    intro t dev phys n st junk ht
    unfold swapWrite
    split
    · exact ht
    · split <;> exact hres _ _ _ ht
  have hfree : ∀ t dev st, P t → P (swapFree t dev a.id st).1 := by
    intro t dev st ht
    unfold swapFree
    split
    · exact hres _ _ _ ht
    · exact ht
  unfold swapOut
  cases hdev : s.swapProvider with
  | none => exact h0
  | some dev =>
    dsimp only
    have h1 : P (swapResv s dev a.id (s.page p).nPages a.resv).1 := by
      unfold swapResv
      split
      · exact hres _ _ _ h0
      · exact h0
    have h2 := hwrite _ dev (getPagePhysicalAddress s (s.page p).addr) (s.page p).nPages a.write
      a.junk h1
    have h3 := hpage _ false h2
    have h4 := hpte _ false 0 h3
    -- the returns, in the order of the code; the last one is the success
    let R := fun r : State γ × Status => P r.1
    refine iteInduction (motive := R) (fun _ => h0) fun hres => ?_
    refine iteInduction (motive := R) (fun _ => h0) fun hpg => ?_
    refine iteInduction (motive := R) (fun _ => h0) fun hq => ?_
    refine iteInduction (motive := R) (fun _ => h1) fun hresv => ?_
    refine iteInduction (motive := R) (fun _ => hfree _ _ _ h2) fun hw => ?_
    refine iteInduction (motive := R) (fun _ => hfree _ _ _ h3) fun hu => ?_
    by_cases hphys : getPagePhysicalAddress s (s.page p).addr ≠ 0 ∧ a.freePhys ≠ .success
    · have he : ∀ t : State γ, freePhysicalPages t (getPagePhysicalAddress s (s.page p).addr)
          (s.page p).nPages a.freePhys = (t, a.freePhys) := by
        intro t
        rw [freePhysicalPages, if_neg hphys.1, if_pos hphys.2]
      have hn : (((s.page p).setPresent false).setSwapId a.id).nPages = (s.page p).nPages := rfl
      rw [if_pos hphys.1, hn, he]
      refine iteInduction (motive := R) (fun _ => ?_) fun hno => absurd hphys.2 hno
      refine iteInduction (motive := R) (fun _ => hfree _ _ _ h4) fun _ => ?_
      refine iteInduction (motive := R) (fun _ => hpage _ true (hfree _ _ _ h4)) fun _ => ?_
      exact hpte _ true _ (hpage _ true (hfree _ _ _ h4))
    · exfalso
      simp only [Bool.or_eq_true, Bool.not_eq_true', decide_eq_true_eq, not_or, Bool.not_eq_false,
        not_lt, Nat.le_zero] at hpg
      have hr := swapResv_success (not_not.mp hresv)
      refine hok ⟨dev, hdev, by simpa using hres, hpg.1, hpg.2, not_not.mp hq, hr.1, hr.2,
        swapWrite_success (not_not.mp hw), not_not.mp hu, fun hne => ?_⟩
      by_contra hno
      exact hphys ⟨hne, hno⟩

/-- `Mm_SwapOut` changes nothing of the other pages, whatever fails. -/
theorem swapOut_touches (s : State γ) (p : ℕ) (a : OutAnswers γ) :
    Touches p (s.page p).owner (s.page p).addr s (swapOut s p a).1 := by
  have h0 := Touches.refl p (s.page p).owner (s.page p).addr s
  rcases swapOut_invariant s p a (P := Touches p (s.page p).owner (s.page p).addr s) h0
    (fun t dev x ht => ht.setReservation ..) (fun t b ht => ht.setPage _)
    (fun t b phys ht => ht.setPte _) with ⟨dev, hok⟩ | h
  · have h4 : Touches p (s.page p).owner (s.page p).addr s (unmapped s p dev a.id) :=
      ((h0.setReservation dev a.id _).setPage _).setPte none
    rw [swapOut_of_ok hok, swappedOut]
    exact Touches.setPage (iteInduction (fun _ => h4.give ..) fun _ => h4) _
  · exact h

/-- The reservations under other ids stay. -/
theorem swapOut_device (s : State γ) (p : ℕ) (a : OutAnswers γ) {dev id : ℕ} (hid : id ≠ a.id) :
    (swapOut s p a).1.device dev id = s.device dev id := by
  have hres : ∀ (t : State γ) d x, t.device dev id = s.device dev id →
      (t.setReservation d a.id x).device dev id = s.device dev id := by
    intro t d x ht
    rw [State.setReservation_device, if_neg fun h => hid h.2]
    exact ht
  rcases swapOut_invariant s p a (P := fun t => t.device dev id = s.device dev id) rfl hres
    (fun t b ht => ht) (fun t b phys ht => ht) with ⟨d, hok⟩ | h
  · rw [swapOut_of_ok hok, swappedOut_device]
    exact hres s d _ rfl
  · exact h

/-- A page whose `Mm_SwapOut` fails is not marked as paged out. -/
theorem swapOut_pagedOut {s : State γ} {p : ℕ} {a : OutAnswers γ} (h : ∀ dev, ¬ OutOk s p dev a) :
    ((swapOut s p a).1.page p).pagedOut = (s.page p).pagedOut := by
  refine (swapOut_invariant s p a (P := fun t => (t.page p).pagedOut = (s.page p).pagedOut) rfl
    (fun t d x ht => ht) (fun t b _ => ?_) fun t b phys ht => ht).resolve_left (not_exists.mpr h)
  rw [State.setPage_page, update_self]
  rfl

/-- Of the page itself, `Mm_SwapOut` writes the present bit, the swap id and the mark. -/
theorem swapOut_page (s : State γ) (p : ℕ) (a : OutAnswers γ) : ∃ b id o,
    (swapOut s p a).1.page p = (((s.page p).setPresent b).setSwapId id).setPagedOut o := by
  rcases swapOut_invariant s p a (P := fun t => ∃ b id o,
      t.page p = (((s.page p).setPresent b).setSwapId id).setPagedOut o)
    ⟨(s.page p).prot.present, (s.page p).swapId, (s.page p).pagedOut, rfl⟩ (fun t d x ht => ht)
    (fun t b _ => ⟨b, a.id, (s.page p).pagedOut, update_self ..⟩)
    (fun t b phys ht => ht) with ⟨d, hok⟩ | hinv
  · rw [swapOut_of_ok hok, swappedOut_page, update_self]
    exact ⟨false, a.id, true, rfl⟩
  · exact hinv

/-- The conditions under which `Mm_SwapIn` brings the page in. -/
structure InOk (s : State γ) (p dev : ℕ) (data : List γ) (a : InAnswers γ) : Prop where
  provider : s.swapProvider = some dev
  reserved : (s.page p).reserved = false
  pageable : (s.page p).pageable = true
  pagedOut : (s.page p).pagedOut = true
  grants : a.phys.Grants s (s.page p).nPages (s.page p).nPages
  saved : s.device dev (s.page p).swapId = some data
  read : a.read = .success
  free : a.free = .success
  map : a.map = .success

/-- The state after an `Mm_SwapIn` that brought the page in. -/
def swappedIn (s : State γ) (p dev : ℕ) (data : List γ) (a : PhysAnswer) : State γ :=
  let pg := (s.page p).setPresent true
  ((((((s.take pg.nPages a).fill a.phys (data.take pg.nPages)).setReservation dev pg.swapId
    none).setPage p pg).setPte pg.owner pg.addr (pteOf pg a.phys)).setPage p (pg.setPagedOut false))

omit [Inhabited γ] in
theorem swapIn_of_ok {data : List γ} {a : InAnswers γ} (h : InOk s p dev data a) :
    swapIn s p a = some (swappedIn s p dev data a.phys, .success) := by
  have hread := swapRead_of_ok (s := s.take (s.page p).nPages a.phys) (n := (s.page p).nPages)
    a.phys.phys a.junk h.saved
  have hfree := swapFree_of_ok (s := (s.take (s.page p).nPages a.phys).fill a.phys.phys
    (data.take (s.page p).nPages)) h.saved
  unfold swapIn
  simp only [h.provider, h.reserved, h.pageable, h.pagedOut, Bool.not_true, Bool.false_or,
    Bool.false_eq_true, if_false, allocatePhysicalPages_of_grants h.grants, ne_eq, not_true,
    h.read, hread, h.free, hfree, h.map]
  rfl

/-- The page nodes, the mappings, the trees and lists and the reservations are the
same; frames may have been taken, filled and handed back. -/
def Quiet (s s' : State γ) : Prop :=
  ∃ contents freeFrame handBacks, s' =
    { s with contents := contents, freeFrame := freeFrame, handBacks := handBacks }

namespace Quiet

omit [Inhabited γ]

variable {s s' : State γ}

theorem refl (s : State γ) : Quiet s s := ⟨_, _, _, rfl⟩

theorem allocatePhysicalPages (h : Quiet s s') (n align : ℕ) (a : PhysAnswer) :
    Quiet s (allocatePhysicalPages s' n align a).1 := by
  obtain ⟨_, _, _, rfl⟩ := h
  unfold Vmm.allocatePhysicalPages
  split <;> exact ⟨_, _, _, rfl⟩

theorem swapRead (h : Quiet s s') (dev id phys n : ℕ) (st : Status) (junk : List γ) :
    Quiet s (swapRead s' dev id phys n st junk).1 := by
  obtain ⟨_, _, _, rfl⟩ := h
  unfold Vmm.swapRead
  split
  · exact ⟨_, _, _, rfl⟩
  · split <;> exact ⟨_, _, _, rfl⟩

theorem freePhysicalPages (h : Quiet s s') (phys n : ℕ) (st : Status) :
    Quiet s (freePhysicalPages s' phys n st).1 := by
  obtain ⟨_, _, _, rfl⟩ := h
  unfold Vmm.freePhysicalPages
  split_ifs <;> exact ⟨_, _, _, rfl⟩

theorem swapFree (h : Quiet s s') {dev id : ℕ} {st : Status}
    (hst : (swapFree s' dev id st).2 ≠ .success) : Quiet s (swapFree s' dev id st).1 := by
  unfold Vmm.swapFree at hst ⊢
  split
  · rename_i hok
    rw [if_pos hok] at hst
    exact absurd rfl hst
  · exact h

end Quiet

omit [Inhabited γ] in
/-- `Mm_SwapIn` brings the page in, or finds nothing to do, or returns an error and
leaves the page, its mapping and its reservation as they are. -/
theorem swapIn_cases {s s' : State γ} {p : ℕ} {a : InAnswers γ} {st : Status}
    (h : swapIn s p a = some (s', st)) :
    (∃ dev data, InOk s p dev data a ∧ s' = swappedIn s p dev data a.phys ∧ st = .success) ∨
      (s' = s ∧ st = .success ∧ ((s.page p).pageable = false ∨ (s.page p).pagedOut = false)) ∨
      (Quiet s s' ∧ st ≠ .success ∧ (s' = s ∨ (s.page p).pagedOut = true)) := by
  have h0 := Quiet.refl s
  cases hdev : s.swapProvider with
  | none =>
    unfold swapIn at h
    rw [hdev] at h
    cases h
    exact .inr (.inr ⟨h0, by decide, .inl rfl⟩)
  | some dev =>
    by_cases hok : ∃ data, InOk s p dev data a
    · obtain ⟨data, hok⟩ := hok
      rw [swapIn_of_ok hok] at h
      cases h
      exact .inl ⟨dev, data, hok, rfl, rfl⟩
    · right
      -- the returns of the code, in its order; the last one contradicts `hok`
      let R := fun r : Option (State γ × Status) => r = some (s', st) →
        (s' = s ∧ st = .success ∧ ((s.page p).pageable = false ∨ (s.page p).pagedOut = false)) ∨
          (Quiet s s' ∧ st ≠ .success ∧ (s' = s ∨ (s.page p).pagedOut = true))
      have fails : ∀ {t : State γ} {st' : Status}, Quiet s t → st' ≠ .success →
          (t = s ∨ (s.page p).pagedOut = true) → R (some (t, st')) := by
        rintro t st' ht hst' hor ⟨⟩
        exact .inr ⟨ht, hst', hor⟩
      have undone : ∀ {t : State γ} {st' : Status} (phys : ℕ), Quiet s t → st' ≠ .success →
          (s.page p).pagedOut = true → R (some ((freePhysicalPages t phys (s.page p).nPages a.freePhys).1,
            if (freePhysicalPages t phys (s.page p).nPages a.freePhys).2 ≠ .success then
              .internalError else st')) := by
        intro t st' phys ht hst' hout
        refine fails (ht.freePhysicalPages ..) ?_ (.inr hout)
        split
        · decide
        · exact hst'
      have h1 := h0.allocatePhysicalPages (s.page p).nPages (s.page p).nPages a.phys
      have h2 := h1.swapRead dev (s.page p).swapId
        (allocatePhysicalPages s (s.page p).nPages (s.page p).nPages a.phys).2.1 (s.page p).nPages a.read a.junk
      refine (show R (swapIn s p a) from ?_) h
      unfold swapIn
      rw [hdev]
      dsimp only
      refine iteInduction (motive := R) (fun _ => fails h0 (by decide) (.inl rfl)) fun hres => ?_
      refine iteInduction (motive := R) (fun hpg he => ?_) fun hpg => ?_
      · cases he
        refine .inl ⟨rfl, rfl, ?_⟩
        simpa only [Bool.or_eq_true, Bool.not_eq_true'] using hpg
      simp only [Bool.or_eq_true, Bool.not_eq_true', not_or, Bool.not_eq_false] at hpg
      have hout := hpg.2
      refine iteInduction (motive := R) (fun hst => fails h1 hst (.inr hout)) fun hst => ?_
      refine iteInduction (motive := R) (fun hst => undone _ h2 hst hout) fun hrd => ?_
      refine iteInduction (motive := R) (fun hst => undone _ (h2.swapFree hst) hst hout) fun hfr => ?_
      refine iteInduction (motive := R) (fun _ h => by cases h) fun hmap => ?_
      exfalso
      have hgr : a.phys.Grants s (s.page p).nPages (s.page p).nPages := by
        by_contra hno
        obtain ⟨st', hne, he⟩ := allocatePhysicalPages_of_not hno
        rw [he] at hst
        exact hst hne
      obtain ⟨hread, data, hdata⟩ := swapRead_success (not_not.mp hrd)
      rw [allocatePhysicalPages_of_grants hgr] at hdata
      exact hok ⟨data, hdev, by simpa using hres, hpg.1, hpg.2, hgr, hdata, hread,
        swapFree_success (not_not.mp hfr), not_not.mp hmap⟩

end Spec

/-! ### One page -/

/-- All calls succeed, with this swap id. -/
def OutAnswers.ok (id : ℕ) : OutAnswers γ where
  query := .success
  resv := .success
  id := id
  write := .success
  junk := []
  free := .success
  unmap := .success
  freePhys := .success
  remap := .success

/-- All calls succeed, with this block. -/
def InAnswers.ok (phys : ℕ) : InAnswers γ where
  phys := ⟨.success, phys, []⟩
  read := .success
  junk := []
  free := .success
  freePhys := .success
  map := .success

/-- A machine with one page of 4 KiB at `0x1000`, mapped to the frame 1, and one swap
device; the content of a frame is a number. -/
def onePage : State ℕ where
  page := fun _ => { Page.zero with
    addr := 0x1000, prot := { Prot.zero with present := true }, pageable := true }
  nextNode := 1
  ctx := fun _ => ⟨true, [0], [], 0, 0, [], MemStat.zero⟩
  pte := fun _ addr => if addr = 0x1000 then some ⟨0x1000, false, true, false, false, false⟩ else none
  current := 0
  contents := fun f => if f = 1 then 7 else 9
  freeFrame := fun f => f = 2
  device := fun _ _ => none
  swapProvider := some 0
  vnode := fun _ => ⟨0, 0, [], []⟩
  region := fun _ => ⟨0, 0, 0, 0, 0⟩
  handBacks := []

end Obos.Vmm
