/-
Changing the swap device (`Mm_ChangeSwapProvider` in `mm/swap.c`).

The function moves the pages of the kernel context from the old device to the new
one through a buffer.  It checks none of its calls and never frees the buffer.

* `moveLoop_eq` — what the loop makes of the pages and of the two devices, whatever
  the devices answer,
* `migrated_iff` — the call keeps every paged-out page readable, releases the old
  reservations and gives the buffer back exactly when it has nothing to move, or
  when the buffer could not be allocated, only kernel pages are paged out and no
  device call fails,
* `buffer_leaks` — with one paged-out page and no failing call the buffer is lost.
-/
import Obos.Vmm.SwapPage

namespace Obos.Vmm

open List

/-! ### The call -/

/-- What the four device calls for one page answer, and what a failed read leaves in
the buffer and a failed write on the device. -/
structure MoveAnswers where
  read : Status
  free : Status
  resv : Status
  id : ℕ
  write : Status
  deriving DecidableEq, Repr

structure MoveJunk (γ : Type) where
  read : List γ
  write : List γ

section

variable {γ : Type} [Inhabited γ]

/-- The body of the loop for a page that is paged out.  An id that was not reserved
is 0. -/
def movePage (old to' inter p : ℕ) (a : MoveAnswers) (junk : MoveJunk γ) (s : State γ) : State γ :=
  let pg := s.page p
  let s := (swapRead s old pg.swapId inter pg.nPages a.read junk.read).1
  let s := (swapFree s old pg.swapId a.free).1
  let (s, st) := swapResv s to' a.id pg.nPages a.resv
  let id := if st = .success then a.id else 0
  let s := s.setPage p (pg.setSwapId id)
  (swapWrite s to' id inter pg.nPages a.write junk.write).1

/-- The loop over the page tree of the kernel. -/
def moveLoop (old to' inter : ℕ) (ans : ℕ → MoveAnswers) (junk : ℕ → MoveJunk γ) :
    List ℕ → State γ → State γ
  | [], s => s
  | p :: ps, s =>
    if !(s.page p).pagedOut then moveLoop old to' inter ans junk ps s
    else moveLoop old to' inter ans junk ps (movePage old to' inter p (ans p) (junk p) s)

/-- `Mm_ChangeSwapProvider`. -/
def changeSwapProvider (s : State γ) (to' : Option ℕ) (buffer : PhysAnswer) (ans : ℕ → MoveAnswers)
    (junk : ℕ → MoveJunk γ) : State γ × Status :=
  match to' with
  | none => (s, .invalidArgument)
  | some to' =>
    match s.swapProvider with
    | none => ({ s with swapProvider := some to' }, .success)
    | some old =>
      if to' = old then ({ s with swapProvider := some to' }, .success)
      else
        let (s, inter, _) := allocatePhysicalPages s (hugePageSize / pageSize) 1 buffer
        let s := moveLoop old to' inter ans junk (s.ctx kernelContext).pages s
        ({ s with swapProvider := some to' }, .success)

end

/-! ### One page -/

section

variable {γ : Type}

/-- What a page has on a device. -/
def State.saved (s : State γ) (dev p : ℕ) : List γ := (s.device dev (s.page p).swapId).getD []

/-- What the call writes to the new device for a page. -/
def movedData (s : State γ) (old p : ℕ) (a : MoveAnswers) (junk : MoveJunk γ) : List γ :=
  if a.write ≠ .success then junk.write
  else if a.read ≠ .success then junk.read
  else s.saved old p

/-- The page `p` after the move from `s` to `s'`. -/
structure Moved (old to' : ℕ) (s s' : State γ) (p : ℕ) (a : MoveAnswers) (junk : MoveJunk γ) :
    Prop where
  page : s'.page p = (s.page p).setSwapId (if a.resv = .success then a.id else 0)
  released : s'.device old (s.page p).swapId =
    if a.free = .success then none else some (s.saved old p)
  written : a.resv = .success → s'.device to' a.id = some (movedData s old p a junk)

/-- What the moves of other pages leave alone. -/
structure MoveFrame (old to' : ℕ) (s s' : State γ) (p : ℕ) (a : MoveAnswers) : Prop where
  page : ∀ q ≠ p, s'.page q = s.page q
  released : ∀ i ≠ (s.page p).swapId, s'.device old i = s.device old i
  written : ∀ i ≠ a.id, s'.device to' i = s.device to' i
  freeFrame : s'.freeFrame = s.freeFrame
  ctx : s'.ctx = s.ctx

/-- The state in which a page can be moved: its reservation is live, and the new
device has a fresh id for it. -/
structure Movable (old to' : ℕ) (s : State γ) (p : ℕ) (a : MoveAnswers) (junk : MoveJunk γ) : Prop where
  live : s.device old (s.page p).swapId = some (s.saved old p)
  length : (s.saved old p).length = (s.page p).nPages
  fresh : s.device to' a.id = none
  null : s.device to' 0 = none
  junk : a.read ≠ .success → junk.read.length = (s.page p).nPages

end

section

variable {γ : Type} [Inhabited γ] {old to' inter p : ℕ} {a : MoveAnswers} {junk : MoveJunk γ}
  {s : State γ}

omit [Inhabited γ] in
/-- The buffer after the read. -/
theorem swapRead_buffer (h : Movable old to' s p a junk) (inter : ℕ) :
    ∃ b, (swapRead s old (s.page p).swapId inter (s.page p).nPages a.read junk.read).1 =
      s.fill inter b ∧ b.length = (s.page p).nPages ∧
      b = if a.read ≠ .success then junk.read else s.saved old p := by
  unfold swapRead
  rw [h.live]
  by_cases hr : a.read = .success
  · refine ⟨(s.saved old p).take (s.page p).nPages, ?_, ?_, ?_⟩
    · simp [if_pos hr]
    · rw [length_take, h.length, Nat.min_self]
    · rw [if_neg (not_not.mpr hr), take_of_length_le (le_of_eq h.length)]
  · refine ⟨junk.read.take (s.page p).nPages, ?_, ?_, ?_⟩
    · simp [if_neg hr]
    · rw [length_take, h.junk hr, Nat.min_self]
    · rw [if_pos hr, take_of_length_le (le_of_eq (h.junk hr))]

omit [Inhabited γ] in
/-- Read and freed: what the buffer holds, and what the devices have. -/
theorem move_prefix (hne : to' ≠ old) (h : Movable old to' s p a junk) (inter : ℕ) :
    ∃ t, (swapFree (swapRead s old (s.page p).swapId inter (s.page p).nPages a.read junk.read).1
        old (s.page p).swapId a.free).1 = t ∧ DeviceOnly s t ∧
      t.read inter (s.page p).nPages =
        (if a.read ≠ .success then junk.read else s.saved old p) ∧
      (∀ c i, t.device c i =
        if c = old ∧ i = (s.page p).swapId ∧ a.free = .success then none else s.device c i) ∧
      t.device to' a.id = none ∧ t.device to' 0 = none := by
  obtain ⟨b, hread, hlen, hb⟩ := swapRead_buffer h inter
  have hdev : ∀ c i, (swapFree (s.fill inter b) old (s.page p).swapId a.free).1.device c i =
      if c = old ∧ i = (s.page p).swapId ∧ a.free = .success then none else s.device c i := by
    intro c i
    unfold swapFree
    rw [State.fill_device, h.live]
    by_cases hf : a.free = .success <;> simp [hf]
  have hbuf : (swapFree (s.fill inter b) old (s.page p).swapId a.free).1.read inter
      (s.page p).nPages = b := by
    unfold swapFree
    split <;> exact s.read_fill inter hlen
  refine ⟨_, rfl, (swapRead_only ..).trans (swapFree_only ..), ?_⟩
  rw [hread]
  refine ⟨hbuf.trans hb, hdev, ?_, ?_⟩
  · rw [hdev, if_neg fun hc => hne hc.1, h.fresh]
  · rw [hdev, if_neg fun hc => hne hc.1, h.null]

/-- The devices after the move of a page. -/
theorem movePage_device (inter : ℕ) (hne : to' ≠ old) (h : Movable old to' s p a junk) (c i : ℕ) :
    (movePage old to' inter p a junk s).device c i =
      if c = to' ∧ i = a.id ∧ a.resv = .success then some (movedData s old p a junk)
      else if c = old ∧ i = (s.page p).swapId ∧ a.free = .success then none
      else s.device c i := by
  obtain ⟨t, hfree, -, hbuf, hdev, hfresh, hnull⟩ := move_prefix hne h inter
  unfold movePage
  simp only [hfree, swapResv, hfresh, and_true]
  by_cases hr : a.resv = .success
  · simp only [hr, if_true, and_true]
    have hlive : ∀ x y, ((t.setReservation to' a.id (some x)).setPage p y).device to' a.id =
        some x := by
      intro x y
      rw [State.setPage_device, State.setReservation_device, if_pos ⟨rfl, rfl⟩]
    have hbuf' : ∀ x y, ((t.setReservation to' a.id x).setPage p y).read inter (s.page p).nPages =
        if a.read ≠ .success then junk.read else s.saved old p := fun _ _ => hbuf
    simp only [swapWrite, hlive, hbuf', movedData]
    by_cases hw : a.write = .success <;>
      by_cases hc : c = to' ∧ i = a.id <;> simp [hw, hc, hdev]
  · simp only [hr, if_false, and_false, refusal_ne]
    have hnull' : ∀ y, (t.setPage p y).device to' 0 = none := fun _ => hnull
    simp only [swapWrite, hnull', State.setPage_device, hdev]

/-- The page gets its new id, and nothing else changes but the devices. -/
theorem movePage_only (inter : ℕ) (hne : to' ≠ old) (h : Movable old to' s p a junk) :
    DeviceOnly (s.setPage p ((s.page p).setSwapId (if a.resv = .success then a.id else 0)))
      (movePage old to' inter p a junk s) := by
  obtain ⟨t, hfree, honly, -, -, hfresh, -⟩ := move_prefix hne h inter
  have hresv := honly.trans (swapResv_only t to' a.id (s.page p).nPages a.resv)
  have hst : (swapResv t to' a.id (s.page p).nPages a.resv).2 = .success ↔ a.resv = .success := by
    unfold swapResv
    by_cases hr : a.resv = .success
    · rw [if_pos ⟨hr, hfresh⟩]
      exact ⟨fun _ => hr, fun _ => rfl⟩
    · rw [if_neg fun hc => hr hc.1]
      exact ⟨fun hc => absurd hc (refusal_ne _), fun hc => absurd hc hr⟩
  unfold movePage
  simp only [hfree, hst]
  have hset : DeviceOnly (s.setPage p ((s.page p).setSwapId (if a.resv = .success then a.id else 0)))
      ((swapResv t to' a.id (s.page p).nPages a.resv).1.setPage p
        ((s.page p).setSwapId (if a.resv = .success then a.id else 0))) :=
    ⟨congrArg (fun x => Function.update x p _) hresv.page, hresv.ctx, hresv.pte, hresv.freeFrame,
      hresv.swapProvider⟩
  exact hset.trans (swapWrite_only ..)

/-- One page is moved and the others stay. -/
theorem movePage_spec (hne : to' ≠ old) (h : Movable old to' s p a junk) :
    Moved old to' s (movePage old to' inter p a junk s) p a junk ∧
      MoveFrame old to' s (movePage old to' inter p a junk s) p a := by
  have honly := movePage_only inter hne h
  have hdev := movePage_device inter hne h
  refine ⟨⟨?_, ?_, ?_⟩, ⟨?_, ?_, ?_, honly.freeFrame, honly.ctx⟩⟩
  · rw [honly.page]
    exact Function.update_self ..
  · rw [hdev, if_neg fun hc => hne hc.1.symm]
    by_cases hf : a.free = .success
    · rw [if_pos ⟨rfl, rfl, hf⟩, if_pos hf]
    · rw [if_neg fun hc => hf hc.2.2, if_neg hf, h.live]
  · intro hr
    rw [hdev, if_pos ⟨rfl, rfl, hr⟩]
  · intro q hq
    rw [honly.page]
    exact Function.update_of_ne hq _ _
  · intro i hi
    rw [hdev, if_neg fun hc => hne hc.1.symm, if_neg fun hc => hi hc.2.1]
  · intro i hi
    rw [hdev, if_neg fun hc => hi hc.2.1, if_neg fun hc => hne hc.1]

end

/-! ### The loop -/

section

variable {γ : Type}

/-- The page is one of `ps` and is paged out. -/
def Goes (s : State γ) (ps : List ℕ) (p : ℕ) : Prop := p ∈ ps ∧ (s.page p).pagedOut = true

/-- The pages of `ps` that are paged out have reservations of their own, and the new
device has a fresh id for each. -/
structure Distinct (old to' : ℕ) (s : State γ) (ans : ℕ → MoveAnswers) (junk : ℕ → MoveJunk γ)
    (ps : List ℕ) : Prop where
  nodup : ps.Nodup
  movable : ∀ p, Goes s ps p → Movable old to' s p (ans p) (junk p)
  swapId : ∀ p q, Goes s ps p → Goes s ps q → (s.page p).swapId = (s.page q).swapId → p = q
  id : ∀ p q, Goes s ps p → Goes s ps q → (ans p).id = (ans q).id → p = q
  ne_zero : ∀ p, Goes s ps p → (ans p).id ≠ 0

/-- What the loop over `ps` makes of `s`. -/
structure LoopMoved (old to' : ℕ) (s s' : State γ) (ans : ℕ → MoveAnswers) (junk : ℕ → MoveJunk γ)
    (ps : List ℕ) : Prop where
  moved : ∀ p, Goes s ps p → Moved old to' s s' p (ans p) (junk p)
  page : ∀ q, ¬ Goes s ps q → s'.page q = s.page q
  released : ∀ i, (∀ p, Goes s ps p → i ≠ (s.page p).swapId) → s'.device old i = s.device old i
  written : ∀ i, (∀ p, Goes s ps p → i ≠ (ans p).id) → s'.device to' i = s.device to' i
  freeFrame : s'.freeFrame = s.freeFrame
  ctx : s'.ctx = s.ctx

section Cons

variable {old to' p : ℕ} {ans : ℕ → MoveAnswers} {junk : ℕ → MoveJunk γ} {s t : State γ} {ps : List ℕ}

theorem Goes.tail {q : ℕ} (h : Goes s ps q) : Goes s (p :: ps) q :=
  ⟨mem_cons_of_mem p h.1, h.2⟩

/-- The pages behind the first one are as before its move. -/
theorem MoveFrame.goes (hf : MoveFrame old to' s t p (ans p)) (hp : p ∉ ps) (q : ℕ) :
    Goes t ps q ↔ Goes s ps q := by
  have hpq : q ∈ ps → q ≠ p := fun hq e => hp (e ▸ hq)
  constructor
  · rintro ⟨hq, hqo⟩
    exact ⟨hq, by rwa [hf.page q (hpq hq)] at hqo⟩
  · rintro ⟨hq, hqo⟩
    exact ⟨hq, by rwa [hf.page q (hpq hq)]⟩

variable (h : Distinct old to' s ans junk (p :: ps)) (hself : Goes s (p :: ps) p)

include h hself

theorem Distinct.tail_ne {q : ℕ} (hq : Goes s ps q) :
    q ≠ p ∧ (s.page q).swapId ≠ (s.page p).swapId ∧ (ans q).id ≠ (ans p).id := by
  have hqp : q ≠ p := fun e => (nodup_cons.mp h.nodup).1 (e ▸ hq.1)
  exact ⟨hqp, fun e => hqp (h.swapId q p hq.tail hself e), fun e => hqp (h.id q p hq.tail hself e)⟩

theorem Distinct.tail_saved (hf : MoveFrame old to' s t p (ans p)) {q : ℕ} (hq : Goes s ps q) :
    t.saved old q = s.saved old q := by
  obtain ⟨hqp, hsid, -⟩ := h.tail_ne hself hq
  rw [State.saved, State.saved, hf.page q hqp, hf.released _ hsid]

/-- The first page was moved: the rest can still be. -/
theorem Distinct.tail (hf : MoveFrame old to' s t p (ans p)) : Distinct old to' t ans junk ps := by
  obtain ⟨hp, hnd⟩ := nodup_cons.mp h.nodup
  have hgoes := hf.goes hp
  refine ⟨hnd, ?_, ?_, ?_, ?_⟩
  · intro q hq
    have hq' := (hgoes q).mp hq
    obtain ⟨hqp, hsid, hid⟩ := h.tail_ne hself hq'
    have hm := h.movable q hq'.tail
    refine ⟨?_, ?_, ?_, ?_, ?_⟩
    · rw [h.tail_saved hself hf hq', hf.page q hqp, hf.released _ hsid]
      exact hm.live
    · rw [h.tail_saved hself hf hq', hf.page q hqp]
      exact hm.length
    · rw [hf.written _ hid]
      exact hm.fresh
    · rw [hf.written _ (h.ne_zero p hself).symm]
      exact hm.null
    · rw [hf.page q hqp]
      exact hm.junk
  · intro q r hq hr
    have hq' := (hgoes q).mp hq
    have hr' := (hgoes r).mp hr
    rw [hf.page q (h.tail_ne hself hq').1, hf.page r (h.tail_ne hself hr').1]
    exact h.swapId q r hq'.tail hr'.tail
  · exact fun q r hq hr => h.id q r ((hgoes q).mp hq).tail ((hgoes r).mp hr).tail
  · exact fun q hq => h.ne_zero q ((hgoes q).mp hq).tail

/-- The move of the first page, then those of the rest. -/
theorem LoopMoved.cons {u : State γ} (hm : Moved old to' s t p (ans p) (junk p))
    (hf : MoveFrame old to' s t p (ans p)) (hrest : LoopMoved old to' t u ans junk ps) :
    LoopMoved old to' s u ans junk (p :: ps) := by
  have hp := (nodup_cons.mp h.nodup).1
  have hgoes := hf.goes hp
  have hne : ∀ q, Goes t ps q →
      q ≠ p ∧ (s.page q).swapId ≠ (s.page p).swapId ∧ (ans q).id ≠ (ans p).id :=
    fun q hq => h.tail_ne hself ((hgoes q).mp hq)
  refine ⟨?_, ?_, ?_, ?_, hrest.freeFrame.trans hf.freeFrame, hrest.ctx.trans hf.ctx⟩
  · rintro q ⟨hq, hqo⟩
    rcases mem_cons.mp hq with rfl | hq
    · refine ⟨?_, ?_, ?_⟩
      · rw [hrest.page q fun hg => hp hg.1]
        exact hm.page
      · rw [hrest.released _ fun r hr => ?_]
        · exact hm.released
        · rw [hf.page r (hne r hr).1]
          exact (hne r hr).2.1.symm
      · intro hr
        rw [hrest.written _ fun r hr => (hne r hr).2.2.symm]
        exact hm.written hr
    · have hq' : Goes s ps q := ⟨hq, hqo⟩
      have hqm := hrest.moved q ((hgoes q).mpr hq')
      have hpage := hf.page q (h.tail_ne hself hq').1
      have hsaved := h.tail_saved hself hf hq'
      refine ⟨?_, ?_, ?_⟩
      · rw [hqm.page, hpage]
      · have hrel := hqm.released
        rwa [hpage, hsaved] at hrel
      · intro hr
        rw [hqm.written hr, movedData, movedData, hsaved]
  · intro q hq
    have hqp : q ≠ p := by
      rintro rfl
      exact hq hself
    rw [hrest.page q fun hg => hq ((hgoes q).mp hg).tail, hf.page q hqp]
  · intro i hi
    rw [hrest.released i fun q hq => ?_, hf.released i (hi p hself)]
    rw [hf.page q (hne q hq).1]
    exact hi q ((hgoes q).mp hq).tail
  · intro i hi
    rw [hrest.written i fun q hq => hi q ((hgoes q).mp hq).tail, hf.written i (hi p hself)]

end Cons

variable [Inhabited γ] {old to' : ℕ} {ans : ℕ → MoveAnswers} {junk : ℕ → MoveJunk γ}

theorem moveLoop_eq (inter : ℕ) (hne : to' ≠ old) {ps : List ℕ} {s : State γ}
    (h : Distinct old to' s ans junk ps) :
    LoopMoved old to' s (moveLoop old to' inter ans junk ps s) ans junk ps := by
  induction ps generalizing s with
  | nil =>
    exact ⟨fun p hp => absurd hp.1 not_mem_nil, fun _ _ => rfl, fun _ _ => rfl,
      fun _ _ => rfl, rfl, rfl⟩
  | cons p ps ih =>
    rw [moveLoop]
    by_cases hout : (s.page p).pagedOut = true
    · rw [if_neg (by rw [hout]; decide)]
      have hself : Goes s (p :: ps) p := ⟨mem_cons_self, hout⟩
      obtain ⟨hm, hf⟩ := movePage_spec hne (h.movable p hself)
      exact LoopMoved.cons h hself hm hf (ih (h.tail hself hf))
    · -- a page that is not paged out is passed over
      rw [if_pos (by simpa using hout)]
      have hgoes : ∀ q, Goes s (p :: ps) q ↔ Goes s ps q := by
        intro q
        constructor
        · rintro ⟨hq, hqo⟩
          rcases mem_cons.mp hq with rfl | hq
          · exact absurd hqo hout
          · exact ⟨hq, hqo⟩
        · exact fun hq => ⟨mem_cons_of_mem p hq.1, hq.2⟩
      have hrest := ih (s := s) ⟨(nodup_cons.mp h.nodup).2, fun q hq => h.movable q ((hgoes q).mpr hq),
        fun q r hq hr => h.swapId q r ((hgoes q).mpr hq) ((hgoes r).mpr hr),
        fun q r hq hr => h.id q r ((hgoes q).mpr hq) ((hgoes r).mpr hr),
        fun q hq => h.ne_zero q ((hgoes q).mpr hq)⟩
      exact ⟨fun q hq => hrest.moved q ((hgoes q).mp hq),
        fun q hq => hrest.page q fun hg => hq ((hgoes q).mpr hg),
        fun i hi => hrest.released i fun q hq => hi q ((hgoes q).mpr hq),
        fun i hi => hrest.written i fun q hq => hi q ((hgoes q).mpr hq),
        hrest.freeFrame, hrest.ctx⟩

end

/-! ### The whole call -/

section

variable {γ : Type}

/-- The page belongs to a context and is paged out. -/
def Out (s : State γ) (c p : ℕ) : Prop := p ∈ (s.ctx c).pages ∧ (s.page p).pagedOut = true

/-- What is true of the paged-out pages before the call: each is in one tree and has a
reservation of its size, its own, on the device in use. -/
structure SwapBooks (s : State γ) : Prop where
  nodup : ∀ c, (s.ctx c).pages.Nodup
  apart : ∀ c c' p, p ∈ (s.ctx c).pages → p ∈ (s.ctx c').pages → c = c'
  empty : s.swapProvider = none → ∀ c p, ¬ Out s c p
  live : ∀ old, s.swapProvider = some old → ∀ c p, Out s c p →
    s.device old (s.page p).swapId = some (s.saved old p) ∧
      (s.saved old p).length = (s.page p).nPages
  own : ∀ c c' p q, Out s c p → Out s c' q → (s.page p).swapId = (s.page q).swapId → p = q

/-- The ids that the new device gives out are not 0, not in use, and distinct. -/
structure FreshIds (s : State γ) (to' : ℕ) (ans : ℕ → MoveAnswers) : Prop where
  null : s.device to' 0 = none
  ne_zero : ∀ p, Out s kernelContext p → (ans p).id ≠ 0
  fresh : ∀ p, Out s kernelContext p → s.device to' (ans p).id = none
  inj : ∀ p q, Out s kernelContext p → Out s kernelContext q → (ans p).id = (ans q).id → p = q

/-- Success: every paged-out page is on the new device with the bytes it had, its old
reservation is released, and the free frames are those of before. -/
structure Migrated (s s' : State γ) (to' : ℕ) : Prop where
  readable : ∀ old, s.swapProvider = some old → ∀ c p, Out s c p →
    s'.swapProvider = some to' ∧ s'.device to' (s'.page p).swapId = some (s.saved old p)
  released : ∀ old, s.swapProvider = some old → old ≠ to' → ∀ c p, Out s c p →
    s'.device old (s.page p).swapId = none
  buffer : s'.freeFrame = s.freeFrame

/-- An error: every paged-out page is still on the old device. -/
def StillThere (s s' : State γ) : Prop :=
  ∀ old, s.swapProvider = some old → ∀ c p, Out s c p →
    s'.swapProvider = some old ∧ s'.device old (s'.page p).swapId = some (s.saved old p)

/-- What the call promises. -/
def Promise (s : State γ) (to' : Option ℕ) (r : State γ × Status) : Prop :=
  (r.2 = .success → ∃ t, to' = some t ∧ Migrated s r.1 t) ∧ (r.2 ≠ .success → StillThere s r.1)

/-- No device call fails. -/
def MoveAnswers.Ok (a : MoveAnswers) : Prop :=
  a.read = .success ∧ a.free = .success ∧ a.resv = .success ∧ a.write = .success

theorem Page.nPages_pos (pg : Page) : 0 < pg.nPages := by
  unfold Page.nPages
  split <;> decide

/-- Other bytes of the same length. -/
theorem exists_ne_list [Nontrivial γ] {n : ℕ} (hn : 0 < n) (l : List γ) :
    ∃ l' : List γ, l'.length = n ∧ l' ≠ l := by
  cases l with
  | nil =>
    obtain ⟨x, -⟩ := exists_pair_ne γ
    refine ⟨List.replicate n x, length_replicate .., fun e => ?_⟩
    rw [replicate_eq_nil_iff] at e
    exact hn.ne' e
  | cons x l =>
    obtain ⟨y, hy⟩ := exists_ne x
    refine ⟨List.replicate n y, length_replicate .., fun e => ?_⟩
    have hx : x ∈ List.replicate n y := by
      rw [e]
      exact mem_cons_self
    exact hy (eq_of_mem_replicate hx).symm

section Move

variable [Inhabited γ] {s : State γ} {old to' : ℕ} {buffer : PhysAnswer} {ans : ℕ → MoveAnswers}
  {junk : ℕ → MoveJunk γ}

/-- The state in which the loop starts. -/
def withBuffer (s : State γ) (buffer : PhysAnswer) : State γ :=
  (allocatePhysicalPages s (hugePageSize / pageSize) 1 buffer).1

omit [Inhabited γ] in
/-- It differs in the free frames only. -/
theorem withBuffer_eq (s : State γ) (buffer : PhysAnswer) :
    ∃ ff, withBuffer s buffer = { s with freeFrame := ff } := by
  unfold withBuffer allocatePhysicalPages
  split <;> exact ⟨_, rfl⟩

theorem changeSwapProvider_move (buffer : PhysAnswer) (ans : ℕ → MoveAnswers)
    (junk : ℕ → MoveJunk γ) (hp : s.swapProvider = some old) (hne : to' ≠ old) :
    ∃ inter, changeSwapProvider s (some to') buffer ans junk =
      ({ moveLoop old to' inter ans junk (s.ctx kernelContext).pages (withBuffer s buffer) with
        swapProvider := some to' }, .success) := by
  refine ⟨(allocatePhysicalPages s (hugePageSize / pageSize) 1 buffer).2.1, ?_⟩
  obtain ⟨ff, hff⟩ := withBuffer_eq s buffer
  have hctx : (withBuffer s buffer).ctx = s.ctx := by rw [hff]
  unfold changeSwapProvider
  simp only [hp, if_neg hne]
  rw [← hctx]
  rfl

omit [Inhabited γ] in
theorem SwapBooks.distinct (hs : SwapBooks s) (buffer : PhysAnswer) (hf : FreshIds s to' ans) (hp : s.swapProvider = some old)
    (hj : ∀ p, Out s kernelContext p → (ans p).read ≠ .success →
      (junk p).read.length = (s.page p).nPages) :
    Distinct old to' (withBuffer s buffer) ans junk (s.ctx kernelContext).pages := by
  obtain ⟨ff, hff⟩ := withBuffer_eq s buffer
  rw [hff]
  refine ⟨hs.nodup _, ?_, ?_, hf.inj, hf.ne_zero⟩
  · intro p hg
    obtain ⟨hl, hlen⟩ := hs.live old hp kernelContext p hg
    exact ⟨hl, hlen, hf.fresh p hg, hf.null, hj p hg⟩
  · intro p q hg hg' e
    exact hs.own _ _ p q hg hg' e

/-- The call, when it has something to move. -/
theorem changeSwapProvider_spec (junk : ℕ → MoveJunk γ) (buffer : PhysAnswer) (hs : SwapBooks s) (hf : FreshIds s to' ans)
    (hp : s.swapProvider = some old) (hne : to' ≠ old)
    (hj : ∀ p, Out s kernelContext p → (ans p).read ≠ .success →
      (junk p).read.length = (s.page p).nPages) :
    ∃ s', changeSwapProvider s (some to') buffer ans junk = (s', .success) ∧
      s'.swapProvider = some to' ∧ s'.freeFrame = (withBuffer s buffer).freeFrame ∧
      s'.device to' 0 = none ∧ (∀ p, Out s kernelContext p → Moved old to' s s' p (ans p) (junk p)) ∧
      ∀ i, (∀ p, Out s kernelContext p → i ≠ (s.page p).swapId) →
        s'.device old i = s.device old i := by
  obtain ⟨inter, he⟩ := changeSwapProvider_move buffer ans junk hp hne
  obtain ⟨ff, hff⟩ := withBuffer_eq s buffer
  have hloop := moveLoop_eq inter hne (hs.distinct buffer hf hp hj)
  refine ⟨_, he, rfl, hloop.freeFrame, ?_, ?_, ?_⟩
  · rw [hff] at hloop ⊢
    exact (hloop.written 0 fun p hg => (hf.ne_zero p hg).symm).trans hf.null
  · intro p hg
    rw [hff] at hloop ⊢
    have hm := hloop.moved p hg
    exact ⟨hm.page, hm.released, hm.written⟩
  · intro i hi
    rw [hff] at hloop ⊢
    exact hloop.released i hi

omit [Inhabited γ] in
/-- The buffer is part of what was free, and nothing gives it back. -/
theorem withBuffer_freeFrame :
    (withBuffer s buffer).freeFrame = s.freeFrame ↔
      ¬ buffer.Grants s (hugePageSize / pageSize) 1 := by
  constructor
  · intro h hg
    have hmem : buffer.phys / pageSize ∈ frames buffer.phys (hugePageSize / pageSize) :=
      mem_map.mpr ⟨0, mem_range.mpr (by decide), Nat.add_zero _⟩
    have hfree := hg.2.2.2.1 _ hmem
    rw [← h, withBuffer, allocatePhysicalPages_of_grants hg, State.take_freeFrame,
      decide_eq_false (not_not.mpr hmem), Bool.and_false, Bool.false_and] at hfree
    cases hfree
  · intro h
    obtain ⟨st, -, he⟩ := allocatePhysicalPages_of_not h
    rw [withBuffer, he]

omit [Inhabited γ] in
/-- The new device has the page's bytes, with an id that the page knows, exactly when
the read, the reservation and the write succeeded. -/
theorem Moved.readable_iff {s' : State γ} {p : ℕ} {a : MoveAnswers} {j : MoveJunk γ}
    (hm : Moved old to' s s' p a j) (hnull : s'.device to' 0 = none)
    (hr : j.read ≠ s.saved old p) (hw : j.write ≠ s.saved old p) :
    s'.device to' (s'.page p).swapId = some (s.saved old p) ↔
      a.read = .success ∧ a.resv = .success ∧ a.write = .success := by
  rw [hm.page, Page.setSwapId_swapId]
  by_cases hresv : a.resv = .success
  · rw [if_pos hresv, hm.written hresv, Option.some.injEq, movedData]
    by_cases hwrite : a.write = .success
    · by_cases hread : a.read = .success
      · simp [hresv, hwrite, hread]
      · simp [hwrite, hread, hr]
    · simp [hwrite, hw]
  · rw [if_neg hresv, hnull]
    simp [hresv]

/-- When there is something to move: with junk that is not the page's bytes, a promise
that is kept means that nothing failed. -/
theorem ok_of_promise [Nontrivial γ] (hs : SwapBooks s) (hf : FreshIds s to' ans)
    (hp : s.swapProvider = some old) (hne : to' ≠ old)
    (h : ∀ junk, Promise s (some to') (changeSwapProvider s (some to') buffer ans junk)) :
    ¬ buffer.Grants s (hugePageSize / pageSize) 1 ∧ (∀ c p, Out s c p → c = kernelContext) ∧
      ∀ p, Out s kernelContext p → (ans p).Ok := by
  choose l hlen hl using fun p => exists_ne_list (s.page p).nPages_pos (s.saved old p)
  obtain ⟨s', he, -, hfree, hnull, hmoved, hkept⟩ :=
    changeSwapProvider_spec (fun p => ⟨l p, l p⟩) buffer hs hf hp hne fun p _ _ => hlen p
  have hprom := h fun p => ⟨l p, l p⟩
  rw [he] at hprom
  obtain ⟨t, ht, hmig⟩ := hprom.1 rfl
  cases ht
  refine ⟨?_, ?_, ?_⟩
  · rw [← withBuffer_freeFrame, ← hfree]
    exact hmig.buffer
  · intro c p hout
    by_contra hc
    have hrel := hmig.released old hp hne.symm c p hout
    -- no kernel page has the id of this page, so its reservation was not released
    rw [hkept, (hs.live old hp c p hout).1] at hrel
    · cases hrel
    · intro q hq e
      obtain rfl := hs.own _ _ p q hout hq e
      exact hc (hs.apart _ _ p hout.1 hq.1)
  · intro p hout
    have hm := hmoved p hout
    obtain ⟨hread, hresv, hwrite⟩ :=
      (hm.readable_iff hnull (hl p) (hl p)).mp (hmig.readable old hp _ p hout).2
    refine ⟨hread, ?_, hresv, hwrite⟩
    by_contra hno
    have hrel := hmig.released old hp hne.symm _ p hout
    rw [hm.released, if_neg hno] at hrel
    cases hrel

theorem promise_of_ok (hs : SwapBooks s) (hf : FreshIds s to' ans)
    (hp : s.swapProvider = some old) (hne : to' ≠ old)
    (hbuf : ¬ buffer.Grants s (hugePageSize / pageSize) 1)
    (hker : ∀ c p, Out s c p → c = kernelContext)
    (hok : ∀ p, Out s kernelContext p → (ans p).Ok) (junk : ℕ → MoveJunk γ) :
    Promise s (some to') (changeSwapProvider s (some to') buffer ans junk) := by
  obtain ⟨s', he, hprov, hfree, -, hmoved, -⟩ :=
    changeSwapProvider_spec junk buffer hs hf hp hne
      fun p hout hno => absurd (hok p hout).1 hno
  rw [he]
  refine ⟨fun _ => ⟨to', rfl, ?_, ?_, ?_⟩, fun hno => absurd rfl hno⟩
  · intro old' hold c p hout
    obtain rfl := Option.some.inj (hp.symm.trans hold)
    obtain rfl := hker c p hout
    obtain ⟨hread, -, hresv, hwrite⟩ := hok p hout
    have hm := hmoved p hout
    refine ⟨hprov, ?_⟩
    rw [hm.page, Page.setSwapId_swapId, if_pos hresv, hm.written hresv, movedData,
      if_neg (not_not.mpr hwrite), if_neg (not_not.mpr hread)]
  · intro old' hold _ c p hout
    obtain rfl := Option.some.inj (hp.symm.trans hold)
    obtain rfl := hker c p hout
    rw [(hmoved p hout).released, if_pos (hok p hout).2.1]
  · rw [hfree]
    exact withBuffer_freeFrame.mpr hbuf

end Move

/-- **Swap migration.**  Whatever a failed read or write leaves behind, the call keeps
its promise exactly when it is refused, has no old device to leave, or could not
allocate its buffer and then moved kernel pages only, without a failing call. -/
theorem migrated_iff [Inhabited γ] [Nontrivial γ] (s : State γ) (to' : Option ℕ) (buffer : PhysAnswer)
    (ans : ℕ → MoveAnswers) (hs : SwapBooks s) (hf : ∀ t, to' = some t → FreshIds s t ans) :
    (∀ junk, Promise s to' (changeSwapProvider s to' buffer ans junk)) ↔
      to' = none ∨ s.swapProvider = none ∨ s.swapProvider = to' ∨
        ¬ buffer.Grants s (hugePageSize / pageSize) 1 ∧
          (∀ c p, Out s c p → c = kernelContext) ∧
          ∀ p, Out s kernelContext p → (ans p).Ok := by
  cases to' with
  | none =>
    -- refused with an error, and nothing has changed
    refine ⟨fun _ => .inl rfl, fun _ junk => ⟨nofun, fun _ old hp c p hout => ⟨hp, ?_⟩⟩⟩
    exact (hs.live old hp c p hout).1
  | some t =>
    by_cases hsame : ∀ old, s.swapProvider = some old → t = old
    · -- no other device to leave
      have hto : s.swapProvider = none ∨ s.swapProvider = some t := by
        cases hp : s.swapProvider with
        | none => exact .inl rfl
        | some old => exact .inr (congrArg some (hsame old hp).symm)
      refine ⟨fun _ => .inr (hto.imp_right .inl), fun _ junk => ?_⟩
      have he : changeSwapProvider s (some t) buffer ans junk =
          ({ s with swapProvider := some t }, .success) := by
        rcases hto with hp | hp <;> simp [changeSwapProvider, hp]
      rw [he]
      refine ⟨fun _ => ⟨t, rfl, ?_, ?_, rfl⟩, fun hno => absurd rfl hno⟩
      · intro old hold c p hout
        obtain rfl := hsame old hold
        exact ⟨rfl, (hs.live t hold c p hout).1⟩
      · intro old hold hno
        exact absurd (hsame old hold).symm hno
    · push Not at hsame
      obtain ⟨old, hp, hne⟩ := hsame
      rw [hp]
      constructor
      · intro h
        exact .inr (.inr (.inr (ok_of_promise hs (hf t rfl) hp hne h)))
      · rintro (h | h | h | ⟨hbuf, hker, hok⟩)
        · cases h
        · cases h
        · exact absurd (Option.some.inj h).symm hne
        · exact promise_of_ok hs (hf t rfl) hp hne hbuf hker hok

/-- One kernel page of 4 KiB is paged out, with the content 7 under the id 5. -/
def onePagedOut : State ℕ where
  page := fun _ => { Page.zero with addr := 0x1000, pageable := true, pagedOut := true, swapId := 5 }
  nextNode := 1
  ctx := fun c => ⟨true, if c = kernelContext then [0] else [], [], 0, 0, [], MemStat.zero⟩
  pte := fun _ _ => none
  current := 0
  contents := fun _ => 9
  freeFrame := fun f => 1 ≤ f ∧ f ≤ 512
  device := fun dev id => if dev = 0 ∧ id = 5 then some [7] else none
  swapProvider := some 0
  vnode := fun _ => ⟨0, 0, [], []⟩
  region := fun _ => ⟨0, 0, 0, 0, 0⟩
  handBacks := []

/-- Every device call succeeds, and the new device gives out the id 3. -/
def moveOk : ℕ → MoveAnswers := fun _ => ⟨.success, .success, .success, 3, .success⟩

theorem onePagedOut_out {c p : ℕ} : Out onePagedOut c p ↔ c = kernelContext ∧ p = 0 := by
  constructor
  · rintro ⟨hp, -⟩
    by_cases hc : c = kernelContext
    · simp only [onePagedOut, if_pos hc, mem_singleton] at hp
      exact ⟨hc, hp⟩
    · simp only [onePagedOut, if_neg hc, not_mem_nil] at hp
  · rintro ⟨rfl, rfl⟩
    exact ⟨mem_singleton_self 0, rfl⟩

theorem onePagedOut_books : SwapBooks onePagedOut := by
  refine ⟨?_, ?_, nofun, ?_, ?_⟩
  · intro c
    by_cases hc : c = kernelContext
    · simp [onePagedOut, hc]
    · simp [onePagedOut, hc]
  · intro c c' p hp hp'
    exact (onePagedOut_out.mp ⟨hp, rfl⟩).1.trans (onePagedOut_out.mp ⟨hp', rfl⟩).1.symm
  · intro old hold c p hout
    cases hold
    obtain ⟨rfl, rfl⟩ := onePagedOut_out.mp hout
    exact ⟨rfl, rfl⟩
  · intro c c' p q hp hq _
    exact (onePagedOut_out.mp hp).2.trans (onePagedOut_out.mp hq).2.symm

theorem onePagedOut_fresh (t : ℕ) (ht : t ≠ 0) : FreshIds onePagedOut t moveOk := by
  refine ⟨if_neg fun h => ht h.1, fun _ _ => three_ne_zero, fun p _ => if_neg fun h => ht h.1, ?_⟩
  intro p q hp hq _
  exact (onePagedOut_out.mp hp).2.trans (onePagedOut_out.mp hq).2.symm

/-- Without memory for the buffer the page is moved through the frame 0. -/
theorem migrated_iff_noBuffer :
    Promise onePagedOut (some 1) (changeSwapProvider onePagedOut (some 1)
      ⟨.notEnoughMemory, 0, []⟩ moveOk fun _ => ⟨[], []⟩) := by
  refine (migrated_iff onePagedOut (some 1) ⟨.notEnoughMemory, 0, []⟩ moveOk onePagedOut_books ?_).mpr
    (.inr (.inr (.inr ⟨?_, ?_, ?_⟩))) _
  · intro t ht
    cases ht
    exact onePagedOut_fresh 1 (by decide)
  · intro hg
    cases hg.1
  · exact fun c p hout => (onePagedOut_out.mp hout).1
  · exact fun p _ => ⟨rfl, rfl, rfl, rfl⟩

theorem onePagedOut_grants : PhysAnswer.Grants ⟨.success, 0x1000, []⟩ onePagedOut
    (hugePageSize / pageSize) 1 := by
  refine ⟨rfl, by decide, by decide, ?_, fun f hf => absurd hf not_mem_nil⟩
  intro f hf
  obtain ⟨i, hi, rfl⟩ := mem_map.mp hf
  have hi := mem_range.mp hi
  simp only [hugePageSize, pageSize] at hi ⊢
  simp only [onePagedOut, decide_eq_true_eq]
  omega

/-- With a buffer of 512 free frames and no failing call the frames stay taken. -/
theorem buffer_leaks :
    ¬ Promise onePagedOut (some 1)
      (changeSwapProvider onePagedOut (some 1) ⟨.success, 0x1000, []⟩ moveOk fun _ => ⟨[], []⟩) := by
  intro h
  obtain ⟨s', he, -, hfree, -, -, -⟩ :=
    changeSwapProvider_spec (fun _ => ⟨[], []⟩) ⟨.success, 0x1000, []⟩ onePagedOut_books
      (onePagedOut_fresh 1 (by decide)) rfl (by decide) fun p _ hno => absurd rfl hno
  rw [he] at h
  obtain ⟨t, ht, hmig⟩ := h.1 rfl
  have hsame := hmig.buffer
  rw [hfree] at hsame
  exact withBuffer_freeFrame.mp hsame onePagedOut_grants

end

end Obos.Vmm
