/-
Page replacement (`Mm_RunPRA` in `mm/handler.c`).

The first loop samples and ages the pages of the working set.  A page whose age
became 0 is evicted, and while there is room the last referenced page takes its
place; the cursor reaches such a page unless the evicted one was the last of the
list.  The second loop empties the referenced list from its end into the working
set, and swaps out what finds no room.

* `runPRA` — the function, made of the steps `sample`, `evict`, `promote`, `refill` and
  `expel`,
* `Sampling.choose` — which pages it keeps and which it gives up, as a function of the
  lists, the ages and the sizes alone,
* `runPRA_sim` — the lists after the call are those of the choice, and every page
  given up is paged out exactly if its `Mm_SwapOut` goes through,
* `not_lost_iff` — no page is lost exactly when every page given up is counted in as
  many working sets as it is on and its `Mm_SwapOut` goes through,
* `failed_swapOut_loses_page` — one failed write loses a page.
-/
import Obos.Vmm.SwapPage

namespace Obos.Vmm

open Function List
open VirtualMemory (pageBytes)

/-! ### The steps -/

section

variable {γ : Type}

/-- The sum of a `size_t` and an `int64_t`. -/
def addDelta (size : ℕ) (d : ℤ) : ℕ := ((size + d) % 2 ^ 64).toNat

/-- The age after one sampling interval. -/
def nextAge (touched : Bool) (age : ℕ) : ℕ := (if touched then age ||| 1 else age) * 2 % 256

section

variable (s : State γ)

/-- Sample a page of the working set. -/
def sample (c p : ℕ) : State γ :=
  let s := queryPageInfo s c p
  let pg := s.page p
  s.setPage p (pg.setAge (nextAge pg.prot.touched pg.age))

/-- `ctx->stat.paged += n`. -/
def addPaged (c n : ℕ) : State γ :=
  s.setCtx c ((s.ctx c).setStat
    { (s.ctx c).stat with paged := u64 ((s.ctx c).stat.paged + n) })

/-- The last referenced page enters the working set in the first loop. -/
def promote (c r : ℕ) : State γ :=
  let x := s.ctx c
  let pg := s.page r
  (s.setCtx c (x.setLists (x.workingSet ++ [r]) x.referenced.dropLast)).setPage r
    (pg.setWorkingSets ((pg.workingSets + 1) % 65536))

/-- A referenced page enters the working set in the second loop. -/
def refill (c p : ℕ) : State γ :=
  let x := s.ctx c
  let pg := s.page p
  (s.setCtx c ((x.setLists (x.workingSet ++ [p]) (x.referenced.erase p)).setSize
    (u64 (x.size + pg.bytes)))).setPage p
      ((pg.setWorkingSets ((pg.workingSets + 1) % 65536)).setAge (pg.age * 2 % 256))

/-- A page is taken off the working set. -/
def leave (c p : ℕ) : State γ :=
  let x := s.ctx c
  let pg := s.page p
  (s.setCtx c (x.setLists (x.workingSet.erase p) x.referenced)).setPage p
    (pg.setWorkingSets ((pg.workingSets + 65535) % 65536))

/-- A page is taken off the referenced list. -/
def unlist (c p : ℕ) : State γ :=
  let x := s.ctx c
  let pg := s.page p
  (s.setCtx c (x.setLists x.workingSet (x.referenced.erase p))).setPage p
    (pg.setAge (pg.age * 2 % 256))

end

variable [Inhabited γ]

/-- A page leaves the working set in the first loop. -/
def evict (s : State γ) (c p : ℕ) (a : OutAnswers γ) : State γ :=
  let s := leave s c p
  if (s.page p).workingSets = 0 then
    let (s, st) := swapOut s p a
    if st = .success then addPaged s c (s.page p).bytes else s
  else s

/-- A referenced page finds no room in the second loop. -/
def expel (s : State γ) (c p : ℕ) (a : OutAnswers γ) : State γ :=
  let s := (swapOut (unlist s c p) p a).1
  addPaged s c (s.page p).bytes

/-- The page stays resident, or `Mm_SwapOut` is called and may be counted. -/
theorem evict_cases {P : State γ → Prop} {s : State γ} {c p : ℕ} {a : OutAnswers γ}
    (hstay : ((leave s c p).page p).workingSets ≠ 0 → P (leave s c p))
    (hout : P (swapOut (leave s c p) p a).1)
    (hcount : ∀ t n, P t → P (addPaged t c n)) : P (evict s c p a) := by
  unfold evict
  refine iteInduction (fun _ => ?_) hstay
  exact iteInduction (fun _ => hcount _ _ hout) fun _ => hout

/-! ### The call -/

/-- The first loop, at the pages `rest`, with `workingSetDifference`.  A page that is
paged out makes it panic. -/
def ageLoop (c : ℕ) (ans : ℕ → OutAnswers γ) :
    ℕ → List ℕ → State γ → ℤ → Option (State γ × ℤ)
  | 0, _, s, d => some (s, d)
  | _ + 1, [], s, d => some (s, d)
  | n + 1, p :: rest, s, d =>
    if (s.page p).pagedOut then none
    else
      let s := sample s c p
      if (s.page p).age ≠ 0 then ageLoop c ans n rest s d
      else
        let s := evict s c p (ans p)
        let d := d - (s.page p).bytes
        match (s.ctx c).referenced.getLast? with
        | none => ageLoop c ans n rest s d
        | some r =>
          if addDelta (s.ctx c).size d < (s.ctx c).capacity then
            ageLoop c ans n (if rest.isEmpty then [] else rest ++ [r]) (promote s c r)
              (d + (s.page r).bytes)
          else ageLoop c ans n rest s d

/-- The second loop. -/
def drainLoop (c : ℕ) (ans : ℕ → OutAnswers γ) : List ℕ → State γ → State γ
  | [], s => s
  | p :: rest, s =>
    if (s.ctx c).size < (s.ctx c).capacity then drainLoop c ans rest (refill s c p)
    else drainLoop c ans rest (expel s c p (ans p))

/-- `Mm_RunPRA`, where `ans p` answers the `Mm_SwapOut` of the page `p`.  There is no
result when it panics.  Each round of the first loop passes a page of the working
set or takes one from the referenced list. -/
def runPRA (s : State γ) (c : ℕ) (ans : ℕ → OutAnswers γ) : Option (State γ) :=
  let x := s.ctx c
  match ageLoop c ans (x.workingSet.length + x.referenced.length) x.workingSet s 0 with
  | none => none
  | some (s, d) =>
    let s := s.setCtx c ((s.ctx c).setSize (addDelta (s.ctx c).size d))
    if (s.ctx c).capacity < (s.ctx c).size then none
    else if (s.ctx c).size = (s.ctx c).capacity then some s
    else some (drainLoop c ans (s.ctx c).referenced.reverse s)

end

/-! ### The choice of pages -/

/-- What the choice depends on: which pages have age 0 when they are sampled, and
their sizes before and after that. -/
structure Sampling where
  dead : ℕ → Bool
  bytes : ℕ → ℕ
  queried : ℕ → ℕ

/-- The lists, the pages given up, and the change of the size. -/
structure Choice where
  ws : List ℕ
  refs : List ℕ
  evicted : List ℕ
  delta : ℤ
  deriving DecidableEq, Repr

namespace Sampling

variable (v : Sampling) (capacity : ℕ)

/-- A page of the working set is given up. -/
def giveUp (p : ℕ) (x : Choice) : Choice :=
  { x with ws := x.ws.erase p, evicted := x.evicted ++ [p], delta := x.delta - v.queried p }

/-- The last referenced page takes its place. -/
def replace (r : ℕ) (x : Choice) : Choice :=
  { x with ws := x.ws ++ [r], refs := x.refs.dropLast, delta := x.delta + v.bytes r }

def age (size : ℕ) : ℕ → List ℕ → Choice → Choice
  | 0, _, x => x
  | _ + 1, [], x => x
  | n + 1, p :: rest, x =>
    if v.dead p then
      let x := v.giveUp p x
      match x.refs.getLast? with
      | none => age size n rest x
      | some r =>
        if addDelta size x.delta < capacity then
          age size n (if rest.isEmpty then [] else rest ++ [r]) (v.replace r x)
        else age size n rest x
    else age size n rest x

def drain : List ℕ → ℕ → Choice → Choice
  | [], _, x => x
  | p :: rest, size, x =>
    if size < capacity then
      drain rest (u64 (size + v.bytes p))
        { x with ws := x.ws ++ [p], refs := x.refs.erase p }
    else drain rest size { x with refs := x.refs.erase p, evicted := x.evicted ++ [p] }

/-- What becomes of the lists `ws` and `refs`. -/
def choose (size : ℕ) (ws refs : List ℕ) : Choice :=
  let x := v.age capacity size (ws.length + refs.length) ws ⟨ws, refs, [], 0⟩
  let size := addDelta size x.delta
  if capacity ≤ size then x else v.drain capacity x.refs.reverse size x

end Sampling

/-- What a context and its page table give the choice. -/
def State.sampling {γ : Type} (s : State γ) (c : ℕ) : Sampling where
  dead := fun p =>
    nextAge (protOf (s.pte c (s.page p).addr)).touched (s.page p).age = 0
  bytes := fun p => (s.page p).bytes
  queried := fun p => pageBytes (protOf (s.pte c (s.page p).addr)).hugePage

/-! ### What a step can reach -/

/-- Only the context `c`, the page node `p` and the entry at `addr` may differ, besides
the frames and the devices. -/
structure Near {γ : Type} (c p addr : ℕ) (s t : State γ) : Prop where
  page : ∀ q ≠ p, t.page q = s.page q
  pte : ∀ c' addr', c' ≠ c ∨ addr' ≠ addr → t.pte c' addr' = s.pte c' addr'
  ctx : ∀ c' ≠ c, t.ctx c' = s.ctx c'
  swapProvider : t.swapProvider = s.swapProvider
  current : t.current = s.current

namespace Near

variable {γ : Type} {c p addr : ℕ} {s t u : State γ}

theorem trans (h : Near c p addr s t) (h' : Near c p addr t u) : Near c p addr s u where
  page := fun q hq => (h'.page q hq).trans (h.page q hq)
  pte := fun c' a ha => (h'.pte c' a ha).trans (h.pte c' a ha)
  ctx := fun c' hc => (h'.ctx c' hc).trans (h.ctx c' hc)
  swapProvider := h'.swapProvider.trans h.swapProvider
  current := h'.current.trans h.current

theorem of_touches (h : Touches p c addr s t) : Near c p addr s t :=
  ⟨h.page, h.pte, fun c' _ => congrFun h.ctx c', h.swapProvider, h.current⟩

theorem setPage (c p addr : ℕ) (s : State γ) (pg : Page) : Near c p addr s (s.setPage p pg) :=
  ⟨fun _ hq => update_of_ne hq _ _, fun _ _ _ => rfl, fun _ _ => rfl, rfl, rfl⟩

theorem setCtx (c p addr : ℕ) (s : State γ) (x : Context) : Near c p addr s (s.setCtx c x) :=
  ⟨fun _ _ => rfl, fun _ _ _ => rfl, fun _ hc => update_of_ne hc _ _, rfl, rfl⟩

theorem setPte (c p addr : ℕ) (s : State γ) (x : Option Pte) :
    Near c p addr s (s.setPte c addr x) :=
  of_touches ((Touches.refl p c addr s).setPte x)

theorem sample (s : State γ) (c p : ℕ) : Near c p (s.page p).addr s (sample s c p) :=
  ((setPage c p _ s _).trans (setPte c p _ _ _)).trans (setPage c p _ _ _)

theorem promote (s : State γ) (c p addr : ℕ) : Near c p addr s (promote s c p) :=
  (setCtx c p _ s _).trans (setPage c p _ _ _)

theorem refill (s : State γ) (c p addr : ℕ) : Near c p addr s (refill s c p) :=
  (setCtx c p _ s _).trans (setPage c p _ _ _)

theorem swapOut [Inhabited γ] (a : OutAnswers γ) (hc : (s.page p).owner = c)
    (ha : (s.page p).addr = addr) : Near c p addr s (swapOut s p a).1 := by
  have h := swapOut_touches s p a
  rw [hc, ha] at h
  exact of_touches h

theorem leave (s : State γ) (c p addr : ℕ) : Near c p addr s (leave s c p) :=
  (setCtx c p _ s _).trans (setPage c p _ _ _)

theorem unlist (s : State γ) (c p addr : ℕ) : Near c p addr s (unlist s c p) :=
  (setCtx c p _ s _).trans (setPage c p _ _ _)

theorem evict [Inhabited γ] (a : OutAnswers γ) (hc : (s.page p).owner = c) :
    Near c p (s.page p).addr s (evict s c p a) := by
  have h1 := Near.leave s c p (s.page p).addr
  have h2 := h1.trans (Near.swapOut a (by simpa [Vmm.leave] using hc) (by simp [Vmm.leave]))
  exact evict_cases (fun _ => h1) h2 fun t n h => h.trans (setCtx c p _ t _)

theorem expel [Inhabited γ] (a : OutAnswers γ) (hc : (s.page p).owner = c) :
    Near c p (s.page p).addr s (expel s c p a) := by
  have h1 := Near.unlist s c p (s.page p).addr
  have h2 := h1.trans (Near.swapOut a (by simpa [Vmm.unlist] using hc) (by simp [Vmm.unlist]))
  exact h2.trans (setCtx c p _ _ _)

end Near

section Effects

variable {γ : Type}

section

variable (s : State γ)

section

variable (c p : ℕ)

theorem sample_page : (sample s c p).page p =
    ((s.page p).setProt (protOf (s.pte c (s.page p).addr))).setAge
      (nextAge (protOf (s.pte c (s.page p).addr)).touched (s.page p).age) := by
  simp [sample, queryPageInfo]

theorem promote_ctx (c r : ℕ) : (promote s c r).ctx c =
    (s.ctx c).setLists ((s.ctx c).workingSet ++ [r]) (s.ctx c).referenced.dropLast :=
  update_self ..

theorem refill_ctx : (refill s c p).ctx c =
    ((s.ctx c).setLists ((s.ctx c).workingSet ++ [p]) ((s.ctx c).referenced.erase p)).setSize
      (u64 ((s.ctx c).size + (s.page p).bytes)) :=
  update_self ..

theorem promote_page (c r : ℕ) : (promote s c r).page r =
    (s.page r).setWorkingSets (((s.page r).workingSets + 1) % 65536) :=
  update_self ..

theorem refill_page : (refill s c p).page p =
    ((s.page p).setWorkingSets (((s.page p).workingSets + 1) % 65536)).setAge
      ((s.page p).age * 2 % 256) :=
  update_self ..

theorem leave_ctx : (leave s c p).ctx c =
    (s.ctx c).setLists ((s.ctx c).workingSet.erase p) (s.ctx c).referenced :=
  update_self ..

theorem leave_page : (leave s c p).page p =
    (s.page p).setWorkingSets (((s.page p).workingSets + 65535) % 65536) :=
  update_self ..

theorem unlist_ctx : (unlist s c p).ctx c =
    (s.ctx c).setLists (s.ctx c).workingSet ((s.ctx c).referenced.erase p) :=
  update_self ..

theorem unlist_page : (unlist s c p).page p =
    (s.page p).setAge ((s.page p).age * 2 % 256) :=
  update_self ..

end

theorem addPaged_ctx (c n : ℕ) : (addPaged s c n).ctx c =
    (s.ctx c).setStat { (s.ctx c).stat with paged := u64 ((s.ctx c).stat.paged + n) } :=
  update_self ..

end

variable [Inhabited γ]

theorem expel_eq (s : State γ) (c p : ℕ) (a : OutAnswers γ) : expel s c p a =
    addPaged (swapOut (unlist s c p) p a).1 c ((swapOut (unlist s c p) p a).1.page p).bytes := rfl

theorem evict_ctx (s : State γ) (c p : ℕ) (a : OutAnswers γ) : ∃ st, (evict s c p a).ctx c =
    ((s.ctx c).setLists ((s.ctx c).workingSet.erase p) (s.ctx c).referenced).setStat st := by
  refine evict_cases (P := fun t => ∃ st, t.ctx c = ((s.ctx c).setLists
    ((s.ctx c).workingSet.erase p) (s.ctx c).referenced).setStat st) (fun _ => ?_) ?_ ?_
  · exact ⟨(s.ctx c).stat, leave_ctx s c p⟩
  · rw [(swapOut_touches _ p a).ctx]
    exact ⟨(s.ctx c).stat, leave_ctx s c p⟩
  · rintro t n ⟨st, h⟩
    exact ⟨_, (addPaged_ctx ..).trans (by rw [h]; rfl)⟩

theorem expel_ctx (s : State γ) (c p : ℕ) (a : OutAnswers γ) : ∃ st, (expel s c p a).ctx c =
    ((s.ctx c).setLists (s.ctx c).workingSet ((s.ctx c).referenced.erase p)).setStat st := by
  have h2 : (swapOut (unlist s c p) p a).1.ctx c = (unlist s c p).ctx c := by
    rw [(swapOut_touches _ p a).ctx]
  rw [expel_eq]
  generalize swapOut (unlist s c p) p a = r at h2 ⊢
  exact ⟨_, (addPaged_ctx ..).trans (by rw [h2, unlist_ctx])⟩

/-- Apart from its count of working sets, and with a fresh id, the page can be swapped
out. -/
structure Leaves (s : State γ) (p dev : ℕ) (a : OutAnswers γ) : Prop where
  provider : s.swapProvider = some dev
  reserved : (s.page p).reserved = false
  pageable : (s.page p).pageable = true
  query : a.query = .success
  resv : a.resv = .success
  write : a.write = .success
  unmap : a.unmap = .success
  freePhys : getPagePhysicalAddress s (s.page p).addr ≠ 0 → a.freePhys = .success

/-- The page is paged out under the id that it was given. -/
structure PagedOut (s : State γ) (p : ℕ) (a : OutAnswers γ) : Prop where
  pagedOut : (s.page p).pagedOut = true
  swapId : (s.page p).swapId = a.id
  saved : ∃ dev data, s.swapProvider = some dev ∧ s.device dev a.id = some data

theorem swapOut_pagedOut_of_ok {s : State γ} {p dev : ℕ} {a : OutAnswers γ} (h : OutOk s p dev a) :
    PagedOut (swapOut s p a).1 p a := by
  have hprov := (swapOut_touches s p a).swapProvider
  rw [swapOut_of_ok h] at hprov ⊢
  refine ⟨?_, ?_, dev, s.read (getPagePhysicalAddress s (s.page p).addr) (s.page p).nPages,
    hprov.trans h.provider, ?_⟩
  · rw [swappedOut_page, update_self]
    rfl
  · rw [swappedOut_page, update_self]
    rfl
  · rw [swappedOut_device, State.setReservation_device, if_pos ⟨rfl, rfl⟩]

omit [Inhabited γ] in
/-- A page node that differs in its count of working sets and its age only can be
swapped out under the same conditions. -/
theorem outOk_iff_leaves {s t : State γ} {p : ℕ} {a : OutAnswers γ}
    (hres : (t.page p).reserved = (s.page p).reserved)
    (hpg : (t.page p).pageable = (s.page p).pageable) (haddr : (t.page p).addr = (s.page p).addr)
    (hprov : t.swapProvider = s.swapProvider) (hpte : t.pte = s.pte) (hcur : t.current = s.current)
    (hdev : t.device = s.device)
    (hfresh : ∀ dev, s.swapProvider = some dev → s.device dev a.id = none) :
    (∃ dev, OutOk t p dev a) ↔ (t.page p).workingSets = 0 ∧ ∃ dev, Leaves s p dev a := by
  have hphys : getPagePhysicalAddress t (t.page p).addr =
      getPagePhysicalAddress s (s.page p).addr := by
    rw [getPagePhysicalAddress, getPagePhysicalAddress, hpte, hcur, haddr]
  constructor
  · rintro ⟨dev, h⟩
    exact ⟨h.workingSets, dev, hprov ▸ h.provider, hres ▸ h.reserved, hpg ▸ h.pageable, h.query,
      h.resv, h.write, h.unmap, hphys ▸ h.freePhys⟩
  · rintro ⟨hw, dev, h⟩
    exact ⟨dev, hprov.trans h.provider, hres.trans h.reserved, hpg.trans h.pageable, hw, h.query,
      h.resv, by rw [hdev]; exact hfresh dev h.provider, h.write, h.unmap, hphys ▸ h.freePhys⟩

variable (s : State γ)

variable (c p : ℕ)

variable (a : OutAnswers γ)

section

variable (hfresh : ∀ dev, s.swapProvider = some dev → s.device dev a.id = none)
include hfresh

omit [Inhabited γ] in
theorem leave_outOk_iff :
    (∃ dev, OutOk (leave s c p) p dev a) ↔
      ((s.page p).workingSets + 65535) % 65536 = 0 ∧ ∃ dev, Leaves s p dev a := by
  have h := leave_page s c p
  have hw : ((leave s c p).page p).workingSets = ((s.page p).workingSets + 65535) % 65536 := by
    rw [h]
    rfl
  rw [← hw]
  exact outOk_iff_leaves (by rw [h, Page.setWorkingSets_reserved])
    (by rw [h, Page.setWorkingSets_pageable]) (by rw [h, Page.setWorkingSets_addr]) rfl rfl rfl rfl
    hfresh

omit [Inhabited γ] in
theorem unlist_outOk_iff :
    (∃ dev, OutOk (unlist s c p) p dev a) ↔
      (s.page p).workingSets = 0 ∧ ∃ dev, Leaves s p dev a := by
  have h := unlist_page s c p
  have hw : ((unlist s c p).page p).workingSets = (s.page p).workingSets := by
    rw [h]
    rfl
  rw [← hw]
  exact outOk_iff_leaves (by rw [h]; rfl) (by rw [h]; rfl) (by rw [h]; rfl) rfl rfl rfl rfl hfresh

/-- What becomes of a page that leaves the working set. -/
theorem evict_spec :
    (((s.page p).workingSets + 65535) % 65536 = 0 ∧ (∃ dev, Leaves s p dev a) →
      PagedOut (evict s c p a) p a) ∧
    (¬ (((s.page p).workingSets + 65535) % 65536 = 0 ∧ ∃ dev, Leaves s p dev a) →
      ((evict s c p a).page p).pagedOut = (s.page p).pagedOut) := by
  have hok := leave_outOk_iff s c p a hfresh
  have hsame : ((leave s c p).page p).pagedOut = (s.page p).pagedOut := by
    rw [leave_page, Page.setWorkingSets_pagedOut]
  constructor
  · intro h
    obtain ⟨dev, ho⟩ := hok.mpr h
    exact evict_cases (P := fun u => PagedOut u p a) (fun hno => absurd ho.workingSets hno)
      (swapOut_pagedOut_of_ok ho) fun t n h => ⟨h.pagedOut, h.swapId, h.saved⟩
  · intro hno
    have hout := (swapOut_pagedOut fun dev h => hno (hok.mp ⟨dev, h⟩)).trans hsame
    exact evict_cases (P := fun u => (u.page p).pagedOut = _) (fun _ => hsame) hout fun _ _ h => h

/-- What becomes of a referenced page that finds no room. -/
theorem expel_spec :
    ((s.page p).workingSets = 0 ∧ (∃ dev, Leaves s p dev a) → PagedOut (expel s c p a) p a) ∧
    (¬ ((s.page p).workingSets = 0 ∧ ∃ dev, Leaves s p dev a) →
      ((expel s c p a).page p).pagedOut = (s.page p).pagedOut) := by
  have hok := unlist_outOk_iff s c p a hfresh
  constructor
  · intro h
    obtain ⟨dev, ho⟩ := hok.mpr h
    have hout := swapOut_pagedOut_of_ok ho
    exact ⟨hout.pagedOut, hout.swapId, hout.saved⟩
  · intro hno
    have hout := swapOut_pagedOut fun dev h => hno (hok.mp ⟨dev, h⟩)
    exact hout.trans (by rw [unlist_page]; rfl)

end

/-- Of the protection, giving up a page writes the present bit only. -/
theorem evict_prot : ∃ b,
    ((evict s c p a).page p).prot = { (s.page p).prot with present := b } := by
  refine evict_cases (P := fun t => ∃ b, (t.page p).prot = { (s.page p).prot with present := b })
    (fun _ => ⟨(s.page p).prot.present, by rw [leave_page]; rfl⟩) ?_ fun _ _ h => h
  obtain ⟨b, id, o, h⟩ := swapOut_page (leave s c p) p a
  exact ⟨b, by rw [h, leave_page]; rfl⟩

theorem expel_prot : ∃ b,
    ((expel s c p a).page p).prot = { (s.page p).prot with present := b } := by
  obtain ⟨b, id, o, h⟩ := swapOut_page (unlist s c p) p a
  refine ⟨b, ?_⟩
  rw [expel_eq]
  change ((swapOut (unlist s c p) p a).1.page p).prot = _
  rw [h, unlist_page]
  rfl

theorem evict_bytes :
    ((evict s c p a).page p).bytes = (s.page p).bytes := by
  obtain ⟨b, h⟩ := evict_prot s c p a
  rw [Page.bytes, h, Page.bytes]

/-- The reservations of other pages stay. -/
theorem evict_device (dev : ℕ) {id : ℕ} (hid : id ≠ a.id) :
    (evict s c p a).device dev id = s.device dev id :=
  evict_cases (P := fun t => t.device dev id = _) (fun _ => rfl) (swapOut_device _ p a hid)
    fun _ _ h => h

theorem expel_device (dev : ℕ) {id : ℕ} (hid : id ≠ a.id) :
    (expel s c p a).device dev id = s.device dev id :=
  swapOut_device _ p a hid

end Effects

/-! ### The call makes the choice -/

section Simulation

variable {γ : Type}

/-- The pages on the two lists. -/
def State.listed (s : State γ) (c : ℕ) : List ℕ := (s.ctx c).workingSet ++ (s.ctx c).referenced

/-- The lists hold pages of the context, each once, at different addresses. -/
structure ListsOk (s : State γ) (c : ℕ) : Prop where
  nodup : (s.listed c).Nodup
  owner : ∀ p ∈ s.listed c, (s.page p).owner = c
  addr : ∀ p ∈ s.listed c, ∀ q ∈ s.listed c, (s.page p).addr = (s.page q).addr → p = q
  count : ∀ p ∈ s.listed c, (s.page p).workingSets < 65536

/-- The ids that the device gives out for these pages are not in use, and distinct. -/
structure IdsOk (s : State γ) (c : ℕ) (ans : ℕ → OutAnswers γ) : Prop where
  fresh : ∀ dev, s.swapProvider = some dev → ∀ p ∈ s.listed c, s.device dev (ans p).id = none
  inj : ∀ p ∈ s.listed c, ∀ q ∈ s.listed c, (ans p).id = (ans q).id → p = q

/-- A page that is given up is swapped out: it is counted in the working sets that it is
on, and its `Mm_SwapOut` goes through. -/
def GoesOut (s : State γ) (c : ℕ) (ans : ℕ → OutAnswers γ) (p : ℕ) : Prop :=
  (s.page p).workingSets = (if p ∈ (s.ctx c).workingSet then 1 else 0) ∧
    ∃ dev, Leaves s p dev (ans p)

/-- The read-only, cache-disable, writable, user and executable bits. -/
def Prot.attributes (pr : Prot) : Prot :=
  { pr with present := false, touched := false, hugePage := false }

/-- A page that the call has not looked at yet. -/
structure Pending (s₀ s : State γ) (c p w : ℕ) : Prop where
  page : s.page p = (s₀.page p).setWorkingSets w
  pte : s.pte c (s₀.page p).addr = s₀.pte c (s₀.page p).addr

theorem Pending.addr {s₀ s : State γ} {c p w : ℕ} (h : Pending s₀ s c p w) :
    (s.page p).addr = (s₀.page p).addr := by
  rw [h.page]
  rfl

theorem Pending.pte_eq {s₀ s : State γ} {c p w : ℕ} (h : Pending s₀ s c p w) :
    s.pte c (s.page p).addr = s₀.pte c (s₀.page p).addr := by
  rw [h.addr, h.pte]

/-- The count of working sets of a page that is waiting on the working set. -/
def countOn (s₀ : State γ) (c p : ℕ) : ℕ :=
  if p ∈ (s₀.ctx c).workingSet then (s₀.page p).workingSets
  else ((s₀.page p).workingSets + 1) % 65536

/-- The state `s` of the call that started in `s₀`, when the choice is at `x` and the
cursor at `rest`. -/
structure Sim (s₀ : State γ) (c : ℕ) (ans : ℕ → OutAnswers γ) (s : State γ) (rest : List ℕ)
    (x : Choice) : Prop where
  ws : (s.ctx c).workingSet = x.ws
  refs : (s.ctx c).referenced = x.refs
  capacity : (s.ctx c).capacity = (s₀.ctx c).capacity
  provider : s.swapProvider = s₀.swapProvider
  current : s.current = s₀.current
  pte : ∀ c' ≠ c, s.pte c' = s₀.pte c'
  perm : (x.ws ++ x.refs ++ x.evicted).Perm (s₀.listed c)
  rest_mem : ∀ q ∈ rest, q ∈ x.ws
  rest_nodup : rest.Nodup
  refs_old : ∀ q ∈ x.refs, q ∉ (s₀.ctx c).workingSet
  on_ws : ∀ q ∈ rest, Pending s₀ s c q (countOn s₀ c q)
  on_refs : ∀ q ∈ x.refs, Pending s₀ s c q (s₀.page q).workingSets
  kept : ∀ q ∈ x.ws, (s.page q).pagedOut = (s₀.page q).pagedOut
  /-- A page has the attributes that it had, or those that its entry shows. -/
  shown : ∀ q, (s.page q).prot.attributes = (s₀.page q).prot.attributes ∨ q ∈ s₀.listed c ∧
    (s.page q).prot.attributes = (protOf (s₀.pte c (s₀.page q).addr)).attributes
  gone : ∀ q ∈ x.evicted, (GoesOut s₀ c ans q → PagedOut s q (ans q)) ∧
    (¬ GoesOut s₀ c ans q → (s.page q).pagedOut = (s₀.page q).pagedOut)
  device : ∀ dev id, (∀ q ∈ x.evicted, id ≠ (ans q).id) → s.device dev id = s₀.device dev id

namespace Sim

variable {s₀ s t : State γ} {c p : ℕ} {ans : ℕ → OutAnswers γ} {rest : List ℕ} {x : Choice}

theorem start (h : ListsOk s₀ c) :
    Sim s₀ c ans s₀ (s₀.ctx c).workingSet ⟨(s₀.ctx c).workingSet, (s₀.ctx c).referenced, [], 0⟩ := by
  have hnd := h.nodup
  rw [State.listed, nodup_append] at hnd
  refine ⟨rfl, rfl, rfl, rfl, rfl, fun _ _ => rfl, ?_, fun q hq => hq, hnd.1, ?_, ?_, ?_,
    fun _ _ => rfl, fun _ => .inl rfl, nofun, fun _ _ _ => rfl⟩
  · rw [append_nil]
    exact List.Perm.refl _
  · intro q hq hw
    exact hnd.2.2 q hw q hq rfl
  · intro q hq
    exact ⟨by rw [countOn, if_pos hq]; rfl, rfl⟩
  · intro q hq
    exact ⟨rfl, rfl⟩

section

variable (h : Sim s₀ c ans s rest x)
include h

theorem listed_ws {q : ℕ} (hq : q ∈ x.ws) : q ∈ s₀.listed c :=
  h.perm.mem_iff.mp (mem_append_left _ (mem_append_left _ hq))

theorem listed_refs {q : ℕ} (hq : q ∈ x.refs) : q ∈ s₀.listed c :=
  h.perm.mem_iff.mp (mem_append_left _ (mem_append_right _ hq))

theorem listed_evicted {q : ℕ} (hq : q ∈ x.evicted) :
    q ∈ s₀.listed c :=
  h.perm.mem_iff.mp (mem_append_right _ hq)

/-- The three parts are apart. -/
theorem parts (hl : ListsOk s₀ c) :
    x.ws.Nodup ∧ x.refs.Nodup ∧ x.evicted.Nodup ∧ (∀ q ∈ x.ws, q ∉ x.refs) ∧
      (∀ q ∈ x.ws, q ∉ x.evicted) ∧ ∀ q ∈ x.refs, q ∉ x.evicted := by
  have hnd := h.perm.nodup_iff.mpr hl.nodup
  rw [nodup_append, nodup_append] at hnd
  obtain ⟨⟨h1, h2, h3⟩, h4, h5⟩ := hnd
  exact ⟨h1, h2, h4, fun q hq hr => h3 q hq q hr rfl,
    fun q hq hr => h5 q (mem_append_left _ hq) q hr rfl,
    fun q hq hr => h5 q (mem_append_right _ hq) q hr rfl⟩

/-- A page that waits can be swapped out under the conditions of the start. -/
theorem leaves_iff {w : ℕ} (hp : Pending s₀ s c p w) {dev : ℕ}
    {a : OutAnswers γ} {u : State γ} (hprov : u.swapProvider = s.swapProvider)
    (hcur : u.current = s.current) (hres : (u.page p).reserved = (s.page p).reserved)
    (hpg : (u.page p).pageable = (s.page p).pageable) (haddr : (u.page p).addr = (s.page p).addr)
    (hphys : ∀ c', (u.pte c' (s.page p).addr).map Pte.phys = (s.pte c' (s.page p).addr).map Pte.phys) :
    Leaves u p dev a ↔ Leaves s₀ p dev a := by
  have hr : (s.page p).reserved = (s₀.page p).reserved := by
    rw [hp.page]
    rfl
  have hb : (s.page p).pageable = (s₀.page p).pageable := by
    rw [hp.page]
    rfl
  have hget : getPagePhysicalAddress u (u.page p).addr =
      getPagePhysicalAddress s₀ (s₀.page p).addr := by
    rw [getPagePhysicalAddress, getPagePhysicalAddress, haddr, hcur, hphys, h.current, hp.addr]
    by_cases hc : s₀.current = c
    · rw [hc, hp.pte]
    · rw [h.pte _ hc]
  constructor
  · intro hl
    exact ⟨(hprov.trans h.provider) ▸ hl.provider, (hres.trans hr) ▸ hl.reserved,
      (hpg.trans hb) ▸ hl.pageable, hl.query, hl.resv, hl.write, hl.unmap, hget ▸ hl.freePhys⟩
  · intro hl
    exact ⟨(hprov.trans h.provider).trans hl.provider, (hres.trans hr).trans hl.reserved,
      (hpg.trans hb).trans hl.pageable, hl.query, hl.resv, hl.write, hl.unmap, hget ▸ hl.freePhys⟩

end

/-- A step at the page `p`: what has to be shown of `p` and of the lists. -/
theorem step {rest' : List ℕ} {x' : Choice} (h : Sim s₀ c ans s rest x) (hl : ListsOk s₀ c)
    (hi : IdsOk s₀ c ans) (hp : p ∈ s₀.listed c) (hn : Near c p (s₀.page p).addr s t)
    (hws : (t.ctx c).workingSet = x'.ws) (hrefs : (t.ctx c).referenced = x'.refs)
    (hcap : (t.ctx c).capacity = (s.ctx c).capacity)
    (hperm : (x'.ws ++ x'.refs ++ x'.evicted).Perm (x.ws ++ x.refs ++ x.evicted))
    (hrest_mem : ∀ q ∈ rest', q ∈ x'.ws) (hrest_nd : rest'.Nodup)
    (hon_refs : ∀ q ∈ x'.refs, q ∈ x.refs ∧ q ≠ p)
    (hon_ws : ∀ q ∈ rest', q ≠ p → q ∈ rest) (hon_wsp : p ∈ rest' → Pending s₀ t c p (countOn s₀ c p))
    (hkept : ∀ q ∈ x'.ws, q ≠ p → q ∈ x.ws)
    (hkeptp : p ∈ x'.ws → (t.page p).pagedOut = (s₀.page p).pagedOut)
    (hshown : (t.page p).prot.attributes = (s.page p).prot.attributes ∨
      (t.page p).prot.attributes = (protOf (s₀.pte c (s₀.page p).addr)).attributes)
    (hev : ∀ q ∈ x.evicted, q ∈ x'.evicted) (hgone : ∀ q ∈ x'.evicted, q ≠ p → q ∈ x.evicted)
    (hgonep : p ∈ x'.evicted → (GoesOut s₀ c ans p → PagedOut t p (ans p)) ∧
      (¬ GoesOut s₀ c ans p → (t.page p).pagedOut = (s₀.page p).pagedOut))
    (hdev : ∀ dev id, (p ∈ x'.evicted → id ≠ (ans p).id) → t.device dev id = s.device dev id) :
    Sim s₀ c ans t rest' x' := by
  have hperm' := hperm.trans h.perm
  have hmem : ∀ q, q ∈ x'.ws ∨ q ∈ x'.refs ∨ q ∈ x'.evicted → q ∈ s₀.listed c := by
    intro q hq
    refine hperm'.mem_iff.mp ?_
    simpa only [mem_append, or_assoc] using hq
  -- a page that waits and is not `p` is still as it was
  have hpend : ∀ q ∈ s₀.listed c, q ≠ p → ∀ w, Pending s₀ s c q w → Pending s₀ t c q w := by
    intro q hq hqp w hw
    refine ⟨(hn.page q hqp).trans hw.page, (hn.pte c _ (.inr fun e => ?_)).trans hw.pte⟩
    exact hqp (hl.addr q hq p hp e)
  refine ⟨hws, hrefs, hcap.trans h.capacity, hn.swapProvider.trans h.provider,
    hn.current.trans h.current, ?_, hperm', hrest_mem, hrest_nd, ?_, ?_, ?_, ?_, ?_, ?_, ?_⟩
  · intro c' hc
    funext addr
    rw [hn.pte c' addr (.inl hc), h.pte c' hc]
  · exact fun q hq => h.refs_old q (hon_refs q hq).1
  · intro q hq
    by_cases hqp : q = p
    · subst hqp
      exact hon_wsp hq
    · exact hpend q (hmem q (.inl (hrest_mem q hq))) hqp _ (h.on_ws q (hon_ws q hq hqp))
  · intro q hq
    exact hpend q (hmem q (.inr (.inl hq))) (hon_refs q hq).2 _ (h.on_refs q (hon_refs q hq).1)
  · intro q hq
    by_cases hqp : q = p
    · subst hqp
      exact hkeptp hq
    · rw [hn.page q hqp]
      exact h.kept q (hkept q hq hqp)
  · intro q
    by_cases hqp : q = p
    · subst hqp
      rcases hshown with hs | hs
      · rw [hs]
        exact h.shown q
      · exact .inr ⟨hp, hs⟩
    · rw [hn.page q hqp]
      exact h.shown q
  · intro q hq
    by_cases hqp : q = p
    · subst hqp
      exact hgonep hq
    · obtain ⟨h1, h2⟩ := h.gone q (hgone q hq hqp)
      rw [hn.page q hqp]
      refine ⟨fun hg => ?_, h2⟩
      obtain ⟨ho, hid, dev, data, hdv, hda⟩ := h1 hg
      refine ⟨by rw [hn.page q hqp]; exact ho, by rw [hn.page q hqp]; exact hid, dev, data,
        hn.swapProvider.trans hdv, ?_⟩
      rw [hdev dev _ fun _ e => hqp (hi.inj q (hmem q (.inr (.inr hq))) p hp e)]
      exact hda
  · intro dev id hid
    rw [hdev dev id fun he => hid p he]
    exact h.device dev id fun q hq => hid q (hev q hq)

theorem of_mem_erase_refs (h : Sim s₀ c ans s rest x) (hl : ListsOk s₀ c) :
    ∀ q ∈ x.refs.erase p, q ∈ x.refs ∧ q ≠ p :=
  fun _ hq => ((h.parts hl).2.1.mem_erase_iff.mp hq).symm

theorem mem_of_concat {l : List ℕ} {q : ℕ} (hq : q ∈ l ++ [p]) (hne : q ≠ p) : q ∈ l :=
  (mem_append.mp hq).resolve_right fun h => hne (mem_singleton.mp h)

variable {v : Sampling}

/-- The page at the cursor gets the attributes of its entry. -/
theorem sample_attributes (h : Sim s₀ c ans s (p :: rest) x) :
    ((sample s c p).page p).prot.attributes =
      (protOf (s₀.pte c (s₀.page p).addr)).attributes := by
  have hpend := h.on_ws p mem_cons_self
  rw [sample_page, hpend.pte_eq]
  rfl

/-- The page at the cursor is sampled and stays. -/
theorem keep (h : Sim s₀ c ans s (p :: rest) x) (hl : ListsOk s₀ c) (hi : IdsOk s₀ c ans) :
    Sim s₀ c ans (sample s c p) rest x := by
  have hp := h.rest_mem p mem_cons_self
  have hpend := h.on_ws p mem_cons_self
  obtain ⟨hpr, hnd⟩ := nodup_cons.mp h.rest_nodup
  obtain ⟨-, -, -, hwr, hwe, -⟩ := h.parts hl
  have hn := Near.sample s c p
  rw [hpend.addr] at hn
  refine h.step hl hi (h.listed_ws hp) hn h.ws h.refs rfl (List.Perm.refl _)
    (fun q hq => h.rest_mem q (mem_cons_of_mem p hq)) hnd ?_
    (fun q hq _ => mem_cons_of_mem p hq) (fun hr => absurd hr hpr) (fun q hq _ => hq) ?_
    (.inr h.sample_attributes) (fun q hq => hq) (fun q hq _ => hq) (fun he => absurd he (hwe p hp))
    fun _ _ _ => rfl
  · exact fun q hq => ⟨hq, fun he => hwr p hp (he ▸ hq)⟩
  · intro _
    rw [← h.kept p hp]
    simp [sample, queryPageInfo]

/-- An id that was not used yet is fresh. -/
theorem fresh (h : Sim s₀ c ans s rest x) (hi : IdsOk s₀ c ans) (hp : p ∈ s₀.listed c)
    (he : p ∉ x.evicted) : ∀ dev, s.swapProvider = some dev → s.device dev (ans p).id = none := by
  intro dev hdev
  rw [h.device dev _ fun q hq e => ?_]
  · exact hi.fresh dev (h.provider ▸ hdev) p hp
  · exact he (hi.inj p hp q (h.listed_evicted hq) e ▸ hq)

theorem countOn_eq_zero_iff (hl : ListsOk s₀ c) (hp : p ∈ s₀.listed c) :
    (countOn s₀ c p + 65535) % 65536 = 0 ↔
      (s₀.page p).workingSets = if p ∈ (s₀.ctx c).workingSet then 1 else 0 := by
  have hlt := hl.count p hp
  unfold countOn
  split <;> omega

variable [Inhabited γ]

/-- The page at the cursor is sampled and evicted. -/
theorem evict (h : Sim s₀ c ans s (p :: rest) x) (hl : ListsOk s₀ c) (hi : IdsOk s₀ c ans) :
    Sim s₀ c ans (evict (sample s c p) c p (ans p)) rest (v.giveUp p x) := by
  have hp := h.rest_mem p mem_cons_self
  have hlist := h.listed_ws hp
  have hpend := h.on_ws p mem_cons_self
  obtain ⟨hpr, hnd⟩ := nodup_cons.mp h.rest_nodup
  obtain ⟨hwnd, -, -, hwr, hwe, -⟩ := h.parts hl
  have hpage := sample_page s c p
  have howner : ((sample s c p).page p).owner = c := by
    rw [hpage]
    exact (congrArg Page.owner hpend.page).trans (hl.owner p hlist)
  have haddr' : ((sample s c p).page p).addr = (s.page p).addr := by
    rw [hpage]
    rfl
  have hcount : ((sample s c p).page p).workingSets = countOn s₀ c p := by
    rw [hpage, hpend.page]
    rfl
  have hn := (Near.sample s c p).trans (haddr' ▸ Near.evict (ans p) howner)
  rw [hpend.addr] at hn
  obtain ⟨st, hctx⟩ := evict_ctx (sample s c p) c p (ans p)
  have hspec := evict_spec (sample s c p) c p (ans p)
    (h.fresh hi hlist (hwe p hp))
  have hgo : ((((sample s c p).page p).workingSets + 65535) % 65536 = 0 ∧
      ∃ dev, Leaves (sample s c p) p dev (ans p)) ↔ GoesOut s₀ c ans p := by
    rw [hcount, countOn_eq_zero_iff hl hlist, GoesOut]
    refine and_congr_right fun _ => exists_congr fun dev => ?_
    refine h.leaves_iff hpend rfl rfl ?_ ?_ haddr' ?_
    · rw [hpage]
      rfl
    · rw [hpage]
      rfl
    · intro c'
      by_cases hc : c' = c
      · subst hc
        simp only [sample, queryPageInfo, State.setPage_pte, State.setPte_pte, and_self, if_true,
          Option.map_map]
        rfl
      · rw [(Near.sample s c p).pte c' _ (.inl hc)]
  have hout : ((sample s c p).page p).pagedOut = (s₀.page p).pagedOut := by
    rw [hpage]
    exact h.kept p hp
  have hshown : ((Vmm.evict (sample s c p) c p (ans p)).page p).prot.attributes =
      (protOf (s₀.pte c (s₀.page p).addr)).attributes := by
    obtain ⟨b, hb⟩ := evict_prot (sample s c p) c p (ans p)
    rw [hb]
    exact h.sample_attributes
  refine h.step hl hi hlist hn ?_ ?_ ?_ ?_ ?_ hnd ?_ ?_ (fun hr => absurd hr hpr) ?_ ?_ (.inr hshown)
    ?_ ?_ ?_ ?_
  · rw [hctx]
    exact congrArg (·.erase p) h.ws
  · rw [hctx]
    exact h.refs
  · rw [hctx]
    rfl
  · -- the page has gone from the first part to the third
    have h1 : x.ws.Perm (p :: x.ws.erase p) := perm_cons_erase hp
    have h2 : (x.ws.erase p ++ x.refs ++ (x.evicted ++ [p])).Perm
        ((p :: x.ws.erase p) ++ x.refs ++ x.evicted) := by
      rw [← append_assoc]
      exact perm_append_singleton ..
    exact h2.trans ((h1.symm.append_right _).append_right _)
  · intro q hq
    refine (mem_erase_of_ne ?_).mpr (h.rest_mem q (mem_cons_of_mem p hq))
    rintro rfl
    exact hpr hq
  · exact fun q hq => ⟨hq, fun he => hwr p hp (he ▸ hq)⟩
  · exact fun q hq _ => mem_cons_of_mem p hq
  · exact fun q hq _ => mem_of_mem_erase hq
  · intro hq
    exact absurd hq (List.Nodup.not_mem_erase hwnd)
  · exact fun q hq => mem_append_left _ hq
  · exact fun q hq hqp => mem_of_concat hq hqp
  · intro _
    rw [← hgo, ← hout]
    exact hspec
  · intro dev id hid
    rw [evict_device _ c p (ans p) dev (hid (mem_append_right _ (mem_singleton_self p)))]
    rfl

omit [Inhabited γ] in
/-- The last referenced page enters the working set; the cursor will reach it if it has
not passed the last page. -/
theorem promote (h : Sim s₀ c ans s rest x) (hl : ListsOk s₀ c) (hi : IdsOk s₀ c ans) {r : ℕ}
    (hr : x.refs.getLast? = some r) :
    Sim s₀ c ans (promote s c r) (if rest.isEmpty then [] else rest ++ [r]) (v.replace r x) := by
  have hmem := mem_of_getLast? hr
  have hlist := h.listed_refs hmem
  have hpend := h.on_refs r hmem
  obtain ⟨hwnd, hrnd, -, hwr, -, hre⟩ := h.parts hl
  obtain ⟨ys, hys⟩ := List.getLast?_eq_some_iff.mp hr
  have hdrop : x.refs.dropLast = ys := by rw [hys, dropLast_concat]
  have hrys : r ∉ ys := by
    rw [hys, nodup_append] at hrnd
    exact fun hy => hrnd.2.2 r hy r (mem_singleton_self r) rfl
  have hrest : ∀ q ∈ (if rest.isEmpty then [] else rest ++ [r]), q ∈ rest ∨ q = r := by
    intro q hq
    split at hq
    · cases hq
    · rcases mem_append.mp hq with hq | hq
      · exact .inl hq
      · exact .inr (mem_singleton.mp hq)
  refine h.step hl hi hlist (Near.promote s c r _) ?_ ?_ ?_ ?_ ?_ ?_ ?_ ?_ ?_ ?_ ?_
    (.inl (by rw [promote_page]; rfl)) (fun q hq => hq) (fun q hq _ => hq) (fun he => absurd he (hre r hmem)) fun _ _ _ => rfl
  · rw [promote_ctx]
    exact congrArg (· ++ [r]) h.ws
  · rw [promote_ctx]
    exact congrArg dropLast h.refs
  · rw [promote_ctx]
    rfl
  · -- the page has gone from the second part to the first
    refine List.Perm.append_right _ ?_
    change ((x.ws ++ [r]) ++ x.refs.dropLast).Perm (x.ws ++ x.refs)
    rw [hdrop, hys, append_assoc]
    exact (perm_append_comm ..).append_left _
  · intro q hq
    rcases hrest q hq with hq | rfl
    · exact mem_append_left _ (h.rest_mem q hq)
    · exact mem_append_right _ (mem_singleton_self q)
  · split
    · exact nodup_nil
    · refine List.Nodup.append h.rest_nodup (nodup_singleton r) ?_
      rw [disjoint_singleton]
      exact fun hq => hwr r (h.rest_mem r hq) hmem
  · intro q hq
    change q ∈ x.refs.dropLast at hq
    rw [hdrop] at hq
    refine ⟨hys ▸ mem_append_left _ hq, ?_⟩
    rintro rfl
    exact hrys hq
  · exact fun q hq hqr => (hrest q hq).resolve_right hqr
  · intro _
    refine ⟨?_, hpend.pte⟩
    rw [promote_page, hpend.page, countOn, if_neg (h.refs_old r hmem)]
    rfl
  · exact fun q hq hqr => mem_of_concat hq hqr
  · intro _
    rw [promote_page, hpend.page]
    rfl

omit [Inhabited γ] in
/-- The second loop takes a referenced page into the working set. -/
theorem refill (h : Sim s₀ c ans s [] x) (hl : ListsOk s₀ c) (hi : IdsOk s₀ c ans)
    (hp : p ∈ x.refs) :
    Sim s₀ c ans (refill s c p) [] { x with ws := x.ws ++ [p], refs := x.refs.erase p } := by
  have hpend := h.on_refs p hp
  obtain ⟨-, -, -, -, -, hre⟩ := h.parts hl
  refine h.step hl hi (h.listed_refs hp) (Near.refill s c p _) ?_ ?_ ?_ ?_ nofun nodup_nil
    (h.of_mem_erase_refs hl) nofun nofun (fun q hq hqp => mem_of_concat hq hqp) ?_
    (.inl (by rw [refill_page]; rfl)) (fun q hq => hq) (fun q hq _ => hq)
    (fun he => absurd he (hre p hp)) fun _ _ _ => rfl
  · rw [refill_ctx]
    exact congrArg (· ++ [p]) h.ws
  · rw [refill_ctx]
    exact congrArg (·.erase p) h.refs
  · rw [refill_ctx]
    rfl
  · refine List.Perm.append_right _ ?_
    rw [append_assoc]
    exact (perm_cons_erase hp).symm.append_left _
  · intro _
    rw [refill_page, hpend.page]
    rfl

/-- The second loop gives up a referenced page. -/
theorem expel (h : Sim s₀ c ans s [] x) (hl : ListsOk s₀ c) (hi : IdsOk s₀ c ans)
    (hp : p ∈ x.refs) :
    Sim s₀ c ans (expel s c p (ans p)) []
      { x with refs := x.refs.erase p, evicted := x.evicted ++ [p] } := by
  have hlist := h.listed_refs hp
  have hpend := h.on_refs p hp
  obtain ⟨-, -, -, hwr, -, hre⟩ := h.parts hl
  have howner : (s.page p).owner = c := by
    rw [hpend.page]
    exact hl.owner p hlist
  have hn := Near.expel (ans p) howner
  rw [hpend.addr] at hn
  obtain ⟨st, hctx⟩ := expel_ctx s c p (ans p)
  have hspec := expel_spec s c p (ans p) (h.fresh hi hlist (hre p hp))
  have hgo : ((s.page p).workingSets = 0 ∧ ∃ dev, Leaves s p dev (ans p)) ↔
      GoesOut s₀ c ans p := by
    rw [GoesOut, if_neg (h.refs_old p hp), hpend.page, Page.setWorkingSets_workingSets]
    exact and_congr_right fun _ => exists_congr fun dev =>
      h.leaves_iff hpend rfl rfl rfl rfl rfl fun _ => rfl
  have hout : (s.page p).pagedOut = (s₀.page p).pagedOut := by
    rw [hpend.page]
    rfl
  have hshown : ((Vmm.expel s c p (ans p)).page p).prot.attributes = (s.page p).prot.attributes := by
    obtain ⟨b, hb⟩ := expel_prot s c p (ans p)
    rw [hb]
    rfl
  refine h.step hl hi hlist hn ?_ ?_ ?_ ?_ nofun nodup_nil (h.of_mem_erase_refs hl) nofun nofun
    (fun q hq _ => hq) (fun hq => absurd hp (hwr p hq)) (.inl hshown)
    (fun q hq => mem_append_left _ hq) (fun q hq hqp => mem_of_concat hq hqp) ?_ ?_
  · rw [hctx]
    exact h.ws
  · rw [hctx]
    exact congrArg (·.erase p) h.refs
  · rw [hctx]
    rfl
  · -- the page has gone from the second part to the third
    have h1 : x.refs.Perm (p :: x.refs.erase p) := perm_cons_erase hp
    have h2 : (x.ws ++ x.refs.erase p ++ (x.evicted ++ [p])).Perm
        (x.ws ++ (p :: x.refs.erase p) ++ x.evicted) := by
      rw [← append_assoc]
      refine (perm_append_singleton ..).trans ?_
      rw [append_assoc, append_assoc]
      exact perm_middle.symm
    exact h2.trans ((h1.symm.append_left _).append_right _)
  · intro _
    rw [← hgo, ← hout]
    exact hspec
  · intro dev id hid
    exact expel_device s c p (ans p) dev (hid (mem_append_right _ (mem_singleton_self p)))

omit [Inhabited γ] in
/-- The cursor is dropped at the end of the first loop, where the size is written. -/
theorem setSize (h : Sim s₀ c ans s rest x) (n : ℕ) :
    Sim s₀ c ans (s.setCtx c ((s.ctx c).setSize n)) [] x := by
  have hctx : (s.setCtx c ((s.ctx c).setSize n)).ctx c = (s.ctx c).setSize n :=
    update_self ..
  exact ⟨by rw [hctx]; exact h.ws, by rw [hctx]; exact h.refs, by rw [hctx]; exact h.capacity,
    h.provider, h.current, h.pte, h.perm, nofun, nodup_nil, h.refs_old, nofun,
    fun q hq => ⟨(h.on_refs q hq).page, (h.on_refs q hq).pte⟩, h.kept, h.shown,
    fun q hq => ⟨fun hg => let ho := (h.gone q hq).1 hg
      ⟨ho.pagedOut, ho.swapId, ho.saved⟩, (h.gone q hq).2⟩, h.device⟩

omit [Inhabited γ] in
theorem sample_age (h : Sim s₀ c ans s (p :: rest) x) :
    ((Vmm.sample s c p).page p).age ≠ 0 ↔ (s₀.sampling c).dead p = false := by
  have hpend := h.on_ws p mem_cons_self
  rw [sample_page, hpend.pte_eq, hpend.page]
  exact (decide_eq_false_iff_not ..).symm

theorem evict_bytes (h : Sim s₀ c ans s (p :: rest) x) (a : OutAnswers γ) :
    ((Vmm.evict (sample s c p) c p a).page p).bytes = (s₀.sampling c).queried p := by
  rw [Vmm.evict_bytes, sample_page, (h.on_ws p mem_cons_self).pte_eq]
  rfl

omit [Inhabited γ] in
theorem refs_bytes (h : Sim s₀ c ans s rest x) (hp : p ∈ x.refs) :
    (s.page p).bytes = (s₀.sampling c).bytes p := by
  rw [(h.on_refs p hp).page]
  rfl

/-- The first loop. -/
theorem ageLoop (hl : ListsOk s₀ c) (hi : IdsOk s₀ c ans) :
    ∀ (n : ℕ) (rest : List ℕ) (s : State γ) (x : Choice) (t : State γ) (d : ℤ),
      Sim s₀ c ans s rest x → (s.ctx c).size = (s₀.ctx c).size →
      Vmm.ageLoop c ans n rest s x.delta = some (t, d) →
      ∃ rest' y, y = (s₀.sampling c).age (s₀.ctx c).capacity (s₀.ctx c).size n rest x ∧
        Sim s₀ c ans t rest' y ∧ d = y.delta ∧ (t.ctx c).size = (s₀.ctx c).size := by
  intro n
  induction n with
  | zero =>
    rintro rest s x t d h hs ⟨⟩
    exact ⟨rest, x, rfl, h, rfl, hs⟩
  | succ n ih =>
    intro rest s x t d h hs he
    cases rest with
    | nil =>
      cases he
      exact ⟨[], x, rfl, h, rfl, hs⟩
    | cons p rest =>
      rw [Sampling.age]
      rw [Vmm.ageLoop] at he
      by_cases hpo : (s.page p).pagedOut = true
      · rw [if_pos hpo] at he
        cases he
      rw [if_neg hpo] at he
      have hage := h.sample_age
      have hbytes := h.evict_bytes (ans p)
      dsimp only at he
      by_cases hdead : (s₀.sampling c).dead p = false
      · -- the page stays
        rw [if_pos (hage.mpr hdead)] at he
        rw [if_neg (by rw [hdead]; nofun)]
        exact ih rest _ x t d (h.keep hl hi) hs he
      rw [if_neg (hage.not.mpr hdead), hbytes] at he
      rw [if_pos (Bool.not_eq_false _ ▸ hdead)]
      -- the page is evicted
      have h' := h.evict (v := s₀.sampling c) hl hi
      have hs' : ((Vmm.evict (sample s c p) c p (ans p)).ctx c).size = (s₀.ctx c).size := by
        obtain ⟨st, hctx⟩ := evict_ctx (sample s c p) c p (ans p)
        rw [hctx]
        exact hs
      generalize Vmm.evict (sample s c p) c p (ans p) = u at h' hs' he
      rw [h'.refs] at he
      dsimp only
      cases hlast : ((s₀.sampling c).giveUp p x).refs.getLast? with
      | none =>
        rw [hlast] at he
        exact ih rest u _ t d h' hs' he
      | some r =>
        rw [hlast] at he
        dsimp only at he ⊢
        have hroom : addDelta (u.ctx c).size (x.delta - (s₀.sampling c).queried p) < (u.ctx c).capacity ↔
            addDelta (s₀.ctx c).size ((s₀.sampling c).giveUp p x).delta < (s₀.ctx c).capacity := by
          rw [hs', h'.capacity]
          rfl
        by_cases hr : addDelta (s₀.ctx c).size ((s₀.sampling c).giveUp p x).delta < (s₀.ctx c).capacity
        · rw [if_pos (hroom.mpr hr), h'.refs_bytes (mem_of_getLast? hlast)] at he
          rw [if_pos hr]
          have hp' := h'.promote (v := s₀.sampling c) hl hi hlast
          refine ih _ _ _ t d hp' ?_ he
          rw [promote_ctx]
          exact hs'
        · rw [if_neg (hroom.not.mpr hr)] at he
          rw [if_neg hr]
          exact ih rest u _ t d h' hs' he

/-- The second loop. -/
theorem drainLoop (hl : ListsOk s₀ c) (hi : IdsOk s₀ c ans) :
    ∀ (refs : List ℕ) (s : State γ) (x : Choice), Sim s₀ c ans s [] x → refs.Nodup →
      (∀ q ∈ refs, q ∈ x.refs) →
      Sim s₀ c ans (Vmm.drainLoop c ans refs s) []
        ((s₀.sampling c).drain (s₀.ctx c).capacity refs (s.ctx c).size x) := by
  intro refs
  induction refs with
  | nil => exact fun s x h _ _ => h
  | cons p refs ih =>
    intro s x h hnd hmem
    have hp := hmem p mem_cons_self
    obtain ⟨hpr, hnd⟩ := nodup_cons.mp hnd
    have hrest : ∀ q ∈ refs, q ∈ x.refs.erase p := by
      intro q hq
      refine (mem_erase_of_ne ?_).mpr (hmem q (mem_cons_of_mem p hq))
      rintro rfl
      exact hpr hq
    rw [Vmm.drainLoop, Sampling.drain, h.capacity]
    by_cases hroom : (s.ctx c).size < (s₀.ctx c).capacity
    · rw [if_pos hroom, if_pos hroom]
      have h' := ih _ _ (h.refill hl hi hp) hnd hrest
      rw [refill_ctx, h.refs_bytes hp] at h'
      exact h'
    · rw [if_neg hroom, if_neg hroom]
      have h' := ih _ _ (h.expel hl hi hp) hnd hrest
      obtain ⟨st, hctx⟩ := expel_ctx s c p (ans p)
      rw [hctx] at h'
      exact h'

end Sim

variable [Inhabited γ]

/-- What `Mm_RunPRA` makes of the lists `ws` and `refs` does not depend on which calls of
`Mm_SwapOut` go through. -/
theorem runPRA_sim {s s' : State γ} {c : ℕ} {ans : ℕ → OutAnswers γ} (hl : ListsOk s c)
    (hi : IdsOk s c ans) (h : runPRA s c ans = some s') :
    Sim s c ans s' [] ((s.sampling c).choose (s.ctx c).capacity (s.ctx c).size
      (s.ctx c).workingSet (s.ctx c).referenced) := by
  unfold runPRA at h
  dsimp only at h
  cases hloop : ageLoop c ans ((s.ctx c).workingSet.length + (s.ctx c).referenced.length)
      (s.ctx c).workingSet s 0 with
  | none =>
    rw [hloop] at h
    cases h
  | some r =>
    obtain ⟨t, d⟩ := r
    rw [hloop] at h
    obtain ⟨rest, y, hy, hsim, rfl, hsize⟩ := Sim.ageLoop hl hi _ _ s _ t d (Sim.start hl) rfl hloop
    have hsim' := hsim.setSize (addDelta (t.ctx c).size y.delta)
    have hctx : ∀ n, (t.setCtx c ((t.ctx c).setSize n)).ctx c = (t.ctx c).setSize n :=
      fun n => update_self ..
    rw [Sampling.choose, ← hy]
    dsimp only at h ⊢
    simp only [hctx, Context.setSize_capacity, Context.setSize_size, hsim.capacity, hsize,
      Context.setSize_referenced, hsim.refs] at h
    rw [hsize] at hsim'
    by_cases hgt : (s.ctx c).capacity < addDelta (s.ctx c).size y.delta
    · rw [if_pos hgt] at h
      cases h
    rw [if_neg hgt] at h
    by_cases heq : addDelta (s.ctx c).size y.delta = (s.ctx c).capacity
    · rw [if_pos heq] at h
      cases h
      rw [if_pos heq.ge]
      exact hsim'
    · rw [if_neg heq] at h
      cases h
      rw [if_neg (by omega)]
      have hd := Sim.drainLoop hl hi y.refs.reverse _ y hsim'
        (nodup_reverse.mpr (hsim.parts hl).2.1) fun q hq => mem_reverse.mp hq
      rw [hctx] at hd
      exact hd

end Simulation

/-! ### No page is lost -/

section Lost

variable {γ : Type}

/-- A resident pageable page of the context. -/
def State.Resident (s : State γ) (c p : ℕ) : Prop :=
  p ∈ (s.ctx c).pages ∧ (s.page p).pageable = true ∧ (s.page p).reserved = false ∧
    (s.page p).pagedOut = false

/-- The page is paged out, and its swap id names a reservation of the provider. -/
def State.Saved (s : State γ) (p : ℕ) : Prop :=
  (s.page p).pagedOut = true ∧
    ∃ dev data, s.swapProvider = some dev ∧ s.device dev (s.page p).swapId = some data

/-- The page is on one of the lists, or else it is paged out. -/
def State.Placed (s : State γ) (c p : ℕ) : Prop :=
  (s.listed c).count p = 1 ∧ (s.page p).pagedOut = false ∨ (s.listed c).count p = 0 ∧ s.Saved p

namespace Sim

variable {s₀ s : State γ} {c p : ℕ} {ans : ℕ → OutAnswers γ} {x : Choice}

/-- The page was kept: it is on one list. -/
theorem placed_of_kept (h : Sim s₀ c ans s [] x) (hl : ListsOk s₀ c) (hp : p ∈ x.ws ++ x.refs)
    (hres : (s₀.page p).pagedOut = false) : s.Placed c p := by
  have hnd : (x.ws ++ x.refs).Nodup := (nodup_append.mp (h.perm.nodup_iff.mpr hl.nodup)).1
  refine .inl ⟨?_, ?_⟩
  · rw [State.listed, h.ws, h.refs]
    exact count_eq_one_of_mem hnd hp
  · rcases mem_append.mp hp with hp | hp
    · rw [h.kept p hp, hres]
    · rw [(h.on_refs p hp).page, Page.setWorkingSets_pagedOut, hres]

/-- The page was given up: it is on no list, and what `Mm_SwapOut` did decides. -/
theorem placed_iff_of_evicted (h : Sim s₀ c ans s [] x) (hl : ListsOk s₀ c) (hp : p ∈ x.evicted)
    (hres : (s₀.page p).pagedOut = false) : s.Placed c p ↔ GoesOut s₀ c ans p := by
  obtain ⟨-, -, -, -, hwe, hre⟩ := h.parts hl
  have hcount : (s.listed c).count p = 0 := by
    rw [State.listed, h.ws, h.refs, count_eq_zero, mem_append]
    exact fun hm => hm.elim (fun hw => hwe p hw hp) fun hr => hre p hr hp
  obtain ⟨hgo, hstay⟩ := h.gone p hp
  constructor
  · rintro (⟨hone, -⟩ | ⟨-, hsaved⟩)
    · rw [hcount] at hone
      cases hone
    · by_contra hno
      have hout := hsaved.1
      rw [hstay hno, hres] at hout
      cases hout
  · intro hg
    have hpo := hgo hg
    refine .inr ⟨hcount, hpo.pagedOut, ?_⟩
    rw [hpo.swapId]
    exact hpo.saved

end Sim

variable [Inhabited γ]

/-- After `Mm_RunPRA` each resident pageable page is on one list or paged out with a live
swap id exactly when each such page that ages to 0, or that finds no room, is counted in
the working sets that it is on and can be swapped out. -/
theorem not_lost_iff {s s' : State γ} {c : ℕ} {ans : ℕ → OutAnswers γ} (hl : ListsOk s c)
    (hi : IdsOk s c ans) (hone : ∀ p, s.Resident c p → (s.listed c).count p = 1)
    (h : runPRA s c ans = some s') :
    (∀ p, s.Resident c p → s'.Placed c p) ↔
      ∀ p, s.Resident c p →
        p ∈ ((s.sampling c).choose (s.ctx c).capacity (s.ctx c).size (s.ctx c).workingSet
          (s.ctx c).referenced).evicted → GoesOut s c ans p := by
  have hsim := runPRA_sim hl hi h
  generalize (s.sampling c).choose (s.ctx c).capacity (s.ctx c).size (s.ctx c).workingSet
    (s.ctx c).referenced = x at hsim ⊢
  refine forall_congr' fun p => forall_congr' fun hres => ?_
  have hmem : p ∈ s.listed c := count_pos_iff.mp (by rw [hone p hres]; exact Nat.one_pos)
  rcases mem_append.mp (hsim.perm.mem_iff.mpr hmem) with hp | hp
  · have hev : p ∉ x.evicted := by
      obtain ⟨-, -, -, -, hwe, hre⟩ := hsim.parts hl
      exact (mem_append.mp hp).elim (hwe p) (hre p)
    exact ⟨fun _ hp' => absurd hp' hev, fun _ => hsim.placed_of_kept hl hp hres.2.2.2⟩
  · rw [hsim.placed_iff_of_evicted hl hp hres.2.2.2]
    exact ⟨fun hg _ => hg, fun hg => hg hp⟩

/-- One page of the working set that was not used for a while. -/
def idlePage : State ℕ :=
  (onePage.setCtx 0 ⟨true, [0], [0], 4096, 4096, [], MemStat.zero⟩).setPage 0
    ((onePage.page 0).setWorkingSets 1)

theorem idlePage_listsOk : ListsOk idlePage 0 := by
  refine ⟨by decide, ?_, ?_, ?_⟩
  · intro p hp
    obtain rfl := mem_singleton.mp hp
    rfl
  · intro p hp q hq _
    rw [mem_singleton.mp hp, mem_singleton.mp hq]
  · intro p hp
    obtain rfl := mem_singleton.mp hp
    decide

theorem idlePage_idsOk (ans : ℕ → OutAnswers ℕ) : IdsOk idlePage 0 ans := by
  refine ⟨fun _ _ _ _ => rfl, fun p hp q hq _ => ?_⟩
  rw [mem_singleton.mp hp, mem_singleton.mp hq]

theorem idlePage_one (p : ℕ) (h : idlePage.Resident 0 p) : (idlePage.listed 0).count p = 1 := by
  obtain rfl := mem_singleton.mp h.1
  decide

theorem not_lost_iff_idlePage : ∃ s', runPRA idlePage 0 (fun _ => .ok 5) = some s' ∧
    ∀ p, idlePage.Resident 0 p → s'.Placed 0 p := by
  have hs : (runPRA idlePage 0 fun _ => .ok 5).isSome = true := rfl
  obtain ⟨s', hs'⟩ := Option.isSome_iff_exists.mp hs
  refine ⟨s', hs', (not_lost_iff idlePage_listsOk (idlePage_idsOk _) idlePage_one hs').mpr ?_⟩
  intro p hres _
  obtain rfl := mem_singleton.mp hres.1
  exact ⟨rfl, 0, rfl, rfl, rfl, rfl, rfl, rfl, rfl, fun _ => rfl⟩

/-- The device refuses one write: the page is on no list and not paged out. -/
theorem failed_swapOut_loses_page :
    (ListsOk idlePage 0 ∧ ∀ p, idlePage.Resident 0 p → (idlePage.listed 0).count p = 1) ∧
    idlePage.Resident 0 0 ∧
    ∃ s', runPRA idlePage 0 (fun _ => { OutAnswers.ok 5 with write := .internalError }) = some s' ∧
      (s'.listed 0).count 0 = 0 ∧ (s'.page 0).pagedOut = false := by
  refine ⟨⟨idlePage_listsOk, idlePage_one⟩, ?_, _, rfl, ?_, rfl⟩
  · exact ⟨mem_singleton.mpr rfl, rfl, rfl, rfl⟩
  · rfl

end Lost

end Obos.Vmm
