/-
What a page fault can write before it comes to files: paging in, page replacement and
copy on write.

`Write c own seen chain` lists the kinds of writes, where `own` are the pages that the
page-in and the replacement in the context `c` work on, `seen` those that the replacement
may sample, and `chain` the pages that are copies of each other.  Every part of the handler
is a sequence of them, so that what each kind of write keeps is kept by the handler.

* `swapOut_writes`, `swapIn_writes`, `runPRA_writes`, `pageIn_writes`, `breakCow_writes`,
* `Writes.sameFiles` — none of them reaches a vnode, a region or the region of a page.
-/
import Obos.Vmm.Fault

namespace Obos.Vmm

open Function

variable {γ : Type}

/-! ### Kinds of writes -/

/-- A page node without the fields that paging, aging and the lists write. -/
def Page.core (pg : Page) : Page :=
  { pg with
    prot := { pg.prot with present := false, touched := false }
    pagedOut := false
    swapId := 0
    workingSets := 0
    age := 0 }

/-- What is read off the core is the same in two nodes with the same core. -/
theorem Page.of_core {α : Sort*} (f : Page → α) (hf : ∀ pg : Page, f pg.core = f pg) {pg pg' : Page}
    (h : pg.core = pg'.core) : f pg = f pg' := by
  rw [← hf pg, h, hf pg']

theorem Page.core_setWorkingSets (pg : Page) (n : ℕ) : (pg.setWorkingSets n).core = pg.core := rfl

theorem Page.core_setAge (pg : Page) (age : ℕ) : (pg.setAge age).core = pg.core := rfl

/-- Leaving a copy-on-write chain is a matter of page nodes. -/
theorem unlinkCopied_eq (s : State γ) (q : ℕ) :
    s.unlinkCopied q = { s with page := (s.unlinkCopied q).page } := by
  unfold State.unlinkCopied
  cases (s.page q).prevCopied <;> cases (s.page q).nextCopied <;> rfl

/-- What is kept by each write of a link is kept when a page leaves its chain. -/
theorem unlinkCopied_invariant (s : State γ) (q : ℕ) {P : State γ → Prop} (h0 : P s)
    (hset : ∀ u n x y, P u → (x = (u.page n).nextCopied ∨ x = (s.page q).nextCopied ∨ x = none) →
      (y = (u.page n).prevCopied ∨ y = (s.page q).prevCopied ∨ y = none) →
      P (u.setPage n (((u.page n).setNextCopied x).setPrevCopied y))) : P (s.unlinkCopied q) := by
  have hnext : ∀ u n, P u → P (u.setPage n ((u.page n).setNextCopied (s.page q).nextCopied)) :=
    fun u n hu => hset u n _ (u.page n).prevCopied hu (.inr (.inl rfl)) (.inl rfl)
  have hprev : ∀ u n, P u → P (u.setPage n ((u.page n).setPrevCopied (s.page q).prevCopied)) :=
    fun u n hu => hset u n (u.page n).nextCopied _ hu (.inl rfl) (.inr (.inl rfl))
  have hself : ∀ u, P u → P (u.setPage q (((u.page q).setNextCopied none).setPrevCopied none)) :=
    fun u hu => hset u q none none hu (.inr (.inr rfl)) (.inr (.inr rfl))
  unfold State.unlinkCopied
  cases hp : (s.page q).prevCopied <;> cases hn : (s.page q).nextCopied <;> rw [hp] at hprev <;>
    rw [hn] at hnext
  · exact hself _ h0
  · exact hself _ (hprev _ _ h0)
  · exact hself _ (hnext _ _ h0)
  · exact hself _ (hprev _ _ (hnext _ _ h0))

/-- Only the frames and the devices may differ. -/
def FramesOnly (s t : State γ) : Prop :=
  ∃ contents freeFrame device handBacks, t =
    { s with
      contents := contents
      freeFrame := freeFrame
      device := device
      handBacks := handBacks }

/-- One write. -/
inductive Write (c : ℕ) (own seen chain : ℕ → Prop) (s : State γ) : State γ → Prop
  | frames {t : State γ} (h : FramesOnly s t) : Write c own seen chain s t
  | lists (c' : ℕ) (x : Context) (hpages : x.pages = (s.ctx c').pages)
      (hws : ∀ q ∈ x.workingSet, q ∈ (s.ctx c').workingSet ∨ c' = c ∧ own q)
      (href : ∀ q ∈ x.referenced, q ∈ (s.ctx c').referenced ∨ c' = c ∧ own q) :
      Write c own seen chain s (s.setCtx c' x)
  | page (q : ℕ) (pg : Page) (hq : own q) (h : pg.core = (s.page q).core) :
      Write c own seen chain s (s.setPage q pg)
  | entry (q : ℕ) (pg : Page) (phys : ℕ) (hq : own q) (h : pg.core = (s.page q).core) :
      Write c own seen chain s (s.setPte (s.page q).owner (s.page q).addr (pteOf pg phys))
  | query (q : ℕ) (hq : seen q) : Write c own seen chain s (queryPageInfo s c q)
  | rw (q : ℕ) (hq : chain q) : Write c own seen chain s (s.setPage q ((s.page q).setRw true))
  | map (q phys : ℕ) (hq : chain q) : Write c own seen chain s (setPageMapping s c (s.page q) phys)
  | unlink (q : ℕ) (hq : chain q) : Write c own seen chain s (s.unlinkCopied q)

/-- Writes, one after the other. -/
abbrev Writes (c : ℕ) (own seen chain : ℕ → Prop) : State γ → State γ → Prop :=
  Relation.ReflTransGen (Write c own seen chain)

/-! ### Frames and devices -/

namespace FramesOnly

theorem setReservation (s : State γ) (dev id : ℕ) (x : Option (List γ)) :
    FramesOnly s (s.setReservation dev id x) := ⟨_, _, _, _, rfl⟩

theorem fill (s : State γ) (phys : ℕ) (data : List γ) : FramesOnly s (s.fill phys data) :=
  ⟨_, _, _, _, rfl⟩

theorem give (s : State γ) (phys n : ℕ) : FramesOnly s (s.give phys n) := ⟨_, _, _, _, rfl⟩

theorem of_quiet (h : Quiet s t) : FramesOnly s t := by
  obtain ⟨_, _, _, rfl⟩ := h
  exact ⟨_, _, _, _, rfl⟩

theorem page (h : FramesOnly s t) : t.page = s.page := by
  obtain ⟨_, _, _, _, rfl⟩ := h
  rfl

end FramesOnly

section

variable {c : ℕ} {own seen chain : ℕ → Prop} {s t : State γ}

theorem Writes.frames (h : FramesOnly s t) : Writes c own seen chain s t := .single (.frames h)

theorem Writes.page {q : ℕ} {pg : Page} (hq : own q) (h : pg.core = (s.page q).core) :
    Writes c own seen chain s (s.setPage q pg) := .single (.page q pg hq h)

theorem Writes.lists (x : Context) (hpages : x.pages = (s.ctx c).pages)
    (hws : ∀ q ∈ x.workingSet, q ∈ (s.ctx c).workingSet ∨ own q)
    (href : ∀ q ∈ x.referenced, q ∈ (s.ctx c).referenced ∨ own q) :
    Writes c own seen chain s (s.setCtx c x) :=
  .single (.lists c x hpages (fun q hq => (hws q hq).imp_right fun h => ⟨rfl, h⟩)
    fun q hq => (href q hq).imp_right fun h => ⟨rfl, h⟩)

/-- A write to the sizes and statistics of a context. -/
theorem Writes.figures (c' : ℕ) (x : Context) (hpages : x.pages = (s.ctx c').pages)
    (hws : x.workingSet = (s.ctx c').workingSet) (href : x.referenced = (s.ctx c').referenced) :
    Writes c own seen chain s (s.setCtx c' x) :=
  .single (.lists c' x hpages (fun _ hq => .inl (hws ▸ hq)) fun _ hq => .inl (href ▸ hq))

/-! ### Paging -/

/-- `Mm_SwapOut` of a page, whatever fails. -/
theorem swapOut_writes [Inhabited γ] {p : ℕ} (a : OutAnswers γ) (hp : own p) :
    Writes c own seen chain s (swapOut s p a).1 := by
  -- the node in the current state differs from the one that the call read by what it wrote
  let P := fun t : State γ => Writes c own seen chain s t ∧ (t.page p).core = (s.page p).core
  have hpg : ∀ t (pg : Page), P t → pg.core = (s.page p).core → P (t.setPage p pg) := by
    intro t pg ht h
    refine ⟨ht.1.trans (Writes.page hp (h.trans ht.2.symm)), ?_⟩
    rw [State.setPage_page, update_self]
    exact h
  have hpte : ∀ t (pg : Page) phys, P t → pg.core = (s.page p).core →
      P (t.setPte (s.page p).owner (s.page p).addr (pteOf pg phys)) := by
    intro t pg phys ht h
    rw [← Page.of_core Page.owner (fun _ => rfl) ht.2, ← Page.of_core Page.addr (fun _ => rfl) ht.2]
    exact ⟨ht.1.tail (.entry p pg phys hp (h.trans ht.2.symm)), ht.2⟩
  have hframes : ∀ t u : State γ, P t → FramesOnly t u → P u := by
    intro t u ht h
    exact ⟨ht.1.trans (Writes.frames h), by rw [h.page]; exact ht.2⟩
  have h0 : P s := ⟨.refl, rfl⟩
  rcases swapOut_invariant s p a (P := P) h0 (fun t dev x ht => hframes _ _ ht (.setReservation ..))
    (fun t b ht => hpg t _ ht rfl) (fun t b phys ht => hpte t _ phys ht rfl) with ⟨dev, hok⟩ | h
  · rw [swapOut_of_ok hok, swappedOut]
    have h1 : P (unmapped s p dev a.id) := by
      refine hpte _ (((s.page p).setPresent false).setSwapId a.id) 0 (hpg _ _ ?_ rfl) rfl
      exact hframes _ _ h0 (.setReservation ..)
    refine (hpg _ ((((s.page p).setPresent false).setSwapId a.id).setPagedOut true) ?_ rfl).1
    exact iteInduction (motive := P) (fun _ => hframes _ _ h1 (.give ..)) fun _ => h1
  · exact h.1

/-- `Mm_SwapIn` of a page, whatever fails. -/
theorem swapIn_writes {p : ℕ} {a : InAnswers γ} {st : Status} (hp : own p)
    (h : swapIn s p a = some (t, st)) : Writes c own seen chain s t := by
  obtain ⟨dev, data, -, rfl, -⟩ | ⟨rfl, -⟩ | ⟨hq, -⟩ := swapIn_cases h
  · -- the page is marked present, mapped, and marked as paged in
    obtain ⟨u, hu, he⟩ : ∃ u, FramesOnly s u ∧ swappedIn s p dev data a.phys =
        (((u.setPage p ((s.page p).setPresent true)).setPte (s.page p).owner (s.page p).addr
          (pteOf ((s.page p).setPresent true) a.phys.phys)).setPage p
          (((s.page p).setPresent true).setPagedOut false)) := ⟨_, ⟨_, _, _, _, rfl⟩, rfl⟩
    have hpage : ((s.page p).setPresent true).core = (u.page p).core := by
      rw [hu.page]
      rfl
    rw [he]
    refine (Writes.frames hu).trans ((Writes.page hp hpage).trans ?_)
    refine .tail (.single ?_) (.page p _ hp ?_)
    · set v := u.setPage p ((s.page p).setPresent true) with hv
      have hvp : v.page p = (s.page p).setPresent true := by
        rw [hv, State.setPage_page, update_self]
      have hentry : Write c own seen chain v _ := .entry p (v.page p) a.phys.phys hp rfl
      rwa [hvp] at hentry
    · rw [State.setPte_page, State.setPage_page, update_self]
      rfl
  · exact .refl
  · exact Writes.frames (.of_quiet hq)

/-! ### Page replacement -/

theorem sample_writes {p : ℕ} (hp : own p) (hs : seen p) : Writes c own seen chain s (sample s c p) :=
  .tail (.single (.query p hs)) (.page p _ hp rfl)

theorem addPaged_writes (n : ℕ) : Writes c own seen chain s (addPaged s c n) :=
  Writes.figures c _ rfl rfl rfl

/-- A page is moved between the lists, with a new count of working sets or a new age. -/
theorem relist_writes {p : ℕ} {pg : Page} (x : Context) (hp : own p)
    (hpages : x.pages = (s.ctx c).pages)
    (hws : ∀ q ∈ x.workingSet, q ∈ (s.ctx c).workingSet ∨ own q)
    (href : ∀ q ∈ x.referenced, q ∈ (s.ctx c).referenced ∨ own q)
    (hpg : pg.core = (s.page p).core) : Writes c own seen chain s ((s.setCtx c x).setPage p pg) :=
  (Writes.lists x hpages hws href).trans (Writes.page hp hpg)

theorem leave_writes {p : ℕ} (hp : own p) : Writes c own seen chain s (leave s c p) :=
  relist_writes _ hp rfl (fun _ hq => .inl (List.mem_of_mem_erase hq)) (fun _ hq => .inl hq)
    (Page.core_setWorkingSets _ _)

theorem unlist_writes {p : ℕ} (hp : own p) : Writes c own seen chain s (unlist s c p) :=
  relist_writes _ hp rfl (fun _ hq => .inl hq) (fun _ hq => .inl (List.mem_of_mem_erase hq))
    (Page.core_setAge _ _)

theorem promote_writes {p : ℕ} (hp : own p) : Writes c own seen chain s (promote s c p) := by
  refine relist_writes _ hp rfl (fun q hq => ?_) (fun _ hq => .inl (List.mem_of_mem_dropLast hq))
    (Page.core_setWorkingSets _ _)
  exact (List.mem_append.mp hq).imp_right fun h => by rwa [List.mem_singleton.mp h]

theorem refill_writes {p : ℕ} (hp : own p) : Writes c own seen chain s (refill s c p) := by
  refine relist_writes _ hp rfl (fun q hq => ?_) (fun _ hq => .inl (List.mem_of_mem_erase hq))
    (Page.core_setAge _ _)
  exact (List.mem_append.mp hq).imp_right fun h => by rwa [List.mem_singleton.mp h]

theorem evict_writes [Inhabited γ] {p : ℕ} (a : OutAnswers γ) (hp : own p) :
    Writes c own seen chain s (evict s c p a) := by
  have h1 : Writes c own seen chain s (leave s c p) := leave_writes hp
  have h2 := h1.trans (swapOut_writes a hp)
  exact evict_cases (fun _ => h1) h2 fun _ _ h => h.trans (addPaged_writes _)

theorem expel_writes [Inhabited γ] {p : ℕ} (a : OutAnswers γ) (hp : own p) :
    Writes c own seen chain s (expel s c p a) := by
  have h1 : Writes c own seen chain s (unlist s c p) := unlist_writes hp
  exact (h1.trans (swapOut_writes a hp)).trans (addPaged_writes _)

/-- The pages on the lists are own pages or were listed before. -/
theorem Writes.listed (h : Writes c own seen chain s t)
    (hs : ∀ q, q ∈ (s.ctx c).workingSet ∨ q ∈ (s.ctx c).referenced → own q) :
    ∀ q, q ∈ (t.ctx c).workingSet ∨ q ∈ (t.ctx c).referenced → own q := by
  induction h with
  | refl => exact hs
  | tail _ hw ih =>
    cases hw with
    | frames h =>
      obtain ⟨_, _, _, _, rfl⟩ := h
      exact ih
    | lists c' x _ hws href =>
      intro q hq
      rw [State.setCtx_ctx] at hq
      by_cases hc : c = c'
      · subst hc
        rw [update_self] at hq
        rcases hq with hq | hq
        · exact (hws q hq).elim (fun h => ih q (.inl h)) And.right
        · exact (href q hq).elim (fun h => ih q (.inr h)) And.right
      · rw [update_of_ne hc] at hq
        exact ih q hq
    | page | entry | query | rw | map => exact ih
    | unlink q _ =>
      rw [unlinkCopied_eq]
      exact ih

theorem ageLoop_writes [Inhabited γ] {ans : ℕ → OutAnswers γ} {n : ℕ} {rest : List ℕ} {d d' : ℤ}
    (hseen : ∀ q, own q → seen q)
    (hown : ∀ q, q ∈ (s.ctx c).workingSet ∨ q ∈ (s.ctx c).referenced → own q)
    (hrest : ∀ q ∈ rest, own q) (h : ageLoop c ans n rest s d = some (t, d')) :
    Writes c own seen chain s t := by
  induction n generalizing rest s d with
  | zero =>
    cases h
    exact .refl
  | succ n ih =>
    cases rest with
    | nil =>
      cases h
      exact .refl
    | cons p rest =>
      have hp := hrest p List.mem_cons_self
      have hrest' : ∀ q ∈ rest, own q := fun q hq => hrest q (List.mem_cons_of_mem p hq)
      have h1 : Writes c own seen chain s (sample s c p) := sample_writes hp (hseen p hp)
      have h2 := h1.trans (evict_writes (ans p) hp)
      rw [ageLoop] at h
      by_cases hout : (s.page p).pagedOut
      · rw [if_pos hout] at h
        cases h
      rw [if_neg hout] at h
      dsimp only at h
      by_cases hage : ((sample s c p).page p).age ≠ 0
      · rw [if_pos hage] at h
        exact h1.trans (ih (Writes.listed h1 hown) hrest' h)
      rw [if_neg hage] at h
      generalize evict (sample s c p) c p (ans p) = u at h h2
      have hu := Writes.listed h2 hown
      cases hr : (u.ctx c).referenced.getLast? with
      | none =>
        rw [hr] at h
        exact h2.trans (ih hu hrest' h)
      | some r =>
        rw [hr] at h
        have hr' : own r := hu r (.inr (List.mem_of_getLast? hr))
        have h3 := h2.trans (promote_writes (s := u) hr')
        dsimp only at h
        by_cases hroom : addDelta (u.ctx c).size (d - (u.page p).bytes) < (u.ctx c).capacity
        · rw [if_pos hroom] at h
          refine h3.trans (ih (Writes.listed h3 hown) (fun q hq => ?_) h)
          split at hq
          · cases hq
          · exact (List.mem_append.mp hq).elim (hrest' q) fun h => List.mem_singleton.mp h ▸ hr'
        · rw [if_neg hroom] at h
          exact h2.trans (ih hu hrest' h)

theorem drainLoop_writes [Inhabited γ] (ans : ℕ → OutAnswers γ) {rest : List ℕ} (hrest : ∀ q ∈ rest, own q) :
    Writes c own seen chain s (drainLoop c ans rest s) := by
  induction rest generalizing s with
  | nil => exact .refl
  | cons p rest ih =>
    have hp := hrest p List.mem_cons_self
    have hrest' : ∀ q ∈ rest, own q := fun q hq => hrest q (List.mem_cons_of_mem p hq)
    rw [drainLoop]
    refine iteInduction (fun _ => ?_) fun _ => ?_
    · exact (refill_writes hp).trans (ih hrest')
    · exact (expel_writes _ hp).trans (ih hrest')

/-- `Mm_RunPRA` works on the pages of the two lists. -/
theorem runPRA_writes [Inhabited γ] {ans : ℕ → OutAnswers γ} (hseen : ∀ q, own q → seen q)
    (hown : ∀ q, q ∈ (s.ctx c).workingSet ∨ q ∈ (s.ctx c).referenced → own q)
    (h : runPRA s c ans = some t) : Writes c own seen chain s t := by
  unfold runPRA at h
  dsimp only at h
  cases hl : ageLoop c ans ((s.ctx c).workingSet.length + (s.ctx c).referenced.length)
      (s.ctx c).workingSet s 0 with
  | none =>
    rw [hl] at h
    cases h
  | some r =>
    obtain ⟨u, d⟩ := r
    rw [hl] at h
    have h1 : Writes c own seen chain s u := ageLoop_writes hseen hown (fun q hq => hown q (.inl hq)) hl
    have h2 := h1.trans (Writes.figures c
      ((u.ctx c).setSize (addDelta (u.ctx c).size d)) rfl rfl rfl)
    dsimp only at h
    generalize u.setCtx c _ = w at h h2
    split at h
    · cases h
    · split at h
      · cases h
        exact h2
      · cases h
        exact h2.trans (drainLoop_writes ans fun q hq => Writes.listed h2 hown q (.inr (List.mem_reverse.mp hq)))

theorem refer_writes {p : ℕ} (hp : own p) : Writes c own seen chain s (refer s c p) := by
  unfold refer
  refine (Writes.page hp ?_).trans (Writes.lists _ rfl (fun q hq => .inl hq) fun q hq => ?_)
  · rfl
  exact (List.mem_append.mp hq).imp_right fun h => by rwa [List.mem_singleton.mp h]

/-- The page that is paged in is one more referenced page. -/
theorem refer_referenced (c p paged : ℕ) :
    ((refer (s.setCtx kernelContext ((s.ctx kernelContext).setStat
      { (s.ctx kernelContext).stat with paged := paged })) c p).ctx c).threshold =
        (s.ctx c).threshold ∧
    ((refer (s.setCtx kernelContext ((s.ctx kernelContext).setStat
      { (s.ctx kernelContext).stat with paged := paged })) c p).ctx c).referenced.length =
        (s.ctx c).referenced.length + 1 := by
  unfold refer
  rw [State.setCtx_ctx, update_self, Context.setLists_referenced, List.length_append]
  by_cases hc : c = kernelContext
  · rw [hc, State.setCtx_ctx, update_self]
    exact ⟨rfl, rfl⟩
  · rw [State.setCtx_ctx, update_of_ne hc]
    exact ⟨rfl, rfl⟩

/-- Paging in works on the pages of the two lists and on the page itself. -/
theorem pageIn_writes [Inhabited γ] {p : ℕ} {a : FaultAnswers γ} {r : Progress} (hp : own p)
    (hown : ∀ q, q ∈ (s.ctx c).workingSet ∨ q ∈ (s.ctx c).referenced → own q)
    (hseen : (s.ctx c).threshold ≤ (s.ctx c).referenced.length + 1 → ∀ q, own q → seen q)
    (h : pageIn s c p a = some (t, r)) : Writes c own seen chain s t := by
  unfold pageIn at h
  cases hin : swapIn s p a.swapIn with
  | none =>
    rw [hin] at h
    cases h
  | some x =>
    obtain ⟨u, st⟩ := x
    have h1 : Writes c own seen chain s u := swapIn_writes hp hin
    rw [hin] at h
    cases st with
    | success =>
      dsimp only at h
      have h2 := h1.trans (Writes.figures kernelContext
        ((u.ctx kernelContext).setStat { (u.ctx kernelContext).stat with
          paged := u64sub (u.ctx kernelContext).stat.paged (u.page p).bytes }) rfl rfl rfl)
      have h3 := h2.trans (refer_writes hp)
      rw [State.setStat] at h
      have hctx : u.ctx = s.ctx := by
        obtain ⟨-, -, -, rfl, -⟩ | ⟨rfl, -⟩ | ⟨⟨_, _, _, rfl⟩, -⟩ := swapIn_cases hin
        · rfl
        · rfl
        · rfl
      have hw := refer_referenced (s := u) c p (u64sub (u.ctx kernelContext).stat.paged (u.page p).bytes)
      generalize refer _ c p = w at h h3 hw
      rw [hctx] at hw
      split at h
      · rename_i hth
        rw [hw.1, hw.2] at hth
        cases hpra : runPRA w c a.pra with
        | none =>
          rw [hpra] at h
          cases h
        | some v =>
          rw [hpra] at h
          cases h
          exact h3.trans (runPRA_writes (hseen hth) (Writes.listed h3 hown) hpra)
      · cases h
        exact h3
    | _ =>
      cases h
      exact h1

/-! ### Copy on write -/

/-- The links of the pages in the chain lead to pages in the chain. -/
def Closed (s : State γ) (chain : ℕ → Prop) : Prop :=
  ∀ q, chain q → (∀ r ∈ (s.page q).nextCopied, chain r) ∧ ∀ r ∈ (s.page q).prevCopied, chain r

theorem Closed.setPage (h : Closed s chain) {q : ℕ} {pg : Page}
    (hn : chain q → ∀ r ∈ pg.nextCopied, chain r) (hp : chain q → ∀ r ∈ pg.prevCopied, chain r) :
    Closed (s.setPage q pg) chain := by
  intro x hx
  by_cases hq : x = q
  · subst hq
    rw [State.setPage_page, update_self]
    exact ⟨hn hx, hp hx⟩
  · rw [State.setPage_page, update_of_ne hq]
    exact h x hx

theorem Closed.unlinkCopied (h : Closed s chain) {q : ℕ} (hq : chain q) :
    Closed (s.unlinkCopied q) chain := by
  refine unlinkCopied_invariant s q (P := fun u => Closed u chain) h fun u n x y hu hx hy =>
    hu.setPage (fun hn r hr => ?_) fun hn r hr => ?_
  · rcases hx with rfl | rfl | rfl
    · exact (hu n hn).1 r hr
    · exact (h q hq).1 r hr
    · cases hr
  · rcases hy with rfl | rfl | rfl
    · exact (hu n hn).2 r hr
    · exact (h q hq).2 r hr
    · cases hr

theorem Writes.closed (h : Writes c own seen chain s t) (hs : Closed s chain) : Closed t chain := by
  induction h with
  | refl => exact hs
  | tail _ hw ih =>
    cases hw with
    | frames h =>
      obtain ⟨_, _, _, _, rfl⟩ := h
      exact ih
    | lists | entry | map => exact ih
    | page q pg _ h =>
      refine ih.setPage (fun hq => ?_) fun hq => ?_
      · rw [Page.of_core Page.nextCopied (fun _ => rfl) h]
        exact (ih q hq).1
      · rw [Page.of_core Page.prevCopied (fun _ => rfl) h]
        exact (ih q hq).2
    | query q _ => exact ih.setPage (fun hq => (ih q hq).1) fun hq => (ih q hq).2
    | rw q _ => exact ih.setPage (fun hq => (ih q hq).1) fun hq => (ih q hq).2
    | unlink q hq => exact ih.unlinkCopied hq

theorem copyCowPage_writes {p other : ℕ} {a : FaultAnswers γ} {r : Progress} (hp : chain p)
    (ho : chain other) (h : copyCowPage s c p other a = some (t, r)) : Writes c own seen chain s t := by
  have hmap : ∀ (u : State γ) (phys : ℕ) (b : Prop) [Decidable b], Writes c own seen chain u
      (if b then setPageMapping u c (u.page p) phys else u) := by
    intro u phys b _
    split
    · exact .single (.map p phys hp)
    · exact .refl
  have hrw : ∀ (u : State γ) q, chain q → Writes c own seen chain u (u.setPage q ((u.page q).setRw true)) :=
    fun u q hq => .single (.rw q hq)
  unfold copyCowPage at h
  dsimp only at h
  split at h
  · cases h
    exact (hrw s other ho).trans (hmap _ _ _)
  split at h
  · cases h
    exact hrw s other ho
  have h1 := FramesOnly.of_quiet ((Quiet.refl s).allocatePhysicalPages (s.page p).nPages
    (s.page p).nPages (a.copyPhys other))
  cases hal : allocatePhysicalPages s (s.page p).nPages (s.page p).nPages (a.copyPhys other) with
  | mk u x =>
    obtain ⟨newPhys, st⟩ := x
    rw [hal] at h h1
    have hpage : (s.page p).setRw true = (u.page p).setRw true := by rw [h1.page]
    have h2 : Writes c own seen chain s (u.setPage p ((u.page p).setRw true)) :=
      (Writes.frames h1).trans (hrw u p hp)
    cases st with
    | success =>
      dsimp only at h
      rw [hpage] at h
      have h3 := h2.trans (hmap _ newPhys (a.copyMap other = .success))
      generalize (if a.copyMap other = .success then _ else _ : State γ) = w at h h3
      cases hc : copyTo w (s.page p).addr (getPagePhysicalAddress s (s.page p).addr)
          (s.page p).nPages with
      | none =>
        rw [hc] at h
        cases h
      | some v =>
        rw [hc] at h
        cases h
        obtain ⟨e, -, rfl⟩ := Option.map_eq_some_iff.mp hc
        exact (h3.trans (Writes.frames (.fill ..))).trans (hrw _ other ho)
    | _ =>
      cases h
      exact Writes.frames h1

/-- The two loops follow links of the chain. -/
theorem breakChain_writes {next prev : Page → Option ℕ} {a : FaultAnswers γ} {n : ℕ}
    {cur : Option ℕ} {r : Progress}
    (hlink : ∀ pg : Page, (next pg = pg.nextCopied ∨ next pg = pg.prevCopied) ∧
      (prev pg = pg.nextCopied ∨ prev pg = pg.prevCopied))
    (hcur : ∀ q ∈ cur, chain q) (hs : Closed s chain)
    (h : breakChain next prev c a n cur s = some (t, r)) : Writes c own seen chain s t := by
  have follow : ∀ (u : State γ) (f : Page → Option ℕ) q x, Closed u chain → chain q →
      (f (u.page q) = (u.page q).nextCopied ∨ f (u.page q) = (u.page q).prevCopied) →
      x ∈ f (u.page q) → chain x := by
    intro u f q x hu hq hf hx
    rcases hf with hf | hf
    · exact (hu q hq).1 x (hf ▸ hx)
    · exact (hu q hq).2 x (hf ▸ hx)
  induction n generalizing cur s with
  | zero =>
    cases cur with
    | none =>
      cases h
      exact .refl
    | some q => cases h
  | succ n ih =>
    cases cur with
    | none =>
      cases h
      exact .refl
    | some q =>
      have hq := hcur q rfl
      rw [breakChain] at h
      cases hprev : prev (s.page q) with
      | none =>
        rw [hprev] at h
        cases h
      | some p =>
        rw [hprev] at h
        dsimp only at h
        have hp : chain p := follow s prev q p hs hq (hlink _).2 hprev
        cases hc : copyCowPage s c p q a with
        | none =>
          rw [hc] at h
          cases h
        | some x =>
          obtain ⟨u, pr⟩ := x
          rw [hc] at h
          have h1 : Writes c own seen chain s u := copyCowPage_writes hp hq hc
          have hu : Closed u chain := Writes.closed h1 hs
          cases pr with
          | next =>
            refine (h1.tail (.unlink q hq)).trans (ih (fun x hx => ?_) (hu.unlinkCopied hq) h)
            exact follow u next q x hu hq (hlink _).1 hx
          | _ =>
            cases h
            exact h1

/-- Breaking copy on write works on the chain of the page. -/
theorem breakCow_writes {p : ℕ} {a : FaultAnswers γ} {r : Progress} (hp : chain p)
    (hs : Closed s chain) (h : breakCow s c p a = some (t, r)) : Writes c own seen chain s t := by
  obtain ⟨u, h1, h⟩ | h1 := next_cases h
  · have hw : Writes c own seen chain s u :=
      breakChain_writes (fun _ => ⟨.inl rfl, .inr rfl⟩) (hs p hp).1 hs h1
    have hu : Closed u chain := Writes.closed hw hs
    exact hw.trans (breakChain_writes (fun _ => ⟨.inr rfl, .inl rfl⟩) (hu p hp).2 hu h)
  · exact breakChain_writes (fun _ => ⟨.inl rfl, .inr rfl⟩) (hs p hp).1 hs h1

/-! ### Files -/

/-- The vnodes, the regions of files and the region of each page are the same. -/
structure SameFiles (s t : State γ) : Prop where
  vnode : t.vnode = s.vnode
  region : t.region = s.region
  page : ∀ q, (t.page q).region = (s.page q).region

theorem SameFiles.setPage (h : SameFiles s t) {q : ℕ} {pg : Page}
    (hpg : pg.region = (t.page q).region) : SameFiles s (t.setPage q pg) where
  vnode := h.vnode
  region := h.region
  page := by
    intro x
    by_cases hx : x = q
    · rw [hx, State.setPage_page, update_self, hpg, h.page]
    · rw [State.setPage_page, update_of_ne hx, h.page]

theorem Writes.sameFiles (h : Writes c own seen chain s t) : SameFiles s t := by
  induction h with
  | refl => exact ⟨rfl, rfl, fun _ => rfl⟩
  | tail _ hw ih =>
    cases hw with
    | frames h =>
      obtain ⟨_, _, _, _, rfl⟩ := h
      exact ⟨ih.1, ih.2, ih.3⟩
    | lists | entry | map => exact ⟨ih.1, ih.2, ih.3⟩
    | page q pg _ h => exact ih.setPage (Page.of_core Page.region (fun _ => rfl) h)
    | query q _ =>
      refine ⟨ih.1, ih.2, fun x => ?_⟩
      rw [queryPageInfo]
      exact (ih.setPage (Page.setProt_region ..)).page x
    | rw q _ => exact ih.setPage rfl
    | unlink q _ => exact unlinkCopied_invariant _ q ih fun u n x y hu _ _ => hu.setPage rfl

end

end Obos.Vmm
