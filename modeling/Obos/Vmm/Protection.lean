/-
Page replacement and the protection of pages.

`MmS_QueryPageInfo` rebuilds the protection of a page from its entry, and an entry does not
say whether the page is read-only or uncached.  So `Mm_RunPRA`, which asks for each page of
the working set, keeps the protection of pages whose entries say all there is to say.

* `Plain` — such a page,
* `runPRA_attributes` — page replacement keeps the attributes of plain pages,
* `Guarded.write` — no write of a page fault makes a read-only page writable,
* `protection_run` — both, in every run of `Mm_RunPRA` and `Mm_HandlePageFault`,
* `sampled_page_loses_readOnly` — a read-only page that becomes writable.
-/
import Obos.Vmm.Writes
import Obos.Vmm.FaultEntry
import Obos.Vmm.Transparency
import Obos.Vmm.Protect

namespace Obos.Vmm

open Function

variable {γ : Type}

/-! ### Page replacement -/

/-- The entry of the page, if it has one, says all of its protection. -/
structure Plain (s : State γ) (p : ℕ) : Prop where
  ro : (s.page p).prot.ro = false
  uc : (s.page p).prot.uc = false
  shows : ∀ e ∈ s.entry p, e.Shows (s.page p).prot

/-- What `MmS_QueryPageInfo` reports of a plain page is what the page has. -/
theorem Plain.attributes {s : State γ} {p : ℕ} (h : Plain s p) {e : Pte} (he : s.entry p = some e) :
    (protOf (s.entry p)).attributes = (s.page p).prot.attributes := by
  obtain ⟨h1, h2, h3⟩ := h.shows e he
  rw [he, protOf, Prot.attributes, Prot.attributes, h.ro, h.uc, ← h1, ← h2, ← h3]

variable [Inhabited γ]

/-- Page replacement keeps the attributes of every mapped page if those on the lists are
plain. -/
theorem runPRA_attributes {s t : State γ} {c : ℕ} {ans : ℕ → OutAnswers γ} (hl : ListsOk s c)
    (hi : IdsOk s c ans) (hplain : ∀ p ∈ s.listed c, Plain s p) (h : runPRA s c ans = some t)
    {p : ℕ} (hp : (s.entry p).isSome) :
    (t.page p).prot.attributes = (s.page p).prot.attributes := by
  rcases (runPRA_sim hl hi h).shown p with hs | ⟨hmem, hs⟩
  · exact hs
  · obtain ⟨e, he⟩ := Option.isSome_iff_exists.mp hp
    rw [hs, ← (hplain p hmem).attributes he, State.entry, hl.owner p hmem]

/-! ### Read-only pages -/

omit [Inhabited γ] in
/-- The trees hold nodes of their contexts at different addresses, and the lists hold nodes
of the trees. -/
structure State.TreesOk (s : State γ) : Prop where
  owner : ∀ c, ∀ p ∈ (s.ctx c).pages, (s.page p).owner = c
  addr : ∀ c, ∀ p ∈ (s.ctx c).pages, ∀ q ∈ (s.ctx c).pages,
    (s.page p).addr = (s.page q).addr → p = q
  lists : ∀ c, ∀ p ∈ s.listed c, p ∈ (s.ctx c).pages

/-- The page is read-only, in its node and in its entry. -/
structure State.ReadOnly (s : State γ) (p : ℕ) : Prop where
  tracked : p ∈ (s.ctx (s.page p).owner).pages
  ro : (s.page p).prot.ro = true
  rw : (s.page p).prot.rw = false
  entry : ∀ e ∈ s.entry p, e.rw = false

/-- The read-only page `p` among the pages that a fault works on: none of those that it may
sample or copy is read-only. -/
structure Guarded (c : ℕ) (own seen chain : ℕ → Prop) (p : ℕ) (s : State γ) : Prop where
  trees : s.TreesOk
  mem : ∀ q, own q ∨ seen q ∨ chain q → q ∈ (s.ctx c).pages
  plain : ∀ q, seen q ∨ chain q → (s.page q).prot.ro = false
  safe : s.ReadOnly p

namespace Guarded

variable {c : ℕ} {own seen chain : ℕ → Prop} {p : ℕ} {s t : State γ}

omit [Inhabited γ]

variable (h : Guarded c own seen chain p s)
include h

/-- A write to a node that keeps its place and its `ro`, and its `rw` if it is the page. -/
theorem setPage {q : ℕ} {pg : Page}
    (howner : pg.owner = (s.page q).owner) (haddr : pg.addr = (s.page q).addr)
    (hro : pg.prot.ro = (s.page q).prot.ro) (hrw : q = p → pg.prot.rw = (s.page q).prot.rw) :
    Guarded c own seen chain p (s.setPage q pg) := by
  -- the fields that matter are the same in every node
  have hsame : ∀ {α : Type} (f : Page → α), f pg = f (s.page q) →
      ∀ x, f ((s.setPage q pg).page x) = f (s.page x) := by
    intro α f hf x
    by_cases hx : x = q
    · rw [hx, State.setPage_page, update_self, hf]
    · rw [State.setPage_page, update_of_ne hx]
  have hown := hsame Page.owner howner
  have hadr := hsame Page.addr haddr
  have hread := hsame (fun pg => pg.prot.ro) hro
  refine ⟨⟨?_, ?_, h.trees.lists⟩, h.mem, ?_, ⟨?_, ?_, ?_, ?_⟩⟩
  · intro x y hy
    rw [hown]
    exact h.trees.owner x y hy
  · intro x y hy z hz
    rw [hadr, hadr]
    exact h.trees.addr x y hy z hz
  · intro x hx
    rw [hread]
    exact h.plain x hx
  · rw [hown]
    exact h.safe.tracked
  · rw [hread]
    exact h.safe.ro
  · by_cases hq : q = p
    · rw [State.setPage_page, hq, update_self, hrw hq, hq]
      exact h.safe.rw
    · rw [State.setPage_page, update_of_ne (Ne.symm hq)]
      exact h.safe.rw
  · intro e he
    rw [State.entry, hown, hadr] at he
    exact h.safe.entry e he

/-- A write to `rw` of a page that is not read-only. -/
theorem setRw {q : ℕ} (hq : (s.page q).prot.ro = false)
    (b : Bool) : Guarded c own seen chain p (s.setPage q ((s.page q).setRw b)) := by
  refine h.setPage rfl rfl rfl ?_
  rintro rfl
  rw [h.safe.ro] at hq
  cases hq

/-- A write of an entry that does not make the page writable. -/
theorem setPte {c' a : ℕ} {x : Option Pte}
    (hx : c' = (s.page p).owner → a = (s.page p).addr → ∀ e ∈ x, e.rw = false) :
    Guarded c own seen chain p (s.setPte c' a x) := by
  refine ⟨⟨h.trees.owner, h.trees.addr, h.trees.lists⟩, h.mem, h.plain,
    ⟨h.safe.tracked, h.safe.ro, h.safe.rw, ?_⟩⟩
  intro e he
  rw [State.entry, State.setPte_pte] at he
  split at he
  · rename_i heq
    exact hx heq.1.symm heq.2.symm e he
  · exact h.safe.entry e he

/-- A page of the context at the address of the read-only page is that page. -/
theorem eq_of_addr {q : ℕ} (hq : q ∈ (s.ctx c).pages)
    (hc : c = (s.page p).owner) (ha : (s.page q).addr = (s.page p).addr) : q = p := by
  subst hc
  exact h.trees.addr _ q hq p h.safe.tracked ha

theorem ne_of_ro {q : ℕ} (hq : (s.page q).prot.ro = false) :
    q ≠ p := by
  rintro rfl
  rw [h.safe.ro] at hq
  cases hq

/-- Mapping a page that is not read-only. -/
theorem setPageMapping {q : ℕ} (hq : q ∈ (s.ctx c).pages)
    (hro : (s.page q).prot.ro = false) (phys : ℕ) :
    Guarded c own seen chain p (setPageMapping s c (s.page q) phys) :=
  h.setPte fun hc ha => absurd (h.eq_of_addr hq hc ha) (h.ne_of_ro hro)

/-- None of the writes makes the page writable. -/
theorem write (hw : Write c own seen chain s t) :
    Guarded c own seen chain p t := by
  cases hw with
  | frames hf =>
    obtain ⟨_, _, _, _, rfl⟩ := hf
    exact ⟨⟨h.trees.owner, h.trees.addr, h.trees.lists⟩, h.mem, h.plain,
      ⟨h.safe.tracked, h.safe.ro, h.safe.rw, h.safe.entry⟩⟩
  | lists c' x hpages hws href =>
    have hctx : ∀ c'', ((s.setCtx c' x).ctx c'').pages = (s.ctx c'').pages := by
      intro c''
      by_cases hc : c'' = c'
      · rw [hc, State.setCtx_ctx, update_self, hpages]
      · rw [State.setCtx_ctx, update_of_ne hc]
    have hown : ∀ q, c' = c ∧ own q → q ∈ (s.ctx c').pages :=
      fun q hq => hq.1 ▸ h.mem q (.inl hq.2)
    refine ⟨⟨?_, ?_, ?_⟩, ?_, h.plain, ⟨?_, h.safe.ro, h.safe.rw, h.safe.entry⟩⟩
    · intro c'' q hq
      rw [hctx] at hq
      exact h.trees.owner c'' q hq
    · intro c'' q hq r hr
      rw [hctx] at hq hr
      exact h.trees.addr c'' q hq r hr
    · intro c'' q hq
      rw [hctx]
      by_cases hc : c'' = c'
      · subst hc
        rw [State.listed, State.setCtx_ctx, update_self] at hq
        rcases List.mem_append.mp hq with hq | hq
        · rcases hws q hq with hq | hq
          · exact h.trees.lists _ q (List.mem_append_left _ hq)
          · exact hown q hq
        · rcases href q hq with hq | hq
          · exact h.trees.lists _ q (List.mem_append_right _ hq)
          · exact hown q hq
      · rw [State.listed, State.setCtx_ctx, update_of_ne hc] at hq
        exact h.trees.lists c'' q hq
    · intro q hq
      rw [hctx]
      exact h.mem q hq
    · rw [hctx]
      exact h.safe.tracked
  | page q pg _ hcore =>
    exact h.setPage (Page.of_core Page.owner (fun _ => rfl) hcore)
      (Page.of_core Page.addr (fun _ => rfl) hcore)
      (Page.of_core (fun pg => pg.prot.ro) (fun _ => rfl) hcore)
      fun _ => Page.of_core (fun pg => pg.prot.rw) (fun _ => rfl) hcore
  | entry q pg phys hq hcore =>
    have hmem := h.mem q (.inl hq)
    have hc := h.trees.owner c q hmem
    rw [hc]
    refine h.setPte fun hp ha e he => ?_
    have hqp := h.eq_of_addr hmem hp ha
    have hrw := Page.of_core (fun pg => pg.prot.rw) (fun _ => rfl) hcore
    rw [(pteOf_shows he).1.1, hrw, hqp]
    exact h.safe.rw
  | query q hq =>
    have hro := h.plain q (.inl hq)
    have h1 : Guarded c own seen chain p
        (s.setPage q ((s.page q).setProt (protOf (s.pte c (s.page q).addr)))) := by
      refine h.setPage rfl rfl ?_ fun he => absurd he (h.ne_of_ro hro)
      rw [hro]
      cases s.pte c (s.page q).addr <;> rfl
    refine h1.setPte fun hp ha => ?_
    have hne := h.ne_of_ro hro
    rw [State.setPage_page, update_of_ne (Ne.symm hne)] at hp ha
    exact absurd (h.eq_of_addr (h.mem q (.inr (.inl hq))) hp ha) hne
  | rw q hq => exact h.setRw (h.plain q (.inr hq)) true
  | map q phys hq => exact h.setPageMapping (h.mem q (.inr (.inr hq))) (h.plain q (.inr hq)) phys
  | unlink q hq =>
    exact unlinkCopied_invariant s q (P := Guarded c own seen chain p) h fun u n x y hu _ _ =>
      hu.setPage rfl rfl rfl fun _ => rfl

theorem writes (hw : Writes c own seen chain s t) :
    Guarded c own seen chain p t := by
  induction hw with
  | refl => exact h
  | tail _ hw ih => exact ih.write hw

end Guarded

/-! ### Runs -/

/-- The calls of a run. -/
inductive MmOp (γ : Type) where
  | runPRA (c : ℕ) (ans : ℕ → OutAnswers γ)
  | fault (c addr : ℕ) (ec : ErrorCode) (a : FaultAnswers γ)

def mmStep (s : State γ) : MmOp γ → Option (State γ)
  | .runPRA c ans => runPRA s c ans
  | .fault c addr ec a => (handlePageFault s c addr ec a).map Prod.fst

/-- The page fault on the page `p` will run the page replacement. -/
def Replaces (s : State γ) (c p : ℕ) (ec : ErrorCode) : Prop :=
  (s.page p).pagedOut = true ∧ ec.present = false ∧
    (s.ctx c).threshold ≤ (s.ctx c).referenced.length + 1

/-- What is asked of a page fault on the page `p`. -/
structure FaultOk (s : State γ) (c p : ℕ) (ec : ErrorCode) : Prop where
  /-- If it runs the page replacement, the pages on the lists and the page are plain. -/
  plain : Replaces s c p ec → ∀ q, q ∈ s.listed c ∨ q = p → Plain s q
  /-- If it is a write, the copies of the page are pages of the context that are not
  read-only. -/
  copies : ec.rw = true → ∃ chain : ℕ → Prop, chain p ∧ Closed s chain ∧
    ∀ q, chain q → q ∈ (s.ctx c).pages ∧ (s.page q).prot.ro = false
  /-- It does not map a page of a file. -/
  file : ec.present = true ∨ (s.page p).region = none

/-- What is asked of a call: the pages that the page replacement may sample are plain. -/
def MmOp.Ok (s : State γ) : MmOp γ → Prop
  | .runPRA c ans => ListsOk s c ∧ IdsOk s c ans ∧ ∀ p ∈ s.listed c, Plain s p
  | .fault c addr ec _ => ∀ p, s.find c addr = some p → (s.page p).refuses ec = false →
    FaultOk s c p ec

section

variable {c : ℕ} {own seen chain : ℕ → Prop} {p q addr : ℕ} {s t : State γ} {ec : ErrorCode}
  {a : FaultAnswers γ}

omit [Inhabited γ] in
/-- A write that makes a page of a file dirty. -/
theorem Guarded.markDirty (h : Guarded c own seen chain p s) (hq : q ∈ (s.ctx c).pages)
    (hro : (s.page q).prot.ro = false) (reg : ℕ) :
    Guarded c own seen chain p (markDirty s c q addr reg a) := by
  unfold Vmm.markDirty
  dsimp only
  generalize hu : s.setVnode (s.region reg).owner _ = u
  have h1 : Guarded c own seen chain p u := by
    rw [← hu]
    exact ⟨⟨h.trees.owner, h.trees.addr, h.trees.lists⟩, h.mem, h.plain,
      ⟨h.safe.tracked, h.safe.ro, h.safe.rw, h.safe.entry⟩⟩
  have hqu : q ∈ (u.ctx c).pages := by rw [← hu]; exact hq
  have hrou : (u.page q).prot.ro = false := by rw [← hu]; exact hro
  have h2 := h1.setRw hrou true
  refine iteInduction (fun _ => ?_) fun _ => h2
  refine h2.setPageMapping hqu ?_ _
  rw [State.setPage_page, update_self]
  exact hrou

theorem Guarded.faultFile {handled : Bool} {r : Progress} (h : Guarded c own seen chain p s)
    (hq : q ∈ (s.ctx c).pages) (hfile : ec.present = true ∨ (s.page q).region = none)
    (he : faultFile s c q addr ec handled a = some (t, r)) : Guarded c own seen chain p t := by
  unfold Vmm.faultFile at he
  cases hreg : (s.page q).region with
  | none =>
    rw [hreg] at he
    cases he
    exact h
  | some reg =>
    rw [hreg] at hfile he
    have hec : ec.present = true := hfile.resolve_right nofun
    simp only [hec, if_true] at he
    split at he
    · rename_i hro
      cases he
      rw [Bool.and_eq_true, Bool.not_eq_true'] at hro
      exact h.markDirty hq hro.1 reg
    · cases he
      exact h

/-- A page fault on the page `q` that is not refused. -/
theorem Guarded.handlePageFault {r : Progress} (h : Guarded c own seen chain p s)
    (hf : s.find c addr = some q) (href : (s.page q).refuses ec = false)
    (hown : ∀ x, x ∈ s.listed c ∨ x = q → own x) (hseen : Replaces s c q ec → ∀ x, own x → seen x)
    (hchain : ec.rw = true → chain q) (hclosed : Closed s chain)
    (hfile : ec.present = true ∨ (s.page q).region = none)
    (he : handlePageFault s c addr ec a = some (t, r)) : Guarded c own seen chain p t := by
  have hq := hown q (.inr rfl)
  have hin : ∀ {u r'}, (if (s.page q).pagedOut && !ec.present then pageIn s c q a
      else some (s, .next)) = some (u, r') → Writes c own seen chain s u := by
    intro u r' hin
    split at hin
    · rename_i hsw
      rw [Bool.and_eq_true, Bool.not_eq_true'] at hsw
      exact pageIn_writes hq (fun x hx => hown x (.inl (List.mem_append.mpr hx)))
        (fun hth => hseen ⟨hsw.1, hsw.2, hth⟩) hin
    · cases hin
      exact .refl
  have hcow : ∀ {u v r'}, Closed u chain →
      (if ((u.page q).nextCopied.isSome || (u.page q).prevCopied.isSome) && ec.rw then
        breakCow u c q a else some (u, .next)) = some (v, r') → Writes c own seen chain u v := by
    intro u v r' hu hcow
    split at hcow
    · rename_i hrw
      rw [Bool.and_eq_true] at hrw
      exact breakCow_writes (hchain hrw.2) hu hcow
    · cases hcow
      exact .refl
  unfold Vmm.handlePageFault at he
  rw [hf] at he
  simp only [href, Bool.false_eq_true, if_false] at he
  obtain ⟨u, hu, he⟩ | hu := next_cases he
  · have hu := hin hu
    obtain ⟨v, hv, he⟩ | hv := next_cases he
    · have hv := hu.trans (hcow (Writes.closed hu hclosed) hv)
      have hg := h.writes hv
      refine hg.faultFile (hg.mem q (.inl hq)) ?_ he
      rw [(Writes.sameFiles hv).page q]
      exact hfile
    · exact h.writes (hu.trans (hcow (Writes.closed hu hclosed) hv))
  · exact h.writes (hin hu)

/-- A page fault makes no read-only page writable. -/
theorem readOnly_fault {r : Progress} (ht : s.TreesOk) (hp : s.ReadOnly p)
    (hok : ∀ q, s.find c addr = some q → (s.page q).refuses ec = false → FaultOk s c q ec)
    (he : handlePageFault s c addr ec a = some (t, r)) : t.TreesOk ∧ t.ReadOnly p := by
  cases hf : s.find c addr with
  | none =>
    rw [Vmm.handlePageFault, hf] at he
    cases he
    exact ⟨ht, hp⟩
  | some q =>
    cases href : (s.page q).refuses ec with
    | true =>
      simp only [Vmm.handlePageFault, hf, href, if_true] at he
      cases he
      exact ⟨ht, hp⟩
    | false =>
      obtain ⟨hplain, hcopies, hfile⟩ := hok q hf href
      -- the chain is asked for when the fault is a write
      obtain ⟨chain, hclosed, hchain, hmem⟩ : ∃ chain : ℕ → Prop, Closed s chain ∧
          (ec.rw = true → chain q) ∧ ∀ x, chain x → x ∈ (s.ctx c).pages ∧
            (s.page x).prot.ro = false := by
        by_cases hrw : ec.rw = true
        · obtain ⟨chain, h1, h2, h3⟩ := hcopies hrw
          exact ⟨chain, h2, fun _ => h1, h3⟩
        · exact ⟨fun _ => False, fun _ h => h.elim, fun h => absurd h hrw, fun _ h => h.elim⟩
      have hown : ∀ x, x ∈ s.listed c ∨ x = q → x ∈ (s.ctx c).pages := by
        rintro x (hx | rfl)
        · exact ht.lists c x hx
        · exact (find_some hf).1
      have h0 : Guarded c (fun x => x ∈ s.listed c ∨ x = q)
          (fun x => Replaces s c q ec ∧ (x ∈ s.listed c ∨ x = q)) chain p s := by
        refine ⟨ht, ?_, ?_, hp⟩
        · rintro x (hx | hx | hx)
          · exact hown x hx
          · exact hown x hx.2
          · exact (hmem x hx).1
        · rintro x (hx | hx)
          · exact (hplain hx.1 x hx.2).ro
          · exact (hmem x hx).2
      have h := h0.handlePageFault hf href (fun _ hx => hx) (fun hr _ hx => ⟨hr, hx⟩) hchain hclosed
        hfile he
      exact ⟨h.trees, h.safe⟩

theorem readOnly_runPRA {ans : ℕ → OutAnswers γ} (ht : s.TreesOk) (hp : s.ReadOnly p)
    (hplain : ∀ q ∈ s.listed c, Plain s q) (he : runPRA s c ans = some t) :
    t.TreesOk ∧ t.ReadOnly p := by
  have h0 : Guarded c (· ∈ s.listed c) (· ∈ s.listed c) (fun _ => False) p s := by
    refine ⟨ht, ?_, ?_, hp⟩
    · rintro x (hx | hx | hx)
      · exact ht.lists c x hx
      · exact ht.lists c x hx
      · exact hx.elim
    · rintro x (hx | hx)
      · exact (hplain x hx).ro
      · exact hx.elim
  have h := h0.writes (runPRA_writes (fun _ hq => hq) (fun _ hq => List.mem_append.mpr hq) he)
  exact ⟨h.trees, h.safe⟩

theorem readOnly_step (ht : s.TreesOk) (hp : s.ReadOnly p) {op : MmOp γ} (hok : op.Ok s)
    (he : mmStep s op = some t) : t.TreesOk ∧ t.ReadOnly p := by
  cases op with
  | runPRA c ans => exact readOnly_runPRA ht hp hok.2.2 he
  | fault c addr ec a =>
    obtain ⟨x, hx, rfl⟩ := Option.map_eq_some_iff.mp he
    obtain ⟨u, r⟩ := x
    exact readOnly_fault ht hp hok hx

/-- In every run whose calls are all `Ok`, each `Mm_RunPRA` keeps the attributes of the
mapped pages, and a read-only page stays so. -/
theorem protection_run {ops : List (MmOp γ)} (ht : s.TreesOk)
    (hm : Run.Meets (fun s op => op.Ok s) mmStep s ops) :
    (∀ n c ans t u, ops[n]? = some (.runPRA c ans) → (ops.take n).foldlM mmStep s = some t →
      runPRA t c ans = some u → ∀ p, (t.entry p).isSome →
        (u.page p).prot.attributes = (t.page p).prot.attributes) ∧
    ∀ t p, ops.foldlM mmStep s = some t → s.ReadOnly p → t.ReadOnly p := by
  constructor
  · intro n c ans t u hn hrun hu p hp
    have hsplit : ops = ops.take n ++ .runPRA c ans :: ops.drop (n + 1) := by
      obtain ⟨hlt, hget⟩ := List.getElem?_eq_some_iff.mp hn
      rw [← hget, List.cons_getElem_drop_succ, List.take_append_drop]
    rw [hsplit] at hm
    obtain ⟨hl, hi, hplain⟩ := (hm.append.2 t hrun).1
    exact runPRA_attributes hl hi hplain hu hp
  · intro t p hrun hp
    refine (Run.preserves (I := fun s : State γ => s.TreesOk ∧ s.ReadOnly p) ?_ ⟨ht, hp⟩ hm hrun).2
    intro s op s' hs hok he
    exact readOnly_step hs.1 hs.2 hok he

end

/-! ### A read-only page -/

/-- Two copies of a page, the second one read-only, a page that is swapped out, and a working
set. -/
def twoPages (ws : List ℕ) : State ℕ :=
  { onePage with
    page := fun n =>
      if n = 0 then { onePage.page 0 with
        prot := { Prot.zero with present := true, rw := true }, workingSets := 1, prevCopied := some 1 }
      else if n = 2 then { onePage.page 0 with
        addr := 0x3000, prot := Prot.zero, pagedOut := true, swapId := 7 }
      else { onePage.page 0 with
        addr := 0x2000
        prot := { Prot.zero with present := true, ro := true }
        workingSets := 1
        nextCopied := some 0 }
    nextNode := 3
    ctx := fun c => ⟨true, if c = 0 then [0, 1, 2] else [], if c = 0 then ws else [], 0x10000, 4096, [],
      MemStat.zero⟩
    pte := fun c addr =>
      if c = 0 ∧ addr = 0x1000 then some ⟨0x1000, false, true, false, false, true⟩
      else if c = 0 ∧ addr = 0x2000 then some ⟨0x3000, false, false, false, false, true⟩
      else none
    device := fun dev id => if dev = 0 ∧ id = 7 then some [8] else none }

theorem twoPages_treesOk : (twoPages [0]).TreesOk := by
  refine ⟨?_, ?_, ?_⟩
  · intro c p hp
    by_cases hc : c = 0
    · subst hc
      by_cases h0 : p = 0 <;> by_cases h2 : p = 2 <;> simp [twoPages, onePage, Page.zero, h0, h2]
    · simp [twoPages, hc] at hp
  · intro c p hp q hq h
    by_cases hc : c = 0
    · subst hc
      simp only [twoPages, if_true, List.mem_cons, List.not_mem_nil, or_false] at hp hq
      rcases hp with rfl | rfl | rfl <;> rcases hq with rfl | rfl | rfl <;> first | rfl | cases h
    · simp [twoPages, hc] at hp
  · intro c p hp
    by_cases hc : c = 0
    · subst hc
      rw [List.mem_singleton.mp hp]
      exact List.mem_cons_self
    · simp [State.listed, twoPages, hc] at hp

/-- The first page is sampled, and a read brings the third one in. -/
def sampleAndRead : List (MmOp ℕ) :=
  [.runPRA 0 fun _ => .ok 5, .fault 0 0x3000 ⟨false, false, false, false⟩ (.ok 0x2000)]

/-- The second page stays read-only. -/
theorem protection_run_twoPages : ∃ t, sampleAndRead.foldlM mmStep (twoPages [0]) = some t ∧
    (t.page 2).pagedOut = false ∧ t.ReadOnly 1 := by
  have hview : ∃ t ∈ sampleAndRead.foldlM mmStep (twoPages [0]), (t.page 2).pagedOut = false := by
    decide +kernel
  obtain ⟨t, ht, hin⟩ := hview
  refine ⟨t, ht, hin, (protection_run twoPages_treesOk ?_).2 t 1 ht ⟨?_, rfl, rfl, ?_⟩⟩
  · refine ⟨⟨⟨by decide, ?_, ?_, ?_⟩, ⟨fun _ _ _ _ => ?_, ?_⟩, ?_⟩, ?_⟩
    · intro p hp
      rw [List.mem_singleton.mp hp]
      rfl
    · intro p hp q hq _
      rw [List.mem_singleton.mp hp, List.mem_singleton.mp hq]
    · intro p hp
      rw [List.mem_singleton.mp hp]
      decide
    · exact if_neg (by simp [OutAnswers.ok])
    · intro p hp q hq _
      rw [List.mem_singleton.mp hp, List.mem_singleton.mp hq]
    · intro p hp
      rw [List.mem_singleton.mp hp]
      refine ⟨rfl, rfl, ?_⟩
      rintro e ⟨⟩
      exact ⟨rfl, rfl, rfl⟩
    · rintro s ⟨⟩
      refine ⟨?_, fun _ _ => trivial⟩
      rintro p ⟨⟩ -
      exact ⟨fun h => absurd h.2.2 (by decide), fun h => absurd h (by decide), .inr rfl⟩
  · decide
  · decide

/-- The kernel writes to a page that is mapped. -/
def kernelWrite : ErrorCode := ⟨true, true, false, false⟩

/-- With the read-only page in the working set, one `Mm_RunPRA` makes it an ordinary one, and
the next write to it succeeds. -/
theorem sampled_page_loses_readOnly : ∃ t u,
    runPRA (twoPages [1]) 0 (fun _ => .ok 5) = some t ∧
      (twoPages [1]).ReadOnly 1 ∧ (t.entry 1).isSome ∧ (t.page 1).prot.ro = false ∧
      handlePageFault t 0 0x2000 kernelWrite { FaultAnswers.ok 0 with
        copyPhys := fun _ => ⟨.success, 0x2000, []⟩ } = some (u, .done .success) ∧
      (u.entry 1).map Pte.rw = some true := by
  refine ⟨_, _, rfl, ⟨by decide, rfl, rfl, by decide⟩, rfl, rfl, rfl, rfl⟩

end Obos.Vmm
