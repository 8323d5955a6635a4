/-
The nodes of a context's page tree do not overlap.

`Ordered` says that the nodes of the tree lie behind one another, at multiples
of the normal page size.  An allocation keeps that when the nodes that overlap
its range are nodes it visits itself (`Fits`): the existence check looks for
nodes at the addresses of the request only.

* `goodRange_search` — in a `Searchable` tree the search finds a free range,
* `ordered_commitLoop` — the loop over the nodes keeps the tree ordered,
* `disjoint_run` — no two nodes overlap in a run in which every allocation meets
  only nodes of its own page size on its own grid,
* `overlap_of_huge_page` — a normal page allocated inside a huge page.
-/
import Obos.VirtualMemory
import Obos.Lib.Span
import Obos.Lib.Run

namespace Obos.VirtualMemory

open List

/-! ### Ordered trees -/

/-- The first address behind a page. -/
def Page.stop (p : Page) : ℕ := p.addr + pageBytes p.hugePage

def pageSpan (p : Page) : Span := ⟨p.addr, pageBytes p.hugePage⟩

/-- No two nodes overlap. -/
def Disjoint (pages : List Page) : Prop := (pages.map pageSpan).Pairwise Span.Apart

/-- The nodes lie behind one another, at multiples of the normal page size. -/
structure Ordered (pages : List Page) : Prop where
  pairwise : pages.Pairwise fun p q => p.stop ≤ q.addr
  aligned : ∀ p ∈ pages, p.addr % pageSize = 0

theorem pageBytes_pos (huge : Bool) : 0 < pageBytes huge := by cases huge <;> decide

theorem dvd_pageBytes (huge : Bool) : pageSize ∣ pageBytes huge := by cases huge <;> decide

theorem Page.addr_lt_stop (p : Page) : p.addr < p.stop :=
  Nat.lt_add_of_pos_right (pageBytes_pos _)

section

variable {pages : List Page}

theorem Ordered.disjoint (h : Ordered pages) : Disjoint pages := by
  rw [Disjoint, pairwise_map]
  exact h.pairwise.imp fun hpq => Or.inl hpq

theorem Ordered.sublist {pages pages' : List Page} (h : Ordered pages)
    (hs : pages'.Sublist pages) : Ordered pages' :=
  ⟨h.pairwise.sublist hs, fun p hp => h.aligned p (hs.subset hp)⟩

theorem Ordered.remove (h : Ordered pages) (addrs : List ℕ) :
    Ordered (remove pages addrs) :=
  h.sublist filter_sublist

theorem ne_of_find {a : ℕ} (h : find pages a = none) :
    ∀ p ∈ pages, p.addr ≠ a := fun p hp he =>
  List.find?_eq_none.mp h p hp (decide_eq_true he)

theorem find_eq_none {a : ℕ} (h : ∀ p ∈ pages, p.addr ≠ a) :
    find pages a = none :=
  List.find?_eq_none.mpr fun p hp ha => h p hp (of_decide_eq_true ha)

/-- A node is inserted between those before it and those behind it. -/
theorem Ordered.insert (h : Ordered pages) {p : Page}
    (hp : p.addr % pageSize = 0) (hap : ∀ q ∈ pages, (pageSpan q).Apart (pageSpan p)) :
    Ordered (insert pages p) := by
  rw [VirtualMemory.insert]
  by_cases hf : (find pages p.addr).isSome
  · rw [if_pos hf]
    exact h
  rw [if_neg hf]
  refine ⟨?_, fun q hq => ?_⟩
  · have hpw := h.pairwise
    clear h hf
    -- the induction follows `orderedInsert` along the list
    induction pages with
    | nil => exact pairwise_singleton _ p
    | cons q qs ih =>
      have hqp := hap q mem_cons_self
      simp only [Span.Apart, pageSpan, Span.stop_mk] at hqp
      have hq := q.addr_lt_stop
      have hp' := p.addr_lt_stop
      obtain ⟨hqs, hrest⟩ := pairwise_cons.mp hpw
      by_cases hle : p.addr ≤ q.addr
      · rw [List.orderedInsert, if_pos hle]
        have hpq : p.stop ≤ q.addr := by
          simp only [Page.stop] at hq ⊢
          omega
        refine pairwise_cons.mpr ⟨fun x hx => ?_, hpw⟩
        obtain rfl | hx := mem_cons.mp hx
        · exact hpq
        · exact hpq.trans (hq.le.trans (hqs x hx))
      · rw [List.orderedInsert, if_neg hle]
        have hqp' : q.stop ≤ p.addr := by
          simp only [Page.stop] at hp' ⊢
          omega
        refine pairwise_cons.mpr
          ⟨fun x hx => ?_, ih (fun x hx => hap x (mem_cons_of_mem _ hx)) hrest⟩
        obtain rfl | hx := mem_cons.mp ((perm_orderedInsert _ _ _).subset hx)
        · exact hqp'
        · exact hqs x hx
  · obtain rfl | hq := mem_cons.mp ((perm_orderedInsert _ _ _).subset hq)
    · exact hp
    · exact h.aligned q hq

theorem mem_insert {p q : Page} (h : q ∈ insert pages p) :
    q ∈ pages ∨ q = p := by
  rw [VirtualMemory.insert] at h
  by_cases hf : (find pages p.addr).isSome
  · rw [if_pos hf] at h
    exact Or.inl h
  · rw [if_neg hf] at h
    exact (mem_cons.mp ((perm_orderedInsert _ _ _).subset h)).symm

/-- Writes to a node that keep its address and its size. -/
theorem Ordered.modify (h : Ordered pages) {a : ℕ} {f : Page → Page}
    (hf : ∀ p ∈ pages, p.addr = a → (f p).addr = p.addr ∧ (f p).hugePage = p.hugePage) :
    Ordered (modify pages a f) := by
  have hsame : ∀ p ∈ pages, (if p.addr = a then f p else p).addr = p.addr ∧
      (if p.addr = a then f p else p).stop = p.stop := by
    intro p hp
    by_cases ha : p.addr = a
    · rw [if_pos ha, Page.stop, Page.stop, (hf p hp ha).1, (hf p hp ha).2]
      exact ⟨rfl, rfl⟩
    · rw [if_neg ha]
      exact ⟨rfl, rfl⟩
  refine ⟨?_, fun q hq => ?_⟩
  · rw [VirtualMemory.modify, pairwise_map]
    refine h.pairwise.imp_of_mem fun {p q} hp hq hpq => ?_
    rw [(hsame p hp).2, (hsame q hq).1]
    exact hpq
  · obtain ⟨p, hp, rfl⟩ := mem_map.mp hq
    rw [(hsame p hp).1]
    exact h.aligned p hp

end

/-! ### Committing a range -/

/-- Every node that overlaps the range has the page size of the request and is
one of the nodes that the request visits. -/
def Fits (pages : List Page) (r : Request) (base : ℕ) : Prop :=
  ∀ p ∈ pages, (pageSpan p).Apart ⟨base, r.size⟩ ∨
    (p.hugePage = r.flags.hugePage ∧ ∃ i < r.nNodes, p.addr = base + i * r.pgSize)

section Commit

variable {r : Request} {base : ℕ} {pages : List Page}

theorem Request.pgSize_pos (r : Request) : 0 < r.pgSize := pageBytes_pos _

/-- The nodes of a request lie in its range. -/
theorem nodeSpan_within (base : ℕ) (hsize : r.size % r.pgSize = 0) {i : ℕ} (hi : i < r.nNodes) :
    (Span.mk (base + i * r.pgSize) r.pgSize).Within ⟨base, r.size⟩ := by
  rw [Request.nNodes, hsize, if_neg (by simp), Nat.add_zero] at hi
  refine ⟨Nat.le_add_right _ _, ?_⟩
  have hle : (i + 1) * r.pgSize ≤ r.size :=
    (Nat.mul_le_mul_right _ hi).trans (Nat.div_mul_le_self _ _)
  simp only [Span.stop_mk]
  rw [Nat.add_one_mul] at hle
  omega

theorem nodeAddr_eq (hsize : r.size % r.pgSize = 0) (htop : base + r.size < 2 ^ 64) {i : ℕ}
    (hi : i < r.nNodes) : r.nodeAddr base i = base + i * r.pgSize := by
  have hin := (nodeSpan_within base hsize hi).2
  simp only [Span.stop_mk] at hin
  exact u64_of_lt (by omega)

section

variable (hfits : Fits pages r base)
include hfits

/-- A node on the grid of the request is the node at hand or apart from it. -/
theorem apart_of_fits (hsize : r.size % r.pgSize = 0) {i : ℕ}
    (hi : i < r.nNodes) {q : Page} (hq : q ∈ pages) (hne : q.addr ≠ base + i * r.pgSize) :
    (pageSpan q).Apart ⟨base + i * r.pgSize, r.pgSize⟩ := by
  obtain hap | ⟨hhuge, j, -, hj⟩ := hfits q hq
  · exact hap.mono (Span.Within.refl _) (nodeSpan_within _ hsize hi)
  · have hij : j ≠ i := fun he => hne (he ▸ hj)
    rw [pageSpan, hhuge, hj]
    show base + j * r.pgSize + r.pgSize ≤ base + i * r.pgSize ∨
      base + i * r.pgSize + r.pgSize ≤ base + j * r.pgSize
    obtain hlt | hgt := Nat.lt_or_gt_of_ne hij
    · have hle := Nat.mul_le_mul_right r.pgSize hlt
      rw [Nat.succ_mul] at hle
      omega
    · have hle := Nat.mul_le_mul_right r.pgSize hgt
      rw [Nat.succ_mul] at hle
      omega

/-- The node at hand overlaps the range, so it has the page size of the request. -/
theorem hugePage_of_fits (hsize : r.size % r.pgSize = 0) {i : ℕ}
    (hi : i < r.nNodes) {q : Page} (hq : q ∈ pages) (ha : q.addr = base + i * r.pgSize) :
    q.hugePage = r.flags.hugePage := by
  obtain hap | ⟨hhuge, -⟩ := hfits q hq
  · have hin := nodeSpan_within base hsize hi
    have hpos := r.pgSize_pos
    have hlt := q.addr_lt_stop
    simp only [Span.Apart, Span.Within, pageSpan, Span.stop_mk, Page.stop] at hap hin hlt
    omega
  · exact hhuge

/-- The step of the loop keeps the tree ordered and on the grid. -/
theorem fits_modify {i k : ℕ} (hi : i < r.nNodes) :
    Fits (modify pages (base + i * r.pgSize) (setup r (base + i * r.pgSize) k)) r base := by
  intro q hq
  obtain ⟨p, hp, rfl⟩ := mem_map.mp hq
  by_cases ha : p.addr = base + i * r.pgSize
  · rw [if_pos ha]
    exact Or.inr ⟨rfl, i, hi, rfl⟩
  · rw [if_neg ha]
    exact hfits p hp

theorem fits_insert {i : ℕ} (hi : i < r.nNodes) {p : Page}
    (hp : p.addr = base + i * r.pgSize ∧ p.hugePage = r.flags.hugePage) :
    Fits (insert pages p) r base := by
  intro q hq
  obtain hq | rfl := mem_insert hq
  · exact hfits q hq
  · exact Or.inr ⟨hp.2, i, hi, hp.1⟩

end

/-- The loop keeps the tree ordered, when no mapping fails at a node that was in
the tree before the call. -/
theorem ordered_commitLoop {ans : Answers} (hsize : r.size % r.pgSize = 0)
    (htop : base + r.size < 2 ^ 64) (halign : base % pageSize = 0) {n i : ℕ} {nodes : List ℕ}
    (hn : i + n = r.nNodes) (hpages : Ordered pages) (hfits : Fits pages r base)
    (hfail : ∀ j, i ≤ j → j < r.nNodes → mapFails r ans j ≠ none →
      find pages (base + j * r.pgSize) = none) :
    Ordered (commitLoop r ans base n i nodes pages).1 := by
  induction n generalizing i nodes pages with
  | zero => exact hpages
  | succ n ih =>
    have hi : i < r.nNodes := by omega
    have hne : ∀ j, i + 1 ≤ j → base + j * r.pgSize ≠ base + i * r.pgSize := by
      intro j hj he
      have hmul : j * r.pgSize = i * r.pgSize := by omega
      have := Nat.eq_of_mul_eq_mul_right r.pgSize_pos hmul
      omega
    rw [commitLoop]
    simp only [nodeAddr_eq hsize htop hi]
    cases hf : find pages (base + i * r.pgSize) with
    | some p =>
      cases hm : mapFails r ans i with
      | some st =>
        have hnone := hfail i le_rfl hi (by simp [hm])
        rw [hf] at hnone
        cases hnone
      | none =>
        refine ih (by omega) (hpages.modify fun q hq ha => ?_) (fits_modify hfits hi) ?_
        · exact ⟨ha.symm, (hugePage_of_fits hfits hsize hi hq ha).symm⟩
        · intro j hj hjn hfj
          have hnone := hfail j (by omega) hjn hfj
          refine List.find?_eq_none.mpr fun q hq hqa => ?_
          obtain ⟨p, hp, rfl⟩ := mem_map.mp hq
          have hqa := of_decide_eq_true hqa
          by_cases ha : p.addr = base + i * r.pgSize
          · rw [if_pos ha] at hqa
            exact hne j hj hqa.symm
          · rw [if_neg ha] at hqa
            exact ne_of_find hnone p hp hqa
    | none =>
      cases hm : mapFails r ans i with
      | some st => exact hpages.remove nodes
      | none =>
        refine ih (by omega) (hpages.insert ?_ fun q hq => ?_)
          (fits_insert hfits hi ⟨rfl, rfl⟩) ?_
        · have hdvd : pageSize ∣ i * r.pgSize := (dvd_pageBytes _).mul_left i
          exact Nat.mod_eq_zero_of_dvd ((Nat.dvd_of_mod_eq_zero halign).add hdvd)
        · exact apart_of_fits hfits hsize hi hq (ne_of_find hf q hq)
        · intro j hj hjn hfj
          have hnone := hfail j (by omega) hjn hfj
          refine List.find?_eq_none.mpr fun q hq hqa => ?_
          have hqa := of_decide_eq_true hqa
          obtain hq | rfl := mem_insert hq
          · exact ne_of_find hnone q hq hqa
          · exact hne j hj hqa.symm

end Commit

/-! ### What the search finds -/

/-- The range is free of nodes. -/
def RangeFree (pages : List Page) (base size : ℕ) : Prop :=
  ∀ p ∈ pages, p.stop ≤ base ∨ base + size ≤ p.addr

/-- A tree in which the search for `size` bytes between `base` and `limit` works:
no node reaches into the range from below, the nodes at or above the limit are
out of the reach of a range that ends the search, and a gap that is large enough
for the request and a page is large enough for the request and a page of the
size of the one before the gap. -/
structure Searchable (pages : List Page) (base limit size pgSize : ℕ) : Prop where
  sum : size + pgSize < 2 ^ 64 ∧ base + size < 2 ^ 64
  below : ∀ p ∈ pages, p.addr < base → p.stop ≤ base
  top : ∀ p ∈ pages, p.addr < limit → p.stop + size < 2 ^ 64
  above : ∀ q ∈ pages, limit ≤ q.addr → base + size ≤ q.addr ∧
    ∀ p ∈ pages, p.addr < limit → p.stop + size ≤ q.addr
  gaps : pages.IsChain fun p q => q.addr < limit → p.stop + (size + pgSize) ≤ q.addr →
    p.stop + (size + pageBytes p.hugePage) ≤ q.addr

instance (pages : List Page) (base limit size pgSize : ℕ) :
    Decidable (Searchable pages base limit size pgSize) :=
  decidable_of_iff
    ((size + pgSize < 2 ^ 64 ∧ base + size < 2 ^ 64) ∧
      (∀ p ∈ pages, p.addr < base → p.stop ≤ base) ∧
      (∀ p ∈ pages, p.addr < limit → p.stop + size < 2 ^ 64) ∧
      (∀ q ∈ pages, limit ≤ q.addr → base + size ≤ q.addr ∧
        ∀ p ∈ pages, p.addr < limit → p.stop + size ≤ q.addr) ∧
      pages.IsChain fun p q => q.addr < limit → p.stop + (size + pgSize) ≤ q.addr →
        p.stop + (size + pageBytes p.hugePage) ≤ q.addr)
    ⟨fun ⟨h1, h2, h3, h4, h5⟩ => ⟨h1, h2, h3, h4, h5⟩, fun ⟨h1, h2, h3, h4, h5⟩ => ⟨h1, h2, h3, h4, h5⟩⟩

/-- The nodes that the search looks at. -/
def window (pages : List Page) (base limit : ℕ) : List Page :=
  pages.filter fun p => base ≤ p.addr ∧ p.addr < limit

/-- The nodes at the start of a list that begin less than `need` bytes behind the
end of the one before them, the first of them behind `a`. -/
def crowd (need : ℕ) : ℕ → List Page → List Page
  | _, [] => []
  | a, p :: ps => if a + need ≤ p.addr then [] else p :: crowd need p.stop ps

section Search

variable {base limit need size pgSize : ℕ} {pages lo w hi : List Page}

/-- Behind the crowd is a gap. -/
theorem crowd_append (need a : ℕ) (w : List Page) : ∃ rest, w = crowd need a w ++ rest ∧
    ∀ r ∈ rest.head?, (crowd need a w).getLast?.elim a Page.stop + need ≤ r.addr := by
  induction w generalizing a with
  | nil => exact ⟨[], rfl, by simp⟩
  | cons p w ih =>
    rw [crowd]
    split_ifs with hfar
    · exact ⟨p :: w, rfl, by simpa using hfar⟩
    · obtain ⟨rest, hw, hgap⟩ := ih p.stop
      refine ⟨rest, congrArg (p :: ·) hw, fun r hr => ?_⟩
      have hle := hgap r hr
      rw [List.getLast?_cons]
      cases hl : (crowd need p.stop w).getLast? <;> simpa [hl] using hle

/-- Nodes below the range are passed over. -/
theorem gapLoop_append {lastAddress : ℕ} {lastNode : Option Page} (h : ∀ p ∈ lo, p.addr < base) :
    gapLoop base limit need (lo ++ hi) lastAddress lastNode =
      gapLoop base limit need hi lastAddress lastNode := by
  induction lo with
  | nil => rfl
  | cons p lo ih =>
    have hp := h p mem_cons_self
    have hrest := ih fun q hq => h q (mem_cons_of_mem _ hq)
    cases lastNode <;> rwa [cons_append, gapLoop, if_pos hp]

/-- Without a last node every gap is passed over. -/
theorem gapLoop_none (hlimit : limit < 2 ^ 64)
    (h : ∀ p ∈ hi, base ≤ p.addr ∧ (p.addr < limit → base + need ≤ p.addr)) :
    gapLoop base limit need hi base none = (0, none) := by
  induction hi with
  | nil => rfl
  | cons p hi ih =>
    obtain ⟨hp, hfar⟩ := h p mem_cons_self
    rw [gapLoop, if_neg (by omega)]
    by_cases hl : limit ≤ p.addr
    · rw [if_pos hl]
    · rw [if_neg hl, u64sub_of_le (by omega) (by omega), if_pos (by omega)]
      exact ih fun q hq => h q (mem_cons_of_mem _ hq)

/-- From a node on, the loop ends at the last node of the crowd. -/
theorem gapLoop_crowd (need : ℕ) {p : Page} (hbl : base ≤ limit) (hlimit : limit < 2 ^ 64)
    (hord : (p :: w).Pairwise fun p q => p.stop ≤ q.addr)
    (hw : ∀ q ∈ w, base ≤ q.addr ∧ q.addr < limit) (hhi : ∀ q ∈ hi, limit ≤ q.addr) :
    gapLoop base limit need (w ++ hi) (u64 p.stop) (some p) =
      (if crowd need p.stop w = w then 0
        else u64 (((crowd need p.stop w).getLast?.getD p).stop +
          pageBytes ((crowd need p.stop w).getLast?.getD p).hugePage),
        some ((crowd need p.stop w).getLast?.getD p)) := by
  induction w generalizing p with
  | nil =>
    cases hi with
    | nil => rfl
    | cons c hi =>
      have hc := hhi c mem_cons_self
      rw [nil_append, gapLoop, if_neg (by omega), if_pos hc]
      rfl
  | cons c w ih =>
    obtain ⟨hpc, hrest⟩ := pairwise_cons.mp hord
    have hc := hpc c mem_cons_self
    obtain ⟨hcb, hcl⟩ := hw c mem_cons_self
    rw [cons_append, gapLoop, if_neg (by omega), if_neg (by omega), u64_of_lt (by omega),
      u64sub_of_le hc (by omega), crowd]
    by_cases hneed : p.stop + need ≤ c.addr
    · rw [if_pos (by omega), if_pos hneed, if_neg (by simp)]
      rfl
    · rw [if_neg (by omega), if_neg hneed, List.getLast?_cons]
      show gapLoop base limit need (w ++ hi) (u64 c.stop) (some c) = _
      rw [ih hrest fun q hq => hw q (mem_cons_of_mem _ hq)]
      simp [List.cons.injEq]

/-- The nodes below an address come before those from it on. -/
theorem Ordered.split (h : Ordered pages) (base : ℕ) :
    ∃ lo hi, pages = lo ++ hi ∧ (∀ p ∈ lo, p.addr < base) ∧ ∀ p ∈ hi, base ≤ p.addr := by
  induction pages with
  | nil => exact ⟨[], [], rfl, by simp, by simp⟩
  | cons p ps ih =>
    by_cases hp : p.addr < base
    · obtain ⟨lo, hi, hps, hlo, hhi⟩ := ih (h.sublist (sublist_cons_self p ps))
      exact ⟨p :: lo, hi, by rw [hps, cons_append], forall_mem_cons.mpr ⟨hp, hlo⟩, hhi⟩
    · refine ⟨[], p :: ps, rfl, by simp, forall_mem_cons.mpr ⟨Nat.not_lt.mp hp, fun q hq => ?_⟩⟩
      have hpq := (pairwise_cons.mp h.pairwise).1 q hq
      have hlt := p.addr_lt_stop
      omega

/-- The window lies between the nodes below the range and those above it. -/
theorem Ordered.window_split (h : Ordered pages) (base limit : ℕ) :
    ∃ lo hi, pages = lo ++ (window pages base limit ++ hi) ∧ (∀ p ∈ lo, p.addr < base) ∧
      ∀ p ∈ hi, limit ≤ p.addr := by
  obtain ⟨lo, rest, rfl, hlo, hrest⟩ := h.split base
  obtain ⟨w, hi, rfl, hw, hhi⟩ := (h.sublist (sublist_append_right lo rest)).split limit
  refine ⟨lo, hi, ?_, hlo, hhi⟩
  have hl : window lo base limit = [] := filter_eq_nil_iff.mpr fun p hp => by
    have := hlo p hp
    simp
    omega
  have hh : window hi base limit = [] := filter_eq_nil_iff.mpr fun p hp => by
    have := hhi p hp
    simp
    omega
  have hww : window w base limit = w := filter_eq_self.mpr fun p hp =>
    decide_eq_true ⟨hrest p (mem_append_left _ hp), hw p hp⟩
  show _ = lo ++ ((lo ++ (w ++ hi)).filter _ ++ hi)
  rw [filter_append, filter_append]
  change _ = lo ++ ((window lo base limit ++ (window w base limit ++ window hi base limit)) ++ hi)
  rw [hl, hh, hww, nil_append, append_nil]

/-- A list that is a crowd as a whole has no gap. -/
theorem isChain_of_crowd {a : ℕ} (h : crowd need a w = w) :
    w.IsChain fun q r => r.addr < q.stop + need := by
  induction w generalizing a with
  | nil => exact .nil
  | cons p w ih =>
    rw [crowd] at h
    split_ifs at h
    have hw := (List.cons.inj h).2
    cases w with
    | nil => exact .singleton p
    | cons c w =>
      refine (ih hw).cons_cons ?_
      rw [crowd] at hw
      split_ifs at hw
      omega

/-- The outcome of a search: the start of the range, the end of the last node of a
window without a gap, or a gap of the window, one page behind the node before it. -/
inductive Searched (pages : List Page) (base limit need : ℕ) : ℕ → Prop
  | start (hfar : ∀ x ∈ pages, x.addr < base ∨ limit ≤ x.addr ∨ base + need ≤ x.addr) :
    Searched pages base limit need base
  | last {q : Page} (hq : q ∈ pages) (hin : base ≤ q.addr ∧ q.addr < limit)
    (hfull : (window pages base limit).IsChain fun q r => r.addr < q.stop + need)
    (hother : ∀ x ∈ pages, x.stop ≤ q.stop ∨ limit ≤ x.addr) :
    Searched pages base limit need (u64 q.stop)
  | gap {q r : Page} (hqr : [q, r] <:+: pages) (hin : base ≤ q.addr ∧ r.addr < limit)
    (hgap : q.stop + need ≤ r.addr) (hother : ∀ x ∈ pages, x.stop ≤ q.stop ∨ r.addr ≤ x.addr) :
    Searched pages base limit need (if u64 (q.stop + pageBytes q.hugePage) = 0 then q.stop
      else u64 (q.stop + pageBytes q.hugePage))

theorem mem_window {p : Page} :
    p ∈ window pages base limit ↔ p ∈ pages ∧ base ≤ p.addr ∧ p.addr < limit := by
  simp [window]

/-- The crowd is empty: the first node of the window is far from the start, and so are the
others. -/
theorem far_of_crowd_nil (h : Ordered pages)
    (hcrowd : crowd need base (window pages base limit) = []) :
    ∀ x ∈ pages, x.addr < base ∨ limit ≤ x.addr ∨ base + need ≤ x.addr := by
  intro x hx
  by_contra hno
  push Not at hno
  have hmem : x ∈ window pages base limit := mem_window.mpr ⟨hx, hno.1, hno.2.1⟩
  have hord := (h.sublist filter_sublist : Ordered (window pages base limit)).pairwise
  cases hw : window pages base limit with
  | nil => exact absurd hmem (by simp [hw])
  | cons r rest =>
    rw [hw] at hmem hord
    rw [hw, crowd, ite_eq_left_iff] at hcrowd
    have hfar : base + need ≤ r.addr := not_not.mp fun hne => by simp [hne] at hcrowd
    have hlt := r.addr_lt_stop
    obtain rfl | hmem := mem_cons.mp hmem
    · omega
    · have hrx := (pairwise_cons.mp hord).1 x hmem
      omega

/-- Then the loop passes over every node. -/
theorem gapLoop_of_far (h : Ordered pages) (hbl : base < limit) (hlimit : limit < 2 ^ 64)
    (hneed : 0 < need)
    (hfar : ∀ x ∈ pages, x.addr < base ∨ limit ≤ x.addr ∨ base + need ≤ x.addr) :
    gapLoop base limit need pages base (find pages base) = (0, none) := by
  have hfind : find pages base = none := find_eq_none fun x hx he => by
    have hx' := hfar x hx
    omega
  obtain ⟨lo, hi, rfl, hlo, hhi⟩ := h.split base
  rw [hfind, gapLoop_append hlo]
  refine gapLoop_none hlimit fun x hx => ⟨hhi x hx, fun hl => ?_⟩
  have hx' := hfar x (mem_append_right lo hx)
  have hb := hhi x hx
  omega

/-- The loop ends at the last node of the crowd. -/
theorem gapLoop_of_crowd {q : Page} (h : Ordered pages) (hbl : base < limit)
    (hlimit : limit < 2 ^ 64)
    (hlast : (crowd need base (window pages base limit)).getLast? = some q) :
    gapLoop base limit need pages base (find pages base) =
      (if crowd need base (window pages base limit) = window pages base limit then 0
        else u64 (q.stop + pageBytes q.hugePage), some q) := by
  obtain ⟨lo, hi, hpages, hlo, hhi⟩ := h.window_split base limit
  have hmem : ∀ q ∈ window pages base limit, base ≤ q.addr ∧ q.addr < limit := fun q hq =>
    (mem_window.mp hq).2
  have hord := (h.sublist filter_sublist : Ordered (window pages base limit)).pairwise
  generalize window pages base limit = w at *
  cases w with
  | nil => simp [crowd] at hlast
  | cons p w =>
    rw [crowd] at hlast ⊢
    split_ifs at hlast with hfar
    · simp at hlast
    rw [List.getLast?_cons, Option.some.injEq] at hlast
    have hcrowd := gapLoop_crowd need hbl.le hlimit hord
      (fun x hx => hmem x (mem_cons_of_mem _ hx)) hhi
    obtain ⟨hpb, hpl⟩ := hmem p mem_cons_self
    rw [if_neg hfar]
    simp only [List.cons.injEq, true_and]
    rw [hlast] at hcrowd
    generalize find pages base = lastNode
    rw [hpages, gapLoop_append hlo, cons_append]
    cases lastNode <;>
      rwa [gapLoop, if_neg (by omega), if_neg (by omega), u64sub_of_le hpb (by omega),
        if_neg (by omega)]

/-- The nodes behind the last one of the crowd: they are not in the window, or there is a gap in
front of them. -/
theorem crowd_last {q : Page} (h : Ordered pages)
    (hlast : (crowd need base (window pages base limit)).getLast? = some q) :
    q ∈ window pages base limit ∧
    if crowd need base (window pages base limit) = window pages base limit then
      ∀ x ∈ pages, x.stop ≤ q.stop ∨ limit ≤ x.addr
    else ∃ r, [q, r] <:+: pages ∧ r.addr < limit ∧ q.stop + need ≤ r.addr ∧
      ∀ x ∈ pages, x.stop ≤ q.stop ∨ r.addr ≤ x.addr := by
  obtain ⟨lo, hi, hpages, -, hhi⟩ := h.window_split base limit
  obtain ⟨rest, hcw, hgap⟩ := crowd_append need base (window pages base limit)
  obtain ⟨ys, hys⟩ := List.getLast?_eq_some_iff.mp hlast
  have hq : q ∈ window pages base limit := by
    rw [hcw, hys]
    simp
  have hsplit : pages = (lo ++ ys) ++ q :: (rest ++ hi) := by
    rw [hcw, hys] at hpages
    simpa using hpages
  have hord := h.pairwise
  rw [hsplit] at hord
  obtain ⟨-, htail, hbefore⟩ := pairwise_append.mp hord
  have hother : ∀ x ∈ pages, x.stop ≤ q.stop ∨ x ∈ rest ++ hi := by
    intro x hx
    rw [hsplit] at hx
    obtain hx | hx := mem_append.mp hx
    · exact .inl ((hbefore x hx q mem_cons_self).trans q.addr_lt_stop.le)
    obtain rfl | hx := mem_cons.mp hx
    · exact .inl le_rfl
    · exact .inr hx
  refine ⟨hq, ?_⟩
  cases rest with
  | nil =>
    rw [append_nil] at hcw
    rw [if_pos hcw.symm]
    exact fun x hx => (hother x hx).imp_right (hhi x)
  | cons r rest =>
    have hr := hgap r rfl
    rw [hlast, Option.elim_some] at hr
    have hrl := (mem_window.mp (show r ∈ window pages base limit by rw [hcw]; simp)).2.2
    have hne : crowd need base (window pages base limit) ≠ window pages base limit := fun he => by
      have hlen := congrArg length hcw
      rw [he] at hlen
      simp at hlen
    rw [if_neg hne]
    refine ⟨r, ⟨lo ++ ys, rest ++ hi, by rw [hsplit]; simp⟩, hrl, hr, fun x hx =>
      (hother x hx).imp_right fun hx => ?_⟩
    obtain ⟨-, htail⟩ := pairwise_cons.mp htail
    obtain rfl | hx := mem_cons.mp hx
    · exact le_rfl
    · exact r.addr_lt_stop.le.trans ((pairwise_cons.mp htail).1 x hx)

theorem searched (hbl : base < limit) (hlimit : limit < 2 ^ 64) (hneed : 0 < need)
    (h : Ordered pages) : Searched pages base limit need
      (foundOrLast base (gapLoop base limit need pages base (find pages base))) := by
  cases hlast : (crowd need base (window pages base limit)).getLast? with
  | none =>
    have hfar := far_of_crowd_nil h (List.getLast?_eq_none_iff.mp hlast)
    rw [gapLoop_of_far h hbl hlimit hneed hfar]
    exact .start hfar
  | some q =>
    obtain ⟨hq, hrest⟩ := crowd_last h hlast
    obtain ⟨hmem, hin⟩ := mem_window.mp hq
    have hqstop : q.addr - q.addr % pageSize + pageBytes q.hugePage = q.stop := by
      rw [h.aligned q hmem, Nat.sub_zero, Page.stop]
    rw [gapLoop_of_crowd h hbl hlimit hlast]
    split_ifs at hrest ⊢ with hall
    · rw [foundOrLast, if_neg (by simp)]
      simp only [hqstop]
      exact .last hmem hin (isChain_of_crowd hall) hrest
    · obtain ⟨r, hqr, hrl, hr, hother⟩ := hrest
      rw [foundOrLast, ite_not]
      simp only [hqstop, u64_of_lt (show q.stop < 2 ^ 64 by omega)]
      exact .gap hqr ⟨hin.1, hrl⟩ hr hother

/-- A free range for the request: aligned, not null, and below the end of memory. -/
structure GoodRange (pages : List Page) (f size : ℕ) : Prop where
  free : RangeFree pages f size
  ne_zero : f ≠ 0
  aligned : f % pageSize = 0
  top : f + size < 2 ^ 64

theorem aligned_stop {p : Page} (h : p.addr % pageSize = 0) : p.stop % pageSize = 0 :=
  Nat.mod_eq_zero_of_dvd ((Nat.dvd_of_mod_eq_zero h).add (dvd_pageBytes _))

/-- The search finds a free range. -/
theorem goodRange_search (hbase : 0 < base) (hbl : base < limit) (hlimit : limit < 2 ^ 64)
    (halign : base % pageSize = 0) (hpg : 0 < pgSize) (h : Ordered pages)
    (hs : Searchable pages base limit size pgSize) :
    GoodRange pages
      (foundOrLast base (gapLoop base limit (size + pgSize) pages base (find pages base))) size := by
  have hsearch := searched hbl hlimit (Nat.add_pos_right size hpg) h
  generalize foundOrLast base _ = f at hsearch ⊢
  cases hsearch with
  | start hfar =>
    refine ⟨fun x hx => ?_, hbase.ne', halign, hs.sum.2⟩
    obtain hx' | hx' | hx' := hfar x hx
    · exact .inl (hs.below x hx hx')
    · exact .inr (hs.above x hx hx').1
    · exact .inr (by omega)
  | @last q hq hin _ hother =>
    have htop := hs.top q hq hin.2
    have hqlt := q.addr_lt_stop
    rw [u64_of_lt (by omega)]
    refine ⟨fun x hx => ?_, by omega, aligned_stop (h.aligned q hq), htop⟩
    exact (hother x hx).imp_right fun hge => (hs.above x hx hge).2 q hq hin.2
  | @gap q r hqr hin hgap hother =>
    have hqlt := q.addr_lt_stop
    have hq : q ∈ pages := hqr.subset (by simp)
    have hroom := isChain_pair.mp ( List.IsChain.infix hs.gaps hqr) hin.2 hgap
    have hfound : u64 (q.stop + pageBytes q.hugePage) = q.stop + pageBytes q.hugePage :=
      u64_of_lt (by omega)
    rw [hfound, if_neg (by omega)]
    refine ⟨fun x hx => ?_, by omega, ?_, by omega⟩
    · obtain hx' | hx' := hother x hx
      · exact .inl (by omega)
      · exact .inr (by omega)
    · exact Nat.mod_eq_zero_of_dvd ((Nat.dvd_of_mod_eq_zero
        (aligned_stop (h.aligned q hq))).add (dvd_pageBytes _))

end Search

/-! ### The functions keep the tree ordered -/

theorem u64_mod {x d : ℕ} (h : d ∣ 2 ^ 64) : u64 x % d = x % d := Nat.mod_mod_of_dvd x h

theorem pageBytes_dvd (huge : Bool) : pageBytes huge ∣ 2 ^ 64 := by
  cases huge
  · exact ⟨2 ^ 52, by decide⟩
  · exact ⟨2 ^ 43, by decide⟩

theorem guardedSize_mod (size : ℕ) (flags : VmaFlags) :
    guardedSize size flags % pageBytes flags.hugePage = 0 := by
  have hd := pageBytes_dvd flags.hugePage
  have hpos := pageBytes_pos flags.hugePage
  have hround : roundUp size (pageBytes flags.hugePage) % pageBytes flags.hugePage = 0 := by
    rw [roundUp]
    by_cases hm : size % pageBytes flags.hugePage = 0
    · rwa [if_neg (not_not.mpr hm)]
    · rw [if_pos hm, u64_mod hd]
      have hlt := Nat.mod_lt size hpos
      have hsum : size + (pageBytes flags.hugePage - size % pageBytes flags.hugePage) =
          pageBytes flags.hugePage * (size / pageBytes flags.hugePage + 1) := by
        have hdiv := Nat.div_add_mod size (pageBytes flags.hugePage)
        rw [Nat.mul_add, Nat.mul_one]
        omega
      rw [hsum, Nat.mul_mod_right]
  rw [guardedSize]
  by_cases hg : flags.guardPage = true
  · rw [if_pos hg, u64_mod hd, Nat.add_mod_right]
    exact hround
  · rwa [if_neg hg]

/-- A request has whole pages and an aligned base. -/
theorem request_spec {a : AllocArgs} {r : Request} (h : request a = .ok r) :
    r.size % r.pgSize = 0 ∧ r.base % pageSize = 0 := by
  have hbase : ∀ {b : ℕ} {huge : Bool}, b % pageBytes huge = 0 → b % pageSize = 0 := fun hb =>
    Nat.mod_eq_zero_of_dvd ((dvd_pageBytes _).trans (Nat.dvd_of_mod_eq_zero hb))
  unfold request at h
  split at h
  · cases h
  split at h
  · split at h
    · cases h
    · rename_i hb
      obtain rfl := Except.ok.inj h
      exact ⟨guardedSize_mod _ _, hbase (not_not.mp hb)⟩
  · simp only at h
    split at h
    · cases h
    split at h
    · cases h
    split at h
    · cases h
    split at h
    · cases h
    split at h
    · cases h
    · rename_i hb _ _
      obtain rfl := Except.ok.inj h
      exact ⟨guardedSize_mod _ _, hbase (not_not.mp hb)⟩

/-- In a free range there is no node at an address of the request. -/
theorem find_of_free {pages : List Page} {r : Request} {base i : ℕ}
    (hfree : RangeFree pages base r.size) (hsize : r.size % r.pgSize = 0) (hi : i < r.nNodes) :
    find pages (base + i * r.pgSize) = none := by
  refine find_eq_none fun p hp ha => ?_
  have hin := (nodeSpan_within base hsize hi).2
  have hpos := r.pgSize_pos
  have hlt := p.addr_lt_stop
  simp only [Span.stop_mk] at hin
  obtain hle | hge := hfree p hp <;> omega

theorem not_anyCommitted {pages : List Page} {r : Request} {base : ℕ}
    (hfree : RangeFree pages base r.size) (hsize : r.size % r.pgSize = 0) :
    anyCommitted pages r base = false := by
  rw [anyCommitted, any_eq_false]
  intro i hi
  rw [find_of_free hfree hsize (mem_range.mp hi)]
  simp

/-- What an allocation at `base` needs: the range does not wrap, the nodes in it
are on the grid of the request, and no mapping fails at one of them. -/
structure Suits (pages : List Page) (r : Request) (ans : Answers) (base : ℕ) : Prop where
  top : base + r.size < 2 ^ 64
  fits : Fits pages r base
  maps : ∀ i < r.nNodes, mapFails r ans i ≠ none → find pages (base + i * r.pgSize) = none

instance (pages : List Page) (r : Request) (base : ℕ) : Decidable (Fits pages r base) := by
  unfold Fits Span.Apart
  infer_instance

instance (pages : List Page) (r : Request) (ans : Answers) (base : ℕ) :
    Decidable (Suits pages r ans base) :=
  decidable_of_iff
    (base + r.size < 2 ^ 64 ∧ Fits pages r base ∧
      ∀ i < r.nNodes, mapFails r ans i ≠ none → find pages (base + i * r.pgSize) = none)
    ⟨fun ⟨h1, h2, h3⟩ => ⟨h1, h2, h3⟩, fun ⟨h1, h2, h3⟩ => ⟨h1, h2, h3⟩⟩

/-- What a request has to meet: a given base suits it, and the tree can be
searched if the request makes the code search. -/
def AllowedRequest (ctx : Context) (r : Request) (ans : Answers) : Prop :=
  (r.base ≠ 0 → Suits ctx.pages r ans r.base) ∧
  (r.base = 0 ∨ r.flags.hint →
    Searchable ctx.pages (searchRange ctx r.flags).1 (searchRange ctx r.flags).2 r.size r.pgSize)

theorem GoodRange.suits {pages : List Page} {r : Request} {base : ℕ}
    (h : GoodRange pages base r.size) (hsize : r.size % r.pgSize = 0) (ans : Answers) :
    Suits pages r ans base where
  top := h.top
  fits := fun p hp => Or.inl (h.free p hp)
  maps := fun _ hi _ => find_of_free h.free hsize hi

theorem searchRange_spec (ctx : Context) (flags : VmaFlags) :
    0 < (searchRange ctx flags).1 ∧ (searchRange ctx flags).1 < (searchRange ctx flags).2 ∧
    (searchRange ctx flags).2 < 2 ^ 64 ∧ (searchRange ctx flags).1 % pageSize = 0 := by
  rw [searchRange]
  cases flags.bits32 <;> cases ctx.kernel <;> decide

theorem findAvailableAddress_spec {ctx : Context} {r : Request} (h : Ordered ctx.pages)
    (hsize : r.size % r.pgSize = 0)
    (hs : Searchable ctx.pages (searchRange ctx r.flags).1 (searchRange ctx r.flags).2 r.size
      r.pgSize) :
    ∃ f, findAvailableAddress ctx r.size { r.flags with guardPage := false } = .ok f ∧
      GoodRange ctx.pages f r.size := by
  obtain ⟨hpos, hlt, hlimit, halign⟩ := searchRange_spec ctx r.flags
  have hgood := goodRange_search hpos hlt hlimit halign r.pgSize_pos h hs
  refine ⟨_, ?_, hgood⟩
  have hsz : r.size - r.size % pageBytes r.flags.hugePage = r.size := by
    rw [show r.size % pageBytes r.flags.hugePage = 0 from hsize, Nat.sub_zero]
  have hsum : u64 (r.size + pageBytes r.flags.hugePage) = r.size + r.pgSize := u64_of_lt hs.sum.1
  rw [findAvailableAddress]
  simp only [hsz, hsum]
  exact if_neg hgood.ne_zero

/-- The call finds a base that suits it, or returns with an error. -/
theorem chooseBase_spec {ctx : Context} {r : Request} {ans : Answers} (h : Ordered ctx.pages)
    (hsize : r.size % r.pgSize = 0) (hbase : r.base % pageSize = 0)
    (hok : AllowedRequest ctx r ans) :
    (∃ st, chooseBase ctx r = some (.error st)) ∨
    ∃ base, chooseBase ctx r = some (.ok base) ∧ base % pageSize = 0 ∧
      Suits ctx.pages r ans base := by
  have hsearch : r.base = 0 ∨ r.flags.hint →
      ∃ f, findAvailableAddress ctx r.size { r.flags with guardPage := false } = .ok f ∧
        GoodRange ctx.pages f r.size := fun hs => findAvailableAddress_spec h hsize (hok.2 hs)
  rw [chooseBase]
  by_cases h0 : r.base = 0
  · obtain ⟨f, hf, hgood⟩ := hsearch (Or.inl h0)
    simp only [if_pos h0, hf, not_anyCommitted hgood.free hsize]
    exact Or.inr ⟨f, rfl, hgood.aligned, hgood.suits hsize ans⟩
  simp only [if_neg h0]
  cases hc : anyCommitted ctx.pages r r.base with
  | false => exact Or.inr ⟨r.base, rfl, hbase, hok.1 h0⟩
  | true =>
    cases hh : r.flags.hint with
    | false => exact Or.inl ⟨.inUse, rfl⟩
    | true =>
      obtain ⟨f, hf, hgood⟩ := hsearch (Or.inr hh)
      simp only [hh] at hf
      simp only [hf, not_anyCommitted hgood.free hsize]
      exact Or.inr ⟨f, rfl, hgood.aligned, hgood.suits hsize ans⟩

theorem ordered_virtualMemoryFree {ctx : Context} (h : Ordered ctx.pages) (base size : ℕ) :
    Ordered (virtualMemoryFree ctx base size).1.pages := by
  unfold virtualMemoryFree
  split
  · exact h
  cases find ctx.pages base with
  | none => exact h
  | some baseNode =>
    simp only
    split
    · exact h
    · exact h.remove _

/-! ### Runs -/

inductive Op where
  | alloc (a : AllocArgs) (ans : Answers)
  | free (base size : ℕ)

/-- One call; `none` is a call that never returns. -/
def step (ctx : Context) : Op → Option Context
  | .alloc a ans => (virtualMemoryAlloc ctx a ans).map Prod.fst
  | .free base size => some (virtualMemoryFree ctx base size).1

def Allowed (ctx : Context) : Op → Prop
  | .alloc a ans => ∀ r ∈ (request a).toOption, AllowedRequest ctx r ans
  | .free _ _ => True

instance (ctx : Context) : ∀ op, Decidable (Allowed ctx op)
  | .alloc _ _ => by unfold Allowed AllowedRequest; infer_instance
  | .free _ _ => isTrue trivial

theorem ordered_step {ctx : Context} (op : Op) (h : Ordered ctx.pages) (hok : Allowed ctx op) :
    ∃ ctx', step ctx op = some ctx' ∧ Ordered ctx'.pages := by
  cases op with
  | free base size => exact ⟨_, rfl, ordered_virtualMemoryFree h base size⟩
  | alloc a ans =>
    rw [step, virtualMemoryAlloc]
    cases hr : request a with
    | error st => exact ⟨ctx, rfl, h⟩
    | ok r =>
      obtain ⟨hsize, hbase⟩ := request_spec hr
      have hreq : AllowedRequest ctx r ans := hok r (by rw [hr]; rfl)
      obtain ⟨st, hst⟩ | ⟨base, hb, halign, hsuits⟩ := chooseBase_spec h hsize hbase hreq
      · simp only [hst]
        exact ⟨ctx, rfl, h⟩
      · simp only [hb]
        exact ⟨_, rfl, ordered_commitLoop hsize hsuits.top halign (Nat.zero_add _) h hsuits.fits
          fun j _ hj hf => hsuits.maps j hj hf⟩

/-- In every run of allowed calls on a fresh context every call returns and no
two nodes of the tree overlap. -/
theorem disjoint_run {kernel : Bool} {ops : List Op}
    (hops : Run.Meets Allowed step ⟨kernel, []⟩ ops) :
    ∃ ctx, ops.foldlM step ⟨kernel, []⟩ = some ctx ∧ Disjoint ctx.pages := by
  have hstart : Ordered (Context.mk kernel []).pages :=
    ⟨List.Pairwise.nil, fun p hp => absurd hp not_mem_nil⟩
  obtain ⟨ctx, hctx, hI⟩ := Run.invariant (I := fun ctx : Context => Ordered ctx.pages)
    (fun ctx op h hok => ordered_step op h hok) hstart hops
  exact ⟨ctx, hctx, hI.disjoint⟩

/-- Flags with none set. -/
def VmaFlags.none : VmaFlags := ⟨false, false, false, false, false, false⟩

/-- Normal pages behind a guard page, a huge page at a given base and a reserved
page; then the guarded pages are freed. -/
theorem disjoint_run_mixed :
    ∃ ctx, [Op.alloc ⟨0, 0x2000, { VmaFlags.none with guardPage := true }, none⟩
          ⟨fun _ => none, zeroPage⟩,
        .alloc ⟨0x400000, 1, { VmaFlags.none with hugePage := true }, none⟩
          ⟨fun _ => none, zeroPage⟩,
        .alloc ⟨0, 0x1000, { VmaFlags.none with reserve := true }, none⟩
          ⟨fun _ => none, zeroPage⟩,
        .free 0x2000 0x2000].foldlM step ⟨false, []⟩ = some ctx ∧ Disjoint ctx.pages :=
  disjoint_run (by decide +kernel)

/-- A huge page at 0x200000 and then a normal page at 0x201000: the existence
check looks for a node at 0x201000 only. -/
theorem overlap_of_huge_page :
    ∃ ctx, [Op.alloc ⟨0x200000, 0x200000, { VmaFlags.none with hugePage := true }, none⟩
          ⟨fun _ => none, zeroPage⟩,
        .alloc ⟨0x201000, 0x1000, VmaFlags.none, none⟩ ⟨fun _ => none, zeroPage⟩].foldlM step
          ⟨false, []⟩ = some ctx ∧ ¬ Disjoint ctx.pages :=
  ⟨⟨false, [⟨0x200000, true, false, false⟩, ⟨0x201000, false, false, false⟩]⟩, by decide +kernel, by
    rw [Disjoint]
    decide⟩

end Obos.VirtualMemory
