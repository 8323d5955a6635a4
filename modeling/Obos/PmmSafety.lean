/-
Safety of the physical page allocator over whole histories.

`Sys` is the allocator together with the blocks its callers hold.  A history
is a list of `Call`s: an allocation, the release of a block that is held, or a
write of arbitrary bytes into a block that is held.  `Safe` is what has to
hold in every state: both free lists are null-terminated, acyclic and doubly
linked, and the free regions and the held blocks are pairwise apart.

`free` links a node behind the tail without clearing the node's `next` field,
which is whatever the owner left there.  So `Safe` holds along every history
in which a released block has a zero there and no page count wraps
(`safe_run`), and one nonzero byte breaks it (`not_safe_of_dirty_page`).

`allocate` adds to `Mm_TotalPhysicalPagesUsed` what it takes off the lists and
`free` subtracts what it puts there, so that the sum of the counter and of the
free pages never changes modulo `2 ^ 64`: the `Ledger` is part of what a history
keeps (`inv_ledger_run`).
-/
import Obos.Pmm
import Obos.Lib.FreeList
import Obos.Lib.Run

open FreeList (setCount Ends unlink)

namespace Obos.Pmm

open DLinked Function List

/-! ### The lists as free lists of pages -/

instance : Fintype Zone := ⟨{.low, .high}, fun z => by cases z <;> decide⟩

/-- A region is counted in pages. -/
def layout : FreeList.Layout := ⟨pageSize, nodeSize, by decide, by decide⟩

def FreeList.ends (l : FreeList) : Ends := ⟨l.head, l.tail⟩

/-! ### The system and its safety property -/

/-- The allocator and the blocks that its callers hold: address and page count
as requested. -/
structure Sys where
  pmm : State
  live : List (ℕ × ℕ)

/-- What the owners of memory can do. -/
inductive Call where
  | alloc (nPages alignmentPages : ℕ)
  | free (addr nPages : ℕ)
  /-- The owner of a block writes bytes into it. -/
  | write (addr nPages : ℕ) (bytes : ByteMem)

section

variable (m : ByteMem)

/-- The memory of a free region. -/
def region (node : ℕ) : Span := ⟨node, nodePages m node * pageSize⟩

/-- The memory of a held block. -/
def block (b : ℕ × ℕ) : Span := ⟨b.1, b.2 * pageSize⟩

def step (s : Sys) : Call → Option Sys
  | .alloc nPages alignmentPages =>
    (allocatePhysicalPages s.pmm nPages alignmentPages).map fun r =>
      { pmm := r.1
        live := if r.2.1 = 0 then s.live else (r.2.1, nPages) :: s.live }
  | .free addr nPages =>
    some { pmm := (freePhysicalPages s.pmm addr nPages).1, live := s.live.erase (addr, nPages) }
  | .write addr nPages bytes =>
    some { s with pmm := { s.pmm with mem := s.pmm.mem.overwrite (block (addr, nPages)) bytes } }

/-- Blocks are released and written by their owners only. -/
def Legal (s : Sys) : Call → Prop
  | .alloc _ _ => True
  | .free addr nPages => (addr, nPages) ∈ s.live
  | .write addr nPages _ => (addr, nPages) ∈ s.live

variable (ns : Zone → List ℕ)

/-- The memory taken by the free regions of both lists and by the held blocks. -/
def spans (live : List (ℕ × ℕ)) : List Span :=
  (ns .high).map (region m) ++ (ns .low).map (region m) ++ live.map block

/-- The free lists are well linked, and free regions and held blocks are
pairwise apart. -/
def Safe (s : Sys) : Prop :=
  ∃ ns : Zone → List ℕ,
    (∀ z, IsList (next s.pmm.mem) (prev s.pmm.mem) 0 (s.pmm.list z).head (s.pmm.list z).tail
      (ns z)) ∧
    (spans s.pmm.mem ns s.live).Pairwise Span.Apart

/-- The number of pages on the two free lists. -/
def pageSum : ℕ :=
  ((ns .high).map (nodePages m)).sum + ((ns .low).map (nodePages m)).sum

/-- The pages that are held by callers, as they were asked for. -/
def heldPages (live : List (ℕ × ℕ)) : ℕ := (live.map Prod.snd).sum

/-- The regions of a list: address and page count. -/
def runs (xs : List ℕ) : List (ℕ × ℕ) := xs.map fun x => (x, nodePages m x)

/-- The nodes of a free list, read from its head. -/
def State.nodes (s : State) (z : Zone) : List ℕ :=
  toList (next s.mem) 0 (2 ^ 64) (s.list z).head

/-- Room for a whole number of pages below the end of the address space. -/
def PageRun (a n : ℕ) : Prop := 0 < n ∧ a ≠ 0 ∧ a % pageSize = 0 ∧ a + n * pageSize < 2 ^ 64

/-- The invariant behind `Safe`, with the nodes of the two lists as `ns`. -/
structure Inv (m : ByteMem) (fl : Zone → FreeList) (live : List (ℕ × ℕ))
    (ns : Zone → List ℕ) : Prop where
  lists : ∀ z, IsList (next m) (prev m) 0 (fl z).head (fl z).tail (ns z)
  apart : (spans m ns live).Pairwise Span.Apart
  nodes : ∀ z, ∀ a ∈ ns z, PageRun a (nodePages m a)
  blocks : ∀ b ∈ live, PageRun b.1 b.2

def Zone.other : Zone → Zone
  | .low => .high
  | .high => .low

theorem Zone.other_ne (z : Zone) : z.other ≠ z := by
  cases z <;> simp [Zone.other]

/-- The spans are those of the free lists and of the held blocks. -/
theorem spans_perm (live : List (ℕ × ℕ)) :
    (spans m ns live).Perm (FreeList.regions layout m ns ++ live.map block) := by
  have hlow : FreeList.others layout m ns .high = (ns .low).map (region m) := by
    have hz : (Finset.univ : Finset Zone).erase .high = {.low} := by decide
    rw [FreeList.others, hz, Finset.toList_singleton, flatMap_singleton]
    rfl
  have hperm := FreeList.regions_perm layout m ns .high
  rw [hlow] at hperm
  exact hperm.symm.append_right _

/-- The pages with those of one list in front. -/
theorem pageSum_eq (z : Zone) :
    pageSum m ns = ((ns z).map (nodePages m)).sum + ((ns z.other).map (nodePages m)).sum := by
  cases z with
  | high => rfl
  | low => exact Nat.add_comm _ _

/-- The pages only depend on the page counts of the nodes. -/
theorem pageSum_congr {m m' : ByteMem} {ns : Zone → List ℕ}
    (h : ∀ z, ∀ x ∈ ns z, nodePages m' x = nodePages m x) : pageSum m' ns = pageSum m ns := by
  rw [pageSum, pageSum, map_congr_left (h .high), map_congr_left (h .low)]

theorem pageSum_runs :
    pageSum m ns = heldPages (runs m (ns .high)) + heldPages (runs m (ns .low)) := by
  simp only [pageSum, heldPages, runs, map_map]
  rfl

end

/-- One more region on the list `z`. -/
theorem pageSum_add {m m' : ByteMem} {ns ns' : Zone → List ℕ} {z : Zone} {a n : ℕ}
    (h : ∀ z', runs m' (ns' z') = runs m (ns z') ++ if z' = z then [(a, n)] else []) :
    pageSum m' ns' = pageSum m ns + n := by
  rw [pageSum_runs, pageSum_runs, h, h]
  cases z <;> simp [heldPages] <;> omega

theorem pageRun_iff {m : ByteMem} {x : ℕ} :
    PageRun x (nodePages m x) ↔ FreeList.Room layout m x ∧ x % pageSize = 0 := by
  show _ ↔ (x ≠ 0 ∧ nodeSize ≤ nodePages m x * pageSize ∧ x + nodePages m x * pageSize < 2 ^ 64) ∧ _
  rw [PageRun, nodeSize, pageSize]
  omega

/-- A page run has fewer pages than there are addresses. -/
theorem PageRun.lt {a n : ℕ} (h : PageRun a n) : a < 2 ^ 64 ∧ n < 2 ^ 64 := by
  have hbd := h.2.2.2
  rw [pageSize] at hbd
  omega

namespace Inv

variable {m m' : ByteMem} {fl : Zone → FreeList} {live live' : List (ℕ × ℕ)}
  {ns : Zone → List ℕ} {z : Zone} {x : ℕ} {b : ℕ × ℕ}

theorem lib (h : Inv m fl live ns) :
    FreeList.Inv layout m (fun z => (fl z).ends) ns (live.map block) :=
  ⟨h.lists, Span.pairwise_perm (spans_perm m ns live) h.apart,
    fun z x hx => (pageRun_iff.mp (h.nodes z x hx)).1⟩

theorem of_lib (h : FreeList.Inv layout m (fun z => (fl z).ends) ns (live.map block))
    (hal : ∀ z, ∀ x ∈ ns z, x % pageSize = 0) (hb : ∀ b ∈ live, PageRun b.1 b.2) :
    Inv m fl live ns :=
  ⟨h.lists, Span.pairwise_perm (spans_perm m ns live).symm h.apart,
    fun z x hx => pageRun_iff.mpr ⟨h.nodes z x hx, hal z x hx⟩, hb⟩

/-- The number of nodes of a list is far below the search bound. -/
theorem length_lt (h : Inv m fl live ns) (z : Zone) : (ns z).length < 2 ^ 64 := h.lib.length_lt z

theorem nodes_eq {s : State} (h : Inv s.mem s.list live ns) : s.nodes = ns :=
  funext fun z => (h.lists z).toList_eq (h.length_lt z).le

/-- The order of the held blocks does not matter. -/
theorem perm (h : Inv m fl live ns) (hp : live.Perm live') : Inv m fl live' ns :=
  of_lib (h.lib.perm (hp.map block)) (fun z x hx => (h.nodes z x hx).2.2.1)
    fun b hb => h.blocks b (hp.mem_iff.mpr hb)

/-- Bytes written into a held block do not reach the nodes. -/
theorem overwrite_off (hb : b ∈ live) (bytes : ByteMem) (a : ℕ)
    (ha : ∀ t ∈ live.map block, ¬ t.Has a) : m.overwrite (block b) bytes a = m a :=
  ByteMem.overwrite_of_not_has (ha _ (mem_map_of_mem hb))

theorem write (h : Inv m fl live ns) (hb : b ∈ live) (bytes : ByteMem) :
    Inv (m.overwrite (block b) bytes) fl live ns :=
  of_lib (h.lib.write (overwrite_off hb bytes)) (fun z x hx => (h.nodes z x hx).2.2.1) h.blocks

theorem pageSum_write (h : Inv m fl live ns) (hb : b ∈ live) (bytes : ByteMem) :
    pageSum (m.overwrite (block b) bytes) ns = pageSum m ns :=
  pageSum_congr fun _ _ hx => (h.lib.sameNode (overwrite_off hb bytes) hx).count

end Inv

/-! ### Taking pages off a region -/

/-- The memory and the ends of a list after the region of `x` kept `left` of its
pages; with none left its node is unlinked and cleared. -/
def keep (m : ByteMem) (l : Ends) (x left : ℕ) : ByteMem × Ends :=
  if left = 0 then
    let r := unlink (setCount m x left) l x
    (r.1.zero ⟨x, nodeSize⟩, r.2)
  else (setCount m x left, l)

section Keep

variable {ζ : Type*} [Fintype ζ] [DecidableEq ζ] {m : ByteMem} {fl : ζ → Ends}
  {ns : ζ → List ℕ} {taken : List Span} {z : ζ} {x left n : ℕ}

/-- The last pages of the region of `x` become a taken span. -/
theorem keep_inv (h : FreeList.Inv layout m fl ns taken) (hx : x ∈ ns z) (hn : 0 < n)
    (hle : left + n ≤ nodePages m x) :
    ∃ ns', FreeList.Inv layout (keep m (fl z) x left).1
        (update fl z (keep m (fl z) x left).2) ns'
        (⟨x + left * pageSize, n * pageSize⟩ :: taken) ∧
      (∀ z', ns' z' = if z' = z ∧ left = 0 then (ns z).erase x else ns z') ∧
      (∀ z', ∀ y ∈ ns z', y ≠ x → nodePages (keep m (fl z) x left).1 y = nodePages m y) ∧
      (left ≠ 0 → nodePages (keep m (fl z) x left).1 x = left) := by
  have hmul : left * pageSize + n * pageSize ≤ nodePages m x * pageSize := by
    rw [← Nat.add_mul]
    exact Nat.mul_le_mul_right _ hle
  have hb : (Span.mk (x + left * pageSize) (n * pageSize)).Within (FreeList.region layout m x) := by
    show x ≤ x + left * pageSize ∧ x + left * pageSize + n * pageSize ≤ x + nodePages m x * pageSize
    omega
  by_cases h0 : left = 0
  · subst h0
    obtain ⟨l, r, hlr, h', hsame⟩ := h.drop hx 0 hb
    have hkeep : keep m (fl z) x 0 =
        ((unlink (setCount m x 0) (fl z) x).1.zero ⟨x, nodeSize⟩,
          (unlink (setCount m x 0) (fl z) x).2) := if_pos rfl
    have hzero : ∀ a, (∀ b ∈ ⟨x + 0 * pageSize, n * pageSize⟩ :: taken, ¬ b.Has a) →
        (keep m (fl z) x 0).1 a = (unlink (setCount m x 0) (fl z) x).1 a := by
      intro a ha
      have hxa : ¬ (Span.mk x nodeSize).Has a := by
        refine fun hxa => ha _ mem_cons_self ?_
        simp only [Span.Has, Span.stop_mk, nodeSize, pageSize] at hxa ⊢
        omega
      rw [hkeep]
      exact if_neg hxa
    have herase : (ns z).erase x = l ++ r := by
      have hxl : x ∉ l := fun hl => (h.mem_rest hlr (mem_append_left _ hl)).2 rfl
      rw [hlr, erase_append_right _ hxl, erase_cons_head]
    refine ⟨_, h'.write hzero, fun z' => ?_, fun z' y hy hyx => ?_, fun h0 => absurd rfl h0⟩
    · by_cases hz : z' = z
      · rw [hz, update_self, if_pos ⟨rfl, rfl⟩, herase]
      · rw [update_of_ne hz, if_neg fun h0 => hz h0.1]
    · have hy' : y ∈ update ns z (l ++ r) z' := by
        by_cases hz : z' = z
        · subst hz
          rw [update_self, ← herase]
          exact (mem_erase_of_ne hyx).mpr hy
        · rwa [update_of_ne hz]
      exact (h'.sameNode hzero hy').count.trans (hsame z' y hy').2
  · have hleft : left ≤ nodePages m x := (Nat.le_add_right _ _).trans hle
    have hkeep : keep m (fl z) x left = (setCount m x left, fl z) := if_neg h0
    rw [hkeep, update_eq_self]
    refine ⟨ns, h.shrink hx ?_ hleft hb le_rfl, fun z' => by rw [if_neg fun hz => h0 hz.2],
      fun z' y hy => (h.setCount_fields hx hy left).2.2, fun _ => ?_⟩
    · show nodeSize ≤ left * pageSize
      rw [nodeSize, pageSize]
      omega
    · exact FreeList.count_setCount_self (lt_of_le_of_lt hleft (m.load64_lt x))

end Keep

theorem pageSum_keep {m m' : ByteMem} {fl : Zone → Ends} {ns ns' : Zone → List ℕ}
    {taken : List Span} {z : Zone} {x left : ℕ} (h : FreeList.Inv layout m fl ns taken)
    (hx : x ∈ ns z)
    (hns : ∀ z', ns' z' = if z' = z ∧ left = 0 then (ns z).erase x else ns z')
    (hsame : ∀ z', ∀ y ∈ ns z', y ≠ x → nodePages m' y = nodePages m y)
    (hself : left ≠ 0 → nodePages m' x = left) :
    pageSum m' ns' + nodePages m x = pageSum m ns + left := by
  have hother : (ns z.other).map (nodePages m') = (ns z.other).map (nodePages m) :=
    map_congr_left fun y hy => hsame _ y hy fun he =>
      h.not_mem_of_ne hx z.other_ne (he ▸ hy)
  have hrest : ((ns z).erase x).map (nodePages m') = ((ns z).erase x).map (nodePages m) :=
    map_congr_left fun y hy =>
      have hy' := (h.lists z).nodup.mem_erase_iff.mp hy
      hsame z y hy'.2 hy'.1
  have hsum := sum_map_erase (nodePages m) hx
  have hsum' := sum_map_erase (nodePages m') hx
  rw [pageSum_eq m' ns' z, pageSum_eq m ns z, hns z.other, if_neg fun hz => z.other_ne hz.1, hother,
    hns z]
  rw [hrest] at hsum'
  by_cases h0 : left = 0
  · rw [if_pos ⟨rfl, h0⟩, hrest]
    omega
  · rw [if_neg fun hz => h0 hz.2]
    have := hself h0
    omega

/-! ### Allocation keeps the invariant -/

section Allocation

variable {s : State} {live : List (ℕ × ℕ)} {ns : Zone → List ℕ} {z : Zone} {x req n : ℕ}

theorem takePages_addr (hrun : PageRun x (nodePages s.mem x)) (hreq : req ≤ nodePages s.mem x) :
    u64sub (nodePages s.mem x) req = nodePages s.mem x - req ∧
    (takePages s z x req).2 = x + (nodePages s.mem x - req) * pageSize := by
  have hleft := u64sub_of_le hreq (s.mem.load64_lt x)
  have hmul : (nodePages s.mem x - req) * pageSize ≤ nodePages s.mem x * pageSize :=
    Nat.mul_le_mul_right _ (Nat.sub_le _ _)
  have hbd := hrun.2.2.2
  have h1 : (nodePages s.mem x - req) * pageSize < 2 ^ 64 := by omega
  have h2 : x + (nodePages s.mem x - req) * pageSize < 2 ^ 64 := by omega
  refine ⟨hleft, ?_⟩
  simp only [takePages]
  rw [hleft]
  split
  · rw [u64_of_lt h1, u64_of_lt h2]
  · rw [u64_of_lt h1, u64_of_lt h2]

theorem takePages_state (s : State) (z : Zone) (x req : ℕ) :
    (takePages s z x req).1.mem =
      (keep s.mem (s.list z).ends x (u64sub (nodePages s.mem x) req)).1 ∧
    (fun z' => ((takePages s z x req).1.list z').ends) =
      update (fun z' => (s.list z').ends) z
        (keep s.mem (s.list z).ends x (u64sub (nodePages s.mem x) req)).2 := by
  simp only [takePages, keep]
  split
  · cases z <;> exact ⟨rfl, funext fun z' => by cases z' <;> rfl⟩
  · exact ⟨rfl, (update_eq_self z _).symm⟩

/-- `s'` is `s` after `req` pages were taken off the free lists for a block of
`n` pages at `phys`, which is now held. -/
structure Took (s s' : State) (live : List (ℕ × ℕ)) (ns : Zone → List ℕ) (n phys req : ℕ) :
    Prop where
  ne_zero : phys ≠ 0
  used : s'.totalPhysicalPagesUsed = u64 (s.totalPhysicalPagesUsed + req)
  total : s'.totalPhysicalPages = s.totalPhysicalPages
  inv : ∃ ns', Inv s'.mem s'.list ((phys, n) :: live) ns' ∧
    pageSum s'.mem ns' + req = pageSum s.mem ns

/-- Besides, the block lies in the region of `x`, and the regions that are free now
were part of a region of the same list. -/
structure Drawn (s s' : State) (live : List (ℕ × ℕ)) (ns : Zone → List ℕ) (x n phys req : ℕ) :
    Prop extends Took s s' live ns n phys req where
  inside : (block (phys, n)).Within (region s.mem x)
  fewer : ∀ z, ∀ x ∈ s'.nodes z, x ∈ ns z ∧ nodePages s'.mem x ≤ nodePages s.mem x

theorem takePages_used (s : State) (z : Zone) (x req : ℕ) :
    (takePages s z x req).1.totalPhysicalPagesUsed = u64 (s.totalPhysicalPagesUsed + req) ∧
    (takePages s z x req).1.totalPhysicalPages = s.totalPhysicalPages := by
  simp only [takePages]
  split
  · cases z <;> exact ⟨rfl, rfl⟩
  · exact ⟨rfl, rfl⟩

/-- The block that `takePages` delivers is not the null pointer, and the
invariant holds with the block held. -/
theorem Inv.takePages (h : Inv s.mem s.list live ns) (hx : x ∈ ns z) (hn0 : 0 < n)
    (hn : n ≤ req) (hreq : req ≤ nodePages s.mem x) :
    Drawn s (takePages s z x req).1 live ns x n (takePages s z x req).2 req := by
  obtain ⟨hleft, haddr⟩ := takePages_addr (h.nodes z x hx) hreq
  obtain ⟨hmem, hlist⟩ := takePages_state s z x req
  obtain ⟨hused, htotal⟩ := takePages_used s z x req
  obtain ⟨-, hx0, hal, hbd⟩ := h.nodes z x hx
  rw [hleft] at hmem hlist
  set left := nodePages s.mem x - req with hl
  have hle : left + n ≤ nodePages s.mem x := by omega
  obtain ⟨ns', h', hns, hsame, hself⟩ := keep_inv h.lib hx hn0 hle
  have hmul : (left + n) * pageSize ≤ nodePages s.mem x * pageSize := Nat.mul_le_mul_right _ hle
  rw [Nat.add_mul] at hmul
  have hold : ∀ z', ∀ y ∈ ns' z', y ∈ ns z' := by
    intro z' y hy
    rw [hns] at hy
    split at hy
    · next hz => exact hz.1 ▸ mem_of_mem_erase hy
    · exact hy
  have hinv : Inv (Pmm.takePages s z x req).1.mem (Pmm.takePages s z x req).1.list
      (((Pmm.takePages s z x req).2, n) :: live) ns' := by
    refine .of_lib ?_ (fun z' y hy => (h.nodes z' y (hold z' y hy)).2.2.1) ?_
    · rw [hmem, hlist, haddr]
      exact h'
    · rw [haddr]
      refine forall_mem_cons.mpr ⟨⟨hn0, by simp only; omega, ?_, by simp only; omega⟩, h.blocks⟩
      rw [Nat.add_mul_mod_self_right]
      exact hal
  refine ⟨⟨by rw [haddr]; omega, hused, htotal, ns', hinv, ?_⟩, ?_, fun z' y hy => ?_⟩
  · have hsum := pageSum_keep h.lib hx hns hsame hself
    rw [hmem]
    omega
  · rw [haddr]
    simp only [Span.Within, block, region, Span.stop_mk]
    omega
  · rw [hinv.nodes_eq] at hy
    refine ⟨hold z' y hy, ?_⟩
    rw [hmem]
    by_cases hyx : y = x
    · subst hyx
      have hleft0 : left ≠ 0 := by
        intro h0
        have hz : z' = z := of_not_not fun hz => h.lib.not_mem_of_ne hx hz (hold z' y hy)
        rw [hns, if_pos ⟨hz, h0⟩] at hy
        exact (h.lists z).nodup.not_mem_erase hy
      rw [hself hleft0]
      omega
    · exact (hsame z' y (hold z' y hy) hyx).le

/-- The request rounded up to its alignment, as a number without bound. -/
def roundUp (nPages alignmentPages : ℕ) : ℕ :=
  if nPages % alignmentPages ≠ 0 then nPages + (alignmentPages - nPages % alignmentPages)
  else nPages

theorem le_roundUp (n a : ℕ) : n ≤ roundUp n a := by
  unfold roundUp
  split <;> omega

/-- The pages that a request takes out of the region of `node`, as a number
without bound: the rounded request and the slack for the alignment. -/
def pagesNeeded (m : ByteMem) (node nPages alignmentPages : ℕ) : ℕ :=
  roundUp nPages alignmentPages +
    (nodePages m node &&& u64sub (u64 (maskOf alignmentPages + 1) / pageSize) 1) +
    (node &&& maskOf alignmentPages) / pageSize

theorem le_pagesNeeded (m : ByteMem) (node nPages alignmentPages : ℕ) :
    nPages ≤ pagesNeeded m node nPages alignmentPages := by
  exact (le_roundUp _ _).trans ((Nat.le_add_right _ _).trans (Nat.le_add_right _ _))

theorem roundRequest_eq {n a : ℕ} (h : roundUp n a < 2 ^ 64) : roundRequest n a = roundUp n a := by
  unfold roundRequest
  unfold roundUp at h ⊢
  split
  · rename_i ha
    rw [if_pos ha] at h
    exact u64_of_lt h
  · rfl

/-- Without wrapping, the search computes with `pagesNeeded`. -/
theorem nPagesRequired_eq {m : ByteMem} {node n a : ℕ} (h : pagesNeeded m node n a < 2 ^ 64) :
    nPagesRequired m node (roundRequest n a) (maskOf a) = pagesNeeded m node n a := by
  unfold pagesNeeded at h ⊢
  have hk := lt_of_le_of_lt (Nat.le_add_right _ _) h
  have hr := lt_of_le_of_lt (Nat.le_add_right _ _) hk
  rw [nPagesRequired, roundRequest_eq hr, u64_of_lt hk, u64_of_lt h]

/-- The test of the search for a region. -/
def suits (s : State) (n a : ℕ) (node : ℕ) : Bool :=
  isRegionSufficient s.mem node (roundRequest n a) (maskOf a)

/-- A request that `allocate` does not turn down at once. -/
def Admissible (n a : ℕ) : Prop := n ≠ 0 ∧ ¬ 1 < popcount a

/-- The search finds the first region of the list that suits. -/
theorem allocate_eq {xs : List ℕ}
    (hl : IsList (next s.mem) (prev s.mem) 0 (s.list z).head (s.list z).tail xs)
    (hlen : xs.length < 2 ^ 64) {a : ℕ} (had : Admissible n (if a = 0 then 1 else a)) :
    allocate s z n a =
      match xs.find? (suits s n (if a = 0 then 1 else a)) with
      | none => some (s, 0, .notEnoughMemory)
      | some x =>
        let r := takePages s z x (nPagesRequired s.mem x
          (roundRequest n (if a = 0 then 1 else a)) (maskOf (if a = 0 then 1 else a)))
        some (r.1, r.2, .success) := by
  unfold allocate
  rw [if_neg had.1]
  dsimp only
  rw [if_neg had.2]
  by_cases hhead : (s.list z).head = 0
  · rw [if_pos hhead, hl.head_eq_null_iff.mp hhead, List.find?_nil]
  rw [if_neg hhead, hl.walk_eq hlen]
  rw [show (fun node => isRegionSufficient s.mem node (roundRequest n (if a = 0 then 1 else a))
    (maskOf (if a = 0 then 1 else a))) = suits s n (if a = 0 then 1 else a) from rfl]
  cases hfind : xs.find? (suits s n (if a = 0 then 1 else a)) with
  | none => rfl
  | some x =>
    have hx : x ≠ 0 := fun h0 => hl.null_notMem (h0 ▸ mem_of_find?_eq_some hfind)
    simp [if_neg hx]

/-- An allocation from one list fails without effect, or takes pages out of the
first region that suits. -/
theorem Inv.allocate (h : Inv s.mem s.list live ns) (z : Zone) (n a : ℕ)
    (hw : ∀ node ∈ ns z, pagesNeeded s.mem node n (if a = 0 then 1 else a) < 2 ^ 64) :
    ∃ s' phys status, allocate s z n a = some (s', phys, status) ∧
      (phys = 0 ∧ s' = s ∧
          (Admissible n (if a = 0 then 1 else a) →
            (ns z).find? (suits s n (if a = 0 then 1 else a)) = none) ∨
        Admissible n (if a = 0 then 1 else a) ∧
          ∃ x, (ns z).find? (suits s n (if a = 0 then 1 else a)) = some x ∧
            Drawn s s' live ns x n phys (pagesNeeded s.mem x n (if a = 0 then 1 else a))) := by
  by_cases had : Admissible n (if a = 0 then 1 else a)
  · rw [allocate_eq (h.lists z) (h.length_lt z) had]
    cases hfind : (ns z).find? (suits s n (if a = 0 then 1 else a)) with
    | none => exact ⟨_, _, _, rfl, Or.inl ⟨rfl, rfl, fun _ => rfl⟩⟩
    | some x =>
      have hx := mem_of_find?_eq_some hfind
      have hsuff := List.find?_some hfind
      simp only [suits, isRegionSufficient, decide_eq_true_eq] at hsuff
      dsimp only
      rw [nPagesRequired_eq (hw x hx)] at hsuff ⊢
      have htook := h.takePages hx (Nat.pos_of_ne_zero had.1) (le_pagesNeeded _ _ _ _) hsuff
      exact ⟨_, _, _, rfl, Or.inr ⟨had, x, rfl, htook⟩⟩
  · -- the request is turned down at once
    refine ⟨s, 0, .invalidArgument, ?_, Or.inl ⟨rfl, rfl, fun h => absurd h had⟩⟩
    unfold Pmm.allocate
    by_cases hn : n = 0
    · rw [if_pos hn]
    · rw [if_neg hn]
      exact if_pos (not_not.mp fun hpop => had ⟨hn, hpop⟩)

/-- The region that serves a request: the first that suits, on the high list or
else on the low one. -/
theorem Inv.allocatePhysicalPages (h : Inv s.mem s.list live ns) (n a : ℕ)
    (hw : ∀ z, ∀ node ∈ ns z, pagesNeeded s.mem node n (if a = 0 then 1 else a) < 2 ^ 64) :
    ∃ s' phys status, allocatePhysicalPages s n a = some (s', phys, status) ∧
      (phys = 0 ∧ s' = s ∨
        ∃ x, (ns .high ++ ns .low).find? (suits s n (if a = 0 then 1 else a)) = some x ∧
          Drawn s s' live ns x n phys (pagesNeeded s.mem x n (if a = 0 then 1 else a))) := by
  obtain ⟨s₁, phys, status, heq, hres⟩ := h.allocate .high n a (hw .high)
  rw [Pmm.allocatePhysicalPages, heq]
  rcases hres with ⟨hp, rfl, hnone⟩ | ⟨-, x, hx, htook⟩
  · -- the high list had nothing, so the low list decides
    simp only [hp, ne_eq, not_true_eq_false, if_false]
    obtain ⟨s₂, phys₂, status₂, heq₂, hres₂⟩ := h.allocate .low n a (hw .low)
    refine ⟨s₂, phys₂, status₂, heq₂, ?_⟩
    rcases hres₂ with ⟨hp₂, hs₂, -⟩ | ⟨had, x, hx, htook⟩
    · exact Or.inl ⟨hp₂, hs₂⟩
    · exact Or.inr ⟨x, by rw [List.find?_append, hnone had, hx, Option.none_or], htook⟩
  · simp only [ne_eq, htook.ne_zero, not_false_eq_true, if_true]
    exact ⟨_, _, _, rfl, Or.inr ⟨x, by rw [List.find?_append, hx, Option.some_or], htook⟩⟩

end Allocation

/-! ### Freeing keeps the invariant -/

section Freeing

variable {s : State} {live : List (ℕ × ℕ)} {ns : Zone → List ℕ} {z : Zone} {a n : ℕ}

theorem free_eq (s : State) (z : Zone) (a : ℕ) (hn : n ≠ 0) :
    (free s z a n).mem = (FreeList.append (setCount s.mem a n) (s.list z).ends a).1 ∧
    (fun z' => ((free s z a n).list z').ends) = update (fun z' => (s.list z').ends) z
      (FreeList.append (setCount s.mem a n) (s.list z).ends a).2 := by
  unfold free
  rw [if_neg hn]
  refine ⟨rfl, ?_⟩
  cases z <;> exact funext fun z' => by cases z' <;> rfl

/-- Writing the page count of a held block does not reach the nodes. -/
theorem Inv.setCount_off (h : Inv s.mem s.list ((a, n) :: live) ns) (a' : ℕ)
    (ha : ∀ t ∈ ((a, n) :: live).map block, ¬ t.Has a') :
    setCount s.mem a n a' = s.mem a' := by
  have hn := (h.blocks _ mem_cons_self).1
  refine FreeList.setCount_of_not_has n fun hw => ha _ mem_cons_self ?_
  simp only [block, Span.Has, Span.stop_mk, pageSize] at hw ⊢
  omega

/-- A held block whose second word is zero becomes a free region. -/
theorem Inv.free (h : Inv s.mem s.list ((a, n) :: live) ns) (z : Zone)
    (hnext : next s.mem a = 0) :
    ∃ ns', Inv (free s z a n).mem (free s z a n).list live ns' ∧
      ∀ z', runs (free s z a n).mem (ns' z') =
        runs s.mem (ns z') ++ if z' = z then [(a, n)] else [] := by
  have hrun := h.blocks _ mem_cons_self
  obtain ⟨hmem, hlist⟩ := free_eq s z a hrun.1.ne'
  have hcount : FreeList.count (setCount s.mem a n) a = n :=
    FreeList.count_setCount_self hrun.lt.2
  have hroom : PageRun a (nodePages (setCount s.mem a n) a) :=
    (congrArg (PageRun a) hcount).mpr hrun
  have h₁ := h.lib.write h.setCount_off
  rw [map_cons, show block (a, n) = ⟨a, FreeList.count (setCount s.mem a n) a *
    layout.unit⟩ by rw [hcount]; rfl] at h₁
  obtain ⟨h', hnew⟩ := h₁.append (z := z) (pageRun_iff.mp hroom).1
    (FreeList.next_setCount_self.trans hnext)
  have hold : ∀ z', ∀ y ∈ ns z', nodePages (setCount s.mem a n) y = nodePages s.mem y :=
    fun z' y hy => (h.lib.sameNode h.setCount_off hy).count
  refine ⟨update ns z (ns z ++ [a]), .of_lib ?_ (fun z' y hy => ?_)
    fun b hb => h.blocks b (mem_cons_of_mem _ hb), fun z' => ?_⟩
  · rw [hmem, hlist]
    exact h'
  · obtain hy | rfl := (hnew z' y hy).1
    · exact (h.nodes z' y hy).2.2.1
    · exact hrun.2.2.1
  · have hself : nodePages (setCount s.mem a n) a = n := hcount
    have hcounts : runs (Pmm.free s z a n).mem (update ns z (ns z ++ [a]) z') =
        runs (setCount s.mem a n) (update ns z (ns z ++ [a]) z') := by
      rw [hmem]
      exact map_congr_left fun y hy => Prod.ext rfl (hnew z' y hy).2
    have hkeep : runs (setCount s.mem a n) (ns z') = runs s.mem (ns z') :=
      map_congr_left fun y hy => Prod.ext rfl (hold z' y hy)
    rw [hcounts, ← hkeep]
    by_cases hz : z' = z
    · subst hz
      simp [runs, hself]
    · simp [hz]

/-- `~0xffffffff` is zero, so no block is ever split at 4 GiB. -/
theorem splitPages_eq (a : ℕ) {n : ℕ} (hn : n < 2 ^ 64) : splitPages a n = (n, 0) := by
  have h0 : notMask32 = 0 := by decide
  unfold splitPages
  simp [h0, u64sub_of_le (Nat.zero_le n) hn]

/-- The list that takes a block back. -/
def zoneOf (addr : ℕ) : Zone := if addr < 0xffffffff then .low else .high

theorem freePhysicalPages_eq (s : State) (h : PageRun a n) :
    (freePhysicalPages s a n).1.mem = (free s (zoneOf a) a n).mem ∧
    (freePhysicalPages s a n).1.list = (free s (zoneOf a) a n).list ∧
    (freePhysicalPages s a n).1.totalPhysicalPagesUsed = u64sub s.totalPhysicalPagesUsed n ∧
    (freePhysicalPages s a n).1.totalPhysicalPages = s.totalPhysicalPages := by
  have hn64 := h.lt.2
  obtain ⟨hn, ha0, hal, -⟩ := h
  have hlists : (freeToLists s a n).1 = free s (zoneOf a) a n := by
    unfold freeToLists zoneOf
    split
    · rw [splitPages_eq a hn64]
      rfl
    · rfl
  have hused : ∀ z, (free s z a n).totalPhysicalPagesUsed = u64sub s.totalPhysicalPagesUsed n ∧
      (free s z a n).totalPhysicalPages = s.totalPhysicalPages := by
    intro z
    unfold free
    rw [if_neg hn.ne']
    cases z <;> exact ⟨rfl, rfl⟩
  unfold freePhysicalPages
  simp only [hal, Nat.sub_zero, if_neg ha0]
  rw [← (hused (zoneOf a)).1, ← (hused (zoneOf a)).2, ← hlists]
  exact ⟨rfl, funext fun z => by cases z <;> rfl, rfl, rfl⟩

theorem Inv.freePhysicalPages (h : Inv s.mem s.list ((a, n) :: live) ns)
    (hnext : next s.mem a = 0) :
    ∃ ns', Inv (freePhysicalPages s a n).1.mem (freePhysicalPages s a n).1.list live ns' ∧
      ∀ z, runs (freePhysicalPages s a n).1.mem (ns' z) =
        runs s.mem (ns z) ++ if z = zoneOf a then [(a, n)] else [] := by
  obtain ⟨hmem, hlist, -⟩ := freePhysicalPages_eq s (h.blocks _ mem_cons_self)
  rw [hmem, hlist]
  exact h.free (zoneOf a) hnext

/-- Freeing one block does not touch the others. -/
theorem Inv.next_freePhysicalPages (h : Inv s.mem s.list ((a, n) :: live) ns) {b : ℕ × ℕ}
    (hb : b ∈ live) : next (Pmm.freePhysicalPages s a n).1.mem b.1 = next s.mem b.1 := by
  have hrun := h.blocks _ mem_cons_self
  have hlen : 24 ≤ n * pageSize := by
    have hpos := hrun.1
    simp only [pageSize] at hpos ⊢
    omega
  have hposb := (h.blocks b (mem_cons_of_mem _ hb)).1
  rw [(freePhysicalPages_eq s hrun).1, (free_eq s _ a hrun.1.ne').1]
  refine ByteMem.load_congr fun x hx => ?_
  have hbx : (block b).Has x := by
    simp only [block, Span.Has, Span.stop_mk, pageSize] at hx hposb ⊢
    omega
  have h₁ := h.lib.write h.setCount_off
  refine (h₁.append_taken hlen (mem_map_of_mem hb) hbx).trans ?_
  -- the block that is freed has no byte in common with `b`
  have hlive := (pairwise_append.mp h.lib.apart).2.1
  have hab := (pairwise_cons.mp hlive).1 _ (mem_map_of_mem hb)
  refine FreeList.setCount_of_not_has n fun hw => hab.symm.not_has hbx ?_
  simp only [block, Span.Has, Span.stop_mk] at hw ⊢
  omega

end Freeing

/-! ### The balance -/

/-- The balance of the allocator, where the memory map has `idle` pages in
records that are not seeded and `usable` pages in those that are. -/
structure Ledger (s : State) (live : List (ℕ × ℕ)) (ns : Zone → List ℕ) (idle usable : ℕ) :
    Prop where
  used_lt : s.totalPhysicalPagesUsed < 2 ^ 64
  balance : s.totalPhysicalPagesUsed + pageSum s.mem ns ≡ idle [MOD 2 ^ 64]
  total : s.totalPhysicalPages = (idle + usable) % 2 ^ 64
  held : pageSum s.mem ns + heldPages live ≤ usable

section Ledger

variable {s s' : State} {live : List (ℕ × ℕ)} {ns ns' : Zone → List ℕ} {idle usable n phys req : ℕ}

/-- Pages taken off the lists are added to the counter. -/
theorem Ledger.took (h : Ledger s live ns idle usable) (hn : n ≤ req)
    (hused : s'.totalPhysicalPagesUsed = u64 (s.totalPhysicalPagesUsed + req))
    (htotal : s'.totalPhysicalPages = s.totalPhysicalPages)
    (hsum : pageSum s'.mem ns' + req = pageSum s.mem ns) :
    Ledger s' ((phys, n) :: live) ns' idle usable := by
  have hheld := h.held
  refine ⟨hused ▸ u64_lt _, ?_, htotal.trans h.total, ?_⟩
  · have hcast : u64 (s.totalPhysicalPagesUsed + req) + pageSum s'.mem ns' ≡
        s.totalPhysicalPagesUsed + req + pageSum s'.mem ns' [MOD 2 ^ 64] :=
      (Nat.mod_modEq _ _).add_right _
    rw [hused]
    refine hcast.trans ?_
    rw [Nat.add_assoc, Nat.add_comm req, hsum]
    exact h.balance
  · rw [heldPages, map_cons, sum_cons]
    rw [heldPages] at hheld
    omega

/-- Pages put on the lists are subtracted from it. -/
theorem Ledger.gave (h : Ledger s ((phys, n) :: live) ns idle usable) (hn : n < 2 ^ 64)
    (hused : s'.totalPhysicalPagesUsed = u64sub s.totalPhysicalPagesUsed n)
    (htotal : s'.totalPhysicalPages = s.totalPhysicalPages)
    (hsum : pageSum s'.mem ns' = pageSum s.mem ns + n) : Ledger s' live ns' idle usable := by
  have hheld := h.held
  rw [heldPages, map_cons, sum_cons] at hheld
  refine ⟨hused ▸ u64sub_lt _ _, ?_, htotal.trans h.total, ?_⟩
  · have hcast : u64sub s.totalPhysicalPagesUsed n + (pageSum s.mem ns + n) ≡
        s.totalPhysicalPagesUsed + (2 ^ 64 - n) + (pageSum s.mem ns + n) [MOD 2 ^ 64] :=
      (Nat.mod_modEq _ _).add_right _
    rw [hused, hsum]
    refine hcast.trans ?_
    rw [show s.totalPhysicalPagesUsed + (2 ^ 64 - n) + (pageSum s.mem ns + n) =
      s.totalPhysicalPagesUsed + pageSum s.mem ns + 2 ^ 64 by omega]
    exact (Nat.add_modEq_right (n := 2 ^ 64)).trans h.balance
  · rw [hsum, heldPages]
    have hsnd : (phys, n).2 = n := rfl
    omega

end Ledger

/-! ### Initialization -/

/-- A usable record of the memory map lies below the end of the address space
and has at least a page when its start is moved up; usable records are apart. -/
structure MapOk (es : List MemMapEntry) : Prop where
  bounded : ∀ e ∈ es, e.usable → e.physicalAddress + e.size < 2 ^ 64
  whole : ∀ e ∈ es, e.usable → (e.physicalAddress % pageSize ≠ 0 ∨ e.physicalAddress = 0) →
    pageSize ≤ e.size
  apart : ((es.filter (·.usable)).map fun e => Span.mk e.physicalAddress e.size).Pairwise Span.Apart

/-- The first page of every usable record has a zero where `next` will be. -/
def CleanBoot (mem : ByteMem) (es : List MemMapEntry) : Prop :=
  ∀ e ∈ es, e.usable → (entryPages e).2 ≠ 0 → next mem (entryPages e).1 = 0

section

variable {e : MemMapEntry}

/-- The whole pages of a usable record lie inside it. -/
theorem entryPages_within (hb : e.physicalAddress + e.size < 2 ^ 64)
    (hw : (e.physicalAddress % pageSize ≠ 0 ∨ e.physicalAddress = 0) → pageSize ≤ e.size) :
    (entryPages e).1 ≠ 0 ∧ (entryPages e).1 % pageSize = 0 ∧
    (block (entryPages e)).Within ⟨e.physicalAddress, e.size⟩ := by
  have hsub : pageSize ≤ e.size → u64sub (e.size / pageSize) 1 = e.size / pageSize - 1 := by
    simp only [pageSize]
    exact fun hs => u64sub_of_le (by omega) (by omega)
  by_cases hal : e.physicalAddress % pageSize = 0
  · by_cases h0 : e.physicalAddress = 0
    · have hs := hw (Or.inr h0)
      have he : entryPages e = (pageSize, e.size / pageSize - 1) := by
        simp [entryPages, h0, hsub hs]
      rw [he]
      refine ⟨Nat.succ_ne_zero 4095, Nat.mod_self _, ?_⟩
      simp only [block, Span.Within, Span.stop_mk, pageSize] at hs ⊢
      omega
    · have he : entryPages e = (e.physicalAddress, e.size / pageSize) := by
        simp [entryPages, h0, hal]
      rw [he]
      simp only [block, Span.Within, Span.stop_mk, pageSize] at hal ⊢
      omega
  · have hs := hw (Or.inl hal)
    have hup : e.physicalAddress + (pageSize - e.physicalAddress % pageSize) < 2 ^ 64 := by
      simp only [pageSize] at hs ⊢
      omega
    have hpos : e.physicalAddress ≠ 0 := fun h0 => hal (by rw [h0]; rfl)
    have he : entryPages e = (e.physicalAddress + (pageSize - e.physicalAddress % pageSize),
        e.size / pageSize - 1) := by
      simp [entryPages, hal, hsub hs, u64_of_lt hup, hpos]
    rw [he]
    simp only [block, Span.Within, Span.stop_mk, pageSize] at hal hs ⊢
    omega

/-- The blocks that initialization frees. -/
def usableBlocks (es : List MemMapEntry) : List (ℕ × ℕ) :=
  (es.filter fun e => e.usable && (entryPages e).2 != 0).map entryPages

variable {es : List MemMapEntry}

theorem mem_usableBlocks {b : ℕ × ℕ} :
    b ∈ usableBlocks es ↔ ∃ e ∈ es, (e.usable ∧ (entryPages e).2 ≠ 0) ∧ entryPages e = b := by
  simp [usableBlocks, mem_map, mem_filter, and_assoc]

/-- Before initialization the lists are empty and all usable memory is held. -/
theorem inv_boot (mem : ByteMem) {es : List MemMapEntry} (h : MapOk es) :
    Inv (State.boot mem).mem (State.boot mem).list (usableBlocks es) fun _ => [] := by
  refine ⟨fun z => ?_, ?_, fun z y hy => absurd hy not_mem_nil, fun b hb => ?_⟩
  · cases z <;> exact IsList.nil _ _ 0
  · have hsub : (es.filter fun e => e.usable && (entryPages e).2 != 0).Sublist
        (es.filter (·.usable)) := by
      rw [← filter_filter, filter_comm]
      exact filter_sublist
    have hmap := pairwise_map.mp (h.apart.sublist (hsub.map _))
    rw [spans, usableBlocks, map_map]
    refine pairwise_map.mpr (hmap.imp_of_mem fun {e e'} he he' hee => ?_)
    simp only [mem_filter, Bool.and_eq_true] at he he'
    exact hee.mono
      (entryPages_within (h.bounded e he.1 he.2.1) (h.whole e he.1 he.2.1)).2.2
      (entryPages_within (h.bounded e' he'.1 he'.2.1) (h.whole e' he'.1 he'.2.1)).2.2
  · obtain ⟨e, he, ⟨hu, hp⟩, rfl⟩ := mem_usableBlocks.mp hb
    obtain ⟨h0, hal, hwi⟩ := entryPages_within (h.bounded e he hu) (h.whole e he hu)
    have hbd := h.bounded e he hu
    have hstop := hwi.2
    simp only [block, Span.stop_mk] at hstop
    exact ⟨Nat.pos_of_ne_zero hp, h0, hal, by omega⟩

theorem initEntry_unusable {s : State} {e : MemMapEntry}
    (h : ¬ (e.usable ∧ (entryPages e).2 ≠ 0)) :
    (initEntry s e).mem = s.mem ∧ (initEntry s e).list = s.list ∧
    (initEntry s e).totalPhysicalPagesUsed =
      u64 (s.totalPhysicalPagesUsed + (entryPages e).2) ∧
    (initEntry s e).totalPhysicalPages = u64 (s.totalPhysicalPages + (entryPages e).2) := by
  have hc : (!e.usable || (entryPages e).2 == 0) = true := by
    cases hu : e.usable <;> simp_all
  simp only [initEntry]
  rw [if_pos hc]
  exact ⟨rfl, funext fun z => by cases z <;> rfl, rfl, rfl⟩

theorem initEntry_usable {s : State} {e : MemMapEntry} (h : e.usable ∧ (entryPages e).2 ≠ 0) :
    ∃ s' : State, s'.mem = s.mem ∧ s'.list = s.list ∧
      s'.totalPhysicalPagesUsed = s.totalPhysicalPagesUsed ∧
      s'.totalPhysicalPages = u64 (s.totalPhysicalPages + (entryPages e).2) ∧
      initEntry s e = (freePhysicalPages s' (entryPages e).1 (entryPages e).2).1 := by
  have hc : ¬ (!e.usable || (entryPages e).2 == 0) = true := by
    simp [h.1, h.2]
  simp only [initEntry]
  rw [if_neg hc]
  refine ⟨_, ?_, ?_, ?_, ?_, rfl⟩
  · rfl
  · exact funext fun z => by cases z <;> rfl
  · rfl
  · rfl

theorem usableBlocks_cons_of_pos (h : e.usable ∧ (entryPages e).2 ≠ 0) :
    usableBlocks (e :: es) = entryPages e :: usableBlocks es := by
  simp [usableBlocks, h.1, h.2]

theorem usableBlocks_cons_of_neg
    (h : ¬ (e.usable ∧ (entryPages e).2 ≠ 0)) : usableBlocks (e :: es) = usableBlocks es := by
  unfold usableBlocks
  rw [filter_cons_of_neg]
  simpa using h

/-- The pages of the records that initialization does not put on the lists. -/
def idlePages (es : List MemMapEntry) : ℕ :=
  ((es.filter fun e => !(e.usable && (entryPages e).2 != 0)).map fun e => (entryPages e).2).sum

/-- The pages of those that it does. -/
def usablePages (es : List MemMapEntry) : ℕ := heldPages (usableBlocks es)

theorem idlePages_cons_of_neg (h : ¬ (e.usable ∧ (entryPages e).2 ≠ 0)) :
    idlePages (e :: es) = (entryPages e).2 + idlePages es := by
  unfold idlePages
  rw [filter_cons_of_pos, map_cons, sum_cons]
  cases hu : e.usable <;> simp_all

theorem idlePages_cons_of_pos
    (h : e.usable ∧ (entryPages e).2 ≠ 0) : idlePages (e :: es) = idlePages es := by
  unfold idlePages
  rw [filter_cons_of_neg]
  simpa using h

end

/-- The loop of `Mm_InitializePMM`, record by record. -/
theorem Inv.ledger_foldl {es : List MemMapEntry} {s : State} {ns : Zone → List ℕ}
    {idle usable : ℕ} (h : Inv s.mem s.list (usableBlocks es) ns)
    (hclean : ∀ b ∈ usableBlocks es, next s.mem b.1 = 0) (hl : Ledger s [] ns idle usable) :
    ∃ ns', Inv (es.foldl initEntry s).mem (es.foldl initEntry s).list [] ns' ∧
      Ledger (es.foldl initEntry s) [] ns' (idle + idlePages es) (usable + usablePages es) ∧
      ∀ z, runs (es.foldl initEntry s).mem (ns' z) =
        runs s.mem (ns z) ++ (usableBlocks es).filter (z = zoneOf ·.1) := by
  induction es generalizing s ns idle usable with
  | nil => exact ⟨ns, h, hl, fun z => (append_nil _).symm⟩
  | cons e es ih =>
    by_cases he : e.usable ∧ (entryPages e).2 ≠ 0
    · rw [usableBlocks_cons_of_pos he] at h hclean
      obtain ⟨t, hm, hlist, hused, htotal, hs'⟩ := initEntry_usable (s := s) he
      rw [← hm, ← hlist, ← Prod.mk.eta (p := entryPages e)] at h
      have hrun := h.blocks _ mem_cons_self
      obtain ⟨ns', h', hruns⟩ := h.freePhysicalPages (hm ▸ hclean _ mem_cons_self)
      obtain ⟨-, -, hused', htotal'⟩ := freePhysicalPages_eq t hrun
      -- the record's pages are subtracted from a counter that never had them
      have hl' : Ledger (initEntry s e) [] ns' idle (usable + (entryPages e).2) := by
        have hbefore : Ledger t [entryPages e] ns idle (usable + (entryPages e).2) := by
          refine ⟨hused ▸ hl.used_lt, ?_, ?_, ?_⟩
          · rw [hused, hm]
            exact hl.balance
          · rw [htotal, hl.total, u64, Nat.mod_add_mod, Nat.add_assoc]
          · have := hl.held
            rw [hm]
            simp only [heldPages, map_cons, map_nil, sum_cons, sum_nil] at *
            omega
        rw [hs']
        exact hbefore.gave hrun.lt.2 hused' htotal' (pageSum_add hruns)
      rw [foldl_cons, idlePages_cons_of_pos he, usablePages, usableBlocks_cons_of_pos he,
        heldPages, map_cons, sum_cons, ← Nat.add_assoc]
      rw [hs'] at hl' ⊢
      obtain ⟨ns₁, h₁, hl₁, hruns₁⟩ := ih h' (fun b hb => by
        rw [h.next_freePhysicalPages hb, hm]
        exact hclean b (mem_cons_of_mem _ hb)) hl'
      refine ⟨ns₁, h₁, hl₁, fun z => ?_⟩
      rw [hruns₁, hruns, hm, append_assoc, filter_cons]
      simp only [decide_eq_true_eq]
      split <;> rfl
    · rw [usableBlocks_cons_of_neg he] at h hclean
      obtain ⟨hm, hlist, hused, htotal⟩ := initEntry_unusable (s := s) he
      rw [← hm, ← hlist] at h
      have hl' : Ledger (initEntry s e) [] ns (idle + (entryPages e).2) usable := by
        refine ⟨hused ▸ u64_lt _, ?_, ?_, ?_⟩
        · rw [hused, hm, show idle + (entryPages e).2 = (entryPages e).2 + idle by omega]
          refine ((Nat.mod_modEq _ _).add_right _).trans ?_
          rw [Nat.add_comm s.totalPhysicalPagesUsed, Nat.add_assoc]
          exact hl.balance.add_left _
        · rw [htotal, hl.total, u64, Nat.mod_add_mod]
          congr 1
          omega
        · rw [hm]
          exact hl.held
      rw [foldl_cons, idlePages_cons_of_neg he, usablePages, usableBlocks_cons_of_neg he,
        ← Nat.add_assoc]
      obtain ⟨ns₁, h₁, hl₁, hruns₁⟩ := ih h (hm ▸ hclean) hl'
      exact ⟨ns₁, h₁, hl₁, hm ▸ hruns₁⟩

theorem roundBoundaries_eq (s : State) :
    (roundBoundaries s).mem = s.mem ∧ (roundBoundaries s).list = s.list ∧
    (roundBoundaries s).totalPhysicalPagesUsed = s.totalPhysicalPagesUsed ∧
    (roundBoundaries s).totalPhysicalPages = s.totalPhysicalPages := by
  unfold roundBoundaries
  split
  · refine ⟨by simp only, funext fun z => ?_, rfl, rfl⟩
    cases z <;> simp [State.list]
  · exact ⟨rfl, rfl, rfl, rfl⟩

theorem inv_ledger_init {mem : ByteMem} {entries : ℕ → MemMapEntry} {nEntries : ℕ}
    (hmap : MapOk (memMapEntries entries nEntries))
    (hclean : CleanBoot mem (memMapEntries entries nEntries)) :
    ∃ ns, Inv (initializePMM mem entries nEntries).mem (initializePMM mem entries nEntries).list
        [] ns ∧
      Ledger (initializePMM mem entries nEntries) [] ns
        (idlePages (memMapEntries entries nEntries))
        (usablePages (memMapEntries entries nEntries)) ∧
      ∀ z, runs (initializePMM mem entries nEntries).mem (ns z) =
        (usableBlocks (memMapEntries entries nEntries)).filter (z = zoneOf ·.1) := by
  have hboot : Ledger (State.boot mem) [] (fun _ => []) 0 0 :=
    ⟨by simp [State.boot], rfl, rfl, le_rfl⟩
  obtain ⟨ns, h, hl, hruns⟩ := (inv_boot mem hmap).ledger_foldl (fun b hb => by
    obtain ⟨e, he, ⟨hu, hp⟩, rfl⟩ := mem_usableBlocks.mp hb
    exact hclean e he hu hp) hboot
  rw [Nat.zero_add, Nat.zero_add] at hl
  obtain ⟨hmem, hlist, hused, htotal⟩ :=
    roundBoundaries_eq ((memMapEntries entries nEntries).foldl initEntry (State.boot mem))
  rw [initializePMM]
  refine ⟨ns, ?_, ⟨?_, ?_, ?_, ?_⟩, fun z => ?_⟩
  · rw [hmem, hlist]
    exact h
  · rw [hused]
    exact hl.used_lt
  · rw [hmem, hused]
    exact hl.balance
  · rw [htotal]
    exact hl.total
  · rw [hmem]
    exact hl.held
  · rw [hmem]
    exact hruns z

/-! ### Whole histories -/

/-- The system after boot: all usable memory is free and nothing is held. -/
def Sys.init (mem : ByteMem) (entries : ℕ → MemMapEntry) (nEntries : ℕ) : Sys :=
  ⟨initializePMM mem entries nEntries, []⟩

/-- `node` is a node of one of the free lists. -/
def OnFreeList (s : State) (node : ℕ) : Prop :=
  ∃ z xs, IsList (next s.mem) (prev s.mem) 0 (s.list z).head (s.list z).tail xs ∧ node ∈ xs

/-- What keeps the lists well formed: a request whose page count does not wrap
for any free region, and a zero in the second word of a released block. -/
def Clean (s : Sys) : Call → Prop
  | .alloc nPages alignmentPages => ∀ node, OnFreeList s.pmm node →
      pagesNeeded s.pmm.mem node nPages (if alignmentPages = 0 then 1 else alignmentPages) < 2 ^ 64
  | .free addr _ => next s.pmm.mem addr = 0
  | .write _ _ _ => True

theorem Inv.safe {s : Sys} {ns : Zone → List ℕ} (h : Inv s.pmm.mem s.pmm.list s.live ns) :
    Safe s :=
  ⟨ns, h.lists, h.apart⟩

/-- The lists are well formed and the balance holds. -/
def Balanced (idle usable : ℕ) (s : Sys) : Prop :=
  ∃ ns, Inv s.pmm.mem s.pmm.list s.live ns ∧ Ledger s.pmm s.live ns idle usable

theorem heldPages_perm {l l' : List (ℕ × ℕ)} (h : l.Perm l') : heldPages l = heldPages l' :=
  (h.map _).sum_eq

/-- One call keeps the balance. -/
theorem balanced_step {idle usable : ℕ} (s : Sys) (c : Call) (hb : Balanced idle usable s)
    (hc : Legal s c ∧ Clean s c) : ∃ s', step s c = some s' ∧ Balanced idle usable s' := by
  obtain ⟨ns, h, hl⟩ := hb
  obtain ⟨hlegal, hclean⟩ := hc
  cases c with
  | alloc n a =>
    have hw : ∀ z, ∀ node ∈ ns z,
        pagesNeeded s.pmm.mem node n (if a = 0 then 1 else a) < 2 ^ 64 := by
      intro z node hnode
      exact hclean node ⟨z, ns z, h.lists z, hnode⟩
    obtain ⟨s', phys, status, heq, hres⟩ := h.allocatePhysicalPages n a hw
    simp only [step, heq, Option.map_some]
    refine ⟨_, rfl, ?_⟩
    rcases hres with ⟨hp, rfl⟩ | ⟨x, -, htook⟩
    · rw [if_pos hp]
      exact ⟨ns, h, hl⟩
    · rw [if_neg htook.ne_zero]
      obtain ⟨ns', h', hsum⟩ := htook.inv
      exact ⟨ns', h', hl.took (le_pagesNeeded _ _ _ _) htook.used htook.total hsum⟩
  | free addr n =>
    have hperm := perm_cons_erase (show (addr, n) ∈ s.live from hlegal)
    have hrun := h.blocks _ (show (addr, n) ∈ s.live from hlegal)
    obtain ⟨ns', h', hruns⟩ := (h.perm hperm).freePhysicalPages hclean
    obtain ⟨-, -, hused, htotal⟩ := freePhysicalPages_eq s.pmm hrun
    have hl' : Ledger s.pmm ((addr, n) :: s.live.erase (addr, n)) ns idle usable :=
      { hl with held := heldPages_perm hperm ▸ hl.held }
    exact ⟨_, rfl, ns', h', hl'.gave hrun.lt.2 hused htotal (pageSum_add hruns)⟩
  | write addr n bytes =>
    have hmem : (addr, n) ∈ s.live := hlegal
    have hsum := h.pageSum_write hmem bytes
    refine ⟨_, rfl, ns, ?_, hl.used_lt, ?_, hl.total, ?_⟩
    · have hw := h.write hmem bytes
      convert hw using 1
      exact funext fun z => by cases z <;> rfl
    · show s.pmm.totalPhysicalPagesUsed + pageSum (s.pmm.mem.overwrite _ bytes) ns ≡ _ [MOD _]
      rw [hsum]
      exact hl.balance
    · show pageSum (s.pmm.mem.overwrite _ bytes) ns + _ ≤ _
      rw [hsum]
      exact hl.held

theorem inv_ledger_run (mem : ByteMem) (entries : ℕ → MemMapEntry) (nEntries : ℕ)
    (calls : List Call) (hmap : MapOk (memMapEntries entries nEntries))
    (hboot : CleanBoot mem (memMapEntries entries nEntries))
    (hcalls : Run.Meets (fun s c => Legal s c ∧ Clean s c) step (Sys.init mem entries nEntries)
      calls) :
    ∃ s, calls.foldlM step (Sys.init mem entries nEntries) = some s ∧
      Balanced (idlePages (memMapEntries entries nEntries))
        (usablePages (memMapEntries entries nEntries)) s := by
  obtain ⟨ns, h, hl, -⟩ := inv_ledger_init hmap hboot
  exact Run.invariant balanced_step ⟨ns, h, hl⟩ hcalls

/-- From a memory map that is in order and clean first pages, every history of
legal and clean calls ends in a safe state. -/
theorem safe_run (mem : ByteMem) (entries : ℕ → MemMapEntry) (nEntries : ℕ) (calls : List Call)
    (hmap : MapOk (memMapEntries entries nEntries))
    (hboot : CleanBoot mem (memMapEntries entries nEntries))
    (hcalls : Run.Meets (fun s c => Legal s c ∧ Clean s c) step (Sys.init mem entries nEntries)
      calls) :
    ∃ s, calls.foldlM step (Sys.init mem entries nEntries) = some s ∧ Safe s := by
  obtain ⟨s, hs, ns, h, -⟩ := inv_ledger_run mem entries nEntries calls hmap hboot hcalls
  exact ⟨s, hs, h.safe⟩

/-- A machine with one usable record, of two pages. -/
def twoPages (i : ℕ) : MemMapEntry :=
  if i = 0 then ⟨0x1000, 0x2000, true⟩ else ⟨0, 0, false⟩

theorem mapOk_twoPages : MapOk (memMapEntries twoPages 1) :=
  ⟨by decide, by decide, by decide⟩

theorem cleanBoot_twoPages : CleanBoot (fun _ => 0) (memMapEntries twoPages 1) := by
  unfold CleanBoot
  decide +kernel

/-- The first page that is handed out is the second of the two. -/
theorem alloc_twoPages {s : Sys}
    (h : step (Sys.init (fun _ => 0) twoPages 1) (.alloc 1 1) = some s) :
    s.live = [(0x2000, 1)] ∧ next s.pmm.mem 0x2000 = 0 := by
  have hrun : (step (Sys.init (fun _ => 0) twoPages 1) (.alloc 1 1)).map
      (fun s => (s.live, next s.pmm.mem 0x2000)) = some ([(0x2000, 1)], 0) := by
    decide +kernel
  rw [h, Option.map_some, Option.some.injEq, Prod.mk.injEq] at hrun
  exact hrun

/-- One page is taken and given back. -/
theorem meets_twoPages :
    Run.Meets (fun s c => Legal s c ∧ Clean s c) step (Sys.init (fun _ => 0) twoPages 1)
      [Call.alloc 1 1, Call.free 0x2000 1] := by
  refine ⟨⟨trivial, ?_⟩, fun s hs => ?_⟩
  · intro node _
    -- an alignment of one page needs no slack, whatever the node
    have hmask : (node &&& maskOf 1) / pageSize = 0 :=
      Nat.div_eq_of_lt (lt_of_le_of_lt Nat.and_le_right (by decide))
    have hpages : u64sub (u64 (maskOf 1 + 1) / pageSize) 1 = 0 := by decide
    show pagesNeeded _ node 1 1 < 2 ^ 64
    rw [pagesNeeded, hmask, hpages, Nat.and_zero]
    decide
  · obtain ⟨hlive, hnext⟩ := alloc_twoPages hs
    exact ⟨⟨by simp [Legal, hlive], hnext⟩, fun _ _ => trivial⟩

theorem safe_run_twoPages :
    ∃ s, [Call.alloc 1 1, Call.free 0x2000 1].foldlM step
      (Sys.init (fun _ => 0) twoPages 1) = some s ∧ Safe s :=
  safe_run _ _ _ _ mapOk_twoPages cleanBoot_twoPages meets_twoPages

/-- The owner of the page writes one nonzero byte into it and gives it back. -/
def dirtyHistory : List Call :=
  [.alloc 1 1, .write 0x2000 1 (fun a => if a = 0x2008 then 1 else 0), .free 0x2000 1]

/-- After a legal history the tail of the free list points at address 1. -/
theorem not_safe_of_dirty_page :
    MapOk (memMapEntries twoPages 1) ∧ CleanBoot (fun _ => 0) (memMapEntries twoPages 1) ∧
    Run.Meets Legal step (Sys.init (fun _ => 0) twoPages 1) dirtyHistory ∧
    ∃ s, dirtyHistory.foldlM step (Sys.init (fun _ => 0) twoPages 1) = some s ∧ ¬ Safe s := by
  refine ⟨mapOk_twoPages, cleanBoot_twoPages, ⟨trivial, fun s₁ h₁ => ?_⟩, ?_⟩
  · obtain ⟨hlive, -⟩ := alloc_twoPages h₁
    have hmem : (0x2000, 1) ∈ s₁.live := by simp [hlive]
    refine ⟨hmem, fun s₂ h₂ => ⟨?_, fun _ _ => trivial⟩⟩
    cases h₂
    exact hmem
  · have hrun : (dirtyHistory.foldlM step (Sys.init (fun _ => 0) twoPages 1)).map
        (fun s => ((s.pmm.list .low).tail, next s.pmm.mem (s.pmm.list .low).tail))
        = some (0x2000, 1) := by
      decide +kernel
    obtain ⟨s, hs, htail⟩ := Option.map_eq_some_iff.mp hrun
    obtain ⟨htail, hnext⟩ := Prod.mk.inj htail
    refine ⟨s, hs, ?_⟩
    rintro ⟨ns, hlists, -⟩
    have h0 := (hlists .low).next_tail (by rw [htail]; decide)
    rw [hnext] at h0
    cases h0

end Obos.Pmm
