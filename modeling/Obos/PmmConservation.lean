/-
Conservation of physical pages.

`Mm_TotalPhysicalPagesUsed` is meant to be the number of pages that are not on
a free list.  Every history keeps the sum of the two (`Ledger`), but it starts
out wrong: `Mm_InitializePMM` seeds the lists with `Mm_FreePhysicalPages`, which subtracts
the pages of every usable record although they were never counted as used.

* `conservation_iff` — the counter and the free pages add up to the total
  exactly when the memory map has no usable page; and an allocation followed by
  its release restores the number of free pages exactly when the alignment
  divides the request, the page count of the region that serves it and the
  page number of that region.
-/
import Obos.PmmSafety

namespace Obos.Pmm

open DLinked

/-! ### Counting the free pages -/

/-- The number of pages on the two free lists. -/
def freePages (s : State) : ℕ := pageSum s.mem s.nodes

theorem Inv.freePages_eq {s : State} {live : List (ℕ × ℕ)} {ns : Zone → List ℕ}
    (h : Inv s.mem s.list live ns) : freePages s = pageSum s.mem ns := by
  rw [freePages, h.nodes_eq]

/-- The usable records are apart, so their pages fit into the address space. -/
theorem usablePages_lt {es : List MemMapEntry} (h : MapOk es) (mem : ByteMem) :
    usablePages es < 2 ^ 64 := by
  have hinv := inv_boot mem h
  have hsum := Span.sum_len_le (N := 2 ^ 64) hinv.apart fun t ht => by
    obtain ⟨b, hb, rfl⟩ := List.mem_map.mp (List.mem_append.mp ht |>.resolve_left (by simp))
    exact (hinv.blocks b hb).2.2.2.le
  have hpages : ∀ l : List (ℕ × ℕ), ((l.map block).map Span.len).sum = heldPages l * pageSize := by
    intro l
    rw [heldPages, List.map_map, ← List.sum_map_mul_right]
    rfl
  simp only [spans, List.map_nil, List.nil_append, hpages] at hsum
  simp only [usablePages, pageSize] at hsum ⊢
  omega

theorem usablePages_eq_zero {es : List MemMapEntry} :
    usablePages es = 0 ↔ usableBlocks es = [] := by
  constructor
  · intro h0
    refine List.eq_nil_iff_forall_not_mem.mpr fun b hb => ?_
    obtain ⟨e, -, ⟨-, hp⟩, rfl⟩ := mem_usableBlocks.mp hb
    have hle := List.single_le_sum (fun x _ => Nat.zero_le x) _ (List.mem_map_of_mem (f := Prod.snd) hb)
    rw [usablePages, heldPages] at h0
    omega
  · intro h
    rw [usablePages, h]
    rfl

/-- The counter and the free pages add up to the total only when there is no
usable memory at all. -/
theorem Balanced.sum_eq_iff {idle usable : ℕ} {s : Sys} (h : Balanced idle usable s)
    (hu : usable < 2 ^ 64) :
    s.pmm.totalPhysicalPagesUsed + freePages s.pmm = s.pmm.totalPhysicalPages ↔ usable = 0 := by
  obtain ⟨ns, hinv, hl⟩ := h
  rw [hinv.freePages_eq, hl.total]
  have hbal := hl.balance
  have hheld := hl.held
  have hlt := hl.used_lt
  rw [Nat.ModEq] at hbal
  constructor
  · intro heq
    rw [heq] at hbal
    omega
  · intro h0
    omega

/-! ### Releasing what was asked for -/

/-- The request is served without slack: the alignment `a` divides the number of
pages, and both the page count and the page number of the first region that suits. -/
def ExactFit (s : State) (n a : ℕ) : Prop :=
  ∃ node, (s.nodes .high ++ s.nodes .low).find? (suits s n a) = some node ∧
    a ∣ n ∧ a ∣ nodePages s.mem node ∧ a * pageSize ∣ node

theorem roundUp_eq_iff {n a : ℕ} (ha : 0 < a) : roundUp n a = n ↔ a ∣ n := by
  have hlt := Nat.mod_lt n ha
  rw [roundUp, Nat.dvd_iff_mod_eq_zero]
  split <;> omega

/-- For an alignment of `2 ^ k` pages the masks are remainders. -/
theorem pagesNeeded_two_pow (m : ByteMem) (node n : ℕ) {k : ℕ} (hk : k < 52) :
    pagesNeeded m node n (2 ^ k) = roundUp n (2 ^ k) + nodePages m node % 2 ^ k +
      node % (2 ^ k * pageSize) / pageSize := by
  have hpow : 2 ^ k * pageSize = 2 ^ (k + 12) := by rw [pow_add]; rfl
  have hlt : 2 ^ (k + 12) < 2 ^ 64 := Nat.pow_lt_pow_right (by decide) (by omega)
  have hpos : 1 ≤ 2 ^ (k + 12) := Nat.one_le_two_pow
  have hmask : maskOf (2 ^ k) = 2 ^ (k + 12) - 1 := by
    rw [maskOf, hpow, u64_of_lt hlt, u64sub_of_le hpos hlt]
  have hdiv : 2 ^ (k + 12) / pageSize = 2 ^ k := by
    rw [← hpow]
    exact Nat.mul_div_cancel _ (by decide)
  have hk64 : 2 ^ k < 2 ^ 64 := Nat.pow_lt_pow_right (by decide) (by omega)
  rw [pagesNeeded, hmask, Nat.sub_add_cancel hpos, u64_of_lt hlt, hdiv,
    u64sub_of_le Nat.one_le_two_pow hk64, Nat.and_two_pow_sub_one_eq_mod,
    Nat.and_two_pow_sub_one_eq_mod, hpow]

/-- An alignment beyond the address space needs more than any region has. -/
theorem lt_pagesNeeded_two_pow (m : ByteMem) (node : ℕ) {n k : ℕ} (hn : 0 < n) (hk : 52 ≤ k) :
    nodePages m node < pagesNeeded m node n (2 ^ k) := by
  have hzero : u64 (2 ^ k * pageSize) = 0 := by
    obtain ⟨j, rfl⟩ := Nat.exists_eq_add_of_le hk
    rw [u64, pow_add, show 2 ^ 52 * 2 ^ j * pageSize = 2 ^ 64 * 2 ^ j by
      rw [pageSize]; ring]
    exact Nat.mul_mod_right _ _
  have hand : nodePages m node &&& (2 ^ 64 - 1) = nodePages m node := by
    rw [Nat.and_two_pow_sub_one_eq_mod]
    exact Nat.mod_eq_of_lt (m.load64_lt node)
  have hround := le_roundUp n (2 ^ k)
  rw [pagesNeeded, maskOf, hzero, show u64sub 0 1 = 2 ^ 64 - 1 from rfl,
    show u64sub (u64 (2 ^ 64 - 1 + 1) / pageSize) 1 = 2 ^ 64 - 1 by decide, hand]
  generalize (node &&& (2 ^ 64 - 1)) / pageSize = slack
  omega

theorem pagesNeeded_eq_iff {m : ByteMem} {node n k : ℕ} (hk : k < 52)
    (hal : node % pageSize = 0) :
    pagesNeeded m node n (2 ^ k) = n ↔
      2 ^ k ∣ n ∧ 2 ^ k ∣ nodePages m node ∧ 2 ^ k * pageSize ∣ node := by
  have hround := le_roundUp n (2 ^ k)
  have hnode : node % (2 ^ k * pageSize) / pageSize = 0 ↔ node % (2 ^ k * pageSize) = 0 := by
    have hmod : node % (2 ^ k * pageSize) % pageSize = 0 := by
      rw [Nat.mod_mod_of_dvd _ (Nat.dvd_mul_left _ _), hal]
    rw [pageSize] at hmod ⊢
    omega
  rw [pagesNeeded_two_pow m node n hk, ← roundUp_eq_iff (Nat.two_pow_pos k),
    Nat.dvd_iff_mod_eq_zero, Nat.dvd_iff_mod_eq_zero, ← hnode]
  generalize node % (2 ^ k * pageSize) / pageSize = slack
  generalize nodePages m node % 2 ^ k = rest
  omega

/-- A block of `n` pages that was allocated and is given back. -/
theorem Inv.freePages_round_trip {s s₁ s₂ : Sys} {ns : Zone → List ℕ} {n k phys : ℕ}
    (h : Inv s.pmm.mem s.pmm.list s.live ns) (hclean : Clean s (.alloc n (2 ^ k)))
    (h₁ : step s (.alloc n (2 ^ k)) = some s₁) (hlive : s₁.live = (phys, n) :: s.live)
    (hclean₁ : Clean s₁ (.free phys n)) (h₂ : step s₁ (.free phys n) = some s₂) :
    freePages s₂.pmm = freePages s.pmm ↔ ExactFit s.pmm n (2 ^ k) := by
  have ha : (if 2 ^ k = 0 then 1 else 2 ^ k) = 2 ^ k := if_neg (Nat.two_pow_pos k).ne'
  have hw : ∀ z, ∀ node ∈ ns z, pagesNeeded s.pmm.mem node n (2 ^ k) < 2 ^ 64 := by
    intro z node hnode
    have := hclean node ⟨z, ns z, h.lists z, hnode⟩
    rwa [ha] at this
  obtain ⟨s', phys', status, heq, hres⟩ := h.allocatePhysicalPages n (2 ^ k) (by rwa [ha])
  rw [ha] at hres
  simp only [step, heq, Option.map_some, Option.some.injEq] at h₁ h₂
  subst h₁
  rcases hres with ⟨rfl, rfl⟩ | ⟨x, hx, htook⟩
  · -- nothing was allocated, so nothing new is held
    exact absurd (congrArg List.length hlive) (by simp)
  simp only [if_neg htook.ne_zero, List.cons.injEq, Prod.mk.injEq, and_true] at hlive
  subst hlive
  obtain ⟨ns₁, hinv₁, hsum₁⟩ := htook.inv
  have hn : 0 < n := (hinv₁.blocks _ List.mem_cons_self).1
  obtain ⟨ns₂, hinv₂, hruns₂⟩ := hinv₁.freePhysicalPages hclean₁
  subst h₂
  have hxmem : x ∈ ns .high ++ ns .low := List.mem_of_find?_eq_some hx
  obtain ⟨z, hxz⟩ : ∃ z, x ∈ ns z :=
    (List.mem_append.mp hxmem).elim (fun hm => ⟨.high, hm⟩) fun hm => ⟨.low, hm⟩
  have hk : k < 52 := by
    by_contra hk
    have hsuits := List.find?_some hx
    rw [suits, isRegionSufficient, decide_eq_true_eq, nPagesRequired_eq (hw z x hxz)] at hsuits
    exact absurd hsuits (Nat.not_le.mpr (lt_pagesNeeded_two_pow _ _ hn (Nat.not_lt.mp hk)))
  -- the free pages are as many as before exactly when the request took `n` of them
  have hcount : freePages (Pmm.freePhysicalPages s' phys' n).1 = freePages s.pmm ↔
      pagesNeeded s.pmm.mem x n (2 ^ k) = n := by
    have hsum₂ := pageSum_add hruns₂
    rw [hinv₂.freePages_eq, h.freePages_eq]
    omega
  rw [ExactFit, h.nodes_eq, hx]
  refine hcount.trans ((pagesNeeded_eq_iff hk (h.nodes z x hxz).2.2.1).trans ?_)
  constructor
  · intro hdvd
    exact ⟨x, rfl, hdvd⟩
  · rintro ⟨y, hy, hdvd⟩
    exact Option.some.inj hy ▸ hdvd

/-- After every clean and legal history the counter and the free pages add up to
the total exactly when no record of the memory map has usable pages, and what is
allocated and given back restores the number of free pages exactly when the
request was served without slack. -/
theorem conservation_iff (mem : ByteMem) (entries : ℕ → MemMapEntry) (nEntries : ℕ)
    (calls : List Call) (hmap : MapOk (memMapEntries entries nEntries))
    (hboot : CleanBoot mem (memMapEntries entries nEntries))
    (hcalls : Run.Meets (fun s c => Legal s c ∧ Clean s c) step (Sys.init mem entries nEntries)
      calls) :
    ∃ s, calls.foldlM step (Sys.init mem entries nEntries) = some s ∧
      (s.pmm.totalPhysicalPagesUsed + freePages s.pmm = s.pmm.totalPhysicalPages ↔
        usableBlocks (memMapEntries entries nEntries) = []) ∧
      ∀ n k phys s₁ s₂, Clean s (.alloc n (2 ^ k)) → step s (.alloc n (2 ^ k)) = some s₁ →
        s₁.live = (phys, n) :: s.live → Clean s₁ (.free phys n) →
        step s₁ (.free phys n) = some s₂ →
        (freePages s₂.pmm = freePages s.pmm ↔ ExactFit s.pmm n (2 ^ k)) := by
  obtain ⟨s, hs, hbal⟩ := inv_ledger_run mem entries nEntries calls hmap hboot hcalls
  refine ⟨s, hs, ?_, ?_⟩
  · rw [hbal.sum_eq_iff (usablePages_lt hmap mem), usablePages_eq_zero]
  · intro n k phys s₁ s₂ hclean h₁ hlive hclean₁ h₂
    obtain ⟨ns, h, -⟩ := hbal
    exact h.freePages_round_trip hclean h₁ hlive hclean₁ h₂

/-- One page of two is taken and given back. -/
theorem conservation_iff_twoPages :
    ∃ s, [Call.alloc 1 1, Call.free 0x2000 1].foldlM step
        (Sys.init (fun _ => 0) twoPages 1) = some s ∧
      (s.pmm.totalPhysicalPagesUsed + freePages s.pmm = s.pmm.totalPhysicalPages ↔
        usableBlocks (memMapEntries twoPages 1) = []) ∧
      ∀ n k phys s₁ s₂, Clean s (.alloc n (2 ^ k)) → step s (.alloc n (2 ^ k)) = some s₁ →
        s₁.live = (phys, n) :: s.live → Clean s₁ (.free phys n) →
        step s₁ (.free phys n) = some s₂ →
        (freePages s₂.pmm = freePages s.pmm ↔ ExactFit s.pmm n (2 ^ k)) :=
  conservation_iff _ _ _ _ mapOk_twoPages cleanBoot_twoPages meets_twoPages

/-- A usable record of two pages, and empty records behind it. -/
def onlyTwoPages (i : ℕ) : MemMapEntry :=
  if i = 0 then ⟨0x1000, 0x2000, true⟩ else ⟨0x4000, 0, false⟩

/-- Right after initialization two pages are free, two pages exist, and the
number of used pages is `2 ^ 64 - 2`. -/
theorem used_wraps_at_boot :
    MapOk (memMapEntries onlyTwoPages 1) ∧
    CleanBoot (fun _ => 0) (memMapEntries onlyTwoPages 1) ∧
    (initializePMM (fun _ => 0) onlyTwoPages 1).totalPhysicalPages = 2 ∧
    freePages (initializePMM (fun _ => 0) onlyTwoPages 1) = 2 ∧
    (initializePMM (fun _ => 0) onlyTwoPages 1).totalPhysicalPagesUsed = 2 ^ 64 - 2 := by
  refine ⟨⟨by decide, by decide, by decide⟩, ?_, ?_, ?_, ?_⟩
  · unfold CleanBoot
    decide +kernel
  · decide +kernel
  · decide +kernel
  · decide +kernel

end Obos.Pmm
