/-
One allocation from one free list (`allocate` and `IsRegionSufficient` of
`mm/pmm.c`).

`allocate` rounds the request up to a multiple of the alignment and takes it off
the end of the first region that is large enough.  So that the address comes out
aligned it takes more than that: the pages behind the last whole multiple of the
region's length, and as many as the region's first page is off an aligned one.

* `allocate_correct` — when that does not wrap, the address is aligned, the pages
  are the last ones of a region that was free, the region keeps the pages in front
  of them, and nothing else changes; and when the call fails no region has as many
  pages as it asks for.
-/
import Obos.PmmConservation

namespace Obos.Pmm

open DLinked

/-- The nodes `xs` of a free list are well linked, and their regions are runs of
whole pages with no page in common. -/
structure WellFormed (m : ByteMem) (l : FreeList) (xs : List ℕ) : Prop where
  list : IsList (next m) (prev m) 0 l.head l.tail xs
  apart : (xs.map (region m)).Pairwise Span.Apart
  runs : ∀ x ∈ xs, PageRun x (nodePages m x)

/-- The pages that a request takes off the region of `x`: as rounded, and as padded
for the alignment. -/
def paddedRequest (m : ByteMem) (x n a : ℕ) : ℕ :=
  roundUp n a + nodePages m x % a + x / pageSize % a

/-- `s'` is `s` after the pages from `phys` on were taken off the region of `x`, and
the first `n` of them handed out. -/
structure Carved (s s' : State) (z : Zone) (xs : List ℕ) (x phys n left : ℕ) : Prop where
  addr : phys = x + left * pageSize
  inside : (block (phys, n)).Within (region s.mem x)
  /-- The region keeps its first `left` pages, or leaves the list. -/
  list : WellFormed s'.mem (s'.list z) (if left = 0 then xs.erase x else xs)
  kept : left ≠ 0 → nodePages s'.mem x = left
  others : ∀ y ∈ xs, y ≠ x → nodePages s'.mem y = nodePages s.mem y
  lists : ∀ z', z' ≠ z → s'.list z' = s.list z'
  frame : ∀ a, (∀ y ∈ xs, ¬ (region s.mem y).Has a) → s'.mem a = s.mem a

namespace WellFormed

variable {m : ByteMem} {l : FreeList} {xs : List ℕ} {taken : List Span}

theorem regions_unit (m : ByteMem) (xs : List ℕ) :
    FreeList.regions layout m (fun _ : Unit => xs) = xs.map (region m) := by
  rw [FreeList.regions, Finset.univ_unique, Finset.toList_singleton, List.flatMap_singleton]
  rfl

theorem lib (h : WellFormed m l xs) (ht : (xs.map (region m) ++ taken).Pairwise Span.Apart) :
    FreeList.Inv layout m (fun _ : Unit => l.ends) (fun _ => xs) taken := by
  refine ⟨fun _ => h.list, ?_, fun _ x hx => (pageRun_iff.mp (h.runs x hx)).1⟩
  rw [regions_unit]
  exact ht

theorem lib_nil (h : WellFormed m l xs) :
    FreeList.Inv layout m (fun _ : Unit => l.ends) (fun _ => xs) [] :=
  h.lib (by rw [List.append_nil]; exact h.apart)

theorem of_lib (h : FreeList.Inv layout m (fun _ : Unit => l.ends) (fun _ => xs) taken)
    (hal : ∀ x ∈ xs, x % pageSize = 0) : WellFormed m l xs := by
  refine ⟨h.lists (), ?_, fun x hx => pageRun_iff.mpr ⟨h.nodes () x hx, hal x hx⟩⟩
  have hap := (List.pairwise_append.mp h.apart).1
  rwa [regions_unit] at hap

end WellFormed

/-- Both lists of a safe state are well formed. -/
theorem Inv.wellFormed {m : ByteMem} {fl : Zone → FreeList} {live : List (ℕ × ℕ)}
    {ns : Zone → List ℕ} (h : Inv m fl live ns) (z : Zone) : WellFormed m (fl z) (ns z) :=
  ⟨h.lists z, (List.pairwise_append.mp (h.lib.apart_front z)).1, h.nodes z⟩

/-- Taking pages off a region changes no byte of a taken span. -/
theorem keep_taken {ζ : Type*} [Fintype ζ] [DecidableEq ζ] {m : ByteMem} {fl : ζ → FreeList.Ends}
    {ns : ζ → List ℕ} {taken : List Span} {z : ζ} {x left : ℕ}
    (h : FreeList.Inv layout m fl ns taken) (hx : x ∈ ns z) {b : Span} (hb : b ∈ taken) {a : ℕ}
    (ha : b.Has a) : (keep m (fl z) x left).1 a = m a := by
  unfold keep
  split
  · refine (if_neg ?_).trans (h.unlink_taken hx left (fl z) hb ha)
    exact h.words_not_has hx hb ha
  · exact h.setCount_taken hx left hb ha

theorem popcount_two_pow (k : ℕ) : ¬ 1 < popcount (2 ^ k) := by
  have hcount : popcount (2 ^ k) = (List.range 32).count k := by
    rw [popcount, List.count, List.countP_eq_length_filter]
    refine congrArg List.length (List.filter_congr fun i _ => ?_)
    rw [Nat.testBit_two_pow]
    exact decide_eq_decide.mpr ⟨Eq.symm, Eq.symm⟩
  rw [hcount, Nat.not_lt]
  exact List.nodup_iff_count_le_one.mp List.nodup_range k

theorem pagesNeeded_eq_padded (m : ByteMem) (x n : ℕ) {k : ℕ} (hk : k < 52) :
    pagesNeeded m x n (2 ^ k) = paddedRequest m x n (2 ^ k) := by
  rw [pagesNeeded_two_pow m x n hk, paddedRequest, Nat.mul_comm, Nat.mod_mul_right_div_self]

theorem dvd_roundUp (n : ℕ) {a : ℕ} (ha : 0 < a) : a ∣ roundUp n a := by
  have hdiv := Nat.div_add_mod n a
  have hlt := Nat.mod_lt n ha
  unfold roundUp
  split
  · refine ⟨n / a + 1, ?_⟩
    rw [Nat.mul_add, Nat.mul_one]
    omega
  · exact Nat.dvd_of_mod_eq_zero (not_not.mp ‹_›)

/-- What is left of the region ends at an aligned address. -/
theorem aligned_rest {m : ByteMem} {x n a : ℕ} (ha : 0 < a) (hx : x % pageSize = 0)
    (hle : paddedRequest m x n a ≤ nodePages m x) :
    a * pageSize ∣ x + (nodePages m x - paddedRequest m x n a) * pageSize := by
  obtain ⟨q, rfl⟩ := Nat.dvd_of_mod_eq_zero hx
  obtain ⟨r, hr⟩ := dvd_roundUp n ha
  have hq : pageSize * q / pageSize = q := Nat.mul_div_cancel_left q (by decide)
  rw [paddedRequest, hq, hr] at hle ⊢
  generalize nodePages m (pageSize * q) = p at hle ⊢
  have hqa := Nat.div_add_mod q a
  have hpa := Nat.div_add_mod p a
  rw [Nat.mul_comm pageSize q, ← Nat.add_mul]
  refine Nat.mul_dvd_mul_right ?_ pageSize
  -- the remainders cancel, and multiples of `a` are left
  refine ⟨q / a + (p / a - r), ?_⟩
  rw [Nat.mul_add, Nat.mul_sub]
  omega

section

variable {s : State} {z : Zone} {xs : List ℕ} {x n req : ℕ}

/-- Taking at least `n` pages off the region of a node. -/
theorem WellFormed.takePages (h : WellFormed s.mem (s.list z) xs) (hx : x ∈ xs) (hn0 : 0 < n)
    (hn : n ≤ req) (hreq : req ≤ nodePages s.mem x) :
    Carved s (takePages s z x req).1 z xs x (takePages s z x req).2 n
      (nodePages s.mem x - req) := by
  obtain ⟨hleft, haddr⟩ := takePages_addr (z := z) (h.runs x hx) hreq
  obtain ⟨hmem, hlist⟩ := takePages_state s z x req
  rw [hleft] at hmem hlist
  set left := nodePages s.mem x - req with hl
  have hle : left + n ≤ nodePages s.mem x := by omega
  obtain ⟨ns', h', hns, hsame, hself⟩ := keep_inv (z := ()) h.lib_nil hx hn0 hle
  have hends : ((Pmm.takePages s z x req).1.list z).ends =
      (keep s.mem (s.list z).ends x left).2 :=
    (congrFun hlist z).trans (Function.update_self ..)
  refine ⟨haddr, ?_, ?_, ?_, ?_, fun z' hz' => ?_, fun a ha => ?_⟩
  · have hmul : (left + n) * pageSize ≤ nodePages s.mem x * pageSize := Nat.mul_le_mul_right _ hle
    rw [Nat.add_mul] at hmul
    rw [haddr]
    simp only [Span.Within, block, region, Span.stop_mk]
    omega
  · have hns' : ns' = fun _ => if left = 0 then xs.erase x else xs :=
      funext fun u => (hns u).trans (by simp)
    have hinv : FreeList.Inv layout (Pmm.takePages s z x req).1.mem
        (fun _ : Unit => ((Pmm.takePages s z x req).1.list z).ends)
        (fun _ => if left = 0 then xs.erase x else xs) [block (x + left * pageSize, n)] := by
      rw [hmem, hends, ← hns']
      refine ⟨fun u => ?_, h'.apart, h'.nodes⟩
      simpa only [Function.update_self] using h'.lists u
    refine .of_lib hinv fun y hy => ?_
    · have hy' : y ∈ xs := by
        split at hy
        · exact List.mem_of_mem_erase hy
        · exact hy
      exact (h.runs y hy').2.2.1
  · rw [hmem]
    exact hself
  · rw [hmem]
    exact hsame ()
  · have hz := congrFun hlist z'
    rw [Function.update_of_ne hz'] at hz
    cases hs : s.list z'
    cases hs' : (Pmm.takePages s z x req).1.list z'
    rw [hs, hs'] at hz
    cases hz
    rfl
  · -- a byte outside of the regions is a taken span of its own
    have hap : (xs.map (region s.mem) ++ [Span.mk a 1]).Pairwise Span.Apart := by
      refine List.pairwise_append.mpr ⟨h.apart, List.pairwise_singleton _ _, ?_⟩
      intro t ht t' ht'
      obtain ⟨y, hy, rfl⟩ := List.mem_map.mp ht
      obtain rfl := List.mem_singleton.mp ht'
      have hya := ha y hy
      simp only [Span.Has, Span.Apart, Span.stop] at hya ⊢
      omega
    rw [hmem]
    exact keep_taken (z := ()) (h.lib hap) hx List.mem_cons_self ⟨le_rfl, Nat.lt_succ_self a⟩

/-- For every well-formed free list, at least one page and an alignment of `2 ^ k`
pages with nothing wrapping around: on success the address is aligned and the pages
come from the end of one free region, which keeps the pages in front of them while
nothing else changes; on failure nothing has changed, and every region has fewer
pages than the request as rounded and padded. -/
theorem allocate_correct (s : State) (z : Zone) (xs : List ℕ) (n k : ℕ)
    (h : WellFormed s.mem (s.list z) xs) (hn : 1 ≤ n) (hk : 2 ^ k * pageSize < 2 ^ 64)
    (hw : ∀ x ∈ xs, paddedRequest s.mem x n (2 ^ k) < 2 ^ 64) :
    ∃ s' phys status, allocate s z n (2 ^ k) = some (s', phys, status) ∧
      (status = .success ∧ 2 ^ k * pageSize ∣ phys ∧
          (∃ x ∈ xs, ∃ left, Carved s s' z xs x phys n left) ∨
        status ≠ .success ∧ phys = 0 ∧ s' = s ∧
          ∀ x ∈ xs, nodePages s.mem x < paddedRequest s.mem x n (2 ^ k)) := by
  have hk52 : k < 52 := by
    by_contra hge
    have hle : 2 ^ 52 ≤ 2 ^ k := Nat.pow_le_pow_right (by decide) (Nat.not_lt.mp hge)
    rw [pageSize] at hk
    omega
  have ha : (if 2 ^ k = 0 then 1 else 2 ^ k) = 2 ^ k := if_neg (Nat.two_pow_pos k).ne'
  have hneeded : ∀ x ∈ xs, nPagesRequired s.mem x (roundRequest n (2 ^ k)) (maskOf (2 ^ k)) =
      paddedRequest s.mem x n (2 ^ k) := by
    intro x hx
    have heq := pagesNeeded_eq_padded s.mem x n hk52
    exact (nPagesRequired_eq (heq ▸ hw x hx)).trans heq
  have hsuits : ∀ x ∈ xs, suits s n (2 ^ k) x =
      decide (paddedRequest s.mem x n (2 ^ k) ≤ nodePages s.mem x) := by
    intro x hx
    rw [suits, isRegionSufficient, hneeded x hx]
  have had : Admissible n (if 2 ^ k = 0 then 1 else 2 ^ k) := by
    rw [ha]
    exact ⟨by omega, popcount_two_pow k⟩
  rw [allocate_eq h.list (h.lib_nil.length_lt ()) had, ha]
  cases hfind : xs.find? (suits s n (2 ^ k)) with
  | none =>
    refine ⟨s, 0, .notEnoughMemory, rfl, .inr ⟨by decide, rfl, rfl, fun x hx => ?_⟩⟩
    have hnot := List.find?_eq_none.mp hfind x hx
    rw [hsuits x hx, decide_eq_true_eq] at hnot
    exact Nat.not_le.mp hnot
  | some x =>
    have hx := List.mem_of_find?_eq_some hfind
    have hle := List.find?_some hfind
    rw [hsuits x hx, decide_eq_true_eq] at hle
    have hnle : n ≤ paddedRequest s.mem x n (2 ^ k) :=
      (le_pagesNeeded s.mem x n (2 ^ k)).trans (pagesNeeded_eq_padded s.mem x n hk52).le
    have hcarved := h.takePages hx hn hnle hle
    dsimp only
    rw [hneeded x hx]
    refine ⟨_, _, _, rfl, .inl ⟨rfl, ?_, x, hx, _, hcarved⟩⟩
    rw [hcarved.addr]
    exact aligned_rest (Nat.two_pow_pos k) (h.runs x hx).2.2.1 hle

end

/-- One page of the two that are free after boot. -/
theorem allocate_correct_twoPages :
    ∃ xs, WellFormed (initializePMM (fun _ => 0) twoPages 1).mem
        ((initializePMM (fun _ => 0) twoPages 1).list .low) xs ∧
      ∃ s' phys status, allocate (initializePMM (fun _ => 0) twoPages 1) .low 1 (2 ^ 0) =
          some (s', phys, status) ∧
        (status = .success ∧ 2 ^ 0 * pageSize ∣ phys ∧
            (∃ x ∈ xs, ∃ left,
              Carved (initializePMM (fun _ => 0) twoPages 1) s' .low xs x phys 1 left) ∨
          status ≠ .success ∧ phys = 0 ∧ s' = initializePMM (fun _ => 0) twoPages 1 ∧
            ∀ x ∈ xs, nodePages (initializePMM (fun _ => 0) twoPages 1).mem x <
              paddedRequest (initializePMM (fun _ => 0) twoPages 1).mem x 1 (2 ^ 0)) := by
  obtain ⟨ns, h, -⟩ := inv_ledger_init mapOk_twoPages cleanBoot_twoPages
  refine ⟨ns .low, h.wellFormed .low, ?_⟩
  refine allocate_correct _ .low (ns .low) 1 0 (h.wellFormed .low) le_rfl (by decide) ?_
  intro x _
  rw [paddedRequest, pow_zero, Nat.mod_one, Nat.mod_one]
  decide

end Obos.Pmm
