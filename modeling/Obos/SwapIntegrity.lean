/-
Integrity of the initial swap device.

The free list of the device is a `FreeList` with one list, units of one byte
and headers of 56 bytes; the taken spans are the device header and the
reservations.  `Inv` adds what the callers see: the recorded size of every
reservation, and the bytes written through it.

* `inv_start` — the device has the invariant after initialization,
* `inv_step` — every allowed step keeps it,
* `integrity` — so every allowed run of the callers is safe,
* `not_safe_of_short_remainder` — a device of an accepted size on which the
  first reservation overlaps the header of the free list's only node.
-/
import Obos.Swap
import Obos.Lib.Run

namespace Obos.Swap

open Function List
open Span (apart_of_mem stop_mk)
open FreeList (Layout region setCount count Room)

def layout : Layout where
  unit := 1
  hdr := swapPageSize
  unit_pos := Nat.one_pos
  words := by decide

/-- The whole buffer of the device. -/
def bufSpan (d : SwapDev) : Span := ⟨d.metadata, swapHeaderSize + d.hdr.size⟩

/-- The bytes of a reservation that the device and its callers rely on: the
size, and the pages. -/
def Kept (e : ℕ × ℕ) (a : ℕ) : Prop :=
  (Span.mk e.1 8).Has a ∨ (Span.mk (e.1 + swapPageSize) (e.2 * pageSize)).Has a

/-- The invariant of the device and its callers; `ns` are the free nodes. -/
structure Inv (s : State) (ns : List ℕ) : Prop where
  valid : s.dev.valid
  small : swapHeaderSize + s.dev.hdr.size < 2 ^ 31
  top : s.dev.metadata + (swapHeaderSize + s.dev.hdr.size) < 2 ^ 64
  lists : FreeList.Inv layout s.dev.mem (fun _ : Unit => s.dev.hdr.freeList) (fun _ => ns)
    (headerSpan s.dev :: s.live.map span)
  inside : ∀ x ∈ ns, (region layout s.dev.mem x).Within (bufSpan s.dev)
  pages : s.dev.hdr.pages = s.live.map Prod.fst
  within : ∀ e ∈ s.live, 0 < e.2 ∧ (span e).Within (bufSpan s.dev)
  sizes : ∀ e ∈ s.live, size s.dev.mem e.1 = e.2 * pageSize
  data : ∀ e ∈ s.live, ∀ o < e.2 * pageSize, ∀ b ∈ s.written e.1 o,
    s.dev.mem (e.1 + swapPageSize + o) = b

/-! ### What a call does to the free list -/

/-- The bytes on the free list. -/
def freeBytes (m : ByteMem) (ns : List ℕ) : ℕ := (ns.map (size m)).sum

/-- `n` bytes were taken off the free list, all bytes of a node or some. -/
structure Took (d d' : SwapDev) (ns ns' : List ℕ) (n : ℕ) : Prop where
  bytes : freeBytes d'.mem ns' + n = freeBytes d.mem ns
  nBytesFree : d'.hdr.nBytesFree = u64sub d.hdr.nBytesFree n
  nodes : (ns'.length = ns.length ∧ d'.hdr.nNodes = d.hdr.nNodes) ∨
    (ns'.length + 1 = ns.length ∧ d'.hdr.nNodes = u64sub d.hdr.nNodes 1)

/-- The reservation `e` was put at the end of the free list. -/
structure Gave (d d' : SwapDev) (ns : List ℕ) (e : ℕ × ℕ) : Prop where
  sizes : ∀ x ∈ ns, size d'.mem x = size d.mem x
  size_new : size d'.mem e.1 = e.2 * pageSize
  nBytesFree : d'.hdr.nBytesFree = u64 (d.hdr.nBytesFree + e.2 * pageSize)
  nNodes : d'.hdr.nNodes = u64sub d.hdr.nNodes 1

/-- The free list and its accounts are as they were. -/
structure Untouched (d d' : SwapDev) (ns : List ℕ) : Prop where
  sizes : ∀ x ∈ ns, size d'.mem x = size d.mem x
  hdr : d'.hdr = d.hdr

theorem Untouched.refl (d : SwapDev) (ns : List ℕ) : Untouched d d ns := ⟨fun _ _ => rfl, rfl⟩

theorem freeBytes_congr {m m' : ByteMem} {ns : List ℕ} (h : ∀ x ∈ ns, size m' x = size m x) :
    freeBytes m' ns = freeBytes m ns := by
  rw [freeBytes, freeBytes, map_congr_left h]

/-- One node loses `n` bytes, and the others keep theirs. -/
theorem freeBytes_shrink {m m' : ByteMem} {ns : List ℕ} {x n : ℕ} (hx : x ∈ ns) (hnd : ns.Nodup)
    (hn : size m' x + n = size m x) (hrest : ∀ y ∈ ns, y ≠ x → size m' y = size m y) :
    freeBytes m' ns + n = freeBytes m ns := by
  obtain ⟨l, r, rfl⟩ := append_of_mem hx
  have hne : ∀ y ∈ l ++ r, y ≠ x := fun y hy he =>
    (nodup_middle.mp hnd |> nodup_cons.mp).1 (he ▸ hy)
  have hl : l.map (size m') = l.map (size m) := map_congr_left fun y hy =>
    hrest y (by simp [hy]) (hne y (by simp [hy]))
  have hr : r.map (size m') = r.map (size m) := map_congr_left fun y hy =>
    hrest y (by simp [hy]) (hne y (by simp [hy]))
  simp only [freeBytes, map_append, map_cons, sum_append, sum_cons, hl, hr]
  omega

/-! ### Kept bytes -/

theorem Kept.has {e : ℕ × ℕ} {a : ℕ} (h : Kept e a) : (span e).Has a := by
  simp only [Kept, Span.Has, stop_mk, span, swapPageSize] at h ⊢
  omega

theorem size_congr {m m' : ByteMem} {e : ℕ × ℕ} (h : ∀ a, Kept e a → m' a = m a) :
    size m' e.1 = size m e.1 :=
  ByteMem.load_congr fun a ha => h a (Or.inl ha)

theorem kept_data {e : ℕ × ℕ} {o : ℕ} (h : o < e.2 * pageSize) :
    Kept e (e.1 + swapPageSize + o) := by
  refine Or.inr ⟨Nat.le_add_right _ _, ?_⟩
  exact Nat.add_lt_add_left h _

/-! ### The writes of the tree -/

section Links

variable {m : ByteMem} {es : List (ℕ × ℕ)} {e : ℕ × ℕ} {a : ℕ} (rb : ByteMem)

theorem rbLinks_eq (h : ∀ e ∈ es, ¬ (e.1 + 24 ≤ a ∧ a < e.1 + 56)) :
    rbLinks m (es.map Prod.fst) rb a = m a := by
  refine if_neg fun hany => ?_
  obtain ⟨x, hx, hxa⟩ := any_eq_true.mp hany
  obtain ⟨e, he, rfl⟩ := mem_map.mp hx
  exact h e he (of_decide_eq_true hxa)

/-- The tree writes into reservations only. -/
theorem rbLinks_of_not_has (h : ∀ e ∈ es, ¬ (span e).Has a) :
    rbLinks m (es.map Prod.fst) rb a = m a := by
  refine rbLinks_eq rb fun e he hlink => h e he ?_
  simp only [span, Span.Has, stop_mk, swapPageSize]
  omega

/-- The tree writes neither the size nor the pages of a reservation. -/
theorem rbLinks_of_kept (hap : (es.map span).Pairwise Span.Apart) (he : e ∈ es)
    (ha : Kept e a) : rbLinks m (es.map Prod.fst) rb a = m a := by
  refine rbLinks_eq rb fun e' he' hlink => ?_
  by_cases hee : e' = e
  · subst hee
    simp only [Kept, Span.Has, stop_mk, swapPageSize] at ha
    omega
  · refine (apart_of_mem hap he' he hee).not_has ?_ ha.has
    simp only [span, Span.Has, stop_mk, swapPageSize]
    omega

/-- Nor its `next` word. -/
theorem next_rbLinks (hap : (es.map span).Pairwise Span.Apart) (he : e ∈ es) :
    FreeList.next (rbLinks m (es.map Prod.fst) rb) e.1 = FreeList.next m e.1 := by
  refine ByteMem.load_congr fun a ha => rbLinks_eq rb fun e' he' hlink => ?_
  simp only [Span.Has, stop_mk] at ha
  by_cases hee : e' = e
  · subst hee
    omega
  · refine (apart_of_mem hap he' he hee).not_has (x := a) ?_ ?_ <;>
      simp only [span, Span.Has, stop_mk, swapPageSize] <;> omega

end Links

/-! ### Ids -/

/-- In a window of 2 GiB `cmp` tells all pointers apart. -/
theorem eq_of_cmp_eq_zero {b l r : ℕ} (hl : b ≤ l) (hl' : l < b + 2 ^ 31)
    (hr : b ≤ r) (hr' : r < b + 2 ^ 31) (h : cmp l r = 0) : l = r := by
  by_contra hne
  rw [cmp, if_neg hne] at h
  have hdvd := Int.dvd_of_bmod_eq_zero h
  omega

theorem cmp_self (x : ℕ) : cmp x x = 0 := if_pos rfl

theorem rbFind_ne_none {pages : List ℕ} {id : ℕ} (h : id ∈ pages) : rbFind pages id ≠ none := by
  intro hnone
  have hcmp := List.find?_eq_none.mp hnone id h
  exact hcmp (decide_eq_true (cmp_self id))

theorem mem_of_rbFind {d : SwapDev} {id : ℕ} (hid : SoundId d id)
    (h : rbFind d.hdr.pages id ≠ none) : id ∈ d.hdr.pages := by
  obtain ⟨e, he⟩ := Option.ne_none_iff_exists'.mp h
  have hmem := mem_of_find?_eq_some he
  have hcmp : cmp id e = 0 :=
    of_decide_eq_true (List.find?_some (p := fun e => decide (cmp id e = 0)) he)
  exact hid e hmem hcmp ▸ hmem

/-- Only the free list and its length change. -/
theorem dropEmpty_fields (m : ByteMem) (hdr : SwapHeader) (page left : ℕ) :
    (dropEmpty m hdr page left).2.pages = hdr.pages ∧
    (dropEmpty m hdr page left).2.nBytesFree = hdr.nBytesFree ∧
    (dropEmpty m hdr page left).2.magic = hdr.magic ∧
    (dropEmpty m hdr page left).2.size = hdr.size := by
  by_cases h : left = 0
  · simp [dropEmpty, if_pos h]
  · simp [dropEmpty, if_neg h]

namespace Inv

variable {s : State} {ns : List ℕ} {e : ℕ × ℕ} {page id nPages : ℕ}

theorem spans (h : Inv s ns) : (s.live.map span).Pairwise Span.Apart :=
  (pairwise_cons.mp (pairwise_append.mp h.lists.apart).2.1).2

theorem mem_taken (he : e ∈ s.live) : span e ∈ headerSpan s.dev :: s.live.map span :=
  mem_cons_of_mem _ (mem_map_of_mem he)

section

variable (h : Inv s ns)
include h

theorem metadata_ne : s.dev.metadata ≠ 0 :=
  (of_decide_eq_true h.valid).1

/-- A reservation in the buffer: its bounds as numbers. -/
theorem bounds (he : e ∈ s.live) :
    s.dev.metadata ≤ e.1 ∧ e.1 + (swapPageSize + e.2 * pageSize) ≤
      s.dev.metadata + (swapHeaderSize + s.dev.hdr.size) :=
  (h.within e he).2

/-- Reservations with one id are one reservation. -/
theorem eq_of_id {e' : ℕ × ℕ} (he : e ∈ s.live) (he' : e' ∈ s.live)
    (hid : e'.1 = e.1) : e' = e := by
  by_contra hne
  have hap := apart_of_mem h.spans he' he hne
  simp only [Span.Apart, span, stop_mk, swapPageSize] at hap
  omega

theorem mem_pages : id ∈ s.dev.hdr.pages ↔ ∃ k, (id, k) ∈ s.live := by
  rw [h.pages, mem_map]
  constructor
  · rintro ⟨e, he, rfl⟩
    exact ⟨e.2, he⟩
  · rintro ⟨k, hk⟩
    exact ⟨(id, k), hk, rfl⟩

/-! ### Reserving -/

/-- The node loses its last `n` bytes; an empty node leaves the list. -/
theorem carve (hp : page ∈ ns) {n left : ℕ} (hn : left + n = size s.dev.mem page)
    (hleft : left = 0 ∨ swapPageSize ≤ left) (hdr : SwapHeader) {c : ByteMem × SwapHeader}
    (hc : dropEmpty (setCount s.dev.mem page left) hdr page left = c)
    (hfl : hdr.freeList = s.dev.hdr.freeList) :
    ∃ ns', FreeList.Inv layout c.1 (fun _ : Unit => c.2.freeList)
        (fun _ => ns') (⟨page + left, n⟩ :: headerSpan s.dev :: s.live.map span) ∧
      (∀ x ∈ ns', (region layout c.1 x).Within (bufSpan s.dev)) ∧
      (∀ e ∈ s.live, ∀ a, (span e).Has a → c.1 a = s.dev.mem a) ∧
      freeBytes c.1 ns' + n = freeBytes s.dev.mem ns ∧
      ((ns'.length = ns.length ∧ c.2.nNodes = hdr.nNodes) ∨
        (ns'.length + 1 = ns.length ∧ c.2.nNodes = u64sub hdr.nNodes 1)) := by
  subst hc
  have hregion : region layout s.dev.mem page = ⟨page, left + n⟩ := by
    rw [region, hn]
    exact congrArg _ (Nat.mul_one _)
  have hb : (Span.mk (page + left) n).Within (region layout s.dev.mem page) := by
    rw [hregion]
    exact ⟨Nat.le_add_right _ _, (Nat.add_assoc page left n).le⟩
  by_cases h0 : left = 0
  · simp only [dropEmpty, if_pos h0, hfl]
    obtain ⟨l, r, hlr, hinv, hns⟩ := h.lists.drop (z := ()) hp left hb
    rw [update_eq_const_of_subsingleton, update_eq_const_of_subsingleton] at hinv
    replace hns := hns ()
    rw [update_self] at hns
    refine ⟨l ++ r, hinv, fun x hx => ?_, fun e he a ha => ?_, ?_, Or.inr ⟨?_, trivial⟩⟩
    · rw [region, (hns x hx).2]
      exact h.inside x (hns x hx).1
    · exact h.lists.unlink_taken (z := ()) hp left _ (mem_taken he) ha
    · rw [freeBytes_congr (fun x hx => (hns x hx).2), hlr]
      simp only [freeBytes, map_append, map_cons, sum_append, sum_cons]
      omega
    · rw [hlr]
      simp only [length_append, length_cons]
      omega
  · simp only [dropEmpty, if_neg h0, hfl]
    have hle : left ≤ count s.dev.mem page := (Nat.le_add_right left n).trans hn.le
    have hhdr : layout.hdr ≤ left * layout.unit :=
      (hleft.resolve_left h0).trans (Nat.mul_one left).ge
    have hself : count (setCount s.dev.mem page left) page = left :=
      FreeList.count_setCount_self (lt_of_le_of_lt hle (ByteMem.load64_lt _ _))
    have hsame : ∀ x ∈ ns, x ≠ page →
        count (setCount s.dev.mem page left) x = count s.dev.mem x :=
      fun x hx hxp =>
        (@FreeList.Inv.setCount_fields _ _ _ _ _ _ _ () () _ _ _ h.lists hp hx left).2.2 hxp
    refine ⟨ns, ?_, fun x hx => ?_, fun e he a ha => ?_, ?_, Or.inl ⟨rfl, trivial⟩⟩
    · exact h.lists.shrink (z := ()) hp hhdr hle hb
        (Nat.add_le_add_left (Nat.mul_one left).le page)
    · by_cases hxp : x = page
      · subst hxp
        have hin := h.inside x hx
        rw [hregion] at hin
        rw [region, hself]
        refine ⟨hin.1, le_trans ?_ hin.2⟩
        show x + left * 1 ≤ x + (left + n)
        omega
      · rw [region, hsame x hx hxp]
        exact h.inside x hx
    · exact h.lists.setCount_taken (z := ()) hp left (mem_taken he) ha
    · exact freeBytes_shrink hp (h.lists.lists ()).nodup ((congrArg (· + n) hself).trans hn) hsame

/-- The sizes and pages of reservations survive a change of other bytes. -/
theorem keep {s' : State} {ns' : List ℕ}
    (hdev : s'.dev.metadata = s.dev.metadata ∧ s'.dev.hdr.magic = s.dev.hdr.magic ∧
      s'.dev.hdr.size = s.dev.hdr.size)
    (hlists : FreeList.Inv layout s'.dev.mem (fun _ : Unit => s'.dev.hdr.freeList) (fun _ => ns')
      (headerSpan s'.dev :: s'.live.map span))
    (hinside : ∀ x ∈ ns', (region layout s'.dev.mem x).Within (bufSpan s.dev))
    (hpages : s'.dev.hdr.pages = s'.live.map Prod.fst)
    (hlive : ∀ e ∈ s'.live,
      (e ∈ s.live ∧ s'.written e.1 = s.written e.1 ∧ ∀ a, Kept e a → s'.dev.mem a = s.dev.mem a) ∨
      (0 < e.2 ∧ (span e).Within (bufSpan s.dev) ∧ size s'.dev.mem e.1 = e.2 * pageSize ∧
        ∀ o < e.2 * pageSize, ∀ b ∈ s'.written e.1 o,
          s'.dev.mem (e.1 + swapPageSize + o) = b)) :
    Inv s' ns' := by
  obtain ⟨hmeta, hmagic, hsize⟩ := hdev
  have hbuf : bufSpan s'.dev = bufSpan s.dev := by rw [bufSpan, bufSpan, hmeta, hsize]
  refine ⟨?_, ?_, ?_, hlists, hbuf ▸ hinside, hpages, ?_, ?_, ?_⟩
  · rw [SwapDev.valid, hmeta, hmagic]
    exact h.valid
  · rw [hsize]
    exact h.small
  · rw [hmeta, hsize]
    exact h.top
  · intro e he
    rw [hbuf]
    obtain ⟨hold, -⟩ | ⟨hpos, hin, -⟩ := hlive e he
    · exact h.within e hold
    · exact ⟨hpos, hin⟩
  · intro e he
    obtain ⟨hold, -, hkept⟩ | ⟨-, -, hsz, -⟩ := hlive e he
    · rw [size_congr hkept]
      exact h.sizes e hold
    · exact hsz
  · intro e he o ho b hb
    obtain ⟨hold, hw, hkept⟩ | ⟨-, -, -, hdata⟩ := hlive e he
    · rw [hkept _ (kept_data ho)]
      exact h.data e hold o ho b (hw ▸ hb)
    · exact hdata o ho b hb

/-- A new id compares equal to no member of the tree. -/
theorem rbInsert_eq (buf : ℕ) (hbuf : (bufSpan s.dev).Has buf)
    (hnew : ∀ e ∈ s.live, e.1 ≠ buf) :
    rbInsert s.dev.hdr.pages buf = buf :: s.dev.hdr.pages := by
  refine if_neg fun hsome => ?_
  obtain ⟨x, hx⟩ := Option.isSome_iff_exists.mp hsome
  have hcmp : cmp buf x = 0 :=
    of_decide_eq_true (List.find?_some (p := fun e => decide (cmp buf e = 0)) hx)
  have hmem := mem_of_find?_eq_some hx
  rw [h.pages] at hmem
  obtain ⟨e, he, rfl⟩ := mem_map.mp hmem
  have hsmall := h.small
  have hb := h.bounds he
  have hlt := hbuf.2
  refine hnew e he (eq_of_cmp_eq_zero (b := s.dev.metadata) hbuf.1 ?_ hb.1 ?_ hcmp).symm
  · exact lt_of_lt_of_le hlt (Nat.add_le_add_left hsmall.le _)
  · have hpos : 0 < swapPageSize := by decide
    omega

/-- The memory after `c` became a reservation: the tree's links and the size. -/
theorem addReservation {c : ℕ × ℕ} {m : ByteMem} {hdr : SwapHeader} (rb : ByteMem)
    {ns' : List ℕ} (hc : 0 < c.2) (hin : (span c).Within (bufSpan s.dev))
    (hdev : hdr.magic = s.dev.hdr.magic ∧ hdr.size = s.dev.hdr.size)
    (hlists : FreeList.Inv layout m (fun _ : Unit => hdr.freeList) (fun _ => ns')
      (span c :: headerSpan s.dev :: s.live.map span))
    (hinside : ∀ x ∈ ns', (region layout m x).Within (bufSpan s.dev))
    (htaken : ∀ e ∈ s.live, ∀ a, (span e).Has a → m a = s.dev.mem a) :
    Inv { s with
      dev := { s.dev with
        mem := setCount (rbLinks m (c.1 :: s.dev.hdr.pages) rb) c.1 (c.2 * pageSize)
        hdr := { hdr with pages := c.1 :: s.dev.hdr.pages } }
      live := c :: s.live
      written := update s.written c.1 fun _ => none } ns' ∧
    ∀ x ∈ ns', size (setCount (rbLinks m (c.1 :: s.dev.hdr.pages) rb) c.1
      (c.2 * pageSize)) x = size m x := by
  have hpages : c.1 :: s.dev.hdr.pages = (c :: s.live).map Prod.fst := by rw [h.pages]; rfl
  have hnew : ∀ e ∈ s.live, (span c).Apart (span e) := fun e he =>
    (pairwise_cons.mp (pairwise_append.mp hlists.apart).2.1).1 _ (mem_taken he)
  have hap : ((c :: s.live).map span).Pairwise Span.Apart := by
    refine pairwise_cons.mpr ⟨fun b hb => ?_, h.spans⟩
    obtain ⟨e, he, rfl⟩ := mem_map.mp hb
    exact hnew e he
  have hwords : ∀ a, ¬ (span c).Has a → ¬ (Span.mk c.1 24).Has a := by
    intro a ha hw
    refine ha ⟨hw.1, lt_of_lt_of_le hw.2 (Nat.add_le_add_left ?_ _)⟩
    exact le_trans layout.words (Nat.le_add_right swapPageSize _)
  have hagree : ∀ a, (∀ b ∈ span c :: headerSpan s.dev :: s.live.map span, ¬ b.Has a) →
      setCount (rbLinks m ((c :: s.live).map Prod.fst) rb) c.1 (c.2 * pageSize) a =
        m a := by
    intro a ha
    have hnot := ha _ mem_cons_self
    rw [FreeList.setCount_of_not_has _ (hwords a hnot)]
    refine rbLinks_of_not_has rb fun e he => ?_
    obtain rfl | he := mem_cons.mp he
    · exact hnot
    · exact ha _ (mem_cons_of_mem _ (mem_taken he))
  have hwrite := hlists.write hagree
  have hsame : ∀ x ∈ ns', FreeList.SameNode m _ x := fun x hx =>
    hlists.sameNode (z := ()) hagree hx
  rw [hpages]
  refine ⟨h.keep ⟨rfl, hdev⟩ (hwrite.perm (List.Perm.swap _ _ _)) ?_ rfl ?_,
    fun x hx => (hsame x hx).count⟩
  · intro x hx
    rw [region, (hsame x hx).count]
    exact hinside x hx
  · intro e he
    obtain rfl | he := mem_cons.mp he
    · have hlt : e.2 * pageSize < 2 ^ 64 := by
        have hb := hin.2
        have htop := h.top
        simp only [span, bufSpan, stop_mk] at hb
        omega
      refine Or.inr ⟨hc, hin, FreeList.count_setCount_self hlt, fun o _ b hb => ?_⟩
      simp [update_self] at hb
    · have hne : e.1 ≠ c.1 := by
        intro hid
        have hapart := hnew e he
        have hpos : 0 < swapPageSize := by decide
        simp only [Span.Apart, span, stop_mk] at hapart
        omega
      refine Or.inl ⟨he, update_of_ne hne _ _, fun a ha => ?_⟩
      have hnot : ¬ (span c).Has a := (hnew e he).symm.not_has ha.has
      show setCount _ _ _ a = _
      rw [FreeList.setCount_of_not_has _ (hwords a hnot),
        rbLinks_of_kept rb hap (mem_cons_of_mem _ he) ha]
      exact htaken e he a ha.has

/-- Taking the bytes of a reservation off a node that keeps nothing or room for
its header. -/
theorem takeBytes {rb : ByteMem} (hp : page ∈ ns) (hn : 0 < nPages) {n : ℕ}
    (hsize : nPages * pageSize + swapPageSize = n)
    (hfit : size s.dev.mem page = n ∨ n + swapPageSize ≤ size s.dev.mem page)
    {r : SwapDev × ℕ} (hr : takeBytes s.dev rb page (nPages * pageSize) n = r) :
    ∃ ns', Inv { s with
      dev := r.1
      live := (r.2, nPages) :: s.live
      written := update s.written r.2 fun _ => none } ns' ∧ Took s.dev r.1 ns ns' n := by
  obtain ⟨left, hleft⟩ : ∃ left, left + n = size s.dev.mem page :=
    ⟨size s.dev.mem page - n, by omega⟩
  -- the region of the node lies in the buffer, so no sum wraps
  have hin : s.dev.metadata ≤ page ∧ page + size s.dev.mem page ≤
      s.dev.metadata + (swapHeaderSize + s.dev.hdr.size) := by
    obtain ⟨h1, h2⟩ := h.inside page hp
    exact ⟨h1, (congrArg (page + ·) (Nat.mul_one _)).ge.trans h2⟩
  have hsmall := h.small
  have htop := h.top
  have hpos : 0 < swapPageSize := by decide
  have hsub : u64sub (size s.dev.mem page) n = left := by
    rw [u64sub_of_le (by omega) (by omega)]
    omega
  have hspan : Span.mk (page + left) n = span (page + left, nPages) :=
    congrArg _ (hsize.symm.trans (Nat.add_comm _ _))
  obtain ⟨ns', hlists, hinside, htaken, hbytes, hnodes⟩ := h.carve hp hleft (by omega)
    { s.dev.hdr with nBytesFree := u64sub s.dev.hdr.nBytesFree n } rfl rfl
  rw [hspan] at hlists
  have hnew : ∀ e ∈ s.live, e.1 ≠ page + left := by
    intro e he hid
    have hapart := (pairwise_cons.mp (pairwise_append.mp hlists.apart).2.1).1 _
      (mem_taken he)
    simp only [Span.Apart, span, stop_mk] at hapart
    omega
  have hins := h.rbInsert_eq (page + left) ⟨le_trans hin.1 (Nat.le_add_right _ _), by
    show page + left < s.dev.metadata + (swapHeaderSize + s.dev.hdr.size)
    omega⟩ hnew
  have hbuf : u64 (page + left) = page + left := u64_of_lt (by omega)
  simp only [Swap.takeBytes, hsub, hbuf, (dropEmpty_fields _ _ _ _).1, hins] at hr
  subst hr
  have hwithin : (span (page + left, nPages)).Within (bufSpan s.dev) := by
    refine ⟨le_trans hin.1 (Nat.le_add_right _ _), ?_⟩
    show page + left + (swapPageSize + nPages * pageSize) ≤
      s.dev.metadata + (swapHeaderSize + s.dev.hdr.size)
    omega
  have hdev := (dropEmpty_fields (setCount s.dev.mem page left)
    { s.dev.hdr with nBytesFree := u64sub s.dev.hdr.nBytesFree n } page left).2.2
  obtain ⟨hinv, hsizes⟩ := h.addReservation (c := (page + left, nPages)) rb hn hwithin hdev
    hlists hinside htaken
  exact ⟨ns', hinv, (congrArg (· + _) (freeBytes_congr hsizes)).trans hbytes,
    (dropEmpty_fields _ _ _ _).2.1, hnodes⟩

/-- The search ends with the first free node that has enough bytes. -/
theorem findFree_find (n : ℕ) :
    findFree s.dev n = some ((ns.find? fun page => n ≤ size s.dev.mem page).getD 0) :=
  (h.lists.lists ()).walk_eq (h.lists.length_lt ())

theorem findFree_eq (n : ℕ) :
    ∃ page, findFree s.dev n = some page ∧ (page ≠ 0 → page ∈ ns ∧ n ≤ size s.dev.mem page) := by
  refine ⟨_, h.findFree_find n, fun hne => ?_⟩
  cases hf : ns.find? fun page => n ≤ size s.dev.mem page with
  | none => exact absurd (by rw [hf]; rfl) hne
  | some x =>
    rw [Option.getD_some]
    refine ⟨mem_of_find?_eq_some hf, ?_⟩
    exact of_decide_eq_true (List.find?_some (p := fun x => decide (n ≤ size s.dev.mem x)) hf)

theorem resv (rb : ByteMem) (hok : Allowed s (.resv rb nPages)) :
    ∃ s' ns', step s (.resv rb nPages) = some s' ∧ Inv s' ns' ∧
      (s'.dev = s.dev ∧ ns' = ns ∨
        Took s.dev s'.dev ns ns' (nPages * pageSize + swapPageSize)) := by
  obtain ⟨hlt, hfit⟩ := hok
  have hpos : 0 < swapPageSize := by decide
  have halloc : u64 (nPages * pageSize) = nPages * pageSize := u64_of_lt (by omega)
  simp only [step, swapResv, halloc, u64_of_lt hlt]
  by_cases harg : nPages = 0 ∨ (!s.dev.valid) = true
  · rw [if_pos harg]
    exact ⟨s, ns, rfl, h, Or.inl ⟨rfl, rfl⟩⟩
  rw [if_neg harg]
  by_cases hfree : s.dev.hdr.nBytesFree < nPages * pageSize + swapPageSize
  · rw [if_pos hfree]
    exact ⟨s, ns, rfl, h, Or.inl ⟨rfl, rfl⟩⟩
  rw [if_neg hfree]
  obtain ⟨page, hpage, hmem⟩ := h.findFree_eq (nPages * pageSize + swapPageSize)
  rw [hpage]
  by_cases h0 : page = 0
  · simp only [if_pos h0]
    exact ⟨s, ns, rfl, h, Or.inl ⟨rfl, rfl⟩⟩
  · simp only [if_neg h0]
    obtain ⟨ns', hinv, htook⟩ := h.takeBytes (hmem h0).1
      (Nat.pos_of_ne_zero fun hn => harg (Or.inl hn)) rfl ((hfit page hpage).resolve_left h0) rfl
    exact ⟨_, ns', rfl, hinv, Or.inr htook⟩

end

/-! ### Freeing -/

theorem map_eraseP (es : List (ℕ × ℕ)) (id : ℕ) :
    (es.eraseP fun e => e.1 = id).map Prod.fst = (es.map Prod.fst).erase id := by
  induction es with
  | nil => rfl
  | cons e es ih =>
    by_cases he : e.1 = id
    · simp [he]
    · rw [eraseP_cons_of_neg (by simpa using he), map_cons, ih, map_cons,
        erase_cons_tail (by simpa using he)]

variable (h : Inv s ns)
include h

/-- The freed reservation in front of the others. -/
theorem perm_eraseP (he : e ∈ s.live) :
    s.live.Perm (e :: s.live.eraseP fun e' => e'.1 = e.1) := by
  obtain ⟨x, l, r, hl, hx, hlive, herase⟩ :=
    exists_of_eraseP (p := fun e' : ℕ × ℕ => e'.1 = e.1) he (decide_eq_true rfl)
  have hxe : x = e := h.eq_of_id he (hlive ▸ by simp) (of_decide_eq_true hx)
  rw [herase, hlive, hxe]
  exact perm_middle

theorem release (rb : ByteMem) {m : ByteMem}
    (hm : rbLinks s.dev.mem s.dev.hdr.pages rb = m) (he : e ∈ s.live) (hnext : FreeList.next s.dev.mem e.1 = 0) {r : ByteMem × FreeList.Ends}
    (hr : FreeList.append m s.dev.hdr.freeList e.1 = r) :
    Inv { s with
      dev := { s.dev with
        mem := r.1
        hdr := { s.dev.hdr with
          pages := s.dev.hdr.pages.erase e.1
          freeList := r.2
          nNodes := u64sub s.dev.hdr.nNodes 1
          nBytesFree := u64 (s.dev.hdr.nBytesFree + size r.1 e.1) } }
      live := s.live.eraseP fun e' => e'.1 = e.1 } (ns ++ [e.1]) ∧
    ∀ x ∈ ns ++ [e.1], size r.1 x = size s.dev.mem x := by
  set rest := s.live.eraseP fun e' => e'.1 = e.1 with hrest
  have hperm : s.live.Perm (e :: rest) := h.perm_eraseP he
  obtain ⟨hpos, hin⟩ := h.within e he
  -- the tree writes into reservations only
  rw [h.pages] at hm
  have hagree : ∀ a, (∀ b ∈ headerSpan s.dev :: s.live.map span, ¬ b.Has a) →
      m a = s.dev.mem a := fun a ha =>
    hm ▸ rbLinks_of_not_has rb fun e he => ha _ (mem_taken he)
  have hkept : ∀ e' ∈ s.live, ∀ a, Kept e' a → m a = s.dev.mem a := fun e' he' a ha =>
    hm ▸ rbLinks_of_kept rb h.spans he' ha
  have hsize : count m e.1 = e.2 * pageSize := (size_congr (hkept e he)).trans (h.sizes e he)
  have hnext' : FreeList.next m e.1 = 0 := hm ▸ (next_rbLinks rb h.spans he).trans hnext
  have hcount : ∀ x ∈ ns, count m x = count s.dev.mem x := fun x hx =>
    (h.lists.sameNode (z := ()) hagree hx).count
  have hwrite := h.lists.write hagree
  have hfront : (headerSpan s.dev :: s.live.map span).Perm
      (span e :: headerSpan s.dev :: rest.map span) :=
    ((hperm.map span).cons _).trans (List.Perm.swap _ _ _)
  have hshrink := (hwrite.perm hfront).shrink_taken
    (show (Span.mk e.1 (count m e.1 * layout.unit)).Within _ by
      rw [hsize]
      refine ⟨le_rfl, ?_⟩
      show e.1 + e.2 * pageSize * 1 ≤ e.1 + (swapPageSize + e.2 * pageSize)
      omega)
  have hroom : Room layout m e.1 := by
    have hb := h.bounds he
    have htop := h.top
    have hmeta := h.metadata_ne
    rw [Room, hsize]
    refine ⟨by omega, ?_, ?_⟩
    · show 56 ≤ e.2 * 4096 * 1
      omega
    · show e.1 + e.2 * pageSize * 1 < 2 ^ 64
      omega
  obtain ⟨hinv, hns⟩ := hshrink.append (z := ()) hroom hnext'
  rw [update_eq_const_of_subsingleton, update_eq_const_of_subsingleton] at hinv
  replace hns := hns ()
  rw [update_self] at hns
  subst hr
  refine ⟨h.keep ⟨rfl, rfl, rfl⟩ hinv (fun x hx => ?_) ?_ fun e' he' => ?_, fun x hx => ?_⟩
  · obtain ⟨hx', hxc⟩ := hns x hx
    rw [region, hxc]
    obtain hold | rfl := hx'
    · rw [hcount x hold]
      exact h.inside x hold
    · rw [hsize]
      refine ⟨hin.1, le_trans ?_ hin.2⟩
      show e.1 + e.2 * pageSize * 1 ≤ e.1 + (swapPageSize + e.2 * pageSize)
      omega
  · rw [hrest, map_eraseP, h.pages]
  · have hold : e' ∈ s.live := mem_of_mem_eraseP he'
    refine Or.inl ⟨hold, rfl, fun a ha => ?_⟩
    have hlen : 24 ≤ count m e.1 * layout.unit := layout.words.trans hroom.2.1
    have hmem : span e' ∈ headerSpan s.dev :: rest.map span :=
      mem_cons_of_mem _ (mem_map_of_mem he')
    exact (hshrink.append_taken (z := ()) hlen hmem ha.has).trans (hkept e' hold a ha)
  · obtain ⟨hx', hxc⟩ := hns x hx
    refine hxc.trans ?_
    obtain hold | rfl := hx'
    · exact hcount x hold
    · exact hsize.trans (h.sizes e he).symm

theorem free (rb : ByteMem) (hok : Allowed s (.free rb id nPages)) :
    (∃ st, swapFree s.dev rb id nPages = .error st) ∨
    ∃ d k, (id, k) ∈ s.live ∧ swapFree s.dev rb id nPages = .ok d ∧
      Inv { s with dev := d, live := s.live.eraseP fun e => e.1 = id } (ns ++ [id]) ∧
      Gave s.dev d ns (id, k) := by
  obtain ⟨hid, hnext⟩ := hok
  by_cases harg : nPages = 0 ∨ id = 0 ∨ (!s.dev.valid) = true
  · exact Or.inl ⟨_, if_pos harg⟩
  by_cases hfind : rbFind s.dev.hdr.pages id = none
  · exact Or.inl ⟨_, by rw [swapFree, if_neg harg, if_pos hfind]⟩
  have hmem := mem_of_rbFind hid hfind
  obtain ⟨k, hk⟩ := h.mem_pages.mp hmem
  obtain ⟨hinv, hsizes⟩ := h.release rb rfl hk (hnext hmem) rfl
  have hold : size s.dev.mem id = k * pageSize := h.sizes (id, k) hk
  have hnew := (hsizes id (by simp)).trans hold
  refine Or.inr ⟨_, k, hk, ?_, hinv, ?_⟩
  · rw [swapFree, if_neg harg, if_neg hfind]
  · exact ⟨fun x hx => hsizes x (by simp [hx]), hnew, by rw [hnew], rfl⟩

/-! ### Copying -/

/-- What the checks of a copy amount to: nothing wraps in a reservation. -/
theorem inRange_iff (he : e ∈ s.live) (offset : ℕ) (hlt : nPages * pageSize < 2 ^ 64)
    (hn : nPages ≠ 0) :
    inRange s.dev e.1 nPages offset = true ↔ offset + nPages * pageSize ≤ e.2 * pageSize := by
  have hb := h.bounds he
  have hsmall := h.small
  have hpos : 0 < nPages * pageSize := Nat.mul_pos (Nat.pos_of_ne_zero hn) (by decide)
  simp only [inRange, u64_of_lt hlt, h.sizes e he, decide_eq_true_eq]
  constructor
  · rintro ⟨h1, h2, h3⟩
    rwa [u64_of_lt (by omega)] at h3
  · intro hle
    rw [u64_of_lt (by omega)]
    omega

theorem dataAddr_eq (he : e ∈ s.live) {offset : ℕ}
    (hle : offset ≤ e.2 * pageSize) : dataAddr e.1 offset = e.1 + swapPageSize + offset := by
  have hb := h.bounds he
  have htop := h.top
  exact u64_of_lt (by omega)

/-- A write into a reservation: its bytes are the new ones, and nothing else
changes. -/
theorem writePages {c : Call} (physMem : ByteMem) (he : e ∈ s.live)
    (hid : e.1 = c.id) (hle : c.offsetBytes + c.nPages * pageSize ≤ e.2 * pageSize) :
    let m := s.dev.mem.overwrite ⟨e.1 + swapPageSize + c.offsetBytes, c.nPages * pageSize⟩
      fun a => physMem (c.phys + (a - (e.1 + swapPageSize + c.offsetBytes)))
    Inv { s with dev := { s.dev with mem := m }, written := recordWrite s.written physMem c } ns ∧
      ∀ x ∈ ns, size m x = size s.dev.mem x := by
  set b : Span := ⟨e.1 + swapPageSize + c.offsetBytes, c.nPages * pageSize⟩ with hb
  have hbe : b.Within (span e) := by
    simp only [hb, Span.Within, span, stop_mk]
    omega
  have hnot : ∀ a, ¬ (span e).Has a → ¬ b.Has a := fun a ha hba =>
    ha ⟨hbe.1.trans hba.1, hba.2.trans_le hbe.2⟩
  intro m
  have hout : ∀ a, ¬ b.Has a → m a = s.dev.mem a := fun a ha => ByteMem.overwrite_of_not_has ha
  have hagree : ∀ a, (∀ b ∈ headerSpan s.dev :: s.live.map span, ¬ b.Has a) → m a = s.dev.mem a :=
    fun a ha => hout a (hnot a (ha _ (mem_taken he)))
  have hsame : ∀ x ∈ ns, FreeList.SameNode s.dev.mem m x := fun x hx =>
    h.lists.sameNode (z := ()) hagree hx
  refine ⟨h.keep ⟨rfl, rfl, rfl⟩ (h.lists.write hagree) (fun x hx => ?_) h.pages fun e' he' => ?_,
    fun x hx => (hsame x hx).count⟩
  · rw [region, (hsame x hx).count]
    exact h.inside x hx
  by_cases hee : e' = e
  · subst hee
    have hsize : size m e'.1 = size s.dev.mem e'.1 := by
      refine ByteMem.load_congr fun a ha => hout a fun hba => ?_
      have hlt := ha.2
      have hge := hba.1
      simp only [hb, stop_mk, swapPageSize] at hlt hge
      omega
    refine Or.inr ⟨(h.within e' he').1, (h.within e' he').2, hsize.trans (h.sizes e' he'),
      fun o ho v hv => ?_⟩
    show m (e'.1 + swapPageSize + o) = v
    simp only [recordWrite, ← hid, true_and] at hv
    by_cases hr : c.offsetBytes ≤ o ∧ o < c.offsetBytes + c.nPages * pageSize
    · rw [if_pos hr, Option.mem_def, Option.some.injEq] at hv
      have hhas : b.Has (e'.1 + swapPageSize + o) := by
        simp only [hb, Span.Has, stop_mk]
        omega
      have hoff : e'.1 + swapPageSize + o - (e'.1 + swapPageSize + c.offsetBytes) =
          o - c.offsetBytes := by omega
      rw [← hv, ← hoff]
      exact ByteMem.overwrite_of_has hhas
    · rw [if_neg hr] at hv
      refine (hout _ ?_).trans (h.data e' he' o ho v hv)
      simp only [hb, Span.Has, stop_mk]
      omega
  · have hne : e'.1 ≠ c.id := fun he1 => hee (h.eq_of_id he he' (he1.trans hid.symm))
    refine Or.inl ⟨he', ?_, fun a ha => ?_⟩
    · funext o
      exact if_neg fun hr => hne hr.1
    · exact hout a (hnot a ((apart_of_mem h.spans he' he hee).not_has ha.has))

/-- Whatever calls are about to copy, the device and the reservations are the same. -/
theorem with_calls (calls : List Call) : Inv { s with calls := calls } ns :=
  ⟨h.valid, h.small, h.top, h.lists, h.inside, h.pages, h.within, h.sizes, h.data⟩

theorem copy (physMem : ByteMem) {c : Call} (hok : Allowed s (.copy physMem c)) :
    ∃ s', step s (.copy physMem c) = some s' ∧ Inv s' ns ∧ Untouched s.dev s'.dev ns := by
  obtain ⟨hid, hlt⟩ := hok
  by_cases hc : c ∈ s.calls
  swap
  · exact ⟨s, by simp only [step, if_neg hc], h, .refl _ _⟩
  have hcalls := h.with_calls (s.calls.erase c)
  cases hw : c.write with
  | false => exact ⟨_, by simp only [step, if_pos hc, hw]; rfl, hcalls, .refl _ _⟩
  | true =>
    obtain ⟨k, hk⟩ := h.mem_pages.mp hid
    by_cases hn : c.nPages = 0
    · have hrecord : recordWrite s.written physMem c = s.written := by
        funext id o
        refine if_neg fun hr => ?_
        rw [hn, Nat.zero_mul] at hr
        omega
      refine ⟨_, by simp only [step, if_pos hc, hw, writeData, if_pos hn]; rfl, ?_, ?_⟩
      · rw [hrecord]
        exact hcalls
      · exact .refl _ _
    by_cases hr : inRange s.dev c.id c.nPages c.offsetBytes = true
    · have hle := (h.inRange_iff hk _ hlt hn).mp hr
      have haddr := h.dataAddr_eq hk ((Nat.le_add_right _ _).trans hle)
      obtain ⟨hwrite, hsizes⟩ := hcalls.writePages (c := c) physMem hk rfl hle
      rw [← haddr, ← u64_of_lt hlt] at hwrite hsizes
      exact ⟨_, by simp only [step, if_pos hc, hw, writeData, if_neg hn, if_pos hr]; rfl, hwrite,
        hsizes, rfl⟩
    · exact ⟨_, by simp only [step, if_pos hc, hw, writeData, if_neg hn, if_neg hr]; rfl, hcalls,
        .refl _ _⟩

theorem find (c : Call) :
    ∃ s', step s (.find c) = some s' ∧ Inv s' ns ∧ s'.dev = s.dev := by
  cases hf : findPage s.dev c.id with
  | error st => exact ⟨s, by simp only [step, hf], h, rfl⟩
  | ok u => exact ⟨_, by simp only [step, hf], h.with_calls (c :: s.calls), rfl⟩

/-! ### Reading -/

theorem readsBack (he : e ∈ s.live) : ReadsBack s e := by
  intro physMem phys nPages offset hle
  have hb := h.bounds he
  have hmeta := h.metadata_ne
  have hsmall := h.small
  have hfind : findPage s.dev e.1 = .ok () := by
    have hmem : e.1 ∈ s.dev.hdr.pages := h.mem_pages.mpr ⟨e.2, he⟩
    have harg : ¬ (e.1 = 0 ∨ (!s.dev.valid) = true) := by
      rw [h.valid]
      simp only [Bool.not_true, Bool.false_eq_true, or_false]
      omega
    rw [findPage, if_neg harg, if_neg (rbFind_ne_none hmem)]
  simp only [swapRead, hfind]
  by_cases hn : nPages = 0
  · refine ⟨physMem, if_pos hn, fun i hi => ?_⟩
    rw [hn, Nat.zero_mul] at hi
    exact absurd hi (Nat.not_lt_zero i)
  · have hlt : nPages * pageSize < 2 ^ 64 := by omega
    have hr := (h.inRange_iff he offset hlt hn).mpr hle
    refine ⟨_, (if_neg hn).trans (if_pos hr), fun i hi b hbw => ?_⟩
    rw [u64_of_lt hlt, h.dataAddr_eq he ((Nat.le_add_right _ _).trans hle),
      ByteMem.overwrite_of_has (Span.has_add _ hi),
      Nat.add_sub_cancel_left, Nat.add_assoc]
    exact h.data e he (offset + i) (by omega) b hbw

theorem safe : Safe s where
  apart := (pairwise_append.mp h.lists.apart).2.1
  nodes := by
    intro e he node hnode
    have hx : node ∈ ns := (h.lists.lists ()).mem_of_reach hnode
    exact (h.lists.taken_apart (z := ()) (mem_taken he) hx).mono (Span.Within.refl _)
      (h.lists.header_within (z := ()) hx)
  reads := fun _ he => h.readsBack he

end Inv

/-! ### Runs -/

theorem inv_step {s : State} (op : Op) (h : ∃ ns, Inv s ns) (hok : Allowed s op) :
    ∃ s', step s op = some s' ∧ ∃ ns, Inv s' ns := by
  obtain ⟨ns, h⟩ := h
  cases op with
  | resv rb nPages =>
    obtain ⟨s', ns', hs', hI, -⟩ := h.resv rb hok
    exact ⟨s', hs', ns', hI⟩
  | free rb id nPages =>
    obtain ⟨st, hst⟩ | ⟨d, k, -, hd, hI, -⟩ := h.free rb hok
    · exact ⟨s, by simp only [step, hst], ns, h⟩
    · exact ⟨_, by simp only [step, hd], _, hI⟩
  | find c =>
    obtain ⟨s', hs', hI, -⟩ := h.find c
    exact ⟨s', hs', ns, hI⟩
  | copy physMem c =>
    obtain ⟨s', hs', hI, -⟩ := h.copy physMem hok
    exact ⟨s', hs', ns, hI⟩

/-- What initialization accepts. -/
theorem initialize_ok {mem : ByteMem} {buf bufSize : ℕ} {d : SwapDev}
    (hd : initializeInitialSwapDevice mem buf bufSize = .ok d) :
    (buf ≠ 0 ∧ 64 + 2097152 ≤ bufSize) ∧ freshDevice mem buf bufSize = d := by
  by_cases harg : buf = 0 ∨ bufSize < swapHeaderSize + hugePageSize
  · rw [initializeInitialSwapDevice, if_pos harg] at hd
    cases hd
  rw [initializeInitialSwapDevice, if_neg harg, Except.ok.injEq] at hd
  simpa only [swapHeaderSize, hugePageSize, not_or, not_lt] using And.intro harg hd

/-- The fresh device: one free node behind the header. -/
theorem inv_start {mem : ByteMem} {buf bufSize : ℕ} {d : SwapDev} (hsmall : bufSize < 2 ^ 31)
    (htop : buf + bufSize < 2 ^ 64) (hd : initializeInitialSwapDevice mem buf bufSize = .ok d) :
    Inv (start d) [buf + swapHeaderSize] ∧
      size d.mem (buf + swapHeaderSize) = d.hdr.nBytesFree := by
  obtain ⟨harg, hd⟩ := initialize_ok hd
  have hfree : u64 (buf + swapHeaderSize) = buf + swapHeaderSize :=
    u64_of_lt (by simp only [swapHeaderSize]; omega)
  simp only [freshDevice, hfree] at hd
  subst hd
  obtain ⟨hcount, hnext, hprev⟩ := FreeList.fields_of_zero
    (m := mem.zero ⟨buf, swapHeaderSize⟩) (x := buf + swapHeaderSize) (n := swapPageSize)
    (v := bufSize - swapHeaderSize - swapPageSize) layout.words (by omega)
  refine ⟨?_, hcount⟩
  set m := setCount ((mem.zero ⟨buf, swapHeaderSize⟩).zero
    ⟨buf + swapHeaderSize, swapPageSize⟩) (buf + swapHeaderSize)
    (bufSize - swapHeaderSize - swapPageSize)
  have hregion : region layout m (buf + swapHeaderSize) =
      ⟨buf + swapHeaderSize, bufSize - swapHeaderSize - swapPageSize⟩ := by
    rw [region, hcount]
    exact congrArg _ (Nat.mul_one _)
  refine ⟨?_, ?_, ?_, FreeList.Inv.single ?_ hnext hprev ?_, ?_, rfl, ?_, ?_, ?_⟩
  · exact decide_eq_true ⟨harg.1, rfl⟩
  · show swapHeaderSize + (bufSize - swapHeaderSize) < 2 ^ 31
    simp only [swapHeaderSize]
    omega
  · show buf + (swapHeaderSize + (bufSize - swapHeaderSize)) < 2 ^ 64
    simp only [swapHeaderSize]
    omega
  · show Room layout m (buf + swapHeaderSize)
    rw [Room, hcount]
    simp only [layout, swapHeaderSize, swapPageSize]
    omega
  · show [region layout m (buf + swapHeaderSize), ⟨buf, swapHeaderSize⟩].Pairwise
      Span.Apart
    rw [hregion]
    simp [Span.Apart]
  · intro x hx
    rw [mem_singleton.mp hx]
    show (region layout m (buf + swapHeaderSize)).Within
      ⟨buf, swapHeaderSize + (bufSize - swapHeaderSize)⟩
    rw [hregion]
    simp only [Span.Within, stop_mk]
    omega
  all_goals
    intro e he
    exact absurd he not_mem_nil

/-- In every run of the callers on a device below 2 GiB whose steps are all
allowed, every call returns and the device is safe. -/
theorem integrity {mem : ByteMem} {buf bufSize : ℕ} {d : SwapDev} (hsmall : bufSize < 2 ^ 31)
    (htop : buf + bufSize < 2 ^ 64) (hd : initializeInitialSwapDevice mem buf bufSize = .ok d)
    {ops : List Op} (hops : Run.Meets Allowed step (start d) ops) :
    ∃ s, ops.foldlM step (start d) = some s ∧ Safe s := by
  obtain ⟨s, hs, ns, hI⟩ := Run.invariant (I := fun s => ∃ ns, Inv s ns)
    (fun s op h hok => inv_step op h hok) ⟨_, (inv_start hsmall htop hd).1⟩ hops
  exact ⟨s, hs, hI.safe⟩

/-- A page is reserved, written, read and freed, and reserved again. -/
theorem integrity_reuse :
    ∃ s, [Op.resv (fun _ => 0) 1, .find ⟨true, 3141584, 0x5000, 1, 0⟩,
        .copy (fun _ => 7) ⟨true, 3141584, 0x5000, 1, 0⟩, .find ⟨false, 3141584, 0x6000, 1, 0⟩,
        .copy (fun _ => 0) ⟨false, 3141584, 0x6000, 1, 0⟩, .free (fun _ => 0) 3141584 1,
        .resv (fun _ => 0) 1].foldlM step (start (freshDevice (fun _ => 0) 0x100000 2097216)) =
      some s ∧ Safe s :=
  @integrity (fun _ => 0) 0x100000 2097216 _ (by norm_num) (by norm_num)
    (if_neg (by decide)) _ (by decide +kernel)

/-- On a device of 2097336 bytes the first reservation of 512 pages leaves its
node 8 bytes, and so lies in the header of that node, which stays in the free list. -/
theorem not_safe_of_short_remainder :
    initializeInitialSwapDevice (fun _ => 0) 0x100000 2097336 =
      .ok (freshDevice (fun _ => 0) 0x100000 2097336) ∧
    ∃ s, [Op.resv (fun _ => 0) 512].foldlM step
      (start (freshDevice (fun _ => 0) 0x100000 2097336)) = some s ∧ ¬ Safe s := by
  have hrun : ([Op.resv (fun _ => 0) 512].foldlM step
      (start (freshDevice (fun _ => 0) 0x100000 2097336))).map
        (fun s => (s.live, s.dev.hdr.freeList.head)) = some ([(0x100048, 512)], 0x100040) := by
    decide +kernel
  obtain ⟨s, hs, hsees⟩ := Option.map_eq_some_iff.mp hrun
  obtain ⟨hlive, hhead⟩ := Prod.ext_iff.mp hsees
  refine ⟨if_neg (by decide), s, hs, fun hsafe => ?_⟩
  have hreach : DLinked.Reach (FreeList.next s.dev.mem) 0 s.dev.hdr.freeList.head 0x100040 := by
    rw [show s.dev.hdr.freeList.head = 0x100040 from hhead]
    exact .here (by decide)
  have hapart := hsafe.nodes (0x100048, 512) (by rw [show s.live = _ from hlive]; simp) _ hreach
  revert hapart
  decide

end Obos.Swap
