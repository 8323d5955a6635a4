/-
The dirty regions of a page cache (`vfs/pagecache.c`).

A page cache keeps an unordered list of byte ranges that were written and not
flushed yet.  `pcDirtyRegionCreate` makes sure that a range is on the list: it
reuses a region that contains the offset, extends one that ends at it, or
appends a new one.

The reuse test compares `fileoff + sz` with the end of the region and leaves
out how far into the region the request starts.

* `covered_mono_create` — what was covered stays covered,
* `create_covers_iff` — exactly when the requested range is covered.
-/
import Obos.Machine
import Obos.Lib.Span

namespace Obos.Vfs

/-- `pagecache_dirty_region`. -/
structure DirtyRegion where
  fileoff : ℕ
  sz : ℕ
  deriving DecidableEq, Repr

/-- The part of `pagecache` that the dirty list functions use. -/
structure PageCache where
  dirtyRegions : List DirtyRegion
  deriving DecidableEq, Repr

namespace DirtyRegion

def span (r : DirtyRegion) : Span := ⟨r.fileoff, r.sz⟩

/-- The test of `VfsH_PCDirtyRegionLookup`. -/
def containsOff (off : ℕ) (r : DirtyRegion) : Bool :=
  decide (r.fileoff ≤ off) && decide (off < u64 (r.fileoff + r.sz))

/-- The test of `find_contiguous_region`. -/
def endsAt (off : ℕ) (r : DirtyRegion) : Bool := off == u64 (r.fileoff + r.sz)

end DirtyRegion

section

variable (pc : PageCache)

/-- A region pointer is the position of the region on the list. -/
abbrev RegionPtr := Fin pc.dirtyRegions.length

/-- `VfsH_PCDirtyRegionLookup`. -/
def pcDirtyRegionLookup (off : ℕ) : Option (RegionPtr pc) :=
  pc.dirtyRegions.findFinIdx? (DirtyRegion.containsOff off)

/-- `find_contiguous_region`. -/
def findContiguousRegion (off : ℕ) : Option (RegionPtr pc) :=
  pc.dirtyRegions.findFinIdx? (DirtyRegion.endsAt off)

/-- `(dirty->fileoff + sz) <= (dirty->fileoff + dirty->sz)`. -/
def hasSpace (r : DirtyRegion) (sz : ℕ) : Bool :=
  decide (u64 (r.fileoff + sz) ≤ u64 (r.fileoff + r.sz))

/-- The two ways to make room when no region is reused. -/
def extendOrAppend (off sz : ℕ) : PageCache × ℕ :=
  match findContiguousRegion pc off with
  | some i =>
    let r := pc.dirtyRegions.get i
    (⟨pc.dirtyRegions.set i { r with sz := u64 (r.sz + sz) }⟩, i)
  | none => (⟨pc.dirtyRegions ++ [⟨off, sz⟩]⟩, pc.dirtyRegions.length)

/-- `VfsH_PCDirtyRegionCreate`: the new list and the position of the region
that is returned. -/
def pcDirtyRegionCreate (off sz : ℕ) : PageCache × ℕ :=
  match pcDirtyRegionLookup pc off with
  | some i =>
    if hasSpace (pc.dirtyRegions.get i) sz then (pc, i) else extendOrAppend pc off sz
  | none => extendOrAppend pc off sz

/-- Some region has the byte `x`. -/
def Covered (x : ℕ) : Prop := ∃ r ∈ pc.dirtyRegions, r.span.Has x

/-- No region reaches past the end of the offsets. -/
def NoWrap : Prop := ∀ r ∈ pc.dirtyRegions, r.fileoff + r.sz < 2 ^ 64

end

variable {pc : PageCache} {off sz x : ℕ}

/-! ### Making room -/

section

variable (hw : NoWrap pc)
include hw

theorem findContiguousRegion_some {i : RegionPtr pc}
    (h : findContiguousRegion pc off = some i) :
    (pc.dirtyRegions.get i).fileoff + (pc.dirtyRegions.get i).sz = off := by
  have hend : DirtyRegion.endsAt off (pc.dirtyRegions.get i) = true :=
    (List.findFinIdx?_eq_some_iff.mp h).1
  rw [DirtyRegion.endsAt, beq_iff_eq, u64_of_lt (hw _ (List.get_mem _ i))] at hend
  exact hend.symm

/-- The region that ends at `off` grows by the request and by nothing else. -/
theorem covered_set_iff (hoff : off + sz < 2 ^ 64) {i : RegionPtr pc}
    (h : findContiguousRegion pc off = some i) (x : ℕ) :
    Covered (extendOrAppend pc off sz).1 x ↔ Covered pc x ∨ (Span.mk off sz).Has x := by
  have hend := findContiguousRegion_some hw h
  have hsz : u64 ((pc.dirtyRegions.get i).sz + sz) = (pc.dirtyRegions.get i).sz + sz := by
    refine u64_of_lt ?_
    omega
  rw [extendOrAppend, h]
  simp only [hsz]
  constructor
  · rintro ⟨r, hr, hx⟩
    rcases List.mem_or_eq_of_mem_set hr with hr | rfl
    · exact Or.inl ⟨r, hr, hx⟩
    · -- the old part of the grown region or the new part
      obtain ⟨h1, h2⟩ := hx
      simp only [DirtyRegion.span, Span.stop_mk] at h1 h2
      by_cases hxo : x < off
      · refine Or.inl ⟨_, List.get_mem _ i, h1, ?_⟩
        simp only [DirtyRegion.span, Span.stop_mk]
        omega
      · refine Or.inr ⟨?_, ?_⟩
        · simp only
          omega
        · simp only [Span.stop_mk]
          omega
  · intro hx
    obtain ⟨r, hr, hx⟩ | hx := hx
    · obtain ⟨j, hj, rfl⟩ := List.mem_iff_getElem.mp hr
      by_cases hij : (i : ℕ) = j
      · obtain ⟨h1, h2⟩ := hx
        refine ⟨_, List.mem_set i.isLt _, ?_, ?_⟩
        · simpa only [DirtyRegion.span, List.get_eq_getElem, hij] using h1
        · simp only [DirtyRegion.span, Span.stop_mk, List.get_eq_getElem, hij] at h2 ⊢
          omega
      · refine ⟨_, List.mem_iff_getElem.mpr ⟨j, by simpa using hj, ?_⟩, hx⟩
        exact List.getElem_set_ne hij _
    · refine ⟨_, List.mem_set i.isLt _, ?_, ?_⟩
      · have h1 := hx.1
        simp only [DirtyRegion.span] at h1 ⊢
        omega
      · have h2 := hx.2
        simp only [DirtyRegion.span, Span.stop_mk] at h2 ⊢
        omega

/-- Making room adds the requested bytes and no others. -/
theorem covered_extendOrAppend_iff (hoff : off + sz < 2 ^ 64) (x : ℕ) :
    Covered (extendOrAppend pc off sz).1 x ↔ Covered pc x ∨ (Span.mk off sz).Has x := by
  cases h : findContiguousRegion pc off with
  | some i => exact covered_set_iff hw hoff h x
  | none =>
    rw [extendOrAppend, h]
    constructor
    · rintro ⟨r, hr, hx⟩
      obtain hr | hr := List.mem_append.mp hr
      · exact Or.inl ⟨r, hr, hx⟩
      · obtain rfl := List.mem_singleton.mp hr
        exact Or.inr hx
    · intro hx
      obtain ⟨r, hr, hx⟩ | hx := hx
      · exact ⟨r, List.mem_append_left _ hr, hx⟩
      · exact ⟨⟨off, sz⟩, List.mem_append_right _ (List.mem_singleton.mpr rfl), hx⟩

/-! ### Reusing a region -/

theorem pcDirtyRegionLookup_some {i : RegionPtr pc}
    (h : pcDirtyRegionLookup pc off = some i) : (pc.dirtyRegions.get i).span.Has off := by
  have hin : DirtyRegion.containsOff off (pc.dirtyRegions.get i) = true :=
    (List.findFinIdx?_eq_some_iff.mp h).1
  rw [DirtyRegion.containsOff, Bool.and_eq_true, decide_eq_true_eq, decide_eq_true_eq,
    u64_of_lt (hw _ (List.get_mem _ i))] at hin
  exact hin

/-- The reuse test compares the sizes alone. -/
theorem hasSpace_iff (hoff : off + sz < 2 ^ 64) {i : RegionPtr pc}
    (h : pcDirtyRegionLookup pc off = some i) :
    hasSpace (pc.dirtyRegions.get i) sz ↔ sz ≤ (pc.dirtyRegions.get i).sz := by
  have hfile : (pc.dirtyRegions.get i).fileoff ≤ off := (pcDirtyRegionLookup_some hw h).1
  have hreq : (pc.dirtyRegions.get i).fileoff + sz < 2 ^ 64 := by omega
  rw [hasSpace, decide_eq_true_eq, u64_of_lt hreq, u64_of_lt (hw _ (List.get_mem _ i))]
  omega

/-- What was covered before the call is covered after it. -/
theorem covered_mono_create (hoff : off + sz < 2 ^ 64) (h : Covered pc x) :
    Covered (pcDirtyRegionCreate pc off sz).1 x := by
  have hext := (covered_extendOrAppend_iff hw hoff x).mpr (Or.inl h)
  rw [pcDirtyRegionCreate]
  split
  · split
    · exact h
    · exact hext
  · exact hext

/-- A region on the list afterwards was there before, is the request, or is a region
that ended at the offset and has grown by the request. -/
theorem mem_pcDirtyRegionCreate (hoff : off + sz < 2 ^ 64) {r : DirtyRegion}
    (hr : r ∈ (pcDirtyRegionCreate pc off sz).1.dirtyRegions) :
    r ∈ pc.dirtyRegions ∨ r = ⟨off, sz⟩ ∨
      ∃ r0 ∈ pc.dirtyRegions, r0.fileoff + r0.sz = off ∧ r = ⟨r0.fileoff, r0.sz + sz⟩ := by
  have hext : r ∈ (extendOrAppend pc off sz).1.dirtyRegions → r ∈ pc.dirtyRegions ∨
      r = ⟨off, sz⟩ ∨
      ∃ r0 ∈ pc.dirtyRegions, r0.fileoff + r0.sz = off ∧ r = ⟨r0.fileoff, r0.sz + sz⟩ := by
    intro hmem
    cases h : findContiguousRegion pc off with
    | some i =>
      have hend := findContiguousRegion_some hw h
      have hsz : u64 ((pc.dirtyRegions.get i).sz + sz) = (pc.dirtyRegions.get i).sz + sz := by
        refine u64_of_lt ?_
        omega
      rw [extendOrAppend, h] at hmem
      simp only [hsz] at hmem
      rcases List.mem_or_eq_of_mem_set hmem with hold | rfl
      · exact .inl hold
      · exact .inr (.inr ⟨_, List.get_mem _ i, hend, rfl⟩)
    | none =>
      rw [extendOrAppend, h] at hmem
      rcases List.mem_append.mp hmem with hold | hnew
      · exact .inl hold
      · exact .inr (.inl (List.mem_singleton.mp hnew))
  rw [pcDirtyRegionCreate] at hr
  split at hr
  · split at hr
    · exact .inl hr
    · exact hext hr
  · exact hext hr

end

/-- The requested range and all that was covered before is covered after the
call exactly when the first region that contains the offset, if there is one,
is shorter than the request, or the range was covered to begin with. -/
theorem create_covers_iff (pc : PageCache) (off sz : ℕ) (hw : NoWrap pc)
    (hoff : off + sz < 2 ^ 64) :
    ((∀ x, (Span.mk off sz).Has x → Covered (pcDirtyRegionCreate pc off sz).1 x) ∧
      ∀ x, Covered pc x → Covered (pcDirtyRegionCreate pc off sz).1 x) ↔
    ∀ i, pcDirtyRegionLookup pc off = some i →
      (pc.dirtyRegions.get i).sz < sz ∨ ∀ x, (Span.mk off sz).Has x → Covered pc x := by
  have hkeep : ∀ x, Covered pc x → Covered (pcDirtyRegionCreate pc off sz).1 x :=
    fun x hx => covered_mono_create hw hoff hx
  have hnew : ∀ x, (Span.mk off sz).Has x → Covered (extendOrAppend pc off sz).1 x :=
    fun x hx => (covered_extendOrAppend_iff hw hoff x).mpr (Or.inr hx)
  constructor
  · intro ⟨hcov, _⟩ i hi
    by_cases hsz : (pc.dirtyRegions.get i).sz < sz
    · exact Or.inl hsz
    · -- the region is reused, so the list is what it was
      have hspace := (hasSpace_iff hw hoff hi).mpr (not_lt.mp hsz)
      rw [pcDirtyRegionCreate, hi] at hcov
      simp only [hspace, if_true] at hcov
      exact Or.inr hcov
  · intro hcond
    refine ⟨fun x hx => ?_, hkeep⟩
    cases hi : pcDirtyRegionLookup pc off with
    | none =>
      rw [pcDirtyRegionCreate, hi]
      exact hnew x hx
    | some i =>
      obtain hsz | hcov := hcond i hi
      · have hspace : ¬ hasSpace (pc.dirtyRegions.get i) sz = true := fun hs =>
          absurd ((hasSpace_iff hw hoff hi).mp hs) (not_le.mpr hsz)
        rw [pcDirtyRegionCreate, hi]
        simp only [if_neg hspace]
        exact hnew x hx
      · exact hkeep x (hcov x hx)

/-- A request of four bytes next to a region of two. -/
theorem create_covers_shorter :
    (∀ x, (Span.mk 1 4).Has x → Covered (pcDirtyRegionCreate ⟨[⟨0, 2⟩]⟩ 1 4).1 x) ∧
      ∀ x, Covered ⟨[⟨0, 2⟩]⟩ x → Covered (pcDirtyRegionCreate ⟨[⟨0, 2⟩]⟩ 1 4).1 x := by
  refine (create_covers_iff ⟨[⟨0, 2⟩]⟩ 1 4 (by simp [NoWrap]) (by decide)).mpr ?_
  intro i _
  have hi : i = 0 := Fin.eq_zero i
  exact Or.inl (by rw [hi]; decide)

/-- Four bytes from offset 2 are taken to fit the region `[0, 4)`: byte 4 is
not covered. -/
theorem not_covered_create :
    ¬ ∀ x, (Span.mk 2 4).Has x → Covered (pcDirtyRegionCreate ⟨[⟨0, 4⟩]⟩ 2 4).1 x := by
  intro h
  obtain ⟨r, hr, hx⟩ := h 4 (by decide)
  have hlist : (pcDirtyRegionCreate ⟨[⟨0, 4⟩]⟩ 2 4).1.dirtyRegions = [⟨0, 4⟩] := by decide
  rw [hlist, List.mem_singleton] at hr
  subst hr
  exact absurd hx (by decide)

end Obos.Vfs
