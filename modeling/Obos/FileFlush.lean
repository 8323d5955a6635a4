/-
Flushing the page cache.

`VfsH_PageCacheFlush` writes every dirty region back in whole blocks: it rounds the
offset of a region and its size down.  The offsets of descriptors are multiples of
the block size, since a seek takes no others, but the length of a write may be
anything, and a write into a dirty region may not become dirty at all.

Under the invariant `Flushable` the dirty regions are whole blocks and cover exactly
what was written; then the flush is exact:

* `flush_durable` — every run whose transfers stay in the area, on pages that the scan
  does not miss, and whose writes are whole blocks, where one that starts in a dirty
  region is longer than it or ends in it, returns, and a flush then brings the bytes
  that were written since the last one to the device and leaves the others,
* `short_write_not_flushed` — a write of one byte that never gets there.
-/
import Obos.FileIo

namespace Obos.Vfs

open Function

/-! ### Dirty regions -/

/-- A write of `n` bytes at `off` that starts in a dirty region is longer than it, or
ends in it. -/
def staysDirty (pc : PageCache) (off n : ℕ) : Bool :=
  match pcDirtyRegionLookup pc off with
  | none => true
  | some i =>
    decide ((pc.dirtyRegions.get i).sz < n) ||
      decide (off + n ≤ (pc.dirtyRegions.get i).fileoff + (pc.dirtyRegions.get i).sz)

/-- Then the range becomes dirty, and nothing else does. -/
theorem covered_create_iff {pc : PageCache} {off n : ℕ} (hw : NoWrap pc) (hoff : off + n < 2 ^ 64)
    (hstays : staysDirty pc off n = true) (x : ℕ) :
    Covered (pcDirtyRegionCreate pc off n).1 x ↔ Covered pc x ∨ (Span.mk off n).Has x := by
  rw [pcDirtyRegionCreate]
  rw [staysDirty] at hstays
  split at hstays
  · rename_i hlook
    rw [hlook]
    exact covered_extendOrAppend_iff hw hoff x
  · rename_i i hlook
    rw [hlook]
    dsimp only
    split
    · -- the region is reused, so it contains the range
      rename_i hspace
      have hle := (hasSpace_iff hw hoff hlook).mp hspace
      rw [Bool.or_eq_true, decide_eq_true_eq, decide_eq_true_eq] at hstays
      have hend := hstays.resolve_left (Nat.not_lt.mpr hle)
      refine ⟨.inl, fun hx => hx.elim id fun hin => ⟨_, List.get_mem _ i, ?_, ?_⟩⟩
      · exact (pcDirtyRegionLookup_some hw hlook).1.trans hin.1
      · exact lt_of_lt_of_le hin.2 hend
    · exact covered_extendOrAppend_iff hw hoff x

/-! ### What a flush writes -/

/-- The device after the regions were written back: each byte of a region comes from
the cache, whatever the order. -/
theorem foldl_flushRegion {D : Type*} (s : State D) (a : CacheData) (base : ℕ)
    (regions : List DirtyRegion)
    (hexact : ∀ r ∈ regions, (flushCall s r).block * s.blkSize = base + r.fileoff ∧
      (flushCall s r).count * s.blkSize = r.sz) (device : ByteMem) (y : ℕ) :
    ((∃ r ∈ regions, (Span.mk (base + r.fileoff) r.sz).Has y) →
        regions.foldl (flushRegion s a) device y = a.bytes (y - base)) ∧
      ((¬ ∃ r ∈ regions, (Span.mk (base + r.fileoff) r.sz).Has y) →
        regions.foldl (flushRegion s a) device y = device y) := by
  induction regions generalizing device with
  | nil => exact ⟨fun ⟨r, hr, _⟩ => (by cases hr), fun _ => rfl⟩
  | cons r rs ih =>
    obtain ⟨hblock, hcount⟩ := hexact r List.mem_cons_self
    obtain ⟨hin, hout⟩ := ih (fun r' hr' => hexact r' (List.mem_cons_of_mem _ hr'))
      (flushRegion s a device r)
    have hfirst : flushRegion s a device r =
        device.transfer (base + r.fileoff) a.bytes r.fileoff r.sz := by
      rw [flushRegion, hblock, hcount]
    rw [List.foldl_cons]
    -- a later region may write the byte again, with the same value
    by_cases hlater : ∃ r' ∈ rs, (Span.mk (base + r'.fileoff) r'.sz).Has y
    · refine ⟨fun _ => hin hlater, fun hno => ?_⟩
      obtain ⟨r', hr', hy⟩ := hlater
      exact absurd ⟨r', List.mem_cons_of_mem _ hr', hy⟩ hno
    · rw [hout hlater, hfirst]
      constructor
      · rintro ⟨r', hr', hy⟩
        rcases List.mem_cons.mp hr' with rfl | hmem
        · rw [ByteMem.transfer_of_has hy]
          have hle : base + r'.fileoff ≤ y := hy.1
          congr 1
          omega
        · exact absurd ⟨r', hmem, hy⟩ hlater
      · intro hno
        exact ByteMem.transfer_of_not_has fun hy => hno ⟨r, List.mem_cons_self, hy⟩

/-! ### The invariant -/

variable {D : Type*}

/-- The descriptors are cached and stand at whole blocks, the dirty regions are whole
blocks of the area, and they cover what was written. -/
structure Flushable (blk base limit : ℕ) (s : State D) : Prop where
  driver : s.vn.hasDriver = true
  blkSize : s.blkSize = blk
  baseOffset : s.vn.baseOffset = base
  cached : ∀ d, (s.fd d).uncached = false
  aligned : ∀ d, blk ∣ (s.fd d).offset
  area : AreaOk s limit
  clean : s.vn.data = none → s.vn.pagecache.dirtyRegions = []
  regions : ∀ r ∈ s.vn.pagecache.dirtyRegions,
    blk ∣ r.fileoff ∧ blk ∣ r.sz ∧ r.fileoff + r.sz ≤ limit
  written : ∀ x, (∃ w ∈ s.written, w.Has x) ↔ Covered s.vn.pagecache x

/-- A transfer of `n` bytes stays in the area, on pages that the scan does not miss. -/
def inArea (s : State D) (offset n : ℕ) : Bool :=
  decide (n = 0) || (decide (offset + n ≤ areaSize s) && reachable s offset n)

/-- What an operation must be like: a transfer in the area, and a write of whole blocks
that are dirty afterwards. -/
def durable (s : State D) : Op D → Bool
  | .read d n _ => inArea s (s.fd d).offset (truncated s.vn (s.fd d).offset n)
  | .write d buf _ => inArea s (s.fd d).offset buf.length &&
    (decide (buf.length % s.blkSize = 0) &&
      staysDirty s.vn.pagecache (s.fd d).offset buf.length)
  | _ => true

section Steps

variable {blk base limit : ℕ} {s s' : State D}

theorem roundDown_dvd (x blk : ℕ) : blk ∣ roundDown x blk := Nat.dvd_sub_mod x

/-- Where a seek goes is a multiple of the block size. -/
theorem finalOff_dvd {off offset : ℕ} {whence : Whence} (h : off % s.blkSize = 0) :
    s.blkSize ∣ finalOff s offset off whence := by
  cases whence with
  | set => exact Nat.dvd_of_mod_eq_zero h
  | ending => exact roundDown_dvd _ _
  | cur => exact roundDown_dvd _ _

theorem Flushable.getEntry (h : Flushable blk base limit s) {offset n : ℕ}
    (hs : pageCacheGetEntry s offset n = some s') : Flushable blk base limit s' := by
  have harea := h.area.getEntry hs
  obtain ⟨-, ⟨-, -, rfl⟩ | ⟨a, -, -, rfl⟩⟩ := pageCacheGetEntry_cases hs
  · exact h
  · exact ⟨h.driver, h.blkSize, h.baseOffset, h.cached, h.aligned, harea, nofun, h.regions,
      h.written⟩

variable [DecidableEq D] {d : D}

section

variable (h : Flushable blk base limit s)
include h

theorem Flushable.setOffset {off : ℕ} (hoff : blk ∣ off) :
    Flushable blk base limit (s.setOffset d off) where
  driver := h.driver
  blkSize := h.blkSize
  baseOffset := h.baseOffset
  cached := forall_setOffset (fun _ x => x.uncached = false) (h.cached d) h.cached
  aligned := forall_setOffset (fun _ x => blk ∣ x.offset) hoff h.aligned
  area := ⟨h.area.data, h.area.fresh⟩
  clean := h.clean
  regions := h.regions
  written := h.written

theorem Flushable.seek (o : ℤ) (whence : Whence) :
    ∃ r, fdSeek s d o whence = some r ∧ Flushable blk base limit r.1 := by
  obtain ⟨⟨s', st⟩, hs⟩ := fdSeek_returns h.driver d o whence
  refine ⟨_, hs, ?_⟩
  rcases fdSeek_cases hs with rfl | ⟨hmod, -, rfl⟩
  · exact h
  · exact h.setOffset (h.blkSize ▸ finalOff_dvd hmod)

theorem Flushable.advance (n : ℕ) : ∃ s', advance s d n = some s' ∧ Flushable blk base limit s' := by
  obtain ⟨r, hr, hf⟩ := h.seek (d := d) n .cur
  exact ⟨r.1, by rw [Vfs.advance, hr, Option.map_some], hf⟩

omit [DecidableEq D] in
theorem Flushable.cachedRead {n : ℕ} (hin : inArea s (s.fd d).offset n = true) :
    ∃ x, doCachedRead s d n = some x ∧ Flushable blk base limit x.1 ∧ x.2.status = .success := by
  obtain ⟨s1, bs, hs1, hbs⟩ : ∃ s1 bs, pageCacheGetEntry s (s.fd d).offset n = some s1 ∧
      cacheRead s1 (s.fd d).offset n = some bs := by
    by_cases hn : n = 0
    · have hscan : scanned (s.fd d).offset n = [] := by
        rw [hn]
        rfl
      cases hd : cacheData s with
      | none => exact ⟨s, [], by simp [pageCacheGetEntry, h.driver, hd, hscan], if_pos hn⟩
      | some a =>
        exact ⟨_, [], by simp [pageCacheGetEntry, h.driver, hd, hscan]; rfl, if_pos hn⟩
    · rw [inArea, decide_eq_false hn, Bool.false_or, Bool.and_eq_true, decide_eq_true_eq] at hin
      obtain ⟨s1, a, hs1, ha, hall⟩ := pageCacheGetEntry_returns h.driver hn hin.1 hin.2
      exact ⟨s1, _, hs1, by rw [cacheRead, if_neg hn, ha]; exact if_pos hall⟩
  exact ⟨(s1, ⟨.success, bs⟩), by rw [doCachedRead, hs1]; simp only [hbs, Option.map_some],
    h.getEntry hs1, rfl⟩

theorem Flushable.read {n : ℕ} (ok : Bool)
    (hin : inArea s (s.fd d).offset (truncated s.vn (s.fd d).offset n) = true) :
    ∃ r, fdRead s d n ok = some r ∧ Flushable blk base limit r.1 := by
  obtain ⟨x, hx, hf, hst⟩ := h.cachedRead hin
  obtain ⟨s', hs', hf'⟩ := hf.advance (d := d) (truncated s.vn (s.fd d).offset n)
  have hdo : (doRead s d (truncated s.vn (s.fd d).offset n) ok).bind
      (finishRead d (truncated s.vn (s.fd d).offset n)) = some (s', x.2) := by
    rw [doRead, h.cached d, if_neg Bool.false_ne_true, hx, Option.bind_some, finishRead,
      if_pos hst, hs', Option.map_some]
  rw [fdRead, hdo]
  split_ifs
  · exact ⟨_, rfl, h⟩
  · exact ⟨_, rfl, h⟩
  · exact ⟨_, rfl, h⟩
  · exact ⟨_, rfl, h⟩
  · exact ⟨_, rfl, hf'⟩

end

omit [DecidableEq D] in
/-- The regions after a write of whole blocks. -/
theorem Flushable.regions_create (h : Flushable blk base limit s) {n : ℕ} (hblk : blk ∣ n)
    (hwrap : NoWrap s.vn.pagecache) (hoff : (s.fd d).offset + n < 2 ^ 64)
    (hend : (s.fd d).offset + n ≤ limit) :
    ∀ r ∈ (pcDirtyRegionCreate s.vn.pagecache (s.fd d).offset n).1.dirtyRegions,
      blk ∣ r.fileoff ∧ blk ∣ r.sz ∧ r.fileoff + r.sz ≤ limit := by
  intro r hr
  rcases mem_pcDirtyRegionCreate hwrap hoff hr with hold | rfl | ⟨r0, hr0, he, rfl⟩
  · exact h.regions r hold
  · exact ⟨h.aligned d, hblk, hend⟩
  · obtain ⟨h1, h2, -⟩ := h.regions r0 hr0
    refine ⟨h1, Nat.dvd_add h2 hblk, ?_⟩
    show r0.fileoff + (r0.sz + n) ≤ limit
    omega

omit [DecidableEq D] in
/-- A cached write of whole blocks. -/
theorem Flushable.cachedWrite (h : Flushable blk base limit s) (hlimit : limit < 2 ^ 64)
    {buf : List UInt8} (hn : buf.length ≠ 0) (hin : inArea s (s.fd d).offset buf.length = true)
    (hblk : blk ∣ buf.length)
    (hstays : staysDirty s.vn.pagecache (s.fd d).offset buf.length = true) :
    ∃ x, doCachedWrite s d buf = some x ∧ x.2.status = .success ∧
      ∀ filesize, Flushable blk base limit (x.1.setFilesize filesize) := by
  rw [inArea, decide_eq_false hn, Bool.false_or, Bool.and_eq_true, decide_eq_true_eq] at hin
  obtain ⟨s1, a, hentry, ha, htouched⟩ :=
    pageCacheGetEntry_returns (s := markDirty s (s.fd d).offset buf.length) h.driver hn hin.1 hin.2
  have hwrite : cacheWrite s1 (s.fd d).offset buf =
      some (s1.setData { a with bytes := a.bytes.write (s.fd d).offset buf }) := by
    rw [cacheWrite, ha]
    exact if_pos htouched
  refine ⟨_, by rw [doCachedWrite, hentry]; simp only [hwrite, Option.map_some]; rfl, rfl,
    fun filesize => ?_⟩
  have harea : AreaOk (markDirty s (s.fd d).offset buf.length) limit :=
    ⟨h.area.data, h.area.fresh⟩
  obtain ⟨hvn, hfd, hsize, -, hwritten⟩ := pageCacheGetEntry_frame hentry
  obtain ⟨hpop, hlim⟩ := (harea.getEntry hentry).data a ha
  have hend : (s.fd d).offset + buf.length ≤ limit :=
    (end_le_of_touched hn htouched hpop).trans hlim
  have hwrap : NoWrap s.vn.pagecache := fun r hr =>
    lt_of_le_of_lt (h.regions r hr).2.2 hlimit
  have hoff : (s.fd d).offset + buf.length < 2 ^ 64 := lt_of_le_of_lt hend hlimit
  have hdirty : s1.vn.pagecache =
      (pcDirtyRegionCreate s.vn.pagecache (s.fd d).offset buf.length).1 := by
    rw [hvn]
    rfl
  refine ⟨?_, hsize.trans h.blkSize, ?_, fun d' => ?_, fun d' => ?_, ⟨fun a' ha' => ?_, fun hd => ?_⟩,
    fun hd => ?_, ?_, fun y => ?_⟩
  · show s1.vn.hasDriver = true
    rw [hvn]
    exact h.driver
  · show s1.vn.baseOffset = base
    rw [hvn]
    exact h.baseOffset
  · show (s1.fd d').uncached = false
    rw [hfd]
    exact h.cached d'
  · show blk ∣ (s1.fd d').offset
    rw [hfd]
    exact h.aligned d'
  · cases ha'
    exact ⟨hpop, hlim⟩
  · cases hd
  · cases hd
  · show ∀ r ∈ s1.vn.pagecache.dirtyRegions, _
    rw [hdirty]
    exact h.regions_create hblk hwrap hoff hend
  · show (∃ w ∈ ⟨(s.fd d).offset, buf.length⟩ :: s1.written, w.Has y) ↔
      Covered s1.vn.pagecache y
    rw [hdirty, covered_create_iff hwrap hoff hstays, ← h.written y, hwritten]
    simp only [List.mem_cons, exists_eq_or_imp]
    exact or_comm

theorem Flushable.write (h : Flushable blk base limit s) (hlimit : limit < 2 ^ 64)
    {buf : List UInt8} (ok : Bool) (hdur : durable s (.write d buf ok) = true) :
    ∃ r, fdWrite s d buf ok = some r ∧ Flushable blk base limit r.1 := by
  rw [durable, Bool.and_eq_true, Bool.and_eq_true, decide_eq_true_eq, h.blkSize] at hdur
  obtain ⟨hin, hmod, hstays⟩ := hdur
  by_cases hn : buf.length = 0
  · rw [fdWrite, if_pos hn]
    split_ifs
    · exact ⟨_, rfl, h⟩
    · exact ⟨_, rfl, h⟩
  obtain ⟨x, hx, hst, hf⟩ := h.cachedWrite hlimit hn hin (Nat.dvd_of_mod_eq_zero hmod) hstays
  obtain ⟨s', hs', hf'⟩ := (hf _).advance (d := d) buf.length
  have hdo : (doWrite s d buf ok).bind (finishWrite d buf.length) = some (s', x.2) := by
    rw [doWrite, h.cached d, if_neg Bool.false_ne_true, hx, Option.bind_some, finishWrite,
      if_pos hst, hs', Option.map_some]
  rw [fdWrite, hdo, if_neg hn]
  split_ifs
  · exact ⟨_, rfl, h⟩
  · exact ⟨_, rfl, h⟩
  · exact ⟨_, rfl, h⟩
  · exact ⟨_, rfl, hf'⟩

end Steps

/-! ### Flushing -/

section Flush

variable {blk base limit : ℕ} {s s' : State D}

/-- A region of whole blocks is written back where it lies, and as a whole. -/
theorem Flushable.flushCall (h : Flushable blk base limit s) (hbase : blk ∣ base)
    (hlimit : base + limit < 2 ^ 64) :
    ∀ r ∈ s.vn.pagecache.dirtyRegions, (flushCall s r).block * s.blkSize = base + r.fileoff ∧
      (flushCall s r).count * s.blkSize = r.sz := by
  intro r hr
  obtain ⟨h1, h2, h3⟩ := h.regions r hr
  rw [Vfs.flushCall, h.baseOffset, h.blkSize, u64_of_lt (by omega), Nat.add_comm r.fileoff base]
  exact ⟨Nat.div_mul_cancel (Nat.dvd_add hbase h1), Nat.div_mul_cancel h2⟩

theorem Flushable.flush_spec (h : Flushable blk base limit s) (hbase : blk ∣ base)
    (hlimit : base + limit < 2 ^ 64) :
    ∃ s', pageCacheFlush s = some s' ∧ Flushable blk base limit s' ∧
      (∀ x, (∃ w ∈ s.written, w.Has x) →
        ∃ a, s.vn.data = some a ∧ s'.device (base + x) = a.bytes x) ∧
      ∀ y, (∀ x, (∃ w ∈ s.written, w.Has x) → y ≠ base + x) → s'.device y = s.device y := by
  have hclean : ∀ x, (∃ w ∈ ([] : List Span), w.Has x) ↔ Covered ⟨[]⟩ x :=
    fun x => ⟨fun ⟨w, hw, _⟩ => (by cases hw), fun ⟨r, hr, _⟩ => (by cases hr)⟩
  rw [pageCacheFlush, h.driver, Bool.not_true, if_neg Bool.false_ne_true]
  cases hdirty : s.vn.pagecache.dirtyRegions with
  | nil =>
    -- nothing was written
    have hempty : s.vn.pagecache = ⟨[]⟩ := by rw [← hdirty]
    have hnone : ∀ x, ¬ ∃ w ∈ s.written, w.Has x := by
      intro x hx
      obtain ⟨r, hr, -⟩ := (h.written x).mp hx
      rw [hdirty] at hr
      cases hr
    refine ⟨s.setWritten [], rfl, ?_, fun x hx => absurd hx (hnone x), fun y _ => rfl⟩
    refine ⟨h.driver, h.blkSize, h.baseOffset, h.cached, h.aligned, ⟨h.area.data, h.area.fresh⟩,
      h.clean, h.regions, fun x => ?_⟩
    show (∃ w ∈ ([] : List Span), w.Has x) ↔ Covered s.vn.pagecache x
    rw [hempty]
    exact hclean x
  | cons r rs =>
    cases hdata : s.vn.data with
    | none =>
      rw [h.clean hdata] at hdirty
      cases hdirty
    | some a =>
      have hexact := h.flushCall hbase hlimit
      rw [hdirty] at hexact
      have hdevice := foldl_flushRegion s a base (r :: rs) hexact s.device
      refine ⟨_, rfl, ?_, fun x hx => ?_, fun y hy => ?_⟩
      · exact ⟨h.driver, h.blkSize, h.baseOffset, h.cached, h.aligned,
          ⟨h.area.data, h.area.fresh⟩, fun _ => rfl, nofun, hclean⟩
      · obtain ⟨r', hr', h1, h2⟩ := (h.written x).mp hx
        rw [hdirty] at hr'
        refine ⟨a, rfl, ?_⟩
        have hin : (Span.mk (base + r'.fileoff) r'.sz).Has (base + x) := by
          simp only [DirtyRegion.span, Span.stop_mk] at h1 h2
          exact ⟨Nat.add_le_add_left h1 base, by rw [Span.stop_mk]; omega⟩
        exact ((hdevice (base + x)).1 ⟨r', hr', hin⟩).trans (by rw [Nat.add_sub_cancel_left])
      · refine (hdevice y).2 ?_
        rintro ⟨r', hr', h1, h2⟩
        simp only [Span.stop_mk] at h1 h2
        refine hy (y - base) ((h.written _).mpr ⟨r', hdirty ▸ hr', ?_, ?_⟩) ?_
        · show r'.fileoff ≤ y - base
          omega
        · show y - base < r'.fileoff + r'.sz
          omega
        · omega

variable [DecidableEq D]

theorem Flushable.step {op : Op D} (h : Flushable blk base limit s) (hbase : blk ∣ base)
    (hlimit : base + limit < 2 ^ 64) (hdur : durable s op = true) :
    ∃ s', step s op = some s' ∧ Flushable blk base limit s' := by
  cases op with
  | read d n ok =>
    obtain ⟨r, hr, hf⟩ := h.read ok hdur
    exact ⟨r.1, Option.map_eq_some_iff.mpr ⟨r, hr, rfl⟩, hf⟩
  | write d buf ok =>
    obtain ⟨r, hr, hf⟩ := h.write (by omega) ok hdur
    exact ⟨r.1, Option.map_eq_some_iff.mpr ⟨r, hr, rfl⟩, hf⟩
  | seek d o whence =>
    obtain ⟨r, hr, hf⟩ := h.seek o whence
    exact ⟨r.1, Option.map_eq_some_iff.mpr ⟨r, hr, rfl⟩, hf⟩
  | flush =>
    obtain ⟨s1, hs1, h1, -⟩ := h.flush_spec hbase hlimit
    exact ⟨s1, hs1, h1⟩

/-- A file that has just been flushed, or not been used yet: cached descriptors at
whole blocks, and an area that ends before the end of the offsets. -/
structure Clean (limit : ℕ) (s : State D) : Prop where
  driver : s.vn.hasDriver = true
  cached : ∀ d, (s.fd d).uncached = false
  aligned : ∀ d, s.blkSize ∣ (s.fd d).offset
  area : AreaOk s limit
  dirty : s.vn.pagecache.dirtyRegions = []
  written : s.written = []

omit [DecidableEq D] in
theorem Clean.flushable (h : Clean limit s) : Flushable s.blkSize s.vn.baseOffset limit s where
  driver := h.driver
  blkSize := rfl
  baseOffset := rfl
  cached := h.cached
  aligned := h.aligned
  area := h.area
  clean _ := h.dirty
  regions := by
    rw [h.dirty]
    exact nofun
  written x := by
    rw [h.written]
    refine ⟨fun ⟨w, hw, _⟩ => (by cases hw), fun ⟨r, hr, _⟩ => ?_⟩
    rw [h.dirty] at hr
    cases hr

/-- Every run whose transfers stay in the area, on pages that the scan does not miss, and
whose writes are whole blocks, where a write that starts in a dirty region is longer than
the region or ends in it, has a result, and so has a flush then: the bytes written since the
last flush are on the device as they are in the cache, and the other bytes of the device are
what they were. -/
theorem flush_durable {s0 : State D} {ops : List (Op D)} (hclean : Clean limit s0)
    (hbase : s0.blkSize ∣ s0.vn.baseOffset) (hlimit : s0.vn.baseOffset + limit < 2 ^ 64)
    (hok : Run.Meets (fun s op => durable s op = true) Vfs.step s0 ops) :
    ∃ s s', ops.foldlM Vfs.step s0 = some s ∧ pageCacheFlush s = some s' ∧
      (∀ x, (∃ w ∈ s.written, w.Has x) →
        ∃ a, s.vn.data = some a ∧ s'.device (s0.vn.baseOffset + x) = a.bytes x) ∧
      ∀ y, (∀ x, (∃ w ∈ s.written, w.Has x) → y ≠ s0.vn.baseOffset + x) →
        s'.device y = s.device y := by
  obtain ⟨s, hs, h⟩ := Run.invariant (I := Flushable s0.blkSize s0.vn.baseOffset limit)
    (fun _ _ hi hd => hi.step hbase hlimit hd) hclean.flushable hok
  obtain ⟨s', hs', -, hdone, hrest⟩ := h.flush_spec hbase hlimit
  exact ⟨s, s', hs, hs', hdone, hrest⟩

end Flush

/-- A regular file of two pages on blocks of 512 bytes, open through cached
descriptors. -/
def twoPageFile : State ℕ where
  vn := ⟨.reg, none, ⟨true, true, true, true, true, true⟩, 0, 0, 8192, ⟨[]⟩, none⟩
  fd _ := ⟨7, 0⟩
  blkSize := 512
  device _ := 0
  frames _ := 0
  calls := []
  written := []

theorem twoPageFile_clean : Clean 8192 twoPageFile where
  driver := rfl
  cached _ := show (Fd.mk 7 0).uncached = false by decide
  aligned _ := Nat.dvd_zero _
  area := ⟨nofun, fun _ => by decide⟩
  dirty := rfl
  written := rfl

/-- A block is written, and another behind it. -/
def twoBlocks : List (Op ℕ) :=
  [.write 0 (List.replicate 512 1) true, .write 0 (List.replicate 512 2) true]

theorem flush_durable_twoBlocks :
    ∃ s s', twoBlocks.foldlM step twoPageFile = some s ∧ pageCacheFlush s = some s' ∧
      s.written = [⟨512, 512⟩, ⟨0, 512⟩] ∧
      (∀ x, (∃ w ∈ s.written, w.Has x) →
        ∃ a, s.vn.data = some a ∧ s'.device (0 + x) = a.bytes x) ∧
      ∀ y, (∀ x, (∃ w ∈ s.written, w.Has x) → y ≠ 0 + x) → s'.device y = s.device y := by
  have hwritten : (twoBlocks.foldlM step twoPageFile).map State.written =
      some [⟨512, 512⟩, ⟨0, 512⟩] := by decide +kernel
  have hok : Run.Meets (fun s op => durable s op = true) step twoPageFile twoBlocks := by
    decide +kernel
  obtain ⟨s, s', hrun, hs', hdone⟩ := flush_durable twoPageFile_clean (Nat.dvd_zero _) (by decide) hok
  rw [hrun, Option.map_some, Option.some.injEq] at hwritten
  exact ⟨s, s', hrun, hs', hwritten, hdone⟩

/-- One byte is written: the flush writes no block, and the device keeps its byte. -/
theorem short_write_not_flushed :
    Clean 8192 twoPageFile ∧
      (([Op.write 0 [1] true].foldlM step twoPageFile).bind fun s =>
        (pageCacheFlush s).map fun s' =>
          (s.written, s.vn.data.map fun a => a.bytes 0, s'.device 0)) =
      some ([⟨0, 1⟩], some 1, 0) :=
  ⟨twoPageFile_clean, by decide +kernel⟩

end Obos.Vfs
