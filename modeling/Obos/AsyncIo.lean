/-
Asynchronous transfers (`vfs/async.c`).

`Vfs_FdARead` and `Vfs_FdAWrite` ask the driver for `nBytes` blocks from the block
`offset + base_offset` on, where `Vfs_FdRead` and `Vfs_FdWrite` ask for so many bytes.  They go to
the device for a cached descriptor too, and a read is not cut at the end of the file.

Whether the driver is called at once or from a worker thread, the call is the same; the event is
set behind it.

* `fileView` — the bytes of the file, in the page cache or on the device,
* `async_agrees_iff` — exactly when a transfer that both ways accept moves the same bytes, and
  leaves the same file,
* `async_read_misses_dirty` — a cached byte that an asynchronous read does not see.
-/
import Obos.FileArray

namespace Obos.Vfs

open ByteMem (length_slice slice_eq_iff write_of_has write_of_not_has)

variable {D : Type*}

/-- `is_eof` of `vfs/async.c`. -/
def asyncIsEof (vn : Vnode) (off : ℕ) : Bool := decide (vn.filesize ≤ off)

/-- The status, whether the event is set, and the bytes that the driver has moved to or from the
caller's memory, from the first byte of the buffer on. -/
structure AsyncResult where
  status : Status
  event : Bool
  bytes : List UInt8
  deriving DecidableEq, Repr

section

variable [DecidableEq D] (s : State D)

/-- The call of an asynchronous transfer. -/
def asyncCall (d : D) (nBytes : ℕ) : Call :=
  ⟨u64 ((s.fd d).offset + s.vn.baseOffset), nBytes⟩

/-- What `Vfs_FdARead` and `Vfs_FdAWrite` share. -/
def asyncIo (d : D) (allowed : Bool) (nBytes : ℕ)
    (transfer : Call → State D × List UInt8) : Option (State D × AsyncResult) :=
  if !(s.fd d).isOpen then some (s, ⟨.uninitialized, false, []⟩)
  else if nBytes = 0 then some (s, ⟨.success, false, []⟩)
  else if asyncIsEof s.vn (s.fd d).offset then some (s, ⟨.eof, false, []⟩)
  else if !allowed then some (s, ⟨.accessDenied, false, []⟩)
  else if !s.vn.hasDriver then none
  else
    let r := transfer (asyncCall s d nBytes)
    some ((r.1.called [asyncCall s d nBytes]).setOffset d (u64 ((s.fd d).offset + nBytes)),
      ⟨.success, true, r.2⟩)

/-- `Vfs_FdARead` and `async_read`. -/
def fdARead (d : D) (nBytes : ℕ) : Option (State D × AsyncResult) :=
  asyncIo s d (s.fd d).canRead nBytes fun c =>
    (s, s.device.slice (c.block * s.blkSize) (c.count * s.blkSize))

/-- `Vfs_FdAWrite` and `async_write`; `mem` is the caller's memory from the buffer on. -/
def fdAWrite (d : D) (mem : ByteMem) (nBytes : ℕ) : Option (State D × AsyncResult) :=
  asyncIo s d (s.fd d).canWrite nBytes fun c =>
    let bytes := mem.slice 0 (c.count * s.blkSize)
    (s.setDevice (s.device.write (c.block * s.blkSize) bytes), bytes)

/-! ### The bytes of the file -/

/-- The bytes of the file: those of the cache, and of the device where the cache has none. -/
def fileView : ByteMem :=
  match s.vn.data with
  | some a => contents a (fileDevice s)
  | none => fileDevice s

/-- The cached bytes in the range of a transfer are those that `bytes` has. -/
def CachedAre (offset n : ℕ) (bytes : ByteMem) : Prop :=
  ∀ x, offset ≤ x → x < offset + n → ∀ a, s.vn.data = some a →
    a.populated (x / pageSize) = true → a.bytes x = bytes x

/-- A read: blocks are single bytes, a regular file has all of them, and what the page cache has of
them is on the device too. -/
def ReadAgrees (d : D) (nBytes : ℕ) : Prop :=
  s.blkSize = 1 ∧ (s.vn.vtype = .reg → (s.fd d).offset + nBytes ≤ s.vn.filesize) ∧
    ((s.fd d).uncached = false → CachedAre s (s.fd d).offset nBytes (fileDevice s))

/-- A write: blocks are single bytes, and what the page cache has in the range is what is written. -/
def WriteAgrees (d : D) (mem : ByteMem) (nBytes : ℕ) : Prop :=
  s.blkSize = 1 ∧ ((s.fd d).uncached = false →
    CachedAre s (s.fd d).offset nBytes fun x => mem (x - (s.fd d).offset))

end

/-! ### Asynchronous calls -/

section

variable {s s' : State D} {d : D} {n : ℕ}

/-- A call that sets its event has called the driver. -/
theorem asyncIo_cases [DecidableEq D] {allowed : Bool} {transfer : Call → State D × List UInt8} {r : AsyncResult}
    (h : asyncIo s d allowed n transfer = some (s', r)) (hevent : r.event = true) :
    (s.fd d).isOpen = true ∧ n ≠ 0 ∧ (s.fd d).offset < s.vn.filesize ∧ allowed = true ∧
      s.vn.hasDriver = true ∧ r.bytes = (transfer (asyncCall s d n)).2 ∧
      s' = ((transfer (asyncCall s d n)).1.called [asyncCall s d n]).setOffset d
        (u64 ((s.fd d).offset + n)) := by
  rw [asyncIo] at h
  split_ifs at h with h1 h2 h3 h4 h5
  · cases h
    cases hevent
  · cases h
    cases hevent
  · cases h
    cases hevent
  · cases h
    cases hevent
  · cases h
    rw [Bool.not_eq_true', Bool.not_eq_false] at h1 h4 h5
    rw [asyncIsEof, decide_eq_true_eq, Nat.not_le] at h3
    exact ⟨h1, h2, h3, h4, h5, rfl, rfl⟩

theorem contents_eq_fileView {a : CacheData} (ha : cacheData s = some a) :
    contents a (fileDevice s) = fileView s := by
  cases hd : s.vn.data with
  | some a0 =>
    rw [cacheData, hd] at ha
    cases ha
    rw [fileView, hd]
  | none =>
    -- nothing is committed in an area that has just been reserved
    rw [cacheData, hd, Option.none_or, reserve] at ha
    split_ifs at ha
    rw [← Option.some.inj ha, fileView, hd]
    rfl

/-- Filling pages does not change the file. -/
theorem fileView_getEntry {offset : ℕ} (hblk : s.blkSize = 1)
    (hfits : offset + n + s.vn.baseOffset < 2 ^ 64)
    (h : pageCacheGetEntry s offset n = some s') : fileView s' = fileView s := by
  obtain ⟨-, ⟨-, -, rfl⟩ | ⟨a, ha, -, rfl⟩⟩ := pageCacheGetEntry_cases h
  · rfl
  · rw [← contents_eq_fileView ha]
    refine contents_foldl_fill (by rw [hblk]; exact one_dvd _) (by rw [hblk]; exact one_dvd _)
      ((scanned_nodup offset n).filter _) (fun k hk => ?_) fun k hk => ?_
    · have hlt := lt_of_mem_scanned (List.mem_filter.mp hk).1
      omega
    · simpa using (List.mem_filter.mp hk).2

theorem fileView_of_populated {a : CacheData} {x : ℕ} (ha : s.vn.data = some a)
    (hpop : a.populated (x / pageSize) = true) : fileView s x = a.bytes x := by
  rw [fileView, ha]
  exact if_pos hpop

/-- The bytes that a `memcpy` reaches are those of the file. -/
theorem bytes_eq_fileView {a : CacheData} {offset x : ℕ} (ha : s.vn.data = some a)
    (hall : (touched offset n).all a.populated = true) (h1 : offset ≤ x) (h2 : x < offset + n) :
    a.bytes x = fileView s x :=
  (fileView_of_populated ha (List.all_eq_true.mp hall _ (div_mem_touched h1 h2))).symm

theorem fileView_of_not_populated {x : ℕ} (h : ¬ isPopulated s (x / pageSize) = true) :
    fileView s x = fileDevice s x := by
  rw [isPopulated] at h
  rw [fileView]
  cases hd : s.vn.data with
  | none => rfl
  | some a =>
    rw [hd] at h
    exact if_neg h

theorem cachedAre_iff {offset : ℕ} {bytes : ByteMem} :
    CachedAre s offset n bytes ↔ ∀ x, offset ≤ x → x < offset + n →
      isPopulated s (x / pageSize) = true → fileView s x = bytes x := by
  refine forall_congr' fun x => imp_congr_right fun _ => imp_congr_right fun _ => ?_
  cases hd : s.vn.data with
  | none =>
    rw [isPopulated, hd]
    exact iff_of_true (fun _ h => absurd h (by simp)) fun h => absurd h Bool.false_ne_true
  | some a =>
    rw [isPopulated, hd]
    constructor
    · intro h hpop
      exact (fileView_of_populated hd hpop).trans (h a rfl hpop)
    · rintro h a' ha hpop
      cases ha
      exact (fileView_of_populated hd hpop).symm.trans (h hpop)

/-! ### Reads -/

theorem truncated_eq_iff {offset : ℕ} (hoff : offset < s.vn.filesize) (hsize : s.vn.filesize < 2 ^ 64) :
    truncated s.vn offset n = n ↔ (s.vn.vtype = .reg → offset + n ≤ s.vn.filesize) := by
  rw [truncated, u64sub_of_le hoff.le hsize]
  split_ifs with hcut
  · obtain ⟨hlt, hreg⟩ := hcut
    refine iff_of_false (by omega) fun h => ?_
    have hle := h hreg
    omega
  · refine iff_of_true rfl fun hreg => ?_
    have hge : ¬ s.vn.filesize - offset < n := fun hlt => hcut ⟨hlt, hreg⟩
    omega

theorem truncated_bounds {offset : ℕ} (hoff : offset < s.vn.filesize)
    (hsize : s.vn.filesize < 2 ^ 64) (hn : n ≠ 0) :
    0 < truncated s.vn offset n ∧ truncated s.vn offset n ≤ n := by
  rw [truncated, u64sub_of_le hoff.le hsize]
  split_ifs <;> omega

theorem slice_fileDevice {offset : ℕ} :
    s.device.slice (offset + s.vn.baseOffset) n = (fileDevice s).slice offset n := by
  refine slice_eq_iff.mpr fun i _ => ?_
  rw [fileDevice, Nat.add_right_comm]

theorem cacheRead_bytes {offset : ℕ} {bs : List UInt8} (h : cacheRead s offset n = some bs) :
    bs = (fileView s).slice offset n := by
  rw [cacheRead] at h
  split_ifs at h with hzero
  · cases h
    rw [hzero]
    rfl
  · split at h
    · cases h
    · rename_i a ha
      split_ifs at h with hall
      cases h
      exact slice_eq_iff.mpr fun i hi =>
        bytes_eq_fileView ha hall (Nat.le_add_right _ _) (Nat.add_lt_add_left hi _)

theorem doRead_length {m : ℕ} {x : State D × ReadResult} (h : doRead s d m true = some x)
    (hstatus : x.2.status = .success) : x.2.bytes.length = m := by
  rw [doRead] at h
  split_ifs at h with huncached
  · obtain ⟨-, ⟨rfl, -⟩ | ⟨-, -, hx | hx⟩⟩ := doUncachedRead_cases h
    · cases hstatus
    · rw [hx] at hstatus
      cases hstatus
    · rw [hx]
      exact length_slice _ _ _
  · obtain ⟨-, bs, hbs, hx⟩ := doCachedRead_cases h
    rw [hx, cacheRead_bytes hbs]
    exact length_slice _ _ _

/-- Where blocks are single bytes, a read returns the bytes of the device or those of the file. -/
theorem doRead_bytes {m : ℕ} {x : State D × ReadResult} (hblk : s.blkSize = 1)
    (hfits : (s.fd d).offset + m + s.vn.baseOffset < 2 ^ 64) (h : doRead s d m true = some x)
    (hstatus : x.2.status = .success) :
    x.2.bytes = (if (s.fd d).uncached then fileDevice s else fileView s).slice (s.fd d).offset m := by
  rw [doRead] at h
  split_ifs at h ⊢ with huncached
  · obtain ⟨-, ⟨rfl, -⟩ | ⟨-, -, hx | hx⟩⟩ := doUncachedRead_cases h
    · cases hstatus
    · rw [hx] at hstatus
      cases hstatus
    · rw [hx, uncachedCall, hblk, Nat.div_one, Nat.mul_one, u64_of_lt (by omega)]
      exact slice_fileDevice
  · obtain ⟨hentry, bs, hbs, hx⟩ := doCachedRead_cases h
    rw [hx, cacheRead_bytes hbs, fileView_getEntry hblk hfits hentry]

/-- The device has the bytes of the file where no cached byte differs. -/
theorem slice_fileView_iff {offset : ℕ} {uncached : Bool} :
    (fileDevice s).slice offset n = (if uncached then fileDevice s else fileView s).slice offset n ↔
      (uncached = false → CachedAre s offset n (fileDevice s)) := by
  cases uncached with
  | true => exact iff_of_true rfl fun h => nomatch h
  | false =>
    rw [if_neg Bool.false_ne_true, slice_eq_iff, cachedAre_iff, forall_prop_of_true rfl]
    constructor
    · intro h x hle hlt _
      have hx := h (x - offset) (by omega)
      rw [Nat.add_sub_cancel' hle] at hx
      exact hx.symm
    · intro h i hi
      by_cases hpop : isPopulated s ((offset + i) / pageSize) = true
      · exact (h _ (Nat.le_add_right _ _) (Nat.add_lt_add_left hi _) hpop).symm
      · exact (fileView_of_not_populated hpop).symm

/-- A read that the synchronous way accepts goes to the device or the cache. -/
theorem fdRead_doRead [DecidableEq D] {r : ReadResult} (hopen : (s.fd d).isOpen = true) (hn : n ≠ 0)
    (hoff : (s.fd d).offset < s.vn.filesize) (hallowed : (s.fd d).canRead = true)
    (h : fdRead s d n true = some (s', r)) :
    ∃ x, doRead s d (truncated s.vn (s.fd d).offset n) true = some x ∧ r = x.2 := by
  have heof : isEof s.vn (s.fd d).offset = false := isEof_eq_false fun _ => hoff.le
  rw [fdRead, hopen, heof, hallowed] at h
  simp only [Bool.not_true, Bool.false_eq_true, if_false, if_neg hn] at h
  obtain ⟨x, hx, hfinish⟩ := Option.bind_eq_some_iff.mp h
  exact ⟨x, hx, (finishRead_cases hfinish).1⟩

/-- An asynchronous read and a synchronous one. -/
theorem fdARead_agrees_iff [DecidableEq D] {sA sS : State D} {rA : AsyncResult} {rS : ReadResult}
    (hsize : s.vn.filesize < 2 ^ 64) (hfits : (s.fd d).offset + n + s.vn.baseOffset < 2 ^ 64)
    (hA : fdARead s d n = some (sA, rA)) (hevent : rA.event = true)
    (hS : fdRead s d n true = some (sS, rS)) (hstatus : rS.status = .success) :
    rA.bytes = rS.bytes ↔ ReadAgrees s d n := by
  obtain ⟨hopen, hn, hoff, hallowed, -, hbytes, -⟩ := asyncIo_cases hA hevent
  obtain ⟨x, hx, rfl⟩ := fdRead_doRead hopen hn hoff hallowed hS
  obtain ⟨hpos, hle⟩ := truncated_bounds hoff hsize hn
  have hlen := doRead_length hx hstatus
  rw [hbytes, ReadAgrees, ← truncated_eq_iff hoff hsize]
  dsimp only [asyncCall]
  -- as many bytes are moved only if blocks are single bytes and the read is not cut
  have hcount : n * s.blkSize = truncated s.vn (s.fd d).offset n ↔
      s.blkSize = 1 ∧ truncated s.vn (s.fd d).offset n = n := by
    constructor
    · intro hmul
      have hblk : s.blkSize = 1 := by
        rcases Nat.lt_trichotomy s.blkSize 1 with hlt | heq | hgt
        · rw [Nat.lt_one_iff.mp hlt, Nat.mul_zero] at hmul
          omega
        · exact heq
        · have := Nat.mul_le_mul_left n hgt
          omega
      exact ⟨hblk, by rw [← hmul, hblk, Nat.mul_one]⟩
    · rintro ⟨hblk, hcut⟩
      rw [hblk, hcut, Nat.mul_one]
  by_cases hsame : s.blkSize = 1 ∧ truncated s.vn (s.fd d).offset n = n
  · obtain ⟨hblk, hcut⟩ := hsame
    rw [hcut] at hx
    rw [doRead_bytes hblk hfits hx hstatus, hblk, Nat.mul_one, Nat.mul_one,
      u64_of_lt (by omega), slice_fileDevice, and_iff_right rfl, and_iff_right hcut]
    exact slice_fileView_iff
  · refine iff_of_false (fun heq => hsame (hcount.mp ?_)) fun h => hsame ⟨h.1, h.2.1⟩
    rw [← hlen, ← heq, length_slice]

/-! ### Writes -/

/-- What a write has done: how many bytes of the caller's memory it has moved, and what the file
holds behind it. -/
structure SameWrite (countA countS : ℕ) (sA sS : State D) : Prop where
  count : countA = countS
  file : ∀ x, fileView sA x = fileView sS x

/-- The seek behind a transfer leaves the file. -/
theorem fileView_advance [DecidableEq D] (h : advance s d n = some s') : fileView s' = fileView s := by
  rcases advance_cases h with rfl | ⟨-, -, rfl⟩ <;> rfl

/-- A write that the synchronous way accepts goes to the device or the cache. -/
theorem fdWrite_doWrite [DecidableEq D] {buf : List UInt8} {r : WriteResult} (hopen : (s.fd d).isOpen = true)
    (hn : buf.length ≠ 0) (hoff : (s.fd d).offset < s.vn.filesize)
    (hallowed : (s.fd d).canWrite = true) (h : fdWrite s d buf true = some (s', r))
    (hstatus : r.status = .success) :
    ∃ x, doWrite s d buf true = some x ∧ r = x.2 ∧ fileView s' = fileView x.1 := by
  have heof : isEof s.vn (s.fd d).offset = false := isEof_eq_false fun _ => hoff.le
  rw [fdWrite, hopen, heof, hallowed] at h
  simp only [Bool.not_true, Bool.false_eq_true, if_false, if_neg hn] at h
  obtain ⟨x, hx, hfinish⟩ := Option.bind_eq_some_iff.mp h
  obtain ⟨rfl, hadvance | ⟨hfailed, -⟩⟩ := finishWrite_cases hfinish
  · -- the size of the file is not looked at by `fileView`
    have hsized : fileView s' = fileView (x.1.setFilesize (grown x.1.vn (x.1.fd d).offset buf.length)) :=
      fileView_advance hadvance
    exact ⟨x, hx, rfl, hsized⟩
  · exact absurd hstatus hfailed

/-- The device, from the first byte of the file on, behind a write. -/
theorem fileDevice_write {offset : ℕ} {bs : List UInt8} :
    fileDevice (s.setDevice (s.device.write (offset + s.vn.baseOffset) bs))
      = (fileDevice s).write offset bs := by
  funext x
  show s.device.write (offset + s.vn.baseOffset) bs (x + s.vn.baseOffset) = _
  by_cases hx : (Span.mk offset bs.length).Has x
  · have hshift : (Span.mk (offset + s.vn.baseOffset) bs.length).Has (x + s.vn.baseOffset) := by
      obtain ⟨hlo, hhi⟩ := hx
      simp only [Span.stop_mk] at hlo hhi
      exact ⟨by simp only; omega, by simp only [Span.stop_mk]; omega⟩
    rw [write_of_has hshift, write_of_has hx, Nat.add_sub_add_right]
  · have hshift : ¬ (Span.mk (offset + s.vn.baseOffset) bs.length).Has (x + s.vn.baseOffset) := by
      rintro ⟨hlo, hhi⟩
      simp only [Span.stop_mk] at hlo hhi
      exact hx ⟨by simp only; omega, by simp only [Span.stop_mk]; omega⟩
    rw [write_of_not_has hshift, write_of_not_has hx]
    rfl

/-- A cached write changes the file in its range. -/
theorem fileView_doCachedWrite {buf : List UInt8} {x : State D × WriteResult} (hblk : s.blkSize = 1)
    (hfits : (s.fd d).offset + buf.length + s.vn.baseOffset < 2 ^ 64)
    (h : doCachedWrite s d buf = some x) :
    fileView x.1 = (fileView s).write (s.fd d).offset buf := by
  obtain ⟨s₁, s₂, hentry, hwrite, rfl⟩ := doCachedWrite_cases h
  obtain ⟨a, ha, hall, rfl⟩ := cacheWrite_cases hwrite
  have hview : fileView s₁ = fileView (markDirty s (s.fd d).offset buf.length) :=
    fileView_getEntry hblk hfits hentry
  have hmarked : fileView (markDirty s (s.fd d).offset buf.length) = fileView s := rfl
  rw [← hmarked, ← hview]
  funext y
  by_cases hy : (Span.mk (s.fd d).offset buf.length).Has y
  · obtain ⟨hlo, hhi⟩ := hy
    rw [write_of_has ⟨hlo, hhi⟩]
    exact (if_pos (List.all_eq_true.mp hall _ (div_mem_touched hlo hhi))).trans (write_of_has ⟨hlo, hhi⟩)
  · have hold : fileView s₁ y = if a.populated (y / pageSize) then a.bytes y else fileDevice s₁ y := by
      rw [fileView, ha]
      rfl
    rw [write_of_not_has hy, hold]
    show (if a.populated (y / pageSize) then a.bytes.write (s.fd d).offset buf y
      else fileDevice s₁ y) = _
    rw [write_of_not_has hy]

/-- A write to the device changes the file in its range exactly where no other byte is cached. -/
theorem fileView_deviceWrite_iff {offset : ℕ} {mem : ByteMem} :
    (∀ x, fileView (s.setDevice (s.device.write (offset + s.vn.baseOffset) (mem.slice 0 n))) x
        = (fileView s).write offset (mem.slice 0 n) x) ↔
      CachedAre s offset n fun x => mem (x - offset) := by
  have hlen : (mem.slice 0 n).length = n := length_slice _ _ _
  have hbyte : ∀ x, offset ≤ x → x < offset + n → ∀ m : ByteMem,
      m.write offset (mem.slice 0 n) x = mem (x - offset) := by
    intro x hlo hhi m
    rw [write_of_has ⟨hlo, by rw [Span.stop_mk, hlen]; exact hhi⟩,
      ByteMem.slice_getD (by omega), Nat.zero_add]
  -- the file behind the write, where the page is cached and where it is not
  have hpopulated : ∀ x, isPopulated s (x / pageSize) = true →
      fileView (s.setDevice (s.device.write (offset + s.vn.baseOffset) (mem.slice 0 n))) x
        = fileView s x := by
    intro x hpop
    rw [isPopulated] at hpop
    cases hd : s.vn.data with
    | none =>
      rw [hd] at hpop
      cases hpop
    | some a =>
      rw [hd] at hpop
      rw [fileView_of_populated hd hpop]
      exact fileView_of_populated (s := s.setDevice _) hd hpop
  have hempty : ∀ x, ¬ isPopulated s (x / pageSize) = true →
      fileView (s.setDevice (s.device.write (offset + s.vn.baseOffset) (mem.slice 0 n))) x
        = (fileDevice s).write offset (mem.slice 0 n) x := by
    intro x hpop
    rw [← fileDevice_write]
    exact fileView_of_not_populated hpop
  rw [cachedAre_iff]
  constructor
  · intro h x hlo hhi hpop
    rw [← hpopulated x hpop, h x, hbyte x hlo hhi]
  · intro h x
    by_cases hx : (Span.mk offset (mem.slice 0 n).length).Has x
    · obtain ⟨hlo, hhi⟩ := hx
      rw [Span.stop_mk, hlen] at hhi
      rw [hbyte x hlo hhi]
      by_cases hpop : isPopulated s (x / pageSize) = true
      · rw [hpopulated x hpop, h x hlo hhi hpop]
      · rw [hempty x hpop, hbyte x hlo hhi]
    · rw [write_of_not_has hx]
      by_cases hpop : isPopulated s (x / pageSize) = true
      · exact hpopulated x hpop
      · rw [hempty x hpop, write_of_not_has hx, fileView_of_not_populated hpop]

/-- An asynchronous write and a synchronous one. -/
theorem fdAWrite_agrees_iff [DecidableEq D] {mem : ByteMem} {sA sS : State D} {rA : AsyncResult} {rS : WriteResult}
    (hfits : (s.fd d).offset + n + s.vn.baseOffset < 2 ^ 64)
    (hA : fdAWrite s d mem n = some (sA, rA)) (hevent : rA.event = true)
    (hS : fdWrite s d (mem.slice 0 n) true = some (sS, rS)) (hstatus : rS.status = .success) :
    SameWrite rA.bytes.length rS.count sA sS ↔ WriteAgrees s d mem n := by
  obtain ⟨hopen, hn, hoff, hallowed, -, hbytes, hsA⟩ := asyncIo_cases hA hevent
  have hlen : (mem.slice 0 n).length = n := length_slice _ _ _
  obtain ⟨x, hx, rfl, hview⟩ := fdWrite_doWrite hopen (by rw [hlen]; exact hn) hoff hallowed hS
    hstatus
  have hcountA : rA.bytes.length = n * s.blkSize := by
    rw [hbytes]
    exact length_slice _ _ _
  have hcountS : x.2.count = n := by
    rw [doWrite] at hx
    split_ifs at hx
    · obtain ⟨-, ⟨rfl, -⟩ | ⟨-, ⟨-, hfailed⟩ | ⟨-, hdone⟩⟩⟩ := doUncachedWrite_cases hx
      · cases hstatus
      · rw [hfailed] at hstatus
        cases hstatus
      · rw [hdone]
        exact hlen
    · obtain ⟨s₁, s₂, -, -, rfl⟩ := doCachedWrite_cases hx
      exact hlen
  by_cases hblk : s.blkSize = 1
  · have hplace : u64 ((s.fd d).offset + s.vn.baseOffset) = (s.fd d).offset + s.vn.baseOffset :=
      u64_of_lt (by omega)
    -- the driver writes the bytes of the buffer to their place on the device
    have hviewA : fileView sA = fileView (s.setDevice (s.device.write
        ((s.fd d).offset + s.vn.baseOffset) (mem.slice 0 n))) := by
      rw [hsA]
      show fileView (s.setDevice (s.device.write (u64 ((s.fd d).offset + s.vn.baseOffset) * s.blkSize)
        (mem.slice 0 (n * s.blkSize)))) = _
      rw [hblk, Nat.mul_one, Nat.mul_one, hplace]
    have hsame : SameWrite rA.bytes.length x.2.count sA sS ↔ ∀ y, fileView sA y = fileView sS y :=
      ⟨fun h => h.file, fun h => ⟨by rw [hcountA, hcountS, hblk, Nat.mul_one], h⟩⟩
    rw [hsame, WriteAgrees, and_iff_right hblk, hviewA, hview]
    rw [doWrite] at hx
    split_ifs at hx with huncached
    · refine iff_of_true (fun y => ?_) fun h => absurd (h.symm.trans huncached) Bool.noConfusion
      obtain ⟨-, ⟨rfl, -⟩ | ⟨-, ⟨-, hfailed⟩ | ⟨hdone, -⟩⟩⟩ := doUncachedWrite_cases hx
      · cases hstatus
      · rw [hfailed] at hstatus
        cases hstatus
      · rw [hdone, uncachedCall, hblk, Nat.div_one, Nat.mul_one, hplace]
        rfl
    · rw [fileView_doCachedWrite hblk (by rw [hlen]; exact hfits) hx, fileView_deviceWrite_iff,
        forall_prop_of_true (Bool.eq_false_iff.mpr huncached)]
  · refine iff_of_false (fun h => hblk ?_) fun h => hblk h.1
    have hcount := h.count
    rw [hcountA, hcountS] at hcount
    exact Nat.eq_of_mul_eq_mul_left (Nat.pos_of_ne_zero hn) (hcount.trans (Nat.mul_one n).symm)

end

/-- For every vnode, block size, descriptor, buffer and length: a read that both ways accept moves
the same bytes exactly when `ReadAgrees`, and a write moves as many bytes and leaves the same file
exactly when `WriteAgrees`. -/
theorem async_agrees_iff [DecidableEq D] (s : State D) (d : D) (mem : ByteMem) (nBytes : ℕ)
    (hsize : s.vn.filesize < 2 ^ 64)
    (hfits : (s.fd d).offset + nBytes + s.vn.baseOffset < 2 ^ 64) :
    (∀ sA rA sS rS, fdARead s d nBytes = some (sA, rA) → rA.event = true →
      fdRead s d nBytes true = some (sS, rS) → rS.status = .success →
      (rA.bytes = rS.bytes ↔ ReadAgrees s d nBytes)) ∧
    (∀ sA rA sS rS, fdAWrite s d mem nBytes = some (sA, rA) → rA.event = true →
      fdWrite s d (mem.slice 0 nBytes) true = some (sS, rS) → rS.status = .success →
      (SameWrite rA.bytes.length rS.count sA sS ↔ WriteAgrees s d mem nBytes)) :=
  ⟨fun _ _ _ _ hA hevent hS hstatus => fdARead_agrees_iff hsize hfits hA hevent hS hstatus,
    fun _ _ _ _ hA hevent hS hstatus => fdAWrite_agrees_iff hfits hA hevent hS hstatus⟩

/-- A file of 100 bytes on a device with blocks of one byte, open for reading and writing; the
first page is in the cache, where every byte is 7, and the device holds zeros. -/
def cachedFile (uncached : Bool) : State Unit where
  vn :=
    { vtype := .reg, partitionOff := none, perm := ⟨true, true, true, true, true, true⟩,
      ownerUid := 0, groupUid := 0, filesize := 100, pagecache := ⟨[]⟩,
      data := some ⟨1, fun k => k = 0, fun _ => 7⟩ }
  fd _ := ⟨if uncached then 15#32 else 7#32, 0⟩
  blkSize := 1
  device _ := 0
  frames _ := 0
  calls := []
  written := []

/-- An uncached read of ten bytes. -/
theorem async_agrees_iff_uncached :
    ∃ sA rA sS rS, fdARead (cachedFile true) () 10 = some (sA, rA) ∧
      fdRead (cachedFile true) () 10 true = some (sS, rS) ∧ rA.bytes = rS.bytes := by
  have hA : (fdARead (cachedFile true) () 10).map (fun x => x.2.event) = some true := by decide
  have hS : (fdRead (cachedFile true) () 10 true).map (fun x => x.2.status) = some .success := by
    decide
  obtain ⟨⟨sA, rA⟩, hA, hevent⟩ := Option.map_eq_some_iff.mp hA
  obtain ⟨⟨sS, rS⟩, hS, hstatus⟩ := Option.map_eq_some_iff.mp hS
  refine ⟨sA, rA, sS, rS, hA, hS, ?_⟩
  refine ((async_agrees_iff (cachedFile true) () (fun _ => 0) 10 (by decide) (by decide)).1 sA rA sS
    rS hA hevent hS hstatus).mpr ⟨rfl, fun _ => by decide, fun h => ?_⟩
  cases h

/-- The cached bytes are dirty, and the asynchronous read returns those of the device. -/
theorem async_read_misses_dirty :
    (fdARead (cachedFile false) () 2).map (fun x => x.2) = some ⟨.success, true, [0, 0]⟩ ∧
      (fdRead (cachedFile false) () 2 true).map (fun x => x.2) = some ⟨.success, [7, 7]⟩ := by
  decide

end Obos.Vfs
