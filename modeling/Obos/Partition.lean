/-
Partitions.

The vnode of a partition is a block device whose offsets the code shifts by
`partitions[0].off`.  Nothing bounds them from above: `is_eof` is about regular
files only, and a seek is taken as it comes.  So the caller has to stay inside, and
a page that the cache reads as a whole has to be inside as a whole.

* `partition_confined` — in every run whose transfers end within the partition, as do
  the pages the cache looks at for them, every sector the driver is asked for lies
  within it,
* `read_past_partition` — a seek and a read that ask for a sector behind it.
-/
import Obos.FileIo

namespace Obos.Vfs

/-- Every sector of the call lies within the `size` bytes at `off`. -/
def InPartition (off size blkSize : ℕ) (c : Call) : Prop :=
  ∀ b, c.block ≤ b → b < c.block + c.count → off ≤ b * blkSize ∧ (b + 1) * blkSize ≤ off + size

/-- A call for the `n` bytes at offset `x` of the partition. -/
theorem inPartition_of_le {off size blkSize x n : ℕ} (hdvd : blkSize ∣ off)
    (hsize : off + size < 2 ^ 64) (hx : x + n ≤ size) :
    InPartition off size blkSize ⟨u64 (x + off) / blkSize, n / blkSize⟩ := by
  intro b hb hlt
  simp only at hb hlt
  rw [u64_of_lt (by omega)] at hb hlt
  constructor
  · calc off = off / blkSize * blkSize := (Nat.div_mul_cancel hdvd).symm
      _ ≤ (x + off) / blkSize * blkSize :=
        Nat.mul_le_mul_right _ (Nat.div_le_div_right (Nat.le_add_left _ _))
      _ ≤ b * blkSize := Nat.mul_le_mul_right _ hb
  · calc (b + 1) * blkSize ≤ ((x + off) / blkSize + n / blkSize) * blkSize :=
        Nat.mul_le_mul_right _ hlt
      _ ≤ (x + off + n) / blkSize * blkSize :=
        Nat.mul_le_mul_right _ (Nat.div_add_div_le_add_div ..)
      _ ≤ x + off + n := Nat.div_mul_le_self _ _
      _ ≤ off + size := by omega

variable {D : Type*}

/-- What a run on the vnode of a partition keeps. -/
structure Confined (off size blk : ℕ) (s : State D) : Prop where
  vtype : s.vn.vtype = .blk
  partitionOff : s.vn.partitionOff = some off
  blkSize : s.blkSize = blk
  dirty : ∀ r ∈ s.vn.pagecache.dirtyRegions, r.fileoff + r.sz ≤ size
  calls : ∀ c ∈ s.calls, InPartition off size blk c

/-- The pages the cache looks at for `n` bytes end within the partition. -/
def pagesWithin (size offset n : ℕ) : Bool :=
  (scanned offset n).all fun k => (k + 1) * pageSize ≤ size

/-- What a transfer must be like: it ends within the partition, and so do the pages. -/
def within (size : ℕ) (s : State D) : Op D → Bool
  | .read d n _ =>
    if (s.fd d).uncached then decide ((s.fd d).offset + n ≤ size)
    else pagesWithin size (s.fd d).offset n
  | .write d buf _ =>
    decide ((s.fd d).offset + buf.length ≤ size) &&
      ((s.fd d).uncached || pagesWithin size (s.fd d).offset buf.length)
  | _ => true

section Steps

variable {off size blkSize : ℕ} {s s' : State D}

section

variable (h : Confined off size blkSize s)
include h

/-- A step that leaves the dirty list alone and asks for the blocks `cs`. -/
theorem Confined.of_calls (cs : List Call)
    (hvtype : s'.vn.vtype = s.vn.vtype) (hoff : s'.vn.partitionOff = s.vn.partitionOff)
    (hblk : s'.blkSize = s.blkSize) (hdirty : s'.vn.pagecache = s.vn.pagecache)
    (hcalls : s'.calls = s.calls ++ cs) (hcs : ∀ c ∈ cs, InPartition off size blkSize c) :
    Confined off size blkSize s' where
  vtype := hvtype.trans h.vtype
  partitionOff := hoff.trans h.partitionOff
  blkSize := hblk.trans h.blkSize
  dirty := by
    rw [hdirty]
    exact h.dirty
  calls c hc := by
    rw [hcalls, List.mem_append] at hc
    exact hc.elim (h.calls c) (hcs c)

theorem Confined.baseOffset : s.vn.baseOffset = off := by
  rw [Vnode.baseOffset, h.partitionOff, Option.getD_some]

/-- The pages that are filled are among those the cache looks at. -/
theorem Confined.getEntry (hdvd : blkSize ∣ off)
    (hsize : off + size < 2 ^ 64) {offset n : ℕ} (hpages : pagesWithin size offset n = true)
    (hs : pageCacheGetEntry s offset n = some s') :
    Confined off size blkSize s' ∧ s'.fd = s.fd := by
  obtain ⟨-, ⟨-, -, rfl⟩ | ⟨a, -, -, rfl⟩⟩ := pageCacheGetEntry_cases hs
  · exact ⟨h, rfl⟩
  · refine ⟨h.of_calls _ rfl rfl rfl rfl rfl fun c hc => ?_, rfl⟩
    obtain ⟨k, hk, rfl⟩ := List.mem_map.mp hc
    have hend := List.all_eq_true.mp hpages k (List.mem_filter.mp hk).1
    rw [decide_eq_true_eq] at hend
    rw [fillCall, h.baseOffset, h.blkSize]
    exact inPartition_of_le hdvd hsize (by rw [← Nat.succ_mul]; exact hend)

/-- The new region, or the one that has grown, ends where the request does. -/
theorem Confined.markDirty (hsize : off + size < 2 ^ 64)
    {offset n : ℕ} (hn : offset + n ≤ size) : Confined off size blkSize (markDirty s offset n) where
  vtype := h.vtype
  partitionOff := h.partitionOff
  blkSize := h.blkSize
  calls := h.calls
  dirty r hr := by
    have hwrap : NoWrap s.vn.pagecache := fun r hr => by
      have := h.dirty r hr
      omega
    rcases mem_pcDirtyRegionCreate hwrap (by omega) hr with hold | rfl | ⟨r0, -, hend, rfl⟩
    · exact h.dirty r hold
    · exact hn
    · show r0.fileoff + (r0.sz + n) ≤ size
      omega

end

variable [DecidableEq D] {d : D}

theorem Confined.seek (h : Confined off size blkSize s) {o : ℤ} {whence : Whence} {st : Status}
    (hs : fdSeek s d o whence = some (s', st)) : Confined off size blkSize s' := by
  rcases fdSeek_cases hs with rfl | ⟨-, -, rfl⟩
  · exact h
  · exact h.of_calls [] rfl rfl rfl rfl (List.append_nil _).symm nofun

theorem Confined.advance (h : Confined off size blkSize s) {n : ℕ}
    (hs : advance s d n = some s') : Confined off size blkSize s' := by
  obtain ⟨⟨s1, st⟩, hs1, rfl⟩ := Option.map_eq_some_iff.mp hs
  exact h.seek hs1

omit [DecidableEq D] in
/-- The call of an uncached transfer. -/
theorem Confined.uncachedCall (h : Confined off size blkSize s) (hdvd : blkSize ∣ off)
    (hsize : off + size < 2 ^ 64) {n : ℕ} (hn : (s.fd d).offset + n ≤ size) :
    ∀ c ∈ [uncachedCall s d n], InPartition off size blkSize c := by
  intro c hc
  rw [List.mem_singleton] at hc
  rw [hc, Vfs.uncachedCall, h.baseOffset, h.blkSize]
  exact inPartition_of_le hdvd hsize hn

theorem Confined.read (h : Confined off size blkSize s) (hdvd : blkSize ∣ off)
    (hsize : off + size < 2 ^ 64) {n : ℕ} {ok : Bool} {r : ReadResult}
    (hin : within size s (.read d n ok) = true) (hs : fdRead s d n ok = some (s', r)) :
    Confined off size blkSize s' := by
  rcases fdRead_cases hs with ⟨rfl, -, -⟩ | ⟨-, -, -, -, x, hx, hfin⟩
  · exact h
  have hall : truncated s.vn (s.fd d).offset n = n := by
    rw [truncated, h.vtype, if_neg fun hf => by cases hf.2]
  rw [hall] at hx hfin
  have hx1 : Confined off size blkSize x.1 := by
    rw [doRead] at hx
    rw [within] at hin
    split at hx
    · rename_i hun
      rw [if_pos hun, decide_eq_true_eq] at hin
      obtain ⟨-, ⟨rfl, -⟩ | ⟨-, he, -⟩⟩ := doUncachedRead_cases hx
      · exact h
      · rw [he]
        exact h.of_calls _ rfl rfl rfl rfl rfl (h.uncachedCall hdvd hsize hin)
    · rename_i hun
      rw [if_neg hun] at hin
      exact (h.getEntry hdvd hsize hin (doCachedRead_cases hx).1).1
  obtain ⟨-, hadv | ⟨-, rfl⟩⟩ := finishRead_cases hfin
  · exact hx1.advance hadv
  · exact hx1

theorem Confined.write (h : Confined off size blkSize s) (hdvd : blkSize ∣ off)
    (hsize : off + size < 2 ^ 64) {buf : List UInt8} {ok : Bool} {r : WriteResult}
    (hin : within size s (.write d buf ok) = true) (hs : fdWrite s d buf ok = some (s', r)) :
    Confined off size blkSize s' := by
  rcases fdWrite_cases hs with ⟨rfl, -, -⟩ | ⟨-, -, -, -, x, hx, hfin⟩
  · exact h
  rw [within, Bool.and_eq_true, decide_eq_true_eq] at hin
  have hx1 : Confined off size blkSize x.1 := by
    rw [doWrite] at hx
    split at hx
    · have hcall := h.uncachedCall hdvd hsize hin.1
      obtain ⟨-, ⟨rfl, -⟩ | ⟨-, ⟨he, -⟩ | ⟨he, -⟩⟩⟩ := doUncachedWrite_cases hx
      · exact h
      · rw [he]
        exact h.of_calls _ rfl rfl rfl rfl rfl hcall
      · rw [he]
        exact h.of_calls _ rfl rfl rfl rfl rfl hcall
    · rename_i hun
      rw [Bool.not_eq_true] at hun
      rw [hun, Bool.false_or] at hin
      obtain ⟨s1, s2, hentry, hwrite, rfl⟩ := doCachedWrite_cases hx
      have h1 := ((h.markDirty hsize hin.1).getEntry hdvd hsize hin.2 hentry).1
      obtain ⟨a, -, -, rfl⟩ := cacheWrite_cases hwrite
      exact h1.of_calls [] rfl rfl rfl rfl (List.append_nil _).symm nofun
  obtain ⟨-, hadv | ⟨-, rfl⟩⟩ := finishWrite_cases hfin
  · refine Confined.advance ?_ hadv
    exact hx1.of_calls [] rfl rfl rfl rfl (List.append_nil _).symm nofun
  · exact hx1

end Steps

section Runs

variable {off size blkSize : ℕ} {s s' : State D}

/-- A dirty region lies within the partition, and is written back where it lies. -/
theorem Confined.flush (h : Confined off size blkSize s) (hdvd : blkSize ∣ off)
    (hsize : off + size < 2 ^ 64) (hs : pageCacheFlush s = some s') :
    Confined off size blkSize s' := by
  rw [pageCacheFlush] at hs
  split at hs
  · cases hs
  split at hs
  · rw [← Option.some.inj hs]
    exact h.of_calls [] rfl rfl rfl rfl (List.append_nil _).symm nofun
  · cases hs
  · rename_i a r rs hdata hdirty
    rw [← Option.some.inj hs]
    refine ⟨h.vtype, h.partitionOff, h.blkSize, nofun, fun c hc => ?_⟩
    rcases List.mem_append.mp hc with hold | hnew
    · exact h.calls c hold
    · obtain ⟨r1, hr1, rfl⟩ := List.mem_map.mp hnew
      rw [flushCall, h.baseOffset, h.blkSize]
      exact inPartition_of_le hdvd hsize (h.dirty r1 (hdirty ▸ hr1))

variable [DecidableEq D]

theorem Confined.step {op : Op D} (h : Confined off size blkSize s) (hdvd : blkSize ∣ off)
    (hsize : off + size < 2 ^ 64) (hin : within size s op = true) (hs : step s op = some s') :
    Confined off size blkSize s' := by
  cases op with
  | read d n ok =>
    obtain ⟨⟨s1, r⟩, hs1, rfl⟩ := Option.map_eq_some_iff.mp hs
    exact h.read hdvd hsize hin hs1
  | write d buf ok =>
    obtain ⟨⟨s1, r⟩, hs1, rfl⟩ := Option.map_eq_some_iff.mp hs
    exact h.write hdvd hsize hin hs1
  | seek d o whence =>
    obtain ⟨⟨s1, st⟩, hs1, rfl⟩ := Option.map_eq_some_iff.mp hs
    exact h.seek hs1
  | flush => exact h.flush hdvd hsize hs

/-- A vnode marked as the partition of `size` bytes at `off`, before its first use. -/
structure PartitionVnode (off size : ℕ) (s : State D) : Prop where
  vtype : s.vn.vtype = .blk
  partitionOff : s.vn.partitionOff = some off
  filesize : s.vn.filesize = size
  dirty : s.vn.pagecache.dirtyRegions = []
  calls : s.calls = []

/-- In every run of seeks, reads, writes and flushes whose transfers end within the
partition, as do the pages the cache looks at for them, every sector the driver is
asked for lies within the partition. -/
theorem partition_confined {ops : List (Op D)} (hvn : PartitionVnode off size s)
    (hoff : s.blkSize ∣ off) (hsize : off + size < 2 ^ 64)
    (hok : Run.Meets (fun s op => within size s op = true) Vfs.step s ops)
    (hrun : ops.foldlM Vfs.step s = some s') :
    ∀ c ∈ s'.calls, InPartition off size s.blkSize c := by
  have hinit : Confined off size s.blkSize s :=
    ⟨hvn.vtype, hvn.partitionOff, rfl, by rw [hvn.dirty]; exact nofun,
      by rw [hvn.calls]; exact nofun⟩
  exact (Run.preserves (fun _ _ _ h hin hs => h.step hoff hsize hin hs) hinit hok hrun).calls

end Runs

/-- A partition of two pages at offset 4096 of a disk with sectors of 512 bytes;
descriptor 0 is cached, the others are not. -/
def twoPages : State ℕ where
  vn := ⟨.blk, some 4096, ⟨true, true, true, true, true, true⟩, 0, 0, 8192, ⟨[]⟩, none⟩
  fd d := ⟨if d = 0 then 7 else 15, 0⟩
  blkSize := 512
  device _ := 0
  frames _ := 0
  calls := []
  written := []

/-- A cached write, a flush, and an uncached read of the last sector. -/
def stayInside : List (Op ℕ) :=
  [.write 0 (List.replicate 512 1) true, .flush, .seek 1 7680 .set, .read 1 512 true]

theorem partition_confined_twoPages :
    ∃ s, stayInside.foldlM step twoPages = some s ∧
      ∀ c ∈ s.calls, InPartition 4096 8192 512 c := by
  have hsome : (stayInside.foldlM step twoPages).isSome = true := by decide +kernel
  obtain ⟨s, hrun⟩ := Option.isSome_iff_exists.mp hsome
  have hvn : PartitionVnode 4096 8192 twoPages := ⟨rfl, rfl, rfl, rfl, rfl⟩
  exact ⟨s, hrun, partition_confined hvn (by decide) (by norm_num) (by decide +kernel) hrun⟩

/-- Descriptor 1 seeks to the end of the partition and reads a sector. -/
theorem read_past_partition :
    PartitionVnode 4096 8192 twoPages ∧ ∃ s c,
      [Op.seek 1 8192 .set, .read 1 512 true].foldlM step twoPages = some s ∧ c ∈ s.calls ∧
      ¬ InPartition 4096 8192 512 c := by
  have hcalls : ([Op.seek 1 8192 .set, .read 1 512 true].foldlM step twoPages).map State.calls =
      some [⟨24, 1⟩] := by decide +kernel
  obtain ⟨s, hs, hc⟩ := Option.map_eq_some_iff.mp hcalls
  refine ⟨⟨rfl, rfl, rfl, rfl, rfl⟩, s, ⟨24, 1⟩, hs, hc ▸ List.mem_singleton_self _, fun h => ?_⟩
  exact absurd (h 24 le_rfl (by decide)).2 (by decide)

end Obos.Vfs
