/-
File descriptors (`vfs/fd.c`) and the page cache behind them (`vfs/pagecache.c`).

A state is one vnode with its page cache, the descriptors that are open on it and
the device of its driver.  The page cache is an area of the kernel's address space
that is reserved at its first use, as large as the file is then; a page of it is
committed and read from the device when `VfsH_PageCacheGetEntry` comes across it.
Behind the area there is nothing: who touches a page there, or one that is not
committed, has no result, as the kernel stops.

A cached write goes to the page cache and onto its list of dirty regions, which
`VfsH_PageCacheFlush` writes back in whole blocks.

`calls` and `written` are history: the blocks the driver was asked for, and the
ranges that cached writes have written since the last flush.
-/
import Obos.PageCache
import Obos.Lib.ByteMem
import Obos.Lib.Run

namespace Obos.Vfs

/-! ### Vnodes and descriptors -/

/-- `VNODE_TYPE_*`. -/
inductive VnodeType where
  | non
  | reg
  | dir
  | blk
  | chr
  | lnk
  | sock
  | fifo
  | bad
  deriving DecidableEq, Repr

/-- The bits of `file_perm` that a descriptor is opened by. -/
structure FilePerm where
  ownerRead : Bool
  ownerWrite : Bool
  groupRead : Bool
  groupWrite : Bool
  otherRead : Bool
  otherWrite : Bool
  deriving DecidableEq, Repr

/-- The area behind `pagecache.data`: its pages, and which of them are committed. -/
structure CacheData where
  pages : ℕ
  populated : ℕ → Bool
  bytes : ByteMem

structure Vnode where
  vtype : VnodeType
  /-- `partitions[0].off`, when `VFLAGS_PARTITION` is set. -/
  partitionOff : Option ℕ
  perm : FilePerm
  ownerUid : ℕ
  groupUid : ℕ
  filesize : ℕ
  pagecache : PageCache
  data : Option CacheData

/-- `base_offset`. -/
def Vnode.baseOffset (vn : Vnode) : ℕ := vn.partitionOff.getD 0

/-- Whether `driver` is not null. -/
def Vnode.hasDriver (vn : Vnode) : Bool := vn.vtype = .reg || vn.vtype = .chr || vn.vtype = .blk

/-- The bits of `FD_FLAGS_OPEN`, `FD_FLAGS_READ`, `FD_FLAGS_WRITE` and
`FD_FLAGS_UNCACHED`. -/
def openBit : ℕ := 0

def readBit : ℕ := 1

def writeBit : ℕ := 2

def uncachedBit : ℕ := 3

structure Fd where
  flags : BitVec 32
  offset : ℕ
  deriving DecidableEq, Repr

namespace Fd

def isOpen (f : Fd) : Bool := f.flags.getLsbD openBit

def canRead (f : Fd) : Bool := f.flags.getLsbD readBit

def canWrite (f : Fd) : Bool := f.flags.getLsbD writeBit

def uncached (f : Fd) : Bool := f.flags.getLsbD uncachedBit

end Fd

/-- The permissions `Vfs_FdOpenVnode` looks at: the owner's, the group's or the
others'. -/
def Vnode.grants (vn : Vnode) (uid gid : ℕ) : Bool × Bool :=
  if vn.ownerUid = uid then (vn.perm.ownerRead, vn.perm.ownerWrite)
  else if vn.groupUid = gid then (vn.perm.groupRead, vn.perm.groupWrite)
  else (vn.perm.otherRead, vn.perm.otherWrite)

/-- `Vfs_FdOpenVnode` by a process with the identity `uid`, `gid`.  Where a
permission is missing the flags are masked with `FD_FLAGS_READ`.  A character
device sets a bit of `oflags` that nothing looks at. -/
def fdOpenVnode (vn : Vnode) (desc : Fd) (uid gid : ℕ) (oflags : BitVec 32) : Fd × Status :=
  if desc.isOpen then (desc, .alreadyInitialized)
  else if vn.vtype = .dir then (desc, .notAFile)
  else
    let oflags := if vn.vtype = .chr then oflags ||| 8#32 else oflags
    let flags := desc.flags ||| 1#32 ||| 2#32 ||| 4#32
    let flags := if !(vn.grants uid gid).1 then flags &&& 2#32 else flags
    let flags := if !(vn.grants uid gid).2 then flags &&& 2#32 else flags
    let flags := if oflags.getLsbD 0 then flags &&& ~~~4#32 else flags
    let flags := if oflags.getLsbD 1 then flags ||| 8#32 else flags
    (⟨flags ||| 1#32, desc.offset⟩, .success)

/-- `is_eof`. -/
def isEof (vn : Vnode) (off : ℕ) : Bool := vn.vtype = .reg && decide (vn.filesize < off)

/-! ### The system -/

/-- A call of the driver's `read_sync` or `write_sync`. -/
structure Call where
  block : ℕ
  count : ℕ
  deriving DecidableEq, Repr

/-- The vnode, its descriptors and its device.  `frames` is what the frames hold that
are going to be committed to the page cache. -/
structure State (D : Type*) where
  vn : Vnode
  fd : D → Fd
  blkSize : ℕ
  device : ByteMem
  frames : ByteMem
  calls : List Call
  written : List Span

variable {D : Type*}

namespace State

section

variable (s : State D)

def setData (data : CacheData) : State D :=
  { s with vn := { s.vn with data := some data } }

def setDirty (pagecache : PageCache) : State D :=
  { s with vn := { s.vn with pagecache := pagecache } }

def setFilesize (filesize : ℕ) : State D :=
  { s with vn := { s.vn with filesize := filesize } }

def setDevice (device : ByteMem) : State D := { s with device := device }

def setWritten (written : List Span) : State D := { s with written := written }

def called (calls : List Call) : State D := { s with calls := s.calls ++ calls }

end

def setOffset [DecidableEq D] (s : State D) (d : D) (offset : ℕ) : State D :=
  { s with fd := Function.update s.fd d { s.fd d with offset := offset } }

end State

/-! ### The page cache -/

/-- The pages that the loop of `VfsH_PageCacheGetEntry` looks at: its `top` is
counted from the start of the first page. -/
def scanned (offset size : ℕ) : List ℕ :=
  (List.range ((size + (pageSize - 1)) / pageSize)).map fun i => offset / pageSize + i

/-- The pages that `n` bytes from `offset` on lie on. -/
def touched (offset n : ℕ) : List ℕ :=
  if n = 0 then []
  else List.range' (offset / pageSize) ((offset + n - 1) / pageSize - offset / pageSize + 1)

/-- The reservation at the first use: there is none for an empty file. -/
def reserve (filesize : ℕ) (frames : ByteMem) : Option CacheData :=
  if filesize = 0 then none
  else some ⟨(filesize + (pageSize - 1)) / pageSize, fun _ => false, frames⟩

section

variable (s : State D)

/-- The call that fills page `k` of the cache. -/
def fillCall (k : ℕ) : Call :=
  ⟨u64 (k * pageSize + s.vn.baseOffset) / s.blkSize, pageSize / s.blkSize⟩

/-- Commit page `k` and read it from the device. -/
def fill (a : CacheData) (k : ℕ) : CacheData :=
  let c := fillCall s k
  { a with
    populated := Function.update a.populated k true
    bytes := a.bytes.transfer (k * pageSize) s.device (c.block * s.blkSize) (c.count * s.blkSize) }

/-- The area, reserved if it has not been. -/
def cacheData : Option CacheData :=
  s.vn.data.or (reserve s.vn.filesize s.frames)

/-- The list `emptyPages`. -/
def emptyPages (a : CacheData) (offset size : ℕ) : List ℕ :=
  (scanned offset size).filter fun k => !a.populated k

/-- `VfsH_PageCacheGetEntry`.  It reads the tree of the kernel's pages for each page
it looks at, and faults on one that is not there. -/
def pageCacheGetEntry (offset size : ℕ) : Option (State D) :=
  if !s.vn.hasDriver then none
  else match cacheData s with
    | none => if scanned offset size = [] then some s else none
    | some a =>
      if (scanned offset size).any fun k => a.pages ≤ k then none
      else
        some ((s.setData ((emptyPages a offset size).foldl (fill s) a)).called
          ((emptyPages a offset size).map (fillCall s)))

/-- The `memcpy` from the page cache. -/
def cacheRead (offset n : ℕ) : Option (List UInt8) :=
  if n = 0 then some []
  else match s.vn.data with
    | none => none
    | some a => if (touched offset n).all a.populated then some (a.bytes.slice offset n) else none

/-- The `memcpy` to the page cache. -/
def cacheWrite (offset : ℕ) (bs : List UInt8) : Option (State D) :=
  match s.vn.data with
  | none => none
  | some a =>
    if (touched offset bs.length).all a.populated then
      some (s.setData { a with bytes := a.bytes.write offset bs })
    else none

/-- The call that writes a dirty region back, in whole blocks. -/
def flushCall (r : DirtyRegion) : Call :=
  ⟨u64 (r.fileoff + s.vn.baseOffset) / s.blkSize, r.sz / s.blkSize⟩

/-- `write_sync` of a dirty region. -/
def flushRegion (a : CacheData) (device : ByteMem) (r : DirtyRegion) : ByteMem :=
  let c := flushCall s r
  device.transfer (c.block * s.blkSize) a.bytes r.fileoff (c.count * s.blkSize)

/-- `VfsH_PageCacheFlush`. -/
def pageCacheFlush : Option (State D) :=
  if !s.vn.hasDriver then none
  else match s.vn.data, s.vn.pagecache.dirtyRegions with
    | _, [] => some (s.setWritten [])
    | none, _ :: _ => none
    | some a, r :: rs =>
      let regions := r :: rs
      some ((((s.setDevice (regions.foldl (flushRegion s a) s.device)).setDirty ⟨[]⟩).setWritten
        []).called (regions.map (flushCall s)))

/-! ### Seeking, reading and writing -/

inductive Whence where
  | cur
  | set
  | ending
  deriving DecidableEq, Repr

/-- An `off_t` as a `size_t`. -/
def toU64 (off : ℤ) : ℕ := (off % 2 ^ 64).toNat

def roundDown (x blkSize : ℕ) : ℕ := x - x % blkSize

/-- The `finalOff` of `Vfs_FdSeek`. -/
def finalOff (offset off : ℕ) : Whence → ℕ
  | .set => off
  | .ending => roundDown (u64 (s.vn.filesize + (2 ^ 64 - 1) + off)) s.blkSize
  | .cur => roundDown (u64 (offset + off)) s.blkSize

end

variable [DecidableEq D]

section

variable (s : State D)

variable (d : D)

/-- `Vfs_FdSeek`. -/
def fdSeek (off : ℤ) (whence : Whence) : Option (State D × Status) :=
  if !(s.fd d).isOpen then some (s, .uninitialized)
  else if !s.vn.hasDriver then none
  else if toU64 off % s.blkSize ≠ 0 then some (s, .invalidArgument)
  else if isEof s.vn (finalOff s (s.fd d).offset (toU64 off) whence) then some (s, .eof)
  else some (s.setOffset d (finalOff s (s.fd d).offset (toU64 off) whence), .success)

/-- The seek behind a transfer of `n` bytes, whose status nobody looks at. -/
def advance (n : ℕ) : Option (State D) := (fdSeek s d n .cur).map Prod.fst

/-- The call of an uncached transfer of `n` bytes. -/
def uncachedCall (n : ℕ) : Call :=
  ⟨u64 ((s.fd d).offset + s.vn.baseOffset) / s.blkSize, n / s.blkSize⟩

/-- What a read returns: its status, and the bytes it has put into the buffer. -/
structure ReadResult where
  status : Status
  bytes : List UInt8
  deriving DecidableEq, Repr

/-- What a write returns: its status, and `*nWritten`. -/
structure WriteResult where
  status : Status
  count : ℕ
  deriving DecidableEq, Repr

/-- `do_uncached_read`; `ok` is the driver's answer. -/
def doUncachedRead (n : ℕ) (ok : Bool) : Option (State D × ReadResult) :=
  if !s.vn.hasDriver then none
  else if n % s.blkSize ≠ 0 then some (s, ⟨.invalidArgument, []⟩)
  else if ok then some (s.called [uncachedCall s d n],
    ⟨.success, s.device.slice ((uncachedCall s d n).block * s.blkSize) n⟩)
  else some (s.called [uncachedCall s d n], ⟨.internalError, []⟩)

/-- The cached half of `Vfs_FdRead`. -/
def doCachedRead (n : ℕ) : Option (State D × ReadResult) :=
  match pageCacheGetEntry s (s.fd d).offset n with
  | none => none
  | some s' => (cacheRead s' (s.fd d).offset n).map fun bs => (s', ⟨.success, bs⟩)

/-- The transfer of `n` bytes in `Vfs_FdRead`. -/
def doRead (n : ℕ) (ok : Bool) : Option (State D × ReadResult) :=
  if (s.fd d).uncached then doUncachedRead s d n ok else doCachedRead s d n

/-- How much of a regular file there is to read. -/
def truncated (vn : Vnode) (offset nBytes : ℕ) : ℕ :=
  if u64sub vn.filesize offset < nBytes ∧ vn.vtype = .reg then u64sub vn.filesize offset
  else nBytes

/-- The end of `Vfs_FdRead`. -/
def finishRead (n : ℕ) (x : State D × ReadResult) : Option (State D × ReadResult) :=
  if x.2.status = .success then (advance x.1 d n).map fun s => (s, x.2) else some x

/-- `Vfs_FdRead`. -/
def fdRead (nBytes : ℕ) (ok : Bool) : Option (State D × ReadResult) :=
  if !(s.fd d).isOpen then some (s, ⟨.uninitialized, []⟩)
  else if nBytes = 0 then some (s, ⟨.success, []⟩)
  else if isEof s.vn (s.fd d).offset then some (s, ⟨.eof, []⟩)
  else if !(s.fd d).canRead then some (s, ⟨.accessDenied, []⟩)
  else
    let n := truncated s.vn (s.fd d).offset nBytes
    (doRead s d n ok).bind (finishRead d n)

variable (buf : List UInt8)

/-- `do_uncached_write`. -/
def doUncachedWrite (ok : Bool) :
    Option (State D × WriteResult) :=
  if !s.vn.hasDriver then none
  else if buf.length % s.blkSize ≠ 0 then some (s, ⟨.invalidArgument, 0⟩)
  else if ok then
    some ((s.called [uncachedCall s d buf.length]).setDevice
      (s.device.write ((uncachedCall s d buf.length).block * s.blkSize) buf),
      ⟨.success, buf.length⟩)
  else some (s.called [uncachedCall s d buf.length], ⟨.internalError, 0⟩)

/-- The vnode behind `VfsH_PCDirtyRegionCreate`. -/
def markDirty (offset n : ℕ) : State D :=
  s.setDirty (pcDirtyRegionCreate s.vn.pagecache offset n).1

/-- The cached half of `Vfs_FdWrite`. -/
def doCachedWrite : Option (State D × WriteResult) :=
  match pageCacheGetEntry (markDirty s (s.fd d).offset buf.length) (s.fd d).offset buf.length with
  | none => none
  | some s' => (cacheWrite s' (s.fd d).offset buf).map fun s' =>
    (s'.setWritten (⟨(s.fd d).offset, buf.length⟩ :: s'.written), ⟨.success, buf.length⟩)

/-- The transfer in `Vfs_FdWrite`. -/
def doWrite (ok : Bool) : Option (State D × WriteResult) :=
  if (s.fd d).uncached then doUncachedWrite s d buf ok else doCachedWrite s d buf

/-- The size of a file behind a write of `n` bytes at `offset`. -/
def grown (vn : Vnode) (offset n : ℕ) : ℕ :=
  if u64sub vn.filesize offset < n ∧ vn.vtype = .reg then
    u64 (vn.filesize + (n - u64sub vn.filesize offset))
  else vn.filesize

/-- The end of `Vfs_FdWrite`. -/
def finishWrite (n : ℕ) (x : State D × WriteResult) : Option (State D × WriteResult) :=
  if x.2.status = .success then
    (advance (x.1.setFilesize (grown x.1.vn (x.1.fd d).offset n)) d n).map fun s => (s, x.2)
  else some x

/-- `Vfs_FdWrite`. -/
def fdWrite (ok : Bool) :
    Option (State D × WriteResult) :=
  if !(s.fd d).isOpen then some (s, ⟨.uninitialized, 0⟩)
  else if buf.length = 0 then some (s, ⟨.success, 0⟩)
  else if isEof s.vn (s.fd d).offset then some (s, ⟨.eof, 0⟩)
  else if !(s.fd d).canWrite then some (s, ⟨.accessDenied, 0⟩)
  else (doWrite s d buf ok).bind (finishWrite d buf.length)

end

/-! ### What a call can do -/

section Cases

variable {s s' : State D} {d : D} {n : ℕ} {ok : Bool}

omit [DecidableEq D] in
theorem pageCacheGetEntry_cases {offset size : ℕ} (h : pageCacheGetEntry s offset size = some s') :
    s.vn.hasDriver = true ∧ ((cacheData s = none ∧ scanned offset size = [] ∧ s' = s) ∨
      ∃ a, cacheData s = some a ∧ (∀ k ∈ scanned offset size, k < a.pages) ∧
        s' = (s.setData ((emptyPages a offset size).foldl (fill s) a)).called
          ((emptyPages a offset size).map (fillCall s))) := by
  rw [pageCacheGetEntry] at h
  split at h
  · cases h
  rename_i hdriver
  rw [Bool.not_eq_true', Bool.not_eq_false] at hdriver
  refine ⟨hdriver, ?_⟩
  split at h
  · rename_i hdata
    split_ifs at h with hscan
    exact .inl ⟨hdata, hscan, (Option.some.inj h).symm⟩
  · rename_i a hdata
    split_ifs at h with hpages
    refine .inr ⟨a, hdata, fun k hk => ?_, (Option.some.inj h).symm⟩
    by_contra hlt
    exact hpages (List.any_eq_true.mpr ⟨k, hk, decide_eq_true (Nat.not_lt.mp hlt)⟩)

omit [DecidableEq D] in
theorem cacheWrite_cases {offset : ℕ} {bs : List UInt8} (h : cacheWrite s offset bs = some s') :
    ∃ a, s.vn.data = some a ∧ (touched offset bs.length).all a.populated = true ∧
      s' = s.setData { a with bytes := a.bytes.write offset bs } := by
  rw [cacheWrite.eq_def] at h
  split at h
  · cases h
  · rename_i a ha
    split_ifs at h with hall
    exact ⟨a, ha, hall, (Option.some.inj h).symm⟩

/-- What holds of every descriptor after a seek of one. -/
theorem forall_setOffset (p : D → Fd → Prop) {off : ℕ} (hd : p d { s.fd d with offset := off })
    (h : ∀ d', p d' (s.fd d')) (d' : D) : p d' ((s.setOffset d off).fd d') :=
  (Function.forall_update_iff s.fd p).mpr ⟨hd, fun d' _ => h d'⟩ d'

/-- A seek that takes effect was by whole blocks and not past the end of the file. -/
theorem fdSeek_cases {off : ℤ} {whence : Whence} {st : Status}
    (h : fdSeek s d off whence = some (s', st)) :
    s' = s ∨ (toU64 off % s.blkSize = 0 ∧
      isEof s.vn (finalOff s (s.fd d).offset (toU64 off) whence) = false ∧
      s' = s.setOffset d (finalOff s (s.fd d).offset (toU64 off) whence)) := by
  rw [fdSeek] at h
  split_ifs at h with h1 h2 h3 h4
  iterate 3
    · exact .inl (Prod.mk.inj (Option.some.inj h)).1.symm
  · exact .inr ⟨not_not.mp h3, Bool.eq_false_iff.mpr h4, (Prod.mk.inj (Option.some.inj h)).1.symm⟩

/-- A seek of a file with a driver has a result. -/
theorem fdSeek_returns (hdriver : s.vn.hasDriver = true) (d : D) (off : ℤ) (whence : Whence) :
    ∃ r, fdSeek s d off whence = some r := by
  rw [fdSeek, hdriver]
  simp only [Bool.not_true, Bool.false_eq_true, if_false]
  split_ifs <;> exact ⟨_, rfl⟩

theorem advance_cases (h : advance s d n = some s') :
    s' = s ∨ (toU64 n % s.blkSize = 0 ∧
      isEof s.vn (finalOff s (s.fd d).offset (toU64 n) .cur) = false ∧
      s' = s.setOffset d (finalOff s (s.fd d).offset (toU64 n) .cur)) := by
  obtain ⟨⟨s1, st⟩, h1, rfl⟩ := Option.map_eq_some_iff.mp h
  exact fdSeek_cases h1

theorem finishRead_cases {x : State D × ReadResult} {r : ReadResult}
    (h : finishRead d n x = some (s', r)) :
    r = x.2 ∧ (advance x.1 d n = some s' ∨ (x.2.status ≠ .success ∧ s' = x.1)) := by
  rw [finishRead] at h
  split_ifs at h with hst
  · obtain ⟨s1, h1, he⟩ := Option.map_eq_some_iff.mp h
    cases he
    exact ⟨rfl, .inl h1⟩
  · cases h
    exact ⟨rfl, .inr ⟨hst, rfl⟩⟩

theorem finishWrite_cases {x : State D × WriteResult} {r : WriteResult}
    (h : finishWrite d n x = some (s', r)) :
    r = x.2 ∧ (advance (x.1.setFilesize (grown x.1.vn (x.1.fd d).offset n)) d n = some s' ∨
      (x.2.status ≠ .success ∧ s' = x.1)) := by
  rw [finishWrite] at h
  split_ifs at h with hst
  · obtain ⟨s1, h1, he⟩ := Option.map_eq_some_iff.mp h
    cases he
    exact ⟨rfl, .inl h1⟩
  · cases h
    exact ⟨rfl, .inr ⟨hst, rfl⟩⟩

/-- A read is turned away and changes nothing, or goes to the device or the cache. -/
theorem fdRead_cases {r : ReadResult} (h : fdRead s d n ok = some (s', r)) :
    (s' = s ∧ r.bytes = [] ∧
      (r.status = .accessDenied → (s.fd d).isOpen = true ∧ (s.fd d).canRead = false)) ∨
    ((s.fd d).isOpen = true ∧ n ≠ 0 ∧ isEof s.vn (s.fd d).offset = false ∧
      (s.fd d).canRead = true ∧ ∃ x,
        doRead s d (truncated s.vn (s.fd d).offset n) ok = some x ∧
        finishRead d (truncated s.vn (s.fd d).offset n) x = some (s', r)) := by
  rw [fdRead] at h
  split_ifs at h with h1 h2 h3 h4
  iterate 3
    · cases h
      exact .inl ⟨rfl, rfl, fun hf => by cases hf⟩
  · cases h
    rw [Bool.not_eq_true', Bool.not_eq_false] at h1
    rw [Bool.not_eq_true'] at h4
    exact .inl ⟨rfl, rfl, fun _ => ⟨h1, h4⟩⟩
  · rw [Bool.not_eq_true', Bool.not_eq_false] at h1 h4
    obtain ⟨x, hx, hfin⟩ := Option.bind_eq_some_iff.mp h
    exact .inr ⟨h1, h2, Bool.eq_false_iff.mpr h3, h4, x, hx, hfin⟩

/-- The same for a write. -/
theorem fdWrite_cases {buf : List UInt8} {r : WriteResult}
    (h : fdWrite s d buf ok = some (s', r)) :
    (s' = s ∧ r.count = 0 ∧
      (r.status = .accessDenied → (s.fd d).isOpen = true ∧ (s.fd d).canWrite = false)) ∨
    ((s.fd d).isOpen = true ∧ buf.length ≠ 0 ∧ isEof s.vn (s.fd d).offset = false ∧
      (s.fd d).canWrite = true ∧ ∃ x,
        doWrite s d buf ok = some x ∧ finishWrite d buf.length x = some (s', r)) := by
  rw [fdWrite] at h
  split_ifs at h with h1 h2 h3 h4
  iterate 3
    · cases h
      exact .inl ⟨rfl, rfl, fun hf => by cases hf⟩
  · cases h
    rw [Bool.not_eq_true', Bool.not_eq_false] at h1
    rw [Bool.not_eq_true'] at h4
    exact .inl ⟨rfl, rfl, fun _ => ⟨h1, h4⟩⟩
  · rw [Bool.not_eq_true', Bool.not_eq_false] at h1 h4
    obtain ⟨x, hx, hfin⟩ := Option.bind_eq_some_iff.mp h
    exact .inr ⟨h1, h2, Bool.eq_false_iff.mpr h3, h4, x, hx, hfin⟩

omit [DecidableEq D] in
theorem doUncachedRead_cases {x : State D × ReadResult} (h : doUncachedRead s d n ok = some x) :
    s.vn.hasDriver = true ∧ ((x = (s, ⟨.invalidArgument, []⟩) ∧ n % s.blkSize ≠ 0) ∨
      (n % s.blkSize = 0 ∧ x.1 = s.called [uncachedCall s d n] ∧
        (x.2 = ⟨.internalError, []⟩ ∨
          x.2 = ⟨.success, s.device.slice ((uncachedCall s d n).block * s.blkSize) n⟩))) := by
  rw [doUncachedRead] at h
  split_ifs at h with h1 h2 h3 <;> rw [Bool.not_eq_true', Bool.not_eq_false] at h1
  · exact ⟨h1, .inl ⟨(Option.some.inj h).symm, h2⟩⟩
  · cases h
    exact ⟨h1, .inr ⟨not_not.mp h2, rfl, .inr rfl⟩⟩
  · cases h
    exact ⟨h1, .inr ⟨not_not.mp h2, rfl, .inl rfl⟩⟩

omit [DecidableEq D] in
theorem doUncachedWrite_cases {buf : List UInt8} {x : State D × WriteResult}
    (h : doUncachedWrite s d buf ok = some x) :
    s.vn.hasDriver = true ∧
      ((x = (s, ⟨.invalidArgument, 0⟩) ∧ buf.length % s.blkSize ≠ 0) ∨
        (buf.length % s.blkSize = 0 ∧
          ((x.1 = s.called [uncachedCall s d buf.length] ∧ x.2 = ⟨.internalError, 0⟩) ∨
            (x.1 = (s.called [uncachedCall s d buf.length]).setDevice
                (s.device.write ((uncachedCall s d buf.length).block * s.blkSize) buf) ∧
              x.2 = ⟨.success, buf.length⟩)))) := by
  rw [doUncachedWrite] at h
  split_ifs at h with h1 h2 h3 <;> rw [Bool.not_eq_true', Bool.not_eq_false] at h1
  · exact ⟨h1, .inl ⟨(Option.some.inj h).symm, h2⟩⟩
  · cases h
    exact ⟨h1, .inr ⟨not_not.mp h2, .inr ⟨rfl, rfl⟩⟩⟩
  · cases h
    exact ⟨h1, .inr ⟨not_not.mp h2, .inl ⟨rfl, rfl⟩⟩⟩

omit [DecidableEq D] in
theorem doCachedRead_cases {x : State D × ReadResult} (h : doCachedRead s d n = some x) :
    pageCacheGetEntry s (s.fd d).offset n = some x.1 ∧
      ∃ bs, cacheRead x.1 (s.fd d).offset n = some bs ∧ x.2 = ⟨.success, bs⟩ := by
  rw [doCachedRead] at h
  split at h
  · cases h
  · rename_i s1 hentry
    obtain ⟨bs, hbs, rfl⟩ := Option.map_eq_some_iff.mp h
    exact ⟨hentry, bs, hbs, rfl⟩

omit [DecidableEq D] in
theorem doCachedWrite_cases {buf : List UInt8} {x : State D × WriteResult}
    (h : doCachedWrite s d buf = some x) :
    ∃ s1 s2, pageCacheGetEntry (markDirty s (s.fd d).offset buf.length) (s.fd d).offset
        buf.length = some s1 ∧
      cacheWrite s1 (s.fd d).offset buf = some s2 ∧
      x = (s2.setWritten (⟨(s.fd d).offset, buf.length⟩ :: s2.written),
        ⟨.success, buf.length⟩) := by
  rw [doCachedWrite] at h
  split at h
  · cases h
  · rename_i s1 hentry
    obtain ⟨s2, hs2, rfl⟩ := Option.map_eq_some_iff.mp h
    exact ⟨s1, s2, hentry, hs2, rfl⟩

end Cases

/-! ### Moving the offset -/

theorem isEof_eq_false {vn : Vnode} {off : ℕ} (h : vn.vtype = .reg → off ≤ vn.filesize) :
    isEof vn off = false := by
  by_cases hreg : vn.vtype = .reg
  · rw [isEof, decide_eq_false (Nat.not_lt.mpr (h hreg)), Bool.and_false]
  · rw [isEof, decide_eq_false hreg, Bool.false_and]

theorem toU64_ofNat {n : ℕ} (h : n < 2 ^ 64) : toU64 n = n := by
  rw [toU64]
  omega

theorem roundDown_of_dvd {x blk : ℕ} (h : blk ∣ x) : roundDown x blk = x := by
  rw [roundDown, Nat.mod_eq_zero_of_dvd h, Nat.sub_zero]

/-- The seek by `n` bytes within the file. -/
theorem advance_eq {s : State D} {d : D} (hopen : (s.fd d).isOpen = true)
    (hdriver : s.vn.hasDriver = true) (hoff : s.blkSize ∣ (s.fd d).offset) {n : ℕ}
    (hn : s.blkSize ∣ n) (hend : s.vn.vtype = .reg → (s.fd d).offset + n ≤ s.vn.filesize)
    (hlt : (s.fd d).offset + n < 2 ^ 64) :
    advance s d n = some (s.setOffset d ((s.fd d).offset + n)) := by
  have hfin : finalOff s (s.fd d).offset (toU64 n) .cur = (s.fd d).offset + n := by
    rw [finalOff, toU64_ofNat (by omega), u64_of_lt hlt, roundDown_of_dvd (Nat.dvd_add hoff hn)]
  have hmod : ¬ toU64 n % s.blkSize ≠ 0 := by
    rw [toU64_ofNat (by omega), not_not]
    exact Nat.mod_eq_zero_of_dvd hn
  rw [advance, fdSeek, hopen, hdriver, hfin, isEof_eq_false hend, if_neg hmod]
  rfl

/-! ### The area of the cache -/

section Area

omit [DecidableEq D]

variable {s s' : State D} {a : CacheData} {limit : ℕ}

theorem foldl_fill_pages (s : State D) (a : CacheData) (ks : List ℕ) :
    (ks.foldl (fill s) a).pages = a.pages := by
  induction ks generalizing a with
  | nil => rfl
  | cons k ks ih => exact ih (fill s a k)

/-- A page is committed afterwards if it was, or if it is one of those filled. -/
theorem foldl_fill_populated (s : State D) (a : CacheData) (ks : List ℕ) (k : ℕ) :
    (ks.foldl (fill s) a).populated k = true ↔ a.populated k = true ∨ k ∈ ks := by
  induction ks generalizing a with
  | nil => simp
  | cons k' ks ih =>
    rw [List.foldl_cons, ih, List.mem_cons]
    show Function.update a.populated k' true k = true ∨ k ∈ ks ↔ _
    by_cases hk : k = k'
    · simp [hk]
    · simp [hk]

/-- Only pages of the area are committed, and the area ends before `limit`. -/
structure AreaOk (s : State D) (limit : ℕ) : Prop where
  data : ∀ a, s.vn.data = some a →
    (∀ k, a.populated k = true → k < a.pages) ∧ a.pages * pageSize ≤ limit
  fresh : s.vn.data = none → (s.vn.filesize + (pageSize - 1)) / pageSize * pageSize ≤ limit

theorem AreaOk.cacheData (h : AreaOk s limit) (ha : cacheData s = some a) :
    (∀ k, a.populated k = true → k < a.pages) ∧ a.pages * pageSize ≤ limit := by
  cases hd : s.vn.data with
  | some a0 =>
    rw [Vfs.cacheData, hd] at ha
    exact h.data a (hd.trans ha)
  | none =>
    rw [Vfs.cacheData, hd, Option.none_or, reserve] at ha
    split_ifs at ha
    rw [← Option.some.inj ha]
    exact ⟨fun k hk => (by cases hk), h.fresh hd⟩

/-- Of the vnode only the area changes. -/
theorem pageCacheGetEntry_frame {offset n : ℕ} (hs : pageCacheGetEntry s offset n = some s') :
    s'.vn = { s.vn with data := s'.vn.data } ∧ s'.fd = s.fd ∧ s'.blkSize = s.blkSize ∧
      s'.device = s.device ∧ s'.written = s.written := by
  obtain ⟨-, ⟨-, -, rfl⟩ | ⟨a, -, -, rfl⟩⟩ := pageCacheGetEntry_cases hs
  · exact ⟨rfl, rfl, rfl, rfl, rfl⟩
  · exact ⟨rfl, rfl, rfl, rfl, rfl⟩

theorem AreaOk.getEntry (h : AreaOk s limit) {offset n : ℕ}
    (hs : pageCacheGetEntry s offset n = some s') : AreaOk s' limit := by
  obtain ⟨-, ⟨-, -, rfl⟩ | ⟨a, ha, hscan, rfl⟩⟩ := pageCacheGetEntry_cases hs
  · exact h
  · obtain ⟨hpop, hlim⟩ := h.cacheData ha
    refine ⟨fun a' ha' => ?_, nofun⟩
    cases ha'
    rw [foldl_fill_pages]
    refine ⟨fun k hk => ?_, hlim⟩
    rcases (foldl_fill_populated s a _ k).mp hk with hold | hnew
    · exact hpop k hold
    · exact hscan k (List.mem_filter.mp hnew).1

theorem mem_touched {offset n k : ℕ} :
    k ∈ touched offset n ↔ n ≠ 0 ∧ offset / pageSize ≤ k ∧ k ≤ (offset + n - 1) / pageSize := by
  rw [touched]
  split_ifs with hn
  · simp [hn]
  · have hle : offset / pageSize ≤ (offset + n - 1) / pageSize :=
      Nat.div_le_div_right (by omega)
    rw [List.mem_range'_1]
    omega

theorem div_mem_touched {offset n x : ℕ} (h1 : offset ≤ x) (h2 : x < offset + n) :
    x / pageSize ∈ touched offset n :=
  mem_touched.mpr ⟨by omega, Nat.div_le_div_right h1, Nat.div_le_div_right (by omega)⟩

/-- The bytes that a `memcpy` reaches without a fault lie within the area. -/
theorem end_le_of_touched {offset n : ℕ} (hn : n ≠ 0)
    (hall : (touched offset n).all a.populated = true)
    (hpop : ∀ k, a.populated k = true → k < a.pages) : offset + n ≤ a.pages * pageSize := by
  have hlast : (offset + n - 1) / pageSize ∈ touched offset n :=
    mem_touched.mpr ⟨hn, Nat.div_le_div_right (by omega), le_rfl⟩
  have hlt := hpop _ (List.all_eq_true.mp hall _ hlast)
  have hmul := (Nat.div_lt_iff_lt_mul (show 0 < pageSize by decide)).mp hlt
  omega

end Area

/-! ### Transfers that return -/

section Returns

omit [DecidableEq D]

variable {s : State D} {a : CacheData}

def isPopulated (s : State D) (k : ℕ) : Bool :=
  match s.vn.data with
  | some a => a.populated k
  | none => false

/-- The scan of the page cache misses no page of the transfer that is not there. -/
def reachable (s : State D) (offset n : ℕ) : Bool :=
  (touched offset n).all fun k => isPopulated s k || (scanned offset n).contains k

/-- The size of the area, reserved or about to be. -/
def areaSize (s : State D) : ℕ := ((cacheData s).map CacheData.pages).getD 0 * pageSize

theorem mem_scanned {offset n k : ℕ} : k ∈ scanned offset n ↔
    offset / pageSize ≤ k ∧ k < offset / pageSize + (n + (pageSize - 1)) / pageSize := by
  rw [scanned, List.mem_map]
  constructor
  · rintro ⟨i, hi, rfl⟩
    rw [List.mem_range] at hi
    omega
  · rintro ⟨h1, h2⟩
    exact ⟨k - offset / pageSize, List.mem_range.mpr (by omega), by omega⟩

/-- The pages the scan looks at start before the end of the transfer. -/
theorem lt_of_mem_scanned {offset n k : ℕ} (h : k ∈ scanned offset n) :
    k * pageSize < offset + n := by
  obtain ⟨h1, h2⟩ := mem_scanned.mp h
  have hpos : 0 < pageSize := by decide
  have hle : (k - offset / pageSize) * pageSize < n := by
    by_contra hge
    rw [Nat.not_lt] at hge
    have hdiv := Nat.div_le_div_right (c := pageSize) (Nat.add_le_add_right hge (pageSize - 1))
    have hceil : ((k - offset / pageSize) * pageSize + (pageSize - 1)) / pageSize =
        k - offset / pageSize := by
      rw [Nat.add_comm, Nat.add_mul_div_right _ _ hpos, Nat.div_eq_of_lt (by omega), Nat.zero_add]
    omega
  have hfloor := Nat.div_mul_le_self offset pageSize
  have hsplit : k * pageSize = (k - offset / pageSize) * pageSize +
      offset / pageSize * pageSize := by
    rw [← Nat.add_mul, Nat.sub_add_cancel h1]
  omega

theorem fill_emptyPages_populated {offset n k : ℕ} :
    ((emptyPages a offset n).foldl (fill s) a).populated k = true ↔
      a.populated k = true ∨ k ∈ scanned offset n := by
  rw [foldl_fill_populated, emptyPages, List.mem_filter]
  cases a.populated k <;> simp

/-- `VfsH_PageCacheGetEntry` for a range of the area. -/
theorem pageCacheGetEntry_eq {offset n : ℕ} (hdriver : s.vn.hasDriver = true)
    (ha : cacheData s = some a) (hin : offset + n ≤ a.pages * pageSize) :
    pageCacheGetEntry s offset n =
      some ((s.setData ((emptyPages a offset n).foldl (fill s) a)).called
        ((emptyPages a offset n).map (fillCall s))) := by
  have hany : ¬ ((scanned offset n).any fun k => a.pages ≤ k) = true := by
    simp only [List.any_eq_true, decide_eq_true_eq, not_exists, not_and, not_le]
    exact fun k hk => Nat.lt_of_mul_lt_mul_right (lt_of_lt_of_le (lt_of_mem_scanned hk) hin)
  rw [pageCacheGetEntry, hdriver, ha]
  simp only [Bool.not_true, Bool.false_eq_true, if_false, if_neg hany]

theorem isPopulated_cacheData (ha : cacheData s = some a) (k : ℕ) :
    a.populated k = isPopulated s k := by
  cases hd : s.vn.data with
  | some a0 =>
    rw [cacheData, hd] at ha
    cases ha
    rw [isPopulated, hd]
  | none =>
    rw [cacheData, hd, Option.none_or, reserve] at ha
    split_ifs at ha
    rw [← Option.some.inj ha, isPopulated, hd]

/-- A transfer within the area whose pages the scan does not miss: the entry is there, and
the `memcpy` does not fault. -/
theorem pageCacheGetEntry_returns {offset n : ℕ} (hdriver : s.vn.hasDriver = true)
    (hn : n ≠ 0) (hin : offset + n ≤ areaSize s) (hreach : reachable s offset n = true) :
    ∃ s' a, pageCacheGetEntry s offset n = some s' ∧ s'.vn.data = some a ∧
      (touched offset n).all a.populated = true := by
  cases hd : cacheData s with
  | none =>
    rw [areaSize, hd, Option.map_none, Option.getD_none, Nat.zero_mul] at hin
    omega
  | some a =>
    rw [areaSize, hd, Option.map_some, Option.getD_some] at hin
    refine ⟨_, _, pageCacheGetEntry_eq hdriver hd hin, rfl, List.all_eq_true.mpr fun k hk => ?_⟩
    have hk' := List.all_eq_true.mp hreach k hk
    rw [Bool.or_eq_true, List.contains_iff_mem, ← isPopulated_cacheData hd] at hk'
    exact fill_emptyPages_populated.mpr hk'

end Returns

/-! ### Runs -/

inductive Op (D : Type*) where
  | read (d : D) (nBytes : ℕ) (ok : Bool)
  | write (d : D) (buf : List UInt8) (ok : Bool)
  | seek (d : D) (off : ℤ) (whence : Whence)
  | flush

def step (s : State D) : Op D → Option (State D)
  | .read d n ok => (fdRead s d n ok).map Prod.fst
  | .write d buf ok => (fdWrite s d buf ok).map Prod.fst
  | .seek d off whence => (fdSeek s d off whence).map Prod.fst
  | .flush => pageCacheFlush s

end Obos.Vfs
