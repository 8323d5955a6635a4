/-
Swap files (`mm/disk_swap.c`).

A swap file starts with a header of one block; behind it lies the data area.  Its free
space is a doubly linked list on the disk: the record of a free region stands at the
region's start and links to the records before and behind it by byte offsets in the file.
`MmH_InitializeDiskSwap` formats a file, `MmH_InitializeDiskSwapDevice` mounts it and keeps
a copy of the header, and `swap_resv`, `swap_free`, `swap_write` and `swap_read` go to the
driver directly, in whole blocks.

Headers, records and buffers are byte memories that start at zero.  The bytes of
`metadata` from `headerBytes` on are what lies behind the header in the kernel's memory.
Where the source copies more into a buffer than it has room for there is no result.

`live` and `contents` are history: the reservations that were given out and not freed, and
what the device held after each write since the file was mounted, which is what a power
cut can leave.
-/
import Obos.FileIo
import Obos.Lib.Loop

namespace Obos.DiskSwap

open Vfs

/-! ### The layout on the disk -/

/-- `sizeof(obos_swap_header)`. -/
def headerBytes : ℕ := 128

/-- `sizeof(obos_swap_free_region)`. -/
def regionBytes : ℕ := 32

/-- `OBOS_SWAP_HEADER_MAGIC` of the x86-64 build. -/
def headerMagic : ℕ := 0x50A9DE61

/-- `OBOS_SWAP_HEADER_VERSION`. -/
def headerVersion : ℕ := 1

/-! The fields of `obos_swap_header`. -/

namespace Header

def headerSize (h : ByteMem) : ℕ := h.load64 0

def size (h : ByteMem) : ℕ := h.load64 8

def head (h : ByteMem) : ℕ := h.load64 16

def tail (h : ByteMem) : ℕ := h.load64 24

def nNodes (h : ByteMem) : ℕ := h.load64 32

def freeBytes (h : ByteMem) : ℕ := h.load64 40

def flags (h : ByteMem) : ℕ := h.load 48 4

def version (h : ByteMem) : ℕ := h.load 52 4

def magic (h : ByteMem) : ℕ := h.load 56 4

/-- `OBOS_SWAP_HEADER_DIRTY` is set. -/
def dirty (h : ByteMem) : Bool := (flags h).testBit 0

end Header

/-! The fields of `obos_swap_free_region`. -/

namespace Region

def next (r : ByteMem) : ℕ := r.load64 0

def prev (r : ByteMem) : ℕ := r.load64 8

def size (r : ByteMem) : ℕ := r.load64 16

def sizeofThis (r : ByteMem) : ℕ := r.load64 24

end Region

/-- `x`, rounded up to whole blocks as the source does it. -/
def roundUp (x blkSize : ℕ) : ℕ := if x % blkSize ≠ 0 then x + (blkSize - x % blkSize) else x

/-- The zeroed block that a header or a record is copied into. -/
def blockOf (m : ByteMem) (n : ℕ) : ByteMem := ByteMem.overwrite (fun _ => 0) ⟨0, n⟩ m

/-! ### Formatting -/

/-- The header that `MmH_InitializeDiskSwap` writes. -/
def formatHeader (filesize blkSize : ℕ) : ByteMem :=
  let hsize := roundUp headerBytes blkSize
  let size := u64sub filesize hsize
  let zero : ByteMem := fun _ => 0
  ((((((((zero.store64 0 hsize).store64 8 size).store64 16 hsize).store64 24 hsize).store64 32
    1).store64 40 (u64sub size hsize)).store 48 4 0).store 52 4 headerVersion).store 56 4 headerMagic

/-- The record of the one free region. -/
def formatRegion (filesize blkSize : ℕ) : ByteMem :=
  let hsize := roundUp headerBytes blkSize
  let zero : ByteMem := fun _ => 0
  (zero.store64 16 (u64sub (u64sub filesize hsize) hsize)).store64 24 (roundUp regionBytes blkSize)

/-- `Vfs_FdOpenVnode` with `FD_OFLAGS_UNCACHED`, on a descriptor of the stack. -/
def openFile (s : State Unit) (uid gid : ℕ) : State Unit × Status :=
  let r := fdOpenVnode s.vn ⟨0#32, 0⟩ uid gid 2#32
  ({ s with fd := fun _ => r.1 }, r.2)

/-- `Vfs_FdSeek` to the start of the file and a `Vfs_FdWrite` of one block; nobody looks at
their statuses. -/
def writeFirst (s : State Unit) (block : ByteMem) : Option (State Unit) :=
  (fdSeek s () 0 .set).bind fun r =>
    (fdWrite r.1 () (block.slice 0 s.blkSize) true).map Prod.fst

/-- `MmH_InitializeDiskSwap`.  The buffer has the size of a block, and the header is copied
into it whatever that is. -/
def initializeDiskSwap (s : State Unit) (uid gid : ℕ) : Option (State Unit × Status) :=
  let filesize := s.vn.filesize
  if filesize = headerBytes then some (s, .invalidArgument)
  else
    let r := openFile s uid gid
    if r.2 ≠ .success then some r
    else if !s.vn.hasDriver || decide (s.blkSize < headerBytes) then none
    else
      (writeFirst r.1 (blockOf (formatHeader filesize s.blkSize) headerBytes)).bind fun s' =>
        (fdWrite s' () ((blockOf (formatRegion filesize s.blkSize) regionBytes).slice 0 s.blkSize)
          true).map fun w => (w.1, .success)

/-! ### The mounted device -/

/-- The file, the header that `dev->metadata` holds once the file is mounted, and the
history. -/
structure Swap where
  io : State Unit
  metadata : Option ByteMem
  live : List Span
  contents : List ByteMem

namespace Swap

variable (s : Swap)

def setMetadata (hdr : ByteMem) : Swap := { s with metadata := some hdr }

def setLive (live : List Span) : Swap := { s with live := live }

def setIo (io : State Unit) : Swap := { s with io := io }

/-- A device write, and its place in the history. -/
def written (io : State Unit) : Swap :=
  { s with io := io, contents := s.contents ++ [io.device] }

/-- The block of the byte `off` of the file. -/
def blockAt (off : ℕ) : ℕ := u64 (off + s.io.vn.baseOffset) / s.io.blkSize

/-- `access_size`. -/
def accessSize : ℕ := roundUp regionBytes s.io.blkSize

/-- `read_sync` of `access_size` bytes at the block `offset`. -/
def readRegion (offset : ℕ) : ByteMem :=
  blockOf (fun x => s.io.device (offset * s.io.blkSize + x))
    (s.accessSize / s.io.blkSize * s.io.blkSize)

/-- `write_sync` of `count` blocks of `buf` at the block `offset`. -/
def writeBlocks (offset count : ℕ) (buf : ByteMem) : Swap :=
  s.written (s.io.setDevice
    (s.io.device.transfer (offset * s.io.blkSize) buf 0 (count * s.io.blkSize)))

/-- `write_sync` of `access_size` bytes. -/
def writeRegion (offset : ℕ) (buf : ByteMem) : Swap :=
  s.writeBlocks offset (s.accessSize / s.io.blkSize) buf

end Swap

/-- What a header must be like for the file to be mounted. -/
def headerStatus (hdr : ByteMem) (filesize blkSize : ℕ) : Status :=
  if Header.magic hdr ≠ headerMagic then .invalidFile
  else if Header.headerSize hdr < headerBytes ∨
      (if blkSize = 1 then headerBytes < Header.headerSize hdr
        else blkSize < Header.headerSize hdr) then .invalidFile
  else if u64sub filesize (Header.headerSize hdr) < Header.size hdr then .invalidFile
  else if headerVersion < Header.version hdr then .mismatch
  else .success

/-- The header that is written back and kept.  A dirty one gets a new free list and is clean
from then on: the record of the new free region is set up on the stack and never written, and
`freeBytes` stays as it was. -/
def mountedHeader (hdr : ByteMem) : ByteMem :=
  if Header.dirty hdr then
    (((hdr.store64 16 (Header.headerSize hdr)).store64 24 (Header.headerSize hdr)).store64 32
      1).store 48 4 (Header.flags hdr &&& 0xFFFFFFFE)
  else hdr.store 48 4 (Header.flags hdr ||| 1)

section

variable (s : Swap)

/-- `MmH_InitializeDiskSwapDevice`; `behind` is the memory that `metadata` is put into. -/
def initializeDiskSwapDevice (uid gid : ℕ) (behind : ByteMem) : Option (Swap × Status) :=
  let r := openFile s.io uid gid
  if r.2 ≠ .success then some (s.setIo r.1, r.2)
  else if !s.io.vn.hasDriver then none
  else if pageSize < s.io.blkSize then some (s.setIo r.1, .unimplemented)
  else
    (fdRead r.1 () s.io.blkSize true).bind fun rd =>
      if rd.2.status ≠ .success then some (s.setIo rd.1, rd.2.status)
      else if s.io.blkSize < headerBytes then none
      else
        let hdr := behind.overwrite ⟨0, headerBytes⟩ fun x => rd.2.bytes.getD x 0
        let st := headerStatus hdr rd.1.vn.filesize s.io.blkSize
        if st ≠ .success then some (s.setIo rd.1, st)
        else
          (writeFirst rd.1 (blockOf (mountedHeader hdr) headerBytes)).map fun io =>
            ((s.written io).setMetadata (mountedHeader hdr), .success)

/-! ### Reservations -/

/-- The variables of the loop of `swap_resv`. -/
structure Search where
  freeOff : ℕ
  offset : ℕ
  buf : ByteMem
  nBytes : ℕ
  addend : ℕ

/-- One round of the loop.  `free_off` moves on to the next record before the loop is left
with the one in the buffer. -/
def Search.round (x : Search) : Loop.Round Search Search :=
  if Region.size x.buf < x.nBytes ∧ x.freeOff ≠ 0 then
    let offset := s.blockAt x.freeOff
    let buf := s.readRegion offset
    if x.nBytes ≤ u64 (Region.size buf + regionBytes) then
      .done ⟨Region.next buf, offset, buf, u64sub x.nBytes regionBytes, u64sub x.addend regionBytes⟩
    else .again ⟨Region.next buf, offset, buf, x.nBytes, x.addend⟩
  else .done x

/-- The search of `swap_resv`, for at most `fuel` rounds. -/
def search (hdr : ByteMem) (nBytes fuel : ℕ) : Option Search :=
  let offset := s.blockAt (Header.head hdr)
  Loop.run (Search.round s) fuel ⟨Header.head hdr, offset, s.readRegion offset, nBytes, 0⟩

/-- A neighbour's link, in the record at the byte `off`. -/
def relink (off field v : ℕ) : Swap :=
  if off = 0 then s
  else s.writeRegion (s.blockAt off) ((s.readRegion (s.blockAt off)).store64 field v)

/-- The header behind the unlinking of the record in the block `offset`.  The header counts
in bytes, `offset` is a block. -/
def unlinkHeader (hdr : ByteMem) (offset next prev : ℕ) : ByteMem :=
  let hdr := if Header.head hdr = offset then hdr.store64 16 next else hdr
  if Header.tail hdr = offset then hdr.store64 24 prev else hdr

/-- "Unlink the node": its neighbours, and the header, which goes to block zero of the device
together with the memory behind it. -/
def unlink (hdr : ByteMem) (offset : ℕ) (buf : ByteMem) : Swap :=
  let s := relink s (Region.next buf) 8 (Region.prev buf)
  let s := relink s (Region.prev buf) 0 (Region.next buf)
  let hdr := unlinkHeader hdr offset (Region.next buf) (Region.prev buf)
  (s.setMetadata hdr).writeRegion 0 hdr

/-- What is left of a region of `size` bytes. -/
def remaining (size nBytes blkSize : ℕ) : ℕ := roundDown (u64sub size nBytes) blkSize

/-- `swap_resv` behind its loop. -/
def takeFrom (hdr : ByteMem) (nPages : ℕ) (x : Search) : Swap × Status :=
  if x.freeOff = 0 then (s, .notEnoughMemory)
  else
    let size := remaining (Region.size x.buf) x.nBytes s.io.blkSize
    let id := u64 (x.freeOff + size + x.addend)
    let s' := if size = 0 then unlink s hdr x.offset x.buf else s
    let buf := if size = 0 then x.buf.zero ⟨0, regionBytes⟩ else x.buf.store64 16 size
    ((s'.writeRegion x.offset buf).setLive (⟨id, nPages * pageSize⟩ :: s.live), .success)

/-- `swap_resv`. -/
def swapResv (nPages fuel : ℕ) : Option (Swap × Status) :=
  if nPages = 0 then some (s, .invalidArgument)
  else match s.metadata with
    | none => some (s, .invalidArgument)
    | some hdr =>
      if Header.magic hdr ≠ headerMagic then some (s, .invalidArgument)
      else if Header.freeBytes hdr < u64 (nPages * pageSize) then some (s, .notEnoughMemory)
      else (search s hdr (u64 (nPages * pageSize)) fuel).map (takeFrom s hdr nPages)

/-! ### Frees and writes -/

/-- The header when `swap_free` returns.  Its last two copies are made the wrong way round:
`head` and `tail` are set, and then the first bytes of the header are overwritten with the
zeroes of the buffer. -/
def freedHeader (hdr : ByteMem) (id : ℕ) : ByteMem :=
  ((if Header.head hdr = 0 then hdr.store64 16 id else hdr).store64 24 id).zero ⟨0, regionBytes⟩

/-- `swap_free`.  For the same reason the block of the region, which is written twice, is
zero both times. -/
def swapFree (id nPages : ℕ) : Swap × Status :=
  if id = 0 ∨ nPages = 0 then (s, .invalidArgument)
  else match s.metadata with
    | none => (s, .invalidArgument)
    | some hdr =>
      if Header.magic hdr ≠ headerMagic then (s, .invalidArgument)
      else
        let s' := relink s (Header.tail hdr) 0 id
        let s' := s'.writeRegion (s'.blockAt id) fun _ => 0
        let s' := s'.writeRegion (s'.blockAt id) fun _ => 0
        ((s'.setMetadata (freedHeader hdr id)).setLive (s.live.erase ⟨id, nPages * pageSize⟩),
          .success)

/-- `swap_write` of the pages whose bytes are `data`. -/
def swapWrite (id nPages offsetBytes : ℕ) (data : ByteMem) : Swap × Status :=
  if id = 0 ∨ nPages = 0 then (s, .invalidArgument)
  else match s.metadata with
    | none => (s, .invalidArgument)
    | some hdr =>
      if Header.magic hdr ≠ headerMagic then (s, .invalidArgument)
      else (s.writeBlocks (s.blockAt (id + offsetBytes))
        (u64 (nPages * pageSize) / s.io.blkSize) data, .success)

/-- `swap_read` into pages that hold `buf`.  The position is rounded up to a block, where
`swap_write` rounds it down. -/
def swapRead (id nPages offsetBytes : ℕ) (buf : ByteMem) : ByteMem × Status :=
  if id = 0 ∨ nPages = 0 then (buf, .invalidArgument)
  else match s.metadata with
    | none => (buf, .invalidArgument)
    | some hdr =>
      if Header.magic hdr ≠ headerMagic then (buf, .invalidArgument)
      else
        let offset := u64 (id + offsetBytes + s.io.vn.baseOffset)
        let block := u64 (roundUp offset s.io.blkSize) / s.io.blkSize
        (buf.transfer 0 s.io.device (block * s.io.blkSize)
          (u64 (nPages * pageSize) / s.io.blkSize * s.io.blkSize), .success)

end

/-! ### Runs -/

/-- The calls that change the free space. -/
inductive Call where
  | resv (nPages : ℕ)
  | free (id nPages : ℕ)
  deriving DecidableEq, Repr

def step (fuel : ℕ) (s : Swap) : Call → Option Swap
  | .resv nPages => (swapResv s nPages fuel).map Prod.fst
  | .free id nPages => some (swapFree s id nPages).1

/-- The calls a mounted device is used by. -/
inductive Op where
  | call (c : Call)
  | write (id nPages offsetBytes : ℕ) (data : ByteMem)

def opStep (fuel : ℕ) (s : Swap) : Op → Option Swap
  | .call c => step fuel s c
  | .write id nPages offsetBytes data => some (swapWrite s id nPages offsetBytes data).1

end Obos.DiskSwap
