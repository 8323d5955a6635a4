/-
The free space of a swap file.

`SpaceOk` is what the free space of a mounted swap file should be like after any calls: the
header keeps its magic and its sizes, the free regions form a well-linked list on the disk,
no reservation overlaps another one, the header or a record, reservations and free regions
make up the data area, and `freeBytes` is what is free.

A formatted and mounted file is like that if it has room for its header and the record.  No
call that does anything keeps it so: `swap_resv` leaves `freeBytes` as it is, and `swap_free`
overwrites the sizes in the header with zeroes.

* `fresh_mounted` — a file that was formatted and mounted,
* `spaceOk_iff` — the calls after which its space is sound are those that are refused.
-/
import Obos.DiskSwapMount
import Obos.Lib.DLinked
import Obos.Lib.Run

namespace Obos.DiskSwap

open Vfs List
open ByteMem (load64 load64_store64_apart load64_zero_within load_congr load_store_apart load_store_self store64)

/-! ### Fields of headers and records -/

theorem roundUp_headerBytes {n : ℕ} (h : headerBytes ≤ n) : roundUp headerBytes n = n := by
  rw [headerBytes] at h
  rw [roundUp, headerBytes]
  rcases Nat.eq_or_lt_of_le h with rfl | hlt
  · rfl
  · rw [Nat.mod_eq_of_lt hlt, if_pos (by decide)]
    omega

theorem roundUp_regionBytes {n : ℕ} (h : headerBytes ≤ n) : roundUp regionBytes n = n := by
  rw [headerBytes] at h
  rw [roundUp, regionBytes, Nat.mod_eq_of_lt (by omega), if_pos (by decide)]
  omega

/-- What is free in a file that has room for its header and a record. -/
theorem format_free_eq {filesize blkSize : ℕ} (hroom : 2 * blkSize ≤ filesize)
    (hlt : filesize < 2 ^ 64) :
    u64sub (u64sub filesize blkSize) blkSize = filesize - 2 * blkSize := by
  rw [u64sub_of_le (by omega) hlt, u64sub_of_le (by omega) (by omega)]
  omega

/-- The fields of the header that a format sets, its flags apart. -/
structure FormatFields (filesize blkSize : ℕ) (h : ByteMem) : Prop where
  headerSize : Header.headerSize h = blkSize
  size : Header.size h = u64sub filesize blkSize
  head : Header.head h = blkSize
  tail : Header.tail h = blkSize
  nNodes : Header.nNodes h = 1
  freeBytes : Header.freeBytes h = u64sub (u64sub filesize blkSize) blkSize
  version : Header.version h = headerVersion
  magic : Header.magic h = headerMagic

/-- The fields of the record of the one region. -/
structure RegionFields (filesize blkSize : ℕ) (r : ByteMem) : Prop where
  next : Region.next r = 0
  prev : Region.prev r = 0
  size : Region.size r = u64sub (u64sub filesize blkSize) blkSize
  sizeofThis : Region.sizeofThis r = blkSize

theorem formatFields_formatHeader {filesize blkSize : ℕ} (hblk : headerBytes ≤ blkSize)
    (hpage : blkSize < 2 ^ 64) : FormatFields filesize blkSize (formatHeader filesize blkSize) := by
  have hsize := u64sub_lt filesize blkSize
  have hfree := u64sub_lt (u64sub filesize blkSize) blkSize
  constructor <;>
    simp (disch := decide) only [Header.headerSize, Header.size, Header.head, Header.tail,
      Header.nNodes, Header.freeBytes, Header.version, Header.magic, formatHeader,
      roundUp_headerBytes hblk, load64, store64, load_store_apart,
      load_store_self] <;>
    first
      | exact Nat.mod_eq_of_lt (by norm_num at *; omega)
      | rfl

theorem flags_formatHeader (filesize blkSize : ℕ) :
    Header.flags (formatHeader filesize blkSize) = 0 := by
  simp (disch := decide) only [Header.flags, formatHeader, store64,
    load_store_apart, load_store_self]
  rfl

theorem regionFields_formatRegion {filesize blkSize : ℕ} (hblk : headerBytes ≤ blkSize)
    (hpage : blkSize < 2 ^ 64) : RegionFields filesize blkSize (formatRegion filesize blkSize) := by
  have hfree := u64sub_lt (u64sub filesize blkSize) blkSize
  constructor <;>
    simp (disch := decide) only [Region.next, Region.prev, Region.size, Region.sizeofThis,
      formatRegion, roundUp_headerBytes hblk, roundUp_regionBytes hblk, load64,
      store64, load_store_apart, load_store_self, ByteMem.load_zeroes] <;>
    exact Nat.mod_eq_of_lt (by norm_num at *; omega)

section fields

variable {filesize blkSize : ℕ} {m m' : ByteMem}

/-- The fields of a header lie in its first bytes. -/
theorem FormatFields.congr (h : FormatFields filesize blkSize m)
    (heq : ∀ x < headerBytes, m' x = m x) : FormatFields filesize blkSize m' := by
  have hload : ∀ a w, a + w ≤ headerBytes → m'.load a w = m.load a w := by
    intro a w hle
    refine load_congr fun x hx => heq x (lt_of_lt_of_le hx.2 hle)
  exact ⟨(hload 0 8 (by decide)).trans h.headerSize, (hload 8 8 (by decide)).trans h.size,
    (hload 16 8 (by decide)).trans h.head, (hload 24 8 (by decide)).trans h.tail,
    (hload 32 8 (by decide)).trans h.nNodes, (hload 40 8 (by decide)).trans h.freeBytes,
    (hload 52 4 (by decide)).trans h.version, (hload 56 4 (by decide)).trans h.magic⟩

/-- The flags are none of these fields. -/
theorem FormatFields.setFlags (h : FormatFields filesize blkSize m) (flags : ℕ) :
    FormatFields filesize blkSize (m.store 48 4 flags) :=
  ⟨(load_store_apart (by decide)).trans h.headerSize,
    (load_store_apart (by decide)).trans h.size,
    (load_store_apart (by decide)).trans h.head,
    (load_store_apart (by decide)).trans h.tail,
    (load_store_apart (by decide)).trans h.nNodes,
    (load_store_apart (by decide)).trans h.freeBytes,
    (load_store_apart (by decide)).trans h.version,
    (load_store_apart (by decide)).trans h.magic⟩

theorem RegionFields.congr (h : RegionFields filesize blkSize m)
    (heq : ∀ x < regionBytes, m' x = m x) : RegionFields filesize blkSize m' := by
  have hload : ∀ a w, a + w ≤ regionBytes → m'.load a w = m.load a w := by
    intro a w hle
    refine load_congr fun x hx => heq x (lt_of_lt_of_le hx.2 hle)
  exact ⟨(hload 0 8 (by decide)).trans h.next, (hload 8 8 (by decide)).trans h.prev,
    (hload 16 8 (by decide)).trans h.size, (hload 24 8 (by decide)).trans h.sizeofThis⟩

theorem blockOf_of_lt {n x : ℕ} (hx : x < n) : blockOf m n x = m x :=
  ByteMem.overwrite_of_has ⟨Nat.zero_le x, by simpa using hx⟩

end fields

/-! ### Records on the device -/

/-- The record at the byte `off` of the file. -/
def record (s : Swap) (off : ℕ) : ByteMem := s.readRegion (s.blockAt off)

theorem accessSize_eq {s : Swap} (h : headerBytes ≤ s.io.blkSize) :
    s.accessSize / s.io.blkSize * s.io.blkSize = s.io.blkSize := by
  have hpos : 0 < s.io.blkSize := lt_of_lt_of_le (by decide) h
  rw [Swap.accessSize, roundUp_regionBytes h, Nat.div_self hpos, Nat.one_mul]

theorem readRegion_of_lt {s : Swap} {offset x : ℕ} (h : headerBytes ≤ s.io.blkSize)
    (hx : x < s.io.blkSize) : s.readRegion offset x = s.io.device (offset * s.io.blkSize + x) := by
  rw [Swap.readRegion, accessSize_eq h, blockOf_of_lt hx]

/-- A record reads back. -/
theorem readRegion_writeRegion {s : Swap} {offset x : ℕ} (h : headerBytes ≤ s.io.blkSize)
    (buf : ByteMem) (hx : x < s.io.blkSize) :
    (s.writeRegion offset buf).readRegion offset x = buf x := by
  have hdev : (s.writeRegion offset buf).io.device
      = s.io.device.transfer (offset * s.io.blkSize) buf 0 (s.accessSize / s.io.blkSize *
        s.io.blkSize) := rfl
  have hblk : (s.writeRegion offset buf).io.blkSize = s.io.blkSize := rfl
  rw [readRegion_of_lt (by rw [hblk]; exact h) (by rw [hblk]; exact hx), hdev, hblk, accessSize_eq h, ByteMem.transfer_of_has,
    Nat.add_sub_cancel_left, Nat.zero_add]
  refine ⟨Nat.le_add_right _ _, ?_⟩
  rw [Span.stop_mk]
  omega

/-! ### A fresh swap file -/

/-- A mounted swap file that has been used for nothing, of a file of `filesize` bytes. -/
structure Fresh (filesize : ℕ) (s : Swap) : Prop where
  block : headerBytes ≤ s.io.blkSize
  page : s.io.blkSize ≤ pageSize
  fits : s.io.vn.baseOffset + 2 * s.io.blkSize < 2 ^ 64
  filesize_lt : filesize < 2 ^ 64
  header : ∃ hdr, s.metadata = some hdr ∧ FormatFields filesize s.io.blkSize hdr
  region : RegionFields filesize s.io.blkSize (record s s.io.blkSize)
  live : s.live = []

theorem Usable.block_lt {s : State Unit} {uid gid : ℕ} (h : Usable s uid gid) :
    s.blkSize < 2 ^ 64 := by
  have := h.fits
  omega

theorem Formatted.usable {s s' : State Unit} {uid gid : ℕ} (h : Usable s uid gid)
    (hf : Formatted s s') : Usable s' uid gid where
  driver := by rw [hf.vn, resize_hasDriver, h.driver]
  grants := by rw [hf.vn, resize_grants, h.grants]
  block := by rw [hf.blkSize]; exact h.block
  fits := by rw [hf.vn, resize_baseOffset, hf.blkSize]; exact h.fits
  filesize := hf.filesize

/-- The first two blocks of the file are as formatted, but for the dirty flag, when the device
holds `device`. -/
structure Pristine (filesize : ℕ) (s : State Unit) (device : ByteMem) : Prop where
  header : FormatFields filesize s.blkSize (blockOn (s.setDevice device) 0)
  flags : Header.flags (blockOn (s.setDevice device) 0) = 0 ∨
    Header.flags (blockOn (s.setDevice device) 0) = 1
  region : RegionFields filesize s.blkSize (blockOn (s.setDevice device) 1)

section mount

variable {filesize uid gid : ℕ} {io : State Unit} {behind : ByteMem}

/-- The header of a mounted file has the fields of the one that was read: resetting the list
of a dirty file gives it the links that a format does. -/
theorem FormatFields.mountedHeader {blkSize : ℕ} {hdr : ByteMem}
    (h : FormatFields filesize blkSize hdr) (hlt : blkSize < 2 ^ 64) :
    FormatFields filesize blkSize (mountedHeader hdr) := by
  rw [DiskSwap.mountedHeader, h.headerSize]
  split_ifs
  · refine FormatFields.setFlags ?_ _
    constructor <;>
      simp (disch := decide) only [Header.headerSize, Header.size, Header.head, Header.tail,
        Header.nNodes, Header.freeBytes, Header.version, Header.magic, load64,
        store64, load_store_apart, load_store_self]
    · exact h.headerSize
    · exact h.size
    · exact Nat.mod_eq_of_lt (by norm_num at *; omega)
    · exact Nat.mod_eq_of_lt (by norm_num at *; omega)
    · rfl
    · exact h.freeBytes
    · exact h.version
    · exact h.magic
  · exact h.setFlags _

/-- The header that is read has the fields of the first block. -/
theorem Pristine.readHeader (h : Pristine filesize io io.device) (behind : ByteMem) :
    FormatFields filesize io.blkSize (readHeader io behind) ∧
      (Header.flags (readHeader io behind) = 0 ∨ Header.flags (readHeader io behind) = 1) := by
  have heq : ∀ x < headerBytes, DiskSwap.readHeader io behind x = blockOn io 0 x := fun x hx =>
    ByteMem.overwrite_of_has ⟨Nat.zero_le x, by simpa using hx⟩
  have hflags : Header.flags (DiskSwap.readHeader io behind) = Header.flags (blockOn io 0) :=
    load_congr fun x hx => heq x (lt_trans hx.2 (by decide))
  refine ⟨h.header.congr heq, ?_⟩
  rw [hflags]
  exact h.flags

/-- Mounting leaves the block of the record alone. -/
theorem blockOn_one_mountedIo (h : Usable io uid gid) {x : ℕ} (hx : x < io.blkSize) :
    blockOn (mountedIo io behind) 1 x = blockOn io 1 x := by
  rw [blockOn, mountedIo_baseOffset, mountedIo_blkSize, mountedIo_device h,
    write_block_ne _ (by omega) hx, blockOn]

/-- The record at the start of the data area is block one of the file. -/
theorem record_blkSize {s : Swap} (hblock : headerBytes ≤ s.io.blkSize)
    (hfits : s.io.vn.baseOffset + 2 * s.io.blkSize < 2 ^ 64) {x : ℕ} (hx : x < s.io.blkSize) :
    record s s.io.blkSize x = blockOn s.io 1 x := by
  have hpos : 0 < s.io.blkSize := lt_of_lt_of_le (by decide) hblock
  have haddr : u64 (1 * s.io.blkSize + s.io.vn.baseOffset) / s.io.blkSize = _ :=
    blockAddr_eq hpos (by omega)
  rw [Nat.one_mul] at haddr
  rw [record, readRegion_of_lt hblock hx, Swap.blockAt, haddr, blockOn]

/-- Mounting a file whose first two blocks are as they were formatted. -/
theorem Pristine.fresh (h : Usable io uid gid) (hp : Pristine filesize io io.device)
    (hpage : io.blkSize ≤ pageSize) (hsize : filesize < 2 ^ 64) (behind : ByteMem) :
    Fresh filesize (mounted ⟨io, none, [], []⟩ behind) := by
  have hblk : (mounted ⟨io, none, [], []⟩ behind).io.blkSize = io.blkSize :=
    mountedIo_blkSize io behind
  have hbase : (mounted ⟨io, none, [], []⟩ behind).io.vn.baseOffset = io.vn.baseOffset :=
    mountedIo_baseOffset io behind
  have hblock : headerBytes ≤ (mounted ⟨io, none, [], []⟩ behind).io.blkSize := by
    rw [hblk]
    exact h.block
  have hfits : (mounted ⟨io, none, [], []⟩ behind).io.vn.baseOffset +
      2 * (mounted ⟨io, none, [], []⟩ behind).io.blkSize < 2 ^ 64 := by
    rw [hblk, hbase]
    exact h.fits
  refine ⟨hblock, ?_, hfits, hsize, ⟨_, rfl, ?_⟩, ?_, rfl⟩
  · rw [hblk]
    exact hpage
  · rw [hblk]
    exact (hp.readHeader behind).1.mountedHeader h.block_lt
  · rw [hblk]
    refine hp.region.congr fun x hx => ?_
    have hlt : x < io.blkSize := lt_of_lt_of_le hx (le_trans (by decide) h.block)
    have hrecord := record_blkSize hblock hfits (by rw [hblk]; exact hlt)
    rw [hblk] at hrecord
    exact hrecord.trans (blockOn_one_mountedIo h hlt)

/-- The device of a formatted file. -/
theorem Formatted.pristine {s s' : State Unit} (h : Usable s uid gid) (hf : Formatted s s') :
    Pristine s.vn.filesize s' s'.device := by
  have hheader : ∀ x < headerBytes, blockOn s' 0 x = formatHeader s.vn.filesize s.blkSize x := by
    intro x hx
    rw [hf.header x (lt_of_lt_of_le hx h.block), blockOf_of_lt hx]
  have hregion : ∀ x < regionBytes, blockOn s' 1 x = formatRegion s.vn.filesize s.blkSize x := by
    intro x hx
    rw [hf.region x (lt_of_lt_of_le hx (le_trans (by decide) h.block)), blockOf_of_lt hx]
  refine ⟨?_, .inl ?_, ?_⟩
  · rw [hf.blkSize]
    exact (formatFields_formatHeader h.block h.block_lt).congr hheader
  · rw [← flags_formatHeader s.vn.filesize s.blkSize]
    exact load_congr fun x hx => hheader x (lt_trans hx.2 (by decide))
  · rw [hf.blkSize]
    exact (regionFields_formatRegion h.block h.block_lt).congr hregion

theorem fresh_mounted {s s' : State Unit} (h : Usable s uid gid) (hf : Formatted s s')
    (behind : ByteMem) (hpage : s.blkSize ≤ pageSize) :
    Fresh s.vn.filesize (mounted ⟨s', none, [], []⟩ behind) :=
  (hf.pristine h).fresh (hf.usable h) (by rw [hf.blkSize]; exact hpage) h.filesize behind

end mount

/-! ### Sound free space -/

/-- The bytes of the file that belong to the free region at `off`: its record and the space
behind it. -/
def extent (s : Swap) (off : ℕ) : Span :=
  ⟨off, Region.sizeofThis (record s off) + Region.size (record s off)⟩

/-- The free space with the header `hdr` and the free regions `rs`, for a file that had
`filesize` bytes when it was formatted. -/
structure Sound (filesize : ℕ) (s : Swap) (hdr : ByteMem) (rs : List ℕ) : Prop where
  magic : Header.magic hdr = headerMagic
  headerSize : Header.headerSize hdr = Header.headerSize (formatHeader filesize s.io.blkSize)
  size : Header.size hdr = Header.size (formatHeader filesize s.io.blkSize)
  list : DLinked.IsList (fun r => Region.next (record s r)) (fun r => Region.prev (record s r)) 0
    (Header.head hdr) (Header.tail hdr) rs
  free : Header.freeBytes hdr = (rs.map fun r => Region.size (record s r)).sum
  apart : s.live.Pairwise Span.Apart
  outside : ∀ l ∈ s.live, l.Apart ⟨0, Header.headerSize hdr⟩ ∧
    ∀ r ∈ rs, l.Apart ⟨r, Region.sizeofThis (record s r)⟩
  covers : ∀ x, (Header.headerSize hdr ≤ x ∧ x < filesize) ↔
    ∃ p ∈ s.live ++ rs.map (extent s), p.Has x

def SpaceOk (filesize : ℕ) (s : Swap) : Prop :=
  ∃ hdr rs, s.metadata = some hdr ∧ Sound filesize s hdr rs

/-- The calls that are turned away by a swap file of `filesize` bytes with one free region:
no pages, more than there is free, or nothing to free. -/
def Refused (filesize blkSize : ℕ) : Call → Prop
  | .resv nPages => nPages = 0 ∨ filesize - 2 * blkSize < u64 (nPages * pageSize)
  | .free id nPages => id = 0 ∨ nPages = 0

instance (filesize blkSize : ℕ) : DecidablePred (Refused filesize blkSize)
  | .resv _ => inferInstanceAs (Decidable (_ ∨ _))
  | .free _ _ => inferInstanceAs (Decidable (_ ∨ _))

section fresh

variable {filesize fuel : ℕ} {s : Swap}

theorem Fresh.blkSize_lt (h : Fresh filesize s) : s.io.blkSize < 2 ^ 64 := by
  have := h.fits
  omega

theorem Fresh.blkSize_pos (h : Fresh filesize s) : 0 < s.io.blkSize :=
  lt_of_lt_of_le (by decide) h.block

theorem Fresh.free_eq (h : Fresh filesize s) (hroom : 2 * s.io.blkSize ≤ filesize) :
    u64sub (u64sub filesize s.io.blkSize) s.io.blkSize = filesize - 2 * s.io.blkSize :=
  format_free_eq hroom h.filesize_lt

theorem Fresh.spaceOk (h : Fresh filesize s) (hroom : 2 * s.io.blkSize ≤ filesize) :
    SpaceOk filesize s := by
  obtain ⟨hdr, hmeta, hh⟩ := h.header
  have hformat : FormatFields filesize s.io.blkSize (formatHeader filesize s.io.blkSize) :=
    formatFields_formatHeader h.block h.blkSize_lt
  have hregion := h.region
  have hfree := h.free_eq hroom
  refine ⟨hdr, [s.io.blkSize], hmeta, ?_⟩
  refine ⟨hh.magic, ?_, ?_, ?_, ?_, ?_, ?_, ?_⟩
  · rw [hh.headerSize, hformat.headerSize]
  · rw [hh.size, hformat.size]
  · refine ⟨hh.head, hh.tail, ⟨hregion.prev, hregion.next, trivial⟩, nodup_singleton _, ?_⟩
    have hpos := h.blkSize_pos
    rw [mem_singleton]
    omega
  · rw [hh.freeBytes, map_singleton, sum_singleton, hregion.size]
  · rw [h.live]
    exact List.Pairwise.nil
  · intro l hl
    rw [h.live] at hl
    exact absurd hl not_mem_nil
  · intro x
    rw [h.live, nil_append, map_singleton, hh.headerSize]
    simp only [mem_singleton, exists_eq_left, extent, Span.Has, Span.stop_mk, hregion.size,
      hregion.sizeofThis, hfree]
    constructor <;> intro hx <;> omega

/-- The free list of a header whose first region has no next one. -/
theorem Sound.list_eq {hdr : ByteMem} {rs : List ℕ} (hs : Sound filesize s hdr rs)
    (hlast : Region.next (record s (Header.head hdr)) = 0) :
    (Header.head hdr = 0 ∧ rs = []) ∨ rs = [Header.head hdr] := by
  have hlist := hs.list
  rcases rs with _ | ⟨r, rs⟩
  · exact .inl ⟨hlist.head_eq, rfl⟩
  · right
    have hr : Header.head hdr = r := hlist.head_eq
    have hnext : Region.next (record s r) = rs.headD 0 := hlist.links.2.1
    rcases rs with _ | ⟨r', rs⟩
    · rw [hr]
    · -- the next one would be the null offset
      rw [hr, hnext] at hlast
      exact absurd (mem_cons_of_mem r (mem_cons.mpr (.inl hlast.symm)))
        hlist.null_notMem

theorem Fresh.room_of_spaceOk (h : Fresh filesize s) (hok : SpaceOk filesize s) :
    2 * s.io.blkSize ≤ filesize := by
  obtain ⟨hdr, rs, hmeta, hs⟩ := hok
  obtain ⟨hdr', hmeta', hh⟩ := h.header
  obtain rfl : hdr' = hdr := Option.some.inj (hmeta'.symm.trans hmeta)
  have hpos := h.blkSize_pos
  have hrs : rs = [s.io.blkSize] := by
    rcases hs.list_eq (by rw [hh.head]; exact h.region.next) with ⟨hzero, -⟩ | hrs
    · rw [hh.head] at hzero
      omega
    · rw [hrs, hh.head]
  -- the last byte of the record has to lie in the file
  have hin := (hs.covers (2 * s.io.blkSize - 1)).mpr (by
    refine ⟨extent s s.io.blkSize, ?_, ?_⟩
    · rw [hrs]
      exact mem_append_right _ (mem_singleton_self _)
    · rw [extent, h.region.sizeofThis]
      refine ⟨?_, ?_⟩
      · simp only
        omega
      · rw [Span.stop_mk]
        omega)
  omega

end fresh

/-! ### What the calls do -/

section calls

variable {filesize fuel nPages : ℕ} {s : Swap} {hdr : ByteMem}

/-- A call that is turned away changes nothing. -/
theorem Fresh.step_refused (h : Fresh filesize s) (hroom : 2 * s.io.blkSize ≤ filesize) {c : Call}
    (hc : Refused filesize s.io.blkSize c) : step fuel s c = some s := by
  cases c with
  | resv nPages =>
    obtain ⟨hdr, hmeta, hh⟩ := h.header
    rw [step, swapResv]
    rcases hc with rfl | hfew
    · rfl
    · by_cases hzero : nPages = 0
      · rw [if_pos hzero]
        rfl
      · rw [if_neg hzero, hmeta]
        dsimp only
        rw [if_neg (not_not.mpr hh.magic), hh.freeBytes, h.free_eq hroom, if_pos hfew]
        rfl
  | free id nPages =>
    have hc' : id = 0 ∨ nPages = 0 := hc
    rw [step, swapFree, if_pos hc']

/-- The header behind the unlinking of a record without neighbours. -/
theorem head_unlinkHeader (hdr : ByteMem) (offset : ℕ) :
    Header.head (unlinkHeader hdr offset 0 0) = Header.head hdr ∨
      Header.head (unlinkHeader hdr offset 0 0) = 0 := by
  have htail : ∀ m : ByteMem, Header.head
      (if Header.tail m = offset then m.store64 24 0 else m) = Header.head m := by
    intro m
    split_ifs
    · exact load64_store64_apart (by decide)
    · rfl
  rw [unlinkHeader, htail]
  split_ifs
  · exact .inr (ByteMem.load64_store64_self (by decide))
  · exact .inl rfl

theorem freeBytes_unlinkHeader (hdr : ByteMem) (offset next prev : ℕ) :
    Header.freeBytes (unlinkHeader hdr offset next prev) = Header.freeBytes hdr := by
  have hstore : ∀ (m : ByteMem) (c : Prop) [Decidable c] (a v : ℕ), a + 8 ≤ 40 →
      Header.freeBytes (if c then m.store64 a v else m) = Header.freeBytes m := by
    intro m c _ a v ha
    split_ifs
    · exact load64_store64_apart (.inl ha)
    · rfl
  rw [unlinkHeader, hstore _ _ _ _ (by decide), hstore _ _ _ _ (by decide)]

/-- The fields of a record that was written. -/
theorem region_written (hblock : headerBytes ≤ s.io.blkSize) (offset : ℕ) (buf : ByteMem)
    (live : List Span) :
    Region.next (((s.writeRegion offset buf).setLive live).readRegion offset) = Region.next buf ∧
      Region.size (((s.writeRegion offset buf).setLive live).readRegion offset)
        = Region.size buf := by
  have hload : ∀ a, a + 8 ≤ regionBytes →
      (((s.writeRegion offset buf).setLive live).readRegion offset).load64 a = buf.load64 a := by
    intro a ha
    refine load_congr fun x hx => ?_
    have hlt : x < regionBytes := lt_of_lt_of_le hx.2 ha
    exact readRegion_writeRegion hblock buf (lt_of_lt_of_le hlt (le_trans (by decide) hblock))
  exact ⟨hload 0 (by decide), hload 16 (by decide)⟩

/-- What `swap_resv` takes from a region without neighbours: the record keeps the rest, the
header keeps its count of free bytes. -/
theorem takeFrom_alone (nPages : ℕ) (x : Search) (hblock : headerBytes ≤ s.io.blkSize)
    (hoff : x.freeOff ≠ 0) (hmeta : s.metadata = some hdr) (hnext : Region.next x.buf = 0)
    (hprev : Region.prev x.buf = 0) :
    ∃ t id hdr', takeFrom s hdr nPages x = (t, .success) ∧
      t.live = ⟨id, nPages * pageSize⟩ :: s.live ∧
      t.io.vn = s.io.vn ∧ t.io.blkSize = s.io.blkSize ∧
      t.metadata = some hdr' ∧ Header.freeBytes hdr' = Header.freeBytes hdr ∧
      (Header.head hdr' = Header.head hdr ∨ Header.head hdr' = 0) ∧
      Region.next (t.readRegion x.offset) = 0 ∧
      Region.size (t.readRegion x.offset)
        = remaining (Region.size x.buf) x.nBytes s.io.blkSize := by
  have hlt : remaining (Region.size x.buf) x.nBytes s.io.blkSize < 2 ^ 64 :=
    lt_of_le_of_lt (Nat.sub_le _ _) (u64sub_lt (Region.size x.buf) x.nBytes)
  rw [takeFrom, if_neg hoff]
  dsimp only
  generalize remaining (Region.size x.buf) x.nBytes s.io.blkSize = size at hlt ⊢
  -- when nothing is left the record goes, and the header is written to the device
  have hstate : ∃ s' hdr', (if size = 0 then unlink s hdr x.offset x.buf else s) = s' ∧
      s'.io.vn = s.io.vn ∧ s'.io.blkSize = s.io.blkSize ∧ s'.metadata = some hdr' ∧
      Header.freeBytes hdr' = Header.freeBytes hdr ∧
      (Header.head hdr' = Header.head hdr ∨ Header.head hdr' = 0) := by
    split_ifs
    · rw [unlink, hnext, hprev]
      exact ⟨_, _, rfl, rfl, rfl, rfl, freeBytes_unlinkHeader hdr x.offset 0 0,
        head_unlinkHeader hdr x.offset⟩
    · exact ⟨s, hdr, rfl, rfl, rfl, hmeta, rfl, .inl rfl⟩
  have hrecord : ∃ buf, (if size = 0 then x.buf.zero ⟨0, regionBytes⟩ else x.buf.store64 16 size)
      = buf ∧ Region.next buf = 0 ∧ Region.size buf = size := by
    split_ifs with hzero
    · exact ⟨_, rfl, load64_zero_within (by decide),
        (load64_zero_within (by decide)).trans hzero.symm⟩
    · exact ⟨_, rfl, (load64_store64_apart (by decide)).trans hnext,
        ByteMem.load64_store64_self hlt⟩
  obtain ⟨s', hdr', hs', hvn, hblk, hmeta', hhdr⟩ := hstate
  obtain ⟨buf, hbuf, hbnext, hbsize⟩ := hrecord
  have hregion := region_written (s := s') (hblk ▸ hblock) x.offset buf
    (⟨u64 (x.freeOff + size + x.addend), nPages * pageSize⟩ :: s.live)
  rw [hs', hbuf]
  exact ⟨_, _, hdr', rfl, rfl, hvn, hblk, hmeta', hhdr.1, hhdr.2, hregion.1.trans hbnext,
    hregion.2.trans hbsize⟩

/-- The search ends at the first record if it is large enough. -/
theorem search_head {nBytes : ℕ}
    (hle : nBytes ≤ Region.size (record s (Header.head hdr))) :
    search s hdr nBytes (fuel + 1) = some ⟨Header.head hdr, s.blockAt (Header.head hdr),
      record s (Header.head hdr), nBytes, 0⟩ := by
  rw [search]
  refine Loop.run_succ_done ?_ fuel
  have hnot : ¬ (Region.size (record s (Header.head hdr)) < nBytes ∧ Header.head hdr ≠ 0) :=
    fun hlt => absurd hle (Nat.not_le.mpr hlt.1)
  exact if_neg hnot

/-- A reservation that is not turned away succeeds, and the space is not sound behind it: its
bytes are still counted as free, or there are more of them than the file has. -/
theorem Fresh.resv_unsound (h : Fresh filesize s) (hroom : 2 * s.io.blkSize ≤ filesize)
    (hn : nPages ≠ 0) (hle : u64 (nPages * pageSize) ≤ filesize - 2 * s.io.blkSize) :
    ∃ t, step (fuel + 1) s (.resv nPages) = some t ∧ ¬ SpaceOk filesize t := by
  obtain ⟨hdr, hmeta, hh⟩ := h.header
  have hpos := h.blkSize_pos
  have hfree := h.free_eq hroom
  have hsize : Region.size (record s s.io.blkSize) = filesize - 2 * s.io.blkSize :=
    h.region.size.trans hfree
  have hsearch : search s hdr (u64 (nPages * pageSize)) (fuel + 1) = _ :=
    search_head (by rw [hh.head, hsize]; exact hle)
  rw [hh.head] at hsearch
  obtain ⟨t, id, hdr', htake, hlive, hvn, hblk, hmeta', hbytes, hhead, hnext, hrest⟩ :=
    takeFrom_alone nPages ⟨s.io.blkSize, s.blockAt s.io.blkSize, record s s.io.blkSize,
      u64 (nPages * pageSize), 0⟩ h.block hpos.ne' hmeta h.region.next h.region.prev
  dsimp only at hnext hrest
  refine ⟨t, ?_, ?_⟩
  · rw [step, swapResv, if_neg hn, hmeta]
    dsimp only
    rw [if_neg (not_not.mpr hh.magic), hh.freeBytes, hfree, if_neg (Nat.not_lt.mpr hle), hsearch,
      Option.map_some, htake]
    rfl
  · rintro ⟨hdr'', rs, hmeta'', hs⟩
    obtain rfl : hdr' = hdr'' := Option.some.inj (hmeta'.symm.trans hmeta'')
    have hrecord : record t s.io.blkSize = t.readRegion (s.blockAt s.io.blkSize) := by
      rw [record, Swap.blockAt, Swap.blockAt, hvn, hblk]
    rcases Nat.eq_zero_or_pos (u64 (nPages * pageSize)) with hwrap | hsome
    · -- the size wrapped around: the reservation runs past every file
      have hlong : 2 ^ 64 ≤ nPages * pageSize := by
        have hdvd : 2 ^ 64 ∣ nPages * pageSize := Nat.dvd_of_mod_eq_zero hwrap
        exact Nat.le_of_dvd (Nat.mul_pos (Nat.pos_of_ne_zero hn) (by decide)) hdvd
      have hin := (hs.covers (id + 2 ^ 64 - 1)).mpr ⟨⟨id, nPages * pageSize⟩, by
        rw [hlive]
        exact mem_append_left _ mem_cons_self, by
        refine ⟨?_, ?_⟩
        · simp only
          omega
        · rw [Span.stop_mk]
          omega⟩
      have := h.filesize_lt
      omega
    · have hless : remaining (filesize - 2 * s.io.blkSize) (u64 (nPages * pageSize)) s.io.blkSize
          < filesize - 2 * s.io.blkSize := by
        have hlt := h.filesize_lt
        rw [remaining, roundDown, u64sub_of_le hle (by omega)]
        omega
      have hcount : Header.freeBytes hdr' = filesize - 2 * s.io.blkSize := by
        rw [hbytes, hh.freeBytes, hfree]
      have htotal := hs.free
      rcases hhead with hhead | hhead
      · rw [hh.head] at hhead
        rcases hs.list_eq (by rw [hhead, hrecord]; exact hnext) with ⟨hzero, -⟩ | hrs
        · omega
        · rw [hrs, hhead, map_singleton, sum_singleton, hrecord, hrest, hsize,
            hcount] at htotal
          omega
      · -- the header has lost the list
        have hrs : rs = [] := hs.list.head_eq_null_iff.mp hhead
        rw [hrs, hcount, map_nil, sum_nil] at htotal
        omega

/-- A free that is not turned away loses the sizes in the header. -/
theorem Fresh.free_unsound (h : Fresh filesize s) {id : ℕ} (hc : ¬ (id = 0 ∨ nPages = 0)) :
    ∃ t, step fuel s (.free id nPages) = some t ∧ ¬ SpaceOk filesize t := by
  obtain ⟨hdr, hmeta, hh⟩ := h.header
  refine ⟨_, rfl, ?_⟩
  rintro ⟨hdr', rs, hmeta', hs⟩
  have hkept : (swapFree s id nPages).1.metadata = some (freedHeader hdr id) := by
    rw [swapFree, if_neg hc, hmeta]
    dsimp only
    rw [if_neg (not_not.mpr hh.magic)]
    rfl
  have hblk : (swapFree s id nPages).1.io.blkSize = s.io.blkSize := by
    rw [swapFree, if_neg hc, hmeta]
    dsimp only
    rw [if_neg (not_not.mpr hh.magic), relink]
    split_ifs <;> rfl
  obtain rfl : freedHeader hdr id = hdr' := Option.some.inj (hkept.symm.trans hmeta')
  have hzero : Header.headerSize (freedHeader hdr id) = 0 :=
    load64_zero_within (by decide)
  have hformat : FormatFields filesize s.io.blkSize (formatHeader filesize s.io.blkSize) :=
    formatFields_formatHeader h.block h.blkSize_lt
  have hsize := hs.headerSize
  rw [hzero, hblk, hformat.headerSize] at hsize
  have := h.blkSize_pos
  omega

end calls

/-! ### Runs -/

/-- Calls that are all turned away leave the file as it was. -/
theorem Fresh.run_refused {filesize fuel : ℕ} {s : Swap} (h : Fresh filesize s)
    (hroom : 2 * s.io.blkSize ≤ filesize) {calls : List Call}
    (hcalls : ∀ c ∈ calls, Refused filesize s.io.blkSize c) :
    calls.foldlM (step fuel) s = some s := by
  induction calls with
  | nil => rfl
  | cons c calls ih =>
    rw [foldlM_cons, h.step_refused hroom (hcalls c mem_cons_self)]
    exact ih fun d hd => hcalls d (mem_cons_of_mem c hd)

/-- The first call that is not turned away makes the space unsound. -/
theorem Fresh.spaceOk_run_iff {filesize : ℕ} {s : Swap} (h : Fresh filesize s) (fuel : ℕ)
    (calls : List Call) :
    (∀ pre t, pre <+: calls → pre.foldlM (step (fuel + 1)) s = some t → SpaceOk filesize t) ↔
      2 * s.io.blkSize ≤ filesize ∧ ∀ c ∈ calls, Refused filesize s.io.blkSize c := by
  constructor
  · intro hok
    have hroom := h.room_of_spaceOk (hok [] s nil_prefix rfl)
    refine ⟨hroom, ?_⟩
    induction calls with
    | nil => exact fun c hc => absurd hc not_mem_nil
    | cons c calls ih =>
      have hfirst : Refused filesize s.io.blkSize c := by
        by_contra hc
        have hbad : ∃ t, step (fuel + 1) s c = some t ∧ ¬ SpaceOk filesize t := by
          cases c with
          | resv nPages =>
            obtain ⟨hn, hle⟩ := not_or.mp hc
            exact h.resv_unsound hroom hn (Nat.le_of_not_lt hle)
          | free id nPages => exact h.free_unsound hc
        obtain ⟨t, hstep, hnot⟩ := hbad
        refine hnot (hok [c] t ⟨calls, rfl⟩ ?_)
        rw [foldlM_cons, hstep]
        rfl
      intro d hd
      rcases mem_cons.mp hd with rfl | hd
      · exact hfirst
      · refine ih (fun pre t hpre hrun => hok (c :: pre) t ?_ ?_) d hd
        · exact prefix_cons_inj c |>.mpr hpre
        · rw [foldlM_cons, h.step_refused hroom hfirst]
          exact hrun
  · rintro ⟨hroom, hcalls⟩ pre t hpre hrun
    rw [h.run_refused hroom fun c hc => hcalls c (hpre.subset hc)] at hrun
    exact Option.some.inj hrun ▸ h.spaceOk hroom

/-! ### Formatted files -/

/-- A format that succeeds found a driver and blocks that a header fits in. -/
theorem usable_of_format {s s₁ : State Unit} {uid gid : ℕ}
    (hgrants : s.vn.grants uid gid = (true, true))
    (hfits : s.vn.baseOffset + 2 * s.blkSize < 2 ^ 64) (hsize : s.vn.filesize < 2 ^ 64)
    (hformat : initializeDiskSwap s uid gid = some (s₁, .success)) :
    Usable s uid gid ∧ s₁ = formatted s := by
  have hfound := hformat
  rw [initializeDiskSwap] at hfound
  dsimp only at hfound
  split_ifs at hfound with hlen hopen hblock
  · exact absurd (Prod.mk.inj (Option.some.inj hfound)).2 (by decide)
  · exact absurd (congrArg Prod.snd (Option.some.inj hfound)) hopen
  · rw [Bool.or_eq_true, not_or, Bool.not_eq_true', Bool.not_eq_false, decide_eq_true_eq,
      Nat.not_lt] at hblock
    have husable : Usable s uid gid := ⟨hblock.1, hgrants, hblock.2, hfits, hsize⟩
    refine ⟨husable, ?_⟩
    rw [initializeDiskSwap_eq husable hlen] at hformat
    exact (Prod.mk.inj (Option.some.inj hformat)).1.symm

/-- The header of a formatted file passes the checks of a mount. -/
theorem FormatFields.headerStatus {filesize blkSize : ℕ} {hdr : ByteMem}
    (h : FormatFields filesize blkSize hdr) (hblock : headerBytes ≤ blkSize) :
    headerStatus hdr filesize blkSize = .success := by
  have hone : blkSize ≠ 1 := by
    rintro rfl
    exact absurd hblock (by decide)
  rw [DiskSwap.headerStatus, h.headerSize, h.size, h.version, if_neg (not_not.mpr h.magic),
    if_neg, if_neg (lt_irrefl _), if_neg (lt_irrefl _)]
  rw [if_neg hone, not_or]
  exact ⟨Nat.not_lt.mpr hblock, lt_irrefl _⟩

/-- A formatted file with room for its header and a record can be mounted. -/
theorem Formatted.mount_eq {s s' : State Unit} {uid gid : ℕ} (h : Usable s uid gid)
    (hf : Formatted s s') (hpage : s.blkSize ≤ pageSize)
    (hroom : 2 * s.blkSize ≤ s.vn.filesize) (behind : ByteMem) :
    initializeDiskSwapDevice ⟨s', none, [], []⟩ uid gid behind
      = some (mounted ⟨s', none, [], []⟩ behind, .success) := by
  have hstatus : headerStatus (readHeader s' behind) s'.vn.filesize s'.blkSize = .success := by
    rw [hf.same hroom]
    exact ((hf.pristine h).readHeader behind).1.headerStatus (hf.usable h).block
  rw [initializeDiskSwapDevice_eq (hf.usable h) (by rw [hf.blkSize]; exact hpage)
    (fun _ => by rw [hf.same hroom, hf.blkSize]; omega), if_pos hstatus]

/-- A block device of 32 sectors. -/
def blankDisk : State Unit where
  vn := ⟨.blk, none, ⟨true, true, true, true, true, true⟩, 0, 0, 16384, ⟨[]⟩, none⟩
  fd := fun _ => ⟨0#32, 0⟩
  blkSize := 512
  device := fun _ => 0
  frames := fun _ => 0
  calls := []
  written := []

theorem usable_blankDisk : Usable blankDisk 0 0 :=
  ⟨by decide, by decide, by decide, by decide, by decide⟩

theorem initializeDiskSwap_blankDisk :
    initializeDiskSwap blankDisk 0 0 = some (formatted blankDisk, .success) :=
  initializeDiskSwap_eq usable_blankDisk (by decide)

theorem mount_blankDisk :
    initializeDiskSwapDevice ⟨formatted blankDisk, none, [], []⟩ 0 0 (fun _ => 0)
      = some (mounted ⟨formatted blankDisk, none, [], []⟩ fun _ => 0, .success) :=
  (formatted_spec usable_blankDisk).mount_eq usable_blankDisk (by decide) (by decide) _

end Obos.DiskSwap
