/-
Recovery of a swap file after a power cut.

A cut leaves the device as it was after one of the writes.  `OneRegion` is what the next mount
should then make of the file: a free list of one region, on the disk and in the header, that is
the whole data area.  Mounting a dirty file sets the links in the header anew, but writes no
record: whatever `swap_resv` and `swap_free` have made of the record on the disk stays.

* `mounted_oneRegion` — mounting a file whose first two blocks are as they were formatted,
* `pristine_opStep` — a call that stays away from these blocks,
* `recovery_run` — every cut of a run of such calls.
-/
import Obos.DiskSwapSpace

namespace Obos.DiskSwap

open Vfs

/-! ### Recovered files -/

/-- The free list is one region that covers the data area of a file of `filesize` bytes. -/
structure OneRegionWith (filesize : ℕ) (s : Swap) (hdr : ByteMem) : Prop where
  metadata : s.metadata = some hdr
  onDisk : ∀ x < headerBytes, blockOn s.io 0 x = hdr x
  list : DLinked.IsList (fun r => Region.next (record s r)) (fun r => Region.prev (record s r)) 0
    (Header.head hdr) (Header.tail hdr) [Header.head hdr]
  nNodes : Header.nNodes hdr = 1
  whole : extent s (Header.head hdr) = ⟨Header.headerSize hdr, filesize - Header.headerSize hdr⟩
  freeBytes : Header.freeBytes hdr = Region.size (record s (Header.head hdr))

def OneRegion (filesize : ℕ) (s : Swap) : Prop := ∃ hdr, OneRegionWith filesize s hdr

section mount

variable {filesize uid gid : ℕ} {io : State Unit} {behind : ByteMem}

/-- The flags of the header that mounting writes. -/
theorem flags_mountedHeader {hdr : ByteMem} (h : Header.flags hdr = 0 ∨ Header.flags hdr = 1) :
    Header.flags (mountedHeader hdr) = 0 ∨ Header.flags (mountedHeader hdr) = 1 := by
  rw [mountedHeader, Header.dirty]
  rcases h with h | h
  · right
    rw [h]
    exact ByteMem.load_store_self _ _ _ _
  · left
    rw [h]
    exact ByteMem.load_store_self _ _ _ _

/-- Block zero of a mounted file holds the header. -/
theorem blockOn_zero_mountedIo (h : Usable io uid gid) {x : ℕ} (hx : x < headerBytes) :
    blockOn (mountedIo io behind) 0 x = mountedHeader (readHeader io behind) x := by
  have hlt : x < io.blkSize := lt_of_lt_of_le hx h.block
  rw [blockOn, mountedIo_baseOffset, mountedIo_blkSize, mountedIo_device h,
    write_block_self _ hlt, blockOf_of_lt hx]

/-- A file whose first two blocks are as formatted mounts, and its free list is the one region
that it was formatted with. -/
theorem mounted_oneRegion (h : Usable io uid gid) (hp : Pristine filesize io io.device)
    (hpage : io.blkSize ≤ pageSize) (hsize : io.vn.filesize = filesize)
    (hroom : 2 * io.blkSize ≤ filesize) (behind : ByteMem) :
    initializeDiskSwapDevice ⟨io, none, [], []⟩ uid gid behind
        = some (mounted ⟨io, none, [], []⟩ behind, .success) ∧
      OneRegion filesize (mounted ⟨io, none, [], []⟩ behind) := by
  refine ⟨?_, ?_⟩
  · have hstatus : headerStatus (readHeader io behind) io.vn.filesize io.blkSize = .success := by
      rw [hsize]
      exact (hp.readHeader behind).1.headerStatus h.block
    have hlong : io.vn.vtype = .reg → io.blkSize ≤ io.vn.filesize := by
      intro _
      omega
    rw [initializeDiskSwapDevice_eq h hpage hlong, if_pos hstatus]
  · have hfresh := hp.fresh h hpage (hsize ▸ h.filesize) behind
    have hblk : (mounted ⟨io, none, [], []⟩ behind).io.blkSize = io.blkSize :=
      mountedIo_blkSize io behind
    have hregion := hfresh.region
    obtain ⟨hdr, hmeta, hhdr⟩ := hfresh.header
    obtain rfl : mountedHeader (readHeader io behind) = hdr := Option.some.inj hmeta
    rw [hblk] at hhdr hregion
    have hpos := h.blkSize_pos
    have hfree := format_free_eq hroom (hsize ▸ h.filesize)
    refine ⟨_, rfl, fun x hx => blockOn_zero_mountedIo h hx, ?_, hhdr.nNodes, ?_, ?_⟩
    · rw [hhdr.head, hhdr.tail]
      refine ⟨rfl, rfl, ⟨hregion.prev, hregion.next, trivial⟩, List.nodup_singleton _, ?_⟩
      rw [List.mem_singleton]
      omega
    · rw [hhdr.head, hhdr.headerSize, extent, hregion.sizeofThis, hregion.size, hfree]
      congr 1
      omega
    · rw [hhdr.head, hhdr.freeBytes, hregion.size]

/-- The same for a file whose device was left with the contents `device`. -/
theorem mount_setDevice (h : Usable io uid gid) {device : ByteMem}
    (hp : Pristine filesize io device) (hpage : io.blkSize ≤ pageSize)
    (hsize : io.vn.filesize = filesize) (hroom : 2 * io.blkSize ≤ filesize) (behind : ByteMem) :
    ∃ t, initializeDiskSwapDevice ⟨io.setDevice device, none, [], []⟩ uid gid behind
        = some (t, .success) ∧ OneRegion filesize t := by
  have husable : Usable (io.setDevice device) uid gid :=
    ⟨h.driver, h.grants, h.block, h.fits, h.filesize⟩
  have hpristine : Pristine filesize (io.setDevice device) (io.setDevice device).device :=
    ⟨hp.header, hp.flags, hp.region⟩
  obtain ⟨hmount, hregion⟩ := mounted_oneRegion husable hpristine hpage hsize hroom behind
  exact ⟨_, hmount, hregion⟩

end mount

/-! ### Calls that leave the first two blocks alone -/

/-- A call that is turned away, or a write to other blocks than the first two of a file that
starts at the byte `base` of the device. -/
def Spares (filesize blkSize base : ℕ) : Op → Prop
  | .call c => Refused filesize blkSize c
  | .write id nPages offsetBytes _ => id = 0 ∨ nPages = 0 ∨
    base / blkSize + 2 ≤ u64 (id + offsetBytes + base) / blkSize ∨
    u64 (id + offsetBytes + base) / blkSize + u64 (nPages * pageSize) / blkSize ≤ base / blkSize

/-- A mounted device that has written nothing to the first two blocks of the file `io`. -/
structure Idle (filesize : ℕ) (io : State Unit) (t : Swap) : Prop where
  fresh : Fresh filesize t
  base : t.io.vn.baseOffset = io.vn.baseOffset
  blkSize : t.io.blkSize = io.blkSize
  contents : ∀ d ∈ t.io.device :: t.contents, Pristine filesize io d

section calls

variable {filesize fuel : ℕ} {io : State Unit} {t t' : Swap}

theorem Pristine.congr {device device' : ByteMem} (h : Pristine filesize io device)
    (hblock : headerBytes ≤ io.blkSize)
    (heq : ∀ k < 2, ∀ x < io.blkSize,
      blockOn (io.setDevice device') k x = blockOn (io.setDevice device) k x) :
    Pristine filesize io device' := by
  have hheader : ∀ x < headerBytes, blockOn (io.setDevice device') 0 x
      = blockOn (io.setDevice device) 0 x := fun x hx =>
    heq 0 (by decide) x (lt_of_lt_of_le hx hblock)
  have hflags : Header.flags (blockOn (io.setDevice device') 0)
      = Header.flags (blockOn (io.setDevice device) 0) :=
    ByteMem.load_congr fun x hx => hheader x (lt_trans hx.2 (by decide))
  refine ⟨h.header.congr hheader, ?_, h.region.congr fun x hx => ?_⟩
  · rw [hflags]
    exact h.flags
  · exact heq 1 (by decide) x (lt_of_lt_of_le hx (le_trans (by decide) hblock))

/-- A block that a write does not reach. -/
theorem transfer_block_away {m data : ByteMem} {b count k n x : ℕ} (hx : x < n)
    (haway : k + 1 ≤ b ∨ b + count ≤ k) :
    m.transfer (b * n) data 0 (count * n) (k * n + x) = m (k * n + x) := by
  refine ByteMem.transfer_of_not_has fun hhas => ?_
  obtain ⟨hlo, hhi⟩ := hhas
  rw [Span.stop_mk, ← Nat.add_mul] at hhi
  rcases haway with haway | haway
  · have hle := Nat.mul_le_mul_right n haway
    rw [Nat.add_one_mul] at hle
    have hlo' : b * n ≤ k * n + x := hlo
    omega
  · have hle := Nat.mul_le_mul_right n haway
    omega

/-- A write that spares the first two blocks. -/
theorem Idle.writeBlocks (h : Idle filesize io t) {b count : ℕ} (data : ByteMem)
    (haway : io.vn.baseOffset / io.blkSize + 2 ≤ b ∨ b + count ≤ io.vn.baseOffset / io.blkSize) :
    Idle filesize io (t.writeBlocks b count data) := by
  have hblock : headerBytes ≤ io.blkSize := h.blkSize ▸ h.fresh.block
  have hdev : (t.writeBlocks b count data).io.device
      = t.io.device.transfer (b * io.blkSize) data 0 (count * io.blkSize) := by
    rw [← h.blkSize]
    rfl
  have hpristine : Pristine filesize io (t.writeBlocks b count data).io.device := by
    refine (h.contents _ List.mem_cons_self).congr hblock fun k hk x hx => ?_
    rw [hdev, blockOn_setDevice, blockOn_setDevice]
    refine transfer_block_away hx ?_
    rcases haway with haway | haway <;> omega
  have hcontents : (t.writeBlocks b count data).contents
      = t.contents ++ [(t.writeBlocks b count data).io.device] := rfl
  refine ⟨⟨h.fresh.block, h.fresh.page, h.fresh.fits, h.fresh.filesize_lt, h.fresh.header, ?_,
    h.fresh.live⟩, h.base, h.blkSize, fun d hd => ?_⟩
  · -- the record is block one of the file
    refine (h.blkSize ▸ hpristine.region).congr fun x hx => ?_
    have hlt : x < t.io.blkSize := lt_of_lt_of_le hx (le_trans (by decide) h.fresh.block)
    have hrecord := record_blkSize (s := t.writeBlocks b count data) h.fresh.block h.fresh.fits hlt
    refine hrecord.trans ?_
    have hbase : (t.writeBlocks b count data).io.vn.baseOffset = io.vn.baseOffset := h.base
    have hblk : (t.writeBlocks b count data).io.blkSize = io.blkSize := h.blkSize
    rw [blockOn, hbase, hblk]
    rfl
  · rw [hcontents] at hd
    rcases List.mem_cons.mp hd with rfl | hd
    · exact hpristine
    · rcases List.mem_append.mp hd with hd | hd
      · exact h.contents d (List.mem_cons_of_mem _ hd)
      · rw [List.mem_singleton.mp hd]
        exact hpristine

theorem Idle.opStep (h : Idle filesize io t) (hroom : 2 * io.blkSize ≤ filesize) {op : Op}
    (hop : Spares filesize io.blkSize io.vn.baseOffset op) (hstep : opStep fuel t op = some t') :
    Idle filesize io t' := by
  cases op with
  | call c =>
    have hc : Refused filesize t.io.blkSize c := by
      rw [h.blkSize]
      exact hop
    have hsame : DiskSwap.opStep fuel t (.call c) = some t :=
      h.fresh.step_refused (by rw [h.blkSize]; exact hroom) hc
    rw [hsame] at hstep
    exact Option.some.inj hstep ▸ h
  | write id nPages offsetBytes data =>
    obtain ⟨hdr, hmeta, hh⟩ := h.fresh.header
    rw [DiskSwap.opStep, Option.some.injEq] at hstep
    subst hstep
    by_cases hnone : id = 0 ∨ nPages = 0
    · rw [swapWrite, if_pos hnone]
      exact h
    · rw [swapWrite, if_neg hnone, hmeta]
      dsimp only
      rw [if_neg (not_not.mpr hh.magic), Swap.blockAt, h.base, h.blkSize]
      refine h.writeBlocks data ?_
      rcases hop with hid | hn | haway
      · exact absurd (.inl hid) hnone
      · exact absurd (.inr hn) hnone
      · exact haway

end calls

/-! ### Formatted files -/

section formatted

variable {uid gid : ℕ} {s s' : State Unit}

/-- A formatted file, mounted. -/
theorem Formatted.idle (h : Usable s uid gid) (hf : Formatted s s') (hpage : s.blkSize ≤ pageSize)
    (behind : ByteMem) : Idle s.vn.filesize s' (mounted ⟨s', none, [], []⟩ behind) := by
  have hu := hf.usable h
  obtain ⟨hread, hflags⟩ := (hf.pristine h).readHeader behind
  have hzero : ∀ x < headerBytes, blockOn (s'.setDevice (mountedIo s' behind).device) 0 x
      = mountedHeader (readHeader s' behind) x := by
    intro x hx
    rw [← blockOn_zero_mountedIo hu hx, blockOn_setDevice, blockOn, mountedIo_baseOffset,
      mountedIo_blkSize]
  have hone : ∀ x < s'.blkSize, blockOn (s'.setDevice (mountedIo s' behind).device) 1 x
      = blockOn s' 1 x := by
    intro x hx
    rw [blockOn_setDevice, ← blockOn_one_mountedIo hu hx, blockOn, mountedIo_baseOffset,
      mountedIo_blkSize]
  have hpristine : Pristine s.vn.filesize s' (mountedIo s' behind).device := by
    refine ⟨(hread.mountedHeader hu.block_lt).congr hzero, ?_, ?_⟩
    · have heq : Header.flags (blockOn (s'.setDevice (mountedIo s' behind).device) 0)
          = Header.flags (mountedHeader (readHeader s' behind)) :=
        ByteMem.load_congr fun x hx => hzero x (lt_trans hx.2 (by decide))
      rw [heq]
      exact flags_mountedHeader hflags
    · exact (hf.pristine h).region.congr fun x hx =>
        hone x (lt_of_lt_of_le hx (le_trans (by decide) hu.block))
  refine ⟨fresh_mounted h hf behind hpage, ?_, ?_, fun d hd => ?_⟩
  · rw [mounted_io, mountedIo_baseOffset]
  · rw [mounted_io, mountedIo_blkSize]
  · rw [mounted_io, mounted_contents] at hd
    simp only [List.nil_append, List.mem_cons, List.not_mem_nil, or_false, or_self] at hd
    rw [hd]
    exact hpristine

end formatted

end Obos.DiskSwap
