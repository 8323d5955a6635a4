/-
What formatting and mounting a swap file do.

Both open the file uncached and move whole blocks, so each of their descriptor calls is one
transfer at the descriptor's offset:

* `fdWrite_block`, `fdRead_block` — one block of the file,
* `initializeDiskSwap_eq` — a formatted file holds the header and the record of one free
  region in its first two blocks,
* `initializeDiskSwapDevice_eq` — mounting reads the header and writes it back.
-/
import Obos.DiskSwap

namespace Obos.DiskSwap

open Vfs

/-! ### Files of another size -/

/-- The vnode of a file that has grown. -/
@[simps filesize vtype] def resize (vn : Vnode) (filesize : ℕ) : Vnode := { vn with filesize := filesize }

/-! The size of a file is no part of where it is and who may use it. -/

@[simp] theorem resize_baseOffset (vn : Vnode) (f : ℕ) :
    (resize vn f).baseOffset = vn.baseOffset := rfl

@[simp] theorem resize_hasDriver (vn : Vnode) (f : ℕ) :
    (resize vn f).hasDriver = vn.hasDriver := rfl

@[simp] theorem resize_grants (vn : Vnode) (f uid gid : ℕ) :
    (resize vn f).grants uid gid = vn.grants uid gid := rfl

@[simp] theorem resize_resize (vn : Vnode) (f f' : ℕ) : resize (resize vn f) f' = resize vn f' := rfl

/-! ### Blocks of the file -/

/-- The descriptor is open for uncached reads and writes and stands at the block `off` of a
file that goes that far. -/
structure Ready (s : State Unit) (off : ℕ) : Prop where
  fd : s.fd () = ⟨15#32, off⟩
  driver : s.vn.hasDriver = true
  pos : 0 < s.blkSize
  aligned : off % s.blkSize = 0
  fits : off + s.blkSize < 2 ^ 64
  filesize : s.vn.filesize < 2 ^ 64
  within : s.vn.vtype = .reg → off ≤ s.vn.filesize

/-! What an uncached descriptor with all permissions may do. -/

@[simp] theorem isOpen_all (off : ℕ) : (Fd.mk 15#32 off).isOpen = true :=
  show (15#32).getLsbD 0 = true by decide

@[simp] theorem canRead_all (off : ℕ) : (Fd.mk 15#32 off).canRead = true :=
  show (15#32).getLsbD 1 = true by decide

@[simp] theorem canWrite_all (off : ℕ) : (Fd.mk 15#32 off).canWrite = true :=
  show (15#32).getLsbD 2 = true by decide

@[simp] theorem uncached_all (off : ℕ) : (Fd.mk 15#32 off).uncached = true :=
  show (15#32).getLsbD 3 = true by decide

theorem Ready.not_eof {s : State Unit} {off : ℕ} (h : Ready s off) : isEof s.vn off = false :=
  isEof_eq_false h.within

theorem le_grown {vn : Vnode} {off n : ℕ} (hreg : vn.vtype = .reg) (hoff : off ≤ vn.filesize)
    (hsize : vn.filesize < 2 ^ 64) (hfits : off + n < 2 ^ 64) : off + n ≤ grown vn off n := by
  rw [grown, u64sub_of_le hoff hsize]
  split_ifs with h
  · rw [u64_of_lt (by omega)]
    omega
  · have : ¬ vn.filesize - off < n := fun hlt => h ⟨hlt, hreg⟩
    omega

theorem grown_eq {vn : Vnode} {off n : ℕ} (hsize : vn.filesize < 2 ^ 64)
    (hle : off + n ≤ vn.filesize) : grown vn off n = vn.filesize := by
  rw [grown, u64sub_of_le (by omega) hsize, if_neg]
  rintro ⟨hlt, -⟩
  omega

/-- The seek behind the transfer of a block. -/
theorem advance_block {s : State Unit} {off : ℕ} (hfd : s.fd () = ⟨15#32, off⟩)
    (hdriver : s.vn.hasDriver = true) (haligned : off % s.blkSize = 0)
    (hfits : off + s.blkSize < 2 ^ 64)
    (hend : s.vn.vtype = .reg → off + s.blkSize ≤ s.vn.filesize) :
    advance s () s.blkSize = some (s.setOffset () (off + s.blkSize)) := by
  have hoff : (s.fd ()).offset = off := congrArg Fd.offset hfd
  rw [← hoff] at haligned hfits hend ⊢
  exact advance_eq (by rw [hfd, isOpen_all]) hdriver (Nat.dvd_of_mod_eq_zero haligned) dvd_rfl hend
    hfits

section

variable (s : State Unit)

/-- The state behind the write of a block. -/
def wroteBlock (off : ℕ) (buf : List UInt8) : State Unit :=
  (((s.called [uncachedCall s () s.blkSize]).setDevice
    (s.device.write (u64 (off + s.vn.baseOffset) / s.blkSize * s.blkSize) buf)).setFilesize
      (grown s.vn off s.blkSize)).setOffset () (off + s.blkSize)

@[simp] theorem wroteBlock_blkSize (off : ℕ) (buf : List UInt8) :
    (wroteBlock s off buf).blkSize = s.blkSize := rfl

@[simp] theorem wroteBlock_device (off : ℕ) (buf : List UInt8) :
    (wroteBlock s off buf).device
      = s.device.write (u64 (off + s.vn.baseOffset) / s.blkSize * s.blkSize) buf := rfl

@[simp] theorem wroteBlock_vn (off : ℕ) (buf : List UInt8) :
    (wroteBlock s off buf).vn = resize s.vn (grown s.vn off s.blkSize) := rfl

theorem grown_lt {vn : Vnode} {off n : ℕ} (h : vn.filesize < 2 ^ 64) : grown vn off n < 2 ^ 64 := by
  rw [grown]
  split_ifs
  · exact u64_lt _
  · exact h

theorem fdWrite_block {s : State Unit} {off : ℕ} (h : Ready s off) {buf : List UInt8}
    (hlen : buf.length = s.blkSize) :
    fdWrite s () buf true = some (wroteBlock s off buf, ⟨.success, s.blkSize⟩) := by
  have hpos : s.blkSize ≠ 0 := h.pos.ne'
  have hdo : doWrite s () buf true = some ((s.called [uncachedCall s () s.blkSize]).setDevice
      (s.device.write (u64 (off + s.vn.baseOffset) / s.blkSize * s.blkSize) buf),
      ⟨.success, s.blkSize⟩) := by
    simp [doWrite, doUncachedWrite, h.driver, hlen, uncachedCall, h.fd]
  have hadv := advance_block (s := ((s.called [uncachedCall s () s.blkSize]).setDevice
    (s.device.write (u64 (off + s.vn.baseOffset) / s.blkSize * s.blkSize) buf)).setFilesize
      (grown s.vn off s.blkSize)) h.fd h.driver h.aligned h.fits
    fun hreg => le_grown hreg (h.within hreg) h.filesize h.fits
  rw [fdWrite, hdo, h.fd]
  simp only [isOpen_all, canWrite_all, h.not_eof, hlen, hpos, Bool.not_true, Bool.false_eq_true,
    if_false, Option.bind_some, finishWrite, if_true]
  have hoff : (((s.called [uncachedCall s () s.blkSize]).setDevice
      (s.device.write (u64 (off + s.vn.baseOffset) / s.blkSize * s.blkSize) buf)).fd ()).offset
      = off := congrArg Fd.offset h.fd
  rw [hoff]
  exact congrArg (Option.map _) hadv

/-- The state behind the read of a block. -/
def readBlock (off : ℕ) : State Unit :=
  (s.called [uncachedCall s () s.blkSize]).setOffset () (off + s.blkSize)

theorem fdRead_block {s : State Unit} {off : ℕ} (h : Ready s off)
    (hend : s.vn.vtype = .reg → off + s.blkSize ≤ s.vn.filesize) :
    fdRead s () s.blkSize true = some (readBlock s off,
      ⟨.success, s.device.slice (u64 (off + s.vn.baseOffset) / s.blkSize * s.blkSize)
        s.blkSize⟩) := by
  have hpos : s.blkSize ≠ 0 := h.pos.ne'
  have hall : truncated s.vn off s.blkSize = s.blkSize := by
    rw [truncated, if_neg]
    rintro ⟨hlt, hreg⟩
    have hle := hend hreg
    rw [u64sub_of_le (by omega) h.filesize] at hlt
    omega
  have hdo : doRead s () s.blkSize true = some (s.called [uncachedCall s () s.blkSize],
      ⟨.success, s.device.slice (u64 (off + s.vn.baseOffset) / s.blkSize * s.blkSize)
        s.blkSize⟩) := by
    simp [doRead, doUncachedRead, h.driver, uncachedCall, h.fd]
  have hadv := advance_block (s := s.called [uncachedCall s () s.blkSize]) h.fd h.driver
    h.aligned h.fits hend
  rw [fdRead, h.fd]
  simp only [isOpen_all, canRead_all, h.not_eof, hpos, Bool.not_true, Bool.false_eq_true, if_false,
    hall, hdo, Option.bind_some, finishRead, if_true]
  exact congrArg (Option.map _) hadv

/-! ### Opening -/

/-- A file that can be opened for reading and writing, with blocks that hold a header, and the
addresses of whose first two blocks fit in a word. -/
structure Usable (s : State Unit) (uid gid : ℕ) : Prop where
  driver : s.vn.hasDriver = true
  grants : s.vn.grants uid gid = (true, true)
  block : headerBytes ≤ s.blkSize
  fits : s.vn.baseOffset + 2 * s.blkSize < 2 ^ 64
  filesize : s.vn.filesize < 2 ^ 64

@[simps blkSize vn] def opened : State Unit :=
  { s with fd := fun _ => ⟨15#32, 0⟩ }

@[simp] theorem opened_device : (opened s).device = s.device := rfl

theorem opened_setOffset : (opened s).setOffset () 0 = opened s := by
  have hfd : Function.update (opened s).fd () ⟨15#32, 0⟩ = (opened s).fd := funext fun _ => rfl
  rw [State.setOffset]
  exact congrArg (fun fd => { opened s with fd := fd }) hfd

theorem openFile_eq {s : State Unit} {uid gid : ℕ} (hdriver : s.vn.hasDriver = true)
    (hgrants : s.vn.grants uid gid = (true, true)) :
    openFile s uid gid = (opened s, .success) := by
  have hdir : s.vn.vtype ≠ .dir := by
    intro hdir
    simp [Vnode.hasDriver, hdir] at hdriver
  have hclosed : (Fd.mk 0#32 0).isOpen = false := show (0#32).getLsbD 0 = false by decide
  rw [openFile, fdOpenVnode, hclosed, hgrants]
  by_cases hchr : s.vn.vtype = .chr
  · simp only [hchr]
    rfl
  · simp only [hdir, hchr, if_false]
    rfl

theorem Usable.ready {s : State Unit} {uid gid : ℕ} (h : Usable s uid gid) : Ready (opened s) 0 where
  fd := rfl
  driver := h.driver
  pos := lt_of_lt_of_le (by decide) h.block
  aligned := Nat.zero_mod _
  fits := by have := h.fits; simp only [opened]; omega
  filesize := h.filesize
  within := fun _ => Nat.zero_le _

/-- Behind a write the descriptor stands at the next block. -/
theorem Ready.wroteBlock {s : State Unit} {off : ℕ} (h : Ready s off) (buf : List UInt8)
    (hfits : off + 2 * s.blkSize < 2 ^ 64) :
    Ready (wroteBlock s off buf) (off + s.blkSize) where
  fd := by simp [DiskSwap.wroteBlock, State.setOffset, State.setFilesize, State.setDevice,
    State.called, h.fd]
  driver := h.driver
  pos := h.pos
  aligned := (Nat.add_mod_right off s.blkSize).trans h.aligned
  fits := by
    rw [wroteBlock_blkSize]
    omega
  filesize := by
    rw [wroteBlock_vn]
    exact grown_lt h.filesize
  within := fun hreg => le_grown hreg (h.within hreg) h.filesize h.fits

/-- The write of the first block, from wherever the descriptor stands. -/
theorem writeFirst_eq {s : State Unit} (h : Ready (s.setOffset () 0) 0)
    (hopen : (s.fd ()).isOpen = true) (block : ByteMem) :
    writeFirst s block = some (wroteBlock (s.setOffset () 0) 0 (block.slice 0 s.blkSize)) := by
  have hseek : fdSeek s () 0 .set = some (s.setOffset () 0, .success) := by
    have hzero : toU64 0 = 0 := rfl
    have heof : isEof s.vn 0 = false := h.not_eof
    have hdriver : s.vn.hasDriver = true := h.driver
    rw [fdSeek, hopen, hdriver, hzero, Nat.zero_mod, finalOff, heof]
    rfl
  have hlen : (block.slice 0 s.blkSize).length = (s.setOffset () 0).blkSize := ByteMem.length_slice _ _ _
  have hwrite := fdWrite_block h hlen
  rw [writeFirst, hseek, Option.bind_some, hwrite]
  rfl

/-! ### Blocks on the device -/

/-- Block `k` of the file. -/
def blockOn (k : ℕ) : ByteMem := fun x =>
  s.device ((s.vn.baseOffset / s.blkSize + k) * s.blkSize + x)

theorem blockOn_setDevice (device : ByteMem) (k x : ℕ) :
    blockOn (s.setDevice device) k x = device ((s.vn.baseOffset / s.blkSize + k) * s.blkSize + x) :=
  rfl

/-- The address of block `k`. -/
theorem blockAddr_eq {base blk k : ℕ} (hblk : 0 < blk) (hfits : k * blk + base < 2 ^ 64) :
    u64 (k * blk + base) / blk = base / blk + k := by
  rw [u64_of_lt hfits, Nat.add_comm, Nat.add_mul_div_right _ _ hblk]

theorem write_block_self {m : ByteMem} {a n x : ℕ} (b : ByteMem) (hx : x < n) :
    m.write a (b.slice 0 n) (a + x) = b x := by
  rw [ByteMem.write_of_has, Nat.add_sub_cancel_left, ByteMem.slice_getD hx, Nat.zero_add]
  refine ⟨Nat.le_add_right _ _, ?_⟩
  rw [ByteMem.length_slice, Span.stop_mk]
  omega

theorem write_block_ne {m : ByteMem} {k k' n x : ℕ} (b : ByteMem) (hk : k ≠ k') (hx : x < n) :
    m.write (k * n) (b.slice 0 n) (k' * n + x) = m (k' * n + x) := by
  refine ByteMem.write_of_not_has fun hhas => hk ?_
  obtain ⟨hlo, hhi⟩ := hhas
  rw [ByteMem.length_slice, Span.stop_mk] at hhi
  have hdiv : (k' * n + x) / n = k' := by
    rw [Nat.add_comm, Nat.add_mul_div_right _ _ (by omega), Nat.div_eq_of_lt hx, Nat.zero_add]
  have hle : k ≤ (k' * n + x) / n := (Nat.le_div_iff_mul_le (by omega)).mpr hlo
  have hlt : (k' * n + x) / n < k + 1 :=
    (Nat.div_lt_iff_lt_mul (by omega)).mpr (by rw [Nat.add_one_mul]; exact hhi)
  omega

/-! ### Formatting -/

/-- The file `s'` is `s` behind a format: its first two blocks hold the header and the record,
and the file is long enough for them. -/
structure Formatted (s s' : State Unit) : Prop where
  vn : s'.vn = resize s.vn s'.vn.filesize
  blkSize : s'.blkSize = s.blkSize
  header : ∀ x < s.blkSize,
    blockOn s' 0 x = blockOf (formatHeader s.vn.filesize s.blkSize) headerBytes x
  region : ∀ x < s.blkSize,
    blockOn s' 1 x = blockOf (formatRegion s.vn.filesize s.blkSize) regionBytes x
  same : 2 * s.blkSize ≤ s.vn.filesize → s'.vn.filesize = s.vn.filesize
  long : s.vn.vtype = .reg → 2 * s.blkSize ≤ s'.vn.filesize
  filesize : s'.vn.filesize < 2 ^ 64

/-- The blocks that a format writes. -/
def headerBlock : ByteMem :=
  blockOf (formatHeader s.vn.filesize s.blkSize) headerBytes

def regionBlock : ByteMem :=
  blockOf (formatRegion s.vn.filesize s.blkSize) regionBytes

/-- The file behind the first of the two writes. -/
def halfFormatted : State Unit :=
  wroteBlock (opened s) 0 ((headerBlock s).slice 0 s.blkSize)

def formatted : State Unit :=
  wroteBlock (halfFormatted s) s.blkSize ((regionBlock s).slice 0 s.blkSize)

end

section format

variable {s : State Unit} {uid gid : ℕ}

section

variable (s : State Unit)

@[simp] theorem halfFormatted_blkSize : (halfFormatted s).blkSize = s.blkSize := by
  rw [halfFormatted, wroteBlock_blkSize, opened_blkSize]

@[simp] theorem halfFormatted_vn :
    (halfFormatted s).vn = resize s.vn (grown s.vn 0 s.blkSize) := by
  rw [halfFormatted, wroteBlock_vn, opened_vn, opened_blkSize]

@[simp] theorem formatted_blkSize : (formatted s).blkSize = s.blkSize := by
  rw [formatted, wroteBlock_blkSize, halfFormatted_blkSize]

@[simp] theorem formatted_vn : (formatted s).vn
    = resize s.vn (grown (resize s.vn (grown s.vn 0 s.blkSize)) s.blkSize s.blkSize) := by
  rw [formatted, wroteBlock_vn, halfFormatted_vn, halfFormatted_blkSize, resize_resize]

theorem formatted_baseOffset : (formatted s).vn.baseOffset = s.vn.baseOffset := by
  rw [formatted_vn, resize_baseOffset]

end

variable (h : Usable s uid gid)
include h

theorem Usable.blkSize_pos : 0 < s.blkSize :=
  lt_of_lt_of_le (by decide) h.block

theorem Usable.ready_half : Ready (halfFormatted s) s.blkSize := by
  have hfits := h.fits
  have hready := h.ready.wroteBlock ((headerBlock s).slice 0 s.blkSize)
    (by rw [opened_blkSize]; omega)
  rwa [opened_blkSize, Nat.zero_add] at hready

theorem initializeDiskSwap_eq (hne : s.vn.filesize ≠ headerBytes) :
    initializeDiskSwap s uid gid = some (formatted s, .success) := by
  have hfirst : writeFirst (opened s) (headerBlock s) = some (halfFormatted s) := by
    have hready : Ready ((opened s).setOffset () 0) 0 := by
      rw [opened_setOffset]
      exact h.ready
    have hwrite := writeFirst_eq hready (isOpen_all 0) (headerBlock s)
    rwa [opened_setOffset] at hwrite
  have hlen : ((regionBlock s).slice 0 s.blkSize).length = (halfFormatted s).blkSize := by
    rw [ByteMem.length_slice, halfFormatted_blkSize]
  have hsecond := fdWrite_block h.ready_half hlen
  rw [initializeDiskSwap, if_neg hne]
  rw [openFile_eq h.driver h.grants, if_neg (not_not.mpr rfl), h.driver,
    decide_eq_false (Nat.not_lt.mpr h.block), if_neg (by decide)]
  rw [headerBlock] at hfirst
  rw [regionBlock] at hsecond
  rw [hfirst, Option.bind_some, hsecond, Option.map_some, formatted, regionBlock]

theorem Usable.firstBlock :
    u64 (0 + s.vn.baseOffset) / s.blkSize = s.vn.baseOffset / s.blkSize + 0 := by
  have hfits := h.fits
  have haddr : u64 (0 * s.blkSize + s.vn.baseOffset) / s.blkSize = _ :=
    blockAddr_eq h.blkSize_pos (by omega)
  rwa [Nat.zero_mul] at haddr

theorem formatted_device :
    (formatted s).device
      = (s.device.write ((s.vn.baseOffset / s.blkSize + 0) * s.blkSize)
          ((headerBlock s).slice 0 s.blkSize)).write
        ((s.vn.baseOffset / s.blkSize + 1) * s.blkSize) ((regionBlock s).slice 0 s.blkSize) := by
  have hfits := h.fits
  have hbase : (halfFormatted s).vn.baseOffset = s.vn.baseOffset := by
    rw [halfFormatted_vn, resize_baseOffset]
  have hone : u64 (s.blkSize + s.vn.baseOffset) / s.blkSize = s.vn.baseOffset / s.blkSize + 1 := by
    have haddr : u64 (1 * s.blkSize + s.vn.baseOffset) / s.blkSize = _ :=
      blockAddr_eq h.blkSize_pos (by omega)
    rwa [Nat.one_mul] at haddr
  rw [formatted, wroteBlock_device, hbase, halfFormatted_blkSize, hone, halfFormatted,
    wroteBlock_device, opened_vn, opened_device, opened_blkSize,
    h.firstBlock]

theorem formatted_spec : Formatted s (formatted s) where
  vn := by rw [formatted_vn, resize_filesize]
  blkSize := formatted_blkSize s
  header := by
    intro x hx
    rw [blockOn, formatted_baseOffset, formatted_blkSize, formatted_device h,
      write_block_ne _ (by omega) hx, write_block_self _ hx, headerBlock]
  region := by
    intro x hx
    rw [blockOn, formatted_baseOffset, formatted_blkSize, formatted_device h,
      write_block_self _ hx, regionBlock]
  same := by
    intro hle
    have hfirst : grown s.vn 0 s.blkSize = s.vn.filesize := grown_eq h.filesize (by omega)
    rw [formatted_vn, resize_filesize, hfirst, grown_eq, resize_filesize]
    · exact h.filesize
    · rw [resize_filesize]
      omega
  long := by
    intro hreg
    have hhalf := h.ready_half
    have hreg' : (halfFormatted s).vn.vtype = .reg := by rw [halfFormatted_vn, resize_vtype, hreg]
    have hle := le_grown hreg' (hhalf.within hreg') hhalf.filesize hhalf.fits
    rw [halfFormatted_vn, halfFormatted_blkSize] at hle
    rw [formatted_vn, resize_filesize]
    omega
  filesize := by
    rw [formatted_vn, resize_filesize]
    exact grown_lt (grown_lt h.filesize)

end format

/-! ### Mounting -/

section

variable (s : State Unit)

/-- The header that mounting reads, in the memory `behind`. -/
def readHeader (behind : ByteMem) : ByteMem :=
  behind.overwrite ⟨0, headerBytes⟩ (blockOn s 0)

/-- The file with its header read, and the descriptor back at the start. -/
def rewound : State Unit := (readBlock (opened s) 0).setOffset () 0

@[simp] theorem rewound_blkSize : (rewound s).blkSize = s.blkSize := rfl

@[simp] theorem rewound_device : (rewound s).device = s.device := rfl

@[simp] theorem rewound_vn : (rewound s).vn = s.vn := rfl

/-- The file with the header of the mounted device in its first block. -/
def mountedIo (behind : ByteMem) : State Unit :=
  wroteBlock (rewound s) 0 ((blockOf (mountedHeader (readHeader s behind)) headerBytes).slice 0
    s.blkSize)

end

def mounted (s : Swap) (behind : ByteMem) : Swap :=
  (s.written (mountedIo s.io behind)).setMetadata (mountedHeader (readHeader s.io behind))

@[simp] theorem mounted_io (s : Swap) (behind : ByteMem) :
    (mounted s behind).io = mountedIo s.io behind := rfl

@[simp] theorem mounted_contents (s : Swap) (behind : ByteMem) :
    (mounted s behind).contents = s.contents ++ [(mountedIo s.io behind).device] := rfl

section mount

variable {s : Swap} {s' : Swap} {io : State Unit} {uid gid : ℕ} {behind : ByteMem}

theorem Usable.ready_rewound (h : Usable io uid gid) : Ready (rewound io) 0 where
  fd := by
    rw [rewound, readBlock]
    simp [State.setOffset, State.called, opened]
  driver := h.driver
  pos := h.blkSize_pos
  aligned := Nat.zero_mod _
  fits := h.ready.fits
  filesize := h.filesize
  within := fun _ => Nat.zero_le _

/-- The header is what the first block of the file says. -/
theorem Usable.overwrite_slice (h : Usable io uid gid) (behind : ByteMem) :
    (behind.overwrite ⟨0, headerBytes⟩ fun x => (io.device.slice
      (u64 (0 + io.vn.baseOffset) / io.blkSize * io.blkSize) io.blkSize).getD x 0)
      = readHeader io behind := by
  funext x
  by_cases hx : (Span.mk 0 headerBytes).Has x
  · have hlt : x < io.blkSize := by
      have hstop := hx.2
      rw [Span.stop_mk, Nat.zero_add] at hstop
      exact lt_of_lt_of_le hstop h.block
    rw [readHeader, ByteMem.overwrite_of_has hx, ByteMem.overwrite_of_has hx, ByteMem.slice_getD hlt,
      h.firstBlock, blockOn]
  · rw [readHeader, ByteMem.overwrite_of_not_has hx, ByteMem.overwrite_of_not_has hx]

/-- Mounting a file whose blocks are not larger than a page comes down to its header. -/
theorem initializeDiskSwapDevice_eq (h : Usable s.io uid gid) (hpage : s.io.blkSize ≤ pageSize)
    (hlong : s.io.vn.vtype = .reg → s.io.blkSize ≤ s.io.vn.filesize) :
    initializeDiskSwapDevice s uid gid behind =
      if headerStatus (readHeader s.io behind) s.io.vn.filesize s.io.blkSize = .success then
        some (mounted s behind, .success)
      else some (s.setIo (readBlock (opened s.io) 0),
        headerStatus (readHeader s.io behind) s.io.vn.filesize s.io.blkSize) := by
  have hread := fdRead_block h.ready (by rw [opened_vn, opened_blkSize, Nat.zero_add]; exact hlong)
  rw [opened_vn, opened_blkSize, opened_device] at hread
  have hopen : ((readBlock (opened s.io) 0).fd ()).isOpen = true := by
    rw [readBlock]
    simp [State.setOffset, State.called, opened]
  have hfirst := writeFirst_eq h.ready_rewound hopen
    (blockOf (mountedHeader (readHeader s.io behind)) headerBytes)
  rw [initializeDiskSwapDevice]
  rw [openFile_eq h.driver h.grants, if_neg (not_not.mpr rfl), h.driver, if_neg (by decide),
    if_neg (Nat.not_lt.mpr hpage), hread, Option.bind_some]
  dsimp only
  rw [if_neg (not_not.mpr rfl), if_neg (Nat.not_lt.mpr h.block), h.overwrite_slice, hfirst]
  exact ite_not _ _ _

/-- What a mount that succeeds has found and done. -/
theorem mounted_of_success (h : Usable s.io uid gid)
    (hlong : s.io.vn.vtype = .reg → s.io.blkSize ≤ s.io.vn.filesize)
    (hmount : initializeDiskSwapDevice s uid gid behind = some (s', .success)) :
    s.io.blkSize ≤ pageSize ∧
      headerStatus (readHeader s.io behind) s.io.vn.filesize s.io.blkSize = .success ∧
      s' = mounted s behind := by
  have hpage : s.io.blkSize ≤ pageSize := by
    by_contra hlt
    rw [initializeDiskSwapDevice] at hmount
    dsimp only at hmount
    rw [openFile_eq h.driver h.grants, if_neg (not_not.mpr rfl), h.driver, if_neg (by decide),
      if_pos (Nat.lt_of_not_le hlt)] at hmount
    cases (Prod.mk.inj (Option.some.inj hmount)).2
  rw [initializeDiskSwapDevice_eq h hpage hlong] at hmount
  split_ifs at hmount with hst
  · exact ⟨hpage, hst, (Prod.mk.inj (Option.some.inj hmount)).1.symm⟩
  · exact absurd (Prod.mk.inj (Option.some.inj hmount)).2 hst

theorem mountedIo_device (h : Usable io uid gid) : (mountedIo io behind).device
    = io.device.write ((io.vn.baseOffset / io.blkSize + 0) * io.blkSize)
      ((blockOf (mountedHeader (readHeader io behind)) headerBytes).slice 0 io.blkSize) := by
  rw [mountedIo, wroteBlock_device, rewound_vn, rewound_blkSize, rewound_device, h.firstBlock]

@[simp] theorem mountedIo_blkSize (io : State Unit) (behind : ByteMem) :
    (mountedIo io behind).blkSize = io.blkSize := by
  rw [mountedIo, wroteBlock_blkSize, rewound_blkSize]

theorem mountedIo_baseOffset (io : State Unit) (behind : ByteMem) :
    (mountedIo io behind).vn.baseOffset = io.vn.baseOffset := by
  rw [mountedIo, wroteBlock_vn, rewound_vn, resize_baseOffset]

end mount

end Obos.DiskSwap
