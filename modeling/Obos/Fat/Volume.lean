/-
The FAT driver (`drivers/generic/slowfat`): volumes and the entries of the file
allocation table.

A volume is a device seen through one descriptor, so its state is the bytes of the
device and the offset of the descriptor.  All transfers of the driver are of whole
blocks at multiples of the block size, for which the descriptor is an array with a
cursor.  The driver takes its sector numbers for block numbers; the blocks are those of
the device and need not have the size of the sectors.

An entry of the table is read and written in a buffer that holds one block.  An access
behind the end of the buffer has no result.

* `markWith` — how `markAllocated`, `markFree` and `markEnd` write an entry: the sector
  of the first copy of the table is changed and written to every copy,
* `isClusterFree`, `nextCluster` — how entries are read,
* `writeCopies_bytes` — what the device stores after one sector was written to every copy.
-/
import Obos.Lib.ByteMem
import Obos.Machine

namespace Obos.Fat

inductive FatType where
  | fat32
  | fat16
  | fat12
  deriving DecidableEq, Repr

/-- What `fat_cache` keeps of a volume.  `padding` are the four bits that a `fat12_entry`
has above its field: they are not set, and are what the stack had there. -/
structure Volume where
  fatType : FatType
  blkSize : ℕ
  padding : ℕ
  reservedSectorCount : ℕ
  nFATs : ℕ
  bytesPerSector : ℕ
  sectorsPerCluster : ℕ
  fatSz : ℕ
  firstDataSector : ℕ
  countofClusters : ℕ
  deriving DecidableEq, Repr

/-- The device and the offset of the descriptor. -/
structure Disk where
  bytes : ByteMem
  offset : ℕ

/-- The 32-bit value of a sum or product. -/
def u32 (x : ℕ) : ℕ := x % 2 ^ 32

theorem u32_of_lt {x : ℕ} (h : x < 2 ^ 32) : u32 x = x := Nat.mod_eq_of_lt h

/-! ### The descriptor -/

namespace Disk

def fdSeek (d : Disk) (off : ℕ) : Disk := { d with offset := off }

/-- `Vfs_FdRead` of `n` bytes. -/
def fdRead (d : Disk) (n : ℕ) : Disk × ByteMem :=
  ({ d with offset := d.offset + n }, fun j => d.bytes (d.offset + j))

/-- `Vfs_FdWrite` of the first `n` bytes of `buf`. -/
def fdWrite (d : Disk) (buf : ByteMem) (n : ℕ) : Disk :=
  ⟨d.bytes.transfer d.offset buf 0 n, d.offset + n⟩

end Disk

/-! ### Entries -/

/-- `fat_entry_addr`. -/
structure EntryAddr where
  lba : ℕ
  offset : ℕ
  deriving DecidableEq, Repr

def fatOffset (t : FatType) (cluster : ℕ) : ℕ :=
  match t with
  | .fat32 => u32 (cluster * 4)
  | .fat16 => u32 (cluster * 2)
  | .fat12 => u32 (cluster + cluster / 2)

section

variable (v : Volume)

def getFatEntryAddrForCluster (cluster : ℕ) : EntryAddr where
  lba := v.reservedSectorCount + fatOffset v.fatType cluster / v.bytesPerSector
  offset := fatOffset v.fatType cluster % v.bytesPerSector

/-- `GetFat12Entry`: the value of an odd cluster is taken from the low bits. -/
def getFat12Entry (val valCluster : ℕ) : ℕ :=
  if valCluster % 2 ≠ 0 then val % 4096 else val / 16 % 4096

/-- Bytes that the access to an entry covers. -/
def FatType.width : FatType → ℕ
  | .fat32 => 4
  | .fat16 => 2
  | .fat12 => 2

/-- Bits of an entry. -/
def FatType.bits : FatType → ℕ
  | .fat32 => 28
  | .fat16 => 16
  | .fat12 => 12

/-- The entry of `cluster` in a sector. -/
def getEntry (t : FatType) (sector : ByteMem) (offset cluster : ℕ) : ℕ :=
  match t with
  | .fat32 => sector.load offset 4 % 2 ^ 28
  | .fat16 => sector.load offset 2
  | .fat12 => getFat12Entry (sector.load offset 2) cluster

/-- `ent.ent = val` and the copy of the structure back into the sector.  The bits of
`fat32_entry` above the field are those that were read. -/
def putEntry (sector : ByteMem) (offset val : ℕ) : ByteMem :=
  match v.fatType with
  | .fat32 =>
    sector.store offset 4 (sector.load offset 4 / 2 ^ 28 * 2 ^ 28 + val % 2 ^ 28)
  | .fat16 => sector.store offset 2 (val % 2 ^ 16)
  | .fat12 => sector.store offset 2 (v.padding % 2 ^ 4 * 2 ^ 12 + val % 2 ^ 12)

/-- The buffer has room for the access. -/
def fitsSector (cluster : ℕ) : Bool :=
  (getFatEntryAddrForCluster v cluster).offset + v.fatType.width ≤ v.blkSize

variable (d : Disk)

variable (cluster : ℕ)

variable (sector : ByteMem)

/-- The loop that writes a sector to the first `n` copies. -/
def writeCopies (n : ℕ) : Disk :=
  (List.range n).foldl (fun d i =>
    (d.fdSeek (((getFatEntryAddrForCluster v cluster).lba + v.fatSz * i) *
      v.blkSize)).fdWrite sector v.blkSize) d

/-- Write `val` into the entry of `cluster`, in every copy of the table. -/
def markWith (cluster val : ℕ) : Option Disk :=
  let addr := getFatEntryAddrForCluster v cluster
  let (d, sector) := (d.fdSeek (addr.lba * v.blkSize)).fdRead v.blkSize
  if fitsSector v cluster then
    some (writeCopies v d cluster (putEntry v sector addr.offset val) v.nFATs)
  else none

def markAllocated : Option Disk :=
  markWith v d cluster (u32 (cluster + 1))

def markFree : Option Disk := markWith v d cluster 0

def FatType.endMark : FatType → ℕ
  | .fat32 => 0x0FFFFFF8
  | .fat16 => 0xFFF8
  | .fat12 => 0x0FF8

def markEnd : Option Disk :=
  markWith v d cluster v.fatType.endMark

/-- `isClusterFree`; the sector is read only if the descriptor is not at it. -/
def isClusterFree :
    Option (Disk × ByteMem × Bool) :=
  let addr := getFatEntryAddrForCluster v cluster
  let (d, sector) :=
    if d.offset ≠ addr.lba * v.blkSize then
      (d.fdSeek (addr.lba * v.blkSize)).fdRead v.blkSize
    else (d, sector)
  let d := d.fdSeek (addr.lba * v.blkSize)
  if fitsSector v cluster then
    some (d, sector, getEntry v.fatType sector addr.offset cluster == 0)
  else none

/-- `NextCluster`, with the buffer that holds the sector of the entry. -/
def nextCluster : Option (ℕ × Status) :=
  if fitsSector v cluster then
    let res := getEntry v.fatType sector (getFatEntryAddrForCluster v cluster).offset cluster
    some (res, if v.fatType.endMark ≤ res then .eof else .success)
  else none

/-! ### One sector in every copy of the table -/

/-- The sector with the entry of `cluster` in copy `i` of the table. -/
def sectorSpan (cluster i : ℕ) : Span :=
  ⟨((getFatEntryAddrForCluster v cluster).lba + v.fatSz * i) * v.blkSize, v.blkSize⟩

theorem sectorSpan_apart {v : Volume} (hsz : 0 < v.fatSz) (cluster : ℕ) {i j : ℕ} (hij : i < j) :
    (sectorSpan v cluster i).stop ≤ (sectorSpan v cluster j).base := by
  have hle : v.fatSz * i + 1 ≤ v.fatSz * j := by
    calc v.fatSz * i + 1 ≤ v.fatSz * i + v.fatSz := by omega
      _ = v.fatSz * (i + 1) := by ring
      _ ≤ v.fatSz * j := Nat.mul_le_mul_left _ hij
  set l := (getFatEntryAddrForCluster v cluster).lba with hl
  calc (l + v.fatSz * i) * v.blkSize + v.blkSize
      = (l + v.fatSz * i + 1) * v.blkSize := by ring
    _ ≤ (l + v.fatSz * j) * v.blkSize := Nat.mul_le_mul_right _ (by omega)

theorem writeCopies_succ (n : ℕ) :
    writeCopies v d cluster sector (n + 1) =
      ((writeCopies v d cluster sector n).fdSeek (sectorSpan v cluster n).base).fdWrite sector
        v.blkSize := by
  rw [writeCopies, List.range_succ, List.foldl_append]
  rfl

end

/-- What the device stores behind the loop. -/
theorem writeCopies_bytes {v : Volume} (hsz : 0 < v.fatSz) (d : Disk) (cluster : ℕ)
    (sector : ByteMem) (n : ℕ) :
    (∀ i < n, ∀ j < v.blkSize,
      (writeCopies v d cluster sector n).bytes ((sectorSpan v cluster i).base + j) = sector j) ∧
    ∀ x, (∀ i < n, ¬ (sectorSpan v cluster i).Has x) →
      (writeCopies v d cluster sector n).bytes x = d.bytes x := by
  induction n with
  | zero => exact ⟨fun i hi => absurd hi (Nat.not_lt_zero i), fun x _ => rfl⟩
  | succ n ih =>
    rw [writeCopies_succ]
    refine ⟨fun i hi j hj => ?_, fun x hx => ?_⟩
    · rcases Nat.lt_succ_iff_lt_or_eq.mp hi with hi | rfl
      · -- the last write is behind the copies written so far
        have hbehind := sectorSpan_apart hsz cluster hi
        rw [← ih.1 i hi j hj]
        refine ByteMem.transfer_of_not_has fun hh => ?_
        have hlow : (sectorSpan v cluster n).base ≤ (sectorSpan v cluster i).base + j := hh.1
        have hstop : (sectorSpan v cluster i).stop =
          (sectorSpan v cluster i).base + v.blkSize := rfl
        omega
      · refine (ByteMem.transfer_of_has ⟨Nat.le_add_right _ j, ?_⟩).trans ?_
        · show (sectorSpan v cluster i).base + j < (sectorSpan v cluster i).base + v.blkSize
          omega
        · rw [Nat.add_sub_cancel_left, Nat.zero_add]
    · rw [← ih.2 x fun i hi => hx i (Nat.lt_succ_of_lt hi)]
      exact ByteMem.transfer_of_not_has (hx n (Nat.lt_succ_self n))

end Obos.Fat
