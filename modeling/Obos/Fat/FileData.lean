/-
Writing and truncating a file of a FAT volume (`io.c`).

A file is a directory record of 32 bytes that is kept in memory, with the place of the
record on the device.  Its clusters are taken to be contiguous.  A copy that leaves a
buffer has no result; transfers of the device do not fail.

* `followClusterChain` — the walk along a chain.  It calls back with the cluster it was
  started with, each time,
* `writeSync`, `truncFile` — the operations,
* `Answer` — what they return: a status, the bytes in the caller's buffer, and the count
  that is stored if the caller passes a place for it.
-/
import Obos.Fat.FreeList

namespace Obos.Fat

/-! ### Records of files -/

/-- `fat_dirent_cache`: the record, and its place on the device. -/
structure Entry where
  data : ByteMem
  direntFileoff : ℕ
  direntOffset : ℕ

namespace Entry

/-- `attribs & DIRECTORY`. -/
def isDirectory (e : Entry) : Bool := e.data.load 11 1 / 16 % 2 == 1

def filesize (e : Entry) : ℕ := e.data.load 28 4

def setFilesize (e : Entry) (n : ℕ) : Entry := { e with data := e.data.store 28 4 n }

def firstCluster (v : Volume) (e : Entry) : ℕ :=
  match v.fatType with
  | .fat32 => e.data.load 26 2 + 2 ^ 16 * e.data.load 20 2
  | _ => e.data.load 26 2

def setFirstCluster (e : Entry) (cluster : ℕ) : Entry :=
  { e with data := (e.data.store 20 2 (cluster / 2 ^ 16)).store 26 2 (cluster % 2 ^ 16) }

end Entry

variable (v : Volume)

def Volume.bytesPerCluster : ℕ := v.sectorsPerCluster * v.blkSize

/-- The number of clusters that `n` bytes need. -/
def Volume.clustersFor (n : ℕ) : ℕ :=
  n / v.bytesPerCluster + if n % v.bytesPerCluster ≠ 0 then 1 else 0

/-- `ClusterToSector`, with an operand of `w` bits. -/
def clusterToSector (w : ℕ) (v : Volume) (cluster : ℕ) : ℕ :=
  ((cluster + (2 ^ w - 2)) * v.sectorsPerCluster + v.firstDataSector) % 2 ^ w

/-- Seek to a cluster. -/
def Disk.seekCluster (w : ℕ) (v : Volume) (d : Disk) (cluster : ℕ) : Disk :=
  d.fdSeek (clusterToSector w v cluster * v.blkSize)

/-- `WriteFatDirent`: the cluster or sector with the record is read, changed and written. -/
def writeFatDirent (d : Disk) (e : Entry) : Option Disk :=
  let (d, buf) := (d.fdSeek e.direntFileoff).fdRead v.bytesPerCluster
  if e.direntOffset + 32 ≤ v.bytesPerCluster then
    let buf := buf.transfer e.direntOffset e.data 0 32
    some ((d.fdSeek e.direntFileoff).fdWrite buf v.bytesPerCluster)
  else none

/-! ### Walking a chain -/

/-- The loop of `FollowClusterChain`.  The callback says whether to go on. -/
def followLoop {σ : Type} (v : Volume) (clus : ℕ) (sector : ByteMem)
    (callback : ℕ → Status → Disk → σ → Option (Disk × σ × Bool)) :
    ℕ → ℕ → Disk → σ → Option (Disk × σ)
  | 0, _, _, _ => none
  | fuel + 1, curr, d, u => do
    let (d, u, goOn) ← callback clus .success d u
    if goOn then do
      let (next, status) ← nextCluster v curr sector
      if status = .eof then some (d, u)
      else if next = 0 ∨ v.countofClusters ≤ next then do
        let (d, u, _) ← callback 0 .aborted d u
        some (d, u)
      -- the address is that of the first cluster again, so the sector is not read anew
      else followLoop v clus sector callback fuel next d u
    else some (d, u)

def followClusterChain {σ : Type} (v : Volume) (d : Disk) (clus : ℕ)
    (callback : ℕ → Status → Disk → σ → Option (Disk × σ × Bool)) (u : σ) (fuel : ℕ) :
    Option (Disk × σ) :=
  let addr := getFatEntryAddrForCluster v clus
  let (d, sector) := (d.fdSeek (addr.lba * v.blkSize)).fdRead v.blkSize
  followLoop v clus sector callback fuel clus d u

/-! ### Operations -/

structure Answer where
  status : Status
  buf : ByteMem
  count : Option ℕ

/-- Copy `n` clusters from `cluster` to `newCluster`. -/
def copyClusters (d : Disk) (cluster newCluster n : ℕ) : Disk :=
  (List.range n).foldl (fun d i =>
    let (d, clusterBuf) := (d.seekCluster 64 v (cluster + i)).fdRead v.bytesPerCluster
    (d.seekCluster 64 v (newCluster + i)).fdWrite clusterBuf v.bytesPerCluster) d

/-- A file or a directory that grows: a new chain, with the old contents.  `none` in the second
component is that of `AllocateClusters`. -/
def moveClusters (c : Cache) (cluster newSizeCls szClusters : ℕ) :
    Option (Cache × Option ℕ) := do
  let (c, newCluster) ← allocateClusters v c newSizeCls
  if newCluster = uint32Max then some (c, none)
  else do
    let c := { c with disk := copyClusters v c.disk cluster newCluster szClusters }
    let c ← if cluster ≠ 0 then freeClusters v c cluster szClusters else some c
    some (c, some newCluster)

/-- What the loop of `write_sync` keeps. -/
structure WriteData where
  disk : Disk
  clusterBuf : ByteMem
  currentOffset : ℕ
  clusterOffset : ℕ
  bytesLeft : ℕ

def writeRound (buf : ByteMem) (cluster : ℕ) (w : WriteData) (i : ℕ) :
    Option WriteData :=
  if 0 < w.bytesLeft then
    let d := w.disk.seekCluster 64 v (cluster + i)
    let len := if w.bytesLeft ≤ v.bytesPerCluster then w.bytesLeft
      else v.bytesPerCluster - w.clusterOffset
    if w.clusterOffset + len ≤ v.bytesPerCluster then
      let clusterBuf := w.clusterBuf.transfer w.clusterOffset buf w.currentOffset len
      some ⟨d.fdWrite clusterBuf v.bytesPerCluster, fun _ => 0,
        w.currentOffset + v.bytesPerCluster, 0, w.bytesLeft - v.bytesPerCluster⟩
    else none
  else some w

/-- The bytes of a write, into clusters that the file has. -/
def writeClusters (d : Disk) (cluster : ℕ) (buf : ByteMem)
    (blkCount blkOffset : ℕ) : Option Disk :=
  let cluster := u32 (cluster + blkOffset / v.bytesPerCluster)
  let (d, clusterBuf) := (d.seekCluster 32 v cluster).fdRead v.bytesPerCluster
  ((List.range (v.clustersFor blkCount)).foldlM (writeRound v buf cluster)
    ⟨d, clusterBuf, 0, blkOffset % v.bytesPerCluster, blkCount⟩).map WriteData.disk

def writeSync (c : Cache) (e : Entry) (buf : ByteMem) (blkCount blkOffset : ℕ) :
    Option (Cache × Entry × Answer) :=
  if blkCount = 0 then some (c, e, ⟨.success, buf, none⟩)
  else if e.isDirectory then some (c, e, ⟨.invalidArgument, buf, none⟩)
  else do
    let filesz := e.filesize
    let filesizeClusterAligned := v.clustersFor filesz * v.bytesPerCluster
    let expandClusters := decide (filesizeClusterAligned ≤ u64 (blkOffset + blkCount))
    let requiresExpand := decide (filesz < u64 (blkOffset + blkCount)) || expandClusters
    if requiresExpand then do
      let e := e.setFilesize (filesz + blkCount)
      let (c, grown) ←
        if expandClusters then
          (moveClusters v c (e.firstCluster v) (v.clustersFor e.filesize)
            (v.clustersFor filesz)).map fun (c, r) => (c, r.map fun r => (e.setFirstCluster r, r))
        else some (c, some (e, e.firstCluster v))
      match grown with
      | none => some (c, e, ⟨.notEnoughMemory, buf, none⟩)
      | some (e, cluster) => do
        let d ← writeFatDirent v c.disk e
        let d ← writeClusters v d cluster buf blkCount blkOffset
        some ({ c with disk := d }, e, ⟨.success, buf, some blkCount⟩)
    else do
      let d ← writeClusters v c.disk (e.firstCluster v) buf blkCount blkOffset
      some ({ c with disk := d }, e, ⟨.success, buf, some blkCount⟩)

def truncFile (c : Cache) (e : Entry) (blkCount : ℕ) :
    Option (Cache × Entry × Status) :=
  if e.filesize = blkCount then some (c, e, .success)
  else if e.filesize < blkCount then some (c, e, .invalidArgument)
  else do
    let szClusters := v.clustersFor e.filesize
    let e := e.setFilesize blkCount
    let newSizeCls := v.clustersFor e.filesize
    let cluster := e.firstCluster v
    let c ← truncateClusters v c cluster newSizeCls szClusters
    let (c, e) ←
      if newSizeCls = 0 then do
        let c ← freeClusters v c cluster szClusters
        some (c, e.setFirstCluster 0)
      else some (c, e)
    let d ← writeFatDirent v c.disk e
    some ({ c with disk := d }, e, .success)

end Obos.Fat
