/-
Creating and removing files of a FAT volume (`create.c`).

The records of a volume that are cached in memory form a tree; a descriptor is the number
of a node of it.  A new record goes to the first free records that the search finds, in the
sectors of the root directory of a FAT12 or FAT16 volume, or else in the clusters of the
directory, which is moved to a longer chain if there is no room.

* `genShortName`, `lfnRecords` — the records of a name,
* `searchRoot`, `findFreeEntry` — the search for free records,
* `place` — the loop that writes the records,
* `refDirent`, `derefDirent` — records on the device,
* `mkFile`, `removeFile` — the operations.

A copy that leaves a buffer, or a use of a buffer that was freed, has no result.
-/
import Obos.Lib.Loop
import Obos.Fat.FileData

namespace Obos.Fat

open Function

/-! ### Names -/

def space : UInt8 := 0x20

def dot : UInt8 := 0x2E

def slash : UInt8 := 0x2F

def tilde : UInt8 := 0x7E

/-- The characters `<`, `>`, `:`, `"`, `\`, `|`, `?` and `*`. -/
def reservedChars : List UInt8 := [0x3C, 0x3E, 0x3A, 0x22, 0x5C, 0x7C, 0x3F, 0x2A]

def validFilename (filename : List UInt8) (isPath : Bool) : Bool :=
  filename.all fun ch => !reservedChars.contains ch && (isPath || ch != slash)

def toupper (ch : UInt8) : UInt8 := if 0x61 ≤ ch ∧ ch ≤ 0x7A then ch - 0x61 + 0x41 else ch

/-- What is behind the last dot, if there is one. -/
def extension (name : List UInt8) : List UInt8 :=
  if dot ∈ name then (name.reverse.takeWhile (· ≠ dot)).reverse else []

/-- `gen_short_name_impl`, on a zeroed buffer. -/
def genShortNameImpl (longName : List UInt8) : List UInt8 :=
  let longName := longName.dropWhile (· = space)
  let base := (((longName.takeWhile (· ≠ dot)).filter (· ≠ space)).take 8).map toupper
  let ext := ((extension longName).take 3).map toupper
  base ++ List.replicate (8 - base.length) space ++ ext ++ List.replicate (3 - ext.length) 0

/-- `gen_short_name`, with the names of the other children of the directory. -/
def genShortName (longName : List UInt8) (siblings : List (List UInt8)) : Option (List UInt8) :=
  let raw := genShortNameImpl longName
  if longName.length ≤ 11 then some raw
  else
    let n := 1 + siblings.countP fun name => genShortNameImpl name = raw
    let basenameLen := ((raw.take 8).takeWhile (· ≠ space)).length
    let digits := (Nat.toDigits 10 n).map fun ch => UInt8.ofNat ch.toNat
    if basenameLen < digits.length + 1 ∨ 6 < digits.length then none
    else some (raw.take (basenameLen - digits.length - 1) ++ tilde :: digits ++ raw.drop basenameLen)

def checksum (name : List UInt8) : UInt8 :=
  name.foldl (fun sum ch => (if sum % 2 = 1 then 0x80 else 0) + sum / 2 + ch) 0

/-! ### Records of long names -/

/-- `LFN`, the attributes of a record of a long name. -/
def lfnAttribs : UInt8 := 0x0F

/-- A `char`, converted to 16 bits. -/
def wideChar (ch : UInt8) : ℕ := if ch < 0x80 then ch.toNat else 0xFF00 + ch.toNat

/-- Where character `i` of a record of a long name is: in `name1`, `name2` or `name3`. -/
def lfnCharPos (i : ℕ) : ℕ :=
  if i < 5 then 1 + 2 * i else if i < 11 then 14 + 2 * (i - 5) else 28 + 2 * (i - 11)

/-- An `lfn_dirent`.  Each record gets the first 13 characters of the name. -/
def lfnRecord (name : List UInt8) (chksum : UInt8) (order : ℕ) (last : Bool) : ByteMem :=
  let order := UInt8.ofNat (order + 1)
  let head : ByteMem := fun i =>
    if i = 0 then (if last then order ||| 0x40 else order)
    else if i = 11 then lfnAttribs
    else if i = 13 then chksum
    else 0
  (name.take 13).zipIdx.foldl (fun r (ch, i) => r.store (lfnCharPos i) 2 (wideChar ch)) head

/-- The records of a long name, for a record with the given data. -/
def lfnRecords (name : List UInt8) (data : ByteMem) : List ByteMem :=
  if 11 < name.length then
    let nLfnEntries := (name.length / 13 + if name.length % 13 ≠ 0 then 1 else 0) % 256
    let chksum := checksum ((List.range 11).map data)
    (List.range nLfnEntries).map fun order =>
      lfnRecord name chksum order (decide (order = nLfnEntries - 1))
  else []

/-! ### The tree -/

/-- `fat_dirent_cache`: a cached record and its place in the tree. -/
structure Node where
  entry : Entry
  name : List UInt8
  path : List UInt8
  parent : ℕ
  children : List ℕ

/-- `fat_cache`: the device with the free list, and the cached records. -/
structure Fs where
  cache : Cache
  node : ℕ → Option Node
  root : ℕ
  fresh : ℕ

section

variable (s : Fs)

def Fs.withDisk (d : Disk) : Fs := { s with cache := { s.cache with disk := d } }

def Fs.setNode (i : ℕ) (n : Node) : Fs :=
  { s with node := update s.node i (some n) }

def Fs.setEntry (i : ℕ) (n : Node) (e : Entry) : Fs := s.setNode i { n with entry := e }

theorem Fs.setNode_self (i : ℕ) (n : Node) : (s.setNode i n).node i = some n :=
  update_self ..

theorem Fs.setNode_of_ne {i j : ℕ} (h : j ≠ i) (n : Node) :
    (s.setNode i n).node j = s.node j :=
  update_of_ne h ..

/-- The two halves of the first cluster, whatever the type of the volume. -/
def Entry.rawCluster (e : Entry) : ℕ := e.data.load 26 2 + 2 ^ 16 * e.data.load 20 2

/-- `RootDirSectors`, from the equation with which `probe` finds the first data sector. -/
def Volume.rootDirSectors (v : Volume) : ℕ :=
  v.firstDataSector - (v.reservedSectorCount + v.nFATs * v.fatSz)

def Volume.rootSector (v : Volume) : ℕ :=
  match v.fatType with
  | .fat32 => 0
  | _ => v.firstDataSector - v.rootDirSectors

/-! ### The search for free records -/

/-- `DIRENT_FREE`. -/
def direntFree : UInt8 := 0xE5

/-- What the search keeps. -/
structure Slots where
  nFree : ℕ
  fileoff : ℕ
  entryCluster : ℕ
  szClusters : ℕ
  deriving DecidableEq, Repr

def Slots.start : Slots := ⟨0, 0, 0, 0⟩

/-- `process_dirent`, for a record at `off` that starts with `first`. -/
def Slots.processDirent (s : Slots) (first : UInt8) (off : ℕ) : Slots :=
  if first = direntFree then
    { s with nFree := s.nFree + 1, fileoff := if s.nFree = 0 then off else s.fileoff }
  else { s with nFree := 0, fileoff := 0 }

/-- Record `j` of sector `i` of the root directory. -/
def rootRecord (v : Volume) (nEntries i : ℕ) (buff : ByteMem) (s : Slots) (j : ℕ) : Slots × Bool :=
  let off := u32 (i * v.blkSize + j * 32)
  if buff (j * 32) = 0 then
    ({ s with
        nFree := v.blkSize / 32 - j +
          (v.rootDirSectors - (i - v.rootSector)) * (v.blkSize / 32)
        fileoff := off }, true)
  else
    let s := s.processDirent (buff (j * 32)) off
    (s, decide (nEntries ≤ s.nFree))

/-- One sector of the root directory. -/
def rootSectorRecords (v : Volume) (nEntries : ℕ) (w : Disk × Slots) (i : ℕ) :
    (Disk × Slots) × Bool :=
  let (d, buff) := w.1.fdRead v.blkSize
  let (s, stop) := Loop.forUntil (rootRecord v nEntries i buff) (List.range (v.blkSize / 32)) w.2
  ((d, s), stop)

/-- The search in the root directory of a FAT12 or FAT16 volume. -/
def searchRoot (v : Volume) (d : Disk) (nEntries : ℕ) : Disk × Slots :=
  (Loop.forUntil (rootSectorRecords v nEntries) (List.range' v.rootSector v.rootDirSectors)
    (d.fdSeek (v.rootSector * v.blkSize), .start)).1

/-- Record `j` of a cluster of a directory. -/
def clusterRecord (v : Volume) (nEntries cluster : ℕ) (buff : ByteMem) (s : Slots) (j : ℕ) :
    Slots × Bool :=
  let off := u32 (clusterToSector 32 v cluster * v.blkSize + j * 32)
  if buff (j * 32) = 0 then
    ({ s with entryCluster := cluster, nFree := v.bytesPerCluster / 32 - j, fileoff := off }, true)
  else
    let s := s.processDirent (buff (j * 32)) off
    let s := if s.nFree = 1 then { s with entryCluster := cluster } else s
    (s, decide (nEntries ≤ s.nFree))

/-- `find_free_entry`.  The buffer has room for one sector. -/
def findFreeEntry (v : Volume) (nEntries cluster : ℕ) (status : Status) (d : Disk) (s : Slots) :
    Option (Disk × Slots × Bool) :=
  if status = .aborted then some (d, s, false)
  else
    let s := { s with szClusters := s.szClusters + 1 }
    let oldOffset := u32 d.offset
    if v.bytesPerCluster ≤ v.blkSize then
      let (d, buff) := (d.seekCluster 32 v cluster).fdRead v.bytesPerCluster
      let (s, _) := Loop.forUntil (clusterRecord v nEntries cluster buff)
        (List.range (v.bytesPerCluster / 32)) s
      some (d.fdSeek oldOffset, s, true)
    else none

/-- The search in a directory whose first cluster is `cluster`.  A chain without a loop has
ended after one step for each cluster. -/
def searchChain (v : Volume) (d : Disk) (cluster nEntries : ℕ) : Option (Disk × Slots) :=
  followClusterChain v d cluster (findFreeEntry v nEntries) .start (v.countofClusters + 2)

/-! ### Writing records -/

/-- What the loop that writes the records keeps. -/
structure Placing where
  disk : Disk
  buf : ByteMem
  curr : ℕ
  fileoff : ℕ
  wroteback : Bool

/-- One record.  The flag says that the loop is left; `curr` stays behind the end of the
buffer when the next block was read. -/
def placeRecord (v : Volume) (fixedRoot : Bool) (blkSize entryCluster : ℕ) (w : Placing)
    (r : ByteMem) : Option (Placing × Bool) :=
  if v.bytesPerCluster < w.curr + 32 then none
  else
    let buf := w.buf.transfer w.curr r 0 32
    let curr := w.curr + 32
    if curr < blkSize then some (⟨w.disk, buf, curr, w.fileoff, false⟩, false)
    else
      let d := (w.disk.fdSeek w.fileoff).fdWrite buf blkSize
      if fixedRoot then
        let fileoff := u32 d.offset
        let (d, buf) := d.fdRead blkSize
        some (⟨d, buf, curr, fileoff, true⟩, false)
      else do
        let addr := getFatEntryAddrForCluster v entryCluster
        let (d, sector) := (d.fdSeek (addr.lba * v.blkSize)).fdRead v.blkSize
        let (next, status) ← nextCluster v entryCluster sector
        if status = .eof then some (⟨d, buf, curr, w.fileoff, false⟩, true)
        -- the buffer is freed here, and written below
        else if next = 0 ∨ v.countofClusters ≤ next then none
        else
          let d := d.seekCluster 32 v next
          let fileoff := u32 d.offset
          let (d, buf) := d.fdRead blkSize
          some (⟨d, buf, curr, fileoff, true⟩, false)

def placeRecords (v : Volume) (fixedRoot : Bool) (blkSize entryCluster : ℕ) :
    Placing → List ByteMem → Option Placing
  | w, [] => some w
  | w, r :: rs => do
    let (w, stop) ← placeRecord v fixedRoot blkSize entryCluster w r
    if stop then some w else placeRecords v fixedRoot blkSize entryCluster w rs

/-- The records of an entry, from `fileoff` on. -/
def place (v : Volume) (d : Disk) (fixedRoot : Bool) (records : List ByteMem)
    (fileoff entryCluster : ℕ) : Option Disk := do
  let blkSize := if fixedRoot then v.blkSize else v.bytesPerCluster
  let curr := fileoff % blkSize
  let d := d.fdSeek (fileoff / v.blkSize * v.blkSize)
  let fileoff := u32 d.offset
  let (d, buf) := d.fdRead blkSize
  let w ← placeRecords v fixedRoot blkSize entryCluster ⟨d, buf, curr, fileoff, false⟩ records
  if w.wroteback then some w.disk
  else some ((w.disk.fdSeek w.fileoff).fdWrite w.buf blkSize)

/-- A directory that is not the root of a FAT12 or FAT16 volume is made longer, and its
record is written. -/
def growDirectory (v : Volume) (s : Fs) (parent : ℕ) (p : Node) (newSizeCls szClusters : ℕ) :
    Option (Fs × Option ℕ) := do
  let (c, newCluster) ← moveClusters v s.cache p.entry.rawCluster newSizeCls szClusters
  let s := { s with cache := c }
  match newCluster with
  | none => some (s, none)
  | some cluster => do
    let e := p.entry.setFirstCluster cluster
    let d ← writeFatDirent v s.cache.disk e
    some ((s.setEntry parent p e).withDisk d, some cluster)

/-- The records of a node. -/
def Node.records (n : Node) : List ByteMem := lfnRecords n.name n.entry.data ++ [n.entry.data]

/-- `ref_dirent`: put the records of a node into its directory. -/
def refDirent (v : Volume) (s : Fs) (i : ℕ) : Option Fs := do
  let n ← s.node i
  let p ← s.node n.parent
  let records := n.records
  let nEntries := records.length
  let nClusters := v.clustersFor (nEntries * 32)
  let fixedRoot := decide (s.root = n.parent ∧ v.fatType ≠ .fat32)
  let (d, slots) ←
    if fixedRoot then some (searchRoot v s.cache.disk nEntries)
    else searchChain v s.cache.disk p.entry.rawCluster nEntries
  let s := s.withDisk d
  if slots.nFree < nEntries then
    if fixedRoot then some s
    else do
      let (s, grown) ← growDirectory v s n.parent p (slots.szClusters + nClusters) slots.szClusters
      match grown with
      | none => some s
      | some cluster => do
        let fileoff := u32 (clusterToSector 32 v cluster * v.blkSize)
        let d ← place v s.cache.disk fixedRoot records fileoff cluster
        some (s.withDisk d)
  else do
    let d ← place v s.cache.disk fixedRoot records slots.fileoff slots.entryCluster
    some (s.withDisk d)

/-- The loop of `deref_dirent` over the records in front of `off` in the buffer.  `front`
says what `attribs & LFN` is in the memory in front of the buffer. -/
def freeLfnRecords (front : Bool) : ℕ → ByteMem → ℕ → Option ByteMem
  | 0, _, _ => none
  | fuel + 1, sector, off =>
    if off < 32 then if front then none else some sector
    else if sector (off - 32 + 11) &&& lfnAttribs = 0 then some sector
    else
      let sector := update sector (off - 32) direntFree
      if off - 32 = 0 then some sector else freeLfnRecords front fuel sector (off - 32)

/-- `deref_dirent`: mark the records of a file free. -/
def derefDirent (v : Volume) (d : Disk) (e : Entry) (front : Bool) : Option (Disk × Entry) := do
  let (d, sector) := (d.fdSeek e.direntFileoff).fdRead v.bytesPerCluster
  if v.bytesPerCluster < e.direntOffset + 32 then none
  else do
    let sector ← freeLfnRecords front (e.direntOffset / 32 + 1) sector e.direntOffset
    let e := { e with data := update e.data 0 direntFree }
    let sector := sector.transfer e.direntOffset e.data 0 32
    some ((d.fdSeek e.direntFileoff).fdWrite sector v.bytesPerCluster, e)

/-! ### Operations -/

inductive FileType where
  | regularFile
  | directory
  | symbolicLink
  deriving DecidableEq, Repr

/-- The record of a new file. -/
def newRecord (shortName : List UInt8) (type : FileType) : ByteMem := fun i =>
  if i < 11 then shortName.getD i 0
  else if i = 11 then (if type = .directory then 0x10 else 0)
  else 0

/-- The path of a child. -/
def childPath (parent name : List UInt8) : List UInt8 :=
  (if parent ≠ [] ∧ parent.getLast? ≠ some slash then parent ++ [slash] else parent) ++ name

/-- The node that `mk_file` appends to the children of `p`. -/
def newNode (p : Node) (parent : ℕ) (shortName name : List UInt8) (type : FileType) : Node where
  entry := ⟨newRecord shortName type, 0, 0⟩
  name := name
  path := childPath p.path name
  parent := parent
  children := []

/-- A new node, and `CacheAppendChild`. -/
def Fs.appendChild (parent : ℕ) (p n : Node) : Fs :=
  { (s.setNode s.fresh n).setNode parent { p with children := p.children ++ [s.fresh] } with
    fresh := s.fresh + 1 }

/-- The names of the children of a directory. -/
def Fs.siblings (p : Node) : List (List UInt8) :=
  p.children.filterMap fun j => (s.node j).map Node.name

/-- `mk_file`; without a parent, in the root directory. -/
def mkFile (v : Volume) (s : Fs) (parent : Option ℕ) (name : List UInt8) (type : FileType) :
    Option (Fs × Status) :=
  if type = .symbolicLink then some (s, .internalError)
  else if !validFilename name false then some (s, .invalidArgument)
  else do
    let parent := parent.getD s.root
    let p ← s.node parent
    if !p.entry.isDirectory then some (s, .invalidArgument)
    else do
      if name ∈ s.siblings p then some (s, .alreadyInitialized)
      else do
        let shortName ← genShortName name (s.siblings p)
        let i := s.fresh
        let s := s.appendChild parent p (newNode p parent shortName name type)
        let s ← refDirent v s i
        some (s, .success)

/-- `CacheRemoveChild` of node `i` below `p`, which is freed then. -/
def Fs.removeChild (i parent : ℕ) (p : Node) : Fs :=
  let s := s.setNode parent { p with children := p.children.erase i }
  { s with node := update s.node i none }

theorem Fs.removeChild_node (i parent : ℕ) (p : Node) (j : ℕ) :
    (s.removeChild i parent p).node j = if j = i then none else
      (s.setNode parent { p with children := p.children.erase i }).node j :=
  update_apply ..

end

/-- `remove_file`. -/
def removeFile (v : Volume) (s : Fs) (i : ℕ) (front : Bool) : Option (Fs × Status) := do
  let n ← s.node i
  if n.children ≠ [] then some (s, .inUse)
  else do
    let (d, e) ← derefDirent v s.cache.disk n.entry front
    let szClusters := u32 (v.clustersFor e.filesize)
    let c ← freeClusters v { s.cache with disk := d } e.rawCluster szClusters
    let p ← s.node n.parent
    some ({ s with cache := c }.removeChild i n.parent p, .success)

end Obos.Fat
