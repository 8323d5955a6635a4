/-
The physical page allocator (`mm/pmm.c`).

Free physical memory is kept in two lists of regions, one for the addresses
below 4 GiB and one for the rest.  The node of a region lies in the region's
own first page, so the lists are words of physical memory: `nPages` at offset
0, `next` at 8 and `prev` at 16.  The direct map of physical memory is the
identity here.

`allocate` and `free` are the two internal functions, each working on one of
the lists; `allocatePhysicalPages` and `freePhysicalPages` choose the list.
Assertions are those of a release build: they do nothing.  A search that never
ends (a list with a cycle) has no result.
-/
import Obos.Machine
import Obos.Lib.ByteMem
import Obos.Lib.DLinked

namespace Obos.Pmm

/-- A head and a tail pointer, `s_head` and `s_tail` or their 32-bit twins. -/
structure FreeList where
  head : ℕ
  tail : ℕ
  deriving DecidableEq, Repr

/-- Which of the two lists: `s_head32` (`low`) or `s_head` (`high`). -/
inductive Zone where
  | low
  | high
  deriving DecidableEq, Repr

/-- A thread on `Mm_ThreadsAwaitingPhysicalMemory`. -/
structure Waiter where
  thread : ℕ
  nBytesWaitingFor : ℕ
  deriving DecidableEq, Repr

/-- Physical memory and the globals of `pmm.c`. -/
structure State where
  mem : ByteMem
  low : FreeList
  high : FreeList
  nNodes : ℕ
  totalPhysicalPages : ℕ
  totalPhysicalPagesUsed : ℕ
  usablePhysicalPages : ℕ
  physicalMemoryBoundaries : ℕ
  threadsAwaiting : List Waiter
  /-- The threads handed to `CoreH_ThreadReadyNode` so far. -/
  readied : List Waiter

namespace State

def list (s : State) : Zone → FreeList
  | .low => s.low
  | .high => s.high

def setList (s : State) (z : Zone) (l : FreeList) : State :=
  match z with
  | .low => { s with low := l }
  | .high => { s with high := l }

end State

/-! ### The fields of a node -/

section

variable (m : ByteMem)

def nodePages (node : ℕ) : ℕ := m.load64 node

def next (node : ℕ) : ℕ := m.load64 (node + 8)

def prev (node : ℕ) : ℕ := m.load64 (node + 16)

def setPages (node v : ℕ) : ByteMem := m.store64 node v

def setNext (node v : ℕ) : ByteMem := m.store64 (node + 8) v

def setPrev (node v : ℕ) : ByteMem := m.store64 (node + 16) v

/-- `sizeof(struct freelist_node)`. -/
def nodeSize : ℕ := 24

/-! ### Allocation -/

/-- The page count `IsRegionSufficient` stores in `*nPagesRequiredP`. -/
def nPagesRequired (node nPages alignmentMask : ℕ) : ℕ :=
  u64 (u64 (nPages + (nodePages m node &&& u64sub (u64 (alignmentMask + 1) / pageSize) 1))
    + (node &&& alignmentMask) / pageSize)

def isRegionSufficient (node nPages alignmentMask : ℕ) : Bool :=
  decide (nPagesRequired m node nPages alignmentMask ≤ nodePages m node)

/-- `__builtin_popcount`, whose argument is an `unsigned int`. -/
def popcount (n : ℕ) : ℕ := ((List.range 32).filter fun i => n.testBit i).length

/-- The request after the alignment was applied to it. -/
def roundRequest (nPages alignmentPages : ℕ) : ℕ :=
  if nPages % alignmentPages ≠ 0 then
    u64 (nPages + (alignmentPages - nPages % alignmentPages))
  else nPages

/-- `alignmentPages*OBOS_PAGE_SIZE-1`. -/
def maskOf (alignmentPages : ℕ) : ℕ := u64sub (u64 (alignmentPages * pageSize)) 1

/-- Join the neighbours of `node` and move the list's ends off it. -/
def unlinkNode (l : FreeList) (node : ℕ) : ByteMem × FreeList :=
  let m := if next m node ≠ 0 then setPrev m (next m node) (prev m node) else m
  let m := if prev m node ≠ 0 then setNext m (prev m node) (next m node) else m
  (m, { head := if l.head = node then next m node else l.head
        tail := if l.tail = node then prev m node else l.tail })

end

section

variable (s : State)

/-- The part of `allocate` that follows the search: take `required` pages off
the end of the region of `node`. -/
def takePages (z : Zone) (node required : ℕ) : State × ℕ :=
  let left := u64sub (nodePages s.mem node) required
  let s := { s with
    mem := setPages s.mem node left
    totalPhysicalPagesUsed := u64 (s.totalPhysicalPagesUsed + required) }
  let phys := u64 (node + u64 (left * pageSize))
  if left = 0 then
    let (m, l) := unlinkNode s.mem (s.list z) node
    ({ s.setList z l with
        mem := m.zero ⟨node, nodeSize⟩
        nNodes := u64sub s.nNodes 1 }, phys)
  else (s, phys)

/-- `allocate`.  The search visits at most as many nodes as there are
addresses; one that visits more never ends. -/
def allocate (z : Zone) (nPages alignmentPages : ℕ) :
    Option (State × ℕ × Status) :=
  if nPages = 0 then some (s, 0, .invalidArgument)
  else
    let alignmentPages := if alignmentPages = 0 then 1 else alignmentPages
    if 1 < popcount alignmentPages then some (s, 0, .invalidArgument)
    else if (s.list z).head = 0 then some (s, 0, .notEnoughMemory)
    else
      let n := roundRequest nPages alignmentPages
      let mask := maskOf alignmentPages
      match DLinked.walk (next s.mem) 0 (fun node => isRegionSufficient s.mem node n mask)
          (2 ^ 64) (s.list z).head with
      | none => none
      | some node =>
        if node = 0 then some (s, 0, .notEnoughMemory)
        else
          let (s', phys) := takePages s z node (nPagesRequired s.mem node n mask)
          some (s', phys, .success)

/-- `Mm_AllocatePhysicalPages`: the high list first, then the low one. -/
def allocatePhysicalPages (nPages alignmentPages : ℕ) :
    Option (State × ℕ × Status) :=
  match allocate s .high nPages alignmentPages with
  | none => none
  | some (s, res, status) =>
    if res ≠ 0 then some (s, res, status) else allocate s .low nPages alignmentPages

/-- `Mm_AllocatePhysicalPages32`. -/
def allocatePhysicalPages32 (nPages alignmentPages : ℕ) :
    Option (State × ℕ × Status) :=
  allocate s .low nPages alignmentPages

/-! ### Freeing -/

/-- `free`.  The node's `next` field is not written. -/
def free (z : Zone) (addr nPages : ℕ) : State :=
  if nPages = 0 then s
  else
    let l := s.list z
    let m := setPages s.mem addr nPages
    let m := if l.tail ≠ 0 then setNext m l.tail addr else m
    let m := setPrev m addr l.tail
    { s.setList z { head := if l.head = 0 then addr else l.head, tail := addr } with
        mem := m
        nNodes := u64sub s.nNodes 1
        totalPhysicalPagesUsed := u64sub s.totalPhysicalPagesUsed nPages }

/-- The loop over the waiting threads: who is readied and who stays. -/
def wakeThreads : ℕ → List Waiter → List Waiter × List Waiter
  | _, [] => ([], [])
  | nMemoryLeft, w :: ws =>
    if w.nBytesWaitingFor ≤ nMemoryLeft then
      let (ready, rest) := wakeThreads (nMemoryLeft - w.nBytesWaitingFor) ws
      (w :: ready, rest)
    else
      let (ready, rest) := wakeThreads nMemoryLeft ws
      (ready, w :: rest)

/-- `~0xffffffff`: the constant is an `unsigned int`, and so is its complement. -/
def notMask32 : ℕ := (~~~ (0xffffffff : UInt32)).toNat

/-- The page count after the part above 4 GiB was split off, and that part. -/
def splitPages (addr nPages : ℕ) : ℕ × ℕ :=
  let stop := u64 (addr + u64 (nPages * pageSize))
  if 0xffffffff ≤ stop then
    let pages := (stop &&& notMask32) / pageSize
    (u64sub nPages pages, pages)
  else (nPages, 0)

/-- The two calls of `free` in `Mm_FreePhysicalPages`, and the page count left
in `nPages` by them. -/
def freeToLists (addr nPages : ℕ) : State × ℕ :=
  if addr < 0xffffffff then
    let (rest, pages) := splitPages addr nPages
    (free (free s .high 0x100000000 pages) .low addr rest, rest)
  else (free s .high addr nPages, nPages)

/-- `Mm_FreePhysicalPages`. -/
def freePhysicalPages (addr nPages : ℕ) : State × Status :=
  let addr := addr - addr % pageSize
  if addr = 0 then (s, .invalidArgument)
  else
    let (s, nPages) := freeToLists s addr nPages
    let (ready, rest) := wakeThreads (u64 (nPages * pageSize)) s.threadsAwaiting
    ({ s with threadsAwaiting := rest, readied := s.readied ++ ready }, .success)

/-! ### Initialization -/

/-- A record of the boot loader's memory map. -/
structure MemMapEntry where
  physicalAddress : ℕ
  size : ℕ
  /-- `pmem_map_type == PHYSICAL_MEMORY_TYPE_USABLE`. -/
  usable : Bool
  deriving DecidableEq, Repr

/-- The records that `MmS_GetFirstPMemMapEntry` and `MmS_GetNextPMemMapEntry`
deliver for a map of `nEntries` records: the enumeration compares the index
with `nEntries` before it increments it. -/
def memMapEntries (entries : ℕ → MemMapEntry) (nEntries : ℕ) : List MemMapEntry :=
  (List.range (nEntries + 2)).map entries

/-- The whole pages of a record: first address and page count. -/
def entryPages (e : MemMapEntry) : ℕ × ℕ :=
  let phys := e.physicalAddress
  let nPages := e.size / pageSize
  let (phys, nPages) :=
    if phys % pageSize ≠ 0 then (u64 (phys + (pageSize - phys % pageSize)), u64sub nPages 1)
    else (phys, nPages)
  if phys = 0 then (pageSize, u64sub nPages 1) else (phys, nPages)

/-- One round of the loop of `Mm_InitializePMM`. -/
def initEntry (e : MemMapEntry) : State :=
  let (phys, nPages) := entryPages e
  let stop := u64 (phys + u64 (nPages * pageSize))
  let s := { s with
    totalPhysicalPages := u64 (s.totalPhysicalPages + nPages)
    physicalMemoryBoundaries :=
      if s.physicalMemoryBoundaries < stop then stop else s.physicalMemoryBoundaries }
  if !e.usable || nPages == 0 then
    { s with totalPhysicalPagesUsed := u64 (s.totalPhysicalPagesUsed + nPages) }
  else
    (freePhysicalPages { s with usablePhysicalPages := u64 (s.usablePhysicalPages + nPages) }
      phys nPages).1

/-- The globals before initialization. -/
def State.boot (mem : ByteMem) : State where
  mem := mem
  low := ⟨0, 0⟩
  high := ⟨0, 0⟩
  nNodes := 0
  totalPhysicalPages := 0
  totalPhysicalPagesUsed := 0
  usablePhysicalPages := 0
  physicalMemoryBoundaries := 0
  threadsAwaiting := []
  readied := []

/-- The end of `Mm_InitializePMM`: round the boundary up to 4 GiB. -/
def roundBoundaries : State :=
  if s.physicalMemoryBoundaries % 2 ^ 32 ≠ 0 then
    { s with
      physicalMemoryBoundaries :=
        u64 (s.physicalMemoryBoundaries + 4294967295) / 2 ^ 32 * 2 ^ 32 }
  else s

end

/-- `Mm_InitializePMM` on the memory a machine boots with. -/
def initializePMM (mem : ByteMem) (entries : ℕ → MemMapEntry) (nEntries : ℕ) : State :=
  roundBoundaries ((memMapEntries entries nEntries).foldl initEntry (State.boot mem))

end Obos.Pmm
