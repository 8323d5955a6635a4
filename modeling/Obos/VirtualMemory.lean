/-
The page tree of a context under `Mm_VirtualMemoryAlloc` and
`Mm_VirtualMemoryFree`.

The tree is the list of its nodes in the order of their addresses: `RB_FIND`
looks for an address, `RB_NEXT` is the next member of the list.  Of a node the
model keeps what the two functions decide on: its address, whether it is a huge
page, whether it is only reserved and whether it is a guard page.  What the
page tables answer (`MmS_SetPageMapping`) is an argument.

* `findAvailableAddress` — the search for a gap,
* `virtualMemoryAlloc` — its checks (`request`), the choice of a base
  (`chooseBase`) and the loop over the nodes (`commitLoop`),
* `virtualMemoryFree`.
-/
import Obos.Machine

namespace Obos.VirtualMemory

/-! ### The context -/

structure Page where
  addr : ℕ
  hugePage : Bool
  reserved : Bool
  isGuardPage : Bool
  deriving DecidableEq, Repr

/-- The size of a page. -/
def pageBytes (huge : Bool) : ℕ := if huge then hugePageSize else pageSize

structure Context where
  /-- `ctx->owner->pid == 1`. -/
  kernel : Bool
  pages : List Page
  deriving DecidableEq, Repr

section

variable (pages : List Page)

/-- `RB_FIND`. -/
def find (addr : ℕ) : Option Page := pages.find? fun p => p.addr = addr

/-- `RB_INSERT`, which keeps the member of the same address if there is one. -/
def insert (p : Page) : List Page :=
  if (find pages p.addr).isSome then pages
  else pages.orderedInsert (fun a b => a.addr ≤ b.addr) p

/-- A write to the fields of the node at `addr`. -/
def modify (addr : ℕ) (f : Page → Page) : List Page :=
  pages.map fun p => if p.addr = addr then f p else p

/-- `RB_REMOVE` of the nodes at `addrs`. -/
def remove (addrs : List ℕ) : List Page :=
  pages.filter fun p => p.addr ∉ addrs

/-! ### The search for a gap -/

structure VmaFlags where
  hugePage : Bool
  guardPage : Bool
  bits32 : Bool
  hint : Bool
  nonPaged : Bool
  reserve : Bool
  deriving DecidableEq, Repr

/-- The address range that is searched. -/
def searchRange (ctx : Context) (flags : VmaFlags) : ℕ × ℕ :=
  if flags.bits32 then (0x1000, 0xfffff000)
  else if ctx.kernel then (0xffffff0000000000, 0xfffffffffffff000)
  else (0x1000, 0x7FFFFFFFFFFF)

/-- The loop of `MmH_FindAvailableAddress`: the address found, or 0, and
`lastNode`.  While `lastNode` is null a gap that is large enough is passed over. -/
def gapLoop (base limit need : ℕ) : List Page → ℕ → Option Page → ℕ × Option Page
  | [], _, lastNode => (0, lastNode)
  | cur :: rest, lastAddress, lastNode =>
    if cur.addr < base then gapLoop base limit need rest lastAddress lastNode
    else if limit ≤ cur.addr then (0, lastNode)
    else if need ≤ u64sub cur.addr lastAddress then
      match lastNode with
      | none => gapLoop base limit need rest lastAddress lastNode
      | some n => (u64 (lastAddress + pageBytes n.hugePage), lastNode)
    else gapLoop base limit need rest (u64 (cur.addr + pageBytes cur.hugePage)) (some cur)

/-- What the loop found; when it found nothing, the address behind `lastNode`, or
the start of the range. -/
def foundOrLast (base : ℕ) : ℕ × Option Page → ℕ
  | (found, lastNode) =>
    if found ≠ 0 then found
    else
      match lastNode with
      | some n => u64 (n.addr - n.addr % pageSize + pageBytes n.hugePage)
      | none => base

/-- `MmH_FindAvailableAddress`. -/
def findAvailableAddress (ctx : Context) (size : ℕ) (flags : VmaFlags) : Except Status ℕ :=
  let pgSize := pageBytes flags.hugePage
  let size := size - size % pgSize
  let (base, limit) := searchRange ctx flags
  let found := foundOrLast base
    (gapLoop base limit (u64 (size + pgSize)) ctx.pages base (find ctx.pages base))
  if found = 0 then .error .notEnoughMemory else .ok found

/-! ### Allocation -/

/-- What `Mm_VirtualMemoryAlloc` reads of a file. -/
structure File where
  hasVnode : Bool
  /-- `vtype` is `VNODE_TYPE_REG` or `VNODE_TYPE_BLK`. -/
  mappable : Bool
  filesize : ℕ
  offset : ℕ
  readable : Bool
  deriving DecidableEq, Repr

structure AllocArgs where
  base : ℕ
  size : ℕ
  flags : VmaFlags
  file : Option File
  deriving DecidableEq, Repr

/-- `size` rounded up to a multiple of `pgSize`. -/
def roundUp (size pgSize : ℕ) : ℕ :=
  if size % pgSize ≠ 0 then u64 (size + (pgSize - size % pgSize)) else size

/-- The size of a file mapping. -/
def fileSize (file : File) (size : ℕ) : ℕ :=
  let size := if file.filesize < size then file.filesize else size
  if file.filesize ≤ u64 (file.offset + size) then u64sub (u64 (file.offset + size)) file.filesize
  else size

/-- A request as it stands when the context is locked. -/
structure Request where
  base : ℕ
  size : ℕ
  flags : VmaFlags
  deriving DecidableEq, Repr

def Request.pgSize (r : Request) : ℕ := pageBytes r.flags.hugePage

/-- The rounded size, with the guard page. -/
def guardedSize (size : ℕ) (flags : VmaFlags) : ℕ :=
  let size := roundUp size (pageBytes flags.hugePage)
  if flags.guardPage then u64 (size + pageBytes flags.hugePage) else size

/-- The checks of `Mm_VirtualMemoryAlloc` before the context is locked. -/
def request (a : AllocArgs) : Except Status Request :=
  if a.size = 0 then .error .invalidArgument
  else
    match (if a.flags.reserve then none else a.file) with
    | none =>
      if a.base % pageBytes a.flags.hugePage ≠ 0 then .error .invalidArgument
      else .ok ⟨a.base, guardedSize a.size a.flags, a.flags⟩
    | some file =>
      let flags := { a.flags with hugePage := false }
      if flags.nonPaged then .error .invalidArgument
      else if !file.hasVnode then .error .uninitialized
      else if a.base % pageBytes flags.hugePage ≠ 0 then .error .invalidArgument
      else if !file.mappable then .error .invalidArgument
      else if !file.readable then .error .accessDenied
      else .ok ⟨a.base, guardedSize (fileSize file a.size) flags, flags⟩

/-- The number of nodes of a request. -/
def Request.nNodes (r : Request) : ℕ := r.size / r.pgSize + if r.size % r.pgSize ≠ 0 then 1 else 0

/-- The addresses of the nodes of a request at `base`. -/
def Request.nodeAddr (r : Request) (base i : ℕ) : ℕ := u64 (base + i * r.pgSize)

/-- The existence check: it visits the addresses below `base + size`. -/
def anyCommitted (r : Request) (base : ℕ) : Bool :=
  (List.range r.nNodes).any fun i =>
    base + i * r.pgSize < u64 (base + r.size) &&
      match find pages (base + i * r.pgSize) with
      | some p => !p.reserved
      | none => false

/-- The base of the allocation.  With `VMA_FLAGS_HINT` an occupied range is given
up for one that the search finds; when that is occupied too the code searches
again, with the same result, and never returns. -/
def chooseBase (ctx : Context) (r : Request) : Option (Except Status ℕ) :=
  let searched := findAvailableAddress ctx r.size { r.flags with guardPage := false }
  match (if r.base = 0 then searched else .ok r.base) with
  | .error st => some (.error st)
  | .ok base =>
    if !anyCommitted ctx.pages r base then some (.ok base)
    else if !r.flags.hint then some (.error .inUse)
    else
      match searched with
      | .error st => some (.error st)
      | .ok base => if !anyCommitted ctx.pages r base then some (.ok base) else none

/-- The fields of node `i` of a request. -/
def setup (r : Request) (addr i : ℕ) (node : Page) : Page where
  addr := addr
  hugePage := r.flags.hugePage
  reserved := r.flags.reserve
  isGuardPage := if r.flags.guardPage ∧ i = 0 then true else node.isGuardPage

/-- A node as `ZeroAllocate` returns it. -/
def zeroPage : Page := ⟨0, false, false, false⟩

/-- What the rest of the system answers during an allocation: the error of
mapping node `i`, if there is one, and the bytes that a node has after it was
returned to the allocator. -/
structure Answers where
  mapError : ℕ → Option Status
  freed : Page

/-- Mapping node `i` fails; guard pages and reserved pages are not mapped. -/
def mapFails (r : Request) (ans : Answers) (i : ℕ) : Option Status :=
  if (r.flags.guardPage ∧ i = 0) ∨ r.flags.reserve then none else ans.mapError i

/-- The loop over the `n` nodes from the `i`-th on; `nodes` are the addresses of
the nodes that were inserted.  When a mapping fails these are removed, and the
node at hand is freed, which stays in the tree if it was there before. -/
def commitLoop (r : Request) (ans : Answers) (base : ℕ) :
    ℕ → ℕ → List ℕ → List Page → List Page × Status
  | 0, _, _, pages => (pages, .success)
  | n + 1, i, nodes, pages =>
    let addr := r.nodeAddr base i
    match find pages addr with
    | some _ =>
      match mapFails r ans i with
      | some st => (modify (remove pages nodes) addr fun _ => ans.freed, st)
      | none => commitLoop r ans base n (i + 1) nodes (modify pages addr (setup r addr i))
    | none =>
      match mapFails r ans i with
      | some st => (remove pages nodes, st)
      | none => commitLoop r ans base n (i + 1) (addr :: nodes) (insert pages (setup r addr i zeroPage))

/-- `Mm_VirtualMemoryAlloc`. -/
def virtualMemoryAlloc (ctx : Context) (a : AllocArgs) (ans : Answers) :
    Option (Context × Except Status ℕ) :=
  match request a with
  | .error st => some (ctx, .error st)
  | .ok r =>
    match chooseBase ctx r with
    | none => none
    | some (.error st) => some (ctx, .error st)
    | some (.ok base) =>
      let (pages, st) := commitLoop r ans base r.nNodes 0 [] ctx.pages
      some ({ ctx with pages := pages },
        if st ≠ .success then .error st
        else .ok (if r.flags.guardPage then u64 (base + r.pgSize) else base))

/-! ### Freeing -/

/-- The nodes from the one at `addr` on. -/
def nodesFrom (addr : ℕ) : List Page := pages.dropWhile fun p => p.addr ≠ addr

/-- The loops of `Mm_VirtualMemoryFree`: the addresses of the nodes that follow
one another from `addr` to `stop`, and whether they reach it. -/
def covered (stop : ℕ) : List Page → ℕ → List ℕ × Bool
  | [], addr => ([], stop ≤ addr)
  | p :: rest, addr =>
    if stop ≤ addr then ([], true)
    else if p.addr ≠ addr then ([], false)
    else
      let (addrs, ok) := covered stop rest (u64 (addr + pageBytes p.hugePage))
      (addr :: addrs, ok)

/-- The guard page before the node at `base`. -/
def guardPage (base : ℕ) (baseNode : Page) : Option Page :=
  match find pages (u64sub base (pageBytes baseNode.hugePage)) with
  | some p => if p.isGuardPage then some p else none
  | none => none

end

/-- `Mm_VirtualMemoryFree`. -/
def virtualMemoryFree (ctx : Context) (base size : ℕ) : Context × Status :=
  if base % pageSize ≠ 0 ∨ base = 0 ∨ size = 0 then (ctx, .invalidArgument)
  else
    let size := roundUp size pageSize
    match find ctx.pages base with
    | none => (ctx, .notFound)
    | some baseNode =>
      if !(covered (u64 (base + size)) (nodesFrom ctx.pages base) base).2 then (ctx, .notFound)
      else
        let (base, size) :=
          match guardPage ctx.pages base baseNode with
          | some p => (p.addr, u64 (size + pageBytes p.hugePage))
          | none => (base, size)
        let (addrs, ok) := covered (u64 (base + size)) (nodesFrom ctx.pages base) base
        ({ ctx with pages := remove ctx.pages addrs }, if ok then .success else .notFound)

end Obos.VirtualMemory
