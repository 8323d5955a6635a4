/-
`Mm_VirtualMemoryAlloc` (`mm/alloc.c`) without a file, and `VfsH_PageCacheGetEntry`
(`vfs/pagecache.c`), which reserves and commits its pages that way, on the whole state.

The checks and the choice of a base are those of `VirtualMemory`, on the view that
they have of a context.  `Obos.Vfs` has the page cache of one file, with its bytes; here its
pages are nodes of the kernel's context, and reserving and filling them may fail.

* `commitNode` — one round of the loop over the nodes,
* `commitLoop`, `rollback` — the loop and what it does when a mapping fails,
* `allocAnonymous`, `pageCacheGetEntry`.
-/
import Obos.Vmm.SwapPage

namespace Obos.Vmm

open VirtualMemory (pageBytes)

/-! ### Arguments and answers -/

/-- `prot_flags`. -/
structure ProtFlags where
  readOnly : Bool
  executable : Bool
  userPage : Bool
  cacheDisable : Bool
  cacheEnable : Bool
  sameAsBefore : Bool
  /-- The bits from `OBOS_PROTECTION_PLATFORM_START` on. -/
  platform : ℕ
  deriving DecidableEq, Repr

def ProtFlags.zero : ProtFlags := ⟨false, false, false, false, false, false, 0⟩

/-- What the loop over the nodes works with. -/
structure Plan where
  ctx : ℕ
  base : ℕ
  req : VirtualMemory.Request
  prot : ProtFlags
  deriving DecidableEq, Repr

namespace Plan

variable (pl : Plan)

def pgSize : ℕ := pl.req.pgSize

/-- The size of a page in frames. -/
def nPages : ℕ := if pl.req.flags.hugePage then hugePageSize / pageSize else 1

def addr (i : ℕ) : ℕ := pl.req.nodeAddr pl.base i

/-- Node `i` is the guard page. -/
def isGuard (i : ℕ) : Bool := pl.req.flags.guardPage && i = 0

/-- The first writes to the node of page `i`. -/
@[simps] def prepare (i : ℕ) (pg : Page) : Page :=
  { pg with
    addr := pl.addr i
    allocated := true
    owner := pl.ctx
    prot := { pg.prot with touched := false, hugePage := pl.req.flags.hugePage }
    pagedOut := false
    age := 0
    region := none
    reserved := pl.req.flags.reserve }

/-- The fields of a page that is not a guard page. -/
@[simps] def protect (pg : Page) : Page :=
  { pg with
    prot :=
      { present := !pg.reserved
        rw := !pl.prot.readOnly
        user := pl.prot.userPage
        touched := pg.prot.touched
        hugePage := pl.req.flags.hugePage
        executable := pl.prot.executable
        uc := pl.prot.cacheDisable
        ro := pl.prot.readOnly }
    pageable := !pl.req.flags.nonPaged }

end Plan

/-- The fields of the guard page. -/
@[simps] def Page.guard (pg : Page) : Page :=
  { pg with
    prot := { pg.prot with present := false }
    isGuardPage := true
    pageable := false }

/-- What the calls made by one `Mm_VirtualMemoryAlloc` answer, by the number of the
page. -/
structure AllocAnswers (γ : Type) where
  /-- The heap has memory for the node. -/
  heap : ℕ → Bool
  phys : ℕ → PhysAnswer
  map : ℕ → Status
  /-- Unmapping in the clean-up. -/
  unmap : ℕ → Status
  /-- The bytes of a node after it was returned to the heap. -/
  freed : Page
  out : ℕ → OutAnswers γ

/-! ### One node -/

section

variable {γ : Type}

section

variable (s : State γ)

/-- A new node. -/
@[simps] def State.newNode : State γ :=
  { s with page := Function.update s.page s.nextNode Page.zero, nextNode := s.nextNode + 1 }

/-- A write to the statistics of a context. -/
def State.setStat (c : ℕ) (f : MemStat → MemStat) : State γ :=
  s.setCtx c ((s.ctx c).setStat (f (s.ctx c).stat))

/-- The node of page `i` and whether it is ours.  When the heap has no memory for a
new one the null pointer is dereferenced. -/
def nodeFor (pl : Plan) (i : ℕ) (heap : Bool) : Option (State γ × ℕ × Bool) :=
  match s.find pl.ctx (pl.addr i) with
  | some p => some (s, p, false)
  | none => if heap then some (s.newNode, s.nextNode, true) else none

/-- The first writes to the node; memory that was reserved is no longer counted as such. -/
def prepareNode (pl : Plan) (p i : ℕ) : State γ :=
  let pg := s.page p
  let s :=
    if pg.reserved && !pl.req.flags.reserve then
      s.setStat pl.ctx fun st => { st with reserved := u64sub st.reserved pl.pgSize }
    else s
  s.setPage p (pl.prepare i pg)

/-- The physical address of the page of a page cache that holds `addr`. -/
def cachePhys (addr : ℕ) : ℕ := getPagePhysicalAddress s (addr - addr % pageSize)

/-- The links of the copy-on-write chain. -/
@[simps] def Page.setNextCopied (pg : Page) (x : Option ℕ) : Page := { pg with nextCopied := x }

@[simps] def Page.setPrevCopied (pg : Page) (x : Option ℕ) : Page := { pg with prevCopied := x }

@[simps] def Page.setRw (pg : Page) (b : Bool) : Page := { pg with prot := { pg.prot with rw := b } }

/-- The node `p` enters the chain behind the page `q` of the page cache. -/
def linkCopied (q p : ℕ) : State γ :=
  let next := (s.page q).nextCopied
  let s :=
    match next with
    | some n => s.setPage n ((s.page n).setPrevCopied (some p))
    | none => s
  let s := s.setPage p (((s.page p).setNextCopied next).setPrevCopied (some q))
  s.setPage q ((s.page q).setNextCopied (some p))

/-- The physical page of page `i`; reserved memory has none. -/
def backing (pl : Plan) (i : ℕ) (ans : AllocAnswers γ) : State γ × ℕ :=
  if pl.req.flags.reserve then (s, 0)
  else
    let (s, phys, _) := allocatePhysicalPages s pl.nPages pl.nPages (ans.phys i)
    (s, phys)

end

variable [Inhabited γ]

/-- `memzero` of a page; the write faults when the page table in use does not map it. -/
def memzero (s : State γ) (addr n : ℕ) : Option (State γ) :=
  (s.pte s.current addr).map fun e => s.fill e.phys (List.replicate n default)

/-- One round of the loop: the node, whether it is ours, and the status. -/
def commitNode (s : State γ) (pl : Plan) (i : ℕ) (ans : AllocAnswers γ) :
    Option (State γ × ℕ × Bool × Status) :=
  match nodeFor s pl i (ans.heap i) with
  | none => none
  | some (s, p, ours) =>
    let (s, phys) := backing (prepareNode s pl p i) pl i ans
    if pl.isGuard i then some (s.setPage p (s.page p).guard, p, ours, .success)
    else
      let pg := pl.protect (s.page p)
      let s := s.setPage p pg
      if pl.req.flags.reserve then some (s, p, ours, .success)
      else if ans.map i ≠ .success then some (s, p, ours, ans.map i)
      else
        let s := setPageMapping s pl.ctx pg phys
        if pg.prot.present && !pl.prot.readOnly then
          match memzero s pg.addr pl.nPages with
          | none => none
          | some s => some (s, p, ours, .success)
        else some (s, p, ours, .success)

/-! ### The call -/

omit [Inhabited γ] in
/-- The clean-up of the nodes that were inserted. -/
def undoLoop (pl : Plan) (ans : AllocAnswers γ) : ℕ → List (Option ℕ) → State γ → State γ
  | _, [], s => s
  | j, none :: nodes, s => undoLoop pl ans (j + 1) nodes s
  | j, some q :: nodes, s =>
    let pg := (s.page q).setPresent false
    let s := s.setPage q pg
    let s := if ans.unmap j = .success then setPageMapping s pl.ctx pg 0 else s
    undoLoop pl ans (j + 1) nodes ((s.remove pl.ctx q).setPage q ans.freed)

/-- The clean-up after an error at the node `p`, which is freed even if it is in the
tree. -/
def rollback (pl : Plan) (ans : AllocAnswers γ) (nodes : List (Option ℕ)) (p : ℕ) (s : State γ) :
    State γ :=
  (undoLoop pl ans 0 nodes s).setPage p ans.freed

/-- The loop over `n` nodes from the `i`-th on; `nodes` are the nodes before, those that
are ours. -/
def commitLoop (pl : Plan) (ans : AllocAnswers γ) :
    ℕ → ℕ → List (Option ℕ) → State γ → Option (State γ × List (Option ℕ) × Status)
  | 0, _, nodes, s => some (s, nodes, .success)
  | n + 1, i, nodes, s =>
    match commitNode s pl i ans with
    | none => none
    | some (s, p, ours, st) =>
      if st ≠ .success then some (rollback pl ans nodes p s, nodes, st)
      else
        commitLoop pl ans n (i + 1) (nodes ++ [if ours then some p else none]) (s.insert pl.ctx p)

/-- The new pages are swapped out, whatever that answers. -/
def swapOutLoop (ans : AllocAnswers γ) : ℕ → List (Option ℕ) → State γ → State γ
  | _, [], s => s
  | i, none :: nodes, s => swapOutLoop ans (i + 1) nodes s
  | i, some p :: nodes, s => swapOutLoop ans (i + 1) nodes (swapOut s p (ans.out i)).1

/-- The statistics after an allocation. -/
def accountAlloc (size : ℕ) (flags : VirtualMemory.VmaFlags) (st : MemStat) : MemStat :=
  if flags.reserve then { st with reserved := u64 (st.reserved + size) }
  else if flags.nonPaged then
    { st with
      nonPaged := u64 (st.nonPaged + size)
      committedMemory := u64 (st.committedMemory + size) }
  else
    { st with
      paged := u64 (st.paged + size)
      pageable := u64 (st.pageable + size)
      committedMemory := u64 (st.committedMemory + size) }

/-- What follows the loop when no mapping failed. -/
def finish (pl : Plan) (ans : AllocAnswers γ) (nodes : List (Option ℕ)) (s : State γ) : State γ :=
  (if pl.req.flags.nonPaged || pl.req.flags.reserve then s else swapOutLoop ans 0 nodes s).setStat
    pl.ctx (accountAlloc pl.req.size pl.req.flags)

/-- The address that is returned. -/
def Plan.result (pl : Plan) : ℕ :=
  if pl.req.flags.guardPage then u64 (pl.base + pl.pgSize) else pl.base

/-- The loop and what follows it. -/
def commit (pl : Plan) (ans : AllocAnswers γ) (s : State γ) : Option (State γ × Except Status ℕ) :=
  match commitLoop pl ans pl.req.nNodes 0 [] s with
  | none => none
  | some (s, nodes, st) =>
    if st ≠ .success then some (s, .error st) else some (finish pl ans nodes s, .ok pl.result)

omit [Inhabited γ] in
/-- What `VirtualMemory` sees of a node. -/
def Page.view (pg : Page) : VirtualMemory.Page := ⟨pg.addr, pg.prot.hugePage, pg.reserved, pg.isGuardPage⟩

/-- What `VirtualMemory` sees of a context. -/
def State.view (s : State γ) (c : ℕ) : VirtualMemory.Context :=
  ⟨(s.ctx c).kernel, (s.ctx c).pages.map fun p => (s.page p).view⟩

/-- `Mm_VirtualMemoryAlloc` without a file.  There is no result when the search for a base
does not end. -/
def allocAnonymous (s : State γ) (c base size : ℕ) (prot : ProtFlags) (flags : VirtualMemory.VmaFlags)
    (ans : AllocAnswers γ) : Option (State γ × Except Status ℕ) :=
  match VirtualMemory.request ⟨base, size, flags, none⟩ with
  | .error st => some (s, .error st)
  | .ok r =>
    match VirtualMemory.chooseBase (s.view c) r with
    | none => none
    | some (.error st) => some (s, .error st)
    | some (.ok base) => commit ⟨c, base, r, prot⟩ ans s

/-! ### The page cache -/

/-- What the calls made by one `VfsH_PageCacheGetEntry` answer; the pages that are
committed and read are named by their addresses. -/
structure EntryAnswers (γ : Type) where
  reserve : AllocAnswers γ
  commit : ℕ → AllocAnswers γ
  read : ℕ → Status
  data : ℕ → List γ

/-- `VMA_FLAGS_NON_PAGED`, perhaps with `VMA_FLAGS_RESERVE`. -/
def cacheFlags (reserve : Bool) : VirtualMemory.VmaFlags := ⟨false, false, false, false, true, reserve⟩

/-- The data of the page cache is reserved at the first use. -/
def reserveCache (s : State γ) (v : ℕ) (ans : AllocAnswers γ) : Option (State γ) :=
  if (s.vnode v).data ≠ 0 then some s
  else
    match allocAnonymous s kernelContext 0 (s.vnode v).filesize ProtFlags.zero (cacheFlags true)
        ans with
    | none => none
    | some (s, .error _) => some s
    | some (s, .ok base) => some (s.setVnode v { s.vnode v with data := base })

/-- The pages from `addr` on that are only reserved; a page that is not in the tree is
dereferenced. -/
def emptyPages (s : State γ) : ℕ → ℕ → Option (List ℕ)
  | 0, _ => some []
  | n + 1, addr =>
    match s.find kernelContext addr, emptyPages s n (addr + pageSize) with
    | some p, some rest => some (if (s.page p).reserved then addr :: rest else rest)
    | _, _ => none

/-- Commit a page of the page cache and read it from the driver. -/
def fillPage (s : State γ) (addr : ℕ) (ans : EntryAnswers γ) : Option (State γ × Status) :=
  match allocAnonymous s kernelContext addr pageSize ProtFlags.zero (cacheFlags false)
      (ans.commit addr) with
  | none => none
  | some (s, _) =>
    match s.pte s.current addr with
    | none => none
    | some e => some (s.fill e.phys ((ans.data addr).take 1), ans.read addr)

def fillLoop (ans : EntryAnswers γ) : List ℕ → State γ → Option (State γ × Status)
  | [], s => some (s, .success)
  | addr :: rest, s =>
    match fillPage s addr ans with
    | none => none
    | some (s, st) => if st ≠ .success then some (s, st) else fillLoop ans rest s

/-- `VfsH_PageCacheGetEntry`: the address, or 0 when a read failed. -/
def pageCacheGetEntry (s : State γ) (v offset size : ℕ) (ans : EntryAnswers γ) :
    Option (State γ × ℕ) :=
  match reserveCache s v ans.reserve with
  | none => none
  | some s =>
    let at' := u64 ((s.vnode v).data + offset)
    let base := at' - at' % pageSize
    match emptyPages s ((u64 (base + size) - base + (pageSize - 1)) / pageSize) base with
    | none => none
    | some empty =>
      match fillLoop ans empty s with
      | none => none
      | some (s, st) => some (s, if st ≠ .success then 0 else at')

end

end Obos.Vmm
