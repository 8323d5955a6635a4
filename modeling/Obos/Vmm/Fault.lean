/-
`Mm_HandlePageFault` (`mm/handler.c`), on the whole state.

A fault that finds no physical memory blocks in `handle_oom`, which never chooses a page
to swap out (`Oom.chooseLoop_eq`); the handler then stays where it is.

`Obos.Mm` has the handler for its loops over a chain of copies: paging in and the page cache are
parameters there, and allocation always succeeds.  Here they are the calls, and these may fail.

* `pageIn` — a page that is paged out is brought in and put on the referenced list,
* `copyCowPage`, `breakChain` — copy on write,
* `mapFile`, `markDirty` — a page of a file mapping,
* `handlePageFault`.
-/
import Obos.Vmm.Replacement
import Obos.Vmm.Allocation

namespace Obos.Vmm

open VirtualMemory (pageBytes)

variable {γ : Type} [Inhabited γ]

/-- The error code of a page fault. -/
structure ErrorCode where
  present : Bool
  rw : Bool
  user : Bool
  exec : Bool
  deriving DecidableEq, Repr

/-- What the calls made by one `Mm_HandlePageFault` answer.  Copy on write asks for each
other page of the chain. -/
structure FaultAnswers (γ : Type) where
  swapIn : InAnswers γ
  pra : ℕ → OutAnswers γ
  copyPhys : ℕ → PhysAnswer
  copyMap : ℕ → Status
  entry : EntryAnswers γ
  /-- Mapping the page of a file, and the page of the page cache. -/
  fileMap : Status
  cacheMap : Status
  /-- Mapping the page again when it is dirty. -/
  dirtyMap : Status

/-- How a part of the handler ends. -/
inductive Progress where
  | next
  | blocked
  | done (st : Status)
  deriving DecidableEq, Repr

/-! ### Paging in -/

variable (s : State γ)

/-- The page enters the referenced list. -/
def refer (c p : ℕ) : State γ :=
  let x := s.ctx c
  let pg := s.page p
  (s.setPage p ((pg.setAge (pg.age ||| 1)).setProt { pg.prot with touched := false })).setCtx c
    (x.setLists x.workingSet (x.referenced ++ [p]))

/-- The number of referenced pages from which the page replacement runs. -/
def Context.threshold (x : Context) : ℕ := x.capacity / 4 / pageSize

/-- The page comes in, is referenced, and the page replacement may run.  The statistics
are those of `Mm_KernelContext`. -/
def pageIn (c p : ℕ) (a : FaultAnswers γ) : Option (State γ × Progress) :=
  match swapIn s p a.swapIn with
  | none => none
  | some (s, .notEnoughMemory) => some (s, .blocked)
  | some (s, .success) =>
    let s := s.setStat kernelContext fun st => { st with paged := u64sub st.paged (s.page p).bytes }
    let s := refer s c p
    if (s.ctx c).threshold ≤ (s.ctx c).referenced.length then
      match runPRA s c a.pra with
      | none => none
      | some s => some (s, .next)
    else some (s, .next)
  | some (s, st) => some (s, .done st)

/-! ### Copy on write -/

/-- `memcpy` of the frames at `phys` to the page; the write faults when the page table in
use does not map it. -/
def copyTo (addr phys n : ℕ) : Option (State γ) :=
  (s.pte s.current addr).map fun e => s.fill e.phys (s.read phys n)

/-- The page leaves its copy-on-write chain. -/
def State.unlinkCopied (p : ℕ) : State γ :=
  let prev := (s.page p).prevCopied
  let next := (s.page p).nextCopied
  let s :=
    match prev with
    | some q => s.setPage q ((s.page q).setNextCopied next)
    | none => s
  let s :=
    match next with
    | some q => s.setPage q ((s.page q).setPrevCopied prev)
    | none => s
  s.setPage p (((s.page p).setNextCopied none).setPrevCopied none)

/-- `copy_cow_page`.  An error of the physical allocator other than running out of memory
is returned, and the caller does not look at it. -/
def copyCowPage (c p other : ℕ) (a : FaultAnswers γ) :
    Option (State γ × Progress) :=
  let pg := s.page p
  let o := s.page other
  let phys := getPagePhysicalAddress s pg.addr
  if o.nextCopied ≠ some p ∧ o.prevCopied ≠ some p then
    let s := s.setPage other (o.setRw true)
    some (if a.copyMap other = .success then setPageMapping s c (s.page p) phys else s, .next)
  else if o.pagedOut then some (s.setPage other (o.setRw true), .next)
  else
    match allocatePhysicalPages s pg.nPages pg.nPages (a.copyPhys other) with
    | (s, _, .notEnoughMemory) => some (s, .blocked)
    | (s, newPhys, .success) =>
      let s := s.setPage p (pg.setRw true)
      let s := if a.copyMap other = .success then setPageMapping s c (s.page p) newPhys else s
      match copyTo s pg.addr phys pg.nPages with
      | none => none
      | some s => some (s.setPage other ((s.page other).setRw true), .next)
    | (s, _, _) => some (s, .next)

/-- The loop over the pages of the chain on one side: `next` names the links that it
follows, `prev` the others.  A page of the chain without a neighbour is dereferenced. -/
def breakChain (next prev : Page → Option ℕ) (c : ℕ) (a : FaultAnswers γ) :
    ℕ → Option ℕ → State γ → Option (State γ × Progress)
  | _, none, s => some (s, .next)
  | 0, some _, _ => none
  | n + 1, some cur, s =>
    match prev (s.page cur) with
    | none => none
    | some p =>
      match copyCowPage s c p cur a with
      | none => none
      | some (s, .next) => breakChain next prev c a n (next (s.page cur)) (s.unlinkCopied cur)
      | some (s, r) => some (s, r)

/-- The page gets a frame of its own. -/
def breakCow (c p : ℕ) (a : FaultAnswers γ) : Option (State γ × Progress) :=
  match breakChain Page.nextCopied Page.prevCopied c a s.nextNode (s.page p).nextCopied s with
  | some (s, .next) =>
    breakChain Page.prevCopied Page.nextCopied c a s.nextNode (s.page p).prevCopied s
  | r => r

/-! ### Files -/

/-- The page `p` and the page `q` of the page cache become copies of each other.  The
branch is only taken when `isPrivateMapping` is set. -/
def mapPrivate (c p q entry : ℕ) (a : FaultAnswers γ) : State γ :=
  let s := linkCopied s q p
  let s := s.setPage p (((s.page p).setRw (s.page p).prot.ro).setPresent true)
  let s := s.setPage q (((s.page q).setRw (s.page q).prot.ro).setPresent true)
  let s := if a.fileMap = .success then
    setPageMapping s c (s.page p) (getPagePhysicalAddress s (s.page p).addr) else s
  if a.cacheMap = .success then setPageMapping s kernelContext (s.page q) (cachePhys s entry) else s

/-- A page of a file mapping that is not present is mapped. -/
def mapFile (c p addr reg : ℕ) (a : FaultAnswers γ) : Option (State γ × Progress) :=
  let r := s.region reg
  if (s.vnode r.owner).filesize < u64 (r.fileoff + r.sz) then some (s, .done .unhandled)
  else
    match pageCacheGetEntry s r.owner (u64 (r.fileoff + u64sub addr r.addr)) pageSize a.entry with
    | none => none
    | some (s, entry) =>
      if (s.page p).isPrivateMapping then
        match s.find kernelContext entry with
        | none => none
        | some q => some (mapPrivate s c p q entry a, .next)
      else
        let s := s.setPage p ((s.page p).setPresent true)
        some (if a.fileMap = .success then setPageMapping s c (s.page p) (cachePhys s entry) else s,
          .next)

/-- The part of the file that the page maps is dirty. -/
def markDirty (c p addr reg : ℕ) (a : FaultAnswers γ) : State γ :=
  let r := s.region reg
  let sz := u64 (u64sub r.sz r.fileoff + u64sub addr r.addr)
  let x := s.vnode r.owner
  let s := s.setVnode r.owner { x with
    dirtyRegions := x.dirtyRegions ++ [(u64 (r.fileoff + u64sub addr r.addr), sz - sz % pageSize)] }
  let phys := getPagePhysicalAddress s (s.page p).addr
  let s := s.setPage p ((s.page p).setRw true)
  if a.dirtyMap = .success then setPageMapping s c (s.page p) phys else s

/-! ### The handler -/

/-- The access is not allowed. -/
def Page.refuses (pg : Page) (ec : ErrorCode) : Bool :=
  ec.exec && !pg.prot.executable || ec.rw && pg.prot.ro || ec.user && !pg.prot.user

/-- What follows copy on write, where `handled` says whether the fault is handled. -/
def faultFile (c p addr : ℕ) (ec : ErrorCode) (handled : Bool) (a : FaultAnswers γ) :
    Option (State γ × Progress) :=
  let status := fun h => if h then Status.success else .unhandled
  match (s.page p).region with
  | none => some (s, .done (status handled))
  | some reg =>
    match (if ec.present then some (s, .next) else mapFile s c p addr reg a) with
    | some (s, .next) =>
      let handled := handled || !ec.present
      if !(s.page p).prot.ro && ec.rw then
        some (markDirty s c p addr reg a, .done (status handled))
      else some (s, .done (status handled))
    | r => r

/-- `Mm_HandlePageFault`. -/
def handlePageFault (c addr : ℕ) (ec : ErrorCode) (a : FaultAnswers γ) :
    Option (State γ × Progress) :=
  match s.find c addr with
  | none => some (s, .done .unhandled)
  | some p =>
    if (s.page p).refuses ec then some (s, .done .unhandled)
    else
      let swapped := (s.page p).pagedOut && !ec.present
      match (if swapped then pageIn s c p a else some (s, .next)) with
      | some (s, .next) =>
        let copied := ((s.page p).nextCopied.isSome || (s.page p).prevCopied.isSome) && ec.rw
        match (if copied then breakCow s c p a else some (s, .next)) with
        | some (s, .next) => faultFile s c p addr ec (swapped || copied) a
        | r => r
      | r => r

omit [Inhabited γ] in
/-- A part of the handler goes on to what follows, or the handler ends with it. -/
theorem next_cases {x : Option (State γ × Progress)} {f : State γ → Option (State γ × Progress)}
    {t : State γ} {r : Progress}
    (h : (match x with
      | some (s, .next) => f s
      | r => r) = some (t, r)) :
    (∃ u, x = some (u, .next) ∧ f u = some (t, r)) ∨ x = some (t, r) := by
  split at h
  · exact .inl ⟨_, rfl, h⟩
  · exact .inr h

end Obos.Vmm
