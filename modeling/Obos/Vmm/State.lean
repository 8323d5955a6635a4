/-
The state that the virtual memory manager works on: `page.h`, `context.h`, and
what lies below it (page tables, physical frames, swap devices).

A page node is a number, handed out by a counter (`nextNode`); a context is a
number too, and `kernelContext` is `Mm_KernelContext`.  The page tree of a context
is the list of its nodes in the order of their addresses.  A page table maps the
address at which a page starts; that the tables of the machine implement such a
map is `PageTables.refines_run`.

Everything that can fail is asked for its answer: the answers of one call are an
argument of the call, and a frame or a swap id is only taken from an answer if it
is free.

* `getPagePhysicalAddress`, `setPageMapping`, `queryPageInfo` — the page tables,
* `allocatePhysicalPages`, `freePhysicalPages` — the frames; every frame handed
  back is recorded with what was true of it at that time (`HandBack`),
* `swapResv`, `swapWrite`, `swapRead`, `swapFree` — the swap devices.
-/
import Obos.VirtualMemory

namespace Obos.Vmm

open Function
open VirtualMemory (pageBytes)

/-! ### Pages and contexts -/

/-- `page.prot`. -/
structure Prot where
  present : Bool
  rw : Bool
  user : Bool
  touched : Bool
  hugePage : Bool
  executable : Bool
  uc : Bool
  ro : Bool
  deriving DecidableEq, Repr

def Prot.zero : Prot := ⟨false, false, false, false, false, false, false, false⟩

/-- `struct page`. -/
structure Page where
  owner : ℕ
  addr : ℕ
  prot : Prot
  region : Option ℕ
  isPrivateMapping : Bool
  workingSets : ℕ
  pageable : Bool
  pagedOut : Bool
  isGuardPage : Bool
  allocated : Bool
  reserved : Bool
  age : ℕ
  swapId : ℕ
  nextCopied : Option ℕ
  prevCopied : Option ℕ
  deriving DecidableEq, Repr

/-- A node as `ZeroAllocate` returns it. -/
def Page.zero : Page where
  owner := 0
  addr := 0
  prot := Prot.zero
  region := none
  isPrivateMapping := false
  workingSets := 0
  pageable := false
  pagedOut := false
  isGuardPage := false
  allocated := false
  reserved := false
  age := 0
  swapId := 0
  nextCopied := none
  prevCopied := none

section

variable (pg : Page)

@[simps] def Page.setPresent (b : Bool) : Page :=
  { pg with prot := { pg.prot with present := b } }

@[simps] def Page.setPagedOut (b : Bool) : Page := { pg with pagedOut := b }

@[simps] def Page.setSwapId (id : ℕ) : Page := { pg with swapId := id }

@[simps] def Page.setWorkingSets (n : ℕ) : Page := { pg with workingSets := n }

@[simps] def Page.setAge (age : ℕ) : Page := { pg with age := age }

@[simps] def Page.setProt (prot : Prot) : Page := { pg with prot := prot }

/-- The size of the page in bytes. -/
def Page.bytes : ℕ := pageBytes pg.prot.hugePage

/-- The size of the page in frames. -/
def Page.nPages : ℕ := if pg.prot.hugePage then hugePageSize / pageSize else 1

end

/-- `memstat`. -/
@[ext]
structure MemStat where
  committedMemory : ℕ
  paged : ℕ
  pageable : ℕ
  nonPaged : ℕ
  reserved : ℕ
  deriving DecidableEq, Repr

def MemStat.zero : MemStat := ⟨0, 0, 0, 0, 0⟩

/-- `struct context`. -/
structure Context where
  /-- `ctx->owner->pid == 1`. -/
  kernel : Bool
  /-- The page tree. -/
  pages : List ℕ
  /-- `workingSet.pages`. -/
  workingSet : List ℕ
  capacity : ℕ
  /-- `workingSet.size`. -/
  size : ℕ
  referenced : List ℕ
  stat : MemStat
  deriving DecidableEq, Repr

@[simps] def Context.setLists (x : Context) (workingSet referenced : List ℕ) : Context :=
  { x with workingSet := workingSet, referenced := referenced }

@[simps] def Context.setSize (x : Context) (size : ℕ) : Context := { x with size := size }

@[simps] def Context.setStat (x : Context) (stat : MemStat) : Context := { x with stat := stat }

@[simps] def Context.setPages (x : Context) (pages : List ℕ) : Context := { x with pages := pages }

/-- `Mm_KernelContext`. -/
def kernelContext : ℕ := 0

/-- The entry of a page table for a page. -/
structure Pte where
  phys : ℕ
  hugePage : Bool
  rw : Bool
  user : Bool
  executable : Bool
  /-- The accessed or the dirty bit is set. -/
  touched : Bool
  deriving DecidableEq, Repr

/-- The number of frames that the entry maps. -/
def Pte.nPages (e : Pte) : ℕ := if e.hugePage then hugePageSize / pageSize else 1

/-- `struct pagecache_mapped_region`; its owner is the vnode of the page cache. -/
structure MappedRegion where
  fileoff : ℕ
  addr : ℕ
  sz : ℕ
  owner : ℕ
  ctx : ℕ
  deriving DecidableEq, Repr

/-- A vnode and its page cache. -/
structure Vnode where
  filesize : ℕ
  /-- `pagecache.data`, 0 before the first use. -/
  data : ℕ
  mappedRegions : List ℕ
  /-- The offset and the size of each dirty region. -/
  dirtyRegions : List (ℕ × ℕ)
  deriving DecidableEq, Repr

/-- A frame was given to `Mm_FreePhysicalPages`: what was true of it then. -/
structure HandBack where
  frame : ℕ
  /-- Some page node mapped the frame. -/
  mapped : Prop
  /-- The frame was free. -/
  free : Bool

/-- The memory manager and what it works on; `γ` is the content of a frame. -/
structure State (γ : Type) where
  page : ℕ → Page
  nextNode : ℕ
  ctx : ℕ → Context
  /-- The page tables, by context and address. -/
  pte : ℕ → ℕ → Option Pte
  /-- The context whose page table the processor uses. -/
  current : ℕ
  contents : ℕ → γ
  freeFrame : ℕ → Bool
  /-- The reservations of each swap device, by swap id. -/
  device : ℕ → ℕ → Option (List γ)
  swapProvider : Option ℕ
  vnode : ℕ → Vnode
  region : ℕ → MappedRegion
  handBacks : List HandBack

namespace State

variable {γ : Type}

variable (s : State γ)

/-- A write to a page node. -/
@[simps] def setPage (p : ℕ) (pg : Page) : State γ :=
  { s with page := update s.page p pg }

@[simps] def setCtx (c : ℕ) (x : Context) : State γ :=
  { s with ctx := update s.ctx c x }

@[simps] def setPte (c addr : ℕ) (x : Option Pte) : State γ :=
  { s with pte := fun c' addr' => if c' = c ∧ addr' = addr then x else s.pte c' addr' }

@[simps] def setReservation (dev id : ℕ) (x : Option (List γ)) : State γ :=
  { s with device := fun dev' id' => if dev' = dev ∧ id' = id then x else s.device dev' id' }

@[simps] def setVnode (v : ℕ) (x : Vnode) : State γ :=
  { s with vnode := update s.vnode v x }

/-- `RB_FIND` in the tree of a context. -/
def find (c addr : ℕ) : Option ℕ :=
  (s.ctx c).pages.find? fun p => (s.page p).addr = addr

/-- `RB_INSERT`, which keeps the member of the same address if there is one. -/
def insert (c p : ℕ) : State γ :=
  if (s.find c (s.page p).addr).isSome then s
  else s.setCtx c ((s.ctx c).setPages
    ((s.ctx c).pages.orderedInsert (fun a b => (s.page a).addr ≤ (s.page b).addr) p))

/-- `RB_REMOVE`. -/
def remove (c p : ℕ) : State γ :=
  s.setCtx c ((s.ctx c).setPages ((s.ctx c).pages.erase p))

end State

/-! ### Frames -/

/-- The numbers of the `n` frames from `phys` on. -/
def frames (phys n : ℕ) : List ℕ := (List.range n).map (phys / pageSize + ·)

/-- The entry maps the frame. -/
def Pte.Maps (e : Pte) (f : ℕ) : Prop := f ∈ frames e.phys e.nPages

/-- The page node `p` of the context `c` maps the frame. -/
def State.MapsFrame {γ : Type} (s : State γ) (c p f : ℕ) : Prop :=
  p ∈ (s.ctx c).pages ∧ ∃ e, s.pte c (s.page p).addr = some e ∧ e.Maps f

/-- What the physical allocator answers: the block, and the frames that it takes
from its lists beyond the block to align it. -/
structure PhysAnswer where
  status : Status
  phys : ℕ
  slack : List ℕ
  deriving DecidableEq, Repr

section

variable {γ : Type}

/-- The answer is a block of `n` free frames, aligned to `align` frames. -/
def PhysAnswer.Grants (a : PhysAnswer) (s : State γ) (n align : ℕ) : Prop :=
  a.status = .success ∧ a.phys ≠ 0 ∧ a.phys % (align * pageSize) = 0 ∧
    (∀ f ∈ frames a.phys n, s.freeFrame f = true) ∧ ∀ f ∈ a.slack, s.freeFrame f = true

instance (a : PhysAnswer) (s : State γ) (n align : ℕ) : Decidable (a.Grants s n align) := by
  unfold PhysAnswer.Grants
  infer_instance

variable (s : State γ)

/-- The frames of a block of `n` pages and its slack are no longer free. -/
@[simps] def State.take (n : ℕ) (a : PhysAnswer) : State γ :=
  { s with freeFrame := fun f => s.freeFrame f && f ∉ frames a.phys n && f ∉ a.slack }

/-- `Mm_AllocatePhysicalPages`: the block and the status, where the block is 0 if
there is none. -/
def allocatePhysicalPages (n align : ℕ) (a : PhysAnswer) : State γ × ℕ × Status :=
  if a.Grants s n align then (s.take n a, a.phys, .success)
  else (s, 0, if a.status = .success then .notEnoughMemory else a.status)

theorem allocatePhysicalPages_of_grants {s : State γ} {n align : ℕ} {a : PhysAnswer}
    (h : a.Grants s n align) : allocatePhysicalPages s n align a = (s.take n a, a.phys, .success) := if_pos h

theorem allocatePhysicalPages_of_not {s : State γ} {n align : ℕ} {a : PhysAnswer}
    (h : ¬ a.Grants s n align) :
    ∃ st, st ≠ .success ∧ allocatePhysicalPages s n align a = (s, 0, st) := by
  refine ⟨_, ?_, if_neg h⟩
  split
  · decide
  · assumption

/-- The `n` frames from `phys` on are handed back. -/
@[simps] def State.give (phys n : ℕ) : State γ :=
  { s with
    freeFrame := fun f => s.freeFrame f || f ∈ frames phys n
    handBacks := s.handBacks ++
      (frames phys n).map fun f => ⟨f, ∃ c p, s.MapsFrame c p f, s.freeFrame f⟩ }

/-- `Mm_FreePhysicalPages`, which refuses the null address. -/
def freePhysicalPages (phys n : ℕ) (answer : Status) : State γ × Status :=
  if phys = 0 then (s, .invalidArgument)
  else if answer ≠ .success then (s, answer)
  else (s.give phys n, .success)

theorem freePhysicalPages_of_ne {s : State γ} {phys : ℕ} (n : ℕ) (h : phys ≠ 0) :
    freePhysicalPages s phys n .success = (s.give phys n, .success) := by
  rw [freePhysicalPages, if_neg h, if_neg (not_not.mpr rfl)]

/-- The contents of the `n` frames from `phys` on. -/
def State.read (phys n : ℕ) : List γ := (frames phys n).map s.contents

/-- The frames from `phys` on get these contents. -/
@[simps] def State.fill (phys : ℕ) (data : List γ) : State γ :=
  { s with contents := fun f => (data[f - phys / pageSize]?).elim (s.contents f) fun x =>
      if phys / pageSize ≤ f then x else s.contents f }

theorem frames_length (phys n : ℕ) : (frames phys n).length = n := by
  rw [frames, List.length_map, List.length_range]

/-- What was written to the frames is read back. -/
theorem State.read_fill (phys : ℕ) {n : ℕ} {data : List γ} (h : data.length = n) :
    (s.fill phys data).read phys n = data := by
  refine List.ext_getElem (by rw [State.read, List.length_map, frames_length, h]) fun i h1 h2 => ?_
  simp only [State.read, frames, List.map_map, List.getElem_map, List.getElem_range,
    comp_apply, State.fill_contents, Nat.add_sub_cancel_left, List.getElem?_eq_getElem h2,
    Option.elim_some, if_pos (Nat.le_add_right _ i)]

/-! ### Page tables -/

/-- `OBOSS_GetPagePhysicalAddress`: it walks the page table that is in use, and the
address of a page that is not mapped is 0. -/
def getPagePhysicalAddress (addr : ℕ) : ℕ :=
  ((s.pte s.current addr).map Pte.phys).getD 0

/-- The entry that `MmS_SetPageMapping` writes for a page, or none if it unmaps. -/
def pteOf (pg : Page) (phys : ℕ) : Option Pte :=
  if pg.prot.present then
    some ⟨phys, pg.prot.hugePage, pg.prot.rw, pg.prot.user, pg.prot.executable, false⟩
  else none

/-- `MmS_SetPageMapping` with the page table of `c`, when it succeeds. -/
def setPageMapping (c : ℕ) (pg : Page) (phys : ℕ) : State γ :=
  s.setPte c pg.addr (pteOf pg phys)

/-- The protection that `MmS_QueryPageInfo` reports for an entry. -/
def protOf : Option Pte → Prot
  | none => Prot.zero
  | some e => ⟨true, e.rw, e.user, e.touched, e.hugePage, e.executable, false, false⟩

/-- `MmS_QueryPageInfo` into the page node `p`.  It clears the accessed and the
dirty bit. -/
def queryPageInfo (c p : ℕ) : State γ :=
  let pg := s.page p
  let e := s.pte c pg.addr
  (s.setPage p (pg.setProt (protOf e))).setPte c pg.addr
    (e.map fun e => { e with touched := false })

end

/-! ### Swap devices -/

section

variable {γ : Type}

/-- The status of a call that the device can only refuse with an error. -/
def refusal (answer : Status) : Status := if answer = .success then .invalidArgument else answer

theorem refusal_ne (answer : Status) : refusal answer ≠ .success := by
  unfold refusal
  split
  · decide
  · assumption

/-- `swap_resv` of `n` pages.  An id that is in use is never given out. -/
def swapResv [Inhabited γ] (s : State γ) (dev id n : ℕ) (answer : Status) : State γ × Status :=
  if answer = .success ∧ s.device dev id = none then
    (s.setReservation dev id (some (List.replicate n default)), .success)
  else (s, refusal answer)

/-- `swap_write` of the `n` frames from `phys` on; a write that fails leaves `junk`. -/
def swapWrite (s : State γ) (dev id phys n : ℕ) (answer : Status) (junk : List γ) :
    State γ × Status :=
  match s.device dev id with
  | none => (s, refusal answer)
  | some _ =>
    if answer = .success then (s.setReservation dev id (some (s.read phys n)), .success)
    else (s.setReservation dev id (some junk), answer)

/-- `swap_read` into the `n` frames from `phys` on; a read that fails leaves `junk`. -/
def swapRead (s : State γ) (dev id phys n : ℕ) (answer : Status) (junk : List γ) :
    State γ × Status :=
  match s.device dev id with
  | none => (s.fill phys (junk.take n), refusal answer)
  | some data =>
    if answer = .success then (s.fill phys (data.take n), .success)
    else (s.fill phys (junk.take n), answer)

/-- `swap_free`. -/
def swapFree (s : State γ) (dev id : ℕ) (answer : Status) : State γ × Status :=
  if answer = .success ∧ s.device dev id ≠ none then (s.setReservation dev id none, .success)
  else (s, refusal answer)

variable {s : State γ} {dev id n : ℕ}

theorem swapResv_of_ok [Inhabited γ] (h : s.device dev id = none) :
    swapResv s dev id n .success =
      (s.setReservation dev id (some (List.replicate n default)), .success) := if_pos ⟨rfl, h⟩

theorem swapWrite_of_ok {old : List γ} (phys : ℕ) (junk : List γ) (h : s.device dev id = some old) :
    swapWrite s dev id phys n .success junk =
      (s.setReservation dev id (some (s.read phys n)), .success) := by
  rw [swapWrite, h]
  rfl

theorem swapRead_of_ok {data : List γ} (phys : ℕ) (junk : List γ) (h : s.device dev id = some data) :
    swapRead s dev id phys n .success junk = (s.fill phys (data.take n), .success) := by
  rw [swapRead, h]
  rfl

theorem swapFree_of_ok {data : List γ} (h : s.device dev id = some data) :
    swapFree s dev id .success = (s.setReservation dev id none, .success) :=
  if_pos ⟨rfl, by rw [h]; nofun⟩

theorem swapRead_success {phys : ℕ} {st : Status} {junk : List γ}
    (h : (swapRead s dev id phys n st junk).2 = .success) :
    st = .success ∧ ∃ data, s.device dev id = some data := by
  unfold swapRead at h
  cases hd : s.device dev id with
  | none =>
    rw [hd] at h
    exact absurd h (refusal_ne st)
  | some data =>
    rw [hd] at h
    dsimp only at h
    by_cases hst : st = .success
    · exact ⟨hst, data, rfl⟩
    · rw [if_neg hst] at h
      exact absurd h hst

theorem swapResv_success [Inhabited γ] {st : Status} (h : (swapResv s dev id n st).2 = .success) :
    st = .success ∧ s.device dev id = none := by
  unfold swapResv at h
  by_cases hst : st = .success ∧ s.device dev id = none
  · exact hst
  · rw [if_neg hst] at h
    exact absurd h (refusal_ne st)

theorem swapWrite_success {phys : ℕ} {st : Status} {junk : List γ}
    (h : (swapWrite s dev id phys n st junk).2 = .success) : st = .success := by
  unfold swapWrite at h
  split at h
  · exact absurd h (refusal_ne st)
  · by_cases hst : st = .success
    · exact hst
    · rw [if_neg hst] at h
      exact absurd h hst

theorem swapFree_success {st : Status} (h : (swapFree s dev id st).2 = .success) :
    st = .success := by
  unfold swapFree at h
  by_cases hst : st = .success ∧ s.device dev id ≠ none
  · exact hst.1
  · rw [if_neg hst] at h
    exact absurd h (refusal_ne st)

/-- A device call changes the reservations and the contents of frames only. -/
structure DeviceOnly (s s' : State γ) : Prop where
  page : s'.page = s.page
  ctx : s'.ctx = s.ctx
  pte : s'.pte = s.pte
  freeFrame : s'.freeFrame = s.freeFrame
  swapProvider : s'.swapProvider = s.swapProvider

theorem swapResv_only [Inhabited γ] (s : State γ) (dev id n : ℕ) (st : Status) :
    DeviceOnly s (swapResv s dev id n st).1 := by
  unfold swapResv
  split <;> exact ⟨rfl, rfl, rfl, rfl, rfl⟩

theorem swapWrite_only (s : State γ) (dev id phys n : ℕ) (st : Status) (junk : List γ) :
    DeviceOnly s (swapWrite s dev id phys n st junk).1 := by
  unfold swapWrite
  split
  · exact ⟨rfl, rfl, rfl, rfl, rfl⟩
  · split <;> exact ⟨rfl, rfl, rfl, rfl, rfl⟩

theorem swapRead_only (s : State γ) (dev id phys n : ℕ) (st : Status) (junk : List γ) :
    DeviceOnly s (swapRead s dev id phys n st junk).1 := by
  unfold swapRead
  split
  · exact ⟨rfl, rfl, rfl, rfl, rfl⟩
  · split <;> exact ⟨rfl, rfl, rfl, rfl, rfl⟩

theorem swapFree_only (s : State γ) (dev id : ℕ) (st : Status) :
    DeviceOnly s (swapFree s dev id st).1 := by
  unfold swapFree
  split <;> exact ⟨rfl, rfl, rfl, rfl, rfl⟩

theorem DeviceOnly.trans {s t u : State γ} (h : DeviceOnly s t) (h' : DeviceOnly t u) :
    DeviceOnly s u :=
  ⟨h'.page.trans h.page, h'.ctx.trans h.ctx, h'.pte.trans h.pte, h'.freeFrame.trans h.freeFrame,
    h'.swapProvider.trans h.swapProvider⟩

end

end Obos.Vmm
