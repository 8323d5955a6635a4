/-
The initial swap device: a buffer of memory from which callers reserve pages.

Free regions and reservations both begin with a `struct swap_page`, in the
buffer itself.  The device header (`struct swap_header`) is a record here; it
occupies the first 64 bytes of the buffer.  The tree of reservations is the
list of its members: `RB_FIND` succeeds when some member compares equal, and
the tree's own links are bytes 24 to 56 of the members, which every insertion
and removal may change (the argument `rb`).

`swap_write` and `swap_read` release the device's lock after they found the
reservation and copy without it, so the system of all callers takes them in
two steps, with other calls between.

* `swapResv`, `swapFree`, `initializeInitialSwapDevice` — functions of the device,
* `findPage`, `writeData`, `readData` — the two parts of `swap_write` and `swap_read`,
* `State`, `Op`, `step` — the system of the device and its callers,
* `Safe` — what the callers rely on.
-/
import Obos.Machine
import Obos.Lib.FreeList

namespace Obos.Swap

open FreeList (Ends)

/-- `sizeof(struct swap_page)`. -/
def swapPageSize : ℕ := 56

/-- `sizeof(struct swap_header)`. -/
def swapHeaderSize : ℕ := 64

def swapHeaderMagic : ℕ := 0x535741504844524D

structure SwapHeader where
  magic : ℕ
  /-- The members of the tree. -/
  pages : List ℕ
  freeList : Ends
  nNodes : ℕ
  size : ℕ
  nBytesFree : ℕ

structure SwapDev where
  mem : ByteMem
  metadata : ℕ
  hdr : SwapHeader

/-! ### The tree of reservations -/

/-- `cmp`: the difference of the pointers is converted to an `int`. -/
def cmp (left right : ℕ) : ℤ :=
  if left = right then 0 else ((left : ℤ) - right).bmod (2 ^ 32)

def rbFind (pages : List ℕ) (page : ℕ) : Option ℕ := pages.find? fun e => cmp page e = 0

/-- `RB_INSERT` does not insert what compares equal to a member. -/
def rbInsert (pages : List ℕ) (page : ℕ) : List ℕ :=
  if (rbFind pages page).isSome then pages else page :: pages

/-- The writes of the tree to the `rb_node` fields of `pages`. -/
def rbLinks (m : ByteMem) (pages : List ℕ) (rb : ByteMem) : ByteMem := fun a =>
  if pages.any fun e => e + 24 ≤ a ∧ a < e + 56 then rb a else m a

/-! ### The device -/

/-- The fields of a `struct swap_page` are those of a free-list header. -/
def size (m : ByteMem) (page : ℕ) : ℕ := FreeList.count m page

section

variable (d : SwapDev)

/-- `hdr` is not null and has the magic. -/
def SwapDev.valid : Bool := d.metadata ≠ 0 ∧ d.hdr.magic = swapHeaderMagic

/-- The search of `swap_resv`; one that visits more nodes than there are
addresses never ends. -/
def findFree (nBytesRequired : ℕ) : Option ℕ :=
  DLinked.walk (FreeList.next d.mem) 0 (fun page => nBytesRequired ≤ size d.mem page) (2 ^ 64)
    d.hdr.freeList.head

/-- The free list after `page` lost its bytes: a node without bytes is unlinked. -/
def dropEmpty (m : ByteMem) (hdr : SwapHeader) (page left : ℕ) : ByteMem × SwapHeader :=
  if left = 0 then
    let (m, l) := FreeList.unlink m hdr.freeList page
    (m, { hdr with freeList := l, nNodes := u64sub hdr.nNodes 1 })
  else (m, hdr)

/-- The part of `swap_resv` that follows the search: take the bytes off the end
of the region of `page`. -/
def takeBytes (rb : ByteMem) (page allocSize nBytesRequired : ℕ) : SwapDev × ℕ :=
  let left := u64sub (size d.mem page) nBytesRequired
  let buf := u64 (page + left)
  let (m, hdr) := dropEmpty (FreeList.setCount d.mem page left)
    { d.hdr with nBytesFree := u64sub d.hdr.nBytesFree nBytesRequired } page left
  let pages := rbInsert hdr.pages buf
  let m := FreeList.setCount (rbLinks m pages rb) buf allocSize
  ({ d with mem := m, hdr := { hdr with pages := pages } }, buf)

/-- `swap_resv`: the device afterwards and the id. -/
def swapResv (rb : ByteMem) (nPages : ℕ) : Option (Except Status (SwapDev × ℕ)) :=
  if nPages = 0 ∨ !d.valid then some (.error .invalidArgument)
  else
    let allocSize := u64 (nPages * pageSize)
    let nBytesRequired := u64 (allocSize + swapPageSize)
    if d.hdr.nBytesFree < nBytesRequired then some (.error .notEnoughMemory)
    else
      match findFree d nBytesRequired with
      | none => none
      | some page =>
        if page = 0 then some (.error .notEnoughMemory)
        else some (.ok (takeBytes d rb page allocSize nBytesRequired))

/-- `swap_free`.  The node's `next` field is not written. -/
def swapFree (rb : ByteMem) (id nPages : ℕ) : Except Status SwapDev :=
  if nPages = 0 ∨ id = 0 ∨ !d.valid then .error .invalidArgument
  else if rbFind d.hdr.pages id = none then .error .invalidArgument
  else
    let m := rbLinks d.mem d.hdr.pages rb
    let (m, l) := FreeList.append m d.hdr.freeList id
    .ok { d with
      mem := m
      hdr := { d.hdr with
        pages := d.hdr.pages.erase id
        freeList := l
        nNodes := u64sub d.hdr.nNodes 1
        nBytesFree := u64 (d.hdr.nBytesFree + size m id) } }

/-- The part of `swap_write` and `swap_read` under the lock. -/
def findPage (id : ℕ) : Except Status Unit :=
  if id = 0 ∨ !d.valid then .error .invalidArgument
  else if rbFind d.hdr.pages id = none then .error .invalidArgument
  else .ok ()

/-- The checks of `swap_write` and `swap_read` on a nonempty range. -/
def inRange (id nPages offsetBytes : ℕ) : Bool :=
  let nBytes := u64 (nPages * pageSize)
  nBytes ≤ size d.mem id ∧ offsetBytes < size d.mem id ∧
    u64 (offsetBytes + nBytes) ≤ size d.mem id

/-- `(char*)(page + 1) + offsetBytes`. -/
def dataAddr (id offsetBytes : ℕ) : ℕ := u64 (id + swapPageSize + offsetBytes)

/-- The rest of `swap_write`, where `physMem` is the physical memory. -/
def writeData (physMem : ByteMem) (id phys nPages offsetBytes : ℕ) :
    Except Status SwapDev :=
  if nPages = 0 then .ok d
  else if inRange d id nPages offsetBytes then
    let buf := dataAddr id offsetBytes
    .ok { d with
      mem := d.mem.overwrite ⟨buf, u64 (nPages * pageSize)⟩ (fun a => physMem (phys + (a - buf))) }
  else .error .invalidArgument

/-- The rest of `swap_read`: the physical memory afterwards. -/
def readData (physMem : ByteMem) (id phys nPages offsetBytes : ℕ) :
    Except Status ByteMem :=
  if nPages = 0 then .ok physMem
  else if inRange d id nPages offsetBytes then
    let buf := dataAddr id offsetBytes
    .ok (physMem.overwrite ⟨phys, u64 (nPages * pageSize)⟩ fun a => d.mem (buf + (a - phys)))
  else .error .invalidArgument

/-- `swap_read`, when nothing happens between its two parts. -/
def swapRead (physMem : ByteMem) (id phys nPages offsetBytes : ℕ) :
    Except Status ByteMem := do
  findPage d id
  readData d physMem id phys nPages offsetBytes

/-- The device that `Arch_InitializeInitialSwapDevice` sets up in the buffer of
`bufSize` bytes at `buf`. -/
def freshDevice (mem : ByteMem) (buf bufSize : ℕ) : SwapDev :=
  let size := bufSize - swapHeaderSize
  let free := u64 (buf + swapHeaderSize)
  let m := (mem.zero ⟨buf, swapHeaderSize⟩).zero ⟨free, swapPageSize⟩
  { mem := FreeList.setCount m free (size - swapPageSize)
    metadata := buf
    hdr :=
      { magic := swapHeaderMagic
        pages := []
        freeList := ⟨free, free⟩
        nNodes := 1
        size := size
        nBytesFree := size - swapPageSize } }

/-- `Arch_InitializeInitialSwapDevice`. -/
def initializeInitialSwapDevice (mem : ByteMem) (buf bufSize : ℕ) : Except Status SwapDev :=
  if buf = 0 ∨ bufSize < swapHeaderSize + hugePageSize then .error .invalidArgument
  else .ok (freshDevice mem buf bufSize)

/-! ### The device and its callers -/

/-- A call of `swap_write` or `swap_read` that has found its reservation. -/
structure Call where
  write : Bool
  id : ℕ
  phys : ℕ
  nPages : ℕ
  offsetBytes : ℕ
  deriving DecidableEq, Repr

/-- The device, the calls that are about to copy, the reservations that were
made and not freed, and the bytes written through each id. -/
structure State where
  dev : SwapDev
  calls : List Call
  live : List (ℕ × ℕ)
  written : ℕ → ℕ → Option UInt8

inductive Op where
  | resv (rb : ByteMem) (nPages : ℕ)
  | free (rb : ByteMem) (id nPages : ℕ)
  /-- A call finds its reservation and releases the lock. -/
  | find (c : Call)
  /-- A call that found its reservation copies, and returns. -/
  | copy (physMem : ByteMem) (c : Call)

/-- The bytes written through each id after `c` wrote the pages at `c.phys`. -/
def recordWrite (written : ℕ → ℕ → Option UInt8) (physMem : ByteMem) (c : Call) :
    ℕ → ℕ → Option UInt8 := fun id o =>
  if id = c.id ∧ c.offsetBytes ≤ o ∧ o < c.offsetBytes + c.nPages * pageSize then
    some (physMem (c.phys + (o - c.offsetBytes)))
  else written id o

/-- One step; `none` is a call that never returns. -/
def step (s : State) : Op → Option State
  | .resv rb nPages =>
    match swapResv s.dev rb nPages with
    | none => none
    | some (.error _) => some s
    | some (.ok (d, id)) =>
      -- nothing was written yet through the new reservation
      some { s with
        dev := d
        live := (id, nPages) :: s.live
        written := Function.update s.written id fun _ => none }
  | .free rb id nPages =>
    match swapFree s.dev rb id nPages with
    | .error _ => some s
    | .ok d => some { s with dev := d, live := s.live.eraseP fun e => e.1 = id }
  | .find c =>
    match findPage s.dev c.id with
    | .error _ => some s
    | .ok () => some { s with calls := c :: s.calls }
  | .copy physMem c =>
    if c ∈ s.calls then
      let s := { s with calls := s.calls.erase c }
      if c.write then
        match writeData s.dev physMem c.id c.phys c.nPages c.offsetBytes with
        | .error _ => some s
        | .ok d => some { s with dev := d, written := recordWrite s.written physMem c }
      else some s
    else some s

def start : State := ⟨d, [], [], fun _ _ => none⟩

/-- The memory of a reservation: its header and its pages. -/
def span (e : ℕ × ℕ) : Span := ⟨e.1, swapPageSize + e.2 * pageSize⟩

/-- The memory of the device header. -/
def headerSpan : Span := ⟨d.metadata, swapHeaderSize⟩

/-- Every read in a reservation succeeds and returns the bytes last written. -/
def ReadsBack (s : State) (e : ℕ × ℕ) : Prop :=
  ∀ physMem phys nPages offset, offset + nPages * pageSize ≤ e.2 * pageSize →
    ∃ m, swapRead s.dev physMem e.1 phys nPages offset = .ok m ∧
      ∀ i < nPages * pageSize, ∀ b ∈ s.written e.1 (offset + i), m (phys + i) = b

/-- No reservation overlaps another one, the device header or the header of a
node of the free list, and reads return what was written. -/
structure Safe (s : State) : Prop where
  apart : (headerSpan s.dev :: s.live.map span).Pairwise Span.Apart
  nodes : ∀ e ∈ s.live, ∀ node,
    DLinked.Reach (FreeList.next s.dev.mem) 0 s.dev.hdr.freeList.head node →
    (span e).Apart ⟨node, swapPageSize⟩
  reads : ∀ e ∈ s.live, ReadsBack s e

/-! ### Runs in which the device is sound -/

/-- `cmp` takes `id` for no other member of the tree. -/
def SoundId (id : ℕ) : Prop := ∀ e ∈ d.hdr.pages, cmp id e = 0 → e = id

end

/-- What a step has to meet: a request does not wrap and leaves its node nothing
or room for the node's header; a freed reservation has a null `next` word; a
copy starts while its reservation is still there, and its length does not wrap. -/
def Allowed (s : State) : Op → Prop
  | .resv _ nPages =>
    nPages * pageSize + swapPageSize < 2 ^ 64 ∧
    ∀ page ∈ findFree s.dev (nPages * pageSize + swapPageSize), page = 0 ∨
      size s.dev.mem page = nPages * pageSize + swapPageSize ∨
      nPages * pageSize + swapPageSize + swapPageSize ≤ size s.dev.mem page
  | .free _ id _ => SoundId s.dev id ∧ (id ∈ s.dev.hdr.pages → FreeList.next s.dev.mem id = 0)
  | .find c => SoundId s.dev c.id
  | .copy _ c => c.id ∈ s.dev.hdr.pages ∧ c.nPages * pageSize < 2 ^ 64

instance (s : State) : ∀ o, Decidable (Allowed s o)
  | .resv _ _ => by unfold Allowed; infer_instance
  | .free _ _ _ => by unfold Allowed SoundId; infer_instance
  | .find _ => by unfold Allowed SoundId; infer_instance
  | .copy _ _ => by unfold Allowed; infer_instance

end Obos.Swap
