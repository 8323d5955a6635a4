/-
The four-level page tables of x86_64 under `Arch_MapPage`, `Arch_MapHugePage`
and `Arch_UnmapPage`.

A page table is 512 words at a physical address, `mem f i`.  The allocator is an
argument of each call: the frames it would return, in order.  The model keeps
the list of the tables that were allocated and not yet released, and the
contents of every table at the moment it was released.

* `mapPage`, `mapHugePage`, `unmapPage` — the functions, with
  `allocatePageMapAt` and `freePageMapAt`,
* `walk` — the translation by the hardware, with the rights of all levels,
* `PageMap` — the abstract map that the calls are meant to build.
-/
import Obos.Machine
import Obos.Lib.Radix

namespace Obos.PageTables

abbrev Word := BitVec 64

/-- The words of all tables. -/
abbrev Tables := Word → Fin 512 → Word

def addressToIndex (address : Word) (level : ℕ) : Fin 512 :=
  Fin.ofNat 512 ((address >>> (9 * level + 12)) &&& 0x1FF#64).toNat

def maskPhysicalAddressFromEntry (phys : Word) : Word := phys &&& 0xffffffffff000#64

section

variable (mem : Tables)

section

variable (pml4Base addr : Word)

def getPML4Entry : Word :=
  if pml4Base = 0 then 0
  else mem (maskPhysicalAddressFromEntry pml4Base) (addressToIndex addr 3)

/-- The entry for `addr` in the table that `entry` points to. -/
def getSubEntry (entry addr : Word) (level : ℕ) : Word :=
  let phys := maskPhysicalAddressFromEntry entry
  if phys = 0 then 0 else mem phys (addressToIndex addr level)

def getPML3Entry : Word :=
  getSubEntry mem (getPML4Entry mem pml4Base addr) addr 2

def getPML2Entry : Word :=
  getSubEntry mem (getPML3Entry mem pml4Base addr) addr 1

def getPageMapEntryForDepth : ℕ → Word
  | 1 => getPML2Entry mem pml4Base addr
  | 2 => getPML3Entry mem pml4Base addr
  | 3 => getPML4Entry mem pml4Base addr
  | _ => 0

end

/-! ### Creating and releasing tables -/

structure State where
  mem : Tables
  cr3 : Word
  /-- The tables in use, the root included. -/
  tables : List Word
  /-- The contents of each released table when it was released. -/
  released : List (Fin 512 → Word)

/-- The flags of the entries of upper levels. -/
def tableFlags (cpuFlags : Word) : Word :=
  let cpuFlags := cpuFlags &&& ~~~ 0xfffffffff0000#64
  let cpuFlags := cpuFlags ||| 1#64
  -- the caching flags and the huge-page flag, then the available bits
  let cpuFlags := cpuFlags &&& ~~~ 0x98#64
  cpuFlags &&& ~~~ 0x07F0000000000E00#64

def xdBit : Word := 0x8000000000000000#64

/-- The flags of an existing entry, extended by those of a new page below it. -/
def mergeFlags (entry cpuFlags : Word) : Word :=
  let entry := if entry &&& xdBit ≠ 0 ∧ cpuFlags &&& xdBit = 0 then entry &&& ~~~ xdBit else entry
  let entry := if entry &&& 4#64 = 0 ∧ cpuFlags &&& 4#64 ≠ 0 then entry ||| 4#64 else entry
  if entry &&& 2#64 = 0 ∧ cpuFlags &&& 2#64 ≠ 0 then entry ||| 2#64 else entry

/-- One round of the loop of `Arch_AllocatePageMapAt`, and the frames that the
allocator has left. -/
def allocateLevel (at' cpuFlags : Word) (x : State × List Word) (i : ℕ) : State × List Word :=
  let (s, frames) := x
  let pageMap := if i + 1 = 4 then s.cr3
    else maskPhysicalAddressFromEntry (getPageMapEntryForDepth s.mem s.cr3 at' (i + 1))
  let entry := s.mem pageMap (addressToIndex at' i)
  if entry = 0 then
    let newTable := frames.headD 0
    let mem := Radix.clear s.mem newTable
    ({ s with
        mem := Radix.write mem pageMap (addressToIndex at' i) (newTable ||| cpuFlags)
        tables := newTable :: s.tables }, frames.tail)
  else
    ({ s with
        mem := Radix.write s.mem pageMap (addressToIndex at' i) (mergeFlags entry cpuFlags) }, frames)

/-- `Arch_AllocatePageMapAt` for a depth of 1 to 3: the state and the table. -/
def allocatePageMapAt (s : State) (frames : List Word) (at' cpuFlags : Word) (depth : ℕ) :
    State × Word :=
  let cpuFlags := tableFlags cpuFlags
  let (s, _) := ([3, 2, 1].take depth).foldl (allocateLevel at' cpuFlags) (s, frames)
  (s, maskPhysicalAddressFromEntry (getPageMapEntryForDepth s.mem s.cr3 at' (4 - depth)))

/-- One round of the loop of `Arch_FreePageMapAt`: `memcmp_b` finds the table
empty, or it stays. -/
def freeLevel (at' : Word) (s : State) (i : ℕ) : State :=
  let entry := getPageMapEntryForDepth s.mem s.cr3 at' (i + 1)
  if entry &&& 1#64 = 0 then s
  else
    let pageMap := maskPhysicalAddressFromEntry entry
    let phys := maskPhysicalAddressFromEntry (s.mem pageMap (addressToIndex at' i))
    if ∀ j, s.mem phys j = 0 then
      { s with
        mem := Radix.write s.mem pageMap (addressToIndex at' i) 0
        tables := s.tables.erase phys
        released := s.mem phys :: s.released }
    else s

/-- `Arch_FreePageMapAt` for a depth of 1 to 3. -/
def freePageMapAt (s : State) (at' : Word) (maxDepth : ℕ) : State :=
  (List.range' (4 - maxDepth) maxDepth).foldl (freeLevel at') s

/-! ### Mapping and unmapping -/

def isCanonical (at' : Word) : Bool := at' >>> 47 = 0#64 ∨ at' >>> 47 = 0x1ffff#64

section

variable (nxe : Bool)

/-- The flags of the new entry, where `nxe` is the bit of `IA32_EFER`. -/
def leafFlags (flags : Word) : Word :=
  let flags := flags ||| 1#64
  if nxe then flags else flags &&& ~~~ xdBit

/-- `Arch_MapPage`. -/
def mapPage (s : State) (frames : List Word) (at' phys flags : Word) :
    State × Status :=
  if !isCanonical at' ∨ phys &&& 0xfff#64 ≠ 0 ∨ at' &&& 0xfff#64 ≠ 0 then (s, .invalidArgument)
  else
    let flags := leafFlags nxe flags
    let phys := maskPhysicalAddressFromEntry phys
    let (s, pm) := allocatePageMapAt s frames at' flags 3
    ({ s with mem := Radix.write s.mem pm (addressToIndex at' 0) (phys ||| flags) }, .success)

/-- `Arch_MapHugePage`. -/
def mapHugePage (s : State) (frames : List Word) (at' phys flags : Word) :
    State × Status :=
  if !isCanonical at' ∨ phys &&& 0x1fffff#64 ≠ 0 ∨ at' &&& 0x1fffff#64 ≠ 0 then
    (s, .invalidArgument)
  else
    let flags := leafFlags nxe flags
    let flags := if flags &&& 0x80#64 ≠ 0 then flags ||| 0x1000#64 else flags
    let phys := maskPhysicalAddressFromEntry phys
    let (s, pm) := allocatePageMapAt s frames at' flags 2
    ({ s with mem := Radix.write s.mem pm (addressToIndex at' 1) (phys ||| flags ||| 0x80#64) },
      .success)

/-- `Arch_UnmapPage`. -/
def unmapPage (s : State) (at' : Word) : State × Status :=
  if !isCanonical at' ∨ at' &&& 0xfff#64 ≠ 0 then (s, .invalidArgument)
  else
    let entry := getPML2Entry s.mem s.cr3 at'
    if entry &&& 1#64 = 0 then (s, .success)
    else
      let isHugePage := entry &&& 0x80#64 ≠ 0
      let entry := if isHugePage then getPML3Entry s.mem s.cr3 at' else entry
      if entry &&& 1#64 = 0 then (s, .success)
      else
        let phys := maskPhysicalAddressFromEntry entry
        let level := if isHugePage then 1 else 0
        let s := { s with mem := Radix.write s.mem phys (addressToIndex at' level) 0 }
        (freePageMapAt s at' (3 - level), .success)

/-! ### The translation -/

/-- The rights of a mapping. -/
structure Flags where
  write : Bool
  user : Bool
  noExecute : Bool
  deriving DecidableEq, Repr

def Flags.word (fl : Flags) : Word :=
  (if fl.write then 2#64 else 0) ||| (if fl.user then 4#64 else 0) |||
    (if fl.noExecute then xdBit else 0)

/-- A translation: page size, frame and rights. -/
structure Translation where
  huge : Bool
  phys : Word
  flags : Flags
  deriving DecidableEq, Repr

/-- The rights that a path through `entries` gives: every level has to allow a
write and a user access, and one level forbids execution. -/
def rights (entries : List Word) : Flags where
  write := entries.all fun e => e &&& 2#64 ≠ 0
  user := entries.all fun e => e &&& 4#64 ≠ 0
  noExecute := entries.any fun e => e &&& xdBit ≠ 0

/-- The hardware's walk for an address. -/
def walk (cr3 va : Word) : Option Translation :=
  let e4 := mem cr3 (addressToIndex va 3)
  if e4 &&& 1#64 = 0 then none
  else
    let e3 := mem (maskPhysicalAddressFromEntry e4) (addressToIndex va 2)
    if e3 &&& 1#64 = 0 then none
    else
      let e2 := mem (maskPhysicalAddressFromEntry e3) (addressToIndex va 1)
      if e2 &&& 1#64 = 0 then none
      else if e2 &&& 0x80#64 ≠ 0 then
        some ⟨true, e2 &&& 0xfffffffe00000#64, rights [e4, e3, e2]⟩
      else
        let e1 := mem (maskPhysicalAddressFromEntry e2) (addressToIndex va 0)
        if e1 &&& 1#64 = 0 then none
        else some ⟨false, maskPhysicalAddressFromEntry e1, rights [e4, e3, e2, e1]⟩

/-! ### The abstract map -/

/-- What is mapped at the start of a page. -/
structure Mapping where
  phys : Word
  flags : Flags
  deriving DecidableEq, Repr

/-- The pages that are mapped, by the address they start at. -/
structure PageMap where
  small : Word → Option Mapping
  huge : Word → Option Mapping

def pageBase (va : Word) : Word := va &&& ~~~ 0xfff#64

def hugeBase (va : Word) : Word := va &&& ~~~ 0x1fffff#64

section

variable (m : PageMap)

/-- The translation of an address. -/
def PageMap.lookup (va : Word) : Option Translation :=
  match m.huge (hugeBase va) with
  | some x => some ⟨true, x.phys, x.flags⟩
  | none => (m.small (pageBase va)).map fun x => ⟨false, x.phys, x.flags⟩

/-- Without `nxe` execution cannot be forbidden. -/
def Flags.allowed (fl : Flags) : Flags := { fl with noExecute := fl.noExecute && nxe }

/-- The map with the page of 4 KiB at `va` mapped to `x`, or unmapped. -/
def PageMap.setSmall (va : Word) (x : Option Mapping) : PageMap :=
  { m with small := Function.update m.small va x }

def PageMap.setHuge (va : Word) (x : Option Mapping) : PageMap :=
  { m with huge := Function.update m.huge va x }

def PageMap.map (at' phys : Word) (fl : Flags) : PageMap :=
  m.setSmall at' (some ⟨phys, fl.allowed nxe⟩)

def PageMap.mapHuge (at' phys : Word) (fl : Flags) : PageMap :=
  m.setHuge at' (some ⟨phys, fl.allowed nxe⟩)

/-- The page that contains the address is unmapped. -/
def PageMap.unmap (at' : Word) : PageMap :=
  match m.huge (hugeBase at') with
  | some _ => m.setHuge (hugeBase at') none
  | none => m.setSmall at' none

end

def PageMap.empty : PageMap := ⟨fun _ => none, fun _ => none⟩

/-! ### Runs -/

inductive Op where
  | map (frames : List Word) (at' phys : Word) (fl : Flags)
  | mapHuge (frames : List Word) (at' phys : Word) (fl : Flags)
  | unmap (at' : Word)

/-- The tables, and the abstract map built by the same calls. -/
structure System where
  tables : State
  map : PageMap

/-- A physical address of a page of `2 ^ 12` bytes. -/
def IsFrame (f : Word) : Prop := f &&& 0xffffffffff000#64 = f

instance (f : Word) : Decidable (IsFrame f) := decEq (f &&& 0xffffffffff000#64) f

/-- The allocator returns frames that are not in use as tables. -/
def FreshFrames (s : State) (frames : List Word) : Prop :=
  frames.length = 3 ∧ frames.Nodup ∧ ∀ f ∈ frames, IsFrame f ∧ f ≠ 0 ∧ f ∉ s.tables

/-- The calls the property is about: canonical and aligned addresses, a physical
address of the machine, fresh frames, and no page over one of the other size. -/
def Valid (x : System) : Op → Prop
  | .map frames at' phys _ =>
    isCanonical at' ∧ at' &&& 0xfff#64 = 0 ∧ IsFrame phys ∧ FreshFrames x.tables frames ∧
    x.map.huge (hugeBase at') = none
  | .mapHuge frames at' phys _ =>
    isCanonical at' ∧ at' &&& 0x1fffff#64 = 0 ∧ phys &&& 0xfffffffe00000#64 = phys ∧
    FreshFrames x.tables frames ∧
    ∀ i : Fin 512, x.map.small (at' + BitVec.ofNat 64 (i.val * pageSize)) = none
  | .unmap at' => isCanonical at' ∧ at' &&& 0xfff#64 = 0

def step (x : System) : Op → Option System
  | .map frames at' phys fl =>
    some ⟨(mapPage nxe x.tables frames at' phys fl.word).1, x.map.map nxe at' phys fl⟩
  | .mapHuge frames at' phys fl =>
    some ⟨(mapHugePage nxe x.tables frames at' phys fl.word).1, x.map.mapHuge nxe at' phys fl⟩
  | .unmap at' => some ⟨(unmapPage x.tables at').1, x.map.unmap at'⟩

end

/-- The zeroed root table at `cr3`, and the empty map. -/
def start (cr3 : Word) : System := ⟨⟨mem, cr3, [cr3], []⟩, PageMap.empty⟩

end

/-- The address lies in the page that the call maps or unmaps. -/
def Touches (x : System) : Op → Word → Prop
  | .map _ at' _ _, va => pageBase va = at'
  | .mapHuge _ at' _ _, va => hugeBase va = at'
  | .unmap at', va =>
    if (x.map.huge (hugeBase at')).isSome then hugeBase va = hugeBase at' else pageBase va = at'

instance (s : State) (frames : List Word) : Decidable (FreshFrames s frames) :=
  -- by the list of frames, not by all words
  have : Decidable (∀ f ∈ frames, IsFrame f ∧ f ≠ 0 ∧ f ∉ s.tables) := List.decidableBAll _ _
  instDecidableAnd

instance (x : System) : ∀ op, Decidable (Valid x op)
  | .map _ _ _ _ => by unfold Valid; infer_instance
  | .mapHuge _ _ _ _ => by unfold Valid; infer_instance
  | .unmap _ => by unfold Valid; infer_instance

end Obos.PageTables
