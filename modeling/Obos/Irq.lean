/-
Interrupt objects and vectors (`irq/irq.c`) of the x86-64 build.

Each of the 224 vectors has a list of the objects that are registered on it.  The
nodes of the lists come from the kernel allocator with whatever their memory held;
node `n` is the `n`-th allocation, and the fields of nodes from `fresh` on are
those bytes.  Pointers to nodes and objects are numbers, `0` is the null pointer.
A write through a null pointer, a walk longer than its `fuel` and the endless
search for a vector have no result.

`register_irq_vector` sets the vector of the object first and refuses later.

* `registration_error_iff` — a call that returns an error has no effect exactly when
  it was refused before that: the interface was not initialized, an argument was
  invalid, or the object had a vector,
* `failed_object_frees_other` — freeing an object whose registration has failed takes
  another object off its vector.
-/
import Obos.KernelList

namespace Obos.Irqs

open Function
open KernelList (setAt)

/-! ### Vectors, objects and nodes -/

/-- `OBOS_IRQ_VECTOR_ID_MAX`. -/
def vectorIdMax : ℕ := 224

/-- `OBOS_IRQ_VECTOR_ID_COUNT_PER_IRQL`. -/
def vectorsPerIrql : ℕ := 16

/-- `IRQL_MASKED`. -/
def irqlMasked : ℕ := 15

/-- `OBOS_IRQ_VECTOR_ID_TO_IRQL`. -/
def vectorIdToIrql (id : ℕ) : ℕ := id / 16 + 2

/-- `OBOS_IRQL_TO_IRQ_VECTOR_ID`. -/
def irqlToVectorId (irql : ℕ) : ℕ := (irql * 16 + (256 - 0x20)) % 256

/-- `irq_vector`, with the fields of its list. -/
structure Vector where
  head : ℕ
  tail : ℕ
  nNodes : ℕ
  irqObjectsCapacity : ℕ
  allowWorkSharing : Bool
  nIRQsWithChosenID : ℕ
  deriving DecidableEq, Repr

/-- `irq`, without its callbacks. -/
structure Irq where
  vector : Option ℕ
  choseVector : Bool
  deriving DecidableEq, Repr

/-- `registered` is history: the objects that a call has registered successfully, and
that were not freed since. -/
structure State where
  irqInterfaceInitialized : Bool
  vec : ℕ → Vector
  irq : ℕ → Irq
  next : ℕ → ℕ
  prev : ℕ → ℕ
  data : ℕ → ℕ
  fresh : ℕ
  /-- Vectors with a handler in `Arch_IRQHandlers`. -/
  installed : ℕ → Bool
  registered : ℕ → Bool

namespace State

def setVec (s : State) (v : ℕ) (x : Vector) : State := { s with vec := update s.vec v x }

def setIrq (s : State) (o : ℕ) (x : Irq) : State := { s with irq := update s.irq o x }

def setSharing (s : State) (v : ℕ) (allow : Bool) : State :=
  s.setVec v { s.vec v with allowWorkSharing := allow }

def setVector (s : State) (o v : ℕ) : State := s.setIrq o { s.irq o with vector := some v }

end State

section

variable (s : State)

/-- `append_irq_to_vector`.  The new node keeps the `next` that its memory held. -/
def appendIrqToVector (v what : ℕ) : State :=
  let n := s.fresh
  let x := s.vec v
  { s with
    fresh := n + 1
    data := update s.data n what
    next := setAt s.next x.tail n
    prev := update s.prev n x.tail
    vec := update s.vec v { x with
      head := if x.head = 0 then n else x.head, tail := n, nNodes := x.nNodes + 1 } }

/-- `remove_irq_from_vector`. -/
def removeIrqFromVector (v n : ℕ) : State :=
  let x := s.vec v
  let prev := setAt s.prev (s.next n) (s.prev n)
  let next := setAt s.next (prev n) (s.next n)
  { s with
    prev := prev
    next := next
    vec := update s.vec v { x with
      head := if x.head = n then next n else x.head
      tail := if x.tail = n then prev n else x.tail
      nNodes := decrement x.nNodes } }

/-- `CoreS_RegisterIRQHandler` with the dispatcher or with a null pointer. -/
def registerIRQHandler (id : ℕ) (handler : Bool) : State × Status :=
  if s.installed id ∧ handler then (s, .inUse)
  else ({ s with installed := update s.installed id handler }, .success)

/-- `register_irq_vector_handler`. -/
def registerIrqVectorHandler (id : ℕ) : State × Status :=
  let r := if s.installed id then registerIRQHandler s id false else (s, .success)
  if r.2 = .success then registerIRQHandler r.1 id true else r

/-! ### Registration -/

/-- The vectors of one IRQL. -/
def irqlVectors (base : ℕ) : List ℕ := (List.range vectorsPerIrql).map (base + ·)

/-- The vector that a forced registration moves a single object to. -/
def findEmpty (base : ℕ) : Option ℕ :=
  (irqlVectors base).find? fun vec => (s.vec vec).nNodes == 0

/-- The test of the two searches for a vector with room.  `shouldIgnoreObjectCapacity`
is never set. -/
def hasRoom (allow : Bool) (x : Vector) : Bool :=
  decide (x.nNodes < x.irqObjectsCapacity) &&
    (x.nIRQsWithChosenID == 0 || (x.allowWorkSharing && allow))

/-- The search of `Core_IrqObjectInitializeIRQL`, and of a forced registration, which
passes over its own vector. -/
def findVector (base : ℕ) (allow : Bool) (own : Option ℕ) : Option ℕ :=
  (irqlVectors base).find? fun vec => own != some vec && hasRoom allow (s.vec vec)

/-- The ways `register_irq_vector` can go. -/
inductive Plan where
  /-- The object joins the vector. -/
  | join
  /-- `OBOS_STATUS_IN_USE`. -/
  | refuse
  /-- The one object on the vector is moved to the empty vector `dst`. -/
  | swap (dst : ℕ)
  /-- All objects on the vector are moved to the vector `dst`. -/
  | move (dst : ℕ)
  /-- A null pointer is read, or the search for a vector does not end. -/
  | hang
  deriving DecidableEq, Repr

/-- Which way `register_irq_vector` goes. -/
def plan (id : ℕ) (allow force : Bool) : Plan :=
  let vector := s.vec id
  let base := irqlToVectorId (vectorIdToIrql id)
  if (allow && vector.allowWorkSharing) || vector.nNodes == 0 then .join
  else if !force then .refuse
  else if allow && !vector.allowWorkSharing then
    if vector.head = 0 then .hang
    else if (s.irq (s.data vector.head)).choseVector then .refuse
    else match findEmpty s base with
      | none => .refuse
      | some found => .swap found
  else if vector.nIRQsWithChosenID ≠ 0 then .refuse
  else match findVector s base allow (some id) with
    -- back to the label `find`, for ever
    | none => .hang
    | some found => .move found

/-- The loop that moves the objects from `node` on to the vector `dst`. -/
def moveFrom (id dst : ℕ) : ℕ → ℕ → State → Option State
  | 0, _, _ => none
  | fuel + 1, node, s =>
    if node = 0 then some s
    else
      let cur := s.data node
      let s' := removeIrqFromVector s id node
      let s' := appendIrqToVector s' dst cur
      moveFrom id dst fuel (s.next node) (s'.setVector cur dst)

/-- Install the dispatcher on both vectors. -/
def registerBoth (id dst : ℕ) : State × Status :=
  let r := registerIrqVectorHandler s id
  if r.2 = .success then registerIrqVectorHandler r.1 dst else r

/-- `register_irq_vector`. -/
def registerIrqVector (fuel : ℕ) (s : State) (obj id : ℕ) (allow force : Bool) :
    Option (State × Status) :=
  let s := s.setVector obj id
  match plan s id allow force with
  | .join =>
    let s := (appendIrqToVector s id obj).setSharing id allow
    some (registerIrqVectorHandler s id)
  | .refuse => some (s, .inUse)
  | .swap dst =>
    let cur := s.data (s.vec id).head
    let s := removeIrqFromVector s id (s.vec id).head
    let s := appendIrqToVector s dst cur
    let s := appendIrqToVector s id obj
    let s := s.setVector cur dst
    let s := s.setSharing dst (s.vec id).allowWorkSharing
    let s := s.setSharing id allow
    some (registerBoth s id dst)
  | .move dst =>
    (moveFrom id dst fuel (s.vec id).head s).map fun s =>
      let s := s.setSharing dst (s.vec id).allowWorkSharing
      let s := s.setSharing id false
      registerBoth (appendIrqToVector s id obj) id dst
  | .hang => none

/-- Note the objects that were registered successfully. -/
def noteRegistered (obj : ℕ) (r : State × Status) : State × Status :=
  if r.2 = .success then ({ r.1 with registered := update r.1.registered obj true }, r.2)
  else r

/-- `Core_IrqObjectInitializeIRQL`. -/
def irqObjectInitializeIRQL (fuel : ℕ) (s : State) (obj requiredIrql : ℕ) (allow force : Bool) :
    Option (State × Status) :=
  if !s.irqInterfaceInitialized then some (s, .invalidInitPhase)
  else if obj = 0 ∨ irqlMasked < requiredIrql ∨ requiredIrql = 0 ∨ requiredIrql = 1 then
    some (s, .invalidArgument)
  else if (s.irq obj).vector.isSome then some (s, .alreadyInitialized)
  else
    match findVector s (irqlToVectorId requiredIrql) allow none with
    | none => none
    | some found =>
      let s := s.setIrq obj { s.irq obj with choseVector := false }
      (registerIrqVector fuel s obj found allow force).map (noteRegistered obj)

/-- `obj->vector->nIRQsWithChosenID++`. -/
def countChosen (obj : ℕ) : State :=
  match (s.irq obj).vector with
  | none => s
  | some v => s.setVec v { s.vec v with nIRQsWithChosenID := (s.vec v).nIRQsWithChosenID + 1 }

/-- `Core_IrqObjectInitializeVector`. -/
def irqObjectInitializeVector (fuel : ℕ) (s : State) (obj vector : ℕ) (allow force : Bool) :
    Option (State × Status) :=
  if !s.irqInterfaceInitialized then some (s, .invalidInitPhase)
  else if obj = 0 ∨ vectorIdMax ≤ vector then some (s, .invalidArgument)
  else if (s.irq obj).vector.isSome then some (s, .alreadyInitialized)
  else
    let s := s.setIrq obj { s.irq obj with choseVector := true }
    (registerIrqVector fuel s obj vector allow force).map fun r =>
      noteRegistered obj (countChosen r.1 obj, r.2)

/-! ### Freeing an object -/

/-- The node that `Core_IrqObjectFree` takes off the vector `v`. -/
def findNode (fuel : ℕ) (s : State) (obj v : ℕ) : Option ℕ :=
  if (s.vec v).allowWorkSharing then
    DLinked.walk s.next 0 (fun n => s.data n == obj) fuel (s.vec v).head
  else some (s.vec v).head

/-- What `Core_IrqObjectFree` does to the vector of the object. -/
def leaveVector (obj v n : ℕ) : State :=
  let s := removeIrqFromVector s v n
  let x := s.vec v
  let x := if x.nNodes = 0 then { x with allowWorkSharing := true, irqObjectsCapacity := 16 }
    else x
  s.setVec v { x with
    nIRQsWithChosenID := if (s.irq obj).choseVector then decrement x.nIRQsWithChosenID
      else x.nIRQsWithChosenID }

/-- The memory of the object is given back; an object that is allocated there later is
cleared. -/
def forget (obj : ℕ) : State :=
  { s.setIrq obj ⟨none, false⟩ with registered := update s.registered obj false }

/-- `Core_IrqObjectFree`. -/
def irqObjectFree (fuel : ℕ) (s : State) (obj : ℕ) : Option (State × Status) :=
  if !s.irqInterfaceInitialized then some (s, .invalidInitPhase)
  else if obj = 0 then some (s, .invalidArgument)
  else
    match (s.irq obj).vector with
    | none => some (forget s obj, .success)
    | some v =>
      (findNode fuel s obj v).bind fun n =>
        if n = 0 then none else some (forget (leaveVector s obj v n) obj, .success)

/-! ### Failed registrations -/

/-- A call of one of the two functions that register an object. -/
inductive Request where
  | irql (requiredIrql : ℕ)
  | vector (id : ℕ)
  deriving DecidableEq, Repr

def register (fuel : ℕ) (s : State) (obj : ℕ) (allow force : Bool) :
    Request → Option (State × Status)
  | .irql requiredIrql => irqObjectInitializeIRQL fuel s obj requiredIrql allow force
  | .vector id => irqObjectInitializeVector fuel s obj id allow force

/-- The arguments are refused. -/
def Request.Invalid (obj : ℕ) : Request → Prop
  | .irql requiredIrql =>
    obj = 0 ∨ irqlMasked < requiredIrql ∨ requiredIrql = 0 ∨ requiredIrql = 1
  | .vector id => obj = 0 ∨ vectorIdMax ≤ id

/-- The vector that the request is for. -/
def target (s : State) (allow : Bool) : Request → Option ℕ
  | .irql requiredIrql => findVector s (irqlToVectorId requiredIrql) allow none
  | .vector id => some id

def Request.chose : Request → Bool
  | .irql _ => false
  | .vector _ => true

/-- The vectors and their lists are the same. -/
structure SameVectors (s s' : State) : Prop where
  vec : s'.vec = s.vec
  next : s'.next = s.next
  prev : s'.prev = s.prev
  data : s'.data = s.data

/-- What a failed registration shall leave behind. -/
structure NoEffect (fuel : ℕ) (s s' : State) (obj : ℕ) : Prop where
  uninitialized : (s.irq obj).vector = none → (s'.irq obj).vector = none
  freeable : (s.irq obj).vector = none → ∀ r ∈ irqObjectFree fuel s' obj, SameVectors s' r.1
  vectors : SameVectors s s'

theorem SameVectors.refl : SameVectors s s := ⟨rfl, rfl, rfl, rfl⟩

end

variable {s s' : State} {obj fuel : ℕ} {allow force : Bool} {st : Status}

theorem NoEffect.refl (fuel : ℕ) (s : State) (obj : ℕ) : NoEffect fuel s s obj := by
  refine ⟨id, fun hnone r hr => ?_, .refl s⟩
  rw [irqObjectFree, hnone] at hr
  simp only [Option.mem_def] at hr
  split at hr
  · cases hr
    exact .refl s
  split at hr
  · cases hr
    exact .refl s
  · cases hr
    exact ⟨rfl, rfl, rfl, rfl⟩

theorem State.setVector_vector (s : State) (o v : ℕ) :
    ((s.setVector o v).irq o).vector = some v := by
  simp [State.setVector, State.setIrq]

theorem registerIrqVectorHandler_eq (s : State) (id : ℕ) :
    registerIrqVectorHandler s id =
      ({ s with installed := update s.installed id true }, .success) := by
  rw [registerIrqVectorHandler]
  by_cases h : s.installed id
  · simp [h, registerIRQHandler]
  · simp [h, registerIRQHandler]

theorem registerBoth_eq (s : State) (id dst : ℕ) :
    registerBoth s id dst =
      ({ s with installed := update (update s.installed id true) dst true },
        .success) := by
  simp [registerBoth, registerIrqVectorHandler_eq]

/-- `register_irq_vector` fails only by refusing, when it has set the vector of the
object. -/
theorem registerIrqVector_error {id : ℕ}
    (h : registerIrqVector fuel s obj id allow force = some (s', st)) (hst : st ≠ .success) :
    s' = s.setVector obj id := by
  rw [registerIrqVector] at h
  simp only at h
  split at h
  · rw [registerIrqVectorHandler_eq] at h
    exact absurd (Prod.mk.inj (Option.some.inj h)).2.symm hst
  · exact (Prod.mk.inj (Option.some.inj h)).1.symm
  · rw [registerBoth_eq] at h
    exact absurd (Prod.mk.inj (Option.some.inj h)).2.symm hst
  · obtain ⟨t, -, ht⟩ := Option.map_eq_some_iff.mp h
    rw [registerBoth_eq] at ht
    exact absurd (Prod.mk.inj ht).2.symm hst
  · cases h

theorem noteRegistered_error {r : State × Status} (h : noteRegistered obj r = (s', st))
    (hst : st ≠ .success) : r = (s', st) := by
  rw [noteRegistered] at h
  split at h
  · next hs => exact absurd ((Prod.mk.inj h).2.symm.trans hs) hst
  · exact h

/-- A registration is refused at once, or it comes to `register_irq_vector`. -/
theorem register_cases {req : Request}
    (h : register fuel s obj allow force req = some (s', st)) {refused : Prop}
    (hrefused : refused = (s.irqInterfaceInitialized = false ∨ req.Invalid obj ∨
      (s.irq obj).vector.isSome = true)) :
    (refused ∧ s' = s) ∨ ¬ refused ∧ ∃ id ∈ target s allow req, ∃ r,
      registerIrqVector fuel (s.setIrq obj { s.irq obj with choseVector := req.chose }) obj id
        allow force = some r ∧
      noteRegistered obj (if req.chose then countChosen r.1 obj else r.1, r.2) = (s', st) := by
  subst hrefused
  have hearly : ∀ st', some (s, st') = some (s', st) → s' = s :=
    fun _ heq => (Prod.mk.inj (Option.some.inj heq)).1.symm
  cases req with
  | irql requiredIrql =>
    rw [register, irqObjectInitializeIRQL] at h
    split_ifs at h with h0 h1 h2
    · exact .inl ⟨.inl (by simpa using h0), hearly _ h⟩
    · exact .inl ⟨.inr (.inl h1), hearly _ h⟩
    · exact .inl ⟨.inr (.inr h2), hearly _ h⟩
    · split at h
      · cases h
      next id hid =>
      obtain ⟨r, hr, hnote⟩ := Option.map_eq_some_iff.mp h
      exact .inr ⟨by simp_all [Request.Invalid], id, hid, r, hr, hnote⟩
  | vector id =>
    rw [register, irqObjectInitializeVector] at h
    split_ifs at h with h0 h1 h2
    · exact .inl ⟨.inl (by simpa using h0), hearly _ h⟩
    · exact .inl ⟨.inr (.inl h1), hearly _ h⟩
    · exact .inl ⟨.inr (.inr h2), hearly _ h⟩
    · obtain ⟨r, hr, hnote⟩ := Option.map_eq_some_iff.mp h
      exact .inr ⟨by simp_all [Request.Invalid], id, rfl, r, hr, hnote⟩

/-- For every state and every call that returns an error, the call has no effect exactly
when it was refused before the object got a vector. -/
theorem registration_error_iff {req : Request}
    (h : register fuel s obj allow force req = some (s', st)) (hst : st ≠ .success) :
    NoEffect fuel s s' obj ↔
      s.irqInterfaceInitialized = false ∨ req.Invalid obj ∨ (s.irq obj).vector.isSome = true := by
  obtain ⟨hr, rfl⟩ | ⟨hr, id, -, ⟨s₁, st₁⟩, hreg, hnote⟩ := register_cases h rfl
  · exact iff_of_true (.refl fuel s' obj) hr
  · refine iff_of_false (fun hno => ?_) hr
    obtain ⟨rfl, rfl⟩ := Prod.mk.inj (noteRegistered_error hnote hst)
    have hs₁ := registerIrqVector_error hreg hst
    have hv : (s₁.irq obj).vector = some id := by
      rw [hs₁, State.setVector_vector]
    have hnone : (s.irq obj).vector = none := by simpa using fun h2 => hr (.inr (.inr h2))
    have hlate := hno.uninitialized hnone
    -- the object has the vector, counted or not
    rw [countChosen, hv] at hlate
    split at hlate
    · exact absurd (hv.symm.trans hlate) (by simp)
    · exact absurd (hv.symm.trans hlate) (by simp)

/-! ### A fresh interface -/

/-- The state behind `Core_InitializeIRQInterface`, with the bytes `garbage` in the memory
of the nodes. -/
def newInterface (garbage : ℕ → ℕ) : State where
  irqInterfaceInitialized := true
  vec _ := ⟨0, 0, 0, 16, true, 0⟩
  irq _ := ⟨none, false⟩
  next := garbage
  prev := garbage
  data := garbage
  fresh := 1
  installed _ := false
  registered _ := false

/-- A call on an object with a vector is refused and leaves everything as it was. -/
theorem registration_error_iff_twice :
    ∃ s s', irqObjectInitializeVector 4 (newInterface fun _ => 0) 1 0 false false =
        some (s, .success) ∧
      register 4 s 1 false false (.irql 5) = some (s', .alreadyInitialized) ∧
      (NoEffect 4 s s' 1 ↔ s.irqInterfaceInitialized = false ∨ (Request.irql 5).Invalid 1 ∨
        (s.irq 1).vector.isSome = true) ∧ (s.irq 1).vector.isSome = true := by
  have hfirst : ((irqObjectInitializeVector 4 (newInterface fun _ => 0) 1 0 false false).map
      fun r => (r.2, r.1.irqInterfaceInitialized, (r.1.irq 1).vector)) =
        some (.success, true, some 0) := by
    decide +kernel
  obtain ⟨⟨s, st⟩, hs, heq⟩ := Option.map_eq_some_iff.mp hfirst
  simp only [Prod.mk.injEq] at heq
  obtain ⟨rfl, hinit, hvec⟩ := heq
  have hsecond : register 4 s 1 false false (.irql 5) = some (s, .alreadyInitialized) := by
    simp [register, irqObjectInitializeIRQL, hinit, hvec, irqlMasked]
  exact ⟨s, s, hs, hsecond, registration_error_iff hsecond (by decide), by simp [hvec]⟩

/-- Object 1 is alone on vector 0.  The registration of object 2 there fails, counts it,
and leaves it with the vector; freeing object 2 takes object 1 off the vector. -/
theorem failed_object_frees_other :
    ∃ s s' s'', irqObjectInitializeVector 4 (newInterface fun _ => 0) 1 0 false false =
        some (s, .success) ∧
      register 4 s 2 false false (.vector 0) = some (s', .inUse) ∧
      (s'.vec 0).nIRQsWithChosenID = 2 ∧ (s'.irq 2).vector = some 0 ∧
      irqObjectFree 4 s' 2 = some (s'', .success) ∧
      s'.data (s'.vec 0).head = 1 ∧ (s''.vec 0).head = 0 ∧ ¬ NoEffect 4 s s' 2 := by
  have hrun : ((irqObjectInitializeVector 4 (newInterface fun _ => 0) 1 0 false false).bind
      fun r => (register 4 r.1 2 false false (.vector 0)).bind
      fun r' => (irqObjectFree 4 r'.1 2).map
      fun r'' => ((r.2, r'.2, r''.2), (r'.1.vec 0).nIRQsWithChosenID, (r.1.irq 2).vector,
        (r'.1.irq 2).vector, r'.1.data (r'.1.vec 0).head, (r''.1.vec 0).head)) =
      some ((.success, .inUse, .success), 2, none, some 0, 1, 0) := by
    decide +kernel
  obtain ⟨⟨s, st⟩, hs, hrest⟩ := Option.bind_eq_some_iff.mp hrun
  obtain ⟨⟨s', st'⟩, hs', hrest⟩ := Option.bind_eq_some_iff.mp hrest
  obtain ⟨⟨s'', st''⟩, hs'', heq⟩ := Option.map_eq_some_iff.mp hrest
  simp only [Prod.mk.injEq] at heq
  obtain ⟨⟨rfl, rfl, rfl⟩, hchosen, hbefore, hafter, hdata, hhead⟩ := heq
  refine ⟨s, s', s'', hs, hs', hchosen, hafter, hs'', hdata, hhead, fun hno => ?_⟩
  rw [hno.uninitialized hbefore] at hafter
  cases hafter

end Obos.Irqs
