/-
Threads and processors (`scheduler/thread.c`, `scheduler/schedule.c`).

Every processor has one list of ready threads for each priority.  A thread is on
such a list through its `snode`; the lists are doubly linked through the `next`
and `prev` of the nodes.  Pointers to nodes and threads are numbers, `0` is the
null pointer.  A dereferenced null pointer, a panic or a walk that is longer
than its `fuel` has no result.

A boost (`CoreH_ThreadBoostPriority`, or the starvation prevention of
`Core_Schedule`) raises the priority by one and sets
`THREAD_FLAGS_PRIORITY_RAISED`; the next `Core_Schedule` takes both back.
`CoreH_ThreadBlock` only clears the flag.

* `basePriority_run` — in every run in which no thread is blocked while its flag
  is set, no thread's priority without its boost changes,
* `boosted_block_keeps_boost` — a boost followed by a block raises it for good.
-/
import Obos.Machine
import Obos.Lib.Run
import Obos.Lib.ListFamily

namespace Obos.Sched

open Function

/-! ### Threads, nodes and lists -/

inductive ThreadStatus where
  | ready
  | running
  | blocked
  deriving DecidableEq, Repr

/-- `THREAD_PRIORITY_MAX_VALUE`; the priorities are 0 (idle) to 4 (urgent). -/
def maxPriority : ℕ := 4

/-- `Core_ThreadPriorityToQuantum`. -/
def priorityToQuantum (priority : ℕ) : ℕ := [2, 4, 8, 12, 12].getD priority 0

structure Thread where
  status : ThreadStatus
  priority : ℕ
  /-- `THREAD_FLAGS_PRIORITY_RAISED` is set. -/
  raised : Bool
  /-- `THREAD_FLAGS_DIED` is set. -/
  died : Bool
  quantum : ℕ
  /-- One bit for each processor. -/
  affinity : ℕ
  masterCPU : Option ℕ
  snode : ℕ
  deriving DecidableEq, Repr

structure Node where
  next : ℕ
  prev : ℕ
  data : ℕ
  deriving DecidableEq, Repr

/-- `thread_priority_list`. -/
structure PriorityList where
  head : ℕ
  tail : ℕ
  nNodes : ℕ
  noStarvationQuantum : ℕ
  quantum : ℕ
  deriving DecidableEq, Repr

/-- `cpu_local`. -/
structure Cpu where
  currentThread : ℕ
  idleThread : ℕ
  priorityLists : ℕ → PriorityList
  /-- The priority of `currentPriorityList`, unless that is null. -/
  currentPriorityList : Option ℕ

structure State where
  cpuCount : ℕ
  cpu : ℕ → Cpu
  node : ℕ → Node
  thread : ℕ → Thread
  readyThreadCount : ℕ

namespace State

variable (s : State)

/-- `Core_CpuInfo[c].priorityLists[p]`. -/
def list (c p : ℕ) : PriorityList := (s.cpu c).priorityLists p

def setCpu (c : ℕ) (x : Cpu) : State := { s with cpu := update s.cpu c x }

def setList (c p : ℕ) (l : PriorityList) : State :=
  s.setCpu c { s.cpu c with priorityLists := update (s.cpu c).priorityLists p l }

def setNode (n : ℕ) (x : Node) : State := { s with node := update s.node n x }

def setThread (t : ℕ) (x : Thread) : State :=
  { s with thread := update s.thread t x }

/-- `if (n) n->next = v;` -/
def setNext (n v : ℕ) : State :=
  if n = 0 then s else s.setNode n { s.node n with next := v }

/-- `if (n) n->prev = v;` -/
def setPrev (n v : ℕ) : State :=
  if n = 0 then s else s.setNode n { s.node n with prev := v }

end State

section

variable (s : State)

/-- `CoreH_ThreadListAppend` on the list of processor `c` and priority `p`.  There
is no list for an invalid priority.  The node keeps its `next`. -/
def listAppend (c p n : ℕ) : State × Status :=
  if maxPriority < p ∨ n = 0 ∨ (s.node n).data = 0 then (s, .invalidArgument)
  else
    let l := s.list c p
    let s := (s.setNext l.tail n).setPrev n l.tail
    (s.setList c p { l with
      head := if l.head = 0 then n else l.head, tail := n, nNodes := l.nNodes + 1 }, .success)

/-- `CoreH_ThreadListRemove`. -/
def listRemove (c p n : ℕ) : State × Status :=
  if maxPriority < p ∨ n = 0 ∨ (s.node n).data = 0 then (s, .invalidArgument)
  else
    let l := s.list c p
    let x := s.node n
    let s := (s.setPrev x.next x.prev).setNext x.prev x.next
    let s := s.setList c p { l with
      head := if l.head = n then x.next else l.head
      tail := if l.tail = n then x.prev else l.tail
      nNodes := decrement l.nNodes }
    ((s.setNext n 0).setPrev n 0, .success)

/-- Take a node from one list of processor `c` to another. -/
def moveNode (c p p' n : ℕ) : State := (listAppend (listRemove s c p n).1 c p' n).1

/-! ### Readying, blocking and boosting a thread -/

section

variable (x : Thread)

/-- One turn of the search of `CoreH_ThreadReadyNode`. -/
def lessLoaded (cpuFound : Option ℕ) (c : ℕ) : Option ℕ :=
  if !x.affinity.testBit c then cpuFound
  else match cpuFound with
    | none => some c
    | some f =>
      if (s.list c x.priority).nNodes < (s.list f x.priority).nNodes then some c else some f

/-- The processor, among those the thread may run on, with the fewest threads of
its priority. -/
def leastLoaded : Option ℕ :=
  (List.range s.cpuCount).foldl (lessLoaded s x) none

/-- What `CoreH_ThreadReadyNode` leaves of a thread it has put on a list. -/
def Thread.readied (cpu n : ℕ) : Thread :=
  { x with snode := n, masterCPU := some cpu, status := .ready }

/-- `CoreH_ThreadReadyNode`. -/
def threadReadyNode (t n : ℕ) : State × Status :=
  let x := s.thread t
  if t = 0 ∨ n = 0 then (s, .invalidArgument)
  else if maxPriority < x.priority then (s, .invalidArgument)
  else if x.masterCPU.isSome then (s, .success)
  else match leastLoaded s x with
    | none => (s, .invalidAffinity)
    | some c =>
      let s := s.setNode n { s.node n with data := t }
      let s := s.setThread t (x.readied c n)
      listAppend { s with readyThreadCount := s.readyThreadCount + 1 } c x.priority n

/-- What `CoreH_ThreadBlock` leaves of a thread it has taken off its list. -/
def Thread.blocked : Thread :=
  { x with raised := false, status := .blocked, quantum := 0, masterCPU := none }

/-- `CoreH_ThreadBlock` up to its `Core_Yield`. -/
def unready (t : ℕ) : State × Status :=
  let x := s.thread t
  if t = 0 then (s, .invalidArgument)
  else match x.masterCPU with
    | none => (s, .invalidArgument)
    | some c =>
      if maxPriority < x.priority then (s, .invalidArgument)
      else if x.status = .blocked then (s, .success)
      else
        let s := (listRemove s c x.priority x.snode).1.setThread t x.blocked
        ({ s with readyThreadCount := decrement s.readyThreadCount }, .success)

/-- The effect of a boost on the thread itself. -/
def Thread.boosted : Thread := { x with raised := true, priority := x.priority + 1 }

/-- `CoreH_ThreadBoostPriority`. -/
def threadBoostPriority (t : ℕ) : State × Status :=
  let x := s.thread t
  if t = 0 ∨ maxPriority < x.priority ∨ x.died then (s, .invalidArgument)
  else if x.masterCPU.isNone ∧ x.status ≠ .blocked then (s, .invalidArgument)
  else if x.raised ∨ x.priority = maxPriority then (s, .success)
  else
    match x.masterCPU with
    | none => (s.setThread t x.boosted, .success)
    | some c =>
      ((moveNode s c x.priority (x.priority + 1) x.snode).setThread t x.boosted, .success)

/-! ### `Core_Schedule` -/

/-- The effect of the end of a boost on the thread itself. -/
def Thread.demoted : Thread := { x with raised := false, priority := x.priority - 1 }

def Thread.resetQuantum : Thread := { x with quantum := 0 }

/-- `Core_Schedule` on processor `c` takes back the boost of its thread `t`. -/
def demote (c t : ℕ) : State :=
  let x := s.thread t
  if !x.raised then s
  else (moveNode s c x.priority (x.priority - 1) x.snode).setThread t x.demoted

/-- The first lines of `Core_Schedule`, about the current thread. -/
def demoteCurrent (c : ℕ) : State :=
  let t := (s.cpu c).currentThread
  if t = 0 then s else demote (s.setThread t (s.thread t).resetQuantum) c t

/-- The loop of `ThreadStarvationPrevention`.  Its counter `i` stays 0. -/
def starvationLoop (c p : ℕ) : ℕ → ℕ → State → Option State
  | 0, _, _ => none
  | fuel + 1, thrN, s =>
    if thrN = 0 ∨ (s.list c p).nNodes / 4 = 0 then some s
    else
      let t := (s.node thrN).data
      let prev := (s.node thrN).prev
      if t = (s.cpu c).idleThread then starvationLoop c p fuel prev s
      else if t = 0 then none
      else if (s.thread t).status = .running then starvationLoop c p fuel prev s
      else if (s.thread t).raised then starvationLoop c p fuel prev s
      else
        starvationLoop c p fuel prev
          ((moveNode s c p (p + 1) thrN).setThread t (s.thread t).boosted)

/-- `ThreadStarvationPrevention`. -/
def starvationPrevention (fuel c : ℕ) (s : State) (p : ℕ) : Option State :=
  let l := s.list c p
  if priorityToQuantum p ≤ l.noStarvationQuantum + 1 then
    some (s.setList c p { l with noStarvationQuantum := 0 })
  else
    starvationLoop c p fuel l.tail
      (s.setList c p { l with noStarvationQuantum := l.noStarvationQuantum + 1 })

/-- The loop of `Core_Schedule` over the priorities; `WorkStealing` returns at
once. -/
def preventStarvation (fuel : ℕ) (s : State) (c : ℕ) : Option State :=
  if 1 < s.cpuCount then (List.range maxPriority).foldlM (starvationPrevention fuel c) s
  else some s

/-- The first node of a list whose thread does not run, or null. -/
def firstNotRunning (fuel : ℕ) (s : State) (c p : ℕ) : Option ℕ :=
  DLinked.walk (fun n => (s.node n).next) 0
    (fun n => (s.thread (s.node n).data).status ≠ .running) fuel (s.list c p).head

/-- `find_list`: the first thread that does not run, from the list of priority `p`
downwards, or else the idle thread. -/
def findList (fuel : ℕ) (s : State) (c : ℕ) : ℕ → Option ℕ
  | 0 =>
    match firstNotRunning fuel s c 0 with
    | none => none
    | some n => if n = 0 then some (s.cpu c).idleThread else some (s.node n).data
  | p + 1 =>
    match firstNotRunning fuel s c (p + 1) with
    | none => none
    | some n => if n = 0 then findList fuel s c p else some (s.node n).data

/-- The choice of a new thread: the list whose turn it is, and what it has. -/
def chooseNew (fuel : ℕ) (s : State) (c : ℕ) : Option (State × ℕ) :=
  let p := (s.cpu c).currentPriorityList.getD maxPriority
  let l := s.list c p
  let done := priorityToQuantum p ≤ l.quantum + 1
  let s := s.setList c p { l with quantum := if done then 0 else l.quantum + 1 }
  let p := if done then (if p = 0 then maxPriority else p - 1) else p
  let s := s.setCpu c { s.cpu c with currentPriorityList := some p }
  (findList fuel s c p).map fun t => (s, t)

/-- The choice of the next thread: the one behind the current thread, or a new
one. -/
def chooseThread (fuel : ℕ) (s : State) (c : ℕ) : Option (State × ℕ) :=
  let t := (s.cpu c).currentThread
  if t = 0 then chooseNew fuel s c
  else
    let snode := (s.thread t).snode
    if snode = 0 then none
    else
      let next := (s.node snode).next
      if next = 0 ∨ (s.node next).data = 0 then chooseNew fuel s c
      else some (s, (s.node next).data)

/-- `threadCanRunThread` on processor `c`. -/
def Thread.canRun (c : ℕ) : Bool :=
  (x.status = .running || x.status = .ready) && x.affinity.testBit c

/-- What `switch_thread` does to the chosen thread. -/
def Thread.dispatched (c : ℕ) : Thread :=
  { x with status := .running, masterCPU := some c, quantum := 0 }

/-- What it does to the thread that was current, if that can still run. -/
def Thread.preempted : Thread := { x with status := .ready }

/-- `switch_thread`: the chosen thread becomes the current one. -/
def switchThread (c chosen : ℕ) : State :=
  let s := s.setThread chosen ((s.thread chosen).dispatched c)
  let t := (s.cpu c).currentThread
  let s := if t ≠ 0 ∧ (s.thread t).canRun c then s.setThread t (s.thread t).preempted else s
  s.setCpu c { s.cpu c with currentThread := chosen }

/-- `Core_Schedule` on processor `c`. -/
def schedule (fuel : ℕ) (s : State) (c : ℕ) : Option State :=
  match preventStarvation fuel (demoteCurrent s c) c with
  | none => none
  | some s =>
    match chooseThread fuel s c with
    | none => none
    | some (s, chosen) => if chosen = 0 then none else some (switchThread s c chosen)

/-- `CoreH_ThreadBlock` called on processor `c`: the thread that is current there
yields, and since it cannot run that schedules. -/
def threadBlock (fuel : ℕ) (s : State) (c t : ℕ) (canYield : Bool) : Option State :=
  if (unready s t).2 = .success ∧ (s.thread t).status ≠ .blocked ∧
      t = (s.cpu c).currentThread ∧ canYield then
    schedule fuel (unready s t).1 c
  else some (unready s t).1

inductive Op where
  | readyNode (t n : ℕ)
  | block (fuel c t : ℕ) (canYield : Bool)
  | boost (t : ℕ)
  | schedule (fuel c : ℕ)

/-- One call. -/
def step : Op → Option State
  | .readyNode t n => some (threadReadyNode s t n).1
  | .block fuel c t canYield => threadBlock fuel s c t canYield
  | .boost t => some (threadBoostPriority s t).1
  | .schedule fuel c => schedule fuel s c

/-! ### Priorities without their boosts -/

/-- A thread in zeroed memory. -/
def Thread.zero : Thread := ⟨.ready, 0, false, false, 0, 0, none, 0⟩

/-- `CoreH_ThreadInitialize`. -/
def threadInitialize (priority affinity : ℕ) : Option Thread :=
  if maxPriority < priority ∨ affinity = 0 then none
  else some { x with
    priority := priority, status := .ready, affinity := affinity, masterCPU := none, quantum := 0 }

/-- The priority of a thread without its boost. -/
def Thread.basePriority : ℕ := if x.raised then x.priority - 1 else x.priority

end

/-- A thread is not blocked while it is boosted. -/
def blocksUnboosted : Op → Bool
  | .block _ _ t _ => !((s.thread t).raised && (s.thread t).masterCPU.isSome)
  | _ => true

/-- No thread's base priority differs. -/
def SameBase (s s' : State) : Prop :=
  ∀ t, (s'.thread t).basePriority = (s.thread t).basePriority

theorem SameBase.refl : SameBase s s := fun _ => rfl

theorem SameBase.trans {s s' s'' : State} (h : SameBase s s') (h' : SameBase s' s'') :
    SameBase s s'' := fun t => (h' t).trans (h t)

theorem SameBase.of_thread {s s' : State} (h : s'.thread = s.thread) : SameBase s s' := by
  intro t
  rw [h]

theorem SameBase.setThread {t : ℕ} {x : Thread}
    (h : x.basePriority = (s.thread t).basePriority) : SameBase s (s.setThread t x) := by
  intro u
  by_cases hu : u = t
  · subst hu
    exact (congrArg _ (update_self ..)).trans h
  · exact congrArg _ (update_of_ne hu ..)

theorem Thread.basePriority_boosted {x : Thread} (h : x.raised = false) :
    x.boosted.basePriority = x.basePriority := by
  simp [Thread.basePriority, Thread.boosted, h]

theorem Thread.basePriority_demoted {x : Thread} (h : x.raised = true) :
    x.demoted.basePriority = x.basePriority := by
  simp [Thread.basePriority, Thread.demoted, h]

theorem State.setNext_thread (n v : ℕ) : (s.setNext n v).thread = s.thread := by
  rw [State.setNext]
  split <;> rfl

theorem State.setPrev_thread (n v : ℕ) : (s.setPrev n v).thread = s.thread := by
  rw [State.setPrev]
  split <;> rfl

theorem listAppend_thread (c p n : ℕ) : (listAppend s c p n).1.thread = s.thread := by
  rw [listAppend]
  split
  · rfl
  · exact (State.setPrev_thread ..).trans (State.setNext_thread ..)

theorem listRemove_thread (c p n : ℕ) : (listRemove s c p n).1.thread = s.thread := by
  rw [listRemove]
  split
  · rfl
  · refine ((State.setPrev_thread ..).trans (State.setNext_thread ..)).trans ?_
    exact (State.setNext_thread ..).trans (State.setPrev_thread ..)

/-- A call that is refused leaves the state as it is. -/
theorem refused {P : State → Prop} {s : State} {st : Status} {c : Prop} [Decidable c]
    {r : State × Status} (h : P s) (hr : ¬ c → P r.1) : P (if c then (s, st) else r).1 := by
  split_ifs with hc
  · exact h
  · exact hr hc

theorem threadReadyNode_base (t n : ℕ) : SameBase s (threadReadyNode s t n).1 := by
  rw [threadReadyNode]
  refine refused (SameBase.refl s) fun _ => ?_
  refine refused (SameBase.refl s) fun _ => ?_
  refine refused (SameBase.refl s) fun _ => ?_
  cases leastLoaded s (s.thread t) with
  | none => exact .refl s
  | some c =>
    refine SameBase.trans ?_ (.of_thread (listAppend_thread ..))
    exact SameBase.setThread (s.setNode n _) rfl

theorem moveNode_thread (c p p' n : ℕ) : (moveNode s c p p' n).thread = s.thread :=
  (listAppend_thread ..).trans (listRemove_thread ..)

/-- Moving a node and updating its thread changes only that thread. -/
theorem SameBase.moveNode (c p p' n : ℕ) {t : ℕ} {x : Thread}
    (h : x.basePriority = (s.thread t).basePriority) :
    SameBase s ((moveNode s c p p' n).setThread t x) := by
  refine SameBase.trans (.of_thread (moveNode_thread ..)) (.setThread _ ?_)
  rwa [moveNode_thread]

theorem threadBoostPriority_base (t : ℕ) : SameBase s (threadBoostPriority s t).1 := by
  rw [threadBoostPriority]
  refine refused (SameBase.refl s) fun _ => ?_
  refine refused (SameBase.refl s) fun _ => ?_
  refine refused (SameBase.refl s) fun h => ?_
  have hraised : (s.thread t).raised = false := by simpa using (not_or.mp h).1
  cases (s.thread t).masterCPU with
  | none => exact .setThread s (Thread.basePriority_boosted hraised)
  | some c => exact .moveNode s _ _ _ _ (Thread.basePriority_boosted hraised)

theorem demote_base (c t : ℕ) : SameBase s (demote s c t) := by
  rw [demote]
  refine iteInduction (motive := SameBase s) (fun _ => .refl s) fun h => ?_
  exact .moveNode s _ _ _ _ (Thread.basePriority_demoted (by simpa using h))

theorem demoteCurrent_base (c : ℕ) : SameBase s (demoteCurrent s c) := by
  rw [demoteCurrent]
  refine iteInduction (motive := SameBase s) (fun _ => .refl s) fun _ => ?_
  have hq := SameBase.setThread s (t := (s.cpu c).currentThread)
    (x := (s.thread (s.cpu c).currentThread).resetQuantum) rfl
  exact hq.trans (demote_base _ c _)

theorem starvationLoop_base {c p fuel thrN : ℕ} {s s' : State}
    (h : starvationLoop c p fuel thrN s = some s') : SameBase s s' := by
  -- the loop counts down its fuel; it writes a thread only when the flag is clear
  induction fuel generalizing thrN s with
  | zero => cases h
  | succ fuel ih =>
    rw [starvationLoop] at h
    dsimp only at h
    split_ifs at h with h1 h2 h3 h4 h5
    · cases h
      exact .refl _
    · exact ih h
    · exact ih h
    · exact ih h
    · refine SameBase.trans ?_ (ih h)
      exact .moveNode s _ _ _ _ (Thread.basePriority_boosted (by simpa using h5))

theorem starvationPrevention_base {fuel c p : ℕ} {s s' : State}
    (h : starvationPrevention fuel c s p = some s') : SameBase s s' := by
  rw [starvationPrevention] at h
  split_ifs at h with h1
  · cases h
    exact .of_thread rfl
  · have hl := starvationLoop_base h
    exact hl

theorem foldlM_starvationPrevention_base {fuel c : ℕ} (ps : List ℕ) {s s' : State}
    (h : ps.foldlM (starvationPrevention fuel c) s = some s') : SameBase s s' := by
  induction ps generalizing s with
  | nil =>
    cases h
    exact .refl _
  | cons p ps ih =>
    rw [List.foldlM_cons] at h
    obtain ⟨s1, h1, h⟩ := Option.bind_eq_some_iff.mp h
    exact (starvationPrevention_base h1).trans (ih h)

theorem preventStarvation_base {fuel c : ℕ} {s s' : State}
    (h : preventStarvation fuel s c = some s') : SameBase s s' := by
  rw [preventStarvation] at h
  split_ifs at h with h1
  · exact foldlM_starvationPrevention_base _ h
  · cases h
    exact .refl _

theorem chooseNew_thread {fuel c t : ℕ} {s s' : State} (h : chooseNew fuel s c = some (s', t)) :
    s'.thread = s.thread := by
  rw [chooseNew, Option.map_eq_some_iff] at h
  obtain ⟨u, -, e⟩ := h
  obtain ⟨rfl, -⟩ := Prod.mk.inj e
  rfl

theorem chooseThread_thread {fuel c t : ℕ} {s s' : State}
    (h : chooseThread fuel s c = some (s', t)) : s'.thread = s.thread := by
  rw [chooseThread] at h
  dsimp only at h
  split_ifs at h with h1 h2 h3
  · exact chooseNew_thread h
  · exact chooseNew_thread h
  · cases h
    rfl

theorem switchThread_base (c chosen : ℕ) : SameBase s (switchThread s c chosen) := by
  have h1 := SameBase.setThread s (t := chosen) (x := (s.thread chosen).dispatched c) rfl
  refine SameBase.trans ?_ (.of_thread rfl)
  refine iteInduction (motive := SameBase s) (fun _ => ?_) fun _ => h1
  exact h1.trans (.setThread _ rfl)

end

theorem schedule_base {fuel c : ℕ} {s s' : State} (h : schedule fuel s c = some s') :
    SameBase s s' := by
  rw [schedule] at h
  cases h1 : preventStarvation fuel (demoteCurrent s c) c with
  | none => simp [h1] at h
  | some s1 =>
    cases h2 : chooseThread fuel s1 c with
    | none => simp [h1, h2] at h
    | some r =>
      obtain ⟨s2, chosen⟩ := r
      simp only [h1, h2, Option.ite_none_left_eq_some, Option.some.injEq] at h
      rw [← h.2]
      exact ((demoteCurrent_base s c).trans (preventStarvation_base h1)).trans
        (SameBase.trans (.of_thread (chooseThread_thread h2)) (switchThread_base s2 c chosen))

theorem unready_base {s : State} {t : ℕ} (h : (s.thread t).raised = true →
    (s.thread t).masterCPU = none) : SameBase s (unready s t).1 := by
  rw [unready]
  refine refused (SameBase.refl s) fun _ => ?_
  cases hc : (s.thread t).masterCPU with
  | none => exact .refl s
  | some c =>
    refine refused (SameBase.refl s) fun _ => ?_
    refine refused (SameBase.refl s) fun _ => ?_
    have hraised : (s.thread t).raised = false := by
      by_contra hr
      exact absurd (h (by simpa using hr)) (by simp [hc])
    have hthread := listRemove_thread s c (s.thread t).priority (s.thread t).snode
    have hset := SameBase.setThread (listRemove s c (s.thread t).priority (s.thread t).snode).1
      (t := t) (x := (s.thread t).blocked) (by
        rw [hthread]
        simp [Thread.basePriority, Thread.blocked, hraised])
    intro u
    exact (SameBase.trans (.of_thread hthread) hset) u

theorem step_base {s s' : State} {op : Op} (hok : blocksUnboosted s op = true)
    (h : step s op = some s') : SameBase s s' := by
  cases op with
  | readyNode t n =>
    cases h
    exact threadReadyNode_base s t n
  | boost t =>
    cases h
    exact threadBoostPriority_base s t
  | schedule fuel c => exact schedule_base h
  | block fuel c t canYield =>
    have hbase := unready_base (s := s) (t := t) (by
      intro hr
      simpa [blocksUnboosted, hr] using hok)
    rw [step, threadBlock] at h
    split_ifs at h with hy
    · exact hbase.trans (schedule_base h)
    · cases h
      exact hbase

/-- In every run in which no thread is blocked while it is boosted, the base
priority of every thread stays what `CoreH_ThreadInitialize` was given. -/
theorem basePriority_run {s s' : State} {ops : List Op} {t priority affinity : ℕ}
    (hinit : threadInitialize .zero priority affinity = some (s.thread t))
    (hok : Run.Meets (fun s op => blocksUnboosted s op = true) step s ops)
    (hrun : ops.foldlM step s = some s') : (s'.thread t).basePriority = priority := by
  have hstart : (s.thread t).basePriority = priority := by
    rw [threadInitialize] at hinit
    split_ifs at hinit with hp
    rw [← Option.some.inj hinit]
    rfl
  refine Run.preserves (I := fun s => (s.thread t).basePriority = priority) ?_ hstart hok hrun
  intro s op s1 hs hop hstep
  exact (step_base hop hstep t).trans hs

/-- One processor with the idle thread 2, and the thread 1 of normal priority;
nothing is ready yet. -/
def oneThread : State where
  cpuCount := 1
  cpu _ := ⟨0, 2, fun _ => ⟨0, 0, 0, 0, 0⟩, none⟩
  node _ := ⟨0, 0, 0⟩
  thread t := { Thread.zero with priority := if t = 2 then 0 else 2, affinity := 1 }
  readyThreadCount := 0

/-- It is readied, run, boosted, demoted and blocked. -/
def quietRun : List Op :=
  [.readyNode 2 2, .readyNode 1 1, .schedule 3 0, .boost 1, .schedule 3 0, .block 3 0 1 false]

theorem basePriority_run_oneThread :
    ∃ s', quietRun.foldlM step oneThread = some s' ∧ (s'.thread 1).basePriority = 2 := by
  have hinit : threadInitialize .zero 2 1 = some (oneThread.thread 1) := rfl
  have hsome : (quietRun.foldlM step oneThread).isSome = true := by decide +kernel
  obtain ⟨s', hrun⟩ := Option.isSome_iff_exists.mp hsome
  exact ⟨s', hrun, basePriority_run hinit (by decide +kernel) hrun⟩

/-- A thread that is boosted by a wake-up and then waits again keeps the boost:
its base priority has gone from normal to high. -/
theorem boosted_block_keeps_boost :
    threadInitialize .zero 2 1 = some (oneThread.thread 1) ∧
      ([Op.readyNode 1 1, .boost 1, .block 2 0 1 false].foldlM step oneThread).map
        (fun s => (s.thread 1).basePriority) = some 3 := by
  decide +kernel

end Obos.Sched
