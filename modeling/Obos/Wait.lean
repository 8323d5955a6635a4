/-
Waiting on objects and signalling them (`locks/wait.c`, `locks/spinlock.c`) on
top of the scheduler's calls.

A waitable object has a list of waiting nodes, a spinlock and a flag `signaled`
that counts only when `use_signaled` is set.  Each thread has a program counter
`Pc`, with one place for every access to an object or to the scheduler that
other threads can see; what is done under one spinlock up to its release is one
step, and `CoreH_SignalWaitingThreads` takes one step for each node it removes.
A node of the list is the `lock_node` of its thread (`Core_WaitOnObject`) or one
from the heap (`Core_WaitOnObjects`).

Readying a thread that still has a processor does nothing.  So a signal that
takes a thread off the list between its append and its block is lost.

`readied` and `lockNode` are history variables: how often a thread was put on a
ready list, and the object whose list the `lock_node` is linked into.

Here the nodes that wait on an object are a list of Lean, into which a node that is
linked already cannot be put a second time; such a step has no result.  The list is
what `State` and the functions on it are generic in: `Obos.WaitLinks` has the same
calls on the linked lists of the source, where that step ties two lists together.
-/
import Obos.Scheduler

namespace Obos.Wait

open Function
open Sched (ThreadStatus maxPriority)

/-! ### Threads as the wait functions see them -/

/-- `IRQL_DISPATCH`. -/
def dispatchIrql : ℕ := 2

/-- What `CoreH_ThreadBlock` does to its thread. -/
def blockThread (x : Sched.Thread) : Sched.Thread :=
  if x.masterCPU.isNone ∨ maxPriority < x.priority then x
  else if x.status = .blocked then x
  else x.blocked

/-- What `CoreH_ThreadBoostPriority` does to its thread. -/
def boostThread (x : Sched.Thread) : Sched.Thread :=
  if maxPriority < x.priority ∨ x.died then x
  else if x.masterCPU.isNone ∧ x.status ≠ .blocked then x
  else if x.raised ∨ x.priority = maxPriority then x
  else x.boosted

/-- A processor the thread may run on.  Which of them `CoreH_ThreadReadyNode`
chooses depends on how many threads they have. -/
def someCpu (cpuCount : ℕ) (x : Sched.Thread) : Option ℕ :=
  (List.range cpuCount).find? fun c => x.affinity.testBit c

/-- What `CoreH_ThreadReadyNode` does to its thread when it is given the thread's
own `snode`. -/
def readyThread (cpuCount : ℕ) (x : Sched.Thread) : Sched.Thread :=
  if x.snode = 0 ∨ maxPriority < x.priority then x
  else if x.masterCPU.isSome then x
  else match someCpu cpuCount x with
    | none => x
    | some c => x.readied c x.snode

/-! These are the thread's part of what the scheduler's calls do. -/

theorem unready_thread (s : Sched.State) {t : ℕ} (ht : t ≠ 0) :
    (Sched.unready s t).1.thread t = blockThread (s.thread t) := by
  rw [Sched.unready, if_neg ht, blockThread]
  cases hcpu : (s.thread t).masterCPU with
  | none => simp
  | some c =>
    simp only [Option.isNone_some, Bool.false_eq_true, false_or]
    split_ifs
    · rfl
    · rfl
    · exact update_self ..

theorem threadBoostPriority_thread (s : Sched.State) {t : ℕ} (ht : t ≠ 0) :
    (Sched.threadBoostPriority s t).1.thread t = boostThread (s.thread t) := by
  rw [Sched.threadBoostPriority, boostThread]
  simp only [ht, false_or]
  split_ifs
  · rfl
  · rfl
  · rfl
  · split
    · exact update_self ..
    · exact update_self ..

/-- The search keeps what it has, or finds a processor the thread may run on. -/
theorem foldl_lessLoaded_isSome (s : Sched.State) (x : Sched.Thread) (cs : List ℕ)
    (found : Option ℕ) :
    (cs.foldl (Sched.lessLoaded s x) found).isSome =
      (found.isSome || (cs.find? fun c => x.affinity.testBit c).isSome) := by
  induction cs generalizing found with
  | nil => simp
  | cons c cs ih =>
    rw [List.foldl_cons, ih, List.find?_cons, Sched.lessLoaded.eq_def]
    cases x.affinity.testBit c with
    | false => rfl
    | true =>
      cases found with
      | none => rfl
      | some f =>
        simp only [Bool.not_true, Bool.false_eq_true, if_false]
        split_ifs <;> rfl

/-- `CoreH_ThreadReadyNode` and `readyThread` agree on a thread up to the processor. -/
theorem threadReadyNode_thread (s : Sched.State) {t : ℕ} (ht : t ≠ 0) :
    ∃ cpu : Option ℕ, cpu.isSome = (readyThread s.cpuCount (s.thread t)).masterCPU.isSome ∧
      (Sched.threadReadyNode s t (s.thread t).snode).1.thread t =
        { readyThread s.cpuCount (s.thread t) with masterCPU := cpu } := by
  rw [Sched.threadReadyNode, readyThread]
  by_cases hsnode : (s.thread t).snode = 0
  · rw [if_pos (.inl hsnode), if_pos (.inr hsnode)]
    exact ⟨_, rfl, rfl⟩
  simp only [ht, hsnode, false_or, if_false]
  split_ifs with hprio hcpu
  · exact ⟨_, rfl, rfl⟩
  · exact ⟨_, rfl, rfl⟩
  · -- both find a processor, or neither does
    have hfound : (Sched.leastLoaded s (s.thread t)).isSome =
        (someCpu s.cpuCount (s.thread t)).isSome :=
      (foldl_lessLoaded_isSome s _ _ none).trans (Bool.false_or _)
    cases hc : someCpu s.cpuCount (s.thread t) with
    | none =>
      rw [hc, Option.isSome_none, Option.isSome_eq_false_iff, Option.isNone_iff_eq_none] at hfound
      rw [hfound]
      exact ⟨_, rfl, rfl⟩
    | some c =>
      rw [hc, Option.isSome_some] at hfound
      obtain ⟨c', hc'⟩ := Option.isSome_iff_exists.mp hfound
      rw [hc']
      refine ⟨some c', rfl, ?_⟩
      rw [Sched.listAppend_thread]
      exact update_self ..

structure Thread where
  sched : Sched.Thread
  irql : ℕ
  nWaiting : ℕ
  nSignaled : ℕ
  deriving DecidableEq, Repr

/-! ### Objects and places in the code -/

universe u

variable {T : Type u} {O : Type*} {L : Type u}

/-- A `thread_node` on a list of waiting threads; `own` tells the `lock_node` of
the thread from a node on the heap. -/
structure Node (T : Type u) where
  thread : T
  own : Bool
  deriving DecidableEq, Repr

/-- `struct waitable_header`. -/
structure Waitable (T : Type u) (L : Type u := List (Node T)) where
  waiting : L
  lock : Option T
  signaled : Bool
  useSignaled : Bool

/-- The test both wait functions make of an object. -/
def Waitable.isSignaled (x : Waitable T L) : Bool := x.signaled && x.useSignaled

/-- Where a thread is.  `entry` is the `oldIrql` of `Core_WaitOnObject`, `old` what
`Core_SpinlockAcquire` returned: the IRQL to go back to, unless it was
`IRQL_INVALID`. -/
inductive Pc (O : Type*) where
  | outside
  /-- `Core_WaitOnObject`: about to take the lock. -/
  | acquire (o : O) (entry : ℕ)
  /-- The lock is held. -/
  | check (o : O) (entry : ℕ)
  /-- The node is on the list, the lock is released. -/
  | recheck (o : O) (entry : ℕ)
  | block (o : O) (entry : ℕ)
  /-- In `CoreH_ThreadBlock`, or scheduled again. -/
  | asleep (o : O) (entry : ℕ)
  /-- `Core_WaitOnObjects`: these objects are left. -/
  | nextObject (os : List O)
  | checkNext (o : O) (os : List O) (old : Option ℕ)
  /-- About to count the object that was just enqueued on. -/
  | countNext (os : List O)
  | blockAll
  | asleepAll
  /-- `CoreH_SignalWaitingThreads`. -/
  | signalAcquire (o : O) (all boost : Bool)
  | signalLoop (o : O) (all boost : Bool) (old : Option ℕ)
  deriving DecidableEq, Repr

structure State (T : Type u) (O : Type*) (L : Type u := List (Node T)) where
  cpuCount : ℕ
  obj : O → Waitable T L
  thread : T → Thread
  pc : T → Pc O
  readied : T → ℕ
  lockNode : T → Option O

variable [DecidableEq T] [DecidableEq O]

namespace State

variable (s : State T O L)

@[simps]
def goto (t : T) (pc : Pc O) : State T O L :=
  { s with pc := update s.pc t pc }

@[simps]
def setThread (t : T) (x : Thread) : State T O L :=
  { s with thread := update s.thread t x }

@[simps]
def setObj (o : O) (x : Waitable T L) : State T O L :=
  { s with obj := update s.obj o x }

def setIrql (t : T) (irql : ℕ) : State T O L :=
  s.setThread t { s.thread t with irql := irql }

def setLock (o : O) (holder : Option T) : State T O L :=
  s.setObj o { s.obj o with lock := holder }

def setSignaled (o : O) (signaled : Bool) : State T O L :=
  s.setObj o { s.obj o with signaled := signaled }

@[simps]
def setLockNode (t : T) (o : Option O) : State T O L :=
  { s with lockNode := update s.lockNode t o }

/-- `if (obj->use_signaled) obj->signaled = true;` -/
def raiseSignaled (o : O) : State T O L :=
  if (s.obj o).useSignaled then s.setSignaled o true else s

/-- `Core_SpinlockAcquire` of a free lock. -/
def spinlockAcquire (t : T) (o : O) : State T O L :=
  (s.setLock o (some t)).setIrql t (max (s.thread t).irql dispatchIrql)

/-- The value `Core_SpinlockAcquire` returns. -/
def spinlockIrql (t : T) : Option ℕ :=
  if (s.thread t).irql < dispatchIrql then some (s.thread t).irql else none

/-- `Core_SpinlockRelease`. -/
def spinlockRelease (t : T) (o : O) (old : Option ℕ) : State T O L :=
  (s.setLock o none).setIrql t (old.getD (s.thread t).irql)

end State

/-- `CoreH_ThreadListAppend`. -/
def State.append (s : State T O) (o : O) (n : Node T) : State T O :=
  s.setObj o { s.obj o with waiting := (s.obj o).waiting ++ [n] }

/-! ### `CoreH_SignalWaitingThreads` -/

/-- What the thread of a removed node becomes. -/
def Thread.signalled (cpuCount : ℕ) (boost : Bool) (x : Thread) : Thread :=
  if x.nSignaled + 1 = x.nWaiting then
    { x with
      nSignaled := x.nSignaled + 1
      sched := readyThread cpuCount (if boost then boostThread x.sched else x.sched) }
  else { x with nSignaled := x.nSignaled + 1 }

/-- One turn of the loop takes the node `n`, behind which `rest` waits, off the
list of `o` and signals its thread. -/
@[simps]
def removeNode (s : State T O L) (o : O) (boost : Bool) (n : Node T) (rest : L) :
    State T O L :=
  let x := s.thread n.thread
  let y := x.signalled s.cpuCount boost
  { s with
    obj := update s.obj o { s.obj o with waiting := rest }
    thread := update s.thread n.thread y
    readied := if x.sched.masterCPU.isNone ∧ y.sched.masterCPU.isSome then
        update s.readied n.thread (s.readied n.thread + 1)
      else s.readied
    lockNode := if n.own then update s.lockNode n.thread none else s.lockNode }

/-! ### Steps -/

/-- The next step of thread `t`, where it has nothing to do with a list. -/
def runPlain (s : State T O L) (t : T) : Option (State T O L) :=
  match s.pc t with
  | .acquire o entry =>
    if (s.obj o).lock.isSome then none
    else some ((s.setLock o (some t)).goto t (.check o entry))
  | .recheck o entry =>
    if (s.obj o).isSignaled then some (s.goto t .outside) else some (s.goto t (.block o entry))
  | .block o entry =>
    some ((s.setThread t { s.thread t with sched := blockThread (s.thread t).sched }).goto t
      (.asleep o entry))
  | .asleep _ entry =>
    if (s.thread t).sched.status = .blocked then none
    else some ((s.setIrql t entry).goto t .outside)
  | .nextObject [] =>
    if (s.thread t).nWaiting ≠ 0 then some (s.goto t .blockAll) else some (s.goto t .outside)
  | .nextObject (o :: os) =>
    if (s.obj o).lock.isSome then none
    else some ((s.spinlockAcquire t o).goto t (.checkNext o os (s.spinlockIrql t)))
  | .countNext os =>
    some ((s.setThread t { s.thread t with nWaiting := (s.thread t).nWaiting + 1 }).goto t
      (.nextObject os))
  | .blockAll =>
    some ((s.setThread t { s.thread t with sched := blockThread (s.thread t).sched }).goto t
      .asleepAll)
  | .asleepAll =>
    if (s.thread t).sched.status = .blocked then none else some (s.goto t .outside)
  | .signalAcquire o all boost =>
    if (s.obj o).lock.isSome then none
    else some ((s.spinlockAcquire t o).goto t (.signalLoop o all boost (s.spinlockIrql t)))
  | _ => none

/-- The next step of thread `t`. -/
def runThread (s : State T O) (t : T) : Option (State T O) :=
  match s.pc t with
  | .check o entry =>
    if (s.obj o).isSignaled then
      some (((s.setIrql t entry).setLock o none).goto t .outside)
    else if (s.lockNode t).isSome then none
    else
      let s := s.setThread t { s.thread t with nSignaled := 0, nWaiting := 1 }
      let s := (s.append o ⟨t, true⟩).setLockNode t (some o)
      some ((s.setLock o none).goto t (.recheck o entry))
  | .checkNext o os old =>
    if (s.obj o).isSignaled then some ((s.spinlockRelease t o old).goto t (.nextObject os))
    else some (((s.append o ⟨t, false⟩).spinlockRelease t o old).goto t (.countNext os))
  | .signalLoop o all boost old =>
    match (s.obj o).waiting with
    | [] => some ((s.spinlockRelease t o old).goto t .outside)
    | n :: rest =>
      let s := removeNode s o boost n rest
      if all then some s else some ((s.spinlockRelease t o old).goto t .outside)
  | _ => runPlain s t

/-- What the next step of `t` can be, by where the thread is. -/
inductive ThreadStep (s : State T O) (t : T) : Pc O → State T O → Prop
  | take (o : O) (entry : ℕ) (hfree : ¬ (s.obj o).lock.isSome) :
    ThreadStep s t (.acquire o entry) ((s.setLock o (some t)).goto t (.check o entry))
  | signaled (o : O) (entry : ℕ) :
    ThreadStep s t (.check o entry) (((s.setIrql t entry).setLock o none).goto t .outside)
  | enqueue (o : O) (entry : ℕ) (hoff : ¬ (s.obj o).isSignaled) :
    ThreadStep s t (.check o entry)
      (((((s.setThread t { s.thread t with nSignaled := 0, nWaiting := 1 }).append o
        ⟨t, true⟩).setLockNode t (some o)).setLock o none).goto t (.recheck o entry))
  | back (o : O) (entry : ℕ) (hon : (s.obj o).isSignaled) :
    ThreadStep s t (.recheck o entry) (s.goto t .outside)
  | stay (o : O) (entry : ℕ) (hoff : ¬ (s.obj o).isSignaled) :
    ThreadStep s t (.recheck o entry) (s.goto t (.block o entry))
  | block (o : O) (entry : ℕ) :
    ThreadStep s t (.block o entry)
      ((s.setThread t { s.thread t with sched := blockThread (s.thread t).sched }).goto t
        (.asleep o entry))
  | wake (o : O) (entry : ℕ) (hst : (s.thread t).sched.status ≠ .blocked) :
    ThreadStep s t (.asleep o entry) ((s.setIrql t entry).goto t .outside)
  | enqueued (hn : (s.thread t).nWaiting ≠ 0) : ThreadStep s t (.nextObject []) (s.goto t .blockAll)
  | unneeded (hn : (s.thread t).nWaiting = 0) : ThreadStep s t (.nextObject []) (s.goto t .outside)
  | takeNext (o : O) (os : List O) (hfree : ¬ (s.obj o).lock.isSome) :
    ThreadStep s t (.nextObject (o :: os))
      ((s.spinlockAcquire t o).goto t (.checkNext o os (s.spinlockIrql t)))
  | skipNext (o : O) (os : List O) (old : Option ℕ) (hon : (s.obj o).isSignaled) :
    ThreadStep s t (.checkNext o os old) ((s.spinlockRelease t o old).goto t (.nextObject os))
  | enqueueNext (o : O) (os : List O) (old : Option ℕ) (hoff : ¬ (s.obj o).isSignaled) :
    ThreadStep s t (.checkNext o os old)
      (((s.append o ⟨t, false⟩).spinlockRelease t o old).goto t (.countNext os))
  | count (os : List O) :
    ThreadStep s t (.countNext os)
      ((s.setThread t { s.thread t with nWaiting := (s.thread t).nWaiting + 1 }).goto t
        (.nextObject os))
  | blockAll :
    ThreadStep s t .blockAll
      ((s.setThread t { s.thread t with sched := blockThread (s.thread t).sched }).goto t .asleepAll)
  | wakeAll (hst : (s.thread t).sched.status ≠ .blocked) :
    ThreadStep s t .asleepAll (s.goto t .outside)
  | takeSignal (o : O) (all boost : Bool) (hfree : ¬ (s.obj o).lock.isSome) :
    ThreadStep s t (.signalAcquire o all boost)
      ((s.spinlockAcquire t o).goto t (.signalLoop o all boost (s.spinlockIrql t)))
  | drained (o : O) (all boost : Bool) (old : Option ℕ) (hw : (s.obj o).waiting = []) :
    ThreadStep s t (.signalLoop o all boost old) ((s.spinlockRelease t o old).goto t .outside)
  | removeOne (o : O) (boost : Bool) (old : Option ℕ) (n : Node T) (rest : List (Node T))
    (hw : (s.obj o).waiting = n :: rest) :
    ThreadStep s t (.signalLoop o false boost old)
      (((removeNode s o boost n rest).spinlockRelease t o old).goto t .outside)
  | removeNext (o : O) (boost : Bool) (old : Option ℕ) (n : Node T) (rest : List (Node T))
    (hw : (s.obj o).waiting = n :: rest) :
    ThreadStep s t (.signalLoop o true boost old) (removeNode s o boost n rest)

theorem runThread_cases {s s' : State T O} {t : T} (h : runThread s t = some s') :
    ThreadStep s t (s.pc t) s' := by
  rw [runThread, runPlain] at h
  generalize s.pc t = p at h ⊢
  cases p with
  | outside => cases h
  | signalLoop o all boost old =>
    dsimp only at h
    split at h
    next hw => exact Option.some.inj h ▸ .drained o all boost old hw
    next n rest hw =>
    cases all with
    | false => exact Option.some.inj h ▸ .removeOne o boost old n rest hw
    | true => exact Option.some.inj h ▸ .removeNext o boost old n rest hw
  | nextObject os =>
    cases os with
    | nil =>
      dsimp only at h
      split at h
      next hn => exact Option.some.inj h ▸ .enqueued hn
      next hn => exact Option.some.inj h ▸ .unneeded (not_not.mp hn)
    | cons o os =>
      dsimp only at h
      split_ifs at h with hfree
      exact Option.some.inj h ▸ .takeNext o os hfree
  -- elsewhere the place and the tests that were made leave one constructor
  | _ =>
    dsimp only at h
    try split_ifs at h
    all_goals
      cases h
      constructor <;> assumption

inductive Op (T O : Type*) where
  | waitOnObject (t : T) (o : O)
  | waitOnObjects (t : T) (os : List O)
  | signal (t : T) (o : O) (all boost : Bool)
  /-- `CoreH_ClearSignaledState`. -/
  | clear (o : O)
  /-- `t`, outside of these functions, changes its IRQL. -/
  | irql (t : T) (irql : ℕ)
  /-- `t` makes its next step. -/
  | run (t : T)

/-- One step, where `run` makes the next step of a thread.  A thread calls one of the
functions from outside; a call above `IRQL_DISPATCH`, or with no objects, returns at
once. -/
def stepWith (run : T → Option (State T O L)) (s : State T O L) : Op T O → Option (State T O L)
  | .waitOnObject t o =>
    if s.pc t ≠ .outside then none
    else if dispatchIrql < (s.thread t).irql then some s
    else some ((s.setIrql t dispatchIrql).goto t (.acquire o (s.thread t).irql))
  | .waitOnObjects t os =>
    if s.pc t ≠ .outside then none
    else if os = [] ∨ dispatchIrql < (s.thread t).irql then some s
    else some ((s.setThread t { s.thread t with nSignaled := 0, nWaiting := 0 }).goto t
      (.nextObject os))
  | .signal t o all boost =>
    if s.pc t ≠ .outside then none
    else if dispatchIrql < (s.thread t).irql then some (s.raiseSignaled o)
    else some ((s.raiseSignaled o).goto t (.signalAcquire o all boost))
  | .clear o =>
    if !(s.obj o).useSignaled then some s
    else if (s.obj o).lock.isSome then none
    else some (s.setSignaled o false)
  | .irql t irql => if s.pc t ≠ .outside then none else some (s.setIrql t irql)
  | .run t => run t

def step (s : State T O) (op : Op T O) : Option (State T O) := stepWith (runThread s) s op

/-! ### A small system -/

/-- Two processors and threads that all run; no object is signalled. -/
def quietSystem (useSignaled : Bool) : State ℕ ℕ where
  cpuCount := 2
  obj _ := ⟨[], none, false, useSignaled⟩
  thread _ := ⟨⟨.running, 2, false, false, 0, 3, some 0, 1⟩, 0, 0, 0⟩
  pc _ := .outside
  readied _ := 0
  lockNode _ := none

end Obos.Wait
