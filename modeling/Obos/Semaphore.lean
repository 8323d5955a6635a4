/-
Semaphores (`locks/semaphore.c`) on top of the wait functions.

The count of a semaphore is a plain `size_t`: `Core_SemaphoreAcquire` tests and
decrements it under the semaphore's lock, `Core_SemaphoreRelease` increments it
under none, so that a load and the store behind it are two steps.  A thread that
finds the count zero gives up the lock, waits on the semaphore's header, and then
decrements without looking at the count again.

So a unit can be promised before it is taken: to a thread that was woken, to one
that has found the count not zero, or to the one a release is about to wake.
`promised s` counts these units.  The wait functions are those of `Obos.Wait`,
with the header as the only object; a step of a thread inside of one of them is a
step there.

* `semaphore_counts` — in every run in which no store overwrites another, an
  increment does not overflow, and who finds the count not zero finds more than
  was promised, no decrement wraps and there are at most as many acquires as
  units,
* `barging_wraps` — a run of three threads in which the count wraps.
-/
import Obos.WakeUps

namespace Obos.Semaphore

open Function
open Wait (dispatchIrql)

/-! ### The code -/

/-- Where a thread is.  `old` is what `Core_SpinlockAcquire` on the semaphore's lock
returned. -/
inductive Pc where
  | outside
  /-- `Core_SemaphoreAcquire`: about to take the lock. -/
  | lock
  | check (old : Option ℕ)
  /-- At `count--`, with the lock: about to load, and about to store. -/
  | load (old : Option ℕ)
  | store (old : Option ℕ) (value : ℕ)
  /-- About to call `Core_WaitOnObject`, and in it. -/
  | wait
  | waiting
  | relock
  /-- `Core_SemaphoreRelease` at `count++`: about to load, and about to store. -/
  | increment
  | incremented (value : ℕ)
  /-- About to call `CoreH_SignalWaitingThreads`, and in it. -/
  | signal
  | signalling
  deriving DecidableEq, Repr

/-- A semaphore and the threads that use it.  `completed`, `begun` and `wrapped` are
history: the acquires that have taken their unit, the releases that were called,
and whether a decrement of zero was stored. -/
structure State (T : Type*) where
  wait : Wait.State T Unit
  count : ℕ
  lock : Option T
  pc : T → Pc
  completed : ℕ
  begun : ℕ
  wrapped : Bool

variable {T : Type*} [DecidableEq T]

namespace State

variable (s : State T)

@[simps]
def goto (t : T) (pc : Pc) : State T := { s with pc := update s.pc t pc }

@[simps]
def setWait (w : Wait.State T Unit) : State T := { s with wait := w }

@[simps]
def setLock (holder : Option T) : State T := { s with lock := holder }

/-- The store of `count--` behind a load of `value`. -/
def took (value : ℕ) : State T :=
  { s with
    count := decrement value
    completed := s.completed + 1
    wrapped := s.wrapped || value == 0 }

/-- The store of `count++` behind a load of `value`. -/
def added (value : ℕ) : State T := { s with count := u64 (value + 1) }

/-- A step of the thread inside of a wait function. -/
def inWait (op : Wait.Op T Unit) : Option (State T) :=
  (Wait.step s.wait op).map s.setWait

/-- The thread stays at `here` until the wait function returns. -/
def returned (t : T) (here next : Pc) : State T :=
  s.goto t (if s.wait.pc t = .outside then next else here)

/-- `Core_SpinlockAcquire(&sem->lock)`. -/
def spinlockAcquire (t : T) (next : Option ℕ → Pc) : Option (State T) :=
  if s.lock.isSome then none
  else (s.inWait (.irql t (max (s.wait.thread t).irql dispatchIrql))).map fun s' =>
    (s'.setLock (some t)).goto t (next (s.wait.spinlockIrql t))

/-- `Core_SpinlockRelease(&sem->lock, oldIrql)`. -/
def spinlockRelease (t : T) (old : Option ℕ) (next : Pc) : Option (State T) :=
  (s.inWait (.irql t (old.getD (s.wait.thread t).irql))).map fun s' =>
    (s'.setLock none).goto t next

end State

/-- The next step of thread `t`. -/
def runThread (s : State T) (t : T) : Option (State T) :=
  match s.pc t with
  | .outside => none
  | .lock => s.spinlockAcquire t .check
  | .check old =>
    if s.count ≠ 0 then some (s.goto t (.load old)) else s.spinlockRelease t old .wait
  | .load old => some (s.goto t (.store old s.count))
  | .store old value => (s.took value).spinlockRelease t old .outside
  | .wait => (s.inWait (.waitOnObject t ())).map fun s => s.returned t .waiting .relock
  | .waiting => (s.inWait (.run t)).map fun s => s.returned t .waiting .relock
  | .relock => s.spinlockAcquire t .load
  | .increment => some (s.goto t (.incremented s.count))
  | .incremented value => some ((s.added value).goto t .signal)
  | .signal => (s.inWait (.signal t () false false)).map fun s => s.returned t .signalling .outside
  | .signalling => (s.inWait (.run t)).map fun s => s.returned t .signalling .outside

inductive Op (T : Type*) where
  | acquire (t : T)
  | tryAcquire (t : T)
  | release (t : T)
  /-- `t`, outside of these functions, changes its IRQL. -/
  | irql (t : T) (irql : ℕ)
  /-- `t` makes its next step. -/
  | run (t : T)

/-- `Core_SemaphoreAcquire` up to its first access to the semaphore. -/
def acquire (s : State T) (t : T) : State T :=
  if dispatchIrql < (s.wait.thread t).irql then s else s.goto t .lock

/-- One step.  The header has no flag, so that `CoreH_ClearSignaledState` at the end
of a release does nothing. -/
def step (s : State T) : Op T → Option (State T)
  | .acquire t => if s.pc t ≠ .outside then none else some (acquire s t)
  | .tryAcquire t =>
    if s.pc t ≠ .outside then none else if s.count = 0 then some s else some (acquire s t)
  | .release t =>
    if s.pc t ≠ .outside then none
    else some ({ s with begun := s.begun + 1 }.goto t .increment)
  | .irql t i => if s.pc t ≠ .outside then none else s.inWait (.irql t i)
  | .run t => runThread s t

/-! ### Units that are promised -/

/-- How often a thread in `Core_WaitOnObject` was signalled since it enqueued itself. -/
def signals (w : Wait.State T Unit) (t : T) : ℕ :=
  match w.pc t with
  | .recheck _ _ | .block _ _ | .asleep _ _ => (w.thread t).nSignaled
  | _ => 0

/-- The units thread `t` is about to take without looking at the count again, or is
about to pass on. -/
def owed (s : State T) (t : T) : ℕ :=
  match s.pc t with
  | .load _ | .store _ _ | .relock | .signal | .signalling => 1
  | .waiting => signals s.wait t
  | _ => 0

def promised [Fintype T] (s : State T) : ℕ := ∑ t, owed s t

/-- What a step must find: who looks at the count finds zero or more than was
promised; a store finds the value that was loaded; an increment does not overflow. -/
def fair [Fintype T] (s : State T) : Op T → Bool
  | .run t =>
    match s.pc t with
    | .check _ => s.count == 0 || decide (promised s < s.count)
    | .store _ value => s.count == value
    | .incremented value => s.count == value && decide (value + 1 < 2 ^ 64)
    | _ => true
  | _ => true

/-! ### Places -/

/-- A place in `Core_WaitOnObject`, and in `CoreH_SignalWaitingThreads` for one thread. -/
def InWaitOnObject : Wait.Pc Unit → Prop
  | .acquire _ _ | .check _ _ | .recheck _ _ | .block _ _ | .asleep _ _ => True
  | _ => False

def InSignal : Wait.Pc Unit → Prop
  | .signalAcquire _ all _ | .signalLoop _ all _ _ => all = false
  | _ => False

/-- The thread is in the wait function that the semaphore's code has called. -/
def Matched : Pc → Wait.Pc Unit → Prop
  | .waiting, w => InWaitOnObject w
  | .signalling, w => InSignal w
  | _, w => w = .outside

/-- `Core_SemaphoreAcquire` waits at the IRQL it was called at. -/
def Level : Pc → ℕ → Prop
  | .lock, i | .wait, i => i ≤ dispatchIrql
  | .check old, i => old.getD i ≤ dispatchIrql
  | _, _ => True

/-- The unit a release has not added yet. -/
def adding : Pc → ℕ
  | .increment | .incremented _ => 1
  | _ => 0

def unadded [Fintype T] (s : State T) : ℕ := ∑ t, adding (s.pc t)

section

variable {s s' : State T} {t u : T}

theorem signals_of_untouched {w w' : Wait.State T Unit} (h : Wait.Untouched w w' u) :
    signals w' u = signals w u := by
  rw [signals, signals, h.pc, h.thread]

omit [DecidableEq T] in
theorem owed_of_signals (hpc : s'.pc u = s.pc u) (h : signals s'.wait u = signals s.wait u) :
    owed s' u = owed s u := by
  rw [owed, owed, hpc, h]

theorem goto_other (s : State T) (pc : Pc) (hu : u ≠ t) : (s.goto t pc).pc u = s.pc u :=
  update_of_ne hu _ _

theorem goto_self (s : State T) (pc : Pc) : (s.goto t pc).pc t = pc := update_self ..

/-- A signal adds at most one to what its thread is owed. -/
theorem owed_of_removed {o : Unit} {boost : Bool} (hpc : s'.pc u = s.pc u)
    (h : Wait.Removed s.wait s'.wait u o boost) : owed s' u ≤ owed s u + 1 := by
  have hsig : signals s'.wait u ≤ signals s.wait u + 1 := by
    rw [signals, signals, h.pc, h.thread, Wait.Thread.signalled_nSignaled]
    split <;> omega
  rw [owed, owed, hpc]
  split <;> omega

/-- Nobody's signals change unless a signal finds a thread on the list. -/
theorem untouched_of_step {w w' : Wait.State T Unit} {op : Wait.Op T Unit}
    (hop : op.actor = some t) (hs : Wait.step w op = some w')
    (hpc : ∀ o all boost old, w.pc t = .signalLoop o all boost old → (w.obj ()).waiting = []) :
    ∀ u, u ≠ t → Wait.Untouched w w' u := by
  intro u hu
  have hne : op.actor ≠ some u := by
    rw [hop]
    exact fun e => hu (Option.some.inj e).symm
  rcases Wait.step_other hne hs with h | ⟨v, o, all, boost, old, n, rest, rfl, hv, hw, -, -⟩
  · exact h
  · obtain ⟨rfl⟩ := hop
    rw [hpc o all boost old hv] at hw
    cases hw

/-- A change of the IRQL outside of the wait functions. -/
theorem irql_step {w w' : Wait.State T Unit} {i : ℕ} (hs : Wait.step w (.irql t i) = some w') :
    w.pc t = .outside ∧ w'.pc t = .outside ∧ (w'.thread t).irql = i := by
  rw [Wait.step, Wait.stepWith] at hs
  split_ifs at hs with hpc
  rw [← Option.some.inj hs]
  refine ⟨not_not.mp hpc, not_not.mp hpc, ?_⟩
  rw [Wait.State.setIrql, Wait.State.setThread_thread, update_self]

omit [DecidableEq T] in
theorem noLoop {w : Wait.State T Unit} (hout : w.pc t = .outside) (o : Unit) (all boost : Bool)
    (old : Option ℕ) (e : w.pc t = .signalLoop o all boost old) : (w.obj ()).waiting = [] := by
  rw [hout] at e
  cases e

theorem inWait_spec {op : Wait.Op T Unit} {f : State T → State T}
    (hs : (s.inWait op).map f = some s') :
    ∃ w, Wait.step s.wait op = some w ∧ s' = f (s.setWait w) := by
  obtain ⟨s1, hs1, rfl⟩ := Option.map_eq_some_iff.mp hs
  obtain ⟨w, hw, rfl⟩ := Option.map_eq_some_iff.mp hs1
  exact ⟨w, hw, rfl⟩

theorem spinlockAcquire_spec {next : Option ℕ → Pc} (hs : s.spinlockAcquire t next = some s') :
    ∃ w, Wait.step s.wait (.irql t (max (s.wait.thread t).irql dispatchIrql)) = some w ∧
      s' = ((s.setWait w).setLock (some t)).goto t (next (s.wait.spinlockIrql t)) := by
  rw [State.spinlockAcquire] at hs
  split_ifs at hs
  exact inWait_spec hs

/-- A step in `Core_WaitOnObject`: the thread returns only when it was signalled. -/
theorem run_waitOnObject {w w' : Wait.State T Unit} (hinv : Wait.Inv w t)
    (hflag : (w.obj ()).useSignaled = false) (hpc : InWaitOnObject (w.pc t))
    (hs : Wait.step w (.run t) = some w') :
    (w'.pc t = .outside ∧ signals w t = 1) ∨
      (InWaitOnObject (w'.pc t) ∧ signals w' t = signals w t) := by
  have hoff : ∀ o, (w.obj o).isSignaled = false := by
    intro o
    rw [Wait.Waitable.isSignaled, show (w.obj o).useSignaled = false from hflag, Bool.and_false]
  have hstep := Wait.runThread_cases hs
  have hthread : ∀ (w1 : Wait.State T Unit) x, (w1.setThread t x).thread t = x :=
    fun w1 x => update_self ..
  rw [signals]
  generalize hp : w.pc t = p at hpc hstep
  cases hstep with
  | signaled o entry =>
    simp only [Wait.step, Wait.stepWith, Wait.runThread, hp, hoff, Bool.false_eq_true, if_false,
      Option.ite_none_left_eq_some, Option.some.injEq] at hs
    have hpcs := congrFun (congrArg Wait.State.pc hs.2) t
    simp at hpcs
  | back o entry hon => exact absurd ((hoff o).symm.trans hon) Bool.false_ne_true
  | take | stay =>
    refine .inr ?_
    rw [signals, Wait.State.goto_pc, update_self]
    exact ⟨trivial, rfl⟩
  | enqueue =>
    refine .inr ?_
    rw [signals, Wait.State.goto_pc, update_self]
    exact ⟨trivial, congrArg Wait.Thread.nSignaled (hthread w _)⟩
  | block =>
    refine .inr ?_
    rw [signals, Wait.State.goto_pc, update_self]
    exact ⟨trivial, by rw [Wait.State.goto_thread, hthread]⟩
  | wake o entry hrun =>
    refine .inl ⟨update_self .., ?_⟩
    -- its node is off the list, so its one signal has come
    obtain ⟨m, -, ha⟩ := hinv.account
    rw [hp] at ha
    obtain ⟨-, hsum, hnil⟩ := ha
    rw [hnil hrun, List.length_nil] at hsum
    exact hsum
  | _ => exact hpc.elim

/-- A step in `CoreH_SignalWaitingThreads` for one thread. -/
theorem run_signal {w w' : Wait.State T Unit} (hpc : InSignal (w.pc t))
    (hs : Wait.step w (.run t) = some w') :
    ((∀ o all boost old, w.pc t ≠ .signalLoop o all boost old) ∧ InSignal (w'.pc t)) ∨
      ((∃ o all boost old, w.pc t = .signalLoop o all boost old) ∧ w'.pc t = .outside) := by
  have hstep := Wait.runThread_cases hs
  generalize w.pc t = p at hpc hstep
  cases hstep with
  | takeSignal =>
    refine .inl ⟨nofun, ?_⟩
    rw [Wait.State.goto_pc, update_self]
    exact hpc
  | drained o all boost old => exact .inr ⟨⟨o, all, boost, old, rfl⟩, update_self ..⟩
  | removeOne o boost old => exact .inr ⟨⟨o, false, boost, old, rfl⟩, update_self ..⟩
  | removeNext => cases hpc
  | _ => exact hpc.elim

end

variable [Fintype T] {s s' x : State T} {t u : T} {init : ℕ} {pc : Pc}

/-! ### The invariant -/

structure Inv (init : ℕ) (s : State T) : Prop where
  wait : ∀ t, Wait.Inv s.wait t
  flag : (s.wait.obj ()).useSignaled = false
  place : ∀ t, Matched (s.pc t) (s.wait.pc t)
  level : ∀ t, Level (s.pc t) (s.wait.thread t).irql
  promised : promised s ≤ s.count
  bound : s.count < 2 ^ 64
  balance : s.count + s.completed + unadded s = init + s.begun
  wrapped : s.wrapped = false

/-- A step of `t` keeps the invariant of the others, whose signals it may change. -/
theorem Inv.of_step (h : Inv init s) (hwait : ∀ u, Wait.Inv x.wait u)
    (hflag : (x.wait.obj ()).useSignaled = false) (hpc : x.pc = s.pc)
    (hwpc : ∀ u, u ≠ t → x.wait.pc u = s.wait.pc u)
    (hirql : ∀ u, u ≠ t → (x.wait.thread u).irql = (s.wait.thread u).irql)
    (hplace : Matched pc (x.wait.pc t)) (hlevel : Level pc (x.wait.thread t).irql)
    (hpromised : Semaphore.promised (x.goto t pc) ≤ x.count) (hbound : x.count < 2 ^ 64)
    (hbalance : x.count + x.completed + adding pc + s.begun =
      s.count + s.completed + adding (s.pc t) + x.begun)
    (hwrapped : x.wrapped = false) : Inv init (x.goto t pc) where
  wait := hwait
  flag := hflag
  place u := by
    by_cases hu : u = t
    · rw [hu, goto_self]
      exact hplace
    · rw [goto_other x pc hu, hpc, State.goto_wait, hwpc u hu]
      exact h.place u
  level u := by
    by_cases hu : u = t
    · rw [hu, goto_self]
      exact hlevel
    · rw [goto_other x pc hu, hpc, State.goto_wait, hirql u hu]
      exact h.level u
  promised := hpromised
  bound := hbound
  balance := by
    have hsum := Run.sum_of_eq_off (f := fun u => adding ((x.goto t pc).pc u))
      (g := fun u => adding (s.pc u)) t fun u hu => by rw [goto_other x pc hu, hpc]
    have hold := h.balance
    rw [goto_self] at hsum
    simp only [unadded, State.goto_count, State.goto_completed, State.goto_begun] at hold hsum ⊢
    omega
  wrapped := hwrapped

/-- The wait functions never find the header signalled. -/
theorem Inv.waitInv (h : Inv init s) {op : Wait.Op T Unit} {w : Wait.State T Unit}
    (hs : Wait.step s.wait op = some w) : ∀ u, Wait.Inv w u := by
  intro u
  refine (h.wait u).step (fun _ o entry _ hsig => ?_) hs
  rw [Wait.Waitable.isSignaled, h.flag, Bool.and_false] at hsig
  cases hsig

theorem Inv.waitFlag (h : Inv init s) {op : Wait.Op T Unit} {w : Wait.State T Unit}
    (hs : Wait.step s.wait op = some w) : (w.obj ()).useSignaled = false :=
  (Wait.step_flags hs ()).1.trans h.flag

/-! ### Steps -/

section

variable (h : Inv init s) (hpc : x.pc = s.pc) (hplace : Matched pc (x.wait.pc t))
  (hlevel : Level pc (x.wait.thread t).irql)
  (howed : Semaphore.promised s + owed (x.goto t pc) t ≤ x.count + owed s t)
  (hbound : x.count < 2 ^ 64)
  (hbalance : x.count + x.completed + adding pc + s.begun =
    s.count + s.completed + adding (s.pc t) + x.begun)
  (hwrapped : x.wrapped = false)
include h hpc hplace hlevel howed hbound hbalance hwrapped

/-- A step that does not touch the other threads. -/
theorem Inv.of_quiet (hwait : ∀ u, Wait.Inv x.wait u) (hflag : (x.wait.obj ()).useSignaled = false)
    (hquiet : ∀ u, u ≠ t → Wait.Untouched s.wait x.wait u) : Inv init (x.goto t pc) := by
  have hsum := Run.sum_of_eq_off (f := owed (x.goto t pc)) (g := owed s) t fun u hu =>
    owed_of_signals ((goto_other x pc hu).trans (congrFun hpc u))
      (signals_of_untouched (hquiet u hu))
  refine h.of_step hwait hflag hpc (fun u hu => (hquiet u hu).pc)
    (fun u hu => by rw [(hquiet u hu).thread]) hplace hlevel ?_ hbound hbalance hwrapped
  simp only [Semaphore.promised] at howed ⊢
  omega

/-- A step of `t` at the semaphore itself, or in a wait function that does not find
a thread to wake. -/
theorem Inv.waitStep {op : Wait.Op T Unit} (hs : Wait.step s.wait op = some x.wait)
    (hop : op.actor = some t)
    (hlist : ∀ o all boost old, s.wait.pc t = .signalLoop o all boost old →
      (s.wait.obj ()).waiting = []) : Inv init (x.goto t pc) :=
  h.of_quiet hpc hplace hlevel howed hbound hbalance hwrapped (h.waitInv hs) (h.waitFlag hs)
    (untouched_of_step hop hs hlist)

end

/-- `t` goes on without a call. -/
theorem Inv.goto (h : Inv init s) (hplace : Matched pc (s.wait.pc t))
    (hlevel : Level pc (s.wait.thread t).irql)
    (howed : Semaphore.promised s + owed (s.goto t pc) t ≤ s.count + owed s t)
    (hadd : adding pc = adding (s.pc t)) : Inv init (s.goto t pc) :=
  h.of_quiet rfl hplace hlevel howed h.bound (by rw [hadd]) h.wrapped h.wait h.flag
    fun u _ => .refl _ u

/-- The places at the semaphore's lock. -/
theorem Inv.irql (h : Inv init s) {i : ℕ} {w : Wait.State T Unit} {holder : Option T}
    (hs : Wait.step s.wait (.irql t i) = some w) (hplace : Matched pc .outside)
    (hlevel : Level pc i)
    (howed : owed (((s.setWait w).setLock holder).goto t pc) t ≤ owed s t)
    (hadd : adding pc = adding (s.pc t)) :
    Inv init (((s.setWait w).setLock holder).goto t pc) := by
  obtain ⟨hout, hout', rfl⟩ := irql_step hs
  refine h.waitStep (x := (s.setWait w).setLock holder) rfl ?_ hlevel ?_ h.bound
    (by rw [hadd]; rfl) h.wrapped hs rfl (noLoop hout)
  · rwa [show ((s.setWait w).setLock holder).wait.pc t = .outside from hout']
  · exact Nat.add_le_add h.promised howed

section

variable (h : Inv init s)
include h

theorem Inv.owed_le (t : T) : owed s t ≤ s.count :=
  (Finset.single_le_sum (fun u _ => Nat.zero_le (owed s u)) (Finset.mem_univ t)).trans h.promised

/-- The store of a decrement. -/
theorem Inv.store {old : Option ℕ} {value : ℕ} (hpc : s.pc t = .store old value)
    (hvalue : s.count = value) (hs : (s.took value).spinlockRelease t old .outside = some s') :
    Inv init s' := by
  have howed : owed s t = 1 := by rw [owed, hpc]
  have hpos : 1 ≤ value := by
    rw [← hvalue, ← howed]
    exact h.owed_le t
  have hbound := h.bound
  have hpromised := h.promised
  have hcount : (s.took value).count = value - 1 := if_neg (by omega)
  obtain ⟨w, hw, rfl⟩ := inWait_spec hs
  obtain ⟨hout, hout', -⟩ := irql_step hw
  refine h.waitStep (x := ((s.took value).setWait w).setLock none) rfl hout' trivial ?_ ?_ ?_ ?_
    hw rfl (noLoop hout)
  · rw [owed, goto_self, howed]
    show Semaphore.promised s + 0 ≤ (s.took value).count + 1
    omega
  · show (s.took value).count < 2 ^ 64
    omega
  · rw [hpc]
    show (s.took value).count + (s.completed + 1) + 0 + s.begun =
      s.count + s.completed + 0 + s.begun
    omega
  · show (s.wrapped || value == 0) = false
    rw [h.wrapped, Bool.false_or, beq_eq_false_iff_ne]
    omega

/-- The store of an increment. -/
theorem Inv.incremented {value : ℕ} (hpc : s.pc t = .incremented value)
    (hvalue : s.count = value) (hlt : value + 1 < 2 ^ 64) :
    Inv init ((s.added value).goto t .signal) := by
  have hcount : (s.added value).count = s.count + 1 := by
    rw [hvalue]
    exact u64_of_lt hlt
  have hplace := h.place t
  rw [hpc] at hplace
  refine h.of_quiet (x := s.added value) rfl hplace trivial ?_ ?_ ?_ h.wrapped h.wait h.flag
    fun u _ => .refl _ u
  · have hpromised := h.promised
    rw [owed, goto_self, hcount]
    show Semaphore.promised s + 1 ≤ s.count + 1 + owed s t
    omega
  · rw [hcount, hvalue]
    exact hlt
  · rw [hcount, hpc]
    show s.count + 1 + s.completed + 0 + s.begun = s.count + s.completed + 1 + s.begun
    omega

/-- A wait function goes on, or returns. -/
theorem Inv.returned {op : Wait.Op T Unit} {w : Wait.State T Unit} {here next : Pc}
    (hs : Wait.step s.wait op = some w) (hop : op.actor = some t)
    (hlist : ∀ o all boost old, s.wait.pc t = .signalLoop o all boost old →
      (s.wait.obj ()).waiting = [])
    (hadd : adding (s.pc t) = 0) (hhere : adding here = 0) (hnext : adding next = 0)
    (hplace : w.pc t ≠ .outside → Matched here (w.pc t)) (hplace' : Matched next .outside)
    (hlevel : Level here (w.thread t).irql) (hlevel' : Level next (w.thread t).irql)
    (howed : owed ((s.setWait w).returned t here next) t ≤ owed s t) :
    Inv init ((s.setWait w).returned t here next) := by
  have hcases : ∃ pc, (s.setWait w).returned t here next = (s.setWait w).goto t pc ∧
      adding pc = 0 ∧ Matched pc (w.pc t) ∧ Level pc (w.thread t).irql := by
    rw [State.returned]
    by_cases hout : w.pc t = .outside
    · exact ⟨next, by rw [if_pos (show (s.setWait w).wait.pc t = .outside from hout)], hnext,
        hout ▸ hplace', hlevel'⟩
    · exact ⟨here, by rw [if_neg (show ¬ (s.setWait w).wait.pc t = .outside from hout)], hhere,
        hplace hout, hlevel⟩
  obtain ⟨pc, he, hzero, hp, hl⟩ := hcases
  rw [he] at howed ⊢
  exact h.waitStep (x := s.setWait w) rfl hp hl (Nat.add_le_add h.promised howed) h.bound
    (by rw [hzero, hadd]; rfl) h.wrapped hs hop hlist

/-- The call of `Core_WaitOnObject`. -/
theorem Inv.wait_call {w : Wait.State T Unit} (hpc : s.pc t = .wait)
    (hs : Wait.step s.wait (.waitOnObject t ()) = some w) :
    Inv init ((s.setWait w).returned t .waiting .relock) := by
  have hlevel := h.level t
  rw [hpc] at hlevel
  have hplace : s.wait.pc t = .outside := by
    have hp := h.place t
    rwa [hpc] at hp
  have hacquire : w.pc t = .acquire () (s.wait.thread t).irql := by
    rw [Wait.step, Wait.stepWith, if_neg (not_not.mpr hplace), if_neg (Nat.not_lt.mpr hlevel)] at hs
    rw [← Option.some.inj hs]
    exact update_self ..
  refine h.returned hs rfl (noLoop hplace) (by rw [hpc]; rfl) rfl rfl ?_ rfl trivial trivial ?_
  · intro _
    rw [hacquire]
    trivial
  · have hwait : (s.setWait w).returned t .waiting .relock = (s.setWait w).goto t .waiting := by
      rw [State.returned, if_neg]
      rw [State.setWait_wait, hacquire]
      exact fun e => by cases e
    rw [hwait, owed, goto_self]
    show signals w t ≤ _
    rw [signals, hacquire]
    exact Nat.zero_le _

/-- A step in `Core_WaitOnObject`: who returns takes the unit of the signal along. -/
theorem Inv.waiting {w : Wait.State T Unit} (hpc : s.pc t = .waiting)
    (hs : Wait.step s.wait (.run t) = some w) :
    Inv init ((s.setWait w).returned t .waiting .relock) := by
  have hplace := h.place t
  rw [hpc] at hplace
  have howed : owed s t = signals s.wait t := by rw [owed, hpc]
  refine h.returned hs rfl ?_ (by rw [hpc]; rfl) rfl rfl ?_ rfl trivial trivial ?_
  · intro o all boost old e
    rw [Matched, e] at hplace
    exact hplace.elim
  · intro hne
    rcases run_waitOnObject (h.wait t) h.flag hplace hs with ⟨hout, -⟩ | ⟨hin, -⟩
    · exact absurd hout hne
    · exact hin
  · rw [howed, State.returned, owed, goto_self]
    rcases run_waitOnObject (h.wait t) h.flag hplace hs with ⟨hout, hone⟩ | ⟨hin, hsame⟩
    · rw [if_pos (show (s.setWait w).wait.pc t = .outside from hout), hone]
    · have hne : ¬ (s.setWait w).wait.pc t = .outside := by
        intro e
        rw [show w.pc t = .outside from e] at hin
        exact hin
      rw [if_neg hne]
      exact hsame.le

/-- The call of `CoreH_SignalWaitingThreads`. -/
theorem Inv.signal_call {w : Wait.State T Unit} (hpc : s.pc t = .signal)
    (hs : Wait.step s.wait (.signal t () false false) = some w) :
    Inv init ((s.setWait w).returned t .signalling .outside) := by
  have hplace : s.wait.pc t = .outside := by
    have hp := h.place t
    rwa [hpc] at hp
  have howed : owed s t = 1 := by rw [owed, hpc]
  refine h.returned hs rfl (noLoop hplace) (by rw [hpc]; rfl) rfl rfl ?_ rfl trivial trivial ?_
  · intro hne
    rw [Wait.step, Wait.stepWith, if_neg (not_not.mpr hplace)] at hs
    split_ifs at hs
    · -- above `IRQL_DISPATCH` the call returns at once
      refine absurd ?_ hne
      rw [← Option.some.inj hs]
      exact (Wait.Untouched.raiseSignaled (t := t) s.wait ()).pc.trans hplace
    · rw [← Option.some.inj hs]
      rw [Wait.State.goto_pc, update_self]
      rfl
  · rw [howed, State.returned, owed, goto_self]
    split_ifs
    · exact Nat.zero_le 1
    · exact le_rfl

end

/-- What a signal takes from a release it passes on to the thread it wakes. -/
theorem promised_of_signal {v : T} (hvt : v ≠ t) (ht : owed s t = 1) (ht' : owed s' t = 0)
    (hv : owed s' v ≤ owed s v + 1) (hothers : ∀ u, u ≠ t → u ≠ v → owed s' u = owed s u) :
    promised s' ≤ promised s := by
  have h1 := Run.sum_of_eq_off (f := update (owed s) v (owed s' v)) (g := owed s) v
    fun u hu => update_of_ne hu _ _
  have h2 := Run.sum_of_eq_off (f := owed s') (g := update (owed s) v (owed s' v)) t <| by
    intro u hu
    by_cases huv : u = v
    · rw [huv, update_self]
    · rw [update_of_ne huv]
      exact hothers u hu huv
  rw [update_self] at h1
  rw [update_of_ne hvt.symm, ht, ht'] at h2
  simp only [promised]
  omega

/-- A step in `CoreH_SignalWaitingThreads`. -/
theorem Inv.signalling (h : Inv init s) {w : Wait.State T Unit} (hpc : s.pc t = .signalling)
    (hs : Wait.step s.wait (.run t) = some w) :
    Inv init ((s.setWait w).returned t .signalling .outside) := by
  have hplace := h.place t
  rw [hpc] at hplace
  have howed : owed s t = 1 := by rw [owed, hpc]
  have hrun := run_signal hplace hs
  by_cases hquiet : ∀ o all boost old, s.wait.pc t = .signalLoop o all boost old →
      (s.wait.obj ()).waiting = []
  · refine h.returned hs rfl hquiet (by rw [hpc]; rfl) rfl rfl ?_ rfl trivial trivial ?_
    · intro hne
      exact (hrun.resolve_right fun hf => hne hf.2).2
    · rw [howed, State.returned, owed, goto_self]
      split_ifs
      · exact Nat.zero_le 1
      · exact le_rfl
  · -- the first thread of the list is woken
    push Not at hquiet
    obtain ⟨o, all, boost, old, hloop, hlist⟩ := hquiet
    obtain ⟨-, hout⟩ := hrun.resolve_left fun hf => hf.1 o all boost old hloop
    have hreturned : (s.setWait w).returned t .signalling .outside =
        (s.setWait w).goto t .outside := by
      rw [State.returned, if_pos (show (s.setWait w).wait.pc t = .outside from hout)]
    rw [hreturned]
    have hstep : ∀ u, u ≠ t → Wait.Untouched s.wait w u ∨ ∃ boost n rest,
        (s.wait.obj ()).waiting = n :: rest ∧ n.thread = u ∧ Wait.Removed s.wait w u () boost := by
      intro u hu
      have hne : (Wait.Op.run t : Wait.Op T Unit).actor ≠ some u := fun e =>
        hu (Option.some.inj e).symm
      rcases Wait.step_other hne hs with hun | ⟨_, _, _, b, _, n, rest, -, -, hw, hn, hr⟩
      · exact .inl hun
      · exact .inr ⟨b, n, rest, hw, hn, hr⟩
    obtain ⟨n, rest, hwaiting⟩ := List.exists_cons_of_ne_nil hlist
    have hnt : n.thread ≠ t := by
      obtain ⟨m, hm, ha⟩ := (h.wait t).account
      rw [hloop] at ha
      exact hm.eq_nil_iff.mp ha () n (by rw [hwaiting]; exact List.mem_cons_self)
    refine h.of_step (x := s.setWait w) (h.waitInv hs) (h.waitFlag hs) rfl ?_ ?_ hout trivial ?_
      h.bound (by rw [hpc]; rfl) h.wrapped
    · intro u hu
      rcases hstep u hu with hun | ⟨b, -, -, -, -, hr⟩
      · exact hun.pc
      · exact hr.pc
    · intro u hu
      rcases hstep u hu with hun | ⟨b, -, -, -, -, hr⟩
      · exact congrArg Wait.Thread.irql hun.thread
      · exact (congrArg Wait.Thread.irql hr.thread).trans (Wait.Thread.signalled_irql _ _)
    · refine (promised_of_signal hnt howed ?_ ?_ fun u hu huv => ?_).trans h.promised
      · rw [owed, goto_self]
      · rcases hstep n.thread hnt with hun | ⟨b, -, -, -, -, hr⟩
        · have hsame : owed ((s.setWait w).goto t .outside) n.thread = owed s n.thread :=
            owed_of_signals (goto_other _ _ hnt) (signals_of_untouched hun)
          exact hsame.le.trans (Nat.le_succ _)
        · exact owed_of_removed (goto_other _ _ hnt) hr
      · rcases hstep u hu with hun | ⟨b, n', rest', hw, hn', -⟩
        · exact owed_of_signals (goto_other _ _ hu) (signals_of_untouched hun)
        · rw [hwaiting] at hw
          exact absurd (hn'.symm.trans (by rw [(List.cons.inj hw).1])) huv

theorem Inv.runThread (h : Inv init s) (hok : fair s (.run t) = true)
    (hs : runThread s t = some s') : Inv init s' := by
  have hplace := h.place t
  have hlevel := h.level t
  have hpromised := h.promised
  rw [Semaphore.runThread] at hs
  rw [fair] at hok
  generalize hpc : s.pc t = p at hs hok hplace hlevel
  cases p with
  | outside => cases hs
  | lock =>
    obtain ⟨w, hw, rfl⟩ := spinlockAcquire_spec hs
    refine h.irql hw rfl ?_ ?_ (by rw [hpc]; rfl)
    · rw [Wait.State.spinlockIrql, max_eq_right hlevel]
      split_ifs
      · exact hlevel
      · exact le_rfl
    · rw [owed, goto_self]
      exact Nat.zero_le _
  | check old =>
    have hzero : owed s t = 0 := by rw [owed, hpc]
    dsimp only at hs
    split_ifs at hs with hcount
    · have hmore : Semaphore.promised s < s.count := by simpa [hcount] using hok
      refine Option.some.inj hs ▸ h.goto hplace trivial ?_ (by rw [hpc]; rfl)
      rw [hzero, owed, goto_self]
      exact hmore
    · obtain ⟨w, hw, rfl⟩ := inWait_spec hs
      refine h.irql hw rfl hlevel ?_ (by rw [hpc]; rfl)
      rw [owed, goto_self]
      exact Nat.zero_le _
  | load old =>
    refine Option.some.inj hs ▸ h.goto hplace trivial ?_ (by rw [hpc]; rfl)
    rw [owed, goto_self, owed, hpc]
    exact Nat.add_le_add_right hpromised 1
  | store old value => exact h.store hpc (by simpa using hok) hs
  | wait =>
    obtain ⟨w, hw, rfl⟩ := inWait_spec hs
    exact h.wait_call hpc hw
  | waiting =>
    obtain ⟨w, hw, rfl⟩ := inWait_spec hs
    exact h.waiting hpc hw
  | relock =>
    obtain ⟨w, hw, rfl⟩ := spinlockAcquire_spec hs
    refine h.irql hw rfl trivial ?_ (by rw [hpc]; rfl)
    rw [owed, goto_self, owed, hpc]
  | increment =>
    refine Option.some.inj hs ▸ h.goto hplace trivial ?_ (by rw [hpc]; rfl)
    rw [owed, goto_self, owed, hpc]
    exact hpromised
  | incremented value =>
    simp only [Bool.and_eq_true, beq_iff_eq, decide_eq_true_eq] at hok
    exact Option.some.inj hs ▸ h.incremented hpc hok.1 hok.2
  | signal =>
    obtain ⟨w, hw, rfl⟩ := inWait_spec hs
    exact h.signal_call hpc hw
  | signalling =>
    obtain ⟨w, hw, rfl⟩ := inWait_spec hs
    exact h.signalling hpc hw

theorem Inv.acquire (h : Inv init s) (hpc : s.pc t = .outside) : Inv init (acquire s t) := by
  have hplace := h.place t
  rw [hpc] at hplace
  rw [Semaphore.acquire]
  split_ifs with hirql
  · exact h
  · refine h.goto hplace (Nat.not_lt.mp hirql) ?_ (by rw [hpc]; rfl)
    rw [owed, goto_self]
    exact Nat.add_le_add h.promised (Nat.zero_le _)

theorem Inv.release (h : Inv init s) (hpc : s.pc t = .outside) :
    Inv init ({ s with begun := s.begun + 1 }.goto t .increment) := by
  have hplace := h.place t
  rw [hpc] at hplace
  refine h.of_quiet (x := { s with begun := s.begun + 1 }) rfl hplace trivial ?_ h.bound ?_ h.wrapped
    h.wait h.flag fun u _ => .refl _ u
  · rw [owed, goto_self]
    exact Nat.add_le_add h.promised (Nat.zero_le _)
  · rw [hpc]
    show s.count + s.completed + 1 + s.begun = s.count + s.completed + 0 + (s.begun + 1)
    omega

theorem Inv.step {op : Op T} (h : Inv init s) (hok : fair s op = true)
    (hs : step s op = some s') : Inv init s' := by
  cases op with
  | acquire t =>
    rw [Semaphore.step] at hs
    split_ifs at hs with hpc
    exact Option.some.inj hs ▸ h.acquire (not_not.mp hpc)
  | tryAcquire t =>
    rw [Semaphore.step] at hs
    split_ifs at hs with hpc hcount
    · exact Option.some.inj hs ▸ h
    · exact Option.some.inj hs ▸ h.acquire (not_not.mp hpc)
  | release t =>
    rw [Semaphore.step] at hs
    split_ifs at hs with hpc
    exact Option.some.inj hs ▸ h.release (not_not.mp hpc)
  | irql t i =>
    rw [Semaphore.step] at hs
    split_ifs at hs with hpc
    obtain ⟨w, hw, rfl⟩ := Option.map_eq_some_iff.mp hs
    rw [not_not] at hpc
    have hsame : s.setWait w = ((s.setWait w).setLock s.lock).goto t .outside := by
      have hupd : update s.pc t .outside = s.pc := by
        rw [← hpc, update_eq_self]
      simp [State.setLock, State.goto, State.setWait, hupd]
    rw [hsame]
    refine h.irql hw rfl trivial ?_ (by rw [hpc])
    rw [owed, goto_self]
    exact Nat.zero_le _
  | run t => exact h.runThread hok hs

/-! ### Runs -/

/-- A semaphore nobody uses yet. -/
structure Fresh (s : State T) : Prop where
  wait : Wait.Fresh s.wait
  flag : (s.wait.obj ()).useSignaled = false
  pc : ∀ t, s.pc t = .outside
  bound : s.count < 2 ^ 64
  completed : s.completed = 0
  begun : s.begun = 0
  wrapped : s.wrapped = false

theorem Fresh.inv (h : Fresh s) : Inv s.count s where
  wait := h.wait.inv
  flag := h.flag
  place t := by
    rw [h.pc t]
    exact h.wait.pc t
  level t := by
    rw [h.pc t]
    trivial
  promised := by
    have hzero : promised s = 0 := Finset.sum_eq_zero fun t _ => by rw [owed, h.pc t]
    rw [hzero]
    exact Nat.zero_le _
  bound := h.bound
  balance := by
    have hzero : unadded s = 0 := Finset.sum_eq_zero fun t _ => by rw [h.pc t]; rfl
    rw [hzero, h.completed, h.begun]
  wrapped := h.wrapped

/-- In every run in which who looks at the count finds zero or more than was
promised, no store overwrites another and no increment overflows, no decrement
wraps, and at most as many acquires have completed as there were units at first
and releases begun. -/
theorem semaphore_counts {s0 : State T} {ops : List (Op T)} (hfresh : Fresh s0)
    (hok : Run.Meets (fun s op => fair s op = true) Semaphore.step s0 ops)
    (hrun : ops.foldlM Semaphore.step s0 = some s) :
    s.wrapped = false ∧ s.completed ≤ s0.count + s.begun := by
  have h : Inv s0.count s :=
    Run.preserves (fun _ _ _ hi hf hs => hi.step hf hs) hfresh.inv hok hrun
  have hbalance := h.balance
  exact ⟨h.wrapped, by omega⟩

/-- Three threads that run, and a semaphore with `count` units. -/
def threeThreads (count : ℕ) : State (Fin 3) where
  wait :=
    { cpuCount := 2
      obj := fun _ => ⟨[], none, true, false⟩
      thread := fun _ => ⟨⟨.running, 2, false, false, 0, 3, some 0, 1⟩, 0, 0, 0⟩
      pc := fun _ => .outside
      readied := fun _ => 0
      lockNode := fun _ => none }
  count := count
  lock := none
  pc _ := .outside
  completed := 0
  begun := 0
  wrapped := false

theorem threeThreads_fresh {count : ℕ} (h : count < 2 ^ 64) : Fresh (threeThreads count) where
  wait :=
    { obj := fun _ => ⟨rfl, rfl⟩
      pc := fun _ => rfl
      lockNode := fun _ => rfl
      able := fun _ => ⟨Nat.one_ne_zero, show 2 ≤ 4 by omega,
        show (Wait.someCpu 2 ⟨.running, 2, false, false, 0, 3, some 0, 1⟩).isSome = true by decide⟩
      awake := fun _ => ⟨rfl, fun h => by cases h⟩ }
  flag := rfl
  pc _ := rfl
  bound := h
  completed := rfl
  begun := rfl
  wrapped := rfl

/-- Thread 0 finds no unit and blocks. -/
def waits : List (Op (Fin 3)) :=
  [.acquire 0, .run 0, .run 0, .run 0, .run 0, .run 0, .run 0, .run 0]

/-- Thread 1 releases a unit and wakes thread 0. -/
def wakes : List (Op (Fin 3)) :=
  [.release 1, .run 1, .run 1, .run 1, .run 1, .run 1]

/-- Thread 0 returns from its wait and takes a unit. -/
def takes : List (Op (Fin 3)) := [.run 0, .run 0, .run 0, .run 0]

theorem semaphore_counts_threeThreads :
    ∃ s, (waits ++ wakes ++ takes).foldlM Semaphore.step (threeThreads 0) = some s ∧
      s.wrapped = false ∧ s.completed ≤ 0 + s.begun := by
  have hsome : ((waits ++ wakes ++ takes).foldlM Semaphore.step (threeThreads 0)).isSome = true := by
    decide +kernel
  obtain ⟨s, hrun⟩ := Option.isSome_iff_exists.mp hsome
  exact ⟨s, hrun, semaphore_counts (threeThreads_fresh (by norm_num)) (by decide +kernel) hrun⟩

/-- Thread 2 comes and takes a unit. -/
def barges : List (Op (Fin 3)) := [.acquire 2, .run 2, .run 2, .run 2, .run 2]

/-- Thread 2 takes the unit thread 0 was woken for: two acquires have completed with
one release, and the count has wrapped. -/
theorem barging_wraps :
    Fresh (threeThreads 0) ∧
      ((waits ++ wakes ++ barges ++ takes).foldlM
        Semaphore.step (threeThreads 0)).map
        (fun s => (s.count, s.wrapped, s.completed, s.begun)) = some (2 ^ 64 - 1, true, 2, 1) :=
  ⟨threeThreads_fresh (by norm_num), by decide +kernel⟩

end Obos.Semaphore
