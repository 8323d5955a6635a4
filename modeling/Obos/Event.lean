/-
Events (`locks/event.c`) on top of the wait functions.

An event is a waitable header with a flag `signaled` of its own.  The calls on
events follow one another: in a call its thread makes the steps of `Obos.Wait`
one after the other until it has returned or sleeps; a thread that was readied
returns from its wait later.

`CoreH_SignalWaitingThreads` sets the header's flag, and only `Core_EventReset`
clears it.  So a set lets every later wait through, whatever the type of the
event, and a pulse, which clears only the event's own flag, does too.

`through` is a history variable: how many waits on the event got through since it
was last set or pulsed.

* `settle_through` — how many waits the rest of a call lets through, from the place
  of its thread,
* `events_run` — the calls of a run do what they shall when none is a pulse, and no
  thread waits on a synchronization event that is signaled: its wait would not
  consume the set,
* `set_lets_two_through` — a run in which a set lets two waits through, and a pulse
  leaves a thread waiting and the event signaled.
-/
import Obos.WakeUps
import Obos.Lib.Run

namespace Obos.Events

open Function
open Option (bind_eq_some_iff bind_some map_eq_some_iff)
open Wait (dispatchIrql Node Pc)

variable {T E : Type*} [DecidableEq T] [DecidableEq E]

/-! ### The model -/

/-- `event_type`. -/
inductive EventType where
  | notification
  | sync
  deriving DecidableEq, Repr

/-- The events and the threads that use them. -/
structure State (T E : Type*) where
  /-- The headers of the events are the objects. -/
  wait : Wait.State T E
  signaled : E → Bool
  type : E → EventType
  through : E → ℕ

/-- The thread has returned, or it sleeps. -/
def atRest (w : Wait.State T E) (t : T) : Bool :=
  match w.pc t with
  | .outside => true
  | .asleep _ _ => (w.thread t).sched.status = .blocked
  | .asleepAll => (w.thread t).sched.status = .blocked
  | _ => false

/-- The waits on `e`, whose header is `x`, that the step of a thread at `p` lets
through: its own, or that of a thread whose node it takes off the list. -/
def letsThrough (p : Pc E) (x : Wait.Waitable T) (e : E) : ℕ :=
  match p with
  | .check o _ => if o = e ∧ x.isSignaled then 1 else 0
  | .recheck o _ => if o = e ∧ x.isSignaled then 1 else 0
  | .checkNext o _ _ => if o = e ∧ x.isSignaled then 1 else 0
  | .signalLoop o _ _ _ => if o = e ∧ x.waiting ≠ [] then 1 else 0
  | _ => 0

/-- The steps of `t` until it is at rest, with the waits they let through. -/
def settle (t : T) : ℕ → Wait.State T E → Option (Wait.State T E × (E → ℕ))
  | 0, _ => none
  | fuel + 1, w =>
    if atRest w t then some (w, fun _ => 0)
    else (Wait.runThread w t).bind fun w' =>
      (settle t fuel w').map fun r => (r.1, fun e => letsThrough (w.pc t) (w.obj e) e + r.2 e)

/-- A call of a wait function. -/
def call (fuel : ℕ) (w : Wait.State T E) (t : T) (op : Wait.Op T E) :
    Option (Wait.State T E × (E → ℕ)) :=
  (Wait.step w op).bind (settle t fuel)

/-- `Core_EventSet`. -/
def eventSet (fuel : ℕ) (s : State T E) (t : T) (e : E) (boost : Bool) : Option (State T E) :=
  (call fuel s.wait t (.signal t e (s.type e != .sync) boost)).map fun r =>
    { s with
      wait := r.1
      signaled := update s.signaled e true
      through := fun x => if x = e then r.2 x else s.through x + r.2 x }

/-- `Core_EventPulse`, which signals one thread whatever the type of the event. -/
def eventPulse (fuel : ℕ) (s : State T E) (t : T) (e : E) (boost : Bool) : Option (State T E) :=
  (call fuel (s.wait.setIrql t dispatchIrql) t (.signal t e false boost)).map fun r =>
    { s with
      wait := r.1.setIrql t (s.wait.thread t).irql
      signaled := update s.signaled e false
      through := fun x => if x = e then r.2 x else s.through x + r.2 x }

/-- `Core_EventReset`. -/
def eventReset (s : State T E) (e : E) : Option (State T E) :=
  (Wait.step s.wait (.clear e)).map fun w =>
    { s with wait := w, signaled := update s.signaled e false }

/-- `Core_WaitOnObject` and `Core_WaitOnObjects` on events. -/
def eventWait (s : State T E) (r : Option (Wait.State T E × (E → ℕ))) :
    Option (State T E) :=
  r.map fun r => { s with wait := r.1, through := fun x => s.through x + r.2 x }

/-- The return from a wait of a thread that was readied. -/
def resume (s : State T E) (t : T) : Option (State T E) :=
  match s.wait.pc t with
  | .asleep _ _ => (Wait.runThread s.wait t).map fun w => { s with wait := w }
  | .asleepAll => (Wait.runThread s.wait t).map fun w => { s with wait := w }
  | _ => none

inductive Op (T E : Type*) where
  | set (t : T) (e : E) (boost : Bool)
  | pulse (t : T) (e : E) (boost : Bool)
  | reset (e : E)
  | wait (t : T) (e : E)
  | waitMany (t : T) (es : List E)
  | resume (t : T)

def step (fuel : ℕ) (s : State T E) : Op T E → Option (State T E)
  | .set t e boost => eventSet fuel s t e boost
  | .pulse t e boost => eventPulse fuel s t e boost
  | .reset e => eventReset s e
  | .wait t e => eventWait s (call fuel s.wait t (.waitOnObject t e))
  | .waitMany t es => eventWait s (call fuel s.wait t (.waitOnObjects t es))
  | .resume t => resume s t

/-! ### What one call lets through -/

variable {w w' w'' : Wait.State T E} {s s' : State T E} {t : T} {e : E} {fuel : ℕ}

/-- The waits on `e`, whose header is `x`, that the steps of a thread at `p` will let
through. -/
def willLetThrough (p : Pc E) (x : Wait.Waitable T) (e : E) : ℕ :=
  match p with
  | .acquire o _ => if o = e ∧ x.isSignaled then 1 else 0
  | .check o _ => if o = e ∧ x.isSignaled then 1 else 0
  | .recheck o _ => if o = e ∧ x.isSignaled then 1 else 0
  | .nextObject os => if x.isSignaled then os.count e else 0
  | .checkNext o os _ => if x.isSignaled then (o :: os).count e else 0
  | .countNext os => if x.isSignaled then os.count e else 0
  | .signalAcquire o all _ =>
    if o = e then if all then x.waiting.length else min 1 x.waiting.length else 0
  | .signalLoop o all _ _ =>
    if o = e then if all then x.waiting.length else min 1 x.waiting.length else 0
  | _ => 0

/-- Every step lets through what it takes from what was to come. -/
theorem runThread_through (h : Wait.runThread w t = some w') (e : E) :
    letsThrough (w.pc t) (w.obj e) e + willLetThrough (w'.pc t) (w'.obj e) e =
      willLetThrough (w.pc t) (w.obj e) e := by
  have hsig := (Wait.runThread_flags h).isSignaled e
  have hstep := Wait.runThread_cases h
  generalize hpc : w.pc t = p at hstep ⊢
  cases hstep with
  | signaled | back | block | wake | enqueued | unneeded | count | blockAll | wakeAll =>
    simp [letsThrough, willLetThrough]
  | take | takeNext =>
    simp only [letsThrough, willLetThrough, Wait.State.goto_pc, update_self, hsig]
    omega
  | enqueue o entry hoff | stay o entry hoff =>
    simp only [letsThrough, willLetThrough, Wait.State.goto_pc, update_self, hsig]
    by_cases ho : o = e
    · subst ho
      simp [hoff]
    · simp [ho]
  | skipNext o os old hon =>
    simp only [letsThrough, willLetThrough, Wait.State.goto_pc, update_self, hsig,
      List.count_cons]
    by_cases ho : o = e
    · subst ho
      simp [hon, Nat.add_comm]
    · simp [ho]
  | enqueueNext o os old hoff =>
    simp only [letsThrough, willLetThrough, Wait.State.goto_pc, update_self, hsig,
      List.count_cons]
    by_cases ho : o = e
    · subst ho
      simp [hoff]
    · simp [ho]
  | takeSignal o all boost =>
    have hwait := Wait.setLock_waiting w o e (some t)
    simp only [letsThrough, willLetThrough, Wait.State.goto_pc, Wait.State.goto_obj,
      update_self, Nat.zero_add]
    rw [← hwait]
    rfl
  | drained o all boost old hw | removeOne o boost old n rest hw =>
    by_cases ho : o = e
    · subst ho
      simp [letsThrough, willLetThrough, hw]
    · simp [letsThrough, willLetThrough, ho]
  | removeNext o boost old n rest hw =>
    -- the loop goes on with one node less
    simp only [letsThrough, willLetThrough, Wait.removeNode_pc, hpc, if_true]
    by_cases ho : o = e
    · subst ho
      simp [hw, Nat.add_comm]
    · simp [ho]

omit [DecidableEq T] in
theorem willLetThrough_of_atRest (h : atRest w t = true) (x : Wait.Waitable T) (e : E) :
    willLetThrough (w.pc t) x e = 0 := by
  rw [atRest] at h
  split at h <;> simp_all [willLetThrough]

/-- A call that ends lets through what was to come when it began, and keeps the flags. -/
theorem settle_through {r : Wait.State T E × (E → ℕ)} (h : settle t fuel w = some r) :
    Wait.SameFlags w r.1 ∧ ∀ e, r.2 e = willLetThrough (w.pc t) (w.obj e) e := by
  induction fuel generalizing w r with
  | zero => cases h
  | succ fuel ih =>
    rw [settle] at h
    split at h
    · next hrest =>
      cases h
      exact ⟨.of_obj rfl, fun e => (willLetThrough_of_atRest hrest _ e).symm⟩
    · obtain ⟨w1, hrun, hmap⟩ := bind_eq_some_iff.mp h
      obtain ⟨r1, hr1, rfl⟩ := map_eq_some_iff.mp hmap
      obtain ⟨hflags, hthrough⟩ := ih hr1
      refine ⟨(Wait.runThread_flags hrun).trans hflags, fun e => ?_⟩
      rw [← runThread_through hrun e, ← hthrough e]

/-! ### Locks -/

/-- The locks that are taken are held by the place of `t`. -/
def LocksOf (w : Wait.State T E) (t : T) : Prop :=
  ∀ e, (w.obj e).lock ≠ none → (w.pc t).holds = some e

namespace LocksOf

omit [DecidableEq T] in
theorem take (h : LocksOf w t) {o : E} (hp : (w.pc t).holds = none)
    (hobj : ∀ e, (w'.obj e).lock = if e = o then some t else (w.obj e).lock)
    (hpc : (w'.pc t).holds = some o) : LocksOf w' t := by
  intro e he
  rw [hobj] at he
  split at he
  · next heo => rw [hpc, heo]
  · have hholds := h e he
    rw [hp] at hholds
    cases hholds

omit [DecidableEq T] in
theorem drop (h : LocksOf w t) {o : E} (hp : (w.pc t).holds = some o)
    (hsame : ∀ e, (w''.obj e).lock = (w.obj e).lock)
    (hobj : w'.obj = (w''.setLock o none).obj) : LocksOf w' t := by
  intro e he
  rw [hobj, Wait.setLock_lock, hsame] at he
  split at he
  · exact absurd rfl he
  · next heo => exact absurd (Option.some.inj ((h e he).symm.trans hp)) heo

omit [DecidableEq T] [DecidableEq E] in
theorem keep (h : LocksOf w t) (hobj : ∀ e, (w'.obj e).lock = (w.obj e).lock)
    (hpc : (w.pc t).holds = none ∨ w'.pc t = w.pc t) : LocksOf w' t := by
  intro e he
  rw [hobj] at he
  rcases hpc with hpc | hpc
  · exact absurd ((h e he).symm.trans hpc) (by simp)
  · rw [hpc]
    exact h e he

theorem runThread (h : LocksOf w t) (hr : Wait.runThread w t = some w') : LocksOf w' t := by
  have hstep := Wait.runThread_cases hr
  generalize hpc : w.pc t = p at hstep
  have hholds : (w.pc t).holds = p.holds := by rw [hpc]
  cases hstep with
  | take o | takeNext o | takeSignal o =>
    exact h.take hholds (fun e => Wait.setLock_lock w o e (some t)) (by simp [Pc.holds])
  | signaled | skipNext | drained => exact h.drop hholds (fun _ => rfl) rfl
  | enqueue o => exact h.drop hholds (fun e => Wait.append_lock w o e ⟨t, true⟩) rfl
  | enqueueNext o => exact h.drop hholds (fun e => Wait.append_lock w o e ⟨t, false⟩) rfl
  | back | stay | block | wake | enqueued | unneeded | count | blockAll | wakeAll =>
    exact h.keep (fun _ => rfl) (.inl hholds)
  | removeOne o boost old n rest => exact h.drop hholds (Wait.removeNode_lock w o boost n rest) rfl
  | removeNext o boost old n rest => exact h.keep (Wait.removeNode_lock w o boost n rest) (.inr rfl)

end LocksOf

/-- No object is locked. -/
def Unlocked (w : Wait.State T E) : Prop := ∀ e, (w.obj e).lock = none

theorem settle_unlocked {r : Wait.State T E × (E → ℕ)} (h : LocksOf w t)
    (hr : settle t fuel w = some r) : Unlocked r.1 := by
  induction fuel generalizing w r with
  | zero => cases hr
  | succ fuel ih =>
    rw [settle] at hr
    split at hr
    · next hrest =>
      cases hr
      intro e
      by_contra hlock
      have hholds := h e hlock
      rw [atRest] at hrest
      split at hrest <;> simp_all [Pc.holds]
    · obtain ⟨w1, hrun, hmap⟩ := bind_eq_some_iff.mp hr
      obtain ⟨r1, hr1, rfl⟩ := map_eq_some_iff.mp hmap
      exact ih (r := r1) (h.runThread hrun) hr1

omit [DecidableEq T] [DecidableEq E] in
theorem Unlocked.locksOf (h : Unlocked w) (t : T) : LocksOf w t :=
  fun e he => absurd (h e) he

/-! ### Calls -/

omit [DecidableEq T] in
/-- The fields of the headers after the flag of one was written. -/
theorem setSignaled_obj (w : Wait.State T E) (o : E) (b : Bool) (e : E) :
    ((w.setSignaled o b).obj e).useSignaled = (w.obj e).useSignaled ∧
      ((w.setSignaled o b).obj e).lock = (w.obj e).lock ∧
      ((w.setSignaled o b).obj e).signaled = if e = o then b else (w.obj e).signaled := by
  rw [Wait.State.setSignaled, Wait.State.setObj_obj]
  by_cases he : e = o
  · subst he
    simp
  · simp [he]

/-- What a call does that starts with the step to `w`. -/
theorem call_spec {op : Wait.Op T E} {r : Wait.State T E × (E → ℕ)}
    (hstep : Wait.step w op = some w') (hfree : Unlocked w') (hr : call fuel w t op = some r) :
    Wait.SameFlags w' r.1 ∧ Unlocked r.1 ∧
      ∀ e, r.2 e = willLetThrough (w'.pc t) (w'.obj e) e := by
  rw [call, hstep, bind_some] at hr
  obtain ⟨hflags, hthrough⟩ := settle_through hr
  exact ⟨hflags, settle_unlocked (hfree.locksOf t) hr, hthrough⟩

/-- A call of a wait function on the events `es` lets a wait through for each that is
signaled. -/
theorem call_wait {op : Wait.Op T E} {es : List E} {r : Wait.State T E × (E → ℕ)}
    (hop : (∃ o, es = [o] ∧ op = .waitOnObject t o) ∨ op = .waitOnObjects t es)
    (hfree : Unlocked w) (hr : call fuel w t op = some r) :
    Wait.SameFlags w r.1 ∧ Unlocked r.1 ∧
      ∀ e, r.2 e = if (w.thread t).irql ≤ dispatchIrql ∧ (w.obj e).isSignaled then es.count e
        else 0 := by
  obtain ⟨w1, hstep, -⟩ := bind_eq_some_iff.mp hr
  have hgoal : w1.obj = w.obj ∧ ∀ e, willLetThrough (w1.pc t) (w1.obj e) e =
      if (w.thread t).irql ≤ dispatchIrql ∧ (w.obj e).isSignaled then es.count e else 0 := by
    rcases hop with ⟨o, rfl, rfl⟩ | rfl
    · simp only [Wait.step, Wait.stepWith] at hstep
      split_ifs at hstep with hpc hirql
      · cases hstep
        refine ⟨rfl, fun e => ?_⟩
        rw [not_not.mp hpc, if_neg (by omega)]
        rfl
      · cases hstep
        refine ⟨rfl, fun e => ?_⟩
        have hle : (w.thread t).irql ≤ dispatchIrql := by omega
        simp only [willLetThrough, Wait.State.goto_pc, update_self, hle, true_and]
        by_cases ho : o = e
        · subst ho
          simp [Wait.State.setIrql]
        · simp [ho]
    · simp only [Wait.step, Wait.stepWith] at hstep
      split_ifs at hstep with hpc hargs
      · cases hstep
        refine ⟨rfl, fun e => ?_⟩
        rw [not_not.mp hpc]
        rcases hargs with rfl | hirql
        · simp [willLetThrough]
        · rw [if_neg (by omega)]
          rfl
      · cases hstep
        refine ⟨rfl, fun e => ?_⟩
        have hle : (w.thread t).irql ≤ dispatchIrql := by omega
        simp [willLetThrough, hle]
  obtain ⟨hobj, hwill⟩ := hgoal
  have hfree1 : Unlocked w1 := fun e => by rw [hobj]; exact hfree e
  obtain ⟨hflags, hfree', hthrough⟩ := call_spec hstep hfree1 hr
  exact ⟨(Wait.SameFlags.of_obj hobj).trans hflags, hfree', fun e => (hthrough e).trans (hwill e)⟩

/-- A signal sets the flag of its object and, unless it is for all, lets at most one wait
through. -/
theorem call_signal {all boost : Bool} {r : Wait.State T E × (E → ℕ)} (hfree : Unlocked w)
    (huse : (w.obj e).useSignaled = true)
    (hr : call fuel w t (.signal t e all boost) = some r) :
    (∀ x, (r.1.obj x).signaled = if x = e then true else (w.obj x).signaled) ∧
      (∀ x, (r.1.obj x).useSignaled = (w.obj x).useSignaled) ∧ Unlocked r.1 ∧
      (∀ x, x ≠ e → r.2 x = 0) ∧ (all = false → r.2 e ≤ 1) := by
  obtain ⟨w1, hstep, -⟩ := bind_eq_some_iff.mp hr
  have hraise : w.raiseSignaled e = w.setSignaled e true := if_pos huse
  have hobj : w1.obj = (w.setSignaled e true).obj ∧
      (w1.pc t = .outside ∨ w1.pc t = .signalAcquire e all boost) := by
    simp only [Wait.step, Wait.stepWith, hraise] at hstep
    split_ifs at hstep with hpc hirql
    · cases hstep
      exact ⟨rfl, .inl (not_not.mp hpc)⟩
    · cases hstep
      exact ⟨rfl, .inr (update_self ..)⟩
  obtain ⟨hobj, hpc⟩ := hobj
  have hx := setSignaled_obj w e true
  rw [← hobj] at hx
  have hfree1 : Unlocked w1 := fun x => (hx x).2.1.trans (hfree x)
  obtain ⟨hflags, hfree', hthrough⟩ := call_spec hstep hfree1 hr
  refine ⟨fun x => (hflags x).1.trans (hx x).2.2, fun x => (hflags x).2.trans (hx x).1, hfree',
    fun x hxe => ?_, fun hall => ?_⟩
  · rw [hthrough x]
    rcases hpc with hpc | hpc
    · rw [hpc]
      rfl
    · rw [hpc]
      exact if_neg (Ne.symm hxe)
  · rw [hthrough e]
    rcases hpc with hpc | hpc
    · rw [hpc]
      exact Nat.zero_le 1
    · subst hall
      simp [hpc, willLetThrough]

/-- A wait on a signaled event returns at once. -/
theorem call_wait_signaled (hf : 3 ≤ fuel) (hfree : Unlocked w) (hpc : w.pc t = .outside)
    (hirql : (w.thread t).irql ≤ dispatchIrql) (hsig : (w.obj e).isSignaled = true) :
    ∃ r, call fuel w t (.waitOnObject t e) = some r ∧ r.1.pc t = .outside := by
  obtain ⟨n, rfl⟩ : ∃ n, fuel = n + 3 := ⟨fuel - 3, by omega⟩
  have hstep : Wait.step w (.waitOnObject t e) =
      some ((w.setIrql t dispatchIrql).goto t (.acquire e (w.thread t).irql)) := by
    rw [Wait.step, Wait.stepWith, if_neg (by simp [hpc]), if_neg (by omega)]
  rw [call, hstep, bind_some]
  -- to the lock
  set w1 := (w.setIrql t dispatchIrql).goto t (.acquire e (w.thread t).irql) with hw1
  have hpc1 : w1.pc t = .acquire e (w.thread t).irql := update_self ..
  have hrun1 : Wait.runThread w1 t =
      some ((w1.setLock e (some t)).goto t (.check e (w.thread t).irql)) := by
    have hlock : (w1.obj e).lock = none := hfree e
    simp [Wait.runThread, Wait.runPlain, hpc1, hlock]
  -- to the check, which finds the flag set
  set w2 := (w1.setLock e (some t)).goto t (.check e (w.thread t).irql) with hw2
  have hpc2 : w2.pc t = .check e (w.thread t).irql := update_self ..
  have hsig2 : (w2.obj e).isSignaled = true :=
    ((Wait.SameFlags.setLock w1 e (some t)).isSignaled e).trans hsig
  have hrun2 : Wait.runThread w2 t =
      some (((w2.setIrql t (w.thread t).irql).setLock e none).goto t .outside) := by
    simp [Wait.runThread, hpc2, hsig2]
  have hrest1 : atRest w1 t = false := by simp [atRest, hpc1]
  have hrest2 : atRest w2 t = false := by simp [atRest, hpc2]
  have hrest3 : atRest (((w2.setIrql t (w.thread t).irql).setLock e none).goto t .outside) t =
      true := by simp [atRest]
  simp [settle, hrest1, hrun1, hrest2, hrun2, hrest3]

/-! ### Runs -/

/-- The two flags of every event agree, and a synchronization event has let at most one
wait through since it was set. -/
structure EventsOk (s : State T E) : Prop where
  flags : ∀ e, s.signaled e = (s.wait.obj e).signaled
  once : ∀ e, s.type e = .sync → s.through e ≤ 1

/-- What a call shall do: a wait on a signaled event gets through, and consumes the set if
it is a synchronization event; a pulse of a notification event leaves no thread waiting and
the event not signaled. -/
def CallOk (s : State T E) (result : Option (State T E)) : Op T E → Prop
  | .wait t e =>
    s.wait.pc t = .outside → (s.wait.thread t).irql ≤ dispatchIrql →
      (s.wait.obj e).isSignaled = true →
        ∃ s' ∈ result, s'.wait.pc t = .outside ∧ s'.through e = s.through e + 1 ∧
          (s.type e = .sync → (s'.wait.obj e).isSignaled = false)
  | .waitMany t es =>
    s.wait.pc t = .outside → (s.wait.thread t).irql ≤ dispatchIrql →
      ∀ s' ∈ result, ∀ e ∈ es, s.type e = .sync → (s.wait.obj e).isSignaled = true →
        (s'.wait.obj e).isSignaled = false
  | .pulse t e _ =>
    s.wait.pc t = .outside → s.type e = .notification →
      ∃ s' ∈ result, (s'.wait.obj e).waiting = [] ∧ (s'.wait.obj e).isSignaled = false
  | _ => True

/-- All calls of the run do what they shall, and the events are right in every state. -/
def Correct (fuel : ℕ) : State T E → List (Op T E) → Prop
  | s, [] => EventsOk s
  | s, op :: ops =>
    EventsOk s ∧ CallOk s (step fuel s op) op ∧ ∀ s' ∈ step fuel s op, Correct fuel s' ops

theorem Correct.last {ops : List (Op T E)} (h : Correct fuel s ops)
    (hs : ops.foldlM (step fuel) s = some s') : EventsOk s' := by
  induction ops generalizing s with
  | nil =>
    cases hs
    exact h
  | cons op ops ih =>
    obtain ⟨s1, hs1, hrest⟩ := bind_eq_some_iff.mp hs
    exact ih (h.2.2 s1 hs1) hrest

/-- No thread waits on a synchronization event that is signaled. -/
def WaitOk (s : State T E) (t : T) (es : List E) : Prop :=
  (s.wait.thread t).irql ≤ dispatchIrql →
    ∀ e ∈ es, s.type e = .sync → (s.wait.obj e).isSignaled = false

instance (s : State T E) (t : T) (es : List E) : Decidable (WaitOk s t es) :=
  inferInstanceAs (Decidable (_ → ∀ e ∈ es, _))

def OpOk (s : State T E) : Op T E → Prop
  | .pulse _ _ _ => False
  | .wait t e => WaitOk s t [e]
  | .waitMany t es => WaitOk s t es
  | _ => True

instance (s : State T E) : ∀ op, Decidable (OpOk s op)
  | .set _ _ _ => isTrue trivial
  | .pulse _ _ _ => isFalse id
  | .reset _ => isTrue trivial
  | .wait t e => inferInstanceAs (Decidable (WaitOk s t [e]))
  | .waitMany t es => inferInstanceAs (Decidable (WaitOk s t es))
  | .resume _ => isTrue trivial

/-- Between the calls: the headers are those of `EVENT_INITIALIZE`, no lock is held, and
the events are right. -/
structure Inv (s : State T E) : Prop where
  useSignaled : ∀ e, (s.wait.obj e).useSignaled = true
  unlocked : Unlocked s.wait
  ok : EventsOk s

theorem Inv.eventSet {boost : Bool} (h : Inv s) (hr : eventSet fuel s t e boost = some s') :
    Inv s' := by
  obtain ⟨r, hcall, rfl⟩ := map_eq_some_iff.mp hr
  obtain ⟨hsig, huse, hfree, hother, hone⟩ := call_signal h.unlocked (h.useSignaled e) hcall
  refine ⟨fun x => (huse x).trans (h.useSignaled x), hfree, fun x => ?_, fun x hx => ?_⟩
  · show update s.signaled e true x = _
    rw [hsig x, update_apply, h.ok.flags x]
  · show (if x = e then r.2 x else s.through x + r.2 x) ≤ 1
    split
    · next hxe =>
      subst hxe
      exact hone (by simp [show s.type x = .sync from hx])
    · next hxe =>
      rw [hother x hxe]
      exact h.ok.once x hx

theorem Inv.eventReset (h : Inv s) (hr : eventReset s e = some s') : Inv s' := by
  obtain ⟨w, hstep, rfl⟩ := map_eq_some_iff.mp hr
  rw [Wait.step, Wait.stepWith] at hstep
  simp only [h.useSignaled e, h.unlocked e, Bool.not_true, Bool.false_eq_true, if_false,
    Option.isSome_none] at hstep
  cases hstep
  have hobj := setSignaled_obj s.wait e false
  refine ⟨fun x => (hobj x).1.trans (h.useSignaled x), fun x => (hobj x).2.1.trans (h.unlocked x),
    fun x => ?_, h.ok.once⟩
  show update s.signaled e false x = _
  rw [(hobj x).2.2, update_apply, h.ok.flags x]

theorem Inv.eventWait {op : Wait.Op T E} {es : List E} (h : Inv s)
    (hop : (∃ o, es = [o] ∧ op = .waitOnObject t o) ∨ op = .waitOnObjects t es)
    (hok : WaitOk s t es) (hr : eventWait s (call fuel s.wait t op) = some s') : Inv s' := by
  obtain ⟨r, hcall, rfl⟩ := map_eq_some_iff.mp hr
  obtain ⟨hflags, hfree, hthrough⟩ := call_wait hop h.unlocked hcall
  refine ⟨fun x => (hflags x).2.trans (h.useSignaled x), hfree,
    fun x => (h.ok.flags x).trans (hflags x).1.symm, fun x hx => ?_⟩
  show s.through x + r.2 x ≤ 1
  rw [hthrough x]
  split
  · next hsig =>
    have hmem : x ∉ es := fun hmem => absurd hsig.2 (by simp [hok hsig.1 x hmem hx])
    rw [List.count_eq_zero.mpr hmem]
    exact h.ok.once x hx
  · exact h.ok.once x hx

theorem Inv.resume (h : Inv s) (hr : resume s t = some s') : Inv s' := by
  have hkeep : ∀ w, Wait.runThread s.wait t = some w → w.obj = s.wait.obj →
      Inv { s with wait := w } := fun w _ hobj =>
    ⟨fun x => by rw [hobj]; exact h.useSignaled x, fun x => by rw [hobj]; exact h.unlocked x,
      fun x => by rw [hobj]; exact h.ok.flags x, h.ok.once⟩
  rw [Events.resume] at hr
  split at hr
  iterate 2
    · next hpc =>
      obtain ⟨w, hrun, rfl⟩ := map_eq_some_iff.mp hr
      refine hkeep w hrun ?_
      simp only [Wait.runThread, Wait.runPlain, hpc, Option.ite_none_left_eq_some,
        Option.some.injEq] at hrun
      exact hrun.2 ▸ rfl
  · cases hr

theorem Inv.step {op : Op T E} (h : Inv s) (hok : OpOk s op)
    (hs : step fuel s op = some s') : Inv s' := by
  cases op with
  | set t e boost => exact h.eventSet hs
  | pulse t e boost => exact hok.elim
  | reset e => exact h.eventReset hs
  | wait t e => exact h.eventWait (.inl ⟨e, rfl, rfl⟩) hok hs
  | waitMany t es => exact h.eventWait (.inr rfl) hok hs
  | resume t => exact h.resume hs

theorem Inv.callOk {op : Op T E} (hf : 3 ≤ fuel) (h : Inv s) (hok : OpOk s op) :
    CallOk s (Events.step fuel s op) op := by
  cases op with
  | set t e boost => trivial
  | pulse t e boost => exact hok.elim
  | reset e => trivial
  | wait t e =>
    intro hpc hirql hsig
    obtain ⟨r, hcall, hout⟩ := call_wait_signaled hf h.unlocked hpc hirql hsig
    obtain ⟨-, -, hthrough⟩ := call_wait (.inl ⟨e, rfl, rfl⟩) h.unlocked hcall
    refine ⟨_, Option.mem_def.mpr (by rw [Events.step, hcall]; rfl), hout, ?_, fun htype => ?_⟩
    · show s.through e + r.2 e = _
      rw [hthrough e, if_pos ⟨hirql, hsig⟩]
      simp
    · exact absurd hsig (by simp [hok hirql e (List.mem_singleton_self e) htype])
  | waitMany t es =>
    intro hpc hirql s' hs' e he htype hsig
    exact absurd hsig (by simp [hok hirql e he htype])
  | resume t => trivial

/-- In every run in which no call is a pulse and no thread waits on a synchronization event
that is signaled, every call does what it shall, the flags agree in every state, and a
synchronization event never lets two waits through for one set. -/
theorem events_run {ops : List (Op T E)} (hf : 3 ≤ fuel) (h : Inv s)
    (hok : Run.Meets OpOk (step fuel) s ops) : Correct fuel s ops := by
  induction ops generalizing s with
  | nil => exact h.ok
  | cons op ops ih =>
    exact ⟨h.ok, h.callOk hf hok.1, fun s' hs' => ih (h.step hok.1 hs') (hok.2 s' hs')⟩

/-! ### Three threads and one event -/

/-- An event of the given type that nobody has touched. -/
def newEvent (type : EventType) : State ℕ ℕ :=
  ⟨Wait.quietSystem true, fun _ => false, fun _ => type, fun _ => 0⟩

theorem newEvent_inv (type : EventType) : Inv (newEvent type) where
  useSignaled _ := rfl
  unlocked _ := rfl
  ok := ⟨fun _ => rfl, fun _ _ => Nat.zero_le 1⟩

/-- A wait that a set ends, a reset, and the same again. -/
def handOver : List (Op ℕ ℕ) :=
  [.wait 2 0, .set 1 0 false, .resume 2, .reset 0, .wait 2 0, .set 1 0 false, .resume 2]

theorem events_run_handOver :
    Inv (newEvent .sync) ∧ Correct 5 (newEvent .sync) handOver :=
  ⟨newEvent_inv .sync,
    events_run (by decide) (newEvent_inv .sync) (by decide +kernel)⟩

/-- One set of a synchronization event lets two waits through.  A pulse of a notification
event releases one of two threads and leaves the event signaled for later waits. -/
theorem set_lets_two_through :
    (¬ Correct 5 (newEvent .sync) [.set 1 0 false, .wait 2 0, .wait 3 0] ∧
      ∃ s ∈ [Op.set 1 0 false, .wait 2 0, .wait 3 0].foldlM (step 5) (newEvent .sync),
        s.through 0 = 2) ∧
    ∃ s ∈ [Op.wait 2 0, .wait 3 0, .pulse 1 0 false].foldlM (step 5) (newEvent .notification),
      (s.wait.obj 0).waiting = [⟨3, true⟩] ∧ (s.wait.obj 0).isSignaled = true ∧
        s.signaled 0 ≠ (s.wait.obj 0).signaled := by
  have hset : (([Op.set 1 0 false, .wait 2 0, .wait 3 0].foldlM (step 5)
      (newEvent .sync)).map fun s => (s.type 0, s.through 0)) = some (.sync, 2) := by
    decide +kernel
  have hpulse : (([Op.wait 2 0, .wait 3 0, .pulse 1 0 false].foldlM (step 5)
      (newEvent .notification)).map fun s =>
        ((s.wait.obj 0).waiting, (s.wait.obj 0).isSignaled, s.signaled 0,
          (s.wait.obj 0).signaled)) = some ([⟨3, true⟩], true, false, true) := by
    decide +kernel
  obtain ⟨s, hs, hsees⟩ := map_eq_some_iff.mp hset
  obtain ⟨htype, hthrough⟩ := Prod.mk.inj hsees
  obtain ⟨s', hs', heq⟩ := map_eq_some_iff.mp hpulse
  simp only [Prod.mk.injEq] at heq
  refine ⟨⟨fun hc => ?_, s, hs, hthrough⟩, s', hs', heq.1, heq.2.1, by simp [heq.2.2]⟩
  have honce := (hc.last hs).once 0 htype
  omega

end Obos.Events
