/-
Timer objects (`irq/timer.c`).

The armed timers are on one doubly linked list, `timer_list`.  Arming a timer
links it behind the tail, cancelling unlinks it, and the dispatcher walks the
list, notifies the timers that have expired and cancels those of deadline mode
on the way.  Pointers to timers are numbers, `0` is the null pointer; a walk
longer than its `fuel` has no result.

`Core_CancelTimer` leaves the links of the timer as they were, and
`Core_TimerObjectInitialize` writes `prev` but not `next`.  The dispatcher needs
the first: it reads `next` of the timer it has just cancelled.  The second lets a
timer that was cancelled in front of another one end the list with its old link.

* `dispatch_spec` — a dispatcher run over a well-formed list ends, and leaves one,
* `arm_keeps_list_iff` — arming a timer keeps the list well formed exactly when the
  timer is not armed and its `next` is null,
* `timer_list_run` — the list is well formed in every state of every run in which
  only such timers are armed,
* `rearmed_timer_closes_cycle` — arming an expired timer again makes a cycle.
-/
import Obos.Machine
import Obos.Lib.Run
import Obos.Lib.ListFamily

namespace Obos.Timers

open List

/-! ### The model -/

/-- `timer_mode`. -/
inductive Mode where
  | uninitialized
  | expired
  | deadline
  | interval
  deriving DecidableEq, Repr

/-- `timer`, without its handler and the handler's DPC. -/
structure Timer where
  /-- The union of `deadline` and `interval`. -/
  timing : ℕ
  lastTimeTicked : ℕ
  mode : Mode
  next : ℕ
  prev : ℕ
  deriving DecidableEq, Repr

/-- `timer_list` and the timers. -/
structure State where
  head : ℕ
  tail : ℕ
  nNodes : ℕ
  timer : ℕ → Timer

namespace State

def setTimer (s : State) (t : ℕ) (x : Timer) : State :=
  { s with timer := Function.update s.timer t x }

/-- `if (t) t->next = v;` -/
def setNext (s : State) (t v : ℕ) : State :=
  if t = 0 then s else s.setTimer t { s.timer t with next := v }

/-- `if (t) t->prev = v;` -/
def setPrev (s : State) (t v : ℕ) : State :=
  if t = 0 then s else s.setTimer t { s.timer t with prev := v }

end State

/-- `CoreH_TimeFrameToTick`: fixed point numbers with 8 fraction bits, whose
quotient is kept in 32 bits. -/
def timeFrameToTick (us : ℕ) : ℕ :=
  let tp : ℤ := ((us : ℤ) * 2 ^ 8).bmod (2 ^ 64)
  let divisor : ℤ := 1000 * 2 ^ 8
  let tp : ℤ := (((tp * 2 ^ 8).bmod (2 ^ 64)).tdiv divisor).bmod (2 ^ 32)
  ((tp / 2 ^ 8 + 1) % 2 ^ 64).toNat

/-- The part of `Core_TimerObjectInitialize` under the lock.  `obj` keeps its `next`. -/
def link (s : State) (obj : ℕ) : State :=
  let t := s.setNext s.tail obj
  let t := t.setTimer obj { t.timer obj with prev := s.tail }
  { t with head := if s.head = 0 then obj else s.head, tail := obj, nNodes := s.nNodes + 1 }

/-- `Core_TimerObjectInitialize`; `tick` is what `CoreS_GetTimerTick` returns. -/
def timerObjectInitialize (s : State) (obj : ℕ) (mode : Mode) (us tick : ℕ) : State × Status :=
  if obj = 0 ∨ us = 0 ∨ mode = .uninitialized then (s, .invalidArgument)
  else
    let x := s.timer obj
    match mode with
    | .deadline =>
      let timing := u64 (x.lastTimeTicked + timeFrameToTick us)
      (link (s.setTimer obj
        { x with timing := timing, lastTimeTicked := tick, mode := mode }) obj, .success)
    | .interval =>
      (link (s.setTimer obj
        { x with timing := timeFrameToTick us, lastTimeTicked := tick, mode := mode }) obj,
        .success)
    | _ => (s, .invalidArgument)

/-- The part of `Core_CancelTimer` under the lock.  `t` keeps its links. -/
def unlink (s : State) (t : ℕ) : State :=
  let x := s.timer t
  let s' := (s.setPrev x.next x.prev).setNext x.prev x.next
  { s' with
    head := if t = s.head then x.next else s.head
    tail := if t = s.tail then x.prev else s.tail
    nNodes := decrement s.nNodes }

/-- `Core_CancelTimer`. -/
def cancelTimer (s : State) (t : ℕ) : State × Status :=
  if t = 0 ∨ (s.timer t).mode = .uninitialized then (s, .invalidArgument)
  else if (s.timer t).mode = .expired then (s, .success)
  else
    let s := unlink s t
    (s.setTimer t { s.timer t with mode := .expired }, .success)

/-- `notify_timer`, up to the DPC that calls the handler. -/
def notifyTimer (s : State) (t tick : ℕ) : State :=
  let s := s.setTimer t { s.timer t with lastTimeTicked := tick }
  if (s.timer t).mode = .deadline then (cancelTimer s t).1 else s

/-- The test of `timer_dispatcher`. -/
def Timer.isExpired (x : Timer) (tick : ℕ) : Bool :=
  match x.mode with
  | .deadline => x.timing ≤ tick
  | .interval => u64 (x.timing + x.lastTimeTicked) ≤ tick
  | _ => false

/-- One turn of the loop of `timer_dispatcher`, which reads the tick for the test
and again when it notifies. -/
def dispatchTimer (clock : ℕ → ℕ) (s : State) (t : ℕ) : State :=
  if (s.timer t).isExpired (clock 0) then notifyTimer s t (clock 1) else s

/-- The loop of `timer_dispatcher` from the timer `t` on; `clock` are the ticks it
will read. -/
def dispatchFrom : ℕ → (ℕ → ℕ) → ℕ → State → Option State
  | 0, _, _, _ => none
  | fuel + 1, clock, t, s =>
    if t = 0 then some s
    else
      let s := dispatchTimer clock s t
      dispatchFrom fuel (fun k => clock (k + 2)) (s.timer t).next s

/-- `timer_dispatcher`. -/
def timerDispatcher (fuel : ℕ) (clock : ℕ → ℕ) (s : State) : Option State :=
  dispatchFrom fuel clock s.head s

/-! ### What the operations do to the fields -/

variable {s : State} {t u v : ℕ}

theorem State.setTimer_timer (x : Timer) :
    (s.setTimer t x).timer u = if u = t then x else s.timer u := by
  exact Function.update_apply s.timer t x u

theorem State.setNext_timer (u : ℕ) : (s.setNext t v).timer u =
    if u = t ∧ t ≠ 0 then { s.timer u with next := v } else s.timer u := by
  rw [State.setNext]
  split
  · next h => simp [h]
  · next h =>
    rw [State.setTimer_timer]
    by_cases hu : u = t
    · simp [hu, h]
    · simp [hu]

theorem State.setPrev_timer (u : ℕ) : (s.setPrev t v).timer u =
    if u = t ∧ t ≠ 0 then { s.timer u with prev := v } else s.timer u := by
  rw [State.setPrev]
  split
  · next h => simp [h]
  · next h =>
    rw [State.setTimer_timer]
    by_cases hu : u = t
    · simp [hu, h]
    · simp [hu]

theorem link_timer_self (ht : t ≠ s.tail) :
    (link s t).timer t = { s.timer t with prev := s.tail } := by
  simp [link, State.setTimer_timer, State.setNext_timer, ht]

theorem link_timer_of_ne (hu : u ≠ t) : (link s t).timer u =
    if u = s.tail ∧ s.tail ≠ 0 then { s.timer u with next := t } else s.timer u := by
  simp [link, State.setTimer_timer, State.setNext_timer, hu]

theorem unlink_next (hp : (s.timer t).prev ≠ 0 → (s.timer t).prev ≠ u) :
    ((unlink s t).timer u).next = (s.timer u).next := by
  simp only [unlink, State.setNext_timer, State.setPrev_timer]
  split
  · next h => exact absurd h.1.symm (hp h.2)
  · split <;> rfl

theorem unlink_next_eq (hu : u ≠ 0) : ((unlink s t).timer u).next =
    if u = (s.timer t).prev then (s.timer t).next else (s.timer u).next := by
  simp only [unlink, State.setNext_timer, State.setPrev_timer]
  by_cases h : u = (s.timer t).prev
  · rw [if_pos ⟨h, fun h0 => hu (h.trans h0)⟩, if_pos h]
  · rw [if_neg (fun hh => h hh.1), if_neg h]
    split <;> rfl

theorem unlink_prev_eq (hu : u ≠ 0) : ((unlink s t).timer u).prev =
    if u = (s.timer t).next then (s.timer t).prev else (s.timer u).prev := by
  have hp : ∀ (y : State) (a b : ℕ), ((y.setNext a b).timer u).prev = (y.timer u).prev := by
    intro y a b
    rw [State.setNext_timer]
    split <;> rfl
  simp only [unlink, hp, State.setPrev_timer]
  by_cases h : u = (s.timer t).next
  · rw [if_pos ⟨h, fun h0 => hu (h.trans h0)⟩, if_pos h]
  · rw [if_neg (fun hh => h hh.1), if_neg h]

theorem unlink_mode : ((unlink s t).timer u).mode = (s.timer u).mode := by
  simp only [unlink, State.setNext_timer, State.setPrev_timer]
  split <;> split <;> rfl

/-! ### The list -/

/-- The timer is in deadline or interval mode. -/
def Timer.Armed (x : Timer) : Prop := x.mode = .deadline ∨ x.mode = .interval

instance (x : Timer) : Decidable x.Armed := inferInstanceAs (Decidable (_ ∨ _))

/-- `timer_list` is well linked, its nodes are `xs`, and those are the armed timers. -/
structure Lists (s : State) (xs : List ℕ) : Prop where
  isList : DLinked.IsList (fun t => (s.timer t).next) (fun t => (s.timer t).prev) 0 s.head s.tail xs
  armed : ∀ t, t ∈ xs ↔ (s.timer t).Armed
  nNodes : s.nNodes = xs.length

/-- The timer list is an acyclic, null-terminated doubly linked list of exactly the
armed timers, and `nNodes` is its length. -/
def TimerList (s : State) : Prop := ∃ xs, Lists s xs

section

variable {xs : List ℕ}

theorem Lists.ne_zero (h : Lists s xs) (ht : t ∈ xs) : t ≠ 0 :=
  fun h0 => h.isList.null_notMem (h0 ▸ ht)

/-- A timer that gets new times but keeps its links and whether it is armed. -/
theorem Lists.setTimer (h : Lists s xs) {x : Timer}
    (hn : x.next = (s.timer t).next) (hp : x.prev = (s.timer t).prev)
    (hm : x.Armed ↔ (s.timer t).Armed) : Lists (s.setTimer t x) xs := by
  refine ⟨h.isList.congr (fun u _ => ?_) (fun u _ => ?_), fun u => ?_, h.nNodes⟩
  · simp only [State.setTimer_timer]
    split
    · next hu => rw [hu, hn]
    · rfl
  · simp only [State.setTimer_timer]
    split
    · next hu => rw [hu, hp]
    · rfl
  · rw [h.armed, State.setTimer_timer]
    split
    · next hu => rw [hu, hm]
    · rfl

/-- Arm a timer that is not armed and has no successor. -/
theorem Lists.link (h : Lists s xs) (ht : t ≠ 0) (hm : ¬ (s.timer t).Armed)
    (hn : (s.timer t).next = 0) {x : Timer} (hx : x.Armed) (hxn : x.next = (s.timer t).next) :
    Lists (link (s.setTimer t x) t) (xs ++ [t]) := by
  have hmem : t ∉ xs := fun hmem => hm ((h.armed t).mp hmem)
  have htail : t ≠ (s.setTimer t x).tail := fun he => by
    have h0 : s.tail ≠ 0 := fun h0 => ht (he.trans h0)
    have hne : xs ≠ [] := fun hnil => h0 (h.isList.tail_eq_null_iff.mpr hnil)
    have hin : s.tail ∈ xs := h.isList.tail_eq ▸ DLinked.IsList.getLastD_mem hne 0
    exact hmem ((show t = s.tail from he) ▸ hin)
  have hself := link_timer_self htail
  have hother : ∀ u, u ≠ t → (Timers.link (s.setTimer t x) t).timer u =
      if u = s.tail ∧ s.tail ≠ 0 then { s.timer u with next := t } else s.timer u := by
    intro u hu
    rw [link_timer_of_ne hu, State.setTimer_timer, if_neg hu]
    rfl
  refine ⟨h.isList.append hmem ht ?_ ?_ ?_ ?_, fun u => ?_, ?_⟩
  · intro u hu
    have hut : u ≠ t := fun he => hmem (he ▸ hu)
    simp only [hother u hut]
    by_cases he : u = s.tail
    · rw [if_pos ⟨he, fun h0 => h.ne_zero hu (he.trans h0)⟩, if_pos he]
    · rw [if_neg (fun hh => he hh.1), if_neg he]
  · intro u hu
    have hut : u ≠ t := fun he => hmem (he ▸ hu)
    simp only [hother u hut]
    split <;> rfl
  · simp [hself, State.setTimer_timer, hxn, hn]
  · simp only [hself]
    rfl
  · rw [mem_append, mem_singleton, h.armed]
    by_cases hu : u = t
    · rw [hu, hself, State.setTimer_timer, if_pos rfl]
      exact iff_of_true (Or.inr rfl) hx
    · rw [hother u hu]
      have hsame : ∀ y : Timer, Timer.Armed { y with next := t } ↔ y.Armed := fun _ => Iff.rfl
      simp only [hu, or_false]
      split
      · exact (hsame _).symm
      · rfl
  · rw [length_append, length_singleton, ← h.nNodes]
    rfl

/-- Cancel a timer of the list. -/
theorem Lists.unlink {l r : List ℕ} (h : Lists s (l ++ t :: r)) {x : Timer}
    (hx : ¬ x.Armed) : Lists ((unlink s t).setTimer t x) (l ++ r) := by
  have hnd := h.isList.nodup
  rw [nodup_middle, nodup_cons] at hnd
  have hmem : ∀ u ∈ l ++ r, u ∈ l ++ t :: r ∧ u ≠ t := fun u hu =>
    ⟨by simp only [mem_append, mem_cons] at hu ⊢; tauto, fun he => hnd.1 (he ▸ hu)⟩
  have hother : ∀ u, u ≠ t → ((Timers.unlink s t).setTimer t x).timer u =
      (Timers.unlink s t).timer u := fun u hu => by rw [State.setTimer_timer, if_neg hu]
  have hlist : DLinked.IsList (fun u => (((Timers.unlink s t).setTimer t x).timer u).next)
      (fun u => (((Timers.unlink s t).setTimer t x).timer u).prev) 0
      (if s.head = t then (s.timer t).next else s.head)
      (if s.tail = t then (s.timer t).prev else s.tail) (l ++ r) :=
    h.isList.unlink
      (fun u hu => by rw [hother u (hmem u hu).2, unlink_next_eq (h.ne_zero (hmem u hu).1)])
      (fun u hu => by rw [hother u (hmem u hu).2, unlink_prev_eq (h.ne_zero (hmem u hu).1)])
  refine ⟨?_, fun u => ?_, ?_⟩
  · rw [show (if s.head = t then (s.timer t).next else s.head) =
        ((Timers.unlink s t).setTimer t x).head by simp [Timers.unlink, State.setTimer, eq_comm],
      show (if s.tail = t then (s.timer t).prev else s.tail) =
        ((Timers.unlink s t).setTimer t x).tail by simp [Timers.unlink, State.setTimer, eq_comm]]
      at hlist
    exact hlist
  · by_cases hu : u = t
    · rw [hu, State.setTimer_timer, if_pos rfl]
      exact iff_of_false hnd.1 hx
    · have harm : ((Timers.unlink s t).timer u).Armed ↔ (s.timer u).Armed := by
        simp [Timer.Armed, unlink_mode]
      rw [hother u hu, harm, ← h.armed u]
      simp [hu]
  · have hlen : s.nNodes = (l ++ r).length + 1 := by
      rw [h.nNodes, length_append, length_cons, length_append, Nat.add_assoc]
    show decrement s.nNodes = _
    rw [hlen]
    rfl

/-! ### The calls keep the list -/

/-- One turn of the dispatcher at a timer of the list: it goes on to the timers behind
it, whether or not the turn has taken it off the list. -/
theorem dispatchTimer_spec {l r : List ℕ} (h : Lists s (l ++ t :: r)) (clock : ℕ → ℕ) :
    ∃ l', Lists (dispatchTimer clock s t) (l' ++ r) ∧ l'.length ≤ l.length + 1 ∧
      ((dispatchTimer clock s t).timer t).next = r.headD 0 := by
  have hin : t ∈ l ++ t :: r := mem_append_right _ mem_cons_self
  have hstay : ∀ s', Lists s' (l ++ t :: r) → ∃ l', Lists s' (l' ++ r) ∧
      l'.length ≤ l.length + 1 ∧ (s'.timer t).next = r.headD 0 := fun s' h' =>
    ⟨l ++ [t], by simpa using h', by simp, h'.isList.next_mem⟩
  rw [dispatchTimer]
  split
  · have h' : Lists (s.setTimer t { s.timer t with lastTimeTicked := clock 1 }) (l ++ t :: r) :=
      h.setTimer rfl rfl Iff.rfl
    rw [notifyTimer]
    generalize s.setTimer t { s.timer t with lastTimeTicked := clock 1 } = s' at h'
    by_cases hmode : (s'.timer t).mode = .deadline
    · have h0 : ¬ (t = 0 ∨ (s'.timer t).mode = .uninitialized) := by
        rw [hmode]
        simpa using h'.ne_zero hin
      rw [if_pos hmode, Timers.cancelTimer, if_neg h0, if_neg (by rw [hmode]; nofun)]
      refine ⟨l, h'.unlink (by simp [Timer.Armed]), Nat.le_succ _, ?_⟩
      -- the cancelled timer still points at what was behind it
      have hnext : (s'.timer t).next = r.headD 0 := h'.isList.next_mem
      rw [State.setTimer_timer, if_pos rfl, ← hnext]
      exact unlink_next fun _ he => h'.isList.prev_ne hin he
    · rw [if_neg hmode]
      exact hstay s' h'
  · exact hstay s h

/-- The dispatcher from the middle of a well-formed list, with `r` left to visit. -/
theorem dispatchFrom_spec {l r : List ℕ} {fuel : ℕ} (h : Lists s (l ++ r))
    (hf : r.length < fuel) (clock : ℕ → ℕ) :
    ∃ s' xs, dispatchFrom fuel clock (r.headD 0) s = some s' ∧ Lists s' xs ∧
      xs.length ≤ l.length + r.length := by
  induction r generalizing s l fuel clock with
  | nil =>
    obtain ⟨fuel, rfl⟩ : ∃ f, fuel = f + 1 := ⟨fuel - 1, by simp at hf; omega⟩
    exact ⟨s, l ++ [], rfl, h, by simp⟩
  | cons t r ih =>
    obtain ⟨fuel, rfl⟩ : ∃ f, fuel = f + 1 := ⟨fuel - 1, by simp at hf; omega⟩
    obtain ⟨l', h', hlen, hnext⟩ := dispatchTimer_spec h clock
    obtain ⟨s', xs, hrun, hxs, hle⟩ :=
      ih h' (by simpa using hf) fun k => clock (k + 2)
    have ht : t ≠ 0 := h.ne_zero (mem_append_right _ mem_cons_self)
    refine ⟨s', xs, ?_, hxs, ?_⟩
    · rw [headD_cons, dispatchFrom, if_neg ht]
      simp only [hnext]
      exact hrun
    · rw [length_cons]
      omega

/-- A dispatcher run over a well-formed list ends and leaves a well-formed list. -/
theorem dispatch_spec {fuel : ℕ} (h : Lists s xs) (hf : xs.length < fuel)
    (clock : ℕ → ℕ) :
    ∃ s' xs', timerDispatcher fuel clock s = some s' ∧ Lists s' xs' ∧ xs'.length ≤ xs.length := by
  rw [timerDispatcher, h.isList.head_eq]
  simpa using dispatchFrom_spec (l := []) h hf clock

/-! ### Runs -/

inductive Op where
  | arm (obj : ℕ) (mode : Mode) (us tick : ℕ)
  | cancel (t : ℕ)
  | dispatch (clock : ℕ → ℕ)

def step (fuel : ℕ) (s : State) : Op → Option State
  | .arm obj mode us tick => some (timerObjectInitialize s obj mode us tick).1
  | .cancel t => some (cancelTimer s t).1
  | .dispatch clock => timerDispatcher fuel clock s

/-- A timer that is armed is not on the list, and its `next` is null: it was never
armed, or it was the last one when it was cancelled. -/
def OpOk (s : State) : Op → Prop
  | .arm obj mode us _ =>
    obj = 0 ∨ us = 0 ∨ mode = .uninitialized ∨ mode = .expired ∨
      (¬ (s.timer obj).Armed ∧ (s.timer obj).next = 0)
  | _ => True

instance (s : State) : ∀ op, Decidable (OpOk s op)
  | .arm obj _ us _ => inferInstanceAs (Decidable (obj = 0 ∨ us = 0 ∨ _))
  | .cancel _ => isTrue trivial
  | .dispatch _ => isTrue trivial

theorem Lists.arm (h : Lists s xs) {mode : Mode} {us tick : ℕ}
    (hok : OpOk s (.arm t mode us tick)) :
    ∃ xs', Lists (timerObjectInitialize s t mode us tick).1 xs' ∧
      xs'.length ≤ xs.length + 1 := by
  have hrefused : ∃ xs', Lists s xs' ∧ xs'.length ≤ xs.length + 1 := ⟨xs, h, Nat.le_succ _⟩
  rw [timerObjectInitialize]
  split
  · exact hrefused
  next hargs =>
  simp only [not_or] at hargs
  have harmed : mode ≠ .expired → ¬ (s.timer t).Armed ∧ (s.timer t).next = 0 := by
    intro hm
    rcases hok with h | h | h | h | h
    exacts [absurd h hargs.1, absurd h hargs.2.1, absurd h hargs.2.2, absurd h hm, h]
  cases mode with
  | uninitialized => exact hrefused
  | expired => exact hrefused
  | deadline =>
    obtain ⟨hm, hn⟩ := harmed (by nofun)
    exact ⟨xs ++ [t], h.link hargs.1 hm hn (Or.inl rfl) rfl, by simp⟩
  | interval =>
    obtain ⟨hm, hn⟩ := harmed (by nofun)
    exact ⟨xs ++ [t], h.link hargs.1 hm hn (Or.inr rfl) rfl, by simp⟩

/-- Linking any other timer breaks the list, as its `next` does not end it. -/
theorem unarmed_of_lists_link {xs xs' : List ℕ} (h : Lists s xs) (ht : t ≠ 0) {x : Timer}
    (h' : Lists (link (s.setTimer t x) t) xs') (hxn : x.next = (s.timer t).next) :
    ¬ (s.timer t).Armed ∧ (s.timer t).next = 0 := by
  have hend : ((link (s.setTimer t x) t).timer t).next = 0 := h'.isList.next_tail ht
  have htail : t ≠ s.tail := by
    intro he
    have hself : ((link (s.setTimer t x) t).timer t).next = t := by
      simp [link, State.setNext_timer, State.setTimer, ← he, ht]
    exact ht (hself.symm.trans hend)
  have hn : (s.timer t).next = 0 := by
    have hkeep := link_timer_self (s := s.setTimer t x) htail
    rwa [hkeep, State.setTimer_timer, if_pos rfl, hxn] at hend
  refine ⟨fun harm => htail ?_, hn⟩
  -- an armed timer without a successor is the tail
  obtain ⟨l, r, rfl⟩ := append_of_mem ((h.armed t).mpr harm)
  have hr : r = [] := by
    have hhead : r.headD 0 = 0 := h.isList.next_mem.symm.trans hn
    cases r with
    | nil => rfl
    | cons u r => exact absurd hhead (h.ne_zero (by simp))
  rw [h.isList.tail_eq, hr]
  simp

/-- The condition is exact: a call that arms a timer keeps the list well formed only
when it is met. -/
theorem arm_keeps_list_iff (h : TimerList s) {mode : Mode} {us tick : ℕ} :
    TimerList (timerObjectInitialize s t mode us tick).1 ↔ OpOk s (.arm t mode us tick) := by
  obtain ⟨xs, h⟩ := h
  constructor
  · rintro ⟨xs', h'⟩
    by_contra hnot
    simp only [OpOk, not_or] at hnot
    obtain ⟨ht, hus, hm, he, hnot⟩ := hnot
    rw [timerObjectInitialize, if_neg (by simp [ht, hus, hm])] at h'
    cases mode with
    | uninitialized => exact hm rfl
    | expired => exact he rfl
    | deadline => exact hnot (unarmed_of_lists_link h ht h' rfl)
    | interval => exact hnot (unarmed_of_lists_link h ht h' rfl)
  · intro hok
    obtain ⟨xs', h', -⟩ := h.arm hok
    exact ⟨xs', h'⟩

theorem Lists.cancel (h : Lists s xs) (t : ℕ) :
    ∃ xs', Lists (cancelTimer s t).1 xs' ∧ xs'.length ≤ xs.length + 1 := by
  rw [cancelTimer]
  split
  · exact ⟨xs, h, Nat.le_succ _⟩
  next h0 =>
  split
  · exact ⟨xs, h, Nat.le_succ _⟩
  next h1 =>
  have harm : (s.timer t).Armed := by
    rw [Timer.Armed]
    cases hm : (s.timer t).mode <;> simp_all
  obtain ⟨l, r, rfl⟩ := append_of_mem ((h.armed t).mpr harm)
  refine ⟨l ++ r, h.unlink (by simp [Timer.Armed]), ?_⟩
  simp only [length_append, length_cons]
  omega

theorem Lists.step {fuel : ℕ} (h : Lists s xs) (hf : xs.length < fuel) (op : Op)
    (hok : OpOk s op) :
    ∃ s' xs', step fuel s op = some s' ∧ Lists s' xs' ∧ xs'.length ≤ xs.length + 1 := by
  cases op with
  | arm obj mode us tick =>
    obtain ⟨xs', h', hle⟩ := h.arm hok
    exact ⟨_, xs', rfl, h', hle⟩
  | cancel t =>
    obtain ⟨xs', h', hle⟩ := h.cancel t
    exact ⟨_, xs', rfl, h', hle⟩
  | dispatch clock =>
    obtain ⟨s', xs', hs', h', hle⟩ := dispatch_spec h hf clock
    exact ⟨s', xs', hs', h', Nat.le_succ_of_le hle⟩

end

theorem Lists.run {ops : List Op} {xs : List ℕ} {fuel : ℕ} (h : Lists s xs)
    (hf : xs.length + ops.length ≤ fuel) (hok : Run.Meets OpOk (Timers.step fuel) s ops) :
    ∃ s', ops.foldlM (Timers.step fuel) s = some s' ∧ TimerList s' := by
  induction ops generalizing s xs with
  | nil => exact ⟨s, rfl, xs, h⟩
  | cons op ops ih =>
    rw [length_cons] at hf
    have hlt : xs.length < fuel := by omega
    obtain ⟨s1, xs1, hs1, h1, hle⟩ := h.step hlt op hok.1
    obtain ⟨s', hs', hlist⟩ := ih h1 (by omega) (hok.2 s1 hs1)
    refine ⟨s', ?_, hlist⟩
    rw [foldlM_cons, hs1]
    exact hs'

/-- No timer is armed; the other fields of the timers are arbitrary. -/
structure Idle (s : State) : Prop where
  head : s.head = 0
  tail : s.tail = 0
  nNodes : s.nNodes = 0
  unarmed : ∀ t, ¬ (s.timer t).Armed

theorem Idle.lists (h : Idle s) : Lists s [] := by
  refine ⟨?_, fun t => by simpa using h.unarmed t, h.nNodes⟩
  rw [h.head, h.tail]
  exact DLinked.IsList.nil _ _ _

/-- In every run from an idle state in which only unarmed timers without a successor
are armed, every call returns and the timer list is well formed. -/
theorem timer_list_run {ops : List Op} {fuel : ℕ} (h : Idle s) (hf : ops.length ≤ fuel)
    (hok : Run.Meets OpOk (step fuel) s ops) :
    ∃ s', ops.foldlM (step fuel) s = some s' ∧ TimerList s' :=
  h.lists.run (by simpa using hf) hok

/-- Timers in memory that was cleared. -/
def boot : State := ⟨0, 0, 0, fun _ => ⟨0, 0, .uninitialized, 0, 0⟩⟩

theorem boot_idle : Idle boot := ⟨rfl, rfl, rfl, fun _ => by simp [boot, Timer.Armed]⟩

/-- Two timers, the second of which expires and is armed again. -/
def rearmLast : List Op :=
  [.arm 1 .interval 5000 10, .arm 2 .deadline 1000 10, .dispatch fun _ => 14,
    .arm 2 .deadline 1000 20, .cancel 1]

theorem timer_list_run_rearmLast :
    ∃ s', rearmLast.foldlM (step 5) boot = some s' ∧ TimerList s' :=
  timer_list_run boot_idle (by decide) (by decide +kernel)

/-- Two timers, the first of which expires. -/
def expireFirst : List Op :=
  [.arm 1 .deadline 1000 10, .arm 2 .interval 5000 10, .dispatch fun _ => 14]

/-- Timer 2 is armed, and timer 1 still points at it. -/
theorem arm_keeps_list_expireFirst : ∃ s, expireFirst.foldlM (step 5) boot = some s ∧
    (s.timer 2).Armed ∧ (s.timer 1).next = 2 ∧
    TimerList (timerObjectInitialize s 3 .deadline 1000 20).1 ∧
    ¬ TimerList (timerObjectInitialize s 1 .deadline 1000 20).1 := by
  obtain ⟨s, hs, hlist⟩ : ∃ s, expireFirst.foldlM (step 5) boot = some s ∧ TimerList s :=
    boot_idle.lists.run (by decide) (by decide +kernel)
  have hview : ∃ s ∈ expireFirst.foldlM (step 5) boot, (s.timer 2).Armed ∧ (s.timer 1).next = 2 ∧
      OpOk s (.arm 3 .deadline 1000 20) ∧ ¬ OpOk s (.arm 1 .deadline 1000 20) := by
    decide +kernel
  obtain ⟨s', hs', harmed, hnext, hok, hstale⟩ := hview
  obtain rfl : s = s' := Option.some.inj (hs.symm.trans hs')
  exact ⟨s, hs, harmed, hnext, (arm_keeps_list_iff hlist).mpr hok,
    fun h => hstale ((arm_keeps_list_iff hlist).mp h)⟩

/-- Two timers, the first of which expires and is armed again. -/
def rearmFirst : List Op := expireFirst ++ [.arm 1 .deadline 1000 20]

/-- The timer at the end of the list still points at the one that used to be behind it:
the list has become a cycle, and the next dispatcher run does not end. -/
theorem rearmed_timer_closes_cycle :
    ∃ s, rearmFirst.foldlM (step 5) boot = some s ∧ ¬ TimerList s ∧
      s.tail = 1 ∧ (s.timer 1).next = 2 ∧ (s.timer 2).next = 1 := by
  have hrun : ((rearmFirst.foldlM (step 5) boot).map fun s =>
      (s.tail, (s.timer 1).next, (s.timer 2).next)) = some (1, 2, 1) := by
    decide +kernel
  obtain ⟨s, hs, heq⟩ := Option.map_eq_some_iff.mp hrun
  simp only [Prod.mk.injEq] at heq
  refine ⟨s, hs, ?_, heq⟩
  rintro ⟨xs, h⟩
  have hnull : (s.timer s.tail).next = 0 := h.isList.next_tail (by simp [heq.1])
  simp [heq.1, heq.2.1] at hnull

end Obos.Timers
