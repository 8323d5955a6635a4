/-
Wake-ups: who is blocked can still be woken.

A thread puts its node on an object's list under the object's lock, but blocks
only later, without it.  A signal in between finds the node, counts, and readies
a thread that is still running, which does nothing; then the thread blocks.

`Quiet s t` is what holds of a thread as long as no signal comes in between:
nothing was signalled when it blocks, and a blocked thread waits for more signals
than have come, so that by its account a node of it is still on some list.

* `no_lost_wakeup` — in every run in which no signal on an object starts, or takes
  a thread off the list, while that thread is between its append and its block,
  no thread is blocked with all its nodes taken off,
* `lost_wakeup` — a run of two threads in which one is,
* `readied_once` — a thread that has come to its block in `Core_WaitOnObjects`
  undisturbed is readied once, by the signal that takes its last node off a list.
-/
import Obos.WaitAccounts

namespace Obos.Wait

open Function
open Sched (ThreadStatus maxPriority)

variable {T O : Type*} {s s' s'' : State T O} {t u : T}

/-! ### Waits that no signal disturbs -/

/-- The thread has, or is about to have, nodes on lists and has not blocked yet. -/
def Pc.Enqueues : Pc O → Prop
  | .recheck _ _ | .block _ _ | .nextObject _ | .checkNext _ _ _ | .countNext _ | .blockAll => True
  | _ => False

structure Quiet (s : State T O) (t : T) : Prop where
  unsignaled : (s.pc t).Enqueues → (s.thread t).nSignaled = 0
  flag : ∀ o entry, s.pc t = .recheck o entry → (s.obj o).isSignaled = false
  enqueued : s.pc t = .blockAll → (s.thread t).nWaiting ≠ 0
  waits : (s.pc t).Sleeps → (s.thread t).sched.status = .blocked →
    (s.thread t).nSignaled < (s.thread t).nWaiting

/-- Away from the enqueueing there is only something to say about a thread that sleeps. -/
theorem Quiet.of_not_enqueues {p : Pc O} (hpc : s.pc t = p) (h1 : ¬ p.Enqueues)
    (hw : p.Sleeps → (s.thread t).sched.status = .blocked →
      (s.thread t).nSignaled < (s.thread t).nWaiting) : Quiet s t := by
  subst hpc
  refine ⟨fun h => absurd h h1, fun o entry e => ?_, fun e => ?_, hw⟩
  · rw [e] at h1
    exact absurd trivial h1
  · rw [e] at h1
    exact absurd trivial h1

theorem Quiet.of_pc {p : Pc O} (hpc : s.pc t = p) (h1 : ¬ p.Enqueues) (h2 : ¬ p.Sleeps) :
    Quiet s t :=
  .of_not_enqueues hpc h1 fun h => absurd h h2

/-- A place on the way to the block. -/
theorem Quiet.of_enqueues {p : Pc O} (hpc : s.pc t = p) (h0 : (s.thread t).nSignaled = 0)
    (hflag : ∀ o entry, p = .recheck o entry → (s.obj o).isSignaled = false)
    (hall : p = .blockAll → (s.thread t).nWaiting ≠ 0) (h2 : ¬ p.Sleeps) : Quiet s t := by
  subst hpc
  exact ⟨fun _ => h0, hflag, hall, fun h => absurd h h2⟩

/-- Asleep with signals to come. -/
theorem Quiet.of_sleeps {p : Pc O} (hpc : s.pc t = p) (h1 : ¬ p.Enqueues)
    (h : (s.thread t).nSignaled < (s.thread t).nWaiting) : Quiet s t :=
  .of_not_enqueues hpc h1 fun _ _ => h

theorem Quiet.cleanRecheck (h : Quiet s t) : CleanRecheck s t := by
  intro o entry hpc hsig
  rw [h.flag o entry hpc] at hsig
  cases hsig

/-! ### Flags -/

/-- The objects keep their flags. -/
def SameFlags (s s' : State T O) : Prop :=
  ∀ o, (s'.obj o).signaled = (s.obj o).signaled ∧ (s'.obj o).useSignaled = (s.obj o).useSignaled

theorem SameFlags.isSignaled (h : SameFlags s s') (o : O) :
    (s'.obj o).isSignaled = (s.obj o).isSignaled := by
  rw [Waitable.isSignaled, (h o).1, (h o).2, Waitable.isSignaled]

theorem SameFlags.of_obj (h : s'.obj = s.obj) : SameFlags s s' := fun o => by simp [h]

theorem SameFlags.trans (h : SameFlags s s') (h' : SameFlags s' s'') : SameFlags s s'' :=
  fun o => ⟨(h' o).1.trans (h o).1, (h' o).2.trans (h o).2⟩

variable [DecidableEq O]

theorem SameFlags.setObj (s : State T O) {o : O} {x : Waitable T}
    (hx : x.signaled = (s.obj o).signaled ∧ x.useSignaled = (s.obj o).useSignaled) :
    SameFlags s (s.setObj o x) := by
  intro o'
  rw [State.setObj_obj]
  by_cases ho : o' = o
  · rw [ho, update_self]
    exact hx
  · rw [update_of_ne ho]
    exact ⟨rfl, rfl⟩

theorem SameFlags.setLock (s : State T O) (o : O) (holder : Option T) :
    SameFlags s (s.setLock o holder) := .setObj s ⟨rfl, rfl⟩

theorem SameFlags.append (s : State T O) (o : O) (n : Node T) : SameFlags s (s.append o n) :=
  .setObj s ⟨rfl, rfl⟩

variable [DecidableEq T]

theorem SameFlags.removeNode (s : State T O) (o : O) (boost : Bool) (n : Node T)
    (rest : List (Node T)) : SameFlags s (removeNode s o boost n rest) := by
  have h : SameFlags s (s.setObj o { s.obj o with waiting := rest }) := .setObj s ⟨rfl, rfl⟩
  exact h

theorem runThread_flags (h : runThread s u = some s') : SameFlags s s' := by
  have hstep := runThread_cases h
  generalize s.pc u = p at hstep
  cases hstep with
  | take | signaled | takeNext | skipNext | takeSignal | drained => exact SameFlags.setLock s _ _
  | enqueue | enqueueNext => exact (SameFlags.append s _ _).trans (.setLock _ _ _)
  | removeOne => exact (SameFlags.removeNode s _ _ _ _).trans (.setLock _ _ _)
  | removeNext => exact SameFlags.removeNode s _ _ _ _
  | _ => exact .of_obj rfl

omit [DecidableEq T] in
theorem setSignaled_useSignaled (s : State T O) (o o' : O) (b : Bool) :
    ((s.setSignaled o b).obj o').useSignaled = (s.obj o').useSignaled := by
  rw [State.setSignaled, State.setObj_obj]
  by_cases ho : o' = o
  · rw [ho, update_self]
  · rw [update_of_ne ho]

/-- Whether an object has a flag at all never changes, and only the start of a signal on it sets
the flag. -/
theorem step_flags {op : Op T O} (hs : step s op = some s') (o : O) :
    (s'.obj o).useSignaled = (s.obj o).useSignaled ∧ ((s'.obj o).isSignaled = true →
      (s.obj o).isSignaled = true ∨ ∃ u all boost, op = .signal u o all boost) := by
  cases op with
  | waitOnObject u o1 | waitOnObjects u o1 =>
    rw [step, stepWith] at hs
    split_ifs at hs <;> exact Option.some.inj hs ▸ ⟨rfl, .inl⟩
  | irql u i =>
    rw [step, stepWith] at hs
    split_ifs at hs
    exact Option.some.inj hs ▸ ⟨rfl, .inl⟩
  | run u =>
    have hflags := runThread_flags hs
    exact ⟨(hflags o).2, fun h => .inl ((hflags.isSignaled o).symm.trans h)⟩
  | clear o1 =>
    rw [step, stepWith] at hs
    split_ifs at hs
    · exact Option.some.inj hs ▸ ⟨rfl, .inl⟩
    · rw [← Option.some.inj hs]
      refine ⟨setSignaled_useSignaled s o1 o false, fun h => .inl ?_⟩
      rw [State.setSignaled, State.setObj_obj] at h
      by_cases ho : o = o1
      · rw [ho, update_self] at h
        cases h
      · rwa [update_of_ne ho] at h
  | signal u o1 all boost =>
    have hraise : ((s.raiseSignaled o1).obj o).useSignaled = (s.obj o).useSignaled ∧
        (o ≠ o1 → (s.raiseSignaled o1).obj o = s.obj o) := by
      rw [State.raiseSignaled]
      split
      · exact ⟨setSignaled_useSignaled s o1 o true, fun ho => update_of_ne ho _ _⟩
      · exact ⟨rfl, fun _ => rfl⟩
    have hobj : s'.obj o = (s.raiseSignaled o1).obj o := by
      rw [step, stepWith] at hs
      split_ifs at hs <;> exact Option.some.inj hs ▸ rfl
    rw [hobj]
    refine ⟨hraise.1, fun h => ?_⟩
    by_cases ho : o = o1
    · exact .inr ⟨u, all, boost, ho ▸ rfl⟩
    · exact .inl (hraise.2 ho ▸ h)

/-! ### Steps of the thread itself -/

/-- For the threads in `who`: a signal on an object starts only when the threads on
its list are blocked, and takes only blocked threads off it. -/
def unraced (who : T → Bool) (s : State T O) : Op T O → Bool
  | .signal _ o _ _ => (s.obj o).waiting.all fun n =>
    !who n.thread || (s.thread n.thread).sched.status = .blocked
  | .run u =>
    match s.pc u with
    | .signalLoop o _ _ _ => (s.obj o).waiting.head?.all fun n =>
      !who n.thread || (s.thread n.thread).sched.status = .blocked
    | _ => true
  | _ => true

theorem Quiet.runThread (h : Quiet s t) (hinv : Inv s t) (hr : runThread s t = some s') :
    Quiet s' t := by
  have hflags := runThread_flags hr
  have hstep := runThread_cases hr
  generalize hpc : s.pc t = p at hstep
  obtain ⟨m, -, ha⟩ := hinv.account
  have hpc' : ∀ (s1 : State T O) (pc : Pc O), (s1.goto t pc).pc t = pc :=
    fun _ _ => update_self ..
  have hthread : ∀ (s1 : State T O) (x : Thread), (s1.setThread t x).thread t = x :=
    fun _ _ => update_self ..
  have h0 : p.Enqueues → (s.thread t).nSignaled = 0 := fun hp => h.unsignaled (hpc ▸ hp)
  -- a step to a place on the way to the block that keeps `nSignaled`
  have hon : ∀ (s1 : State T O) (pc : Pc O), p.Enqueues →
      (s1.thread t).nSignaled = (s.thread t).nSignaled → (∀ o entry, pc ≠ .recheck o entry) →
      pc ≠ .blockAll → ¬ pc.Sleeps → Quiet (s1.goto t pc) t :=
    fun s1 pc hp hs1 hre hall => .of_enqueues (hpc' s1 pc) (hs1.trans (h0 hp))
      (fun o entry e => absurd e (hre o entry)) fun e => absurd e hall
  cases hstep with
  | enqueue o entry hoff =>
    refine .of_enqueues (hpc' _ _) ?_ ?_ (fun e => by cases e) fun hf => hf
    · exact congrArg Thread.nSignaled (hthread s _)
    · intro o1 e1 e
      cases e
      rw [hflags.isSignaled o]
      simpa using hoff
  | block =>
    refine .of_sleeps (hpc' _ _) (fun hf => hf) ?_
    rw [State.goto_thread, hthread, h0 trivial]
    rw [hpc] at ha
    exact ha.1 ▸ Nat.one_pos
  | enqueued hne =>
    exact .of_enqueues (hpc' _ _) (h0 trivial) (fun o1 e1 e => by cases e) (fun _ => hne) fun hf => hf
  | stay => exact hon _ _ trivial rfl nofun nofun fun hf => hf
  | takeNext | skipNext | enqueueNext | count =>
    refine hon _ _ trivial ?_ nofun nofun fun hf => hf
    exact (congrArg Thread.nSignaled (hthread _ _)).trans rfl
  | blockAll =>
    refine .of_sleeps (hpc' _ _) (fun hf => hf) ?_
    rw [State.goto_thread, hthread, h0 trivial]
    exact Nat.pos_of_ne_zero (h.enqueued hpc)
  | removeNext => exact .of_pc hpc (fun hf => hf) fun hf => hf
  | _ => exact .of_pc (hpc' _ _) (fun hf => hf) fun hf => hf

/-! ### Steps of the others -/

/-- A thread at its second look, undisturbed, has its node on the list. -/
theorem Quiet.node_mem {o : O} {entry : ℕ} (h : Quiet s t) (hinv : Inv s t)
    (hpc : s.pc t = .recheck o entry) : ∃ n ∈ (s.obj o).waiting, n.thread = t := by
  obtain ⟨m, hm, ha⟩ := hinv.account
  have h0 := h.unsignaled (by rw [hpc]; trivial)
  rw [hpc] at ha
  obtain ⟨-, hsum, rfl | rfl⟩ := ha
  · rw [h0] at hsum
    cases hsum
  · by_contra hno
    have hzero : nodesOn s t o = 0 := nodesOn_eq_zero.mpr fun n hn he => hno ⟨n, hn, he⟩
    rw [hm o, List.count_singleton_self] at hzero
    cases hzero

theorem Quiet.step_other {who : T → Bool} {op : Op T O} (h : Quiet s t) (hinv : Inv s t)
    (hwho : who t = true) (hok : unraced who s op = true) (hop : op.actor ≠ some t)
    (hs : step s op = some s') : Quiet s' t := by
  rcases Wait.step_other hop hs with hu | ⟨u, o, all, boost, old, n, rest, rfl, hpcu, hw, hn, hr⟩
  · refine ⟨?_, fun o entry hpc => ?_, ?_, ?_⟩
    · rw [hu.pc, hu.thread]
      exact h.unsignaled
    · -- the flag of the object was not set: a signal that starts finds the thread blocked
      rw [hu.pc] at hpc
      by_contra hsig
      rw [Bool.not_eq_false] at hsig
      rcases (step_flags hs o).2 hsig with hold | ⟨u, all, boost, rfl⟩
      · rw [h.flag o entry hpc] at hold
        cases hold
      · obtain ⟨n, hn, rfl⟩ := h.node_mem hinv hpc
        have hblocked := List.all_eq_true.mp hok n hn
        simp only [hwho, Bool.not_true, Bool.false_or, decide_eq_true_eq] at hblocked
        exact (hinv.awake (by simp [hpc, Pc.Sleeps])).2 hblocked
    · rw [hu.pc, hu.thread]
      exact h.enqueued
    · rw [hu.pc, hu.thread]
      exact h.waits
  · -- the thread is blocked, and still is unless this was the last signal
    have hblocked : (s.thread t).sched.status = .blocked := by
      simpa [unraced, hpcu, hw, hn, hwho] using hok
    obtain ⟨-, hsleeps⟩ := hinv.sched.resolve_left fun ha => ha.2 hblocked
    have hlt := h.waits hsleeps hblocked
    obtain ⟨-, hawake, -⟩ := Thread.signalled_spec hinv.able hinv.awake_or_parked boost
    have henq : ¬ (s.pc t).Enqueues := by
      cases hpc : s.pc t <;> simp_all [Pc.Sleeps, Pc.Enqueues]
    refine .of_not_enqueues hr.pc henq fun _ hb => ?_
    rw [hr.thread] at hb ⊢
    rw [Thread.signalled_nSignaled, Thread.signalled_nWaiting]
    refine lt_of_le_of_ne hlt fun he => ?_
    exact (hawake (.inr he)).2 hb

theorem Quiet.step {who : T → Bool} {op : Op T O} (h : Quiet s t) (hinv : Inv s t)
    (hwho : who t = true) (hok : unraced who s op = true) (hs : step s op = some s') :
    Quiet s' t := by
  by_cases hop : op.actor = some t
  · have hpc' : ∀ {s1 : State T O} {pc}, some (s1.goto t pc) = some s' → s'.pc t = pc := by
      intro s1 pc e
      rw [← Option.some.inj e]
      exact update_self ..
    cases op with
    | waitOnObject u o =>
      obtain ⟨rfl⟩ := hop
      rw [Wait.step, stepWith] at hs
      split_ifs at hs with h1 h2
      · exact Option.some.inj hs ▸ h
      · exact .of_pc (hpc' hs) (fun hf => hf) fun hf => hf
    | waitOnObjects u os =>
      obtain ⟨rfl⟩ := hop
      rw [Wait.step, stepWith] at hs
      split_ifs at hs with h1 h2
      · exact Option.some.inj hs ▸ h
      · refine .of_enqueues (hpc' hs) ?_ (fun o1 e1 e => by cases e) (fun e => by cases e)
          fun hf => hf
        rw [← Option.some.inj hs]
        show ((s.setThread t _).thread t).nSignaled = 0
        rw [State.setThread_thread, update_self]
    | signal u o all boost =>
      obtain ⟨rfl⟩ := hop
      rw [Wait.step, stepWith] at hs
      split_ifs at hs with h1 h2
      · refine .of_pc (p := .outside) ?_ (fun hf => hf) fun hf => hf
        rw [← Option.some.inj hs]
        exact (Untouched.raiseSignaled (t := t) s o).pc.trans (not_not.mp h1)
      · exact .of_pc (hpc' hs) (fun hf => hf) fun hf => hf
    | clear o => cases hop
    | irql u i =>
      obtain ⟨rfl⟩ := hop
      rw [Wait.step, stepWith] at hs
      split_ifs at hs with h1
      refine .of_pc (p := .outside) ?_ (fun hf => hf) fun hf => hf
      rw [← Option.some.inj hs]
      exact not_not.mp h1
    | run u =>
      obtain ⟨rfl⟩ := hop
      exact h.runThread hinv hs
  · exact h.step_other hinv hwho hok hop hs

/-- In every run without such a race the invariants hold of the threads in `who`. -/
theorem quiet_run {who : T → Bool} {ops : List (Op T O)} (hinv : Inv s t) (hq : Quiet s t)
    (hok : Run.Meets (fun s op => unraced who s op = true) Wait.step s ops)
    (hrun : ops.foldlM Wait.step s = some s') (hwho : who t = true) : Inv s' t ∧ Quiet s' t := by
  refine Run.preserves (I := fun s => Inv s t ∧ Quiet s t) ?_ ⟨hinv, hq⟩ hok hrun
  rintro s op s1 ⟨h1, h2⟩ hop hs
  exact ⟨h1.step (fun _ => h2.cleanRecheck) hs, h2.step h1 hwho hop hs⟩

/-! ### No lost wake-up -/

/-- The thread is blocked in a wait, and no list holds a node of it any more. -/
def Stranded (s : State T O) (t : T) : Prop :=
  (s.pc t).Sleeps ∧ (s.thread t).sched.status = .blocked ∧
    ∀ o, ∀ n ∈ (s.obj o).waiting, n.thread ≠ t

/-- By its account a blocked thread that waits for more signals has a node left. -/
theorem Inv.not_stranded (hinv : Inv s t) (hq : Quiet s t) : ¬ Stranded s t := by
  rintro ⟨hsleeps, hblocked, hnone⟩
  have hlt := hq.waits hsleeps hblocked
  obtain ⟨m, hm, ha⟩ := hinv.account
  have hnil := hm.eq_nil_iff.mpr hnone
  cases hpc : s.pc t with
  | asleep o entry =>
    rw [hpc, hnil] at ha
    obtain ⟨h1, h2, -⟩ := ha
    rw [List.length_nil] at h2
    omega
  | asleepAll =>
    rw [hpc, hnil] at ha
    obtain ⟨h1, -⟩ := ha
    rw [List.length_nil] at h1
    omega
  | _ => simp [hpc, Pc.Sleeps] at hsleeps

/-- In every run in which a signal on an object starts, and takes a thread off the
object's list, only when the thread is blocked, no thread is blocked in a wait
with all its nodes taken off. -/
theorem no_lost_wakeup {ops : List (Op T O)} (hfresh : Fresh s)
    (hok : Run.Meets (fun s op => unraced (fun _ => true) s op = true) Wait.step s ops)
    (hrun : ops.foldlM Wait.step s = some s') (t : T) : ¬ Stranded s' t := by
  have hq : Quiet s t := .of_pc (hfresh.pc t) (fun hf => hf) fun hf => hf
  obtain ⟨hinv', hq'⟩ := quiet_run (hfresh.inv t) hq hok hrun rfl
  exact hinv'.not_stranded hq'

theorem no_lost_wakeup_quietSystem :
    ∃ s, waitThenSignal.foldlM Wait.step (quietSystem false) = some s ∧ ∀ t, ¬ Stranded s t := by
  have hsome : (waitThenSignal.foldlM Wait.step (quietSystem false)).isSome = true := by
    decide +kernel
  obtain ⟨s, hrun⟩ := Option.isSome_iff_exists.mp hsome
  exact ⟨s, hrun, no_lost_wakeup (quietSystem_fresh false) (by decide +kernel) hrun⟩

/-- Thread 1 waits on object 0; thread 2 signals the object after the second look,
before thread 1 blocks. -/
def signalBeforeBlock : List (Op ℕ ℕ) :=
  [.waitOnObject 1 0, .run 1, .run 1, .run 1, .signal 2 0 false false, .run 2, .run 2, .run 1]

/-- Thread 1 is blocked, and no list holds a node of it. -/
theorem lost_wakeup :
    Fresh (quietSystem false) ∧
      ∃ s, signalBeforeBlock.foldlM Wait.step (quietSystem false) = some s ∧ Stranded s 1 := by
  refine ⟨quietSystem_fresh false, _, rfl, trivial, rfl, fun o n hn => ?_⟩
  cases o with
  | zero => cases hn
  | succ o => cases hn

/-! ### Waiting for all -/

/-- The thread `t` runs outside of the functions and has neither a node on a list
nor a lock. -/
structure AtRest (s : State T O) (t : T) : Prop where
  pc : s.pc t = .outside
  able : Able s.cpuCount (s.thread t).sched
  awake : Awake (s.thread t).sched
  nodes : ∀ o, ∀ n ∈ (s.obj o).waiting, n.thread ≠ t
  locks : ∀ o, (s.obj o).lock ≠ some t
  lockNode : s.lockNode t = none

theorem AtRest.inv (h : AtRest s t) : Inv s t where
  able := h.able
  sched := .inl h.awake
  account := by
    refine ⟨[], fun o => nodesOn_eq_zero.mpr (h.nodes o), ?_⟩
    rw [h.pc]
    rfl
  held o hl := absurd hl (h.locks o)
  lockNode o ho := by
    rw [h.lockNode] at ho
    cases ho
  irql hr := by
    rw [h.pc] at hr
    exact hr.elim

/-- `t` blocked in `Core_WaitOnObjects` with nothing signalled, when it had been
readied `r` times: either it still is blocked and waits for more signals than have
come, or it has been readied once more. -/
structure WaitsForAll (s : State T O) (t : T) (r : ℕ) : Prop where
  pc : s.pc t = .asleepAll
  inv : Inv s t
  once : ((s.thread t).sched.status = .blocked ∧
      (s.thread t).nSignaled < (s.thread t).nWaiting ∧ s.readied t = r) ∨
    ((s.thread t).sched.status ≠ .blocked ∧ s.readied t = r + 1)

/-- The block itself. -/
theorem WaitsForAll.block (hinv : Inv s t) (hq : Quiet s t) (hpc : s.pc t = .blockAll)
    (hs : Wait.step s (.run t) = some s') : WaitsForAll s' t (s.readied t) := by
  have hinv' : Inv s' t := hinv.step (fun _ => hq.cleanRecheck) hs
  have hlt : (s.thread t).nSignaled < (s.thread t).nWaiting := by
    rw [hq.unsignaled (by rw [hpc]; trivial)]
    exact Nat.pos_of_ne_zero (hq.enqueued hpc)
  have hblock : blockThread (s.thread t).sched = (s.thread t).sched.blocked :=
    blockThread_of_awake hinv.able (hinv.awake (by rw [hpc]; exact fun hf => hf))
  simp only [Wait.step, stepWith, Wait.runThread, runPlain, hpc, hblock, Option.some.injEq] at hs
  subst hs
  refine ⟨update_self .., hinv', .inl ?_⟩
  have hthread : ∀ x, ((s.setThread t x).goto t .asleepAll).thread t = x :=
    fun x => update_self ..
  rw [hthread]
  exact ⟨rfl, hlt, rfl⟩

theorem WaitsForAll.step {r : ℕ} {op : Op T O} (h : WaitsForAll s t r) (hop : op.actor ≠ some t)
    (hs : Wait.step s op = some s') : WaitsForAll s' t r := by
  have hinv' : Inv s' t := by
    refine h.inv.step (fun e => ?_) hs
    rw [e] at hop
    exact absurd rfl hop
  rcases Wait.step_other hop hs with hu | ⟨u, o, all, boost, old, n, rest, rfl, -, hw, hn, hr⟩
  · refine ⟨hu.pc.trans h.pc, hinv', ?_⟩
    rw [hu.thread, hu.readied]
    exact h.once
  · -- it has a node, so it has not been readied
    have hblocked : (s.thread t).sched.status = .blocked := by
      by_contra hne
      obtain ⟨m, hm, ha⟩ := h.inv.account
      rw [h.pc] at ha
      exact hm.eq_nil_iff.mp (ha.2 hne) o n (by rw [hw]; exact List.mem_cons_self) hn
    obtain ⟨-, hlt, hread⟩ := h.once.resolve_right fun hf => hf.1 hblocked
    have hparked := (h.inv.sched.resolve_left fun ha => ha.2 hblocked).1
    obtain ⟨-, hlast, hmore⟩ := Thread.signalled_spec h.inv.able (.inr hparked) boost
    refine ⟨hr.pc.trans h.pc, hinv', ?_⟩
    by_cases he : (s.thread t).nSignaled + 1 = (s.thread t).nWaiting
    · have hawake := hlast (.inr he)
      rw [← hr.thread] at hawake
      refine .inr ⟨hawake.2, ?_⟩
      rw [hr.readied, hread, if_pos ⟨by rw [hparked.1]; rfl, hawake.1⟩]
    · have hsame := hmore he
      rw [← hr.thread] at hsame
      refine .inl ⟨by rw [hsame, hblocked], ?_, ?_⟩
      · rw [hr.thread, Thread.signalled_nSignaled, Thread.signalled_nWaiting]
        omega
      · rw [hr.readied, hread, hsame, hparked.1]
        rfl

theorem WaitsForAll.run {r : ℕ} {ops : List (Op T O)} (h : WaitsForAll s t r)
    (hops : ∀ op ∈ ops, op.actor ≠ some t) (hrun : ops.foldlM Wait.step s = some s') :
    WaitsForAll s' t r := by
  induction ops generalizing s with
  | nil => exact Option.some.inj hrun ▸ h
  | cons op ops ih =>
    obtain ⟨s1, hs1, hrest⟩ := Option.bind_eq_some_iff.mp hrun
    exact ih (h.step (hops op List.mem_cons_self) hs1)
      (fun op' hop' => hops op' (List.mem_cons_of_mem _ hop')) hrest

/-- A thread calls `Core_WaitOnObjects` and comes to its block before any of the
objects it enqueued itself on is signalled.  From there on, whatever the others do,
it is either blocked, has not been readied and has a node on a list, or it has been
readied, once, and has no node on any list. -/
theorem readied_once {s0 s1 : State T O} {os : List O} {ops ops' : List (Op T O)}
    (hrest : AtRest s0 t)
    (hok : Run.Meets (fun s op => unraced (fun u => decide (u = t)) s op = true) Wait.step s0
      (.waitOnObjects t os :: ops))
    (hrun : (.waitOnObjects t os :: ops).foldlM Wait.step s0 = some s1)
    (hpc : s1.pc t = .blockAll) (hops : ∀ op ∈ ops', op.actor ≠ some t)
    (hrun' : (.run t :: ops').foldlM Wait.step s1 = some s') :
    ((s'.thread t).sched.status = .blocked ∧ s'.readied t = s1.readied t ∧
        ∃ o, ∃ n ∈ (s'.obj o).waiting, n.thread = t) ∨
      ((s'.thread t).sched.status ≠ .blocked ∧ s'.readied t = s1.readied t + 1 ∧
        ∀ o, ∀ n ∈ (s'.obj o).waiting, n.thread ≠ t) := by
  have hq : Quiet s0 t := .of_pc hrest.pc (fun hf => hf) fun hf => hf
  obtain ⟨hinv1, hq1⟩ := quiet_run hrest.inv hq hok hrun (decide_eq_true rfl)
  obtain ⟨s2, hs2, hrun2⟩ := Option.bind_eq_some_iff.mp hrun'
  have h := (WaitsForAll.block hinv1 hq1 hpc hs2).run hops hrun2
  obtain ⟨m, hm, ha⟩ := h.inv.account
  rw [h.pc] at ha
  rcases h.once with ⟨hb, hlt, hread⟩ | ⟨hb, hread⟩
  · refine .inl ⟨hb, hread, ?_⟩
    by_contra hno
    have hnil : m = [] := hm.eq_nil_iff.mpr fun o n hn he => hno ⟨o, n, hn, he⟩
    have hsum := ha.1
    rw [hnil, List.length_nil] at hsum
    omega
  · exact .inr ⟨hb, hread, hm.eq_nil_iff.mp (ha.2 hb)⟩

end Obos.Wait
