/-
The account of a waiting thread.

`Account x m pc` says what the counters `nWaiting` and `nSignaled` of a thread at
`pc` have to do with the nodes `m` it has on the lists of objects: while it waits,
the signals that have come and the nodes that are left make up the objects it
waits for, and outside of the wait functions it has no node.  `Inv s t` adds who
runs, who holds which spinlock and at what IRQL.  It is an invariant of the one
thread `t`: the other threads touch it only by taking a node off a list
(`step_other`).

It breaks on one path.  Behind its append `Core_WaitOnObject` looks at the object
once more, without the lock, and returns if it finds it signalled; it neither
lowers the IRQL nor takes the node off the list.

* `wait_leaves_no_trace` — in every run in which that look finds the object
  signalled only when there is nothing to take back, `Core_WaitOnObject` returns
  at its caller's IRQL, without the lock and with no node on any list,
* `recheck_leaves_traces` — a run in which it does not.
-/
import Obos.Wait
import Obos.Lib.Run

namespace Obos.Wait

open Function List
open Sched (ThreadStatus maxPriority)

variable {T O : Type*} [DecidableEq T]

/-! ### The nodes of a thread -/

/-- How many nodes of `t` are on the list of `o`. -/
def nodesOn (s : State T O) (t : T) (o : O) : ℕ := (s.obj o).waiting.countP fun n => n.thread = t

/-- `m` lists the objects on whose lists the nodes of `t` are. -/
def Holds [DecidableEq O] (s : State T O) (t : T) (m : List O) : Prop :=
  ∀ o, nodesOn s t o = m.count o

theorem Holds.congr [DecidableEq O] {s s' : State T O} {t : T} {m : List O} (h : Holds s t m)
    (hs : ∀ o, nodesOn s' t o = nodesOn s t o) : Holds s' t m :=
  fun o => (hs o).trans (h o)

theorem nodesOn_eq_zero {s : State T O} {t : T} {o : O} :
    nodesOn s t o = 0 ↔ ∀ n ∈ (s.obj o).waiting, n.thread ≠ t := by
  rw [nodesOn, countP_eq_zero]
  simp

theorem Holds.eq_nil_iff [DecidableEq O] {s : State T O} {t : T} {m : List O} (h : Holds s t m) :
    m = [] ↔ ∀ o, ∀ n ∈ (s.obj o).waiting, n.thread ≠ t := by
  constructor
  · rintro rfl o
    exact nodesOn_eq_zero.mp (h o)
  · intro hn
    rw [eq_nil_iff_forall_not_mem]
    intro o ho
    have hpos := count_pos_iff.mpr ho
    rw [← h o, nodesOn_eq_zero.mpr (hn o)] at hpos
    exact lt_irrefl 0 hpos

/-! ### The invariant of one thread -/

/-- The thread can be readied. -/
structure Able (cpuCount : ℕ) (x : Sched.Thread) : Prop where
  snode : x.snode ≠ 0
  priority : x.priority ≤ maxPriority
  cpu : (someCpu cpuCount x).isSome = true

def Awake (x : Sched.Thread) : Prop := x.masterCPU.isSome = true ∧ x.status ≠ .blocked

/-- On no ready list, in `CoreH_ThreadBlock`. -/
def Parked (x : Sched.Thread) : Prop := x.masterCPU = none ∧ x.status = .blocked

/-- The thread may be blocked here. -/
def Pc.Sleeps : Pc O → Prop
  | .asleep _ _ | .asleepAll => True
  | _ => False

/-- The object whose lock is held here. -/
def Pc.holds : Pc O → Option O
  | .check o _ | .checkNext o _ _ | .signalLoop o _ _ _ => some o
  | _ => none

/-- `Core_WaitOnObject` has raised the IRQL. -/
def Pc.Raised : Pc O → Prop
  | .acquire _ _ | .check _ _ | .recheck _ _ => True
  | _ => False

/-- The books of a thread with the nodes `m`: outside it has none; while it waits
the signals that have come and the nodes that are left make up the objects it
waits for; and once it was readied none is left. -/
def Account (x : Thread) (m : List O) : Pc O → Prop
  | .outside | .acquire _ _ | .check _ _ | .signalAcquire _ _ _ | .signalLoop _ _ _ _ => m = []
  | .recheck o _ | .block o _ => x.nWaiting = 1 ∧ x.nSignaled + m.length = 1 ∧ (m = [] ∨ m = [o])
  | .asleep _ _ =>
    x.nWaiting = 1 ∧ x.nSignaled + m.length = 1 ∧ (x.sched.status ≠ .blocked → m = [])
  | .nextObject _ | .checkNext _ _ _ | .blockAll => x.nSignaled + m.length = x.nWaiting
  | .countNext _ => x.nSignaled + m.length = x.nWaiting + 1
  | .asleepAll =>
    x.nSignaled + m.length = x.nWaiting ∧ (x.sched.status ≠ .blocked → m = [])

structure Inv [DecidableEq O] (s : State T O) (t : T) : Prop where
  able : Able s.cpuCount (s.thread t).sched
  sched : Awake (s.thread t).sched ∨ (Parked (s.thread t).sched ∧ (s.pc t).Sleeps)
  account : ∃ m, Holds s t m ∧ Account (s.thread t) m (s.pc t)
  held : ∀ o, (s.obj o).lock = some t → (s.pc t).holds = some o
  lockNode : ∀ o, s.lockNode t = some o → ⟨t, true⟩ ∈ (s.obj o).waiting
  irql : (s.pc t).Raised → (s.thread t).irql = dispatchIrql

/-! ### Blocking and readying -/

section Threads

variable {cpuCount : ℕ} {x : Sched.Thread}

theorem blockThread_of_awake (ha : Able cpuCount x) (hw : Awake x) : blockThread x = x.blocked := by
  have h1 : ¬ (x.masterCPU.isNone = true ∨ maxPriority < x.priority) := by
    rintro (h | h)
    · simp [Option.isNone_iff_eq_none.mp h, Awake] at hw
    · exact absurd ha.priority (Nat.not_le.mpr h)
  rw [blockThread, if_neg h1, if_neg hw.2]

/-- A boosted thread differs in its priority and its boost. -/
theorem boostThread_cases {P : Sched.Thread → Prop} (hx : P x)
    (hb : x.priority ≠ maxPriority → P x.boosted) :
    P (boostThread x) := by
  rw [boostThread]
  refine iteInduction (fun _ => hx) fun _ => ?_
  exact iteInduction (fun _ => hx) fun _ => iteInduction (fun _ => hx) fun h => hb fun e => h (.inr e)

theorem boostThread_able (ha : Able cpuCount x) : Able cpuCount (boostThread x) :=
  boostThread_cases ha fun hmax => ⟨ha.snode, lt_of_le_of_ne ha.priority hmax, ha.cpu⟩

theorem readyThread_of_awake (hw : Awake x) : readyThread cpuCount x = x := by
  rw [readyThread, if_pos hw.1, ite_self]

/-- A blocked thread that can be readied is. -/
theorem readyThread_of_parked (ha : Able cpuCount x) (hp : Parked x) :
    Awake (readyThread cpuCount x) ∧ Able cpuCount (readyThread cpuCount x) := by
  obtain ⟨c, hc⟩ := Option.isSome_iff_exists.mp ha.cpu
  have h1 : ¬ (x.snode = 0 ∨ maxPriority < x.priority) := by
    rintro (h | h)
    · exact ha.snode h
    · exact absurd ha.priority (Nat.not_le.mpr h)
  have h2 : ¬ x.masterCPU.isSome = true := by simp [hp.1]
  rw [readyThread, if_neg h1, if_neg h2, hc]
  exact ⟨⟨rfl, by simp [Sched.Thread.readied]⟩, ha.snode, ha.priority, ha.cpu⟩

/-- What a signal does to a thread. -/
theorem Thread.signalled_spec {x : Thread} (ha : Able cpuCount x.sched)
    (hs : Awake x.sched ∨ Parked x.sched) (boost : Bool) :
    Able cpuCount (x.signalled cpuCount boost).sched ∧
      (Awake x.sched ∨ x.nSignaled + 1 = x.nWaiting →
        Awake (x.signalled cpuCount boost).sched) ∧
      (x.nSignaled + 1 ≠ x.nWaiting → (x.signalled cpuCount boost).sched = x.sched) := by
  by_cases hn : x.nSignaled + 1 = x.nWaiting
  · -- the last signal boosts the thread if asked to, and then readies it
    have hboost : ∃ y, y = (if boost then boostThread x.sched else x.sched) ∧ Able cpuCount y ∧
        (Awake y ∨ Parked y) := by
      cases boost with
      | false => exact ⟨_, rfl, ha, hs⟩
      | true => 
        exact ⟨_, rfl, boostThread_able ha, hs.imp (fun h => boostThread_cases h fun _ => h)
          fun h => boostThread_cases h fun _ => h⟩
    obtain ⟨y, hy, hya, hys⟩ := hboost
    have hready : Awake (readyThread cpuCount y) ∧ Able cpuCount (readyThread cpuCount y) := by
      rcases hys with hw | hp
      · rw [readyThread_of_awake hw]
        exact ⟨hw, hya⟩
      · exact readyThread_of_parked hya hp
    rw [Thread.signalled, if_pos hn, ← hy]
    exact ⟨hready.2, fun _ => hready.1, fun hne => absurd hn hne⟩
  · rw [Thread.signalled, if_neg hn]
    exact ⟨ha, fun h => h.resolve_right hn, fun _ => rfl⟩

theorem Thread.signalled_nSignaled (x : Thread) (boost : Bool) :
    (x.signalled cpuCount boost).nSignaled = x.nSignaled + 1 := by
  rw [Thread.signalled]
  split <;> rfl

theorem Thread.signalled_nWaiting (x : Thread) (boost : Bool) :
    (x.signalled cpuCount boost).nWaiting = x.nWaiting := by
  rw [Thread.signalled]
  split <;> rfl

theorem Thread.signalled_irql (x : Thread) (boost : Bool) :
    (x.signalled cpuCount boost).irql = x.irql := by
  rw [Thread.signalled]
  split <;> rfl

end Threads

/-! ### Steps of the other threads -/

/-- Nothing that the invariant of `t` reads has changed; `t` may have lost a lock. -/
structure Untouched (s s' : State T O) (t : T) : Prop where
  cpuCount : s'.cpuCount = s.cpuCount
  thread : s'.thread t = s.thread t
  pc : s'.pc t = s.pc t
  readied : s'.readied t = s.readied t
  lockNode : s'.lockNode t = s.lockNode t
  count : ∀ o, nodesOn s' t o = nodesOn s t o
  own : ∀ o, ⟨t, true⟩ ∈ (s.obj o).waiting → ⟨t, true⟩ ∈ (s'.obj o).waiting
  lock : ∀ o, (s'.obj o).lock = some t → (s.obj o).lock = some t

namespace Untouched

variable {s s' s'' : State T O} {t u : T}

theorem refl (s : State T O) (t : T) : Untouched s s t :=
  ⟨rfl, rfl, rfl, rfl, rfl, fun _ => rfl, fun _ h => h, fun _ h => h⟩

theorem trans (h : Untouched s s' t) (h' : Untouched s' s'' t) : Untouched s s'' t where
  cpuCount := h'.cpuCount.trans h.cpuCount
  thread := h'.thread.trans h.thread
  pc := h'.pc.trans h.pc
  readied := h'.readied.trans h.readied
  lockNode := h'.lockNode.trans h.lockNode
  count o := (h'.count o).trans (h.count o)
  own o hm := h'.own o (h.own o hm)
  lock o hl := h.lock o (h'.lock o hl)

theorem goto (s : State T O) (hu : t ≠ u) (pc : Pc O) : Untouched s (s.goto u pc) t :=
  { refl s t with pc := update_of_ne hu _ _ }

theorem setThread (s : State T O) (hu : t ≠ u) (x : Thread) : Untouched s (s.setThread u x) t :=
  { refl s t with thread := update_of_ne hu _ _ }

theorem setLockNode (s : State T O) (hu : t ≠ u) (o : Option O) :
    Untouched s (s.setLockNode u o) t :=
  { refl s t with lockNode := update_of_ne hu _ _ }

variable [DecidableEq O]

variable (s : State T O)

/-- An object changes, but neither the nodes of `t` on its list nor, in favour of
`t`, its lock. -/
theorem setObj {o : O} {x : Waitable T}
    (hcount : x.waiting.countP (fun n => n.thread = t) = nodesOn s t o)
    (hown : ⟨t, true⟩ ∈ (s.obj o).waiting → ⟨t, true⟩ ∈ x.waiting)
    (hlock : x.lock = some t → (s.obj o).lock = some t) : Untouched s (s.setObj o x) t := by
  have hcase : ∀ (P : Waitable T → Waitable T → Prop), P (s.obj o) x → (∀ y, P y y) →
      ∀ o', P (s.obj o') ((s.setObj o x).obj o') := by
    intro P hx hrefl o'
    rw [State.setObj_obj]
    by_cases ho : o' = o
    · rw [ho, update_self]
      exact hx
    · rw [update_of_ne ho]
      exact hrefl _
  refine { refl s t with count := ?_, own := ?_, lock := ?_ }
  · exact hcase (fun a b => b.waiting.countP (fun n => n.thread = t) =
      a.waiting.countP fun n => n.thread = t) hcount fun _ => rfl
  · exact hcase (fun a b => ⟨t, true⟩ ∈ a.waiting → ⟨t, true⟩ ∈ b.waiting) hown fun _ h => h
  · exact hcase (fun a b => b.lock = some t → a.lock = some t) hlock fun _ h => h

theorem setLock (hu : t ≠ u) (o : O) {holder : Option T}
    (hholder : holder = none ∨ holder = some u) : Untouched s (s.setLock o holder) t := by
  refine setObj s rfl (fun h => h) fun h => ?_
  rcases hholder with rfl | rfl
  · cases h
  · exact absurd (Option.some.inj h).symm hu

theorem setSignaled (o : O) (b : Bool) : Untouched s (s.setSignaled o b) t :=
  setObj s rfl (fun h => h) fun h => h

theorem raiseSignaled (o : O) : Untouched s (s.raiseSignaled o) t := by
  rw [State.raiseSignaled]
  split
  · exact setSignaled s o true
  · exact refl s t

theorem append (o : O) {n : Node T} (hn : n.thread ≠ t) :
    Untouched s (s.append o n) t := by
  refine setObj s ?_ (fun h => mem_append_left _ h) fun h => h
  rw [countP_append, countP_cons_of_neg (by simpa using hn)]
  rfl

theorem spinlockAcquire (hu : t ≠ u) (o : O) :
    Untouched s (s.spinlockAcquire u o) t :=
  (setLock s hu o (.inr rfl)).trans (setThread _ hu _)

theorem spinlockRelease (hu : t ≠ u) (o : O) (old : Option ℕ) :
    Untouched s (s.spinlockRelease u o old) t :=
  (setLock s hu o (.inl rfl)).trans (setThread _ hu _)

end Untouched

/-- A signal on `o` has taken a node of `t` off the list. -/
structure Removed (s s' : State T O) (t : T) (o : O) (boost : Bool) : Prop where
  cpuCount : s'.cpuCount = s.cpuCount
  thread : s'.thread t = (s.thread t).signalled s.cpuCount boost
  pc : s'.pc t = s.pc t
  readied : s'.readied t = s.readied t +
    if (s.thread t).sched.masterCPU.isNone ∧ (s'.thread t).sched.masterCPU.isSome then 1 else 0
  lockNode : ∀ o', s'.lockNode t = some o' → s.lockNode t = some o' ∧
    (⟨t, true⟩ ∈ (s.obj o').waiting → ⟨t, true⟩ ∈ (s'.obj o').waiting)
  count_self : nodesOn s t o = nodesOn s' t o + 1
  count : ∀ o', o' ≠ o → nodesOn s' t o' = nodesOn s t o'
  lock : ∀ o', (s'.obj o').lock = some t → (s.obj o').lock = some t

section Others

variable {s s' s'' : State T O} {t u : T} {o : O} {boost : Bool}

theorem Removed.trans (h : Removed s s' t o boost) (h' : Untouched s' s'' t) :
    Removed s s'' t o boost where
  cpuCount := h'.cpuCount.trans h.cpuCount
  thread := h'.thread.trans h.thread
  pc := h'.pc.trans h.pc
  readied := by rw [h'.readied, h'.thread, h.readied]
  lockNode o' ho' := by
    rw [h'.lockNode] at ho'
    exact ⟨(h.lockNode o' ho').1, fun hm => h'.own o' ((h.lockNode o' ho').2 hm)⟩
  count_self := by rw [h'.count, h.count_self]
  count o' ho' := (h'.count o').trans (h.count o' ho')
  lock o' hl := h.lock o' (h'.lock o' hl)

variable [DecidableEq O] {n : Node T} {rest : List (Node T)}

theorem removeNode_untouched (hw : (s.obj o).waiting = n :: rest) (hn : n.thread ≠ t) :
    Untouched s (removeNode s o boost n rest) t := by
  -- what happens to the object is the same as for any other change of it
  have hobj : Untouched s (s.setObj o { s.obj o with waiting := rest }) t := by
    refine .setObj s ?_ (fun hm => ?_) fun h => h
    · rw [nodesOn, hw, countP_cons_of_neg (by simpa using hn)]
    · rw [hw] at hm
      refine (mem_cons.mp hm).resolve_left ?_
      rintro rfl
      exact hn rfl
  refine ⟨rfl, update_of_ne hn.symm _ _, rfl, ?_, ?_, hobj.count, hobj.own, hobj.lock⟩
  · rw [removeNode_readied]
    split
    · exact update_of_ne hn.symm _ _
    · rfl
  · rw [removeNode_lockNode]
    split
    · exact update_of_ne hn.symm _ _
    · rfl

theorem removeNode_removed (hw : (s.obj o).waiting = n :: rest) (hn : n.thread = t) :
    Removed s (removeNode s o boost n rest) t o boost := by
  subst hn
  have hself : ((removeNode s o boost n rest).obj o) = { s.obj o with waiting := rest } :=
    update_self ..
  have hother : ∀ {o'}, o' ≠ o → (removeNode s o boost n rest).obj o' = s.obj o' :=
    fun ho => update_of_ne ho _ _
  have hthread : (removeNode s o boost n rest).thread n.thread =
      (s.thread n.thread).signalled s.cpuCount boost := update_self ..
  refine ⟨rfl, hthread, rfl, ?_, fun o' ho' => ?_, ?_, fun o' ho' => ?_, fun o' hl => ?_⟩
  · rw [hthread, removeNode_readied]
    split
    · exact update_self ..
    · rfl
  · -- only the node on the heap leaves `lock_node` where it is
    rw [removeNode_lockNode] at ho'
    by_cases hown : n.own = true
    · rw [if_pos hown, update_self] at ho'
      cases ho'
    · rw [if_neg hown] at ho'
      refine ⟨ho', fun hm => ?_⟩
      by_cases he : o' = o
      · subst he
        rw [hself]
        rw [hw] at hm
        refine (mem_cons.mp hm).resolve_left fun e => ?_
        exact hown (congrArg Node.own e).symm
      · rw [hother he]
        exact hm
  · rw [nodesOn, nodesOn, hw, hself, countP_cons_of_pos (by simp)]
  · rw [nodesOn, hother ho', nodesOn]
  · by_cases he : o' = o
    · subst he
      rw [hself] at hl
      exact hl
    · rw [hother he] at hl
      exact hl

/-- A step of another thread leaves `t` alone, or is the turn of a signal that
takes a node of `t` off a list. -/
theorem runThread_other (hu : t ≠ u) (h : runThread s u = some s') :
    Untouched s s' t ∨ ∃ o all boost old n rest, s.pc u = .signalLoop o all boost old ∧
      (s.obj o).waiting = n :: rest ∧ n.thread = t ∧ Removed s s' t o boost := by
  have hstep := runThread_cases h
  generalize s.pc u = p at hstep ⊢
  -- the release at the end of the loop does not concern `t`
  have hremove : ∀ o all boost old n rest, (s.obj o).waiting = n :: rest →
      Untouched (removeNode s o boost n rest) s' t → p = .signalLoop o all boost old →
      Untouched s s' t ∨ ∃ o all boost old n rest, p = .signalLoop o all boost old ∧
        (s.obj o).waiting = n :: rest ∧ n.thread = t ∧ Removed s s' t o boost := by
    intro o all boost old n rest hw hend hp
    by_cases hn : n.thread = t
    · exact .inr ⟨o, all, boost, old, n, rest, hp, hw, hn, (removeNode_removed hw hn).trans hend⟩
    · exact .inl ((removeNode_untouched hw hn).trans hend)
  cases hstep with
  | take => exact .inl ((Untouched.setLock s hu _ (.inr rfl)).trans (.goto _ hu _))
  | signaled =>
    refine .inl (Untouched.trans (Untouched.trans ?_ (.setLock _ hu _ (.inl rfl))) (.goto _ hu _))
    exact .setThread s hu _
  | enqueue =>
    refine .inl (Untouched.trans (Untouched.trans ?_ (.setLock _ hu _ (.inl rfl))) (.goto _ hu _))
    refine Untouched.trans (Untouched.trans ?_ (.append _ _ hu.symm)) (.setLockNode _ hu _)
    exact .setThread s hu _
  | back | stay | enqueued | unneeded | wakeAll => exact .inl (.goto s hu _)
  | block | wake | count | blockAll =>
    exact .inl ((Untouched.setThread s hu _).trans (.goto _ hu _))
  | takeNext | takeSignal => exact .inl ((Untouched.spinlockAcquire s hu _).trans (.goto _ hu _))
  | skipNext | drained => exact .inl ((Untouched.spinlockRelease s hu _ _).trans (.goto _ hu _))
  | enqueueNext =>
    refine .inl (Untouched.trans (Untouched.trans ?_ (.spinlockRelease _ hu _ _)) (.goto _ hu _))
    exact .append s _ hu.symm
  | removeOne o boost old n rest hw =>
    exact hremove o _ boost old n rest hw
      ((Untouched.spinlockRelease _ hu _ _).trans (.goto _ hu _)) rfl
  | removeNext o boost old n rest hw => exact hremove o _ boost old n rest hw (.refl _ t) rfl

end Others

section Invariant

variable [DecidableEq O] {s s' : State T O} {t : T}

theorem Inv.of_untouched (h : Inv s t) (hs : Untouched s s' t) : Inv s' t := by
  obtain ⟨m, hm, hacc⟩ := h.account
  refine ⟨?_, ?_, ⟨m, hm.congr hs.count, ?_⟩, fun o ho => ?_, fun o ho => ?_, ?_⟩
  · rw [hs.cpuCount, hs.thread]
    exact h.able
  · rw [hs.thread, hs.pc]
    exact h.sched
  · rw [hs.thread, hs.pc]
    exact hacc
  · rw [hs.pc]
    exact h.held o (hs.lock o ho)
  · rw [hs.lockNode] at ho
    exact hs.own o (h.lockNode o ho)
  · rw [hs.thread, hs.pc]
    exact h.irql

theorem Inv.awake_or_parked (h : Inv s t) :
    Awake (s.thread t).sched ∨ Parked (s.thread t).sched :=
  h.sched.imp_right And.left

/-- The nodes that are left when one was taken off the list of `o`. -/
theorem Removed.holds {o : O} {boost : Bool} {m : List O} (hs : Removed s s' t o boost)
    (hm : Holds s t m) : o ∈ m ∧ Holds s' t (m.erase o) := by
  have hpos : 0 < m.count o := by
    rw [← hm o, hs.count_self]
    exact Nat.succ_pos _
  refine ⟨count_pos_iff.mp hpos, fun o' => ?_⟩
  by_cases ho : o' = o
  · rw [ho, count_erase_self, ← hm o, hs.count_self, Nat.add_sub_cancel]
  · rw [hs.count o' ho, hm o', count_erase_of_ne ho]

/-- A signal that takes a node of the thread off a list keeps its books. -/
theorem Account.removed {o : O} {boost : Bool} {m : List O} {pc : Pc O} {x : Thread} {k : ℕ}
    (hacc : Account x m pc) (ho : o ∈ m) (ha : Able k x.sched)
    (hs : Awake x.sched ∨ Parked x.sched) :
    Account (x.signalled k boost) (m.erase o) pc := by
  obtain ⟨-, -, hsame⟩ := Thread.signalled_spec ha hs boost
  have hlen : (m.erase o).length + 1 = m.length := by
    rw [length_erase_of_mem ho]
    exact Nat.sub_add_cancel (length_pos_of_mem ho)
  have hnil : m ≠ [] := ne_nil_of_mem ho
  have hone : m.length = 1 → m.erase o = [] := by
    intro h1
    exact eq_nil_of_length_eq_zero (by omega)
  -- a thread that is no longer blocked has been signalled for the last time
  have hlast : x.nSignaled + m.length = x.nWaiting → (x.sched.status ≠ .blocked → m = []) →
      (x.signalled k boost).sched.status ≠ .blocked → m.erase o = [] := by
    intro hsum hold hnew
    by_cases hn : x.nSignaled + 1 = x.nWaiting
    · exact hone (by omega)
    · rw [hsame hn] at hnew
      exact absurd (hold hnew) hnil
  cases pc with
  | outside | acquire | check | signalAcquire | signalLoop => exact absurd hacc hnil
  | recheck o' | block o' =>
    obtain ⟨h1, h2, h3⟩ := hacc
    refine ⟨by rw [Thread.signalled_nWaiting, h1], ?_, .inl ?_⟩
    · rw [Thread.signalled_nSignaled]
      omega
    · rw [h3.resolve_left hnil] at ho ⊢
      rw [mem_singleton.mp ho, erase_cons_head]
  | asleep =>
    obtain ⟨h1, h2, h3⟩ := hacc
    refine ⟨by rw [Thread.signalled_nWaiting, h1], ?_, hlast (by omega) h3⟩
    rw [Thread.signalled_nSignaled]
    omega
  | nextObject | checkNext | blockAll | countNext =>
    simp only [Account] at hacc ⊢
    rw [Thread.signalled_nSignaled, Thread.signalled_nWaiting]
    omega
  | asleepAll =>
    obtain ⟨h1, h2⟩ := hacc
    refine ⟨?_, hlast h1 h2⟩
    rw [Thread.signalled_nSignaled, Thread.signalled_nWaiting]
    omega

theorem Inv.of_removed {o : O} {boost : Bool} (h : Inv s t) (hs : Removed s s' t o boost) :
    Inv s' t := by
  obtain ⟨m, hm, hacc⟩ := h.account
  obtain ⟨ho, hm'⟩ := hs.holds hm
  obtain ⟨hable, hawake, hsame⟩ := Thread.signalled_spec h.able h.awake_or_parked boost
  refine ⟨?_, ?_, ⟨m.erase o, hm', ?_⟩, fun o' hl => ?_, fun o' hl => ?_, ?_⟩
  · rw [hs.cpuCount, hs.thread]
    exact hable
  · rw [hs.thread, hs.pc]
    by_cases hn : (s.thread t).nSignaled + 1 = (s.thread t).nWaiting
    · exact .inl (hawake (.inr hn))
    · rw [hsame hn]
      exact h.sched
  · rw [hs.thread, hs.pc]
    exact hacc.removed ho h.able h.awake_or_parked
  · rw [hs.pc]
    exact h.held o' (hs.lock o' hl)
  · obtain ⟨h1, h2⟩ := hs.lockNode o' hl
    exact h2 (h.lockNode o' h1)
  · rw [hs.thread, hs.pc, Thread.signalled_irql]
    exact h.irql

/-! ### The thread's own steps -/

/-- Whoever is outside of the critical sections holds no lock. -/
theorem Inv.not_held (h : Inv s t) (hpc : (s.pc t).holds = none) (o : O) :
    (s.obj o).lock ≠ some t := by
  intro hl
  rw [h.held o hl] at hpc
  cases hpc

omit [DecidableEq T] in
theorem setLock_waiting {L : Type _} (s : State T O L) (o o' : O) (holder : Option T) :
    ((s.setLock o holder).obj o').waiting = (s.obj o').waiting := by
  refine Update.keep Waitable.waiting ?_ o'
  rfl

omit [DecidableEq T] in
theorem setLock_lock (s : State T O) (o o' : O) (holder : Option T) :
    ((s.setLock o holder).obj o').lock = if o' = o then holder else (s.obj o').lock := by
  rw [State.setLock, State.setObj_obj, update_apply, apply_ite Waitable.lock]

/-- The thread goes to `pc` without a change of the lists. -/
theorem Inv.goto (h : Inv s t) {pc : Pc O} (hcpu : s'.cpuCount = s.cpuCount)
    (hlists : ∀ o, (s'.obj o).waiting = (s.obj o).waiting) (hnode : s'.lockNode t = s.lockNode t)
    (hable : Able s.cpuCount (s'.thread t).sched)
    (hsched : Awake (s'.thread t).sched ∨ (Parked (s'.thread t).sched ∧ pc.Sleeps))
    (hacc : ∀ m, Holds s t m → Account (s.thread t) m (s.pc t) → Account (s'.thread t) m pc)
    (hheld : ∀ o, (s'.obj o).lock = some t → pc.holds = some o)
    (hirql : pc.Raised → (s'.thread t).irql = dispatchIrql) : Inv (s'.goto t pc) t := by
  obtain ⟨m, hm, ha⟩ := h.account
  have hpc : (s'.goto t pc).pc t = pc := update_self ..
  refine ⟨hcpu ▸ hable, ?_, ⟨m, hm.congr fun o => ?_, ?_⟩, ?_, fun o ho => ?_, ?_⟩
  · rw [hpc]
    exact hsched
  · show (s'.obj o).waiting.countP _ = _
    rw [hlists, nodesOn]
  · rw [hpc]
    exact hacc m hm ha
  · rw [hpc]
    exact hheld
  · show _ ∈ (s'.obj o).waiting
    rw [hlists]
    exact h.lockNode o (hnode ▸ ho)
  · rw [hpc]
    exact hirql

/-- The thread appends a node of its own to the list of `o`. -/
theorem Holds.append {m : List O} (h : Holds s t m) (o : O) (own : Bool)
    (hs : ∀ o', (s'.obj o').waiting = if o' = o then (s.obj o).waiting ++ [⟨t, own⟩]
      else (s.obj o').waiting) : Holds s' t (o :: m) := by
  intro o'
  rw [nodesOn, hs]
  by_cases ho : o' = o
  · rw [if_pos ho, ho, countP_append, count_cons_self, ← h o, nodesOn]
    simp
  · rw [if_neg ho, count_cons_of_ne (fun e => ho e.symm), ← h o', nodesOn]

theorem Inv.awake (h : Inv s t) (hpc : ¬ (s.pc t).Sleeps) : Awake (s.thread t).sched :=
  h.sched.resolve_right fun hp => hpc hp.2

/-- The thread runs and goes from `p` to `pc`. -/
theorem Inv.goto_awake (h : Inv s t) {p pc : Pc O} (hpc : s.pc t = p)
    (hcpu : s'.cpuCount = s.cpuCount) (hlists : ∀ o, (s'.obj o).waiting = (s.obj o).waiting)
    (hnode : s'.lockNode t = s.lockNode t) (hx : (s'.thread t).sched = (s.thread t).sched)
    (hsleep : ¬ p.Sleeps) (hacc : ∀ m, Account (s.thread t) m p → Account (s'.thread t) m pc)
    (hheld : ∀ o, (s'.obj o).lock = some t → pc.holds = some o)
    (hirql : pc.Raised → (s'.thread t).irql = dispatchIrql) : Inv (s'.goto t pc) t := by
  subst hpc
  exact h.goto hcpu hlists hnode (hx ▸ h.able) (.inl (hx ▸ h.awake hsleep)) (fun m _ => hacc m)
    hheld hirql

/-- What a second look at a signalled object must find: no node of the thread. -/
def CleanRecheck (s : State T O) (t : T) : Prop :=
  ∀ o entry, s.pc t = .recheck o entry → (s.obj o).isSignaled = true →
    ∀ n ∈ (s.obj o).waiting, n.thread ≠ t

variable {o : O} {entry : ℕ} {os : List O} {old : Option ℕ} {all boost : Bool}

/-- A lock that is taken by the thread, which held none. -/
theorem Inv.held_acquire (h : Inv s t) (hpc : (s.pc t).holds = none) (o' : O)
    (hl : ((s.setLock o (some t)).obj o').lock = some t) : some o = some o' := by
  rw [setLock_lock] at hl
  by_cases ho : o' = o
  · rw [ho]
  · rw [if_neg ho] at hl
    exact absurd hl (h.not_held hpc o')

/-- A lock that the thread gives up was its only one. -/
theorem Inv.held_release (h : Inv s t) (hpc : (s.pc t).holds = some o) (o' : O) :
    ((s.setLock o none).obj o').lock ≠ some t := by
  rw [setLock_lock]
  by_cases ho : o' = o
  · rw [if_pos ho]
    exact fun hl => by cases hl
  · rw [if_neg ho]
    intro hl
    rw [h.held o' hl] at hpc
    exact ho (Option.some.inj hpc)

theorem Inv.acquire (h : Inv s t) (hpc : s.pc t = .acquire o entry) :
    Inv ((s.setLock o (some t)).goto t (.check o entry)) t :=
  h.goto_awake hpc rfl (fun o' => setLock_waiting s o o' _) rfl rfl id (fun _ ha => ha)
    (h.held_acquire (by rw [hpc]; rfl)) fun _ => h.irql (by rw [hpc]; trivial)

theorem Inv.check_return (h : Inv s t) (hpc : s.pc t = .check o entry) :
    Inv (((s.setIrql t entry).setLock o none).goto t .outside) t := by
  refine h.goto_awake hpc rfl (fun o' => setLock_waiting _ o o' _) rfl ?_ id (fun _ ha => ha)
    (fun o' hl => absurd hl (h.held_release (by rw [hpc]; rfl) o')) nofun
  refine Update.keep Thread.sched ?_ t
  rfl

/-- The thread appends a node to the list of `o`, gives up the lock and goes to `pc`. -/
theorem Inv.enqueue (h : Inv s t) (own : Bool) {pc : Pc O} (hcpu : s'.cpuCount = s.cpuCount)
    (hs : ∀ o', (s'.obj o').waiting = if o' = o then (s.obj o).waiting ++ [⟨t, own⟩]
      else (s.obj o').waiting)
    (hnode : ∀ o', s'.lockNode t = some o' → (o' = o ∧ own = true) ∨ s.lockNode t = some o')
    (hx : (s'.thread t).sched = (s.thread t).sched) (hpc : ¬ (s.pc t).Sleeps)
    (hacc : ∀ m, Account (s.thread t) m (s.pc t) → Account (s'.thread t) (o :: m) pc)
    (hheld : ∀ o', (s'.obj o').lock ≠ some t)
    (hirql : pc.Raised → (s'.thread t).irql = dispatchIrql) : Inv (s'.goto t pc) t := by
  obtain ⟨m, hm, ha⟩ := h.account
  have hpc' : (s'.goto t pc).pc t = pc := update_self ..
  refine ⟨?_, .inl ?_, ⟨o :: m, hm.append o own hs, ?_⟩, fun o' hl => absurd hl (hheld o'),
    fun o' ho' => ?_, ?_⟩
  · show Able s'.cpuCount (s'.thread t).sched
    rw [hcpu, hx]
    exact h.able
  · show Awake (s'.thread t).sched
    rw [hx]
    exact h.awake hpc
  · rw [hpc']
    exact hacc m ha
  · show _ ∈ (s'.obj o').waiting
    rw [hs]
    rcases hnode o' ho' with ⟨rfl, rfl⟩ | hold
    · rw [if_pos rfl]
      exact mem_append_right _ mem_cons_self
    · split
      · rename_i e
        exact mem_append_left _ (e ▸ h.lockNode o' hold)
      · exact h.lockNode o' hold
  · rw [hpc']
    exact hirql

omit [DecidableEq T] in
theorem append_waiting (s : State T O) (o o' : O) (n : Node T) :
    ((s.append o n).obj o').waiting =
      if o' = o then (s.obj o).waiting ++ [n] else (s.obj o').waiting := by
  rw [State.append, State.setObj_obj, update_apply, apply_ite Waitable.waiting]

omit [DecidableEq T] in
theorem append_lock (s : State T O) (o o' : O) (n : Node T) :
    ((s.append o n).obj o').lock = (s.obj o').lock := by
  refine Update.keep Waitable.lock ?_ o'
  rfl

theorem removeNode_lock (s : State T O) (o : O) (boost : Bool) (n : Node T)
    (rest : List (Node T)) (o' : O) :
    ((removeNode s o boost n rest).obj o').lock = (s.obj o').lock := by
  refine Update.keep Waitable.lock ?_ o'
  rfl

section

variable (h : Inv s t)
include h

theorem Inv.check_enqueue (hpc : s.pc t = .check o entry) {x : Thread}
    (hx : x = { s.thread t with nSignaled := 0, nWaiting := 1 }) :
    Inv (((((s.setThread t x).append o ⟨t, true⟩).setLockNode t (some o)).setLock o none).goto t
      (.recheck o entry)) t := by
  have hthread : (((((s.setThread t x).append o ⟨t, true⟩).setLockNode t (some o)).setLock o
      none).thread t) = x := update_self ..
  refine h.enqueue (o := o) true rfl (fun o' => ?_) (fun o' ho' => ?_) ?_ ?_ ?_
    (fun o' => ?_) ?_
  · rw [setLock_waiting]
    exact append_waiting (s.setThread t x) o o' _
  · have he : ((((s.setThread t x).append o ⟨t, true⟩).setLockNode t (some o)).setLock o
        none).lockNode t = some o := update_self ..
    exact .inl ⟨Option.some.inj (ho'.symm.trans he), rfl⟩
  · rw [hthread, hx]
  · simp [hpc, Pc.Sleeps]
  · intro m ha
    rw [hpc] at ha
    rw [hthread, hx, show m = [] from ha]
    exact ⟨rfl, rfl, .inr rfl⟩
  · have hrel := h.held_release (o := o) (by rw [hpc]; rfl) o'
    rw [setLock_lock] at hrel ⊢
    intro hl
    refine hrel ?_
    by_cases ho : o' = o
    · rw [if_pos ho] at hl
      cases hl
    · rw [if_neg ho] at hl ⊢
      exact (append_lock (s.setThread t x) o o' _).symm.trans hl
  · intro _
    rw [hthread, hx]
    exact h.irql (by rw [hpc]; trivial)

theorem Inv.recheck_return (hpc : s.pc t = .recheck o entry)
    (hclean : ∀ n ∈ (s.obj o).waiting, n.thread ≠ t) : Inv (s.goto t .outside) t := by
  refine h.goto rfl (fun _ => rfl) rfl h.able ?_ ?_ ?_ fun hf => hf.elim
  · exact .inl (h.awake (by simp [hpc, Pc.Sleeps]))
  · intro m hm ha
    rw [hpc] at ha
    obtain ⟨-, -, rfl | rfl⟩ := ha
    · rfl
    · have hcount := hm o
      rw [nodesOn_eq_zero.mpr hclean, count_singleton_self] at hcount
      cases hcount
  · intro o' hl
    exact absurd hl (h.not_held (by rw [hpc]; rfl) o')

section

variable {p pc : Pc O} (hpc : s.pc t = p)
include hpc

/-- The thread, which holds no lock, changes its counters or its IRQL and goes to `pc`. -/
theorem Inv.setThread {x : Thread} (hx : x.sched = (s.thread t).sched) (hsleep : ¬ p.Sleeps)
    (hacc : ∀ m, Account (s.thread t) m p → Account x m pc) (hheld : p.holds = none)
    (hirql : pc.Raised → x.irql = dispatchIrql) : Inv ((s.setThread t x).goto t pc) t := by
  have hthread : (s.setThread t x).thread t = x := update_self ..
  refine h.goto_awake hpc rfl (fun _ => rfl) rfl (by rw [hthread, hx]) hsleep ?_
    (fun o hl => absurd hl (h.not_held (hpc ▸ hheld) o)) ?_
  · rw [hthread]
    exact hacc
  · rw [hthread]
    exact hirql

/-- Steps that only move the thread on. -/
theorem Inv.goto_same (hsleep : ¬ p.Sleeps)
    (hacc : ∀ m, Account (s.thread t) m p → Account (s.thread t) m pc)
    (hheld : p.holds = none) (hirql : ¬ pc.Raised) : Inv (s.goto t pc) t :=
  h.goto_awake hpc rfl (fun _ => rfl) rfl rfl hsleep hacc
    (fun o hl => absurd hl (h.not_held (hpc ▸ hheld) o)) fun hr => absurd hr hirql

theorem Inv.block (hsleep : ¬ p.Sleeps) (hsleeps : pc.Sleeps)
    (hacc : ∀ m, Account (s.thread t) m p →
      Account { s.thread t with sched := (s.thread t).sched.blocked } m pc)
    (hheld : p.holds = none) (hirql : ¬ pc.Raised) :
    Inv ((s.setThread t { s.thread t with sched := blockThread (s.thread t).sched }).goto t pc)
      t := by
  subst hpc
  have hb := blockThread_of_awake h.able (h.awake hsleep)
  have hthread : (s.setThread t { s.thread t with
      sched := blockThread (s.thread t).sched }).thread t =
      { s.thread t with sched := (s.thread t).sched.blocked } := by
    rw [hb]
    exact update_self ..
  refine h.goto rfl (fun _ => rfl) rfl ?_ ?_ (fun m _ ha => ?_)
    (fun o hl => absurd hl (h.not_held hheld o)) fun hr => absurd hr hirql
  · rw [hthread]
    exact ⟨h.able.snode, h.able.priority, h.able.cpu⟩
  · rw [hthread]
    exact .inr ⟨⟨rfl, rfl⟩, hsleeps⟩
  · rw [hthread]
    exact hacc m ha

/-- The thread takes or gives up a lock, changes its IRQL and goes to `pc`. -/
theorem Inv.setLock {holder : Option T} {irql : ℕ} (hsleep : ¬ p.Sleeps)
    (hacc : ∀ irql m, Account (s.thread t) m p → Account { s.thread t with irql := irql } m pc)
    (hheld : ∀ o', ((s.setLock o holder).obj o').lock = some t → pc.holds = some o')
    (hirql : ¬ pc.Raised) : Inv (((s.setLock o holder).setIrql t irql).goto t pc) t := by
  have hthread : ((s.setLock o holder).setIrql t irql).thread t =
      { s.thread t with irql := irql } := update_self ..
  refine h.goto_awake hpc rfl (fun o' => setLock_waiting s o o' _) rfl (by rw [hthread]) hsleep
    (fun m ha => ?_) hheld fun hr => absurd hr hirql
  rw [hthread]
  exact hacc _ m ha

/-- The thread takes a lock with `Core_SpinlockAcquire` and goes to `pc`. -/
theorem Inv.spinlockAcquire (hsleep : ¬ p.Sleeps)
    (hacc : ∀ irql m, Account (s.thread t) m p → Account { s.thread t with irql := irql } m pc)
    (hheld : p.holds = none) (ho : pc.holds = some o) (hirql : ¬ pc.Raised) :
    Inv ((s.spinlockAcquire t o).goto t pc) t :=
  h.setLock hpc hsleep hacc (fun o' hl => ho.trans (h.held_acquire (hpc ▸ hheld) o' hl)) hirql

/-- The thread gives up a lock with `Core_SpinlockRelease` and goes to `pc`. -/
theorem Inv.spinlockRelease (hsleep : ¬ p.Sleeps)
    (hacc : ∀ irql m, Account (s.thread t) m p → Account { s.thread t with irql := irql } m pc)
    (hheld : p.holds = some o) (hirql : ¬ pc.Raised) :
    Inv ((s.spinlockRelease t o old).goto t pc) t :=
  h.setLock hpc hsleep hacc (fun o' hl => absurd hl (h.held_release (hpc ▸ hheld) o')) hirql

end

/-- A thread that was readied goes on, with whatever IRQL. -/
theorem Inv.resume (hst : (s.thread t).sched.status ≠ .blocked)
    (hsleep : (s.pc t).Sleeps) (hs : s' = s ∨ ∃ irql, s' = s.setIrql t irql) :
    Inv (s'.goto t .outside) t := by
  have hx : (s'.thread t).sched = (s.thread t).sched := by
    rcases hs with rfl | ⟨irql, rfl⟩
    · rfl
    · simp [State.setIrql]
  have hrest : s'.cpuCount = s.cpuCount ∧ s'.obj = s.obj ∧ s'.lockNode = s.lockNode := by
    rcases hs with rfl | ⟨irql, rfl⟩
    · exact ⟨rfl, rfl, rfl⟩
    · exact ⟨rfl, rfl, rfl⟩
  have haw : Awake (s.thread t).sched := h.sched.resolve_right fun hp => hst hp.1.2
  have hholds : (s.pc t).holds = none := by
    cases hpc : s.pc t <;> simp_all [Pc.Sleeps, Pc.holds]
  refine h.goto hrest.1 (fun o => by rw [hrest.2.1]) (by rw [hrest.2.2]) (hx ▸ h.able)
    (.inl (hx ▸ haw)) (fun m _ ha => ?_) (fun o hl => ?_) fun hf => hf.elim
  · cases hpc : s.pc t with
    | asleep o entry =>
      rw [hpc] at ha
      exact ha.2.2 hst
    | asleepAll =>
      rw [hpc] at ha
      exact ha.2 hst
    | _ => simp [hpc, Pc.Sleeps] at hsleep
  · rw [hrest.2.1] at hl
    exact absurd hl (h.not_held hholds o)

theorem Inv.checkNext_enqueue (hpc : s.pc t = .checkNext o os old) :
    Inv (((s.append o ⟨t, false⟩).spinlockRelease t o old).goto t (.countNext os)) t := by
  have hthread : ((s.append o ⟨t, false⟩).spinlockRelease t o old).thread t =
      { s.thread t with irql := old.getD (s.thread t).irql } := update_self ..
  refine h.enqueue (o := o) false rfl (fun o' => ?_) (fun o' ho' => .inr ho') ?_ ?_ ?_
    (fun o' => ?_) fun hr => hr.elim
  · exact (setLock_waiting (s.append o ⟨t, false⟩) o o' none).trans (append_waiting ..)
  · rw [hthread]
  · simp [hpc, Pc.Sleeps]
  · intro m ha
    rw [hpc] at ha
    rw [hthread]
    exact congrArg (· + 1) ha
  · have hrel := h.held_release (o := o) (by rw [hpc]; rfl) o'
    intro hl
    have hl' : (((s.append o ⟨t, false⟩).setLock o none).obj o').lock = some t := hl
    rw [setLock_lock] at hrel hl'
    rw [append_lock] at hl'
    exact hrel hl'

/-- A thread in `CoreH_SignalWaitingThreads` has no node on a list, so the node it
takes off is another's. -/
theorem Inv.signalLoop (hpc : s.pc t = .signalLoop o all boost old) {n : Node T}
    {rest : List (Node T)} (hw : (s.obj o).waiting = n :: rest) :
    Inv (removeNode s o boost n rest) t := by
  obtain ⟨m, hm, ha⟩ := h.account
  rw [hpc] at ha
  have hn : n.thread ≠ t :=
    hm.eq_nil_iff.mp ha o n (hw ▸ mem_cons_self)
  exact h.of_untouched (removeNode_untouched hw hn)

theorem Inv.runThread (hok : CleanRecheck s t) (hr : runThread s t = some s') :
    Inv s' t := by
  have hstep := runThread_cases hr
  generalize hpc : s.pc t = p at hstep
  cases hstep with
  | take => exact h.acquire hpc
  | signaled => exact h.check_return hpc
  | enqueue => exact h.check_enqueue hpc rfl
  | back o entry hon => exact h.recheck_return hpc (hok o entry hpc hon)
  | stay | enqueued => exact h.goto_same hpc id (fun m ha => ha) rfl id
  | block =>
    refine h.block hpc id trivial (fun m ha => ?_) rfl id
    obtain ⟨hw, hs, -⟩ := ha
    exact ⟨hw, hs, fun hst => absurd rfl hst⟩
  | wake o entry hst => exact h.resume hst (by rw [hpc]; trivial) (.inr ⟨entry, rfl⟩)
  | unneeded h0 =>
    refine h.goto_same hpc id (fun m ha => ?_) rfl id
    have hsum : (s.thread t).nSignaled + m.length = (s.thread t).nWaiting := ha
    exact eq_nil_of_length_eq_zero (by omega)
  | takeNext | takeSignal => exact h.spinlockAcquire hpc id (fun _ m ha => ha) rfl rfl id
  | skipNext | drained => exact h.spinlockRelease hpc id (fun _ m ha => ha) rfl id
  | enqueueNext => exact h.checkNext_enqueue hpc
  | count => exact h.setThread hpc rfl id (fun m ha => ha) rfl nofun
  | blockAll => exact h.block hpc id trivial (fun m ha => ⟨ha, fun hst => absurd rfl hst⟩) rfl id
  | wakeAll hst => exact h.resume hst (by rw [hpc]; trivial) (.inl rfl)
  | removeOne o boost old n rest hw =>
    -- a node was taken off, which was not the thread's, and it still holds the lock of `o`
    exact (h.signalLoop hpc hw).spinlockRelease (p := .signalLoop o false boost old) hpc id
      (fun _ m ha => ha) rfl id
  | removeNext o boost old n rest hw => exact h.signalLoop hpc hw

/-! ### All steps -/

theorem Inv.setIrql (hpc : s.pc t = .outside) (irql : ℕ) :
    Inv (s.setIrql t irql) t := by
  have hsched : ((s.setIrql t irql).thread t).sched = (s.thread t).sched := by
    simp [State.setIrql]
  obtain ⟨m, hm, ha⟩ := h.account
  rw [hpc] at ha
  refine ⟨hsched ▸ h.able, hsched ▸ h.sched, ⟨m, hm, ?_⟩, h.held, h.lockNode, fun hr => ?_⟩
  · show Account _ m (s.pc t)
    rw [hpc]
    exact ha
  · have hr' : (s.pc t).Raised := hr
    rw [hpc] at hr'
    exact hr'.elim

end

/-- The thread that acts. -/
def Op.actor : Op T O → Option T
  | .waitOnObject t _ | .waitOnObjects t _ | .signal t _ _ _ | .irql t _ | .run t => some t
  | .clear _ => none

/-- A step in which `t` does not act leaves it alone, or takes a node of it off a
list. -/
theorem step_other {op : Op T O} (hop : op.actor ≠ some t) (hs : step s op = some s') :
    Untouched s s' t ∨ ∃ u o all boost old n rest, op = .run u ∧
      s.pc u = .signalLoop o all boost old ∧ (s.obj o).waiting = n :: rest ∧ n.thread = t ∧
      Removed s s' t o boost := by
  have hne : ∀ {u}, some u ≠ some t → t ≠ u := fun h e => h (congrArg some e.symm)
  cases op with
  | waitOnObject u os | waitOnObjects u os =>
    rw [step, stepWith] at hs
    split_ifs at hs with h1 h2
    · exact .inl (Option.some.inj hs ▸ .refl s t)
    · refine .inl (Option.some.inj hs ▸ ?_)
      exact (Untouched.setThread s (hne hop) _).trans (.goto _ (hne hop) _)
  | signal u o all boost =>
    rw [step, stepWith] at hs
    split_ifs at hs with h1 h2
    · exact .inl (Option.some.inj hs ▸ .raiseSignaled s o)
    · refine .inl (Option.some.inj hs ▸ ?_)
      exact (Untouched.raiseSignaled s o).trans (.goto _ (hne hop) _)
  | clear o =>
    rw [step, stepWith] at hs
    split_ifs at hs with h1 h2
    · exact .inl (Option.some.inj hs ▸ .refl s t)
    · exact .inl (Option.some.inj hs ▸ .setSignaled s o false)
  | irql u i =>
    rw [step, stepWith] at hs
    split_ifs at hs with h1
    exact .inl (Option.some.inj hs ▸ .setThread s (hne hop) _)
  | run u =>
    rcases runThread_other (hne hop) hs with h | ⟨o, all, boost, old, n, rest, h⟩
    · exact .inl h
    · exact .inr ⟨u, o, all, boost, old, n, rest, rfl, h⟩

/-- Every step keeps the invariant of a thread, unless the thread's second look
finds the object signalled with the node still on the list. -/
theorem Inv.step {op : Op T O} (h : Inv s t) (hok : op = .run t → CleanRecheck s t)
    (hs : step s op = some s') : Inv s' t := by
  by_cases hop : op.actor = some t
  · cases op with
    | waitOnObject u o =>
      obtain ⟨rfl⟩ := hop
      rw [Wait.step, stepWith] at hs
      split_ifs at hs with h1 h2
      · exact Option.some.inj hs ▸ h
      · exact Option.some.inj hs ▸ h.setThread (not_not.mp h1) rfl id (fun m ha => ha) rfl fun _ => rfl
    | waitOnObjects u os =>
      obtain ⟨rfl⟩ := hop
      rw [Wait.step, stepWith] at hs
      split_ifs at hs with h1 h2
      · exact Option.some.inj hs ▸ h
      · refine Option.some.inj hs ▸ h.setThread (not_not.mp h1) rfl id (fun m ha => ?_) rfl nofun
        rw [show m = [] from ha]
        rfl
    | signal u o all boost =>
      obtain ⟨rfl⟩ := hop
      have h' := h.of_untouched (.raiseSignaled s o)
      rw [Wait.step, stepWith] at hs
      split_ifs at hs with h1 h2
      · exact Option.some.inj hs ▸ h'
      · have hpc : (s.raiseSignaled o).pc t = .outside :=
          (Untouched.raiseSignaled (t := t) s o).pc.trans (not_not.mp h1)
        exact Option.some.inj hs ▸ h'.goto_same hpc id (fun m ha => ha) rfl id
    | clear o => cases hop
    | irql u i =>
      obtain ⟨rfl⟩ := hop
      rw [Wait.step, stepWith] at hs
      split_ifs at hs with h1
      exact Option.some.inj hs ▸ h.setIrql (not_not.mp h1) i
    | run u =>
      obtain ⟨rfl⟩ := hop
      exact h.runThread (hok rfl) hs
  · rcases step_other hop hs with hu | ⟨_, _, _, _, _, _, _, -, -, -, -, hr⟩
    · exact h.of_untouched hu
    · exact h.of_removed hr

/-- Nobody waits: the lists are empty, the locks free, and every thread runs. -/
structure Fresh (s : State T O) : Prop where
  obj : ∀ o, (s.obj o).waiting = [] ∧ (s.obj o).lock = none
  pc : ∀ t, s.pc t = .outside
  lockNode : ∀ t, s.lockNode t = none
  able : ∀ t, Able s.cpuCount (s.thread t).sched
  awake : ∀ t, Awake (s.thread t).sched

theorem Fresh.inv (h : Fresh s) (t : T) : Inv s t where
  able := h.able t
  sched := .inl (h.awake t)
  account := by
    refine ⟨[], fun o => ?_, ?_⟩
    · rw [nodesOn, (h.obj o).1]
      rfl
    · rw [h.pc t]
      rfl
  held o hl := by
    rw [(h.obj o).2] at hl
    cases hl
  lockNode o ho := by
    rw [h.lockNode t] at ho
    cases ho
  irql hr := by
    rw [h.pc t] at hr
    exact hr.elim

/-! ### What `Core_WaitOnObject` leaves behind -/

/-- The call of `Core_WaitOnObject` the thread is in: the object, and the IRQL it
was called at. -/
def Pc.waitsOn : Pc O → Option (O × ℕ)
  | .acquire o entry | .check o entry | .recheck o entry | .block o entry | .asleep o entry =>
    some (o, entry)
  | _ => none

/-- A second look at the object finds it signalled only if the call was made at
`IRQL_DISPATCH` and the node is off the list again. -/
def recheckUnsignaled (s : State T O) : Op T O → Bool
  | .run t =>
    match s.pc t with
    | .recheck o entry => !(s.obj o).isSignaled ||
      (entry = dispatchIrql && (s.obj o).waiting.all fun n => n.thread ≠ t)
    | _ => true
  | _ => true

omit [DecidableEq O] in
theorem cleanRecheck_of_ok (hok : recheckUnsignaled s (.run t) = true) : CleanRecheck s t := by
  intro o entry hpc hsig n hn
  simp only [recheckUnsignaled, hpc, hsig, Bool.not_true, Bool.false_or, Bool.and_eq_true,
    all_eq_true] at hok
  simpa using hok.2 n hn

/-- A thread that waits only moves by its own next step. -/
theorem eq_run_of_pc_ne {op : Op T O} (hs : Wait.step s op = some s') (hpc : s.pc t ≠ .outside)
    (hne : s'.pc t ≠ s.pc t) : op = .run t := by
  by_cases hop : op.actor = some t
  · cases op with
    | run u => exact congrArg Op.run (Option.some.inj hop)
    | clear o => cases hop
    | _ =>
      obtain ⟨rfl⟩ := hop
      rw [Wait.step, stepWith, if_pos hpc] at hs
      cases hs
  · rcases step_other hop hs with hu | ⟨_, _, _, _, _, _, _, -, -, -, -, hr⟩
    · exact absurd hu.pc hne
    · exact absurd hr.pc hne

/-- The IRQL at which `Core_WaitOnObject` returns. -/
theorem Inv.irql_of_return (h : Inv s t) (hok : recheckUnsignaled s (.run t) = true)
    (hs : Wait.runThread s t = some s') (hw : (s.pc t).waitsOn = some (o, entry))
    (hret : s'.pc t = .outside) : (s'.thread t).irql = entry := by
  have hstep := runThread_cases hs
  generalize hpc : s.pc t = p at hstep hw
  cases hstep with
  | signaled | wake =>
    obtain ⟨-, rfl⟩ := Prod.mk.inj (Option.some.inj hw)
    show ((s.setIrql t _).thread t).irql = _
    simp [State.setIrql]
  | back o1 e1 hon =>
    -- the IRQL was raised and is not lowered on this path
    obtain ⟨-, rfl⟩ := Prod.mk.inj (Option.some.inj hw)
    simp only [recheckUnsignaled, hpc, hon, Bool.not_true, Bool.false_or, Bool.and_eq_true,
      decide_eq_true_eq] at hok
    rw [hok.1]
    exact h.irql (by rw [hpc]; trivial)
  | take | enqueue | stay | block =>
    rw [State.goto_pc, update_self] at hret
    cases hret
  | _ => cases hw

/-- In every run in which a second look finds the object signalled only at
`IRQL_DISPATCH` and with the node off the list, `Core_WaitOnObject` returns at the
IRQL it was called at, without the lock, and with no node of the thread on any
list. -/
theorem wait_leaves_no_trace {s0 : State T O} {ops : List (Op T O)} {op : Op T O}
    (hfresh : Fresh s0)
    (hok : Run.Meets (fun s op => recheckUnsignaled s op = true) Wait.step s0 (ops ++ [op]))
    (hrun : ops.foldlM Wait.step s0 = some s) (hs : Wait.step s op = some s')
    (hw : (s.pc t).waitsOn = some (o, entry)) (hret : s'.pc t = .outside) :
    (s'.thread t).irql = entry ∧ (s'.obj o).lock ≠ some t ∧ s'.lockNode t = none ∧
      ∀ o', ∀ n ∈ (s'.obj o').waiting, n.thread ≠ t := by
  obtain ⟨hm, hlast⟩ := hok.append
  have hop : recheckUnsignaled s op = true := (hlast s hrun).1
  have hinv : Inv s t := by
    refine Run.preserves (I := fun s => Inv s t) ?_ (hfresh.inv t) hm hrun
    intro s op s1 h1 h2 h3
    exact h1.step (fun e => cleanRecheck_of_ok (e ▸ h2)) h3
  have hne : s.pc t ≠ .outside := by
    intro e
    rw [e] at hw
    cases hw
  obtain rfl := eq_run_of_pc_ne hs hne (hret.trans_ne hne.symm)
  have hinv' : Inv s' t := hinv.step (fun _ => cleanRecheck_of_ok hop) hs
  obtain ⟨m, hm', ha⟩ := hinv'.account
  rw [hret] at ha
  have hnodes := hm'.eq_nil_iff.mp ha
  refine ⟨hinv.irql_of_return hop hs hw hret, hinv'.not_held (by rw [hret]; rfl) o, ?_, hnodes⟩
  cases hl : s'.lockNode t with
  | none => rfl
  | some o' => exact absurd rfl (hnodes o' _ (hinv'.lockNode o' hl))

end Invariant

theorem quietSystem_fresh (useSignaled : Bool) : Fresh (quietSystem useSignaled) where
  obj _ := ⟨rfl, rfl⟩
  pc _ := rfl
  lockNode _ := rfl
  able _ := ⟨Nat.one_ne_zero, show 2 ≤ 4 by omega,
    show (someCpu 2 ⟨.running, 2, false, false, 0, 3, some 0, 1⟩).isSome = true by decide⟩
  awake _ := ⟨rfl, fun h => by cases h⟩

/-- Thread 1 waits on object 0 and blocks; thread 2 signals the object. -/
def waitThenSignal : List (Op ℕ ℕ) :=
  [.waitOnObject 1 0, .run 1, .run 1, .run 1, .run 1, .signal 2 0 true false, .run 2, .run 2,
    .run 2]

theorem wait_leaves_no_trace_quietSystem :
    ∃ s s', waitThenSignal.foldlM step (quietSystem false) = some s ∧
      step s (.run 1) = some s' ∧ s'.pc 1 = .outside ∧ (s'.thread 1).irql = 0 ∧
      (s'.obj 0).lock ≠ some 1 ∧ s'.lockNode 1 = none ∧
      ∀ o', ∀ n ∈ (s'.obj o').waiting, n.thread ≠ 1 := by
  have hreturn : ((waitThenSignal.foldlM step (quietSystem false)).bind fun s =>
      (step s (.run 1)).map fun s' => ((s.pc 1).waitsOn, s'.pc 1)) =
      some (some (0, 0), .outside) := by decide +kernel
  obtain ⟨s, hrun, hs⟩ := Option.bind_eq_some_iff.mp hreturn
  obtain ⟨s', hs', he⟩ := Option.map_eq_some_iff.mp hs
  obtain ⟨hw, hret⟩ := Prod.mk.inj he
  exact ⟨s, s', hrun, hs', hret, wait_leaves_no_trace (quietSystem_fresh false)
    (by decide +kernel) hrun hs' hw hret⟩

/-- Thread 1 waits on an event at `IRQL_PASSIVE`; thread 2 sets the event's flag
before the second look. -/
def signalBeforeRecheck : List (Op ℕ ℕ) :=
  [.waitOnObject 1 0, .run 1, .run 1, .signal 2 0 true false]

/-- The wait returns at `IRQL_DISPATCH` and leaves its `lock_node` on the list. -/
theorem recheck_leaves_traces :
    Fresh (quietSystem true) ∧ ((signalBeforeRecheck.foldlM step (quietSystem true)).bind fun s =>
      (step s (.run 1)).map fun s' =>
        ((s.pc 1).waitsOn, s'.pc 1, (s'.thread 1).irql, (s'.obj 0).waiting)) =
      some (some (0, 0), .outside, dispatchIrql, [⟨1, true⟩]) :=
  ⟨quietSystem_fresh true, by decide +kernel⟩

end Obos.Wait
