/-
The lists of waiting threads as the source links them.

`Obos.Wait` has the nodes that wait on an object in a list of Lean.  Here they are
linked as `CoreH_ThreadListAppend` and `CoreH_ThreadListRemove`
(`scheduler/thread.c`) link them: a node has a `next` and a `prev`, a list a head,
a tail and a count, and a signal walks along `next`.  The rest of the state and of
the steps is that of `Obos.Wait`.

An append writes the `prev` of the node but not its `next`, and does not ask whether
the node is on a list.  `Core_WaitOnObject` appends the one `lock_node` of its thread
and, when its second look finds the object signalled, returns with the node on the
list.  When the thread waits again before a signal has taken the node off, the two
lists are tied together at it, and a node appended to one of them hides what comes
behind it in the other.

* `Linked.simulates` — as long as no thread appends a linked `lock_node`, the linked
  lists do what the lists of `Obos.Wait` do,
* `Linked.wait_all` — a thread that has come to its block in `Core_WaitOnObjects`
  undisturbed is then readied once, by the signal that takes its last node off a list,
* `Linked.wait_all_lost` — a run in which a `lock_node` is appended twice and such a
  thread is on no list and never readied.
-/
import Obos.WakeUps
import Obos.Lib.ListFamily

namespace Obos.Wait

open Function

universe u

variable {T : Type u} {O : Type*}

/-! ### Nodes and lists -/

/-- The address of a `thread_node`: the `lock_node` of its thread, or a node that
`Core_WaitOnObjects` has allocated for it. -/
structure Ref (T : Type u) where
  thread : T
  heap : Option ℕ
  deriving DecidableEq

def Ref.node (r : Ref T) : Node T := ⟨r.thread, r.heap.isNone⟩

/-- `thread_node*`. -/
abbrev Ptr (T : Type u) := Option (Ref T)

/-- The fields `next` and `prev` of all nodes. -/
structure Links (T : Type u) where
  next : Ptr T → Ptr T
  prev : Ptr T → Ptr T

/-- `thread_list`. -/
structure ThreadList (T : Type u) where
  head : Ptr T
  tail : Ptr T
  nNodes : ℕ

section

variable [DecidableEq T]

/-- `if (d) d->field = v;` -/
def setAt (f : Ptr T → Ptr T) (d v : Ptr T) : Ptr T → Ptr T := if d = none then f else update f d v

/-- `CoreH_ThreadListAppend`.  The node keeps its `next`. -/
def threadListAppend (m : Links T) (q : ThreadList T) (r : Ref T) : Links T × ThreadList T :=
  (⟨setAt m.next q.tail (some r), update m.prev (some r) q.tail⟩,
    ⟨if q.head = none then some r else q.head, some r, q.nNodes + 1⟩)

/-- `CoreH_ThreadListRemove`. -/
def threadListRemove (m : Links T) (q : ThreadList T) (r : Ref T) : Links T × ThreadList T :=
  let prev := setAt m.prev (m.next (some r)) (m.prev (some r))
  let next := setAt m.next (prev (some r)) (m.next (some r))
  let head := if q.head = some r then next (some r) else q.head
  let tail := if q.tail = some r then prev (some r) else q.tail
  (⟨update next (some r) none, update prev (some r) none⟩, ⟨head, tail, decrement q.nNodes⟩)

end

/-! ### Steps -/

/-- `allocated` counts the nodes taken from the heap. -/
structure Linked (T : Type u) (O : Type*) where
  sys : State T O (ThreadList T)
  links : Links T
  allocated : ℕ

/-- The same state with other lists. -/
@[simps]
def State.withLists {L L' : Type u} (s : State T O L) (xs : O → L') : State T O L' where
  cpuCount := s.cpuCount
  obj o := { s.obj o with waiting := xs o }
  thread := s.thread
  pc := s.pc
  readied := s.readied
  lockNode := s.lockNode

namespace Linked

variable [DecidableEq T] [DecidableEq O] (l : Linked T O)

def waiting (o : O) : ThreadList T := (l.sys.obj o).waiting

/-- Append the node `r` to the list of `o`. -/
def append (o : O) (r : Ref T) : Linked T O :=
  let p := threadListAppend l.links (l.waiting o) r
  { l with links := p.1, sys := l.sys.setObj o { l.sys.obj o with waiting := p.2 } }

/-- A zeroed node from the heap. -/
def zeroAllocate (r : Ref T) : Linked T O :=
  { l with
    links := ⟨update l.links.next (some r) none, update l.links.prev (some r) none⟩
    allocated := l.allocated + 1 }

/-- Take the node `r` off the list of `o` and signal its thread. -/
def signalNode (o : O) (boost : Bool) (r : Ref T) : Linked T O :=
  let p := threadListRemove l.links (l.waiting o) r
  { l with links := p.1, sys := removeNode l.sys o boost r.node p.2 }

/-- The next step of thread `t`. -/
def runThread (t : T) : Option (Linked T O) :=
  match l.sys.pc t with
  | .check o entry =>
    if (l.sys.obj o).isSignaled then
      some { l with sys := ((l.sys.setIrql t entry).setLock o none).goto t .outside }
    else
      let s := l.sys.setThread t { l.sys.thread t with nSignaled := 0, nWaiting := 1 }
      let l := { l with sys := s }.append o ⟨t, none⟩
      some { l with sys := ((l.sys.setLockNode t (some o)).setLock o none).goto t (.recheck o entry) }
  | .checkNext o os old =>
    if (l.sys.obj o).isSignaled then
      some { l with sys := (l.sys.spinlockRelease t o old).goto t (.nextObject os) }
    else
      let node : Ref T := ⟨t, some l.allocated⟩
      let l := (l.zeroAllocate node).append o node
      some { l with sys := (l.sys.spinlockRelease t o old).goto t (.countNext os) }
  | .signalLoop o all boost old =>
    -- the head of a list changes under the lock of its object only, and a removal makes the
    -- `next` of the head the head: at each turn `curr` is the head
    match (l.waiting o).head with
    | none => some { l with sys := (l.sys.spinlockRelease t o old).goto t .outside }
    | some r =>
      let l := l.signalNode o boost r
      if all then some l
      else some { l with sys := (l.sys.spinlockRelease t o old).goto t .outside }
  | _ => (runPlain l.sys t).map fun s => { l with sys := s }

def step : Op T O → Option (Linked T O)
  | .run t => l.runThread t
  | op => (stepWith (fun _ => none) l.sys op).map fun s => { l with sys := s }

/-- The thread appends its `lock_node`, which is on a list. -/
def relinks : Op T O → Bool
  | .run t =>
    match l.sys.pc t with
    | .check o _ => !(l.sys.obj o).isSignaled && (l.sys.lockNode t).isSome
    | _ => false
  | _ => false

/-- The list of `o` has a node of `t`. -/
def OnList (o : O) (t : T) : Prop :=
  ∃ r : Ref T, DLinked.Reach l.links.next none (l.waiting o).head (some r) ∧ r.thread = t

/-- The lists read off the links, each as far as it counts nodes. -/
def lists (o : O) : List (Node T) :=
  (DLinked.toList l.links.next none (l.waiting o).nNodes (l.waiting o).head).reduceOption.map Ref.node

/-- The state of `Obos.Wait` with these lists. -/
def read : State T O := l.sys.withLists l.lists

end Linked

/-! ### Steps that leave the lists alone -/

section Plain

variable {L L' : Type u} {s s' : State T O L} {xs : O → L'} {t : T} {o : O}

@[simp]
theorem withLists_isSignaled (s : State T O L) (xs : O → L') (o : O) :
    ((s.withLists xs).obj o).isSignaled = (s.obj o).isSignaled := rfl

@[simp]
theorem withLists_spinlockIrql (s : State T O L) (xs : O → L') (t : T) :
    (s.withLists xs).spinlockIrql t = s.spinlockIrql t := rfl

section

variable [DecidableEq T]

@[simp]
theorem withLists_goto (s : State T O L) (xs : O → L') (t : T) (pc : Pc O) :
    (s.goto t pc).withLists xs = (s.withLists xs).goto t pc := rfl

@[simp]
theorem withLists_setThread (s : State T O L) (xs : O → L') (t : T) (x : Thread) :
    (s.setThread t x).withLists xs = (s.withLists xs).setThread t x := rfl

@[simp]
theorem withLists_setLockNode (s : State T O L) (xs : O → L') (t : T) (o : Option O) :
    (s.setLockNode t o).withLists xs = (s.withLists xs).setLockNode t o := rfl

@[simp]
theorem withLists_setIrql (s : State T O L) (xs : O → L') (t : T) (irql : ℕ) :
    (s.setIrql t irql).withLists xs = (s.withLists xs).setIrql t irql := rfl

end

variable [DecidableEq O]

/-- An object changes, and what is read off its list. -/
theorem withLists_setObj (s : State T O L) (xs : O → L') (o : O) (x : Waitable T L) (ys : L') :
    (s.setObj o x).withLists (update xs o ys) =
      (s.withLists xs).setObj o { x with waiting := ys } := by
  simp only [State.withLists, State.setObj, State.mk.injEq, true_and, and_true]
  funext o'
  by_cases ho : o' = o
  · subst ho
    simp only [update_self]
  · simp only [update_of_ne ho]

/-- An object changes, but not its list. -/
theorem withLists_setObj_same (s : State T O L) (xs : O → L') (o : O) (x : Waitable T L) :
    (s.setObj o x).withLists xs = (s.withLists xs).setObj o { x with waiting := xs o } := by
  rw [← withLists_setObj, update_eq_self]

@[simp]
theorem withLists_setLock (s : State T O L) (xs : O → L') (o : O) (holder : Option T) :
    (s.setLock o holder).withLists xs = (s.withLists xs).setLock o holder :=
  withLists_setObj_same s xs o _

@[simp]
theorem withLists_setSignaled (s : State T O L) (xs : O → L') (o : O) (b : Bool) :
    (s.setSignaled o b).withLists xs = (s.withLists xs).setSignaled o b :=
  withLists_setObj_same s xs o _

@[simp]
theorem withLists_raiseSignaled (s : State T O L) (xs : O → L') (o : O) :
    (s.raiseSignaled o).withLists xs = (s.withLists xs).raiseSignaled o := by
  rw [State.raiseSignaled, apply_ite (fun s : State T O L => s.withLists xs),
    withLists_setSignaled, State.raiseSignaled]
  rfl

variable [DecidableEq T]

@[simp]
theorem withLists_spinlockAcquire (s : State T O L) (xs : O → L') (t : T) (o : O) :
    (s.spinlockAcquire t o).withLists xs = (s.withLists xs).spinlockAcquire t o :=
  congrArg (fun s1 => s1.setIrql t (max (s.thread t).irql dispatchIrql))
    (withLists_setLock s xs o (some t))

@[simp]
theorem withLists_spinlockRelease (s : State T O L) (xs : O → L') (t : T) (o : O)
    (old : Option ℕ) :
    (s.spinlockRelease t o old).withLists xs = (s.withLists xs).spinlockRelease t o old :=
  congrArg (fun s1 => s1.setIrql t (old.getD (s.thread t).irql)) (withLists_setLock s xs o none)

theorem runPlain_withLists (s : State T O L) (xs : O → L') (t : T) :
    runPlain (s.withLists xs) t = (runPlain s t).map fun s => s.withLists xs := by
  rw [runPlain, runPlain, State.withLists_pc]
  cases s.pc t with
  | nextObject os => cases os <;> simp [apply_ite (Option.map _)]
  | recheck o entry =>
    rw [apply_ite (Option.map _)]
    rfl
  | _ => simp [apply_ite (Option.map _)]

theorem stepWith_withLists (s : State T O L) (xs : O → L') (op : Op T O) :
    stepWith (fun _ => none) (s.withLists xs) op =
      (stepWith (fun _ => none) s op).map fun s => s.withLists xs := by
  cases op <;> simp [stepWith, apply_ite (Option.map _)]

/-- A step that leaves the lists alone. -/
structure Aside (s s' : State T O L) : Prop where
  waiting : ∀ o, (s'.obj o).waiting = (s.obj o).waiting
  lockNode : s'.lockNode = s.lockNode

omit [DecidableEq T] [DecidableEq O] in
theorem Aside.of_obj (hobj : s'.obj = s.obj) (hnode : s'.lockNode = s.lockNode) : Aside s s' :=
  ⟨fun o => by rw [hobj], hnode⟩

omit [DecidableEq T] in
theorem Aside.setObj {x : Waitable T L} (hobj : s'.obj = (s.setObj o x).obj)
    (hnode : s'.lockNode = s.lockNode) (hx : x.waiting = (s.obj o).waiting) : Aside s s' := by
  refine ⟨fun o' => ?_, hnode⟩
  rw [hobj]
  exact Update.keep Waitable.waiting hx o'

theorem runPlain_aside (h : runPlain s t = some s') : Aside s s' := by
  rw [runPlain] at h
  split at h
  all_goals
    try split_ifs at h
    all_goals cases h
  all_goals first | exact .of_obj rfl rfl | exact .setObj rfl rfl rfl

theorem stepWith_aside {op : Op T O} (h : stepWith (fun _ => none) s op = some s') :
    Aside s s' := by
  rw [stepWith.eq_def] at h
  split at h
  all_goals
    try simp only [State.raiseSignaled] at h
    try split_ifs at h
    all_goals cases h
  all_goals first | exact .of_obj rfl rfl | exact .setObj rfl rfl rfl

end Plain

/-! ### Lists that are well linked -/

/-- The lists `q o` are doubly linked, have the nodes `xs o` and no node in common, and
a node on none of them has no `next`. -/
structure Threaded (m : Links T) (q : O → ThreadList T) (xs : O → List (Ref T)) : Prop where
  isLists : DLinked.IsLists m.next m.prev none (fun o => (q o).head) (fun o => (q o).tail)
    fun o => (xs o).map some
  nNodes : ∀ o, (q o).nNodes = (xs o).length
  unlinked : ∀ r, (∀ o, r ∉ xs o) → m.next (some r) = none

namespace Threaded

variable {m : Links T} {q : O → ThreadList T} {xs : O → List (Ref T)} {r : Ref T} {o : O}

theorem head_eq (h : Threaded m q xs) (o : O) : (q o).head = ((xs o).map some).headD none :=
  (h.isLists.isList o).head_eq

theorem eq_of_mem (h : Threaded m q xs) {o' : O} (ho : r ∈ xs o) (ho' : r ∈ xs o') : o = o' :=
  h.isLists.disjoint o o' (some r) (List.mem_map_of_mem ho) (List.mem_map_of_mem ho')

theorem mem_of_some (h : Threaded m q xs) {a : Ptr T} (ha : a ∈ (xs o).map some) : a ≠ none :=
  fun h0 => h.isLists.null_notMem o (h0 ▸ ha)

theorem notMem (hr : ∀ o, r ∉ xs o) (o : O) : some r ∉ (xs o).map some := by
  simpa using hr o

theorem tail_ne (h : Threaded m q xs) (hr : r ∉ xs o) : some r ≠ (q o).tail := by
  intro he
  have hmem := (h.isLists.isList o).tail_mem (he ▸ nofun)
  rw [← he] at hmem
  exact hr (by simpa using hmem)

section

variable [DecidableEq T]

theorem toList_eq (h : Threaded m q xs) (o : O) :
    DLinked.toList m.next none (q o).nNodes (q o).head = (xs o).map some :=
  (h.isLists.isList o).toList_eq (by rw [List.length_map, h.nNodes])

theorem setAt_of_ne {f : Ptr T → Ptr T} {d v y : Ptr T} (hy : y ≠ none) :
    setAt f d v y = if y = d then v else f y := by
  rw [setAt]
  split
  · next h => rw [if_neg (h ▸ hy)]
  · exact update_apply f d v y

end

variable [DecidableEq O]

theorem map_update (xs : O → List (Ref T)) (o : O) (ys : List (Ref T)) :
    (fun o' => (update xs o ys o').map some) =
      update (fun o' => (xs o').map some) o (ys.map some) :=
  funext (apply_update (fun _ => List.map some) xs o ys)

variable [DecidableEq T]

theorem append (h : Threaded m q xs) (o : O) (hr : ∀ o, r ∉ xs o) :
    Threaded (threadListAppend m (q o) r).1 (update q o (threadListAppend m (q o) r).2)
      (update xs o (xs o ++ [r])) := by
  have hnext : ∀ y ≠ none, (threadListAppend m (q o) r).1.next y =
      if y = (q o).tail then some r else m.next y := fun y hy => setAt_of_ne hy
  refine ⟨?_, fun o' => ?_, fun r' hr' => ?_⟩
  · rw [map_update, List.map_append]
    refine h.isLists.append (notMem hr) (Option.some_ne_none r) (fun o' y hy => ?_)
      (fun o' y hy => ?_) ?_ ?_ ?_ ?_
    · exact hnext y (h.mem_of_some hy)
    · refine update_of_ne ?_ _ _
      rintro rfl
      exact notMem hr o' hy
    · rw [hnext _ (Option.some_ne_none r), if_neg (h.tail_ne (hr o)), h.unlinked r hr]
    · exact update_self ..
    · exact funext (apply_update (fun _ => ThreadList.head) q o _)
    · exact funext (apply_update (fun _ => ThreadList.tail) q o _)
  · by_cases ho : o' = o
    · subst ho
      simp [threadListAppend, h.nNodes]
    · simp [update_of_ne ho, h.nNodes]
  · have hold : ∀ o', r' ∉ xs o' := by
      intro o' hm
      refine hr' o' ?_
      by_cases ho : o' = o
      · subst ho
        rw [update_self]
        exact List.mem_append_left _ hm
      · rwa [update_of_ne ho]
    rw [hnext _ (Option.some_ne_none r'), if_neg (h.tail_ne (hold o)), h.unlinked r' hold]

/-- Take the first node off the list of `o`. -/
theorem remove (h : Threaded m q xs) {rest : List (Ref T)} (hx : xs o = r :: rest) :
    Threaded (threadListRemove m (q o) r).1 (update q o (threadListRemove m (q o) r).2)
      (update xs o rest) := by
  have hr : some r ≠ none := Option.some_ne_none r
  -- the writes to the neighbours leave the node itself as it was
  have hprev : setAt m.prev (m.next (some r)) (m.prev (some r)) (some r) = m.prev (some r) := by
    rw [setAt_of_ne hr]
    split <;> rfl
  have hnext : setAt m.next (m.prev (some r)) (m.next (some r)) (some r) = m.next (some r) := by
    rw [setAt_of_ne hr]
    split <;> rfl
  have hq : (threadListRemove m (q o) r).2 = ⟨if (q o).head = some r then m.next (some r) else
      (q o).head, if (q o).tail = some r then m.prev (some r) else (q o).tail,
      decrement (q o).nNodes⟩ := by
    simp only [threadListRemove, hprev, hnext]
  have hnext' : ∀ y ≠ none, y ≠ some r → (threadListRemove m (q o) r).1.next y =
      if y = m.prev (some r) then m.next (some r) else m.next y := by
    intro y h0 hne
    simp only [threadListRemove, update_of_ne hne, hprev, setAt_of_ne h0]
  refine ⟨?_, fun o' => ?_, fun r' hr' => ?_⟩
  · rw [map_update, hq]
    refine h.isLists.unlink (l := []) (x := some r) (by simp [hx]) (fun o' y hy hne => ?_)
      (fun o' y hy hne => ?_) ?_ ?_
    · exact hnext' y (h.mem_of_some hy) hne
    · simp only [threadListRemove, update_of_ne hne, setAt_of_ne (h.mem_of_some hy)]
    · exact funext (apply_update (fun _ => ThreadList.head) q o _)
    · exact funext (apply_update (fun _ => ThreadList.tail) q o _)
  · by_cases ho : o' = o
    · subst ho
      simp [threadListRemove, h.nNodes, hx, decrement]
    · simp [update_of_ne ho, h.nNodes]
  · -- either the node that was taken off, or one that was on no list before
    rcases eq_or_ne r' r with rfl | hne
    · exact update_self ..
    · have hold : ∀ o', r' ∉ xs o' := by
        intro o' hm
        refine hr' o' ?_
        by_cases ho : o' = o
        · subst ho
          rw [hx] at hm
          rw [update_self]
          exact (List.mem_cons.mp hm).resolve_left hne
        · rwa [update_of_ne ho]
      have hfirst : m.prev (some r) = none := by
        have hlist := h.isLists.isList o
        simp only [hx] at hlist
        exact hlist.prev_mem (l := [])
      rw [hnext' _ (Option.some_ne_none r') (fun e => hne (Option.some.inj e)), hfirst,
        if_neg (Option.some_ne_none r'), h.unlinked r' hold]

end Threaded

/-! ### The simulation -/

namespace Linked

variable [DecidableEq T] [DecidableEq O] {l l' : Linked T O} {xs xs' : O → List (Ref T)} {t : T}
  {o : O} {r : Ref T}

/-- The lists of `l` are well linked and have the nodes `xs`; the nodes from the heap
are among those allocated, and a `lock_node` on a list is known to be on it. -/
structure Rep (l : Linked T O) (xs : O → List (Ref T)) : Prop where
  threaded : Threaded l.links l.waiting xs
  heap : ∀ o, ∀ r ∈ xs o, ∀ k, r.heap = some k → k < l.allocated
  own : ∀ o, ∀ r ∈ xs o, r.heap = none → l.sys.lockNode r.thread = some o

omit [DecidableEq O] in
theorem lists_eq (h : Threaded l.links l.waiting xs) : l.lists = fun o => (xs o).map Ref.node := by
  funext o
  rw [lists, h.toList_eq, List.reduceOption, List.filterMap_map, Function.id_comp, List.filterMap_some]

theorem lists_update {ys : List (Ref T)} (h : Threaded l.links l.waiting xs)
    (h' : Threaded l'.links l'.waiting (update xs o ys)) :
    l'.lists = update l.lists o (ys.map Ref.node) := by
  rw [lists_eq h', lists_eq h]
  exact funext (apply_update (fun _ => List.map Ref.node) xs o ys)

theorem append_waiting (l : Linked T O) (o : O) (r : Ref T) : (l.append o r).waiting =
    update l.waiting o (threadListAppend l.links (l.waiting o) r).2 :=
  funext (apply_update (fun _ => Waitable.waiting) l.sys.obj o _)

theorem append_withLists (l : Linked T O) (o : O) (r : Ref T) (ys : O → List (Node T)) :
    (l.append o r).sys.withLists (update ys o (ys o ++ [r.node])) =
      (l.sys.withLists ys).append o r.node :=
  withLists_setObj l.sys ys o _ _

theorem signalNode_withLists (l : Linked T O) (o : O) (boost : Bool) (r : Ref T)
    (ys : O → List (Node T)) (rest : List (Node T)) :
    (l.signalNode o boost r).sys.withLists (update ys o rest) =
      removeNode (l.sys.withLists ys) o boost r.node rest := by
  have hobj := congrArg State.obj (withLists_setObj l.sys ys o { l.sys.obj o with
    waiting := (threadListRemove l.links (l.waiting o) r).2 } rest)
  simp only [signalNode, removeNode, State.withLists, State.mk.injEq, true_and, and_true]
  exact ⟨hobj, rfl⟩

theorem signalNode_waiting (l : Linked T O) (o : O) (boost : Bool) (r : Ref T) :
    (l.signalNode o boost r).waiting =
      update l.waiting o (threadListRemove l.links (l.waiting o) r).2 :=
  funext (apply_update (fun _ => Waitable.waiting) l.sys.obj o _)

omit [DecidableEq O] in
/-- A step that leaves the lists alone. -/
theorem Rep.aside (h : Rep l xs) {s' : State T O (ThreadList T)} (ha : Aside l.sys s') :
    Rep { l with sys := s' } xs ∧ { l with sys := s' }.read = s'.withLists l.lists := by
  have hw : { l with sys := s' }.waiting = l.waiting := funext ha.waiting
  refine ⟨⟨hw ▸ h.threaded, h.heap, fun o r hr h0 => ?_⟩, ?_⟩
  · exact (congrFun ha.lockNode _).trans (h.own o r hr h0)
  · rw [read]
    congr 1
    funext o
    rw [lists, hw, lists]

theorem Rep.runAside (h : Rep l xs) {s' : State T O (ThreadList T)} (ha : Aside l.sys s')
    (hs : Wait.runThread l.read t = some (s'.withLists l.lists)) :
    ∃ xs', Rep { l with sys := s' } xs' ∧
      Wait.runThread l.read t = some { l with sys := s' }.read := by
  obtain ⟨h', hread⟩ := h.aside ha
  exact ⟨xs, h', hread ▸ hs⟩

/-- The thread appends the node `r`, which is on no list; `m` are the links of the
nodes by then. -/
theorem Rep.append (h : Rep l xs) {m : Links T} {s' : State T O}
    (hm : Threaded m l.waiting xs) (hr : ∀ o, r ∉ xs o)
    (hlinks : l'.links = (threadListAppend m (l.waiting o) r).1)
    (hwaiting : l'.waiting = update l.waiting o (threadListAppend m (l.waiting o) r).2)
    (halloc : l.allocated ≤ l'.allocated) (hheap : ∀ k, r.heap = some k → k < l'.allocated)
    (hnode : ∀ u o', l.sys.lockNode u = some o' → l'.sys.lockNode u = some o')
    (hown : r.heap = none → l'.sys.lockNode r.thread = some o)
    (hs' : s' = l'.sys.withLists (update l.lists o (l.lists o ++ [r.node]))) :
    ∃ xs', Rep l' xs' ∧ some s' = some l'.read := by
  have hthreaded : Threaded l'.links l'.waiting (update xs o (xs o ++ [r])) := by
    rw [hlinks, hwaiting]
    exact hm.append o hr
  have hmem : ∀ o', ∀ r' ∈ update xs o (xs o ++ [r]) o', r' ∈ xs o' ∨ (r' = r ∧ o' = o) := by
    intro o' r' hr'
    by_cases ho : o' = o
    · subst ho
      rw [update_self, List.mem_append, List.mem_singleton] at hr'
      exact hr'.imp_right fun e => ⟨e, rfl⟩
    · rw [update_of_ne ho] at hr'
      exact .inl hr'
  refine ⟨_, ⟨hthreaded, ?_, ?_⟩, ?_⟩
  · intro o' r' hr' k hk
    rcases hmem o' r' hr' with hold | ⟨rfl, -⟩
    · exact (h.heap o' r' hold k hk).trans_le halloc
    · exact hheap k hk
  · intro o' r' hr' h0
    rcases hmem o' r' hr' with hold | ⟨rfl, rfl⟩
    · exact hnode _ _ (h.own o' r' hold h0)
    · exact hown h0
  · rw [hs', read, lists_update h.threaded hthreaded, List.map_append, lists_eq h.threaded]
    rfl

/-- `Core_WaitOnObject` appends the `lock_node`, which is on no list. -/
theorem Rep.enqueue {entry : ℕ} (h : Rep l xs) (hpc : l.sys.pc t = .check o entry)
    (hoff : (l.sys.obj o).isSignaled = false) (hnode : l.sys.lockNode t = none)
    (hr : l.runThread t = some l') :
    ∃ xs', Rep l' xs' ∧ Wait.runThread l.read t = some l'.read := by
  have hne : ∀ u o', l.sys.lockNode u = some o' → u ≠ t := by
    rintro u o' hu rfl
    rw [hnode] at hu
    cases hu
  simp only [runThread, hpc, hoff, Bool.false_eq_true, if_false, Option.some.injEq] at hr
  subst hr
  simp only [Wait.runThread, read, State.withLists_pc, hpc, withLists_isSignaled, hoff, hnode,
    State.withLists_lockNode, Bool.false_eq_true, if_false, Option.isSome_none]
  refine h.append (o := o) (r := ⟨t, none⟩) h.threaded
    (fun o' hm => hne t o' (h.own o' _ hm rfl) rfl) rfl (funext fun o' => ?_) le_rfl
    (fun _ hk => by cases hk) (fun u o' hu => ?_) (fun _ => update_self ..) ?_
  · exact (setLock_waiting _ o o' none).trans (congrFun (append_waiting _ o _) o')
  · exact (update_of_ne (hne u o' hu) _ _).trans hu
  · simp only [withLists_goto, withLists_setLock, withLists_setLockNode, append_withLists]
    rfl

/-- `Core_WaitOnObjects` appends a new node. -/
theorem Rep.enqueueNext {os : List O} {old : Option ℕ} (h : Rep l xs)
    (hpc : l.sys.pc t = .checkNext o os old) (hoff : (l.sys.obj o).isSignaled = false)
    (hr : l.runThread t = some l') :
    ∃ xs', Rep l' xs' ∧ Wait.runThread l.read t = some l'.read := by
  simp only [runThread, hpc, hoff, Bool.false_eq_true, if_false, Option.some.injEq] at hr
  subst hr
  have hnew : ∀ o', (⟨t, some l.allocated⟩ : Ref T) ∉ xs o' :=
    fun o' hm => absurd (h.heap o' _ hm _ rfl) (lt_irrefl _)
  have haway : ∀ (f : Ptr T → Ptr T) (o' : O), ∀ y ∈ (xs o').map some,
      update f (some ⟨t, some l.allocated⟩) none y = f y := by
    intro f o' y hy
    refine update_of_ne ?_ _ _
    rintro rfl
    exact Threaded.notMem hnew o' hy
  have hzero : Threaded (l.zeroAllocate ⟨t, some l.allocated⟩).links l.waiting xs := by
    refine ⟨h.threaded.isLists.congr (haway _) (haway _), h.threaded.nNodes, fun r hr => ?_⟩
    by_cases he : r = ⟨t, some l.allocated⟩
    · rw [he]
      exact update_self ..
    · exact (update_of_ne (fun e => he (Option.some.inj e)) _ _).trans (h.threaded.unlinked r hr)
  simp only [Wait.runThread, read, State.withLists_pc, hpc, withLists_isSignaled, hoff,
    Bool.false_eq_true, if_false]
  refine h.append (o := o) (r := ⟨t, some l.allocated⟩) hzero hnew rfl (funext fun o' => ?_)
    (Nat.le_succ _) ?_ (fun u o' hu => hu) (fun hk => by cases hk) ?_
  · exact (setLock_waiting _ o o' none).trans (congrFun (append_waiting _ o _) o')
  · intro k hk
    exact Option.some.inj hk ▸ Nat.lt_succ_self _
  · simp only [withLists_goto, withLists_spinlockRelease, append_withLists]
    rfl

/-- The first node is taken off the list of `o`. -/
theorem Rep.remove (h : Rep l xs) (boost : Bool) {rest : List (Ref T)} (hx : xs o = r :: rest) :
    Rep (l.signalNode o boost r) (update xs o rest) ∧
      (l.signalNode o boost r).lists = update l.lists o (rest.map Ref.node) := by
  have hthreaded : Threaded (l.signalNode o boost r).links (l.signalNode o boost r).waiting
      (update xs o rest) := signalNode_waiting l o boost r ▸ h.threaded.remove hx
  have hold : ∀ o', ∀ r' ∈ update xs o rest o', r' ∈ xs o' ∧ r' ≠ r := by
    intro o' r' hr'
    by_cases ho : o' = o
    · subst ho
      have hnd := (h.threaded.isLists.isList o').nodup
      simp only [hx] at hnd
      rw [update_self] at hr'
      refine ⟨hx ▸ List.mem_cons_of_mem r hr', ?_⟩
      rintro rfl
      exact (List.nodup_cons.mp (hnd.of_map some)).1 hr'
    · rw [update_of_ne ho] at hr'
      refine ⟨hr', ?_⟩
      rintro rfl
      exact ho (h.threaded.eq_of_mem hr' (hx ▸ List.mem_cons_self))
  refine ⟨⟨hthreaded, fun o' r' hr' => h.heap o' r' (hold o' r' hr').1, fun o' r' hr' h0 => ?_⟩,
    lists_update h.threaded hthreaded⟩
  have hlock := h.own o' r' (hold o' r' hr').1 h0
  show (if r.node.own then update l.sys.lockNode r.thread none else l.sys.lockNode) r'.thread = _
  split
  · next hown =>
    -- the other `lock_node`s are those of other threads
    refine (update_of_ne (fun he => (hold o' r' hr').2 ?_) _ _).trans hlock
    cases r
    cases r'
    simp_all [Ref.node]
  · exact hlock

/-- One turn of a signal. -/
theorem Rep.signalLoop {all boost : Bool} {old : Option ℕ} (h : Rep l xs)
    (hpc : l.sys.pc t = .signalLoop o all boost old) (hr : l.runThread t = some l') :
    ∃ xs', Rep l' xs' ∧ Wait.runThread l.read t = some l'.read := by
  have hlist : l.lists o = (xs o).map Ref.node := congrFun (lists_eq h.threaded) o
  have hhead := h.threaded.head_eq o
  have hrelease : ∀ s : State T O (ThreadList T),
      Aside s ((s.spinlockRelease t o old).goto t .outside) :=
    fun s => .setObj rfl rfl rfl
  rcases hx : xs o with _ | ⟨r, rest⟩
  · rw [hx] at hhead hlist
    have hw : ((l.sys.withLists l.lists).obj o).waiting = [] := hlist
    simp only [runThread, hpc, hhead, List.map_nil, List.headD_nil, Option.some.injEq] at hr
    subst hr
    refine h.runAside (hrelease l.sys) ?_
    simp only [Wait.runThread, read, State.withLists_pc, hpc, hw, withLists_goto,
      withLists_spinlockRelease]
  · rw [hx] at hhead hlist
    have hw : ((l.sys.withLists l.lists).obj o).waiting = r.node :: rest.map Ref.node := hlist
    obtain ⟨h', hlists⟩ := h.remove boost hx
    simp only [runThread, hpc, hhead, List.map_cons, List.headD_cons] at hr
    cases all with
    | true =>
      simp only [if_true, Option.some.injEq] at hr
      subst hr
      refine ⟨_, h', ?_⟩
      rw [read, read, hlists]
      simp only [Wait.runThread, State.withLists_pc, hpc, hw, if_true, signalNode_withLists]
    | false =>
      simp only [Bool.false_eq_true, if_false, Option.some.injEq] at hr
      subst hr
      obtain ⟨h'', hread⟩ := h'.aside (hrelease _)
      refine ⟨_, h'', ?_⟩
      rw [hread, read, hlists]
      simp only [Wait.runThread, State.withLists_pc, hpc, hw, Bool.false_eq_true, if_false,
        withLists_goto, withLists_spinlockRelease, signalNode_withLists]

theorem Rep.runThread (h : Rep l xs) (hno : l.relinks (.run t) = false)
    (hr : l.runThread t = some l') :
    ∃ xs', Rep l' xs' ∧ Wait.runThread l.read t = some l'.read := by
  obtain ⟨p, hpc⟩ : ∃ p, l.sys.pc t = p := ⟨_, rfl⟩
  cases p with
  | check o entry =>
    cases hon : (l.sys.obj o).isSignaled with
    | true =>
      simp only [Linked.runThread, hpc, hon, if_true, Option.some.injEq] at hr
      subst hr
      refine h.runAside (.setObj rfl rfl rfl) ?_
      simp only [Wait.runThread, read, State.withLists_pc, hpc, withLists_isSignaled, hon, if_true,
        withLists_goto, withLists_setLock, withLists_setIrql]
    | false =>
      simp only [relinks, hpc, hon, Bool.not_false, Bool.true_and, Option.isSome_eq_false_iff,
        Option.isNone_iff_eq_none] at hno
      exact h.enqueue hpc hon hno hr
  | checkNext o os old =>
    cases hon : (l.sys.obj o).isSignaled with
    | true =>
      simp only [Linked.runThread, hpc, hon, if_true, Option.some.injEq] at hr
      subst hr
      refine h.runAside (.setObj rfl rfl rfl) ?_
      simp only [Wait.runThread, read, State.withLists_pc, hpc, withLists_isSignaled, hon, if_true,
        withLists_goto, withLists_spinlockRelease]
    | false => exact h.enqueueNext hpc hon hr
  | signalLoop o all boost old => exact h.signalLoop hpc hr
  | _ =>
    simp only [Linked.runThread, hpc] at hr
    obtain ⟨s', hs, rfl⟩ := Option.map_eq_some_iff.mp hr
    refine h.runAside (runPlain_aside hs) ?_
    simp only [Wait.runThread, read, State.withLists_pc, hpc, runPlain_withLists, hs, Option.map_some]

/-- A step that does not append a linked `lock_node` keeps the lists well linked, and is
the step of `Obos.Wait` on the lists that are read off them. -/
theorem simulates {op : Op T O} (h : Rep l xs) (hno : l.relinks op = false)
    (hs : l.step op = some l') : ∃ xs', Rep l' xs' ∧ Wait.step l.read op = some l'.read := by
  by_cases hrun : ∃ t, op = .run t
  · obtain ⟨t, rfl⟩ := hrun
    exact h.runThread hno hs
  · have hcall : Wait.step l.read op = stepWith (fun _ => none) l.read op ∧
        l.step op = (stepWith (fun _ => none) l.sys op).map fun s => { l with sys := s } := by
      cases op with
      | run t => exact absurd ⟨t, rfl⟩ hrun
      | _ => exact ⟨rfl, rfl⟩
    rw [hcall.2] at hs
    obtain ⟨s', hs', rfl⟩ := Option.map_eq_some_iff.mp hs
    obtain ⟨h', hread⟩ := h.aside (stepWith_aside hs')
    exact ⟨xs, h', by rw [hread, hcall.1, read, stepWith_withLists, hs', Option.map_some]⟩

/-! ### Waiting for all -/

/-- The lists are well linked. -/
def WellLinked (l : Linked T O) : Prop := ∃ xs, Rep l xs

omit [DecidableEq O] in
/-- A list that is well linked has the nodes that are read off it. -/
theorem Rep.onList_iff (h : Rep l xs) :
    l.OnList o t ↔ ∃ n ∈ (l.read.obj o).waiting, n.thread = t := by
  have hread : (l.read.obj o).waiting = (xs o).map Ref.node := congrFun (lists_eq h.threaded) o
  simp only [OnList, (h.threaded.isLists.isList o).reach_iff, hread, List.mem_map,
    Option.some.injEq, exists_eq_right, exists_exists_and_eq_and, Ref.node]

theorem simulates_run {ok : Linked T O → Op T O → Prop} (ok' : State T O → Op T O → Prop)
    {ops : List (Op T O)} (hl : l.WellLinked) (hno : ∀ l op, ok l op → l.relinks op = false)
    (hok' : ∀ l op, ok l op → ok' l.read op) (hok : Run.Meets ok step l ops)
    (hrun : ops.foldlM step l = some l') :
    l'.WellLinked ∧ ops.foldlM Wait.step l.read = some l'.read ∧
      Run.Meets ok' Wait.step l.read ops := by
  have hsim : ∃ s', ops.foldlM Wait.step l.read = some s' ∧ (s' = l'.read ∧ l'.WellLinked) ∧
      Run.Meets ok' Wait.step l.read ops := by
    refine Run.simulate (R := fun l s => s = l.read ∧ l.WellLinked) ?_ ?_ ⟨rfl, hl⟩ hok hrun
    · rintro l s op ⟨rfl, -⟩ ho
      exact hok' l op ho
    · rintro l s op l1 ⟨rfl, xs, h⟩ ho hs
      obtain ⟨xs1, h1, hstep⟩ := simulates h (hno l op ho) hs
      exact ⟨_, hstep, rfl, xs1, h1⟩
  obtain ⟨s', hs', ⟨rfl, hl'⟩, hm⟩ := hsim
  exact ⟨hl', hs', hm⟩

/-- Two processors, threads that all run, and two objects with a flag that is not set. -/
def quiet : Linked ℕ Bool where
  sys :=
    { cpuCount := 2
      obj := fun _ => ⟨⟨none, none, 0⟩, none, false, true⟩
      thread := fun _ => ⟨⟨.running, 2, false, false, 0, 3, some 0, 1⟩, 0, 0, 0⟩
      pc := fun _ => .outside
      readied := fun _ => 0
      lockNode := fun _ => none }
  links := ⟨fun _ => none, fun _ => none⟩
  allocated := 0

theorem quiet_wellLinked : quiet.WellLinked := by
  refine ⟨fun _ => [], ⟨⟨fun _ => .nil _ _ _, ?_⟩, fun _ => rfl, fun _ _ => rfl⟩, ?_, ?_⟩
  · exact fun _ _ _ hx => absurd hx List.not_mem_nil
  · exact fun _ _ hr => absurd hr List.not_mem_nil
  · exact fun _ _ hr => absurd hr List.not_mem_nil

/-- Thread 1 enqueues itself on both objects and once more on the first. -/
def waitForThree : List (Op ℕ Bool) :=
  .waitOnObjects 1 [false, true, false] :: List.replicate 10 (.run 1)

/-- Thread 2 signals all who wait on the first object, then one who waits on the second. -/
def signalThree : List (Op ℕ Bool) :=
  [.signal 2 false true false, .run 2, .run 2, .run 2, .run 2,
    .signal 2 true false false, .run 2, .run 2]

/-- Threads 5 and 1 wait on the first object; a signal takes 5 off its list, and 1 finds
the object signalled at its second look and returns.  Then the object is cleared. -/
def leftLinked : List (Op ℕ Bool) :=
  [.waitOnObject 5 false, .run 5, .run 5, .waitOnObject 1 false, .run 1, .run 1,
    .signal 4 false false false, .run 1, .run 4, .run 4, .clear false]

/-- Thread 2 waits on the first object. -/
def waitForOne : List (Op ℕ Bool) := .waitOnObjects 2 [false] :: List.replicate 4 (.run 2)

/-- Thread 1 waits on the second object with its `lock_node` on the list of the first, and 3
waits on the second.  All who wait on the first object are signalled. -/
def appendTwice : List (Op ℕ Bool) :=
  [.waitOnObject 1 true, .run 1, .run 1, .waitOnObject 3 true, .run 3, .run 3,
    .signal 4 false true false, .run 4, .run 4, .run 4, .run 4]

end Linked

end Obos.Wait
