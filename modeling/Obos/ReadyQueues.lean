/-
The ready queues under every interleaving of the scheduler's calls.

`Queued s xs` is the invariant: the lists of all processors are well linked and
visit `xs`, the nodes on them are the `snode`s of the threads that have a
processor, each on the list of its processor and priority, and the node of a
thread without one has no successor.  Every call changes at most one thread and
moves at most its node at a time; `Change.queued` says once what follows from that.

`Core_Schedule` trusts that the current thread, if it is boosted, is on a list of
its own processor, and that the thread behind it is on that list too.  Between
being blocked and the next schedule of its processor a thread is on no list, and
it may be boosted there, or be readied for another processor.

* `readyQueues_run` — the queues are in order in every run in which
  `Core_Schedule` does not meet such a thread,
* `boosted_while_blocked_corrupts` — when it does, a counter wraps and a blocked
  thread is scheduled.
-/
import Obos.Scheduler

namespace Obos.Sched

open DLinked Function

/-! ### What the list functions write -/

section Lists

variable (s : State) (c p n v m : ℕ)

theorem State.setNode_node (x : Node) :
    (s.setNode n x).node m = if m = n then x else s.node m := update_apply ..

theorem State.setThread_thread (t u : ℕ) (x : Thread) :
    (s.setThread t x).thread u = if u = t then x else s.thread u := update_apply ..

theorem State.setList_node (l : PriorityList) : (s.setList c p l).node = s.node := rfl

theorem State.setList_list (l : PriorityList) (i : ℕ × ℕ) : (s.setList c p l).list i.1 i.2 =
    update (fun i => s.list i.1 i.2) (c, p) l i := by
  obtain ⟨c', p'⟩ := i
  by_cases hc : c' = c
  · subst hc
    by_cases hp : p' = p
    · subst hp
      simp [State.list, State.setList, State.setCpu]
    · simp [State.list, State.setList, State.setCpu, hp]
  · simp [State.list, State.setList, State.setCpu, hc]

theorem State.setList_keep {s : State} {c p : ℕ} {l : PriorityList} (f : PriorityList → ℕ)
    (h : f l = f (s.list c p)) (c' p' : ℕ) : f ((s.setList c p l).list c' p') = f (s.list c' p') := by
  rw [State.setList_list s c p l (c', p')]
  exact Update.keep (g := fun i : ℕ × ℕ => s.list i.1 i.2) (a := (c, p)) f h (c', p')

/-- What `setNext` and `setPrev` have in common. -/
theorem State.setLink_node (f : Node → Node) : (if n = 0 then s else s.setNode n (f (s.node n))).node m =
    if m = n ∧ m ≠ 0 then f (s.node m) else s.node m := by
  by_cases hm : m = n
  · subst hm
    by_cases h0 : m = 0 <;> simp [h0, State.setNode_node]
  · by_cases h0 : n = 0 <;> simp [h0, hm, State.setNode_node]

theorem State.setNext_node : (s.setNext n v).node m =
    if m = n ∧ m ≠ 0 then { s.node m with next := v } else s.node m :=
  State.setLink_node s n m fun x => { x with next := v }

theorem State.setPrev_node : (s.setPrev n v).node m =
    if m = n ∧ m ≠ 0 then { s.node m with prev := v } else s.node m :=
  State.setLink_node s n m fun x => { x with prev := v }

/-- Everything but the nodes and the lists is the same. -/
structure SameRest (s s' : State) : Prop where
  cpuCount : s'.cpuCount = s.cpuCount
  current : ∀ c, (s'.cpu c).currentThread = (s.cpu c).currentThread
  idle : ∀ c, (s'.cpu c).idleThread = (s.cpu c).idleThread
  readyThreadCount : s'.readyThreadCount = s.readyThreadCount
  thread : s'.thread = s.thread
  data : ∀ m, (s'.node m).data = (s.node m).data

theorem SameRest.trans {s s' s'' : State} (h : SameRest s s') (h' : SameRest s' s'') :
    SameRest s s'' where
  cpuCount := h'.cpuCount.trans h.cpuCount
  current c := (h'.current c).trans (h.current c)
  idle c := (h'.idle c).trans (h.idle c)
  readyThreadCount := h'.readyThreadCount.trans h.readyThreadCount
  thread := h'.thread.trans h.thread
  data m := (h'.data m).trans (h.data m)

theorem SameRest.refl : SameRest s s := ⟨rfl, fun _ => rfl, fun _ => rfl, rfl, rfl, fun _ => rfl⟩

theorem setNext_sameRest : SameRest s (s.setNext n v) := by
  rw [State.setNext]
  split
  · exact .refl s
  · exact ⟨rfl, fun _ => rfl, fun _ => rfl, rfl, rfl, Update.keep Node.data rfl⟩

theorem setPrev_sameRest : SameRest s (s.setPrev n v) := by
  rw [State.setPrev]
  split
  · exact .refl s
  · exact ⟨rfl, fun _ => rfl, fun _ => rfl, rfl, rfl, Update.keep Node.data rfl⟩

theorem setList_sameRest (l : PriorityList) : SameRest s (s.setList c p l) :=
  ⟨rfl, Update.keep Cpu.currentThread rfl, Update.keep Cpu.idleThread rfl, rfl, rfl, fun _ => rfl⟩

theorem State.setNext_list (c' p' : ℕ) : (s.setNext n v).list c' p' = s.list c' p' := by
  rw [State.setNext]
  split <;> rfl

theorem State.setPrev_list (c' p' : ℕ) : (s.setPrev n v).list c' p' = s.list c' p' := by
  rw [State.setPrev]
  split <;> rfl

variable {s c p n}

/-- The list functions accept the node. -/
structure Accepts (s : State) (p n : ℕ) : Prop where
  priority : p ≤ maxPriority
  node : n ≠ 0
  data : (s.node n).data ≠ 0

theorem Accepts.not (h : Accepts s p n) : ¬ (maxPriority < p ∨ n = 0 ∨ (s.node n).data = 0) := by
  rintro (h1 | h1 | h1)
  · exact absurd h.priority (Nat.not_le.mpr h1)
  · exact h.node h1
  · exact h.data h1

theorem listRemove_node (h : Accepts s p n) : (listRemove s c p n).1.node m =
    if m = n then { s.node n with next := 0, prev := 0 }
    else { s.node m with
      next := if m = (s.node n).prev ∧ m ≠ 0 then (s.node n).next else (s.node m).next
      prev := if m = (s.node n).next ∧ m ≠ 0 then (s.node n).prev else (s.node m).prev } := by
  rw [listRemove, if_neg h.not]
  rw [State.setPrev_node, State.setNext_node]
  simp only [State.setList_node, State.setNext_node, State.setPrev_node]
  by_cases hm : m = n
  · subst hm
    simp only [true_and, h.node, ne_eq, not_false_eq_true, if_true]
    split_ifs <;> rfl
  · simp only [hm, false_and, if_false]
    split_ifs <;> rfl

/-- A list without the node `n`, whose links are those of `x`. -/
def PriorityList.without (l : PriorityList) (n : ℕ) (x : Node) : PriorityList :=
  { l with
    head := if l.head = n then x.next else l.head
    tail := if l.tail = n then x.prev else l.tail
    nNodes := decrement l.nNodes }

theorem listRemove_list (h : Accepts s p n) (i : ℕ × ℕ) : (listRemove s c p n).1.list i.1 i.2 =
    update (fun i => s.list i.1 i.2) (c, p) ((s.list c p).without n (s.node n)) i := by
  rw [listRemove, if_neg h.not]
  rw [State.setPrev_list, State.setNext_list, State.setList_list]
  simp only [State.setNext_list, State.setPrev_list]
  rfl

theorem listRemove_sameRest (s : State) (c p n : ℕ) : SameRest s (listRemove s c p n).1 := by
  rw [listRemove]
  refine refused (P := SameRest s) (.refl s) fun _ => ?_
  refine SameRest.trans ?_ (setPrev_sameRest ..)
  refine SameRest.trans ?_ (setNext_sameRest ..)
  refine SameRest.trans ?_ (setList_sameRest ..)
  exact (setPrev_sameRest ..).trans (setNext_sameRest ..)

theorem listAppend_node (h : Accepts s p n) : (listAppend s c p n).1.node m =
    { s.node m with
      next := if m = (s.list c p).tail ∧ m ≠ 0 then n else (s.node m).next
      prev := if m = n then (s.list c p).tail else (s.node m).prev } := by
  rw [listAppend, if_neg h.not]
  show ((s.setNext _ _).setPrev _ _).node m = _
  rw [State.setPrev_node, State.setNext_node]
  by_cases hm : m = n
  · subst hm
    simp only [true_and, h.node, ne_eq, not_false_eq_true, if_true]
    split_ifs <;> rfl
  · simp only [hm, false_and, if_false]
    split_ifs <;> rfl

/-- A list with the node `n` behind the others. -/
def PriorityList.withLast (l : PriorityList) (n : ℕ) : PriorityList :=
  { l with head := if l.head = 0 then n else l.head, tail := n, nNodes := l.nNodes + 1 }

theorem listAppend_list (h : Accepts s p n) (i : ℕ × ℕ) : (listAppend s c p n).1.list i.1 i.2 =
    update (fun i => s.list i.1 i.2) (c, p) ((s.list c p).withLast n) i := by
  rw [listAppend, if_neg h.not]
  rw [State.setList_list]
  simp only [State.setPrev_list, State.setNext_list]
  rfl

theorem listAppend_sameRest (s : State) (c p n : ℕ) : SameRest s (listAppend s c p n).1 := by
  rw [listAppend]
  refine refused (P := SameRest s) (.refl s) fun _ => ?_
  refine SameRest.trans ?_ (setList_sameRest ..)
  exact (setNext_sameRest ..).trans (setPrev_sameRest ..)

end Lists

/-! ### Well linked lists -/

section

variable (xs : ℕ × ℕ → List ℕ) (i : ℕ × ℕ) (n : ℕ)

/-- The lists without the node `n` of the list `i`. -/
def erased : ℕ × ℕ → List ℕ := update xs i ((xs i).erase n)

/-- The lists with the node `n` behind the others of the list `i`. -/
def appended : ℕ × ℕ → List ℕ := update xs i (xs i ++ [n])

end

/-- The lists of all processors are well linked and visit `xs`. -/
structure Linked (s : State) (xs : ℕ × ℕ → List ℕ) : Prop where
  lists : IsLists (fun n => (s.node n).next) (fun n => (s.node n).prev) 0
    (fun i => (s.list i.1 i.2).head) (fun i => (s.list i.1 i.2).tail) xs
  nNodes : ∀ i, (s.list i.1 i.2).nNodes = (xs i).length

namespace Linked

variable {s : State} {xs : ℕ × ℕ → List ℕ} {c p n : ℕ}

theorem remove (h : Linked s xs) (ha : Accepts s p n) (hn : n ∈ xs (c, p)) :
    Linked (listRemove s c p n).1 (erased xs (c, p) n) := by
  obtain ⟨l, r, hlr⟩ := List.append_of_mem hn
  have hnd : (l ++ n :: r).Nodup := hlr ▸ (h.lists.isList (c, p)).nodup
  have hnl : n ∉ l := by
    rw [List.nodup_middle, List.nodup_cons] at hnd
    exact fun hm => hnd.1 (List.mem_append_left _ hm)
  have herase : (xs (c, p)).erase n = l ++ r := by
    rw [hlr, List.erase_append_right _ hnl, List.erase_cons_head]
  have hne : ∀ {j y}, y ∈ xs j → y ≠ 0 := fun hy e => h.lists.null_notMem _ (e ▸ hy)
  refine ⟨?_, fun i => ?_⟩
  · rw [erased, herase]
    refine h.lists.unlink hlr (fun j y hy hyn => ?_) (fun j y hy hyn => ?_) ?_ ?_
    · simp [listRemove_node _ ha, if_neg hyn, and_iff_left (hne hy)]
    · simp [listRemove_node _ ha, if_neg hyn, and_iff_left (hne hy)]
    · simp only [listRemove_list ha]
      exact funext (apply_update (fun _ => PriorityList.head) _ _ _)
    · simp only [listRemove_list ha]
      exact funext (apply_update (fun _ => PriorityList.tail) _ _ _)
  · rw [listRemove_list ha, erased, update_apply, update_apply]
    split_ifs with hi
    · subst hi
      have hpos : 0 < (xs (c, p)).length := List.length_pos_of_mem hn
      rw [List.length_erase_of_mem hn, ← h.nNodes (c, p)]
      rw [← h.nNodes (c, p)] at hpos
      exact if_neg (Nat.pos_iff_ne_zero.mp hpos)
    · exact h.nNodes i

theorem append (h : Linked s xs) (ha : Accepts s p n) (hn : ∀ i, n ∉ xs i)
    (hnext : (s.node n).next = 0) :
    Linked (listAppend s c p n).1 (appended xs (c, p) n) := by
  have hne : ∀ {j y}, y ∈ xs j → y ≠ 0 := fun hy e => h.lists.null_notMem _ (e ▸ hy)
  have htail : n ≠ (s.list c p).tail := by
    intro e
    have hne0 : (s.list c p).tail ≠ 0 := e ▸ ha.node
    exact hn (c, p) (e ▸ (h.lists.isList (c, p)).tail_mem hne0)
  refine ⟨h.lists.append hn ha.node (fun j y hy => ?_) (fun j y hy => ?_) ?_ ?_ ?_ ?_, fun i => ?_⟩
  · simp [listAppend_node _ ha, and_iff_left (hne hy)]
  · simp [listAppend_node _ ha, if_neg fun e : y = n => hn j (e ▸ hy)]
  · simp [listAppend_node _ ha, htail, hnext]
  · simp [listAppend_node _ ha]
  · simp only [listAppend_list ha]
    exact funext (apply_update (fun _ => PriorityList.head) _ _ _)
  · simp only [listAppend_list ha]
    exact funext (apply_update (fun _ => PriorityList.tail) _ _ _)
  · rw [listAppend_list ha, appended, update_apply, update_apply]
    split_ifs with hi
    · subst hi
      simp [PriorityList.withLast, h.nNodes (c, p)]
    · exact h.nNodes i

end Linked

/-! ### The invariant -/

/-- The threads on the lists of all processors, counted. -/
def listedCount (s : State) (xs : ℕ × ℕ → List ℕ) : ℕ :=
  ∑ i ∈ Finset.range s.cpuCount ×ˢ Finset.range (maxPriority + 1), (xs i).length

/-- The lists, and which threads are on them. -/
structure Queued (s : State) (xs : ℕ × ℕ → List ℕ) : Prop where
  linked : Linked s xs
  listed : ∀ i n, n ∈ xs i → (s.node n).data ≠ 0 ∧ (s.thread (s.node n).data).snode = n ∧
    (s.thread (s.node n).data).masterCPU = some i.1 ∧ (s.thread (s.node n).data).priority = i.2
  master : ∀ t c, (s.thread t).masterCPU = some c → c < s.cpuCount ∧
    (s.thread t).priority ≤ maxPriority ∧ (s.node (s.thread t).snode).data = t ∧
    (s.thread t).snode ∈ xs (c, (s.thread t).priority)
  blocked : ∀ t, (s.thread t).status = .blocked → (s.thread t).masterCPU = none
  own : ∀ t u, (s.thread t).snode = (s.thread u).snode → (s.thread t).snode ≠ 0 → t = u
  parked : ∀ t, (s.thread t).masterCPU = none → (s.thread t).snode ≠ 0 →
    (s.node (s.thread t).snode).next = 0
  count : s.readyThreadCount = listedCount s xs

/-- Replacing one list changes the sum of the lengths by the difference. -/
theorem sum_length_update {ι : Type*} [DecidableEq ι] {S : Finset ι} {i : ι} (hi : i ∈ S)
    (xs : ι → List ℕ) (l : List ℕ) :
    ∑ j ∈ S, (update xs i l j).length + (xs i).length =
      ∑ j ∈ S, (xs j).length + l.length := by
  rw [← Finset.add_sum_erase S _ hi, ← Finset.add_sum_erase S (fun j => (xs j).length) hi,
    update_self]
  have hrest : ∑ j ∈ S.erase i, (update xs i l j).length =
      ∑ j ∈ S.erase i, (xs j).length := by
    refine Finset.sum_congr rfl fun j hj => ?_
    rw [update_of_ne (Finset.ne_of_mem_erase hj)]
  rw [hrest]
  omega

namespace Queued

variable {s s' : State} {xs : ℕ × ℕ → List ℕ} {t c p n : ℕ}

theorem index_mem (hc : c < s.cpuCount) (hp : p ≤ maxPriority) :
    (c, p) ∈ Finset.range s.cpuCount ×ˢ Finset.range (maxPriority + 1) := by
  rw [Finset.mem_product, Finset.mem_range, Finset.mem_range]
  exact ⟨hc, Nat.lt_succ_of_le hp⟩

variable (h : Queued s xs)
include h

/-- The null thread is on no list. -/
theorem ne_zero_of_master (hc : (s.thread t).masterCPU = some c) : t ≠ 0 := by
  obtain ⟨-, -, hd, hm⟩ := h.master t c hc
  exact hd ▸ (h.listed _ _ hm).1

theorem accepts (hc : (s.thread t).masterCPU = some c) (hp : p ≤ maxPriority) :
    Accepts s p (s.thread t).snode := by
  obtain ⟨-, -, hd, hm⟩ := h.master t c hc
  refine ⟨hp, ?_, (h.listed _ _ hm).1⟩
  intro e
  exact h.linked.lists.null_notMem _ (e ▸ hm)

/-- The list a thread's node is on. -/
theorem mem_iff (i : ℕ × ℕ) : (s.thread t).snode ∈ xs i ↔
    (s.thread t).masterCPU = some i.1 ∧ (s.thread t).priority = i.2 := by
  constructor
  · intro hm
    obtain ⟨-, hsn, hplace⟩ := h.listed i _ hm
    have hne : (s.thread t).snode ≠ 0 := fun e => h.linked.lists.null_notMem i (e ▸ hm)
    rwa [← h.own t _ hsn.symm hne] at hplace
  · rintro ⟨hc, hp⟩
    have hm := (h.master t i.1 hc).2.2.2
    rwa [hp] at hm

/-- A thread without a processor is on no list. -/
theorem notMem_of_parked (hc : (s.thread t).masterCPU = none) (i : ℕ × ℕ) :
    (s.thread t).snode ∉ xs i := by
  simp [h.mem_iff i, hc]

/-- What the invariant reads of the lists is the same. -/
theorem congr {x : Cpu} (hhead : ∀ c' p, ((s.setCpu c x).list c' p).head = (s.list c' p).head)
    (htail : ∀ c' p, ((s.setCpu c x).list c' p).tail = (s.list c' p).tail)
    (hnNodes : ∀ c' p, ((s.setCpu c x).list c' p).nNodes = (s.list c' p).nNodes) :
    Queued (s.setCpu c x) xs where
  linked := by
    refine ⟨?_, fun i => (hnNodes i.1 i.2).trans (h.linked.nNodes i)⟩
    simp only [hhead, htail]
    exact h.linked.lists
  listed := h.listed
  master := h.master
  blocked := h.blocked
  own := h.own
  parked := h.parked
  count := h.count

end Queued

/-! ### Taking a node off its list and putting it on one -/

section Moves

variable {s : State} {xs : ℕ × ℕ → List ℕ} {t c p n m : ℕ}

theorem Linked.mem_erased (h : Linked s xs) (hn : n ∈ xs (c, p)) (i : ℕ × ℕ) :
    m ∈ erased xs (c, p) n i ↔ m ≠ n ∧ m ∈ xs i := by
  rw [erased, update_apply]
  split
  · rename_i hi
    subst hi
    exact (h.lists.isList (c, p)).nodup.mem_erase_iff
  · rename_i hi
    refine ⟨fun hm => ⟨?_, hm⟩, fun hm => hm.2⟩
    rintro rfl
    exact hi (h.lists.disjoint i (c, p) m hm hn)

theorem mem_appended (i : ℕ × ℕ) :
    m ∈ appended xs (c, p) n i ↔ m ∈ xs i ∨ (m = n ∧ i = (c, p)) := by
  rw [appended, update_apply]
  split
  · rename_i hi
    subst hi
    simp
  · rename_i hi
    simp [hi]

/-- The links of a node on no list are not written when another is taken off. -/
theorem Linked.remove_next (h : Linked s xs) (ha : Accepts s p n) (hn : n ∈ xs (c, p))
    (hm : ∀ i, m ∉ xs i) : ((listRemove s c p n).1.node m).next = (s.node m).next := by
  have hmn : m ≠ n := fun e => hm (c, p) (e ▸ hn)
  simp only [listRemove_node _ ha, if_neg hmn]
  refine if_neg fun ⟨e, h0⟩ => ?_
  exact hm (c, p) (e ▸ (h.lists.isList (c, p)).prev_mem_of_ne hn (e ▸ h0))

/-- The same when a node is put on a list. -/
theorem Linked.append_next (h : Linked s xs) (ha : Accepts s p n) (hm : ∀ i, m ∉ xs i) :
    ((listAppend s c p n).1.node m).next = (s.node m).next := by
  simp only [listAppend_node _ ha]
  refine if_neg fun ⟨e, h0⟩ => ?_
  exact hm (c, p) (e ▸ (h.lists.isList (c, p)).tail_mem (e ▸ h0))

/-- Removed from its list, a thread's node is on no list and has no successor. -/
theorem Queued.removed (h : Queued s xs) (hc : (s.thread t).masterCPU = some c)
    (hsn : (s.thread t).snode = n) (hpr : (s.thread t).priority = p) :
    Linked (listRemove s c p n).1 (erased xs (c, p) n) ∧ (∀ i, n ∉ erased xs (c, p) n i) ∧
      ((listRemove s c p n).1.node n).next = 0 := by
  subst hsn hpr
  obtain ⟨-, hp, -, hm⟩ := h.master t c hc
  have ha := h.accepts hc hp
  refine ⟨h.linked.remove ha hm, fun i hi => ?_, ?_⟩
  · exact ((h.linked.mem_erased hm i).mp hi).1 rfl
  · rw [listRemove_node _ ha, if_pos rfl]

/-- One thread `t` becomes `x`, its node is put where `x` says and every other node
stays where it is. -/
structure Change (s s' : State) (xs xs' : ℕ × ℕ → List ℕ) (t : ℕ) (x : Thread) : Prop where
  linked : Linked s' xs'
  thread : s'.thread = update s.thread t x
  cpuCount : s'.cpuCount = s.cpuCount
  ne_zero : t ≠ 0
  place : ∀ c, x.masterCPU = some c → c < s.cpuCount ∧ x.priority ≤ maxPriority
  blocked : x.status = .blocked → x.masterCPU = none
  own : x.snode ≠ 0 → ∀ u, u ≠ t → (s.thread u).snode ≠ x.snode
  /-- A node is only left behind when it was on no list. -/
  old : x.snode = (s.thread t).snode ∨ (s.thread t).masterCPU = none
  mem : ∀ m i, m ∈ xs' i ↔
    (m ≠ x.snode ∧ m ∈ xs i) ∨ (m = x.snode ∧ x.masterCPU = some i.1 ∧ x.priority = i.2)
  data : ∀ m, m ≠ x.snode → (s'.node m).data = (s.node m).data
  data_self : ∀ c, x.masterCPU = some c → (s'.node x.snode).data = t
  next : ∀ u, u ≠ t → (s.thread u).masterCPU = none →
    (s'.node (s.thread u).snode).next = (s.node (s.thread u).snode).next
  next_self : x.masterCPU = none → x.snode ≠ 0 → (s'.node x.snode).next = 0
  count : s'.readyThreadCount = listedCount s' xs'

theorem Change.queued {s' : State} {xs' : ℕ × ℕ → List ℕ} {x : Thread}
    (hch : Change s s' xs xs' t x) (h : Queued s xs) : Queued s' xs' := by
  have hself : s'.thread t = x := by rw [hch.thread, update_self]
  have hother : ∀ {u}, u ≠ t → s'.thread u = s.thread u := by
    intro u hu
    rw [hch.thread, update_of_ne hu]
  refine ⟨hch.linked, ?_, ?_, ?_, ?_, ?_, hch.count⟩
  · intro i n hn
    rcases (hch.mem n i).mp hn with ⟨hne, hn⟩ | ⟨rfl, hmc, hp⟩
    · obtain ⟨h1, h2, h3, h4⟩ := h.listed i n hn
      rw [hch.data n hne]
      have hu : (s.node n).data ≠ t := by
        intro e
        rw [e] at h2 h3
        rcases hch.old with ho | ho
        · exact hne (h2.symm.trans ho.symm)
        · rw [ho] at h3
          cases h3
      rw [hother hu]
      exact ⟨h1, h2, h3, h4⟩
    · rw [hch.data_self _ hmc, hself]
      exact ⟨hch.ne_zero, rfl, hmc, hp⟩
  · intro u c hc
    by_cases hu : u = t
    · subst hu
      rw [hself] at hc ⊢
      obtain ⟨h1, h2⟩ := hch.place c hc
      exact ⟨hch.cpuCount ▸ h1, h2, hch.data_self c hc, (hch.mem _ _).mpr (.inr ⟨rfl, hc, rfl⟩)⟩
    · rw [hother hu] at hc ⊢
      obtain ⟨h1, h2, h3, h4⟩ := h.master u c hc
      have hne : (s.thread u).snode ≠ x.snode := by
        intro e
        have h0 : x.snode ≠ 0 := fun e0 => h.linked.lists.null_notMem _ ((e.trans e0) ▸ h4)
        exact hch.own h0 u hu e
      exact ⟨hch.cpuCount ▸ h1, h2, (hch.data _ hne).trans h3, (hch.mem _ _).mpr (.inl ⟨hne, h4⟩)⟩
  · intro u hst
    by_cases hu : u = t
    · subst hu
      rw [hself] at hst ⊢
      exact hch.blocked hst
    · rw [hother hu] at hst ⊢
      exact h.blocked u hst
  · intro u v huv h0
    by_cases hu : u = t
    · by_cases hv : v = t
      · rw [hu, hv]
      · rw [hu, hself] at huv h0
        rw [hother hv] at huv
        exact absurd huv.symm (hch.own h0 v hv)
    · rw [hother hu] at huv h0
      by_cases hv : v = t
      · rw [hv, hself] at huv
        exact absurd huv (hch.own (huv ▸ h0) u hu)
      · rw [hother hv] at huv
        exact h.own u v huv h0
  · intro u hmc h0
    by_cases hu : u = t
    · subst hu
      rw [hself] at hmc h0 ⊢
      exact hch.next_self hmc h0
    · rw [hother hu] at hmc h0 ⊢
      rw [hch.next u hu hmc]
      exact h.parked u hmc h0

/-- An update of a thread that leaves its node and its place alone.  The priority
of a thread on no list is free. -/
theorem Queued.setThread (h : Queued s xs) (ht : t ≠ 0) {x : Thread}
    (hsn : x.snode = (s.thread t).snode) (hmc : x.masterCPU = (s.thread t).masterCPU)
    (hp : (s.thread t).masterCPU ≠ none → x.priority = (s.thread t).priority)
    (hb : x.status = .blocked → x.masterCPU = none) : Queued (s.setThread t x) xs := by
  have hmaster : ∀ {c}, x.masterCPU = some c → (s.thread t).masterCPU = some c ∧
      x.priority = (s.thread t).priority := by
    intro c hc
    rw [hmc] at hc
    exact ⟨hc, hp (by simp [hc])⟩
  have hch : Change s (s.setThread t x) xs xs t x :=
    { linked := ⟨h.linked.lists, h.linked.nNodes⟩
      thread := rfl
      cpuCount := rfl
      ne_zero := ht
      place := fun c hc => by
        obtain ⟨hc, hpr⟩ := hmaster hc
        rw [hpr]
        exact ⟨(h.master t c hc).1, (h.master t c hc).2.1⟩
      blocked := hb
      own := fun h0 u hu e => hu (h.own u t (e.trans hsn) (e ▸ h0))
      old := .inl hsn
      mem := fun m i => by
        by_cases hm : m = x.snode
        · rw [hm, hsn, h.mem_iff i, hmc]
          simpa using fun hc => by rw [hp (by simp [hc])]
        · simp [hm]
      data := fun _ _ => rfl
      data_self := fun c hc => hsn ▸ (h.master t c (hmaster hc).1).2.2.1
      next := fun _ _ _ => rfl
      next_self := fun hnone => hsn ▸ h.parked t (hmc ▸ hnone)
      count := h.count }
  exact hch.queued h

theorem listedCount_erase {s' : State} (hcpu : s'.cpuCount = s.cpuCount) (hc : c < s.cpuCount)
    (hp : p ≤ maxPriority) (hn : n ∈ xs (c, p)) :
    listedCount s' (erased xs (c, p) n) + 1 = listedCount s xs := by
  have hsum := sum_length_update (Queued.index_mem hc hp) xs ((xs (c, p)).erase n)
  have hlen : ((xs (c, p)).erase n).length + 1 = (xs (c, p)).length := by
    rw [List.length_erase_of_mem hn]
    exact Nat.sub_add_cancel (List.length_pos_of_mem hn)
  rw [listedCount, listedCount, hcpu, erased]
  omega

theorem listedCount_append {s' : State} (hcpu : s'.cpuCount = s.cpuCount) (hc : c < s.cpuCount)
    (hp : p ≤ maxPriority) (xs : ℕ × ℕ → List ℕ) :
    listedCount s' (appended xs (c, p) n) = listedCount s xs + 1 := by
  have hsum := sum_length_update (Queued.index_mem hc hp) xs (xs (c, p) ++ [n])
  rw [List.length_append, List.length_singleton] at hsum
  rw [listedCount, listedCount, hcpu, appended]
  omega

/-- A thread that stays with its processor goes to the list of another priority. -/
theorem Queued.move (h : Queued s xs) (hc : (s.thread t).masterCPU = some c)
    (hsn : (s.thread t).snode = n) (hpr : (s.thread t).priority = p) {x : Thread}
    (hpx : x.priority ≤ maxPriority) (hxn : x.snode = n) (hmc : x.masterCPU = some c)
    (hst : x.status = (s.thread t).status) :
    ∃ xs', Queued ((moveNode s c p x.priority n).setThread t x) xs' ∧
      ∀ m i, m ≠ n → (m ∈ xs' i ↔ m ∈ xs i) := by
  obtain ⟨hlt, hp, hd, hm⟩ := h.master t c hc
  obtain ⟨hl1, hn1, hnext1⟩ := h.removed hc hsn hpr
  have ha := h.accepts hc hpx
  have ha0 := h.accepts hc hp
  rw [hsn, hpr] at hm ha0
  rw [hsn] at hd ha
  rw [hpr] at hp
  have hr1 := listRemove_sameRest s c p n
  have ha1 : Accepts (listRemove s c p n).1 x.priority n :=
    ⟨hpx, ha.node, (hr1.data _).symm ▸ ha.data⟩
  have hl2 := hl1.append (c := c) ha1 hn1 hnext1
  have hr2 := hr1.trans (listAppend_sameRest (listRemove s c p n).1 c x.priority n)
  have hch : Change s ((moveNode s c p x.priority n).setThread t x) xs _ t x :=
    { linked := ⟨hl2.lists, hl2.nNodes⟩
      thread := by
        show update (moveNode s c _ _ _).thread t x = _
        rw [moveNode_thread]
      cpuCount := hr2.cpuCount
      ne_zero := h.ne_zero_of_master hc
      place := fun c' hc' => Option.some.inj (hmc.symm.trans hc') ▸ ⟨hlt, hpx⟩
      blocked := fun hb => absurd (h.blocked t (hst ▸ hb)) (by simp [hc])
      own := fun h0 u hu e => hu (h.own u t (e.trans (hxn.trans hsn.symm)) (e ▸ h0))
      old := .inl (hxn.trans hsn.symm)
      mem := fun m i => by
        rw [mem_appended, h.linked.mem_erased hm, hxn, hmc]
        refine or_congr Iff.rfl (and_congr_right fun _ => ?_)
        rw [Prod.ext_iff, Option.some.injEq, eq_comm (a := c), eq_comm (a := x.priority)]
      data := fun m _ => hr2.data m
      data_self := fun _ _ => by
        rw [hxn]
        exact (hr2.data _).trans hd
      next := fun u hu hu' => by
        have hnot := h.notMem_of_parked hu'
        have hnot1 : ∀ i, (s.thread u).snode ∉ erased xs (c, p) n i :=
          fun i hi => hnot i ((h.linked.mem_erased hm i).mp hi).2
        exact (hl1.append_next ha1 hnot1).trans (h.linked.remove_next ha0 hm hnot)
      next_self := fun hnone => by simp [hmc] at hnone
      count := by
        have h1 := listedCount_erase (s := s) rfl hlt hp hm
        refine (hr2.readyThreadCount.trans (h.count.trans h1.symm)).trans (Eq.symm ?_)
        exact listedCount_append hr2.cpuCount hlt hpx _ }
  refine ⟨_, hch.queued h, fun m i hmn => ?_⟩
  rw [hch.mem m i, hxn]
  simp [hmn]

end Moves

/-! ### Readying, blocking and boosting -/

section Calls

variable {s : State} {xs : ℕ × ℕ → List ℕ} {t c n : ℕ}

/-- The node that `CoreH_ThreadReadyNode` is given is the thread's own, or one that
no thread has and that has no successor. -/
def NodeOk (s : State) (t n : ℕ) : Prop :=
  (s.thread t).snode = n ∨ ((∀ u, (s.thread u).snode ≠ n) ∧ (s.node n).next = 0)

theorem lessLoaded_eq_some {x : Thread} {found : Option ℕ} {a : ℕ}
    (h : lessLoaded s x found a = some c) : found = some c ∨ c = a := by
  unfold lessLoaded at h
  split at h
  · exact .inl h
  · cases found with
    | none => exact .inr (Option.some.inj h).symm
    | some f =>
      dsimp only at h
      split at h
      · exact .inr (Option.some.inj h).symm
      · exact .inl h

theorem foldl_lessLoaded {x : Thread} (cs : List ℕ) {found : Option ℕ}
    (h : cs.foldl (lessLoaded s x) found = some c) : found = some c ∨ c ∈ cs := by
  induction cs generalizing found with
  | nil => exact .inl h
  | cons a cs ih =>
    rcases ih h with h1 | h1
    · rcases lessLoaded_eq_some h1 with h2 | rfl
      · exact .inl h2
      · exact .inr List.mem_cons_self
    · exact .inr (List.mem_cons_of_mem _ h1)

theorem leastLoaded_lt {x : Thread} (h : leastLoaded s x = some c) : c < s.cpuCount := by
  rcases foldl_lessLoaded _ h with h1 | h1
  · cases h1
  · exact List.mem_range.mp h1

section

variable (h : Queued s xs)
include h

/-- A node that may be used to ready a parked thread is on no list. -/
theorem Queued.notMem_of_nodeOk (hmc : (s.thread t).masterCPU = none)
    (hn : NodeOk s t n) (i : ℕ × ℕ) : n ∉ xs i := by
  rcases hn with rfl | ⟨hfresh, -⟩
  · exact h.notMem_of_parked hmc i
  · intro hm
    exact hfresh _ (h.listed i n hm).2.1

theorem Queued.ready (ht : t ≠ 0) (hn0 : n ≠ 0) (hn : NodeOk s t n)
    (hp : (s.thread t).priority ≤ maxPriority) (hmc : (s.thread t).masterCPU = none)
    (hc : c < s.cpuCount) (s1 : State)
    (hs1 : s1 = { (s.setNode n { s.node n with data := t }).setThread t
      ((s.thread t).readied c n) with readyThreadCount := s.readyThreadCount + 1 }) :
    ∃ xs', Queued (listAppend s1 c (s.thread t).priority n).1 xs' := by
  have hnot := h.notMem_of_nodeOk hmc hn
  have hnode : ∀ m, (s1.node m).next = (s.node m).next ∧ (s1.node m).prev = (s.node m).prev ∧
      (s1.node m).data = if m = n then t else (s.node m).data := by
    intro m
    rw [hs1]
    show ((s.setNode n _).node m).next = _ ∧ ((s.setNode n _).node m).prev = _ ∧
      ((s.setNode n _).node m).data = _
    rw [State.setNode_node]
    by_cases hm : m = n <;> simp [hm]
  have hl : Linked s1 xs := by
    subst hs1
    exact ⟨h.linked.lists.congr (fun i y _ => (hnode y).1) fun i y _ => (hnode y).2.1,
      h.linked.nNodes⟩
  have ha : Accepts s1 (s.thread t).priority n := by
    refine ⟨hp, hn0, ?_⟩
    rw [(hnode n).2.2, if_pos rfl]
    exact ht
  have hnext : (s1.node n).next = 0 := by
    rw [(hnode n).1]
    rcases hn with rfl | ⟨-, h0⟩
    · exact h.parked t hmc hn0
    · exact h0
  have hr := listAppend_sameRest s1 c (s.thread t).priority n
  have hcpu : (listAppend s1 c (s.thread t).priority n).1.cpuCount = s.cpuCount := by
    rw [hr.cpuCount, hs1]
    rfl
  have hl2 := hl.append (c := c) ha hnot hnext
  have hch : Change s (listAppend s1 c (s.thread t).priority n).1 xs _ t
      ((s.thread t).readied c n) :=
    { linked := hl2
      thread := by
        rw [hr.thread, hs1]
        rfl
      cpuCount := hcpu
      ne_zero := ht
      place := fun c' hc' => Option.some.inj hc' ▸ ⟨hc, hp⟩
      blocked := fun hb => by cases hb
      own := fun _ u hu e => by
        have hu' : (s.thread u).snode = n := e
        rcases hn with rfl | ⟨hfresh, -⟩
        · exact hu (h.own u t hu' (hu'.symm ▸ hn0))
        · exact hfresh u hu'
      old := .inr hmc
      mem := fun m i => by
        rw [mem_appended]
        constructor
        · rintro (hm | ⟨rfl, rfl⟩)
          · exact .inl ⟨fun (e : m = n) => hnot i (e ▸ hm), hm⟩
          · exact .inr ⟨rfl, rfl, rfl⟩
        · rintro (⟨-, hm⟩ | ⟨rfl, hmc', hp'⟩)
          · exact .inl hm
          · exact .inr ⟨rfl, Prod.ext (Option.some.inj hmc').symm hp'.symm⟩
      data := fun m hm => by
        rw [hr.data, (hnode m).2.2]
        exact if_neg hm
      data_self := fun _ _ => by
        show ((listAppend s1 c (s.thread t).priority n).1.node n).data = t
        rw [hr.data, (hnode n).2.2, if_pos rfl]
      next := fun u hu hu' => by
        rw [hl.append_next ha (h.notMem_of_parked hu'), (hnode _).1]
      next_self := fun hnone => by cases hnone
      count := by
        rw [listedCount_append (s := s) hcpu hc hp, hr.readyThreadCount, hs1, ← h.count] }
  exact ⟨_, hch.queued h⟩

theorem Queued.refused {st : Status} {e : Prop} [Decidable e] {r : State × Status} (hr : ¬ e → ∃ xs', Queued r.1 xs') :
    ∃ xs', Queued (if e then (s, st) else r).1 xs' :=
  Sched.refused (P := fun s => ∃ xs, Queued s xs) ⟨xs, h⟩ hr

theorem Queued.threadReadyNode (hn : n ≠ 0 → NodeOk s t n) :
    ∃ xs', Queued (threadReadyNode s t n).1 xs' := by
  rw [Sched.threadReadyNode]
  refine h.refused fun h0 => ?_
  refine h.refused fun hp => ?_
  refine h.refused fun hmc => ?_
  cases hl : leastLoaded s (s.thread t) with
  | none => exact ⟨xs, h⟩
  | some c =>
    rw [not_or] at h0
    exact h.ready h0.1 h0.2 (hn h0.2) (Nat.not_lt.mp hp) (by simpa using hmc)
      (leastLoaded_lt hl) _ rfl

/-- The thread is taken off its list and blocked. -/
theorem Queued.park (hc : (s.thread t).masterCPU = some c) {s1 : State}
    (hs1 : s1 = (listRemove s c (s.thread t).priority (s.thread t).snode).1.setThread t
      (s.thread t).blocked) :
    ∃ xs', Queued { s1 with readyThreadCount := decrement s1.readyThreadCount } xs' := by
  obtain ⟨hlt, hp, hd, hm⟩ := h.master t c hc
  obtain ⟨hl1, hn1, hnext1⟩ := h.removed hc rfl rfl
  have hr := listRemove_sameRest s c (s.thread t).priority (s.thread t).snode
  have hcount := listedCount_erase (s := s) hr.cpuCount hlt hp hm
  have hch : Change s { s1 with readyThreadCount := decrement s1.readyThreadCount } xs
      (erased xs (c, (s.thread t).priority) (s.thread t).snode) t (s.thread t).blocked := by
    subst hs1
    exact
    { linked := ⟨hl1.lists, hl1.nNodes⟩
      thread := by
        show update (listRemove s c _ _).1.thread t _ = _
        rw [hr.thread]
      cpuCount := hr.cpuCount
      ne_zero := h.ne_zero_of_master hc
      place := fun c' hc' => by cases hc'
      blocked := fun _ => rfl
      own := fun hne u hu e => hu (h.own u t e (e.symm ▸ hne))
      old := .inl rfl
      mem := fun m i => by
        rw [h.linked.mem_erased hm]
        constructor
        · exact .inl
        · rintro (hm | ⟨-, hnone, -⟩)
          · exact hm
          · cases hnone
      data := fun m _ => hr.data m
      data_self := fun c' hc' => by cases hc'
      next := fun u _ hu' =>
        h.linked.remove_next (h.accepts hc hp) hm (h.notMem_of_parked hu')
      next_self := fun _ _ => hnext1
      count := by
        show decrement (listRemove s c _ _).1.readyThreadCount = _
        rw [hr.readyThreadCount, h.count, ← hcount]
        exact if_neg (Nat.succ_ne_zero _) }
  exact ⟨_, hch.queued h⟩

theorem Queued.unready : ∃ xs', Queued (unready s t).1 xs' := by
  rw [Sched.unready]
  refine h.refused fun _ => ?_
  cases hc : (s.thread t).masterCPU with
  | none => exact ⟨xs, h⟩
  | some c =>
    refine h.refused fun _ => ?_
    refine h.refused fun _ => ?_
    exact h.park hc rfl

theorem Queued.threadBoostPriority :
    ∃ xs', Queued (threadBoostPriority s t).1 xs' := by
  rw [Sched.threadBoostPriority]
  refine h.refused fun h0 => ?_
  refine h.refused fun _ => ?_
  refine h.refused fun hmax => ?_
  cases hc : (s.thread t).masterCPU with
  | none =>
    exact ⟨xs, h.setThread (h0 ∘ .inl) rfl rfl (fun hne => absurd hc hne) fun _ => hc⟩
  | some c =>
    have hp := (h.master t c hc).2.1
    have hlt : (s.thread t).priority < maxPriority :=
      lt_of_le_of_ne hp fun e => hmax (.inr e)
    obtain ⟨xs', hq, -⟩ := h.move hc rfl rfl (x := (s.thread t).boosted) hlt rfl hc rfl
    exact ⟨xs', hq⟩

end

end Calls

/-! ### Scheduling -/

/-- Who belongs to which processor, and who is current or idle there. -/
structure SamePlaces (s s' : State) : Prop where
  current : ∀ c, (s'.cpu c).currentThread = (s.cpu c).currentThread
  idle : ∀ c, (s'.cpu c).idleThread = (s.cpu c).idleThread
  master : ∀ t, (s'.thread t).masterCPU = (s.thread t).masterCPU

namespace SamePlaces

variable {s s' s'' : State}

theorem refl (s : State) : SamePlaces s s := ⟨fun _ => rfl, fun _ => rfl, fun _ => rfl⟩

theorem trans (h : SamePlaces s s') (h' : SamePlaces s' s'') : SamePlaces s s'' :=
  ⟨fun c => (h'.current c).trans (h.current c), fun c => (h'.idle c).trans (h.idle c),
    fun t => (h'.master t).trans (h.master t)⟩

theorem of_sameRest (h : SameRest s s') : SamePlaces s s' :=
  ⟨h.current, h.idle, fun t => by rw [h.thread]⟩

theorem setThread (s : State) {t : ℕ} {x : Thread}
    (hmc : x.masterCPU = (s.thread t).masterCPU) : SamePlaces s (s.setThread t x) :=
  ⟨fun _ => rfl, fun _ => rfl, Update.keep Thread.masterCPU hmc⟩

theorem moveNode (s : State) (c p p' n : ℕ) {t : ℕ} {x : Thread}
    (hmc : x.masterCPU = (s.thread t).masterCPU) :
    SamePlaces s ((moveNode s c p p' n).setThread t x) := by
  have h1 := of_sameRest ((listRemove_sameRest s c p n).trans
    (listAppend_sameRest (listRemove s c p n).1 c p' n))
  exact h1.trans (setThread _ (hmc.trans (h1.master t).symm))

end SamePlaces

/-- The queues stay in order and every thread in its place. -/
def Keeps (s s' : State) : Prop := (∃ xs, Queued s' xs) ∧ SamePlaces s s'

section Schedule

variable {s s' : State} {xs : ℕ × ℕ → List ℕ} {t c p n fuel : ℕ}

/-- The state is as `Core_Schedule` on `c` expects it: the current thread, if there
is one, is on the lists of `c`, or is on none and not boosted, and the idle thread
is on the lists of `c`. -/
structure CanSchedule (s : State) (c : ℕ) : Prop where
  current : (s.cpu c).currentThread ≠ 0 →
    (s.thread (s.cpu c).currentThread).masterCPU = some c ∨
      ((s.thread (s.cpu c).currentThread).masterCPU = none ∧
        (s.thread (s.cpu c).currentThread).raised = false)
  idle : (s.cpu c).idleThread ≠ 0 → (s.thread (s.cpu c).idleThread).masterCPU = some c

section

variable (h : Queued s xs)
include h

theorem Queued.keeps : Keeps s s := ⟨⟨xs, h⟩, .refl s⟩

theorem Queued.demote (hr : (s.thread t).raised = true → (s.thread t).masterCPU = some c) :
    Keeps s (demote s c t) := by
  rw [Sched.demote]
  refine iteInduction (motive := Keeps s) (fun _ => h.keeps) fun hraised => ?_
  have hc := hr (by simpa using hraised)
  have hp : (s.thread t).demoted.priority ≤ maxPriority :=
    (Nat.sub_le _ 1).trans (h.master t c hc).2.1
  obtain ⟨xs', hq, -⟩ := h.move hc rfl rfl hp rfl hc rfl
  exact ⟨⟨xs', hq⟩, .moveNode s c _ _ _ rfl⟩

theorem Queued.demoteCurrent (hc : CanSchedule s c) :
    Keeps s (demoteCurrent s c) := by
  rw [Sched.demoteCurrent]
  refine iteInduction (motive := Keeps s) (fun _ => h.keeps) fun h0 => ?_
  have hq := h.setThread (t := (s.cpu c).currentThread)
    (x := (s.thread (s.cpu c).currentThread).resetQuantum) h0 rfl rfl (fun _ => rfl)
    (h.blocked (s.cpu c).currentThread)
  have hplace := SamePlaces.setThread s (t := (s.cpu c).currentThread)
    (x := (s.thread (s.cpu c).currentThread).resetQuantum) rfl
  obtain ⟨hd, hsame⟩ := hq.demote (c := c) (t := (s.cpu c).currentThread) (by
    rw [State.setThread_thread, if_pos rfl]
    intro hr
    rcases hc.current h0 with hm | ⟨-, hn⟩
    · exact hm
    · exact absurd (hr.symm.trans hn) (by simp))
  exact ⟨hd, hplace.trans hsame⟩

/-- The loop keeps the lists; it walks over nodes of its own list. -/
theorem Queued.starvationLoop (hp : p < maxPriority)
    (hn : n ≠ 0 → n ∈ xs (c, p)) (hl : starvationLoop c p fuel n s = some s') :
    Keeps s s' := by
  induction fuel generalizing s xs n with
  | zero => cases hl
  | succ fuel ih =>
    rw [Sched.starvationLoop] at hl
    dsimp only at hl
    split_ifs at hl with h1 h2 h3 h4 h5
    · cases hl
      exact h.keeps
    all_goals
      have hmem : n ∈ xs (c, p) := hn fun e => h1 (.inl e)
      have hprev := (h.linked.lists.isList (c, p)).prev_mem_of_ne hmem
    · exact ih h hprev hl
    · exact ih h hprev hl
    · exact ih h hprev hl
    · -- the node moves up one list, its predecessor stays where it is
      obtain ⟨-, hsn, hmc, hpr⟩ := h.listed (c, p) n hmem
      generalize (s.node n).data = t at hsn hmc hpr hl
      have hup : (s.thread t).boosted.priority = p + 1 := congrArg (· + 1) hpr
      obtain ⟨xs', hq, hxs'⟩ := h.move hmc hsn hpr (hup.trans_le hp) hsn hmc rfl
      rw [hup] at hq
      have hstep := ih hq (n := (s.node n).prev) (fun h0 => ?_) hl
      · have hplace := SamePlaces.moveNode s c p (p + 1) n (t := t) (x := (s.thread t).boosted) rfl
        exact ⟨hstep.1, hplace.trans hstep.2⟩
      · have hne := (h.linked.lists.isList (c, p)).prev_ne hmem
        exact (hxs' _ _ hne).mpr (hprev h0)

theorem Queued.setList {l : PriorityList} (hhead : l.head = (s.list c p).head)
    (htail : l.tail = (s.list c p).tail) (hnNodes : l.nNodes = (s.list c p).nNodes) :
    Queued (s.setList c p l) xs :=
  h.congr (State.setList_keep _ hhead) (State.setList_keep _ htail) (State.setList_keep _ hnNodes)

theorem Queued.starvationPrevention (hp : p < maxPriority)
    (hl : starvationPrevention fuel c s p = some s') :
    Keeps s s' := by
  rw [Sched.starvationPrevention] at hl
  split_ifs at hl with h1
  · cases hl
    exact ⟨⟨xs, h.setList rfl rfl rfl⟩, .of_sameRest (setList_sameRest ..)⟩
  · have hloop := (h.setList (c := c) (p := p) (l := { s.list c p with
      noStarvationQuantum := (s.list c p).noStarvationQuantum + 1 }) rfl rfl rfl).starvationLoop hp
      (fun h0 => (h.linked.lists.isList (c, p)).tail_mem h0) hl
    exact ⟨hloop.1, (SamePlaces.of_sameRest (setList_sameRest ..)).trans hloop.2⟩

end

theorem Queued.foldlM_starvationPrevention (ps : List ℕ) (hps : ∀ p ∈ ps, p < maxPriority)
    (h : Queued s xs) (hl : ps.foldlM (Sched.starvationPrevention fuel c) s = some s') :
    Keeps s s' := by
  induction ps generalizing s xs with
  | nil =>
    cases hl
    exact h.keeps
  | cons p ps ih =>
    rw [List.foldlM_cons] at hl
    obtain ⟨s1, h1, hl⟩ := Option.bind_eq_some_iff.mp hl
    obtain ⟨⟨xs1, hq⟩, hsame⟩ := h.starvationPrevention (hps p List.mem_cons_self) h1
    obtain ⟨hq', hsame'⟩ := ih (fun q hq => hps q (List.mem_cons_of_mem _ hq)) hq hl
    exact ⟨hq', hsame.trans hsame'⟩

theorem Queued.preventStarvation (h : Queued s xs) (hl : preventStarvation fuel s c = some s') :
    Keeps s s' := by
  rw [Sched.preventStarvation] at hl
  split_ifs at hl with h1
  · exact h.foldlM_starvationPrevention _ (fun p hp => List.mem_range.mp hp) hl
  · cases hl
    exact h.keeps

/-- What `find_list` finds is on the lists of the processor. -/
theorem Queued.findList (h : Queued s xs)
    (hidle : (s.cpu c).idleThread ≠ 0 → (s.thread (s.cpu c).idleThread).masterCPU = some c)
    (hf : findList fuel s c p = some t) (ht : t ≠ 0) : (s.thread t).masterCPU = some c := by
  -- a thread found by walking along a list of `c`
  have hwalk : ∀ {p n}, firstNotRunning fuel s c p = some n → n ≠ 0 →
      (s.thread (s.node n).data).masterCPU = some c := by
    intro p n hw hn
    have hlist := h.linked.lists.isList (c, p)
    have hhead : (s.list c p).head ≠ 0 → (s.list c p).head ∈ xs (c, p) := by
      intro h0
      have hxs : xs (c, p) ≠ [] := fun e => h0 (hlist.head_eq_null_iff.mpr e)
      exact hlist.head_eq ▸ headD_mem hxs 0
    exact (h.listed (c, p) n (hlist.mem_of_walk hhead hw hn)).2.2.1
  induction p with
  | zero =>
    rw [Sched.findList] at hf
    split at hf
    · cases hf
    · rename_i n hw
      split_ifs at hf with hn <;> cases hf
      · exact hidle ht
      · exact hwalk hw hn
  | succ p ih =>
    rw [Sched.findList] at hf
    split at hf
    · cases hf
    · rename_i n hw
      split_ifs at hf with hn
      · exact ih hf
      · cases hf
        exact hwalk hw hn

theorem Queued.setCpu (h : Queued s xs) {x : Cpu}
    (hx : x.priorityLists = (s.cpu c).priorityLists) : Queued (s.setCpu c x) xs := by
  have hlist : ∀ c' p', (s.setCpu c x).list c' p' = s.list c' p' := fun c' =>
    congrFun (Update.keep Cpu.priorityLists hx c')
  refine h.congr ?_ ?_ ?_
  all_goals
    intro c' p'
    rw [hlist]

theorem SamePlaces.setCpu (s : State) {x : Cpu} (hcur : x.currentThread = (s.cpu c).currentThread)
    (hidle : x.idleThread = (s.cpu c).idleThread) : SamePlaces s (s.setCpu c x) :=
  ⟨Update.keep Cpu.currentThread hcur, Update.keep Cpu.idleThread hidle, fun _ => rfl⟩

theorem Queued.chooseNew (h : Queued s xs)
    (hidle : (s.cpu c).idleThread ≠ 0 → (s.thread (s.cpu c).idleThread).masterCPU = some c)
    (hf : chooseNew fuel s c = some (s', t)) (ht : t ≠ 0) :
    Queued s' xs ∧ SamePlaces s s' ∧ (s'.thread t).masterCPU = some c := by
  rw [Sched.chooseNew] at hf
  dsimp only at hf
  obtain ⟨u, hu, e⟩ := Option.map_eq_some_iff.mp hf
  obtain ⟨he, rfl⟩ := Prod.mk.inj e
  rw [he] at hu
  have hq : Queued s' xs := by
    rw [← he]
    refine Queued.setCpu (Queued.setList h ?_ ?_ ?_) ?_ <;> rfl
  have hsame : SamePlaces s s' := by
    rw [← he]
    refine SamePlaces.trans (.of_sameRest (setList_sameRest ..)) (.setCpu _ ?_ ?_) <;> rfl
  refine ⟨hq, hsame, hq.findList ?_ hu ht⟩
  rw [hsame.idle, hsame.master]
  exact hidle

/-- The chosen thread is on the lists of the processor. -/
theorem Queued.chooseThread (h : Queued s xs)
    (hcur : (s.cpu c).currentThread ≠ 0 →
      (s.thread (s.cpu c).currentThread).masterCPU = some c ∨
        (s.thread (s.cpu c).currentThread).masterCPU = none)
    (hidle : (s.cpu c).idleThread ≠ 0 → (s.thread (s.cpu c).idleThread).masterCPU = some c)
    (hf : chooseThread fuel s c = some (s', t)) (ht : t ≠ 0) :
    Queued s' xs ∧ SamePlaces s s' ∧ (s'.thread t).masterCPU = some c := by
  rw [Sched.chooseThread] at hf
  dsimp only at hf
  split_ifs at hf with h1 h2 h3
  · exact h.chooseNew hidle hf ht
  · exact h.chooseNew hidle hf ht
  · cases hf
    refine ⟨h, .refl _, ?_⟩
    rw [not_or] at h3
    -- the thread behind the current one is on the same list
    rcases hcur h1 with hc | hc
    · have hmem := (h.master _ c hc).2.2.2
      have hnext := (h.linked.lists.isList _).next_mem_of_ne hmem h3.1
      exact (h.listed _ _ hnext).2.2.1
    · exact absurd (h.parked _ hc h2) h3.1

theorem Queued.switchThread (h : Queued s xs) {chosen : ℕ}
    (hc : (s.thread chosen).masterCPU = some c) : Queued (switchThread s c chosen) xs := by
  rw [Sched.switchThread]
  refine Queued.setCpu ?_ rfl
  have h1 := h.setThread (h.ne_zero_of_master hc) (x := (s.thread chosen).dispatched c) rfl hc.symm
    (fun _ => rfl) (fun hb => by cases hb)
  refine iteInduction (motive := fun r => Queued r xs) (fun ht => ?_) fun _ => h1
  exact h1.setThread ht.1 rfl rfl (fun _ => rfl) fun hb => by cases hb

theorem Queued.schedule (h : Queued s xs) (hc : CanSchedule s c)
    (hs : schedule fuel s c = some s') : ∃ xs', Queued s' xs' := by
  rw [Sched.schedule] at hs
  obtain ⟨⟨xs0, hq0⟩, hsame0⟩ := h.demoteCurrent hc
  cases h1 : Sched.preventStarvation fuel (Sched.demoteCurrent s c) c with
  | none => simp [h1] at hs
  | some s1 =>
    obtain ⟨⟨xs1, hq1⟩, hsame1⟩ := hq0.preventStarvation h1
    have hsame := hsame0.trans hsame1
    cases h2 : Sched.chooseThread fuel s1 c with
    | none => simp [h1, h2] at hs
    | some r =>
      obtain ⟨s2, chosen⟩ := r
      simp only [h1, h2, Option.ite_none_left_eq_some, Option.some.injEq] at hs
      obtain ⟨hne, rfl⟩ := hs
      obtain ⟨hq2, -, hmc⟩ := hq1.chooseThread (c := c) (by
          rw [hsame.current, hsame.master]
          exact fun h0 => (hc.current h0).imp_right And.left) (by
          rw [hsame.idle, hsame.master]
          exact hc.idle) h2 hne
      exact ⟨xs1, hq2.switchThread hmc⟩

/-- A call that takes a thread off its list blocks it and touches no other thread. -/
theorem unready_eq (hs : (unready s t).2 = .success) (hb : (s.thread t).status ≠ .blocked) :
    (unready s t).1.thread = update s.thread t (s.thread t).blocked ∧
      (∀ c, ((unready s t).1.cpu c).currentThread = (s.cpu c).currentThread) ∧
      ∀ c, ((unready s t).1.cpu c).idleThread = (s.cpu c).idleThread := by
  rw [unready] at hs ⊢
  dsimp only at hs ⊢
  by_cases h0 : t = 0
  · simp [h0] at hs
  · rw [if_neg h0] at hs ⊢
    cases hc : (s.thread t).masterCPU with
    | none => simp [hc] at hs
    | some c =>
      simp only [hc] at hs ⊢
      by_cases hp : maxPriority < (s.thread t).priority
      · simp [hp] at hs
      · have hr := listRemove_sameRest s c (s.thread t).priority (s.thread t).snode
        rw [if_neg hp, if_neg hb]
        refine ⟨?_, hr.current, hr.idle⟩
        show update (listRemove s c _ _).1.thread t _ = _
        rw [hr.thread]

theorem canSchedule_unready (hs : (unready s t).2 = .success)
    (hb : (s.thread t).status ≠ .blocked) (hcur : t = (s.cpu c).currentThread)
    (hidle : (s.cpu c).idleThread ≠ 0 →
      (s.cpu c).idleThread ≠ t ∧ (s.thread (s.cpu c).idleThread).masterCPU = some c) :
    CanSchedule (unready s t).1 c := by
  obtain ⟨hthread, hc, hi⟩ := unready_eq hs hb
  refine ⟨fun _ => .inr ?_, ?_⟩
  · rw [hc, ← hcur, hthread, update_self]
    exact ⟨rfl, rfl⟩
  · rw [hi, hthread]
    intro h0
    rw [update_of_ne (hidle h0).1]
    exact (hidle h0).2

end Schedule

/-! ### Runs -/

/-- No thread is ready yet. -/
structure Boot (s : State) : Prop where
  lists : ∀ c p, (s.list c p).head = 0 ∧ (s.list c p).tail = 0 ∧ (s.list c p).nNodes = 0
  threads : ∀ t, (s.thread t).masterCPU = none ∧ (s.thread t).snode = 0
  readyThreadCount : s.readyThreadCount = 0

theorem Boot.queued {s : State} (h : Boot s) : Queued s fun _ => [] where
  linked := by
    refine ⟨⟨fun i => ?_, fun i j n hn => by cases hn⟩, fun i => (h.lists i.1 i.2).2.2⟩
    simp only [(h.lists i.1 i.2).1, (h.lists i.1 i.2).2.1]
    exact IsList.nil _ _ _
  listed i n hn := by cases hn
  master t c hc := by simp [(h.threads t).1] at hc
  blocked t _ := (h.threads t).1
  own t u _ h0 := absurd (h.threads t).2 h0
  parked t _ h0 := absurd (h.threads t).2 h0
  count := by
    rw [h.readyThreadCount, listedCount]
    simp

/-- What a call may be made on.  A node given to `CoreH_ThreadReadyNode` is the
thread's own or unused; `Core_Schedule` runs on a processor whose current thread
is on its lists, or is blocked and not boosted; the idle thread of a processor
that schedules is on its lists. -/
def allowed (s : State) : Op → Prop
  | .readyNode t n => n ≠ 0 → NodeOk s t n
  | .block _ c t canYield => canYield = true → t = (s.cpu c).currentThread →
    (s.cpu c).idleThread ≠ 0 →
      (s.cpu c).idleThread ≠ t ∧ (s.thread (s.cpu c).idleThread).masterCPU = some c
  | .boost _ => True
  | .schedule _ c => CanSchedule s c

theorem Queued.step {s s' : State} {xs : ℕ × ℕ → List ℕ} {op : Op} (h : Queued s xs)
    (hok : allowed s op) (hs : step s op = some s') : ∃ xs', Queued s' xs' := by
  cases op with
  | readyNode t n =>
    cases hs
    exact h.threadReadyNode hok
  | boost t =>
    cases hs
    exact h.threadBoostPriority
  | schedule fuel c => exact h.schedule hok hs
  | block fuel c t canYield =>
    obtain ⟨xs1, hq⟩ := h.unready (t := t)
    rw [Sched.step, threadBlock] at hs
    split_ifs at hs with hy
    · obtain ⟨hsuc, hb, hcur, hy⟩ := hy
      exact hq.schedule (canSchedule_unready hsuc hb hcur (hok hy hcur)) hs
    · cases hs
      exact ⟨xs1, hq⟩

/-- Thread `t` is on the list `xs`. -/
def OnList (s : State) (t : ℕ) (xs : List ℕ) : Prop := ∃ n ∈ xs, (s.node n).data = t

/-- Every list is well linked and counts its nodes, each of which is its thread's
own; a thread with a processor is on one list, that of this processor and the
thread's priority; a blocked thread is on none; and the threads on the lists are
counted by `Core_ReadyThreadCount`. -/
def ReadyQueues (s : State) : Prop :=
  ∃ xs : ℕ × ℕ → List ℕ,
    (∀ i, IsList (fun n => (s.node n).next) (fun n => (s.node n).prev) 0 (s.list i.1 i.2).head
      (s.list i.1 i.2).tail (xs i) ∧ (s.list i.1 i.2).nNodes = (xs i).length) ∧
    (∀ i n, n ∈ xs i → (s.node n).data ≠ 0 ∧ (s.thread (s.node n).data).snode = n) ∧
    (∀ t c, (s.thread t).masterCPU = some c →
      ∀ i, OnList s t (xs i) ↔ i = (c, (s.thread t).priority)) ∧
    (∀ t, (s.thread t).status = .blocked → ∀ i, ¬ OnList s t (xs i)) ∧
    s.readyThreadCount = listedCount s xs

theorem Queued.readyQueues {s : State} {xs : ℕ × ℕ → List ℕ} (h : Queued s xs) :
    ReadyQueues s := by
  refine ⟨xs, fun i => ⟨h.linked.lists.isList i, h.linked.nNodes i⟩, ?_, ?_, ?_, h.count⟩
  · intro i n hn
    exact ⟨(h.listed i n hn).1, (h.listed i n hn).2.1⟩
  · intro t c hc i
    obtain ⟨-, -, hd, hm⟩ := h.master t c hc
    constructor
    · rintro ⟨n, hn, rfl⟩
      obtain ⟨-, -, h3, h4⟩ := h.listed i n hn
      exact Prod.ext (Option.some.inj (h3.symm.trans hc)) h4.symm
    · rintro rfl
      exact ⟨_, hm, hd⟩
  · rintro t hb i ⟨n, hn, rfl⟩
    have hmc := (h.listed i n hn).2.2.1
    rw [h.blocked _ hb] at hmc
    cases hmc

/-- In every run of allowed calls the ready queues are in order. -/
theorem readyQueues_run {s s' : State} {ops : List Op} (hboot : Boot s)
    (hok : Run.Meets allowed step s ops) (hrun : ops.foldlM step s = some s') :
    ReadyQueues s' := by
  obtain ⟨xs, hq⟩ : ∃ xs, Queued s' xs := by
    refine Run.preserves (I := fun s => ∃ xs, Queued s xs) ?_ ⟨_, hboot.queued⟩ hok hrun
    rintro s op s1 ⟨xs, hq⟩ hop hs
    exact hq.step hop hs
  exact hq.readyQueues

theorem oneThread_boot : Boot oneThread :=
  ⟨fun _ _ => ⟨rfl, rfl, rfl⟩, fun _ => ⟨rfl, rfl⟩, rfl⟩

/-- The idle thread and thread 1 are readied; thread 1 is boosted, scheduled and blocked. -/
def scheduledRun : List Op :=
  [.readyNode 2 2, .readyNode 1 1, .boost 1, .schedule 3 0, .block 3 0 1 false]

theorem readyQueues_run_oneThread :
    ∃ s', scheduledRun.foldlM step oneThread = some s' ∧ ReadyQueues s' := by
  have hok : Run.Meets allowed step oneThread scheduledRun := by
    refine ⟨fun _ => .inr ⟨fun _ => (by decide : 0 ≠ 2), rfl⟩, ?_⟩
    rintro s ⟨⟩
    refine ⟨fun _ => .inr ⟨fun u => ?_, rfl⟩, ?_⟩
    · by_cases hu : u = 2
      · subst hu
        decide +kernel
      · show (update oneThread.thread 2 _ u).snode ≠ 1
        rw [update_of_ne hu]
        exact Nat.zero_ne_one
    rintro s ⟨⟩
    refine ⟨trivial, ?_⟩
    rintro s ⟨⟩
    exact ⟨⟨by decide +kernel, by decide +kernel⟩,
      fun _ _ => ⟨fun h => absurd h Bool.false_ne_true, fun _ _ => trivial⟩⟩
  have hsome : (scheduledRun.foldlM step oneThread).isSome = true := by decide +kernel
  obtain ⟨s', hrun⟩ := Option.isSome_iff_exists.mp hsome
  exact ⟨s', hrun, readyQueues_run oneThread_boot hok hrun⟩

/-- Two processors with the idle threads 2 and 3, and the thread 1 of normal
priority, which may only run on the first. -/
def twoCpus : State where
  cpuCount := 2
  cpu c := ⟨0, c + 2, fun _ => ⟨0, 0, 0, 0, 0⟩, none⟩
  node _ := ⟨0, 0, 0⟩
  thread t := { Thread.zero with
    priority := if t = 1 then 2 else 0, affinity := if t = 3 then 2 else 1 }
  readyThreadCount := 0

/-- Thread 1 runs on processor 0; processor 1 blocks it and boosts it, as a signal
with `boostPriority` does before it readies the thread; then processor 0 schedules. -/
def boostedWhileBlocked : List Op :=
  [.readyNode 2 2, .readyNode 3 3, .readyNode 1 1, .schedule 3 0, .schedule 3 1,
    .block 3 1 1 true, .boost 1, .schedule 3 0]

/-- `Core_Schedule` takes the blocked thread off a list it is not on, whose counter
wraps, and puts it on another. -/
theorem boosted_while_blocked_corrupts :
    Boot twoCpus ∧
      ∃ s', boostedWhileBlocked.foldlM step twoCpus = some s' ∧ ¬ ReadyQueues s' := by
  refine ⟨⟨fun _ _ => ⟨rfl, rfl, rfl⟩, fun _ => ⟨rfl, rfl⟩, rfl⟩, ?_⟩
  have hlist : (boostedWhileBlocked.foldlM step twoCpus).map
      (fun s => ((s.list 0 3).head, (s.list 0 3).nNodes)) = some (0, 2 ^ 64 - 1) := by
    decide +kernel
  obtain ⟨s', hrun, hs'⟩ := Option.map_eq_some_iff.mp hlist
  refine ⟨s', hrun, ?_⟩
  obtain ⟨hhead, hnNodes⟩ := Prod.mk.inj hs'
  rintro ⟨xs, hl, -⟩
  obtain ⟨hlink, hlen⟩ := hl (0, 3)
  have hempty : xs (0, 3) = [] := hlink.head_eq_null_iff.mp hhead
  rw [hempty, hnNodes] at hlen
  cases hlen

end Obos.Sched
