/-
Threads that wait for physical memory (`handle_oom` in `mm/handler.c`, the list
functions of `scheduler/thread.c` and the wake loop of `Mm_FreePhysicalPages`).

A fault that finds no physical memory calls `handle_oom`.  It looks for a page
to swap out, which it never finds: the first candidate would have to be at most
`szChose = 0` bytes large (`chooseLoop_eq`).  So the thread appends its
`phys_mem_node` to `Mm_ThreadsAwaitingPhysicalMemory` and blocks.  Nothing ever
sets the node's `data` or the thread's `nBytesWaitingFor`, and the list refuses
a node without `data`: the thread blocks without being on the list.

* `mem_wakeThreads` — which waiters one call of `Mm_FreePhysicalPages` readies,
* `wakeable_run` — in every interleaving in which the two fields are set when a
  thread enters, and in which no call reaches a thread between its append and
  its block, a blocked thread is on the list and is readied by the first call
  that leaves enough bytes for it,
* `blocked_off_list` — a thread as the kernel creates it blocks for good.
-/
import Obos.PmmSafety
import Obos.Wait

namespace Obos.Oom

open Pmm Function List

/-! ### The choice of a page -/

/-- A page on `ctx->referenced`. -/
structure Referenced where
  page : ℕ
  hugePage : Bool
  deriving DecidableEq, Repr

def Referenced.bytesUsed (r : Referenced) : ℕ := if r.hugePage then hugePageSize else pageSize

/-- The loop of `handle_oom` over the referenced pages: `chose` and `szChose`. -/
def chooseLoop (bytesNeeded pg : ℕ) : List Referenced → Option ℕ × ℕ → Option ℕ × ℕ
  | [], c => c
  | r :: rs, (chose, szChose) =>
    if r.page = pg then chooseLoop bytesNeeded pg rs (chose, szChose)
    else if bytesNeeded ≤ r.bytesUsed ∧ r.bytesUsed ≤ szChose then
      chooseLoop bytesNeeded pg rs (some r.page, r.bytesUsed)
    else chooseLoop bytesNeeded pg rs (chose, szChose)

theorem Referenced.bytesUsed_pos (r : Referenced) : 0 < r.bytesUsed := by
  unfold Referenced.bytesUsed
  split <;> decide

/-- No page is ever chosen. -/
theorem chooseLoop_eq (bytesNeeded pg : ℕ) (rs : List Referenced) :
    chooseLoop bytesNeeded pg rs (none, 0) = (none, 0) := by
  induction rs with
  | nil => rfl
  | cons r rs ih =>
    have hno : ¬ (bytesNeeded ≤ r.bytesUsed ∧ r.bytesUsed ≤ 0) := by
      intro h
      exact absurd h.2 (Nat.not_le.mpr r.bytesUsed_pos)
    rw [chooseLoop, if_neg hno, ih, ite_self]

/-! ### Threads -/

/-- What the list and scheduler functions read of a thread. -/
structure Thread where
  status : Sched.ThreadStatus
  /-- `masterCPU` is not null. -/
  masterCPU : Bool
  /-- `snode` is not null. -/
  snode : Bool
  /-- `priority` lies in the range of `thread_priority`. -/
  priorityValid : Bool
  /-- Some processor is in `affinity`. -/
  affinityMatches : Bool
  /-- `phys_mem_node.data` is the thread, and not null. -/
  physMemData : Bool
  nBytesWaitingFor : ℕ
  deriving DecidableEq, Repr

/-- Where a thread is in `handle_oom`, called for so many bytes: about to append
its node, about to block, or blocked there. -/
inductive Pc where
  | outside
  | append (bytesNeeded : ℕ)
  | block (bytesNeeded : ℕ)
  | waiting (bytesNeeded : ℕ)
  deriving DecidableEq, Repr

structure State where
  pmm : Pmm.State
  thread : ℕ → Thread
  pc : ℕ → Pc

namespace State

def goto (s : State) (t : ℕ) (pc : Pc) : State := { s with pc := update s.pc t pc }

def setThread (s : State) (t : ℕ) (x : Thread) : State :=
  { s with thread := update s.thread t x }

theorem goto_pc_self (s : State) (t : ℕ) (pc : Pc) : (s.goto t pc).pc t = pc :=
  update_self ..

/-- The members of `Mm_ThreadsAwaitingPhysicalMemory`. -/
def waiters (s : State) : List Waiter := s.pmm.threadsAwaiting

end State

/-- `CoreH_ThreadListAppend` of the `phys_mem_node` of `t`.  A node that is on the
list already would tie it into a cycle. -/
def threadListAppend (s : State) (t : ℕ) : Option State :=
  if !(s.thread t).physMemData then some s
  else if t ∈ s.waiters.map (·.thread) then none
  else some { s with pmm := { s.pmm with
    threadsAwaiting := s.pmm.threadsAwaiting ++ [⟨t, (s.thread t).nBytesWaitingFor⟩] } }

/-- `CoreH_ThreadBlock`. -/
def threadBlock (x : Thread) : Thread :=
  if !x.masterCPU || !x.priorityValid then x
  else if x.status = .blocked then x
  else { x with status := .blocked, masterCPU := false }

/-- `CoreH_ThreadReadyNode` with the thread's own `snode`. -/
def threadReadyNode (x : Thread) : Thread :=
  if !x.snode || !x.priorityValid then x
  else if x.masterCPU then x
  else if !x.affinityMatches then x
  else { x with status := .ready, masterCPU := true }

section

variable (cpuCount : ℕ) (x : Sched.Thread) (physMemData : Bool) (nBytesWaitingFor : ℕ)

/-- A thread of the scheduler, as it is seen here. -/
def Thread.ofSched : Thread where
  status := x.status
  masterCPU := x.masterCPU.isSome
  snode := x.snode ≠ 0
  priorityValid := x.priority ≤ Sched.maxPriority
  affinityMatches := (Wait.someCpu cpuCount x).isSome
  physMemData := physMemData
  nBytesWaitingFor := nBytesWaitingFor

/-- The two functions are those of the scheduler on what is seen of a thread. -/
theorem threadBlock_ofSched :
    threadBlock (.ofSched cpuCount x physMemData nBytesWaitingFor) =
      .ofSched cpuCount (Wait.blockThread x) physMemData nBytesWaitingFor := by
  have hrefused : (!(Thread.ofSched cpuCount x physMemData nBytesWaitingFor).masterCPU ||
      !(Thread.ofSched cpuCount x physMemData nBytesWaitingFor).priorityValid) = true ↔
      x.masterCPU.isNone ∨ Sched.maxPriority < x.priority := by simp [Thread.ofSched]
  rw [threadBlock, Wait.blockThread, apply_ite (Thread.ofSched cpuCount · physMemData _),
    apply_ite (Thread.ofSched cpuCount · physMemData _)]
  exact if_congr hrefused rfl (if_congr Iff.rfl rfl rfl)

theorem threadReadyNode_ofSched :
    threadReadyNode (.ofSched cpuCount x physMemData nBytesWaitingFor) =
      .ofSched cpuCount (Wait.readyThread cpuCount x) physMemData nBytesWaitingFor := by
  have hrefused : (!(Thread.ofSched cpuCount x physMemData nBytesWaitingFor).snode ||
      !(Thread.ofSched cpuCount x physMemData nBytesWaitingFor).priorityValid) = true ↔
      x.snode = 0 ∨ Sched.maxPriority < x.priority := by simp [Thread.ofSched]
  rw [threadReadyNode, Wait.readyThread, apply_ite (Thread.ofSched cpuCount · physMemData _),
    apply_ite (Thread.ofSched cpuCount · physMemData _)]
  refine if_congr hrefused rfl (if_congr Iff.rfl rfl ?_)
  cases hc : Wait.someCpu cpuCount x with
  | none => exact if_pos (by simp [Thread.ofSched, hc])
  | some c => exact if_neg (by simp [Thread.ofSched, hc])

end

/-- A thread that was blocked in `handle_oom` and is no longer returns from it. -/
def wokenPc (x : Thread) : Pc → Pc
  | .waiting n => if x.status = .blocked then .waiting n else .outside
  | pc => pc

/-- The wake loop hands one thread to `CoreH_ThreadReadyNode`. -/
def wake (s : State) (w : Waiter) : State :=
  let x := threadReadyNode (s.thread w.thread)
  (s.setThread w.thread x).goto w.thread (wokenPc x (s.pc w.thread))

inductive Op where
  /-- `t` calls `handle_oom` with these referenced pages. -/
  | enter (t bytesNeeded pg : ℕ) (referenced : List Referenced)
  | append (t : ℕ)
  | block (t : ℕ)
  /-- `Mm_FreePhysicalPages`. -/
  | free (addr nPages : ℕ)

/-- One step of some thread.  A call of `Mm_FreePhysicalPages` is one step; a
thread in `handle_oom` can be overtaken between its append and its block. -/
def step (s : State) : Op → Option State
  | .enter t bytesNeeded pg referenced =>
    match (chooseLoop bytesNeeded pg referenced (none, 0)).1 with
    | none => some (s.goto t (.append bytesNeeded))
    | some _ => some s
  | .append t =>
    match s.pc t with
    | .append n => (threadListAppend s t).map fun s => s.goto t (.block n)
    | _ => none
  | .block t =>
    match s.pc t with
    | .block n =>
      let x := threadBlock (s.thread t)
      some ((s.setThread t x).goto t (if x.status = .blocked then .waiting n else .outside))
    | _ => none
  | .free addr nPages =>
    let pmm := (freePhysicalPages s.pmm addr nPages).1
    some ((pmm.readied.drop s.pmm.readied.length).foldl wake { s with pmm := pmm })

/-! ### Whom one call readies -/

/-- The bytes left of `b` when these waiters have claimed what they can. -/
def leftFor : ℕ → List Waiter → ℕ
  | b, [] => b
  | b, w :: ws =>
    leftFor (if w.nBytesWaitingFor ≤ b then b - w.nBytesWaitingFor else b) ws

/-- The waiters before `w` leave enough of `b` bytes for it. -/
def Enough (b : ℕ) (ws : List Waiter) (w : Waiter) : Prop :=
  ∃ l r, ws = l ++ w :: r ∧ w.nBytesWaitingFor ≤ leftFor b l

theorem wakeThreads_perm (b : ℕ) (ws : List Waiter) :
    ((wakeThreads b ws).1 ++ (wakeThreads b ws).2).Perm ws := by
  induction ws generalizing b with
  | nil => exact List.Perm.refl _
  | cons w ws ih =>
    by_cases hw : w.nBytesWaitingFor ≤ b
    · rw [wakeThreads, if_pos hw]
      exact (ih _).cons w
    · rw [wakeThreads, if_neg hw]
      exact perm_middle.trans ((ih _).cons w)

/-- The wake loop goes on after a waiter with what it left. -/
theorem wakeThreads_cons (b : ℕ) (w : Waiter) (ws : List Waiter) (v : Waiter) :
    v ∈ (wakeThreads b (w :: ws)).1 ↔ (v = w ∧ w.nBytesWaitingFor ≤ b) ∨
      v ∈ (wakeThreads (leftFor b [w]) ws).1 := by
  by_cases hw : w.nBytesWaitingFor ≤ b
  · rw [wakeThreads, leftFor, leftFor, if_pos hw, if_pos hw]
    simp [mem_cons, hw]
  · rw [wakeThreads, leftFor, leftFor, if_neg hw, if_neg hw]
    simp [hw]

theorem mem_wakeThreads (b : ℕ) (ws : List Waiter) (v : Waiter) :
    v ∈ (wakeThreads b ws).1 ↔ Enough b ws v := by
  induction ws generalizing b with
  | nil =>
    constructor
    · intro h
      cases h
    · rintro ⟨l, r, h, -⟩
      cases l <;> cases h
  | cons w ws ih =>
    rw [wakeThreads_cons, ih]
    constructor
    · rintro (⟨rfl, hb⟩ | ⟨l, r, rfl, hb⟩)
      · exact ⟨[], ws, rfl, hb⟩
      · exact ⟨w :: l, r, rfl, hb⟩
    · rintro ⟨l, r, h, hb⟩
      cases l with
      | nil =>
        injection h with h1 h2
        exact .inl ⟨h1.symm, h1 ▸ hb⟩
      | cons u l =>
        injection h with h1 h2
        subst h1
        exact .inr ⟨l, r, h2, hb⟩

/-- This call releases enough for the thread `t`, which waits for `n` bytes, after
the claims of those who wait before it. -/
def Serves (s : State) (addr nPages t n : ℕ) : Prop :=
  pageSize ≤ addr ∧ Enough (nPages * pageSize) s.waiters ⟨t, n⟩

section

variable {s : State}

theorem Serves.mem {addr nPages t n : ℕ} (h : Serves s addr nPages t n) :
    ⟨t, n⟩ ∈ s.waiters := by
  obtain ⟨-, l, r, e, -⟩ := h
  rw [e]
  exact mem_append_right _ mem_cons_self

theorem free_waiters (s : Pmm.State) (z : Zone) (addr nPages : ℕ) :
    (free s z addr nPages).threadsAwaiting = s.threadsAwaiting ∧
      (free s z addr nPages).readied = s.readied := by
  unfold free
  split
  · exact ⟨rfl, rfl⟩
  · cases z <;> exact ⟨rfl, rfl⟩

theorem freeToLists_waiters (s : Pmm.State) (addr : ℕ) {nPages : ℕ} (hn : nPages < 2 ^ 64) :
    (freeToLists s addr nPages).1.threadsAwaiting = s.threadsAwaiting ∧
      (freeToLists s addr nPages).1.readied = s.readied ∧
      (freeToLists s addr nPages).2 = nPages := by
  unfold freeToLists
  rw [splitPages_eq addr hn]
  by_cases hlow : addr < 0xffffffff
  · simp [if_pos hlow, (free_waiters _ _ _ _).1, (free_waiters _ _ _ _).2]
  · simp [if_neg hlow, (free_waiters _ _ _ _).1, (free_waiters _ _ _ _).2]

/-- What a call of `Mm_FreePhysicalPages` does to the waiting threads. -/
theorem freePhysicalPages_waiters (s : Pmm.State) (addr : ℕ) {nPages : ℕ}
    (hn : nPages * pageSize < 2 ^ 64) :
    ∃ ready, (freePhysicalPages s addr nPages).1.readied = s.readied ++ ready ∧
      (ready ++ (freePhysicalPages s addr nPages).1.threadsAwaiting).Perm s.threadsAwaiting ∧
      ∀ w, w ∈ ready ↔
        pageSize ≤ addr ∧ Enough (nPages * pageSize) s.threadsAwaiting w := by
  have hpos : 0 < pageSize := by decide
  by_cases ha : addr - addr % pageSize = 0
  · -- the call is refused
    have hlt : addr < pageSize := by
      have := Nat.mod_lt addr hpos
      omega
    refine ⟨[], ?_, ?_, ?_⟩
    · simp [freePhysicalPages, ha]
    · simp [freePhysicalPages, ha]
    · intro w
      simp [Nat.not_le.mpr hlt]
  · have hle : pageSize ≤ addr := by
      by_contra hlt
      exact ha (by rw [Nat.mod_eq_of_lt (not_le.mp hlt), Nat.sub_self])
    have hn64 : nPages < 2 ^ 64 := lt_of_le_of_lt (Nat.le_mul_of_pos_right _ hpos) hn
    obtain ⟨h1, h2, h3⟩ := freeToLists_waiters s (addr - addr % pageSize) hn64
    refine ⟨(wakeThreads (nPages * pageSize) s.threadsAwaiting).1, ?_, ?_, ?_⟩
    · simp [freePhysicalPages, if_neg ha, h1, h2, h3, u64_of_lt hn]
    · simp only [freePhysicalPages, if_neg ha, h1, h3, u64_of_lt hn]
      exact wakeThreads_perm _ _
    · intro w
      rw [mem_wakeThreads]
      exact ⟨fun h => ⟨hle, h⟩, fun h => h.2⟩

/-! ### The wake loop on the threads -/

theorem foldl_wake_pmm (ws : List Waiter) (s : State) : (ws.foldl wake s).pmm = s.pmm := by
  induction ws generalizing s with
  | nil => rfl
  | cons w ws ih => exact (ih _).trans rfl

theorem foldl_wake_of_notMem {t : ℕ} (ws : List Waiter) (s : State)
    (ht : t ∉ ws.map (·.thread)) :
    (ws.foldl wake s).thread t = s.thread t ∧ (ws.foldl wake s).pc t = s.pc t := by
  induction ws generalizing s with
  | nil => exact ⟨rfl, rfl⟩
  | cons w ws ih =>
    rw [map_cons, mem_cons, not_or] at ht
    obtain ⟨h1, h2⟩ := ih (wake s w) ht.2
    exact ⟨h1.trans (update_of_ne ht.1 _ _), h2.trans (update_of_ne ht.1 _ _)⟩

theorem foldl_wake_of_mem {t : ℕ} (ws : List Waiter) (s : State)
    (hnd : (ws.map (·.thread)).Nodup) (ht : t ∈ ws.map (·.thread)) :
    (ws.foldl wake s).thread t = threadReadyNode (s.thread t) ∧
      (ws.foldl wake s).pc t = wokenPc (threadReadyNode (s.thread t)) (s.pc t) := by
  induction ws generalizing s with
  | nil => cases ht
  | cons w ws ih =>
    rw [map_cons, nodup_cons] at hnd
    by_cases hw : t = w.thread
    · obtain ⟨h1, h2⟩ := foldl_wake_of_notMem ws (wake s w) (t := t) (hw ▸ hnd.1)
      subst hw
      exact ⟨h1.trans (update_self ..), h2.trans (update_self ..)⟩
    · obtain ⟨h1, h2⟩ := ih (wake s w) hnd.2 ((mem_cons.mp ht).resolve_left hw)
      have e1 : (wake s w).thread t = s.thread t := update_of_ne hw _ _
      have e2 : (wake s w).pc t = s.pc t := update_of_ne hw _ _
      rw [e1] at h1 h2
      rw [e2] at h2
      exact ⟨h1, h2⟩

/-! ### The invariant -/

/-- A thread that runs on some processor. -/
structure Runs (x : Thread) : Prop where
  awake : x.status ≠ .blocked
  cpu : x.masterCPU = true
  node : x.snode = true
  priority : x.priorityValid = true
  affinity : x.affinityMatches = true

/-- A thread that `CoreH_ThreadBlock` has taken off its processor. -/
structure Sleeps (x : Thread) : Prop where
  asleep : x.status = .blocked
  cpu : x.masterCPU = false
  node : x.snode = true
  priority : x.priorityValid = true
  affinity : x.affinityMatches = true

theorem Runs.threadBlock {x : Thread} (h : Runs x) : Sleeps (threadBlock x) := by
  have e : Oom.threadBlock x = { x with status := .blocked, masterCPU := false } := by
    simp [Oom.threadBlock, h.cpu, h.priority, h.awake]
  rw [e]
  exact ⟨rfl, rfl, h.node, h.priority, h.affinity⟩

theorem Sleeps.threadReadyNode {x : Thread} (h : Sleeps x) :
    (threadReadyNode x).status = .ready := by
  simp [Oom.threadReadyNode, h.node, h.priority, h.cpu, h.affinity]

/-- What is true of the thread `t` when it stands there. -/
def Settled (s : State) (t : ℕ) : Pc → Prop
  | .outside => ∀ n, ⟨t, n⟩ ∉ s.waiters
  | .append n => Runs (s.thread t) ∧ (s.thread t).physMemData = true ∧
      (s.thread t).nBytesWaitingFor = n ∧ ∀ n, ⟨t, n⟩ ∉ s.waiters
  | .block n => Runs (s.thread t) ∧ ⟨t, n⟩ ∈ s.waiters
  | .waiting n => Sleeps (s.thread t) ∧ ⟨t, n⟩ ∈ s.waiters

structure Inv (s : State) : Prop where
  nodup : (s.waiters.map (·.thread)).Nodup
  settled : ∀ t, Settled s t (s.pc t)

theorem Settled.congr {s s' : State} {t : ℕ} (h : Settled s t (s.pc t)) (hpc : s'.pc t = s.pc t)
    (hth : s'.thread t = s.thread t)
    (hw : ∀ n, (⟨t, n⟩ : Waiter) ∈ s'.waiters ↔ (⟨t, n⟩ : Waiter) ∈ s.waiters) :
    Settled s' t (s'.pc t) := by
  rw [hpc]
  cases hp : s.pc t <;> rw [hp] at h <;> simpa only [Settled, hth, hw] using h

/-- Two waiters of one thread are the same waiter. -/
theorem Inv.unique (h : Inv s) {t m n : ℕ} (hm : ⟨t, m⟩ ∈ s.waiters)
    (hn : ⟨t, n⟩ ∈ s.waiters) : m = n := by
  have e := inj_on_of_nodup_map h.nodup hm hn rfl
  injection e

/-- Every waiter stands between its append and the end of its wait. -/
theorem Inv.pc_of_mem (h : Inv s) {t n : ℕ} (hw : ⟨t, n⟩ ∈ s.waiters) :
    s.pc t = .block n ∨ s.pc t = .waiting n := by
  have huniq : ∀ m, ⟨t, m⟩ ∈ s.waiters → m = n := fun m hm => h.unique hm hw
  have ht := h.settled t
  cases hpc : s.pc t with
  | outside =>
    rw [hpc] at ht
    exact absurd hw (ht n)
  | append m =>
    rw [hpc] at ht
    exact absurd hw (ht.2.2.2 n)
  | block m =>
    rw [hpc] at ht
    exact .inl (by rw [huniq m ht.2])
  | waiting m =>
    rw [hpc] at ht
    exact .inr (by rw [huniq m ht.2])

/-- What a step must meet: it can be taken, the two fields are set when a thread
enters, and a call of `Mm_FreePhysicalPages` does not serve a thread that is not
yet blocked. -/
def Allowed (s : State) : Op → Prop
  | .enter t bytesNeeded _ _ => s.pc t = .outside ∧ Runs (s.thread t) ∧
      (s.thread t).physMemData = true ∧ (s.thread t).nBytesWaitingFor = bytesNeeded
  | .append t => ∃ n, s.pc t = .append n
  | .block t => ∃ n, s.pc t = .block n
  | .free addr nPages => nPages * pageSize < 2 ^ 64 ∧
      ∀ t n, s.pc t = .block n → ¬ Serves s addr nPages t n

/-- Who waits is not the thread that takes a step. -/
theorem ne_of_pc {u t m : ℕ} (hu : s.pc u = .waiting m) (ht : s.pc t ≠ .waiting m) :
    u ≠ t := by
  intro e
  exact ht (e ▸ hu)

theorem Inv.enter (h : Inv s) {t n : ℕ} (ho : s.pc t = .outside)
    (hr : Runs (s.thread t)) (hd : (s.thread t).physMemData = true)
    (hb : (s.thread t).nBytesWaitingFor = n) : Inv (s.goto t (.append n)) := by
  refine ⟨h.nodup, fun u => ?_⟩
  by_cases hu : u = t
  · subst hu
    have ht := h.settled u
    rw [ho] at ht
    rw [State.goto_pc_self]
    exact ⟨hr, hd, hb, ht⟩
  · exact (h.settled u).congr (update_of_ne hu _ _) rfl fun _ => Iff.rfl

theorem Inv.append (h : Inv s) {t n : ℕ} (hpc : s.pc t = .append n) :
    ∃ s', step s (.append t) = some s' ∧ Inv s' ∧
      ∀ u m, s.pc u = .waiting m → s'.pc u = .waiting m := by
  have ht := h.settled t
  rw [hpc] at ht
  obtain ⟨hr, hd, hb, hno⟩ := ht
  have hmem : t ∉ s.waiters.map (·.thread) := by
    intro hm
    obtain ⟨⟨_, m⟩, hv, rfl⟩ := mem_map.mp hm
    exact hno m hv
  refine ⟨_, by simp only [step, hpc, threadListAppend, hd, Bool.not_true, Bool.false_eq_true,
    if_false, if_neg hmem, Option.map_some]; rfl, ⟨?_, ?_⟩, ?_⟩
  · -- the list grew by a thread that was not on it
    simp only [State.waiters, State.goto, map_append, map_cons, map_nil]
    refine List.Nodup.append h.nodup (nodup_singleton t) ?_
    rw [disjoint_singleton]
    exact hmem
  · intro u
    by_cases hu : u = t
    · subst hu
      simp only [State.goto, update_self]
      exact ⟨hr, mem_append_right _ (by rw [hb]; exact mem_singleton_self _)⟩
    · refine (h.settled u).congr (update_of_ne hu _ _) rfl fun m => ?_
      simp [State.waiters, State.goto, hu]
  · intro u m hu
    exact (update_of_ne (ne_of_pc hu (by rw [hpc]; nofun)) _ _).trans hu

theorem Inv.block (h : Inv s) {t n : ℕ} (hpc : s.pc t = .block n) :
    ∃ s', step s (.block t) = some s' ∧ Inv s' ∧
      ∀ u m, s.pc u = .waiting m → s'.pc u = .waiting m := by
  have ht := h.settled t
  rw [hpc] at ht
  obtain ⟨hr, hmem⟩ := ht
  have hsl := hr.threadBlock
  have hs : step s (.block t) =
      some ((s.setThread t (Oom.threadBlock (s.thread t))).goto t (.waiting n)) := by
    simp [step, hpc, if_pos hsl.asleep]
  refine ⟨_, hs, ⟨h.nodup, fun u => ?_⟩, fun u m hu => ?_⟩
  · by_cases hu : u = t
    · subst hu
      have hself : (s.setThread u (Oom.threadBlock (s.thread u))).thread u =
          Oom.threadBlock (s.thread u) := update_self ..
      rw [State.goto_pc_self]
      exact ⟨hself.symm ▸ hsl, hmem⟩
    · exact (h.settled u).congr (update_of_ne hu _ _) (update_of_ne hu _ _)
        fun _ => Iff.rfl
  · exact (update_of_ne (ne_of_pc hu (by rw [hpc]; nofun)) _ _).trans hu

/-- What a call of `Mm_FreePhysicalPages` does: those it serves leave the list
and are handed to the scheduler, and everything else is as it was. -/
theorem Inv.free (h : Inv s) (addr : ℕ) {nPages : ℕ}
    (hn : nPages * pageSize < 2 ^ 64) :
    ∃ s', step s (.free addr nPages) = some s' ∧ (s'.waiters.map (·.thread)).Nodup ∧
      (∀ t n, ⟨t, n⟩ ∈ s'.waiters ↔ ⟨t, n⟩ ∈ s.waiters ∧ ¬ Serves s addr nPages t n) ∧
      (∀ t n, Serves s addr nPages t n →
        s'.thread t = threadReadyNode (s.thread t) ∧
        s'.pc t = wokenPc (threadReadyNode (s.thread t)) (s.pc t)) ∧
      ∀ t, (∀ n, ¬ Serves s addr nPages t n) → s'.thread t = s.thread t ∧ s'.pc t = s.pc t := by
  obtain ⟨ready, hready, hperm, hmem⟩ := freePhysicalPages_waiters s.pmm addr hn
  have hserve : ∀ t n, ⟨t, n⟩ ∈ ready ↔ Serves s addr nPages t n := fun t n => hmem ⟨t, n⟩
  have hthread : ∀ t, t ∈ ready.map (·.thread) ↔ ∃ n, Serves s addr nPages t n := by
    intro t
    rw [mem_map]
    constructor
    · rintro ⟨⟨_, n⟩, hv, rfl⟩
      exact ⟨n, (hserve _ n).mp hv⟩
    · rintro ⟨n, hv⟩
      exact ⟨⟨t, n⟩, (hserve t n).mpr hv, rfl⟩
  -- the served and those who stay are all the waiters, each once
  have hnd := (hperm.map (·.thread)).nodup_iff.mpr h.nodup
  rw [map_append, nodup_append] at hnd
  obtain ⟨hnd1, hnd2, hdisj⟩ := hnd
  have hdrop : (freePhysicalPages s.pmm addr nPages).1.readied.drop s.pmm.readied.length = ready := by
    rw [hready, drop_left]
  refine ⟨_, rfl, ?_, ?_, ?_, ?_⟩
  · rw [State.waiters, foldl_wake_pmm]
    exact hnd2
  · intro t n
    rw [State.waiters, foldl_wake_pmm, ← hserve]
    have hall := hperm.mem_iff (a := ⟨t, n⟩)
    rw [mem_append] at hall
    constructor
    · intro hv
      refine ⟨hall.mp (.inr hv), fun hv' => ?_⟩
      exact hdisj _ (mem_map_of_mem hv') _ (mem_map_of_mem hv) rfl
    · rintro ⟨hv, hv'⟩
      exact (hall.mpr hv).resolve_left hv'
  · intro t n hs
    rw [hdrop]
    exact foldl_wake_of_mem ready _ hnd1 ((hthread t).mpr ⟨n, hs⟩)
  · intro t hs
    rw [hdrop]
    refine foldl_wake_of_notMem ready _ fun ht => ?_
    obtain ⟨n, hv⟩ := (hthread t).mp ht
    exact hs n hv

/-- A call that serves no thread on its way to block keeps the invariant. -/
theorem Inv.free_allowed (h : Inv s) {addr nPages : ℕ}
    (ha : Allowed s (.free addr nPages)) :
    ∃ s', step s (.free addr nPages) = some s' ∧ Inv s' ∧
      ∀ t n, s.pc t = .waiting n → ¬ Serves s addr nPages t n → s'.pc t = .waiting n := by
  obtain ⟨s', hs', hnd, hmem, hserved, hrest⟩ := h.free addr ha.1
  refine ⟨s', hs', ⟨hnd, fun t => ?_⟩, fun t n hpc hno => ?_⟩
  · by_cases hex : ∃ n, Serves s addr nPages t n
    · -- served: it was blocked, and now it is outside and off the list
      obtain ⟨n, hn⟩ := hex
      have hpc : s.pc t = .waiting n :=
        (h.pc_of_mem hn.mem).resolve_left fun hb => ha.2 t n hb hn
      have ht := h.settled t
      rw [hpc] at ht
      have hawake : (threadReadyNode (s.thread t)).status ≠ .blocked := by
        rw [ht.1.threadReadyNode]
        decide
      rw [(hserved t n hn).2, hpc, wokenPc, if_neg hawake]
      intro m hm
      have hm' := (hmem t m).mp hm
      exact hm'.2 (h.unique hn.mem hm'.1 ▸ hn)
    · have hno : ∀ n, ¬ Serves s addr nPages t n := fun n hn => hex ⟨n, hn⟩
      refine (h.settled t).congr (hrest t hno).2 (hrest t hno).1 fun n => ?_
      rw [hmem]
      exact ⟨fun hw => hw.1, fun hw => ⟨hw, hno n⟩⟩
  · have hall : ∀ m, ¬ Serves s addr nPages t m := by
      intro m hm
      have hsett := h.settled t
      rw [hpc] at hsett
      exact hno (h.unique hm.mem hsett.2 ▸ hm)
    rw [(hrest t hall).2, hpc]

/-! ### Runs -/

/-- The step is a call that serves `t`. -/
def ServedBy (s : State) (t n : ℕ) : Op → Prop
  | .free addr nPages => Serves s addr nPages t n
  | _ => False

/-- An allowed step keeps the invariant, and a thread goes on waiting unless the
step serves it. -/
theorem Inv.step {op : Op} (h : Inv s) (ha : Allowed s op) :
    ∃ s', step s op = some s' ∧ Inv s' ∧
      ∀ t n, s.pc t = .waiting n → ¬ ServedBy s t n op → s'.pc t = .waiting n := by
  cases op with
  | enter t bytesNeeded pg referenced =>
    obtain ⟨ho, hr, hd, hb⟩ := ha
    have hs : Oom.step s (.enter t bytesNeeded pg referenced) =
        some (s.goto t (.append bytesNeeded)) := by
      simp [Oom.step, chooseLoop_eq]
    refine ⟨_, hs, h.enter ho hr hd hb, fun u n hu _ => ?_⟩
    exact (update_of_ne (ne_of_pc hu (by rw [ho]; nofun)) _ _).trans hu
  | append t =>
    obtain ⟨n, hn⟩ := ha
    obtain ⟨s', hs', hI, hpc⟩ := h.append hn
    exact ⟨s', hs', hI, fun u m hu _ => hpc u m hu⟩
  | block t =>
    obtain ⟨n, hn⟩ := ha
    obtain ⟨s', hs', hI, hpc⟩ := h.block hn
    exact ⟨s', hs', hI, fun u m hu _ => hpc u m hu⟩
  | free addr nPages => exact h.free_allowed ha

/-- Before any fault: nobody waits.  The threads are arbitrary. -/
structure Start (s : State) : Prop where
  empty : s.waiters = []
  outside : ∀ t, s.pc t = .outside

theorem Start.inv (h : Start s) : Inv s := by
  refine ⟨by rw [h.empty]; exact nodup_nil, fun t => ?_⟩
  rw [h.outside t]
  intro n hn
  rw [h.empty] at hn
  cases hn

/-- The call readies `t` and takes it off the list; it does so with every thread
that it serves, and with no other. -/
structure Readies (s s' : State) (addr nPages t : ℕ) : Prop where
  ready : (s'.thread t).status = .ready
  returned : s'.pc t = .outside
  removed : ∀ n, ⟨t, n⟩ ∉ s'.waiters
  others : ∀ u, (∀ m, ¬ Serves s addr nPages u m) → s'.thread u = s.thread u
  left : ∀ u m, ⟨u, m⟩ ∈ s'.waiters ↔ ⟨u, m⟩ ∈ s.waiters ∧ ¬ Serves s addr nPages u m

theorem Inv.readies (h : Inv s) {addr nPages t n : ℕ} (hpc : s.pc t = .waiting n)
    (hn : nPages * pageSize < 2 ^ 64) (hs : Serves s addr nPages t n) :
    ∃ s', Oom.step s (.free addr nPages) = some s' ∧ Readies s s' addr nPages t := by
  obtain ⟨s', hs', -, hmem, hserved, hrest⟩ := h.free addr hn
  have ht := h.settled t
  rw [hpc] at ht
  have hready := ht.1.threadReadyNode
  have hawake : (threadReadyNode (s.thread t)).status ≠ .blocked := by
    rw [hready]
    decide
  obtain ⟨hth, hpc'⟩ := hserved t n hs
  refine ⟨s', hs', ?_, ?_, ?_, fun u hu => (hrest u hu).1, hmem⟩
  · rw [hth, hready]
  · rw [hpc', hpc, wokenPc, if_neg hawake]
  · intro m hm
    have hm' := (hmem t m).mp hm
    exact hm'.2 (h.unique hs.mem hm'.1 ▸ hs)

end

/-- **Waiters are wakeable.**  After every allowed run a thread that is blocked in
`handle_oom` is on the list with the bytes it asked for; and after every further
allowed run that does not serve it, it still is, and the next call that does
serve it readies it and takes it off the list. -/
theorem wakeable_run (s₀ : State) (ops : List Op) (h₀ : Start s₀)
    (hm : Run.Meets Allowed step s₀ ops) :
    ∃ s, ops.foldlM step s₀ = some s ∧ ∀ t n, s.pc t = .waiting n →
      (s.thread t).status = .blocked ∧ ⟨t, n⟩ ∈ s.waiters ∧
      ∀ later, Run.Meets (fun s op => Allowed s op ∧ ¬ ServedBy s t n op) step s later →
        ∃ s', later.foldlM step s = some s' ∧
          (s'.thread t).status = .blocked ∧ ⟨t, n⟩ ∈ s'.waiters ∧
          ∀ addr nPages, nPages * pageSize < 2 ^ 64 → Serves s' addr nPages t n →
            ∃ s'', step s' (.free addr nPages) = some s'' ∧
              Readies s' s'' addr nPages t := by
  have hstep : ∀ s op, Inv s → Allowed s op → ∃ s', step s op = some s' ∧ Inv s' := by
    intro s op h ha
    obtain ⟨s', hs', hI, -⟩ := h.step ha
    exact ⟨s', hs', hI⟩
  obtain ⟨s, hs, hI⟩ := Run.invariant hstep h₀.inv hm
  refine ⟨s, hs, fun t n hpc => ?_⟩
  have hst := hI.settled t
  rw [hpc] at hst
  refine ⟨hst.1.asleep, hst.2, fun later hl => ?_⟩
  -- the same induction again, with the thread's wait in the invariant
  have hwait : ∀ s op, Inv s ∧ s.pc t = .waiting n → Allowed s op ∧ ¬ ServedBy s t n op →
      ∃ s', step s op = some s' ∧ Inv s' ∧ s'.pc t = .waiting n := by
    intro s op h ha
    obtain ⟨s', hs', hI', hkeep⟩ := h.1.step ha.1
    exact ⟨s', hs', hI', hkeep t n h.2 ha.2⟩
  obtain ⟨s', hs', hI', hpc'⟩ := Run.invariant hwait ⟨hI, hpc⟩ hl
  have hst' := hI'.settled t
  rw [hpc'] at hst'
  exact ⟨s', hs', hst'.1.asleep, hst'.2, fun addr nPages hn hsv => hI'.readies hpc' hn hsv⟩

/-- A thread that runs, with the two fields as they are given. -/
def runningThread (physMemData : Bool) (nBytesWaitingFor : ℕ) : Thread where
  status := .running
  masterCPU := true
  snode := true
  priorityValid := true
  affinityMatches := true
  physMemData := physMemData
  nBytesWaitingFor := nBytesWaitingFor

/-- All threads alike, and no memory. -/
def allRunning (x : Thread) : State where
  pmm := Pmm.State.boot fun _ => 0
  thread := fun _ => x
  pc := fun _ => .outside

/-- A page fault of the thread 0 that finds no memory, up to its block. -/
def oomFault : List Op := [.enter 0 4096 0 [], .append 0, .block 0]

theorem wakeable_run_oomFault :
    ∃ s, oomFault.foldlM step (allRunning (runningThread true 4096)) = some s ∧
      s.pc 0 = .waiting 4096 ∧ ⟨0, 4096⟩ ∈ s.waiters ∧
      ∃ s', step s (.free 0x1000 1) = some s' ∧ Readies s s' 0x1000 1 0 := by
  have hstart : Start (allRunning (runningThread true 4096)) := ⟨rfl, fun _ => rfl⟩
  have hruns : Runs (runningThread true 4096) :=
    ⟨by decide, rfl, rfl, rfl, rfl⟩
  have hmeets : Run.Meets Allowed step (allRunning (runningThread true 4096)) oomFault := by
    refine ⟨⟨rfl, hruns, rfl, rfl⟩, fun s hs => ⟨⟨4096, ?_⟩, fun s' hs' => ⟨⟨4096, ?_⟩, fun _ _ => trivial⟩⟩⟩
    · rw [← Option.some.inj hs]
      rfl
    · rw [← Option.some.inj hs] at hs'
      rw [← Option.some.inj hs']
      rfl
  obtain ⟨s, hs, hwait⟩ := wakeable_run _ _ hstart hmeets
  have hpc : s.pc 0 = .waiting 4096 := by
    rw [← Option.some.inj hs]
    rfl
  have hw : s.waiters = [⟨0, 4096⟩] := by
    rw [← Option.some.inj hs]
    rfl
  obtain ⟨-, hmem, hlater⟩ := hwait 0 4096 hpc
  obtain ⟨s', hs', -, -, hserve⟩ := hlater [] trivial
  rw [← Option.some.inj hs'] at hserve
  refine ⟨s, hs, hpc, hmem, hserve 0x1000 1 (by decide) ⟨by decide, [], [], hw, by decide⟩⟩

/-- A thread as `CoreH_ThreadAllocate` zeroes it blocks without being on the list,
and a page that is freed later does not wake it. -/
theorem blocked_off_list :
    ((oomFault ++ [Op.free 0x1000 1]).foldlM step (allRunning (runningThread false 0))).map
      (fun s => (s.pc 0, (s.thread 0).status, s.waiters)) =
    some (.waiting 4096, .blocked, []) := by
  rfl

end Obos.Oom
