/-
Deferred procedure calls (`irq/dpc.c`, `CoreH_DispatchDPCs` of `irq/irql.c`).

Every processor has a queue of DPCs, a list of `utils/list.h`.
`CoreH_InitializeDPC` puts a DPC in front of the queue of a lightly loaded
processor, `CoreH_FreeDPC` takes it off its queue, and `CoreH_DispatchDPCs` takes
every DPC of its processor's queue off and calls its handler.  A handler may
make any sequence of the first two calls.  Pointers to DPCs are numbers, `0` is
the null pointer; a call through a null pointer, or a walk that is longer than
its `fuel`, has no result.

The dispatch loop reads the next DPC before it calls the handler.  A handler that
frees this DPC does not keep the loop from calling it.

* `dispatch_iff` — for every consistent queue and all handlers, the dispatch runs
  every DPC exactly once, none after it was freed, and leaves the queues
  consistent, exactly when no handler frees the DPC behind its own and every DPC
  it enqueues finds a processor,
* `freed_dpc_is_called` — a handler frees the next DPC, which is called.
-/
import Obos.KernelList
import Obos.Lib.Run

namespace Obos.Dpcs

open Function List
open KernelList (Links listPrepend listRemove isNodeUnlinked)

/-! ### The model -/

/-- `dpc`, without its links and the user data. -/
structure Dpc where
  /-- `handler` is not null. -/
  handler : Bool
  /-- The index of the processor, unless `cpu` is null. -/
  cpu : Option ℕ
  deriving DecidableEq, Repr

structure State where
  cpuCount : ℕ
  /-- The `id` of each processor. -/
  cpuId : ℕ → ℕ
  defaultAffinity : ℕ
  queue : ℕ → KernelList.Head
  links : Links
  dpc : ℕ → Dpc

section

variable (s : State)

/-- One turn of the search for a processor in `CoreH_InitializeDPC`: a less loaded
processor that the affinity excludes sets `target` back to null. -/
def selectTurn (affinity : ℕ) (target : Option ℕ) (i : ℕ) : Option ℕ :=
  match target with
  | none => if affinity.testBit (s.cpuId i) then some i else none
  | some t =>
    if (s.queue i).nNodes < (s.queue t).nNodes then
      if affinity.testBit (s.cpuId i) then some i else none
    else some t

/-- The processor that `CoreH_InitializeDPC` chooses. -/
def selectTarget (affinity : ℕ) : Option ℕ :=
  let masked := affinity &&& s.defaultAffinity
  let affinity := if masked = 0 then s.defaultAffinity else masked
  (List.range s.cpuCount).foldl (selectTurn s affinity) none

/-- Link the DPC into the queue of processor `c`. -/
def putOn (c d : ℕ) : State :=
  let r := listPrepend s.links (s.queue c) d
  { s with
    links := r.1
    queue := update s.queue c r.2
    dpc := update s.dpc d ⟨true, some c⟩ }

/-- Unlink the DPC from the queue of processor `c` and set its `cpu` to null. -/
def takeOff (c d : ℕ) : State :=
  let r := listRemove s.links (s.queue c) d
  { s with
    links := r.1
    queue := update s.queue c r.2
    dpc := update s.dpc d { s.dpc d with cpu := none } }

/-- `CoreH_InitializeDPC` with a handler.  Without a target it writes through a null
pointer. -/
def initializeDPC (d affinity : ℕ) : Option (State × Status) :=
  if d = 0 then some (s, .invalidArgument)
  else if (s.dpc d).cpu.isSome then some (s, .dpcAlreadyEnqueued)
  else (selectTarget s affinity).map fun c => (putOn s c d, .success)

/-- `CoreH_FreeDPC`; what it does with the memory of the DPC is left out. -/
def freeDPC (d : ℕ) : State × Status :=
  if d = 0 then (s, .invalidArgument)
  else if (s.dpc d).handler = false then (s, .uninitialized)
  else
    match (s.dpc d).cpu with
    | none => (s, .uninitialized)
    | some c =>
      if isNodeUnlinked s.links (s.queue c) d then (s, .success)
      else (takeOff s c d, .success)

/-! ### Handlers and the dispatch loop -/

/-- A call that a handler makes. -/
inductive Act where
  | enqueue (d affinity : ℕ)
  | free (d : ℕ)
  deriving DecidableEq, Repr

/-- A handler is called, or a DPC is freed. -/
inductive Event where
  | call (d : ℕ)
  | free (d : ℕ)
  deriving DecidableEq, Repr

def act : Act → Option (State × List Event)
  | .enqueue d affinity => (initializeDPC s d affinity).map fun r => (r.1, [])
  | .free d =>
    let r := freeDPC s d
    some (r.1, if r.2 = .success then [.free d] else [])

end

/-- A handler that makes the calls `acts`. -/
def runHandler : State → List Act → Option (State × List Event)
  | s, [] => some (s, [])
  | s, a :: acts =>
    (act s a).bind fun r => (runHandler r.1 acts).map fun t => (t.1, r.2 ++ t.2)

/-- The loop of `CoreH_DispatchDPCs` on processor `c` from the DPC `cur` on; the handler
called in round `k` makes the calls `handlers k`. -/
def dispatchFrom (c : ℕ) (handlers : ℕ → List Act) :
    ℕ → ℕ → ℕ → State → Option (State × List Event)
  | 0, _, _, _ => none
  | fuel + 1, k, cur, s =>
    if cur = 0 then some (s, [])
    -- a call through a null pointer
    else if (s.dpc cur).handler = false then none
    else
      (runHandler (takeOff s c cur) (handlers k)).bind fun r =>
        (dispatchFrom c handlers fuel (k + 1) (s.links.next cur) r.1).map fun t =>
          (t.1, .call cur :: (r.2 ++ t.2))

/-- `CoreH_DispatchDPCs` on processor `c`. -/
def dispatchDPCs (c : ℕ) (handlers : ℕ → List Act) (fuel : ℕ) (s : State) :
    Option (State × List Event) :=
  dispatchFrom c handlers fuel 0 (s.queue c).head s

/-! ### Consistent queues -/

/-- The queues are well linked lists with the DPCs `xs c`, and a DPC names the processor
on whose queue it is. -/
structure Queues (s : State) (xs : ℕ → List ℕ) : Prop where
  lists : KernelList.Lists s.links s.queue xs
  cpu : ∀ d c, (s.dpc d).cpu = some c ↔ d ∈ xs c
  handler : ∀ d c, d ∈ xs c → (s.dpc d).handler = true

variable {s s' : State} {xs : ℕ → List ℕ} {c d : ℕ}

theorem Queues.mem_unique (h : Queues s xs) {c' : ℕ} (hc : d ∈ xs c) (hc' : d ∈ xs c') :
    c = c' :=
  h.lists.eq_of_mem hc hc'

theorem Queues.putOn (h : Queues s xs) (hd : d ≠ 0) (hcpu : (s.dpc d).cpu = none) (c : ℕ) :
    Queues (putOn s c d) (update xs c (d :: xs c)) := by
  have hout : ∀ j, d ∉ xs j := fun j hj => by
    rw [(h.cpu d j).mpr hj] at hcpu
    cases hcpu
  refine ⟨h.lists.prepend c hout hd, fun e j => ?_, fun e j he => ?_⟩
  · by_cases hed : e = d
    · subst hed
      by_cases hj : j = c
      · subst hj
        simp [Dpcs.putOn]
      · simp [Dpcs.putOn, update_of_ne hj, hout j, Ne.symm hj]
    · by_cases hj : j = c
      · subst hj
        simp [Dpcs.putOn, h.cpu e j, hed]
      · simp [Dpcs.putOn, update_of_ne hed, update_of_ne hj, h.cpu e j]
  · by_cases hed : e = d
    · simp [Dpcs.putOn, hed]
    · rw [show (Dpcs.putOn s c d).dpc e = s.dpc e from update_of_ne hed _ _]
      by_cases hj : j = c
      · subst hj
        rw [update_self, mem_cons] at he
        exact h.handler e j (he.resolve_left hed)
      · rw [update_of_ne hj] at he
        exact h.handler e j he

theorem Queues.takeOff (h : Queues s xs) {l r : List ℕ} (hc : xs c = l ++ d :: r) :
    Queues (takeOff s c d) (update xs c (l ++ r)) := by
  have hnd : (xs c).Nodup := (h.lists.isLists.isList c).nodup
  rw [hc, nodup_middle, nodup_cons] at hnd
  have hin : d ∈ xs c := hc ▸ mem_append_right _ mem_cons_self
  have hmem : ∀ e j, e ≠ d → (e ∈ update xs c (l ++ r) j ↔ e ∈ xs j) := by
    intro e j hed
    by_cases hj : j = c
    · subst hj
      rw [update_self, hc]
      simp [hed]
    · rw [update_of_ne hj]
  have hout : ∀ j, d ∉ update xs c (l ++ r) j := by
    intro j hj
    by_cases hjc : j = c
    · subst hjc
      rw [update_self] at hj
      exact hnd.1 hj
    · rw [update_of_ne hjc] at hj
      exact hjc (h.mem_unique hj hin)
  refine ⟨h.lists.remove hc, fun e j => ?_, fun e j he => ?_⟩
  · by_cases hed : e = d
    · subst hed
      simp [Dpcs.takeOff, hout j]
    · rw [show (Dpcs.takeOff s c d).dpc e = s.dpc e from update_of_ne hed _ _,
        h.cpu, hmem e j hed]
  · have hed : e ≠ d := fun hed => hout j (hed ▸ he)
    rw [show (Dpcs.takeOff s c d).dpc e = s.dpc e from update_of_ne hed _ _]
    exact h.handler e j ((hmem e j hed).mp he)

theorem Queues.freeDPC_eq (h : Queues s xs) (hd : d ∈ xs c) :
    freeDPC s d = (Dpcs.takeOff s c d, .success) := by
  have hcpu := (h.cpu d c).mpr hd
  have hlinked := h.lists.isNodeUnlinked_eq hd
  rw [freeDPC, if_neg (h.lists.ne_zero hd), if_neg (by simp [h.handler d c hd]), hcpu]
  simp [hlinked]

/-- A DPC that is on no queue is not freed. -/
theorem Queues.freeDPC_of_notMem (h : Queues s xs) (hd : ∀ c, d ∉ xs c) :
    (freeDPC s d).1 = s ∧ (freeDPC s d).2 ≠ .success := by
  have hcpu : (s.dpc d).cpu = none := by
    rw [Option.eq_none_iff_forall_ne_some]
    exact fun c hc => hd c ((h.cpu d c).mp hc)
  rw [freeDPC, hcpu]
  split
  · exact ⟨rfl, by nofun⟩
  · split <;> exact ⟨rfl, by nofun⟩

/-! ### What a handler can do to the rest of the queue -/

/-- A call that leaves the DPC `next`, behind the one whose handler makes it, in its
place, and does not write through a null pointer. -/
def ActOk (next : ℕ) (s : State) : Act → Prop
  | .enqueue d affinity =>
    d = 0 ∨ (s.dpc d).cpu.isSome = true ∨ (selectTarget s affinity).isSome = true
  | .free d => d = 0 ∨ d ≠ next

instance (next : ℕ) (s : State) : ∀ a, Decidable (ActOk next s a)
  | .enqueue d _ => inferInstanceAs (Decidable (d = 0 ∨ _))
  | .free d => inferInstanceAs (Decidable (d = 0 ∨ _))

def actStep (s : State) (a : Act) : Option State := (act s a).map Prod.fst

/-- From `r` to `r'`, the part of the queue that is still to be run loses only DPCs that
were freed, and not the first. -/
structure Keeps (r r' : List ℕ) (es : List Event) : Prop where
  head : r'.headD 0 = r.headD 0
  sub : r'.Sublist r
  freed : ∀ d ∈ r, d ∉ r' → Event.free d ∈ es
  gone : ∀ d, Event.free d ∈ es → d ∉ r'
  noCall : ∀ d, Event.call d ∉ es

theorem Keeps.refl (r : List ℕ) : Keeps r r [] :=
  ⟨rfl, List.Sublist.refl r, fun _ h h' => absurd h h', by simp, by simp⟩

theorem Keeps.trans {r r' r'' : List ℕ} {es es' : List Event} (h : Keeps r r' es)
    (h' : Keeps r' r'' es') : Keeps r r'' (es ++ es') where
  head := h'.head.trans h.head
  sub := h'.sub.trans h.sub
  freed := by
    intro d hd hd''
    by_cases hd' : d ∈ r'
    · exact mem_append_right _ (h'.freed d hd' hd'')
    · exact mem_append_left _ (h.freed d hd hd')
  gone := by
    intro d hd hd''
    rcases mem_append.mp hd with hd | hd
    · exact h.gone d hd (h'.sub.subset hd'')
    · exact h'.gone d hd hd''
  noCall := by
    intro d hd
    rcases mem_append.mp hd with hd | hd
    · exact h.noCall d hd
    · exact h'.noCall d hd

/-- Free one DPC that is not the first of `r`. -/
theorem keeps_erase {r₁ r₂ : List ℕ} (hr : r₁ ≠ []) (hd : d ∉ r₁ ++ r₂) :
    Keeps (r₁ ++ d :: r₂) (r₁ ++ r₂) [.free d] where
  head := by
    cases r₁ with
    | nil => exact absurd rfl hr
    | cons x r₁ => rfl
  sub := (List.Sublist.refl r₁).append (sublist_cons_self d r₂)
  freed := by
    intro e he he'
    have hed : e = d := by
      by_contra hne
      exact he' (by simpa [hne] using he)
    simp [hed]
  gone := by
    intro e he
    obtain rfl : e = d := by simpa using he
    exact hd
  noCall := by simp

/-- The state between two calls of a handler: the queues are consistent, and `r` is the
rest of the queue of processor `c`. -/
def Waiting (s : State) (c : ℕ) (r : List ℕ) : Prop :=
  ∃ xs l, Queues s xs ∧ xs c = l ++ r

theorem Waiting.free {l r : List ℕ} (h : Queues s xs) (hc : xs c = l ++ r)
    (hd : d ≠ r.headD 0) (hmem : d ∈ xs c) :
    ∃ r', Waiting (Dpcs.takeOff s c d) c r' ∧ Keeps r r' [.free d] := by
  have hnd : (xs c).Nodup := (h.lists.isLists.isList c).nodup
  rw [hc] at hnd
  rw [hc, mem_append] at hmem
  rcases hmem with hl | hr
  · obtain ⟨a, b, rfl⟩ := append_of_mem hl
    have hdr : d ∉ r := fun hr =>
      (nodup_append.mp hnd).2.2 d hl d hr rfl
    refine ⟨r, ⟨_, a ++ b, h.takeOff (l := a) (r := b ++ r) (by simp [hc]), by simp⟩, ?_⟩
    exact ⟨rfl, List.Sublist.refl r, fun _ h h' => absurd h h', fun e he => by
      obtain rfl : e = d := by simpa using he
      exact hdr, by simp⟩
  · obtain ⟨a, b, rfl⟩ := append_of_mem hr
    have ha : a ≠ [] := by
      rintro rfl
      exact hd rfl
    have hdab : d ∉ a ++ b := by
      have hnd' := (nodup_append.mp hnd).2.1
      rw [nodup_middle, nodup_cons] at hnd'
      exact hnd'.1
    exact ⟨a ++ b, ⟨_, l, h.takeOff (l := l ++ a) (r := b) (by simp [hc]), by simp⟩,
      keeps_erase ha hdab⟩

/-- One call that is allowed. -/
theorem Waiting.act {r : List ℕ} {a : Act} (h : Waiting s c r) (ha : ActOk (r.headD 0) s a) :
    ∃ s' es r', Dpcs.act s a = some (s', es) ∧ Waiting s' c r' ∧ Keeps r r' es := by
  obtain ⟨xs, l, h, hc⟩ := h
  have hsame : Waiting s c r := ⟨xs, l, h, hc⟩
  cases a with
  | enqueue d affinity =>
    rw [Dpcs.act, initializeDPC]
    split
    · exact ⟨s, [], r, rfl, hsame, Keeps.refl r⟩
    next hd =>
    split
    · exact ⟨s, [], r, rfl, hsame, Keeps.refl r⟩
    next hcpu =>
    have hsome : (selectTarget s affinity).isSome = true := by
      rcases ha with h0 | h1 | h2
      · exact absurd h0 hd
      · exact absurd h1 hcpu
      · exact h2
    obtain ⟨t, ht⟩ := Option.isSome_iff_exists.mp hsome
    rw [ht]
    have hq := h.putOn hd (by simpa using hcpu) t
    refine ⟨_, [], r, rfl, ⟨_, if t = c then d :: l else l, hq, ?_⟩, Keeps.refl r⟩
    -- the DPC is put in front of what this processor has still to run
    by_cases htc : t = c
    · subst htc
      rw [update_self, if_pos rfl, hc, cons_append]
    · rw [update_of_ne (Ne.symm htc), if_neg htc, hc]
  | free d =>
    rw [Dpcs.act]
    by_cases hin : ∃ j, d ∈ xs j
    · obtain ⟨j, hj⟩ := hin
      have hne : d ≠ r.headD 0 := ha.resolve_left (h.lists.ne_zero hj)
      simp only [h.freeDPC_eq hj, if_true]
      by_cases hjc : j = c
      · subst hjc
        obtain ⟨r', hw, hk⟩ := Waiting.free h hc hne hj
        exact ⟨_, _, r', rfl, hw, hk⟩
      · obtain ⟨a, b, hab⟩ := append_of_mem hj
        refine ⟨_, _, r, rfl, ⟨_, l, h.takeOff hab, ?_⟩, ?_⟩
        · rw [update_of_ne (Ne.symm hjc), hc]
        · refine ⟨rfl, List.Sublist.refl r, fun _ h h' => absurd h h', fun e he hr => ?_, by simp⟩
          obtain rfl : e = d := by simpa using he
          exact hjc (h.mem_unique hj (hc ▸ mem_append_right _ hr))
    · obtain ⟨hst, hstatus⟩ := h.freeDPC_of_notMem (not_exists.mp hin)
      simp only [hst, if_neg hstatus]
      exact ⟨s, [], r, rfl, hsame, Keeps.refl r⟩

/-- A handler all of whose calls are allowed. -/
theorem Waiting.runHandler {r : List ℕ} {acts : List Act} (h : Waiting s c r)
    (ha : Run.Meets (ActOk (r.headD 0)) actStep s acts) :
    ∃ s' es r', Dpcs.runHandler s acts = some (s', es) ∧ Waiting s' c r' ∧ Keeps r r' es := by
  induction acts generalizing s r with
  | nil => exact ⟨s, [], r, rfl, h, Keeps.refl r⟩
  | cons a acts ih =>
    obtain ⟨s1, es1, r1, hact, h1, hk1⟩ := h.act ha.1
    have hrest := ha.2 s1 (by rw [actStep, hact]; rfl)
    rw [← hk1.head] at hrest
    obtain ⟨s2, es2, r2, hrun, h2, hk2⟩ := ih h1 hrest
    refine ⟨s2, es1 ++ es2, r2, ?_, h2, hk1.trans hk2⟩
    rw [Dpcs.runHandler, hact, Option.bind_some, hrun]
    rfl

/-- A handler that runs to its end although some call was not allowed has freed the DPC
behind its own. -/
theorem Waiting.free_mem_of_not_meets {r : List ℕ} {acts : List Act} {es : List Event}
    (h : Waiting s c r) (ha : ¬ Run.Meets (ActOk (r.headD 0)) actStep s acts)
    (hrun : Dpcs.runHandler s acts = some (s', es)) :
    r.headD 0 ≠ 0 ∧ Event.free (r.headD 0) ∈ es := by
  induction acts generalizing s r es with
  | nil => exact absurd trivial ha
  | cons a acts ih =>
    rw [Dpcs.runHandler] at hrun
    obtain ⟨⟨s1, es1⟩, hact, hmap⟩ := Option.bind_eq_some_iff.mp hrun
    obtain ⟨⟨s2, es2⟩, hrest, heq⟩ := Option.map_eq_some_iff.mp hmap
    obtain ⟨rfl, rfl⟩ : s2 = s' ∧ es1 ++ es2 = es := by simpa using heq
    by_cases hok : ActOk (r.headD 0) s a
    · obtain ⟨t1, ft1, r1, hact', h1, hk1⟩ := h.act hok
      obtain ⟨rfl, rfl⟩ : t1 = s1 ∧ ft1 = es1 := by simpa [hact'] using hact
      have hlater : ¬ Run.Meets (ActOk (r1.headD 0)) actStep t1 acts := by
        intro hm
        rw [hk1.head] at hm
        refine ha ⟨hok, fun u hu => ?_⟩
        rw [actStep, hact', Option.map_some, Option.some.injEq] at hu
        exact hu ▸ hm
      obtain ⟨hne, hfree⟩ := ih h1 hlater hrest
      rw [hk1.head] at hne hfree
      exact ⟨hne, mem_append_right _ hfree⟩
    · obtain ⟨xs, l, h, hc⟩ := h
      cases a with
      | enqueue d affinity =>
        -- without a target the call has no result
        simp only [ActOk, not_or, Bool.not_eq_true, Option.isSome_eq_false_iff,
          Option.isNone_iff_eq_none] at hok
        rw [Dpcs.act, initializeDPC, if_neg hok.1, hok.2.1, hok.2.2] at hact
        simp at hact
      | free d =>
        simp only [ActOk, not_or, not_not] at hok
        obtain ⟨hd, rfl⟩ := hok
        have hmem : r.headD 0 ∈ xs c := by
          rw [hc]
          refine mem_append_right _ (DLinked.headD_mem ?_ 0)
          rintro rfl
          exact hd rfl
        rw [Dpcs.act, h.freeDPC_eq hmem] at hact
        obtain ⟨-, rfl⟩ : _ ∧ [Event.free (r.headD 0)] = es1 := by simpa using hact
        exact ⟨hd, mem_append_left _ mem_cons_self⟩

/-! ### The dispatch loop -/

/-- No handler that the loop calls frees the DPC behind its own, and every DPC that it
enqueues finds a processor. -/
def HandlersOk (c : ℕ) (handlers : ℕ → List Act) : ℕ → ℕ → ℕ → State → Prop
  | 0, _, _, _ => True
  | fuel + 1, k, cur, s =>
    cur = 0 ∨ (Run.Meets (ActOk (s.links.next cur)) actStep (takeOff s c cur) (handlers k) ∧
      ∀ r ∈ runHandler (takeOff s c cur) (handlers k),
        HandlersOk c handlers fuel (k + 1) (s.links.next cur) r.1)

instance decidableHandlersOk (c : ℕ) (handlers : ℕ → List Act) :
    ∀ fuel k cur s, Decidable (HandlersOk c handlers fuel k cur s)
  | 0, _, _, _ => isTrue trivial
  | fuel + 1, k, cur, s =>
    have : ∀ r : State × List Event,
        Decidable (HandlersOk c handlers fuel (k + 1) (s.links.next cur) r.1) :=
      fun r => decidableHandlersOk c handlers fuel (k + 1) (s.links.next cur) r.1
    inferInstanceAs (Decidable (cur = 0 ∨ (_ ∧ ∀ r ∈ runHandler _ _, _)))

/-- No handler is called behind a free of its DPC. -/
def NotAfterFree (log : List Event) : Prop :=
  log.Pairwise fun e f => ∀ d, e = Event.free d → f ≠ Event.call d

/-- What a dispatch of the DPCs `queued` shall do. -/
structure Dispatched (queued : List ℕ) (s : State) (log : List Event) : Prop where
  once : ∀ d ∈ queued, Event.free d ∉ log → log.count (.call d) = 1
  notAfterFree : NotAfterFree log
  consistent : ∃ xs, Queues s xs

/-- The log of a round, put in front of the log of the later rounds. -/
theorem notAfterFree_round {r r' : List ℕ} {es log : List Event} (cur : ℕ) (hk : Keeps r r' es)
    (hcount : ∀ d, log.count (.call d) ≤ r'.count d) (hlog : NotAfterFree log) :
    NotAfterFree (.call cur :: (es ++ log)) := by
  refine pairwise_cons.mpr ⟨fun e _ d he => (by cases he), ?_⟩
  refine pairwise_append.mpr ⟨?_, hlog, ?_⟩
  · refine pairwise_of_forall_mem_list fun e _ f hf d _ hcall => ?_
    exact hk.noCall d (hcall ▸ hf)
  · rintro e he f hf d rfl rfl
    have hpos : 0 < log.count (.call d) := count_pos_iff.mpr hf
    exact hk.gone d he (count_pos_iff.mp (hpos.trans_le (hcount d)))

/-- A round of the loop: the handler is called with the rest of the queue waiting. -/
theorem Waiting.round {cur : ℕ} {r : List ℕ} (h : Waiting s c (cur :: r)) :
    cur ≠ 0 ∧ (s.dpc cur).handler = true ∧ s.links.next cur = r.headD 0 ∧
      Waiting (Dpcs.takeOff s c cur) c r := by
  obtain ⟨xs, l, hq, hc⟩ := h
  have hin : cur ∈ xs c := hc ▸ mem_append_right _ mem_cons_self
  exact ⟨hq.lists.ne_zero hin, hq.handler cur c hin, hq.lists.next_eq hc,
    _, l, hq.takeOff hc, update_self ..⟩

/-- The loop with `r` left to run, when all handlers keep to the condition. -/
theorem dispatchFrom_ok {handlers : ℕ → List Act} {fuel k : ℕ} {r : List ℕ}
    (h : Waiting s c r) (hf : r.length < fuel)
    (hok : HandlersOk c handlers fuel k (r.headD 0) s) :
    ∃ s' log, dispatchFrom c handlers fuel k (r.headD 0) s = some (s', log) ∧
      (∃ xs, Queues s' xs) ∧ (∀ d, log.count (.call d) ≤ r.count d) ∧
      (∀ d ∈ r, Event.free d ∉ log → Event.call d ∈ log) ∧ NotAfterFree log := by
  induction fuel generalizing s r k with
  | zero => exact absurd hf (Nat.not_lt_zero _)
  | succ fuel ih =>
    cases r with
    | nil =>
      obtain ⟨xs, l, hq, -⟩ := h
      exact ⟨s, [], rfl, ⟨xs, hq⟩, by simp, by simp, List.Pairwise.nil⟩
    | cons cur r =>
      obtain ⟨hcur, hhandler, hnext, hw⟩ := h.round
      rw [headD_cons, HandlersOk, hnext] at hok
      obtain ⟨hmeets, hlater⟩ := hok.resolve_left hcur
      obtain ⟨s1, es, r1, hrun, hw1, hk⟩ := hw.runHandler hmeets
      have hlater1 := hlater (s1, es) hrun
      rw [← hk.head] at hlater1
      have hlen : r1.length < fuel :=
        hk.sub.length_le.trans_lt (Nat.lt_of_succ_lt_succ hf)
      obtain ⟨s2, log, hdisp, hcons, hcount, hall, hnaf⟩ := ih hw1 hlen hlater1
      refine ⟨s2, .call cur :: (es ++ log), ?_, hcons, fun d => ?_, fun d hd hfree => ?_,
        notAfterFree_round cur hk hcount hnaf⟩
      · rw [headD_cons, dispatchFrom, if_neg hcur, if_neg (by simp [hhandler]),
          hrun, Option.bind_some, hnext, ← hk.head, hdisp]
        rfl
      · have hes : es.count (.call d) = 0 := count_eq_zero.mpr (hk.noCall d)
        have hsub : r1.count d ≤ r.count d := hk.sub.count_le d
        have hle := hcount d
        simp only [count_cons, count_append, hes, beq_iff_eq, Event.call.injEq]
        omega
      · simp only [mem_cons, mem_append, reduceCtorEq, false_or, not_or] at hfree
        rcases mem_cons.mp hd with rfl | hd
        · exact mem_cons_self
        · by_cases hd1 : d ∈ r1
          · exact mem_cons_of_mem _ (mem_append_right _ (hall d hd1 hfree.2))
          · exact absurd (hk.freed d hd hd1) hfree.1

/-- A loop that comes to its end although some handler did not keep to the condition has
called a handler after its DPC was freed. -/
theorem dispatchFrom_not_ok {handlers : ℕ → List Act} {fuel k : ℕ} {r : List ℕ}
    {log : List Event} (h : Waiting s c r)
    (hok : ¬ HandlersOk c handlers fuel k (r.headD 0) s)
    (hrun : dispatchFrom c handlers fuel k (r.headD 0) s = some (s', log)) :
    ¬ NotAfterFree log := by
  induction fuel generalizing s r k log with
  | zero => exact absurd trivial hok
  | succ fuel ih =>
    cases r with
    | nil => exact absurd (Or.inl rfl) hok
    | cons cur r =>
      obtain ⟨hcur, hhandler, hnext, hw⟩ := h.round
      rw [headD_cons, HandlersOk, hnext] at hok
      rw [headD_cons, dispatchFrom, if_neg hcur, if_neg (by simp [hhandler]),
        hnext] at hrun
      obtain ⟨⟨s1, es⟩, hcalls, hmap⟩ := Option.bind_eq_some_iff.mp hrun
      obtain ⟨⟨s2, log'⟩, hdisp, heq⟩ := Option.map_eq_some_iff.mp hmap
      obtain ⟨rfl, rfl⟩ : s2 = s' ∧ .call cur :: (es ++ log') = log := by simpa using heq
      intro hnaf
      have hnaf' := pairwise_append.mp (pairwise_cons.mp hnaf).2
      by_cases hmeets : Run.Meets (ActOk (r.headD 0)) actStep (Dpcs.takeOff s c cur) (handlers k)
      · obtain ⟨t1, et, r1, hrun', hw1, hk⟩ := hw.runHandler hmeets
        obtain ⟨rfl, rfl⟩ : t1 = s1 ∧ et = es := by simpa [hrun'] using hcalls
        rw [← hk.head] at hdisp
        refine ih hw1 (fun hlater => hok (Or.inr ⟨hmeets, ?_⟩)) hdisp hnaf'.2.1
        intro q hq
        obtain rfl : (t1, et) = q := Option.some.inj (hcalls.symm.trans hq)
        rw [← hk.head]
        exact hlater
      · -- the next round calls the DPC that was freed
        obtain ⟨hne, hfree⟩ := hw.free_mem_of_not_meets hmeets hcalls
        have hcall : Event.call (r.headD 0) ∈ log' := by
          cases fuel with
          | zero => cases hdisp
          | succ fuel =>
            rw [dispatchFrom, if_neg hne] at hdisp
            split at hdisp
            · cases hdisp
            · obtain ⟨q, -, hdisp⟩ := Option.bind_eq_some_iff.mp hdisp
              obtain ⟨q', -, heq'⟩ := Option.map_eq_some_iff.mp hdisp
              obtain ⟨-, rfl⟩ := Prod.mk.inj heq'
              exact mem_cons_self
        exact hnaf'.2.2 _ hfree _ hcall _ rfl rfl

/-- For every consistent state of the queues and all handlers, the dispatch on processor
`c` does what it shall exactly when no handler frees the DPC behind its own and every DPC
that a handler enqueues finds a processor. -/
theorem dispatch_iff {handlers : ℕ → List Act} {fuel : ℕ} (h : Queues s xs)
    (hf : (xs c).length < fuel) :
    (∃ s' log, dispatchDPCs c handlers fuel s = some (s', log) ∧ Dispatched (xs c) s' log) ↔
      HandlersOk c handlers fuel 0 (s.queue c).head s := by
  have hw : Waiting s c (xs c) := ⟨xs, [], h, rfl⟩
  rw [dispatchDPCs, h.lists.head_eq c]
  constructor
  · rintro ⟨s', log, hrun, hdisp⟩
    by_contra hok
    exact dispatchFrom_not_ok hw hok hrun hdisp.notAfterFree
  · intro hok
    obtain ⟨s', log, hrun, hcons, hcount, hall, hnaf⟩ := dispatchFrom_ok hw hf hok
    refine ⟨s', log, hrun, fun d hd hfree => ?_, hnaf, hcons⟩
    have hone : (xs c).count d = 1 :=
      count_eq_one_of_mem (h.lists.isLists.isList c).nodup hd
    have hle := hcount d
    have hpos : 0 < log.count (.call d) := count_pos_iff.mpr (hall d hd hfree)
    omega

/-! ### One processor with two queued DPCs -/

/-- One processor with an empty queue. -/
def quiet : State where
  cpuCount := 1
  cpuId i := i
  defaultAffinity := 1
  queue _ := ⟨0, 0, 0⟩
  links := ⟨fun _ => 0, fun _ => 0⟩
  dpc _ := ⟨false, none⟩

theorem quiet_queues : Queues quiet fun _ => [] where
  lists := ⟨⟨fun _ => DLinked.IsList.nil _ _ _, by simp⟩, fun _ => rfl⟩
  cpu := by simp [quiet]
  handler := by simp

/-- The DPCs 1 and 2 are queued. -/
def twoQueued : State := putOn (putOn quiet 0 2) 0 1

/-- The DPCs on each queue of `twoQueued`. -/
def twoQueues : ℕ → List ℕ :=
  update (update (fun _ => []) 0 [2]) 0 [1, 2]

theorem twoQueued_queues : Queues twoQueued twoQueues :=
  (quiet_queues.putOn (by decide) rfl 0).putOn (by decide) (by decide) 0

/-- The first handler enqueues its own DPC and a third one, and frees the third. -/
def politeHandlers : ℕ → List Act
  | 0 => [.enqueue 1 1, .enqueue 3 1, .free 3]
  | _ => []

theorem dispatch_iff_politeHandlers :
    Queues twoQueued twoQueues ∧ (twoQueues 0).length < 3 ∧
      ∃ s' log, dispatchDPCs 0 politeHandlers 3 twoQueued = some (s', log) ∧
        Dispatched (twoQueues 0) s' log :=
  ⟨twoQueued_queues, by decide,
    (dispatch_iff twoQueued_queues (by decide)).mpr (by decide +kernel)⟩

/-- The first handler frees the second DPC. -/
def freeingHandlers : ℕ → List Act
  | 0 => [.free 2]
  | _ => []

/-- The second DPC is called after it was freed, and the count of the queue has wrapped. -/
theorem freed_dpc_is_called :
    ∃ s' log, dispatchDPCs 0 freeingHandlers 3 twoQueued = some (s', log) ∧
      log = [.call 1, .free 2, .call 2] ∧ (s'.queue 0).nNodes = 2 ^ 64 - 1 ∧
      ¬ Dispatched (twoQueues 0) s' log := by
  have hrun : ((dispatchDPCs 0 freeingHandlers 3 twoQueued).map fun r =>
      (r.2, (r.1.queue 0).nNodes)) = some ([.call 1, .free 2, .call 2], 2 ^ 64 - 1) := by
    decide +kernel
  obtain ⟨⟨s', log⟩, hs, heq⟩ := Option.map_eq_some_iff.mp hrun
  obtain ⟨rfl, hn⟩ := Prod.mk.inj heq
  refine ⟨s', _, hs, rfl, hn, fun h => ?_⟩
  have hlater := (pairwise_cons.mp (pairwise_cons.mp h.notAfterFree).2).1
  exact hlater (.call 2) mem_cons_self 2 rfl rfl

end Obos.Dpcs
