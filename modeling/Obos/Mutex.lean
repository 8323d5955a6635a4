/-
The kernel mutex (`locks/mutex.c`, `locks/wait.c`) under every interleaving.

Each thread has a program counter `Pc` with one place for every access to the
mutex that other threads can see; `step` lets one thread make one such access.
The wait on the mutex's header is the list `waiting`: a blocked thread goes on
once it was taken off the list by `CoreH_SignalWaitingThreads`.

Behind the wait the code tests and sets the flag once and takes the mutex
whatever the flag was, because `success` is still false in
`while (test_and_set(&mut->lock) && success)`.

* `mutual_exclusion` — one owner at a time in every run in which a woken thread
  finds the flag clear or set by itself,
* `two_owners` — a run of three threads with two owners,
* `mutex_visible` — what the calls show when none is in progress, in every run in which
  each release hands the mutex over,
* `freed_looks_acquired` — `Core_MutexRelease` leaves `locked` set.

`setter` is a history variable: the thread whose test-and-set last found the
flag clear.  No step reads it.
-/
import Obos.Lib.Run
import Obos.Machine

namespace Obos.Locks

variable {T : Type*}

/-- `mutex`, with the list of waiting threads of its header. -/
structure Mutex (T : Type*) where
  lock : Bool
  locked : Bool
  ignoreAllAndBlowUp : Bool
  who : Option T
  waiting : List T

/-- Where a thread is.  `held` tells a release by the owner from one by a
thread that does not own the mutex. -/
inductive Pc where
  | idle
  | tryAcquire
  | testAndSet (spin : ℤ) (success : Bool)
  | spinning (spin : ℤ) (success : Bool)
  | spun (success : Bool)
  | setWho
  | setLocked
  | waitOnObject (success : Bool)
  | blocked (success : Bool)
  | woken (success : Bool)
  | retest (success : Bool)
  | setWhoWoken
  | holding
  | releaseLocked (held : Bool)
  | releaseWho (held : Bool)
  | clearWho (held : Bool)
  | clearLock (held : Bool)
  | signal
  deriving DecidableEq, Repr

structure State (T : Type*) where
  mutex : Mutex T
  pc : T → Pc
  setter : Option T

/-- `MUTEX_INITIALIZE()`, with every thread outside. -/
def State.init : State T where
  mutex := ⟨false, false, false, none, []⟩
  pc _ := .idle
  setter := none

namespace State

variable [DecidableEq T]

def goto (s : State T) (t : T) (pc : Pc) : State T := { s with pc := Function.update s.pc t pc }

/-- `atomic_flag_test_and_set`; its result is the flag before it. -/
def testAndSet (s : State T) (t : T) : State T :=
  { s with
    mutex := { s.mutex with lock := true }
    setter := if s.mutex.lock then s.setter else some t }

end State

inductive Action (T : Type*) where
  | acquire (t : T)
  | tryAcquire (t : T)
  | release (t : T)
  /-- `t` makes its next access. -/
  | run (t : T)
  /-- The owner of the object sets `ignoreAllAndBlowUp`. -/
  | blowUp

/-- The next access of `t`. -/
def runThread [DecidableEq T] (s : State T) (t : T) : State T :=
  match s.pc t with
  | .idle => s
  | .holding => s
  | .tryAcquire =>
    if s.mutex.locked then s.goto t .idle else s.goto t (.testAndSet 100000 true)
  | .testAndSet spin success =>
    (s.testAndSet t).goto t (if s.mutex.lock && success then .spinning spin success else .spun success)
  | .spinning spin success =>
    if s.mutex.ignoreAllAndBlowUp then s.goto t .idle
    else s.goto t (.testAndSet (spin - 1) (if 0 ≤ spin then false else success))
  | .spun success =>
    if s.mutex.ignoreAllAndBlowUp then s.goto t .idle
    else if success then s.goto t .setWho
    else s.goto t (.waitOnObject success)
  | .setWho => { s with mutex := { s.mutex with who := some t } }.goto t .setLocked
  | .setLocked => { s with mutex := { s.mutex with locked := true } }.goto t .holding
  | .waitOnObject success =>
    { s with mutex := { s.mutex with waiting := s.mutex.waiting ++ [t] } }.goto t (.blocked success)
  | .blocked success => if t ∈ s.mutex.waiting then s else s.goto t (.woken success)
  | .woken success =>
    if s.mutex.ignoreAllAndBlowUp then s.goto t .idle else s.goto t (.retest success)
  | .retest success =>
    (s.testAndSet t).goto t (if s.mutex.lock && success then .retest success else .setWhoWoken)
  | .setWhoWoken => { s with mutex := { s.mutex with who := some t } }.goto t .holding
  | .releaseLocked held =>
    if s.mutex.locked then s.goto t (.releaseWho held) else s.goto t .idle
  | .releaseWho held =>
    if s.mutex.who = some t then s.goto t (.clearWho held)
    else s.goto t (if held then .holding else .idle)
  | .clearWho held => { s with mutex := { s.mutex with who := none } }.goto t (.clearLock held)
  | .clearLock _ => { s with mutex := { s.mutex with lock := false } }.goto t .signal
  | .signal =>
    { s with mutex := { s.mutex with waiting := s.mutex.waiting.tail } }.goto t .idle

/-- What the call of `t` returns, if its next access is the last one. -/
def returned [DecidableEq T] (s : State T) (t : T) : Option Status :=
  match s.pc t with
  | .tryAcquire => if s.mutex.locked then some .inUse else none
  | .spinning _ _ | .spun _ | .woken _ =>
    if s.mutex.ignoreAllAndBlowUp then some .aborted else none
  | .setLocked | .setWhoWoken | .signal => some .success
  | .releaseLocked _ => if s.mutex.locked then none else some .success
  | .releaseWho _ => if s.mutex.who = some t then none else some .accessDenied
  | _ => none

/-- `Core_MutexAcquire`, `Core_MutexTryAcquire` and `Core_MutexRelease` are
called by threads outside the three functions. -/
def step [DecidableEq T] (s : State T) : Action T → State T
  | .acquire t => if s.pc t = .idle then s.goto t (.testAndSet 100000 true) else s
  | .tryAcquire t => if s.pc t = .idle then s.goto t .tryAcquire else s
  | .release t =>
    if s.pc t = .idle then s.goto t (.releaseLocked false)
    else if s.pc t = .holding then s.goto t (.releaseLocked true)
    else s
  | .run t => runThread s t
  | .blowUp => { s with mutex := { s.mutex with ignoreAllAndBlowUp := true } }

/-- Between a successful acquire and its release. -/
def Pc.Critical : Pc → Prop
  | .holding => True
  | .releaseLocked held | .releaseWho held | .clearWho held | .clearLock held => held = true
  | _ => False

/-- At most one thread is between a successful acquire and its release. -/
def Exclusive (s : State T) : Prop := ∀ t t', (s.pc t).Critical → (s.pc t').Critical → t = t'

/-- A woken thread tests the flag only when it is clear or its own. -/
def clearRetest [DecidableEq T] (s : State T) : Action T → Bool
  | .run t =>
    match s.pc t with
    | .retest _ => !s.mutex.lock || s.setter == some t
    | _ => true
  | _ => true

/-! ### The invariant -/

/-- The flag belongs to the thread. -/
def Pc.Owns : Pc → Prop
  | .setWho | .setLocked | .setWhoWoken | .holding | .clearWho _ | .clearLock _ => True
  | .spun b | .releaseLocked b | .releaseWho b => b = true
  | _ => False

theorem Pc.Critical.owns {pc : Pc} (h : pc.Critical) : pc.Owns := by
  cases pc <;> first | exact h | trivial

/-- The flag is set and was last found clear by `t`. -/
def SetBy (s : State T) (t : T) : Prop := s.mutex.lock = true ∧ s.setter = some t

theorem SetBy.unique {s : State T} {t t' : T} (h : SetBy s t) (h' : SetBy s t') : t = t' :=
  Option.some.inj (h.2.symm.trans h'.2)

/-- Who owns the mutex or is recorded as its owner set the flag. -/
structure Inv (s : State T) : Prop where
  owner : ∀ t, (s.pc t).Owns → SetBy s t
  who : ∀ t, s.mutex.who = some t → SetBy s t
  clearing : ∀ t held, s.pc t = .clearLock held → s.mutex.who = none

theorem Inv.exclusive {s : State T} (h : Inv s) : Exclusive s := by
  intro t t' ht ht'
  exact (h.owner t ht.owns).unique (h.owner t' ht'.owns)

theorem inv_init : Inv (State.init : State T) := by
  refine ⟨?_, ?_, ?_⟩
  · intro t h
    exact h.elim
  · intro t h
    exact absurd h (by simp [State.init])
  · intro t held h
    exact absurd h (by simp [State.init])

section Steps

variable {s : State T} {t : T} {pc : Pc}

/-- Fields that play no part in who owns the flag. -/
theorem Inv.of_same {s' : State T} (h : Inv s) (hpc : s'.pc = s.pc)
    (hlock : s'.mutex.lock = s.mutex.lock) (hset : s'.setter = s.setter)
    (hwho : s'.mutex.who = s.mutex.who) : Inv s' := by
  have hsame : ∀ t, SetBy s t → SetBy s' t := by
    intro t ht
    exact ⟨hlock.trans ht.1, hset.trans ht.2⟩
  refine ⟨?_, ?_, ?_⟩
  · intro t ht
    rw [hpc] at ht
    exact hsame t (h.owner t ht)
  · intro t ht
    rw [hwho] at ht
    exact hsame t (h.who t ht)
  · intro t held ht
    rw [hpc] at ht
    rw [hwho]
    exact h.clearing t held ht

/-- A test-and-set keeps the flag of its owner, and makes one of a clear flag. -/
theorem Inv.testAndSet (h : Inv s) : Inv (s.testAndSet t) := by
  cases hlock : s.mutex.lock with
  | true => exact h.of_same rfl hlock.symm (by simp [State.testAndSet, hlock]) rfl
  | false =>
    -- with the flag clear nobody owns it and nobody is recorded
    have hnone : ∀ t', ¬ SetBy s t' := by
      intro t' ht'
      rw [SetBy, hlock] at ht'
      exact absurd ht'.1 (by decide)
    refine ⟨?_, ?_, ?_⟩
    · intro t' ht'
      exact absurd (h.owner t' ht') (hnone t')
    · intro t' ht'
      exact absurd (h.who t' ht') (hnone t')
    · intro t' held ht'
      exact h.clearing t' held ht'

/-- A test-and-set that finds the flag clear, or the thread's own, owns it. -/
theorem setBy_testAndSet (hfree : s.mutex.lock = false ∨ s.setter = some t) :
    SetBy (s.testAndSet t) t := by
  refine ⟨rfl, ?_⟩
  show (if s.mutex.lock then s.setter else some t) = some t
  obtain hlock | hset := hfree
  · rw [hlock]
    rfl
  · rw [hset, ite_self]

/-- The owner enters itself. -/
theorem Inv.setWho (h : Inv s) (hset : SetBy s t) (hclear : ∀ held, s.pc t ≠ .clearLock held) :
    Inv { s with mutex := { s.mutex with who := some t } } := by
  refine ⟨h.owner, ?_, ?_⟩
  · intro t' ht'
    cases ht'
    exact hset
  · intro t' held ht'
    -- a thread that is about to clear the flag owns it, so it is `t`
    have howns : SetBy s t' := h.owner t' (by rw [ht']; trivial)
    obtain rfl := hset.unique howns
    exact absurd ht' (hclear held)

theorem Inv.clearWho (h : Inv s) : Inv { s with mutex := { s.mutex with who := none } } := by
  refine ⟨h.owner, ?_, fun _ _ _ => rfl⟩
  intro t ht
  cases ht

variable [DecidableEq T]

@[simp] theorem goto_pc_self (s : State T) (t : T) (pc : Pc) : (s.goto t pc).pc t = pc :=
  Function.update_self ..

theorem goto_pc_of_ne (s : State T) {t t' : T} (pc : Pc) (h : t' ≠ t) :
    (s.goto t pc).pc t' = s.pc t' :=
  Function.update_of_ne h ..

/-- A thread that goes on to a place it may own the flag at. -/
theorem Inv.goto (h : Inv s) (hown : pc.Owns → SetBy s t)
    (hclear : ∀ held, pc = .clearLock held → s.mutex.who = none) : Inv (s.goto t pc) := by
  refine ⟨?_, h.who, ?_⟩
  · intro t' ht'
    by_cases he : t' = t
    · subst he
      rw [goto_pc_self] at ht'
      exact hown ht'
    · rw [goto_pc_of_ne s pc he] at ht'
      exact h.owner t' ht'
  · intro t' held ht'
    by_cases he : t' = t
    · subst he
      rw [goto_pc_self] at ht'
      exact hclear held ht'
    · rw [goto_pc_of_ne s pc he] at ht'
      exact h.clearing t' held ht'

/-- Going on to a place where the thread has no part in the flag. -/
theorem Inv.goto_free (h : Inv s) (hown : ¬ pc.Owns) : Inv (s.goto t pc) := by
  refine h.goto (fun ho => absurd ho hown) ?_
  rintro held rfl
  exact absurd trivial hown

/-- Keeping the flag. -/
theorem Inv.goto_owned (h : Inv s) (hset : SetBy s t) (hclear : ∀ held, pc ≠ .clearLock held) :
    Inv (s.goto t pc) :=
  h.goto (fun _ => hset) fun held he => absurd he (hclear held)

omit [DecidableEq T] in
/-- A thread that owns the flag has set it. -/
theorem Inv.setBy (h : Inv s) (hpc : s.pc t = pc) (hown : pc.Owns) : SetBy s t :=
  h.owner t (hpc ▸ hown)

/-- The owner clears the flag and leaves. -/
theorem Inv.clearLock (h : Inv s) {held : Bool} (hpc : s.pc t = .clearLock held) :
    Inv ({ s with mutex := { s.mutex with lock := false } }.goto t .signal) := by
  have hset := h.setBy hpc trivial
  have hwho := h.clearing t held hpc
  refine ⟨?_, ?_, ?_⟩
  · intro t' ht'
    by_cases he : t' = t
    · subst he
      rw [goto_pc_self] at ht'
      exact ht'.elim
    · rw [goto_pc_of_ne _ _ he] at ht'
      exact absurd (hset.unique (h.owner t' ht')).symm he
  · intro t' ht'
    have : s.mutex.who = some t' := ht'
    rw [hwho] at this
    exact absurd this (by simp)
  · intro t' held' _
    exact hwho

end Steps

/-! ### Runs -/

variable [DecidableEq T]

/-- One access of a thread keeps the invariant. -/
theorem Inv.runThread {s : State T} (h : Inv s) (t : T) (hclear : clearRetest s (.run t) = true) :
    Inv (runThread s t) := by
  unfold Locks.runThread
  cases hpc : s.pc t with
  | idle => exact h
  | holding => exact h
  | tryAcquire =>
    simp only
    split
    · exact h.goto_free id
    · exact h.goto_free id
  | testAndSet spin success =>
    refine h.testAndSet.goto ?_ ?_
    · intro hown
      -- the loop is left with `success` only when the flag was clear
      cases hlock : s.mutex.lock with
      | false => exact setBy_testAndSet (Or.inl hlock)
      | true =>
        cases success <;> simp [hlock, Pc.Owns] at hown
    · intro held he
      split at he <;> cases he
  | spinning spin success =>
    simp only
    split
    · exact h.goto_free id
    · exact h.goto_free id
  | spun success =>
    simp only
    split
    · exact h.goto_free id
    · split
      · rename_i hs
        exact h.goto_owned (h.setBy hpc hs) (by simp)
      · exact h.goto_free id
  | setWho =>
    have hset := h.setBy hpc trivial
    exact (h.setWho hset (by simp [hpc])).goto_owned hset (by simp)
  | setLocked =>
    have hset := h.setBy hpc trivial
    have hsame : Inv { s with mutex := { s.mutex with locked := true } } := h.of_same rfl rfl rfl rfl
    exact hsame.goto_owned hset (by simp)
  | waitOnObject success =>
    have hsame : Inv { s with mutex := { s.mutex with waiting := s.mutex.waiting ++ [t] } } :=
      h.of_same rfl rfl rfl rfl
    exact hsame.goto_free id
  | blocked success =>
    simp only
    split
    · exact h
    · exact h.goto_free id
  | woken success =>
    simp only
    split
    · exact h.goto_free id
    · exact h.goto_free id
  | retest success =>
    have hfree : s.mutex.lock = false ∨ s.setter = some t := by
      simpa [clearRetest, hpc] using hclear
    have hset := setBy_testAndSet hfree
    refine h.testAndSet.goto_owned hset ?_
    intro held
    split <;> simp
  | setWhoWoken =>
    have hset := h.setBy hpc trivial
    exact (h.setWho hset (by simp [hpc])).goto_owned hset (by simp)
  | releaseLocked held =>
    simp only
    split
    · refine h.goto (fun hown => ?_) (by simp)
      exact h.setBy hpc hown
    · exact h.goto_free id
  | releaseWho held =>
    simp only
    split
    · rename_i hwho
      exact h.goto_owned (h.who t hwho) (by simp)
    · cases held with
      | false => exact h.goto_free id
      | true =>
        exact h.goto_owned (h.setBy hpc rfl) (by simp)
  | clearWho held =>
    have hset := h.setBy hpc trivial
    exact h.clearWho.goto (fun _ => hset) fun _ _ => rfl
  | clearLock held => exact h.clearLock hpc
  | signal =>
    have hsame : Inv { s with mutex := { s.mutex with waiting := s.mutex.waiting.tail } } :=
      h.of_same rfl rfl rfl rfl
    exact hsame.goto_free id

theorem Inv.step {s : State T} (h : Inv s) (a : Action T) (hclear : clearRetest s a = true) :
    Inv (step s a) := by
  cases a with
  | acquire t =>
    simp only [Locks.step]
    split
    · exact h.goto_free id
    · exact h
  | tryAcquire t =>
    simp only [Locks.step]
    split
    · exact h.goto_free id
    · exact h
  | release t =>
    simp only [Locks.step]
    split
    · exact h.goto_free (by simp [Pc.Owns])
    · split
      · rename_i hpc
        have hset := h.setBy hpc trivial
        exact h.goto_owned hset (by simp)
      · exact h
  | run t => exact h.runThread t hclear
  | blowUp => exact h.of_same rfl rfl rfl rfl

/-- In every run in which woken threads find the flag clear or their own, at
most one thread is between a successful acquire and its release. -/
theorem mutual_exclusion (as : List (Action T))
    (h : Run.Meets (fun s a => clearRetest s a = true) (fun s a => some (step s a)) State.init
      as) :
    ∃ s, as.foldlM (fun s a => some (step s a)) (State.init : State T) = some s ∧ Exclusive s := by
  have hstep : ∀ (s : State T) a, Inv s → clearRetest s a = true →
      ∃ s', some (step s a) = some s' ∧ Inv s' :=
    fun s a hs ha => ⟨_, rfl, hs.step a ha⟩
  obtain ⟨s, hs, hinv⟩ := Run.invariant hstep inv_init h
  exact ⟨s, hs, hinv.exclusive⟩

/-- Thread 0 takes the mutex and thread 1 blocks on it. -/
def oneWaits : List (Action (Fin 3)) :=
  [.acquire 0, .run 0, .run 0, .run 0, .run 0,
    .acquire 1, .run 1, .run 1, .run 1, .run 1, .run 1]

/-- Thread 0 releases and thread 1 gets the mutex. -/
def handOver : List (Action (Fin 3)) :=
  oneWaits ++ [.release 0, .run 0, .run 0, .run 0, .run 0, .run 0,
    .run 1, .run 1, .run 1, .run 1]

theorem mutual_exclusion_handOver :
    ∃ s, handOver.foldlM (fun s a => some (step s a)) State.init = some s ∧ Exclusive s :=
  mutual_exclusion handOver (by decide +kernel)

/-- Thread 2 takes the mutex between the release and the wake-up. -/
def stolen : List (Action (Fin 3)) :=
  oneWaits ++ [.release 0, .run 0, .run 0, .run 0, .run 0,
    .acquire 2, .run 2, .run 2, .run 2, .run 2,
    .run 0, .run 1, .run 1, .run 1, .run 1]

/-- Thread 1 takes the mutex that thread 2 holds. -/
theorem two_owners :
    ∃ s, stolen.foldlM (fun s a => some (step s a)) State.init = some s ∧
      (s.pc 1 = .holding ∧ s.pc 2 = .holding) ∧ ¬ Exclusive s := by
  have hrun : (stolen.foldlM (fun s a => some (step s a)) State.init).map
      (fun s => (s.pc 1, s.pc 2)) = some (Pc.holding, Pc.holding) := by decide +kernel
  obtain ⟨s, hs, hpc⟩ := Option.map_eq_some_iff.mp hrun
  obtain ⟨h1, h2⟩ := Prod.mk.inj hpc
  refine ⟨s, hs, ⟨h1, h2⟩, ?_⟩
  intro hexcl
  have heq : (1 : Fin 3) = 2 := hexcl 1 2 (by rw [h1]; trivial) (by rw [h2]; trivial)
  cases heq

/-! ### The visible state -/

section

variable (s : State T)

/-- No call is in progress. -/
def Quiet : Prop := ∀ t, s.pc t = .idle ∨ s.pc t = .holding

/-- The call that `a` begins and `n` accesses of its thread, with no other thread between. -/
def alone (a : Action T) (t : T) (n : ℕ) : State T :=
  (List.replicate n (Action.run t)).foldl step (step s a)

/-- What `Core_MutexAcquired`, `Core_MutexTryAcquire` and `Core_MutexRelease` tell of a
mutex on which no call is in progress. -/
structure Visible (s : State T) : Prop where
  acquired : s.mutex.locked = true ↔ ∃ t, s.pc t = .holding
  tryFree : (∀ t, s.pc t ≠ .holding) → ∀ t, (alone s (.tryAcquire t) t 5).pc t = .holding ∧
    returned (alone s (.tryAcquire t) t 4) t = some .success
  tryHeld : ∀ t u, s.pc u = .holding → s.pc t = .idle → alone s (.tryAcquire t) t 1 = s ∧
    returned (alone s (.tryAcquire t) t 0) t = some .inUse
  release : ∀ t, s.pc t = .holding → (alone s (.release t) t 5).pc t = .idle ∧
    (alone s (.release t) t 5).mutex.lock = false ∧ (alone s (.release t) t 5).mutex.who = none ∧
    returned (alone s (.release t) t 4) t = some .success

/-- A release finds a thread that waits, to which it hands the mutex over, and a woken
thread finds the flag clear or its own. -/
def handsOver : Action T → Bool
  | .run t =>
    match s.pc t with
    | .retest _ => !s.mutex.lock || s.setter == some t
    | .clearLock _ => !s.mutex.waiting.isEmpty
    | _ => true
  | .blowUp => false
  | _ => true

/-- The places of a thread that set the flag and has not cleared it. -/
def Pc.Keeps : Pc → Prop
  | .spun _ | .setWho | .setLocked | .waitOnObject _ | .blocked _ | .woken _ | .retest _
  | .setWhoWoken | .holding | .clearWho _ | .clearLock _ => True
  | .releaseLocked b | .releaseWho b => b = true
  | _ => False

/-- The places behind a test or a store of `locked`. -/
def Pc.Seen : Pc → Prop
  | .woken _ | .retest _ | .setWhoWoken | .holding | .releaseWho _ | .clearWho _ | .clearLock _
  | .signal => True
  | .releaseLocked b => b = true
  | _ => False

/-- The places at which `who` is the thread. -/
def Pc.Recorded : Pc → Prop
  | .setLocked | .holding | .clearWho _ => True
  | .releaseLocked b | .releaseWho b => b = true
  | _ => False

/-- The mutex is on its way to a thread that waited. -/
def Passing (t : T) : Prop :=
  s.pc t = .signal ∧ s.mutex.waiting ≠ [] ∨
    ∃ b, s.pc t = .blocked b ∧ t ∉ s.mutex.waiting ∨ s.pc t = .woken b ∨ s.pc t = .retest b

structure Shown (s : State T) : Prop extends Inv s where
  calm : s.mutex.ignoreAllAndBlowUp = false
  nodup : s.mutex.waiting.Nodup
  waits : ∀ t ∈ s.mutex.waiting, ∃ b, s.pc t = .blocked b
  setter : s.mutex.lock = true → ∃ t, s.setter = some t ∧ (s.pc t).Keeps
  passing : s.mutex.locked = true → s.mutex.lock = true ∨ ∃ t, Passing s t
  seen : ∀ t, (s.pc t).Seen → s.mutex.locked = true
  awake : ∀ t b, s.pc t = .blocked b → t ∉ s.mutex.waiting → s.mutex.locked = true
  recorded : ∀ t, (s.pc t).Recorded → s.mutex.who = some t

@[grind =] theorem goto_pc (t u : T) (pc : Pc) :
    (s.goto t pc).pc u = if u = t then pc else s.pc u := Function.update_apply ..

@[grind =] theorem goto_mutex (t : T) (pc : Pc) : (s.goto t pc).mutex = s.mutex := rfl

@[grind =] theorem goto_setter (t : T) (pc : Pc) : (s.goto t pc).setter = s.setter :=
  rfl

omit [DecidableEq T] in
@[grind =] theorem testAndSet_pc (t u : T) : (s.testAndSet t).pc u = s.pc u := rfl

omit [DecidableEq T] in
@[grind =] theorem testAndSet_setter (t : T) :
    (s.testAndSet t).setter = if s.mutex.lock then s.setter else some t := rfl

omit [DecidableEq T] in
@[grind =] theorem testAndSet_mutex (t : T) :
    (s.testAndSet t).mutex = { s.mutex with lock := true } := rfl

end

@[grind →] theorem Pc.Recorded.owns {pc : Pc} (h : pc.Recorded) : pc.Owns := by
  cases pc <;> first | exact h | trivial

section Steps

variable {s : State T} {t : T} (h : Shown s)

include h

theorem Shown.waits_run : (runThread s t).mutex.waiting.Nodup ∧
    ∀ u ∈ (runThread s t).mutex.waiting, ∃ b, (runThread s t).pc u = .blocked b := by
  have hnodup := h.nodup
  have hwaits := h.waits
  have htail : ∀ u ∈ s.mutex.waiting.tail, u ∈ s.mutex.waiting := fun u => List.mem_of_mem_tail
  have hnd := h.nodup.tail
  fun_cases runThread s t <;> grind [List.nodup_append]

theorem Shown.recorded_run (u : T) :
    ((runThread s t).pc u).Recorded → (runThread s t).mutex.who = some u := by
  have howner := h.owner
  have hrec := h.recorded
  fun_cases runThread s t <;> grind [Pc.Recorded, Pc.Owns, SetBy]

theorem Shown.seen_run (u : T) : (((runThread s t).pc u).Seen ∨
    (∃ b, (runThread s t).pc u = .blocked b) ∧ u ∉ (runThread s t).mutex.waiting) →
      (runThread s t).mutex.locked = true := by
  obtain ⟨-, hcalm, hnodup, hwaits, -, -, hseen, hawake, -⟩ := h
  fun_cases runThread s t <;> grind [Pc.Seen]

theorem Shown.setter_run : (runThread s t).mutex.lock = true →
    ∃ u, (runThread s t).setter = some u ∧ ((runThread s t).pc u).Keeps := by
  obtain ⟨-, hcalm, -, -, hset, -, hseen, -, hrec⟩ := h
  fun_cases runThread s t <;> grind [Pc.Seen, Pc.Keeps, Pc.Recorded]

/-- A signal passes the mutex on to the first thread of the list. -/
theorem Shown.passing_signal (hsig : s.pc t = .signal) (hw : s.mutex.waiting ≠ []) :
    ∃ u, Passing (runThread s t) u := by
  obtain ⟨u, rest, hw⟩ := List.exists_cons_of_ne_nil hw
  have hnodup := h.nodup
  obtain ⟨b, hu⟩ := h.waits u (by rw [hw]; exact List.mem_cons_self)
  refine ⟨u, ?_⟩
  fun_cases runThread s t <;> grind [Passing]

theorem Shown.passing_self (hok : handsOver s (.run t) = true)
    (hsig : ¬ (s.pc t = .signal ∧ s.mutex.waiting ≠ []))
    (hself : s.mutex.locked = true → s.mutex.lock = true ∨ Passing s t) :
    (runThread s t).mutex.locked = true →
      (runThread s t).mutex.lock = true ∨ Passing (runThread s t) t := by
  have howner := h.owner
  have hcalm := h.calm
  rw [handsOver] at hok
  fun_cases runThread s t <;> grind [Passing, SetBy, Pc.Owns]

theorem Shown.passing_run (hok : handsOver s (.run t) = true)
    (hl : (runThread s t).mutex.locked = true) :
    (runThread s t).mutex.lock = true ∨ ∃ u, Passing (runThread s t) u := by
  by_cases hsig : s.pc t = .signal ∧ s.mutex.waiting ≠ []
  · exact .inr (h.passing_signal hsig.1 hsig.2)
  by_cases hother : ∃ u, u ≠ t ∧ Passing s u
  · obtain ⟨u, hne, hu⟩ := hother
    refine .inr ⟨u, ?_⟩
    revert hu
    fun_cases runThread s t <;> grind [Passing, List.append_eq_nil_iff]
  · refine (h.passing_self hok hsig (fun hlocked => ?_) hl).imp_right fun hp => ⟨t, hp⟩
    refine (h.passing hlocked).imp_right fun ⟨u, hu⟩ => ?_
    by_contra hno
    exact hother ⟨u, fun he => hno (he ▸ hu), hu⟩

/-- A call begins, at a place from which nothing passes. -/
theorem Shown.goto {pc : Pc} (hinv : Inv (s.goto t pc))
    (hpc : s.pc t = .idle ∧ ¬ pc.Seen ∧ ¬ pc.Recorded ∧ (∀ b, pc ≠ .blocked b) ∨
      s.pc t = .holding ∧ pc = .releaseLocked true) : Shown (s.goto t pc) := by
  obtain ⟨-, hcalm, hnodup, hwaits, hset, hpass, hseen, hawake, hrec⟩ := h
  refine ⟨hinv, hcalm, hnodup, ?_, ?_, fun hl => (hpass hl).imp_right fun ⟨u, hu⟩ => ⟨u, ?_⟩,
    ?_, ?_, ?_⟩ <;> grind [Pc.Keeps, Pc.Seen, Pc.Recorded, Passing]

theorem Shown.step (a : Action T) (hok : handsOver s a = true) : Shown (step s a) := by
  have hinv := h.toInv.step a (by cases a <;> grind [clearRetest, handsOver])
  cases a with
  | run t =>
    have hcalm : (runThread s t).mutex.ignoreAllAndBlowUp = false := by
      fun_cases runThread s t <;> exact h.calm
    exact ⟨hinv, hcalm, h.waits_run.1, h.waits_run.2, h.setter_run, h.passing_run hok,
      fun u hu => h.seen_run u (.inl hu), fun u b hb hu => h.seen_run u (.inr ⟨⟨b, hb⟩, hu⟩),
      h.recorded_run⟩
  | blowUp => cases hok
  | _ t =>
    simp only [Locks.step] at hinv ⊢
    split_ifs at hinv ⊢ <;>
      first | exact h | exact h.goto hinv (by grind [Pc.Seen, Pc.Recorded])

end Steps

theorem Shown.visible {s : State T} (h : Shown s) (hq : Quiet s) : Visible s := by
  have hlock : s.mutex.lock = true → ∃ t, s.pc t = .holding := by
    intro hl
    obtain ⟨t, -, ht⟩ := h.setter hl
    exact ⟨t, (hq t).resolve_left fun he => by rw [he] at ht; exact ht⟩
  have hacq : s.mutex.locked = true ↔ ∃ t, s.pc t = .holding := by
    constructor
    · intro hl
      refine (h.passing hl).elim hlock fun ⟨t, ht⟩ => ?_
      have hqt := hq t
      grind [Passing]
    · rintro ⟨t, ht⟩
      exact h.seen t (by rw [ht]; trivial)
  have hcalm := h.calm
  refine ⟨hacq, fun hfree t => ?_, fun t u hu ht => ?_, fun t ht => ?_⟩
  · have hpc := (hq t).resolve_right (hfree t)
    have hl : s.mutex.lock = false := by grind
    have hl' : s.mutex.locked = false := by grind
    simp [alone, Locks.step, runThread, returned, hpc, hl, hl', hcalm, State.testAndSet, goto_mutex]
  · have hl := hacq.mpr ⟨u, hu⟩
    have hback : Function.update s.pc t .idle = s.pc := by rw [← ht, Function.update_eq_self]
    simp [alone, Locks.step, runThread, returned, ht, hl, State.goto, hback]
  · have hl := hacq.mpr ⟨t, ht⟩
    have hwho := h.recorded t (by rw [ht]; trivial)
    simp [alone, Locks.step, runThread, returned, ht, hl, hwho, goto_mutex]

omit [DecidableEq T] in
theorem shown_init : Shown (State.init : State T) where
  toInv := inv_init
  calm := rfl
  nodup := .nil
  waits _ h := absurd h List.not_mem_nil
  setter h := by cases h
  passing h := by cases h
  seen _ h := h.elim
  awake _ _ h := by cases h
  recorded _ h := h.elim

/-- In every run in which each release finds a thread that waits, and a woken thread the
flag clear or its own, what the calls show is right whenever none is in progress. -/
theorem mutex_visible (as : List (Action T))
    (h : Run.Meets (fun s a => handsOver s a = true) (fun s a => some (step s a)) State.init as) :
    ∃ s, as.foldlM (fun s a => some (step s a)) (State.init : State T) = some s ∧
      (Quiet s → Visible s) := by
  have hstep : ∀ (s : State T) a, Shown s → handsOver s a = true →
      ∃ s', some (step s a) = some s' ∧ Shown s' :=
    fun s a hs ha => ⟨_, rfl, hs.step a ha⟩
  obtain ⟨s, hs, hshown⟩ := Run.invariant hstep shown_init h
  exact ⟨s, hs, hshown.visible⟩

theorem mutex_visible_handOver :
    ∃ s, handOver.foldlM (fun s a => some (step s a)) State.init = some s ∧
      (Quiet s → Visible s) :=
  mutex_visible handOver (by decide +kernel)

/-- One thread takes the mutex and gives it back. -/
def takenAndFreed : List (Action (Fin 1)) :=
  [.acquire 0, .run 0, .run 0, .run 0, .run 0, .release 0, .run 0, .run 0, .run 0, .run 0, .run 0]

/-- Nobody holds the mutex, `Core_MutexAcquired` says that it is held, and
`Core_MutexTryAcquire` refuses it. -/
theorem freed_looks_acquired :
    ∃ s, takenAndFreed.foldlM (fun s a => some (step s a)) State.init = some s ∧
      s.pc 0 = .idle ∧ s.mutex.lock = false ∧ s.mutex.locked = true ∧
      returned (alone s (.tryAcquire 0) 0 0) 0 = some .inUse := by
  have hrun : (takenAndFreed.foldlM (fun s a => some (step s a)) State.init).map
      (fun s => (s.pc 0, s.mutex.lock, s.mutex.locked,
        returned (alone s (.tryAcquire 0) 0 0) 0)) =
      some (Pc.idle, false, true, some .inUse) := by decide +kernel
  obtain ⟨s, hs, he⟩ := Option.map_eq_some_iff.mp hrun
  simp only [Prod.mk.injEq] at he
  exact ⟨s, hs, he⟩

end Obos.Locks
