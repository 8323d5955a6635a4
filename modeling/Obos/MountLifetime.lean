/-
How long a mount point lives (`vfs/mount.c`).

`VfsH_LockMountpoint` counts its caller in `nWaiting`, asks for the mutex of the mount
and counts the caller out again.  `Vfs_Unmount` sets `awaitingFree` and frees the mount
if nobody is counted; otherwise it makes the mutex return `OBOS_STATUS_ABORTED` to every
waiter, and the last of them frees the mount.

Each thread has a program counter with one place for every access to the mount that
others can see.  What `Core_MutexAcquire` returns, and when, is an action of its own:
it may be any status.

* `counted_and_freed_once` — in every run in which the mutex returns success or
  `ABORTED` only, excludes the lockers from the moment on in which the unmounter has it,
  aborts nobody before `ignoreAllAndBlowUp` is set, and in which nobody enters once the
  mount is being freed, the count is right and the mount is freed exactly once;
* `refused_locker_stays_counted` — a locker that is refused stays counted, and the mount
  is never freed.
-/
import Obos.Lib.Run
import Obos.Machine

namespace Obos.MountLifetime

open Function

variable {T : Type*}

/-- Where a thread is in `VfsH_LockMountpoint`. -/
inductive Pc where
  | out
  /-- In `Core_MutexAcquire`. -/
  | acquiring
  /-- `Core_MutexAcquire` has returned `status`. -/
  | returned (status : Status)
  /-- Before `--point->nWaiting` of the aborted exit. -/
  | decrement
  /-- Before `Vfs_Free`. -/
  | freeing
  deriving DecidableEq, Repr

/-- Where the unmounter is in `Vfs_Unmount`. -/
inductive UnmountPc where
  | idle
  | acquiring
  /-- Has the mutex, up to `awaitingFree = true`. -/
  | stages
  /-- Before `if (!what->nWaiting)`. -/
  | check
  | free
  /-- Before `ignoreAllAndBlowUp = true`. -/
  | blowUp
  /-- Before `CoreH_SignalWaitingThreads`. -/
  | signal
  | done
  deriving DecidableEq, Repr

/-- The fields of the `mount` that the two functions use, and where everybody is.
`freed` counts the calls of `Vfs_Free`. -/
structure State (T : Type*) where
  nWaiting : ℕ
  awaitingFree : Bool
  ignoreAllAndBlowUp : Bool
  freed : ℕ
  pc : T → Pc
  unmounter : UnmountPc

/-- A mount in use: nobody waits and nobody unmounts it. -/
def State.init : State T := ⟨0, false, false, 0, fun _ => .out, .idle⟩

section Steps

variable [DecidableEq T]

def State.goto (s : State T) (t : T) (pc : Pc) : State T :=
  { s with pc := update s.pc t pc }

inductive Action (T : Type*) where
  /-- `t` calls `VfsH_LockMountpoint`. -/
  | lock (t : T)
  /-- `Core_MutexAcquire` returns to `t`. -/
  | acquired (t : T) (status : Status)
  /-- `t` makes its next access to the mount. -/
  | run (t : T)
  /-- `t` calls `VfsH_UnlockMountpoint`, where `Core_MutexRelease` returns `status`. -/
  | unlock (t : T) (status : Status)
  | unmount
  /-- `Core_MutexAcquire` returns to the unmounter, who does not look at the status. -/
  | unmountAcquired (status : Status)
  | runUnmount
  deriving DecidableEq

/-- The next access of `t` in `VfsH_LockMountpoint`. -/
def runThread (s : State T) (t : T) : State T :=
  match s.pc t with
  | .out => s
  | .acquiring => s
  | .returned .success => { s with nWaiting := decrement s.nWaiting }.goto t .out
  | .returned .aborted => if s.awaitingFree then s.goto t .decrement else s.goto t .out
  | .returned _ => s.goto t .out
  | .decrement =>
    { s with nWaiting := decrement s.nWaiting }.goto t
      (if decrement s.nWaiting = 0 then .freeing else .out)
  | .freeing => { s with freed := s.freed + 1 }.goto t .out

/-- The next access of the unmounter. -/
def runUnmounter (s : State T) : State T :=
  match s.unmounter with
  | .idle => s
  | .acquiring => s
  | .stages => { s with awaitingFree := true, unmounter := .check }
  | .check => { s with unmounter := if s.nWaiting = 0 then .free else .blowUp }
  | .free => { s with freed := s.freed + 1, unmounter := .done }
  | .blowUp => { s with ignoreAllAndBlowUp := true, unmounter := .signal }
  | .signal => { s with unmounter := .done }
  | .done => s

def step (s : State T) : Action T → State T
  | .lock t => if s.pc t = .out then { s with nWaiting := s.nWaiting + 1 }.goto t .acquiring else s
  | .acquired t status => if s.pc t = .acquiring then s.goto t (.returned status) else s
  | .run t => runThread s t
  | .unlock _ _ => s
  | .unmount => if s.unmounter = .idle then { s with unmounter := .acquiring } else s
  | .unmountAcquired _ =>
    if s.unmounter = .acquiring then { s with unmounter := .stages } else s
  | .runUnmount => runUnmounter s

end Steps

/-! ### What is to hold -/

/-- Counted: behind its increment and before its decrement. -/
def Pc.isInside : Pc → Bool
  | .out => false
  | .acquiring => true
  | .returned _ => true
  | .decrement => true
  | .freeing => false

/-- The number of threads inside `VfsH_LockMountpoint`. -/
def State.inside [Fintype T] (s : State T) : ℕ := ∑ t, if (s.pc t).isInside then 1 else 0

/-- The count is the number of threads inside; the mount is freed at most once, and
when nobody is inside; and once everybody is done it was freed. -/
structure Sound [Fintype T] (s : State T) : Prop where
  count : s.nWaiting = s.inside
  once : s.freed ≤ 1
  late : 0 < s.freed → ∀ t, (s.pc t).isInside = false
  freed : s.unmounter = .done → (∀ t, s.pc t = .out) → s.freed = 1

/-- The unmounter does not have the mutex yet. -/
def UnmountPc.isBefore : UnmountPc → Bool
  | .idle | .acquiring => true
  | _ => false

/-- What the mutex and the callers are to keep to. -/
def Contract [Fintype T] (s : State T) : Action T → Prop
  | .lock _ => s.freed = 0 ∧ s.unmounter ≠ .free ∧ ∀ t, s.pc t ≠ .freeing
  | .acquired _ status =>
    (status = .success ∧ s.unmounter.isBefore = true) ∨
      (status = .aborted ∧ s.ignoreAllAndBlowUp = true)
  | .run _ => True
  | .unlock _ _ => True
  | .unmount => True
  | .unmountAcquired _ => ∀ t, s.pc t ≠ .returned .success
  | .runUnmount => True

instance [Fintype T] (s : State T) : (a : Action T) → Decidable (Contract s a)
  | .lock _ => inferInstanceAs (Decidable (_ ∧ _ ∧ _))
  | .acquired _ _ => inferInstanceAs (Decidable (_ ∨ _))
  | .run _ => inferInstanceAs (Decidable True)
  | .unlock _ _ => inferInstanceAs (Decidable True)
  | .unmount => inferInstanceAs (Decidable True)
  | .unmountAcquired _ => inferInstanceAs (Decidable (∀ _, _))
  | .runUnmount => inferInstanceAs (Decidable True)

/-! ### The invariant -/

section Invariant

variable [Fintype T] {s : State T} {t : T}

/-- What holds where a thread is. -/
def Place (s : State T) : Pc → Prop
  | .out => True
  | .acquiring => True
  | .returned status =>
    (status = .success ∧ s.unmounter.isBefore = true) ∨
      (status = .aborted ∧ s.ignoreAllAndBlowUp = true)
  | .decrement => s.ignoreAllAndBlowUp = true
  | .freeing => s.ignoreAllAndBlowUp = true ∧ s.inside = 0 ∧ s.freed = 0

/-- Behind the check: freed by nobody so far, with somebody to do it, or freed once. -/
structure Handed (s : State T) : Prop where
  pending : s.freed = 0 → s.ignoreAllAndBlowUp = true ∧ (0 < s.inside ∨ ∃ t, s.pc t = .freeing)
  once : s.freed ≤ 1
  gone : s.freed = 1 → s.inside = 0 ∧ ∀ t, s.pc t ≠ .freeing

/-- What holds where the unmounter is. -/
def Phase (s : State T) : UnmountPc → Prop
  | .idle | .acquiring | .stages =>
    s.awaitingFree = false ∧ s.ignoreAllAndBlowUp = false ∧ s.freed = 0
  | .check => s.awaitingFree = true ∧ s.ignoreAllAndBlowUp = false ∧ s.freed = 0
  | .free => s.awaitingFree = true ∧ s.ignoreAllAndBlowUp = false ∧ s.freed = 0 ∧ s.inside = 0
  | .blowUp => s.awaitingFree = true ∧ s.ignoreAllAndBlowUp = false ∧ s.freed = 0 ∧ 0 < s.inside
  | .signal | .done => s.awaitingFree = true ∧ Handed s

structure Inv (s : State T) : Prop where
  count : s.nWaiting = s.inside
  place : ∀ t, Place s (s.pc t)
  one : ∀ t u, s.pc t = .freeing → s.pc u = .freeing → t = u
  phase : Phase s s.unmounter

theorem inside_eq_zero : s.inside = 0 ↔ ∀ t, (s.pc t).isInside = false := by
  rw [State.inside, Finset.sum_eq_zero_iff]
  simp only [Finset.mem_univ, true_implies, ite_eq_right_iff, one_ne_zero, imp_false,
    Bool.not_eq_true]

theorem inside_init : (State.init : State T).inside = 0 :=
  inside_eq_zero.mpr fun _ => rfl

theorem inv_init : Inv (State.init : State T) :=
  ⟨inside_init.symm, fun _ => trivial, nofun, rfl, rfl, rfl⟩

theorem inside_pos (h : (s.pc t).isInside = true) : 0 < s.inside := by
  refine Nat.pos_of_ne_zero fun h0 => ?_
  rw [inside_eq_zero.mp h0 t] at h
  cases h

/-- Nobody frees the mount while `t` is inside. -/
theorem Inv.not_freeing (h : Inv s) (ht : (s.pc t).isInside = true) (u : T) :
    s.pc u ≠ .freeing := by
  intro hu
  have hplace := h.place u
  rw [hu] at hplace
  have hpos := inside_pos ht
  exact absurd hplace.2.1 (Nat.ne_of_gt hpos)

/-- Once the mutex blows up, the unmounter is behind its check. -/
theorem Inv.blownUp (h : Inv s) (hi : s.ignoreAllAndBlowUp = true) :
    (s.unmounter = .signal ∨ s.unmounter = .done) ∧ s.awaitingFree = true ∧ Handed s := by
  have hphase := h.phase
  cases hu : s.unmounter with
  | signal =>
    rw [hu] at hphase
    exact ⟨.inl rfl, hphase⟩
  | done =>
    rw [hu] at hphase
    exact ⟨.inr rfl, hphase⟩
  | idle | acquiring | stages | check | free | blowUp =>
    rw [hu] at hphase
    rw [hphase.2.1] at hi
    cases hi

/-- A thread that is inside finds the mount. -/
theorem Inv.not_freed (h : Inv s) (ht : (s.pc t).isInside = true) : s.freed = 0 := by
  have hphase := h.phase
  cases hu : s.unmounter with
  | idle | acquiring | stages | check =>
    rw [hu] at hphase
    exact hphase.2.2
  | free | blowUp =>
    rw [hu] at hphase
    exact hphase.2.2.1
  | signal | done =>
    rw [hu] at hphase
    have honce := hphase.2.once
    by_contra hne
    exact absurd (hphase.2.gone (by omega)).1 (Nat.ne_of_gt (inside_pos ht))

theorem Phase.of_handed {u : UnmountPc} (hu : u = .signal ∨ u = .done)
    (hnew : s.awaitingFree = true ∧ Handed s) : Phase s u := by
  rcases hu with rfl | rfl <;> exact hnew

/-- With somebody inside, and nobody who has freed the mount or is about to, the unmounter may be
where it is. -/
theorem Inv.phase_of_inside (h : Inv s) {s' : State T} (hawait : s'.awaitingFree = s.awaitingFree)
    (hi : s'.ignoreAllAndBlowUp = s.ignoreAllAndBlowUp) (hfreed : s'.freed = 0) (h0 : s.freed = 0)
    (hu : s.unmounter ≠ .free) (hpos : 0 < s'.inside) : Phase s' s.unmounter := by
  have hphase := h.phase
  cases hun : s.unmounter with
  | idle | acquiring | stages | check =>
    rw [hun] at hphase
    exact ⟨hawait.trans hphase.1, hi.trans hphase.2.1, hfreed⟩
  | free => exact absurd hun hu
  | blowUp =>
    rw [hun] at hphase
    exact ⟨hawait.trans hphase.1, hi.trans hphase.2.1, hfreed, hpos⟩
  | signal | done =>
    rw [hun] at hphase
    refine ⟨hawait.trans hphase.1, fun _ => ⟨hi.trans (hphase.2.pending h0).1, .inl hpos⟩, ?_, ?_⟩
    all_goals rw [hfreed]
    · exact zero_le_one
    · exact nofun

variable [DecidableEq T]

/-- The number of threads inside when one of them goes on. -/
theorem inside_update (s' : State T) {pc : Pc} (hpc : s'.pc = update s.pc t pc) :
    s'.inside + (if (s.pc t).isInside then 1 else 0) =
      s.inside + if pc.isInside then 1 else 0 := by
  have hsum := Run.sum_of_eq_off (f := fun u => if (s'.pc u).isInside then 1 else 0)
    (g := fun u => if (s.pc u).isInside then 1 else 0) t
    fun u hu => by rw [hpc, update_of_ne hu]
  simp only [hpc, update_self] at hsum
  rw [State.inside, hpc]
  exact hsum

section

variable (h : Inv s)
include h

/-- `t` goes on, and nobody else frees the mount. -/
theorem Inv.goes {s' : State T} {pc : Pc} (hpc : s'.pc = update s.pc t pc)
    (hu : s'.unmounter = s.unmounter) (hi : s'.ignoreAllAndBlowUp = s.ignoreAllAndBlowUp)
    (hfree : ∀ u, u ≠ t → s.pc u ≠ .freeing) (hcount : s'.nWaiting = s'.inside)
    (hplace : Place s' pc) (hphase : Phase s' s.unmounter) : Inv s' := by
  have hne : ∀ u, u ≠ t → s'.pc u = s.pc u := by
    intro u hut
    rw [hpc, update_of_ne hut]
  have hone : ∀ u, s'.pc u = .freeing → u = t := by
    intro u hu'
    by_contra hut
    rw [hne u hut] at hu'
    exact hfree u hut hu'
  refine ⟨hcount, fun u => ?_, fun u v hu' hv => (hone u hu').trans (hone v hv).symm, hu ▸ hphase⟩
  by_cases hut : u = t
  · rw [hut, hpc, update_self]
    exact hplace
  · rw [hne u hut]
    have hold := h.place u
    cases hpcu : s.pc u with
    | out | acquiring => trivial
    | returned status =>
      rw [hpcu] at hold
      rw [Place, hu, hi]
      exact hold
    | decrement =>
      rw [hpcu] at hold
      rw [Place, hi]
      exact hold
    | freeing => exact absurd hpcu (hfree u hut)

/-- A step that leaves the mount as it is and moves `t` from one place inside to another. -/
theorem Inv.goto_inside {pc : Pc} (ht : (s.pc t).isInside = true)
    (hpc : pc.isInside = true) (hplace : Place (s.goto t pc) pc) : Inv (s.goto t pc) := by
  have hin : (s.goto t pc).inside = s.inside := by
    have hsum := inside_update (s.goto t pc) rfl
    rw [ht, hpc] at hsum
    omega
  have h0 := h.not_freed ht
  have hpos := inside_pos ht
  refine h.goes rfl rfl rfl (fun u _ => h.not_freeing ht u) (h.count.trans hin.symm) hplace
    (h.phase_of_inside rfl rfl h0 h0 (fun hu => ?_) (hin ▸ hpos))
  have hphase := h.phase
  rw [hu] at hphase
  exact absurd hphase.2.2.2 (Nat.ne_of_gt hpos)

/-- The decrement of a thread that leaves. -/
theorem Inv.decremented (pc : Pc) (ht : (s.pc t).isInside = true)
    (hpc : pc.isInside = false) :
    decrement s.nWaiting =
      ({ s with nWaiting := decrement s.nWaiting }.goto t pc).inside := by
  have hsum := inside_update (s := s) (t := t)
    ({ s with nWaiting := decrement s.nWaiting }.goto t pc) rfl
  have hpos := inside_pos ht
  have hcount := h.count
  simp only [ht, hpc, if_true] at hsum
  rw [decrement, if_neg (by omega)] at hsum ⊢
  simp only [Bool.false_eq_true, if_false] at hsum
  omega

/-- A locker that got the mutex counts itself out. -/
theorem Inv.leave (ht : s.pc t = .returned .success) :
    Inv ({ s with nWaiting := decrement s.nWaiting }.goto t .out) := by
  have hin : (s.pc t).isInside = true := by rw [ht]; rfl
  have hbefore : s.unmounter.isBefore = true := by
    have hplace := h.place t
    rw [ht] at hplace
    exact hplace.elim (fun hs => hs.2) fun ha => nomatch ha.1
  refine h.goes rfl rfl rfl (fun u _ => h.not_freeing hin u) (h.decremented .out hin rfl) trivial ?_
  have hphase := h.phase
  cases hu : s.unmounter with
  | idle | acquiring =>
    rw [hu] at hphase
    exact hphase
  | stages | check | free | blowUp | signal | done =>
    rw [hu] at hbefore
    cases hbefore

/-- An aborted locker counts itself out; the last one is to free the mount. -/
theorem Inv.countOut (ht : s.pc t = .decrement) :
    Inv ({ s with nWaiting := decrement s.nWaiting }.goto t
      (if decrement s.nWaiting = 0 then .freeing else .out)) := by
  have hin : (s.pc t).isInside = true := by rw [ht]; rfl
  have hi : s.ignoreAllAndBlowUp = true := by
    have hplace := h.place t
    rw [ht] at hplace
    exact hplace
  obtain ⟨hu, hawait, hhanded⟩ := h.blownUp hi
  have h0 := h.not_freed hin
  split_ifs with hzero
  · have hcount := h.decremented .freeing hin rfl
    refine h.goes rfl rfl rfl (fun u _ => h.not_freeing hin u) hcount
      ⟨hi, hcount.symm.trans hzero, h0⟩ (.of_handed hu ⟨hawait, fun _ => ⟨hi, .inr ⟨t, ?_⟩⟩,
        hhanded.once, fun h1 => absurd (h0.symm.trans h1) zero_ne_one⟩)
    exact update_self t _ s.pc
  · have hcount := h.decremented .out hin rfl
    refine h.goes rfl rfl rfl (fun u _ => h.not_freeing hin u) hcount trivial
      (h.phase_of_inside rfl rfl h0 h0 ?_ (hcount ▸ Nat.pos_of_ne_zero hzero))
    rcases hu with hu | hu <;> rw [hu] <;> exact nofun

/-- The last locker frees the mount. -/
theorem Inv.free (ht : s.pc t = .freeing) :
    Inv ({ s with freed := s.freed + 1 }.goto t .out) := by
  have hplace := h.place t
  rw [ht] at hplace
  obtain ⟨hi, hin, h0⟩ := hplace
  obtain ⟨hu, hawait, hhanded⟩ := h.blownUp hi
  set s' := { s with freed := s.freed + 1 }.goto t .out with hs'
  have hin' : s'.inside = 0 := by
    have hsum := inside_update (s := s) (t := t) s' rfl
    simp only [ht, hin, Pc.isInside, Bool.false_eq_true, if_false, Nat.add_zero] at hsum
    exact hsum
  have hfree : ∀ u, u ≠ t → s.pc u ≠ .freeing := fun u hut hu' => hut (h.one u t hu' ht)
  have hfreed : s'.freed = 1 := congrArg (· + 1) h0
  refine h.goes rfl rfl rfl hfree (h.count.trans (hin.trans hin'.symm)) trivial
    (.of_handed hu ⟨hawait, fun hz => absurd (hfreed.symm.trans hz) one_ne_zero, hfreed.le,
      fun _ => ⟨hin', fun u => ?_⟩⟩)
  show update s.pc t .out u ≠ .freeing
  by_cases hut : u = t
  · rw [hut, update_self]
    exact nofun
  · rw [update_of_ne hut]
    exact hfree u hut

theorem Inv.runThread (t : T) : Inv (runThread s t) := by
  have hplace := h.place t
  rw [MountLifetime.runThread]
  cases hpc : s.pc t with
  | out => exact h
  | acquiring => exact h
  | returned status =>
    rw [hpc] at hplace
    rcases hplace with ⟨rfl, -⟩ | ⟨rfl, hi⟩
    · exact h.leave hpc
    · -- the flag is set, so the thread goes on to count itself out
      simp only [(h.blownUp hi).2.1, if_true]
      exact h.goto_inside (by rw [hpc]; rfl) rfl hi
  | decrement => exact h.countOut hpc
  | freeing => exact h.free hpc

/-- A thread enters. -/
theorem Inv.lock (ht : s.pc t = .out) (h0 : s.freed = 0) (hu : s.unmounter ≠ .free)
    (hfree : ∀ u, s.pc u ≠ .freeing) :
    Inv ({ s with nWaiting := s.nWaiting + 1 }.goto t .acquiring) := by
  set s' := { s with nWaiting := s.nWaiting + 1 }.goto t .acquiring with hs'
  have hin : s'.inside = s.inside + 1 := by
    have hsum := inside_update (s := s) (t := t) s' rfl
    simp only [ht, Pc.isInside, Bool.false_eq_true, if_false, if_true, Nat.add_zero] at hsum
    exact hsum
  have hcount : s'.nWaiting = s'.inside := by
    rw [hin, ← h.count]
    rfl
  exact h.goes rfl rfl rfl (fun u _ => hfree u) hcount trivial
    (h.phase_of_inside rfl rfl h0 h0 hu (by omega))

end

omit [DecidableEq T] in
/-- The unmounter goes on: the places of the threads do not depend on where it is, but
for those that got the mutex. -/
theorem Inv.unmounterStep (h : Inv s) {s' : State T} (hpc : s'.pc = s.pc)
    (hn : s'.nWaiting = s.nWaiting) (hfreed : s'.freed = s.freed)
    (hi : s.ignoreAllAndBlowUp = true → s'.ignoreAllAndBlowUp = true)
    (hbefore : s'.unmounter.isBefore = s.unmounter.isBefore ∨ ∀ t, s.pc t ≠ .returned .success)
    (hphase : Phase s' s'.unmounter) : Inv s' := by
  have hin : s'.inside = s.inside := by rw [State.inside, State.inside, hpc]
  refine ⟨?_, fun t => ?_, fun t u => ?_, hphase⟩
  · rw [hn, hin]
    exact h.count
  · have hold := h.place t
    rw [hpc]
    cases hpct : s.pc t with
    | out | acquiring => trivial
    | returned status =>
      rw [hpct] at hold
      rcases hold with ⟨rfl, hb⟩ | ⟨rfl, hb⟩
      · refine .inl ⟨rfl, ?_⟩
        rcases hbefore with he | hno
        · rw [he]
          exact hb
        · exact absurd hpct (hno t)
      · exact .inr ⟨rfl, hi hb⟩
    | decrement =>
      rw [hpct] at hold
      exact hi hold
    | freeing =>
      rw [hpct] at hold
      exact ⟨hi hold.1, hin.trans hold.2.1, hfreed.trans hold.2.2⟩
  · rw [hpc]
    exact h.one t u

omit [DecidableEq T] in
/-- The unmounter finds nobody inside and frees the mount. -/
theorem Inv.unmounterFrees (h : Inv s) (hu : s.unmounter = .free) :
    Inv { s with freed := s.freed + 1, unmounter := .done } := by
  have hphase := h.phase
  rw [hu] at hphase
  obtain ⟨hawait, hi, h0, hin⟩ := hphase
  have hnone := inside_eq_zero.mp hin
  have hout : ∀ t, s.pc t = .out := by
    intro t
    have ht := hnone t
    have hplace := h.place t
    cases hpc : s.pc t with
    | out => rfl
    | freeing =>
      -- whoever frees the mount was aborted, and nobody was so far
      rw [hpc] at hplace
      rw [hplace.1] at hi
      cases hi
    | acquiring | returned _ | decrement =>
      rw [hpc] at ht
      cases ht
  have hfree : ∀ t, s.pc t ≠ .freeing := fun t ht => by
    rw [hout t] at ht
    cases ht
  refine ⟨h.count, fun t => ?_, fun t _ ht _ => absurd ht (hfree t), hawait, ?_⟩
  · rw [hout t]
    trivial
  · refine ⟨fun hz => absurd hz (Nat.succ_ne_zero _), ?_, fun _ => ⟨hin, hfree⟩⟩
    rw [h0]

omit [DecidableEq T] in
theorem Inv.runUnmounter (h : Inv s) : Inv (runUnmounter s) := by
  have hphase := h.phase
  rw [MountLifetime.runUnmounter]
  cases hu : s.unmounter with
  | idle => exact h
  | acquiring => exact h
  | stages =>
    rw [hu] at hphase
    exact h.unmounterStep rfl rfl rfl id (.inl (by rw [hu]; rfl)) ⟨rfl, hphase.2.1, hphase.2.2⟩
  | check =>
    rw [hu] at hphase
    refine h.unmounterStep rfl rfl rfl id (.inl ?_) ?_
    · rw [hu]
      simp only
      split <;> rfl
    · have hin := h.count
      simp only
      split
      · exact ⟨hphase.1, hphase.2.1, hphase.2.2, hin ▸ ‹_›⟩
      · exact ⟨hphase.1, hphase.2.1, hphase.2.2, hin ▸ Nat.pos_of_ne_zero ‹_›⟩
  | free => exact h.unmounterFrees hu
  | blowUp =>
    rw [hu] at hphase
    obtain ⟨hawait, -, h0, hin⟩ := hphase
    refine h.unmounterStep rfl rfl rfl (fun _ => rfl) (.inl (by rw [hu]; rfl)) ?_
    refine ⟨hawait, fun _ => ⟨rfl, .inl hin⟩, ?_, fun h1 => ?_⟩
    · show s.freed ≤ 1
      omega
    · have hone : s.freed = 1 := h1
      omega
  | signal =>
    rw [hu] at hphase
    exact h.unmounterStep rfl rfl rfl id (.inl (by rw [hu]; rfl))
      ⟨hphase.1, hphase.2.pending, hphase.2.once, hphase.2.gone⟩
  | done => exact h

theorem Inv.step (h : Inv s) (a : Action T) (ha : Contract s a) : Inv (step s a) := by
  cases a with
  | lock t =>
    rw [MountLifetime.step]
    split
    · exact h.lock ‹_› ha.1 ha.2.1 ha.2.2
    · exact h
  | acquired t status =>
    rw [MountLifetime.step]
    split
    · exact h.goto_inside (by rw [‹s.pc t = _›]; rfl) rfl ha
    · exact h
  | run t => exact h.runThread t
  | unlock t status => exact h
  | unmount =>
    rw [MountLifetime.step]
    split
    · rename_i hu
      have hphase := h.phase
      rw [hu] at hphase
      exact h.unmounterStep rfl rfl rfl id (.inl (by rw [hu]; rfl)) hphase
    · exact h
  | unmountAcquired status =>
    rw [MountLifetime.step]
    split
    · rename_i hu
      have hphase := h.phase
      rw [hu] at hphase
      exact h.unmounterStep rfl rfl rfl id (.inr ha) hphase
    · exact h
  | runUnmount => exact h.runUnmounter

omit [DecidableEq T] in
theorem Inv.sound (h : Inv s) : Sound s := by
  have hphase := h.phase
  refine ⟨h.count, ?_, fun hpos t => ?_, fun hdone hout => ?_⟩
  · cases hu : s.unmounter with
    | idle | acquiring | stages | check =>
      rw [hu] at hphase
      exact hphase.2.2.le.trans zero_le_one
    | free | blowUp =>
      rw [hu] at hphase
      exact hphase.2.2.1.le.trans zero_le_one
    | signal | done =>
      rw [hu] at hphase
      exact hphase.2.once
  · refine Bool.eq_false_iff.mpr fun ht => ?_
    exact absurd (h.not_freed ht) (Nat.ne_of_gt hpos)
  · rw [hdone] at hphase
    have hin : s.inside = 0 := inside_eq_zero.mpr fun t => by rw [hout t]; rfl
    have honce := hphase.2.once
    by_contra hne
    obtain ⟨-, hpos | ⟨t, ht⟩⟩ := hphase.2.pending (by omega)
    · omega
    · rw [hout t] at ht
      cases ht

/-- In every run that keeps to the contract the count is the number of threads inside
and the mount is freed exactly once, after the last of them has left. -/
theorem counted_and_freed_once (as : List (Action T))
    (h : Run.Meets Contract (fun s a => some (step s a)) (State.init : State T) as) :
    ∃ s, as.foldlM (fun s a => some (step s a)) (State.init : State T) = some s ∧ Sound s := by
  have hstep : ∀ (s : State T) a, Inv s → Contract s a → ∃ s', some (step s a) = some s' ∧ Inv s' :=
    fun s a hs ha => ⟨_, rfl, hs.step a ha⟩
  obtain ⟨s, hs, hinv⟩ := Run.invariant hstep inv_init h
  exact ⟨s, hs, hinv.sound⟩

end Invariant

/-- Two lockers wait while the mount goes away; the second frees it. -/
def lastOneFrees : List (Action (Fin 2)) :=
  [.unmount, .unmountAcquired .success, .lock 0, .lock 1, .runUnmount, .runUnmount, .runUnmount,
    .acquired 0 .aborted, .acquired 1 .aborted, .runUnmount, .run 0, .run 1, .run 0, .run 1, .run 1]

theorem counted_and_freed_once_lastOneFrees :
    Run.Meets Contract (fun s a => some (step s a)) State.init lastOneFrees ∧
      ∃ s, lastOneFrees.foldlM (fun s a => some (step s a)) State.init = some s ∧ Sound s := by
  have hok : Run.Meets Contract (fun s a => some (step s a)) State.init lastOneFrees := by
    decide +kernel
  exact ⟨hok, counted_and_freed_once lastOneFrees hok⟩

/-- A locker whose acquire fails returns without counting itself out; the unmounter then
leaves the mount to waiters that are not there. -/
theorem refused_locker_stays_counted :
    ∃ s, ([.lock 0, .acquired 0 .invalidIrql, .run 0, .unmount, .unmountAcquired .success,
        .runUnmount, .runUnmount, .runUnmount, .runUnmount] :
          List (Action (Fin 1))).foldlM (fun s a => some (step s a)) State.init = some s ∧
      (s.pc 0 = .out ∧ s.nWaiting = 1 ∧ s.unmounter = .done ∧ s.freed = 0) ∧ ¬ Sound s := by
  refine ⟨_, rfl, ⟨by decide, by decide, by decide, by decide⟩, fun h => ?_⟩
  exact absurd (h.freed (by decide) (by decide)) (by decide)

end Obos.MountLifetime
