/-
Command slots of an AHCI port (`drivers/generic/ahci/command.c`, `ahci_irq.c`).

`SendCommand` stops the port, takes the port's semaphore, picks the lowest slot that is clear in
`CommandBitmask`, enters the command into `PendingCommands` and sets the slot's bit in `PxCI`.
When the controller has done a command it clears the bit, or halts with an error, and raises an
interrupt; the handler marks the commands that are no longer in `PxCI`, and its DPC sets their
events.  `CommandBitmask` is never written: every command gets the slot 0.

Threads take the steps of `SendCommand` one at a time, in any order with each other, with the
controller, the handler and the steps of the DPC, which holds no lock.

* `Stage`, `Active` — the one command that is on its way, from its entry to its event,
* `Signal`, `SignalAt` — where the DPC is with it,
* `oneAtATime_slots` — if `SendCommand` is entered only when no thread is in it or waits for its
  command and no DPC of the port runs, slots are exclusive and every event is set once, with the
  command's own status,
* `two_commands_one_slot` — two threads that share a port share the slot.
-/
import Obos.Machine
import Obos.Lib.Run

namespace Obos.Ahci

open Function

/-- `(HBA->cap >> 8 & 0b11111) + 1`. -/
def slotCount (cap : ℕ) : ℕ := cap / 2 ^ 8 % 32 + 1

/-- Where a thread is in `SendCommand`, or whether it waits for the command it sent. -/
inductive Pc where
  | idle
  | stopped
  | acquired
  | chosen (cmdSlot : ℕ)
  | waiting (cmdSlot : ℕ)
  deriving DecidableEq, Repr

/-- `OBOS_STATUS_SUCCESS` and `OBOS_STATUS_RETRY`. -/
inductive Status where
  | success
  | retry
  deriving DecidableEq, Repr

/-- `command_data` of a thread, and where the thread is.  The last three fields are history since
the entry of the thread's last `SendCommand`: whether the command was issued, how the controller
ended it, and how often its event was set. -/
structure Command where
  pc : Pc
  awaitingSignal : Bool
  completionEvent : Bool
  commandStatus : Status
  issued : Bool
  outcome : Option Status
  sets : ℕ
  deriving DecidableEq, Repr

/-- Where a run of the DPC is with a slot: before it looks at its command, before it sets the event,
and before it clears `awaitingSignal`. -/
inductive DpcPhase where
  | look
  | set
  | clear
  deriving DecidableEq, Repr

structure DpcAt where
  slot : ℕ
  phase : DpcPhase
  deriving DecidableEq, Repr

/-- `Port` and the registers of its controller.  `pxIs` is `PxIS`: nothing, a finished command or an
error; `hbaIs` is the port's bit in `HBA->is`; `halted` says that an error has stopped the
controller, and `slotOwner` whose command it has in a slot.  `portDpc` says that the DPC is queued,
and `dpcs` are its runs that have not ended. -/
structure Port (T : Type*) where
  cmds : T → Command
  pendingCommands : ℕ → Option T
  commandBitmask : ℕ
  lock : ℕ
  ci : ℕ → Bool
  slotOwner : ℕ → Option T
  halted : Bool
  pxIs : Option Status
  hbaIs : Bool
  portDpc : Bool
  dpcs : List DpcAt

/-- `__builtin_ctz` of the complement. -/
def lowestClear (bitmask : ℕ) : ℕ := ((List.range 32).find? fun i => !bitmask.testBit i).getD 32

section

variable {T : Type*} [DecidableEq T]

namespace Port

section

variable (p : Port T)

def setCmd (t : T) (c : Command) : Port T :=
  { p with cmds := update p.cmds t c }

/-- A run of the DPC goes on. -/
def setDpc (i : ℕ) (d : DpcAt) : Port T := { p with dpcs := p.dpcs.set i d }

/-- The port is working on a command. -/
def busy : Bool := !p.halted && (List.range 32).any p.ci

/-! ### `SendCommand` -/

/-- `StopCommandEngine`.  The controller drops what it has when it is stopped. -/
def enter (t : T) : Option (Port T) :=
  let c := p.cmds t
  if c.pc = .idle then
    some ({ p with ci := fun _ => false, halted := false }.setCmd t
      { c with pc := .stopped, issued := false, outcome := none, sets := 0 })
  else none

/-- `Core_SemaphoreAcquire`, and the port's interrupt status is cleared.  A thread that has to wait
takes no step. -/
def acquire (t : T) : Option (Port T) :=
  let c := p.cmds t
  if c.pc = .stopped ∧ p.lock ≠ 0 then
    some ({ p with lock := p.lock - 1, pxIs := none }.setCmd t { c with pc := .acquired })
  else none

/-- The slot is picked, and the command entered, under `bitmask_lock`. -/
def choose (t : T) : Option (Port T) :=
  let c := p.cmds t
  if c.pc = .acquired then
    let cmdSlot := lowestClear p.commandBitmask
    some ({ p with pendingCommands := update p.pendingCommands cmdSlot (some t) }.setCmd t
      { c with pc := .chosen cmdSlot })
  else none

/-- Once the port is not busy, the engine is started and the slot's bit set. -/
def issue (t : T) : Option (Port T) :=
  let c := p.cmds t
  match c.pc with
  | .chosen cmdSlot =>
    if p.busy then none
    else
      some ({ p with
          ci := update p.ci cmdSlot true
          slotOwner := update p.slotOwner cmdSlot (some t)
          halted := false }.setCmd t { c with pc := .waiting cmdSlot, issued := true })
  | _ => none

/-- `Core_WaitOnObject` and `Core_EventClear` of the caller. -/
def leave (t : T) : Option (Port T) :=
  let c := p.cmds t
  match c.pc with
  | .waiting _ =>
    if c.completionEvent then some (p.setCmd t { c with pc := .idle, completionEvent := false })
    else none
  | _ => none

/-! ### The controller, the handler and the DPC -/

/-- The controller ends the command in a slot.  After an error it halts with the bit still set. -/
def complete (slot : ℕ) (status : Status) : Option (Port T) :=
  if p.ci slot && !p.halted then
    let p := match p.slotOwner slot with
      | none => p
      | some t => p.setCmd t { p.cmds t with outcome := some status }
    match status with
    | .success => some { p with
        ci := update p.ci slot false, hbaIs := true, pxIs := some (p.pxIs.getD .success) }
    | .retry => some { p with halted := true, hbaIs := true, pxIs := some .retry }
  else none

/-- A slot in the loop of `ahci_irq_handler`, and whether the DPC is needed. -/
def irqSlot (status : Status) (r : Port T × Bool) (slot : ℕ) : Port T × Bool :=
  if r.1.ci slot ∧ status = .success then r
  else match r.1.pendingCommands slot with
    | none => r
    | some t =>
      if (r.1.cmds t).awaitingSignal then r
      else (r.1.setCmd t { r.1.cmds t with awaitingSignal := true, commandStatus := status }, true)

/-- `ahci_irq_handler` for the port. -/
def irq (cap : ℕ) (p : Port T) : Port T :=
  if p.hbaIs then
    let status := if p.pxIs = some .retry then .retry else .success
    let r := (List.range (slotCount cap)).foldl (irqSlot status) (p, false)
    { r.1 with portDpc := r.1.portDpc || r.2, pxIs := none, hbaIs := false }
  else p

/-- The queued DPC starts. -/
def dpcStart : Option (Port T) :=
  if p.portDpc then some { p with portDpc := false, dpcs := p.dpcs ++ [⟨0, .look⟩] } else none

/-- A step of `ahci_dpc_handler`, which reads `PendingCommands` again each time. -/
def dpcStep (cap i : ℕ) : Option (Port T) :=
  match p.dpcs[i]? with
  | none => none
  | some d =>
    if slotCount cap ≤ d.slot then some { p with dpcs := p.dpcs.eraseIdx i }
    else
      match d.phase, p.pendingCommands d.slot with
      | .look, none => some (p.setDpc i ⟨d.slot + 1, .look⟩)
      | .look, some t =>
        -- the semaphore is released before the event is set
        if (p.cmds t).awaitingSignal then
          some ({ p with lock := p.lock + 1 }.setDpc i ⟨d.slot, .set⟩)
        else some (p.setDpc i ⟨d.slot, .clear⟩)
      | .set, some t =>
        some ((p.setCmd t { p.cmds t with
          completionEvent := true, sets := (p.cmds t).sets + 1 }).setDpc i ⟨d.slot, .clear⟩)
      | .clear, some t =>
        some ((p.setCmd t { p.cmds t with awaitingSignal := false }).setDpc i ⟨d.slot + 1, .look⟩)
      | _, none => none

end

end Port

/-! ### Runs -/

inductive Act (T : Type*) where
  | enter (t : T)
  | acquire (t : T)
  | choose (t : T)
  | issue (t : T)
  | leave (t : T)
  | complete (slot : ℕ) (status : Status)
  | irq
  | dpcStart
  | dpc (i : ℕ)
  deriving DecidableEq, Repr

def step (cap : ℕ) (p : Port T) : Act T → Option (Port T)
  | .enter t => p.enter t
  | .acquire t => p.acquire t
  | .choose t => p.choose t
  | .issue t => p.issue t
  | .leave t => p.leave t
  | .complete slot status => p.complete slot status
  | .irq => some (p.irq cap)
  | .dpcStart => p.dpcStart
  | .dpc i => p.dpcStep cap i

/-- A port behind its initialisation. -/
def freshPort (T : Type*) (cap : ℕ) : Port T where
  cmds _ := ⟨.idle, false, false, .success, false, none, 0⟩
  pendingCommands _ := none
  commandBitmask := 0
  lock := slotCount cap
  ci _ := false
  slotOwner _ := none
  halted := false
  pxIs := none
  hbaIs := false
  portDpc := false
  dpcs := []

/-- `SendCommand` is entered when no thread is in it or waits for its command, and no DPC runs. -/
def OneAtATime (p : Port T) : Act T → Prop
  | .enter _ => (∀ u, (p.cmds u).pc = .idle) ∧ p.dpcs = []
  | _ => True

instance [Fintype T] (p : Port T) : DecidablePred (OneAtATime p)
  | .enter _ => inferInstanceAs (Decidable ((∀ u, (p.cmds u).pc = .idle) ∧ p.dpcs = []))
  | .acquire _ | .choose _ | .issue _ | .leave _ | .complete _ _ | .irq | .dpcStart | .dpc _ =>
    isTrue trivial

/-- The command has been issued and its event has not been set. -/
def Command.Outstanding (c : Command) (slot : ℕ) : Prop := c.pc = .waiting slot ∧ c.sets = 0

/-- Slots are exclusive and below the slot count; no event is set twice, and those that are set
come with the command's own status; and once neither the controller nor the handler nor the DPC
has anything left to do, the event of every command that was issued has been set. -/
structure SlotsOk (cap : ℕ) (p : Port T) : Prop where
  exclusive : ∀ t u slot, (p.cmds t).Outstanding slot → (p.cmds u).Outstanding slot → t = u
  bound : ∀ t slot, (p.cmds t).pc = .chosen slot ∨ (p.cmds t).pc = .waiting slot →
    slot < slotCount cap
  once : ∀ t, (p.cmds t).sets ≤ 1
  own : ∀ t, 0 < (p.cmds t).sets → (p.cmds t).outcome = some (p.cmds t).commandStatus
  delivered : p.busy = false → p.hbaIs = false → p.portDpc = false → p.dpcs = [] →
    ∀ t, (p.cmds t).issued = true → (p.cmds t).sets = 1

end

/-! ### The command on its way -/

/-- What has become of the command that is on its way. -/
inductive Stage where
  | stopped
  | acquired
  | chosen
  | running
  | finished (status : Status)
  | handled
  | signalled
  deriving DecidableEq, Repr

namespace Stage

def pc : Stage → Pc
  | .stopped => .stopped
  | .acquired => .acquired
  | .chosen => .chosen 0
  | .running | .finished _ | .handled | .signalled => .waiting 0

def issued : Stage → Bool
  | .stopped | .acquired | .chosen => false
  | .running | .finished _ | .handled | .signalled => true

def sets : Stage → ℕ
  | .signalled => 1
  | _ => 0

/-- The interrupt has been raised. -/
def raised : Stage → Bool
  | .finished _ => true
  | _ => false

theorem pc_ne_idle (stage : Stage) : stage.pc ≠ .idle := by
  cases stage <;> exact Pc.noConfusion

end Stage

/-- Where the DPC is with the command: not needed, queued, at one of its steps for the slot 0, or
behind them. -/
inductive Signal where
  | quiet
  | queued
  | looking
  | setting
  | clearing
  | past (slot : ℕ)
  deriving DecidableEq, Repr

namespace Signal

def dpcs : Signal → List DpcAt
  | .quiet | .queued => []
  | .looking => [⟨0, .look⟩]
  | .setting => [⟨0, .set⟩]
  | .clearing => [⟨0, .clear⟩]
  | .past slot => [⟨slot + 1, .look⟩]

/-- The command in the table is marked by the handler. -/
def marked : Signal → Bool
  | .quiet | .past _ => false
  | .queued | .looking | .setting | .clearing => true

/-- The event is still to be set. -/
def pending : Signal → Bool
  | .queued | .looking | .setting => true
  | .quiet | .clearing | .past _ => false

end Signal

/-- The signals that a stage goes with. -/
def Stage.Allows : Stage → Signal → Prop
  | .handled, σ => σ.pending = true
  | .signalled, σ => σ.pending = false
  | _, σ => σ = .quiet

section

variable {T : Type*}

/-- A command that is not on its way: if it was issued, its event has been set. -/
structure Settled (c : Command) : Prop where
  pc : c.pc = .idle
  completionEvent : c.completionEvent = false
  sets : c.sets = if c.issued then 1 else 0
  own : c.issued = true → c.outcome = some c.commandStatus

/-- The registers, the table and the history in each stage. -/
def StageOk (p : Port T) (t : T) : Stage → Prop
  | .stopped => p.ci 0 = false
  | .acquired => p.ci 0 = false ∧ p.pxIs = none
  | .chosen => p.ci 0 = false ∧ p.pxIs = none ∧ p.pendingCommands 0 = some t
  | .running => p.ci 0 = true ∧ p.halted = false ∧ p.pxIs = none ∧ p.pendingCommands 0 = some t ∧
      p.slotOwner 0 = some t
  | .finished status => (p.ci 0 = true → p.halted = true ∧ status = .retry) ∧
      p.pxIs = some status ∧ p.pendingCommands 0 = some t ∧ (p.cmds t).outcome = some status
  | .handled => (p.ci 0 = true → p.halted = true) ∧ p.pendingCommands 0 = some t ∧
      (p.cmds t).outcome = some (p.cmds t).commandStatus
  | .signalled => (p.ci 0 = true → p.halted = true) ∧
      (p.cmds t).outcome = some (p.cmds t).commandStatus

/-- The command and its thread in each stage. -/
structure CommandAt (c : Command) (stage : Stage) : Prop where
  pc : c.pc = stage.pc
  issued : c.issued = stage.issued
  sets : c.sets = stage.sets
  completionEvent : c.completionEvent = decide (stage = .signalled)

/-- The command of the thread `t` is the only one on its way, and it is in the given stage. -/
structure Active (p : Port T) (t : T) (stage : Stage) : Prop where
  others : ∀ u, u ≠ t → Settled (p.cmds u)
  cmd : CommandAt (p.cmds t) stage
  hbaIs : p.hbaIs = stage.raised
  stage : StageOk p t stage

/-- No command is on its way. -/
structure Idle (p : Port T) : Prop where
  settled : ∀ u, Settled (p.cmds u)
  hbaIs : p.hbaIs = false
  ci : p.ci 0 = true → p.halted = true

/-- Only the slot 0 is in use. -/
structure OnlySlot (p : Port T) : Prop where
  commandBitmask : p.commandBitmask = 0
  pendingCommands : ∀ i, i ≠ 0 → p.pendingCommands i = none
  ci : ∀ i, i ≠ 0 → p.ci i = false

/-- The DPC is at `σ`, and of the commands only the one in the table may be marked. -/
structure SignalAt (p : Port T) (σ : Signal) : Prop where
  portDpc : p.portDpc = decide (σ = .queued)
  dpcs : p.dpcs = σ.dpcs
  marks : ∀ u, (p.cmds u).awaitingSignal = true ↔ σ.marked = true ∧ p.pendingCommands 0 = some u
  entered : σ.marked = true → p.pendingCommands 0 ≠ none

/-- The invariant of runs in which calls come one at a time. -/
structure Inv (p : Port T) (σ : Signal) : Prop where
  slot : OnlySlot p
  signal : SignalAt p σ
  command : (Idle p ∧ σ.pending = false) ∨ ∃ t stage, Active p t stage ∧ stage.Allows σ

variable {cap : ℕ} {p p' : Port T} {t : T} {σ : Signal}

theorem inv_freshPort : Inv (freshPort T cap) .quiet where
  slot := ⟨rfl, fun _ _ => rfl, fun _ _ => rfl⟩
  signal := ⟨rfl, rfl, fun _ => ⟨fun h => (nomatch h), fun h => nomatch h.1⟩, fun h => nomatch h⟩
  command := .inl
    ⟨{ settled := fun _ => ⟨rfl, rfl, rfl, fun h => nomatch h⟩
       hbaIs := rfl
       ci := fun h => nomatch h }, rfl⟩

/-- A step that leaves the DPC and the marks as they are. -/
theorem SignalAt.congr (h : SignalAt p σ) (hdpc : p'.portDpc = p.portDpc) (hdpcs : p'.dpcs = p.dpcs)
    (hpending : σ.marked = true → p'.pendingCommands 0 = p.pendingCommands 0)
    (hmarks : ∀ u, (p'.cmds u).awaitingSignal = (p.cmds u).awaitingSignal) : SignalAt p' σ where
  portDpc := hdpc.trans h.portDpc
  dpcs := hdpcs.trans h.dpcs
  marks u := by
    rw [hmarks u, h.marks u]
    exact and_congr_right fun hm => by rw [hpending hm]
  entered hm := hpending hm ▸ h.entered hm

section

variable (h : Inv p σ)
include h

theorem Inv.settled_or_active (t : T) :
    Settled (p.cmds t) ∨ ∃ stage, Active p t stage ∧ stage.Allows σ := by
  rcases h.command with ⟨hidle, -⟩ | ⟨u, stage, hact⟩
  · exact .inl (hidle.settled t)
  · by_cases htu : t = u
    · subst htu
      exact .inr ⟨stage, hact⟩
    · exact .inl (hact.1.others t htu)

/-- A thread that is not idle is the one whose command is on its way. -/
theorem Inv.active (hpc : (p.cmds t).pc ≠ .idle) : ∃ stage, Active p t stage ∧ stage.Allows σ :=
  (h.settled_or_active t).resolve_left fun hset => hpc hset.pc

end

theorem OnlySlot.busy (h : OnlySlot p) : p.busy = (!p.halted && p.ci 0) := by
  have hany : (List.range 32).any p.ci = p.ci 0 := by
    rw [Bool.eq_iff_iff, List.any_eq_true]
    constructor
    · rintro ⟨i, -, hi⟩
      by_cases hzero : i = 0
      · rwa [hzero] at hi
      · rw [h.ci i hzero] at hi
        cases hi
    · exact fun hi => ⟨0, by decide, hi⟩
  rw [Port.busy, hany]

theorem Active.slot_eq_zero {stage : Stage} {slot : ℕ} (h : Active p t stage)
    (hpc : (p.cmds t).pc = .chosen slot ∨ (p.cmds t).pc = .waiting slot) : slot = 0 := by
  rw [h.cmd.pc] at hpc
  cases stage <;> simp_all [Stage.pc]

/-- The event has been set once the controller, the handler and the DPC are done. -/
theorem Active.sets_eq_one {stage : Stage} (h : Active p t stage) (hallow : stage.Allows σ)
    (hslot : OnlySlot p) (hsignal : SignalAt p σ) (hbusy : p.busy = false) (hhba : p.hbaIs = false)
    (hdpc : p.portDpc = false) (hdpcs : p.dpcs = []) (hissued : (p.cmds t).issued = true) :
    (p.cmds t).sets = 1 := by
  rw [h.cmd.issued] at hissued
  rw [h.hbaIs] at hhba
  rw [hsignal.portDpc] at hdpc
  rw [hsignal.dpcs] at hdpcs
  rw [h.cmd.sets]
  have hok := h.stage
  cases stage with
  | stopped | acquired | chosen => cases hissued
  | running =>
    obtain ⟨hci, hhalted, -⟩ := hok
    rw [hslot.busy, hhalted, hci] at hbusy
    cases hbusy
  | finished status => cases hhba
  | handled => cases σ <;> simp_all [Stage.Allows, Signal.pending, Signal.dpcs]
  | signalled => rfl

/-- The invariant gives the property. -/
theorem Inv.slotsOk (h : Inv p σ) : SlotsOk cap p where
  exclusive := by
    rintro t u slot ⟨hpc, -⟩ ⟨hpc', -⟩
    obtain ⟨stage, hact, -⟩ := h.active (t := t) (by rw [hpc]; exact Pc.noConfusion)
    by_contra hne
    rw [(hact.others u (Ne.symm hne)).pc] at hpc'
    cases hpc'
  bound := by
    intro t slot hpc
    have hne : (p.cmds t).pc ≠ .idle := by
      rcases hpc with hpc | hpc <;> rw [hpc] <;> exact Pc.noConfusion
    obtain ⟨stage, hact, -⟩ := h.active hne
    rw [hact.slot_eq_zero hpc]
    exact Nat.succ_pos _
  once := by
    intro t
    rcases h.settled_or_active t with hset | ⟨stage, hact, -⟩
    · rw [hset.sets]
      split_ifs <;> decide
    · rw [hact.cmd.sets]
      cases stage <;> simp [Stage.sets]
  own := by
    intro t hsets
    rcases h.settled_or_active t with hset | ⟨stage, hact, -⟩
    · refine hset.own ?_
      by_contra hissued
      rw [hset.sets, if_neg hissued] at hsets
      exact lt_irrefl 0 hsets
    · have hok := hact.stage
      rw [hact.cmd.sets] at hsets
      cases stage with
      | signalled => exact hok.2
      | _ => cases hsets
  delivered := by
    intro hbusy hhba hdpc hdpcs t hissued
    rcases h.settled_or_active t with hset | ⟨stage, hact, hallow⟩
    · rw [hset.sets, if_pos hissued]
    · exact hact.sets_eq_one hallow h.slot h.signal hbusy hhba hdpc hdpcs hissued

/-- The controller ends the command on its way, and no other. -/
theorem Inv.running (h : Inv p σ) {slot : ℕ} (hci : p.ci slot = true) (hhalted : p.halted = false) :
    slot = 0 ∧ ∃ t, Active p t .running ∧ σ = .quiet := by
  have hslot : slot = 0 := by
    by_contra hne
    rw [h.slot.ci slot hne] at hci
    cases hci
  subst hslot
  refine ⟨rfl, ?_⟩
  have hlive : ¬ p.halted = true := by
    rw [hhalted]
    exact Bool.false_ne_true
  rcases h.command with ⟨hidle, -⟩ | ⟨t, stage, hact, hallow⟩
  · exact absurd (hidle.ci hci) hlive
  · have hok := hact.stage
    cases stage with
    | running => exact ⟨t, hact, hallow⟩
    | stopped => exact absurd (hci.symm.trans hok) Bool.noConfusion
    | acquired | chosen => exact absurd (hci.symm.trans hok.1) Bool.noConfusion
    | finished status => exact absurd (hok.1 hci).1 hlive
    | handled | signalled => exact absurd (hok.1 hci) hlive

end

/-! ### Steps -/

section

variable {T : Type*} [DecidableEq T] {cap : ℕ} {p p' : Port T} {t : T} {σ : Signal}

theorem Port.setCmd_self {c : Command} : (p.setCmd t c).cmds t = c := update_self ..

theorem Port.setCmd_of_ne {c : Command} {u : T} (h : u ≠ t) : (p.setCmd t c).cmds u = p.cmds u :=
  update_of_ne h ..

/-- A write to a command that keeps its mark. -/
theorem Port.setCmd_marks {c : Command} (h : c.awaitingSignal = (p.cmds t).awaitingSignal) (u : T) :
    ((p.setCmd t c).cmds u).awaitingSignal = (p.cmds u).awaitingSignal :=
  Update.keep Command.awaitingSignal h u

/-- A step that writes the command on its way. -/
theorem Active.of_setCmd {c : Command} {stage : Stage} (hothers : ∀ u, u ≠ t → Settled (p.cmds u))
    (hc : CommandAt c stage) (hhba : p.hbaIs = stage.raised)
    (hstage : StageOk (p.setCmd t c) t stage) : Active (p.setCmd t c) t stage where
  others u hu := by rw [Port.setCmd_of_ne hu]; exact hothers u hu
  cmd := by rwa [Port.setCmd_self]
  hbaIs := hhba
  stage := hstage

theorem Inv.enter (h : Inv p σ) (hall : ∀ u, (p.cmds u).pc = .idle) (hdpcs : p.dpcs = [])
    (hstep : p.enter t = some p') : ∃ σ, Inv p' σ := by
  obtain ⟨hidle, hpend⟩ := h.command.resolve_right fun ⟨u, stage, hact⟩ =>
    stage.pc_ne_idle (hact.1.cmd.pc.symm.trans (hall u))
  have hset := hidle.settled t
  have hquiet : σ = .quiet := by
    have hd := h.signal.dpcs.symm.trans hdpcs
    cases σ <;> simp_all [Signal.pending, Signal.dpcs]
  rw [Port.enter, if_pos (hall t)] at hstep
  cases hstep
  refine ⟨.quiet, ⟨h.slot.commandBitmask, h.slot.pendingCommands, fun _ _ => rfl⟩, ?_,
    .inr ⟨t, .stopped, ?_, rfl⟩⟩
  · exact (hquiet ▸ h.signal).congr rfl rfl (fun _ => rfl) (Port.setCmd_marks rfl)
  · exact .of_setCmd (fun u _ => hidle.settled u) ⟨rfl, rfl, rfl, hset.completionEvent⟩
      hidle.hbaIs rfl

theorem Inv.acquire (h : Inv p σ) (hstep : p.acquire t = some p') : ∃ σ, Inv p' σ := by
  rw [Port.acquire] at hstep
  split_ifs at hstep with hpc
  cases hstep
  obtain ⟨stage, hact, hallow⟩ := h.active (by rw [hpc.1]; exact Pc.noConfusion)
  have hstage := hact.cmd.pc.symm.trans hpc.1
  cases stage with
  | stopped =>
    refine ⟨σ, ⟨h.slot.commandBitmask, h.slot.pendingCommands, h.slot.ci⟩,
      h.signal.congr rfl rfl (fun _ => rfl) (Port.setCmd_marks rfl), .inr ⟨t, .acquired, ?_, hallow⟩⟩
    exact .of_setCmd hact.others
      ⟨rfl, hact.cmd.issued, hact.cmd.sets, hact.cmd.completionEvent⟩ hact.hbaIs ⟨hact.stage, rfl⟩
  | _ => cases hstage

theorem Inv.choose (h : Inv p σ) (hstep : p.choose t = some p') : ∃ σ, Inv p' σ := by
  rw [Port.choose] at hstep
  split_ifs at hstep with hpc
  cases hstep
  obtain ⟨stage, hact, hallow⟩ := h.active (by rw [hpc]; exact Pc.noConfusion)
  have hstage := hact.cmd.pc.symm.trans hpc
  have hzero : lowestClear p.commandBitmask = 0 := by
    rw [h.slot.commandBitmask]
    decide
  rw [hzero]
  cases stage with
  | acquired =>
    have hentered : update p.pendingCommands 0 (some t) 0 = some t :=
      update_self ..
    obtain rfl : σ = .quiet := hallow
    refine ⟨.quiet, ⟨h.slot.commandBitmask, fun i hi => ?_, h.slot.ci⟩,
      h.signal.congr rfl rfl (fun hm => by cases hm) (Port.setCmd_marks rfl),
      .inr ⟨t, .chosen, ?_, rfl⟩⟩
    · exact (update_of_ne hi _ _).trans (h.slot.pendingCommands i hi)
    · exact .of_setCmd hact.others
        ⟨rfl, hact.cmd.issued, hact.cmd.sets, hact.cmd.completionEvent⟩
        hact.hbaIs ⟨hact.stage.1, hact.stage.2, hentered⟩
  | _ => cases hstage

theorem Inv.issue (h : Inv p σ) (hstep : p.issue t = some p') : ∃ σ, Inv p' σ := by
  rw [Port.issue] at hstep
  split at hstep
  · rename_i slot hpc
    split_ifs at hstep with hbusy
    cases hstep
    obtain ⟨stage, hact, hallow⟩ := h.active (by rw [hpc]; exact Pc.noConfusion)
    obtain rfl : slot = 0 := hact.slot_eq_zero (.inl hpc)
    have hstage := hact.cmd.pc.symm.trans hpc
    cases stage with
    | chosen =>
      obtain ⟨-, hpxIs, hpending⟩ := hact.stage
      have hci : update p.ci 0 true 0 = true := update_self ..
      have howner : update p.slotOwner 0 (some t) 0 = some t := update_self ..
      refine ⟨σ, ⟨h.slot.commandBitmask, h.slot.pendingCommands, fun i hi => ?_⟩,
        h.signal.congr rfl rfl (fun _ => rfl) (Port.setCmd_marks rfl), .inr ⟨t, .running, ?_, hallow⟩⟩
      · exact (update_of_ne hi _ _).trans (h.slot.ci i hi)
      · exact .of_setCmd hact.others
          ⟨rfl, rfl, hact.cmd.sets, hact.cmd.completionEvent⟩
          hact.hbaIs ⟨hci, rfl, hpxIs, hpending, howner⟩
    | _ => cases hstage
  · cases hstep

theorem Inv.leave (h : Inv p σ) (hstep : p.leave t = some p') : ∃ σ, Inv p' σ := by
  rw [Port.leave] at hstep
  split at hstep
  · rename_i slot hpc
    split_ifs at hstep with hevent
    cases hstep
    obtain ⟨stage, hact, hallow⟩ := h.active (by rw [hpc]; exact Pc.noConfusion)
    have hstage := hact.cmd.completionEvent.symm.trans hevent
    obtain rfl := of_decide_eq_true hstage
    obtain ⟨hci, hown⟩ := hact.stage
    refine ⟨σ, ⟨h.slot.commandBitmask, h.slot.pendingCommands, h.slot.ci⟩,
      h.signal.congr rfl rfl (fun _ => rfl) (Port.setCmd_marks rfl), .inl
      ⟨⟨fun u => ?_, hact.hbaIs, hci⟩, hallow⟩⟩
    by_cases hu : u = t
    · subst hu
      rw [Port.setCmd_self]
      refine ⟨rfl, rfl, ?_, fun _ => hown⟩
      rw [hact.cmd.sets, hact.cmd.issued]
      rfl
    · rw [Port.setCmd_of_ne hu]
      exact hact.others u hu
  · cases hstep

theorem Inv.complete (h : Inv p σ) {slot : ℕ} {status : Status}
    (hstep : p.complete slot status = some p') : ∃ σ, Inv p' σ := by
  rw [Port.complete] at hstep
  split_ifs at hstep with hguard
  rw [Bool.and_eq_true, Bool.not_eq_true'] at hguard
  obtain ⟨rfl, t, hact, rfl⟩ := h.running hguard.1 hguard.2
  obtain ⟨-, -, hpxIs, hpending, howner⟩ := hact.stage
  have hcmd : CommandAt { p.cmds t with outcome := some status } (.finished status) :=
    ⟨hact.cmd.pc, hact.cmd.issued, hact.cmd.sets, hact.cmd.completionEvent⟩
  have houtcome : (update p.cmds t { p.cmds t with outcome := some status } t).outcome
      = some status := by rw [update_self]
  rw [howner] at hstep
  cases status with
  | success =>
    have hcleared : update p.ci 0 false 0 = false := update_self ..
    cases hstep
    refine ⟨.quiet, ⟨h.slot.commandBitmask, h.slot.pendingCommands, fun i hi =>
      (update_of_ne hi _ _).trans (h.slot.ci i hi)⟩,
      h.signal.congr rfl rfl (fun _ => rfl) (Port.setCmd_marks rfl),
      .inr ⟨t, .finished .success, ?_, rfl⟩⟩
    refine Active.of_setCmd
      (p := { p with
        ci := update p.ci 0 false, hbaIs := true, pxIs := some (p.pxIs.getD .success) })
      hact.others hcmd rfl
      ⟨fun hset => absurd (hset.symm.trans hcleared) Bool.noConfusion, ?_, hpending, houtcome⟩
    rw [hpxIs]
    rfl
  | retry =>
    cases hstep
    refine ⟨.quiet, ⟨h.slot.commandBitmask, h.slot.pendingCommands, h.slot.ci⟩,
      h.signal.congr rfl rfl (fun _ => rfl) (Port.setCmd_marks rfl),
      .inr ⟨t, .finished .retry, ?_, rfl⟩⟩
    exact Active.of_setCmd (p := { p with halted := true, hbaIs := true, pxIs := some .retry })
      hact.others hcmd rfl ⟨fun _ => ⟨rfl, rfl⟩, rfl, hpending, houtcome⟩

/-- A loop over the slots of which only the first one does anything. -/
theorem foldl_slots {β : Type*} {f : β → ℕ → β} {b : β} (h : ∀ i, i ≠ 0 → f (f b 0) i = f b 0) :
    (List.range (slotCount cap)).foldl f b = f b 0 := by
  rw [slotCount, List.range_succ_eq_map, List.foldl_cons, List.foldl_map]
  have hfixed : ∀ i, f (f b 0) (Nat.succ i) = f b 0 := fun i => h _ (Nat.succ_ne_zero i)
  exact List.foldl_fixed' hfixed _

variable (cap) in
/-- The loop of the handler marks the command. -/
theorem OnlySlot.irq_loop (h : OnlySlot p) {status : Status} (hpending : p.pendingCommands 0 = some t)
    (hmark : ¬ (p.ci 0 = true ∧ status = .success)) (hawait : (p.cmds t).awaitingSignal = false) :
    (List.range (slotCount cap)).foldl (Port.irqSlot status) (p, false)
      = (p.setCmd t { p.cmds t with awaitingSignal := true, commandStatus := status }, true) := by
  have hfirst : Port.irqSlot status (p, false) 0
      = (p.setCmd t { p.cmds t with awaitingSignal := true, commandStatus := status }, true) := by
    simp [Port.irqSlot, if_neg hmark, hpending, hawait]
  rw [foldl_slots, hfirst]
  intro i hi
  rw [hfirst, Port.irqSlot, show (p.setCmd t _).pendingCommands i = none from h.pendingCommands i hi,
    ite_self]

/-- Of the marks only that of the command in the table was set. -/
theorem SignalAt.mark (h : SignalAt p .quiet) (hpending : p.pendingCommands 0 = some t)
    {c : Command} (hc : c.awaitingSignal = true) (u : T) :
    ((p.setCmd t c).cmds u).awaitingSignal = true ↔ p.pendingCommands 0 = some u := by
  by_cases hu : u = t
  · subst hu
    rw [Port.setCmd_self]
    exact iff_of_true hc hpending
  · rw [Port.setCmd_of_ne hu, h.marks u, hpending]
    exact iff_of_false (fun hm => by cases hm.1) fun he => hu (Option.some.inj he).symm

theorem Inv.irq (h : Inv p σ) : ∃ σ, Inv (p.irq cap) σ := by
  rw [Port.irq]
  by_cases hhba : p.hbaIs = true
  · rw [if_pos hhba]
    rcases h.command with ⟨hidle, -⟩ | ⟨t, stage, hact, hallow⟩
    · rw [hidle.hbaIs] at hhba
      cases hhba
    · have hraised := hact.hbaIs.symm.trans hhba
      cases stage with
      | finished status =>
        obtain rfl : σ = .quiet := hallow
        obtain ⟨hci, hpxIs, hpending, houtcome⟩ := hact.stage
        have hstatus : (if p.pxIs = some .retry then Status.retry else .success) = status := by
          rw [hpxIs]
          cases status <;> rfl
        have hmark : ¬ (p.ci 0 = true ∧ status = .success) := by
          rintro ⟨hset, rfl⟩
          cases (hci hset).2
        have hawait : (p.cmds t).awaitingSignal = false :=
          Bool.eq_false_iff.mpr fun ha => by cases ((h.signal.marks t).mp ha).1
        have hloop := h.slot.irq_loop cap hpending hmark hawait
        dsimp only
        rw [hstatus, hloop]
        refine ⟨.queued, ⟨h.slot.commandBitmask, h.slot.pendingCommands, h.slot.ci⟩,
          ⟨Bool.or_true _, h.signal.dpcs, fun u => ?_, fun _ => hpending ▸ Option.some_ne_none t⟩,
          .inr ⟨t, .handled, ?_, rfl⟩⟩
        · exact (h.signal.mark hpending rfl u).trans (and_iff_right rfl).symm
        have howned : (update p.cmds t
            { p.cmds t with awaitingSignal := true, commandStatus := status } t).outcome
            = some (update p.cmds t
              { p.cmds t with awaitingSignal := true, commandStatus := status } t).commandStatus := by
          rw [update_self]
          exact houtcome
        exact Active.of_setCmd
          (p := { p with portDpc := p.portDpc || true, pxIs := none, hbaIs := false }) hact.others
          ⟨hact.cmd.pc, hact.cmd.issued, hact.cmd.sets, hact.cmd.completionEvent⟩ rfl
          ⟨fun hset => (hci hset).1, hpending, howned⟩
      | _ => cases hraised
  · rw [if_neg hhba]
    exact ⟨σ, h⟩

omit [DecidableEq T] in
/-- A step of the DPC that writes no command. -/
theorem Inv.moveDpc (h : Inv p σ) {σ' : Signal} {portDpc : Bool} {dpcs : List DpcAt} {lock : ℕ}
    (hdpc : portDpc = decide (σ' = .queued)) (hdpcs : dpcs = σ'.dpcs)
    (hmarked : σ'.marked = σ.marked) (hpending : σ'.pending = σ.pending)
    (hquiet : σ ≠ .quiet) :
    Inv { p with portDpc := portDpc, dpcs := dpcs, lock := lock } σ' := by
  refine ⟨⟨h.slot.commandBitmask, h.slot.pendingCommands, h.slot.ci⟩,
    ⟨hdpc, hdpcs, fun u => hmarked ▸ h.signal.marks u, fun hm => h.signal.entered (hmarked ▸ hm)⟩, ?_⟩
  rcases h.command with ⟨hidle, hp⟩ | ⟨t, stage, hact, hallow⟩
  · exact .inl ⟨⟨hidle.settled, hidle.hbaIs, hidle.ci⟩, hpending.trans hp⟩
  · refine .inr ⟨t, stage, ⟨hact.others, hact.cmd, hact.hbaIs, ?_⟩, ?_⟩
    · have hok := hact.stage
      cases stage <;> exact hok
    · cases stage with
      | handled | signalled => exact hpending.trans hallow
      | _ => exact absurd hallow hquiet

omit [DecidableEq T] in
theorem Inv.dpcStart (h : Inv p σ) (hstep : p.dpcStart = some p') : ∃ σ, Inv p' σ := by
  rw [Port.dpcStart] at hstep
  split_ifs at hstep with hdpc
  cases hstep
  obtain rfl : σ = .queued := of_decide_eq_true (h.signal.portDpc.symm.trans hdpc)
  refine ⟨.looking, h.moveDpc rfl ?_ rfl rfl (by decide)⟩
  rw [h.signal.dpcs]
  rfl

/-- The event of the command is set. -/
theorem Inv.setEvent (h : Inv p .setting) (hpending : p.pendingCommands 0 = some t) :
    Inv ((p.setCmd t { p.cmds t with
      completionEvent := true, sets := (p.cmds t).sets + 1 }).setDpc 0 ⟨0, .clear⟩) .clearing := by
  rcases h.command with ⟨-, hp⟩ | ⟨u, stage, hact, hallow⟩
  · cases hp
  cases stage with
  | handled =>
    obtain ⟨hci, hpend, hown⟩ := hact.stage
    obtain rfl : t = u := Option.some.inj (hpending.symm.trans hpend)
    refine ⟨⟨h.slot.commandBitmask, h.slot.pendingCommands, h.slot.ci⟩,
      ⟨h.signal.portDpc, ?_, fun u => ?_, h.signal.entered⟩, .inr ⟨t, .signalled, ?_, rfl⟩⟩
    · show p.dpcs.set 0 _ = _
      rw [h.signal.dpcs]
      rfl
    · have hsame : ∀ u, ((p.setCmd t { p.cmds t with
          completionEvent := true, sets := (p.cmds t).sets + 1 }).cmds u).awaitingSignal =
          (p.cmds u).awaitingSignal := Port.setCmd_marks rfl
      exact (Bool.eq_iff_iff.mp (hsame u)).trans (h.signal.marks u)
    · refine Active.of_setCmd (p := p.setDpc 0 ⟨0, .clear⟩) hact.others
        ⟨hact.cmd.pc, hact.cmd.issued, ?_, rfl⟩ hact.hbaIs ⟨hci, ?_⟩
      · rw [hact.cmd.sets]
        rfl
      · rw [Port.setCmd_self]
        exact hown
  | signalled => cases hallow
  | _ => cases hallow

/-- The mark of the command is cleared; its thread may have gone. -/
theorem Inv.clearMark (h : Inv p .clearing) (hpending : p.pendingCommands 0 = some t) :
    Inv ((p.setCmd t { p.cmds t with awaitingSignal := false }).setDpc 0 ⟨1, .look⟩) (.past 0) := by
  have hsame : ∀ u, ∃ b, (p.setCmd t { p.cmds t with awaitingSignal := false }).cmds u =
      { p.cmds u with awaitingSignal := b } := by
    intro u
    by_cases hut : u = t
    · subst hut
      exact ⟨false, Port.setCmd_self⟩
    · exact ⟨_, Port.setCmd_of_ne hut⟩
  have hset : ∀ u, Settled (p.cmds u) →
      Settled ((p.setCmd t { p.cmds t with awaitingSignal := false }).cmds u) := by
    intro u hu
    obtain ⟨b, hb⟩ := hsame u
    rw [hb]
    exact ⟨hu.pc, hu.completionEvent, hu.sets, hu.own⟩
  refine ⟨⟨h.slot.commandBitmask, h.slot.pendingCommands, h.slot.ci⟩,
    ⟨h.signal.portDpc, ?_, fun u => ?_, fun hm => by cases hm⟩, ?_⟩
  · show p.dpcs.set 0 _ = _
    rw [h.signal.dpcs]
    rfl
  · refine iff_of_false (fun ha => ?_) fun hm => by cases hm.1
    change ((p.setCmd t _).cmds u).awaitingSignal = true at ha
    by_cases hut : u = t
    · subst hut
      rw [Port.setCmd_self] at ha
      cases ha
    · rw [Port.setCmd_of_ne hut, h.signal.marks u, hpending] at ha
      exact hut (Option.some.inj ha.2).symm
  · rcases h.command with ⟨hidle, -⟩ | ⟨u, stage, hact, hallow⟩
    · exact .inl ⟨⟨fun u => hset u (hidle.settled u), hidle.hbaIs, hidle.ci⟩, rfl⟩
    · cases stage with
      | signalled =>
        obtain ⟨hci, hown⟩ := hact.stage
        obtain ⟨b, hb⟩ := hsame u
        refine .inr ⟨u, .signalled, ⟨fun v hv => hset v (hact.others v hv), ?_, hact.hbaIs, hci, ?_⟩,
          rfl⟩
        · show CommandAt ((p.setCmd t { p.cmds t with awaitingSignal := false }).cmds u) _
          rw [hb]
          exact ⟨hact.cmd.pc, hact.cmd.issued, hact.cmd.sets, hact.cmd.completionEvent⟩
        · show ((p.setCmd t { p.cmds t with awaitingSignal := false }).cmds u).outcome =
            some ((p.setCmd t { p.cmds t with awaitingSignal := false }).cmds u).commandStatus
          rw [hb]
          exact hown
      | handled => cases hallow
      | _ => cases hallow

theorem Inv.dpcStep (h : Inv p σ) {i : ℕ} (hstep : p.dpcStep cap i = some p') : ∃ σ, Inv p' σ := by
  have hpos : ¬ slotCount cap ≤ 0 := Nat.not_succ_le_zero _
  rw [Port.dpcStep, h.signal.dpcs] at hstep
  obtain rfl | hi := Nat.eq_zero_or_pos i
  swap
  · have hnone : σ.dpcs[i]? = none := List.getElem?_eq_none (by cases σ <;> simp [Signal.dpcs] <;> omega)
    rw [hnone] at hstep
    cases hstep
  cases σ with
  | quiet | queued => cases hstep
  | looking =>
    obtain ⟨t, ht⟩ := Option.ne_none_iff_exists'.mp (h.signal.entered rfl)
    have hawait := (h.signal.marks t).mpr ⟨rfl, ht⟩
    simp only [Signal.dpcs, List.getElem?_cons_zero, if_neg hpos, ht, if_pos hawait,
      Option.some.injEq] at hstep
    subst hstep
    exact ⟨.setting, h.moveDpc h.signal.portDpc rfl rfl rfl (by decide)⟩
  | setting =>
    obtain ⟨t, ht⟩ := Option.ne_none_iff_exists'.mp (h.signal.entered rfl)
    simp only [Signal.dpcs, List.getElem?_cons_zero, if_neg hpos, ht, Option.some.injEq] at hstep
    subst hstep
    exact ⟨.clearing, h.setEvent ht⟩
  | clearing =>
    obtain ⟨t, ht⟩ := Option.ne_none_iff_exists'.mp (h.signal.entered rfl)
    simp only [Signal.dpcs, List.getElem?_cons_zero, if_neg hpos, ht, Option.some.injEq] at hstep
    subst hstep
    exact ⟨.past 0, h.clearMark ht⟩
  | past k =>
    have hnone := h.slot.pendingCommands (k + 1) (Nat.succ_ne_zero k)
    simp only [Signal.dpcs, List.getElem?_cons_zero, hnone] at hstep
    split_ifs at hstep with hend
    · cases hstep
      exact ⟨.quiet, h.moveDpc h.signal.portDpc rfl rfl rfl (by simp)⟩
    · cases hstep
      exact ⟨.past (k + 1), h.moveDpc h.signal.portDpc (by rw [h.signal.dpcs]; rfl) rfl rfl (by simp)⟩

theorem Inv.step {a : Act T} (h : Inv p σ) (hok : OneAtATime p a)
    (hstep : step cap p a = some p') : ∃ σ, Inv p' σ := by
  cases a with
  | enter t => exact h.enter hok.1 hok.2 hstep
  | acquire t => exact h.acquire hstep
  | choose t => exact h.choose hstep
  | issue t => exact h.issue hstep
  | leave t => exact h.leave hstep
  | complete slot status => exact h.complete hstep
  | irq =>
    cases hstep
    exact h.irq
  | dpcStart => exact h.dpcStart hstep
  | dpc i => exact h.dpcStep hstep

end

/-- On a controller with two slots two threads send a command each, one behind the other; the second
one fails. -/
def twoCalls : List (Act Bool) :=
  [.enter false, .acquire false, .choose false, .issue false, .complete 0 .success, .irq, .dpcStart,
    .dpc 0, .dpc 0, .leave false, .dpc 0, .dpc 0, .dpc 0,
    .enter true, .acquire true, .choose true, .issue true, .complete 0 .retry, .irq, .dpcStart,
    .dpc 0, .dpc 0]

end Obos.Ahci
