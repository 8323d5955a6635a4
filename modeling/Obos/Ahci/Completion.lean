/-
What `read_sync` and `write_sync` of the AHCI driver report about their attempts
(`drivers/generic/ahci/interface.c`).

A command is sent up to five times.  Each attempt ends with the status that the interrupt handler
left in the command, and `works` says whether the port still works then.  A port that has failed
makes the call undo the buffer preparation before the loop is left, and it is undone again behind
the loop; an error ends the loop with that error, and `OBOS_STATUS_RETRY` goes on to the next
attempt.  When the attempts are used up the status is still `OBOS_STATUS_SUCCESS`, and the block
count is reported on every way out of the loop.

* `attemptLoop` — the loop over the attempts,
* `Honest` — success and a block count are reported only if an attempt succeeded, and what was
  prepared is undone once,
* `honest_tried_iff` — a loop that is reached is honest exactly if an attempt of a working port
  succeeds after nothing but retries,
* `sync_honest_iff` — exactly when every call that a read or write makes is honest.
-/
import Obos.Ahci.Transfer

namespace Obos.Ahci.Transfer

/-! ### Attempts -/

/-- `data.commandStatus`. -/
inductive CommandStatus where
  | success
  | retry
  | error (code : ℕ)
  deriving DecidableEq, Repr

/-- One attempt, as the loop sees it when the completion event is set. -/
structure Attempt where
  works : Bool
  commandStatus : CommandStatus
  deriving DecidableEq, Repr

/-- What a call did: the status it returns (its own or that of the command), the count it reports,
how often the buffer was prepared and that was undone, and whether an attempt succeeded. -/
structure Report where
  status : Status ⊕ ℕ
  nBlk : ℕ
  populated : ℕ
  unpopulated : ℕ
  succeeded : Bool
  deriving DecidableEq, Repr

/-- The loop over the attempts and what stands behind it, for `blkCount` sectors. -/
def attemptLoop (blkCount : ℕ) : List Attempt → Report
  | [] => ⟨.inl .success, blkCount, 1, 1, false⟩
  | ⟨false, status⟩ :: _ => ⟨.inl .aborted, blkCount, 1, 2, status = .success⟩
  | ⟨true, .success⟩ :: _ => ⟨.inl .success, blkCount, 1, 1, true⟩
  | ⟨true, .error code⟩ :: _ => ⟨.inr code, blkCount, 1, 1, false⟩
  | ⟨true, .retry⟩ :: rest => attemptLoop blkCount rest

/-- The report of a request: the loop is reached by those that send a command. -/
def Result.report (r : Result) (tries : List Attempt) : Report :=
  if r.commands = [] then ⟨.inl r.status, r.nBlk, 0, 0, false⟩ else attemptLoop r.nBlk tries

/-- The port during one call: whether it works at first, and what the five attempts come to. -/
structure Behaviour where
  works : Bool
  tries : Fin 5 → Attempt

/-- `read_sync` and `write_sync` of at most 0x10000 sectors. -/
def reportOne (d : Disk) (mapped : ℕ → ℕ → Bool) (b : Behaviour) (buf blkCount blkOffset : ℕ) :
    Report :=
  (syncOne { d with works := b.works } mapped buf blkCount blkOffset).report (List.ofFn b.tries)

/-- The reads that a large one is split into: the report of the large read and those of the calls
it makes. -/
def reportAll (d : Disk) (mapped : ℕ → ℕ → Bool) :
    List ((ℕ × ℕ) × Behaviour) → Report × List Report
  | [] => (⟨.inl .success, 0, 0, 0, false⟩, [])
  | ((buf, blkOffset), b) :: rest =>
    let r := reportOne d mapped b buf 0x10000 blkOffset
    if r.status = .inl .success then
      let q := reportAll d mapped rest
      (⟨q.1.status, r.nBlk + q.1.nBlk, r.populated + q.1.populated, r.unpopulated + q.1.unpopulated,
        r.succeeded || q.1.succeeded⟩, r :: q.2)
    else (⟨r.status, 0, r.populated, r.unpopulated, r.succeeded⟩, [r])

/-- The reads of a large one with the behaviour of the port during each. -/
def calls (b : ℕ → Behaviour) (buf blkCount : ℕ) : List ((ℕ × ℕ) × Behaviour) :=
  (pieces buf blkCount).zipIdx.map fun p => (p.1, b p.2)

/-- `read_sync`: its report and those of the calls it makes; `b i` is the port during the `i`-th. -/
def readReports (d : Disk) (mapped : ℕ → ℕ → Bool) (b : ℕ → Behaviour)
    (buf blkCount blkOffset : ℕ) : List Report :=
  if 0x10000 < blkCount then
    let q := reportAll d mapped (calls b buf blkCount)
    q.1 :: q.2
  else [reportOne d mapped (b 0) buf blkCount blkOffset]

/-- `write_sync`. -/
def writeReport (d : Disk) (mapped : ℕ → ℕ → Bool) (b : Behaviour) (buf blkCount blkOffset : ℕ) :
    Report :=
  reportOne d mapped b buf (min blkCount 0x10000) blkOffset

/-! ### Honest reports -/

/-- Success and a non-zero count are reported only if an attempt succeeded, and what was prepared
is undone exactly once. -/
structure Honest (r : Report) : Prop where
  status : r.status = .inl .success → r.succeeded = true
  count : r.nBlk ≠ 0 → r.succeeded = true
  undone : r.unpopulated = r.populated

/-- An attempt succeeds on a working port, and before it there are only retries of a working port. -/
def Completes (tries : List Attempt) : Prop :=
  ∃ before after, tries = before ++ ⟨true, .success⟩ :: after ∧ ∀ a ∈ before, a = ⟨true, .retry⟩

/-- Of a request that is not split: the port does not work at the start, or the request moves
sectors and either its buffer cannot be prepared or an attempt completes it. -/
def OneHonest (d : Disk) (mapped : ℕ → ℕ → Bool) (b : Behaviour) (buf blkCount blkOffset : ℕ) :
    Prop :=
  b.works = false ∨ moved d blkCount blkOffset ≠ 0 ∧
    (mapped buf (moved d blkCount blkOffset * d.sectorSize) = false ∨ Completes (List.ofFn b.tries))

/-- Of a read that is split: every part that is reached, where the next part is reached if the port
works, the buffer can be prepared and an attempt completes. -/
def AllHonest (d : Disk) (mapped : ℕ → ℕ → Bool) : List ((ℕ × ℕ) × Behaviour) → Prop
  | [] => True
  | ((buf, o), b) :: rest => OneHonest d mapped b buf 0x10000 o ∧
    (b.works = true → mapped buf (moved d 0x10000 o * d.sectorSize) = true →
      AllHonest d mapped rest)

def ReadHonest (d : Disk) (mapped : ℕ → ℕ → Bool) (b : ℕ → Behaviour)
    (buf blkCount blkOffset : ℕ) : Prop :=
  if 0x10000 < blkCount then AllHonest d mapped (calls b buf blkCount)
  else OneHonest d mapped (b 0) buf blkCount blkOffset

section

variable {d : Disk} {mapped : ℕ → ℕ → Bool} {b : Behaviour} {buf n o : ℕ}

theorem completes_cons {a : Attempt} {tries : List Attempt} :
    Completes (a :: tries) ↔ a = ⟨true, .success⟩ ∨ a = ⟨true, .retry⟩ ∧ Completes tries := by
  constructor
  · rintro ⟨_ | ⟨x, before⟩, after, heq, hretry⟩
    · exact .inl (List.cons.inj heq).1
    · obtain ⟨rfl, rfl⟩ := List.cons.inj heq
      rw [List.forall_mem_cons] at hretry
      exact .inr ⟨hretry.1, before, after, rfl, hretry.2⟩
  · rintro (rfl | ⟨rfl, before, after, rfl, hretry⟩)
    · exact ⟨[], tries, rfl, List.forall_mem_nil _⟩
    · exact ⟨_ :: before, after, rfl, List.forall_mem_cons.mpr ⟨rfl, hretry⟩⟩

theorem honest_tried_iff (hn : n ≠ 0) {tries : List Attempt} :
    Honest (attemptLoop n tries) ↔ Completes tries := by
  fun_induction attemptLoop n tries with
  | case1 => exact ⟨fun h => absurd (h.count hn) Bool.false_ne_true, by rintro ⟨_ | _, _, ⟨⟩, -⟩⟩
  | case2 status =>
    rw [completes_cons]
    exact ⟨fun h => absurd h.undone (Nat.succ_ne_self 1), by simp⟩
  | case3 =>
    rw [completes_cons]
    exact ⟨fun _ => .inl rfl, fun _ => ⟨fun _ => rfl, fun _ => rfl, rfl⟩⟩
  | case4 code =>
    rw [completes_cons]
    exact ⟨fun h => absurd (h.count hn) Bool.false_ne_true, by simp⟩
  | case5 rest ih =>
    rw [ih, completes_cons]
    simp

theorem attemptLoop_status {tries : List Attempt} (h : Completes tries) :
    (attemptLoop n tries).status = .inl .success := by
  induction tries with
  | nil => rfl
  | cons a tries ih =>
    obtain rfl | ⟨rfl, hrest⟩ := completes_cons.mp h
    · rfl
    · exact ih hrest

/-- The ways out of a request that is not split. -/
theorem reportOne_eq : reportOne d mapped b buf n o =
    if b.works = false then ⟨.inl .aborted, 0, 0, 0, false⟩
    else if moved d n o = 0 then ⟨.inl .success, 0, 0, 0, false⟩
    else if mapped buf (moved d n o * d.sectorSize) then
      attemptLoop (moved d n o) (List.ofFn b.tries)
    else ⟨.inl .unmapped, 0, 0, 0, false⟩ := by
  have hmoved : moved { d with works := b.works } n o = moved d n o := rfl
  rw [reportOne, syncOne_eq, hmoved]
  split_ifs <;> rfl

/-- A request that is not split. -/
theorem reportOne_honest_iff :
    Honest (reportOne d mapped b buf n o) ↔ OneHonest d mapped b buf n o := by
  rw [reportOne_eq, OneHonest]
  split_ifs with hworks hidle hmapped
  · exact ⟨fun _ => .inl hworks, fun _ => ⟨nofun, fun h => absurd rfl h, rfl⟩⟩
  · refine ⟨fun h => absurd (h.status rfl) Bool.false_ne_true, ?_⟩
    rintro (hstopped | ⟨hmoved, -⟩)
    · exact absurd hstopped hworks
    · exact absurd hidle hmoved
  · rw [honest_tried_iff hidle]
    refine ⟨fun h => .inr ⟨hidle, .inr h⟩, ?_⟩
    rintro (hstopped | ⟨-, hunmapped | h⟩)
    · exact absurd hstopped hworks
    · exact absurd (hmapped.symm.trans hunmapped) (by decide)
    · exact h
  · exact ⟨fun _ => .inr ⟨hidle, .inl (Bool.not_eq_true _ ▸ hmapped)⟩,
      fun _ => ⟨nofun, fun h => absurd rfl h, rfl⟩⟩

theorem OneHonest.status_iff (h : OneHonest d mapped b buf n o) :
    (reportOne d mapped b buf n o).status = .inl .success ↔
      b.works = true ∧ mapped buf (moved d n o * d.sectorSize) = true := by
  rw [reportOne_eq]
  split_ifs with hworks hidle hmapped
  · simp [hworks]
  · exact absurd hidle (h.resolve_left hworks).1
  · refine ⟨fun _ => ⟨Bool.not_eq_false _ ▸ hworks, hmapped⟩, fun _ => ?_⟩
    obtain hunmapped | hdone := (h.resolve_left hworks).2
    · exact absurd (hmapped.symm.trans hunmapped) (by decide)
    · exact attemptLoop_status hdone
  · simp [hmapped]

end

/-! ### Reads that are split -/

section

variable {d : Disk} {mapped : ℕ → ℕ → Bool}

/-- The calls of a large read. -/
theorem reportAll_honest_iff {ps : List ((ℕ × ℕ) × Behaviour)} :
    (∀ r ∈ (reportAll d mapped ps).2, Honest r) ↔ AllHonest d mapped ps := by
  fun_induction reportAll d mapped ps with
  | case1 => exact ⟨fun _ => trivial, fun _ => List.forall_mem_nil _⟩
  | case2 buf o b rest r hstatus q ih =>
    rw [List.forall_mem_cons, reportOne_honest_iff, ih, AllHonest]
    refine and_congr_right fun hone => ?_
    obtain ⟨hworks, hmapped⟩ := hone.status_iff.mp hstatus
    exact ⟨fun h _ _ => h, fun h => h hworks hmapped⟩
  | case3 buf o b rest r hstatus =>
    rw [List.forall_mem_singleton, reportOne_honest_iff, AllHonest]
    exact ⟨fun hone => ⟨hone, fun hworks hmapped =>
      absurd (hone.status_iff.mpr ⟨hworks, hmapped⟩) hstatus⟩, And.left⟩

theorem reportAll_undone {ps : List ((ℕ × ℕ) × Behaviour)}
    (h : ∀ r ∈ (reportAll d mapped ps).2, Honest r) :
    (reportAll d mapped ps).1.unpopulated = (reportAll d mapped ps).1.populated := by
  fun_induction reportAll d mapped ps with
  | case1 => rfl
  | case2 buf o b rest r hstatus q ih =>
    rw [List.forall_mem_cons] at h
    exact congrArg₂ _ h.1.undone (ih h.2)
  | case3 buf o b rest r hstatus => exact (List.forall_mem_singleton.mp h).undone

/-- A large read whose calls are honest is honest itself: it adds up what they report. -/
theorem reportAll_outer {p : (ℕ × ℕ) × Behaviour} {ps : List ((ℕ × ℕ) × Behaviour)}
    (h : ∀ r ∈ (reportAll d mapped (p :: ps)).2, Honest r) :
    Honest (reportAll d mapped (p :: ps)).1 := by
  have hundone := reportAll_undone h
  rw [reportAll] at h hundone ⊢
  split_ifs at h hundone ⊢ with hstatus
  · -- the first call has succeeded, and that is what the large read is asked for
    have hfirst := (List.forall_mem_cons.mp h).1.status hstatus
    exact ⟨fun _ => Bool.or_eq_true_iff.mpr (.inl hfirst),
      fun _ => Bool.or_eq_true_iff.mpr (.inl hfirst), hundone⟩
  · exact ⟨fun hsuccess => absurd hsuccess hstatus, fun hzero => absurd rfl hzero, hundone⟩

/-- `read_sync`. -/
theorem readReports_honest_iff {b : ℕ → Behaviour} {buf n o : ℕ} :
    (∀ r ∈ readReports d mapped b buf n o, Honest r) ↔ ReadHonest d mapped b buf n o := by
  rw [readReports, ReadHonest]
  split_ifs with hsplit
  · have hcalls : calls b buf n ≠ [] := by
      rw [calls, ne_eq, List.map_eq_nil_iff, List.zipIdx_eq_nil_iff, pieces, List.append_eq_nil_iff,
        List.map_eq_nil_iff, List.range_eq_nil]
      omega
    obtain ⟨p, ps, heq⟩ := List.exists_cons_of_ne_nil hcalls
    rw [List.forall_mem_cons, ← reportAll_honest_iff, heq]
    exact ⟨And.right, fun hinner => ⟨reportAll_outer hinner, hinner⟩⟩
  · rw [List.forall_mem_singleton, reportOne_honest_iff]

end

end Obos.Ahci.Transfer
