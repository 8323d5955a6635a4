/-
The buffers and the output of a serial port (`drivers/x86_64/uart`).

A buffer is a block of `nAllocated` bytes, of which `szBuf` have not been read.  Popping moves
`offset` forward, and when four bytes of the block are no longer used it moves the unread ones
to the start of a new block.  Appending does not look at `offset`: the byte goes to the cell
`szBuf`.  An access outside the block has no result.

A write waits for the transmitter before each byte, and when that takes too long it puts the
rest into the out buffer.  It passes its whole length for the length of the rest, so behind the
first byte it queues bytes that are not the caller's, and the copy ends with a look at the byte
behind.  The bytes of a write that is sent do not wait for those that are queued.

* `IsQueue.appendStrLen`, `IsQueue.pop` — a buffer with the unread bytes `q`, behind each call,
* `buffer_refines` — a buffer that is appended to only while `offset` is zero is a FIFO,
* `output_ordered_run` — the bytes keep their order in every run of writes that are sent or queued
  as a whole, and of flushes.
-/
import Obos.Machine
import Obos.Lib.Block
import Obos.Lib.Run

namespace Obos.Serial

/-- `buffer`.  The block is missing before the first byte. -/
structure Buffer where
  buf : Option (List UInt8)
  szBuf : ℕ
  nAllocated : ℕ
  offset : ℕ
  deriving DecidableEq, Repr

namespace Buffer

def empty : Buffer := ⟨none, 0, 0, 0⟩

variable (b : Buffer)

/-- `Reallocate` of the block to `n` bytes; fresh memory holds `junk`. -/
def grow (n : ℕ) (junk : ℕ → UInt8) : Buffer :=
  { b with nAllocated := n, buf := some (Block.realloc (b.buf.getD []) n junk) }

/-- A write to the cell `index`. -/
def set (index : ℕ) (what : UInt8) : Option Buffer :=
  match b.buf with
  | none => none
  | some l => (Block.put l index [what]).map fun l => { b with buf := some l }

/-- `append_to_buffer_char`. -/
def appendChar (what : UInt8) (junk : ℕ → UInt8) : Option Buffer :=
  let index := b.szBuf
  let b := { b with szBuf := b.szBuf + 1 }
  let b := if b.nAllocated ≤ index then b.grow (b.nAllocated + 4) junk else b
  b.set index what

/-- `append_to_buffer_str_len`. -/
def appendStrLen (what : List UInt8) (junk : ℕ → UInt8) : Option Buffer :=
  let b := if b.nAllocated < b.szBuf + what.length then
    b.grow (b.nAllocated + (what.length + 3) / 4 * 4) junk else b
  what.foldlM (fun b ch => b.appendChar ch junk) b

/-- The new block of `pop_from_buffer`, once four bytes are not used. -/
def shrink (l : List UInt8) : Option Buffer :=
  if 4 ≤ b.nAllocated - b.szBuf then
    (Block.get l b.offset b.szBuf).map fun l =>
      { b with buf := some l, nAllocated := b.szBuf, offset := 0 }
  else some b

/-- `pop_from_buffer`. -/
def pop : Option (Buffer × UInt8) :=
  match b.buf with
  | none => some (b, 0)
  | some l =>
    if b.szBuf = 0 then some (b, 0)
    else (l[b.offset]?).bind fun ret =>
      (shrink { b with szBuf := b.szBuf - 1, offset := b.offset + 1 } l).map fun b => (b, ret)

end Buffer

/-! ### Calls -/

inductive Op where
  | char (what : UInt8)
  | strLen (what : List UInt8)
  | pop
  deriving DecidableEq, Repr

/-- A call, and the byte that it returns. -/
def step (junk : ℕ → UInt8) (b : Buffer) : Op → Option (Buffer × Option UInt8)
  | .char what => (b.appendChar what junk).map fun b => (b, none)
  | .strLen what => (b.appendStrLen what junk).map fun b => (b, none)
  | .pop => b.pop.map fun r => (r.1, some r.2)

/-- The calls on a queue of bytes; a pop of an empty one returns zero. -/
def spec (q : List UInt8) : Op → List UInt8 × Option UInt8
  | .char what => (q ++ [what], none)
  | .strLen what => (q ++ what, none)
  | .pop => (q.tail, some (q.headD 0))

/-- Nothing is appended while `offset` is not zero. -/
def OpOk (b : Buffer) : Op → Prop
  | .char _ => b.offset = 0
  | .strLen what => b.offset = 0 ∨ what = []
  | .pop => True

instance (b : Buffer) : DecidablePred (OpOk b)
  | .char _ => inferInstanceAs (Decidable (_ = _))
  | .strLen _ => inferInstanceAs (Decidable (_ ∨ _))
  | .pop => isTrue trivial

/-! ### The unread bytes -/

/-- The unread bytes are `q`, and they lie in the block. -/
structure IsQueue (b : Buffer) (q : List UInt8) : Prop where
  szBuf : b.szBuf = q.length
  block : ∃ l, b.buf.getD [] = l ∧ l.length = b.nAllocated ∧ b.offset + b.szBuf ≤ l.length ∧
    (l.drop b.offset).take b.szBuf = q

section

variable {b b' : Buffer} {q : List UInt8} {junk : ℕ → UInt8}

theorem isQueue_empty : IsQueue .empty [] := ⟨rfl, [], rfl, rfl, le_rfl, rfl⟩

variable (junk) in
/-- Growing a buffer that starts at the first cell. -/
theorem IsQueue.grow (h : IsQueue b q) (hoff : b.offset = 0) {n : ℕ} (hn : b.nAllocated ≤ n) :
    IsQueue (b.grow n junk) q := by
  obtain ⟨l, hl, hlen, hle, hq⟩ := h.block
  rw [hoff, Nat.zero_add] at hle
  rw [hoff, List.drop_zero] at hq
  refine ⟨h.szBuf, Block.realloc l n junk, ?_, Block.length_realloc, ?_, ?_⟩
  · rw [← hl]
    rfl
  · show b.offset + b.szBuf ≤ _
    rw [Block.length_realloc, hoff]
    omega
  · show ((Block.realloc l n junk).drop b.offset).take b.szBuf = q
    rw [hoff, List.drop_zero, Block.take_realloc (by omega) hle, hq]

/-- The block is there if it has a cell. -/
theorem buf_eq_some {l : List UInt8} (hl : b.buf.getD [] = l) (hpos : 0 < l.length) :
    b.buf = some l := by
  cases hb : b.buf with
  | none =>
    rw [← hl, hb] at hpos
    cases hpos
  | some m =>
    rw [hb, Option.getD_some] at hl
    rw [hl]

/-- A write to the cell behind the unread bytes. -/
theorem IsQueue.set (h : IsQueue b q) (hoff : b.offset = 0) (hroom : b.szBuf < b.nAllocated)
    (what : UInt8) :
    ∃ b', ({ b with szBuf := b.szBuf + 1 } : Buffer).set b.szBuf what = some b' ∧
      IsQueue b' (q ++ [what]) ∧ b'.offset = 0 := by
  obtain ⟨l, hl, hlen, hle, hq⟩ := h.block
  rw [hoff, List.drop_zero] at hq
  have hbuf : b.buf = some l := buf_eq_some hl (by omega)
  have hput : Block.put l b.szBuf [what]
      = some (l.take b.szBuf ++ [what] ++ l.drop (b.szBuf + 1)) :=
    Block.put_eq (by rw [List.length_singleton]; omega)
  refine ⟨{ b with szBuf := b.szBuf + 1, buf := some (l.take b.szBuf ++ [what] ++
    l.drop (b.szBuf + 1)) }, ?_, ⟨?_, _, rfl, ?_, ?_, ?_⟩, hoff⟩
  · rw [Buffer.set, hbuf]
    dsimp only
    rw [hput]
    rfl
  · rw [List.length_append, h.szBuf, List.length_singleton]
  · exact (Block.length_put hput).trans hlen
  · show b.offset + (b.szBuf + 1) ≤ _
    rw [Option.getD_some, Block.length_put hput, hoff]
    omega
  · have htake := Block.take_put hput
    rw [List.length_singleton] at htake
    rw [Option.getD_some, hoff, List.drop_zero, htake, hq]

variable (junk) in
/-- A byte goes behind the unread ones if they start at the first cell. -/
theorem IsQueue.appendChar (h : IsQueue b q) (hoff : b.offset = 0) (what : UInt8) :
    ∃ b', b.appendChar what junk = some b' ∧ IsQueue b' (q ++ [what]) ∧ b'.offset = 0 := by
  by_cases hfull : b.nAllocated ≤ b.szBuf
  · have hgrown := h.grow junk hoff (Nat.le_add_right b.nAllocated 4)
    obtain ⟨l, -, hlen, hle, -⟩ := h.block
    have hroom : (b.grow (b.nAllocated + 4) junk).szBuf
        < (b.grow (b.nAllocated + 4) junk).nAllocated := by
      show b.szBuf < b.nAllocated + 4
      omega
    obtain ⟨b', hset, hq, hoff'⟩ := hgrown.set hoff hroom what
    refine ⟨b', ?_, hq, hoff'⟩
    rw [Buffer.appendChar]
    rw [if_pos hfull]
    exact hset
  · obtain ⟨b', hset, hq, hoff'⟩ := h.set hoff (Nat.lt_of_not_le hfull) what
    refine ⟨b', ?_, hq, hoff'⟩
    rw [Buffer.appendChar]
    rw [if_neg hfull]
    exact hset

/-- The loop of `append_to_buffer_str_len`. -/
theorem IsQueue.appendChars (h : IsQueue b q) (hoff : b.offset = 0) (what : List UInt8) :
    ∃ b', what.foldlM (fun b ch => b.appendChar ch junk) b = some b' ∧ IsQueue b' (q ++ what) := by
  induction what generalizing b q with
  | nil => exact ⟨b, rfl, by rwa [List.append_nil]⟩
  | cons ch what ih =>
    obtain ⟨b₁, hchar, hq₁, hoff₁⟩ := h.appendChar junk hoff ch
    obtain ⟨b₂, hrest, hq₂⟩ := ih hq₁ hoff₁
    refine ⟨b₂, ?_, ?_⟩
    · rw [List.foldlM_cons, hchar]
      exact hrest
    · rwa [List.append_assoc, List.singleton_append] at hq₂

variable (junk) in
theorem IsQueue.appendStrLen (h : IsQueue b q) {what : List UInt8}
    (hok : b.offset = 0 ∨ what = []) :
    ∃ b', b.appendStrLen what junk = some b' ∧ IsQueue b' (q ++ what) := by
  rcases hok with hoff | rfl
  · rw [Buffer.appendStrLen]
    split_ifs
    · exact (h.grow junk hoff (Nat.le_add_right _ _)).appendChars hoff what
    · exact h.appendChars hoff what
  · -- the block is large enough for no byte
    obtain ⟨l, -, hlen, hle, -⟩ := h.block
    refine ⟨b, ?_, by rwa [List.append_nil]⟩
    rw [Buffer.appendStrLen, if_neg (by rw [List.length_nil]; omega)]
    rfl

/-- The unread bytes are moved to a block of their own. -/
theorem IsQueue.shrink (h : IsQueue b q) {l : List UInt8} (hbuf : b.buf = some l) :
    ∃ b', b.shrink l = some b' ∧ IsQueue b' q := by
  obtain ⟨l', hl, hlen, hle, hq⟩ := h.block
  rw [hbuf, Option.getD_some] at hl
  subst hl
  rw [Buffer.shrink]
  split_ifs
  · rw [Block.get_eq hle, hq]
    refine ⟨_, rfl, h.szBuf, q, rfl, h.szBuf.symm, ?_, ?_⟩
    · rw [h.szBuf, Nat.zero_add]
    · rw [List.drop_zero, h.szBuf, List.take_length]
  · exact ⟨b, rfl, h⟩

/-- A pop returns the first unread byte. -/
theorem IsQueue.pop (h : IsQueue b q) :
    ∃ b', b.pop = some (b', q.headD 0) ∧ IsQueue b' q.tail := by
  obtain ⟨l, hl, hlen, hle, hq⟩ := h.block
  rcases q with _ | ⟨x, q⟩
  · refine ⟨b, ?_, h⟩
    rw [Buffer.pop]
    cases b.buf with
    | none => rfl
    | some m => exact if_pos h.szBuf
  · have hsz : b.szBuf = q.length + 1 := h.szBuf
    have hbuf : b.buf = some l := buf_eq_some hl (by omega)
    -- the cell at `offset` is the first of the unread ones
    have hcell : l[b.offset]? = some x := by
      have hfirst : ((l.drop b.offset).take b.szBuf)[0]? = some x := by rw [hq]; rfl
      rwa [List.getElem?_take_of_lt (by omega), List.getElem?_drop, Nat.add_zero] at hfirst
    have hrest : (l.drop (b.offset + 1)).take q.length = q := by
      have htail := congrArg List.tail hq
      rwa [List.tail_cons, hsz, ← List.drop_one, List.drop_take, List.drop_drop,
        Nat.add_sub_cancel] at htail
    have hpopped : IsQueue { b with szBuf := b.szBuf - 1, offset := b.offset + 1 } q := by
      refine ⟨?_, l, hl, hlen, ?_, ?_⟩
      · show b.szBuf - 1 = _
        omega
      · show b.offset + 1 + (b.szBuf - 1) ≤ _
        omega
      · rw [hsz, Nat.add_sub_cancel, hrest]
    obtain ⟨b', hshrink, hq'⟩ := hpopped.shrink hbuf
    refine ⟨b', ?_, hq'⟩
    rw [hbuf] at hshrink
    rw [Buffer.pop, hbuf]
    dsimp only
    rw [if_neg (by omega), hcell, Option.bind_some, hshrink]
    rfl

/-- One call, on the buffer and on the queue. -/
theorem IsQueue.step (h : IsQueue b q) {op : Op} (hok : OpOk b op) :
    ∃ b', step junk b op = some (b', (spec q op).2) ∧ IsQueue b' (spec q op).1 := by
  cases op with
  | char what =>
    obtain ⟨b', hb', hq, -⟩ := h.appendChar junk hok what
    exact ⟨b', by rw [Serial.step, hb']; rfl, hq⟩
  | strLen what =>
    obtain ⟨b', hb', hq⟩ := h.appendStrLen junk hok
    exact ⟨b', by rw [Serial.step, hb']; rfl, hq⟩
  | pop =>
    obtain ⟨b', hb', hq⟩ := h.pop
    exact ⟨b', by rw [Serial.step, hb']; rfl, hq⟩

end

/-- Calls on an empty buffer that append only while `offset` is zero stay in the block, return
what a queue would return, and leave as many unread bytes as the queue has. -/
theorem buffer_refines {junk : ℕ → UInt8} {ops : List Op}
    (hok : Run.Meets OpOk (fun b op => (step junk b op).map Prod.fst) .empty ops) :
    ∃ b, Run.outputs (step junk) .empty ops = some (b, (Run.answers spec [] ops).2) ∧
      IsQueue b (Run.answers spec [] ops).1 :=
  Run.refines (fun _ _ _ hq hop => hq.step hop) isQueue_empty hok

/-- Behind the second pop the unread bytes have a block of their own. -/
theorem buffer_refines_rebased :
    ∃ b, Run.outputs (step fun _ => 0) .empty
        [.strLen [1, 2, 3, 4, 5, 6], .pop, .pop, .char 7, .pop]
        = some (b, [none, some 1, some 2, none, some 3]) ∧ IsQueue b [4, 5, 6, 7] :=
  buffer_refines (by decide)

/-- Two bytes, of which one is popped: the next one takes the place of the other. -/
theorem appended_byte_overwrites :
    (Run.outputs (step fun _ => 0) .empty [.char 1, .char 2, .pop, .char 3, .pop]).map Prod.snd
        = some [none, none, some 1, none, some 3] ∧
      (Run.answers spec [] [.char 1, .char 2, .pop, .char 3, .pop]).2
        = [none, none, some 1, none, some 2] := by
  decide

/-! ### Output -/

/-- `serial_port`, the bytes sent to it, and as history what the calls were to write. -/
structure Port where
  outBuffer : Buffer
  sent : List UInt8
  written : List UInt8

def Port.start : Port := ⟨.empty, [], []⟩

def threshold : ℕ := 100000

/-- `spin` behind the loop that waits, with `n` tests to go; `ready k` is what test `k` of the
line status finds. -/
def spinLoop (ready : ℕ → Bool) : ℕ → ℕ → ℕ
  | 0, spin => spin + 1
  | n + 1, spin => if ready spin then spin + 1 else spinLoop ready n (spin + 1)

/-- What `append_to_buffer_str_len` reads of the memory at `buf`, from byte `i` on: the bytes it
copies, and the one behind them.  A read outside has no result. -/
def callerBytes (buf : List UInt8) (i n : ℕ) : Option (List UInt8) :=
  if i + n < buf.length then some ((buf.drop i).take n) else none

section

variable (junk : ℕ → UInt8)

/-- The loop of `write_sync`, with `n` bytes to go at byte `i`. -/
def writeLoop (buf : List UInt8) (blkCount : ℕ) (ready : ℕ → ℕ → Bool) :
    ℕ → ℕ → Port → Option Port
  | 0, _, p => some p
  | n + 1, i, p =>
    if threshold ≤ spinLoop (ready i) threshold 0 then
      (callerBytes buf i blkCount).bind fun what =>
        (p.outBuffer.appendStrLen what junk).map fun b => { p with outBuffer := b }
    else
      (buf[i]?).bind fun ch =>
        writeLoop buf blkCount ready n (i + 1) { p with sent := p.sent ++ [ch] }

/-- `flush_out_buffer`; each round takes one of the bytes. -/
def flushLoop (ready : ℕ → Bool) : ℕ → ℕ → Port → Option Port
  | 0, _, p => some p
  | n + 1, k, p =>
    if ready k ∧ p.outBuffer.szBuf ≠ 0 then
      p.outBuffer.pop.bind fun (b, ch) =>
        flushLoop ready n (k + 1) { p with outBuffer := b, sent := p.sent ++ [ch] }
    else some p

/-- The calls; `buf` is the memory that can be read at the caller's pointer. -/
inductive PortOp where
  | write (buf : List UInt8) (blkCount : ℕ) (ready : ℕ → ℕ → Bool)
  | flush (ready : ℕ → Bool)

def portStep (p : Port) : PortOp → Option Port
  | .write buf n ready =>
    writeLoop junk buf n ready n 0 { p with written := p.written ++ buf.take n }
  | .flush ready => flushLoop ready p.outBuffer.szBuf 0 p

end

/-- What was sent, followed by what is queued, is what was written. -/
def Ordered (p : Port) : Prop := ∃ q, IsQueue p.outBuffer q ∧ p.sent ++ q = p.written

/-- The transmitter is found ready for byte `i` before the last test. -/
def InTime (ready : ℕ → ℕ → Bool) (i : ℕ) : Prop := ∃ k, k + 1 < threshold ∧ ready i k = true

/-- A write finds the transmitter ready for each of its bytes and nothing queued, or does not
find it ready for the first; then a byte behind the caller's can be read, and the queue starts at
the first cell of its block. -/
def PortOk (p : Port) : PortOp → Prop
  | .write buf n ready =>
    (∀ i < n, InTime ready i) ∧ n ≤ buf.length ∧ p.outBuffer.szBuf = 0 ∨
      ¬ InTime ready 0 ∧ 0 < n ∧ n < buf.length ∧ p.outBuffer.offset = 0
  | .flush _ => True

theorem spinLoop_lt_iff (ready : ℕ → Bool) (n spin : ℕ) :
    spinLoop ready n spin < spin + n ↔ ∃ k, spin ≤ k ∧ k + 1 < spin + n ∧ ready k = true := by
  induction n generalizing spin with
  | zero =>
    refine iff_of_false (Nat.not_lt.mpr (Nat.le_succ _)) ?_
    rintro ⟨k, h1, h2, -⟩
    omega
  | succ n ih =>
    rw [spinLoop]
    by_cases hr : ready spin = true
    · rw [if_pos hr]
      refine ⟨fun h => ⟨spin, le_rfl, h, hr⟩, ?_⟩
      rintro ⟨k, h1, h2, -⟩
      omega
    · rw [if_neg hr, Nat.add_comm n, ← Nat.add_assoc, ih]
      refine exists_congr fun k => ⟨fun h => ⟨by omega, h.2⟩, fun h => ⟨?_, h.2⟩⟩
      refine Nat.lt_of_le_of_ne h.1 ?_
      rintro rfl
      exact hr h.2.2

theorem inTime_iff (ready : ℕ → ℕ → Bool) (i : ℕ) :
    ¬ threshold ≤ spinLoop (ready i) threshold 0 ↔ InTime ready i := by
  have h := spinLoop_lt_iff (ready i) threshold 0
  rw [Nat.zero_add] at h
  simpa [InTime] using h

section

variable {junk : ℕ → UInt8} {p : Port} {buf : List UInt8} {blkCount n : ℕ}
  {ready : ℕ → ℕ → Bool}

/-- A write that never waits too long sends every byte. -/
theorem writeLoop_inTime {i : ℕ} (h : ∀ j, i ≤ j → j < i + n → InTime ready j)
    (hlen : i + n ≤ buf.length) : writeLoop junk buf blkCount ready n i p =
      some { p with sent := p.sent ++ (buf.drop i).take n } := by
  induction n generalizing i p with
  | zero => simp [writeLoop]
  | succ n ih =>
    have hi : i < buf.length := by omega
    rw [writeLoop, if_neg ((inTime_iff ready i).mpr (h i le_rfl (by omega))),
      List.getElem?_eq_getElem hi, Option.bind_some,
      ih (fun j h1 h2 => h j (by omega) (by omega)) (by omega), List.drop_eq_getElem_cons hi,
      List.take_succ_cons, List.append_assoc]
    rfl

theorem portStep_inTime (h : ∀ i < n, InTime ready i) (hlen : n ≤ buf.length) :
    portStep junk p (.write buf n ready) =
      some { p with sent := p.sent ++ buf.take n, written := p.written ++ buf.take n } := by
  rw [portStep, writeLoop_inTime (fun j _ hj => h j (by omega)) (by omega), List.drop_zero]

theorem portStep_late (h : ¬ InTime ready 0) (hn : 0 < n) (hlen : n < buf.length) :
    portStep junk p (.write buf n ready) = (p.outBuffer.appendStrLen (buf.take n) junk).map
      fun b => { p with outBuffer := b, written := p.written ++ buf.take n } := by
  obtain ⟨m, rfl⟩ := Nat.exists_eq_add_of_lt hn
  rw [portStep, writeLoop, if_pos (not_not.mp fun hlate => h ((inTime_iff ready 0).mp hlate)),
    callerBytes, if_pos (by omega), List.drop_zero, Option.bind_some]

/-- A flush sends bytes from the front of the queue. -/
theorem flushLoop_spec {ready : ℕ → Bool} {k : ℕ} (h : Ordered p) :
    ∃ p', flushLoop ready n k p = some p' ∧ Ordered p' := by
  induction n generalizing k p with
  | zero => exact ⟨p, rfl, h⟩
  | succ n ih =>
    rw [flushLoop]
    split_ifs with hgo
    · obtain ⟨q, hq, hsent⟩ := h
      obtain ⟨b, hpop, hq'⟩ := hq.pop
      rw [hpop]
      refine ih ⟨q.tail, hq', ?_⟩
      cases q with
      | nil => exact absurd hq.szBuf hgo.2
      | cons ch q => exact (List.append_assoc ..).trans hsent
    · exact ⟨p, rfl, h⟩

theorem Ordered.step (h : Ordered p) {op : PortOp} (hok : PortOk p op) :
    ∃ p', portStep junk p op = some p' ∧ Ordered p' := by
  cases op with
  | write buf n ready =>
    obtain ⟨q, hq, hsent⟩ := h
    obtain ⟨htime, hlen, hempty⟩ | ⟨hlate, hn, hlen, hoff⟩ := hok
    · obtain rfl : q = [] := List.length_eq_zero_iff.mp (hq.szBuf.symm.trans hempty)
      refine ⟨_, portStep_inTime htime hlen, [], hq, ?_⟩
      rw [List.append_nil] at hsent ⊢
      exact congrArg (· ++ buf.take n) hsent
    · obtain ⟨b, hb, hq'⟩ := hq.appendStrLen junk (.inl hoff : _ ∨ buf.take n = [])
      refine ⟨_, by rw [portStep_late hlate hn hlen, hb]; rfl, q ++ buf.take n, hq', ?_⟩
      exact (List.append_assoc ..).symm.trans (congrArg (· ++ buf.take n) hsent)
  | flush ready => exact flushLoop_spec h

end

/-- For every sequence of writes and flushes that meet `PortOk`, whatever fresh memory holds:
every call returns, and the bytes are sent or queued in order. -/
theorem output_ordered_run (junk : ℕ → UInt8) {ops : List PortOp}
    (hok : Run.Meets PortOk (portStep junk) .start ops) :
    ∃ p, ops.foldlM (portStep junk) .start = some p ∧ Ordered p :=
  Run.invariant (fun _ _ h hop => h.step hop) ⟨[], isQueue_empty, rfl⟩ hok

/-- Two writes are queued one behind the other, and two of the three bytes are sent. -/
theorem output_ordered_run_queued :
    ∃ p, [.write [1, 2, 9] 2 fun _ _ => false, .write [3, 9] 1 fun _ _ => false,
        .flush fun k => k < 2].foldlM (portStep fun _ => 0) .start = some p ∧ Ordered p := by
  have hlate : ¬ InTime (fun _ _ => false) 0 := by simp [InTime]
  refine output_ordered_run _ ⟨.inr ⟨hlate, by decide, by decide, rfl⟩, fun p hp => ?_⟩
  rw [portStep_late hlate (by decide) (by decide)] at hp
  cases hp
  exact ⟨.inr ⟨hlate, by decide, by decide, rfl⟩, fun _ _ => ⟨trivial, fun _ _ => trivial⟩⟩

end Obos.Serial
