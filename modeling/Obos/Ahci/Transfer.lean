/-
Block transfers of the AHCI driver (`drivers/generic/ahci/interface.c`).

A request of up to 0x10000 sectors becomes one command.  At the end of the disk the count is
clamped to `offset + count - nSectors`, the part of the request behind the end, and not to the
part before it; a count above the disk's size moves nothing.  `read_sync` splits a larger count
into reads of 0x10000 sectors, from the offset `i * 0x10000` of the disk (not of the request) to
the byte `i * 0x10000` of the buffer, and a last one whose offset is what is left over;
`write_sync` writes the first 0x10000 sectors.

A command is what `SendCommand` is called with and the place in the buffer.

* `moved` — how many sectors a request that is not split moves,
* `Correct` — the sectors of the request that the disk has, at consecutive places of the buffer,
* `sync_correct_iff` — exactly when a successful request is correct.
-/
import Obos.Machine

namespace Obos.Ahci

open List

namespace Transfer

/-- `Port`, as far as transfers look at it. -/
structure Disk where
  nSectors : ℕ
  sectorSize : ℕ
  works : Bool
  deriving DecidableEq, Repr

/-- A command for `count` sectors from `lba` on, and the byte of the caller's memory that the
first one goes to (or comes from). -/
structure Command where
  lba : ℕ
  count : ℕ
  buf : ℕ
  deriving DecidableEq, Repr

/-- `OBOS_STATUS_SUCCESS`, `OBOS_STATUS_ABORTED`, and an error of `populate_physical_regions`. -/
inductive Status where
  | success
  | aborted
  | unmapped
  deriving DecidableEq, Repr

/-- The status, the count that is reported, and the commands that were sent. -/
structure Result where
  status : Status
  nBlk : ℕ
  commands : List Command
  deriving DecidableEq, Repr

/-- `read_sync` and `write_sync` of at most 0x10000 sectors.  `mapped` says whether the memory of
a command can be used, `buf` is the address of the buffer. -/
def syncOne (d : Disk) (mapped : ℕ → ℕ → Bool) (buf blkCount blkOffset : ℕ) : Result :=
  if !d.works then ⟨.aborted, 0, []⟩
  else if d.nSectors < blkCount then ⟨.success, 0, []⟩
  else
    let blkCount := if d.nSectors < u64 (blkOffset + blkCount) then
      u64sub (u64 (blkOffset + blkCount)) d.nSectors else blkCount
    if blkCount = 0 then ⟨.success, 0, []⟩
    else if mapped buf (blkCount * d.sectorSize) then ⟨.success, blkCount, [⟨blkOffset, blkCount, buf⟩]⟩
    else ⟨.unmapped, 0, []⟩

/-- The reads that a large one is split into, up to the first that fails. -/
def readAll (d : Disk) (mapped : ℕ → ℕ → Bool) : List (ℕ × ℕ) → Result
  | [] => ⟨.success, 0, []⟩
  | (buf, blkOffset) :: rest =>
    let r := syncOne d mapped buf 0x10000 blkOffset
    if r.status = .success then
      let q := readAll d mapped rest
      ⟨q.status, r.nBlk + q.nBlk, r.commands ++ q.commands⟩
    else ⟨r.status, 0, r.commands⟩

/-- Where the reads of a large one begin, in the buffer and on the disk. -/
def pieces (buf blkCount : ℕ) : List (ℕ × ℕ) :=
  let nSectorBlocks := blkCount / 0x10000
  let leftOver := blkCount % 0x10000
  (List.range nSectorBlocks).map (fun i => (buf + i * 0x10000, i * 0x10000)) ++
    if leftOver ≠ 0 then [(buf + nSectorBlocks * 0x10000, leftOver)] else []

/-- `read_sync`. -/
def readSync (d : Disk) (mapped : ℕ → ℕ → Bool) (buf blkCount blkOffset : ℕ) : Result :=
  if 0x10000 < blkCount then readAll d mapped (pieces buf blkCount)
  else syncOne d mapped buf blkCount blkOffset

/-- `write_sync`. -/
def writeSync (d : Disk) (mapped : ℕ → ℕ → Bool) (buf blkCount blkOffset : ℕ) : Result :=
  syncOne d mapped buf (if 0x10000 < blkCount then 0x10000 else blkCount) blkOffset

/-! ### What a transfer is for -/

/-- The command moves the sector `sector` between the disk and the byte `pos` of memory. -/
def Command.Moves (d : Disk) (c : Command) (sector pos : ℕ) : Prop :=
  ∃ k < c.count, sector = c.lba + k ∧ pos = c.buf + k * d.sectorSize

/-- The number of sectors in `[offset, min (offset + count) nSectors)`. -/
def wanted (d : Disk) (blkCount blkOffset : ℕ) : ℕ := min (blkOffset + blkCount) d.nSectors - blkOffset

/-- Exactly the sectors of the request that the disk has are moved, to or from consecutive places
of the buffer; they are reported; and no command goes beyond the disk. -/
structure Correct (d : Disk) (buf blkCount blkOffset : ℕ) (r : Result) : Prop where
  moves : ∀ sector pos, (∃ c ∈ r.commands, c.Moves d sector pos) ↔
    ∃ k < wanted d blkCount blkOffset, sector = blkOffset + k ∧ pos = buf + k * d.sectorSize
  reported : r.nBlk = wanted d blkCount blkOffset
  inside : ∀ c ∈ r.commands, c.lba + c.count ≤ d.nSectors

/-- A request that is not split lies inside the disk, or it is larger than the disk and begins
behind it, or the part of it behind the end of the disk is as long as the part before it. -/
def OneOk (d : Disk) (blkCount blkOffset : ℕ) : Prop :=
  blkOffset + blkCount ≤ d.nSectors ∨
  d.nSectors < blkCount ∧ d.nSectors ≤ blkOffset ∨
  blkCount ≤ d.nSectors ∧ blkOffset < d.nSectors ∧ d.nSectors < blkOffset + blkCount ∧
    blkOffset + blkCount < 2 ^ 64 ∧ 2 * blkOffset + blkCount = 2 * d.nSectors

/-- A read that is split: nothing is asked for and the disk is too small to be read at all, or the
sectors are single bytes, the read begins at the first one and is a multiple of 0x10000 that the
disk has, or ends half of that behind it. -/
def SplitOk (d : Disk) (blkCount blkOffset : ℕ) : Prop :=
  d.nSectors < 0x10000 ∧ d.nSectors ≤ blkOffset ∨
  blkOffset = 0 ∧ d.sectorSize = 1 ∧ blkCount % 0x10000 = 0 ∧
    (blkCount ≤ d.nSectors ∨ d.nSectors + 0x8000 = blkCount)

def ReadOk (d : Disk) (blkCount blkOffset : ℕ) : Prop :=
  if 0x10000 < blkCount then SplitOk d blkCount blkOffset else OneOk d blkCount blkOffset

/-- A write of more than 0x10000 sectors is right if the disk ends behind the 0x10000th, or if what
is clamped is right for 0x10000 sectors. -/
def WriteOk (d : Disk) (blkCount blkOffset : ℕ) : Prop :=
  if 0x10000 < blkCount then
    blkOffset + 0x10000 = d.nSectors ∨ ¬ blkOffset + 0x10000 ≤ d.nSectors ∧ OneOk d 0x10000 blkOffset
  else OneOk d blkCount blkOffset

instance (d : Disk) (n o : ℕ) : Decidable (OneOk d n o) := inferInstanceAs (Decidable (_ ∨ _))

instance (d : Disk) (n o : ℕ) : Decidable (SplitOk d n o) := inferInstanceAs (Decidable (_ ∨ _))

instance (d : Disk) (n o : ℕ) : Decidable (ReadOk d n o) := inferInstanceAs (Decidable (ite _ _ _))

instance (d : Disk) (n o : ℕ) : Decidable (WriteOk d n o) := inferInstanceAs (Decidable (ite _ _ _))

/-! ### Requests that are not split -/

section

variable {d : Disk} {mapped : ℕ → ℕ → Bool} {buf n o : ℕ} {r : Result}

/-- The sectors that a request of at most 0x10000 moves. -/
def moved (d : Disk) (blkCount blkOffset : ℕ) : ℕ :=
  if d.nSectors < blkCount then 0
  else if d.nSectors < u64 (blkOffset + blkCount) then
    u64sub (u64 (blkOffset + blkCount)) d.nSectors
  else blkCount

/-- The commands for `m` sectors. -/
def commandFor (blkOffset m buf : ℕ) : List Command := if m = 0 then [] else [⟨blkOffset, m, buf⟩]

/-- The ways out of a request. -/
theorem syncOne_eq : syncOne d mapped buf n o =
    if d.works = false then ⟨.aborted, 0, []⟩
    else if moved d n o = 0 then ⟨.success, 0, []⟩
    else if mapped buf (moved d n o * d.sectorSize) then
      ⟨.success, moved d n o, [⟨o, moved d n o, buf⟩]⟩
    else ⟨.unmapped, 0, []⟩ := by
  simp only [syncOne, Bool.not_eq_true']
  by_cases hbig : d.nSectors < n
  · have hmoved : moved d n o = 0 := if_pos hbig
    rw [if_pos hbig, if_pos hmoved]
  · rw [if_neg hbig, moved, if_neg hbig]

theorem syncOne_of_success (h : (syncOne d mapped buf n o).status = .success) :
    syncOne d mapped buf n o = ⟨.success, moved d n o, commandFor o (moved d n o) buf⟩ := by
  rw [syncOne_eq] at h ⊢
  rw [commandFor]
  split_ifs at h ⊢ with hworks hzero
  · rw [hzero]
  · rfl

theorem correct_commandFor {m count : ℕ} :
    Correct d buf count o ⟨.success, m, commandFor o m buf⟩ ↔ m = wanted d count o := by
  constructor
  · exact fun h => h.reported
  · intro hm
    refine ⟨fun sector pos => ?_, hm, fun c hc => ?_⟩
    · rw [← hm]
      constructor
      · rintro ⟨c, hc, k, hk, hsector, hpos⟩
        rw [commandFor] at hc
        split_ifs at hc
        · cases hc
        · obtain rfl := mem_singleton.mp hc
          exact ⟨k, hk, hsector, hpos⟩
      · rintro ⟨k, hk, hsector, hpos⟩
        have hne : ¬ m = 0 := by omega
        exact ⟨⟨o, m, buf⟩, by rw [commandFor, if_neg hne]; exact mem_singleton.mpr rfl, k, hk,
          hsector, hpos⟩
    · rw [commandFor] at hc
      split_ifs at hc with hzero
      · cases hc
      · obtain rfl := mem_singleton.mp hc
        show o + m ≤ d.nSectors
        rw [wanted] at hm
        omega

theorem moved_eq_wanted_iff (hn : n < 2 ^ 64) (ho : o < 2 ^ 64) (hsize : d.nSectors < 2 ^ 64) :
    moved d n o = wanted d n o ↔ OneOk d n o := by
  rw [moved, wanted, OneOk, u64, u64sub]
  by_cases hwrap : o + n < 2 ^ 64
  · rw [Nat.mod_eq_of_lt hwrap]
    split_ifs with hbig hover
    · omega
    · rw [show (o + n + (2 ^ 64 - d.nSectors)) % 2 ^ 64 = o + n - d.nSectors by omega]
      omega
    · omega
  · have hmod : (o + n) % 2 ^ 64 = o + n - 2 ^ 64 := by omega
    rw [hmod]
    split_ifs with hbig hover <;> omega

/-- A request that is not split. -/
theorem syncOne_correct_iff (hn : n < 2 ^ 64) (ho : o < 2 ^ 64) (hsize : d.nSectors < 2 ^ 64)
    (h : (syncOne d mapped buf n o).status = .success) :
    Correct d buf n o (syncOne d mapped buf n o) ↔ OneOk d n o := by
  rw [syncOne_of_success h, correct_commandFor, moved_eq_wanted_iff hn ho hsize]

/-- `write_sync`. -/
theorem writeSync_correct_iff (hn : n < 2 ^ 64) (ho : o < 2 ^ 64) (hsize : d.nSectors < 2 ^ 64)
    (h : (writeSync d mapped buf n o).status = .success) :
    Correct d buf n o (writeSync d mapped buf n o) ↔ WriteOk d n o := by
  rw [writeSync] at h ⊢
  rw [WriteOk]
  split_ifs at h ⊢ with hlarge
  · rw [syncOne_of_success h, correct_commandFor]
    by_cases hinside : o + 0x10000 ≤ d.nSectors
    · have hmoved : moved d 0x10000 o = 0x10000 := by
        rw [moved, u64_of_lt (by omega), if_neg (by omega), if_neg (by omega)]
      rw [hmoved, wanted]
      omega
    · -- the request and its first 0x10000 sectors both reach the end of the disk
      have hwanted : wanted d n o = wanted d 0x10000 o := by
        rw [wanted, wanted]
        omega
      rw [hwanted, moved_eq_wanted_iff (by norm_num) ho hsize]
      constructor
      · exact fun hok => .inr ⟨hinside, hok⟩
      · rintro (heq | ⟨-, hok⟩)
        · omega
        · exact hok
  · exact syncOne_correct_iff hn ho hsize h

/-! ### Reads that are split -/

/-- What a split read reports and sends. -/
theorem readAll_of_success {ps : List (ℕ × ℕ)} (h : (readAll d mapped ps).status = .success) :
    readAll d mapped ps = ⟨.success, (ps.map fun p => moved d 0x10000 p.2).sum,
      ps.flatMap fun p => commandFor p.2 (moved d 0x10000 p.2) p.1⟩ := by
  induction ps with
  | nil => rfl
  | cons p rest ih =>
    obtain ⟨buf, o⟩ := p
    rw [readAll] at h ⊢
    by_cases hone : (syncOne d mapped buf 0x10000 o).status = .success
    · rw [if_pos hone] at h ⊢
      rw [ih h, syncOne_of_success hone]
      rfl
    · rw [if_neg hone] at h
      exact absurd h hone

theorem moved_piece (hsize : 0x10000 ≤ d.nSectors) (ho : o + 0x10000 < 2 ^ 64) :
    moved d 0x10000 o
      = if d.nSectors < o + 0x10000 then o + 0x10000 - d.nSectors else 0x10000 := by
  rw [moved, if_neg (by omega), u64_of_lt ho]
  split_ifs with hover
  · exact u64sub_of_le hover.le ho
  · rfl

theorem mem_pieces {p : ℕ × ℕ} : p ∈ pieces buf n ↔
    (∃ i < n / 0x10000, p = (buf + i * 0x10000, i * 0x10000)) ∨
      n % 0x10000 ≠ 0 ∧ p = (buf + n / 0x10000 * 0x10000, n % 0x10000) := by
  rw [pieces, mem_append, mem_map]
  refine or_congr ?_ ?_
  · simp [mem_range, eq_comm]
  · split_ifs with hleft
    · rw [mem_singleton, and_iff_right hleft]
    · exact iff_of_false not_mem_nil fun h => hleft h.1

/-- The result of a split read that is successful. -/
def splitResult (d : Disk) (buf n : ℕ) : Result :=
  ⟨.success, ((pieces buf n).map fun p => moved d 0x10000 p.2).sum,
    (pieces buf n).flatMap fun p => commandFor p.2 (moved d 0x10000 p.2) p.1⟩

theorem mem_splitResult {c : Command} : c ∈ (splitResult d buf n).commands ↔
    ∃ p ∈ pieces buf n, moved d 0x10000 p.2 ≠ 0 ∧ c = ⟨p.2, moved d 0x10000 p.2, p.1⟩ := by
  rw [splitResult, mem_flatMap]
  refine exists_congr fun p => and_congr_right fun _ => ?_
  rw [commandFor]
  split_ifs with hzero
  · exact iff_of_false not_mem_nil fun h => h.1 hzero
  · rw [mem_singleton, and_iff_right hzero]

/-- A disk with less than 0x10000 sectors is not read. -/
theorem splitResult_of_small (hsmall : d.nSectors < 0x10000) :
    splitResult d buf n = ⟨.success, 0, commandFor o 0 buf⟩ := by
  have hzero : ∀ o, moved d 0x10000 o = 0 := fun o => if_pos hsmall
  have hnone : ((pieces buf n).flatMap fun p => commandFor p.2 0 p.1) = [] :=
    flatMap_eq_nil_iff.mpr fun _ _ => rfl
  simp only [splitResult, hzero, map_const', sum_replicate, smul_zero, hnone]
  rfl

/-- A piece that moves sectors moves the first of them to its place. -/
theorem Correct.piece (h : Correct d buf n o (splitResult d buf n)) {p : ℕ × ℕ}
    (hp : p ∈ pieces buf n) (hmoved : moved d 0x10000 p.2 ≠ 0) :
    (∃ k, p.2 = o + k ∧ p.1 = buf + k * d.sectorSize) ∧
      p.2 + moved d 0x10000 p.2 ≤ d.nSectors := by
  have hmem := mem_splitResult.mpr ⟨p, hp, hmoved, rfl⟩
  refine ⟨?_, h.inside _ hmem⟩
  obtain ⟨k, -, hsector, hpos⟩ := (h.moves p.2 p.1).mp
    ⟨_, hmem, 0, Nat.pos_of_ne_zero hmoved, rfl, by rw [Nat.zero_mul]; rfl⟩
  exact ⟨k, hsector, hpos⟩

/-- The sum over the pieces of 0x10000 sectors that the disk has. -/
theorem sum_moved_full {k : ℕ} (hk : k * 0x10000 ≤ d.nSectors) (hsize : d.nSectors < 2 ^ 64) :
    ((List.range k).map fun i => moved d 0x10000 (i * 0x10000)).sum = k * 0x10000 := by
  have hall : ∀ i ∈ List.range k, moved d 0x10000 (i * 0x10000) = 0x10000 := by
    intro i hi
    have hlt := mem_range.mp hi
    rw [moved_piece (by omega) (by omega), if_neg (by omega)]
  rw [map_congr_left hall, map_const', sum_replicate, length_range, smul_eq_mul]

/-- What is reported, by pieces. -/
theorem nBlk_splitResult : (splitResult d buf n).nBlk
    = ((List.range (n / 0x10000)).map fun i => moved d 0x10000 (i * 0x10000)).sum +
      if n % 0x10000 ≠ 0 then moved d 0x10000 (n % 0x10000) else 0 := by
  rw [splitResult, pieces, map_append, sum_append, map_map]
  split_ifs
  · rw [map_singleton, sum_singleton]
    rfl
  · rfl

/-- A piece of 0x10000 sectors and one for the rest are never right together: the second one
reports too much, or the last sectors of the disk are not moved. -/
theorem not_correct_of_one_piece (hone : n / 0x10000 = 1) (hleft : n % 0x10000 ≠ 0)
    (hlarge : 0x10000 ≤ d.nSectors) (hsize : d.nSectors < 2 ^ 64) :
    ¬ Correct d buf n 0 (splitResult d buf n) := by
  intro h
  have hrest : n % 0x10000 < 0x10000 := Nat.mod_lt _ (by norm_num)
  have hn : n = 0x10000 + n % 0x10000 := by omega
  have hreported := h.reported
  rw [nBlk_splitResult, hone, sum_moved_full (by omega) hsize, if_pos hleft,
    moved_piece hlarge (by omega), wanted] at hreported
  split_ifs at hreported with hover
  · -- what is reported would be right; the last sector of the disk is in neither piece
    obtain ⟨c, hc, k, hk, hsector, -⟩ := (h.moves (d.nSectors - 1)
      (buf + (d.nSectors - 1) * d.sectorSize)).mpr
      ⟨d.nSectors - 1, by rw [wanted]; omega, by omega, rfl⟩
    obtain ⟨p, hp, -, rfl⟩ := mem_splitResult.mp hc
    dsimp only at hk hsector
    rcases mem_pieces.mp hp with ⟨i, hi, rfl⟩ | ⟨-, rfl⟩
    · have hzero : i = 0 := by omega
      subst hzero
      rw [Nat.zero_mul, moved_piece hlarge (by norm_num), if_neg (by omega)] at hk
      dsimp only at hsector
      omega
    · dsimp only at hk hsector
      rw [moved_piece hlarge (by omega), if_pos hover] at hk
      omega
  · omega

/-- A split read of a disk with 0x10000 sectors or more is right only for single bytes. -/
theorem Correct.splitOk (h : Correct d buf n o (splitResult d buf n)) (hsplit : 0x10000 < n)
    (hlarge : 0x10000 ≤ d.nSectors) (hn : n < 2 ^ 64) (hsize : d.nSectors < 2 ^ 64) :
    SplitOk d n o := by
  have hblocks : 1 ≤ n / 0x10000 := by omega
  have hmoved : ∀ q, q + 0x10000 < 2 ^ 64 → moved d 0x10000 q ≠ 0 := by
    intro q hq
    rw [moved_piece hlarge hq]
    split_ifs <;> omega
  -- the first piece begins at the first sector
  have hzero : o = 0 := by
    obtain ⟨⟨k, hsector, -⟩, -⟩ := h.piece (mem_pieces.mpr (.inl ⟨0, by omega, rfl⟩))
      (hmoved _ (by norm_num))
    rw [Nat.zero_mul] at hsector
    exact (Nat.add_eq_zero_iff.mp hsector.symm).1
  subst hzero
  have hblocks2 : 2 ≤ n / 0x10000 := by
    by_contra hone
    exact not_correct_of_one_piece (by omega) (by omega) hlarge hsize h
  -- the second one at the byte 0x10000 and at the sector 0x10000
  have hbyte : d.sectorSize = 1 := by
    obtain ⟨⟨k, hsector, hpos⟩, -⟩ := h.piece (mem_pieces.mpr (.inl ⟨1, by omega, rfl⟩))
      (hmoved _ (by norm_num))
    dsimp only at hsector hpos
    have hk : k = 0x10000 := by omega
    rw [hk] at hpos
    omega
  have hwhole : n % 0x10000 = 0 := by
    by_contra hleft
    obtain ⟨⟨k, hsector, hpos⟩, -⟩ := h.piece (mem_pieces.mpr (.inr ⟨hleft, rfl⟩))
      (hmoved _ (by omega))
    dsimp only at hsector hpos
    rw [hbyte] at hpos
    omega
  refine .inr ⟨rfl, hbyte, hwhole, ?_⟩
  by_contra hends
  rw [not_or, Nat.not_le] at hends
  -- the last piece is clamped; it lies on the disk, and so do all those before it
  obtain ⟨m, hm⟩ : ∃ m, n / 0x10000 = m + 1 := ⟨n / 0x10000 - 1, by omega⟩
  have hlast : moved d 0x10000 (m * 0x10000) = n - d.nSectors := by
    rw [moved_piece hlarge (by omega), if_pos (by omega)]
    omega
  obtain ⟨-, hinside⟩ := h.piece (mem_pieces.mpr (.inl ⟨m, by omega, rfl⟩)) (hmoved _ (by omega))
  dsimp only at hinside
  rw [hlast] at hinside
  have hfull : m * 0x10000 ≤ d.nSectors := (Nat.le_add_right _ _).trans hinside
  have hreported := h.reported
  rw [nBlk_splitResult, hm, range_succ, map_append, sum_append,
    sum_moved_full hfull hsize, map_singleton, sum_singleton, hlast,
    if_neg (not_not_intro hwhole), wanted] at hreported
  omega

/-- Single bytes from the first one on, in pieces that the disk has or of which the last one ends
half behind it. -/
theorem splitResult_correct (hsplit : 0x10000 < n) (hn : n < 2 ^ 64) (hsize : d.nSectors < 2 ^ 64)
    (hbyte : d.sectorSize = 1) (hwhole : n % 0x10000 = 0)
    (hends : n ≤ d.nSectors ∨ d.nSectors + 0x8000 = n) :
    Correct d buf n 0 (splitResult d buf n) := by
  obtain ⟨m, hm⟩ : ∃ m, n / 0x10000 = m + 1 := ⟨n / 0x10000 - 1, by omega⟩
  have hlarge : 0x10000 ≤ d.nSectors := by omega
  -- only the last piece can be clamped, and then to one half
  have hmoved : ∀ i, i < n / 0x10000 → moved d 0x10000 (i * 0x10000)
      = if d.nSectors < (i + 1) * 0x10000 then 0x8000 else 0x10000 := by
    intro i hi
    rw [moved_piece hlarge (by omega)]
    split_ifs <;> omega
  refine ⟨fun sector pos => ?_, ?_, fun c hc => ?_⟩
  · rw [hbyte, wanted]
    constructor
    · rintro ⟨c, hc, k, hk, hsector, hpos⟩
      obtain ⟨p, hp, -, rfl⟩ := mem_splitResult.mp hc
      rcases mem_pieces.mp hp with ⟨i, hi, rfl⟩ | ⟨hleft, -⟩
      · dsimp only at hk hsector hpos
        rw [hmoved i hi] at hk
        rw [hbyte] at hpos
        refine ⟨sector, ?_, by omega, by omega⟩
        split_ifs at hk <;> omega
      · exact absurd hwhole hleft
    · rintro ⟨k, hk, hsector, hpos⟩
      have hi : k / 0x10000 < n / 0x10000 := by omega
      refine ⟨_, mem_splitResult.mpr ⟨_, mem_pieces.mpr (.inl ⟨k / 0x10000, hi, rfl⟩), ?_, rfl⟩,
        k % 0x10000, ?_, ?_, ?_⟩
      · rw [hmoved _ hi]
        split_ifs <;> omega
      · show k % 0x10000 < moved d 0x10000 (k / 0x10000 * 0x10000)
        rw [hmoved _ hi]
        split_ifs <;> omega
      · show sector = k / 0x10000 * 0x10000 + k % 0x10000
        omega
      · show pos = buf + k / 0x10000 * 0x10000 + k % 0x10000 * d.sectorSize
        rw [hbyte]
        omega
  · rw [nBlk_splitResult, hm, range_succ, map_append, sum_append,
      sum_moved_full (by omega) hsize, map_singleton, sum_singleton, hmoved m (by omega),
      if_neg (not_not_intro hwhole), wanted]
    split_ifs <;> omega
  · obtain ⟨p, hp, -, rfl⟩ := mem_splitResult.mp hc
    rcases mem_pieces.mp hp with ⟨i, hi, rfl⟩ | ⟨hleft, -⟩
    · show i * 0x10000 + moved d 0x10000 (i * 0x10000) ≤ d.nSectors
      rw [hmoved i hi]
      split_ifs <;> omega
    · exact absurd hwhole hleft

/-- `read_sync`. -/
theorem readSync_correct_iff (hn : n < 2 ^ 64) (ho : o < 2 ^ 64) (hsize : d.nSectors < 2 ^ 64)
    (h : (readSync d mapped buf n o).status = .success) :
    Correct d buf n o (readSync d mapped buf n o) ↔ ReadOk d n o := by
  rw [readSync] at h ⊢
  rw [ReadOk]
  split_ifs at h ⊢ with hsplit
  · have hresult : readAll d mapped (pieces buf n) = splitResult d buf n := readAll_of_success h
    rw [hresult]
    by_cases hsmall : d.nSectors < 0x10000
    · rw [splitResult_of_small (o := o) hsmall, correct_commandFor, wanted, SplitOk]
      omega
    · rw [Nat.not_lt] at hsmall
      refine ⟨fun hcorrect => hcorrect.splitOk hsplit hsmall hn hsize, ?_⟩
      rintro (⟨hless, -⟩ | ⟨rfl, hbyte, hwhole, hends⟩)
      · omega
      · exact splitResult_correct hsplit hn hsize hbyte hwhole hends
  · exact syncOne_correct_iff hn ho hsize h

end

end Transfer

end Obos.Ahci
