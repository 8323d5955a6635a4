/-
One entry of the file allocation table, on the device.

`formatEntry` is what the on-disk format says about the value of an entry: 28 bits of
four bytes, two bytes, or the low or high 12 bits of two bytes which two clusters share.
`LocalUpdate` says that writing an entry through the driver is a local update of that
table: the value is there in every copy, both readers of the driver see it, and all other
entries and the reserved bits are what they were.

* `writes_of_markWith` — the bytes behind a call that writes an entry,
* `local_update_iff` — when such a call is a local update.  For FAT32 and FAT16 this is
  whether the copies of the table agree in that sector.  For FAT12 the driver takes the
  halves of a pair the wrong way round and writes the padding of its structure over the
  four bits of the neighbour, so the digits of the value and those bits have to be the
  padding.
-/
import Obos.Fat.Volume

namespace Obos.Fat

/-! ### The format -/

/-- Offset of an entry in a copy of the table. -/
def formatOffset (t : FatType) (cluster : ℕ) : ℕ :=
  match t with
  | .fat32 => cluster * 4
  | .fat16 => cluster * 2
  | .fat12 => cluster + cluster / 2

section

variable (v : Volume)

/-- The cluster numbers with an entry in the table. -/
def InTable (cluster : ℕ) : Prop :=
  cluster < 2 ^ v.fatType.bits ∧
    formatOffset v.fatType cluster + v.fatType.width ≤ v.fatSz * v.bytesPerSector

instance (v : Volume) (cluster : ℕ) : Decidable (InTable v cluster) :=
  inferInstanceAs (Decidable (_ ∧ _))

/-- Where copy `i` of the table starts. -/
def tableBase (i : ℕ) : ℕ := (v.reservedSectorCount + v.fatSz * i) * v.bytesPerSector

def entryPos (i cluster : ℕ) : ℕ := tableBase v i + formatOffset v.fatType cluster

/-- The entry of `cluster` in copy `i` of the table. -/
def formatEntry (m : ByteMem) (i cluster : ℕ) : ℕ :=
  match v.fatType with
  | .fat32 => m.load (entryPos v i cluster) 4 % 2 ^ 28
  | .fat16 => m.load (entryPos v i cluster) 2
  | .fat12 =>
    if cluster % 2 = 0 then m.load (entryPos v i cluster) 2 % 2 ^ 12
    else m.load (entryPos v i cluster) 2 / 2 ^ 4

/-- The bits of an entry that are not part of its value. -/
def reservedBits (m : ByteMem) (i cluster : ℕ) : ℕ :=
  match v.fatType with
  | .fat32 => m.load (entryPos v i cluster) 4 / 2 ^ 28
  | .fat16 => 0
  | .fat12 => 0

/-- The entries and reserved bits of `m'` are those of `m`, but for the entry of `cluster`. -/
def OthersKept (cluster : ℕ) (m m' : ByteMem) : Prop :=
  ∀ i < v.nFATs, ∀ c, InTable v c →
    (c ≠ cluster → formatEntry v m' i c = formatEntry v m i c) ∧
      reservedBits v m' i c = reservedBits v m i c

/-- The sector of the first copy that has the entry of `cluster`, as it is read for
`NextCluster`. -/
def readSector (d : Disk) (cluster : ℕ) : ByteMem :=
  ((d.fdSeek ((getFatEntryAddrForCluster v cluster).lba * v.blkSize)).fdRead
    v.blkSize).2

/-- A call that took the device from `d` to `d'` has written `val` into the entry of `cluster`, and
nothing else. -/
structure LocalUpdate (v : Volume) (d : Disk) (cluster val : ℕ) (d' : Disk) : Prop where
  written : ∀ i < v.nFATs, formatEntry v d'.bytes i cluster = val
  next : ∃ st, nextCluster v cluster (readSector v d' cluster) = some (val, st)
  free : ∀ sector, ∃ d'' sector', isClusterFree v d' cluster sector = some (d'', sector', val == 0)
  others : OthersKept v cluster d.bytes d'.bytes

/-- The calls that write an entry. -/
inductive Mark where
  | allocated
  | free
  | ending
  deriving DecidableEq, Repr

def Mark.exec (d : Disk) (cluster : ℕ) : Mark → Option Disk
  | .allocated => markAllocated v d cluster
  | .free => markFree v d cluster
  | .ending => markEnd v d cluster

/-- The value that a call stores: a cluster of a chain points to the one behind it. -/
def Mark.value (cluster : ℕ) : Mark → ℕ
  | .allocated => (cluster + 1) % 2 ^ v.fatType.bits
  | .free => 0
  | .ending => v.fatType.endMark

theorem Mark.value_lt (cluster : ℕ) (mark : Mark) :
    mark.value v cluster < 2 ^ v.fatType.bits := by
  cases mark with
  | allocated => exact Nat.mod_lt _ (Nat.two_pow_pos _)
  | free => exact Nat.two_pow_pos _
  | ending => cases h : v.fatType <;> simp [Mark.value, h, FatType.endMark, FatType.bits]

end

/-! ### Addresses of entries -/

section addresses

variable {v : Volume} {cluster c i j : ℕ}

theorem FatType.width_pos (t : FatType) : 0 < t.width := by cases t <;> decide

theorem fatOffset_eq (h : InTable v cluster) :
    fatOffset v.fatType cluster = formatOffset v.fatType cluster := by
  have hlt := h.1
  cases ht : v.fatType <;> simp only [ht, FatType.bits] at hlt <;>
    exact u32_of_lt (by omega)

theorem InTable.fatSz_pos (h : InTable v cluster) : 0 < v.fatSz := by
  have hle := h.2
  have hw := v.fatType.width_pos
  refine Nat.pos_of_ne_zero fun hz => ?_
  rw [hz, Nat.zero_mul] at hle
  omega

theorem tableBase_le (v : Volume) (hij : i < j) :
    tableBase v i + v.fatSz * v.bytesPerSector ≤ tableBase v j := by
  calc tableBase v i + v.fatSz * v.bytesPerSector
      = (v.reservedSectorCount + v.fatSz * (i + 1)) * v.bytesPerSector := by
        unfold tableBase; ring
    _ ≤ tableBase v j :=
        Nat.mul_le_mul_right _ (Nat.add_le_add_left (Nat.mul_le_mul_left _ hij) _)

/-- Bytes at one place of the table are at different addresses in different copies. -/
theorem copy_eq_of_pos_eq {x y : ℕ} (hx : x < v.fatSz * v.bytesPerSector)
    (hy : y < v.fatSz * v.bytesPerSector) (h : tableBase v i + x = tableBase v j + y) : i = j := by
  rcases Nat.lt_trichotomy i j with hij | hij | hij
  · have := tableBase_le v hij
    omega
  · exact hij
  · have := tableBase_le v hij
    omega

/-- Entries of different clusters have no byte in common, but for pairs of FAT12. -/
theorem formatOffset_apart (t : FatType) (hne : c ≠ cluster)
    (hpair : t = .fat12 → c / 2 ≠ cluster / 2) :
    formatOffset t cluster + t.width ≤ formatOffset t c ∨
      formatOffset t c + t.width ≤ formatOffset t cluster := by
  cases t <;> simp [formatOffset, FatType.width]
  · omega
  · omega
  · have := hpair rfl
    omega

theorem sectorSpan_base (hb : v.blkSize = v.bytesPerSector) (h : InTable v cluster) (i : ℕ) :
    (sectorSpan v cluster i).base =
      tableBase v i + formatOffset v.fatType cluster / v.bytesPerSector * v.bytesPerSector := by
  show (v.reservedSectorCount + fatOffset v.fatType cluster / v.bytesPerSector + v.fatSz * i) *
    v.blkSize = _
  rw [fatOffset_eq h, tableBase, hb]
  ring

/-- The entry lies at its offset in the sector. -/
theorem entryPos_eq (hb : v.blkSize = v.bytesPerSector) (h : InTable v cluster) (i : ℕ) :
    entryPos v i cluster =
      (sectorSpan v cluster i).base + (getFatEntryAddrForCluster v cluster).offset := by
  have hdiv := Nat.div_add_mod' (formatOffset v.fatType cluster) v.bytesPerSector
  show tableBase v i + _ = _ + fatOffset v.fatType cluster % v.bytesPerSector
  rw [sectorSpan_base hb h, fatOffset_eq h]
  omega

end addresses

/-! ### The bytes behind a call -/

/-- The device with the sector of the first copy also in all other copies. -/
def spliced (v : Volume) (d : Disk) (cluster : ℕ) : ByteMem :=
  (writeCopies v d cluster (readSector v d cluster) v.nFATs).bytes

/-- The copies of the table agree in the sector of `cluster`: taking over the sector of the
first copy changes no other entry. -/
def CopiesAgree (v : Volume) (d : Disk) (cluster : ℕ) : Prop :=
  OthersKept v cluster d.bytes (spliced v d cluster)

/-- The bytes of an entry of `d`, written over with `word`. -/
structure Writes (v : Volume) (d : Disk) (cluster word : ℕ) (d' : Disk) : Prop where
  entry : ∀ i < v.nFATs, d'.bytes.load (entryPos v i cluster) v.fatType.width = word
  elsewhere : ∀ x, (∀ i < v.nFATs, ¬ (Span.mk (entryPos v i cluster) v.fatType.width).Has x) →
    d'.bytes x = spliced v d cluster x
  moved : d'.offset ≠ (getFatEntryAddrForCluster v cluster).lba * v.blkSize

section bytes

variable {v : Volume} {d d' : Disk} {cluster c i word val : ℕ}

theorem readSector_apply (v : Volume) (d : Disk) (cluster j : ℕ) :
    readSector v d cluster j = d.bytes ((sectorSpan v cluster 0).base + j) := by
  show d.bytes ((getFatEntryAddrForCluster v cluster).lba * v.blkSize + j) =
    d.bytes (((getFatEntryAddrForCluster v cluster).lba + v.fatSz * 0) * v.blkSize + j)
  rw [Nat.mul_zero, Nat.add_zero]

/-- The word of an entry, in the sector that was read. -/
theorem load_readSector (hb : v.blkSize = v.bytesPerSector) (h : InTable v cluster) (d : Disk) :
    (readSector v d cluster).load (getFatEntryAddrForCluster v cluster).offset v.fatType.width =
      d.bytes.load (entryPos v 0 cluster) v.fatType.width := by
  refine ByteMem.load_shift fun j _ => ?_
  rw [readSector_apply, entryPos_eq hb h, Nat.add_assoc]

/-- What the driver stores over the word `old` of an entry. -/
def newWord (v : Volume) (old val : ℕ) : ℕ :=
  match v.fatType with
  | .fat32 => old / 2 ^ 28 * 2 ^ 28 + val % 2 ^ 28
  | .fat16 => val % 2 ^ 16
  | .fat12 => v.padding % 2 ^ 4 * 2 ^ 12 + val % 2 ^ 12

theorem putEntry_eq (v : Volume) (sector : ByteMem) (offset val : ℕ) :
    putEntry v sector offset val = sector.store offset v.fatType.width
      (newWord v (sector.load offset v.fatType.width) val) := by
  unfold putEntry newWord
  cases v.fatType <;> rfl

theorem newWord_lt (v : Volume) {old : ℕ} (hold : old < 256 ^ v.fatType.width) (val : ℕ) :
    newWord v old val < 256 ^ v.fatType.width := by
  unfold newWord
  cases ht : v.fatType <;> rw [ht] at hold <;> simp only [FatType.width] at hold ⊢ <;> omega

/-- A sector written to all copies: each byte of the device is one of the sector or is kept. -/
theorem writeCopies_congr (hsz : 0 < v.fatSz) {d₁ d₂ : Disk} {s s' : ByteMem} {n x : ℕ}
    (hd : d₁.bytes x = d₂.bytes x)
    (h : ∀ i < n, ∀ j < v.blkSize, x = (sectorSpan v cluster i).base + j → s j = s' j) :
    (writeCopies v d₁ cluster s n).bytes x = (writeCopies v d₂ cluster s' n).bytes x := by
  obtain ⟨hin, hout⟩ := writeCopies_bytes hsz d₁ cluster s n
  obtain ⟨hin', hout'⟩ := writeCopies_bytes hsz d₂ cluster s' n
  by_cases hx : ∃ i < n, (sectorSpan v cluster i).Has x
  · obtain ⟨i, hi, hlow, hhigh⟩ := hx
    have hsum : x = (sectorSpan v cluster i).base + (x - (sectorSpan v cluster i).base) := by omega
    have hlt : x - (sectorSpan v cluster i).base < v.blkSize :=
      Nat.sub_lt_left_of_lt_add hlow hhigh
    rw [hsum, hin i hi _ hlt, hin' i hi _ hlt]
    exact h i hi _ hlt hsum
  · have hno : ∀ i < n, ¬ (sectorSpan v cluster i).Has x := fun i hi hh => hx ⟨i, hi, hh⟩
    rw [hout x hno, hout' x hno, hd]

/-- The loop leaves the descriptor behind the sector of the last copy. -/
theorem writeCopies_moved (hn : 0 < v.nFATs) (hb : 0 < v.blkSize) (d : Disk) (s : ByteMem) :
    (writeCopies v d cluster s v.nFATs).offset ≠
      (getFatEntryAddrForCluster v cluster).lba * v.blkSize := by
  obtain ⟨n, hn'⟩ := Nat.exists_eq_succ_of_ne_zero (Nat.pos_iff_ne_zero.mp hn)
  rw [hn', writeCopies_succ]
  have hle : (getFatEntryAddrForCluster v cluster).lba * v.blkSize ≤
      (sectorSpan v cluster n).base := Nat.mul_le_mul_right _ (Nat.le_add_right _ _)
  show (sectorSpan v cluster n).base + v.blkSize ≠ _
  omega

theorem fitsSector_iff (v : Volume) (cluster : ℕ) :
    fitsSector v cluster = true ↔
      (getFatEntryAddrForCluster v cluster).offset + v.fatType.width ≤ v.blkSize :=
  decide_eq_true_iff

theorem markWith_eq_some_iff : markWith v d cluster val = some d' ↔
    fitsSector v cluster = true ∧
      writeCopies v ⟨d.bytes, (getFatEntryAddrForCluster v cluster).lba * v.blkSize +
        v.blkSize⟩ cluster (putEntry v (readSector v d cluster)
          (getFatEntryAddrForCluster v cluster).offset val) v.nFATs = d' := by
  unfold markWith
  cases fitsSector v cluster <;> simp [readSector, Disk.fdSeek, Disk.fdRead]

/-- A call that writes an entry changes the bytes of that entry and takes over the rest of
the sector of the first copy. -/
theorem writes_of_markWith (hb : v.blkSize = v.bytesPerSector) (hin : InTable v cluster)
    (hn : 0 < v.nFATs) (h : markWith v d cluster val = some d') :
    Writes v d cluster
      (newWord v (d.bytes.load (entryPos v 0 cluster) v.fatType.width) val) d' := by
  obtain ⟨hfits, rfl⟩ := markWith_eq_some_iff.mp h
  rw [fitsSector_iff] at hfits
  have hw := v.fatType.width_pos
  rw [putEntry_eq, load_readSector hb hin]
  set off := (getFatEntryAddrForCluster v cluster).offset with hoff
  set word := newWord v (d.bytes.load (entryPos v 0 cluster) v.fatType.width) val
    with hword
  have hlt : word < 256 ^ v.fatType.width := newWord_lt _ (ByteMem.load_lt _ _ _) _
  refine ⟨fun i hi => ?_, fun x hx => ?_, writeCopies_moved hn (by omega) _ _⟩
  · -- the word in copy `i` is the one in the sector
    refine (ByteMem.load_shift fun j hj => ?_).trans
      ((ByteMem.load_store_self (readSector v d cluster) off _ word).trans (Nat.mod_eq_of_lt hlt))
    rw [entryPos_eq hb hin, Nat.add_assoc]
    exact (writeCopies_bytes hin.fatSz_pos _ cluster _ _).1 i hi (off + j) (by omega)
  · refine writeCopies_congr hin.fatSz_pos rfl fun i hi j _ hxj => ?_
    refine ByteMem.store_of_not_has fun hh => hx i hi ?_
    rw [entryPos_eq hb hin, hxj]
    exact ⟨Nat.add_le_add_left hh.1 _, by
      have := hh.2
      simp only [Span.stop] at this ⊢
      omega⟩

/-- The first copy already has its own sector. -/
theorem spliced_first (hb : v.blkSize = v.bytesPerSector) (h : InTable v cluster)
    (hn : 0 < v.nFATs) (d : Disk) {x : ℕ}
    (hx : (Span.mk (tableBase v 0) (v.fatSz * v.bytesPerSector)).Has x) :
    spliced v d cluster x = d.bytes x := by
  obtain ⟨hin, hout⟩ := writeCopies_bytes h.fatSz_pos d cluster (readSector v d cluster) v.nFATs
  have hstop : x < tableBase v 0 + v.fatSz * v.bytesPerSector := hx.2
  by_cases hh : (sectorSpan v cluster 0).Has x
  · obtain ⟨hlow, hhigh⟩ := hh
    have hsum : (sectorSpan v cluster 0).base + (x - (sectorSpan v cluster 0).base) = x := by omega
    have hread := hin 0 hn (x - (sectorSpan v cluster 0).base)
      (Nat.sub_lt_left_of_lt_add hlow hhigh)
    rw [readSector_apply, hsum] at hread
    exact hread
  · refine hout x fun i _ hi => ?_
    rcases Nat.eq_zero_or_pos i with rfl | hpos
    · exact hh hi
    · -- the sectors of the other copies are behind the first copy
      have hbehind := tableBase_le v hpos
      have hlow : (sectorSpan v cluster i).base ≤ x := hi.1
      rw [sectorSpan_base hb h] at hlow
      omega

theorem load_spliced_first (hb : v.blkSize = v.bytesPerSector) (h : InTable v cluster)
    (hc : InTable v c) (hn : 0 < v.nFATs) (d : Disk) :
    (spliced v d cluster).load (entryPos v 0 c) v.fatType.width =
      d.bytes.load (entryPos v 0 c) v.fatType.width := by
  refine ByteMem.load_shift fun j hj => spliced_first hb h hn d ⟨?_, ?_⟩
  · show tableBase v 0 ≤ tableBase v 0 + formatOffset v.fatType c + j
    omega
  · have := hc.2
    show tableBase v 0 + formatOffset v.fatType c + j <
      tableBase v 0 + v.fatSz * v.bytesPerSector
    omega

/-- All copies have the word of the first one. -/
theorem load_spliced (hb : v.blkSize = v.bytesPerSector) (h : InTable v cluster)
    (hfits : fitsSector v cluster = true) (d : Disk) (hi : i < v.nFATs) :
    (spliced v d cluster).load (entryPos v i cluster) v.fatType.width =
      d.bytes.load (entryPos v 0 cluster) v.fatType.width := by
  rw [fitsSector_iff] at hfits
  rw [← load_readSector hb h]
  refine ByteMem.load_shift fun j hj => ?_
  rw [entryPos_eq hb h, Nat.add_assoc]
  exact (writeCopies_bytes h.fatSz_pos _ cluster _ _).1 i hi _ (by omega)

/-- A byte of another entry is not one of the bytes that are written. -/
theorem Writes.apart (hW : Writes v d cluster word d') (hin : InTable v cluster)
    {x : ℕ} (hx : x < v.fatSz * v.bytesPerSector)
    (hne : x < formatOffset v.fatType cluster ∨
      formatOffset v.fatType cluster + v.fatType.width ≤ x) :
    d'.bytes (tableBase v i + x) = spliced v d cluster (tableBase v i + x) := by
  refine hW.elsewhere _ fun k _ hk => ?_
  obtain ⟨hlow, hhigh⟩ := hk
  simp only [Span.stop, entryPos] at hlow hhigh
  have hend := hin.2
  obtain rfl : i = k := copy_eq_of_pos_eq (y := tableBase v i + x - tableBase v k) hx (by omega)
    (by omega)
  omega

theorem Writes.load_other (hW : Writes v d cluster word d') (hin : InTable v cluster)
    (hc : InTable v c) (hne : c ≠ cluster) (hpair : v.fatType = .fat12 → c / 2 ≠ cluster / 2) :
    d'.bytes.load (entryPos v i c) v.fatType.width =
      (spliced v d cluster).load (entryPos v i c) v.fatType.width := by
  have hsplit := formatOffset_apart v.fatType hne hpair
  have hend := hc.2
  refine ByteMem.load_shift fun j hj => ?_
  rw [entryPos, Nat.add_assoc]
  exact hW.apart hin (by omega) (by omega)

end bytes

/-! ### Outside of the table -/

/-- All copies of the table. -/
def tables (v : Volume) : Span := ⟨tableBase v 0, v.fatSz * v.bytesPerSector * v.nFATs⟩

section outside

variable {v : Volume} {d d' : Disk} {cluster i val : ℕ}

/-- The sector of an entry lies in the copies of the table. -/
theorem sectorSpan_within (hb : v.blkSize = v.bytesPerSector) (h : InTable v cluster)
    (hi : i < v.nFATs) :
    (sectorSpan v cluster i).Within (tables v) := by
  have hw := v.fatType.width_pos
  have hlt : formatOffset v.fatType cluster / v.bytesPerSector < v.fatSz :=
    Nat.div_lt_of_lt_mul (by
      rw [Nat.mul_comm]
      have := h.2
      omega)
  have hsector : (formatOffset v.fatType cluster / v.bytesPerSector + 1) * v.bytesPerSector ≤
      v.fatSz * v.bytesPerSector := Nat.mul_le_mul_right _ hlt
  have hcopy : tableBase v i = tableBase v 0 + v.fatSz * v.bytesPerSector * i := by
    unfold tableBase
    ring
  have hcopies : v.fatSz * v.bytesPerSector * (i + 1) ≤ v.fatSz * v.bytesPerSector * v.nFATs :=
    Nat.mul_le_mul_left _ hi
  rw [Nat.add_one_mul] at hsector
  rw [Nat.mul_add, Nat.mul_one] at hcopies
  refine ⟨?_, ?_⟩
  · show tableBase v 0 ≤ (sectorSpan v cluster i).base
    rw [sectorSpan_base hb h]
    omega
  · show (sectorSpan v cluster i).base + v.blkSize ≤
      tableBase v 0 + v.fatSz * v.bytesPerSector * v.nFATs
    rw [sectorSpan_base hb h, hb]
    omega

/-- Writing an entry changes nothing outside of the copies of the table. -/
theorem markWith_outside (hb : v.blkSize = v.bytesPerSector) (h : InTable v cluster)
    (hmark : markWith v d cluster val = some d') {x : ℕ} (hx : ¬ (tables v).Has x) :
    d'.bytes x = d.bytes x := by
  obtain ⟨-, rfl⟩ := markWith_eq_some_iff.mp hmark
  refine (writeCopies_bytes h.fatSz_pos _ cluster _ _).2 x fun i hi hin => hx ?_
  have hwithin := sectorSpan_within hb h hi
  exact ⟨hwithin.1.trans hin.1, hin.2.trans_le hwithin.2⟩

end outside

/-! ### Pairs of FAT12 -/

/-- The bits of the word of `cluster` that are the neighbour's. -/
def sharedBits (cluster word : ℕ) : ℕ := if cluster % 2 = 0 then word / 2 ^ 12 else word % 2 ^ 4

/-- If the cluster with which `cluster` shares a byte is in the table, its bits in the word
of `cluster` are those of the padding. -/
def NeighbourPadded (v : Volume) (d : Disk) (cluster : ℕ) : Prop :=
  ∀ c, InTable v c → c ≠ cluster → c / 2 = cluster / 2 →
    sharedBits cluster (d.bytes.load (entryPos v 0 cluster) 2) = v.padding % 2 ^ 4

/-- A value that stays the same when its digits move down by one and the padding follows: all
its digits are those of the padding. -/
def Repeats (v : Volume) (val : ℕ) : Prop := val = 0x111 * (v.padding % 2 ^ 4)

section pairs

variable {v : Volume} {d d' : Disk} {cluster c i word : ℕ}

theorem load_two (m : ByteMem) (p : ℕ) :
    m.load p 2 = (m p).toNat + 256 * (m (p + 1)).toNat := by
  simp only [ByteMem.load]
  omega

/-- Place in the table of the byte that the neighbour does not share. -/
def outerByte (cluster : ℕ) : ℕ :=
  if cluster % 2 = 0 then cluster + cluster / 2 + 2 else cluster + cluster / 2 - 1

/-- Weights of the two parts of the neighbour's entry. -/
def pairWeights (cluster : ℕ) : ℕ × ℕ := if cluster % 2 = 0 then (1, 16) else (256, 1)

theorem pairWeights_pos (cluster : ℕ) : 0 < (pairWeights cluster).1 := by
  unfold pairWeights
  split <;> decide

/-- The entry of the neighbour, out of the shared bits and the byte of its own. -/
theorem formatEntry_neighbour (ht : v.fatType = .fat12) (m : ByteMem) (i : ℕ) (hne : c ≠ cluster)
    (hpair : c / 2 = cluster / 2) : formatEntry v m i c =
      (pairWeights cluster).1 * sharedBits cluster (m.load (entryPos v i cluster) 2) +
        (pairWeights cluster).2 * (m (tableBase v i + outerByte cluster)).toNat := by
  simp only [formatEntry, ht, entryPos, formatOffset, sharedBits, pairWeights, outerByte]
  rcases Nat.mod_two_eq_zero_or_one cluster with hpar | hpar
  · obtain rfl : c = cluster + 1 := by omega
    have hodd : (cluster + 1) % 2 ≠ 0 := by omega
    have hhalf : cluster + 1 + (cluster + 1) / 2 = cluster + cluster / 2 + 1 := by omega
    rw [if_neg hodd, if_pos hpar, if_pos hpar, if_pos hpar, load_two, load_two, hhalf]
    have hb := (m (tableBase v i + (cluster + cluster / 2))).toNat_lt
    simp only [← Nat.add_assoc] at hb ⊢
    rw [show tableBase v i + cluster + cluster / 2 + 2 =
      tableBase v i + cluster + cluster / 2 + 1 + 1 from rfl]
    omega
  · obtain rfl : cluster = c + 1 := by omega
    have heven : c % 2 = 0 := by omega
    have hodd : (c + 1) % 2 ≠ 0 := by omega
    have hhalf : c + 1 + (c + 1) / 2 = c + c / 2 + 1 := by omega
    rw [if_pos heven, if_neg hodd, if_neg hodd, if_neg hodd, load_two, load_two, hhalf,
      Nat.add_sub_cancel]
    have hb := (m (tableBase v i + (c + c / 2))).toNat_lt
    simp only [← Nat.add_assoc] at hb ⊢
    omega

/-- The neighbour keeps its value exactly if it keeps the shared bits. -/
theorem Writes.neighbour_iff (hW : Writes v d cluster word d') (ht : v.fatType = .fat12)
    (hin : InTable v cluster) (hc : InTable v c) (hne : c ≠ cluster)
    (hpair : c / 2 = cluster / 2) (hi : i < v.nFATs) :
    formatEntry v d'.bytes i c = formatEntry v (spliced v d cluster) i c ↔
      sharedBits cluster ((spliced v d cluster).load (entryPos v i cluster) 2) =
        sharedBits cluster word := by
  have hword : d'.bytes.load (entryPos v i cluster) 2 = word := by
    have := hW.entry i hi
    rwa [ht] at this
  have houter : d'.bytes (tableBase v i + outerByte cluster) =
      spliced v d cluster (tableBase v i + outerByte cluster) := by
    have hend := hc.2
    rw [ht] at hend
    refine hW.apart hin ?_ ?_ <;>
      simp only [outerByte, ht, formatOffset, FatType.width] at hend ⊢ <;> split <;> omega
  rw [formatEntry_neighbour ht _ i hne hpair, formatEntry_neighbour ht _ i hne hpair, hword, houter,
    Nat.add_right_cancel_iff, Nat.mul_right_inj (pairWeights_pos cluster).ne']
  exact eq_comm

/-- The shared bits of the word that is stored for a value of equal digits. -/
theorem sharedBits_newWord (ht : v.fatType = .fat12) {val : ℕ} (hval : Repeats v val) (old : ℕ) :
    sharedBits cluster (newWord v old val) = v.padding % 2 ^ 4 := by
  rw [Repeats] at hval
  rw [sharedBits, newWord, ht, hval]
  dsimp only
  split <;> omega

end pairs

/-! ### Local updates -/

section update

variable {v : Volume} {d d' : Disk} {cluster val word : ℕ}

theorem OthersKept.symm {m m' : ByteMem} (h : OthersKept v cluster m m') :
    OthersKept v cluster m' m :=
  fun i hi c hc => ⟨fun hne => ((h i hi c hc).1 hne).symm, (h i hi c hc).2.symm⟩

theorem OthersKept.trans {m m' m'' : ByteMem} (h : OthersKept v cluster m m')
    (h' : OthersKept v cluster m' m'') : OthersKept v cluster m m'' :=
  fun i hi c hc => ⟨fun hne => ((h' i hi c hc).1 hne).trans ((h i hi c hc).1 hne),
    (h' i hi c hc).2.trans (h i hi c hc).2⟩

/-- Other entries and all reserved bits are those of the spliced device. -/
theorem Writes.othersKept (hW : Writes v d cluster
      (newWord v (d.bytes.load (entryPos v 0 cluster) v.fatType.width) val) d')
    (hb : v.blkSize = v.bytesPerSector) (hin : InTable v cluster) (hfits : fitsSector v cluster = true)
    (h12 : v.fatType = .fat12 → Repeats v val ∧ NeighbourPadded v d cluster) :
    OthersKept v cluster (spliced v d cluster) d'.bytes := by
  intro i hi c hc
  have hsame := load_spliced hb hin hfits d hi
  refine ⟨fun hne => ?_, ?_⟩
  · by_cases hpair : v.fatType = .fat12 ∧ c / 2 = cluster / 2
    · obtain ⟨ht, hhalf⟩ := hpair
      obtain ⟨hval, hpadded⟩ := h12 ht
      refine (hW.neighbour_iff ht hin hc hne hhalf hi).mpr ?_
      rw [sharedBits_newWord ht hval]
      rw [ht] at hsame
      exact (congrArg (sharedBits cluster) hsame).trans (hpadded c hc hne hhalf)
    · have hload := hW.load_other (i := i) hin hc hne fun ht hhalf => hpair ⟨ht, hhalf⟩
      unfold formatEntry
      cases ht : v.fatType <;> rw [ht] at hload <;> simp only [FatType.width] at hload <;>
        simp [hload]
  · cases ht : v.fatType with
    | fat16 => simp [reservedBits, ht]
    | fat12 => simp [reservedBits, ht]
    | fat32 =>
      simp only [reservedBits, ht]
      by_cases hne : c = cluster
      · subst hne
        have hentry := hW.entry i hi
        rw [ht] at hentry hsame
        simp only [FatType.width, newWord, ht] at hentry hsame
        rw [hentry, hsame]
        omega
      · have hload := hW.load_other (i := i) hin hc hne fun h => by rw [ht] at h; cases h
        rw [ht] at hload
        simp only [FatType.width] at hload
        rw [hload]

/-- What the readers of the driver take for the value of the word. -/
def driverValue (t : FatType) (cluster word : ℕ) : ℕ :=
  match t with
  | .fat32 => word % 2 ^ 28
  | .fat16 => word
  | .fat12 => getFat12Entry word cluster

theorem getEntry_eq (t : FatType) (sector : ByteMem) (offset cluster : ℕ) :
    getEntry t sector offset cluster = driverValue t cluster (sector.load offset t.width) := by
  cases t <;> rfl

/-- What the format says about the value of the word. -/
def formatValue (t : FatType) (cluster word : ℕ) : ℕ :=
  match t with
  | .fat32 => word % 2 ^ 28
  | .fat16 => word
  | .fat12 => if cluster % 2 = 0 then word % 2 ^ 12 else word / 2 ^ 4

theorem formatEntry_eq (v : Volume) (m : ByteMem) (i cluster : ℕ) :
    formatEntry v m i cluster =
      formatValue v.fatType cluster (m.load (entryPos v i cluster) v.fatType.width) := by
  unfold formatEntry
  cases v.fatType <;> rfl

/-- The driver and the format have the value that was stored; if the type is FAT12, only for
equal digits. -/
theorem values_iff (v : Volume) (cluster old : ℕ) {val : ℕ} (hval : val < 2 ^ v.fatType.bits) :
    (formatValue v.fatType cluster (newWord v old val) = val ∧
      driverValue v.fatType cluster (newWord v old val) = val) ↔
      (v.fatType = .fat12 → Repeats v val) := by
  cases ht : v.fatType with
  | fat32 =>
    simp only [formatValue, driverValue, newWord, ht, FatType.bits] at hval ⊢
    simp only [reduceCtorEq, false_implies, iff_true]
    omega
  | fat16 =>
    simp only [formatValue, driverValue, newWord, ht, FatType.bits] at hval ⊢
    simp only [reduceCtorEq, false_implies, iff_true]
    omega
  | fat12 =>
    simp only [formatValue, driverValue, newWord, ht, getFat12Entry, FatType.bits, Repeats] at hval ⊢
    rw [Nat.mod_eq_of_lt hval]
    constructor
    · rintro ⟨hformat, hdriver⟩ -
      split at hformat <;> split at hdriver <;> omega
    · intro h
      have hdigits := h trivial
      have hlt : v.padding % 2 ^ 4 < 2 ^ 4 := Nat.mod_lt _ (by decide)
      have hshift : (v.padding % 2 ^ 4 * 2 ^ 12 + val) / 2 ^ 4 = val :=
        Nat.div_eq_of_lt_le (by omega) (by omega)
      constructor <;> split <;> omega

theorem nextCluster_of_writes (hW : Writes v d cluster word d')
    (hb : v.blkSize = v.bytesPerSector) (hin : InTable v cluster) (hn : 0 < v.nFATs)
    (hfits : fitsSector v cluster = true) :
    ∃ st, nextCluster v cluster (readSector v d' cluster) =
      some (driverValue v.fatType cluster word, st) := by
  unfold nextCluster
  rw [if_pos hfits, getEntry_eq, load_readSector hb hin, hW.entry 0 hn]
  exact ⟨_, rfl⟩

/-- With the descriptor elsewhere the sector is read. -/
theorem isClusterFree_of_moved
    (hmoved : d.offset ≠ (getFatEntryAddrForCluster v cluster).lba * v.blkSize)
    (hfits : fitsSector v cluster = true) (sector : ByteMem) :
    isClusterFree v d cluster sector =
      some (d.fdSeek ((getFatEntryAddrForCluster v cluster).lba * v.blkSize),
        readSector v d cluster, getEntry v.fatType (readSector v d cluster)
          (getFatEntryAddrForCluster v cluster).offset cluster == 0) := by
  unfold isClusterFree
  simp only [if_pos hmoved, if_pos hfits]
  rfl

theorem isClusterFree_of_writes (hW : Writes v d cluster word d')
    (hb : v.blkSize = v.bytesPerSector) (hin : InTable v cluster) (hn : 0 < v.nFATs)
    (hfits : fitsSector v cluster = true) (sector : ByteMem) :
    ∃ d'' sector', isClusterFree v d' cluster sector =
      some (d'', sector', driverValue v.fatType cluster word == 0) := by
  have hread := isClusterFree_of_moved hW.moved hfits sector
  rw [getEntry_eq, load_readSector hb hin, hW.entry 0 hn] at hread
  exact ⟨_, _, hread⟩

/-- When a call with the value `val` is a local update. -/
theorem markWith_local_iff (hb : v.blkSize = v.bytesPerSector) (hin : InTable v cluster)
    (hn : 0 < v.nFATs) (d : Disk) (hval : val < 2 ^ v.fatType.bits) :
    (∃ d', markWith v d cluster val = some d' ∧ LocalUpdate v d cluster val d') ↔
      fitsSector v cluster = true ∧ CopiesAgree v d cluster ∧
        (v.fatType = .fat12 → Repeats v val ∧ NeighbourPadded v d cluster) := by
  constructor
  · rintro ⟨d', hmark, hlocal⟩
    have hW := writes_of_markWith hb hin hn hmark
    have hfits := (markWith_eq_some_iff.mp hmark).1
    have hformat := hlocal.written 0 hn
    rw [formatEntry_eq, hW.entry 0 hn] at hformat
    obtain ⟨st, hnext⟩ := hlocal.next
    obtain ⟨st', hnext'⟩ := nextCluster_of_writes hW hb hin hn hfits
    have hdriver := (Prod.mk.inj (Option.some.inj (hnext'.symm.trans hnext))).1
    have hdigits := (values_iff v cluster _ hval).mp ⟨hformat, hdriver⟩
    have h12 : v.fatType = .fat12 → Repeats v val ∧ NeighbourPadded v d cluster := by
      intro ht
      refine ⟨hdigits ht, fun c hc hne hhalf => ?_⟩
      -- the first copy already had its sector, so the bits were lost there
      have hkept := (hlocal.others 0 hn c hc).1 hne
      have hfirst : formatEntry v d.bytes 0 c = formatEntry v (spliced v d cluster) 0 c := by
        rw [formatEntry_eq, formatEntry_eq, load_spliced_first hb hin hc hn]
      have hbits := (hW.neighbour_iff ht hin hc hne hhalf hn).mp (hkept.trans hfirst)
      have hsame := load_spliced hb hin hfits d hn
      rw [ht] at hsame
      rw [sharedBits_newWord ht (hdigits ht)] at hbits
      exact (congrArg (sharedBits cluster) hsame.symm).trans hbits
    exact ⟨hfits, hlocal.others.trans (hW.othersKept hb hin hfits h12).symm, h12⟩
  · rintro ⟨hfits, hagree, h12⟩
    obtain ⟨d', hmark⟩ : ∃ d', markWith v d cluster val = some d' :=
      ⟨_, markWith_eq_some_iff.mpr ⟨hfits, rfl⟩⟩
    have hW := writes_of_markWith hb hin hn hmark
    obtain ⟨hformat, hdriver⟩ := (values_iff v cluster
      (d.bytes.load (entryPos v 0 cluster) v.fatType.width) hval).mpr fun ht => (h12 ht).1
    have hnext := nextCluster_of_writes hW hb hin hn hfits
    have hfree := isClusterFree_of_writes hW hb hin hn hfits
    rw [hdriver] at hnext hfree
    refine ⟨d', hmark, fun i hi => ?_, hnext, hfree, hagree.trans (hW.othersKept hb hin hfits h12)⟩
    rw [formatEntry_eq, hW.entry i hi, hformat]

/-- Copies with the same sector agree. -/
theorem copiesAgree_of_same (hin : InTable v cluster) (d : Disk)
    (h : ∀ i < v.nFATs, ∀ j < v.blkSize,
      d.bytes ((sectorSpan v cluster i).base + j) = d.bytes ((sectorSpan v cluster 0).base + j)) :
    CopiesAgree v d cluster := by
  have hsame : spliced v d cluster = d.bytes := by
    funext x
    obtain ⟨hwritten, hkept⟩ :=
      writeCopies_bytes hin.fatSz_pos d cluster (readSector v d cluster) v.nFATs
    by_cases hx : ∃ i < v.nFATs, (sectorSpan v cluster i).Has x
    · obtain ⟨i, hi, hlow, hhigh⟩ := hx
      obtain ⟨j, rfl⟩ := Nat.exists_eq_add_of_le hlow
      have hj : j < v.blkSize := Nat.lt_of_add_lt_add_left hhigh
      rw [h i hi j hj, ← readSector_apply]
      exact hwritten i hi j hj
    · exact hkept x fun i hi hh => hx ⟨i, hi, hh⟩
  intro i _ c _
  rw [hsame]
  exact ⟨fun _ => rfl, rfl⟩

/-- The value is cut to the bits of the entry. -/
theorem putEntry_mod (v : Volume) (sector : ByteMem) (offset val : ℕ) :
    putEntry v sector offset (val % 2 ^ v.fatType.bits) = putEntry v sector offset val := by
  unfold putEntry
  cases v.fatType <;> simp only [FatType.bits, Nat.mod_mod]

theorem Mark.exec_eq (hin : InTable v cluster) (d : Disk) (mark : Mark) :
    mark.exec v d cluster = markWith v d cluster (mark.value v cluster) := by
  cases mark with
  | free => rfl
  | ending => rfl
  | allocated =>
    have hbits : v.fatType.bits ≤ 28 := by cases v.fatType <;> decide
    have hlt : cluster + 1 < 2 ^ 32 := by
      have := hin.1.trans_le (Nat.pow_le_pow_right (by decide) hbits)
      omega
    show markWith v d cluster (u32 (cluster + 1)) =
      markWith v d cluster ((cluster + 1) % 2 ^ v.fatType.bits)
    unfold markWith
    simp [u32_of_lt hlt, putEntry_mod]

/-- On a device whose blocks are the sectors of the volume, writing an entry with
`markAllocated`, `markFree` or `markEnd` is a local update of the table exactly if the access stays
in the sector, the copies of the table agree there, and on a FAT12 volume the digits of the value
and the bits of the neighbour are those of the padding. -/
theorem local_update_iff (hb : v.blkSize = v.bytesPerSector) (hin : InTable v cluster)
    (hn : 0 < v.nFATs) (d : Disk) (mark : Mark) :
    (∃ d', mark.exec v d cluster = some d' ∧
        LocalUpdate v d cluster (mark.value v cluster) d') ↔
      fitsSector v cluster = true ∧ CopiesAgree v d cluster ∧
        (v.fatType = .fat12 → Repeats v (mark.value v cluster) ∧ NeighbourPadded v d cluster) := by
  rw [mark.exec_eq hin]
  exact markWith_local_iff hb hin hn d (mark.value_lt v cluster)

/-- A FAT16 volume with two copies of a table of one sector. -/
def twoCopies : Volume where
  fatType := .fat16
  blkSize := 512
  padding := 0
  reservedSectorCount := 1
  nFATs := 2
  bytesPerSector := 512
  sectorsPerCluster := 1
  fatSz := 1
  firstDataSector := 35
  countofClusters := 200

theorem local_update_iff_twoCopies : ∃ d', markEnd twoCopies ⟨fun _ => 0, 0⟩ 7 = some d' ∧
    LocalUpdate twoCopies ⟨fun _ => 0, 0⟩ 7 0xFFF8 d' :=
  (local_update_iff rfl (show InTable twoCopies 7 by decide) (by decide) ⟨fun _ => 0, 0⟩
    .ending).mpr
    ⟨by decide, copiesAgree_of_same (by decide) _ fun _ _ _ _ => rfl, nofun⟩

/-- A FAT12 volume, and a device where cluster 3 is followed by cluster `0x123`. -/
def packed (padding : ℕ) : Volume := { twoCopies with fatType := .fat12, padding, nFATs := 1 }

def packedDisk : Disk :=
  ⟨fun x => if x = 516 then 0x30 else if x = 517 then 0x12 else 0, 0⟩

/-- Cluster 2 is marked as the last one of a chain: `NextCluster` then takes the chain to
another cluster, and the low digit of the entry of cluster 3 is the padding. -/
theorem markEnd_packed (padding : Fin 16) : ∃ d', markEnd (packed padding) packedDisk 2 = some d' ∧
    (nextCluster (packed padding) 2 (readSector (packed padding) d' 2)).map Prod.fst =
      some (0x100 * padding.val + 0xFF) ∧
    formatEntry (packed padding) d'.bytes 0 3 = 0x120 + padding.val :=
  ⟨_, rfl, by revert padding; decide +kernel, by revert padding; decide +kernel⟩

/-- With any padding this is not a local update. -/
theorem packed_entry_overwrites_neighbour :
    InTable (packed 0) 2 ∧ InTable (packed 0) 3 ∧
    formatEntry (packed 0) packedDisk.bytes 0 3 = 0x123 ∧
    (∃ d', markEnd (packed 0) packedDisk 2 = some d' ∧
      (nextCluster (packed 0) 2 (readSector (packed 0) d' 2)).map Prod.fst = some 0xFF ∧
      formatEntry (packed 0) d'.bytes 0 3 = 0x120) ∧
    ¬ ∃ (padding : Fin 16) (d' : Disk), markEnd (packed padding) packedDisk 2 = some d' ∧
      LocalUpdate (packed padding) packedDisk 2 0xFF8 d' := by
  refine ⟨by decide, by decide, by decide +kernel, markEnd_packed 0, ?_⟩
  rintro ⟨padding, d', hmark, hlocal⟩
  obtain ⟨d'', hmark', hnext, -⟩ := markEnd_packed padding
  obtain rfl : d' = d'' := Option.some.inj (hmark.symm.trans hmark')
  obtain ⟨st, hvalue⟩ := hlocal.next
  rw [hvalue] at hnext
  have hsame := Option.some.inj hnext
  omega

end update

end Obos.Fat
