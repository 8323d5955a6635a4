/-
The clusters of a FAT volume on the device.

`Layout` says that the data area lies behind the tables, so that the transfers of clusters
and of directory records keep the entries of the table.

* `writeFatDirent_spec`, `copyClusters_outside`, `writeRound_spec` — what the transfers
  keep,
* `moveClusters_spec` — a chain is moved: the clusters of the new one were free, those of
  the old one are free behind the call, and no other entry of the table changes.
-/
import Obos.Fat.Create

namespace Obos.Fat

open List
open ByteMem (load_store_apart load_store_self transfer_of_has transfer_of_not_has)
open Option (bind_eq_bind bind_some getD_some map_some)

/-! ### Clusters on the device -/

/-- The layout of a volume: the data area lies behind the tables, and its sectors are
numbered with 32 bits. -/
structure Layout (v : Volume) : Prop extends Wide v where
  sectors_pos : 0 < v.sectorsPerCluster
  behind : v.reservedSectorCount + v.fatSz * v.nFATs ≤ v.firstDataSector
  small : v.firstDataSector + v.countofClusters * v.sectorsPerCluster ≤ 2 ^ 32

/-- Where the data of a cluster starts. -/
def dataPos (v : Volume) (k : ℕ) : ℕ :=
  (v.firstDataSector + (k - 2) * v.sectorsPerCluster) * v.blkSize

def clusterSpan (v : Volume) (k : ℕ) : Span := ⟨dataPos v k, v.bytesPerCluster⟩

section clusters

variable {v : Volume} {d d' : Disk} {k j n : ℕ}

theorem Wide.blkSize_pos (hv : Wide v) : 0 < v.blkSize := by
  have hfits := (fitsSector_iff v 0).mp (hv.fits (Nat.zero_le _))
  have hw := v.fatType.width_pos
  omega

theorem Layout.bytesPerCluster_pos (hv : Layout v) : 0 < v.bytesPerCluster :=
  Nat.mul_pos hv.sectors_pos hv.blkSize_pos

theorem Layout.clusterToSector (hv : Layout v) (hk : DataCluster v k) {w : ℕ} (hw : 32 ≤ w) :
    clusterToSector w v k * v.blkSize = dataPos v k := by
  obtain ⟨hlow, hhigh⟩ := hk
  have hpow : (2 : ℕ) ^ 32 ≤ 2 ^ w := Nat.pow_le_pow_right (by decide) hw
  have hsmall := hv.small
  have hpos := hv.sectors_pos
  have hle : (k - 2 + 1) * v.sectorsPerCluster ≤ v.countofClusters * v.sectorsPerCluster :=
    Nat.mul_le_mul_right _ (by omega)
  rw [Nat.add_one_mul] at hle
  have hsum : (k + (2 ^ w - 2)) * v.sectorsPerCluster + v.firstDataSector =
      v.firstDataSector + (k - 2) * v.sectorsPerCluster + 2 ^ w * v.sectorsPerCluster := by
    have hk2 : k + (2 ^ w - 2) = k - 2 + 2 ^ w := by omega
    rw [hk2]
    ring
  unfold Fat.clusterToSector dataPos
  rw [hsum, Nat.add_mul_mod_self_left, Nat.mod_eq_of_lt (by omega)]

theorem tables_stop (v : Volume) :
    (tables v).stop = (v.reservedSectorCount + v.fatSz * v.nFATs) * v.bytesPerSector := by
  show tableBase v 0 + v.fatSz * v.bytesPerSector * v.nFATs = _
  unfold tableBase
  ring

theorem Layout.tables_le (hv : Layout v) (k : ℕ) : (tables v).stop ≤ dataPos v k := by
  rw [tables_stop]
  calc (v.reservedSectorCount + v.fatSz * v.nFATs) * v.bytesPerSector
      ≤ v.firstDataSector * v.bytesPerSector := Nat.mul_le_mul_right _ hv.behind
    _ = v.firstDataSector * v.blkSize := by rw [hv.blocks]
    _ ≤ dataPos v k := Nat.mul_le_mul_right _ (Nat.le_add_right _ _)

theorem Layout.tables_apart (hv : Layout v) (k : ℕ) : (tables v).Apart (clusterSpan v k) :=
  .inl (hv.tables_le k)

/-- Two devices with the same tables. -/
def SameTables (v : Volume) (d d' : Disk) : Prop := ∀ x, (tables v).Has x → d'.bytes x = d.bytes x

/-- The entries depend on the bytes of the table only. -/
theorem Wide.entry_congr (hv : Wide v) (hk : k ≤ v.countofClusters + 1)
    (h : SameTables v d d') : d'.entry v k = d.entry v k := by
  have hin := hv.inTable k hk
  have hload : d'.bytes.load (entryPos v 0 k) v.fatType.width =
      d.bytes.load (entryPos v 0 k) v.fatType.width := by
    refine ByteMem.load_congr fun x hx => h x ⟨?_, ?_⟩
    · exact (Nat.le_add_right _ _).trans hx.1
    · have hend := hin.2
      have hone : v.fatSz * v.bytesPerSector * 1 ≤ v.fatSz * v.bytesPerSector * v.nFATs :=
        Nat.mul_le_mul_left _ hv.copies
      have hx2 : x < tableBase v 0 + formatOffset v.fatType k + v.fatType.width := hx.2
      show x < tableBase v 0 + v.fatSz * v.bytesPerSector * v.nFATs
      omega
  rw [Disk.entry, Disk.entry, formatEntry_eq, formatEntry_eq, hload]

theorem Wide.freeIn_congr (hv : Wide v) (h : SameTables v d d') (k : ℕ) :
    FreeIn v d k ↔ FreeIn v d' k := by
  constructor
  · rintro ⟨hdata, hz⟩
    exact ⟨hdata, (hv.entry_congr hdata.2 h).trans hz⟩
  · rintro ⟨hdata, hz⟩
    exact ⟨hdata, (hv.entry_congr hdata.2 h).symm.trans hz⟩

/-- The number of clusters of `n` bytes. -/
theorem Layout.le_clustersFor (hv : Layout v) (n : ℕ) :
    n ≤ v.clustersFor n * v.bytesPerCluster ∧
      v.clustersFor n * v.bytesPerCluster < n + v.bytesPerCluster := by
  have hpos := hv.bytesPerCluster_pos
  have hdiv := Nat.div_add_mod' n v.bytesPerCluster
  have hmod := Nat.mod_lt n hpos
  unfold Volume.clustersFor
  rw [Nat.add_mul]
  split
  · rw [Nat.one_mul]
    omega
  · omega

theorem Layout.clustersFor_le (hv : Layout v) {m : ℕ} (h : n ≤ m * v.bytesPerCluster) :
    v.clustersFor n ≤ m := by
  have hn := (hv.le_clustersFor n).2
  by_contra hlt
  have hstep : (m + 1) * v.bytesPerCluster ≤ v.clustersFor n * v.bytesPerCluster :=
    Nat.mul_le_mul_right _ (by omega)
  rw [Nat.add_one_mul] at hstep
  omega

theorem Layout.clustersFor_mono (hv : Layout v) {m : ℕ} (h : m ≤ n) :
    v.clustersFor m ≤ v.clustersFor n :=
  hv.clustersFor_le (h.trans (hv.le_clustersFor n).1)

end clusters

/-! ### Transfers -/

/-- Where the directory record of a file is. -/
def Entry.recordSpan (e : Entry) : Span := ⟨e.direntFileoff + e.direntOffset, 32⟩

section transfers

variable {v : Volume} {d : Disk} {e : Entry} {k n : ℕ}

/-- Only the record is written. -/
theorem writeFatDirent_spec (he : e.direntOffset + 32 ≤ v.bytesPerCluster) (d : Disk) :
    ∃ d', writeFatDirent v d e = some d' ∧
      ∀ x, ¬ e.recordSpan.Has x → d'.bytes x = d.bytes x := by
  refine ⟨_, if_pos he, fun x hx => ?_⟩
  simp only [Disk.fdWrite, Disk.fdSeek]
  by_cases hin : (Span.mk e.direntFileoff v.bytesPerCluster).Has x
  · rw [transfer_of_has hin, transfer_of_not_has]
    · have hlow : e.direntFileoff ≤ x := hin.1
      congr 1
      omega
    · rintro ⟨hlow, hhigh⟩
      have hbase : e.direntFileoff ≤ x := hin.1
      simp only [Span.stop_mk] at hlow hhigh
      refine hx ⟨?_, ?_⟩
      · show e.direntFileoff + e.direntOffset ≤ x
        omega
      · show x < e.direntFileoff + e.direntOffset + 32
        omega
  · exact transfer_of_not_has hin

section

variable (hv : Layout v)
include hv

/-- Only clusters of the copy are written. -/
theorem copyClusters_outside {cluster newCluster : ℕ}
    (hnew : ∀ i < n, DataCluster v (newCluster + i)) (d : Disk) {x : ℕ}
    (hx : ∀ i < n, ¬ (clusterSpan v (newCluster + i)).Has x) :
    (copyClusters v d cluster newCluster n).bytes x = d.bytes x := by
  induction n with
  | zero => rfl
  | succ n ih =>
    rw [copyClusters, range_succ, foldl_append]
    simp only [foldl_cons, foldl_nil, Disk.fdWrite, Disk.fdRead, Disk.seekCluster,
      Disk.fdSeek, hv.clusterToSector (hnew n (Nat.lt_succ_self n)) (by decide : 32 ≤ 64)]
    rw [transfer_of_not_has (hx n (Nat.lt_succ_self n))]
    exact ih (fun i hi => hnew i (Nat.lt_succ_of_lt hi)) fun i hi => hx i (Nat.lt_succ_of_lt hi)

/-- One round of a write, into one cluster. -/
theorem writeRound_spec (buf : ByteMem) {i : ℕ} {w : WriteData}
    (hk : DataCluster v (k + i)) (hleft : 0 < w.bytesLeft) {len : ℕ}
    (hlen : (if w.bytesLeft ≤ v.bytesPerCluster then w.bytesLeft
      else v.bytesPerCluster - w.clusterOffset) = len)
    (hroom : w.clusterOffset + len ≤ v.bytesPerCluster) :
    ∃ w', writeRound v buf k w i = some w' ∧ w'.clusterOffset = 0 ∧
      w'.bytesLeft = w.bytesLeft - v.bytesPerCluster ∧
      ∀ x, ¬ (clusterSpan v (k + i)).Has x → w'.disk.bytes x = w.disk.bytes x := by
  have heq : writeRound v buf k w i = some
      ⟨(w.disk.seekCluster 64 v (k + i)).fdWrite
        (w.clusterBuf.transfer w.clusterOffset buf w.currentOffset len) v.bytesPerCluster,
        fun _ => 0, w.currentOffset + v.bytesPerCluster, 0, w.bytesLeft - v.bytesPerCluster⟩ := by
    unfold writeRound
    simp [if_pos hleft, hlen, if_pos hroom]
  refine ⟨_, heq, rfl, rfl, fun x hx => ?_⟩
  simp only [Disk.fdWrite, Disk.seekCluster, Disk.fdSeek,
    hv.clusterToSector hk (by decide : 32 ≤ 64)]
  exact transfer_of_not_has hx

theorem Layout.clustersFor_pos (hn : 0 < n) : 0 < v.clustersFor n := by
  have hlow := (hv.le_clustersFor n).1
  refine Nat.pos_of_ne_zero fun h0 => ?_
  rw [h0, Nat.zero_mul] at hlow
  omega

end

end transfers

/-! ### Chains that move -/

section moving

variable {v : Volume} {c : Cache} {xs : List ℕ} {cluster n m : ℕ}

/-- An allocation that does not break the links of the list. -/
def AllocOk (c : Cache) (n : ℕ) : Prop :=
  1 ≤ n ∧ ∀ x, c.lastFit n = some x → x ≠ 0 → (c.node x).nClusters = n → (c.node x).prev = 0

/-- A chain of `n` clusters from `r` on replaces `m` clusters from `cluster` on. -/
structure Moved (v : Volume) (d d' : Disk) (cluster m r n : ℕ) : Prop where
  free : ∀ k, (Span.mk r n).Has k → FreeIn v d k
  chain : ∀ k, (Span.mk r n).Has k → d'.entry v k = chainEntry v r n k
  others : ∀ k ≤ v.countofClusters + 1, ¬ (Span.mk r n).Has k →
    ¬ (cluster ≠ 0 ∧ (Span.mk cluster m).Has k) → d'.entry v k = d.entry v k

theorem moveClusters_spec (hv : Layout v) (h : c.Inv xs (FreeIn v c.disk)) (hn : AllocOk c n)
    (hold : cluster = 0 ∨ Freeable v c.disk cluster m) (hm : m ≤ n) :
    ((c.freeClusterCount < n ∨ c.lastFit n = some 0) ∧
      moveClusters v c cluster n m = some (c, none)) ∨
    ∃ c' r, moveClusters v c cluster n m = some (c', some r) ∧ DataCluster v r ∧
      r + n ≤ v.countofClusters + 2 ∧ Moved v c.disk c'.disk cluster m r n ∧
      ∃ xs', c'.Inv xs' (FreeIn v c'.disk) := by
  rcases allocateClusters_spec hv.toWide h hn.1 hn.2 with
    ⟨hnone, hfull⟩ | ⟨c₁, r, hc₁, halloc, xs₁, h₁⟩
  · refine .inl ⟨hnone, ?_⟩
    unfold moveClusters
    simp [hfull]
  right
  have hn1 := hn.1
  have hrdata : ∀ i < n, DataCluster v (r + i) := fun i hi =>
    (halloc.free (r + i) (Span.has_add r hi)).1
  have hr : DataCluster v r := hrdata 0 hn1
  have hlast : r + n ≤ v.countofClusters + 2 := by
    have := (hrdata (n - 1) (by omega)).2
    omega
  have hmax : r ≠ uint32Max := by
    have hlt := hv.lt
    have := hr.2
    unfold uint32Max
    omega
  set c₂ : Cache := { c₁ with disk := copyClusters v c₁.disk cluster r m } with hc₂
  -- the copy does not reach the table
  have htables : SameTables v c₁.disk c₂.disk := fun x hx =>
    copyClusters_outside hv (fun i hi => hrdata i (hi.trans_le hm)) _ fun i _ =>
      (hv.tables_apart (r + i)).not_has hx
  have hentry : ∀ k ≤ v.countofClusters + 1, c₂.disk.entry v k = c₁.disk.entry v k := fun k hk =>
    hv.entry_congr hk htables
  have h₂ : c₂.Inv xs₁ (FreeIn v c₂.disk) := (h₁.withDisk _).congr (hv.freeIn_congr htables)
  have hcall : moveClusters v c cluster n m =
      (if cluster ≠ 0 then freeClusters v c₂ cluster m else some c₂).bind fun c =>
        some (c, some r) := by
    unfold moveClusters
    simp only [hc₁, bind_eq_bind, bind_some, if_neg hmax]
    split <;> rfl
  rw [hcall]
  by_cases h0 : cluster = 0
  · rw [if_neg (not_not.mpr h0)]
    refine ⟨c₂, r, rfl, hr, hlast, ⟨halloc.free, fun k hk => ?_, fun k hk hout _ => ?_⟩,
      xs₁, h₂⟩
    · rw [hentry k (halloc.free k hk).1.2, halloc.chain k hk]
    · rw [hentry k hk, halloc.others k hk hout]
  · have hfree := hold.resolve_left h0
    have hapart : ∀ k, (Span.mk cluster m).Has k → ¬ (Span.mk r n).Has k := fun k hk hin =>
      (hfree.1 k hk).2 (halloc.free k hin).2
    have hfree₂ : Freeable v c₂.disk cluster m := by
      refine ⟨fun k hk => ?_, hfree.2⟩
      obtain ⟨hdata, hne⟩ := hfree.1 k hk
      rw [hentry k hdata.2, halloc.others k hdata.2 (hapart k hk)]
      exact ⟨hdata, hne⟩
    obtain ⟨c₃, hc₃, hfreed, hinv⟩ := freeClusters_spec hv.toWide h₂ hfree₂
    rw [if_pos h0, hc₃]
    refine ⟨c₃, r, rfl, hr, hlast, ⟨halloc.free, fun k hk => ?_, fun k hk hout hout' => ?_⟩, hinv⟩
    · have hk' := (halloc.free k hk).1.2
      rw [hfreed.others k hk' fun hin => hapart k hin hk, hentry k hk', halloc.chain k hk]
    · rw [hfreed.others k hk fun hin => hout' ⟨h0, hin⟩, hentry k hk, halloc.others k hk hout]

end moving

/-! ### Fields of a record -/

namespace Entry

variable {v : Volume} {e : Entry} {n r : ℕ}

theorem filesize_setFilesize (hn : n < 2 ^ 32) : (e.setFilesize n).filesize = n := by
  rw [filesize, setFilesize, load_store_self]
  exact Nat.mod_eq_of_lt hn

theorem load_setFilesize {a w : ℕ} (h : a + w ≤ 28) :
    (e.setFilesize n).data.load a w = e.data.load a w :=
  load_store_apart (.inr h)

theorem firstCluster_setFilesize : (e.setFilesize n).firstCluster v = e.firstCluster v := by
  unfold firstCluster
  rw [load_setFilesize (by decide), load_setFilesize (by decide)]

/-- The number of a cluster of the volume fits its two fields. -/
theorem firstCluster_setFirstCluster (hv : Wide v) (hr : r ≤ v.countofClusters + 1) :
    (e.setFirstCluster r).firstCluster v = r := by
  have hlow : (e.setFirstCluster r).data.load 26 2 = r % 2 ^ 16 := by
    rw [setFirstCluster, load_store_self]
    omega
  have hhigh : (e.setFirstCluster r).data.load 20 2 = r / 2 ^ 16 % 2 ^ 16 := by
    rw [setFirstCluster, load_store_apart (.inr (by decide)), load_store_self]
    rfl
  have hlt := (hv.inTable r hr).1
  have hne := hv.not_packed
  unfold firstCluster
  cases ht : v.fatType with
  | fat32 =>
    rw [ht, FatType.bits] at hlt
    simp only [hlow, hhigh]
    omega
  | fat16 =>
    rw [ht, FatType.bits] at hlt
    simp only [hlow]
    omega
  | fat12 => exact absurd ht hne

end Entry

/-- The bytes of a buffer. -/
def bufferOf (bs : List UInt8) : ByteMem := fun j => bs.getD j 0

theorem Entry.filesize_lt (e : Entry) : e.filesize < 2 ^ 32 := e.data.load_lt 28 4

/-! ### Chains -/

section chains

variable {v : Volume} {k : ℕ}

theorem transfer_twice (m m' : ByteMem) (dst src n : ℕ) :
    (m.transfer dst m' src n).transfer dst m' src n = m.transfer dst m' src n := by
  funext x
  by_cases hx : (Span.mk dst n).Has x
  · rw [transfer_of_has hx, transfer_of_has hx]
  · rw [transfer_of_not_has hx]

/-- The walk ends without an error behind cluster `k`: its entry is an end mark, or one of a
cluster below the last two. -/
def GoesOn (v : Volume) (d : Disk) (k : ℕ) : Prop :=
  v.fatType.endMark ≤ d.entry v k ∨ d.entry v k ≠ 0 ∧ d.entry v k < v.countofClusters

theorem Wide.nextCluster_eq (hv : Wide v) (hk : k ≤ v.countofClusters + 1) (d : Disk) :
    nextCluster v k (readSector v d k) =
      some (d.entry v k, if v.fatType.endMark ≤ d.entry v k then .eof else .success) := by
  have hentry : getEntry v.fatType (readSector v d k) (getFatEntryAddrForCluster v k).offset k =
      d.entry v k := hv.getEntry_eq_entry hk d
  unfold nextCluster
  rw [if_pos (hv.fits hk), hentry]

end chains

instance (v : Volume) (d : Disk) (k : ℕ) : Decidable (GoesOn v d k) :=
  inferInstanceAs (Decidable (_ ∨ _))

theorem eightClusters_layout : Layout eightClusters :=
  ⟨eightClusters_wide, by decide, by decide, by decide⟩

end Obos.Fat
