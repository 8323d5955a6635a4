/-
No cluster belongs to two files of a FAT volume, and none of a file is free.

The clusters of a file are those that the table leads to from its first one.  `Consistent`
says that the chains of the cached records are disjoint and not free, and that the free
list is that of the table.

* `Consistent.of_change` — what an operation has to show: it changes no entry of the chains
  of other files, and the new chain of its file was free or its own,
* `Consistent.writeSync`, `Consistent.truncFile`, `Consistent.refDirent`,
  `Consistent.removeFile` — the operations,
* `no_cross_links` — every run of operations that meet `FsOpOk` keeps it.
-/
import Mathlib.Logic.Relation
import Obos.Fat.Directory

namespace Obos.Fat

open Option (bind_eq_bind bind_some map_some)

/-! ### Chains -/

/-- The entry of `a` leads to `b`. -/
def Next (v : Volume) (d : Disk) (a b : ℕ) : Prop :=
  DataCluster v a ∧ d.entry v a = b ∧ b < v.fatType.endMark

/-- `k` is a cluster of the chain from `first` on.  A file without clusters has 0 there. -/
def InChain (v : Volume) (d : Disk) (first k : ℕ) : Prop :=
  first ≠ 0 ∧ Relation.ReflTransGen (Next v d) first k

/-- The clusters of a cached record. -/
def ChainOf (v : Volume) (s : Fs) (i k : ℕ) : Prop :=
  ∃ n, s.node i = some n ∧ InChain v s.cache.disk (n.entry.firstCluster v) k

/-- `n` clusters one behind the other, which `FreeClusters` can free. -/
structure Contiguous (v : Volume) (d : Disk) (first n : ℕ) : Prop where
  data : ∀ i < n, DataCluster v (first + i)
  next : ∀ i < n - 1, d.entry v (first + i) = first + i + 1 ∧ first + i + 1 < v.fatType.endMark
  low : n = 0 ∨ first < v.countofClusters

section chains

variable {v : Volume} {d d' : Disk} {first k n r : ℕ}

/-- A chain whose entries are not changed has no new clusters. -/
theorem InChain.of_same (hk : InChain v d' first k)
    (h : ∀ a, InChain v d first a → DataCluster v a → d'.entry v a = d.entry v a) :
    InChain v d first k := by
  obtain ⟨h0, hk⟩ := hk
  refine ⟨h0, ?_⟩
  induction hk with
  | refl => exact .refl
  | tail _ hnext ih =>
    obtain ⟨hdata, hentry, hlt⟩ := hnext
    exact ih.tail ⟨hdata, (h _ ⟨h0, ih⟩ hdata).symm.trans hentry, hlt⟩

/-- A chain that was allocated ends with its last cluster. -/
theorem InChain.span (hk : InChain v d r k) (hn : 1 ≤ n)
    (h : ∀ k, (Span.mk r n).Has k → d.entry v k = chainEntry v r n k) : (Span.mk r n).Has k := by
  obtain ⟨-, hk⟩ := hk
  induction hk with
  | refl => exact ⟨le_rfl, Nat.lt_add_of_pos_right hn⟩
  | @tail b c _ hnext ih =>
    obtain ⟨-, hentry, hlt⟩ := hnext
    rw [h b ih] at hentry
    unfold chainEntry at hentry
    obtain ⟨hlow, hhigh⟩ := ih
    simp only [Span.stop_mk] at hlow hhigh
    split at hentry
    · omega
    · exact ⟨by simp only; omega, by simp only [Span.stop_mk]; omega⟩

theorem Contiguous.inChain (h : Contiguous v d first n) {i : ℕ} (hi : i < n) :
    InChain v d first (first + i) := by
  have h0 : first ≠ 0 := by
    have := (h.data 0 (by omega)).1
    omega
  refine ⟨h0, ?_⟩
  induction i with
  | zero => exact .refl
  | succ i ih =>
    obtain ⟨hentry, hlt⟩ := h.next i (by omega)
    exact (ih (by omega)).tail ⟨h.data i (by omega), hentry, hlt⟩

theorem Contiguous.inChain_of_has (h : Contiguous v d first n) (hk : (Span.mk first n).Has k) :
    DataCluster v k ∧ InChain v d first k := by
  obtain ⟨i, rfl⟩ := Nat.exists_eq_add_of_le hk.1
  have hi : i < n := Nat.lt_of_add_lt_add_left hk.2
  exact ⟨h.data i hi, h.inChain hi⟩

end chains

/-! ### Consistent volumes -/

/-- The free list is that of the table, and the chains of the cached records are disjoint and
not free. -/
structure Consistent (v : Volume) (s : Fs) : Prop where
  free : ∃ xs, s.cache.Inv xs (FreeIn v s.cache.disk)
  apart : ∀ i j k, i ≠ j → ChainOf v s i k → ¬ ChainOf v s j k
  used : ∀ i k, ChainOf v s i k → ¬ FreeIn v s.cache.disk k
  fresh : ∀ i, s.fresh ≤ i → s.node i = none

/-- No cluster belongs to two files, and none of a file is marked free or on the free list. -/
structure NoCrossLinks (v : Volume) (s : Fs) : Prop where
  apart : ∀ i j k, i ≠ j → ChainOf v s i k → ¬ ChainOf v s j k
  marked : ∀ i k, ChainOf v s i k → ¬ FreeIn v s.cache.disk k
  listed : ∃ xs S, s.cache.Holds xs S ∧ ∀ i k, ChainOf v s i k → ∀ x ∈ xs, ¬ (s.cache.span x).Has k

section consistent

variable {v : Volume} {s s' : Fs} {i : ℕ}

theorem Consistent.noCrossLinks (h : Consistent v s) : NoCrossLinks v s := by
  obtain ⟨xs, hinv⟩ := h.free
  refine ⟨h.apart, h.used, xs, _, hinv.toHolds, fun i k hk x hx hin => ?_⟩
  exact h.used i k hk ((hinv.cover k).mp ⟨x, hx, hin⟩)

/-- An operation on file `i`.  Every other record has the first cluster it had, or none, and
the entries of its chain are not changed; the chain of `i` is in use, and none of its
clusters was in the chain of another file. -/
theorem Consistent.of_change (h : Consistent v s) (i : ℕ)
    (hfree : ∃ xs, s'.cache.Inv xs (FreeIn v s'.cache.disk))
    (hfresh : ∀ i, s'.fresh ≤ i → s'.node i = none)
    (hnode : ∀ j n', j ≠ i → s'.node j = some n' → n'.entry.firstCluster v = 0 ∨
      ∃ n, s.node j = some n ∧ n'.entry.firstCluster v = n.entry.firstCluster v)
    (hothers : ∀ j k, j ≠ i → ChainOf v s j k → DataCluster v k →
      s'.cache.disk.entry v k = s.cache.disk.entry v k)
    (hself : ∀ k, ChainOf v s' i k → ¬ FreeIn v s'.cache.disk k ∧
      ∀ j, j ≠ i → ¬ ChainOf v s j k) : Consistent v s' := by
  -- the chains of the other files are not longer than before
  have hchain : ∀ j k, j ≠ i → ChainOf v s' j k → ChainOf v s j k := by
    rintro j k hj ⟨n', hn', hk⟩
    rcases hnode j n' hj hn' with h0 | ⟨n, hn, hfirst⟩
    · exact absurd h0 hk.1
    · rw [hfirst] at hk
      exact ⟨n, hn, hk.of_same fun a ha hdata => hothers j a hj ⟨n, hn, ha⟩ hdata⟩
  refine ⟨hfree, fun a b k hab ha hb => ?_, fun j k hk hk0 => ?_, hfresh⟩
  · by_cases hai : a = i
    · subst hai
      exact (hself k ha).2 b hab.symm (hchain b k hab.symm hb)
    · by_cases hbi : b = i
      · subst hbi
        exact (hself k hb).2 a hai (hchain a k hai ha)
      · exact h.apart a b k hab (hchain a k hai ha) (hchain b k hbi hb)
  · by_cases hj : j = i
    · subst hj
      exact (hself k hk).1 hk0
    · have hk' := hchain j k hj hk
      exact h.used j k hk' ⟨hk0.1, (hothers j k hj hk' hk0.1).symm.trans hk0.2⟩

/-- A change that keeps the table, the free list and the first clusters. -/
theorem Consistent.of_tables (hv : Layout v) (h : Consistent v s)
    (hcache : s'.cache = { s.cache with disk := s'.cache.disk })
    (hbytes : SameTables v s.cache.disk s'.cache.disk)
    (hfresh : ∀ i, s'.fresh ≤ i → s'.node i = none)
    (hnode : ∀ j n', s'.node j = some n' → n'.entry.firstCluster v = 0 ∨
      ∃ n, s.node j = some n ∧ n'.entry.firstCluster v = n.entry.firstCluster v) :
    Consistent v s' := by
  obtain ⟨xs, hinv⟩ := h.free
  have hentry : ∀ k, DataCluster v k → s'.cache.disk.entry v k = s.cache.disk.entry v k :=
    fun k hk => hv.entry_congr hk.2 hbytes
  have hfree : s'.cache.Inv xs (FreeIn v s'.cache.disk) := by
    rw [hcache]
    exact (hinv.withDisk _).congr (hv.freeIn_congr hbytes)
  refine h.of_change s'.fresh ⟨xs, hfree⟩ hfresh (fun j n' _ => hnode j n')
    (fun j k _ _ hk => hentry k hk) ?_
  rintro k ⟨n', hn', -⟩
  rw [hfresh _ le_rfl] at hn'
  exact absurd hn' nofun

end consistent

/-! ### Files -/

/-- The record of a file can be written, and is not in the table. -/
structure RecordOk (v : Volume) (e : Entry) : Prop where
  room : e.direntOffset + 32 ≤ v.bytesPerCluster
  apart : (tables v).Apart e.recordSpan

/-- A write that stays in its buffer and in clusters of the volume.  If the file grows, its
clusters are contiguous and those of the write are in the longer chain. -/
def WriteFits (v : Volume) (c : Cache) (e : Entry) (count off : ℕ) : Prop :=
  off + count < 2 ^ 64 ∧ (count ≤ v.bytesPerCluster →
    off % v.bytesPerCluster + count ≤ v.bytesPerCluster) ∧
  if v.clustersFor e.filesize * v.bytesPerCluster ≤ off + count then
    e.filesize + count < 2 ^ 32 ∧ AllocOk c (v.clustersFor (e.filesize + count)) ∧
      (e.firstCluster v = 0 ∨
        Contiguous v c.disk (e.firstCluster v) (v.clustersFor e.filesize)) ∧
      off / v.bytesPerCluster + v.clustersFor count ≤ v.clustersFor (e.filesize + count) ∧
      RecordOk v e
  else
    (∀ i < v.clustersFor count, DataCluster v (e.firstCluster v + off / v.bytesPerCluster + i)) ∧
      (e.filesize < off + count → RecordOk v e)

section files

variable {v : Volume} {s s' : Fs} {i : ℕ} {n : Node} {e : Entry} {d : Disk}

theorem SameTables.trans {d' d'' : Disk} (h : SameTables v d d') (h' : SameTables v d' d'') :
    SameTables v d d'' := fun x hx => (h' x hx).trans (h x hx)

theorem Fs.eq_of_setNode {n' : Node} (h : (s.setNode i n).node i = some n') : n' = n :=
  Option.some.inj (h.symm.trans (Fs.setNode_self ..))

theorem RecordOk.writeFatDirent (h : RecordOk v e) (d : Disk) :
    ∃ d', writeFatDirent v d e = some d' ∧ SameTables v d d' := by
  obtain ⟨d', hd', hkept⟩ := writeFatDirent_spec h.room d
  exact ⟨d', hd', fun x hx => hkept x (h.apart.not_has hx)⟩

/-- The rounds of a write do not reach the table. -/
theorem writeRounds_tables (hv : Layout v) (buf : ByteMem) {k m : ℕ} {w : WriteData}
    (hk : ∀ i < m, DataCluster v (k + i)) (hoff : w.clusterOffset ≤ v.bytesPerCluster)
    (hroom : w.bytesLeft ≤ v.bytesPerCluster → w.clusterOffset + w.bytesLeft ≤ v.bytesPerCluster) :
    ∃ w', (List.range m).foldlM (writeRound v buf k) w = some w' ∧
      w'.clusterOffset ≤ v.bytesPerCluster ∧
      (w'.bytesLeft ≤ v.bytesPerCluster → w'.clusterOffset + w'.bytesLeft ≤ v.bytesPerCluster) ∧
      SameTables v w.disk w'.disk := by
  induction m with
  | zero => exact ⟨w, rfl, hoff, hroom, fun x _ => rfl⟩
  | succ m ih =>
    obtain ⟨w₁, hw₁, hoff₁, hroom₁, hkept₁⟩ := ih fun i hi => hk i (Nat.lt_succ_of_lt hi)
    have hcall : (List.range (m + 1)).foldlM (writeRound v buf k) w = writeRound v buf k w₁ m := by
      rw [List.range_succ, List.foldlM_append, hw₁]
      simp
    rw [hcall]
    by_cases hleft : 0 < w₁.bytesLeft
    · obtain ⟨w₂, hw₂, hoff₂, hleft₂, hkept₂⟩ :=
        writeRound_spec hv buf (hk m (Nat.lt_succ_self m)) hleft rfl (by
          split
          · exact hroom₁ ‹_›
          · omega)
      exact ⟨w₂, hw₂, by omega, by omega,
        hkept₁.trans fun x hx => hkept₂ x ((hv.tables_apart _).not_has hx)⟩
    · exact ⟨w₁, if_neg hleft, hoff₁, hroom₁, hkept₁⟩

/-- A write into clusters of the volume does not reach the table. -/
theorem writeClusters_tables (hv : Layout v) (d : Disk) (buf : ByteMem) {cluster count off : ℕ}
    (hk : ∀ i < v.clustersFor count, DataCluster v (cluster + off / v.bytesPerCluster + i))
    (hcount : 0 < count) (hroom : count ≤ v.bytesPerCluster →
      off % v.bytesPerCluster + count ≤ v.bytesPerCluster) :
    ∃ d', writeClusters v d cluster buf count off = some d' ∧
      SameTables v d d' := by
  have hfirst : DataCluster v (cluster + off / v.bytesPerCluster) := hk 0 (hv.clustersFor_pos hcount)
  rw [writeClusters, hv.u32_eq hfirst.2]
  set r := (d.seekCluster 32 v (cluster + off / v.bytesPerCluster)).fdRead v.bytesPerCluster
  obtain ⟨w', hw', -, -, hkept⟩ := writeRounds_tables hv buf hk (w := ⟨r.1, r.2, 0, _, count⟩)
    (Nat.mod_lt off hv.bytesPerCluster_pos).le hroom
  exact ⟨w'.disk, congrArg (Option.map WriteData.disk) hw', hkept⟩

theorem Consistent.ne_of_fresh (h : Consistent v s) (hn : s.node i = some n) {j : ℕ}
    (hj : s.fresh ≤ j) : j ≠ i := by
  rintro rfl
  rw [h.fresh j hj] at hn
  exact absurd hn nofun

/-- Contiguous clusters of a file can be freed. -/
theorem Consistent.freeable (h : Consistent v s) (hn : s.node i = some n) {m : ℕ}
    (hc : Contiguous v s.cache.disk (n.entry.firstCluster v) m) :
    Freeable v s.cache.disk (n.entry.firstCluster v) m := by
  refine ⟨fun k hk => ?_, hc.low⟩
  obtain ⟨hdata, hin⟩ := hc.inChain_of_has hk
  exact ⟨hdata, fun h0 => h.used i k ⟨n, hn, hin⟩ ⟨hdata, h0⟩⟩

theorem Moved.of_tables {d d' d'' : Disk} {cluster m r N : ℕ} (hv : Layout v)
    (h : Moved v d d' cluster m r N) (hbytes : SameTables v d' d'') :
    Moved v d d'' cluster m r N := by
  refine ⟨h.free, fun k hk => ?_, fun k hk hout hout' => ?_⟩
  · rw [hv.entry_congr (h.free k hk).1.2 hbytes, h.chain k hk]
  · rw [hv.entry_congr hk hbytes, h.others k hk hout hout']

/-- The chain of file `i` was moved, and then its record and data were written. -/
theorem Consistent.of_moved (hv : Layout v) (h : Consistent v s) (hn : s.node i = some n)
    {c : Cache} {m r N : ℕ}
    (hold : n.entry.firstCluster v = 0 ∨ Contiguous v s.cache.disk (n.entry.firstCluster v) m)
    (hN : 1 ≤ N) (hmoved : Moved v s.cache.disk c.disk (n.entry.firstCluster v) m r N)
    (hinv : ∃ xs, c.Inv xs (FreeIn v c.disk)) (hkept : SameTables v c.disk d)
    (he : e.firstCluster v = r) :
    Consistent v ({ s with cache := { c with disk := d } }.setEntry i n e) := by
  obtain ⟨xs, hinv⟩ := hinv
  have hmoved := hmoved.of_tables hv hkept
  refine h.of_change i ⟨xs, (hinv.withDisk d).congr (hv.freeIn_congr hkept)⟩ (fun j hj => ?_)
    (fun j n' hj hn' => .inr ⟨n', (Fs.setNode_of_ne _ hj _).symm.trans hn', rfl⟩) ?_ ?_
  · exact (Fs.setNode_of_ne _ (h.ne_of_fresh hn hj) _).trans (h.fresh j hj)
  · intro j k hj hk hdata
    refine hmoved.others k hdata.2 (fun hin => h.used j k hk (hmoved.free k hin)) ?_
    rintro ⟨h0, hin⟩
    -- a cluster of the old chain belongs to no other file
    have hchain := ((hold.resolve_left h0).inChain_of_has hin).2
    exact h.apart i j k (Ne.symm hj) ⟨n, hn, hchain⟩ hk
  · rintro k ⟨n', hn', hk⟩
    obtain rfl := Fs.eq_of_setNode hn'
    have hin := InChain.span (he ▸ hk) hN hmoved.chain
    refine ⟨fun hk0 => chainEntry_ne_zero v r N k ?_, fun j _ hj => h.used j k hj (hmoved.free k hin)⟩
    rw [← hmoved.chain k hin]
    exact hk0.2

/-- A new record for a file that has its first cluster still. -/
theorem Consistent.setEntry (hv : Layout v) (h : Consistent v s) (hn : s.node i = some n)
    (he : e.firstCluster v = n.entry.firstCluster v)
    (hbytes : SameTables v s.cache.disk d) :
    Consistent v ({ s with cache := { s.cache with disk := d } }.setEntry i n e) := by
  refine h.of_tables hv rfl hbytes (fun j hj => ?_) fun j n' hn' => .inr ?_
  · exact (Fs.setNode_of_ne _ (h.ne_of_fresh hn hj) _).trans (h.fresh j hj)
  · by_cases hj : j = i
    · subst hj
      obtain rfl := Fs.eq_of_setNode hn'
      exact ⟨n, hn, he⟩
    · exact ⟨n', (Fs.setNode_of_ne _ hj _).symm.trans hn', rfl⟩

theorem Consistent.writeSync (hv : Layout v) (h : Consistent v s) (hn : s.node i = some n)
    (buf : ByteMem) {count off : ℕ} (hok : count = 0 ∨ n.entry.isDirectory = true ∨
      WriteFits v s.cache n.entry count off) :
    ∃ c e a, Fat.writeSync v s.cache n.entry buf count off = some (c, e, a) ∧
      Consistent v ({ s with cache := c }.setEntry i n e) := by
  have hrefl : Consistent v (s.setEntry i n n.entry) := h.setEntry hv hn rfl fun x _ => rfl
  unfold Fat.writeSync
  by_cases h0 : count = 0
  · exact ⟨_, _, _, if_pos h0, hrefl⟩
  rw [if_neg h0]
  by_cases hdir : n.entry.isDirectory = true
  · exact ⟨_, _, _, if_pos hdir, hrefl⟩
  rw [if_neg hdir]
  obtain ⟨hsmall, hroom, hfits⟩ := (hok.resolve_left h0).resolve_left hdir
  set e := n.entry with he
  simp only [u64_of_lt hsmall]
  by_cases hexp : v.clustersFor e.filesize * v.bytesPerCluster ≤ off + count
  · rw [if_pos hexp] at hfits
    obtain ⟨hsize, halloc, hold, hin, hrec⟩ := hfits
    rw [if_pos (by simp [hexp])]
    simp only [decide_eq_true hexp, if_true, Entry.filesize_setFilesize hsize,
      Entry.firstCluster_setFilesize]
    obtain ⟨xs, hinv⟩ := h.free
    have hfree : e.firstCluster v = 0 ∨
        Freeable v s.cache.disk (e.firstCluster v) (v.clustersFor e.filesize) :=
      hold.imp_right fun hc => h.freeable hn hc
    rcases moveClusters_spec hv hinv halloc hfree (hv.clustersFor_mono (by omega)) with
      ⟨-, hfull⟩ | ⟨c', r, hmove, hr, hlast, hmoved, hinv'⟩
    · -- no room: only the recorded size has changed
      rw [hfull]
      exact ⟨_, _, _, rfl, h.setEntry hv hn Entry.firstCluster_setFilesize fun x _ => rfl⟩
    · rw [hmove]
      have htouched : ∀ i < v.clustersFor count, DataCluster v (r + off / v.bytesPerCluster + i) := by
        intro i hi
        refine ⟨hr.1.trans ((Nat.le_add_right r _).trans (Nat.le_add_right _ i)), ?_⟩
        omega
      set e₁ := (e.setFilesize (e.filesize + count)).setFirstCluster r with he₁
      have hrec₁ : RecordOk v e₁ := ⟨hrec.room, hrec.apart⟩
      obtain ⟨d₁, hd₁, hkept₁⟩ := hrec₁.writeFatDirent c'.disk
      obtain ⟨d₂, hd₂, hkept₂⟩ := writeClusters_tables hv d₁ buf htouched
        (Nat.pos_of_ne_zero h0) hroom
      refine ⟨{ c' with disk := d₂ }, e₁, ⟨.success, buf, some count⟩, ?_,
        h.of_moved hv hn hold halloc.1 hmoved hinv' (hkept₁.trans hkept₂)
          (Entry.firstCluster_setFirstCluster hv.toWide hr.2)⟩
      simp [map_some, ← he₁, hd₁, hd₂]
  · rw [if_neg hexp] at hfits
    obtain ⟨hdata, hrec⟩ := hfits
    by_cases hgrow : e.filesize < off + count
    · obtain ⟨d₁, hd₁, hkept₁⟩ := RecordOk.writeFatDirent
        (e := e.setFilesize (e.filesize + count)) ⟨(hrec hgrow).room, (hrec hgrow).apart⟩ s.cache.disk
      obtain ⟨d₂, hd₂, hkept₂⟩ := writeClusters_tables hv d₁ buf hdata (Nat.pos_of_ne_zero h0) hroom
      refine ⟨{ s.cache with disk := d₂ }, e.setFilesize (e.filesize + count),
        ⟨.success, buf, some count⟩, ?_,
        h.setEntry hv hn Entry.firstCluster_setFilesize (hkept₁.trans hkept₂)⟩
      rw [if_pos (by simp [hgrow])]
      simp [decide_eq_false hexp, hd₁, Entry.firstCluster_setFilesize, hd₂]
    · obtain ⟨d₁, hd₁, hkept₁⟩ := writeClusters_tables hv s.cache.disk buf hdata
        (Nat.pos_of_ne_zero h0) hroom
      refine ⟨{ s.cache with disk := d₁ }, e, ⟨.success, buf, some count⟩, ?_,
        h.setEntry hv hn rfl hkept₁⟩
      rw [if_neg (by simp [hgrow, hexp])]
      simp [hd₁]

/-- A truncation that is refused, or keeps the number of clusters. -/
theorem Consistent.truncFile (hv : Layout v) (h : Consistent v s) (hn : s.node i = some n)
    {size : ℕ} (hok : n.entry.filesize ≤ size ∨
      v.clustersFor size = v.clustersFor n.entry.filesize ∧ RecordOk v n.entry) :
    ∃ c e a, Fat.truncFile v s.cache n.entry size = some (c, e, a) ∧
      Consistent v ({ s with cache := c }.setEntry i n e) := by
  have hrefl : Consistent v (s.setEntry i n n.entry) := h.setEntry hv hn rfl fun x _ => rfl
  set e := n.entry with he
  have hlt := e.filesize_lt
  unfold Fat.truncFile
  by_cases heq : e.filesize = size
  · exact ⟨_, _, _, if_pos heq, hrefl⟩
  rw [if_neg heq]
  by_cases hlarge : e.filesize < size
  · exact ⟨_, _, _, if_pos hlarge, hrefl⟩
  rw [if_neg hlarge]
  obtain ⟨hsame, hrec⟩ := hok.resolve_left (by omega)
  have hne : v.clustersFor e.filesize ≠ 0 := by
    intro h0
    have hlow := (hv.le_clustersFor e.filesize).1
    rw [h0, Nat.zero_mul] at hlow
    omega
  obtain ⟨d, hd, hkept⟩ := RecordOk.writeFatDirent (e := e.setFilesize size)
    ⟨hrec.room, hrec.apart⟩ s.cache.disk
  refine ⟨{ s.cache with disk := d }, e.setFilesize size, .success, ?_,
    h.setEntry hv hn Entry.firstCluster_setFilesize hkept⟩
  simp only [Entry.filesize_setFilesize (show size < 2 ^ 32 by omega), truncateClusters, hsame,
    le_refl, if_true, bind_eq_bind, bind_some, if_neg hne, hd]

end files

/-! ### Removing and creating -/

/-- A file that can be removed: it is refused, or its record and those in front of it in the
buffer are not in the table, and its clusters are contiguous. -/
def RemoveOk (v : Volume) (s : Fs) (i : ℕ) (front : Bool) : Prop :=
  ∃ n ∈ s.node i, n.children ≠ [] ∨ n.entry.direntOffset + 32 ≤ v.bytesPerCluster ∧
    (front = false ∨ n.entry.direntOffset % 32 = 0 ∧ 0 < n.entry.direntOffset) ∧
    (tables v).Apart ⟨n.entry.direntFileoff, n.entry.direntOffset + 32⟩ ∧
    n.entry.rawCluster = n.entry.firstCluster v ∧
    Contiguous v s.cache.disk (n.entry.firstCluster v) (v.clustersFor n.entry.filesize) ∧
    (s.node n.parent).isSome = true

/-- The records of a node can be put into its directory.  In the root of a FAT16 volume they
fit into a sector if there is room; another directory has clusters of one sector, and if it
grows, they are contiguous. -/
def RefOk (v : Volume) (s : Fs) (i : ℕ) : Prop :=
  ∃ n ∈ s.node i, ∃ p ∈ s.node n.parent,
    if s.root = n.parent ∧ v.fatType ≠ .fat32 then
      v.firstDataSector * v.blkSize ≤ 2 ^ 32 ∧
        ((searchRoot v s.cache.disk n.records.length).2.nFree < n.records.length ∨
          (searchRoot v s.cache.disk n.records.length).2.fileoff % v.blkSize +
            32 * n.records.length ≤ v.blkSize)
    else
      DataCluster v p.entry.rawCluster ∧ p.entry.rawCluster = p.entry.firstCluster v ∧
      v.sectorsPerCluster = 1 ∧
      (v.firstDataSector + v.countofClusters) * v.blkSize ≤ 2 ^ 32 ∧
      ∃ w ∈ searchChain v s.cache.disk p.entry.rawCluster n.records.length,
        (w.2.nFree < n.records.length →
          AllocOk s.cache (w.2.szClusters + v.clustersFor (n.records.length * 32)) ∧
            Contiguous v s.cache.disk p.entry.rawCluster w.2.szClusters ∧
            RecordOk v p.entry ∧ 32 * n.records.length < v.bytesPerCluster) ∧
        (¬ w.2.nFree < n.records.length →
          w.2.fileoff % v.bytesPerCluster + 32 * n.records.length ≤ v.bytesPerCluster ∧
            (w.2.fileoff % v.bytesPerCluster + 32 * n.records.length = v.bytesPerCluster →
              GoesOn v s.cache.disk p.entry.rawCluster))

section create

variable {v : Volume} {s s' : Fs} {i : ℕ} {n p : Node} {d : Disk}

/-- Another device with the same table. -/
theorem Consistent.withDisk (hv : Layout v) (h : Consistent v s)
    (hbytes : SameTables v s.cache.disk d) :
    Consistent v (s.withDisk d) :=
  h.of_tables hv rfl hbytes h.fresh fun _ n' hn' => .inr ⟨n', hn', rfl⟩

theorem Fs.removeChild_eq_none {parent j : ℕ} (hp : s.node parent = some p) (hj : s.node j = none) :
    (s.removeChild i parent p).node j = none := by
  rw [Fs.removeChild_node]
  split
  · rfl
  · refine (Fs.setNode_of_ne _ ?_ _).trans hj
    rintro rfl
    rw [hj] at hp
    exact absurd hp nofun

/-- The records that are left are those that were there. -/
theorem Fs.removeChild_entry (v : Volume) {parent j : ℕ} {n' : Node} (hp : s.node parent = some p)
    (hn' : (s.removeChild i parent p).node j = some n') :
    ∃ n, s.node j = some n ∧ n'.entry.firstCluster v = n.entry.firstCluster v := by
  rw [Fs.removeChild_node] at hn'
  split at hn'
  · exact absurd hn' nofun
  · by_cases hj : j = parent
    · subst hj
      obtain rfl := Fs.eq_of_setNode hn'
      exact ⟨p, hp, rfl⟩
    · exact ⟨n', (Fs.setNode_of_ne _ hj _).symm.trans hn', rfl⟩

theorem Consistent.removeFile (hv : Layout v) (h : Consistent v s) {front : Bool}
    (hok : RemoveOk v s i front) :
    ∃ s' a, Fat.removeFile v s i front = some (s', a) ∧ Consistent v s' := by
  obtain ⟨n, hn, hok⟩ := hok
  have hn : s.node i = some n := hn
  unfold Fat.removeFile
  rw [hn]
  by_cases hchildren : n.children = []
  · obtain ⟨hroom, hfront, hapart, hraw, hcont, hparent⟩ := hok.resolve_left (not_not.mpr hchildren)
    obtain ⟨p, hp⟩ := Option.isSome_iff_exists.mp hparent
    obtain ⟨d, hd, hkept⟩ := derefDirent_spec hroom hfront s.cache.disk
    have hbytes : SameTables v s.cache.disk d := fun x hx =>
      hkept x (hapart.not_has hx)
    -- only the first byte of the record has changed
    set e : Entry := { n.entry with data := Function.update n.entry.data 0 direntFree } with he
    have hload : ∀ a w, 0 < a → e.data.load a w = n.entry.data.load a w := fun a w ha =>
      ByteMem.load_congr fun x hx => Function.update_of_ne (by have := hx.1; simp only at this; omega) ..
    have hsize : e.filesize = n.entry.filesize := hload 28 4 (by decide)
    have hcluster : e.rawCluster = n.entry.rawCluster := by
      rw [Entry.rawCluster, hload 26 2 (by decide), hload 20 2 (by decide), Entry.rawCluster]
    have hcount : u32 (v.clustersFor n.entry.filesize) = v.clustersFor n.entry.filesize := by
      refine u32_of_lt ?_
      have hlt := n.entry.filesize_lt
      refine lt_of_le_of_lt (hv.clustersFor_le ?_) hlt
      exact Nat.le_mul_of_pos_right _ hv.bytesPerCluster_pos
    obtain ⟨xs, hinv⟩ := h.free
    have hfree : Freeable v d (n.entry.firstCluster v) (v.clustersFor n.entry.filesize) := by
      obtain ⟨hall, hlow⟩ := h.freeable hn hcont
      refine ⟨fun k hk => ?_, hlow⟩
      obtain ⟨hdata, hne⟩ := hall k hk
      rw [hv.entry_congr hdata.2 hbytes]
      exact ⟨hdata, hne⟩
    obtain ⟨c, hc, hfreed, hinv'⟩ := freeClusters_spec (c := { s.cache with disk := d }) hv.toWide
      ((hinv.withDisk d).congr (hv.freeIn_congr hbytes)) hfree
    have hcall : freeClusters v { s.cache with disk := d } e.rawCluster
        (u32 (v.clustersFor e.filesize)) = some c := by
      rw [hsize, hcluster, hraw, hcount, hc]
    refine ⟨{ s with cache := c }.removeChild i n.parent p, .success, ?_, ?_⟩
    · simp [hchildren, hd, hcall, hp]
    · refine h.of_change i hinv' (fun j hj => ?_) (fun j n' hj hn' => .inr ?_)
        (fun j k hj hk hdata => ?_) ?_
      · exact Fs.removeChild_eq_none hp (h.fresh j hj)
      · exact Fs.removeChild_entry v hp hn'
      · refine (hfreed.others k hdata.2 fun hin => ?_).trans (hv.entry_congr hdata.2 hbytes)
        exact h.apart i j k (Ne.symm hj) ⟨n, hn, (hcont.inChain_of_has hin).2⟩ hk
      · rintro k ⟨n', hn', -⟩
        exact absurd ((Function.update_self ..).symm.trans hn') nofun
  · exact ⟨s, .inUse, by simp [hchildren], h⟩

theorem Consistent.appendChild (hv : Layout v) (h : Consistent v s) {parent : ℕ}
    (hp : s.node parent = some p) (hn : n.entry.firstCluster v = 0) :
    Consistent v (s.appendChild parent p n) := by
  have hne : s.fresh ≠ parent := h.ne_of_fresh hp le_rfl
  have hnode : ∀ j, (s.appendChild parent p n).node j =
      ((s.setNode s.fresh n).setNode parent { p with children := p.children ++ [s.fresh] }).node j :=
    fun j => rfl
  refine h.of_tables hv rfl (fun x _ => rfl) (fun j hj => ?_) fun j n' hn' => ?_
  · have hj' : s.fresh < j := hj
    rw [hnode, Fs.setNode_of_ne _ (h.ne_of_fresh hp hj'.le), Fs.setNode_of_ne _ hj'.ne']
    exact h.fresh j hj'.le
  · rw [hnode] at hn'
    by_cases hjp : j = parent
    · subst hjp
      obtain rfl := Fs.eq_of_setNode hn'
      exact .inr ⟨p, hp, rfl⟩
    · rw [Fs.setNode_of_ne _ hjp] at hn'
      by_cases hj : j = s.fresh
      · subst hj
        obtain rfl := Fs.eq_of_setNode hn'
        exact .inl hn
      · exact .inr ⟨n', (Fs.setNode_of_ne _ hj _).symm.trans hn', rfl⟩

/-- Records in a block behind the table. -/
theorem place_tables (fixedRoot : Bool) (records : List ByteMem) (fileoff entryCluster : ℕ)
    {blkSize start : ℕ} (hblk : (if fixedRoot then v.blkSize else
      v.bytesPerCluster) = blkSize) (hle : blkSize ≤ v.bytesPerCluster)
    (hstart : fileoff / v.blkSize * v.blkSize = start) (hsmall : start < 2 ^ 32)
    (hfit : fileoff % blkSize + 32 * records.length ≤ blkSize)
    (hnext : fileoff % blkSize + 32 * records.length = blkSize → fixedRoot = true ∨
      ∀ d', SameTables v d d' → WalksOn v d' entryCluster)
    (hbehind : (tables v).stop ≤ start) :
    ∃ d', place v d fixedRoot records fileoff entryCluster = some d' ∧
      SameTables v d d' := by
  have hsame : ∀ buf x, (tables v).Has x → d.bytes.transfer start buf 0 blkSize x = d.bytes x := by
    intro buf x hx
    refine ByteMem.transfer_of_not_has fun hin => ?_
    have hlow : start ≤ x := hin.1
    have hhigh := hx.2
    omega
  obtain ⟨d', hd', hbytes⟩ : ∃ d', place v d fixedRoot records fileoff entryCluster = some d' ∧
      d'.bytes = d.bytes.transfer start
        (layRecords (fun j => d.bytes (start + j)) (fileoff % blkSize) records) 0 blkSize :=
    place_spec hblk hle hstart hsmall hfit rfl fun heq => (hnext heq).imp_right fun hw d' hd' =>
      hw d' fun x hx => by rw [hd', hsame _ x hx]
  exact ⟨d', hd', fun x hx => by rw [hbytes, hsame _ x hx]⟩

theorem GoesOn.walksOn (hv : Layout v) {k : ℕ} (hk : k ≤ v.countofClusters + 1)
    (h : GoesOn v d k) : WalksOn v d k := by
  refine ⟨_, _, hv.nextCluster_eq hk d, ?_⟩
  by_cases hend : v.fatType.endMark ≤ d.entry v k
  · exact .inl (if_pos hend)
  · exact .inr (h.resolve_left hend)

/-- The block of a record. -/
theorem slot_block {b i j : ℕ} (hj : j < b / 32) :
    (i * b + j * 32) / b * b = i * b ∧ j * 32 < b := by
  have hlt : j * 32 < b := by
    have := Nat.div_mul_le_self b 32
    omega
  have hpos : 0 < b := by omega
  rw [Nat.mul_comm i b, Nat.mul_add_div hpos, Nat.div_eq_of_lt hlt, Nat.add_zero]
  exact ⟨Nat.mul_comm i b, hlt⟩

theorem Node.records_length_pos (n : Node) : 0 < n.records.length := by
  simp [Node.records]

variable (hv : Layout v)
include hv

/-- Room in the root directory is behind the tables. -/
theorem RootSlot.block {off : ℕ} (hne : v.fatType ≠ .fat32)
    (hsmall : v.firstDataSector * v.blkSize ≤ 2 ^ 32) (h : RootSlot v off) :
    (tables v).stop ≤ off / v.blkSize * v.blkSize ∧
      off / v.blkSize * v.blkSize < 2 ^ 32 := by
  obtain ⟨i, hi, j, hj, rfl⟩ := h
  rw [List.mem_range'_1] at hi
  rw [List.mem_range] at hj
  have hbehind := hv.behind
  have hsum : v.rootDirSectors = v.firstDataSector - (v.reservedSectorCount + v.nFATs * v.fatSz) :=
    rfl
  rw [Nat.mul_comm v.nFATs] at hsum
  have hsector : v.rootSector = v.reservedSectorCount + v.fatSz * v.nFATs := by
    have hroot : v.rootSector = v.firstDataSector - v.rootDirSectors := by
      unfold Volume.rootSector
      cases ht : v.fatType with
      | fat32 => exact absurd ht hne
      | fat16 => rfl
      | fat12 => rfl
    omega
  have hlt : (i + 1) * v.blkSize ≤ v.firstDataSector * v.blkSize :=
    Nat.mul_le_mul_right _ (by omega)
  rw [Nat.add_one_mul] at hlt
  obtain ⟨hblock, hj'⟩ := slot_block (i := i) hj
  rw [u32_of_lt (by omega), hblock]
  rw [tables_stop, ← hv.blocks]
  exact ⟨Nat.mul_le_mul_right _ (by omega), by omega⟩

/-- The block of a record in a cluster of one sector. -/
theorem ClusterSlot.block {cluster off : ℕ} (hone : v.sectorsPerCluster = 1)
    (hsmall : (v.firstDataSector + v.countofClusters) * v.blkSize ≤ 2 ^ 32)
    (hk : DataCluster v cluster) (h : ClusterSlot v cluster off) :
    off / v.blkSize * v.blkSize = dataPos v cluster ∧ dataPos v cluster < 2 ^ 32 := by
  obtain ⟨j, hj, rfl⟩ := h
  have hbpc : v.bytesPerCluster = v.blkSize := by
    rw [Volume.bytesPerCluster, hone, Nat.one_mul]
  rw [List.mem_range, hbpc] at hj
  have hpos := hv.blkSize_pos
  have hdata : dataPos v cluster = (v.firstDataSector + (cluster - 2)) * v.blkSize := by
    rw [dataPos, hone, Nat.mul_one]
  have hk2 := hk.2
  have hk1 := hk.1
  have hle : (v.firstDataSector + (cluster - 2) + 1) * v.blkSize ≤
      (v.firstDataSector + v.countofClusters) * v.blkSize :=
    Nat.mul_le_mul_right _ (by omega)
  rw [Nat.add_mul _ 1, Nat.one_mul] at hle
  obtain ⟨hblock, hj'⟩ := slot_block (i := v.firstDataSector + (cluster - 2)) hj
  rw [hv.clusterToSector hk (le_refl 32), hdata, u32_of_lt (by omega), hblock]
  exact ⟨rfl, by omega⟩

variable (h : Consistent v s)
include h

/-- Records are put into the root directory of a FAT16 volume. -/
theorem Consistent.refDirent_root (hn : s.node i = some n)
    (hp : s.node n.parent = some p) (hroot : s.root = n.parent ∧ v.fatType ≠ .fat32)
    (hsmall : v.firstDataSector * v.blkSize ≤ 2 ^ 32)
    (hfit : (searchRoot v s.cache.disk n.records.length).2.nFree < n.records.length ∨
      (searchRoot v s.cache.disk n.records.length).2.fileoff % v.blkSize +
        32 * n.records.length ≤ v.blkSize) :
    ∃ s', Fat.refDirent v s i = some s' ∧ Consistent v s' := by
  obtain ⟨hbytes, hfound⟩ := searchRoot_spec v s.cache.disk n.records.length
  rcases hsearch : searchRoot v s.cache.disk n.records.length with ⟨d, slots⟩
  rw [hsearch] at hbytes hfound hfit
  rw [Fat.refDirent_root hn hp hroot hsearch]
  by_cases hfull : slots.nFree < n.records.length
  · exact ⟨_, if_pos hfull, h.withDisk hv fun x _ => congrFun hbytes x⟩
  rw [if_neg hfull]
  have hne : slots.nFree ≠ 0 := by
    have := n.records_length_pos
    omega
  have hslot := hfound.resolve_left hne
  obtain ⟨hbehind, hlt⟩ := hslot.block hv hroot.2 hsmall
  have hle : v.blkSize ≤ v.bytesPerCluster := Nat.le_mul_of_pos_left _ hv.sectors_pos
  obtain ⟨d', hd', hkept⟩ := place_tables true n.records slots.fileoff slots.entryCluster
    (d := d) (if_pos rfl) hle rfl hlt (hfit.resolve_left hfull) (fun _ => .inl rfl) hbehind
  exact ⟨s.withDisk d', by rw [hd']; rfl,
    h.withDisk hv (SameTables.trans (fun x _ => congrFun hbytes x) hkept)⟩

/-- A directory that grows. -/
theorem Consistent.growDirectory {parent N m : ℕ}
    (hp : s.node parent = some p) (hraw : p.entry.rawCluster = p.entry.firstCluster v)
    (halloc : AllocOk s.cache N) (hcont : Contiguous v s.cache.disk p.entry.rawCluster m)
    (hm : m ≤ N) (hrec : RecordOk v p.entry) :
    ∃ s' grown, Fat.growDirectory v s parent p N m = some (s', grown) ∧ Consistent v s' ∧
      ∀ r, grown = some r → DataCluster v r := by
  obtain ⟨xs, hinv⟩ := h.free
  rw [hraw] at hcont
  unfold Fat.growDirectory
  rw [hraw]
  rcases moveClusters_spec hv hinv halloc (.inr (h.freeable hp hcont)) hm with
    ⟨-, hfull⟩ | ⟨c', r, hmove, hr, -, hmoved, hinv'⟩
  · rw [hfull]
    exact ⟨s, none, rfl, h, nofun⟩
  · rw [hmove]
    obtain ⟨d, hd, hkept⟩ := RecordOk.writeFatDirent (e := p.entry.setFirstCluster r)
      ⟨hrec.room, hrec.apart⟩ c'.disk
    refine ⟨({ s with cache := c' }.setEntry parent p (p.entry.setFirstCluster r)).withDisk d,
      some r, ?_, h.of_moved hv hp (.inr hcont) halloc.1 hmoved hinv' hkept
        (Entry.firstCluster_setFirstCluster hv.toWide hr.2), ?_⟩
    · simp [hd]
    · rintro r' hr'
      exact Option.some.inj hr' ▸ hr

/-- Records are put into a directory with clusters. -/
theorem Consistent.refDirent_chain (hn : s.node i = some n)
    (hp : s.node n.parent = some p) (hroot : ¬ (s.root = n.parent ∧ v.fatType ≠ .fat32))
    (hk : DataCluster v p.entry.rawCluster) (hraw : p.entry.rawCluster = p.entry.firstCluster v)
    (hone : v.sectorsPerCluster = 1)
    (hsmall : (v.firstDataSector + v.countofClusters) * v.blkSize ≤ 2 ^ 32) {slots : Slots}
    (hsearch : searchChain v s.cache.disk p.entry.rawCluster n.records.length = some (d, slots))
    (hgrow : slots.nFree < n.records.length →
      AllocOk s.cache (slots.szClusters + v.clustersFor (n.records.length * 32)) ∧
        Contiguous v s.cache.disk p.entry.rawCluster slots.szClusters ∧
        RecordOk v p.entry ∧ 32 * n.records.length < v.bytesPerCluster)
    (hfit : ¬ slots.nFree < n.records.length →
      slots.fileoff % v.bytesPerCluster + 32 * n.records.length ≤ v.bytesPerCluster ∧
        (slots.fileoff % v.bytesPerCluster + 32 * n.records.length = v.bytesPerCluster →
          GoesOn v s.cache.disk p.entry.rawCluster)) :
    ∃ s', Fat.refDirent v s i = some s' ∧ Consistent v s' := by
  obtain ⟨hbytes, hfound, hcluster⟩ := searchChain_spec hsearch
  have hbpc : v.bytesPerCluster = v.blkSize := by
    rw [Volume.bytesPerCluster, hone, Nat.one_mul]
  have h₁ : Consistent v (s.withDisk d) := h.withDisk hv fun x _ => congrFun hbytes x
  rw [Fat.refDirent_chain hn hp hroot hsearch]
  by_cases hfull : slots.nFree < n.records.length
  · rw [if_pos hfull]
    obtain ⟨halloc, hcont, hrec, hroom⟩ := hgrow hfull
    have hcont₁ : Contiguous v d p.entry.rawCluster slots.szClusters := by
      refine ⟨hcont.data, fun i hi => ?_, hcont.low⟩
      rw [hv.entry_congr (hcont.data i (by omega)).2 fun x _ => congrFun hbytes x]
      exact hcont.next i hi
    obtain ⟨s₂, grown, hcall, h₂, hr⟩ :=
      h₁.growDirectory hv hp hraw halloc hcont₁ (Nat.le_add_right _ _) hrec
    rw [hcall, bind_some]
    cases grown with
    | none => exact ⟨s₂, rfl, h₂⟩
    | some r =>
      have hr := hr r rfl
      -- the records go to the start of the new chain
      have hslot : ClusterSlot v r (u32 (clusterToSector 32 v r * v.blkSize)) := by
        refine ⟨0, List.mem_range.mpr ?_, by rw [Nat.zero_mul, Nat.add_zero]⟩
        have := n.records_length_pos
        omega
      obtain ⟨hstart, hlt⟩ := hslot.block hv hone hsmall hr
      have hmod : u32 (clusterToSector 32 v r * v.blkSize) % v.bytesPerCluster = 0 := by
        rw [hv.clusterToSector hr (le_refl 32), u32_of_lt hlt, hbpc, dataPos]
        exact Nat.mul_mod_left _ _
      obtain ⟨d', hd', hkept⟩ := place_tables false n.records
        (u32 (clusterToSector 32 v r * v.blkSize)) r (d := s₂.cache.disk)
        (if_neg (by decide)) le_rfl hstart hlt (by omega) (by omega) (hv.tables_le r)
      exact ⟨s₂.withDisk d', by simp only [hd', map_some], h₂.withDisk hv hkept⟩
  · rw [if_neg hfull]
    obtain ⟨hroom, hgo⟩ := hfit hfull
    have hpos := n.records_length_pos
    have hslot := hfound.resolve_left (by omega)
    have hentry : slots.entryCluster = p.entry.rawCluster := hcluster.resolve_left (by omega)
    obtain ⟨hstart, hlt⟩ := hslot.block hv hone hsmall hk
    have hnext : slots.fileoff % v.bytesPerCluster + 32 * n.records.length = v.bytesPerCluster →
        false = true ∨ ∀ d', SameTables v d d' →
          WalksOn v d' slots.entryCluster := by
      refine fun heq => .inr fun d' hd' => ?_
      have hsame : d'.entry v p.entry.rawCluster = s.cache.disk.entry v p.entry.rawCluster :=
        hv.entry_congr hk.2 fun x hx => (hd' x hx).trans (congrFun hbytes x)
      have hgo' := hgo heq
      rw [GoesOn, ← hsame] at hgo'
      rw [hentry]
      exact GoesOn.walksOn hv hk.2 hgo'
    obtain ⟨d', hd', hkept⟩ := place_tables false n.records slots.fileoff slots.entryCluster (d := d)
      (if_neg (by decide)) le_rfl hstart hlt hroom hnext (hv.tables_le _)
    exact ⟨s.withDisk d', by rw [hd']; rfl,
      h.withDisk hv (SameTables.trans (fun x _ => congrFun hbytes x) hkept)⟩

theorem Consistent.refDirent (hok : RefOk v s i) :
    ∃ s', Fat.refDirent v s i = some s' ∧ Consistent v s' := by
  obtain ⟨n, hn, p, hp, hok⟩ := hok
  by_cases hroot : s.root = n.parent ∧ v.fatType ≠ .fat32
  · rw [if_pos hroot] at hok
    exact h.refDirent_root hv hn hp hroot hok.1 hok.2
  · rw [if_neg hroot] at hok
    obtain ⟨hk, hraw, hone, hsmall, ⟨d, slots⟩, hsearch, hgrow, hfit⟩ := hok
    exact h.refDirent_chain hv hn hp hroot hk hraw hone hsmall hsearch hgrow hfit

end create

/-! ### Runs -/

inductive FsOp where
  | create (parent : Option ℕ) (name : List UInt8) (type : FileType)
  | write (i : ℕ) (bytes : List UInt8) (blkOffset : ℕ)
  | trunc (i newSize : ℕ)
  | remove (i : ℕ) (front : Bool)

def fsStep (v : Volume) (s : Fs) : FsOp → Option Fs
  | .create parent name type => (mkFile v s parent name type).map Prod.fst
  | .write i bs off => do
    let n ← s.node i
    let (c, e, _) ← writeSync v s.cache n.entry (bufferOf bs) bs.length off
    some ({ s with cache := c }.setEntry i n e)
  | .trunc i size => do
    let n ← s.node i
    let (c, e, _) ← truncFile v s.cache n.entry size
    some ({ s with cache := c }.setEntry i n e)
  | .remove i front => (removeFile v s i front).map Prod.fst

/-- A call of `mk_file` that is refused, or whose records can be placed. -/
def CreateOk (v : Volume) (s : Fs) (parent : Option ℕ) (name : List UInt8) (type : FileType) : Prop :=
  type = .symbolicLink ∨ validFilename name false = false ∨
    ∃ p ∈ s.node (parent.getD s.root), p.entry.isDirectory = false ∨
      name ∈ s.siblings p ∨ ∃ shortName ∈ genShortName name (s.siblings p),
        RefOk v (s.appendChild (parent.getD s.root) p
          (newNode p (parent.getD s.root) shortName name type)) s.fresh

/-- The condition on a call. -/
def FsOpOk (v : Volume) (s : Fs) : FsOp → Prop
  | .create parent name type => CreateOk v s parent name type
  | .write i bs off => ∃ n ∈ s.node i, bs.length = 0 ∨ n.entry.isDirectory = true ∨
      WriteFits v s.cache n.entry bs.length off
  | .trunc i size => ∃ n ∈ s.node i, n.entry.filesize ≤ size ∨
      v.clustersFor size = v.clustersFor n.entry.filesize ∧ RecordOk v n.entry
  | .remove i front => RemoveOk v s i front

section runs

variable {v : Volume} {s : Fs}

theorem firstCluster_newNode (v : Volume) (p : Node) (parent : ℕ) (shortName name : List UInt8)
    (type : FileType) : (newNode p parent shortName name type).entry.firstCluster v = 0 := by
  have hload : ∀ a, 12 ≤ a → (newRecord shortName type).load a 2 = 0 := by
    intro a ha
    have hzero : ∀ x, 12 ≤ x → newRecord shortName type x = 0 := fun x hx => by
      rw [newRecord, if_neg (by omega), if_neg (by omega)]
    simp [ByteMem.load, hzero a ha, hzero (a + 1) (by omega)]
  show Entry.firstCluster v ⟨newRecord shortName type, 0, 0⟩ = 0
  unfold Entry.firstCluster
  rw [hload 26 (by decide), hload 20 (by decide)]
  cases v.fatType <;> rfl

theorem Consistent.mkFile (hv : Layout v) (h : Consistent v s) {parent : Option ℕ}
    {name : List UInt8} {type : FileType} (hok : CreateOk v s parent name type) :
    ∃ s' a, Fat.mkFile v s parent name type = some (s', a) ∧ Consistent v s' := by
  unfold CreateOk at hok
  unfold Fat.mkFile
  by_cases htype : type = .symbolicLink
  · exact ⟨s, .internalError, if_pos htype, h⟩
  rw [if_neg htype]
  by_cases hname : validFilename name false = false
  · exact ⟨s, .invalidArgument, by simp [hname], h⟩
  rw [if_neg (by simp [hname])]
  obtain ⟨p, hp, hok⟩ := (hok.resolve_left htype).resolve_left hname
  have hp : s.node (parent.getD s.root) = some p := hp
  simp only [hp, bind_eq_bind, bind_some]
  by_cases hdir : p.entry.isDirectory = false
  · exact ⟨s, .invalidArgument, by simp [hdir], h⟩
  rw [if_neg (by simp [hdir])]
  by_cases hmem : name ∈ s.siblings p
  · exact ⟨s, .alreadyInitialized, if_pos hmem, h⟩
  rw [if_neg hmem]
  obtain ⟨shortName, hshort, hok⟩ := (hok.resolve_left hdir).resolve_left hmem
  have hshort : genShortName name (s.siblings p) = some shortName := hshort
  obtain ⟨s', hs', h'⟩ := (h.appendChild hv hp (firstCluster_newNode v p _ shortName name
    type)).refDirent hv hok
  exact ⟨s', .success, by simp only [hshort, bind_some, hs'], h'⟩

theorem fsStep_spec (hv : Layout v) (s : Fs) (op : FsOp) (h : Consistent v s)
    (hok : FsOpOk v s op) : ∃ s', fsStep v s op = some s' ∧ Consistent v s' := by
  cases op with
  | create parent name type =>
    obtain ⟨s', a, hs', h'⟩ := h.mkFile hv hok
    exact ⟨s', by rw [fsStep, hs']; rfl, h'⟩
  | write i bs off =>
    obtain ⟨n, hn, hok⟩ := hok
    have hn : s.node i = some n := hn
    obtain ⟨c, e, a, hcall, h'⟩ := h.writeSync hv hn (bufferOf bs) hok
    exact ⟨_, by simp only [fsStep, hn, bind_eq_bind, bind_some, hcall], h'⟩
  | trunc i size =>
    obtain ⟨n, hn, hok⟩ := hok
    have hn : s.node i = some n := hn
    obtain ⟨c, e, a, hcall, h'⟩ := h.truncFile hv hn hok
    exact ⟨_, by simp only [fsStep, hn, bind_eq_bind, bind_some, hcall], h'⟩
  | remove i front =>
    obtain ⟨s', a, hs', h'⟩ := h.removeFile hv hok
    exact ⟨s', by rw [fsStep, hs']; rfl, h'⟩

/-- After every run of operations that meet their conditions, no cluster belongs to two files,
and none of a file is free. -/
theorem no_cross_links (hv : Layout v) (h : Consistent v s) {ops : List FsOp}
    (hok : Run.Meets (FsOpOk v) (fsStep v) s ops) :
    ∃ s', ops.foldlM (fsStep v) s = some s' ∧ NoCrossLinks v s' := by
  obtain ⟨s', hs', h'⟩ := Run.invariant (fsStep_spec hv) h hok
  exact ⟨s', hs', h'.noCrossLinks⟩

end runs

instance (v : Volume) (d : Disk) (first n : ℕ) : Decidable (Contiguous v d first n) :=
  decidable_of_iff ((∀ i < n, DataCluster v (first + i)) ∧ (∀ i < n - 1,
      d.entry v (first + i) = first + i + 1 ∧ first + i + 1 < v.fatType.endMark) ∧
      (n = 0 ∨ first < v.countofClusters))
    ⟨fun h => ⟨h.1, h.2.1, h.2.2⟩, fun h => ⟨h.data, h.next, h.low⟩⟩

instance (v : Volume) (e : Entry) : Decidable (RecordOk v e) :=
  decidable_of_iff (e.direntOffset + 32 ≤ v.bytesPerCluster ∧ (tables v).Apart e.recordSpan)
    ⟨fun h => ⟨h.1, h.2⟩, fun h => ⟨h.room, h.apart⟩⟩

instance (c : Cache) (n : ℕ) : Decidable (AllocOk c n) :=
  inferInstanceAs (Decidable (_ ∧ ∀ x ∈ c.lastFit n, _ → _ → _))

instance (v : Volume) (c : Cache) (e : Entry) (count off : ℕ) :
    Decidable (WriteFits v c e count off) :=
  inferInstanceAs (Decidable (_ ∧ _ ∧ ite _ _ _))

instance (v : Volume) (s : Fs) (i : ℕ) (front : Bool) : Decidable (RemoveOk v s i front) :=
  inferInstanceAs (Decidable (∃ n ∈ s.node i, _))

instance (v : Volume) (s : Fs) (i : ℕ) : Decidable (RefOk v s i) :=
  inferInstanceAs (Decidable (∃ n ∈ s.node i, ∃ p ∈ s.node n.parent, _))

instance (v : Volume) (s : Fs) : ∀ op, Decidable (FsOpOk v s op)
  | .create parent _ _ =>
    inferInstanceAs (Decidable (_ ∨ _ ∨ ∃ p ∈ s.node (parent.getD s.root), _))
  | .write i _ _ => inferInstanceAs (Decidable (∃ n ∈ s.node i, _))
  | .trunc i _ => inferInstanceAs (Decidable (∃ n ∈ s.node i, _))
  | .remove i front => inferInstanceAs (Decidable (RemoveOk v s i front))

/-- The root directory of a volume, and no other record. -/
def emptyFs : Fs where
  cache := eightClustersCache
  node := fun i => if i = 1 then
    some ⟨⟨newRecord [] .directory, 1536, 0⟩, [], [], 0, []⟩ else none
  root := 1
  fresh := 2

theorem emptyFs_consistent : Consistent eightClusters emptyFs := by
  obtain ⟨c, hc, -, hinv⟩ := initialize_spec eightClusters_wide eightClusters_scannable
  obtain rfl := Option.some.inj (eightClustersCache_eq.symm.trans hc)
  have hnone : ∀ i k, ¬ ChainOf eightClusters emptyFs i k := by
    rintro i k ⟨n, hn, hfirst, -⟩
    simp only [emptyFs] at hn
    split at hn
    · cases hn
      exact hfirst (by decide +kernel)
    · exact absurd hn nofun
  refine ⟨hinv, fun i j k _ hi => absurd hi (hnone i k), fun i k hi => absurd hi (hnone i k),
    fun i hi => if_neg ?_⟩
  have hi : 2 ≤ i := hi
  omega

/-- Two files `A` and `B` are created and written; `A` grows to two clusters, loses a byte
and is removed. -/
def twoFiles : List FsOp :=
  [.create none [0x41] .regularFile, .write 2 [1, 2, 3] 0, .create none [0x42] .regularFile,
    .write 3 [5] 0, .write 2 (List.replicate 512 4) 512, .trunc 2 514, .remove 2 false]

theorem no_cross_links_twoFiles :
    ∃ s', twoFiles.foldlM (fsStep eightClusters) emptyFs = some s' ∧
      NoCrossLinks eightClusters s' :=
  no_cross_links eightClusters_layout emptyFs_consistent (by decide +kernel)

/-- A file `B` with one cluster, and a file `A` with the two clusters in front of it, which is
truncated to one. -/
def truncatedFs : Fs :=
  ([.create none [0x42] .regularFile, .write 2 [5] 0, .create none [0x41] .regularFile,
    .write 3 (List.replicate 600 4) 0, .trunc 3 10].foldlM (fsStep eightClusters) emptyFs).get
    (by decide +kernel)

/-- The cluster of `B` is free then. -/
theorem truncation_frees_other_file :
    Consistent eightClusters emptyFs ∧
    [.create none [0x42] .regularFile, .write 2 [5] 0, .create none [0x41] .regularFile,
      .write 3 (List.replicate 600 4) 0, .trunc 3 10].foldlM (fsStep eightClusters) emptyFs =
      some truncatedFs ∧
    ChainOf eightClusters truncatedFs 2 7 ∧ FreeIn eightClusters truncatedFs.cache.disk 7 ∧
    ¬ NoCrossLinks eightClusters truncatedFs := by
  have hnode : (truncatedFs.node 2).map (fun n => n.entry.firstCluster eightClusters) = some 7 := by
    decide +kernel
  obtain ⟨n, hn, hfirst⟩ := Option.map_eq_some_iff.mp hnode
  have hchain : ChainOf eightClusters truncatedFs 2 7 :=
    ⟨n, hn, hfirst.symm ▸ by decide, hfirst.symm ▸ .refl⟩
  have hfree : FreeIn eightClusters truncatedFs.cache.disk 7 := ⟨by decide, by decide +kernel⟩
  exact ⟨emptyFs_consistent, (Option.some_get _).symm, hchain, hfree, fun h => h.marked 2 7 hchain hfree⟩

end Obos.Fat
