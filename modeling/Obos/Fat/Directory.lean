/-
What the functions of `create.c` do to the device.

* `place_spec` — records that fit into one block are written there, and nothing else is,
* `searchRoot_fileoff`, `searchChain_fileoff` — where the search finds room,
* `derefDirent_spec` — only records up to that of the file are changed.
-/
import Obos.Fat.Clusters

namespace Obos.Fat

open Function
open Option (bind_eq_bind bind_eq_some_iff bind_some map_eq_bind)

/-! ### Writing records -/

/-- The records, one behind the other, in a buffer. -/
def layRecords (buf : ByteMem) (curr : ℕ) : List ByteMem → ByteMem
  | [] => buf
  | r :: rs => layRecords (buf.transfer curr r 0 32) (curr + 32) rs

/-- The cluster behind `k` can be read, or `k` is the last one. -/
def WalksOn (v : Volume) (d : Disk) (k : ℕ) : Prop :=
  ∃ next status, nextCluster v k (readSector v d k) = some (next, status) ∧
    (status = .eof ∨ next ≠ 0 ∧ next < v.countofClusters)

section placing

variable {v : Volume} {d : Disk} {fixedRoot : Bool} {blkSize entryCluster : ℕ} {w : Placing}
  {r : ByteMem} {rs : List ByteMem}

/-- A record that does not fill the block. -/
theorem placeRecord_of_lt (hlt : w.curr + 32 < blkSize) (hblk : blkSize ≤ v.bytesPerCluster) :
    placeRecord v fixedRoot blkSize entryCluster w r =
      some (⟨w.disk, w.buf.transfer w.curr r 0 32, w.curr + 32, w.fileoff, false⟩, false) := by
  unfold placeRecord
  rw [if_neg (by omega)]
  simp [if_pos hlt]

/-- A record that fills the block: the block is written, and the next one may be read. -/
theorem placeRecord_of_eq (heq : w.curr + 32 = blkSize) (hblk : blkSize ≤ v.bytesPerCluster)
    {m : ByteMem} (hm : m = w.disk.bytes.transfer w.fileoff (w.buf.transfer w.curr r 0 32) 0 blkSize)
    (hnext : fixedRoot = true ∨ ∀ d : Disk, d.bytes = m → WalksOn v d entryCluster) :
    ∃ w' stop, placeRecord v fixedRoot blkSize entryCluster w r = some (w', stop) ∧
      w'.disk.bytes = m ∧ (w'.wroteback = true ∨ w'.wroteback = false ∧ w'.fileoff = w.fileoff ∧
        w'.buf = w.buf.transfer w.curr r 0 32) := by
  unfold placeRecord
  rw [if_neg (by omega)]
  simp only [if_neg (show ¬ w.curr + 32 < blkSize by omega)]
  cases fixedRoot with
  | true => exact ⟨_, _, rfl, hm.symm, .inl rfl⟩
  | false =>
    set d₁ := (w.disk.fdSeek w.fileoff).fdWrite (w.buf.transfer w.curr r 0 32) blkSize with hd₁
    have hbytes : d₁.bytes = m := hm.symm
    obtain ⟨next, status, hcall, hstatus⟩ := hnext.resolve_left (by decide) d₁ hbytes
    have hread : (d₁.fdSeek ((getFatEntryAddrForCluster v entryCluster).lba *
        v.blkSize)).fdRead v.blkSize =
        (⟨d₁.bytes, (getFatEntryAddrForCluster v entryCluster).lba * v.blkSize +
          v.blkSize⟩, readSector v d₁ entryCluster) := rfl
    simp only [Bool.false_eq_true, if_false, hread, hcall, bind_eq_bind, bind_some]
    by_cases heof : status = .eof
    · rw [if_pos heof]
      exact ⟨_, _, rfl, hbytes, .inr ⟨rfl, rfl, rfl⟩⟩
    · obtain ⟨hne, hlt⟩ := hstatus.resolve_left heof
      rw [if_neg heof, if_neg (by omega)]
      exact ⟨_, _, rfl, hbytes, .inl rfl⟩

/-- Records that fit into the block are written back by the loop, or are in the buffer. -/
theorem placeRecords_spec (hw : w.wroteback = false) (hblk : blkSize ≤ v.bytesPerCluster)
    (hfit : w.curr + 32 * rs.length ≤ blkSize) {m : ByteMem}
    (hm : m = w.disk.bytes.transfer w.fileoff (layRecords w.buf w.curr rs) 0 blkSize)
    (hnext : w.curr + 32 * rs.length = blkSize → fixedRoot = true ∨
      ∀ d : Disk, d.bytes = m → WalksOn v d entryCluster) :
    ∃ w', placeRecords v fixedRoot blkSize entryCluster w rs = some w' ∧
      (w'.wroteback = true ∧ w'.disk.bytes = m ∨
        w'.wroteback = false ∧ w'.fileoff = w.fileoff ∧ w'.buf = layRecords w.buf w.curr rs ∧
          (w'.disk.bytes = w.disk.bytes ∨ w'.disk.bytes = m)) := by
  induction rs generalizing w with
  | nil => exact ⟨w, rfl, .inr ⟨hw, rfl, rfl, .inl rfl⟩⟩
  | cons r rs ih =>
    rw [List.length_cons] at hfit hnext
    rw [placeRecords]
    by_cases hlt : w.curr + 32 < blkSize
    · rw [placeRecord_of_lt hlt hblk]
      have hlen : w.curr + 32 + 32 * rs.length = w.curr + 32 * (rs.length + 1) := by ring
      exact ih rfl (hlen.symm ▸ hfit) hm fun heq => hnext (hlen ▸ heq)
    · -- the last record ends with the block
      have hrs : rs = [] := List.eq_nil_of_length_eq_zero (by omega)
      subst hrs
      obtain ⟨w', stop, hcall, hbytes, hend⟩ :=
        placeRecord_of_eq (r := r) (show w.curr + 32 = blkSize by simp at hfit; omega) hblk hm
          (hnext (by simp at hfit ⊢; omega))
      have hloop : (if stop = true then some w' else
          placeRecords v fixedRoot blkSize entryCluster w' []) = some w' := by
        cases stop <;> rfl
      refine ⟨w', ?_, ?_⟩
      · rw [hcall]
        exact hloop
      · rcases hend with hwrote | ⟨hwrote, hoff, hbuf⟩
        · exact .inl ⟨hwrote, hbytes⟩
        · exact .inr ⟨hwrote, hoff, hbuf, .inr hbytes⟩

/-- Records that fit into one block are written there. -/
theorem place_spec {fileoff start : ℕ} (hblk : (if fixedRoot then v.blkSize else
      v.bytesPerCluster) = blkSize) (hle : blkSize ≤ v.bytesPerCluster)
    (hstart : fileoff / v.blkSize * v.blkSize = start) (hsmall : start < 2 ^ 32)
    (hfit : fileoff % blkSize + 32 * rs.length ≤ blkSize) {m : ByteMem}
    (hm : m = d.bytes.transfer start
      (layRecords (fun j => d.bytes (start + j)) (fileoff % blkSize) rs) 0 blkSize)
    (hnext : fileoff % blkSize + 32 * rs.length = blkSize → fixedRoot = true ∨
      ∀ d : Disk, d.bytes = m → WalksOn v d entryCluster) :
    ∃ d', place v d fixedRoot rs fileoff entryCluster = some d' ∧ d'.bytes = m := by
  set w : Placing := ⟨⟨d.bytes, start + blkSize⟩, fun j => d.bytes (start + j),
    fileoff % blkSize, start, false⟩ with hw
  have hcall : place v d fixedRoot rs fileoff entryCluster =
      (placeRecords v fixedRoot blkSize entryCluster w rs).bind fun w =>
        if w.wroteback then some w.disk
        else some ((w.disk.fdSeek w.fileoff).fdWrite w.buf blkSize) := by
    unfold place
    simp only [hblk, hstart, Disk.fdSeek, Disk.fdRead, u32_of_lt hsmall]
    rfl
  obtain ⟨w', hw', hend⟩ := placeRecords_spec (w := w) rfl hle hfit hm hnext
  rw [hcall, hw', bind_some]
  rcases hend with ⟨hwrote, hbytes⟩ | ⟨hwrote, hoff, hbuf, hbytes⟩
  · rw [hwrote]
    exact ⟨w'.disk, rfl, hbytes⟩
  · rw [hwrote]
    refine ⟨_, rfl, ?_⟩
    show w'.disk.bytes.transfer w'.fileoff w'.buf 0 blkSize = m
    rw [hoff, hbuf]
    rcases hbytes with hbytes | hbytes
    · rw [hbytes, hm]
    · rw [hbytes, hm, transfer_twice]

end placing

/-! ### The search -/

/-- Nothing was found, or it was found at one of the places `P`. -/
def Slots.FoundIn (P : ℕ → Prop) (s : Slots) : Prop := s.nFree = 0 ∨ P s.fileoff

/-- The places of the records of the root directory of a FAT12 or FAT16 volume. -/
def RootSlot (v : Volume) (off : ℕ) : Prop :=
  ∃ i ∈ List.range' v.rootSector v.rootDirSectors, ∃ j ∈ List.range (v.blkSize / 32),
    off = u32 (i * v.blkSize + j * 32)

/-- The places of the records of a cluster. -/
def ClusterSlot (v : Volume) (cluster off : ℕ) : Prop :=
  ∃ j ∈ List.range (v.bytesPerCluster / 32),
    off = u32 (clusterToSector 32 v cluster * v.blkSize + j * 32)

section search

variable {v : Volume} {P : ℕ → Prop} {s : Slots} {nEntries cluster : ℕ}

theorem Slots.FoundIn.processDirent (h : s.FoundIn P) {off : ℕ} (hoff : P off) (first : UInt8) :
    (s.processDirent first off).FoundIn P := by
  unfold Slots.processDirent
  split
  · refine .inr ?_
    split
    · exact hoff
    · rename_i hne
      exact h.resolve_left hne
  · exact .inl rfl

theorem searchRoot_spec (v : Volume) (d : Disk) (nEntries : ℕ) :
    (searchRoot v d nEntries).1.bytes = d.bytes ∧
      (searchRoot v d nEntries).2.FoundIn (RootSlot v) := by
  refine Loop.forUntil_invariant
    (I := fun w : Disk × Slots => w.1.bytes = d.bytes ∧ w.2.FoundIn (RootSlot v)) ?_
    ⟨rfl, .inl rfl⟩
  rintro w i hi ⟨hbytes, hw⟩
  refine ⟨hbytes, Loop.forUntil_invariant (I := Slots.FoundIn (RootSlot v)) ?_ hw⟩
  intro s j hj hs
  have hoff : RootSlot v (u32 (i * v.blkSize + j * 32)) := ⟨i, hi, j, hj, rfl⟩
  unfold rootRecord
  split
  · exact .inr hoff
  · exact hs.processDirent hoff _

/-- What every call of the callback keeps holds behind the walk. -/
theorem followLoop_invariant {σ : Type} {I : Disk → σ → Prop} {clus : ℕ} {sector : ByteMem}
    {callback : ℕ → Status → Disk → σ → Option (Disk × σ × Bool)}
    (hcall : ∀ k st d u d' u' b, k = clus ∨ st = .aborted → I d u →
      callback k st d u = some (d', u', b) → I d' u')
    {fuel curr : ℕ} {d d' : Disk} {u u' : σ} (h : I d u)
    (hrun : followLoop v clus sector callback fuel curr d u = some (d', u')) : I d' u' := by
  induction fuel generalizing curr d u with
  | zero => exact absurd hrun (by simp [followLoop])
  | succ fuel ih =>
    rw [followLoop] at hrun
    simp only [bind_eq_bind, bind_eq_some_iff] at hrun
    obtain ⟨⟨d₁, u₁, b₁⟩, hcb, hrun⟩ := hrun
    have h₁ := hcall _ _ _ _ _ _ _ (.inl rfl) h hcb
    split at hrun
    · simp only [bind_eq_some_iff] at hrun
      obtain ⟨⟨next, status⟩, -, hrun⟩ := hrun
      split at hrun
      · cases hrun
        exact h₁
      · split at hrun
        · simp only [bind_eq_some_iff] at hrun
          obtain ⟨⟨d₂, u₂, b₂⟩, hcb₂, hrun⟩ := hrun
          cases hrun
          exact hcall _ _ _ _ _ _ _ (.inr rfl) h₁ hcb₂
        · exact ih h₁ hrun
    · cases hrun
      exact h₁

/-- What the search in a chain keeps: it looks at the first cluster only. -/
theorem clusterRecord_foundIn (hs : s.FoundIn (ClusterSlot v cluster))
    (he : s.nFree = 0 ∨ s.entryCluster = cluster) (buff : ByteMem) {j : ℕ}
    (hj : j ∈ List.range (v.bytesPerCluster / 32)) :
    (clusterRecord v nEntries cluster buff s j).1.FoundIn (ClusterSlot v cluster) ∧
      ((clusterRecord v nEntries cluster buff s j).1.nFree = 0 ∨
        (clusterRecord v nEntries cluster buff s j).1.entryCluster = cluster) := by
  have hoff : ClusterSlot v cluster (u32 (clusterToSector 32 v cluster * v.blkSize + j * 32)) :=
    ⟨j, hj, rfl⟩
  unfold clusterRecord
  dsimp only
  split
  · exact ⟨.inr hoff, .inr rfl⟩
  · have hnew := hs.processDirent hoff (buff (j * 32))
    split
    · exact ⟨hnew, .inr rfl⟩
    · refine ⟨hnew, ?_⟩
      rename_i hone
      -- a run that goes on has set the cluster when it began
      unfold Slots.processDirent at hone ⊢
      split at hone
      · rename_i hfree
        rw [if_pos hfree]
        exact .inr (he.resolve_left fun h0 => hone (by simp [h0]))
      · rename_i hfree
        rw [if_neg hfree]
        exact .inl rfl

theorem searchChain_spec {d d' : Disk} {slots : Slots}
    (h : searchChain v d cluster nEntries = some (d', slots)) :
    d'.bytes = d.bytes ∧ slots.FoundIn (ClusterSlot v cluster) ∧
      (slots.nFree = 0 ∨ slots.entryCluster = cluster) := by
  rw [searchChain, followClusterChain] at h
  refine followLoop_invariant (I := fun d₁ s => d₁.bytes = d.bytes ∧
    Slots.FoundIn (ClusterSlot v cluster) s ∧ (s.nFree = 0 ∨ s.entryCluster = cluster)) ?_
    ?_ h
  case refine_2 => exact ⟨rfl, .inl rfl, .inl rfl⟩
  rintro k st d₁ s d₂ s₂ b hk ⟨hbytes, hs, he⟩ hcall
  unfold findFreeEntry at hcall
  split at hcall
  · obtain ⟨rfl, hrest⟩ := Prod.mk.inj (Option.some.inj hcall)
    cases hrest
    exact ⟨hbytes, hs, he⟩
  · rename_i hst
    obtain rfl := hk.resolve_right hst
    dsimp only at hcall
    split at hcall
    · obtain ⟨rfl, hrest⟩ := Prod.mk.inj (Option.some.inj hcall)
      cases hrest
      refine ⟨hbytes, Loop.forUntil_invariant (I := fun s : Slots =>
        s.FoundIn (ClusterSlot v k) ∧ (s.nFree = 0 ∨ s.entryCluster = k)) ?_ ⟨hs, he⟩⟩
      rintro s j hj ⟨hs, he⟩
      exact clusterRecord_foundIn hs he _ hj
    · exact absurd hcall nofun

end search

/-! ### Freeing records -/

section freeing

variable {v : Volume} {e : Entry} {front : Bool}

/-- The loop stays in the buffer, and changes records in front of `off` only. -/
theorem freeLfnRecords_spec {fuel : ℕ} (sector : ByteMem) (off : ℕ) (hfuel : off / 32 < fuel)
    (hfront : front = false ∨ off % 32 = 0 ∧ 0 < off) :
    ∃ sector', freeLfnRecords front fuel sector off = some sector' ∧
      ∀ x, off ≤ x → sector' x = sector x := by
  induction fuel generalizing sector off with
  | zero => exact absurd hfuel (Nat.not_lt_zero _)
  | succ fuel ih =>
    rw [freeLfnRecords]
    by_cases hlt : off < 32
    · have hf : front = false := hfront.resolve_right (by omega)
      exact ⟨sector, by simp [hlt, hf], fun x _ => rfl⟩
    rw [if_neg hlt]
    split
    · exact ⟨sector, rfl, fun x _ => rfl⟩
    · have hupd : ∀ x, off ≤ x → update sector (off - 32) direntFree x = sector x :=
        fun x hx => update_of_ne (by omega) ..
      split
      · exact ⟨_, rfl, hupd⟩
      · obtain ⟨sector', hcall, hkept⟩ := ih (update sector (off - 32) direntFree)
          (off - 32) (by omega) (hfront.imp_right fun hoff => by omega)
        exact ⟨sector', hcall, fun x hx => (hkept x (by omega)).trans (hupd x hx)⟩

/-- Only records up to that of the file are written, and the file's cluster stays. -/
theorem derefDirent_spec (hroom : e.direntOffset + 32 ≤ v.bytesPerCluster)
    (hfront : front = false ∨ e.direntOffset % 32 = 0 ∧ 0 < e.direntOffset) (d : Disk) :
    ∃ d', derefDirent v d e front =
        some (d', { e with data := update e.data 0 direntFree }) ∧
      ∀ x, ¬ (Span.mk e.direntFileoff (e.direntOffset + 32)).Has x → d'.bytes x = d.bytes x := by
  obtain ⟨sector', hcall, hkept⟩ := freeLfnRecords_spec
    (fun j => d.bytes (e.direntFileoff + j)) e.direntOffset (Nat.lt_succ_self _) hfront
  refine ⟨(⟨d.bytes, e.direntFileoff⟩ : Disk).fdWrite (sector'.transfer e.direntOffset
    (update e.data 0 direntFree) 0 32) v.bytesPerCluster, ?_, fun x hx => ?_⟩
  · unfold derefDirent
    simp [Disk.fdSeek, Disk.fdRead, if_neg (Nat.not_lt.mpr hroom), hcall]
  · simp only [Disk.fdWrite]
    by_cases hin : (Span.mk e.direntFileoff v.bytesPerCluster).Has x
    · have hbehind : e.direntFileoff + e.direntOffset + 32 ≤ x := by
        by_contra hlt
        refine hx ⟨hin.1, ?_⟩
        show x < e.direntFileoff + (e.direntOffset + 32)
        omega
      rw [ByteMem.transfer_of_has hin, ByteMem.transfer_of_not_has, hkept _ (by omega)]
      · congr 1
        omega
      · rintro ⟨-, hhigh⟩
        simp only [Span.stop_mk] at hhigh
        omega
    · exact ByteMem.transfer_of_not_has hin

end freeing

/-! ### Records in a directory -/

section records

variable {v : Volume} {s : Fs} {i : ℕ} {n p : Node} {d : Disk} {slots : Slots}

theorem refDirent_root (hn : s.node i = some n) (hp : s.node n.parent = some p)
    (hroot : s.root = n.parent ∧ v.fatType ≠ .fat32)
    (hsearch : searchRoot v s.cache.disk n.records.length = (d, slots)) :
    refDirent v s i =
      if slots.nFree < n.records.length then some (s.withDisk d)
      else (place v d true n.records slots.fileoff slots.entryCluster).map s.withDisk := by
  unfold refDirent
  simp only [hn, hp, bind_eq_bind, bind_some, decide_eq_true hroot, if_true, hsearch]
  split
  · rfl
  · exact map_eq_bind.symm

theorem refDirent_chain (hn : s.node i = some n) (hp : s.node n.parent = some p)
    (hroot : ¬ (s.root = n.parent ∧ v.fatType ≠ .fat32))
    (hsearch : searchChain v s.cache.disk p.entry.rawCluster n.records.length = some (d, slots)) :
    refDirent v s i =
      if slots.nFree < n.records.length then
        (growDirectory v (s.withDisk d) n.parent p
          (slots.szClusters + v.clustersFor (n.records.length * 32)) slots.szClusters).bind
          fun (s, grown) => match grown with
          | none => some s
          | some cluster =>
            (place v s.cache.disk false n.records
              (u32 (clusterToSector 32 v cluster * v.blkSize)) cluster).map s.withDisk
      else (place v d false n.records slots.fileoff slots.entryCluster).map s.withDisk := by
  unfold refDirent
  simp only [hn, hp, bind_eq_bind, bind_some, decide_eq_false hroot,
    Bool.false_eq_true, if_false, hsearch]
  split
  · congr 1
    funext w
    obtain ⟨s, grown⟩ := w
    cases grown with
    | none => rfl
    | some cluster => exact map_eq_bind.symm
  · exact map_eq_bind.symm

end records

end Obos.Fat
