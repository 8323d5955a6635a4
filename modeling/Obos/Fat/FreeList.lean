/-
The free list of a FAT volume (`cls_alloc.c`): a doubly linked list of intervals of
clusters, built by a scan of the table and then changed together with it.

`Mirrors` is what the list is for: it is well linked, its intervals are disjoint, they
cover exactly the data clusters that the table marks free, and the two counts are right.

* `initialize_spec` — the scan builds such a list, on a volume with entries of whole
  bytes whose first two and last two clusters are not free,
* `mirrors_run` — and every run of allocations, frees and truncations keeps it, if no
  allocation uses up an interval with one before it in the list, and what is freed was
  allocated and starts below the last two clusters.

The nodes are numbered in the order of their allocation, from 1; 0 is the null pointer.
-/
import Obos.Lib.DLinked
import Obos.Lib.Run
import Obos.Fat.Entries

namespace Obos.Fat

open Function List
open Option (bind_eq_bind bind_some some_get)

/-! ### The list and the operations -/

/-- `fat_freenode`. -/
structure FreeNode where
  cluster : ℕ
  nClusters : ℕ
  next : ℕ
  prev : ℕ
  deriving DecidableEq, Repr

/-- The device and the free list of a `fat_cache`.  `fresh` is the last node allocated. -/
structure Cache where
  disk : Disk
  node : ℕ → FreeNode
  fresh : ℕ
  head : ℕ
  tail : ℕ
  nNodes : ℕ
  freeClusterCount : ℕ

def uint32Max : ℕ := 2 ^ 32 - 1

namespace Cache

variable (c : Cache)

def setNext (x val : ℕ) : Cache :=
  { c with node := update c.node x { c.node x with next := val } }

def setPrev (x val : ℕ) : Cache :=
  { c with node := update c.node x { c.node x with prev := val } }

def setClusters (x val : ℕ) : Cache :=
  { c with node := update c.node x { c.node x with nClusters := val } }

/-- A new node with the given interval behind the tail. -/
def appendNode (cluster nClusters : ℕ) : Cache :=
  let curr := c.fresh + 1
  let c := { c with node := update c.node curr ⟨cluster, nClusters, 0, 0⟩, fresh := curr }
  let c := if c.head = 0 then { c with head := curr } else c
  let c := if c.tail ≠ 0 then c.setNext c.tail curr else c
  let c := c.setPrev curr c.tail
  { c with tail := curr, nNodes := c.nNodes + 1,
           freeClusterCount := c.freeClusterCount + nClusters }

/-- Take the node `x` out of the list: the node before it is linked to itself. -/
def removeNode (x : ℕ) : Cache :=
  let c := if (c.node x).prev ≠ 0 then c.setNext (c.node x).prev (c.node x).prev else c
  let c := if (c.node x).next ≠ 0 then c.setPrev (c.node x).next (c.node x).prev else c
  let c := if c.head = x then { c with head := (c.node x).next } else c
  let c := if c.tail = x then { c with tail := (c.node x).prev } else c
  { c with nNodes := c.nNodes - 1 }

/-- The last interval of the list with at least `n` clusters, 0 if there is none. -/
def lastFit (n : ℕ) : Option ℕ :=
  DLinked.walk (fun x => (c.node x).prev) 0 (fun x => decide (n ≤ (c.node x).nClusters))
    (c.fresh + 1) c.tail

end Cache

def isLastCluster (v : Volume) (cluster : ℕ) : Bool := v.countofClusters ≤ cluster

/-- A loop that writes the entries of `n` clusters. -/
def markEach (mark : Disk → ℕ → Option Disk) (d : Disk) (cluster n : ℕ) : Option Disk :=
  (List.range n).foldlM (fun d i => mark d (u32 (cluster + i))) d

def allocateClusters (v : Volume) (c : Cache) (nClusters : ℕ) : Option (Cache × ℕ) :=
  if c.freeClusterCount < nClusters then some (c, uint32Max)
  else do
    let x ← c.lastFit nClusters
    if x = 0 then some (c, uint32Max)
    else do
      let c := c.setClusters x ((c.node x).nClusters - nClusters)
      let cluster := u32 ((c.node x).cluster + (c.node x).nClusters)
      let c := if (c.node x).nClusters = 0 then c.removeNode x else c
      let d ← markEach (markAllocated v) c.disk cluster nClusters
      -- with no clusters at all this is the cluster in front
      let d ← markEnd v d (u32 (cluster + u64sub nClusters 1))
      some ({ c with disk := d, freeClusterCount := c.freeClusterCount - nClusters }, cluster)

/-- `FreeClusters`; the condition of the loop looks at the first cluster only. -/
def freeClusters (v : Volume) (c : Cache) (cluster nClusters : ℕ) : Option Cache := do
  let d ← markEach (markFree v) c.disk cluster (if isLastCluster v cluster then 0 else nClusters)
  some ({ c with disk := d }.appendNode cluster (u32 nClusters))

/-- `TruncateClusters`; what is freed starts behind the old end. -/
def truncateClusters (v : Volume) (c : Cache) (cluster newClusterCount oldClusterCount : ℕ) :
    Option Cache :=
  if oldClusterCount ≤ newClusterCount then some c
  else do
    let c ← freeClusters v c (u32 (cluster + oldClusterCount)) (oldClusterCount - newClusterCount)
    if newClusterCount ≠ 0 then do
      let d ← markEnd v c.disk (u32 (cluster + newClusterCount - 1))
      some { c with disk := d }
    else some c

/-- `while (isLastCluster(volume, curr->cluster + curr->nClusters)) curr->nClusters--`. -/
def trimRun (v : Volume) (cluster : ℕ) : ℕ → Option ℕ
  | 0 => if isLastCluster v cluster then none else some 0
  | n + 1 => if isLastCluster v (cluster + (n + 1)) then trimRun v cluster n else some (n + 1)

/-- What the scan keeps: the list, the buffer, and the run that it is in. -/
structure Scan where
  cache : Cache
  sector : ByteMem
  curr : Option (ℕ × ℕ)

def scanCluster (v : Volume) (s : Scan) (cluster : ℕ) : Option Scan := do
  let (d, sector, free) ← isClusterFree v s.cache.disk cluster s.sector
  let c := { s.cache with disk := d }
  match free, s.curr with
  | true, none => some ⟨c, sector, some (cluster, 1)⟩
  | true, some (start, n) => some ⟨c, sector, some (start, n + 1)⟩
  | false, none => some ⟨c, sector, none⟩
  | false, some (start, n) => do
    let n ← trimRun v start n
    some ⟨c.appendNode start n, sector, none⟩

/-- The list before the scan. -/
def Cache.empty (d : Disk) : Cache where
  disk := d
  node := fun _ => ⟨0, 0, 0, 0⟩
  fresh := 0
  head := 0
  tail := 0
  nNodes := 0
  freeClusterCount := 0

def initializeCacheFreelist (v : Volume) (d : Disk) : Option Cache := do
  let s ← (List.range v.countofClusters).foldlM (scanCluster v) ⟨.empty d, fun _ => 0, none⟩
  match s.curr with
  | none => some s.cache
  | some (start, n) => some (s.cache.appendNode start n)

/-! ### What the list is for -/

/-- The clusters of a node. -/
def Cache.span (c : Cache) (x : ℕ) : Span := ⟨(c.node x).cluster, (c.node x).nClusters⟩

/-- The list is well linked, with the nodes `xs`; its intervals are disjoint, and together
they are `S`. -/
structure Cache.Holds (c : Cache) (xs : List ℕ) (S : ℕ → Prop) : Prop where
  list : DLinked.IsList (fun x => (c.node x).next) (fun x => (c.node x).prev) 0 c.head c.tail xs
  count : c.nNodes = xs.length
  total : c.freeClusterCount = (xs.map fun x => (c.node x).nClusters).sum
  disjoint : xs.Pairwise fun x y => ∀ k, (c.span x).Has k → ¬ (c.span y).Has k
  cover : ∀ k, (∃ x ∈ xs, (c.span x).Has k) ↔ S k

/-- Clusters 2 up to `CountofClusters + 1` have data. -/
def DataCluster (v : Volume) (k : ℕ) : Prop := 2 ≤ k ∧ k ≤ v.countofClusters + 1

/-- The entry of a cluster, in the first copy of the table. -/
def Disk.entry (v : Volume) (d : Disk) (k : ℕ) : ℕ := formatEntry v d.bytes 0 k

/-- The free list is that of the table. -/
def Mirrors (v : Volume) (c : Cache) : Prop :=
  ∃ xs, c.Holds xs fun k => DataCluster v k ∧ c.disk.entry v k = 0

inductive Op where
  | allocate (nClusters : ℕ)
  | free (cluster nClusters : ℕ)
  | truncate (cluster newClusterCount oldClusterCount : ℕ)
  deriving DecidableEq, Repr

def step (v : Volume) (c : Cache) : Op → Option Cache
  | .allocate n => (allocateClusters v c n).map Prod.fst
  | .free cluster n => freeClusters v c cluster n
  | .truncate cluster new old => truncateClusters v c cluster new old

/-! ### Entries of whole bytes -/

/-- A FAT16 or FAT32 volume on a device whose blocks are its sectors, which hold whole entries,
with a table that has entries for all clusters. -/
structure Wide (v : Volume) : Prop where
  not_packed : v.fatType ≠ .fat12
  blocks : v.blkSize = v.bytesPerSector
  whole : v.bytesPerSector % v.fatType.width = 0
  copies : 0 < v.nFATs
  inTable : ∀ k ≤ v.countofClusters + 1, InTable v k

section table

variable {v : Volume} {d d' : Disk} {k cluster n : ℕ}

theorem Wide.fatType (hv : Wide v) : v.fatType = .fat16 ∨ v.fatType = .fat32 := by
  have hne := hv.not_packed
  cases ht : v.fatType with
  | fat12 => exact absurd ht hne
  | fat16 => exact .inl rfl
  | fat32 => exact .inr rfl

theorem Wide.formatOffset_eq (hv : Wide v) (k : ℕ) :
    formatOffset v.fatType k = k * v.fatType.width := by
  rcases hv.fatType with ht | ht <;> rw [ht] <;> rfl

theorem Wide.lt (hv : Wide v) : v.countofClusters + 1 < 2 ^ 28 := by
  have hbits : v.fatType.bits ≤ 28 := by cases v.fatType <;> decide
  exact (hv.inTable _ le_rfl).1.trans_le (Nat.pow_le_pow_right (by decide) hbits)

theorem Wide.u32_eq (hv : Wide v) (hk : k ≤ v.countofClusters + 1) : u32 k = k :=
  u32_of_lt (by have := hv.lt; omega)

/-- An entry does not cross the end of its sector. -/
theorem Wide.fits (hv : Wide v) (hk : k ≤ v.countofClusters + 1) : fitsSector v k = true := by
  have hin := hv.inTable k hk
  have hw := v.fatType.width_pos
  obtain ⟨q, hq⟩ := Nat.dvd_of_mod_eq_zero hv.whole
  have hpos : 0 < q := by
    refine Nat.pos_of_ne_zero fun hz => ?_
    have hle := hin.2
    rw [hq, hz, Nat.mul_zero, Nat.mul_zero] at hle
    omega
  rw [fitsSector_iff]
  show fatOffset v.fatType k % v.bytesPerSector + v.fatType.width ≤ v.blkSize
  rw [hv.blocks, fatOffset_eq hin, hv.formatOffset_eq, hq, Nat.mul_comm v.fatType.width q,
    Nat.mul_mod_mul_right]
  calc k % q * v.fatType.width + v.fatType.width = (k % q + 1) * v.fatType.width := by ring
    _ ≤ q * v.fatType.width := Nat.mul_le_mul_right _ (Nat.mod_lt k hpos)

/-- The device is as before outside of the table. -/
def SameOutside (v : Volume) (d d' : Disk) : Prop :=
  ∀ x, ¬ (tables v).Has x → d'.bytes x = d.bytes x

theorem SameOutside.trans {d'' : Disk} (h : SameOutside v d d') (h' : SameOutside v d' d'') :
    SameOutside v d d'' := fun x hx => (h' x hx).trans (h x hx)

/-- One entry is written, and the others keep their values. -/
theorem Wide.exists_markWith (hv : Wide v) (hk : k ≤ v.countofClusters + 1) (d : Disk) (val : ℕ) :
    ∃ d', markWith v d k val = some d' ∧ SameOutside v d d' ∧
      d'.entry v k = val % 2 ^ v.fatType.bits ∧
      ∀ j ≤ v.countofClusters + 1, j ≠ k → d'.entry v j = d.entry v j := by
  have hin := hv.inTable k hk
  obtain ⟨d', hmark⟩ : ∃ d', markWith v d k val = some d' :=
    ⟨_, markWith_eq_some_iff.mpr ⟨hv.fits hk, rfl⟩⟩
  have hW := writes_of_markWith hv.blocks hin hv.copies hmark
  refine ⟨d', hmark, fun x hx => markWith_outside hv.blocks hin hmark hx, ?_, fun j hj hne => ?_⟩
  · rw [Disk.entry, formatEntry_eq, hW.entry 0 hv.copies]
    rcases hv.fatType with ht | ht <;> simp only [ht, formatValue, newWord, FatType.bits]
    omega
  · rw [Disk.entry, Disk.entry, formatEntry_eq, formatEntry_eq,
      hW.load_other hin (hv.inTable j hj) hne fun ht => absurd ht hv.not_packed,
      load_spliced_first hv.blocks hin (hv.inTable j hj) hv.copies]

/-- A loop that writes the entries of an interval. -/
theorem Wide.exists_markEach (hv : Wide v) {mark : Disk → ℕ → Option Disk} (val : ℕ → ℕ)
    (hmark : ∀ d k, mark d k = markWith v d k (val k)) (d : Disk)
    (hn : n ≠ 0 → cluster + n ≤ v.countofClusters + 2) :
    ∃ d', markEach mark d cluster n = some d' ∧ SameOutside v d d' ∧
      ∀ j ≤ v.countofClusters + 1, d'.entry v j =
        if cluster ≤ j ∧ j < cluster + n then val j % 2 ^ v.fatType.bits else d.entry v j := by
  induction n with
  | zero =>
    refine ⟨d, rfl, fun x _ => rfl, fun j _ => ?_⟩
    rw [if_neg (by omega)]
  | succ n ih =>
    obtain ⟨d₁, hd₁, hout₁, hent₁⟩ := ih (by omega)
    have hk : cluster + n ≤ v.countofClusters + 1 := by omega
    obtain ⟨d₂, hd₂, hout₂, hself, hother⟩ := hv.exists_markWith hk d₁ (val (cluster + n))
    refine ⟨d₂, ?_, hout₁.trans hout₂, fun j hj => ?_⟩
    · unfold markEach at hd₁ ⊢
      rw [range_succ, foldlM_append, hd₁]
      simp [hv.u32_eq hk, hmark, hd₂]
    · by_cases hj' : j = cluster + n
      · subst hj'
        rw [hself, if_pos (by omega)]
      · rw [hother j hj hj', hent₁ j hj]
        by_cases hin : cluster ≤ j ∧ j < cluster + n
        · rw [if_pos hin, if_pos (by omega)]
        · rw [if_neg hin, if_neg (by omega)]

end table

/-! ### The linked list -/

/-- Disjoint intervals of `m` clusters, which together are `S`. -/
structure Covers (l : List Span) (m : ℕ) (S : ℕ → Prop) : Prop where
  total : m = (l.map Span.len).sum
  disjoint : l.Pairwise fun s t => ∀ k, s.Has k → ¬ t.Has k
  cover : ∀ k, (∃ s ∈ l, s.Has k) ↔ S k

namespace Covers

variable {l l' : List Span} {s : Span} {m n : ℕ} {S : ℕ → Prop}

theorem perm (h : Covers l m S) (hp : l.Perm l') : Covers l' m S where
  total := h.total.trans (hp.map _).sum_eq
  disjoint := (hp.pairwise_iff fun hst k ht hs => hst k hs ht).mp h.disjoint
  cover k := by simpa only [hp.mem_iff] using h.cover k

theorem append (h : Covers l m S) (hdisj : ∀ k, S k → ¬ s.Has k) :
    Covers (l ++ [s]) (m + s.len) fun k => S k ∨ s.Has k where
  total := by simp [h.total]
  disjoint := by
    refine pairwise_append.mpr ⟨h.disjoint, pairwise_singleton _ _, fun t ht u hu k hk => ?_⟩
    rw [mem_singleton.mp hu]
    exact hdisj k ((h.cover k).mp ⟨t, ht, hk⟩)
  cover k := by simp [← h.cover k, or_and_right, exists_or]

theorem tail (h : Covers (s :: l) m S) (hs : s.len = 0) : Covers l m S where
  total := by simp [h.total, hs]
  disjoint := (pairwise_cons.mp h.disjoint).2
  cover k := by
    have hnot : ¬ s.Has k := fun ⟨hlow, hhigh⟩ => by
      rw [Span.stop, hs] at hhigh
      omega
    simp [← h.cover k, hnot]

/-- The last `n` clusters of an interval are cut off. -/
theorem shrink (h : Covers (s :: l) m S) (hn : n ≤ s.len) :
    Covers (⟨s.base, s.len - n⟩ :: l) (m - n)
      fun k => S k ∧ ¬ (Span.mk (s.base + (s.len - n)) n).Has k where
  total := by
    have htotal := h.total
    simp only [map_cons, sum_cons] at htotal ⊢
    omega
  disjoint := by
    obtain ⟨hs, hl⟩ := pairwise_cons.mp h.disjoint
    exact pairwise_cons.mpr ⟨fun t ht k hk => hs t ht k
      ⟨hk.1, hk.2.trans_le (Nat.add_le_add_left (Nat.sub_le _ _) _)⟩, hl⟩
  cover k := by
    have hrest : (∃ t ∈ l, t.Has k) → ¬ s.Has k := fun ⟨t, ht, hk⟩ hs =>
      (pairwise_cons.mp h.disjoint).1 t ht k hs hk
    rw [← h.cover k, exists_mem_cons_iff, exists_mem_cons_iff]
    simp only [Span.Has, Span.stop] at hrest ⊢
    by_cases hl : ∃ t ∈ l, t.base ≤ k ∧ k < t.base + t.len
    · have hs := hrest hl
      simp only [hl, or_true, true_and, true_iff]
      omega
    · simp only [hl, or_false]
      omega

end Covers

namespace Cache

/-- A well linked list of nodes that were allocated. -/
structure Inv (c : Cache) (xs : List ℕ) (S : ℕ → Prop) : Prop extends c.Holds xs S where
  bounded : ∀ x ∈ xs, x ≤ c.fresh

variable {c : Cache} {xs : List ℕ} {S S' : ℕ → Prop} {x cluster n : ℕ}

theorem Inv.congr (h : c.Inv xs S) (hS : ∀ k, S k ↔ S' k) : c.Inv xs S' :=
  { h with cover := fun k => (h.cover k).trans (hS k) }

theorem Inv.withDisk (h : c.Inv xs S) (d : Disk) : { c with disk := d }.Inv xs S :=
  ⟨⟨h.list, h.count, h.total, h.disjoint, h.cover⟩, h.bounded⟩

theorem Holds.covers (h : c.Holds xs S) : Covers (xs.map c.span) c.freeClusterCount S where
  total := by
    rw [h.total, map_map]
    rfl
  disjoint := pairwise_map.mpr h.disjoint
  cover k := by simpa using h.cover k

/-- The intervals and the links, each for itself. -/
theorem Inv.of_covers (h : Covers (xs.map c.span) c.freeClusterCount S)
    (hlist : DLinked.IsList (fun x => (c.node x).next) (fun x => (c.node x).prev) 0 c.head c.tail xs)
    (hcount : c.nNodes = xs.length) (hbounded : ∀ x ∈ xs, x ≤ c.fresh) : c.Inv xs S where
  list := hlist
  count := hcount
  total := by
    rw [h.total, map_map]
    rfl
  disjoint := pairwise_map.mp h.disjoint
  cover k := by simpa using h.cover k
  bounded := hbounded

theorem Inv.tail_le (h : c.Inv xs S) : c.tail ≤ c.fresh := by
  rw [h.list.tail_eq]
  rcases eq_or_ne xs [] with rfl | hne
  · exact Nat.zero_le _
  · exact h.bounded _ (DLinked.IsList.getLastD_mem hne 0)

theorem appendNode_node (htail : c.tail ≤ c.fresh) (cluster n y : ℕ) :
    (c.appendNode cluster n).node y =
      if y = c.fresh + 1 then ⟨cluster, n, 0, c.tail⟩
      else if y = c.tail ∧ c.tail ≠ 0 then { c.node y with next := c.fresh + 1 }
      else c.node y := by
  have hne : c.tail ≠ c.fresh + 1 := by omega
  unfold appendNode
  by_cases hhead : c.head = 0 <;> by_cases ht : c.tail = 0 <;>
    simp only [hhead, ht, if_true, if_false, setNext, setPrev, ne_eq, not_true_eq_false,
      not_false_eq_true, and_false, and_true, update_apply] <;>
    split_ifs <;> simp_all

theorem appendNode_ends (c : Cache) (cluster n : ℕ) :
    (c.appendNode cluster n).head = (if c.head = 0 then c.fresh + 1 else c.head) ∧
    (c.appendNode cluster n).tail = c.fresh + 1 ∧
    (c.appendNode cluster n).nNodes = c.nNodes + 1 ∧
    (c.appendNode cluster n).freeClusterCount = c.freeClusterCount + n ∧
    (c.appendNode cluster n).fresh = c.fresh + 1 ∧
    (c.appendNode cluster n).disk = c.disk := by
  unfold appendNode
  by_cases hhead : c.head = 0 <;> by_cases ht : c.tail = 0 <;> simp [hhead, ht, setNext, setPrev]

/-- A new interval at the end of the list. -/
theorem Inv.appendNode (h : c.Inv xs S) (cluster n : ℕ)
    (hdisj : ∀ k, S k → ¬ (Span.mk cluster n).Has k) :
    (c.appendNode cluster n).Inv (xs ++ [c.fresh + 1])
      fun k => S k ∨ (Span.mk cluster n).Has k := by
  obtain ⟨hhead, htail, hcount, htotal, hfresh, -⟩ := c.appendNode_ends cluster n
  have hnode := appendNode_node h.tail_le cluster n
  have hnew : c.fresh + 1 ∉ xs := fun hm => by
    have := h.bounded _ hm
    omega
  have hold : ∀ y ∈ xs, y ≠ c.fresh + 1 := fun y hy he => hnew (he ▸ hy)
  have hspan : xs.map (c.appendNode cluster n).span = xs.map c.span := by
    refine map_congr_left fun y hy => ?_
    rw [span, hnode, if_neg (hold y hy)]
    split <;> rfl
  refine .of_covers ?_ ?_ ?_ fun y hy => ?_
  · rw [map_append, hspan, htotal, map_singleton, span, hnode, if_pos rfl]
    exact h.covers.append hdisj
  · rw [hhead, htail]
    refine h.list.append hnew (Nat.succ_ne_zero _) (fun y hy => ?_) (fun y hy => ?_) ?_ ?_
    · have hy0 : y ≠ 0 := fun he => h.list.null_notMem (he ▸ hy)
      simp only [hnode, if_neg (hold y hy)]
      by_cases ht : y = c.tail
      · rw [if_pos ⟨ht, ht ▸ hy0⟩, if_pos ht]
      · rw [if_neg fun hh => ht hh.1, if_neg ht]
    · simp only [hnode, if_neg (hold y hy)]
      split <;> rfl
    · simp [hnode]
    · simp [hnode]
  · rw [hcount, h.count, length_append, length_singleton]
  · rw [hfresh]
    rcases mem_append.mp hy with hy | hy
    · exact (h.bounded y hy).trans (Nat.le_succ _)
    · rw [mem_singleton.mp hy]

/-- The last `n` clusters of an interval are cut off. -/
theorem Inv.shrink (h : c.Inv xs S) (hx : x ∈ xs) (hn : n ≤ (c.node x).nClusters) :
    { c.setClusters x ((c.node x).nClusters - n) with
        freeClusterCount := c.freeClusterCount - n }.Inv xs
      fun k => S k ∧ ¬ (Span.mk ((c.node x).cluster + ((c.node x).nClusters - n)) n).Has k := by
  set c' : Cache := { c.setClusters x ((c.node x).nClusters - n) with
    freeClusterCount := c.freeClusterCount - n } with hc'
  have hself : c'.node x = { c.node x with nClusters := (c.node x).nClusters - n } :=
    update_self ..
  have hother : ∀ y, y ≠ x → c'.node y = c.node y := fun y hy => update_of_ne hy ..
  obtain ⟨l, r, rfl⟩ := append_of_mem hx
  have hperm (f : ℕ → Span) : ((l ++ x :: r).map f).Perm (f x :: (l ++ r).map f) :=
    perm_middle.map f
  have hrest : (l ++ r).map c'.span = (l ++ r).map c.span := by
    refine map_congr_left fun y hy => ?_
    have hne : y ≠ x := by
      rintro rfl
      exact (nodup_cons.mp (perm_middle.nodup_iff.mp h.list.nodup)).1 hy
    rw [span, span, hother y hne]
  refine .of_covers (.perm ?_ (hperm _).symm) ?_ h.count h.bounded
  · rw [hrest, span, hself]
    exact (h.covers.perm (hperm _)).shrink hn
  · refine h.list.congr (fun y _ => ?_) (fun y _ => ?_) <;> by_cases hy : y = x
    · rw [hy, hself]
    · rw [hother y hy]
    · rw [hy, hself]
    · rw [hother y hy]

/-- At the head only the link back from the second node is written. -/
theorem removeNode_head (hprev : (c.node x).prev = 0) (hhead : c.head = x)
    (hne : (c.node x).next ≠ x) : c.removeNode x =
      { c with node := if (c.node x).next = 0 then c.node
                  else update c.node (c.node x).next
                    { c.node (c.node x).next with prev := 0 },
               head := (c.node x).next, tail := if c.tail = x then 0 else c.tail,
               nNodes := c.nNodes - 1 } := by
  unfold removeNode
  by_cases hn : (c.node x).next = 0 <;> by_cases ht : c.tail = x <;>
    simp [hprev, hn, hhead, ht, setPrev, update_of_ne hne.symm]

theorem Holds.next_head_ne (h : c.Holds (x :: xs) S) : (c.node x).next ≠ x := by
  have hnext : (c.node x).next = xs.headD 0 := h.list.next_mem (l := [])
  rw [hnext]
  rcases xs with _ | ⟨z, zs⟩
  · exact fun he => h.list.null_notMem (he ▸ mem_cons_self)
  · exact fun he => (nodup_cons.mp h.list.nodup).1 (he ▸ mem_cons_self)

/-- An interval that is used up is taken out at the head. -/
theorem Inv.removeHead (h : c.Inv (x :: xs) S) (hx : (c.node x).nClusters = 0) :
    (c.removeNode x).Inv xs S := by
  have hprev : (c.node x).prev = 0 := h.list.prev_mem (l := [])
  have hhead : c.head = x := h.list.head_eq
  have heq := removeNode_head hprev hhead h.next_head_ne
  have hpos : ∀ y ∈ xs, y ≠ 0 := fun y hy he =>
    h.list.null_notMem (he ▸ mem_cons_of_mem _ hy)
  have hnode : ∀ y ∈ xs, (c.removeNode x).node y =
      if y = (c.node x).next then { c.node y with prev := 0 } else c.node y := by
    intro y hy
    rw [heq]
    show (if (c.node x).next = 0 then c.node else _) y = _
    by_cases hn : (c.node x).next = 0
    · rw [if_pos hn, hn, if_neg (hpos y hy)]
    · rw [if_neg hn, update_apply]
      by_cases hy' : y = (c.node x).next
      · rw [if_pos hy', if_pos hy', hy']
      · rw [if_neg hy', if_neg hy']
  have hspan : xs.map (c.removeNode x).span = xs.map c.span := by
    refine map_congr_left fun y hy => ?_
    rw [span, hnode y hy]
    split <;> rfl
  refine .of_covers ?_ ?_ ?_ fun y hy => ?_
  · rw [hspan, heq]
    exact h.covers.tail hx
  · have hnx : ∀ y ∈ [] ++ xs, ((c.removeNode x).node y).next =
        if y = (c.node x).prev then (c.node x).next else (c.node y).next := by
      intro y hy
      rw [hprev, if_neg (hpos y hy), hnode y hy]
      split <;> rfl
    have hpv : ∀ y ∈ [] ++ xs, ((c.removeNode x).node y).prev =
        if y = (c.node x).next then (c.node x).prev else (c.node y).prev := by
      intro y hy
      rw [hprev, hnode y hy]
      split <;> rfl
    have hlist := h.list.unlink (l := []) hnx hpv
    rw [if_pos hhead, hprev] at hlist
    rw [heq] at hlist ⊢
    exact hlist
  · have hcount := h.count
    rw [length_cons] at hcount
    rw [heq]
    show c.nNodes - 1 = _
    omega
  · rw [heq]
    exact h.bounded y (mem_cons_of_mem _ hy)

/-- The search along the back links. -/
theorem Inv.lastFit (h : c.Inv xs S) (n : ℕ) :
    c.lastFit n = some ((xs.reverse.find? fun x => decide (n ≤ (c.node x).nClusters)).getD 0) := by
  have hlen : xs.length ≤ c.fresh := by
    have hsub : xs.toFinset ⊆ Finset.Icc 1 c.fresh := by
      intro y hy
      rw [mem_toFinset] at hy
      have hy0 : y ≠ 0 := fun he => h.list.null_notMem (he ▸ hy)
      exact Finset.mem_Icc.mpr ⟨Nat.pos_of_ne_zero hy0, h.bounded y hy⟩
    have hcard := Finset.card_le_card hsub
    rwa [toFinset_card_of_nodup h.list.nodup, Nat.card_Icc, Nat.add_sub_cancel] at hcard
  have htail : c.tail = xs.reverse.headD 0 := by
    rw [h.list.tail_eq]
    simp [getLastD_eq_getLast?, headD_eq_head?_getD]
  unfold Cache.lastFit
  rw [htail]
  refine h.list.links.reverse.walk_eq (fun hm => h.list.null_notMem (mem_reverse.mp hm)) ?_
  rw [length_reverse]
  omega

/-- The search finds an interval of the list that is large enough, if it finds one. -/
theorem Inv.lastFit_cases (h : c.Inv xs S) (n : ℕ) :
    c.lastFit n = some 0 ∨
      ∃ x ∈ xs, c.lastFit n = some x ∧ x ≠ 0 ∧ n ≤ (c.node x).nClusters := by
  have hfit := h.lastFit n
  cases hfind : xs.reverse.find? fun x => decide (n ≤ (c.node x).nClusters) with
  | none =>
    rw [hfind] at hfit
    exact .inl hfit
  | some y =>
    rw [hfind] at hfit
    have hy : y ∈ xs := mem_reverse.mp (mem_of_find?_eq_some hfind)
    have hle := List.find?_some hfind
    exact .inr ⟨y, hy, hfit, fun he => h.list.null_notMem (he ▸ hy), of_decide_eq_true hle⟩

end Cache

/-! ### Allocating and freeing -/

section operations

variable {v : Volume} {c c' : Cache} {xs : List ℕ} {cluster n r : ℕ}

/-- The clusters that the table marks free. -/
def FreeIn (v : Volume) (d : Disk) (k : ℕ) : Prop := DataCluster v k ∧ d.entry v k = 0

/-- The entries of a chain of `n` clusters from `r` on. -/
def chainEntry (v : Volume) (r n k : ℕ) : ℕ := if k + 1 = r + n then v.fatType.endMark else k + 1

theorem chainEntry_ne_zero (v : Volume) (r n k : ℕ) : chainEntry v r n k ≠ 0 := by
  unfold chainEntry
  split
  · cases v.fatType <;> decide
  · exact Nat.succ_ne_zero k

/-- `n` clusters from `r` on were free and are now a chain. -/
structure Allocated (v : Volume) (d d' : Disk) (r n : ℕ) : Prop where
  free : ∀ k, (Span.mk r n).Has k → FreeIn v d k
  chain : ∀ k, (Span.mk r n).Has k → d'.entry v k = chainEntry v r n k
  others : ∀ k ≤ v.countofClusters + 1, ¬ (Span.mk r n).Has k → d'.entry v k = d.entry v k
  outside : SameOutside v d d'

/-- The entries of a chain, written by the loop and by `markEnd`. -/
theorem Wide.writeChain (hv : Wide v) (d : Disk) (hn : 1 ≤ n)
    (hr : r + n ≤ v.countofClusters + 2) :
    ∃ d₁ d₂, markEach (markAllocated v) d r n = some d₁ ∧
      markEnd v d₁ (u32 (r + u64sub n 1)) = some d₂ ∧ SameOutside v d d₂ ∧
      (∀ k, (Span.mk r n).Has k → d₂.entry v k = chainEntry v r n k) ∧
      ∀ k ≤ v.countofClusters + 1, ¬ (Span.mk r n).Has k → d₂.entry v k = d.entry v k := by
  have hlt := hv.lt
  obtain ⟨d₁, hd₁, hout₁, hent₁⟩ :=
    hv.exists_markEach (fun k => u32 (k + 1)) (fun _ _ => rfl) d fun _ => hr
  have hlast : u32 (r + u64sub n 1) = r + (n - 1) := by
    unfold u64sub u32
    omega
  have hk : r + (n - 1) ≤ v.countofClusters + 1 := by omega
  obtain ⟨d₂, hd₂, hout₂, hself, hother⟩ := hv.exists_markWith hk d₁ v.fatType.endMark
  have hend : v.fatType.endMark % 2 ^ v.fatType.bits = v.fatType.endMark := by
    cases v.fatType <;> rfl
  refine ⟨d₁, d₂, hd₁, by rw [hlast]; exact hd₂, hout₁.trans hout₂, fun k hin => ?_,
    fun k hk' hout => ?_⟩
  · obtain ⟨hlow, hhigh⟩ := hin
    simp only [Span.stop_mk] at hlow hhigh
    unfold chainEntry
    by_cases hkl : k = r + (n - 1)
    · rw [if_pos (by omega), hkl, hself, hend]
    · -- the next cluster has an entry too, so its number is not cut
      have hnext := (hv.inTable (k + 1) (by omega)).1
      rw [if_neg (by omega), hother k (by omega) hkl, hent₁ k (by omega), if_pos ⟨hlow, hhigh⟩,
        hv.u32_eq (by omega), Nat.mod_eq_of_lt hnext]
  · have hne : k ≠ r + (n - 1) := by
      rintro rfl
      exact hout (Span.has_last r (by omega))
    rw [hother k hk' hne, hent₁ k hk', if_neg (show ¬ (r ≤ k ∧ k < r + n) from hout)]

/-- Cutting off what was allocated leaves what the table still marks free. -/
theorem Allocated.freeIn_iff {d d' : Disk} (h : Allocated v d d' r n) (k : ℕ) :
    (FreeIn v d k ∧ ¬ (Span.mk r n).Has k) ↔ FreeIn v d' k := by
  constructor
  · rintro ⟨⟨hdata, hzero⟩, hout⟩
    exact ⟨hdata, (h.others k hdata.2 hout).trans hzero⟩
  · rintro ⟨hdata, hzero⟩
    have hout : ¬ (Span.mk r n).Has k := fun hin =>
      chainEntry_ne_zero v r n k ((h.chain k hin).symm.trans hzero)
    exact ⟨⟨hdata, (h.others k hdata.2 hout).symm.trans hzero⟩, hout⟩

/-- The call once an interval was found. -/
theorem allocateClusters_of_fit {x : ℕ} {c₂ : Cache} {d₁ d₂ : Disk}
    (hshort : ¬ c.freeClusterCount < n) (hlast : c.lastFit n = some x) (hx0 : x ≠ 0)
    (hc₂ : (if (c.node x).nClusters - n = 0
        then (c.setClusters x ((c.node x).nClusters - n)).removeNode x
        else c.setClusters x ((c.node x).nClusters - n)) = c₂)
    (hr : u32 ((c.node x).cluster + ((c.node x).nClusters - n)) = r)
    (hd₁ : markEach (markAllocated v) c₂.disk r n = some d₁)
    (hd₂ : markEnd v d₁ (u32 (r + u64sub n 1)) = some d₂) :
    allocateClusters v c n =
      some ({ c₂ with disk := d₂, freeClusterCount := c₂.freeClusterCount - n }, r) := by
  have hnode : (c.setClusters x ((c.node x).nClusters - n)).node x =
      { c.node x with nClusters := (c.node x).nClusters - n } := update_self ..
  unfold allocateClusters
  simp [if_neg hshort, hlast, if_neg hx0, hnode, hc₂, hr, hd₁, hd₂]

/-- Whether or not there is room, an allocation returns; a chain it returns was free. -/
theorem allocateClusters_spec (hv : Wide v) (h : c.Inv xs (FreeIn v c.disk)) (hn : 1 ≤ n)
    (hfit : ∀ x, c.lastFit n = some x → x ≠ 0 → (c.node x).nClusters = n →
      (c.node x).prev = 0) :
    ((c.freeClusterCount < n ∨ c.lastFit n = some 0) ∧
      allocateClusters v c n = some (c, uint32Max)) ∨
    ∃ c' r, allocateClusters v c n = some (c', r) ∧ Allocated v c.disk c'.disk r n ∧
      ∃ xs', c'.Inv xs' (FreeIn v c'.disk) := by
  by_cases hshort : c.freeClusterCount < n
  · exact .inl ⟨.inl hshort, if_pos hshort⟩
  rcases h.lastFit_cases n with hnone | ⟨x, hmem, hlast, hx0, hle⟩
  · refine .inl ⟨.inr hnone, ?_⟩
    unfold allocateClusters
    simp [hshort, hnone]
  right
  set left := (c.node x).nClusters - n with hleft
  set r := (c.node x).cluster + left with hr
  have hin : ∀ k, (Span.mk r n).Has k → FreeIn v c.disk k := by
    intro k hk
    refine (h.cover k).mp ⟨x, hmem, (Nat.le_add_right _ _).trans hk.1, hk.2.trans_le ?_⟩
    show r + n ≤ (c.node x).cluster + (c.node x).nClusters
    omega
  have hrn : r + n ≤ v.countofClusters + 2 := by
    have hlastc := (hin _ (Span.has_last r (by omega : n ≠ 0))).1.2
    omega
  have hu32 : u32 r = r := hv.u32_eq (by omega)
  obtain ⟨d₁, d₂, hd₁, hd₂, hout, hchain, hothers⟩ := hv.writeChain c.disk hn hrn
  have halloc : Allocated v c.disk d₂ r n := ⟨hin, hchain, hothers, hout⟩
  have hshrunk := (h.shrink hmem hle).congr halloc.freeIn_iff
  by_cases hleft0 : left = 0
  · -- the interval is used up; it is the first of the list
    obtain ⟨l, tl, hxs⟩ := append_of_mem hmem
    have hl : l = [] := by
      have hprev := hfit x hlast hx0 (by omega)
      rw [hxs] at h
      rw [h.list.prev_mem] at hprev
      by_contra hl
      exact h.list.null_notMem (mem_append_left _
        (hprev ▸ DLinked.IsList.getLastD_mem hl 0))
    rw [hxs, hl, nil_append] at hshrunk
    have hremoved := hshrunk.removeHead (by
      show (update c.node x _ x).nClusters = 0
      rw [update_self]
      exact hleft0)
    have hprev : ((c.setClusters x left).node x).prev = 0 := hshrunk.list.prev_mem (l := [])
    have hhead : (c.setClusters x left).head = x := hshrunk.list.head_eq
    have hne : ((c.setClusters x left).node x).next ≠ x := hshrunk.next_head_ne
    have hsmall := Cache.removeNode_head hprev hhead hne
    rw [Cache.removeNode_head (hshrunk.list.prev_mem (l := [])) hshrunk.list.head_eq
      hshrunk.next_head_ne] at hremoved
    exact ⟨_, r, allocateClusters_of_fit hshort hlast hx0 ((if_pos hleft0).trans hsmall) hu32 hd₁ hd₂,
      halloc, tl, hremoved.withDisk d₂⟩
  · exact ⟨_, r, allocateClusters_of_fit hshort hlast hx0 (if_neg hleft0) hu32 hd₁ hd₂, halloc, xs,
      hshrunk.withDisk d₂⟩

/-- `n` clusters from `cluster` on are free now. -/
structure Freed (v : Volume) (d d' : Disk) (cluster n : ℕ) : Prop where
  free : ∀ k, (Span.mk cluster n).Has k → d'.entry v k = 0
  others : ∀ k ≤ v.countofClusters + 1, ¬ (Span.mk cluster n).Has k → d'.entry v k = d.entry v k
  outside : SameOutside v d d'

/-- Clusters that `FreeClusters` can free: those of a chain that starts below the last two. -/
def Freeable (v : Volume) (d : Disk) (cluster n : ℕ) : Prop :=
  (∀ k, (Span.mk cluster n).Has k → DataCluster v k ∧ d.entry v k ≠ 0) ∧
    (n = 0 ∨ cluster < v.countofClusters)

theorem freeClusters_spec (hv : Wide v) (h : c.Inv xs (FreeIn v c.disk))
    (hfree : Freeable v c.disk cluster n) :
    ∃ c', freeClusters v c cluster n = some c' ∧ Freed v c.disk c'.disk cluster n ∧
      ∃ xs', c'.Inv xs' (FreeIn v c'.disk) := by
  obtain ⟨hin, hlast⟩ := hfree
  have hlt := hv.lt
  have hle : n ≠ 0 → cluster + n ≤ v.countofClusters + 2 := fun hn => by
    have := (hin _ (Span.has_last cluster hn)).1.2
    omega
  have hloop : (if isLastCluster v cluster = true then 0 else n) = n := by
    rcases hlast with rfl | hlast
    · exact ite_self 0
    · refine if_neg fun hh => ?_
      have := of_decide_eq_true hh
      omega
  have hu32 : u32 n = n := u32_of_lt (by omega)
  obtain ⟨d', hd', hout, hent⟩ := @Wide.exists_markEach v cluster n hv (markFree v) (fun _ => 0) (fun _ _ => rfl) c.disk hle
  simp only [Nat.zero_mod] at hent
  have hfreed : Freed v c.disk d' cluster n :=
    ⟨fun k hk => (hent k (hin k hk).1.2).trans (if_pos hk), fun k hk hno =>
      (hent k hk).trans (if_neg hno), hout⟩
  refine ⟨({ c with disk := d' } : Cache).appendNode cluster n, ?_, ?_, xs ++ [c.fresh + 1], ?_⟩
  · unfold freeClusters
    simp [hloop, hd', hu32]
  · rw [(Cache.appendNode_ends _ cluster n).2.2.2.2.2]
    exact hfreed
  · rw [(Cache.appendNode_ends _ cluster n).2.2.2.2.2]
    refine ((h.withDisk d').appendNode cluster n fun k hk hkn => (hin k hkn).2 hk.2).congr fun k => ?_
    constructor
    · rintro (⟨hdata, hzero⟩ | hk)
      · refine ⟨hdata, ?_⟩
        rw [hent k hdata.2]
        split
        · rfl
        · exact hzero
      · exact ⟨(hin k hk).1, hfreed.free k hk⟩
    · rintro ⟨hdata, hzero⟩
      by_cases hk : (Span.mk cluster n).Has k
      · exact .inr hk
      · exact .inl ⟨hdata, (hfreed.others k hdata.2 hk).symm.trans hzero⟩

/-- Marking the end of a chain leaves the same clusters free. -/
theorem markEnd_spec (hv : Wide v) (h : c.Inv xs (FreeIn v c.disk)) {k : ℕ}
    (hk : k ≤ v.countofClusters + 1) (hused : c.disk.entry v k ≠ 0) :
    ∃ d', markEnd v c.disk k = some d' ∧ SameOutside v c.disk d' ∧
      { c with disk := d' }.Inv xs (FreeIn v d') := by
  obtain ⟨d', hd', hout, hself, hother⟩ := hv.exists_markWith hk c.disk v.fatType.endMark
  have hne : d'.entry v k ≠ 0 := by
    rw [hself]
    cases v.fatType <;> decide
  refine ⟨d', hd', hout, (h.withDisk d').congr fun j => ?_⟩
  by_cases hj : j = k
  · subst hj
    exact ⟨fun hh => absurd hh.2 hused, fun hh => absurd hh.2 hne⟩
  · constructor
    · rintro ⟨hdata, hzero⟩
      exact ⟨hdata, (hother j hdata.2 hj).trans hzero⟩
    · rintro ⟨hdata, hzero⟩
      exact ⟨hdata, (hother j hdata.2 hj).symm.trans hzero⟩

/-- A truncation that frees allocated clusters, and keeps the last cluster of the rest. -/
def Truncatable (v : Volume) (d : Disk) (cluster new old : ℕ) : Prop :=
  new < old → cluster + old < 2 ^ 32 ∧ Freeable v d (cluster + old) (old - new) ∧
    (new ≠ 0 → DataCluster v (cluster + new - 1) ∧ d.entry v (cluster + new - 1) ≠ 0)

theorem truncateClusters_spec (hv : Wide v) (h : c.Inv xs (FreeIn v c.disk)) {new old : ℕ}
    (htrunc : Truncatable v c.disk cluster new old) :
    ∃ c', truncateClusters v c cluster new old = some c' ∧
      ∃ xs', c'.Inv xs' (FreeIn v c'.disk) := by
  unfold truncateClusters
  by_cases hle : old ≤ new
  · exact ⟨c, if_pos hle, xs, h⟩
  obtain ⟨hlt, hfree, hend⟩ := htrunc (by omega)
  obtain ⟨c₁, hc₁, hfreed, xs₁, h₁⟩ := freeClusters_spec hv h hfree
  rw [if_neg hle, u32_of_lt hlt, hc₁]
  by_cases hnew : new = 0
  · exact ⟨c₁, by simp [hnew], xs₁, h₁⟩
  obtain ⟨hdata, hused⟩ := hend hnew
  -- the last cluster that stays lies in front of what was freed
  have hkept : c₁.disk.entry v (cluster + new - 1) ≠ 0 := by
    rw [hfreed.others _ hdata.2]
    · exact hused
    · rintro ⟨hlow, -⟩
      simp only at hlow
      omega
  obtain ⟨d', hd', -, h'⟩ := markEnd_spec hv h₁ hdata.2 hkept
  refine ⟨{ c₁ with disk := d' }, ?_, xs₁, h'⟩
  simp [hnew, hv.u32_eq hdata.2, hd']

end operations

/-! ### The scan -/

section scan

variable {v : Volume} {d : Disk} {s : Scan} {k : ℕ}

/-- Where the sector with the entry of `k` starts. -/
def sectorPos (v : Volume) (k : ℕ) : ℕ := (getFatEntryAddrForCluster v k).lba * v.blkSize

/-- The readers of the driver see the entry. -/
theorem Wide.getEntry_eq_entry (hv : Wide v) (hk : k ≤ v.countofClusters + 1) (d : Disk) :
    getEntry v.fatType (readSector v d k) (getFatEntryAddrForCluster v k).offset k =
      d.entry v k := by
  rw [getEntry_eq, load_readSector hv.blocks (hv.inTable k hk), Disk.entry, formatEntry_eq]
  rcases hv.fatType with ht | ht <;> rw [ht] <;> rfl

/-- The buffer is that of the sector which the descriptor is at, and so the entry is read. -/
theorem Wide.isClusterFree (hv : Wide v) (hk : k ≤ v.countofClusters + 1) (sector : ByteMem)
    {e : Disk} (hbytes : e.bytes = d.bytes)
    (hbuf : e.offset = sectorPos v k → sector = readSector v d k) :
    Fat.isClusterFree v e k sector =
      some (⟨d.bytes, sectorPos v k⟩, readSector v d k, d.entry v k == 0) := by
  have hread : readSector v e k = readSector v d k := by
    unfold readSector Disk.fdSeek Disk.fdRead
    rw [hbytes]
  have hentry := hv.getEntry_eq_entry hk d
  by_cases hoff : e.offset = sectorPos v k
  · unfold Fat.isClusterFree
    rw [hbuf hoff]
    have hnot : ¬ e.offset ≠ (getFatEntryAddrForCluster v k).lba * v.blkSize := fun hne =>
      hne hoff
    simp only [if_neg hnot, if_pos (hv.fits hk), hentry, Disk.fdSeek, hbytes]
    rfl
  · rw [isClusterFree_of_moved hoff (hv.fits hk), hread, hentry]
    simp only [Disk.fdSeek, hbytes]
    rfl

/-- Where the run starts that the scan is in. -/
def Scan.start (s : Scan) (k : ℕ) : ℕ :=
  match s.curr with
  | none => k
  | some (a, _) => a

/-- In front of cluster `k`: the free clusters are those of the list and of the run. -/
structure ScanInv (v : Volume) (d : Disk) (k : ℕ) (s : Scan) : Prop where
  bytes : s.cache.disk.bytes = d.bytes
  buffer : s.cache.disk.offset = sectorPos v k → s.sector = readSector v d k
  list : ∃ xs, s.cache.Inv xs fun j => j < s.start k ∧ d.entry v j = 0
  run : ∀ a n, s.curr = some (a, n) → 0 < n ∧ a + n = k ∧ ∀ j, a ≤ j → j < k → d.entry v j = 0

/-- The run that ends in front of cluster `k` becomes an interval. -/
theorem ScanInv.endRun (h : ScanInv v d k s) {a n : ℕ} (hcurr : s.curr = some (a, n)) (e : Disk) :
    ∃ xs, ({ s.cache with disk := e }.appendNode a n).Inv xs fun j => j < k ∧ d.entry v j = 0 := by
  obtain ⟨xs, hlist⟩ := h.list
  obtain ⟨-, hsum, hall⟩ := h.run a n hcurr
  rw [show s.start k = a by rw [Scan.start, hcurr]] at hlist
  refine ⟨_, ((hlist.withDisk e).appendNode a n fun j hj hin => hj.1.not_ge hin.1).congr fun j => ?_⟩
  constructor
  · rintro (⟨hlt, hz⟩ | ⟨hlow, hhigh⟩)
    · exact ⟨by omega, hz⟩
    · rw [Span.stop_mk, hsum] at hhigh
      exact ⟨hhigh, hall j hlow hhigh⟩
  · rintro ⟨hlt, hz⟩
    by_cases hlow : a ≤ j
    · exact .inr ⟨hlow, hlt.trans_eq hsum.symm⟩
    · exact .inl ⟨by omega, hz⟩

theorem trimRun_of_lt {a n : ℕ} (h : a + n < v.countofClusters) : trimRun v a n = some n := by
  have hnot : ¬ isLastCluster v (a + n) = true := fun hh => by
    have := of_decide_eq_true hh
    omega
  cases n with
  | zero => exact if_neg hnot
  | succ n => exact if_neg hnot

theorem readSector_congr {j : ℕ} (h : sectorPos v j = sectorPos v k) :
    readSector v d j = readSector v d k := by
  show (fun i => d.bytes (sectorPos v j + i)) = fun i => d.bytes (sectorPos v k + i)
  rw [h]

theorem ScanInv.step (hv : Wide v) (h : ScanInv v d k s) (hk : k < v.countofClusters) :
    ∃ s', scanCluster v s k = some s' ∧ ScanInv v d (k + 1) s' := by
  have hread := hv.isClusterFree (by omega : k ≤ v.countofClusters + 1) s.sector h.bytes h.buffer
  obtain ⟨xs, hlist⟩ := h.list
  have hlist' := hlist.withDisk ⟨d.bytes, sectorPos v k⟩
  unfold scanCluster
  rw [hread]
  cases hfree : d.entry v k == 0 with
  | true =>
    have hzero : d.entry v k = 0 := eq_of_beq hfree
    cases hcurr : s.curr with
    | none =>
      -- a run starts here
      rw [Scan.start, hcurr] at hlist'
      refine ⟨_, rfl, rfl, readSector_congr, ⟨xs, hlist'⟩, fun a n hrun => ?_⟩
      cases hrun
      refine ⟨Nat.one_pos, rfl, fun j hlow hhigh => ?_⟩
      obtain rfl : j = k := by omega
      exact hzero
    | some run =>
      obtain ⟨a, n⟩ := run
      obtain ⟨hn, hsum, hall⟩ := h.run a n hcurr
      rw [Scan.start, hcurr] at hlist'
      refine ⟨_, rfl, rfl, readSector_congr, ⟨xs, hlist'⟩, fun a' n' hrun => ?_⟩
      cases hrun
      refine ⟨Nat.succ_pos n, by omega, fun j hlow hhigh => ?_⟩
      rcases Nat.lt_succ_iff_lt_or_eq.mp hhigh with hhigh | rfl
      · exact hall j hlow hhigh
      · exact hzero
  | false =>
    have hused : d.entry v k ≠ 0 := ne_of_beq_false hfree
    have hnext : ∀ j, (j < k ∧ d.entry v j = 0) ↔ (j < k + 1 ∧ d.entry v j = 0) := by
      intro j
      constructor
      · rintro ⟨hlt, hz⟩
        exact ⟨by omega, hz⟩
      · rintro ⟨hlt, hz⟩
        have hne : j ≠ k := fun he => hused (he ▸ hz)
        exact ⟨by omega, hz⟩
    cases hcurr : s.curr with
    | none =>
      rw [Scan.start, hcurr] at hlist'
      exact ⟨_, rfl, rfl, readSector_congr, ⟨xs, hlist'.congr hnext⟩, nofun⟩
    | some run =>
      obtain ⟨a, n⟩ := run
      obtain ⟨-, hsum, -⟩ := h.run a n hcurr
      obtain ⟨xs', hlist''⟩ := h.endRun hcurr ⟨d.bytes, sectorPos v k⟩
      have hdisk := (Cache.appendNode_ends
        { s.cache with disk := ⟨d.bytes, sectorPos v k⟩ } a n).2.2.2.2.2
      refine ⟨⟨({ s.cache with disk := ⟨d.bytes, sectorPos v k⟩ } : Cache).appendNode a n,
        readSector v d k, none⟩, ?_, ?_, ?_, ⟨xs', hlist''.congr hnext⟩, nofun⟩
      · simp [trimRun_of_lt (show a + n < v.countofClusters by omega)]
      · rw [hdisk]
      · rw [hdisk]
        exact readSector_congr

/-- The scan up to cluster `k`. -/
theorem exists_scan (hv : Wide v) (hoff : d.offset ≠ sectorPos v 0) (hk : k ≤ v.countofClusters) :
    ∃ s, (List.range k).foldlM (scanCluster v) ⟨.empty d, fun _ => 0, none⟩ = some s ∧
      ScanInv v d k s := by
  induction k with
  | zero =>
    refine ⟨_, rfl, rfl, fun he => absurd he hoff, ⟨[], ⟨?_, rfl, rfl, .nil, fun j => ?_⟩, nofun⟩,
      nofun⟩
    · exact DLinked.IsList.nil _ _ _
    · constructor
      · rintro ⟨x, hx, -⟩
        exact absurd hx not_mem_nil
      · rintro ⟨hlt, -⟩
        exact absurd hlt (Nat.not_lt_zero j)
  | succ k ih =>
    obtain ⟨s, hs, hinv⟩ := ih (by omega)
    obtain ⟨s', hs', hinv'⟩ := hinv.step hv (by omega)
    refine ⟨s', ?_, hinv'⟩
    rw [range_succ, foldlM_append, hs]
    simp [hs']

/-- The contents of a table that the scan can deal with: the clusters that are not scanned,
or that have no data, are not marked free; the first sector is still to be read. -/
structure Scannable (v : Volume) (d : Disk) : Prop where
  reserved : d.entry v 0 ≠ 0 ∧ d.entry v 1 ≠ 0
  unscanned : d.entry v v.countofClusters ≠ 0 ∧ d.entry v (v.countofClusters + 1) ≠ 0
  elsewhere : d.offset ≠ sectorPos v 0

theorem Scannable.freeIn_iff (h : Scannable v d) (k : ℕ) :
    (k < v.countofClusters ∧ d.entry v k = 0) ↔ FreeIn v d k := by
  obtain ⟨⟨h0, h1⟩, ⟨hc, hc'⟩, -⟩ := h
  constructor
  · rintro ⟨hlt, hz⟩
    have hne0 : k ≠ 0 := fun he => h0 (he ▸ hz)
    have hne1 : k ≠ 1 := fun he => h1 (he ▸ hz)
    exact ⟨⟨by omega, by omega⟩, hz⟩
  · rintro ⟨⟨hlow, hhigh⟩, hz⟩
    have hnec : k ≠ v.countofClusters := fun he => hc (he ▸ hz)
    have hnec' : k ≠ v.countofClusters + 1 := fun he => hc' (he ▸ hz)
    exact ⟨by omega, hz⟩

/-- The list that the scan builds. -/
theorem initialize_spec (hv : Wide v) (h : Scannable v d) :
    ∃ c, initializeCacheFreelist v d = some c ∧ c.disk.bytes = d.bytes ∧
      ∃ xs, c.Inv xs (FreeIn v c.disk) := by
  obtain ⟨s, hs, hinv⟩ := exists_scan hv h.elsewhere le_rfl
  obtain ⟨xs, hlist⟩ := hinv.list
  have hdisk : ∀ e : Disk, e.bytes = d.bytes → ∀ k, FreeIn v d k ↔ FreeIn v e k := by
    intro e he k
    unfold FreeIn Disk.entry
    rw [he]
  unfold initializeCacheFreelist
  rw [hs]
  cases hcurr : s.curr with
  | none =>
    rw [Scan.start, hcurr] at hlist
    refine ⟨s.cache, by simp [hcurr], hinv.bytes, xs, ?_⟩
    exact hlist.congr fun k => (h.freeIn_iff k).trans (hdisk _ hinv.bytes k)
  | some run =>
    obtain ⟨a, n⟩ := run
    obtain ⟨xs', hlist'⟩ := hinv.endRun hcurr s.cache.disk
    have hends := (s.cache.appendNode_ends a n).2.2.2.2.2
    have hbytes : (s.cache.appendNode a n).disk.bytes = d.bytes := by rw [hends, hinv.bytes]
    refine ⟨s.cache.appendNode a n, by simp [hcurr], hbytes, xs', hlist'.congr fun k => ?_⟩
    exact (h.freeIn_iff k).trans (hdisk _ hbytes k)

end scan

/-! ### Runs -/

section runs

variable {v : Volume} {d : Disk} {c : Cache}

/-- What an operation has to meet.  An allocation is of at least one cluster, and the last
interval with enough of them is the first of the list or has more; what is freed was
allocated. -/
def OpOk (v : Volume) (c : Cache) : Op → Prop
  | .allocate n => 1 ≤ n ∧ ∀ x, c.lastFit n = some x → x ≠ 0 → (c.node x).nClusters = n →
      (c.node x).prev = 0
  | .free cluster n => Freeable v c.disk cluster n
  | .truncate cluster new old => Truncatable v c.disk cluster new old

theorem step_spec (hv : Wide v) (c : Cache) (op : Op) (h : ∃ xs, c.Inv xs (FreeIn v c.disk))
    (hop : OpOk v c op) : ∃ c', step v c op = some c' ∧ ∃ xs, c'.Inv xs (FreeIn v c'.disk) := by
  obtain ⟨xs, h⟩ := h
  cases op with
  | allocate n =>
    rcases allocateClusters_spec hv h hop.1 hop.2 with ⟨-, hfull⟩ | ⟨c', r, hc', -, hinv⟩
    · exact ⟨c, by rw [step, hfull]; rfl, xs, h⟩
    · exact ⟨c', by rw [step, hc']; rfl, hinv⟩
  | free cluster n =>
    obtain ⟨c', hc', -, hinv⟩ := freeClusters_spec hv h hop
    exact ⟨c', hc', hinv⟩
  | truncate cluster new old => exact truncateClusters_spec hv h hop

/-- The free list is that of the table, after the scan and after every sequence of
operations that meet their conditions. -/
theorem mirrors_run (hv : Wide v) (h : Scannable v d) :
    ∃ c, initializeCacheFreelist v d = some c ∧ Mirrors v c ∧
      ∀ ops, Run.Meets (OpOk v) (step v) c ops →
        ∃ c', ops.foldlM (step v) c = some c' ∧ Mirrors v c' := by
  obtain ⟨c, hc, -, xs, hinv⟩ := initialize_spec hv h
  refine ⟨c, hc, ⟨xs, hinv.toHolds⟩, fun ops hops => ?_⟩
  obtain ⟨c', hc', xs', hinv'⟩ := Run.invariant (step_spec hv) ⟨xs, hinv⟩ hops
  exact ⟨c', hc', xs', hinv'.toHolds⟩

instance (v : Volume) (k : ℕ) : Decidable (DataCluster v k) := inferInstanceAs (Decidable (_ ∧ _))

instance (v : Volume) (d : Disk) (cluster n : ℕ) : Decidable (Freeable v d cluster n) :=
  decidable_of_iff ((∀ i < n, DataCluster v (cluster + i) ∧ d.entry v (cluster + i) ≠ 0) ∧
      (n = 0 ∨ cluster < v.countofClusters)) <| by
    refine and_congr_left fun _ => ⟨fun h k hk => ?_, fun h i hi => h _ ⟨Nat.le_add_right _ _, ?_⟩⟩
    · obtain ⟨i, rfl⟩ := Nat.exists_eq_add_of_le hk.1
      exact h i (Nat.lt_of_add_lt_add_left hk.2)
    · exact Nat.add_lt_add_left hi cluster

instance (v : Volume) (d : Disk) (cluster new old : ℕ) : Decidable (Truncatable v d cluster new old) :=
  inferInstanceAs (Decidable (_ → _))

instance (v : Volume) (c : Cache) : ∀ op, Decidable (OpOk v c op)
  | .allocate n =>
    decidable_of_iff (1 ≤ n ∧ ∀ x ∈ c.lastFit n, x ≠ 0 → (c.node x).nClusters = n →
      (c.node x).prev = 0) Iff.rfl
  | .free cluster n => inferInstanceAs (Decidable (Freeable v c.disk cluster n))
  | .truncate cluster new old => inferInstanceAs (Decidable (Truncatable v c.disk cluster new old))

/-- A volume with the data clusters 2 to 9, of which the last two are in use. -/
def eightClusters : Volume := { twoCopies with countofClusters := 8 }

def eightClustersDisk : Disk where
  bytes := fun x => if 512 ≤ x ∧ x < 516 ∨ 528 ≤ x ∧ x < 532 then 0xFF else 0
  offset := 0

def eightClustersCache : Cache :=
  (initializeCacheFreelist eightClusters eightClustersDisk).get (by decide +kernel)

theorem eightClustersCache_eq :
    initializeCacheFreelist eightClusters eightClustersDisk = some eightClustersCache :=
  (some_get _).symm

theorem eightClusters_wide : Wide eightClusters :=
  ⟨by decide, rfl, by decide, by decide, by decide⟩

theorem eightClusters_scannable : Scannable eightClusters eightClustersDisk :=
  ⟨by decide +kernel, by decide +kernel, by decide⟩

def eightClustersOps : List Op :=
  [.allocate 2, .allocate 1, .free 6 2, .truncate 5 1 1, .allocate 3]

theorem mirrors_run_eightClusters :
    ∃ c', eightClustersOps.foldlM (step eightClusters) eightClustersCache = some c' ∧
      Mirrors eightClusters c' := by
  obtain ⟨c, hc, -, hrun⟩ := mirrors_run eightClusters_wide eightClusters_scannable
  obtain rfl := Option.some.inj (eightClustersCache_eq.symm.trans hc)
  exact hrun _ (by decide +kernel)

/-- A FAT12 volume with the data clusters 2 to 5, none of which is in use. -/
def fourClusters : Volume := { packed 0 with countofClusters := 4 }

def fourClustersDisk : Disk where
  bytes := fun x => if x = 512 then 0xF8 else if x = 513 ∨ x = 514 then 0xFF else 0
  offset := 0

def fourClustersCache : Cache :=
  (initializeCacheFreelist fourClusters fourClustersDisk).get (by decide +kernel)

/-- The scan ends in front of the last two clusters. -/
theorem last_clusters_missing :
    (∀ k, DataCluster fourClusters k → fourClustersDisk.entry fourClusters k = 0) ∧
    initializeCacheFreelist fourClusters fourClustersDisk = some fourClustersCache ∧
    fourClustersCache.freeClusterCount = 2 ∧ ¬ Mirrors fourClusters fourClustersCache := by
  have hzero : ∀ k, DataCluster fourClusters k → fourClustersDisk.entry fourClusters k = 0 := by
    rintro k ⟨hlow, hhigh⟩
    have hle : k ≤ 5 := hhigh
    interval_cases k <;> decide +kernel
  refine ⟨hzero, (some_get _).symm, by decide +kernel, ?_⟩
  rintro ⟨xs, h⟩
  have hlen : xs.length ≤ 1 := by
    rw [← h.count]
    decide +kernel
  have hxs : [1] = xs := by
    rw [← h.list.toList_eq hlen]
    decide +kernel
  obtain ⟨x, hx, hk⟩ := (h.cover 4).mpr ⟨by decide, by decide +kernel⟩
  rw [← hxs, mem_singleton] at hx
  subst hx
  exact absurd hk.2 (by decide +kernel)

end runs

end Obos.Fat
