/-
The registry of interrupt objects over whole runs.

`Linked s xs` says that the list of every vector `v` is well linked and has the
nodes `xs v`; `Holds s ys` names only the objects on them.  `Objects` is what the
flags, the counts and the objects say about those lists; it is about the fields
alone, so that the steps of one registration can be followed in any order.

A node is linked at the end of a list with the `next` that its memory held, so a
list ends only when that is null.  A forced registration that moves the object of
a vector without sharing to an occupied vector makes that one a vector without
sharing too, and a refused registration by vector is counted.

* `moveFrom_spec` — the loop of a forced registration moves all objects,
* `registry_run` — the registry is right in every state of every run that avoids
  these,
* `dirty_node_unterminated` — one registration with a node that was not cleared.
-/
import Obos.Irq
import Obos.Lib.Run

namespace Obos.Irqs

open Function List
open KernelList (setAt setAt_of_ne_zero)

variable {s s' : State} {xs ys : ℕ → List ℕ} {v w n o obj fuel : ℕ}

/-! ### The lists -/

structure Linked (s : State) (xs : ℕ → List ℕ) : Prop where
  isLists : DLinked.IsLists s.next s.prev 0 (fun v => (s.vec v).head) (fun v => (s.vec v).tail) xs
  nNodes : ∀ v, (s.vec v).nNodes = (xs v).length
  old : ∀ v, ∀ n ∈ xs v, n < s.fresh
  fresh : 0 < s.fresh

/-- The memory of the next `k` nodes has a null pointer where their `next` will be. -/
def Clean (s : State) (k : ℕ) : Prop := ∀ i < k, s.next (s.fresh + i) = 0

instance (s : State) (k : ℕ) : Decidable (Clean s k) :=
  inferInstanceAs (Decidable (∀ i < k, _))

namespace Linked

variable (h : Linked s xs)
include h

theorem ne_zero (hn : n ∈ xs v) : n ≠ 0 :=
  fun h0 => h.isLists.null_notMem v (h0 ▸ hn)

theorem tail_lt (v : ℕ) : (s.vec v).tail < s.fresh := by
  by_cases h0 : (s.vec v).tail = 0
  · rw [h0]
    exact h.fresh
  · exact h.old v _ ((h.isLists.isList v).tail_mem h0)

theorem prev_lt (hn : n ∈ xs v) : s.prev n < s.fresh := by
  by_cases h0 : s.prev n = 0
  · rw [h0]
    exact h.fresh
  · exact h.old v _ ((h.isLists.isList v).prev_mem_of_ne hn h0)

theorem setAt_next_fresh {d e : ℕ} (hd : d < s.fresh) (i : ℕ) :
    setAt s.next d e (s.fresh + i) = s.next (s.fresh + i) := by
  have h0 := h.fresh
  rw [setAt_of_ne_zero (by omega), if_neg (by omega)]

/-- A node whose `next` happens to be null joins the list. -/
theorem append (hclean : s.next s.fresh = 0) (v o : ℕ) :
    Linked (appendIrqToVector s v o) (update xs v (xs v ++ [s.fresh])) := by
  have hout : ∀ w, s.fresh ∉ xs w := fun w hw => lt_irrefl _ (h.old w _ hw)
  have hne : ∀ w, ∀ y ∈ xs w, y ≠ s.fresh := fun w y hy he => hout w (he ▸ hy)
  have hold : ∀ w, ∀ y ∈ xs w, y < s.fresh + 1 := fun w y hy => Nat.lt_succ_of_lt (h.old w y hy)
  have h0 := h.fresh
  refine ⟨h.isLists.append hout h0.ne' (fun w y hy => ?_) (fun w y hy => ?_) ?_ ?_ ?_ ?_,
    fun w => ?_, ?_, ?_⟩
  · exact setAt_of_ne_zero (h.ne_zero hy)
  · exact update_of_ne (hne w y hy) _ _
  · have hkeep := h.setAt_next_fresh (e := s.fresh) (h.tail_lt v) 0
    rw [Nat.add_zero, hclean] at hkeep
    exact hkeep
  · exact update_self ..
  · exact funext (apply_update (fun _ => Vector.head) s.vec v _)
  · exact funext (apply_update (fun _ => Vector.tail) s.vec v _)
  · by_cases hw : w = v
    · subst hw
      simp [appendIrqToVector, h.nNodes w]
    · simp [appendIrqToVector, update_of_ne hw, h.nNodes w]
  · refine (forall_update_iff xs fun _ l => ∀ y ∈ l, y < s.fresh + 1).mpr
      ⟨forall_mem_append.mpr ⟨hold v, forall_mem_singleton.mpr (Nat.lt_succ_self _)⟩,
        fun w _ => hold w⟩
  · exact Nat.succ_pos _

theorem append_clean {k : ℕ} (hclean : Clean s (k + 1)) (v o : ℕ) :
    Clean (appendIrqToVector s v o) k := by
  intro i hi
  have hkeep := h.setAt_next_fresh (e := s.fresh) (h.tail_lt v) (i + 1)
  rw [hclean (i + 1) (by omega)] at hkeep
  show setAt s.next (s.vec v).tail s.fresh (s.fresh + 1 + i) = 0
  rw [show s.fresh + 1 + i = s.fresh + (i + 1) by omega]
  exact hkeep

theorem remove_links (hn : n ∈ xs v) :
    setAt s.prev (s.next n) (s.prev n) n = s.prev n ∧
      setAt s.next (s.prev n) (s.next n) n = s.next n := by
  have hprev : s.prev n ≠ n := (h.isLists.isList v).prev_ne hn
  constructor
  · rw [setAt_of_ne_zero (h.ne_zero hn)]
    split <;> rfl
  · rw [setAt_of_ne_zero (h.ne_zero hn), if_neg hprev.symm]

theorem remove {l r : List ℕ} (hv : xs v = l ++ n :: r) :
    Linked (removeIrqFromVector s v n) (update xs v (l ++ r)) := by
  have hn : n ∈ xs v := hv ▸ mem_append_right _ mem_cons_self
  obtain ⟨hprev, hnext⟩ := h.remove_links hn
  refine ⟨h.isLists.unlink hv (fun w y hy _ => ?_) (fun w y hy _ => ?_) ?_ ?_, fun w => ?_,
    ?_, h.fresh⟩
  · simp [removeIrqFromVector, hprev, setAt_of_ne_zero (h.ne_zero hy)]
  · simp [removeIrqFromVector, setAt_of_ne_zero (h.ne_zero hy)]
  · simp only [removeIrqFromVector, hprev, hnext]
    exact funext (apply_update (fun _ => Vector.head) s.vec v _)
  · simp only [removeIrqFromVector, hprev]
    exact funext (apply_update (fun _ => Vector.tail) s.vec v _)
  · by_cases hw : w = v
    · subst hw
      have hlen : (s.vec w).nNodes = (l ++ r).length + 1 := by
        rw [h.nNodes, hv, length_append, length_cons, length_append, Nat.add_assoc]
      simp only [removeIrqFromVector, update_self, hlen]
      rfl
    · simp [removeIrqFromVector, update_of_ne hw, h.nNodes w]
  · refine (forall_update_iff xs fun _ l => ∀ y ∈ l, y < s.fresh).mpr
      ⟨fun y hy => h.old v y ?_, fun w _ => h.old w⟩
    rw [hv]
    exact mem_append.mpr ((mem_append.mp hy).imp_right (mem_cons_of_mem _))

theorem remove_clean (hn : n ∈ xs v) {k : ℕ} (hclean : Clean s k) :
    Clean (removeIrqFromVector s v n) k := by
  intro i hi
  obtain ⟨hprev, -⟩ := h.remove_links hn
  show setAt s.next (setAt s.prev (s.next n) (s.prev n) n) (s.next n) (s.fresh + i) = 0
  rw [hprev, h.setAt_next_fresh (h.prev_lt hn), hclean i hi]

end Linked

/-! ### The objects on the lists -/

/-- The objects on each vector are `ys`, and the next `k` nodes are clean. -/
def Holds (s : State) (ys : ℕ → List ℕ) (k : ℕ) : Prop :=
  ∃ xs, Linked s xs ∧ Clean s k ∧ ∀ v, ys v = (xs v).map s.data

namespace Holds

variable {k : ℕ}

section

variable (h : Holds s ys k)
include h

theorem nNodes (v : ℕ) : (s.vec v).nNodes = (ys v).length := by
  obtain ⟨xs, hl, -, hys⟩ := h
  rw [hl.nNodes, hys, length_map]

/-- Fields other than the lists may change. -/
theorem same {irq : ℕ → Irq} {installed registered : ℕ → Bool} :
    Holds { s with irq := irq, installed := installed, registered := registered } ys k := by
  obtain ⟨xs, hl, hclean, hys⟩ := h
  exact ⟨xs, ⟨hl.isLists, hl.nNodes, hl.old, hl.fresh⟩, hclean, hys⟩

/-- A vector that keeps its list. -/
theorem setVec {x : Vector} (hhead : x.head = (s.vec v).head)
    (htail : x.tail = (s.vec v).tail) (hn : x.nNodes = (s.vec v).nNodes) :
    Holds (s.setVec v x) ys k := by
  obtain ⟨xs, hl, hclean, hys⟩ := h
  have hheads : (fun w => ((s.setVec v x).vec w).head) = fun w => (s.vec w).head :=
    funext (Update.keep Vector.head hhead)
  have htails : (fun w => ((s.setVec v x).vec w).tail) = fun w => (s.vec w).tail :=
    funext (Update.keep Vector.tail htail)
  refine ⟨xs, ⟨?_, fun w => (Update.keep Vector.nNodes hn w).trans (hl.nNodes w), hl.old, hl.fresh⟩,
    hclean, hys⟩
  rw [hheads, htails]
  exact hl.isLists

theorem setSharing (v : ℕ) (allow : Bool) : Holds (s.setSharing v allow) ys k :=
  h.setVec rfl rfl rfl

end

theorem append (h : Holds s ys (k + 1)) (v o : ℕ) :
    Holds (appendIrqToVector s v o) (update ys v (ys v ++ [o])) k := by
  obtain ⟨xs, hl, hclean, hys⟩ := h
  refine ⟨_, hl.append (hclean 0 (Nat.succ_pos k)) v o, hl.append_clean hclean v o, fun w => ?_⟩
  have hold : ∀ w, (xs w).map (appendIrqToVector s v o).data = ys w := by
    intro w
    rw [hys w]
    refine map_congr_left fun y hy => ?_
    exact update_of_ne (hl.old w y hy).ne _ _
  by_cases hw : w = v
  · subst hw
    rw [update_self, update_self, map_append, hold w]
    simp [appendIrqToVector]
  · rw [update_of_ne hw, update_of_ne hw, hold w]

/-- Take the node behind `l` off the list. -/
theorem remove {l r : List ℕ} (hl : Linked s xs) (hclean : Clean s k)
    (hys : ∀ v, ys v = (xs v).map s.data) (hv : xs v = l ++ n :: r) :
    Holds (removeIrqFromVector s v n) (update ys v (l.map s.data ++ r.map s.data)) k := by
  have hn : n ∈ xs v := hv ▸ mem_append_right _ mem_cons_self
  refine ⟨_, hl.remove hv, hl.remove_clean hn hclean, fun w => ?_⟩
  by_cases hw : w = v
  · subst hw
    rw [update_self, update_self, map_append]
    rfl
  · rw [update_of_ne hw, update_of_ne hw]
    exact hys w

/-- Take the first object off the list: the list then starts at its `next`. -/
theorem removeHead {r : List ℕ} (h : Holds s ys k) (hv : ys v = o :: r) :
    (s.vec v).head ≠ 0 ∧ s.data (s.vec v).head = o ∧
      Holds (removeIrqFromVector s v (s.vec v).head) (update ys v r) k ∧
      ((removeIrqFromVector s v (s.vec v).head).vec v).head = s.next (s.vec v).head := by
  obtain ⟨xs, hl, hclean, hys⟩ := h
  have hmap := (hys v).symm.trans hv
  obtain ⟨n, rest, hxs, rfl, rfl⟩ := map_eq_cons_iff.mp hmap
  have hhead : (s.vec v).head = n := by
    have := (hl.isLists.isList v).head_eq
    rw [hxs] at this
    exact this
  have hn : n ∈ xs v := hxs ▸ mem_cons_self
  rw [hhead]
  refine ⟨hl.ne_zero hn, rfl, ?_, ?_⟩
  · exact remove hl hclean hys (l := []) hxs
  · obtain ⟨hprev, hnext⟩ := hl.remove_links hn
    simp [removeIrqFromVector, hhead, hprev, hnext]

end Holds

/-! ### What the flags and counts say about the objects -/

/-- What holds of the sharing flags, the counts of objects that chose their vector, the
fields of the objects and the registered objects, when `ys v` are the objects on `v`. -/
structure Objects (allow : ℕ → Bool) (chosen : ℕ → ℕ) (irq : ℕ → Irq) (registered : ℕ → Bool)
    (ys : ℕ → List ℕ) : Prop where
  vector : ∀ v, ∀ o ∈ ys v, (irq o).vector = some v
  registered : ∀ o, registered o = true ↔ ∃ v, o ∈ ys v
  nodup : ∀ v, (ys v).Nodup
  alone : ∀ v, allow v = false → (ys v).length ≤ 1
  chosen : ∀ v, chosen v = (ys v).countP fun o => (irq o).choseVector

/-- The part about one vector, with the objects `l`. -/
structure OnVector (allow : Bool) (chosen : ℕ) (irq : ℕ → Irq) (v : ℕ) (l : List ℕ) : Prop where
  vector : ∀ o ∈ l, (irq o).vector = some v
  nodup : l.Nodup
  alone : allow = false → l.length ≤ 1
  chosen : chosen = l.countP fun o => (irq o).choseVector

theorem OnVector.congr {a a' : Bool} {c : ℕ} {irq irq' : ℕ → Irq} {l : List ℕ}
    (h : OnVector a c irq v l) (hirq : ∀ o ∈ l, irq' o = irq o) (ha : a' = false → a = false) :
    OnVector a' c irq' v l := by
  refine ⟨fun o ho => ?_, h.nodup, fun h' => h.alone (ha h'), h.chosen.trans ?_⟩
  · rw [hirq o ho]
    exact h.vector o ho
  · exact countP_congr fun o ho => by rw [hirq o ho]

namespace Objects

variable {allow allow' : ℕ → Bool} {chosen chosen' : ℕ → ℕ} {irq irq' : ℕ → Irq}
  {reg reg' : ℕ → Bool}

theorem row (h : Objects allow chosen irq reg ys) (v : ℕ) :
    OnVector (allow v) (chosen v) irq v (ys v) := ⟨h.vector v, h.nodup v, h.alone v, h.chosen v⟩

theorem of_row (h : ∀ v, OnVector (allow v) (chosen v) irq v (ys v))
    (hreg : ∀ o, reg o = true ↔ ∃ v, o ∈ ys v) : Objects allow chosen irq reg ys :=
  ⟨fun v => (h v).vector, hreg, fun v => (h v).nodup, fun v => (h v).alone, fun v => (h v).chosen⟩

section

variable (h : Objects allow chosen irq reg ys)
include h

theorem notMem (ho : reg o = false) (v : ℕ) : o ∉ ys v := by
  intro hv
  rw [(h.registered o).mpr ⟨v, hv⟩] at ho
  cases ho

theorem eq_of_mem (hv : o ∈ ys v) (hw : o ∈ ys w) : v = w :=
  Option.some.inj ((h.vector v o hv).symm.trans (h.vector w o hw))

/-- The fields of an object that is not registered do not matter. -/
theorem setIrq (ho : reg o = false) (x : Irq) :
    Objects allow chosen (update irq o x) reg ys :=
  .of_row (fun v => (h.row v).congr (fun p hp =>
    update_of_ne (fun he : p = o => h.notMem ho v (he ▸ hp)) _ _) id) h.registered

/-- A new object joins the vector `v`. -/
theorem add (ho : reg o = false) {c : Bool}
    (hirq : irq' = update irq o ⟨some v, c⟩)
    (hfree : allow' v = false → ys v = []) (hallow : ∀ w, w ≠ v → allow' w = allow w)
    (hchosen : ∀ w, chosen' w = if w = v ∧ c = true then chosen w + 1 else chosen w) :
    Objects allow' chosen' irq' (update reg o true)
      (update ys v (ys v ++ [o])) := by
  subst hirq
  have hbase := h.setIrq ho ⟨some v, c⟩
  have hself : update irq o (⟨some v, c⟩ : Irq) o = ⟨some v, c⟩ := update_self ..
  refine .of_row ((forall_update_iff ys fun w l =>
    OnVector (allow' w) (chosen' w) _ w l).mpr ⟨⟨?_, ?_, fun hv => ?_, ?_⟩, fun w hw => ?_⟩) fun p => ?_
  · refine forall_mem_append.mpr ⟨hbase.vector v, forall_mem_singleton.mpr ?_⟩
    rw [hself]
  · exact (h.nodup v).append (nodup_singleton o) (by simpa using h.notMem ho v)
  · rw [hfree hv]
    exact le_rfl
  · rw [hchosen v, countP_append, ← hbase.chosen v]
    cases c <;> simp
  · rw [hchosen w, if_neg fun hh => hw hh.1]
    exact (hbase.row w).congr (fun _ _ => rfl) fun h' => hallow w hw ▸ h'
  · rw [exists_update_iff ys fun _ l => p ∈ l]
    by_cases hp : p = o
    · subst hp
      exact iff_of_true (update_self ..) (.inl (by simp))
    · rw [update_of_ne hp, h.registered p, Update.exists_iff ys (fun _ l => p ∈ l) v]
      simp [hp]

end

/-- The lists after the objects of `src` were moved to `dst`. -/
def moved (ys : ℕ → List ℕ) (src dst : ℕ) : ℕ → List ℕ :=
  update (update ys src []) dst (ys dst ++ ys src)

theorem moved_src {src dst : ℕ} (hne : src ≠ dst) : moved ys src dst src = [] := by
  rw [moved, update_of_ne hne, update_self]

variable (h : Objects allow chosen irq reg ys)
include h

/-- All objects of `src`, none of which chose it, are moved to `dst`. -/
theorem move {src dst : ℕ} (hne : src ≠ dst)
    (hchose : ∀ o ∈ ys src, (irq o).choseVector = false)
    (hirq : ∀ o, irq' o = if o ∈ ys src then { irq o with vector := some dst } else irq o)
    (hone : allow' dst = false → (ys dst ++ ys src).length ≤ 1)
    (hallow : ∀ w, w ≠ src → w ≠ dst → allow' w = allow w) :
    Objects allow' chosen irq' reg (moved ys src dst) := by
  have hkeep : ∀ w, w ≠ src → ∀ p ∈ ys w, irq' p = irq p := by
    intro w hw p hp
    rw [hirq p, if_neg]
    exact fun hsrc => hw (h.eq_of_mem hp hsrc)
  have hmoved : ∀ p ∈ ys src, irq' p = { irq p with vector := some dst } := by
    intro p hp
    rw [hirq p, if_pos hp]
  have hdst := (h.row dst).congr (hkeep dst hne.symm) id
  have hzero : ∀ q : ℕ → Bool, (∀ o ∈ ys src, q o = false) → (ys src).countP q = 0 :=
    fun q hq => countP_eq_zero.mpr fun o ho => by simp [hq o ho]
  -- the objects on `dst`, on `src`, and on any other vector
  refine .of_row ((forall_update_iff _ fun w l =>
    OnVector (allow' w) (chosen w) irq' w l).mpr ⟨⟨?_, ?_, hone, ?_⟩,
      (forall_update_iff ys fun w l => w ≠ dst →
        OnVector (allow' w) (chosen w) irq' w l).mpr ⟨fun _ => ⟨nofun, .nil, ?_, ?_⟩,
          fun w hs hd => ?_⟩⟩) fun p => ?_
  · refine forall_mem_append.mpr ⟨hdst.vector, fun p hp => ?_⟩
    rw [hmoved p hp]
  · exact (h.nodup dst).append (h.nodup src) fun p hp hp' => hne (h.eq_of_mem hp' hp)
  · rw [countP_append, hzero, Nat.add_zero]
    · exact hdst.chosen
    · exact fun o ho => by rw [hmoved o ho]; exact hchose o ho
  · exact fun _ => Nat.zero_le 1
  · rw [h.chosen src, hzero _ hchose]
    rfl
  · exact (h.row w).congr (hkeep w hs) fun h' => hallow w hs hd ▸ h'
  · have hrest := Update.exists_iff ys (fun w l => w ≠ dst ∧ p ∈ l) src
    have hrest' := exists_update_iff ys (a := src) (b := []) fun w l => w ≠ dst ∧ p ∈ l
    rw [h.registered p, moved, exists_update_iff _ fun _ l => p ∈ l,
      Update.exists_iff ys (fun _ l => p ∈ l) dst, hrest, hrest']
    simp [hne, or_assoc]

/-- All objects of `v`, none of which chose it, make room for a new one. -/
theorem evict (ho : reg o = false) {c : Bool} {dst : ℕ}
    (hne : v ≠ dst) (hchose : ∀ p ∈ ys v, (irq p).choseVector = false)
    (hself : irq' o = ⟨some v, c⟩)
    (hirq : ∀ p, p ≠ o →
      irq' p = if p ∈ ys v then { irq p with vector := some dst } else irq p)
    (hone : allow' dst = false → (ys dst ++ ys v).length ≤ 1)
    (hallow : ∀ w, w ≠ v → w ≠ dst → allow' w = allow w)
    (hchosen : ∀ w, chosen' w = if w = v ∧ c = true then chosen w + 1 else chosen w) :
    Objects allow' chosen' irq' (update reg o true)
      (update (moved ys v dst) v [o]) := by
  have hmove := h.move hne hchose (fun _ => rfl) hone hallow
  have hfinal : irq' = update
      (fun p => if p ∈ ys v then { irq p with vector := some dst } else irq p) o ⟨some v, c⟩ := by
    funext p
    by_cases hp : p = o
    · rw [hp, update_self, hself]
    · rw [update_of_ne hp, hirq p hp]
  have hadd := hmove.add ho hfinal (fun _ => moved_src hne) (fun _ _ => rfl) hchosen
  rwa [moved_src hne] at hadd

/-- A registered object leaves its vector. -/
theorem remove {l r : List ℕ} (hv : ys v = l ++ o :: r)
    (x : Irq) (hallow : ∀ w, allow' w = false → allow w = false)
    (hchosen : ∀ w, chosen' w = if w = v ∧ (irq o).choseVector = true then chosen w - 1
      else chosen w) :
    Objects allow' chosen' (update irq o x) (update reg o false)
      (update ys v (l ++ r)) := by
  have hnd := h.nodup v
  rw [hv, nodup_middle, nodup_cons] at hnd
  have hin : o ∈ ys v := hv ▸ mem_append_right _ mem_cons_self
  have hout : ∀ w, o ∉ update ys v (l ++ r) w :=
    (forall_update_iff ys fun _ l => o ∉ l).mpr
      ⟨hnd.1, fun w hw hm => hw (h.eq_of_mem hm hin)⟩
  have hsame : ∀ w, ∀ p ∈ update ys v (l ++ r) w, update irq o x p = irq p :=
    fun w p hp => update_of_ne (fun he : p = o => hout w (he ▸ hp)) _ _
  have hon : ∀ w, OnVector (allow' w) (chosen' w) irq w (update ys v (l ++ r) w) := by
    refine (forall_update_iff ys fun w l => OnVector (allow' w) (chosen' w) irq w l).mpr
      ⟨⟨fun p hp => h.vector v p ?_, hnd.2, fun hv' => ?_, ?_⟩, fun w hw => ?_⟩
    · rw [hv]
      exact mem_append.mpr ((mem_append.mp hp).imp_right (mem_cons_of_mem _))
    · have hle := h.alone v (hallow v hv')
      rw [hv] at hle
      simp only [length_append, length_cons] at hle ⊢
      omega
    · rw [hchosen v, h.chosen v, hv]
      simp only [countP_append, countP_cons]
      cases (irq o).choseVector <;> simp
    · rw [hchosen w, if_neg fun hh => hw hh.1]
      exact (h.row w).congr (fun _ _ => rfl) (hallow w)
  refine .of_row (fun w => (hon w).congr (hsame w) id) fun p => ?_
  by_cases hp : p = o
  · subst hp
    rw [update_self]
    exact iff_of_false (by simp) fun ⟨w, hw⟩ => hout w hw
  · rw [update_of_ne hp, h.registered p, exists_update_iff ys fun _ l => p ∈ l,
      Update.exists_iff ys (fun _ l => p ∈ l) v, hv]
    simp [hp]

end Objects

/-! ### The operations -/

namespace State

def allow (s : State) (v : ℕ) : Bool := (s.vec v).allowWorkSharing

def chosen (s : State) (v : ℕ) : ℕ := (s.vec v).nIRQsWithChosenID

end State

theorem appendIrqToVector_flags (s : State) (v o : ℕ) :
    (appendIrqToVector s v o).allow = s.allow ∧ (appendIrqToVector s v o).chosen = s.chosen :=
  ⟨funext (Update.keep Vector.allowWorkSharing rfl), funext (Update.keep Vector.nIRQsWithChosenID rfl)⟩

theorem removeIrqFromVector_flags (s : State) (v n : ℕ) :
    (removeIrqFromVector s v n).allow = s.allow ∧ (removeIrqFromVector s v n).chosen = s.chosen :=
  ⟨funext (Update.keep Vector.allowWorkSharing rfl), funext (Update.keep Vector.nIRQsWithChosenID rfl)⟩

theorem setSharing_allow (s : State) (v w : ℕ) (b : Bool) :
    (s.setSharing v b).allow w = if w = v then b else s.allow w := by
  by_cases hw : w = v
  · subst hw
    simp [State.allow, State.setSharing, State.setVec]
  · simp [State.allow, State.setSharing, State.setVec, hw]

theorem setSharing_chosen (s : State) (v : ℕ) (b : Bool) :
    (s.setSharing v b).chosen = s.chosen :=
  funext (Update.keep Vector.nIRQsWithChosenID rfl)

theorem Holds.head_eq_zero {k : ℕ} (h : Holds s ys k) (hv : ys v = []) : (s.vec v).head = 0 := by
  obtain ⟨xs, hl, -, hys⟩ := h
  have hnil : xs v = [] := map_eq_nil_iff.mp ((hys v).symm.trans hv)
  exact (hl.isLists.isList v).head_eq_null_iff.mpr hnil

/-- The loop that moves the objects `r` of the vector `id` to the vector `dst`. -/
theorem moveFrom_spec {id dst k : ℕ} {r : List ℕ} (hne : id ≠ dst)
    (h : Holds s ys (r.length + k)) (hr : ys id = r)
    (hrun : moveFrom id dst fuel (s.vec id).head s = some s') :
    Holds s' (Objects.moved ys id dst) k ∧
      s'.allow = s.allow ∧ s'.chosen = s.chosen ∧ s'.registered = s.registered ∧
      ∀ o, s'.irq o = if o ∈ r then { s.irq o with vector := some dst } else s.irq o := by
  induction r generalizing s ys fuel with
  | nil =>
    rw [h.head_eq_zero hr] at hrun
    cases fuel with
    | zero => cases hrun
    | succ fuel =>
      obtain rfl : s = s' := Option.some.inj hrun
      refine ⟨?_, rfl, rfl, rfl, fun o => by simp⟩
      have hsame : Objects.moved ys id dst = ys := by
        rw [Objects.moved, hr, append_nil, ← hr, update_eq_self,
          update_eq_self]
      rw [hsame]
      simpa using h
  | cons o r ih =>
    obtain ⟨h0, hdata, hrem, hnext⟩ := h.removeHead hr
    cases fuel with
    | zero => cases hrun
    | succ fuel =>
      rw [moveFrom, if_neg h0, hdata] at hrun
      dsimp only at hrun
      have happ : Holds (appendIrqToVector (removeIrqFromVector s id (s.vec id).head) dst o)
          (update (update ys id r) dst (ys dst ++ [o])) (r.length + k) := by
        rw [length_cons, Nat.succ_add] at hrem
        have := hrem.append dst o
        rwa [update_of_ne hne.symm] at this
      generalize hs1 : (appendIrqToVector (removeIrqFromVector s id (s.vec id).head) dst o).setVector
        o dst = s1 at hrun
      have hirq1 : s1.irq = update s.irq o { s.irq o with vector := some dst } := by
        rw [← hs1]
        rfl
      have hflags1 : s1.allow = s.allow ∧ s1.chosen = s.chosen := by
        rw [← hs1]
        have ha := appendIrqToVector_flags (removeIrqFromVector s id (s.vec id).head) dst o
        have hb := removeIrqFromVector_flags s id (s.vec id).head
        exact ⟨ha.1.trans hb.1, ha.2.trans hb.2⟩
      have hreg1 : s1.registered = s.registered := by
        rw [← hs1]
        rfl
      have hhead1 : (s1.vec id).head = s.next (s.vec id).head := by
        rw [← hs1, ← hnext]
        simp [State.setVector, State.setIrq, appendIrqToVector, update_of_ne hne]
      have h1 : Holds s1 (update (update ys id r) dst (ys dst ++ [o]))
          (r.length + k) := by
        rw [← hs1]
        exact happ.same
      rw [← hhead1] at hrun
      obtain ⟨hh, ha, hc, hreg, hirq⟩ := ih h1
        (by rw [update_of_ne hne, update_self]) hrun
      refine ⟨?_, ha.trans hflags1.1, hc.trans hflags1.2, hreg.trans hreg1, fun p => ?_⟩
      · have hys : Objects.moved (update (update ys id r) dst (ys dst ++ [o])) id
            dst = Objects.moved ys id dst := by
          rw [Objects.moved, Objects.moved, update_self, update_of_ne hne,
            update_self, update_comm hne.symm, update_idem,
            update_idem, hr, append_assoc]
          rfl
        rwa [hys] at hh
      · rw [hirq p, hirq1]
        by_cases hp : p = o
        · subst hp
          simp
        · simp [hp]

/-! ### Registration -/

/-- The lists and the objects fit together. -/
def Good (s : State) (ys : ℕ → List ℕ) : Prop :=
  Holds s ys 0 ∧ Objects s.allow s.chosen s.irq s.registered ys

variable {id dst : ℕ} {allow force : Bool}

theorem Holds.of_clean {k : ℕ} (h : Holds s ys 0) (hclean : Clean s k) : Holds s ys k := by
  obtain ⟨xs, hl, -, hys⟩ := h
  exact ⟨xs, hl, hclean, hys⟩

/-- The fields of the object to be registered do not matter for the way it goes. -/
theorem Good.plan_setIrq (h : Good s ys) (ho : s.registered obj = false) (x : Irq) :
    plan (s.setIrq obj x) id allow force = plan s id allow force := by
  by_cases hnil : ys id = []
  · have hn : (s.vec id).nNodes = 0 := by rw [h.1.nNodes, hnil]; rfl
    simp [plan, State.setIrq, hn]
  · obtain ⟨o, r, hr⟩ := exists_cons_of_ne_nil hnil
    obtain ⟨-, hdata, -, -⟩ := h.1.removeHead hr
    have hne : s.data (s.vec id).head ≠ obj := by
      rw [hdata]
      rintro rfl
      exact h.2.notMem ho id (hr ▸ mem_cons_self)
    have hirq : (s.setIrq obj x).irq (s.data (s.vec id).head) = s.irq (s.data (s.vec id).head) :=
      update_of_ne hne _ _
    rw [plan, plan]
    simp only [show (s.setIrq obj x).vec = s.vec from rfl,
      show (s.setIrq obj x).data = s.data from rfl, hirq]
    rfl

/-- What must hold for a registration that goes this way: the nodes it allocates are
clean, a request for a vector is not refused, and the object of a vector without sharing
is moved to an empty vector. -/
def PlanOk (s : State) (id : ℕ) (chose : Bool) : Plan → Prop
  | .join => Clean s 1
  | .refuse => chose = false
  | .swap _ => Clean s 2
  | .move dst => Clean s ((s.vec id).nNodes + 1) ∧
    ((s.vec id).allowWorkSharing = true ∨ (s.vec dst).nNodes = 0)
  | .hang => True

instance (s : State) (id : ℕ) (chose : Bool) : ∀ p, Decidable (PlanOk s id chose p)
  | .join => inferInstanceAs (Decidable (Clean s 1))
  | .refuse => inferInstanceAs (Decidable (chose = false))
  | .swap _ => inferInstanceAs (Decidable (Clean s 2))
  | .move _ => inferInstanceAs (Decidable (_ ∧ _))
  | .hang => isTrue trivial

/-- The result of a registration that was not refused, up to the count of the objects
that chose their vector. -/
structure Registered (s s' : State) (obj id : ℕ) (ys' : ℕ → List ℕ) : Prop where
  holds : Holds s' ys' 0
  registered : s'.registered = s.registered
  vector : (s'.irq obj).vector = some id
  objects : ∀ chosen', (∀ w, chosen' w = if w = id ∧ (s.irq obj).choseVector = true then
      s.chosen w + 1 else s.chosen w) →
    Objects s'.allow chosen' s'.irq (update s.registered obj true) ys'
  chosen : s'.chosen = s.chosen

/-- Handlers do not matter. -/
theorem Registered.install {ys' : ℕ → List ℕ} (h : Registered s s' obj id ys') (i : ℕ → Bool) :
    Registered s { s' with installed := i } obj id ys' :=
  ⟨h.holds.same, h.registered, h.vector, h.objects,
    h.chosen⟩

theorem setVector_irq (s : State) (obj id : ℕ) :
    (s.setVector obj id).irq = update s.irq obj ⟨some id, (s.irq obj).choseVector⟩ := rfl

/-- The object joins the vector. -/
theorem Good.join (h : Good s ys) (ho : s.registered obj = false) (hclean : Clean s 1)
    (hfree : allow = false → ys id = []) :
    Registered s ((appendIrqToVector (s.setVector obj id) id obj).setSharing id allow) obj id
      (update ys id (ys id ++ [obj])) := by
  have hset : Holds (s.setVector obj id) ys 1 :=
    (h.1.of_clean hclean).same
  have hflags := appendIrqToVector_flags (s.setVector obj id) id obj
  refine ⟨(hset.append id obj).setSharing id allow, rfl, ?_, fun chosen' hchosen => ?_, ?_⟩
  · exact State.setVector_vector s obj id
  · refine h.2.add ho (c := (s.irq obj).choseVector) rfl (fun hid => hfree ?_) (fun w hw => ?_)
      hchosen
    · rwa [setSharing_allow, if_pos rfl] at hid
    · rw [setSharing_allow, if_neg hw, hflags.1]
      rfl
  · rw [setSharing_chosen, hflags.2]
    rfl

/-- The one object on the vector is moved to the empty vector `dst`. -/
theorem Good.swap (h : Good s ys) (ho : s.registered obj = false) (hclean : Clean s 2)
    (allow : Bool) {cur : ℕ} (hid : ys id = [cur]) (hdst : ys dst = [])
    (hchose : (s.irq cur).choseVector = false) :
    let p := removeIrqFromVector (s.setVector obj id) id (s.vec id).head
    let p := appendIrqToVector (appendIrqToVector p dst cur) id obj
    let p := (p.setVector cur dst).setSharing dst ((p.setVector cur dst).vec id).allowWorkSharing
    Registered s (p.setSharing id allow) obj id
      (update (Objects.moved ys id dst) id [obj]) := by
  have hne : id ≠ dst := by
    rintro rfl
    rw [hdst] at hid
    cases hid
  have hco : cur ≠ obj := by
    rintro rfl
    exact h.2.notMem ho id (hid ▸ mem_cons_self)
  intro p1 p3 p5
  have hset : Holds (s.setVector obj id) ys 2 :=
    (h.1.of_clean hclean).same
  have h1 : Holds p1 (update ys id []) 2 := (hset.removeHead hid).2.2.1
  have h2 := h1.append dst cur
  rw [update_of_ne hne.symm] at h2
  have h3 := h2.append id obj
  rw [← hid, ← Objects.moved, Objects.moved_src hne, nil_append] at h3
  have h4 : Holds (p3.setVector cur dst) _ 0 :=
    h3.same
  have hflags : p3.allow = s.allow ∧ p3.chosen = s.chosen := by
    have ha := appendIrqToVector_flags (appendIrqToVector p1 dst cur) id obj
    have hb := appendIrqToVector_flags p1 dst cur
    have hc := removeIrqFromVector_flags (s.setVector obj id) id (s.vec id).head
    exact ⟨ha.1.trans (hb.1.trans hc.1), ha.2.trans (hb.2.trans hc.2)⟩
  have hirq : (p5.setSharing id allow).irq = update (s.setVector obj id).irq cur
      { (s.setVector obj id).irq cur with vector := some dst } := rfl
  refine ⟨(h4.setSharing dst _).setSharing id allow, rfl, ?_, fun chosen' hchosen => ?_, ?_⟩
  · rw [hirq, update_of_ne (Ne.symm hco)]
    exact State.setVector_vector s obj id
  · refine h.2.evict ho (c := (s.irq obj).choseVector) hne ?_ ?_ (fun p hp => ?_) (fun _ => ?_)
      (fun w h1 h2 => ?_) hchosen
    · intro p hp
      rw [hid, mem_singleton] at hp
      rw [hp, hchose]
    · rw [hirq, update_of_ne (Ne.symm hco), setVector_irq, update_self]
    · rw [hirq, setVector_irq, hid]
      by_cases hpc : p = cur
      · subst hpc
        rw [update_self, update_of_ne hp, if_pos mem_cons_self]
      · rw [update_of_ne hpc, update_of_ne hp, if_neg (by simpa using hpc)]
    · rw [hdst, hid]
      exact le_rfl
    · rw [setSharing_allow, if_neg h1, setSharing_allow, if_neg h2]
      exact congrFun hflags.1 w
  · rw [setSharing_chosen, setSharing_chosen]
    exact hflags.2

/-- All objects of the vector are moved to `dst`. -/
theorem Good.moveAll (h : Good s ys) (ho : s.registered obj = false)
    (hclean : Clean s ((ys id).length + 1)) (hne : id ≠ dst)
    (hchose : ∀ o ∈ ys id, (s.irq o).choseVector = false)
    (hone : s.allow id = false → (ys dst ++ ys id).length ≤ 1) {p : State}
    (hp : moveFrom id dst fuel ((s.setVector obj id).vec id).head (s.setVector obj id) = some p) :
    let q := (p.setSharing dst (p.vec id).allowWorkSharing).setSharing id false
    Registered s (appendIrqToVector q id obj) obj id
      (update (Objects.moved ys id dst) id [obj]) := by
  intro q
  have hset : Holds (s.setVector obj id) ys ((ys id).length + 1) :=
    (h.1.of_clean hclean).same
  obtain ⟨hh, hallow, hchosen, hreg, hirq⟩ := moveFrom_spec hne hset rfl hp
  have hq : Holds q (Objects.moved ys id dst) 1 := (hh.setSharing dst _).setSharing id false
  have happ := hq.append id obj
  rw [Objects.moved_src hne, nil_append] at happ
  have hflags := appendIrqToVector_flags q id obj
  have hobj : obj ∉ ys id := h.2.notMem ho id
  refine ⟨happ, hreg, ?_, fun chosen' hchosen' => ?_, ?_⟩
  · show (p.irq obj).vector = some id
    rw [hirq obj, if_neg hobj]
    exact State.setVector_vector s obj id
  · refine h.2.evict ho (c := (s.irq obj).choseVector) hne hchose ?_ (fun o hoo => ?_) (fun hd => ?_)
      (fun w h1 h2 => ?_) hchosen'
    · show p.irq obj = _
      rw [hirq obj, if_neg hobj, setVector_irq, update_self]
    · show p.irq o = _
      rw [hirq o, setVector_irq, update_of_ne hoo]
    · refine hone ?_
      rw [hflags.1, setSharing_allow, if_neg hne.symm, setSharing_allow, if_pos rfl] at hd
      exact (congrFun hallow id).symm.trans hd
    · rw [hflags.1, setSharing_allow, if_neg h1, setSharing_allow, if_neg h2]
      exact congrFun hallow w
  · rw [hflags.2, setSharing_chosen, setSharing_chosen]
    exact hchosen

theorem Good.nil_of_nNodes (h : Good s ys) (hn : (s.vec v).nNodes = 0) : ys v = [] := by
  rw [h.1.nNodes] at hn
  exact length_eq_zero_iff.mp hn

/-- What the ways that move objects were chosen for. -/
theorem plan_cases (s : State) (id : ℕ) (allow force : Bool) :
    match plan s id allow force with
    | .join => allow = true ∨ (s.vec id).nNodes = 0
    | .swap dst => (s.vec id).nNodes ≠ 0 ∧ s.allow id = false ∧ (s.vec dst).nNodes = 0 ∧
      (s.irq (s.data (s.vec id).head)).choseVector = false
    | .move dst => id ≠ dst ∧ s.chosen id = 0
    | _ => True := by
  simp only [plan]
  split_ifs with hjoin hforce hshare hhead hchose hchosen
  · rw [Bool.or_eq_true, Bool.and_eq_true, beq_iff_eq] at hjoin
    exact hjoin.imp_left And.left
  · trivial
  · trivial
  · trivial
  · cases hfound : findEmpty s (irqlToVectorId (vectorIdToIrql id)) with
    | none => trivial
    | some dst =>
      have hempty := List.find?_some hfound
      refine ⟨fun h0 => hjoin (by simp [h0]), ?_, by simpa using hempty, by simpa using hchose⟩
      simpa [State.allow] using (Bool.and_eq_true_iff.mp hshare).2
  · trivial
  · cases hfound : findVector s (irqlToVectorId (vectorIdToIrql id)) allow (some id) with
    | none => trivial
    | some dst =>
      have hother := List.find?_some hfound
      simp only [Bool.and_eq_true, bne_iff_ne, ne_eq, Option.some.injEq] at hother
      exact ⟨hother.1, not_not.mp hchosen⟩

theorem Good.of_plan_join (h : Good s ys) (hp : plan s id allow force = .join) :
    allow = false → ys id = [] := by
  have hcases := plan_cases s id allow force
  rw [hp] at hcases
  rintro rfl
  exact h.nil_of_nNodes (hcases.resolve_left nofun)

theorem Good.of_plan_swap (h : Good s ys) (hp : plan s id allow force = .swap dst) :
    ∃ cur, ys id = [cur] ∧ s.data (s.vec id).head = cur ∧ ys dst = [] ∧
      (s.irq cur).choseVector = false := by
  have hcases := plan_cases s id allow force
  rw [hp] at hcases
  obtain ⟨hn, hallow, hdst, hchose⟩ := hcases
  -- the vector has an object, and only one
  have hone := h.2.alone id hallow
  rw [h.1.nNodes] at hn
  obtain ⟨cur, hcur⟩ := length_eq_one_iff.mp (by omega : (ys id).length = 1)
  obtain ⟨-, hdata, -, -⟩ := h.1.removeHead hcur
  exact ⟨cur, hcur, hdata, h.nil_of_nNodes hdst, hdata ▸ hchose⟩

theorem Good.of_plan_move (h : Good s ys) (hp : plan s id allow force = .move dst) :
    id ≠ dst ∧ ∀ o ∈ ys id, (s.irq o).choseVector = false := by
  have hcases := plan_cases s id allow force
  rw [hp] at hcases
  refine ⟨hcases.1, fun o ho => ?_⟩
  have hzero := (h.2.chosen id).symm.trans hcases.2
  simpa using countP_eq_zero.mp hzero o ho

/-- `register_irq_vector` registers the object, or it refuses. -/
theorem Good.registerIrqVector {st : Status} (h : Good s ys) (ho : s.registered obj = false)
    (hok : PlanOk s id (s.irq obj).choseVector (plan s id allow force))
    (hrun : registerIrqVector fuel s obj id allow force = some (s', st)) :
    (st = .success ∧ ∃ ys', Registered s s' obj id ys') ∨
      (st = .inUse ∧ s' = s.setVector obj id ∧ (s.irq obj).choseVector = false) := by
  have hplan : plan (s.setVector obj id) id allow force = plan s id allow force :=
    h.plan_setIrq ho _
  rw [Irqs.registerIrqVector] at hrun
  simp only [hplan] at hrun
  cases hp : plan s id allow force with
  | join =>
    rw [hp] at hrun hok
    simp only [registerIrqVectorHandler_eq, Option.some.injEq, Prod.mk.injEq] at hrun
    obtain ⟨rfl, rfl⟩ := hrun
    exact .inl ⟨rfl, _, (h.join ho hok (h.of_plan_join hp)).install _⟩
  | refuse =>
    rw [hp] at hrun hok
    simp only [Option.some.injEq, Prod.mk.injEq] at hrun
    exact .inr ⟨hrun.2.symm, hrun.1.symm, hok⟩
  | swap dst =>
    rw [hp] at hrun hok
    obtain ⟨cur, hid, hdata, hdst, hchose⟩ := h.of_plan_swap hp
    have hswap := h.swap ho hok allow hid hdst hchose
    rw [← hdata] at hswap
    simp only [registerBoth_eq, Option.some.injEq, Prod.mk.injEq] at hrun
    obtain ⟨rfl, rfl⟩ := hrun
    exact .inl ⟨rfl, _, hswap.install _⟩
  | move dst =>
    rw [hp] at hrun hok
    obtain ⟨hne, hchose⟩ := h.of_plan_move hp
    obtain ⟨p, hmove, heq⟩ := Option.map_eq_some_iff.mp hrun
    simp only [registerBoth_eq, Prod.mk.injEq] at heq
    obtain ⟨rfl, rfl⟩ := heq
    have hclean : Clean s ((ys id).length + 1) := by
      rw [← h.1.nNodes]
      exact hok.1
    have hone : s.allow id = false → (ys dst ++ ys id).length ≤ 1 := by
      intro hallow
      have hdst := h.nil_of_nNodes (hok.2.resolve_left (by simpa [State.allow] using hallow))
      rw [hdst]
      exact h.2.alone id hallow
    exact .inl ⟨rfl, _, (h.moveAll ho hclean hne hchose hone hmove).install _⟩
  | hang =>
    rw [hp] at hrun
    cases hrun

/-! ### The calls -/

inductive Op where
  | register (obj : ℕ) (allow force : Bool) (req : Request)
  | free (obj : ℕ)

def step (fuel : ℕ) (s : State) : Op → Option State
  | .register obj allow force req => (register fuel s obj allow force req).map Prod.fst
  | .free obj => (irqObjectFree fuel s obj).map Prod.fst

instance (obj : ℕ) : DecidablePred (Request.Invalid obj)
  | .irql _ => inferInstanceAs (Decidable (_ ∨ _))
  | .vector _ => inferInstanceAs (Decidable (_ ∨ _))

def OpOk (s : State) : Op → Prop
  | .register obj allow force req =>
    (s.irqInterfaceInitialized = false ∨ req.Invalid obj ∨ (s.irq obj).vector.isSome = true) ∨
      ∀ id ∈ target s allow req, PlanOk s id req.chose (plan s id allow force)
  | .free obj => (s.irq obj).vector = none ∨ s.registered obj = true

instance (s : State) : ∀ op, Decidable (OpOk s op)
  | .register _ _ _ _ => inferInstanceAs (Decidable ((_ ∨ _ ∨ _) ∨ ∀ id ∈ target _ _ _, _))
  | .free _ => inferInstanceAs (Decidable (_ ∨ _))

/-- An object without a vector is not registered. -/
theorem Good.unregistered (h : Good s ys) (hnone : (s.irq obj).vector.isSome ≠ true) :
    s.registered obj = false := by
  by_contra hreg
  obtain ⟨v, hv⟩ := (h.2.registered obj).mp (by simpa using hreg)
  rw [h.2.vector v obj hv] at hnone
  exact hnone rfl

theorem Good.setIrq (h : Good s ys) (ho : s.registered obj = false) (x : Irq) :
    Good (s.setIrq obj x) ys :=
  ⟨h.1.same, h.2.setIrq ho x⟩

theorem Good.clean_setIrq {p : Plan} {c : Bool} (hok : PlanOk s id c p) (x : Irq) :
    PlanOk (s.setIrq obj x) id c p := by
  cases p <;> exact hok

/-- A registered object, noted, without a vector of its own choice. -/
theorem Registered.good {ys' : ℕ → List ℕ} (h : Registered s s' obj id ys')
    (hc : (s.irq obj).choseVector = false) :
    Good { s' with registered := update s'.registered obj true } ys' := by
  refine ⟨h.holds.same, ?_⟩
  have hobj := h.objects s'.chosen fun w => by simp [hc, h.chosen]
  rw [← h.registered] at hobj
  exact hobj

/-- A registered object that chose its vector is counted. -/
theorem Registered.good_chosen {ys' : ℕ → List ℕ} (h : Registered s s' obj id ys')
    (hc : (s.irq obj).choseVector = true) :
    Good { countChosen s' obj with
      registered := update (countChosen s' obj).registered obj true } ys' := by
  have hcount : countChosen s' obj = s'.setVec id
      { s'.vec id with nIRQsWithChosenID := (s'.vec id).nIRQsWithChosenID + 1 } := by
    rw [countChosen, h.vector]
  rw [hcount]
  refine ⟨?_, ?_⟩
  · refine Holds.same (s := s'.setVec id _) ?_
    exact h.holds.setVec rfl rfl rfl
  have hobj := h.objects (update s'.chosen id (s'.chosen id + 1)) fun w => ?_
  · rw [← h.registered] at hobj
    refine ⟨hobj.vector, hobj.registered, hobj.nodup, fun v hv => hobj.alone v ?_, fun v => ?_⟩
    · rw [← hv]
      refine (Update.keep Vector.allowWorkSharing ?_ v).symm
      rfl
    · exact (apply_update (fun _ => Vector.nIRQsWithChosenID) s'.vec id _ v).trans
        (hobj.chosen v)
  · rw [← h.chosen, update_apply]
    by_cases hw : w = id
    · rw [if_pos hw, if_pos ⟨hw, hc⟩, hw]
    · rw [if_neg hw, if_neg fun hh => hw hh.1]

/-- The part that the two registering functions share, with the note whether the object
chose its vector. -/
theorem Good.registerAs {st : Status} (h : Good s ys) (hnone : (s.irq obj).vector.isSome ≠ true)
    {c : Bool} (hok : PlanOk s id c (plan s id allow force))
    (hrun : Irqs.registerIrqVector fuel (s.setIrq obj { s.irq obj with choseVector := c }) obj id
      allow force = some (s', st)) :
    (st = .success ∧ ∃ s₀ ys', (s₀.irq obj).choseVector = c ∧ Registered s₀ s' obj id ys') ∨
      (st = .inUse ∧ c = false ∧ Good s' ys) := by
  have ho := h.unregistered hnone
  have hgood := h.setIrq ho { s.irq obj with choseVector := c }
  have hself : ((s.setIrq obj { s.irq obj with choseVector := c }).irq obj).choseVector = c := by
    simp [State.setIrq]
  have hplan : PlanOk (s.setIrq obj { s.irq obj with choseVector := c }) id
      ((s.setIrq obj { s.irq obj with choseVector := c }).irq obj).choseVector
      (plan (s.setIrq obj { s.irq obj with choseVector := c }) id allow force) := by
    rw [h.plan_setIrq ho, hself]
    exact Good.clean_setIrq hok _
  rcases hgood.registerIrqVector ho hplan hrun with ⟨rfl, ys', hr⟩ | ⟨rfl, rfl, hrefused⟩
  · exact .inl ⟨rfl, _, ys', hself, hr⟩
  · exact .inr ⟨rfl, hself.symm.trans hrefused, hgood.setIrq ho _⟩

theorem Good.register {req : Request} {st : Status} (h : Good s ys)
    (hok : OpOk s (.register obj allow force req))
    (hrun : register fuel s obj allow force req = some (s', st)) : ∃ ys', Good s' ys' := by
  obtain ⟨-, rfl⟩ | ⟨hr, id, hid, ⟨s₁, st₁⟩, hreg, hnote⟩ := register_cases hrun rfl
  · exact ⟨ys, h⟩
  have hnone : (s.irq obj).vector.isSome ≠ true := fun h2 => hr (.inr (.inr h2))
  rcases h.registerAs hnone (hok.resolve_left hr id hid) hreg with
    ⟨rfl, s₀, ys', hc, hdone⟩ | ⟨rfl, hc, hgood⟩
  · rw [noteRegistered, if_pos rfl] at hnote
    cases hnote
    cases req with
    | irql => exact ⟨ys', hdone.good hc⟩
    | vector => exact ⟨ys', hdone.good_chosen hc⟩
  · rw [hc, noteRegistered, if_neg (by simp)] at hnote
    cases hnote
    exact ⟨ys, hgood⟩

/-- The node that is taken off is the object's. -/
theorem Good.findNode (h : Good s ys) (hl : Linked s xs) (hys : ∀ v, ys v = (xs v).map s.data)
    (hv : obj ∈ ys v) (hn : findNode fuel s obj v = some n) (h0 : n ≠ 0) :
    n ∈ xs v ∧ s.data n = obj := by
  have hlist := hl.isLists.isList v
  rw [Irqs.findNode] at hn
  split at hn
  · constructor
    · refine hlist.mem_of_walk (fun hne => ?_) hn h0
      have hne' : xs v ≠ [] := fun hnil => hne (hlist.head_eq_null_iff.mpr hnil)
      rw [hlist.head_eq]
      exact DLinked.headD_mem hne' 0
    · simpa using DLinked.pred_of_walk hn h0
  · next hshare =>
    -- the only object on the vector is this one
    have hone := h.2.alone v (by simpa [State.allow] using hshare)
    have hsingle : ys v = [obj] := by
      have hpos := length_pos_of_mem hv
      obtain ⟨o, ho⟩ := length_eq_one_iff.mp (by omega : (ys v).length = 1)
      rw [ho, mem_singleton] at hv
      rw [ho, hv]
    obtain ⟨m, hm, hdata⟩ := map_eq_singleton_iff.mp ((hys v).symm.trans hsingle)
    have hhead : (s.vec v).head = m := by
      have := hlist.head_eq
      rw [hm] at this
      exact this
    obtain rfl : m = n := hhead.symm.trans (Option.some.inj hn)
    exact ⟨hm ▸ mem_cons_self, hdata⟩

/-- The flags of a vector that an object leaves. -/
theorem leaveVector_flags (h : Good s ys) (hv : obj ∈ ys v) (n : ℕ) :
    (∀ w, (leaveVector s obj v n).allow w = false → s.allow w = false) ∧
      ∀ w, (leaveVector s obj v n).chosen w =
        if w = v ∧ (s.irq obj).choseVector = true then s.chosen w - 1 else s.chosen w := by
  have hflags := removeIrqFromVector_flags s v n
  have hirq : (removeIrqFromVector s v n).irq = s.irq := rfl
  constructor
  · intro w hw
    rw [← hflags.1]
    by_cases hwv : w = v
    · subst hwv
      simp only [leaveVector, State.allow, State.setVec, update_self] at hw ⊢
      split at hw
      · cases hw
      · exact hw
    · simpa [leaveVector, State.allow, State.setVec, hwv] using hw
  · intro w
    rw [← hflags.2]
    by_cases hwv : w = v
    · subst hwv
      have hx : ∀ x : Vector, (if x.nNodes = 0 then
          { x with allowWorkSharing := true, irqObjectsCapacity := 16 } else x).nIRQsWithChosenID =
          x.nIRQsWithChosenID := by
        intro x
        split <;> rfl
      simp only [leaveVector, State.chosen, State.setVec, update_self, hx, true_and, hirq]
      split
      · next hchose =>
        have hpos : 0 < ((removeIrqFromVector s w n).vec w).nIRQsWithChosenID := by
          show 0 < (removeIrqFromVector s w n).chosen w
          rw [hflags.2, h.2.chosen w, countP_pos_iff]
          exact ⟨obj, hv, hchose⟩
        rw [decrement, if_neg hpos.ne']
      · rfl
    · simp [leaveVector, State.chosen, State.setVec, hwv]

theorem Good.free {st : Status} (h : Good s ys) (hok : OpOk s (.free obj))
    (hrun : irqObjectFree fuel s obj = some (s', st)) : ∃ ys', Good s' ys' := by
  rw [irqObjectFree] at hrun
  split at hrun
  · cases hrun
    exact ⟨ys, h⟩
  split at hrun
  · cases hrun
    exact ⟨ys, h⟩
  split at hrun
  · next hnone =>
    cases hrun
    have ho : s.registered obj = false := h.unregistered (by simp [hnone])
    have hgood := h.setIrq ho ⟨none, false⟩
    have hreg : update s.registered obj false = s.registered := by
      rw [← ho, update_eq_self]
    refine ⟨ys, hgood.1.same, ?_⟩
    have hobj := hgood.2
    show Objects _ _ _ (update s.registered obj false) ys
    rw [hreg]
    exact hobj
  · next v hvec =>
    obtain ⟨n, hn, hrest⟩ := Option.bind_eq_some_iff.mp hrun
    split at hrest
    · cases hrest
    next h0 =>
    cases hrest
    have hreg : s.registered obj = true := hok.resolve_left (by simp [hvec])
    have hv : obj ∈ ys v := by
      obtain ⟨w, hw⟩ := (h.2.registered obj).mp hreg
      obtain rfl : w = v := Option.some.inj ((h.2.vector w obj hw).symm.trans hvec)
      exact hw
    obtain ⟨xs, hl, hclean, hys⟩ := id h.1
    obtain ⟨hmem, hdata⟩ := h.findNode hl hys hv hn h0
    obtain ⟨l, r, hlr⟩ := append_of_mem hmem
    have hsplit : ys v = l.map s.data ++ obj :: r.map s.data := by
      rw [hys v, hlr, map_append, map_cons, hdata]
    obtain ⟨hallow, hchosen⟩ := leaveVector_flags h hv n
    refine ⟨_, ?_, h.2.remove hsplit ⟨none, false⟩ hallow hchosen⟩
    have hrem : Holds (removeIrqFromVector s v n) _ 0 := Holds.remove hl hclean hys hlr
    have hleave : Holds (leaveVector s obj v n)
        (update ys v (l.map s.data ++ r.map s.data)) 0 := by
      refine hrem.setVec ?_ ?_ ?_ <;> dsimp only <;> split <;> rfl
    exact hleave.same

/-! ### Runs -/

/-- The registry is right: the lists are well linked and null-terminated; a registered
object is on the list of its own vector and on no other; a vector without sharing has at
most one object; and the objects that chose their vector are counted. -/
structure Registry (s : State) (xs : ℕ → List ℕ) : Prop where
  isLists : DLinked.IsLists s.next s.prev 0 (fun v => (s.vec v).head) (fun v => (s.vec v).tail) xs
  placed : ∀ o, s.registered o = true → ∃ v n, (s.irq o).vector = some v ∧ n ∈ xs v ∧
    s.data n = o ∧ ∀ w m, m ∈ xs w → s.data m = o → w = v ∧ m = n
  alone : ∀ v, (s.vec v).allowWorkSharing = false → (xs v).length ≤ 1
  chosen : ∀ v, (s.vec v).nIRQsWithChosenID =
    (xs v).countP fun n => (s.irq (s.data n)).choseVector

theorem Good.registry (h : Good s ys) : ∃ xs, Registry s xs := by
  obtain ⟨xs, hl, -, hys⟩ := id h.1
  refine ⟨xs, hl.isLists, fun o ho => ?_, fun v hv => ?_, fun v => ?_⟩
  · obtain ⟨v, hv⟩ := (h.2.registered o).mp ho
    have hmem := hv
    rw [hys v, mem_map] at hmem
    obtain ⟨n, hn, hdata⟩ := hmem
    refine ⟨v, n, h.2.vector v o hv, hn, hdata, fun w m hm hmo => ?_⟩
    have hw : o ∈ ys w := by
      rw [hys w, mem_map]
      exact ⟨m, hm, hmo⟩
    obtain rfl := h.2.eq_of_mem hw hv
    have hnd := h.2.nodup w
    rw [hys w] at hnd
    exact ⟨rfl, inj_on_of_nodup_map hnd hm hn (hmo.trans hdata.symm)⟩
  · have hone := h.2.alone v hv
    rwa [hys v, length_map] at hone
  · have hc := h.2.chosen v
    rw [hys v, countP_map] at hc
    exact hc

theorem Good.step {op : Op} (h : Good s ys) (hok : OpOk s op) (hs : step fuel s op = some s') :
    ∃ ys', Good s' ys' := by
  cases op with
  | register obj allow force req =>
    obtain ⟨⟨t, st⟩, hr, rfl⟩ := Option.map_eq_some_iff.mp hs
    exact h.register hok hr
  | free obj =>
    obtain ⟨⟨t, st⟩, hr, rfl⟩ := Option.map_eq_some_iff.mp hs
    exact h.free hok hr

theorem newInterface_good (garbage : ℕ → ℕ) : Good (newInterface garbage) fun _ => [] := by
  refine ⟨⟨fun _ => [], ⟨?_, fun _ => rfl, fun _ _ hn => (by cases hn), Nat.one_pos⟩,
    fun _ hi => absurd hi (Nat.not_lt_zero _), fun _ => rfl⟩, ?_⟩
  · exact ⟨fun _ => DLinked.IsList.nil _ _ _, fun _ _ _ hx => (by cases hx)⟩
  · refine ⟨fun _ _ ho => (by cases ho), fun o => ?_, fun _ => nodup_nil,
      fun _ _ => Nat.zero_le 1, fun _ => rfl⟩
    simp [newInterface]

/-- In every run from the initialized interface, whatever the memory of the nodes holds,
in which every node that is linked happens to be clean, no request for a vector is refused
behind its checks, no object of a vector without sharing is moved to an occupied vector,
and no object is freed whose registration has failed, the registry is right in the state
reached. -/
theorem registry_run {garbage : ℕ → ℕ} {ops : List Op}
    (hok : Run.Meets OpOk (step fuel) (newInterface garbage) ops)
    (hrun : ops.foldlM (step fuel) (newInterface garbage) = some s') : ∃ xs, Registry s' xs := by
  have hgood : ∃ ys, Good s' ys := by
    refine Run.preserves (I := fun s => ∃ ys, Good s ys) ?_ ⟨_, newInterface_good garbage⟩ hok hrun
    rintro s op t ⟨ys, h⟩ hop hs
    exact h.step hop hs
  obtain ⟨ys, h⟩ := hgood
  exact h.registry

/-- Objects join, are moved by force, and leave. -/
def moves : List Op :=
  [.register 1 false false (.irql 5), .register 2 true true (.vector 48),
    .register 3 true false (.irql 5), .register 4 false true (.vector 49), .free 1, .free 2]

theorem registry_run_moves :
    ∃ s, moves.foldlM (step 4) (newInterface fun _ => 0) = some s ∧ (∃ xs, Registry s xs) ∧
      (s.vec 49).nNodes = 1 := by
  have hrun : ((moves.foldlM (step 4) (newInterface fun _ => 0)).map fun s =>
      (s.vec 49).nNodes) = some 1 := by
    decide +kernel
  obtain ⟨s, hs, hn⟩ := Option.map_eq_some_iff.mp hrun
  exact ⟨s, hs, registry_run (by decide +kernel) hs, hn⟩

/-- A node that was not cleared: the list that it is put on does not end. -/
theorem dirty_node_unterminated :
    ∃ s, [Op.register 1 false false (.irql 5)].foldlM (step 4) (newInterface fun _ => 7) = some s ∧
      s.registered 1 = true ∧ ¬ ∃ xs, Registry s xs := by
  have hrun : (([Op.register 1 false false (.irql 5)].foldlM (step 4)
      (newInterface fun _ => 7)).map fun s =>
        (s.registered 1, (s.vec 48).tail, s.next 1)) = some (true, 1, 7) := by
    decide +kernel
  obtain ⟨s, hs, heq⟩ := Option.map_eq_some_iff.mp hrun
  simp only [Prod.mk.injEq] at heq
  refine ⟨s, hs, heq.1, ?_⟩
  rintro ⟨xs, h⟩
  have hend := (h.isLists.isList 48).next_tail (by simp [heq.2.1])
  simp [heq.2.1, heq.2.2] at hend

end Obos.Irqs
