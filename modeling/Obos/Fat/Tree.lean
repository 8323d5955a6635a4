/-
The tree of cached records of a FAT volume, with its links.

`Create` has the records as nodes with lists of children; here the children of a node
are the list that `CacheAppendChild` and `CacheRemoveChild` link through the nodes.
Pointers are numbers and 0 is null.  The records on the device are left out: nothing
of the tree depends on them.  The lookup is that of the VFS (`Dirent`), adapted to
these nodes by the driver; strings are bytes, read as characters for it.

A node that is moved to another directory keeps its link to the next child, and the
nodes below it keep their paths.

* `mkFile`, `moveDescTo`, `removeFile` — the operations,
* `IsTree` — the lists of children are well linked and have their counts, all nodes
  reach the root, and every path is that of the parent and the name,
* `IsTree.detach`, `Detached.attach` — what the two list operations do to a tree,
* `tree_run` — it stays a tree in every run that moves only last children without
  children of their own, to a directory named by its path,
* `moved_child_drags_sibling` — a move of another child.
-/
import Obos.Dirent
import Obos.KernelList
import Obos.Lib.Run
import Obos.Fat.Create

namespace Obos.Fat

open Function List
open KernelList (Links Head Lists setAt setAt_of_ne_zero)

/-! ### Strings -/

def chars (s : List UInt8) : List Char := s.map fun b => Char.ofNat b.toNat

/-- `strrfind`. -/
def strrfind (s : List UInt8) (ch : UInt8) : Option ℕ :=
  (s.reverse.findIdx? (· == ch)).map fun i => s.length - 1 - i

def basename (path : List UInt8) : List UInt8 :=
  match strrfind path slash with
  | none => path
  | some base => path.drop (base + 1)

/-! ### The operations -/

/-- `fat_dirent_cache`: each field, by node, and the nodes that are allocated. -/
structure Tree where
  name : ℕ → List UInt8
  path : ℕ → List UInt8
  /-- `attribs & DIRECTORY`. -/
  directory : ℕ → Bool
  parent : ℕ → ℕ
  children : ℕ → Head
  /-- `next_child` and `prev_child`. -/
  links : Links
  root : ℕ
  live : ℕ → Bool
  /-- The next node that the allocator returns. -/
  fresh : ℕ

/-- `CacheAppendChild`, on the links and the children of the parent. -/
def cacheAppendChild (m : Links) (q : Head) (child : ℕ) : Links × Head :=
  let head := if q.head = 0 then child else q.head
  let next := setAt m.next q.tail child
  let prev := update m.prev child q.tail
  (⟨next, prev⟩, ⟨head, child, q.nNodes + 1⟩)

/-- `CacheRemoveChild`.  The links of `what` stay. -/
def cacheRemoveChild (m : Links) (q : Head) (what : ℕ) : Links × Head :=
  let next := setAt m.next (m.prev what) (m.next what)
  let prev := setAt m.prev (next what) (m.prev what)
  let head := if q.head = what then next what else q.head
  let tail := if q.tail = what then prev what else q.tail
  (⟨next, prev⟩, ⟨head, tail, decrement q.nNodes⟩)

namespace Tree

variable (t : Tree)

def appendChild (p x : ℕ) : Tree :=
  let (links, q) := cacheAppendChild t.links (t.children p) x
  { t with
    links := links
    children := update t.children p q
    parent := update t.parent x p }

def removeChild (p x : ℕ) : Tree :=
  let (links, q) := cacheRemoveChild t.links (t.children p) x
  { t with
    links := links
    children := update t.children p q
    parent := update t.parent x 0 }

def rename (x : ℕ) (name path : List UInt8) : Tree :=
  { t with name := update t.name x name, path := update t.path x path }

/-- A zeroed node, with the fields that `mk_file` sets before it links it. -/
def allocate (name path : List UInt8) (directory : Bool) : Tree :=
  { t with
    name := update t.name t.fresh name
    path := update t.path t.fresh path
    directory := update t.directory t.fresh directory
    parent := update t.parent t.fresh 0
    children := update t.children t.fresh ⟨0, 0, 0⟩
    links := ⟨update t.links.next t.fresh 0, update t.links.prev t.fresh 0⟩
    live := update t.live t.fresh true
    fresh := t.fresh + 1 }

def free (x : ℕ) : Tree := { t with live := update t.live x false }

/-- The first child of `p` that `wanted` accepts, or 0; it never ends if the children are
linked in a cycle. -/
def findChild (p : ℕ) (wanted : ℕ → Bool) : Option ℕ :=
  DLinked.walk t.links.next 0 wanted (2 ^ 64) (t.children p).head

/-- `mk_file`; without a parent, in the root directory. -/
def mkFile (parent : Option ℕ) (name : List UInt8) (type : FileType) :
    Option (Tree × Status) :=
  if type = .symbolicLink then some (t, .internalError)
  else if !validFilename name false then some (t, .invalidArgument)
  else
    let p := parent.getD t.root
    if !t.directory p then some (t, .invalidArgument)
    else
      match t.findChild p fun c => t.name c == name with
      | none => none
      | some c =>
        if c ≠ 0 then some (t, .alreadyInitialized)
        else
          some ((t.allocate name (childPath (t.path p) name) (type = .directory)).appendChild p
            t.fresh, .success)

/-- `remove_file`; the root has no parent to be removed from. -/
def removeFile (x : ℕ) : Option (Tree × Status) :=
  if (t.children x).nNodes ≠ 0 then some (t, .inUse)
  else if t.parent x = 0 then none
  else some ((t.removeChild (t.parent x) x).free x, .success)

/-! ### The lookup -/

/-- `on_match`. -/
def onMatch (curr : ℕ) (tok : List Char) (tokLen : ℕ) : Vfs.Match ℕ :=
  let newtok := tok.drop (Vfs.strSearch tok '/')
  if newtok = [] then ⟨some curr, curr, tok, tokLen⟩
  else if (t.children curr).nNodes = 0 then ⟨none, curr, tok, tokLen⟩
  else ⟨none, curr, newtok, Vfs.tokenLen newtok (Vfs.currentPathLen newtok)⟩

/-- The rest of a round in which the name of `curr` is the token. -/
def matched (s : Vfs.Search ℕ) (curr : ℕ) : Loop.Round (Vfs.Search ℕ) (Option ℕ) :=
  let m := t.onMatch curr s.tok s.tokLen
  match m.hit with
  | some what => .done (some what)
  | none => .again ⟨some m.root, m.tok, m.tokLen⟩

/-- One round of the loop of `DirentLookupFrom`.  If the children never end, neither
does the round. -/
def round (s : Vfs.Search ℕ) : Loop.Round (Vfs.Search ℕ) (Option ℕ) :=
  let wanted := fun c => Vfs.compareStringNC (chars (t.name c)) s.tok s.tokLen
  match s.root with
  | none => .done none
  | some root =>
    if wanted root then t.matched s root
    else
      match t.findChild root wanted with
      | none => .again s
      | some curr =>
        if curr ≠ 0 then t.matched s curr
        else .again ⟨if t.parent root = 0 then none else some (t.parent root), s.tok, s.tokLen⟩

/-- `DirentLookupFrom` the root, with a bound on the rounds of its loop.  A path of
slashes alone has no result: the token length is read off the bytes before it. -/
def direntLookup (fuel : ℕ) (path : List UInt8) : Option (Option ℕ) :=
  if path = [] then some none
  else
    let path := (chars path).dropWhile (· == '/')
    if path = [] then none
    else
      let tokLen := Vfs.tokenLen path path.length
      if tokLen = 0 then some none else Loop.run t.round fuel ⟨some t.root, path, tokLen⟩

/-- The parent of the destination of a move, and the text of its path. -/
def moveTarget (fuel : ℕ) (dest : List UInt8) : Option (Option (ℕ × List UInt8)) :=
  let parentPath := dest.take ((strrfind dest slash).getD dest.length)
  match t.direntLookup fuel parentPath with
  | none => none
  | some (some p) => some (some (p, parentPath))
  | some none =>
    if parentPath.length = dest.length then some (some (t.root, t.path t.root)) else some none

/-- `move_desc_to`. -/
def moveDescTo (fuel x : ℕ) (dest : List UInt8) : Option (Tree × Status) :=
  if !validFilename dest true then some (t, .invalidArgument)
  else
    match t.direntLookup fuel dest with
    | none => none
    | some (some found) => some (t, if found = x then .success else .alreadyInitialized)
    | some none =>
      match t.moveTarget fuel dest with
      | none => none
      | some none => some (t, .notFound)
      | some (some (p, parentPath)) =>
        let t := t.rename x (basename dest) (childPath parentPath (basename dest))
        if p ≠ t.parent x then
          if t.parent x = 0 then none
          else some ((t.removeChild (t.parent x) x).appendChild p x, .success)
        else some (t, .success)

end Tree

/-! ### What a tree is -/

/-- Following parents from `x` one comes to the root. -/
inductive Reaches (t : Tree) : ℕ → Prop
  | root : Reaches t t.root
  | up {x : ℕ} : Reaches t (t.parent x) → Reaches t x

/-- The children of the allocated nodes. -/
def Tree.heads (t : Tree) (p : ℕ) : Head := if t.live p then t.children p else ⟨0, 0, 0⟩

/-- The allocator and the root. -/
structure Rooted (t : Tree) : Prop where
  lt_fresh : ∀ x, t.live x = true → x ≠ 0 ∧ x < t.fresh
  root : t.live t.root = true
  root_parent : t.parent t.root = 0

/-- The nodes are a tree; `xs p` are the children of `p`. -/
structure IsTree (t : Tree) (xs : ℕ → List ℕ) : Prop where
  rooted : Rooted t
  lists : Lists t.links t.heads xs
  parent : ∀ p, ∀ c ∈ xs p, t.live c = true ∧ t.parent c = p
  listed : ∀ c, t.live c = true → c ≠ t.root → c ∈ xs (t.parent c)
  reaches : ∀ x, t.live x = true → Reaches t x
  path : ∀ x, t.live x = true → x ≠ t.root → t.path x = childPath (t.path (t.parent x)) (t.name x)

/-- The nodes other than `x` are a tree, and `x` is a node of its own. -/
structure Detached (t : Tree) (xs : ℕ → List ℕ) (x : ℕ) : Prop where
  rooted : Rooted t
  lists : Lists t.links t.heads xs
  parent : ∀ p, ∀ c ∈ xs p, t.live c = true ∧ t.parent c = p
  listed : ∀ c, t.live c = true → c ≠ t.root → c ≠ x → c ∈ xs (t.parent c)
  reaches : ∀ y, t.live y = true → y ≠ x → Reaches t y
  path : ∀ y, t.live y = true → y ≠ t.root → y ≠ x →
    t.path y = childPath (t.path (t.parent y)) (t.name y)
  live : t.live x = true
  ne_root : x ≠ t.root
  unlisted : ∀ p, x ∉ xs p
  childless : xs x = []

/-! ### The lists of children -/

section Lists

variable {m : Links} {q : ℕ → Head} {xs : ℕ → List ℕ} {d i : ℕ}

/-- A node that is on no list, and whose `next` is null, is appended. -/
theorem lists_cacheAppendChild (h : Lists m q xs) (i : ℕ) (hd : ∀ j, d ∉ xs j) (h0 : d ≠ 0)
    (hnext : m.next d = 0) :
    Lists (cacheAppendChild m (q i) d).1 (update q i (cacheAppendChild m (q i) d).2)
      (update xs i (xs i ++ [d])) := by
  have hne : ∀ j, ∀ y ∈ xs j, y ≠ d := fun j y hy he => hd j (he ▸ hy)
  have htail : d ≠ (q i).tail := by
    intro he
    exact hd i (he ▸ (h.isLists.isList i).tail_mem (he ▸ h0))
  refine ⟨h.isLists.append hd h0 (fun j y hy => ?_) (fun j y hy => ?_) ?_ ?_ ?_ ?_, fun j => ?_⟩
  · exact setAt_of_ne_zero (h.ne_zero hy)
  · exact update_of_ne (hne j y hy) _ _
  · show setAt m.next (q i).tail d d = 0
    rw [setAt_of_ne_zero h0, if_neg htail, hnext]
  · exact update_self ..
  · exact funext (apply_update (fun _ => Head.head) q i _)
  · exact funext (apply_update (fun _ => Head.tail) q i _)
  · by_cases hj : j = i
    · subst hj
      simp [cacheAppendChild, h.nNodes j]
    · simp [update_of_ne hj, h.nNodes j]

theorem lists_cacheRemoveChild (h : Lists m q xs) {l r : List ℕ} (hi : xs i = l ++ d :: r) :
    Lists (cacheRemoveChild m (q i) d).1 (update q i (cacheRemoveChild m (q i) d).2)
      (update xs i (l ++ r)) := by
  have hd : d ∈ xs i := hi ▸ mem_append_right _ mem_cons_self
  have hnext := h.setAt_next_self hd
  have hprev : setAt m.prev (m.next d) (m.prev d) d = m.prev d := by
    rw [setAt_of_ne_zero (h.ne_zero hd), if_neg]
    exact fun he => (h.isLists.reverse.isList i).prev_ne (mem_reverse.mpr hd) he.symm
  refine h.unlink hi (fun y h0 _ => ?_) (fun y h0 _ => ?_) ?_
  · exact setAt_of_ne_zero h0
  · simp only [cacheRemoveChild, hnext]
    exact setAt_of_ne_zero h0
  · simp [cacheRemoveChild, hnext, hprev]

end Lists

/-! ### Growing and cutting a tree -/

section Shape

variable {t t' : Tree} {xs : ℕ → List ℕ} {p x y : ℕ}

/-- A chain of parents through nodes whose parents stay. -/
theorem Reaches.keep {P : ℕ → Prop} (h : Reaches t y) (hroot : t'.root = t.root)
    (hP : ∀ y, P y → y ≠ t.root → t'.parent y = t.parent y ∧ P (t.parent y)) (hy : P y) :
    Reaches t' y := by
  induction h with
  | root => exact hroot ▸ .root
  | @up z _ ih =>
    by_cases hz : z = t.root
    · exact hz ▸ hroot ▸ .root
    · obtain ⟨hpar, hP'⟩ := hP z hy hz
      exact .up (hpar ▸ ih hP')

theorem Rooted.not_live_fresh (h : Rooted t) : t.live t.fresh = false := by
  by_contra hl
  exact absurd (h.lt_fresh t.fresh (Bool.not_eq_false _ ▸ hl)).2 (lt_irrefl _)

/-- Only allocated nodes have children. -/
theorem live_of_child (h : Lists t.links t.heads xs) {c : ℕ} (hc : c ∈ xs p) : t.live p = true := by
  by_contra hp
  have hhead : (t.heads p).head = 0 := by rw [Tree.heads, if_neg hp]
  have hnil := (h.isLists.isList p).head_eq_null_iff.mp hhead
  exact absurd hc (hnil ▸ not_mem_nil)

theorem heads_of_live (hp : t.live p = true) : t.heads p = t.children p := if_pos hp

/-- The children of one allocated node change. -/
theorem heads_update {q : Head} (hp : t.live p = true) (hlive : t'.live = t.live)
    (hchildren : t'.children = update t.children p q) :
    t'.heads = update t.heads p q := by
  funext i
  by_cases hi : i = p
  · subst hi
    rw [Tree.heads, hlive, if_pos hp, hchildren, update_self, update_self]
  · rw [Tree.heads, hlive, hchildren, update_of_ne hi, update_of_ne hi]
    rfl

theorem heads_appendChild (x : ℕ) (hp : t.live p = true) : (t.appendChild p x).heads =
    update t.heads p (cacheAppendChild t.links (t.heads p) x).2 := by
  rw [heads_of_live hp]
  exact heads_update hp rfl rfl

theorem heads_removeChild (x : ℕ) (hp : t.live p = true) : (t.removeChild p x).heads =
    update t.heads p (cacheRemoveChild t.links (t.heads p) x).2 := by
  rw [heads_of_live hp]
  exact heads_update hp rfl rfl

namespace IsTree

variable (h : IsTree t xs)
include h

theorem parent_live (hx : t.live x = true) (hroot : x ≠ t.root) :
    t.live (t.parent x) = true := live_of_child h.lists (h.listed x hx hroot)

/-- A node without children is no parent. -/
theorem parent_ne (hno : xs x = []) (hy : t.live y = true) (hroot : y ≠ t.root) :
    t.parent y ≠ x := fun he =>
  not_mem_nil (hno ▸ he ▸ h.listed y hy hroot)

/-- `CacheRemoveChild` cuts off a node without children. -/
theorem detach (hx : t.live x = true) (hroot : x ≠ t.root) (hno : xs x = []) :
    ∃ xs', Detached (t.removeChild (t.parent x) x) xs' x := by
  obtain ⟨l, r, hlr⟩ := append_of_mem (h.listed x hx hroot)
  have hp := h.parent_live hx hroot
  have hxp : x ≠ t.parent x := (h.parent_ne hno hx hroot).symm
  have hnd := (h.lists.isLists.isList (t.parent x)).nodup
  rw [hlr, nodup_middle, nodup_cons] at hnd
  have hmem : ∀ q, ∀ c ∈ update xs (t.parent x) (l ++ r) q, c ∈ xs q ∧ c ≠ x := by
    refine (forall_update_iff xs fun q l => ∀ c ∈ l, c ∈ xs q ∧ c ≠ x).mpr
      ⟨fun c hc => ⟨?_, fun he => hnd.1 (he ▸ hc)⟩, fun q hq c hc => ⟨hc, ?_⟩⟩
    · rw [hlr]
      exact mem_append.mpr ((mem_append.mp hc).imp_right (mem_cons_of_mem x))
    · rintro rfl
      exact hq (h.parent q c hc).2.symm
  have hpar : ∀ y, y ≠ x → (t.removeChild (t.parent x) x).parent y = t.parent y :=
    fun y hy => update_of_ne hy _ _
  refine ⟨update xs (t.parent x) (l ++ r), ⟨h.rooted.lt_fresh, h.rooted.root, ?_⟩, ?_,
    fun q c hc => ?_, fun c hc hcr hcx => ?_, fun y hy hyx => ?_, fun y hy hyr hyx => ?_, hx, hroot,
    fun q hq => (hmem q x hq).2 rfl, ?_⟩
  · exact (hpar t.root hroot.symm).trans h.rooted.root_parent
  · have hlists := lists_cacheRemoveChild h.lists hlr
    rw [← heads_removeChild x hp, heads_of_live hp] at hlists
    exact hlists
  · obtain ⟨hcq, hcx⟩ := hmem q c hc
    rw [hpar c hcx]
    exact h.parent q c hcq
  · rw [hpar c hcx]
    have hold := h.listed c hc hcr
    by_cases hq : t.parent c = t.parent x
    · rw [hq, hlr] at hold
      rw [hq, update_self]
      exact mem_append.mpr ((mem_append.mp hold).imp_right fun hr =>
        (mem_cons.mp hr).resolve_left hcx)
    · rwa [update_of_ne hq]
  · refine (h.reaches y hy).keep rfl (P := fun y => t.live y = true ∧ y ≠ x) ?_ ⟨hy, hyx⟩
    intro z ⟨hz, hzx⟩ hzr
    exact ⟨hpar z hzx, h.parent_live hz hzr, h.parent_ne hno hz hzr⟩
  · rw [hpar y hyx]
    exact h.path y hy hyr
  · rw [update_of_ne hxp]
    exact hno

/-- A new node is a node of its own. -/
theorem allocate (name path : List UInt8) (directory : Bool) :
    Detached (t.allocate name path directory) xs t.fresh ∧
      (t.allocate name path directory).links.next t.fresh = 0 := by
  have hdead := h.rooted.not_live_fresh
  have hne : ∀ y, t.live y = true → y ≠ t.fresh := fun y hy he => by
    rw [he, hdead] at hy
    cases hy
  have hpar : ∀ y, t.live y = true →
      (t.allocate name path directory).parent y = t.parent y :=
    fun y hy => update_of_ne (hne y hy) _ _
  have hlive : ∀ y, (t.allocate name path directory).live y = true → y ≠ t.fresh →
      t.live y = true := fun y hy hyf => (update_of_ne hyf _ _).symm.trans hy
  have hlive' : ∀ y, t.live y = true → (t.allocate name path directory).live y = true :=
    fun y hy => (update_of_ne (hne y hy) _ _).trans hy
  have hunlisted : ∀ q, t.fresh ∉ xs q := fun q hq => hne _ (h.parent q _ hq).1 rfl
  have hheads : (t.allocate name path directory).heads = t.heads := by
    funext i
    by_cases hi : i = t.fresh
    · subst hi
      simp [Tree.heads, Tree.allocate, hdead]
    · simp [Tree.heads, Tree.allocate, update_of_ne hi]
  refine ⟨⟨⟨fun y hy => ?_, hlive' _ h.rooted.root, ?_⟩, ?_, fun q c hc => ?_,
    fun c hc hcr hcx => ?_, fun y hy hyx => ?_, fun y hy hyr hyx => ?_, ?_, ?_, hunlisted, ?_⟩, ?_⟩
  · by_cases hyf : y = t.fresh
    · subst hyf
      have := (h.rooted.lt_fresh t.root h.rooted.root).2
      exact ⟨by omega, Nat.lt_succ_self _⟩
    · have := h.rooted.lt_fresh y (hlive y hy hyf)
      exact ⟨this.1, Nat.lt_succ_of_lt this.2⟩
  · exact (hpar _ h.rooted.root).trans h.rooted.root_parent
  · rw [hheads]
    refine ⟨h.lists.isLists.congr (fun i y hy => ?_) (fun i y hy => ?_), h.lists.nNodes⟩
    all_goals exact update_of_ne (hne y (h.parent i y hy).1) _ _
  · obtain ⟨hc', hq⟩ := h.parent q c hc
    exact ⟨hlive' c hc', (hpar c hc').trans hq⟩
  · rw [hpar c (hlive c hc hcx)]
    exact h.listed c (hlive c hc hcx) hcr
  · refine (h.reaches y (hlive y hy hyx)).keep rfl (P := fun y => t.live y = true) ?_
      (hlive y hy hyx)
    exact fun z hz hzr => ⟨hpar z hz, h.parent_live hz hzr⟩
  · have hy' := hlive y hy hyx
    have hpy := h.parent_live hy' hyr
    rw [hpar y hy']
    show update t.path t.fresh path y = childPath (update t.path t.fresh path
      (t.parent y)) (update t.name t.fresh name y)
    rw [update_of_ne hyx, update_of_ne (hne _ hpy), update_of_ne hyx]
    exact h.path y hy' hyr
  · exact update_self ..
  · exact (hne _ h.rooted.root).symm
  · by_contra hne'
    obtain ⟨c, hc⟩ := exists_mem_of_ne_nil _ hne'
    exact absurd (live_of_child h.lists hc) (by simp [hdead])
  · exact update_self ..

/-- A node without children gets another name in its directory. -/
theorem rename (hno : xs x = []) (hx : t.live x = true) (hroot : x ≠ t.root)
    {name path : List UInt8} (hpath : path = childPath (t.path (t.parent x)) name) :
    IsTree (t.rename x name path) xs := by
  refine ⟨⟨h.rooted.lt_fresh, h.rooted.root, h.rooted.root_parent⟩, h.lists, h.parent, h.listed,
    fun y hy => ?_, fun y hy hyr => ?_⟩
  · exact (h.reaches y hy).keep rfl (P := fun _ => True) (fun z _ _ => ⟨rfl, trivial⟩) trivial
  · show update t.path x path y = childPath (update t.path x path (t.parent y))
      (update t.name x name y)
    rw [update_of_ne (h.parent_ne hno hy hyr)]
    by_cases hyx : y = x
    · subst hyx
      rw [update_self, update_self]
      exact hpath
    · rw [update_of_ne hyx, update_of_ne hyx]
      exact h.path y hy hyr

end IsTree

namespace Detached

variable (h : Detached t xs x)
include h

theorem parent_live (hy : t.live y = true) (hroot : y ≠ t.root)
    (hyx : y ≠ x) : t.live (t.parent y) = true ∧ t.parent y ≠ x := by
  have hmem := h.listed y hy hroot hyx
  refine ⟨live_of_child h.lists hmem, fun he => ?_⟩
  rw [he, h.childless] at hmem
  exact absurd hmem not_mem_nil

/-- The name and the path of the cut off node are nobody else's business. -/
theorem rename (name path : List UInt8) :
    Detached (t.rename x name path) xs x := by
  refine ⟨⟨h.rooted.lt_fresh, h.rooted.root, h.rooted.root_parent⟩, h.lists, h.parent, h.listed,
    fun y hy hyx => ?_, fun y hy hyr hyx => ?_, h.live, h.ne_root, h.unlisted, h.childless⟩
  · exact (h.reaches y hy hyx).keep rfl (P := fun _ => True) (fun z _ _ => ⟨rfl, trivial⟩) trivial
  · show update t.path x path y = childPath (update t.path x path (t.parent y))
      (update t.name x name y)
    rw [update_of_ne hyx, update_of_ne hyx,
      update_of_ne (h.parent_live hy hyr hyx).2]
    exact h.path y hy hyr hyx

/-- `CacheAppendChild` puts the node below `p`. -/
theorem attach (hp : t.live p = true) (hpx : p ≠ x)
    (hnext : t.links.next x = 0) (hpath : t.path x = childPath (t.path p) (t.name x)) :
    ∃ xs', IsTree (t.appendChild p x) xs' := by
  have hpar : ∀ y, y ≠ x → (t.appendChild p x).parent y = t.parent y :=
    fun y hy => update_of_ne hy _ _
  have hself : (t.appendChild p x).parent x = p := update_self ..
  have hmem : ∀ q, ∀ c ∈ xs q, c ∈ update xs p (xs p ++ [x]) q :=
    (forall_update_iff xs fun q l => ∀ c ∈ xs q, c ∈ l).mpr
      ⟨fun _ => mem_append_left _, fun _ _ _ => id⟩
  have hreach : ∀ y, t.live y = true → y ≠ x → Reaches (t.appendChild p x) y := by
    intro y hy hyx
    refine (h.reaches y hy hyx).keep rfl (P := fun y => t.live y = true ∧ y ≠ x) ?_ ⟨hy, hyx⟩
    exact fun z hz hzr => ⟨hpar z hz.2, h.parent_live hz.1 hzr hz.2⟩
  refine ⟨update xs p (xs p ++ [x]), ⟨h.rooted.lt_fresh, h.rooted.root, ?_⟩, ?_,
    ?_, fun c hc hcr => ?_, fun y hy => ?_, fun y hy hyr => ?_⟩
  · exact (hpar t.root h.ne_root.symm).trans h.rooted.root_parent
  · have hlists :=
      lists_cacheAppendChild h.lists p h.unlisted (h.rooted.lt_fresh x h.live).1 hnext
    rw [← heads_appendChild x hp, heads_of_live hp] at hlists
    exact hlists
  · have hold : ∀ q, ∀ c ∈ xs q, t.live c = true ∧ (t.appendChild p x).parent c = q := by
      intro q c hc
      rw [hpar c fun he => h.unlisted q (he ▸ hc)]
      exact h.parent q c hc
    exact (forall_update_iff xs fun q l => ∀ c ∈ l, t.live c = true ∧
      (t.appendChild p x).parent c = q).mpr ⟨forall_mem_append.mpr
        ⟨hold p, forall_mem_singleton.mpr ⟨h.live, hself⟩⟩, fun q _ => hold q⟩
  · by_cases hcx : c = x
    · subst hcx
      rw [hself, update_self]
      exact mem_append_right _ (mem_singleton_self c)
    · rw [hpar c hcx]
      exact hmem _ c (h.listed c hc hcr hcx)
  · by_cases hyx : y = x
    · subst hyx
      refine .up ?_
      rw [hself]
      exact hreach p hp hpx
    · exact hreach y hy hyx
  · by_cases hyx : y = x
    · subst hyx
      rw [hself]
      exact hpath
    · rw [hpar y hyx]
      exact h.path y hy hyr hyx

/-- The cut off node is freed. -/
theorem free : IsTree (t.free x) xs := by
  have hlive : ∀ y, (t.free x).live y = true → t.live y = true ∧ y ≠ x := by
    intro y hy
    by_cases hyx : y = x
    · subst hyx
      exact absurd ((update_self ..).symm.trans hy) (by decide)
    · exact ⟨(update_of_ne hyx _ _).symm.trans hy, hyx⟩
  have hlive' : ∀ y, t.live y = true → y ≠ x → (t.free x).live y = true :=
    fun y hy hyx => (update_of_ne hyx _ _).trans hy
  have hheads : (t.free x).heads = t.heads := by
    funext i
    by_cases hi : i = x
    · subst hi
      -- the node has no children, so it makes no difference that it is gone
      have hlist := h.lists.isLists.isList i
      have hcount := h.lists.nNodes i
      rw [h.childless] at hlist hcount
      have hhead : (t.heads i).head = 0 := hlist.head_eq
      have htail : (t.heads i).tail = 0 := hlist.tail_eq
      have hzero : t.heads i = ⟨0, 0, 0⟩ := by
        cases hq : t.heads i with
        | mk a b n => simp_all
      rw [hzero]
      simp [Tree.heads, Tree.free]
    · simp [Tree.heads, Tree.free, update_of_ne hi]
  refine ⟨⟨fun y hy => h.rooted.lt_fresh y (hlive y hy).1, ?_, h.rooted.root_parent⟩, hheads ▸ h.lists,
    fun q c hc => ?_, fun c hc hcr => ?_, fun y hy => ?_, fun y hy hyr => ?_⟩
  · exact hlive' _ h.rooted.root h.ne_root.symm
  · obtain ⟨hc', hq⟩ := h.parent q c hc
    exact ⟨hlive' c hc' fun he => h.unlisted q (he ▸ hc), hq⟩
  · exact h.listed c (hlive c hc).1 hcr (hlive c hc).2
  · refine (h.reaches y (hlive y hy).1 (hlive y hy).2).keep rfl
      (P := fun y => t.live y = true ∧ y ≠ x) ?_ (hlive y hy)
    exact fun z hz hzr => ⟨rfl, h.parent_live hz.1 hzr hz.2⟩
  · exact h.path y (hlive y hy).1 hyr (hlive y hy).2

end Detached

/-! ### What the lookup finds -/

/-- What is found among the children is a child. -/
theorem IsTree.findChild_mem (h : IsTree t xs) (hp : t.live p = true) {wanted : ℕ → Bool} {c : ℕ}
    (hc : t.findChild p wanted = some c) (h0 : c ≠ 0) : c ∈ xs p := by
  have hlist := h.lists.isLists.isList p
  rw [heads_of_live hp] at hlist
  refine hlist.mem_of_walk (fun hne => ?_) hc h0
  have hnil : xs p ≠ [] := fun he => hne (hlist.head_eq_null_iff.mpr he)
  rw [hlist.head_eq]
  exact DLinked.headD_mem hnil 0

/-- The round goes on from an allocated node, or returns one. -/
def LiveRound (t : Tree) : Loop.Round (Vfs.Search ℕ) (Option ℕ) → Prop
  | .again s => ∀ r ∈ s.root, t.live r = true
  | .done o => ∀ y ∈ o, t.live y = true

theorem matched_live (s : Vfs.Search ℕ) {curr : ℕ} (hcurr : t.live curr = true) :
    LiveRound t (t.matched s curr) := by
  have hself : ∀ y ∈ some curr, t.live y = true := fun y hy => Option.mem_some_iff.mp hy ▸ hcurr
  -- the path ends here, there is nothing below, or the search goes on
  by_cases hend : s.tok.drop (Vfs.strSearch s.tok '/') = []
  · simp only [Tree.matched, Tree.onMatch, if_pos hend]
    exact hself
  · by_cases hno : (t.children curr).nNodes = 0
    · simp only [Tree.matched, Tree.onMatch, if_neg hend, if_pos hno]
      exact hself
    · simp only [Tree.matched, Tree.onMatch, if_neg hend, if_neg hno]
      exact hself

theorem IsTree.round_live (h : IsTree t xs) {s : Vfs.Search ℕ} (hs : ∀ r ∈ s.root, t.live r = true) :
    LiveRound t (t.round s) := by
  unfold Tree.round
  cases hroot : s.root with
  | none => exact fun y hy => absurd hy (by simp)
  | some r =>
    have hr : t.live r = true := hs r hroot
    dsimp only
    split
    · exact matched_live s hr
    · split
      · exact hs
      · next c hc =>
        split
        · next h0 => exact matched_live s (h.parent r c (h.findChild_mem hr hc h0)).1
        · intro q hq
          dsimp only at hq
          split at hq
          · cases hq
          · next hpar =>
            have hne : r ≠ t.root := fun he => hpar (he ▸ h.rooted.root_parent)
            exact Option.mem_some_iff.mp hq ▸ h.parent_live hr hne

theorem IsTree.direntLookup_live (h : IsTree t xs) {fuel : ℕ} {path : List UInt8}
    (hy : t.direntLookup fuel path = some (some y)) : t.live y = true := by
  unfold Tree.direntLookup at hy
  split at hy
  · cases hy
  · dsimp only at hy
    split at hy
    · cases hy
    · split at hy
      · cases hy
      · refine Loop.run_invariant (I := fun s => ∀ r ∈ s.root, t.live r = true)
          (P := fun o => ∀ y ∈ o, t.live y = true) (fun s s' hs he => ?_) (fun s o hs he => ?_)
          (fun r hr => ?_) hy y rfl
        · have hround := h.round_live hs
          rwa [he] at hround
        · have hround := h.round_live hs
          rwa [he] at hround
        · exact Option.mem_some_iff.mp hr ▸ h.rooted.root

theorem IsTree.moveTarget_live (h : IsTree t xs) {fuel : ℕ} {dest parentPath : List UInt8}
    (hp : t.moveTarget fuel dest = some (some (p, parentPath))) : t.live p = true := by
  unfold Tree.moveTarget at hp
  dsimp only at hp
  split at hp
  · cases hp
  · next q hq =>
    simp only [Option.some.injEq, Prod.mk.injEq] at hp
    exact hp.1 ▸ h.direntLookup_live hq
  · split at hp
    · simp only [Option.some.injEq, Prod.mk.injEq] at hp
      exact hp.1 ▸ h.rooted.root
    · cases hp

end Shape

/-! ### Runs -/

/-- A call; a move has the bound on its lookups. -/
inductive TreeOp where
  | mk (parent : Option ℕ) (name : List UInt8) (type : FileType)
  | move (fuel desc : ℕ) (dest : List UInt8)
  | remove (desc : ℕ)
  deriving DecidableEq, Repr

/-- One call; there is no result if it does not return. -/
def Tree.step (t : Tree) : TreeOp → Option Tree
  | .mk parent name type => (t.mkFile parent name type).map Prod.fst
  | .move fuel desc dest => (t.moveDescTo fuel desc dest).map Prod.fst
  | .remove desc => (t.removeFile desc).map Prod.fst

/-- A descriptor is an allocated node.  What is moved has no children, goes to a directory
whose path is the text before the last slash, and is the last child of its directory
unless it stays there. -/
def Tree.OpOk (t : Tree) : TreeOp → Prop
  | .mk parent _ _ => t.live (parent.getD t.root) = true
  | .move fuel x dest =>
    t.live x = true ∧
    (t.direntLookup fuel dest = some none →
      ∀ o ∈ t.moveTarget fuel dest, ∀ target ∈ o,
        (t.children x).nNodes = 0 ∧ target.1 ≠ x ∧ target.2 = t.path target.1 ∧
          (target.1 = t.parent x ∨ t.links.next x = 0))
  | .remove x => t.live x = true

instance (t : Tree) : ∀ op, Decidable (t.OpOk op)
  | .mk .. => by unfold Tree.OpOk; infer_instance
  | .move .. => by unfold Tree.OpOk; infer_instance
  | .remove .. => by unfold Tree.OpOk; infer_instance

section Runs

variable {t t' : Tree} {xs : ℕ → List ℕ} {p x : ℕ}

theorem IsTree.childless (h : IsTree t xs) (hx : t.live x = true)
    (hno : (t.children x).nNodes = 0) : xs x = [] := by
  have hcount := h.lists.nNodes x
  rw [heads_of_live hx, hno] at hcount
  exact eq_nil_of_length_eq_zero hcount.symm

theorem IsTree.mkFile {parent : Option ℕ} {name : List UInt8} {type : FileType} {st : Status}
    (h : IsTree t xs) (hp : t.live (parent.getD t.root) = true)
    (ht : t.mkFile parent name type = some (t', st)) : ∃ xs', IsTree t' xs' := by
  have stays : ∀ st', some (t, st') = some (t', st) → ∃ xs', IsTree t' xs' := fun st' he =>
    ⟨xs, (Prod.mk.inj (Option.some.inj he)).1 ▸ h⟩
  unfold Tree.mkFile at ht
  split at ht
  · exact stays _ ht
  split at ht
  · exact stays _ ht
  dsimp only at ht
  split at ht
  · exact stays _ ht
  split at ht
  · cases ht
  split at ht
  · exact stays _ ht
  cases ht
  set p := parent.getD t.root
  obtain ⟨hdet, hnext⟩ := h.allocate name (childPath (t.path p) name) (type = .directory)
  have hne : p ≠ t.fresh := fun he => by
    rw [he, h.rooted.not_live_fresh] at hp
    cases hp
  refine hdet.attach ?_ hne hnext ?_
  · exact (update_of_ne hne _ _).trans hp
  · show update t.path t.fresh _ t.fresh =
      childPath (update t.path t.fresh _ p) (update t.name t.fresh name t.fresh)
    rw [update_self, update_self, update_of_ne hne]

theorem IsTree.removeFile {st : Status} (h : IsTree t xs) (hx : t.live x = true)
    (ht : t.removeFile x = some (t', st)) : ∃ xs', IsTree t' xs' := by
  unfold Tree.removeFile at ht
  split at ht
  · exact ⟨xs, (Prod.mk.inj (Option.some.inj ht)).1 ▸ h⟩
  next hno =>
  split at ht
  · cases ht
  next hpar =>
  cases ht
  have hne : x ≠ t.root := fun he => hpar (he ▸ h.rooted.root_parent)
  obtain ⟨xs', hdet⟩ := h.detach hx hne (h.childless hx (not_not.mp hno))
  exact ⟨xs', hdet.free⟩

theorem IsTree.moveDescTo {fuel : ℕ} {dest : List UInt8} {st : Status} (h : IsTree t xs)
    (hok : t.OpOk (.move fuel x dest)) (ht : t.moveDescTo fuel x dest = some (t', st)) :
    ∃ xs', IsTree t' xs' := by
  have stays : ∀ st', some (t, st') = some (t', st) → ∃ xs', IsTree t' xs' := fun st' he =>
    ⟨xs, (Prod.mk.inj (Option.some.inj he)).1 ▸ h⟩
  obtain ⟨hx, hok⟩ := hok
  unfold Tree.moveDescTo at ht
  split at ht
  · exact stays _ ht
  split at ht
  · cases ht
  · exact stays _ ht
  next hfound =>
  split at ht
  · cases ht
  · exact stays _ ht
  next p parentPath htarget =>
  obtain ⟨hno, hpx, hpath, hlast⟩ := hok hfound _ htarget _ rfl
  dsimp only at hpx hpath hlast
  have hp := h.moveTarget_live htarget
  have hchildless := h.childless hx hno
  dsimp only at ht
  split at ht
  · next hmoved =>
    split at ht
    · cases ht
    next hpar =>
    cases ht
    have hne : x ≠ t.root := fun he => hpar (he ▸ h.rooted.root_parent)
    obtain ⟨xs', hdet⟩ := h.detach hx hne hchildless
    -- the new name can as well be written after the node was cut off
    refine (hdet.rename (basename dest) (childPath parentPath (basename dest))).attach hp hpx ?_ ?_
    · show setAt t.links.next (t.links.prev x) (t.links.next x) x = 0
      rw [h.lists.setAt_next_self (h.listed x hx hne)]
      exact hlast.resolve_left hmoved
    · show update t.path x _ x =
        childPath (update t.path x _ p) (update t.name x _ x)
      rw [update_self, update_self, update_of_ne hpx, hpath]
  · next hsame =>
    cases ht
    have hparent : p = t.parent x := not_not.mp hsame
    have hne : x ≠ t.root := fun he => by
      rw [hparent, he, h.rooted.root_parent] at hp
      exact (h.rooted.lt_fresh 0 hp).1 rfl
    exact ⟨xs, h.rename hchildless hx hne (by rw [hpath, hparent])⟩

/-- One allowed call. -/
theorem isTree_step (t : Tree) (op : TreeOp) (t' : Tree) (h : ∃ xs, IsTree t xs)
    (hok : t.OpOk op) (ht : t.step op = some t') : ∃ xs, IsTree t' xs := by
  obtain ⟨xs, h⟩ := h
  cases op with
  | mk parent name type =>
    obtain ⟨⟨u, st⟩, hu, rfl⟩ := Option.map_eq_some_iff.mp ht
    exact h.mkFile hok hu
  | move fuel desc dest =>
    obtain ⟨⟨u, st⟩, hu, rfl⟩ := Option.map_eq_some_iff.mp ht
    exact h.moveDescTo hok hu
  | remove desc =>
    obtain ⟨⟨u, st⟩, hu, rfl⟩ := Option.map_eq_some_iff.mp ht
    exact h.removeFile hok hu

/-- From a tree, every run of allowed calls leads to a tree. -/
theorem tree_run {ops : List TreeOp} (h : ∃ xs, IsTree t xs)
    (hops : Run.Meets Tree.OpOk Tree.step t ops) (ht : ops.foldlM Tree.step t = some t') :
    ∃ xs, IsTree t' xs :=
  Run.preserves isTree_step h hops ht

end Runs

/-- A volume without files: node 1 is its root. -/
def emptyVolume : Tree where
  name _ := []
  path _ := []
  directory x := x == 1
  parent _ := 0
  children _ := ⟨0, 0, 0⟩
  links := ⟨fun _ => 0, fun _ => 0⟩
  root := 1
  live x := x == 1
  fresh := 2

theorem isTree_emptyVolume : IsTree emptyVolume fun _ => [] := by
  have hlive : ∀ x, emptyVolume.live x = true → x = 1 := fun x hx => by simpa [emptyVolume] using hx
  have hheads : ∀ i, emptyVolume.heads i = ⟨0, 0, 0⟩ := fun i => ite_self _
  refine ⟨⟨fun x hx => ?_, rfl, rfl⟩, ⟨⟨fun i => ?_, ?_⟩, fun i => ?_⟩, ?_, fun c hc hcr => ?_,
    fun x hx => ?_, fun x hx hxr => ?_⟩
  · rw [hlive x hx]
    decide
  · rw [hheads i]
    exact .nil _ _ _
  · exact fun i j x hx => absurd hx not_mem_nil
  · rw [hheads i]
    rfl
  · exact fun p c hc => absurd hc not_mem_nil
  · exact absurd (hlive c hc) hcr
  · rw [hlive x hx]
    exact .root
  · exact absurd (hlive x hx) hxr

/-- The directory `d` with the file `h`, and a file `f` that is moved to `d/k`. -/
theorem tree_run_moveLast :
    ∃ t, [TreeOp.mk none [0x64] .directory, .mk (some 2) [0x68] .regularFile,
        .mk none [0x66] .regularFile, .move 10 4 [0x64, 0x2F, 0x6B], .remove 3].foldlM Tree.step
        emptyVolume = some t ∧ (∃ xs, IsTree t xs) ∧ t.path 4 = [0x64, 0x2F, 0x6B] := by
  have hrun : ([TreeOp.mk none [0x64] .directory, .mk (some 2) [0x68] .regularFile,
      .mk none [0x66] .regularFile, .move 10 4 [0x64, 0x2F, 0x6B], .remove 3].foldlM Tree.step
      emptyVolume).map (fun t => t.path 4) = some [0x64, 0x2F, 0x6B] := by
    decide +kernel
  obtain ⟨t, ht, hpath⟩ := Option.map_eq_some_iff.mp hrun
  exact ⟨t, ht, tree_run ⟨_, isTree_emptyVolume⟩ (by decide +kernel) ht, hpath⟩

/-- The same move while the file `g` is behind `f` in the root directory: `f` is the last
child of `d`, and `g` comes after it. -/
theorem moved_child_drags_sibling :
    ∃ t, [TreeOp.mk none [0x64] .directory, .mk (some 2) [0x68] .regularFile,
        .mk none [0x66] .regularFile, .mk none [0x67] .regularFile,
        .move 10 4 [0x64, 0x2F, 0x6B]].foldlM Tree.step emptyVolume = some t ∧
      ¬ ∃ xs, IsTree t xs := by
  have hrun : ([TreeOp.mk none [0x64] .directory, .mk (some 2) [0x68] .regularFile,
      .mk none [0x66] .regularFile, .mk none [0x67] .regularFile,
      .move 10 4 [0x64, 0x2F, 0x6B]].foldlM Tree.step emptyVolume).map
        (fun t => (t.heads 2, t.links.next 4)) = some (⟨3, 4, 2⟩, 5) := by
    decide +kernel
  obtain ⟨t, ht, hsees⟩ := Option.map_eq_some_iff.mp hrun
  obtain ⟨hd, hnext⟩ := Prod.mk.inj hsees
  refine ⟨t, ht, fun ⟨xs, h⟩ => ?_⟩
  have hlist := h.lists.isLists.isList 2
  rw [hd] at hlist
  have hlast := hlist.next_tail (by decide)
  exact absurd (hnext.symm.trans hlast) (by decide)

end Obos.Fat
