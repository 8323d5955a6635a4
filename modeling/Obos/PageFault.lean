/-
The page fault handler and its copy-on-write chains (`mm/handler.c`).

Pages that share a frame are linked by `next_copied_page` and
`prev_copied_page`.  A write fault on one member gives it a frame of its own:
`copyCowPage` is called with the faulting page once for each of the other
members, and each call allocates a frame, so that all but the last of these
frames are lost when there is more than one other member.

* `progress_cowLoops` — what the two loops of the handler leave, for a chain of
  any length and any position of the faulting page,
* `isolated_iff` — isolation holds exactly for chains of two pages.

A page is the address of its `struct page`; 0 is the null pointer.  The page
tables are the map `pte`, one entry for each page; physical allocation takes
the next frame of the supply `free` and always succeeds.
-/
import Obos.PageCache
import Obos.Lib.DLinked
import Obos.Lib.Loop

namespace Obos.Mm

open DLinked Function List

/-! ### Pages -/

/-- The bits of `page.prot` that the handler uses. -/
structure Prot where
  present : Bool
  rw : Bool
  user : Bool
  executable : Bool
  ro : Bool
  deriving DecidableEq, Repr

/-- `pagecache_mapped_region`, with the size of the file it maps. -/
structure MappedRegion where
  fileoff : ℕ
  addr : ℕ
  sz : ℕ
  filesize : ℕ
  deriving DecidableEq, Repr

structure Page where
  addr : ℕ
  prot : Prot
  pagedOut : Bool
  region : Option MappedRegion
  isPrivateMapping : Bool
  nextCopiedPage : ℕ
  prevCopiedPage : ℕ
  deriving DecidableEq, Repr

/-- What the page tables hold for a page. -/
structure Pte where
  frame : ℕ
  writable : Bool
  deriving DecidableEq, Repr

/-- The pages, their mappings and the contents of physical frames. -/
structure State (γ : Type*) where
  page : ℕ → Page
  /-- The page tree of the context that faults. -/
  pages : List ℕ
  pte : ℕ → Option Pte
  contents : ℕ → γ
  /-- The frames that physical allocation hands out, in order. -/
  free : ℕ → ℕ
  /-- The frames handed out so far. -/
  allocated : List ℕ
  dirtyRegions : List Vfs.DirtyRegion

/-- The two directions of a chain. -/
inductive Side where
  | next
  | prev
  deriving DecidableEq

def Side.other : Side → Side
  | .next => .prev
  | .prev => .next

variable {γ : Type*}

namespace State

variable (s : State γ)

def modify (p : ℕ) (f : Page → Page) : State γ :=
  { s with page := update s.page p (f (s.page p)) }

def setRw (p : ℕ) (rw : Bool) : State γ :=
  s.modify p fun pg => { pg with prot := { pg.prot with rw := rw } }

def link : Side → ℕ → ℕ
  | .next, p => (s.page p).nextCopiedPage
  | .prev, p => (s.page p).prevCopiedPage

def setLink : Side → ℕ → ℕ → State γ
  | .next, p, v => s.modify p fun pg => { pg with nextCopiedPage := v }
  | .prev, p, v => s.modify p fun pg => { pg with prevCopiedPage := v }

/-- A write through a pointer that may be null. -/
def setLinkIf (side : Side) (p v : ℕ) : State γ :=
  if p ≠ 0 then s.setLink side p v else s

/-- `OBOSS_GetPagePhysicalAddress`. -/
def getPagePhysicalAddress (p : ℕ) : ℕ := ((s.pte p).map (·.frame)).getD 0

/-- `MmS_SetPageMapping`. -/
def setPageMapping (p phys : ℕ) : State γ :=
  { s with
    pte := update s.pte p
      (if (s.page p).prot.present then some ⟨phys, (s.page p).prot.rw⟩ else none) }

/-- `Mm_AllocatePhysicalPages`, for one page of the size that is needed. -/
def allocatePhysicalPages : State γ × ℕ :=
  ({ s with free := fun i => s.free (i + 1), allocated := s.allocated ++ [s.free 0] }, s.free 0)

/-- `memcpy` to the address of the page `p`. -/
def copyTo (p src : ℕ) : State γ :=
  match s.pte p with
  | some e => { s with contents := update s.contents e.frame (s.contents src) }
  | none => s

end State

/-! ### The handler -/

/-- `copy_cow_page`. -/
def copyCowPage (s : State γ) (page other : ℕ) : State γ :=
  if s.link .next other ≠ page ∧ s.link .prev other ≠ page then
    let phys := s.getPagePhysicalAddress page
    (s.setRw other true).setPageMapping page phys
  else if (s.page other).pagedOut then s.setRw other true
  else
    let phys := s.getPagePhysicalAddress page
    let (s, newPhys) := s.allocatePhysicalPages
    (((s.setRw page true).setPageMapping page newPhys).copyTo page phys).setRw other true

/-- Take `cur` out of its chain. -/
def relink (s : State γ) (cur : ℕ) : State γ :=
  let s := s.setLinkIf .next (s.link .prev cur) (s.link .next cur)
  let s := s.setLinkIf .prev (s.link .next cur) (s.link .prev cur)
  (s.setLink .next cur 0).setLink .prev cur 0

/-- One round of the loop that follows the chain on one side. -/
def cowRound (side : Side) (x : State γ × ℕ) : Loop.Round (State γ × ℕ) (State γ) :=
  let (s, cur) := x
  if cur = 0 then .done s
  else
    let s := copyCowPage s (s.link side.other cur) cur
    .again (relink s cur, s.link side cur)

/-- The two loops of the handler. -/
def cowLoops (fuel : ℕ) (s : State γ) (page : ℕ) : Option (State γ) := do
  let s ← Loop.run (cowRound .next) fuel (s, s.link .next page)
  Loop.run (cowRound .prev) fuel (s, s.link .prev page)

/-- The error code of a fault. -/
structure ErrorCode where
  present : Bool
  rw : Bool
  um : Bool
  exec : Bool
  deriving DecidableEq, Repr

/-- What the handler calls in other subsystems. -/
structure Env (γ : Type*) where
  /-- `Mm_SwapIn` and the aging of the page that follows it. -/
  pageIn : State γ → ℕ → State γ × Status
  /-- The page of the page cache that holds an offset of a region. -/
  pageCacheGetEntry : MappedRegion → ℕ → ℕ

/-- Map part of a file: share the page cache's page, or take its frame. -/
def mapFile (env : Env γ) (s : State γ) (page addr : ℕ) (r : MappedRegion) : State γ :=
  let pcPage := env.pageCacheGetEntry r (u64 (r.fileoff + u64sub addr r.addr))
  if (s.page page).isPrivateMapping then
    let s := s.setLinkIf .prev (s.link .next pcPage) page
    let s := s.setLink .next page (s.link .next pcPage)
    let s := (s.setLink .prev page pcPage).setLink .next pcPage page
    let share := fun pg : Page => { pg with prot := { pg.prot with rw := pg.prot.ro, present := true } }
    let s := (s.modify page share).modify pcPage share
    let s := s.setPageMapping page (s.getPagePhysicalAddress page)
    s.setPageMapping pcPage (s.getPagePhysicalAddress pcPage)
  else
    let s := s.modify page fun pg => { pg with prot := { pg.prot with present := true } }
    s.setPageMapping page (s.getPagePhysicalAddress pcPage)

/-- A write to a page of a file makes part of the file dirty. -/
def markDirty (s : State γ) (page addr : ℕ) (r : MappedRegion) : State γ :=
  let sz := u64 (u64sub r.sz r.fileoff + u64sub addr r.addr)
  let dirty : Vfs.DirtyRegion := ⟨u64 (r.fileoff + u64sub addr r.addr), sz - sz % pageSize⟩
  let s := { s with dirtyRegions := s.dirtyRegions ++ [dirty] }
  let s := s.setRw page true
  s.setPageMapping page (s.getPagePhysicalAddress page)

/-- The part of the handler that deals with file mappings; the flag is
`handled`.  The last test of the second condition is `ec && PF_EC_PRESENT`,
which is true of every error code but 0. -/
def handleRegion (env : Env γ) (s : State γ) (page addr : ℕ) (ec : ErrorCode) (handled : Bool) :
    State γ × Bool :=
  match (s.page page).region with
  | none => (s, handled)
  | some r =>
    if !ec.present && decide (r.filesize < u64 (r.fileoff + r.sz)) then (s, false)
    else
      let (s, handled) := if ec.present then (s, handled) else (mapFile env s page addr r, true)
      if !(s.page page).prot.ro && ec.rw then (markDirty s page addr r, handled) else (s, handled)

/-- `Mm_HandlePageFault`. -/
def handlePageFault (env : Env γ) (fuel : ℕ) (s : State γ) (addr : ℕ) (ec : ErrorCode) :
    Option (State γ × Status) :=
  match s.pages.find? fun p => (s.page p).addr == addr with
  | none => some (s, .unhandled)
  | some page =>
    let prot := (s.page page).prot
    if (ec.exec && !prot.executable) || (ec.rw && prot.ro) || (ec.um && !prot.user) then
      some (s, .unhandled)
    else
      let swap := (s.page page).pagedOut && !ec.present
      let (s, status) := if swap then env.pageIn s page else (s, .success)
      if status ≠ .success then some (s, status)
      else
        let cow := (s.link .next page != 0 || s.link .prev page != 0) && ec.rw
        match if cow then cowLoops fuel s page else some s with
        | none => none
        | some s =>
          let (s, handled) := handleRegion env s page addr ec (swap || cow)
          some (s, if handled then .success else .unhandled)

/-! ### Isolation -/

/-- The frame that a page is mapped to. -/
def frameOf (s : State γ) (p : ℕ) : Option ℕ := (s.pte p).map (·.frame)

/-- What a page reads. -/
def readOf (s : State γ) (p : ℕ) : Option γ := (frameOf s p).map s.contents

/-- The page is mapped writable, or marked to be. -/
def Writable (s : State γ) (p : ℕ) : Prop :=
  (s.page p).prot.rw = true ∨ ∃ e, s.pte p = some e ∧ e.writable = true

/-- No two writable pages share a frame. -/
def NoSharedWrite (s : State γ) : Prop :=
  ∀ p q f, Writable s p → Writable s q → frameOf s p = some f → frameOf s q = some f → p = q

/-- What a resolved fault has to leave behind. -/
structure Isolated (s s' : State γ) (chain : List ℕ) : Prop where
  noSharedWrite : NoSharedWrite s'
  reads : ∀ p ∈ chain, readOf s' p = readOf s p
  owned : ∀ f ∈ s'.allocated.drop s.allocated.length, ∃! p, frameOf s' p = some f

/-- The pages of `l`, `p` and `r` are the sharers of `frame`, linked in this
order, and all of them are resident and mapped read-only. -/
structure Sharers (s : State γ) (l : List ℕ) (p : ℕ) (r : List ℕ) (frame : ℕ) : Prop where
  linked : IsList (s.link .next) (s.link .prev) 0 ((l ++ p :: r).headD 0)
    ((l ++ p :: r).getLastD 0) (l ++ p :: r)
  mapped : ∀ q ∈ l ++ p :: r, s.pte q = some ⟨frame, false⟩
  resident : ∀ q ∈ l ++ p :: r, (s.page q).prot.present = true ∧ (s.page q).pagedOut = false
  all : ∀ q, frameOf s q = some frame → q ∈ l ++ p :: r

/-- The supply hands out each frame once, and only frames that nobody uses. -/
structure Fresh (s : State γ) : Prop where
  injective : Injective s.free
  unused : ∀ i q, frameOf s q ≠ some (s.free i)

/-! ### Links and the other fields -/

section Links

variable {s : State γ} {side side' : Side} {p q v x : ℕ}

@[simp] theorem Side.other_other (side : Side) : side.other.other = side := by
  cases side <;> rfl

theorem link_setLink (s : State γ) (side : Side) (p v : ℕ) (side' : Side) (q : ℕ) :
    (s.setLink side p v).link side' q = if side' = side ∧ q = p then v else s.link side' q := by
  by_cases hq : q = p
  · subst hq
    cases side <;> cases side' <;> simp [State.setLink, State.link, State.modify]
  · cases side <;> cases side' <;> simp [State.setLink, State.link, State.modify, hq]

theorem link_setRw (s : State γ) (p : ℕ) (rw : Bool) (side : Side) (q : ℕ) :
    (s.setRw p rw).link side q = s.link side q := by
  by_cases h : q = p
  · subst h
    cases side <;> simp [State.setRw, State.link, State.modify]
  · cases side <;> simp [State.setRw, State.link, State.modify, h]

/-- The fields of a page that no step of the loops writes. -/
structure SamePage (pg pg' : Page) : Prop where
  addr : pg'.addr = pg.addr
  pagedOut : pg'.pagedOut = pg.pagedOut
  present : pg'.prot.present = pg.prot.present
  ro : pg'.prot.ro = pg.prot.ro
  region : pg'.region = pg.region

theorem SamePage.refl (pg : Page) : SamePage pg pg := ⟨rfl, rfl, rfl, rfl, rfl⟩

theorem SamePage.trans {a b c : Page} (h : SamePage a b) (h' : SamePage b c) : SamePage a c :=
  ⟨h'.addr.trans h.addr, h'.pagedOut.trans h.pagedOut, h'.present.trans h.present,
    h'.ro.trans h.ro, h'.region.trans h.region⟩

theorem link_setLinkIf (s : State γ) (side : Side) (p v : ℕ) (side' : Side) (q : ℕ) :
    (s.setLinkIf side p v).link side' q =
      if side' = side ∧ q ≠ 0 ∧ q = p then v else s.link side' q := by
  rw [State.setLinkIf]
  by_cases h0 : p = 0
  · have hq : ¬ (side' = side ∧ q ≠ 0 ∧ q = p) := fun h => h.2.1 (h.2.2.trans h0)
    rw [if_neg (not_not.mpr h0), if_neg hq]
  · rw [if_pos h0, link_setLink]
    by_cases hq : q = p
    · simp [hq, h0]
    · simp [hq]

/-- The links after `x` was taken out: its two neighbours are joined. -/
theorem link_relink (hx : s.link .prev x ≠ x) (side : Side) (q : ℕ) :
    (relink s x).link side q =
      if q = x then 0
      else if q ≠ 0 ∧ q = s.link side.other x then s.link side x
      else s.link side q := by
  set s₁ := s.setLinkIf .next (s.link .prev x) (s.link .next x) with hs₁
  have hx₁ : ∀ side, s₁.link side x = s.link side x := by
    intro side
    rw [hs₁, link_setLinkIf, if_neg (fun h => hx h.2.2.symm)]
  show (((s₁.setLinkIf .prev (s₁.link .next x) (s₁.link .prev x)).setLink .next x 0).setLink
    .prev x 0).link side q = _
  rw [link_setLink, link_setLink, link_setLinkIf, hx₁, hx₁, hs₁, link_setLinkIf]
  cases side with
  | next =>
    by_cases hq : q = x
    · simp [hq]
    · by_cases hj : q ≠ 0 ∧ q = s.link .prev x <;> simp [hq, Side.other, hj]
  | prev =>
    by_cases hq : q = x
    · simp [hq]
    · by_cases hj : q ≠ 0 ∧ q = s.link .next x <;> simp [hq, Side.other, hj]

/-- Writing a link changes nothing but the link. -/
structure SameBut (s s' : State γ) : Prop where
  pte : s'.pte = s.pte
  contents : s'.contents = s.contents
  free : s'.free = s.free
  allocated : s'.allocated = s.allocated
  page : ∀ q, SamePage (s.page q) (s'.page q) ∧ (s'.page q).prot.rw = (s.page q).prot.rw

theorem SameBut.refl (s : State γ) : SameBut s s :=
  ⟨rfl, rfl, rfl, rfl, fun _ => ⟨SamePage.refl _, rfl⟩⟩

theorem SameBut.trans {s s' s'' : State γ} (h : SameBut s s') (h' : SameBut s' s'') :
    SameBut s s'' where
  pte := h'.pte.trans h.pte
  contents := h'.contents.trans h.contents
  free := h'.free.trans h.free
  allocated := h'.allocated.trans h.allocated
  page q := ⟨(h.page q).1.trans (h'.page q).1, (h'.page q).2.trans (h.page q).2⟩

theorem sameBut_setLink (s : State γ) (side : Side) (p v : ℕ) : SameBut s (s.setLink side p v) := by
  cases side <;> refine ⟨rfl, rfl, rfl, rfl, fun q => ?_⟩ <;> by_cases h : q = p
  · subst h
    exact ⟨by constructor <;> simp [State.setLink, State.modify],
      by simp [State.setLink, State.modify]⟩
  · simp [State.setLink, State.modify, h, SamePage.refl]
  · subst h
    exact ⟨by constructor <;> simp [State.setLink, State.modify],
      by simp [State.setLink, State.modify]⟩
  · simp [State.setLink, State.modify, h, SamePage.refl]

theorem sameBut_setLinkIf (s : State γ) (side : Side) (p v : ℕ) :
    SameBut s (s.setLinkIf side p v) := by
  rw [State.setLinkIf]
  split
  · exact sameBut_setLink s side p v
  · exact SameBut.refl s

theorem sameBut_relink (s : State γ) (x : ℕ) : SameBut s (relink s x) := by
  simp only [relink]
  exact (((sameBut_setLinkIf _ _ _ _).trans (sameBut_setLinkIf _ _ _ _)).trans
    (sameBut_setLink _ _ _ _)).trans (sameBut_setLink _ _ _ _)

end Links

/-! ### One round -/

section Round

variable {s s₀ : State γ} {side : Side} {p x frame : ℕ} {xs done : List ℕ}

theorem page_setRw (s : State γ) (p : ℕ) (rw : Bool) (q : ℕ) :
    SamePage (s.page q) ((s.setRw p rw).page q) ∧
    ((s.setRw p rw).page q).prot.rw = if q = p then rw else (s.page q).prot.rw := by
  by_cases h : q = p
  · subst h
    exact ⟨by constructor <;> simp [State.setRw, State.modify], by simp [State.setRw, State.modify]⟩
  · simp [State.setRw, State.modify, h, SamePage.refl]

/-- A call for a linked, resident sharer: the page gets the next frame, with
the bytes of the frame it had. -/
structure Copied (s s' : State γ) (p x : ℕ) : Prop where
  pte : s'.pte = update s.pte p (some ⟨s.free 0, true⟩)
  contents : s'.contents =
    update s.contents (s.free 0) (s.contents (s.getPagePhysicalAddress p))
  free : ∀ i, s'.free i = s.free (i + 1)
  allocated : s'.allocated = s.allocated ++ [s.free 0]
  page : ∀ q, SamePage (s.page q) (s'.page q)
  rw : ∀ q, (s'.page q).prot.rw = true ↔ (s.page q).prot.rw = true ∨ q = x ∨ q = p
  link : ∀ side q, s'.link side q = s.link side q

theorem copied_copyCowPage (hlink : s.link side.other x = p) (hout : (s.page x).pagedOut = false)
    (hpresent : (s.page p).prot.present = true) : Copied s (copyCowPage s p x) p x := by
  have hlinked : ¬ (s.link .next x ≠ p ∧ s.link .prev x ≠ p) := by
    rintro ⟨hn, hp⟩
    cases side
    · exact hp hlink
    · exact hn hlink
  have hset : (s.allocatePhysicalPages.1.setRw p true).setPageMapping p (s.free 0) =
      { s.allocatePhysicalPages.1.setRw p true with
        pte := update s.pte p (some ⟨s.free 0, true⟩) } := by
    simp [State.setPageMapping, State.setRw, State.modify, State.allocatePhysicalPages, hpresent]
  have hcall : copyCowPage s p x =
      ({ s.allocatePhysicalPages.1.setRw p true with
        pte := update s.pte p (some ⟨s.free 0, true⟩)
        contents := update s.contents (s.free 0)
          (s.contents (s.getPagePhysicalAddress p)) } : State γ).setRw x true := by
    rw [copyCowPage, if_neg hlinked, if_neg (by simp [hout])]
    show (State.copyTo ((s.allocatePhysicalPages.1.setRw p true).setPageMapping p (s.free 0)) p
      (s.getPagePhysicalAddress p)).setRw x true = _
    rw [hset, State.copyTo]
    simp only [update_self]
    rfl
  have hpage := fun q => page_setRw s.allocatePhysicalPages.1 p true q
  rw [hcall]
  refine ⟨rfl, rfl, fun _ => rfl, rfl, fun q => ?_, fun q => ?_, fun side q => ?_⟩
  · exact (hpage q).1.trans (page_setRw _ x true q).1
  · rw [(page_setRw _ x true q).2]
    rw [(hpage q).2]
    show (if q = x then true else if q = p then true else (s.page q).prot.rw) = true ↔ _
    by_cases hx : q = x
    · simp [hx]
    · by_cases hp : q = p <;> simp [hx, hp]
  · rw [link_setRw]
    show (s.allocatePhysicalPages.1.setRw p true).link side q = _
    rw [link_setRw]
    cases side <;> rfl

/-- The entry of the faulting page after `k` calls. -/
def entryAfter (s₀ : State γ) (frame : ℕ) : ℕ → Pte
  | 0 => ⟨frame, false⟩
  | k + 1 => ⟨s₀.free k, true⟩

/-- The state in the loops once the sharers in `done` were dealt with. -/
structure Progress (s₀ s : State γ) (p frame : ℕ) (done : List ℕ) : Prop where
  pteOther : ∀ q, q ≠ p → s.pte q = s₀.pte q
  pteSelf : s.pte p = some (entryAfter s₀ frame done.length)
  free : ∀ i, s.free i = s₀.free (done.length + i)
  allocated : s.allocated = s₀.allocated ++ (List.range done.length).map s₀.free
  old : ∀ f, (∀ i, f ≠ s₀.free i) → s.contents f = s₀.contents f
  new : ∀ i, i < done.length → s.contents (s₀.free i) = s₀.contents frame
  page : ∀ q, SamePage (s₀.page q) (s.page q)
  rw : ∀ q, (s.page q).prot.rw = true ↔
    (s₀.page q).prot.rw = true ∨ q ∈ done ∨ q = p ∧ done ≠ []

theorem progress_start (hp : s₀.pte p = some ⟨frame, false⟩) : Progress s₀ s₀ p frame [] where
  pteOther _ _ := rfl
  pteSelf := hp
  free i := by simp
  allocated := by simp
  old _ _ := rfl
  new i hi := absurd hi (Nat.not_lt_zero i)
  page q := SamePage.refl _
  rw q := by simp

variable (h : Progress s₀ s p frame done)
include h

/-- The faulting page always reads the shared bytes. -/
theorem Progress.reads (hframe : ∀ i, frame ≠ s₀.free i) :
    s.contents (s.getPagePhysicalAddress p) = s₀.contents frame := by
  rw [State.getPagePhysicalAddress, h.pteSelf]
  cases hk : done.length with
  | zero => exact h.old frame hframe
  | succ k => exact h.new k (by omega)

theorem Progress.copied {s' : State γ} (hc : Copied s s' p x)
    (hinj : Injective s₀.free) (hframe : ∀ i, frame ≠ s₀.free i) :
    Progress s₀ s' p frame (done ++ [x]) := by
  have hfree : s.free 0 = s₀.free done.length := h.free 0
  have hlen : (done ++ [x]).length = done.length + 1 := by simp
  have hreads := h.reads hframe
  refine ⟨?_, ?_, ?_, ?_, ?_, ?_, ?_, ?_⟩
  · intro q hq
    rw [hc.pte, update_of_ne hq]
    exact h.pteOther q hq
  · rw [hc.pte, update_self, hfree, hlen]
    rfl
  · intro i
    rw [hc.free, h.free, hlen, Nat.add_assoc, Nat.add_comm 1]
  · rw [hc.allocated, h.allocated, hfree, hlen, range_succ, map_append,
      append_assoc]
    rfl
  · intro f hf
    rw [hc.contents, hfree, update_of_ne (hf _)]
    exact h.old f hf
  · intro i hi
    rw [hc.contents, hreads, hfree]
    by_cases hik : i = done.length
    · rw [hik, update_self]
    · have hne : s₀.free i ≠ s₀.free done.length := fun he => hik (hinj he)
      rw [update_of_ne hne]
      exact h.new i (by omega)
  · intro q
    exact (h.page q).trans (hc.page q)
  · intro q
    rw [hc.rw, h.rw]
    simp only [mem_append, mem_singleton, ne_eq, append_eq_nil_iff,
      cons_ne_nil, and_false, not_false_eq_true, and_true]
    constructor
    · rintro ((h1 | h2 | h3) | h4 | h5)
      · exact Or.inl h1
      · exact Or.inr (Or.inl (Or.inl h2))
      · exact Or.inr (Or.inr h3.1)
      · exact Or.inr (Or.inl (Or.inr h4))
      · exact Or.inr (Or.inr h5)
    · rintro (h1 | (h2 | h3) | h4)
      · exact Or.inl (Or.inl h1)
      · exact Or.inl (Or.inr (Or.inl h2))
      · exact Or.inr (Or.inl h3)
      · exact Or.inr (Or.inr h4)

theorem Progress.sameBut {s' : State γ} (hs : SameBut s s') :
    Progress s₀ s' p frame done where
  pteOther q hq := by rw [hs.pte, h.pteOther q hq]
  pteSelf := by rw [hs.pte, h.pteSelf]
  free i := by rw [hs.free, h.free]
  allocated := by rw [hs.allocated, h.allocated]
  old f hf := by rw [hs.contents, h.old f hf]
  new i hi := by rw [hs.contents, h.new i hi]
  page q := (h.page q).trans (hs.page q).1
  rw q := by rw [(hs.page q).2, h.rw]

end Round

/-! ### The two loops -/

/-- The sharers on one side of `p`, nearest first. -/
structure Branch (s : State γ) (side : Side) (p : ℕ) (xs : List ℕ) : Prop where
  first : s.link side p = xs.headD 0
  links : Links (s.link side) (s.link side.other) p xs 0

section Loops

variable {s s₀ : State γ} {side : Side} {p x frame : ℕ} {xs ys done : List ℕ}

/-- The first sharer of a branch leaves it, and the other branch stays. -/
theorem Branch.relink (h : Branch s side p (x :: xs)) (h' : Branch s side.other p ys)
    (hnd : (p :: x :: xs ++ ys).Nodup) (h0 : 0 ∉ p :: x :: xs ++ ys) :
    Branch (relink s x) side p xs ∧ Branch (Mm.relink s x) side.other p ys := by
  obtain ⟨hpx, hnx, hlinks⟩ := h.links
  simp only [cons_append, nodup_cons, mem_cons, mem_append, not_or] at hnd h0
  obtain ⟨⟨hne, hpxs, hpys⟩, ⟨hxxs, hxys⟩, hnd'⟩ := hnd
  obtain ⟨hp0, hx0, hxs0, hys0⟩ := h0
  have hdisj : ∀ y ∈ xs, y ∉ ys := fun y hy hy' => (nodup_append.mp hnd').2.2 y hy y hy' rfl
  -- the head of the rest is a page of the rest or null
  have hhead : ∀ y, y ∉ xs → y ≠ 0 → y ≠ xs.headD 0 := by
    intro y hy hy0
    cases xs with
    | nil => exact hy0
    | cons z zs =>
      rintro rfl
      exact hy mem_cons_self
  have hself : s.link .prev x ≠ x := by
    cases side with
    | next =>
      rw [show s.link .prev x = p from hpx]
      exact hne
    | prev =>
      rw [hnx]
      exact (hhead x hxxs (Ne.symm hx0)).symm
  have hlink := link_relink hself
  refine ⟨⟨?_, ?_⟩, ?_, ?_⟩
  · rw [hlink, if_neg hne, if_pos ⟨Ne.symm hp0, hpx.symm⟩, hnx]
  · refine hlinks.redirect_first (nodup_append.mp hnd').1 hxs0 (fun y hy => ?_)
      (fun y hy => ?_)
    · have hyx : y ≠ x := fun he => hxxs (he ▸ hy)
      have hyp : ¬ (y ≠ 0 ∧ y = s.link side.other x) := fun he => hpxs (hpx ▸ he.2 ▸ hy)
      rw [hlink, if_neg hyx, if_neg hyp]
    · have hyx : y ≠ x := fun he => hxxs (he ▸ hy)
      have hy0 : y ≠ 0 := fun he => hxs0 (he ▸ hy)
      rw [hlink, if_neg hyx, Side.other_other, hnx, hpx]
      by_cases hyh : y = xs.headD 0
      · rw [if_pos ⟨hy0, hyh⟩, if_pos hyh]
      · rw [if_neg (fun he => hyh he.2), if_neg hyh]
  · rw [hlink, if_neg hne, Side.other_other, hnx,
      if_neg (fun he => hhead p hpxs (Ne.symm hp0) he.2)]
    exact h'.first
  · refine h'.links.congr (fun y hy => ?_) (fun y hy => ?_)
    · have hyx : y ≠ x := fun he => hxys (he ▸ hy)
      have hyh : y ≠ xs.headD 0 :=
        hhead y (fun hm => hdisj y hm hy) (fun he => hys0 (he ▸ hy))
      rw [hlink, if_neg hyx, Side.other_other, hnx, if_neg (fun he => hyh he.2)]
    · have hyx : y ≠ x := fun he => hxys (he ▸ hy)
      have hyp : y ≠ p := fun he => hpys (he ▸ hy)
      rw [Side.other_other, hlink, if_neg hyx, hpx, if_neg (fun he => hyp he.2)]

theorem Branch.of_link {s' : State γ} (h : Branch s side p xs)
    (hl : ∀ side q, s'.link side q = s.link side q) : Branch s' side p xs :=
  ⟨(hl side p).trans h.first, h.links.congr (fun y _ => hl side y) (fun y _ => hl side.other y)⟩

/-- One loop, by induction on the sharers that are left on its side. -/
theorem progress_loop (hinj : Injective s₀.free) (hframe : ∀ i, frame ≠ s₀.free i)
    (hpresent : (s₀.page p).prot.present = true) (hout : ∀ q ∈ xs, (s₀.page q).pagedOut = false)
    (hprog : Progress s₀ s p frame done) (h : Branch s side p xs)
    (h' : Branch s side.other p ys) (hnd : (p :: xs ++ ys).Nodup) (h0 : 0 ∉ p :: xs ++ ys) :
    ∃ s', Loop.Returns (cowRound side) (s, xs.headD 0) s' ∧ Progress s₀ s' p frame (done ++ xs) ∧
      Branch s' side p [] ∧ Branch s' side.other p ys := by
  induction xs generalizing s done with
  | nil => exact ⟨s, Loop.Returns.of_done rfl, by rwa [append_nil], h, h'⟩
  | cons x xs ih =>
    have hx0 : x ≠ 0 := fun he => h0 (by simp [he])
    have hcopied : Copied s (copyCowPage s p x) p x := by
      refine copied_copyCowPage h.links.1 ?_ ?_
      · rw [(hprog.page x).pagedOut]
        exact hout x mem_cons_self
      · rw [(hprog.page p).present]
        exact hpresent
    have hround : cowRound side (s, x) =
        .again (relink (copyCowPage s p x) x, xs.headD 0) := by
      simp only [cowRound, if_neg hx0]
      rw [h.links.1, hcopied.link, h.links.2.1]
    obtain ⟨hb, hb'⟩ := (h.of_link hcopied.link).relink (h'.of_link hcopied.link) hnd h0
    have hprog' : Progress s₀ (relink (copyCowPage s p x) x) p frame (done ++ [x]) :=
      (hprog.copied hcopied hinj hframe).sameBut (sameBut_relink _ x)
    have hsub : (p :: xs ++ ys).Sublist (p :: x :: xs ++ ys) := by
      simp only [cons_append]
      exact (sublist_cons_self x _).cons_cons p
    obtain ⟨s', hret, hp', hb''⟩ := ih (fun q hq => hout q (mem_cons_of_mem _ hq)) hprog' hb hb'
      (hnd.sublist hsub) (fun hm => h0 (hsub.subset hm))
    rw [append_assoc] at hp'
    exact ⟨s', Loop.Returns.of_again hround hret, hp', hb''⟩

/-- The two branches of a page in the middle of a chain. -/
theorem Sharers.branches {l r : List ℕ} (h : Sharers s l p r frame) :
    Branch s .next p r ∧ Branch s .prev p l.reverse := by
  have hlinks := links_append.mp h.linked.links
  have hright := hlinks.2.2.2
  refine ⟨⟨h.linked.next_mem, hright⟩, ?_, ?_⟩
  · rw [h.linked.prev_mem]
    simp [getLastD_eq_getLast?, headD_eq_head?_getD]
  · exact hlinks.1.reverse

/-- What the two loops leave, wherever in its chain the faulting page is. -/
theorem progress_cowLoops {l r : List ℕ} (h : Sharers s₀ l p r frame) (hf : Fresh s₀) :
    ∃ s', (∃ N, ∀ fuel, N ≤ fuel → cowLoops fuel s₀ p = some s') ∧
      Progress s₀ s' p frame (r ++ l.reverse) := by
  have hmem : p ∈ l ++ p :: r := by simp
  have hpte := h.mapped p hmem
  have hframe : ∀ i, frame ≠ s₀.free i := by
    intro i he
    exact hf.unused i p (by rw [frameOf, hpte, ← he]; rfl)
  have hperm : (p :: r ++ l.reverse).Perm (l ++ p :: r) := by
    refine List.Perm.trans ?_ (@List.perm_append_comm _ (p :: r) _)
    exact List.Perm.append_left _ (reverse_perm l)
  have hnd : (p :: r ++ l.reverse).Nodup := hperm.nodup_iff.mpr h.linked.nodup
  have h0 : 0 ∉ p :: r ++ l.reverse := fun hm => h.linked.null_notMem (hperm.mem_iff.mp hm)
  have hpresent := (h.resident p hmem).1
  have hout : ∀ q ∈ r ++ l.reverse, (s₀.page q).pagedOut = false := fun q hq =>
    (h.resident q (hperm.mem_iff.mp (mem_cons_of_mem _ hq))).2
  obtain ⟨hnext, hprev⟩ := h.branches
  obtain ⟨s₁, hret₁, hprog₁, hempty, hb₁⟩ := progress_loop hf.injective hframe hpresent
    (fun q hq => hout q (mem_append_left _ hq)) (progress_start hpte) hnext hprev hnd h0
  change Branch s₁ .prev p l.reverse at hb₁
  -- the second loop runs with nothing left on the other side
  have hsub : (p :: l.reverse ++ []).Sublist (p :: r ++ l.reverse) := by
    rw [append_nil]
    exact (sublist_append_right r l.reverse).cons_cons p
  obtain ⟨s₂, hret₂, hprog₂, -, -⟩ := progress_loop hf.injective hframe hpresent
    (fun q hq => hout q (mem_append_right _ hq)) hprog₁ hb₁ hempty
    (hnd.sublist hsub) (fun hm => h0 (hsub.subset hm))
  refine ⟨s₂, ?_, hprog₂⟩
  obtain ⟨N₁, hN₁⟩ := hret₁
  obtain ⟨N₂, hN₂⟩ := hret₂
  refine ⟨max N₁ N₂, fun fuel hfuel => ?_⟩
  rw [cowLoops, hnext.first, hN₁ fuel (le_trans (le_max_left _ _) hfuel)]
  show Loop.run (cowRound .prev) fuel (s₁, s₁.link .prev p) = some s₂
  rw [hb₁.first]
  exact hN₂ fuel (le_trans (le_max_right _ _) hfuel)

end Loops

/-! ### The whole handler -/

/-- A write to the present page `p` that its protection allows once it is
writable. -/
structure WriteFault (s : State γ) (p addr : ℕ) (ec : ErrorCode) : Prop where
  found : (s.pages.find? fun q => (s.page q).addr == addr) = some p
  write : ec.rw = true
  present : ec.present = true
  notRo : (s.page p).prot.ro = false
  exec : ec.exec = true → (s.page p).prot.executable = true
  user : ec.um = true → (s.page p).prot.user = true

section Handler

variable {s s₀ : State γ} {p frame addr : ℕ} {l r done : List ℕ} {ec : ErrorCode}

/-- Marking the file dirty maps the page to the frame it has. -/
theorem Progress.markDirty (h : Progress s₀ s p frame done) (hne : done ≠ [])
    (hpresent : (s₀.page p).prot.present = true) (reg : MappedRegion) :
    Progress s₀ (markDirty s p addr reg) p frame done := by
  obtain ⟨k, hk⟩ : ∃ k, done.length = k + 1 :=
    Nat.exists_eq_succ_of_ne_zero (by simpa using hne)
  have hpte := h.pteSelf
  rw [hk] at hpte
  have hrw := fun q => page_setRw s p true q
  have hmap : (Mm.markDirty s p addr reg).pte =
      update s.pte p (some ⟨s₀.free k, true⟩) := by
    have hp : (s.page p).prot.present = true := by rw [(h.page p).present, hpresent]
    simp [Mm.markDirty, State.setPageMapping, State.setRw, State.modify,
      State.getPagePhysicalAddress, hpte, entryAfter, hp]
  have hpage : (Mm.markDirty s p addr reg).page = (s.setRw p true).page := rfl
  refine ⟨?_, ?_, h.free, h.allocated, h.old, h.new, ?_, ?_⟩
  · intro q hq
    rw [hmap, update_of_ne hq]
    exact h.pteOther q hq
  · rw [hmap, update_self, hk]
    rfl
  · intro q
    rw [hpage]
    exact (h.page q).trans (hrw q).1
  · intro q
    rw [hpage, (hrw q).2]
    by_cases hq : q = p
    · simp [hq, hne]
    · rw [if_neg hq]
      exact h.rw q

/-- A chain with another member is not empty on both sides. -/
theorem Sharers.linked_somewhere (h : Sharers s l p r frame) (hother : r ++ l.reverse ≠ []) :
    (s.link .next p != 0 || s.link .prev p != 0) = true := by
  obtain ⟨hnext, hprev⟩ := h.branches
  have h0 := h.linked.null_notMem
  rw [hnext.first, hprev.first]
  cases hr : r with
  | cons x xs =>
    have hx : x ≠ 0 := fun he => h0 (by simp [hr, he])
    simp [hx]
  | nil =>
    cases hl : l.reverse with
    | nil => exact absurd (by rw [hr, hl]; rfl) hother
    | cons x xs =>
      have hx : x ≠ 0 := by
        intro he
        have hm : x ∈ l := by
          rw [← mem_reverse, hl]
          exact mem_cons_self
        exact h0 (by simp [← he, hm])
      simp [hx]

/-- The handler resolves the fault, and its state is that of the loops. -/
theorem progress_handlePageFault (env : Env γ) (h : Sharers s₀ l p r frame) (hf : Fresh s₀)
    (hw : WriteFault s₀ p addr ec) (hother : r ++ l.reverse ≠ []) :
    ∃ s', (∃ N, ∀ fuel, N ≤ fuel →
        handlePageFault env fuel s₀ addr ec = some (s', .success)) ∧
      Progress s₀ s' p frame (r ++ l.reverse) := by
  obtain ⟨s₁, ⟨N, hN⟩, hprog⟩ := progress_cowLoops h hf
  have hpresent := (h.resident p (by simp)).1
  have hallowed : ((ec.exec && !(s₀.page p).prot.executable) ||
      (ec.rw && (s₀.page p).prot.ro) || (ec.um && !(s₀.page p).prot.user)) = false := by
    have hx : (ec.exec && !(s₀.page p).prot.executable) = false := by
      cases he : ec.exec
      · rfl
      · simp [hw.exec he]
    have hu : (ec.um && !(s₀.page p).prot.user) = false := by
      cases he : ec.um
      · rfl
      · simp [hw.user he]
    rw [hx, hu, hw.notRo]
    simp
  have hlinked := h.linked_somewhere hother
  have hhandler : ∀ fuel, N ≤ fuel → handlePageFault env fuel s₀ addr ec =
      some ((handleRegion env s₁ p addr ec true).1,
        if (handleRegion env s₁ p addr ec true).2 then .success else .unhandled) := by
    intro fuel hfuel
    have hswap : ((s₀.page p).pagedOut && !ec.present) = false := by simp [hw.present]
    simp only [handlePageFault, hw.found, hallowed, hswap, Bool.false_eq_true, if_false, hlinked]
    simp only [hw.write, Bool.and_true, if_true, hN fuel hfuel, ne_eq, not_true_eq_false,
      if_false, Bool.false_or]
  cases hreg : (s₁.page p).region with
  | none =>
    refine ⟨s₁, ⟨N, fun fuel hfuel => ?_⟩, hprog⟩
    rw [hhandler fuel hfuel]
    simp [handleRegion, hreg]
  | some reg =>
    have hro : (s₁.page p).prot.ro = false := by rw [(hprog.page p).ro, hw.notRo]
    refine ⟨markDirty s₁ p addr reg, ⟨N, fun fuel hfuel => ?_⟩,
      hprog.markDirty hother hpresent reg⟩
    rw [hhandler fuel hfuel]
    simp [handleRegion, hreg, hw.present, hw.write, hro]

/-- A frame that is not the last one is lost. -/
theorem not_isolated_of_two (hf : Fresh s₀) {s' : State γ} {chain : List ℕ}
    (hprog : Progress s₀ s' p frame done) (htwo : 2 ≤ done.length) :
    ¬ Isolated s₀ s' chain := by
  intro hiso
  obtain ⟨k, hk⟩ : ∃ k, done.length = k + 2 := ⟨done.length - 2, by omega⟩
  have hmem : s₀.free 0 ∈ s'.allocated.drop s₀.allocated.length := by
    rw [hprog.allocated, drop_left]
    exact mem_map_of_mem (mem_range.mpr (by omega))
  obtain ⟨q, hq, -⟩ := hiso.owned _ hmem
  by_cases hqp : q = p
  · -- the faulting page has the last of the frames
    rw [hqp, frameOf, hprog.pteSelf, hk] at hq
    have hlast : s₀.free (k + 1) = s₀.free 0 := Option.some.inj hq
    exact absurd (hf.injective hlast) (by omega)
  · rw [frameOf, hprog.pteOther q hqp] at hq
    exact hf.unused 0 q hq

/-- With one other sharer the two pages end up with a frame each. -/
theorem isolated_of_one (h : Sharers s₀ l p r frame) (hf : Fresh s₀) (hns : NoSharedWrite s₀)
    {s' : State γ} (hprog : Progress s₀ s' p frame (r ++ l.reverse))
    (hone : (r ++ l.reverse).length = 1) : Isolated s₀ s' (l ++ p :: r) := by
  obtain ⟨x, hx⟩ := length_eq_one_iff.mp hone
  rw [hx] at hprog
  have hchain : ∀ q, q ∈ l ++ p :: r ↔ q = p ∨ q = x := by
    intro q
    have hmem : q ∈ r ++ l.reverse ↔ q = x := by rw [hx, mem_singleton]
    rw [mem_append, mem_cons, ← hmem, mem_append, mem_reverse]
    tauto
  have hframe : ∀ i, frame ≠ s₀.free i := by
    intro i he
    exact hf.unused i p (by rw [frameOf, h.mapped p (by simp), ← he]; rfl)
  have hself : frameOf s' p = some (s₀.free 0) := by
    rw [frameOf, hprog.pteSelf]
    rfl
  have hrest : ∀ q, q ≠ p → frameOf s' q = frameOf s₀ q := by
    intro q hq
    rw [frameOf, hprog.pteOther q hq, frameOf]
  -- a writable page is the faulting one, the other sharer or was writable before
  have hwritable : ∀ q, q ≠ p → Writable s' q → q = x ∨ Writable s₀ q := by
    intro q hq hwq
    obtain hrw | ⟨e, he, hew⟩ := hwq
    · obtain h1 | h2 | h3 := (hprog.rw q).mp hrw
      · exact Or.inr (Or.inl h1)
      · exact Or.inl (mem_singleton.mp h2)
      · exact absurd h3.1 hq
    · rw [hprog.pteOther q hq] at he
      exact Or.inr (Or.inr ⟨e, he, hew⟩)
  have hxframe : ∀ q, q ≠ p → frameOf s₀ q = some frame → q = x := by
    intro q hq hqf
    exact ((hchain q).mp (h.all q hqf)).resolve_left hq
  have hx0 : frameOf s₀ x = some frame := by
    rw [frameOf, h.mapped x ((hchain x).mpr (Or.inr rfl))]
    rfl
  refine ⟨?_, ?_, ?_⟩
  · intro q q' f hwq hwq' hqf hqf'
    by_cases hqp : q = p
    · by_cases hqp' : q' = p
      · rw [hqp, hqp']
      · rw [hqp, hself] at hqf
        rw [hrest q' hqp', ← hqf] at hqf'
        exact absurd hqf' (hf.unused 0 q')
    · by_cases hqp' : q' = p
      · rw [hqp', hself] at hqf'
        rw [hrest q hqp, ← hqf'] at hqf
        exact absurd hqf (hf.unused 0 q)
      · rw [hrest q hqp] at hqf
        rw [hrest q' hqp'] at hqf'
        obtain rfl | hwq₀ := hwritable q hqp hwq
        · rw [hx0] at hqf
          exact (hxframe q' hqp' (hqf'.trans hqf.symm)).symm
        · obtain rfl | hwq₀' := hwritable q' hqp' hwq'
          · rw [hx0] at hqf'
            exact hxframe q hqp (hqf.trans hqf'.symm)
          · exact hns q q' f hwq₀ hwq₀' hqf hqf'
  · intro q hq
    have hold : frameOf s₀ q = some frame := by
      rw [frameOf, h.mapped q hq]
      rfl
    rw [readOf, readOf, hold]
    by_cases hqp : q = p
    · rw [hqp, hself]
      exact congrArg some (hprog.new 0 Nat.one_pos)
    · rw [hrest q hqp, hold]
      exact congrArg some (hprog.old frame hframe)
  · intro f hmem
    rw [hprog.allocated, drop_left] at hmem
    obtain rfl : f = s₀.free 0 := by simpa using hmem
    refine ⟨p, hself, fun q hq => ?_⟩
    by_contra hqp
    change frameOf s' q = _ at hq
    rw [hrest q hqp] at hq
    exact hf.unused 0 q hq

/-- A resolved write fault on a member of a chain of sharers isolates its
members exactly when the chain has two of them. -/
theorem isolated_iff (env : Env γ) (s : State γ) (l : List ℕ) (p : ℕ) (r : List ℕ)
    (frame addr : ℕ) (ec : ErrorCode) (h : Sharers s l p r frame) (hf : Fresh s)
    (hns : NoSharedWrite s) (hw : WriteFault s p addr ec) (hlen : 2 ≤ (l ++ p :: r).length) :
    ∃ s', (∃ N, ∀ fuel, N ≤ fuel → handlePageFault env fuel s addr ec = some (s', .success)) ∧
      (Isolated s s' (l ++ p :: r) ↔ (l ++ p :: r).length = 2) := by
  have hcount : (l ++ p :: r).length = (r ++ l.reverse).length + 1 := by
    simp only [length_append, length_cons, length_reverse]
    omega
  have hother : r ++ l.reverse ≠ [] := by
    intro he
    rw [hcount, he] at hlen
    exact absurd hlen (by simp)
  obtain ⟨s', hret, hprog⟩ := progress_handlePageFault env h hf hw hother
  refine ⟨s', hret, ?_, ?_⟩
  · intro hiso
    by_contra hne
    exact not_isolated_of_two hf hprog (by omega) hiso
  · intro htwo
    exact isolated_of_one h hf hns hprog (by omega)

/-- Pages `1` to `n` in a chain, all on one frame. -/
def chainOf (n : ℕ) : State ℕ where
  page q := ⟨q * 4096, ⟨true, false, true, false, false⟩, false, none, false,
    if q < n then q + 1 else 0, q - 1⟩
  pages := List.range (n + 1)
  pte q := if 1 ≤ q ∧ q ≤ n then some ⟨0x100000, false⟩ else none
  contents f := f
  free i := 0x200000 + 4096 * i
  allocated := []
  dirtyRegions := []

theorem frameOf_chainOf {n q f : ℕ} (h : frameOf (chainOf n) q = some f) :
    (1 ≤ q ∧ q ≤ n) ∧ f = 0x100000 := by
  by_cases hq : 1 ≤ q ∧ q ≤ n
  · simp only [frameOf, chainOf, if_pos hq, Option.map_some, Option.some.injEq] at h
    exact ⟨hq, h.symm⟩
  · simp [frameOf, chainOf, hq] at h

theorem fresh_chainOf (n : ℕ) : Fresh (chainOf n) := by
  refine ⟨fun i j hij => ?_, fun i q hq => ?_⟩
  · change 0x200000 + 4096 * i = 0x200000 + 4096 * j at hij
    omega
  · have hf := (frameOf_chainOf hq).2
    change 0x200000 + 4096 * i = 0x100000 at hf
    omega

theorem noSharedWrite_chainOf (n : ℕ) : NoSharedWrite (chainOf n) := by
  intro p q f hp
  obtain hrw | ⟨e, he, hw⟩ := hp
  · exact absurd hrw (by simp [chainOf])
  · by_cases hq : 1 ≤ p ∧ p ≤ n
    · simp only [chainOf, if_pos hq, Option.some.injEq] at he
      rw [← he] at hw
      cases hw
    · simp [chainOf, hq] at he

theorem sharers_chainOf_two : Sharers (chainOf 2) [] 1 [2] 0x100000 where
  linked := ⟨rfl, rfl, ⟨rfl, rfl, rfl, rfl, trivial⟩, by decide, by decide⟩
  mapped := by decide
  resident := by decide
  all q hq := by
    have := (frameOf_chainOf hq).1
    simp
    omega

theorem sharers_chainOf_three : Sharers (chainOf 3) [1] 2 [3] 0x100000 where
  linked := ⟨rfl, rfl, ⟨rfl, rfl, rfl, rfl, rfl, rfl, trivial⟩, by decide, by decide⟩
  mapped := by decide
  resident := by decide
  all q hq := by
    have := (frameOf_chainOf hq).1
    simp
    omega

/-- The error code of a write to a present page. -/
def presentWrite : ErrorCode := ⟨true, true, false, false⟩

/-- An environment that does nothing. -/
def noEnv : Env ℕ := ⟨fun s _ => (s, .success), fun _ _ => 0⟩

theorem isolated_chain_of_two :
    ∃ s', (∃ N, ∀ fuel, N ≤ fuel →
        handlePageFault noEnv fuel (chainOf 2) 4096 presentWrite = some (s', .success)) ∧
      (Isolated (chainOf 2) s' [1, 2] ↔ [1, 2].length = 2) :=
  isolated_iff noEnv (chainOf 2) [] 1 [2] 0x100000 4096 presentWrite sharers_chainOf_two
    (fresh_chainOf 2) (noSharedWrite_chainOf 2)
    ⟨by decide, rfl, rfl, rfl, by decide, by decide⟩ (by decide)

/-- A write to the middle one of three sharers: the handler reports success and
the first frame it allocated is lost. -/
theorem not_isolated_chain_of_three :
    Sharers (chainOf 3) [1] 2 [3] 0x100000 ∧ Fresh (chainOf 3) ∧ NoSharedWrite (chainOf 3) ∧
    WriteFault (chainOf 3) 2 8192 presentWrite ∧
    ∃ s', (∃ N, ∀ fuel, N ≤ fuel →
        handlePageFault noEnv fuel (chainOf 3) 8192 presentWrite = some (s', .success)) ∧
      ¬ Isolated (chainOf 3) s' [1, 2, 3] := by
  have hw : WriteFault (chainOf 3) 2 8192 presentWrite :=
    ⟨by decide, rfl, rfl, rfl, by decide, by decide⟩
  refine ⟨sharers_chainOf_three, fresh_chainOf 3, noSharedWrite_chainOf 3, hw, ?_⟩
  obtain ⟨s', hret, hprog⟩ := progress_handlePageFault noEnv sharers_chainOf_three
    (fresh_chainOf 3) hw (by decide)
  exact ⟨s', hret, not_isolated_of_two (fresh_chainOf 3) hprog (by decide)⟩

end Handler

end Obos.Mm
