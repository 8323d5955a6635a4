/-
The capacity of the initial swap device.

`swap_resv` takes the pages and a header of 56 bytes off a free node, and
`swap_free` puts the pages alone on the free list; the header is lost.
`swap_free` also counts the new node down, not up.  `Ledger` is the balance
that every allowed history keeps: `nBytesFree` is what is on the list, and
`nNodes` lags behind the length of the list by two for each successful free.

* `ledger_run` — the balance after a whole run,
* `capacity_iff` — the device accounts for its capacity and can give out again
  what was freed exactly when the frees have wrapped `nNodes` around and, for each
  reservation, some free node is large enough already without it,
* `capacity_lost` — a device that is reserved as a whole and freed serves the
  same request no more.
-/
import Obos.SwapIntegrity

namespace Obos.Swap

open DLinked

/-- The nodes of the free list, read from its head. -/
def SwapDev.nodes (d : SwapDev) : List ℕ :=
  toList (FreeList.next d.mem) 0 (2 ^ 64) d.hdr.freeList.head

/-- The accounts of the device agree with its free list, and every reservation can be freed
and made again. -/
structure Conserved (s : State) : Prop where
  bytes : s.dev.hdr.nBytesFree = freeBytes s.dev.mem s.dev.nodes
  count : s.dev.hdr.nNodes = s.dev.nodes.length
  reuse : ∀ id n, (id, n) ∈ s.live → ∀ rb, ∃ d, swapFree s.dev rb id n = .ok d ∧
    ∀ rb', ∃ r, swapResv d rb' n = some (.ok r)

/-- Some free node has the bytes for `n` pages and their header. -/
def HasRoom (s : State) (n : ℕ) : Prop :=
  ∃ x ∈ s.dev.nodes, n * pageSize + swapPageSize ≤ size s.dev.mem x

/-- Whether the call is a `swap_free` that frees something. -/
def frees (s : State) : Op → Bool
  | .free rb id nPages => (swapFree s.dev rb id nPages).isOk
  | _ => false

/-- The number of reservations that a run frees. -/
def countFrees : State → List Op → ℕ
  | _, [] => 0
  | s, op :: ops => (if frees s op then 1 else 0) + ((step s op).map (countFrees · ops)).getD 0

/-! ### The balance -/

/-- The accounts after `k` reservations were freed; `ns` are the free nodes. -/
structure Ledger (s : State) (ns : List ℕ) (k : ℕ) : Prop where
  inv : Inv s ns
  bytes : s.dev.hdr.nBytesFree = freeBytes s.dev.mem ns
  nNodes_lt : s.dev.hdr.nNodes < 2 ^ 64
  nNodes : s.dev.hdr.nNodes + 2 * k ≡ ns.length [MOD 2 ^ 64]

section Ledger

variable {s s' : State} {ns ns' : List ℕ} {k n : ℕ} {e : ℕ × ℕ}

theorem Inv.nodes_eq (h : Inv s ns) : s.dev.nodes = ns :=
  (h.lists.lists ()).toList_eq (h.lists.length_lt ()).le

/-- The free nodes and the reservations are apart, so they are fewer bytes than the buffer. -/
theorem Inv.freeBytes_add_lt (h : Inv s ns) {rs : List Span} (hrs : rs.Sublist (s.live.map span)) :
    freeBytes s.dev.mem ns + (rs.map Span.len).sum < 2 ^ 64 := by
  set regions := ns.map (FreeList.region layout s.dev.mem) with hregions
  have hap : (regions ++ rs).Pairwise Span.Apart := by
    have hall := h.lists.apart
    simp only [FreeList.regions, Finset.univ_unique, Finset.toList_singleton,
      List.flatMap_singleton] at hall
    exact hall.sublist ((hrs.cons _).append_left _)
  have hle := Span.sum_len_le hap (N := s.dev.metadata + (swapHeaderSize + s.dev.hdr.size))
    fun t ht => by
      obtain ht | ht := List.mem_append.mp ht
      · obtain ⟨x, hx, rfl⟩ := List.mem_map.mp ht
        exact (h.inside x hx).2
      · obtain ⟨e, he, rfl⟩ := List.mem_map.mp (hrs.subset ht)
        exact (h.bounds he).2
  have hlen : regions.map Span.len = ns.map (size s.dev.mem) := by
    rw [hregions, List.map_map]
    exact List.map_congr_left fun x _ => Nat.mul_one _
  rw [List.map_append, List.sum_append, hlen] at hle
  exact lt_of_le_of_lt hle h.top

theorem Inv.freeBytes_lt (h : Inv s ns) : freeBytes s.dev.mem ns < 2 ^ 64 :=
  h.freeBytes_add_lt (List.nil_sublist _)

section

variable (h : Ledger s ns k)
include h

theorem Ledger.untouched (hinv : Inv s' ns) (hd : Untouched s.dev s'.dev ns) :
    Ledger s' ns k := by
  refine ⟨hinv, ?_, ?_, ?_⟩
  · rw [hd.hdr, freeBytes_congr hd.sizes]
    exact h.bytes
  · rw [hd.hdr]
    exact h.nNodes_lt
  · rw [hd.hdr]
    exact h.nNodes

theorem Ledger.took (hinv : Inv s' ns') (ht : Took s.dev s'.dev ns ns' n) :
    Ledger s' ns' k := by
  have hlt := h.inv.freeBytes_lt
  have hbytes := ht.bytes
  have hnodes := h.nNodes
  have hnlt := h.nNodes_lt
  refine ⟨hinv, ?_, ?_, ?_⟩
  · rw [ht.nBytesFree, h.bytes, u64sub_of_le (by omega) hlt]
    omega
  · obtain ⟨-, heq⟩ | ⟨-, heq⟩ := ht.nodes
    · exact heq ▸ h.nNodes_lt
    · exact heq ▸ u64sub_lt _ _
  · obtain ⟨hlen, heq⟩ | ⟨hlen, heq⟩ := ht.nodes
    · rw [heq, hlen]
      exact hnodes
    · rw [heq, u64sub]
      rw [Nat.ModEq] at hnodes ⊢
      omega

/-- Freeing adds a node, and the count of the nodes goes down by one. -/
theorem Ledger.gave (hinv : Inv s' (ns ++ [e.1])) (hg : Gave s.dev s'.dev ns e) :
    Ledger s' (ns ++ [e.1]) (k + 1) := by
  have hlt := hinv.freeBytes_lt
  have hbytes : freeBytes s'.dev.mem (ns ++ [e.1]) = freeBytes s.dev.mem ns + e.2 * pageSize := by
    rw [freeBytes, List.map_append, List.sum_append, ← freeBytes, freeBytes_congr hg.sizes]
    simp only [List.map_cons, List.map_nil, List.sum_singleton, hg.size_new]
  have hnodes := h.nNodes
  refine ⟨hinv, ?_, ?_, ?_⟩
  · rw [hg.nBytesFree, h.bytes, hbytes, u64_of_lt (hbytes ▸ hlt)]
  · exact hg.nNodes ▸ u64sub_lt _ _
  · have hnlt := h.nNodes_lt
    rw [hg.nNodes, u64sub, List.length_append, List.length_singleton]
    rw [Nat.ModEq] at hnodes ⊢
    omega

theorem Ledger.step (op : Op) (hok : Allowed s op) :
    ∃ s' ns', step s op = some s' ∧ Ledger s' ns' (k + if frees s op then 1 else 0) := by
  cases op with
  | resv rb nPages =>
    obtain ⟨s', ns', hs', hinv, ⟨hd, rfl⟩ | htook⟩ := h.inv.resv rb hok
    · exact ⟨s', ns', hs', h.untouched hinv (hd ▸ .refl _ _)⟩
    · exact ⟨s', ns', hs', h.took hinv htook⟩
  | free rb id nPages =>
    obtain ⟨st, hst⟩ | ⟨d, j, -, hd, hinv, hgave⟩ := h.inv.free rb hok
    · refine ⟨s, ns, by simp only [Swap.step, hst], ?_⟩
      rw [frees, hst]
      exact h
    · refine ⟨_, ns ++ [id], by simp only [Swap.step, hd]; rfl, ?_⟩
      rw [frees, hd]
      exact h.gave (e := (id, j)) hinv hgave
  | find c =>
    obtain ⟨s', hs', hinv, hd⟩ := h.inv.find c
    exact ⟨s', ns, hs', h.untouched hinv (hd ▸ .refl _ _)⟩
  | copy physMem c =>
    obtain ⟨s', hs', hinv, hd⟩ := h.inv.copy physMem hok
    exact ⟨s', ns, hs', h.untouched hinv hd⟩

theorem ledger_run {ops : List Op} (hops : Run.Meets Allowed step s ops) :
    ∃ s' ns', ops.foldlM step s = some s' ∧ Ledger s' ns' (k + countFrees s ops) := by
  induction ops generalizing s ns k with
  | nil => exact ⟨s, ns, rfl, h⟩
  | cons op ops ih =>
    obtain ⟨t, nt, ht, hl⟩ := h.step op hops.1
    obtain ⟨s', ns', hs', hl'⟩ := ih hl (hops.2 t ht)
    refine ⟨s', ns', ?_, ?_⟩
    · rw [List.foldlM_cons, ht]
      exact hs'
    · rw [countFrees, ht, Option.map_some, Option.getD_some, ← Nat.add_assoc]
      exact hl'

end

theorem ledger_start {mem : ByteMem} {buf bufSize : ℕ} {d : SwapDev} (hsmall : bufSize < 2 ^ 31)
    (htop : buf + bufSize < 2 ^ 64) (hd : initializeInitialSwapDevice mem buf bufSize = .ok d) :
    Ledger (start d) [buf + swapHeaderSize] 0 := by
  obtain ⟨hinv, hsize⟩ := inv_start hsmall htop hd
  obtain ⟨-, rfl⟩ := initialize_ok hd
  refine ⟨hinv, ?_, Nat.one_lt_two_pow (by decide), rfl⟩
  exact ((List.sum_singleton).trans hsize).symm

/-! ### Reserving again -/

/-- A request is served when the search finds a node, and enough bytes are counted. -/
theorem swapResv_found {d : SwapDev} (rb : ByteMem) {page : ℕ} (hn : n ≠ 0) (hvalid : d.valid)
    (hlt : n * pageSize + swapPageSize < 2 ^ 64)
    (hbytes : n * pageSize + swapPageSize ≤ d.hdr.nBytesFree)
    (hfind : findFree d (n * pageSize + swapPageSize) = some page) (hpage : page ≠ 0) :
    ∃ r, swapResv d rb n = some (.ok r) := by
  have harg : ¬ (n = 0 ∨ (!d.valid) = true) := by simp [hn, hvalid]
  simp only [swapResv, if_neg harg, u64_of_lt (show n * pageSize < 2 ^ 64 by omega), u64_of_lt hlt,
    if_neg hbytes.not_gt, hfind, if_neg hpage]
  exact ⟨_, rfl⟩

/-- A request is served when some free node has enough bytes: then there are
enough bytes in total as well. -/
theorem Ledger.resv_iff (h : Ledger s ns k) (rb : ByteMem) (hn : n ≠ 0)
    (hlt : n * pageSize + swapPageSize < 2 ^ 64) :
    (∃ r, swapResv s.dev rb n = some (.ok r)) ↔
      ∃ x ∈ ns, n * pageSize + swapPageSize ≤ size s.dev.mem x := by
  constructor
  · rintro ⟨r, hr⟩
    have harg : ¬ (n = 0 ∨ (!s.dev.valid) = true) := by
      rw [h.inv.valid]
      simp [hn]
    simp only [swapResv, if_neg harg, u64_of_lt (show n * pageSize < 2 ^ 64 by omega),
      u64_of_lt hlt] at hr
    by_cases hfree : s.dev.hdr.nBytesFree < n * pageSize + swapPageSize
    · simp [if_pos hfree] at hr
    rw [if_neg hfree] at hr
    obtain ⟨page, hpage, hmem⟩ := h.inv.findFree_eq (n * pageSize + swapPageSize)
    rw [hpage] at hr
    by_cases h0 : page = 0
    · simp [if_pos h0] at hr
    · exact ⟨page, hmem h0⟩
  · rintro ⟨x, hx, hle⟩
    have hsum : size s.dev.mem x ≤ freeBytes s.dev.mem ns :=
      List.single_le_sum (fun _ _ => Nat.zero_le _) _ (List.mem_map_of_mem hx)
    have hsome : (ns.find? fun page => n * pageSize + swapPageSize ≤ size s.dev.mem page).isSome :=
      List.find?_isSome.mpr ⟨x, hx, decide_eq_true hle⟩
    obtain ⟨y, hy⟩ := Option.isSome_iff_exists.mp hsome
    have hy0 : y ≠ 0 := h.inv.lists.ne_zero (z := ()) (List.mem_of_find?_eq_some hy)
    refine swapResv_found rb hn h.inv.valid hlt ?_ (by rw [h.inv.findFree_find, hy]; rfl) hy0
    rw [h.bytes]
    omega

/-- In a buffer below 2 GiB the tree tells the live ids apart. -/
theorem Inv.soundId (h : Inv s ns) (he : e ∈ s.live) : SoundId s.dev e.1 := by
  intro x hx hcmp
  obtain ⟨j, hj⟩ := h.mem_pages.mp hx
  have hpos : 0 < swapPageSize := by decide
  have hsmall := h.small
  have hb := h.bounds he
  have hb' := h.bounds hj
  exact (eq_of_cmp_eq_zero (b := s.dev.metadata) hb.1 (by omega) hb'.1 (by omega) hcmp).symm

/-- A live reservation can be freed. -/
theorem Inv.swapFree_ok (h : Inv s ns) (rb : ByteMem) (he : e ∈ s.live) :
    ∃ d, swapFree s.dev rb e.1 e.2 = .ok d := by
  have hb := h.bounds he
  have hmeta := h.metadata_ne
  have harg : ¬ (e.2 = 0 ∨ e.1 = 0 ∨ (!s.dev.valid) = true) := by
    rw [h.valid]
    have hpos := (h.within e he).1
    simp only [Bool.not_true, Bool.false_eq_true, or_false]
    omega
  have hfind : ¬ rbFind s.dev.hdr.pages e.1 = none :=
    rbFind_ne_none (h.mem_pages.mpr ⟨e.2, he⟩)
  exact ⟨_, by rw [swapFree, if_neg harg, if_neg hfind]⟩

/-- The free list behind a free, whatever is in the `next` word of what was freed: the nodes
come first as they were, and then that one. -/
theorem Inv.freed (h : Inv s ns) (rb : ByteMem) (he : e ∈ s.live) {m : ByteMem}
    (hm : (FreeList.append (rbLinks s.dev.mem s.dev.hdr.pages rb) s.dev.hdr.freeList e.1).1 = m) :
    Links (FreeList.next m) (FreeList.prev m) 0 ns e.1 ∧
      (∀ x ∈ ns, size m x = size s.dev.mem x) ∧ size m e.1 = e.2 * pageSize := by
  subst hm
  rw [h.pages]
  set m := rbLinks s.dev.mem (s.live.map Prod.fst) rb with hm
  have hlist := h.lists.lists ()
  -- the tree writes into reservations only
  have hsame : ∀ x ∈ ns, FreeList.SameNode s.dev.mem m x := fun x hx =>
    h.lists.sameNode (z := ()) (fun a ha =>
      rbLinks_of_not_has rb fun e' he' => ha _ (Inv.mem_taken he')) hx
  have hfar : ∀ {x}, x ∈ ns → FreeList.Far e.1 x := fun hx =>
    h.lists.far_taken (z := ()) (Inv.mem_taken he) (by unfold swapPageSize; omega) hx
  have htail : s.dev.hdr.freeList.tail ≠ 0 → s.dev.hdr.freeList.tail ∈ ns := fun h0 =>
    h.lists.tail_mem (z := ()) h0
  have hb := h.bounds he
  have htop := h.top
  have hold := fun {x} (hx : x ∈ ns) => FreeList.append_old (m := m) (l := s.dev.hdr.freeList)
    (hfar hx) (fun h0 => h.lists.eq_or_far (z := ()) (w := ()) (htail h0) hx)
    (h.lists.ne_zero (z := ()) hx) (by omega)
  refine ⟨hlist.links.redirect_last hlist.nodup (fun x hx => ?_) fun x hx => ?_, fun x hx => ?_, ?_⟩
  · rw [(hold hx).2.1, hlist.tail_eq, (hsame x hx).next]
  · rw [(hold hx).2.2, (hsame x hx).prev]
  · exact (hold hx).1.trans (hsame x hx).count
  · refine (FreeList.append_new (fun h0 => (hfar (htail h0)).symm)
      (h.lists.tail_lt (z := ()))).1.trans ?_
    exact (size_congr fun a ha => rbLinks_of_kept rb h.spans he ha).trans (h.sizes e he)

/-- What was freed can be reserved again when some node had room before: the search does not
come to the freed one. -/
theorem Ledger.reuse_of_room (h : Ledger s ns k) {d : SwapDev} (rb rb' : ByteMem)
    (he : e ∈ s.live) (hd : swapFree s.dev rb e.1 e.2 = .ok d) {x : ℕ} (hx : x ∈ ns)
    (hle : e.2 * pageSize + swapPageSize ≤ size s.dev.mem x) :
    ∃ r, swapResv d rb' e.2 = some (.ok r) := by
  have hlist := h.inv.lists.lists ()
  obtain ⟨hlinks, hsizes, hnew⟩ := h.inv.freed rb he rfl
  rw [swapFree] at hd
  split_ifs at hd
  obtain rfl := Except.ok.inj hd
  have hlt : freeBytes s.dev.mem ns + (swapPageSize + e.2 * pageSize + 0) < 2 ^ 64 :=
    h.inv.freeBytes_add_lt (List.singleton_sublist.mpr (List.mem_map_of_mem he))
  have hxsum : size s.dev.mem x ≤ freeBytes s.dev.mem ns :=
    List.single_le_sum (fun _ _ => Nat.zero_le _) _ (List.mem_map_of_mem hx)
  have hhead : (FreeList.append (rbLinks s.dev.mem s.dev.hdr.pages rb) s.dev.hdr.freeList
      e.1).2.head = ns.headD e.1 := by
    have hne : s.dev.hdr.freeList.head ≠ 0 := fun h0 =>
      List.ne_nil_of_mem hx (hlist.head_eq_null_iff.mp h0)
    refine (if_neg hne).trans (hlist.head_eq.trans ?_)
    obtain ⟨y, ys, rfl⟩ := List.exists_cons_of_ne_nil (List.ne_nil_of_mem hx)
    rfl
  obtain ⟨page, hpage, hwalk⟩ := hlinks.walk_found (x := x)
    (p := fun page => e.2 * pageSize + swapPageSize ≤ size _ page)
    hlist.null_notMem (h.inv.lists.length_lt ()) hx (decide_eq_true ((hsizes x hx).symm ▸ hle))
  refine swapResv_found rb' (h.inv.within e he).1.ne' h.inv.valid (by omega) ?_
    ((congrArg _ hhead).trans hwalk) (h.inv.lists.ne_zero (z := ()) hpage)
  refine le_of_le_of_eq ?_ (congrArg (fun n => u64 (s.dev.hdr.nBytesFree + n)) hnew).symm
  rw [h.bytes, u64_of_lt (by omega)]
  omega

/-- Of a reservation with a null `next` word: its own node has lost the header. -/
theorem Ledger.room_of_reuse (h : Ledger s ns k) {d : SwapDev} (rb rb' : ByteMem) (he : e ∈ s.live)
    (hnext : FreeList.next s.dev.mem e.1 = 0) (hd : swapFree s.dev rb e.1 e.2 = .ok d)
    (hr : ∃ r, swapResv d rb' e.2 = some (.ok r)) :
    ∃ x ∈ ns, e.2 * pageSize + swapPageSize ≤ size s.dev.mem x := by
  have hok : Allowed s (.free rb e.1 e.2) := ⟨h.inv.soundId he, fun _ => hnext⟩
  obtain ⟨st, hst⟩ | ⟨d', j, hj, hd', hinv, hgave⟩ := h.inv.free rb hok
  · rw [hst] at hd
    cases hd
  obtain rfl : d' = d := Except.ok.inj (hd'.symm.trans hd)
  have hje : j = e.2 := congrArg Prod.snd (h.inv.eq_of_id he hj rfl)
  subst hje
  have hb := h.inv.bounds he
  have htop := h.inv.top
  have hpos : 0 < swapPageSize := by decide
  rw [(h.gave (e := e) hinv hgave).resv_iff rb' (h.inv.within e he).1.ne' (by omega)] at hr
  obtain ⟨x, hx, hle⟩ := hr
  obtain hx | hx := List.mem_append.mp hx
  · exact ⟨x, hx, hgave.sizes x hx ▸ hle⟩
  · -- the new node has the pages, and no room for a header besides
    have hnew : size d'.mem e.1 = e.2 * pageSize := hgave.size_new
    rw [List.mem_singleton.mp hx, hnew] at hle
    omega

/-- The number of nodes is right when the frees have wrapped it around. -/
theorem Ledger.count_iff (h : Ledger s ns k) : s.dev.hdr.nNodes = ns.length ↔ 2 ^ 63 ∣ k := by
  have hlt := h.nNodes_lt
  have hlen := h.inv.lists.length_lt ()
  have hnodes := h.nNodes
  rw [Nat.ModEq] at hnodes
  omega

end Ledger

/-- After every run of the callers on a device below 2 GiB whose steps are all allowed, the
capacity is accounted for and every reservation can be freed and made again if the number of
frees is a multiple of `2 ^ 63` and some free node has room for each of them; and only then, as
far as the reservations without room have a null `next` word. -/
theorem capacity_iff {mem : ByteMem} {buf bufSize : ℕ} {d : SwapDev} (hsmall : bufSize < 2 ^ 31)
    (htop : buf + bufSize < 2 ^ 64) (hd : initializeInitialSwapDevice mem buf bufSize = .ok d)
    {ops : List Op} (hops : Run.Meets Allowed step (start d) ops) :
    ∃ s, ops.foldlM step (start d) = some s ∧
      s.dev.hdr.nBytesFree = freeBytes s.dev.mem s.dev.nodes ∧
      ((∀ id n, (id, n) ∈ s.live → HasRoom s n ∨ FreeList.next s.dev.mem id = 0) →
        (Conserved s ↔ 2 ^ 63 ∣ countFrees (start d) ops ∧
          ∀ id n, (id, n) ∈ s.live → HasRoom s n)) := by
  obtain ⟨s, ns, hs, hl⟩ := ledger_run (ledger_start hsmall htop hd) hops
  rw [Nat.zero_add] at hl
  have hnodes := hl.inv.nodes_eq
  refine ⟨s, hs, hnodes ▸ hl.bytes, fun hcase => ⟨fun hc => ?_, fun ⟨hk, hroom⟩ => ?_⟩⟩
  · refine ⟨hl.count_iff.mp (hnodes ▸ hc.count), fun id n he => (hcase id n he).elim (fun hroom => hroom) ?_⟩
    intro hnext
    obtain ⟨d', hd', hr⟩ := hc.reuse id n he mem
    obtain ⟨x, hx, hle⟩ := hl.room_of_reuse mem mem he hnext hd' (hr mem)
    exact ⟨x, hnodes ▸ hx, hle⟩
  · refine ⟨hnodes ▸ hl.bytes, hnodes ▸ hl.count_iff.mpr hk, fun id n he rb => ?_⟩
    obtain ⟨d', hd'⟩ := hl.inv.swapFree_ok rb he
    obtain ⟨x, hx, hle⟩ := hroom id n he
    exact ⟨d', hd', fun rb' => hl.reuse_of_room rb rb' he hd' (hnodes ▸ hx) hle⟩

/-- One page is reserved on a fresh device. -/
theorem capacity_iff_reserved :
    ∃ s, [Op.resv (fun _ => 0) 1].foldlM step
      (start (freshDevice (fun _ => 0) 0x100000 2097216)) = some s ∧ Conserved s := by
  obtain ⟨s, hs, -, hiff⟩ := @capacity_iff (fun _ => 0) 0x100000 2097216 _ (by norm_num)
    (by norm_num) (if_neg (by decide)) [.resv (fun _ => 0) 1] (by decide +kernel)
  have hrun : ([Op.resv (fun _ => 0) 1].foldlM step
      (start (freshDevice (fun _ => 0) 0x100000 2097216))).map
        (fun s => (s.live, s.dev.nodes, size s.dev.mem 0x100040)) =
      some ([(3141584, 1)], [0x100040], 2092944) := by
    decide +kernel
  rw [hs, Option.map_some, Option.some.injEq, Prod.mk.injEq, Prod.mk.injEq] at hrun
  obtain ⟨hlive, hnodes, hsize⟩ := hrun
  have hroom : ∀ id n, (id, n) ∈ s.live → HasRoom s n := by
    intro id n he
    rw [hlive, List.mem_singleton, Prod.mk.injEq] at he
    refine ⟨0x100040, by simp [hnodes], ?_⟩
    rw [hsize, he.2]
    decide
  exact ⟨s, hs, (hiff fun id n he => Or.inl (hroom id n he)).mpr ⟨by decide +kernel, hroom⟩⟩

/-- A device of 2097328 bytes is reserved as a whole, and freed: it has one free
node and counts `2 ^ 64 - 1`, and it does not serve the same request again. -/
theorem capacity_lost :
    initializeInitialSwapDevice (fun _ => 0) 0x100000 2097328 =
      .ok (freshDevice (fun _ => 0) 0x100000 2097328) ∧
    ∃ s, [Op.resv (fun _ => 0) 512, .free (fun _ => 0) 0x100040 512].foldlM step
        (start (freshDevice (fun _ => 0) 0x100000 2097328)) = some s ∧
      ¬ Conserved s ∧ ∀ r, swapResv s.dev (fun _ => 0) 512 ≠ some (.ok r) := by
  have hrun : ([Op.resv (fun _ => 0) 512, .free (fun _ => 0) 0x100040 512].foldlM step
      (start (freshDevice (fun _ => 0) 0x100000 2097328))).map
        (fun s => (s.dev.hdr.nNodes, s.dev.nodes,
          (swapResv s.dev (fun _ => 0) 512).map Except.isOk)) =
      some (2 ^ 64 - 1, [0x100040], some false) := by
    decide +kernel
  obtain ⟨s, hs, hsees⟩ := Option.map_eq_some_iff.mp hrun
  rw [Prod.mk.injEq, Prod.mk.injEq] at hsees
  obtain ⟨hcount, hnodes, hresv⟩ := hsees
  refine ⟨if_neg (by decide), s, hs, fun hc => ?_, fun r hr => ?_⟩
  · have hlen := hc.count
    rw [hcount, hnodes] at hlen
    cases hlen
  · rw [hr] at hresv
    simp [Except.isOk, Except.toBool] at hresv

end Obos.Swap
