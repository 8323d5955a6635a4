/-
Reading swapped-out pages back (`swap_write` and `swap_read` of `mm/disk_swap.c`).

Both calls turn a byte position of the device into a block number.  `swap_write` rounds the
position down and `swap_read` rounds it up, and each of them transfers the whole blocks that the
pages have room for.

* `roundTrip_iff` — the pages come back, and only their reservation is written to, exactly when
  the position and the size are whole blocks;
* `unaligned_lost` — a page that is written 100 bytes into its reservation is read back shifted.
-/
import Obos.DiskSwapSpace

namespace Obos.DiskSwap

open Vfs ByteMem

/-- `nPages` pages that start `off` bytes into the live reservation `t` of a mounted device. -/
structure Inside (s : Swap) (t : Span) (nPages off : ℕ) : Prop where
  mounted : s.metadata.map Header.magic = some headerMagic
  live : t ∈ s.live
  block_pos : 0 < s.io.blkSize
  block_le : s.io.blkSize ≤ pageSize
  pages : nPages ≠ 0
  fits : off + nPages * pageSize ≤ t.len
  reach : t.stop + s.io.vn.baseOffset ≤ 2 ^ 64

/-- The pages come back as they were written, and every other byte of the device is kept. -/
structure RoundTrip (s : Swap) (t : Span) (nPages off : ℕ) : Prop where
  returned : ∀ data buf : ByteMem, ∀ x < nPages * pageSize,
    (swapRead (swapWrite s t.base nPages off data).1 t.base nPages off buf).1 x = data x
  kept : ∀ (data : ByteMem) x,
    x < t.base + s.io.vn.baseOffset ∨ t.stop + s.io.vn.baseOffset ≤ x →
      (swapWrite s t.base nPages off data).1.io.device x = s.io.device x

/-! ### Transfers in whole blocks -/

section

variable {m : ByteMem} {b p n : ℕ}

/-- Away from the start of a block the two roundings are a block apart. -/
theorem roundUp_of_not_dvd (hb : 0 < b) (h : ¬ b ∣ p) : roundUp p b = p / b * b + b := by
  have hmod : p % b ≠ 0 := fun h0 => h (Nat.dvd_of_mod_eq_zero h0)
  have hlt := Nat.mod_lt p hb
  have hdiv := Nat.div_add_mod' p b
  rw [roundUp, if_pos hmod]
  omega

/-- A write of `n` bytes at `p` followed by a read, as the two calls round them. -/
def transferred (m : ByteMem) (b p n : ℕ) (data buf : ByteMem) : ByteMem :=
  buf.transfer 0 (m.transfer (p / b * b) data 0 (n / b * b)) (roundUp p b / b * b) (n / b * b)

theorem transferred_iff (hb : 0 < b) (hn : b ≤ n) :
    (∀ data buf, ∀ x < n, transferred m b p n data buf x = data x) ↔ b ∣ p ∧ b ∣ n := by
  constructor
  · intro h
    constructor
    · -- the read starts with the byte `b`, or with one that was not written
      by_contra hp
      have hread : roundUp p b / b * b = p / b * b + b := by
        rw [roundUp_of_not_dvd hb hp, Nat.add_div_right _ hb, Nat.mul_div_cancel _ hb, Nat.succ_mul]
      have hhas : (Span.mk 0 (n / b * b)).Has 0 :=
        ⟨le_rfl, Nat.mul_pos (Nat.div_pos hn hb) hb |>.trans_eq (Nat.zero_add _).symm⟩
      obtain ⟨v, hv⟩ : ∃ v, m (p / b * b + b) = v := ⟨_, rfl⟩
      have h0 := h (fun x => if x = 0 then v + 1 else v) (fun _ => 0) 0 (hb.trans_le hn)
      rw [transferred, transfer_of_has hhas, hread, Nat.sub_zero, Nat.add_zero, if_pos rfl] at h0
      have hold : m.transfer (p / b * b) (fun x => if x = 0 then v + 1 else v) 0 (n / b * b)
          (p / b * b + b) = v := by
        rw [transfer, overwrite, hv, Nat.add_sub_cancel_left, Nat.zero_add, if_neg hb.ne', ite_self]
      exact absurd (h0.symm.trans hold) (by simp)
    · -- the bytes behind the last whole block are not read
      by_contra hn'
      have hlt : n / b * b < n := lt_of_le_of_ne (Nat.div_mul_le_self n b) fun heq =>
        hn' (heq ▸ Nat.dvd_mul_left b _)
      have hlast := h (fun _ => 1) (fun _ => 0) _ hlt
      rw [transferred, transfer_of_not_has fun hx => absurd hx.2 (by simp)] at hlast
      cases hlast
  · rintro ⟨hp, hn⟩ data buf x hx
    have hup : roundUp p b = p := if_neg (not_not.2 (Nat.mod_eq_zero_of_dvd hp))
    rw [transferred, hup, Nat.div_mul_cancel hp, Nat.div_mul_cancel hn,
      transfer_of_has ⟨x.zero_le, by simpa using hx⟩, transfer_of_has ⟨by simp, by simpa using hx⟩]
    simp

end

/-! ### The two calls -/

section

variable {s : Swap} {t : Span} {nPages off : ℕ}

section

variable (h : Inside s t nPages off)
include h

theorem Inside.start_lt :
    t.base + off + s.io.vn.baseOffset + nPages * pageSize ≤ 2 ^ 64 := by
  have hstop : t.stop = t.base + t.len := rfl
  have := h.fits
  have := h.reach
  omega

theorem Inside.block_le_size : s.io.blkSize ≤ nPages * pageSize :=
  h.block_le.trans (Nat.le_mul_of_pos_left _ (Nat.pos_of_ne_zero h.pages))

/-- The device behind `swap_write`. -/
theorem Inside.swapWrite_eq (h0 : t.base ≠ 0) (data : ByteMem) :
    (swapWrite s t.base nPages off data).1
      = s.writeBlocks ((t.base + off + s.io.vn.baseOffset) / s.io.blkSize)
          (nPages * pageSize / s.io.blkSize) data := by
  obtain ⟨hdr, hmeta, hmagic⟩ := Option.map_eq_some_iff.1 h.mounted
  have hle := h.start_lt
  have hsize := h.block_pos.trans_le h.block_le_size
  rw [swapWrite, if_neg (not_or.2 ⟨h0, h.pages⟩), hmeta]
  dsimp only
  rw [if_neg (not_not.2 hmagic), Swap.blockAt, u64_of_lt (by omega), u64_of_lt (by omega)]

theorem Inside.swapRead_eq (h0 : t.base ≠ 0) (data buf : ByteMem) :
    (swapRead (swapWrite s t.base nPages off data).1 t.base nPages off buf).1
      = transferred s.io.device s.io.blkSize (t.base + off + s.io.vn.baseOffset)
          (nPages * pageSize) data buf := by
  obtain ⟨hdr, hmeta, hmagic⟩ := Option.map_eq_some_iff.1 h.mounted
  have hle := h.start_lt
  have hblock := h.block_pos
  have hsize := h.block_le_size
  have hup : roundUp (t.base + off + s.io.vn.baseOffset) s.io.blkSize < 2 ^ 64 := by
    have := Nat.mod_lt (t.base + off + s.io.vn.baseOffset) hblock
    unfold roundUp
    split <;> omega
  have hmeta' : (swapWrite s t.base nPages off data).1.metadata = some hdr := by
    rw [h.swapWrite_eq h0]
    exact hmeta
  rw [swapRead, if_neg (not_or.2 ⟨h0, h.pages⟩), hmeta']
  dsimp only
  rw [if_neg (not_not.2 hmagic), h.swapWrite_eq h0]
  simp only [Swap.writeBlocks, Swap.written, State.setDevice]
  rw [u64_of_lt (x := nPages * pageSize) (by omega),
    u64_of_lt (x := t.base + off + s.io.vn.baseOffset) (by omega), u64_of_lt hup, transferred]

end

/-- Pages come back as they were written, and nothing but their reservation changes, exactly when
their place on the device starts a block and they fill whole blocks. -/
theorem roundTrip_iff (h : Inside s t nPages off) :
    RoundTrip s t nPages off ↔ t.base ≠ 0 ∧
      s.io.blkSize ∣ t.base + off + s.io.vn.baseOffset ∧ s.io.blkSize ∣ nPages * pageSize := by
  have hpos := h.block_pos.trans_le h.block_le_size
  constructor
  · intro hr
    have h0 : t.base ≠ 0 := by
      intro h0
      -- the calls refuse the reservation at zero
      have hbyte := hr.returned (fun _ => 1) (fun _ => 0) 0 hpos
      rw [swapRead, if_pos (.inl h0)] at hbyte
      cases hbyte
    exact ⟨h0, (transferred_iff h.block_pos h.block_le_size).1 fun data buf => by
      rw [← h.swapRead_eq h0]; exact hr.returned data buf⟩
  · rintro ⟨h0, hp, hn⟩
    constructor
    · intro data buf
      rw [h.swapRead_eq h0]
      exact (transferred_iff h.block_pos h.block_le_size).2 ⟨hp, hn⟩ data buf
    · intro data x hx
      rw [h.swapWrite_eq h0, Swap.writeBlocks]
      refine transfer_of_not_has fun hhas => ?_
      rw [Nat.div_mul_cancel hp, Nat.div_mul_cancel hn] at hhas
      have hstop : t.stop = t.base + t.len := rfl
      have := hhas.1
      have := hhas.2
      have := h.fits
      simp only [Span.stop_mk] at *
      omega

end

/-! ### A reservation of two pages -/

/-- Two pages of the swap file on `blankDisk`. -/
theorem resv_two_pages : ∃ s, step 1 (mounted ⟨formatted blankDisk, none, [], []⟩ fun _ => 0)
    (.resv 2) = some s ∧ s.io.blkSize = 512 ∧ s.io.vn.baseOffset = 0 ∧
      ∀ off ≤ 4096, Inside s ⟨7680, 8192⟩ 1 off := by
  have hrun : (step 1 (mounted ⟨formatted blankDisk, none, [], []⟩ fun _ => 0) (.resv 2)).map
      (fun s => (s.metadata.map Header.magic, s.live, s.io.blkSize, s.io.vn.baseOffset))
        = some (some headerMagic, [⟨7680, 8192⟩], 512, 0) := by decide +kernel
  obtain ⟨s, hs, heq⟩ := Option.map_eq_some_iff.1 hrun
  obtain ⟨hmagic, hlive, hblk, hbase⟩ : _ ∧ _ ∧ _ ∧ _ := by simpa only [Prod.mk.injEq] using heq
  refine ⟨s, hs, hblk, hbase, fun off hoff => ⟨hmagic, ?_, ?_, ?_, one_ne_zero, ?_, ?_⟩⟩
  · exact hlive ▸ List.mem_cons_self
  all_goals simp only [hblk, hbase, Span.stop_mk, pageSize]; omega

theorem roundTrip_iff_two_pages : ∃ s,
    step 1 (mounted ⟨formatted blankDisk, none, [], []⟩ fun _ => 0) (.resv 2) = some s ∧
      RoundTrip s ⟨7680, 8192⟩ 1 512 := by
  obtain ⟨s, hs, hblk, hbase, hin⟩ := resv_two_pages
  refine ⟨s, hs, (roundTrip_iff (hin 512 (by decide))).2 ⟨by decide, ?_, ?_⟩⟩
  · rw [hblk, hbase]; decide
  · rw [hblk]; decide

/-- A page 100 bytes into the reservation: it is written from the block of that byte on and read
from the next block on. -/
theorem unaligned_lost : ∃ s,
    step 1 (mounted ⟨formatted blankDisk, none, [], []⟩ fun _ => 0) (.resv 2) = some s ∧
      Inside s ⟨7680, 8192⟩ 1 100 ∧ ¬ RoundTrip s ⟨7680, 8192⟩ 1 100 := by
  obtain ⟨s, hs, hblk, hbase, hin⟩ := resv_two_pages
  refine ⟨s, hs, hin 100 (by decide), fun hr => ?_⟩
  have hbyte := hr.returned (fun x => if x = 0 then 1 else 0) (fun _ => 0) 0 (by decide)
  rw [(hin 100 (by decide)).swapRead_eq (by decide), hblk, hbase, transferred,
    transfer_of_has (by decide), transfer_of_has (by decide)] at hbyte
  cases hbyte

end Obos.DiskSwap
