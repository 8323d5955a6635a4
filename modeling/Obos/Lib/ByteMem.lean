/-
Byte-addressed memory with little-endian words.

A memory is a total function from addresses to bytes.  Words are read and
written by `load` and `store` at a width of `w` bytes; `load64`, `store64` are
the eight-byte forms that pointers and sizes use.  The lemmas are the frame
rules a proof about records laid out in memory needs:

* `load_store_self` — a word reads back modulo its width,
* `load_store_apart` — a word is not touched by a store that is apart from it,
* `load_congr` — a word depends on its own bytes only.

`overwrite` is the most general write: it replaces the bytes of one span by
those of another memory and leaves the rest.
-/
import Obos.Lib.Span

/-- Memory contents: one byte for each address. -/
abbrev ByteMem := ℕ → UInt8

namespace ByteMem

/-- The little-endian word of `w` bytes at `a`. -/
def load (m : ByteMem) (a : ℕ) : ℕ → ℕ
  | 0 => 0
  | w + 1 => (m a).toNat + 256 * load m (a + 1) w

/-- Write the low `w` bytes of `v` at `a`, least significant byte first. -/
def store (m : ByteMem) (a w v : ℕ) : ByteMem := fun x =>
  if a ≤ x ∧ x < a + w then UInt8.ofNat (v / 256 ^ (x - a)) else m x

/-- Replace the bytes of `s` by those of `m'`. -/
def overwrite (m : ByteMem) (s : Span) (m' : ByteMem) : ByteMem := fun x =>
  if s.Has x then m' x else m x

/-- The eight-byte word at `a`. -/
def load64 (m : ByteMem) (a : ℕ) : ℕ := m.load a 8

/-- Write the eight-byte word `v` at `a`. -/
def store64 (m : ByteMem) (a v : ℕ) : ByteMem := m.store a 8 v

/-- Fill the span with zero bytes. -/
def zero (m : ByteMem) (s : Span) : ByteMem := m.overwrite s fun _ => 0

/-- Copy `n` bytes from `src` of another memory to `dst`. -/
def transfer (m : ByteMem) (dst : ℕ) (m' : ByteMem) (src n : ℕ) : ByteMem :=
  m.overwrite ⟨dst, n⟩ fun x => m' (src + (x - dst))

/-- Write the bytes `bs` at `a`. -/
def write (m : ByteMem) (a : ℕ) (bs : List UInt8) : ByteMem :=
  m.overwrite ⟨a, bs.length⟩ fun x => bs.getD (x - a) 0

/-- The `n` bytes at `a`. -/
def slice (m : ByteMem) (a n : ℕ) : List UInt8 := (List.range n).map fun i => m (a + i)

/-! ### Single bytes -/

theorem store_of_not_has {m : ByteMem} {a w v x : ℕ} (h : ¬ (Span.mk a w).Has x) :
    m.store a w v x = m x :=
  if_neg h

section

variable {m m' : ByteMem}

theorem overwrite_of_has {s : Span} {x : ℕ} (h : s.Has x) :
    m.overwrite s m' x = m' x :=
  if_pos h

theorem overwrite_of_not_has {s : Span} {x : ℕ} (h : ¬ s.Has x) :
    m.overwrite s m' x = m x :=
  if_neg h

theorem transfer_of_has {dst src n x : ℕ} (h : (Span.mk dst n).Has x) :
    m.transfer dst m' src n x = m' (src + (x - dst)) :=
  overwrite_of_has h

theorem transfer_of_not_has {dst src n x : ℕ} (h : ¬ (Span.mk dst n).Has x) :
    m.transfer dst m' src n x = m x :=
  overwrite_of_not_has h

theorem write_of_has {m : ByteMem} {a x : ℕ} {bs : List UInt8} (h : (Span.mk a bs.length).Has x) :
    m.write a bs x = bs.getD (x - a) 0 :=
  overwrite_of_has h

theorem write_of_not_has {m : ByteMem} {a x : ℕ} {bs : List UInt8}
    (h : ¬ (Span.mk a bs.length).Has x) : m.write a bs x = m x :=
  overwrite_of_not_has h

/-! ### Slices -/

theorem length_slice (m : ByteMem) (a n : ℕ) : (m.slice a n).length = n := by
  rw [slice, List.length_map, List.length_range]

theorem slice_getD {m : ByteMem} {a n x : ℕ} (hx : x < n) : (m.slice a n).getD x 0 = m (a + x) := by
  rw [slice, List.getD_eq_getElem?_getD, List.getElem?_map, List.getElem?_range hx]
  rfl

theorem slice_eq_iff {a b n : ℕ} :
    m.slice a n = m'.slice b n ↔ ∀ i < n, m (a + i) = m' (b + i) := by
  rw [slice, slice, List.map_inj_left]
  exact forall_congr' fun i => by rw [List.mem_range]

/-! ### Words -/

/-- A word depends only on its own bytes. -/
theorem load_congr {a w : ℕ}
    (h : ∀ x, (Span.mk a w).Has x → m x = m' x) : m.load a w = m'.load a w := by
  induction w generalizing a with
  | zero => rfl
  | succ w ih =>
    have hhead : m a = m' a := h a ⟨le_rfl, by simp⟩
    have htail : m.load (a + 1) w = m'.load (a + 1) w := by
      refine ih fun x hx => h x ⟨?_, ?_⟩
      · have := hx.1
        simp only at this ⊢
        omega
      · have := hx.2
        simp only [Span.stop_mk] at this ⊢
        omega
    rw [load, load, hhead, htail]

/-- A word read at another address of another memory. -/
theorem load_shift {a b w : ℕ} (h : ∀ j < w, m (a + j) = m' (b + j)) :
    m.load a w = m'.load b w := by
  induction w generalizing a b with
  | zero => rfl
  | succ w ih =>
    have htail : m.load (a + 1) w = m'.load (b + 1) w := by
      refine ih fun j hj => ?_
      have hnext := h (j + 1) (by omega)
      rw [Nat.add_assoc, Nat.add_comm 1 j, Nat.add_assoc, Nat.add_comm 1 j]
      exact hnext
    have hhead : m a = m' b := h 0 (Nat.succ_pos w)
    rw [load, load, htail, hhead]

theorem load_lt (m : ByteMem) (a w : ℕ) : m.load a w < 256 ^ w := by
  induction w generalizing a with
  | zero => simp [load]
  | succ w ih =>
    have hb : (m a).toNat < 256 := (m a).toNat_lt
    have hr := ih (a + 1)
    rw [load, pow_succ]
    omega

/-- A word reads back, modulo its width. -/
theorem load_store_self (m : ByteMem) (a w v : ℕ) : (m.store a w v).load a w = v % 256 ^ w := by
  induction w generalizing m a v with
  | zero => simp [load, Nat.mod_one]
  | succ w ih =>
    -- the tail is the word of `v / 256` stored one byte further on
    have htail : (m.store a (w + 1) v).load (a + 1) w
        = ((m.store (a + 1) w (v / 256)).load (a + 1) w) := by
      refine load_congr fun x hx => ?_
      have h1 := hx.1
      have h2 := hx.2
      simp only [Span.stop_mk] at h1 h2
      rw [store, if_pos (by omega), store, if_pos (by omega)]
      have hxa : x - a = (x - (a + 1)) + 1 := by omega
      rw [hxa, pow_succ, Nat.div_div_eq_div_mul, Nat.mul_comm 256]
    have hhead : m.store a (w + 1) v a = UInt8.ofNat v := by
      rw [store, if_pos (by omega), Nat.sub_self, pow_zero, Nat.div_one]
    rw [load, htail, ih, hhead, pow_succ, UInt8.toNat_ofNat', Nat.mul_comm (256 ^ w)]
    exact (Nat.mod_mul).symm

/-- A word is not touched by a store apart from it. -/
theorem load_store_apart {m : ByteMem} {a w v b w' : ℕ}
    (h : (Span.mk a w).Apart ⟨b, w'⟩) : (m.store a w v).load b w' = m.load b w' :=
  load_congr fun _ hx => store_of_not_has (h.symm.not_has hx)

/-- A word inside an overwritten span is the new memory's. -/
theorem load_overwrite_within {s : Span} {b w : ℕ}
    (h : (Span.mk b w).Within s) : (m.overwrite s m').load b w = m'.load b w := by
  refine load_congr fun x hx => overwrite_of_has ⟨?_, ?_⟩
  · exact le_trans h.1 hx.1
  · exact lt_of_lt_of_le hx.2 h.2

end

theorem load_zeroes (a w : ℕ) : load (fun _ => 0) a w = 0 := by
  induction w generalizing a with
  | zero => rfl
  | succ w ih => simp [load, ih]

/-! ### Eight-byte words -/

theorem load64_lt (m : ByteMem) (a : ℕ) : m.load64 a < 2 ^ 64 := m.load_lt a 8

theorem load64_store64_self {m : ByteMem} {a v : ℕ} (hv : v < 2 ^ 64) :
    (m.store64 a v).load64 a = v := by
  rw [load64, store64, load_store_self]
  exact Nat.mod_eq_of_lt hv

theorem load64_store64_apart {m : ByteMem} {a v b : ℕ} (h : a + 8 ≤ b ∨ b + 8 ≤ a) :
    (m.store64 a v).load64 b = m.load64 b :=
  load_store_apart h

theorem load64_zero_within {m : ByteMem} {s : Span} {b : ℕ} (h : (Span.mk b 8).Within s) :
    (m.zero s).load64 b = 0 := by
  rw [load64, zero, load_overwrite_within h, load_zeroes]

end ByteMem
