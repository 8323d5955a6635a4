/-
Kernel strings (`utils/string.c`).

A string of up to 32 bytes lies in the object itself, in 33 bytes with room for the NUL; a
longer one lies in a block of `cap` bytes, a multiple of 32.  The block has no byte for the NUL
of its own: a length that is a multiple of 32 fills it.  Shrinking clears bytes behind the old
end, as many as the string loses, and a capacity below the old one makes `memzero` clear the
whole memory.  An access outside the object's bytes or the block has no result.

* `IsString` — the object holds the bytes `xs` and a NUL,
* `IsString.setCapacityString`, `IsString.resizeString` — when the two calls everything else is
  made of stay inside, and what they leave,
* `strings_follow_iff` — when a run of calls keeps every string equal to its byte list.
-/
import Obos.Machine
import Obos.Lib.Block
import Obos.Lib.Run

namespace Obos.KernelString

open Function List
open Option (bind_eq_some_iff bind_some getD_some map_bind map_eq_some_iff map_some)
open Block (put fill realloc length_realloc length_put put_append fill_eq)

/-- `string`.  The block is missing while the bytes are in `sso`. -/
structure Str where
  sso : List UInt8
  ls : Option (List UInt8)
  len : ℕ
  cap : ℕ
  deriving DecidableEq, Repr

/-- `(n + 0x1f) & ~0x1f`. -/
def roundUp (n : ℕ) : ℕ := u64 (n + 0x1f) / 32 * 32

namespace Str

/-- `OBOS_GetStringPtr`: the memory it points to. -/
def getStringPtr (s : Str) : Option (List UInt8) := if s.cap ≤ 32 then some s.sso else s.ls

/-- The object once that memory has been written. -/
def withPtr (s : Str) (l : List UInt8) : Str :=
  if s.cap ≤ 32 then { s with sso := l } else { s with ls := some l }

/-- A write through `OBOS_GetStringPtr`. -/
def write (s : Str) (f : List UInt8 → Option (List UInt8)) : Option Str :=
  s.getStringPtr.bind fun l => (f l).map s.withPtr

variable (junk : ℕ → UInt8)

/-- `OBOS_SetCapacityString`; fresh memory holds `junk`. -/
def setCapacityString (s : Str) (cap : ℕ) : Option Str :=
  if cap ≤ 32 then some s
  else
    let cap := roundUp cap
    let oldCap := s.cap
    let ls := realloc (s.ls.getD []) cap junk
    let ls := if oldCap ≤ 32 then put ls 0 (s.sso.take oldCap) else some ls
    ls.bind fun ls => (fill ls oldCap (u64sub cap oldCap) 0).map fun ls =>
      { s with cap := cap, ls := some ls }

/-- `OBOS_ResizeString` behind the change of the capacity. -/
def setLen (s : Str) (len : ℕ) : Option Str :=
  (s.write fun l => fill l s.len (if len < s.len then s.len - len else len - s.len) 0).bind
    fun s => { s with len := len }.write fun l => put l len [0]

/-- `OBOS_ResizeString`. -/
def resizeString (s : Str) (len : ℕ) : Option Str :=
  (if roundUp len ≠ s.cap then s.setCapacityString junk len else some s).bind fun s =>
    s.setLen len

/-- `OBOS_InitStringLen`, and `OBOS_InitString` of a text of that length.  A long text leaves `sso` as
it was, and nothing reads it from then on; here it is zero. -/
def initStringLen (str : List UInt8) : Option Str :=
  if str.length ≤ 32 then
    (put (List.replicate 33 0) 0 str).map fun sso =>
      { sso := sso, ls := none, len := str.length, cap := 32 }
  else
    (setCapacityString junk { sso := List.replicate 33 0, ls := none, len := 0, cap := 0 }
      str.length).bind fun s =>
      s.ls.bind fun ls => (fill ls 0 s.cap 0).bind fun ls => (put ls 0 str).map fun ls =>
        { s with len := str.length, ls := some ls }

/-- `OBOS_AppendStringC` of the text `str`. -/
def appendStringC (s : Str) (str : List UInt8) : Option Str :=
  let newlen := u64 (s.len + str.length)
  (s.resizeString junk newlen).bind fun s =>
    s.write fun l => put l (u64sub newlen str.length) str

end Str

/-- The copy of `OBOS_AppendStringS`. -/
def Str.copyText (obj str : Str) (newlen : ℕ) : Option Str :=
  (str.getStringPtr.bind fun l => Block.get l 0 str.len).bind fun bytes =>
    obj.write fun l => put l (u64sub newlen str.len) bytes

/-! ### Calls -/

section

variable {ι : Type*} [DecidableEq ι] (junk : ℕ → UInt8)

/-- The calls, on the strings `ι`. -/
inductive Op (ι : Type*) where
  | init (i : ι) (str : List UInt8)
  | appendC (i : ι) (str : List UInt8)
  | appendS (i j : ι)
  | resize (i : ι) (len : ℕ)
  | setCapacity (i : ι) (cap : ℕ)
  deriving DecidableEq, Repr

/-- The strings; those that have not been initialised are missing. -/
abbrev Strings (ι : Type*) := ι → Option Str

/-- `OBOS_AppendStringS`.  The appended string is looked at again behind the resize, also when it is
the string itself. -/
def appendStringS (s : Strings ι) (i j : ι) : Option (Strings ι) :=
  (s i).bind fun obj => (s j).bind fun str =>
    let newlen := u64 (obj.len + str.len)
    (obj.resizeString junk newlen).bind fun obj =>
      let s := update s i (some obj)
      (s j).bind fun str => (obj.copyText str newlen).map fun obj =>
        update s i (some obj)

/-- One call. -/
def step (s : Strings ι) : Op ι → Option (Strings ι)
  | .init i str => (Str.initStringLen junk str).map fun t => update s i (some t)
  | .appendC i str =>
    (s i).bind fun t => (t.appendStringC junk str).map fun t => update s i (some t)
  | .appendS i j => appendStringS junk s i j
  | .resize i len =>
    (s i).bind fun t => (t.resizeString junk len).map fun t => update s i (some t)
  | .setCapacity i cap =>
    (s i).bind fun t => (t.setCapacityString junk cap).map fun t => update s i (some t)

/-- A byte list cut or padded with zeros to the length `n`. -/
def resized (xs : List UInt8) (n : ℕ) : List UInt8 :=
  xs.take n ++ List.replicate (n - xs.length) 0

/-- The calls on byte lists. -/
def spec (t : ι → Option (List UInt8)) : Op ι → ι → Option (List UInt8)
  | .init i str => update t i (some str)
  | .appendC i str => update t i ((t i).map (· ++ str))
  | .appendS i j => update t i ((t i).bind fun xs => (t j).map fun ys => xs ++ ys)
  | .resize i len => update t i ((t i).map fun xs => resized xs len)
  | .setCapacity _ _ => t

/-! ### When a call stays inside -/

/-- The bytes at `OBOS_GetStringPtr` of a string with the capacity `cap`. -/
def room (cap : ℕ) : ℕ := if cap ≤ 32 then 33 else cap

/-- The capacity behind `OBOS_SetCapacityString`. -/
def newCap (s : Str) (cap : ℕ) : ℕ := if cap ≤ 32 then s.cap else roundUp cap

/-- The capacity does not get smaller. -/
def CapOk (s : Str) (cap : ℕ) : Prop := cap ≤ 32 ∨ s.cap ≤ roundUp cap

/-- The new capacity has room for `n` bytes and a NUL, and for the bytes that are cleared behind
the old end. -/
def ResizeOk (s : Str) (n : ℕ) : Prop :=
  CapOk s n ∧ n < room (newCap s n) ∧ 2 * s.len - n ≤ room (newCap s n)

instance (s : Str) (n : ℕ) : Decidable (CapOk s n) := inferInstanceAs (Decidable (_ ∨ _))

instance (s : Str) (n : ℕ) : Decidable (ResizeOk s n) := inferInstanceAs (Decidable (_ ∧ _))

/-- A text that is initialised leaves room for its NUL, the string of any other call has been
initialised and the call stays inside, and a string that is appended to itself holds zeros. -/
def OpOk (s : Strings ι) : Op ι → Prop
  | .init _ str => str.length ≤ 32 ∨ str.length < roundUp str.length
  | .appendC i str => ∃ obj ∈ s i, ResizeOk obj (obj.len + str.length)
  | .appendS i j => ∃ obj ∈ s i, ∃ str ∈ s j, ResizeOk obj (obj.len + str.len) ∧
      (i = j → ∀ b ∈ (obj.getStringPtr.getD []).take obj.len, b = 0)
  | .resize i len => ∃ obj ∈ s i, ResizeOk obj len
  | .setCapacity i cap => ∃ obj ∈ s i, CapOk obj cap

end

/-! ### One string -/

/-- What the calls rely on whatever the string holds. -/
structure Sized (s : Str) : Prop where
  cap_le : 32 ≤ s.cap
  cap_lt : s.cap < 2 ^ 64
  sso : s.sso.length = 33

/-- The object holds the bytes `xs` and a NUL. -/
structure IsString (s : Str) (xs : List UInt8) : Prop extends Sized s where
  len : s.len = xs.length
  ptr : ∃ l, s.getStringPtr = some l ∧ l.length = room s.cap ∧ xs ++ [0] <+: l

section

variable {s s' : Str} {xs ys l : List UInt8} {n : ℕ} {junk : ℕ → UInt8}

theorem roundUp_lt : roundUp n < 2 ^ 64 :=
  lt_of_le_of_lt (Nat.div_mul_le_self _ _) (u64_lt _)

theorem le_room (cap : ℕ) : cap ≤ room cap := by
  rw [room]
  split_ifs <;> omega

@[simp] theorem Str.getStringPtr_withPtr : (s.withPtr l).getStringPtr = some l := by
  rw [withPtr]
  split_ifs with h
  · exact if_pos h
  · exact if_neg h

@[simp] theorem Str.cap_withPtr : (s.withPtr l).cap = s.cap := by
  rw [withPtr]
  split_ifs <;> rfl

@[simp] theorem Str.len_withPtr : (s.withPtr l).len = s.len := by
  rw [withPtr]
  split_ifs <;> rfl

theorem Str.write_eq_some {f : List UInt8 → Option (List UInt8)} (h : s.write f = some s') :
    ∃ l m, s.getStringPtr = some l ∧ f l = some m ∧ s' = s.withPtr m := by
  obtain ⟨l, hl, h⟩ := bind_eq_some_iff.mp h
  obtain ⟨m, hm, h⟩ := map_eq_some_iff.mp h
  exact ⟨l, m, hl, hm, h.symm⟩

theorem Str.write_eq {f : List UInt8 → Option (List UInt8)} {m : List UInt8}
    (hl : s.getStringPtr = some l) (hm : f l = some m) : s.write f = some (s.withPtr m) := by
  rw [write, hl, bind_some, hm, map_some]

/-- The bytes of a string are determined by the object. -/
theorem IsString.unique (h : IsString s xs) (h' : IsString s ys) : xs = ys := by
  obtain ⟨l, hl, -, hxs⟩ := h.ptr
  obtain ⟨l', hl', -, hys⟩ := h'.ptr
  obtain rfl := Option.some.inj (hl.symm.trans hl')
  have hlen : (xs ++ [0]).length = (ys ++ [0]).length := by
    rw [length_append, length_append, ← h.len, ← h'.len]
  exact append_cancel_right ((prefix_of_prefix_length_le hxs hys hlen.le).eq_of_length hlen)

theorem IsString.len_lt (h : IsString s xs) : xs.length < room s.cap := by
  obtain ⟨l, -, hlen, hpre⟩ := h.ptr
  have hle := hpre.length_le
  rw [length_append, length_singleton] at hle
  omega

theorem Sized.withPtr (h : Sized s) {m : List UInt8} (hlen : m.length = room s.cap) :
    Sized (s.withPtr m) where
  cap_le := by rw [Str.cap_withPtr]; exact h.cap_le
  cap_lt := by rw [Str.cap_withPtr]; exact h.cap_lt
  sso := by
    rw [Str.withPtr]
    split_ifs with hcap
    · rw [hlen, room, if_pos hcap]
    · exact h.sso

/-- The string that `m` holds once it is written to the object's memory. -/
theorem Sized.isString (h : Sized s) {m : List UInt8} (hlen : m.length = room s.cap)
    (hys : s.len = ys.length) (hpre : ys ++ [0] <+: m) : IsString (s.withPtr m) ys where
  toSized := h.withPtr hlen
  len := by rw [Str.len_withPtr, hys]
  ptr := ⟨m, Str.getStringPtr_withPtr, by rw [hlen, Str.cap_withPtr], hpre⟩

/-- A text and its NUL lie in the first `k` bytes of `l`, or the NUL is the first of the zeros. -/
theorem prefix_take_append_zeros {k d : ℕ} (hpre : xs ++ [0] <+: l)
    (hk : xs.length < k ∨ xs.length = k ∧ 0 < d) :
    xs ++ [0] <+: l.take k ++ List.replicate d 0 := by
  rcases hk with hlt | ⟨rfl, hd⟩
  · have htake : xs ++ [0] <+: l.take k :=
      prefix_take_iff.mpr ⟨hpre, by rw [length_append, length_singleton]; omega⟩
    exact htake.trans (prefix_append _ _)
  · have hxs : l.take xs.length = xs :=
      (prefix_iff_eq_take.mp ((prefix_append xs [0]).trans hpre)).symm
    obtain ⟨d, rfl⟩ := Nat.exists_eq_add_one.mpr hd
    rw [hxs, replicate_succ]
    exact (prefix_append_right_inj xs).mpr ⟨List.replicate d 0, rfl⟩

variable (junk) in
/-- The new block of `OBOS_SetCapacityString` before the bytes behind the old capacity are
cleared. -/
theorem Sized.copied (h : Sized s) {cap : ℕ} (hcap : s.cap ≤ cap) (hl : s.getStringPtr = some l)
    (hlen : l.length = room s.cap) :
    ∃ ls, (if s.cap ≤ 32 then
          put (realloc (s.ls.getD []) cap junk) 0 (s.sso.take s.cap)
        else some (realloc (s.ls.getD []) cap junk)) = some ls ∧
      ls.length = cap ∧ ls.take s.cap = l.take s.cap := by
  rw [Str.getStringPtr] at hl
  split_ifs at hl ⊢ with hsmall
  · cases hl
    have hcopied : (s.sso.take s.cap).length = s.cap := by
      rw [length_take, h.sso]
      omega
    have hroom : 0 + (s.sso.take s.cap).length
        ≤ (realloc (s.ls.getD []) cap junk).length := by
      rw [length_realloc, hcopied]
      omega
    obtain ⟨ls, hput, hlslen, htake⟩ := Block.put_spec hroom
    refine ⟨ls, hput, ?_, ?_⟩
    · rw [hlslen, length_realloc]
    · rw [hcopied, Nat.zero_add] at htake
      rw [htake]
      rfl
  · refine ⟨_, rfl, length_realloc, ?_⟩
    rw [hl, getD_some, Block.take_realloc hcap]
    rw [hlen, room, if_neg hsmall]

variable (junk) in
/-- `OBOS_SetCapacityString` moves the string to a block at least as large. -/
theorem IsString.setCapacityString (h : IsString s xs) (hok : CapOk s n) :
    ∃ s', s.setCapacityString junk n = some s' ∧ IsString s' xs ∧ s'.cap = newCap s n := by
  rw [Str.setCapacityString, newCap]
  split_ifs with hn
  · exact ⟨s, rfl, h, rfl⟩
  · have hcap : s.cap ≤ roundUp n := hok.resolve_left hn
    have hsub : s.cap + u64sub (roundUp n) s.cap = roundUp n := by
      rw [u64sub_of_le hcap roundUp_lt]
      omega
    obtain ⟨l, hl, hlen, hpre⟩ := h.ptr
    obtain ⟨ls, hls, hlslen, htake⟩ := h.copied junk hcap hl hlen
    dsimp only
    rw [hls, bind_some, fill_eq (by rw [hlslen, hsub]), map_some, hsub,
      htake, drop_of_length_le hlslen.le, append_nil]
    refine ⟨_, rfl, ⟨⟨h.cap_le.trans hcap, roundUp_lt, h.sso⟩, h.len, ?_⟩, rfl⟩
    by_cases hsmall : roundUp n ≤ 32
    · -- the capacity was 32 already, and the bytes stay in the object
      have heq : s.cap = roundUp n := le_antisymm hcap (hsmall.trans h.cap_le)
      refine ⟨l, ?_, ?_, hpre⟩
      · rw [Str.getStringPtr, if_pos (heq ▸ hsmall)] at hl
        rw [Str.getStringPtr, if_pos hsmall]
        exact hl
      · rw [hlen, heq]
    · refine ⟨_, if_neg hsmall, ?_, prefix_take_append_zeros hpre ?_⟩
      · have hold : (l.take s.cap).length = s.cap := by
          rw [length_take, hlen]
          exact min_eq_left (le_room s.cap)
        rw [length_append, hold, length_replicate, hsub]
        exact (if_neg hsmall).symm
      · have hlt := h.len_lt
        have hle := h.cap_le
        rw [room] at hlt
        split_ifs at hlt <;> omega

/-- A smaller capacity makes `memzero` run over the end of the block. -/
theorem IsString.setCapacityString_none (h : IsString s xs) (hok : ¬ CapOk s n) :
    s.setCapacityString junk n = none := by
  obtain ⟨hn, hcap⟩ := not_or.mp hok
  rw [Nat.not_le] at hcap
  have hcap_lt := h.cap_lt
  have hover : ∀ ls : List UInt8, ls.length = roundUp n →
      fill ls s.cap (u64sub (roundUp n) s.cap) 0 = none := by
    intro ls hls
    rw [fill, if_neg]
    rw [hls, u64sub, Nat.mod_eq_of_lt (by omega)]
    omega
  rw [Str.setCapacityString, if_neg hn]
  dsimp only
  split_ifs with hsmall
  · cases hput : put (realloc (s.ls.getD []) (roundUp n) junk) 0
        (s.sso.take s.cap) with
    | none => rfl
    | some ls =>
      rw [bind_some, hover ls (by rw [length_put hput, length_realloc])]
      rfl
  · rw [bind_some, hover _ length_realloc]
    rfl

theorem length_resized : (resized xs n).length = n := by
  rw [resized, length_append, length_take, length_replicate]
  omega

/-- The first `n` bytes once those behind the old end are cleared. -/
theorem take_cleared {d : ℕ} {rest : List UInt8}
    (hd : d = if n < xs.length then xs.length - n else n - xs.length) :
    (xs ++ List.replicate d 0 ++ rest).take n = resized xs n := by
  rw [resized]
  split_ifs at hd with hlt
  · rw [append_assoc, take_append_of_le_length hlt.le, Nat.sub_eq_zero_of_le hlt.le,
      replicate_zero, append_nil]
  · rw [Nat.not_lt] at hlt
    have hlen : (xs ++ List.replicate d 0).length = n := by
      rw [length_append, length_replicate]
      omega
    rw [take_of_length_le hlt, ← hd, ← hlen, take_left]

/-- The cut or the padding fits. -/
theorem IsString.setLen (h : IsString s xs) (hn : n < room s.cap)
    (hcleared : 2 * s.len - n ≤ room s.cap) :
    ∃ s', s.setLen n = some s' ∧ IsString s' (resized xs n) := by
  obtain ⟨l, hl, hlen, hpre⟩ := h.ptr
  have hlt := h.len_lt
  rw [h.len] at hcleared
  have htake : l.take xs.length = xs :=
    (prefix_iff_eq_take.mp ((prefix_append xs [0]).trans hpre)).symm
  obtain ⟨d, hd⟩ : ∃ d, d = if n < xs.length then xs.length - n else n - xs.length := ⟨_, rfl⟩
  have hfits : xs.length + d ≤ l.length := by
    rw [hlen, hd]
    split_ifs <;> omega
  -- the memory once the bytes behind the old end are cleared
  obtain ⟨m, hm⟩ : ∃ m, m = xs ++ List.replicate d 0 ++ l.drop (xs.length + d) := ⟨_, rfl⟩
  have hfill : fill l xs.length d 0 = some m := by rw [fill_eq hfits, htake, hm]
  have hmlen : m.length = room s.cap := by
    rw [hm, length_append, length_append, length_replicate, length_drop]
    omega
  have hroom : n + [(0 : UInt8)].length ≤ m.length := by
    rw [hmlen, length_singleton]
    omega
  obtain ⟨m', hput, hmlen', htake'⟩ := Block.put_spec hroom
  rw [hm, length_singleton, take_cleared hd] at htake'
  have hsized : Sized { s.withPtr m with len := n } :=
    ⟨(h.withPtr hmlen).cap_le, (h.withPtr hmlen).cap_lt, (h.withPtr hmlen).sso⟩
  refine ⟨Str.withPtr { s.withPtr m with len := n } m', ?_, hsized.isString ?_ length_resized.symm ?_⟩
  · rw [Str.setLen, Str.write_eq hl (by rw [h.len, ← hd]; exact hfill), bind_some]
    exact Str.write_eq Str.getStringPtr_withPtr hput
  · rw [hmlen', hmlen]
    exact congrArg room Str.cap_withPtr.symm
  · rw [← htake']
    exact take_prefix _ _

/-- The cut or the padding leaves the memory. -/
theorem IsString.setLen_none (h : IsString s xs)
    (hn : room s.cap ≤ n ∨ room s.cap < 2 * s.len - n) : s.setLen n = none := by
  obtain ⟨l, hl, hlen, hpre⟩ := h.ptr
  have hlt := h.len_lt
  have hslen := h.len
  rw [Str.setLen]
  refine Option.bind_eq_none_iff.mpr fun s₁ hs₁ => ?_
  obtain ⟨l', m, hl', hm, rfl⟩ := Str.write_eq_some hs₁
  obtain rfl := Option.some.inj (hl.symm.trans hl')
  -- the bytes behind the old end are cleared, so the NUL is what leaves the memory
  have hfits : s.len + (if n < s.len then s.len - n else n - s.len) ≤ l.length := by
    by_contra hover
    rw [fill, if_neg hover] at hm
    cases hm
  rw [hlen] at hfits
  have hmlen : m.length = room s.cap := by
    rw [← hlen]
    exact Block.length_fill hm
  rw [Str.write]
  refine Option.bind_eq_none_iff.mpr fun m' hm' => ?_
  obtain rfl := Option.some.inj (Str.getStringPtr_withPtr.symm.trans hm')
  rw [put, if_neg, Option.map_none]
  rw [length_singleton, hmlen]
  split_ifs at hfits <;> omega

variable (junk) in
/-- `OBOS_ResizeString` cuts or pads the string behind a change of its capacity. -/
theorem IsString.resizeString_eq (h : IsString s xs) (hcap : CapOk s n) :
    ∃ s₁, s.resizeString junk n = s₁.setLen n ∧ IsString s₁ xs ∧ s₁.cap = newCap s n := by
  rw [Str.resizeString]
  by_cases hround : roundUp n = s.cap
  · rw [if_neg (not_not_intro hround), bind_some]
    exact ⟨s, rfl, h, by rw [newCap, hround, ite_self]⟩
  · obtain ⟨s₁, hs₁, h₁, hcap₁⟩ := h.setCapacityString junk hcap
    rw [if_pos hround, hs₁, bind_some]
    exact ⟨s₁, rfl, h₁, hcap₁⟩

variable (junk) in
theorem IsString.resizeString (h : IsString s xs) (hok : ResizeOk s n) :
    ∃ s', s.resizeString junk n = some s' ∧ IsString s' (resized xs n) := by
  obtain ⟨hcap, hn, hcleared⟩ := hok
  obtain ⟨s₁, he, h₁, hcap₁⟩ := h.resizeString_eq junk hcap
  rw [he]
  exact h₁.setLen (hcap₁ ▸ hn) (by rwa [hcap₁, h₁.len, ← h.len])

theorem IsString.resizeString_none (h : IsString s xs) (hok : ¬ ResizeOk s n) :
    s.resizeString junk n = none := by
  by_cases hcap : CapOk s n
  · obtain ⟨s₁, he, h₁, hcap₁⟩ := h.resizeString_eq junk hcap
    rw [he]
    refine h₁.setLen_none ?_
    by_contra hfits
    rw [not_or, Nat.not_le, Nat.not_lt, hcap₁, h₁.len, ← h.len] at hfits
    exact hok ⟨hcap, hfits⟩
  · have hround : roundUp n ≠ s.cap := fun he => hcap (.inr he.ge)
    rw [Str.resizeString, if_pos hround, h.setCapacityString_none hcap, Option.bind_none]

/-- `OBOS_ResizeString` has a result exactly when it stays inside. -/
theorem IsString.resizeString_iff (h : IsString s xs) :
    (∃ s', s.resizeString junk n = some s' ∧ IsString s' (resized xs n)) ↔ ResizeOk s n := by
  refine ⟨fun ⟨s', hs', _⟩ => ?_, h.resizeString junk⟩
  by_contra hok
  rw [h.resizeString_none hok] at hs'
  cases hs'

theorem IsString.setCapacityString_iff (h : IsString s xs) :
    (∃ s', s.setCapacityString junk n = some s' ∧ IsString s' xs) ↔ CapOk s n := by
  constructor
  · rintro ⟨s', hs', -⟩
    by_contra hok
    rw [h.setCapacityString_none hok] at hs'
    cases hs'
  · intro hok
    obtain ⟨s', hs', h', -⟩ := h.setCapacityString junk hok
    exact ⟨s', hs', h'⟩

/-- The text is copied over the zeros that the resize left. -/
theorem IsString.putText (h : IsString s (resized xs (xs.length + ys.length))) :
    ∃ s', (s.write fun l => put l xs.length ys) = some s' ∧ IsString s' (xs ++ ys) := by
  obtain ⟨l, hl, hlen, rest, hrest⟩ := h.ptr
  rw [resized, take_of_length_le (Nat.le_add_right _ _), Nat.add_sub_cancel_left,
    append_assoc] at hrest
  have hput : put l xs.length ys = some (xs ++ ys ++ ([0] ++ rest)) := by
    rw [← hrest]
    exact put_append (length_replicate).symm
  refine ⟨_, Str.write_eq hl hput, h.isString ?_ ?_ ?_⟩
  · rw [length_put hput, hlen]
  · rw [h.len, length_resized, length_append]
  · rw [← append_assoc]
    exact prefix_append _ _

/-- A string that is copied over itself. -/
theorem IsString.putSelf (h : IsString s xs) :
    ∃ s', (s.write fun l => put l 0 xs) = some s' ∧ IsString s' xs := by
  obtain ⟨l, hl, hlen, rest, hrest⟩ := h.ptr
  rw [append_assoc] at hrest
  have hput : put l 0 xs = some l := by
    have hparts : put ([] ++ xs ++ ([0] ++ rest)) [].length xs
        = some ([] ++ xs ++ ([0] ++ rest)) := put_append rfl
    rw [← hrest]
    exact hparts
  exact ⟨_, Str.write_eq hl hput, h.isString hlen h.len ⟨rest, by rw [append_assoc, hrest]⟩⟩

theorem IsString.lt_of_resizeOk (h : IsString s xs) (hok : ResizeOk s n) : n < 2 ^ 64 := by
  have hlt := h.cap_lt
  have hround : roundUp n < 2 ^ 64 := roundUp_lt
  have hn := hok.2.1
  rw [room, newCap] at hn
  split_ifs at hn <;> omega

theorem Str.len_write {f : List UInt8 → Option (List UInt8)} (h : s.write f = some s') :
    s'.len = s.len := by
  obtain ⟨l, m, -, -, rfl⟩ := write_eq_some h
  exact len_withPtr

/-- The length that an append resizes to is the sum of the lengths, if anything is to come of it. -/
theorem IsString.append_len (h : IsString s xs) {k : ℕ} {s₁ : Str}
    {f : List UInt8 → Option (List UInt8)}
    (hs₁ : s.resizeString junk (u64 (s.len + k)) = some s₁) (hs' : s₁.write f = some s')
    (h' : s'.len = s.len + k) : u64 (s.len + k) = s.len + k ∧ ResizeOk s (s.len + k) := by
  have hok : ResizeOk s (u64 (s.len + k)) := by
    by_contra hok
    rw [h.resizeString_none hok] at hs₁
    cases hs₁
  obtain ⟨s₂, hs₂, h₂⟩ := h.resizeString junk hok
  obtain rfl := Option.some.inj (hs₁.symm.trans hs₂)
  have hlen : u64 (s.len + k) = s.len + k := by
    rw [Str.len_write hs', h₂.len, length_resized] at h'
    exact h'
  exact ⟨hlen, by rwa [hlen] at hok⟩

/-- `OBOS_AppendStringC`. -/
theorem IsString.appendStringC_iff (h : IsString s xs) :
    (∃ s', s.appendStringC junk ys = some s' ∧ IsString s' (xs ++ ys)) ↔
      ResizeOk s (s.len + ys.length) := by
  constructor
  · rintro ⟨s', hs', h'⟩
    obtain ⟨s₁, hs₁, hs'⟩ := bind_eq_some_iff.mp hs'
    exact (h.append_len hs₁ hs' (by rw [h'.len, length_append, h.len])).2
  · intro hok
    have hlt := h.lt_of_resizeOk hok
    obtain ⟨s₁, hs₁, h₁⟩ := h.resizeString junk hok
    rw [h.len] at h₁
    obtain ⟨s', hs', h'⟩ := h₁.putText
    refine ⟨s', ?_, h'⟩
    rw [Str.appendStringC, u64_of_lt hlt, hs₁, bind_some, u64sub_of_le (Nat.le_add_left _ _) hlt,
      Nat.add_sub_cancel, h.len]
    exact hs'

/-- A text in a cleared block that is longer. -/
theorem put_zeros (xs : List UInt8) (d : ℕ) :
    put (List.replicate (xs.length + (d + 1)) 0) 0 xs = some (xs ++ [0] ++ List.replicate d 0) := by
  have hparts : put ([] ++ List.replicate xs.length 0 ++ List.replicate (d + 1) 0)
      [].length xs = some ([] ++ xs ++ List.replicate (d + 1) 0) :=
    put_append length_replicate.symm
  rwa [nil_append, nil_append, ← replicate_add, replicate_succ,
    ← singleton_append, ← append_assoc] at hparts

/-- A long text is copied to a cleared block. -/
theorem initStringLen_of_lt (h : 32 < xs.length) :
    Str.initStringLen junk xs = (put (List.replicate (roundUp xs.length) 0) 0 xs).map
      fun ls => ⟨List.replicate 33 0, some ls, xs.length, roundUp xs.length⟩ := by
  obtain ⟨c, hc⟩ : ∃ c, c = roundUp xs.length := ⟨_, rfl⟩
  have hclt : c < 2 ^ 64 := by rw [hc]; exact roundUp_lt
  -- the block that `OBOS_SetCapacityString` clears is cleared again
  have hclear : ∀ ls : List UInt8, ls.length = c →
      fill ls 0 c 0 = some (List.replicate c 0) := by
    intro ls hls
    rw [fill_eq (by rw [hls, Nat.zero_add]), Nat.zero_add, drop_of_length_le hls.le,
      append_nil]
    rfl
  have hcopy : put (realloc [] c junk) 0 [] = some (realloc [] c junk) :=
    Block.put_eq (Nat.zero_le _)
  rw [Str.initStringLen, if_neg (by omega), Str.setCapacityString, if_neg (by omega)]
  dsimp only
  rw [← hc, if_pos (by omega), take_zero, Option.getD_none, hcopy, bind_some,
    u64sub_of_le (Nat.zero_le _) hclt, Nat.sub_zero, hclear _ length_realloc, map_some,
    bind_some, bind_some, hclear _ length_replicate, bind_some]

variable (junk) in
/-- `OBOS_InitStringLen`. -/
theorem initStringLen_iff :
    (∃ s, Str.initStringLen junk xs = some s ∧ IsString s xs) ↔
      xs.length ≤ 32 ∨ xs.length < roundUp xs.length := by
  by_cases hsmall : xs.length ≤ 32
  · refine iff_of_true ?_ (.inl hsmall)
    have hput := put_zeros xs (32 - xs.length)
    rw [show xs.length + (32 - xs.length + 1) = 33 by omega] at hput
    refine ⟨_, by rw [Str.initStringLen, if_pos hsmall, hput]; rfl,
      ⟨⟨le_rfl, by norm_num, ?_⟩, rfl, _, rfl, ?_, prefix_append _ _⟩⟩
    · exact length_put hput
    · exact length_put hput
  · rw [Nat.not_le] at hsmall
    rw [initStringLen_of_lt hsmall]
    constructor
    · rintro ⟨s, hs, h⟩
      obtain ⟨ls, -, rfl⟩ := map_eq_some_iff.mp hs
      have hlt := h.len_lt
      rw [room] at hlt
      split_ifs at hlt
      · omega
      · exact .inr hlt
    · intro hok
      obtain ⟨d, hd⟩ := Nat.exists_eq_add_of_lt (hok.resolve_left (by omega))
      have hput := put_zeros xs d
      have hbig : ¬ roundUp xs.length ≤ 32 := by omega
      rw [← Nat.add_assoc, ← hd] at hput
      rw [hput, map_some]
      refine ⟨_, rfl, ⟨⟨(Nat.lt_of_not_le hbig).le, roundUp_lt, rfl⟩, rfl, _, if_neg hbig, ?_,
        prefix_append _ _⟩⟩
      rw [length_put hput, length_replicate]
      exact (if_neg hbig).symm

/-- What `memcpy` reads of a string that is appended. -/
theorem IsString.bytes (h : IsString s xs) :
    (s.getStringPtr.bind fun l => Block.get l 0 s.len) = some xs := by
  obtain ⟨l, hl, hlen, hpre⟩ := h.ptr
  have hlt := h.len_lt
  rw [hl, bind_some, Block.get_eq (by rw [h.len]; omega), drop_zero, h.len,
    ← prefix_iff_eq_take.mp ((prefix_append xs [0]).trans hpre)]

theorem IsString.contents (h : IsString s xs) : (s.getStringPtr.getD []).take s.len = xs := by
  obtain ⟨l, hl, -, hpre⟩ := h.ptr
  rw [hl, getD_some, h.len,
    ← prefix_iff_eq_take.mp ((prefix_append xs [0]).trans hpre)]

variable (junk) in
/-- A string that is appended to itself gets its length in zeros. -/
theorem IsString.appendSelf (h : IsString s xs) (hok : ResizeOk s (s.len + s.len)) :
    ∃ s', ((s.resizeString junk (u64 (s.len + s.len))).bind fun s₁ =>
        s₁.copyText s₁ (u64 (s.len + s.len))) = some s' ∧
      IsString s' (xs ++ List.replicate xs.length 0) := by
  have hlt := h.lt_of_resizeOk hok
  obtain ⟨s₁, hs₁, h₁⟩ := h.resizeString junk hok
  have hlen₁ : s₁.len = s.len + s.len := by rw [h₁.len, length_resized]
  have hzeros : resized xs (s.len + s.len) = xs ++ List.replicate xs.length 0 := by
    rw [resized, h.len, take_of_length_le (Nat.le_add_right _ _), Nat.add_sub_cancel]
  obtain ⟨s', hs', h'⟩ := h₁.putSelf
  refine ⟨s', ?_, hzeros ▸ h'⟩
  rw [u64_of_lt hlt, hs₁, bind_some, Str.copyText, h₁.bytes, bind_some, hlen₁,
    u64sub_of_le le_rfl hlt, Nat.sub_self]
  exact hs'

end

/-! ### Runs -/

section

variable {ι : Type*} [DecidableEq ι] {junk : ℕ → UInt8}

/-- Every string that has been initialised holds its byte list. -/
def Agree (s : Strings ι) (t : ι → Option (List UInt8)) : Prop :=
  ∀ i, Option.Rel IsString (s i) (t i)

variable {s : Strings ι} {t : ι → Option (List UInt8)} {i j : ι}

theorem Agree.set (h : Agree s t) (i : ι) {obj : Str} {xs : List UInt8}
    (hobj : IsString obj xs) :
    Agree (update s i (some obj)) (update t i (some xs)) := by
  intro k
  by_cases hk : k = i
  · subst hk
    rw [update_self, update_self]
    exact .some hobj
  · rw [update_of_ne hk, update_of_ne hk]
    exact h k

/-- The string `i` behind a step that wrote it. -/
theorem Agree.of_update {obj : Str} {xs : List UInt8}
    (h : Agree (update s i (some obj)) (update t i (some xs))) :
    IsString obj xs := by
  have hi := h i
  rw [update_self, update_self] at hi
  cases hi with
  | some hobj => exact hobj

/-- A call on one string. -/
theorem Agree.step_iff (h : Agree s t) {f : Str → Option Str} {g : List UInt8 → List UInt8}
    {ok : Str → Prop}
    (hf : ∀ obj xs, IsString obj xs →
      ((∃ obj', f obj = some obj' ∧ IsString obj' (g xs)) ↔ ok obj)) :
    (∃ s', ((s i).bind fun obj => (f obj).map fun obj => update s i (some obj)) = some s' ∧
      Agree s' (update t i ((t i).map g))) ↔ ∃ obj ∈ s i, ok obj := by
  have hi := h i
  generalize hsi : s i = o at hi
  generalize hti : t i = u at hi
  cases hi with
  | none => exact iff_of_false (fun ⟨s', hs', _⟩ => nomatch hs') (fun ⟨obj, hobj, _⟩ => nomatch hobj)
  | @some obj xs hobj =>
    rw [bind_some, map_some]
    constructor
    · rintro ⟨s', hs', hagree⟩
      obtain ⟨obj', hobj', rfl⟩ := map_eq_some_iff.mp hs'
      exact ⟨obj, rfl, (hf obj xs hobj).mp ⟨obj', hobj', hagree.of_update⟩⟩
    · rintro ⟨obj₁, hobj₁, hok⟩
      cases hobj₁
      obtain ⟨obj', hobj', h'⟩ := (hf obj xs hobj).mpr hok
      exact ⟨_, by rw [hobj', map_some], h.set i h'⟩

/-- Another string is appended as its bytes would be. -/
theorem appendStringS_of_ne (hij : i ≠ j) {obj str : Str} {ys : List UInt8} (hobj : s i = some obj)
    (hstr : s j = some str) (hys : IsString str ys) :
    appendStringS junk s i j
      = (obj.appendStringC junk ys).map fun obj => update s i (some obj) := by
  rw [appendStringS, hobj, hstr, bind_some, bind_some]
  dsimp only
  rw [Str.appendStringC, hys.len, map_bind]
  congr 1
  funext obj₁
  rw [update_of_ne hij.symm, hstr, bind_some, Str.copyText, hys.bytes,
    bind_some, hys.len, comp_apply]
  simp [update_idem]

theorem appendStringS_self {obj : Str} (hobj : s i = some obj) :
    appendStringS junk s i i = ((obj.resizeString junk (u64 (obj.len + obj.len))).bind fun obj₁ =>
      obj₁.copyText obj₁ (u64 (obj.len + obj.len))).map fun obj => update s i (some obj) := by
  rw [appendStringS, hobj, bind_some, bind_some]
  dsimp only
  rw [map_bind]
  congr 1
  funext obj₁
  rw [update_self, bind_some, comp_apply]
  simp [update_idem]

/-- `OBOS_AppendStringS` of a string to itself. -/
theorem Agree.appendSelf_iff (h : Agree s t) {obj : Str} {xs : List UInt8} (hobj : s i = some obj)
    (hxs : t i = some xs) :
    (∃ s', appendStringS junk s i i = some s' ∧ Agree s' (update t i (some (xs ++ xs)))) ↔
      ResizeOk obj (obj.len + obj.len) ∧
        ∀ b ∈ (obj.getStringPtr.getD []).take obj.len, b = 0 := by
  have hstring : IsString obj xs := by
    have hi := h i
    rw [hobj, hxs] at hi
    cases hi with
    | some hi => exact hi
  rw [appendStringS_self hobj, hstring.contents]
  constructor
  · rintro ⟨s', hs', hagree⟩
    obtain ⟨obj', hobj', rfl⟩ := map_eq_some_iff.mp hs'
    have h' := hagree.of_update
    obtain ⟨obj₁, hobj₁, hcopy⟩ := bind_eq_some_iff.mp hobj'
    obtain ⟨bytes, -, hwrite⟩ := bind_eq_some_iff.mp hcopy
    have hok : ResizeOk obj (obj.len + obj.len) :=
      (hstring.append_len hobj₁ hwrite (by rw [h'.len, length_append, hstring.len])).2
    obtain ⟨obj₂, hobj₂, h₂⟩ := hstring.appendSelf junk hok
    obtain rfl := Option.some.inj (hobj'.symm.trans hobj₂)
    have hzeros : xs = List.replicate xs.length 0 := append_cancel_left (h'.unique h₂)
    exact ⟨hok, (eq_replicate_iff.mp hzeros).2⟩
  · rintro ⟨hok, hzeros⟩
    obtain ⟨obj₂, hobj₂, h₂⟩ := hstring.appendSelf junk hok
    rw [← eq_replicate_iff.mpr ⟨rfl, hzeros⟩] at h₂
    exact ⟨_, by rw [hobj₂, map_some], h.set i h₂⟩

/-- `OBOS_AppendStringS` of another string. -/
theorem Agree.appendOther_iff (h : Agree s t) (hij : i ≠ j) {obj str : Str} {xs ys : List UInt8}
    (hobj : s i = some obj) (hxs : t i = some xs) (hstr : s j = some str) (hys : IsString str ys) :
    (∃ s', appendStringS junk s i j = some s' ∧ Agree s' (update t i (some (xs ++ ys)))) ↔
      ResizeOk obj (obj.len + str.len) := by
  have hone : ∀ obj xs, IsString obj xs →
      ((∃ obj', obj.appendStringC junk ys = some obj' ∧ IsString obj' (xs ++ ys)) ↔
        ResizeOk obj (obj.len + ys.length)) := fun _ _ h => h.appendStringC_iff
  have hstep := h.step_iff (i := i) hone
  rw [hobj, hxs, bind_some, map_some] at hstep
  rw [appendStringS_of_ne hij hobj hstr hys, hstep, hys.len]
  exact ⟨fun ⟨_, h, hok⟩ => Option.some.inj h ▸ hok, fun hok => ⟨obj, rfl, hok⟩⟩

/-- `OBOS_AppendStringS`. -/
theorem Agree.appendStringS_iff (h : Agree s t) :
    (∃ s', step junk s (.appendS i j) = some s' ∧ Agree s' (spec t (.appendS i j))) ↔
      OpOk s (.appendS i j) := by
  have hi := h i
  have hj := h j
  generalize hsi : s i = o at hi
  generalize hti : t i = u at hi
  generalize hsj : s j = p at hj
  generalize htj : t j = v at hj
  simp only [step, spec, OpOk, hsi, hti, hsj, htj]
  cases hi with
  | none =>
    refine iff_of_false ?_ (fun ⟨obj, hobj, _⟩ => nomatch hobj)
    rintro ⟨s', hs', -⟩
    rw [appendStringS, hsi] at hs'
    cases hs'
  | @some obj xs hobj =>
    cases hj with
    | none =>
      refine iff_of_false ?_ (fun ⟨_, _, str, hstr, _⟩ => nomatch hstr)
      rintro ⟨s', hs', -⟩
      rw [appendStringS, hsi, hsj] at hs'
      cases hs'
    | @some str ys hstr =>
      simp only [Option.mem_def, Option.some.injEq, exists_eq_left', bind_some,
        map_some]
      by_cases hij : i = j
      · subst hij
        obtain rfl := Option.some.inj (hsi.symm.trans hsj)
        obtain rfl := Option.some.inj (hti.symm.trans htj)
        rw [h.appendSelf_iff hsi hti]
        simp [forall_const]
      · rw [h.appendOther_iff hij hsi hti hsj hstr]
        simp [hij]

/-- One call. -/
theorem Agree.call_iff (h : Agree s t) (op : Op ι) :
    (∃ s', step junk s op = some s' ∧ Agree s' (spec t op)) ↔ OpOk s op := by
  cases op with
  | init i str =>
    rw [OpOk, ← initStringLen_iff junk]
    constructor
    · rintro ⟨s', hs', hagree⟩
      obtain ⟨obj, hobj, rfl⟩ := map_eq_some_iff.mp hs'
      exact ⟨obj, hobj, hagree.of_update⟩
    · rintro ⟨obj, hobj, hstring⟩
      exact ⟨_, by rw [step, hobj, map_some], h.set i hstring⟩
  | appendC i str => exact h.step_iff fun _ _ hobj => hobj.appendStringC_iff
  | appendS i j => exact h.appendStringS_iff
  | resize i len => exact h.step_iff fun _ _ hobj => hobj.resizeString_iff
  | setCapacity i cap =>
    have hstep : (∃ s', step junk s (.setCapacity i cap) = some s' ∧
        Agree s' (update t i ((t i).map id))) ↔ OpOk s (.setCapacity i cap) :=
      h.step_iff fun _ _ hobj => hobj.setCapacityString_iff
    rwa [Option.map_id, id_eq, update_eq_self] at hstep

/-- In a run of calls every string holds its byte list with a NUL inside its memory, and no call
leaves that memory, exactly when every call meets `OpOk`. -/
theorem strings_follow_iff (junk : ℕ → UInt8) (ops : List (Op ι)) :
    Run.Follows (step junk) spec Agree (fun _ => none) (fun _ => none) ops ↔
      Run.Meets OpOk (step junk) (fun _ => none) ops :=
  Run.follows_iff (fun _ _ op h => h.call_iff op) fun _ => .none

/-- A text of 32 bytes that is cut to nothing: the 32 bytes behind it are cleared, and only one of
them belongs to it.  A text of 64 bytes has no room for its NUL. -/
theorem cut_text_overruns :
    ([.init () (List.replicate 32 97), .resize () 0] : List (Op Unit)).foldlM (step fun _ => 0)
        (fun _ => none) = none ∧
      (Str.initStringLen (fun _ => 0) (List.replicate 64 97)).map
        (fun s => (s.len, s.getStringPtr.map fun l => l[s.len]?)) = some (64, some none) := by
  decide +kernel

end

end Obos.KernelString
