/-
The CRC-32 of partition tables (`gpt.c`).

The code goes through the data a byte at a time with a table of 256 words, which the
first call fills.  The checksum is defined on the bits of the data instead.  A round of
the register is linear in exclusive or, so that the low bits of the register and the
bits above them can be followed apart.

* `round_iterate_split` — the rounds for a byte are a shift and a word of the table,
* `crc32_standard` — every call, the first one and the later ones, returns the checksum
  of its data, and a checksum can be continued.
-/
import Mathlib

namespace Obos.Crc32

/-! ### The code -/

/-- The body of the inner loop of `crcInit`. -/
def round (crc : BitVec 32) : BitVec 32 :=
  (crc >>> 1) ^^^ (0xEDB88320#32 &&& -(crc &&& 1#32))

def crcInit (crctab : ℕ → BitVec 32) : ℕ → BitVec 32 :=
  (List.range 256).foldl (fun tab i => Function.update tab i (round^[8] (.ofNat 32 i))) crctab

/-- `crc`; a `char` is signed. -/
def crc (crctab : ℕ → BitVec 32) (data : List (BitVec 8)) (result : BitVec 32) : BitVec 32 :=
  ~~~data.foldl (fun result ch =>
    (result >>> 8) ^^^ crctab ((result ^^^ ch.signExtend 32) &&& 0xFF#32).toNat) result

/-- `initialized_crc32` and `crctab`. -/
structure Statics where
  initialized : Bool
  crctab : ℕ → BitVec 32

def start : Statics := ⟨false, fun _ => 0⟩

/-- What both functions begin with. -/
def ready (s : Statics) : Statics := if s.initialized then s else ⟨true, crcInit s.crctab⟩

def crc32BytesFromPrevious (s : Statics) (data : List (BitVec 8)) (previous : BitVec 32) :
    Statics × BitVec 32 := (ready s, crc (ready s).crctab data (~~~previous))

def crc32Bytes (s : Statics) (data : List (BitVec 8)) : Statics × BitVec 32 :=
  (ready s, crc (ready s).crctab data (~~~0#32))

/-! ### The checksum -/

/-- The reflected register takes in one bit. -/
def feed (crc : BitVec 32) (bit : Bool) : BitVec 32 :=
  if crc.getLsbD 0 ^^ bit then (crc >>> 1) ^^^ 0xEDB88320#32 else crc >>> 1

/-- The low `n` bits of a word, the lowest first. -/
def lowBits (n : ℕ) (x : BitVec 32) : List Bool := (List.range n).map x.getLsbD

/-- The reflected CRC-32, bit by bit. -/
def bitwise (data : List (BitVec 8)) : BitVec 32 :=
  ~~~(data.flatMap fun b => lowBits 8 (b.setWidth 32)).foldl feed (.allOnes 32)

/-! ### Rounds -/

theorem round_eq (x : BitVec 32) :
    round x = (x >>> 1) ^^^ bif x.getLsbD 0 then 0xEDB88320#32 else 0#32 := by
  rw [round, BitVec.and_one_eq_setWidth_ofBool_getLsbD]
  cases x.getLsbD 0 <;> rfl

theorem round_xor (x y : BitVec 32) : round (x ^^^ y) = round x ^^^ round y := by
  have hbit : ∀ b c : Bool, (bif b ^^ c then 0xEDB88320#32 else 0#32) =
      (bif b then 0xEDB88320#32 else 0#32) ^^^ bif c then 0xEDB88320#32 else 0#32 := by decide
  rw [round_eq, round_eq, round_eq, BitVec.getLsbD_xor, BitVec.ushiftRight_xor_distrib, hbit]
  ac_rfl

theorem round_iterate_xor (n : ℕ) (x y : BitVec 32) :
    round^[n] (x ^^^ y) = round^[n] x ^^^ round^[n] y := by
  induction n generalizing x y with
  | zero => rfl
  | succ n ih => rw [Function.iterate_succ_apply, round_xor, ih]; rfl

/-- Rounds shift a word without low bits. -/
theorem round_iterate_high (n : ℕ) (x : BitVec 32) : round^[n] (x >>> n <<< n) = x >>> n := by
  induction n generalizing x with
  | zero => simp
  | succ n ih =>
    have hlow : (x >>> (n + 1) <<< (n + 1)).getLsbD 0 = false := by simp
    have hshift : x >>> (n + 1) <<< (n + 1) >>> 1 = (x >>> 1) >>> n <<< n := by
      ext i hi
      simp
      grind
    rw [Function.iterate_succ_apply, round_eq, hlow, cond_false, BitVec.xor_zero, hshift, ih,
      ← BitVec.shiftRight_add, Nat.add_comm]

/-- What the rounds do to the low bits and to those above them. -/
theorem round_iterate_split {n : ℕ} {x y : BitVec 32} (h : x >>> n <<< n ^^^ y = x) :
    round^[n] x = x >>> n ^^^ round^[n] y := by
  conv_lhs => rw [← h]
  rw [round_iterate_xor, round_iterate_high]

/-- Taking in the low bits one by one is taking them in at once. -/
theorem foldl_feed (n : ℕ) (crc x : BitVec 32) (hx : x >>> n = 0) :
    (lowBits n x).foldl feed crc = round^[n] (crc ^^^ x) := by
  induction n generalizing crc x with
  | zero =>
    have hzero : x = 0 := by simpa using hx
    rw [hzero]
    exact BitVec.xor_zero.symm
  | succ n ih =>
    have hbits : lowBits (n + 1) x = x.getLsbD 0 :: lowBits n (x >>> 1) := by
      simp [lowBits, List.range_succ_eq_map, Function.comp_def, Nat.add_comm]
    have hfeed : feed crc (x.getLsbD 0) ^^^ x >>> 1 = round (crc ^^^ x) := by
      rw [round_eq, feed, BitVec.getLsbD_xor, BitVec.ushiftRight_xor_distrib]
      cases crc.getLsbD 0 ^^ x.getLsbD 0 with
      | false => simp
      | true =>
        simp only [if_true, cond_true]
        ac_rfl
    rw [hbits, List.foldl_cons, ih _ _ (by rwa [← BitVec.shiftRight_add, Nat.add_comm]), hfeed]
    rfl

/-! ### Calls -/

theorem crcInit_apply {crctab : ℕ → BitVec 32} {i : ℕ} (hi : i < 256) :
    crcInit crctab i = round^[8] (.ofNat 32 i) := by
  have hfill : ∀ n, i < n → (List.range n).foldl (fun tab i =>
      Function.update tab i (round^[8] (.ofNat 32 i))) crctab i = round^[8] (.ofNat 32 i) := by
    intro n hn
    induction n with
    | zero => omega
    | succ n ih =>
      rw [List.range_succ, List.foldl_append, List.foldl_cons, List.foldl_nil]
      by_cases hin : i = n
      · rw [hin, Function.update_self]
      · rw [Function.update_of_ne hin, ih (by omega)]
  exact hfill 256 hi

/-- A step of `crc` takes in the bits of a byte. -/
theorem crc_step {crctab : ℕ → BitVec 32} (h : ∀ i < 256, crctab i = round^[8] (.ofNat 32 i))
    (result : BitVec 32) (ch : BitVec 8) :
    (result >>> 8) ^^^ crctab ((result ^^^ ch.signExtend 32) &&& 0xFF#32).toNat =
      (lowBits 8 (ch.setWidth 32)).foldl feed result := by
  have hmask : ∀ i (hi : i < 32), (0xFF#32)[i] = decide (i < 8) := by decide
  have hlow : (result ^^^ ch.signExtend 32) &&& 0xFF#32 =
      ((result ^^^ ch.setWidth 32).setWidth 8).setWidth 32 := by
    ext i hi
    simp [hmask i hi]
    grind
  have hlt : (((result ^^^ ch.setWidth 32).setWidth 8).setWidth 32).toNat < 256 := by
    rw [BitVec.toNat_setWidth]
    exact (Nat.mod_le _ _).trans_lt (BitVec.isLt _)
  have hsplit : (result ^^^ ch.setWidth 32) >>> 8 <<< 8 ^^^
      ((result ^^^ ch.setWidth 32).setWidth 8).setWidth 32 = result ^^^ ch.setWidth 32 := by
    ext i hi
    simp
    grind
  have hhigh : (result ^^^ ch.setWidth 32) >>> 8 = result >>> 8 := by
    ext i hi
    simp
  rw [hlow, h _ hlt, BitVec.ofNat_toNat, foldl_feed 8 _ _ (by ext; simp),
    round_iterate_split hsplit, hhigh, BitVec.setWidth_eq]

theorem crc_eq {crctab : ℕ → BitVec 32} (h : ∀ i < 256, crctab i = round^[8] (.ofNat 32 i))
    (data : List (BitVec 8)) (result : BitVec 32) : crc crctab data result =
      ~~~(data.flatMap fun b => lowBits 8 (b.setWidth 32)).foldl feed result := by
  rw [crc, List.foldl_flatMap]
  simp only [crc_step h]

theorem ready_initialized (crctab : ℕ → BitVec 32) : ready ⟨true, crctab⟩ = ⟨true, crctab⟩ := rfl

/-- The first call fills the table, and later calls leave it. -/
theorem ready_iterate (n : ℕ) : ready (ready^[n] start) = ⟨true, crcInit fun _ => 0⟩ := by
  have hfirst : ready start = ⟨true, crcInit fun _ => 0⟩ := if_neg Bool.false_ne_true
  rw [← Function.iterate_succ_apply' ready, Function.iterate_succ_apply, hfirst]
  exact Function.iterate_fixed (ready_initialized _) n

/-- After any number `n` of calls, a call returns the reflected CRC-32 of its data, and a
call with the checksum of `x` and the bytes `y` that of both. -/
theorem crc32_standard (n : ℕ) (x y : List (BitVec 8)) :
    (crc32Bytes (ready^[n] start) x).2 = bitwise x ∧
      (crc32BytesFromPrevious (crc32Bytes (ready^[n] start) x).1 y
        (crc32Bytes (ready^[n] start) x).2).2 = (crc32Bytes (ready^[n] start) (x ++ y)).2 := by
  simp only [crc32Bytes, crc32BytesFromPrevious, ready_iterate, ready_initialized,
    crc_eq fun i hi => crcInit_apply hi, List.flatMap_append, List.foldl_append, BitVec.not_not]
  exact ⟨rfl, trivial⟩

end Obos.Crc32
