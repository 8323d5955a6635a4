/-
What all parts of the kernel share: the status codes of `error.h`, the page
sizes of the x86-64 build, and the arithmetic of `size_t` and `uintptr_t`.

The machine words are natural numbers; `u64` is the value a 64-bit variable
keeps of a sum or a product, `u64sub` that of a difference.
-/
import Mathlib

namespace Obos

-- named once: concrete runs number their threads and nodes with `Fin 2` and `Fin 3`
instance neZeroTwo : NeZero 2 := ⟨two_ne_zero⟩

instance neZeroThree : NeZero 3 := ⟨three_ne_zero⟩

/-- The values of `obos_status` that the modelled functions return. -/
inductive Status where
  | success
  | invalidIrql
  | invalidArgument
  | unimplemented
  | invalidInitPhase
  | invalidAffinity
  | notEnoughMemory
  | mismatch
  | internalError
  | retry
  | alreadyInitialized
  | notFound
  | inUse
  | accessDenied
  | uninitialized
  | unhandled
  | invalidFile
  | dpcAlreadyEnqueued
  | notAFile
  | eof
  | aborted
  deriving DecidableEq, Repr

/-- `OBOS_PAGE_SIZE`. -/
def pageSize : ℕ := 4096

/-- `OBOS_HUGE_PAGE_SIZE` of the x86-64 build. -/
def hugePageSize : ℕ := 2097152

/-- The 64-bit value of a sum or product. -/
def u64 (x : ℕ) : ℕ := x % 2 ^ 64

/-- The 64-bit value of `a - b`. -/
def u64sub (a b : ℕ) : ℕ := (a + (2 ^ 64 - b)) % 2 ^ 64

/-- A `size_t` counted down by one. -/
def decrement (x : ℕ) : ℕ := if x = 0 then 2 ^ 64 - 1 else x - 1

theorem u64_of_lt {x : ℕ} (h : x < 2 ^ 64) : u64 x = x := Nat.mod_eq_of_lt h

theorem u64_lt (x : ℕ) : u64 x < 2 ^ 64 := Nat.mod_lt _ (by norm_num)

theorem u64sub_of_le {a b : ℕ} (h : b ≤ a) (ha : a < 2 ^ 64) : u64sub a b = a - b := by
  rw [u64sub, show a + (2 ^ 64 - b) = (a - b) + 2 ^ 64 by omega, Nat.add_mod_right]
  exact Nat.mod_eq_of_lt (by omega)

theorem u64sub_lt (a b : ℕ) : u64sub a b < 2 ^ 64 := Nat.mod_lt _ (by norm_num)

end Obos
