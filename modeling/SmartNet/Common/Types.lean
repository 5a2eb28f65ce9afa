import Mathlib.Algebra.Group.Int.Defs
import Mathlib.Algebra.Group.Nat.Defs
import Mathlib.Tactic.Common

/-! # Machine integers and return codes

`u_int32_t` and `u_int64_t` values are natural numbers below `2 ^ 32` and `2 ^ 64`; `u32`, `u64`
reduce the result of an operation, `sub32`, `sub64` are the unsigned subtractions. `Cmnerr` are the
return codes of `err_info.h` that the modelled calls return; every code but `suc` is negative
there. -/

namespace SmartNet.Common

/-- A `u_int32_t` result. -/
def u32 (n : ℕ) : ℕ := n % 2 ^ 32

/-- A `u_int64_t` result. -/
def u64 (n : ℕ) : ℕ := n % 2 ^ 64

/-- Unsigned 32-bit subtraction. -/
def sub32 (a b : ℕ) : ℕ := u32 (a + (2 ^ 32 - b))

/-- Unsigned 64-bit subtraction. -/
def sub64 (a b : ℕ) : ℕ := u64 (a + (2 ^ 64 - b))

theorem u32_of_lt {n : ℕ} (h : n < 2 ^ 32) : u32 n = n := Nat.mod_eq_of_lt h

theorem u64_of_lt {n : ℕ} (h : n < 2 ^ 64) : u64 n = n := Nat.mod_eq_of_lt h

theorem u32_lt (n : ℕ) : u32 n < 2 ^ 32 := Nat.mod_lt _ (by decide)

theorem sub32_of_le {a b : ℕ} (ha : a < 2 ^ 32) (h : b ≤ a) : sub32 a b = a - b := by
  unfold sub32 u32; omega

theorem sub64_of_le {a b : ℕ} (ha : a < 2 ^ 64) (h : b ≤ a) : sub64 a b = a - b := by
  unfold sub64 u64; omega

/-- `CMNERR_SUC`, `CMNERR_COMMON_ERR`, ... -/
inductive Cmnerr
  | suc
  | commonErr
  | ioErr
  | sendPending
  | recvPending
  | incompletedPkg
  | unknownPkg
  | noData
  | noSpace
  | odataReady
  deriving DecidableEq, Repr

end SmartNet.Common
