import Mathlib.Data.UInt
import Mathlib.Tactic.Ring

/-! # Numbers as bytes

`leBytes k n` are the `k` low bytes of `n`, least significant first, and `leNat` reads them back;
`beBytes` and `beNat` are the same in network byte order. -/

namespace SmartNet.Lib.Bytes

/-- The `k` low bytes of `n`, least significant first. -/
def leBytes : ℕ → ℕ → List UInt8
  | 0, _ => []
  | k + 1, n => UInt8.ofNat n :: leBytes k (n / 256)

/-- The number of a list of bytes, least significant first. -/
def leNat : List UInt8 → ℕ
  | [] => 0
  | b :: bs => b.toNat + 256 * leNat bs

/-- The `k` low bytes of `n` in network byte order. -/
def beBytes (k n : ℕ) : List UInt8 := (leBytes k n).reverse

/-- The number of a list of bytes in network byte order. -/
def beNat (l : List UInt8) : ℕ := leNat l.reverse

@[simp] theorem length_leBytes : ∀ k n, (leBytes k n).length = k
  | 0, _ => rfl
  | k + 1, n => by rw [leBytes, List.length_cons, length_leBytes k]

@[simp] theorem length_beBytes (k n : ℕ) : (beBytes k n).length = k := by simp [beBytes]

theorem leNat_leBytes : ∀ k n, leNat (leBytes k n) = n % 256 ^ k
  | 0, n => by simp [leBytes, leNat, Nat.mod_one]
  | k + 1, n => by
    rw [leBytes, leNat, leNat_leBytes k, pow_succ', Nat.mod_mul]
    congr 1

/-- **Round trip** of a number that fits. -/
theorem leNat_leBytes_of_lt {k n : ℕ} (h : n < 256 ^ k) : leNat (leBytes k n) = n := by
  rw [leNat_leBytes, Nat.mod_eq_of_lt h]

theorem leNat_lt : ∀ l : List UInt8, leNat l < 256 ^ l.length
  | [] => by simp [leNat]
  | b :: bs => by
    have h1 := leNat_lt bs
    have h2 := b.toNat_lt
    rw [leNat, List.length_cons, pow_succ']
    omega

theorem beNat_beBytes_of_lt {k n : ℕ} (h : n < 256 ^ k) : beNat (beBytes k n) = n := by
  rw [beNat, beBytes, List.reverse_reverse, leNat_leBytes_of_lt h]

end SmartNet.Lib.Bytes
