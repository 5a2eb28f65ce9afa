import Mathlib.Data.List.Basic
import Mathlib.Data.UInt
import Mathlib.Tactic.Common

/-! # Byte memory

Memory is a function from addresses to bytes. `rd m p k` are the `k` bytes from address `p` on,
`wr m p l` is `m` with the bytes `l` written from `p` on, `mv m p q k` is `memmove` of `k` bytes
from `q` to `p`. -/

namespace SmartNet.Lib.Mem

variable {m m' : ℕ → UInt8} {p q k j : ℕ} {l : List UInt8}

/-- The `k` bytes from `p` on. -/
def rd (m : ℕ → UInt8) (p k : ℕ) : List UInt8 := (List.range k).map fun i => m (p + i)

/-- Memory with the bytes `l` at `p`. -/
def wr (m : ℕ → UInt8) (p : ℕ) (l : List UInt8) : ℕ → UInt8 := fun a =>
  if p ≤ a then (l[a - p]?).getD (m a) else m a

/-- Memory after moving `k` bytes from `q` to `p`. -/
def mv (m : ℕ → UInt8) (p q k : ℕ) : ℕ → UInt8 := wr m p (rd m q k)

@[simp] theorem length_rd (m : ℕ → UInt8) (p k : ℕ) : (rd m p k).length = k := by simp [rd]

theorem rd_one (m : ℕ → UInt8) (p : ℕ) : rd m p 1 = [m p] := rfl

theorem getElem?_rd : (rd m p k)[j]? = if j < k then some (m (p + j)) else none := by
  unfold rd
  by_cases h : j < k
  · simp [h]
  · rw [if_neg h, List.getElem?_eq_none (by simpa using h)]

theorem rd_add (m : ℕ → UInt8) (p j k : ℕ) : rd m p (j + k) = rd m p j ++ rd m (p + j) k := by
  simp [rd, List.range_add, Nat.add_assoc]

theorem rd_succ (m : ℕ → UInt8) (p k : ℕ) : rd m p (k + 1) = m p :: rd m (p + 1) k := by
  rw [Nat.add_comm, rd_add]; rfl

theorem rd_congr (h : ∀ i < k, m (p + i) = m' (q + i)) : rd m p k = rd m' q k := by
  refine List.map_congr_left fun i hi => h i (List.mem_range.mp hi)

theorem rd_take (h : j ≤ k) : (rd m p k).take j = rd m p j := by
  obtain ⟨i, rfl⟩ := Nat.exists_eq_add_of_le h
  rw [rd_add, List.take_append_of_le_length (by simp), List.take_of_length_le (by simp)]

theorem rd_drop (h : j ≤ k) : (rd m p k).drop j = rd m (p + j) (k - j) := by
  obtain ⟨i, rfl⟩ := Nat.exists_eq_add_of_le h
  rw [rd_add, List.drop_append_of_le_length (by simp), List.drop_of_length_le (by simp),
    List.nil_append, Nat.add_sub_cancel_left]

theorem rd_append_iff {a b : List UInt8} (ha : a.length = j) (hb : b.length = k) :
    rd m p (j + k) = a ++ b ↔ rd m p j = a ∧ rd m (p + j) k = b := by
  rw [rd_add]
  constructor
  · exact fun h => List.append_inj h (by simp [ha])
  · rintro ⟨rfl, rfl⟩; rfl

theorem wr_of_lt (h : q < p) : wr m p l q = m q := if_neg (by omega)

theorem wr_of_ge (h : p + l.length ≤ q) : wr m p l q = m q := by
  unfold wr
  rw [if_pos (by omega), List.getElem?_eq_none (by omega)]; rfl

theorem wr_add (h : j < l.length) : wr m p l (p + j) = l[j] := by
  unfold wr
  rw [if_pos (by omega), Nat.add_sub_cancel_left, List.getElem?_eq_getElem h]; rfl

@[simp] theorem rd_wr (m : ℕ → UInt8) (p : ℕ) (l : List UInt8) : rd (wr m p l) p l.length = l := by
  refine List.ext_getElem (by simp) fun i h1 h2 => ?_
  have : (rd (wr m p l) p l.length)[i] = wr m p l (p + i) := by simp [rd]
  rw [this, wr_add h2]

theorem rd_wr_of_length (hk : l.length = k) :
    rd (wr m p l) p k = l := by subst hk; exact rd_wr m p l

theorem rd_wr_of_disjoint (h : q + k ≤ p ∨ p + l.length ≤ q) : rd (wr m p l) q k = rd m q k := by
  refine rd_congr fun i hi => ?_
  rcases h with h | h
  · exact wr_of_lt (by omega)
  · exact wr_of_ge (by omega)

@[simp] theorem rd_mv (m : ℕ → UInt8) (p q k : ℕ) : rd (mv m p q k) p k = rd m q k :=
  rd_wr_of_length (length_rd m q k)

end SmartNet.Lib.Mem
