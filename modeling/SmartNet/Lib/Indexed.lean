import Mathlib.Data.List.Basic

/-! # Elements of a family

Lists of elements of a family of types, each with its index: `of x` picks those of the index `x`. -/

namespace SmartNet.Lib.Indexed

variable {ι : Type} [DecidableEq ι] {F : ι → Type} {x y : ι}

/-- The element, if it is one of the index `x`. -/
def of (x : ι) (a : Σ y, F y) : Option (F x) := if h : a.1 = x then some (h ▸ a.2) else none

@[simp] theorem of_self (a : F x) : of x (⟨x, a⟩ : Σ y, F y) = some a := by
  simp [of]

theorem of_ne (h : y ≠ x) (a : F y) : of x (⟨y, a⟩ : Σ y, F y) = none := by
  simp [of, h]

theorem of_eq_some {a : Σ y, F y} {b : F x} (h : of x a = some b) : a = ⟨x, b⟩ := by
  obtain ⟨y, a⟩ := a
  rcases eq_or_ne y x with rfl | hy
  · simpa using h
  · rw [of_ne hy] at h
    cases h

@[simp] theorem filterMap_of_self (l : List (F x)) : (l.map (Sigma.mk x)).filterMap (of x) = l := by
  induction l with
  | nil => rfl
  | cons a l ih => simp [ih]

theorem filterMap_of_ne (h : y ≠ x) (l : List (F y)) :
    (l.map (Sigma.mk y)).filterMap (of x) = [] := by
  induction l with
  | nil => rfl
  | cons a l ih => simp [of_ne h, ih]

theorem filterMap_of_cons (a : F x) (l : List (Σ y, F y)) :
    (⟨x, a⟩ :: l).filterMap (of x) = a :: l.filterMap (of x) :=
  List.filterMap_cons_some (of_self a)

theorem filterMap_of_cons_ne (h : y ≠ x) (a : F y) (l : List (Σ y, F y)) :
    (⟨y, a⟩ :: l).filterMap (of x) = l.filterMap (of x) :=
  List.filterMap_cons_none (of_ne h a)

theorem filterMap_of_nodup {l : List (Σ y, F y)} (h : (l.map Sigma.fst).Nodup) :
    l.filterMap (of x) = ((l.filterMap (of x)).head?).toList := by
  induction l with
  | nil => rfl
  | cons a l ih =>
    rw [List.map_cons, List.nodup_cons] at h
    rcases ha : of x a with - | b
    · rw [List.filterMap_cons_none ha]
      exact ih h.2
    · have hnil : l.filterMap (of x) = [] := by
        rw [List.filterMap_eq_nil_iff]
        intro c hc
        rcases hcx : of x c with - | d
        · rfl
        · rw [of_eq_some ha] at h
          rw [of_eq_some hcx] at hc
          exact absurd (List.mem_map.mpr ⟨_, hc, rfl⟩) h.1
      rw [List.filterMap_cons_some ha, hnil]
      rfl

end SmartNet.Lib.Indexed
