import Mathlib.Data.List.Nodup
import Mathlib.Data.List.Perm.Basic

/-! # Association lists as finite maps

A list of pairs with different keys is a finite map in one of the orders in which an iteration may
meet it. `List.lookup` reads it; what is said of lookups does not depend on the order.

* `mem_iff_lookup`, `lookup_perm`: the entries are the lookups, in every order;
* `lookup_filter`: dropping entries. -/

namespace SmartNet.Lib.Assoc

variable {κ ν : Type*} {m m' : List (κ × ν)} {k : κ} {x : ν}

/-- Different entries have different keys. -/
def Keyed (m : List (κ × ν)) : Prop := (m.map Prod.fst).Nodup

theorem Keyed.filter (h : Keyed m) (p : κ × ν → Bool) : Keyed (m.filter p) :=
  List.Nodup.sublist (List.Sublist.map _ List.filter_sublist) h

theorem Keyed.perm (h : Keyed m) (hp : m'.Perm m) : Keyed m' :=
  (hp.map Prod.fst).nodup_iff.mpr h

variable [DecidableEq κ]

theorem lookup_cons_ne {e : κ × ν} (h : k ≠ e.1) : (e :: m).lookup k = m.lookup k := by
  obtain ⟨i, y⟩ := e
  have hb : (k == i) = false := beq_eq_false_iff_ne.mpr h
  rw [List.lookup_cons, hb]

theorem mem_of_lookup (h : m.lookup k = some x) : (k, x) ∈ m := by
  obtain ⟨l, l', rfl, -⟩ := List.lookup_eq_some_iff.mp h
  exact List.mem_append_right l List.mem_cons_self

theorem mem_iff_lookup (h : Keyed m) : (k, x) ∈ m ↔ m.lookup k = some x := by
  induction m with
  | nil => simp
  | cons e m ih =>
    obtain ⟨i, y⟩ := e
    obtain ⟨hnot, hrest⟩ := List.nodup_cons.mp h
    by_cases hk : k = i
    · subst hk
      have hm : (k, x) ∉ m := fun hm => hnot (List.mem_map.mpr ⟨_, hm, rfl⟩)
      simp [hm, eq_comm]
    · rw [lookup_cons_ne hk, ← ih hrest]
      simp [hk]

theorem lookup_perm (h : Keyed m) (hp : m'.Perm m) (k : κ) : m'.lookup k = m.lookup k := by
  refine Option.ext fun x => ?_
  rw [← mem_iff_lookup h, ← mem_iff_lookup (h.perm hp), hp.mem_iff]

theorem lookup_filter (h : Keyed m) (p : κ × ν → Bool) (k : κ) :
    (m.filter p).lookup k = (m.lookup k).filter fun x => p (k, x) := by
  refine Option.ext fun x => ?_
  rw [← mem_iff_lookup (h.filter p), List.mem_filter, mem_iff_lookup h, Option.filter_eq_some_iff]

end SmartNet.Lib.Assoc
