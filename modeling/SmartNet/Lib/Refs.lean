import Mathlib.Data.Set.Basic
import Mathlib.Logic.Function.Basic

/-! # Objects kept by the handles to them

Handles refer to objects; a handle is in an object, its host, or in none. An object whose last
handle goes away goes away too, with the handles in it.

* `Dies`: the objects that go when a handle is released, the least set that is closed under this;
* `release`, `point`: a handle is released, and refers to another object;
* `dies_iff_last`: the objects that go are those that lose their last handle;
* `dies_iff_gone`: any way of letting objects go one after the other that leaves none without a
  handle ends with the same objects. -/

namespace SmartNet.Lib

/-- The objects there are, and what each handle refers to; `none` if there is no such handle. -/
@[ext]
structure Refs (H O : Type*) where
  objs : Set O
  ptr : H → Option (Option O)

namespace Refs

variable {H O : Type*} (host : H → Option O) (g : Refs H O) (h : H)

/-- The handles to an object. -/
def holders (o : O) : Set H := {k | g.ptr k = some (some o)}

/-- **The objects that go** when the handle `h` is released: all handles to them are `h` itself, or
are in objects that go. -/
inductive Dies : O → Prop
  | last {o : O} (held : (g.holders o).Nonempty)
      (hosted : ∀ k ∈ g.holders o, k ≠ h → (host k).isSome)
      (dies : ∀ k ∈ g.holders o, k ≠ h → ∀ x, host k = some x → Dies x) : Dies o

/-- A handle in an object that goes. -/
def HostDies (k : H) : Prop := ∃ x, host k = some x ∧ Dies host g h x

open Classical in
/-- The handle `h` refers to nothing any more, and what it alone kept has gone. -/
noncomputable def release : Refs H O where
  objs := {o ∈ g.objs | ¬ Dies host g h o}
  ptr k := if HostDies host g h k then none else if k = h then (g.ptr h).map fun _ => none
    else g.ptr k

open Classical in
/-- The handle `h` refers to `p`. -/
noncomputable def point (p : Option O) : Refs H O :=
  { g with ptr := Function.update g.ptr h (some p) }

variable {host g h} {o : O} {k : H} {p : Option O}

theorem mem_holders : k ∈ g.holders o ↔ g.ptr k = some (some o) := Iff.rfl

theorem dies_iff : Dies host g h o ↔
    (g.holders o).Nonempty ∧ ∀ k ∈ g.holders o, k ≠ h → HostDies host g h k := by
  constructor
  · rintro ⟨hheld, hhosted, hdies⟩
    refine ⟨hheld, fun k hk hne => ?_⟩
    obtain ⟨x, hx⟩ := Option.isSome_iff_exists.mp (hhosted k hk hne)
    exact ⟨x, hx, hdies k hk hne x hx⟩
  · rintro ⟨hheld, hdies⟩
    refine ⟨hheld, fun k hk hne => ?_, fun k hk hne x hx => ?_⟩
    · obtain ⟨x, hx, -⟩ := hdies k hk hne
      simp [hx]
    · obtain ⟨y, hy, hd⟩ := hdies k hk hne
      rw [hx] at hy
      cases hy
      exact hd

theorem not_dies_of_null (hn : ∀ o, h ∉ g.holders o) : ¬ Dies host g h o := by
  intro hd
  induction hd with
  | last hheld hhosted _ ih =>
    obtain ⟨k, hk⟩ := hheld
    have hne : k ≠ h := fun e => hn _ (e ▸ hk)
    obtain ⟨x, hx⟩ := Option.isSome_iff_exists.mp (hhosted k hk hne)
    exact ih k hk hne x hx

/-! ### The release of a handle -/

theorem release_ptr_dies (hd : HostDies host g h k) : (g.release host h).ptr k = none :=
  if_pos hd

theorem release_ptr_self (hd : ¬ HostDies host g h h) (hp : g.ptr h = some p) :
    (g.release host h).ptr h = some none := by
  simp [release, hd, hp]

theorem release_ptr_ne (hd : ¬ HostDies host g h k) (hk : k ≠ h) :
    (g.release host h).ptr k = g.ptr k := by
  simp [release, hd, hk]

theorem point_ptr_self : (g.point h p).ptr h = some p := by
  simp [point]

theorem point_ptr_ne (hk : k ≠ h) : (g.point h p).ptr k = g.ptr k := by
  simp [point, hk]

theorem release_null (hn : g.ptr h = some none) : g.release host h = g := by
  have hno : ∀ {o}, ¬ Dies host g h o := not_dies_of_null fun o ho => by
    rw [mem_holders, hn] at ho
    cases ho
  unfold release HostDies
  ext1
  · simp [hno]
  · funext k
    by_cases hk : k = h
    · subst hk
      simp [hno, hn]
    · simp [hno, hk]

theorem mem_holders_release : k ∈ (g.release host h).holders o ↔
    k ∈ g.holders o ∧ k ≠ h ∧ ¬ HostDies host g h k := by
  rw [mem_holders, mem_holders]
  unfold release
  by_cases hd : HostDies host g h k
  · simp [hd]
  · by_cases hk : k = h
    · subst hk
      simp [hd]
    · simp [hd, hk]

/-- **The objects that go** are those that lose their last handle. -/
theorem dies_iff_last : Dies host g h o ↔
    (g.holders o).Nonempty ∧ (g.release host h).holders o = ∅ := by
  rw [dies_iff, Set.eq_empty_iff_forall_notMem]
  refine and_congr_right fun _ => forall_congr' fun k => ?_
  rw [mem_holders_release, not_and, not_and, not_not]

/-- **Nothing else goes, and nothing that should stays**: let only objects go that are to, and none
stay that has lost all its handles; then exactly those that are to have gone. -/
theorem dies_iff_gone {K : Set O} (hK : ∀ o ∈ K, Dies host g h o)
    (hkeep : ∀ o ∉ K, (g.holders o).Nonempty →
      ∃ k ∈ g.holders o, k ≠ h ∧ ∀ x, host k = some x → x ∉ K) :
    Dies host g h o ↔ o ∈ K := by
  refine ⟨fun hd => ?_, hK o⟩
  induction hd with
  | @last o hheld hhosted _ ih =>
    by_contra hno
    obtain ⟨k, hk, hne, hx⟩ := hkeep o hno hheld
    obtain ⟨x, hkx⟩ := Option.isSome_iff_exists.mp (hhosted k hk hne)
    exact hx x hkx (ih k hk hne x hkx)

end Refs

end SmartNet.Lib
