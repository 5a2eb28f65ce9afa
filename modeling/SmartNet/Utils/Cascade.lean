import SmartNet.Utils.SmartPtr

/-! # What the release of a handle disposes

The `dec_ref` of an object whose count comes to 0 destroys the handles in it, which calls `dec_ref`
of other objects, and so on. Handles that are being released are *pending*: they still refer to the
object, and are not counted any more. An object whose destructor is running is *dying*.

* `During`: the state of the heap in the middle of a release;
* `decRef_goes`: `dec_ref` returns, with its handle pending, or the handle that is released is in an
  object that dies;
* `release_ok`, `release_fails`: a handle is released, and exactly the objects it alone kept are
  disposed, unless one of these is the object it is in. -/

namespace SmartNet.Utils.SmartPtr

open SmartNet.Lib

variable {O R F : Type} [DecidableEq O] [DecidableEq R] [DecidableEq F] {s t u s0 : Heap O R F}
  {h h0 g k : Slot O R F} {P Q : Finset (Slot O R F)} {D : Finset O} {x o : O} {f : F} {n : ℕ}
  {evs evs' : List O} {p : Option O}

/-! ### Handles and counts -/

omit [DecidableEq R] [DecidableEq F] in
@[simp] theorem mem_holders : g ∈ s.holders o ↔ g ∈ s.handles ∧ s.pObj g = some o :=
  Finset.mem_filter

theorem refs_ptr_of_mem (hg : g ∈ s.handles) : s.refs.ptr g = some (s.pObj g) := if_pos hg

theorem refs_ptr_of_notMem (hg : g ∉ s.handles) : s.refs.ptr g = none := if_neg hg

theorem mem_refs_holders : g ∈ s.refs.holders o ↔ g ∈ s.holders o := by
  rw [Refs.mem_holders, mem_holders]
  by_cases hg : g ∈ s.handles
  · simp [refs_ptr_of_mem hg, hg]
  · simp [refs_ptr_of_notMem hg, hg]

theorem hostDies_iff : s.refs.HostDies Slot.host h g ↔
    ∃ o f, g = .field o f ∧ s.refs.Dies Slot.host h o := by
  constructor
  · rintro ⟨o, ho, hd⟩
    cases g with
    | var r => cases ho
    | field o' f =>
      cases ho
      exact ⟨o, f, rfl, hd⟩
  · rintro ⟨o, f, rfl, hd⟩
    exact ⟨o, rfl, hd⟩

theorem dies_of (hheld : (s.holders o).Nonempty)
    (hall : ∀ g ∈ s.holders o, g ≠ h → ∃ x f, g = .field x f ∧ s.refs.Dies Slot.host h x) :
    s.refs.Dies Slot.host h o := by
  obtain ⟨g, hg⟩ := hheld
  refine Refs.dies_iff.mpr ⟨⟨g, mem_refs_holders.mpr hg⟩, fun k hk hne => ?_⟩
  exact hostDies_iff.mpr (hall k (mem_refs_holders.mp hk) hne)

omit [DecidableEq R] [DecidableEq F] in
@[simp] theorem holders_setCnt {c : ℤ} : (s.setCnt x c).holders o = s.holders o := rfl

/-- The heap without a handle. -/
def Heap.without (h : Slot O R F) (s : Heap O R F) : Heap O R F :=
  { s with pObj := Function.update s.pObj h none, handles := s.handles.erase h }

theorem holders_without : (s.without h).holders o = (s.holders o).erase h := by
  ext k
  rw [Finset.mem_erase, mem_holders, mem_holders]
  unfold Heap.without
  by_cases hk : k = h
  · simp [hk]
  · simp [hk]

theorem sdiff_insert_of_ne (hx : s.pObj h = some x) (ho : o ≠ x) :
    s.holders o \ insert h P = s.holders o \ P := by
  have hout : h ∉ s.holders o \ P := by
    intro hin
    have ho' := (mem_holders.mp (Finset.mem_sdiff.mp hin).1).2
    rw [hx] at ho'
    exact ho (Option.some.inj ho').symm
  rw [Finset.sdiff_insert, Finset.erase_eq_of_notMem hout]

theorem card_sdiff_insert (hin : h ∈ s.handles) (hP : h ∉ P) (hx : s.pObj h = some x) :
    (s.holders x \ insert h P).card + 1 = (s.holders x \ P).card := by
  have hmem : h ∈ s.holders x \ P := Finset.mem_sdiff.mpr ⟨mem_holders.mpr ⟨hin, hx⟩, hP⟩
  rw [Finset.sdiff_insert, Finset.card_erase_add_one hmem]

/-! ### The middle of a release -/

/-- **The release of the handle `h0` is under way**: `P` are the pending handles, `D` the dying
objects. -/
structure During (s0 : Heap O R F) (h0 : Slot O R F) (P : Finset (Slot O R F)) (D : Finset O)
    (s : Heap O R F) : Prop where
  fields : s.fields = s0.fields
  objs : s.objs ⊆ s0.objs
  gone : ∀ o ∈ s0.objs, o ∉ s.objs → s0.refs.Dies Slot.host h0 o
  handles : s.handles ⊆ s0.handles
  same : ∀ g ∈ s.handles, s.pObj g = s0.pObj g
  lost : ∀ g ∈ s0.handles, g ∉ s.handles →
    ∃ o f, g = .field o f ∧ s0.refs.Dies Slot.host h0 o
  dying : ∀ o ∈ D, o ∈ s.objs ∧ s0.refs.Dies Slot.host h0 o ∧ s.iCnt o = 0
  pending : ∀ g ∈ P, g = h0 ∨ ∃ o f, g = .field o f ∧ o ∈ D
  cnt : ∀ o ∈ s.objs, s.iCnt o = (s.holders o \ P).card
  target : ∀ g ∈ s.handles, g ∉ P → ∀ o, s.pObj g = some o → o ∈ s.objs
  host : ∀ o f, .field o f ∈ s.handles → o ∈ s.objs
  full : ∀ o ∈ s.objs, o ∉ D → ∀ f ∈ s.fields o, .field o f ∈ s.handles
  kept : ∀ o ∈ s.objs, o ∉ D → (s0.holders o).Nonempty → (s.holders o \ P).Nonempty

theorem During.start (h : Exact s0) : During s0 h0 ∅ ∅ s0 where
  fields := rfl
  objs := subset_rfl
  gone _ ho hno := absurd ho hno
  handles := subset_rfl
  same _ _ := rfl
  lost _ hg hno := absurd hg hno
  dying _ ho := absurd ho (Finset.notMem_empty _)
  pending _ hg := absurd hg (Finset.notMem_empty _)
  cnt o ho := by rw [Finset.sdiff_empty]; exact h.cnt o ho
  target g hg _ := h.target g hg
  host o f hf := ((h.host o f).mp hf).1
  full o ho _ f hf := (h.host o f).mpr ⟨ho, hf⟩
  kept o _ _ hheld := by rw [Finset.sdiff_empty]; exact hheld

namespace During

theorem holders_subset (h : During s0 h0 P D s) (o : O) : s.holders o ⊆ s0.holders o := by
  intro g hg
  obtain ⟨hin, ho⟩ := mem_holders.mp hg
  exact mem_holders.mpr ⟨h.handles hin, (h.same g hin).symm.trans ho⟩

theorem cnt_lt (hm : During s0 h0 P D s) (hex : Exact s0) (ho : o ∈ s.objs) :
    s.iCnt o < 2 ^ 31 := by
  have hle : (s.holders o \ P).card ≤ (s0.holders o).card :=
    Finset.card_le_card (Finset.sdiff_subset.trans (hm.holders_subset o))
  have hlt := hex.fits o (hm.objs ho)
  rw [hm.cnt o ho]
  omega

theorem dies (hm : During s0 h0 P D s) (hQ : ∀ g ∈ Q, g = h0 ∨ ∃ o f, g = .field o f ∧ o ∈ D)
    (hnone : s.holders x \ Q = ∅) (hheld : (s0.holders x).Nonempty) :
    s0.refs.Dies Slot.host h0 x := by
  refine dies_of hheld fun g hg hne => ?_
  obtain ⟨hin, hx⟩ := mem_holders.mp hg
  by_cases hs : g ∈ s.handles
  · have hgQ : g ∈ Q := by
      by_contra hno
      have hmem : g ∈ s.holders x \ Q :=
        Finset.mem_sdiff.mpr ⟨mem_holders.mpr ⟨hs, (hm.same g hs).trans hx⟩, hno⟩
      rw [hnone] at hmem
      exact Finset.notMem_empty g hmem
    rcases hQ g hgQ with rfl | ⟨o, f, rfl, ho⟩
    · exact absurd rfl hne
    · exact ⟨o, f, rfl, (hm.dying o ho).2.1⟩
  · exact hm.lost g hin hs

theorem pending_insert (hm : During s0 h0 P D s)
    (hpend : h = h0 ∨ ∃ o f, h = .field o f ∧ o ∈ D) :
    ∀ g ∈ insert h P, g = h0 ∨ ∃ o f, g = .field o f ∧ o ∈ D := by
  intro g hg
  rcases Finset.mem_insert.mp hg with rfl | hg
  · exact hpend
  · exact hm.pending g hg

theorem cnt_dec (hm : During s0 h0 P D s) (hin : h ∈ s.handles) (hP : h ∉ P)
    (hx : s.pObj h = some x) : ∀ o ∈ s.objs, (s.setCnt x (s.iCnt x - 1)).iCnt o =
      ((s.setCnt x (s.iCnt x - 1)).holders o \ insert h P).card := by
  intro o ho
  show Function.update s.iCnt x (s.iCnt x - 1) o = _
  rw [holders_setCnt]
  by_cases hox : o = x
  · subst hox
    have hcard := card_sdiff_insert hin hP hx
    rw [Function.update_self, hm.cnt o ho]
    omega
  · rw [Function.update_of_ne hox, sdiff_insert_of_ne hx hox]
    exact hm.cnt o ho

/-- **The count of an object goes down**, and is not 0 then. -/
theorem dec (hm : During s0 h0 P D s) (hin : h ∈ s.handles) (hP : h ∉ P) (hx : s.pObj h = some x)
    (hpend : h = h0 ∨ ∃ o f, h = .field o f ∧ o ∈ D) (hxD : x ∉ D) (hc : s.iCnt x ≠ 1) :
    During s0 h0 (insert h P) D (s.setCnt x (s.iCnt x - 1)) where
  fields := hm.fields
  objs := hm.objs
  gone := hm.gone
  handles := hm.handles
  same := hm.same
  lost := hm.lost
  dying o ho := by
    have hne : o ≠ x := fun e => hxD (e ▸ ho)
    obtain ⟨h1, h2, h3⟩ := hm.dying o ho
    exact ⟨h1, h2, (Function.update_of_ne hne _ _).trans h3⟩
  pending := hm.pending_insert hpend
  cnt := hm.cnt_dec hin hP hx
  target g hg hno := hm.target g hg fun hgP => hno (Finset.mem_insert_of_mem hgP)
  host := hm.host
  full := hm.full
  kept o ho hoD hheld := by
    rw [holders_setCnt]
    have hold := hm.kept o ho hoD hheld
    by_cases hox : o = x
    · subst hox
      have hcard := card_sdiff_insert hin hP hx
      have hcnt := hm.cnt o ho
      exact Finset.card_pos.mp (by omega)
    · rwa [sdiff_insert_of_ne hx hox]

/-- **The count of an object comes to 0**, and it is dying. -/
theorem last (hm : During s0 h0 P D s) (hin : h ∈ s.handles) (hP : h ∉ P) (hx : s.pObj h = some x)
    (hpend : h = h0 ∨ ∃ o f, h = .field o f ∧ o ∈ D) (hc : s.iCnt x = 1) :
    During s0 h0 (insert h P) (insert x D) (s.setCnt x (s.iCnt x - 1)) where
  fields := hm.fields
  objs := hm.objs
  gone := hm.gone
  handles := hm.handles
  same := hm.same
  lost := hm.lost
  dying o ho := by
    have hxs := hm.target h hin hP x hx
    by_cases hox : o = x
    · subst hox
      have hcard := card_sdiff_insert hin hP hx
      have hcnt := hm.cnt o hxs
      have hzero : s.holders o \ insert h P = ∅ := Finset.card_eq_zero.mp (by omega)
      have hheld : h ∈ s0.holders o := hm.holders_subset o (mem_holders.mpr ⟨hin, hx⟩)
      refine ⟨hxs, hm.dies (hm.pending_insert hpend) hzero ⟨h, hheld⟩, ?_⟩
      show Function.update s.iCnt o (s.iCnt o - 1) o = 0
      rw [Function.update_self]
      omega
    · obtain ⟨h1, h2, h3⟩ := hm.dying o ((Finset.mem_insert.mp ho).resolve_left hox)
      exact ⟨h1, h2, (Function.update_of_ne hox _ _).trans h3⟩
  pending g hg := by
    rcases hm.pending_insert hpend g hg with rfl | ⟨o, f, rfl, ho⟩
    · exact Or.inl rfl
    · exact Or.inr ⟨o, f, rfl, Finset.mem_insert_of_mem ho⟩
  cnt := hm.cnt_dec hin hP hx
  target g hg hno := hm.target g hg fun hgP => hno (Finset.mem_insert_of_mem hgP)
  host := hm.host
  full o ho hoD := hm.full o ho fun hin => hoD (Finset.mem_insert_of_mem hin)
  kept o ho hoD hheld := by
    have hox : o ≠ x := fun e => hoD (e ▸ Finset.mem_insert_self o D)
    rw [holders_setCnt, sdiff_insert_of_ne hx hox]
    exact hm.kept o ho (fun hin => hoD (Finset.mem_insert_of_mem hin)) hheld

/-- **A handle in a dying object is destroyed**, which was pending or referred to nothing. -/
theorem erase (hm : During s0 h0 Q D s) (hxD : x ∈ D) (hP : Slot.field x f ∉ P)
    (hQ : ∀ k, k ≠ .field x f → (k ∈ Q ↔ k ∈ P))
    (hg : .field x f ∈ Q ∨ s.pObj (.field x f) = none) :
    During s0 h0 P D (s.without (.field x f)) := by
  have hsame : ∀ o, (s.without (.field x f)).holders o \ P = s.holders o \ Q := by
    intro o
    ext k
    rw [holders_without, Finset.mem_sdiff, Finset.mem_sdiff, Finset.mem_erase]
    by_cases hk : k = .field x f
    · subst hk
      rcases hg with hg | hg
      · simp [hg]
      · simp [hg]
    · rw [hQ k hk]
      simp [hk]
  refine ⟨hm.fields, hm.objs, hm.gone, (Finset.erase_subset _ _).trans hm.handles, ?_, ?_, hm.dying,
    ?_, ?_, ?_, fun o f' hf => hm.host o f' (Finset.mem_of_mem_erase hf), ?_, ?_⟩
  · intro k hk
    obtain ⟨hne, hin⟩ := Finset.mem_erase.mp hk
    exact (Function.update_of_ne hne _ _).trans (hm.same k hin)
  · intro k hk hno
    by_cases hne : k = .field x f
    · exact ⟨x, f, hne, (hm.dying x hxD).2.1⟩
    · exact hm.lost k hk fun hin => hno (Finset.mem_erase.mpr ⟨hne, hin⟩)
  · intro k hk
    have hne : k ≠ .field x f := fun e => hP (e ▸ hk)
    exact hm.pending k ((hQ k hne).mpr hk)
  · intro o ho
    rw [hsame o]
    exact hm.cnt o ho
  · intro k hk hno o ho
    obtain ⟨hne, hin⟩ := Finset.mem_erase.mp hk
    exact hm.target k hin (fun hkQ => hno ((hQ k hne).mp hkQ)) o
      ((Function.update_of_ne hne _ _).symm.trans ho)
  · intro o ho hoD f' hf'
    have hne : Slot.field o f' ≠ (.field x f : Slot O R F) := fun e => by
      cases e
      exact hoD hxD
    exact Finset.mem_erase.mpr ⟨hne, hm.full o ho hoD f' hf'⟩
  · intro o ho hoD hheld
    rw [hsame o]
    exact hm.kept o ho hoD hheld

/-- **An object ends**, all of whose handles have been destroyed. -/
theorem free (hm : During s0 h0 P (insert x D) s) (hxD : x ∉ D)
    (hpend : ∀ g ∈ P, g = h0 ∨ ∃ o f, g = .field o f ∧ o ∈ D)
    (hno : ∀ f, .field x f ∉ s.handles) : During s0 h0 P D { s with objs := s.objs.erase x } := by
  obtain ⟨hxs, hdies, hzero⟩ := hm.dying x (Finset.mem_insert_self x D)
  have hins : ∀ {o}, o ∈ s.objs.erase x → o ∉ D → o ∉ insert x D := fun ho hoD hin => by
    rcases Finset.mem_insert.mp hin with rfl | hin
    · exact Finset.notMem_erase _ _ ho
    · exact hoD hin
  refine ⟨hm.fields, (Finset.erase_subset _ _).trans hm.objs, ?_, hm.handles, hm.same, hm.lost, ?_,
    hpend, fun o ho => hm.cnt o (Finset.mem_of_mem_erase ho), ?_, ?_,
    fun o ho hoD => hm.full o (Finset.mem_of_mem_erase ho) (hins ho hoD),
    fun o ho hoD => hm.kept o (Finset.mem_of_mem_erase ho) (hins ho hoD)⟩
  · intro o ho hgone
    by_cases hox : o = x
    · rw [hox]
      exact hdies
    · exact hm.gone o ho fun hin => hgone (Finset.mem_erase.mpr ⟨hox, hin⟩)
  · intro o ho
    have hox : o ≠ x := fun e => hxD (e ▸ ho)
    obtain ⟨h1, h2, h3⟩ := hm.dying o (Finset.mem_insert_of_mem ho)
    exact ⟨Finset.mem_erase.mpr ⟨hox, h1⟩, h2, h3⟩
  · intro g hg hgP o ho
    refine Finset.mem_erase.mpr ⟨fun hox => ?_, hm.target g hg hgP o ho⟩
    subst hox
    have hcnt := hm.cnt o hxs
    have hpos : 0 < (s.holders o \ P).card :=
      Finset.card_pos.mpr ⟨g, Finset.mem_sdiff.mpr ⟨mem_holders.mpr ⟨hg, ho⟩, hgP⟩⟩
    omega
  · intro o f hf
    exact Finset.mem_erase.mpr ⟨fun hox => hno f (hox ▸ hf), hm.host o f hf⟩

theorem notMem_dying (hm : During s0 h0 P D s) (hin : h ∈ s.handles) (hP : h ∉ P)
    (hx : s.pObj h = some x) : 0 < s.iCnt x ∧ x ∉ D := by
  have hcard := card_sdiff_insert hin hP hx
  have hcnt := hm.cnt x (hm.target h hin hP x hx)
  refine ⟨by omega, fun hxD => ?_⟩
  have hzero := (hm.dying x hxD).2.2
  omega

end During

/-! ### The calls -/

/-- What a call disposes are the objects that there are no more. -/
structure Shrinks (s : Heap O R F) (evs : List O) (t : Heap O R F) : Prop where
  objs : t.objs ⊆ s.objs
  handles : t.handles ⊆ s.handles
  once : evs.Nodup
  disposed : ∀ o, o ∈ evs ↔ o ∈ s.objs ∧ o ∉ t.objs

omit [DecidableEq O] [DecidableEq R] [DecidableEq F] in
theorem Shrinks.of_objs (ho : t.objs = s.objs) (hh : t.handles ⊆ s.handles) : Shrinks s [] t :=
  ⟨ho.le, hh, List.nodup_nil, fun o => by simp [ho]⟩

omit [DecidableEq O] [DecidableEq R] [DecidableEq F] in
theorem Shrinks.trans (h : Shrinks s evs t) (h' : Shrinks t evs' u) :
    Shrinks s (evs ++ evs') u := by
  refine ⟨h'.objs.trans h.objs, h'.handles.trans h.handles, ?_, fun o => ?_⟩
  · refine List.nodup_append.mpr ⟨h.once, h'.once, fun a ha b hb e => ?_⟩
    subst e
    exact ((h.disposed a).mp ha).2 ((h'.disposed a).mp hb).1
  · have h1 := h.disposed o
    have h2 := h'.disposed o
    have h3 : o ∈ u.objs → o ∈ t.objs := fun ho => h'.objs ho
    have h4 : o ∈ t.objs → o ∈ s.objs := fun ho => h.objs ho
    rw [List.mem_append]
    tauto

omit [DecidableEq R] [DecidableEq F] in
theorem Shrinks.dispose {c : ℤ} (h : Shrinks (s.setCnt x c) evs t) (hxt : x ∈ t.objs) :
    Shrinks s (x :: evs) { t with objs := t.objs.erase x } := by
  refine ⟨(Finset.erase_subset _ _).trans h.objs, h.handles, ?_, fun o => ?_⟩
  · refine List.nodup_cons.mpr ⟨fun hxe => ?_, h.once⟩
    exact ((h.disposed x).mp hxe).2 hxt
  · have hxs : x ∈ s.objs := h.objs hxt
    rw [List.mem_cons, h.disposed o, Finset.mem_erase]
    by_cases hox : o = x
    · subst hox
      simp [hxs]
    · simp [hox, Heap.setCnt]

variable {release : O → Call O R F}

theorem get_eq (hin : h ∈ s.handles) : s.get h = pure (s.pObj h) := by
  unfold Heap.get
  rw [Eff.require_pos hin]
  rfl

theorem decRef_null (hin : h ∈ s.handles) (hp : s.pObj h = none) :
    CSmartPtr.decRef release h s = pure s := by
  unfold CSmartPtr.decRef
  rw [get_eq hin, hp]
  rfl

theorem decRef_some (hin : h ∈ s.handles) (hp : s.pObj h = some x)
    (hrel : release x s = ⟨evs, .ok t⟩) (ht : h ∈ t.handles) : CSmartPtr.decRef release h s =
      ⟨evs, .ok { t with pObj := Function.update t.pObj h none }⟩ := by
  unfold CSmartPtr.decRef
  rw [get_eq hin, hp]
  show release x s >>= _ = _
  rw [Eff.bind_of_ok (by rw [hrel]), hrel]
  unfold Heap.put
  rw [Eff.require_pos ht]
  simp

theorem decRef_error {e : Fault} (hin : h ∈ s.handles) (hp : s.pObj h = some x)
    (hrel : (release x s).res = .error e) :
    (CSmartPtr.decRef release h s).res = .error e := by
  unfold CSmartPtr.decRef
  rw [get_eq hin, hp]
  show (release x s >>= _).res = _
  rw [Eff.bind_of_error hrel]

theorem dtor_error {e : Fault} (hin : h ∈ s.handles) (hp : s.pObj h = some x)
    (hrel : (release x s).res = .error e) : (CSmartPtr.dtor release h s).res = .error e := by
  unfold CSmartPtr.dtor
  rw [Eff.bind_of_error (decRef_error hin hp hrel)]

theorem dtor_null (hin : h ∈ s.handles) (hp : s.pObj h = none) :
    CSmartPtr.dtor release h s = ⟨[], .ok (s.without h)⟩ := by
  unfold CSmartPtr.dtor Heap.without
  rw [decRef_null hin hp, ← hp, Function.update_eq_self]
  rfl

theorem dtor_some (hin : h ∈ s.handles) (hp : s.pObj h = some x)
    (hrel : release x s = ⟨evs, .ok t⟩) (ht : h ∈ t.handles) :
    CSmartPtr.dtor release h s = ⟨evs, .ok (t.without h)⟩ := by
  unfold CSmartPtr.dtor
  rw [decRef_some hin hp hrel ht, Eff.bind_of_ok rfl]
  simp [Heap.without]

theorem disposeThisObj_ok (hdt : ICommonBase.dtors release x (s.fields x) s = ⟨evs, .ok t⟩)
    (hzero : t.iCnt x = 0) : ICommonBase.disposeThisObj release x s =
      ⟨x :: evs, .ok { t with objs := t.objs.erase x }⟩ := by
  unfold ICommonBase.disposeThisObj
  rw [Eff.bind_of_ok (a := ()) rfl, Eff.bind_of_ok (by rw [hdt]), hdt]
  dsimp only
  rw [Eff.require_pos hzero]
  simp [Eff.emit]

theorem disposeThisObj_error {e : Fault}
    (hdt : (ICommonBase.dtors release x (s.fields x) s).res = .error e) :
    (ICommonBase.disposeThisObj release x s).res = .error e := by
  unfold ICommonBase.disposeThisObj
  rw [Eff.emit_bind_res, Eff.bind_of_error hdt]

/-- What a call in the middle of a release leaves that destroys the handles `E`: those were not
pending, and `h0` and the other handles in dying objects are still there. -/
structure Ends (s0 : Heap O R F) (h0 : Slot O R F) (P : Finset (Slot O R F)) (D : Finset O)
    (E : Slot O R F → Prop) (s : Heap O R F) (evs : List O) (t : Heap O R F) : Prop where
  during : During s0 h0 P D t
  shrinks : Shrinks s evs t
  erased : ∀ g, E g → g ∉ t.handles ∧ g ∉ P
  stays : ∀ g ∈ s.handles, ¬ E g → (g = h0 ∨ ∃ o f, g = .field o f ∧ o ∈ D) → g ∈ t.handles

/-- **How such a call goes**: it returns, unless the handle `h0` is in an object that dies. -/
def Goes (s0 : Heap O R F) (h0 : Slot O R F) (P : Finset (Slot O R F)) (D : Finset O)
    (E : Slot O R F → Prop) (s : Heap O R F) (call : Eff O Fault (Heap O R F)) : Prop :=
  (∃ evs t, call = ⟨evs, .ok t⟩ ∧ Ends s0 h0 P D E s evs t) ∨
    s0.refs.HostDies Slot.host h0 h0 ∧ ∃ e, call.res = .error e

/-- The handle `h0` is pending, and the object it refers to is dying. -/
def First (s0 : Heap O R F) (h0 : Slot O R F) (P : Finset (Slot O R F)) (D : Finset O) : Prop :=
  h0 ∈ P ∧ ∃ x ∈ D, s0.pObj h0 = some x

/-- The handles that are released: `h0`, and then those in dying objects. -/
def Next (s0 : Heap O R F) (h0 : Slot O R F) (P : Finset (Slot O R F)) (D : Finset O)
    (h : Slot O R F) : Prop :=
  h = h0 ∨ (∃ o f, h = .field o f ∧ o ∈ D) ∧ First s0 h0 P D

theorem Next.first (hnext : Next s0 h0 P D h) (hx : s0.pObj h = some x) :
    First s0 h0 (insert h P) (insert x D) := by
  rcases hnext with rfl | ⟨-, hP0, y, hy, hp⟩
  · exact ⟨Finset.mem_insert_self _ _, x, Finset.mem_insert_self _ _, hx⟩
  · exact ⟨Finset.mem_insert_of_mem hP0, y, Finset.mem_insert_of_mem hy, hp⟩

/-- **The end of an object**, once the destructors of its handles have returned. -/
theorem Ends.dispose {c : ℤ} (hends : Ends s0 h0 P (insert x D)
      (fun g => ∃ f ∈ s.fields x, g = .field x f) (s.setCnt x c) evs t) (hex : Exact s0)
    (hxD : x ∉ D) (hP0 : h0 ∈ P) (hpend : ∀ g ∈ P, g = h0 ∨ ∃ o f, g = .field o f ∧ o ∈ D)
    (hfields : s.fields = s0.fields) :
    Ends s0 h0 P D (fun _ => False) s (x :: evs) { t with objs := t.objs.erase x } := by
  have hm := hends.during
  have hnone : ∀ f, .field x f ∉ t.handles := by
    intro f hf
    have hf0 := (hex.host x f).mp (hm.handles hf)
    rw [← hfields] at hf0
    exact (hends.erased _ ⟨f, hf0.2, rfl⟩).1 hf
  have hxt := (hm.dying x (Finset.mem_insert_self x D)).1
  refine ⟨hm.free hxD hpend hnone, hends.shrinks.dispose hxt, fun _ hg => hg.elim, ?_⟩
  intro g hg _ hk
  refine hends.stays g hg ?_ (hk.imp_right fun ⟨o, f, he, ho⟩ =>
    ⟨o, f, he, Finset.mem_insert_of_mem ho⟩)
  rintro ⟨f, hf, rfl⟩
  rcases hk with he | ⟨o, f', he, ho⟩
  · exact (hends.erased _ ⟨f, hf, rfl⟩).2 (he ▸ hP0)
  · cases he
    exact hxD ho

/-- **`dec_ref` of an object**, if no more than `n` objects are not dying; the handle through which
it was called is pending then. -/
def Releases (s0 : Heap O R F) (h0 : Slot O R F) (n : ℕ) : Prop :=
  ∀ (P : Finset (Slot O R F)) (D : Finset O) (s : Heap O R F) (h : Slot O R F) (x : O),
    During s0 h0 P D s → h ∈ s.handles → h ∉ P → s.pObj h = some x → Next s0 h0 P D h →
    (s.objs \ D).card ≤ n →
    Goes s0 h0 (insert h P) D (fun _ => False) s (ICommonBase.decRef n x s)

/-- The destructor of `h0`, if it is in a dying object: the count of its object is 0. -/
theorem dtor_first (hm : During s0 h0 P D s) (hfirst : First s0 h0 P D) (hin : h0 ∈ s.handles) :
    ∃ e, (CSmartPtr.dtor (ICommonBase.decRef n) h0 s).res = .error e := by
  obtain ⟨-, y, hy, hp⟩ := hfirst
  obtain ⟨hys, -, hzero⟩ := hm.dying y hy
  have hdec : ∃ e, (ICommonBase.decRef n y s).res = .error e := by
    cases n with
    | zero => exact ⟨.depth, rfl⟩
    | succ m =>
      refine ⟨.decRef, ?_⟩
      unfold ICommonBase.decRef
      rw [Eff.require_pos hys, hzero, Eff.require_neg (lt_irrefl 0)]
      rfl
  obtain ⟨e, hdec⟩ := hdec
  exact ⟨e, dtor_error hin ((hm.same h0 hin).trans hp) hdec⟩

theorem dtor_goes (hr : Releases s0 h0 n) (hm : During s0 h0 P D s) (hfirst : First s0 h0 P D)
    (hxD : x ∈ D) (hin : .field x f ∈ s.handles) (hP : .field x f ∈ P → .field x f = h0)
    (hn : (s.objs \ D).card ≤ n) : Goes s0 h0 P D (· = .field x f) s
      (CSmartPtr.dtor (ICommonBase.decRef n) (.field x f) s) := by
  by_cases hpen : .field x f ∈ P
  · have he := hP hpen
    subst he
    exact Or.inr ⟨hostDies_iff.mpr ⟨x, f, rfl, (hm.dying x hxD).2.1⟩, dtor_first hm hfirst hin⟩
  have herased : ∀ (t : Heap O R F), ∀ g, g = .field x f →
      g ∉ (t.without (.field x f)).handles ∧ g ∉ P := by
    rintro t g rfl
    exact ⟨Finset.notMem_erase _ _, hpen⟩
  rcases hp : s.pObj (.field x f) with _ | y
  · refine Or.inl ⟨[], s.without (.field x f), dtor_null hin hp, ?_, ?_, herased s, ?_⟩
    · exact hm.erase hxD hpen (fun _ _ => Iff.rfl) (Or.inr hp)
    · exact Shrinks.of_objs rfl (Finset.erase_subset _ _)
    · exact fun g hg hne _ => Finset.mem_erase.mpr ⟨hne, hg⟩
  · have hnext : Next s0 h0 P D (.field x f) := Or.inr ⟨⟨x, f, rfl, hxD⟩, hfirst⟩
    rcases hr P D s _ y hm hin hpen hp hnext hn with ⟨evs, t, hdec, hends⟩ | ⟨hd, e, herr⟩
    · have ht : .field x f ∈ t.handles :=
        hends.stays _ hin not_false (Or.inr ⟨x, f, rfl, hxD⟩)
      have hlast : Shrinks t [] (t.without (.field x f)) :=
        Shrinks.of_objs rfl (Finset.erase_subset _ _)
      refine Or.inl ⟨evs, t.without (.field x f), dtor_some hin hp hdec ht, ?_, ?_, herased t, ?_⟩
      · refine hends.during.erase hxD hpen (fun k hk => ?_) (Or.inl (Finset.mem_insert_self _ _))
        simp [hk]
      · simpa using hends.shrinks.trans hlast
      · exact fun g hg hne hk => Finset.mem_erase.mpr ⟨hne, hends.stays g hg not_false hk⟩
    · exact Or.inr ⟨hd, e, dtor_error hin hp herr⟩

theorem dtors_goes (hr : Releases s0 h0 n) (hfirst : First s0 h0 P D) (hxD : x ∈ D) :
    ∀ {fs : List F} {s : Heap O R F}, During s0 h0 P D s → fs.Nodup →
    (∀ f ∈ fs, .field x f ∈ s.handles) → (∀ f, .field x f ∈ P → .field x f = h0) →
    (s.objs \ D).card ≤ n → Goes s0 h0 P D (fun g => ∃ f ∈ fs, g = .field x f) s
      (ICommonBase.dtors (ICommonBase.decRef n) x fs s)
  | [], s, hm, _, _, _, _ =>
    Or.inl ⟨[], s, rfl, hm, Shrinks.of_objs rfl subset_rfl, by simp, fun g hg _ _ => hg⟩
  | f :: fs, s, hm, hnd, hin, hP, hn => by
    obtain ⟨hf, hnd'⟩ := List.nodup_cons.mp hnd
    rcases dtor_goes hr hm hfirst hxD (hin f List.mem_cons_self) (hP f) hn with
      ⟨evs1, t, h1, he1⟩ | ⟨hd, e, herr⟩
    swap
    · refine Or.inr ⟨hd, e, ?_⟩
      show (CSmartPtr.dtor (ICommonBase.decRef n) (.field x f) s >>= _).res = _
      rw [Eff.bind_of_error herr]
    have hin' : ∀ f' ∈ fs, .field x f' ∈ t.handles := by
      intro f' hf'
      refine he1.stays _ (hin f' (List.mem_cons_of_mem f hf')) (fun e => ?_)
        (Or.inr ⟨x, f', rfl, hxD⟩)
      cases e
      exact hf hf'
    have hn' : (t.objs \ D).card ≤ n :=
      (Finset.card_le_card (Finset.sdiff_subset_sdiff he1.shrinks.objs subset_rfl)).trans hn
    have hcons : ICommonBase.dtors (ICommonBase.decRef n) x (f :: fs) s =
        CSmartPtr.dtor (ICommonBase.decRef n) (.field x f) s >>=
          ICommonBase.dtors (ICommonBase.decRef n) x fs := rfl
    rcases dtors_goes hr hfirst hxD he1.during hnd' hin' hP hn' with
      ⟨evs2, u, h2, he2⟩ | ⟨hd, e, herr⟩
    · refine Or.inl ⟨evs1 ++ evs2, u, ?_, he2.during, he1.shrinks.trans he2.shrinks, ?_, ?_⟩
      · rw [hcons, Eff.bind_of_ok (by rw [h1]), h1, h2]
      · rintro g ⟨f', hf', rfl⟩
        rcases List.mem_cons.mp hf' with rfl | hf'
        · obtain ⟨hgt, hgP⟩ := he1.erased _ rfl
          exact ⟨fun hg => hgt (he2.shrinks.handles hg), hgP⟩
        · exact he2.erased _ ⟨f', hf', rfl⟩
      · intro g hg hno hk
        have hgt := he1.stays g hg (fun e => hno ⟨f, List.mem_cons_self, e⟩) hk
        exact he2.stays g hgt (fun ⟨f', hf', e⟩ => hno ⟨f', List.mem_cons_of_mem f hf', e⟩) hk
    · refine Or.inr ⟨hd, e, ?_⟩
      rw [hcons, Eff.bind_of_ok (by rw [h1]), herr]

theorem bmod_sub_one {c : ℤ} (h0 : 0 < c) (hlt : c < 2 ^ 31) : (c - 1).bmod (2 ^ 32) = c - 1 :=
  Int.bmod_eq_of_le_mul_two (by omega) (by omega)

/-- **`dec_ref` of an object**, by induction on the number of the objects that are not dying. -/
theorem decRef_goes (hex : Exact s0) : ∀ n, Releases s0 h0 n
  | n, P, D, s, h, x, hm, hin, hP, hx, hnext, hn => by
    have hpend : h = h0 ∨ ∃ o f, h = .field o f ∧ o ∈ D := hnext.imp_right And.left
    obtain ⟨hpos, hxD⟩ := hm.notMem_dying hin hP hx
    have hxs := hm.target h hin hP x hx
    have hlt := hm.cnt_lt hex hxs
    have hmem : x ∈ s.objs \ D := Finset.mem_sdiff.mpr ⟨hxs, hxD⟩
    obtain ⟨m, rfl⟩ : ∃ m, n = m + 1 := by
      have hcard := Finset.card_pos.mpr ⟨x, hmem⟩
      exact ⟨n - 1, by omega⟩
    unfold ICommonBase.decRef
    simp only [Eff.require_pos hxs, Eff.require_pos hpos, Eff.pure_bind, bmod_sub_one hpos hlt]
    by_cases hc : s.iCnt x = 1
    swap
    · rw [if_neg hc]
      exact Or.inl ⟨[], _, rfl, hm.dec hin hP hx hpend hxD hc, Shrinks.of_objs rfl subset_rfl,
        fun _ hg => hg.elim, fun _ hg _ _ => hg⟩
    rw [if_pos hc]
    have hm1 := hm.last hin hP hx hpend hc
    have hfirst := hnext.first ((hm.same h hin).symm.trans hx)
    -- pending handles but `h0` are in objects that were dying before
    have hpen : ∀ f, .field x f ∈ insert h P → .field x f = h0 := by
      intro f hf
      rcases hm.pending_insert hpend _ hf with he | ⟨o, f', he, ho⟩
      · exact he
      · cases he
        exact absurd ho hxD
    have hnd : (s.fields x).Nodup := by
      rw [hm.fields]
      exact hex.nodup x (hm.objs hxs)
    have hcard : (s.objs \ insert x D).card ≤ m := by
      rw [Finset.sdiff_insert, Finset.card_erase_of_mem hmem]
      omega
    rcases dtors_goes (decRef_goes hex m) hfirst (Finset.mem_insert_self x D) hm1 hnd
      (hm.full x hxs hxD) hpen hcard with ⟨evs, t, hdt, hends⟩ | ⟨hd, e, herr⟩
    · have hzero := (hends.during.dying x (Finset.mem_insert_self x D)).2.2
      exact Or.inl ⟨x :: evs, _, disposeThisObj_ok hdt hzero,
        hends.dispose hex hxD hfirst.1 (hm.pending_insert hpend) hm.fields⟩
    · exact Or.inr ⟨hd, e, disposeThisObj_error herr⟩

/-! ### The release of a handle -/

/-- The handle refers to nothing. -/
def Heap.clear (h : Slot O R F) (s : Heap O R F) : Heap O R F :=
  { s with pObj := Function.update s.pObj h none }

theorem holders_clear : (s.clear h).holders o = s.holders o \ {h} := by
  ext k
  rw [Finset.mem_sdiff, Finset.mem_singleton, mem_holders, mem_holders]
  unfold Heap.clear
  by_cases hk : k = h
  · simp [hk]
  · simp [hk]

namespace During

/-- **Exactly the objects die** that the handle alone keeps. -/
theorem dies_iff (hm : During s h {h} ∅ t) (hex : Exact s) :
    s.refs.Dies Slot.host h o ↔ o ∈ s.objs ∧ o ∉ t.objs := by
  refine Refs.dies_iff_gone (K := {o | o ∈ s.objs ∧ o ∉ t.objs})
    (fun o ho => hm.gone o ho.1 ho.2) ?_
  rintro o ho ⟨g, hg⟩
  obtain ⟨hin, hgo⟩ := mem_holders.mp (mem_refs_holders.mp hg)
  have hot : o ∈ t.objs := by
    by_contra hno
    exact ho ⟨hex.target g hin o hgo, hno⟩
  obtain ⟨k, hk⟩ := hm.kept o hot (Finset.notMem_empty o) ⟨g, mem_refs_holders.mp hg⟩
  obtain ⟨hk, hne⟩ := Finset.mem_sdiff.mp hk
  refine ⟨k, mem_refs_holders.mpr (hm.holders_subset o hk), fun e => hne (by simp [e]), ?_⟩
  rintro x hx ⟨-, hxt⟩
  cases k with
  | var r => cases hx
  | field y f =>
    cases hx
    exact hxt (hm.host x f (mem_holders.mp hk).1)

theorem exact_clear (hm : During s h {h} ∅ t) (hex : Exact s) : Exact (t.clear h) where
  cnt o ho := by
    rw [holders_clear]
    exact hm.cnt o ho
  fits o ho := by
    rw [holders_clear]
    have hsub : t.holders o \ {h} ⊆ s.holders o :=
      Finset.sdiff_subset.trans (hm.holders_subset o)
    exact (Finset.card_le_card hsub).trans_lt (hex.fits o (hm.objs ho))
  target g hg o ho := by
    have hne : g ≠ h := fun e => by
      rw [e] at ho
      exact absurd ho (by simp [Heap.clear])
    refine hm.target g hg (by simpa using hne) o ?_
    exact (Function.update_of_ne hne _ _).symm.trans ho
  host o f := by
    refine ⟨fun hf => ⟨hm.host o f hf, ?_⟩,
      fun hof => hm.full o hof.1 (Finset.notMem_empty o) f hof.2⟩
    have hf0 := (hex.host o f).mp (hm.handles hf)
    show f ∈ t.fields o
    rw [hm.fields]
    exact hf0.2
  nodup o ho := by
    show (t.fields o).Nodup
    rw [hm.fields]
    exact hex.nodup o (hm.objs ho)

theorem mem_handles (hm : During s h {h} ∅ t) (hex : Exact s) :
    g ∈ t.handles ↔ g ∈ s.handles ∧ ¬ s.refs.HostDies Slot.host h g := by
  constructor
  · intro hg
    refine ⟨hm.handles hg, fun hd => ?_⟩
    obtain ⟨o, f, rfl, ho⟩ := hostDies_iff.mp hd
    exact ((hm.dies_iff hex).mp ho).2 (hm.host o f hg)
  · rintro ⟨hg, hno⟩
    by_contra hgt
    exact hno (hostDies_iff.mpr (hm.lost g hg hgt))

theorem refs_clear (hm : During s h {h} ∅ t) (hex : Exact s) (hin : h ∈ s.handles) :
    (t.clear h).refs = s.refs.release Slot.host h := by
  refine Refs.ext ?_ ?_
  · ext o
    show o ∈ t.objs ↔ o ∈ s.objs ∧ ¬ s.refs.Dies Slot.host h o
    rw [hm.dies_iff hex]
    have hsub : o ∈ t.objs → o ∈ s.objs := fun ho => hm.objs ho
    tauto
  · funext k
    by_cases hd : s.refs.HostDies Slot.host h k
    · have hkt : k ∉ (t.clear h).handles := fun hk => ((hm.mem_handles hex).mp hk).2 hd
      rw [refs_ptr_of_notMem hkt, Refs.release_ptr_dies hd]
    · by_cases hks : k ∈ s.handles
      · have hkt : k ∈ (t.clear h).handles := (hm.mem_handles hex).mpr ⟨hks, hd⟩
        rw [refs_ptr_of_mem hkt]
        by_cases hk : k = h
        · subst hk
          rw [Refs.release_ptr_self hd (refs_ptr_of_mem hks)]
          exact congrArg some (Function.update_self ..)
        · rw [Refs.release_ptr_ne hd hk, refs_ptr_of_mem hks, ← hm.same k hkt]
          exact congrArg some (Function.update_of_ne hk _ _)
      · have hkt : k ∉ (t.clear h).handles := fun hk => hks ((hm.mem_handles hex).mp hk).1
        have hk : k ≠ h := fun e => hks (e ▸ hin)
        rw [refs_ptr_of_notMem hkt, Refs.release_ptr_ne hd hk, refs_ptr_of_notMem hks]

end During

/-- What the release of a handle does. -/
structure Released (s : Heap O R F) (h : Slot O R F) (evs : List O) (t : Heap O R F) : Prop where
  exact : Exact t
  refs : t.refs = s.refs.release Slot.host h
  shrinks : Shrinks s evs t
  mem : h ∈ t.handles
  null : t.pObj h = none

/-- **A handle is released**, and exactly the objects it alone kept are disposed, -/
theorem release_ok (hex : Exact s) (hin : h ∈ s.handles)
    (hsafe : ¬ s.refs.HostDies Slot.host h h) :
    ∃ evs t, CSmartPtr.decRef (ICommonBase.decRef s.objs.card) h s = ⟨evs, .ok t⟩ ∧
      Released s h evs t := by
  rcases hp : s.pObj h with _ | x
  · refine ⟨[], s, decRef_null hin hp, hex, ?_, Shrinks.of_objs rfl subset_rfl, hin, hp⟩
    exact (Refs.release_null (by simp [Heap.refs, hin, hp])).symm
  · rcases decRef_goes hex s.objs.card ∅ ∅ s h x (During.start hex) hin (Finset.notMem_empty h) hp
      (Or.inl rfl) (by simp) with ⟨evs, t, hdec, hends⟩ | ⟨hd, -⟩
    swap
    · exact absurd hd hsafe
    have hm : During s h {h} ∅ t := hends.during
    have hsh := hends.shrinks
    have ht : h ∈ t.handles := (hm.mem_handles hex).mpr ⟨hin, hsafe⟩
    exact ⟨evs, t.clear h, decRef_some hin hp hdec ht, hm.exact_clear hex,
      hm.refs_clear hex hin, ⟨hsh.objs, hsh.handles, hsh.once, hsh.disposed⟩, ht,
      Function.update_self ..⟩

theorem release_fails (hex : Exact s) (hin : h ∈ s.handles)
    (hd : s.refs.HostDies Slot.host h h) :
    ∃ e, (CSmartPtr.decRef (ICommonBase.decRef s.objs.card) h s).res = .error e := by
  rcases hp : s.pObj h with _ | x
  · obtain ⟨o, -, ho⟩ := hd
    refine absurd ho (Refs.not_dies_of_null fun o ho => ?_)
    rw [mem_refs_holders, mem_holders, hp] at ho
    exact absurd ho.2 (by simp)
  · rcases decRef_goes hex s.objs.card ∅ ∅ s h x (During.start hex) hin (Finset.notMem_empty h) hp
      (Or.inl rfl) (by simp) with ⟨evs, t, -, hends⟩ | ⟨-, e, herr⟩
    · have hm : During s h {h} ∅ t := hends.during
      have ht : h ∈ t.handles := hends.stays h hin not_false (Or.inl rfl)
      exact absurd hd ((hm.mem_handles hex).mp ht).2
    · exact ⟨e, decRef_error hin hp herr⟩

end SmartNet.Utils.SmartPtr
