import SmartNet.Utils.Cascade

/-! # The counts of a heap of smart pointers

A safe operation keeps the counts exact and does what it is to do, and no other does.

* `Released.lastGone`: what the release of a handle disposes are the objects that lose their last
  handle;
* `assign_does`, `assign_safe`, `assign_refs`: assignments;
* `does_iff_safe`, `counts_iff_safe`: operations, and runs of operations;
* `assign_from_inside`: a handle is assigned one that is in the object it keeps. -/

namespace SmartNet.Utils.SmartPtr

open SmartNet.Lib

variable {O R F : Type} [DecidableEq O] [DecidableEq R] [DecidableEq F] {s t u : Heap O R F}
  {h g k : Slot O R F} {src : Src O R F} {o x : O} {r : R} {f : F} {fs : List F} {evs : List O}
  {p : Option O}

/-! ### A handle refers to an object -/

/-- The handle refers to `p`. -/
def Heap.point (h : Slot O R F) (p : Option O) (s : Heap O R F) : Heap O R F :=
  { s with pObj := Function.update s.pObj h p }

theorem holders_point_self (hin : h ∈ s.handles) :
    (s.point h (some o)).holders o = insert h (s.holders o) := by
  ext k
  rw [Finset.mem_insert, mem_holders, mem_holders]
  unfold Heap.point
  by_cases hk : k = h
  · subst hk
    simp [hin]
  · simp [hk]

theorem holders_point_ne (hnull : s.pObj h = none) (hne : p ≠ some o) :
    (s.point h p).holders o = s.holders o := by
  ext k
  rw [mem_holders, mem_holders]
  unfold Heap.point
  by_cases hk : k = h
  · subst hk
    simp [hnull, hne]
  · simp [hk]

/-- The handle refers to `p`, and is counted. -/
def Heap.acquire (h : Slot O R F) (p : Option O) (s : Heap O R F) : Heap O R F :=
  match p with
  | none => s.point h none
  | some o => (s.point h (some o)).setCnt o (s.iCnt o + 1)

/-- What a handle may refer to: an object there is, with room in its count for one handle more. -/
def Room (s : Heap O R F) (p : Option O) : Prop :=
  ∀ o, p = some o → o ∈ s.objs ∧ (s.holders o).card + 1 < 2 ^ 31

theorem bmod_add_one {n : ℕ} (hn : n + 1 < 2 ^ 31) : ((n : ℤ) + 1).bmod (2 ^ 32) = n + 1 :=
  Int.bmod_eq_of_le_mul_two (by omega) (by omega)

theorem incRef_null (hin : h ∈ s.handles) :
    CSmartPtr.incRef h (s.point h none) = ⟨[], .ok (s.point h none)⟩ := by
  unfold CSmartPtr.incRef
  rw [get_eq (s := s.point h none) hin]
  simp [Heap.point]
  rfl

theorem incRef_some (hin : h ∈ s.handles) : CSmartPtr.incRef h (s.point h (some o)) =
    ICommonBase.incRef o (s.point h (some o)) := by
  unfold CSmartPtr.incRef
  rw [get_eq (s := s.point h (some o)) hin]
  simp [Heap.point]

omit [DecidableEq R] [DecidableEq F] in
theorem incRef_of_mem (ho : o ∈ s.objs) :
    ICommonBase.incRef o s = ⟨[], .ok (s.setCnt o ((s.iCnt o + 1).bmod (2 ^ 32)))⟩ := by
  unfold ICommonBase.incRef
  rw [Eff.require_pos ho]
  rfl

theorem incRef_ok (hex : Exact s) (hin : h ∈ s.handles) (hroom : Room s p) :
    CSmartPtr.incRef h (s.point h p) = ⟨[], .ok (s.acquire h p)⟩ := by
  rcases p with _ | o
  · exact incRef_null hin
  · obtain ⟨ho, hlt⟩ := hroom o rfl
    have hcnt : (s.point h (some o)).iCnt o = (s.holders o).card := hex.cnt o ho
    rw [incRef_some hin, incRef_of_mem (s := s.point h (some o)) ho, hcnt, bmod_add_one hlt,
      ← hex.cnt o ho]
    rfl

theorem room_of_fits (hin : h ∈ s.handles) (hnull : s.pObj h = none) (ho : o ∈ s.objs)
    (hinc : CSmartPtr.incRef h (s.point h (some o)) = ⟨evs, .ok t⟩) (hex : Exact t) :
    (s.holders o).card + 1 < 2 ^ 31 := by
  rw [incRef_some hin, incRef_of_mem (s := s.point h (some o)) ho] at hinc
  cases hinc
  have hfits := hex.fits o ho
  have hout : h ∉ s.holders o := by simp [hnull]
  rwa [holders_setCnt, holders_point_self hin, Finset.card_insert_of_notMem hout] at hfits

theorem acquire_holders_self (hin : h ∈ s.handles) :
    (s.acquire h (some o)).holders o = insert h (s.holders o) := holders_point_self hin

theorem acquire_holders_ne (hnull : s.pObj h = none) (hne : p ≠ some o) :
    (s.acquire h p).holders o = s.holders o := by
  rcases p with _ | x
  · exact holders_point_ne hnull hne
  · exact holders_point_ne hnull hne

theorem acquire_eq : (s.acquire h p).objs = s.objs ∧ (s.acquire h p).handles = s.handles ∧
    (s.acquire h p).fields = s.fields ∧ (s.acquire h p).pObj = Function.update s.pObj h p := by
  rcases p with _ | x <;> exact ⟨rfl, rfl, rfl, rfl⟩

theorem acquire_refs (hin : h ∈ s.handles) : (s.acquire h p).refs = s.refs.point h p := by
  obtain ⟨hobjs, hhandles, -, hpObj⟩ := acquire_eq (s := s) (h := h) (p := p)
  refine Refs.ext ?_ (funext fun k => ?_)
  · show (↑(s.acquire h p).objs : Set O) = ↑s.objs
    rw [hobjs]
  · have hptr : (s.acquire h p).refs.ptr k =
        if k ∈ s.handles then some (Function.update s.pObj h p k) else none := by
      unfold Heap.refs
      simp only [hhandles, hpObj]
    rw [hptr]
    by_cases hk : k = h
    · subst hk
      rw [if_pos hin, Function.update_self, Refs.point_ptr_self]
    · rw [Function.update_of_ne hk, Refs.point_ptr_ne hk]
      rfl

theorem acquire_cnt (hex : Exact s) (hin : h ∈ s.handles) (hnull : s.pObj h = none)
    (ho : o ∈ s.objs) : (s.acquire h p).iCnt o = ((s.acquire h p).holders o).card := by
  by_cases hp : p = some o
  · subst hp
    have hout : h ∉ s.holders o := by simp [hnull]
    rw [acquire_holders_self hin, Finset.card_insert_of_notMem hout]
    have hcnt := hex.cnt o ho
    show Function.update s.iCnt o (s.iCnt o + 1) o = _
    rw [Function.update_self]
    omega
  · rw [acquire_holders_ne hnull hp, ← hex.cnt o ho]
    rcases p with _ | x
    · rfl
    · exact Function.update_of_ne (fun e => hp (by rw [e])) _ _

/-- **A handle that referred to nothing is counted.** -/
theorem Exact.acquire (hex : Exact s) (hin : h ∈ s.handles) (hnull : s.pObj h = none)
    (hroom : Room s p) : Exact (s.acquire h p) := by
  obtain ⟨hobjs, hhandles, hfields, hpObj⟩ := acquire_eq (s := s) (h := h) (p := p)
  refine ⟨fun o ho => ?_, fun o ho => ?_, fun k hk o ho => ?_, fun o f => ?_, fun o ho => ?_⟩
  · rw [hobjs] at ho
    exact acquire_cnt hex hin hnull ho
  · rw [hobjs] at ho
    by_cases hp : p = some o
    · subst hp
      have hout : h ∉ s.holders o := by simp [hnull]
      rw [acquire_holders_self hin, Finset.card_insert_of_notMem hout]
      exact (hroom o rfl).2
    · rw [acquire_holders_ne hnull hp]
      exact hex.fits o ho
  · rw [hhandles] at hk
    rw [hpObj] at ho
    rw [hobjs]
    by_cases hkh : k = h
    · subst hkh
      rw [Function.update_self] at ho
      exact (hroom o ho).1
    · rw [Function.update_of_ne hkh] at ho
      exact hex.target k hk o ho
  · rw [hhandles, hobjs, hfields]
    exact hex.host o f
  · rw [hobjs] at ho
    rw [hfields]
    exact hex.nodup o ho

/-! ### The operations -/

omit [DecidableEq R] [DecidableEq F] in
theorem LastGone.of_kept (hobjs : s.objs ⊆ t.objs)
    (hh : ∀ o ∈ s.objs, (s.holders o).Nonempty → (t.holders o).Nonempty) : LastGone s [] t where
  once := List.nodup_nil
  last o := by
    refine ⟨fun ho => (by cases ho), fun ⟨ho, hne, hnil⟩ => ?_⟩
    rw [← Finset.not_nonempty_iff_eq_empty] at hnil
    exact absurd (hh o ho hne) hnil
  objs o ho := by simp [hobjs ho]

theorem read_eq (hv : src.Valid s) : src.read s = pure (src.val s) := by
  cases src with
  | raw p => rfl
  | ptr k => exact get_eq hv

omit [DecidableEq R] [DecidableEq F] in
theorem val_mem (hex : Exact s) (hv : src.Valid s) (hp : src.val s = some o) : o ∈ s.objs := by
  cases src with
  | raw p => exact hv o hp
  | ptr k => exact hex.target k hv o hp

theorem Released.mem_evs (hr : Released s h evs t) :
    o ∈ evs ↔ o ∈ s.objs ∧ s.refs.Dies Slot.host h o := by
  have hobjs : o ∈ t.objs ↔ o ∈ s.objs ∧ ¬ s.refs.Dies Slot.host h o := by
    show o ∈ t.refs.objs ↔ _
    rw [hr.refs]
    rfl
  rw [hr.shrinks.disposed, hobjs]
  tauto

theorem Released.holders_eq (hr : Released s h evs t) :
    (s.refs.release Slot.host h).holders o = t.holders o := by
  ext k
  rw [← hr.refs, mem_refs_holders]
  rfl

theorem Released.lastGone (hr : Released s h evs t) : LastGone s evs t where
  once := hr.shrinks.once
  last o := by
    rw [hr.mem_evs, Refs.dies_iff_last, hr.holders_eq, Finset.coe_eq_empty]
    refine and_congr_right fun _ => and_congr_left fun _ => ?_
    exact ⟨fun ⟨k, hk⟩ => ⟨k, mem_refs_holders.mp hk⟩, fun ⟨k, hk⟩ => ⟨k, mem_refs_holders.mpr hk⟩⟩
  objs o ho := by
    rw [hr.shrinks.disposed]
    tauto

/-- A source that survives is there when the handle has been released, and is what it was. -/
theorem Released.source (hr : Released s h evs t) (hv : src.Valid s) (hsurv : src.Survives s h)
    (hne : s.pObj h ≠ src.val s) : src.Valid t ∧ src.val t = src.val s := by
  cases src with
  | raw p =>
    refine ⟨fun o ho => ?_, rfl⟩
    show o ∈ t.refs.objs
    rw [hr.refs]
    exact ⟨hv o ho, hsurv o ho⟩
  | ptr k =>
    have hkh : k ≠ h := fun e => hne (by rw [e]; rfl)
    have hptr : t.refs.ptr k = some (s.pObj k) := by
      rw [hr.refs, Refs.release_ptr_ne hsurv hkh, refs_ptr_of_mem hv]
    have hk : k ∈ t.handles := by
      by_contra hno
      rw [refs_ptr_of_notMem hno] at hptr
      cases hptr
    rw [refs_ptr_of_mem hk] at hptr
    exact ⟨hk, Option.some.inj hptr⟩

/-- An object that a handle refers to is not without one, the others keep theirs. -/
theorem LastGone.acquire (hl : LastGone s evs t) (hin : h ∈ t.handles) (hnull : t.pObj h = none)
    (hp : ∀ o, p = some o → o ∈ t.objs) : LastGone s evs (t.acquire h p) := by
  obtain ⟨hobjs, -, -, -⟩ := acquire_eq (s := t) (h := h) (p := p)
  refine ⟨hl.once, fun o => ?_, fun o ho => by rw [hobjs]; exact hl.objs o ho⟩
  by_cases hpo : p = some o
  · subst hpo
    rw [acquire_holders_self hin]
    have hne : insert h (t.holders o) ≠ ∅ := Finset.insert_ne_empty h _
    have hnot : o ∈ s.objs → o ∉ evs := fun ho => (hl.objs o ho).mp (hp o rfl)
    have hmem : o ∈ evs → o ∈ s.objs := fun ho => ((hl.last o).mp ho).1
    tauto
  · rw [acquire_holders_ne hnull hpo]
    exact hl.last o

/-- What is left to do when the handle that is assigned to has been released. -/
def CSmartPtr.take (h : Slot O R F) (src : Src O R F) : Call O R F := fun s =>
  src.read s >>= fun p => s.put h p >>= incRef h

theorem take_eq (hin : h ∈ s.handles) (hread : src.read s = pure p) :
    CSmartPtr.take h src s = CSmartPtr.incRef h (s.point h p) := by
  unfold CSmartPtr.take Heap.put
  rw [hread, Eff.pure_bind, Eff.require_pos hin]
  rfl

theorem assign_same (hin : h ∈ s.handles) (hv : src.Valid s) (heq : s.pObj h = src.val s) :
    step (.assign h src) s = ⟨[], .ok s⟩ := by
  show CSmartPtr.assign h src s = _
  unfold CSmartPtr.assign
  rw [get_eq hin, Eff.pure_bind, read_eq hv, Eff.pure_bind, if_pos heq]
  rfl

theorem assign_other (hin : h ∈ s.handles) (hv : src.Valid s) (hne : s.pObj h ≠ src.val s) :
    step (.assign h src) s =
      CSmartPtr.decRef (ICommonBase.decRef s.objs.card) h s >>= CSmartPtr.take h src := by
  show CSmartPtr.assign h src s = _
  unfold CSmartPtr.assign
  rw [get_eq hin, Eff.pure_bind, read_eq hv, Eff.pure_bind, if_neg hne]
  rfl

/-- A safe assignment of another object releases the old one, and then acquires the new one. -/
theorem assign_acquires (hex : Exact s) (hv : Valid s (.assign h src))
    (hne : s.pObj h ≠ src.val s) (hs : Survive s h src) : ∃ evs t, Released s h evs t ∧
      Room t (src.val s) ∧ step (.assign h src) s = ⟨evs, .ok (t.acquire h (src.val s))⟩ := by
  obtain ⟨hin, hsrc⟩ := hv
  obtain ⟨evs, t, hrel, hr⟩ := release_ok hex hin hs.target
  obtain ⟨hvt, hval⟩ := hr.source hsrc hs.source hne
  have hroom : Room t (src.val s) := by
    intro o ho
    have hlt := hs.room o ho
    rw [hr.holders_eq, Set.ncard_coe_finset] at hlt
    exact ⟨val_mem hr.exact hvt (hval.trans ho), hlt⟩
  have hread : src.read t = pure (src.val s) := by rw [read_eq hvt, hval]
  refine ⟨evs, t, hr, hroom, ?_⟩
  rw [assign_other hin hsrc hne, Eff.bind_of_ok (by rw [hrel]), hrel, take_eq hr.mem hread,
    incRef_ok hr.exact hr.mem hroom, List.append_nil]

/-- **What an assignment leaves** is what is left when the handle has been released, and then refers
to the new object. -/
theorem assign_refs (hex : Exact s) (hv : Valid s (.assign h src)) (hne : s.pObj h ≠ src.val s)
    (hs : Survive s h src) : ∃ evs u, step (.assign h src) s = ⟨evs, .ok u⟩ ∧
      u.refs = (s.refs.release Slot.host h).point h (src.val s) := by
  obtain ⟨evs, t, hr, -, hstep⟩ := assign_acquires hex hv hne hs
  exact ⟨evs, _, hstep, by rw [acquire_refs hr.mem, hr.refs]⟩

/-- **Assignments.** -/
theorem assign_does (hex : Exact s) (hv : Valid s (.assign h src)) (hs : Safe s (.assign h src)) :
    Does s (.assign h src) := by
  by_cases heq : s.pObj h = src.val s
  · exact ⟨[], s, assign_same hv.1 hv.2 heq, hex,
      LastGone.of_kept subset_rfl fun _ _ hne => hne, hv.1, heq⟩
  obtain ⟨evs, t, hr, hroom, hstep⟩ := assign_acquires hex hv heq (hs heq)
  obtain ⟨-, hhandles, -, hpObj⟩ := acquire_eq (s := t) (h := h) (p := src.val s)
  refine ⟨evs, t.acquire h (src.val s), hstep, hr.exact.acquire hr.mem hr.null hroom,
    hr.lastGone.acquire hr.mem hr.null fun o ho => (hroom o ho).1, ?_, ?_⟩
  · rw [hhandles]
    exact hr.mem
  · rw [hpObj, Function.update_self]

/-- A source that does not survive is not there when the handle has been released. -/
theorem Released.take_fails (hr : Released s h evs t) (hno : ¬ src.Survives s h) :
    ∃ e, (CSmartPtr.take h src t).res = .error e := by
  cases src with
  | raw p =>
    simp only [Src.Survives, not_forall, not_not] at hno
    obtain ⟨o, rfl, hd⟩ := hno
    have ho : o ∉ t.objs := fun hin => by
      have hin' : o ∈ t.refs.objs := hin
      rw [hr.refs] at hin'
      exact hin'.2 hd
    refine ⟨.deadObj, ?_⟩
    rw [take_eq (p := some o) hr.mem rfl, incRef_some hr.mem]
    unfold ICommonBase.incRef
    rw [Eff.require_neg (show o ∉ (t.point h (some o)).objs from ho)]
    rfl
  | ptr k =>
    have hk : k ∉ t.handles := fun hin => by
      have hptr := refs_ptr_of_mem hin
      rw [hr.refs, Refs.release_ptr_dies (not_not.mp hno)] at hptr
      cases hptr
    refine ⟨.deadHandle, ?_⟩
    unfold CSmartPtr.take
    show (t.get k >>= _).res = _
    unfold Heap.get
    rw [Eff.require_neg hk]
    rfl

/-- **An assignment that does what it is to** is safe. -/
theorem assign_safe (hex : Exact s) (hv : Valid s (.assign h src)) (hd : Does s (.assign h src)) :
    Safe s (.assign h src) := by
  intro hne
  obtain ⟨hin, hsrc⟩ := hv
  obtain ⟨evs, u, hstep, hexu, -, -⟩ := hd
  rw [assign_other hin hsrc hne] at hstep
  have htarget : ¬ s.refs.HostDies Slot.host h h := fun hd => by
    obtain ⟨e, herr⟩ := release_fails hex hin hd
    rw [Eff.bind_of_error herr] at hstep
    cases hstep
  obtain ⟨evs1, t, hrel, hr⟩ := release_ok hex hin htarget
  rw [Eff.bind_of_ok (by rw [hrel]), hrel] at hstep
  have hsource : src.Survives s h := by
    by_contra hno
    obtain ⟨e, herr⟩ := hr.take_fails hno
    rw [herr] at hstep
    cases hstep
  obtain ⟨hvt, hval⟩ := hr.source hsrc hsource hne
  refine ⟨htarget, hsource, fun o ho => ?_⟩
  have hread : src.read t = pure (some o) := by rw [read_eq hvt, hval, ho]
  rw [hr.holders_eq, Set.ncard_coe_finset]
  rcases hinc : CSmartPtr.incRef h (t.point h (some o)) with ⟨evs2, e | v⟩
  · rw [take_eq hr.mem (read_eq hvt), hval, ho, hinc] at hstep
    cases hstep
  · rw [take_eq hr.mem (read_eq hvt), hval, ho, hinc] at hstep
    cases hstep
    exact room_of_fits hr.mem hr.null (val_mem hr.exact hvt (hval.trans ho)) hinc hexu

/-- The heap with a variable that refers to nothing. -/
def Heap.addVar (r : R) (s : Heap O R F) : Heap O R F :=
  { s with handles := insert (.var r) s.handles, pObj := Function.update s.pObj (.var r) none }

theorem holders_addVar (hr : .var r ∉ s.handles) : (s.addVar r).holders o = s.holders o := by
  ext k
  rw [mem_holders, mem_holders]
  unfold Heap.addVar
  by_cases hk : k = .var r
  · subst hk
    simp [hr]
  · simp [hk]

theorem Exact.addVar (hex : Exact s) (hr : .var r ∉ s.handles) : Exact (s.addVar r) where
  cnt o ho := by
    rw [holders_addVar hr]
    exact hex.cnt o ho
  fits o ho := by
    rw [holders_addVar hr]
    exact hex.fits o ho
  target k hk o ho := by
    by_cases hkr : k = .var r
    · subst hkr
      exact absurd ho (by simp [Heap.addVar])
    · refine hex.target k ((Finset.mem_insert.mp hk).resolve_left hkr) o ?_
      exact (Function.update_of_ne hkr _ _).symm.trans ho
  host o f := by
    show _ ↔ o ∈ s.objs ∧ f ∈ s.fields o
    rw [← hex.host o f]
    simp [Heap.addVar]
  nodup := hex.nodup

theorem construct_eq (hv : src.Valid s) : step (.construct r src) s =
    CSmartPtr.incRef (.var r) ((s.addVar r).point (.var r) (src.val s)) := by
  have hpoint : (s.addVar r).point (.var r) (src.val s) = { s with
      handles := insert (.var r) s.handles
      pObj := Function.update s.pObj (.var r) (src.val s) } := by
    unfold Heap.addVar Heap.point
    rw [Function.update_idem]
  show CSmartPtr.construct r src s = _
  unfold CSmartPtr.construct
  rw [read_eq hv, Eff.pure_bind, hpoint]

/-- **Constructions.** -/
theorem construct_does (hex : Exact s) (hv : Valid s (.construct r src))
    (hs : Safe s (.construct r src)) : Does s (.construct r src) := by
  obtain ⟨hr, hsrc⟩ := hv
  have hin : .var r ∈ (s.addVar r).handles := Finset.mem_insert_self _ _
  have hnull : (s.addVar r).pObj (.var r) = none := Function.update_self ..
  have hroom : Room (s.addVar r) (src.val s) := by
    intro o ho
    have hmem : o ∈ s.objs := val_mem hex hsrc ho
    rw [holders_addVar hr]
    exact ⟨hmem, hs o ho⟩
  have hkept : LastGone s [] (s.addVar r) := LastGone.of_kept subset_rfl fun o _ hne => by
    rw [holders_addVar hr]
    exact hne
  obtain ⟨-, hhandles, -, hpObj⟩ :=
    acquire_eq (s := s.addVar r) (h := .var r) (p := src.val s)
  refine ⟨[], _, (construct_eq hsrc).trans (incRef_ok (hex.addVar hr) hin hroom),
    (hex.addVar hr).acquire hin hnull hroom,
    hkept.acquire hin hnull fun o ho => (hroom o ho).1, ?_, ?_⟩
  · rw [hhandles]
    exact hin
  · rw [hpObj, Function.update_self]

/-- **A construction that does what it is to** is safe. -/
theorem construct_safe (hex : Exact s) (hv : Valid s (.construct r src))
    (hd : Does s (.construct r src)) : Safe s (.construct r src) := by
  intro o ho
  obtain ⟨hr, hsrc⟩ := hv
  obtain ⟨evs, t, hstep, hext, -, -⟩ := hd
  rw [construct_eq hsrc, ho] at hstep
  have hmem : o ∈ s.objs := val_mem hex hsrc ho
  have hlt := room_of_fits (Finset.mem_insert_self _ _) (Function.update_self ..)
    (show o ∈ (s.addVar r).objs from hmem) hstep hext
  rwa [holders_addVar hr] at hlt

theorem holders_erase (hnull : s.pObj h = none) :
    Heap.holders { s with handles := s.handles.erase h } o = s.holders o := by
  ext k
  rw [mem_holders, mem_holders, Finset.mem_erase]
  by_cases hk : k = h
  · subst hk
    simp [hnull]
  · simp [hk]

/-- **Destructions.** -/
theorem destroy_does (hex : Exact s) (hv : Valid s (.destroy r)) : Does s (.destroy r) := by
  have hsafe : ¬ s.refs.HostDies Slot.host (.var r) (.var r) := by
    rintro ⟨x, hx, -⟩
    cases hx
  obtain ⟨evs, t, hrel, hr⟩ := release_ok hex hv hsafe
  have hstep : step (.destroy r) s = ⟨evs, .ok { t with handles := t.handles.erase (.var r) }⟩ := by
    show CSmartPtr.dtor (ICommonBase.decRef s.objs.card) (.var r) s = _
    unfold CSmartPtr.dtor
    rw [Eff.bind_of_ok (by rw [hrel]), hrel]
    simp
  have hl := hr.lastGone
  refine ⟨evs, _, hstep, ⟨fun o ho => ?_, fun o ho => ?_, fun k hk => ?_, fun o f => ?_,
    hr.exact.nodup⟩, ⟨hl.once, fun o => ?_, hl.objs⟩, Finset.notMem_erase _ _⟩
  · rw [holders_erase hr.null]
    exact hr.exact.cnt o ho
  · rw [holders_erase hr.null]
    exact hr.exact.fits o ho
  · exact hr.exact.target k (Finset.mem_of_mem_erase hk)
  · rw [← hr.exact.host o f]
    simp
  · rw [holders_erase hr.null]
    exact hl.last o

/-- The heap with a new object. -/
def Heap.add (o : O) (fs : List F) (s : Heap O R F) : Heap O R F where
  objs := insert o s.objs
  iCnt := Function.update s.iCnt o 0
  fields := Function.update s.fields o fs
  handles := s.handles ∪ (fs.map (Slot.field o)).toFinset
  pObj h := if h.host = some o then none else s.pObj h

theorem holders_add (hex : Exact s) (ho : o ∉ s.objs) :
    (s.add o fs).holders x = s.holders x := by
  ext k
  rw [mem_holders, mem_holders]
  cases k with
  | var r => simp [Heap.add, Slot.host]
  | field y f =>
    by_cases hy : y = o
    · subst hy
      have hno : .field y f ∉ s.handles := fun hin => ho ((hex.host y f).mp hin).1
      simp [Heap.add, Slot.host, hno]
    · simp [Heap.add, Slot.host, hy, Ne.symm hy]

theorem Exact.add (hex : Exact s) (ho : o ∉ s.objs) (hnd : fs.Nodup) : Exact (s.add o fs) := by
  have hnone : s.holders o = ∅ := by
    refine Finset.eq_empty_of_forall_notMem fun k hk => ?_
    obtain ⟨hin, hk⟩ := mem_holders.mp hk
    exact ho (hex.target k hin o hk)
  refine ⟨fun x hx => ?_, fun x hx => ?_, fun k hk x hx => ?_, fun x f => ?_, fun x hx => ?_⟩
  · rw [holders_add hex ho]
    show Function.update s.iCnt o 0 x = _
    by_cases hxo : x = o
    · subst hxo
      rw [Function.update_self, hnone]
      rfl
    · rw [Function.update_of_ne hxo]
      exact hex.cnt x ((Finset.mem_insert.mp hx).resolve_left hxo)
  · rw [holders_add hex ho]
    by_cases hxo : x = o
    · subst hxo
      rw [hnone]
      exact Nat.two_pow_pos 31
    · exact hex.fits x ((Finset.mem_insert.mp hx).resolve_left hxo)
  · have hmem : k ∈ s.holders x := by
      rw [← holders_add hex ho]
      exact mem_holders.mpr ⟨hk, hx⟩
    obtain ⟨hin, hkx⟩ := mem_holders.mp hmem
    exact Finset.mem_insert_of_mem (hex.target k hin x hkx)
  · show _ ↔ x ∈ insert o s.objs ∧ f ∈ Function.update s.fields o fs x
    by_cases hxo : x = o
    · subst hxo
      have hno : .field x f ∉ s.handles := fun hin => ho ((hex.host x f).mp hin).1
      simp [Heap.add, hno]
    · simp [Heap.add, hxo, Ne.symm hxo, hex.host x f]
  · show (Function.update s.fields o fs x).Nodup
    by_cases hxo : x = o
    · subst hxo
      rw [Function.update_self]
      exact hnd
    · rw [Function.update_of_ne hxo]
      exact hex.nodup x ((Finset.mem_insert.mp hx).resolve_left hxo)

/-- **New objects.** -/
theorem create_does (hex : Exact s) (hv : Valid s (.create o fs)) : Does s (.create o fs) := by
  obtain ⟨ho, hnd⟩ := hv
  refine ⟨[], s.add o fs, rfl, hex.add ho hnd, ?_, Finset.mem_insert_self o _, ?_⟩
  · refine LastGone.of_kept (Finset.subset_insert o _) fun x _ hne => ?_
    rw [holders_add hex ho]
    exact hne
  · intro f hf
    exact ⟨by simp [Heap.add, hf], by simp [Heap.add, Slot.host]⟩

/-- **An operation does what it is to exactly if it is safe.** -/
theorem does_iff_safe (hex : Exact s) {op : Op O R F} (hv : Valid s op) :
    Does s op ↔ Safe s op := by
  cases op with
  | create o fs => exact iff_of_true (create_does hex hv) trivial
  | construct r src => exact ⟨construct_safe hex hv, construct_does hex hv⟩
  | assign h src => exact ⟨assign_safe hex hv, assign_does hex hv⟩
  | destroy r => exact iff_of_true (destroy_does hex hv) trivial

/-! ### Safe assignments -/

theorem ncard_release_le (s : Heap O R F) (h : Slot O R F) (o : O) :
    ((s.refs.release Slot.host h).holders o).ncard ≤ (s.holders o).card := by
  have hsub : (s.refs.release Slot.host h).holders o ⊆ ↑(s.holders o) := fun k hk =>
    mem_refs_holders.mp (Refs.mem_holders_release.mp hk).1
  have hle := Set.ncard_le_ncard hsub (s.holders o).finite_toSet
  rwa [Set.ncard_coe_finset] at hle

theorem safe_assign_null (hnull : s.pObj h = none)
    (hroom : ∀ o, src.val s = some o → (s.holders o).card + 1 < 2 ^ 31) :
    Safe s (.assign h src) := by
  have hno : ∀ {o}, ¬ s.refs.Dies Slot.host h o := Refs.not_dies_of_null fun o ho => by
    rw [mem_refs_holders, mem_holders, hnull] at ho
    exact absurd ho.2 (by simp)
  intro _
  refine ⟨fun ⟨x, _, hd⟩ => hno hd, ?_, fun o ho => ?_⟩
  · cases src with
    | raw p => exact fun o _ => hno
    | ptr k => exact fun ⟨x, _, hd⟩ => hno hd
  · have hle := ncard_release_le s h o
    have hlt := hroom o ho
    omega

theorem safe_assign_var {q : R} (hroom : ∀ o, s.pObj (.var q) = some o →
    (s.holders o).card + 1 < 2 ^ 31) : Safe s (.assign (.var r) (.ptr (.var q))) := by
  intro _
  refine ⟨fun ⟨x, hx, _⟩ => (by cases hx), fun ⟨x, hx, _⟩ => (by cases hx), fun o ho => ?_⟩
  have hle := ncard_release_le s (.var r) o
  have hlt := hroom o ho
  omega

/-! ### Runs -/

/-- A program with a heap. -/
def started (s : Heap O R F) : Proc (Heap O R F) O Fault := { obj := s }

/-- **The counts are exact, exactly if every operation is safe**: no assert fails, no operation
reads a handle or touches an object there is no more, the count of every object is the number of the
handles to it, it is disposed when the last one goes and not before, and an assignment makes its
handle refer to what the source referred to. -/
theorem counts_iff_safe (s : Heap O R F) (hex : Exact s) (ops : List (Op O R F))
    (hv : Proc.Meets step Valid (started s) ops) :
    ((Proc.run step (started s) ops).fault = none ∧ Exact (Proc.run step (started s) ops).obj ∧
        Proc.Meets step Does (started s) ops) ↔ Proc.Meets step Safe (started s) ops := by
  have hgo : ∀ (op : Op O R F) (s : Heap O R F), Exact s → Valid s op ∧ Does s op →
      ∃ t, (step op s).res = .ok t ∧ Exact t ∧ Safe s op ∧ Does s op := by
    rintro op s hex ⟨hv, hd⟩
    have hs := (does_iff_safe hex hv).mp hd
    obtain ⟨evs, t, hstep, hext, hrest⟩ := hd
    exact ⟨t, by rw [hstep], hext, hs, evs, t, hstep, hext, hrest⟩
  have hgo' : ∀ (op : Op O R F) (s : Heap O R F), Exact s → Valid s op ∧ Safe s op →
      ∃ t, (step op s).res = .ok t ∧ Exact t ∧ Safe s op ∧ Does s op :=
    fun op s hex hc => hgo op s hex ⟨hc.1, (does_iff_safe hex hc.1).mpr hc.2⟩
  constructor
  · rintro ⟨-, -, hd⟩
    have hrun := Proc.run_ok hgo (p := started s) rfl hex ((Run.meets_and _).mpr ⟨hv, hd⟩)
    exact ((Run.meets_and _).mp hrun.2.2).1
  · intro hs
    have hrun := Proc.run_ok hgo' (p := started s) rfl hex ((Run.meets_and _).mpr ⟨hv, hs⟩)
    exact ⟨hrun.1, hrun.2.1, ((Run.meets_and _).mp hrun.2.2).2⟩

/-- No object and no handle. -/
def nothing : Heap Bool Bool Unit where
  objs := ∅
  iCnt _ := 0
  fields _ := []
  handles := ∅
  pObj _ := none

theorem exact_nothing : Exact nothing := by
  constructor <;> simp [nothing]

/-- Two objects, the second in a field of the first, which a variable refers to; another variable
refers to the second, and is assigned to the first variable. -/
def keptByAnother : List (Op Bool Bool Unit) :=
  [.create false [()], .construct false (.raw (some false)), .create true [],
    .assign (.field false ()) (.raw (some true)), .construct true (.ptr (.field false ())),
    .assign (.var false) (.ptr (.var true))]

/-- The first object is disposed in the assignment, the second has two handles. -/
theorem counts_iff_safe_kept :
    (Proc.run step (started nothing) keptByAnother).log = [false] ∧
      (Proc.run step (started nothing) keptByAnother).obj.iCnt true = 2 ∧
      Exact (Proc.run step (started nothing) keptByAnother).obj ∧
      Proc.Meets step Does (started nothing) keptByAnother := by
  have hiff := counts_iff_safe nothing exact_nothing keptByAnother (by decide)
  have hall := hiff.mpr ⟨trivial, fun o ho => (by cases ho; decide), trivial,
    safe_assign_null rfl fun o ho => (by cases ho; decide), fun o ho => (by cases ho; decide),
    safe_assign_var fun o ho => (by cases ho; decide), trivial⟩
  exact ⟨by decide, by decide, hall.2.1, hall.2.2⟩

/-- Two objects, the second in a field of the first, which a variable refers to and is assigned. -/
def keptByItself : List (Op Bool Bool Unit) :=
  [.create false [()], .construct false (.raw (some false)), .create true [],
    .assign (.field false ()) (.raw (some true)), .assign (.var false) (.ptr (.field false ()))]

/-- **A handle stored in the object that the target keeps**: the assignment disposes both objects,
and then reads the handle. -/
theorem assign_from_inside :
    Proc.Meets step Valid (started nothing) keptByItself ∧
      (Proc.run step (started nothing) keptByItself).fault = some .deadHandle ∧
      (Proc.run step (started nothing) keptByItself).log = [false, true] := by
  decide

end SmartNet.Utils.SmartPtr
