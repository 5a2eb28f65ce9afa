import SmartNet.Framework.EngineStop

/-! # Requests to the engine

`add_endpoint`, `del_endpoint`, `add_timer` and `del_timer` are to be accepted exactly when the
engine is started. The test whether it is compares a `bool` with 0 (`lockFails_eq`), so it is never
refused; and all but `add_endpoint` end without a `return`.

* `Accepts`: what a request owes its caller;
* `pickTask_min`: the task `add_endpoint` chooses;
* `addEndpoint_started`, `delEndpoint_mute`: what the requests do;
* `accepts_iff`: exactly which requests are as they should be. -/

namespace SmartNet.Framework.Engine

open SmartNet.Common SmartNet.Lib SmartNet.Endpoint.Types SmartNet.Framework.Notifier
  SmartNet.Framework.Deferred

variable {α β : Type}

/-- A request that is pushed into the cache of a notifier: whose, and which. -/
def pushed : Ev α β → Option (Ref × Req × (α ⊕ β))
  | .io t (.request r x) => some (t, r, .inl x)
  | .timer (.request r x) => some (.misc, r, .inr x)
  | _ => none

/-- The requests that are queued in a call. -/
def queued (evs : List (Ev α β)) : List (Ref × Req × (α ⊕ β)) := evs.filterMap pushed

def isLock : Ev α β → Bool
  | .lock => true
  | _ => false

def isUnlock : Ev α β → Bool
  | .unlock => true
  | _ => false

/-- The object is not null, and one of io objects has an event mask for the type. -/
def Call.Registered (s : Sys α β) : Call α β → Prop
  | .addEndpoint x n => ∃ y, x = some y ∧ (s.objs y).getIoEvt n ≠ 0
  | .delEndpoint x n => ∃ y, x = some y ∧ (s.objs y).getIoEvt n ≠ 0
  | .addTimer x => x ≠ none
  | .delTimer x => x ≠ none

/-- The request a call is to queue, at the notifier that is to get it. -/
def Call.Wants (s : Sys α β) (q : Ref × Req × (α ⊕ β)) : Call α β → Prop
  | .addEndpoint x n => ∃ y ty i, x = some y ∧ n = eit ty ∧ pickTask (s.eng.vec ty) = some i ∧
      q = (.io ty i, .add, .inl y)
  | .delEndpoint x n => ∃ y ty, x = some y ∧ n = eit ty ∧ 0 ≤ (s.objs y).getTaskId ty ∧
      q = (.io ty ((s.objs y).getTaskId ty).toNat, .del, .inl y)
  | .addTimer x => ∃ y, x = some y ∧ q = (.misc, .add, .inr y)
  | .delTimer x => ∃ y, x = some y ∧ q = (.misc, .del, .inr y)

/-- **What a request owes its caller**: a started engine queues it and returns `CMNERR_SUC`; another
returns an error and does nothing; and the lock of the state is released as often as it is taken. -/
structure Accepts [DecidableEq α] (c : Call α β) (s : Sys α β) : Prop where
  started : s.eng.i32curstate = .esStarted → c.Registered s → ∃ q s',
    (c.make s).res = .ok (some .suc, s') ∧ queued (c.make s).evs = [q] ∧ c.Wants s q
  others : s.eng.i32curstate ≠ .esStarted → ∃ i32Ret, i32Ret ≠ .suc ∧
    (c.make s).res = .ok (some i32Ret, s) ∧ queued (c.make s).evs = []
  lock : (c.make s).evs.countP isLock = (c.make s).evs.countP isUnlock

/-- The places of the tasks an object is with exist. -/
def InRange (s : Sys α β) (x : α) (i32IoType : ℤ) : Prop :=
  ∀ ty, i32IoType = eit ty → 0 ≤ (s.objs x).getTaskId ty →
    ((s.objs x).getTaskId ty).toNat < (s.eng.vec ty).length

/-- When a request is as it should be. -/
def AcceptedWhen (s : Sys α β) : Call α β → Prop
  | .addEndpoint x _ => x = none ∨ s.eng.i32curstate = .esStarted
  | .delEndpoint x n => x = none ∨ s.eng.i32curstate = .esStarted ∧
      ∃ y, x = some y ∧ (s.objs y).getIoEvt n = 0 ∧ InRange s y n
  | .addTimer x => x = none ∧ s.eng.i32curstate = .esStarted
  | .delTimer x => x = none ∧ s.eng.i32curstate = .esStarted

/-! ### The choice of a task -/

theorem pickLoop_spec : ∀ (cs pre : List ℤ) (best : ℕ) (min : ℤ), pre[best]? = some min →
    (∀ c ∈ pre, min ≤ c) → ∃ c, (pre ++ cs)[pickLoop pre.length best min cs]? = some c ∧
      (c = 0 ∨ ∀ c' ∈ pre ++ cs, c ≤ c')
  | [], pre, best, min, hb, hmin => by
    rw [List.append_nil]
    exact ⟨min, hb, Or.inr hmin⟩
  | c :: cs, pre, best, min, hb, hmin => by
    have hlen : (pre ++ [c]).length = pre.length + 1 := by
      rw [List.length_append, List.length_singleton]
    have happ : pre ++ c :: cs = (pre ++ [c]) ++ cs := by simp
    unfold pickLoop
    split_ifs with h0 hlt
    · refine ⟨c, ?_, Or.inl h0.symm⟩
      rw [List.getElem?_append_right le_rfl, Nat.sub_self]
      rfl
    · rw [happ, ← hlen]
      refine pickLoop_spec cs (pre ++ [c]) pre.length c List.getElem?_concat_length fun c' hc' => ?_
      rcases List.mem_append.mp hc' with hc' | hc'
      · exact le_of_lt (lt_of_lt_of_le hlt (hmin c' hc'))
      · rw [List.mem_singleton.mp hc']
    · rw [happ, ← hlen]
      refine pickLoop_spec cs (pre ++ [c]) best min ?_ fun c' hc' => ?_
      · have hi : best < pre.length := (List.getElem?_eq_some_iff.mp hb).1
        rw [List.getElem?_append_left hi]
        exact hb
      · rcases List.mem_append.mp hc' with hc' | hc'
        · exact hmin c' hc'
        · rw [List.mem_singleton.mp hc']
          exact not_lt.mp hlt

/-- **The task `add_endpoint` chooses** has no objects, or no task has fewer. -/
theorem pickTask_min {v : List (IoTask α)} {i : ℕ} (h : pickTask v = some i) :
    ∃ t, v[i]? = some t ∧ (t.getIoobjCnt = 0 ∨ ∀ t' ∈ v, t.getIoobjCnt ≤ t'.getIoobjCnt) := by
  cases v with
  | nil => cases h
  | cons t ts =>
    obtain ⟨c, hc, hmin⟩ : ∃ c, ((t :: ts).map IoTask.getIoobjCnt)[i]? = some c ∧
        (c = 0 ∨ ∀ c' ∈ (t :: ts).map IoTask.getIoobjCnt, c ≤ c') := by
      cases h
      rw [List.map_cons]
      unfold pickLoop
      split_ifs with h0 hlt
      · exact ⟨_, rfl, Or.inl h0.symm⟩
      · exact absurd hlt (lt_irrefl _)
      · exact pickLoop_spec (ts.map IoTask.getIoobjCnt) [t.getIoobjCnt] 0 t.getIoobjCnt rfl
          fun c hc => by rw [List.mem_singleton.mp hc]
    rw [List.getElem?_map] at hc
    obtain ⟨t', ht', rfl⟩ := Option.map_eq_some_iff.mp hc
    refine ⟨t', ht', hmin.imp id fun h t'' ht'' => ?_⟩
    exact h _ (List.mem_map_of_mem ht'')

theorem pickTask_of_ne_nil {v : List (IoTask α)} (h : v ≠ []) :
    ∃ i t, pickTask v = some i ∧ v[i]? = some t := by
  obtain ⟨i, hi⟩ : ∃ i, pickTask v = some i := by
    cases v with
    | nil => exact absurd rfl h
    | cons t ts => exact ⟨_, rfl⟩
  obtain ⟨t, ht, -⟩ := pickTask_min hi
  exact ⟨i, t, hi, ht⟩

/-! ### What a request does -/

section Does

open CSNEngine

variable {s : Sys α β} {ty : IoType} {i : ℕ} {t : IoTask α} {r : Req} {x : α} {n : ℤ}

/-- What a request of an object shows: nothing, if the object has no events. -/
def reqEvs (ty : IoType) (i : ℕ) (r : Req) (x : α) (s : Sys α β) : List (Ev α β) :=
  if (s.objs x).getIoEvt (eit ty) = 0 then [] else [.io (.io ty i) (.request r x)]

theorem ntfRequest_eq (hg : Good s.eng) (ht : (s.eng.vec ty)[i]? = some t) :
    ∃ s', ntfRequest ty i r x s = ⟨reqEvs ty i r x s, .ok s'⟩ := by
  obtain ⟨-, nt, hn, -⟩ := hg.sound.tasks ty i t ht
  unfold ntfRequest reqEvs
  rw [ht]
  dsimp only
  rw [hn]
  dsimp only
  by_cases hm : (s.objs x).getIoEvt (eit ty) = 0
  · have hreq : Deferred.request (cEpoll fun y => (s.objs y).getIoEvt (eit ty)) r x nt.st =
        ⟨[], .ok nt.st⟩ := by
      unfold Deferred.request
      rw [if_pos (by simpa [cEpoll] using hm.symm)]
      rfl
    rw [hreq, if_pos hm]
    exact ⟨_, rfl⟩
  · have hreq : Deferred.request (cEpoll fun y => (s.objs y).getIoEvt (eit ty)) r x nt.st =
        ⟨[.request r x], .ok (nt.st.push x r)⟩ := by
      unfold Deferred.request
      rw [if_neg (by simpa [cEpoll] using fun h => hm h.symm)]
      rfl
    rw [hreq, if_neg hm]
    exact ⟨_, rfl⟩

theorem getIoEvt_setTaskId (o : IIoObj) (ty : IoType) (id n : ℤ) :
    (o.setTaskId ty id).getIoEvt n = o.getIoEvt n := by
  cases ty <;> rfl

variable [DecidableEq α]

theorem assign_eq (hg : Good s.eng) (hv : s.eng.vec ty ≠ []) : ∃ i s',
    pickTask (s.eng.vec ty) = some i ∧ assign ty x s = ⟨reqEvs ty i .add x s, .ok s'⟩ := by
  obtain ⟨i, t, hi, ht⟩ := pickTask_of_ne_nil hv
  have hobj : ∀ (s1 : Sys α β), s1.eng = s.eng →
      (s1.objs x).getIoEvt (eit ty) = (s.objs x).getIoEvt (eit ty) →
      ∃ s', ntfRequest ty i .add x s1 = ⟨reqEvs ty i .add x s, .ok s'⟩ := by
    intro s1 he hm
    have h := ntfRequest_eq (r := .add) (x := x) (he ▸ hg : Good s1.eng)
      (by rw [he]; exact ht : (s1.eng.vec ty)[i]? = some t)
    unfold reqEvs at h ⊢
    rwa [hm] at h
  unfold assign addIoObj
  rw [hi]
  dsimp only
  rw [ht]
  obtain ⟨s', hs'⟩ := hobj
    { s with objs := Function.update s.objs x ((s.objs x).setTaskId ty t.i32TaskId) } rfl
    (by
      show (Function.update s.objs x _ x).getIoEvt (eit ty) = _
      rw [Function.update_self, getIoEvt_setTaskId])
  exact ⟨i, s', rfl, hs'⟩

/-- **`add_endpoint` of a started engine.** -/
theorem addEndpoint_started (hg : Good s.eng) (hs : s.eng.i32curstate = .esStarted) (x : α)
    (n : ℤ) : (∃ ty i s', n = eit ty ∧ pickTask (s.eng.vec ty) = some i ∧ addEndpoint (some x) n s =
        ⟨.lock :: reqEvs ty i .add x s ++ [.unlock], .ok (some .suc, s')⟩) ∨
      (∀ ty, n ≠ eit ty) ∧ addEndpoint (some x) n s = ⟨[.lock, .unlock], .ok (some .suc, s)⟩ := by
  have hv := (hg.full hs).vec
  unfold addEndpoint
  simp only [lockFails_eq, Bool.false_eq_true, if_false]
  by_cases hi : n = eit .input
  · obtain ⟨i, s', hp, ha⟩ := assign_eq (x := x) hg (hv .input)
    have ho : ¬ n = eit .output := by
      rw [hi]
      decide
    refine Or.inl ⟨.input, i, s', hi, hp, ?_⟩
    rw [if_pos hi, Eff.require_pos (show s.eng.vecInputTasks ≠ [] from hv .input), Eff.pure_bind,
      ha]
    simp only [if_neg ho]
    rfl
  · by_cases ho : n = eit .output
    · obtain ⟨i, s', hp, ha⟩ := assign_eq (x := x) hg (hv .output)
      refine Or.inl ⟨.output, i, s', ho, hp, ?_⟩
      simp only [if_neg hi, if_pos ho, Eff.pure_bind, ha]
      rfl
    · refine Or.inr ⟨fun ty => by cases ty <;> assumption, ?_⟩
      simp only [if_neg hi, if_neg ho]
      rfl

end Does

section Del

open CSNEngine

variable {s : Sys α β} {x : α} {n : ℤ}

theorem eit_inj {ty ty' : IoType} (h : eit ty = eit ty') : ty = ty' := by
  cases ty <;> cases ty' <;> first | rfl | exact absurd h (by decide)

/-- What `del_endpoint` does with the task of an object without events: nothing is seen of it. -/
theorem unassign_mute {ty : IoType} (hg : Good s.eng)
    (hm : (s.objs x).getIoEvt (eit ty) = 0) :
    (InRange s x (eit ty) ∧ ∃ s', unassign ty x s = ⟨[], .ok s'⟩) ∨
      ¬ InRange s x (eit ty) ∧ unassign ty x s = Eff.abort .outOfRange := by
  unfold unassign
  dsimp only
  split_ifs with h0
  · unfold delIoObj
    rcases ht : (s.eng.vec ty)[((s.objs x).getTaskId ty).toNat]? with _ | t
    · refine Or.inr ⟨fun hr => ?_, ?_⟩
      · have hlt := hr ty rfl h0
        rw [List.getElem?_eq_getElem hlt] at ht
        cases ht
      · unfold ntfRequest
        rw [ht]
    · obtain ⟨s', hs'⟩ := ntfRequest_eq (r := .del) (x := x) hg ht
      refine Or.inl ⟨fun ty' h' _ => ?_, s', ?_⟩
      · obtain rfl := eit_inj h'
        exact (List.getElem?_eq_some_iff.mp ht).1
      · rw [hs']
        unfold reqEvs
        rw [if_pos hm]
  · refine Or.inl ⟨fun ty' h' h1 => ?_, s, rfl⟩
    obtain rfl := eit_inj h'
    exact absurd h1 h0

/-- **`del_endpoint` of an object without events** shows nothing but the lock if the task of the
object is there, and ends the process with the lock taken if it is not. -/
theorem delEndpoint_mute (hg : Good s.eng) (hm : (s.objs x).getIoEvt n = 0) :
    (InRange s x n ∧ ∃ s', delEndpoint (some x) n s = ⟨[.lock, .unlock], .ok (none, s')⟩) ∨
      ¬ InRange s x n ∧ delEndpoint (some x) n s = ⟨[.lock], .error .outOfRange⟩ := by
  unfold delEndpoint
  simp only [lockFails_eq, Bool.false_eq_true, if_false]
  by_cases hi : n = eit .input
  · subst hi
    have ho : ¬ eit .input = eit .output := by decide
    simp only [if_true, if_neg ho]
    rcases unassign_mute hg hm with ⟨hr, s', hs'⟩ | ⟨hr, he⟩
    · refine Or.inl ⟨hr, s', ?_⟩
      rw [hs']
      rfl
    · refine Or.inr ⟨hr, ?_⟩
      rw [he]
      rfl
  · by_cases ho : n = eit .output
    · subst ho
      simp only [if_neg hi, if_true, Eff.pure_bind]
      rcases unassign_mute hg hm with ⟨hr, s', hs'⟩ | ⟨hr, he⟩
      · refine Or.inl ⟨hr, s', ?_⟩
        rw [hs']
        rfl
      · refine Or.inr ⟨hr, ?_⟩
        rw [he]
        rfl
    · refine Or.inl ⟨fun ty h => ?_, s, ?_⟩
      · cases ty <;> contradiction
      · simp only [if_neg hi, if_neg ho]
        rfl

end Del

/-! ### Which requests are accepted as they should be -/

section Accepted

open CSNEngine

variable [DecidableEq α] {s : Sys α β} {c : Call α β}

theorem accepts_null {i32Ret : Cmnerr} (hr : ¬ c.Registered s) (hne : i32Ret ≠ .suc)
    (h : c.make s = ⟨[], .ok (some i32Ret, s)⟩) : Accepts c s := by
  refine ⟨fun _ hc => absurd hc hr, fun _ => ⟨i32Ret, hne, ?_, ?_⟩, ?_⟩
  · rw [h]
  · rw [h]
    rfl
  · rw [h]
    rfl

/-- A request that returns nothing is not accepted, whatever the state: it is right only if nothing
is asked of it. -/
theorem not_accepts (ha : Accepts c s)
    (h : ∀ evs o s', c.make s = ⟨evs, .ok (o, s')⟩ → o = none) :
    s.eng.i32curstate = .esStarted ∧ ¬ c.Registered s := by
  have hres : ∀ o s', (c.make s).res = .ok (o, s') → o = none := by
    intro o s' hr
    rcases hm : c.make s with ⟨evs, r⟩
    rw [hm] at hr
    obtain rfl : r = .ok (o, s') := hr
    exact h evs o s' hm
  have hs : s.eng.i32curstate = .esStarted := by
    by_contra hs
    obtain ⟨i32Ret, -, hr, -⟩ := ha.others hs
    cases hres _ _ hr
  refine ⟨hs, fun hc => ?_⟩
  obtain ⟨q, s', hr, -⟩ := ha.started hs hc
  cases hres _ _ hr

theorem accepts_addEndpoint (hg : Good s.eng) {x : Option α} {n : ℤ} :
    Accepts (.addEndpoint x n) s ↔ AcceptedWhen s (.addEndpoint x n : Call α β) := by
  constructor
  · intro ha
    rcases x with _ | x
    · exact Or.inl rfl
    · right
      by_contra hs
      obtain ⟨i32Ret, hne, hr, -⟩ := ha.others hs
      rcases hm : addEndpoint (some x) n s with ⟨evs, r⟩
      have hr' : (addEndpoint (some x) n s).res = .ok (some i32Ret, s) := hr
      rw [hm] at hr'
      obtain rfl : r = .ok (some i32Ret, s) := hr'
      cases (addEndpoint_ok hm).1
      exact hne rfl
  · intro hw
    rcases x with _ | x
    · exact accepts_null (by rintro ⟨y, h, -⟩; cases h) (by decide) rfl
    · have hs : s.eng.i32curstate = .esStarted := hw.resolve_left (by simp)
      rcases addEndpoint_started hg hs x n with ⟨ty, i, s', rfl, hi, he⟩ | ⟨hn, he⟩
      · have he' : (Call.addEndpoint (some x) (eit ty)).make s = _ := he
        refine ⟨fun _ hc => ?_, fun h => absurd hs h, ?_⟩
        · obtain ⟨y, hy, hm⟩ := hc
          cases hy
          refine ⟨(.io ty i, .add, .inl x), s', by rw [he'], ?_, x, ty, i, rfl, rfl, hi, rfl⟩
          rw [he']
          unfold reqEvs
          rw [if_neg hm]
          rfl
        · rw [he']
          unfold reqEvs
          split_ifs <;> rfl
      · have he' : (Call.addEndpoint (some x) n).make s = _ := he
        refine ⟨fun _ hc => ?_, fun h => absurd hs h, ?_⟩
        · obtain ⟨y, hy, hm⟩ := hc
          refine absurd ?_ hm
          unfold IIoObj.getIoEvt
          rw [if_neg (hn .input), if_neg (hn .output)]
        · rw [he']
          rfl

theorem accepts_delEndpoint (hg : Good s.eng) {x : Option α} {n : ℤ} :
    Accepts (.delEndpoint x n) s ↔ AcceptedWhen s (.delEndpoint x n : Call α β) := by
  rcases x with _ | x
  · refine ⟨fun _ => Or.inl rfl, fun _ => ?_⟩
    exact accepts_null (by rintro ⟨y, h, -⟩; cases h) (by decide) rfl
  constructor
  · intro ha
    obtain ⟨hs, hr⟩ := not_accepts ha fun evs o s' h => (delEndpoint_ok h).1
    have hm : (s.objs x).getIoEvt n = 0 := by
      by_contra hm
      exact hr ⟨x, rfl, hm⟩
    refine Or.inr ⟨hs, x, rfl, hm, ?_⟩
    rcases delEndpoint_mute hg hm with ⟨hin, -⟩ | ⟨-, he⟩
    · exact hin
    · have hl := ha.lock
      rw [show (Call.delEndpoint (some x) n).make s = _ from he] at hl
      cases hl
  · rintro (h | ⟨hs, y, hy, hm, hin⟩)
    · cases h
    · cases hy
      rcases delEndpoint_mute hg hm with ⟨-, s', he⟩ | ⟨hnin, -⟩
      · have he' : (Call.delEndpoint (some x) n).make s = _ := he
        refine ⟨fun _ hc => ?_, fun h => absurd hs h, ?_⟩
        · obtain ⟨y, hy, hm'⟩ := hc
          cases hy
          exact absurd hm hm'
        · rw [he']
          rfl
      · exact absurd hin hnin

theorem accepts_timer {r : Req} {y : Option β} (hc : c.make s = timerRequest r y s)
    (hr : c.Registered s ↔ y ≠ none) :
    Accepts c s ↔ y = none ∧ s.eng.i32curstate = .esStarted := by
  constructor
  · intro ha
    rcases y with _ | y
    · refine ⟨rfl, ?_⟩
      by_contra hs
      obtain ⟨i32Ret, -, he, -⟩ := ha.others hs
      rw [hc] at he
      cases he
    · obtain ⟨-, hn⟩ := not_accepts ha fun evs o s' h => (timerRequest_ok (hc ▸ h)).1
      exact absurd (hr.mpr (by simp)) hn
  · rintro ⟨rfl, hs⟩
    have he : c.make s = ⟨[], .error .nullTimer⟩ := hc
    refine ⟨fun _ h => absurd rfl (hr.mp h), fun h => absurd hs h, ?_⟩
    rw [he]
    rfl

variable [DecidableEq β]

/-- **Exactly when a request to an engine is as it should be**, in every state an engine reaches. -/
theorem accepts_iff (objs : α → IIoObj) (as : List (Act α β)) (h : (run objs as).fault = none)
    (c : Call α β) : Accepts c (run objs as).obj ↔ AcceptedWhen (run objs as).obj c := by
  have hg := good_run h
  cases c with
  | addEndpoint x n => exact accepts_addEndpoint hg
  | delEndpoint x n => exact accepts_delEndpoint hg
  | addTimer y => exact accepts_timer rfl Iff.rfl
  | delTimer y => exact accepts_timer rfl Iff.rfl

/-- A timer is added to an engine that is started. -/
theorem accepts_iff_started :
    Accepts (.addTimer (some ())) (afterStart oneOfEach).obj ↔
      AcceptedWhen (afterStart oneOfEach).obj (.addTimer (some ())) :=
  accepts_iff (fun _ => {}) [.start oneOfEach] (by decide) (.addTimer (some ()))

/-- An engine after one call of `start`, and an object with input events. -/
def withObject (sp : SParas) : Proc (Sys Unit Unit) (Ev Unit Unit) Fault :=
  run (fun _ => {}) [.start sp, .setIoEvt () .input 1]

/-- **Both ways round**: an engine that is started does not return `CMNERR_SUC` for the del of an
object with events; one whose `start` failed does for the add, and queues it. -/
theorem wrong_returns :
    ¬ Accepts (.delEndpoint (some ()) (eit .input)) (withObject oneOfEach).obj ∧
      ¬ Accepts (.addEndpoint (some ()) (eit .input)) (withObject noTimer).obj := by
  constructor
  · intro ha
    obtain ⟨q, s', hr, -⟩ := ha.started rfl ⟨(), rfl, by decide⟩
    have hnone : ((Call.delEndpoint (some ()) (eit .input)).make (withObject oneOfEach).obj).res =
        .ok (none, _) := rfl
    rw [hnone] at hr
    cases hr
  · intro ha
    obtain ⟨i32Ret, -, -, hq⟩ := ha.others (by decide)
    revert hq
    decide

end Accepted

end SmartNet.Framework.Engine
