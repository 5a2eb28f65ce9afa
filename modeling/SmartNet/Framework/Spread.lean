import Mathlib.Data.Int.Interval
import SmartNet.Framework.EngineRequests
import SmartNet.Framework.Rounds

/-! # How the endpoints are spread

A started engine with any numbers of tasks, whose `add_endpoint` and `del_endpoint` are called by
any threads, and whose notifiers make calls of `exec`, each call one step. Every registration
succeeds: the objects that are added are open, each with a descriptor of its own.

* `Net`: the engine, and the descriptors of the objects;
* `Inv`: what the notifiers hold, and the ids the objects have for it;
* `getIoobjCnt_eq`: the number of objects of a task is not wrapped;
* `Balanced.set_min`: an add to the least loaded task keeps the tasks level;
* `endpoints_spread`: the choice of the task, the counts and the dels, in every run. -/

namespace SmartNet.Framework.Spread

open SmartNet.Common SmartNet.Lib SmartNet.Endpoint.Types SmartNet.Framework.Notifier
  SmartNet.Framework.Deferred SmartNet.Framework.Engine SmartNet.Framework.Rounds

/-- `OPEN_MAX` is an `int`, and above every descriptor. -/
def openMax : ℕ := 2 ^ 31 - 1

/-- An engine with its objects; `handle` is `get_ioobj_handle`. -/
structure Net (α β : Type) where
  sys : Sys α β
  handle : α → ℤ

/-- An object is opened or closed, an endpoint is added or deleted, or the notifier of the `i`-th
task of a type makes a call of `exec`. -/
inductive Act (α : Type)
  | opened (x : α) (handle : ℤ)
  | addEndpoint (pIoObj : Option α) (i32IoType : ℤ)
  | delEndpoint (pIoObj : Option α) (i32IoType : ℤ)
  | exec (ty : IoType) (i : ℕ)

def Act.isDel {α : Type} : Act α → Bool
  | .delEndpoint _ _ => true
  | _ => false

variable {α β : Type}

/-- The caches and the set of the `i`-th task of a type. -/
def ntf (s : Sys α β) (ty : IoType) (i : ℕ) : Option (St α ℤ) :=
  (s.eng.vec ty)[i]?.bind fun t => t.pIoEvtNotifier.map CEpoll.st

variable [DecidableEq α]

/-- A call of `exec`; every `epoll_ctl` returns 0. -/
def execRound (ty : IoType) (i : ℕ) (s : Sys α β) : Eff (Engine.Ev α β) Engine.Fault (Sys α β) :=
  match (s.eng.vec ty)[i]? with
  | none => pure s
  | some t => match t.pIoEvtNotifier with
    | none => pure s
    | some n => Eff.lift (Ev.io (.io ty i)) Fault.inNotifier
        (round (cEpoll fun y => (s.objs y).getIoEvt (eit ty)) 0 n.st) >>= fun st =>
      pure (s.setTask ty i { t with pIoEvtNotifier := some { n with st := st } })

/-- One step. -/
def step : Act α → Net α β → Eff (Engine.Ev α β) Engine.Fault (Net α β)
  | .opened x h, n => pure { n with handle := Function.update n.handle x h }
  | .addEndpoint p ty, n => Engine.addEndpoint p ty n.sys >>= fun a => pure { n with sys := a.2 }
  | .delEndpoint p ty, n => Engine.delEndpoint p ty n.sys >>= fun a => pure { n with sys := a.2 }
  | .exec ty i, n => execRound ty i n.sys >>= fun s => pure { n with sys := s }

/-- The `i`-th task of a type holds the object, or is to. -/
def Held (n : Net α β) (ty : IoType) (i : ℕ) (x : α) : Prop :=
  ∃ st, ntf n.sys ty i = some st ∧ x ∈ held st

/-- **The discipline**: an object is opened and closed when no task holds it; one with events is
added when no task of the type holds it and its descriptor is open and its own; and one is deleted
when it is registered and not being deleted. -/
def Disciplined (n : Net α β) : Act α → Prop
  | .opened x _ => ∀ ty i, ¬ Held n ty i x
  | .addEndpoint pIoObj i32IoType => ∀ x ty, pIoObj = some x → i32IoType = eit ty →
      (∀ i, ¬ Held n ty i x) ∧ ((n.sys.objs x).getIoEvt (eit ty) ≠ 0 →
        0 ≤ n.handle x ∧ n.handle x < openMax ∧ ∀ i y, Held n ty i y → n.handle y ≠ n.handle x)
  | .delEndpoint pIoObj i32IoType => ∀ x ty, pIoObj = some x → i32IoType = eit ty →
      (n.sys.objs x).getIoEvt (eit ty) = 0 ∧ InRange n.sys x (eit ty) ∨
        ∃ i st, ntf n.sys ty i = some st ∧ x ∈ st.setObjs ∧ x ∉ st.vecDelCache
  | .exec _ _ => True

/-- An engine that was started, with objects that may have been with others. -/
def started (e : CSNEngine α β) (objs : α → IIoObj) (handle : α → ℤ) :
    Proc (Net α β) (Engine.Ev α β) Engine.Fault :=
  { obj := ⟨⟨e, objs⟩, handle⟩ }

/-- The number of objects of a task is what it is to be, not below 0 and not wrapped. -/
def Exact (t : IoTask α) : Prop :=
  ∃ nt, t.pIoEvtNotifier = some nt ∧ nt.st.vecDelCache.length ≤ nt.st.setObjs.card ∧
    t.getIoobjCnt = (nt.st.setObjs.card + nt.st.vecAddCache.length : ℤ) - nt.st.vecDelCache.length

/-- The counts of a list differ by at most one. -/
def Balanced (l : List ℤ) : Prop := ∀ a ∈ l, ∀ b ∈ l, a ≤ b + 1

/-- The counts of the tasks of a type. -/
def counts (n : Net α β) (ty : IoType) : List ℤ := (n.sys.eng.vec ty).map IoTask.getIoobjCnt

/-- `add_endpoint` assigns the object to a task of the type that has the fewest objects, and queues
it there. -/
def AddsToLeast (n : Net α β) (x : α) (ty : IoType) : Prop :=
  ∃ (i : ℕ) (t : IoTask α) (st : St α ℤ) (s' : Sys α β) (evs : List (Engine.Ev α β)),
    Engine.addEndpoint (some x) (eit ty) n.sys = ⟨evs, .ok (some .suc, s')⟩ ∧
    (n.sys.eng.vec ty)[i]? = some t ∧ (∀ c ∈ counts n ty, t.getIoobjCnt ≤ c) ∧
    (s'.objs x).getTaskId ty = (i : ℤ) ∧ ntf n.sys ty i = some st ∧
    ((n.sys.objs x).getIoEvt (eit ty) ≠ 0 →
      queued evs = [(.io ty i, .add, .inl x)] ∧ ntf s' ty i = some (st.push x .add))

/-- `del_endpoint` queues the object with the task that holds it, and with no other. -/
def DelsFromHolder (n : Net α β) (x : α) (ty : IoType) (i : ℕ) (st : St α ℤ) : Prop :=
  (∀ j, Held n ty j x → j = i) ∧ ∃ s' evs,
    Engine.delEndpoint (some x) (eit ty) n.sys = ⟨evs, .ok (none, s')⟩ ∧
    queued evs = [(.io ty i, .del, .inl x)] ∧ ntf s' ty i = some (st.push x .del) ∧
    ∀ ty' j, (ty', j) ≠ (ty, i) → ntf s' ty' j = ntf n.sys ty' j

/-- **What holds in a state**: the counts are exact, and endpoints are added to the least loaded
task and found again for deletion. -/
structure Spreads (n : Net α β) : Prop where
  exact : ∀ ty, ∀ t ∈ n.sys.eng.vec ty, Exact t
  adds : ∀ x ty, AddsToLeast n x ty
  dels : ∀ x ty i st, ntf n.sys ty i = some st → x ∈ held st → DelsFromHolder n x ty i st

/-! ### Levels -/

/-- **One more for the least** keeps the counts level. -/
theorem Balanced.set_min {l : List ℤ} {c : ℤ} {i : ℕ} (h : Balanced l) (hi : l[i]? = some c)
    (hmin : ∀ a ∈ l, c ≤ a) : Balanced (l.set i (c + 1)) := by
  have hc : c ∈ l := List.mem_of_getElem? hi
  intro a ha b hb
  rcases List.mem_or_eq_of_mem_set ha with ha | rfl <;>
    rcases List.mem_or_eq_of_mem_set hb with hb | rfl
  · exact h a ha b hb
  · have := h a ha c hc
    omega
  · have := hmin b hb
    omega
  · omega

theorem Balanced.set_same {l : List ℤ} {c : ℤ} {i : ℕ} (h : Balanced l) (hi : l[i]? = some c) :
    Balanced (l.set i c) := by
  have hc : c ∈ l := List.mem_of_getElem? hi
  have hsub : ∀ a ∈ l.set i c, a ∈ l := fun a ha => by
    rcases List.mem_or_eq_of_mem_set ha with ha | rfl
    · exact ha
    · exact hc
  exact fun a ha b hb => h a (hsub a ha) b (hsub b hb)

/-! ### What the tasks hold -/

/-- **The invariant**: each notifier is in order, an object is held by one task of a type at most,
whose id it has, it has events, and its descriptor is open and its own. -/
structure Inv (n : Net α β) : Prop where
  good : CSNEngine.Good n.sys.eng
  started : n.sys.eng.i32curstate = .esStarted
  tidy : ∀ ty i st, ntf n.sys ty i = some st → Tidy st
  own : ∀ ty i j x y, Held n ty i x → Held n ty j y → n.handle x = n.handle y → x = y ∧ i = j
  opened : ∀ ty i x, Held n ty i x → 0 ≤ n.handle x ∧ n.handle x < openMax
  events : ∀ ty i x, Held n ty i x → (n.sys.objs x).getIoEvt (eit ty) ≠ 0
  ids : ∀ ty i x, Held n ty i x → (n.sys.objs x).getTaskId ty = (i : ℤ)

variable {n : Net α β} {s : Sys α β} {ty ty' : IoType} {i j : ℕ} {t : IoTask α} {nt : CEpoll α}
  {st : St α ℤ} {x y : α} {r : Req}

/-- The task with another state of its notifier. -/
def withSt (t : IoTask α) (nt : CEpoll α) (st : St α ℤ) : IoTask α :=
  { t with pIoEvtNotifier := some { nt with st := st } }

omit [DecidableEq α] in
theorem ntf_of (ht : (s.eng.vec ty)[i]? = some t) (hn : t.pIoEvtNotifier = some nt) :
    ntf s ty i = some nt.st := by
  unfold ntf
  rw [ht, Option.bind_some, hn]
  rfl

omit [DecidableEq α] in
theorem of_ntf (h : ntf s ty i = some st) : ∃ t nt, (s.eng.vec ty)[i]? = some t ∧
    t.pIoEvtNotifier = some nt ∧ nt.st = st := by
  obtain ⟨t, ht, h⟩ := Option.bind_eq_some_iff.mp h
  obtain ⟨nt, hn, hst⟩ := Option.map_eq_some_iff.mp h
  exact ⟨t, nt, ht, hn, hst⟩

omit [DecidableEq α] in
theorem ntf_setTask_self (ht : (s.eng.vec ty)[i]? = some t) :
    ntf (s.setTask ty i (withSt t nt st)) ty i = some st := by
  have hlt := (List.getElem?_eq_some_iff.mp ht).1
  refine ntf_of (t := withSt t nt st) ?_ rfl
  rw [vec_setTask_self, List.getElem?_set_self hlt]

omit [DecidableEq α] in
theorem ntf_setTask_ne (h : (ty', j) ≠ (ty, i)) :
    ntf (s.setTask ty i (withSt t nt st)) ty' j = ntf s ty' j := by
  unfold ntf
  by_cases hty : ty' = ty
  · subst hty
    have hj : i ≠ j := fun e => h (by rw [e])
    rw [vec_setTask_self, List.getElem?_set_ne hj]
  · rw [vec_setTask_ne hty]

/-- An engine in which one notifier is in another state. -/
def Net.setSt (n : Net α β) (ty : IoType) (i : ℕ) (t : IoTask α) (nt : CEpoll α) (st : St α ℤ) :
    Net α β :=
  { n with sys := n.sys.setTask ty i (withSt t nt st) }

theorem held_setSt (ht : (n.sys.eng.vec ty)[i]? = some t) (hn : t.pIoEvtNotifier = some nt) :
    Held (n.setSt ty i t nt st) ty' j y →
      Held n ty' j y ∨ (ty' = ty ∧ j = i ∧ y ∈ held st ∧ y ∉ held nt.st) := by
  rintro ⟨st', hst', hy⟩
  by_cases h : (ty', j) = (ty, i)
  · cases h
    have hself : ntf (n.setSt ty i t nt st).sys ty i = some st := ntf_setTask_self ht
    rw [hself] at hst'
    cases hst'
    by_cases hmem : y ∈ held nt.st
    · exact Or.inl ⟨nt.st, ntf_of ht hn, hmem⟩
    · exact Or.inr ⟨rfl, rfl, hy, hmem⟩
  · have hne : ntf (n.setSt ty i t nt st).sys ty' j = ntf n.sys ty' j := ntf_setTask_ne h
    rw [hne] at hst'
    exact Or.inl ⟨st', hst', hy⟩

/-- An object that a task may come to hold. -/
structure Fits (n : Net α β) (ty : IoType) (i : ℕ) (x : α) : Prop where
  events : (n.sys.objs x).getIoEvt (eit ty) ≠ 0
  ids : (n.sys.objs x).getTaskId ty = (i : ℤ)
  opened : 0 ≤ n.handle x ∧ n.handle x < openMax
  own : ∀ j y, Held n ty j y → n.handle y ≠ n.handle x

/-- **A notifier in another state** that holds one more object at most. -/
theorem Inv.setSt (h : Inv n) (ht : (n.sys.eng.vec ty)[i]? = some t)
    (hn : t.pIoEvtNotifier = some nt) (htidy : Tidy st)
    (hnew : ∀ y ∈ held st, y ∉ held nt.st → Fits n ty i y)
    (hone : ∀ y ∈ held st, y ∉ held nt.st → ∀ z ∈ held st, z ∉ held nt.st → y = z) :
    Inv (n.setSt ty i t nt st) := by
  obtain ⟨hid, nt', hn', hfd⟩ := h.good.sound.tasks ty i t ht
  have hplaced : CSNEngine.Placed i (withSt t nt st) := by
    rw [hn] at hn'
    cases hn'
    exact ⟨hid, _, rfl, hfd⟩
  refine ⟨good_setTask h.good hplaced, ?_, ?_, ?_, ?_, ?_, ?_⟩
  · show (n.sys.setTask ty i (withSt t nt st)).eng.i32curstate = .esStarted
    unfold Sys.setTask
    rw [CSNEngine.setVec_curstate]
    exact h.started
  · intro ty' j st' hst'
    by_cases he : (ty', j) = (ty, i)
    · cases he
      have hself : ntf (n.setSt ty i t nt st).sys ty i = some st := ntf_setTask_self ht
      rw [hself] at hst'
      cases hst'
      exact htidy
    · exact h.tidy ty' j st' ((ntf_setTask_ne he).symm.trans hst')
  · intro ty' j k y z hy hz heq
    rcases held_setSt ht hn hy with hy1 | ⟨rfl, rfl, hin, hout⟩
    · rcases held_setSt ht hn hz with hz1 | ⟨rfl, rfl, hin, hout⟩
      · exact h.own ty' j k y z hy1 hz1 heq
      · exact absurd heq ((hnew z hin hout).own j y hy1)
    · rcases held_setSt ht hn hz with hz1 | ⟨-, rfl, hin', hout'⟩
      · exact absurd heq.symm ((hnew y hin hout).own k z hz1)
      · exact ⟨hone y hin hout z hin' hout', rfl⟩
  · intro ty' j y hy
    rcases held_setSt ht hn hy with hy | ⟨rfl, rfl, hin, hout⟩
    · exact h.opened ty' j y hy
    · exact (hnew y hin hout).opened
  · intro ty' j y hy
    rcases held_setSt ht hn hy with hy | ⟨rfl, rfl, hin, hout⟩
    · exact h.events ty' j y hy
    · exact (hnew y hin hout).events
  · intro ty' j y hy
    rcases held_setSt ht hn hy with hy | ⟨rfl, rfl, hin, hout⟩
    · exact h.ids ty' j y hy
    · exact (hnew y hin hout).ids

theorem Inv.setSt_sub (h : Inv n) (ht : (n.sys.eng.vec ty)[i]? = some t)
    (hn : t.pIoEvtNotifier = some nt) (htidy : Tidy st) (hsub : held st ⊆ held nt.st) :
    Inv (n.setSt ty i t nt st) :=
  h.setSt ht hn htidy (fun _ hy hout => absurd (hsub hy) hout)
    fun _ hy hout => absurd (hsub hy) hout

theorem Inv.setTaskId (h : Inv n) (hx : ∀ i, ¬ Held n ty i x) (id : ℤ) :
    Inv { n with sys := { n.sys with
      objs := Function.update n.sys.objs x ((n.sys.objs x).setTaskId ty id) } } := by
  refine ⟨h.good, h.started, h.tidy, h.own, h.opened, fun ty' i y hy => ?_, fun ty' i y hy => ?_⟩
  · have hev := h.events ty' i y hy
    show (Function.update n.sys.objs x _ y).getIoEvt (eit ty') ≠ 0
    by_cases hyx : y = x
    · subst hyx
      rw [Function.update_self, getIoEvt_setTaskId]
      exact hev
    · rw [Function.update_of_ne hyx]
      exact hev
  · have hid := h.ids ty' i y hy
    show (Function.update n.sys.objs x _ y).getTaskId ty' = (i : ℤ)
    by_cases hyx : y = x
    · subst hyx
      have hty : ty' ≠ ty := fun e => hx i (e ▸ hy)
      rw [Function.update_self, ← hid]
      cases ty <;> cases ty' <;> first | rfl | exact absurd rfl hty
    · rw [Function.update_of_ne hyx]
      exact hid

/-! ### The counts -/

/-- The descriptors of the objects of a task differ, so they are not more than there are. -/
theorem Inv.card_held_le (h : Inv n) (hst : ntf n.sys ty i = some st) :
    (held st).card ≤ openMax := by
  have hmaps : ∀ x ∈ held st, n.handle x ∈ Finset.Ico (0 : ℤ) openMax := fun x hx =>
    Finset.mem_Ico.mpr (h.opened ty i x ⟨st, hst, hx⟩)
  have hinj : ∀ x ∈ held st, ∀ y ∈ held st, n.handle x = n.handle y → x = y :=
    fun x hx y hy heq => (h.own ty i i x y ⟨st, hst, hx⟩ ⟨st, hst, hy⟩ heq).1
  have hle := Finset.card_le_card_of_injOn n.handle hmaps hinj
  rw [Int.card_Ico] at hle
  simpa using hle

omit [DecidableEq α] in
theorem getIoobjCnt_of (hn : t.pIoEvtNotifier = some nt) {c : ℤ}
    (hc : (nt.st.setObjs.card + nt.st.vecAddCache.length : ℤ) - nt.st.vecDelCache.length = c)
    (h0 : 0 ≤ c) (hlt : c < 2 ^ 31) : t.getIoobjCnt = c := by
  unfold IoTask.getIoobjCnt
  rw [hn]
  show ((nt.st.setObjs.card + nt.st.vecAddCache.length : ℤ) -
    nt.st.vecDelCache.length).bmod (2 ^ 32) = c
  rw [hc]
  exact Int.bmod_eq_of_le_mul_two (by omega) (by push_cast; omega)

/-- **The number of objects of a task** is not wrapped. -/
theorem getIoobjCnt_eq (h : Inv n) (ht : (n.sys.eng.vec ty)[i]? = some t)
    (hn : t.pIoEvtNotifier = some nt) : t.getIoobjCnt =
      (nt.st.setObjs.card + nt.st.vecAddCache.length : ℤ) - nt.st.vecDelCache.length := by
  have hst := ntf_of ht hn
  have htidy := h.tidy ty i nt.st hst
  have hmax := h.card_held_le hst
  have hle := htidy.dels_le
  rw [card_held htidy] at hmax
  unfold openMax at hmax
  exact getIoobjCnt_of hn rfl (by omega) (by omega)

theorem getIoobjCnt_withSt (h : Inv (n.setSt ty i t nt st))
    (ht : (n.sys.eng.vec ty)[i]? = some t) : (withSt t nt st).getIoobjCnt =
      (st.setObjs.card + st.vecAddCache.length : ℤ) - st.vecDelCache.length := by
  have hplace : ((n.sys.setTask ty i (withSt t nt st)).eng.vec ty)[i]? =
      some (withSt t nt st) := by
    rw [vec_setTask_self, List.getElem?_set_self (List.getElem?_eq_some_iff.mp ht).1]
  exact getIoobjCnt_eq h hplace rfl

theorem Inv.exact (h : Inv n) : ∀ ty, ∀ t ∈ n.sys.eng.vec ty, Exact t := by
  intro ty t hmem
  obtain ⟨i, ht⟩ := List.mem_iff_getElem?.mp hmem
  obtain ⟨-, nt, hn, -⟩ := h.good.sound.tasks ty i t ht
  exact ⟨nt, hn, (h.tidy ty i nt.st (ntf_of ht hn)).dels_le, getIoobjCnt_eq h ht hn⟩

omit [DecidableEq α] in
theorem counts_setSt : counts (n.setSt ty i t nt st) ty =
    (counts n ty).set i (withSt t nt st).getIoobjCnt := by
  unfold counts Net.setSt
  rw [vec_setTask_self, List.map_set]

omit [DecidableEq α] in
theorem counts_setSt_ne (h : ty' ≠ ty) : counts (n.setSt ty i t nt st) ty' = counts n ty' := by
  unfold counts Net.setSt
  rw [vec_setTask_ne h]

omit [DecidableEq α] in
theorem counts_of (ht : (n.sys.eng.vec ty)[i]? = some t) :
    (counts n ty)[i]? = some t.getIoobjCnt := by
  unfold counts
  rw [List.getElem?_map, ht]
  rfl

omit [DecidableEq α] in
theorem balanced_setSt (hb : ∀ ty, Balanced (counts n ty))
    (hset : Balanced ((counts n ty).set i (withSt t nt st).getIoobjCnt)) :
    ∀ ty', Balanced (counts (n.setSt ty i t nt st) ty') := by
  intro ty'
  by_cases hty : ty' = ty
  · subst hty
    rw [counts_setSt]
    exact hset
  · rw [counts_setSt_ne hty]
    exact hb ty'

omit [DecidableEq α] in
theorem balanced_same (hb : ∀ ty, Balanced (counts n ty))
    (ht : (n.sys.eng.vec ty)[i]? = some t)
    (hc : (withSt t nt st).getIoobjCnt = t.getIoobjCnt) :
    ∀ ty', Balanced (counts (n.setSt ty i t nt st) ty') := by
  refine balanced_setSt hb ?_
  rw [hc]
  exact (hb ty).set_same (counts_of ht)

omit [DecidableEq α] in
theorem balanced_more (hb : ∀ ty, Balanced (counts n ty))
    (ht : (n.sys.eng.vec ty)[i]? = some t) (hmin : ∀ c ∈ counts n ty, t.getIoobjCnt ≤ c)
    (hc : (withSt t nt st).getIoobjCnt = t.getIoobjCnt + 1) :
    ∀ ty', Balanced (counts (n.setSt ty i t nt st) ty') := by
  refine balanced_setSt hb ?_
  rw [hc]
  exact (hb ty).set_min (counts_of ht) hmin

/-! ### Requests -/

/-- The state of a notifier after a request of an object, which is none if it has no events. -/
def asked (s : Sys α β) (ty : IoType) (r : Req) (x : α) (st : St α ℤ) : St α ℤ :=
  if (s.objs x).getIoEvt (eit ty) = 0 then st else st.push x r

omit [DecidableEq α] in
theorem ntfRequest_ok (ht : (s.eng.vec ty)[i]? = some t) (hn : t.pIoEvtNotifier = some nt) :
    ntfRequest ty i r x s =
      ⟨reqEvs ty i r x s, .ok (s.setTask ty i (withSt t nt (asked s ty r x nt.st)))⟩ := by
  unfold ntfRequest reqEvs asked
  rw [ht]
  dsimp only
  rw [hn]
  dsimp only
  by_cases hm : (s.objs x).getIoEvt (eit ty) = 0
  · have hreq : Deferred.request (cEpoll fun y => (s.objs y).getIoEvt (eit ty)) r x nt.st =
        ⟨[], .ok nt.st⟩ := by
      unfold Deferred.request
      rw [if_pos (by simpa [cEpoll] using hm.symm)]
      rfl
    rw [hreq, if_pos hm, if_pos hm]
    rfl
  · have hreq : Deferred.request (cEpoll fun y => (s.objs y).getIoEvt (eit ty)) r x nt.st =
        ⟨[.request r x], .ok (nt.st.push x r)⟩ := by
      unfold Deferred.request
      rw [if_neg (by simpa [cEpoll] using fun h => hm h.symm)]
      rfl
    rw [hreq, if_neg hm, if_neg hm]
    rfl

/-- An engine in which an object has the id of a task. -/
def Net.setId (n : Net α β) (x : α) (ty : IoType) (id : ℤ) : Net α β :=
  { n with sys := { n.sys with
      objs := Function.update n.sys.objs x ((n.sys.objs x).setTaskId ty id) } }

/-- **What `add_endpoint` does.** -/
theorem addEndpoint_eq (h : Inv n) (x : α) (ty : IoType) : ∃ i t nt,
    (n.sys.eng.vec ty)[i]? = some t ∧ t.pIoEvtNotifier = some nt ∧
    (∀ c ∈ counts n ty, t.getIoobjCnt ≤ c) ∧
    Engine.addEndpoint (some x) (eit ty) n.sys =
      ⟨.lock :: reqEvs ty i .add x n.sys ++ [.unlock],
        .ok (some .suc, ((n.setId x ty i).setSt ty i t nt (asked n.sys ty .add x nt.st)).sys)⟩ := by
  have hv := (h.good.full h.started).vec ty
  obtain ⟨i, t, hi, ht⟩ := pickTask_of_ne_nil hv
  obtain ⟨hid, nt, hn, -⟩ := h.good.sound.tasks ty i t ht
  refine ⟨i, t, nt, ht, hn, ?_, ?_⟩
  · obtain ⟨t', ht', hmin⟩ := pickTask_min hi
    rw [ht] at ht'
    cases ht'
    intro c hc
    obtain ⟨u, hu, rfl⟩ := List.mem_map.mp hc
    rcases hmin with h0 | hmin
    · obtain ⟨nu, -, hle, hcnt⟩ := h.exact ty u hu
      rw [h0, hcnt]
      omega
    · exact hmin u hu
  · have hassign : assign ty x n.sys = ⟨reqEvs ty i .add x n.sys,
        .ok ((n.setId x ty i).setSt ty i t nt (asked n.sys ty .add x nt.st)).sys⟩ := by
      have hev : ((n.setId x ty i).sys.objs x).getIoEvt (eit ty) =
          (n.sys.objs x).getIoEvt (eit ty) := by
        show (Function.update n.sys.objs x _ x).getIoEvt (eit ty) = _
        rw [Function.update_self, getIoEvt_setTaskId]
      have hreq := ntfRequest_ok (s := (n.setId x ty i).sys) (r := .add) (x := x) ht hn
      unfold assign addIoObj
      rw [hi]
      dsimp only
      rw [ht]
      dsimp only
      rw [hid]
      unfold reqEvs asked at hreq ⊢
      rw [hev] at hreq
      exact hreq
    unfold Engine.addEndpoint
    simp only [lockFails_eq, Bool.false_eq_true, if_false]
    cases ty with
    | input =>
      have ho : ¬ eit .input = eit .output := by decide
      rw [if_pos rfl, Eff.require_pos (show n.sys.eng.vecInputTasks ≠ [] from hv), Eff.pure_bind,
        hassign]
      simp only [if_neg ho]
      rfl
    | output =>
      have hi' : ¬ eit .output = eit .input := by decide
      simp only [if_neg hi', if_true, Eff.pure_bind, hassign]
      rfl

omit [DecidableEq α] in
/-- **What `del_endpoint` does**, if the id of the object is that of a task. -/
theorem delEndpoint_eq (ht : (n.sys.eng.vec ty)[i]? = some t) (hn : t.pIoEvtNotifier = some nt)
    (hid : (n.sys.objs x).getTaskId ty = (i : ℤ)) :
    Engine.delEndpoint (some x) (eit ty) n.sys =
      ⟨.lock :: reqEvs ty i .del x n.sys ++ [.unlock],
        .ok (none, (n.setSt ty i t nt (asked n.sys ty .del x nt.st)).sys)⟩ := by
  have hun : unassign ty x n.sys = ⟨reqEvs ty i .del x n.sys,
      .ok (n.setSt ty i t nt (asked n.sys ty .del x nt.st)).sys⟩ := by
    unfold unassign delIoObj
    dsimp only
    rw [hid, if_pos (Int.natCast_nonneg i), Int.toNat_natCast]
    exact ntfRequest_ok ht hn
  unfold Engine.delEndpoint
  simp only [lockFails_eq, Bool.false_eq_true, if_false]
  cases ty with
  | input =>
    have ho : ¬ eit .input = eit .output := by decide
    simp only [if_true, hun, if_neg ho]
    rfl
  | output =>
    have hi : ¬ eit .output = eit .input := by decide
    simp only [if_neg hi, if_true, Eff.pure_bind, hun]
    rfl

omit [DecidableEq α] in
theorem addEndpoint_other [DecidableEq α] {k : ℤ} (hk : ∀ ty, k ≠ eit ty) (x : α) (s : Sys α β) :
    Engine.addEndpoint (some x) k s = ⟨[.lock, .unlock], .ok (some .suc, s)⟩ := by
  unfold Engine.addEndpoint
  simp only [lockFails_eq, Bool.false_eq_true, if_false, if_neg (hk .input), if_neg (hk .output)]
  rfl

omit [DecidableEq α] in
theorem delEndpoint_other [DecidableEq α] {k : ℤ} (x : α) (s : Sys α β)
    (hk : ∀ ty, k = eit ty → (s.objs x).getTaskId ty < 0) :
    Engine.delEndpoint (some x) k s = ⟨[.lock, .unlock], .ok (none, s)⟩ := by
  have hun : ∀ ty, (s.objs x).getTaskId ty < 0 → unassign ty x s = pure s := fun ty hneg => by
    unfold unassign
    exact if_neg (by omega)
  unfold Engine.delEndpoint
  simp only [lockFails_eq, Bool.false_eq_true, if_false]
  by_cases hi : k = eit .input
  · have ho : ¬ k = eit .output := by
      rw [hi]
      decide
    simp only [if_pos hi, if_neg ho, hun .input (hk .input hi)]
    rfl
  · by_cases ho : k = eit .output
    · simp only [if_neg hi, if_pos ho, Eff.pure_bind, hun .output (hk .output ho)]
      rfl
    · simp only [if_neg hi, if_neg ho]
      rfl

/-! ### Steps -/

/-- A step that goes on: the invariant is kept, and without a del the tasks stay level. -/
def Goes (n : Net α β) (a : Act α) : Prop :=
  ∃ n', (step a n).res = .ok n' ∧ Inv n' ∧ (a.isDel = false →
    (∀ ty, Balanced (counts n ty)) → ∀ ty, Balanced (counts n' ty))

theorem goes_same {a : Act α} (h : Inv n) (hs : (step a n).res = .ok n) : Goes n a :=
  ⟨n, hs, h, fun _ hb => hb⟩

theorem opened_goes (h : Inv n) {d : ℤ} (hd : Disciplined n (.opened x d)) :
    Goes n (.opened x d) := by
  have hsame : ∀ {ty i y}, Held n ty i y → Function.update n.handle x d y = n.handle y :=
    fun {ty i y} hy => by
      have hne : y ≠ x := fun e => hd ty i (e ▸ hy)
      rw [Function.update_of_ne hne]
  refine ⟨_, rfl, ⟨h.good, h.started, h.tidy, fun ty i j y z hy hz heq => ?_,
    fun ty i y hy => ?_, h.events, h.ids⟩, fun _ hb => hb⟩
  · have heq' : Function.update n.handle x d y = Function.update n.handle x d z := heq
    rw [hsame hy, hsame hz] at heq'
    exact h.own ty i j y z hy hz heq'
  · show 0 ≤ Function.update n.handle x d y ∧ Function.update n.handle x d y < openMax
    rw [hsame hy]
    exact h.opened ty i y hy

theorem addEndpoint_goes (h : Inv n) {p : Option α} {k : ℤ}
    (hd : Disciplined n (.addEndpoint p k)) : Goes n (.addEndpoint p k) := by
  rcases p with _ | x
  · exact goes_same h rfl
  by_cases hk : ∃ ty, k = eit ty
  swap
  · refine goes_same h ?_
    have hadd := addEndpoint_other (fun ty e => hk ⟨ty, e⟩) x n.sys
    simp only [step, hadd]
    rfl
  obtain ⟨ty, rfl⟩ := hk
  obtain ⟨hfree, hopen⟩ := hd x ty rfl rfl
  obtain ⟨i, t, nt, ht, hn, hmin, heq⟩ := addEndpoint_eq h x ty
  have hid := h.setTaskId hfree (i : ℤ)
  have htidy := h.tidy ty i nt.st (ntf_of ht hn)
  have hout : x ∉ held nt.st := fun hx => hfree i ⟨nt.st, ntf_of ht hn, hx⟩
  refine ⟨(n.setId x ty i).setSt ty i t nt (asked n.sys ty .add x nt.st), ?_, ?_⟩
  · simp only [step, heq]
    rfl
  by_cases hm : (n.sys.objs x).getIoEvt (eit ty) = 0
  · unfold asked
    rw [if_pos hm]
    exact ⟨hid.setSt_sub (n := n.setId x ty i) ht hn htidy (fun _ hy => hy),
      fun _ hb => balanced_same (n := n.setId x ty i) hb ht (by unfold withSt; rw [← hn])⟩
  · unfold asked
    rw [if_neg hm]
    have hnew : ∀ y ∈ held (nt.st.push x .add), y ∉ held nt.st → y = x := fun y hy hnot => by
      rw [held_push_add] at hy
      exact (Finset.mem_insert.mp hy).resolve_right hnot
    have hinv : Inv ((n.setId x ty i).setSt ty i t nt (nt.st.push x .add)) := by
      refine hid.setSt (n := n.setId x ty i) ht hn (htidy.push_add hout) (fun y hy hnot => ?_)
        fun y hy hnot z hz hnot' => (hnew y hy hnot).trans (hnew z hz hnot').symm
      obtain rfl := hnew y hy hnot
      obtain ⟨h1, h2, h3⟩ := hopen hm
      refine ⟨?_, ?_, ⟨h1, h2⟩, h3⟩
      · show (Function.update n.sys.objs y _ y).getIoEvt (eit ty) ≠ 0
        rw [Function.update_self, getIoEvt_setTaskId]
        exact hm
      · show (Function.update n.sys.objs y _ y).getTaskId ty = (i : ℤ)
        rw [Function.update_self]
        cases ty <;> rfl
    refine ⟨hinv, fun _ hb => balanced_more (n := n.setId x ty i) hb ht hmin ?_⟩
    rw [getIoobjCnt_withSt hinv ht, getIoobjCnt_eq h ht hn]
    show (nt.st.setObjs.card + (nt.st.vecAddCache ++ [x]).length : ℤ) -
      nt.st.vecDelCache.length = _
    rw [List.length_append, List.length_singleton]
    push_cast
    omega

theorem delEndpoint_goes (h : Inv n) {p : Option α} {k : ℤ}
    (hd : Disciplined n (.delEndpoint p k)) : Goes n (.delEndpoint p k) := by
  rcases p with _ | x
  · exact goes_same h rfl
  have hother : (∀ ty, k = eit ty → (n.sys.objs x).getTaskId ty < 0) →
      Goes n (.delEndpoint (some x) k) := fun hk => by
    refine goes_same h ?_
    simp only [step, delEndpoint_other x n.sys hk]
    rfl
  by_cases hk : ∃ ty, k = eit ty
  swap
  · exact hother fun ty e => absurd ⟨ty, e⟩ hk
  obtain ⟨ty, rfl⟩ := hk
  -- the task of the object, and what the request makes of its notifier
  have htask : ∀ (i : ℕ) (t : IoTask α) (nt : CEpoll α), (n.sys.eng.vec ty)[i]? = some t →
      t.pIoEvtNotifier = some nt → (n.sys.objs x).getTaskId ty = (i : ℤ) →
      Tidy (asked n.sys ty .del x nt.st) → held (asked n.sys ty .del x nt.st) ⊆ held nt.st →
      Goes n (.delEndpoint (some x) (eit ty)) := fun i t nt ht hn hid htidy hsub => by
    refine ⟨n.setSt ty i t nt (asked n.sys ty .del x nt.st), ?_, h.setSt_sub ht hn htidy hsub,
      fun hdel => by cases hdel⟩
    simp only [step, delEndpoint_eq ht hn hid]
    rfl
  rcases hd x ty rfl rfl with ⟨hm, hrange⟩ | ⟨i, st, hst, hx, hnew⟩
  · by_cases h0 : 0 ≤ (n.sys.objs x).getTaskId ty
    · have hlt := hrange ty rfl h0
      obtain ⟨-, nt, hn, -⟩ := h.good.sound.tasks ty _ _ (List.getElem?_eq_getElem hlt)
      have hst := ntf_of (List.getElem?_eq_getElem hlt) hn
      refine htask _ _ nt (List.getElem?_eq_getElem hlt) hn (Int.toNat_of_nonneg h0).symm ?_ ?_
      · unfold asked
        rw [if_pos hm]
        exact h.tidy ty _ nt.st hst
      · unfold asked
        rw [if_pos hm]
    · refine hother fun ty' e => ?_
      obtain rfl := eit_inj e
      omega
  · obtain ⟨t, nt, ht, hn, rfl⟩ := of_ntf hst
    have hheld : Held n ty i x := ⟨nt.st, hst, mem_held.mpr (Or.inl hx)⟩
    refine htask i t nt ht hn (h.ids ty i x hheld) ?_ ?_
    · unfold asked
      rw [if_neg (h.events ty i x hheld)]
      exact (h.tidy ty i nt.st hst).push_del hx hnew
    · unfold asked
      rw [if_neg (h.events ty i x hheld), held_push_del]

theorem execRound_ok (h : Inv n) (ht : (n.sys.eng.vec ty)[i]? = some t)
    (hn : t.pIoEvtNotifier = some nt) :
    (execRound ty i n.sys).res = .ok (n.setSt ty i t nt (after nt.st)).sys := by
  have hround := round_ok (k := cEpoll fun y => (n.sys.objs y).getIoEvt (eit ty)) (o := 0)
    (h.tidy ty i nt.st (ntf_of ht hn)) rfl
  unfold execRound
  rw [ht]
  dsimp only
  rw [hn]
  dsimp only
  have hlift : (Eff.lift (Ev.io (β := β) (.io ty i)) Fault.inNotifier
      (round (cEpoll fun y => (n.sys.objs y).getIoEvt (eit ty)) 0 nt.st)).res =
        .ok (after nt.st) := by
    unfold Eff.lift
    rw [hround]
  rw [Eff.bind_of_ok hlift]
  rfl

theorem exec_goes (h : Inv n) (ty : IoType) (i : ℕ) : Goes n (.exec ty i) := by
  rcases ht : (n.sys.eng.vec ty)[i]? with _ | t
  · have hnone : execRound ty i n.sys = pure n.sys := by
      unfold execRound
      rw [ht]
    refine goes_same h ?_
    simp only [step, hnone]
    rfl
  · obtain ⟨-, nt, hn, -⟩ := h.good.sound.tasks ty i t ht
    have htidy := h.tidy ty i nt.st (ntf_of ht hn)
    have hinv : Inv (n.setSt ty i t nt (after nt.st)) :=
      h.setSt_sub ht hn tidy_after held_after_subset
    refine ⟨n.setSt ty i t nt (after nt.st), ?_, hinv, fun _ hb => balanced_same hb ht ?_⟩
    · simp only [step]
      rw [Eff.bind_of_ok (execRound_ok h ht hn)]
      rfl
    · have hcard := card_after htidy
      rw [getIoobjCnt_withSt hinv ht, getIoobjCnt_eq h ht hn]
      show ((after nt.st).setObjs.card + (0 : ℕ) : ℤ) - (0 : ℕ) = _
      omega

/-- **One step** that is disciplined. -/
theorem step_goes (h : Inv n) {a : Act α} (hd : Disciplined n a) : Goes n a := by
  cases a with
  | opened x d => exact opened_goes h hd
  | addEndpoint p k => exact addEndpoint_goes h hd
  | delEndpoint p k => exact delEndpoint_goes h hd
  | exec ty i => exact exec_goes h ty i

/-! ### What holds in a state -/

theorem Inv.adds (h : Inv n) (x : α) (ty : IoType) : AddsToLeast n x ty := by
  obtain ⟨i, t, nt, ht, hn, hmin, heq⟩ := addEndpoint_eq h x ty
  refine ⟨i, t, nt.st, _, _, heq, ht, hmin, ?_, ntf_of ht hn, fun hm => ⟨?_, ?_⟩⟩
  · show (Function.update n.sys.objs x _ x).getTaskId ty = (i : ℤ)
    rw [Function.update_self]
    cases ty <;> rfl
  · unfold reqEvs
    rw [if_neg hm]
    rfl
  · have hself : ntf (((n.setId x ty i).setSt ty i t nt (asked n.sys ty .add x nt.st)).sys) ty i =
        some (asked n.sys ty .add x nt.st) := ntf_setTask_self ht
    rw [hself]
    unfold asked
    rw [if_neg hm]

theorem Inv.dels (h : Inv n) (hst : ntf n.sys ty i = some st) (hx : x ∈ held st) :
    DelsFromHolder n x ty i st := by
  have hheld : Held n ty i x := ⟨st, hst, hx⟩
  have hm := h.events ty i x hheld
  obtain ⟨t, nt, ht, hn, rfl⟩ := of_ntf hst
  refine ⟨fun j hj => (h.own ty j i x x hj hheld rfl).2, _, _,
    delEndpoint_eq ht hn (h.ids ty i x hheld), ?_, ?_, fun ty' j hne => ntf_setTask_ne hne⟩
  · unfold reqEvs
    rw [if_neg hm]
    rfl
  · have hself : ntf (n.setSt ty i t nt (asked n.sys ty .del x nt.st)).sys ty i =
        some (asked n.sys ty .del x nt.st) := ntf_setTask_self ht
    rw [hself]
    unfold asked
    rw [if_neg hm]

theorem Inv.spreads (h : Inv n) : Spreads n :=
  ⟨h.exact, h.adds, fun _ _ _ _ hst hx => h.dels hst hx⟩

/-! ### Starting -/

section Start

variable {e e' : CSNEngine α β} {evs : List (Engine.Ev α β)}

/-- Every notifier is new. -/
def Fresh (e : CSNEngine α β) : Prop :=
  ∀ ty, ∀ t ∈ e.vec ty, ∀ nt, t.pIoEvtNotifier = some nt → nt.st = {}

omit [DecidableEq α] in
theorem fresh_of_vec (h : Fresh e) (hv : ∀ ty, e'.vec ty = e.vec ty) : Fresh e' := by
  intro ty t ht
  rw [hv] at ht
  exact h ty t ht

omit [DecidableEq α] in
theorem fresh_init {k : ℤ} {r : Round} {nt : CEpoll α}
    (h : (IoTask.init k r : Cmnerr × IoTask α).2.pIoEvtNotifier = some nt) : nt.st = {} := by
  unfold IoTask.init at h
  split_ifs at h <;> cases h <;> rfl

omit [DecidableEq α] in
theorem fresh_pushTask {th : CThread} (h : Fresh e)
    (ht : ∀ nt, t.pIoEvtNotifier = some nt → nt.st = {}) : Fresh (e.pushTask ty t th) := by
  intro ty' u hu
  by_cases hty : ty' = ty
  · subst hty
    rw [CSNEngine.vec_pushTask_self] at hu
    rcases List.mem_append.mp hu with hu | hu
    · exact h ty' u hu
    · rw [List.mem_singleton.mp hu]
      exact ht
  · rw [CSNEngine.vec_pushTask_ne hty] at hu
    exact h ty' u hu

omit [DecidableEq α] in
theorem fresh_ioRound {k : ℤ} {r : Round} {b : Bool} (h : Fresh e)
    (hr : CSNEngine.ioRound ty k r e = ⟨evs, .ok (b, e')⟩) : Fresh e' := by
  unfold CSNEngine.ioRound at hr
  split_ifs at hr with hnew
  · rcases hi : (IoTask.init k r : Cmnerr × IoTask α) with ⟨ret, t⟩
    simp only [hi] at hr
    split_ifs at hr with hret
    · obtain ⟨evs1, u, evs2, -, h2, -⟩ := Eff.bind_ok hr
      cases h2
      exact h
    · obtain ⟨evs1, o, evs2, h1, h2, -⟩ := Eff.bind_ok hr
      obtain ⟨th, rfl, -⟩ := CSNEngine.startThread_ok h1
      cases h2
      exact fresh_pushTask h fun nt hn => fresh_init (k := k) (r := r) (by rw [hi]; exact hn)
  · cases hr

omit [DecidableEq α] in
theorem fresh_ioRounds {k : ℤ} : ∀ {rs : List Round} {e : CSNEngine α β}
    {evs : List (Engine.Ev α β)} {b : Bool}, Fresh e →
    CSNEngine.ioRounds ty k rs e = ⟨evs, .ok (b, e')⟩ → Fresh e'
  | [], _, _, _, h, hr => by
    cases hr
    exact h
  | r :: rs, e, _, _, h, hr => by
    obtain ⟨evs1, ⟨ok, e1⟩, evs2, h1, h2, -⟩ := Eff.bind_ok hr
    cases ok with
    | false =>
      cases h2
      exact fresh_ioRound h h1
    | true => exact fresh_ioRounds (fresh_ioRound h h1) (h2 : CSNEngine.ioRounds ty k rs e1 = _)

omit [DecidableEq α] in
theorem fresh_starting {sp : Engine.SParas} {ret : Cmnerr} (h : Fresh e)
    (hs : CSNEngine.starting sp e = ⟨evs, .ok (ret, e')⟩) : Fresh e' := by
  unfold CSNEngine.starting at hs
  split_ifs at hs with h0
  · cases hs
    exact h
  · obtain ⟨evs1, ⟨ok1, e1⟩, evs2, ho, h1, -⟩ := Eff.bind_ok hs
    have hf1 := fresh_ioRounds h ho
    cases ok1 with
    | false =>
      cases h1
      exact hf1
    | true =>
      obtain ⟨evs3, ⟨ok2, e2⟩, evs4, hi, h2, -⟩ := Eff.bind_ok
        (h1 : (CSNEngine.ioRounds .input sp.i32IoEvtNotifier sp.inputs e1 >>= _) = _)
      have hf2 := fresh_ioRounds hf1 hi
      cases ok2 with
      | false =>
        cases h2
        exact hf2
      | true =>
        obtain ⟨-, hv, -, -⟩ :=
          CSNEngine.miscRound_ok (h2 : CSNEngine.miscRound sp.misc e2 = _)
        exact fresh_of_vec hf2 hv

omit [DecidableEq α] in
/-- **An engine that was started** is started, and its notifiers are new. -/
theorem fresh_start {sp : Engine.SParas} (hs : CSNEngine.start sp {} = ⟨evs, .ok (0, e)⟩) :
    e.i32curstate = .esStarted ∧ Fresh e := by
  rcases CSNEngine.start_cases hs with ⟨h, -, -⟩ | ⟨-, ⟨e1, h1, -, rfl⟩ | ⟨ret, -, -, h⟩⟩
  · cases h
  · have hnil : Fresh ({} : CSNEngine α β) := fun ty t ht => by cases ty <;> cases ht
    refine ⟨rfl, fresh_of_vec (fresh_starting hnil h1) fun ty => ?_⟩
    cases ty <;> rfl
  · cases h

variable {objs : α → IIoObj} {handle : α → ℤ}

omit [DecidableEq α] in
theorem Fresh.ntf (h : Fresh e) (hst : ntf ⟨e, objs⟩ ty i = some st) : st = {} := by
  obtain ⟨t, nt, ht, hn, rfl⟩ := of_ntf hst
  exact h ty t (List.mem_of_getElem? ht) nt hn

theorem Fresh.not_held (h : Fresh e) : ¬ Held ⟨⟨e, objs⟩, handle⟩ ty i x := by
  rintro ⟨st, hst, hx⟩
  rw [h.ntf hst] at hx
  rcases mem_held.mp hx with hx | hx
  · exact absurd hx (Finset.notMem_empty x)
  · cases hx

theorem inv_started {sp : Engine.SParas} (hs : CSNEngine.start sp {} = ⟨evs, .ok (0, e)⟩) :
    Inv ⟨⟨e, objs⟩, handle⟩ := by
  obtain ⟨hcur, hf⟩ := fresh_start hs
  refine ⟨CSNEngine.good_start CSNEngine.good_init hs, hcur, fun ty i st hst => ?_,
    fun _ _ _ _ _ hx => absurd hx hf.not_held, fun _ _ _ hx => absurd hx hf.not_held,
    fun _ _ _ hx => absurd hx hf.not_held, fun _ _ _ hx => absurd hx hf.not_held⟩
  rw [hf.ntf hst]
  exact tidy_init

omit [DecidableEq α] in
theorem balanced_started {sp : Engine.SParas} (hs : CSNEngine.start sp {} = ⟨evs, .ok (0, e)⟩) :
    Balanced (counts ⟨⟨e, objs⟩, handle⟩ ty) := by
  obtain ⟨-, hf⟩ := fresh_start hs
  have hzero : ∀ c ∈ counts ⟨⟨e, objs⟩, handle⟩ ty, c = 0 := fun c hc => by
    obtain ⟨t, ht, rfl⟩ := List.mem_map.mp hc
    obtain ⟨i, hi⟩ := List.mem_iff_getElem?.mp ht
    have hg := CSNEngine.good_start CSNEngine.good_init hs
    obtain ⟨-, nt, hn, -⟩ := hg.sound.tasks ty i t hi
    have hst := hf ty t ht nt hn
    exact getIoobjCnt_of hn (by rw [hst]; rfl) le_rfl (by decide)
  intro a ha b hb
  rw [hzero a ha, hzero b hb]
  decide

end Start

/-! ### Runs -/

omit [DecidableEq α] in
theorem held_iff [DecidableEq α] :
    (∃ i, Held n ty i x) ↔ ∃ t ∈ n.sys.eng.vec ty, ∃ nt ∈ t.pIoEvtNotifier, x ∈ held nt.st := by
  constructor
  · rintro ⟨i, st, hst, hx⟩
    obtain ⟨t, nt, ht, hn, rfl⟩ := of_ntf hst
    exact ⟨t, List.mem_of_getElem? ht, nt, hn, hx⟩
  · rintro ⟨t, ht, nt, hn, hx⟩
    obtain ⟨i, hi⟩ := List.mem_iff_getElem?.mp ht
    exact ⟨i, nt.st, ntf_of hi hn, hx⟩

instance : Decidable (∃ i, Held n ty i x) := decidable_of_iff' _ held_iff

/-- An object that no task holds and no other has the descriptor of may be added. -/
theorem disciplined_add (hx : ¬ ∃ i, Held n ty i x) (h0 : 0 ≤ n.handle x)
    (hmax : n.handle x < openMax) (hone : ∀ y, n.handle y = n.handle x → y = x) :
    Disciplined n (.addEndpoint (some x) (eit ty)) := by
  intro x' ty' hx' hty
  cases hx'
  obtain rfl := eit_inj hty
  refine ⟨fun i hi => hx ⟨i, hi⟩, fun _ => ⟨h0, hmax, fun i y hy heq => hx ⟨i, ?_⟩⟩⟩
  rwa [← hone y heq]

/-- **Endpoints are spread over the least loaded task and found again for deletion**: in every
disciplined run of an engine that was started, the counts are exact, an endpoint is added to a task
that has the fewest, and is deleted from the task that holds it; and as long as none is deleted, the
counts of two tasks differ by one at most. -/
theorem endpoints_spread (sp : Engine.SParas) (e : CSNEngine α β) (evs : List (Engine.Ev α β))
    (objs : α → IIoObj) (handle : α → ℤ) (hs : CSNEngine.start sp {} = ⟨evs, .ok (0, e)⟩)
    (as : List (Act α)) (hd : Proc.Meets step Disciplined (started e objs handle) as) :
    (Proc.run step (started e objs handle) as).fault = none ∧
      Spreads (Proc.run step (started e objs handle) as).obj ∧
      ((∀ a ∈ as, a.isDel = false) →
        ∀ ty, Balanced (counts (Proc.run step (started e objs handle) as).obj ty)) := by
  have hgo : ∀ (a : Act α) (n : Net α β), Inv n → Disciplined n a →
      ∃ n', (step a n).res = .ok n' ∧ Inv n' ∧ True := fun a n h hc => by
    obtain ⟨n', hn', hinv, -⟩ := step_goes h hc
    exact ⟨n', hn', hinv, trivial⟩
  obtain ⟨hf, hinv, -⟩ := Proc.run_ok hgo (p := started e objs handle) rfl (inv_started hs) hd
  refine ⟨hf, hinv.spreads, fun hno => ?_⟩
  -- without a del, that the tasks are level is part of the invariant
  have hlevel : ∀ (a : Act α) (n : Net α β), (Inv n ∧ ∀ ty, Balanced (counts n ty)) →
      Disciplined n a ∧ a.isDel = false →
      ∃ n', (step a n).res = .ok n' ∧ (Inv n' ∧ ∀ ty, Balanced (counts n' ty)) ∧ True := by
    rintro a n ⟨h, hb⟩ ⟨hc, hdel⟩
    obtain ⟨n', hn', hinv, hlevel⟩ := step_goes h hc
    exact ⟨n', hn', ⟨hinv, hlevel hdel hb⟩, trivial⟩
  have hrun := Proc.run_ok hlevel (p := started e objs handle) rfl
    ⟨inv_started hs, fun _ => balanced_started hs⟩
    ((Run.meets_and _).mpr ⟨hd, Run.meets_of_mem _ hno⟩)
  exact hrun.2.1.2

/-- Two input tasks, one output task. -/
def twoInputs : Engine.SParas := { oneOfEach with inputs := [{}, { epfd := 4 }] }

/-- The engine they are started with. -/
def twoInputsEngine : CSNEngine Bool Unit :=
  match (CSNEngine.start twoInputs {} : Eff (Engine.Ev Bool Unit) Engine.Fault _).res with
  | .ok (_, e) => e
  | .error _ => {}

/-- Two objects are added, the first is registered and deleted. -/
def twoAdds : List (Act Bool) :=
  [.addEndpoint (some false) (eit .input), .addEndpoint (some true) (eit .input), .exec .input 0,
    .delEndpoint (some false) (eit .input)]

/-- The engine with two objects. -/
def twoObjs : Proc (Net Bool Unit) (Engine.Ev Bool Unit) Engine.Fault :=
  started twoInputsEngine (fun _ => { ui32InputEvt := 1 }) fun x => if x then 4 else 3

/-- Both tasks hold one object, and the first is to give it up. -/
theorem endpoints_spread_two :
    Spreads (Proc.run step twoObjs twoAdds).obj ∧
      counts (Proc.run step twoObjs twoAdds).obj .input = [0, 1] ∧
      Balanced (counts (Proc.run step twoObjs (twoAdds.take 3)).obj .input) := by
  have h1 : Disciplined twoObjs.obj (.addEndpoint (some false) (eit .input)) :=
    disciplined_add (by decide) (by decide) (by decide) (by decide)
  have h2 : Disciplined (Proc.run step twoObjs (twoAdds.take 1)).obj
      (.addEndpoint (some true) (eit .input)) :=
    disciplined_add (by decide) (by decide) (by decide) (by decide)
  have h3 : Disciplined (Proc.run step twoObjs (twoAdds.take 3)).obj
      (.delEndpoint (some false) (eit .input)) := by
    intro x ty hx hty
    cases hx
    obtain rfl := eit_inj hty
    exact Or.inr ⟨0, _, rfl, by decide, by decide⟩
  obtain ⟨evs, hs⟩ : ∃ evs, CSNEngine.start twoInputs {} = ⟨evs, .ok (0, twoInputsEngine)⟩ :=
    ⟨_, rfl⟩
  have hall := endpoints_spread twoInputs twoInputsEngine evs (fun _ => { ui32InputEvt := 1 })
    (fun x => if x then 4 else 3) hs twoAdds ⟨h1, h2, trivial, h3, trivial⟩
  have hadds := endpoints_spread twoInputs twoInputsEngine evs (fun _ => { ui32InputEvt := 1 })
    (fun x => if x then 4 else 3) hs (twoAdds.take 3) ⟨h1, h2, trivial, trivial⟩
  exact ⟨hall.2.1, by decide, hadds.2.2 (by decide) .input⟩

end SmartNet.Framework.Spread
