import SmartNet.Framework.Deferred
import SmartNet.Lib.Indexed
import SmartNet.Lib.Simulate

/-! # All objects on the threads of the engine

`CSNEngine` runs several threads, each with a notifier: `CInputHandleTask` and `COutputHandleTask`
with a `CEpoll`, `CMiscTask` with the `CTimeNotifier`. `add_endpoint` chooses the thread, which
`set_task_id` writes into the object, and `del_endpoint` goes to the thread that is written there.
All objects share these threads: the callbacks that `exec` makes for one object stand before those
for the next one, and any of them may make requests of any thread.

* `step`: a call of another thread, the next step of `exec` of one of the threads, or the next
  callback it makes;
* `world`: one object, and what the threads it was given to hold of it;
* `move`: the step of a process as a step of one object with notifiers of its own;
* `Orderly`: what a class of objects keeps to;
* `after_shows`, `world_popped`: calls and callbacks, seen from one object. -/

namespace SmartNet.Framework.Threads

open SmartNet.Lib SmartNet.Lib.Indexed SmartNet.Framework.Notifier SmartNet.Framework.Deferred

/-- An object of the process. -/
structure Obj where
  κ : Type
  σ : Type
  τ : Type
  υ : Type
  ω : Type
  ε : Type
  φ : Type
  dec : DecidableEq κ
  cls : Class κ σ τ υ ω ε φ
  /-- as it is constructed -/
  init : σ

attribute [instance] Obj.dec

variable {ι θ : Type} {m : ι → Obj}

/-- The threads `θ` for the objects `ι`. -/
structure Layout (m : ι → Obj) (θ : Type) where
  ρ : θ → Type
  kind : ∀ t, Kind ι (ρ t)
  /-- the registration of the object the thread is for -/
  role : θ → ∀ x, Option (m x).κ
  /-- the task ids as they are constructed -/
  home : ∀ x k, {t // role t x = some k}
  heard : ∀ {t x k}, role t x = some k → (kind t).mute x = false
  answers : ∀ {t x k}, role t x = some k → ∀ o, (m x).cls.added k ((kind t).ok o) ≠ none

/-- A thread for each registration of the object. -/
abbrev Layout.Tasks (L : Layout m θ) (x : ι) : Type := ∀ k, {t // L.role t x = some k}

/-- The objects, and for each thread its notifier and the callbacks it makes before `exec` goes
on. -/
structure Sys (L : Layout m θ) where
  obj : ∀ x, (m x).σ
  taskId : ∀ x, L.Tasks x
  ntf : ∀ t, Deferred.St ι (L.ρ t)
  calls : θ → List (Σ x, (m x).τ)

/-- `pick` is the choice of `add_endpoint`, `o` the result of `epoll_ctl`, `evts` what `epoll_wait`
reports, or the timers that are due. -/
inductive Step (L : Layout m θ)
  | user (x : ι) (u : (m x).υ) (pick : L.Tasks x)
  | exec (t : θ) (o : L.ρ t) (evts : List (Σ x, (m x).τ))
  | callback (t : θ) (o : ∀ x, (m x).ω) (pick : ∀ x, L.Tasks x)

abbrev Event (m : ι → Obj) : Type := Σ x, (m x).ε

abbrev Crashed (m : ι → Obj) : Type := Σ x, Crash (m x).φ

/-- The object whose handle `exec` asks for next. -/
def head {α ρ : Type} : Pc α ρ → Option α
  | .dels (x :: _) => some x
  | .adds (x :: _) => some x
  | _ => none

/-- `exec` waits for events. -/
def waits {α ρ : Type} : Pc α ρ → Bool
  | .events => true
  | _ => false

namespace Layout

variable [DecidableEq ι] [DecidableEq θ] (L : Layout m θ)

/-- The process when the engine has started its threads. -/
def start : Sys L := ⟨fun x => (m x).init, L.home, fun _ => {}, fun _ => []⟩

/-- The thread a request goes to: a del goes to the one the object was given to. -/
def target (x : ι) (pick : L.Tasks x) (s : Sys L) :
    ∀ r : (m x).κ × Req, {t // L.role t x = some r.1}
  | (k, .add) => pick k
  | (k, .del) => s.taskId x k

/-- `add_endpoint`, `del_endpoint` (`add_timer`, `del_timer`). -/
def push (x : ι) (pick : L.Tasks x) (s : Sys L) (r : (m x).κ × Req) : Sys L :=
  let t := L.target x pick s r
  { s with
    taskId := Function.update s.taskId x (Function.update (s.taskId x) r.1 t)
    ntf := Function.update s.ntf t.1
      (if (L.kind t.1).mute x then s.ntf t.1 else (s.ntf t.1).push x r.2) }

/-- A call into an object, and the requests it makes. -/
def after (x : ι) (pick : L.Tasks x) (s : Sys L) (r : Eff (m x).ε (m x).φ (m x).σ) :
    Eff (Event m) (Crashed m) (Sys L) :=
  ⟨r.evs.map (Sigma.mk x), match r.res with
    | .ok o => .ok ((r.evs.filterMap (m x).cls.req).foldl (L.push x pick)
        { s with obj := Function.update s.obj x o })
    | .error f => .error ⟨x, .inObj f⟩⟩

/-- The callbacks of an event of the notifier. -/
def reply (t : θ) : Deferred.Ev ι (L.ρ t) → List (Σ x, (m x).τ)
  | .handleAdded x i32Ret => (((L.role t x).bind fun k =>
      (m x).cls.added k ((L.kind t).ok i32Ret)).getD []).map (Sigma.mk x)
  | .handleDeled x => ((L.role t x).elim [] (m x).cls.deled).map (Sigma.mk x)
  | _ => []

/-- An assert of `get_ioobj_handle`. -/
def refused (t : θ) (s : Sys L) : Option (Crashed m) :=
  (head (s.ntf t).pc).bind fun x => (L.role t x).bind fun k =>
    ((m x).cls.handle k (s.obj x)).map fun f => ⟨x, .inObj f⟩

/-- What `epoll_wait` can report: at most one event of an object, and only of objects in the
set. -/
def Occurs (t : θ) (s : Sys L) (evts : List (Σ x, (m x).τ)) : Prop :=
  evts = [] ∨ waits (s.ntf t).pc = true ∧ (evts.map Sigma.fst).Nodup ∧
    ∀ e ∈ evts, e.1 ∈ (s.ntf t).setObjs ∧ (L.role t e.1).any ((m e.1).cls.isEvt · e.2) = true

instance (t : θ) (s : Sys L) (evts : List (Σ x, (m x).τ)) : Decidable (L.Occurs t s evts) :=
  inferInstanceAs (Decidable (_ ∨ _ ∧ _ ∧ _))

/-- The next step of `exec`, once the callbacks are made. -/
def exec (t : θ) (o : L.ρ t) (evts : List (Σ x, (m x).τ)) (s : Sys L) :
    Eff (Event m) (Crashed m) (Sys L) :=
  if s.calls t = [] ∧ L.Occurs t s evts then
    match L.refused t s with
    | some f => Eff.abort f
    | none =>
      let r := Deferred.exec (L.kind t) o (s.ntf t)
      match r.res, head (s.ntf t).pc with
      | .ok n, _ => pure { s with
          ntf := Function.update s.ntf t n
          calls := Function.update s.calls t (r.evs.flatMap (L.reply t) ++ evts) }
      | .error .erase, some x => Eff.abort ⟨x, .erase⟩
      | .error .insert, some x => Eff.abort ⟨x, .insert⟩
      | .error _, none => pure s
  else pure s

/-- The next callback. -/
def callback (t : θ) (o : ∀ x, (m x).ω) (pick : ∀ x, L.Tasks x) (s : Sys L) :
    Eff (Event m) (Crashed m) (Sys L) :=
  match s.calls t with
  | [] => pure s
  | ⟨x, e⟩ :: rest => L.after x (pick x) { s with calls := Function.update s.calls t rest }
      ((m x).cls.callback e (o x) (s.obj x))

/-- One step; one that is not possible does nothing. -/
def step : Step L → Sys L → Eff (Event m) (Crashed m) (Sys L)
  | .user x u pick, s => L.after x pick s ((m x).cls.user u (s.obj x))
  | .exec t o evts, s => L.exec t o evts s
  | .callback t o pick, s => L.callback t o pick s

/-- The process after the steps. -/
def run (as : List (Step L)) : Proc (Sys L) (Event m) (Crashed m) :=
  Proc.run L.step ⟨L.start, [], none⟩ as

end Layout

/-! ### One of the objects -/

/-- The callbacks an answer consists of. -/
def replies {κ σ τ υ ω ε φ : Type} (c : Class κ σ τ υ ω ε φ) (k : κ) : Answer → List τ
  | .added ok => (c.added k ok).getD []
  | .deled => c.deled k

section World

variable [DecidableEq ι] {L : Layout m θ}

/-- What a thread holds of an object. -/
def holds (t : θ) (x : ι) (k : (m x).κ) (s : Sys L) : Ntf (m x).τ :=
  let n := view (L.kind t) x (s.ntf t)
  ⟨n.inSet, n.adds, n.dels,
    (s.calls t).filterMap (of x) ++ n.todo.flatMap (replies (m x).cls k)⟩

/-- One object, and what the threads it was given to hold of it. -/
def world (x : ι) (s : Sys L) : World (m x).κ (m x).σ (m x).τ :=
  ⟨s.obj x, fun k => holds (s.taskId x k).1 x k s⟩

/-- What is seen of one object. -/
def viewOf (L : Layout m θ) (x : ι) :
    Proc.View (Sys L) (Event m) (Crashed m) (World (m x).κ (m x).σ (m x).τ) (m x).ε
      (Crash (m x).φ) :=
  ⟨world x, of x, of x⟩

/-- The next step of `exec` as a step for the registration `k` of one object: `ok` is the result of
an add, `e` what is reported of the object. -/
def takes {κ τ υ ω ρ : Type} (x : ι) (k : κ) (ok : Bool) (e : Option τ) :
    Pc ι ρ → Option (Act κ τ υ ω)
  | .dels (y :: _) => if y = x then some (.takeDel k) else none
  | .adds (y :: _) => if y = x then some (.takeAdd k ok) else none
  | .events => e.map (.collect k)
  | _ => none

/-- The step as a step of one object. -/
def move (x : ι) (s : Sys L) : Step L → Option (Act (m x).κ (m x).τ (m x).υ (m x).ω)
  | .user y u _ => (of (F := fun y => (m y).υ) x ⟨y, u⟩).map .user
  | .exec t o evts =>
    if s.calls t = [] ∧ L.Occurs t s evts then
      (L.role t x).bind fun k =>
        takes x k ((L.kind t).ok o) (evts.filterMap (of x)).head? (s.ntf t).pc
    else none
  | .callback t o _ =>
    match s.calls t with
    | [] => none
    | e :: _ => if e.1 = x then (L.role t x).map fun k => .callback k (o x) else none

/-- Every object meets its condition. -/
def Kept (L : Layout m θ)
    (C : ∀ x, World (m x).κ (m x).σ (m x).τ → Act (m x).κ (m x).τ (m x).υ (m x).ω → Prop)
    (s : Sys L) (a : Step L) : Prop :=
  ∀ x, ∀ b ∈ move x s a, C x (world x s) b

end World

/-- Every request is answered by a callback. -/
structure Answers {κ σ τ υ ω ε φ : Type} (c : Class κ σ τ υ ω ε φ) : Prop where
  added : ∀ k ok, c.added k ok ≠ some []
  deled : ∀ k, c.deled k ≠ []

/-- What a class of objects keeps to as long as its steps meet `C`. `roams` are the registrations
that may be made with another thread each time. -/
structure Orderly (o : Obj) (roams : o.κ → Bool)
    (C : World o.κ o.σ o.τ → Act o.κ o.τ o.υ o.ω → Prop) (I : World o.κ o.σ o.τ → Prop) :
    Prop where
  start : I ⟨o.init, fun _ => .clean⟩
  keeps : ∀ {a w w'}, I w → C w a → (o.cls.step a w).res = .ok w' → I w'
  one : ∀ {w k}, I w → roams k = true → 0 < (w.ntf k).adds → w.ntf k = ⟨false, 1, 0, []⟩
  answers : Answers o.cls

/-! ### The requests of a call -/

theorem pushAll_mono {κ τ : Type} [DecidableEq κ] (rs : List (κ × Req)) (ntf : κ → Ntf τ) (k : κ) :
    (Class.pushAll ntf rs k).inSet = (ntf k).inSet ∧
      (Class.pushAll ntf rs k).todo = (ntf k).todo ∧
      (ntf k).adds ≤ (Class.pushAll ntf rs k).adds ∧
      (ntf k).dels ≤ (Class.pushAll ntf rs k).dels := by
  induction rs generalizing ntf with
  | nil => exact ⟨rfl, rfl, le_rfl, le_rfl⟩
  | cons r rs ih =>
    obtain ⟨h1, h2, h3, h4⟩ := ih (Function.update ntf r.1 ((ntf r.1).push r.2))
    have hcons : Class.pushAll ntf (r :: rs) =
        Class.pushAll (Function.update ntf r.1 ((ntf r.1).push r.2)) rs := rfl
    rw [hcons, h1, h2]
    rcases eq_or_ne k r.1 with rfl | hk
    · rw [Function.update_self] at h3 h4 ⊢
      obtain ⟨k, q⟩ := r
      cases q with
      | add => exact ⟨rfl, rfl, Nat.le_of_succ_le h3, h4⟩
      | del => exact ⟨rfl, rfl, h3, Nat.le_of_succ_le h4⟩
    · rw [Function.update_of_ne hk] at h3 h4 ⊢
      exact ⟨rfl, rfl, h3, h4⟩

theorem pushAll_adds {κ τ : Type} [DecidableEq κ] {rs : List (κ × Req)} {k : κ}
    (h : (k, Req.add) ∈ rs) (ntf : κ → Ntf τ) : (ntf k).adds < (Class.pushAll ntf rs k).adds := by
  induction rs generalizing ntf with
  | nil => cases h
  | cons r rs ih =>
    have hcons : Class.pushAll ntf (r :: rs) =
        Class.pushAll (Function.update ntf r.1 ((ntf r.1).push r.2)) rs := rfl
    rw [hcons]
    rcases List.mem_cons.mp h with rfl | h
    · have hmono := (pushAll_mono rs (Function.update ntf k ((ntf k).push .add)) k).2.2.1
      rw [Function.update_self] at hmono
      exact Nat.lt_of_succ_le hmono
    · have hlt := ih h (Function.update ntf r.1 ((ntf r.1).push r.2))
      have hle : (ntf k).adds ≤ (Function.update ntf r.1 ((ntf r.1).push r.2) k).adds :=
        (pushAll_mono [r] ntf k).2.2.1
      omega

theorem pushAll_one {κ τ : Type} [DecidableEq κ] {rs : List (κ × Req)} {ntf : κ → Ntf τ} {k : κ}
    (h : Class.pushAll ntf ((k, .add) :: rs) k = ⟨false, 1, 0, []⟩) : ntf k = .clean := by
  have hcons : Class.pushAll ntf ((k, .add) :: rs) =
      Class.pushAll (Function.update ntf k ((ntf k).push .add)) rs := rfl
  obtain ⟨h1, h2, h3, h4⟩ := pushAll_mono rs (Function.update ntf k ((ntf k).push .add)) k
  rw [← hcons, h, Function.update_self] at h1 h2 h3 h4
  rcases hn : ntf k with ⟨inSet, adds, dels, todo⟩
  rw [hn] at h1 h2 h3 h4
  simp only [Ntf.push] at h1 h2 h3 h4
  unfold Ntf.clean
  congr 1
  · exact h1.symm
  · omega
  · omega
  · exact h2.symm

section Placed

variable [DecidableEq ι] {L : Layout m θ} {s s' : Sys L} {t : θ} {x y : ι}

/-- The thread holds nothing of the object. -/
def Nothing (t : θ) (x : ι) (s : Sys L) : Prop :=
  view (L.kind t) x (s.ntf t) = .clean ∧ (s.calls t).filterMap (of x) = []

/-- Only the threads an object was given to hold anything of it. -/
def Placed (s : Sys L) : Prop :=
  ∀ t x, (∀ k, L.role t x = some k → (s.taskId x k).1 ≠ t) → Nothing t x s

theorem Nothing.holds (h : Nothing t x s) (k : (m x).κ) : holds t x k s = .clean := by
  unfold Threads.holds
  rw [h.1, h.2]
  rfl

theorem mem_todo {α ρ : Type} [DecidableEq α] {k : Kind α ρ} {x : α} {pc : Pc α ρ} {a : Answer}
    (h : a ∈ pc.todo k x) : a = .deled ∨ ∃ o, a = .added (k.ok o) := by
  cases pc with
  | deled y rest =>
    simp only [Pc.todo] at h
    split_ifs at h
    · exact Or.inl (List.mem_singleton.mp h)
    · cases h
  | added y o rest =>
    simp only [Pc.todo] at h
    split_ifs at h
    · exact Or.inr ⟨o, List.mem_singleton.mp h⟩
    · cases h
  | _ => cases h

theorem holds_clean {k : (m x).κ} (ha : Answers (m x).cls) (hk : L.role t x = some k)
    (h : holds t x k s = .clean) : Nothing t x s := by
  unfold Threads.holds Ntf.clean at h
  simp only [Ntf.mk.injEq, List.append_eq_nil_iff] at h
  obtain ⟨h1, h2, h3, hcalls, htodo⟩ := h
  refine ⟨?_, hcalls⟩
  have hnil : (view (L.kind t) x (s.ntf t)).todo = [] := by
    rw [List.flatMap_eq_nil_iff] at htodo
    rw [List.eq_nil_iff_forall_not_mem]
    intro a hmem
    have hr := htodo a hmem
    rcases mem_todo hmem with rfl | ⟨o, rfl⟩
    · exact ha.deled k hr
    · obtain ⟨ts, hts⟩ := Option.ne_none_iff_exists'.mp (L.answers hk o)
      have hts' : ts = [] := by simpa [replies, hts] using hr
      exact ha.added k _ (by rw [hts, hts'])
  rcases hv : view (L.kind t) x (s.ntf t) with ⟨inSet, adds, dels, todo⟩
  rw [hv] at h1 h2 h3 hnil
  unfold Ntf.clean
  congr 1

/-! ### A request -/

variable [DecidableEq θ] {pick : L.Tasks x} {r : (m x).κ × Req}

theorem push_eq (s : Sys L) : L.push x pick s r = { s with
    taskId := Function.update s.taskId x
      (Function.update (s.taskId x) r.1 (L.target x pick s r))
    ntf := Function.update s.ntf (L.target x pick s r).1
      ((s.ntf (L.target x pick s r).1).push x r.2) } := by
  unfold Layout.push
  simp only [L.heard (L.target x pick s r).2, Bool.false_eq_true, if_false]

theorem ntf_push (s : Sys L) : (L.push x pick s r).ntf = Function.update s.ntf
    (L.target x pick s r).1 ((s.ntf (L.target x pick s r).1).push x r.2) := by
  rw [push_eq]

theorem holds_push_self :
    holds (L.target x pick s r).1 x r.1 (L.push x pick s r) =
      (holds (L.target x pick s r).1 x r.1 s).push r.2 := by
  unfold holds
  rw [ntf_push, Function.update_self, view_push_self]
  rcases r.2 with - | -
  · rfl
  · rfl

theorem view_push (h : y ≠ x ∨ t ≠ (L.target x pick s r).1) :
    view (L.kind t) y ((L.push x pick s r).ntf t) = view (L.kind t) y (s.ntf t) := by
  rw [ntf_push]
  rcases eq_or_ne t (L.target x pick s r).1 with rfl | ht
  · rw [Function.update_self]
    exact view_push_ne r.2 (h.resolve_right (not_not_intro rfl)).symm
  · rw [Function.update_of_ne ht]

theorem calls_push : (L.push x pick s r).calls = s.calls := rfl

theorem holds_push {k : (m y).κ} (h : y ≠ x ∨ t ≠ (L.target x pick s r).1) :
    holds t y k (L.push x pick s r) = holds t y k s := by
  unfold holds
  rw [view_push h, calls_push]

theorem Nothing.push (hn : Nothing t y s) (h : y ≠ x ∨ t ≠ (L.target x pick s r).1) :
    Nothing t y (L.push x pick s r) :=
  ⟨by rw [view_push h]; exact hn.1, by rw [calls_push]; exact hn.2⟩

theorem taskId_push_ne (h : y ≠ x) : (L.push x pick s r).taskId y = s.taskId y := by
  rw [push_eq]
  exact Function.update_of_ne h _ _

theorem taskId_push : (L.push x pick s r).taskId x =
    Function.update (s.taskId x) r.1 (L.target x pick s r) := by
  rw [push_eq]
  exact Function.update_self ..

theorem world_push_ne (h : y ≠ x) : world y (L.push x pick s r) = world y s := by
  unfold world
  rw [taskId_push_ne h]
  congr 1
  funext k
  exact holds_push (Or.inl h)

/-- The request stays with its thread, or the old thread holds nothing of the object. -/
def Steady (pick : L.Tasks x) (s : Sys L) (r : (m x).κ × Req) : Prop :=
  r.2 = .add → pick r.1 = s.taskId x r.1 ∨ (world x s).ntf r.1 = .clean

theorem Steady.holds (h : Steady pick s r) (hp : Placed s) :
    holds (L.target x pick s r).1 x r.1 s = (world x s).ntf r.1 := by
  obtain ⟨k, q⟩ := r
  cases q with
  | del => rfl
  | add =>
    show Threads.holds (pick k).1 x k s = Threads.holds (s.taskId x k).1 x k s
    rcases h rfl with hk | hclean
    · have hk : pick k = s.taskId x k := hk
      rw [hk]
    · by_cases he : (s.taskId x k).1 = (pick k).1
      · rw [he]
      · have hn : Nothing (pick k).1 x s := by
          refine hp _ _ fun k' hk' => ?_
          rw [(pick k).2] at hk'
          cases hk'
          exact he
        rw [hn.holds]
        exact hclean.symm

/-- **A request, seen from its object.** -/
theorem world_push (h : Steady pick s r) (hp : Placed s) :
    world x (L.push x pick s r) = ⟨s.obj x, Function.update (world x s).ntf r.1
      (((world x s).ntf r.1).push r.2)⟩ := by
  unfold world
  rw [taskId_push]
  congr 1
  funext k
  rcases eq_or_ne k r.1 with rfl | hk
  · rw [Function.update_self, Function.update_self, holds_push_self, h.holds hp]
    rfl
  · rw [Function.update_of_ne hk, Function.update_of_ne hk]
    refine holds_push (Or.inr fun he => hk ?_)
    have h1 := (s.taskId x k).2
    rw [he, (L.target x pick s r).2] at h1
    exact (Option.some.inj h1).symm

theorem Placed.push (hp : Placed s) (ha : Answers (m x).cls) (h : Steady pick s r) :
    Placed (L.push x pick s r) := by
  intro t y hne
  rcases eq_or_ne y x with rfl | hy
  · rw [taskId_push] at hne
    have ht : t ≠ (L.target y pick s r).1 := by
      rintro rfl
      refine hne r.1 (L.target y pick s r).2 ?_
      rw [Function.update_self]
    refine Nothing.push ?_ (Or.inr ht)
    by_cases hex : ∃ k, L.role t y = some k ∧ (s.taskId y k).1 = t
    · obtain ⟨k, hk, rfl⟩ := hex
      have hkr : k = r.1 := by
        by_contra hkr
        refine hne k hk ?_
        rw [Function.update_of_ne hkr]
      subst hkr
      obtain ⟨k, q⟩ := r
      cases q with
      | del => exact absurd rfl ht
      | add =>
        rcases h rfl with he | hclean
        · exact absurd (congrArg Subtype.val he).symm ht
        · exact holds_clean ha hk hclean
    · exact hp t y fun k hk he => hex ⟨k, hk, he⟩
  · rw [taskId_push_ne hy] at hne
    exact (hp t y hne).push (Or.inl hy)

/-! ### The requests of a call -/

/-- **The requests of a call**, if an add that changes the thread is the only request there. -/
theorem world_pushes (pick : L.Tasks x) (rs : List ((m x).κ × Req)) (ha : Answers (m x).cls) :
    ∀ {s : Sys L}, Placed s → (∀ k, (k, Req.add) ∈ rs → pick k = s.taskId x k ∨
      Class.pushAll (world x s).ntf rs k = ⟨false, 1, 0, []⟩) →
    world x (rs.foldl (L.push x pick) s) = ⟨s.obj x, Class.pushAll (world x s).ntf rs⟩ ∧
      (∀ y, y ≠ x → world y (rs.foldl (L.push x pick) s) = world y s) ∧
      Placed (rs.foldl (L.push x pick) s) := by
  induction rs with
  | nil =>
    intro s hp _
    exact ⟨rfl, fun y _ => rfl, hp⟩
  | cons r rs ih =>
    intro s hp hadds
    have hst : Steady pick s r := by
      obtain ⟨k, q⟩ := r
      intro hq
      cases hq
      exact (hadds k List.mem_cons_self).imp_right pushAll_one
    have hw := world_push hst hp
    obtain ⟨h1, h2, h3⟩ := ih (hp.push ha hst) fun k hk => by
      rcases hadds k (List.mem_cons_of_mem _ hk) with he | hone
      · left
        rw [taskId_push]
        rcases eq_or_ne k r.1 with rfl | hkr
        · rw [Function.update_self]
          obtain ⟨k, q⟩ := r
          cases q with
          | add => rfl
          | del => exact he
        · rw [Function.update_of_ne hkr]
          exact he
      · right
        rw [hw]
        exact hone
    refine ⟨?_, fun y hy => ?_, h3⟩
    · rw [List.foldl_cons, h1, hw]
      rfl
    · rw [List.foldl_cons, h2 y hy, world_push_ne hy]

/-- The adds of a call stay with their threads, or are the only requests in their caches. -/
def Apart (pick : L.Tasks x) (s : Sys L) (r : Eff (m x).ε (m x).φ (m x).σ) : Prop :=
  ∀ o, r.res = .ok o → ∀ k, (k, Req.add) ∈ r.evs.filterMap (m x).cls.req →
    pick k = s.taskId x k ∨ (m x).cls.submit (world x s).ntf r.evs k = ⟨false, 1, 0, []⟩

variable {c : Eff (m x).ε (m x).φ (m x).σ}

omit [DecidableEq θ] in
theorem world_obj (o : (m x).σ) :
    world x { s with obj := Function.update s.obj x o } = ⟨o, (world x s).ntf⟩ := by
  show (⟨Function.update s.obj x o x, _⟩ : World _ _ _) = _
  rw [Function.update_self]
  rfl

omit [DecidableEq θ] in
theorem world_obj_ne (h : y ≠ x) (o : (m x).σ) :
    world y { s with obj := Function.update s.obj x o } = world y s := by
  show (⟨Function.update s.obj x o y, _⟩ : World _ _ _) = _
  rw [Function.update_of_ne h]
  rfl

/-- **A call, seen from its object.** -/
theorem after_shows (ha : Answers (m x).cls) (hp : Placed s) (hc : Apart pick s c) :
    Proc.Shows (viewOf L x) (L.after x pick s c) ((m x).cls.after (world x s).ntf c) := by
  refine ⟨(filterMap_of_self (F := fun x => (m x).ε) c.evs).symm, ?_⟩
  rcases hr : c.res with f | o
  · simp only [Layout.after, Class.after, hr]
    exact of_self _
  · simp only [Layout.after, Class.after, hr]
    have hw := (world_pushes pick (c.evs.filterMap (m x).cls.req) ha
      (s := { s with obj := Function.update s.obj x o }) hp (by rw [world_obj]; exact hc o hr)).1
    show (⟨o, _⟩ : World _ _ _) = world x _
    rw [hw, world_obj]
    show (⟨o, _⟩ : World _ _ _) = ⟨Function.update s.obj x o x, _⟩
    rw [Function.update_self]
    rfl

theorem after_hides (ha : Answers (m x).cls) (hp : Placed s) (hc : Apart pick s c) (hy : y ≠ x) :
    Proc.Hides (viewOf L y) s (L.after x pick s c) := by
  refine ⟨filterMap_of_ne (F := fun x => (m x).ε) hy.symm c.evs, ?_⟩
  rcases hr : c.res with f | o
  · simp only [Layout.after, hr]
    exact of_ne hy.symm _
  · simp only [Layout.after, hr]
    have hw := (world_pushes pick (c.evs.filterMap (m x).cls.req) ha
      (s := { s with obj := Function.update s.obj x o }) hp (by rw [world_obj]; exact hc o hr)).2.1
    show world y _ = world y s
    rw [hw y hy, world_obj_ne hy]

theorem after_placed (ha : Answers (m x).cls) (hp : Placed s) (hc : Apart pick s c)
    (h : (L.after x pick s c).res = .ok s') : Placed s' := by
  rcases hr : c.res with f | o
  · simp only [Layout.after, hr] at h
    cases h
  · simp only [Layout.after, hr] at h
    cases h
    exact (world_pushes pick (c.evs.filterMap (m x).cls.req) ha
      (s := { s with obj := Function.update s.obj x o }) hp (by rw [world_obj]; exact hc o hr)).2.2

/-! ### A callback -/

theorem Placed.holder (hp : Placed s) (h : ¬ Nothing t x s) :
    ∃ k, L.role t x = some k ∧ (s.taskId x k).1 = t := by
  by_contra hno
  exact h (hp t x fun k hk he => hno ⟨k, hk, he⟩)

/-- The callbacks of the thread are `l` now. -/
def popped (t : θ) (l : List (Σ x, (m x).τ)) (s : Sys L) : Sys L :=
  { s with calls := Function.update s.calls t l }

theorem holds_popped_ne {l : List (Σ x, (m x).τ)} {t' : θ} {k : (m y).κ} (h : t' ≠ t) :
    holds t' y k (popped t l s) = holds t' y k s := by
  unfold holds popped
  simp only [Function.update_of_ne h]

theorem holds_popped {l : List (Σ x, (m x).τ)} {k : (m y).κ} :
    holds t y k (popped t l s) = { holds t y k s with
      todo := l.filterMap (of y) ++ (view (L.kind t) y (s.ntf t)).todo.flatMap
        (replies (m y).cls k) } := by
  unfold holds popped
  simp only [Function.update_self]

theorem Placed.popped {a : Σ x, (m x).τ} {l : List (Σ x, (m x).τ)} (hp : Placed s)
    (hl : s.calls t = a :: l) : Placed (popped t l s) := by
  intro t' y hne
  obtain ⟨h1, h2⟩ := hp t' y hne
  refine ⟨h1, ?_⟩
  show (Function.update s.calls t l t').filterMap (of y) = []
  rcases eq_or_ne t' t with rfl | ht
  · rw [Function.update_self]
    rw [hl, List.filterMap_eq_nil_iff] at h2
    rw [List.filterMap_eq_nil_iff]
    intro b hb
    exact h2 b (List.mem_cons_of_mem _ hb)
  · rw [Function.update_of_ne ht]
    exact h2

variable {e : (m x).τ} {l : List (Σ x, (m x).τ)}

theorem world_popped (hp : Placed s) (hl : s.calls t = ⟨x, e⟩ :: l) : ∃ k ts,
    L.role t x = some k ∧ ((world x s).ntf k).todo = e :: ts ∧
      world x (popped t l s) =
        ⟨s.obj x, Function.update (world x s).ntf k { (world x s).ntf k with todo := ts }⟩ := by
  obtain ⟨k, hk, rfl⟩ : ∃ k, L.role t x = some k ∧ (s.taskId x k).1 = t := by
    refine hp.holder fun hn => ?_
    have h2 := hn.2
    rw [hl, filterMap_of_cons (F := fun x => (m x).τ)] at h2
    cases h2
  refine ⟨k, l.filterMap (of x) ++ (view (L.kind (s.taskId x k).1) x
    (s.ntf (s.taskId x k).1)).todo.flatMap (replies (m x).cls k), hk, ?_, ?_⟩
  · show (holds (s.taskId x k).1 x k s).todo = _
    unfold holds
    rw [hl, filterMap_of_cons (F := fun x => (m x).τ)]
    rfl
  · unfold world
    congr 1
    funext k'
    show holds (s.taskId x k').1 x k' (popped (s.taskId x k).1 l s) = _
    rcases eq_or_ne k' k with rfl | hne
    · rw [Function.update_self, holds_popped]
    · rw [Function.update_of_ne hne]
      refine holds_popped_ne fun he => hne ?_
      have h1 := (s.taskId x k').2
      rw [he, hk] at h1
      exact (Option.some.inj h1).symm

theorem world_popped_ne (hl : s.calls t = ⟨x, e⟩ :: l) (hy : y ≠ x) :
    world y (popped t l s) = world y s := by
  unfold world
  congr 1
  funext k
  show holds (s.taskId y k).1 y k (popped t l s) = _
  rcases eq_or_ne (s.taskId y k).1 t with he | he
  · rw [he, holds_popped]
    unfold holds
    rw [hl, filterMap_of_cons_ne (F := fun x => (m x).τ) hy.symm]
  · exact holds_popped_ne he

end Placed

end SmartNet.Framework.Threads
