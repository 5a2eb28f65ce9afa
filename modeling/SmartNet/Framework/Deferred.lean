import Mathlib.Data.Finset.Basic
import SmartNet.Framework.Notifier

/-! # Deferred registration

`CEpoll` and `CTimeNotifier` with all their objects. Any thread pushes an object into one of the two
caches; the thread of the notifier calls `exec`, which swaps the cache of the dels out and erases
its objects, then does the same for the adds, and makes a callback for each object. `exec` is taken
apart here: the test whether a cache is empty, the swap under the spin lock, the change of the set
and the callback are steps of their own, and requests are pushed between any two of them, by other
threads or by the callbacks. After the caches `exec` waits for events (`check`s the timers), which
changes neither caches nor set; where an object or `epoll_wait` ends the process there, the run
ends. The result of the `epoll_ctl` of a del is ignored, and so left out.

* `cEpoll`, `cTimeNotifier`: the two notifiers are one with parameters;
* `hist`, `view`: what is seen of one object, and what the notifier holds of it;
* `step_view`: for each of its objects, the notifier does what `Notifier.Class.Moves` allows;
* `step_fault`: where its asserts fail. -/

namespace SmartNet.Framework.Deferred

open SmartNet.Lib SmartNet.Framework.Notifier

variable {α ρ : Type}

/-- What the two notifiers differ in. -/
structure Kind (α ρ : Type) where
  /-- the objects `add` and `del` do nothing for -/
  mute : α → Bool
  /-- the results of the registration with the system the object is inserted for -/
  ok : ρ → Bool

/-- `CEpoll`: no request is made for an object without events; `epoll_ctl` returns 0 if it
succeeds. -/
def cEpoll (getIoEvt : α → ℕ) : Kind α ℤ where
  mute pIoObj := decide (0 = getIoEvt pIoObj)
  ok i32Ret := decide (0 = i32Ret)

/-- `CTimeNotifier`: nothing is asked of the system. -/
def cTimeNotifier : Kind α Unit where
  mute _ := false
  ok _ := true

/-- How far `exec` is. -/
inductive Pc (α ρ : Type)
  | out
  | testDel
  | swapDel
  /-- at the head of the loop over the dels -/
  | dels (rest : List α)
  /-- `x` is erased, its callback is to be made -/
  | deled (x : α) (rest : List α)
  | testAdd
  | swapAdd
  | adds (rest : List α)
  | added (x : α) (i32Ret : ρ) (rest : List α)
  | events
  deriving DecidableEq

/-- The set and the caches, and how far `exec` is. -/
structure St (α ρ : Type) where
  setObjs : Finset α := ∅
  vecAddCache : List α := []
  vecDelCache : List α := []
  pc : Pc α ρ := .out

/-- What is seen of a notifier: requests that were pushed, callbacks, calls of `exec` and their
ends. -/
inductive Ev (α ρ : Type)
  | request (r : Req) (x : α)
  | handleAdded (x : α) (i32Ret : ρ)
  | handleDeled (x : α)
  | call
  | ret
  deriving DecidableEq

/-- `CMN_ASSERT(1 == stRet)`, `CMN_ASSERT(pairRet.second)`. -/
inductive Fault
  | erase
  | insert
  deriving DecidableEq

/-- A request of any thread, or a step of `exec`; `o` is the result of `epoll_ctl` where it is
called. -/
inductive Act (α ρ : Type)
  | request (r : Req) (x : α)
  | exec (o : ρ)

/-- `add_ioobj`, `del_ioobj` (`add_timer`, `del_timer`) for an object with events. -/
def St.push (s : St α ρ) (x : α) : Req → St α ρ
  | .add => { s with vecAddCache := s.vecAddCache ++ [x] }
  | .del => { s with vecDelCache := s.vecDelCache ++ [x] }

section Step

variable [DecidableEq α] (k : Kind α ρ)

/-- A request. -/
def request (r : Req) (x : α) (s : St α ρ) : Eff (Ev α ρ) Fault (St α ρ) :=
  if k.mute x then pure s else Eff.emit (.request r x) >>= fun _ => pure (s.push x r)

/-- The next step of `exec`. -/
def exec (o : ρ) (s : St α ρ) : Eff (Ev α ρ) Fault (St α ρ) :=
  match s.pc with
  | .out => Eff.emit .call >>= fun _ => pure { s with pc := .testDel }
  | .testDel => pure { s with pc := if s.vecDelCache = [] then .testAdd else .swapDel }
  | .swapDel => pure { s with vecDelCache := [], pc := .dels s.vecDelCache }
  | .dels [] => pure { s with pc := .testAdd }
  | .dels (x :: rest) => Eff.require (x ∈ s.setObjs) .erase >>= fun _ =>
    pure { s with setObjs := s.setObjs.erase x, pc := .deled x rest }
  | .deled x rest => Eff.emit (.handleDeled x) >>= fun _ => pure { s with pc := .dels rest }
  | .testAdd => pure { s with pc := if s.vecAddCache = [] then .events else .swapAdd }
  | .swapAdd => pure { s with vecAddCache := [], pc := .adds s.vecAddCache }
  | .adds [] => pure { s with pc := .events }
  | .adds (x :: rest) =>
    if k.ok o then Eff.require (x ∉ s.setObjs) .insert >>= fun _ =>
      pure { s with setObjs := insert x s.setObjs, pc := .added x o rest }
    else pure { s with pc := .added x o rest }
  | .added x i32Ret rest => Eff.emit (.handleAdded x i32Ret) >>= fun _ =>
    pure { s with pc := .adds rest }
  | .events => Eff.emit .ret >>= fun _ => pure { s with pc := .out }

/-- One step. -/
def step : Act α ρ → St α ρ → Eff (Ev α ρ) Fault (St α ρ)
  | .request r x => request k r x
  | .exec o => exec k o

/-- A notifier from its construction on. -/
def run (as : List (Act α ρ)) : Proc (St α ρ) (Ev α ρ) Fault := Proc.run (step k) ⟨{}, [], none⟩ as

end Step

/-! ### One of the objects -/

/-- A callback, as far as the object can tell it. -/
inductive Answer
  | added (ok : Bool)
  | deled
  deriving DecidableEq

/-- The request a callback answers. -/
def Answer.req : Answer → Req
  | .added _ => .add
  | .deled => .del

/-- A request or a callback of the object. -/
inductive ObjEv
  | request (r : Req)
  | callback (a : Answer)
  deriving DecidableEq

/-- The object of `Notifier.Class` that makes requests whenever it likes. -/
def client : Class Unit Unit Answer Req Unit ObjEv Empty where
  user r s := Eff.emit (.request r) >>= fun _ => pure s
  callback a _ s := Eff.emit (.callback a) >>= fun _ => pure s
  handle _ _ := none
  added _ ok := some [.added ok]
  deled _ := [.deled]
  isEvt _ _ := false
  req e := match e with
    | .request r => some ((), r)
    | .callback _ => none

section View

variable [DecidableEq α] (k : Kind α ρ) (x : α)

/-- What is seen of one object. -/
def seen : Ev α ρ → Option ObjEv
  | .request r y => if y = x then some (.request r) else none
  | .handleAdded y i32Ret => if y = x then some (.callback (.added (k.ok i32Ret))) else none
  | .handleDeled y => if y = x then some (.callback .deled) else none
  | .call => none
  | .ret => none

/-- The requests and callbacks of one object, in order. -/
def hist (log : List (Ev α ρ)) : List ObjEv := log.filterMap (seen k x)

/-- The requests of a history. -/
def requests (h : List ObjEv) : List Req :=
  h.filterMap fun e => match e with
    | .request r => some r
    | .callback _ => none

/-- The callbacks of a history. -/
def callbacks (h : List ObjEv) : List Answer :=
  h.filterMap fun e => match e with
    | .request _ => none
    | .callback a => some a

/-- The last callback of a history is that of a successful add. -/
def lastAdded (h : List ObjEv) : Bool := (callbacks h).getLast? = some (.added true)

/-- Every request of a history is answered. -/
def NoneOpen (h : List ObjEv) : Prop := (requests h).length = (callbacks h).length

instance (h : List ObjEv) : Decidable (NoneOpen h) :=
  inferInstanceAs (Decidable ((requests h).length = (callbacks h).length))

/-- The batch of dels being processed. -/
def Pc.delBatch : Pc α ρ → List α
  | .dels rest => rest
  | .deled _ rest => rest
  | _ => []

/-- The batch of adds being processed. -/
def Pc.addBatch : Pc α ρ → List α
  | .adds rest => rest
  | .added _ _ rest => rest
  | _ => []

/-- The callback of the object that is about to be made. -/
def Pc.todo : Pc α ρ → List Answer
  | .deled y _ => if y = x then [.deled] else []
  | .added y i32Ret _ => if y = x then [.added (k.ok i32Ret)] else []
  | _ => []

/-- What the notifier holds of one object. -/
def view (s : St α ρ) : Ntf Answer where
  inSet := decide (x ∈ s.setObjs)
  adds := s.vecAddCache.count x + s.pc.addBatch.count x
  dels := s.vecDelCache.count x + s.pc.delBatch.count x
  todo := s.pc.todo k x

end View

/-- The object and what its notifier holds of it. -/
def world (n : Ntf Answer) : World Unit Unit Answer := ⟨(), fun _ => n⟩

section Client

variable {n : Ntf Answer}

theorem world_update (n m : Ntf Answer) :
    world m = ⟨(), Function.update (world n).ntf () m⟩ := by
  unfold world
  congr 1

theorem client_request (r : Req) :
    client.Moves (world n) (.user r) [.request r] (world (n.push r)) := by
  have h : world (n.push r) = ⟨(), client.submit (world n).ntf [.request r]⟩ := by
    rw [client.submit_one rfl]
    exact world_update n _
  rw [h]
  exact .user r rfl

theorem client_takeDel (ht : n.todo = []) (hd : 0 < n.dels) (hin : n.inSet = true) :
    client.Moves (world n) (.takeDel ()) [] (world ⟨false, n.adds, n.dels - 1, [.deled]⟩) := by
  rw [world_update n]
  exact .takeDel () ht hd hin

theorem client_takeAdd (ok : Bool) (ht : n.todo = []) (ha : 0 < n.adds) :
    client.Moves (world n) (.takeAdd () ok) []
      (world ⟨ok || n.inSet, n.adds - 1, n.dels, [.added ok]⟩) := by
  rw [world_update n]
  exact .takeAdd () ht ha rfl

theorem client_callback {a : Answer} (ht : n.todo = [a]) :
    client.Moves (world n) (.callback () ()) [.callback a] (world { n with todo := [] }) := by
  have h : world { n with todo := [] } = ⟨(), client.submit
      (Function.update (world n).ntf () { n with todo := [] }) [.callback a]⟩ := by
    rw [client.submit_nil rfl]
    exact world_update n _
  rw [h]
  exact .callback () ht rfl

end Client

section Views

variable [DecidableEq α] {k : Kind α ρ} {x y : α} {s s' : St α ρ} {evs : List (Ev α ρ)}
  {rest : List α}

theorem view_push_self (r : Req) : view k x (s.push x r) = (view k x s).push r := by
  cases r with
  | add =>
    have hc : (s.vecAddCache ++ [x]).count x = s.vecAddCache.count x + 1 := by
      rw [List.count_append, List.count_singleton_self]
    simp only [view, St.push, Ntf.push, hc]
    congr 1
    omega
  | del =>
    have hc : (s.vecDelCache ++ [x]).count x = s.vecDelCache.count x + 1 := by
      rw [List.count_append, List.count_singleton_self]
    simp only [view, St.push, Ntf.push, hc]
    congr 1
    omega

theorem view_push_ne (r : Req) (h : y ≠ x) : view k x (s.push y r) = view k x s := by
  have hy : [y].count x = 0 := by
    rw [List.count_eq_zero]
    simpa using h.symm
  cases r with
  | add =>
    simp only [view, St.push, List.count_append, hy, Nat.add_zero]
    rfl
  | del =>
    simp only [view, St.push, List.count_append, hy, Nat.add_zero]
    rfl

theorem same_view (a : Act α ρ) {s s' : St α ρ} {evs : List (Ev α ρ)} {x : α}
    (he : hist k x evs = []) (hv : view k x s' = view k x s) :
    ∃ b, client.Moves (world (view k x s)) b (hist k x evs) (world (view k x s')) ∧
      ∀ r, b = .user r → a = .request r x ∧ k.mute x = false := by
  rw [he, hv]
  exact ⟨.collect () .deled, .idle _, fun r hr => by cases hr⟩

theorem request_view {r : Req} (h : request k r y s = ⟨evs, .ok s'⟩) (x : α) :
    ∃ b, client.Moves (world (view k x s)) b (hist k x evs) (world (view k x s')) ∧
      ∀ r', b = .user r' → (Act.request r y : Act α ρ) = .request r' x ∧ k.mute x = false := by
  unfold request at h
  split_ifs at h with hm
  · cases h
    exact same_view _ rfl rfl
  · obtain ⟨evs', rfl, h'⟩ := Eff.emit_inv h
    cases h'
    by_cases hy : y = x
    · subst hy
      have he : hist k y [.request r y] = [.request r] := by simp [hist, seen]
      rw [he, view_push_self]
      refine ⟨.user r, client_request r, fun r' hr => ?_⟩
      cases hr
      exact ⟨rfl, by simpa using hm⟩
    · have he : hist k x [.request r y] = [] := by simp [hist, seen, hy]
      exact same_view _ he (view_push_ne r hy)

theorem dels_view {objs : Finset α} {adds dels : List α} (hx : y ∈ objs) (x : α) (o : ρ) :
    ∃ b, client.Moves (world (view k x ⟨objs, adds, dels, .dels (y :: rest)⟩)) b []
        (world (view k x ⟨objs.erase y, adds, dels, .deled y rest⟩)) ∧
      ∀ r, b = .user r → (Act.exec o : Act α ρ) = .request r x ∧ k.mute x = false := by
  by_cases hy : y = x
  · subst hy
    refine ⟨.takeDel (), ?_, fun r hr => by cases hr⟩
    have hd : 0 < (view k y (⟨objs, adds, dels, .dels (y :: rest)⟩ : St α ρ)).dels := by
      simp only [view, Pc.delBatch, List.count_cons_self]
      omega
    have h := client_takeDel (n := view k y ⟨objs, adds, dels, .dels (y :: rest)⟩) rfl hd
      (by simpa [view] using hx)
    have hv : view k y ⟨objs.erase y, adds, dels, .deled y rest⟩ = ⟨false,
        (view k y (⟨objs, adds, dels, .dels (y :: rest)⟩ : St α ρ)).adds,
        (view k y (⟨objs, adds, dels, .dels (y :: rest)⟩ : St α ρ)).dels - 1, [.deled]⟩ := by
      simp [view, Pc.delBatch, Pc.addBatch, Pc.todo]
    rwa [hv]
  · have hx' : ¬ x = y := fun h => hy h.symm
    refine same_view (.exec o) (rfl : hist k x [] = []) ?_
    simp [view, Pc.delBatch, Pc.addBatch, Pc.todo, hy, hx']

theorem adds_view {objs objs' : Finset α} {adds dels : List α} {o : ρ}
    (hx : objs' = if k.ok o then insert y objs else objs) (x : α) :
    ∃ b, client.Moves (world (view k x ⟨objs, adds, dels, .adds (y :: rest)⟩)) b []
        (world (view k x ⟨objs', adds, dels, .added y o rest⟩)) ∧
      ∀ r, b = .user r → (Act.exec o : Act α ρ) = .request r x ∧ k.mute x = false := by
  subst hx
  by_cases hy : y = x
  · subst hy
    refine ⟨.takeAdd () (k.ok o), ?_, fun r hr => by cases hr⟩
    have ha : 0 < (view k y (⟨objs, adds, dels, .adds (y :: rest)⟩ : St α ρ)).adds := by
      simp only [view, Pc.addBatch, List.count_cons_self]
      omega
    have h := client_takeAdd (n := view k y ⟨objs, adds, dels, .adds (y :: rest)⟩) (k.ok o) rfl ha
    have hv : view k y ⟨if k.ok o then insert y objs else objs, adds, dels, .added y o rest⟩ =
        ⟨k.ok o || (view k y (⟨objs, adds, dels, .adds (y :: rest)⟩ : St α ρ)).inSet,
        (view k y (⟨objs, adds, dels, .adds (y :: rest)⟩ : St α ρ)).adds - 1,
        (view k y (⟨objs, adds, dels, .adds (y :: rest)⟩ : St α ρ)).dels, [.added (k.ok o)]⟩ := by
      by_cases hok : k.ok o = true <;> simp [view, Pc.delBatch, Pc.addBatch, Pc.todo, hok]
    rwa [hv]
  · have hx' : ¬ x = y := fun h => hy h.symm
    refine same_view (.exec o) (rfl : hist k x [] = []) ?_
    by_cases hok : k.ok o = true <;>
      simp [view, Pc.delBatch, Pc.addBatch, Pc.todo, hy, hx', hok]

theorem callback_view (e : Ev α ρ) (pc pc' : Pc α ρ) {a : Answer} {y : α} {objs : Finset α}
    {adds dels : List α} (he : ∀ x, seen k x e = if y = x then some (.callback a) else none)
    (ht : ∀ x, pc.todo k x = if y = x then [a] else []) (ht' : ∀ x, pc'.todo k x = [])
    (hd : pc'.delBatch = pc.delBatch) (ha : pc'.addBatch = pc.addBatch) (x : α) (o : ρ) :
    ∃ b, client.Moves (world (view k x ⟨objs, adds, dels, pc⟩)) b (hist k x [e])
        (world (view k x ⟨objs, adds, dels, pc'⟩)) ∧
      ∀ r, b = .user r → (Act.exec o : Act α ρ) = .request r x ∧ k.mute x = false := by
  have hv : view k x ⟨objs, adds, dels, pc'⟩ = { view k x ⟨objs, adds, dels, pc⟩ with
      todo := [] } := by
    simp only [view, hd, ha, ht']
  by_cases hy : y = x
  · have hh : hist k x [e] = [.callback a] := by simp [hist, he, hy]
    rw [hv, hh]
    refine ⟨.callback () (), client_callback ?_, fun r hr => by cases hr⟩
    show pc.todo k x = [a]
    rw [ht, if_pos hy]
  · have hh : hist k x [e] = [] := by simp [hist, he, hy]
    refine same_view (.exec o) hh ?_
    rw [hv]
    have htx : pc.todo k x = [] := by rw [ht, if_neg hy]
    simp only [view, htx]

theorem exec_view {o : ρ} (h : exec k o s = ⟨evs, .ok s'⟩) (x : α) :
    ∃ b, client.Moves (world (view k x s)) b (hist k x evs) (world (view k x s')) ∧
      ∀ r, b = .user r → (Act.exec o : Act α ρ) = .request r x ∧ k.mute x = false := by
  obtain ⟨objs, adds, dels, pc⟩ := s
  cases pc with
  | out =>
    cases h
    exact same_view _ rfl rfl
  | testDel =>
    cases h
    refine same_view _ rfl ?_
    by_cases hd : dels = [] <;> simp [view, hd, Pc.delBatch, Pc.addBatch, Pc.todo]
  | swapDel =>
    cases h
    refine same_view _ rfl ?_
    simp [view, Pc.delBatch, Pc.addBatch, Pc.todo]
  | dels rest =>
    cases rest with
    | nil =>
      cases h
      exact same_view _ rfl rfl
    | cons y rest =>
      by_cases hy : y ∈ objs
      · simp only [exec, Eff.require_pos hy, Eff.pure_bind] at h
        cases h
        exact dels_view hy x o
      · simp only [exec, Eff.require_neg hy, Eff.abort_bind] at h
        cases h
  | deled y rest =>
    cases h
    exact callback_view (.handleDeled y) (.deled y rest) (.dels rest) (fun _ => rfl) (fun _ => rfl)
      (fun _ => rfl) rfl rfl x o
  | testAdd =>
    cases h
    refine same_view _ rfl ?_
    by_cases hd : adds = [] <;> simp [view, hd, Pc.delBatch, Pc.addBatch, Pc.todo]
  | swapAdd =>
    cases h
    refine same_view _ rfl ?_
    simp [view, Pc.delBatch, Pc.addBatch, Pc.todo]
  | adds rest =>
    cases rest with
    | nil =>
      cases h
      exact same_view _ rfl rfl
    | cons y rest =>
      by_cases hok : k.ok o = true
      · by_cases hy : y ∉ objs
        · simp only [exec, hok, if_true, Eff.require_pos hy, Eff.pure_bind] at h
          cases h
          exact adds_view (by rw [if_pos hok]) x
        · simp only [exec, hok, if_true, Eff.require_neg hy, Eff.abort_bind] at h
          cases h
      · simp only [exec, if_neg hok] at h
        cases h
        exact adds_view (by rw [if_neg hok]) x
  | added y i32Ret rest =>
    cases h
    exact callback_view (.handleAdded y i32Ret) (.added y i32Ret rest) (.adds rest) (fun _ => rfl)
      (fun _ => rfl) (fun _ => rfl) rfl rfl x o
  | events =>
    cases h
    exact same_view _ rfl rfl

/-- **A step, seen from one object**, is one that `Notifier.Class.Moves` allows, and a request there
is a request of the object here. -/
theorem step_view {a : Act α ρ} (h : step k a s = ⟨evs, .ok s'⟩) (x : α) :
    ∃ b, client.Moves (world (view k x s)) b (hist k x evs) (world (view k x s')) ∧
      ∀ r, b = .user r → a = .request r x ∧ k.mute x = false := by
  cases a with
  | request r y => exact request_view h x
  | exec o => exact exec_view h x

theorem exec_fault {o : ρ} {f : Fault} (h : exec k o s = ⟨evs, .error f⟩) :
    ∃ x, 0 < (view k x s).dels ∧ (view k x s).inSet = false ∨
      0 < (view k x s).adds ∧ (view k x s).inSet = true := by
  obtain ⟨objs, adds, dels, pc⟩ := s
  cases pc with
  | dels rest =>
    cases rest with
    | nil => cases h
    | cons y rest =>
      have hy : y ∉ objs := by
        intro hy
        simp only [exec, Eff.require_pos hy, Eff.pure_bind] at h
        cases h
      refine ⟨y, Or.inl ⟨?_, by simpa [view] using hy⟩⟩
      simp only [view, Pc.delBatch, List.count_cons_self]
      omega
  | adds rest =>
    cases rest with
    | nil => cases h
    | cons y rest =>
      have hy : y ∈ objs := by
        by_contra hy
        by_cases hok : k.ok o = true
        · simp only [exec, hok, if_true, Eff.require_pos hy, Eff.pure_bind] at h
          cases h
        · simp only [exec, if_neg hok] at h
          cases h
      refine ⟨y, Or.inr ⟨?_, by simpa [view] using hy⟩⟩
      simp only [view, Pc.addBatch, List.count_cons_self]
      omega
  | out => cases h
  | testDel => cases h
  | swapDel => cases h
  | deled y rest => cases h
  | testAdd => cases h
  | swapAdd => cases h
  | added y i32Ret rest => cases h
  | events => cases h

/-- **Where an assert fails**: a del of an object that is not in the set, or an add of one that
is. -/
theorem step_fault {a : Act α ρ} {f : Fault} (h : step k a s = ⟨evs, .error f⟩) :
    ∃ x, 0 < (view k x s).dels ∧ (view k x s).inSet = false ∨
      0 < (view k x s).adds ∧ (view k x s).inSet = true := by
  cases a with
  | request r y =>
    simp only [step, request] at h
    split_ifs at h <;> cases h
  | exec o => exact exec_fault h

end Views

end SmartNet.Framework.Deferred
