import SmartNet.Lib.Process

/-! # Notifiers

`CEpoll` and `CTimeNotifier`, seen from one of their objects. `add_ioobj`, `del_ioobj` (`add_timer`,
`del_timer`) push the object into a cache. `exec` takes it out again: a del erases it from the set
and answers with a callback, an add asks `epoll_ctl`, inserts it if that succeeded and answers with
a callback; for an object in the set it collects the events of `epoll_wait` (or the tick of the
timer) and then makes the callback. Between any two of these steps other threads may call the
object.

* The order of `exec` is not fixed here: a notifier takes any request of its caches whenever it has
  no callback of the object left to make (`todo`), so what holds of all runs holds of those in the
  order of `exec`.
* A `Class` says what the calls of a class of objects do; its effects contain the requests (`req`).
* `Idle`, `Leaving`: what a notifier can hold of a registered object;
* `step_moves`, `step_fails`: everything a step can do;
* `Fits`: what a notifier holds of an object at a stage of its registration, where each request is
  made at its stage and no registration fails; `fits_submit`, `Fits.del`, `Fits.add`,
  `Fits.collect`, `Fits.pop`: how the stages go on. -/

namespace SmartNet.Framework.Notifier

open SmartNet.Lib

/-- What a notifier holds of the object: whether it is in the set, how often it is in the two
caches, and the callbacks the notifier's thread still makes before it looks at its caches again. -/
structure Ntf (τ : Type) where
  inSet : Bool
  adds : ℕ
  dels : ℕ
  todo : List τ
  deriving DecidableEq

/-- What is pushed. -/
inductive Req
  | add
  | del
  deriving DecidableEq

/-- How a process with notifiers ends: an assert of the object, or `CMN_ASSERT(1 == stRet)`,
`CMN_ASSERT(pairRet.second)` of `exec`. -/
inductive Crash (φ : Type)
  | inObj (f : φ)
  | erase
  | insert
  deriving DecidableEq

/-- The object and its notifiers. -/
structure World (κ σ τ : Type) where
  obj : σ
  ntf : κ → Ntf τ

/-- A step: a call of another thread, or a step of a notifier's thread. -/
inductive Act (κ τ υ ω : Type)
  | user (u : υ)
  | takeDel (k : κ)
  | takeAdd (k : κ) (ok : Bool)
  | collect (k : κ) (t : τ)
  | callback (k : κ) (o : ω)

/-- A class of objects. `o : ω` is what the environment contributes to a callback. -/
structure Class (κ σ τ υ ω ε φ : Type) where
  /-- a call of another thread -/
  user : υ → σ → Eff ε φ σ
  /-- a callback of a notifier -/
  callback : τ → ω → σ → Eff ε φ σ
  /-- `get_ioobj_handle`, as far as it can end the process -/
  handle : κ → σ → Option φ
  /-- the callbacks that answer an add, if it can end this way -/
  added : κ → Bool → Option (List τ)
  /-- the callbacks that answer a del -/
  deled : κ → List τ
  /-- the callbacks of the events of an object in the set -/
  isEvt : κ → τ → Bool
  /-- the requests among the effects -/
  req : ε → Option (κ × Req)

namespace Ntf

variable {τ : Type}

/-- Nothing of the object. -/
def clean : Ntf τ := ⟨false, 0, 0, []⟩

/-- A request is pushed. -/
def push (n : Ntf τ) : Req → Ntf τ
  | .add => { n with adds := n.adds + 1 }
  | .del => { n with dels := n.dels + 1 }

end Ntf

/-- The stages of a registration. -/
inductive Stage
  | out
  | adding
  | registered
  | leaving
  deriving DecidableEq

/-- The stage a request is made at, -/
def Req.before : Req → Stage
  | .add => .out
  | .del => .registered

/-- and the stage it leads to. -/
def Req.after : Req → Stage
  | .add => .adding
  | .del => .leaving

namespace Class

variable {κ σ τ υ ω ε φ : Type} (c : Class κ σ τ υ ω ε φ)

/-- `get_ioobj_handle`, then an assert, then `w`. -/
def guarded (k : κ) (s : σ) (p : Prop) [Decidable p] (e : Crash φ) (w : World κ σ τ) :
    Eff ε (Crash φ) (World κ σ τ) :=
  match c.handle k s with
  | some f => Eff.abort (.inObj f)
  | none => if p then pure w else Eff.abort e

theorem guarded_refused {k : κ} {s : σ} {f : φ} (h : c.handle k s = some f) (p : Prop) [Decidable p]
    (e : Crash φ) (w : World κ σ τ) : c.guarded k s p e w = ⟨[], .error (.inObj f)⟩ := by
  unfold guarded
  rw [h]
  rfl

theorem guarded_fails {k : κ} {s : σ} {p : Prop} [Decidable p] (h : c.handle k s = none) (hp : ¬ p)
    (e : Crash φ) (w : World κ σ τ) : c.guarded k s p e w = ⟨[], .error e⟩ := by
  unfold guarded
  rw [h]
  exact if_neg hp

theorem guarded_ok {k : κ} {s : σ} {p : Prop} [Decidable p] {e : Crash φ} {w w' : World κ σ τ}
    (h : (c.guarded k s p e w).res = .ok w') : c.guarded k s p e w = ⟨[], .ok w⟩ ∧ p ∧ w' = w := by
  unfold guarded at h ⊢
  rcases hf : c.handle k s with _ | f <;> simp only [hf] at h ⊢
  · split_ifs at h ⊢ with hp
    · cases h; exact ⟨rfl, hp, rfl⟩
    · cases h
  · cases h

theorem guarded_error {k : κ} {s : σ} {p : Prop} [Decidable p] {e x : Crash φ} {w : World κ σ τ}
    (h : (c.guarded k s p e w).res = .error x) :
    (c.guarded k s p e w).evs = [] ∧
    ((∃ f, c.handle k s = some f ∧ x = .inObj f) ∨ ¬ p ∧ x = e) := by
  unfold guarded at h ⊢
  rcases hf : c.handle k s with _ | f <;> simp only [hf] at h ⊢
  · split_ifs at h ⊢ with hp
    cases h; exact ⟨rfl, Or.inr ⟨hp, rfl⟩⟩
  · cases h; exact ⟨rfl, Or.inl ⟨f, rfl, rfl⟩⟩

section Registered

/-- No callback to make, or that of a collected event. -/
def Quiet (k : κ) (ts : List τ) : Prop := ts = [] ∨ ∃ t, c.isEvt k t = true ∧ ts = [t]

/-- Registered, and nothing requested. -/
def Idle (k : κ) (n : Ntf τ) : Prop := ∃ ts, c.Quiet k ts ∧ n = ⟨true, 0, 0, ts⟩

/-- Registered, and a del requested. -/
def Leaving (k : κ) (n : Ntf τ) : Prop := ∃ ts, c.Quiet k ts ∧ n = ⟨true, 0, 1, ts⟩

/-- What a notifier holds of an object at a stage. -/
def Fits (k : κ) : Stage → Ntf τ → Prop
  | .out, n => n = .clean
  | .adding, n => n = ⟨false, 1, 0, []⟩ ∨ ∃ ts, c.added k true = some ts ∧ n = ⟨true, 0, 0, ts⟩
  | .registered, n => c.Idle k n
  | .leaving, n => c.Leaving k n ∨ n = ⟨false, 0, 0, c.deled k⟩

variable {c} {k : κ} {n : Ntf τ} {t : τ} {ts : List τ} {st : Stage}

theorem Quiet.cons (h : c.Quiet k (t :: ts)) : c.isEvt k t = true ∧ ts = [] := by
  rcases h with h | ⟨t', ht, h⟩ <;> cases h
  exact ⟨ht, rfl⟩

theorem idle : c.Idle k ⟨true, 0, 0, []⟩ := ⟨[], Or.inl rfl, rfl⟩

theorem leaving : c.Leaving k ⟨true, 0, 1, []⟩ := ⟨[], Or.inl rfl, rfl⟩

theorem Idle.push (h : c.Idle k n) : c.Leaving k (n.push .del) := by
  obtain ⟨ts, hts, rfl⟩ := h
  exact ⟨ts, hts, rfl⟩

theorem Idle.collect (h : c.Idle k n) (ht : c.isEvt k t = true) :
    c.Idle k { n with todo := [t] } := by
  obtain ⟨ts, -, rfl⟩ := h
  exact ⟨_, Or.inr ⟨t, ht, rfl⟩, rfl⟩

theorem Leaving.collect (h : c.Leaving k n) (ht : c.isEvt k t = true) :
    c.Leaving k { n with todo := [t] } := by
  obtain ⟨ts, -, rfl⟩ := h
  exact ⟨_, Or.inr ⟨t, ht, rfl⟩, rfl⟩

theorem Idle.pop (h : c.Idle k n) (ht : n.todo = t :: ts) :
    c.isEvt k t = true ∧ ({ n with todo := ts } : Ntf τ) = ⟨true, 0, 0, []⟩ := by
  obtain ⟨ts', hts, rfl⟩ := h
  cases ht
  obtain ⟨h1, rfl⟩ := hts.cons
  exact ⟨h1, rfl⟩

theorem Leaving.pop (h : c.Leaving k n) (ht : n.todo = t :: ts) :
    c.isEvt k t = true ∧ ({ n with todo := ts } : Ntf τ) = ⟨true, 0, 1, []⟩ := by
  obtain ⟨ts', hts, rfl⟩ := h
  cases ht
  obtain ⟨h1, rfl⟩ := hts.cons
  exact ⟨h1, rfl⟩

theorem Leaving.inSet (h : c.Leaving k n) : n.inSet = true ∧ n.dels = 1 ∧ n.adds = 0 := by
  obtain ⟨ts', -, rfl⟩ := h
  exact ⟨rfl, rfl, rfl⟩

theorem Fits.push {r : Req} (h : c.Fits k r.before n) : c.Fits k r.after (n.push r) := by
  cases r with
  | add =>
    obtain rfl : n = .clean := h
    exact Or.inl rfl
  | del => exact Or.inl (Idle.push h)

theorem Fits.del (h : c.Fits k st n) (hd : 0 < n.dels) :
    n.inSet = true ∧ c.Fits k st ⟨false, n.adds, n.dels - 1, c.deled k⟩ := by
  cases st with
  | out =>
    obtain rfl : n = .clean := h
    cases hd
  | adding => obtain rfl | ⟨ts, -, rfl⟩ := h <;> cases hd
  | registered =>
    obtain ⟨ts, -, rfl⟩ := h
    cases hd
  | leaving =>
    obtain ⟨ts, -, rfl⟩ | rfl := h
    · exact ⟨rfl, Or.inr rfl⟩
    · cases hd

theorem Fits.one_add (h : c.Fits k st n) (ha : 0 < n.adds) :
    st = .adding ∧ n = ⟨false, 1, 0, []⟩ := by
  cases st with
  | out =>
    obtain rfl : n = .clean := h
    cases ha
  | adding =>
    obtain rfl | ⟨ts, -, rfl⟩ := h
    · exact ⟨rfl, rfl⟩
    · cases ha
  | registered =>
    obtain ⟨ts, -, rfl⟩ := h
    cases ha
  | leaving => obtain ⟨ts, -, rfl⟩ | rfl := h <;> cases ha

theorem Fits.add (h : c.Fits k st n) (ha : 0 < n.adds) :
    n.inSet = false ∧ ∀ ts, c.added k true = some ts →
      c.Fits k st ⟨true, n.adds - 1, n.dels, ts⟩ := by
  obtain ⟨rfl, rfl⟩ := h.one_add ha
  exact ⟨rfl, fun ts hts => Or.inr ⟨ts, hts, rfl⟩⟩

theorem Fits.collect (h : c.Fits k st n) (htodo : n.todo = []) (hin : n.inSet = true)
    (he : c.isEvt k t = true)
    (hadd : c.added k true ≠ some []) : c.Fits k st { n with todo := [t] } := by
  cases st with
  | out =>
    obtain rfl : n = .clean := h
    cases hin
  | adding =>
    obtain rfl | ⟨ts, hts, rfl⟩ := h
    · cases hin
    · cases htodo
      exact absurd hts hadd
  | registered => exact Idle.collect h he
  | leaving =>
    obtain h | rfl := h
    · exact Or.inl (h.collect he)
    · cases hin

theorem Fits.pop (h : c.Fits k st n) (ht : n.todo = t :: ts) :
    (st = .adding ∧ c.added k true = some (t :: ts) ∧ n = ⟨true, 0, 0, t :: ts⟩) ∨
      (st = .leaving ∧ c.deled k = t :: ts ∧ n = ⟨false, 0, 0, t :: ts⟩) ∨
      c.isEvt k t = true ∧ c.Fits k st { n with todo := ts } := by
  cases st with
  | out =>
    obtain rfl : n = .clean := h
    cases ht
  | adding =>
    obtain rfl | ⟨ts, hts, rfl⟩ := h <;> cases ht
    exact Or.inl ⟨rfl, hts, rfl⟩
  | registered =>
    obtain ⟨he, hn⟩ := Idle.pop h ht
    rw [hn]
    exact Or.inr (Or.inr ⟨he, idle⟩)
  | leaving =>
    obtain h | rfl := h
    · obtain ⟨he, hn⟩ := h.pop ht
      rw [hn]
      exact Or.inr (Or.inr ⟨he, Or.inl leaving⟩)
    · have hd : c.deled k = t :: ts := ht
      exact Or.inr (Or.inl ⟨rfl, hd, by rw [hd]⟩)

end Registered

variable [DecidableEq κ]

/-- The notifiers after the requests. -/
def pushAll (ntf : κ → Ntf τ) (rs : List (κ × Req)) : κ → Ntf τ :=
  rs.foldl (fun ntf r => Function.update ntf r.1 ((ntf r.1).push r.2)) ntf

/-- The notifiers after the effects of a call. -/
def submit (ntf : κ → Ntf τ) (evs : List ε) : κ → Ntf τ := pushAll ntf (evs.filterMap c.req)

/-- The object and the notifiers after a call. -/
def after (ntf : κ → Ntf τ) (r : Eff ε φ σ) : Eff ε (Crash φ) (World κ σ τ) :=
  ⟨r.evs, match r.res with
    | .ok s => .ok ⟨s, c.submit ntf r.evs⟩
    | .error f => .error (.inObj f)⟩

/-- One step; one that is not possible does nothing. -/
def step : Act κ τ υ ω → World κ σ τ → Eff ε (Crash φ) (World κ σ τ)
  | .user u, w => c.after w.ntf (c.user u w.obj)
  | .takeDel k, w =>
    let n := w.ntf k
    if n.todo = [] ∧ 0 < n.dels then
      c.guarded k w.obj (n.inSet = true) .erase
        ⟨w.obj, Function.update w.ntf k ⟨false, n.adds, n.dels - 1, c.deled k⟩⟩
    else pure w
  | .takeAdd k ok, w =>
    let n := w.ntf k
    match c.added k ok with
    | none => pure w
    | some ts =>
      if n.todo = [] ∧ 0 < n.adds then
        c.guarded k w.obj (ok = true → n.inSet = false) .insert
          ⟨w.obj, Function.update w.ntf k ⟨ok || n.inSet, n.adds - 1, n.dels, ts⟩⟩
      else pure w
  | .collect k t, w =>
    let n := w.ntf k
    if n.todo = [] ∧ n.inSet = true ∧ c.isEvt k t = true then
      pure ⟨w.obj, Function.update w.ntf k { n with todo := [t] }⟩
    else pure w
  | .callback k o, w =>
    let n := w.ntf k
    match n.todo with
    | [] => pure w
    | t :: ts => c.after (Function.update w.ntf k { n with todo := ts }) (c.callback t o w.obj)

/-- What a step that the process survives can do. -/
inductive Moves (w : World κ σ τ) : Act κ τ υ ω → List ε → World κ σ τ → Prop
  | idle (a : Act κ τ υ ω) : Moves w a [] w
  | user (u : υ) {evs : List ε} {s : σ} (h : c.user u w.obj = ⟨evs, .ok s⟩) :
      Moves w (.user u) evs ⟨s, c.submit w.ntf evs⟩
  | takeDel (k : κ) (ht : (w.ntf k).todo = []) (hd : 0 < (w.ntf k).dels)
      (hin : (w.ntf k).inSet = true) :
      Moves w (.takeDel k) []
        ⟨w.obj, Function.update w.ntf k ⟨false, (w.ntf k).adds, (w.ntf k).dels - 1, c.deled k⟩⟩
  | takeAdd (k : κ) {ok : Bool} {ts : List τ} (ht : (w.ntf k).todo = []) (ha : 0 < (w.ntf k).adds)
      (hts : c.added k ok = some ts) :
      Moves w (.takeAdd k ok) [] ⟨w.obj, Function.update w.ntf k
        ⟨ok || (w.ntf k).inSet, (w.ntf k).adds - 1, (w.ntf k).dels, ts⟩⟩
  | collect (k : κ) {t : τ} (ht : (w.ntf k).todo = []) (hin : (w.ntf k).inSet = true)
      (he : c.isEvt k t = true) :
      Moves w (.collect k t) [] ⟨w.obj, Function.update w.ntf k { w.ntf k with todo := [t] }⟩
  | callback (k : κ) {o : ω} {t : τ} {ts : List τ} {evs : List ε} {s : σ}
      (ht : (w.ntf k).todo = t :: ts) (h : c.callback t o w.obj = ⟨evs, .ok s⟩) :
      Moves w (.callback k o) evs
        ⟨s, c.submit (Function.update w.ntf k { w.ntf k with todo := ts }) evs⟩

/-- How a step can end the process. -/
inductive Fails (w : World κ σ τ) : Act κ τ υ ω → List ε → Crash φ → Prop
  | user (u : υ) {evs : List ε} {f : φ} (h : c.user u w.obj = ⟨evs, .error f⟩) :
      Fails w (.user u) evs (.inObj f)
  | callback (k : κ) {o : ω} {t : τ} {ts : List τ} {evs : List ε} {f : φ}
      (ht : (w.ntf k).todo = t :: ts) (h : c.callback t o w.obj = ⟨evs, .error f⟩) :
      Fails w (.callback k o) evs (.inObj f)
  | handleDel (k : κ) {f : φ} (hd : 0 < (w.ntf k).dels) (h : c.handle k w.obj = some f) :
      Fails w (.takeDel k) [] (.inObj f)
  | handleAdd (k : κ) {ok : Bool} {f : φ} (hd : 0 < (w.ntf k).adds)
      (h : c.handle k w.obj = some f) :
      Fails w (.takeAdd k ok) [] (.inObj f)
  | erase (k : κ) (hd : 0 < (w.ntf k).dels) (h : (w.ntf k).inSet = false) :
      Fails w (.takeDel k) [] .erase
  | insert (k : κ) (hd : 0 < (w.ntf k).adds) (h : (w.ntf k).inSet = true) :
      Fails w (.takeAdd k true) [] .insert

theorem submit_nil {ntf : κ → Ntf τ} {evs : List ε} (h : evs.filterMap c.req = []) :
    c.submit ntf evs = ntf := by
  unfold submit
  rw [h]; rfl

theorem submit_one {ntf : κ → Ntf τ} {evs : List ε} {k : κ} {r : Req}
    (h : evs.filterMap c.req = [(k, r)]) :
    c.submit ntf evs = Function.update ntf k ((ntf k).push r) := by
  unfold submit
  rw [h]; rfl

theorem submit_append {ntf : κ → Ntf τ} {evs : List ε} {e : ε} (h : c.req e = none) :
    c.submit ntf (evs ++ [e]) = c.submit ntf evs := by
  unfold submit
  rw [List.filterMap_append, List.filterMap_cons_none h, List.filterMap_nil, List.append_nil]

/-- **The requests of a call**, if there are any, are made at their stages. -/
theorem fits_submit {ntf : κ → Ntf τ} {stage stage' : κ → Stage} {evs : List ε}
    (h : ∀ k, c.Fits k (stage k) (ntf k))
    (hreq : evs.filterMap c.req = [] ∧ stage' = stage ∨
      ∃ k r, evs.filterMap c.req = [(k, r)] ∧ stage k = r.before ∧
        stage' = Function.update stage k r.after) :
    ∀ k, c.Fits k (stage' k) (c.submit ntf evs k) := by
  obtain ⟨hevs, rfl⟩ | ⟨k, r, hevs, hbefore, rfl⟩ := hreq
  · rw [c.submit_nil hevs]
    exact h
  · rw [c.submit_one hevs]
    intro k'
    by_cases hk : k' = k
    · subst hk
      rw [Function.update_self, Function.update_self]
      exact (hbefore ▸ h k' : c.Fits k' r.before (ntf k')).push
    · rw [Function.update_of_ne hk, Function.update_of_ne hk]
      exact h k'

theorem fits_update {ntf : κ → Ntf τ} {stage : κ → Stage} {k : κ} {st : Stage} {n : Ntf τ}
    (h : ∀ k, c.Fits k (stage k) (ntf k)) (hk : c.Fits k st n) :
    ∀ k', c.Fits k' (Function.update stage k st k') (Function.update ntf k n k') := by
  intro k'
  by_cases hk' : k' = k
  · subst hk'
    rwa [Function.update_self, Function.update_self]
  · rw [Function.update_of_ne hk', Function.update_of_ne hk']
    exact h k'

theorem after_ok {ntf : κ → Ntf τ} {r : Eff ε φ σ} {w : World κ σ τ}
    (h : (c.after ntf r).res = .ok w) :
    ∃ s, r = ⟨r.evs, .ok s⟩ ∧ w = ⟨s, c.submit ntf r.evs⟩ := by
  obtain ⟨evs, e | s⟩ := r
  · cases h
  · cases h; exact ⟨s, rfl, rfl⟩

theorem after_error {ntf : κ → Ntf τ} {r : Eff ε φ σ} {e : Crash φ}
    (h : (c.after ntf r).res = .error e) :
    ∃ f, r = ⟨r.evs, .error f⟩ ∧ e = .inObj f := by
  obtain ⟨evs, f | s⟩ := r
  · cases h; exact ⟨f, rfl, rfl⟩
  · cases h

/-- **Everything a step can do** that the process survives. -/
theorem step_moves {a : Act κ τ υ ω} {w w' : World κ σ τ} (h : (c.step a w).res = .ok w') :
    c.Moves w a (c.step a w).evs w' := by
  cases a with
  | user u =>
    obtain ⟨s', hs, rfl⟩ := c.after_ok h
    exact .user u hs
  | takeDel k =>
    simp only [step] at h ⊢
    split_ifs at h ⊢ with hc
    · obtain ⟨heq, hin, rfl⟩ := c.guarded_ok h
      rw [heq]
      exact .takeDel k hc.1 hc.2 hin
    · cases h; exact .idle _
  | takeAdd k ok =>
    simp only [step] at h ⊢
    rcases hts : c.added k ok with _ | ts
    · simp only [hts] at h ⊢; cases h; exact .idle _
    · simp only [hts] at h ⊢
      split_ifs at h ⊢ with hc
      · obtain ⟨heq, -, rfl⟩ := c.guarded_ok h
        rw [heq]
        exact .takeAdd k hc.1 hc.2 hts
      · cases h; exact .idle _
  | collect k t =>
    simp only [step] at h ⊢
    split_ifs at h ⊢ with hc
    · cases h; exact .collect k hc.1 hc.2.1 hc.2.2
    · cases h; exact .idle _
  | callback k o =>
    simp only [step] at h ⊢
    rcases hn : (w.ntf k).todo with _ | ⟨t, ts⟩
    · simp only [hn] at h ⊢; cases h; exact .idle _
    · simp only [hn] at h ⊢
      obtain ⟨s', hs, rfl⟩ := c.after_ok h
      exact .callback k hn hs

/-- **Every way a step can end the process.** -/
theorem step_fails {a : Act κ τ υ ω} {w : World κ σ τ} {x : Crash φ}
    (h : (c.step a w).res = .error x) :
    c.Fails w a (c.step a w).evs x := by
  cases a with
  | user u =>
    obtain ⟨f, hs, rfl⟩ := c.after_error h
    exact .user u hs
  | takeDel k =>
    simp only [step] at h ⊢
    split_ifs at h ⊢ with hc
    obtain ⟨heq, ⟨f, hf, rfl⟩ | ⟨hin, rfl⟩⟩ := c.guarded_error h
    · rw [heq]; exact .handleDel k hc.2 hf
    · rw [heq]; exact .erase k hc.2 (by simpa using hin)
  | takeAdd k ok =>
    simp only [step] at h ⊢
    rcases hts : c.added k ok with _ | ts
    · simp only [hts] at h; cases h
    · simp only [hts] at h ⊢
      split_ifs at h ⊢ with hc
      obtain ⟨heq, ⟨f, hf, rfl⟩ | ⟨hin, rfl⟩⟩ := c.guarded_error h
      · rw [heq]; exact .handleAdd k hc.2 hf
      · rw [heq]
        obtain ⟨hok, hin'⟩ : ok = true ∧ (w.ntf k).inSet = true := by simpa using hin
        rw [hok]
        exact .insert k hc.2 hin'
  | collect k t =>
    simp only [step] at h
    split_ifs at h
  | callback k o =>
    simp only [step] at h ⊢
    rcases hn : (w.ntf k).todo with _ | ⟨t, ts⟩
    · simp only [hn] at h; cases h
    · simp only [hn] at h ⊢
      obtain ⟨f, hs, rfl⟩ := c.after_error h
      exact .callback k hn hs

/-- **A step as a triple.** -/
theorem step_triple {a : Act κ τ υ ω} {P Q : List ε → World κ σ τ → Prop}
    {F : List ε → Crash φ → Prop}
    (hmoves : ∀ log w evs w', P log w → c.Moves w a evs w' → Q (log ++ evs) w')
    (hfails : ∀ log w evs x, P log w → c.Fails w a evs x → F (log ++ evs) x) :
    Eff.Triple P (c.step a) Q F := by
  refine .of (fun log w evs w' hP h => ?_) fun log w evs x hP h => ?_
  · have hm := c.step_moves (show (c.step a w).res = .ok w' by rw [h])
    rw [h] at hm
    exact hmoves log w evs w' hP hm
  · have hf := c.step_fails (show (c.step a w).res = .error x by rw [h])
    rw [h] at hf
    exact hfails log w evs x hP hf

end Class

end SmartNet.Framework.Notifier
