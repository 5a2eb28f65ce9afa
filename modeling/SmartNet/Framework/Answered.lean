import SmartNet.Framework.Deferred

/-! # Every request is answered

The runs of a notifier in which an object's requests are made one at a time: an add when the last
callback of the object was that of a del or of an add that failed, or there was none, a del when it
was that of an add that succeeded, and either only when all earlier requests of the object are
answered.

* `Fits`, `Told`: what the notifier holds of an object at a stage of its registration, and what the
  history of the object says then; `inv_call`: a step keeps both;
* `Due`: the objects the `exec` that is going on still comes to; `due_exec`: it comes closer to each
  of them;
* `serves`: what the objects get of such a run;
* `two_adds`: without the last condition they do not. -/

namespace SmartNet.Framework.Deferred

open SmartNet.Lib SmartNet.Framework.Notifier

variable {α ρ : Type}

/-! ### The stages of a registration -/

/-- What a notifier holds of an object at a stage. -/
def Fits : Stage → Ntf Answer → Prop
  | .out, n => n = .clean
  | .adding, n => n = ⟨false, 1, 0, []⟩ ∨ ∃ ok, n = ⟨ok, 0, 0, [.added ok]⟩
  | .registered, n => n = ⟨true, 0, 0, []⟩
  | .leaving, n => n = ⟨true, 0, 1, []⟩ ∨ n = ⟨false, 0, 0, [.deled]⟩

/-- The request that is not answered yet. -/
def openReq : Stage → List Req
  | .out => []
  | .adding => [.add]
  | .registered => []
  | .leaving => [.del]

/-- Whether the last callback was that of a successful add. -/
def isIn : Stage → Bool
  | .out => false
  | .adding => false
  | .registered => true
  | .leaving => true

/-- What the history of an object says at a stage: the requests were answered in their order, but
for the open one. -/
structure Told (st : Stage) (h : List ObjEv) : Prop where
  requests : requests h = (callbacks h).map Answer.req ++ openReq st
  lastAdded : lastAdded h = isIn st

/-- **The invariant** of an object. -/
def Inv (n : Ntf Answer) (h : List ObjEv) : Prop := ∃ st, Fits st n ∧ Told st h

/-- A request may be made: the object's requests are all answered, an add after no add that
succeeded, a del after one. -/
def MayAsk (r : Req) (h : List ObjEv) : Prop := NoneOpen h ∧ lastAdded h = decide (r = .del)

instance (r : Req) (h : List ObjEv) : Decidable (MayAsk r h) :=
  inferInstanceAs (Decidable (NoneOpen h ∧ lastAdded h = decide (r = .del)))

section Stages

variable {st : Stage} {n : Ntf Answer} {h : List ObjEv} {r : Req} {a : Answer}

theorem requests_append (h h' : List ObjEv) :
    requests (h ++ h') = requests h ++ requests h' := List.filterMap_append ..

theorem callbacks_append (h h' : List ObjEv) :
    callbacks (h ++ h') = callbacks h ++ callbacks h' := List.filterMap_append ..

theorem lastAdded_request : lastAdded (h ++ [.request r]) = lastAdded h := by
  have hc : callbacks (h ++ [.request r]) = callbacks h := by
    rw [callbacks_append]
    exact List.append_nil _
  unfold lastAdded
  rw [hc]

theorem lastAdded_callback : lastAdded (h ++ [.callback a]) = decide (a = .added true) := by
  have hc : callbacks (h ++ [.callback a]) = callbacks h ++ [a] := callbacks_append h _
  unfold lastAdded
  rw [hc, List.getLast?_concat]
  simp

theorem Told.stage (ht : Told st h) (hm : MayAsk r h) : st = r.before := by
  obtain ⟨ho, hl⟩ := hm
  have hlen : (openReq st).length = 0 := by
    have := congrArg List.length ht.requests
    rw [List.length_append, List.length_map, ho] at this
    omega
  have hin : isIn st = decide (r = .del) := by rw [← ht.lastAdded, hl]
  cases r <;> cases st <;> simp_all [openReq, isIn, Req.before]

theorem Told.request (ht : Told r.before h) : Told r.after (h ++ [.request r]) := by
  have hopen : openReq r.before = [] ∧ openReq r.after = [r] ∧ isIn r.after = isIn r.before := by
    cases r <;> exact ⟨rfl, rfl, rfl⟩
  have hc : callbacks (h ++ [.request r]) = callbacks h := by
    rw [callbacks_append]
    exact List.append_nil _
  constructor
  · rw [requests_append, ht.requests, hc, hopen.1, hopen.2.1, List.append_nil]
    rfl
  · rw [lastAdded_request, ht.lastAdded, hopen.2.2]

theorem Told.callback {st' : Stage} (ht : Told st h) (ho : openReq st = [a.req])
    (ho' : openReq st' = []) (hin : isIn st' = decide (a = .added true)) :
    Told st' (h ++ [.callback a]) := by
  have hc : callbacks (h ++ [.callback a]) = callbacks h ++ [a] := callbacks_append h _
  constructor
  · rw [requests_append, ht.requests, hc, ho, ho', List.map_append, List.append_nil]
    exact List.append_nil _
  · rw [lastAdded_callback, hin]

theorem Fits.push (hf : Fits r.before n) : Fits r.after (n.push r) := by
  cases r with
  | add =>
    obtain rfl : n = .clean := hf
    exact Or.inl rfl
  | del =>
    obtain rfl : n = ⟨true, 0, 0, []⟩ := hf
    exact Or.inl rfl

theorem Fits.takeDel (hf : Fits st n) (hd : 0 < n.dels) :
    n.inSet = true ∧ Fits st ⟨false, n.adds, n.dels - 1, [.deled]⟩ := by
  cases st with
  | out =>
    obtain rfl : n = .clean := hf
    cases hd
  | adding => obtain rfl | ⟨ok, rfl⟩ := hf <;> cases hd
  | registered =>
    obtain rfl : n = ⟨true, 0, 0, []⟩ := hf
    cases hd
  | leaving =>
    obtain rfl | rfl := hf
    · exact ⟨rfl, Or.inr rfl⟩
    · cases hd

theorem Fits.takeAdd (hf : Fits st n) (ha : 0 < n.adds) (ok : Bool) :
    n.inSet = false ∧ Fits st ⟨ok || n.inSet, n.adds - 1, n.dels, [.added ok]⟩ := by
  cases st with
  | out =>
    obtain rfl : n = .clean := hf
    cases ha
  | adding =>
    obtain rfl | ⟨ok', rfl⟩ := hf
    · refine ⟨rfl, Or.inr ⟨ok, ?_⟩⟩
      rw [Bool.or_false]
      rfl
    · cases ha
  | registered =>
    obtain rfl : n = ⟨true, 0, 0, []⟩ := hf
    cases ha
  | leaving => obtain rfl | rfl := hf <;> cases ha

theorem Fits.callback {ts : List Answer} (hf : Fits st n) (ht : n.todo = a :: ts) :
    ∃ st', openReq st = [a.req] ∧ openReq st' = [] ∧ isIn st' = decide (a = .added true) ∧
      Fits st' { n with todo := ts } := by
  cases st with
  | out =>
    obtain rfl : n = .clean := hf
    cases ht
  | adding =>
    obtain rfl | ⟨ok, rfl⟩ := hf <;> cases ht
    cases ok with
    | false => exact ⟨.out, rfl, rfl, rfl, rfl⟩
    | true => exact ⟨.registered, rfl, rfl, rfl, rfl⟩
  | registered =>
    obtain rfl : n = ⟨true, 0, 0, []⟩ := hf
    cases ht
  | leaving =>
    obtain rfl | rfl := hf <;> cases ht
    exact ⟨.out, rfl, rfl, rfl, rfl⟩

/-- **What a notifier does with an object** keeps the invariant. -/
theorem Inv.moves {w w' : World Unit Unit Answer} {b : Notifier.Act Unit Answer Req Unit}
    {evs : List ObjEv} (hm : client.Moves w b evs w') (hi : Inv (w.ntf ()) h)
    (hask : ∀ r, b = .user r → MayAsk r h) : Inv (w'.ntf ()) (h ++ evs) := by
  obtain ⟨st, hf, ht⟩ := hi
  cases hm with
  | idle a =>
    rw [List.append_nil]
    exact ⟨st, hf, ht⟩
  | user r hu =>
    obtain rfl : st = r.before := ht.stage (hask r rfl)
    cases hu
    refine ⟨r.after, ?_, ht.request⟩
    show Fits r.after (client.submit w.ntf [.request r] ())
    rw [client.submit_one rfl, Function.update_self]
    exact hf.push
  | takeDel k htodo hd hin =>
    rw [List.append_nil]
    refine ⟨st, ?_, ht⟩
    show Fits st (Function.update w.ntf () _ ())
    rw [Function.update_self]
    exact (hf.takeDel hd).2
  | takeAdd k htodo ha hts =>
    cases hts
    rw [List.append_nil]
    refine ⟨st, ?_, ht⟩
    show Fits st (Function.update w.ntf () _ ())
    rw [Function.update_self]
    exact (hf.takeAdd ha _).2
  | collect k htodo hin he => cases he
  | @callback k o t ts evs s htodo hc =>
    cases hc
    obtain ⟨st', h1, h2, h3, h4⟩ := hf.callback htodo
    refine ⟨st', ?_, ht.callback h1 h2 h3⟩
    show Fits st' (client.submit (Function.update w.ntf () _) [.callback t] ())
    rw [client.submit_nil rfl, Function.update_self]
    exact h4

end Stages

/-! ### Runs -/

section Runs

variable [DecidableEq α] {k : Kind α ρ}

/-- A request is made where it may be. -/
def Allowed (k : Kind α ρ) (p : Proc (St α ρ) (Ev α ρ) Fault) : Act α ρ → Prop
  | .request r x => k.mute x = false → MayAsk r (hist k x p.log)
  | .exec _ => True

instance (p : Proc (St α ρ) (Ev α ρ) Fault) : ∀ a, Decidable (Allowed k p a)
  | .request r x => inferInstanceAs (Decidable (k.mute x = false → MayAsk r (hist k x p.log)))
  | .exec _ => .isTrue trivial

/-- Every request of the run is made where it may be. -/
def Disciplined (k : Kind α ρ) (as : List (Act α ρ)) : Prop :=
  Run.Meets (fun p a => p.call (step k a)) (Allowed k) ⟨{}, [], none⟩ as

instance (as : List (Act α ρ)) : Decidable (Disciplined k as) :=
  inferInstanceAs (Decidable (Run.Meets _ _ _ as))

/-- No assert failed, and the invariant holds of every object. -/
def Good (k : Kind α ρ) (p : Proc (St α ρ) (Ev α ρ) Fault) : Prop :=
  p.fault = none ∧ ∀ x, Inv (view k x p.obj) (hist k x p.log)

theorem hist_append (x : α) (log log' : List (Ev α ρ)) :
    hist k x (log ++ log') = hist k x log ++ hist k x log' := List.filterMap_append ..

theorem inv_assert {n : Ntf Answer} {h : List ObjEv} (hi : Inv n h) :
    (0 < n.dels → n.inSet = true) ∧ (0 < n.adds → n.inSet = false) := by
  obtain ⟨st, hf, -⟩ := hi
  exact ⟨fun hd => (hf.takeDel hd).1, fun ha => (hf.takeAdd ha true).1⟩

/-- **A step** of a run that keeps to the discipline keeps the invariant. -/
theorem inv_call {p : Proc (St α ρ) (Ev α ρ) Fault} {a : Act α ρ} (h : Good k p)
    (ha : Allowed k p a) : Good k (p.call (step k a)) := by
  obtain ⟨hp, hinv⟩ := h
  rcases hs : step k a p.obj with ⟨evs, f | s'⟩
  · exfalso
    obtain ⟨x, ⟨hd, hin⟩ | ⟨ha, hin⟩⟩ := step_fault hs
    · rw [(inv_assert (hinv x)).1 hd] at hin; cases hin
    · rw [(inv_assert (hinv x)).2 ha] at hin; cases hin
  · have hc : p.call (step k a) = ⟨s', p.log ++ evs, none⟩ := by
      rw [Proc.call_ok hp (by rw [hs]), hs]
    rw [hc]
    refine ⟨rfl, fun x => ?_⟩
    obtain ⟨b, hm, hb⟩ := step_view hs x
    show Inv (view k x s') (hist k x (p.log ++ evs))
    rw [hist_append]
    refine (hinv x : Inv ((world (view k x p.obj)).ntf ()) _).moves hm fun r hr => ?_
    obtain ⟨rfl, hmute⟩ := hb r hr
    exact ha hmute

theorem good_init : Good k (⟨{}, [], none⟩ : Proc (St α ρ) (Ev α ρ) Fault) := by
  refine ⟨rfl, fun x => ⟨.out, rfl, rfl, rfl⟩⟩

/-- **Runs** that keep to the discipline. -/
theorem good_run {as : List (Act α ρ)} (h : Disciplined k as) : Good k (run k as) :=
  (Run.run_inv_meets (I := Good k) (B := fun _ => True) (D := fun _ _ => True)
    (fun _ _ _ => trivial) (fun _ _ hi ha _ => ⟨inv_call hi ha, trivial⟩) good_init h trivial).1

end Runs

/-! ### What one `exec` answers -/

/-- The dels are not swapped out yet. -/
def Pc.beforeDels : Pc α ρ → Bool
  | .testDel => true
  | .swapDel => true
  | _ => false

/-- The adds are not swapped out yet. -/
def Pc.beforeAdds : Pc α ρ → Bool
  | .testDel => true
  | .swapDel => true
  | .dels _ => true
  | .deled _ _ => true
  | .testAdd => true
  | .swapAdd => true
  | _ => false

/-- Where the objects are that an `exec` still comes to. -/
def Pc.stillDue (x : α) (adds dels : List α) : Pc α ρ → Prop
  | .out => False
  | .testDel => x ∈ dels ∨ x ∈ adds
  | .swapDel => x ∈ dels ∨ x ∈ adds
  | .dels rest => x ∈ rest ∨ x ∈ adds
  | .deled y rest => y = x ∨ x ∈ rest ∨ x ∈ adds
  | .testAdd => x ∈ adds
  | .swapAdd => x ∈ adds
  | .adds rest => x ∈ rest
  | .added y _ rest => y = x ∨ x ∈ rest
  | .events => False

theorem Pc.stillDue_mono {pc : Pc α ρ} {x : α} {adds adds' dels dels' : List α}
    (ha : adds ⊆ adds') (hd : dels ⊆ dels') (h : pc.stillDue x adds dels) :
    pc.stillDue x adds' dels' := by
  cases pc with
  | out => exact h
  | testDel => exact h.imp (@hd x) (@ha x)
  | swapDel => exact h.imp (@hd x) (@ha x)
  | dels rest => exact h.imp_right (@ha x)
  | deled y rest => exact h.imp_right (Or.imp_right (@ha x))
  | testAdd => exact ha h
  | swapAdd => exact ha h
  | adds rest => exact h
  | added y i32Ret rest => exact h
  | events => exact h

section Exec

variable [DecidableEq α] {k : Kind α ρ} {x : α} {s s' : St α ρ} {evs : List (Ev α ρ)}

/-- The `exec` that is going on still comes to the object. -/
def Due (k : Kind α ρ) (x : α) (s : St α ρ) : Prop :=
  s.pc.todo k x ≠ [] ∨ x ∈ s.pc.delBatch ∨ x ∈ s.pc.addBatch ∨
    (s.pc.beforeDels = true ∧ x ∈ s.vecDelCache) ∨ s.pc.beforeAdds = true ∧ x ∈ s.vecAddCache

theorem due_iff (s : St α ρ) : Due k x s ↔ s.pc.stillDue x s.vecAddCache s.vecDelCache := by
  obtain ⟨objs, adds, dels, pc⟩ := s
  cases pc <;>
    simp [Due, Pc.todo, Pc.delBatch, Pc.addBatch, Pc.beforeDels, Pc.beforeAdds, Pc.stillDue]

theorem due_request {r : Req} {y : α} (h : request k r y s = ⟨evs, .ok s'⟩) (hd : Due k x s) :
    Due k x s' := by
  unfold request at h
  split_ifs at h
  · cases h
    exact hd
  · cases h
    rw [due_iff] at hd ⊢
    cases r with
    | add => exact Pc.stillDue_mono (List.subset_append_left _ _) (List.Subset.refl _) hd
    | del => exact Pc.stillDue_mono (List.Subset.refl _) (List.subset_append_left _ _) hd

/-- **A step of `exec`** comes closer to an object it still comes to, or makes its callback. -/
theorem due_exec {o : ρ} (h : exec k o s = ⟨evs, .ok s'⟩) (hd : Due k x s) :
    Due k x s' ∨ ∃ a, hist k x evs = [.callback a] := by
  rw [due_iff] at hd ⊢
  obtain ⟨objs, adds, dels, pc⟩ := s
  cases pc with
  | out => cases hd
  | events => cases hd
  | testDel =>
    cases h
    left
    show Pc.stillDue x adds dels (if dels = [] then .testAdd else .swapDel)
    split_ifs with hnil
    · exact hd.resolve_left (by rw [hnil]; exact List.not_mem_nil)
    · exact hd
  | swapDel =>
    cases h
    exact Or.inl hd
  | dels rest =>
    left
    cases rest with
    | nil =>
      cases h
      exact hd.resolve_left List.not_mem_nil
    | cons y rest =>
      by_cases hy : y ∈ objs
      · simp only [exec, Eff.require_pos hy, Eff.pure_bind] at h
        cases h
        rcases hd with hd | hd
        · rcases List.mem_cons.mp hd with rfl | hd
          · exact Or.inl rfl
          · exact Or.inr (Or.inl hd)
        · exact Or.inr (Or.inr hd)
      · simp only [exec, Eff.require_neg hy, Eff.abort_bind] at h
        cases h
  | deled y rest =>
    cases h
    by_cases hy : y = x
    · have hh : hist k x [.handleDeled y] = [.callback .deled] := by simp [hist, seen, hy]
      exact Or.inr ⟨.deled, hh⟩
    · exact Or.inl (Or.resolve_left hd hy)
  | testAdd =>
    cases h
    left
    show Pc.stillDue x adds dels (if adds = [] then .events else .swapAdd)
    rw [if_neg (List.ne_nil_of_mem hd)]
    exact hd
  | swapAdd =>
    cases h
    exact Or.inl hd
  | adds rest =>
    left
    cases rest with
    | nil => cases hd
    | cons y rest =>
      have hdue : y = x ∨ x ∈ rest := (List.mem_cons.mp hd).imp_left Eq.symm
      by_cases hok : k.ok o = true
      · by_cases hy : y ∉ objs
        · simp only [exec, hok, if_true, Eff.require_pos hy, Eff.pure_bind] at h
          cases h
          exact hdue
        · simp only [exec, hok, if_true, Eff.require_neg hy, Eff.abort_bind] at h
          cases h
      · simp only [exec, if_neg hok] at h
        cases h
        exact hdue
  | added y i32Ret rest =>
    cases h
    by_cases hy : y = x
    · have hh : hist k x [.handleAdded y i32Ret] = [.callback (.added (k.ok i32Ret))] := by
        simp [hist, seen, hy]
      exact Or.inr ⟨.added (k.ok i32Ret), hh⟩
    · exact Or.inl (Or.resolve_left hd hy)

theorem exec_ret {o : ρ} (h : exec k o s = ⟨evs, .ok s'⟩) :
    (s.pc = .out ∧ evs = [.call] ∧ s' = { s with pc := .testDel }) ∨
      (s.pc = .events ∧ evs = [.ret] ∧ s' = { s with pc := .out }) ∨ s.pc ≠ .out ∧ .ret ∉ evs := by
  obtain ⟨objs, adds, dels, pc⟩ := s
  cases pc with
  | out =>
    cases h
    exact Or.inl ⟨rfl, rfl, rfl⟩
  | events =>
    cases h
    exact Or.inr (Or.inl ⟨rfl, rfl, rfl⟩)
  | testDel =>
    cases h
    exact Or.inr (Or.inr ⟨by simp, by simp⟩)
  | swapDel =>
    cases h
    exact Or.inr (Or.inr ⟨by simp, by simp⟩)
  | dels rest =>
    refine Or.inr (Or.inr ⟨by simp, fun hr => ?_⟩)
    cases rest with
    | nil =>
      cases h
      cases hr
    | cons y rest =>
      have he : (exec k o ⟨objs, adds, dels, .dels (y :: rest)⟩).evs = [] :=
        Eff.bind_evs_nil (Eff.require_evs _ _) fun _ => rfl
      have he' : evs = [] := by rwa [h] at he
      rw [he'] at hr
      cases hr
  | deled y rest =>
    cases h
    refine Or.inr (Or.inr ⟨by simp, fun hr => ?_⟩)
    obtain hr := List.mem_singleton.mp (hr : Ev.ret ∈ [.handleDeled y])
    cases hr
  | testAdd =>
    cases h
    exact Or.inr (Or.inr ⟨by simp, by simp⟩)
  | swapAdd =>
    cases h
    exact Or.inr (Or.inr ⟨by simp, by simp⟩)
  | adds rest =>
    refine Or.inr (Or.inr ⟨by simp, fun hr => ?_⟩)
    cases rest with
    | nil =>
      cases h
      cases hr
    | cons y rest =>
      have he : (exec k o ⟨objs, adds, dels, .adds (y :: rest)⟩).evs = [] := by
        simp only [exec]
        split_ifs
        · exact Eff.bind_evs_nil (Eff.require_evs _ _) fun _ => rfl
        · rfl
      have he' : evs = [] := by rwa [h] at he
      rw [he'] at hr
      cases hr
  | added y i32Ret rest =>
    cases h
    refine Or.inr (Or.inr ⟨by simp, fun hr => ?_⟩)
    obtain hr := List.mem_singleton.mp (hr : Ev.ret ∈ [.handleAdded y i32Ret])
    cases hr

theorem not_due_events (h : s.pc = .events) : ¬ Due k x s := by
  rw [due_iff, h]
  exact id

theorem due_call {h : List ObjEv} (hi : Inv (view k x s) h) (hout : s.pc = .out) :
    (requests h).length = (callbacks h).length ∨
      (requests h).length = (callbacks h).length + 1 ∧ Due k x { s with pc := .testDel } := by
  obtain ⟨st, hf, ht⟩ := hi
  have hlen : (requests h).length = (callbacks h).length + (openReq st).length := by
    have := congrArg List.length ht.requests
    rwa [List.length_append, List.length_map] at this
  obtain ⟨objs, adds, dels, pc⟩ := s
  obtain rfl : pc = .out := hout
  cases st with
  | out => exact Or.inl hlen
  | registered => exact Or.inl hlen
  | adding =>
    refine Or.inr ⟨hlen, (due_iff _).mpr (Or.inr ?_)⟩
    have ha : (view k x (⟨objs, adds, dels, .out⟩ : St α ρ)).adds = 1 := by
      obtain h | ⟨ok, h⟩ := hf
      · rw [h]
      · have h' : (view k x (⟨objs, adds, dels, .out⟩ : St α ρ)).todo = [] := rfl
        rw [h] at h'
        cases h'
    have hc : adds.count x + 0 = 1 := ha
    have hpos : 0 < adds.count x := by omega
    exact List.count_pos_iff.mp hpos
  | leaving =>
    refine Or.inr ⟨hlen, (due_iff _).mpr (Or.inl ?_)⟩
    have hd : (view k x (⟨objs, adds, dels, .out⟩ : St α ρ)).dels = 1 := by
      obtain h | h := hf
      · rw [h]
      · have h' : (view k x (⟨objs, adds, dels, .out⟩ : St α ρ)).todo = [] := rfl
        rw [h] at h'
        cases h'
    have hc : dels.count x + 0 = 1 := hd
    have hpos : 0 < dels.count x := by omega
    exact List.count_pos_iff.mp hpos

/-- What is left of `n` requests since the log was `log0`, when no `exec` was going on. -/
def Left (k : Kind α ρ) (x : α) (n : ℕ) (log0 : List (Ev α ρ))
    (p : Proc (St α ρ) (Ev α ρ) Fault) : Prop :=
  ∃ evs, p.log = log0 ++ evs ∧ n ≤ (requests (hist k x p.log)).length ∧
    (n ≤ (callbacks (hist k x p.log)).length ∨ .ret ∉ evs ∧
      (p.obj.pc = .out ∨ n ≤ (callbacks (hist k x p.log)).length + 1 ∧ Due k x p.obj))

theorem left_call {n : ℕ} {log0 : List (Ev α ρ)} {p : Proc (St α ρ) (Ev α ρ) Fault} {a : Act α ρ}
    (hg : Good k p) (hg' : Good k (p.call (step k a))) (h : Left k x n log0 p) :
    Left k x n log0 (p.call (step k a)) := by
  obtain ⟨evs, hlog, hn, h⟩ := h
  rcases hs : step k a p.obj with ⟨evs', f | s'⟩
  · have hc := Proc.call_error hg.1 (show (step k a p.obj).res = .error f by rw [hs])
    rw [hc] at hg'
    cases hg'.1
  have hc : p.call (step k a) = ⟨s', p.log ++ evs', none⟩ := by
    rw [Proc.call_ok hg.1 (by rw [hs]), hs]
  rw [hc]
  have hreq : (requests (hist k x (p.log ++ evs'))).length =
      (requests (hist k x p.log)).length + (requests (hist k x evs')).length := by
    rw [hist_append, requests_append, List.length_append]
  have hcb : (callbacks (hist k x (p.log ++ evs'))).length =
      (callbacks (hist k x p.log)).length + (callbacks (hist k x evs')).length := by
    rw [hist_append, callbacks_append, List.length_append]
  refine ⟨evs ++ evs', by rw [hlog, List.append_assoc], by simp only [hreq]; omega, ?_⟩
  rcases h with h | ⟨hret, h⟩
  · left
    simp only [hcb]
    omega
  cases a with
  | request r y =>
    have hs' : request k r y p.obj = ⟨evs', .ok s'⟩ := hs
    have hret' : .ret ∉ evs' ∧ (p.obj.pc = .out → s'.pc = .out) := by
      unfold request at hs'
      split_ifs at hs' <;> cases hs'
      · exact ⟨by simp, id⟩
      · refine ⟨fun hr => ?_, fun h => by cases r <;> exact h⟩
        obtain hr := List.mem_singleton.mp (hr : Ev.ret ∈ [.request r y])
        cases hr
    right
    refine ⟨fun hr => (List.mem_append.mp hr).elim hret hret'.1, ?_⟩
    rcases h with hout | ⟨hn1, hd⟩
    · exact Or.inl (hret'.2 hout)
    · right
      exact ⟨by simp only [hcb]; omega, due_request hs' hd⟩
  | exec o =>
    have hs' : exec k o p.obj = ⟨evs', .ok s'⟩ := hs
    rcases exec_ret hs' with ⟨hout, rfl, rfl⟩ | ⟨hev, rfl, rfl⟩ | ⟨hout, hret'⟩
    · rcases due_call (hg.2 x) hout with hlen | ⟨hlen, hdue⟩
      · left
        simp only [hcb]
        omega
      · right
        refine ⟨fun hr => (List.mem_append.mp hr).elim hret (by simp), Or.inr ⟨?_, hdue⟩⟩
        simp only [hcb]
        omega
    · left
      rcases h with hout | ⟨-, hd⟩
      · rw [hev] at hout; cases hout
      · exact absurd hd (not_due_events hev)
    · obtain ⟨hn1, hd⟩ := h.resolve_left hout
      rcases due_exec hs' hd with hd' | ⟨b, hb⟩
      · right
        exact ⟨fun hr => (List.mem_append.mp hr).elim hret hret', Or.inr
          ⟨by simp only [hcb]; omega, hd'⟩⟩
      · left
        have hone : (callbacks (hist k x evs')).length = 1 := by rw [hb]; rfl
        simp only [hcb]
        omega

end Exec

section Serves

variable [DecidableEq α] {k : Kind α ρ}

/-- **What a notifier owes its objects**, in a run `as ++ bs` and after its part `as`: no assert
fails; an object's callbacks answer its requests in order, none twice; the set is that of the
objects whose last callback was that of a successful add (but for the one whose callback is about
to be made); and if no `exec` was going on after `as`, and one ended in `bs`, then the requests of
`as` are all answered. -/
structure Serves (k : Kind α ρ) (as bs : List (Act α ρ)) : Prop where
  fault : (run k as).fault = none
  inOrder : ∀ x, (callbacks (hist k x (run k as).log)).map Answer.req <+:
    requests (hist k x (run k as).log)
  setObjs : ∀ x, (run k as).obj.pc.todo k x = [] →
    (x ∈ (run k as).obj.setObjs ↔ lastAdded (hist k x (run k as).log) = true)
  answered : ∀ evs, (run k (as ++ bs)).log = (run k as).log ++ evs → (run k as).obj.pc = .out →
    .ret ∈ evs → ∀ x, (requests (hist k x (run k as).log)).length ≤
      (callbacks (hist k x (run k (as ++ bs)).log)).length

theorem Inv.inOrder {n : Ntf Answer} {h : List ObjEv} (hi : Inv n h) :
    (callbacks h).map Answer.req <+: requests h := by
  obtain ⟨st, -, ht⟩ := hi
  exact ⟨openReq st, ht.requests.symm⟩

theorem Inv.inSet {n : Ntf Answer} {h : List ObjEv} (hi : Inv n h) (hn : n.todo = []) :
    n.inSet = lastAdded h := by
  obtain ⟨st, hf, ht⟩ := hi
  rw [ht.lastAdded]
  cases st with
  | out =>
    obtain rfl : n = .clean := hf
    rfl
  | adding =>
    obtain rfl | ⟨ok, rfl⟩ := hf
    · rfl
    · cases hn
  | registered =>
    obtain rfl : n = ⟨true, 0, 0, []⟩ := hf
    rfl
  | leaving =>
    obtain rfl | rfl := hf
    · rfl
    · cases hn

theorem left_run {x : α} {n : ℕ} {log0 : List (Ev α ρ)} :
    ∀ {p : Proc (St α ρ) (Ev α ρ) Fault} {bs : List (Act α ρ)}, Good k p → Left k x n log0 p →
      Run.Meets (fun p a => p.call (step k a)) (Allowed k) p bs →
      Left k x n log0 (Proc.run (step k) p bs)
  | _, [], _, h, _ => h
  | p, b :: bs, hg, h, ⟨hb, hbs⟩ => by
    have hg' : Good k (p.call (step k b)) := inv_call hg hb
    show Left k x n log0 (Proc.run (step k) (p.call (step k b)) bs)
    exact left_run hg' (left_call hg hg' h) hbs

/-- **Every run that keeps to the discipline** is served. -/
theorem serves {as bs : List (Act α ρ)} (h : Disciplined k (as ++ bs)) : Serves k as bs := by
  obtain ⟨ha, hb⟩ := (Run.meets_append _).mp h
  have hg : Good k (run k as) := good_run ha
  refine ⟨hg.1, fun x => (hg.2 x).inOrder, fun x hx => ?_, fun evs hevs hout hret x => ?_⟩
  · have hin : decide (x ∈ (run k as).obj.setObjs) = lastAdded (hist k x (run k as).log) :=
      (hg.2 x).inSet hx
    rw [← hin, decide_eq_true_iff]
  · have h0 : Left k x (requests (hist k x (run k as).log)).length (run k as).log (run k as) :=
      ⟨[], by rw [List.append_nil], le_rfl, Or.inr ⟨by simp, Or.inl hout⟩⟩
    have hrun : run k (as ++ bs) = Proc.run (step k) (run k as) bs := Proc.run_append _ as bs
    obtain ⟨evs', hevs', -, hle | ⟨hret', -⟩⟩ := left_run hg h0 hb
    · rw [hrun]
      exact hle
    · rw [hrun, hevs'] at hevs
      rw [List.append_cancel_left hevs] at hret'
      exact absurd hret hret'

/-- **Deferred registration** answers every request exactly once, where an object's requests are
made one at a time. -/
theorem every_request_answered (getIoEvt : α → ℕ) :
    (∀ as bs, Disciplined (cEpoll getIoEvt) (as ++ bs) → Serves (cEpoll getIoEvt) as bs) ∧
      ∀ as bs, Disciplined (cTimeNotifier : Kind α Unit) (as ++ bs) → Serves cTimeNotifier as bs :=
  ⟨fun _ _ h => serves h, fun _ _ h => serves h⟩

/-- An add and its `exec`, then a del. -/
theorem every_request_answered_once :
    Serves (cEpoll fun _ : ℕ => 1) [.request .add 7] (List.replicate 8 (.exec 0) ++
        .request .del 7 :: List.replicate 8 (.exec 0)) ∧
      Serves cTimeNotifier [.request .add 7] (List.replicate 8 (.exec ()) ++
        .request .del 7 :: List.replicate 8 (.exec ())) :=
  ⟨(every_request_answered fun _ : ℕ => 1).1 _ _ (by decide),
    (every_request_answered fun _ : ℕ => 1).2 _ _ (by decide)⟩

/-- A request is made where the last callback allows it, answered or not what was requested
since. -/
def AllowedByLast (k : Kind α ρ) (p : Proc (St α ρ) (Ev α ρ) Fault) : Act α ρ → Prop
  | .request r x => k.mute x = false → lastAdded (hist k x p.log) = decide (r = .del)
  | .exec _ => True

instance (p : Proc (St α ρ) (Ev α ρ) Fault) : ∀ a, Decidable (AllowedByLast k p a)
  | .request r x => inferInstanceAs
      (Decidable (k.mute x = false → lastAdded (hist k x p.log) = decide (r = .del)))
  | .exec _ => .isTrue trivial

/-- Every request of the run is made where the last callback allows it. -/
def ByLast (k : Kind α ρ) (as : List (Act α ρ)) : Prop :=
  Run.Meets (fun p a => p.call (step k a)) (AllowedByLast k) ⟨{}, [], none⟩ as

instance (as : List (Act α ρ)) : Decidable (ByLast k as) :=
  inferInstanceAs (Decidable (Run.Meets _ _ _ as))

/-- **Two adds of an object** before `exec`, both where the last callback allows them. For a timer
the second insert fails; an object of `CEpoll` whose second `epoll_ctl` fails stays in the set, and
its last callback says that the add failed. -/
theorem two_adds :
    (¬ ∀ as bs, ByLast (cTimeNotifier : Kind ℕ Unit) (as ++ bs) → Serves cTimeNotifier as bs) ∧
      ¬ ∀ as bs, ByLast (cEpoll fun _ : ℕ => 1) (as ++ bs) → Serves (cEpoll fun _ => 1) as bs := by
  constructor
  · intro h
    have hs := h ([.request .add 7, .request .add 7] ++ List.replicate 7 (.exec ())) []
      (by decide)
    have hf := hs.fault
    revert hf
    decide
  · intro h
    have hs := h ([.request .add 7, .request .add 7] ++ List.replicate 6 (.exec 0) ++
      List.replicate 2 (.exec (-1))) [] (by decide)
    have hset := hs.setObjs 7 (by decide)
    revert hset
    decide

end Serves

end SmartNet.Framework.Deferred
