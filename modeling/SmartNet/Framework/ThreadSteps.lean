import SmartNet.Framework.Threads

/-! # The threads of the engine, seen from one object

* `exec_does`: everything a step of `exec` does for one object;
* `step_seen`: every step of the process is a step of each object, or nothing is seen of it;
* `each_alone`: runs. -/

namespace SmartNet.Framework.Threads

open SmartNet.Lib SmartNet.Lib.Indexed SmartNet.Framework.Notifier SmartNet.Framework.Deferred

variable {ι θ : Type} {m : ι → Obj}

/-! ### The next step of `exec` -/

section Exec

variable {α ρ : Type} [DecidableEq α] {k : Kind α ρ} {o : ρ} {s s' : Deferred.St α ρ}
  {evs : List (Deferred.Ev α ρ)}

/-- What a step of `exec` does for one object: a del or an add of the object is taken from its
batch, or the callback is made that was to be made, if there was one. -/
inductive Does (k : Kind α ρ) (o : ρ) (x : α) (s s' : Deferred.St α ρ) :
    List (Deferred.Ev α ρ) → Prop
  | del {rest : List α} (hpc : s.pc = .dels (x :: rest)) (ht : (view k x s).todo = [])
      (hd : 0 < (view k x s).dels) (hin : (view k x s).inSet = true)
      (h : view k x s' = ⟨false, (view k x s).adds, (view k x s).dels - 1, [.deled]⟩) :
      Does k o x s s' []
  | add {rest : List α} (hpc : s.pc = .adds (x :: rest)) (ht : (view k x s).todo = [])
      (ha : 0 < (view k x s).adds) (hin : k.ok o = true → (view k x s).inSet = false)
      (h : view k x s' = ⟨k.ok o || (view k x s).inSet, (view k x s).adds - 1, (view k x s).dels,
        [.added (k.ok o)]⟩) :
      Does k o x s s' []
  | reply {evs : List (Deferred.Ev α ρ)} (hpc : head s.pc ≠ some x)
      (h : view k x s' = { view k x s with todo := [] })
      (hevs : callbacks (hist k x evs) = (view k x s).todo) :
      Does k o x s s' evs

theorem does_quiet {x : α} (hpc : head s.pc = none) (ht : s.pc.todo k x = [])
    (h : view k x s' = view k x s) (hevs : hist k x evs = []) : Does k o x s s' evs := by
  refine .reply (by rw [hpc]; exact Option.some_ne_none x |>.symm) ?_ ?_
  · rw [h]
    show view k x s = ⟨_, _, _, []⟩
    rw [← ht]
    rfl
  · rw [hevs]
    exact ht.symm

theorem does_callback {x y : α} {e : Deferred.Ev α ρ} {a : Answer} {objs : Finset α}
    {adds dels : List α} {pc pc' : Pc α ρ} (hpc : head pc = none)
    (he : seen k x e = if y = x then some (.callback a) else none)
    (ht : pc.todo k x = if y = x then [a] else []) (ht' : pc'.todo k x = [])
    (hd : pc'.delBatch = pc.delBatch) (ha : pc'.addBatch = pc.addBatch) :
    Does k o x ⟨objs, adds, dels, pc⟩ ⟨objs, adds, dels, pc'⟩ [e] := by
  refine .reply (by rw [hpc]; exact Option.some_ne_none x |>.symm) ?_ ?_
  · simp only [view, hd, ha, ht']
  · show callbacks (hist k x [e]) = pc.todo k x
    rw [ht]
    by_cases hy : y = x
    · simp [hist, callbacks, he, hy]
    · simp [hist, callbacks, he, hy]

theorem does_del {y : α} {objs : Finset α} {adds dels rest : List α} (hy : y ∈ objs) (x : α) :
    Does k o x ⟨objs, adds, dels, .dels (y :: rest)⟩ ⟨objs.erase y, adds, dels, .deled y rest⟩
      [] := by
  rcases eq_or_ne y x with rfl | hne
  · refine .del rfl rfl ?_ (by simpa [view] using hy) ?_
    · simp only [view, Pc.delBatch, List.count_cons_self]
      omega
    · simp [view, Pc.delBatch, Pc.addBatch, Pc.todo]
  · refine .reply (by simpa [head] using hne) ?_ rfl
    simp [view, Pc.delBatch, Pc.addBatch, Pc.todo, hne, hne.symm]

theorem does_add {y : α} {objs objs' : Finset α} {adds dels rest : List α}
    (hy : k.ok o = true → y ∉ objs) (hobjs : objs' = if k.ok o then insert y objs else objs)
    (x : α) :
    Does k o x ⟨objs, adds, dels, .adds (y :: rest)⟩ ⟨objs', adds, dels, .added y o rest⟩ [] := by
  subst hobjs
  rcases eq_or_ne y x with rfl | hne
  · refine .add rfl rfl ?_ (fun hok => by simpa [view] using hy hok) ?_
    · simp only [view, Pc.addBatch, List.count_cons_self]
      omega
    · by_cases hok : k.ok o = true
      · simp [view, Pc.delBatch, Pc.addBatch, Pc.todo, hok]
      · simp [view, Pc.delBatch, Pc.addBatch, Pc.todo, hok]
  · refine .reply (by simpa [head] using hne) ?_ rfl
    by_cases hok : k.ok o = true
    · simp [view, Pc.delBatch, Pc.addBatch, Pc.todo, hne, hne.symm, hok]
    · simp [view, Pc.delBatch, Pc.addBatch, Pc.todo, hne, hok]

/-- **Everything a step of `exec` does for an object.** -/
theorem exec_does (h : Deferred.exec k o s = ⟨evs, .ok s'⟩) (x : α) : Does k o x s s' evs := by
  obtain ⟨objs, adds, dels, pc⟩ := s
  cases pc with
  | out =>
    cases h
    exact does_quiet rfl rfl rfl rfl
  | testDel =>
    cases h
    refine does_quiet rfl rfl ?_ rfl
    by_cases hd : dels = []
    · simp [view, hd, Pc.delBatch, Pc.addBatch, Pc.todo]
    · simp [view, hd, Pc.delBatch, Pc.addBatch, Pc.todo]
  | swapDel =>
    cases h
    refine does_quiet rfl rfl ?_ rfl
    simp [view, Pc.delBatch, Pc.addBatch, Pc.todo]
  | dels rest =>
    cases rest with
    | nil =>
      cases h
      exact does_quiet rfl rfl rfl rfl
    | cons y rest =>
      by_cases hy : y ∈ objs
      · simp only [Deferred.exec, Eff.require_pos hy, Eff.pure_bind] at h
        cases h
        exact does_del hy x
      · simp only [Deferred.exec, Eff.require_neg hy, Eff.abort_bind] at h
        cases h
  | deled y rest =>
    cases h
    exact does_callback rfl rfl rfl rfl rfl rfl
  | testAdd =>
    cases h
    refine does_quiet rfl rfl ?_ rfl
    by_cases hd : adds = []
    · simp [view, hd, Pc.delBatch, Pc.addBatch, Pc.todo]
    · simp [view, hd, Pc.delBatch, Pc.addBatch, Pc.todo]
  | swapAdd =>
    cases h
    refine does_quiet rfl rfl ?_ rfl
    simp [view, Pc.delBatch, Pc.addBatch, Pc.todo]
  | adds rest =>
    cases rest with
    | nil =>
      cases h
      exact does_quiet rfl rfl rfl rfl
    | cons y rest =>
      by_cases hok : k.ok o = true
      · by_cases hy : y ∉ objs
        · simp only [Deferred.exec, hok, if_true, Eff.require_pos hy, Eff.pure_bind] at h
          cases h
          exact does_add (fun _ => hy) (by rw [if_pos hok]) x
        · simp only [Deferred.exec, hok, if_true, Eff.require_neg hy, Eff.abort_bind] at h
          cases h
      · simp only [Deferred.exec, if_neg hok] at h
        cases h
        exact does_add (fun h => absurd h hok) (by rw [if_neg hok]) x
  | added y i32Ret rest =>
    cases h
    exact does_callback rfl rfl rfl rfl rfl rfl
  | events =>
    cases h
    exact does_quiet rfl rfl rfl rfl

/-- **Where `exec` fails.** -/
theorem exec_fails {f : Deferred.Fault} (h : Deferred.exec k o s = ⟨evs, .error f⟩) : evs = [] ∧
    ((∃ x rest, s.pc = .dels (x :: rest) ∧ x ∉ s.setObjs ∧ f = .erase) ∨
      ∃ x rest, s.pc = .adds (x :: rest) ∧ k.ok o = true ∧ x ∈ s.setObjs ∧ f = .insert) := by
  obtain ⟨objs, adds, dels, pc⟩ := s
  cases pc with
  | dels rest =>
    cases rest with
    | nil => cases h
    | cons y rest =>
      by_cases hy : y ∈ objs
      · simp only [Deferred.exec, Eff.require_pos hy, Eff.pure_bind] at h
        cases h
      · simp only [Deferred.exec, Eff.require_neg hy, Eff.abort_bind] at h
        cases h
        exact ⟨rfl, Or.inl ⟨y, rest, rfl, hy, rfl⟩⟩
  | adds rest =>
    cases rest with
    | nil => cases h
    | cons y rest =>
      by_cases hok : k.ok o = true
      · by_cases hy : y ∈ objs
        · have hy' : ¬ y ∉ objs := not_not_intro hy
          simp only [Deferred.exec, hok, if_true, Eff.require_neg hy', Eff.abort_bind] at h
          cases h
          exact ⟨rfl, Or.inr ⟨y, rest, rfl, hok, hy, rfl⟩⟩
        · simp only [Deferred.exec, hok, if_true, Eff.require_pos hy, Eff.pure_bind] at h
          cases h
      · simp only [Deferred.exec, if_neg hok] at h
        cases h
  | _ => cases h

theorem head_view {x : α} (h : head s.pc = some x) : (view k x s).todo = [] ∧
    ((∃ rest, s.pc = .dels (x :: rest)) ∧ 0 < (view k x s).dels ∨
      (∃ rest, s.pc = .adds (x :: rest)) ∧ 0 < (view k x s).adds) := by
  obtain ⟨objs, adds, dels, pc⟩ := s
  cases pc with
  | dels rest =>
    cases rest with
    | nil => cases h
    | cons y rest =>
      cases h
      refine ⟨rfl, Or.inl ⟨⟨rest, rfl⟩, ?_⟩⟩
      simp only [view, Pc.delBatch, List.count_cons_self]
      omega
  | adds rest =>
    cases rest with
    | nil => cases h
    | cons y rest =>
      cases h
      refine ⟨rfl, Or.inr ⟨⟨rest, rfl⟩, ?_⟩⟩
      simp only [view, Pc.addBatch, List.count_cons_self]
      omega
  | _ => cases h

omit [DecidableEq α] in
theorem waits_events {pc : Pc α ρ} (h : waits pc = true) : pc = .events := by
  cases pc with
  | events => rfl
  | _ => cases h

end Exec

section Steps

variable [DecidableEq ι] {L : Layout m θ} {s s' : Sys L} {t : θ} {x y : ι}
  {o : L.ρ t} {evts : List (Σ x, (m x).τ)} {n : Deferred.St ι (L.ρ t)}
  {evs : List (Deferred.Ev ι (L.ρ t))} {k : (m x).κ}

theorem reply_of (hk : L.role t x = some k) (evs : List (Deferred.Ev ι (L.ρ t))) :
    (evs.flatMap (L.reply t)).filterMap (of x) =
      (callbacks (hist (L.kind t) x evs)).flatMap (replies (m x).cls k) := by
  induction evs with
  | nil => rfl
  | cons e evs ih =>
    rw [List.flatMap_cons, List.filterMap_append, ih]
    cases e with
    | handleAdded y i32Ret =>
      rcases eq_or_ne y x with rfl | hy
      · have hh : callbacks (hist (L.kind t) y (.handleAdded y i32Ret :: evs)) =
            .added ((L.kind t).ok i32Ret) :: callbacks (hist (L.kind t) y evs) := by
          simp [hist, seen, callbacks]
        rw [hh, List.flatMap_cons]
        simp only [Layout.reply, hk, Option.bind_some]
        rw [filterMap_of_self (F := fun x => (m x).τ)]
        rfl
      · have hh : hist (L.kind t) x (.handleAdded y i32Ret :: evs) = hist (L.kind t) x evs := by
          simp [hist, seen, hy]
        rw [hh]
        simp only [Layout.reply]
        rw [filterMap_of_ne (F := fun x => (m x).τ) hy, List.nil_append]
    | handleDeled y =>
      rcases eq_or_ne y x with rfl | hy
      · have hh : callbacks (hist (L.kind t) y (.handleDeled y :: evs)) =
            .deled :: callbacks (hist (L.kind t) y evs) := by
          simp [hist, seen, callbacks]
        rw [hh, List.flatMap_cons]
        simp only [Layout.reply, hk, Option.elim_some]
        rw [filterMap_of_self (F := fun x => (m x).τ)]
        rfl
      · have hh : hist (L.kind t) x (.handleDeled y :: evs) = hist (L.kind t) x evs := by
          simp [hist, seen, hy]
        rw [hh]
        simp only [Layout.reply]
        rw [filterMap_of_ne (F := fun x => (m x).τ) hy, List.nil_append]
    | request r y =>
      have hh : callbacks (hist (L.kind t) x (.request r y :: evs)) =
          callbacks (hist (L.kind t) x evs) := by
        by_cases hy : y = x
        · simp [hist, seen, callbacks, hy]
        · simp [hist, seen, callbacks, hy]
      rw [hh]
      rfl
    | call => rfl
    | ret => rfl

theorem reply_none (hk : L.role t x = none) (evs : List (Deferred.Ev ι (L.ρ t))) :
    (evs.flatMap (L.reply t)).filterMap (of x) = [] := by
  induction evs with
  | nil => rfl
  | cons e evs ih =>
    rw [List.flatMap_cons, List.filterMap_append, ih, List.append_nil]
    cases e with
    | handleAdded y i32Ret =>
      rcases eq_or_ne y x with rfl | hy
      · simp [Layout.reply, hk]
      · exact filterMap_of_ne (F := fun x => (m x).τ) hy _
    | handleDeled y =>
      rcases eq_or_ne y x with rfl | hy
      · simp [Layout.reply, hk]
      · exact filterMap_of_ne (F := fun x => (m x).τ) hy _
    | _ => rfl

theorem evts_of (h : L.Occurs t s evts) (x : ι) : evts.filterMap (of x) = [] ∨
    ∃ e, evts.filterMap (of x) = [e] ∧ (s.ntf t).pc = .events ∧ x ∈ (s.ntf t).setObjs ∧
      (L.role t x).any ((m x).cls.isEvt · e) = true := by
  rcases h with rfl | ⟨hpc, hnd, hall⟩
  · exact Or.inl rfl
  · have hone := filterMap_of_nodup (x := x) hnd
    rcases hl : (evts.filterMap (of x)).head? with - | e
    · left
      rw [hone, hl]
      rfl
    · right
      have hmem : (⟨x, e⟩ : Σ x, (m x).τ) ∈ evts := by
        have he : e ∈ evts.filterMap (of x) := List.mem_of_mem_head? hl
        obtain ⟨a, ha, hax⟩ := List.mem_filterMap.mp he
        rwa [of_eq_some hax] at ha
      obtain ⟨hset, hevt⟩ := hall _ hmem
      exact ⟨e, by rw [hone, hl]; rfl, waits_events hpc, hset, hevt⟩

variable [DecidableEq θ]

/-- The thread after a step of `exec`. -/
def executed (s : Sys L) (t : θ) (n : Deferred.St ι (L.ρ t)) (l : List (Σ x, (m x).τ)) : Sys L :=
  { s with ntf := Function.update s.ntf t n, calls := Function.update s.calls t l }

variable {l : List (Σ x, (m x).τ)}

theorem holds_executed (k : (m x).κ) : holds t x k (executed s t n l) =
    ⟨(view (L.kind t) x n).inSet, (view (L.kind t) x n).adds, (view (L.kind t) x n).dels,
      l.filterMap (of x) ++ (view (L.kind t) x n).todo.flatMap (replies (m x).cls k)⟩ := by
  unfold holds executed
  simp only [Function.update_self]

theorem holds_executed_ne {t' : θ} (h : t' ≠ t) (k : (m x).κ) :
    holds t' x k (executed s t n l) = holds t' x k s := by
  unfold holds executed
  simp only [Function.update_of_ne h]

theorem world_executed (hk : L.role t x = some k) (ht : (s.taskId x k).1 = t) :
    world x (executed s t n l) =
      ⟨s.obj x, Function.update (world x s).ntf k (holds t x k (executed s t n l))⟩ := by
  unfold world
  congr 1
  funext k'
  show holds (s.taskId x k').1 x k' (executed s t n l) = _
  rcases eq_or_ne k' k with rfl | hne
  · rw [Function.update_self, ht]
  · rw [Function.update_of_ne hne]
    refine holds_executed_ne (fun he => hne ?_) k'
    have h1 := (s.taskId x k').2
    rw [he, hk] at h1
    exact (Option.some.inj h1).symm

theorem world_executed_ne (h : ∀ k, L.role t x = some k → (s.taskId x k).1 ≠ t) :
    world x (executed s t n l) = world x s := by
  unfold world
  congr 1
  funext k
  refine holds_executed_ne (fun he => h k ?_ he) k
  rw [← he]
  exact (s.taskId x k).2

/-- What a step of `exec` is for one object: nothing, or a step `b` that does it. -/
def Acts (x : ι) (s s' : Sys L) (a : Step L) : Prop :=
  move x s a = none ∧ world x s' = world x s ∨
    ∃ b, move x s a = some b ∧ (m x).cls.step b (world x s) = ⟨[], .ok (world x s')⟩

omit [DecidableEq θ] in
theorem move_exec (hcalls : s.calls t = []) (hocc : L.Occurs t s evts)
    (hk : L.role t x = some k) : move x s (.exec t o evts) =
      takes x k ((L.kind t).ok o) (evts.filterMap (of x)).head? (s.ntf t).pc := by
  simp only [move, if_pos (And.intro hcalls hocc), hk, Option.bind_some]

omit [DecidableEq θ] in
theorem move_other (hcalls : s.calls t = []) (hocc : L.Occurs t s evts)
    (hk : L.role t x = some k) (hpc : head (s.ntf t).pc ≠ some x)
    (he : evts.filterMap (of x) = []) : move x s (.exec t o evts) = none := by
  rw [move_exec hcalls hocc hk, he]
  generalize (s.ntf t).pc = pc at hpc ⊢
  cases pc with
  | dels rest =>
    cases rest with
    | nil => rfl
    | cons y rest => exact if_neg fun h => hpc (congrArg some h)
  | adds rest =>
    cases rest with
    | nil => rfl
    | cons y rest => exact if_neg fun h => hpc (congrArg some h)
  | _ => rfl

omit [DecidableEq ι] [DecidableEq θ] in
theorem evts_nil (hocc : L.Occurs t s evts) (h : waits (s.ntf t).pc = false) : evts = [] := by
  rcases hocc with rfl | ⟨hpc, -⟩
  · rfl
  · rw [h] at hpc
    cases hpc

omit [DecidableEq θ] in
theorem world_ntf (ht : (s.taskId x k).1 = t) : (world x s).ntf k = holds t x k s := by
  show holds (s.taskId x k).1 x k s = _
  rw [ht]

omit [DecidableEq θ] in
theorem holds_todo (hcalls : s.calls t = []) : (holds t x k s).todo =
    (view (L.kind t) x (s.ntf t)).todo.flatMap (replies (m x).cls k) := by
  unfold holds
  rw [hcalls]
  rfl

omit [DecidableEq θ] in
theorem step_del {rest : List ι} (hk : L.role t x = some k) (ht : (s.taskId x k).1 = t)
    (hcalls : s.calls t = []) (hocc : L.Occurs t s evts) (hpc : (s.ntf t).pc = .dels (x :: rest)) :
    move x s (.exec t o evts) = some (.takeDel k) ∧
      (m x).cls.step (.takeDel k) (world x s) = (m x).cls.guarded k (s.obj x)
        ((holds t x k s).inSet = true) .erase ⟨s.obj x, Function.update (world x s).ntf k
          ⟨false, (holds t x k s).adds, (holds t x k s).dels - 1, (m x).cls.deled k⟩⟩ := by
  refine ⟨?_, ?_⟩
  · rw [move_exec hcalls hocc hk, hpc]
    exact if_pos rfl
  · have hcond : (holds t x k s).todo = [] ∧ 0 < (holds t x k s).dels := by
      refine ⟨?_, ?_⟩
      · rw [holds_todo hcalls, (head_view (by rw [hpc]; rfl)).1]
        rfl
      · simp only [holds, view, hpc, Pc.delBatch, List.count_cons_self]
        omega
    simp only [Class.step, world_ntf ht, if_pos hcond]
    rfl

omit [DecidableEq θ] in
theorem step_add {rest : List ι} (hk : L.role t x = some k) (ht : (s.taskId x k).1 = t)
    (hcalls : s.calls t = []) (hocc : L.Occurs t s evts) (hpc : (s.ntf t).pc = .adds (x :: rest)) :
    move x s (.exec t o evts) = some (.takeAdd k ((L.kind t).ok o)) ∧
      (m x).cls.step (.takeAdd k ((L.kind t).ok o)) (world x s) = (m x).cls.guarded k (s.obj x)
        ((L.kind t).ok o = true → (holds t x k s).inSet = false) .insert
        ⟨s.obj x, Function.update (world x s).ntf k ⟨(L.kind t).ok o || (holds t x k s).inSet,
          (holds t x k s).adds - 1, (holds t x k s).dels,
          replies (m x).cls k (.added ((L.kind t).ok o))⟩⟩ := by
  obtain ⟨ts, hts⟩ := Option.ne_none_iff_exists'.mp (L.answers hk o)
  refine ⟨?_, ?_⟩
  · rw [move_exec hcalls hocc hk, hpc]
    exact if_pos rfl
  · have hcond : (holds t x k s).todo = [] ∧ 0 < (holds t x k s).adds := by
      refine ⟨?_, ?_⟩
      · rw [holds_todo hcalls, (head_view (by rw [hpc]; rfl)).1]
        rfl
      · simp only [holds, view, hpc, Pc.addBatch, List.count_cons_self]
        omega
    have hr : replies (m x).cls k (.added ((L.kind t).ok o)) = ts := by
      simp [replies, hts]
    rw [hr]
    simp only [Class.step, hts, world_ntf ht, if_pos hcond]
    rfl

/-- **A step of `exec`, seen from an object of the thread.** -/
theorem exec_acts (hk : L.role t x = some k) (ht : (s.taskId x k).1 = t) (hcalls : s.calls t = [])
    (hocc : L.Occurs t s evts)
    (hh : head (s.ntf t).pc = some x → (m x).cls.handle k (s.obj x) = none)
    (hd : Does (L.kind t) o x (s.ntf t) n evs) :
    Acts x s (executed s t n (evs.flatMap (L.reply t) ++ evts)) (.exec t o evts) := by
  have hw := world_executed (n := n) (l := evs.flatMap (L.reply t) ++ evts) hk ht
  have hl : (evs.flatMap (L.reply t) ++ evts).filterMap (of x) =
      (callbacks (hist (L.kind t) x evs)).flatMap (replies (m x).cls k) ++
        evts.filterMap (of x) := by
    rw [List.filterMap_append, reply_of hk]
  cases hd with
  | del hpc _ _ hin hv =>
    have hnil : evts = [] := evts_nil hocc (by rw [hpc]; rfl)
    subst hnil
    obtain ⟨hmove, hstep⟩ := step_del (o := o) hk ht hcalls hocc hpc
    refine Or.inr ⟨_, hmove, ?_⟩
    have hset : (holds t x k s).inSet = true := hin
    have hold : holds t x k (executed s t n ([].flatMap (L.reply t) ++ [])) =
        ⟨false, (holds t x k s).adds, (holds t x k s).dels - 1, (m x).cls.deled k⟩ := by
      rw [holds_executed, hl, hv]
      simp [replies, callbacks, hist, holds]
    rw [hstep, hw, hold]
    simp only [Class.guarded, hh (by rw [hpc]; rfl), if_pos hset]
    rfl
  | add hpc _ _ hin hv =>
    have hnil : evts = [] := evts_nil hocc (by rw [hpc]; rfl)
    subst hnil
    obtain ⟨hmove, hstep⟩ := step_add (o := o) hk ht hcalls hocc hpc
    refine Or.inr ⟨_, hmove, ?_⟩
    have hset : (L.kind t).ok o = true → (holds t x k s).inSet = false := hin
    have hold : holds t x k (executed s t n ([].flatMap (L.reply t) ++ [])) =
        ⟨(L.kind t).ok o || (holds t x k s).inSet, (holds t x k s).adds - 1,
          (holds t x k s).dels, replies (m x).cls k (.added ((L.kind t).ok o))⟩ := by
      rw [holds_executed, hl, hv]
      simp [callbacks, hist, holds]
    rw [hstep, hw, hold]
    simp only [Class.guarded, hh (by rw [hpc]; rfl), if_pos hset]
    rfl
  | reply hpc hv hevs =>
    rcases evts_of hocc x with he | ⟨e, he, hev, hset, hevt⟩
    · refine Or.inl ⟨move_other hcalls hocc hk hpc he, ?_⟩
      have hsame : holds t x k (executed s t n (evs.flatMap (L.reply t) ++ evts)) =
          (world x s).ntf k := by
        rw [holds_executed, hl, hv, hevs, he, world_ntf ht]
        unfold holds
        rw [hcalls]
        simp
      rw [hw, hsame, Function.update_eq_self]
      rfl
    · refine Or.inr ⟨.collect k e, ?_, ?_⟩
      · rw [move_exec hcalls hocc hk, hev, he]
        rfl
      · have hnone : (view (L.kind t) x (s.ntf t)).todo = [] := by
          simp only [view, hev, Pc.todo]
        rw [hk] at hevt
        have hcond : (holds t x k s).todo = [] ∧ (holds t x k s).inSet = true ∧
            (m x).cls.isEvt k e = true := by
          rw [holds_todo hcalls, hnone]
          exact ⟨rfl, by simpa [holds, view] using hset, hevt⟩
        simp only [Class.step, world_ntf ht, if_pos hcond]
        rw [hw, holds_executed, hl, hv, hevs, hnone, he]
        rfl

omit [DecidableEq θ] in
theorem Nothing.not_head (h : Nothing t x s) : head (s.ntf t).pc ≠ some x := by
  intro hx
  have hv := (head_view (k := L.kind t) hx).2
  rw [h.1] at hv
  rcases hv with ⟨-, hd⟩ | ⟨-, ha⟩
  · cases hd
  · cases ha

omit [DecidableEq θ] in
theorem Nothing.reported (h : Nothing t x s) (hocc : L.Occurs t s evts) :
    evts.filterMap (of x) = [] := by
  rcases evts_of hocc x with he | ⟨e, -, -, hset, -⟩
  · exact he
  · have hin : (view (L.kind t) x (s.ntf t)).inSet = true := by simpa [view] using hset
    rw [h.1] at hin
    cases hin

omit [DecidableEq θ] in
theorem Nothing.does (h : Nothing t x s) (hd : Does (L.kind t) o x (s.ntf t) n evs) :
    view (L.kind t) x n = .clean ∧ callbacks (hist (L.kind t) x evs) = [] := by
  cases hd with
  | del hpc _ _ _ _ => exact absurd (by rw [hpc]; rfl) h.not_head
  | add hpc _ _ _ _ => exact absurd (by rw [hpc]; rfl) h.not_head
  | reply _ hv hevs =>
    rw [hv, hevs, h.1]
    exact ⟨rfl, rfl⟩

theorem Nothing.executed (h : Nothing t x s) (hocc : L.Occurs t s evts)
    (hd : Does (L.kind t) o x (s.ntf t) n evs) :
    Nothing t x (executed s t n (evs.flatMap (L.reply t) ++ evts)) := by
  obtain ⟨hv, hevs⟩ := h.does hd
  unfold Nothing Threads.executed
  simp only [Function.update_self]
  refine ⟨hv, ?_⟩
  rw [List.filterMap_append, h.reported hocc, List.append_nil]
  rcases hk : L.role t x with - | k
  · exact reply_none hk evs
  · rw [reply_of hk, hevs]
    rfl

/-- **A step of `exec`, seen from any object.** -/
theorem Placed.exec_acts (hp : Placed s) (hcalls : s.calls t = []) (hocc : L.Occurs t s evts)
    (hh : L.refused t s = none) (hd : Does (L.kind t) o x (s.ntf t) n evs) :
    Acts x s (Threads.executed s t n (evs.flatMap (L.reply t) ++ evts)) (.exec t o evts) := by
  by_cases hex : ∃ k, L.role t x = some k ∧ (s.taskId x k).1 = t
  · obtain ⟨k, hk, ht⟩ := hex
    refine Threads.exec_acts hk ht hcalls hocc (fun hx => ?_) hd
    simpa [Layout.refused, hx, hk] using hh
  · have hne : ∀ k, L.role t x = some k → (s.taskId x k).1 ≠ t := fun k hk ht => hex ⟨k, hk, ht⟩
    have hn := hp t x hne
    refine Or.inl ⟨?_, world_executed_ne hne⟩
    rcases hk : L.role t x with - | k
    · simp [move, hk]
    · exact move_other hcalls hocc hk hn.not_head (hn.reported hocc)

theorem Placed.executed (hp : Placed s) (hocc : L.Occurs t s evts)
    (hd : ∀ x, Does (L.kind t) o x (s.ntf t) n evs) :
    Placed (Threads.executed s t n (evs.flatMap (L.reply t) ++ evts)) := by
  intro t' x hne
  have hn := hp t' x hne
  rcases eq_or_ne t' t with rfl | ht
  · exact hn.executed hocc (hd x)
  · unfold Nothing Threads.executed
    simp only [Function.update_of_ne ht]
    exact hn

theorem Placed.head (hp : Placed s) (hx : head (s.ntf t).pc = some x) :
    ∃ k, L.role t x = some k ∧ (s.taskId x k).1 = t :=
  hp.holder fun hn => hn.not_head hx

/-- What a step comes to for one object: nothing is seen of it, or it is the step `move`. -/
def Seen (x : ι) (s : Sys L) (a : Step L) : Prop :=
  Proc.Hides (viewOf L x) s (L.step a s) ∨
    ∃ b, move x s a = some b ∧
      Proc.Shows (viewOf L x) (L.step a s) ((m x).cls.step b (world x s))

theorem seen_fails {a : Step L} {f : Crash (m x).φ} {b : Act (m x).κ (m x).τ (m x).υ (m x).ω}
    (h : L.step a s = ⟨[], .error ⟨x, f⟩⟩) (hm : move x s a = some b)
    (hb : (m x).cls.step b (world x s) = ⟨[], .error f⟩) (y : ι) : Seen y s a := by
  rcases eq_or_ne x y with rfl | hy
  · refine Or.inr ⟨b, hm, ?_⟩
    rw [h, hb]
    exact ⟨rfl, of_self (F := fun x => Crash (m x).φ) f⟩
  · left
    rw [h]
    exact ⟨rfl, of_ne (F := fun x => Crash (m x).φ) hy f⟩

/-- What ends the process in the step for the object at the head of a batch: its handle, or the
assert of the batch. -/
def Ends (t : θ) (o : L.ρ t) (s : Sys L) (x : ι) (f : Crash (m x).φ) : Prop :=
  ∀ k, L.role t x = some k → (∃ e, (m x).cls.handle k (s.obj x) = some e ∧ f = .inObj e) ∨
    (m x).cls.handle k (s.obj x) = none ∧
      ((∃ rest, (s.ntf t).pc = .dels (x :: rest)) ∧ x ∉ (s.ntf t).setObjs ∧ f = .erase ∨
        (∃ rest, (s.ntf t).pc = .adds (x :: rest)) ∧ (L.kind t).ok o = true ∧
          x ∈ (s.ntf t).setObjs ∧ f = .insert)

/-- **A step that fails at the head of a batch.** -/
theorem head_ends (hp : Placed s) {o : L.ρ t} (hcalls : s.calls t = [])
    (hocc : L.Occurs t s evts) (hh : head (s.ntf t).pc = some x) {f : Crash (m x).φ}
    (hs : L.step (.exec t o evts) s = ⟨[], .error ⟨x, f⟩⟩) (hf : Ends t o s x f) :
    (∀ y, Seen y s (.exec t o evts)) ∧
      ∀ s', (L.step (.exec t o evts) s).res = .ok s' → Placed s' := by
  obtain ⟨k, hk, ht⟩ := hp.head hh
  have hnot : ∀ s', (L.step (.exec t o evts) s).res = .ok s' → Placed s' := fun s' h => by
    rw [hs] at h
    cases h
  rcases (head_view (k := L.kind t) hh).2 with ⟨⟨rest, hpc⟩, -⟩ | ⟨⟨rest, hpc⟩, -⟩
  · obtain ⟨hmove, hstep⟩ := step_del (o := o) hk ht hcalls hocc hpc
    refine ⟨seen_fails hs hmove ?_, hnot⟩
    rw [hstep]
    rcases hf k hk with ⟨e, he, rfl⟩ | ⟨hnone, ⟨-, hset, rfl⟩ | ⟨⟨r, hadds⟩, -⟩⟩
    · exact Class.guarded_refused _ he ..
    · exact Class.guarded_fails _ hnone (by simpa [holds, view] using hset) ..
    · rw [hpc] at hadds
      cases hadds
  · obtain ⟨hmove, hstep⟩ := step_add (o := o) hk ht hcalls hocc hpc
    refine ⟨seen_fails hs hmove ?_, hnot⟩
    rw [hstep]
    rcases hf k hk with ⟨e, he, rfl⟩ | ⟨hnone, ⟨⟨r, hdels⟩, -⟩ | ⟨-, hok, hset, rfl⟩⟩
    · exact Class.guarded_refused _ he ..
    · rw [hpc] at hdels
      cases hdels
    · exact Class.guarded_fails _ hnone (by simpa [holds, view, hok] using hset) ..

/-- **A step of `exec`.** -/
theorem exec_seen (hp : Placed s) (t : θ) (o : L.ρ t) (evts : List (Σ x, (m x).τ)) :
    (∀ x, Seen x s (.exec t o evts)) ∧
      ∀ s', (L.step (.exec t o evts) s).res = .ok s' → Placed s' := by
  by_cases hc : s.calls t = [] ∧ L.Occurs t s evts
  · obtain ⟨hcalls, hocc⟩ := hc
    rcases hf : L.refused t s with - | f
    · have hnone : ∀ x k, head (s.ntf t).pc = some x → L.role t x = some k →
          (m x).cls.handle k (s.obj x) = none := fun x k hh hk => by
        simpa [Layout.refused, hh, hk] using hf
      rcases hr : Deferred.exec (L.kind t) o (s.ntf t) with ⟨evs, f | n⟩
      · obtain ⟨rfl, ⟨x, rest, hpc, hset, rfl⟩ | ⟨x, rest, hpc, hok, hset, rfl⟩⟩ := exec_fails hr
        · have hh : head (s.ntf t).pc = some x := by rw [hpc]; rfl
          have hs : L.step (.exec t o evts) s = ⟨[], .error ⟨x, .erase⟩⟩ := by
            simp only [Layout.step, Layout.exec, if_pos (And.intro hcalls hocc), hf, hr, hh]
            rfl
          exact head_ends hp hcalls hocc hh hs fun k hk =>
            Or.inr ⟨hnone x k hh hk, Or.inl ⟨⟨rest, hpc⟩, hset, rfl⟩⟩
        · have hh : head (s.ntf t).pc = some x := by rw [hpc]; rfl
          have hs : L.step (.exec t o evts) s = ⟨[], .error ⟨x, .insert⟩⟩ := by
            simp only [Layout.step, Layout.exec, if_pos (And.intro hcalls hocc), hf, hr, hh]
            rfl
          exact head_ends hp hcalls hocc hh hs fun k hk =>
            Or.inr ⟨hnone x k hh hk, Or.inr ⟨⟨rest, hpc⟩, hok, hset, rfl⟩⟩
      · have hs : L.step (.exec t o evts) s =
            ⟨[], .ok (Threads.executed s t n (evs.flatMap (L.reply t) ++ evts))⟩ := by
          simp only [Layout.step, Layout.exec, if_pos (And.intro hcalls hocc), hf, hr]
          rfl
        refine ⟨fun x => ?_, fun s' h => ?_⟩
        · unfold Seen
          rw [hs]
          rcases hp.exec_acts hcalls hocc hf (exec_does hr x) with ⟨-, hw⟩ | ⟨b, hm, hb⟩
          · exact Or.inl ⟨rfl, hw⟩
          · refine Or.inr ⟨b, hm, ?_⟩
            rw [hb]
            exact ⟨rfl, rfl⟩
        · rw [hs] at h
          cases h
          exact hp.executed hocc (exec_does hr)
    · have hs : L.step (.exec t o evts) s = ⟨[], .error f⟩ := by
        simp only [Layout.step, Layout.exec, if_pos (And.intro hcalls hocc), hf]
        rfl
      unfold Layout.refused at hf
      obtain ⟨x, hh, hf⟩ := Option.bind_eq_some_iff.mp hf
      obtain ⟨k, hk, hf⟩ := Option.bind_eq_some_iff.mp hf
      obtain ⟨f, hhandle, rfl⟩ := Option.map_eq_some_iff.mp hf
      refine head_ends hp hcalls hocc hh hs fun k' hk' => Or.inl ⟨f, ?_, rfl⟩
      rw [hk] at hk'
      cases hk'
      exact hhandle
  · have hs : L.step (.exec t o evts) s = pure s := by
      simp only [Layout.step, Layout.exec, if_neg hc]
    refine ⟨fun x => Or.inl ?_, fun s' h => ?_⟩
    · rw [hs]
      exact ⟨rfl, rfl⟩
    · rw [hs] at h
      cases h
      exact hp

end Steps

/-! ### The process -/

section Process

variable [DecidableEq ι] [DecidableEq θ] {L : Layout m θ} {s s' : Sys L} {x : ι}
  {roams : ∀ x, (m x).κ → Bool}
  {C : ∀ x, World (m x).κ (m x).σ (m x).τ → Act (m x).κ (m x).τ (m x).υ (m x).ω → Prop}
  {I : ∀ x, World (m x).κ (m x).σ (m x).τ → Prop}

/-- A registration that does not roam has one thread. -/
def Fixed (L : Layout m θ) (roams : ∀ x, (m x).κ → Bool) : Prop :=
  ∀ x k, roams x k = false → ∀ t t', L.role t x = some k → L.role t' x = some k → t = t'

/-- What holds of a process. -/
structure Inv (I : ∀ x, World (m x).κ (m x).σ (m x).τ → Prop) (s : Sys L) : Prop where
  placed : Placed s
  objs : ∀ x, I x (world x s)

theorem after_res {κ σ τ υ ω ε φ : Type} [DecidableEq κ] {c : Class κ σ τ υ ω ε φ} {ntf : κ → Ntf τ}
    {r : Eff ε φ σ} {o : σ} (h : r.res = .ok o) :
    (c.after ntf r).res = .ok ⟨o, c.submit ntf r.evs⟩ := by
  simp only [Class.after, h]

omit [DecidableEq θ] in
theorem apart {pick : L.Tasks x} {c : Eff (m x).ε (m x).φ (m x).σ} (hf : Fixed L roams)
    (ho : Orderly (m x) (roams x) (C x) (I x))
    (hI : ∀ o, c.res = .ok o → I x ⟨o, (m x).cls.submit (world x s).ntf c.evs⟩) :
    Apart pick s c := by
  intro o hr k hk
  rcases hb : roams x k with - | -
  · exact Or.inl (Subtype.ext (hf x k hb _ _ (pick k).2 (s.taskId x k).2))
  · have hpos := pushAll_adds hk (world x s).ntf
    exact Or.inr (ho.one (hI o hr) hb (Nat.zero_lt_of_lt hpos))

/-- **A call of another thread.** -/
theorem user_seen (hf : Fixed L roams) (ho : ∀ x, Orderly (m x) (roams x) (C x) (I x))
    (hI : Inv I s) (x : ι) (u : (m x).υ) (pick : L.Tasks x) (hc : Kept L C s (.user x u pick)) :
    (∀ y, Seen y s (.user x u pick)) ∧
      ∀ s', (L.step (.user x u pick) s).res = .ok s' → Placed s' := by
  have hmove : move x s (.user x u pick) = some (.user u) := by
    simp only [move, of_self (F := fun y => (m y).υ), Option.map_some]
  have hap : Apart pick s ((m x).cls.user u (s.obj x)) := by
    exact apart hf (ho x) fun o hr => (ho x).keeps (hI.objs x) (hc x _ hmove) (after_res hr)
  refine ⟨fun y => ?_, fun s' h => after_placed (ho x).answers hI.placed hap h⟩
  rcases eq_or_ne y x with rfl | hy
  · exact Or.inr ⟨_, hmove, after_shows (ho y).answers hI.placed hap⟩
  · exact Or.inl (after_hides (ho x).answers hI.placed hap hy)

/-- **A callback.** -/
theorem callback_seen (hf : Fixed L roams) (ho : ∀ x, Orderly (m x) (roams x) (C x) (I x))
    (hI : Inv I s) (t : θ) (o : ∀ x, (m x).ω) (pick : ∀ x, L.Tasks x)
    (hc : Kept L C s (.callback t o pick)) :
    (∀ y, Seen y s (.callback t o pick)) ∧
      ∀ s', (L.step (.callback t o pick) s).res = .ok s' → Placed s' := by
  rcases hl : s.calls t with - | ⟨⟨x, e⟩, l⟩
  · have hs : L.step (.callback t o pick) s = pure s := by
      simp only [Layout.step, Layout.callback, hl]
    refine ⟨fun y => Or.inl ?_, fun s' h => ?_⟩
    · rw [hs]
      exact ⟨rfl, rfl⟩
    · rw [hs] at h
      cases h
      exact hI.placed
  · obtain ⟨k, ts, hk, htodo, hw⟩ := world_popped hI.placed hl
    have hp : Placed (popped t l s) := hI.placed.popped hl
    have hs : L.step (.callback t o pick) s =
        L.after x (pick x) (popped t l s) ((m x).cls.callback e (o x) (s.obj x)) := by
      simp only [Layout.step, Layout.callback, hl]
      rfl
    have hmove : move x s (.callback t o pick) = some (.callback k (o x)) := by
      simp only [move, hl, hk, Option.map_some, if_true]
    have hstep : (m x).cls.step (.callback k (o x)) (world x s) =
        (m x).cls.after (world x (popped t l s)).ntf ((m x).cls.callback e (o x) (s.obj x)) := by
      simp only [Class.step, htodo, hw]
      rfl
    have hap : Apart (pick x) (popped t l s) ((m x).cls.callback e (o x) (s.obj x)) := by
      refine apart hf (ho x) fun r hr => (ho x).keeps (hI.objs x) (hc x _ hmove) ?_
      rw [hstep]
      exact after_res hr
    refine ⟨fun y => ?_, fun s' h => ?_⟩
    · rcases eq_or_ne y x with rfl | hy
      · refine Or.inr ⟨_, hmove, ?_⟩
        rw [hs, hstep]
        exact after_shows (ho y).answers hp hap
      · left
        rw [hs]
        obtain ⟨hevs, hres⟩ := after_hides (ho x).answers hp hap hy
        refine ⟨hevs, ?_⟩
        rcases hr : (L.after x (pick x) (popped t l s)
          ((m x).cls.callback e (o x) (s.obj x))).res with f | s'
        · rw [hr] at hres
          exact hres
        · rw [hr] at hres
          exact hres.trans (world_popped_ne hl hy)
    · rw [hs] at h
      exact after_placed (ho x).answers hp hap h

/-- **Every step**, seen from any object. -/
theorem step_seen (hf : Fixed L roams) (ho : ∀ x, Orderly (m x) (roams x) (C x) (I x))
    (hI : Inv I s) (a : Step L) (hc : Kept L C s a) :
    (∀ x, Seen x s a) ∧ ∀ s', (L.step a s).res = .ok s' → Placed s' := by
  cases a with
  | user x u pick => exact user_seen hf ho hI x u pick hc
  | exec t o evts => exact exec_seen hI.placed t o evts
  | callback t o pick => exact callback_seen hf ho hI t o pick hc

/-- **Every step keeps the invariant.** -/
theorem Inv.step (hf : Fixed L roams) (ho : ∀ x, Orderly (m x) (roams x) (C x) (I x))
    (hI : Inv I s) {a : Step L} (hc : Kept L C s a) (h : (L.step a s).res = .ok s') : Inv I s' := by
  obtain ⟨hseen, hplaced⟩ := step_seen hf ho hI a hc
  refine ⟨hplaced s' h, fun x => ?_⟩
  rcases hseen x with ⟨-, hw⟩ | ⟨b, hm, -, hr⟩
  · rw [h] at hw
    have hw : world x s' = world x s := hw
    rw [hw]
    exact hI.objs x
  · rw [h] at hr
    rcases hb : ((m x).cls.step b (world x s)).res with e | w
    · simp only [hb] at hr
    · simp only [hb] at hr
      subst hr
      exact (ho x).keeps (hI.objs x) (hc x b hm) hb

omit [DecidableEq θ] in
theorem world_start (x : ι) : world x L.start = ⟨(m x).init, fun _ => .clean⟩ := by
  unfold world
  congr 1

omit [DecidableEq θ] in
theorem placed_start : Placed L.start := by
  intro t x _
  exact ⟨rfl, rfl⟩

/-- **Every object does what it can do alone**: a run of the process whose steps all meet the
conditions of their objects is, seen from any of them, a run of the object with notifiers of its
own, whose steps meet the condition. -/
theorem each_alone (hf : Fixed L roams) (ho : ∀ x, Orderly (m x) (roams x) (C x) (I x))
    (as : List (Step L)) (h : Proc.Meets L.step (Kept L C) ⟨L.start, [], none⟩ as) (x : ι) :
    ∃ bs, Proc.Meets (m x).cls.step (C x) ⟨⟨(m x).init, fun _ => .clean⟩, [], none⟩ bs ∧
      Proc.run (m x).cls.step ⟨⟨(m x).init, fun _ => .clean⟩, [], none⟩ bs =
        (L.run as).part (viewOf L x) := by
  have h0 : Inv I L.start := ⟨placed_start, fun x => by rw [world_start]; exact (ho x).start⟩
  have hpart : Proc.part (viewOf L x) ⟨L.start, [], none⟩ =
      ⟨⟨(m x).init, fun _ => .clean⟩, [], none⟩ := by
    show (⟨world x L.start, [], none⟩ : Proc _ _ _) = _
    rw [world_start]
  have hstep : ∀ (a : Step L) (s : Sys L), Inv I s → Kept L C s a →
      Proc.Hides (viewOf L x) s (L.step a s) ∨ ∃ b, C x ((viewOf L x).obj s) b ∧
        Proc.Shows (viewOf L x) (L.step a s) ((m x).cls.step b ((viewOf L x).obj s)) := by
    intro a s hI hc
    rcases (step_seen hf ho hI a hc).1 x with hh | ⟨b, hm, hs⟩
    · exact Or.inl hh
    · exact Or.inr ⟨b, hc x b hm, hs⟩
  obtain ⟨-, bs, hmeets, hbs⟩ :=
    Proc.run_shows (fun a s t hI hc ht => hI.step hf ho hc ht) hstep as h0 h
  rw [hpart] at hmeets hbs
  exact ⟨bs, hmeets, hbs⟩

end Process

end SmartNet.Framework.Threads
