import SmartNet.Framework.EngineInvariant

/-! # Stopping an engine

`stop` is to undo `start`, whether that succeeded or not. It never does: a started engine fails an
assert in it, since the tasks are reset by `stop_wait` and then once more; an engine whose `start`
failed is in `ES_STOPPED`, where `EE_STOP` is not registered, and keeps the threads and tasks it
has, so that those of the next `start` are added to them. -/

namespace SmartNet.Framework.Engine

open SmartNet.Common SmartNet.Lib SmartNet.Endpoint.Types SmartNet.Framework.Deferred

variable {α β : Type} [DecidableEq α] [DecidableEq β]

/-- **What `stop` owes** an engine: it returns `RET_SUC`, every thread is stopped, every task reset
once, nothing is left, and the next `start` that succeeds makes the tasks it is asked for, with
their indices as ids. -/
def Undone (e : CSNEngine α β) : Prop :=
  ∃ (evs : List (Ev α β)) (e' : CSNEngine α β), e.stop = ⟨evs, .ok (0, e')⟩ ∧
    (∀ th ∈ e.vecThreads, ∀ t, th.pTask = some t →
      .taskStopped t.ref ∈ evs ∧ evs.count (.taskReset t.ref) = 1) ∧
    e'.vecThreads = [] ∧ (∀ ty, e'.vec ty = []) ∧ e'.i32curstate = .esStopped ∧
    ∀ sp evs' (e'' : CSNEngine α β), e'.start sp = ⟨evs', .ok (0, e'')⟩ → ∀ ty,
      (e''.vec ty).length = (sp.rounds ty).length ∧
      ∀ (i : ℕ) (t : IoTask α), (e''.vec ty)[i]? = some t → t.i32TaskId = i

omit [DecidableEq α] [DecidableEq β] in
theorem start_adds {e e' : CSNEngine α β} {sp : SParas} {evs : List (Ev α β)}
    (h : e.start sp = ⟨evs, .ok (0, e')⟩) (ty : IoType) :
    (e'.vec ty).length = (e.vec ty).length + (sp.rounds ty).length := by
  rcases CSNEngine.start_cases h with ⟨-, h0, -⟩ | ⟨-, ⟨e1, h1, -, rfl⟩ | ⟨ret, -, -, h0⟩⟩
  · cases h0
  · obtain ⟨-, -, -, hsuc⟩ := CSNEngine.starting_ok h1
    have hlen := (hsuc rfl).2 ty
    cases ty <;> exact hlen
  · cases h0

/-- **`stop` never undoes `start`**, after whatever calls: a started engine runs into an assert; one
that is not stays as it is, and a later `start` adds its tasks to those it has. -/
theorem stop_never_undoes (objs : α → IIoObj) (as : List (Act α β))
    (h : (run objs as).fault = none) :
    ¬ Undone (run objs as).obj.eng ∧
      ((run objs as).obj.eng.i32curstate = .esStarted →
        (run objs as).obj.eng.stop.res = .error .resetTask) ∧
      ((run objs as).obj.eng.i32curstate = .esStopped →
        (run objs as).obj.eng.stop = ⟨[], .ok (-1, (run objs as).obj.eng)⟩) ∧
      ∀ sp evs e', (run objs as).obj.eng.start sp = ⟨evs, .ok (0, e')⟩ → ∀ ty,
        (e'.vec ty).length = ((run objs as).obj.eng.vec ty).length + (sp.rounds ty).length := by
  have hg := good_run h
  generalize (run objs as).obj.eng = e at hg ⊢
  refine ⟨?_, CSNEngine.stop_started hg, CSNEngine.stop_stopped, fun sp evs e' hs => start_adds hs⟩
  rintro ⟨evs, e', hstop, -⟩
  rcases hc : e.i32curstate with _ | _
  · rw [CSNEngine.stop_stopped hc] at hstop
    cases hstop
  · have hf := CSNEngine.stop_started hg hc
    rw [hstop] at hf
    cases hf

/-- One output and one input thread, and nothing fails. -/
def oneOfEach : SParas where
  outputs := [{}]
  inputs := [{}]
  misc := {}
  i32IoEvtNotifier := eienEpoll

/-- One output and one input thread; there is no memory for the `CTimeNotifier`. -/
def noTimer : SParas := { oneOfEach with misc := { newNotifier := false } }

/-- An engine after one call of `start`. -/
def afterStart (sp : SParas) : Proc (Sys Unit Unit) (Ev Unit Unit) Fault :=
  run (fun _ => {}) [.start sp]

/-- After a `start` that failed. -/
theorem stop_never_undoes_failed : ¬ Undone (afterStart noTimer).obj.eng :=
  (stop_never_undoes (fun _ => {}) [.start noTimer] (by decide)).1

/-- **Both starts**: the `stop` after the one that succeeds ends the process; the one after that
which fails returns -1, two threads go on, and the next `start` makes the second task of each
type. -/
theorem both_starts :
    ((afterStart oneOfEach).fault = none ∧ ¬ Undone (afterStart oneOfEach).obj.eng) ∧
      (afterStart noTimer).fault = none ∧ ¬ Undone (afterStart noTimer).obj.eng ∧
      (run (fun _ => {}) ([.start noTimer, .stop, .start oneOfEach] :
        List (Act Unit Unit))).obj.eng.vecInputTasks.map IoTask.i32TaskId = [0, 1] := by
  refine ⟨⟨by decide, ?_⟩, by decide, ?_, by decide⟩
  · rintro ⟨evs, e', h, -⟩
    have hf : (afterStart oneOfEach).obj.eng.stop.res = .error .resetTask := rfl
    rw [h] at hf
    cases hf
  · rintro ⟨evs, e', h, -⟩
    have hf : (afterStart noTimer).obj.eng.stop = ⟨[], .ok (-1, _)⟩ := rfl
    rw [hf] at h
    cases h

end SmartNet.Framework.Engine
