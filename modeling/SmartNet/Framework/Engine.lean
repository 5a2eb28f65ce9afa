import Mathlib.Data.Finset.Card
import SmartNet.Endpoint.Types
import SmartNet.Framework.Deferred
import SmartNet.Utils.StateMachine

/-! # The engine

`CSNEngine` with its threads, its tasks and their notifiers. `start` and `stop` are events of its
state machine; `add_endpoint`, `del_endpoint`, `add_timer`, `del_timer` lock the state and push a
request into the notifier of one of the tasks.

* An object of `CThread` holds the part of its task that is `IThreadTask` (the flag `m_bStop`), the
  vectors hold the rest of the tasks (the notifiers); `Ref` says which task it is.
* `Round` is what the system does in one round of the loops of `starting`: which `new` succeeds,
  what `epoll_create` and `pthread_create` return. A round is given for each thread that is asked
  for.
* `i32MsTimeout` only goes to `epoll_wait` and is left out. The macro `__PLATEFORM_LINUX__` is not
  defined, so `stop_wait` does not join.
* `Sys` has the task ids and event masks of the objects too. -/

namespace SmartNet.Framework.Engine

open SmartNet.Common SmartNet.Lib SmartNet.Endpoint.Types SmartNet.Framework.Notifier
  SmartNet.Framework.Deferred SmartNet.Utils

/-- `ES_STOPPED`, `ES_STARTED`. -/
inductive State
  | esStopped
  | esStarted
  deriving DecidableEq

/-- `EE_START`, `EE_STOP`. -/
inductive Evt
  | eeStart
  | eeStop

/-- `EIT_INPUT_TYPE`, `EIT_OUTPUT_TYPE`. -/
def eit : IoType → ℤ
  | .input => 0
  | .output => 1

/-- `EIEN_EPOLL`, the only notifier `CIoEvtNotifierFactory` makes. -/
def eienEpoll : ℤ := 2

/-- A task: the `i`-th of a vector, or `m_pMiscTask`. -/
inductive Ref
  | io (ty : IoType) (i : ℕ)
  | misc
  deriving DecidableEq

/-- What is seen of an engine. -/
inductive Ev (α β : Type)
  | lock
  | unlock
  | threadStarted (t : Ref) (i32Errno : ℕ)
  | taskStopped (t : Ref)
  | taskReset (t : Ref)
  | io (t : Ref) (e : Deferred.Ev α ℤ)
  | timer (e : Deferred.Ev β Unit)
  deriving DecidableEq

/-- How the process ends: the asserts of the engine, its threads and tasks, and what it does with a
null pointer or past the end of a vector. -/
inductive Fault
  | noInputTask
  | nullTimer
  | nullNotifier
  | epollDestroy
  | assignTask
  | resetTask
  | taskStopped
  | threadStopped
  | threadNotStopped
  | threadRunning
  | inNotifier (f : Deferred.Fault)
  | nullDeref
  | outOfRange
  deriving DecidableEq

/-- `CEpoll`: its descriptor, and its caches and set. -/
structure CEpoll (α : Type) where
  i32epfd : ℤ
  st : Deferred.St α ℤ := {}

/-- `CInputHandleTask`, `COutputHandleTask`; the latter does not initialize `m_i32TaskId`, which is
set before anyone reads it. -/
structure IoTask (α : Type) where
  i32TaskId : ℤ := -1
  pIoEvtNotifier : Option (CEpoll α) := none

/-- `CMiscTask`. -/
structure CMiscTask (β : Type) where
  pTimeNotifier : Option (Deferred.St β Unit) := none

/-- `IThreadTask`. -/
structure ThreadTask where
  ref : Ref
  bStop : Bool := false

/-- `CThread`; `m_bRunning` is not initialized. -/
structure CThread where
  pTask : Option ThreadTask := none
  bStop : Bool := false
  bRunning : Bool

structure CSNEngine (α β : Type) where
  i32curstate : State := .esStopped
  vecThreads : List CThread := []
  vecInputTasks : List (IoTask α) := []
  vecOutputTasks : List (IoTask α) := []
  pMiscTask : Option (CMiscTask β) := none

/-- What the system does in one round of `starting`. -/
structure Round where
  newTask : Bool := true
  newNotifier : Bool := true
  epfd : ℤ := 3
  newThread : Bool := true
  bRunning : Bool := false
  i32Errno : ℕ := 0

/-- The parameters of `start`, with what the system does in it. -/
structure SParas where
  outputs : List Round
  inputs : List Round
  misc : Round
  i32IoEvtNotifier : ℤ

/-- The rounds for the tasks of a type. -/
def SParas.rounds (sp : SParas) : IoType → List Round
  | .output => sp.outputs
  | .input => sp.inputs

variable {α β : Type}

/-! ### Threads -/

namespace CThread

/-- `assign_task`. -/
def assignTask (t : Ref) (th : CThread) : Eff (Ev α β) Fault CThread :=
  Eff.require (th.pTask.isNone = true) .assignTask >>= fun _ =>
    pure { th with pTask := some { ref := t } }

/-- `start`; `pthread_create` returns 0 or the number of an error. -/
def start (i32Errno : ℕ) (th : CThread) : Eff (Ev α β) Fault ℤ :=
  match th.pTask with
  | none => pure (-1)
  | some t => Eff.emit (.threadStarted t.ref i32Errno) >>= fun _ => pure (i32Errno : ℤ)

/-- `reset_task`. -/
def resetTask (th : CThread) : Eff (Ev α β) Fault CThread :=
  match th.pTask with
  | none => Eff.abort .resetTask
  | some t => Eff.emit (.taskReset t.ref) >>= fun _ => pure { th with pTask := none }

/-- `stop`. -/
def stop (th : CThread) : Eff (Ev α β) Fault CThread :=
  (match th.pTask with
    | none => pure th
    | some t => Eff.require (t.bStop = false) .taskStopped >>= fun _ =>
      Eff.emit (.taskStopped t.ref) >>= fun _ =>
      pure { th with pTask := some { t with bStop := true } }) >>= fun th =>
  Eff.require (th.bStop = false) .threadStopped >>= fun _ => pure { th with bStop := true }

/-- `stop_wait`. -/
def stopWait (th : CThread) : Eff (Ev α β) Fault CThread := stop th >>= resetTask

/-- `destroy`, which the destructor calls. -/
def destroy (th : CThread) : Eff (Ev α β) Fault CThread :=
  Eff.require (th.bStop = true) .threadNotStopped >>= fun _ =>
  Eff.require (th.bRunning = false) .threadRunning >>= fun _ => pure { th with pTask := none }

end CThread

/-! ### Tasks -/

namespace IoTask

/-- `init`, with the state it leaves. -/
def init (i32IoEvtNotifier : ℤ) (r : Round) : Cmnerr × IoTask α :=
  if i32IoEvtNotifier = eienEpoll ∧ r.newNotifier = true then
    (if r.epfd < 0 then .commonErr else .suc, { pIoEvtNotifier := some { i32epfd := r.epfd } })
  else (.commonErr, {})

/-- `destroy`, which the destructor calls. -/
def destroy (t : IoTask α) : Eff (Ev α β) Fault Unit :=
  match t.pIoEvtNotifier with
  | none => pure ()
  | some n => Eff.require (0 ≤ n.i32epfd) .epollDestroy

end IoTask

/-! ### Start and stop -/

namespace CSNEngine

/-- `m_vecInputTasks`, `m_vecOutputTasks`. -/
def vec (e : CSNEngine α β) : IoType → List (IoTask α)
  | .input => e.vecInputTasks
  | .output => e.vecOutputTasks

def setVec (e : CSNEngine α β) : IoType → List (IoTask α) → CSNEngine α β
  | .input, v => { e with vecInputTasks := v }
  | .output, v => { e with vecOutputTasks := v }

def setCurState (e : CSNEngine α β) (i32State : State) : CSNEngine α β :=
  { e with i32curstate := i32State }

/-- A new thread is given its task and started. -/
def startThread (t : Ref) (r : Round) : Eff (Ev α β) Fault (Option CThread) :=
  if r.newThread then
    CThread.assignTask t { bRunning := r.bRunning } >>= fun th =>
    th.start r.i32Errno >>= fun i32Ret =>
    if i32Ret < 0 then th.destroy >>= fun _ => pure none else pure (some th)
  else Eff.abort .nullDeref

/-- A task and its thread are pushed back; `set_indx`, `set_id` with the index of the task. -/
def pushTask (e : CSNEngine α β) (ty : IoType) (t : IoTask α) (th : CThread) : CSNEngine α β :=
  let e := e.setVec ty (e.vec ty ++ [{ t with i32TaskId := (e.vec ty).length }])
  { e with vecThreads := e.vecThreads ++ [th] }

/-- A round of the loops of `starting`; `false` if it returns `RET_ERR`. -/
def ioRound (ty : IoType) (i32IoEvtNotifier : ℤ) (r : Round) (e : CSNEngine α β) :
    Eff (Ev α β) Fault (Bool × CSNEngine α β) :=
  if r.newTask then
    let (i32Ret, t) := IoTask.init i32IoEvtNotifier r
    if i32Ret ≠ .suc then t.destroy >>= fun _ => pure (false, e) else
    startThread (.io ty (e.vec ty).length) r >>= fun pThread =>
    match pThread with
    | none => t.destroy >>= fun _ => pure (false, e)
    | some th => pure (true, e.pushTask ty t th)
  else Eff.abort .nullDeref

/-- The loop over the output tasks, the loop over the input tasks. -/
def ioRounds (ty : IoType) (i32IoEvtNotifier : ℤ) :
    List Round → CSNEngine α β → Eff (Ev α β) Fault (Bool × CSNEngine α β)
  | [], e => pure (true, e)
  | r :: rs, e => ioRound ty i32IoEvtNotifier r e >>= fun (ok, e) =>
    if ok then ioRounds ty i32IoEvtNotifier rs e else pure (false, e)

/-- The end of `starting`. -/
def miscRound (r : Round) (e : CSNEngine α β) : Eff (Ev α β) Fault (Cmnerr × CSNEngine α β) :=
  if r.newTask then
    if r.newNotifier then
      let e := { e with pMiscTask := some { pTimeNotifier := some {} } }
      startThread .misc r >>= fun pThread =>
      match pThread with
      | none => pure (.commonErr, e)
      | some th => pure (.suc, { e with vecThreads := e.vecThreads ++ [th] })
    else pure (.commonErr, { e with pMiscTask := some {} })
  else Eff.abort .nullDeref

/-- `starting`. -/
def starting (sp : SParas) (e : CSNEngine α β) : Eff (Ev α β) Fault (Cmnerr × CSNEngine α β) :=
  if sp.inputs.length = 0 ∨ sp.outputs.length = 0 ∨ sp.i32IoEvtNotifier = 0 then
    pure (.commonErr, e) else
  ioRounds .output sp.i32IoEvtNotifier sp.outputs e >>= fun (ok, e) =>
  if ok = false then pure (.commonErr, e) else
  ioRounds .input sp.i32IoEvtNotifier sp.inputs e >>= fun (ok, e) =>
  if ok = false then pure (.commonErr, e) else
  miscRound sp.misc e

/-- `stopping`; what `clear` drops is destroyed. -/
def stopping (e : CSNEngine α β) : Eff (Ev α β) Fault (Cmnerr × CSNEngine α β) :=
  Eff.forEach CThread.stopWait e.vecThreads >>= fun ths =>
  Eff.forEach CThread.resetTask ths >>= fun ths =>
  Eff.forEach CThread.destroy ths >>= fun _ =>
  Eff.forEach IoTask.destroy e.vecInputTasks >>= fun _ =>
  Eff.forEach IoTask.destroy e.vecOutputTasks >>= fun _ =>
  pure (.suc, { e with vecThreads := [], vecInputTasks := [], vecOutputTasks := [],
                       pMiscTask := none })

/-- A handler of the state machine. -/
abbrev Handler (α β : Type) := CSNEngine α β → Eff (Ev α β) Fault (Cmnerr × CSNEngine α β)

/-- What the constructor registers. -/
def handlers (pVoid : Option SParas) :
    State → Evt → Option (StateMachine.SElem State (Handler α β))
  | .esStopped, .eeStart => some ⟨.esStarted, some fun e => match pVoid with
    | none => Eff.abort .nullDeref
    | some sp => starting sp e⟩
  | .esStarted, .eeStop => some ⟨.esStopped, some stopping⟩
  | _, _ => none

/-- `start`. -/
def start (sp : SParas) (e : CSNEngine α β) : Eff (Ev α β) Fault (ℤ × CSNEngine α β) :=
  StateMachine.postEvt i32curstate setCurState (handlers (some sp)) e .eeStart

/-- `stop`. -/
def stop (e : CSNEngine α β) : Eff (Ev α β) Fault (ℤ × CSNEngine α β) :=
  StateMachine.postEvt i32curstate setCurState (handlers none) e .eeStop

end CSNEngine

/-! ### Objects -/

/-- `IIoObj`: its task ids and event masks. -/
structure IIoObj where
  i32InputTaskId : ℤ := 0
  i32OutputTaskId : ℤ := 0
  ui32InputEvt : ℕ := 0
  ui32OutputEvt : ℕ := 0

namespace IIoObj

/-- `get_io_evt`, 0 for a type there is not. -/
def getIoEvt (o : IIoObj) (i32IoType : ℤ) : ℕ :=
  if i32IoType = eit .input then o.ui32InputEvt
  else if i32IoType = eit .output then o.ui32OutputEvt else 0

/-- `set_io_evt`. -/
def setIoEvt (o : IIoObj) (ty : IoType) (ui32IoEvt : ℕ) : IIoObj :=
  match ty with
  | .input => { o with ui32InputEvt := ui32IoEvt }
  | .output => { o with ui32OutputEvt := ui32IoEvt }

/-- `get_task_id`. -/
def getTaskId (o : IIoObj) : IoType → ℤ
  | .input => o.i32InputTaskId
  | .output => o.i32OutputTaskId

/-- `set_task_id`. -/
def setTaskId (o : IIoObj) (ty : IoType) (i32TaskId : ℤ) : IIoObj :=
  match ty with
  | .input => { o with i32InputTaskId := i32TaskId }
  | .output => { o with i32OutputTaskId := i32TaskId }

end IIoObj

/-- The engine and the objects. -/
structure Sys (α β : Type) where
  eng : CSNEngine α β := {}
  objs : α → IIoObj

/-- The `i`-th task of a vector is changed. -/
def Sys.setTask (s : Sys α β) (ty : IoType) (i : ℕ) (t : IoTask α) : Sys α β :=
  { s with eng := s.eng.setVec ty ((s.eng.vec ty).set i t) }

/-! ### Requests -/

/-- `get_ioobj_cnt` of a task, as an `int32_t`. -/
def IoTask.getIoobjCnt (t : IoTask α) : ℤ :=
  match t.pIoEvtNotifier with
  | none => 0
  | some n => ((n.st.setObjs.card + n.st.vecAddCache.length : ℤ) -
      n.st.vecDelCache.length).bmod (2 ^ 32)

/-- The loop of `add_endpoint` over the tasks from the `i`-th on: the first one without objects, or
the first one with the fewest. -/
def pickLoop (i best : ℕ) (i32MinCnt : ℤ) : List ℤ → ℕ
  | [] => best
  | c :: cs =>
    if 0 = c then i
    else if i32MinCnt > c then pickLoop (i + 1) i c cs else pickLoop (i + 1) best i32MinCnt cs

/-- The task `add_endpoint` chooses. -/
def pickTask : List (IoTask α) → Option ℕ
  | [] => none
  | t :: ts => some (pickLoop 0 0 t.getIoobjCnt ((t :: ts).map IoTask.getIoobjCnt))

section Requests

variable [DecidableEq α] [DecidableEq β]

/-- A request to the notifier of a task; without one an assert fails, or the call goes through the
null pointer. -/
def ntfRequest (ty : IoType) (i : ℕ) (r : Req) (x : α) (s : Sys α β) :
    Eff (Ev α β) Fault (Sys α β) :=
  match (s.eng.vec ty)[i]? with
  | none => Eff.abort .outOfRange
  | some t => match t.pIoEvtNotifier with
    | none => Eff.abort .nullNotifier
    | some n => Eff.lift (Ev.io (.io ty i)) Fault.inNotifier
        (Deferred.request (cEpoll fun y => (s.objs y).getIoEvt (eit ty)) r x n.st) >>= fun st =>
      pure (s.setTask ty i { t with pIoEvtNotifier := some { n with st := st } })

/-- `add_io_obj` of a task. -/
def addIoObj (ty : IoType) (i : ℕ) (x : α) (s : Sys α β) : Eff (Ev α β) Fault (Sys α β) :=
  match (s.eng.vec ty)[i]? with
  | none => Eff.abort .outOfRange
  | some t => ntfRequest ty i .add x
      { s with objs := Function.update s.objs x ((s.objs x).setTaskId ty t.i32TaskId) }

/-- `del_io_obj` of a task. -/
def delIoObj (ty : IoType) (i : ℕ) (x : α) (s : Sys α β) : Eff (Ev α β) Fault (Sys α β) :=
  ntfRequest ty i .del x s

/-- `begin_lock_state`, a `bool`. -/
def beginLockState (i32State : State) (s : Sys α β) : Eff (Ev α β) Fault Bool :=
  Eff.emit .lock >>= fun _ => pure (decide (s.eng.i32curstate = i32State))

/-- `end_lock_state`. -/
def endLockState : Eff (Ev α β) Fault Unit := Eff.emit .unlock

/-- The test `begin_lock_state(ES_STARTED) < 0`, which compares the `bool` as an `int`. -/
def lockFails (b : Bool) : Bool := decide ((b.toNat : ℤ) < 0)

/-- The part of `add_endpoint` for one type: a task is chosen and gets the object. -/
def assign (ty : IoType) (x : α) (s : Sys α β) : Eff (Ev α β) Fault (Sys α β) :=
  match pickTask (s.eng.vec ty) with
  -- `*(m_vecOutputTasks.begin())` of an empty vector
  | none => Eff.abort .outOfRange
  | some i => addIoObj ty i x s

/-- `add_endpoint`. -/
def addEndpoint (pIoObj : Option α) (i32IoType : ℤ) (s : Sys α β) :
    Eff (Ev α β) Fault (Option Cmnerr × Sys α β) :=
  match pIoObj with
  | none => pure (some .commonErr, s)
  | some x => beginLockState .esStarted s >>= fun b =>
    if lockFails b then pure (some .commonErr, s) else
    (if i32IoType = eit .input then
      Eff.require (s.eng.vecInputTasks ≠ []) .noInputTask >>= fun _ => assign .input x s
    else pure s) >>= fun s =>
    (if i32IoType = eit .output then assign .output x s else pure s) >>= fun s =>
    endLockState >>= fun _ => pure (some .suc, s)

/-- The part of `del_endpoint` for one type. -/
def unassign (ty : IoType) (x : α) (s : Sys α β) : Eff (Ev α β) Fault (Sys α β) :=
  let i32TaskId := (s.objs x).getTaskId ty
  if 0 ≤ i32TaskId then delIoObj ty i32TaskId.toNat x s else pure s

/-- `del_endpoint`, which ends without a `return`. -/
def delEndpoint (pIoObj : Option α) (i32IoType : ℤ) (s : Sys α β) :
    Eff (Ev α β) Fault (Option Cmnerr × Sys α β) :=
  match pIoObj with
  | none => pure (some .commonErr, s)
  | some x => beginLockState .esStarted s >>= fun b =>
    if lockFails b then pure (some .commonErr, s) else
    (if i32IoType = eit .input then unassign .input x s else pure s) >>= fun s =>
    (if i32IoType = eit .output then unassign .output x s else pure s) >>= fun s =>
    endLockState >>= fun _ => pure (none, s)

/-- `add_timer`, `del_timer` of `m_pMiscTask`. -/
def miscRequest (r : Req) (x : β) (s : Sys α β) : Eff (Ev α β) Fault (Sys α β) :=
  match s.eng.pMiscTask with
  | none => Eff.abort .nullDeref
  | some t => match t.pTimeNotifier with
    | none => Eff.abort .nullNotifier
    | some st => Eff.lift Ev.timer Fault.inNotifier (Deferred.request cTimeNotifier r x st) >>=
        fun st => pure { s with eng := { s.eng with pMiscTask := some ⟨some st⟩ } }

/-- `add_timer` and `del_timer`, which end without a `return`. -/
def timerRequest (r : Req) (pTimerObj : Option β) (s : Sys α β) :
    Eff (Ev α β) Fault (Option Cmnerr × Sys α β) :=
  match pTimerObj with
  | none => Eff.abort .nullTimer
  | some x => beginLockState .esStarted s >>= fun b =>
    if lockFails b then pure (some .commonErr, s) else
    miscRequest r x s >>= fun s => endLockState >>= fun _ => pure (none, s)

def addTimer (pTimerObj : Option β) (s : Sys α β) :
    Eff (Ev α β) Fault (Option Cmnerr × Sys α β) := timerRequest .add pTimerObj s

def delTimer (pTimerObj : Option β) (s : Sys α β) :
    Eff (Ev α β) Fault (Option Cmnerr × Sys α β) := timerRequest .del pTimerObj s

/-- A request to the engine. -/
inductive Call (α β : Type)
  | addEndpoint (pIoObj : Option α) (i32IoType : ℤ)
  | delEndpoint (pIoObj : Option α) (i32IoType : ℤ)
  | addTimer (pTimerObj : Option β)
  | delTimer (pTimerObj : Option β)

/-- What a request returns, if it returns anything. -/
def Call.make : Call α β → Sys α β → Eff (Ev α β) Fault (Option Cmnerr × Sys α β)
  | .addEndpoint x ty => Engine.addEndpoint x ty
  | .delEndpoint x ty => Engine.delEndpoint x ty
  | .addTimer x => Engine.addTimer x
  | .delTimer x => Engine.delTimer x

/-! ### Everything that happens -/

/-- Calls of other threads, and steps of the engine's threads: of their notifiers, and into and out
of `exec`. -/
inductive Act (α β : Type)
  | start (sp : SParas)
  | stop
  | request (c : Call α β)
  | execIo (ty : IoType) (i : ℕ) (i32Ret : ℤ)
  | execTimer
  | running (i : ℕ) (bRunning : Bool)
  | setIoEvt (x : α) (ty : IoType) (ui32IoEvt : ℕ)

/-- A step of the notifier of a task. -/
def execIo (ty : IoType) (i : ℕ) (i32Ret : ℤ) (s : Sys α β) : Eff (Ev α β) Fault (Sys α β) :=
  match (s.eng.vec ty)[i]? with
  | none => pure s
  | some t => match t.pIoEvtNotifier with
    | none => pure s
    | some n => Eff.lift (Ev.io (.io ty i)) Fault.inNotifier
        (Deferred.exec (cEpoll fun y => (s.objs y).getIoEvt (eit ty)) i32Ret n.st) >>= fun st =>
      pure (s.setTask ty i { t with pIoEvtNotifier := some { n with st := st } })

/-- A step of the notifier of `m_pMiscTask`. -/
def execTimer (s : Sys α β) : Eff (Ev α β) Fault (Sys α β) :=
  match s.eng.pMiscTask with
  | some ⟨some st⟩ => Eff.lift Ev.timer Fault.inNotifier (Deferred.exec cTimeNotifier () st) >>=
      fun st => pure { s with eng := { s.eng with pMiscTask := some ⟨some st⟩ } }
  | _ => pure s

/-- The engine after a call of its own. -/
def within (s : Sys α β) (x : Eff (Ev α β) Fault (ℤ × CSNEngine α β)) :
    Eff (Ev α β) Fault (Sys α β) :=
  x >>= fun (_, e) => pure { s with eng := e }

/-- A thread comes into `exec` or out of it. -/
def setRunning (i : ℕ) (bRunning : Bool) (e : CSNEngine α β) : CSNEngine α β :=
  { e with vecThreads := e.vecThreads.modify i fun th => { th with bRunning := bRunning } }

/-- One step. -/
def step : Act α β → Sys α β → Eff (Ev α β) Fault (Sys α β)
  | .start sp, s => within s (s.eng.start sp)
  | .stop, s => within s s.eng.stop
  | .request c, s => c.make s >>= fun a => pure a.2
  | .execIo ty i i32Ret, s => execIo ty i i32Ret s
  | .execTimer, s => execTimer s
  | .running i b, s => pure { s with eng := setRunning i b s.eng }
  | .setIoEvt x ty evt, s =>
    pure { s with objs := Function.update s.objs x ((s.objs x).setIoEvt ty evt) }

/-- An engine from its construction on, among objects that may have been with others. -/
def run (objs : α → IIoObj) (as : List (Act α β)) : Proc (Sys α β) (Ev α β) Fault :=
  Proc.run step ⟨{ objs := objs }, [], none⟩ as

end Requests

end SmartNet.Framework.Engine
