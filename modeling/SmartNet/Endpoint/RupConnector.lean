import SmartNet.Endpoint.Types
import SmartNet.Lib.Triple
import SmartNet.Utils.StateMachine

/-! # `CRupConnector`

The state machine of a connector. It is registered with the timer task while it is open; a tick with
a waiting endpoint starts a connection, for which it is registered with the output task as well;
when the output task reports the connection, the connector leaves the output task and hands the
socket to a waiting endpoint.

* `post_trans`: everything a `post_evt` that returns can do, a constructor of `Trans` for each row
  of the table;
* `post_fails`: the asserts it can run into;
* `UserCode.run_adding`, `UserCode.run_deling`: what user code does in `on_opened` and in
  `on_closed`. -/

namespace SmartNet.Endpoint.RupConnector

open SmartNet.Common SmartNet.Lib SmartNet.Utils.StateMachine SmartNet.Endpoint.Types

inductive St
  | esClosed
  | esAddingIntoTt
  | esCheckingTimer
  | esDelingFromTt
  | esAddingIntoOt
  | esConnecting
  | esDelingFromOtClose
  | esDelingFromOtNormal
  deriving DecidableEq, Repr

/-- The events. `EE_CONNECT` comes with the outcome of the `open` of a new socket,
`EE_DELED_FROM_OT` with the answers of the waiting endpoints to `handle_connected`, as far as the
queue goes. -/
inductive Evt
  | eeOpen (sp : SParas)
  | eeConnect (pTcpSock : CRupSock)
  | eeClose
  | eeAddedIntoOt
  | eeDeledFromOt (dqIdleEndpoints : List Bool)
  | eeInternalErr
  | eeAddedIntoTt
  | eeConnected
  | eeDeledFromTt
  deriving DecidableEq, Repr

structure CRupConnector where
  state : St
  i32PendingEvt : PendingEvt
  pTcpSock : Option CRupSock
  strAcceptorIp : String
  ui16AcceptorPort : ℕ
  ui64Interval : ℕ
  deriving DecidableEq, Repr

/-- What the connector does to the outside. -/
inductive Ev
  | addTimer
  | delTimer
  | addEndpoint
  | delEndpoint
  | sockConnect (s : ℕ) (strIP : String) (ui16Port : ℕ)
  | sockClose (s : ℕ)
  | handleConnected (s : ℕ) (suc : Bool)
  | onOpened
  | onClosed
  | openRet (r : ℤ)
  | closeRet (r : ℤ)
  deriving DecidableEq, Repr

/-- The asserts of the connector (`m_ui64Interval > 0`, `NULL == m_pTcpSock`,
`EE_CLOSE == m_i32PendingEvt`, `is_opened()`, `!is_opened()`, and that `EE_INTERNAL_ERR` is taken),
and a call through a NULL `m_pTcpSock`. -/
inductive Fault
  | interval
  | sockNotNull
  | pendingEvt
  | notOpened
  | opened
  | refused
  | sockNull
  deriving DecidableEq, Repr

abbrev Handler := CRupConnector → Eff Ev Fault (Cmnerr × CRupConnector)

/-- The user code of `on_opened` and `on_closed`. -/
abbrev Callback := CRupConnector → Eff Ev Fault CRupConnector

/-- A freshly constructed connector. -/
def init : CRupConnector := ⟨.esClosed, .eeNone, none, "", 0, 0⟩

/-! ## The handlers -/

/-- The system call of `CRupSock::close`, if there is one. -/
def closing (k : CRupSock) : List Ev := if k.isOpened then [.sockClose k.hSock] else []

/-- `m_pTcpSock->close()`. -/
def closeSock (s : CRupConnector) : Eff Ev Fault CRupConnector :=
  match s.pTcpSock with
  | none => .abort .sockNull
  | some k => ⟨closing k, .ok { s with pTcpSock := some { k with isOpened := false } }⟩

def handlingClosedToAddingIntoTt (sp : SParas) : Handler := fun s => do
  .require (0 < sp.ui64Val) .interval
  .emit .addTimer
  pure (.suc, { s with
    i32PendingEvt := .eeNone
    strAcceptorIp := sp.strIP
    ui16AcceptorPort := sp.ui16Port
    ui64Interval := sp.ui64Val })

/-- The event is only recorded. -/
def record (p : PendingEvt) : Handler := fun s => pure (.suc, { s with i32PendingEvt := p })

def handlingCloseWhileAddingIntoTt : Handler := record .eeClose

def handlingAddingIntoTtToCheckingTimer (onOpened : Callback) : Handler := fun s =>
  if s.i32PendingEvt ≠ .eeNone then do
    .require (s.i32PendingEvt = .eeClose) .pendingEvt
    .emit .delTimer
    pure (.commonErr, { s with state := .esDelingFromTt })
  else do
    .emit .onOpened
    let s ← onOpened s
    pure (.suc, s)

def handlingCloseWhileCheckingTimer : Handler := fun s => do
  .require (s.pTcpSock = none) .sockNotNull
  .emit .delTimer
  pure (.suc, s)

-- the results of the socket's `open`, `set_nonblock` and `connect` are dropped
def handlingCheckingTimerToAddingIntoOt (pTcpSock : CRupSock) : Handler := fun s => do
  .require (s.pTcpSock = none) .sockNotNull
  .emit (.sockConnect pTcpSock.hSock s.strAcceptorIp s.ui16AcceptorPort)
  .emit .addEndpoint
  pure (.suc, { s with pTcpSock := some pTcpSock })

def handlingCloseWhileAddingIntoOt : Handler := record .eeClose

def handlingInternalErrWhileAddingIntoOt : Handler := record .eeInternalErr

def handlingAddingIntoOtToConnecting : Handler := fun s =>
  if s.i32PendingEvt ≠ .eeNone then do
    let s ← closeSock s
    .emit .delEndpoint
    pure (.commonErr,
      { s with
        state :=
          if s.i32PendingEvt = .eeClose then .esDelingFromOtClose else .esDelingFromOtNormal })
  else pure (.suc, s)

/-- The socket is closed and the output task left. -/
def leaveOt : Handler := fun s => do
  let s ← closeSock s
  .emit .delEndpoint
  pure (.suc, s)

def handlingCloseWhileConnecting : Handler := leaveOt

def handlingInternalErrWhileConnecting : Handler := leaveOt

def handlingConnected : Handler := fun s =>
  match s.pTcpSock with
  | none => .abort .sockNull
  | some k => do
    .require (k.isOpened = true) .notOpened
    .emit .delEndpoint
    pure (.suc, s)

def handlingDelingFromOtCloseToDelingFromTt : Handler := fun s =>
  match s.pTcpSock with
  | none => .abort .sockNull
  | some k => do
    .require (k.isOpened = false) .opened
    .emit .delTimer
    pure (.suc, s)

def handlingCloseWhileDelingFromOtNormal : Handler := record .eeClose

def handlingInternalErrWhileDelingFromOtNormal : Handler := fun s => do
  let s ← closeSock s
  pure (.suc, s)

/-- The loop over the waiting endpoints: the socket goes to the first that takes it, and is closed
when the queue runs out. -/
def handOff (k : CRupSock) : List Bool → List Ev
  | [] => closing k
  | true :: _ => [.handleConnected k.hSock true]
  | false :: rest => .handleConnected k.hSock false :: handOff k rest

def handlingDelingFromOtNormalToCheckingTimer (dqIdleEndpoints : List Bool) : Handler := fun s =>
  if s.i32PendingEvt ≠ .eeNone then do
    .require (s.i32PendingEvt = .eeClose) .pendingEvt
    let s ← closeSock s
    .emit .delTimer
    pure (.commonErr, { s with state := .esDelingFromTt, pTcpSock := none })
  else
    match s.pTcpSock with
    | none => .abort .sockNull
    | some k =>
      if k.isOpened = false then pure (.suc, { s with pTcpSock := none })
      else ⟨handOff k dqIdleEndpoints, .ok (.suc, { s with pTcpSock := none })⟩

def handlingDelingFromTtToClosed (onClosed : Callback) : Handler := fun s => do
  .emit .onClosed
  let s ← onClosed s
  pure (.suc, s)

/-- The table of the constructor. -/
def initSm (cb : Callback) : St → Evt → Option (SElem St Handler)
  | .esClosed, .eeOpen sp => some ⟨.esAddingIntoTt, handlingClosedToAddingIntoTt sp⟩
  | .esAddingIntoTt, .eeClose => some ⟨.esAddingIntoTt, handlingCloseWhileAddingIntoTt⟩
  | .esAddingIntoTt, .eeAddedIntoTt =>
    some ⟨.esCheckingTimer, handlingAddingIntoTtToCheckingTimer cb⟩
  | .esCheckingTimer, .eeClose => some ⟨.esDelingFromTt, handlingCloseWhileCheckingTimer⟩
  | .esCheckingTimer, .eeConnect k => some ⟨.esAddingIntoOt, handlingCheckingTimerToAddingIntoOt k⟩
  | .esAddingIntoOt, .eeClose => some ⟨.esAddingIntoOt, handlingCloseWhileAddingIntoOt⟩
  | .esAddingIntoOt, .eeInternalErr => some ⟨.esAddingIntoOt, handlingInternalErrWhileAddingIntoOt⟩
  | .esAddingIntoOt, .eeAddedIntoOt => some ⟨.esConnecting, handlingAddingIntoOtToConnecting⟩
  | .esConnecting, .eeClose => some ⟨.esDelingFromOtClose, handlingCloseWhileConnecting⟩
  | .esConnecting, .eeInternalErr =>
    some ⟨.esDelingFromOtNormal, handlingInternalErrWhileConnecting⟩
  | .esConnecting, .eeConnected => some ⟨.esDelingFromOtNormal, handlingConnected⟩
  | .esDelingFromOtClose, .eeDeledFromOt _ =>
    some ⟨.esDelingFromTt, handlingDelingFromOtCloseToDelingFromTt⟩
  | .esDelingFromOtNormal, .eeClose =>
    some ⟨.esDelingFromOtNormal, handlingCloseWhileDelingFromOtNormal⟩
  | .esDelingFromOtNormal, .eeInternalErr =>
    some ⟨.esDelingFromOtNormal, handlingInternalErrWhileDelingFromOtNormal⟩
  | .esDelingFromOtNormal, .eeDeledFromOt eps =>
    some ⟨.esCheckingTimer, handlingDelingFromOtNormalToCheckingTimer eps⟩
  | .esDelingFromTt, .eeDeledFromTt => some ⟨.esClosed, handlingDelingFromTtToClosed cb⟩
  | _, _ => none

/-- `m_sm.post_evt`. -/
def postEvt (cb : Callback) (s : CRupConnector) (e : Evt) : Eff Ev Fault (ℤ × CRupConnector) :=
  Utils.StateMachine.postEvt CRupConnector.state
    (fun s st => { s with state := st }) (initSm cb) s e

/-- `open`. -/
def openEp (sp : SParas) (s : CRupConnector) : Eff Ev Fault CRupConnector :=
  returning .openRet (postEvt pure s (.eeOpen sp))

/-- `close`. It never leads to a callback by itself. -/
def close (s : CRupConnector) : Eff Ev Fault CRupConnector :=
  returning .closeRet (postEvt pure s .eeClose)

/-- The calls that `on_opened` or `on_closed` make, one after the other. -/
inductive UserCode
  | done
  | callOpen (sp : SParas) (next : UserCode)
  | callClose (next : UserCode)
  deriving DecidableEq, Repr

def UserCode.run : UserCode → Callback
  | .done, s => pure s
  | .callOpen sp next, s => openEp sp s >>= next.run
  | .callClose next, s => close s >>= next.run

/-! ## What a call can do -/

/-- What `post_evt` does when it returns: a row of the table, or nothing. -/
inductive Trans (cb : Callback) (s : CRupConnector) : Evt → List Ev → ℤ → CRupConnector → Prop
  | ignored {e : Evt} (h : initSm cb s.state e = none) : Trans cb s e [] (-1) s
  | opens (h : s.state = .esClosed) {sp : SParas} (hv : 0 < sp.ui64Val) :
      Trans cb s (.eeOpen sp) [.addTimer] 0
        ⟨.esAddingIntoTt, .eeNone, s.pTcpSock, sp.strIP, sp.ui16Port, sp.ui64Val⟩
  | closeAddingTt (h : s.state = .esAddingIntoTt) :
      Trans cb s .eeClose [] 0 { s with i32PendingEvt := .eeClose }
  | addedTtClose (h : s.state = .esAddingIntoTt) (hp : s.i32PendingEvt = .eeClose) :
      Trans cb s .eeAddedIntoTt [.delTimer] (-2) { s with state := .esDelingFromTt }
  | addedTt (h : s.state = .esAddingIntoTt) (hp : s.i32PendingEvt = .eeNone) {evs : List Ev}
      {s1 : CRupConnector} (hcb : cb s = ⟨evs, .ok s1⟩) :
      Trans cb s .eeAddedIntoTt (.onOpened :: evs) 0 { s1 with state := .esCheckingTimer }
  | closeChecking (h : s.state = .esCheckingTimer) (hs : s.pTcpSock = none) :
      Trans cb s .eeClose [.delTimer] 0 { s with state := .esDelingFromTt }
  | connect (h : s.state = .esCheckingTimer) (hs : s.pTcpSock = none) (k : CRupSock) :
      Trans cb s (.eeConnect k)
        [.sockConnect k.hSock s.strAcceptorIp s.ui16AcceptorPort, .addEndpoint] 0
        { s with state := .esAddingIntoOt, pTcpSock := some k }
  | closeAddingOt (h : s.state = .esAddingIntoOt) :
      Trans cb s .eeClose [] 0 { s with i32PendingEvt := .eeClose }
  | errAddingOt (h : s.state = .esAddingIntoOt) :
      Trans cb s .eeInternalErr [] 0 { s with i32PendingEvt := .eeInternalErr }
  | addedOtPending (h : s.state = .esAddingIntoOt) (hp : s.i32PendingEvt ≠ .eeNone) {k : CRupSock}
      (hs : s.pTcpSock = some k) :
      Trans cb s .eeAddedIntoOt (closing k ++ [.delEndpoint]) (-2)
        { s with
          state :=
            if s.i32PendingEvt = .eeClose then .esDelingFromOtClose else .esDelingFromOtNormal
          pTcpSock := some { k with isOpened := false } }
  | addedOt (h : s.state = .esAddingIntoOt) (hp : s.i32PendingEvt = .eeNone) :
      Trans cb s .eeAddedIntoOt [] 0 { s with state := .esConnecting }
  | closeConnecting (h : s.state = .esConnecting) {k : CRupSock} (hs : s.pTcpSock = some k) :
      Trans cb s .eeClose (closing k ++ [.delEndpoint]) 0
        { s with state := .esDelingFromOtClose, pTcpSock := some { k with isOpened := false } }
  | errConnecting (h : s.state = .esConnecting) {k : CRupSock} (hs : s.pTcpSock = some k) :
      Trans cb s .eeInternalErr (closing k ++ [.delEndpoint]) 0
        { s with state := .esDelingFromOtNormal, pTcpSock := some { k with isOpened := false } }
  | connected (h : s.state = .esConnecting) {k : CRupSock} (hs : s.pTcpSock = some k)
      (hk : k.isOpened = true) :
      Trans cb s .eeConnected [.delEndpoint] 0 { s with state := .esDelingFromOtNormal }
  | deledOtClose (h : s.state = .esDelingFromOtClose) {k : CRupSock} (hs : s.pTcpSock = some k)
      (hk : k.isOpened = false) (eps : List Bool) :
      Trans cb s (.eeDeledFromOt eps) [.delTimer] 0 { s with state := .esDelingFromTt }
  | closeDeling (h : s.state = .esDelingFromOtNormal) :
      Trans cb s .eeClose [] 0 { s with i32PendingEvt := .eeClose }
  | errDeling (h : s.state = .esDelingFromOtNormal) {k : CRupSock} (hs : s.pTcpSock = some k) :
      Trans cb s .eeInternalErr (closing k) 0
        { s with pTcpSock := some { k with isOpened := false } }
  | deledOtPending (h : s.state = .esDelingFromOtNormal) (hp : s.i32PendingEvt = .eeClose)
      {k : CRupSock} (hs : s.pTcpSock = some k) (eps : List Bool) :
      Trans cb s (.eeDeledFromOt eps) (closing k ++ [.delTimer]) (-2)
        { s with state := .esDelingFromTt, pTcpSock := none }
  | deledOt (h : s.state = .esDelingFromOtNormal) (hp : s.i32PendingEvt = .eeNone) {k : CRupSock}
      (hs : s.pTcpSock = some k) (eps : List Bool) :
      Trans cb s (.eeDeledFromOt eps) (if k.isOpened = false then [] else handOff k eps) 0
        { s with state := .esCheckingTimer, pTcpSock := none }
  | deledTt (h : s.state = .esDelingFromTt) {evs : List Ev} {s1 : CRupConnector}
      (hcb : cb s = ⟨evs, .ok s1⟩) :
      Trans cb s .eeDeledFromTt (.onClosed :: evs) 0 { s1 with state := .esClosed }

/-- The ways `post_evt` ends the process. -/
inductive Fails (cb : Callback) (s : CRupConnector) : Evt → List Ev → Fault → Prop
  | interval (h : s.state = .esClosed) {sp : SParas} (hv : sp.ui64Val = 0) :
      Fails cb s (.eeOpen sp) [] .interval
  | pendingEvt (h : s.state = .esAddingIntoTt ∨ s.state = .esDelingFromOtNormal)
      (hp : s.i32PendingEvt ≠ .eeNone) (hc : s.i32PendingEvt ≠ .eeClose) {e : Evt} :
      Fails cb s e [] .pendingEvt
  | addedTt (h : s.state = .esAddingIntoTt) {evs : List Ev} {f : Fault}
      (hcb : cb s = ⟨evs, .error f⟩) :
      Fails cb s .eeAddedIntoTt (.onOpened :: evs) f
  | sockNotNull (h : s.state = .esCheckingTimer) (hs : s.pTcpSock ≠ none) {e : Evt} :
      Fails cb s e [] .sockNotNull
  | sockNull (h : s.state ≠ .esClosed) (hs : s.pTcpSock = none) {e : Evt} :
      Fails cb s e [] .sockNull
  | notOpened (h : s.state = .esConnecting) {k : CRupSock} (hs : s.pTcpSock = some k)
      (hk : k.isOpened = false) :
      Fails cb s .eeConnected [] .notOpened
  | opened (h : s.state = .esDelingFromOtClose) {k : CRupSock} (hs : s.pTcpSock = some k)
      (hk : k.isOpened = true) {e : Evt} :
      Fails cb s e [] .opened
  | deledTt (h : s.state = .esDelingFromTt) {evs : List Ev} {f : Fault}
      (hcb : cb s = ⟨evs, .error f⟩) :
      Fails cb s .eeDeledFromTt (.onClosed :: evs) f

variable {cb : Callback} {s s' : CRupConnector} {e : Evt} {evs : List Ev} {r : ℤ} {f : Fault}

/-- **Everything `post_evt` can do** when it returns. -/
theorem post_trans (h : postEvt cb s e = ⟨evs, .ok (r, s')⟩) : Trans cb s e evs r s' := by
  obtain ⟨st, p, sock, ip, port, iv⟩ := s
  cases st <;> cases e
  all_goals try (cases h; exact .ignored rfl)
  case esClosed.eeOpen sp =>
    have hfn : ∀ {ret s1}, handlingClosedToAddingIntoTt sp ⟨.esClosed, p, sock, ip, port, iv⟩ =
      ⟨evs, .ok (ret, s1)⟩ →
        0 < sp.ui64Val ∧ evs = [.addTimer] ∧ ret = .suc ∧
          s1 = ⟨.esClosed, .eeNone, sock, sp.strIP, sp.ui16Port, sp.ui64Val⟩ := by
      intro ret s1 h1
      unfold handlingClosedToAddingIntoTt at h1
      by_cases hv : 0 < sp.ui64Val
      · rw [Eff.require_pos hv] at h1; cases h1; exact ⟨hv, rfl, rfl, rfl⟩
      · rw [Eff.require_neg hv] at h1; cases h1
    obtain ⟨s1, h1, rfl, rfl⟩ | ⟨ret, hret, h1, -⟩ := postEvt_ok (t := .esAddingIntoTt) rfl h
    · obtain ⟨hv, rfl, -, rfl⟩ := hfn h1
      exact .opens rfl hv
    · exact absurd (hfn h1).2.2.1 hret
  case esAddingIntoTt.eeClose => cases h; exact .closeAddingTt rfl
  case esAddingIntoTt.eeAddedIntoTt =>
    by_cases hp : p = .eeNone
    · subst hp
      obtain ⟨s1, h1, rfl, rfl⟩ | ⟨ret, hret, h1, -⟩ := postEvt_ok (t := .esCheckingTimer) rfl h
      all_goals
        obtain ⟨evs1, rfl, h2⟩ := Eff.emit_inv h1
        obtain ⟨s2, hcb, h3⟩ := Eff.bind_pure_ok h2
        cases h3
      · exact .addedTt rfl rfl hcb
      · exact absurd rfl hret
    · rcases p with _ | _ | _ | _
      · exact absurd rfl hp
      all_goals cases h
      exact .addedTtClose rfl rfl
  case esCheckingTimer.eeClose =>
    rcases sock with _ | k <;> cases h
    exact .closeChecking rfl rfl
  case esCheckingTimer.eeConnect =>
    rcases sock with _ | k <;> cases h
    exact .connect rfl rfl _
  case esAddingIntoOt.eeClose => cases h; exact .closeAddingOt rfl
  case esAddingIntoOt.eeInternalErr => cases h; exact .errAddingOt rfl
  case esAddingIntoOt.eeAddedIntoOt =>
    by_cases hp : p = .eeNone
    · subst hp; cases h; exact .addedOt rfl rfl
    · obtain ⟨s1, h1, rfl, rfl⟩ | ⟨ret, hret, h1, rfl⟩ := postEvt_ok (t := .esConnecting) rfl h
      all_goals
        replace h1 : handlingAddingIntoOtToConnecting _ = _ := h1
        unfold handlingAddingIntoOtToConnecting at h1
        rw [if_pos hp] at h1
        rcases sock with _ | k <;> cases h1
      exact .addedOtPending rfl hp rfl
  case esConnecting.eeClose =>
    obtain ⟨s1, h1, rfl, rfl⟩ | ⟨ret, hret, h1, -⟩ := postEvt_ok (t := .esDelingFromOtClose) rfl h
    all_goals rcases sock with _ | k <;> cases h1
    · exact .closeConnecting rfl rfl
    · exact absurd rfl hret
  case esConnecting.eeInternalErr =>
    obtain ⟨s1, h1, rfl, rfl⟩ | ⟨ret, hret, h1, -⟩ := postEvt_ok (t := .esDelingFromOtNormal) rfl h
    all_goals rcases sock with _ | k <;> cases h1
    · exact .errConnecting rfl rfl
    · exact absurd rfl hret
  case esConnecting.eeConnected =>
    rcases sock with _ | ⟨n, _ | _⟩ <;> cases h
    exact .connected rfl rfl rfl
  case esDelingFromOtClose.eeDeledFromOt =>
    rcases sock with _ | ⟨n, _ | _⟩ <;> cases h
    exact .deledOtClose rfl rfl rfl _
  case esDelingFromOtNormal.eeClose => cases h; exact .closeDeling rfl
  case esDelingFromOtNormal.eeInternalErr =>
    obtain ⟨s1, h1, rfl, rfl⟩ | ⟨ret, hret, h1, -⟩ := postEvt_ok (t := .esDelingFromOtNormal) rfl h
    all_goals rcases sock with _ | ⟨n, _ | _⟩ <;> cases h1
    · exact Trans.errDeling (k := ⟨n, false⟩) rfl rfl
    · exact Trans.errDeling (k := ⟨n, true⟩) rfl rfl
    all_goals exact absurd rfl hret
  case esDelingFromOtNormal.eeDeledFromOt eps =>
    obtain ⟨s1, h1, rfl, rfl⟩ | ⟨ret, hret, h1, rfl⟩ := postEvt_ok (t := .esCheckingTimer) rfl h
    all_goals rcases p with _ | _ | _ | _ <;> rcases sock with _ | ⟨n, _ | _⟩ <;> cases h1
    · exact Trans.deledOt (k := ⟨n, false⟩) rfl rfl rfl eps
    · exact Trans.deledOt (k := ⟨n, true⟩) rfl rfl rfl eps
    · exact absurd rfl hret
    · exact absurd rfl hret
    · exact Trans.deledOtPending (k := ⟨n, false⟩) rfl rfl rfl eps
    · exact Trans.deledOtPending (k := ⟨n, true⟩) rfl rfl rfl eps
  case esDelingFromTt.eeDeledFromTt =>
    obtain ⟨s1, h1, rfl, rfl⟩ | ⟨ret, hret, h1, -⟩ := postEvt_ok (t := .esClosed) rfl h
    all_goals
      obtain ⟨evs1, rfl, h2⟩ := Eff.emit_inv h1
      obtain ⟨s2, hcb, h3⟩ := Eff.bind_pure_ok h2
      cases h3
    · exact .deledTt rfl hcb
    · exact absurd rfl hret

/-- **Every way `post_evt` can end the process.** -/
theorem post_fails (h : postEvt cb s e = ⟨evs, .error f⟩) : Fails cb s e evs f := by
  obtain ⟨st, el, hel, hfn⟩ := postEvt_fault h
  obtain ⟨cur, p, sock, ip, port, iv⟩ := s
  cases cur <;> cases e <;> cases hel
  all_goals try cases hfn
  case esClosed.eeOpen sp =>
    unfold handlingClosedToAddingIntoTt at hfn
    by_cases hv : 0 < sp.ui64Val
    · rw [Eff.require_pos hv] at hfn; cases hfn
    · rw [Eff.require_neg hv] at hfn; cases hfn
      exact .interval rfl (by omega)
  case esAddingIntoTt.eeAddedIntoTt =>
    by_cases hp : p = .eeNone
    · subst hp
      obtain ⟨evs1, rfl, h1⟩ := Eff.emit_inv hfn
      exact .addedTt rfl (Eff.bind_pure_error h1)
    · rcases p with _ | _ | _ | _
      · exact absurd rfl hp
      all_goals cases hfn
      all_goals exact .pendingEvt (Or.inl rfl) (by nofun) (by nofun)
  case esCheckingTimer.eeClose =>
    rcases sock with _ | k <;> cases hfn
    exact .sockNotNull rfl (by nofun)
  case esCheckingTimer.eeConnect =>
    rcases sock with _ | k <;> cases hfn
    exact .sockNotNull rfl (by nofun)
  case esAddingIntoOt.eeAddedIntoOt =>
    rcases p with _ | _ | _ | _ <;> rcases sock with _ | k <;> cases hfn
    all_goals exact .sockNull (by nofun) rfl
  case esConnecting.eeClose | esConnecting.eeInternalErr | esDelingFromOtNormal.eeInternalErr =>
    rcases sock with _ | k <;> cases hfn
    exact .sockNull (by nofun) rfl
  case esConnecting.eeConnected =>
    rcases sock with _ | ⟨n, _ | _⟩ <;> cases hfn
    · exact .sockNull (by nofun) rfl
    · exact .notOpened rfl rfl rfl
  case esDelingFromOtClose.eeDeledFromOt =>
    rcases sock with _ | ⟨n, _ | _⟩ <;> cases hfn
    · exact .sockNull (by nofun) rfl
    · exact .opened rfl rfl rfl
  case esDelingFromOtNormal.eeDeledFromOt eps =>
    rcases p with _ | _ | _ | _ <;> rcases sock with _ | ⟨n, _ | _⟩ <;> cases hfn
    · exact .sockNull (by nofun) rfl
    · exact .sockNull (by nofun) rfl
    all_goals exact .pendingEvt (Or.inr rfl) (by nofun) (by nofun)
  case esDelingFromTt.eeDeledFromTt =>
    obtain ⟨evs1, rfl, h1⟩ := Eff.emit_inv hfn
    exact .deledTt rfl (Eff.bind_pure_error h1)

theorem openEp_ok {sp : SParas} (h : openEp sp s = ⟨evs, .ok s'⟩) :
    ∃ r evs1, Trans pure s (.eeOpen sp) evs1 r s' ∧ evs = evs1 ++ [.openRet r] := by
  obtain ⟨r, evs1, h1, h2⟩ := returning_ok h
  exact ⟨r, evs1, post_trans h1, h2⟩

theorem close_ok (h : close s = ⟨evs, .ok s'⟩) :
    ∃ r evs1, Trans pure s .eeClose evs1 r s' ∧ evs = evs1 ++ [.closeRet r] := by
  obtain ⟨r, evs1, h1, h2⟩ := returning_ok h
  exact ⟨r, evs1, post_trans h1, h2⟩

/-! ## User code -/

/-- Whether user code calls `close`. -/
def UserCode.closes : UserCode → Bool
  | .done => false
  | .callOpen _ next => next.closes
  | .callClose _ => true

/-- What the calls of user code return, if `close` returns `r`. -/
def UserCode.rets (r : ℤ) : UserCode → List Ev
  | .done => []
  | .callOpen _ next => .openRet (-1) :: next.rets r
  | .callClose next => .closeRet r :: next.rets r

theorem openEp_refused {sp : SParas} (h : s.state ≠ .esClosed) :
    openEp sp s = ⟨[.openRet (-1)], .ok s⟩ := by
  obtain ⟨st, p, sock, ip, port, iv⟩ := s
  cases st <;> first | exact absurd rfl h | rfl

theorem close_adding (h : s.state = .esAddingIntoTt) :
    close s = ⟨[.closeRet 0], .ok { s with i32PendingEvt := .eeClose }⟩ := by
  obtain ⟨st, p, sock, ip, port, iv⟩ := s
  cases h; rfl

theorem close_deling (h : s.state = .esDelingFromTt) : close s = ⟨[.closeRet (-1)], .ok s⟩ := by
  obtain ⟨st, p, sock, ip, port, iv⟩ := s
  cases h; rfl

/-- **User code in `on_opened`**: the state machine is still in `ES_ADDING_INTO_TT`, a `close` is
recorded. -/
theorem UserCode.run_adding : ∀ (u : UserCode) {s : CRupConnector}, s.state = .esAddingIntoTt →
    u.run s =
      ⟨u.rets 0, .ok { s with i32PendingEvt := if u.closes then .eeClose else s.i32PendingEvt }⟩
  | .done, _, _ => rfl
  | .callOpen sp next, s, h => by
    show openEp sp s >>= next.run = _
    rw [openEp_refused (by rw [h]; nofun), Eff.bind_of_ok rfl, next.run_adding h]; rfl
  | .callClose next, s, h => by
    show close s >>= next.run = _
    have ih := next.run_adding (s := { s with i32PendingEvt := .eeClose }) h
    rw [close_adding h, Eff.bind_of_ok rfl, ih]
    simp [rets, closes]

/-- **User code in `on_closed`**: the state machine is still in `ES_DELING_FROM_TT`, every call is
refused. -/
theorem UserCode.run_deling : ∀ (u : UserCode) {s : CRupConnector}, s.state = .esDelingFromTt →
    u.run s = ⟨u.rets (-1), .ok s⟩
  | .done, _, _ => rfl
  | .callOpen sp next, s, h => by
    show openEp sp s >>= next.run = _
    rw [openEp_refused (by rw [h]; nofun), Eff.bind_of_ok rfl, next.run_deling h]; rfl
  | .callClose next, s, h => by
    show close s >>= next.run = _
    rw [close_deling h, Eff.bind_of_ok rfl, next.run_deling h]; rfl

end SmartNet.Endpoint.RupConnector
