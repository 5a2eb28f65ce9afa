import SmartNet.Endpoint.Types
import SmartNet.Lib.Triple
import SmartNet.Utils.StateMachine

/-! # `CRupEndpoint`

The state machine of an endpoint: its table (`init_sm`), the handlers, and `open`, `close`. What a
handler does to the outside is an event: requests to the helper (the acceptor or connector the
endpoint belongs to) and to the io tasks, the closing of the socket, and the callbacks. `on_opened`
and `on_closed` are user code that may call `open` and `close` of the same endpoint again
(`UserCode`); the mutex of the state machine is recursive.

* `post_trans`: everything a `post_evt` that returns can do, a constructor of `Trans` for each row
  of the table;
* `post_fails`: the asserts it can run into;
* `UserCode.run_waiting`, `UserCode.run_adding`: what user code does in `on_closed` and in
  `on_opened`. -/

namespace SmartNet.Endpoint.RupEndpoint

open SmartNet.Common SmartNet.Lib SmartNet.Utils.StateMachine SmartNet.Endpoint.Types

inductive St
  | esClosed
  | esAddedIntoHelper
  | esAddingIntoOt
  | esAddingIntoIt
  | esOpened
  | esDelingFromIt
  | esDelingFromOt
  deriving DecidableEq, Repr

/-- The events; `EE_CONNECTED` comes with a socket. -/
inductive Evt
  | eeOpen
  | eeClose
  | eeInternalErr
  | eeConnected (pTcpSock : ℕ)
  | eeAddedIntoOt
  | eeAddedIntoIt
  | eeDeledFromIt
  | eeDeledFromOt
  deriving DecidableEq, Repr

/-- The counters of the keepalive. -/
structure KeepAlive where
  ui64SendCnt : ℕ := 0
  ui64RecvCnt : ℕ := 0
  ui64SendStore : ℕ := 0
  ui64RecvStore : ℕ := 0
  ui32CycleCnt : ℕ := 0
  bWillClose : Bool := false
  deriving DecidableEq, Repr

/-- The endpoint; sockets are numbered. -/
structure CRupEndpoint where
  state : St
  smPendingEvt : PendingEvt
  pSock : Option ℕ
  keepAlive : KeepAlive
  deriving DecidableEq, Repr

/-- What the endpoint does to the outside. -/
inductive Ev
  | addToHelper
  | delFromHelper
  | addEndpoint (t : IoType)
  | delEndpoint (t : IoType)
  | sockClose (s : ℕ)
  | onOpened
  | onClosed
  | openRet (r : ℤ)
  | closeRet (r : ℤ)
  deriving DecidableEq, Repr

/-- `CMN_ASSERT(NULL == m_pSock)`, `CMN_ASSERT(EE_NONE == m_i32SMPendingEvt)`, and a call through a
NULL `m_pSock`. -/
inductive Fault
  | sockNotNull
  | pendingEvt
  | sockNull
  deriving DecidableEq, Repr

abbrev Handler := CRupEndpoint → Eff Ev Fault (Cmnerr × CRupEndpoint)

/-- The user code of `on_opened` and `on_closed`. -/
abbrev Callback := CRupEndpoint → Eff Ev Fault CRupEndpoint

/-- A freshly constructed endpoint; the constructors give `m_i32SMPendingEvt` different values. -/
def init (p : PendingEvt) (k : KeepAlive) : CRupEndpoint := ⟨.esClosed, p, none, k⟩

/-! ## The handlers -/

/-- `m_pSock->close()`. -/
def closeSock (s : CRupEndpoint) : Eff Ev Fault Unit :=
  match s.pSock with
  | none => .abort .sockNull
  | some n => .emit (.sockClose n)

def handlingClosedToAddedIntoHelper : Handler := fun s => do
  .emit .addToHelper
  pure (.suc, { s with smPendingEvt := .eeNone, keepAlive := {} })

def handlingAddedIntoHelperToClosed (onClosed : Callback) : Handler := fun s => do
  .require (s.pSock = none) .sockNotNull
  .emit .delFromHelper
  .emit .onClosed
  let s ← onClosed { s with state := .esClosed }
  pure (.commonErr, { s with pSock := none })

def handlingAddedIntoHelperToAddingIntoOt (pTcpSock : ℕ) : Handler := fun s => do
  .require (s.pSock = none) .sockNotNull
  .emit (.addEndpoint .output)
  pure (.suc, { s with pSock := some pTcpSock })

/-- The event is only recorded. -/
def record (p : PendingEvt) : Handler := fun s => pure (.suc, { s with smPendingEvt := p })

def handlingCloseWhileAddingIntoOt : Handler := record .eeClose

def handlingInternalErrWhileAddingIntoOt : Handler := record .eeInternalErr

def handlingCloseWhileAddingIntoIt : Handler := record .eeClose

def handlingInternalErrWhileAddingIntoIt : Handler := record .eeInternalErr

def handlingAddedIntoOtToAddingIntoIt : Handler := fun s =>
  if s.smPendingEvt = .eeClose then do
    closeSock s
    .emit (.delEndpoint .output)
    pure (.commonErr, { s with state := .esDelingFromOt })
  else do
    .require (s.smPendingEvt = .eeNone) .pendingEvt
    .emit (.addEndpoint .input)
    pure (.suc, s)

def handlingAddingIntoItToOpened (onOpened : Callback) : Handler := fun s =>
  if s.smPendingEvt ≠ .eeNone then do
    closeSock s
    .emit (.delEndpoint .output)
    pure (.commonErr, { s with state := .esDelingFromOt })
  else do
    .emit .onOpened
    let s ← onOpened s
    pure (.suc, s)

/-- The teardown starts with the socket and the input task. -/
def tearDown : Handler := fun s => do
  closeSock s
  .emit (.delEndpoint .input)
  pure (.suc, s)

def handlingInternalErrWhileOpened : Handler := tearDown

def handlingCloseWhileOpened : Handler := tearDown

def handlingDelingFromItToDelingFromOt : Handler := fun s => do
  .emit (.delEndpoint .output)
  pure (.suc, s)

def handlingDelingFromOtToClosed (onClosed : Callback) : Handler := fun s => do
  .emit .onClosed
  let s ← onClosed { s with state := .esClosed }
  pure (.commonErr, { s with pSock := none })

/-- `init_sm`. -/
def initSm (cb : Callback) : St → Evt → Option (SElem St Handler)
  | .esClosed, .eeOpen => some ⟨.esAddedIntoHelper, handlingClosedToAddedIntoHelper⟩
  | .esAddedIntoHelper, .eeClose => some ⟨.esClosed, handlingAddedIntoHelperToClosed cb⟩
  | .esAddedIntoHelper, .eeConnected n =>
    some ⟨.esAddingIntoOt, handlingAddedIntoHelperToAddingIntoOt n⟩
  | .esAddingIntoOt, .eeClose => some ⟨.esAddingIntoOt, handlingCloseWhileAddingIntoOt⟩
  | .esAddingIntoOt, .eeInternalErr => some ⟨.esClosed, handlingInternalErrWhileAddingIntoOt⟩
  | .esAddingIntoOt, .eeAddedIntoOt => some ⟨.esAddingIntoIt, handlingAddedIntoOtToAddingIntoIt⟩
  | .esAddingIntoIt, .eeInternalErr => some ⟨.esAddingIntoIt, handlingInternalErrWhileAddingIntoIt⟩
  | .esAddingIntoIt, .eeClose => some ⟨.esAddingIntoIt, handlingCloseWhileAddingIntoIt⟩
  | .esAddingIntoIt, .eeAddedIntoIt => some ⟨.esOpened, handlingAddingIntoItToOpened cb⟩
  | .esOpened, .eeInternalErr => some ⟨.esDelingFromIt, handlingInternalErrWhileOpened⟩
  | .esOpened, .eeClose => some ⟨.esDelingFromIt, handlingCloseWhileOpened⟩
  | .esDelingFromIt, .eeDeledFromIt => some ⟨.esDelingFromOt, handlingDelingFromItToDelingFromOt⟩
  | .esDelingFromOt, .eeDeledFromOt => some ⟨.esClosed, handlingDelingFromOtToClosed cb⟩
  | _, _ => none

/-- `m_sm.post_evt`. -/
def postEvt (cb : Callback) (s : CRupEndpoint) (e : Evt) : Eff Ev Fault (ℤ × CRupEndpoint) :=
  Utils.StateMachine.postEvt CRupEndpoint.state (fun s st => { s with state := st }) (initSm cb) s e

/-- `open`. -/
def openEp (s : CRupEndpoint) : Eff Ev Fault CRupEndpoint :=
  returning .openRet (postEvt pure s .eeOpen)

/-- `close`, with the user code of an `on_closed` it leads to. -/
def close (cb : Callback) (s : CRupEndpoint) : Eff Ev Fault CRupEndpoint :=
  returning .closeRet (postEvt cb s .eeClose)

/-- The calls that `on_opened` or `on_closed` make, one after the other; `inner` is the `on_closed`
of the call of `close`. -/
inductive UserCode
  | done
  | callOpen (next : UserCode)
  | callClose (inner next : UserCode)
  deriving DecidableEq, Repr

def UserCode.run : UserCode → Callback
  | .done, s => pure s
  | .callOpen next, s => openEp s >>= next.run
  | .callClose inner next, s => close inner.run s >>= next.run

/-! ## What a call can do -/

/-- What `post_evt` does when it returns: a row of the table, or nothing. -/
inductive Trans (cb : Callback) (s : CRupEndpoint) : Evt → List Ev → ℤ → CRupEndpoint → Prop
  | ignored {e : Evt} (h : initSm cb s.state e = none) : Trans cb s e [] (-1) s
  | opens (h : s.state = .esClosed) :
      Trans cb s .eeOpen [.addToHelper] 0
        { s with state := .esAddedIntoHelper, smPendingEvt := .eeNone, keepAlive := {} }
  | closeWaiting (h : s.state = .esAddedIntoHelper) (hs : s.pSock = none) {evs : List Ev}
      {s1 : CRupEndpoint} (hcb : cb { s with state := .esClosed } = ⟨evs, .ok s1⟩) :
      Trans cb s .eeClose (.delFromHelper :: .onClosed :: evs) (-2) { s1 with pSock := none }
  | connected (h : s.state = .esAddedIntoHelper) (hs : s.pSock = none) (n : ℕ) :
      Trans cb s (.eeConnected n) [.addEndpoint .output] 0
        { s with state := .esAddingIntoOt, pSock := some n }
  | closeAddingOt (h : s.state = .esAddingIntoOt) :
      Trans cb s .eeClose [] 0 { s with smPendingEvt := .eeClose }
  | errAddingOt (h : s.state = .esAddingIntoOt) :
      Trans cb s .eeInternalErr [] 0 { s with state := .esClosed, smPendingEvt := .eeInternalErr }
  | addedOtClose (h : s.state = .esAddingIntoOt) (hp : s.smPendingEvt = .eeClose) {n : ℕ}
      (hs : s.pSock = some n) :
      Trans cb s .eeAddedIntoOt [.sockClose n, .delEndpoint .output] (-2)
        { s with state := .esDelingFromOt }
  | addedOt (h : s.state = .esAddingIntoOt) (hp : s.smPendingEvt = .eeNone) :
      Trans cb s .eeAddedIntoOt [.addEndpoint .input] 0 { s with state := .esAddingIntoIt }
  | errAddingIt (h : s.state = .esAddingIntoIt) :
      Trans cb s .eeInternalErr [] 0 { s with smPendingEvt := .eeInternalErr }
  | closeAddingIt (h : s.state = .esAddingIntoIt) :
      Trans cb s .eeClose [] 0 { s with smPendingEvt := .eeClose }
  | addedItPending (h : s.state = .esAddingIntoIt) (hp : s.smPendingEvt ≠ .eeNone) {n : ℕ}
      (hs : s.pSock = some n) :
      Trans cb s .eeAddedIntoIt [.sockClose n, .delEndpoint .output] (-2)
        { s with state := .esDelingFromOt }
  | addedIt (h : s.state = .esAddingIntoIt) (hp : s.smPendingEvt = .eeNone) {evs : List Ev}
      {s1 : CRupEndpoint} (hcb : cb s = ⟨evs, .ok s1⟩) :
      Trans cb s .eeAddedIntoIt (.onOpened :: evs) 0 { s1 with state := .esOpened }
  | tearsDown (h : s.state = .esOpened) {e : Evt} (he : e = .eeClose ∨ e = .eeInternalErr) {n : ℕ}
      (hs : s.pSock = some n) :
      Trans cb s e [.sockClose n, .delEndpoint .input] 0 { s with state := .esDelingFromIt }
  | deledIt (h : s.state = .esDelingFromIt) :
      Trans cb s .eeDeledFromIt [.delEndpoint .output] 0 { s with state := .esDelingFromOt }
  | deledOt (h : s.state = .esDelingFromOt) {evs : List Ev} {s1 : CRupEndpoint}
      (hcb : cb { s with state := .esClosed } = ⟨evs, .ok s1⟩) :
      Trans cb s .eeDeledFromOt (.onClosed :: evs) (-2) { s1 with pSock := none }

/-- The ways `post_evt` ends the process. -/
inductive Fails (cb : Callback) (s : CRupEndpoint) : Evt → List Ev → Fault → Prop
  | sockNotNull (h : s.state = .esAddedIntoHelper) (hs : s.pSock ≠ none) {e : Evt}
      (he : e = .eeClose ∨ ∃ n, e = .eeConnected n) :
      Fails cb s e [] .sockNotNull
  | closeWaiting (h : s.state = .esAddedIntoHelper) (hs : s.pSock = none) {evs : List Ev}
      {f : Fault} (hcb : cb { s with state := .esClosed } = ⟨evs, .error f⟩) :
      Fails cb s .eeClose (.delFromHelper :: .onClosed :: evs) f
  | pendingEvt (h : s.state = .esAddingIntoOt) (hp : s.smPendingEvt ≠ .eeNone)
      (hc : s.smPendingEvt ≠ .eeClose) :
      Fails cb s .eeAddedIntoOt [] .pendingEvt
  | sockNull (h : s.state = .esAddingIntoOt ∨ s.state = .esAddingIntoIt ∨ s.state = .esOpened)
      (hs : s.pSock = none) {e : Evt} (he : e ≠ .eeOpen) :
      Fails cb s e [] .sockNull
  | addedIt (h : s.state = .esAddingIntoIt) (hp : s.smPendingEvt = .eeNone) {evs : List Ev}
      {f : Fault} (hcb : cb s = ⟨evs, .error f⟩) :
      Fails cb s .eeAddedIntoIt (.onOpened :: evs) f
  | deledOt (h : s.state = .esDelingFromOt) {evs : List Ev} {f : Fault}
      (hcb : cb { s with state := .esClosed } = ⟨evs, .error f⟩) :
      Fails cb s .eeDeledFromOt (.onClosed :: evs) f

variable {cb : Callback} {s s' : CRupEndpoint} {e : Evt} {evs : List Ev} {r : ℤ} {f : Fault}

theorem closedBy_ok {ret : Cmnerr} (h : handlingDelingFromOtToClosed cb s = ⟨evs, .ok (ret, s')⟩) :
    ∃ evs1 s1, cb { s with state := .esClosed } = ⟨evs1, .ok s1⟩ ∧ evs = .onClosed :: evs1 ∧
      ret = .commonErr ∧
      s' = { s1 with pSock := none } := by
  obtain ⟨evs1, rfl, h1⟩ := Eff.emit_inv h
  obtain ⟨s1, h2, h3⟩ := Eff.bind_pure_ok h1
  cases h3; exact ⟨evs1, s1, h2, rfl, rfl, rfl⟩

theorem closedBy_error (h : handlingDelingFromOtToClosed cb s = ⟨evs, .error f⟩) :
    ∃ evs1, cb { s with state := .esClosed } = ⟨evs1, .error f⟩ ∧ evs = .onClosed :: evs1 := by
  obtain ⟨evs1, rfl, h1⟩ := Eff.emit_inv h
  exact ⟨evs1, Eff.bind_pure_error h1, rfl⟩

/-- A waiting endpoint that is closed leaves the helper and then ends like a teardown. -/
theorem closeWaiting_eq (hs : s.pSock = none) :
    handlingAddedIntoHelperToClosed cb s =
      (Eff.emit .delFromHelper >>= fun _ => handlingDelingFromOtToClosed cb s) := by
  unfold handlingAddedIntoHelperToClosed
  rw [Eff.require_pos hs]; rfl

/-- **Everything `post_evt` can do** when it returns. -/
theorem post_trans (h : postEvt cb s e = ⟨evs, .ok (r, s')⟩) : Trans cb s e evs r s' := by
  obtain ⟨st, p, sock, ka⟩ := s
  cases st <;> cases e
  all_goals try (cases h; exact .ignored rfl)
  case esClosed.eeOpen => cases h; exact .opens rfl
  case esAddedIntoHelper.eeClose =>
    rcases sock with _ | n
    · obtain ⟨s1, h1, -, -⟩ | ⟨ret, -, h1, rfl⟩ := postEvt_ok (t := .esClosed) rfl h
      all_goals
        rw [closeWaiting_eq rfl] at h1
        obtain ⟨evs1, rfl, h2⟩ := Eff.emit_inv h1
        obtain ⟨evs2, s2, hcb, rfl, hret, rfl⟩ := closedBy_ok h2
      · cases hret
      · exact .closeWaiting rfl rfl hcb
    · cases h
  case esAddedIntoHelper.eeConnected =>
    rcases sock with _ | n <;> cases h
    exact .connected rfl rfl _
  case esAddingIntoOt.eeClose => cases h; exact .closeAddingOt rfl
  case esAddingIntoOt.eeInternalErr => cases h; exact .errAddingOt rfl
  case esAddingIntoOt.eeAddedIntoOt =>
    rcases p with _ | _ | _ | _ <;> rcases sock with _ | n <;> cases h
    · exact .addedOt rfl rfl
    · exact .addedOt rfl rfl
    · exact .addedOtClose rfl rfl rfl
  case esAddingIntoIt.eeClose => cases h; exact .closeAddingIt rfl
  case esAddingIntoIt.eeInternalErr => cases h; exact .errAddingIt rfl
  case esAddingIntoIt.eeAddedIntoIt =>
    by_cases hp : p = .eeNone
    · subst hp
      obtain ⟨s1, h1, rfl, rfl⟩ | ⟨ret, hret, h1, -⟩ := postEvt_ok (t := .esOpened) rfl h
      all_goals
        obtain ⟨evs1, rfl, h2⟩ := Eff.emit_inv h1
        obtain ⟨s2, hcb, h3⟩ := Eff.bind_pure_ok h2
        cases h3
      · exact .addedIt rfl rfl hcb
      · exact absurd rfl hret
    · rcases sock with _ | n <;> rcases p with _ | _ | _ | _
      all_goals first | exact absurd rfl hp | cases h
      all_goals exact .addedItPending rfl hp rfl
  case esOpened.eeClose =>
    rcases sock with _ | n <;> cases h
    exact .tearsDown rfl (Or.inl rfl) rfl
  case esOpened.eeInternalErr =>
    rcases sock with _ | n <;> cases h
    exact .tearsDown rfl (Or.inr rfl) rfl
  case esDelingFromIt.eeDeledFromIt => cases h; exact .deledIt rfl
  case esDelingFromOt.eeDeledFromOt =>
    obtain ⟨s1, h1, -, -⟩ | ⟨ret, -, h1, rfl⟩ := postEvt_ok (t := .esClosed) rfl h
    all_goals obtain ⟨evs2, s2, hcb, rfl, hret, rfl⟩ := closedBy_ok h1
    · cases hret
    · exact .deledOt rfl hcb

/-- **Every way `post_evt` can end the process.** -/
theorem post_fails (h : postEvt cb s e = ⟨evs, .error f⟩) : Fails cb s e evs f := by
  obtain ⟨st, el, hel, hfn⟩ := postEvt_fault h
  obtain ⟨cur, p, sock, ka⟩ := s
  cases cur <;> cases e <;> cases hel
  all_goals try cases hfn
  case esAddedIntoHelper.eeClose =>
    rcases sock with _ | n
    · rw [closeWaiting_eq rfl] at hfn
      obtain ⟨evs1, rfl, h1⟩ := Eff.emit_inv hfn
      obtain ⟨evs2, hcb, rfl⟩ := closedBy_error h1
      exact .closeWaiting rfl rfl hcb
    · cases hfn
      exact .sockNotNull rfl (Option.some_ne_none n) (Or.inl rfl)
  case esAddedIntoHelper.eeConnected n =>
    rcases sock with _ | m <;> cases hfn
    exact .sockNotNull rfl (Option.some_ne_none m) (Or.inr ⟨n, rfl⟩)
  case esAddingIntoOt.eeAddedIntoOt =>
    rcases p with _ | _ | _ | _ <;> rcases sock with _ | n <;> cases hfn
    · exact .sockNull (Or.inl rfl) rfl nofun
    all_goals exact .pendingEvt rfl nofun nofun
  case esAddingIntoIt.eeAddedIntoIt =>
    by_cases hp : p = .eeNone
    · subst hp
      obtain ⟨evs1, rfl, h1⟩ := Eff.emit_inv hfn
      exact .addedIt rfl rfl (Eff.bind_pure_error h1)
    · rcases sock with _ | n <;> rcases p with _ | _ | _ | _
      all_goals first | exact absurd rfl hp | cases hfn
      all_goals exact .sockNull (Or.inr (Or.inl rfl)) rfl nofun
  case esOpened.eeClose =>
    rcases sock with _ | n <;> cases hfn
    exact .sockNull (Or.inr (Or.inr rfl)) rfl nofun
  case esOpened.eeInternalErr =>
    rcases sock with _ | n <;> cases hfn
    exact .sockNull (Or.inr (Or.inr rfl)) rfl nofun
  case esDelingFromOt.eeDeledFromOt =>
    obtain ⟨evs2, hcb, rfl⟩ := closedBy_error hfn
    exact .deledOt rfl hcb

/-! ### The events of the notifiers, state by state -/

theorem Trans.internalErr (h : Trans cb s .eeInternalErr evs r s') :
    match s.state with
    | .esAddingIntoOt =>
      evs = [] ∧ s' = { s with state := .esClosed, smPendingEvt := .eeInternalErr }
    | .esAddingIntoIt => evs = [] ∧ s' = { s with smPendingEvt := .eeInternalErr }
    | .esOpened =>
      ∃ n, s.pSock = some n ∧ evs = [.sockClose n, .delEndpoint .input] ∧
        s' = { s with state := .esDelingFromIt }
    | _ => evs = [] ∧ s' = s := by
  cases h with
  | ignored h => rcases hst : s.state <;> rw [hst] at h <;> first | exact ⟨rfl, rfl⟩ | cases h
  | errAddingOt hst => rw [hst]; exact ⟨rfl, rfl⟩
  | errAddingIt hst => rw [hst]; exact ⟨rfl, rfl⟩
  | tearsDown hst _ hs => rw [hst]; exact ⟨_, hs, rfl, rfl⟩

theorem Trans.addedIntoOt (h : Trans cb s .eeAddedIntoOt evs r s') :
    match s.state with
    | .esAddingIntoOt =>
      (s.smPendingEvt = .eeClose ∧ ∃ n, s.pSock = some n ∧
        evs = [.sockClose n, .delEndpoint .output] ∧
        s' = { s with state := .esDelingFromOt }) ∨
      (s.smPendingEvt = .eeNone ∧ evs = [.addEndpoint .input] ∧
        s' = { s with state := .esAddingIntoIt })
    | _ => evs = [] ∧ s' = s := by
  cases h with
  | ignored h => rcases hst : s.state <;> rw [hst] at h <;> first | exact ⟨rfl, rfl⟩ | cases h
  | addedOtClose hst hp hs => rw [hst]; exact Or.inl ⟨hp, _, hs, rfl, rfl⟩
  | addedOt hst hp => rw [hst]; exact Or.inr ⟨hp, rfl, rfl⟩
  | tearsDown hst he _ => rcases he with he | he <;> cases he

theorem Trans.addedIntoIt (h : Trans cb s .eeAddedIntoIt evs r s') :
    match s.state with
    | .esAddingIntoIt =>
      (s.smPendingEvt ≠ .eeNone ∧ ∃ n, s.pSock = some n ∧
        evs = [.sockClose n, .delEndpoint .output] ∧
        s' = { s with state := .esDelingFromOt }) ∨
      (s.smPendingEvt = .eeNone ∧ ∃ evs1 s1, cb s = ⟨evs1, .ok s1⟩ ∧ evs = .onOpened :: evs1 ∧
        s' = { s1 with state := .esOpened })
    | _ => evs = [] ∧ s' = s := by
  cases h with
  | ignored h => rcases hst : s.state <;> rw [hst] at h <;> first | exact ⟨rfl, rfl⟩ | cases h
  | addedItPending hst hp hs => rw [hst]; exact Or.inl ⟨hp, _, hs, rfl, rfl⟩
  | addedIt hst hp hcb => rw [hst]; exact Or.inr ⟨hp, _, _, hcb, rfl, rfl⟩
  | tearsDown hst he _ => rcases he with he | he <;> cases he

theorem Trans.deledFromIt (h : Trans cb s .eeDeledFromIt evs r s') :
    match s.state with
    | .esDelingFromIt => evs = [.delEndpoint .output] ∧ s' = { s with state := .esDelingFromOt }
    | _ => evs = [] ∧ s' = s := by
  cases h with
  | ignored h => rcases hst : s.state <;> rw [hst] at h <;> first | exact ⟨rfl, rfl⟩ | cases h
  | deledIt hst => rw [hst]; exact ⟨rfl, rfl⟩
  | tearsDown hst he _ => rcases he with he | he <;> cases he

theorem Trans.deledFromOt (h : Trans cb s .eeDeledFromOt evs r s') :
    match s.state with
    | .esDelingFromOt =>
      ∃ evs1 s1, cb { s with state := .esClosed } = ⟨evs1, .ok s1⟩ ∧ evs = .onClosed :: evs1 ∧
        s' = { s1 with pSock := none }
    | _ => evs = [] ∧ s' = s := by
  cases h with
  | ignored h => rcases hst : s.state <;> rw [hst] at h <;> first | exact ⟨rfl, rfl⟩ | cases h
  | deledOt hst hcb => rw [hst]; exact ⟨_, _, hcb, rfl, rfl⟩
  | tearsDown hst he _ => rcases he with he | he <;> cases he

theorem UserCode.triple {I : List Ev → CRupEndpoint → Prop} {F : List Ev → Fault → Prop}
    (hopen : Eff.Triple I openEp I F)
    (hclose : ∀ cb, Eff.Triple I cb I F → Eff.Triple I (close cb) I F) :
    ∀ u : UserCode, Eff.Triple I u.run I F
  | .done =>
    .of (fun log s evs a hI h => by cases h; simpa using hI) fun log s evs e hI h => by cases h
  | .callOpen next => hopen.comp (next.triple hopen hclose)
  | .callClose inner next => (hclose _ (inner.triple hopen hclose)).comp (next.triple hopen hclose)

theorem post_connected (hst : s.state = .esAddedIntoHelper) (hs : s.pSock = none) (n : ℕ) :
    postEvt cb s (.eeConnected n) =
      ⟨[.addEndpoint .output], .ok (0, { s with state := .esAddingIntoOt, pSock := some n })⟩ := by
  obtain ⟨st, p, sock, ka⟩ := s
  cases hst; cases hs; rfl

theorem openEp_ok (h : openEp s = ⟨evs, .ok s'⟩) :
    ∃ r evs1, Trans pure s .eeOpen evs1 r s' ∧ evs = evs1 ++ [.openRet r] := by
  obtain ⟨r, evs1, h1, h2⟩ := returning_ok h
  exact ⟨r, evs1, post_trans h1, h2⟩

theorem openEp_total (h : openEp s = ⟨evs, .error f⟩) : False := by
  cases post_fails (returning_error h)
  case sockNotNull he => rcases he with he | ⟨n, he⟩ <;> cases he
  case sockNull he => exact he rfl

theorem close_ok (h : close cb s = ⟨evs, .ok s'⟩) :
    ∃ r evs1, Trans cb s .eeClose evs1 r s' ∧ evs = evs1 ++ [.closeRet r] := by
  obtain ⟨r, evs1, h1, h2⟩ := returning_ok h
  exact ⟨r, evs1, post_trans h1, h2⟩

/-! ## User code -/

/-- Waiting for `open` or for a connection. -/
def Resting (s : CRupEndpoint) : Prop := s.state = .esClosed ∨ s.state = .esAddedIntoHelper

/-- The requests to the io tasks and to the socket. -/
def Ev.io : Ev → Bool
  | .addEndpoint _ => true
  | .delEndpoint _ => true
  | .sockClose _ => true
  | _ => false

/-- What user code keeps in `on_closed`: `p` is `m_pSock` when it is called. -/
def RestingLog (p : Option ℕ) (log : List Ev) (s : CRupEndpoint) : Prop :=
  Resting s ∧ s.pSock = p ∧ ∀ e ∈ log, e.io = false

theorem RestingLog.append {p : Option ℕ} {log evs : List Ev} (h : RestingLog p log s)
    (hr : Resting s') (hp : s'.pSock = p)
    (hevs : ∀ e ∈ evs, e.io = false) : RestingLog p (log ++ evs) s' := by
  refine ⟨hr, hp, fun e he => ?_⟩
  rcases List.mem_append.mp he with he | he
  · exact h.2.2 e he
  · exact hevs e he

theorem openEp_resting (p : Option ℕ) : Eff.Triple (RestingLog p) openEp (RestingLog p)
    fun _ _ => True := by
  refine .of (fun log s evs s' hI h => ?_) fun _ _ _ _ _ _ => trivial
  obtain ⟨r, evs1, ht, rfl⟩ := openEp_ok h
  cases ht with
  | ignored h => exact hI.append hI.1 hI.2.1 (by simp [Ev.io])
  | opens h => exact hI.append (Or.inr rfl) hI.2.1 (by simp [Ev.io])
  | tearsDown h he => rcases he with he | he <;> cases he

theorem close_resting (p : Option ℕ) (cb : Callback)
    (hcb : Eff.Triple (RestingLog p) cb (RestingLog p) fun _ _ => True) :
    Eff.Triple (RestingLog p) (close cb) (RestingLog p) fun _ _ => True := by
  refine .of (fun log s evs s' hI h => ?_) fun _ _ _ _ _ _ => trivial
  obtain ⟨r, evs1, ht, rfl⟩ := close_ok h
  clear h
  cases ht with
  | ignored h => exact hI.append hI.1 hI.2.1 (by simp [Ev.io])
  | @closeWaiting h hs evs2 s1 hc =>
    have h1 : RestingLog p (log ++ [.delFromHelper, .onClosed]) { s with state := .esClosed } :=
      hI.append (Or.inl rfl) hI.2.1 (by simp [Ev.io])
    have h2 := hcb.ok h1 hc
    have hp : none = p := hs.symm.trans hI.2.1
    have h3 : RestingLog p (log ++ [.delFromHelper, .onClosed] ++ evs2 ++ [.closeRet (-2)])
      { s1 with pSock := none } :=
      h2.append h2.1 hp (by simp [Ev.io])
    simpa using h3
  | closeAddingOt h => rcases hI.1 with h' | h' <;> cases h.symm.trans h'
  | closeAddingIt h => rcases hI.1 with h' | h' <;> cases h.symm.trans h'
  | tearsDown h => rcases hI.1 with h' | h' <;> cases h.symm.trans h'

/-- **User code in `on_closed`** leaves the endpoint resting, without a request. -/
theorem UserCode.run_resting (u : UserCode) (hs : Resting s) (h : u.run s = ⟨evs, .ok s'⟩) :
    Resting s' ∧ s'.pSock = s.pSock ∧ ∀ e ∈ evs, e.io = false := by
  have h1 : RestingLog s.pSock [] s := ⟨hs, rfl, by simp⟩
  exact (u.triple (openEp_resting _) (close_resting _)).ok h1 h

/-- Whether user code calls `close` itself. -/
def UserCode.closes : UserCode → Bool
  | .done => false
  | .callOpen next => next.closes
  | .callClose _ _ => true

/-- What the calls of user code return in `on_opened`. -/
def UserCode.rets : UserCode → List Ev
  | .done => []
  | .callOpen next => .openRet (-1) :: next.rets
  | .callClose _ next => .closeRet 0 :: next.rets

theorem openEp_adding (h : s.state = .esAddingIntoIt) : openEp s = ⟨[.openRet (-1)], .ok s⟩ := by
  obtain ⟨st, p, sock, ka⟩ := s
  cases h; rfl

theorem close_adding (h : s.state = .esAddingIntoIt) :
    close cb s = ⟨[.closeRet 0], .ok { s with smPendingEvt := .eeClose }⟩ := by
  obtain ⟨st, p, sock, ka⟩ := s
  cases h; rfl

/-- **User code in `on_opened`**: the state machine is still in `ES_ADDING_INTO_IT`, a `close` is
recorded. -/
theorem UserCode.run_adding : ∀ (u : UserCode) {s : CRupEndpoint}, s.state = .esAddingIntoIt →
    u.run s = ⟨u.rets, .ok { s with smPendingEvt := if u.closes then .eeClose else s.smPendingEvt }⟩
  | .done, _, _ => rfl
  | .callOpen next, s, h => by
    show openEp s >>= next.run = _
    rw [openEp_adding h, Eff.bind_of_ok rfl, next.run_adding h]; rfl
  | .callClose inner next, s, h => by
    show close inner.run s >>= next.run = _
    have ih := next.run_adding (s := { s with smPendingEvt := .eeClose }) h
    rw [close_adding h, Eff.bind_of_ok rfl, ih]
    simp [rets, closes]

end SmartNet.Endpoint.RupEndpoint
