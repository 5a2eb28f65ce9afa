import SmartNet.Endpoint.Types
import SmartNet.Lib.Triple
import SmartNet.Utils.StateMachine

/-! # `CRmpEndpoint`

The state machine of a multicast endpoint. It has no helper: `open` makes the socket and registers
with the output task. Its flag `m_i32SMPendingEvt` is not set by the constructor and not reset by
`open`.

* `post_trans`: everything a `post_evt` that returns can do, a constructor of `Trans` for each row
  of the table;
* `post_fails`: the asserts it can run into;
* `UserCode.run_adding`, `UserCode.run_closed`: what user code does in `on_opened`, and in
  `on_closed` if it does not open the endpoint again. -/

namespace SmartNet.Endpoint.RmpEndpoint

open SmartNet.Common SmartNet.Lib SmartNet.Utils.StateMachine SmartNet.Endpoint.Types

inductive St
  | esClosed
  | esAddingIntoOt
  | esAddingIntoIt
  | esOpened
  | esDelingFromIt
  | esDelingFromOt
  deriving DecidableEq, Repr

/-- `RMP_RECV_ENDPOINT`, `RMP_SEND_ENDPOINT`. -/
inductive RmpType
  | recv
  | send
  deriving DecidableEq, Repr

/-- The parameters of `open`. -/
structure SParasEx where
  strMulticast : String
  strBindIp : String
  ui16BindPort : ℕ
  ui8SenderId : ℕ
  ui32AckConfirmCnt : ℕ
  deriving DecidableEq, Repr

/-- A call of `open`: its parameters, the number of the new socket, and whether the socket's `open`,
`bind` and `set_nonblock` succeed. -/
structure Opening where
  paras : SParasEx
  pSock : ℕ
  opens : Bool
  binds : Bool
  setsNonblock : Bool
  deriving DecidableEq, Repr

/-- The events; `EE_ADDED_INTO_IT` comes with the result of `join_multicast_group`. -/
inductive Evt
  | eeOpen (o : Opening)
  | eeClose
  | eeInternalErr
  | eeAddedIntoOt
  | eeAddedIntoIt (joined : Bool)
  | eeDeledFromIt
  | eeDeledFromOt
  deriving DecidableEq, Repr

/-- The endpoint; sockets are numbered. -/
structure CRmpEndpoint where
  i32Type : RmpType
  state : St
  smPendingEvt : PendingEvt
  pSock : Option ℕ
  paras : SParasEx
  deriving DecidableEq, Repr

/-- What the endpoint does to the outside. -/
inductive Ev
  | addEndpoint (t : IoType)
  | delEndpoint (t : IoType)
  | sockClose (s : ℕ)
  | onOpened
  | onClosed
  | openRet (r : ℤ)
  | closeRet (r : ℤ)
  deriving DecidableEq, Repr

/-- `CMN_ASSERT(EE_NONE == m_i32SMPendingEvt)`, and a call through a NULL `m_pSock`. -/
inductive Fault
  | pendingEvt
  | sockNull
  deriving DecidableEq, Repr

abbrev Handler := CRmpEndpoint → Eff Ev Fault (Cmnerr × CRmpEndpoint)

/-- The user code of `on_opened` and `on_closed`. -/
abbrev Callback := CRmpEndpoint → Eff Ev Fault CRmpEndpoint

/-- A freshly constructed endpoint; `p` is what is in the memory of `m_i32SMPendingEvt`. -/
def init (t : RmpType) (p : PendingEvt) : CRmpEndpoint := ⟨t, .esClosed, p, none, ⟨"", "", 0, 0, 0⟩⟩

/-! ## The handlers -/

/-- `m_pSock->close()`. -/
def closeSock (s : CRmpEndpoint) : Eff Ev Fault Unit :=
  match s.pSock with
  | none => .abort .sockNull
  | some n => .emit (.sockClose n)

/-- Whether the socket could be set up; only a receiver binds it. -/
def Opening.ok (o : Opening) (t : RmpType) : Bool :=
  o.opens && (o.binds || t = .send) && o.setsNonblock

def handlingClosedToAddingIntoOt (o : Opening) : Handler := fun s =>
  if o.ok s.i32Type then do
    .emit (.addEndpoint .output)
    pure (.suc, { s with paras := o.paras, pSock := some o.pSock })
  else pure (.commonErr, { s with paras := o.paras, pSock := none })

/-- The event is only recorded. -/
def record (p : PendingEvt) : Handler := fun s => pure (.suc, { s with smPendingEvt := p })

def handlingCloseWhileAddingIntoOt : Handler := record .eeClose

def handlingInternalErrWhileAddingIntoOt : Handler := record .eeInternalErr

def handlingCloseWhileAddingIntoIt : Handler := record .eeClose

def handlingInternalErrWhileAddingIntoIt : Handler := record .eeInternalErr

def handlingAddingIntoOtToAddingIntoIt : Handler := fun s =>
  if s.smPendingEvt = .eeClose then do
    closeSock s
    .emit (.delEndpoint .output)
    pure (.commonErr, { s with state := .esDelingFromOt })
  else do
    .require (s.smPendingEvt = .eeNone) .pendingEvt
    .emit (.addEndpoint .input)
    pure (.suc, s)

def handlingAddingIntoItToOpened (onOpened : Callback) (joined : Bool) : Handler := fun s =>
  if s.smPendingEvt ≠ .eeNone ∨ (s.i32Type = .recv ∧ joined = false) then do
    closeSock s
    .emit (.delEndpoint .input)
    pure (.commonErr, { s with state := .esDelingFromIt })
  else do
    .emit .onOpened
    let s ← onOpened s
    pure (.suc, s)

/-- The teardown starts with the socket and the input task. -/
def tearDown : Handler := fun s => do
  closeSock s
  .emit (.delEndpoint .input)
  pure (.suc, s)

def handlingInternalErrWhileOpened : Handler := tearDown

def handlingCloseWhileOpened : Handler := tearDown

def handlingDelingFromItToDelingFromOt : Handler := fun s => do
  .emit (.delEndpoint .output)
  pure (.suc, s)

def handlingDelingFromOtToClosed (onClosed : Callback) : Handler := fun s => do
  .emit .onClosed
  let s ← onClosed { s with state := .esClosed }
  pure (.commonErr, { s with pSock := none })

/-- `init_sm`. -/
def initSm (cb : Callback) : St → Evt → Option (SElem St Handler)
  | .esClosed, .eeOpen o => some ⟨.esAddingIntoOt, handlingClosedToAddingIntoOt o⟩
  | .esAddingIntoOt, .eeClose => some ⟨.esAddingIntoOt, handlingCloseWhileAddingIntoOt⟩
  | .esAddingIntoOt, .eeInternalErr => some ⟨.esClosed, handlingInternalErrWhileAddingIntoOt⟩
  | .esAddingIntoOt, .eeAddedIntoOt => some ⟨.esAddingIntoIt, handlingAddingIntoOtToAddingIntoIt⟩
  | .esAddingIntoIt, .eeInternalErr => some ⟨.esAddingIntoIt, handlingInternalErrWhileAddingIntoIt⟩
  | .esAddingIntoIt, .eeClose => some ⟨.esAddingIntoIt, handlingCloseWhileAddingIntoIt⟩
  | .esAddingIntoIt, .eeAddedIntoIt joined =>
    some ⟨.esOpened, handlingAddingIntoItToOpened cb joined⟩
  | .esOpened, .eeInternalErr => some ⟨.esDelingFromIt, handlingInternalErrWhileOpened⟩
  | .esOpened, .eeClose => some ⟨.esDelingFromIt, handlingCloseWhileOpened⟩
  | .esDelingFromIt, .eeDeledFromIt => some ⟨.esDelingFromOt, handlingDelingFromItToDelingFromOt⟩
  | .esDelingFromOt, .eeDeledFromOt => some ⟨.esClosed, handlingDelingFromOtToClosed cb⟩
  | _, _ => none

/-- `m_sm.post_evt`. -/
def postEvt (cb : Callback) (s : CRmpEndpoint) (e : Evt) : Eff Ev Fault (ℤ × CRmpEndpoint) :=
  Utils.StateMachine.postEvt CRmpEndpoint.state (fun s st => { s with state := st }) (initSm cb) s e

/-- `open`. -/
def openEp (o : Opening) (s : CRmpEndpoint) : Eff Ev Fault CRmpEndpoint :=
  returning .openRet (postEvt pure s (.eeOpen o))

/-- `close`. It never leads to a callback by itself. -/
def close (s : CRmpEndpoint) : Eff Ev Fault CRmpEndpoint :=
  returning .closeRet (postEvt pure s .eeClose)

/-- The calls that `on_opened` or `on_closed` make, one after the other. -/
inductive UserCode
  | done
  | callOpen (o : Opening) (next : UserCode)
  | callClose (next : UserCode)
  deriving DecidableEq, Repr

def UserCode.run : UserCode → Callback
  | .done, s => pure s
  | .callOpen o next, s => openEp o s >>= next.run
  | .callClose next, s => close s >>= next.run

/-! ## What a call can do -/

/-- What `post_evt` does when it returns: a row of the table, or nothing. -/
inductive Trans (cb : Callback) (s : CRmpEndpoint) : Evt → List Ev → ℤ → CRmpEndpoint → Prop
  | ignored {e : Evt} (h : initSm cb s.state e = none) : Trans cb s e [] (-1) s
  | opens (h : s.state = .esClosed) {o : Opening} (ho : o.ok s.i32Type = true) :
      Trans cb s (.eeOpen o) [.addEndpoint .output] 0
        { s with state := .esAddingIntoOt, paras := o.paras, pSock := some o.pSock }
  | openFails (h : s.state = .esClosed) {o : Opening} (ho : o.ok s.i32Type = false) :
      Trans cb s (.eeOpen o) [] (-2) { s with paras := o.paras, pSock := none }
  | closeAddingOt (h : s.state = .esAddingIntoOt) :
      Trans cb s .eeClose [] 0 { s with smPendingEvt := .eeClose }
  | errAddingOt (h : s.state = .esAddingIntoOt) :
      Trans cb s .eeInternalErr [] 0 { s with state := .esClosed, smPendingEvt := .eeInternalErr }
  | addedOtClose (h : s.state = .esAddingIntoOt) (hp : s.smPendingEvt = .eeClose) {n : ℕ}
      (hs : s.pSock = some n) :
      Trans cb s .eeAddedIntoOt [.sockClose n, .delEndpoint .output] (-2)
        { s with state := .esDelingFromOt }
  | addedOt (h : s.state = .esAddingIntoOt) (hp : s.smPendingEvt = .eeNone) :
      Trans cb s .eeAddedIntoOt [.addEndpoint .input] 0 { s with state := .esAddingIntoIt }
  | errAddingIt (h : s.state = .esAddingIntoIt) :
      Trans cb s .eeInternalErr [] 0 { s with smPendingEvt := .eeInternalErr }
  | closeAddingIt (h : s.state = .esAddingIntoIt) :
      Trans cb s .eeClose [] 0 { s with smPendingEvt := .eeClose }
  | addedItFails (h : s.state = .esAddingIntoIt) {joined : Bool}
      (hp : s.smPendingEvt ≠ .eeNone ∨ (s.i32Type = .recv ∧ joined = false)) {n : ℕ}
      (hs : s.pSock = some n) :
      Trans cb s (.eeAddedIntoIt joined) [.sockClose n, .delEndpoint .input] (-2)
        { s with state := .esDelingFromIt }
  | addedIt (h : s.state = .esAddingIntoIt) {joined : Bool}
      (hp : ¬ (s.smPendingEvt ≠ .eeNone ∨ (s.i32Type = .recv ∧ joined = false))) {evs : List Ev}
      {s1 : CRmpEndpoint} (hcb : cb s = ⟨evs, .ok s1⟩) :
      Trans cb s (.eeAddedIntoIt joined) (.onOpened :: evs) 0 { s1 with state := .esOpened }
  | tearsDown (h : s.state = .esOpened) {e : Evt} (he : e = .eeClose ∨ e = .eeInternalErr) {n : ℕ}
      (hs : s.pSock = some n) :
      Trans cb s e [.sockClose n, .delEndpoint .input] 0 { s with state := .esDelingFromIt }
  | deledIt (h : s.state = .esDelingFromIt) :
      Trans cb s .eeDeledFromIt [.delEndpoint .output] 0 { s with state := .esDelingFromOt }
  | deledOt (h : s.state = .esDelingFromOt) {evs : List Ev} {s1 : CRmpEndpoint}
      (hcb : cb { s with state := .esClosed } = ⟨evs, .ok s1⟩) :
      Trans cb s .eeDeledFromOt (.onClosed :: evs) (-2) { s1 with pSock := none }

/-- The ways `post_evt` ends the process. -/
inductive Fails (cb : Callback) (s : CRmpEndpoint) : Evt → List Ev → Fault → Prop
  | pendingEvt (h : s.state = .esAddingIntoOt) (hp : s.smPendingEvt ≠ .eeNone)
      (hc : s.smPendingEvt ≠ .eeClose) :
      Fails cb s .eeAddedIntoOt [] .pendingEvt
  | sockNull (h : s.state = .esAddingIntoOt ∨ s.state = .esAddingIntoIt ∨ s.state = .esOpened)
      (hs : s.pSock = none) {e : Evt} (he : ∀ o, e ≠ .eeOpen o) :
      Fails cb s e [] .sockNull
  | addedIt (h : s.state = .esAddingIntoIt) {joined : Bool}
      (hp : ¬ (s.smPendingEvt ≠ .eeNone ∨ (s.i32Type = .recv ∧ joined = false))) {evs : List Ev}
      {f : Fault} (hcb : cb s = ⟨evs, .error f⟩) :
      Fails cb s (.eeAddedIntoIt joined) (.onOpened :: evs) f
  | deledOt (h : s.state = .esDelingFromOt) {evs : List Ev} {f : Fault}
      (hcb : cb { s with state := .esClosed } = ⟨evs, .error f⟩) :
      Fails cb s .eeDeledFromOt (.onClosed :: evs) f

variable {cb : Callback} {s s' : CRmpEndpoint} {e : Evt} {evs : List Ev} {r : ℤ} {f : Fault}
  {o : Opening} {joined : Bool}

theorem closedBy_ok {ret : Cmnerr} (h : handlingDelingFromOtToClosed cb s = ⟨evs, .ok (ret, s')⟩) :
    ∃ evs1 s1, cb { s with state := .esClosed } = ⟨evs1, .ok s1⟩ ∧ evs = .onClosed :: evs1 ∧
      ret = .commonErr ∧
      s' = { s1 with pSock := none } := by
  obtain ⟨evs1, rfl, h1⟩ := Eff.emit_inv h
  obtain ⟨s1, h2, h3⟩ := Eff.bind_pure_ok h1
  cases h3; exact ⟨evs1, s1, h2, rfl, rfl, rfl⟩

theorem closedBy_error (h : handlingDelingFromOtToClosed cb s = ⟨evs, .error f⟩) :
    ∃ evs1, cb { s with state := .esClosed } = ⟨evs1, .error f⟩ ∧ evs = .onClosed :: evs1 := by
  obtain ⟨evs1, rfl, h1⟩ := Eff.emit_inv h
  exact ⟨evs1, Eff.bind_pure_error h1, rfl⟩

/-- **Everything `post_evt` can do** when it returns. -/
theorem post_trans (h : postEvt cb s e = ⟨evs, .ok (r, s')⟩) : Trans cb s e evs r s' := by
  obtain ⟨ty, st, p, sock, pa⟩ := s
  cases st <;> cases e
  all_goals try (cases h; exact .ignored rfl)
  case esClosed.eeOpen o =>
    obtain ⟨s1, h1, rfl, rfl⟩ | ⟨ret, hret, h1, rfl⟩ := postEvt_ok (t := .esAddingIntoOt) rfl h
    all_goals
      unfold handlingClosedToAddingIntoOt at h1
      split_ifs at h1 with ho <;> cases h1
    · exact .opens rfl ho
    · exact absurd rfl hret
    · exact .openFails rfl (by simpa using ho)
  case esAddingIntoOt.eeClose => cases h; exact .closeAddingOt rfl
  case esAddingIntoOt.eeInternalErr => cases h; exact .errAddingOt rfl
  case esAddingIntoOt.eeAddedIntoOt =>
    rcases p with _ | _ | _ | _ <;> rcases sock with _ | n <;> cases h
    · exact .addedOt rfl rfl
    · exact .addedOt rfl rfl
    · exact .addedOtClose rfl rfl rfl
  case esAddingIntoIt.eeClose => cases h; exact .closeAddingIt rfl
  case esAddingIntoIt.eeInternalErr => cases h; exact .errAddingIt rfl
  case esAddingIntoIt.eeAddedIntoIt joined =>
    obtain ⟨s1, h1, rfl, rfl⟩ | ⟨ret, hret, h1, rfl⟩ := postEvt_ok (t := .esOpened) rfl h
    all_goals
      unfold handlingAddingIntoItToOpened at h1
      split_ifs at h1 with hp
    · rcases sock with _ | n <;> cases h1
    · obtain ⟨evs1, rfl, h2⟩ := Eff.emit_inv h1
      obtain ⟨s2, hcb, h3⟩ := Eff.bind_pure_ok h2
      cases h3
      exact .addedIt rfl hp hcb
    · rcases sock with _ | n <;> cases h1
      exact .addedItFails rfl hp rfl
    · obtain ⟨evs1, rfl, h2⟩ := Eff.emit_inv h1
      obtain ⟨s2, hcb, h3⟩ := Eff.bind_pure_ok h2
      cases h3
      exact absurd rfl hret
  case esOpened.eeClose =>
    rcases sock with _ | n <;> cases h
    exact .tearsDown rfl (Or.inl rfl) rfl
  case esOpened.eeInternalErr =>
    rcases sock with _ | n <;> cases h
    exact .tearsDown rfl (Or.inr rfl) rfl
  case esDelingFromIt.eeDeledFromIt => cases h; exact .deledIt rfl
  case esDelingFromOt.eeDeledFromOt =>
    obtain ⟨s1, h1, -, -⟩ | ⟨ret, -, h1, rfl⟩ := postEvt_ok (t := .esClosed) rfl h
    all_goals obtain ⟨evs2, s2, hcb, rfl, hret, rfl⟩ := closedBy_ok h1
    · cases hret
    · exact .deledOt rfl hcb

/-- **Every way `post_evt` can end the process.** -/
theorem post_fails (h : postEvt cb s e = ⟨evs, .error f⟩) : Fails cb s e evs f := by
  obtain ⟨st, el, hel, hfn⟩ := postEvt_fault h
  obtain ⟨ty, cur, p, sock, pa⟩ := s
  cases cur <;> cases e <;> cases hel
  all_goals try cases hfn
  case esClosed.eeOpen o =>
    unfold handlingClosedToAddingIntoOt at hfn
    split_ifs at hfn <;> cases hfn
  case esAddingIntoOt.eeAddedIntoOt =>
    rcases p with _ | _ | _ | _ <;> rcases sock with _ | n <;> cases hfn
    · exact .sockNull (Or.inl rfl) rfl nofun
    all_goals exact .pendingEvt rfl nofun nofun
  case esAddingIntoIt.eeAddedIntoIt joined =>
    unfold handlingAddingIntoItToOpened at hfn
    split_ifs at hfn with hp
    · rcases sock with _ | n <;> cases hfn
      exact .sockNull (Or.inr (Or.inl rfl)) rfl nofun
    · obtain ⟨evs1, rfl, h1⟩ := Eff.emit_inv hfn
      exact .addedIt rfl hp (Eff.bind_pure_error h1)
  case esOpened.eeClose =>
    rcases sock with _ | n <;> cases hfn
    exact .sockNull (Or.inr (Or.inr rfl)) rfl nofun
  case esOpened.eeInternalErr =>
    rcases sock with _ | n <;> cases hfn
    exact .sockNull (Or.inr (Or.inr rfl)) rfl nofun
  case esDelingFromOt.eeDeledFromOt =>
    obtain ⟨evs2, hcb, rfl⟩ := closedBy_error hfn
    exact .deledOt rfl hcb

/-! ### The events of the notifiers, state by state -/

theorem Trans.internalErr (h : Trans cb s .eeInternalErr evs r s') :
    match s.state with
    | .esAddingIntoOt =>
      evs = [] ∧ s' = { s with state := .esClosed, smPendingEvt := .eeInternalErr }
    | .esAddingIntoIt => evs = [] ∧ s' = { s with smPendingEvt := .eeInternalErr }
    | .esOpened =>
      ∃ n, s.pSock = some n ∧ evs = [.sockClose n, .delEndpoint .input] ∧
        s' = { s with state := .esDelingFromIt }
    | _ => evs = [] ∧ s' = s := by
  cases h with
  | ignored h => rcases hst : s.state <;> rw [hst] at h <;> first | exact ⟨rfl, rfl⟩ | cases h
  | errAddingOt hst => rw [hst]; exact ⟨rfl, rfl⟩
  | errAddingIt hst => rw [hst]; exact ⟨rfl, rfl⟩
  | tearsDown hst _ hs => rw [hst]; exact ⟨_, hs, rfl, rfl⟩

theorem Trans.addedIntoOt (h : Trans cb s .eeAddedIntoOt evs r s') :
    match s.state with
    | .esAddingIntoOt =>
      (s.smPendingEvt = .eeClose ∧ ∃ n, s.pSock = some n ∧
        evs = [.sockClose n, .delEndpoint .output] ∧
        s' = { s with state := .esDelingFromOt }) ∨
      (s.smPendingEvt = .eeNone ∧ evs = [.addEndpoint .input] ∧
        s' = { s with state := .esAddingIntoIt })
    | _ => evs = [] ∧ s' = s := by
  cases h with
  | ignored h => rcases hst : s.state <;> rw [hst] at h <;> first | exact ⟨rfl, rfl⟩ | cases h
  | addedOtClose hst hp hs => rw [hst]; exact Or.inl ⟨hp, _, hs, rfl, rfl⟩
  | addedOt hst hp => rw [hst]; exact Or.inr ⟨hp, rfl, rfl⟩
  | tearsDown hst he _ => rcases he with he | he <;> cases he

theorem Trans.addedIntoIt (h : Trans cb s (.eeAddedIntoIt joined) evs r s') :
    match s.state with
    | .esAddingIntoIt =>
      ((s.smPendingEvt ≠ .eeNone ∨ (s.i32Type = .recv ∧ joined = false)) ∧ ∃ n, s.pSock = some n ∧
        evs = [.sockClose n, .delEndpoint .input] ∧ s' = { s with state := .esDelingFromIt }) ∨
      (¬ (s.smPendingEvt ≠ .eeNone ∨ (s.i32Type = .recv ∧ joined = false)) ∧ ∃ evs1 s1,
        cb s = ⟨evs1, .ok s1⟩ ∧
        evs = .onOpened :: evs1 ∧ s' = { s1 with state := .esOpened })
    | _ => evs = [] ∧ s' = s := by
  cases h with
  | ignored h => rcases hst : s.state <;> rw [hst] at h <;> first | exact ⟨rfl, rfl⟩ | cases h
  | addedItFails hst hp hs => rw [hst]; exact Or.inl ⟨hp, _, hs, rfl, rfl⟩
  | addedIt hst hp hcb => rw [hst]; exact Or.inr ⟨hp, _, _, hcb, rfl, rfl⟩
  | tearsDown hst he _ => rcases he with he | he <;> cases he

theorem Trans.deledFromIt (h : Trans cb s .eeDeledFromIt evs r s') :
    match s.state with
    | .esDelingFromIt => evs = [.delEndpoint .output] ∧ s' = { s with state := .esDelingFromOt }
    | _ => evs = [] ∧ s' = s := by
  cases h with
  | ignored h => rcases hst : s.state <;> rw [hst] at h <;> first | exact ⟨rfl, rfl⟩ | cases h
  | deledIt hst => rw [hst]; exact ⟨rfl, rfl⟩
  | tearsDown hst he _ => rcases he with he | he <;> cases he

theorem Trans.deledFromOt (h : Trans cb s .eeDeledFromOt evs r s') :
    match s.state with
    | .esDelingFromOt =>
      ∃ evs1 s1, cb { s with state := .esClosed } = ⟨evs1, .ok s1⟩ ∧ evs = .onClosed :: evs1 ∧
        s' = { s1 with pSock := none }
    | _ => evs = [] ∧ s' = s := by
  cases h with
  | ignored h => rcases hst : s.state <;> rw [hst] at h <;> first | exact ⟨rfl, rfl⟩ | cases h
  | deledOt hst hcb => rw [hst]; exact ⟨_, _, hcb, rfl, rfl⟩
  | tearsDown hst he _ => rcases he with he | he <;> cases he

theorem openEp_ok (h : openEp o s = ⟨evs, .ok s'⟩) :
    ∃ r evs1, Trans pure s (.eeOpen o) evs1 r s' ∧ evs = evs1 ++ [.openRet r] := by
  obtain ⟨r, evs1, h1, h2⟩ := returning_ok h
  exact ⟨r, evs1, post_trans h1, h2⟩

theorem close_ok (h : close s = ⟨evs, .ok s'⟩) :
    ∃ r evs1, Trans pure s .eeClose evs1 r s' ∧ evs = evs1 ++ [.closeRet r] := by
  obtain ⟨r, evs1, h1, h2⟩ := returning_ok h
  exact ⟨r, evs1, post_trans h1, h2⟩

/-! ## User code -/

/-- Whether user code calls `close`. -/
def UserCode.closes : UserCode → Bool
  | .done => false
  | .callOpen _ next => next.closes
  | .callClose _ => true

/-- What the calls of user code return in `on_opened`. -/
def UserCode.rets : UserCode → List Ev
  | .done => []
  | .callOpen _ next => .openRet (-1) :: next.rets
  | .callClose next => .closeRet 0 :: next.rets

theorem openEp_adding (h : s.state = .esAddingIntoIt) : openEp o s = ⟨[.openRet (-1)], .ok s⟩ := by
  obtain ⟨ty, st, p, sock, pa⟩ := s
  cases h; rfl

theorem close_adding (h : s.state = .esAddingIntoIt) :
    close s = ⟨[.closeRet 0], .ok { s with smPendingEvt := .eeClose }⟩ := by
  obtain ⟨ty, st, p, sock, pa⟩ := s
  cases h; rfl

/-- **User code in `on_opened`**: the state machine is still in `ES_ADDING_INTO_IT`, a `close` is
recorded. -/
theorem UserCode.run_adding : ∀ (u : UserCode) {s : CRmpEndpoint}, s.state = .esAddingIntoIt →
    u.run s = ⟨u.rets, .ok { s with smPendingEvt := if u.closes then .eeClose else s.smPendingEvt }⟩
  | .done, _, _ => rfl
  | .callOpen o next, s, h => by
    show openEp o s >>= next.run = _
    rw [openEp_adding h, Eff.bind_of_ok rfl, next.run_adding h]; rfl
  | .callClose next, s, h => by
    show close s >>= next.run = _
    have ih := next.run_adding (s := { s with smPendingEvt := .eeClose }) h
    rw [close_adding h, Eff.bind_of_ok rfl, ih]
    simp [rets, closes]

/-- Whether user code opens the closed endpoint `s` again. -/
def UserCode.reopens (t : RmpType) : UserCode → Bool
  | .done => false
  | .callOpen o next => o.ok t || next.reopens t
  | .callClose next => next.reopens t

theorem openEp_closed (h : s.state = .esClosed) (ho : o.ok s.i32Type = false) :
    openEp o s = ⟨[.openRet (-2)], .ok { s with paras := o.paras, pSock := none }⟩ := by
  have hrow : initSm pure s.state (.eeOpen o) =
    some ⟨.esAddingIntoOt, some (handlingClosedToAddingIntoOt o)⟩ := by
    rw [h]; rfl
  have hfn : handlingClosedToAddingIntoOt o s =
    ⟨[], .ok (.commonErr, { s with paras := o.paras, pSock := none })⟩ := by
    unfold handlingClosedToAddingIntoOt
    rw [if_neg (by simp [ho])]; rfl
  have h1 : postEvt pure s (.eeOpen o) = _ := postEvt_failed hrow (by decide) hfn
  unfold openEp
  rw [h1]; rfl

theorem close_closed (h : s.state = .esClosed) : close s = ⟨[.closeRet (-1)], .ok s⟩ := by
  obtain ⟨ty, st, p, sock, pa⟩ := s
  cases h; rfl

/-- The events of calls that change no registration. -/
def Ev.isRet : Ev → Bool
  | .openRet _ => true
  | .closeRet _ => true
  | _ => false

theorem UserCode.rets_isRet : ∀ u : UserCode, ∀ e ∈ u.rets, e.isRet = true
  | .done => nofun
  | .callOpen _ next => List.forall_mem_cons.mpr ⟨rfl, next.rets_isRet⟩
  | .callClose next => List.forall_mem_cons.mpr ⟨rfl, next.rets_isRet⟩

/-- **User code in `on_closed`** that does not open the endpoint again leaves it closed. -/
theorem UserCode.run_closed : ∀ (u : UserCode) {s : CRmpEndpoint}, s.state = .esClosed →
    u.reopens s.i32Type = false →
    ∃ evs s', u.run s = ⟨evs, .ok s'⟩ ∧ s'.state = .esClosed ∧ s'.smPendingEvt = s.smPendingEvt ∧
      ∀ e ∈ evs, e.isRet = true
  | .done, s, h, _ => ⟨[], s, rfl, h, rfl, nofun⟩
  | .callOpen o next, s, h, hr => by
    obtain ⟨ho, hr'⟩ : o.ok s.i32Type = false ∧ next.reopens s.i32Type = false := by
      simpa [reopens] using hr
    obtain ⟨evs, s', h1, h2, h3, h4⟩ :=
      next.run_closed (s := { s with paras := o.paras, pSock := none }) h hr'
    refine ⟨.openRet (-2) :: evs, s', ?_, h2, h3, List.forall_mem_cons.mpr ⟨rfl, h4⟩⟩
    show openEp o s >>= next.run = _
    rw [openEp_closed h ho, Eff.bind_of_ok rfl, h1]; rfl
  | .callClose next, s, h, hr => by
    obtain ⟨evs, s', h1, h2, h3, h4⟩ := next.run_closed h hr
    refine ⟨.closeRet (-1) :: evs, s', ?_, h2, h3, List.forall_mem_cons.mpr ⟨rfl, h4⟩⟩
    show close s >>= next.run = _
    rw [close_closed h, Eff.bind_of_ok rfl, h1]; rfl

end SmartNet.Endpoint.RmpEndpoint
