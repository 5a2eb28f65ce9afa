import SmartNet.Endpoint.Types
import SmartNet.Lib.Triple
import SmartNet.Utils.StateMachine

/-! # `CRupAcceptor`

The state machine of an acceptor, and its callbacks. `open` makes a listening socket and registers
with the input task; an input event accepts a connection and hands it to a waiting endpoint.

* `post_trans`: everything a `post_evt` that returns can do, a constructor of `Trans` for each row
  of the table;
* `post_fails`: the asserts it can run into;
* `UserCode.run_deling`: what user code does in `on_closed`. -/

namespace SmartNet.Endpoint.RupAcceptor

open SmartNet.Common SmartNet.Lib SmartNet.Utils.StateMachine SmartNet.Endpoint.Types

inductive St
  | esClosed
  | esAddingIntoIt
  | esOpened
  | esDelingFromIt
  deriving DecidableEq, Repr

/-- The parameters of `open`, the number of the socket, and what the system calls of `open`, `bind`
and `listen` say. -/
structure Opening where
  sp : SParas
  hSock : ℕ
  opens : Bool
  binds : Bool
  listens : Bool
  deriving DecidableEq, Repr

inductive Evt
  | eeOpen (o : Opening)
  | eeClose
  | eeAddedIntoIt
  | eeDeledFromIt
  | eeInternalErr
  deriving DecidableEq, Repr

structure CRupAcceptor where
  state : St
  i32PendingEvt : PendingEvt
  pTcpSockListener : Option CRupSock
  deriving DecidableEq, Repr

/-- What the acceptor does to the outside. -/
inductive Ev
  | addEndpoint
  | delEndpoint
  | sockBind (s : ℕ) (strIP : String) (ui16Port : ℕ)
  | sockListen (s : ℕ) (i32Backlog : ℕ)
  | sockClose (s : ℕ)
  | sockAccepted (s : ℕ)
  | handleConnected (s : ℕ) (suc : Bool)
  | onOpened
  | onClosed
  | openRet (r : ℤ)
  | closeRet (r : ℤ)
  deriving DecidableEq, Repr

/-- The asserts of the acceptor (`NULL == m_pTcpSockListener`, `is_opened()`, that an event is
taken), the assert of `CRupSock::accept`, and a call through a NULL `m_pTcpSockListener`. -/
inductive Fault
  | listenerNotNull
  | notOpened
  | refused
  | accept
  | listenerNull
  deriving DecidableEq, Repr

abbrev Handler := CRupAcceptor → Eff Ev Fault (Cmnerr × CRupAcceptor)

/-- The user code of `on_closed`. -/
abbrev Callback := CRupAcceptor → Eff Ev Fault CRupAcceptor

/-- A freshly constructed acceptor; `p` is what is in the memory of `m_i32PendingEvt`. -/
def init (p : PendingEvt) : CRupAcceptor := ⟨.esClosed, p, none⟩

/-! ## The handlers -/

/-- `m_pTcpSockListener->close()`. -/
def closeListener (s : CRupAcceptor) : Eff Ev Fault CRupAcceptor :=
  match s.pTcpSockListener with
  | none => .abort .listenerNull
  | some k => ⟨if k.isOpened then [.sockClose k.hSock] else [],
      .ok { s with pTcpSockListener := some { k with isOpened := false } }⟩

def backlog : ℕ := 20

def handlingClosedToAddingIntoIt (o : Opening) : Handler := fun s => do
  .require (s.pTcpSockListener = none) .listenerNotNull
  let s := { s with i32PendingEvt := .eeNone, pTcpSockListener := some ⟨o.hSock, o.opens⟩ }
  if o.opens = false then pure (.commonErr, s)
  else do
    .emit (.sockBind o.hSock o.sp.strIP o.sp.ui16Port)
    if o.binds = false then pure (.commonErr, s)
    else do
      .emit (.sockListen o.hSock backlog)
      if o.listens = false then pure (.commonErr, s)
      else do
        .emit .addEndpoint
        pure (.suc, s)

/-- The event is only recorded. -/
def record (p : PendingEvt) : Handler := fun s => pure (.suc, { s with i32PendingEvt := p })

def handlingCloseWhileAddingIntoIt : Handler := record .eeClose

def handlingInternalErrWhileAddingIntoIt : Handler := record .eeInternalErr

/-- The teardown. -/
def tearDown : Handler := fun s =>
  match s.pTcpSockListener with
  | none => .abort .listenerNull
  | some k => do
    .require (k.isOpened = true) .notOpened
    let s ← closeListener s
    .emit .delEndpoint
    pure (.suc, s)

def handlingCloseWhileOpened : Handler := tearDown

def handlingInternalErrWhileOpened : Handler := tearDown

def handlingAddingIntoItToOpened : Handler := fun s =>
  if s.i32PendingEvt ≠ .eeNone then do
    let s ← closeListener s
    .emit .delEndpoint
    pure (.commonErr, { s with state := .esDelingFromIt })
  else
    match s.pTcpSockListener with
    | none => .abort .listenerNull
    | some k => do
      .require (k.isOpened = true) .notOpened
      .emit .onOpened
      pure (.suc, s)

def handlingDelingFromItToClosed (onClosed : Callback) : Handler := fun s => do
  .emit .onClosed
  let s ← onClosed s
  pure (.suc, s)

/-- The table of the constructor. -/
def initSm (cb : Callback) : St → Evt → Option (SElem St Handler)
  | .esClosed, .eeOpen o => some ⟨.esAddingIntoIt, handlingClosedToAddingIntoIt o⟩
  | .esAddingIntoIt, .eeClose => some ⟨.esAddingIntoIt, handlingCloseWhileAddingIntoIt⟩
  | .esAddingIntoIt, .eeInternalErr => some ⟨.esAddingIntoIt, handlingInternalErrWhileAddingIntoIt⟩
  | .esAddingIntoIt, .eeAddedIntoIt => some ⟨.esOpened, handlingAddingIntoItToOpened⟩
  | .esOpened, .eeClose => some ⟨.esDelingFromIt, handlingCloseWhileOpened⟩
  | .esOpened, .eeInternalErr => some ⟨.esDelingFromIt, handlingInternalErrWhileOpened⟩
  | .esDelingFromIt, .eeDeledFromIt => some ⟨.esClosed, handlingDelingFromItToClosed cb⟩
  | _, _ => none

/-- `m_sm.post_evt`. -/
def postEvt (cb : Callback) (s : CRupAcceptor) (e : Evt) : Eff Ev Fault (ℤ × CRupAcceptor) :=
  Utils.StateMachine.postEvt CRupAcceptor.state (fun s st => { s with state := st }) (initSm cb) s e

/-- `open`. -/
def openEp (o : Opening) (s : CRupAcceptor) : Eff Ev Fault CRupAcceptor :=
  returning .openRet (postEvt pure s (.eeOpen o))

/-- `close`. It never leads to a callback by itself. -/
def close (s : CRupAcceptor) : Eff Ev Fault CRupAcceptor :=
  returning .closeRet (postEvt pure s .eeClose)

/-- The calls that `on_closed` makes, one after the other. -/
inductive UserCode
  | done
  | callOpen (o : Opening) (next : UserCode)
  | callClose (next : UserCode)
  deriving DecidableEq, Repr

def UserCode.run : UserCode → Callback
  | .done, s => pure s
  | .callOpen o next, s => openEp o s >>= next.run
  | .callClose next, s => close s >>= next.run

/-! ## The callbacks -/

/-- The part of `handle_added_into_io_task` for a failed registration. -/
def addFailed (s : CRupAcceptor) : Eff Ev Fault CRupAcceptor :=
  posting (postEvt pure s .eeInternalErr)

/-- The rest of `handle_added_into_io_task`. -/
def added (s : CRupAcceptor) : Eff Ev Fault CRupAcceptor := posting (postEvt pure s .eeAddedIntoIt)

/-- An event that has to be taken. -/
def postTaken (cb : Callback) (e : Evt) (s : CRupAcceptor) : Eff Ev Fault CRupAcceptor := do
  let (r, s) ← postEvt cb s e
  .require (r = 0) .refused
  pure s

def handleDeledFromIoTask (onClosed : Callback) : CRupAcceptor → Eff Ev Fault CRupAcceptor :=
  postTaken onClosed .eeDeledFromIt

def handleIoError : CRupAcceptor → Eff Ev Fault CRupAcceptor := postTaken pure .eeInternalErr

/-- `CRupSock::accept`; `newSock` is what the system call returns for an open socket, if it
succeeds. -/
def accept (newSock : Option ℕ) (s : CRupAcceptor) : Eff Ev Fault ℕ :=
  match s.pTcpSockListener with
  | none => .abort .listenerNull
  | some k =>
    match k.isOpened, newSock with
    | true, some n => do
      .emit (.sockAccepted n)
      pure n
    | _, _ => .abort .accept

/-- The loop over the waiting endpoints: the socket goes to the first that takes it, and is closed
when the queue runs out. -/
def handOff (n : ℕ) : List Bool → List Ev
  | [] => [.sockClose n]
  | true :: _ => [.handleConnected n true]
  | false :: rest => .handleConnected n false :: handOff n rest

/-- `handle_input_evt`, for the answers of the endpoints in the queue. -/
def handleInputEvt (newSock : Option ℕ) (dqIdleEndpoints : List Bool) (s : CRupAcceptor) :
    Eff Ev Fault CRupAcceptor := do
  let n ← accept newSock s
  ⟨handOff n dqIdleEndpoints, .ok s⟩

/-! ## What a call can do -/

/-- What `post_evt` does when it returns: a row of the table, or nothing. -/
inductive Trans (cb : Callback) (s : CRupAcceptor) : Evt → List Ev → ℤ → CRupAcceptor → Prop
  | ignored {e : Evt} (h : initSm cb s.state e = none) : Trans cb s e [] (-1) s
  | opens (h : s.state = .esClosed) (hs : s.pTcpSockListener = none) {o : Opening}
      (ho : o.opens = true) :
      Trans cb s (.eeOpen o)
        [.sockBind o.hSock o.sp.strIP o.sp.ui16Port, .sockListen o.hSock backlog, .addEndpoint] 0
        ⟨.esAddingIntoIt, .eeNone, some ⟨o.hSock, true⟩⟩
  | openFails (h : s.state = .esClosed) (hs : s.pTcpSockListener = none) (o : Opening)
      {evs : List Ev} (hev : Ev.addEndpoint ∉ evs ∧ Ev.delEndpoint ∉ evs) :
      Trans cb s (.eeOpen o) evs (-2) ⟨.esClosed, .eeNone, some ⟨o.hSock, o.opens⟩⟩
  | closeAdding (h : s.state = .esAddingIntoIt) :
      Trans cb s .eeClose [] 0 { s with i32PendingEvt := .eeClose }
  | errAdding (h : s.state = .esAddingIntoIt) :
      Trans cb s .eeInternalErr [] 0 { s with i32PendingEvt := .eeInternalErr }
  | addedPending (h : s.state = .esAddingIntoIt) (hp : s.i32PendingEvt ≠ .eeNone) {k : CRupSock}
      (hs : s.pTcpSockListener = some k) :
      Trans cb s .eeAddedIntoIt
        ((if k.isOpened then [.sockClose k.hSock] else []) ++ [.delEndpoint]) (-2)
        { s with state := .esDelingFromIt, pTcpSockListener := some { k with isOpened := false } }
  | added (h : s.state = .esAddingIntoIt) (hp : s.i32PendingEvt = .eeNone) {k : CRupSock}
      (hs : s.pTcpSockListener = some k) (hk : k.isOpened = true) :
      Trans cb s .eeAddedIntoIt [.onOpened] 0 { s with state := .esOpened }
  | tearsDown (h : s.state = .esOpened) {e : Evt} (he : e = .eeClose ∨ e = .eeInternalErr)
      {k : CRupSock} (hs : s.pTcpSockListener = some k) (hk : k.isOpened = true) :
      Trans cb s e [.sockClose k.hSock, .delEndpoint] 0
        { s with state := .esDelingFromIt, pTcpSockListener := some { k with isOpened := false } }
  | deled (h : s.state = .esDelingFromIt) {evs : List Ev} {s1 : CRupAcceptor}
      (hcb : cb s = ⟨evs, .ok s1⟩) :
      Trans cb s .eeDeledFromIt (.onClosed :: evs) 0 { s1 with state := .esClosed }

/-- The ways `post_evt` ends the process. -/
inductive Fails (cb : Callback) (s : CRupAcceptor) : Evt → List Ev → Fault → Prop
  | listenerNotNull (h : s.state = .esClosed) (hs : s.pTcpSockListener ≠ none) {o : Opening} :
      Fails cb s (.eeOpen o) [] .listenerNotNull
  | listenerNull (h : s.state = .esAddingIntoIt ∨ s.state = .esOpened)
      (hs : s.pTcpSockListener = none) {e : Evt} :
      Fails cb s e [] .listenerNull
  | notOpened (h : s.state = .esAddingIntoIt ∨ s.state = .esOpened) {k : CRupSock}
      (hs : s.pTcpSockListener = some k) (hk : k.isOpened = false) {e : Evt} :
      Fails cb s e [] .notOpened
  | deled (h : s.state = .esDelingFromIt) {evs : List Ev} {f : Fault}
      (hcb : cb s = ⟨evs, .error f⟩) :
      Fails cb s .eeDeledFromIt (.onClosed :: evs) f

variable {cb : Callback} {s s' : CRupAcceptor} {e : Evt} {evs : List Ev} {r : ℤ} {f : Fault}
  {o : Opening}

theorem opening_ok {ret : Cmnerr} (h : handlingClosedToAddingIntoIt o s = ⟨evs, .ok (ret, s')⟩) :
    s.pTcpSockListener = none ∧
    s' = { s with i32PendingEvt := .eeNone, pTcpSockListener := some ⟨o.hSock, o.opens⟩ } ∧
    (ret = .suc ∧ o.opens = true ∧
        evs = [.sockBind o.hSock o.sp.strIP o.sp.ui16Port, .sockListen o.hSock backlog,
          .addEndpoint] ∨
      ret = .commonErr ∧ Ev.addEndpoint ∉ evs ∧ Ev.delEndpoint ∉ evs) := by
  unfold handlingClosedToAddingIntoIt at h
  obtain ⟨sp, n, opens, binds, listens⟩ := o
  by_cases hs : s.pTcpSockListener = none
  · rw [Eff.require_pos hs] at h
    refine ⟨hs, ?_⟩
    rcases opens with _ | _ <;> rcases binds with _ | _ <;> rcases listens with _ | _ <;> cases h
    all_goals refine ⟨rfl, ?_⟩
    all_goals first | exact Or.inr ⟨rfl, by simp, by simp⟩ | exact Or.inl ⟨rfl, rfl, rfl⟩
  · rw [Eff.require_neg hs] at h; cases h

/-- **Everything `post_evt` can do** when it returns. -/
theorem post_trans (h : postEvt cb s e = ⟨evs, .ok (r, s')⟩) : Trans cb s e evs r s' := by
  obtain ⟨st, p, sock⟩ := s
  cases st <;> cases e
  all_goals try (cases h; exact .ignored rfl)
  case esClosed.eeOpen o =>
    obtain ⟨s1, h1, rfl, rfl⟩ | ⟨ret, hret, h1, rfl⟩ := postEvt_ok (t := .esAddingIntoIt) rfl h
    · obtain ⟨hs, rfl, ⟨-, ho, rfl⟩ | ⟨hret, -⟩⟩ := opening_ok h1
      · rw [ho]
        exact .opens rfl hs ho
      · cases hret
    · obtain ⟨hs, rfl, ⟨hret', -⟩ | ⟨-, hev⟩⟩ := opening_ok h1
      · exact absurd hret' hret
      · exact .openFails rfl hs o hev
  case esAddingIntoIt.eeClose => cases h; exact .closeAdding rfl
  case esAddingIntoIt.eeInternalErr => cases h; exact .errAdding rfl
  case esAddingIntoIt.eeAddedIntoIt =>
    obtain ⟨s1, h1, rfl, rfl⟩ | ⟨ret, hret, h1, rfl⟩ := postEvt_ok (t := .esOpened) rfl h
    all_goals
      by_cases hp : p = .eeNone
      · subst hp
        rcases sock with _ | ⟨n, _ | _⟩ <;> cases h1
        first | exact .added rfl rfl rfl rfl | exact absurd rfl hret
      · replace h1 : handlingAddingIntoItToOpened _ = _ := h1
        unfold handlingAddingIntoItToOpened at h1
        rw [if_pos hp] at h1
        rcases sock with _ | k <;> cases h1
        try exact .addedPending rfl hp rfl
  case esOpened.eeClose =>
    rcases sock with _ | ⟨n, _ | _⟩ <;> cases h
    exact Trans.tearsDown (k := ⟨n, true⟩) rfl (Or.inl rfl) rfl rfl
  case esOpened.eeInternalErr =>
    rcases sock with _ | ⟨n, _ | _⟩ <;> cases h
    exact Trans.tearsDown (k := ⟨n, true⟩) rfl (Or.inr rfl) rfl rfl
  case esDelingFromIt.eeDeledFromIt =>
    obtain ⟨s1, h1, rfl, rfl⟩ | ⟨ret, hret, h1, -⟩ := postEvt_ok (t := .esClosed) rfl h
    all_goals
      obtain ⟨evs1, rfl, h2⟩ := Eff.emit_inv h1
      obtain ⟨s2, hcb, h3⟩ := Eff.bind_pure_ok h2
      cases h3
    · exact .deled rfl hcb
    · exact absurd rfl hret

/-- **Every way `post_evt` can end the process.** -/
theorem post_fails (h : postEvt cb s e = ⟨evs, .error f⟩) : Fails cb s e evs f := by
  obtain ⟨st, el, hel, hfn⟩ := postEvt_fault h
  obtain ⟨cur, p, sock⟩ := s
  cases cur <;> cases e <;> cases hel
  all_goals try cases hfn
  case esClosed.eeOpen o =>
    unfold handlingClosedToAddingIntoIt at hfn
    obtain ⟨sp, n, opens, binds, listens⟩ := o
    rcases sock with _ | k
    · rcases opens with _ | _ <;> rcases binds with _ | _ <;>
        rcases listens with _ | _ <;> cases hfn
    · cases hfn
      exact .listenerNotNull rfl (by nofun)
  case esAddingIntoIt.eeAddedIntoIt =>
    rcases p with _ | _ | _ | _ <;> rcases sock with _ | ⟨n, _ | _⟩ <;> cases hfn
    all_goals first | exact .listenerNull (Or.inl rfl) rfl | exact .notOpened (Or.inl rfl) rfl rfl
  case esOpened.eeClose | esOpened.eeInternalErr =>
    rcases sock with _ | ⟨n, _ | _⟩ <;> cases hfn
    all_goals first | exact .listenerNull (Or.inr rfl) rfl | exact .notOpened (Or.inr rfl) rfl rfl
  case esDelingFromIt.eeDeledFromIt =>
    obtain ⟨evs1, rfl, h1⟩ := Eff.emit_inv hfn
    exact .deled rfl (Eff.bind_pure_error h1)

theorem openEp_ok (h : openEp o s = ⟨evs, .ok s'⟩) :
    ∃ r evs1, Trans pure s (.eeOpen o) evs1 r s' ∧ evs = evs1 ++ [.openRet r] := by
  obtain ⟨r, evs1, h1, h2⟩ := returning_ok h
  exact ⟨r, evs1, post_trans h1, h2⟩

theorem close_ok (h : close s = ⟨evs, .ok s'⟩) :
    ∃ r evs1, Trans pure s .eeClose evs1 r s' ∧ evs = evs1 ++ [.closeRet r] := by
  obtain ⟨r, evs1, h1, h2⟩ := returning_ok h
  exact ⟨r, evs1, post_trans h1, h2⟩

theorem postTaken_of {s1 : CRupAcceptor} (h : postEvt cb s e = ⟨evs, .ok (r, s1)⟩) :
    postTaken cb e s = if r = 0 then ⟨evs, .ok s1⟩ else ⟨evs, .error .refused⟩ := by
  unfold postTaken
  rw [h]
  show (⟨evs ++ (Eff.require (r = 0) Fault.refused >>= fun _ => pure s1).evs,
    (Eff.require (r = 0) Fault.refused >>= fun _ => pure s1).res⟩ : Eff Ev Fault CRupAcceptor) = _
  split_ifs with hr
  · rw [Eff.require_pos hr]; simp
  · rw [Eff.require_neg hr]; simp

theorem postTaken_ok (h : postTaken cb e s = ⟨evs, .ok s'⟩) :
    postEvt cb s e = ⟨evs, .ok (0, s')⟩ := by
  rcases hpe : postEvt cb s e with ⟨evs1, f | ⟨r, s1⟩⟩
  · unfold postTaken at h
    rw [hpe] at h
    cases h
  · rw [postTaken_of hpe] at h
    split_ifs at h with hr <;> cases h
    rw [hr]

theorem postTaken_error (h : postTaken cb e s = ⟨evs, .error f⟩) :
    postEvt cb s e = ⟨evs, .error f⟩ ∨ ∃ r s1, postEvt cb s e = ⟨evs, .ok (r, s1)⟩ ∧ r ≠ 0 := by
  rcases hpe : postEvt cb s e with ⟨evs1, f1 | ⟨r, s1⟩⟩
  · unfold postTaken at h
    rw [hpe] at h
    cases h; exact Or.inl rfl
  · rw [postTaken_of hpe] at h
    split_ifs at h with hr <;> cases h
    exact Or.inr ⟨r, s1, rfl, hr⟩

/-! ## User code -/

/-- What the calls of user code return in `on_closed`. -/
def UserCode.rets : UserCode → List Ev
  | .done => []
  | .callOpen _ next => .openRet (-1) :: next.rets
  | .callClose next => .closeRet (-1) :: next.rets

/-- **User code in `on_closed`**: the state machine is still in `ES_DELING_FROM_IT`, every call is
refused. -/
theorem UserCode.run_deling : ∀ (u : UserCode) {s : CRupAcceptor}, s.state = .esDelingFromIt →
    u.run s = ⟨u.rets, .ok s⟩
  | .done, _, _ => rfl
  | .callOpen o next, s, h => by
    have h1 : openEp o s = ⟨[.openRet (-1)], .ok s⟩ := by
      obtain ⟨st, p, sock⟩ := s
      cases h; rfl
    show openEp o s >>= next.run = _
    rw [h1, Eff.bind_of_ok rfl, next.run_deling h]; rfl
  | .callClose next, s, h => by
    have h1 : close s = ⟨[.closeRet (-1)], .ok s⟩ := by
      obtain ⟨st, p, sock⟩ := s
      cases h; rfl
    show close s >>= next.run = _
    rw [h1, Eff.bind_of_ok rfl, next.run_deling h]; rfl

end SmartNet.Endpoint.RupAcceptor
