import SmartNet.Endpoint.AcceptorEvents
import SmartNet.Endpoint.ConnectorRegistrations
import SmartNet.Endpoint.RmpRegistrations
import SmartNet.Endpoint.RupRegistrations
import SmartNet.Framework.Interest

/-! # The pointers that `epoll` hands back

The four classes of io objects, each with its notifiers on the interest lists of the system.

* A `CRupEndpoint` lets go of its socket at the end of a teardown, when it has closed it.
* A `CRmpEndpoint` also lets go of open sockets, but their destructor closes them.
* A `CRupConnector` hands an open socket to an endpoint, whose registration under the pointer of the
  connector has been deleted by then.
* A `CRupAcceptor` keeps its listening socket.

`pointers_backed`: so none of them leaves its pointer on a list. -/

namespace SmartNet.Endpoint.EpollPointers

open SmartNet.Lib SmartNet.Framework.Notifier SmartNet.Framework.Interest
open SmartNet.Utils.StateMachine SmartNet.Endpoint.Types

/-! ### `CRupEndpoint` -/

namespace Rup

open SmartNet.Endpoint.RupEndpoint SmartNet.Endpoint.RupRegistrations

def closes : Ev → Option ℕ
  | .sockClose n => some n
  | _ => none

def sockets : Sockets IoType CRupEndpoint Ev where
  polls _ := true
  sock s := s.pSock
  closes := closes

/-- A teardown has closed the socket. -/
def Torn (closed : List ℕ) (s : CRupEndpoint) : Prop :=
  s.state = .esDelingFromIt ∨ s.state = .esDelingFromOt → ∀ n, s.pSock = some n → n ∈ closed

variable {u : UserCode} {s s' : CRupEndpoint} {e : Evt} {evs : List Ev} {r : ℤ} {closed : List ℕ}

theorem trans_keeps (hK : Torn closed s) (ht : Trans u.run s e evs r s') :
    Keeps sockets Torn closed s evs s' := by
  have hlive : ∀ {t : CRupEndpoint}, t.state ≠ .esDelingFromIt → t.state ≠ .esDelingFromOt →
      ∀ l, Torn l t := fun h1 h2 l h => absurd h (by simp [h1, h2])
  cases ht with
  | ignored =>
    refine ⟨fun h n hn => List.mem_append_left _ (hK h n hn), fun h _ _ => h⟩
  | opens h => exact ⟨hlive (by simp) (by simp) _, fun h _ _ => h⟩
  | closeWaiting h hs hcb =>
    refine ⟨fun _ n hn => (by cases hn), fun {n} h _ _ => ?_⟩
    rw [show sockets.sock s = s.pSock from rfl, hs] at h
    cases h
  | connected h hs n =>
    refine ⟨hlive (by simp) (by simp) _, fun {m} h _ _ => ?_⟩
    rw [show sockets.sock s = s.pSock from rfl, hs] at h
    cases h
  | closeAddingOt h => exact ⟨hlive (by simp [h]) (by simp [h]) _, fun h _ _ => h⟩
  | errAddingOt h => exact ⟨hlive (by simp) (by simp) _, fun h _ _ => h⟩
  | addedOtClose h hp hs =>
    refine ⟨fun _ n hn => ?_, fun h _ _ => h⟩
    obtain rfl := Option.some.inj (hs.symm.trans hn)
    simp [shuts, sockets, closes]
  | addedOt h hp => exact ⟨hlive (by simp) (by simp) _, fun h _ _ => h⟩
  | errAddingIt h => exact ⟨hlive (by simp [h]) (by simp [h]) _, fun h _ _ => h⟩
  | closeAddingIt h => exact ⟨hlive (by simp [h]) (by simp [h]) _, fun h _ _ => h⟩
  | addedItPending h hp hs =>
    refine ⟨fun _ n hn => ?_, fun h _ _ => h⟩
    obtain rfl := Option.some.inj (hs.symm.trans hn)
    simp [shuts, sockets, closes]
  | addedIt h hp hcb =>
    rw [u.run_adding h] at hcb
    cases hcb
    exact ⟨hlive (by simp) (by simp) _, fun h _ _ => h⟩
  | tearsDown h he hs =>
    refine ⟨fun _ n hn => ?_, fun h _ _ => h⟩
    obtain rfl := Option.some.inj (hs.symm.trans hn)
    simp [shuts, sockets, closes]
  | deledIt h =>
    exact ⟨fun _ n hn => List.mem_append_left _ (hK (Or.inl h) n hn), fun h _ _ => h⟩
  | deledOt h hcb =>
    exact ⟨fun _ n hn => (by cases hn), fun hs hcl _ => absurd (hK (Or.inr h) _ hs) hcl⟩

theorem Keeps.ret {ev : Ev} (h : Keeps sockets Torn closed s evs s') (hev : closes ev = none) :
    Keeps sockets Torn closed s (evs ++ [ev]) s' := by
  have heq : shuts sockets s (evs ++ [ev]) s' = shuts sockets s evs s' := by
    simp [shuts, sockets, hev]
  refine ⟨?_, fun hs hcl hns => ?_⟩
  · rw [heq]
    exact h.keeps
  · rw [heq] at hns
    exact h.socket hs hcl hns

theorem disciplined : Disciplined rupEndpoint sockets fun closed w => Torn closed w.obj := by
  refine disciplined_of_calls (fun k _ => by cases k <;> simp [rupEndpoint]) (fun s => rfl) ?_ ?_
  · intro closed s c evs s' hK h
    cases c with
    | openEp =>
      obtain ⟨r, evs1, ht, rfl⟩ := openEp_ok h
      exact Keeps.ret (trans_keeps (u := .done) hK ht) rfl
    | close onClosed =>
      obtain ⟨r, evs1, ht, rfl⟩ := close_ok h
      exact Keeps.ret (trans_keeps hK ht) rfl
    | handleConnected n =>
      obtain ⟨r, h1⟩ := posting_ok h
      exact trans_keeps (u := .done) hK (post_trans h1)
  · intro closed s t u evs s' hK h
    obtain ⟨r, h1⟩ := posting_ok h
    exact trans_keeps hK (post_trans h1)

end Rup

/-! ### `CRmpEndpoint` -/

namespace Rmp

open SmartNet.Endpoint.RmpEndpoint SmartNet.Endpoint.RmpRegistrations

def closes : Ev → Option ℕ
  | .sockClose n => some n
  | _ => none

/-- `~CRmpSock` closes the socket. One that is made and dropped in the same call is on no list. -/
def sockets : Sockets IoType CRmpEndpoint Ev where
  polls _ := true
  sock s := s.pSock
  closes := closes
  drops s s' := if s'.pSock = s.pSock then [] else s.pSock.toList

theorem keeps (closed : List ℕ) (s : CRmpEndpoint) (evs : List Ev) (s' : CRmpEndpoint) :
    Keeps sockets (fun _ _ => True) closed s evs s' := by
  refine ⟨trivial, fun {n} hs _ hns => ?_⟩
  have hsock : s.pSock = some n := hs
  by_contra hne
  have hdrop : sockets.drops s s' = [n] := by
    have hch : ¬ s'.pSock = s.pSock := fun he => hne (he.trans hsock)
    show (if s'.pSock = s.pSock then [] else s.pSock.toList) = [n]
    rw [if_neg hch, hsock]
    rfl
  refine hns (List.mem_append_right _ ?_)
  rw [hdrop]
  exact List.mem_singleton_self n

theorem disciplined : Disciplined rmpEndpoint sockets fun _ _ => True :=
  disciplined_of_calls (K := fun _ _ => True) (fun k _ => by cases k <;> simp [rmpEndpoint])
    (fun s => if_pos rfl) (fun _ _ => keeps _ _ _ _) fun _ _ => keeps _ _ _ _

end Rmp

/-- The socket behind `get_ioobj_handle`, unless the handle has been given up. -/
def openSock (k : Option CRupSock) : Option ℕ := (k.filter (·.isOpened)).map (·.hSock)

theorem openSock_iff {k : Option CRupSock} {n : ℕ} : openSock k = some n ↔ k = some ⟨n, true⟩ := by
  rcases k with - | ⟨m, b⟩
  · simp [openSock]
  · cases b <;> simp [openSock]

/-! ### `CRupConnector` -/

namespace Connector

open SmartNet.Endpoint.RupConnector SmartNet.Endpoint.ConnectorRegistrations

def closes : Ev → Option ℕ
  | .sockClose n => some n
  | _ => none

/-- The timer task knows no sockets. -/
def sockets : Sockets Task CRupConnector Ev where
  polls k := k = .ot
  sock s := openSock s.pTcpSock
  closes := closes

/-- The answer to a del finds the connector out of the set of the output task. -/
def Answered (w : Conn) : Prop :=
  ∀ k, .deledFromOt ∈ (w.ntf k).todo → k = .ot ∧ (w.ntf k).inSet = false

variable {u : UserCode} {s s' : CRupConnector} {e : Evt} {evs : List Ev} {r : ℤ} {n : ℕ}

theorem closing_open {k : CRupSock} (h : openSock (some k) = some n) (l : List Ev) :
    n ∈ (closing k ++ l).filterMap closes := by
  obtain rfl := Option.some.inj (openSock_iff.mp h)
  simp [closing, closes]

theorem trans_socket (ht : Trans u.run s e evs r s') (he : ∀ eps, e ≠ .eeDeledFromOt eps)
    (hs : openSock s.pTcpSock = some n) (hns : n ∉ evs.filterMap closes) :
    openSock s'.pTcpSock = some n := by
  cases ht with
  | ignored => exact hs
  | opens => exact hs
  | closeAddingTt => exact hs
  | addedTtClose => exact hs
  | addedTt h _ hcb =>
    rw [u.run_adding h] at hcb
    cases hcb
    exact hs
  | closeChecking => exact hs
  | connect _ hnone =>
    rw [hnone] at hs
    cases hs
  | closeAddingOt => exact hs
  | errAddingOt => exact hs
  | addedOtPending _ _ hk =>
    rw [hk] at hs
    exact absurd (closing_open hs _) hns
  | addedOt => exact hs
  | closeConnecting _ hk =>
    rw [hk] at hs
    exact absurd (closing_open hs _) hns
  | errConnecting _ hk =>
    rw [hk] at hs
    exact absurd (closing_open hs _) hns
  | connected => exact hs
  | deledOtClose _ _ _ eps => exact absurd rfl (he eps)
  | closeDeling => exact hs
  | errDeling _ hk =>
    rw [hk] at hs
    exact absurd (by simpa using closing_open hs []) hns
  | deledOtPending _ _ _ eps => exact absurd rfl (he eps)
  | deledOt _ _ _ eps => exact absurd rfl (he eps)
  | deledTt h hcb =>
    rw [u.run_deling h] at hcb
    cases hcb
    exact hs

theorem callback_socket {p : Post} {i : Input} (hp : p ≠ .deledFromOt)
    (h : callback p i s = ⟨evs, .ok s'⟩) (hs : openSock s.pTcpSock = some n)
    (hns : n ∉ evs.filterMap closes) : openSock s'.pTcpSock = some n := by
  cases p with
  | addedIntoOt =>
    obtain ⟨r, h1⟩ := posting_ok h
    exact trans_socket (post_trans h1) (by simp) hs hns
  | addFailed =>
    obtain ⟨evs1, ⟨r, s1⟩, evs2, h1, h2, rfl⟩ := Eff.bind_ok h
    have hs1 : openSock s1.pTcpSock = some n :=
      trans_socket (post_trans h1) (by simp) hs fun hn => hns (by simp [hn])
    by_cases hr : r = 0
    · simp only [Eff.require_pos hr] at h2
      cases h2
      exact hs1
    · simp only [Eff.require_neg hr] at h2
      cases h2
  | deledFromOt => exact absurd rfl hp
  | outputEvt =>
    obtain ⟨r, h1⟩ := posting_ok h
    exact trans_socket (post_trans h1) (by simp) hs hns
  | ioError =>
    obtain ⟨r, h1⟩ := posting_ok h
    exact trans_socket (post_trans h1) (by simp) hs hns
  | addedIntoTt =>
    obtain ⟨r, h1⟩ := posting_ok h
    exact trans_socket (post_trans h1) (by simp) hs hns
  | deledFromTt =>
    obtain ⟨r, h1⟩ := posting_ok h
    exact trans_socket (post_trans h1) (by simp) hs hns
  | onTimer =>
    rcases hc : i.connect with - | k
    · simp only [callback, hc] at h
      cases h
      exact hs
    · simp only [callback, hc] at h
      obtain ⟨r, h1⟩ := posting_ok h
      exact trans_socket (post_trans h1) (by simp) hs hns

theorem user_socket {c : Call} (h : rupConnector.user c s = ⟨evs, .ok s'⟩)
    (hs : openSock s.pTcpSock = some n) (hns : n ∉ evs.filterMap closes) :
    openSock s'.pTcpSock = some n := by
  cases c with
  | openEp sp =>
    obtain ⟨r, evs1, ht, rfl⟩ := openEp_ok h
    exact trans_socket (u := .done) ht (by simp) hs fun hn => hns (by simp [hn])
  | close =>
    obtain ⟨r, evs1, ht, rfl⟩ := close_ok h
    exact trans_socket (u := .done) ht (by simp) hs fun hn => hns (by simp [hn])

theorem answered_update {w : Conn} {k : Task} {m : Ntf Post} (h : Answered w)
    (hm : .deledFromOt ∈ m.todo → k = .ot ∧ m.inSet = false) :
    Answered ⟨w.obj, Function.update w.ntf k m⟩ := by
  intro j hj
  rcases eq_or_ne j k with rfl | hne
  · simp only [Function.update_self] at hj ⊢
    exact hm hj
  · simp only [Function.update_of_ne hne] at hj ⊢
    exact h j hj

theorem answered_submit {w : Conn} (h : Answered w) (s : CRupConnector) (evs : List Ev) :
    Answered ⟨s, rupConnector.submit w.ntf evs⟩ := by
  intro k hk
  obtain ⟨hin, htodo⟩ := submit_same (c := rupConnector) w.ntf evs k
  have hmem : .deledFromOt ∈ (w.ntf k).todo := by
    rw [← htodo]
    exact hk
  refine ⟨(h k hmem).1, ?_⟩
  show (rupConnector.submit w.ntf evs k).inSet = false
  rw [hin]
  exact (h k hmem).2

/-- **The callbacks that are left to make.** -/
theorem answered_moves {w w' : Conn} {a : Step} (hA : Answered w)
    (hm : rupConnector.Moves w a evs w') : Answered w' := by
  cases hm with
  | idle => exact hA
  | user u h => exact answered_submit hA _ _
  | takeDel k _ _ _ =>
    refine answered_update hA fun hmem => ⟨?_, rfl⟩
    cases k with
    | ot => rfl
    | tt => simp [rupConnector] at hmem
  | @takeAdd k ok ts _ _ hts =>
    refine answered_update hA fun hmem => ?_
    cases k <;> cases ok <;> simp [rupConnector] at hts <;> subst hts <;> simp at hmem
  | collect k _ _ he =>
    refine answered_update hA fun hmem => ?_
    obtain rfl := List.mem_singleton.mp hmem
    cases k <;> simp [rupConnector] at he
  | callback k ht h =>
    refine answered_submit (w := ⟨w.obj, _⟩) (answered_update hA fun hmem => ?_) _ _
    exact hA k (by rw [ht]; exact List.mem_cons_of_mem _ hmem)

theorem disciplined : Disciplined rupConnector sockets fun _ w => Answered w := by
  refine ⟨fun k hk => ?_, fun _ => rfl, fun hA hm => answered_moves hA hm, ?_⟩
  · cases k with
    | ot => simp [rupConnector]
    | tt => cases hk
  · intro closed w w' a evs hA hm k n hk hin hs hcl hns
    replace hns : n ∉ evs.filterMap closes := by simpa [shuts, sockets] using hns
    rcases moves_obj hm with ⟨rfl, hobj⟩ | ⟨u, hu⟩ | ⟨j, p, ps, i, htodo, hp⟩
    · show openSock w'.obj.pTcpSock = some n
      rw [hobj]
      exact hs
    · exact user_socket hu hs hns
    · by_cases hdel : p = .deledFromOt
      · obtain ⟨rfl, hout⟩ := hA j (by rw [htodo, hdel]; exact List.mem_cons_self)
        have hkj : k = .ot := by simpa [sockets] using hk
        rw [hkj, hout] at hin
        cases hin
      · exact callback_socket hdel hp hs hns

end Connector

/-! ### `CRupAcceptor` -/

namespace Acceptor

open SmartNet.Endpoint.RupAcceptor SmartNet.Endpoint.AcceptorEvents

def closes : Ev → Option ℕ
  | .sockClose n => some n
  | _ => none

def sockets : Sockets Unit CRupAcceptor Ev where
  polls _ := true
  sock s := openSock s.pTcpSockListener
  closes := closes

variable {u : UserCode} {s s' : CRupAcceptor} {e : Evt} {evs : List Ev} {r : ℤ} {n : ℕ}

theorem trans_socket (ht : Trans u.run s e evs r s') (hs : openSock s.pTcpSockListener = some n)
    (hns : n ∉ evs.filterMap closes) : openSock s'.pTcpSockListener = some n := by
  have hk := openSock_iff.mp hs
  cases ht with
  | ignored => exact hs
  | opens _ hnone =>
    rw [hnone] at hk
    cases hk
  | openFails _ hnone =>
    rw [hnone] at hk
    cases hk
  | closeAdding => exact hs
  | errAdding => exact hs
  | addedPending _ _ hl =>
    obtain rfl := Option.some.inj (hl.symm.trans hk)
    exact absurd (by simp [closes]) hns
  | added => exact hs
  | tearsDown _ _ hl _ =>
    obtain rfl := Option.some.inj (hl.symm.trans hk)
    exact absurd (by simp [closes]) hns
  | deled h hcb =>
    rw [u.run_deling h] at hcb
    cases hcb
    exact hs

theorem disciplined : Disciplined rupAcceptor sockets fun _ _ => True := by
  refine disciplined_of_calls (K := fun _ _ => True) (fun k _ => by simp [rupAcceptor])
    (fun _ => rfl) ?_ ?_
  · intro closed s c evs s' _ h
    refine ⟨trivial, fun {n} hs _ hns => ?_⟩
    replace hns : n ∉ evs.filterMap closes := by simpa [shuts, sockets] using hns
    cases c with
    | openEp o =>
      obtain ⟨r, evs1, ht, rfl⟩ := openEp_ok h
      exact trans_socket (u := .done) ht hs fun hn => hns (by simp [hn])
    | close =>
      obtain ⟨r, evs1, ht, rfl⟩ := close_ok h
      exact trans_socket (u := .done) ht hs fun hn => hns (by simp [hn])
  · intro closed s p i evs s' _ h
    refine ⟨trivial, fun {n} hs _ hns => ?_⟩
    replace hns : n ∉ evs.filterMap closes := by simpa [shuts, sockets] using hns
    cases p with
    | addFailed =>
      obtain ⟨r, h1⟩ := posting_ok h
      exact trans_socket (u := .done) (post_trans h1) hs hns
    | added =>
      obtain ⟨r, h1⟩ := posting_ok h
      exact trans_socket (u := .done) (post_trans h1) hs hns
    | deled => exact trans_socket (post_trans (postTaken_ok h)) hs hns
    | inputEvt =>
      obtain ⟨rfl, -⟩ := handleInputEvt_ok h
      exact hs
    | ioError => exact trans_socket (u := .done) (post_trans (postTaken_ok h)) hs hns

end Acceptor

/-- **No pointer is left behind.** For every class of io objects, every run of an object with its
notifiers on the interest lists of the system: `epoll_wait` reports an event only under the pointer
of an object that the notifier's set holds, for the open socket of the object; and such a run is one
of the notifiers that look into their sets. -/
theorem pointers_backed :
    (∀ p k, Backed RupRegistrations.rupEndpoint Rup.sockets (RupRegistrations.start p k)) ∧
      (∀ t p, Backed RmpRegistrations.rmpEndpoint Rmp.sockets (RmpRegistrations.start t p)) ∧
      Backed ConnectorRegistrations.rupConnector Connector.sockets ConnectorRegistrations.start ∧
      ∀ p, Backed AcceptorEvents.rupAcceptor Acceptor.sockets (AcceptorEvents.start p) := by
  refine ⟨fun p k => Rup.disciplined.backed ?_, fun t p => Rmp.disciplined.backed trivial,
    Connector.disciplined.backed ?_, fun p => Acceptor.disciplined.backed trivial⟩
  · intro h n hn
    cases hn
  · intro k hk
    cases hk

end SmartNet.Endpoint.EpollPointers
