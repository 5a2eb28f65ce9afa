import SmartNet.Endpoint.RupEndpoint
import SmartNet.Lib.Process

/-! # The keepalive of a `CRupEndpoint`

`handle_output_evt` counts the output events of an open endpoint. After `__MAX_CYCLE_CNT__` + 1 of
them it sends a heartbeat if `send_data` was not called since the last time, and posts
`EE_INTERNAL_ERR` if no input event came in this cycle and the one before.

* `hist`: what happened in the cycle, from the events of all calls;
* `Counted`: what the counters say of it;
* `right_iff`: in every run, heartbeats and cuts are right exactly in the cycles in which the
  counters can tell. -/

namespace SmartNet.Endpoint.KeepAliveCycles

open SmartNet.Common SmartNet.Lib SmartNet.Endpoint.Types SmartNet.Endpoint.RupEndpoint

/-- `__MAX_CYCLE_CNT__`. -/
def maxCycleCnt : ℕ := 10000000

/-- `input`, `output`: an event that is handled in `ES_OPENED`; `handed`, `refused`: a call of
`send_data` that reaches the socket, or does not; `hb`: a heartbeat package is given to the socket;
`cut`: the keepalive posts `EE_INTERNAL_ERR`. -/
inductive Ev
  | input
  | output
  | handed
  | refused
  | hb
  | cut
  | sm (e : RupEndpoint.Ev)
  deriving DecidableEq, Repr

/-- `CMN_ASSERT(false)` in `handle_input_evt`, a call through a NULL `m_pSock`, and the asserts of
the state machine. -/
inductive Fault
  | recvPending
  | sockNull
  | sm (f : RupEndpoint.Fault)
  deriving DecidableEq, Repr

/-! ## The handlers -/

/-- `m_sm.post_evt`. Calls that user code makes in `on_opened` count as made before it, calls in
`on_closed` as made after it. -/
def post (e : Evt) (s : CRupEndpoint) : Eff Ev Fault CRupEndpoint := do
  let (_, s) ← (postEvt pure s e).lift .sm .sm
  pure s

/-- `handle_input_evt`; `ret` is what `m_pSock->handle_can_recv` returns. Calls that user code makes
in `on_recved_data` count as made after it. -/
def handleInputEvt (ret : Cmnerr) (s : CRupEndpoint) : Eff Ev Fault CRupEndpoint :=
  if s.state ≠ .esOpened then pure s
  else do
    .emit .input
    let s := { s with keepAlive.ui64RecvCnt := u64 (s.keepAlive.ui64RecvCnt + 1) }
    .require (s.pSock ≠ none) .sockNull
    if ret = .suc then pure s
    else if ret = .recvPending then .abort .recvPending
    else post .eeInternalErr s

/-- "need send hb?" -/
def needSendHb (s : CRupEndpoint) : Eff Ev Fault CRupEndpoint :=
  if s.keepAlive.ui64SendCnt = s.keepAlive.ui64SendStore then do
    .emit .hb
    pure s
  else pure { s with keepAlive.ui64SendStore := s.keepAlive.ui64SendCnt }

/-- "peer is alive?" -/
def peerIsAlive (s : CRupEndpoint) : Eff Ev Fault CRupEndpoint :=
  if s.keepAlive.ui64RecvCnt = s.keepAlive.ui64RecvStore then
    if s.keepAlive.bWillClose = false then pure { s with keepAlive.bWillClose := true }
    else do
      .emit .cut
      post .eeInternalErr s
  else
    pure { s with
      keepAlive.bWillClose := false
      keepAlive.ui64RecvStore := s.keepAlive.ui64RecvCnt }

/-- `handle_output_evt`; `ret` is what `m_pSock->handle_can_send` returns. -/
def handleOutputEvt (ret : Cmnerr) (s : CRupEndpoint) : Eff Ev Fault CRupEndpoint :=
  if s.state = .esOpened then do
    .require (s.pSock ≠ none) .sockNull
    if ret = .ioErr then post .eeInternalErr s
    else do
      .emit .output
      let cnt := u32 (s.keepAlive.ui32CycleCnt + 1)
      if maxCycleCnt < cnt then do
        let s ← needSendHb { s with keepAlive.ui32CycleCnt := 0 }
        peerIsAlive s
      else pure { s with keepAlive.ui32CycleCnt := cnt }
  else pure s

/-- `send_data`; `ret` is what `m_pSock->send` returns. -/
def sendData (ret : Cmnerr) (s : CRupEndpoint) : Eff Ev Fault (Cmnerr × CRupEndpoint) := do
  let s := { s with keepAlive.ui64SendCnt := u64 (s.keepAlive.ui64SendCnt + 1) }
  if s.state = .esOpened then do
    .require (s.pSock ≠ none) .sockNull
    .emit .handed
    pure (ret, s)
  else do
    .emit .refused
    pure (.commonErr, s)

/-- The calls into an endpoint. -/
inductive Call
  | input (ret : Cmnerr)
  | output (ret : Cmnerr)
  | sendData (ret : Cmnerr)
  | post (e : Evt)

def exec : Call → CRupEndpoint → Eff Ev Fault CRupEndpoint
  | .input ret, s => handleInputEvt ret s
  | .output ret, s => handleOutputEvt ret s
  | .sendData ret, s => do
    let (_, s) ← sendData ret s
    pure s
  | .post e, s => post e s

abbrev step (p : Proc CRupEndpoint Ev Fault) (a : Call) : Proc CRupEndpoint Ev Fault :=
  p.call (exec a)

/-! ## The history -/

/-- The cycle so far: the output events, the input events, those of the cycle before if there was
one, and the calls of `send_data` that reached the socket or did not. -/
structure Hist where
  outputs : ℕ := 0
  inputs : ℕ := 0
  before : Option ℕ := none
  handed : ℕ := 0
  refused : ℕ := 0
  deriving DecidableEq, Repr

/-- A cycle has `__MAX_CYCLE_CNT__` + 1 output events; `open` starts a session. -/
def Hist.add (h : Hist) : Ev → Hist
  | .input => { h with inputs := h.inputs + 1 }
  | .output =>
    if h.outputs < maxCycleCnt then { h with outputs := h.outputs + 1 }
    else { before := some h.inputs }
  | .handed => { h with handed := h.handed + 1 }
  | .refused => { h with refused := h.refused + 1 }
  | .sm .addToHelper => {}
  | _ => h

def hist (log : List Ev) : Hist := log.foldl Hist.add {}

/-- The call is the last output event of a cycle. -/
def Ends (p : Proc CRupEndpoint Ev Fault) (a : Call) : Prop :=
  .output ∈ (exec a p.obj).evs ∧ (hist p.log).outputs = maxCycleCnt

/-- **What the keepalive is for.** A heartbeat is sent at the end of a cycle in which no data was
handed to the socket; a peer is cut at the end of a cycle without input after one without input. -/
def Right (p : Proc CRupEndpoint Ev Fault) (a : Call) : Prop :=
  p.fault = none →
    (.hb ∈ (exec a p.obj).evs ↔ Ends p a ∧ (hist p.log).handed = 0) ∧
    (.cut ∈ (exec a p.obj).evs ↔ Ends p a ∧ (hist p.log).inputs = 0 ∧
      (hist p.log).before = some 0)

/-- The calls of `send_data` were a multiple of 2^64 exactly if no data was handed to the socket. -/
def Told (h : Hist) : Prop :=
  if h.handed = 0 then 2 ^ 64 ∣ h.refused else ¬ 2 ^ 64 ∣ h.handed + h.refused

/-- The input events of two cycles were not multiples of 2^64, or none. -/
def Heard (h : Hist) : Prop :=
  2 ^ 64 ∣ h.inputs → (∃ n, h.before = some n ∧ 2 ^ 64 ∣ n) → h.inputs = 0 ∧ h.before = some 0

/-- At the end of a cycle the counters can tell what happened. -/
def Tells (p : Proc CRupEndpoint Ev Fault) (a : Call) : Prop :=
  p.fault = none → Ends p a → Told (hist p.log) ∧ Heard (hist p.log)

/-- What the counters say of the history. -/
structure Counted (h : Hist) (k : KeepAlive) : Prop where
  outputs : k.ui32CycleCnt = h.outputs
  le : h.outputs ≤ maxCycleCnt
  sent : k.ui64SendCnt = u64 (k.ui64SendStore + (h.handed + h.refused))
  sendStore : k.ui64SendStore < 2 ^ 64
  recved : k.ui64RecvCnt = u64 (k.ui64RecvStore + h.inputs)
  recvStore : k.ui64RecvStore < 2 ^ 64
  willClose : k.bWillClose = true ↔ ∃ n, h.before = some n ∧ 2 ^ 64 ∣ n

/-- **The invariant**, from `open` on. -/
def Inv (log : List Ev) (s : CRupEndpoint) : Prop :=
  s.state ≠ .esClosed → Counted (hist log) s.keepAlive

variable {p : Proc CRupEndpoint Ev Fault} {s t : CRupEndpoint} {h : Hist} {k : KeepAlive}
variable {log evs : List Ev} {a : Call} {ret : Cmnerr} {n : ℕ}

/-! ## Events -/

/-- Events that the history does not count. -/
def Neutral (evs : List Ev) : Prop := ∀ e ∈ evs, ∀ h : Hist, h.add e = h

theorem hist_append (log evs : List Ev) : hist (log ++ evs) = evs.foldl Hist.add (hist log) :=
  List.foldl_append

theorem foldl_neutral (hn : Neutral evs) (h : Hist) : evs.foldl Hist.add h = h := by
  induction evs with
  | nil => rfl
  | cons e evs ih =>
    rw [List.foldl_cons, hn e List.mem_cons_self]
    exact ih fun e' he' => hn e' (List.mem_cons_of_mem e he')

theorem hist_neutral (hn : Neutral evs) : hist (log ++ evs) = hist log := by
  rw [hist_append, foldl_neutral hn]

theorem hist_snoc (log : List Ev) (e : Ev) : hist (log ++ [e]) = (hist log).add e :=
  hist_append log [e]

theorem neutral_sm {es : List RupEndpoint.Ev} (hes : .addToHelper ∉ es) :
    Neutral (es.map Ev.sm) := by
  intro e he h
  obtain ⟨e', he', rfl⟩ := List.mem_map.mp he
  rcases e' with _ | _ | _ | _ | _ | _ | _ | _ | _
  · exact absurd he' hes
  all_goals rfl

/-- **`post_evt`** starts a session, with new counters, or leaves the counters. -/
theorem trans_keeps {e : Evt} {es : List RupEndpoint.Ev} {r : ℤ} (h : Trans pure s e es r t) :
    es = [.addToHelper] ∧ t.keepAlive = {} ∨
      .addToHelper ∉ es ∧ t.keepAlive = s.keepAlive ∧
        (t.state ≠ .esClosed → s.state ≠ .esClosed) := by
  cases h with
  | ignored => exact Or.inr ⟨List.not_mem_nil, rfl, id⟩
  | opens => exact Or.inl ⟨rfl, rfl⟩
  | closeWaiting hst hs hcb =>
    cases hcb
    exact Or.inr ⟨by simp, rfl, fun hne => absurd rfl hne⟩
  | connected hst => exact Or.inr ⟨by simp, rfl, fun _ => by simp [hst]⟩
  | closeAddingOt => exact Or.inr ⟨List.not_mem_nil, rfl, id⟩
  | errAddingOt hst => exact Or.inr ⟨List.not_mem_nil, rfl, fun _ => by simp [hst]⟩
  | addedOtClose hst => exact Or.inr ⟨by simp, rfl, fun _ => by simp [hst]⟩
  | addedOt hst => exact Or.inr ⟨by simp, rfl, fun _ => by simp [hst]⟩
  | errAddingIt => exact Or.inr ⟨List.not_mem_nil, rfl, id⟩
  | closeAddingIt => exact Or.inr ⟨List.not_mem_nil, rfl, id⟩
  | addedItPending hst => exact Or.inr ⟨by simp, rfl, fun _ => by simp [hst]⟩
  | addedIt hst hp hcb =>
    cases hcb
    exact Or.inr ⟨by simp, rfl, fun _ => by simp [hst]⟩
  | tearsDown hst => exact Or.inr ⟨by simp, rfl, fun _ => by simp [hst]⟩
  | deledIt hst => exact Or.inr ⟨by simp, rfl, fun _ => by simp [hst]⟩
  | deledOt hst hcb =>
    cases hcb
    exact Or.inr ⟨by simp, rfl, fun hne => absurd rfl hne⟩

theorem post_opened (hst : s.state = .esOpened) (hs : s.pSock = some n) :
    post .eeInternalErr s = ⟨[.sm (.sockClose n), .sm (.delEndpoint .input)],
      .ok { s with state := .esDelingFromIt }⟩ := by
  obtain ⟨st, q, sock, k⟩ := s
  cases hst
  cases hs
  rfl

/-! ## The counters -/

theorem Counted.send (h : Counted (hist log) k) (b : Bool) :
    Counted (hist (log ++ [if b then .handed else .refused]))
      { k with ui64SendCnt := u64 (k.ui64SendCnt + 1) } := by
  have hsent := h.sent
  have hcount : u64 (k.ui64SendCnt + 1) =
      u64 (k.ui64SendStore + ((hist log).handed + (hist log).refused + 1)) := by
    rw [hsent]
    unfold u64
    omega
  rw [hist_snoc]
  cases b
  · exact ⟨h.outputs, h.le, hcount, h.sendStore, h.recved, h.recvStore, h.willClose⟩
  · refine ⟨h.outputs, h.le, ?_, h.sendStore, h.recved, h.recvStore, h.willClose⟩
    refine hcount.trans (congrArg _ ?_)
    show _ = k.ui64SendStore + ((hist log).handed + 1 + (hist log).refused)
    omega

theorem Counted.recv (h : Counted (hist log) k) :
    Counted (hist (log ++ [.input])) { k with ui64RecvCnt := u64 (k.ui64RecvCnt + 1) } := by
  have hrecved := h.recved
  have hcount : u64 (k.ui64RecvCnt + 1) = u64 (k.ui64RecvStore + ((hist log).inputs + 1)) := by
    rw [hrecved]
    unfold u64
    omega
  rw [hist_snoc]
  exact ⟨h.outputs, h.le, h.sent, h.sendStore, hcount, h.recvStore, h.willClose⟩

theorem Counted.output (h : Counted (hist log) k)
    (hlow : ¬ maxCycleCnt < u32 (k.ui32CycleCnt + 1)) :
    (hist log).outputs < maxCycleCnt ∧
      Counted (hist (log ++ [.output])) { k with ui32CycleCnt := u32 (k.ui32CycleCnt + 1) } := by
  have houtputs := h.outputs
  have hle := h.le
  have hmax : maxCycleCnt = 10000000 := rfl
  have hu : u32 (k.ui32CycleCnt + 1) = (hist log).outputs + 1 := by
    rw [houtputs]
    exact u32_of_lt (by omega)
  have hlt : (hist log).outputs < maxCycleCnt := by omega
  rw [hist_snoc, hu]
  have hadd : (hist log).add .output = { hist log with outputs := (hist log).outputs + 1 } :=
    if_pos hlt
  rw [hadd]
  exact ⟨hlt, rfl, hlt, h.sent, h.sendStore, h.recved, h.recvStore, h.willClose⟩

/-- The counters after the last output event of a cycle. -/
def closeCycle (k : KeepAlive) : KeepAlive :=
  { k with
    ui32CycleCnt := 0
    ui64SendStore := k.ui64SendCnt
    ui64RecvStore := k.ui64RecvCnt
    bWillClose := decide (k.ui64RecvCnt = k.ui64RecvStore) }

theorem Counted.sends_iff (h : Counted (hist log) k) :
    k.ui64SendCnt = k.ui64SendStore ↔ 2 ^ 64 ∣ (hist log).handed + (hist log).refused := by
  have hsent := h.sent
  have hstore := h.sendStore
  rw [hsent]
  unfold u64
  omega

theorem Counted.recvs_iff (h : Counted (hist log) k) :
    k.ui64RecvCnt = k.ui64RecvStore ↔ 2 ^ 64 ∣ (hist log).inputs := by
  have hrecved := h.recved
  have hstore := h.recvStore
  rw [hrecved]
  unfold u64
  omega

theorem Counted.close (h : Counted (hist log) k)
    (hhigh : maxCycleCnt < u32 (k.ui32CycleCnt + 1)) :
    (hist log).outputs = maxCycleCnt ∧ Counted (hist (log ++ [.output])) (closeCycle k) := by
  have houtputs := h.outputs
  have hle := h.le
  have hmax : maxCycleCnt = 10000000 := rfl
  have hu : u32 (k.ui32CycleCnt + 1) = (hist log).outputs + 1 := by
    rw [houtputs]
    exact u32_of_lt (by omega)
  have hsent := h.sent
  have hrecved := h.recved
  have hadd : (hist log).add .output = { before := some (hist log).inputs } := if_neg (by omega)
  rw [hist_snoc, hadd]
  refine ⟨by omega, rfl, Nat.zero_le _, ?_, ?_, ?_, ?_, ?_⟩
  · show k.ui64SendCnt = u64 (k.ui64SendCnt + (0 + 0))
    rw [hsent]
    unfold u64
    omega
  · show k.ui64SendCnt < 2 ^ 64
    rw [hsent]
    exact Nat.mod_lt _ (by decide)
  · show k.ui64RecvCnt = u64 (k.ui64RecvCnt + 0)
    rw [hrecved]
    unfold u64
    omega
  · show k.ui64RecvCnt < 2 ^ 64
    rw [hrecved]
    exact Nat.mod_lt _ (by decide)
  · show decide (k.ui64RecvCnt = k.ui64RecvStore) = true ↔ _
    rw [decide_eq_true_iff, h.recvs_iff]
    exact ⟨fun hd => ⟨_, rfl, hd⟩, fun ⟨m, hm, hd⟩ => Option.some.inj hm ▸ hd⟩

/-! ## The calls -/

theorem needSendHb_eq (s : CRupEndpoint) : needSendHb s =
    ⟨if s.keepAlive.ui64SendCnt = s.keepAlive.ui64SendStore then [.hb] else [],
      .ok { s with keepAlive.ui64SendStore := s.keepAlive.ui64SendCnt }⟩ := by
  obtain ⟨st, q, sock, ⟨c1, c2, c3, c4, c5, c6⟩⟩ := s
  unfold needSendHb
  by_cases heq : c1 = c3
  · subst heq
    rw [if_pos rfl, if_pos rfl]
    rfl
  · rw [if_neg heq, if_neg heq]
    rfl

/-- The keepalive cuts the peer. -/
def Cuts (k : KeepAlive) : Prop := k.ui64RecvCnt = k.ui64RecvStore ∧ k.bWillClose = true

instance (k : KeepAlive) : Decidable (Cuts k) := inferInstanceAs (Decidable (_ ∧ _))

theorem peerIsAlive_eq (hst : s.state = .esOpened) (hs : s.pSock = some n) : peerIsAlive s =
    ⟨if Cuts s.keepAlive then [.cut, .sm (.sockClose n), .sm (.delEndpoint .input)] else [],
      .ok { s with
        state := if Cuts s.keepAlive then .esDelingFromIt else .esOpened
        keepAlive.ui64RecvStore := s.keepAlive.ui64RecvCnt
        keepAlive.bWillClose :=
          decide (s.keepAlive.ui64RecvCnt = s.keepAlive.ui64RecvStore) }⟩ := by
  obtain ⟨st, q, sock, ⟨c1, c2, c3, c4, c5, b⟩⟩ := s
  cases hst
  cases hs
  unfold peerIsAlive Cuts
  by_cases heq : c2 = c4
  · subst heq
    rcases b with _ | _
    · simp
      rfl
    · simp
      rfl
  · simp [heq]
    rfl

/-- The heartbeat at the end of a cycle. -/
def hbAt (k : KeepAlive) : List Ev := if k.ui64SendCnt = k.ui64SendStore then [.hb] else []

/-- The cut at the end of a cycle. -/
def cutAt (n : ℕ) (k : KeepAlive) : List Ev :=
  if Cuts k then [.cut, .sm (.sockClose n), .sm (.delEndpoint .input)] else []

theorem output_ends (hst : s.state = .esOpened) (hs : s.pSock = some n) (hret : ret ≠ .ioErr)
    (hhigh : maxCycleCnt < u32 (s.keepAlive.ui32CycleCnt + 1)) : ∃ st, handleOutputEvt ret s =
      ⟨.output :: (hbAt s.keepAlive ++ cutAt n s.keepAlive),
      .ok { s with state := st, keepAlive := closeCycle s.keepAlive }⟩ := by
  have hsock : s.pSock ≠ none := by simp [hs]
  unfold handleOutputEvt
  rw [if_pos hst, Eff.require_pos hsock, Eff.pure_bind, if_neg hret]
  dsimp only
  rw [if_pos hhigh]
  set u : CRupEndpoint := { s with keepAlive.ui32CycleCnt := 0 } with hu
  have hpeer := peerIsAlive_eq (n := n)
    (s := { u with keepAlive.ui64SendStore := u.keepAlive.ui64SendCnt }) hst hs
  have hboth : (needSendHb u >>= peerIsAlive) =
      ⟨(if u.keepAlive.ui64SendCnt = u.keepAlive.ui64SendStore then [.hb] else []) ++
        (peerIsAlive { u with keepAlive.ui64SendStore := u.keepAlive.ui64SendCnt }).evs,
      (peerIsAlive { u with keepAlive.ui64SendStore := u.keepAlive.ui64SendCnt }).res⟩ := by
    rw [needSendHb_eq]
    rfl
  rw [hpeer] at hboth
  show ∃ st, (Eff.emit .output >>= fun _ => needSendHb u >>= peerIsAlive) = _
  rw [hboth]
  exact ⟨_, rfl⟩

theorem output_counts (hst : s.state = .esOpened) (hs : s.pSock = some n) (hret : ret ≠ .ioErr)
    (hlow : ¬ maxCycleCnt < u32 (s.keepAlive.ui32CycleCnt + 1)) : handleOutputEvt ret s =
      ⟨[.output], .ok { s with keepAlive.ui32CycleCnt := u32 (s.keepAlive.ui32CycleCnt + 1) }⟩ := by
  have hsock : s.pSock ≠ none := by simp [hs]
  unfold handleOutputEvt
  rw [if_pos hst, Eff.require_pos hsock, Eff.pure_bind, if_neg hret]
  dsimp only
  rw [if_neg hlow]
  rfl

theorem input_cases (hst : s.state = .esOpened) (ret : Cmnerr) :
    ∃ (es : List RupEndpoint.Ev) (r : Except Fault CRupEndpoint),
      handleInputEvt ret s = ⟨.input :: es.map Ev.sm, r⟩ ∧ .addToHelper ∉ es ∧ ∀ t, r = .ok t →
        t.keepAlive = { s.keepAlive with ui64RecvCnt := u64 (s.keepAlive.ui64RecvCnt + 1) } := by
  have heq : handleInputEvt ret s = (Eff.emit .input >>= fun _ =>
      Eff.require (s.pSock ≠ none) .sockNull >>= fun _ =>
        if ret = .suc then
          pure { s with keepAlive.ui64RecvCnt := u64 (s.keepAlive.ui64RecvCnt + 1) }
        else if ret = .recvPending then .abort .recvPending
        else post .eeInternalErr
          { s with keepAlive.ui64RecvCnt := u64 (s.keepAlive.ui64RecvCnt + 1) }) :=
    if_neg (not_not_intro hst)
  rw [heq]
  rcases hs : s.pSock with _ | n
  · rw [Eff.require_neg (not_not_intro rfl)]
    exact ⟨[], _, rfl, List.not_mem_nil, fun t ht => nomatch ht⟩
  · rw [Eff.require_pos (Option.some_ne_none n)]
    by_cases hsuc : ret = .suc
    · rw [if_pos hsuc]
      exact ⟨[], _, rfl, List.not_mem_nil, fun t ht => (Except.ok.inj ht) ▸ rfl⟩
    · by_cases hpending : ret = .recvPending
      · rw [if_neg hsuc, if_pos hpending]
        exact ⟨[], _, rfl, List.not_mem_nil, fun t ht => nomatch ht⟩
      · have hpost := post_opened (n := n) (s := { s with
          pSock := some n
          keepAlive.ui64RecvCnt := u64 (s.keepAlive.ui64RecvCnt + 1) }) hst rfl
        rw [if_neg hsuc, if_neg hpending, hpost]
        exact ⟨[.sockClose n, .delEndpoint .input], _, rfl, by simp,
          fun t ht => (Except.ok.inj ht) ▸ rfl⟩

/-- An output event through a NULL `m_pSock`, or of a connection that is broken. -/
theorem output_fails (ret : Cmnerr) (hst : s.state = .esOpened) :
    (s.pSock = none → handleOutputEvt ret s = ⟨[], .error .sockNull⟩) ∧
      ∀ n, s.pSock = some n → handleOutputEvt .ioErr s =
        ⟨[.sm (.sockClose n), .sm (.delEndpoint .input)],
          .ok { s with state := .esDelingFromIt }⟩ := by
  obtain ⟨st, q, sock, k⟩ := s
  cases hst
  refine ⟨fun hs => ?_, fun n hs => ?_⟩
  · cases hs
    rfl
  · cases hs
    rfl

theorem sendData_cases (ret : Cmnerr) (s : CRupEndpoint) :
    exec (.sendData ret) s = ⟨[], .error .sockNull⟩ ∨ ∃ b : Bool, exec (.sendData ret) s =
      ⟨[if b then .handed else .refused],
        .ok { s with keepAlive.ui64SendCnt := u64 (s.keepAlive.ui64SendCnt + 1) }⟩ := by
  obtain ⟨st, q, sock, k⟩ := s
  by_cases hst : st = .esOpened
  · subst hst
    rcases sock with _ | n
    · exact Or.inl rfl
    · exact Or.inr ⟨true, rfl⟩
  · refine Or.inr ⟨false, ?_⟩
    rcases st with _ | _ | _ | _ | _ | _ | _
    all_goals first | exact absurd rfl hst | rfl

/-- **Everything a call can do**: its events, and what it leaves if it returns. -/
inductive Does (s : CRupEndpoint) : List Ev → Except Fault CRupEndpoint → Prop
  | quiet {l : List RupEndpoint.Ev} {r : Except Fault CRupEndpoint} (hno : .addToHelper ∉ l)
      (hkeep : ∀ t, r = .ok t → t.keepAlive = s.keepAlive ∧
        (t.state ≠ .esClosed → s.state ≠ .esClosed)) : Does s (l.map Ev.sm) r
  | opens {t : CRupEndpoint} (hk : t.keepAlive = {}) : Does s [.sm .addToHelper] (.ok t)
  | recvs {l : List RupEndpoint.Ev} {r : Except Fault CRupEndpoint} (hst : s.state = .esOpened)
      (hno : .addToHelper ∉ l) (hk : ∀ t, r = .ok t → t.keepAlive =
        { s.keepAlive with ui64RecvCnt := u64 (s.keepAlive.ui64RecvCnt + 1) }) :
      Does s (.input :: l.map Ev.sm) r
  | sends (b : Bool) : Does s [if b then .handed else .refused]
      (.ok { s with keepAlive.ui64SendCnt := u64 (s.keepAlive.ui64SendCnt + 1) })
  | counts (hst : s.state = .esOpened)
      (hlow : ¬ maxCycleCnt < u32 (s.keepAlive.ui32CycleCnt + 1)) : Does s [.output]
      (.ok { s with keepAlive.ui32CycleCnt := u32 (s.keepAlive.ui32CycleCnt + 1) })
  | ends (n : ℕ) (st : St) (hst : s.state = .esOpened)
      (hhigh : maxCycleCnt < u32 (s.keepAlive.ui32CycleCnt + 1)) :
      Does s (.output :: (hbAt s.keepAlive ++ cutAt n s.keepAlive))
        (.ok { s with state := st, keepAlive := closeCycle s.keepAlive })

theorem post_does (e : Evt) (s : CRupEndpoint) : Does s (post e s).evs (post e s).res := by
  unfold post
  rcases hp : postEvt pure s e with ⟨es, f | ⟨r, t⟩⟩
  · have hnil : es = [] := by
      cases post_fails hp with
      | sockNotNull => rfl
      | closeWaiting hst hs hcb => exact nomatch hcb
      | pendingEvt => rfl
      | sockNull => rfl
      | addedIt hst hp hcb => exact nomatch hcb
      | deledOt hst hcb => exact nomatch hcb
    subst hnil
    exact .quiet (l := []) List.not_mem_nil fun t ht => nomatch ht
  · have hevs : ((Eff.lift Ev.sm Fault.sm (⟨es, .ok (r, t)⟩ : Eff _ _ (ℤ × CRupEndpoint)) >>=
        fun x => pure x.2) : Eff Ev Fault CRupEndpoint) = ⟨es.map Ev.sm ++ [], .ok t⟩ := rfl
    rw [List.append_nil] at hevs
    rw [hevs]
    rcases trans_keeps (post_trans hp) with ⟨rfl, hk⟩ | ⟨hno, hk, hst⟩
    · exact .opens hk
    · exact .quiet hno fun u hu => Except.ok.inj hu ▸ ⟨hk, hst⟩

theorem exec_does (a : Call) (s : CRupEndpoint) : Does s (exec a s).evs (exec a s).res := by
  rcases a with ret | ret | ret | e
  · show Does s (handleInputEvt ret s).evs (handleInputEvt ret s).res
    by_cases hst : s.state = .esOpened
    · obtain ⟨es, r, heq, hno, hk⟩ := input_cases hst ret
      rw [heq]
      exact .recvs hst hno hk
    · have heq : handleInputEvt ret s = pure s := if_pos hst
      rw [heq]
      exact .quiet (l := []) List.not_mem_nil fun t ht => Except.ok.inj ht ▸ ⟨rfl, id⟩
  · show Does s (handleOutputEvt ret s).evs (handleOutputEvt ret s).res
    by_cases hst : s.state = .esOpened
    · obtain ⟨hnull, herr⟩ := output_fails ret hst
      rcases hs : s.pSock with _ | n
      · rw [hnull hs]
        exact .quiet (l := []) List.not_mem_nil fun t ht => nomatch ht
      · by_cases hret : ret = .ioErr
        · rw [hret, herr n hs]
          exact .quiet (l := [.sockClose n, .delEndpoint .input]) (by simp) fun t ht =>
            Except.ok.inj ht ▸ ⟨rfl, fun _ => by simp [hst]⟩
        · by_cases hhigh : maxCycleCnt < u32 (s.keepAlive.ui32CycleCnt + 1)
          · obtain ⟨st, heq⟩ := output_ends hst hs hret hhigh
            rw [heq]
            exact .ends n st hst hhigh
          · rw [output_counts hst hs hret hhigh]
            exact .counts hst hhigh
    · have heq : handleOutputEvt ret s = pure s := if_neg hst
      rw [heq]
      exact .quiet (l := []) List.not_mem_nil fun t ht => Except.ok.inj ht ▸ ⟨rfl, id⟩
  · rcases sendData_cases ret s with heq | ⟨b, heq⟩
    · rw [heq]
      exact .quiet (l := []) List.not_mem_nil fun t ht => nomatch ht
    · rw [heq]
      exact .sends b
  · exact post_does e s

/-! ## Runs -/

theorem neutral_tail (n : ℕ) (k : KeepAlive) : Neutral (hbAt k ++ cutAt n k) := by
  intro e he h
  unfold hbAt cutAt at he
  rcases List.mem_append.mp he with he | he
  · split_ifs at he
    · rw [List.mem_singleton.mp he]
      rfl
    · exact nomatch he
  · split_ifs at he
    · rcases List.mem_cons.mp he with rfl | he
      · rfl
      · rcases List.mem_pair.mp he with rfl | rfl
        · rfl
        · rfl
    · exact nomatch he

theorem hist_cons {e : Ev} (hn : Neutral evs) : hist (log ++ e :: evs) = hist (log ++ [e]) := by
  rw [← List.singleton_append, ← List.append_assoc, hist_neutral hn]

/-- **A call** keeps the invariant. -/
theorem Does.inv (hd : Does s evs (.ok t)) (h : Inv log s) : Inv (log ++ evs) t := by
  intro hopen
  cases hd with
  | quiet hno hkeep =>
    obtain ⟨hk, hst⟩ := hkeep t rfl
    rw [hist_neutral (neutral_sm hno), hk]
    exact h (hst hopen)
  | opens hk =>
    rw [hist_snoc, hk]
    exact ⟨rfl, Nat.zero_le _, rfl, by decide, rfl, by decide, by simp [Hist.add]⟩
  | recvs hst hno hk =>
    rw [hist_cons (neutral_sm hno), hk t rfl]
    exact (h (by rw [hst]; decide)).recv
  | sends b => exact (h hopen).send b
  | counts hst hlow => exact ((h hopen).output hlow).2
  | ends n st hst hhigh =>
    rw [hist_cons (neutral_tail n s.keepAlive)]
    exact ((h (by rw [hst]; decide)).close hhigh).2

theorem inv_step (p : Proc CRupEndpoint Ev Fault) (a : Call) (h : p.fault = none → Inv p.log p.obj)
    (hf : (step p a).fault = none) : Inv (step p a).log (step p a).obj := by
  have hp : p.fault = none := Proc.call_fault_none hf
  have hdoes := exec_does a p.obj
  rcases hres : (exec a p.obj).res with f | t
  · have hdead : (step p a).fault = some f := by
      rw [show step p a = _ from Proc.call_error hp hres]
    rw [hdead] at hf
    exact nomatch hf
  · rw [hres] at hdoes
    rw [show step p a = _ from Proc.call_ok hp hres]
    exact hdoes.inv (h hp)

theorem told_iff (h : Hist) : Told h ↔ (2 ^ 64 ∣ h.handed + h.refused ↔ h.handed = 0) := by
  unfold Told
  by_cases h0 : h.handed = 0
  · rw [if_pos h0, h0, Nat.zero_add]
    simp
  · rw [if_neg h0]
    simp [h0]

theorem heard_iff (h : Hist) : Heard h ↔
    ((2 ^ 64 ∣ h.inputs ∧ ∃ n, h.before = some n ∧ 2 ^ 64 ∣ n) ↔
      h.inputs = 0 ∧ h.before = some 0) := by
  unfold Heard
  constructor
  · intro hh
    refine ⟨fun ⟨h1, h2⟩ => hh h1 h2, fun ⟨h1, h2⟩ => ⟨?_, 0, h2, Nat.dvd_zero _⟩⟩
    rw [h1]
    exact Nat.dvd_zero _
  · intro hh h1 h2
    exact hh.mp ⟨h1, h2⟩

theorem mem_hbAt : .hb ∈ hbAt k ↔ k.ui64SendCnt = k.ui64SendStore := by
  unfold hbAt
  split_ifs with heq
  · simp [heq]
  · simp [heq]

theorem mem_cutAt : .cut ∈ cutAt n k ↔ Cuts k := by
  unfold cutAt
  split_ifs with hc
  · simp [hc]
  · simp [hc]

theorem hb_not_mem_cutAt : .hb ∉ cutAt n k := by
  unfold cutAt
  split_ifs
  · simp
  · simp

theorem cut_not_mem_hbAt : .cut ∉ hbAt k := by
  unfold hbAt
  split_ifs
  · simp
  · simp

/-- What a call must do, for its events and the history before it. -/
def RightAt (evs : List Ev) (h : Hist) : Prop :=
  (.hb ∈ evs ↔ (.output ∈ evs ∧ h.outputs = maxCycleCnt) ∧ h.handed = 0) ∧
    (.cut ∈ evs ↔ (.output ∈ evs ∧ h.outputs = maxCycleCnt) ∧ h.inputs = 0 ∧ h.before = some 0)

theorem rightAt_of_quiet (h1 : ¬ (.output ∈ evs ∧ h.outputs = maxCycleCnt)) (h2 : .hb ∉ evs)
    (h3 : .cut ∉ evs) : RightAt evs h :=
  ⟨iff_of_false h2 fun hr => h1 hr.1, iff_of_false h3 fun hr => h1 hr.1⟩

/-- **A call is right** exactly if the counters can tell. -/
theorem Does.rightAt_iff {r : Except Fault CRupEndpoint} (hd : Does s evs r) (h : Inv log s) :
    RightAt evs (hist log) ↔
      (.output ∈ evs ∧ (hist log).outputs = maxCycleCnt → Told (hist log) ∧ Heard (hist log)) := by
  have hquiet : ¬ (.output ∈ evs ∧ (hist log).outputs = maxCycleCnt) → .hb ∉ evs → .cut ∉ evs →
      (RightAt evs (hist log) ↔
        (.output ∈ evs ∧ (hist log).outputs = maxCycleCnt → Told (hist log) ∧ Heard (hist log))) :=
    fun h1 h2 h3 => iff_of_true (rightAt_of_quiet h1 h2 h3) fun he => absurd he h1
  cases hd with
  | quiet hno hkeep => exact hquiet (by simp) (by simp) (by simp)
  | opens hk => exact hquiet (by simp) (by simp) (by simp)
  | recvs hst hno hk => exact hquiet (by simp) (by simp) (by simp)
  | sends b =>
    cases b
    · exact hquiet (by simp) (by simp) (by simp)
    · exact hquiet (by simp) (by simp) (by simp)
  | counts hst hlow =>
    have hlt := ((h (by rw [hst]; decide)).output hlow).1
    exact hquiet (fun he => absurd he.2 (Nat.ne_of_lt hlt)) (by simp) (by simp)
  | ends n st hst hhigh =>
    have hc := h (by rw [hst]; decide)
    have hend : Ev.output ∈ Ev.output :: (hbAt s.keepAlive ++ cutAt n s.keepAlive) ∧
        (hist log).outputs = maxCycleCnt := ⟨List.mem_cons_self, (hc.close hhigh).1⟩
    have hhb : Ev.hb ∈ Ev.output :: (hbAt s.keepAlive ++ cutAt n s.keepAlive) ↔
        2 ^ 64 ∣ (hist log).handed + (hist log).refused := by
      rw [← hc.sends_iff, ← mem_hbAt]
      simp [hb_not_mem_cutAt]
    have hcut : Ev.cut ∈ Ev.output :: (hbAt s.keepAlive ++ cutAt n s.keepAlive) ↔
        2 ^ 64 ∣ (hist log).inputs ∧ ∃ m, (hist log).before = some m ∧ 2 ^ 64 ∣ m := by
      rw [← hc.recvs_iff, ← hc.willClose]
      show _ ↔ Cuts s.keepAlive
      rw [← mem_cutAt (n := n)]
      simp [cut_not_mem_hbAt]
    rw [told_iff, heard_iff]
    unfold RightAt
    rw [hhb, hcut, and_iff_right hend, and_iff_right hend]
    exact ⟨fun hr _ => hr, fun hr => hr hend⟩

theorem right_iff_tells (h : p.fault = none → Inv p.log p.obj) (a : Call) :
    Right p a ↔ Tells p a := by
  rcases hf : p.fault with _ | f
  · have hiff := (exec_does a p.obj).rightAt_iff (h hf)
    exact ⟨fun hr _ => hiff.mp (hr hf), fun ht _ => hiff.mpr (ht hf)⟩
  · have hdead : p.fault ≠ none := by simp [hf]
    exact iff_of_true (fun hn => absurd hn hdead) fun hn => absurd hn hdead

/-- A constructed endpoint, with any counters. -/
def new (q : PendingEvt) (k : KeepAlive) : Proc CRupEndpoint Ev Fault := { obj := init q k }

theorem inv_run (as : List Call) (h : p.fault = none → Inv p.log p.obj)
    (hf : (Run.run step p as).fault = none) :
    Inv (Run.run step p as).log (Run.run step p as).obj :=
  Run.run_inv (B := fun _ => True) (I := fun p => p.fault = none → Inv p.log p.obj)
    (fun _ _ h => h) (fun p a h _ => inv_step p a h) h trivial hf

/-- **The keepalive over runs.** In every run, the calls are all right if and only if the counters
can tell at the end of every cycle. -/
theorem right_iff (q : PendingEvt) (k : KeepAlive) (as : List Call) :
    Run.Meets step Right (new q k) as ↔ Run.Meets step Tells (new q k) as :=
  Run.meets_congr inv_step (fun _ a h => right_iff_tells h a) fun _ hopen => absurd rfl hopen

/-! ### A session whose first heartbeat is missing -/

theorem run_outputs (hf : p.fault = none) (hst : p.obj.state = .esOpened)
    (hs : p.obj.pSock = some n) : ∀ m, p.obj.keepAlive.ui32CycleCnt + m ≤ maxCycleCnt →
      Run.run step p (List.replicate m (.output .suc)) =
        ⟨{ p.obj with keepAlive.ui32CycleCnt := p.obj.keepAlive.ui32CycleCnt + m },
          p.log ++ List.replicate m .output, none⟩ := by
  intro m
  induction m with
  | zero =>
    intro _
    obtain ⟨s, log, f⟩ := p
    cases hf
    rw [List.replicate_zero, List.replicate_zero, List.append_nil]
    rfl
  | succ m ih =>
    intro hm
    have hmax : maxCycleCnt = 10000000 := rfl
    have hu : u32 (p.obj.keepAlive.ui32CycleCnt + m + 1) =
        p.obj.keepAlive.ui32CycleCnt + (m + 1) := u32_of_lt (by omega)
    have hret : Cmnerr.suc ≠ .ioErr := by decide
    have hnext := output_counts (n := n)
      (s := { p.obj with keepAlive.ui32CycleCnt := p.obj.keepAlive.ui32CycleCnt + m }) hst hs
      hret (by show ¬ maxCycleCnt < u32 (p.obj.keepAlive.ui32CycleCnt + m + 1); omega)
    set u : CRupEndpoint :=
      { p.obj with keepAlive.ui32CycleCnt := p.obj.keepAlive.ui32CycleCnt + m } with hu'
    have hcall : step ⟨u, p.log ++ List.replicate m .output, none⟩ (.output .suc) =
        ⟨{ u with keepAlive.ui32CycleCnt := u32 (u.keepAlive.ui32CycleCnt + 1) },
          p.log ++ List.replicate m .output ++ [.output], none⟩ := by
      have hcall' := Proc.call_ok (f := exec (.output .suc))
        (p := ⟨u, p.log ++ List.replicate m .output, none⟩) rfl (congrArg Eff.res hnext)
      have hevs : (exec (.output .suc) u).evs = [.output] := congrArg Eff.evs hnext
      rw [show (⟨u, p.log ++ List.replicate m .output, none⟩ :
        Proc CRupEndpoint Ev Fault).obj = u from rfl, hevs] at hcall'
      exact hcall'
    rw [List.replicate_succ', Run.run_append, ih (by omega), List.replicate_succ',
      ← List.append_assoc, Run.run_cons, Run.run_nil, hcall]
    show (⟨{ p.obj with keepAlive.ui32CycleCnt := u32 (p.obj.keepAlive.ui32CycleCnt + m + 1) }, _,
      _⟩ : Proc CRupEndpoint Ev Fault) = _
    rw [hu]

theorem hist_outputs (log : List Ev) : ∀ m, (hist log).outputs + m ≤ maxCycleCnt →
    hist (log ++ List.replicate m .output) =
      { hist log with outputs := (hist log).outputs + m } := by
  intro m
  induction m with
  | zero =>
    intro _
    rw [List.replicate_zero, List.append_nil]
    rfl
  | succ m ih =>
    intro hm
    rw [List.replicate_succ', ← List.append_assoc, hist_snoc, ih (by omega)]
    exact if_pos (show (hist log).outputs + m < maxCycleCnt by omega)

/-- `open`, a connection, and a call of `send_data` in `on_opened`. -/
def eager : List Call :=
  [.post .eeOpen, .post (.eeConnected 1), .post .eeAddedIntoOt, .sendData .suc,
    .post .eeAddedIntoIt]

/-- **No heartbeat** at the end of the first cycle, though no data was handed to the socket: the
counter has the call that was refused. -/
theorem late_heartbeat : ¬ ∀ as, Run.Meets step Right (new .eeNone {}) as := by
  intro h
  obtain ⟨m, hm⟩ : ∃ m, m = maxCycleCnt := ⟨_, rfl⟩
  obtain ⟨-, hlast, -⟩ := (Run.meets_append step).mp
    (h (eager ++ List.replicate m (.output .suc) ++ [.output .suc]))
  set p := Run.run step (new .eeNone {}) eager with hp
  have hfault : p.fault = none := by decide
  have hopen : p.obj.state = .esOpened := by decide
  have hsock : p.obj.pSock = some 1 := by decide
  have hcnt : p.obj.keepAlive.ui32CycleCnt = 0 := by decide
  have hhist : hist p.log = { refused := 1 } := by decide
  have hrun := run_outputs hfault hopen hsock m (by omega)
  have hinv := inv_run (eager ++ List.replicate m (.output .suc)) (p := new .eeNone {})
    fun _ hne => absurd rfl hne
  rw [Run.run_append, ← hp, hrun] at hlast hinv
  have hlog : hist (p.log ++ List.replicate m .output) = { outputs := 0 + m, refused := 1 } := by
    have hfits : (hist p.log).outputs + m ≤ maxCycleCnt := by
      rw [hhist]
      exact Nat.le_of_eq ((Nat.zero_add m).trans hm)
    rw [hist_outputs p.log m hfits, hhist]
  have hmax : maxCycleCnt = 10000000 := rfl
  have hret : Cmnerr.suc ≠ .ioErr := by decide
  obtain ⟨st, heq⟩ := output_ends (n := 1) (s := { p.obj with
    keepAlive.ui32CycleCnt := p.obj.keepAlive.ui32CycleCnt + m }) hopen hsock hret (by
      show maxCycleCnt < u32 (p.obj.keepAlive.ui32CycleCnt + m + 1)
      rw [hcnt, u32_of_lt (by omega)]
      omega)
  have hmem : .output ∈ (exec (.output .suc) { p.obj with
      keepAlive.ui32CycleCnt := p.obj.keepAlive.ui32CycleCnt + m }).evs := by
    rw [show exec (.output .suc) _ = _ from heq]
    exact List.mem_cons_self
  have htells := (right_iff_tells (fun _ => hinv rfl) _).mp hlast rfl
  obtain ⟨htold, -⟩ := htells ⟨hmem, by rw [hlog, hm, Nat.zero_add]⟩
  rw [hlog] at htold
  have hone : 2 ^ 64 ∣ 1 := htold
  exact absurd hone (by decide)

end SmartNet.Endpoint.KeepAliveCycles
