import SmartNet.Endpoint.RupStream

/-! # The test program

`main` sends one archive after the other with a `CPkgTest` that counts them, the threads of the
engine flush and send heartbeats, and `CRupEndpointTester::handle_pkg` asserts that the `CPkgTest`s
arrive in this order and that none is missing.

* `Test`, `step`: the connection, and the counter of `main`;
* `Counted`: where the `CPkgTest`s are;
* `test_passes`: the assert never fails. -/

namespace SmartNet.Endpoint.RupTester

open SmartNet.Common SmartNet.Lib.Bytes SmartNet.Lib.Run SmartNet.Memory.MemBlock
open SmartNet.Network.Rup SmartNet.Network.Rup.SendQueue SmartNet.Network.Rup.SendOrder
open SmartNet.Network.Rup.SendPayloads
open SmartNet.Pkg.Header SmartNet.Pkg.Archive SmartNet.Pkg.RoundTrip SmartNet.Endpoint.RupStream

/-- `SET_PKG_HANDLER(CRupEndpointTester, CPkgTest)`. -/
def handlers (usOpcode : ℕ) : Option PkgType :=
  if usOpcode = cPkgTest.opcode then some cPkgTest else none

/-- The bound of the loop of `main`. -/
def loopEnd : ℕ := 1000001

/-- The archive of a round of `main`. -/
def testArchive (fresh : ℕ → UInt8) (i32 : ℕ) : Archived :=
  ⟨cPkgTest, fresh, [.body (leBytes 4 i32)]⟩

/-- The heartbeat of `handle_output_evt`. -/
def hbArchive (fresh : ℕ → UInt8) : Archived := ⟨cPkgHB, fresh, [.body []]⟩

theorem sendable_test (fresh : ℕ → UInt8) (i32 : ℕ) :
    Sendable handlers (testArchive fresh i32) := by
  refine ⟨by simp [testArchive], fun l hl => ?_, fun _ => Or.inr ?_⟩
  · simp only [testArchive, List.mem_singleton, Use.body.injEq] at hl
    rw [hl, length_leBytes]
    rfl
  · exact ⟨show 1 < 65536 by decide, rfl, fun _ _ _ => rfl, fun _ => show 1 ≤ 4 by decide,
      fun _ => Nat.le_refl 4⟩

theorem sendable_hb (fresh : ℕ → UInt8) : Sendable handlers (hbArchive fresh) := by
  refine ⟨by simp [hbArchive], fun l hl => ?_, fun _ => Or.inl rfl⟩
  simp only [hbArchive, List.mem_singleton, Use.body.injEq] at hl
  rw [hl]
  rfl

/-- The call of `handle_pkg` for `i32`. -/
def testCall (i32 : ℕ) : HandlePkg := ⟨cPkgTest, leBytes 4 i32, 0⟩

theorem draft_one (pkg : PkgType) (fresh : ℕ → UInt8) (l : List UInt8)
    (h : pkg.maxSize ≤ maxMemSize - pkgHdrSize) :
    (⟨pkg, fresh, [.body l]⟩ : Archived).draft.bodies = [bodyOf pkg l] ∧
      (⟨pkg, fresh, [.body l]⟩ : Archived).draft.uiTag = 0 := by
  have hroom : ¬ 32752 < pkg.maxSize := by
    simp only [maxMemSize, pkgHdrSize] at h
    omega
  simp [Archived.draft, Draft.use, Draft.new, CArchive.new, CArchive.getNextBody, CArchive.getHdr,
    CArchive.bodyReady, CMemBlock.getTailFreeSize, CMemBlock.incLen, CMemBlock.setOffset,
    CMemBlock.setInitOffset, CMemBlock.new, maxMemSize, u32, sub32, pkgHdrSize, hroom]

theorem calls_test (fresh : ℕ → UInt8) (i32 : ℕ) :
    (testArchive fresh i32).calls = [testCall i32] := by
  obtain ⟨hbodies, htag⟩ := draft_one cPkgTest fresh (leBytes 4 i32) (by decide)
  have hbody : bodyOf cPkgTest (leBytes 4 i32) = leBytes 4 i32 :=
    List.take_of_length_le (by simp [cPkgTest])
  have hne : leBytes 4 i32 ≠ [] := by simp [← List.length_pos_iff]
  simp [Archived.calls, testArchive, hbodies, htag, hbody, hne, testCall]

theorem calls_hb (fresh : ℕ → UInt8) : (hbArchive fresh).calls = [] := by
  obtain ⟨hbodies, -⟩ := draft_one cPkgHB fresh [] (by decide)
  simp [Archived.calls, hbArchive, hbodies, bodyOf]

/-- The connection, one of whose threads is `main`, and the `i` of `main`. -/
structure Test (τ : Type) where
  stream : Stream (Option τ)
  i : ℕ

variable {τ : Type}

def Test.init : Test τ := ⟨.init, 0⟩

/-- A round of the loop of `main`, a heartbeat or `handle_can_send` of another thread, the next step
of a thread, and `handle_input_evt` of the peer. -/
inductive TestAct (τ : Type)
  | main (fresh : ℕ → UInt8)
  | hb (t : τ) (fresh : ℕ → UInt8)
  | handleOutput (t : τ)
  | go (t : Option τ) (io : SendIo)
  | handleInput (n : ℕ) (fresh : ℕ → UInt8)

/-- The step of the connection; `i` is the `i` of `main`. -/
def TestAct.act (i : ℕ) : TestAct τ → StreamAct (Option τ) handlers
  | .main fresh => .sendData none (.of (sendable_test fresh i))
  | .hb t fresh => .sendData (some t) (.of (sendable_hb fresh))
  | .handleOutput t => .handleOutput (some t)
  | .go t io => .go t io
  | .handleInput n fresh => .handleInput n fresh

/-- `main` is between two rounds: its last `send_data` has returned. -/
def Test.between (w : Test τ) : Bool :=
  !w.stream.sock.aborted &&
    (match w.stream.sock.lkSending with
      | some (none, _) => false
      | _ => true) &&
    (match w.stream.sock.pc none with
      | .idle => true
      | _ => false)

variable [DecidableEq τ]

def step (dbg : Bool) (w : Test τ) (a : TestAct τ) : Test τ :=
  match a with
  | .main _ =>
    if w.between ∧ w.i < loopEnd then ⟨RupStream.step dbg w.stream (a.act w.i), w.i + 1⟩ else w
  | _ => { w with stream := RupStream.step dbg w.stream (a.act w.i) }

/-- The direct `::send` of `main`, if this is its next step, takes bytes. -/
def Taken (w : Test τ) : TestAct τ → Prop
  | .go none io => ∀ p ∈ directOf w.stream.sock none, SendIo.takes p.mem io ≠ none
  | _ => True

/-- No direct `::send` takes bytes while `m_qSending` has some, and those of `main` take some. -/
def Served (w : Test τ) (a : TestAct τ) : Prop := Orderly w.stream (a.act w.i) ∧ Taken w a

instance (w : Test τ) : ∀ a, Decidable (Taken w a)
  | .go none _ => inferInstanceAs (Decidable (∀ p ∈ _, _))
  | .go (some _) _ => .isTrue trivial
  | .main _ => .isTrue trivial
  | .hb _ _ => .isTrue trivial
  | .handleOutput _ => .isTrue trivial
  | .handleInput _ _ => .isTrue trivial

instance (w : Test τ) (a : TestAct τ) : Decidable (Served w a) :=
  inferInstanceAs (Decidable (_ ∧ _))

/-- The archives of the program. -/
def Ours (a : Archived) : Prop :=
  (∃ fresh i32, a = testArchive fresh i32) ∨ ∃ fresh, a = hbArchive fresh

theorem Ours.sendable {a : Archived} (h : Ours a) : Sendable handlers a := by
  rcases h with ⟨fresh, i32, rfl⟩ | ⟨fresh, rfl⟩
  · exact sendable_test fresh i32
  · exact sendable_hb fresh

/-- The socket was given the first `k` archives of `main`, and heartbeats: `as` are the accepted
archives, and `later` those that follow a direct `::send` that is started. -/
structure Tally (w : Socket (Option τ)) (as later : List Archived) (k : ℕ) : Prop where
  accepted : w.accepted = as.map Archived.bytes
  since : w.since = later.map Archived.bytes
  ours : ∀ a ∈ as ++ later, Ours a
  counted : (as ++ later).flatMap Archived.calls = (List.range k).map testCall
  behind : ∀ p, w.lkSending = some (none, .direct p) → later.flatMap Archived.calls = []

/-- What the threads have in hand: `main` the archive `k`, if it has not been queued or sent, and
others heartbeats. -/
structure InHand (w : Socket (Option τ)) (k i : ℕ) : Prop where
  idle : pending w none = none → i = k
  busy : ∀ p, pending w none = some p →
    i = k + 1 ∧ ∃ fresh, p.mem.data = (testArchive fresh k).bytes
  others : ∀ t p, pending w (some t) = some p → ∃ fresh, p.mem.data = (hbArchive fresh).bytes

/-- The invariant. -/
structure Counted (w : Test τ) : Prop where
  stream : StreamInv Ours w.stream
  tally : ∃ as later k, Tally w.stream.sock as later k ∧ InHand w.stream.sock k w.i
  bound : w.i ≤ loopEnd

/-! ### One step -/

variable {w v : Socket (Option τ)} {as later : List Archived} {k i : ℕ} {t : Option τ} {a : Act}
  {p : Payload}

theorem InHand.other (h : InHand w k i) {u : τ} {x : Option Payload}
    (hp : pending v = Function.update (pending w) (some u) x)
    (hx : ∀ q, x = some q → ∃ fresh, q.mem.data = (hbArchive fresh).bytes) : InHand v k i := by
  have hmain : pending v none = pending w none := by rw [hp, Function.update_of_ne (by simp)]
  refine ⟨fun hq => h.idle (hmain ▸ hq), fun q hq => h.busy q (hmain ▸ hq), fun s q hq => ?_⟩
  rw [hp] at hq
  by_cases hs : s = u
  · rw [hs, Function.update_self] at hq
    exact hx q hq
  · rw [Function.update_of_ne (by simpa using hs)] at hq
    exact h.others s q hq

theorem InHand.done (h : InHand w k i) (hw : pending w t = some p)
    (hp : pending v = Function.update (pending w) t none) :
    ∃ x k', Ours x ∧ x.bytes = p.mem.data ∧ InHand v k' i ∧
      (List.range k').map testCall = (List.range k).map testCall ++ x.calls ∧
      (t ≠ none → x.calls = []) := by
  cases t with
  | none =>
    obtain ⟨hi, fresh, hdata⟩ := h.busy p hw
    refine ⟨testArchive fresh k, k + 1, Or.inl ⟨fresh, k, rfl⟩, hdata.symm,
      ⟨fun _ => hi, fun q hq => ?_, fun u q hq => ?_⟩, ?_, fun hne => absurd rfl hne⟩
    · simp [hp] at hq
    · rw [hp, Function.update_of_ne (by simp)] at hq
      exact h.others u q hq
    · rw [List.range_succ, List.map_append, calls_test]
      rfl
  | some u =>
    obtain ⟨fresh, hdata⟩ := h.others u p hw
    refine ⟨hbArchive fresh, k, Or.inr ⟨fresh, rfl⟩, hdata.symm, h.other hp fun q hq => ?_, ?_,
      fun _ => calls_hb fresh⟩
    · cases hq
    · rw [calls_hb, List.append_nil]

omit [DecidableEq τ] in
theorem Tally.since_nil (h : Tally w as later k) (hord : OrderInv w) (hst : w.started = false) :
    later = [] := by
  have hs := h.since
  rw [hord.notStarted hst] at hs
  simpa using hs.symm

omit [DecidableEq τ] in
/-- Nothing is accepted, and `main` begins a direct `::send` only if none was started. -/
theorem Tally.same (h : Tally w as later k) (hord : OrderInv w) (ha : v.accepted = w.accepted)
    (hs : v.since = w.since)
    (hdir : ∀ p, v.lkSending = some (none, .direct p) →
      w.lkSending = some (none, .direct p) ∨ w.started = false) : Tally v as later k := by
  refine ⟨ha ▸ h.accepted, hs ▸ h.since, h.ours, h.counted, fun q hq => ?_⟩
  rcases hdir q hq with hq | hst
  · exact h.behind q hq
  · rw [h.since_nil hord hst]
    rfl

/-- **A step of the socket** in which `main` does not begin to send and is not refused. -/
theorem Tally.moves (h : Tally w as later k) (hI : InHand w k i) (hord : OrderInv w)
    (hm : Moves t a w v)
    (hdir : ∀ p, v.lkSending = some (none, .direct p) →
      w.lkSending = some (none, .direct p) ∨ w.started = false)
    (hhb : ∀ p, a = .send p → t ≠ none ∧ ∃ fresh, p.mem.data = (hbArchive fresh).bytes)
    (hserved : ∀ io p, a = .go io → t = none → w.lkSending = some (none, .direct p) →
      SendIo.takes p.mem io ≠ none) :
    ∃ as' later' k', Tally v as' later' k' ∧ InHand v k' i := by
  have hours : (∀ x ∈ as, Ours x) ∧ ∀ x ∈ later, Ours x := List.forall_mem_append.mp h.ours
  cases hm with
  | quiet ha hs hp =>
    exact ⟨as, later, k, h.same hord ha hs hdir, hp ▸ hI.idle, hp ▸ hI.busy, hp ▸ hI.others⟩
  | begins p hact ha hs hno hp =>
    obtain ⟨hne, hdata⟩ := hhb p hact
    obtain ⟨u, rfl⟩ := Option.ne_none_iff_exists'.mp hne
    refine ⟨as, later, k, h.same hord ha hs hdir, hI.other hp fun q hq => ?_⟩
    cases hq
    exact hdata
  | queued p hw hst ha hs hp =>
    obtain ⟨x, k', hx, hdata, hI', hk, -⟩ := hI.done hw hp
    obtain rfl := h.since_nil hord hst
    have hc := h.counted
    rw [List.append_nil] at hc
    refine ⟨as ++ [x], [], k', ⟨?_, hs ▸ h.since, ?_, ?_, fun _ _ => rfl⟩, hI'⟩
    · rw [ha, h.accepted, ← hdata]
      simp
    · simp only [List.append_nil, List.forall_mem_append, List.forall_mem_singleton]
      exact ⟨hours.1, hx⟩
    · rw [List.append_nil, List.flatMap_append, hc, hk]
      simp
  | later p hw hst hno ha hs hp =>
    obtain ⟨x, k', hx, hdata, hI', hk, hcalls⟩ := hI.done hw hp
    refine ⟨as, later ++ [x], k', ⟨ha ▸ h.accepted, ?_, ?_, ?_, fun q hq => ?_⟩, hI'⟩
    · rw [hs, h.since, ← hdata]
      simp
    · rw [← List.append_assoc, List.forall_mem_append, List.forall_mem_singleton]
      exact ⟨h.ours, hx⟩
    · rw [← List.append_assoc, List.flatMap_append, h.counted, hk]
      simp
    · rcases hdir q hq with hq | hst'
      · -- `main` has the lock, and this is another thread
        have hne : t ≠ none := fun ht => hno _ (ht ▸ hq)
        rw [List.flatMap_append, h.behind q hq]
        simp [hcalls hne]
      · rw [hst] at hst'
        exact absurd hst' (by decide)
  | sent p hw ha hs hp =>
    obtain ⟨x, k', hx, hdata, hI', hk, hcalls⟩ := hI.done (pending_holder hw) hp
    refine ⟨as ++ x :: later, [], k', ⟨?_, by simp [hs], ?_, ?_, fun _ _ => rfl⟩, hI'⟩
    · rw [ha, h.accepted, h.since, ← hdata]
      simp
    · simp only [List.append_nil, List.forall_mem_append, List.forall_mem_cons]
      exact ⟨hours.1, hx, hours.2⟩
    · have hc := h.counted
      rw [List.flatMap_append] at hc
      rw [List.append_nil, List.flatMap_append, List.flatMap_cons, hk, ← hc]
      cases t with
      | none => simp [h.behind p hw]
      | some u => simp [hcalls]
  | refused p io hw hact hio ha hs hp =>
    have hne : t ≠ none := fun ht => hserved io p hact ht (ht ▸ hw) hio
    obtain ⟨u, rfl⟩ := Option.ne_none_iff_exists'.mp hne
    refine ⟨as ++ later, [], k, ⟨?_, by simp [hs], ?_, ?_, fun _ _ => rfl⟩,
      hI.other hp fun q hq => ?_⟩
    · rw [ha, h.accepted, h.since, List.map_append]
    · rw [List.append_nil]
      exact h.ours
    · rw [List.append_nil]
      exact h.counted
    · cases hq

theorem between_send {w : Test τ} (h : w.between = true) (p : Payload) :
    pending w.stream.sock none = none ∧
      SendOrder.step w.stream.sock (none, .send p) = { w.stream.sock with
        pc := Function.update w.stream.sock.pc none (.tryLock p) } ∧
      ∀ i, w.stream.sock.lkSending ≠ some (none, i) := by
  obtain ⟨⟨⟨qc, qs, lk, pc, ab, ke, ac, si⟩, recved, peer⟩, i⟩ := w
  simp only [Test.between, Bool.and_eq_true, Bool.not_eq_true'] at h
  obtain ⟨⟨rfl, hlk⟩, hpc⟩ := h
  have hidle : pc none = .idle := by
    cases hpn : pc none with
    | idle => rfl
    | _ => simp [hpn] at hpc
  rcases lk with - | ⟨_ | u, j⟩
  · simp [pending, hidle, Outside.payload, SendOrder.step, outside]
  · simp at hlk
  · simp [pending, hidle, Outside.payload, SendOrder.step, outside]

theorem Counted.main {w : Test τ} (h : Counted w) (fresh : ℕ → UInt8) (hb : w.between = true)
    (hi : w.i < loopEnd) :
    Counted ⟨w.stream.sends (none, .send (Package.of (sendable_test fresh w.i)).payload),
      w.i + 1⟩ := by
  obtain ⟨hstream, ⟨as, later, k, ht, hI⟩, -⟩ := h
  set p : Package handlers := .of (sendable_test fresh w.i) with hp
  obtain ⟨hno, hsend, hlk⟩ := between_send hb p.payload
  have hik : w.i = k := hI.idle hno
  have hdata : p.payload.mem.data = (testArchive fresh w.i).bytes := p.data
  have hpend : pending (SendOrder.step w.stream.sock (none, .send p.payload)) =
      Function.update (pending w.stream.sock) none (some p.payload) := by
    rw [hsend]
    exact pending_outside (.tryLock p.payload) hlk rfl rfl
  refine ⟨hstream.sends (fun a ha => ha.sendable) trivial fun q hq => ?_,
    ⟨as, later, k, ?_, ?_⟩, hi⟩
  · simp only [Act.send.injEq] at hq
    exact ⟨testArchive fresh w.i, Or.inl ⟨fresh, w.i, rfl⟩, by rw [← hq, hdata]⟩
  · show Tally (SendOrder.step w.stream.sock (none, .send p.payload)) as later k
    rw [hsend]
    exact ⟨ht.accepted, ht.since, ht.ours, ht.counted, ht.behind⟩
  · show InHand (SendOrder.step w.stream.sock (none, .send p.payload)) k (w.i + 1)
    refine ⟨fun hq => ?_, fun q hq => ?_, fun u q hq => ?_⟩
    · simp [hpend] at hq
    · rw [hpend, Function.update_self, Option.some.injEq] at hq
      rw [← hq, ← hik]
      exact ⟨rfl, fresh, hdata⟩
    · rw [hpend, Function.update_of_ne (by simp)] at hq
      exact hI.others u q hq

theorem Counted.sends {w : Test τ} (h : Counted w) {x : Option τ × Act}
    (hflush : Flushed w.stream.sock x)
    (hhb : ∀ p, x.2 = .send p → x.1 ≠ none ∧ ∃ fresh, p.mem.data = (hbArchive fresh).bytes)
    (hserved : ∀ io p, x.2 = .go io → x.1 = none →
      w.stream.sock.lkSending = some (none, .direct p) → SendIo.takes p.mem io ≠ none) :
    Counted { w with stream := w.stream.sends x } := by
  obtain ⟨hstream, ⟨as, later, k, ht, hI⟩, hi⟩ := h
  refine ⟨hstream.sends (fun a ha => ha.sendable) hflush fun p hp => ?_, ?_, hi⟩
  · obtain ⟨-, fresh, hdata⟩ := hhb p hp
    exact ⟨hbArchive fresh, Or.inr ⟨fresh, rfl⟩, hdata.symm⟩
  · exact ht.moves hI hstream.order (step_moves hstream.holder x.1 x.2) (fun p hp => direct_step hp)
      hhb hserved

/-- **One step** of the program. -/
theorem Counted.step {w : Test τ} (h : Counted w) (dbg : Bool) {a : TestAct τ} (hc : Served w a) :
    Counted (step dbg w a) := by
  cases a with
  | main fresh =>
    unfold RupTester.step
    dsimp only
    split_ifs with hb
    · exact h.main fresh hb.1 hb.2
    · exact h
  | hb t fresh =>
    refine h.sends (hc.1 _ rfl) (fun p hp => ?_) fun io p hio => by simp at hio
    simp only [Act.send.injEq] at hp
    exact ⟨by simp, fresh, by rw [← hp]; exact (Package.of (sendable_hb fresh)).data⟩
  | handleOutput t =>
    exact h.sends (hc.1 _ rfl) (fun p hp => by simp at hp) fun io p hio => by simp at hio
  | go t io =>
    refine h.sends (hc.1 _ rfl) (fun p hp => by simp at hp) fun io' p hio hnone hl => ?_
    simp only [Act.go.injEq] at hio
    obtain rfl : t = none := hnone
    exact hio ▸ hc.2 p (directOf_eq.mpr hl)
  | handleInput n fresh =>
    obtain ⟨hstream, htally, hi⟩ := h
    refine ⟨hstream.step (fun a ha => ha.sendable) hc.1 fun t p hp => by simp [TestAct.act] at hp,
      ?_, hi⟩
    unfold RupTester.step RupStream.step TestAct.act
    dsimp only
    split_ifs <;> exact htally

end SmartNet.Endpoint.RupTester
