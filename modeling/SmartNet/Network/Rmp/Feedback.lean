import SmartNet.Network.Rmp.RecvRun

/-! # What a receiver tells the sender

Whatever happens to the reorder buffer of a receiver, its counters never pass the numbers of the
packets it was sent, and so neither does an ack or a NAK it sends. Nothing here depends on the
receiver being in order.

* `Tame M s`: the counters of the socket are at most `M`;
* `Says M s d`: the datagram `d` is an ack of at most what `s` has, or a NAK for packets up to `M`;
* `exec_report`: a call keeps the first and sends only the second. -/

namespace SmartNet.Network.Rmp.Feedback

open SmartNet.Common SmartNet.Lib SmartNet.Memory.MemBlock SmartNet.Network.Udp
open SmartNet.Network.Rmp.Wire
open SmartNet.Network.Rmp.Recvep SmartNet.Network.Rmp.ControlPkgs SmartNet.Network.Rmp.Reorder
open SmartNet.Network.Rmp.RecvRun

structure Tame (M : ℕ) (s : RecvSock) : Prop where
  latest : s.latestRecvedValidSeqNo ≤ M
  unvalidPkgBegin : s.unvalidPkgBegin ≤ M
  unvalidPkgEnd : s.unvalidPkgEnd ≤ M

/-- Nothing the sender hears of changes. -/
structure Held (s t : RecvSock) : Prop where
  epid : t.epid = s.epid
  senderId : t.senderId = s.senderId
  addrSender : t.addrSender = s.addrSender
  latest : t.latestRecvedValidSeqNo = s.latestRecvedValidSeqNo
  unvalidPkgBegin : t.unvalidPkgBegin = s.unvalidPkgBegin
  unvalidPkgEnd : t.unvalidPkgEnd = s.unvalidPkgEnd

/-- An ack of at most what `s` has, or a NAK for packets up to `M`. -/
def Says (M : ℕ) (s : RecvSock) (d : List UInt8) : Prop :=
  (∃ q, IsAck q s.epid d ∧ 1 ≤ q ∧ q ≤ s.latestRecvedValidSeqNo) ∨
    ∃ b e, IsNak b e s.epid d ∧ 1 ≤ b ∧ b ≤ e ∧ e ≤ M

/-- The socket after a call; a call that ended the process leaves nothing behind. -/
def after (s : RecvSock) (x : Eff Ev Fault RecvSock) : RecvSock :=
  match x.res with
  | .ok t => t
  | .error _ => s

variable {M : ℕ} {s t u : RecvSock} {sid : UInt8} {pay : ℕ → List UInt8}

theorem held_of_same (h : Same s t) : Held s t :=
  ⟨h.epid, h.senderId, h.addrSender, h.latest, h.unvalidPkgBegin, h.unvalidPkgEnd⟩

theorem Held.trans (h : Held s t) (h' : Held t u) : Held s u :=
  ⟨h'.1.trans h.1, h'.2.trans h.2, h'.3.trans h.3, h'.4.trans h.4, h'.5.trans h.5, h'.6.trans h.6⟩

theorem Held.tame (h : Held s t) (ht : Tame M s) : Tame M t :=
  ⟨h.latest ▸ ht.latest, h.unvalidPkgBegin ▸ ht.unvalidPkgBegin, h.unvalidPkgEnd ▸ ht.unvalidPkgEnd⟩

theorem Held.control (h : Held s t) {e : Ev} (he : Control t e) : Control s e := by
  obtain ⟨d, hd, hc⟩ := he
  unfold ControlPkg at hc
  rw [h.latest, h.unvalidPkgBegin, h.epid] at hc
  exact ⟨d, by rw [hd, h.addrSender], hc⟩

theorem control_says (ht : Tame M s) (hM : M < 2 ^ 64 - 1) (hid : s.epid < 2 ^ 64) {d : List UInt8}
    (h : ControlPkg s d) : Says M s d := by
  have h1 := ht.latest
  have h2 := ht.unvalidPkgBegin
  have hu : u64 (s.latestRecvedValidSeqNo + 1) = s.latestRecvedValidSeqNo + 1 :=
    u64_of_lt (by omega)
  rcases h with ⟨hpos, stack, rfl⟩ | ⟨hlt, hle, stack, rfl⟩
  · exact Or.inl ⟨_, isAck_ackBytes stack (by omega) hid, hpos, Nat.le_refl _⟩
  · have hs : sub64 s.unvalidPkgBegin 1 = s.unvalidPkgBegin - 1 := sub64_of_le (by omega) (by omega)
    rw [hu, hs] at hle ⊢
    exact Or.inr ⟨_, _, isNak_nakBytes stack (by omega) (by omega) hid, by omega, hle, by omega⟩

theorem setAck_err (s : RecvSock) (flag : Bool) (stack : ℕ → UInt8) (io : Sendto) {f : Fault}
    (h : (setAck s flag stack io).res = .error f) : sends (setAck s flag stack io).evs = [] := by
  by_cases hc : 0 < s.latestRecvedValidSeqNo ∧
      (flag ∨ s.sendAckCnt ≤ sub64 s.latestRecvedValidSeqNo s.appConfirmAckTmp)
  · simp only [setAck, if_pos hc] at h ⊢
    cases io
    · cases h
    · rfl
    · rfl
  · simp only [setAck, if_neg hc] at h
    cases h

/-! ### A drain -/

theorem getNext_cases (s : RecvSock) (stack : ℕ → UInt8) (io : Sendto) :
    (∃ p t, getNextRecvedData s stack io = pure (.suc, p, t) ∧ Held s t) ∨
      s.pMem.filter (0 < ·.len) = none ∧
        ¬ (0 < s.validPkgBegin ∧ s.validPkgBegin ≤ s.validPkgEnd) := by
  rcases hf : s.pMem.filter (0 < ·.len) with _ | b
  · by_cases hv : 0 < s.validPkgBegin ∧ s.validPkgBegin ≤ s.validPkgEnd
    · exact Or.inl ⟨_, _, getNext_slot hf hv stack io, rfl, rfl, rfl, rfl, rfl, rfl⟩
    · exact Or.inr ⟨hf, hv⟩
  · left
    refine ⟨some b, { s with pMem := none }, ?_, rfl, rfl, rfl, rfl, rfl, rfl⟩
    unfold getNextRecvedData
    rw [hf]

/-- **A drain** sends at most the ack of the state it starts in. -/
theorem drain_held (stack : ℕ → UInt8) (io : Sendto) : ∀ (fuel : ℕ) (s : RecvSock),
    (∀ t, (drain stack io fuel s).res = .ok t → Held s t) ∧
      (∀ a d, Ev.sendto a d ∈ (drain stack io fuel s).evs → Control s (.sendto a d)) ∧
      ∀ f, (drain stack io fuel s).res = .error f → sends (drain stack io fuel s).evs = []
  | 0, s => by
    refine ⟨fun t ht => ?_, fun a d h => ?_, fun f hf => ?_⟩
    · cases ht; exact ⟨rfl, rfl, rfl, rfl, rfl, rfl⟩
    · cases h
    · cases hf
  | fuel + 1, s => by
    rcases getNext_cases s stack io with ⟨p, t, heq, hst⟩ | ⟨hmem, hv⟩
    · obtain ⟨h1, h2, h3⟩ := drain_held stack io fuel t
      rw [drain_some heq]
      refine ⟨fun u hu => hst.trans (h1 u hu), fun a d hmem => ?_, fun f hf => ?_⟩
      · rcases List.mem_cons.mp hmem with he | he
        · cases he
        · exact hst.control (h2 a d he)
      · have hnil := h3 f hf
        unfold sends at hnil ⊢
        rw [List.filterMap_cons_none rfl, hnil]
    · have hq := setAck_quiet { s with validPkgBegin := 0, validPkgEnd := 0 } false stack io
      rw [drain_none hmem hv]
      refine ⟨fun u hu => ?_, fun a d hmem => ?_, fun f hf => setAck_err _ _ _ _ hf⟩
      · have h0 : Held s { s with validPkgBegin := 0, validPkgEnd := 0 } :=
          ⟨rfl, rfl, rfl, rfl, rfl, rfl⟩
        exact h0.trans (held_of_same (hq.ok u hu))
      · exact hq.evs _ hmem

/-! ### A data packet -/

/-- The sender id and the own id stay, and the counters stay below `M` if the packet is. -/
def Moves (M : ℕ) (q : ℕ) (s t : RecvSock) : Prop :=
  t.epid = s.epid ∧ t.senderId = s.senderId ∧
    (Tame M s → M < 2 ^ 64 - 1 → 1 ≤ q → q ≤ M →
      Tame M t ∧ s.latestRecvedValidSeqNo ≤ t.latestRecvedValidSeqNo)

theorem activate_moves {q : ℕ} (h : u64 (s.latestRecvedValidSeqNo + 1) = s.unvalidPkgBegin) :
    Moves M q s (activate s) := by
  refine ⟨by simp only [activate]; split_ifs <;> rfl, by simp only [activate]; split_ifs <;> rfl,
    fun ht hM _ _ => ?_⟩
  have h1 := ht.latest
  have h2 := ht.unvalidPkgBegin
  have h3 := ht.unvalidPkgEnd
  have hu : u64 (s.latestRecvedValidSeqNo + 1) = s.latestRecvedValidSeqNo + 1 :=
    u64_of_lt (by omega)
  obtain ⟨e1, e2, -, -⟩ := findValidPkgEnd_spec s.vecUnvalidPkgs
    (s.unvalidPkgEnd - s.unvalidPkgBegin)
    s.unvalidPkgBegin (by omega)
  unfold activate
  set e :=
    findValidPkgEnd s.vecUnvalidPkgs (s.unvalidPkgEnd - s.unvalidPkgBegin) s.unvalidPkgBegin with he
  by_cases hlt : e < s.unvalidPkgEnd
  · have hu' : u64 (e + 1) = e + 1 := u64_of_lt (by omega)
    obtain ⟨-, b2, -, -⟩ := findUnvalidPkgBegin_spec s.vecUnvalidPkgs
      (s.unvalidPkgEnd - (e + 1)) (e + 1)
      (by omega)
    simp only [if_pos hlt, hu']
    exact ⟨⟨by show e ≤ M; omega, by show findUnvalidPkgBegin _ _ _ ≤ M; omega, h3⟩,
      by show s.latestRecvedValidSeqNo ≤ e; omega⟩
  · simp only [if_neg hlt]
    exact ⟨⟨by show e ≤ M; omega, Nat.zero_le _,
      Nat.zero_le _⟩, by show s.latestRecvedValidSeqNo ≤ e; omega⟩

theorem widen_moves (q : ℕ) : (∃ f, widen s q = Eff.abort f) ∨ ∃ t, widen s q = pure t ∧
    t.epid = s.epid ∧ t.senderId = s.senderId ∧
      t.latestRecvedValidSeqNo = s.latestRecvedValidSeqNo ∧
    (Tame M s → q ≤ M → Tame M t) := by
  unfold widen
  split_ifs
  · exact Or.inr ⟨_, rfl, rfl, rfl, rfl, fun h hq => ⟨h.latest, hq, hq⟩⟩
  · exact Or.inr ⟨_, rfl, rfl, rfl, rfl, fun h hq => ⟨h.latest, hq, h.unvalidPkgEnd⟩⟩
  · exact Or.inl ⟨_, rfl⟩
  · exact Or.inr ⟨_, rfl, rfl, rfl, rfl, fun h hq => ⟨h.latest, h.unvalidPkgBegin, hq⟩⟩
  · exact Or.inr ⟨_, rfl, rfl, rfl, rfl, fun h _ => h⟩

theorem odata_moves (b : CMemBlock) : (∃ f, recvepHandleOdata s b = Eff.abort f) ∨
    ∃ ret t, recvepHandleOdata s b = pure (ret, t) ∧ Moves M (b.get64 0) s t := by
  unfold recvepHandleOdata
  by_cases hnext : b.get64 0 = u64 (1 + s.latestRecvedValidSeqNo)
  · right
    simp only [if_pos hnext]
    have hstep : Moves M (b.get64 0) s { s with
        pMem := some (b.decHeadData 8)
        latestRecvedValidSeqNo := u64 (s.latestRecvedValidSeqNo + 1) } := by
      refine ⟨rfl, rfl, fun h hM hq1 hq => ⟨⟨?_, h.unvalidPkgBegin, h.unvalidPkgEnd⟩, ?_⟩⟩
      · show u64 (s.latestRecvedValidSeqNo + 1) ≤ M
        rw [Nat.add_comm, ← hnext]; exact hq
      · have h1 := h.latest
        show s.latestRecvedValidSeqNo ≤ u64 (s.latestRecvedValidSeqNo + 1)
        rw [u64_of_lt (by omega)]; omega
    by_cases hact : u64 (u64 (s.latestRecvedValidSeqNo + 1) + 1) = s.unvalidPkgBegin
    · rw [if_pos hact]
      refine ⟨_, _, rfl, ?_⟩
      have hmv := activate_moves (M := M) (q := b.get64 0) (s := { s with
        pMem := some (b.decHeadData 8)
        latestRecvedValidSeqNo := u64 (s.latestRecvedValidSeqNo + 1) }) hact
      refine ⟨hmv.1, hmv.2.1, fun h hM hq1 hq => ?_⟩
      obtain ⟨g1, g2⟩ := hstep.2.2 h hM hq1 hq
      obtain ⟨k1, k2⟩ := hmv.2.2 g1 hM hq1 hq
      exact ⟨k1, Nat.le_trans g2 k2⟩
    · rw [if_neg hact]
      exact ⟨_, _, rfl, hstep⟩
  by_cases hdup : b.get64 0 ≤ s.latestRecvedValidSeqNo
  · right
    simp only [if_neg hnext, if_pos hdup]
    exact ⟨_, _, rfl, rfl, rfl,
      fun h _ _ _ => ⟨⟨h.latest, h.unvalidPkgBegin, h.unvalidPkgEnd⟩, Nat.le_refl _⟩⟩
  simp only [if_neg hnext, if_neg hdup]
  rcases widen_moves (M := M) (s := s) (b.get64 0) with ⟨f, hf⟩ | ⟨t, ht, h1, h2, h3, h4⟩
  · left
    exact ⟨f, by rw [hf, Eff.abort_bind]⟩
  · rw [ht, Eff.pure_bind]
    by_cases hfree : t.vecUnvalidPkgs (b.get64 0 % unorderedPkgsCnt) = none
    · right
      simp only [Eff.require_pos hfree, Eff.pure_bind]
      refine ⟨_, _, rfl, h1, h2, fun h _ _ hq => ?_⟩
      have := h4 h hq
      exact ⟨⟨this.latest, this.unvalidPkgBegin, this.unvalidPkgEnd⟩, Nat.le_of_eq h3.symm⟩
    · left
      exact ⟨.slotTaken, by simp only [Eff.require_neg hfree, Eff.abort_bind]⟩

/-! ### Reports -/

/-- What the sender can notice of a call on `s`, if `U` holds of the datagram that was handled. -/
structure Report (M : ℕ) (U : Prop) (s : RecvSock) (x : Eff Ev Fault RecvSock) : Prop where
  epid : (after s x).epid = s.epid
  senderId : (after s x).senderId = s.senderId
  tame : U → Tame M s → M < 2 ^ 64 - 1 →
    Tame M (after s x) ∧ s.latestRecvedValidSeqNo ≤ (after s x).latestRecvedValidSeqNo
  tells : U → Tame M s → M < 2 ^ 64 - 1 → s.epid < 2 ^ 64 →
    ∀ a d, (a, d) ∈ sends x.evs → Says M (after s x) d

variable {U : Prop}

theorem report_abort {x : Eff Ev Fault RecvSock} {f : Fault} (hx : x = Eff.abort f) :
    Report M U s x := by
  subst hx
  exact ⟨rfl, rfl, fun _ h _ => ⟨h, Nat.le_refl _⟩, fun _ _ _ _ a d h => by cases h⟩

theorem report_held {x : Eff Ev Fault RecvSock} (hok : ∀ t, x.res = .ok t → Held s t)
    (hevs : ∀ a d, Ev.sendto a d ∈ x.evs → Control s (.sendto a d)) : Report M U s x := by
  have hheld : Held s (after s x) := by
    unfold after
    rcases hres : x.res with f | t
    · exact ⟨rfl, rfl, rfl, rfl, rfl, rfl⟩
    · exact hok t hres
  refine ⟨hheld.epid, hheld.senderId, fun _ h _ => ⟨hheld.tame h, Nat.le_of_eq hheld.latest.symm⟩,
    fun _ h hM hid a d hmem => ?_⟩
  obtain ⟨d', hd', hc⟩ := hevs a d (mem_sends.mp hmem)
  cases hd'
  have := control_says h hM hid hc
  unfold Says at this ⊢
  rwa [hheld.epid, hheld.latest]

theorem report_odata (b : CMemBlock) (stack : ℕ → UInt8) (io : Sendto)
    (hU : U → 1 ≤ b.get64 0 ∧ b.get64 0 ≤ M) : Report M U s (do
      let (ret, t) ← recvepHandleOdata s b
      if ret = .odataReady then Recvep.drain stack io (drainFuel t) t else pure t) := by
  rcases odata_moves (M := M) (s := s) b with ⟨f, hf⟩ | ⟨ret, t, heq, h1, h2, h3⟩
  · exact report_abort (by rw [hf, Eff.abort_bind])
  rw [heq, Eff.pure_bind]
  by_cases hr : ret = .odataReady
  · simp only [if_pos hr]
    obtain ⟨d1, d2, d3⟩ := drain_held stack io (drainFuel t) t
    have hafter : ∀ u, (Recvep.drain stack io (drainFuel t) t).res = .ok u →
        after s (Recvep.drain stack io (drainFuel t) t) = u := fun u hu => by
      unfold after; rw [hu]
    have herr : ∀ f, (Recvep.drain stack io (drainFuel t) t).res = .error f →
        after s (Recvep.drain stack io (drainFuel t) t) = s := fun f hf => by
      unfold after; rw [hf]
    rcases hres : (Recvep.drain stack io (drainFuel t) t).res with f | u
    · refine ⟨by rw [herr f hres], by rw [herr f hres], fun _ h _ => ?_, fun _ _ _ _ a d hmem => ?_⟩
      · rw [herr f hres]; exact ⟨h, Nat.le_refl _⟩
      · rw [d3 f hres] at hmem; cases hmem
    · have hheld := d1 u hres
      refine ⟨?_, ?_, fun hu h hM => ?_, fun hu h hM hid a d hmem => ?_⟩
      · rw [hafter u hres, hheld.epid, h1]
      · rw [hafter u hres, hheld.senderId, h2]
      · obtain ⟨k1, k2⟩ := h3 h hM (hU hu).1 (hU hu).2
        rw [hafter u hres, hheld.latest]
        exact ⟨hheld.tame k1, k2⟩
      · obtain ⟨k1, -⟩ := h3 h hM (hU hu).1 (hU hu).2
        obtain ⟨d', hd', hc⟩ := d2 a d (mem_sends.mp hmem)
        cases hd'
        have := control_says k1 hM (by rw [h1]; exact hid) hc
        rw [hafter u hres]
        unfold Says at this ⊢
        rwa [hheld.epid, hheld.latest]
  · simp only [if_neg hr]
    exact ⟨h1, h2, fun hu h hM => h3 h hM (hU hu).1 (hU hu).2,
      fun _ _ _ _ a d hmem => by cases hmem⟩

theorem Report.of_eq {x : Eff Ev Fault RecvSock} (h : Report M U t x) (h1 : t.epid = s.epid)
    (h2 : t.senderId = s.senderId) (h3 : t.latestRecvedValidSeqNo = s.latestRecvedValidSeqNo)
    (h4 : t.unvalidPkgBegin = s.unvalidPkgBegin) (h5 : t.unvalidPkgEnd = s.unvalidPkgEnd) :
    Report M U s x := by
  have htame : Tame M s → Tame M t := fun hs => ⟨h3 ▸ hs.1, h4 ▸ hs.2, h5 ▸ hs.3⟩
  rcases hres : x.res with f | u
  · have hs : after s x = s := by unfold after; rw [hres]
    have ht : after t x = t := by unfold after; rw [hres]
    refine ⟨by rw [hs], by rw [hs], fun _ hts _ => by rw [hs]; exact ⟨hts, Nat.le_refl _⟩,
      fun hU hts hM hid a d hmem => ?_⟩
    have := h.tells hU (htame hts) hM (by rw [h1]; exact hid) a d hmem
    rw [ht] at this
    rw [hs]
    unfold Says at this ⊢
    rwa [h1, h3] at this
  · have hs : after s x = u := by unfold after; rw [hres]
    have ht : after t x = u := by unfold after; rw [hres]
    refine ⟨?_, ?_, fun hU hts hM => ?_, fun hU hts hM hid a d hmem => ?_⟩
    · rw [hs, ← ht, h.epid, h1]
    · rw [hs, ← ht, h.senderId, h2]
    · rw [hs, ← ht, ← h3]; exact h.tame hU (htame hts) hM
    · rw [hs, ← ht]; exact h.tells hU (htame hts) hM (by rw [h1]; exact hid) a d hmem

theorem report_hb (b : CMemBlock) (stack : ℕ → UInt8) (io ioAck : Sendto) (hU : U → b.get64 0 ≤ M) :
    Report M U s (do
      let (ret, t) ← recvepHandleHb s b stack io
      if ret = .odataReady then Recvep.drain stack ioAck (drainFuel t) t else pure t) := by
  obtain ⟨ret, hret, hres, hevs⟩ := handleHb_eq (s := s) b stack io
  rw [Eff.bind_of_ok hres]
  simp only [if_neg hret]
  refine ⟨rfl, rfl, fun _ h _ => ⟨⟨h.1, h.2, h.3⟩, Nat.le_refl _⟩, fun hu h hM hid a d hmem => ?_⟩
  simp only [Eff.pure_evs, List.append_nil] at hmem
  obtain ⟨hlt, heq⟩ := hevs _ (mem_sends.mp hmem)
  cases heq
  have hle := hU hu
  have hu' : u64 (s.latestRecvedValidSeqNo + 1) = s.latestRecvedValidSeqNo + 1 :=
    u64_of_lt (by omega)
  rw [hu']
  exact Or.inr ⟨_, _, isNak_nakBytes stack (by omega) (by omega) hid, by omega, by omega, hle⟩

/-- The datagram that arrives, if one does, speaks of packets up to `M`. -/
def UpTo (M : ℕ) : RecvAct → Prop
  | .input (.dgram _ d) _ _ _ _ => word 0 d ≤ M
  | _ => True

theorem report_quiet {F : Fault → Prop} {x : Eff Ev Fault RecvSock} (h : Quiet s F x) :
    Report M U s x :=
  report_held (fun t ht => held_of_same (h.ok t ht)) fun _ _ hmem => h.evs _ hmem

/-- **What a call tells.** With datagrams of an honest sender, the counters stay at most `M` if the
datagrams do, and every ack and NAK sent is for these. -/
theorem exec_report {a : RecvAct} (hon : Honest sid pay a) (hs : s.senderId = sid) :
    Report M (UpTo M a) s (a.exec s) := by
  rcases a with ⟨r, fresh, stack, io, ioAck⟩ | ⟨stack, io⟩ | ⟨now, stack, ioAck, ioNak⟩
  · rw [exec_input]
    by_cases hr : ∀ src d, r ≠ .dgram src d
    · unfold recvepHandleCanRecv
      rcases takeMem_cases s.pMem fresh with ⟨hm, -⟩ | ⟨b, hm, -, -⟩
      · exact report_abort (by rw [hm, Eff.abort_bind, Eff.abort_bind])
      rw [hm, Eff.pure_bind]
      rcases udpRecv_noDgram b hr with hf | ⟨ret, h1, h2, h3⟩
      · exact report_abort (by rw [hf, Eff.abort_bind, Eff.abort_bind])
      · rw [h3, Eff.pure_bind]
        simp only [ne_eq, h1, not_false_eq_true, if_true, Eff.pure_bind, if_neg h2]
        refine report_held (fun t ht => ?_) fun a d hmem => ?_
        · cases ht; exact ⟨rfl, rfl, rfl, rfl, rfl, rfl⟩
        · cases hmem
    simp only [not_forall, not_not] at hr
    obtain ⟨src, d, rfl⟩ := hr
    rcases hon with ⟨q, hq1, -, hd⟩ | ⟨l, o, hd⟩
    · have hlen := hd.len
      have hne : d ≠ [] := fun e => by rw [e] at hlen; cases hlen
      rcases handleCanRecv_dgram s fresh stack io src hne hd.fits with ⟨hm, -⟩ | ⟨b, hb, heq⟩
      · exact report_abort (by rw [hm, Eff.abort_bind])
      obtain ⟨t, ⟨ad, rfl⟩, ht⟩ := handlePkg_odata (s := { s with pMem := some b }) hb hd hs
        src stack io
      have hw : (b.decHeadData 8).get64 0 = word 0 d := hb.get64 0 (by omega)
      rw [heq, ht]
      refine Report.of_eq (report_odata (b.decHeadData 8) stack ioAck fun hu => ?_)
        rfl rfl rfl rfl rfl
      rw [hw]
      exact ⟨by rw [hd.seq]; exact hq1, hu⟩
    · have hlen := hd.len
      have hne : d ≠ [] := fun e => by rw [e] at hlen; cases hlen
      rcases handleCanRecv_dgram s fresh stack io src hne
        (by rw [hlen]; decide) with ⟨hm, -⟩ | ⟨b, hb, heq⟩
      · exact report_abort (by rw [hm, Eff.abort_bind])
      obtain ⟨t, ⟨ad, rfl⟩, ht⟩ := handlePkg_hb (s := { s with pMem := some b }) hb hd hs
        src stack io
      have hw : (b.decHeadData 8).get64 0 = word 0 d := hb.get64 0 (by omega)
      rw [heq, ht]
      refine Report.of_eq (report_hb (b.decHeadData 8) stack io ioAck fun hu => ?_)
        rfl rfl rfl rfl rfl
      rw [hw]; exact hu
  · obtain ⟨h1, h2, -⟩ := drain_held stack io (drainFuel s) s
    exact report_held h1 h2
  · exact report_quiet (timer_quiet s now stack ioAck ioNak)

end SmartNet.Network.Rmp.Feedback
