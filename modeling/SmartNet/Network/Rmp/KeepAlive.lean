import SmartNet.Network.Rmp.SenderLife

/-! # Receivers that are waited for

The head of the send window is raised to the smallest number acknowledged by an entry of the
receiver table that has not expired. If every receiver has an entry of its own, this is at most what
each receiver has of which the sender heard lately.

* `Heard m id t`: the entry of `id` was touched at time `t` or later;
* `TableInv`: the table tells the truth about the receivers;
* `none_given_up`: no packet is given up that a receiver heard of lately still needs, in runs with
  pairwise different ids;
* `given_up`: two receivers bound to 0.0.0.0 share an entry, and a packet is given up that one of
  them needs. -/

namespace SmartNet.Network.Rmp.KeepAlive

open SmartNet.Common SmartNet.Lib SmartNet.Lib.Run SmartNet.Network.Udp SmartNet.Network.Rmp.Wire
open SmartNet.Network.Rmp.Recvep SmartNet.Network.Rmp.Reorder SmartNet.Network.Rmp.RecvRun
open SmartNet.Network.Rmp.Feedback SmartNet.Network.Rmp.Delivery SmartNet.Network.Rmp.Sendep
open SmartNet.Network.Rmp.SendWin SmartNet.Network.Rmp.SendCalls SmartNet.Network.Rmp.SendRun
open SmartNet.Network.Rmp.Multicast SmartNet.Network.Rmp.SenderLife

/-! ### Entries of the receiver table -/

/-- The table has an entry of `id` that was touched at time `t` or later. -/
def Heard (m : RecverMap) (id t : ℕ) : Prop := ∃ e ∈ m, e.1 = id ∧ t ≤ e.2.lastUpdateTimeUs

variable {m : RecverMap} {id id' t now : ℕ} {s u : SendSock} {d : List UInt8}

theorem Heard.at {f : SRecverInfo → SRecverInfo} (h : Heard m id t)
    (hf : ∀ i : SRecverInfo, t ≤ i.lastUpdateTimeUs → t ≤ (f i).lastUpdateTimeUs) (id' : ℕ) :
    Heard (RecverMap.at id' f m) id t := by
  obtain ⟨e, he, rfl, ht⟩ := h
  rcases at_keeps f id' he with hm | ⟨rfl, hm⟩
  · exact ⟨e, hm, rfl, ht⟩
  · exact ⟨_, hm, rfl, hf _ ht⟩

theorem heard_at {f : SRecverInfo → SRecverInfo} (hf : ∀ i, t ≤ (f i).lastUpdateTimeUs) (id : ℕ)
    (m : RecverMap) :
    Heard (RecverMap.at id f m) id t := by
  obtain ⟨i, hi⟩ := at_has f id m
  exact ⟨_, hi, rfl, hf i⟩

theorem Heard.table (h : Heard s.mapRecvers id t) (id' : ℕ) : Heard (s.table id') id t := by
  obtain ⟨e, he, hid, ht⟩ := h
  exact ⟨e, mem_table he id', hid, ht⟩

theorem Heard.ackTable (h : Heard m id t) (ht : t ≤ now) (seq id' : ℕ) :
    Heard (SendCalls.ackTable seq id' now m) id t := by
  have h1 : Heard (RecverMap.at id' (fun i => { i with lastUpdateTimeUs := now }) m) id t :=
    h.at (fun _ _ => ht) id'
  refine h1.at (fun i hi => ?_) id'
  exact hi

theorem heard_ackTable (seq id now : ℕ) (m : RecverMap) :
    Heard (SendCalls.ackTable seq id now m) id now := by
  have h1 : Heard (RecverMap.at id (fun i => { i with lastUpdateTimeUs := now }) m) id now :=
    heard_at (fun _ => Nat.le_refl now) id m
  refine h1.at (fun i hi => ?_) id
  exact hi

/-- No entry is of the future. -/
def Past (now : ℕ) (m : RecverMap) : Prop := ∀ e ∈ m, e.2.lastUpdateTimeUs ≤ now

theorem Past.table (h : Past now s.mapRecvers) (id : ℕ) : Past now (s.table id) :=
  forall_table (Q := fun e => e.2.lastUpdateTimeUs ≤ now) h (Nat.zero_le now)

theorem Past.touch (h : Past now m) (id : ℕ) :
    Past now (RecverMap.at id (fun i => { i with lastUpdateTimeUs := now }) m) :=
  forall_at (Q := fun e => e.2.lastUpdateTimeUs ≤ now) h (Nat.zero_le now) fun _ _ =>
    Nat.le_refl now

theorem Past.nakTable (h : Past now m) (id : ℕ) : Past now (nakTable id now m) :=
  forall_at (Q := fun e => e.2.lastUpdateTimeUs ≤ now) h (Nat.zero_le now) fun _ _ =>
    Nat.le_refl now

theorem Past.ackTable (h : Past now m) (seq id : ℕ) : Past now (ackTable seq id now m) :=
  forall_at (Q := fun e => e.2.lastUpdateTimeUs ≤ now) (h.touch id) (Nat.zero_le now) fun _ hi => hi

theorem live_of_heard {alive : ℕ} {e : ℕ × SRecverInfo} (hnow : now < 2 ^ 64)
    (hpast : e.2.lastUpdateTimeUs ≤ now)
    (ht : t ≤ e.2.lastUpdateTimeUs) (hlate : now ≤ t + alive) : Live now alive e := by
  unfold Live
  rw [sub64_of_le hnow hpast]
  omega

theorem Heard.filter {alive : ℕ} (h : Heard m id t) (hnow : now < 2 ^ 64) (hpast : Past now m)
    (hlate : now ≤ t + alive) : Heard (m.filter fun e => Live now alive e) id t := by
  obtain ⟨e, he, hid, ht⟩ := h
  have hlive : Live now alive e := live_of_heard hnow (hpast e he) ht hlate
  exact ⟨e, List.mem_filter.mpr ⟨he, by simpa using hlive⟩, hid, ht⟩

/-! ### What a call does to the table -/

/-- The datagram is of the receiver `id`. -/
def Tells (d : List UInt8) (id : ℕ) : Prop := (∃ seq, IsAck seq id d) ∨ ∃ b e, IsNak b e id d

theorem Tells.unique (h : Tells d id) (h' : Tells d id') : id = id' := by
  have hne : epAck ≠ epNak := by decide
  rcases h with ⟨seq, h⟩ | ⟨b, e, h⟩
  · rcases h' with ⟨seq', h'⟩ | ⟨b', e', h'⟩
    · exact h.id.symm.trans h'.id
    · exact absurd (h.op.symm.trans h'.op) hne
  · rcases h' with ⟨seq', h'⟩ | ⟨b', e', h'⟩
    · exact absurd (h'.op.symm.trans h.op) hne
    · exact h.id.symm.trans h'.id

variable {src : SockAddr} {fresh : ℕ → UInt8} {sent : ℕ → Bool}

theorem takes_past (h : Takes s u (.input (.dgram src d) now fresh sent))
    (hpast : Past now s.mapRecvers) :
    Past now u.mapRecvers := by
  rcases h with ⟨-, id, ⟨-, hu⟩ | ⟨-, hu⟩⟩ | ⟨seq, id, -, -, hu⟩
  · rw [hu]; exact (hpast.table id).nakTable id
  · rw [hu]; exact (hpast.table id).touch id
  · rw [hu.table]
    exact fun e he => (hpast.table id).ackTable seq id e (List.mem_of_mem_filter he)

theorem takes_heard (h : Takes s u (.input (.dgram src d) now fresh sent))
    (hpast : Past now s.mapRecvers) (hnow : now < 2 ^ 64) (ht : t ≤ now)
    (hlate : now ≤ t + s.maxKeepAliveTimeUs)
    (hh : Heard s.mapRecvers id t) : Heard u.mapRecvers id t := by
  rcases h with ⟨-, id', ⟨-, hu⟩ | ⟨-, hu⟩⟩ | ⟨seq, id', -, -, hu⟩
  · rw [hu]; exact (hh.table id').at (fun _ _ => ht) id'
  · rw [hu]; exact (hh.table id').at (fun _ _ => ht) id'
  · rw [hu.table]
    have hpast' := (hpast.table id').ackTable seq id'
    exact ((hh.table id').ackTable ht seq id').filter hnow hpast' hlate

theorem takes_tells (h : Takes s u (.input (.dgram src d) now fresh sent))
    (hpast : Past now s.mapRecvers)
    (hnow : now < 2 ^ 64) (hd : Tells d id) : Heard u.mapRecvers id now := by
  rcases h with ⟨-, id', ⟨⟨b, e, hd'⟩, hu⟩ | ⟨⟨seq, hd'⟩, hu⟩⟩ | ⟨seq, id', hd', -, hu⟩
  · rw [hu, hd.unique (Or.inr ⟨b, e, hd'⟩)]
    exact heard_at (fun _ => Nat.le_refl now) id' _
  · rw [hu, hd.unique (Or.inl ⟨seq, hd'⟩)]
    exact heard_at (fun _ => Nat.le_refl now) id' _
  · rw [hu.table, hd.unique (Or.inl ⟨seq, hd'⟩)]
    exact (heard_ackTable seq id' now _).filter hnow ((hpast.table id').ackTable seq id')
      (Nat.le_add_right _ _)

theorem takes_perm {a : SendAct} (h : Takes s u a)
    (hno : ∀ src d now fresh sent, a ≠ .input (.dgram src d) now fresh sent) :
    u.mapRecvers.Perm s.mapRecvers := by
  rcases a with b | ⟨now, stack, io⟩ | ⟨⟨src, d⟩ | _ | _ | _, now, fresh, sent⟩ | ⟨m, place⟩
  case input.dgram => exact absurd rfl (hno src d now fresh sent)
  all_goals exact h.2

/-- A call that raises the head handles an ack, and raises it to what every entry that is left
has. -/
theorem takes_raise {a : SendAct} (h : Takes s u a)
    (hlt : s.validSendingDataHead < u.validSendingDataHead) :
    ∀ e ∈ u.mapRecvers, u.validSendingDataHead ≤ e.2.lastRecvedSeqNo + 1 := by
  rcases a with b | ⟨now, stack, io⟩ | ⟨⟨src, d⟩ | _ | _ | _, now, fresh, sent⟩ | ⟨m, place⟩
  case input.dgram =>
    rcases h with ⟨h, -⟩ | ⟨seq, id, -, -, h⟩
    · omega
    · rcases h.head with h0 | ⟨mini, hh, -, -, hall⟩
      · omega
      · intro e he
        have hmini := hall e he
        have hmod : u64 (mini + 1) ≤ mini + 1 := Nat.mod_le _ _
        omega
  all_goals
    have := h.1
    omega

/-! ### The table and the receivers -/

variable {ι : Type} {w : World ι} {a : WorldAct ι} {strict : Bool}

/-- The table tells the truth: no entry claims more than its receiver has, and who was heard of
lately has an entry. -/
structure TableInv (w : World ι) : Prop where
  ids : ∀ i j, (w.recver i).sock.epid = (w.recver j).sock.epid → i = j
  credited : Credited (fun id n => ∀ i, (w.recver i).sock.epid = id →
    n ≤ (w.recver i).sock.latestRecvedValidSeqNo) w.sender.sock.mapRecvers
  past : Past w.clock w.sender.sock.mapRecvers
  heardPast : ∀ p ∈ w.heard, p.2 ≤ w.clock
  heard : w.sender.fault = none → ∀ p ∈ w.heard, w.clock ≤ p.2 + w.sender.sock.maxKeepAliveTimeUs →
    Heard w.sender.sock.mapRecvers (w.recver p.1).sock.epid p.2
  sound : ∀ i, Sound (payOf w.sender.accepted) (unorderedPkgsCnt + 2) (w.recver i)

/-- The sender's clock does not go back. -/
def Ticks (w : World ι) (a : WorldAct ι) : Prop := w.clock ≤ a.time w ∧ a.time w < 2 ^ 64

instance (w : World ι) (a : WorldAct ι) : Decidable (Ticks w a) :=
  inferInstanceAs (Decidable (_ ∧ _))

/-- A packet that opens an empty reorder buffer is at most `__UNORDERED_PKGS_CNT__ + 2` above what
the receiver has. -/
def OpensClose (w : World ι) (a : WorldAct ι) : Prop :=
  ∀ i c q, a.call w = .inr (i, c) → c.number = some q → (w.recver i).sock.unvalidPkgBegin = 0 →
    q ≤ (w.recver i).sock.latestRecvedValidSeqNo + (unorderedPkgsCnt + 2)

theorem ack_true (h : WorldInv w)
    (hids : ∀ i j, (w.recver i).sock.epid = (w.recver j).sock.epid → i = j) {src : SockAddr}
    {d : List UInt8} {now : ℕ} {fresh : ℕ → UInt8} {sent : ℕ → Bool}
    (hc : a.call w = .inl (.input (.dgram src d) now fresh sent)) {seq id : ℕ}
    (hd : IsAck seq id d) :
    ∀ i, (w.recver i).sock.epid = id → seq ≤ (w.recver i).sock.latestRecvedValidSeqNo := by
  intro i hi
  obtain ⟨j, -, -, hs⟩ := feed_source h hc
  rcases hs with ⟨q, hq, -, hle⟩ | ⟨b, e, hn, -⟩
  · have hseq : seq = q := hd.seq.symm.trans hq.seq
    have hid : id = (w.recver j).sock.epid := hd.id.symm.trans hq.id
    rw [hids i j (hi.trans hid), hseq]
    exact hle
  · exact absurd (hd.op.symm.trans hn.op) (by decide)

theorem says_tells {M : ℕ} {r : RecvSock} {d : List UInt8} (h : Says M r d) : Tells d r.epid := by
  rcases h with ⟨q, hq, -⟩ | ⟨b, e, hn, -⟩
  · exact Or.inl ⟨q, hq⟩
  · exact Or.inr ⟨b, e, hn⟩

/-- **The table after a call** has the receivers heard of lately, the one whose datagram was handled
included. -/
theorem moved_table (h : WorldInv w) (ht : TableInv w) {c : SendAct} (hc : a.call w = .inl c)
    (hticks : Ticks w a) (hf : w.sender.fault = none) {t : SendSock} {l : List (List UInt8)}
    (hmv : Moved w.sender.accepted w.sender.sock c t l) :
    Past (a.time w) t.mapRecvers ∧ ∀ p ∈ (a.hears w).toList ++ w.heard,
      a.time w ≤ p.2 + w.sender.sock.maxKeepAliveTimeUs → Heard t.mapRecvers
        (w.recver p.1).sock.epid p.2 := by
  obtain ⟨hle, hnow⟩ := hticks
  have hpast : Past (a.time w) w.sender.sock.mapRecvers :=
    fun e he => Nat.le_trans (ht.past e he) hle
  have hold : ∀ p ∈ w.heard, a.time w ≤ p.2 + w.sender.sock.maxKeepAliveTimeUs →
      Heard w.sender.sock.mapRecvers (w.recver p.1).sock.epid p.2 := fun p hp hlate =>
    ht.heard hf p hp (Nat.le_trans hle hlate)
  by_cases hdg : ∃ src d now fresh sent, c = .input (.dgram src d) now fresh sent
  · obtain ⟨src, d, now, fresh, sent, rfl⟩ := hdg
    obtain ⟨i, hhears, htime, hs⟩ := feed_source h hc
    rw [htime] at hle hnow hpast hold ⊢
    refine ⟨takes_past hmv.takes hpast, fun p hp hlate => ?_⟩
    rw [hhears] at hp
    rcases List.mem_cons.mp hp with rfl | hp
    · exact takes_tells hmv.takes hpast hnow (says_tells hs)
    · have hp2 : p.2 ≤ now := Nat.le_trans (ht.heardPast p hp) hle
      exact takes_heard hmv.takes hpast hnow hp2 hlate (hold p hp hlate)
  · have hno : ∀ src d now fresh sent, c ≠ .input (.dgram src d) now fresh sent :=
      fun src d now fresh sent he => hdg ⟨src, d, now, fresh, sent, he⟩
    have hperm := takes_perm hmv.takes hno
    rw [hears_none hc hno]
    refine ⟨fun e he => hpast e (hperm.subset he), fun p hp hlate => ?_⟩
    obtain ⟨e, he, hid, hte⟩ := hold p hp hlate
    exact ⟨e, hperm.symm.subset he, hid, hte⟩

theorem table_init (mc : SockAddr) (sid : UInt8) (alive speed hb : ℕ) (cnt : ι → ℕ)
    {bound : ι → SockAddr} (hids : ∀ i j, epidOf (bound i) = epidOf (bound j) → i = j) :
    TableInv (Multicast.init mc sid alive speed hb cnt bound) := by
  refine ⟨hids, fun e he => ?_, fun e he => ?_, fun p hp => ?_, fun _ p hp => ?_,
    fun i => sound_init sid (cnt i) (bound i)⟩
  · cases he
  · cases he
  · cases hp
  · cases hp

variable [DecidableEq ι]

/-- If the step raises the head, every receiver heard of in the keep-alive time was handed, in
order, all packets below it. -/
def Kept (strict : Bool) (w : World ι) (a : WorldAct ι) : Prop :=
  let w' := Multicast.step strict w a
  w.sender.sock.validSendingDataHead < w'.sender.sock.validSendingDataHead →
    ∀ p ∈ w'.heard, w'.clock ≤ p.2 + w'.sender.sock.maxKeepAliveTimeUs →
      ∃ L, w'.sender.sock.validSendingDataHead ≤ L + 1 ∧
        (w'.recver p.1).delivered = payloads (payOf w'.sender.accepted) L

theorem sender_table (h : WorldInv w) (ht : TableInv w) {c : SendAct} (hc : a.call w = .inl c)
    (hticks : Ticks w a) : TableInv (Multicast.step strict w a) ∧ Kept strict w a := by
  have hle := hticks.1
  have hsend := h.window.sending_le
  have hheardPast : ∀ p ∈ (a.hears w).toList ++ w.heard, p.2 ≤ a.time w := by
    intro p hp
    rcases List.mem_append.mp hp with hp | hp
    · exact hears_time (Option.mem_toList.mp hp)
    · exact Nat.le_trans (ht.heardPast p hp) hle
  have hpast : Past (a.time w) w.sender.sock.mapRecvers :=
    fun e he => Nat.le_trans (ht.past e he) hle
  unfold Kept
  rw [step_of_sender hc]
  unfold onSender
  rcases step_cases strict h.window (feed_of_inv h hc) with
    ⟨hdead, hst, -⟩ | ⟨-, f, -, hst, -⟩ | ⟨hf, t, l, -, hst, hmv, -⟩
  · rw [hst]
    refine ⟨⟨ht.ids, ht.credited, hpast, hheardPast, fun hf => absurd hf hdead, ht.sound⟩,
      fun hlt => ?_⟩
    exact absurd hlt (Nat.lt_irrefl _)
  · rw [hst]
    refine ⟨⟨ht.ids, ht.credited, hpast, hheardPast, fun hf => ?_, ht.sound⟩, fun hlt => ?_⟩
    · cases hf
    · exact absurd hlt (Nat.lt_irrefl _)
  · rw [hst]
    obtain ⟨hpast', hheard⟩ := moved_table h ht hc hticks hf hmv
    have hcred : Credited (fun id n => ∀ i, (w.recver i).sock.epid = id →
        n ≤ (w.recver i).sock.latestRecvedValidSeqNo) t.mapRecvers := by
      refine hmv.takes.credited (fun id i _ => Nat.zero_le _) ht.credited ?_
      rintro src d now fresh sent rfl seq id hd
      exact ack_true h ht.ids hc hd
    have hsound : ∀ i, Sound (payOf (w.sender.accepted ++ l)) (unorderedPkgsCnt + 2)
      (w.recver i) := by
      intro i
      refine (ht.sound i).congr fun q hq => ?_
      have hseen := h.seen i q hq
      exact payOf_append hseen.1 (by omega)
    refine ⟨⟨ht.ids, hcred, hpast', hheardPast, fun _ p hp hlate => ?_, hsound⟩,
      fun hlt p hp hlate => ?_⟩
    · rw [hmv.maxKeepAliveTimeUs] at hlate
      exact hheard p hp hlate
    · rw [hmv.maxKeepAliveTimeUs] at hlate
      obtain ⟨e, he, hid, -⟩ := hheard p hp hlate
      obtain ⟨L, hL, -, hdel⟩ := (hsound p.1).handed
      have hraise := takes_raise hmv.takes hlt e he
      have hhas := hcred e he p.1 hid.symm
      exact ⟨L, by show t.validSendingDataHead ≤ L + 1; omega, hdel⟩

theorem recver_table (h : WorldInv w) (ht : TableInv w) {i : ι} {c : RecvAct}
    (hc : a.call w = .inr (i, c))
    (hclose : OpensClose w a) : TableInv (Multicast.step strict w a) ∧ Kept strict w a := by
  obtain ⟨hon, hup⟩ := honest_of_inv h hc
  obtain ⟨hears, htime⟩ := recver_quiet hc
  have hlt := h.window.sending_lt
  have hle := h.window.sending_le
  obtain ⟨-, hmono, -, -⟩ := recver_step hon (h.senderId i) hup (h.tame i) hlt (h.epid i)
  have hself := onRecver_self w i c
  have hother : ∀ j, j ≠ i → (onRecver w i c).recver j = w.recver j :=
    fun j hj => onRecver_ne w hj c
  have hid : ∀ j, ((onRecver w i c).recver j).sock.epid = (w.recver j).sock.epid := by
    intro j
    rcases eq_or_ne j i with rfl | hj
    · rw [hself]
      exact (step_ids hon (h.senderId j)).2
    · rw [hother j hj]
  have hlat : ∀ j, (w.recver j).sock.latestRecvedValidSeqNo ≤
      ((onRecver w i c).recver j).sock.latestRecvedValidSeqNo := by
    intro j
    rcases eq_or_ne j i with rfl | hj
    · rw [hself]; exact hmono
    · rw [hother j hj]
  have hnear : (w.recver i).fault = none →
      Near (payOf w.sender.accepted) (unorderedPkgsCnt + 2) {q | q ∈ (w.recver i).seen}
        (w.recver i).sock c := by
    intro hf q hq
    obtain ⟨h1, h2⟩ := number_bounds hon hup hq
    refine ⟨fun hW => ?_, fun _ => ⟨by omega, payOf_ne_nil h.filled h1 (by omega)⟩⟩
    exact hclose i c q hc hq (((ht.sound i).alive hf).1.buf.begin_zero_iff.mpr hW)
  rw [step_of_recver hc, hears, htime]
  refine ⟨⟨fun j k hjk => ?_, fun e he j hj => ?_, ht.past, ht.heardPast, fun hf p hp hlate => ?_,
    fun j => ?_⟩, ?_⟩
  · rw [show ((onRecver w i c).recver j).sock.epid = _ from hid j,
      show ((onRecver w i c).recver k).sock.epid = _ from hid k] at hjk
    exact ht.ids j k hjk
  · rw [show ((onRecver w i c).recver j).sock.epid = _ from hid j] at hj
    exact Nat.le_trans (ht.credited e he j hj) (hlat j)
  · show Heard w.sender.sock.mapRecvers ((onRecver w i c).recver p.1).sock.epid p.2
    rw [hid p.1]
    exact ht.heard hf p hp hlate
  · show Sound _ _ ((onRecver w i c).recver j)
    rcases eq_or_ne j i with rfl | hj
    · rw [hself]
      exact (step_sound (ht.sound j) (by omega) (h.senderId j) hon hnear).1
    · rw [hother j hj]; exact ht.sound j
  · unfold Kept
    rw [step_of_recver hc]
    exact fun hraise => absurd hraise (Nat.lt_irrefl _)

/-- **No packet is given up** that a receiver heard of in the keep-alive time still needs, if the
receivers have ids of their own and none of them opens its reorder buffer too far above what it
has. -/
theorem none_given_up (strict : Bool) (mc : SockAddr) (sid : UInt8) (alive speed hb : ℕ)
    (cnt : ι → ℕ) (bound : ι → SockAddr) (as : List (WorldAct ι))
    (hids : ∀ i j, epidOf (bound i) = epidOf (bound j) → i = j)
    (hfew : Few (run (Multicast.step strict) (Multicast.init mc sid alive speed hb cnt bound) as))
    (hrun : Meets (Multicast.step strict) (fun w a => Ticks w a ∧ OpensClose w a)
      (Multicast.init mc sid alive speed hb cnt bound) as) :
    Meets (Multicast.step strict) (Kept strict)
      (Multicast.init mc sid alive speed hb cnt bound) as := by
  refine (run_inv_meets (I := fun w => WorldInv w ∧ TableInv w) (D := Kept strict) few_step ?_
    ⟨inv_init mc sid alive speed hb cnt bound, table_init mc sid alive speed hb cnt hids⟩
      hrun hfew).2
  intro w a hI hC hB
  have hstep : TableInv (Multicast.step strict w a) ∧ Kept strict w a := by
    rcases hc : a.call w with c | ⟨i, c⟩
    · exact sender_table hI.1 hI.2 hc hC.1
    · exact recver_table hI.1 hI.2 hc hC.2
  exact ⟨⟨step_inv w a hI.1 hB, hstep.1⟩, hstep.2⟩

/-- A datagram arrives at receiver `i`. -/
def arriveAt (i : Bool) (k : ℕ) : WorldAct Bool :=
  .recv i (.packet k ⟨1, 1⟩) (fun _ => 0) (fun _ => 0) .sent .sent

/-- A datagram arrives at the sender. -/
def feedBack (k now : ℕ) : WorldAct Bool := .feed (.packet k ⟨1, 2⟩) now (fun _ => 0) fun _ => true

/-- Two receivers, bound to `bound`. -/
def pair (bound : Bool → SockAddr) : World Bool :=
  Multicast.init ⟨1, 1⟩ 7 1000000 0 0 (fun _ => 1) bound

/-- Packet 1 is accepted and sent, reaches one receiver and is acknowledged. -/
def oneAcked : List (WorldAct Bool) :=
  [.send OneRecver.byteBlock, .canSend 0 (fun _ => 0) .sent, arriveAt false 0, feedBack 0 5]

theorem none_given_up_pair :
    Meets (Multicast.step true) (Kept true) (pair fun i => ⟨cond i 3 4, 2⟩) oneAcked := by
  refine none_given_up true ⟨1, 1⟩ 7 1000000 0 0 (fun _ => 1)
    (fun i => ⟨cond i 3 4, 2⟩) oneAcked (by decide)
    (by unfold Few; decide) ⟨⟨by decide, ?_⟩, ⟨by decide, ?_⟩, ⟨by decide, ?_⟩,
      ⟨by decide, ?_⟩, trivial⟩
  · rintro i c q hc
    cases hc
  · rintro i c q hc
    cases hc
  · rintro i c q hc hq -
    cases hc
    have h1 : q = 1 := Option.some.inj (hq.symm.trans (by decide))
    rw [h1]
    exact Nat.le_add_left 1 _
  · rintro i c q hc
    cases hc

/-- Both receivers are bound to 0.0.0.0 and so have one id. One has packet 1 only, the other packets
1 and 2; the ack of the second raises the head to packet 3, although the first was heard at the same
time. -/
theorem given_up :
    ¬ Meets (Multicast.step true) (Kept true) (pair fun _ => ⟨0, 2⟩)
      [.send OneRecver.byteBlock, .send OneRecver.byteBlock, .canSend 0 (fun _ => 0) .sent,
        .canSend 0 (fun _ => 0) .sent, arriveAt true 0, feedBack 0 0, arriveAt false 0,
          arriveAt false 1,
        feedBack 2 0] := by
  rintro ⟨-, -, -, -, -, -, -, -, hkept, -⟩
  obtain ⟨L, hL, hdel⟩ := hkept (by decide) (true, 0) (by decide) (by decide)
  have hlen := congrArg List.length hdel
  unfold payloads at hlen
  rw [List.length_map, Frontier.length_numbers] at hlen
  revert hL
  rw [← hlen]
  decide

end SmartNet.Network.Rmp.KeepAlive
