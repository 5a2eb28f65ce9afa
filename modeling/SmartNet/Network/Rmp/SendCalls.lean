import SmartNet.Network.Rmp.SendWin

/-! # The calls of the sender

What each call of a sender does to the window, and what it sends.

* `canSend_cases`: `handle_can_send` sends the next packet or a heartbeat;
* `nak_cases`: `sendep_handle_nak` sends packets of the window again, or finds the request outside
  the window;
* `ack_cases`: `sendep_handle_ack` raises the head to what all receivers that are kept have, or
  finds the ack outside the window. -/

namespace SmartNet.Network.Rmp.SendCalls

open SmartNet.Common SmartNet.Lib SmartNet.Lib.Ring SmartNet.Memory.MemBlock SmartNet.Network.Udp
open SmartNet.Network.Rmp.Wire SmartNet.Network.Rmp.Sendep SmartNet.Network.Rmp.SendWin

variable {s t : SendSock} {accepted : List (List UInt8)} {B : ℕ} {m : RecverMap}

/-! ### `handle_can_send` -/

/-- The time for a heartbeat has come. -/
def HbTime (s : SendSock) (now : ℕ) : Prop :=
  s.hbInterval < sub64 now (if s.lastHbTime = 0 then now else s.lastHbTime)

/-- There is nothing to send, or too much is under way. -/
def Blocked (s : SendSock) : Prop :=
  sendWinSize / 10 < sub64 (u64 (s.sendingSeqNo + 1)) s.validSendingDataHead ∨
    u64 (s.sendingSeqNo + 1) = s.validSendingDataTail

/-- **The heartbeat**: none if the time has not come, and otherwise one that is asserted to go
out. -/
theorem sendepHb_eq (s : SendSock) (now : ℕ) (stack : ℕ → UInt8) (io : Sendto) : ∃ t,
    t = { s with lastHbTime := if s.lastHbTime = 0 then now else s.lastHbTime } ∧
      (¬ HbTime s now ∧ sendepHb s now stack io = pure t ∨
        HbTime s now ∧ io = .sent ∧ sendepHb s now stack io = ⟨[.sendto s.addrMulticast
          (hbBytes stack s.senderId s.sendingSeqNo s.validSendingDataHead)], .ok t⟩ ∨
        HbTime s now ∧ io ≠ .sent ∧ sendepHb s now stack io = Eff.abort .sendHb) := by
  set x := if s.lastHbTime = 0 then now else s.lastHbTime with hx
  have hstate : (if s.lastHbTime = 0 then { s with lastHbTime := now } else s) =
    { s with lastHbTime := x } := by
    rw [hx]
    split_ifs
    · rfl
    · rfl
  refine ⟨_, rfl, ?_⟩
  unfold sendepHb HbTime
  rw [hstate, ← hx]
  by_cases hdue : s.hbInterval < sub64 now x
  · simp only [if_pos hdue]
    right
    rcases io with _ | _ | _
    · exact Or.inl ⟨hdue, rfl, rfl⟩
    · exact Or.inr ⟨hdue, by decide, rfl⟩
    · exact Or.inr ⟨hdue, by decide, rfl⟩
  · simp only [if_neg hdue]
    exact Or.inl ⟨hdue, trivial⟩

/-- A heartbeat is asserted to go out; but for the time of the last one, nothing changes. -/
theorem hb_cases (s : SendSock) (now : ℕ) (stack : ℕ → UInt8) (io : Sendto) :
    HbTime s now ∧ io ≠ .sent ∧ sendepHb s now stack io = Eff.abort .sendHb ∨
      (HbTime s now → io = .sent) ∧
        ∃ x, (sendepHb s now stack io).res = .ok { s with lastHbTime := x } ∧
        ∀ a d, (a, d) ∈ sends (sendepHb s now stack io).evs →
          d = hbBytes stack s.senderId s.sendingSeqNo s.validSendingDataHead := by
  obtain ⟨t, rfl, ⟨hdue, heq⟩ | ⟨-, hio, heq⟩ | ⟨hdue, hio, heq⟩⟩ := sendepHb_eq s now stack io
  · rw [heq]
    exact Or.inr ⟨fun hd => absurd hd hdue, _, rfl, fun a d hmem => by cases hmem⟩
  · rw [heq]
    refine Or.inr ⟨fun _ => hio, _, rfl, fun a d hmem => ?_⟩
    have := List.mem_singleton.mp (mem_sends.mp hmem)
    cases this; rfl
  · exact Or.inl ⟨hdue, hio, heq⟩

theorem canSend_blocked (h : Blocked s) (now : ℕ) (stack : ℕ → UInt8) (io : Sendto) :
    sendepHandleCanSend s now stack io =
      (sendepHb s now stack io >>= fun s => pure (some .suc, s)) := if_pos h

theorem canSend_open (h : ¬ Blocked s) (now : ℕ) (stack : ℕ → UInt8) :
    (∃ f, ∀ io, sendepHandleCanSend s now stack io = Eff.abort f) ∨
      ∃ i c, s.vecSendWin i = some c ∧
        sendepHandleCanSend s now stack .sent = ⟨[.sendto s.addrMulticast c.data],
          .ok (none, { s with sendingSeqNo := u64 (s.sendingSeqNo + 1) })⟩ ∧
        sendepHandleCanSend s now stack .wouldBlock = pure (some .sendPending, s) ∧
        sendepHandleCanSend s now stack .err = pure (some .ioErr, s) := by
  have hopen : ∀ io, sendepHandleCanSend s now stack io = _ := fun io => if_neg h
  simp only [hopen]
  by_cases hreq : s.sendingSeqNo < s.validSendingDataTail
  · rw [Eff.require_pos hreq]
    rcases hc : s.vecSendWin (u64 (s.sendingSeqNo + 1) % sendWinSize) with _ | c
    · exact Or.inl ⟨.nullDeref, fun _ => rfl⟩
    · exact Or.inr ⟨_, c, hc, rfl, rfl, rfl⟩
  · rw [Eff.require_neg hreq]
    exact Or.inl ⟨.sendingSeqNo, fun _ => rfl⟩

/-- **One pass of `handle_can_send`**: a heartbeat when there is nothing to send or too much under
way, or the next packet; the assert fails only when the numbers have run out. -/
theorem canSend_cases (h : Slots accepted s) (now : ℕ) (stack : ℕ → UInt8) (io : Sendto) :
    Blocked s ∧
      sendepHandleCanSend s now stack io =
        (sendepHb s now stack io >>= fun s => pure (some .suc, s)) ∨
    ¬ Blocked s ∧
      (sendepHandleCanSend s now stack io = Eff.abort .sendingSeqNo ∧ accepted.length = 2 ^ 64 - 1 ∨
    s.sendingSeqNo + 1 ≤ accepted.length ∧ accepted.length < 2 ^ 64 - 1 ∧
      s.sendingSeqNo + 1 ≤ s.validSendingDataHead + sendWinSize / 10 ∧
      ∃ d, IsOdata s.senderId (s.sendingSeqNo + 1) (payOf accepted (s.sendingSeqNo + 1)) d ∧
        (io = .sent ∧ sendepHandleCanSend s now stack io =
            ⟨[.sendto s.addrMulticast d],
              .ok (none, { s with sendingSeqNo := s.sendingSeqNo + 1 })⟩ ∨
          io ≠ .sent ∧ ∃ ret, sendepHandleCanSend s now stack io = pure (some ret, s))) := by
  have h1 := h.sending_lt
  have h2 := h.head_le
  have h3 := h.sending_le
  have hu : u64 (s.sendingSeqNo + 1) = s.sendingSeqNo + 1 := u64_of_lt (by omega)
  have hsub : sub64 (s.sendingSeqNo + 1) s.validSendingDataHead =
      s.sendingSeqNo + 1 - s.validSendingDataHead := sub64_of_le (by omega) h2
  unfold sendepHandleCanSend Blocked
  rw [hu, hsub]
  by_cases hclosed : sendWinSize / 10 < s.sendingSeqNo + 1 - s.validSendingDataHead ∨
      s.sendingSeqNo + 1 = s.validSendingDataTail
  · rw [if_pos hclosed]
    exact Or.inl ⟨hclosed, rfl⟩
  refine Or.inr ⟨hclosed, ?_⟩
  rw [if_neg hclosed]
  have hne : s.sendingSeqNo + 1 ≠ s.validSendingDataTail := fun he => hclosed (Or.inr he)
  have hopen : s.sendingSeqNo + 1 ≤ s.validSendingDataHead + sendWinSize / 10 := by omega
  rcases Nat.lt_or_ge accepted.length (2 ^ 64 - 1) with hlt | hge
  · right
    have htail := h.tail_eq hlt
    have hreq : s.sendingSeqNo < s.validSendingDataTail := by omega
    obtain ⟨c, hc, hcd⟩ := h.held hlt (s.sendingSeqNo + 1) ⟨by omega, h2, by omega⟩
    refine ⟨by omega, hlt, hopen, c.data, hcd, ?_⟩
    rw [Eff.require_pos hreq, Eff.pure_bind, hc]
    cases io
    · exact Or.inl ⟨rfl, rfl⟩
    · exact Or.inr ⟨by decide, .sendPending, rfl⟩
    · exact Or.inr ⟨by decide, .ioErr, rfl⟩
  · left
    have heq : accepted.length = 2 ^ 64 - 1 := by have := h.lt; omega
    have htail := h.tail_zero heq
    have hreq : ¬ s.sendingSeqNo < s.validSendingDataTail := by omega
    rw [Eff.require_neg hreq, Eff.abort_bind]
    exact ⟨rfl, heq⟩

/-! ### The receiver table -/

theorem mem_at {f : SRecverInfo → SRecverInfo} {id : ℕ} {e : ℕ × SRecverInfo}
    (h : e ∈ RecverMap.at id f m) : e ∈ m ∨ ∃ i, (i = {} ∨ (id, i) ∈ m) ∧ e = (id, f i) := by
  induction m with
  | nil => exact Or.inr ⟨{}, Or.inl rfl, List.mem_singleton.mp h⟩
  | cons x m ih =>
    obtain ⟨j, y⟩ := x
    unfold RecverMap.at at h
    split_ifs at h with hj
    · subst hj
      rcases List.mem_cons.mp h with rfl | h
      · exact Or.inr ⟨y, Or.inr List.mem_cons_self, rfl⟩
      · exact Or.inl (List.mem_cons_of_mem _ h)
    · rcases List.mem_cons.mp h with rfl | h
      · exact Or.inl List.mem_cons_self
      · rcases ih h with hm | ⟨i, hi, he⟩
        · exact Or.inl (List.mem_cons_of_mem _ hm)
        · exact Or.inr ⟨i, hi.imp_right (List.mem_cons_of_mem _), he⟩

theorem at_keeps (f : SRecverInfo → SRecverInfo) (id : ℕ) {e : ℕ × SRecverInfo} (h : e ∈ m) :
    e ∈ RecverMap.at id f m ∨ e.1 = id ∧ (id, f e.2) ∈ RecverMap.at id f m := by
  induction m with
  | nil => cases h
  | cons x m ih =>
    obtain ⟨j, y⟩ := x
    unfold RecverMap.at
    split_ifs with hj
    · subst hj
      rcases List.mem_cons.mp h with rfl | h
      · exact Or.inr ⟨rfl, List.mem_cons_self⟩
      · exact Or.inl (List.mem_cons_of_mem _ h)
    · rcases List.mem_cons.mp h with rfl | h
      · exact Or.inl List.mem_cons_self
      · exact (ih h).imp (List.mem_cons_of_mem _) fun ⟨h1, h2⟩ => ⟨h1, List.mem_cons_of_mem _ h2⟩

theorem at_has (f : SRecverInfo → SRecverInfo) (id : ℕ) (m : RecverMap) :
    ∃ i, (id, f i) ∈ RecverMap.at id f m := by
  induction m with
  | nil => exact ⟨{}, List.mem_singleton_self _⟩
  | cons x m ih =>
    obtain ⟨j, y⟩ := x
    unfold RecverMap.at
    split_ifs with hj
    · exact ⟨y, by rw [hj]; exact List.mem_cons_self⟩
    · exact ih.imp fun _ h => List.mem_cons_of_mem _ h

/-- What each receiver in the table has acknowledged is true of it. -/
def Credited (P : ℕ → ℕ → Prop) (m : RecverMap) : Prop := ∀ e ∈ m, P e.1 e.2.lastRecvedSeqNo

variable {P : ℕ → ℕ → Prop}

theorem forall_at {Q : ℕ × SRecverInfo → Prop} {f : SRecverInfo → SRecverInfo} {id : ℕ}
    (h : ∀ e ∈ m, Q e)
    (h0 : Q (id, {})) (hf : ∀ i, Q (id, i) → Q (id, f i)) : ∀ e ∈ RecverMap.at id f m, Q e := by
  intro e he
  rcases mem_at he with hm | ⟨i, rfl | hi, rfl⟩
  · exact h e hm
  · exact hf {} h0
  · exact hf i (h _ hi)

theorem credited_at {f : SRecverInfo → SRecverInfo} {id : ℕ} (h : Credited P m) (h0 : P id 0)
    (hf : ∀ i : SRecverInfo, P id i.lastRecvedSeqNo → P id (f i).lastRecvedSeqNo) :
    Credited P (RecverMap.at id f m) :=
  forall_at (Q := fun e => P e.1 e.2.lastRecvedSeqNo) h h0 hf

theorem reserve_perm (n id : ℕ) (m : RecverMap) :
    m.reserve n id = m ∨ m.lookup id = none ∧ (m.reserve n id).Perm ((id, {}) :: m) := by
  unfold RecverMap.reserve
  rcases hm : m.lookup id with _ | x
  · right
    refine ⟨rfl, ?_⟩
    have hperm : (m.take n ++ (id, {}) :: m.drop n).Perm ((id, {}) :: (m.take n ++ m.drop n)) :=
      List.perm_middle
    rw [List.take_append_drop] at hperm
    exact hperm
  · exact Or.inl rfl

@[simp] theorem table_pMem (s : SendSock) (pm : Option CMemBlock) (id : ℕ) :
    SendSock.table { s with pMem := pm } id = s.table id := rfl

theorem mem_table {e : ℕ × SRecverInfo} (h : e ∈ s.mapRecvers) (id : ℕ) : e ∈ s.table id := by
  unfold SendSock.table
  rcases reserve_perm (s.place id) id s.mapRecvers with heq | ⟨-, hp⟩
  · rw [heq]
    exact h
  · exact hp.mem_iff.mpr (List.mem_cons_of_mem _ h)

theorem forall_table {Q : ℕ × SRecverInfo → Prop} {id : ℕ} (h : ∀ e ∈ s.mapRecvers, Q e)
    (h0 : Q (id, {})) : ∀ e ∈ s.table id, Q e := by
  intro e he
  unfold SendSock.table at he
  rcases reserve_perm (s.place id) id s.mapRecvers with heq | ⟨-, hp⟩
  · rw [heq] at he
    exact h e he
  · rcases List.mem_cons.mp (hp.mem_iff.mp he) with rfl | he
    · exact h0
    · exact h e he

theorem mem_of_table {id : ℕ} {e : ℕ × SRecverInfo} (h : e ∈ s.table id) (hne : e.1 ≠ id) :
    e ∈ s.mapRecvers :=
  forall_table (Q := fun e => e.1 ≠ id → e ∈ s.mapRecvers) (fun _ he _ => he)
    (fun h => absurd rfl h) e h hne

theorem credited_table {id : ℕ} (h : Credited P s.mapRecvers) (h0 : P id 0) :
    Credited P (s.table id) := forall_table (Q := fun e => P e.1 e.2.lastRecvedSeqNo) h h0

theorem below_table (h : Below B s.mapRecvers) (id : ℕ) : Below B (s.table id) :=
  credited_table (P := fun _ n => n ≤ B) h (Nat.zero_le B)

/-- An entry of the receiver table is kept. -/
def Live (now alive : ℕ) (e : ℕ × SRecverInfo) : Prop := sub64 now e.2.lastUpdateTimeUs ≤ alive

instance (now alive : ℕ) (e : ℕ × SRecverInfo) : Decidable (Live now alive e) :=
  inferInstanceAs (Decidable (_ ≤ _))

/-- **Pruning** keeps the live entries, and the number it finds is at most what each of these
has. -/
theorem prune_spec (now alive : ℕ) : ∀ (m : RecverMap) (mini : ℕ),
    (prune now alive mini m).2 = m.filter (fun e => Live now alive e) ∧
      (prune now alive mini m).1 ≤ mini ∧
      ∀ e ∈ (prune now alive mini m).2, (prune now alive mini m).1 ≤ e.2.lastRecvedSeqNo
  | [], mini => ⟨rfl, Nat.le_refl _, fun e he => by cases he⟩
  | (id, i) :: m, mini => by
    unfold prune
    by_cases hdead : alive < sub64 now i.lastUpdateTimeUs
    · obtain ⟨h1, h2, h3⟩ := prune_spec now alive m mini
      have hl : ¬ Live now alive (id, i) := Nat.not_le.mpr hdead
      rw [if_pos hdead, List.filter_cons_of_neg (by simpa using hl)]
      exact ⟨h1, h2, h3⟩
    · have hl : Live now alive (id, i) := Nat.not_lt.mp hdead
      rw [if_neg hdead, List.filter_cons_of_pos (by simpa using hl)]
      obtain ⟨h1, h2, h3⟩ := prune_spec now alive m
        (if i.lastRecvedSeqNo < mini then i.lastRecvedSeqNo else mini)
      simp only [h1] at h3 ⊢
      have hmin : (if i.lastRecvedSeqNo < mini then i.lastRecvedSeqNo else mini) ≤ mini ∧
          (if i.lastRecvedSeqNo < mini then i.lastRecvedSeqNo else mini) ≤ i.lastRecvedSeqNo := by
        split_ifs <;> omega
      refine ⟨trivial, Nat.le_trans h2 hmin.1, fun e he => ?_⟩
      rcases List.mem_cons.mp he with rfl | he
      · exact Nat.le_trans h2 hmin.2
      · exact h3 e he

theorem firstRecved_le (h : Below B m) : firstRecved m ≤ B := by
  rcases m with _ | ⟨⟨i, y⟩, m⟩
  · exact Nat.zero_le B
  · exact h (i, y) List.mem_cons_self

/-! ### `sendep_handle_nak` -/

/-- A datagram is packet `r` of the window, for some `r` from `b` to `e`. -/
def Resent (accepted : List (List UInt8)) (s : SendSock) (b e : ℕ) (ev : Ev) : Prop :=
  ∃ r d, ev = .sendto s.addrMulticast d ∧ b ≤ r ∧ r ≤ e ∧ IsOdata s.senderId r (payOf accepted r) d

/-- The datagrams are the packets with the numbers of the list. -/
def Packets (accepted : List (List UInt8)) (s : SendSock) : List ℕ → List Ev → Prop :=
  List.Forall₂ fun r ev =>
    ∃ d, ev = .sendto s.addrMulticast d ∧ IsOdata s.senderId r (payOf accepted r) d

/-- **The loop over the packets asked for** sends the packets of the window one after the other, up
to the first that the kernel does not take. -/
theorem retransmit_spec (h : Slots accepted s) (hlt : accepted.length < 2 ^ 64 - 1)
    (sent : ℕ → Bool) :
    ∀ k q, 1 ≤ q → s.validSendingDataHead ≤ q → q + k ≤ accepted.length + 1 →
      (∃ ret, (retransmit s sent k q).res = .ok ret) ∧
        Packets accepted s ((List.range' q k).takeWhile sent) (retransmit s sent k q).evs
  | 0, q, _, _, _ => ⟨⟨.suc, rfl⟩, List.Forall₂.nil⟩
  | k + 1, q, h1, h2, h3 => by
    obtain ⟨c, hc, hcd⟩ := h.held hlt q ⟨h1, h2, by omega⟩
    have hu : u64 (q + 1) = q + 1 := u64_of_lt (by omega)
    obtain ⟨⟨ret', hret'⟩, hevs'⟩ := retransmit_spec h hlt sent k (q + 1) (by omega)
      (by omega) (by omega)
    unfold retransmit
    rw [hc, hu, List.range'_succ, List.takeWhile_cons]
    cases hs : sent q
    · exact ⟨⟨.ioErr, rfl⟩, List.Forall₂.nil⟩
    · exact ⟨⟨ret', hret'⟩, List.Forall₂.cons ⟨c.data, rfl, hcd⟩ hevs'⟩

theorem Packets.resent {lo hi : ℕ} {sent : ℕ → Bool} {evs : List Ev}
    (h : Packets accepted s ((List.range' lo (hi + 1 - lo)).takeWhile sent) evs) :
    ∀ ev ∈ evs, Resent accepted s lo hi ev := by
  intro ev hev
  obtain ⟨r, hr, d, rfl, hd⟩ : ∃ r ∈ (List.range' lo (hi + 1 - lo)).takeWhile sent,
      ∃ d, ev = .sendto s.addrMulticast d ∧ IsOdata s.senderId r (payOf accepted r) d := by
    obtain ⟨i, hi, rfl⟩ := List.getElem_of_mem hev
    have hlen := h.length_eq
    exact ⟨_, List.getElem_mem (by omega), h.get (by omega) hi⟩
  have hmem := List.mem_range'_1.mp (List.takeWhile_subset _ hr)
  exact ⟨r, d, rfl, hmem.1, by omega, hd⟩

/-- The table after a NAK. -/
def nakTable (id now : ℕ) (m : RecverMap) : RecverMap :=
  RecverMap.at id (fun i => { i with lastUpdateTimeUs := now, naks := u32 (i.naks + 1) }) m

theorem credited_nakTable {id : ℕ} (h : Credited P m) (h0 : P id 0) (now : ℕ) :
    Credited P (nakTable id now m) :=
  credited_at (f := fun i => { i with lastUpdateTimeUs := now, naks := u32 (i.naks + 1) }) h h0
    fun _ hi => hi

theorem countNak_eq (s : SendSock) (id now : ℕ) : ∃ n v,
    countNak s id now =
      { s with mapRecvers := nakTable id now (s.table id), naks := n, sendSpeed := v } := by
  unfold countNak
  dsimp only
  split_ifs
  · exact ⟨_, _, rfl⟩
  · exact ⟨_, _, rfl⟩

/-- The state after a handler of feedback: the packets and the numbers stay, and the block is
empty. -/
structure After (s t : SendSock) : Prop where
  win : SameWin s t
  sendingSeqNo : t.sendingSeqNo = s.sendingSeqNo
  idle : Idle t.pMem

theorem idle_reset (b : CMemBlock) : Idle (some b.reset) := fun c hc => by
  cases hc
  exact ⟨rfl, rfl⟩

/-- **A NAK** for packets outside the window is found by the assert or dropped; otherwise the
packets asked for are sent again. -/
theorem nak_cases (h : Slots accepted s) (strict : Bool) {b : CMemBlock} {d : List UInt8}
    {lo hi id : ℕ} (hb : Received b d) (hd : IsNak lo hi id d)
    (h1 : 1 ≤ lo ∨ lo < s.validSendingDataHead ∨ s.validSendingDataTail ≤ hi) (now : ℕ)
    (sent : ℕ → Bool) (pm : Option CMemBlock) :
    (lo < s.validSendingDataHead ∨ s.validSendingDataTail ≤ hi) ∧ strict = true ∧
        sendepHandleNak strict { s with pMem := pm }
          (b.decHeadData 8) now sent = Eff.abort .sendepHandleNak ∨
      ∃ ret t, (sendepHandleNak strict { s with pMem := pm } (b.decHeadData 8) now sent).res =
        .ok (ret, t) ∧
        After s t ∧ t.validSendingDataHead = s.validSendingDataHead ∧
          t.mapRecvers = nakTable id now (s.table id) ∧
        (strict = true → s.validSendingDataHead ≤ lo ∧ hi < s.validSendingDataTail) ∧
        ((lo < s.validSendingDataHead ∨ s.validSendingDataTail ≤ hi) ∧
            (sendepHandleNak strict { s with pMem := pm } (b.decHeadData 8) now sent).evs = [] ∨
          hi ≤ accepted.length ∧ Packets accepted s ((List.range' lo (hi + 1 - lo)).takeWhile sent)
            (sendepHandleNak strict { s with pMem := pm } (b.decHeadData 8) now sent).evs) := by
  have hlen := hd.len
  have hlo : (b.decHeadData 8).get64 0 = lo := (hb.get64 0 (by omega)).trans hd.first
  have hhi : (b.decHeadData 8).get64 8 = hi := (hb.get64 1 (by omega)).trans hd.last
  have hid : (b.decHeadData 8).get64 16 = id := (hb.get64 2 (by omega)).trans hd.id
  obtain ⟨n, v, hcount⟩ := countNak_eq { s with pMem := pm } id now
  unfold sendepHandleNak
  simp only [hlo, hhi, hid, hcount, table_pMem]
  by_cases hout : lo < s.validSendingDataHead ∨ s.validSendingDataTail ≤ hi
  · rw [if_pos hout]
    cases strict
    · refine Or.inr ⟨_, _, rfl, ⟨⟨rfl, rfl, rfl, rfl, rfl⟩, rfl, idle_reset _⟩, rfl, rfl,
        fun he => ?_, Or.inl ⟨hout, rfl⟩⟩
      cases he
    · exact Or.inl ⟨hout, rfl, rfl⟩
  · rw [if_neg hout]
    right
    have hlo' : s.validSendingDataHead ≤ lo := Nat.not_lt.mp fun hc => hout (Or.inl hc)
    have hhi' : hi < s.validSendingDataTail := Nat.not_le.mp fun hc => hout (Or.inr hc)
    have hlt : accepted.length < 2 ^ 64 - 1 := by
      by_contra hge
      have htail := h.tail_zero (by have := h.lt; omega)
      omega
    have htail := h.tail_eq hlt
    set t : SendSock := { s with
      mapRecvers := nakTable id now (s.table id)
      naks := n
      sendSpeed := v
      pMem := some ((b.decHeadData 8).decHeadData 24).reset } with ht
    have hslots : Slots accepted t :=
      ⟨h.lt, h.tail, h.sending_le, h.sending_lt, h.head_le, h.room, h.held⟩
    have hlo1 : 1 ≤ lo := h1.resolve_right hout
    obtain ⟨⟨ret, hret⟩, hevs⟩ : (∃ ret, (retransmit t sent (hi + 1 - lo) lo).res = .ok ret) ∧
        Packets accepted t ((List.range' lo (hi + 1 - lo)).takeWhile sent)
          (retransmit t sent (hi + 1 - lo) lo).evs := by
      rcases Nat.lt_or_ge hi lo with hlt' | hle
      · rw [show hi + 1 - lo = 0 by omega]
        exact ⟨⟨.suc, rfl⟩, List.Forall₂.nil⟩
      · exact retransmit_spec hslots hlt sent (hi + 1 - lo) lo hlo1 hlo' (by omega)
    rw [Eff.bind_of_ok hret]
    refine ⟨ret, t, rfl, ⟨⟨rfl, rfl, rfl, rfl, rfl⟩, rfl, idle_reset _⟩, rfl, rfl,
      fun _ => ⟨hlo', hhi'⟩, Or.inr ⟨by omega, ?_⟩⟩
    rw [Eff.pure_evs, List.append_nil]
    exact hevs

/-! ### `sendep_handle_ack` -/

/-- The table after an ack that is not outside the window, before it is pruned. -/
def ackTable (seq id now : ℕ) (m : RecverMap) : RecverMap :=
  RecverMap.at id (fun i => { i with
      lastRecvedSeqNo := if seq < i.lastRecvedSeqNo then i.lastRecvedSeqNo else seq })
    (RecverMap.at id (fun i => { i with lastUpdateTimeUs := now }) m)

theorem credited_touch {id : ℕ} (h : Credited P m) (h0 : P id 0) (now : ℕ) :
    Credited P (RecverMap.at id (fun i => { i with lastUpdateTimeUs := now }) m) :=
  credited_at (f := fun i => { i with lastUpdateTimeUs := now }) h h0 fun _ hi => hi

theorem credited_ackTable {seq id : ℕ} (h : Credited P m) (h0 : P id 0) (hs : P id seq) (now : ℕ) :
    Credited P (ackTable seq id now m) := by
  refine credited_at (credited_touch h h0 now) h0 fun i hi => ?_
  show P id (if seq < i.lastRecvedSeqNo then i.lastRecvedSeqNo else seq)
  split_ifs
  · exact hi
  · exact hs

theorem below_ackTable {seq : ℕ} (h : Below B m) (hs : seq ≤ B) (id now : ℕ) :
    Below B (ackTable seq id now m) :=
  credited_ackTable (P := fun _ n => n ≤ B) h (Nat.zero_le B) hs now

theorem speedControl_eq (s : SendSock) : ∃ a b c d, speedControl s = { s with
    speedHelper := a, lastSendAndAckWinSize := b, sendSpeed := c, lastSendingSeqNo := d } := by
  unfold speedControl
  dsimp only
  split_ifs
  · exact ⟨_, _, _, _, rfl⟩
  · exact ⟨_, _, _, _, rfl⟩
  · exact ⟨_, _, _, _, rfl⟩

/-- The number the loop over the table finds when an ack is handled. -/
def leastAcked (seq id now : ℕ) (s : SendSock) : ℕ :=
  (prune now s.maxKeepAliveTimeUs (firstRecved (ackTable seq id now (s.table id)))
    (ackTable seq id now (s.table id))).1

/-- **`sendep_handle_ack`, for an ack that is not below the window.** -/
theorem handleAck_new (strict : Bool) {b : CMemBlock} {seq id : ℕ} (hseq : b.get64 0 = seq)
    (hid : b.get64 8 = id) (now : ℕ) (pm : Option CMemBlock)
    (hnew : s.validSendingDataHead ≤ seq) :
    ∃ t, t = { s with
        mapRecvers := (ackTable seq id now (s.table id)).filter
          fun e => Live now s.maxKeepAliveTimeUs e
        pMem := some (b.decHeadData 16).reset } ∧
      sendepHandleAck strict { s with pMem := pm } b now = pure (.suc,
        if leastAcked seq id now s < s.validSendingDataHead then t
        else speedControl
          { t with validSendingDataHead := u64 (leastAcked seq id now s + 1) }) := by
  have hold : ¬ seq < s.validSendingDataHead := Nat.not_lt.mpr hnew
  obtain ⟨hp, -, -⟩ := prune_spec now s.maxKeepAliveTimeUs (ackTable seq id now (s.table id))
    (firstRecved (ackTable seq id now (s.table id)))
  refine ⟨_, rfl, ?_⟩
  unfold sendepHandleAck
  simp only [hseq, hid, if_neg hold, table_pMem]
  unfold leastAcked
  rw [← hp]
  unfold ackTable
  split_ifs
  · rfl
  · rfl

/-- What an ack that is not below the window leaves: the live entries, and a head that is raised, if
it is, to what each of these has. -/
structure Acked (seq id now : ℕ) (s t : SendSock) : Prop where
  after : After s t
  table : t.mapRecvers =
    (ackTable seq id now (s.table id)).filter fun e => Live now s.maxKeepAliveTimeUs e
  head : t.validSendingDataHead = s.validSendingDataHead ∨
    ∃ mini, t.validSendingDataHead = u64 (mini + 1) ∧ s.validSendingDataHead ≤ mini ∧
      mini ≤ firstRecved (ackTable seq id now (s.table id)) ∧
      ∀ e ∈ t.mapRecvers, mini ≤ e.2.lastRecvedSeqNo

/-- **An ack** below the window is found by the assert or dropped; another one may raise the
head. -/
theorem ack_cases (strict : Bool) {b : CMemBlock} {d : List UInt8} {seq id : ℕ} (hb : Received b d)
    (hd : IsAck seq id d) (now : ℕ) (pm : Option CMemBlock) :
    seq < s.validSendingDataHead ∧ (strict = true ∧
          sendepHandleAck strict { s with pMem := pm }
            (b.decHeadData 8) now = Eff.abort .sendepHandleAck ∨
        strict = false ∧ ∃ t, sendepHandleAck strict { s with pMem := pm }
          (b.decHeadData 8) now = pure (.suc, t) ∧
          After s t ∧ t.validSendingDataHead = s.validSendingDataHead ∧
          t.mapRecvers = RecverMap.at id (fun i => { i with lastUpdateTimeUs := now })
            (s.table id)) ∨
      s.validSendingDataHead ≤ seq ∧
        ∃ t, sendepHandleAck strict { s with pMem := pm } (b.decHeadData 8) now = pure (.suc, t) ∧
          Acked seq id now s t := by
  have hlen := hd.len
  have hseq : (b.decHeadData 8).get64 0 = seq := (hb.get64 0 (by omega)).trans hd.seq
  have hid : (b.decHeadData 8).get64 8 = id := (hb.get64 1 (by omega)).trans hd.id
  by_cases hold : seq < s.validSendingDataHead
  · left
    unfold sendepHandleAck
    simp only [hseq, hid]
    rw [if_pos hold]
    refine ⟨hold, ?_⟩
    cases strict
    · exact Or.inr ⟨rfl, _, rfl, ⟨⟨rfl, rfl, rfl, rfl, rfl⟩, rfl, idle_reset _⟩, rfl, rfl⟩
    · exact Or.inl ⟨rfl, rfl⟩
  · right
    have hnew : s.validSendingDataHead ≤ seq := Nat.not_lt.mp hold
    obtain ⟨t, rfl, hrun⟩ := handleAck_new strict hseq hid now pm hnew
    obtain ⟨p1, p2, p3⟩ := prune_spec now s.maxKeepAliveTimeUs (ackTable seq id now (s.table id))
      (firstRecved (ackTable seq id now (s.table id)))
    refine ⟨hnew, _, hrun, ?_⟩
    by_cases hlow : leastAcked seq id now s < s.validSendingDataHead
    · rw [if_pos hlow]
      exact ⟨⟨⟨rfl, rfl, rfl, rfl, rfl⟩, rfl, idle_reset _⟩, rfl, Or.inl rfl⟩
    · rw [if_neg hlow]
      obtain ⟨v1, v2, v3, v4, hv⟩ := speedControl_eq { s with
        mapRecvers := (ackTable seq id now (s.table id)).filter
          fun e => Live now s.maxKeepAliveTimeUs e
        pMem := some ((b.decHeadData 8).decHeadData 16).reset
        validSendingDataHead := u64 (leastAcked seq id now s + 1) }
      rw [hv]
      exact ⟨⟨⟨rfl, rfl, rfl, rfl, rfl⟩, rfl, idle_reset _⟩, rfl,
        Or.inr ⟨_, rfl, Nat.not_lt.mp hlow, p2, p1 ▸ p3⟩⟩

theorem Acked.head_le {seq id now : ℕ} (h : Acked seq id now s t) (hm : Below B s.mapRecvers)
    (hs : seq ≤ B)
    (hB : B < 2 ^ 64 - 1) : s.validSendingDataHead ≤ t.validSendingDataHead ∧
      (t.validSendingDataHead = s.validSendingDataHead ∨ t.validSendingDataHead ≤ B + 1) := by
  rcases h.head with h0 | ⟨mini, h1, h2, h3, -⟩
  · exact ⟨Nat.le_of_eq h0.symm, Or.inl h0⟩
  · have hbelow := below_ackTable (below_table hm id) hs id now
    have hle : mini ≤ B := Nat.le_trans h3 (firstRecved_le hbelow)
    rw [u64_of_lt (by omega)] at h1
    exact ⟨by omega, Or.inr (by omega)⟩

end SmartNet.Network.Rmp.SendCalls
