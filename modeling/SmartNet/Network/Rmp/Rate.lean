import SmartNet.Network.Rmp.StrayFeedback

/-! # Rate control

`sendep_handle_nak` cuts `m_ui32SendSpeed` after a thousand NAKs, and `sendep_handle_ack` raises it
when fewer packets are in flight than before. Both count in unsigned integers.

* `Spared`: the feedback comes to none of the three places where a number wraps;
* `rate_kept`: over a run in which all feedback is spared, no NAK raises the speed, no ack lowers
  it, and the packets in flight are counted right;
* `countNak_le_iff`, `fits_of_counts`: other feedback breaks this;
* `burst_cuts`: what a burst of NAKs does at any speed. -/

namespace SmartNet.Network.Rmp.Rate

open SmartNet.Common SmartNet.Lib SmartNet.Lib.Run SmartNet.Memory.MemBlock SmartNet.Network.Udp
open SmartNet.Network.Rmp.Wire SmartNet.Network.Rmp.Sendep SmartNet.Network.Rmp.SendWin
open SmartNet.Network.Rmp.SendCalls SmartNet.Network.Rmp.SendRun
open SmartNet.Network.Rmp.RecverTable SmartNet.Network.Rmp.StrayFeedback SmartNet.Lib.Assoc

variable {s t : SendSock} {p : Sender} {a : SendAct} {strict : Bool} {d : List UInt8}
variable {seq id now : ℕ} {b : CMemBlock}

/-- The datagram that arrives, if one does, is an ack of a packet that was sent, or a NAK; the clock
is a 64-bit number. -/
def Honest (p : Sender) : SendAct → Prop
  | .input (.dgram _ d) now _ _ =>
    now < 2 ^ 64 ∧ ((∃ seq id, IsAck seq id d ∧ seq ≤ p.sock.sendingSeqNo) ∨
      ∃ lo hi id, IsNak lo hi id d)
  | _ => True

/-- Some receiver that counts for the minimum has more than `k` packets still to acknowledge, after
an ack of `seq`. -/
def Behind (k seq id now : ℕ) (s : SendSock) : Prop :=
  k < s.sendingSeqNo ∧ Within (s.sendingSeqNo - (k + 1)) seq id now s

/-- The next ack that finds the window less full raises the speed. -/
def RaiseDue (s : SendSock) : Prop :=
  1000 < u32 (s.speedHelper + 1) ∧ incSpeedInterval < sub64 s.sendingSeqNo s.lastSendingSeqNo

/-- A NAK that cuts the speed finds as much as it takes off. -/
def CutFits (s : SendSock) : Prop := maxNakCnt < u32 (s.naks + 1) → cutSpeed ≤ s.sendSpeed

/-- An ack does not move the head: it is below the window, or some receiver that counts is. -/
def Stays (seq id now : ℕ) (s : SendSock) : Prop :=
  seq < s.validSendingDataHead ∨
    0 < s.validSendingDataHead ∧ Within (s.validSendingDataHead - 1) seq id now s

/-- An ack that moves the head leaves a packet to be acknowledged, and does not raise the speed
beyond 32 bits. -/
def AckFits (seq id now : ℕ) (s : SendSock) : Prop :=
  Stays seq id now s ∨ Behind 0 seq id now s ∧
    (RaiseDue s → Behind s.lastSendAndAckWinSize seq id now s ∨ s.sendSpeed + incSpeed < 2 ^ 32)

instance (k seq id now : ℕ) (s : SendSock) : Decidable (Behind k seq id now s) :=
  inferInstanceAs (Decidable (_ ∧ _))

instance (s : SendSock) : Decidable (RaiseDue s) := inferInstanceAs (Decidable (_ ∧ _))

instance (s : SendSock) : Decidable (CutFits s) := inferInstanceAs (Decidable (_ → _))

instance (seq id now : ℕ) (s : SendSock) : Decidable (Stays seq id now s) :=
  inferInstanceAs (Decidable (_ ∨ _))

instance (seq id now : ℕ) (s : SendSock) : Decidable (AckFits seq id now s) :=
  inferInstanceAs (Decidable (_ ∨ _))

/-- The feedback that arrives fits. -/
def Fits (p : Sender) : SendAct → Prop
  | .input (.dgram _ d) now _ _ =>
    if opcode d = epNak then CutFits p.sock else AckFits (word 0 d) (word 1 d) now p.sock
  | _ => True

instance (p : Sender) : ∀ a, Decidable (Fits p a)
  | .input (.dgram _ d) now _ _ => inferInstanceAs (Decidable
      (if opcode d = epNak then CutFits p.sock else AckFits (word 0 d) (word 1 d) now p.sock))
  | .input .wouldBlock _ _ _ => .isTrue trivial
  | .input .intr _ _ _ => .isTrue trivial
  | .input .err _ _ _ => .isTrue trivial
  | .send _ => .isTrue trivial
  | .canSend _ _ _ => .isTrue trivial
  | .rehash _ _ => .isTrue trivial

/-- A live sender comes to no place where a number wraps. -/
def Spared (p : Sender) (a : SendAct) : Prop := p.fault = none → Fits p a

instance (p : Sender) (a : SendAct) : Decidable (Spared p a) :=
  inferInstanceAs (Decidable (_ → _))

/-- What an ack must do: the speed does not go down, and if the head is raised, what is subtracted
to count the packets in flight is not more than what was sent. -/
structure Counts (s t : SendSock) : Prop where
  speed : s.sendSpeed ≤ t.sendSpeed
  inFlight : t.validSendingDataHead = s.validSendingDataHead ∨
    t.validSendingDataHead ≤ t.sendingSeqNo ∧
      sub64 t.sendingSeqNo t.validSendingDataHead = t.sendingSeqNo - t.validSendingDataHead

/-- **The rate control of a step.** -/
def Lawful (strict : Bool) (p : Sender) (a : SendAct) : Prop :=
  match a with
  | .input (.dgram _ d) _ _ _ =>
    if opcode d = epNak then (step strict p a).sock.sendSpeed ≤ p.sock.sendSpeed
    else Counts p.sock (step strict p a).sock
  | _ => (step strict p a).sock.sendSpeed = p.sock.sendSpeed

/-- The invariant: the numbers have their widths, and no datagram is half read. -/
structure Ranged (s : SendSock) : Prop where
  idle : Idle s.pMem
  speed : s.sendSpeed < 2 ^ 32
  sending : s.sendingSeqNo < 2 ^ 64

/-- The rate is not touched. -/
structure SameRate (s t : SendSock) : Prop where
  idle : Idle t.pMem
  speed : t.sendSpeed = s.sendSpeed
  sending : t.sendingSeqNo < 2 ^ 64

theorem SameRate.ranged (h : SameRate s t) (hr : Ranged s) : Ranged t :=
  ⟨h.idle, h.speed ▸ hr.speed, h.sending⟩

/-! ### The least number of the table -/

theorem leastAcked_le {M : ℕ} (h : Within M seq id now s) (hnow : now < 2 ^ 64) :
    leastAcked seq id now s ≤ M := by
  obtain ⟨hfilter, hfirst, hall⟩ := prune_spec now s.maxKeepAliveTimeUs
    (ackTable seq id now (s.table id)) (firstRecved (ackTable seq id now (s.table id)))
  exact h.le hnow hfirst fun e he => hall e (hfilter ▸ he)

/-- An ack finds a number up to `M` if, and only if, a receiver that counts has no more than
that. -/
theorem leastAcked_le_iff (hk : Keyed s.mapRecvers) (hnow : now < 2 ^ 64) (M seq id : ℕ) :
    leastAcked seq id now s ≤ M ↔ Within M seq id now s := by
  constructor
  · intro hle
    have hself : ∀ x, (ackTable seq id now (s.table id)).lookup id = some x →
        x.lastRecvedSeqNo ≤ M → Within M seq id now s := by
      intro x hx hxM
      rw [lookup_ackTable, if_pos rfl, lookup_table, if_pos rfl, Option.some.injEq] at hx
      subst hx
      obtain ⟨hold, hseq⟩ := max_le_iff.mp hxM
      refine Or.inl ⟨hseq, fun y hy => ?_⟩
      have hy' : s.mapRecvers.lookup id = some y := hy
      rw [hy'] at hold
      exact hold
    rcases prune_attained now s.maxKeepAliveTimeUs (ackTable seq id now (s.table id))
      (firstRecved (ackTable seq id now (s.table id))) with hat | ⟨⟨j, x⟩, he, hl, heq⟩
    · have hM : firstRecved (ackTable seq id now (s.table id)) ≤ M := by
        rw [← hat]
        exact hle
      rcases hm : s.table id with _ | ⟨⟨i, y⟩, rest⟩
      · have hin := lookup_table s id id
        rw [hm, if_pos rfl] at hin
        cases hin
      · by_cases hi : i = id
        · subst hi
          obtain ⟨y', rest', h1⟩ := at_cons (fun x => { x with lastUpdateTimeUs := now }) i i y rest
          obtain ⟨z, rest'', h2⟩ := at_cons (fun x => { x with
            lastRecvedSeqNo := if seq < x.lastRecvedSeqNo then x.lastRecvedSeqNo else seq })
            i i y' rest'
          have htab : ackTable seq i now (s.table i) = (i, z) :: rest'' := by
            rw [hm, ackTable, h1, h2]
          refine hself z ?_ ?_
          · rw [htab, List.lookup_cons_self]
          · rw [htab] at hM
            exact hM
        · have hhead : (s.table id).head? = some (i, y) := by rw [hm]; rfl
          have hmem : (i, y) ∈ s.table id := by rw [hm]; exact List.mem_cons_self
          rw [firstRecved_ackTable hhead hi] at hM
          exact Or.inr ⟨(i, y), mem_of_table hmem hi, hi, hM, Or.inl hhead⟩
    · have hM : x.lastRecvedSeqNo ≤ M := by
        have heq' : x.lastRecvedSeqNo = leastAcked seq id now s := heq
        omega
      have hlook := (mem_iff_lookup (keyed_ackTable (keyed_table hk id) seq id now)).mp he
      by_cases hj : j = id
      · subst hj
        exact hself x hlook hM
      · rw [lookup_ackTable, if_neg hj, lookup_table, if_neg hj] at hlook
        exact Or.inr ⟨(j, x), mem_of_lookup hlook, hj, hM, Or.inr hl⟩
  · intro hw
    exact leastAcked_le hw hnow

/-! ### Calls without feedback -/

theorem sameRate_send (h : Ranged s) (q : Payload) {l : List (List UInt8)}
    (hres : (SendAct.exec strict s (.send q)).res = .ok (t, l)) : SameRate s t := by
  by_cases ho : q.mem.offset = 16
  · rcases send_cases (s := s) ho q.fits with ⟨c, heq, -⟩ | ⟨heq, -⟩
    · simp only [SendAct.exec, heq, Eff.pure_bind, Eff.pure_res, Except.ok.injEq,
        Prod.mk.injEq] at hres
      obtain ⟨rfl, -⟩ := hres
      exact ⟨h.idle, rfl, h.sending⟩
    · simp only [SendAct.exec, heq, Eff.pure_bind, Eff.pure_res, Except.ok.injEq,
        Prod.mk.injEq] at hres
      obtain ⟨rfl, -⟩ := hres
      exact ⟨h.idle, rfl, h.sending⟩
  · simp only [SendAct.exec, send_offset ho, Eff.abort_bind] at hres
    cases hres

theorem sameRate_canSend (h : Ranged s) {stack : ℕ → UInt8} {io : Sendto} {l : List (List UInt8)}
    (hres : (SendAct.exec strict s (.canSend now stack io)).res = .ok (t, l)) : SameRate s t := by
  simp only [SendAct.exec] at hres
  obtain ⟨⟨ret, u⟩, hu, hut⟩ := Eff.bind_res_ok hres
  simp only [Eff.pure_res, Except.ok.injEq, Prod.mk.injEq] at hut
  obtain ⟨rfl, -⟩ := hut
  by_cases hbl : Blocked s
  · rw [canSend_blocked hbl] at hu
    obtain ⟨v, hv, hvu⟩ := Eff.bind_res_ok hu
    simp only [Eff.pure_res, Except.ok.injEq, Prod.mk.injEq] at hvu
    obtain ⟨-, rfl⟩ := hvu
    rcases hb_cases s now stack io with ⟨-, -, hx⟩ | ⟨-, x, hx, -⟩
    · rw [hx] at hv
      cases hv
    · rw [hx, Except.ok.injEq] at hv
      subst hv
      exact ⟨h.idle, rfl, h.sending⟩
  · rcases canSend_open hbl now stack with ⟨f, hx⟩ | ⟨i, c, -, h1, h2, h3⟩
    · rw [hx] at hu
      cases hu
    · rcases io with _ | _ | _
      · rw [h1] at hu
        simp only [Except.ok.injEq, Prod.mk.injEq] at hu
        obtain ⟨-, rfl⟩ := hu
        exact ⟨h.idle, rfl, Nat.mod_lt _ (by norm_num)⟩
      · rw [h2] at hu
        simp only [Eff.pure_res, Except.ok.injEq, Prod.mk.injEq] at hu
        obtain ⟨-, rfl⟩ := hu
        exact ⟨h.idle, rfl, h.sending⟩
      · rw [h3] at hu
        simp only [Eff.pure_res, Except.ok.injEq, Prod.mk.injEq] at hu
        obtain ⟨-, rfl⟩ := hu
        exact ⟨h.idle, rfl, h.sending⟩

theorem sameRate_noDgram (h : Ranged s) {r : Recvfrom} (hr : ∀ src d, r ≠ .dgram src d)
    {fresh : ℕ → UInt8} {sent : ℕ → Bool} {l : List (List UInt8)}
    (hres : (SendAct.exec strict s (.input r now fresh sent)).res = .ok (t, l)) :
    SameRate s t := by
  obtain ⟨c, hc, ho, hl⟩ := takeMem_of_idle h.idle fresh
  rcases udpRecv_noDgram c hr with hf | ⟨ret, h1, -, h3⟩
  · simp only [SendAct.exec, sendepHandleCanRecv, hc, hf, Eff.pure_bind, Eff.abort_bind] at hres
    cases hres
  · simp only [SendAct.exec, sendepHandleCanRecv, hc, h3, Eff.pure_bind, ne_eq, h1,
      not_false_eq_true, if_true, Eff.pure_res, Except.ok.injEq, Prod.mk.injEq] at hres
    obtain ⟨rfl, -⟩ := hres
    refine ⟨fun e he => ?_, rfl, h.sending⟩
    obtain rfl : c = e := Option.some.inj he
    exact ⟨hl, ho⟩

theorem sameRate_rehash (h : Ranged s) {m : RecverMap} {place : ℕ → ℕ} {l : List (List UInt8)}
    (hres : (SendAct.exec strict s (.rehash m place)).res = .ok (t, l)) : SameRate s t := by
  simp only [SendAct.exec, Eff.pure_res, Except.ok.injEq, Prod.mk.injEq] at hres
  obtain ⟨rfl, -⟩ := hres
  split_ifs
  · exact ⟨h.idle, rfl, h.sending⟩
  · exact ⟨h.idle, rfl, h.sending⟩

/-! ### NAKs -/

theorem countNak_cases (s : SendSock) (id now : ℕ) :
    maxNakCnt < u32 (s.naks + 1) ∧ countNak s id now = { s with
        mapRecvers := nakTable id now (s.table id)
        naks := 0
        sendSpeed := sub32 s.sendSpeed cutSpeed } ∨
      ¬ maxNakCnt < u32 (s.naks + 1) ∧ countNak s id now = { s with
        mapRecvers := nakTable id now (s.table id)
        naks := u32 (s.naks + 1) } := by
  by_cases hcut : maxNakCnt < u32 (s.naks + 1)
  · exact Or.inl ⟨hcut, if_pos hcut⟩
  · exact Or.inr ⟨hcut, if_neg hcut⟩

theorem nak_leaves (strict : Bool) {lo hi : ℕ} (hb : Received b d) (hd : IsNak lo hi id d)
    (now : ℕ) (sent : ℕ → Bool) (pm : Option CMemBlock) {ret : Cmnerr}
    (hres : (sendepHandleNak strict { s with pMem := pm } (b.decHeadData 8) now sent).res =
      .ok (ret, t)) :
    t.sendSpeed = (countNak s id now).sendSpeed ∧ t.naks = (countNak s id now).naks ∧
      t.sendingSeqNo = s.sendingSeqNo ∧ Idle t.pMem := by
  have hlen := hd.len
  have hid : (b.decHeadData 8).get64 16 = id := (hb.get64 2 (by omega)).trans hd.id
  have hcount : countNak { s with pMem := pm } id now = { countNak s id now with pMem := pm } := by
    unfold countNak
    dsimp only
    split_ifs
    · rfl
    · rfl
  have hkeep : (countNak s id now).sendingSeqNo = s.sendingSeqNo := by
    obtain ⟨n, v, heq⟩ := countNak_eq s id now
    rw [heq]
  unfold sendepHandleNak at hres
  simp only [hid, hcount] at hres
  split_ifs at hres with hout
  · cases strict
    · simp only [Eff.require_pos, Eff.pure_bind, Eff.pure_res, Except.ok.injEq,
        Prod.mk.injEq] at hres
      obtain ⟨-, rfl⟩ := hres
      exact ⟨rfl, rfl, hkeep, idle_reset _⟩
    · cases hres
  · obtain ⟨x, -, hx⟩ := Eff.bind_res_ok hres
    simp only [Eff.pure_res, Except.ok.injEq, Prod.mk.injEq] at hx
    obtain ⟨-, rfl⟩ := hx
    exact ⟨rfl, rfl, hkeep, idle_reset _⟩

theorem sub32_le_iff {v c : ℕ} (hv : v < 2 ^ 32) (h0 : 0 < c) (hc : c < 2 ^ 32) :
    sub32 v c ≤ v ↔ c ≤ v := by
  unfold sub32 u32
  omega

/-- **A NAK** lowers the speed, or leaves it, exactly if a cut finds enough. -/
theorem countNak_le_iff (hspeed : s.sendSpeed < 2 ^ 32) (id now : ℕ) :
    (countNak s id now).sendSpeed ≤ s.sendSpeed ↔ CutFits s := by
  unfold CutFits
  rcases countNak_cases s id now with ⟨hcut, heq⟩ | ⟨hcut, heq⟩
  · rw [heq]
    have hiff := sub32_le_iff hspeed (c := cutSpeed) (by decide) (by decide)
    exact ⟨fun hle _ => hiff.mp hle, fun hfit => hiff.mpr (hfit hcut)⟩
  · rw [heq]
    exact ⟨fun _ h => absurd h hcut, fun _ => Nat.le_refl _⟩

theorem countNak_lt (hspeed : s.sendSpeed < 2 ^ 32) (id now : ℕ) :
    (countNak s id now).sendSpeed < 2 ^ 32 := by
  rcases countNak_cases s id now with ⟨-, heq⟩ | ⟨-, heq⟩
  · rw [heq]
    exact u32_lt _
  · rw [heq]
    exact hspeed

theorem nak_exec (h : Ranged s) {lo hi : ℕ} (hd : IsNak lo hi id d) {src : SockAddr}
    {fresh : ℕ → UInt8} {sent : ℕ → Bool} {l : List (List UInt8)}
    (hres : (SendAct.exec strict s (.input (.dgram src d) now fresh sent)).res = .ok (t, l)) :
    Ranged t ∧ t.sendSpeed = (countNak s id now).sendSpeed ∧
      t.naks = (countNak s id now).naks := by
  obtain ⟨b, hb, heq⟩ := exec_isNak strict h.idle hd src now fresh sent
  rw [heq] at hres
  obtain ⟨⟨ret, u⟩, hu, hut⟩ := Eff.bind_res_ok hres
  simp only [Eff.pure_res, Except.ok.injEq, Prod.mk.injEq] at hut
  obtain ⟨rfl, -⟩ := hut
  obtain ⟨hv, hn, hs, hi⟩ := nak_leaves strict hb hd now sent (some b) hu
  exact ⟨⟨hi, hv ▸ countNak_lt h.speed id now, hs ▸ h.sending⟩, hv, hn⟩

/-! ### Acks -/

theorem speedControl_speed (s : SendSock) : (speedControl s).sendSpeed =
    if sub64 s.sendingSeqNo s.validSendingDataHead < s.lastSendAndAckWinSize ∧ RaiseDue s then
      u32 (s.sendSpeed + incSpeed) else s.sendSpeed := by
  unfold speedControl RaiseDue
  by_cases hfull : sub64 s.sendingSeqNo s.validSendingDataHead < s.lastSendAndAckWinSize
  · by_cases hdue : 1000 < u32 (s.speedHelper + 1) ∧
        incSpeedInterval < sub64 s.sendingSeqNo s.lastSendingSeqNo
    · rw [if_pos hfull, if_pos ⟨hfull, hdue⟩]
      dsimp only
      rw [if_pos hdue]
    · rw [if_pos hfull, if_neg fun h => hdue h.2]
      dsimp only
      rw [if_neg hdue]
  · rw [if_neg hfull, if_neg fun h => hfull h.1]

theorem le_speedControl_iff (hspeed : s.sendSpeed < 2 ^ 32) :
    s.sendSpeed ≤ (speedControl s).sendSpeed ↔
      (sub64 s.sendingSeqNo s.validSendingDataHead < s.lastSendAndAckWinSize → RaiseDue s →
        s.sendSpeed + incSpeed < 2 ^ 32) := by
  rw [speedControl_speed]
  have hwrap : s.sendSpeed ≤ u32 (s.sendSpeed + incSpeed) ↔ s.sendSpeed + incSpeed < 2 ^ 32 := by
    unfold u32 incSpeed
    omega
  split_ifs with hraise
  · rw [hwrap]
    exact ⟨fun h _ _ => h, fun h => h hraise.1 hraise.2⟩
  · exact iff_of_true (Nat.le_refl _) fun h1 h2 => absurd ⟨h1, h2⟩ hraise

theorem speedControl_head (s : SendSock) :
    (speedControl s).validSendingDataHead = s.validSendingDataHead ∧
      (speedControl s).sendingSeqNo = s.sendingSeqNo ∧ (speedControl s).pMem = s.pMem := by
  obtain ⟨v1, v2, v3, v4, hv⟩ := speedControl_eq s
  rw [hv]
  exact ⟨rfl, rfl, rfl⟩

theorem speedControl_lt (hspeed : s.sendSpeed < 2 ^ 32) : (speedControl s).sendSpeed < 2 ^ 32 := by
  rw [speedControl_speed]
  split_ifs
  · exact u32_lt _
  · exact hspeed

/-- An ack leaves the rate as it is, or moves the head and controls the speed. -/
def Moves (seq id now : ℕ) (s t : SendSock) : Prop :=
  s.validSendingDataHead ≤ seq ∧ s.validSendingDataHead ≤ leastAcked seq id now s ∧
    ∃ m pm, Idle pm ∧ t = speedControl { s with
      mapRecvers := m
      pMem := pm
      validSendingDataHead := u64 (leastAcked seq id now s + 1) }

theorem ack_exec (h : Ranged s) (hd : IsAck seq id d) {src : SockAddr} {fresh : ℕ → UInt8}
    {sent : ℕ → Bool} {l : List (List UInt8)}
    (hres : (SendAct.exec strict s (.input (.dgram src d) now fresh sent)).res = .ok (t, l)) :
    (seq < s.validSendingDataHead ∨ leastAcked seq id now s < s.validSendingDataHead) ∧
        SameRate s t ∧ t.validSendingDataHead = s.validSendingDataHead ∨
      Moves seq id now s t := by
  obtain ⟨b, hb, heq⟩ := exec_isAck strict h.idle hd src now fresh sent
  rw [heq] at hres
  have hlen := hd.len
  have hseq : (b.decHeadData 8).get64 0 = seq := (hb.get64 0 (by omega)).trans hd.seq
  have hid : (b.decHeadData 8).get64 8 = id := (hb.get64 1 (by omega)).trans hd.id
  by_cases hold : seq < s.validSendingDataHead
  · unfold sendepHandleAck at hres
    simp only [hseq, hid] at hres
    rw [if_pos hold] at hres
    cases strict
    · simp only [Eff.require_pos, Eff.pure_bind, Eff.pure_res, Except.ok.injEq,
        Prod.mk.injEq] at hres
      obtain ⟨rfl, -⟩ := hres
      exact Or.inl ⟨Or.inl hold, ⟨idle_reset _, rfl, h.sending⟩, rfl⟩
    · cases hres
  · have hnew : s.validSendingDataHead ≤ seq := Nat.not_lt.mp hold
    obtain ⟨u, rfl, hrun⟩ := handleAck_new strict hseq hid now (some b) hnew
    rw [hrun] at hres
    simp only [Eff.pure_bind, Eff.pure_res, Except.ok.injEq, Prod.mk.injEq] at hres
    obtain ⟨rfl, -⟩ := hres
    by_cases hlow : leastAcked seq id now s < s.validSendingDataHead
    · rw [if_pos hlow]
      exact Or.inl ⟨Or.inr hlow, ⟨idle_reset _, rfl, h.sending⟩, rfl⟩
    · rw [if_neg hlow]
      exact Or.inr ⟨hnew, Nat.not_lt.mp hlow, _, _, idle_reset _, rfl⟩

theorem Moves.ranged (hm : Moves seq id now s t) (h : Ranged s) : Ranged t := by
  obtain ⟨-, -, m, pm, hidle, rfl⟩ := hm
  obtain ⟨-, hsend, hpm⟩ := speedControl_head { s with
    mapRecvers := m
    pMem := pm
    validSendingDataHead := u64 (leastAcked seq id now s + 1) }
  refine ⟨?_, speedControl_lt h.speed, ?_⟩
  · rw [hpm]
    exact hidle
  · rw [hsend]
    exact h.sending

theorem SameRate.counts (h : SameRate s t) (hh : t.validSendingDataHead = s.validSendingDataHead) :
    Counts s t :=
  ⟨Nat.le_of_eq h.speed.symm, Or.inl hh⟩

/-- When an ack that moves the head counts right, by the number that all receivers have. -/
theorem Moves.counts_iff (hm : Moves seq id now s t) (h : Ranged s)
    (hlast : leastAcked seq id now s + 1 < 2 ^ 64) :
    Counts s t ↔ leastAcked seq id now s < s.sendingSeqNo ∧
      (s.sendingSeqNo ≤ leastAcked seq id now s + s.lastSendAndAckWinSize → RaiseDue s →
        s.sendSpeed + incSpeed < 2 ^ 32) := by
  obtain ⟨hnew, hhigh, m, pm, hidle, rfl⟩ := hm
  have hsending := h.sending
  set n := leastAcked seq id now s with hn
  set u : SendSock := { s with mapRecvers := m, pMem := pm, validSendingDataHead := u64 (n + 1) }
    with hu
  have hhead : u.validSendingDataHead = n + 1 := u64_of_lt hlast
  obtain ⟨h1, h2, -⟩ := speedControl_head u
  have hspeed := le_speedControl_iff (s := u) h.speed
  have hraise : RaiseDue u ↔ RaiseDue s := Iff.rfl
  have hmeasure : n + 1 ≤ s.sendingSeqNo → sub64 u.sendingSeqNo u.validSendingDataHead =
      s.sendingSeqNo - (n + 1) := fun hle => by
    rw [hhead]
    exact sub64_of_le hsending hle
  have hfull : n + 1 ≤ s.sendingSeqNo → (s.sendingSeqNo - (n + 1) < s.lastSendAndAckWinSize ↔
      s.sendingSeqNo ≤ n + s.lastSendAndAckWinSize) := fun hle => by omega
  constructor
  · rintro ⟨hup, hstay | ⟨hle, -⟩⟩
    · rw [h1, hhead] at hstay
      omega
    · rw [h1, h2, hhead] at hle
      refine ⟨hle, fun hwin hdue => ?_⟩
      refine (hspeed.mp hup) ?_ hdue
      rw [hmeasure hle]
      exact (hfull hle).mpr hwin
  · rintro ⟨hle, hfit⟩
    refine ⟨hspeed.mpr fun hwin hdue => hfit ?_ hdue, Or.inr ⟨?_, ?_⟩⟩
    · rw [hmeasure hle] at hwin
      exact (hfull hle).mp hwin
    · rw [h1, h2, hhead]
      exact hle
    · rw [h1, h2]
      exact (hmeasure hle).trans (by rw [hhead])

/-- **An ack that fits** counts right. -/
theorem counts_of_fits (h : Ranged s) (hnow : now < 2 ^ 64)
    (hcase : (seq < s.validSendingDataHead ∨ leastAcked seq id now s < s.validSendingDataHead) ∧
        SameRate s t ∧ t.validSendingDataHead = s.validSendingDataHead ∨ Moves seq id now s t)
    (hfit : AckFits seq id now s) : Counts s t := by
  rcases hcase with ⟨-, hsame, hhead⟩ | hm
  · exact hsame.counts hhead
  · have hnew := hm.1
    have hhigh := hm.2.1
    have hsending := h.sending
    rcases hfit with (hlow | ⟨hpos, hw⟩) | ⟨⟨hpos, hw⟩, hraise⟩
    · omega
    · have := leastAcked_le hw hnow
      omega
    · have hle := leastAcked_le hw hnow
      refine (hm.counts_iff h (by omega)).mpr ⟨by omega, fun hwin hdue => ?_⟩
      rcases hraise hdue with ⟨hpos', hw'⟩ | hfits
      · have := leastAcked_le hw' hnow
        omega
      · exact hfits

/-- **An honest ack that does not fit** counts wrong. -/
theorem fits_of_counts (h : Ranged s) (hnow : now < 2 ^ 64) (hk : Keyed s.mapRecvers)
    (hb : Below s.sendingSeqNo s.mapRecvers) (hseq : seq ≤ s.sendingSeqNo)
    (hlast : s.sendingSeqNo < 2 ^ 64 - 1)
    (hcase : (seq < s.validSendingDataHead ∨ leastAcked seq id now s < s.validSendingDataHead) ∧
        SameRate s t ∧ t.validSendingDataHead = s.validSendingDataHead ∨ Moves seq id now s t)
    (hc : Counts s t) : AckFits seq id now s := by
  rcases hcase with ⟨hlow | hlow, -⟩ | hm
  · exact Or.inl (Or.inl hlow)
  · exact Or.inl (Or.inr ⟨by omega, (leastAcked_le_iff hk hnow _ _ _).mp (by omega)⟩)
  · obtain ⟨-, hfirst, -⟩ := prune_spec now s.maxKeepAliveTimeUs
      (ackTable seq id now (s.table id)) (firstRecved (ackTable seq id now (s.table id)))
    have hle : leastAcked seq id now s ≤ s.sendingSeqNo :=
      Nat.le_trans hfirst (firstRecved_le (below_ackTable (below_table hb id) hseq id now))
    obtain ⟨hless, hraise⟩ := (hm.counts_iff h (by omega)).mp hc
    refine Or.inr ⟨⟨by omega, (leastAcked_le_iff hk hnow _ _ _).mp (by omega)⟩, fun hdue => ?_⟩
    by_cases hwin : s.sendingSeqNo ≤ leastAcked seq id now s + s.lastSendAndAckWinSize
    · exact Or.inr (hraise hwin hdue)
    · exact Or.inl ⟨by omega, (leastAcked_le_iff hk hnow _ _ _).mp (by omega)⟩

/-! ### Runs -/

theorem Honest.feedback (h : Honest p a) : IsFeedback a := by
  rcases a with q | ⟨now, stack, io⟩ | ⟨r, now, fresh, sent⟩ | ⟨m, place⟩
  · trivial
  · trivial
  · rcases r with ⟨src, d⟩ | _ | _ | _
    · exact ⟨h.1, h.2.imp (fun ⟨seq, id, hd, _⟩ => ⟨seq, id, hd⟩) id⟩
    · trivial
    · trivial
    · trivial
  · trivial

theorem lawful_same (h : (step strict p a).sock = p.sock) : Lawful strict p a := by
  unfold Lawful
  rw [h]
  rcases a with q | ⟨now, stack, io⟩ | ⟨r, now, fresh, sent⟩ | ⟨m, place⟩
  · rfl
  · rfl
  · rcases r with ⟨src, d⟩ | _ | _ | _
    · dsimp only
      split_ifs
      · exact Nat.le_refl _
      · exact ⟨Nat.le_refl _, Or.inl rfl⟩
    · rfl
    · rfl
    · rfl
  · rfl

theorem dgram_rate (h : Ranged p.sock) (hf : p.fault = none) {src : SockAddr} {fresh : ℕ → UInt8}
    {sent : ℕ → Bool} (ha : IsFeedback (.input (.dgram src d) now fresh sent))
    {l : List (List UInt8)}
    (hres : (SendAct.exec strict p.sock (.input (.dgram src d) now fresh sent)).res = .ok (t, l)) :
    Ranged t ∧ (Spared p (.input (.dgram src d) now fresh sent) →
      if opcode d = epNak then t.sendSpeed ≤ p.sock.sendSpeed else Counts p.sock t) := by
  obtain ⟨hnow, ⟨seq, id, hd⟩ | ⟨lo, hi, id, hd⟩⟩ := ha
  · have hne : ¬ opcode d = epNak := by
      rw [hd.op]
      decide
    have hcase := ack_exec h hd hres
    refine ⟨?_, fun hs => ?_⟩
    · rcases hcase with ⟨-, hsame, -⟩ | hm
      · exact hsame.ranged h
      · exact hm.ranged h
    · have hfit : AckFits (word 0 d) (word 1 d) now p.sock := by
        have hs' := hs hf
        simp only [Fits, if_neg hne] at hs'
        exact hs'
      rw [hd.seq, hd.id] at hfit
      rw [if_neg hne]
      exact counts_of_fits h hnow hcase hfit
  · obtain ⟨hr, hspeed, -⟩ := nak_exec h hd hres
    refine ⟨hr, fun hs => ?_⟩
    have hfit : CutFits p.sock := by
      have hs' := hs hf
      simp only [Fits, if_pos hd.op] at hs'
      exact hs'
    rw [if_pos hd.op, hspeed]
    exact (countNak_le_iff h.speed id now).mpr hfit

/-- **A step** keeps the widths, and if its feedback is spared, the law. -/
theorem step_rate (h : Ranged p.sock) (ha : IsFeedback a) (hs : Spared p a) :
    Ranged (step strict p a).sock ∧ Lawful strict p a := by
  rcases hf : p.fault with _ | f
  · rcases hres : (a.exec strict p.sock).res with f | ⟨t, l⟩
    · have hsame : (step strict p a).sock = p.sock := by rw [step_of_error hf hres]
      exact ⟨hsame ▸ h, lawful_same hsame⟩
    · have hstep : (step strict p a).sock = t := by rw [step_of_ok hf hres]
      unfold Lawful
      rw [hstep]
      rcases a with q | ⟨now, stack, io⟩ | ⟨r, now, fresh, sent⟩ | ⟨m, place⟩
      · have hsame := sameRate_send h q hres
        exact ⟨hsame.ranged h, hsame.speed⟩
      · have hsame := sameRate_canSend h hres
        exact ⟨hsame.ranged h, hsame.speed⟩
      · by_cases hr : ∃ src d, r = .dgram src d
        · obtain ⟨src, d, rfl⟩ := hr
          obtain ⟨h1, h2⟩ := dgram_rate h hf ha hres
          exact ⟨h1, h2 hs⟩
        · have hsame := sameRate_noDgram h (fun src d he => hr ⟨src, d, he⟩) hres
          refine ⟨hsame.ranged h, ?_⟩
          rcases r with ⟨src, d⟩ | _ | _ | _
          · exact absurd ⟨src, d, rfl⟩ hr
          · exact hsame.speed
          · exact hsame.speed
          · exact hsame.speed
      · have hsame := sameRate_rehash h hres
        exact ⟨hsame.ranged h, hsame.speed⟩
  · have hsame : (step strict p a).sock = p.sock := by
      rw [step_dead (by rw [hf]; exact Option.some_ne_none f)]
    exact ⟨hsame ▸ h, lawful_same hsame⟩

/-- **The rate control**, over a run with honest feedback that is always spared. -/
theorem rate_kept (strict : Bool) (mc : SockAddr) (sid : UInt8) (alive speed hb : ℕ)
    (hspeed : speed < 2 ^ 32) (as : List SendAct)
    (hm : Meets (step strict) (fun p a => Honest p a ∧ Spared p a)
      (init mc sid alive speed hb) as) :
    Meets (step strict) (Lawful strict) (init mc sid alive speed hb) as := by
  have h0 : Ranged (init mc sid alive speed hb).sock :=
    ⟨(kept_init mc sid alive speed hb).idle, hspeed, by show 0 < 2 ^ 64; decide⟩
  exact (run_inv_meets (B := fun _ => True) (I := fun p => Ranged p.sock) (fun _ _ h => h)
    (fun p a h hc _ => step_rate h hc.1.feedback hc.2) h0 hm trivial).2

/-- A sender whose receivers are live for 1 s, at the default speed. -/
def usual : Sender := init ⟨1, 1⟩ 7 1000000 500 1000000

/-- Two packets are given to the sender and sent. -/
def two : List SendAct := first ++ first

/-- A NAK for the second of two packets, and an ack of the first. -/
theorem rate_kept_two :
    Meets (step true) (Lawful true) usual (two ++ [arrive (nakBytes (fun _ => 0) 2 2 5),
      arrive (ackBytes (fun _ => 0) 1 5)]) :=
  rate_kept true ⟨1, 1⟩ 7 1000000 500 1000000 (by decide)
    (two ++ [arrive (nakBytes (fun _ => 0) 2 2 5), arrive (ackBytes (fun _ => 0) 1 5)])
    ⟨⟨trivial, by decide⟩, ⟨trivial, by decide⟩, ⟨trivial, by decide⟩, ⟨trivial, by decide⟩,
      ⟨⟨by decide, Or.inr ⟨2, 2, 5, isNak_nakBytes _ (by omega) (by omega) (by omega)⟩⟩, by decide⟩,
      ⟨⟨by decide, Or.inl ⟨1, 5, isAck_ackBytes _ (by omega) (by omega), by decide⟩⟩, by decide⟩,
      trivial⟩

/-! ### A burst of NAKs -/

/-- A sender at the speed `v` that has counted `k` NAKs and can answer one for `lo` to `hi`. -/
structure Asked (lo hi k v : ℕ) (p : Sender) : Prop where
  kept : Kept p
  ranged : Ranged p.sock
  fault : p.fault = none
  fewer : Fewer p
  first : p.sock.validSendingDataHead ≤ lo
  last : hi < p.sock.validSendingDataTail
  naks : p.sock.naks = k
  speed : p.sock.sendSpeed = v

theorem asked_step (strict : Bool) {lo hi k v : ℕ} (h : Asked lo hi k v p)
    (hd : IsNak lo hi id d) (h1 : 1 ≤ lo)
    (hk : k ≤ maxNakCnt) (hnow : now < 2 ^ 64) (src : SockAddr) (fresh : ℕ → UInt8)
    (sent : ℕ → Bool) :
    Asked lo hi (if k = maxNakCnt then 0 else k + 1) (if k = maxNakCnt then sub32 v cutSpeed else v)
      (step strict p (.input (.dgram src d) now fresh sent)) := by
  have ha : IsFeedback (.input (.dgram src d) now fresh sent) :=
    ⟨hnow, Or.inr ⟨lo, hi, id, hd⟩⟩
  obtain ⟨b, hb, heq⟩ := exec_isNak strict h.ranged.idle hd src now fresh sent
  have hfirst := h.first
  have hlast := h.last
  rcases nak_cases h.kept.slots strict hb hd (Or.inl h1) now sent (some b) with
    ⟨hout, -⟩ | ⟨ret, t, hrun, hst, hh, -⟩
  · omega
  have hres : (SendAct.exec strict p.sock (.input (.dgram src d) now fresh sent)).res =
      .ok (t, []) := by
    rw [heq, Eff.bind_of_ok hrun]
    rfl
  have hstep := step_of_ok h.fault hres
  have hfew : Fewer (step strict p (.input (.dgram src d) now fresh sent)) := by
    rw [hstep]
    unfold Fewer
    rw [List.append_nil]
    exact h.fewer
  have hkept := kept_step h.kept ha (fun _ => by
    have hnak : ¬ epNak = epAck := by decide
    simp only [Harmless, hd.op, if_neg hnak, hd.first]
    exact Or.inl h1) hfew
  obtain ⟨hr, hspeed, hnaks⟩ := nak_exec h.ranged hd hres
  have hu : u32 (p.sock.naks + 1) = k + 1 := by
    rw [h.naks]
    have hmax : maxNakCnt = 1000 := rfl
    exact u32_of_lt (by omega)
  rw [hstep] at hkept hfew ⊢
  have hcounts : t.naks = (if k = maxNakCnt then 0 else k + 1) ∧
      t.sendSpeed = if k = maxNakCnt then sub32 v cutSpeed else v := by
    rw [hspeed, hnaks]
    rcases countNak_cases p.sock id now with ⟨hcut, hc⟩ | ⟨hcut, hc⟩
    · have hk' : k = maxNakCnt := by omega
      rw [hc, if_pos hk', if_pos hk', ← h.speed]
      exact ⟨rfl, rfl⟩
    · have hk' : ¬ k = maxNakCnt := by omega
      rw [hc, if_neg hk', if_neg hk', ← h.speed]
      exact ⟨hu, rfl⟩
  exact ⟨hkept, hr, rfl, hfew, hh ▸ hfirst, hst.win.tail ▸ hlast, hcounts.1, hcounts.2⟩

/-- **A burst of NAKs** cuts the speed modulo 2^32. -/
theorem burst_cuts (strict : Bool) {lo hi v : ℕ} (h : Asked lo hi 0 v p) (hd : IsNak lo hi id d)
    (h1 : 1 ≤ lo) (hnow : now < 2 ^ 64) (src : SockAddr) (fresh : ℕ → UInt8) (sent : ℕ → Bool)
    {n : ℕ} (hn : n = maxNakCnt + 1) :
    (run (step strict) p (List.replicate n
      (.input (.dgram src d) now fresh sent))).sock.sendSpeed = sub32 v cutSpeed := by
  have hcount : ∀ n, n ≤ maxNakCnt → Asked lo hi n v
      (run (step strict) p (List.replicate n (.input (.dgram src d) now fresh sent))) := by
    intro n
    induction n with
    | zero => exact fun _ => h
    | succ n ih =>
      intro hn
      have hne : ¬ n = maxNakCnt := by omega
      have hnext := asked_step strict (ih (by omega)) hd h1 (by omega) hnow src fresh
        sent
      rw [if_neg hne, if_neg hne] at hnext
      rw [List.replicate_succ', run_append]
      exact hnext
  obtain ⟨k, hk⟩ : ∃ k, k = maxNakCnt := ⟨_, rfl⟩
  have hlast := asked_step strict (hcount k (by omega)) hd h1 (by omega) hnow src fresh
    sent
  rw [hn, ← hk, List.replicate_succ', run_append]
  exact hlast.speed.trans (if_pos hk)

/-- **At the default speed** the burst leaves 2^32 - 9500; and an ack of everything that was sent
finds 2^64 - 1 packets in flight. -/
theorem burst_wraps :
    (run (step true) usual (first ++ List.replicate 1001
      (arrive (nakBytes (fun _ => 0) 1 1 5)))).sock.sendSpeed = 4294957796 ∧
    ¬ ∀ as, Meets (step true) Honest usual as → Meets (step true) (Lawful true) usual as := by
  constructor
  · have hfeedback : ∀ c ∈ first, IsFeedback c := by
      intro c hc
      rcases List.mem_pair.mp hc with rfl | rfl
      · trivial
      · trivial
    have hstart : Asked 1 1 0 500 (run (step true) usual first) := by
      have hkept : Kept (run (step true) usual first) :=
        run_kept first (kept_init ⟨1, 1⟩ 7 1000000 500 1000000) hfeedback (by decide)
          (by unfold Fewer; decide)
      exact ⟨hkept, ⟨hkept.idle, by decide, by decide⟩, by decide, by unfold Fewer; decide,
        by decide, by decide, by decide, by decide⟩
    have hnak : IsNak 1 1 5 (nakBytes (fun _ => 0) 1 1 5) :=
      isNak_nakBytes _ (by omega) (by omega) (by omega)
    have hnow : 1 < 2 ^ 64 := by omega
    have hmax : 1001 = maxNakCnt + 1 := rfl
    have hcut := burst_cuts true hstart hnak (by omega) hnow ⟨9, 9⟩ (fun _ => 0) (fun _ => true)
      hmax
    have harrive : arrive (nakBytes (fun _ => 0) 1 1 5) = .input
      (.dgram ⟨9, 9⟩ (nakBytes (fun _ => 0) 1 1 5)) 1 (fun _ => 0) fun _ => true := rfl
    rw [run_append, harrive, hcut]
    decide
  · intro h
    have hack := h (first ++ [arrive (ackBytes (fun _ => 0) 1 5)])
      ⟨trivial, trivial, ⟨by decide, Or.inl ⟨1, 5, isAck_ackBytes _ (by omega) (by omega),
        by decide⟩⟩, trivial⟩
    obtain ⟨-, -, hlaw, -⟩ := hack
    have hcounts : Counts _ _ := hlaw
    rcases hcounts.inFlight with hstay | ⟨hle, -⟩
    · exact absurd hstay (by decide)
    · exact absurd hle (by decide)

end SmartNet.Network.Rmp.Rate
