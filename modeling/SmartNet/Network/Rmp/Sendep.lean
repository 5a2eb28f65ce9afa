import SmartNet.Network.Rmp.Wire
import SmartNet.Network.Udp

/-! # The sending `CRmpSock`

The state and the calls of a `CRmpSock` of type `RMP_SEND_SOCK`; `sendep` in front of a name stands
for the sending branch of a call that both types share. The send window `vecSendWin` holds packet
`q` in slot `q % sendWinSize`. `mapRecvers` is the receiver table, a list of entries in the order an
iteration meets them; a new entry may come anywhere in this order, and `place` says where.

A handler of feedback takes a flag `strict`: whether the `CMN_ASSERT(false)` in front of the discard
of a packet outside the window ends the process. -/

namespace SmartNet.Network.Rmp.Sendep

open SmartNet.Common SmartNet.Lib SmartNet.Lib.Bytes SmartNet.Memory.MemBlock SmartNet.Network.Udp
open SmartNet.Network.Rmp.Wire

/-- `__SEND_WIN_SIZE__`, the value of `m_ui32SenderWinSize`. -/
def sendWinSize : ℕ := 1000000

/-- `__MAX_NAK_CNT__`. -/
def maxNakCnt : ℕ := 1000

/-- `__CUT_SPEED__`. -/
def cutSpeed : ℕ := 10000

/-- `__INC_SPEED__`. -/
def incSpeed : ℕ := 1000

/-- `__INC_SPEED_INTERVAL__`. -/
def incSpeedInterval : ℕ := 10000

structure SRecverInfo where
  lastRecvedSeqNo : ℕ := 0
  naks : ℕ := 0
  lastUpdateTimeUs : ℕ := 0
  deriving DecidableEq, Repr

abbrev RecverMap := List (ℕ × SRecverInfo)

/-- The insertion of `operator[]`: if there is no entry of `id`, one with the default comes behind
the first `n` entries. -/
def RecverMap.reserve (n id : ℕ) (m : RecverMap) : RecverMap :=
  if (m.lookup id).isSome then m else m.take n ++ (id, {}) :: m.drop n

/-- The entry of `id`, changed by `f`. The handlers reserve one first; without one, a new one would
come at the end. -/
def RecverMap.at (id : ℕ) (f : SRecverInfo → SRecverInfo) : RecverMap → RecverMap
  | [] => [(id, f {})]
  | (i, x) :: m => if i = id then (i, f x) :: m else (i, x) :: RecverMap.at id f m

structure SendSock where
  pMem : Option CMemBlock
  senderId : UInt8
  vecSendWin : ℕ → Option CMemBlock
  validSendingDataHead : ℕ
  validSendingDataTail : ℕ
  sendingSeqNo : ℕ
  lastHbTime : ℕ
  hbInterval : ℕ
  speedHelper : ℕ
  lastSendingSeqNo : ℕ
  lastSendAndAckWinSize : ℕ
  addrMulticast : SockAddr
  maxKeepAliveTimeUs : ℕ
  naks : ℕ
  sendSpeed : ℕ
  mapRecvers : RecverMap
  /-- how many entries an iteration meets before a new entry of an id -/
  place : ℕ → ℕ

/-- `m_mapRecvers` once it has an entry of `id`. -/
def SendSock.table (s : SendSock) (id : ℕ) : RecverMap := s.mapRecvers.reserve (s.place id) id

/-- A constructed socket after `open`. -/
def «open» (multicast : SockAddr) (senderId : UInt8)
    (maxKeepAliveTimeUs initSendSpeed hbInterval : ℕ) :
    SendSock where
  pMem := none
  senderId := senderId
  vecSendWin := fun _ => none
  validSendingDataHead := 0
  validSendingDataTail := 1
  sendingSeqNo := 0
  lastHbTime := 0
  hbInterval := hbInterval
  speedHelper := 0
  lastSendingSeqNo := 0
  lastSendAndAckWinSize := sendWinSize / 100
  addrMulticast := multicast
  maxKeepAliveTimeUs := maxKeepAliveTimeUs
  naks := 0
  sendSpeed := initSendSpeed
  mapRecvers := []
  place := fun _ => 0

/-- The block of a packet, with its header filled in and the sequence number still to come. -/
def fillHdr (sid : UInt8) (pMem : CMemBlock) : CMemBlock :=
  ((pMem.put 3 [epData]).put 0 (leBytes 3 pMem.len)).put 4 [sid]

/-- `send`: the code, the block the caller is left with, and the socket. -/
def send (s : SendSock) (pMem : CMemBlock) :
    Eff Ev Fault (Cmnerr × Option CMemBlock × SendSock) := do
  Eff.require (pMem.offset = 16) .sendOffset
  let (ret, pMem) := pMem.incHeadData 8
  Eff.require (ret = .suc) .sendHeadroom
  let (ret, pMem) := pMem.incHeadData 8
  Eff.require (ret = .suc) .sendHeadroom
  let pMem := fillHdr s.senderId pMem
  if u64 (s.validSendingDataTail + 1) % sendWinSize = s.validSendingDataHead % sendWinSize then
    pure (.noSpace, some pMem, s)
  else
    -- `pOdata` points 8 bytes behind `pHdr`
    let pMem := pMem.put 8 (leBytes 8 s.validSendingDataTail)
    pure (.suc, none,
      { s with
        vecSendWin :=
          Function.update s.vecSendWin (s.validSendingDataTail % sendWinSize) (some pMem)
        validSendingDataTail := u64 (s.validSendingDataTail + 1) })

/-- The heartbeat of `handle_can_send`. -/
def sendepHb (s : SendSock) (now : ℕ) (stack : ℕ → UInt8) (io : Sendto) : Eff Ev Fault SendSock :=
  let s := if s.lastHbTime = 0 then { s with lastHbTime := now } else s
  if s.hbInterval < sub64 now s.lastHbTime then do
    let ret ← udpSend io (hbBytes stack s.senderId s.sendingSeqNo s.validSendingDataHead)
      s.addrMulticast
    Eff.require (ret = .suc) .sendHb
    pure s
  else pure s

/-- One pass of the loop of `handle_can_send`; a code ends the loop. -/
def sendepHandleCanSend (s : SendSock) (now : ℕ) (stack : ℕ → UInt8) (io : Sendto) :
    Eff Ev Fault (Option Cmnerr × SendSock) :=
  if sendWinSize / 10 < sub64 (u64 (s.sendingSeqNo + 1)) s.validSendingDataHead ∨
      u64 (s.sendingSeqNo + 1) = s.validSendingDataTail then do
    let s ← sendepHb s now stack io
    pure (some .suc, s)
  else do
    Eff.require (s.sendingSeqNo < s.validSendingDataTail) .sendingSeqNo
    match s.vecSendWin (u64 (s.sendingSeqNo + 1) % sendWinSize) with
    | none => Eff.abort .nullDeref
    | some pMem => do
      let ret ← udpSend io pMem.data s.addrMulticast
      if ret = .ioErr ∨ ret = .sendPending then pure (some ret, s)
      else pure (none, { s with sendingSeqNo := u64 (s.sendingSeqNo + 1) })

/-- The loop of `sendep_handle_nak`: `k` packets from number `q` on. `sent q` is whether `sendto`
succeeds once it does not block. -/
def retransmit (s : SendSock) (sent : ℕ → Bool) : ℕ → ℕ → Eff Ev Fault Cmnerr
  | 0, _ => pure .suc
  | k + 1, q =>
    match s.vecSendWin (q % sendWinSize) with
    | none => Eff.abort .nullDeref
    | some pMem => do
      let ret ← udpSend (if sent q then .sent else .err) pMem.data s.addrMulticast
      if ret ≠ .suc then pure ret else retransmit s sent k (u64 (q + 1))

/-- The counters of `sendep_handle_nak`. -/
def countNak (s : SendSock) (id now : ℕ) : SendSock :=
  let s := { s with
    mapRecvers :=
      RecverMap.at id (fun i => { i with lastUpdateTimeUs := now, naks := u32 (i.naks + 1) })
        (s.table id)
    naks := u32 (s.naks + 1) }
  if maxNakCnt < s.naks then { s with naks := 0, sendSpeed := sub32 s.sendSpeed cutSpeed } else s

/-- `sendep_handle_nak`, for the block `m_pMem` points to. -/
def sendepHandleNak (strict : Bool) (s : SendSock) (pMem : CMemBlock) (now : ℕ) (sent : ℕ → Bool) :
    Eff Ev Fault (Cmnerr × SendSock) :=
  let b := pMem.get64 0
  let e := pMem.get64 8
  let id := pMem.get64 16
  let pMem := pMem.decHeadData 24
  let s := countNak s id now
  if b < s.validSendingDataHead ∨ s.validSendingDataTail ≤ e then do
    Eff.require (strict = false) .sendepHandleNak
    pure (.suc, { s with pMem := some pMem.reset })
  else do
    let s := { s with pMem := some pMem.reset }
    let ret ← retransmit s sent (e + 1 - b) b
    pure (ret, s)

/-- The loop of `sendep_handle_ack` over the receiver table: the smallest acknowledged number and
the entries that are kept. -/
def prune (now maxKeepAliveTimeUs : ℕ) : ℕ → RecverMap → ℕ × RecverMap
  | mini, [] => (mini, [])
  | mini, (id, i) :: m =>
    if maxKeepAliveTimeUs < sub64 now i.lastUpdateTimeUs then prune now maxKeepAliveTimeUs mini m
    else
      let mini := if i.lastRecvedSeqNo < mini then i.lastRecvedSeqNo else mini
      let (mini, m) := prune now maxKeepAliveTimeUs mini m
      (mini, (id, i) :: m)

/-- `m_mapRecvers.begin()->second.ui64LastRecvedSeqNo`. -/
def firstRecved : RecverMap → ℕ
  | [] => 0
  | (_, i) :: _ => i.lastRecvedSeqNo

/-- The speed control of `sendep_handle_ack`. -/
def speedControl (s : SendSock) : SendSock :=
  if sub64 s.sendingSeqNo s.validSendingDataHead < s.lastSendAndAckWinSize then
    let s := { s with speedHelper := u32 (s.speedHelper + 1) }
    let s :=
      if 1000 < s.speedHelper ∧ incSpeedInterval < sub64 s.sendingSeqNo s.lastSendingSeqNo then
        { s with
          lastSendAndAckWinSize := sub64 s.sendingSeqNo s.validSendingDataHead
          sendSpeed := u32 (s.sendSpeed + incSpeed) }
      else s
    { s with lastSendingSeqNo := s.sendingSeqNo }
  else { s with speedHelper := 0 }

/-- `sendep_handle_ack`, for the block `m_pMem` points to. -/
def sendepHandleAck (strict : Bool) (s : SendSock) (pMem : CMemBlock) (now : ℕ) :
    Eff Ev Fault (Cmnerr × SendSock) :=
  let seqNo := pMem.get64 0
  let id := pMem.get64 8
  let pMem := pMem.decHeadData 16
  let s := { s with
    mapRecvers := RecverMap.at id (fun i => { i with lastUpdateTimeUs := now }) (s.table id) }
  if seqNo < s.validSendingDataHead then do
    Eff.require (strict = false) .sendepHandleAck
    pure (.suc, { s with pMem := some pMem.reset })
  else
    let s := { s with
      mapRecvers := RecverMap.at id (fun i => { i with
        lastRecvedSeqNo := if seqNo < i.lastRecvedSeqNo then i.lastRecvedSeqNo else seqNo })
        s.mapRecvers }
    let (mini, m) := prune now s.maxKeepAliveTimeUs (firstRecved s.mapRecvers) s.mapRecvers
    let s := { s with mapRecvers := m, pMem := some pMem.reset }
    if mini < s.validSendingDataHead then pure (.suc, s)
    else pure (.suc, speedControl { s with validSendingDataHead := u64 (mini + 1) })

/-- `sendep_handle_pkg`, for the block `m_pMem` points to. -/
def sendepHandlePkg (strict : Bool) (s : SendSock) (pMem : CMemBlock) (now : ℕ) (sent : ℕ → Bool) :
    Eff Ev Fault (Cmnerr × SendSock) := do
  let op := pMem.get8 3
  Eff.require (¬ (op ≠ epAck ∧ op ≠ epNak)) .sendepHandlePkg
  let pMem := pMem.decHeadData 8
  if op = epNak then sendepHandleNak strict s pMem now sent else sendepHandleAck strict s pMem now

/-- One pass of the loop of `handle_can_recv`. -/
def sendepHandleCanRecv (strict : Bool) (s : SendSock) (fresh : ℕ → UInt8) (r : Recvfrom) (now : ℕ)
    (sent : ℕ → Bool) : Eff Ev Fault (Cmnerr × SendSock) := do
  let b ← takeMem s.pMem fresh
  let (ret, b, _) ← udpRecv b r
  let s := { s with pMem := some b }
  if ret ≠ .suc then pure (ret, s) else sendepHandlePkg strict s b now sent

end SmartNet.Network.Rmp.Sendep
