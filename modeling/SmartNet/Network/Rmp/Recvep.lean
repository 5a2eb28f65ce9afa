import SmartNet.Network.Rmp.Wire
import SmartNet.Network.Udp

/-! # The receiving `CRmpSock`

The state and the calls of a `CRmpSock` of type `RMP_RECV_SOCK`; `recvep` in front of a name stands
for the receiving branch of a call that both types share. The reorder buffer `vecUnvalidPkgs` holds
packet `q` in slot `q % unorderedPkgsCnt`. A call takes the clock, the outcome of its `sendto` and
the memory it finds (`fresh` for a new block, `stack` for its buffers) as arguments. -/

namespace SmartNet.Network.Rmp.Recvep

open SmartNet.Common SmartNet.Lib SmartNet.Memory.MemBlock SmartNet.Network.Udp
open SmartNet.Network.Rmp.Wire

/-- `__UNORDERED_PKGS_CNT__`, the value of `m_ui32UnvalidPkgsSize`. -/
def unorderedPkgsCnt : ℕ := 100000

/-- `__SEND_ACK_INTERVAL__`. -/
def sendAckInterval : ℕ := 10000

/-- `__SEND_NAK_INTERVAL__`. -/
def sendNakInterval : ℕ := 1000

structure RecvSock where
  epid : ℕ
  pMem : Option CMemBlock
  senderId : UInt8
  validPkgBegin : ℕ
  validPkgEnd : ℕ
  addrSender : SockAddr
  latestRecvedValidSeqNo : ℕ
  lastSendNakTime : ℕ
  sendAckCnt : ℕ
  appConfirmAck : ℕ
  appConfirmAckTmp : ℕ
  unvalidPkgBegin : ℕ
  unvalidPkgEnd : ℕ
  lastSendAckTime : ℕ
  vecUnvalidPkgs : ℕ → Option CMemBlock

/-- A constructed socket after `open`. -/
def «open» (senderId : UInt8) (ackConfirmCnt : ℕ) : RecvSock where
  epid := 0
  pMem := none
  senderId := senderId
  validPkgBegin := 0
  validPkgEnd := 0
  addrSender := ⟨0, 0⟩
  latestRecvedValidSeqNo := 0
  lastSendNakTime := 0
  sendAckCnt := ackConfirmCnt
  appConfirmAck := 0
  appConfirmAckTmp := 0
  unvalidPkgBegin := 0
  unvalidPkgEnd := 0
  lastSendAckTime := 0
  vecUnvalidPkgs := fun _ => none

/-- The union `m_epid` read as a number, for the address the socket is bound to. -/
def epidOf (bound : SockAddr) : ℕ := u32 bound.addr + 2 ^ 32 * (bound.port % 2 ^ 16)

/-- `join_multicast_group`, when the group could be joined. -/
def joinMulticastGroup (s : RecvSock) (bound : SockAddr) : RecvSock :=
  { s with epid := epidOf bound }

/-- `set_ack`. -/
def setAck (s : RecvSock) (bFlag : Bool) (stack : ℕ → UInt8) (io : Sendto) :
    Eff Ev Fault RecvSock :=
  let s := { s with appConfirmAck := s.latestRecvedValidSeqNo }
  if 0 < s.appConfirmAck ∧ (bFlag ∨ s.sendAckCnt ≤ sub64 s.appConfirmAck s.appConfirmAckTmp) then do
    let s := if bFlag then s else { s with appConfirmAckTmp := s.appConfirmAck }
    let ret ← udpSend io (ackBytes stack s.appConfirmAck s.epid) s.addrSender
    Eff.require (ret = .suc) .setAck
    pure s
  else pure s

/-- `get_next_recved_data`: the code, the block and the socket. -/
def getNextRecvedData (s : RecvSock) (stack : ℕ → UInt8) (io : Sendto) :
    Eff Ev Fault (Cmnerr × Option CMemBlock × RecvSock) :=
  match s.pMem.filter (0 < ·.len) with
  | some b => pure (.suc, some b, { s with pMem := none })
  | none =>
    if 0 < s.validPkgBegin ∧ s.validPkgBegin ≤ s.validPkgEnd then
      let i := s.validPkgBegin % unorderedPkgsCnt
      pure (.suc, s.vecUnvalidPkgs i,
        { s with
          vecUnvalidPkgs := Function.update s.vecUnvalidPkgs i none
          validPkgBegin := u64 (s.validPkgBegin + 1) })
    else do
      let s ← setAck { s with validPkgBegin := 0, validPkgEnd := 0 } false stack io
      pure (.noData, none, s)

/-- `get_next_recved_data` until `CMNERR_NO_DATA`, handing each block to the application. The first
argument bounds the number of calls. -/
def drain (stack : ℕ → UInt8) (io : Sendto) : ℕ → RecvSock → Eff Ev Fault RecvSock
  | 0, s => pure s
  | k + 1, s => do
    let (ret, pMem, s) ← getNextRecvedData s stack io
    if ret = .suc then do
      Eff.emit (.recved pMem)
      drain stack io k s
    else pure s

/-- More calls than `get_next_recved_data` can return a block for. -/
def drainFuel (s : RecvSock) : ℕ := (s.validPkgEnd + 1 - s.validPkgBegin) + 2

/-- The loop that looks for `m_ui64ValidPkgEnd`; the first argument is how far it is below
`m_ui64UnvalidPkgEnd`. -/
def findValidPkgEnd (slots : ℕ → Option CMemBlock) : ℕ → ℕ → ℕ
  | 0, e => e
  | k + 1, e =>
    if slots (u64 (e + 1) % unorderedPkgsCnt) = none then e
    else findValidPkgEnd slots k (u64 (e + 1))

/-- The loop that looks for `m_ui64UnvalidPkgBegin`; the first argument is how far it is below
`m_ui64UnvalidPkgEnd`. -/
def findUnvalidPkgBegin (slots : ℕ → Option CMemBlock) : ℕ → ℕ → ℕ
  | 0, b => b
  | k + 1, b =>
    if slots (b % unorderedPkgsCnt) = none then findUnvalidPkgBegin slots k (u64 (b + 1)) else b

/-- The part of `recvep_handle_odata` that activates the packets behind the gap that was closed. -/
def activate (s : RecvSock) : RecvSock :=
  let e := findValidPkgEnd s.vecUnvalidPkgs (s.unvalidPkgEnd - s.unvalidPkgBegin) s.unvalidPkgBegin
  let s := { s with validPkgBegin := s.unvalidPkgBegin, validPkgEnd := e }
  let s :=
    if e < s.unvalidPkgEnd then
      let b := u64 (e + 1)
      { s with unvalidPkgBegin := findUnvalidPkgBegin s.vecUnvalidPkgs (s.unvalidPkgEnd - b) b }
    else { s with unvalidPkgBegin := 0, unvalidPkgEnd := 0 }
  { s with latestRecvedValidSeqNo := e }

/-- The part of `recvep_handle_odata` that moves the ends of the reorder buffer for a packet above
the next one. -/
def widen (s : RecvSock) (seqNo : ℕ) : Eff Ev Fault RecvSock :=
  if s.unvalidPkgBegin = 0 then pure { s with unvalidPkgBegin := seqNo, unvalidPkgEnd := seqNo }
  else if seqNo < s.unvalidPkgBegin then pure { s with unvalidPkgBegin := seqNo }
  else if s.unvalidPkgEnd < seqNo then
    if unorderedPkgsCnt < sub64 seqNo s.latestRecvedValidSeqNo then Eff.abort .beyondLimitation
    else pure { s with unvalidPkgEnd := seqNo }
  else pure s

/-- `recvep_handle_odata`, for the block `m_pMem` points to. -/
def recvepHandleOdata (s : RecvSock) (pMem : CMemBlock) : Eff Ev Fault (Cmnerr × RecvSock) :=
  let seqNo := pMem.get64 0
  let pMem := pMem.decHeadData 8
  if seqNo = u64 (1 + s.latestRecvedValidSeqNo) then
    let s := { s with
      pMem := some pMem
      latestRecvedValidSeqNo := u64 (s.latestRecvedValidSeqNo + 1) }
    if u64 (s.latestRecvedValidSeqNo + 1) = s.unvalidPkgBegin then pure (.odataReady, activate s)
    else pure (.odataReady, s)
  else if seqNo ≤ s.latestRecvedValidSeqNo then
    pure (.suc, { s with pMem := some pMem.reset })
  else do
    let s ← widen s seqNo
    Eff.require (s.vecUnvalidPkgs (seqNo % unorderedPkgsCnt) = none) .slotTaken
    pure (.suc,
      { s with
        vecUnvalidPkgs := Function.update s.vecUnvalidPkgs (seqNo % unorderedPkgsCnt) (some pMem)
        pMem := none })

/-- `recvep_handle_hb`, for the block `m_pMem` points to. -/
def recvepHandleHb (s : RecvSock) (pMem : CMemBlock) (stack : ℕ → UInt8) (io : Sendto) :
    Eff Ev Fault (Cmnerr × RecvSock) :=
  let latestSeqNo := pMem.get64 0
  if s.latestRecvedValidSeqNo < latestSeqNo then do
    let ret ← udpSend io (nakBytes stack (u64 (s.latestRecvedValidSeqNo + 1)) latestSeqNo s.epid)
      s.addrSender
    pure (ret, { s with pMem := some pMem.reset })
  else pure (.suc, { s with pMem := some pMem.reset })

/-- `recvep_handle_pkg`, for the block `m_pMem` points to. -/
def recvepHandlePkg (s : RecvSock) (pMem : CMemBlock) (src : SockAddr) (stack : ℕ → UInt8)
    (io : Sendto) :
    Eff Ev Fault (Cmnerr × RecvSock) := do
  let op := pMem.get8 3
  let sid := pMem.get8 4
  let pMem := pMem.decHeadData 8
  Eff.require (¬ ((op ≠ epData ∧ op ≠ epHb) ∨ sid ≠ s.senderId)) .recvepHandlePkg
  let s := if s.addrSender.addr ≠ src.addr ∨ s.addrSender.port ≠ src.port
    then { s with addrSender := src } else s
  if op = epData then recvepHandleOdata s pMem else recvepHandleHb s pMem stack io

/-- One pass of the loop of `handle_can_recv`. -/
def recvepHandleCanRecv (s : RecvSock) (fresh stack : ℕ → UInt8) (r : Recvfrom) (io : Sendto) :
    Eff Ev Fault (Cmnerr × RecvSock) := do
  let b ← takeMem s.pMem fresh
  let (ret, b, src) ← udpRecv b r
  if ret ≠ .suc then pure (ret, { s with pMem := some b })
  else recvepHandlePkg { s with pMem := some b } b src stack io

/-- `CRmpEndpoint::handle_input_evt`, for one datagram: `handle_can_recv`, and if a packet became
ready all blocks that are there. `ioAck` is the outcome of the `sendto` of `set_ack`. -/
def recvepInput (s : RecvSock) (fresh stack : ℕ → UInt8) (r : Recvfrom) (io ioAck : Sendto) :
    Eff Ev Fault (Cmnerr × RecvSock) := do
  let (ret, s) ← recvepHandleCanRecv s fresh stack r io
  if ret = .odataReady then do
    let s ← drain stack ioAck (drainFuel s) s
    pure (ret, s)
  else pure (ret, s)

/-- The part of `handle_can_send` that repeats the last ack. -/
def timerAck (s : RecvSock) (now : ℕ) (stack : ℕ → UInt8) (io : Sendto) : Eff Ev Fault RecvSock :=
  let s := if s.lastSendAckTime = 0 then { s with lastSendAckTime := now } else s
  if sendAckInterval < sub64 now s.lastSendAckTime then
    setAck { s with lastSendAckTime := now } true stack io
  else pure s

/-- The part of `handle_can_send` that asks for the gap before the reorder buffer. -/
def timerNak (s : RecvSock) (now : ℕ) (stack : ℕ → UInt8) (io : Sendto) : Eff Ev Fault RecvSock :=
  let s := if s.lastSendNakTime = 0 then { s with lastSendNakTime := now } else s
  if sendNakInterval < sub64 now s.lastSendNakTime ∧
    s.latestRecvedValidSeqNo < s.unvalidPkgBegin then
    let s := { s with lastSendNakTime := now }
    let b := u64 (s.latestRecvedValidSeqNo + 1)
    let e := sub64 s.unvalidPkgBegin 1
    if b ≤ e then do
      let ret ← udpSend io (nakBytes stack b e s.epid) s.addrSender
      Eff.require (ret = .suc) .recvepSendNak
      pure s
    else pure s
  else pure s

/-- `handle_can_send`. -/
def recvepHandleCanSend (s : RecvSock) (now : ℕ) (stack : ℕ → UInt8) (ioAck ioNak : Sendto) :
    Eff Ev Fault RecvSock := do
  let s ← timerAck s now stack ioAck
  timerNak s now stack ioNak

end SmartNet.Network.Rmp.Recvep
