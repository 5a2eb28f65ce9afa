import Mathlib.Data.Nat.Notation
import Mathlib.Tactic.Common

/-! # What the endpoints share

The types of io, the values of the flag for a deferred event, and what acceptors and connectors have
in common.

The handlers of the endpoints return what `CSNEngine::del_endpoint`, `add_timer` and `del_timer`
return. These three have no return statement behind the request they make; in the models of the
endpoints it counts as `CMNERR_SUC`. -/

namespace SmartNet.Endpoint.Types

/-- `EIT_OUTPUT_TYPE`, `EIT_INPUT_TYPE`. -/
inductive IoType
  | output
  | input
  deriving DecidableEq, Repr

/-- The values of `m_i32SMPendingEvt`; `other` are those that are no `EE_NONE`, `EE_CLOSE` or
`EE_INTERNAL_ERR`. -/
inductive PendingEvt
  | eeNone
  | eeClose
  | eeInternalErr
  | other
  deriving DecidableEq, Repr

/-- The parameters of `open`. -/
structure SParas where
  strIP : String
  ui16Port : ℕ
  ui64Val : ℕ
  deriving DecidableEq, Repr

/-- A `CRupSock`; sockets are numbered, and `isOpened` says whether the handle is valid. -/
structure CRupSock where
  hSock : ℕ
  isOpened : Bool
  deriving DecidableEq, Repr

end SmartNet.Endpoint.Types
