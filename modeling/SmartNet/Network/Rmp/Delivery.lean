import SmartNet.Network.Rmp.Feedback

/-! # What a receiver hands out, and what it survives

Runs of a receiver whose datagrams are packets of one honest sender, in any order and any number of
times.

* `Sound`: the blocks handed out are the payloads `1, ..., L`, and a live socket is in order;
* `delivered_in_order`: this holds over a run in which an empty reorder buffer is never opened too
  far above the frontier, and `misread` is a run in which it is;
* `survives`: the asserts of the packet handlers hold over a run in which no packet arrives while it
  waits, and `dies_of_duplicate` is a run in which one does. -/

namespace SmartNet.Network.Rmp.Delivery

open SmartNet.Common SmartNet.Lib SmartNet.Lib.Frontier SmartNet.Lib.Run SmartNet.Memory.MemBlock
open SmartNet.Network.Udp SmartNet.Network.Rmp.Wire SmartNet.Network.Rmp.Recvep
open SmartNet.Network.Rmp.ControlPkgs SmartNet.Network.Rmp.Reorder SmartNet.Network.Rmp.RecvRun
open SmartNet.Network.Rmp.Feedback

variable {pay : ℕ → List UInt8} {K L : ℕ} {p : Receiver} {a : RecvAct} {sid : UInt8}

/-- The payloads of the packets `1, ..., L`. -/
def payloads (pay : ℕ → List UInt8) (L : ℕ) : List (Option (List UInt8)) :=
  (numbers L).map fun q => some (pay q)

structure Sound (pay : ℕ → List UInt8) (K : ℕ) (p : Receiver) : Prop where
  alive : p.fault = none → InOrder pay K {q | q ∈ p.seen} p.sock ∧
    p.delivered = payloads pay p.sock.latestRecvedValidSeqNo
  handed : ∃ L, p.sock.latestRecvedValidSeqNo ≤ L ∧ (∀ q, 1 ≤ q → q ≤ L → q ∈ p.seen) ∧
    p.delivered = payloads pay L

theorem payloads_append (pay : ℕ → List UInt8) {L' : ℕ} (h : L ≤ L') :
    payloads pay L ++ (List.range' (L + 1) (L' - L)).map (fun q => some (pay q)) =
      payloads pay L' := by
  obtain ⟨k, rfl⟩ := Nat.exists_eq_add_of_le h
  unfold payloads
  rw [Nat.add_sub_cancel_left, numbers_append, List.map_append]

theorem sound_init (sid : UInt8) (cnt : ℕ) (bound : SockAddr) :
    Sound pay K (init sid cnt bound) := by
  have hseen : {q | q ∈ (init sid cnt bound).seen} = ∅ := by
    ext q
    simp [init]
  refine ⟨fun _ => ⟨?_, rfl⟩, 0, Nat.le_refl 0, fun q h1 h2 => by omega, rfl⟩
  have h : InOrder pay K ∅ (Recvep.open sid cnt) := inOrder_open sid cnt
  rw [hseen]
  exact ⟨h.buf.of_eq rfl rfl rfl rfl, h.idle, h.validBegin, h.validEnd⟩

theorem Sound.congr {pay' : ℕ → List UInt8} (h : Sound pay K p)
    (hpay : ∀ q ∈ p.seen, pay' q = pay q) :
    Sound pay' K p := by
  have hall : ∀ L, (∀ q, 1 ≤ q → q ≤ L → q ∈ p.seen) → payloads pay L = payloads pay' L :=
    fun L hL => by
    refine List.map_congr_left fun q hq => ?_
    rw [hpay q (hL q (mem_numbers.mp hq).1 (mem_numbers.mp hq).2)]
  refine ⟨fun hf => ?_, ?_⟩
  · obtain ⟨⟨hbuf, h1, h2, h3⟩, hdel⟩ := h.alive hf
    refine ⟨⟨⟨hbuf.frontier, hbuf.slots.imp fun q hq b hb => ?_, hbuf.ends, hbuf.near, hbuf.small⟩,
      h1, h2, h3⟩, ?_⟩
    · rw [hpay q hq.1]; exact hb
    · rw [hdel, hall _ hbuf.frontier.below]
  · obtain ⟨L, h1, h2, h3⟩ := h.handed
    exact ⟨L, h1, h2, by rw [h3, hall L h2]⟩

theorem step_ok (h : p.fault = none) {t : RecvSock} (ht : (a.exec p.sock).res = .ok t) :
    step p a =
      ⟨t, none, p.delivered ++ recveds (a.exec p.sock).evs, a.number.toList ++ p.seen⟩ := by
  simp only [step, h, ht, Option.isSome_none, Bool.false_eq_true, if_false]

theorem step_error (h : p.fault = none) {f : Fault} (hf : (a.exec p.sock).res = .error f) :
    step p a =
      ⟨p.sock, some f, p.delivered ++ recveds (a.exec p.sock).evs, a.number.toList ++ p.seen⟩ := by
  simp only [step, h, hf, Option.isSome_none, Bool.false_eq_true, if_false]

theorem step_alive (h : p.fault = none) : (step p a).sock = after p.sock (a.exec p.sock) ∧
    (step p a).delivered = p.delivered ++ recveds (a.exec p.sock).evs ∧
    (step p a).seen = a.number.toList ++ p.seen ∧
    ((step p a).fault = none → ∃ t, (a.exec p.sock).res = .ok t ∧ (step p a).sock = t) ∧
    ∀ f, (step p a).fault = some f → (a.exec p.sock).res = .error f := by
  unfold after
  rcases hres : (a.exec p.sock).res with f | t
  · rw [step_error h hres]
    refine ⟨rfl, rfl, rfl, fun hf => ?_, fun f' hf => ?_⟩
    · cases hf
    · cases hf; rfl
  · rw [step_ok h hres]
    refine ⟨rfl, rfl, rfl, fun _ => ⟨t, rfl, rfl⟩, fun f' hf => ?_⟩
    cases hf

theorem step_dead (h : p.fault ≠ none) : step p a = p := by
  unfold step
  rw [if_pos (Option.isSome_iff_ne_none.mpr h)]

theorem step_ids (hon : Honest sid pay a) (hs : p.sock.senderId = sid) :
    (step p a).sock.senderId = p.sock.senderId ∧ (step p a).sock.epid = p.sock.epid := by
  by_cases h : p.fault = none
  · have hrep := exec_report (M := 0) hon hs
    rw [(step_alive h).1]
    exact ⟨hrep.senderId, hrep.epid⟩
  · rw [step_dead h]
    exact ⟨rfl, rfl⟩

theorem seen_step (h : p.fault = none) :
    {q | q ∈ (step p a).seen} = seenAfter a {q | q ∈ p.seen} := by
  rw [(step_alive h).2.2.1]
  ext q
  show q ∈ a.number.toList ++ p.seen ↔ a.number = some q ∨ q ∈ p.seen
  rw [List.mem_append, Option.mem_toList]

/-- **One call** keeps a receiver sound, and says how the process can end. -/
theorem step_sound (h : Sound pay K p) (hK : unorderedPkgsCnt ≤ K ∧ K ≤ unorderedPkgsCnt + 2)
    (hs : p.sock.senderId = sid) (hon : Honest sid pay a)
    (hnear : p.fault = none → Near pay K {q | q ∈ p.seen} p.sock a) :
    Sound pay K (step p a) ∧ ∀ f, p.fault = none → (step p a).fault = some f →
      ActFault p.sock {q | q ∈ p.seen} a f := by
  by_cases hf : p.fault = none
  · obtain ⟨hin, hdel⟩ := h.alive hf
    obtain ⟨L', h1, h2, h3, h4, h5⟩ := exec_outcome hin hK hs hon (hnear hf)
    obtain ⟨hsock, hdel', -, hok, herr⟩ := step_alive (a := a) hf
    have hdelivered : (step p a).delivered = payloads pay L' := by
      rw [hdel', hdel, h3, payloads_append pay h1]
    have hlatest : (step p a).sock.latestRecvedValidSeqNo ≤ L' := by
      rw [hsock]
      unfold after
      rcases hres : (a.exec p.sock).res with f | t
      · exact h1
      · exact Nat.le_of_eq (h4 t hres).2
    refine ⟨⟨fun hf' => ?_, L', hlatest, fun q hq1 hq2 => ?_, hdelivered⟩,
      fun f _ hf' => h5 f (herr f hf')⟩
    · obtain ⟨t, ht, hst⟩ := hok hf'
      obtain ⟨hin', hlat⟩ := h4 t ht
      rw [seen_step hf, hst, hlat]
      exact ⟨hin', hdelivered⟩
    · have hmem : q ∈ seenAfter a {q | q ∈ p.seen} := by
        rcases Nat.lt_or_ge p.sock.latestRecvedValidSeqNo q with hlt | hge
        · exact h2 q hlt hq2
        · exact Or.inr (hin.buf.frontier.below q hq1 hge)
      rw [← seen_step hf] at hmem
      exact hmem
  · rw [step_dead hf]
    exact ⟨h, fun f hf' => absurd hf' hf⟩

/-- **A run** of near packets keeps a receiver sound. -/
theorem run_sound (hK : unorderedPkgsCnt ≤ K ∧ K ≤ unorderedPkgsCnt + 2) :
    ∀ (as : List RecvAct) {p : Receiver}, Sound pay K p → p.sock.senderId = sid →
      (∀ a ∈ as, Honest sid pay a) →
      Meets step (fun p a => p.fault = none → Near pay K {q | q ∈ p.seen} p.sock a) p as →
      Sound pay K (run step p as)
  | [], _, h, _, _, _ => h
  | a :: as, p, h, hs, hon, ⟨hc, hcs⟩ => by
    have hon1 := hon a List.mem_cons_self
    exact run_sound hK as (p := step p a) (step_sound h hK hs hon1 hc).1
      ((step_ids hon1 hs).1.trans hs)
      (fun b hb => hon b (List.mem_cons_of_mem a hb)) hcs

/-! ### In-order delivery -/

/-- The data packet that arrives, if one does, is at most `unorderedPkgsCnt + 2` above the last
packet handed out if the reorder buffer is empty, and is not the last 64-bit number in the place of
the next packet. -/
def OpensNear (p : Receiver) (a : RecvAct) : Prop :=
  ∀ q, a.number = some q →
    (p.sock.unvalidPkgBegin = 0 → q ≤ p.sock.latestRecvedValidSeqNo + (unorderedPkgsCnt + 2)) ∧
    (q = p.sock.latestRecvedValidSeqNo + 1 → q < 2 ^ 64 - 1)

/-- **In-order, exactly-once delivery**, in runs that open an empty reorder buffer near. -/
theorem delivered_in_order (sid : UInt8) (cnt : ℕ) (bound : SockAddr) (pay : ℕ → List UInt8)
    (hne : ∀ q, pay q ≠ []) (as : List RecvAct) (hon : ∀ a ∈ as, Honest sid pay a)
    (hopen : Meets step OpensNear (init sid cnt bound) as) :
    let p := run step (init sid cnt bound) as
    (p.fault = none → p.delivered = payloads pay p.sock.latestRecvedValidSeqNo) ∧
      ∃ L, p.delivered = payloads pay L := by
  have hnear : ∀ (as : List RecvAct) (p : Receiver), Sound pay (unorderedPkgsCnt + 2) p →
      p.sock.senderId = sid → (∀ a ∈ as, Honest sid pay a) → Meets step OpensNear p as →
      Meets step
        (fun p a => p.fault = none → Near pay (unorderedPkgsCnt + 2) {q | q ∈ p.seen} p.sock a)
        p as := by
    intro as
    induction as with
    | nil => exact fun _ _ _ _ _ => trivial
    | cons a as ih =>
      rintro p hp hs hon ⟨hc, hcs⟩
      have hc' : p.fault = none → Near pay (unorderedPkgsCnt + 2) {q | q ∈ p.seen} p.sock a :=
        fun hf q hq =>
        ⟨fun hW => (hc q hq).1 ((hp.alive hf).1.buf.begin_zero_iff.mpr hW),
          fun he => ⟨(hc q hq).2 he, hne q⟩⟩
      have hon1 := hon a List.mem_cons_self
      exact ⟨hc', ih _ (step_sound hp (by omega) hs hon1 hc').1 ((step_ids hon1 hs).1.trans hs)
        (fun b hb => hon b (List.mem_cons_of_mem a hb)) hcs⟩
  have h := run_sound (by omega) as (sound_init sid cnt bound) rfl hon
    (hnear as _ (sound_init sid cnt bound) rfl hon hopen)
  exact ⟨fun hf => (h.alive hf).2, h.handed.imp fun _ hL => hL.2.2⟩

/-- The payload of packet `q` in the concrete runs. -/
def byteOf (q : ℕ) : List UInt8 := [UInt8.ofNat q]

/-- Packet `q` of sender 7 arrives. -/
def arrive (q : ℕ) : RecvAct :=
  .input (.dgram ⟨1, 1⟩ (odataBytes 7 q (byteOf q))) (fun _ => 0) (fun _ => 0) .sent .sent

theorem isOdata_arrive {q : ℕ} (h : q < 2 ^ 64) :
    IsOdata 7 q (byteOf q) (odataBytes 7 q (byteOf q)) :=
  isOdata_odataBytes 7 h (by show 16 + 1 ≤ maxMemSize; decide)

theorem number_arrive {q : ℕ} (h : q < 2 ^ 64) : (arrive q).number = some q :=
  number_odata (isOdata_arrive h) _ _ _ _ _

theorem honest_arrive {qs : List ℕ} (h : ∀ q ∈ qs, 1 ≤ q ∧ q < 2 ^ 64) :
    ∀ a ∈ qs.map arrive, Honest 7 byteOf a := by
  intro a ha
  obtain ⟨q, hq, rfl⟩ := List.mem_map.mp ha
  exact Or.inl ⟨q, (h q hq).1, (h q hq).2, isOdata_arrive (h q hq).2⟩

theorem delivered_in_order_two :
    (run step (init 7 1 ⟨1, 2⟩) ([2, 1].map arrive)).delivered = payloads byteOf 2 := by
  have hopen : Meets step OpensNear (init 7 1 ⟨1, 2⟩) ([2, 1].map arrive) := by
    have h1 : (arrive 1).number = some 1 := number_arrive (by decide)
    have h2 : (arrive 2).number = some 2 := number_arrive (by decide)
    refine ⟨fun q hq => ?_, fun q hq => ?_, trivial⟩
    · rw [h2] at hq; cases hq
      exact ⟨fun _ => by decide, fun h => absurd h (by decide)⟩
    · rw [h1] at hq; cases hq
      exact ⟨fun h => absurd h (by decide), fun _ => by decide⟩
  exact (delivered_in_order 7 1 ⟨1, 2⟩ byteOf (fun q => List.cons_ne_nil _ _) ([2, 1].map arrive)
    (honest_arrive (by decide)) hopen).1 (by decide)

/-- The empty reorder buffer is opened by packet 100003: when packet 1 closes the gap before packet
2, the scan takes the filled slot of 100003 for that of packet 3. -/
theorem misread :
    (∀ a ∈ [100003, 5, 2, 1].map arrive, Honest 7 byteOf a) ∧
      (run step (init 7 1 ⟨1, 2⟩) ([100003, 5, 2, 1].map arrive)).fault = none ∧
      (run step (init 7 1 ⟨1, 2⟩) ([100003, 5, 2, 1].map arrive)).sock.latestRecvedValidSeqNo = 3 ∧
      (run step (init 7 1 ⟨1, 2⟩) ([100003, 5, 2, 1].map arrive)).delivered ≠ payloads byteOf 3 :=
  ⟨honest_arrive (by decide), by decide, by decide, by decide⟩

/-! ### Surviving duplicates -/

/-- The asserts of `recvep_handle_pkg`, `recvep_handle_odata`, `recvep_handle_hb`,
`get_next_recved_data` and `handle_can_recv`; those of `set_ack` and `udp_recv`, which these call,
are about the outcome of `sendto` and `recvfrom` and are not counted. -/
def HandlerFault (f : Fault) : Prop :=
  f = .handleCanRecv ∨ f = .recvepHandlePkg ∨ f = .beyondLimitation ∨ f = .slotTaken ∨
    f = .nullDeref

/-- None of these asserts has failed. -/
def Survives (p : Receiver) : Prop := ∀ f, p.fault = some f → ¬ HandlerFault f

/-- The data packet that arrives, if one does, is not the next one with an empty payload; and if it
is above the next one, it did not arrive before and lies in the reorder window, which is one larger
when nothing waits. -/
def Absorbed (pay : ℕ → List UInt8) (p : Receiver) (a : RecvAct) : Prop :=
  ∀ q, a.number = some q →
    (q = p.sock.latestRecvedValidSeqNo + 1 → pay q ≠ []) ∧
    (p.sock.latestRecvedValidSeqNo + 1 < q → q ∉ p.seen ∧
      q ≤ p.sock.latestRecvedValidSeqNo + (unorderedPkgsCnt + 1) ∧
      (p.sock.unvalidPkgBegin ≠ 0 → q ≤ p.sock.latestRecvedValidSeqNo + unorderedPkgsCnt))

theorem near_of_absorbed (h : Absorbed pay p a) (hsmall : ∀ q, a.number = some q → q < 2 ^ 64 - 1) :
    Near pay (unorderedPkgsCnt + 1) {q | q ∈ p.seen} p.sock a := by
  intro q hq
  obtain ⟨h1, h2⟩ := h q hq
  refine ⟨fun _ => ?_, fun he => ⟨hsmall q hq, h1 he⟩⟩
  rcases Nat.lt_or_ge (p.sock.latestRecvedValidSeqNo + 1) q with hlt | hge
  · exact (h2 hlt).2.1
  · omega

/-- A packet that is absorbed runs into none of the asserts: two packets in one slot would be the
same packet. -/
theorem not_handlerFault (h : Sound pay (unorderedPkgsCnt + 1) p) (hf : p.fault = none)
    (hab : Absorbed pay p a) {f : Fault} (hact : ActFault p.sock {q | q ∈ p.seen} a f) :
    ¬ HandlerFault f := by
  have hin := (h.alive hf).1
  rcases hact with (rfl | rfl) | rfl | ⟨q, hq, ⟨rfl, hW, hlt⟩ | ⟨rfl, hgt, r, hr, hmod⟩⟩
  · simp [HandlerFault]
  · simp [HandlerFault]
  · simp [HandlerFault]
  · have hb : p.sock.unvalidPkgBegin ≠ 0 := fun h0 => hW (hin.buf.begin_zero_iff.mp h0)
    have h1 : 1 ≤ unorderedPkgsCnt := by decide
    have h3 := ((hab q hq).2 (by omega)).2.2 hb
    omega
  · obtain ⟨h1, h2, -⟩ := (hab q hq).2 hgt
    have h3 := hin.buf.near r hr
    have h4 := hin.buf.frontier.next_le hr
    have heq : r = q :=
      Ring.mod_inj (a := p.sock.latestRecvedValidSeqNo + 2) (by omega) (by omega) (by omega)
      (by omega) hmod
    exact absurd (heq ▸ hr.1) h1

/-- **Surviving honest traffic**: no assert of the packet handlers fails in a run whose packets are
all absorbed. The sender's numbers end before the last 64-bit number. -/
theorem survives (sid : UInt8) (cnt : ℕ) (bound : SockAddr) (pay : ℕ → List UInt8)
    (as : List RecvAct) (hon : ∀ a ∈ as, Honest sid pay a)
    (hsmall : ∀ a ∈ as, ∀ q, a.number = some q → q < 2 ^ 64 - 1)
    (hab : Meets step (Absorbed pay) (init sid cnt bound) as) :
    Survives (run step (init sid cnt bound) as) := by
  have hK : unorderedPkgsCnt ≤ unorderedPkgsCnt + 1 ∧
    unorderedPkgsCnt + 1 ≤ unorderedPkgsCnt + 2 := by omega
  have hrun : ∀ (as : List RecvAct) (p : Receiver), Sound pay (unorderedPkgsCnt + 1) p →
      p.sock.senderId = sid → Survives p → (∀ a ∈ as, Honest sid pay a) →
      (∀ a ∈ as, ∀ q, a.number = some q → q < 2 ^ 64 - 1) → Meets step (Absorbed pay) p as →
      Survives (run step p as) := by
    intro as
    induction as with
    | nil => exact fun _ _ _ hf _ _ _ => hf
    | cons a as ih =>
      rintro p hp hs hf hon hsmall ⟨hc, hcs⟩
      have hon1 := hon a List.mem_cons_self
      obtain ⟨hp', hend⟩ := step_sound hp hK hs hon1
        fun _ => near_of_absorbed hc (hsmall a List.mem_cons_self)
      refine ih _ hp' ((step_ids hon1 hs).1.trans hs) (fun f hf' => ?_)
        (fun b hb => hon b (List.mem_cons_of_mem a hb))
          (fun b hb => hsmall b (List.mem_cons_of_mem a hb)) hcs
      rcases hfp : p.fault with _ | g
      · exact not_handlerFault hp hfp hc (hend f hfp hf')
      · rw [step_dead (by rw [hfp]; exact Option.some_ne_none g)] at hf'
        exact hf f hf'
  exact hrun as _ (sound_init sid cnt bound) rfl (fun f hf => by cases hf) hon hsmall hab

theorem survives_two : Survives (run step (init 7 1 ⟨1, 2⟩) ([2, 1].map arrive)) := by
  have h1 : (arrive 1).number = some 1 := number_arrive (by decide)
  have h2 : (arrive 2).number = some 2 := number_arrive (by decide)
  have hsmall : ∀ a ∈ [2, 1].map arrive, ∀ q, a.number = some q → q < 2 ^ 64 - 1 := by
    intro a ha q hq
    rcases List.mem_cons.mp ha with rfl | ha
    · rw [h2] at hq; cases hq; decide
    · rw [List.mem_singleton.mp ha, h1] at hq; cases hq; decide
  have hab : Meets step (Absorbed byteOf) (init 7 1 ⟨1, 2⟩) ([2, 1].map arrive) := by
    refine ⟨fun q hq => ?_, fun q hq => ?_, trivial⟩
    · rw [h2] at hq; cases hq
      exact ⟨fun _ => List.cons_ne_nil _ _, fun _ => ⟨by decide, by decide, fun h => absurd rfl h⟩⟩
    · rw [h1] at hq; cases hq
      exact ⟨fun _ => List.cons_ne_nil _ _, fun h => absurd h (by decide)⟩
  exact survives 7 1 ⟨1, 2⟩ byteOf ([2, 1].map arrive) (honest_arrive (by decide)) hsmall hab

/-- A second copy of packet 2 while the first one waits ends the process. -/
theorem dies_of_duplicate :
    (∀ a ∈ [2, 2].map arrive, Honest 7 byteOf a) ∧
      ¬ Survives (run step (init 7 1 ⟨1, 2⟩) ([2, 2].map arrive)) := by
  refine ⟨honest_arrive (by decide), fun h => h .slotTaken (by decide) ?_⟩
  simp [HandlerFault]

end SmartNet.Network.Rmp.Delivery
