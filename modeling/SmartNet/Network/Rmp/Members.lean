import Mathlib.Data.Fintype.Card
import SmartNet.Network.Rmp.Answers
import SmartNet.Network.Rmp.KeepAlive
import SmartNet.Network.Rmp.RecverTable

/-! # The receiver table of a group

The entries of the table are of receivers whose feedback the sender has handled, one for each id.
Once all receivers have everything that was sent, an ack brings the entry of its receiver up to
date, and the ack after which no entry lags raises the head.

* `takes_keyed`, `takes_credited`: what a call does to the entries;
* `behind S m`: how many entries have less than `S`;
* `feed_ack`: an ack of a receiver that has as much as any other. -/

namespace SmartNet.Network.Rmp.Members

open SmartNet.Common SmartNet.Lib SmartNet.Lib.Assoc SmartNet.Network.Udp SmartNet.Network.Rmp.Wire
open SmartNet.Network.Rmp.Sendep SmartNet.Network.Rmp.SendWin SmartNet.Network.Rmp.SendCalls
open SmartNet.Network.Rmp.SendRun SmartNet.Network.Rmp.RecverTable
open SmartNet.Network.Rmp.KeepAlive (Tells)

variable {s t : SendSock} {m : RecverMap} {a : SendAct} {P : ℕ → ℕ → Prop} {S id seq now : ℕ}
  {d : List UInt8} {accepted : List (List UInt8)}

/-! ### Entries -/

theorem takes_keyed (h : Takes s t a) (hk : Keyed s.mapRecvers) : Keyed t.mapRecvers := by
  rcases a with b | ⟨now, stack, io⟩ | ⟨⟨src, d⟩ | _ | _ | _, now, fresh, sent⟩ | ⟨m, place⟩
  case input.dgram =>
    rcases h with ⟨-, id, ⟨-, h⟩ | ⟨-, h⟩⟩ | ⟨seq, id, -, -, h⟩
    · rw [h]
      exact keyed_at (keyed_table hk id) _ id
    · rw [h]
      exact keyed_at (keyed_table hk id) _ id
    · rw [h.table]
      exact (keyed_ackTable (keyed_table hk id) seq id now).filter _
  all_goals exact hk.perm h.2

/-- What is true of the entries stays true, if it is true of a new entry of who writes. -/
theorem takes_credited (h : Takes s t a) (hm : Credited P s.mapRecvers)
    (htold : ∀ src d now fresh sent, a = .input (.dgram src d) now fresh sent →
      ∀ id, Tells d id → P id 0)
    (hack : ∀ src d now fresh sent, a = .input (.dgram src d) now fresh sent →
      ∀ seq id, IsAck seq id d → P id seq) :
    Credited P t.mapRecvers := by
  rcases a with b | ⟨now, stack, io⟩ | ⟨⟨src, d⟩ | _ | _ | _, now, fresh, sent⟩ | ⟨m, place⟩
  case input.dgram =>
    have h0 := htold src d now fresh sent rfl
    rcases h with ⟨-, id, ⟨⟨b, e, hd⟩, h⟩ | ⟨⟨seq, hd⟩, h⟩⟩ | ⟨seq, id, hd, -, h⟩
    · rw [h]
      have hz := h0 id (Or.inr ⟨b, e, hd⟩)
      exact credited_nakTable (credited_table hm hz) hz now
    · rw [h]
      have hz := h0 id (Or.inl ⟨seq, hd⟩)
      exact credited_touch (credited_table hm hz) hz now
    · rw [h.table]
      have hz := h0 id (Or.inl ⟨seq, hd⟩)
      have hs := hack src d now fresh sent rfl seq id hd
      intro e he
      exact credited_ackTable (credited_table hm hz) hz hs now e (List.mem_of_mem_filter he)
  all_goals exact fun e he => hm e (h.2.subset he)

theorem length_le {ι : Type} [Fintype ι] {epid : ι → ℕ} (hk : Keyed m)
    (hm : ∀ e ∈ m, ∃ i, epid i = e.1) : m.length ≤ Fintype.card ι := by
  have hsub : (m.map Prod.fst).toFinset ⊆ Finset.univ.image epid := by
    intro k hmem
    obtain ⟨e, he, rfl⟩ := List.mem_map.mp (List.mem_toFinset.mp hmem)
    obtain ⟨i, hi⟩ := hm e he
    exact Finset.mem_image.mpr ⟨i, Finset.mem_univ i, hi⟩
  calc m.length = (m.map Prod.fst).toFinset.card := by
        rw [List.toFinset_card_of_nodup hk, List.length_map]
    _ ≤ (Finset.univ.image epid).card := Finset.card_le_card hsub
    _ ≤ Fintype.card ι := Finset.card_image_le

/-! ### Entries that lag -/

/-- How many entries have less than `S`. -/
def behind (S : ℕ) (m : RecverMap) : ℕ := m.countP fun e => e.2.lastRecvedSeqNo < S

theorem behind_le_length (S : ℕ) (m : RecverMap) : behind S m ≤ m.length := List.countP_le_length

theorem behind_filter (S : ℕ) (m : RecverMap) (p : ℕ × SRecverInfo → Bool) :
    behind S (m.filter p) ≤ behind S m := List.filter_sublist.countP_le

theorem exists_of_behind (h : behind S m ≠ 0) : ∃ e ∈ m, e.2.lastRecvedSeqNo < S := by
  obtain ⟨e, he, hlt⟩ := List.countP_pos_iff.mp (Nat.pos_of_ne_zero h)
  exact ⟨e, he, by simpa using hlt⟩

theorem le_of_behind (h : behind S m = 0) : ∀ e ∈ m, S ≤ e.2.lastRecvedSeqNo := by
  intro e he
  have hno := List.countP_eq_zero.mp h e he
  simpa using hno

theorem behind_at (hk : Keyed m) {f : SRecverInfo → SRecverInfo}
    (hf : ∀ i, S ≤ (f i).lastRecvedSeqNo) (id : ℕ) : behind S (RecverMap.at id f m) ≤ behind S m ∧
      ∀ x, (id, x) ∈ m → x.lastRecvedSeqNo < S → behind S (RecverMap.at id f m) < behind S m := by
  induction m with
  | nil =>
    refine ⟨?_, fun x hx => by cases hx⟩
    have h0 : ¬ (f {}).lastRecvedSeqNo < S := Nat.not_lt.mpr (hf {})
    simp [behind, RecverMap.at, h0]
  | cons e m ih =>
    obtain ⟨j, y⟩ := e
    obtain ⟨hnot, hrest⟩ := List.nodup_cons.mp hk
    by_cases hj : j = id
    · subst hj
      have hy : ¬ (f y).lastRecvedSeqNo < S := Nat.not_lt.mpr (hf y)
      have heq : behind S (RecverMap.at j f ((j, y) :: m)) = behind S m := by
        simp [behind, RecverMap.at, hy]
      rw [heq]
      refine ⟨by simp [behind, List.countP_cons], fun x hx hlt => ?_⟩
      rcases List.mem_cons.mp hx with heq' | hx
      · cases heq'
        simp [behind, hlt]
      · exact absurd (List.mem_map.mpr ⟨_, hx, rfl⟩) hnot
    · obtain ⟨h1, h2⟩ := ih hrest
      rw [at_cons_ne f (e := (j, y)) hj]
      simp only [behind, List.countP_cons] at h1 h2 ⊢
      refine ⟨by omega, fun x hx hlt => ?_⟩
      rcases List.mem_cons.mp hx with heq | hx
      · cases heq
        exact absurd rfl hj
      · have := h2 x hx hlt
        omega

theorem behind_ackTable (hk : Keyed m) (seq id now : ℕ) :
    behind seq (ackTable seq id now m) ≤ behind seq m ∧
      ∀ x, (id, x) ∈ m → x.lastRecvedSeqNo < seq →
        behind seq (ackTable seq id now m) < behind seq m := by
  unfold ackTable
  rw [at_at]
  refine behind_at hk (fun i => ?_) id
  dsimp only
  split_ifs with hlt
  · exact Nat.le_of_lt hlt
  · exact Nat.le_refl seq

theorem behind_acked (hk : Keyed s.mapRecvers) (seq id now : ℕ) :
    behind seq (ackTable seq id now (s.table id)) ≤ behind seq s.mapRecvers ∧
      ∀ x, (id, x) ∈ s.mapRecvers → x.lastRecvedSeqNo < seq →
        behind seq (ackTable seq id now (s.table id)) < behind seq s.mapRecvers := by
  obtain ⟨h1, h2⟩ := behind_ackTable (keyed_table hk id) seq id now
  rcases hl : s.mapRecvers.lookup id with _ | y
  · have hperm : (s.table id).Perm ((id, {}) :: s.mapRecvers) := by
      rcases reserve_perm (s.place id) id s.mapRecvers with heq | ⟨-, hp⟩
      · have hin := lookup_table s id id
        rw [if_pos rfl, show s.table id = s.mapRecvers from heq, hl] at hin
        cases hin
      · exact hp
    have hcount : behind seq (s.table id) = behind seq s.mapRecvers + if 0 < seq then 1 else 0 := by
      have := hperm.countP_eq fun e : ℕ × SRecverInfo => decide (e.2.lastRecvedSeqNo < seq)
      simpa [behind, List.countP_cons] using this
    have hless := h2 {} (hperm.symm.subset List.mem_cons_self)
    refine ⟨?_, fun x hx => ?_⟩
    · split_ifs at hcount with hpos
      · have := hless hpos
        omega
      · omega
    · rw [(mem_iff_lookup hk).mp hx] at hl
      cases hl
  · rw [table_of_has hl] at h1 h2 ⊢
    exact ⟨h1, h2⟩

/-! ### An ack of a receiver that has everything -/

theorem prune_const {alive : ℕ} (h : ∀ e ∈ m, e.2.lastRecvedSeqNo = S) :
    (prune now alive S m).1 = S := by
  rcases prune_attained now alive m S with heq | ⟨e, he, -, heq⟩
  · exact heq
  · rw [← heq]
    exact h e he

/-- An ack for as much as any receiver has acknowledged. The head goes at most above it, and does if
no entry lags then. -/
theorem feed_ack (strict : Bool) (h : Window accepted s) (hm : Below seq s.mapRecvers)
    (hd : IsAck seq id d) (hnew : s.validSendingDataHead ≤ seq) (hlt : seq + 1 < 2 ^ 64)
    (src : SockAddr) (now : ℕ) (fresh : ℕ → UInt8) (sent : ℕ → Bool) :
    ∃ t, SendAct.exec strict s (.input (.dgram src d) now fresh sent) = ⟨[], .ok (t, [])⟩ ∧
      t.sendingSeqNo = s.sendingSeqNo ∧ t.validSendingDataHead ≤ seq + 1 ∧
      behind seq t.mapRecvers ≤ behind seq (ackTable seq id now (s.table id)) ∧
      (behind seq (ackTable seq id now (s.table id)) = 0 → t.validSendingDataHead = seq + 1) := by
  have hlen := hd.len
  obtain ⟨b, hb, heq⟩ := exec_isAck strict h.idle hd src now fresh sent
  have hseq : (b.decHeadData 8).get64 0 = seq := (hb.get64 0 (by omega)).trans hd.seq
  have hid : (b.decHeadData 8).get64 8 = id := (hb.get64 1 (by omega)).trans hd.id
  obtain ⟨t, ht, hres⟩ := handleAck_new strict hseq hid now (some b) hnew
  have hbelow := below_ackTable (below_table hm id) (Nat.le_refl seq) id now
  have hleast : leastAcked seq id now s ≤ seq :=
    Nat.le_trans (prune_spec _ _ _ _).2.1 (firstRecved_le hbelow)
  have hfilter := behind_filter seq (ackTable seq id now (s.table id))
    fun e => Live now s.maxKeepAliveTimeUs e
  have hall : behind seq (ackTable seq id now (s.table id)) = 0 →
      leastAcked seq id now s = seq := by
    intro h0
    have hconst : ∀ e ∈ ackTable seq id now (s.table id), e.2.lastRecvedSeqNo = seq := fun e he =>
      Nat.le_antisymm (hbelow e he) (le_of_behind h0 e he)
    unfold leastAcked
    have hfirst : firstRecved (ackTable seq id now (s.table id)) = seq := by
      obtain ⟨i, hi⟩ := at_has (fun i => { i with
          lastRecvedSeqNo := if seq < i.lastRecvedSeqNo then i.lastRecvedSeqNo else seq }) id
        (RecverMap.at id (fun i => { i with lastUpdateTimeUs := now }) (s.table id))
      have hmem : ackTable seq id now (s.table id) ≠ [] := List.ne_nil_of_mem hi
      obtain ⟨e, m', hcons⟩ := List.exists_cons_of_ne_nil hmem
      rw [hcons]
      exact hconst e (by rw [hcons]; exact List.mem_cons_self)
    rw [hfirst]
    exact prune_const hconst
  rw [heq, hres]
  by_cases hlow : leastAcked seq id now s < s.validSendingDataHead
  · rw [if_pos hlow]
    refine ⟨t, rfl, by rw [ht], ?_, ?_, fun h0 => ?_⟩
    · rw [ht]
      exact Nat.le_trans hnew (Nat.le_succ seq)
    · rw [ht]
      exact hfilter
    · have := hall h0
      omega
  · obtain ⟨v1, v2, v3, v4, hv⟩ := speedControl_eq
      { t with validSendingDataHead := u64 (leastAcked seq id now s + 1) }
    have hhead : u64 (leastAcked seq id now s + 1) = leastAcked seq id now s + 1 :=
      u64_of_lt (by omega)
    rw [if_neg hlow, hv]
    refine ⟨_, rfl, by rw [ht], ?_, ?_, fun h0 => ?_⟩
    · show u64 (leastAcked seq id now s + 1) ≤ seq + 1
      omega
    · rw [ht]
      exact hfilter
    · have := hall h0
      show u64 (leastAcked seq id now s + 1) = seq + 1
      omega

end SmartNet.Network.Rmp.Members
