import SmartNet.Lib.HeadQueue
import SmartNet.Lib.Run
import SmartNet.Memory.MemBlock

/-! # `CMemBlock` is a queue with headroom

The operations of a block in any order: `exec` runs the one that is called, `quantities` are the
32-bit quantities it computes, before they are reduced.

* `exec_step`: a block does what a queue with headroom does;
* `noWrap`: no quantity is reduced;
* `block_behaves`: every operation of a run does what it should. -/

namespace SmartNet.Memory.MemQueue

open SmartNet.Common SmartNet.Lib.Mem SmartNet.Lib.Run SmartNet.Lib.HeadQueue
open SmartNet.Memory.MemBlock

/-- `reset`, with its argument. -/
def reset (b : CMemBlock) (bUseInitOffset : Bool) : CMemBlock :=
  { b with offset := if bUseInitOffset then b.initOffset else 0, len := 0 }

example (b : CMemBlock) : reset b false = b.reset := rfl

/-- An operation with its argument. -/
inductive Call
  | append (pBytes : List UInt8)
  | incHeadData (n : ℕ)
  | decHeadData (n : ℕ)
  | incLen (n : ℕ)
  | moveDataAhead
  | reset (bUseInitOffset : Bool)

/-- The operation succeeds. -/
def ok (b : CMemBlock) : Call → Bool
  | .append l => (b.append l).1 = .suc
  | .incHeadData n => (b.incHeadData n).1 = .suc
  | _ => true

/-- The block after the operation. -/
def exec (b : CMemBlock) : Call → CMemBlock
  | .append l => (b.append l).2
  | .incHeadData n => (b.incHeadData n).2
  | .decHeadData n => b.decHeadData n
  | .incLen n => b.incLen n
  | .moveDataAhead => b.moveDataAhead
  | .reset f => reset b f

/-- The quantities the operation computes: free sizes, and new offsets and lengths. -/
def quantities (b : CMemBlock) : Call → List ℤ
  | .append l =>
    [(maxMemSize : ℤ) - b.len] ++ if b.getTotalFreeSize < l.length then []
      else [(b.len : ℤ) + b.offset, maxMemSize - (b.len + b.offset), b.len + l.length]
  | .incHeadData n => if b.offset < n then [] else [(b.offset : ℤ) - n, b.len + n]
  | .decHeadData n => [(b.offset : ℤ) + n, b.len - n]
  | .incLen n => [(b.len : ℤ) + n]
  | .moveDataAhead => []
  | .reset _ => []

/-- What a caller has to see to: no more is taken off than there is, and no more is added to the
length than there is room for behind the data. -/
def Allowed (b : CMemBlock) : Call → Prop
  | .decHeadData n => n ≤ b.len
  | .incLen n => n ≤ b.getTailFreeSize
  | _ => True

/-- A block as the constructor and `set_init_offset` leave it: the range and the initial offset lie
in the block. -/
structure Wf (b : CMemBlock) : Prop where
  fits : b.Fits
  init : b.initOffset ≤ maxMemSize

/-- The block as a queue. -/
def queue (b : CMemBlock) : Queue UInt8 := ⟨b.offset, b.data⟩

/-- What the operation is on the queue. -/
def Call.op (b : CMemBlock) : Call → Op UInt8
  | .append l => .append l
  | .incHeadData n => .pushHead n
  | .decHeadData n => .popHead n
  | .incLen n => .grow n
  | .moveDataAhead => .compact
  | .reset f => .clear (if f then b.initOffset else 0)

/-- An operation as it should be. -/
structure Behaves (b : CMemBlock) (c : Call) : Prop where
  fits : (exec b c).offset + (exec b c).len ≤ maxMemSize
  noWrap : ∀ z ∈ quantities b c, 0 ≤ z ∧ z < 2 ^ 32
  refines : Step maxMemSize (queue b) (c.op b) (ok b c) (queue (exec b c))
  append : ∀ l, c = .append l → (ok b c = false ↔ maxMemSize - b.len < l.length) ∧
    (ok b c = false → exec b c = b) ∧ (ok b c = true → (exec b c).data = b.data ++ l)
  ahead : c = .moveDataAhead → (exec b c).data = b.data
  head : ∀ n, c = .incHeadData n → (ok b c = false ↔ b.offset < n) ∧
    (ok b c = false → exec b c = b) ∧ (ok b c = true → ((exec b c).decHeadData n).data = b.data)

theorem wf_new (fresh : ℕ → UInt8) {k : ℕ} (hk : k ≤ maxMemSize) :
    Wf (((CMemBlock.new fresh).setOffset k).setInitOffset k) := ⟨hk, hk⟩

variable {b : CMemBlock} {c : Call} {n : ℕ} {l : List UInt8}

theorem length_queue (b : CMemBlock) : (queue b).items.length = b.len := b.length_data

theorem fits_queue (b : CMemBlock) : (queue b).Fits maxMemSize ↔ b.Fits := by
  unfold Queue.Fits CMemBlock.Fits
  rw [length_queue]; rfl

/-! ### One operation -/

theorem append_offset (hb : b.Fits) (hl : b.len + l.length ≤ maxMemSize) :
    (b.append l).2.offset = if b.offset + b.len + l.length ≤ maxMemSize then b.offset else 0 := by
  have hfree : ¬ b.getTotalFreeSize < l.length := by
    rw [CMemBlock.getTotalFreeSize_eq hb]; omega
  have htail := CMemBlock.getTailFreeSize_eq hb
  unfold CMemBlock.Fits at hb
  unfold CMemBlock.append
  rw [if_neg hfree]
  by_cases ht : b.getTailFreeSize < l.length
  · rw [if_pos ht, if_neg (by omega)]
    exact b.moveDataAhead_offset
  · rw [if_neg ht, if_pos (by omega)]

theorem append_step (hb : b.Fits) :
    Step maxMemSize (queue b) (.append l) (ok b (.append l)) (queue (exec b (.append l))) := by
  show Step maxMemSize _ _ (decide ((b.append l).1 = .suc)) (queue (b.append l).2)
  have hlen := length_queue b
  rcases Nat.lt_or_ge maxMemSize (b.len + l.length) with hgt | hle
  · rw [CMemBlock.append_of_gt hb hgt]
    exact .appendFull (by omega)
  · obtain ⟨b', h, -, hdata⟩ := CMemBlock.append_of_le hb hle
    have hoff := append_offset hb hle
    rw [h] at hoff ⊢
    have hq : queue b' = ⟨b'.offset, (queue b).items ++ l⟩ := by unfold queue; rw [hdata]
    rw [hq, show b'.offset = _ from hoff]
    split_ifs with hroom
    · exact .appendBehind (by rw [hlen]; exact hroom)
    · exact .appendMoved (by rw [hlen]; exact Nat.lt_of_not_le hroom) (by omega)

theorem incHeadData_step (hb : b.Fits) :
    Step maxMemSize (queue b) (.pushHead n) (ok b (.incHeadData n))
      (queue (exec b (.incHeadData n))) := by
  show Step maxMemSize _ _ (decide ((b.incHeadData n).1 = .suc)) (queue (b.incHeadData n).2)
  rcases Nat.lt_or_ge b.offset n with hlt | hle
  · rw [show b.incHeadData n = (.commonErr, b) from if_pos hlt]
    exact .pushHeadFull hlt
  · rw [CMemBlock.incHeadData_of_le hb hle]
    have hq : queue { b with offset := b.offset - n, len := b.len + n } =
        ⟨b.offset - n, rd b.bytes (b.offset - n) n ++ (queue b).items⟩ := by
      unfold queue CMemBlock.data
      rw [Nat.add_comm b.len n, rd_add, Nat.sub_add_cancel hle]
    rw [hq]
    exact .pushHead (length_rd _ _ _) hle

/-- **An operation of a block** is one of a queue with headroom. -/
theorem exec_step (hb : Wf b) (h : Allowed b c) :
    Step maxMemSize (queue b) (c.op b) (ok b c) (queue (exec b c)) := by
  have hfits := hb.fits
  cases c with
  | append l => exact append_step hfits
  | incHeadData n => exact incHeadData_step hfits
  | decHeadData n =>
    have hle : n ≤ b.len := h
    have hq : queue (b.decHeadData n) = ⟨b.offset + n, (queue b).items.drop n⟩ := by
      unfold queue
      rw [CMemBlock.decHeadData_data hfits hle, (hfits.decHeadData hle).2.1]
    show Step maxMemSize (queue b) (.popHead n) true (queue (b.decHeadData n))
    rw [hq]
    exact .popHead (by rw [length_queue]; exact hle)
  | incLen n =>
    have hroom : n ≤ maxMemSize - (b.offset + b.len) := by
      rw [← CMemBlock.getTailFreeSize_eq hfits]; exact h
    have hq : queue (b.incLen n) =
        ⟨b.offset, (queue b).items ++ rd b.bytes (b.offset + b.len) n⟩ := by
      unfold queue CMemBlock.data
      rw [(hfits.incLen hroom).2]
      exact congrArg _ (rd_add _ _ _ _)
    show Step maxMemSize (queue b) (.grow n) true (queue (b.incLen n))
    rw [hq]
    refine .grow (length_rd _ _ _) ?_
    rw [length_queue]
    show b.offset + b.len + n ≤ maxMemSize
    unfold CMemBlock.Fits at hfits
    omega
  | moveDataAhead =>
    have hq : queue b.moveDataAhead = ⟨0, (queue b).items⟩ := by
      unfold queue
      rw [CMemBlock.moveDataAhead_data, CMemBlock.moveDataAhead_offset]
    show Step maxMemSize (queue b) .compact true (queue b.moveDataAhead)
    rw [hq]
    exact .compact
  | reset f =>
    refine .clear ?_
    have hinit := hb.init
    split_ifs
    · exact hinit
    · exact Nat.zero_le _

theorem exec_initOffset (b : CMemBlock) (c : Call) : (exec b c).initOffset = b.initOffset := by
  have hmove : b.moveDataAhead.initOffset = b.initOffset := by
    unfold CMemBlock.moveDataAhead
    split_ifs <;> rfl
  cases c with
  | append l =>
    show (b.append l).2.initOffset = _
    unfold CMemBlock.append
    split_ifs
    · rfl
    · exact hmove
    · rfl
  | incHeadData n =>
    show (b.incHeadData n).2.initOffset = _
    unfold CMemBlock.incHeadData
    split_ifs <;> rfl
  | moveDataAhead => exact hmove
  | _ => rfl

theorem Wf.exec (hb : Wf b) (h : Allowed b c) : Wf (exec b c) :=
  ⟨(fits_queue _).mp ((exec_step hb h).fits ((fits_queue b).mpr hb.fits)),
    by rw [exec_initOffset]; exact hb.init⟩

/-- **Nothing wraps.** -/
theorem noWrap (hb : Wf b) (h : Allowed b c) : ∀ z ∈ quantities b c, 0 ≤ z ∧ z < 2 ^ 32 := by
  have hfits := hb.fits
  have htotal := CMemBlock.getTotalFreeSize_eq hfits
  have htail := CMemBlock.getTailFreeSize_eq hfits
  unfold CMemBlock.Fits at hfits
  have hmax : maxMemSize = 32768 := rfl
  intro z hz
  cases c with
  | append l =>
    rcases List.mem_append.mp hz with hz | hz
    · obtain rfl := List.mem_singleton.mp hz
      omega
    · split_ifs at hz with hfull
      · cases hz
      · simp only [List.mem_cons, List.not_mem_nil, or_false] at hz
        omega
  | incHeadData n =>
    simp only [quantities] at hz
    split_ifs at hz with hfull
    · cases hz
    · simp only [List.mem_cons, List.not_mem_nil, or_false] at hz
      omega
  | decHeadData n =>
    have hle : n ≤ b.len := h
    simp only [quantities, List.mem_cons, List.not_mem_nil, or_false] at hz
    omega
  | incLen n =>
    have hle : n ≤ b.getTailFreeSize := h
    simp only [quantities, List.mem_cons, List.not_mem_nil, or_false] at hz
    omega
  | moveDataAhead => cases hz
  | reset f => cases hz

theorem exec_failed (b : CMemBlock) (h : ok b c = false) : exec b c = b := by
  cases c with
  | append l =>
    have hret : ¬ (b.append l).1 = .suc := of_decide_eq_false h
    show (b.append l).2 = b
    unfold CMemBlock.append at hret ⊢
    split_ifs at hret ⊢ with hfree
    · rfl
    all_goals exact absurd rfl hret
  | incHeadData n =>
    have hret : ¬ (b.incHeadData n).1 = .suc := of_decide_eq_false h
    show (b.incHeadData n).2 = b
    unfold CMemBlock.incHeadData at hret ⊢
    split_ifs at hret ⊢ with hfree
    · rfl
    · exact absurd rfl hret
  | _ => cases h

theorem decHeadData_incHeadData (hb : Wf b) (h : ok b (.incHeadData n) = true) :
    ((exec b (.incHeadData n)).decHeadData n).data = b.data := by
  have hpush := exec_step hb (c := .incHeadData n) trivial
  rw [h] at hpush
  have hle : n ≤ (exec b (.incHeadData n)).len := by
    rw [← length_queue]
    exact hpush.le_of_pushHead
  have hb' : Wf (exec b (.incHeadData n)) := hb.exec (c := .incHeadData n) trivial
  have hpop := exec_step hb' (c := .decHeadData n) hle
  exact congrArg Queue.items (hpush.pop_of_push hpop)

theorem behaves (hb : Wf b) (h : Allowed b c) : Behaves b c := by
  have hstep := exec_step hb h
  refine ⟨(hb.exec h).fits, noWrap hb h, hstep, ?_, ?_, ?_⟩
  · rintro l rfl
    obtain ⟨hfails, hsuc⟩ := hstep.append_inv
    refine ⟨?_, exec_failed b, hsuc⟩
    rw [hfails, length_queue]
    have hlen := hb.fits
    unfold CMemBlock.Fits at hlen
    omega
  · rintro rfl
    exact hstep.compact_items
  · rintro n rfl
    exact ⟨hstep.pushHead_inv, exec_failed b, decHeadData_incHeadData hb⟩

/-- **A block is a queue with headroom**: every operation of a run behaves, for every order of
operations. -/
theorem block_behaves (b : CMemBlock) (hb : Wf b) (cs : List Call)
    (h : Meets exec Allowed b cs) : Wf (run exec b cs) ∧ Meets exec Behaves b cs :=
  run_inv_meets (I := Wf) (C := Allowed) (D := Behaves) (B := fun _ => True) (fun _ _ _ => trivial)
    (fun _ _ hb h _ => ⟨hb.exec h, behaves hb h⟩) hb h trivial

/-- Bytes are appended behind a headroom of two bytes, which is taken in; all but one byte is given
back, and the rest moved to the front. -/
theorem block_behaves_append :
    let b := ((CMemBlock.new fun _ => 0).setOffset 2).setInitOffset 2
    let cs : List Call := [.append [1, 2, 3], .incHeadData 2, .decHeadData 4, .moveDataAhead,
      .incLen 5, .reset true]
    Wf (run exec b cs) ∧ Meets exec Behaves b cs := by
  refine block_behaves _ (wf_new (fun _ => 0) (by decide)) _ ?_
  refine ⟨trivial, trivial, ?_, trivial, ?_, trivial, trivial⟩
  · show 4 ≤ 5
    decide
  · show 5 ≤ 32767
    decide

end SmartNet.Memory.MemQueue
