import SmartNet.Common.Types
import SmartNet.Memory.MemBlock

/-! # Multicast datagrams

A datagram is a list of bytes: `SRmpHdr` (8 bytes: a 24-bit length, the opcode, the sender id, 24
unused bits) and then the fields of `SRmpOdata`, `SRmpHb`, `SRmpNak` or `SRmpAck`, 64 bits each,
least significant byte first. `opcode`, `srcId`, `word` and `payload` read a datagram; `hbBytes`,
`nakBytes`, `ackBytes` are what the control packets are sent as. They are built in a buffer on the
stack, and the bytes nothing writes keep what was there (`stack`).

* `IsOdata`, `IsHb`, `IsNak`, `IsAck`: what a handler finds in a datagram. -/

namespace SmartNet.Network.Rmp.Wire

open SmartNet.Common SmartNet.Lib.Bytes SmartNet.Lib.Mem SmartNet.Memory.MemBlock

/-- `EP_DATA`. -/
def epData : UInt8 := 0

/-- `EP_HB`. -/
def epHb : UInt8 := 1

/-- `EP_NAK`. -/
def epNak : UInt8 := 2

/-- `EP_ACK`. -/
def epAck : UInt8 := 3

def opcode (d : List UInt8) : UInt8 := d.getD 3 0

def srcId (d : List UInt8) : UInt8 := d.getD 4 0

/-- The 64-bit field number `i` behind the header. -/
def word (i : ℕ) (d : List UInt8) : ℕ := leNat ((d.drop (8 + 8 * i)).take 8)

/-- The bytes behind `SRmpHdr` and `SRmpOdata`. -/
def payload (d : List UInt8) : List UInt8 := d.drop 16

def hbBytes (stack : ℕ → UInt8) (sid : UInt8) (latest oldest : ℕ) : List UInt8 :=
  leBytes 3 24 ++ ([epHb, sid] ++ rd stack 5 3 ++ (leBytes 8 latest ++ leBytes 8 oldest))

def nakBytes (stack : ℕ → UInt8) (b e id : ℕ) : List UInt8 :=
  leBytes 3 32 ++ ([epNak] ++ rd stack 4 4 ++ (leBytes 8 b ++ (leBytes 8 e ++ leBytes 8 id)))

def ackBytes (stack : ℕ → UInt8) (seq id : ℕ) : List UInt8 :=
  leBytes 3 24 ++ ([epAck] ++ rd stack 4 4 ++ (leBytes 8 seq ++ leBytes 8 id))

/-- A data packet with its unused bytes zero. -/
def odataBytes (sid : UInt8) (seq : ℕ) (pay : List UInt8) : List UInt8 :=
  leBytes 3 (16 + pay.length) ++ ([epData, sid] ++ [0, 0, 0] ++ (leBytes 8 seq ++ pay))

structure IsOdata (sid : UInt8) (seq : ℕ) (pay d : List UInt8) : Prop where
  op : opcode d = epData
  sid : srcId d = sid
  seq : word 0 d = seq
  pay : payload d = pay
  len : 16 ≤ d.length
  fits : d.length ≤ maxMemSize

structure IsHb (sid : UInt8) (latest oldest : ℕ) (d : List UInt8) : Prop where
  op : opcode d = epHb
  sid : srcId d = sid
  latest : word 0 d = latest
  oldest : word 1 d = oldest
  len : d.length = 24

structure IsNak (b e id : ℕ) (d : List UInt8) : Prop where
  op : opcode d = epNak
  first : word 0 d = b
  last : word 1 d = e
  id : word 2 d = id
  len : d.length = 32

structure IsAck (seq id : ℕ) (d : List UInt8) : Prop where
  op : opcode d = epAck
  seq : word 0 d = seq
  id : word 1 d = id
  len : d.length = 24

theorem word_lt (i : ℕ) (d : List UInt8) : word i d < 2 ^ 64 := by
  have hlen : ((d.drop (8 + 8 * i)).take 8).length ≤ 8 := List.length_take_le 8 _
  calc word i d < 256 ^ ((d.drop (8 + 8 * i)).take 8).length := leNat_lt _
    _ ≤ 256 ^ 8 := Nat.pow_le_pow_right (by norm_num) hlen
    _ = 2 ^ 64 := by norm_num

/-! ### Reading what was built -/

private theorem take_drop_leBytes {l l' : List UInt8} {k n : ℕ} (hl : l.length = k)
    (hn : n < 2 ^ 64) :
    leNat (((l ++ (leBytes 8 n ++ l')).drop k).take 8) = n := by
  have hn' : n < 256 ^ 8 := by rw [show (256 : ℕ) ^ 8 = 2 ^ 64 by norm_num]; exact hn
  rw [List.drop_left' hl, List.take_left' (length_leBytes 8 n), leNat_leBytes_of_lt hn']

theorem isOdata_odataBytes (sid : UInt8) {seq : ℕ} {pay : List UInt8} (hs : seq < 2 ^ 64)
    (hp : 16 + pay.length ≤ maxMemSize) : IsOdata sid seq pay (odataBytes sid seq pay) := by
  have h8 : (leBytes 3 (16 + pay.length) ++ ([epData, sid] ++ [0, 0, 0])).length = 8 := by simp
  have h16 : (leBytes 3 (16 + pay.length) ++ ([epData, sid] ++ [0, 0, 0]) ++ leBytes 8 seq).length =
    16 := by
    simp
  have e0 : odataBytes sid seq pay =
      (leBytes 3 (16 + pay.length) ++ ([epData, sid] ++ [0, 0, 0])) ++ (leBytes 8 seq ++ pay) := by
    simp [odataBytes]
  have e1 : odataBytes sid seq pay =
      (leBytes 3 (16 + pay.length) ++ ([epData, sid] ++ [0, 0, 0]) ++ leBytes 8 seq) ++ pay := by
    simp [odataBytes]
  have hlen : (odataBytes sid seq pay).length = 16 + pay.length := by
    rw [e1, List.length_append, h16]
  refine ⟨rfl, rfl, ?_, ?_, by omega, by omega⟩
  · unfold word; rw [e0]; exact take_drop_leBytes h8 hs
  · unfold payload; rw [e1]; exact List.drop_left' h16

theorem isHb_hbBytes (stack : ℕ → UInt8) (sid : UInt8) {l o : ℕ} (hl : l < 2 ^ 64)
    (ho : o < 2 ^ 64) :
    IsHb sid l o (hbBytes stack sid l o) := by
  have h8 : (leBytes 3 24 ++ ([epHb, sid] ++ rd stack 5 3)).length = 8 := by simp
  have h16 : (leBytes 3 24 ++ ([epHb, sid] ++ rd stack 5 3) ++ leBytes 8 l).length = 16 := by simp
  have e0 : hbBytes stack sid l o =
      (leBytes 3 24 ++ ([epHb, sid] ++ rd stack 5 3)) ++ (leBytes 8 l ++ leBytes 8 o) := by
    simp [hbBytes]
  have e1 : hbBytes stack sid l o =
      (leBytes 3 24 ++ ([epHb, sid] ++ rd stack 5 3) ++ leBytes 8 l) ++ (leBytes 8 o ++ []) := by
    simp [hbBytes]
  refine ⟨rfl, rfl, ?_, ?_, by simp [hbBytes]⟩
  · unfold word; rw [e0]; exact take_drop_leBytes h8 hl
  · unfold word; rw [e1]; exact take_drop_leBytes h16 ho

theorem word_nakBytes (stack : ℕ → UInt8) {b e : ℕ} (hb : b < 2 ^ 64) (he : e < 2 ^ 64) (id : ℕ) :
    word 0 (nakBytes stack b e id) = b ∧ word 1 (nakBytes stack b e id) = e := by
  have h8 : (leBytes 3 32 ++ ([epNak] ++ rd stack 4 4)).length = 8 := by simp
  have h16 : (leBytes 3 32 ++ ([epNak] ++ rd stack 4 4) ++ leBytes 8 b).length = 16 := by simp
  have e0 : nakBytes stack b e id =
      (leBytes 3 32 ++ ([epNak] ++ rd stack 4 4)) ++
        (leBytes 8 b ++ (leBytes 8 e ++ leBytes 8 id)) := by
    simp [nakBytes]
  have e1 : nakBytes stack b e id =
      (leBytes 3 32 ++ ([epNak] ++ rd stack 4 4) ++ leBytes 8 b) ++
        (leBytes 8 e ++ leBytes 8 id) := by
    simp [nakBytes]
  constructor
  · unfold word; rw [e0]; exact take_drop_leBytes h8 hb
  · unfold word; rw [e1]; exact take_drop_leBytes h16 he

theorem isNak_nakBytes (stack : ℕ → UInt8) {b e id : ℕ} (hb : b < 2 ^ 64) (he : e < 2 ^ 64)
    (hid : id < 2 ^ 64) : IsNak b e id (nakBytes stack b e id) := by
  have h24 : (leBytes 3 32 ++ ([epNak] ++ rd stack 4 4) ++ leBytes 8 b ++ leBytes 8 e).length =
    24 := by
    simp
  have e2 : nakBytes stack b e id =
      (leBytes 3 32 ++ ([epNak] ++ rd stack 4 4) ++ leBytes 8 b ++ leBytes 8 e) ++
        (leBytes 8 id ++ []) := by
    simp [nakBytes]
  obtain ⟨hw0, hw1⟩ := word_nakBytes stack hb he id
  refine ⟨rfl, hw0, hw1, ?_, by simp [nakBytes]⟩
  unfold word; rw [e2]; exact take_drop_leBytes h24 hid

@[simp] theorem opcode_nakBytes (stack : ℕ → UInt8) (b e id : ℕ) :
    opcode (nakBytes stack b e id) = epNak := rfl

theorem word_ackBytes (stack : ℕ → UInt8) {seq : ℕ} (hs : seq < 2 ^ 64) (id : ℕ) :
    word 0 (ackBytes stack seq id) = seq := by
  have h8 : (leBytes 3 24 ++ ([epAck] ++ rd stack 4 4)).length = 8 := by simp
  have e0 : ackBytes stack seq id =
      (leBytes 3 24 ++ ([epAck] ++ rd stack 4 4)) ++ (leBytes 8 seq ++ leBytes 8 id) := by
    simp [ackBytes]
  unfold word; rw [e0]; exact take_drop_leBytes h8 hs

theorem isAck_ackBytes (stack : ℕ → UInt8) {seq id : ℕ} (hs : seq < 2 ^ 64) (hid : id < 2 ^ 64) :
    IsAck seq id (ackBytes stack seq id) := by
  have h16 : (leBytes 3 24 ++ ([epAck] ++ rd stack 4 4) ++ leBytes 8 seq).length = 16 := by simp
  have e1 : ackBytes stack seq id =
      (leBytes 3 24 ++ ([epAck] ++ rd stack 4 4) ++ leBytes 8 seq) ++ (leBytes 8 id ++ []) := by
    simp [ackBytes]
  refine ⟨rfl, word_ackBytes stack hs id, ?_, by simp [ackBytes]⟩
  unfold word; rw [e1]; exact take_drop_leBytes h16 hid

/-! ### Reading a datagram in memory -/

variable {m : ℕ → UInt8} {p k : ℕ}

theorem opcode_rd (h : 3 < k) : opcode (rd m p k) = m (p + 3) := by
  unfold opcode; rw [List.getD_eq_getElem?_getD, getElem?_rd, if_pos h]; rfl

theorem srcId_rd (h : 4 < k) : srcId (rd m p k) = m (p + 4) := by
  unfold srcId; rw [List.getD_eq_getElem?_getD, getElem?_rd, if_pos h]; rfl

theorem word_rd {i : ℕ} (h : 16 + 8 * i ≤ k) :
    word i (rd m p k) = leNat (rd m (p + (8 + 8 * i)) 8) := by
  unfold word; rw [rd_drop (by omega), rd_take (by omega)]

theorem payload_rd (h : 16 ≤ k) : payload (rd m p k) = rd m (p + 16) (k - 16) := rd_drop h

/-! ### Reading a received block -/

/-- A block that holds the datagram `d` and nothing else. -/
structure Received (b : CMemBlock) (d : List UInt8) : Prop where
  offset : b.offset = 0
  len : b.len = d.length
  data : b.data = d

variable {b : CMemBlock} {d : List UInt8}

theorem Received.rd_eq (h : Received b d) : rd b.bytes 0 d.length = d := by
  have := h.data
  unfold CMemBlock.data at this
  rwa [h.offset, h.len] at this

theorem received_ofBytes (d : List UInt8) : Received (.ofBytes d) d := by
  refine ⟨rfl, rfl, ?_⟩
  refine List.ext_getElem? fun i => ?_
  show (rd (fun i => d.getD i 0) 0 d.length)[i]? = d[i]?
  rw [getElem?_rd, Nat.zero_add]
  by_cases hi : i < d.length
  · rw [if_pos hi, List.getD_eq_getElem?_getD, List.getElem?_eq_getElem hi, Option.getD_some]
  · rw [if_neg hi, List.getElem?_eq_none (Nat.not_lt.mp hi)]

theorem Received.get8_opcode (h : Received b d) (hd : 3 < d.length) : b.get8 3 = opcode d := by
  have := opcode_rd (m := b.bytes) (p := 0) hd
  rw [h.rd_eq] at this
  rw [this, CMemBlock.get8, h.offset]

theorem Received.get8_srcId (h : Received b d) (hd : 4 < d.length) : b.get8 4 = srcId d := by
  have := srcId_rd (m := b.bytes) (p := 0) hd
  rw [h.rd_eq] at this
  rw [this, CMemBlock.get8, h.offset]

theorem Received.get64 (h : Received b d) (i : ℕ) (hd : 16 + 8 * i ≤ d.length) :
    (b.decHeadData 8).get64 (8 * i) = word i d := by
  have hw := word_rd (m := b.bytes) (p := 0) hd
  rw [h.rd_eq, Nat.zero_add] at hw
  have ho : (b.decHeadData 8).offset = 8 := by
    show u32 (b.offset + 8) = 8
    rw [h.offset]; rfl
  rw [hw, CMemBlock.get64, ho]
  rfl

theorem Received.payload (h : Received b d) (hd : 16 ≤ d.length) (hfit : d.length ≤ maxMemSize) :
    ((b.decHeadData 8).decHeadData 8).data = payload d ∧
      ((b.decHeadData 8).decHeadData 8).len = d.length - 16 := by
  have hfits : b.Fits := by
    unfold CMemBlock.Fits
    rw [h.offset, h.len]; omega
  obtain ⟨hfits', -, hl'⟩ := hfits.decHeadData (n := 8) (by rw [h.len]; omega)
  have hle : 8 ≤ (b.decHeadData 8).len := by rw [hl', h.len]; omega
  obtain ⟨-, -, hl''⟩ := hfits'.decHeadData hle
  refine ⟨?_, ?_⟩
  · rw [CMemBlock.decHeadData_data hfits' hle,
      CMemBlock.decHeadData_data hfits (by rw [h.len]; omega),
      h.data, List.drop_drop]
    rfl
  · rw [hl'', hl', h.len]; omega

end SmartNet.Network.Rmp.Wire
