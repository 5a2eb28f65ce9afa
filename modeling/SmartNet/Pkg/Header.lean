import SmartNet.Lib.Bytes
import SmartNet.Lib.Mem

/-! # Package headers and package types

A `CPkgHdr` is 16 bytes: the length of the package in network byte order, the opcode in network byte
order, two bytes of padding, the tag in host byte order (little endian here), the type, the version
and two bytes of padding. A pointer to a header is an address `p` in a memory `m`; nobody writes the
padding.

* `Hdr`: which header lies at an address;
* `hdr_ctor`, `Hdr.setLen`, `Hdr.setTag`: what the constructor and the setters write;
* `Hdr.getLen`, ...: what the getters read. -/

namespace SmartNet.Pkg.Header

open SmartNet.Lib.Bytes SmartNet.Lib.Mem

/-- `PKG_VER`. -/
def pkgVer : UInt8 := 0

/-- `NORMAL_PKG`. -/
def normalPkg : UInt8 := 0

/-- `sizeof(CPkgHdr)`. -/
def pkgHdrSize : ℕ := 16

/-- The constructor of `CPkgHdr`. -/
def CPkgHdr.ctor (m : ℕ → UInt8) (p usOpcode uiLen : ℕ) (bVer bType : UInt8) (uiTag : ℕ) :
    ℕ → UInt8 :=
  wr (wr m p (beBytes 4 uiLen ++ beBytes 2 usOpcode)) (p + 8) (leBytes 4 uiTag ++ [bType, bVer])

/-- `set_len`. -/
def CPkgHdr.setLen (m : ℕ → UInt8) (p uiLen : ℕ) : ℕ → UInt8 := wr m p (beBytes 4 uiLen)

/-- `set_tag`. -/
def CPkgHdr.setTag (m : ℕ → UInt8) (p uiTag : ℕ) : ℕ → UInt8 := wr m (p + 8) (leBytes 4 uiTag)

/-- `set_type`. -/
def CPkgHdr.setType (m : ℕ → UInt8) (p : ℕ) (bType : UInt8) : ℕ → UInt8 := wr m (p + 12) [bType]

/-- `get_len`. -/
def CPkgHdr.getLen (m : ℕ → UInt8) (p : ℕ) : ℕ := beNat (rd m p 4)

/-- `get_opcode`. -/
def CPkgHdr.getOpcode (m : ℕ → UInt8) (p : ℕ) : ℕ := beNat (rd m (p + 4) 2)

/-- `get_tag`. -/
def CPkgHdr.getTag (m : ℕ → UInt8) (p : ℕ) : ℕ := leNat (rd m (p + 8) 4)

/-- `get_ver`. -/
def CPkgHdr.getVer (m : ℕ → UInt8) (p : ℕ) : UInt8 := m (p + 13)

/-- A package (body) type: its `PKG_OPCODE`, its `get_max_size`, and its `get_real_size` as a
function of the memory from the body on. -/
structure PkgType where
  opcode : ℕ
  maxSize : ℕ
  realSize : (ℕ → UInt8) → ℕ
  realSize_lt : ∀ m, realSize m < 2 ^ 32

/-- `CPkgHB`. -/
def cPkgHB : PkgType := ⟨0, 0, fun _ => 0, fun _ => by decide⟩

/-- `CPkgTest`. -/
def cPkgTest : PkgType := ⟨1, 4, fun _ => 4, fun _ => by decide⟩

/-- The header at `p` has this length, opcode, tag and version. -/
structure Hdr (m : ℕ → UInt8) (p uiLen usOpcode uiTag : ℕ) (bVer : UInt8) : Prop where
  len : rd m p 4 = beBytes 4 uiLen
  opcode : rd m (p + 4) 2 = beBytes 2 usOpcode
  tag : rd m (p + 8) 4 = leBytes 4 uiTag
  ver : m (p + 13) = bVer

variable {m m' : ℕ → UInt8} {p q n k t : ℕ} {v b : UInt8}

theorem hdr_ctor (m : ℕ → UInt8) (p k n : ℕ) (v b : UInt8) (t : ℕ) :
    Hdr (CPkgHdr.ctor m p k n v b t) p n k t v := by
  have hlow : (beBytes 4 n ++ beBytes 2 k).length = 4 + 2 := by simp
  have hhigh : (leBytes 4 t ++ [b, v]).length = 4 + 2 := by simp
  obtain ⟨h1, h2⟩ := (rd_append_iff (length_beBytes 4 n) (length_beBytes 2 k)).mp
    (rd_wr_of_length (m := m) (p := p) hlow)
  obtain ⟨h3, h4⟩ := (rd_append_iff (length_leBytes 4 t) (show [b, v].length = 2 from rfl)).mp
    (rd_wr_of_length (m := wr m p (beBytes 4 n ++ beBytes 2 k)) (p := p + 8) hhigh)
  refine ⟨?_, ?_, h3, ?_⟩
  · unfold CPkgHdr.ctor
    rw [rd_wr_of_disjoint (Or.inl (by omega)), h1]
  · unfold CPkgHdr.ctor
    rw [rd_wr_of_disjoint (Or.inl (by omega)), h2]
  · rw [show 2 = 1 + 1 from rfl, rd_succ, rd_one] at h4
    exact (List.cons.inj (List.cons.inj h4).2).1

theorem Hdr.setLen (h : Hdr m p n k t v) (n' : ℕ) : Hdr (CPkgHdr.setLen m p n') p n' k t v := by
  have hlen : (beBytes 4 n').length = 4 := length_beBytes 4 n'
  unfold CPkgHdr.setLen
  refine ⟨rd_wr_of_length hlen, ?_, ?_, ?_⟩
  · rw [rd_wr_of_disjoint (Or.inr (by omega)), h.opcode]
  · rw [rd_wr_of_disjoint (Or.inr (by omega)), h.tag]
  · rw [wr_of_ge (by omega), h.ver]

theorem Hdr.setTag (h : Hdr m p n k t v) (t' : ℕ) : Hdr (CPkgHdr.setTag m p t') p n k t' v := by
  have hlen : (leBytes 4 t').length = 4 := length_leBytes 4 t'
  unfold CPkgHdr.setTag
  refine ⟨?_, ?_, rd_wr_of_length hlen, ?_⟩
  · rw [rd_wr_of_disjoint (Or.inl (by omega)), h.len]
  · rw [rd_wr_of_disjoint (Or.inl (by omega)), h.opcode]
  · rw [wr_of_ge (by omega), h.ver]

theorem Hdr.setType (h : Hdr m p n k t v) (b : UInt8) : Hdr (CPkgHdr.setType m p b) p n k t v := by
  have hlen : [b].length = 1 := rfl
  unfold CPkgHdr.setType
  refine ⟨?_, ?_, ?_, ?_⟩
  · rw [rd_wr_of_disjoint (Or.inl (by omega)), h.len]
  · rw [rd_wr_of_disjoint (Or.inl (by omega)), h.opcode]
  · rw [rd_wr_of_disjoint (Or.inl (by omega)), h.tag]
  · rw [wr_of_ge (by omega), h.ver]

theorem Hdr.congr (h : Hdr m p n k t v) (hm : ∀ i < pkgHdrSize, m' (q + i) = m (p + i)) :
    Hdr m' q n k t v := by
  unfold pkgHdrSize at hm
  have hrd : ∀ j l, j + l ≤ 16 → rd m' (q + j) l = rd m (p + j) l :=
    fun j l hl => rd_congr fun i hi => by
    rw [Nat.add_assoc, Nat.add_assoc]; exact hm (j + i) (by omega)
  exact ⟨(hrd 0 4 (by omega)).trans h.len, (hrd 4 2 (by omega)).trans h.opcode,
    (hrd 8 4 (by omega)).trans h.tag,
    (hm 13 (by omega)).trans h.ver⟩

theorem Hdr.getLen (h : Hdr m p n k t v) (hn : n < 2 ^ 32) : CPkgHdr.getLen m p = n := by
  unfold CPkgHdr.getLen
  rw [h.len, beNat_beBytes_of_lt (by omega)]

theorem Hdr.getOpcode (h : Hdr m p n k t v) (hk : k < 2 ^ 16) : CPkgHdr.getOpcode m p = k := by
  unfold CPkgHdr.getOpcode
  rw [h.opcode, beNat_beBytes_of_lt (by omega)]

theorem Hdr.getTag (h : Hdr m p n k t v) (ht : t < 2 ^ 32) : CPkgHdr.getTag m p = t := by
  unfold CPkgHdr.getTag
  rw [h.tag, leNat_leBytes_of_lt (by omega)]

theorem Hdr.getVer (h : Hdr m p n k t v) : CPkgHdr.getVer m p = v := h.ver

end SmartNet.Pkg.Header
