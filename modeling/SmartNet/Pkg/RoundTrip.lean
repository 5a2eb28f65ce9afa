import SmartNet.Lib.Framing
import SmartNet.Network.Rup.RecvData
import SmartNet.Pkg.Archive
import SmartNet.Pkg.Dispatcher

/-! # From archives to `handle_pkg`

Archives are serialized one after the other into a stream of bytes, the stream is received in chunks
of any size, and after each chunk the dispatcher works on what was received.

* `Framed`: the bytes of one serialized archive, as the dispatcher reads them;
* `dispatch_framed`: what `dispatch` does with whole packages and a part of the next;
* `round_trip`: every body is handled once and in order, whatever the chunks. -/

namespace SmartNet.Pkg.RoundTrip

open SmartNet.Common SmartNet.Lib SmartNet.Lib.Mem SmartNet.Lib.Run SmartNet.Lib.Framing
open SmartNet.Memory.MemBlock
open SmartNet.Pkg.Header SmartNet.Pkg.Archive SmartNet.Pkg.Dispatcher SmartNet.Network.Rup.RecvData

/-- A call of `handle_pkg`. -/
structure HandlePkg where
  pkg : PkgType
  body : List UInt8
  ui32Tag : ℕ

/-- The calls of `handle_pkg` in a call of `dispatch_fun`. -/
def calls : Ev → List HandlePkg
  | .dispatched c => c.handled.map fun h => ⟨c.pkg, h.body, c.ui32Tag⟩
  | .close => []

/-- An archive of bodies of the type `pkg`, and what its caller does with it; `fresh` is the memory
of its block. -/
structure Archived where
  pkg : PkgType
  fresh : ℕ → UInt8
  uses : List Use

namespace Archived

/-- The archive and its bodies after the uses. -/
def draft (a : Archived) : Draft := a.uses.foldl (Draft.use a.fresh) (.new a.pkg)

/-- The bytes of the serialized archive. -/
def bytes (a : Archived) : List UInt8 := held a.draft.ar.serialize

/-- What the peer should do with the archive: handle its bodies, if they are not empty. -/
def calls (a : Archived) : List HandlePkg :=
  (a.draft.bodies.filter (· ≠ [])).map fun body => ⟨a.pkg, body, a.draft.uiTag⟩

end Archived

/-- A body type that is registered with the peer: its opcode is 16 bits, the size of a body is
determined by its own bytes, and is at least 1 and at most `get_max_size`. -/
structure Registered (funs : ℕ → Option PkgType) (pkg : PkgType) : Prop where
  opcode_lt : pkg.opcode < 65536
  reg : funs pkg.opcode = some pkg
  determined : ∀ m m', (∀ i < pkg.realSize m, m' i = m i) → pkg.realSize m' = pkg.realSize m
  pos : ∀ m, 1 ≤ pkg.realSize m
  le : ∀ m, pkg.realSize m ≤ pkg.maxSize

/-- The archive was used, its caller filled the bodies it asked for, and if it asked for any they
are of a registered type, or of the type of heartbeats. -/
structure Sendable (funs : ℕ → Option PkgType) (a : Archived) : Prop where
  used : a.uses ≠ []
  fills : ∀ l, .body l ∈ a.uses → l.length = a.pkg.maxSize
  typed : (∃ l, .body l ∈ a.uses) → a.pkg = cPkgHB ∨ Registered funs a.pkg

/-- A receiver: the data it holds, what the dispatcher did, and whether every call so far has
returned. -/
structure Conn where
  pRecvedData : Option CMemBlock
  evs : List Ev
  ok : Bool

/-- A new connection. -/
def Conn.new : Conn := ⟨none, [], true⟩

/-- `handle_can_recv` with a chunk of the stream, and then `dispatch`. -/
def recv (dbg : Bool) (funs : ℕ → Option PkgType) (fuel : ℕ) (c : Conn) :
    (ℕ → UInt8) × List UInt8 → Conn
  | (fresh, l) =>
    if c.ok then
      match handleCanRecv c.pRecvedData fresh (.got l) with
      | some (.suc, b) =>
        match dispatch dbg funs pkgVer fuel b with
        | some ⟨evs, .ok b⟩ => { c with pRecvedData := some b, evs := c.evs ++ evs }
        | some ⟨evs, .error _⟩ => { c with evs := c.evs ++ evs, ok := false }
        | none => { c with ok := false }
      | _ => { c with ok := false }
    else c

/-- A chunk has bytes, and no more than there is room for. -/
def Room (c : Conn) : (ℕ → UInt8) × List UInt8 → Prop
  | (fresh, l) => l ≠ [] ∧ l.length ≤ (front c.pRecvedData fresh).getTailFreeSize

/-! ### One package -/

/-- The bytes `p` are a package with this tag and these bodies, and the peer can read it. -/
structure Framed (funs : ℕ → Option PkgType) (p : List UInt8) (pkg : PkgType) (uiTag : ℕ)
    (bodies : List (List UInt8)) : Prop where
  len : p.length = pkgHdrSize + bodies.flatten.length
  le : p.length ≤ maxMemSize
  tag_lt : uiTag < 2 ^ 32
  hdr : ∃ m q, rd m q p.length = p ∧ Hdr m q p.length pkg.opcode uiTag pkgVer
  area : p.drop pkgHdrSize = bodies.flatten
  body : ∀ l ∈ bodies, l ≠ [] ∧ ∀ m a, rd m a l.length = l →
    pkg.realSize (fun i => m (a + i)) = l.length
  reg : bodies ≠ [] → pkg.opcode < 2 ^ 16 ∧ funs pkg.opcode = some pkg

variable {dbg : Bool} {funs : ℕ → Option PkgType} {fuel : ℕ} {pkg : PkgType} {t : ℕ}
  {p : List UInt8}
  {bodies : List (List UInt8)} {b : CMemBlock} {a : Archived}

theorem eq_of_rd_eq {m m' : ℕ → UInt8} {p q k : ℕ} (h : rd m p k = rd m' q k) {i : ℕ} (hi : i < k) :
    m (p + i) = m' (q + i) := by
  have hget : (rd m p k)[i]? = (rd m' q k)[i]? := by rw [h]
  rw [getElem?_rd, getElem?_rd, if_pos hi, if_pos hi] at hget
  exact Option.some.inj hget

theorem realSize_filled {body : List UInt8} (h : Filled pkg body) {m : ℕ → UInt8} {a : ℕ}
    (hrd : rd m a body.length = body) : pkg.realSize (fun i => m (a + i)) = body.length := by
  obtain ⟨l, rfl, hl, hs⟩ := h
  obtain ⟨hsize, hbody⟩ := hs.size hl (fun _ => 0) 0
  rw [← hsize]
  refine hs.determined _ _ fun i hi => ?_
  rw [hsize] at hi
  exact eq_of_rd_eq (hrd.trans hbody.symm) hi

theorem flatten_filter : ∀ l : List (List UInt8), (l.filter (· ≠ [])).flatten = l.flatten
  | [] => rfl
  | [] :: l => by
    rw [List.filter_cons_of_neg (by simp), List.flatten_cons, List.nil_append]
    exact flatten_filter l
  | (b :: bs) :: l => by
    rw [List.filter_cons_of_pos (by simp), List.flatten_cons, List.flatten_cons, flatten_filter l]

theorem filled_hb {body : List UInt8} (h : Filled cPkgHB body) : body = [] := by
  obtain ⟨l, rfl, hl, -⟩ := h
  rw [List.length_eq_zero_iff.mp hl]; rfl

theorem bodies_of_tags {fresh : ℕ → UInt8} : ∀ {us : List Use} {d : Draft}, (∀ l, .body l ∉ us) →
    (us.foldl (Draft.use fresh) d).bodies = d.bodies
  | [], _, _ => rfl
  | .tag t :: us, d, h => by
    rw [List.foldl_cons]
    exact bodies_of_tags fun l hl => h l (List.mem_cons_of_mem _ hl)
  | .body l :: _, _, h => absurd List.mem_cons_self (h l)

/-- **A serialized archive** is a package. -/
theorem framed (h : Sendable funs a) :
    ∃ b, a.draft.ar.serialize = some b ∧
      Framed funs a.bytes a.pkg a.draft.uiTag (a.draft.bodies.filter (· ≠ [])) := by
  have hok : ∀ u ∈ a.uses, u.Ok a.pkg := by
    rintro (t | l) hu
    · trivial
    · refine ⟨h.fills l hu, ?_⟩
      rcases h.typed ⟨l, hu⟩ with hb | hreg
      · rw [hb]
        exact ⟨fun _ _ _ => rfl, fun _ => Nat.le_refl 0⟩
      · exact ⟨hreg.determined, hreg.le⟩
  obtain ⟨hopen, hmem⟩ := opened_uses (opened_new a.fresh a.pkg) hok h.used
  obtain ⟨b, hser, hoff, hfits, hlen, hdr, harea⟩ := hopen.serialize hmem
  have hdata : a.bytes = rd b.bytes 0 (pkgHdrSize + a.draft.bodies.flatten.length) := by
    unfold Archived.bytes
    rw [show a.draft.ar.serialize = some b from hser]
    show rd b.bytes b.offset b.len = _
    rw [hoff, hlen]; rfl
  have hlen' : a.bytes.length = b.len := by rw [hdata, length_rd, hlen]; rfl
  refine ⟨b, hser, ?_, ?_, ?_, ?_, ?_, ?_, ?_⟩
  · rw [flatten_filter, hdata, length_rd]
  · unfold CMemBlock.Fits at hfits
    omega
  · exact hopen.tag_lt
  · refine ⟨b.bytes, 0, ?_, ?_⟩
    · rw [hdata, length_rd]
    · rw [hlen']
      exact hdr
  · rw [flatten_filter, hdata, rd_drop (Nat.le_add_right _ _), Nat.zero_add,
      Nat.add_sub_cancel_left]
    exact harea
  · intro l hl
    obtain ⟨hl, hne⟩ := List.mem_filter.mp hl
    exact ⟨by simpa using hne, fun m p hrd => realSize_filled (hopen.filled l hl) hrd⟩
  · intro hne
    have hbody : ∃ l, .body l ∈ a.uses := by
      by_contra hno
      refine hne ?_
      rw [show a.draft.bodies = [] from bodies_of_tags fun l hl => hno ⟨l, hl⟩]; rfl
    rcases h.typed hbody with hb | hreg
    · refine absurd (List.filter_eq_nil_iff.mpr fun body hm => ?_) hne
      simpa using filled_hb (hb ▸ hopen.filled body hm)
    · exact ⟨hreg.opcode_lt, hreg.reg⟩

/-! ### Reading packages -/

theorem Framed.hdrAt (h : Framed funs p pkg t bodies) {m : ℕ → UInt8} {q k : ℕ}
    (hk : pkgHdrSize ≤ k)
    (hle : k ≤ p.length) (hrd : rd m q k = p.take k) : Hdr m q p.length pkg.opcode t pkgVer := by
  obtain ⟨m', q', hp, hdr⟩ := h.hdr
  refine hdr.congr fun i hi => ?_
  have htake : rd m' q' k = p.take k := by rw [← rd_take hle, hp]
  exact eq_of_rd_eq (hrd.trans htake.symm) (by omega)

theorem exact_of_bodies : ∀ {bodies : List (List UInt8)} {m : ℕ → UInt8} {a : ℕ},
    (∀ l ∈ bodies, l ≠ [] ∧ ∀ m a, rd m a l.length = l → pkg.realSize
      (fun i => m (a + i)) = l.length) →
      rd m a bodies.flatten.length = bodies.flatten → Exact pkg m a (bodies.map List.length)
  | [], _, _, _, _ => trivial
  | l :: ls, m, a, h, hrd => by
    obtain ⟨hne, hsize⟩ := h l List.mem_cons_self
    rw [List.flatten_cons, List.length_append] at hrd
    obtain ⟨hl, hls⟩ := (rd_append_iff rfl rfl).mp hrd
    exact ⟨hsize m a hl, List.length_pos_iff.mpr hne,
      exact_of_bodies (fun l' hl' => h l' (List.mem_cons_of_mem _ hl')) hls⟩

theorem rounds_bodies : ∀ {bodies : List (List UInt8)} {b : CMemBlock}, b.Fits →
    bodies.flatten.length ≤ b.len →
    rd b.bytes b.offset bodies.flatten.length = bodies.flatten →
      (rounds b (bodies.map List.length)).map Handled.body = bodies
  | [], _, _, _, _ => rfl
  | l :: ls, b, hb, hle, hrd => by
    rw [List.flatten_cons, List.length_append] at hrd hle
    obtain ⟨hl, hls⟩ := (rd_append_iff rfl rfl).mp hrd
    obtain ⟨hfit, hoff, hlen⟩ := hb.decHeadData (n := l.length) (by omega)
    rw [List.map_cons, rounds, List.map_cons,
      rounds_bodies hfit (by omega) (by rw [hoff]; exact hls)]
    exact congrArg (· :: ls) hl

/-- **One package** at the front is handled and taken off. -/
theorem dispatch_package (dbg : Bool) (h : Framed funs p pkg t bodies) (hb : b.Fits)
    {rest : List UInt8} (hdata : b.data = p ++ rest) (hfuel : b.len ≤ fuel) :
    ∃ evs, dispatch dbg funs pkgVer (fuel + 1) b =
        (dispatch dbg funs pkgVer fuel (b.decHeadData p.length)).map
        (fun r => ⟨evs ++ r.evs, r.res⟩) ∧
      evs.flatMap calls = bodies.map (fun body => ⟨pkg, body, t⟩) ∧ .close ∉ evs := by
  have hlen : b.len = p.length + rest.length := by
    rw [← CMemBlock.length_data b, hdata, List.length_append]
  have hplen := h.len
  have hmax := h.le
  unfold maxMemSize at hmax
  have hrd : rd b.bytes b.offset p.length = p := by
    have htake := rd_take (m := b.bytes) (p := b.offset) (show p.length ≤ b.len by omega)
    rw [← htake, show rd b.bytes b.offset b.len = p ++ rest from hdata, List.take_left]
  have hdr := h.hdrAt (by omega) (Nat.le_refl _) (hrd.trans (List.take_length).symm)
  have hgetLen := hdr.getLen (by omega)
  have hver := hdr.getVer
  by_cases hempty : bodies = []
  · have hsize : p.length = pkgHdrSize := by rw [hplen, hempty]; rfl
    have hE : Empty pkgVer b := ⟨hver, by rw [hgetLen, hsize], by omega⟩
    refine ⟨[], ?_, by rw [hempty]; rfl, List.not_mem_nil⟩
    rw [dispatch_empty hE, ← hsize]
    rcases dispatch dbg funs pkgVer fuel (b.decHeadData p.length) with - | r <;> rfl
  · obtain ⟨hop, hreg⟩ := h.reg hempty
    have hpos : 0 < bodies.flatten.length := by
      obtain ⟨l, hl⟩ := List.exists_mem_of_ne_nil _ hempty
      have hll := List.length_pos_iff.mpr (h.body l hl).1
      have hsub := (List.sublist_flatten_of_mem hl).length_le
      omega
    have hC : Complete funs pkgVer b pkg :=
      ⟨hver, by omega, by omega, by rw [hdr.getOpcode hop]; exact hreg⟩
    obtain ⟨hfit, hoff, hlen1, -, hafter⟩ := hC.area hb
    have harea : rd b.bytes (b.offset + pkgHdrSize) bodies.flatten.length = bodies.flatten := by
      rw [show bodies.flatten.length = p.length - pkgHdrSize by omega, ← rd_drop (by omega),
        hrd, h.area]
    have hsum : (bodies.map List.length).sum = p.length - pkgHdrSize := by
      rw [← List.length_flatten]; omega
    have hexact : Exact pkg b.bytes (b.offset + pkgHdrSize) (bodies.map List.length) :=
      exact_of_bodies h.body harea
    have hcnt := hexact.length_le_sum
    have hH : pkgHdrSize = 16 := rfl
    have hrun : dispatchFun pkg fuel (b.decHeadData pkgHdrSize) (bodies.map List.length).sum = _ :=
      dispatchFun_exact hfit (by rw [hoff]; exact hexact) (by omega) (by omega)
    rw [dispatch_complete hC hb, hgetLen, ← hsum, hrun]
    dsimp only
    refine ⟨[.dispatched ⟨pkg, b.decHeadData pkgHdrSize, (bodies.map List.length).sum,
      CPkgHdr.getTag b.bytes b.offset, rounds (b.decHeadData pkgHdrSize) (bodies.map List.length),
      (b.decHeadData pkgHdrSize).decHeadData (bodies.map List.length).sum⟩], ?_, ?_, ?_⟩
    · rw [hsum, ← hgetLen, hafter]; rfl
    · rw [List.flatMap_singleton, calls, hdr.getTag h.tag_lt]
      have hbodies : (rounds _ (bodies.map List.length)).map Handled.body = bodies :=
        rounds_bodies hfit (by omega) (by rw [hoff]; exact harea)
      calc (rounds (b.decHeadData pkgHdrSize) (bodies.map List.length)).map
              (fun h => (⟨pkg, h.body, t⟩ : HandlePkg))
          = ((rounds (b.decHeadData pkgHdrSize) (bodies.map List.length)).map Handled.body).map
              fun body => ⟨pkg, body, t⟩ := by rw [List.map_map]; rfl
        _ = bodies.map fun body => ⟨pkg, body, t⟩ := by rw [hbodies]
    · simp

/-- **Whole packages and a part of the next**: `dispatch` handles the bodies of the whole ones and
keeps the part. -/
theorem dispatch_framed (dbg : Bool) :
    ∀ {as1 as2 : List Archived} {r : List UInt8} {fuel : ℕ} {b : CMemBlock},
    (∀ a ∈ as1 ++ as2, Sendable funs a) → b.Fits → b.len < fuel →
      b.data = as1.flatMap Archived.bytes ++ r →
      Partly Archived.bytes as2 r →
        ∃ evs b', dispatch dbg funs pkgVer fuel b = some ⟨evs, .ok b'⟩ ∧ b'.Fits ∧ b'.data = r ∧
          evs.flatMap calls = as1.flatMap Archived.calls ∧ .close ∉ evs
  | [], as2, r, fuel + 1, b, hV, hb, _, hdata, hpart => by
    rw [List.flatMap_nil, List.nil_append] at hdata
    have hlen : b.len = r.length := by rw [← CMemBlock.length_data b, hdata]
    rcases Nat.lt_or_ge b.len pkgHdrSize with hlt | hge
    · rw [dispatch_short hlt]
      exact ⟨[], b, rfl, hb, hdata, rfl, List.not_mem_nil⟩
    · rcases as2 with - | ⟨a, as2⟩
      · obtain rfl : r = [] := hpart
        exact absurd (hlen ▸ hge) (by decide)
      · -- the header of the next package is there, but not all of the package
        obtain ⟨-, -, h⟩ := framed (hV a List.mem_cons_self)
        have hmore := hpart.length_lt
        have hle := h.le
        unfold maxMemSize at hle
        have hrd : rd b.bytes b.offset b.len = a.bytes.take b.len := by
          rw [show rd b.bytes b.offset b.len = r from hdata, hlen]
          exact List.prefix_iff_eq_take.mp hpart.1
        have hdr := h.hdrAt hge (by omega) hrd
        have hgetLen := hdr.getLen (by omega)
        rw [dispatch_incomplete hge hdr.getVer (by omega)]
        exact ⟨[], _, rfl, hb.moveDataAhead, by rw [CMemBlock.moveDataAhead_data, hdata], rfl,
          List.not_mem_nil⟩
  | a :: as1, as2, r, fuel + 1, b, hV, hb, hlt, hdata, hpart => by
    obtain ⟨-, -, h⟩ := framed (hV a List.mem_cons_self)
    rw [List.flatMap_cons, List.append_assoc] at hdata
    obtain ⟨evs, hrun, hcalls, hclose⟩ := dispatch_package dbg h hb hdata (Nat.le_of_lt_succ hlt)
    have hlen : b.len = a.bytes.length + (as1.flatMap Archived.bytes ++ r).length := by
      rw [← CMemBlock.length_data b, hdata, List.length_append]
    have hplen := h.len
    have hH : pkgHdrSize = 16 := rfl
    obtain ⟨hfit, -, hlen'⟩ := hb.decHeadData (n := a.bytes.length) (by omega)
    have hdata' : (b.decHeadData a.bytes.length).data = as1.flatMap Archived.bytes ++ r := by
      rw [CMemBlock.decHeadData_data hb (by omega), hdata, List.drop_left]
    obtain ⟨evs', b', hrun', hfit', hr, hcalls', hclose'⟩ := dispatch_framed dbg
      (fun x hx => hV x (List.mem_cons_of_mem _ hx)) hfit (show _ < fuel by omega) hdata' hpart
    refine ⟨evs ++ evs', b', ?_, hfit', hr, ?_, ?_⟩
    · rw [hrun, hrun']; rfl
    · rw [List.flatMap_append, hcalls, hcalls']; rfl
    · intro hc
      rcases List.mem_append.mp hc with hc | hc
      · exact hclose hc
      · exact hclose' hc

/-- What holds between two chunks. -/
structure ConnInv (c : Conn) : Prop where
  ok : c.ok = true
  fits : ∀ b ∈ c.pRecvedData, b.Fits
  notClosed : .close ∉ c.evs

theorem recv_step (hfuel : maxMemSize < fuel) {c : Conn} {x : (ℕ → UInt8) × List UInt8}
    {as1 as2 : List Archived} {r : List UInt8} (hV : ∀ a ∈ as1 ++ as2, Sendable funs a)
    (hI : ConnInv c) (hroom : Room c x)
    (hdata : held c.pRecvedData ++ x.2 = as1.flatMap Archived.bytes ++ r)
    (hpart : Partly Archived.bytes as2 r) :
    ConnInv (recv dbg funs fuel c x) ∧ held (recv dbg funs fuel c x).pRecvedData = r ∧
      (recv dbg funs fuel c x).evs.flatMap calls = c.evs.flatMap calls ++ as1.flatMap
        Archived.calls := by
  obtain ⟨fresh, l⟩ := x
  obtain ⟨b, hrecv, hfit, hb⟩ := handleCanRecv_got hI.fits hroom.1 hroom.2
  rw [hdata] at hb
  have hlt : b.len < fuel := by
    unfold CMemBlock.Fits at hfit
    omega
  obtain ⟨evs, b', hrun, hfit', hr, hcalls, hclose⟩ := dispatch_framed dbg hV hfit hlt hb hpart
  have hstep : recv dbg funs fuel c (fresh, l) =
    { c with pRecvedData := some b', evs := c.evs ++ evs } := by
    simp only [recv, hI.ok, if_true, hrecv, hrun]
  rw [hstep]
  refine ⟨⟨hI.ok, fun b2 hb2 => ?_, fun hc => ?_⟩, hr, ?_⟩
  · cases hb2
    exact hfit'
  · rcases List.mem_append.mp hc with hc | hc
    · exact hI.notClosed hc
    · exact hclose hc
  · rw [List.flatMap_append, hcalls]

/-- **Round trip.** However the stream of serialized archives is cut into chunks that the receive
block has room for, the receiver handles every body once, in order and with its tag, does not close
the connection, and holds nothing at the end. -/
theorem round_trip (dbg : Bool) (funs : ℕ → Option PkgType) {fuel : ℕ} (hfuel : maxMemSize < fuel)
    {as : List Archived} (has : ∀ a ∈ as, Sendable funs a)
    {chunks : List ((ℕ → UInt8) × List UInt8)}
    (hcut : chunks.flatMap Prod.snd = as.flatMap Archived.bytes)
    (hroom : Meets (recv dbg funs fuel) Room .new chunks) :
    let c := run (recv dbg funs fuel) .new chunks
    (∀ a ∈ as, ∃ b, a.draft.ar.serialize = some b) ∧ c.ok = true ∧ .close ∉ c.evs ∧
      c.evs.flatMap calls = as.flatMap Archived.calls ∧ held c.pRecvedData = [] := by
  have hstart : Partly Archived.bytes as [] := by
    rcases as with - | ⟨a, as⟩
    · rfl
    · obtain ⟨-, -, h⟩ := framed (has a List.mem_cons_self)
      have hlen := h.len
      refine ⟨List.nil_prefix, fun hnil => ?_⟩
      rw [← hnil] at hlen
      exact absurd hlen (by unfold pkgHdrSize; simp; omega)
  have hnew : ConnInv Conn.new := ⟨rfl, nofun, List.not_mem_nil⟩
  obtain ⟨hI, hheld, houts⟩ := run_reads (I := ConnInv) (C := Room) (V := Sendable funs) Prod.snd
    (fun c : Conn => held c.pRecvedData) (fun c : Conn => c.evs.flatMap calls)
    (fun _ _ _ _ _ hV hI hC hs hp => recv_step hfuel hV hI hC hs hp) has hnew hstart hcut hroom
  refine ⟨fun a ha => ?_, hI.ok, hI.notClosed, houts, hheld⟩
  obtain ⟨b, hb, -⟩ := framed (has a ha)
  exact ⟨b, hb⟩

/-! ### A package and a heartbeat -/

private def peerFuns (k : ℕ) : Option PkgType := if k = 1 then some cPkgTest else none

/-- A `CPkgTest` with the tag 5, and a heartbeat. -/
private def twoArchives : List Archived :=
  [⟨cPkgTest, fun _ => 0, [.tag 5, .body [7, 0, 0, 0]]⟩, ⟨cPkgHB, fun _ => 0, [.body []]⟩]

/-- The stream, cut inside the first header. -/
private def twoChunks : List ((ℕ → UInt8) × List UInt8) :=
  [(fun _ => 0, [0, 0, 0, 20, 0, 1, 0, 0, 5, 0]),
    (fun _ => 0, [0, 0, 0, 0, 0, 0, 7, 0, 0, 0, 0, 0, 0, 16, 0, 0, 0, 0, 0, 0, 0, 0, 0, 0, 0, 0])]

theorem round_trip_two :
    let c := run (recv true peerFuns (maxMemSize + 1)) .new twoChunks
    c.ok = true ∧ .close ∉ c.evs ∧ c.evs.flatMap calls = [⟨cPkgTest, [7, 0, 0, 0], 5⟩] ∧
      held c.pRecvedData = [] := by
  have hsend : ∀ a ∈ twoArchives, Sendable peerFuns a := by
    intro a ha
    rcases List.mem_cons.mp ha with rfl | ha
    · refine ⟨List.cons_ne_nil _ _, fun l hl => ?_, fun _ => Or.inr ?_⟩
      · obtain rfl : l = [7, 0, 0, 0] := by simpa using hl
        rfl
      · exact ⟨by decide, rfl, fun _ _ _ => rfl, fun _ => show 1 ≤ 4 by decide,
          fun _ => Nat.le_refl 4⟩
    · obtain rfl := List.mem_singleton.mp ha
      refine ⟨List.cons_ne_nil _ _, fun l hl => ?_, fun _ => Or.inl rfl⟩
      obtain rfl : l = [] := by simpa using hl
      rfl
  have hcut : twoChunks.flatMap Prod.snd = twoArchives.flatMap Archived.bytes := rfl
  exact (round_trip true peerFuns (Nat.lt_succ_self maxMemSize) hsend hcut
    ⟨⟨List.cons_ne_nil _ _, by decide⟩, ⟨List.cons_ne_nil _ _, by decide⟩, trivial⟩).2

end SmartNet.Pkg.RoundTrip
