import SmartNet.Lib.Run

/-! # Messages in a stream that arrives in chunks

Messages `m` are written one after the other as `enc m`; a reader gets the stream in chunks and
holds back what it cannot read yet. Before the messages `ms` it can hold a proper part of the first
of them, `Partly enc ms r`.

* `cut`: the first part of a stream is whole messages and a proper part of the next;
* `ReadTo`: how much of the messages was received, while more may be written;
* `run_reads`: a reader that reads all whole messages it holds and keeps the rest has, after the
  last chunk, read every message and holds nothing, however the stream was cut. -/

namespace SmartNet.Lib.Framing

open SmartNet.Lib.Run

variable {α β γ σ M : Type*} {enc : M → List α}

/-- `r` is a proper part of the first of the messages. -/
def Partly (enc : M → List α) : List M → List α → Prop
  | [], r => r = []
  | m :: _, r => r <+: enc m ∧ r ≠ enc m

theorem Partly.length_lt {m : M} {ms : List M} {r : List α} (h : Partly enc (m :: ms) r) :
    r.length < (enc m).length := by
  obtain ⟨hpre, hne⟩ := h
  rcases Nat.lt_or_ge r.length (enc m).length with hlt | hge
  · exact hlt
  · exact absurd (hpre.eq_of_length_le hge) hne

/-- **A cut** anywhere in the stream. -/
theorem cut : ∀ {ms : List M} {s t : List α}, s ++ t = ms.flatMap enc →
    ∃ ms1 ms2 r, ms = ms1 ++ ms2 ∧ s = ms1.flatMap enc ++ r ∧ r ++ t = ms2.flatMap enc ∧
      Partly enc ms2 r
  | [], s, t, h => by
    obtain ⟨rfl, rfl⟩ := List.append_eq_nil_iff.mp h
    exact ⟨[], [], [], rfl, rfl, rfl, rfl⟩
  | m :: ms, s, t, h => by
    rw [List.flatMap_cons] at h
    rcases Nat.lt_or_ge s.length (enc m).length with hlt | hge
    · have hpre : s <+: enc m :=
        List.prefix_of_prefix_length_le ⟨t, h⟩ (List.prefix_append _ _) (Nat.le_of_lt hlt)
      refine ⟨[], m :: ms, s, rfl, rfl, h, hpre, ?_⟩
      rintro rfl
      exact Nat.lt_irrefl _ hlt
    · obtain ⟨s', rfl⟩ : enc m <+: s :=
        List.prefix_of_prefix_length_le (List.prefix_append _ _) ⟨t, h⟩ hge
      rw [List.append_assoc] at h
      obtain ⟨ms1, ms2, r, rfl, rfl, hr, hpart⟩ := cut (List.append_cancel_left h)
      refine ⟨m :: ms1, ms2, r, rfl, ?_, hr, hpart⟩
      rw [List.flatMap_cons, List.append_assoc]

theorem partly_nil : ∀ {ms : List M}, (∀ m ∈ ms, enc m ≠ []) → Partly enc ms []
  | [], _ => rfl
  | m :: _, h => ⟨List.nil_prefix, (h m List.mem_cons_self).symm⟩

theorem Partly.append {ms ms' : List M} {r : List α} (h : Partly enc ms r)
    (hms' : ∀ m ∈ ms', enc m ≠ []) : Partly enc (ms ++ ms') r := by
  cases ms with
  | nil =>
    obtain rfl : r = [] := h
    exact partly_nil hms'
  | cons m ms => exact h

/-- Of the messages `ms`, the stream `s` has brought `ms1` whole, and `r` of the next. -/
structure ReadTo (enc : M → List α) (ms : List M) (s : List α) (ms1 : List M) (r : List α) :
    Prop where
  whole : ∃ ms2, ms = ms1 ++ ms2 ∧ Partly enc ms2 r
  bytes : s = ms1.flatMap enc ++ r

variable {ms ms1 : List M} {s r : List α}

theorem ReadTo.write (h : ReadTo enc ms s ms1 r) {ms' : List M} (hms' : ∀ m ∈ ms', enc m ≠ []) :
    ReadTo enc (ms ++ ms') s ms1 r := by
  obtain ⟨⟨ms2, rfl, hpart⟩, hs⟩ := h
  exact ⟨⟨ms2 ++ ms', by rw [List.append_assoc], hpart.append hms'⟩, hs⟩

theorem ReadTo.read (h : ReadTo enc ms s ms1 r) {l : List α} (hl : s ++ l <+: ms.flatMap enc) :
    ∃ ms2 r', r ++ l = ms2.flatMap enc ++ r' ∧ ReadTo enc ms (s ++ l) (ms1 ++ ms2) r' := by
  obtain ⟨⟨ms2, rfl, hpart⟩, rfl⟩ := h
  obtain ⟨t, ht⟩ := hl
  rw [List.flatMap_append, List.append_assoc, List.append_assoc] at ht
  obtain ⟨ms3, ms4, r', rfl, hr, -, hpart'⟩ :=
    cut (s := r ++ l) (t := t) (by rw [List.append_assoc]; exact List.append_cancel_left ht)
  refine ⟨ms3, r', hr, ⟨ms4, by rw [List.append_assoc], hpart'⟩, ?_⟩
  rw [List.append_assoc, hr, List.flatMap_append, List.append_assoc]

theorem ReadTo.all (h : ReadTo enc ms (ms.flatMap enc) ms1 r) : ms1 = ms ∧ r = [] := by
  obtain ⟨⟨ms2, rfl, hpart⟩, hs⟩ := h
  rw [List.flatMap_append] at hs
  have hr : ms2.flatMap enc = r := List.append_cancel_left hs
  cases ms2 with
  | nil => exact ⟨(List.append_nil ms1).symm, hpart⟩
  | cons m ms2 =>
    have hlt := hpart.length_lt
    rw [← hr, List.flatMap_cons, List.length_append] at hlt
    omega

variable {step : σ → γ → σ} {out : M → List β} {I : σ → Prop} {C : σ → γ → Prop} {V : M → Prop}

/-- **Reading a stream in chunks.** If each step reads the whole messages there are and keeps the
rest, the reader has read all messages at the end and holds nothing. -/
theorem run_reads (bytes : γ → List α) (held : σ → List α) (outs : σ → List β)
    (hstep : ∀ s c ms1 ms2 r, (∀ m ∈ ms1 ++ ms2, V m) → I s → C s c →
      held s ++ bytes c = ms1.flatMap enc ++ r →
      Partly enc ms2 r →
        I (step s c) ∧ held (step s c) = r ∧ outs (step s c) = outs s ++ ms1.flatMap out) :
    ∀ {cs : List γ} {s : σ} {ms : List M}, (∀ m ∈ ms, V m) → I s → Partly enc ms (held s) →
      held s ++ cs.flatMap bytes = ms.flatMap enc → Meets step C s cs →
        I (run step s cs) ∧ held (run step s cs) = [] ∧
          outs (run step s cs) = outs s ++ ms.flatMap out
  | [], s, ms, _, hI, hpart, h, _ => by
    rw [List.flatMap_nil, List.append_nil] at h
    rcases ms with - | ⟨m, ms⟩
    · exact ⟨hI, hpart, (List.append_nil _).symm⟩
    · have hlt := hpart.length_lt
      rw [h, List.flatMap_cons, List.length_append] at hlt
      exact absurd hlt (by omega)
  | c :: cs, s, ms, hV, hI, _, h, ⟨hc, hcs⟩ => by
    rw [List.flatMap_cons, ← List.append_assoc] at h
    obtain ⟨ms1, ms2, r, rfl, hs, hr, hpart⟩ := cut h
    obtain ⟨hI', hheld, houts⟩ := hstep s c ms1 ms2 r hV hI hc hs hpart
    have hV' : ∀ m ∈ ms2, V m := fun m hm => hV m (List.mem_append_right _ hm)
    obtain ⟨h1, h2, h3⟩ := run_reads bytes held outs hstep hV' hI' (hheld ▸ hpart) (hheld ▸ hr) hcs
    refine ⟨h1, h2, ?_⟩
    rw [run_cons, h3, houts, List.flatMap_append, List.append_assoc]

end SmartNet.Lib.Framing
