import Mathlib.Data.Fintype.Basic
import SmartNet.Endpoint.AcceptorEvents
import SmartNet.Endpoint.ConnectorRegistrations
import SmartNet.Endpoint.RmpRegistrations
import SmartNet.Endpoint.RupRegistrations
import SmartNet.Framework.ThreadSteps

/-! # Any number of endpoints, connectors and acceptors on the threads of the engine

What is known of one object with notifiers of its own (`RupRegistrations`, `RmpRegistrations`,
`ConnectorRegistrations`, `AcceptorEvents`) holds of each object of a process in which all of them
share the threads. A `CRmpEndpoint` that is opened again while its output thread still has a
callback to make may be given to another output thread, which a notifier of its own does not show;
so this is for processes with one output thread, if they have such endpoints.

* `orderly`: the four classes;
* `each_as_alone`: the process. -/

namespace SmartNet.Endpoint.AllEndpoints

open SmartNet.Lib SmartNet.Framework.Notifier SmartNet.Framework.Threads
open SmartNet.Utils.StateMachine SmartNet.Endpoint.Types

/-- An object, as it is constructed. -/
inductive Kind
  | rupEndpoint (p : PendingEvt) (k : RupEndpoint.KeepAlive)
  | rmpEndpoint (t : RmpEndpoint.RmpType) (p : PendingEvt)
  | rupConnector
  | rupAcceptor (p : PendingEvt)

namespace Kind

def obj : Kind → Obj
  | rupEndpoint p k => ⟨_, _, _, _, _, _, _, inferInstance, RupRegistrations.rupEndpoint,
      RupEndpoint.init p k⟩
  | rmpEndpoint t p => ⟨_, _, _, _, _, _, _, inferInstance, RmpRegistrations.rmpEndpoint,
      RmpEndpoint.init t p⟩
  | rupConnector => ⟨_, _, _, _, _, _, _, inferInstance, ConnectorRegistrations.rupConnector,
      RupConnector.init⟩
  | rupAcceptor p => ⟨_, _, _, _, _, _, _, inferInstance, AcceptorEvents.rupAcceptor,
      RupAcceptor.init p⟩

abbrev W (k : Kind) : Type := World k.obj.κ k.obj.σ k.obj.τ

abbrev A (k : Kind) : Type := Act k.obj.κ k.obj.τ k.obj.υ k.obj.ω

/-- The steps for which the books of the object are right. -/
def Proper : ∀ k : Kind, k.W → k.A → Prop
  | rupEndpoint _ _ => RupRegistrations.Settled
  | rmpEndpoint _ _ => RmpRegistrations.Proper
  | rupConnector => ConnectorRegistrations.Registers
  | rupAcceptor _ => AcceptorEvents.Punctual

instance : ∀ (k : Kind) (w : k.W) (a : k.A), Decidable (k.Proper w a)
  | rupEndpoint _ _, w, a => (inferInstance : ∀ (w : RupRegistrations.Endp) a,
      Decidable (RupRegistrations.Settled w a)) w a
  | rmpEndpoint _ _, w, a => (inferInstance : ∀ (w : RmpRegistrations.Endp) a,
      Decidable (RmpRegistrations.Proper w a)) w a
  | rupConnector, w, a => (inferInstance : ∀ (w : ConnectorRegistrations.Conn) a,
      Decidable (ConnectorRegistrations.Registers w a)) w a
  | rupAcceptor _, w, a => (inferInstance : ∀ (w : AcceptorEvents.Acc) a,
      Decidable (AcceptorEvents.Punctual w a)) w a

/-- The books of the object. -/
def Inv : ∀ k : Kind, k.W → Prop
  | rupEndpoint _ _ => RupRegistrations.Inv
  | rmpEndpoint _ _ => RmpRegistrations.Inv
  | rupConnector => ConnectorRegistrations.Inv
  | rupAcceptor _ => AcceptorEvents.Inv

/-- A `CRmpEndpoint` stays with its output thread. -/
def roams : ∀ k : Kind, k.obj.κ → Bool
  | rupEndpoint _ _, _ => true
  | rmpEndpoint _ _, IoType.input => true
  | rmpEndpoint _ _, IoType.output => false
  | rupConnector, _ => true
  | rupAcceptor _, _ => true

/-- The object, which no thread knows. -/
def start (k : Kind) : Proc k.W k.obj.ε (Crash k.obj.φ) := ⟨⟨k.obj.init, fun _ => .clean⟩, [], none⟩

variable {k : Kind} {a : k.A} {w w' : k.W}

/-- **Every step keeps the books.** -/
theorem inv_step : ∀ (k : Kind) (a : k.A),
    Eff.Triple (fun _ w => k.Inv w ∧ k.Proper w a) (k.obj.cls.step a) (fun _ w => k.Inv w)
      fun _ f => f ≠ .insert ∧ (f = .erase → ∃ p, k = rupAcceptor p)
  | rupEndpoint _ _, a =>
    (RupRegistrations.inv_step a).imp fun _ _ hf => ⟨hf.2, fun he => absurd he hf.1⟩
  | rmpEndpoint _ _, a =>
    (RmpRegistrations.inv_step a).imp fun _ _ hf =>
      ⟨fun he => hf (Or.inr (Or.inl he)), fun he => absurd (Or.inl he) hf⟩
  | rupConnector, a =>
    (ConnectorRegistrations.inv_step a).imp fun _ _ hf => ⟨hf.2, fun he => absurd he hf.1⟩
  | rupAcceptor p, a =>
    (AcceptorEvents.inv_step a).imp fun _ _ hf =>
      ⟨fun he => (by rw [he] at hf; rcases hf with hf | hf <;> cases hf), fun _ => ⟨p, rfl⟩⟩

theorem inv_start : ∀ k : Kind, k.Inv k.start.obj
  | rupEndpoint _ _ => ⟨rfl, Or.inl rfl⟩
  | rmpEndpoint _ _ => ⟨rfl, Or.inl rfl⟩
  | rupConnector => by rintro (_ | _) <;> rfl
  | rupAcceptor _ => rfl

theorem one_add : ∀ (k : Kind) {w : k.W} {t : k.obj.κ}, k.Inv w → k.roams t = true →
    0 < (w.ntf t).adds → w.ntf t = ⟨false, 1, 0, []⟩
  | rupEndpoint _ _, _, IoType.output, hI, _, ha => (RupRegistrations.output_add hI ha).2.2.2
  | rupEndpoint _ _, _, IoType.input, hI, _, ha => (RupRegistrations.input_add hI ha).2.2.2
  | rmpEndpoint _ _, _, IoType.output, _, hr, _ => by cases hr
  | rmpEndpoint _ _, _, IoType.input, hI, _, ha => (RmpRegistrations.input_add hI ha).2.2.2
  | rupConnector, w, t, hI, _, ha =>
    (Class.Fits.one_add (c := ConnectorRegistrations.rupConnector) (hI t) ha).2
  | rupAcceptor p, w, t, hI, _, ha => (AcceptorEvents.adds_pos hI ha).2.2

theorem answers : ∀ k : Kind, Answers k.obj.cls
  | rupEndpoint _ _ => by
    show Answers RupRegistrations.rupEndpoint
    refine ⟨fun t ok => ?_, fun t => ?_⟩
    · rcases ok with - | -
      · simp [RupRegistrations.rupEndpoint]
      · simp [RupRegistrations.rupEndpoint]
    · simp [RupRegistrations.rupEndpoint]
  | rmpEndpoint _ _ => by
    show Answers RmpRegistrations.rmpEndpoint
    refine ⟨fun t ok => ?_, fun t => ?_⟩
    · rcases ok with - | -
      · simp [RmpRegistrations.rmpEndpoint]
      · simp [RmpRegistrations.rmpEndpoint]
    · simp [RmpRegistrations.rmpEndpoint]
  | rupConnector => by
    show Answers ConnectorRegistrations.rupConnector
    refine ⟨fun t ok => ?_, fun t => ?_⟩
    · rcases t with - | - <;> rcases ok with - | - <;> simp [ConnectorRegistrations.rupConnector]
    · rcases t with - | - <;> simp [ConnectorRegistrations.rupConnector]
  | rupAcceptor _ => by
    show Answers AcceptorEvents.rupAcceptor
    refine ⟨fun t ok => ?_, fun t => ?_⟩
    · rcases ok with - | -
      · simp [AcceptorEvents.rupAcceptor]
      · simp [AcceptorEvents.rupAcceptor]
    · simp [AcceptorEvents.rupAcceptor]

/-- **The four classes.** -/
theorem orderly (k : Kind) : Orderly k.obj k.roams k.Proper k.Inv where
  start := inv_start k
  keeps := by
    intro a w w' hI hc h
    have hstep := inv_step k a [] w ⟨hI, hc⟩
    rw [h] at hstep
    exact hstep
  one := one_add k
  answers := answers k

end Kind

section Process

variable {ι θ : Type} [DecidableEq ι] [DecidableEq θ] {objs : ι → Kind}
  {L : Layout (fun x => (objs x).obj) θ}

/-- Every object meets the condition of its class. -/
def Proper (L : Layout (fun x => (objs x).obj) θ) : Sys L → Step L → Prop :=
  Kept L fun x => (objs x).Proper

instance [Fintype ι] (s : Sys L) (a : Step L) : Decidable (Proper L s a) :=
  inferInstanceAs (Decidable (∀ x, ∀ b ∈ move x s a, (objs x).Proper (world x s) b))

/-- A `CRmpEndpoint` has one output thread. -/
def OneOutput (L : Layout (fun x => (objs x).obj) θ) : Prop := Fixed L fun x => (objs x).roams

/-- What a process keeps for one of its objects: what happens to it also happens to it alone, with
notifiers of its own, in a run that is proper; and no thread finds it in its set when it inserts it,
nor misses it there when it erases it, unless it is an acceptor. -/
structure Alone (p : Proc (Sys L) (Event fun x => (objs x).obj) (Crashed fun x => (objs x).obj))
    (x : ι) : Prop where
  run : ∃ bs, Proc.Meets (objs x).obj.cls.step (objs x).Proper (objs x).start bs ∧
    Proc.run (objs x).obj.cls.step (objs x).start bs = p.part (viewOf L x)
  insert : p.fault ≠ some ⟨x, .insert⟩
  erase : p.fault = some ⟨x, .erase⟩ → ∃ q, objs x = .rupAcceptor q

/-- **All objects of the process.** -/
theorem each_as_alone (objs : ι → Kind) (L : Layout (fun x => (objs x).obj) θ) (hone : OneOutput L)
    (as : List (Step L)) (h : Proc.Meets L.step (Proper L) ⟨L.start, [], none⟩ as) (x : ι) :
    Alone (L.run as) x := by
  obtain ⟨bs, hmeets, hbs⟩ := each_alone hone (fun x => (objs x).orderly) as h x
  have hends : ∀ f, (L.run as).fault = some ⟨x, f⟩ →
      f ≠ .insert ∧ (f = .erase → ∃ p, objs x = .rupAcceptor p) := by
    intro f hf
    have hpart : ((L.run as).part (viewOf L x)).fault = some f := by
      show (L.run as).fault.bind (viewOf L x).fault = _
      rw [hf]
      exact Indexed.of_self (F := fun x => Crash (objs x).obj.φ) f
    rw [← hbs] at hpart
    have h0 : Proc.Holds (fun _ w => (objs x).Inv w)
        (fun _ f => f ≠ .insert ∧ (f = .erase → ∃ p, objs x = .rupAcceptor p))
        (objs x).start := (objs x).inv_start
    exact (Proc.run_inv (objs x).inv_step h0 hmeets).dead hpart
  exact ⟨⟨bs, hmeets, hbs⟩, fun hf => (hends _ hf).1 rfl, fun hf => (hends _ hf).2 rfl⟩

end Process

/-- A `CRupEndpoint` and a `CRmpEndpoint` that share an output and an input thread. -/
def two : Bool → Kind
  | false => .rupEndpoint .eeNone {}
  | true => .rmpEndpoint .recv .eeNone

def twoThreads : Layout (fun x => (two x).obj) IoType where
  ρ _ := ℤ
  kind _ := Framework.Deferred.cEpoll fun _ => 1
  role t
    | false => some t
    | true => some t
  home
    | false, k => ⟨k, rfl⟩
    | true, k => ⟨k, rfl⟩
  heard _ := rfl
  answers := by
    rintro t (_ | _) k _ o
    · exact Option.some_ne_none _
    · exact Option.some_ne_none _

/-- `exec` goes on, and every registration succeeds. -/
def goOn (t : IoType) : Step twoThreads := .exec t (show ℤ from 0) []

def makeCall (t : IoType) : Step twoThreads :=
  .callback t (fun | false => RupEndpoint.UserCode.done | true => (true, RmpEndpoint.UserCode.done))
    twoThreads.home

/-- Both are opened; each thread takes both adds in one call of `exec`. -/
def together : List (Step twoThreads) :=
  let batch t := [goOn t, goOn t, goOn t, goOn t, goOn t, goOn t, makeCall t, goOn t, goOn t,
    makeCall t]
  [.user false (RupRegistrations.Call.openEp : RupRegistrations.Call) (twoThreads.home false),
    .user false (RupRegistrations.Call.handleConnected 7 : RupRegistrations.Call)
      (twoThreads.home false),
    .user true (RmpRegistrations.Call.openEp
      ⟨⟨"239.0.0.1", "0.0.0.0", 7000, 1, 1⟩, 3, true, true, true⟩ : RmpRegistrations.Call)
      (twoThreads.home true)] ++
    batch .output ++ batch .input

theorem each_as_alone_two :
    ((twoThreads.run together).obj.obj false : RupEndpoint.CRupEndpoint).state = .esOpened ∧
      ((twoThreads.run together).obj.obj true : RmpEndpoint.CRmpEndpoint).state = .esOpened ∧
      ∀ x, Alone (twoThreads.run together) x := by
  refine ⟨by decide, by decide, each_as_alone two twoThreads ?_ together (by decide)⟩
  rintro (_ | _) k hk t t' ht ht'
  · cases hk
  · exact (Option.some.inj ht).trans (Option.some.inj ht').symm

end SmartNet.Endpoint.AllEndpoints
