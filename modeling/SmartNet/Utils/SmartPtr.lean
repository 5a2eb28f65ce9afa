import Mathlib.Data.Finset.Card
import Mathlib.Data.Set.Card
import SmartNet.Lib.Process
import SmartNet.Lib.Refs

/-! # Smart pointers

`CSmartPtr` of `smart_ptr.h` and the count of `ICommonBase` in `base.h`, over a heap of objects
whose fields may be handles. The handles of an object are destroyed with it, each of which may
dispose another object. An event is an object that is disposed. A call ends the process if an
assert fails, and so does one that touches an object or a handle there is no more.

* `Exact`: the count of an object is the number of the handles to it;
* `Does`: what an operation is to do;
* `Safe`: an assignment does not release what it needs, and no count comes to `2 ^ 31`. -/

namespace SmartNet.Utils.SmartPtr

open SmartNet.Lib

/-- A handle is a variable, or a field of an object. -/
inductive Slot (O R F : Type)
  | var (r : R)
  | field (o : O) (f : F)
  deriving DecidableEq

/-- The object a handle is in. -/
def Slot.host {O R F : Type} : Slot O R F → Option O
  | .var _ => none
  | .field o _ => some o

/-- The objects there are, with their counts and the handles in them (in the order in which they are
destroyed), and the handles there are, with what they refer to. -/
structure Heap (O R F : Type) where
  objs : Finset O
  iCnt : O → ℤ
  fields : O → List F
  handles : Finset (Slot O R F)
  pObj : Slot O R F → Option O

/-- How the process ends: the asserts of `dec_ref` and `~ICommonBase`, and what is done with an
object or a handle there is no more. `depth` is the end of a bound that is never reached. -/
inductive Fault
  | decRef
  | dtor
  | deadObj
  | deadHandle
  | depth
  deriving DecidableEq

/-- What a handle is made from or assigned: a pointer, or a handle. -/
inductive Src (O R F : Type)
  | raw (pObj : Option O)
  | ptr (h : Slot O R F)

/-- An object is made at an address, with handles to nothing in it; a variable is made; a handle is
assigned to; a variable is destroyed. -/
inductive Op (O R F : Type)
  | create (o : O) (fs : List F)
  | construct (r : R) (src : Src O R F)
  | assign (h : Slot O R F) (src : Src O R F)
  | destroy (r : R)

variable {O R F : Type} [DecidableEq O] [DecidableEq R] [DecidableEq F]

/-- A call that changes the heap. -/
abbrev Call (O R F : Type) := Heap O R F → Eff O Fault (Heap O R F)

namespace Heap

def setCnt (o : O) (iCnt : ℤ) (s : Heap O R F) : Heap O R F :=
  { s with iCnt := Function.update s.iCnt o iCnt }

/-- A handle is read. -/
def get (h : Slot O R F) (s : Heap O R F) : Eff O Fault (Option O) :=
  Eff.require (h ∈ s.handles) .deadHandle >>= fun _ => pure (s.pObj h)

/-- A handle is written. -/
def put (h : Slot O R F) (pObj : Option O) : Call O R F := fun s =>
  Eff.require (h ∈ s.handles) .deadHandle >>= fun _ =>
    pure { s with pObj := Function.update s.pObj h pObj }

/-- The handles to an object. -/
def holders (s : Heap O R F) (o : O) : Finset (Slot O R F) :=
  s.handles.filter fun h => s.pObj h = some o

/-- The objects, and what the handles refer to. -/
def refs (s : Heap O R F) : Refs (Slot O R F) O where
  objs := s.objs
  ptr h := if h ∈ s.handles then some (s.pObj h) else none

end Heap

/-! ### The count -/

/-- `ICommonBase::inc_ref`. -/
def ICommonBase.incRef (o : O) : Call O R F := fun s =>
  Eff.require (o ∈ s.objs) .deadObj >>= fun _ =>
    pure (s.setCnt o ((s.iCnt o + 1).bmod (2 ^ 32)))

namespace CSmartPtr

/-- `inc_ref`. -/
def incRef (h : Slot O R F) : Call O R F := fun s =>
  s.get h >>= fun pObj => match pObj with
    | none => pure s
    | some o => ICommonBase.incRef o s

/-- `dec_ref`; `release` is the `dec_ref` of the object. -/
def decRef (release : O → Call O R F) (h : Slot O R F) : Call O R F := fun s =>
  s.get h >>= fun pObj => match pObj with
    | none => pure s
    | some o => release o s >>= fun s => s.put h none

/-- The destructor; there is no such handle any more. -/
def dtor (release : O → Call O R F) (h : Slot O R F) : Call O R F := fun s =>
  decRef release h s >>= fun s => pure { s with handles := s.handles.erase h }

end CSmartPtr

namespace ICommonBase

/-- The destructors of handles of an object. -/
def dtors (release : O → Call O R F) (o : O) : List F → Call O R F
  | [], s => pure s
  | f :: fs, s => CSmartPtr.dtor release (.field o f) s >>= dtors release o fs

/-- `dispose_this_obj`. -/
def disposeThisObj (release : O → Call O R F) (o : O) : Call O R F := fun s =>
  Eff.emit o >>= fun _ => dtors release o (s.fields o) s >>= fun s =>
  Eff.require (s.iCnt o = 0) .dtor >>= fun _ => pure { s with objs := s.objs.erase o }

/-- `dec_ref`; `depth` bounds how deep calls of it are nested. -/
def decRef : ℕ → O → Call O R F
  | 0, _, _ => Eff.abort .depth
  | depth + 1, o, s =>
    Eff.require (o ∈ s.objs) .deadObj >>= fun _ =>
    Eff.require (0 < s.iCnt o) .decRef >>= fun _ =>
    if s.iCnt o = 1 then
      disposeThisObj (decRef depth) o (s.setCnt o ((s.iCnt o - 1).bmod (2 ^ 32)))
    else pure (s.setCnt o ((s.iCnt o - 1).bmod (2 ^ 32)))

end ICommonBase

/-! ### Operations -/

namespace Src

/-- The pointer, or the one in the handle, which is read. -/
def read : Src O R F → Heap O R F → Eff O Fault (Option O)
  | .raw pObj, _ => pure pObj
  | .ptr h, s => s.get h

/-- The object. -/
def val : Src O R F → Heap O R F → Option O
  | .raw pObj, _ => pObj
  | .ptr h, s => s.pObj h

/-- The pointer is to an object there is, or to none; there is such a handle. -/
def Valid (s : Heap O R F) : Src O R F → Prop
  | .raw pObj => ∀ o ∈ pObj, o ∈ s.objs
  | .ptr h => h ∈ s.handles

instance (s : Heap O R F) : ∀ src : Src O R F, Decidable (src.Valid s)
  | .raw pObj => inferInstanceAs (Decidable (∀ o ∈ pObj, o ∈ s.objs))
  | .ptr h => inferInstanceAs (Decidable (h ∈ s.handles))

end Src

namespace CSmartPtr

/-- The constructors. -/
def construct (r : R) (src : Src O R F) : Call O R F := fun s =>
  src.read s >>= fun pObj => incRef (.var r)
    { s with handles := insert (.var r) s.handles, pObj := Function.update s.pObj (.var r) pObj }

/-- `operator =`. -/
def assign (h : Slot O R F) (src : Src O R F) : Call O R F := fun s =>
  s.get h >>= fun pObj => src.read s >>= fun p =>
  if pObj = p then pure s else
  decRef (ICommonBase.decRef s.objs.card) h s >>= fun s =>
  src.read s >>= fun p => s.put h p >>= incRef h

end CSmartPtr

/-- `new`; the constructor of each handle in the object makes it refer to nothing. -/
def create (o : O) (fs : List F) : Call O R F := fun s =>
  pure { objs := insert o s.objs
         iCnt := Function.update s.iCnt o 0
         fields := Function.update s.fields o fs
         handles := s.handles ∪ (fs.map (Slot.field o)).toFinset
         pObj := fun h => if h.host = some o then none else s.pObj h }

/-- One operation. -/
def step : Op O R F → Call O R F
  | .create o fs => create o fs
  | .construct r src => CSmartPtr.construct r src
  | .assign h src => CSmartPtr.assign h src
  | .destroy r => fun s => CSmartPtr.dtor (ICommonBase.decRef s.objs.card) (.var r) s

/-- The operation is on handles and objects there are; a new one is where none is. -/
def Valid (s : Heap O R F) : Op O R F → Prop
  | .create o fs => o ∉ s.objs ∧ fs.Nodup
  | .construct r src => .var r ∉ s.handles ∧ src.Valid s
  | .assign h src => h ∈ s.handles ∧ src.Valid s
  | .destroy r => .var r ∈ s.handles

instance (s : Heap O R F) : ∀ op : Op O R F, Decidable (Valid s op)
  | .create o fs => inferInstanceAs (Decidable (o ∉ s.objs ∧ fs.Nodup))
  | .construct r src => inferInstanceAs (Decidable (Slot.var r ∉ s.handles ∧ src.Valid s))
  | .assign h src => inferInstanceAs (Decidable (h ∈ s.handles ∧ src.Valid s))
  | .destroy r => inferInstanceAs (Decidable (Slot.var r ∈ s.handles))

/-! ### What is to hold -/

/-- **The counts are exact**: that of an object is the number of the handles to it, and fits; a
handle refers to an object there is, and its host is one. -/
structure Exact (s : Heap O R F) : Prop where
  cnt : ∀ o ∈ s.objs, s.iCnt o = (s.holders o).card
  fits : ∀ o ∈ s.objs, (s.holders o).card < 2 ^ 31
  target : ∀ h ∈ s.handles, ∀ o, s.pObj h = some o → o ∈ s.objs
  host : ∀ o f, .field o f ∈ s.handles ↔ o ∈ s.objs ∧ f ∈ s.fields o
  nodup : ∀ o ∈ s.objs, (s.fields o).Nodup

/-- **Objects are disposed when their last handle goes**, once, and no others. -/
structure LastGone (s : Heap O R F) (evs : List O) (t : Heap O R F) : Prop where
  once : evs.Nodup
  last : ∀ o, o ∈ evs ↔ o ∈ s.objs ∧ (s.holders o).Nonempty ∧ t.holders o = ∅
  objs : ∀ o ∈ s.objs, o ∈ t.objs ↔ o ∉ evs

/-- What the operation makes the handle refer to: what its source referred to before. -/
def Refers (s : Heap O R F) : Op O R F → Heap O R F → Prop
  | .create o fs, t => o ∈ t.objs ∧ ∀ f ∈ fs, .field o f ∈ t.handles ∧ t.pObj (.field o f) = none
  | .construct r src, t => .var r ∈ t.handles ∧ t.pObj (.var r) = src.val s
  | .assign h src, t => h ∈ t.handles ∧ t.pObj h = src.val s
  | .destroy r, t => .var r ∉ t.handles

/-- **What an operation is to do**: it returns, and the counts are exact then. -/
def Does (s : Heap O R F) (op : Op O R F) : Prop :=
  ∃ evs t, step op s = ⟨evs, .ok t⟩ ∧ Exact t ∧ LastGone s evs t ∧ Refers s op t

/-- The source of an assignment is there when the target has been released. -/
def Src.Survives (s : Heap O R F) (h : Slot O R F) : Src O R F → Prop
  | .raw pObj => ∀ o, pObj = some o → ¬ s.refs.Dies Slot.host h o
  | .ptr k => ¬ s.refs.HostDies Slot.host h k

/-- An assignment of another object: the target and the source are there when the target has been
released, and there is room in the count for one handle more. -/
structure Survive (s : Heap O R F) (h : Slot O R F) (src : Src O R F) : Prop where
  target : ¬ s.refs.HostDies Slot.host h h
  source : src.Survives s h
  room : ∀ o, src.val s = some o → ((s.refs.release Slot.host h).holders o).ncard + 1 < 2 ^ 31

/-- **The condition**, which an assignment of another object and a construction may violate. -/
def Safe (s : Heap O R F) : Op O R F → Prop
  | .create _ _ => True
  | .construct _ src => ∀ o, src.val s = some o → (s.holders o).card + 1 < 2 ^ 31
  | .assign h src => s.pObj h ≠ src.val s → Survive s h src
  | .destroy _ => True

end SmartNet.Utils.SmartPtr
