import AioPika.Foundation.Lock
import AioPika.Foundation.Memory
import AioPika.Foundation.MutableSet
import Mathlib.Data.Finset.Card

/-! # Callback collections

A `CallbackCollection` has two sets, of the callbacks that it keeps alive and of
those that it does not, and a lock that every method takes which changes them. It
is frozen if the first one is a `frozenset`. All callbacks are alive here.
-/

namespace AioPika

/-- The exceptions of the methods, and those of the callbacks. -/
inductive CallbackError (C : Type) where
  | runtimeError (message : String)
  | valueError (message : String)
  | keyError (value : Option C)
  | attributeError
  | other
  deriving DecidableEq, Repr

structure CallbackCollection (S : Type) where
  /-- `__sender` -/
  sender : S
  /-- The address of `__callbacks`. -/
  callbacks : ℕ
  /-- The address of `__weak_callbacks`. -/
  weakCallbacks : ℕ
  /-- `__lock` is locked. -/
  locked : Bool
  deriving DecidableEq, Repr

namespace CallbackCollection

inductive SetKind where
  | set
  | frozenset
  | weakSet
  deriving DecidableEq, Repr

structure SetObject (C : Type) where
  kind : SetKind
  items : Finset C
  deriving DecidableEq

/-- The sets in memory, and the collection whose method runs. -/
structure Store (C S : Type) where
  memory : Memory (SetObject C)
  self : CallbackCollection S

abbrev Method (C S : Type) := EStateM (Stop (CallbackError C)) (Store C S)

variable {C S : Type}

/-- `__lock` -/
def lock : Lock (Store C S) where
  isLocked s := s.self.locked
  set b s := { s with self := { s.self with locked := b } }

namespace Store

variable (s : Store C S)

def strong : Finset C := (s.memory.cells s.self.callbacks).items

def weak : Finset C := (s.memory.cells s.self.weakCallbacks).items

def isFrozen : Bool := (s.memory.cells s.self.callbacks).kind = .frozenset

/-- `__contains__` -/
def contains [DecidableEq C] (x : C) : Bool := x ∈ s.strong ∨ x ∈ s.weak

/-- `__len__` -/
def len : ℕ := s.strong.card + s.weak.card

/-- `__iter__` -/
def iter (o : IterationOrder C) : List C := o.list s.strong ++ o.list s.weak

end Store

/-- `__init__` -/
def init (memory : Memory (SetObject C)) (sender : S) : Store C S where
  memory := (memory.alloc ⟨.set, ∅⟩).alloc ⟨.weakSet, ∅⟩
  self := ⟨sender, memory.next, memory.next + 1, false⟩

/-- Change one of the two sets, which a `frozenset` has no methods for. -/
def change (field : CallbackCollection S → ℕ) (f : Finset C → Finset C) : Method C S PUnit := do
  let s ← get
  let object := s.memory.cells (field s.self)
  if object.kind = .frozenset then
    throw (.raised .attributeError)
  else
    modify fun s => { s with
      memory := s.memory.write (field s.self) { object with items := f object.items } }

section Methods

variable [DecidableEq C]

/-- `callable` is the function of this name. -/
def add (callable : C → Bool) (callback : C) (weak : Bool) : Method C S PUnit := do
  let s ← get
  if s.isFrozen then
    throw (.raised (.runtimeError "Collection frozen"))
  else if callable callback = false then
    throw (.raised (.valueError "Callback is not callable"))
  else
    lock.hold do
      if weak then
        change weakCallbacks (insert callback)
      else
        change callbacks (insert callback)

def discard (callback : C) : Method C S PUnit := do
  let s ← get
  if s.isFrozen then
    throw (.raised (.runtimeError "Collection frozen"))
  else
    lock.hold do
      let s ← get
      if callback ∈ s.strong then
        change callbacks fun items => items.erase callback
      else if callback ∈ s.weak then
        change weakCallbacks fun items => items.erase callback
      else
        pure ()

def clear : Method C S PUnit := do
  let s ← get
  if s.isFrozen then
    throw (.raised (.runtimeError "Collection frozen"))
  else
    lock.hold do
      change callbacks fun _ => ∅
      change weakCallbacks fun _ => ∅

/-- `self.__callbacks = kind(self.__callbacks)`, and the same for the weak ones. -/
def rebind (kind : SetKind) : Method C S PUnit := do
  modify fun s => ⟨s.memory.alloc ⟨kind, s.strong⟩, { s.self with callbacks := s.memory.next }⟩
  modify fun s =>
    ⟨s.memory.alloc ⟨.weakSet, s.weak⟩, { s.self with weakCallbacks := s.memory.next }⟩

def freeze : Method C S PUnit := do
  let s ← get
  if s.isFrozen then
    throw (.raised (.runtimeError "Collection already frozen"))
  else
    lock.hold (rebind .frozenset)

def unfreeze : Method C S PUnit := do
  let s ← get
  if s.isFrozen = false then
    throw (.raised (.runtimeError "Collection is not frozen"))
  else
    lock.hold (rebind .set)

def on (other : CallbackCollection S) (method : Method C S PUnit) :
    Method C S (CallbackCollection S) := fun s =>
  match method ⟨s.memory, other⟩ with
  | .ok _ t => .ok t.self ⟨t.memory, s.self⟩
  | .error e t => .error e ⟨t.memory, s.self⟩

/-- The loops of `__copy__`, on the new collection. -/
def addAll (callable : C → Bool) (strong weak : List C) : Method C S PUnit := do
  strong.forM fun callback => add callable callback false
  weak.forM fun callback => add callable callback true

/-- `__copy__` -/
def copy (callable : C → Bool) (o : IterationOrder C) : Method C S (CallbackCollection S) := do
  let s ← get
  let created := init s.memory s.self.sender
  modify fun s => { s with memory := created.memory }
  let copied ← lock.hold do
    let s ← get
    on created.self (addAll callable (o.list s.strong) (o.list s.weak))
  let s ← get
  if s.isFrozen then
    on copied freeze
  else
    pure copied

/-- The methods that `MutableSet` works with. `_from_iterable` makes a collection whose sender is
the iterable, and which has no members. -/
def mutableSet (callable : C → Bool) : MutableSet (Stop (CallbackError C)) (Store C S) C where
  contains x s := s.contains x
  iter o s := s.iter o
  add callback := add callable callback false
  discard := discard
  clear := clear
  fromIterable _ := []
  keyError value := .raised (.keyError value)

end Methods

inductive Op (C : Type) where
  | add (callback : C) (weak : Bool)
  | discard (callback : C)
  | remove (callback : C)
  | pop (o : IterationOrder C)
  | clear
  | freeze
  | unfreeze

/-- The operators that `MutableSet` defines. -/
inductive Operator (C : Type) where
  | ior (o : IterationOrder C) (it : Operand C)
  | iand (o : IterationOrder C) (it : Operand C)
  | isub (it : Operand C)
  | ixor (it : Operand C)

variable [DecidableEq C]

def Op.run (callable : C → Bool) : Op C → Method C S (Option C)
  | .add callback weak => do
    CallbackCollection.add callable callback weak
    pure none
  | .discard callback => do
    CallbackCollection.discard callback
    pure none
  | .remove callback => do
    (mutableSet callable).remove callback
    pure none
  | .pop o => do
    let callback ← (mutableSet callable).pop o
    pure (some callback)
  | .clear => do
    CallbackCollection.clear
    pure none
  | .freeze => do
    CallbackCollection.freeze
    pure none
  | .unfreeze => do
    CallbackCollection.unfreeze
    pure none

def Operator.run (callable : C → Bool) : Operator C → Method C S PUnit
  | .ior o it => (mutableSet callable).ior o it
  | .iand o it => (mutableSet callable).iand o it
  | .isub it => (mutableSet callable).isub it
  | .ixor it => (mutableSet callable).ixor it

end CallbackCollection

end AioPika
