import AioPika.Foundation.Simulation
import Mathlib.Data.Finset.Basic
import Mathlib.Data.List.Perm.Basic

/-! # Mutable sets

`collections.abc.MutableSet` builds further methods from a few that a class has to
define. What they do follows from what these do: if the methods of one set simulate
those of another, so do the methods that are built from them.
-/

/-- An order in which finite sets are iterated. -/
structure IterationOrder (C : Type) where
  list : Finset C → List C
  nodup : ∀ s, (list s).Nodup
  mem_iff : ∀ s c, c ∈ list s ↔ c ∈ s

theorem IterationOrder.list_empty {C : Type} (o : IterationOrder C) : o.list ∅ = [] :=
  List.eq_nil_iff_forall_not_mem.mpr fun c hc => Finset.notMem_empty c ((o.mem_iff ∅ c).mp hc)

theorem IterationOrder.list_singleton {C : Type} (o : IterationOrder C) (c : C) :
    o.list {c} = [c] := by
  have hperm : (o.list {c}).Perm [c] := by
    apply (List.perm_ext_iff_of_nodup (o.nodup _) (List.nodup_singleton c)).mpr
    intro x
    rw [o.mem_iff, Finset.mem_singleton, List.mem_singleton]
  exact List.perm_singleton.mp hperm

inductive Operand (C : Type) where
  /-- the set itself -/
  | self
  /-- another iterable, with these values -/
  | values (l : List C)

/-- The methods of a set that its class defines. -/
structure MutableSet (ε σ C : Type) where
  contains : C → σ → Bool
  iter : IterationOrder C → σ → List C
  add : C → EStateM ε σ PUnit
  discard : C → EStateM ε σ PUnit
  clear : EStateM ε σ PUnit
  /-- The elements of `_from_iterable(it)` -/
  fromIterable : List C → List C
  /-- `KeyError` -/
  keyError : Option C → ε

namespace MutableSet

variable {ε δ σ τ C : Type}

def remove (S : MutableSet ε σ C) (value : C) : EStateM ε σ PUnit := do
  if S.contains value (← get) = false then
    throw (S.keyError (some value))
  S.discard value

def pop (S : MutableSet ε σ C) (o : IterationOrder C) : EStateM ε σ C := do
  match S.iter o (← get) with
  | [] => throw (S.keyError none)
  | value :: _ => do
    S.discard value
    pure value

def values (S : MutableSet ε σ C) (o : IterationOrder C) (s : σ) : Operand C → List C
  | .self => S.iter o s
  | .values l => l

/-- `__ior__` -/
def ior (S : MutableSet ε σ C) (o : IterationOrder C) (it : Operand C) : EStateM ε σ PUnit := do
  (S.values o (← get) it).forM S.add

/-- `__iand__` -/
def iand [DecidableEq C] (S : MutableSet ε σ C) (o : IterationOrder C) (it : Operand C) :
    EStateM ε σ PUnit := do
  let s ← get
  (S.fromIterable ((S.iter o s).filter (· ∉ S.values o s it))).forM S.discard

/-- `__isub__` -/
def isub (S : MutableSet ε σ C) : Operand C → EStateM ε σ PUnit
  | .self => S.clear
  | .values l => l.forM S.discard

/-- `__ixor__` -/
def ixor (S : MutableSet ε σ C) : Operand C → EStateM ε σ PUnit
  | .self => S.clear
  | .values l => l.forM fun value => do
    if S.contains value (← get) then
      S.discard value
    else
      S.add value

open Coroutine

/-- The methods of one set simulate those of another. -/
structure Refines (R : σ → τ → Prop) (e : δ → ε) (S : MutableSet ε σ C) (T : MutableSet δ τ C) :
    Prop where
  contains : ∀ c s t, R s t → S.contains c s = T.contains c t
  iter : ∀ o s t, R s t → S.iter o s = T.iter o t
  add : ∀ c, Simulates R e (S.add c) (T.add c)
  discard : ∀ c, Simulates R e (S.discard c) (T.discard c)
  clear : Simulates R e S.clear T.clear
  fromIterable : S.fromIterable = T.fromIterable
  keyError : ∀ c, S.keyError c = e (T.keyError c)

variable {R : σ → τ → Prop} {e : δ → ε} {S : MutableSet ε σ C} {T : MutableSet δ τ C}

theorem Refines.remove (h : Refines R e S T) (value : C) :
    Simulates R e (S.remove value) (T.remove value) := by
  apply simulates_get
  intro s t hr
  rw [h.contains value s t hr]
  split
  · rw [h.keyError]
    exact .error _ hr
  · exact h.discard value s t hr

theorem Refines.pop (h : Refines R e S T) (o : IterationOrder C) :
    Simulates R e (S.pop o) (T.pop o) := by
  apply simulates_get
  intro s t hr
  rw [h.iter o s t hr]
  cases T.iter o t with
  | nil =>
    dsimp only
    rw [h.keyError]
    exact .error _ hr
  | cons value _ => exact (h.discard value).bind (fun _ => simulates_pure value) s t hr

theorem Refines.values (h : Refines R e S T) (o : IterationOrder C) (it : Operand C) {s : σ} {t : τ}
    (hr : R s t) : S.values o s it = T.values o t it := by
  cases it with
  | self => exact h.iter o s t hr
  | values l => rfl

theorem Refines.ior (h : Refines R e S T) (o : IterationOrder C) (it : Operand C) :
    Simulates R e (S.ior o it) (T.ior o it) := by
  apply simulates_get
  intro s t hr
  rw [h.values o it hr]
  exact simulates_forM (fun c _ => h.add c) s t hr

theorem Refines.iand [DecidableEq C] (h : Refines R e S T) (o : IterationOrder C)
    (it : Operand C) : Simulates R e (S.iand o it) (T.iand o it) := by
  apply simulates_get
  intro s t hr
  rw [h.values o it hr, h.iter o s t hr, h.fromIterable]
  exact simulates_forM (fun c _ => h.discard c) s t hr

theorem Refines.isub (h : Refines R e S T) (it : Operand C) :
    Simulates R e (S.isub it) (T.isub it) := by
  cases it with
  | self => exact h.clear
  | values l => exact simulates_forM fun c _ => h.discard c

theorem Refines.ixor (h : Refines R e S T) (it : Operand C) :
    Simulates R e (S.ixor it) (T.ixor it) := by
  cases it with
  | self => exact h.clear
  | values l =>
    apply simulates_forM
    intro c _
    apply simulates_get
    intro s t hr
    rw [h.contains c s t hr]
    split
    · exact h.discard c s t hr
    · exact h.add c s t hr

end MutableSet
