import AioPika.Tools.Collections

/-! # Calls of a collection

`__call__` holds the lock of the collection while its callbacks run, and catches
what they raise. A callback may use the collection too: every method that gets as
far as the lock then waits for the call that it is part of.
-/

namespace AioPika.CallbackCollection

open Coroutine Transition

section Calls

variable {ε σ ι κ ρ : Type}

/-- One turn of the loop of `__call__`, and the rest of it. The callback is called, and its result
is one of the futures if it can be awaited. -/
def callNext (call : EStateM (Stop ε) σ (Option ι)) (rest : EStateM (Stop ε) σ (List ι)) :
    EStateM (Stop ε) σ (List ι) := do
  let result ← Lock.caught call
  let futures ← rest
  match result with
  | .ok (some future) => pure (future :: futures)
  | _ => pure futures

/-- The loop of `__call__` -/
def callAll (call : κ → EStateM (Stop ε) σ (Option ι)) : List κ → EStateM (Stop ε) σ (List ι)
  | [] => pure []
  | cb :: cbs => callNext (call cb) (callAll call cbs)

/-- `__call__`, with its loop -/
def dispatch (lock : Lock σ) (loop : EStateM (Stop ε) σ (List ι))
    (gather : List ι → EStateM (Stop ε) σ ρ) (stub : ρ) : EStateM (Stop ε) σ ρ := do
  let futures ← lock.hold loop
  if futures.isEmpty then
    pure stub
  else
    gather futures

end Calls

/-- A synchronous callback that uses the collection. -/
inductive Program (C S : Type) where
  | returns
  | raises (exc : CallbackError C)
  /-- It raises what is no `Exception`. -/
  | escapes
  | perform (op : Op C) (next : Except (CallbackError C) (Option C) → Program C S)
  | copy (o : IterationOrder C)
      (next : Except (CallbackError C) (CallbackCollection S) → Program C S)

variable {C S : Type} [DecidableEq C] (callable : C → Bool)

/-- The callback is called; it returns nothing that can be awaited. -/
def Program.exec : Program C S → Method C S (Option Empty)
  | .returns => pure none
  | .raises exc => throw (.raised exc)
  | .escapes => throw .escaped
  | .perform op next => do
    let reply ← Lock.caught (op.run callable)
    (next reply).exec
  | .copy o next => do
    let reply ← Lock.caught (CallbackCollection.copy callable o)
    (next reply).exec

/-- `__call__`. The callbacks are iterated in this order. -/
def call (program : C → Program C S) (o : IterationOrder C) : Method C S PUnit :=
  dispatch lock
    (do
      let s ← get
      callAll (fun cb => (program cb).exec callable) (s.iter o))
    (fun _ => pure ()) ()

/-- The method raises this before it gets as far as the lock. -/
def Op.refused (s : Store C S) : Op C → Option (CallbackError C)
  | .add callback _ =>
    if s.isFrozen then some (.runtimeError "Collection frozen")
    else if callable callback = false then some (.valueError "Callback is not callable")
    else none
  | .discard _ | .clear => if s.isFrozen then some (.runtimeError "Collection frozen") else none
  | .remove callback =>
    if s.contains callback = false then some (.keyError (some callback))
    else if s.isFrozen then some (.runtimeError "Collection frozen")
    else none
  | .pop o =>
    if s.iter o = [] then some (.keyError none)
    else if s.isFrozen then some (.runtimeError "Collection frozen")
    else none
  | .freeze => if s.isFrozen then some (.runtimeError "Collection already frozen") else none
  | .unfreeze =>
    if s.isFrozen = false then some (.runtimeError "Collection is not frozen") else none

namespace Program

variable (refused : Op C → Option (CallbackError C))

/-- All that the callback asks for is refused. -/
def Harmless : Program C S → Prop
  | .returns | .raises _ | .escapes => True
  | .perform op next =>
    match refused op with
    | some exc => (next (.error exc)).Harmless
    | none => False
  | .copy _ _ => False

/-- The callback ends with what is no `Exception`, and the call with it. -/
def Escapes : Program C S → Prop
  | .escapes => True
  | .returns | .raises _ | .copy _ _ => False
  | .perform op next =>
    match refused op with
    | some exc => (next (.error exc)).Escapes
    | none => False

end Program

/-- The callbacks that are called are harmless. -/
def Tolerates (refused : Op C → Option (CallbackError C)) (program : C → Program C S) :
    List C → Prop
  | [] => True
  | cb :: cbs =>
    (program cb).Harmless refused ∧ ((program cb).Escapes refused ∨ Tolerates refused program cbs)

variable {callable} {s t : Store C S}

section Locked

/-- How a method ends that is refused, or waits for the lock. -/
def stopped {α : Type} (s : Store C S) :
    Option (CallbackError C) → EStateM.Result (Stop (CallbackError C)) (Store C S) α
  | some exc => .error (.raised exc) s
  | none => .error .blocked s

omit [DecidableEq C] in
theorem stopped_bind {α β : Type} {f : Method C S α} {g : α → Method C S β}
    {r : Option (CallbackError C)} (h : f s = stopped s r) : (f >>= g) s = stopped s r := by
  cases r with
  | some exc => exact bind_error h
  | none => exact bind_error h

omit [DecidableEq C] in
theorem guarded_locked (hl : s.self.locked = true) (frozen : Bool) {exc : CallbackError C}
    {body : Method C S PUnit} :
    (get >>= fun s => if s.isFrozen = frozen then throw (.raised exc) else lock.hold body :
      Method C S PUnit) s = stopped s (if s.isFrozen = frozen then some exc else none) := by
  by_cases hf : s.isFrozen = frozen
  · rw [if_pos hf]
    exact guard_error hf
  · rw [if_neg hf]
    have hhold : lock.hold body s = .error .blocked s := Lock.hold_locked hl
    rw [stopped, ← hhold]
    exact guard_ok hf

theorem add_locked (hl : s.self.locked = true) (callback : C) (weak : Bool) :
    add callable callback weak s = stopped s ((Op.add callback weak).refused callable s) := by
  unfold add
  rw [bind_ok get_run]
  by_cases hf : s.isFrozen = true
  · simp only [Op.refused, hf, if_true]
    rfl
  by_cases hc : callable callback = false
  · simp only [Op.refused, hf, hc, if_true]
    rfl
  · simp only [Op.refused, hf, hc]
    exact Lock.hold_locked (l := lock) hl

variable (callable) in
theorem discard_locked (hl : s.self.locked = true) (callback : C) :
    discard callback s = stopped s ((Op.discard callback).refused callable s) :=
  guarded_locked hl true

theorem remove_locked (hl : s.self.locked = true) (callback : C) :
    (mutableSet callable).remove callback s =
      stopped s ((Op.remove callback).refused callable s) := by
  unfold MutableSet.remove
  rw [bind_ok get_run]
  by_cases hc : s.contains callback = false
  · rw [if_pos (show (mutableSet callable).contains callback s = false from hc)]
    simp only [Op.refused, hc, if_true]
    rfl
  · rw [if_neg (show ¬ (mutableSet callable).contains callback s = false from hc)]
    simp only [Op.refused, hc]
    exact discard_locked callable hl callback

theorem pop_locked (hl : s.self.locked = true) (o : IterationOrder C) :
    (mutableSet callable).pop o s = stopped s ((Op.pop o).refused callable s) := by
  unfold MutableSet.pop
  rw [bind_ok get_run]
  simp only [Op.refused, mutableSet]
  cases s.iter o with
  | nil => rfl
  | cons callback _ =>
    simp only [reduceCtorEq, if_false]
    exact stopped_bind (discard_locked callable hl callback)

theorem clear_locked (hl : s.self.locked = true) :
    clear s = stopped s ((Op.clear : Op C).refused callable s) :=
  guarded_locked hl true

theorem freeze_locked (hl : s.self.locked = true) :
    freeze s = stopped s ((Op.freeze : Op C).refused callable s) :=
  guarded_locked hl true

theorem unfreeze_locked (hl : s.self.locked = true) :
    unfreeze s = stopped s ((Op.unfreeze : Op C).refused callable s) :=
  guarded_locked hl false

variable (callable) in
theorem run_locked (hl : s.self.locked = true) (op : Op C) :
    op.run callable s = stopped s (op.refused callable s) := by
  cases op with
  | add callback weak => exact stopped_bind (add_locked hl callback weak)
  | discard callback => exact stopped_bind (discard_locked callable hl callback)
  | remove callback => exact stopped_bind (remove_locked hl callback)
  | pop o => exact stopped_bind (pop_locked hl o)
  | clear => exact stopped_bind (clear_locked hl)
  | freeze => exact stopped_bind (freeze_locked hl)
  | unfreeze => exact stopped_bind (unfreeze_locked hl)

variable (callable) in
theorem copy_locked (hl : s.self.locked = true) (o : IterationOrder C) :
    ∃ t, copy callable o s = .error .blocked t := by
  unfold copy
  rw [bind_ok get_run, bind_ok modify_run]
  exact ⟨_, bind_error (Lock.hold_locked hl)⟩

variable (callable) in
/-- How a callback ends while the lock is held. -/
inductive Ends (s : Store C S) (p : Program C S) : Prop
  | returned (h : p.Harmless (Op.refused callable s)) (he : ¬ p.Escapes (Op.refused callable s))
      (hr : p.exec callable s = .ok none s)
  | raised (h : p.Harmless (Op.refused callable s)) (he : ¬ p.Escapes (Op.refused callable s))
      (exc : CallbackError C) (hr : p.exec callable s = .error (.raised exc) s)
  | escaped (h : p.Harmless (Op.refused callable s)) (he : p.Escapes (Op.refused callable s))
      (hr : p.exec callable s = .error .escaped s)
  | blocked (h : ¬ p.Harmless (Op.refused callable s)) (t : Store C S)
      (hr : p.exec callable s = .error .blocked t)

variable (callable) in
/-- A callback that is harmless changes nothing, and any other one waits for the lock. -/
theorem exec_ends (hl : s.self.locked = true) (p : Program C S) : Ends callable s p := by
  induction p with
  | returns => exact .returned trivial id rfl
  | raises exc => exact .raised trivial id exc rfl
  | escapes => exact .escaped trivial trivial rfl
  | perform op next ih =>
    have hrun := run_locked callable hl op
    cases hr : op.refused callable s with
    | none =>
      rw [hr] at hrun
      refine .blocked (fun h => ?_) s (bind_error (Lock.caught_blocked hrun))
      unfold Program.Harmless at h
      rw [hr] at h
      exact h
    | some exc =>
      rw [hr] at hrun
      have hexec : (Program.perform op next).exec callable s =
          (next (.error exc)).exec callable s := bind_ok (Lock.caught_raised hrun)
      have hharmless : (Program.perform op next).Harmless (Op.refused callable s) ↔
          (next (.error exc)).Harmless (Op.refused callable s) := by
        rw [Program.Harmless, hr]
      have hescapes : (Program.perform op next).Escapes (Op.refused callable s) ↔
          (next (.error exc)).Escapes (Op.refused callable s) := by
        rw [Program.Escapes, hr]
      cases ih (.error exc) with
      | returned h he hr =>
        exact .returned (hharmless.mpr h) (hescapes.not.mpr he) (hexec.trans hr)
      | raised h he exc' hr =>
        exact .raised (hharmless.mpr h) (hescapes.not.mpr he) exc' (hexec.trans hr)
      | escaped h he hr =>
        exact .escaped (hharmless.mpr h) (hescapes.mpr he) (hexec.trans hr)
      | blocked h t hr => exact .blocked (hharmless.not.mpr h) t (hexec.trans hr)
  | copy o next _ =>
    obtain ⟨t, hcopy⟩ := copy_locked callable hl o
    exact .blocked id t (bind_error (Lock.caught_blocked hcopy))

variable (callable) in
/-- The loop ends with the callback that waits for the lock, or escapes, or with the last one. -/
theorem callAll_locked (hl : s.self.locked = true) (program : C → Program C S) (cbs : List C) :
    (Tolerates (Op.refused callable s) program cbs ∧
      (callAll (fun cb => (program cb).exec callable) cbs s = .ok [] s ∨
        callAll (fun cb => (program cb).exec callable) cbs s = .error .escaped s)) ∨
    (¬ Tolerates (Op.refused callable s) program cbs ∧
      ∃ t, callAll (fun cb => (program cb).exec callable) cbs s = .error .blocked t) := by
  induction cbs with
  | nil => exact Or.inl ⟨trivial, Or.inl rfl⟩
  | cons cb cbs ih =>
    -- the callback returns or raises, and the loop goes on
    have hnext (r : Except (CallbackError C) (Option Empty))
        (hr : Lock.caught ((program cb).exec callable) s = .ok r s) :
        callAll (fun cb => (program cb).exec callable) (cb :: cbs) s =
          callAll (fun cb => (program cb).exec callable) cbs s := by
      refine (bind_ok hr).trans ?_
      match r with
      | .ok none => exact congrFun (bind_pure _) s
      | .error _ => exact congrFun (bind_pure _) s
      | .ok (some future) => exact future.elim
    have htail (h : (program cb).Harmless (Op.refused callable s))
        (he : ¬ (program cb).Escapes (Op.refused callable s)) :
        Tolerates (Op.refused callable s) program (cb :: cbs) ↔
          Tolerates (Op.refused callable s) program cbs :=
      ⟨fun ht => ht.2.resolve_left he, fun ht => ⟨h, Or.inr ht⟩⟩
    cases exec_ends callable hl (program cb) with
    | returned h he hr =>
      rw [hnext _ (Lock.caught_ok hr), htail h he]
      exact ih
    | raised h he exc hr =>
      rw [hnext _ (Lock.caught_raised hr), htail h he]
      exact ih
    | escaped h he hr =>
      exact Or.inl ⟨⟨h, Or.inl he⟩, Or.inr (bind_error (Lock.caught_escaped hr))⟩
    | blocked h t hr =>
      exact Or.inr ⟨fun ht => h ht.1, t, bind_error (Lock.caught_blocked hr)⟩

theorem refused_setLocked (locked : Bool) :
    Op.refused callable (lock.set locked s) = Op.refused callable s := by
  funext op
  cases op <;> rfl

end Locked

/-- A call of a collection ends exactly if the lock is free and all that the callbacks that are
called ask of the collection is refused. -/
theorem call_ends_iff (callable : C → Bool) (program : C → Program C S) (o : IterationOrder C)
    (s : Store C S) : (∀ t, call callable program o s ≠ .error .blocked t) ↔
      s.self.locked = false ∧ Tolerates (Op.refused callable s) program (s.iter o) := by
  cases hl : s.self.locked with
  | true =>
    refine iff_of_false (fun h => ?_) fun h => by cases h.1
    exact h s (bind_error (Lock.hold_locked hl))
  | false =>
    have hloop := callAll_locked callable (s := lock.set true s) rfl program
      (s.iter o)
    rw [refused_setLocked] at hloop
    rcases hloop with ⟨ht, hr | hr⟩ | ⟨ht, t, hr⟩
    · refine iff_of_true (fun t h => ?_) ⟨rfl, ht⟩
      have hcall : call callable program o s = .ok () _ := bind_ok (Lock.hold_ok hl hr)
      rw [hcall] at h
      cases h
    · refine iff_of_true (fun t h => ?_) ⟨rfl, ht⟩
      have hcall : call callable program o s = .error .escaped _ :=
        bind_error (Lock.hold_escaped hl hr)
      rw [hcall] at h
      cases h
    · refine iff_of_false (fun h => ?_) fun h => ht h.2
      exact h t (bind_error (Lock.hold_blocked hl hr))

def oneMember : List (Action ℕ Unit) := [.create (), .call 0 (.add 1 false)]

def discardsItself (cb : ℕ) : Program ℕ Unit := .perform (.discard cb) fun _ => .returns

/-- The call waits for the lock that it holds. -/
theorem discards_itself : ∃ s, checked (step fun _ => true) (fun _ _ => True) System.empty
    oneMember = some s ∧ ∀ o, ∃ t, s.run 0 (call (fun _ => true) discardsItself o) =
      some (.error .blocked, t) := by
  obtain ⟨s, self, hs, hi, hstrong, hweak, hf, hl⟩ : ∃ s self,
      checked (step fun _ => true) (fun _ _ => True) System.empty oneMember = some s ∧
      s.collections[0]? = some self ∧ Store.strong ⟨s.memory, self⟩ = {1} ∧
      Store.weak ⟨s.memory, self⟩ = ∅ ∧ Store.isFrozen ⟨s.memory, self⟩ = false ∧
      self.locked = false := ⟨_, _, rfl, rfl, rfl, rfl, rfl, rfl⟩
  refine ⟨s, hs, fun o => ?_⟩
  have hiter : Store.iter ⟨s.memory, self⟩ o = [1] := by
    rw [Store.iter, hstrong, hweak, o.list_singleton, o.list_empty]
    rfl
  have hfrozen : Store.isFrozen (lock.set true ⟨s.memory, self⟩) = false := hf
  have hloop := callAll_locked (fun _ => true) (s := lock.set true ⟨s.memory, self⟩) rfl
    discardsItself (Store.iter ⟨s.memory, self⟩ o)
  rcases hloop with ⟨ht, -⟩ | ⟨-, t, hr⟩
  · rw [hiter] at ht
    have hharmless := ht.1
    simp [discardsItself, Program.Harmless, Op.refused, hfrozen] at hharmless
  · have hcall : call (fun _ => true) discardsItself o ⟨s.memory, self⟩ = .error .blocked t :=
      bind_error (Lock.hold_blocked hl hr)
    refine ⟨⟨t.memory, s.collections.set 0 t.self⟩, ?_⟩
    simp only [System.run, hi, Option.map_some, hcall, outcome, final]

end AioPika.CallbackCollection
