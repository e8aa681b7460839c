import AioPika.Connection.OneShot
import AioPika.Foundation.Members
import AioPika.Foundation.Runs
import Mathlib.Data.List.Basic

/-! # The life of a robust channel

A `RobustChannel` is opened, restored, reopened and closed by coroutines that
interleave at their awaits: calls of the user, the reconnection factory, and the
close callbacks of all its underlay channels. An action is what one of them does
between two awaits; a call that raises at once is no action.
-/

namespace AioPika.Lifecycle

/-- `UnderlayChannel` -/
structure Underlay where
  /-- `UnderlayChannel.create` has returned it. -/
  opened : Bool
  /-- It is called when the channel or its connection is closed. -/
  closeCallback : OneShotCallback
  deriving DecidableEq, Repr

def Underlay.IsOpen (u : Underlay) : Prop := u.opened = true ∧ u.closeCallback.Armed

/-- Who awaits `restore()`. -/
inductive Caller where
  | connection
  /-- `__close_callback` of an underlay channel -/
  | callback (underlay : ℕ)
  | user
  deriving DecidableEq, Repr

inductive Call where
  | restore (caller : Caller)
  | reopen
  | initialization
  | close
  deriving DecidableEq, Repr

inductive Pc where
  /-- `async with self.__restore_lock` -/
  | locking
  /-- In `_open`: `await transport.ready()` -/
  | connecting
  /-- `await UnderlayChannel.create(...)`, which has added the close callback. -/
  | creating (underlay : ℕ)
  /-- `await self._on_open()` -/
  | onOpen (underlay : ℕ)
  /-- `_on_open` has raised: `await channel.close(e)` -/
  | cleaning (underlay : ℕ) (exc : Raised)
  /-- `await self.reopen_callbacks()` -/
  | reopened
  /-- `await self._on_initialized()` -/
  | initialized
  /-- In `close()`: `await self._channel.close()` -/
  | closing (underlay : ℕ)
  | returned
  | raised (exc : Raised)
  deriving DecidableEq, Repr

structure Task where
  call : Call
  pc : Pc
  deriving DecidableEq, Repr

structure State where
  /-- `_channel` -/
  channel : Option ℕ
  /-- `_closed` -/
  closed : Bool
  /-- `__restored` is set. -/
  restored : Bool
  /-- The task that holds `__restore_lock`. -/
  lock : Option ℕ
  /-- All underlay channels that were ever begun. -/
  underlays : List Underlay
  /-- All coroutines that were ever called. -/
  tasks : List Task
  deriving DecidableEq, Repr

inductive Action where
  /-- A call by the user or the connection. -/
  | call (c : Call)
  /-- `__restore_lock` is acquired; here any of the tasks that wait for it may be the next. -/
  | locked (task : ℕ)
  /-- The transport is ready. -/
  | connected (task : ℕ)
  | created (task : ℕ)
  /-- `_on_open` and `_open` return. -/
  | opened (task : ℕ)
  /-- The last await of the coroutine is over, and it returns. -/
  | returned (task : ℕ)
  /-- The await of the coroutine raises. -/
  | raised (task : ℕ) (exc : Raised)
  /-- The underlay channel of a failed `_on_open` is closed. -/
  | cleaned (task : ℕ)
  /-- `closing` of the underlay channel or of its connection is done. -/
  | closed (underlay : ℕ) (exc : Option Raised)
  /-- The close callback of the underlay channel is entered. -/
  | callbackStarted (underlay : ℕ)
  | callbackEnded (underlay : ℕ)
  deriving DecidableEq, Repr

/-- `__init__` -/
def fresh : State := ⟨none, false, false, none, [], []⟩

namespace Pc

def Done : Pc → Prop
  | .returned | .raised _ => True
  | _ => False

instance : DecidablePred Done := fun pc => by
  cases pc <;> unfold Done <;> infer_instance

/-- The await may raise, and ends the coroutine. The lock, `reopen_callbacks` and the close of a
new underlay channel do not raise, but their awaits can be cancelled. -/
def Raises (exc : Raised) : Pc → Prop
  | .connecting | .creating _ | .initialized | .closing _ => True
  | .locking | .reopened | .cleaning _ _ => exc = .cancelled
  | .onOpen _ | .returned | .raised _ => False

instance (exc : Raised) : DecidablePred (Raises exc) := fun pc => by
  cases pc <;> unfold Raises <;> infer_instance

/-- The coroutine is in `_open`, or in what `reopen()` does after it. -/
def Opening : Pc → Prop
  | .connecting | .creating _ | .onOpen _ | .cleaning _ _ | .reopened => True
  | _ => False

instance : DecidablePred Opening := fun pc => by
  cases pc <;> unfold Opening <;> infer_instance

end Pc

/-- `is_closed` -/
def State.isClosed (s : State) : Bool :=
  match s.channel with
  | none => true
  | some u => s.closed || (s.underlays[u]?.map fun u => decide (¬ u.closeCallback.Armed)).getD true

def State.setPc (s : State) (i : ℕ) (c : Call) (pc : Pc) : State :=
  { s with tasks := s.tasks.set i ⟨c, pc⟩ }

/-- A coroutine leaves `__restore_lock`, if it holds it. -/
def State.unlock (s : State) (i : ℕ) : State :=
  if s.lock = some i then { s with lock := none } else s

def State.start (s : State) (c : Call) (pc : Pc) : State :=
  { s with tasks := s.tasks ++ [⟨c, pc⟩] }

def State.setCallback (s : State) (u : ℕ) (callback : OneShotCallback) : State :=
  { s with underlays := s.underlays.modify u fun un => { un with closeCallback := callback } }

def State.callback (s : State) (u : ℕ) : Option OneShotCallback :=
  s.underlays[u]?.map Underlay.closeCallback

/-- The last await of the coroutine may end, and nothing is left to do. -/
def State.Returns (s : State) : Task → Prop
  | ⟨.reopen, .reopened⟩ | ⟨.initialization, .initialized⟩ => True
  | ⟨.close, .closing u⟩ => s.callback u = some .finished
  | _ => False

instance (s : State) : DecidablePred s.Returns := fun t => by
  unfold State.Returns
  split <;> infer_instance

/-- `__close_callback` up to its await. -/
def State.closeCallback (s : State) (u : ℕ) (exc : Option Raised) : State :=
  let t := { s with restored := false }
  if exc = some .cancelled then t
  else if s.closed ∨ s.restored = false then t
  else t.start (.restore (.callback u)) .locking

def step (s : State) : Action → Option State
  | .call (.restore (.callback _)) => none
  | .call (.restore caller) => some (s.start (.restore caller) .locking)
  | .call .reopen => some (s.start .reopen .connecting)
  | .call .initialization =>
    if s.channel.isSome ∨ s.closed then none else some (s.start .initialization .connecting)
  | .call .close =>
    match s.channel with
    -- "Channel not opened": it returns, and `_closed` stays as it is
    | none => some (s.start .close .returned)
    | some u => some (State.start { s with closed := true } .close (.closing u))
  | .locked i =>
    match s.tasks[i]?, s.lock with
    | some ⟨c, .locking⟩, none =>
      if s.restored then some (s.setPc i c .returned)
      else some (State.setPc { s with lock := some i } i c .connecting)
    | _, _ => none
  | .connected i =>
    match s.tasks[i]? with
    | some ⟨c, .connecting⟩ =>
      some (State.setPc { s with underlays := s.underlays ++ [⟨false, .idle⟩] } i c
        (.creating s.underlays.length))
    | _ => none
  | .created i =>
    match s.tasks[i]? with
    | some ⟨c, .creating u⟩ =>
      some (State.setPc { s with
        underlays := s.underlays.modify u fun un => { un with opened := true }
        channel := some u } i c (.onOpen u))
    | _ => none
  | .opened i =>
    match s.tasks[i]? with
    | some ⟨c, .onOpen _⟩ =>
      some (State.setPc { s with restored := true, closed := false } i c
        (if c = .initialization then .initialized else .reopened))
    | _ => none
  | .returned i =>
    match s.tasks[i]? with
    | some ⟨.restore caller, .reopened⟩ =>
      some (State.unlock (State.setPc { s with restored := true } i (.restore caller) .returned) i)
    | some t => if s.Returns t then some (s.setPc i t.call .returned) else none
    | none => none
  | .raised i exc =>
    match s.tasks[i]? with
    | some ⟨c, .onOpen u⟩ => some (s.setPc i c (.cleaning u exc))
    | some ⟨c, pc⟩ =>
      if pc.Raises exc then some ((s.setPc i c (.raised exc)).unlock i) else none
    | none => none
  | .cleaned i =>
    match s.tasks[i]? with
    | some ⟨c, .cleaning u exc⟩ =>
      if s.callback u = some .finished then
        some (State.unlock (State.setPc { s with channel := none } i c (.raised exc)) i)
      else none
    | _ => none
  | .closed u exc =>
    match s.callback u with
    | some .idle => some (s.setCallback u (.scheduled exc))
    | _ => none
  | .callbackStarted u =>
    match s.callback u with
    | some (.scheduled exc) => some ((s.setCallback u .running).closeCallback u exc)
    | _ => none
  | .callbackEnded u =>
    match s.callback u with
    | some .running =>
      if ∀ t ∈ s.tasks, t.call = .restore (.callback u) → t.pc.Done then
        some (s.setCallback u .finished)
      else none
    | _ => none

inductive Step (s : State) : Action → State → Prop
  | restore {caller : Caller} (hc : ∀ u, caller ≠ .callback u) :
      Step s (.call (.restore caller)) (s.start (.restore caller) .locking)
  | reopen : Step s (.call .reopen) (s.start .reopen .connecting)
  | initialization (hc : s.channel = none) (ho : s.closed = false) :
      Step s (.call .initialization) (s.start .initialization .connecting)
  | close {u : ℕ} (hc : s.channel = some u) :
      Step s (.call .close) (State.start { s with closed := true } .close (.closing u))
  | unopened (hc : s.channel = none) : Step s (.call .close) (s.start .close .returned)
  | skipped {i : ℕ} {c : Call} (ht : s.tasks[i]? = some ⟨c, .locking⟩) (hr : s.restored = true) :
      Step s (.locked i) (s.setPc i c .returned)
  | locked {i : ℕ} {c : Call} (ht : s.tasks[i]? = some ⟨c, .locking⟩) (hl : s.lock = none)
      (hr : s.restored = false) :
      Step s (.locked i) (State.setPc { s with lock := some i } i c .connecting)
  | connected {i : ℕ} {c : Call} (ht : s.tasks[i]? = some ⟨c, .connecting⟩) :
      Step s (.connected i) (State.setPc { s with underlays := s.underlays ++ [⟨false, .idle⟩] } i c
        (.creating s.underlays.length))
  | created {i u : ℕ} {c : Call} (ht : s.tasks[i]? = some ⟨c, .creating u⟩) :
      Step s (.created i) (State.setPc { s with
        underlays := s.underlays.modify u fun un => { un with opened := true }
        channel := some u } i c (.onOpen u))
  | opened {i u : ℕ} {c : Call} (ht : s.tasks[i]? = some ⟨c, .onOpen u⟩) :
      Step s (.opened i) (State.setPc { s with restored := true, closed := false } i c
        (if c = .initialization then .initialized else .reopened))
  | restored {i : ℕ} {caller : Caller} (ht : s.tasks[i]? = some ⟨.restore caller, .reopened⟩) :
      Step s (.returned i)
        (State.unlock (State.setPc { s with restored := true } i (.restore caller) .returned) i)
  | returned {i : ℕ} {t : Task} (ht : s.tasks[i]? = some t) (hr : s.Returns t) :
      Step s (.returned i) (s.setPc i t.call .returned)
  | failed {i u : ℕ} {c : Call} {exc : Raised} (ht : s.tasks[i]? = some ⟨c, .onOpen u⟩) :
      Step s (.raised i exc) (s.setPc i c (.cleaning u exc))
  | raised {i : ℕ} {c : Call} {pc : Pc} {exc : Raised} (ht : s.tasks[i]? = some ⟨c, pc⟩)
      (hr : pc.Raises exc) : Step s (.raised i exc) ((s.setPc i c (.raised exc)).unlock i)
  | cleaned {i u : ℕ} {c : Call} {exc : Raised} (ht : s.tasks[i]? = some ⟨c, .cleaning u exc⟩)
      (hf : s.callback u = some .finished) :
      Step s (.cleaned i)
        (State.unlock (State.setPc { s with channel := none } i c (.raised exc)) i)
  | closed {u : ℕ} {exc : Option Raised} (hi : s.callback u = some .idle) :
      Step s (.closed u exc) (s.setCallback u (.scheduled exc))
  | callbackStarted {u : ℕ} {exc : Option Raised} (hi : s.callback u = some (.scheduled exc)) :
      Step s (.callbackStarted u) ((s.setCallback u .running).closeCallback u exc)
  | callbackEnded {u : ℕ} (hi : s.callback u = some .running)
      (hd : ∀ t ∈ s.tasks, t.call = .restore (.callback u) → t.pc.Done) :
      Step s (.callbackEnded u) (s.setCallback u .finished)

theorem step_cases {s t : State} {a : Action} (h : step s a = some t) : Step s a t := by
  cases a with
  | call c =>
    cases c with
    | restore caller =>
      cases caller with
      | callback u => cases h
      | connection =>
        obtain rfl := Option.some.inj h
        exact .restore (by simp)
      | user =>
        obtain rfl := Option.some.inj h
        exact .restore (by simp)
    | reopen =>
      obtain rfl := Option.some.inj h
      exact .reopen
    | initialization =>
      simp only [step] at h
      split at h
      · cases h
      · rename_i hc
        obtain rfl := Option.some.inj h
        rw [not_or] at hc
        exact .initialization (by simpa using hc.1) (by simpa using hc.2)
    | close =>
      simp only [step] at h
      split at h
      · rename_i hc
        obtain rfl := Option.some.inj h
        exact .unopened hc
      · rename_i u hc
        obtain rfl := Option.some.inj h
        exact .close hc
  | locked i =>
    simp only [step] at h
    split at h
    · rename_i c ht hl
      split at h
      · rename_i hr
        obtain rfl := Option.some.inj h
        exact .skipped ht hr
      · rename_i hr
        obtain rfl := Option.some.inj h
        exact .locked ht hl (by simpa using hr)
    · cases h
  | connected i =>
    simp only [step] at h
    split at h
    · rename_i c ht
      obtain rfl := Option.some.inj h
      exact .connected ht
    · cases h
  | created i =>
    simp only [step] at h
    split at h
    · rename_i c u ht
      obtain rfl := Option.some.inj h
      exact .created ht
    · cases h
  | opened i =>
    simp only [step] at h
    split at h
    · rename_i c u ht
      obtain rfl := Option.some.inj h
      exact .opened ht
    · cases h
  | returned i =>
    simp only [step] at h
    split at h
    · rename_i caller ht
      obtain rfl := Option.some.inj h
      exact .restored ht
    · rename_i task hn ht
      split at h
      · rename_i hr
        obtain rfl := Option.some.inj h
        exact .returned ht hr
      · cases h
    · cases h
  | raised i exc =>
    simp only [step] at h
    split at h
    · rename_i c u ht
      obtain rfl := Option.some.inj h
      exact .failed ht
    · rename_i c pc hn ht
      split at h
      · rename_i hr
        obtain rfl := Option.some.inj h
        exact .raised ht hr
      · cases h
    · cases h
  | cleaned i =>
    simp only [step] at h
    split at h
    · rename_i c u exc ht
      split at h
      · rename_i hf
        obtain rfl := Option.some.inj h
        exact .cleaned ht hf
      · cases h
    · cases h
  | closed u exc =>
    simp only [step] at h
    split at h
    · rename_i hi
      obtain rfl := Option.some.inj h
      exact .closed hi
    · cases h
  | callbackStarted u =>
    simp only [step] at h
    split at h
    · rename_i exc hi
      obtain rfl := Option.some.inj h
      exact .callbackStarted hi
    · cases h
  | callbackEnded u =>
    simp only [step] at h
    split at h
    · rename_i hi
      split at h
      · rename_i hd
        obtain rfl := Option.some.inj h
        exact .callbackEnded hi hd
      · cases h
    · cases h

def State.current (s : State) : Option Underlay := s.channel.bind fun u => s.underlays[u]?

/-- No open or restore of the channel is in progress, and no close callback is in progress or
scheduled. -/
structure Idle (s : State) : Prop where
  tasks : ∀ t ∈ s.tasks, t.call ≠ .close → t.pc.Done
  callbacks : ∀ u ∈ s.underlays, ¬ u.closeCallback.Pending

/-- The user has initialised the channel, and nothing is in progress. -/
structure Initialised (s : State) : Prop where
  tasks : ∀ t ∈ s.tasks, t.pc.Done
  callbacks : ∀ u ∈ s.underlays, ¬ u.closeCallback.Pending
  underlay : ∃ u ∈ s.current, u.IsOpen
  restored : s.restored = true
  closed : s.closed = false
  lock : s.lock = none

section Accessors

variable {s : State} {i j u v : ℕ} {c : Call} {pc : Pc} {t : Task} {callback : OneShotCallback}

theorem task_setPc (h : (s.setPc i c pc).tasks[j]? = some t) :
    j = i ∧ t = ⟨c, pc⟩ ∨ j ≠ i ∧ s.tasks[j]? = some t :=
  Members.of_set h

theorem task_start (h : (s.start c pc).tasks[j]? = some t) :
    s.tasks[j]? = some t ∨ t = ⟨c, pc⟩ :=
  (Members.of_append h).imp_right And.right

@[simp] theorem unlock_tasks : (s.unlock i).tasks = s.tasks := by
  unfold State.unlock
  split <;> rfl

@[simp] theorem unlock_channel : (s.unlock i).channel = s.channel := by
  unfold State.unlock
  split <;> rfl

@[simp] theorem unlock_restored : (s.unlock i).restored = s.restored := by
  unfold State.unlock
  split <;> rfl

@[simp] theorem unlock_closed : (s.unlock i).closed = s.closed := by
  unfold State.unlock
  split <;> rfl

@[simp] theorem unlock_current : (s.unlock i).current = s.current := by
  unfold State.unlock
  split <;> rfl

@[simp] theorem unlock_underlays : (s.unlock i).underlays = s.underlays := by
  unfold State.unlock
  split <;> rfl

/-- The body of a close callback clears the flag, and may begin to restore the channel. -/
theorem closeCallback_cases (s : State) (u : ℕ) (exc : Option Raised) :
    s.closeCallback u exc = { s with restored := false } ∨
      s.closeCallback u exc =
        State.start { s with restored := false } (.restore (.callback u)) .locking := by
  unfold State.closeCallback
  simp only
  split
  · exact Or.inl rfl
  · split
    · exact Or.inl rfl
    · exact Or.inr rfl

@[simp] theorem closeCallback_restored {exc : Option Raised} :
    (s.closeCallback u exc).restored = false := by
  rcases closeCallback_cases s u exc with h | h
  · rw [h]
  · rw [h]
    rfl

@[simp] theorem closeCallback_closed {exc : Option Raised} :
    (s.closeCallback u exc).closed = s.closed := by
  rcases closeCallback_cases s u exc with h | h
  · rw [h]
  · rw [h]
    rfl

@[simp] theorem closeCallback_channel {exc : Option Raised} :
    (s.closeCallback u exc).channel = s.channel := by
  rcases closeCallback_cases s u exc with h | h
  · rw [h]
  · rw [h]
    rfl

@[simp] theorem closeCallback_underlays {exc : Option Raised} :
    (s.closeCallback u exc).underlays = s.underlays := by
  rcases closeCallback_cases s u exc with h | h
  · rw [h]
  · rw [h]
    rfl

end Accessors

end AioPika.Lifecycle
