/-! # One-shot callbacks

`OneShotCallback` is added to the futures that are done when a transport or an
underlay channel has ended. Its first call starts a task for the wrapped
callback, and further calls do nothing: the transport or channel is open as long
as the callback is idle.
-/

namespace AioPika

/-- An exception, as the `except` clauses tell them apart. -/
inductive Raised where
  /-- one of `CONNECTION_EXCEPTIONS` -/
  | connection
  /-- any other `Exception` -/
  | other
  /-- `asyncio.CancelledError` -/
  | cancelled
  deriving DecidableEq, Repr

/-- Where a one-shot callback is. Its argument is the exception of a `closing` future. -/
inductive OneShotCallback where
  | idle
  /-- The task is created, and has not run yet. -/
  | scheduled (exc : Option Raised)
  | running
  | finished
  deriving DecidableEq, Repr

namespace OneShotCallback

/-- The transport or underlay channel whose end calls it is open. -/
def Armed : OneShotCallback → Prop
  | .idle => True
  | .scheduled _ | .running | .finished => False

instance : DecidablePred Armed
  | .idle => .isTrue trivial
  | .scheduled _ | .running | .finished => .isFalse id

/-- The wrapped callback has been entered. -/
def HasRun : OneShotCallback → Prop
  | .running | .finished => True
  | .idle | .scheduled _ => False

instance : DecidablePred HasRun
  | .running | .finished => .isTrue trivial
  | .idle | .scheduled _ => .isFalse id

/-- The wrapped callback is under way, or is going to be. -/
def Pending : OneShotCallback → Prop
  | .running | .scheduled _ => True
  | .idle | .finished => False

instance : DecidablePred Pending
  | .running | .scheduled _ => .isTrue trivial
  | .idle | .finished => .isFalse id

theorem armed_of_not_hasRun {callback : OneShotCallback} (h : ¬ callback.HasRun)
    (hp : ¬ callback.Pending) : callback.Armed := by
  cases callback with
  | idle => trivial
  | scheduled exc => exact hp trivial
  | running => exact hp trivial
  | finished => exact h trivial

end OneShotCallback

end AioPika
