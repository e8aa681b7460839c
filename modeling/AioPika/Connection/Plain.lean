import AioPika.Connection.Machine

/-! # The connection

A `Connection` does not reconnect. The calls of `connect()` and of `close()`, and
the close callbacks of all transports that were opened, interleave at their
awaits.
-/

namespace AioPika

/-- Where a call of `connect()` is. -/
inductive ConnectPc where
  /-- `await UnderlayConnection.connect(...)` -/
  | connecting
  /-- The attempt has failed, and awaits `_on_connection_close`. -/
  | reporting (exc : Raised)
  | returned
  | raised (exc : Raised)
  deriving DecidableEq, Repr

structure Connection where
  connected : Bool
  transport : Option ℕ
  /-- The close callbacks of all transports that were opened. -/
  transports : List OneShotCallback
  isClosed : Bool
  closeCalled : Bool
  connects : List ConnectPc
  closers : List CloserPc
  /-- The calls of `close_callbacks`, the last one first. -/
  closeFirings : List CallbackArgument
  deriving DecidableEq, Repr

namespace Connection

inductive Action where
  /-- `connect()` -/
  | connect
  | opened (call : ℕ)
  | openRaised (call : ℕ) (exc : Raised)
  | reported (call : ℕ)
  /-- The call is cancelled while it awaits `_on_connection_close`. -/
  | reportCancelled (call : ℕ)
  /-- `connection.closing` is done. -/
  | died (transport : ℕ) (exc : Option Raised)
  /-- `_on_connection_close` of the transport is entered. -/
  | callbackStarted (transport : ℕ)
  | callbackEnded (transport : ℕ)
  /-- `close()` -/
  | close
  | closeEnded (closer : ℕ)
  /-- The await of `close()` is cancelled, or the transport raises. -/
  | closeRaised (closer : ℕ)
  deriving DecidableEq, Repr

/-- `__init__` -/
def fresh : Connection where
  connected := false
  transport := none
  transports := []
  isClosed := false
  closeCalled := false
  connects := []
  closers := []
  closeFirings := []

def setConnect (s : Connection) (i : ℕ) (pc : ConnectPc) : Connection :=
  { s with connects := s.connects.set i pc }

def setCloser (s : Connection) (j : ℕ) (pc : CloserPc) : Connection :=
  { s with closers := s.closers.set j pc }

def step (s : Connection) : Action → Option Connection
  | .connect => some { s with connects := s.connects ++ [.connecting] }
  | .opened i =>
    match s.connects[i]? with
    | some .connecting =>
      some (setConnect { s with
        transports := s.transports ++ [.idle]
        transport := some s.transports.length
        connected := true } i .returned)
    | _ => none
  | .openRaised i exc =>
    match s.connects[i]? with
    | some .connecting =>
      if exc = .cancelled then some (s.setConnect i (.raised exc))
      else some (setConnect { s with
        connected := false
        closeFirings := .exception exc :: s.closeFirings } i (.reporting exc))
    | _ => none
  | .reported i =>
    match s.connects[i]? with
    | some (.reporting exc) => some (s.setConnect i (.raised exc))
    | _ => none
  | .reportCancelled i =>
    match s.connects[i]? with
    | some (.reporting _) => some (s.setConnect i (.raised .cancelled))
    | _ => none
  | .died t exc =>
    match s.transports[t]? with
    | some .idle => some { s with transports := s.transports.set t (.scheduled exc) }
    | _ => none
  | .callbackStarted t =>
    match s.transports[t]? with
    | some (.scheduled exc) => some { s with
        transports := s.transports.set t .running
        connected := false
        closeFirings := .exception exc :: s.closeFirings }
    | _ => none
  | .callbackEnded t =>
    match s.transports[t]? with
    | some .running => some { s with transports := s.transports.set t .finished }
    | _ => none
  | .close =>
    some { s with
      transport := none
      closeCalled := true
      closers := s.closers ++ [match s.transport with
        | none => .returned
        | some t => .closing t] }
  | .closeEnded j =>
    match s.closers[j]? with
    | some (.closing t) =>
      if s.transports[t]? = some .finished then
        some (setCloser { s with isClosed := true } j .returned)
      else none
    | _ => none
  | .closeRaised j =>
    match s.closers[j]? with
    | some (.closing _) => some (s.setCloser j .raised)
    | _ => none

end Connection

end AioPika
