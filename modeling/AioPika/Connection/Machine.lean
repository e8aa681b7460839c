import AioPika.Connection.OneShot
import AioPika.Foundation.Runs
import Mathlib.Data.List.Basic

/-! # The robust connection

The reconnection factory of a `RobustConnection` opens a transport, restores the
channels on it, and sleeps until the close callback of the transport sets an
event. The factory, the close callbacks of all transports and the calls of the
user are coroutines of one event loop and interleave at their awaits: an action
is what one of them does between two awaits.
-/

namespace AioPika

abbrev ChannelId := ℕ

/-- What `close_callbacks` are called with. -/
inductive CallbackArgument where
  | exception (exc : Option Raised)
  | future (exc : Raised)
  deriving DecidableEq, Repr

/-- Where the task of `__connection_factory` is. -/
inductive FactoryPc where
  /-- There is no task. -/
  | absent
  /-- `await self.__connection_close_event.wait()` -/
  | waiting
  /-- `await UnderlayConnection.connect(...)` -/
  | connecting
  /-- The attempt has failed, and awaits `_on_connection_close`. -/
  | reporting (exc : Raised)
  /-- In the loop of `_on_connected`, at the first of these channels. -/
  | restoring (transport : ℕ) (channels : List ChannelId)
  /-- A restore has failed: `await self.close_callbacks(closing)`. -/
  | failing (transport : ℕ) (exc : Raised)
  /-- `await asyncio.gather(transport.connection.close(e), return_exceptions=True)` -/
  | closing (transport : ℕ) (exc : Raised)
  /-- `await self.reconnect_callbacks()` -/
  | notifying (transport : ℕ)
  /-- `await asyncio.sleep(self.reconnect_interval)` -/
  | sleeping
  /-- The task is done. -/
  | stopped
  deriving DecidableEq, Repr

/-- Where a call of `close()` is. -/
inductive CloserPc where
  /-- It has cancelled the factory and gathers it. -/
  | gathering
  /-- `await transport.close(exc)` -/
  | closing (transport : ℕ)
  | returned
  | raised
  deriving DecidableEq, Repr

structure RobustConnection where
  /-- `__fail_fast_future` is done. -/
  failFastDone : Bool
  /-- `__connection_close_event` is set. -/
  closeEvent : Bool
  connected : Bool
  transport : Option ℕ
  /-- The close callbacks of all transports that were opened. -/
  transports : List OneShotCallback
  connectionAttempt : ℕ
  /-- `__channels` -/
  channels : List ChannelId
  isClosed : Bool
  closeCalled : Bool
  factory : FactoryPc
  closers : List CloserPc
  /-- The calls of `close_callbacks`, the last one first. -/
  closeFirings : List CallbackArgument
  /-- How often `_on_connected` has called `reconnect_callbacks`. -/
  reconnectFirings : ℕ
  deriving DecidableEq, Repr

namespace RobustConnection

inductive Action where
  /-- `connect()` -/
  | connect
  /-- `channel()` -/
  | channel (c : ChannelId)
  /-- The channel object is collected. -/
  | collected (c : ChannelId)
  /-- The event is set, and an attempt begins. -/
  | woken
  /-- The transport is open; the channels are restored in this order. -/
  | opened (order : List ChannelId)
  | openRaised (exc : Raised)
  | reported
  /-- `channel.restore()` returns or raises. -/
  | restored (exc : Option Raised)
  | failureReported
  | transportClosed
  | notified
  | slept
  /-- `connection.closing` is done. -/
  | died (transport : ℕ) (exc : Option Raised)
  /-- `_on_connection_close` of the transport is entered. -/
  | callbackStarted (transport : ℕ)
  /-- Its `close_callbacks` are through, and it returns. -/
  | callbackEnded (transport : ℕ)
  /-- `close()` -/
  | close
  /-- The factory receives the `CancelledError` of `close()`. -/
  | cancelled
  | factoryGathered (closer : ℕ)
  | closeEnded (closer : ℕ)
  /-- The await of `close()` is cancelled, or the transport raises. -/
  | closeRaised (closer : ℕ)
  deriving DecidableEq, Repr

/-- `__init__` -/
def fresh (failFast : Bool) : RobustConnection where
  failFastDone := !failFast
  closeEvent := true
  connected := false
  transport := none
  transports := []
  connectionAttempt := 0
  channels := []
  isClosed := false
  closeCalled := false
  factory := .absent
  closers := []
  closeFirings := []
  reconnectFirings := 0

def closeCallback (s : RobustConnection) : Option OneShotCallback :=
  s.transport.bind fun t => s.transports[t]?

/-- The head of the loop of `__connection_factory`. -/
def loop (s : RobustConnection) : RobustConnection :=
  { s with factory := if s.isClosed ∨ s.closeCalled then .stopped else .waiting }

/-- The `except` clauses of `__connection_factory`. -/
def attemptFailed (s : RobustConnection) : Raised → RobustConnection
  | .connection =>
    if s.failFastDone then { s with factory := .sleeping }
    else { s with failFastDone := true, factory := .stopped }
  | .other => { s with factory := .sleeping }
  | .cancelled => { s with factory := .stopped }

/-- The end of `_on_connected`, and of the attempt. -/
def attemptSucceeded (s : RobustConnection) : RobustConnection :=
  { s with
    connectionAttempt := s.connectionAttempt + 1
    closeEvent := false
    failFastDone := true
    factory := .sleeping }

/-- The channels of `_on_connected` from here on. -/
def restoreChannels (s : RobustConnection) (t : ℕ) : List ChannelId → RobustConnection
  | [] =>
    if s.connectionAttempt = 0 then s.attemptSucceeded
    else { s with factory := .notifying t, reconnectFirings := s.reconnectFirings + 1 }
  | c :: channels => { s with factory := .restoring t (c :: channels) }

/-- The end of `_on_connection_close`. -/
def connectionClosed (s : RobustConnection) : RobustConnection :=
  if s.closeCalled ∨ s.isClosed then s else { s with closeEvent := true }

/-- `super().close(exc)` up to its await. -/
def superClose (s : RobustConnection) : RobustConnection × CloserPc :=
  ({ s with transport := none, closeCalled := true },
    match s.transport with
    | none => .returned
    | some t => .closing t)

def setCloser (s : RobustConnection) (j : ℕ) (pc : CloserPc) : RobustConnection :=
  { s with closers := s.closers.set j pc }

def addCloser (s : RobustConnection) (pc : CloserPc) : RobustConnection :=
  { s with closers := s.closers ++ [pc] }

def step (s : RobustConnection) : Action → Option RobustConnection
  | .connect =>
    match s.factory with
    | .absent => if s.isClosed then none else some s.loop
    | _ => none
  | .channel c =>
    match s.transport with
    | none => none
    | some _ => if c ∈ s.channels then none else some { s with channels := s.channels ++ [c] }
  | .collected c => some { s with channels := s.channels.filter (· ≠ c) }
  | .woken =>
    match s.factory with
    | .waiting =>
      if s.closeEvent then
        if s.isClosed ∨ s.closeCalled then some { s with factory := .stopped }
        else some { s with transport := none, connected := false, factory := .connecting }
      else none
    | _ => none
  | .opened order =>
    match s.factory with
    | .connecting =>
      if order.isPerm s.channels then
        some (restoreChannels { s with
          transports := s.transports ++ [.idle]
          transport := some s.transports.length
          connected := true } s.transports.length order)
      else none
    | _ => none
  | .openRaised exc =>
    match s.factory with
    | .connecting =>
      if exc = .cancelled then some (s.attemptFailed exc)
      else some { s with
        connected := false
        closeFirings := .exception exc :: s.closeFirings
        factory := .reporting exc }
    | _ => none
  | .reported =>
    match s.factory with
    | .reporting exc => some (s.connectionClosed.attemptFailed exc)
    | _ => none
  | .restored none =>
    match s.factory with
    | .restoring t (_ :: channels) => some (s.restoreChannels t channels)
    | _ => none
  | .restored (some exc) =>
    match s.factory with
    | .restoring t (_ :: _) =>
      if exc = .cancelled then some (s.attemptFailed exc)
      else some { s with
        closeFirings := .future exc :: s.closeFirings
        factory := .failing t exc }
    | _ => none
  | .failureReported =>
    match s.factory with
    | .failing t exc => some { s with factory := .closing t exc }
    | _ => none
  | .transportClosed =>
    match s.factory with
    | .closing t exc =>
      if s.transports[t]? = some .idle then none else some (s.attemptFailed exc)
    | _ => none
  | .notified =>
    match s.factory with
    | .notifying _ => some s.attemptSucceeded
    | _ => none
  | .slept =>
    match s.factory with
    | .sleeping => some s.loop
    | _ => none
  | .died t exc =>
    match s.transports[t]? with
    | some .idle => some { s with transports := s.transports.set t (.scheduled exc) }
    | _ => none
  | .callbackStarted t =>
    match s.transports[t]? with
    | some (.scheduled exc) => some { s with
        transports := s.transports.set t .running
        connected := false
        closeFirings := .exception exc :: s.closeFirings }
    | _ => none
  | .callbackEnded t =>
    match s.transports[t]? with
    | some .running =>
      some (connectionClosed { s with transports := s.transports.set t .finished })
    | _ => none
  | .close =>
    if s.factory = .absent then some (s.superClose.1.addCloser s.superClose.2)
    else some (s.addCloser .gathering)
  | .cancelled =>
    if s.closers = [] then none
    else
      match s.factory with
      -- a restore is cancelled in the channel, and raises here when it is through
      | .absent | .stopped | .restoring _ _ => none
      | _ => some (s.attemptFailed .cancelled)
  | .factoryGathered j =>
    match s.closers[j]?, s.factory with
    | some .gathering, .stopped | some .gathering, .absent =>
      some (setCloser { s.superClose.1 with factory := .absent } j s.superClose.2)
    | _, _ => none
  | .closeEnded j =>
    match s.closers[j]? with
    | some (.closing t) =>
      if s.transports[t]? = some .finished then
        some (setCloser { s with isClosed := true } j .returned)
      else none
    | _ => none
  | .closeRaised j =>
    match s.closers[j]? with
    | some .gathering | some (.closing _) => some (s.setCloser j .raised)
    | _ => none

inductive Step (s : RobustConnection) : Action → RobustConnection → Prop
  | connect (hf : s.factory = .absent) (ho : s.isClosed = false) : Step s .connect s.loop
  | channel {c : ChannelId} (hc : c ∉ s.channels) :
      Step s (.channel c) { s with channels := s.channels ++ [c] }
  | collected {c : ChannelId} :
      Step s (.collected c) { s with channels := s.channels.filter (· ≠ c) }
  | stopped (hf : s.factory = .waiting) (hc : s.isClosed = true ∨ s.closeCalled = true) :
      Step s .woken { s with factory := .stopped }
  | woken (hf : s.factory = .waiting) (he : s.closeEvent = true) :
      Step s .woken { s with transport := none, connected := false, factory := .connecting }
  | opened {order : List ChannelId} (hf : s.factory = .connecting) (hp : order.Perm s.channels) :
      Step s (.opened order) (restoreChannels { s with
        transports := s.transports ++ [.idle]
        transport := some s.transports.length
        connected := true } s.transports.length order)
  | openCancelled (hf : s.factory = .connecting) :
      Step s (.openRaised .cancelled) (s.attemptFailed .cancelled)
  | openRaised {exc : Raised} (hf : s.factory = .connecting) (he : exc ≠ .cancelled) :
      Step s (.openRaised exc) { s with
        connected := false
        closeFirings := .exception exc :: s.closeFirings
        factory := .reporting exc }
  | reported {exc : Raised} (hf : s.factory = .reporting exc) :
      Step s .reported (s.connectionClosed.attemptFailed exc)
  | restored {t : ℕ} {c : ChannelId} {channels : List ChannelId}
      (hf : s.factory = .restoring t (c :: channels)) :
      Step s (.restored none) (s.restoreChannels t channels)
  | restoreCancelled {t : ℕ} {c : ChannelId} {channels : List ChannelId}
      (hf : s.factory = .restoring t (c :: channels)) :
      Step s (.restored (some .cancelled)) (s.attemptFailed .cancelled)
  | restoreRaised {t : ℕ} {c : ChannelId} {channels : List ChannelId} {exc : Raised}
      (hf : s.factory = .restoring t (c :: channels)) (he : exc ≠ .cancelled) :
      Step s (.restored (some exc)) { s with
        closeFirings := .future exc :: s.closeFirings
        factory := .failing t exc }
  | failureReported {t : ℕ} {exc : Raised} (hf : s.factory = .failing t exc) :
      Step s .failureReported { s with factory := .closing t exc }
  | transportClosed {t : ℕ} {exc : Raised} (hf : s.factory = .closing t exc)
      (hd : s.transports[t]? ≠ some .idle) : Step s .transportClosed (s.attemptFailed exc)
  | notified {t : ℕ} (hf : s.factory = .notifying t) : Step s .notified s.attemptSucceeded
  | slept (hf : s.factory = .sleeping) : Step s .slept s.loop
  | died {t : ℕ} {exc : Option Raised} (hi : s.transports[t]? = some .idle) :
      Step s (.died t exc) { s with transports := s.transports.set t (.scheduled exc) }
  | callbackStarted {t : ℕ} {exc : Option Raised} (hi : s.transports[t]? = some (.scheduled exc)) :
      Step s (.callbackStarted t) { s with
        transports := s.transports.set t .running
        connected := false
        closeFirings := .exception exc :: s.closeFirings }
  | callbackEnded {t : ℕ} (hi : s.transports[t]? = some .running) :
      Step s (.callbackEnded t)
        (connectionClosed { s with transports := s.transports.set t .finished })
  | superClose (hf : s.factory = .absent) :
      Step s .close (s.superClose.1.addCloser s.superClose.2)
  | gathering (hf : s.factory ≠ .absent) : Step s .close (s.addCloser .gathering)
  | cancelled (hc : s.closers ≠ []) (hf : s.factory ≠ .absent ∧ s.factory ≠ .stopped) :
      Step s .cancelled (s.attemptFailed .cancelled)
  | factoryGathered {j : ℕ} (hc : s.closers[j]? = some .gathering)
      (hf : s.factory = .stopped ∨ s.factory = .absent) :
      Step s (.factoryGathered j)
        (setCloser { s.superClose.1 with factory := .absent } j s.superClose.2)
  | closeEnded {j t : ℕ} (hc : s.closers[j]? = some (.closing t))
      (hi : s.transports[t]? = some .finished) :
      Step s (.closeEnded j) (setCloser { s with isClosed := true } j .returned)
  | closeRaised {j : ℕ} {pc : CloserPc} (hc : s.closers[j]? = some pc)
      (hp : pc ≠ .returned ∧ pc ≠ .raised) : Step s (.closeRaised j) (s.setCloser j .raised)

section Outcomes

theorem attemptFailed_eq (s : RobustConnection) (exc : Raised) :
    ∃ done pc, (pc = .stopped ∨ pc = .sleeping) ∧
      s.attemptFailed exc = { s with failFastDone := done, factory := pc } := by
  unfold attemptFailed
  split
  · split
    · exact ⟨_, _, Or.inr rfl, rfl⟩
    · exact ⟨_, _, Or.inl rfl, rfl⟩
  · exact ⟨_, _, Or.inr rfl, rfl⟩
  · exact ⟨_, _, Or.inl rfl, rfl⟩

theorem connectionClosed_eq (s : RobustConnection) :
    ∃ event, s.connectionClosed = { s with closeEvent := event } := by
  unfold connectionClosed
  split
  · exact ⟨_, rfl⟩
  · exact ⟨_, rfl⟩

theorem restoreChannels_eq (s : RobustConnection) (t : ℕ) (channels : List ChannelId) :
    ∃ done event attempt pc firings, s.restoreChannels t channels = { s with
      failFastDone := done
      closeEvent := event
      connectionAttempt := attempt
      factory := pc
      reconnectFirings := firings } := by
  unfold restoreChannels
  split
  · split
    · exact ⟨_, _, _, _, _, rfl⟩
    · exact ⟨_, _, _, _, _, rfl⟩
  · exact ⟨_, _, _, _, _, rfl⟩

end Outcomes

theorem step_cases_factory {s u : RobustConnection} {a : Action} (h : step s a = some u)
    (ha : a ∈ [.connect, .woken, .reported, .failureReported, .transportClosed, .notified,
      .slept]) : Step s a u := by
  simp only [List.mem_cons, List.not_mem_nil, or_false] at ha
  rcases ha with rfl | rfl | rfl | rfl | rfl | rfl | rfl
  · simp only [step] at h
    split at h
    · rename_i hf
      split at h
      · cases h
      · rename_i ho
        obtain rfl := Option.some.inj h
        exact .connect hf (by simpa using ho)
    · cases h
  · simp only [step] at h
    split at h
    · rename_i hf
      split at h
      · rename_i he
        split at h
        · rename_i hc
          obtain rfl := Option.some.inj h
          exact .stopped hf hc
        · obtain rfl := Option.some.inj h
          exact .woken hf he
      · cases h
    · cases h
  · simp only [step] at h
    split at h
    · rename_i hf
      obtain rfl := Option.some.inj h
      exact .reported hf
    · cases h
  · simp only [step] at h
    split at h
    · rename_i hf
      obtain rfl := Option.some.inj h
      exact .failureReported hf
    · cases h
  · simp only [step] at h
    split at h
    · rename_i hf
      split at h
      · cases h
      · rename_i hd
        obtain rfl := Option.some.inj h
        exact .transportClosed hf hd
    · cases h
  · simp only [step] at h
    split at h
    · rename_i hf
      obtain rfl := Option.some.inj h
      exact .notified hf
    · cases h
  · simp only [step] at h
    split at h
    · rename_i hf
      obtain rfl := Option.some.inj h
      exact .slept hf
    · cases h

theorem step_cases_restored {s u : RobustConnection} {exc : Option Raised}
    (h : step s (.restored exc) = some u) : Step s (.restored exc) u := by
  cases exc with
  | none =>
    simp only [step] at h
    split at h
    · rename_i hf
      obtain rfl := Option.some.inj h
      exact .restored hf
    · cases h
  | some exc =>
    simp only [step] at h
    split at h
    · rename_i hf
      split at h
      · rename_i he
        subst he
        obtain rfl := Option.some.inj h
        exact .restoreCancelled hf
      · rename_i he
        obtain rfl := Option.some.inj h
        exact .restoreRaised hf he
    · cases h

theorem step_cases_close {s u : RobustConnection} (h : step s .close = some u) :
    Step s .close u := by
  simp only [step] at h
  split at h
  · rename_i hf
    obtain rfl := Option.some.inj h
    exact .superClose hf
  · rename_i hf
    obtain rfl := Option.some.inj h
    exact .gathering hf

theorem step_cases_cancelled {s u : RobustConnection} (h : step s .cancelled = some u) :
    Step s .cancelled u := by
  simp only [step] at h
  split at h
  · cases h
  · rename_i hc
    split at h
    · cases h
    · cases h
    · cases h
    · rename_i habsent hstopped _
      obtain rfl := Option.some.inj h
      exact .cancelled hc ⟨habsent, hstopped⟩

theorem step_cases_closer {s u : RobustConnection} {a : Action} {j : ℕ} (h : step s a = some u)
    (ha : a ∈ [.factoryGathered j, .closeEnded j, .closeRaised j]) : Step s a u := by
  simp only [List.mem_cons, List.not_mem_nil, or_false] at ha
  rcases ha with rfl | rfl | rfl
  · simp only [step] at h
    split at h
    · rename_i hc hf
      obtain rfl := Option.some.inj h
      exact .factoryGathered hc (Or.inl hf)
    · rename_i hc hf
      obtain rfl := Option.some.inj h
      exact .factoryGathered hc (Or.inr hf)
    · cases h
  · simp only [step] at h
    split at h
    · rename_i hc
      split at h
      · rename_i hi
        obtain rfl := Option.some.inj h
        exact .closeEnded hc hi
      · cases h
    · cases h
  · simp only [step] at h
    split at h
    · rename_i hc
      obtain rfl := Option.some.inj h
      exact .closeRaised hc ⟨by rintro ⟨⟩, by rintro ⟨⟩⟩
    · rename_i hc
      obtain rfl := Option.some.inj h
      exact .closeRaised hc ⟨by rintro ⟨⟩, by rintro ⟨⟩⟩
    · cases h

theorem step_cases {s u : RobustConnection} {a : Action} (h : step s a = some u) :
    Step s a u := by
  cases a with
  | connect | woken | reported | failureReported | transportClosed | notified | slept =>
    exact step_cases_factory h (by simp)
  | restored exc => exact step_cases_restored h
  | close => exact step_cases_close h
  | cancelled => exact step_cases_cancelled h
  | factoryGathered j | closeEnded j | closeRaised j => exact step_cases_closer (j := j) h (by simp)
  | channel c =>
    simp only [step] at h
    split at h
    · cases h
    · split at h
      · cases h
      · rename_i hc
        obtain rfl := Option.some.inj h
        exact .channel hc
  | collected c =>
    obtain rfl := Option.some.inj h
    exact .collected
  | opened order =>
    simp only [step] at h
    split at h
    · rename_i hf
      split at h
      · rename_i hp
        obtain rfl := Option.some.inj h
        exact .opened hf (List.isPerm_iff.mp hp)
      · cases h
    · cases h
  | openRaised exc =>
    simp only [step] at h
    split at h
    · rename_i hf
      split at h
      · rename_i he
        subst he
        obtain rfl := Option.some.inj h
        exact .openCancelled hf
      · rename_i he
        obtain rfl := Option.some.inj h
        exact .openRaised hf he
    · cases h
  | died t exc =>
    simp only [step] at h
    split at h
    · rename_i hi
      obtain rfl := Option.some.inj h
      exact .died hi
    · cases h
  | callbackStarted t =>
    simp only [step] at h
    split at h
    · rename_i hi
      obtain rfl := Option.some.inj h
      exact .callbackStarted hi
    · cases h
  | callbackEnded t =>
    simp only [step] at h
    split at h
    · rename_i hi
      obtain rfl := Option.some.inj h
      exact .callbackEnded hi
    · cases h

end RobustConnection

end AioPika
