import AioPika.Connection.Invariant

/-! # How often the reconnect callbacks are fired

`_on_connected` fires `reconnect_callbacks` at its end, except the first time. A
call of `reconnect()` closes the transport, waits until the connection is connected,
and then fires them as well, whatever `_on_connected` has done meanwhile.
-/

namespace AioPika.Reconnects

open Transition

/-- Where a call of `reconnect()` is. -/
inductive ReconnectPc where
  /-- `await self.transport.connection.close()` -/
  | closing (transport : ℕ)
  /-- `await self.connect()` -/
  | connecting
  /-- `connected` was set, and may be cleared again before the call goes on. -/
  | connected
  /-- `await self.reconnect_callbacks()` -/
  | notifying
  | returned
  | raised
  deriving DecidableEq, Repr

structure State where
  /-- Its `connectionAttempt` is how often `_on_connected` has completed. -/
  connection : RobustConnection
  reconnects : List ReconnectPc
  /-- How often `reconnect()` has called `reconnect_callbacks`. -/
  firings : ℕ
  deriving DecidableEq, Repr

inductive Action where
  | connection (a : RobustConnection.Action)
  /-- `reconnect()` -/
  | reconnect
  | transportClosed (call : ℕ)
  | connected (call : ℕ)
  | resumed (call : ℕ)
  | notified (call : ℕ)
  /-- The call is cancelled, or its await raises. -/
  | raised (call : ℕ)
  deriving DecidableEq, Repr

/-- `__init__` -/
def fresh (failFast : Bool) : State := ⟨RobustConnection.fresh failFast, [], 0⟩

/-- `self.connect()` up to its await. -/
def connectCall (s : RobustConnection) : RobustConnection × ReconnectPc :=
  if s.isClosed then (s, .raised)
  -- the task of the factory is created if there is none
  else ((s.step .connect).getD s, .connecting)

def State.setReconnect (s : State) (j : ℕ) (pc : ReconnectPc) : State :=
  { s with reconnects := s.reconnects.set j pc }

def step (s : State) : Action → Option State
  | .connection a => (s.connection.step a).map fun connection => { s with connection := connection }
  | .reconnect =>
    match s.connection.transport with
    | some t => some { s with reconnects := s.reconnects ++ [.closing t] }
    | none => some { s with
        connection := (connectCall s.connection).1
        reconnects := s.reconnects ++ [(connectCall s.connection).2] }
  | .transportClosed j =>
    match s.reconnects[j]? with
    | some (.closing t) =>
      if s.connection.transports[t]? = some .idle then none
      else some (State.setReconnect { s with connection := (connectCall s.connection).1 } j
        (connectCall s.connection).2)
    | _ => none
  | .connected j =>
    match s.reconnects[j]? with
    | some .connecting =>
      if s.connection.failFastDone ∧ s.connection.connected then
        some (s.setReconnect j .connected)
      else none
    | _ => none
  | .resumed j =>
    match s.reconnects[j]? with
    | some .connected =>
      some (State.setReconnect { s with firings := s.firings + 1 } j .notifying)
    | _ => none
  | .notified j =>
    match s.reconnects[j]? with
    | some .notifying => some (s.setReconnect j .returned)
    | _ => none
  | .raised j =>
    match s.reconnects[j]? with
    | some (.closing _) | some .connecting | some .connected | some .notifying =>
      some (s.setReconnect j .raised)
    | _ => none

/-- The call of `reconnect()` is over. -/
def ReconnectPc.Done : ReconnectPc → Prop
  | .returned | .raised => True
  | .closing _ | .connecting | .connected | .notifying => False

instance : DecidablePred ReconnectPc.Done
  | .returned | .raised => .isTrue trivial
  | .closing _ | .connecting | .connected | .notifying => .isFalse id

inductive Step (s : State) : Action → State → Prop
  | connection {a : RobustConnection.Action} {u : RobustConnection}
      (h : s.connection.step a = some u) : Step s (.connection a) { s with connection := u }
  | closing {t : ℕ} (ht : s.connection.transport = some t) :
      Step s .reconnect { s with reconnects := s.reconnects ++ [.closing t] }
  | connecting (ht : s.connection.transport = none) :
      Step s .reconnect { s with
        connection := (connectCall s.connection).1
        reconnects := s.reconnects ++ [(connectCall s.connection).2] }
  | transportClosed {j t : ℕ} (hj : s.reconnects[j]? = some (.closing t))
      (hd : s.connection.transports[t]? ≠ some .idle) :
      Step s (.transportClosed j) (State.setReconnect
        { s with connection := (connectCall s.connection).1 } j (connectCall s.connection).2)
  | connected {j : ℕ} (hj : s.reconnects[j]? = some .connecting) :
      Step s (.connected j) (s.setReconnect j .connected)
  | resumed {j : ℕ} (hj : s.reconnects[j]? = some .connected) :
      Step s (.resumed j) (State.setReconnect { s with firings := s.firings + 1 } j .notifying)
  | notified {j : ℕ} (hj : s.reconnects[j]? = some .notifying) :
      Step s (.notified j) (s.setReconnect j .returned)
  | raised {j : ℕ} {pc : ReconnectPc} (hj : s.reconnects[j]? = some pc) (hp : ¬ pc.Done) :
      Step s (.raised j) (s.setReconnect j .raised)

theorem step_cases {s t : State} {a : Action} (h : step s a = some t) : Step s a t := by
  cases a with
  | connection a =>
    obtain ⟨u, hu, rfl⟩ := Option.map_eq_some_iff.mp h
    exact .connection hu
  | reconnect =>
    simp only [step] at h
    split at h
    · rename_i ht
      obtain rfl := Option.some.inj h
      exact .closing ht
    · rename_i ht
      obtain rfl := Option.some.inj h
      exact .connecting ht
  | transportClosed j =>
    simp only [step] at h
    split at h
    · rename_i hj
      split at h
      · cases h
      · rename_i hd
        obtain rfl := Option.some.inj h
        exact .transportClosed hj hd
    · cases h
  | connected j =>
    simp only [step] at h
    split at h
    · rename_i hj
      split at h
      · obtain rfl := Option.some.inj h
        exact .connected hj
      · cases h
    · cases h
  | resumed j =>
    simp only [step] at h
    split at h
    · rename_i hj
      obtain rfl := Option.some.inj h
      exact .resumed hj
    · cases h
  | notified j =>
    simp only [step] at h
    split at h
    · rename_i hj
      obtain rfl := Option.some.inj h
      exact .notified hj
    · cases h
  | raised j =>
    simp only [step] at h
    split at h
    · rename_i hj
      obtain rfl := Option.some.inj h
      exact .raised hj id
    · rename_i hj
      obtain rfl := Option.some.inj h
      exact .raised hj id
    · rename_i hj
      obtain rfl := Option.some.inj h
      exact .raised hj id
    · rename_i hj
      obtain rfl := Option.some.inj h
      exact .raised hj id
    · cases h

/-- No attempt to connect and no `reconnect()` is in progress. -/
structure Quiet (s : State) : Prop where
  factory : ¬ RobustConnection.Attempting s.connection.factory
  reconnects : ∀ pc ∈ s.reconnects, pc.Done

instance : DecidablePred Quiet := fun s =>
  have : Decidable (RobustConnection.Attempting s.connection.factory) :=
    match s.connection.factory with
    | .connecting | .reporting _ | .restoring _ _ | .failing _ _ | .closing _ _ | .notifying _ =>
      .isTrue trivial
    | .absent | .waiting | .sleeping | .stopped => .isFalse id
  decidable_of_iff (¬ RobustConnection.Attempting s.connection.factory ∧
    ∀ pc ∈ s.reconnects, pc.Done) ⟨fun h => ⟨h.1, h.2⟩, fun h => ⟨h.1, h.2⟩⟩

/-- `reconnect_callbacks` were fired whenever `_on_connected` has completed, except the first
time. -/
def FiredPerReconnection (s : State) : Prop :=
  s.connection.reconnectFirings + s.firings = s.connection.connectionAttempt - 1

instance : DecidablePred FiredPerReconnection := fun s =>
  inferInstanceAs (Decidable (s.connection.reconnectFirings + s.firings =
    s.connection.connectionAttempt - 1))

/-- A call of `reconnect()` gets to its own `reconnect_callbacks`. -/
def Action.Resumes : Action → Bool
  | .resumed _ => true
  | _ => false

/-- What `_on_connected` has fired. -/
structure Counted (s : RobustConnection) : Prop where
  notifying : ∀ t, s.factory = .notifying t → s.reconnectFirings = s.connectionAttempt
  otherwise : (∀ t, s.factory ≠ .notifying t) → s.reconnectFirings = s.connectionAttempt - 1

section Connection

open RobustConnection

variable {s u : RobustConnection} {a : RobustConnection.Action} {exc : Raised} {t : ℕ}

theorem Counted.proceed (h : Counted s) (hn : ∀ t, s.factory ≠ .notifying t)
    (hu : ∀ t, u.factory ≠ .notifying t) (hf : u.reconnectFirings = s.reconnectFirings)
    (ha : u.connectionAttempt = s.connectionAttempt) : Counted u := by
  constructor
  · intro t ht
    exact absurd ht (hu t)
  · intro _
    rw [hf, ha]
    exact h.otherwise hn

theorem Counted.attemptFailed (h : Counted s) (hn : ∀ t, s.factory ≠ .notifying t) :
    Counted (s.attemptFailed exc) := by
  obtain ⟨done, pc, hpc, he⟩ := s.attemptFailed_eq exc
  rw [he]
  rcases hpc with rfl | rfl
  · exact h.proceed hn (fun t ht => nomatch ht) rfl rfl
  · exact h.proceed hn (fun t ht => nomatch ht) rfl rfl

theorem Counted.loop (h : Counted s) (hn : ∀ t, s.factory ≠ .notifying t) : Counted s.loop := by
  refine h.proceed hn (fun t ht => ?_) rfl rfl
  simp only [RobustConnection.loop] at ht
  split at ht <;> cases ht

theorem Counted.connectionClosed (h : Counted s) : Counted s.connectionClosed := by
  obtain ⟨event, he⟩ := s.connectionClosed_eq
  rw [he]
  exact ⟨h.notifying, h.otherwise⟩

/-- `reconnect_callbacks` are fired before the attempt is counted. -/
theorem counted_restoreChannels {channels : List ChannelId}
    (h : s.reconnectFirings = s.connectionAttempt - 1) :
    Counted (s.restoreChannels t channels) := by
  unfold RobustConnection.restoreChannels
  split
  · split
    · rename_i hz
      refine ⟨fun t ht => (nomatch ht), fun _ => ?_⟩
      simp only [attemptSucceeded]
      omega
    · rename_i hz
      refine ⟨fun _ _ => ?_, fun hn => absurd rfl (hn t)⟩
      simp only
      omega
  · exact ⟨fun t ht => (nomatch ht), fun _ => h⟩

theorem counted_step (hs : Sound s) (h : Counted s) (ha : a ≠ .close) (hst : s.step a = some u) :
    Counted u := by
  cases RobustConnection.step_cases hst with
  | connect hf | slept hf => exact h.loop (by simp [hf])
  | channel | collected | died | callbackStarted => exact ⟨h.notifying, h.otherwise⟩
  | stopped hf | woken hf | openRaised hf | restoreRaised hf | failureReported hf =>
    exact h.proceed (by simp [hf]) (fun t ht => nomatch ht) rfl rfl
  | opened hf => exact counted_restoreChannels (h.otherwise (by simp [hf]))
  | restored hf => exact counted_restoreChannels (h.otherwise (by simp [hf]))
  | openCancelled hf | restoreCancelled hf | transportClosed hf =>
    exact h.attemptFailed (by simp [hf])
  | reported hf =>
    apply h.connectionClosed.attemptFailed
    obtain ⟨event, he⟩ := s.connectionClosed_eq
    simp [he, hf]
  | notified hf =>
    refine ⟨fun t ht => (nomatch ht), fun _ => ?_⟩
    have hn := h.notifying _ hf
    simp only [attemptSucceeded]
    omega
  | callbackEnded => exact Counted.connectionClosed ⟨h.notifying, h.otherwise⟩
  | superClose | gathering => exact absurd rfl ha
  | cancelled hc => exact absurd hs.closers hc
  | factoryGathered hc | closeEnded hc | closeRaised hc => exact hs.no_closer hc

end Connection

section Calls

variable {s t : State} {a : Action}

/-- What holds of a connection on which `close()` was not called. -/
structure Kept (s : State) : Prop where
  sound : RobustConnection.Sound s.connection
  counted : Counted s.connection

theorem Kept.connectCall (h : Kept s) {reconnects : List ReconnectPc} {firings : ℕ} :
    Kept ⟨(connectCall s.connection).1, reconnects, firings⟩ := by
  unfold Reconnects.connectCall
  split
  · exact ⟨h.sound, h.counted⟩
  · cases hc : s.connection.step .connect with
    | none => exact ⟨h.sound, h.counted⟩
    | some u =>
      have hne : RobustConnection.Action.connect ≠ .close := by simp
      exact ⟨h.sound.step hne hc, counted_step h.sound h.counted hne hc⟩

theorem kept_step (h : Kept s) (ha : a ≠ .connection .close) (hst : step s a = some t) :
    Kept t := by
  cases step_cases hst with
  | @connection a u hu =>
    have hne : a ≠ .close := by
      rintro rfl
      exact ha rfl
    exact ⟨h.sound.step hne hu, counted_step h.sound h.counted hne hu⟩
  | connecting | transportClosed => exact h.connectCall
  | closing | connected | resumed | notified | raised => exact ⟨h.sound, h.counted⟩

/-- Only a call of `reconnect()` that gets there fires `reconnect_callbacks` itself. -/
theorem firings_step (hst : step s a = some t) :
    t.firings = s.firings + if a.Resumes then 1 else 0 := by
  cases step_cases hst <;> rfl

theorem fresh_kept (failFast : Bool) : Kept (fresh failFast) :=
  ⟨RobustConnection.fresh_sound failFast, fun _ ht => (nomatch ht), fun _ => rfl⟩

/-- In every run in which the connection is not closed, and with nothing in progress at its end,
`reconnect_callbacks` were fired once for each reconnection if and only if no call of
`reconnect()` got to firing them itself. -/
theorem reconnect_callbacks_iff (failFast : Bool) (as : List Action)
    (h : Run step (fun _ a => a ≠ .connection .close) (fresh failFast) as s) (hq : Quiet s) :
    FiredPerReconnection s ↔ ∀ a ∈ as, a.Resumes = false := by
  have hkept : Kept s := h.invariant (fun _ _ _ hs ha hst => kept_step hs ha hst)
    (fresh_kept failFast)
  have hcount := h.count State.firings Action.Resumes fun _ _ _ => firings_step
  have hfactory : s.connection.reconnectFirings = s.connection.connectionAttempt - 1 := by
    apply hkept.counted.otherwise
    intro t ht
    exact hq.factory (by rw [ht]; trivial)
  have hzero : as.countP Action.Resumes = 0 ↔ ∀ a ∈ as, a.Resumes = false := by
    simp [List.countP_eq_zero]
  rw [← hzero, FiredPerReconnection, hfactory, hcount]
  simp [fresh]

def lostOnce : List Action :=
  [.connection .connect, .connection .woken, .connection (.opened []), .connection .slept,
    .connection (.died 0 (some .connection)), .connection (.callbackStarted 0),
    .connection (.callbackEnded 0), .connection .woken, .connection (.opened []),
    .connection .notified, .connection .slept]

def reconnectedOnce : List Action :=
  [.connection .connect, .connection .woken, .connection (.opened []), .connection .slept,
    .reconnect, .connection (.died 0 none), .connection (.callbackStarted 0),
    .connection (.callbackEnded 0), .transportClosed 0, .connection .woken,
    .connection (.opened []), .connection .notified, .connected 0, .resumed 0, .notified 0,
    .connection .slept]

theorem fired_for_loss : ∃ s,
    checked step (fun _ a => a ≠ .connection .close) (fresh true) lostOnce = some s ∧
      Quiet s ∧ s.connection.connectionAttempt = 2 ∧ FiredPerReconnection s :=
  ⟨_, rfl, by decide, rfl,
    (reconnect_callbacks_iff true lostOnce (run_of_checked rfl) (by decide)).mpr (by decide)⟩

/-- `_on_connected` has completed twice, and `reconnect_callbacks` were fired twice. -/
theorem fired_twice_for_reconnect : ∃ s,
    checked step (fun _ a => a ≠ .connection .close) (fresh true) reconnectedOnce = some s ∧
      Quiet s ∧ ¬ FiredPerReconnection s :=
  ⟨_, rfl, by decide, by decide⟩

end Calls

end AioPika.Reconnects
