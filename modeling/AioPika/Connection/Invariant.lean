import AioPika.Connection.Machine

/-! # What holds of a connection that is not closed by the user

From the wake-up of the factory to the end of an attempt the close event stays
set; until a transport is open the connection is not connected, and from then on
the attempt is about the transport of the connection.
-/

namespace AioPika.RobustConnection

/-- The factory is between its wake-up and its sleep. -/
def Attempting : FactoryPc → Prop
  | .connecting | .reporting _ | .restoring _ _ | .failing _ _ | .closing _ _ | .notifying _ => True
  | .absent | .waiting | .sleeping | .stopped => False

/-- The factory is in an attempt that has no transport. -/
def Offline : FactoryPc → Prop
  | .connecting | .reporting _ => True
  | _ => False

/-- The factory is in an attempt that has this transport. -/
def Uses (t : ℕ) : FactoryPc → Prop
  | .restoring t' _ | .failing t' _ | .closing t' _ | .notifying t' => t' = t
  | _ => False

structure Sound (s : RobustConnection) : Prop where
  notClosed : ¬ (s.closeCalled = true ∨ s.isClosed = true)
  closers : s.closers = []
  attempting : Attempting s.factory → s.closeEvent = true
  offline : Offline s.factory → s.connected = false
  uses : ∀ t, Uses t s.factory → s.transport = some t

variable {s u : RobustConnection} {t : ℕ} {a : Action}

theorem Sound.no_closer {P : Prop} (h : Sound s) {j : ℕ} {pc : CloserPc}
    (hc : s.closers[j]? = some pc) : P := by
  rw [h.closers] at hc
  cases hc

theorem fresh_sound (failFast : Bool) : Sound (fresh failFast) :=
  ⟨by simp [fresh], rfl, False.elim, False.elim, fun _ => False.elim⟩

theorem Sound.attemptFailed (h : Sound s) (exc : Raised) : Sound (s.attemptFailed exc) := by
  obtain ⟨done, pc, hpc, he⟩ := s.attemptFailed_eq exc
  rw [he]
  rcases hpc with rfl | rfl
  · exact ⟨h.notClosed, h.closers, False.elim, False.elim, fun _ => False.elim⟩
  · exact ⟨h.notClosed, h.closers, False.elim, False.elim, fun _ => False.elim⟩

theorem restoreChannels_sound {channels : List ChannelId}
    (hn : ¬ (s.closeCalled = true ∨ s.isClosed = true)) (hc : s.closers = [])
    (he : s.closeEvent = true) (ht : s.transport = some t) :
    Sound (s.restoreChannels t channels) := by
  unfold restoreChannels
  split
  · split
    · exact ⟨hn, hc, False.elim, False.elim, fun _ => False.elim⟩
    · exact ⟨hn, hc, fun _ => he, False.elim, fun _ hu => hu ▸ ht⟩
  · exact ⟨hn, hc, fun _ => he, False.elim, fun _ hu => hu ▸ ht⟩

theorem Sound.loop (h : Sound s) : Sound s.loop := by
  rw [RobustConnection.loop, if_neg (fun hc => h.notClosed hc.symm)]
  exact ⟨h.notClosed, h.closers, False.elim, False.elim, fun _ => False.elim⟩

theorem Sound.connectionClosed (h : Sound s) : Sound s.connectionClosed := by
  rw [RobustConnection.connectionClosed, if_neg h.notClosed]
  exact ⟨h.notClosed, h.closers, fun _ => rfl, h.offline, h.uses⟩

theorem Sound.step (h : Sound s) (ha : a ≠ .close) (hs : step s a = some u) : Sound u := by
  cases step_cases hs with
  | connect | slept => exact h.loop
  | channel | collected | died =>
    exact ⟨h.notClosed, h.closers, h.attempting, h.offline, h.uses⟩
  | stopped hf hc => exact absurd hc.symm h.notClosed
  | woken hf he => exact ⟨h.notClosed, h.closers, fun _ => he, fun _ => rfl, fun _ => False.elim⟩
  | opened hf =>
    exact restoreChannels_sound h.notClosed h.closers (h.attempting (by rw [hf]; trivial)) rfl
  | openCancelled | restoreCancelled | transportClosed => exact h.attemptFailed _
  | openRaised hf =>
    exact ⟨h.notClosed, h.closers, fun _ => h.attempting (by rw [hf]; trivial), fun _ => rfl,
      fun _ => False.elim⟩
  | reported => exact h.connectionClosed.attemptFailed _
  | restored hf =>
    exact restoreChannels_sound h.notClosed h.closers (h.attempting (by rw [hf]; trivial))
      (h.uses _ (by rw [hf]; rfl))
  | restoreRaised hf | failureReported hf =>
    exact ⟨h.notClosed, h.closers, fun _ => h.attempting (by rw [hf]; trivial), False.elim,
      fun _ hu => h.uses _ (by rw [hf]; exact hu)⟩
  | notified => exact ⟨h.notClosed, h.closers, False.elim, False.elim, fun _ => False.elim⟩
  | callbackStarted =>
    exact ⟨h.notClosed, h.closers, h.attempting, fun _ => rfl, h.uses⟩
  | callbackEnded =>
    exact Sound.connectionClosed ⟨h.notClosed, h.closers, h.attempting, h.offline, h.uses⟩
  | superClose | gathering => exact absurd rfl ha
  | cancelled hc => exact absurd h.closers hc
  | factoryGathered hc | closeEnded hc | closeRaised hc => exact h.no_closer hc

end AioPika.RobustConnection
