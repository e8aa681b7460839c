import AioPika.Connection.Invariant

/-! # Connection losses

A factory that waits for its event has to be woken when the transport is lost.
The close callback of the transport sets the event, and `_on_connected` clears it
after its last await: a loss is noticed unless the callback has finished by then.
-/

namespace AioPika.RobustConnection

open Transition

/-- The transport is open, or its close callback has not finished. -/
def Watched (s : RobustConnection) : Prop :=
  ∃ callback ∈ s.closeCallback, callback.Armed ∨ callback ≠ .finished

instance : DecidablePred Watched := fun s =>
  inferInstanceAs (Decidable (∃ callback ∈ s.closeCallback, callback.Armed ∨ callback ≠ .finished))

/-- A factory that waits for an event that is not set has nothing to do yet. -/
def LossNoticed (s : RobustConnection) : Prop :=
  s.factory = .waiting → s.closeEvent = false → Watched s

/-- With this action `_on_connected` of a transport that was open before clears the event. -/
def ClearsEvent (s : RobustConnection) (a : Action) : Prop :=
  match a, s.factory with
  | .restored none, .restoring _ [_] => s.connectionAttempt = 0
  | .notified, .notifying _ => True
  | _, _ => False

instance (s : RobustConnection) (a : Action) : Decidable (ClearsEvent s a) := by
  unfold ClearsEvent
  split <;> infer_instance

/-- The user does not close the connection, and the close callback of the transport has not
finished when `_on_connected` clears the event. -/
def HeardOut (s : RobustConnection) (a : Action) : Prop :=
  a ≠ .close ∧ (ClearsEvent s a → Watched s)

instance (s : RobustConnection) (a : Action) : Decidable (HeardOut s a) :=
  inferInstanceAs (Decidable (a ≠ .close ∧ (ClearsEvent s a → Watched s)))

def Fresh (s : RobustConnection) : Prop := ∃ failFast, s = fresh failFast

variable {s u : RobustConnection} {t : ℕ} {a : Action} {new : OneShotCallback}

theorem Watched.set (h : Watched s) (htr : u.transport = s.transport)
    (hts : u.transports = s.transports.set t new) (hnew : new ≠ .finished) : Watched u := by
  obtain ⟨callback, hc, hw⟩ := h
  obtain ⟨t', ht', hget⟩ := Option.bind_eq_some_iff.mp hc
  have hu : u.closeCallback = (s.transports.set t new)[t']? := by
    rw [closeCallback, htr, ht', hts, Option.bind_some]
  by_cases he : t = t'
  · subst he
    have hlt : t < s.transports.length := (List.getElem?_eq_some_iff.mp hget).1
    exact ⟨new, hu.trans (List.getElem?_set_self hlt), Or.inr hnew⟩
  · exact ⟨callback, hu.trans ((List.getElem?_set_ne he).trans hget), hw⟩

theorem watched_restoreChannels {channels : List ChannelId} (he : s.closeEvent = true)
    (hw : channels = [] → s.connectionAttempt = 0 → Watched s)
    (hu : (s.restoreChannels t channels).closeEvent = false) :
    Watched (s.restoreChannels t channels) := by
  unfold restoreChannels at hu ⊢
  split
  · split
    · rename_i h₀
      exact hw rfl h₀
    · rename_i h₀
      simp only [if_neg h₀] at hu
      cases he.symm.trans hu
  · cases he.symm.trans hu

theorem watched_attemptFailed {exc : Raised} (hw : s.closeEvent = false → Watched s)
    (hu : (s.attemptFailed exc).closeEvent = false) : Watched (s.attemptFailed exc) := by
  obtain ⟨done, pc, -, h⟩ := s.attemptFailed_eq exc
  rw [h] at hu ⊢
  exact hw hu

/-- As long as the event is not set, the transport is watched. -/
theorem watched_step (h : Sound s) (hw : s.closeEvent = false → Watched s) (hok : HeardOut s a)
    (hs : step s a = some u) (hu : u.closeEvent = false) : Watched u := by
  obtain ⟨ha, hclear⟩ := hok
  -- in an attempt the event is set
  have hset : Attempting s.factory → s.closeEvent = true := h.attempting
  cases step_cases hs with
  | connect | channel | collected | slept => exact hw hu
  | stopped hf hc => exact absurd hc.symm h.notClosed
  | woken hf he => cases he.symm.trans hu
  | opened hf =>
    exact watched_restoreChannels (hset (by rw [hf]; trivial))
      (fun _ _ => ⟨.idle, by simp [closeCallback], Or.inl trivial⟩) hu
  | openCancelled | restoreCancelled | transportClosed => exact watched_attemptFailed hw hu
  | openRaised hf | restoreRaised hf | failureReported hf =>
    cases (hset (by rw [hf]; trivial)).symm.trans hu
  | reported =>
    rw [connectionClosed, if_neg h.notClosed] at hu ⊢
    exact watched_attemptFailed (fun hn => by cases hn) hu
  | restored hf =>
    apply watched_restoreChannels (hset (by rw [hf]; trivial)) _ hu
    intro hc h₀
    exact hclear (by simp only [ClearsEvent, hf, hc, h₀])
  | notified hf => exact hclear (by simp only [ClearsEvent, hf])
  | died | callbackStarted => exact (hw hu).set rfl rfl (by simp)
  | callbackEnded =>
    rw [connectionClosed, if_neg h.notClosed] at hu
    cases hu
  | superClose | gathering => exact absurd rfl ha
  | cancelled hc => exact absurd h.closers hc
  | factoryGathered hc | closeEnded hc | closeRaised hc => exact h.no_closer hc

/-- In every run without a `close()` in which no close callback of the transport has finished
when `_on_connected` clears the event, no loss is forgotten. -/
theorem losses_noticed (h : Reach Fresh step HeardOut s) : LossNoticed s := by
  have hinv : Sound s ∧ (s.closeEvent = false → Watched s) := by
    apply h.invariant (I := fun s => Sound s ∧ (s.closeEvent = false → Watched s))
    · rintro s ⟨failFast, rfl⟩
      exact ⟨fresh_sound failFast, fun he => by cases he⟩
    · rintro s a t ⟨hs, hw⟩ hok hst
      exact ⟨hs.step hok.1 hst, watched_step hs hw hok hst⟩
  exact fun _ => hinv.2

def lostWhileIdle : List Action :=
  [.connect, .woken, .opened [], .slept, .died 0 none, .callbackStarted 0, .callbackEnded 0,
    .woken, .opened [], .notified, .slept]

/-- The second transport is lost, and its close callback finishes, while the reconnect callbacks
of the user run. -/
def lostWhileNotifying : List Action :=
  [.connect, .woken, .opened [], .slept, .died 0 none, .callbackStarted 0, .callbackEnded 0,
    .woken, .opened [], .died 1 none, .callbackStarted 1, .callbackEnded 1, .notified, .slept]

/-- The factory waits again, and watches the second transport. -/
theorem lost_while_idle : ∃ s, checked step HeardOut (fresh true) lostWhileIdle = some s ∧
    s.factory = .waiting ∧ s.closeEvent = false ∧ LossNoticed s :=
  ⟨_, rfl, rfl, rfl, losses_noticed (Reach.of_checked lostWhileIdle ⟨true, rfl⟩ rfl)⟩

/-- The event that the close callback has set is cleared, and nobody sets it again. -/
theorem lost_while_notifying : ∃ s, Reach Fresh step (fun _ a => a ≠ .close) s ∧
    ¬ LossNoticed s :=
  ⟨_, Reach.of_checked lostWhileNotifying (⟨true, rfl⟩ : Fresh (fresh true)) rfl,
    fun h => absurd (h rfl rfl) (by decide)⟩

end AioPika.RobustConnection
