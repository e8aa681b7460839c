import AioPika.Connection.Loss

/-! # Which transport a close signal is about

Every close callback sets the one event of the connection, and the factory does
not learn which transport it belonged to. A signal that is set while a transport
is open makes the factory replace that transport.
-/

namespace AioPika.RobustConnection

open Transition

def AllClosed (transports : List OneShotCallback) : Prop :=
  ∀ callback ∈ transports, ¬ callback.Armed

instance : DecidablePred AllClosed := fun transports =>
  inferInstanceAs (Decidable (∀ callback ∈ transports, ¬ callback.Armed))

def OnlyOpen (t : ℕ) (transports : List OneShotCallback) : Prop :=
  ∀ t' callback, transports[t']? = some callback → callback.Armed → t' = t

/-- An attempt begins when every transport is closed, and at most one is open at any time. -/
structure OneTransport (s : RobustConnection) : Prop where
  connecting : s.factory = .connecting → AllClosed s.transports
  atMostOne : ∃ t, OnlyOpen t s.transports

/-- The user does not close the connection, and no close callback sets the event while a transport
is open. -/
def Punctual (s : RobustConnection) (a : Action) : Prop :=
  match a with
  | .close => False
  | .callbackEnded _ => s.closeEvent = true ∨ AllClosed s.transports
  | _ => True

instance (s : RobustConnection) : DecidablePred (Punctual s)
  | .close => .isFalse id
  | .callbackEnded _ => inferInstanceAs (Decidable (s.closeEvent = true ∨ AllClosed s.transports))
  | .connect | .channel _ | .collected _ | .woken | .opened _ | .openRaised _ | .reported
  | .restored _ | .failureReported | .transportClosed | .notified | .slept | .died _ _
  | .callbackStarted _ | .cancelled | .factoryGathered _ | .closeEnded _
  | .closeRaised _ => .isTrue trivial

def Idle : FactoryPc → Prop
  | .absent | .waiting | .sleeping => True
  | _ => False

/-- The transports that may be open in each phase of the factory. -/
structure Succeeding (s : RobustConnection) : Prop where
  scheduled : Idle s.factory → s.closeEvent = true → AllClosed s.transports
  offline : Offline s.factory → AllClosed s.transports
  uses : ∀ t, Uses t s.factory → OnlyOpen t s.transports
  atMostOne : ∃ t, OnlyOpen t s.transports

variable {s u : RobustConnection} {a : Action} {t t' : ℕ} {transports : List OneShotCallback}
  {new : OneShotCallback} {exc : Raised} {channels : List ChannelId}

section Transports

theorem AllClosed.onlyOpen (h : AllClosed transports) : OnlyOpen t transports :=
  fun _ _ hget ha => absurd ha (h _ (List.mem_of_getElem? hget))

theorem AllClosed.set (h : AllClosed transports) (hnew : ¬ new.Armed) :
    AllClosed (transports.set t new) := by
  intro callback hc
  rcases List.mem_or_eq_of_mem_set hc with hc | rfl
  · exact h callback hc
  · exact hnew

theorem OnlyOpen.set (h : OnlyOpen t transports) (hnew : ¬ new.Armed) :
    OnlyOpen t (transports.set t' new) := by
  intro i callback hget ha
  rw [List.getElem?_set] at hget
  split at hget
  · split at hget
    · obtain rfl := Option.some.inj hget
      exact absurd ha hnew
    · cases hget
  · exact h i callback hget ha

theorem AllClosed.append (h : AllClosed transports) :
    OnlyOpen transports.length (transports ++ [new]) := by
  intro i callback hget ha
  rcases Nat.lt_trichotomy i transports.length with hlt | heq | hgt
  · rw [List.getElem?_append_left hlt] at hget
    exact absurd ha (h callback (List.mem_of_getElem? hget))
  · exact heq
  · have hlen : (transports ++ [new]).length ≤ i := by
      rw [List.length_append]
      exact hgt
    rw [List.getElem?_eq_none hlen] at hget
    cases hget

theorem OnlyOpen.allClosed (h : OnlyOpen t transports) (hdead : transports[t]? ≠ some .idle) :
    AllClosed transports := by
  intro callback hc ha
  obtain ⟨i, hget⟩ := List.mem_iff_getElem?.mp hc
  obtain rfl : i = t := h i callback hget ha
  cases callback with
  | idle => exact hdead hget
  | _ => exact ha

end Transports

theorem fresh_succeeding (failFast : Bool) : Succeeding (fresh failFast) := by
  have hnone : AllClosed (fresh failFast).transports := by
    simp [AllClosed, fresh]
  exact ⟨fun _ _ => hnone, fun _ => hnone, fun _ _ => hnone.onlyOpen, 0, hnone.onlyOpen⟩

theorem Succeeding.of_allClosed (h : AllClosed s.transports) : Succeeding s :=
  ⟨fun _ _ => h, fun _ => h, fun _ _ => h.onlyOpen, 0, h.onlyOpen⟩

theorem Succeeding.mono (h : Succeeding s) (hf : u.factory = s.factory)
    (he : u.closeEvent = true → s.closeEvent = true ∨ AllClosed u.transports)
    (hc : AllClosed s.transports → AllClosed u.transports)
    (ho : ∀ t, OnlyOpen t s.transports → OnlyOpen t u.transports) : Succeeding u := by
  refine ⟨fun hi hset => ?_, fun hoff => ?_, fun t hu => ?_, ?_⟩
  · rw [hf] at hi
    rcases he hset with hset | hall
    · exact hc (h.scheduled hi hset)
    · exact hall
  · rw [hf] at hoff
    exact hc (h.offline hoff)
  · rw [hf] at hu
    exact ho t (h.uses t hu)
  · obtain ⟨t, ht⟩ := h.atMostOne
    exact ⟨t, ho t ht⟩

theorem attemptFailed_transports : (s.attemptFailed exc).transports = s.transports := by
  obtain ⟨done, pc, -, h⟩ := s.attemptFailed_eq exc
  rw [h]

theorem connectionClosed_transports : s.connectionClosed.transports = s.transports := by
  obtain ⟨event, h⟩ := s.connectionClosed_eq
  rw [h]

theorem Succeeding.cancelled (h : Succeeding s) : Succeeding (s.attemptFailed .cancelled) :=
  ⟨False.elim, False.elim, fun _ => False.elim, h.atMostOne⟩

/-- An attempt whose transport is the only open one goes on with its channels. -/
theorem succeeding_restoreChannels (h : OnlyOpen t s.transports) :
    Succeeding (s.restoreChannels t channels) := by
  unfold restoreChannels
  split
  · split
    · exact ⟨nofun, False.elim, fun _ => False.elim, t, h⟩
    · exact ⟨False.elim, False.elim, fun _ hu => hu ▸ h, t, h⟩
  · exact ⟨False.elim, False.elim, fun _ hu => hu ▸ h, t, h⟩

theorem Succeeding.loop (hs : Sound s) (h : Succeeding s) (hi : Idle s.factory) :
    Succeeding s.loop := by
  rw [RobustConnection.loop, if_neg (fun hc => hs.notClosed hc.symm)]
  exact ⟨fun _ => h.scheduled hi, False.elim, fun _ => False.elim, h.atMostOne⟩

theorem succeeding_step (hs : Sound s) (h : Succeeding s) (hok : Punctual s a)
    (hst : step s a = some u) : Succeeding u := by
  cases step_cases hst with
  | connect hf => exact h.loop hs (by rw [hf]; trivial)
  | slept hf => exact h.loop hs (by rw [hf]; trivial)
  | channel => exact h.mono rfl Or.inl id fun _ => id
  | collected => exact h.mono rfl Or.inl id fun _ => id
  | stopped hf hc => exact absurd hc.symm hs.notClosed
  | woken hf he => exact .of_allClosed (h.scheduled (by rw [hf]; trivial) he)
  | opened hf =>
    have hall : AllClosed s.transports := h.offline (by rw [hf]; trivial)
    exact succeeding_restoreChannels hall.append
  | openCancelled => exact h.cancelled
  | openRaised hf =>
    have hall : AllClosed s.transports := h.offline (by rw [hf]; trivial)
    exact .of_allClosed hall
  | reported hf =>
    have hall : AllClosed s.transports := h.offline (by rw [hf]; trivial)
    apply Succeeding.of_allClosed
    rw [attemptFailed_transports, connectionClosed_transports]
    exact hall
  | restored hf => exact succeeding_restoreChannels (h.uses _ (by rw [hf]; rfl))
  | restoreCancelled => exact h.cancelled
  | restoreRaised hf =>
    exact ⟨False.elim, False.elim, fun t hu => h.uses t (by rw [hf]; exact hu), h.atMostOne⟩
  | failureReported hf =>
    exact ⟨False.elim, False.elim, fun t hu => h.uses t (by rw [hf]; exact hu), h.atMostOne⟩
  | transportClosed hf hdead =>
    -- the transport of the attempt was the only open one
    have hall : AllClosed s.transports := (h.uses _ (by rw [hf]; rfl)).allClosed hdead
    apply Succeeding.of_allClosed
    rw [attemptFailed_transports]
    exact hall
  | notified => exact ⟨nofun, False.elim, fun _ => False.elim, h.atMostOne⟩
  | died => exact h.mono rfl Or.inl (fun hc => hc.set id) fun _ ho => ho.set id
  | callbackStarted => exact h.mono rfl Or.inl (fun hc => hc.set id) fun _ ho => ho.set id
  | callbackEnded =>
    rw [connectionClosed, if_neg hs.notClosed]
    refine h.mono rfl (fun _ => ?_) (fun hc => hc.set id) fun _ ho => ho.set id
    exact hok.imp id fun hall => hall.set id
  | superClose => exact absurd hok id
  | gathering => exact absurd hok id
  | cancelled hc => exact absurd hs.closers hc
  | factoryGathered hc => exact hs.no_closer hc
  | closeEnded hc => exact hs.no_closer hc
  | closeRaised hc => exact hs.no_closer hc

theorem Punctual.ne_close (h : Punctual s a) : a ≠ .close := by
  rintro rfl
  exact h

/-- As long as no close callback sets the event while a transport is open, the factory connects
only when all transports are closed. -/
theorem one_transport (h : Reach Fresh step Punctual s) : OneTransport s := by
  have hinv : Sound s ∧ Succeeding s := by
    apply h.invariant (I := fun s => Sound s ∧ Succeeding s)
    · rintro s ⟨failFast, rfl⟩
      exact ⟨fresh_sound failFast, fresh_succeeding failFast⟩
    · rintro s a u ⟨hs, hi⟩ hok hst
      exact ⟨hs.step hok.ne_close hst, succeeding_step hs hi hok hst⟩
  refine ⟨fun hf => ?_, hinv.2.atMostOne⟩
  exact hinv.2.offline (by rw [hf]; trivial)

/-- The first transport is lost, and the channel cannot be restored on the second, which is
closed; the third is open. -/
def replacedTwice : List Action :=
  [.connect, .woken, .opened [], .channel 0, .died 0 none, .callbackStarted 0, .callbackEnded 0,
    .slept, .woken, .opened [0], .restored (some .other), .failureReported, .died 1 none,
    .transportClosed, .callbackStarted 1, .slept, .woken, .opened [0], .restored none]

/-- The close callback of the second transport ends before the factory has cleared the event. -/
theorem ended_in_time : ∃ s, checked step Punctual (fresh true)
    (replacedTwice ++ [.callbackEnded 1, .notified, .slept]) = some s ∧
    s.factory = .waiting ∧ s.closeEvent = false ∧ OneTransport s :=
  ⟨_, rfl, rfl, rfl, one_transport (Reach.of_checked
    (replacedTwice ++ [.callbackEnded 1, .notified, .slept]) ⟨true, rfl⟩ rfl)⟩

/-- It ends later, and the third transport is open when the factory connects again. -/
theorem ended_late : ∃ s, Reach Fresh step (fun _ a => a ≠ .close) s ∧ ¬ OneTransport s :=
  ⟨_, Reach.of_checked (replacedTwice ++ [.notified, .callbackEnded 1, .slept, .woken])
    (⟨true, rfl⟩ : Fresh (fresh true)) rfl,
    fun h => absurd (h.connecting rfl) (by decide)⟩

end AioPika.RobustConnection
