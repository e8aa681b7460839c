import AioPika.Connection.Invariant

/-! # How the factory ends

Each attempt of the factory ends with a connection or with an exception. The
factory sleeps and tries again, unless the attempt was cancelled, or failed with
one of `CONNECTION_EXCEPTIONS` while nobody has told `connect()` of a result yet.
-/

namespace AioPika.RobustConnection

open Transition

/-- A connection, with the ends of its attempts so far: `none` for a connection that was made. -/
structure History where
  connection : RobustConnection
  ends : List (Option Raised)
  deriving DecidableEq, Repr

/-- The end of an attempt that a step from `s` to `u` brings. -/
def attemptEnd (s u : RobustConnection) : Action → Option (Option Raised)
  | .openRaised .cancelled | .restored (some .cancelled) => some (some .cancelled)
  | .reported =>
    match s.factory with
    | .reporting exc => some (some exc)
    | _ => none
  | .transportClosed =>
    match s.factory with
    | .closing _ exc => some (some exc)
    | _ => none
  | .opened _ | .restored none | .notified => if u.factory = .sleeping then some none else none
  | _ => none

def History.step (h : History) (a : Action) : Option History :=
  (RobustConnection.step h.connection a).map fun u =>
    ⟨u, h.ends ++ (attemptEnd h.connection u a).toList⟩

/-- The factory ends only when the first attempt of a connection that is to fail fast has failed
with a connection exception. -/
def NeverDies (failFast : Bool) (h : History) : Prop :=
  h.connection.factory = .stopped → failFast = true ∧ h.ends = [some .connection]

/-- No attempt is cancelled, and one that fails with a connection exception while the fail-fast
future is not done is the first one. -/
def Spared (h : History) (a : Action) : Prop :=
  match a, h.connection.factory with
  | .openRaised .cancelled, _ | .restored (some .cancelled), _ => False
  | .reported, .reporting .connection | .transportClosed, .closing _ .connection =>
    h.connection.failFastDone = false → h.ends = []
  | _, _ => True

/-- What holds until the user closes the connection. The exceptions that are reported are not
`CancelledError`, and nothing has stopped the factory before its first attempt. -/
structure Enduring (failFast : Bool) (h : History) : Prop where
  sound : Sound h.connection
  failFast : h.connection.failFastDone = false → failFast = true
  reporting : h.connection.factory ≠ .reporting .cancelled
  failing : ∀ t, h.connection.factory ≠ .failing t .cancelled
  closing : ∀ t, h.connection.factory ≠ .closing t .cancelled

variable {failFast : Bool} {h k : History} {s u : RobustConnection} {a : Action} {exc : Raised}
  {t : ℕ}

theorem fresh_enduring : Enduring failFast ⟨fresh failFast, []⟩ := by
  refine ⟨fresh_sound failFast, ?_, nofun, nofun, nofun⟩
  simp [fresh]

theorem neverDies_of_factory (h : k.connection.factory ≠ .stopped) : NeverDies failFast k :=
  fun hf => absurd hf h

/-- The factory is stopped by a cancellation, and by a connection exception that nobody was told
a result before. -/
theorem attemptFailed_stopped :
    (s.attemptFailed exc).factory = .stopped ↔
      exc = .cancelled ∨ exc = .connection ∧ s.failFastDone = false := by
  cases exc with
  | connection =>
    unfold attemptFailed
    cases hd : s.failFastDone <;> simp
  | other => simp [attemptFailed]
  | cancelled => simp [attemptFailed]

theorem attemptFailed_factory (s : RobustConnection) (exc : Raised) :
    (s.attemptFailed exc).factory = .stopped ∨ (s.attemptFailed exc).factory = .sleeping := by
  obtain ⟨done, pc, hpc, h⟩ := s.attemptFailed_eq exc
  rw [h]
  exact hpc

theorem attemptFailed_failFastDone (h : (s.attemptFailed exc).failFastDone = false) :
    s.failFastDone = false := by
  unfold attemptFailed at h
  split at h
  · split at h
    · exact h
    · cases h
  · exact h
  · exact h

theorem restoreChannels_factory (s : RobustConnection) (t : ℕ) (channels : List ChannelId) :
    (s.restoreChannels t channels).factory = .sleeping ∨
      (s.restoreChannels t channels).factory = .notifying t ∨
      ∃ channels', (s.restoreChannels t channels).factory = .restoring t channels' := by
  unfold restoreChannels
  split
  · split
    · exact Or.inl rfl
    · exact Or.inr (Or.inl rfl)
  · exact Or.inr (Or.inr ⟨_, rfl⟩)

theorem restoreChannels_failFastDone {channels : List ChannelId}
    (h : (s.restoreChannels t channels).failFastDone = false) : s.failFastDone = false := by
  unfold restoreChannels at h
  split at h
  · split at h
    · cases h
    · exact h
  · exact h

theorem Enduring.attemptFailed (h : Enduring failFast k) {ends : List (Option Raised)}
    (hs : Sound (s.attemptFailed exc)) (hd : s.failFastDone = k.connection.failFastDone) :
    Enduring failFast ⟨s.attemptFailed exc, ends⟩ := by
  refine ⟨hs, fun hn => ?_, ?_, fun _ => ?_, fun _ => ?_⟩
  · have hn := attemptFailed_failFastDone hn
    exact h.failFast (hd.symm.trans hn)
  all_goals
    intro hf
    rcases attemptFailed_factory s exc with he | he <;> cases he.symm.trans hf

theorem Enduring.restoreChannels (h : Enduring failFast k) {channels : List ChannelId}
    {ends : List (Option Raised)} (hs : Sound (s.restoreChannels t channels))
    (hd : s.failFastDone = k.connection.failFastDone) :
    Enduring failFast ⟨s.restoreChannels t channels, ends⟩ := by
  refine ⟨hs, fun hn => ?_, ?_, fun _ => ?_, fun _ => ?_⟩
  · have hn := restoreChannels_failFastDone hn
    exact h.failFast (hd.symm.trans hn)
  all_goals
    intro hf
    rcases restoreChannels_factory s t channels with he | he | ⟨_, he⟩ <;>
      cases he.symm.trans hf

theorem connectionClosed_failFastDone : s.connectionClosed.failFastDone = s.failFastDone := by
  obtain ⟨event, h⟩ := s.connectionClosed_eq
  rw [h]

theorem connectionClosed_factory : s.connectionClosed.factory = s.factory := by
  obtain ⟨event, h⟩ := s.connectionClosed_eq
  rw [h]

theorem Enduring.of_factory (h : Enduring failFast k) {ends : List (Option Raised)}
    (hs : Sound u) (hd : u.failFastDone = k.connection.failFastDone)
    (hf : u.factory = k.connection.factory) : Enduring failFast ⟨u, ends⟩ := by
  refine ⟨hs, fun hn => h.failFast (hd.symm.trans hn), ?_, ?_, ?_⟩
  · rw [hf]
    exact h.reporting
  · rw [hf]
    exact h.failing
  · rw [hf]
    exact h.closing

theorem Enduring.of_quiet (h : Enduring failFast k) {ends : List (Option Raised)}
    (hs : Sound u) (hd : u.failFastDone = false → k.connection.failFastDone = false)
    (hf : u.factory = .waiting ∨ u.factory = .connecting ∨ u.factory = .sleeping) :
    Enduring failFast ⟨u, ends⟩ := by
  refine ⟨hs, fun hn => h.failFast (hd hn), ?_, fun t => ?_, fun t => ?_⟩
  all_goals
    intro he
    rcases hf with hf | hf | hf <;> cases hf.symm.trans he

theorem loop_waiting (h : Sound s) : s.loop.factory = .waiting := by
  have hn : ¬ (s.isClosed = true ∨ s.closeCalled = true) := fun hc => h.notClosed hc.symm
  simp only [loop, if_neg hn]

theorem enduring_step (he : Enduring failFast h) (ha : a ≠ .close) (hs : h.step a = some k) :
    Enduring failFast k := by
  obtain ⟨u, hu, rfl⟩ := Option.map_eq_some_iff.mp hs
  have hsound : Sound u := he.sound.step ha hu
  cases step_cases hu with
  | connect => exact he.of_quiet hsound id (Or.inl (loop_waiting he.sound))
  | slept => exact he.of_quiet hsound id (Or.inl (loop_waiting he.sound))
  | channel => exact he.of_factory hsound rfl rfl
  | collected => exact he.of_factory hsound rfl rfl
  | stopped hf hc => exact absurd hc.symm he.sound.notClosed
  | woken => exact he.of_quiet hsound id (Or.inr (Or.inl rfl))
  | opened => exact he.restoreChannels hsound rfl
  | openCancelled => exact he.attemptFailed hsound rfl
  | openRaised hf hn =>
    refine ⟨hsound, he.failFast, fun hr => ?_, nofun, nofun⟩
    exact hn (FactoryPc.reporting.inj hr)
  | reported => exact he.attemptFailed hsound connectionClosed_failFastDone
  | restored => exact he.restoreChannels hsound rfl
  | restoreCancelled => exact he.attemptFailed hsound rfl
  | restoreRaised hf hn =>
    refine ⟨hsound, he.failFast, nofun, fun t hr => ?_, nofun⟩
    exact hn (FactoryPc.failing.inj hr).2
  | failureReported hf =>
    refine ⟨hsound, he.failFast, nofun, nofun, fun t hr => ?_⟩
    obtain ⟨rfl, rfl⟩ := FactoryPc.closing.inj hr
    exact he.failing _ hf
  | transportClosed => exact he.attemptFailed hsound rfl
  | notified => exact he.of_quiet hsound nofun (Or.inr (Or.inr rfl))
  | died => exact he.of_factory hsound rfl rfl
  | callbackStarted => exact he.of_factory hsound rfl rfl
  | callbackEnded =>
    exact he.of_factory hsound connectionClosed_failFastDone connectionClosed_factory
  | superClose => exact absurd rfl ha
  | gathering => exact absurd rfl ha
  | cancelled hc => exact absurd he.sound.closers hc
  | factoryGathered hc => exact he.sound.no_closer hc
  | closeEnded hc => exact he.sound.no_closer hc
  | closeRaised hc => exact he.sound.no_closer hc

/-- An attempt that fails stops the factory as it should exactly when it may. -/
theorem neverDies_attemptFailed (he : Enduring failFast h)
    (hd : s.failFastDone = h.connection.failFastDone) (hn : exc ≠ .cancelled) :
    NeverDies failFast ⟨s.attemptFailed exc, h.ends ++ [some exc]⟩ ↔
      (exc = .connection → h.connection.failFastDone = false → h.ends = []) := by
  constructor
  · rintro hk rfl hdone
    have hstopped : (s.attemptFailed .connection).factory = .stopped :=
      attemptFailed_stopped.mpr (Or.inr ⟨rfl, hd.trans hdone⟩)
    have hends : h.ends ++ [some .connection] = [some .connection] := (hk hstopped).2
    exact List.append_left_eq_self.mp hends
  · intro hfirst hstopped
    rcases attemptFailed_stopped.mp hstopped with hc | ⟨rfl, hdone⟩
    · exact absurd hc hn
    · have hdone : h.connection.failFastDone = false := hd.symm.trans hdone
      refine ⟨he.failFast hdone, ?_⟩
      rw [hfirst rfl hdone]
      rfl

theorem not_neverDies_cancelled :
    ¬ NeverDies failFast ⟨s.attemptFailed .cancelled, h.ends ++ [some .cancelled]⟩ := by
  intro hk
  have hends := (hk rfl).2
  have hlast := congrArg List.getLast? hends
  simp at hlast

theorem restoreChannels_not_stopped {channels : List ChannelId} :
    (s.restoreChannels t channels).factory ≠ .stopped := by
  intro hf
  rcases restoreChannels_factory s t channels with he | he | ⟨_, he⟩ <;>
    cases he.symm.trans hf

theorem neverDies_step_iff (he : Enduring failFast h) (hd : NeverDies failFast h)
    (ha : a ≠ .close) (hs : h.step a = some k) : NeverDies failFast k ↔ Spared h a := by
  obtain ⟨u, hu, rfl⟩ := Option.map_eq_some_iff.mp hs
  -- most steps do not end an attempt, and leave the factory running
  have hsame (hf : u.factory = h.connection.factory) (hend : attemptEnd h.connection u a = none) :
      NeverDies failFast ⟨u, h.ends ++ (attemptEnd h.connection u a).toList⟩ := by
    intro hstopped
    have hold := hd (hf.symm.trans hstopped)
    rw [hend]
    exact ⟨hold.1, by simpa using hold.2⟩
  cases step_cases hu with
  | connect =>
    refine iff_of_true (neverDies_of_factory ?_) trivial
    rw [loop_waiting he.sound]
    nofun
  | slept =>
    refine iff_of_true (neverDies_of_factory ?_) trivial
    rw [loop_waiting he.sound]
    nofun
  | channel => exact iff_of_true (hsame rfl rfl) trivial
  | collected => exact iff_of_true (hsame rfl rfl) trivial
  | stopped hf hc => exact absurd hc.symm he.sound.notClosed
  | woken => exact iff_of_true (neverDies_of_factory nofun) trivial
  | opened => exact iff_of_true (neverDies_of_factory restoreChannels_not_stopped) trivial
  | openCancelled => exact iff_of_false not_neverDies_cancelled id
  | @openRaised exc hf hn =>
    refine iff_of_true (neverDies_of_factory nofun) ?_
    cases exc with
    | cancelled => exact absurd rfl hn
    | _ => trivial
  | @reported exc hf =>
    have hn : exc ≠ .cancelled := by
      rintro rfl
      exact he.reporting hf
    simp only [attemptEnd, hf, Option.toList_some]
    rw [neverDies_attemptFailed he connectionClosed_failFastDone hn]
    unfold Spared
    rw [hf]
    cases exc <;> simp
  | restored => exact iff_of_true (neverDies_of_factory restoreChannels_not_stopped) trivial
  | restoreCancelled => exact iff_of_false not_neverDies_cancelled id
  | @restoreRaised t c channels exc hf hn =>
    refine iff_of_true (neverDies_of_factory nofun) ?_
    cases exc with
    | cancelled => exact absurd rfl hn
    | _ => trivial
  | failureReported => exact iff_of_true (neverDies_of_factory nofun) trivial
  | @transportClosed t exc hf =>
    have hn : exc ≠ .cancelled := by
      rintro rfl
      exact he.closing t hf
    simp only [attemptEnd, hf, Option.toList_some]
    rw [neverDies_attemptFailed he rfl hn]
    unfold Spared
    rw [hf]
    cases exc <;> simp
  | notified => exact iff_of_true (neverDies_of_factory nofun) trivial
  | died => exact iff_of_true (hsame rfl rfl) trivial
  | callbackStarted => exact iff_of_true (hsame rfl rfl) trivial
  | callbackEnded => exact iff_of_true (hsame connectionClosed_factory rfl) trivial
  | superClose => exact absurd rfl ha
  | gathering => exact absurd rfl ha
  | cancelled hc => exact absurd he.sound.closers hc
  | factoryGathered hc => exact he.sound.no_closer hc
  | closeEnded hc => exact he.sound.no_closer hc
  | closeRaised hc => exact he.sound.no_closer hc

/-- The factory of a connection that its user does not close dies by a failed first attempt only,
exactly when no attempt is cancelled and no later one is taken for the first. -/
theorem never_dies_iff {as : List Action} (has : ∀ a ∈ as, a ≠ .close) :
    Throughout History.step (NeverDies failFast) ⟨fresh failFast, []⟩ as ↔
      EachStep History.step Spared ⟨fresh failFast, []⟩ as :=
  throughout_iff_eachStep_of (fun _ _ _ ha he _ hs _ => enduring_step he ha hs)
    (fun _ _ _ ha he hd hs => neverDies_step_iff he hd ha hs) has fresh_enduring
    (neverDies_of_factory nofun)

/-- The first attempt fails with a connection exception, and `connect()` is told so. -/
def failedFast : List Action := [.connect, .woken, .openRaised .connection, .reported]

/-- The transport is lost, and the channel is restored on the next one until that is torn down
as well. -/
def tornDown : List Action :=
  [.connect, .woken, .opened [], .channel 0, .died 0 none, .callbackStarted 0, .callbackEnded 0,
    .slept, .woken, .opened [0], .restored (some .cancelled)]

/-- The first attempt fails with an exception that is logged, and the second with a connection
exception. -/
def failedLate : List Action :=
  [.connect, .woken, .openRaised .other, .reported, .slept, .woken, .openRaised .connection,
    .reported]

/-- The first attempt may end the factory. -/
theorem failed_fast : Throughout History.step (NeverDies true) ⟨fresh true, []⟩ failedFast := by
  refine (never_dies_iff (by decide)).mpr ?_
  rintro _ ⟨⟩
  refine ⟨trivial, ?_⟩
  rintro _ ⟨⟩
  refine ⟨trivial, ?_⟩
  rintro _ ⟨⟩
  refine ⟨trivial, ?_⟩
  rintro _ ⟨⟩
  exact ⟨fun _ => rfl, trivial⟩

/-- The factory ends because a restore was cancelled, and because the second attempt is taken for
the first. -/
theorem torn_down_or_failed_late :
    (∃ h, checked History.step (fun _ a => a ≠ .close) ⟨fresh true, []⟩ tornDown = some h ∧
      ¬ NeverDies true h) ∧
    ∃ h, checked History.step (fun _ a => a ≠ .close) ⟨fresh true, []⟩ failedLate = some h ∧
      ¬ NeverDies true h :=
  ⟨⟨_, rfl, fun hd => absurd (hd rfl) (by decide)⟩, _, rfl, fun hd => absurd (hd rfl) (by decide)⟩

end AioPika.RobustConnection
