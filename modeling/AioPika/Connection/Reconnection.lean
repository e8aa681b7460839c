import AioPika.Connection.Invariant

/-! # What the connection still has to do for a channel

Until `_on_connected` has passed a channel, the reconnection factory is going to
restore it. A connection that is not connected, or has lost its transport, stays
so until it opens a transport, and then it has the channel ahead of it.
-/

namespace AioPika.RobustConnection

/-- The factory is going to restore the channel. -/
def Ahead (c : ChannelId) (s : RobustConnection) : Prop :=
  match s.factory with
  | .connecting | .reporting _ | .failing _ _ | .closing _ _ => True
  | .restoring _ channels => c ∈ channels
  | .waiting | .sleeping => s.closeEvent = true
  | .absent | .notifying _ | .stopped => False

instance (c : ChannelId) : DecidablePred (Ahead c) := fun s =>
  match h : s.factory with
  | .connecting | .reporting _ | .failing _ _ | .closing _ _ =>
    .isTrue (by simp only [Ahead, h])
  | .restoring _ channels => decidable_of_iff (c ∈ channels) (by simp only [Ahead, h])
  | .waiting | .sleeping => decidable_of_iff (s.closeEvent = true) (by simp only [Ahead, h])
  | .absent | .notifying _ | .stopped => .isFalse (by simp only [Ahead, h, not_false_eq_true])

/-- The connection is not connected, or has lost its transport. -/
def Down (s : RobustConnection) : Prop :=
  s.connected = false ∨ ∀ callback ∈ s.closeCallback, ¬ callback.Armed

instance : DecidablePred Down := fun s =>
  inferInstanceAs (Decidable (s.connected = false ∨ ∀ callback ∈ s.closeCallback, ¬ callback.Armed))

/-- The connection is connected, and no attempt is in progress or scheduled. -/
structure Settled (s : RobustConnection) : Prop where
  connected : s.connected = true
  transport : ∃ callback ∈ s.closeCallback, callback.Armed
  attempting : ¬ Attempting s.factory
  scheduled : s.closeEvent = true → s.factory ≠ .waiting ∧ s.factory ≠ .sleeping

variable {s u : RobustConnection} {c : ChannelId} {t : ℕ} {a : Action} {exc : Raised}
  {channels : List ChannelId} {new : OneShotCallback}

theorem Settled.not_down (h : Settled s) : ¬ Down s := by
  rintro (hd | hd)
  · cases hd.symm.trans h.connected
  · obtain ⟨callback, hc, ha⟩ := h.transport
    exact hd callback hc ha

theorem Settled.not_ahead (h : Settled s) : ¬ Ahead c s := by
  intro ha
  unfold Ahead at ha
  split at ha
  · exact h.attempting (by simp [Attempting, *])
  · exact h.attempting (by simp [Attempting, *])
  · exact h.attempting (by simp [Attempting, *])
  · exact h.attempting (by simp [Attempting, *])
  · exact h.attempting (by simp [Attempting, *])
  · exact (h.scheduled ha).1 ‹_›
  · exact (h.scheduled ha).2 ‹_›
  · exact ha
  · exact ha
  · exact ha

theorem Ahead.mono (h : Ahead c s) (hf : u.factory = s.factory)
    (he : s.closeEvent = true → u.closeEvent = true) : Ahead c u := by
  unfold Ahead at h ⊢
  rw [hf]
  cases hfac : s.factory <;> simp only [hfac] at h ⊢ <;> first | exact he h | exact h

section Fields

theorem attemptFailed_channels : (s.attemptFailed exc).channels = s.channels := by
  obtain ⟨done, pc, -, h⟩ := s.attemptFailed_eq exc
  rw [h]

theorem connectionClosed_channels : s.connectionClosed.channels = s.channels := by
  obtain ⟨event, h⟩ := s.connectionClosed_eq
  rw [h]

theorem restoreChannels_channels :
    (s.restoreChannels t channels).channels = s.channels := by
  obtain ⟨done, event, attempt, pc, firings, h⟩ := s.restoreChannels_eq t channels
  rw [h]

theorem down_attemptFailed (h : Down s) : Down (s.attemptFailed exc) := by
  obtain ⟨done, pc, -, he⟩ := s.attemptFailed_eq exc
  rw [he]
  exact h

theorem down_restoreChannels (h : Down s) : Down (s.restoreChannels t channels) := by
  obtain ⟨done, event, attempt, pc, firings, he⟩ := s.restoreChannels_eq t channels
  rw [he]
  exact h

theorem down_connectionClosed (h : Down s) : Down s.connectionClosed := by
  obtain ⟨event, he⟩ := s.connectionClosed_eq
  rw [he]
  exact h

theorem Down.set (h : Down s) (hnew : ¬ new.Armed) :
    Down { s with transports := s.transports.set t new } := by
  apply h.imp_right
  intro hd callback hc
  obtain ⟨t', ht', hget⟩ := Option.bind_eq_some_iff.mp hc
  by_cases he : t = t'
  · subst he
    have hlt : t < (s.transports.set t new).length := (List.getElem?_eq_some_iff.mp hget).1
    rw [List.length_set] at hlt
    have hcb : (s.transports.set t new)[t]? = some new := List.getElem?_set_self hlt
    obtain rfl : callback = new := Option.some.inj (hget.symm.trans hcb)
    exact hnew
  · have hget' : s.transports[t']? = some callback := (List.getElem?_set_ne he).symm.trans hget
    exact hd callback (Option.bind_eq_some_iff.mpr ⟨t', ht', hget'⟩)

end Fields

theorem ahead_restoreChannels (hc : c ∈ channels) : Ahead c (s.restoreChannels t channels) := by
  cases channels with
  | nil => cases hc
  | cons c' channels => exact hc

/-- The connection is going to restore the channel, or is down. -/
def Coming (c : ChannelId) (s : RobustConnection) : Prop := Ahead c s ∨ Down s

instance (c : ChannelId) : DecidablePred (Coming c) := fun s =>
  inferInstanceAs (Decidable (Ahead c s ∨ Down s))

theorem down_cancelled (h : Down s) (hs : step s (.restored (some .cancelled)) = some u) :
    Down u := by
  cases step_cases hs with
  | restoreCancelled => exact down_attemptFailed h
  | restoreRaised hf he => exact absurd rfl he

theorem ahead_restoreRaised (hexc : exc ≠ .cancelled)
    (hs : step s (.restored (some exc)) = some u) : Ahead c u := by
  cases step_cases hs with
  | restoreCancelled => exact absurd rfl hexc
  | restoreRaised => exact trivial

/-- A connection that is going to restore the channel, or is down, does not get past the channel
without restoring it. -/
theorem coming_step (h : Sound s) (hmem : c ∈ s.channels) (hc : Coming c s) (ha : a ≠ .close)
    (hraise : a ≠ .restored (some .cancelled))
    (hhead : a = .restored none → ∀ t l, s.factory ≠ .restoring t (c :: l))
    (hs : step s a = some u) : Coming c u := by
  -- an attempt without a transport is down
  have hoffline : Offline s.factory → Down s := fun ho => Or.inl (h.offline ho)
  cases step_cases hs with
  | connect hf | notified hf =>
    refine hc.imp (fun ha => ?_) id
    rw [Ahead, hf] at ha
    exact ha.elim
  | channel | collected => exact hc
  | stopped hf hn => exact absurd hn.symm h.notClosed
  | woken | openRaised | restoreRaised | failureReported => exact Or.inl trivial
  | opened hf hp => exact Or.inl (ahead_restoreChannels (hp.mem_iff.mpr hmem))
  | openCancelled hf => exact Or.inr (down_attemptFailed (hoffline (by rw [hf]; trivial)))
  | reported hf =>
    exact Or.inr (down_attemptFailed (down_connectionClosed (hoffline (by rw [hf]; trivial))))
  | restored hf =>
    rcases hc with ha | hd
    · rw [Ahead, hf] at ha
      rcases List.mem_cons.mp ha with rfl | ha
      · exact absurd hf (hhead rfl _ _)
      · exact Or.inl (ahead_restoreChannels ha)
    · exact Or.inr (down_restoreChannels hd)
  | restoreCancelled => exact absurd rfl hraise
  | transportClosed hf hdead =>
    have ht := h.uses _ (by rw [hf]; rfl)
    refine Or.inr (down_attemptFailed (Or.inr fun callback hc ha => hdead ?_))
    rw [Option.mem_def, closeCallback, ht, Option.bind_some] at hc
    cases callback with
    | idle => exact hc
    | _ => exact ha.elim
  | slept hf =>
    rw [loop, if_neg (fun hn => h.notClosed hn.symm)]
    refine hc.imp (fun ha => ?_) id
    rw [Ahead, hf] at ha
    exact ha
  | died => exact hc.imp id fun hd => hd.set id
  | callbackStarted => exact Or.inr (Or.inl rfl)
  | callbackEnded =>
    refine hc.imp (fun ha => ?_) fun hd => down_connectionClosed (hd.set id)
    rw [connectionClosed, if_neg h.notClosed]
    exact ha.mono rfl fun _ => rfl
  | superClose | gathering => exact absurd rfl ha
  | cancelled hc => exact absurd h.closers hc
  | factoryGathered hc | closeEnded hc | closeRaised hc => exact h.no_closer hc

theorem channels_step (hc : c ∈ s.channels) (ha : a ≠ .collected c) (hs : step s a = some u) :
    c ∈ u.channels := by
  cases step_cases hs with
  | channel => exact List.mem_append_left _ hc
  | collected => exact List.mem_filter.mpr ⟨hc, decide_eq_true fun he => ha (he ▸ rfl)⟩
  | openCancelled | restoreCancelled | transportClosed | cancelled =>
    rw [attemptFailed_channels]
    exact hc
  | reported =>
    rw [attemptFailed_channels, connectionClosed_channels]
    exact hc
  | opened | restored =>
    rw [restoreChannels_channels]
    exact hc
  | callbackEnded =>
    rw [connectionClosed_channels]
    exact hc
  | _ => exact hc

/-- While the factory awaits a restore, everything else leaves it where it is. -/
theorem restoring_step (h : Sound s) (hf : s.factory = .restoring t channels) (ha : a ≠ .close)
    (hr : ∀ exc, a ≠ .restored exc) (hs : step s a = some u) :
    u.factory = .restoring t channels := by
  cases step_cases hs with
  | channel | collected | died | callbackStarted => exact hf
  | callbackEnded =>
    rw [connectionClosed, if_neg h.notClosed]
    exact hf
  | connect hf' | stopped hf' | woken hf' | opened hf' | openCancelled hf' | openRaised hf'
  | reported hf' | failureReported hf' | transportClosed hf' | notified hf' | slept hf' =>
    cases hf.symm.trans hf'
  | restored | restoreCancelled | restoreRaised => exact absurd rfl (hr _)
  | superClose | gathering => exact absurd rfl ha
  | cancelled hc => exact absurd h.closers hc
  | factoryGathered hc | closeEnded hc | closeRaised hc => exact h.no_closer hc

end AioPika.RobustConnection
