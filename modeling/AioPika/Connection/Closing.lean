import AioPika.Connection.Machine

/-! # Closing is final

`close()` cancels the factory, waits for it, and closes the transport. From then
on no factory runs and no transport is opened. The connection is marked as closed
only if it had a transport at that time.
-/

namespace AioPika.RobustConnection

open Transition

def Halted (s : RobustConnection) : Prop := s.factory = .absent ∨ s.factory = .stopped

/-- When a `close()` has returned, the connection is closed, no factory runs, and no transport is
opened any more. -/
def Terminal (s : RobustConnection) : Prop :=
  .returned ∈ s.closers → s.isClosed = true ∧ Halted s ∧
    ∀ as u, Run step (fun _ _ => True) s as u → u.transports.length = s.transports.length

/-- `close()` finds a transport, or the connection closed. -/
def Marked (s : RobustConnection) : Prop := s.transport = none → s.isClosed = true

instance : DecidablePred Marked := fun s =>
  inferInstanceAs (Decidable (s.transport = none → s.isClosed = true))

/-- A `close()` that gets to `super().close()` marks the connection. -/
def Marks (s : RobustConnection) : Action → Prop
  | .close => s.factory = .absent → Marked s
  | .factoryGathered _ => Marked s
  | _ => True

/-- What holds of the calls of `close()`. -/
structure Shut (s : RobustConnection) : Prop where
  idle : s.closeCalled = true → Halted s
  returned : .returned ∈ s.closers → s.closeCalled = true
  closing : ∀ t, .closing t ∈ s.closers → s.closeCalled = true

/-- What only `close()` changes. -/
structure Untouched (s u : RobustConnection) : Prop where
  closeCalled : u.closeCalled = s.closeCalled
  isClosed : u.isClosed = s.isClosed
  closers : u.closers = s.closers

/-- The action is one of `close()`. -/
def Action.Closes : Action → Prop
  | .close | .factoryGathered _ | .closeEnded _ | .closeRaised _ => True
  | _ => False

variable {s u : RobustConnection} {a : Action} {t j : ℕ} {exc : Raised} {channels : List ChannelId}
  {pc : CloserPc}

section Untouched

theorem loop_untouched : Untouched s s.loop := ⟨rfl, rfl, rfl⟩

theorem attemptFailed_untouched : Untouched s (s.attemptFailed exc) := by
  obtain ⟨done, pc, -, h⟩ := s.attemptFailed_eq exc
  rw [h]
  exact ⟨rfl, rfl, rfl⟩

theorem connectionClosed_untouched : Untouched s s.connectionClosed := by
  obtain ⟨event, h⟩ := s.connectionClosed_eq
  rw [h]
  exact ⟨rfl, rfl, rfl⟩

theorem restoreChannels_untouched : Untouched s (s.restoreChannels t channels) := by
  obtain ⟨done, event, attempt, pc, firings, h⟩ := s.restoreChannels_eq t channels
  rw [h]
  exact ⟨rfl, rfl, rfl⟩

theorem step_untouched (hs : step s a = some u) (ha : ¬ a.Closes) : Untouched s u := by
  cases step_cases hs with
  | connect | slept => exact loop_untouched
  | openCancelled | restoreCancelled | transportClosed | cancelled =>
    exact attemptFailed_untouched
  | @reported exc =>
    have h : Untouched s s.connectionClosed := connectionClosed_untouched
    have h' : Untouched s.connectionClosed (s.connectionClosed.attemptFailed exc) :=
      attemptFailed_untouched
    exact ⟨h'.closeCalled.trans h.closeCalled, h'.isClosed.trans h.isClosed,
      h'.closers.trans h.closers⟩
  | opened | restored =>
    exact ⟨restoreChannels_untouched.closeCalled, restoreChannels_untouched.isClosed,
      restoreChannels_untouched.closers⟩
  | callbackEnded =>
    exact ⟨connectionClosed_untouched.closeCalled, connectionClosed_untouched.isClosed,
      connectionClosed_untouched.closers⟩
  | superClose | gathering | factoryGathered | closeEnded | closeRaised => exact absurd trivial ha
  | channel | collected | stopped | woken | openRaised | restoreRaised | failureReported | notified
  | died | callbackStarted => exact ⟨rfl, rfl, rfl⟩

end Untouched

theorem fresh_shut (failFast : Bool) : Shut (fresh failFast) := by
  constructor
  · rintro ⟨⟩
  · rintro ⟨⟩
  · rintro t ⟨⟩

theorem Shut.running (h : Shut s) (ha : s.factory ≠ .absent) (hs : s.factory ≠ .stopped) :
    s.closeCalled = false := by
  by_contra hc
  rcases h.idle ((Bool.not_eq_false _).mp hc) with hf | hf
  · exact ha hf
  · exact hs hf

theorem Shut.untouched (h : Shut s) (hu : Untouched s u) (hi : s.closeCalled = true → Halted u) :
    Shut u := by
  constructor
  · exact fun hc => hi (hu.closeCalled.symm.trans hc)
  · intro hm
    rw [hu.closers] at hm
    exact hu.closeCalled.trans (h.returned hm)
  · intro t hm
    rw [hu.closers] at hm
    exact hu.closeCalled.trans (h.closing t hm)

/-- What a step of a factory that is idle, or was never told to stop, leaves. -/
theorem Shut.idle_step (h : Shut s) (hs : step s a = some u) (hc : s.closeCalled = true) :
    Halted u ∧ u.closeCalled = true ∧ u.transports.length = s.transports.length := by
  have hrun : ∀ {P : Prop}, s.factory ≠ .absent → s.factory ≠ .stopped → P := by
    intro P ha hs
    cases hc.symm.trans (h.running ha hs)
  have hi := h.idle hc
  cases step_cases hs with
  | connect hf ho =>
    refine ⟨Or.inr ?_, hc, rfl⟩
    rw [loop, if_pos (Or.inr hc)]
  | channel | collected => exact ⟨hi, hc, rfl⟩
  | died | callbackStarted => exact ⟨hi, hc, List.length_set⟩
  | callbackEnded =>
    rw [connectionClosed, if_pos (Or.inl hc)]
    exact ⟨hi, hc, List.length_set⟩
  | superClose hf => exact ⟨Or.inl hf, rfl, rfl⟩
  | gathering => exact ⟨hi, hc, rfl⟩
  | cancelled hn hf => exact hrun hf.1 hf.2
  | factoryGathered => exact ⟨Or.inl rfl, rfl, rfl⟩
  | closeEnded | closeRaised => exact ⟨hi, hc, rfl⟩
  | stopped hf | woken hf | opened hf | openCancelled hf | openRaised hf | reported hf | restored hf
  | restoreCancelled hf | restoreRaised hf | failureReported hf | transportClosed hf | notified hf
  | slept hf => exact hrun (by rw [hf]; rintro ⟨⟩) (by rw [hf]; rintro ⟨⟩)

theorem shut_step (h : Shut s) (hs : step s a = some u) : Shut u := by
  by_cases ha : a.Closes
  · cases step_cases hs with
    | superClose hf => exact ⟨fun _ => Or.inl hf, fun _ => rfl, fun _ _ => rfl⟩
    | gathering =>
      refine ⟨h.idle, fun hm => ?_, fun t hm => ?_⟩
      · exact h.returned ((List.mem_append.mp hm).resolve_right (by simp))
      · exact h.closing t ((List.mem_append.mp hm).resolve_right (by simp))
    | factoryGathered => exact ⟨fun _ => Or.inl rfl, fun _ => rfl, fun _ _ => rfl⟩
    | closeEnded hc =>
      have hcalled := h.closing _ (List.mem_of_getElem? hc)
      exact ⟨h.idle, fun _ => hcalled, fun _ _ => hcalled⟩
    | closeRaised =>
      refine ⟨h.idle, fun hm => ?_, fun t hm => ?_⟩
      · exact h.returned ((List.mem_or_eq_of_mem_set hm).resolve_right (by rintro ⟨⟩))
      · exact h.closing t ((List.mem_or_eq_of_mem_set hm).resolve_right (by rintro ⟨⟩))
    | _ => exact ha.elim
  · exact h.untouched (step_untouched hs ha) fun hc => (h.idle_step hs hc).1

theorem Shut.transports_run (h : Shut s) (hc : s.closeCalled = true) {as : List Action}
    (hr : Run step (fun _ _ => True) s as u) : u.transports.length = s.transports.length := by
  induction hr with
  | nil => rfl
  | cons _ hs _ ih =>
    obtain ⟨-, hcalled, hlen⟩ := h.idle_step hs hc
    exact (ih (shut_step h hs) hcalled).trans hlen

theorem terminal_iff (h : Shut s) :
    Terminal s ↔ (.returned ∈ s.closers → s.isClosed = true) := by
  constructor
  · exact fun ht hm => (ht hm).1
  · intro hi hm
    have hc := h.returned hm
    exact ⟨hi hm, h.idle hc, fun as u hr => h.transports_run hc hr⟩

theorem superClose_returned : s.superClose.2 = .returned ↔ s.transport = none := by
  unfold superClose
  cases s.transport with
  | none => simp
  | some t => simp

theorem terminal_step_iff (h : Shut s) (ht : Terminal s) (hs : step s a = some u) :
    Terminal u ↔ Marks s a := by
  rw [terminal_iff h] at ht
  rw [terminal_iff (shut_step h hs)]
  by_cases ha : a.Closes
  · cases step_cases hs with
    | superClose hf =>
      constructor
      · intro hu _ hn
        exact hu (List.mem_append_right _ (by rw [superClose_returned.mpr hn]; simp))
      · intro hm hr
        rcases List.mem_append.mp hr with hr | hr
        · exact ht hr
        · exact hm hf (superClose_returned.mp (List.mem_singleton.mp hr).symm)
    | gathering hf =>
      refine iff_of_true (fun hr => ?_) fun he => absurd he hf
      exact ht ((List.mem_append.mp hr).resolve_right (by simp))
    | @factoryGathered j hc =>
      constructor
      · intro hu hn
        have hlt := (List.getElem?_eq_some_iff.mp hc).1
        refine hu (List.mem_of_getElem? (i := j) ?_)
        exact (List.getElem?_set_self hlt).trans (congrArg some (superClose_returned.mpr hn))
      · intro hm hr
        rcases List.mem_or_eq_of_mem_set hr with hr | hr
        · exact ht hr
        · exact hm (superClose_returned.mp hr.symm)
    | closeEnded => exact iff_of_true (fun _ => rfl) trivial
    | closeRaised =>
      refine iff_of_true (fun hr => ?_) trivial
      exact ht ((List.mem_or_eq_of_mem_set hr).resolve_right (by rintro ⟨⟩))
    | _ => exact ha.elim
  · have hu := step_untouched hs ha
    refine iff_of_true (fun hr => ?_) ?_
    · rw [hu.closers] at hr
      exact hu.isClosed.trans (ht hr)
    · cases a with
      | close | factoryGathered => exact absurd trivial ha
      | _ => trivial

/-- Closing is final exactly when every `close()` finds a transport, or the connection closed. -/
theorem close_terminal_iff {failFast : Bool} {as : List Action} :
    Throughout step Terminal (fresh failFast) as ↔ EachStep step Marks (fresh failFast) as := by
  refine throughout_iff_eachStep (J := Shut) (fun _ _ _ h _ hs _ => shut_step h hs)
    (fun _ _ _ h ht hs => terminal_step_iff h ht hs) (fresh_shut failFast) ?_
  rintro ⟨⟩

/-- The first attempt has failed, and the connection is closed before the next one. -/
def closedBetween : List Action :=
  [.connect, .woken, .openRaised .other, .reported, .close, .cancelled, .factoryGathered 0]

/-- A connection that was never connected, and one without a transport, are not marked as closed. -/
theorem closed_unmarked :
    (∃ s, Run step (fun _ _ => True) (fresh true) [.close] s ∧ ¬ Terminal s) ∧
    ∃ s, Run step (fun _ _ => True) (fresh true) closedBetween s ∧ ¬ Terminal s := by
  constructor
  · refine ⟨_, run_of_checked rfl, fun h => ?_⟩
    cases (h List.mem_cons_self).1
  · refine ⟨_, run_of_checked rfl, fun h => ?_⟩
    cases (h List.mem_cons_self).1

end AioPika.RobustConnection
