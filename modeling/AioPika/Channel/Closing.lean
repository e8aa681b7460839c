import AioPika.Channel.Truthful

/-! # The end of a robust channel

`close()` marks the channel as closed by the user, unless it finds no underlay
channel. Only the close callbacks read the mark: an open in progress takes it back,
and a restore by the connection does not look at it. Without these a closed channel
stays closed.
-/

namespace AioPika.Lifecycle

open Transition

def State.openedCount (s : State) : ℕ := (s.underlays.map Underlay.opened).count true

/-- The coroutine is in `_open` and may get to its end, where `_closed` is reset. -/
def Pc.Opens : Pc → Prop
  | .connecting | .creating _ | .onOpen _ => True
  | _ => False

instance : DecidablePred Pc.Opens
  | .connecting | .creating _ | .onOpen _ => .isTrue trivial
  | .locking | .cleaning _ _ | .reopened | .initialized | .closing _ | .returned | .raised _ =>
    .isFalse id

/-- Nobody is opening the channel. -/
def Unopening (s : State) : Prop := ∀ t ∈ s.tasks, ¬ t.pc.Opens

instance : DecidablePred Unopening := fun s =>
  inferInstanceAs (Decidable (∀ t ∈ s.tasks, ¬ t.pc.Opens))

/-- The coroutine is in `close()`. -/
def Pc.Closing : Pc → Prop
  | .closing _ => True
  | _ => False

instance : DecidablePred Pc.Closing
  | .closing _ => .isTrue trivial
  | .connecting | .creating _ | .locking | .onOpen _ | .cleaning _ _ | .reopened | .initialized
  | .returned | .raised _ => .isFalse id

/-- `close()` is not called while the channel is being opened, nor while it has no underlay channel,
unless it is closed; `reopen()` is not called while it is being closed, and no restore begins to
open a channel that its user has closed. -/
def Guarded (s : State) : Action → Prop
  | .call .close => Unopening s ∧ (s.channel = none → s.closed = true)
  | .call .reopen => ∀ t ∈ s.tasks, ¬ t.pc.Closing
  | .locked _ => s.closed = true → Unopening s → s.restored = true
  | _ => True

instance (s : State) : DecidablePred (Guarded s)
  | .call .close => inferInstanceAs (Decidable (Unopening s ∧ (s.channel = none → s.closed = true)))
  | .call .reopen => inferInstanceAs (Decidable (∀ t ∈ s.tasks, ¬ t.pc.Closing))
  | .locked _ =>
    inferInstanceAs (Decidable (s.closed = true → Unopening s → s.restored = true))
  | .call (.restore _) | .call .initialization | .connected _ | .created _ | .opened _
  | .returned _ | .raised _ _ | .cleaned _ | .closed _ _ | .callbackStarted _
  | .callbackEnded _ => .isTrue trivial

/-- The user has closed the channel, and nobody is opening it. -/
structure Final (s : State) : Prop where
  closed : s.closed = true
  unopening : Unopening s

variable {s t t' : State} {a : Action} {i u v : ℕ} {c : Call} {pc : Pc} {as : List Action}

theorem Unopening.start (h : Unopening s) (hn : ¬ pc.Opens) : Unopening (s.start c pc) := by
  intro task hm
  rcases List.mem_append.mp hm with hm | hm
  · exact h task hm
  · obtain rfl := List.mem_singleton.mp hm
    exact hn

theorem Unopening.setPc (h : Unopening s) (hn : ¬ pc.Opens) : Unopening (s.setPc i c pc) := by
  intro task hm
  rcases List.mem_or_eq_of_mem_set hm with hm | rfl
  · exact h task hm
  · exact hn

theorem Unopening.absurd {p : Prop} (h : Unopening s) (hi : s.tasks[i]? = some ⟨c, pc⟩)
    (ho : pc.Opens) : p :=
  (h _ (List.mem_of_getElem? hi) ho).elim

theorem openedCount_setCallback {callback : OneShotCallback} :
    (s.setCallback v callback).openedCount = s.openedCount := by
  have hmap : (s.setCallback v callback).underlays.map Underlay.opened =
      s.underlays.map Underlay.opened := by
    apply List.ext_getElem?
    intro j
    simp only [State.setCallback, List.getElem?_map, List.getElem?_modify]
    split <;> cases s.underlays[j]? <;> rfl
  rw [State.openedCount, hmap, State.openedCount]

theorem closeCallback_openedCount {exc : Option Raised} :
    (s.closeCallback v exc).openedCount = s.openedCount := by
  rw [State.openedCount, closeCallback_underlays, State.openedCount]

theorem Final.closeCallback {exc : Option Raised} (h : Final s) :
    Final (s.closeCallback v exc) := by
  unfold State.closeCallback
  simp only [h.closed, true_or, if_true, ite_self]
  exact ⟨rfl, h.unopening⟩

theorem final_step (h : Final s) (hg : Guarded s a) (hreopen : a ≠ .call .reopen)
    (hs : step s a = some t) : Final t ∧ t.openedCount = s.openedCount := by
  cases step_cases hs with
  | restore => exact ⟨⟨h.closed, h.unopening.start id⟩, rfl⟩
  | reopen => exact absurd rfl hreopen
  | initialization hc ho => cases h.closed.symm.trans ho
  | close => exact ⟨⟨rfl, Unopening.start (s := { s with closed := true }) h.unopening id⟩, rfl⟩
  | unopened => exact ⟨⟨h.closed, h.unopening.start id⟩, rfl⟩
  | skipped => exact ⟨⟨h.closed, h.unopening.setPc id⟩, rfl⟩
  | locked ht hl hr => cases hr.symm.trans (hg h.closed h.unopening)
  | connected ht | created ht | opened ht | failed ht => exact h.unopening.absurd ht trivial
  | returned => exact ⟨⟨h.closed, h.unopening.setPc id⟩, rfl⟩
  | restored | raised | cleaned =>
    refine ⟨⟨?_, ?_⟩, ?_⟩
    · rw [unlock_closed]
      exact h.closed
    · rw [Unopening, unlock_tasks]
      exact Unopening.setPc h.unopening id
    · rw [State.openedCount, unlock_underlays]
      rfl
  | closed => exact ⟨⟨h.closed, h.unopening⟩, openedCount_setCallback⟩
  | callbackStarted =>
    exact ⟨Final.closeCallback ⟨h.closed, h.unopening⟩,
      closeCallback_openedCount.trans openedCount_setCallback⟩
  | callbackEnded => exact ⟨⟨h.closed, h.unopening⟩, openedCount_setCallback⟩

theorem closing_start (hn : ¬ pc.Closing) (h : ∃ t ∈ (s.start c pc).tasks, t.pc.Closing) :
    ∃ t ∈ s.tasks, t.pc.Closing :=
  Members.exists_of_append hn h

theorem closing_setPc (hn : ¬ pc.Closing) (h : ∃ t ∈ (s.setPc i c pc).tasks, t.pc.Closing) :
    ∃ t ∈ s.tasks, t.pc.Closing :=
  Members.exists_of_set hn h

theorem closing_closeCallback {exc : Option Raised}
    (h : ∃ t ∈ (s.closeCallback v exc).tasks, t.pc.Closing) : ∃ t ∈ s.tasks, t.pc.Closing := by
  rcases closeCallback_cases s v exc with he | he
  · rw [he] at h
    exact h
  · rw [he] at h
    exact closing_start (s := { s with restored := false }) id h

theorem closing_step (hs : step s a = some t) (ha : a ≠ .call .close)
    (h : ∃ task ∈ t.tasks, task.pc.Closing) : ∃ task ∈ s.tasks, task.pc.Closing := by
  cases step_cases hs with
  | restore | reopen | initialization => exact closing_start id h
  | close | unopened => exact absurd rfl ha
  | skipped | locked | connected | created | returned | failed => exact closing_setPc id h
  | opened =>
    refine closing_setPc (fun hc => ?_) h
    split at hc <;> exact hc.elim
  | restored | raised | cleaned =>
    rw [unlock_tasks] at h
    exact closing_setPc id h
  | closed | callbackEnded => exact h
  | callbackStarted => exact closing_closeCallback (s := s.setCallback _ _) h

theorem final_of_closing_step (h : (∃ task ∈ s.tasks, task.pc.Closing) → Final s)
    (hg : Guarded s a) (hs : step s a = some t) :
    (∃ task ∈ t.tasks, task.pc.Closing) → Final t := by
  intro hc
  by_cases hcs : ∃ task ∈ s.tasks, task.pc.Closing
  · have hreopen : a ≠ .call .reopen := by
      rintro rfl
      obtain ⟨task, hm, hc⟩ := hcs
      exact hg task hm hc
    exact (final_step (h hcs) hg hreopen hs).1
  · by_cases ha : a = .call .close
    · subst ha
      cases step_cases hs with
      | close => exact ⟨rfl, Unopening.start (s := { s with closed := true }) hg.1 id⟩
      | unopened => exact absurd (closing_start id hc) hcs
    · exact absurd (closing_step hs ha hc) hcs

theorem Final.isClosed (h : Final s) : s.isClosed = true := by
  unfold State.isClosed
  split
  · rfl
  · rw [h.closed, Bool.true_or]

/-- The steps after the return of `close()`. -/
def StaysClosed (s : State) (a : Action) : Prop := Guarded s a ∧ a ≠ .call .reopen

theorem Initialised.closing (h : Initialised s) :
    (∃ task ∈ s.tasks, task.pc.Closing) → Final s := by
  rintro ⟨task, hm, hc⟩
  have hd := h.tasks task hm
  cases hpc : task.pc <;> rw [hpc] at hd hc <;> first | exact hd.elim | exact hc.elim

/-- A call of `close()` returns in the step; it does at once if there is no underlay channel. -/
def CloseReturns (s : State) : Action → Prop
  | .returned i => ∃ u, s.tasks[i]? = some ⟨.close, .closing u⟩
  | .call .close => s.channel = none
  | _ => False

/-- A guarded `close()` that returns leaves the channel closed for good. -/
theorem final_of_returns (h : (∃ task ∈ s.tasks, task.pc.Closing) → Final s)
    (hc : CloseReturns s a) (hg : Guarded s a) (hs : step s a = some t) : Final t := by
  cases a with
  | returned i =>
    obtain ⟨u, hi⟩ := hc
    have hf : Final s := h ⟨_, List.mem_of_getElem? hi, trivial⟩
    exact (final_step hf hg (by simp) hs).1
  | call c =>
    cases c with
    | close =>
      have hf : Final s := ⟨hg.2 hc, hg.1⟩
      exact (final_step hf hg (by simp) hs).1
    | restore | reopen | initialization => exact hc.elim
  | _ => exact hc.elim

/-- In every run whose steps are guarded, once a call of `close()` has returned the channel is
closed, and no underlay channel is opened, until the user reopens it. -/
theorem close_final (h : Reach Initialised step Guarded s) (hc : CloseReturns s a)
    (hg : Guarded s a) (hs : step s a = some t) (hr : Run step StaysClosed t as t') :
    t'.isClosed = true ∧ t'.openedCount = t.openedCount := by
  have hclosing : (∃ task ∈ s.tasks, task.pc.Closing) → Final s :=
    h.invariant (I := fun s => (∃ task ∈ s.tasks, task.pc.Closing) → Final s)
      (fun _ hi => hi.closing) fun _ _ _ hf hg hs => final_of_closing_step hf hg hs
  have hft : Final t := final_of_returns hclosing hc hg hs
  have hrun : Final t' ∧ t'.openedCount = t.openedCount := by
    refine hr.invariant (I := fun u => Final u ∧ u.openedCount = t.openedCount) ?_ ⟨hft, rfl⟩
    rintro s a u ⟨hf, hn⟩ ⟨hg, hreopen⟩ hs
    obtain ⟨hf', hn'⟩ := final_step hf hg hreopen hs
    exact ⟨hf', hn'.trans hn⟩
  exact ⟨hrun.1.isClosed, hrun.2⟩

def userCloses : List Action :=
  [.call .close, .closed 0 none, .callbackStarted 0, .callbackEnded 0]

/-- The state in which `close()` is about to return. -/
def closing : State :=
  ⟨some 0, true, false, none, [⟨true, .finished⟩],
    [⟨.initialization, .returned⟩, ⟨.close, .closing 0⟩]⟩

/-- The state in which `close()` has returned. -/
def closedByUser : State :=
  ⟨some 0, true, false, none, [⟨true, .finished⟩],
    [⟨.initialization, .returned⟩, ⟨.close, .returned⟩]⟩

/-- A restore is called, and waits for its lock. -/
theorem closed_stays : ∃ s, Run step StaysClosed closedByUser [.call (.restore .connection)] s ∧
    s.isClosed = true ∧ s.openedCount = closedByUser.openedCount := by
  have h : Reach Initialised step Guarded closing :=
    Reach.of_checked userCloses initialised_initialised rfl
  have hs : step closing (.returned 1) = some closedByUser := rfl
  have hr : Run step StaysClosed closedByUser [.call (.restore .connection)]
      (closedByUser.start (.restore .connection) .locking) :=
    .cons ⟨trivial, by simp⟩ rfl (.nil _)
  exact ⟨_, hr, close_final (a := .returned 1) h ⟨0, rfl⟩ trivial hs hr⟩

/-- After a reconnection the connection restores the channel that its user has closed. -/
def connectionRestores : List Action :=
  [.call (.restore .connection), .locked 2, .connected 2, .created 2, .opened 2, .returned 2]

/-- The closed channel is open again, on a new underlay channel. -/
theorem restored_after_close : ∃ s, Reach Initialised step (fun _ _ => True) closing ∧
    step closing (.returned 1) = some closedByUser ∧
    Run step (fun _ a => a ≠ .call .reopen) closedByUser connectionRestores s ∧
    s.isClosed = false ∧ s.openedCount = closedByUser.openedCount + 1 :=
  ⟨_, Reach.of_checked userCloses initialised_initialised rfl, rfl, run_of_checked rfl, rfl, rfl⟩

/-- A `close()` after a failed restore finds no underlay channel, and the next restore opens one. -/
example : (checked step (fun _ _ => True) initialised
    [.closed 0 none, .callbackStarted 0, .locked 1, .connected 1, .created 1, .raised 1 .other,
      .closed 1 none, .callbackStarted 1, .callbackEnded 1, .cleaned 1, .callbackEnded 0,
      .call .close, .call (.restore .connection), .locked 3, .connected 3, .created 3,
      .opened 3]).map State.isClosed = some false := rfl

end AioPika.Lifecycle
