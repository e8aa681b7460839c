import AioPika.Foundation.Members
import AioPika.Queue.Iterator

/-! # Waiting on a dead consumer

`__anext__` waits for a message in the buffer, and nothing else wakes it: neither
`close()`, which drops the tag and empties the buffer, nor the end of the channel,
whose close callback finds the channel closed and returns. Who waits then is only
served from what is left in the buffer.
-/

namespace AioPika.QueueIterator

namespace State

variable (s : State)

/-- The tag is dropped, or the channel is closed. -/
def Gone : Prop := s.consumerTag = none ∨ s.channelClosed = true

instance : Decidable s.Gone :=
  inferInstanceAs (Decidable (s.consumerTag = none ∨ s.channelClosed = true))

/-- How many calls of `__anext__` are suspended on the buffer. -/
def waiting : ℕ := s.calls.count .getting

end State

/-- The call is in `close()`. -/
def Pc.Closing : Pc → Prop
  | .cancelling _ | .nacking _ _ => True
  | _ => False

instance : DecidablePred Pc.Closing
  | .cancelling _ | .nacking _ _ => .isTrue trivial
  | .entered | .returned _ | .raised | .closed _ | .getting | .consuming _ _ => .isFalse id

/-- `__anext__` is suspended on the empty buffer of a consumer that is gone, and nothing is on its
way to the buffer. -/
structure Stranded (s : State) : Prop where
  gone : s.Gone
  waits : .getting ∈ s.calls
  inFlight : s.inFlight = []
  closing : ∀ pc ∈ s.calls, ¬ pc.Closing
  queue : s.queue = []

/-- The consumer is started for `__anext__`. -/
def Pc.ForNext : Pc → Prop
  | .consuming _ next => next = true
  | _ => False

instance : DecidablePred Pc.ForNext
  | .consuming _ next => inferInstanceAs (Decidable (next = true))
  | .entered | .returned _ | .raised | .closed _ | .getting | .cancelling _ | .nacking _ _ =>
    .isFalse id

/-- When a consumer goes, and when a call begins to wait on a closed channel, the buffer has a
message for each call that waits then; nobody waits while `close()` empties the buffer. -/
def Supplied (s : State) : Action → Prop
  | .next => s.consumerTag ≠ none → s.channelClosed = true → s.waiting < s.queue.length
  | .consumed i =>
    (∃ pc ∈ s.calls[i]?, pc.ForNext) → s.channelClosed = true → s.waiting < s.queue.length
  | .cancelled i => s.calls[i]? = some .getting → ¬ s.Gone → s.waiting ≤ s.queue.length + 1
  | .close => ¬ s.Gone → s.waiting ≤ s.queue.length
  | .channelClosed => s.waiting ≤ s.queue.length
  | .resumed _ | .sent _ => s.Gone → s.waiting = 0
  | _ => True

instance (s : State) : DecidablePred (Supplied s)
  | .next => inferInstanceAs
      (Decidable (s.consumerTag ≠ none → s.channelClosed = true → s.waiting < s.queue.length))
  | .consumed i => inferInstanceAs (Decidable
      ((∃ pc ∈ s.calls[i]?, pc.ForNext) → s.channelClosed = true → s.waiting < s.queue.length))
  | .cancelled i => inferInstanceAs (Decidable
      (s.calls[i]? = some .getting → ¬ s.Gone → s.waiting ≤ s.queue.length + 1))
  | .close => inferInstanceAs (Decidable (¬ s.Gone → s.waiting ≤ s.queue.length))
  | .channelClosed => inferInstanceAs (Decidable (s.waiting ≤ s.queue.length))
  | .resumed _ | .sent _ => inferInstanceAs (Decidable (s.Gone → s.waiting = 0))
  | .enter | .consume | .deliver _ | .onMessage _ | .got _ | .timedOut _ | .cancelOk _ =>
    .isTrue trivial

/-- Whoever waits on a consumer that is gone has a message in the buffer. -/
def Fed (s : State) : Prop := s.Gone → s.waiting ≤ s.queue.length

variable {noAck : Bool} {s t : State} {a : Action} {i c : ℕ} {pc pc' : Pc}

theorem waiting_set (hi : s.calls[i]? = some pc) (hcalls : t.calls = s.calls.set i pc') :
    t.waiting + (if pc = .getting then 1 else 0) =
      s.waiting + if pc' = .getting then 1 else 0 := by
  rw [State.waiting, hcalls]
  exact Members.count_set hi

theorem waiting_append (hcalls : t.calls = s.calls ++ [pc]) :
    t.waiting = s.waiting + if pc = .getting then 1 else 0 := by
  rw [State.waiting, hcalls]
  exact Members.count_append_singleton

theorem waiting_start (hcalls : t.calls = s.calls ++ [pc]) (hp : pc ≠ .getting) :
    t.waiting = s.waiting := by
  rw [waiting_append hcalls, if_neg hp, Nat.add_zero]

theorem Fed.of_le (h : Fed s) (hg : t.Gone → s.Gone) (hw : t.waiting ≤ s.waiting)
    (hq : s.queue.length ≤ t.queue.length) : Fed t := by
  intro hgone
  have hle := h (hg hgone)
  omega

theorem Fed.consume (h : Fed s) (next : Bool) : Fed (s.consume next) :=
  h.of_le id (Nat.le_of_eq (waiting_start rfl nofun)) (Nat.le_refl _)

theorem Fed.enter (h : Fed s) {next : Bool}
    (hn : next = true → s.consumerTag ≠ none → s.channelClosed = true →
      s.waiting < s.queue.length) : Fed (s.enter next) := by
  unfold State.enter
  split
  · exact h.consume next
  · rename_i d ht
    have hne : s.consumerTag ≠ none := by
      rw [ht]
      exact Option.some_ne_none d
    cases next with
    | true =>
      intro hg
      have hlt := hn rfl hne (hg.resolve_left hne)
      have hw : (s.start .getting).waiting = s.waiting + if Pc.getting = .getting then 1 else 0 :=
        waiting_append rfl
      simp only [if_true] at hw
      exact hw.trans_le hlt
    | false => exact h.of_le id (Nat.le_of_eq (waiting_start rfl nofun)) (Nat.le_refl _)

theorem Fed.close (hs : Fed s) (h : ¬ s.Gone → s.waiting ≤ s.queue.length) : Fed s.close := by
  unfold State.close
  split
  · exact hs
  · rename_i d ht
    split
    · exact hs
    · rename_i hc
      have hg : ¬ s.Gone := by
        rintro (hg | hg)
        · rw [ht] at hg
          cases hg
        · exact hc hg
      split
      · have hw : State.waiting (State.start { s with consumerTag := none, registered := false }
            (.cancelling d)) = s.waiting := waiting_start rfl nofun
        exact fun _ => hw.trans_le (h hg)
      · have hw : State.waiting (State.start { s with consumerTag := none } .raised) = s.waiting :=
          waiting_start rfl nofun
        exact fun _ => hw.trans_le (h hg)

theorem Fed.drain (hi : s.calls[i]? = some pc) (hp : pc ≠ .getting)
    (h : s.Gone → s.waiting = 0) : Fed (s.drain noAck i c) := by
  have hnone {t : State} {pc' : Pc} (hgone : t.Gone ↔ s.Gone)
      (hcalls : t.calls = s.calls.set i pc') (hp' : pc' ≠ .getting) : Fed t := by
    intro hg
    have hw := waiting_set hi hcalls
    have hz := h (hgone.mp hg)
    simp only [hp, hp', if_false] at hw
    omega
  unfold State.drain
  split
  · exact hnone Iff.rfl rfl nofun
  · split
    · exact hnone Iff.rfl rfl nofun
    · exact hnone Iff.rfl rfl nofun

theorem fed_step (h : Fed s) (ha : Supplied s a) (hs : step noAck s a = some t) : Fed t := by
  cases step_cases hs with
  | next => exact h.enter fun _ => ha
  | enter => exact h.enter nofun
  | consume => exact h.consume false
  | @consumed i c next hi =>
    intro hg
    have hc : s.channelClosed = true := hg.resolve_left (Option.some_ne_none c)
    have hle := h (Or.inr hc)
    cases next with
    | true =>
      have hlt := ha ⟨_, hi, rfl⟩ hc
      have hw : State.waiting (State.setPc { s with consumerTag := some c } i .getting) + _ = _ :=
        waiting_set hi rfl
      simp only [reduceCtorEq, if_false, if_true] at hw
      exact hw.trans_le hlt
    | false =>
      have hw : State.waiting (State.setPc { s with consumerTag := some c } i .entered) + _ = _ :=
        waiting_set hi rfl
      simp only [reduceCtorEq, if_false] at hw
      exact hw.trans_le hle
  | deliver => exact h.of_le id (Nat.le_refl _) (Nat.le_refl _)
  | onMessage => exact h.of_le id (Nat.le_refl _) (by simp)
  | @got i m queue hi hq =>
    intro hg
    have hle := h hg
    have hw : State.waiting (State.setPc { s with queue := queue } i (.returned m)) + _ = _ :=
      waiting_set hi rfl
    rw [hq, List.length_cons] at hle
    simp only [reduceCtorEq, if_false, if_true] at hw
    simp only [State.setPc_queue]
    omega
  | @timedOut i hi =>
    have hw : (s.setPc i .raised).waiting + _ = _ := waiting_set hi rfl
    simp only [reduceCtorEq, if_false, if_true] at hw
    exact h.of_le id (by omega) (Nat.le_refl _)
  | @cancelled i hi =>
    have hw : (s.setPc i .raised).waiting + _ = _ := waiting_set hi rfl
    simp only [reduceCtorEq, if_false, if_true] at hw
    have hraised : Fed (s.setPc i .raised) := h.of_le id (by omega) (Nat.le_refl _)
    refine hraised.close fun hg => ?_
    have hle := ha hi hg
    simp only [State.setPc_queue]
    omega
  | @interrupted i pc hi hp =>
    have hw : (s.setPc i .raised).waiting + _ = _ := waiting_set hi rfl
    have hne : pc ≠ .getting := by
      rintro rfl
      exact hp
    simp only [hne, reduceCtorEq, if_false] at hw
    exact h.of_le id (by omega) (Nat.le_refl _)
  | close => exact h.close ha
  | cancelOk => exact h.of_le id (Nat.le_refl _) (Nat.le_refl _)
  | resumed hi => exact Fed.drain hi nofun ha
  | sent hi => exact Fed.drain hi nofun ha
  | channelClosed => exact fun _ => ha

/-- In every run in which the buffer has something for everybody who waits when the consumer goes,
nobody is left waiting. -/
theorem nobody_stranded (hr : Transition.Reach (· = fresh) (step noAck) Supplied s) :
    ¬ Stranded s := by
  have h : Fed s := by
    refine hr.invariant (fun s hs => ?_) fun s a t hi ha hst => fed_step hi ha hst
    rw [hs]
    exact fun _ => Nat.zero_le _
  intro hs
  have hle := h hs.gone
  have hpos : 0 < s.waiting := List.count_pos_iff.mpr hs.waits
  rw [hs.queue, List.length_nil] at hle
  omega

/-- One message reaches the buffer, and the iterator is closed before the call that waits for it
goes on. -/
def closedWithMessage : List Action :=
  [.next, .consumed 0, .deliver 0, .onMessage 0, .close, .got 0, .cancelOk 0, .resumed 1]

theorem served_before_closing : ∃ s, Transition.Reach (· = fresh) (step false) Supplied s ∧
    s.calls = [.returned 0, .closed 0] ∧ ¬ Stranded s := by
  have hr : Transition.Reach (· = fresh) (step false) Supplied
      ⟨none, false, false, [false], [0], [], [], [], [], [.returned 0, .closed 0]⟩ :=
    Transition.Reach.of_checked closedWithMessage rfl rfl
  exact ⟨_, hr, rfl, nobody_stranded hr⟩

def closedWhileWaiting : List Action :=
  [.next, .consumed 0, .close, .cancelOk 0, .resumed 1]

/-- The channel is closed while a call waits; its close callback calls `close()`. -/
def lostWhileWaiting : List Action :=
  [.next, .consumed 0, .channelClosed, .close]

/-- Both leave the call waiting for good. -/
theorem left_waiting :
    (∃ s, Transition.Reach (· = fresh) (step false) (fun _ _ => True) s ∧ Stranded s ∧
      s.calls = [.getting, .closed 0]) ∧
    ∃ s, Transition.Reach (· = fresh) (step false) (fun _ _ => True) s ∧ Stranded s ∧
      s.channelClosed = true :=
  ⟨⟨_, Transition.Reach.of_checked closedWhileWaiting rfl rfl,
      ⟨Or.inl rfl, by decide, rfl, by decide, rfl⟩, rfl⟩,
    _, Transition.Reach.of_checked lostWhileWaiting rfl rfl,
      ⟨Or.inr rfl, by decide, rfl, by decide, rfl⟩, rfl⟩

end AioPika.QueueIterator
