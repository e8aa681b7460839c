import AioPika.Foundation.Members
import AioPika.Queue.Iterator

/-! # The consumer of an iterator

The iterator names its consumer by `_consumer_tag`, which is tested before a
consumer is started and set when the broker has answered; `close()` deletes it
before it takes its own callback from the queue, and before it cancels the
consumer. As long as one consumer is started at a time, and a single `close()`
has something to cancel, the tag names the consumer that is alive.
-/

namespace AioPika.QueueIterator

def Pc.Done : Pc → Prop
  | .entered | .returned _ | .raised | .closed _ => True
  | .consuming _ _ | .getting | .cancelling _ | .nacking _ _ => False

instance : DecidablePred Pc.Done
  | .entered | .returned _ | .raised | .closed _ => .isTrue trivial
  | .consuming _ _ | .getting | .cancelling _ | .nacking _ _ => .isFalse id

/-- No operation of the iterator is in progress. -/
def Idle (s : State) : Prop := ∀ pc ∈ s.calls, pc.Done

instance : DecidablePred Idle := fun s => inferInstanceAs (Decidable (∀ pc ∈ s.calls, pc.Done))

/-- The consumers that were started and not cancelled. -/
def State.live (s : State) : List ℕ :=
  (List.range s.consumers.length).filter fun c => s.consumers[c]? = some true

def Pc.Consuming : Pc → Prop
  | .consuming _ _ => True
  | _ => False

instance : DecidablePred Pc.Consuming
  | .consuming _ _ => .isTrue trivial
  | .entered | .returned _ | .raised | .closed _ | .getting | .cancelling _ | .nacking _ _ =>
    .isFalse id

/-- The channel stays open, and the broker ends a consumer when it is asked to. -/
def Served (s : State) : Action → Prop
  | .cancelOk c => .cancelling c ∈ s.calls
  | .channelClosed => False
  | _ => True

instance (s : State) : DecidablePred (Served s)
  | .cancelOk c => inferInstanceAs (Decidable (.cancelling c ∈ s.calls))
  | .channelClosed => .isFalse id
  | .next | .enter | .consume | .consumed _ | .deliver _ | .onMessage _ | .got _ | .timedOut _
  | .cancelled _ | .close | .resumed _ | .sent _ => .isTrue trivial

/-- A consumer is started when there is none and no other one is being started, a `close()` that
has something to cancel is the first one that has, and neither the start nor the cancel of a
consumer is interrupted. -/
def Orderly (s : State) : Action → Prop
  | .next | .enter => s.consumerTag = none → ∀ pc ∈ s.calls, ¬ pc.Consuming
  | .consume => s.consumerTag = none ∧ ∀ pc ∈ s.calls, ¬ pc.Consuming
  | .close => s.consumerTag ≠ none → s.registered = true
  | .cancelled i =>
    match s.calls[i]? with
    | some (.consuming _ _) | some (.cancelling _) => False
    | some .getting => s.consumerTag ≠ none → s.registered = true
    | _ => True
  | _ => True

instance (s : State) : DecidablePred (Orderly s)
  | .next | .enter =>
    inferInstanceAs (Decidable (s.consumerTag = none → ∀ pc ∈ s.calls, ¬ pc.Consuming))
  | .consume => inferInstanceAs (Decidable (s.consumerTag = none ∧ ∀ pc ∈ s.calls, ¬ pc.Consuming))
  | .close => inferInstanceAs (Decidable (s.consumerTag ≠ none → s.registered = true))
  | .cancelled i =>
    match h : s.calls[i]? with
    | some (.consuming _ _) | some (.cancelling _) => .isFalse (by rw [Orderly, h]; exact id)
    | some .getting =>
      decidable_of_iff (s.consumerTag ≠ none → s.registered = true) (by rw [Orderly, h])
    | none | some .entered | some (.returned _) | some .raised | some (.nacking _ _)
    | some (.closed _) => .isTrue (by rw [Orderly, h]; trivial)
  | .consumed _ | .deliver _ | .onMessage _ | .got _ | .timedOut _ | .cancelOk _ | .resumed _
  | .sent _ | .channelClosed => .isTrue trivial

def Pc.Names (c : ℕ) : Pc → Prop
  | .consuming d _ | .cancelling d => d = c
  | _ => False

/-- Who answers for a consumer: the tag, or the call that starts or cancels it. -/
structure Tracking (s : State) : Prop where
  channel : s.channelClosed = false
  live : ∀ c, s.consumers[c]? = some true →
    s.consumerTag = some c ∨ ∃ pc ∈ s.calls, pc.Names c
  tag : ∀ c, s.consumerTag = some c → s.consumers[c]? = some true ∧ .cancelling c ∉ s.calls
  consuming : ∀ c next, .consuming c next ∈ s.calls →
    s.consumerTag = none ∧ s.consumers[c]? = some true ∧ .cancelling c ∉ s.calls
  one : ∀ (i j : ℕ) (pc pc' : Pc), s.calls[i]? = some pc → s.calls[j]? = some pc' →
    pc.Consuming → pc'.Consuming → i = j
  bound : ∀ c, .cancelling c ∈ s.calls → c < s.consumers.length

variable {noAck : Bool} {s t : State} {a : Action} {i c : ℕ} {pc pc' : Pc}

theorem fresh_tracking : Tracking fresh := by
  constructor
  · rfl
  · intro c hc
    cases hc
  · intro c hc
    cases hc
  · intro c next hm
    cases hm
  · intro i j pc pc' hi
    cases hi
  · intro c hm
    cases hm

section Calls

theorem Tracking.move (h : Tracking s) (hi : s.calls[i]? = some pc)
    (hcalls : t.calls = s.calls.set i pc') (hchannel : t.channelClosed = s.channelClosed)
    (hcons : t.consumers = s.consumers) (htag : t.consumerTag = s.consumerTag)
    (hpc : ∀ c, pc.Names c → s.consumers[c]? ≠ some true) (hpc' : ∀ c, ¬ pc'.Names c) :
    Tracking t := by
  have hold : ∀ {q : Pc} {d : ℕ}, q ∈ t.calls → q.Names d → q ∈ s.calls := by
    intro q d hq hn
    rw [hcalls] at hq
    rcases List.mem_or_eq_of_mem_set hq with hq | rfl
    · exact hq
    · exact absurd hn (hpc' d)
  constructor
  · exact hchannel.trans h.channel
  · intro d hd
    rw [hcons] at hd
    rw [htag, hcalls]
    exact (h.live d hd).imp_right fun hn => Members.exists_set hn hi fun hp => absurd hd (hpc d hp)
  · intro d hd
    rw [htag] at hd
    obtain ⟨hl, hn⟩ := h.tag d hd
    exact ⟨hcons ▸ hl, fun hm => hn (hold hm rfl)⟩
  · intro d next hm
    obtain ⟨ht, hl, hn⟩ := h.consuming d next (hold hm rfl)
    exact ⟨htag.trans ht, hcons ▸ hl, fun hm => hn (hold hm rfl)⟩
  · intro j k q q' hj hk hq hq'
    rw [hcalls] at hj hk
    rcases Members.of_set hj with ⟨rfl, rfl⟩ | ⟨-, hj⟩
    · cases q with
      | consuming d next => exact absurd rfl (hpc' d)
      | _ => exact hq.elim
    · rcases Members.of_set hk with ⟨rfl, rfl⟩ | ⟨-, hk⟩
      · cases q' with
        | consuming d next => exact absurd rfl (hpc' d)
        | _ => exact hq'.elim
      · exact h.one j k q q' hj hk hq hq'
  · intro d hm
    rw [hcons]
    exact h.bound d (hold hm rfl)

theorem Tracking.start (h : Tracking s) (hpc : ∀ c, ¬ pc.Names c) : Tracking (s.start pc) := by
  have hold : ∀ {q : Pc} {d : ℕ}, q ∈ s.calls ++ [pc] → q.Names d → q ∈ s.calls := by
    intro q d hq hn
    rcases List.mem_append.mp hq with hq | hq
    · exact hq
    · obtain rfl := List.mem_singleton.mp hq
      exact absurd hn (hpc d)
  constructor
  · exact h.channel
  · intro d hd
    exact (h.live d hd).imp_right Members.exists_append
  · intro d hd
    exact ⟨(h.tag d hd).1, fun hm => (h.tag d hd).2 (hold hm rfl)⟩
  · intro d next hm
    obtain ⟨ht, hl, hn⟩ := h.consuming d next (hold hm rfl)
    exact ⟨ht, hl, fun hm => hn (hold hm rfl)⟩
  · intro j k q q' hj hk hq hq'
    have hne : ∀ {q : Pc}, q.Consuming → q ≠ pc := by
      rintro q hq rfl
      cases q with
      | consuming d next => exact hpc d rfl
      | _ => exact hq.elim
    rcases Members.of_append hj with hj | ⟨-, rfl⟩
    · rcases Members.of_append hk with hk | ⟨-, rfl⟩
      · exact h.one j k q q' hj hk hq hq'
      · exact absurd rfl (hne hq')
    · exact absurd rfl (hne hq)
  · intro d hm
    exact h.bound d (hold hm rfl)

theorem Tracking.consume (h : Tracking s) (ht : s.consumerTag = none)
    (hn : ∀ pc ∈ s.calls, ¬ pc.Consuming) (next : Bool) : Tracking (s.consume next) := by
  have hlt : ∀ {d : ℕ}, .cancelling d ∈ s.calls ++ [.consuming s.consumers.length next] →
      d < s.consumers.length := by
    intro d hm
    rcases List.mem_append.mp hm with hm | hm
    · exact h.bound d hm
    · cases List.mem_singleton.mp hm
  constructor
  · exact h.channel
  · intro d hd
    rcases Members.of_append hd with hd | ⟨rfl, -⟩
    · exact (h.live d hd).imp_right Members.exists_append
    · exact Or.inr ⟨_, List.mem_append_right _ List.mem_cons_self, rfl⟩
  · intro d hd
    cases ht.symm.trans hd
  · intro d m hm
    rcases List.mem_append.mp hm with hm | hm
    · exact absurd trivial (hn _ hm)
    · obtain ⟨rfl, -⟩ := Pc.consuming.inj (List.mem_singleton.mp hm)
      refine ⟨ht, List.getElem?_concat_length, fun hc => ?_⟩
      exact absurd (hlt hc) (Nat.lt_irrefl _)
  · intro j k q q' hj hk hq hq'
    rcases Members.of_append hj with hj | ⟨hj, -⟩
    · exact absurd hq (hn q (List.mem_of_getElem? hj))
    · rcases Members.of_append hk with hk | ⟨hk, -⟩
      · exact absurd hq' (hn q' (List.mem_of_getElem? hk))
      · exact hj.trans hk.symm
  · intro d hm
    have hd := hlt hm
    have hlen : (s.consume next).consumers.length = s.consumers.length + 1 := List.length_append
    omega

theorem Tracking.enter (h : Tracking s)
    (ho : s.consumerTag = none → ∀ pc ∈ s.calls, ¬ pc.Consuming) (next : Bool) :
    Tracking (s.enter next) := by
  unfold State.enter
  split
  · rename_i ht
    exact h.consume ht (ho ht) next
  · cases next <;> exact h.start fun _ hn => hn

theorem Tracking.consumed (h : Tracking s) {next : Bool}
    (hi : s.calls[i]? = some (.consuming c next)) (hpc : ∀ c, ¬ pc.Names c) :
    Tracking (State.setPc { s with consumerTag := some c } i pc) := by
  obtain ⟨ht, hl, hn⟩ := h.consuming c next (List.mem_of_getElem? hi)
  have hcancel : ∀ {d : ℕ}, .cancelling d ∈ s.calls.set i pc → .cancelling d ∈ s.calls := by
    intro d hm
    rcases List.mem_or_eq_of_mem_set hm with hm | rfl
    · exact hm
    · exact absurd rfl (hpc d)
  -- no other consumer is being started
  have hnone : ∀ (j : ℕ) (q : Pc), (s.calls.set i pc)[j]? = some q → ¬ q.Consuming := by
    intro j q hj hq
    rcases Members.of_set hj with ⟨-, rfl⟩ | ⟨hne, hj⟩
    · cases q with
      | consuming d m => exact hpc d rfl
      | _ => exact hq
    · exact hne (h.one j i q _ hj hi hq trivial)
  constructor
  · exact h.channel
  · intro d hd
    rcases h.live d hd with htag | ⟨q, hq, hname⟩
    · cases ht.symm.trans htag
    · obtain ⟨j, hj⟩ := List.getElem?_of_mem hq
      by_cases hji : i = j
      · subst hji
        obtain rfl := Option.some.inj (hi.symm.trans hj)
        obtain rfl : c = d := hname
        exact Or.inl rfl
      · exact Or.inr ⟨q, List.mem_of_getElem? ((List.getElem?_set_ne hji).trans hj), hname⟩
  · intro d hd
    obtain rfl := Option.some.inj hd
    exact ⟨hl, fun hm => hn (hcancel hm)⟩
  · intro d m hm
    obtain ⟨j, hj⟩ := List.getElem?_of_mem hm
    exact absurd trivial (hnone j _ hj)
  · intro j k q q' hj _ hq
    exact absurd hq (hnone j q hj)
  · intro d hm
    exact h.bound d (hcancel hm)

theorem Tracking.close (h : Tracking s) (hr : s.consumerTag ≠ none → s.registered = true) :
    Tracking s.close := by
  unfold State.close
  split
  · exact h
  · rename_i d ht
    have hne : s.consumerTag ≠ none := by
      rw [ht]
      exact Option.some_ne_none d
    rw [if_neg (by simp [h.channel]), if_pos (hr hne)]
    obtain ⟨hl, hn⟩ := h.tag d ht
    have hconsuming : ∀ c next, .consuming c next ∉ s.calls := by
      intro c next hm
      exact hne (h.consuming c next hm).1
    constructor
    · exact h.channel
    · intro e he
      rcases h.live e he with htag | hname
      · obtain rfl := Option.some.inj (ht.symm.trans htag)
        exact Or.inr ⟨_, List.mem_append_right _ List.mem_cons_self, rfl⟩
      · exact Or.inr (Members.exists_append hname)
    · intro e he
      cases he
    · intro e next hm
      rcases List.mem_append.mp hm with hm | hm
      · exact absurd hm (hconsuming e next)
      · cases List.mem_singleton.mp hm
    · intro j k q q' hj _ hq
      rcases Members.of_append hj with hj | ⟨-, rfl⟩
      · cases q with
        | consuming e next => exact absurd (List.mem_of_getElem? hj) (hconsuming e next)
        | _ => exact hq.elim
      · exact hq.elim
    · intro e hm
      rcases List.mem_append.mp hm with hm | hm
      · exact h.bound e hm
      · obtain rfl := Pc.cancelling.inj (List.mem_singleton.mp hm)
        exact (List.getElem?_eq_some_iff.mp hl).1

theorem Tracking.cancelOk (h : Tracking s) (hc : .cancelling c ∈ s.calls) :
    Tracking { s with consumers := s.consumers.set c false } := by
  have hkeep : ∀ {d : ℕ}, s.consumers[d]? = some true → .cancelling d ∉ s.calls →
      (s.consumers.set c false)[d]? = some true := by
    intro d hd hn
    have hne : c ≠ d := by
      rintro rfl
      exact hn hc
    exact (List.getElem?_set_ne hne).trans hd
  constructor
  · exact h.channel
  · intro d hd
    rcases Members.of_set hd with ⟨-, hd⟩ | ⟨-, hd⟩
    · cases hd
    · exact h.live d hd
  · intro d hd
    exact ⟨hkeep (h.tag d hd).1 (h.tag d hd).2, (h.tag d hd).2⟩
  · intro d next hm
    obtain ⟨ht, hl, hn⟩ := h.consuming d next hm
    exact ⟨ht, hkeep hl hn, hn⟩
  · exact h.one
  · intro d hm
    rw [List.length_set]
    exact h.bound d hm

theorem Tracking.drain (h : Tracking s) (hi : s.calls[i]? = some pc)
    (hpc : ∀ c, pc.Names c → s.consumers[c]? ≠ some true) : Tracking (s.drain noAck i c) := by
  unfold State.drain
  split
  · exact h.move hi rfl rfl rfl rfl hpc fun _ hn => hn
  · split
    · exact h.move hi rfl rfl rfl rfl hpc fun _ hn => hn
    · exact h.move hi rfl rfl rfl rfl hpc fun _ hn => hn

end Calls

theorem tracking_step (h : Tracking s) (hv : Served s a) (ho : Orderly s a)
    (hs : step noAck s a = some t) : Tracking t := by
  cases step_cases hs with
  | next => exact h.enter ho true
  | enter => exact h.enter ho false
  | consume => exact h.consume ho.1 ho.2 false
  | @consumed i c next hi =>
    refine h.consumed hi fun d hn => ?_
    cases next <;> exact hn
  | deliver => exact ⟨h.channel, h.live, h.tag, h.consuming, h.one, h.bound⟩
  | onMessage => exact ⟨h.channel, h.live, h.tag, h.consuming, h.one, h.bound⟩
  | got hi => exact h.move hi rfl rfl rfl rfl (fun _ hn => hn.elim) fun _ hn => hn
  | timedOut hi => exact h.move hi rfl rfl rfl rfl (fun _ hn => hn.elim) fun _ hn => hn
  | @cancelled i hi =>
    simp only [Orderly, hi] at ho
    have hraised : Tracking (s.setPc i .raised) :=
      h.move hi rfl rfl rfl rfl (fun _ hn => hn.elim) fun _ hn => hn
    exact hraised.close ho
  | @interrupted i pc hi hp =>
    simp only [Orderly, hi] at ho
    cases pc with
    | nacking => exact h.move hi rfl rfl rfl rfl (fun _ hn => hn.elim) fun _ hn => hn
    | consuming | cancelling => exact ho.elim
    | _ => exact hp.elim
  | close => exact h.close ho
  | cancelOk => exact h.cancelOk hv
  | @resumed i c hi hc =>
    refine h.drain hi fun d hn => ?_
    obtain rfl : c = d := hn
    rw [hc]
    simp
  | sent hi => exact h.drain hi fun _ hn => hn.elim
  | channelClosed => exact hv.elim

theorem Tracking.live_eq (h : Tracking s) (hd : Idle s) : s.live = s.consumerTag.toList := by
  have hiff : ∀ c, s.consumers[c]? = some true ↔ s.consumerTag = some c := by
    intro c
    constructor
    · intro hc
      rcases h.live c hc with ht | ⟨pc, hm, hn⟩
      · exact ht
      · have hdone := hd pc hm
        cases pc with
        | consuming | cancelling => exact hdone.elim
        | _ => exact hn.elim
    · exact fun ht => (h.tag c ht).1
  unfold State.live
  simp only [hiff]
  cases ht : s.consumerTag with
  | none => simp
  | some d =>
    have hlt : d < s.consumers.length := (List.getElem?_eq_some_iff.mp (h.tag d ht).1).1
    have hone : (List.range s.consumers.length).count d = 1 :=
      List.count_eq_one_of_mem List.nodup_range (List.mem_range.mpr hlt)
    rw [Option.toList_some]
    simp only [Option.some.injEq, eq_comm (a := d)]
    rw [List.filter_eq, hone]
    rfl

/-- Whenever the iterator is at rest, its tag names the consumer that is alive, and there is no
other one. -/
theorem tag_tracks_consumer
    (hr : Transition.Reach (· = fresh) (step noAck) (fun s a => Served s a ∧ Orderly s a) s)
    (hd : Idle s) : s.live = s.consumerTag.toList := by
  have h : Tracking s := by
    refine hr.invariant (fun s hs => ?_) fun s a t hi ha hs => tracking_step hi ha.1 ha.2 hs
    rw [hs]
    exact fresh_tracking
  exact h.live_eq hd

def enteredAgain : List Action :=
  [.enter, .consumed 0, .close, .cancelOk 0, .resumed 1, .enter, .consumed 2]

def aliveAgain : State := ⟨some 1, false, false, [false, true], [], [], [], [], [],
  [.entered, .closed 0, .entered]⟩

theorem alive_again :
    Transition.Reach (· = fresh) (step false) (fun s a => Served s a ∧ Orderly s a) aliveAgain ∧
    Idle aliveAgain ∧ aliveAgain.live = aliveAgain.consumerTag.toList := by
  have hr : Transition.Reach (· = fresh) (step false) (fun s a => Served s a ∧ Orderly s a)
      aliveAgain := Transition.Reach.of_checked enteredAgain rfl rfl
  have hd : Idle aliveAgain := by decide
  exact ⟨hr, hd, tag_tracks_consumer hr hd⟩

/-- A second `close()` leaves a consumer without a tag, and so does a second task that iterates over
the iterator. -/
theorem consumer_left_behind :
    (∃ s, Transition.checked (step false) Served fresh (enteredAgain ++ [.close]) = some s ∧
      Idle s ∧ s.live = [1] ∧ s.consumerTag = none) ∧
    ∃ s, Transition.checked (step false) Served fresh [.enter, .enter, .consumed 0, .consumed 1] =
      some s ∧ Idle s ∧ s.live = [0, 1] ∧ s.consumerTag = some 1 :=
  ⟨⟨_, rfl, by decide, rfl, rfl⟩, _, rfl, by decide, rfl, rfl⟩

end AioPika.QueueIterator
