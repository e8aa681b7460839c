import AioPika.Channel.Lifecycle
import Mathlib.Data.List.Nodup

/-! # Returned messages

A channel gets the messages that the broker returns from a handler on its
underlay channel. `initialize()` is the only one of the calls that open the
channel which registers the handler, and every close callback takes it from the
underlay channel that is the current one when the callback ends.
-/

namespace AioPika.Returns

open Lifecycle Transition

inductive ChannelClass where
  | channel
  | robustChannel
  deriving DecidableEq, Repr

structure Channel where
  lifecycle : Lifecycle.State
  /-- The underlay channels whose `on_return_callbacks` have the `_on_return` of the channel. -/
  onReturnCallbacks : List ℕ
  deriving DecidableEq, Repr

/-- `__init__` -/
def fresh : Channel := ⟨Lifecycle.fresh, []⟩

/-- `_on_initialized` of a channel that has an underlay channel; otherwise it raises. -/
def Channel.onInitialized (s : Channel) : Option Channel :=
  s.lifecycle.channel.map fun u =>
    { s with onReturnCallbacks := s.onReturnCallbacks.insert u }

/-- The end of `_on_close`. -/
def Channel.onClose (s : Channel) : Channel :=
  match s.lifecycle.channel with
  | none => s
  | some u => { s with onReturnCallbacks := s.onReturnCallbacks.filter (· ≠ u) }

/-- What `return_callbacks` are called with when the broker returns a message on the underlay
channel. -/
def Channel.onReturn {μ : Type*} (s : Channel) (u : ℕ) (message : μ) : List μ :=
  (s.onReturnCallbacks.filter (· = u)).map fun _ => message

/-- The steps of a `RobustChannel`. -/
def robustStep (s : Channel) (a : Action) : Option Channel :=
  (Lifecycle.step s.lifecycle a).bind fun t =>
    match a with
    | .returned i =>
      if s.lifecycle.tasks[i]? = some ⟨.initialization, .initialized⟩ then
        Channel.onInitialized { s with lifecycle := t }
      else some { s with lifecycle := t }
    | .callbackEnded _ => some (Channel.onClose { s with lifecycle := t })
    | _ => some { s with lifecycle := t }

/-- The steps of a `Channel`: it has no `restore()`, and only `close()` awaits anything after
`create`. -/
def plainStep (s : Channel) (a : Action) : Option Channel :=
  match a with
  | .created i =>
    match s.lifecycle.tasks[i]? with
    | some ⟨c, .creating u⟩ =>
      let t : Channel := { s with
        lifecycle := State.setPc { s.lifecycle with
          underlays := s.lifecycle.underlays.modify u fun un => { un with opened := true }
          channel := some u
          closed := false } i c .returned }
      if c = .initialization then t.onInitialized else some t
    | _ => none
  | .callbackStarted u =>
    match s.lifecycle.callback u with
    | some (.scheduled _) => some { s with lifecycle := s.lifecycle.setCallback u .running }
    | _ => none
  | .callbackEnded _ =>
    (Lifecycle.step s.lifecycle a).map fun t => Channel.onClose { s with lifecycle := t }
  | .returned i =>
    match s.lifecycle.tasks[i]? with
    | some ⟨.close, _⟩ => (Lifecycle.step s.lifecycle a).map fun t => { s with lifecycle := t }
    | _ => none
  | .call (.restore _) | .locked _ | .opened _ | .cleaned _ => none
  | _ => (Lifecycle.step s.lifecycle a).map fun t => { s with lifecycle := t }

def step : ChannelClass → Channel → Action → Option Channel
  | .channel => plainStep
  | .robustChannel => robustStep

/-- No open of the channel and no close callback is in progress. -/
structure Quiet (s : State) : Prop where
  tasks : ∀ t ∈ s.tasks, t.call ≠ .close → t.pc.Done
  callbacks : ∀ u ∈ s.underlays, u.closeCallback ≠ .running

instance : DecidablePred Quiet := fun s =>
  decidable_of_iff ((∀ t ∈ s.tasks, t.call ≠ .close → t.pc.Done) ∧
    ∀ u ∈ s.underlays, u.closeCallback ≠ .running) ⟨fun h => ⟨h.1, h.2⟩, fun h => ⟨h.1, h.2⟩⟩

/-- An open channel hears of every returned message once. -/
def Heard (s : Channel) : Prop :=
  s.lifecycle.isClosed = false → Quiet s.lifecycle →
    ∃ u ∈ s.lifecycle.channel, s.onReturnCallbacks.count u = 1 ∧
      ∀ (μ : Type) (message : μ), s.onReturn u message = [message]

/-- The current underlay channel is not known to be closed. -/
def Live (s : State) : Prop :=
  ∃ u ∈ s.channel, ∀ un ∈ s.underlays[u]?, un.closeCallback.Armed

instance : DecidablePred Live := fun s =>
  inferInstanceAs (Decidable (∃ u ∈ s.channel, ∀ un ∈ s.underlays[u]?, un.closeCallback.Armed))

/-- The coroutine has made its underlay channel the current one, and has not returned. -/
def Entered : Pc → Prop
  | .onOpen _ | .cleaning _ _ | .initialized => True
  | _ => False

instance : DecidablePred Entered
  | .onOpen _ | .cleaning _ _ | .initialized => .isTrue trivial
  | .locking | .connecting | .creating _ | .reopened | .closing _ | .returned | .raised _ =>
    .isFalse id

/-- The coroutine is an `initialize()` that is going to register the handler. -/
def Registers (t : Task) : Prop := t.call = .initialization ∧ Entered t.pc

instance : DecidablePred Registers := fun t =>
  inferInstanceAs (Decidable (t.call = .initialization ∧ Entered t.pc))

/-- An `initialize()` is going to register the handler. -/
def Registering (tasks : List Task) : Prop := ∃ t ∈ tasks, Registers t

instance : DecidablePred Registering := fun tasks =>
  inferInstanceAs (Decidable (∃ t ∈ tasks, Registers t))

/-- Another `initialize()` is going to register the handler whenever `restore()` or `reopen()`
makes an underlay channel the current one, and whenever an `initialize()` that was to register it
raises or a close callback ends while the current underlay channel is open. -/
def Attended (s : State) : Action → Prop
  | .created i =>
    match s.tasks[i]? with
    | some ⟨.initialization, _⟩ => True
    | _ => Registering s.tasks
  | .raised i _ =>
    match s.tasks[i]? with
    | some ⟨.initialization, .initialized⟩ | some ⟨.initialization, .cleaning _ _⟩ =>
      Live s → Registering (s.tasks.eraseIdx i)
    | _ => True
  | .callbackEnded _ => Live s → Registering s.tasks
  | _ => True

instance (s : State) : DecidablePred (Attended s)
  | .created i =>
    match h : s.tasks[i]? with
    | some ⟨.initialization, _⟩ => .isTrue (by rw [Attended, h]; trivial)
    | none | some ⟨.restore _, _⟩ | some ⟨.reopen, _⟩ | some ⟨.close, _⟩ =>
      decidable_of_iff (Registering s.tasks) (by rw [Attended, h])
  | .raised i _ =>
    match h : s.tasks[i]? with
    | some ⟨.initialization, .initialized⟩ | some ⟨.initialization, .cleaning _ _⟩ =>
      decidable_of_iff (Live s → Registering (s.tasks.eraseIdx i)) (by rw [Attended, h])
    | none | some ⟨.restore _, _⟩ | some ⟨.reopen, _⟩ | some ⟨.close, _⟩
    | some ⟨.initialization, .locking⟩ | some ⟨.initialization, .connecting⟩
    | some ⟨.initialization, .creating _⟩ | some ⟨.initialization, .onOpen _⟩
    | some ⟨.initialization, .reopened⟩ | some ⟨.initialization, .closing _⟩
    | some ⟨.initialization, .returned⟩ | some ⟨.initialization, .raised _⟩ =>
      .isTrue (by rw [Attended, h]; trivial)
  | .callbackEnded _ => inferInstanceAs (Decidable (Live s → Registering s.tasks))
  | .call _ | .locked _ | .connected _ | .opened _ | .cleaned _ | .returned _ | .closed _ _
  | .callbackStarted _ => .isTrue trivial

/-- The handler is registered on the current underlay channel, or is going to be, unless that
channel is closed. -/
def Listens (s : State) (onReturnCallbacks : List ℕ) : Prop :=
  Live s → (∃ u ∈ s.channel, u ∈ onReturnCallbacks) ∨ Registering s.tasks

variable {s t : State} {handlers : List ℕ} {a : Action} {i u v : ℕ} {c : Call} {pc pc' : Pc}
  {callback : OneShotCallback} {exc : Option Raised} {channel channel' : Channel}

section Evolution

inductive Evolves (s : State) : Action → State → Prop
  | lifecycle {a : Action} {t : State} (h : Lifecycle.step s a = some t) : Evolves s a t
  /-- `create` has returned to a `Channel`. -/
  | created {i u : ℕ} {c : Call} (ht : s.tasks[i]? = some ⟨c, .creating u⟩) :
      Evolves s (.created i) (State.setPc { s with
        underlays := s.underlays.modify u fun un => { un with opened := true }
        channel := some u
        closed := false } i c .returned)
  /-- The close callback of a `Channel` restores nothing. -/
  | callbackStarted {u : ℕ} {exc : Option Raised} (hi : s.callback u = some (.scheduled exc)) :
      Evolves s (.callbackStarted u) (s.setCallback u .running)

@[simp] theorem onClose_lifecycle : channel.onClose.lifecycle = channel.lifecycle := by
  unfold Channel.onClose
  split <;> rfl

theorem onInitialized_lifecycle (h : channel.onInitialized = some channel') :
    channel'.lifecycle = channel.lifecycle := by
  obtain ⟨u, -, rfl⟩ := Option.map_eq_some_iff.mp h
  rfl

theorem robust_evolves (h : robustStep channel a = some channel') :
    Evolves channel.lifecycle a channel'.lifecycle := by
  obtain ⟨t, ht, h⟩ := Option.bind_eq_some_iff.mp h
  split at h
  · split at h
    · rw [onInitialized_lifecycle h]
      exact .lifecycle ht
    · obtain rfl := Option.some.inj h
      exact .lifecycle ht
  · obtain rfl := Option.some.inj h
    rw [onClose_lifecycle]
    exact .lifecycle ht
  · obtain rfl := Option.some.inj h
    exact .lifecycle ht

theorem plain_evolves (h : plainStep channel a = some channel') :
    Evolves channel.lifecycle a channel'.lifecycle := by
  unfold plainStep at h
  split at h
  · split at h
    · rename_i c u ht
      simp only at h
      split at h
      · rw [onInitialized_lifecycle h]
        exact .created ht
      · obtain rfl := Option.some.inj h
        exact .created ht
    · cases h
  · split at h
    · rename_i exc hi
      obtain rfl := Option.some.inj h
      exact .callbackStarted hi
    · cases h
  · obtain ⟨t, ht, rfl⟩ := Option.map_eq_some_iff.mp h
    rw [onClose_lifecycle]
    exact .lifecycle ht
  · split at h
    · obtain ⟨t, ht, rfl⟩ := Option.map_eq_some_iff.mp h
      exact .lifecycle ht
    · cases h
  · cases h
  · cases h
  · cases h
  · cases h
  · obtain ⟨t, ht, rfl⟩ := Option.map_eq_some_iff.mp h
    exact .lifecycle ht

theorem step_evolves {cls : ChannelClass} (h : step cls channel a = some channel') :
    Evolves channel.lifecycle a channel'.lifecycle := by
  cases cls with
  | channel => exact plain_evolves h
  | robustChannel => exact robust_evolves h

end Evolution

section Tasks

theorem Registering.start (h : Registering s.tasks) : Registering (s.start c pc).tasks :=
  Members.exists_append h

theorem Registering.setPc (h : Registering s.tasks) (ht : s.tasks[i]? = some ⟨c, pc⟩)
    (hr : Registers ⟨c, pc⟩ → Registers ⟨c, pc'⟩) : Registering (s.setPc i c pc').tasks :=
  Members.exists_set h ht hr

theorem registering_entered (ht : s.tasks[i]? = some ⟨.initialization, pc⟩) (he : Entered pc') :
    Registering (s.setPc i .initialization pc').tasks := by
  have hlt : i < s.tasks.length := (List.getElem?_eq_some_iff.mp ht).1
  exact ⟨_, List.mem_of_getElem? (List.getElem?_set_self hlt), rfl, he⟩

theorem not_entered_of_done (h : pc.Done) : ¬ Entered pc := by
  cases pc with
  | returned | raised => exact id
  | _ => exact absurd h id

end Tasks

section Live

theorem live_of_setCallback (hn : ¬ callback.Armed) (h : Live (s.setCallback v callback)) :
    Live s := by
  obtain ⟨u, hu, hall⟩ := h
  refine ⟨u, hu, fun un hun => ?_⟩
  by_cases hv : v = u
  · subst hv
    have hget : (s.setCallback v callback).underlays[v]? =
        some { un with closeCallback := callback } := by
      have hun : s.underlays[v]? = some un := hun
      simp [State.setCallback, hun]
    exact absurd (hall _ hget) hn
  · have hget : (s.setCallback v callback).underlays[u]? = s.underlays[u]? := by
      simp [State.setCallback, hv]
    exact hall un (hget.trans hun)

theorem live_of_append {un : Underlay}
    (h : Live { s with underlays := s.underlays ++ [un] }) : Live s := by
  obtain ⟨u, hu, hall⟩ := h
  refine ⟨u, hu, fun un hun => hall un ?_⟩
  have hlt : u < s.underlays.length := (List.getElem?_eq_some_iff.mp hun).1
  exact (List.getElem?_append_left hlt).trans hun

theorem live_unlock : Live (s.unlock i) ↔ Live s := by
  rw [Live, unlock_channel, unlock_underlays, Live]

theorem live_closeCallback : Live (s.closeCallback u exc) ↔ Live s := by
  rw [Live, closeCallback_channel, closeCallback_underlays, Live]

theorem live_of_open (h : s.isClosed = false) : Live s := by
  unfold State.isClosed at h
  split at h
  · cases h
  · rename_i u hu
    refine ⟨u, hu, fun un hun => ?_⟩
    have hun : s.underlays[u]? = some un := hun
    have ha : s.closed = false ∧ un.closeCallback.Armed := by
      simpa [hun] using h
    exact ha.2

end Live

theorem Listens.mono (h : Listens s handlers) (hc : t.channel = s.channel) (hl : Live t → Live s)
    (ht : Registering s.tasks → Registering t.tasks) : Listens t handlers := by
  intro ha
  rw [hc]
  exact (h (hl ha)).imp id ht

theorem registering_closeCallback (h : Registering s.tasks) :
    Registering (s.closeCallback u exc).tasks := by
  rcases closeCallback_cases s u exc with he | he
  · rw [he]
    exact h
  · rw [he]
    exact Registering.start (s := { s with restored := false }) h

theorem listens_lifecycle (h : Listens s handlers) (hat : Attended s a)
    (hend : ∀ u, a ≠ .callbackEnded u)
    (hret : ∀ i, a = .returned i → s.tasks[i]? ≠ some ⟨.initialization, .initialized⟩)
    (hst : Lifecycle.step s a = some t) : Listens t handlers := by
  cases step_cases hst with
  | restore => exact h.mono rfl id .start
  | reopen => exact h.mono rfl id .start
  | initialization => exact h.mono rfl id .start
  | close => exact h.mono rfl id (Registering.start (s := { s with closed := true }))
  | unopened => exact h.mono rfl id .start
  | skipped ht => exact h.mono rfl id fun hr => hr.setPc ht fun hn => hn.2.elim
  | @locked i c ht =>
    exact h.mono rfl id fun hr =>
      Registering.setPc (s := { s with lock := some i }) hr ht fun hn => hn.2.elim
  | @connected i c ht =>
    refine h.mono rfl (fun hl => ?_) fun hr => Registering.setPc
      (s := { s with underlays := s.underlays ++ [⟨false, .idle⟩] }) hr ht fun hn => hn.2.elim
    have hl : Live { s with underlays := s.underlays ++ [⟨false, .idle⟩] } := hl
    exact live_of_append hl
  | @created i u c ht =>
    -- the new underlay channel has no handler yet
    intro _
    right
    cases c with
    | initialization => exact registering_entered (s := { s with channel := some u }) ht trivial
    | _ =>
      have hr : Registering s.tasks := by
        simpa only [Attended, ht] using hat
      exact Registering.setPc (s := { s with channel := some u }) hr ht fun hn => hn.2.elim
  | @opened i u c ht =>
    refine h.mono rfl id fun hr => ?_
    cases c with
    | initialization => exact registering_entered (s := { s with restored := true }) ht trivial
    | _ =>
      exact Registering.setPc (s := { s with restored := true }) hr ht fun hn => nomatch hn.1
  | @restored i caller ht =>
    refine h.mono unlock_channel live_unlock.mp fun hr => ?_
    rw [unlock_tasks]
    exact Registering.setPc (s := { s with restored := true }) hr ht fun hn => nomatch hn.1
  | @returned i task ht hr =>
    refine h.mono rfl id fun hreg => hreg.setPc ht fun hn => ?_
    obtain ⟨c, pc⟩ := task
    obtain rfl : c = .initialization := hn.1
    cases pc with
    | initialized => exact absurd ht (hret i rfl)
    | _ => exact absurd hr id
  | @failed i u c exc ht =>
    exact h.mono rfl id fun hr => hr.setPc ht fun hn => ⟨hn.1, trivial⟩
  | @raised i c pc exc ht hr =>
    intro hl
    have hl : Live (s.setPc i c (.raised exc)) := live_unlock.mp hl
    have hl : Live s := hl
    rw [unlock_channel, unlock_tasks]
    by_cases hreg : Registers ⟨c, pc⟩
    · obtain rfl : c = .initialization := hreg.1
      right
      apply Members.exists_set_of_erase
      cases pc with
      | initialized =>
        simp only [Attended, ht] at hat
        exact hat hl
      | cleaning =>
        simp only [Attended, ht] at hat
        exact hat hl
      | onOpen => exact absurd hr id
      | _ => exact absurd hreg.2 id
    · exact (h hl).imp id fun hs => hs.setPc ht fun hn => absurd hn hreg
  | cleaned =>
    intro hl
    obtain ⟨u, hu, -⟩ := live_unlock.mp hl
    cases hu
  | closed => exact h.mono rfl (live_of_setCallback id) id
  | callbackStarted =>
    exact h.mono closeCallback_channel (fun hl => live_of_setCallback id (live_closeCallback.mp hl))
      fun hr => registering_closeCallback hr
  | callbackEnded => exact absurd rfl (hend _)

theorem listens_callbackEnded (hat : Attended s (.callbackEnded u))
    (hst : Lifecycle.step s (.callbackEnded u) = some t) : Listens t handlers := by
  cases step_cases hst with
  | callbackEnded => exact fun hl => Or.inr (hat (live_of_setCallback id hl))

/-- The handler is registered, or is going to be, and it is registered once on any underlay
channel. -/
structure Listening (s : Channel) : Prop where
  listens : Listens s.lifecycle s.onReturnCallbacks
  nodup : s.onReturnCallbacks.Nodup

theorem Listening.onInitialized {x : Channel} (hn : x.onReturnCallbacks.Nodup)
    (h : x.onInitialized = some channel') : Listening channel' := by
  obtain ⟨u, hu, rfl⟩ := Option.map_eq_some_iff.mp h
  refine ⟨fun _ => Or.inl ⟨u, hu, ?_⟩, hn.insert⟩
  exact List.mem_insert_self

theorem onClose_nodup (hn : channel.onReturnCallbacks.Nodup) :
    channel.onClose.onReturnCallbacks.Nodup := by
  unfold Channel.onClose
  split
  · exact hn
  · exact hn.filter _

theorem Listening.onClose {x : Channel} (hn : x.onReturnCallbacks.Nodup)
    (hat : Attended s (.callbackEnded u))
    (hst : Lifecycle.step s (.callbackEnded u) = some x.lifecycle) : Listening x.onClose := by
  refine ⟨?_, onClose_nodup hn⟩
  rw [onClose_lifecycle]
  exact listens_callbackEnded hat hst

theorem robust_listening (h : Listening channel) (hat : Attended channel.lifecycle a)
    (hst : robustStep channel a = some channel') : Listening channel' := by
  obtain ⟨t, ht, hst⟩ := Option.bind_eq_some_iff.mp hst
  split at hst
  · rename_i i
    split at hst
    · exact .onInitialized (x := { channel with lifecycle := t }) h.nodup hst
    · rename_i hn
      obtain rfl := Option.some.inj hst
      refine ⟨listens_lifecycle h.listens hat (by simp) ?_ ht, h.nodup⟩
      rintro j ⟨⟩
      exact hn
  · obtain rfl := Option.some.inj hst
    exact .onClose (x := { channel with lifecycle := t }) h.nodup hat ht
  · rename_i hret hend
    obtain rfl := Option.some.inj hst
    exact ⟨listens_lifecycle h.listens hat (fun u he => hend u he)
      (fun i he => absurd he (hret i)) ht, h.nodup⟩

theorem plain_listening (h : Listening channel) (hat : Attended channel.lifecycle a)
    (hst : plainStep channel a = some channel') : Listening channel' := by
  unfold plainStep at hst
  split at hst
  · rename_i i
    split at hst
    · rename_i c u ht
      simp only at hst
      split at hst
      · refine Listening.onInitialized ?_ hst
        exact h.nodup
      · rename_i hc
        obtain rfl := Option.some.inj hst
        have hr : Registering channel.lifecycle.tasks := by
          simp only [Attended, ht] at hat
          split at hat
          · rename_i he
            cases he
            exact absurd rfl hc
          · exact hat
        refine ⟨fun _ => Or.inr ?_, h.nodup⟩
        exact Registering.setPc (s := { channel.lifecycle with channel := some u }) hr ht
          fun hn => hn.2.elim
    · cases hst
  · split at hst
    · obtain rfl := Option.some.inj hst
      exact ⟨h.listens.mono rfl (live_of_setCallback id) id, h.nodup⟩
    · cases hst
  · obtain ⟨t, ht, rfl⟩ := Option.map_eq_some_iff.mp hst
    exact .onClose (x := { channel with lifecycle := t }) h.nodup hat ht
  · rename_i i
    split at hst
    · rename_i hi
      obtain ⟨t, ht, rfl⟩ := Option.map_eq_some_iff.mp hst
      refine ⟨listens_lifecycle h.listens hat (by simp) ?_ ht, h.nodup⟩
      rintro j ⟨⟩ hj
      cases hi.symm.trans hj
    · cases hst
  · cases hst
  · cases hst
  · cases hst
  · cases hst
  · rename_i hcreated hstarted hended hreturned _ _ _ _
    obtain ⟨t, ht, rfl⟩ := Option.map_eq_some_iff.mp hst
    exact ⟨listens_lifecycle h.listens hat (fun u he => hended u he)
      (fun i he => absurd he (hreturned i)) ht, h.nodup⟩

theorem listening_step {cls : ChannelClass} (h : Listening channel)
    (hat : Attended channel.lifecycle a) (hst : step cls channel a = some channel') :
    Listening channel' := by
  cases cls with
  | channel => exact plain_listening h hat hst
  | robustChannel => exact robust_listening h hat hst

theorem fresh_listening : Listening fresh := by
  refine ⟨?_, List.nodup_nil⟩
  rintro ⟨u, hu, -⟩
  cases hu

theorem onReturn_of_count {μ : Type*} {message : μ} (h : channel.onReturnCallbacks.count u = 1) :
    channel.onReturn u message = [message] := by
  have hrep : channel.onReturnCallbacks.filter (· = u) = List.replicate 1 u := by
    rw [← h]
    exact List.filter_eq u
  rw [Channel.onReturn, hrep]
  rfl

/-- A channel that listens and has nothing in progress has registered its handler. -/
theorem Listening.heard (h : Listening channel) : Heard channel := by
  intro ho hq
  rcases h.listens (live_of_open ho) with ⟨u, hu, hm⟩ | ⟨task, hm, hc, he⟩
  · have hcount : channel.onReturnCallbacks.count u = 1 := List.count_eq_one_of_mem h.nodup hm
    exact ⟨u, hu, hcount, fun _ _ => onReturn_of_count hcount⟩
  · have hne : task.call ≠ .close := by
      rw [hc]
      nofun
    exact absurd he (not_entered_of_done (hq.tasks task hm hne))

/-- In every run in which an `initialize()` is in progress whenever the handler is lost, an open
channel hears of every returned message once. -/
theorem returned_messages_heard (cls : ChannelClass)
    (h : Reach (· = fresh) (step cls) (fun s a => Attended s.lifecycle a) channel) :
    Heard channel := by
  refine (h.invariant (I := Listening) ?_ ?_).heard
  · rintro s rfl
    exact fresh_listening
  · intro s a t hs hat hst
    exact listening_step hs hat hst

/-- The first `initialize()` fails in `_on_open`, and the second succeeds. -/
def initializedTwice : List Action :=
  [.call .initialization, .connected 0, .created 0, .raised 0 .other, .closed 0 (some .other),
    .callbackStarted 0, .callbackEnded 0, .cleaned 0, .call .initialization, .connected 1,
    .created 1, .opened 1, .returned 1]

/-- The broker closes the channel, and its close callback restores it. -/
def restoredByCallback : List Action :=
  [.call .initialization, .connected 0, .created 0, .opened 0, .returned 0, .closed 0 (some .other),
    .callbackStarted 0, .locked 1, .connected 1, .created 1, .opened 1, .returned 1,
    .callbackEnded 0]

def reopened : List Action :=
  [.call .initialization, .connected 0, .created 0, .call .close, .closed 0 none,
    .callbackStarted 0, .callbackEnded 0, .returned 1, .call .reopen, .connected 2, .created 2]

theorem heard_after_failure : ∃ s,
    checked (step .robustChannel) (fun s a => Attended s.lifecycle a) fresh initializedTwice =
      some s ∧ s.lifecycle.isClosed = false ∧ Quiet s.lifecycle ∧ Heard s :=
  ⟨_, rfl, rfl, by decide,
    returned_messages_heard .robustChannel (Reach.of_checked initializedTwice rfl rfl)⟩

/-- A restored channel and a reopened one are open, and hear of nothing. -/
theorem deaf_after_recovery :
    (∃ s, checked (step .robustChannel) (fun _ _ => True) fresh restoredByCallback = some s ∧
      ¬ Heard s) ∧
    ∃ s, checked (step .channel) (fun _ _ => True) fresh reopened = some s ∧ ¬ Heard s := by
  refine ⟨⟨_, rfl, fun h => ?_⟩, _, rfl, fun h => ?_⟩
  · obtain ⟨u, hu, hc, -⟩ := h rfl (by decide)
    cases hu
    cases hc
  · obtain ⟨u, hu, hc, -⟩ := h rfl (by decide)
    cases hu
    cases hc

end AioPika.Returns
