import AioPika.Channel.Closing
import AioPika.Channel.Returns

/-! # How often the close callbacks of a channel are fired

`UnderlayChannel.create` adds a one-shot callback to `connection.closing` before it
asks for the channel, and to `channel.closing` once it has the channel. The future
that is done first starts the callback, which fires `close_callbacks`. An attempt
that fails in between leaves its callback on `connection.closing`.
-/

namespace AioPika.Firings

open Lifecycle Transition

/-- The futures to which `create` adds the one-shot callback. -/
inductive ClosingFuture where
  /-- `connection.closing` -/
  | connection
  /-- `channel.closing` -/
  | channel
  deriving DecidableEq, Repr

structure State where
  channel : Returns.Channel
  /-- The calls that the futures have made of their one-shot callbacks. -/
  called : List (ℕ × ClosingFuture)
  /-- The underlay channels whose one-shot callbacks have fired `close_callbacks`. -/
  firings : List ℕ
  deriving DecidableEq, Repr

inductive Action where
  | channel (a : Lifecycle.Action)
  /-- The future is done and calls the one-shot callback of the underlay channel. -/
  | called (future : ClosingFuture) (underlay : ℕ) (exc : Option Raised)
  deriving DecidableEq, Repr

/-- `__init__` -/
def fresh : State := ⟨Returns.fresh, [], []⟩

/-- `UnderlayChannel.create` has returned the underlay channel. -/
def Opened (underlays : List Underlay) (u : ℕ) : Prop := ∃ un ∈ underlays[u]?, un.opened = true

instance (underlays : List Underlay) (u : ℕ) : Decidable (Opened underlays u) :=
  inferInstanceAs (Decidable (∃ un ∈ underlays[u]?, un.opened = true))

/-- The one-shot callback was added to the future. `UnderlayChannel.close` takes it away again
when it is finished and a call does nothing. -/
def Registered (underlays : List Underlay) (u : ℕ) : ClosingFuture → Prop
  | .connection => u < underlays.length
  | .channel => Opened underlays u

instance (underlays : List Underlay) (u : ℕ) : DecidablePred (Registered underlays u)
  | .connection => inferInstanceAs (Decidable (u < underlays.length))
  | .channel => inferInstanceAs (Decidable (Opened underlays u))

/-- `_on_close` begins with `close_callbacks`. -/
def fire (firings : List ℕ) : Lifecycle.Action → List ℕ
  | .callbackStarted u => firings ++ [u]
  | _ => firings

def State.advance (cls : Returns.ChannelClass) (s : State) (a : Lifecycle.Action) : Option State :=
  (Returns.step cls s.channel a).map fun channel =>
    { s with channel := channel, firings := fire s.firings a }

def step (cls : Returns.ChannelClass) (s : State) : Action → Option State
  -- a one-shot callback is called by a future
  | .channel (.closed _ _) => none
  | .channel a => s.advance cls a
  | .called future u exc =>
    if Registered s.channel.lifecycle.underlays u future ∧ (u, future) ∉ s.called then
      let t := { s with called := (u, future) :: s.called }
      if s.channel.lifecycle.callback u = some .idle then t.advance cls (.closed u exc)
      -- `finished` is set, or the task has been created
      else some t
    else none

/-- The firings of `close_callbacks` are those of opened underlay channels, one for each at
most. -/
structure Accounted (s : State) : Prop where
  total : s.firings.length ≤ s.channel.lifecycle.openedCount
  each : ∀ u, s.firings.count u ≤ 1

/-- `connection.closing` does not call the callback of an attempt to open that is not over or has
failed. -/
def ToOpened (s : State) : Action → Prop
  | .called .connection u _ => Opened s.channel.lifecycle.underlays u
  | _ => True

instance (s : State) : DecidablePred (ToOpened s)
  | .called .connection u _ => inferInstanceAs (Decidable (Opened s.channel.lifecycle.underlays u))
  | .called .channel _ _ | .channel _ => .isTrue trivial

inductive Moves (us : List Underlay) : Lifecycle.Action → List Underlay → Prop
  | keep {a : Lifecycle.Action} (hn : ∀ u, a ≠ .callbackStarted u) : Moves us a us
  | begun {i : ℕ} : Moves us (.connected i) (us ++ [⟨false, .idle⟩])
  | opened {i u : ℕ} :
      Moves us (.created i) (us.modify u fun un => { un with opened := true })
  | called {u : ℕ} {exc : Option Raised} (hi : us[u]?.map Underlay.closeCallback = some .idle) :
      Moves us (.closed u exc) (us.modify u fun un => { un with closeCallback := .scheduled exc })
  | started {u : ℕ} {exc : Option Raised}
      (hi : us[u]?.map Underlay.closeCallback = some (.scheduled exc)) :
      Moves us (.callbackStarted u) (us.modify u fun un => { un with closeCallback := .running })
  | ended {u : ℕ} (hi : us[u]?.map Underlay.closeCallback = some .running) :
      Moves us (.callbackEnded u) (us.modify u fun un => { un with closeCallback := .finished })

/-- Every one-shot callback that has fired `close_callbacks` has done it once. -/
structure Once (us : List Underlay) (firings : List ℕ) : Prop where
  fired : ∀ u ∈ firings, ∃ un ∈ us[u]?, un.closeCallback.HasRun
  nodup : firings.Nodup

/-- Only one-shot callbacks of opened underlay channels have been called. -/
def CalledOpened (us : List Underlay) : Prop :=
  ∀ un ∈ us, un.closeCallback.Armed ∨ un.opened = true

variable {s t : State} {l l' : Lifecycle.State} {a : Lifecycle.Action} {us us' : List Underlay}
  {firings : List ℕ} {u : ℕ}

theorem moves_of_step (h : Lifecycle.step l a = some l') :
    Moves l.underlays a l'.underlays := by
  cases step_cases h with
  | restore | reopen | initialization | close | unopened | skipped | locked | opened | returned
  | failed =>
    exact .keep (by simp)
  | restored | raised | cleaned =>
    rw [unlock_underlays]
    exact .keep (by simp)
  | connected => exact .begun
  | created => exact .opened
  | closed hi => exact .called hi
  | callbackStarted hi =>
    rw [closeCallback_underlays]
    exact .started hi
  | callbackEnded hi => exact .ended hi

theorem moves_of_evolves (h : Returns.Evolves l a l') : Moves l.underlays a l'.underlays := by
  cases h with
  | lifecycle h => exact moves_of_step h
  | created => exact .opened
  | callbackStarted hi => exact .started hi

section Moves

theorem callback_of_get {callback : OneShotCallback} {un : Underlay}
    (hi : us[u]?.map Underlay.closeCallback = some callback) (hget : un ∈ us[u]?) :
    un.closeCallback = callback := by
  have hget : us[u]? = some un := hget
  rw [hget] at hi
  exact Option.some.inj hi

theorem Once.modify {f : Underlay → Underlay} (h : Once us firings)
    (hf : ∀ un ∈ us[u]?, un.closeCallback.HasRun → (f un).closeCallback.HasRun) :
    Once (us.modify u f) firings :=
  ⟨fun v hv => Members.get_modify (h.fired v hv) hf, h.nodup⟩

theorem Once.started {exc : Option Raised} (h : Once us firings)
    (hi : us[u]?.map Underlay.closeCallback = some (.scheduled exc)) :
    Once (us.modify u fun un => { un with closeCallback := .running }) (firings ++ [u]) := by
  have hnew : u ∉ firings := by
    intro hu
    obtain ⟨un, hget, hr⟩ := h.fired u hu
    rw [callback_of_get hi hget] at hr
    exact hr
  constructor
  · intro v hv
    rcases List.mem_append.mp hv with hv | hv
    · exact Members.get_modify (h.fired v hv) fun _ _ _ => trivial
    · obtain rfl := List.mem_singleton.mp hv
      obtain ⟨un, hget, -⟩ := Option.map_eq_some_iff.mp hi
      refine ⟨{ un with closeCallback := .running }, ?_, trivial⟩
      rw [List.getElem?_modify, hget]
      simp
  · exact h.nodup.append (List.nodup_singleton u) (by simpa using hnew)

theorem once_moves (h : Once us firings) (hm : Moves us a us') : Once us' (fire firings a) := by
  cases hm with
  | keep hn =>
    have he : fire firings a = firings := by
      unfold fire
      split
      · rename_i u
        exact absurd rfl (hn u)
      · rfl
    rw [he]
    exact h
  | begun => exact ⟨fun u hu => Members.get_append (h.fired u hu), h.nodup⟩
  | opened => exact h.modify fun _ _ hr => hr
  | called hi =>
    apply h.modify
    intro un hget hr
    rw [callback_of_get hi hget] at hr
    exact absurd hr id
  | started hi => exact h.started hi
  | ended => exact h.modify fun _ _ _ => trivial

theorem calledOpened_moves (h : CalledOpened us) (hm : Moves us a us')
    (hc : ∀ u exc, a = .closed u exc → Opened us u) : CalledOpened us' := by
  cases hm with
  | keep => exact h
  | begun =>
    intro un hun
    rcases List.mem_append.mp hun with hun | hun
    · exact h un hun
    · obtain rfl := List.mem_singleton.mp hun
      exact Or.inl trivial
  | opened => exact Members.forall_modify h fun _ _ _ => Or.inr rfl
  | @called u exc hi =>
    obtain ⟨un, hget, ho⟩ := hc u exc rfl
    refine Members.forall_modify h fun un' hget' _ => Or.inr ?_
    obtain rfl : un = un' := Option.some.inj (hget.symm.trans hget')
    exact ho
  | started hi | ended hi =>
    refine Members.forall_modify h fun un hget hun => Or.inr (hun.resolve_left ?_)
    rw [callback_of_get hi hget]
    exact id

end Moves

theorem advance_cases {cls : Returns.ChannelClass} (h : s.advance cls a = some t) :
    Moves s.channel.lifecycle.underlays a t.channel.lifecycle.underlays ∧
      t.firings = fire s.firings a := by
  obtain ⟨channel, hc, rfl⟩ := Option.map_eq_some_iff.mp h
  exact ⟨moves_of_evolves (Returns.step_evolves hc), rfl⟩

/-- A step is one of the channel, in which only a future calls a one-shot callback, or changes
nothing. -/
theorem step_moves {cls : Returns.ChannelClass} {a : Action} (h : step cls s a = some t) :
    (∃ b, Moves s.channel.lifecycle.underlays b t.channel.lifecycle.underlays ∧
      t.firings = fire s.firings b ∧ ∀ u exc, b = .closed u exc → ∃ future,
        a = .called future u exc ∧ Registered s.channel.lifecycle.underlays u future) ∨
    t.channel = s.channel ∧ t.firings = s.firings := by
  unfold step at h
  split at h
  · cases h
  · rename_i b hb
    obtain ⟨hm, hf⟩ := advance_cases h
    refine Or.inl ⟨b, hm, hf, ?_⟩
    rintro u exc rfl
    exact absurd rfl (hb u exc)
  · rename_i future u exc
    split at h
    · rename_i hr
      simp only at h
      split at h
      · obtain ⟨hm, hf⟩ := advance_cases h
        refine Or.inl ⟨.closed u exc, hm, hf, ?_⟩
        rintro v exc' he
        cases he
        exact ⟨future, rfl, hr.1⟩
      · obtain rfl := Option.some.inj h
        exact Or.inr ⟨rfl, rfl⟩
    · cases h

theorem once_step {cls : Returns.ChannelClass} {a : Action}
    (hs : Once s.channel.lifecycle.underlays s.firings) (h : step cls s a = some t) :
    Once t.channel.lifecycle.underlays t.firings := by
  rcases step_moves h with ⟨b, hm, hf, -⟩ | ⟨hc, hf⟩
  · rw [hf]
    exact once_moves hs hm
  · rw [hc, hf]
    exact hs

theorem calledOpened_step {cls : Returns.ChannelClass} {a : Action}
    (hs : CalledOpened s.channel.lifecycle.underlays) (ho : ToOpened s a)
    (h : step cls s a = some t) : CalledOpened t.channel.lifecycle.underlays := by
  rcases step_moves h with ⟨b, hm, -, hcall⟩ | ⟨hc, -⟩
  · apply calledOpened_moves hs hm
    intro u exc hb
    obtain ⟨future, rfl, hr⟩ := hcall u exc hb
    cases future with
    | connection => exact ho
    | channel => exact hr
  · rw [hc]
    exact hs

theorem opened_of_fired (hs : Once us firings) (ho : CalledOpened us) (hu : u ∈ firings) :
    Opened us u := by
  obtain ⟨un, hget, hr⟩ := hs.fired u hu
  refine ⟨un, hget, (ho un (List.mem_of_getElem? hget)).resolve_left fun ha => ?_⟩
  cases hc : un.closeCallback with
  | idle | scheduled =>
    rw [hc] at hr
    exact hr
  | running | finished =>
    rw [hc] at ha
    exact ha

theorem accounted_of_once (hs : Once s.channel.lifecycle.underlays s.firings)
    (ho : CalledOpened s.channel.lifecycle.underlays) : Accounted s := by
  constructor
  · have hle := Members.length_le_countP (p := Underlay.opened) hs.nodup
      fun u hu => opened_of_fired hs ho hu
    rw [Lifecycle.State.openedCount, List.count, List.countP_map]
    convert hle using 1
    apply List.countP_congr
    simp
  · exact fun u => List.nodup_iff_count_le_one.mp hs.nodup u

/-- In every run in which `connection.closing` calls the callbacks of opened underlay channels
only, `close_callbacks` are fired once at most for each opened underlay channel, and for no
other. -/
theorem close_callbacks_accounted (cls : Returns.ChannelClass)
    (h : Reach (· = fresh) (step cls) ToOpened s) : Accounted s := by
  have hinv := h.invariant (I := fun s => Once s.channel.lifecycle.underlays s.firings ∧
    CalledOpened s.channel.lifecycle.underlays) ?_ ?_
  · exact accounted_of_once hinv.1 hinv.2
  · rintro s rfl
    exact ⟨⟨by simp [fresh], List.nodup_nil⟩, by simp [CalledOpened, fresh, Returns.fresh,
      Lifecycle.fresh]⟩
  · intro s a t hs ho hst
    exact ⟨once_step hs.1 hst, calledOpened_step hs.2 ho hst⟩

/-- The broker closes the channel, and then the connection is closed. -/
def closedTwice : List Action :=
  [.channel (.call .initialization), .channel (.connected 0), .channel (.created 0),
    .called .channel 0 (some .other), .channel (.callbackStarted 0), .channel (.callbackEnded 0),
    .called .connection 0 none]

/-- `connection.channel()` fails, and then the connection is closed. -/
def failedOpen : List Action :=
  [.channel (.call .initialization), .channel (.connected 0), .channel (.raised 0 .other),
    .called .connection 0 none, .channel (.callbackStarted 0)]

theorem fired_once : ∃ s, checked (step .channel) ToOpened fresh closedTwice = some s ∧
    s.firings = [0] ∧ Accounted s :=
  ⟨_, rfl, rfl, close_callbacks_accounted .channel (Reach.of_checked closedTwice rfl rfl)⟩

/-- The close callbacks are fired for a channel that was never opened. -/
theorem fired_unopened : ∃ s,
    checked (step .channel) (fun _ _ => True) fresh failedOpen = some s ∧ ¬ Accounted s := by
  refine ⟨_, rfl, fun h => ?_⟩
  exact absurd h.total (by decide)

end AioPika.Firings
