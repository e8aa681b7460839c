import AioPika.Recovery.Abandonment

/-! # Attempts of a robust queue iterator

`RobustQueueIterator.consume()` calls `consume()` of its queue in a loop. An
attempt that ends with `ChannelInvalidStateError` is followed by the next one as
soon as `get_underlay_channel()` returns, and this waits for the connection only:
a channel that is closed keeps its underlay channel, and is handed out at once.
-/

namespace AioPika.RobustQueueIterator

open Transition

open Recovery (System)

/-- What the attempts depend on. -/
structure View where
  connected : Bool
  transport : Option ℕ
  /-- `_channel` of the channel -/
  underlay : Option ℕ
  /-- It is closed. -/
  closed : Bool
  deriving DecidableEq, Repr

def view (s : System) : View where
  connected := s.connection.connected
  transport := s.connection.transport
  underlay := s.channel.channel
  closed := (s.channel.current.map fun u => decide (¬ u.closeCallback.Armed)).getD true

/-- Where a call of `consume()` is. -/
inductive Pc where
  /-- In `consume()` of the queue: `await self._connection.ready()` -/
  | ready (woken : Bool)
  /-- `await channel.basic_consume(...)` -/
  | consuming
  /-- In the `except` clause: `await self._connection.ready()` -/
  | recovering (woken : Bool)
  | returned
  | raised
  deriving DecidableEq, Repr

/-- An attempt that is followed by another one. -/
structure Retry where
  /-- When it begins. -/
  before : View
  /-- The call has waited for the connection since then. -/
  suspended : Bool
  /-- When the next one begins. -/
  after : View
  deriving DecidableEq, Repr

structure Call where
  pc : Pc
  /-- When the last attempt has begun. -/
  before : View
  /-- The call has waited for the connection since then. -/
  suspended : Bool
  retries : List Retry
  deriving DecidableEq, Repr

namespace Call

variable (c : Call) (v : View)

/-- An attempt, up to its await. On a channel that was never opened it fails, and so does the
`except` clause. -/
def attempt : Call :=
  if v.connected then
    { c with
      pc := if v.underlay.isSome then .consuming else .raised
      before := v
      suspended := false }
  else { c with pc := .ready false, before := v, suspended := true }

def retry : Call := attempt { c with retries := c.retries ++ [⟨c.before, c.suspended, v⟩] } v

/-- The `except` clause, up to its await or that of the next attempt. -/
def handle : Call :=
  if v.connected then if v.underlay.isSome then c.retry v else { c with pc := .raised }
  else { c with pc := .recovering false, suspended := true }

/-- `ready()` has returned. -/
def resume : Option Call :=
  match c.pc with
  | .ready true =>
    some (if v.underlay.isSome then { c with pc := .consuming } else c.handle v)
  | .recovering true =>
    some (if v.underlay.isSome then c.retry v else { c with pc := .raised })
  | _ => none

/-- The `connected` event is set. -/
def wake : Call :=
  match c.pc with
  | .ready _ => { c with pc := .ready true }
  | .recovering _ => { c with pc := .recovering true }
  | _ => c

/-- `consume()` is called. -/
def start : Call := attempt ⟨.returned, v, false, []⟩ v

end Call

structure State where
  system : System
  calls : List Call
  deriving DecidableEq

inductive Action where
  | system (a : Recovery.Action)
  /-- `consume()` -/
  | consume
  /-- `ready()` returns. -/
  | resumed (call : ℕ)
  /-- `basic_consume` returns. -/
  | consumed (call : ℕ)
  /-- `basic_consume` raises `ChannelInvalidStateError`. -/
  | invalid (call : ℕ)
  /-- The await of a call raises another exception, or is cancelled. -/
  | raised (call : ℕ)
  deriving DecidableEq

def Pc.Awaits : Pc → Prop
  | .ready _ | .consuming | .recovering _ => True
  | .returned | .raised => False

instance : DecidablePred Pc.Awaits := fun pc => by
  cases pc <;> unfold Pc.Awaits <;> infer_instance

def State.setCall (s : State) (i : ℕ) (c : Call) : State := { s with calls := s.calls.set i c }

variable (c : ChannelId)

/-- The iterator consumes a queue of channel `c`. -/
def step (s : State) : Action → Option State
  | .system a => (Recovery.step c s.system a).map fun t =>
    ⟨t, if t.connection.connected then s.calls.map Call.wake else s.calls⟩
  | .consume => some { s with calls := s.calls ++ [Call.start (view s.system)] }
  | .resumed i => s.calls[i]?.bind fun call =>
    (call.resume (view s.system)).map (s.setCall i)
  | .consumed i =>
    match s.calls[i]? with
    | some call =>
      if call.pc = .consuming then some (s.setCall i { call with pc := .returned }) else none
    | none => none
  | .invalid i =>
    match s.calls[i]? with
    | some call =>
      if call.pc = .consuming then some (s.setCall i (call.handle (view s.system))) else none
    | none => none
  | .raised i =>
    match s.calls[i]? with
    | some call =>
      if call.pc.Awaits then some (s.setCall i { call with pc := .raised }) else none
    | none => none

/-- Something has changed, or the call has waited until it did. -/
def Retry.Progresses (r : Retry) : Prop := r.suspended = true ∨ r.before ≠ r.after

def Call.Progresses (call : Call) : Prop := ∀ r ∈ call.retries, r.Progresses

/-- No call has retried without progress. -/
def NoSpin (s : State) : Prop := ∀ call ∈ s.calls, call.Progresses

/-- After `ChannelInvalidStateError` the call waits, or raises, or finds a change. -/
def Call.Advances (call : Call) (v : View) : Prop :=
  v.connected = false ∨ v.underlay = none ∨ call.suspended = true ∨ call.before ≠ v

/-- An attempt that fails does so without a connection, or without an underlay channel, or it has
waited, or the channel or connection is another one than at its beginning. -/
def FailsAdvancing (s : State) : Action → Prop
  | .invalid i => ∀ call ∈ s.calls[i]?, call.Advances (view s.system)
  | _ => True

variable {call : Call} {v : View} {s t : State} {a : Action} {c}

section Calls

def Pc.Waits : Pc → Prop
  | .ready _ | .recovering _ => True
  | .consuming | .returned | .raised => False

/-- A call that waits has noted it. -/
def Call.Noted (call : Call) : Prop := call.pc.Waits → call.suspended = true

theorem attempt_retries : (call.attempt v).retries = call.retries := by
  unfold Call.attempt
  split <;> rfl

theorem attempt_noted : (call.attempt v).Noted := by
  unfold Call.attempt
  split
  · intro hw
    dsimp only at hw
    split at hw <;> cases hw
  · intro
    rfl

theorem retry_noted : (call.retry v).Noted := attempt_noted

theorem retry_progresses : (call.retry v).Progresses ↔
    call.Progresses ∧ (call.suspended = true ∨ call.before ≠ v) := by
  unfold Call.Progresses Call.retry
  rw [attempt_retries]
  constructor
  · intro h
    constructor
    · intro r hr
      exact h r (List.mem_append_left _ hr)
    · exact h ⟨call.before, call.suspended, v⟩ (List.mem_append_right _ List.mem_cons_self)
  · rintro ⟨h, hnew⟩ r hr
    rcases List.mem_append.mp hr with hr | hr
    · exact h r hr
    · obtain rfl := List.mem_singleton.mp hr
      exact hnew

theorem handle_noted : (call.handle v).Noted := by
  unfold Call.handle
  split
  · split
    · exact retry_noted
    · exact False.elim
  · intro
    rfl

/-- The `except` clause retries without progress exactly if nothing stops it. -/
theorem handle_progresses (h : call.Progresses) :
    (call.handle v).Progresses ↔ call.Advances v := by
  unfold Call.handle Call.Advances
  split
  · rename_i hc
    split
    · rename_i hu
      rw [retry_progresses]
      have hn : v.underlay ≠ none := Option.isSome_iff_ne_none.mp hu
      simp [h, hc, hn]
    · rename_i hu
      have hn : v.underlay = none := by simpa using hu
      exact iff_of_true h (Or.inr (Or.inl hn))
  · rename_i hc
    exact iff_of_true h (Or.inl (by simpa using hc))

theorem resume_progresses {call' : Call} (h : call.Progresses) (hn : call.Noted)
    (hr : call.resume v = some call') : call'.Progresses ∧ call'.Noted := by
  unfold Call.resume at hr
  split at hr
  · rename_i hpc
    obtain rfl := Option.some.inj hr
    have hs : call.suspended = true := hn (hpc ▸ trivial)
    split
    · exact ⟨h, False.elim⟩
    · exact ⟨(handle_progresses h).mpr (Or.inr (Or.inr (Or.inl hs))), handle_noted⟩
  · rename_i hpc
    obtain rfl := Option.some.inj hr
    have hs : call.suspended = true := hn (hpc ▸ trivial)
    split
    · exact ⟨retry_progresses.mpr ⟨h, Or.inl hs⟩, retry_noted⟩
    · exact ⟨h, False.elim⟩
  · cases hr

theorem wake_retries : call.wake.retries = call.retries := by
  unfold Call.wake
  split <;> rfl

theorem wake_noted (h : call.Noted) : call.wake.Noted := by
  unfold Call.wake
  split
  · rename_i hpc
    intro
    exact h (hpc ▸ trivial)
  · rename_i hpc
    intro
    exact h (hpc ▸ trivial)
  · exact h

end Calls

section Steps

variable {i : ℕ} {call' : Call}

theorem forall_setCall {P : Call → Prop} (h : ∀ call ∈ s.calls, P call) (hc : P call') :
    ∀ call ∈ (s.setCall i call').calls, P call := by
  intro call hm
  rcases List.mem_or_eq_of_mem_set hm with hm | rfl
  · exact h call hm
  · exact hc

theorem step_cases (h : step c s a = some t) :
    (∃ b, a = .system b ∧ (t.calls = s.calls ∨ t.calls = s.calls.map Call.wake)) ∨
    (a = .consume ∧ t.calls = s.calls ++ [Call.start (view s.system)]) ∨
    (∃ i call call', a = .resumed i ∧ s.calls[i]? = some call ∧
      call.resume (view s.system) = some call' ∧ t = s.setCall i call') ∨
    (∃ i call pc, (a = .consumed i ∨ a = .raised i) ∧ s.calls[i]? = some call ∧ ¬ pc.Waits ∧
      t = s.setCall i { call with pc := pc }) ∨
    (∃ i call, a = .invalid i ∧ s.calls[i]? = some call ∧
      t = s.setCall i (call.handle (view s.system))) := by
  cases a with
  | system b =>
    obtain ⟨u, -, rfl⟩ := Option.map_eq_some_iff.mp h
    refine Or.inl ⟨b, rfl, ?_⟩
    dsimp only
    split
    · exact Or.inr rfl
    · exact Or.inl rfl
  | consume =>
    obtain rfl := Option.some.inj h
    exact Or.inr (Or.inl ⟨rfl, rfl⟩)
  | resumed i =>
    obtain ⟨call, hcall, h⟩ := Option.bind_eq_some_iff.mp h
    obtain ⟨call', hr, rfl⟩ := Option.map_eq_some_iff.mp h
    exact Or.inr (Or.inr (Or.inl ⟨i, call, call', rfl, hcall, hr, rfl⟩))
  | consumed i =>
    simp only [step] at h
    split at h
    · rename_i call hcall
      split at h
      · obtain rfl := Option.some.inj h
        exact Or.inr (Or.inr (Or.inr (Or.inl
          ⟨i, call, .returned, Or.inl rfl, hcall, False.elim, rfl⟩)))
      · cases h
    · cases h
  | invalid i =>
    simp only [step] at h
    split at h
    · rename_i call hcall
      split at h
      · obtain rfl := Option.some.inj h
        exact Or.inr (Or.inr (Or.inr (Or.inr ⟨i, call, rfl, hcall, rfl⟩)))
      · cases h
    · cases h
  | raised i =>
    simp only [step] at h
    split at h
    · rename_i call hcall
      split at h
      · obtain rfl := Option.some.inj h
        exact Or.inr (Or.inr (Or.inr (Or.inl
          ⟨i, call, .raised, Or.inr rfl, hcall, False.elim, rfl⟩)))
      · cases h
    · cases h

def Noted (s : State) : Prop := ∀ call ∈ s.calls, call.Noted

theorem noted_step (h : Noted s) (hn : NoSpin s) (hs : step c s a = some t) : Noted t := by
  rcases step_cases hs with ⟨b, -, hc | hc⟩ | ⟨-, hc⟩ | ⟨i, call, call', -, hcall, hr, rfl⟩ |
    ⟨i, call, pc, -, -, hw, rfl⟩ | ⟨i, call, -, -, rfl⟩
  · unfold Noted
    rwa [hc]
  · intro call hm
    rw [hc] at hm
    obtain ⟨call, hcall, rfl⟩ := List.mem_map.mp hm
    exact wake_noted (h call hcall)
  · intro call hm
    rw [hc] at hm
    rcases List.mem_append.mp hm with hm | hm
    · exact h call hm
    · obtain rfl := List.mem_singleton.mp hm
      exact attempt_noted
  · have hm := List.mem_of_getElem? hcall
    exact forall_setCall h (resume_progresses (hn call hm) (h call hm) hr).2
  · exact forall_setCall h fun hwaits => absurd hwaits hw
  · exact forall_setCall h handle_noted

/-- Calls of `consume()` retry without progress only after `ChannelInvalidStateError`. -/
theorem noSpin_step (h : Noted s) (hn : NoSpin s) (hs : step c s a = some t) :
    NoSpin t ↔ FailsAdvancing s a := by
  rcases step_cases hs with ⟨b, rfl, hc | hc⟩ | ⟨rfl, hc⟩ | ⟨i, call, call', rfl, hcall, hr, rfl⟩ |
    ⟨i, call, pc, ha, hcall, -, rfl⟩ | ⟨i, call, rfl, hcall, rfl⟩
  · refine iff_of_true ?_ trivial
    unfold NoSpin
    rwa [hc]
  · refine iff_of_true ?_ trivial
    intro call hm
    rw [hc] at hm
    obtain ⟨call, hcall, rfl⟩ := List.mem_map.mp hm
    unfold Call.Progresses
    rw [wake_retries]
    exact hn call hcall
  · refine iff_of_true ?_ trivial
    intro call hm
    rw [hc] at hm
    rcases List.mem_append.mp hm with hm | hm
    · exact hn call hm
    · obtain rfl := List.mem_singleton.mp hm
      unfold Call.Progresses Call.start
      rw [attempt_retries]
      exact fun r hr => absurd hr List.not_mem_nil
  · refine iff_of_true ?_ trivial
    have hm := List.mem_of_getElem? hcall
    exact forall_setCall hn (resume_progresses (hn call hm) (h call hm) hr).1
  · have hok : FailsAdvancing s a := by
      rcases ha with rfl | rfl <;> trivial
    refine iff_of_true ?_ hok
    exact forall_setCall hn (hn call (List.mem_of_getElem? hcall))
  · have hcall' : call.Progresses := hn call (List.mem_of_getElem? hcall)
    constructor
    · intro hspin call₁ hcall₁
      obtain rfl : call = call₁ := Option.some.inj (hcall.symm.trans hcall₁)
      have hlt : i < s.calls.length := (List.getElem?_eq_some_iff.mp hcall).1
      have hmem : call.handle (view s.system) ∈ (s.setCall i (call.handle (view s.system))).calls :=
        List.mem_of_getElem? (List.getElem?_set_self hlt)
      exact (handle_progresses hcall').mp (hspin _ hmem)
    · intro hok
      exact forall_setCall hn ((handle_progresses hcall').mpr (hok call hcall))

end Steps

/-- No call retries without progress exactly if each attempt that fails with
`ChannelInvalidStateError` fails without a connection or an underlay channel, or after it has
waited, or after a change. -/
theorem no_spin_iff (c : ChannelId) (system : System) (as : List Action) :
    Throughout (step c) NoSpin ⟨system, []⟩ as ↔
      EachStep (step c) FailsAdvancing ⟨system, []⟩ as := by
  apply throughout_iff_eachStep (J := Noted)
  · intro s a t hj hn hs _
    exact noted_step hj hn hs
  · intro s a t hj hn hs
    exact noSpin_step hj hn hs
  · exact fun call hm => absurd hm List.not_mem_nil
  · exact fun call hm => absurd hm List.not_mem_nil

/-- The user closes the channel of an open connection, and consumes its queue. -/
def closedByUser : List Action :=
  (Recovery.setUp ++ [Recovery.Action.channel (.call .close), .channel (.closed 0 none),
    .channel (.callbackStarted 0), .channel (.callbackEnded 0), .channel (.returned 1)]).map
      .system ++ [.consume]

/-- The state in which a call has retried `n` times while nothing has changed. -/
def spinning (system : System) (n : ℕ) : State :=
  ⟨system, [⟨.consuming, view system, false,
    List.replicate n ⟨view system, false, view system⟩⟩]⟩

theorem spinning_step {system : System} {n : ℕ} (hc : (view system).connected = true)
    (hu : (view system).underlay.isSome = true) :
    step c (spinning system n) (.invalid 0) = some (spinning system (n + 1)) := by
  simp [step, spinning, State.setCall, Call.handle, Call.retry, Call.attempt, hc, hu,
    List.replicate_succ']

theorem spinning_run {system : System} (hc : (view system).connected = true)
    (hu : (view system).underlay.isSome = true) (k n : ℕ) :
    Run (step c) (fun _ _ => True) (spinning system k) (List.replicate n (.invalid 0))
      (spinning system (k + n)) := by
  induction n generalizing k with
  | zero => exact .nil _
  | succ n ih =>
    rw [List.replicate_succ, Nat.add_comm n, ← Nat.add_assoc]
    exact .cons trivial (spinning_step hc hu) (ih (k + 1))

theorem not_noSpin_spinning {system : System} {n : ℕ} (h : NoSpin (spinning system n)) : n = 0 := by
  by_contra hn
  have hr := h _ List.mem_cons_self _ (List.mem_replicate.mpr ⟨hn, rfl⟩)
  rcases hr with hr | hr
  · cases hr
  · exact hr rfl

theorem closedByUser_spinning : ∃ system : System,
    checked (step 0) (fun _ _ => True) ⟨Recovery.fresh true, []⟩ closedByUser =
      some (spinning system 0) ∧
    system.channel.isClosed = true ∧ system.connection.connected = true ∧
    system.channel.channel.isSome = true :=
  ⟨_, rfl, rfl, rfl, rfl⟩

/-- The channel stays closed on a connection that is connected, and the call retries forever. -/
theorem retries_forever : ∃ s, Reach (· = ⟨Recovery.fresh true, []⟩) (step 0) (fun _ _ => True) s ∧
    s.system.channel.isClosed = true ∧ s.system.connection.connected = true ∧
    ∀ n, ∃ t, Run (step 0) (fun _ _ => True) s (List.replicate n (.invalid 0)) t ∧
      t.system = s.system ∧ (∃ call ∈ t.calls, call.pc = .consuming ∧ call.retries.length = n) ∧
      (NoSpin t → n = 0) := by
  obtain ⟨system, hr, hclosed, hc, hu⟩ := closedByUser_spinning
  refine ⟨_, Reach.of_checked closedByUser rfl hr, hclosed, hc, fun n => ?_⟩
  have hrun := spinning_run (c := 0) hc hu 0 n
  rw [Nat.zero_add] at hrun
  exact ⟨_, hrun, rfl, ⟨_, List.mem_cons_self, rfl, List.length_replicate⟩, not_noSpin_spinning⟩

end AioPika.RobustQueueIterator
