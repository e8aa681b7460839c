import AioPika.Channel.Attempt
import AioPika.Topology.History

/-! # Failed restores

A robust channel, with the objects that it recovers. `_on_open` of an underlay
channel replays the objects on a broker of which nothing is known but that it
echoes names and tags. A restore that raises leaves nothing behind, and the next
one starts from the same objects.
-/

namespace AioPika.Retry

open Transition

variable {β A C : Type}

structure Channel (A C : Type) where
  lifecycle : Lifecycle.State
  topology : RobustChannel A C
  /-- The requests that `_on_open` has sent. -/
  sent : List (Request A C)

inductive Action (β : Type) where
  /-- A step of the coroutines; if `_on_open` raises in it, that is before its first request. -/
  | coroutine (a : Lifecycle.Action)
  /-- `_on_open` of the task iterates in this order, with the broker in this state. It returns, or
  a request raises and ends it with this exception. -/
  | onOpen (task : ℕ) (broker : β) (order : SetOrder) (exc : Raised)

/-- The steps of the channel, whose underlay channels lead to the broker. -/
def step (B : EchoBroker β A C) (s : Channel A C) : Action β → Option (Channel A C)
  | .coroutine (.opened _) => none
  | .coroutine a => (Lifecycle.step s.lifecycle a).map fun l => { s with lifecycle := l }
  | .onOpen i broker order exc =>
    match s.lifecycle.tasks[i]? with
    | some ⟨_, .onOpen _⟩ =>
      match RobustChannel.onOpen B.toBroker order ⟨s.topology, broker, s.sent⟩ with
      | .ok _ t => (Lifecycle.step s.lifecycle (.opened i)).map fun l => ⟨l, t.self, t.sent⟩
      | .error _ t => (Lifecycle.step s.lifecycle (.raised i exc)).map fun l => ⟨l, t.self, t.sent⟩
    | _ => none

/-- Nothing else opens the channel, and what follows `_on_open` is not cancelled. -/
def Alone (s : Channel A C) : Action β → Prop
  | .coroutine a => Lifecycle.Alone s.lifecycle a
  | .onOpen _ _ _ _ => True

instance (s : Channel A C) : DecidablePred (Alone s : Action β → Prop)
  | .coroutine a => inferInstanceAs (Decidable (Lifecycle.Alone s.lifecycle a))
  | .onOpen _ _ _ _ => .isTrue trivial

/-- Restore `i` opens the channel alone from one state to another. -/
def Restores (B : EchoBroker β A C) (i : ℕ) (s t : Channel A C) : Prop :=
  Lifecycle.Acquired i s.lifecycle ∧ ∃ as, Run (step B) Alone s as t

/-- What a restore that has raised leaves behind. -/
structure Retriable (B : EchoBroker β A C) (s t : Channel A C) : Prop where
  /-- No underlay channel is open that the restore has opened. -/
  shut : ∀ u un, s.lifecycle.underlays.length ≤ u → t.lifecycle.underlays[u]? = some un →
    ¬ un.IsOpen
  restored : t.lifecycle.restored = false
  lock : t.lifecycle.lock = none
  /-- The registries, and the bindings and consumers of all objects in them. -/
  topology : t.topology = s.topology
  /-- The next `restore()` is neither skipped nor kept waiting. -/
  next : ∀ caller, (∀ u, caller ≠ .callback u) →
    ∃ v : Channel A C, Lifecycle.Acquired t.lifecycle.tasks.length v.lifecycle ∧
      Run (step B) (fun _ _ => True) t [.coroutine (.call (.restore caller)),
        .coroutine (.locked t.lifecycle.tasks.length)] v
  /-- A later restore that returns has issued the whole topology. -/
  complete : ∀ as u j v caller, Run (step B) (fun _ _ => True) t as u → Restores B j u v →
    v.lifecycle.tasks[j]? = some ⟨.restore caller, .returned⟩ →
    ∃ order, v.sent = u.sent ++ s.topology.openPlan order

variable {B : EchoBroker β A C} {s t : Channel A C} {a : Action β} {as : List (Action β)} {i : ℕ}

section Steps

/-- A step of the coroutines, or an `_on_open` that has sent its plan or a beginning of it. -/
theorem step_cases (hk : s.topology.WellKeyed) (h : step B s a = some t) :
    t.topology = s.topology ∧
      ((∃ b, a = .coroutine b ∧ (∀ j, b ≠ .opened j) ∧ t.sent = s.sent ∧
          Lifecycle.step s.lifecycle b = some t.lifecycle) ∨
        (∃ j c u order, s.lifecycle.tasks[j]? = some ⟨c, .onOpen u⟩ ∧
          t.sent = s.sent ++ s.topology.openPlan order ∧
          Lifecycle.step s.lifecycle (.opened j) = some t.lifecycle) ∨
        ∃ j c u order exc begun, s.lifecycle.tasks[j]? = some ⟨c, .onOpen u⟩ ∧
          begun <+: s.topology.openPlan order ∧ t.sent = s.sent ++ begun ∧
          Lifecycle.step s.lifecycle (.raised j exc) = some t.lifecycle) := by
  cases a with
  | coroutine b =>
    unfold step at h
    split at h
    · cases h
    · rename_i b' hb heq
      obtain rfl := Action.coroutine.inj heq
      obtain ⟨l, hl, rfl⟩ := Option.map_eq_some_iff.mp h
      exact ⟨rfl, Or.inl ⟨b, rfl, fun j he => hb j he, rfl, hl⟩⟩
    · cases ‹_ = Action.onOpen _ _ _ _›
  | onOpen j broker order exc =>
    unfold step at h
    simp only at h
    split at h
    · rename_i c u ht
      have hemits := RobustChannel.onOpen_emits (B := B) (o := order)
        (s := ⟨s.topology, broker, s.sent⟩) hk
      split at h
      · rename_i w hw
        obtain ⟨l, hl, rfl⟩ := Option.map_eq_some_iff.mp h
        obtain ⟨hself, hsent⟩ := hemits.ok hw
        exact ⟨hself, Or.inr (Or.inl ⟨j, c, u, order, ht, hsent, hl⟩)⟩
      · rename_i w hw
        obtain ⟨l, hl, rfl⟩ := Option.map_eq_some_iff.mp h
        obtain ⟨hself, begun, hpre, hsent⟩ := hemits.error hw
        exact ⟨hself, Or.inr (Or.inr ⟨j, c, u, order, exc, begun, ht, hpre, hsent, hl⟩)⟩
    · cases h

end Steps

/-- What recovery works from is never changed by it. -/
theorem topology_run {ok : Channel A C → Action β → Prop} (h : Run (step B) ok s as t)
    (hk : s.topology.WellKeyed) : t.topology = s.topology := by
  induction h with
  | nil => rfl
  | cons _ hst _ ih =>
    have htop := (step_cases hk hst).1
    exact (ih (htop ▸ hk)).trans htop

def Plans (c : RobustChannel A C) (plan : List (Request A C)) : Prop :=
  ∃ order, plan = c.openPlan order

/-- How far restore `i`, which has started from `s`, has got. -/
def Underway (i : ℕ) (s t : Channel A C) : Prop :=
  t.topology = s.topology ∧ ∃ issued, t.sent = s.sent ++ issued ∧
    Lifecycle.Attempt i s.lifecycle.underlays.length (Plans s.topology) issued t.lifecycle

theorem underway_step {u : Channel A C} (hk : s.topology.WellKeyed) (h : Underway i s t)
    (hal : Alone t a) (hst : step B t a = some u) : Underway i s u := by
  obtain ⟨htop, issued, hsent, hat⟩ := h
  obtain ⟨htop', hcases⟩ := step_cases (htop ▸ hk) hst
  obtain ⟨l, top, sent⟩ := u
  rw [htop] at hcases
  apply And.intro (htop'.trans htop)
  rcases hcases with ⟨b, rfl, hb, hsent', hl⟩ | ⟨j, c, v, order, ht, hsent', hl⟩ |
    ⟨j, c, v, order, exc, begun, ht, hpre, hsent', hl⟩
  · exact ⟨issued, hsent'.trans hsent, Lifecycle.attempt_step hat hal hb hl⟩
  · -- nothing was issued before `_on_open`
    obtain ⟨-, -, -, -, -, -, rfl⟩ := hat.opening ht trivial
    have hplan : Plans s.topology (s.topology.openPlan order) := ⟨order, rfl⟩
    refine ⟨s.topology.openPlan order, by rw [hsent', hsent, List.append_nil], ?_⟩
    cases Lifecycle.step_cases hl with
    | opened ht' => exact hat.opened ht' hplan
  · obtain ⟨-, -, -, -, -, -, rfl⟩ := hat.opening ht trivial
    have hbegun : Lifecycle.Begun (Plans s.topology) begun := Or.inr ⟨_, ⟨order, rfl⟩, hpre⟩
    refine ⟨begun, by rw [hsent', hsent, List.append_nil], ?_⟩
    cases Lifecycle.step_cases hl with
    | failed ht' => exact hat.failed ht' hbegun
    | raised ht' hr =>
      obtain rfl := congrArg Lifecycle.Task.pc (Option.some.inj (ht.symm.trans ht'))
      exact absurd hr id

theorem Restores.underway (hk : s.topology.WellKeyed) (h : Restores B i s t) :
    Underway i s t := by
  obtain ⟨hac, as, hrun⟩ := h
  have hstart : Underway i s s := ⟨rfl, [], (List.append_nil _).symm, hac.attempt⟩
  exact hrun.invariant (I := Underway i s)
    (fun u a v hu hal hst => underway_step hk hu hal hst) hstart

theorem Restores.complete {caller : Lifecycle.Caller} (hk : s.topology.WellKeyed)
    (h : Restores B i s t) (ht : t.lifecycle.tasks[i]? = some ⟨.restore caller, .returned⟩) :
    ∃ order, t.sent = s.sent ++ s.topology.openPlan order := by
  obtain ⟨-, issued, hsent, hat⟩ := h.underway hk
  obtain ⟨caller', pc, ht', hstage⟩ := hat.stage
  obtain rfl := congrArg Lifecycle.Task.pc (Option.some.inj (ht.symm.trans ht'))
  obtain ⟨order, rfl⟩ := hstage
  exact ⟨order, hsent⟩

theorem acquired_next {caller : Lifecycle.Caller} (hcaller : ∀ u, caller ≠ .callback u)
    (hlock : t.lifecycle.lock = none) (hrestored : t.lifecycle.restored = false)
    (halone : ∀ (j : ℕ) (task : Lifecycle.Task),
      t.lifecycle.tasks[j]? = some task → ¬ task.pc.Opening) :
    ∃ v : Channel A C, Lifecycle.Acquired t.lifecycle.tasks.length v.lifecycle ∧
      Run (step B) (fun _ _ => True) t [.coroutine (.call (.restore caller)),
        .coroutine (.locked t.lifecycle.tasks.length)] v := by
  set k := t.lifecycle.tasks.length
  let u := t.lifecycle.start (.restore caller) .locking
  let v := Lifecycle.State.setPc { u with lock := some k } k (.restore caller) .connecting
  have hk : u.tasks[k]? = some ⟨.restore caller, .locking⟩ := List.getElem?_concat_length
  have hlt : k < u.tasks.length := (List.getElem?_eq_some_iff.mp hk).1
  have hcall : Lifecycle.step t.lifecycle (.call (.restore caller)) = some u := by
    cases caller with
    | callback w => exact absurd rfl (hcaller w)
    | connection => rfl
    | user => rfl
  have hlocked : Lifecycle.step u (.locked k) = some v := by
    have hul : u.lock = none := hlock
    have hur : u.restored = false := hrestored
    have hne : ¬ u.restored = true := by
      rw [hur]
      nofun
    simp only [Lifecycle.step, hk, hul, if_neg hne]
    rfl
  refine ⟨{ t with lifecycle := v }, ?_, ?_⟩
  · refine ⟨⟨caller, List.getElem?_set_self hlt⟩, rfl, hrestored, ?_⟩
    intro j task hj ho
    rcases Lifecycle.task_setPc hj with ⟨rfl, -⟩ | ⟨-, hj⟩
    · rfl
    · rcases Lifecycle.task_start (s := t.lifecycle) hj with hj | rfl
      · exact absurd ho (halone j task hj)
      · exact absurd ho id
  · apply Run.cons trivial (t := { t with lifecycle := u })
    · simp only [step, hcall, Option.map_some]
    · apply Run.cons trivial (t := { t with lifecycle := v })
      · simp only [step, hlocked, Option.map_some]
      · exact .nil _

def findLogs : ChannelCall ℕ Unit :=
  .declareExchange "logs" "fanout" true false false true 0 true

def found : Session (RobustChannel ℕ Unit) (Amqp ℕ) ℕ Unit :=
  match findLogs.run ⟨⟨0, 0, .empty, .empty, 0⟩, ⟨["logs"], [], [], 0⟩, []⟩ with
  | .ok _ t | .error _ t => t

theorem found_built : found.self.Built := by
  have hrun : findLogs.run ⟨⟨0, 0, .empty, .empty, 0⟩, ⟨["logs"], [], [], 0⟩, []⟩ =
      .ok (.declared (.exchange "logs") true) found := rfl
  exact .call .fresh hrun

/-- The broker has closed the channel, whose close callback restores it. -/
def restoring : Channel ℕ Unit where
  lifecycle := ⟨some 0, false, false, some 1, [⟨true, .running⟩],
    [⟨.initialization, .returned⟩, ⟨.restore (.callback 0), .connecting⟩]⟩
  topology := found.self
  sent := []

theorem restoring_acquired : Lifecycle.Acquired 1 restoring.lifecycle := by
  refine ⟨⟨_, rfl⟩, rfl, rfl, ?_⟩
  rintro (_ | _ | j) task hj ho
  · cases hj
    exact absurd ho id
  · rfl
  · cases hj

/-- The broker has lost the exchange, and the underlay channel is closed again. -/
def failedRestore : List (Action (Amqp ℕ)) :=
  [.coroutine (.connected 1), .coroutine (.created 1), .onOpen 1 ⟨[], [], [], 0⟩ .insertion .other,
    .coroutine (.closed 1 (some .other)), .coroutine (.callbackStarted 1),
    .coroutine (.callbackEnded 1), .coroutine (.cleaned 1)]

def afterFailure : Channel ℕ Unit where
  lifecycle := ⟨none, false, false, none, [⟨true, .running⟩, ⟨true, .finished⟩],
    [⟨.initialization, .returned⟩, ⟨.restore (.callback 0), .raised .other⟩]⟩
  topology := found.self
  sent := [.basicQos 0 0 false, .exchangeDeclare "logs" "fanout" true false false true 0]

end AioPika.Retry
