import AioPika.Foundation.Runs
import AioPika.Topology.History

/-! # The QoS of a robust channel

`set_qos` remembers its arguments and then sends them; `_on_open` of the next
underlay channel sends what is remembered, without the global flag. So the QoS
that is in force after a restore may be one that the broker has refused, or lack
the flag.
-/

namespace AioPika

/-- The arguments of `basic.qos`. -/
structure Qos where
  prefetchCount : ℕ
  prefetchSize : ℕ
  globalQos : Bool
  deriving DecidableEq, Repr

namespace Qos

variable {β A C : Type}

def initial : Qos := ⟨0, 0, false⟩

def apply (q : Qos) : Request A C → Qos
  | .basicQos prefetchCount prefetchSize globalQos => ⟨prefetchCount, prefetchSize, globalQos⟩
  | _ => q

/-- The fields of a robust channel that are about recovery, with `_global_qos`. -/
structure Settings (A C : Type) where
  channel : RobustChannel A C
  globalQos : Bool

/-- `RobustChannel.set_qos`, once the channel is ready. -/
def setQos (B : Broker β A C) (prefetchCount prefetchSize : ℕ) (globalQos : Bool)
    (allChannels : Option Bool) : Coro (Settings A C) β A C Reply := do
  let globalQos := allChannels.getD globalQos
  modifySelf fun c =>
    ⟨{ c.channel with prefetchCount := prefetchCount, prefetchSize := prefetchSize }, globalQos⟩
  send B (.basicQos prefetchCount prefetchSize globalQos)

structure State (A C : Type) where
  settings : Settings A C
  /-- The channel is ready. -/
  isOpen : Bool
  /-- The QoS of the current underlay channel. -/
  inForce : Qos
  /-- The QoS of the last `set_qos` that has succeeded. -/
  accepted : Qos

inductive Action (β A C : Type) where
  /-- `set_qos`, with the broker in this state -/
  | setQos (prefetchCount prefetchSize : ℕ) (globalQos : Bool) (allChannels : Option Bool)
      (broker : β)
  /-- The underlay channel is lost, or opening one fails before `_on_open`. -/
  | lost
  /-- A new underlay channel is there, and `_on_open` runs on it. -/
  | restore (broker : β) (order : SetOrder)
  /-- Another call of the channel, which succeeds. -/
  | call (call : ChannelCall A C) (broker : Amqp A)

/-- `__init__` -/
def fresh : State A C := ⟨⟨⟨0, 0, .empty, .empty, 0⟩, false⟩, false, initial, initial⟩

variable [DecidableEq A]

def step (B : EchoBroker β A C) (s : State A C) : Action β A C → Option (State A C)
  | .setQos prefetchCount prefetchSize globalQos allChannels broker =>
    if s.isOpen then
      match setQos B.toBroker prefetchCount prefetchSize globalQos allChannels
          ⟨s.settings, broker, []⟩ with
      | .ok _ t => some { s with
          settings := t.self
          inForce := t.sent.foldl apply s.inForce
          accepted := ⟨prefetchCount, prefetchSize, allChannels.getD globalQos⟩ }
      | .error _ t => some { s with settings := t.self }
    -- `await self.ready()`
    else none
  | .lost => some { s with isOpen := false }
  | .restore broker order =>
    match RobustChannel.onOpen B.toBroker order ⟨s.settings.channel, broker, []⟩ with
    | .ok _ t => some { s with
        settings := { s.settings with channel := t.self }
        isOpen := true
        inForce := t.sent.foldl apply initial }
    | .error _ t => some { s with
        settings := { s.settings with channel := t.self }
        isOpen := false }
  | .call call broker =>
    match call.run ⟨s.settings.channel, broker, []⟩ with
    | .ok _ t => some { s with settings := { s.settings with channel := t.self } }
    | .error _ _ => none

/-- The QoS in force is the one that was set last. -/
def Survives (s : State A C) : Prop := s.isOpen = true → s.inForce = s.accepted

/-- `_on_open` of the channel returns. -/
def Restored (B : EchoBroker β A C) (s : State A C) (broker : β) (order : SetOrder) : Prop :=
  match RobustChannel.onOpen B.toBroker order ⟨s.settings.channel, broker, []⟩ with
  | .ok _ _ => True
  | .error _ _ => False

/-- The prefetch values that a restore sends are those that were set last, without the global
flag. -/
def Replayable (B : EchoBroker β A C) (s : State A C) : Action β A C → Prop
  | .restore broker order => Restored B s broker order →
      s.accepted = ⟨s.settings.channel.prefetchCount, s.settings.channel.prefetchSize, false⟩
  | _ => True

variable {B : EchoBroker β A C} {s t : State A C} {a : Action β A C} {c : RobustChannel A C}

section Plan

/-- The request is not `basic.qos`. -/
def Neutral (r : Request A C) : Prop := ∀ q : Qos, q.apply r = q

omit [DecidableEq A]

theorem foldl_neutral {rs : List (Request A C)} {q : Qos} (h : ∀ r ∈ rs, Neutral r) :
    rs.foldl apply q = q := by
  induction rs with
  | nil => rfl
  | cons r rs ih =>
    rw [List.foldl_cons, h r List.mem_cons_self q]
    exact ih fun r' hr' => h r' (List.mem_cons_of_mem r hr')

theorem exchange_neutral {x : RobustExchange A} {r : Request A C} (hr : r ∈ x.restorePlan) :
    Neutral r := by
  unfold RobustExchange.restorePlan at hr
  split at hr
  · cases hr
  · rcases List.mem_cons.mp hr with rfl | hr
    · exact fun _ => rfl
    · obtain ⟨e, -, rfl⟩ := List.mem_map.mp hr
      exact fun _ => rfl

theorem queue_neutral {x : RobustQueue A C} {r : Request A C} (hr : r ∈ x.restorePlan) :
    Neutral r := by
  rcases List.mem_cons.mp hr with rfl | hr
  · exact fun _ => rfl
  · rcases List.mem_append.mp hr with hr | hr
    · obtain ⟨e, -, rfl⟩ := List.mem_map.mp hr
      exact fun _ => rfl
    · obtain ⟨e, -, rfl⟩ := List.mem_map.mp hr
      exact fun _ => rfl

theorem foldl_openPlan {order : SetOrder} {q : Qos} :
    (c.openPlan order).foldl apply q = ⟨c.prefetchCount, c.prefetchSize, false⟩ := by
  rw [RobustChannel.openPlan, List.foldl_cons]
  apply foldl_neutral
  intro r hr
  rcases List.mem_append.mp hr with hr | hr
  · obtain ⟨i, -, hi⟩ := List.mem_flatMap.mp hr
    cases hx : c.exchanges.objects.get? i with
    | none =>
      rw [hx] at hi
      cases hi
    | some x =>
      rw [hx] at hi
      exact exchange_neutral hi
  · obtain ⟨i, -, hi⟩ := List.mem_flatMap.mp hr
    cases hx : c.queues.objects.get? i with
    | none =>
      rw [hx] at hi
      cases hi
    | some x =>
      rw [hx] at hi
      exact queue_neutral hi

end Plan

section Steps

omit [DecidableEq A] in
theorem setQos_ok {prefetchCount prefetchSize : ℕ} {globalQos : Bool} {allChannels : Option Bool}
    {reply : Reply} {w : Session (Settings A C) β A C} {b : β}
    (h : setQos B.toBroker prefetchCount prefetchSize globalQos allChannels
      ⟨s.settings, b, []⟩ = .ok reply w) (q : Qos) :
    w.self.channel = { s.settings.channel with
        prefetchCount := prefetchCount, prefetchSize := prefetchSize } ∧
      w.sent.foldl apply q = ⟨prefetchCount, prefetchSize, allChannels.getD globalQos⟩ := by
  rw [setQos, modifySelf_bind] at h
  obtain ⟨hself, hsent, -⟩ := send_ok h
  rw [hself, hsent]
  exact ⟨rfl, rfl⟩

omit [DecidableEq A] in
theorem setQos_error {prefetchCount prefetchSize : ℕ} {globalQos : Bool}
    {allChannels : Option Bool} {e : Exn} {w : Session (Settings A C) β A C} {b : β}
    (h : setQos B.toBroker prefetchCount prefetchSize globalQos allChannels
      ⟨s.settings, b, []⟩ = .error e w) :
    w.self.channel = { s.settings.channel with
      prefetchCount := prefetchCount, prefetchSize := prefetchSize } := by
  rw [setQos, modifySelf_bind] at h
  rw [(send_error h).1]

theorem built_step (hb : s.settings.channel.Built) (h : step B s a = some t) :
    t.settings.channel.Built := by
  cases a with
  | setQos prefetchCount prefetchSize globalQos allChannels broker =>
    simp only [step] at h
    split at h
    · split at h
      · rename_i w hw
        cases h
        rw [(setQos_ok hw initial).1]
        exact .setQos _ _ hb
      · rename_i e w hw
        cases h
        rw [setQos_error hw]
        exact .setQos _ _ hb
    · cases h
  | lost =>
    cases h
    exact hb
  | restore broker order =>
    have hemits := RobustChannel.onOpen_emits (B := B) (o := order)
      (s := ⟨s.settings.channel, broker, []⟩) hb.wellKeyed
    simp only [step] at h
    split at h
    · rename_i u w hw
      cases h
      rw [(hemits.ok hw).1]
      exact hb
    · rename_i e w hw
      cases h
      rw [(hemits.error hw).1]
      exact hb
  | call call broker =>
    simp only [step] at h
    split at h
    · rename_i eff w hw
      cases h
      exact .call (s := ⟨s.settings.channel, broker, []⟩) hb hw
    · cases h

/-- A step leaves the QoS that was set last in force if and only if it is not a restore of
another one. -/
theorem survives_step (hb : s.settings.channel.Built) (hs : Survives s)
    (h : step B s a = some t) : Survives t ↔ Replayable B s a := by
  cases a with
  | setQos prefetchCount prefetchSize globalQos allChannels broker =>
    refine iff_of_true ?_ trivial
    simp only [step] at h
    split at h
    · rename_i hopen
      split at h
      · rename_i w hw
        cases h
        exact fun _ => (setQos_ok hw s.inForce).2
      · cases h
        exact hs
    · cases h
  | lost =>
    cases h
    exact iff_of_true (fun hopen => by cases hopen) trivial
  | restore broker order =>
    have hemits := RobustChannel.onOpen_emits (B := B) (o := order)
      (s := ⟨s.settings.channel, broker, []⟩) hb.wellKeyed
    simp only [step] at h
    split at h
    · rename_i u w hw
      cases h
      have hr : Restored B s broker order := by simp only [Restored, hw]
      have hforce : w.sent.foldl apply initial =
          ⟨s.settings.channel.prefetchCount, s.settings.channel.prefetchSize, false⟩ := by
        rw [(hemits.ok hw).2]
        exact foldl_openPlan
      constructor
      · intro ht _
        exact (ht rfl).symm.trans hforce
      · intro ha _
        exact hforce.trans (ha hr).symm
    · rename_i e w hw
      cases h
      have hr : ¬ Restored B s broker order := by simp only [Restored, hw, not_false_eq_true]
      exact iff_of_true (fun hopen => by cases hopen) (fun hr' => absurd hr' hr)
  | call call broker =>
    refine iff_of_true ?_ trivial
    simp only [step] at h
    split at h
    · cases h
      exact hs
    · cases h

end Steps

/-- In every run of `set_qos`, of other calls and of restores, the QoS that was set last is in
force whenever the channel is ready, if and only if every restore finds the values of that QoS
remembered and its global flag unset. -/
theorem qos_survives_iff (B : EchoBroker β A C) (as : List (Action β A C)) :
    Transition.Throughout (step B) Survives fresh as ↔
      Transition.EachStep (step B) (Replayable B) fresh as :=
  Transition.throughout_iff_eachStep (J := fun s => s.settings.channel.Built)
    (fun _ _ _ hb _ h _ => built_step hb h) (fun _ _ _ hb hs h => survives_step hb hs h)
    .fresh (fun hopen => by cases hopen)

/-- A QoS for all the channels of the connection, and a restore. -/
def globalRun : List (Action (Amqp ℕ) ℕ Unit) :=
  [.restore ⟨[], [], [], 0⟩ .insertion, .setQos 10 0 true none ⟨[], [], [], 0⟩, .lost,
    .restore ⟨[], [], [], 0⟩ .insertion]

/-- The restored channel lacks the global flag. -/
theorem global_flag_lost :
    ¬ Transition.Throughout (step Amqp.amqp) Survives fresh globalRun := by
  intro h
  have hlast := (h.2 _ rfl).2 _ rfl |>.2 _ rfl |>.2 _ rfl
  exact absurd (hlast rfl) (by decide)

end Qos

end AioPika
