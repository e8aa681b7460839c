import AioPika.Queue.Robust
import Mathlib.Data.List.Induction

/-! # Consumers across recovery

Consumers are started and cancelled in any order, each with or without success,
and the queue may be restored on a fresh underlay channel at any point. The
registry of a robust queue is determined by the log of what succeeded, and a
restore starts every registered consumer once.
-/

namespace AioPika.RobustQueue

variable {β A C : Type}

/-- A call on the queue: restores come with the state of the broker behind the new underlay. -/
inductive ConsumerOp (β A C : Type) where
  | consume (callback : C) (noAck exclusive : Bool) (arguments : A)
      (consumerTag : Option ConsumerTag) (robust : Bool)
  | cancel (consumerTag : ConsumerTag)
  | restore (underlay : β)

inductive ConsumerEvent (A C : Type) where
  | started (consumerTag : ConsumerTag) (kwargs : ConsumeKwargs A C) (robust : Bool)
  | cancelled (consumerTag : ConsumerTag)
  | restored (sent : List (Request A C))
  | failed

def perform (B : Broker β A C) (s : Session (RobustQueue A C) β A C) :
    ConsumerOp β A C → Session (RobustQueue A C) β A C × ConsumerEvent A C
  | .consume callback noAck exclusive arguments consumerTag robust =>
    match consume B callback noAck exclusive arguments consumerTag robust s with
    | .ok tag t => (t, .started tag ⟨callback, noAck, exclusive, arguments⟩ robust)
    | .error _ t => (t, .failed)
  | .cancel consumerTag =>
    match cancel B consumerTag s with
    | .ok _ t => (t, .cancelled consumerTag)
    | .error _ t => (t, .failed)
  | .restore underlay =>
    match restore B { s with broker := underlay, sent := [] } with
    | .ok _ t => (t, .restored t.sent)
    | .error _ t => (t, .failed)

def performAll (B : Broker β A C) (s : Session (RobustQueue A C) β A C)
    (ops : List (ConsumerOp β A C)) :
    Session (RobustQueue A C) β A C × List (ConsumerEvent A C) :=
  ops.foldl (fun r op => ((perform B r.1 op).1, r.2 ++ [(perform B r.1 op).2])) (s, [])

/-- What an event says about the consumer with a given tag. -/
def ConsumerEvent.update (tag : ConsumerTag) (v : Option (ConsumeKwargs A C)) :
    ConsumerEvent A C → Option (ConsumeKwargs A C)
  | .started t kwargs true => if tag = t then some kwargs else v
  | .cancelled t => if tag = t then none else v
  | _ => v

/-- The parameters of the latest robust start of a tag that has not been cancelled since. -/
def latestStart (log : List (ConsumerEvent A C)) (tag : ConsumerTag) :
    Option (ConsumeKwargs A C) :=
  log.foldl (ConsumerEvent.update tag) none

/-- The `basic_consume` requests for a given tag. -/
def IsConsume (tag : Option ConsumerTag) : Request A C → Bool
  | .basicConsume _ _ _ _ _ t => t = tag
  | _ => false

theorem performAll_snoc (B : Broker β A C) (s : Session (RobustQueue A C) β A C)
    (ops : List (ConsumerOp β A C)) (op : ConsumerOp β A C) :
    performAll B s (ops ++ [op]) =
      ((perform B (performAll B s ops).1 op).1,
        (performAll B s ops).2 ++ [(perform B (performAll B s ops).1 op).2]) := by
  simp [performAll, List.foldl_append]

theorem latestStart_snoc (log : List (ConsumerEvent A C)) (ev : ConsumerEvent A C)
    (tag : ConsumerTag) :
    latestStart (log ++ [ev]) tag = ev.update tag (latestStart log tag) := by
  simp [latestStart, List.foldl_append]

variable {B : TagBroker β A C} {s t : Session (RobustQueue A C) β A C}

theorem perform_restore_consumers (underlay : β) :
    (perform B.toBroker s (.restore underlay)).1.self.consumers = s.self.consumers := by
  rcases restore_self (B := B) (s := { s with broker := underlay, sent := [] }) with
    ⟨n, ⟨t, h, ht⟩ | ⟨x, t, h, ht⟩⟩ <;> simp [perform, h, ht]

theorem perform_consumers (op : ConsumerOp β A C) (tag : ConsumerTag) :
    (perform B.toBroker s op).1.self.consumers.get? tag =
      (perform B.toBroker s op).2.update tag (s.self.consumers.get? tag) := by
  cases op with
  | consume c k e a o robust =>
    cases h : consume B.toBroker c k e a o robust s with
    | error x t => simp [perform, h, ConsumerEvent.update, consume_error h]
    | ok tag' t =>
      have ht := (consume_ok h).1
      cases robust with
      | true => simpa [perform, h, ConsumerEvent.update, ht] using Dict.get?_set
      | false => simp [perform, h, ConsumerEvent.update, ht]
  | cancel tag' =>
    cases h : cancel B.toBroker tag' s with
    | error x t => simp [perform, h, ConsumerEvent.update, cancel_error h]
    | ok reply t =>
      simpa [perform, h, ConsumerEvent.update, (cancel_ok h).1] using Dict.get?_pop
  | restore underlay =>
    rw [perform_restore_consumers]
    cases h : restore B.toBroker { s with broker := underlay, sent := [] } <;>
      simp [perform, h, ConsumerEvent.update]

/-- The registry of a new queue is at every point what the log says. -/
theorem performAll_consumers (q : RobustQueue A C) (b : β) (ops : List (ConsumerOp β A C))
    (tag : ConsumerTag) :
    let r := performAll B.toBroker ⟨{ q with consumers := .empty }, b, []⟩ ops
    r.1.self.consumers.get? tag = latestStart r.2 tag := by
  induction ops using List.reverseRecOn with
  | nil => rfl
  | append_singleton ops op ih =>
    simp only [performAll_snoc, latestStart_snoc] at ih ⊢
    rw [perform_consumers, ih]

/-- A replay starts the registered consumer of each tag once. -/
theorem filter_replay (q : RobustQueue A C) (tag : ConsumerTag) :
    q.replay.filter (IsConsume (some tag)) =
      (q.consumers.get? tag).toList.map fun v => q.consumeRequest (tag, v) := by
  have hb : (q.bindings.items.map (q.bindRequest (C := C))).filter (IsConsume (some tag)) = [] :=
    List.filter_eq_nil_iff.mpr fun r hr => by
      obtain ⟨e, -, rfl⟩ := List.mem_map.mp hr
      simp [bindRequest, IsConsume]
  have hc : (fun e => IsConsume (some tag) (q.consumeRequest e)) = fun e => decide (e.1 = tag) := by
    funext e; simp [consumeRequest, IsConsume]
  calc q.replay.filter (IsConsume (some tag))
      = (q.consumers.items.map q.consumeRequest).filter (IsConsume (some tag)) := by
        rw [replay, List.filter_append, hb, List.nil_append]
    _ = (q.consumers.items.filter fun e => e.1 = tag).map q.consumeRequest := by
        rw [List.filter_map]; simp only [Function.comp_def, hc]
    _ = _ := by rw [Dict.filter_items, List.map_map]; rfl

theorem filter_replay_none (q : RobustQueue A C) : q.replay.filter (IsConsume none) = [] := by
  apply List.filter_eq_nil_iff.mpr
  intro r hr
  simp only [replay, List.mem_append, List.mem_map] at hr
  rcases hr with ⟨e, -, rfl⟩ | ⟨e, -, rfl⟩ <;>
    simp [bindRequest, consumeRequest, IsConsume]

theorem perform_restored {underlay : β} {sent : List (Request A C)}
    (h : (perform B.toBroker s (.restore underlay)).2 = .restored sent) :
    sent = s.self.declareRequest ::
      (perform B.toBroker s (.restore underlay)).1.self.replay := by
  cases hr : restore B.toBroker { s with broker := underlay, sent := [] } with
  | error x t => simp [perform, hr] at h
  | ok u t =>
    simp only [perform, hr, ConsumerEvent.restored.injEq] at h ⊢
    rw [← h, restore_sent hr]
    rfl

/-- Consumers survive recovery exactly: the registry holds the latest robust start of each tag
that was not cancelled since, no restore changes it, and every restore that succeeds starts
each registered consumer exactly once, with its registered parameters. -/
theorem consumers_survive_recovery (B : TagBroker β A C) (q : RobustQueue A C) (b : β)
    (ops : List (ConsumerOp β A C)) :
    let r := performAll B.toBroker ⟨{ q with consumers := .empty }, b, []⟩ ops
    (∀ tag, r.1.self.consumers.get? tag = latestStart r.2 tag) ∧
    ∀ underlay,
      let r' := perform B.toBroker r.1 (.restore underlay)
      r'.1.self.consumers = r.1.self.consumers ∧
      ∀ sent, r'.2 = .restored sent →
        sent.filter (IsConsume none) = [] ∧
        ∀ tag, sent.filter (IsConsume (some tag)) = (latestStart r.2 tag).toList.map fun v =>
          .basicConsume r'.1.self.name v.callback v.noAck v.exclusive v.arguments (some tag) := by
  intro r
  have hr : ∀ tag, r.1.self.consumers.get? tag = latestStart r.2 tag :=
    performAll_consumers q b ops
  refine ⟨hr, ?_⟩
  intro underlay r'
  have hc : r'.1.self.consumers = r.1.self.consumers := perform_restore_consumers underlay
  have hd : ∀ tag, IsConsume tag (r.1.self.declareRequest (C := C)) = false := fun tag => rfl
  refine ⟨hc, ?_⟩
  intro sent hs
  obtain rfl := perform_restored hs
  constructor
  · rw [List.filter_cons_of_neg (by simp [hd]), filter_replay_none]
  · intro tag
    rw [List.filter_cons_of_neg (by simp [hd]), filter_replay, hc, hr]
    rfl

end AioPika.RobustQueue
