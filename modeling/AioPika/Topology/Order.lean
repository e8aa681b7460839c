import AioPika.Foundation.Dependencies
import AioPika.Topology.History
import Mathlib.Data.List.Induction

/-! # The order of a restore

`_on_open` restores the registered exchanges one by one, each with its bindings
right after its own declaration, and then the registered queues. On a broker
that has lost everything, no bind names a missing exchange exactly when every
object that the restore gets to is bound only to exchanges that are restored no
later than itself. A restore ends at the first passive declaration of something
that it has not declared before.
-/

namespace AioPika

variable {A C : Type}

namespace Request

def declares : Request A C → List Entity
  | .exchangeDeclare exchange _ _ _ _ _ _ => [.exchange exchange]
  | .queueDeclare queue _ _ _ _ _ => [.queue queue]
  | _ => []

/-- The entity that a passive declaration checks for. -/
def checks : Request A C → List Entity
  | .exchangeDeclare exchange _ _ _ _ passive _ => if passive then [.exchange exchange] else []
  | .queueDeclare queue _ _ _ passive _ => if passive then [.queue queue] else []
  | _ => []

/-- The exchanges that a bind names. -/
def binds : Request A C → List Entity
  | .exchangeBind destination source _ _ => [.exchange destination, .exchange source]
  | .queueBind _ exchange _ _ => [.exchange exchange]
  | _ => []

/-- The queue that is bound or consumed from. -/
def uses : Request A C → List Entity
  | .queueBind queue _ _ _ => [.queue queue]
  | .basicConsume queue _ _ _ _ _ => [.queue queue]
  | _ => []

end Request

/-- Every exchange is declared before the first bind that names it. -/
def DeclaredBeforeBound (rs : List (Request A C)) : Prop :=
  Dependencies.Respects Request.declares Request.binds ∅ rs

/-- An object that `_on_open` restores. -/
inductive Restorable (A C : Type) where
  | exchange (x : RobustExchange A)
  | queue (q : RobustQueue A C)

namespace Restorable

def entity : Restorable A C → Entity
  | .exchange x => .exchange x.name
  | .queue q => .queue q.name

def passive : Restorable A C → Bool
  | .exchange x => x.passive
  | .queue q => q.passive

/-- The exchanges from which its recorded bindings come. -/
def sources : Restorable A C → List Entity
  | .exchange x => x.bindings.items.map fun e => .exchange (getExchangeName e.1)
  | .queue q => q.bindings.items.map fun e => .exchange (getExchangeName e.1.1)

def declareRequest : Restorable A C → Request A C
  | .exchange x => x.declareRequest
  | .queue q => q.declareRequest

def replay : Restorable A C → List (Request A C)
  | .exchange x => x.bindings.items.map x.bindRequest
  | .queue q => q.replay

/-- Every passive declaration is of something that an earlier object has declared. -/
def Declarable (l : List (Restorable A C)) : Prop :=
  ∀ pre r post, l = pre ++ r :: post → r.passive = true → ∃ p ∈ pre, p.entity = r.entity

/-- Every object that a restore gets to is bound only to itself and to earlier exchanges. -/
def SourcesFirst (l : List (Restorable A C)) : Prop :=
  ∀ pre r post, l = pre ++ r :: post → Declarable (pre ++ [r]) →
    ∀ e ∈ r.sources, e = r.entity ∨ ∃ p ∈ pre, p.entity = e

end Restorable

/-- The registered objects, in the order in which `_on_open` restores them. -/
def RobustChannel.restorables (c : RobustChannel A C) (o : SetOrder) : List (Restorable A C) :=
  ((c.exchanges.iter o).filterMap c.exchanges.objects.get?).map .exchange ++
    ((c.queues.iter o).filterMap c.queues.objects.get?).map .queue

/-- The calls that set up a topology: robust declarations of exchanges that are not internal
and of queues, and robust bindings; objects may be collected. -/
inductive SetupCall (A C : Type) where
  | declareExchange (name : Name) (type : String) (durable autoDelete passive : Bool)
      (arguments : A)
  | declareQueue (uuid : String) (name : Option Name)
      (durable exclusive passive autoDelete : Bool) (arguments : A)
  | bindExchange (destination : ℕ) (exchange : ExchangeParam) (routingKey : Name) (arguments : A)
  | bindQueue (queue : ℕ) (exchange : ExchangeParam) (routingKey : Option Name) (arguments : A)
  | collectExchange (exchange : ℕ)
  | collectQueue (queue : ℕ)

namespace SetupCall

def call : SetupCall A C → ChannelCall A C
  | .declareExchange name type durable autoDelete passive arguments =>
    .declareExchange name type durable autoDelete false passive arguments true
  | .declareQueue uuid name durable exclusive passive autoDelete arguments =>
    .declareQueue uuid name durable exclusive passive autoDelete arguments true
  | .bindExchange destination exchange routingKey arguments =>
    .bindExchange destination exchange routingKey arguments true
  | .bindQueue queue exchange routingKey arguments =>
    .bindQueue queue exchange routingKey arguments true
  | .collectExchange exchange => .collectExchange exchange
  | .collectQueue queue => .collectQueue queue

/-- Perform the calls that succeed, on a new channel to a broker. -/
def setup [DecidableEq A] (b : Amqp A) (calls : List (SetupCall A C)) :
    Session (RobustChannel A C) (Amqp A) A C :=
  calls.foldl (fun s call => match call.call.run s with
    | .ok _ t => t
    | .error _ _ => s) ⟨⟨0, 0, .empty, .empty, 0⟩, b, []⟩

end SetupCall

/-- A session on a new underlay channel of a broker that has lost everything. -/
def onEmptyBroker (s : Session (RobustChannel A C) (Amqp A) A C) :
    Session (RobustChannel A C) (Amqp A) A C :=
  { s with broker := ⟨[], [], [], 0⟩, sent := [] }

/-- The requests that `_on_open` sends on a broker that has lost everything. -/
def reopenRequests [DecidableEq A] (s : Session (RobustChannel A C) (Amqp A) A C)
    (o : SetOrder) : List (Request A C) :=
  match RobustChannel.onOpen Amqp.amqp.toBroker o (onEmptyBroker s) with
  | .ok _ t | .error _ t => t.sent

section Plan

open Dependencies

namespace Restorable

variable {r : Restorable A C} {l : List (Restorable A C)} {D : Set Entity}

theorem declares_declareRequest : r.declareRequest.declares = [r.entity] := by
  cases r <;> rfl

theorem checks_declareRequest :
    r.declareRequest.checks = if r.passive then [r.entity] else [] := by
  cases r <;> rfl

theorem binds_declareRequest : r.declareRequest.binds = [] := by
  cases r <;> rfl

theorem uses_declareRequest : r.declareRequest.uses = [] := by
  cases r <;> rfl

theorem replay_static : ∀ b ∈ r.replay, b.declares = [] ∧ b.checks = [] ∧
    ∀ e ∈ b.uses, e = r.entity := by
  intro b hb
  cases r with
  | exchange x =>
    obtain ⟨e, -, rfl⟩ := List.mem_map.mp hb
    exact ⟨rfl, rfl, by simp [RobustExchange.bindRequest, Request.uses]⟩
  | queue q =>
    rcases List.mem_append.mp hb with hb | hb
    · obtain ⟨e, -, rfl⟩ := List.mem_map.mp hb
      exact ⟨rfl, rfl, fun e he => List.mem_singleton.mp he⟩
    · obtain ⟨e, -, rfl⟩ := List.mem_map.mp hb
      exact ⟨rfl, rfl, fun e he => List.mem_singleton.mp he⟩

theorem replay_binds (hD : r.entity ∈ D) :
    (∀ b ∈ r.replay, ∀ e ∈ b.binds, e ∈ D) ↔ ∀ e ∈ r.sources, e ∈ D := by
  cases r with
  | exchange x =>
    simp only [replay, sources, List.forall_mem_map]
    apply forall₂_congr
    intro e he
    simp only [RobustExchange.bindRequest, Request.binds, List.forall_mem_cons]
    exact ⟨fun h => h.2.1, fun h => ⟨hD, h, by simp⟩⟩
  | queue q =>
    simp only [replay, sources, RobustQueue.replay, List.forall_mem_append, List.forall_mem_map]
    simp [RobustQueue.bindRequest, RobustQueue.consumeRequest, Request.binds]

def plan (r : Restorable A C) : List (Request A C) := r.declareRequest :: r.replay

theorem provided_plan : provided Request.declares r.plan = {r.entity} := by
  ext e
  simp only [plan, provided, List.mem_cons, exists_eq_or_imp, declares_declareRequest,
    Set.mem_singleton_iff]
  constructor
  · rintro (he | ⟨b, hb, he⟩)
    · simpa using he
    · rw [(replay_static b hb).1] at he
      cases he
  · rintro rfl
    simp

theorem mem_provided {e : Entity} :
    e ∈ provided Request.declares (l.flatMap plan) ∪ ∅ ↔ ∃ p ∈ l, p.entity = e := by
  induction l with
  | nil => simp [provided_nil]
  | cons r l ih =>
    rw [Set.union_empty] at ih ⊢
    rw [List.flatMap_cons, provided_append, provided_plan, Set.mem_union, ih]
    simp [eq_comm]

theorem respects_checks_plan :
    Respects Request.declares Request.checks D r.plan ↔ (r.passive = true → r.entity ∈ D) := by
  have hreplay : Respects Request.declares Request.checks
      ({e | e ∈ r.declareRequest.declares} ∪ D) r.replay := by
    apply respects_of_needs
    intro b hb
    rw [(replay_static b hb).2.1]
    simp
  rw [plan, Respects, checks_declareRequest, and_iff_left hreplay]
  cases r.passive <;> simp

theorem respectsUntil_plan :
    RespectsUntil Request.checks Request.declares Request.binds D r.plan ↔
      ((r.passive = true → r.entity ∈ D) → ∀ e ∈ r.sources, e = r.entity ∨ e ∈ D) := by
  have hreplay : RespectsUntil Request.checks Request.declares Request.binds ({r.entity} ∪ D)
      r.replay ↔ ∀ e ∈ r.sources, e ∈ {r.entity} ∪ D := by
    rw [← replay_binds (by simp)]
    exact respectsUntil_of_static (fun b hb => (replay_static b hb).2.1)
      (fun b hb => (replay_static b hb).1)
  have hset : {e | e ∈ r.declareRequest.declares} ∪ D = {r.entity} ∪ D := by
    rw [declares_declareRequest]
    simp
  rw [plan, RespectsUntil, hset, hreplay, checks_declareRequest, binds_declareRequest]
  cases r.passive <;> simp

theorem respects_checks_flatMap :
    Respects Request.declares Request.checks ∅ (l.flatMap plan) ↔ Declarable l := by
  rw [respects_flatMap]
  apply forall₄_congr
  intro pre r post hl
  rw [respects_checks_plan, mem_provided]

theorem declarable_append_singleton :
    Declarable (l ++ [r]) ↔ Declarable l ∧ (r.passive = true → ∃ p ∈ l, p.entity = r.entity) := by
  rw [← respects_checks_flatMap, List.flatMap_append, respects_append, respects_checks_flatMap,
    List.flatMap_singleton, respects_checks_plan, mem_provided]

/-- The restores bind no missing exchange until they end exactly when the sources come first. -/
theorem respectsUntil_flatMap_plan :
    RespectsUntil Request.checks Request.declares Request.binds ∅ (l.flatMap plan) ↔
      SourcesFirst l := by
  rw [respectsUntil_flatMap]
  apply forall₄_congr
  intro pre r post hl
  rw [respects_checks_flatMap, respectsUntil_plan, declarable_append_singleton, and_imp]
  simp only [mem_provided]

theorem respects_uses_flatMap :
    Respects Request.declares Request.uses ∅ (l.flatMap plan) := by
  apply respects_flatMap.mpr
  intro pre r post hl
  constructor
  · simp [uses_declareRequest]
  · apply respects_of_needs
    intro b hb e he
    left
    rw [declares_declareRequest, (replay_static b hb).2.2 e he]
    exact List.mem_singleton_self _

end Restorable

theorem flatMap_elim {α β γ : Type} {f : α → Option β} {g h : β → List γ} {l : List α}
    (hg : ∀ a ∈ l, ∀ b, f a = some b → g b = h b) :
    l.flatMap (fun a => (f a).elim [] g) = (l.filterMap f).flatMap h := by
  induction l with
  | nil => rfl
  | cons a l ih =>
    rw [List.flatMap_cons, ih fun a ha => hg a (List.mem_cons_of_mem _ ha)]
    cases hf : f a with
    | none => rw [List.filterMap_cons_none hf]; rfl
    | some b =>
      rw [List.filterMap_cons_some hf, List.flatMap_cons, Option.elim_some,
        hg a List.mem_cons_self b hf]

variable {c : RobustChannel A C} {o : SetOrder}

theorem openPlan_eq (hk : c.WellKeyed) : c.openPlan o =
    .basicQos c.prefetchCount c.prefetchSize false ::
      (c.restorables o).flatMap Restorable.plan := by
  have hx : c.exchangePlan o = (((c.exchanges.iter o).filterMap c.exchanges.objects.get?).map
      Restorable.exchange).flatMap (Restorable.plan (C := C)) := by
    rw [List.flatMap_map]
    apply flatMap_elim
    intro i hi x hx
    obtain ⟨n, y, hm⟩ := WeakRegistry.mem_iter.mp hi
    obtain rfl := Option.some.inj (hx.symm.trans hm.2)
    obtain ⟨rfl, hn⟩ := hk.exchange n i x hm
    exact if_neg hn
  have hq : c.queuePlan o = (((c.queues.iter o).filterMap c.queues.objects.get?).map
      Restorable.queue).flatMap Restorable.plan := by
    rw [List.flatMap_map]
    exact flatMap_elim fun i hi q hq => rfl
  rw [RobustChannel.openPlan, hx, hq, RobustChannel.restorables, List.flatMap_append]

theorem mem_restorables {r : Restorable A C} (hk : c.WellKeyed) (hr : r ∈ c.restorables o) :
    r.entity ≠ .exchange "" ∧ r.entity ≠ .queue "" := by
  rcases List.mem_append.mp hr with hr | hr
  · obtain ⟨x, hx, rfl⟩ := List.mem_map.mp hr
    obtain ⟨i, hi, hx⟩ := List.mem_filterMap.mp hx
    obtain ⟨n, y, hm⟩ := WeakRegistry.mem_iter.mp hi
    obtain rfl := Option.some.inj (hx.symm.trans hm.2)
    obtain ⟨rfl, hn⟩ := hk.exchange n i x hm
    simpa [Restorable.entity] using hn
  · obtain ⟨q, hq, rfl⟩ := List.mem_map.mp hr
    obtain ⟨i, hi, hq⟩ := List.mem_filterMap.mp hq
    obtain ⟨n, y, hm⟩ := WeakRegistry.mem_iter.mp hi
    obtain rfl := Option.some.inj (hq.symm.trans hm.2)
    obtain ⟨rfl, hn⟩ := hk.queue n i q hm
    simpa [Restorable.entity] using hn

/-- Until it ends, the plan of `_on_open` binds no missing exchange exactly when the sources come
first. -/
theorem respectsUntil_openPlan (hk : c.WellKeyed) :
    RespectsUntil Request.checks Request.declares Request.binds ∅ (c.openPlan o) ↔
      Restorable.SourcesFirst (c.restorables o) := by
  rw [openPlan_eq hk, ← Restorable.respectsUntil_flatMap_plan]
  simp [RespectsUntil, Request.checks, Request.declares, Request.binds]

theorem respects_uses_openPlan (hk : c.WellKeyed) :
    Respects Request.declares Request.uses ∅ (c.openPlan o) := by
  rw [openPlan_eq hk]
  constructor
  · simp [Request.uses]
  · simpa [Request.declares] using Restorable.respects_uses_flatMap (l := c.restorables o)

end Plan

section Run

open Dependencies

/-- The requests of a restore, whose declarations have a name. -/
def Request.Restoring : Request A C → Prop
  | .basicQos _ _ _ | .exchangeBind _ _ _ _ | .queueBind _ _ _ _ | .basicConsume _ _ _ _ _ _ => True
  | .exchangeDeclare exchange _ _ _ _ _ _ => exchange ≠ ""
  | .queueDeclare queue _ _ _ _ _ => queue ≠ ""
  | _ => False

theorem restoring_openPlan {c : RobustChannel A C} {o : SetOrder} (hk : c.WellKeyed) :
    ∀ b ∈ c.openPlan o, b.Restoring := by
  rw [openPlan_eq hk]
  intro b hb
  rcases List.mem_cons.mp hb with rfl | hb
  · trivial
  obtain ⟨r, hr, hb⟩ := List.mem_flatMap.mp hb
  obtain ⟨hx, hq⟩ := mem_restorables hk hr
  cases r with
  | exchange x =>
    rcases List.mem_cons.mp hb with rfl | hb
    · exact fun hn => hx (congrArg Entity.exchange hn)
    · obtain ⟨e, -, rfl⟩ := List.mem_map.mp hb
      trivial
  | queue q =>
    rcases List.mem_cons.mp hb with rfl | hb
    · exact fun hn => hq (congrArg Entity.queue hn)
    · rcases List.mem_append.mp hb with hb | hb <;>
        obtain ⟨e, -, rfl⟩ := List.mem_map.mp hb <;> trivial

variable [DecidableEq A] {σ : Type} {s t : Session σ (Amqp A) A C} {r : Request A C}
  {rs : List (Request A C)} {b b' : Amqp A} {reply : Reply} {D : Set Entity} {d : Entity}
  {n k : Name} {a : A}

omit [DecidableEq A] in
theorem has_bind (h : b.bind ⟨d, n, k, a⟩ = (.ok reply, b')) :
    b.has d = true ∧ b.has (.exchange n) = true ∧ ∀ e, b'.has e = true ↔ b.has e = true := by
  obtain ⟨hd, hx, -⟩ := Amqp.bind_ok h
  refine ⟨hd, hx, fun e => ?_⟩
  rw [Amqp.has_iff, Amqp.has_iff, Amqp.holds_bind h]

/-- The broker refuses a request of a restore only if it lacks what the request checks for or
binds, or a queue that it uses. -/
theorem granted_of_has (hr : r.Restoring) (hc : ∀ e ∈ r.checks, b.has e = true)
    (hx : ∀ e ∈ r.binds, b.has e = true) (hq : ∀ e ∈ r.uses, b.has e = true) :
    ∃ reply b', Amqp.handle r b = (.ok reply, b') := by
  cases r with
  | basicQos => exact ⟨_, _, rfl⟩
  | exchangeDeclare n t u a i p args =>
    replace hr : n ≠ "" := hr
    by_cases hm : n ∈ b.exchanges
    · exact ⟨{}, b, by simp [Amqp.handle, hr, hm]⟩
    · cases p with
      | false =>
        exact ⟨{}, { b with exchanges := n :: b.exchanges }, by simp [Amqp.handle, hr, hm]⟩
      | true => exact absurd (Amqp.holds_of_has (hc _ (List.mem_singleton_self _))) hm
  | queueDeclare n u x a p args =>
    replace hr : n ≠ "" := hr
    by_cases hm : n ∈ b.queues
    · exact ⟨{ queue := some n }, b, by simp [Amqp.handle, Amqp.queueName, hr, hm]⟩
    · cases p with
      | false =>
        exact ⟨{ queue := some n },
          { b with queues := n :: b.queues, generated := b.generated + 1 },
          by simp [Amqp.handle, Amqp.queueName, hr, hm]⟩
      | true => exact absurd (Amqp.holds_of_has (hc _ (List.mem_singleton_self _))) hm
  | exchangeBind d n k a =>
    exact ⟨{}, _, Amqp.bind_of_has (x := ⟨.exchange d, n, k, a⟩) (hx _ List.mem_cons_self)
      (hx _ (List.mem_cons_of_mem _ (List.mem_singleton_self _)))⟩
  | queueBind q n k a =>
    exact ⟨{}, _, Amqp.bind_of_has (x := ⟨.queue q, n, k, a⟩) (hq _ (List.mem_singleton_self _))
      (hx _ (List.mem_singleton_self _))⟩
  | basicConsume q c k x a o =>
    have hm : q ∈ b.queues := Amqp.holds_of_has (hq _ (List.mem_singleton_self _))
    cases o with
    | some tag => exact ⟨{ consumerTag := some tag }, b, by simp [Amqp.handle, hm]⟩
    | none =>
      exact ⟨{ consumerTag := some s!"amq.ctag-{b.generated}" },
        { b with generated := b.generated + 1 }, by simp [Amqp.handle, hm]⟩
  | _ => cases hr

theorem has_of_granted (hr : r.Restoring) (h : Amqp.handle r b = (.ok reply, b')) :
    (∀ e ∈ r.checks, b.has e = true) ∧ (∀ e ∈ r.binds, b.has e = true) ∧
      ∀ e, b'.has e = true ↔ e ∈ r.declares ∨ b.has e = true := by
  cases r with
  | basicQos => cases h; simp [Request.checks, Request.binds, Request.declares]
  | exchangeDeclare n t u a i p args =>
    replace hr : n ≠ "" := hr
    refine ⟨?_, by simp [Request.binds], ?_⟩
    · cases p with
      | false => simp [Request.checks]
      | true =>
        by_cases hm : n ∈ b.exchanges
        · simp [Request.checks, Amqp.has, hr, hm]
        · simp [Amqp.handle, hr, hm] at h
    · intro e
      rw [Amqp.has_iff, Amqp.has_iff, (Amqp.holds_exchangeDeclare h).2]
      simp only [Request.declares, List.mem_singleton]
      constructor
      · rintro ⟨hne, hm | rfl⟩
        · exact Or.inr ⟨hne, hm⟩
        · exact Or.inl rfl
      · rintro (rfl | ⟨hne, hm⟩)
        · exact ⟨by simpa using hr, Or.inr rfl⟩
        · exact ⟨hne, Or.inl hm⟩
  | queueDeclare n u x a p args =>
    replace hr : n ≠ "" := hr
    refine ⟨?_, by simp [Request.binds], ?_⟩
    · cases p with
      | false => simp [Request.checks]
      | true =>
        by_cases hm : n ∈ b.queues
        · simp [Request.checks, Amqp.has, hm]
        · simp [Amqp.handle, Amqp.queueName, hr, hm] at h
    · intro e
      obtain ⟨m, hm, -, hiff⟩ := Amqp.holds_queueDeclare (e := e) h
      have hecho := (Amqp.amqp (C := C)).echo_queue n u x a p args b reply hr (congrArg Prod.fst h)
      obtain rfl := Option.some.inj (hm.symm.trans hecho)
      rw [Amqp.has_iff, Amqp.has_iff, hiff]
      simp only [Request.declares, List.mem_singleton]
      constructor
      · rintro ⟨hne, hm | rfl⟩
        · exact Or.inr ⟨hne, hm⟩
        · exact Or.inl rfl
      · rintro (rfl | ⟨hne, hm⟩)
        · exact ⟨by simp, Or.inr rfl⟩
        · exact ⟨hne, Or.inl hm⟩
  | exchangeBind d n k a =>
    obtain ⟨hd, hn, hiff⟩ := has_bind h
    simp [Request.checks, Request.binds, Request.declares, hd, hn, hiff]
  | queueBind q n k a =>
    obtain ⟨-, hn, hiff⟩ := has_bind h
    simp [Request.checks, Request.binds, Request.declares, hn, hiff]
  | basicConsume q c k x a o =>
    have hiff : ∀ e, b'.has e = true ↔ b.has e = true := by
      intro e
      rw [Amqp.has_iff, Amqp.has_iff, Amqp.holds_consume h]
    simp [Request.checks, Request.binds, Request.declares, hiff]
  | _ => cases hr

omit [DecidableEq A] in
theorem checks_or_binds : r.checks = [] ∨ r.binds = [] := by
  cases r <;> first | exact Or.inl rfl | exact Or.inr rfl

/-- What is sent declares each exchange before it is bound exactly when the requests bind no
missing exchange until they end. -/
theorem sent_respects_iff (hrs : ∀ r ∈ rs, r.Restoring) (hD : ∀ e, s.broker.has e = true ↔ e ∈ D)
    (hused : Respects Request.declares Request.uses D rs)
    (h : sendAll Amqp.amqp.toBroker rs s = .ok () t ∨
      ∃ x, sendAll Amqp.amqp.toBroker rs s = .error x t) :
    ∃ l, t.sent = s.sent ++ l ∧ (Respects Request.declares Request.binds D l ↔
      RespectsUntil Request.checks Request.declares Request.binds D rs) := by
  induction rs generalizing s D with
  | nil =>
    rcases h with h | ⟨x, h⟩ <;> cases h
    exact ⟨[], by simp, Iff.rfl⟩
  | cons r rs ih =>
    obtain ⟨hused, hrest⟩ := hused
    have hr := hrs r List.mem_cons_self
    cases hs : send Amqp.amqp.toBroker r s with
    | ok reply u =>
      rw [sendAll_cons_ok hs] at h
      obtain ⟨-, hsent, hb⟩ := send_ok hs
      obtain ⟨hc, hx, hu⟩ := has_of_granted hr hb
      obtain ⟨l, hl, hiff⟩ := ih (s := u) (D := {e | e ∈ r.declares} ∪ D)
        (fun r hr => hrs r (List.mem_cons_of_mem _ hr))
        (fun e => (hu e).trans (or_congr Iff.rfl (hD e))) hrest h
      have hc : ∀ e ∈ r.checks, e ∈ D := fun e he => (hD e).mp (hc e he)
      refine ⟨r :: l, by rw [hl, hsent]; simp, ?_⟩
      rw [Respects, RespectsUntil, hiff, forall_prop_of_true hc]
    | error x u =>
      rw [sendAll_cons_error hs] at h
      obtain ⟨-, hsent, y, -, hb⟩ := send_error hs
      rcases h with h | ⟨x', h⟩ <;> cases h
      refine ⟨[r], hsent, ?_⟩
      -- the request is refused because it checks for, or binds, what is missing
      have hmissing : ¬ ((∀ e ∈ r.checks, e ∈ D) ∧ ∀ e ∈ r.binds, e ∈ D) := by
        rintro ⟨hc, hx⟩
        obtain ⟨reply, b', hok⟩ := granted_of_has hr (fun e he => (hD e).mpr (hc e he))
          (fun e he => (hD e).mpr (hx e he)) (fun e he => (hD e).mpr (hused e he))
        cases (congrArg Prod.fst hok).symm.trans (congrArg Prod.fst hb)
      rcases checks_or_binds (r := r) with hc | hx
      · have hx : ¬ ∀ e ∈ r.binds, e ∈ D := fun hx => hmissing ⟨by simp [hc], hx⟩
        exact iff_of_false (fun h => hx h.1) fun h => hx (h (by simp [hc])).1
      · have hc : ¬ ∀ e ∈ r.checks, e ∈ D := fun hc => hmissing ⟨hc, by simp [hx]⟩
        exact iff_of_true ⟨by simp [hx], trivial⟩ fun h => absurd h hc

end Run

section Setup

open Dependencies

variable [DecidableEq A]

theorem SetupCall.setup_sound (b : Amqp A) (calls : List (SetupCall A C)) :
    (setup b calls).self.WellKeyed ∧ (setup b calls).self.Attached := by
  induction calls using List.reverseRecOn with
  | nil =>
    refine ⟨⟨?_, ?_, WeakRegistry.below_empty, WeakRegistry.below_empty⟩, ?_⟩ <;>
      exact fun n i x hm => absurd hm.1 WeakRegistry.not_listed_empty
  | append_singleton calls call ih =>
    rw [setup, List.foldl_append, ← setup]
    obtain ⟨hk, ha⟩ := ih
    cases hr : call.call.run (setup b calls) with
    | error x t => simp only [List.foldl_cons, hr, List.foldl_nil]; exact ⟨hk, ha⟩
    | ok eff t =>
      simp only [List.foldl_cons, hr, List.foldl_nil]
      obtain ⟨hc, -⟩ := ChannelCall.run_change hr
      constructor
      · exact hc.wellKeyed hk
      · rcases hc.attached hk ha with ha | ⟨n, i, x, -, hd, -⟩
        · exact ha
        · cases call <;> cases hd

variable {s : Session (RobustChannel A C) (Amqp A) A C} {o : SetOrder}

theorem reopenRequests_eq (hk : s.self.WellKeyed) (ha : s.self.Attached) :
    ∃ t, reopenRequests s o = t.sent ∧
      (sendAll Amqp.amqp.toBroker (s.self.openPlan o) (onEmptyBroker s) = .ok () t ∨
        ∃ x, sendAll Amqp.amqp.toBroker (s.self.openPlan o) (onEmptyBroker s) = .error x t) := by
  have hrun := RobustChannel.onOpen_run (B := Amqp.amqp) (o := o) (s := onEmptyBroker s) hk ha
  cases hs : sendAll Amqp.amqp.toBroker (s.self.openPlan o) (onEmptyBroker s) with
  | ok u t => exact ⟨t, by simp only [reopenRequests, hrun.trans hs], Or.inl rfl⟩
  | error x t => exact ⟨t, by simp only [reopenRequests, hrun.trans hs], Or.inr ⟨x, rfl⟩⟩

/-- On a broker that has lost everything, `_on_open` declares every exchange before the first
bind that names it if and only if the sources of the bindings come first. -/
theorem declares_before_binding_iff (b : Amqp A) (calls : List (SetupCall A C)) (o : SetOrder) :
    let s := SetupCall.setup b calls
    DeclaredBeforeBound (reopenRequests s o) ↔
      Restorable.SourcesFirst (s.self.restorables o) := by
  intro s
  obtain ⟨hk, ha⟩ := SetupCall.setup_sound b calls
  obtain ⟨t, ht, hs⟩ := reopenRequests_eq (s := s) (o := o) hk ha
  have hlost : ∀ e, (onEmptyBroker s).broker.has e = true ↔ e ∈ (∅ : Set Entity) := by
    intro e
    cases e <;> simp [onEmptyBroker, Amqp.has]
  obtain ⟨l, hl, hiff⟩ := sent_respects_iff (restoring_openPlan hk) hlost
    (respects_uses_openPlan hk) hs
  rw [ht, hl, ← respectsUntil_openPlan hk, ← hiff]
  rfl

/-- An exchange that is declared before the source of its binding. -/
def destinationFirst : List (SetupCall ℕ Unit) :=
  [.declareExchange "destination" "direct" false false false 0,
    .declareExchange "source" "direct" false false false 0,
    .bindExchange 0 (.name "source") "" 0]

/-- The bind is sent before its source is declared. -/
theorem destination_bound_first :
    ¬ DeclaredBeforeBound
      (reopenRequests (SetupCall.setup ⟨[], [], [], 0⟩ destinationFirst) .insertion) := by
  have hsent : reopenRequests (SetupCall.setup ⟨[], [], [], 0⟩ destinationFirst) .insertion =
      [.basicQos 0 0 false, .exchangeDeclare "destination" "direct" false false false false 0,
        .exchangeBind "destination" "source" "" 0] := rfl
  rw [hsent]
  simp [DeclaredBeforeBound, Respects, Request.declares, Request.binds]

end Setup

end AioPika
