import AioPika.Foundation.Runs
import AioPika.Topology.History

/-! # Deletion and recovery

An entity that has been deleted is honoured as long as no later `_on_open`
declares it, binds it, consumes from it or fails because of it. The histories
that honour every deletion are those in which a deletion finds no other mention
of the entity than the registry entry that it takes away.
-/

namespace AioPika

variable {A C : Type}

/-- A request declares an entity, binds it, or consumes from it. -/
def Request.Names (e : Entity) : Request A C → Prop
  | .exchangeDeclare exchange _ _ _ _ _ _ => e = .exchange exchange
  | .exchangeBind destination source _ _ => e = .exchange destination ∨ e = .exchange source
  | .queueDeclare queue _ _ _ _ _ => e = .queue queue
  | .queueBind queue exchange _ _ => e = .queue queue ∨ e = .exchange exchange
  | .basicConsume queue _ _ _ _ _ => e = .queue queue
  | _ => False

/-- What recovery works from mentions an entity. -/
inductive Mentions (c : RobustChannel A C) : Entity → Prop
  | exchange {n : Name} {i : ℕ} {x : RobustExchange A} :
      c.exchanges.Mem n i x → Mentions c (.exchange n)
  | source {n : Name} {i : ℕ} {x : RobustExchange A} {p : ExchangeParam}
      {v : ExchangeBindKwargs A} :
      c.exchanges.Mem n i x → x.bindings.get? p = some v →
      Mentions c (.exchange (getExchangeName p))
  | queue {n : Name} {i : ℕ} {q : RobustQueue A C} :
      c.queues.Mem n i q → Mentions c (.queue n)
  | queueSource {n : Name} {i : ℕ} {q : RobustQueue A C} {k : ExchangeParam × Name} {a : A} :
      c.queues.Mem n i q → q.bindings.get? k = some a →
      Mentions c (.exchange (getExchangeName k.1))

namespace RobustChannel

variable {c : RobustChannel A C} {o : SetOrder} {e : Entity}

theorem names_exchangePlan (hk : c.WellKeyed) : (∃ r ∈ c.exchangePlan o, r.Names e) ↔
    ∃ n i x, c.exchanges.Mem n i x ∧ (e = .exchange n ∨
      ∃ p v, x.bindings.get? p = some v ∧ e = .exchange (getExchangeName p)) := by
  simp only [exchangePlan, List.mem_flatMap, WeakRegistry.mem_iter]
  constructor
  · rintro ⟨r, ⟨i, ⟨n, x, hm⟩, hr⟩, he⟩
    obtain ⟨rfl, hn⟩ := hk.exchange n i x hm
    simp only [hm.2, Option.elim_some, RobustExchange.restorePlan, if_neg hn, List.mem_cons,
      List.mem_map] at hr
    refine ⟨x.name, i, x, hm, ?_⟩
    rcases hr with rfl | ⟨⟨p, v⟩, hp, rfl⟩
    · exact Or.inl he
    · rcases he with he | he
      · exact Or.inl he
      · exact Or.inr ⟨p, v, Dict.mem_items_iff.mp hp, he⟩
  · rintro ⟨n, i, x, hm, he⟩
    obtain ⟨rfl, hn⟩ := hk.exchange n i x hm
    rcases he with rfl | ⟨p, v, hp, rfl⟩
    · refine ⟨x.declareRequest, ⟨i, ⟨x.name, x, hm⟩, ?_⟩, rfl⟩
      simp [hm.2, RobustExchange.restorePlan, hn]
    · refine ⟨x.bindRequest (p, v), ⟨i, ⟨x.name, x, hm⟩, ?_⟩, Or.inr rfl⟩
      simp only [hm.2, Option.elim_some, RobustExchange.restorePlan, if_neg hn]
      exact List.mem_cons_of_mem _ (List.mem_map_of_mem (Dict.mem_items_iff.mpr hp))

theorem names_queuePlan (hk : c.WellKeyed) : (∃ r ∈ c.queuePlan o, r.Names e) ↔
    ∃ n i q, c.queues.Mem n i q ∧ (e = .queue n ∨
      ∃ k a, q.bindings.get? k = some a ∧ e = .exchange (getExchangeName k.1)) := by
  simp only [queuePlan, List.mem_flatMap, WeakRegistry.mem_iter]
  constructor
  · rintro ⟨r, ⟨i, ⟨n, q, hm⟩, hr⟩, he⟩
    obtain ⟨rfl, -⟩ := hk.queue n i q hm
    simp only [hm.2, Option.elim_some, RobustQueue.restorePlan, RobustQueue.replay, List.mem_cons,
      List.mem_append, List.mem_map] at hr
    refine ⟨q.name, i, q, hm, ?_⟩
    rcases hr with rfl | ⟨⟨k, a⟩, hp, rfl⟩ | ⟨v, -, rfl⟩
    · exact Or.inl he
    · rcases he with he | he
      · exact Or.inl he
      · exact Or.inr ⟨k, a, Dict.mem_items_iff.mp hp, he⟩
    · exact Or.inl he
  · rintro ⟨n, i, q, hm, he⟩
    obtain ⟨rfl, -⟩ := hk.queue n i q hm
    rcases he with rfl | ⟨k, a, hp, rfl⟩
    · exact ⟨q.declareRequest, ⟨i, ⟨q.name, q, hm⟩, by simp [hm.2, RobustQueue.restorePlan]⟩, rfl⟩
    · refine ⟨q.bindRequest (k, a), ⟨i, ⟨q.name, q, hm⟩, ?_⟩, Or.inr rfl⟩
      simp only [hm.2, Option.elim_some, RobustQueue.restorePlan, RobustQueue.replay]
      exact List.mem_cons_of_mem _ (List.mem_append_left _
        (List.mem_map_of_mem (Dict.mem_items_iff.mpr hp)))

theorem names_openPlan (hk : c.WellKeyed) :
    (∃ r ∈ c.openPlan o, r.Names e) ↔ Mentions c e := by
  have hsplit : (∃ r ∈ c.openPlan o, r.Names e) ↔
      (∃ r ∈ c.exchangePlan o, r.Names e) ∨ ∃ r ∈ c.queuePlan o, r.Names e := by
    simp only [openPlan, List.mem_cons, List.mem_append, or_and_right, exists_or, exists_eq_left,
      Request.Names, false_or]
  rw [hsplit, names_exchangePlan hk, names_queuePlan hk]
  constructor
  · rintro (⟨n, i, x, hm, rfl | ⟨p, v, hp, rfl⟩⟩ | ⟨n, i, q, hm, rfl | ⟨k, a, hp, rfl⟩⟩)
    · exact .exchange hm
    · exact .source hm hp
    · exact .queue hm
    · exact .queueSource hm hp
  · rintro (hm | ⟨hm, hp⟩ | hm | ⟨hm, hp⟩)
    · exact Or.inl ⟨_, _, _, hm, Or.inl rfl⟩
    · exact Or.inl ⟨_, _, _, hm, Or.inr ⟨_, _, hp, rfl⟩⟩
    · exact Or.inr ⟨_, _, _, hm, Or.inl rfl⟩
    · exact Or.inr ⟨_, _, _, hm, Or.inr ⟨_, _, hp, rfl⟩⟩

end RobustChannel

/-- An entity is honoured by a restore: it is neither named nor the cause of an exception. A
refusal is caused by the entity only if the refused request names it. -/
def HonouredBy {β : Type} (e : Entity) :
    EStateM.Result Exn (Session (RobustChannel A C) β A C) Unit → Prop
  | .ok _ t => ∀ r ∈ t.sent, ¬ r.Names e
  | .error x t => (∀ r ∈ t.sent, ¬ r.Names e) ∧ ∀ n, x = .attributeError n → e ≠ .exchange n

/-- A session of the channel, with the entities that were declared robustly and those of them
that are deleted. -/
structure History (A C : Type) where
  session : Session (RobustChannel A C) (Amqp A) A C
  robust : List Entity
  deleted : List Entity

inductive HistoryOp (A C : Type) where
  | call (call : ChannelCall A C)
  /-- The broker loses entities and bindings, and a new underlay channel is opened. -/
  | recover (lost : Entity → Bool) (lostBindings : Binding A → Bool) (o : SetOrder)

namespace History

def record (h : History A C) : Effect → List Entity × List Entity
  | .declared e robust =>
    (if robust then e :: h.robust else h.robust, h.deleted.filter fun e' => e' ≠ e)
  | .deleted e => (h.robust, if e ∈ h.robust then e :: h.deleted else h.deleted)
  | .other => (h.robust, h.deleted)

/-- A broker that has lost entities and bindings. -/
def lose (b : Amqp A) (lost : Entity → Bool) (lostBindings : Binding A → Bool) : Amqp A :=
  { b with
    exchanges := b.exchanges.filter fun n => ¬ lost (.exchange n)
    queues := b.queues.filter fun n => ¬ lost (.queue n)
    bindings := b.bindings.filter fun x => ¬ lostBindings x }

def fresh (b : Amqp A) : History A C where
  session := ⟨⟨0, 0, .empty, .empty, 0⟩, b, []⟩
  robust := []
  deleted := []

variable [DecidableEq A]

/-- Perform a call, if it succeeds, or a recovery, whether it succeeds or not. -/
def perform (h : History A C) : HistoryOp A C → Option (History A C)
  | .call call =>
    match call.run h.session with
    | .ok eff t => some ⟨t, (h.record eff).1, (h.record eff).2⟩
    | .error _ _ => none
  | .recover lost lostBindings o =>
    match RobustChannel.onOpen Amqp.amqp.toBroker o
        { h.session with broker := lose h.session.broker lost lostBindings, sent := [] } with
    | .ok _ t | .error _ t => some ⟨t, h.robust, h.deleted⟩

/-- Every restore from here, on any broker, honours every deleted entity. -/
def Honoured (h : History A C) : Prop :=
  ∀ e ∈ h.deleted, ∀ (β : Type) (B : EchoBroker β A C) (b : β) (o : SetOrder),
    HonouredBy e (RobustChannel.onOpen B.toBroker o ⟨h.session.self, b, []⟩)

/-- A deletion of an entity that was declared robustly finds no mention of it but the registry
entries that it forgets. -/
def Clean (h : History A C) : HistoryOp A C → Prop
  | .call call => ∀ e, call.deletes h.session.self = some e → e ∈ h.robust →
    ¬ Mentions (call.forgets h.session.self) e
  | .recover _ _ _ => True

/-- What holds as long as deletions are honoured. -/
structure Sound (h : History A C) : Prop where
  wellKeyed : h.session.self.WellKeyed
  attached : h.session.self.Attached
  absent : ∀ e ∈ h.deleted, ¬ h.session.broker.Holds e
  robust_of_mem : ∀ n i x, h.session.self.exchanges.Mem n i x → .exchange n ∈ h.robust

end History

section Granting

def grantAll : EchoBroker Unit A C where
  handle r b := match r with
    | .queueDeclare queue _ _ _ _ _ => (.ok { queue := some queue }, b)
    | .basicConsume _ _ _ _ _ tag => (.ok { consumerTag := some (tag.getD "") }, b)
    | _ => (.ok {}, b)
  echo_tag := by rintro n c k e x t b r ⟨⟩; rfl
  echo_queue := by rintro n d e a p x b r - ⟨⟩; rfl

variable {σ : Type} {s : Session σ Unit A C} {l : List (Request A C)}

theorem sendAll_grantAll :
    ∃ t, sendAll grantAll.toBroker l s = .ok () t ∧ t.self = s.self ∧
      t.sent = s.sent ++ l := by
  induction l generalizing s with
  | nil => exact ⟨s, rfl, rfl, by simp⟩
  | cons r l ih =>
    obtain ⟨reply, hr⟩ : ∃ reply, send grantAll.toBroker r s =
        .ok reply { s with sent := s.sent ++ [r] } := by
      cases r <;> exact ⟨_, rfl⟩
    obtain ⟨t, ht, hself, hsent⟩ := ih (s := { s with sent := s.sent ++ [r] })
    exact ⟨t, (sendAll_cons_ok hr).trans ht, hself, by simp [hsent]⟩

end Granting

section Detached

variable {s : Session (RobustChannel A C) Unit A C}

open RobustChannel

theorem exchanges_detached {m : Name} {l : List ℕ}
    (hl : ∀ i ∈ l, ∃ x, s.self.exchanges.objects.get? i = some x ∧ x.name ≠ "" ∧
      (x.hasChannel = true ∨ x.name = m))
    (hd : ∃ i ∈ l, ∃ x, s.self.exchanges.objects.get? i = some x ∧ x.hasChannel = false) :
    ∃ t, (l.forM fun i => onExchange i (RobustExchange.restore grantAll.toBroker)) s =
      .error (.attributeError m) t := by
  induction l generalizing s with
  | nil => obtain ⟨i, hi, -⟩ := hd; cases hi
  | cons i l ih =>
    change ∃ t, (onExchange i (RobustExchange.restore grantAll.toBroker) >>= fun _ =>
      l.forM fun i => onExchange i (RobustExchange.restore grantAll.toBroker)) s = _
    obtain ⟨x, hx, hn, hm⟩ := hl i List.mem_cons_self
    cases hc : x.hasChannel with
    | false =>
      obtain rfl := hm.resolve_left (by simp [hc])
      have hrun := RobustExchange.restore_deleted (B := grantAll.toBroker)
        (s := (⟨x, s.broker, s.sent⟩ : Session (RobustExchange A) Unit A C)) hn hc
      have hi : ∃ t, onExchange i (RobustExchange.restore grantAll.toBroker) s =
          .error (.attributeError x.name) t := by
        rw [onExchange_some hx]
        simp only [zoom, hrun]
        exact ⟨_, rfl⟩
      obtain ⟨t, ht⟩ := hi
      exact ⟨t, Coroutine.bind_error ht⟩
    | true =>
      obtain ⟨t, ht, hself, -⟩ := sendAll_grantAll (s := s) (l := x.restorePlan)
      rw [Coroutine.bind_ok ((restore_exchange_run hx hc).trans ht)]
      apply ih
      · rw [hself]
        exact fun j hj => hl j (List.mem_cons_of_mem _ hj)
      · rw [hself]
        obtain ⟨j, hj, y, hy, hyc⟩ := hd
        rcases List.mem_cons.mp hj with rfl | hj
        · obtain rfl := Option.some.inj (hx.symm.trans hy)
          rw [hc] at hyc
          cases hyc
        · exact ⟨j, hj, y, hy, hyc⟩

theorem onOpen_detached {m : Name} {i : ℕ} {x : RobustExchange A}
    (hk : s.self.WellKeyed)
    (hm : ∀ n i x, s.self.exchanges.Mem n i x → x.hasChannel = true ∨ x.name = m)
    (hx : s.self.exchanges.Mem m i x) (hc : x.hasChannel = false) :
    ∃ t, onOpen grantAll.toBroker .insertion s = .error (.attributeError m) t := by
  obtain ⟨t, hq⟩ : ∃ t, send grantAll.toBroker
      (.basicQos s.self.prefetchCount s.self.prefetchSize false) s = .ok {} t := ⟨_, rfl⟩
  have hself := (send_ok hq).1
  have hloop : ∃ u, ((s.self.exchanges.iter .insertion).forM fun i =>
      onExchange i (RobustExchange.restore grantAll.toBroker)) t =
        .error (.attributeError m) u := by
    apply exchanges_detached
    · intro j hj
      obtain ⟨n, y, hy⟩ := WeakRegistry.mem_iter.mp hj
      obtain ⟨rfl, hn⟩ := hk.exchange n j y hy
      exact ⟨y, hself ▸ hy.2, hn, hm _ j y hy⟩
    · exact ⟨i, WeakRegistry.mem_iter.mpr ⟨m, x, hx⟩, x, hself ▸ hx.2, hc⟩
  obtain ⟨u, hu⟩ := hloop
  refine ⟨u, ?_⟩
  unfold onOpen
  rw [getSelf_bind, Coroutine.bind_ok hq]
  exact Coroutine.bind_error hu

end Detached

namespace Change

variable {call : ChannelCall A C} {c c' : RobustChannel A C} {b : Amqp A} {eff : Effect}
  {e : Entity} {n : Name} {i : ℕ}

theorem forgets_of_deletes (hd : call.deletes c = none) : call.forgets c = c := by
  cases call with
  | exchangeDelete => cases hd
  | queueDelete => cases hd
  | _ => rfl

theorem exchange_mem {y : RobustExchange A} (hc : Change call c b eff c')
    (hk : c.WellKeyed) (hm : c'.exchanges.Mem n i y) :
    (∃ x, (call.forgets c).exchanges.Mem n i x ∧ ∀ p v, y.bindings.get? p = some v →
      x.bindings.get? p = some v ∨
        eff = .other ∧ b.has (.exchange (getExchangeName p)) = true) ∨
    eff = .declared (.exchange n) true ∧ y.bindings = .empty := by
  cases hc with
  | @declareExchange x robust hd _ _ hx =>
    rw [forgets_of_deletes hd]
    cases robust with
    | false =>
      exact Or.inl ⟨y, (WeakRegistry.mem_put_new hk.exchanges_below).mp hm, fun _ _ => Or.inl⟩
    | true =>
      rcases WeakRegistry.mem_add.mp hm with hm | ⟨rfl, -, hy⟩
      · exact Or.inl ⟨y, (WeakRegistry.mem_put_new hk.exchanges_below).mp hm, fun _ _ => Or.inl⟩
      · obtain rfl := Option.some.inj (WeakRegistry.get?_put_self.symm.trans hy)
        exact Or.inr ⟨rfl, hx⟩
  | updateExchange hd hx _ _ hb =>
    rw [forgets_of_deletes hd]
    rcases hm.of_put hx with hz | ⟨hz, rfl, rfl⟩
    · exact Or.inl ⟨y, hz, fun _ _ => Or.inl⟩
    · exact Or.inl ⟨_, hz, fun p v hp => (hb p v hp).imp_right fun h => ⟨rfl, h⟩⟩
  | detach _ hf hx =>
    rw [hf]
    rcases hm.of_put hx with hz | ⟨hz, rfl, rfl⟩
    · exact Or.inl ⟨y, hz, fun _ _ => Or.inl⟩
    · exact Or.inl ⟨_, hz, fun _ _ => Or.inl⟩
  | delete => exact Or.inl ⟨y, hm, fun _ _ => Or.inl⟩
  | collectExchange hd =>
    rw [forgets_of_deletes hd]
    exact Or.inl ⟨y, (WeakRegistry.mem_collect.mp hm).1, fun _ _ => Or.inl⟩
  | declareQueue hd => rw [forgets_of_deletes hd]; exact Or.inl ⟨y, hm, fun _ _ => Or.inl⟩
  | updateQueue hd => rw [forgets_of_deletes hd]; exact Or.inl ⟨y, hm, fun _ _ => Or.inl⟩
  | collectQueue hd => rw [forgets_of_deletes hd]; exact Or.inl ⟨y, hm, fun _ _ => Or.inl⟩

theorem queue_mem {y : RobustQueue A C} (hc : Change call c b eff c')
    (hk : c.WellKeyed) (hm : c'.queues.Mem n i y) :
    (∃ q, (call.forgets c).queues.Mem n i q ∧ ∀ k a, y.bindings.get? k = some a →
      q.bindings.get? k = some a ∨
        eff = .other ∧ b.has (.exchange (getExchangeName k.1)) = true) ∨
    eff = .declared (.queue n) true ∧ y.bindings = .empty := by
  cases hc with
  | @declareQueue q robust hd _ hq =>
    rw [forgets_of_deletes hd]
    cases robust with
    | false =>
      exact Or.inl ⟨y, (WeakRegistry.mem_put_new hk.queues_below).mp hm, fun _ _ => Or.inl⟩
    | true =>
      rcases WeakRegistry.mem_add.mp hm with hm | ⟨rfl, -, hy⟩
      · exact Or.inl ⟨y, (WeakRegistry.mem_put_new hk.queues_below).mp hm, fun _ _ => Or.inl⟩
      · obtain rfl := Option.some.inj (WeakRegistry.get?_put_self.symm.trans hy)
        exact Or.inr ⟨rfl, hq⟩
  | updateQueue hd hq _ hb =>
    rw [forgets_of_deletes hd]
    rcases hm.of_put hq with hz | ⟨hz, rfl, rfl⟩
    · exact Or.inl ⟨y, hz, fun _ _ => Or.inl⟩
    · exact Or.inl ⟨_, hz, fun p v hp => (hb p v hp).imp_right fun h => ⟨rfl, h⟩⟩
  | detach _ hf => rw [hf]; exact Or.inl ⟨y, hm, fun _ _ => Or.inl⟩
  | delete => exact Or.inl ⟨y, hm, fun _ _ => Or.inl⟩
  | collectQueue hd =>
    rw [forgets_of_deletes hd]
    exact Or.inl ⟨y, (WeakRegistry.mem_collect.mp hm).1, fun _ _ => Or.inl⟩
  | declareExchange hd => rw [forgets_of_deletes hd]; exact Or.inl ⟨y, hm, fun _ _ => Or.inl⟩
  | updateExchange hd => rw [forgets_of_deletes hd]; exact Or.inl ⟨y, hm, fun _ _ => Or.inl⟩
  | collectExchange hd => rw [forgets_of_deletes hd]; exact Or.inl ⟨y, hm, fun _ _ => Or.inl⟩

/-- What is mentioned after a call was mentioned before, was declared by the call, or exists at
the broker. -/
theorem mentions (hc : Change call c b eff c') (hk : c.WellKeyed) (hm : Mentions c' e) :
    Mentions (call.forgets c) e ∨ eff = .declared e true ∨ eff = .other ∧ b.Holds e := by
  cases hm with
  | exchange hm =>
    rcases exchange_mem hc hk hm with ⟨x, hx, -⟩ | ⟨hd, -⟩
    · exact Or.inl (.exchange hx)
    · exact Or.inr (Or.inl hd)
  | source hm hp =>
    rcases exchange_mem hc hk hm with ⟨x, hx, hb⟩ | ⟨-, he⟩
    · rcases hb _ _ hp with hp | ⟨ho, hb⟩
      · exact Or.inl (.source hx hp)
      · exact Or.inr (Or.inr ⟨ho, Amqp.holds_of_has hb⟩)
    · rw [he] at hp; cases hp
  | queue hm =>
    rcases queue_mem hc hk hm with ⟨q, hq, -⟩ | ⟨hd, -⟩
    · exact Or.inl (.queue hq)
    · exact Or.inr (Or.inl hd)
  | queueSource hm hp =>
    rcases queue_mem hc hk hm with ⟨q, hq, hb⟩ | ⟨-, he⟩
    · rcases hb _ _ hp with hp | ⟨ho, hb⟩
      · exact Or.inl (.queueSource hq hp)
      · exact Or.inr (Or.inr ⟨ho, Amqp.holds_of_has hb⟩)
    · rw [he] at hp; cases hp

theorem mentions_of_forgets (hm : Mentions (call.forgets c) e) : Mentions c e := by
  cases call with
  | exchangeDelete =>
    cases hm with
    | exchange hm => exact .exchange (WeakRegistry.mem_pop.mp hm).1
    | source hm hp => exact .source (WeakRegistry.mem_pop.mp hm).1 hp
    | queue hm => exact .queue hm
    | queueSource hm hp => exact .queueSource hm hp
  | queueDelete =>
    cases hm with
    | exchange hm => exact .exchange hm
    | source hm hp => exact .source hm hp
    | queue hm => exact .queue (WeakRegistry.mem_pop.mp hm).1
    | queueSource hm hp => exact .queueSource (WeakRegistry.mem_pop.mp hm).1 hp
  | _ => exact hm

theorem mentions_deleted {e₀ : Entity} (hc : Change call c b (.deleted e₀) c')
    (hm : Mentions (call.forgets c) e) : Mentions c' e := by
  cases hc with
  | delete => exact hm
  | @detach i x _ hf hx =>
    rw [hf] at hm
    -- the object that lost its channel keeps its name and its bindings
    have hput : ∀ {n j y}, c.exchanges.Mem n j y → ∃ z,
        (c.exchanges.put i { x with hasChannel := false }).Mem n j z ∧
          z.bindings = y.bindings := by
      intro n j y hy
      by_cases hj : j = i
      · subst hj
        obtain rfl := Option.some.inj (hx.symm.trans hy.2)
        exact ⟨_, WeakRegistry.mem_put.mpr ⟨hy.1, Or.inl ⟨rfl, rfl⟩⟩, rfl⟩
      · exact ⟨y, WeakRegistry.mem_put.mpr ⟨hy.1, Or.inr ⟨hj, hy.2⟩⟩, rfl⟩
    cases hm with
    | exchange hm =>
      obtain ⟨z, hz, -⟩ := hput hm
      exact .exchange (c := { c with exchanges := c.exchanges.put i _ }) hz
    | source hm hp =>
      obtain ⟨z, hz, hbz⟩ := hput hm
      exact .source (c := { c with exchanges := c.exchanges.put i _ }) hz (hbz ▸ hp)
    | queue hm => exact .queue hm
    | queueSource hm hp => exact .queueSource hm hp

theorem exchange_mem_of_forgets {x : RobustExchange A}
    (hm : (call.forgets c).exchanges.Mem n i x) : c.exchanges.Mem n i x := by
  cases call with
  | exchangeDelete => exact (WeakRegistry.mem_pop.mp hm).1
  | _ => exact hm

theorem effect_deleted (hc : Change call c b eff c') :
    (∀ e, call.deletes c = some e ↔ eff = .deleted e) := by
  intro e
  cases hc with
  | detach hd => rw [hd, Option.some.injEq, Effect.deleted.injEq]
  | delete hd => rw [hd, Option.some.injEq, Effect.deleted.injEq]
  | declareExchange hd => simp [hd]
  | declareQueue hd => simp [hd]
  | updateExchange hd => simp [hd]
  | updateQueue hd => simp [hd]
  | collectExchange hd => simp [hd]
  | collectQueue hd => simp [hd]

end Change

section Recover

variable [DecidableEq A] {σ : Type} {s t : Session σ (Amqp A) A C} {rs : List (Request A C)}
  {r : Request A C} {b b' : Amqp A} {reply : Reply} {e : Entity}

theorem Amqp.holds_of_handle (h : Amqp.handle r b = (.ok reply, b')) (hq : ¬ r.Names (.queue ""))
    (he : b'.Holds e) : b.Holds e ∨ r.Names e := by
  cases r with
  | exchangeDeclare => exact (Amqp.holds_exchangeDeclare h).2.mp he
  | exchangeDelete => exact Or.inl ((Amqp.holds_exchangeDelete h).mp he).1
  | exchangeBind => exact Or.inl ((Amqp.holds_bind h).mp he)
  | queueBind => exact Or.inl ((Amqp.holds_bind h).mp he)
  | queueDelete => exact Or.inl ((Amqp.holds_queueDelete h).mp he).1
  | basicConsume => exact Or.inl ((Amqp.holds_consume h).mp he)
  | queueDeclare n u x a p args =>
    obtain ⟨m, hm, -, hiff⟩ := Amqp.holds_queueDeclare (e := e) h
    have hn : n ≠ "" := fun hn => hq (congrArg Entity.queue hn.symm)
    have hecho := (Amqp.amqp (C := C)).echo_queue n u x a p args b reply hn (congrArg Prod.fst h)
    obtain rfl := Option.some.inj (hm.symm.trans hecho)
    exact hiff.mp he
  | _ =>
    cases h
    left
    cases e <;> exact he

theorem Amqp.holds_of_sendAll (hq : ∀ r ∈ rs, ¬ r.Names (.queue ""))
    (h : sendAll Amqp.amqp.toBroker rs s = .ok () t ∨
      ∃ x, sendAll Amqp.amqp.toBroker rs s = .error x t)
    (he : t.broker.Holds e) : s.broker.Holds e ∨ ∃ r ∈ rs, r.Names e := by
  induction rs generalizing s with
  | nil =>
    rcases h with h | ⟨x, h⟩ <;> cases h
    exact Or.inl he
  | cons r rs ih =>
    cases hr : send Amqp.amqp.toBroker r s with
    | ok reply u =>
      rw [sendAll_cons_ok hr] at h
      rcases ih (fun r hr => hq r (List.mem_cons_of_mem _ hr)) h with hu | ⟨r', hr', hn⟩
      · rcases holds_of_handle (send_ok hr).2.2 (hq r List.mem_cons_self) hu with hs | hn
        · exact Or.inl hs
        · exact Or.inr ⟨r, List.mem_cons_self, hn⟩
      · exact Or.inr ⟨r', List.mem_cons_of_mem _ hr', hn⟩
    | error x u =>
      rw [sendAll_cons_error hr] at h
      obtain ⟨-, -, y, -, hb⟩ := send_error hr
      rcases h with h | ⟨x', h⟩ <;> cases h
      rw [Amqp.handle_error hb] at he
      exact Or.inl he

end Recover

namespace History

variable [DecidableEq A] {h h' : History A C} {op : HistoryOp A C}

omit [DecidableEq A] in
/-- Deletions are honoured when the registries do not mention what has been deleted. -/
theorem honoured_iff (hk : h.session.self.WellKeyed) (ha : h.session.self.Attached) :
    h.Honoured ↔ ∀ e ∈ h.deleted, ¬ Mentions h.session.self e := by
  constructor
  · intro hh e he hm
    have hr := hh e he Unit grantAll () .insertion
    obtain ⟨t, ht, -, hsent⟩ := sendAll_grantAll (s := ⟨h.session.self, (), []⟩)
      (l := h.session.self.openPlan .insertion)
    rw [RobustChannel.onOpen_run (s := ⟨h.session.self, (), []⟩) hk ha, ht] at hr
    obtain ⟨r, hr', hn⟩ := (RobustChannel.names_openPlan hk).mpr hm
    exact hr r (by simpa [hsent] using hr') hn
  · intro hn e he β B b o
    have hplan : ∀ r ∈ h.session.self.openPlan o, ¬ r.Names e := fun r hr hre =>
      hn e he ((RobustChannel.names_openPlan hk).mp ⟨r, hr, hre⟩)
    rw [RobustChannel.onOpen_run (s := ⟨h.session.self, b, []⟩) hk ha]
    cases hs : sendAll B.toBroker (h.session.self.openPlan o)
        (⟨h.session.self, b, []⟩ : Session (RobustChannel A C) β A C) with
    | ok u t =>
      intro r hr
      rw [(sendAll_ok hs).2] at hr
      exact hplan r hr
    | error x t =>
      obtain ⟨-, done, r', rest, u, y, hrs, -, hsent, rfl, -⟩ := sendAll_error hs
      refine ⟨fun r hr => hplan r ?_, by rintro n ⟨⟩⟩
      rw [hsent] at hr
      simp only [List.nil_append, List.mem_append, List.mem_singleton] at hr
      rw [hrs]
      rcases hr with hr | rfl <;> simp [*]

theorem perform_call {call : ChannelCall A C} (h₁ : h.perform (.call call) = some h') :
    ∃ eff, Change call h.session.self h.session.broker eff h'.session.self ∧
      eff.Bounds h.session.broker h'.session.broker ∧
      h'.robust = (h.record eff).1 ∧ h'.deleted = (h.record eff).2 := by
  cases hr : call.run h.session with
  | error x t => simp [perform, hr] at h₁
  | ok eff t =>
    simp only [perform, hr, Option.some.injEq] at h₁
    subst h₁
    obtain ⟨hc, hb⟩ := ChannelCall.run_change hr
    exact ⟨eff, hc, hb, rfl, rfl⟩

/-- The client objects are as before after a recovery, and the broker has gained nothing that
they do not mention. -/
theorem perform_recover {lost : Entity → Bool} {lostBindings : Binding A → Bool}
    {o : SetOrder} (hs : h.Sound) (h₁ : h.perform (.recover lost lostBindings o) = some h') :
    h'.session.self = h.session.self ∧ h'.robust = h.robust ∧ h'.deleted = h.deleted ∧
      ∀ e, h'.session.broker.Holds e → h.session.broker.Holds e ∨ Mentions h.session.self e := by
  have hlose : ∀ e, (lose h.session.broker lost lostBindings).Holds e →
      h.session.broker.Holds e := by
    rintro (n | n) he <;> exact (List.mem_filter.mp he).1
  have hempty : ∀ r ∈ h.session.self.openPlan o, ¬ r.Names (.queue "") := by
    intro r hr hn
    cases (RobustChannel.names_openPlan hs.wellKeyed).mp ⟨r, hr, hn⟩ with
    | queue hm => exact (hs.wellKeyed.queue _ _ _ hm).2 rfl
  have hrun := RobustChannel.onOpen_run (B := Amqp.amqp) (o := o) (s := { h.session with
    broker := lose h.session.broker lost lostBindings, sent := [] }) hs.wellKeyed hs.attached
  obtain ⟨t, ht, hself⟩ : ∃ t, (sendAll Amqp.amqp.toBroker (h.session.self.openPlan o)
        { h.session with broker := lose h.session.broker lost lostBindings, sent := [] } =
          .ok () t ∨
      ∃ x, sendAll Amqp.amqp.toBroker (h.session.self.openPlan o)
        { h.session with broker := lose h.session.broker lost lostBindings, sent := [] } =
          .error x t) ∧ t.self = h.session.self := by
    rcases sendAll_self Amqp.amqp.toBroker (h.session.self.openPlan o) { h.session with
      broker := lose h.session.broker lost lostBindings, sent := [] } with
      ⟨t, ht, hself⟩ | ⟨x, t, ht, hself⟩
    · exact ⟨t, Or.inl ht, hself⟩
    · exact ⟨t, Or.inr ⟨x, ht⟩, hself⟩
  have hres : h' = ⟨t, h.robust, h.deleted⟩ := by
    rcases ht with ht | ⟨x, ht⟩ <;>
      · simp only [perform, hrun, ht, Option.some.injEq] at h₁
        exact h₁.symm
  subst hres
  refine ⟨hself, rfl, rfl, fun e he => ?_⟩
  rcases Amqp.holds_of_sendAll hempty ht he with he | hn
  · exact Or.inl (hlose e he)
  · exact Or.inr ((RobustChannel.names_openPlan hs.wellKeyed).mp hn)

omit [DecidableEq A] in
theorem not_honoured_of_detached {n : Name} {i : ℕ} {x : RobustExchange A} (hs : h.Sound)
    (hm : h.session.self.exchanges.Mem n i x) (hk : h'.session.self.WellKeyed)
    (hself : h'.session.self = { h.session.self with
      exchanges := h.session.self.exchanges.put i { x with hasChannel := false } })
    (hd : .exchange n ∈ h'.deleted) : ¬ h'.Honoured := by
  intro hh
  have hr := hh _ hd Unit grantAll () .insertion
  obtain ⟨t, ht⟩ := onOpen_detached (s := ⟨h'.session.self, (), []⟩) (m := n) (i := i)
    (x := { x with hasChannel := false }) hk (by
      intro n' j y hy
      rw [hself] at hy
      rcases hy.of_put hm.2 with hy | ⟨-, -, rfl⟩
      · exact Or.inl (hs.attached n' j y hy)
      · exact Or.inr (hs.wellKeyed.exchange n i x hm).1) (by
      rw [hself]
      exact WeakRegistry.mem_put.mpr ⟨hm.1, Or.inl ⟨rfl, rfl⟩⟩) rfl
  rw [ht] at hr
  exact hr.2 n rfl rfl

omit [DecidableEq A] in
theorem mem_record {eff : Effect} {e : Entity} : e ∈ (h.record eff).2 ↔
    eff = .deleted e ∧ e ∈ h.robust ∨ e ∈ h.deleted ∧ ∀ robust, eff ≠ .declared e robust := by
  cases eff with
  | declared e' robust =>
    simp only [record, List.mem_filter, decide_eq_true_eq]
    simp [eq_comm]
  | deleted e' =>
    by_cases hr : e' ∈ h.robust
    · by_cases he : e = e'
      · simp [record, hr, he]
      · simp [record, hr, he, Ne.symm he]
    · by_cases he : e = e'
      · simp [record, hr, he]
      · simp [record, hr, Ne.symm he]
  | other => simp [record]

/-- While deletions are honoured, a step honours them exactly when it is clean. -/
theorem honoured_step (hs : h.Sound) (hh : h.Honoured) (h₁ : h.perform op = some h') :
    h'.Honoured ↔ h.Clean op := by
  have hstatic := (honoured_iff hs.wellKeyed hs.attached).mp hh
  cases op with
  | recover lost lostBindings o =>
    obtain ⟨hself, -, hdel, -⟩ := perform_recover hs h₁
    refine iff_of_true ?_ trivial
    rw [Honoured, hself, hdel]
    exact hh
  | call call =>
    obtain ⟨eff, hc, hb, hrob, hdel⟩ := perform_call h₁
    have hk := hc.wellKeyed hs.wellKeyed
    have heff := Change.effect_deleted hc
    rcases hc.attached hs.wellKeyed hs.attached with ha | ⟨n, i, x, hm, hde, hf, rfl, hself⟩
    · rw [honoured_iff hk ha, hdel]
      constructor
      · intro hall e he hr hm
        obtain rfl := (heff e).mp he
        exact hall e (mem_record.mpr (Or.inl ⟨rfl, hr⟩)) (Change.mentions_deleted hc hm)
      · intro hclean e he hm
        rcases mem_record.mp he with ⟨rfl, hr⟩ | ⟨he, hne⟩
        · rcases Change.mentions hc hs.wellKeyed hm with hm | hd | ⟨ho, -⟩
          · exact hclean e ((heff e).mpr rfl) hr hm
          · cases hd
          · cases ho
        · rcases Change.mentions hc hs.wellKeyed hm with hm | hd | ⟨-, hb⟩
          · exact hstatic e he (Change.mentions_of_forgets hm)
          · exact hne true hd
          · exact hs.absent e he hb
    · -- the registry entry of the deleted object stays, and so does the object
      have hn := (hs.wellKeyed.exchange n i x hm).1
      have hrm := hs.robust_of_mem n i x hm
      apply iff_of_false
      · apply not_honoured_of_detached hs hm hk hself
        rw [hdel, mem_record, hn]
        exact Or.inl ⟨rfl, hrm⟩
      · intro hclean
        apply hclean _ hde (hn ▸ hrm)
        rw [hf, hn]
        exact .exchange hm

theorem Sound.step (hs : h.Sound) (hh : h.Honoured) (h₁ : h.perform op = some h')
    (hh' : h'.Honoured) : h'.Sound := by
  cases op with
  | recover lost lostBindings o =>
    have hstatic := (honoured_iff hs.wellKeyed hs.attached).mp hh
    obtain ⟨hself, hrob, hdel, hb⟩ := perform_recover hs h₁
    refine ⟨hself ▸ hs.wellKeyed, hself ▸ hs.attached, fun e he hholds => ?_, ?_⟩
    · rw [hdel] at he
      rcases hb e hholds with hb | hm
      · exact hs.absent e he hb
      · exact hstatic e he hm
    · rw [hself, hrob]
      exact hs.robust_of_mem
  | call call =>
    obtain ⟨eff, hc, hb, hrob, hdel⟩ := perform_call h₁
    have hk := hc.wellKeyed hs.wellKeyed
    refine ⟨hk, ?_, fun e he hholds => ?_, fun n i y hm => ?_⟩
    · rcases hc.attached hs.wellKeyed hs.attached with ha | ⟨n, i, x, hm, -, -, rfl, hself⟩
      · exact ha
      · refine absurd hh' (not_honoured_of_detached hs hm hk hself ?_)
        rw [hdel, mem_record, (hs.wellKeyed.exchange n i x hm).1]
        exact Or.inl ⟨rfl, hs.robust_of_mem n i x hm⟩
    · rw [hdel] at he
      rcases mem_record.mp he with ⟨rfl, -⟩ | ⟨hd, hne⟩
      · exact (hb e hholds).2 rfl
      · cases eff with
        | declared e' robust =>
          rcases hb e hholds with hb | rfl
          · exact hs.absent e hd hb
          · exact hne robust rfl
        | deleted e' => exact hs.absent e hd (hb e hholds).1
        | other => exact hs.absent e hd (hb e hholds)
    · have hsub : ∀ e ∈ h.robust, e ∈ (h.record eff).1 := by
        intro e he
        cases eff with
        | declared e' robust => cases robust <;> simp [record, he]
        | deleted e' => exact he
        | other => exact he
      rw [hrob]
      rcases Change.exchange_mem hc hs.wellKeyed hm with ⟨x, hx, -⟩ | ⟨rfl, -⟩
      · exact hsub _ (hs.robust_of_mem n i x (Change.exchange_mem_of_forgets hx))
      · simp [record]

omit [DecidableEq A] in
theorem fresh_sound (b : Amqp A) : (fresh b : History A C).Sound := by
  refine ⟨⟨?_, ?_, WeakRegistry.below_empty, WeakRegistry.below_empty⟩, ?_, ?_, ?_⟩
  · exact fun n i x hm => absurd hm.1 WeakRegistry.not_listed_empty
  · exact fun n i x hm => absurd hm.1 WeakRegistry.not_listed_empty
  · exact fun n i x hm => absurd hm.1 WeakRegistry.not_listed_empty
  · simp [fresh]
  · exact fun n i x hm => absurd hm.1 WeakRegistry.not_listed_empty

omit [DecidableEq A] in
theorem fresh_honoured (b : Amqp A) : (fresh b : History A C).Honoured := by
  simp [Honoured, fresh]

/-- A history of successful calls and of recoveries honours every deletion, at every point, if
and only if every deletion finds no mention of the entity but the registry entries that it
forgets. -/
theorem deletion_honoured_iff (b : Amqp A) (ops : List (HistoryOp A C)) :
    Transition.Throughout perform Honoured (fresh b) ops ↔
      Transition.EachStep perform Clean (fresh b) ops :=
  Transition.throughout_iff_eachStep (fun _ _ _ hs hh h₁ hh' => hs.step hh h₁ hh')
    (fun _ _ _ hs hh h₁ => honoured_step hs hh h₁) (fresh_sound b) (fresh_honoured b)

def deletedQueueHistory : List (HistoryOp ℕ Unit) :=
  [.call (.declareQueue "" (some "queue") false false false false 0 true),
    .call (.deleteQueue 0 false false)]

/-- The queue object stays registered, and a restore declares the queue again. -/
theorem deleted_queue_declared_again :
    ¬ Transition.Throughout perform Honoured (fresh ⟨[], [], [], 0⟩) deletedQueueHistory := by
  intro h
  have hstep := (Transition.throughout_iff_eachStep (J := Sound)
    (fun _ _ _ hs hh h₁ hh' => hs.step hh h₁ hh') (fun _ _ _ hs hh h₁ => honoured_step hs hh h₁)
    (fresh_sound _) (fresh_honoured _)).mp h
  have hclean := ((hstep _ rfl).2 _ rfl).1 (.queue "queue") rfl (by decide)
  exact hclean (.queue (i := 0) ⟨⟨[0], rfl, List.mem_singleton_self 0⟩, rfl⟩)

end History

end AioPika
