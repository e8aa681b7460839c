import AioPika.Broker.Amqp
import AioPika.Topology.Channel

/-! # Histories of a topology

The calls that change what a channel recovers: declaring, binding, consuming,
the four ways of deleting, and the collection of objects that are no longer
referenced. A call that succeeds keeps every registered object under its name.
-/

namespace AioPika

variable {A C : Type} [DecidableEq A]

/-- A call on the channel, or on one of its exchange or queue objects. -/
inductive ChannelCall (A C : Type) where
  | declareExchange (name : Name) (type : String)
      (durable autoDelete internal passive : Bool) (arguments : A) (robust : Bool)
  | declareQueue (uuid : String) (name : Option Name)
      (durable exclusive passive autoDelete : Bool)
      (arguments : A) (robust : Bool)
  | bindExchange (destination : ℕ) (exchange : ExchangeParam) (routingKey : Name)
      (arguments : A) (robust : Bool)
  | unbindExchange (destination : ℕ) (exchange : ExchangeParam) (routingKey : Name)
      (arguments : A)
  | bindQueue (queue : ℕ) (exchange : ExchangeParam) (routingKey : Option Name)
      (arguments : A) (robust : Bool)
  | unbindQueue (queue : ℕ) (exchange : ExchangeParam) (routingKey : Option Name)
      (arguments : A)
  | consume (queue : ℕ) (callback : C) (noAck exclusive : Bool) (arguments : A)
      (consumerTag : Option ConsumerTag) (robust : Bool)
  | cancel (queue : ℕ) (consumerTag : ConsumerTag)
  /-- `Exchange.delete` -/
  | deleteExchange (exchange : ℕ) (ifUnused : Bool)
  /-- `Queue.delete` -/
  | deleteQueue (queue : ℕ) (ifUnused ifEmpty : Bool)
  /-- `RobustChannel.exchange_delete` -/
  | exchangeDelete (exchangeName : Name) (ifUnused : Bool)
  /-- `RobustChannel.queue_delete` -/
  | queueDelete (queueName : Name) (ifUnused ifEmpty : Bool)
  /-- The last reference to an object is dropped. -/
  | collectExchange (exchange : ℕ)
  | collectQueue (queue : ℕ)

inductive Effect where
  | declared (entity : Entity) (robust : Bool)
  | deleted (entity : Entity)
  | other
  deriving DecidableEq, Repr

namespace ChannelCall

open RobustChannel

def run : ChannelCall A C → Coro (RobustChannel A C) (Amqp A) A C Effect
  | .declareExchange name type durable autoDelete internal passive arguments robust => do
    let _ ← RobustChannel.declareExchange Amqp.amqp.toBroker name type durable autoDelete internal
      passive arguments robust
    return .declared (.exchange name) (¬ internal ∧ robust)
  | .declareQueue uuid name durable exclusive passive autoDelete arguments robust => do
    let (_, queueName) ← RobustChannel.declareQueue Amqp.amqp.toBroker uuid name durable exclusive
      passive autoDelete arguments robust
    return .declared (.queue queueName) robust
  | .bindExchange destination exchange routingKey arguments robust => do
    let _ ← onExchange destination
      (RobustExchange.bind Amqp.amqp.toBroker exchange routingKey arguments robust)
    return .other
  | .unbindExchange destination exchange routingKey arguments => do
    let _ ← onExchange destination
      (RobustExchange.unbind Amqp.amqp.toBroker exchange routingKey arguments)
    return .other
  | .bindQueue queue exchange routingKey arguments robust => do
    let _ ← onQueue queue
      (RobustQueue.bind Amqp.amqp.toBroker exchange routingKey arguments robust)
    return .other
  | .unbindQueue queue exchange routingKey arguments => do
    let _ ← onQueue queue
      (RobustQueue.unbind Amqp.amqp.toBroker exchange routingKey arguments)
    return .other
  | .consume queue callback noAck exclusive arguments consumerTag robust => do
    let _ ← onQueue queue (RobustQueue.consume Amqp.amqp.toBroker callback noAck exclusive
      arguments consumerTag robust)
    return .other
  | .cancel queue consumerTag => do
    let _ ← onQueue queue (RobustQueue.cancel Amqp.amqp.toBroker consumerTag)
    return .other
  | .deleteExchange exchange ifUnused => do
    let name ← onExchange exchange do
      let _ ← Exchange.delete Amqp.amqp.toBroker ifUnused
      let x ← getSelf
      return x.name
    return .deleted (.exchange name)
  | .deleteQueue queue ifUnused ifEmpty => do
    let name ← onQueue queue do
      let _ ← Queue.delete Amqp.amqp.toBroker ifUnused ifEmpty
      let q ← getSelf
      return q.name
    return .deleted (.queue name)
  | .exchangeDelete exchangeName ifUnused => do
    let _ ← RobustChannel.exchangeDelete Amqp.amqp.toBroker exchangeName ifUnused
    return .deleted (.exchange exchangeName)
  | .queueDelete queueName ifUnused ifEmpty => do
    let _ ← RobustChannel.queueDelete Amqp.amqp.toBroker queueName ifUnused ifEmpty
    return .deleted (.queue queueName)
  | .collectExchange exchange => do
    modifySelf fun c => { c with exchanges := c.exchanges.collect exchange }
    return .other
  | .collectQueue queue => do
    modifySelf fun c => { c with queues := c.queues.collect queue }
    return .other

def deletes (c : RobustChannel A C) : ChannelCall A C → Option Entity
  | .deleteExchange i _ => (c.exchanges.objects.get? i).map fun x => .exchange x.name
  | .deleteQueue i _ _ => (c.queues.objects.get? i).map fun q => .queue q.name
  | .exchangeDelete name _ => some (.exchange name)
  | .queueDelete name _ _ => some (.queue name)
  | _ => none

/-- The registries after what a call forgets. -/
def forgets (c : RobustChannel A C) : ChannelCall A C → RobustChannel A C
  | .exchangeDelete name _ => { c with exchanges := c.exchanges.pop name }
  | .queueDelete name _ _ => { c with queues := c.queues.pop name }
  | _ => c

end ChannelCall

/-- What a call that succeeds does to the registries, given the broker before the call. -/
inductive Change (call : ChannelCall A C) (c : RobustChannel A C) (b : Amqp A) :
    Effect → RobustChannel A C → Prop
  | declareExchange {x : RobustExchange A} {robust : Bool} :
      call.deletes c = none → x.name ≠ "" → x.hasChannel = true → x.bindings = .empty →
      Change call c b (.declared (.exchange x.name) robust)
        { c with
          exchanges := if robust then (c.exchanges.put c.created x).add x.name c.created
            else c.exchanges.put c.created x
          created := c.created + 1 }
  | declareQueue {q : RobustQueue A C} {robust : Bool} :
      call.deletes c = none → q.name ≠ "" → q.bindings = .empty →
      Change call c b (.declared (.queue q.name) robust)
        { c with
          queues := if robust then (c.queues.put c.created q).add q.name c.created
            else c.queues.put c.created q
          created := c.created + 1 }
  | updateExchange {i : ℕ} {x y : RobustExchange A} :
      call.deletes c = none → c.exchanges.objects.get? i = some x → y.name = x.name →
      y.hasChannel = x.hasChannel →
      (∀ p v, y.bindings.get? p = some v →
        x.bindings.get? p = some v ∨ b.has (.exchange (getExchangeName p)) = true) →
      Change call c b .other { c with exchanges := c.exchanges.put i y }
  | updateQueue {i : ℕ} {q y : RobustQueue A C} :
      call.deletes c = none → c.queues.objects.get? i = some q → y.name = q.name →
      (∀ k v, y.bindings.get? k = some v →
        q.bindings.get? k = some v ∨ b.has (.exchange (getExchangeName k.1)) = true) →
      Change call c b .other { c with queues := c.queues.put i y }
  | detach {i : ℕ} {x : RobustExchange A} :
      call.deletes c = some (.exchange x.name) → call.forgets c = c →
      c.exchanges.objects.get? i = some x →
      Change call c b (.deleted (.exchange x.name))
        { c with exchanges := c.exchanges.put i { x with hasChannel := false } }
  | delete {e : Entity} :
      call.deletes c = some e → Change call c b (.deleted e) (call.forgets c)
  | collectExchange {i : ℕ} :
      call.deletes c = none → Change call c b .other { c with exchanges := c.exchanges.collect i }
  | collectQueue {i : ℕ} :
      call.deletes c = none → Change call c b .other { c with queues := c.queues.collect i }

namespace Change

variable {call : ChannelCall A C} {c c' : RobustChannel A C} {b : Amqp A} {eff : Effect}

omit [DecidableEq A] in
theorem wellKeyed (h : Change call c b eff c') (hk : c.WellKeyed) : c'.WellKeyed := by
  cases h with
  | @declareExchange x robust _ hn =>
    have hput := hk.exchanges_below.mono (Nat.le_succ _) |>.put (x := x) (Nat.lt_succ_self _)
    cases robust with
    | false =>
      refine ⟨fun n i y hm => hk.exchange n i y ?_, hk.queue, hput,
        hk.queues_below.mono (Nat.le_succ _)⟩
      exact (WeakRegistry.mem_put_new hk.exchanges_below).mp hm
    | true =>
      refine ⟨fun n i y hm => ?_, hk.queue, hput.add (Nat.lt_succ_self _),
        hk.queues_below.mono (Nat.le_succ _)⟩
      rcases WeakRegistry.mem_add.mp hm with hm | ⟨rfl, rfl, hy⟩
      · exact hk.exchange n i y ((WeakRegistry.mem_put_new hk.exchanges_below).mp hm)
      · obtain rfl := Option.some.inj (WeakRegistry.get?_put_self.symm.trans hy)
        exact ⟨rfl, hn⟩
  | @declareQueue q robust _ hn =>
    have hput := hk.queues_below.mono (Nat.le_succ _) |>.put (x := q) (Nat.lt_succ_self _)
    cases robust with
    | false =>
      refine ⟨hk.exchange, fun n i y hm => hk.queue n i y ?_,
        hk.exchanges_below.mono (Nat.le_succ _), hput⟩
      exact (WeakRegistry.mem_put_new hk.queues_below).mp hm
    | true =>
      refine ⟨hk.exchange, fun n i y hm => ?_, hk.exchanges_below.mono (Nat.le_succ _),
        hput.add (Nat.lt_succ_self _)⟩
      rcases WeakRegistry.mem_add.mp hm with hm | ⟨rfl, rfl, hy⟩
      · exact hk.queue n i y ((WeakRegistry.mem_put_new hk.queues_below).mp hm)
      · obtain rfl := Option.some.inj (WeakRegistry.get?_put_self.symm.trans hy)
        exact ⟨rfl, hn⟩
  | updateExchange _ hx hname _ _ =>
    refine ⟨fun n j z hm => ?_, hk.queue,
      hk.exchanges_below.put (hk.exchanges_below.object _ _ hx), hk.queues_below⟩
    rcases hm.of_put hx with hz | ⟨hz, rfl, rfl⟩
    · exact hk.exchange n j z hz
    · rw [hname]; exact hk.exchange n _ _ hz
  | updateQueue _ hq hname _ =>
    refine ⟨hk.exchange, fun n j z hm => ?_, hk.exchanges_below,
      hk.queues_below.put (hk.queues_below.object _ _ hq)⟩
    rcases hm.of_put hq with hz | ⟨hz, rfl, rfl⟩
    · exact hk.queue n j z hz
    · rw [hname]; exact hk.queue n _ _ hz
  | detach _ _ hx =>
    refine ⟨fun n j z hm => ?_, hk.queue,
      hk.exchanges_below.put (hk.exchanges_below.object _ _ hx), hk.queues_below⟩
    rcases hm.of_put hx with hz | ⟨hz, rfl, rfl⟩
    · exact hk.exchange n j z hz
    · exact ⟨(hk.exchange n _ _ hz).1, (hk.exchange n _ _ hz).2⟩
  | delete _ =>
    cases call with
    | exchangeDelete name ifUnused =>
      exact ⟨fun n i x hm => hk.exchange n i x (WeakRegistry.mem_pop.mp hm).1, hk.queue,
        hk.exchanges_below.pop, hk.queues_below⟩
    | queueDelete name ifUnused ifEmpty =>
      exact ⟨hk.exchange, fun n i q hm => hk.queue n i q (WeakRegistry.mem_pop.mp hm).1,
        hk.exchanges_below, hk.queues_below.pop⟩
    | _ => exact hk
  | collectExchange =>
    exact ⟨fun n i x hm => hk.exchange n i x (WeakRegistry.mem_collect.mp hm).1, hk.queue,
      hk.exchanges_below.collect, hk.queues_below⟩
  | collectQueue =>
    exact ⟨hk.exchange, fun n i q hm => hk.queue n i q (WeakRegistry.mem_collect.mp hm).1,
      hk.exchanges_below, hk.queues_below.collect⟩

omit [DecidableEq A] in
/-- Only `Exchange.delete` on a registered object takes the channel of one away. -/
theorem attached (h : Change call c b eff c') (hk : c.WellKeyed) (ha : c.Attached) :
    c'.Attached ∨ ∃ n i x, c.exchanges.Mem n i x ∧ call.deletes c = some (.exchange x.name) ∧
      call.forgets c = c ∧ eff = .deleted (.exchange x.name) ∧
      c' = { c with exchanges := c.exchanges.put i { x with hasChannel := false } } := by
  cases h with
  | @declareExchange x robust _ _ hx =>
    left
    intro n i y hm
    cases robust with
    | false => exact ha n i y ((WeakRegistry.mem_put_new hk.exchanges_below).mp hm)
    | true =>
      rcases WeakRegistry.mem_add.mp hm with hm | ⟨-, -, hy⟩
      · exact ha n i y ((WeakRegistry.mem_put_new hk.exchanges_below).mp hm)
      · obtain rfl := Option.some.inj (WeakRegistry.get?_put_self.symm.trans hy)
        exact hx
  | updateExchange _ hx _ hc _ =>
    left
    intro n j z hm
    rcases hm.of_put hx with hz | ⟨hz, rfl, rfl⟩
    · exact ha n j z hz
    · rw [hc]; exact ha n _ _ hz
  | @detach i x hd hf hx =>
    by_cases hm : ∃ n, c.exchanges.Mem n i x
    · obtain ⟨n, hm⟩ := hm
      exact Or.inr ⟨n, i, x, hm, hd, hf, rfl, rfl⟩
    · left
      intro n j z hz
      rcases hz.of_put hx with hz | ⟨hz, -, -⟩
      · exact ha n j z hz
      · exact absurd ⟨n, hz⟩ hm
  | delete _ =>
    left
    cases call with
    | exchangeDelete name ifUnused =>
      exact fun n i x hm => ha n i x (WeakRegistry.mem_pop.mp hm).1
    | _ => exact ha
  | collectExchange =>
    exact Or.inl fun n i x hm => ha n i x (WeakRegistry.mem_collect.mp hm).1
  | declareQueue => exact Or.inl ha
  | updateQueue => exact Or.inl ha
  | collectQueue => exact Or.inl ha

end Change

/-- What a call that succeeds does to the entities at the broker. -/
def Effect.Bounds (b b' : Amqp A) : Effect → Prop
  | .declared e _ => ∀ e', b'.Holds e' → b.Holds e' ∨ e' = e
  | .deleted e => ∀ e', b'.Holds e' → b.Holds e' ∧ e' ≠ e
  | .other => ∀ e', b'.Holds e' → b.Holds e'

namespace ChannelCall

open RobustChannel

variable {s t : Session (RobustChannel A C) (Amqp A) A C} {eff : Effect}

theorem declareExchange_change {name : Name} {type : String} {d a n p : Bool} {args : A}
    {robust : Bool}
    (h : (ChannelCall.declareExchange name type d a n p args robust).run s = .ok eff t) :
    Change (.declareExchange name type d a n p args robust) s.self s.broker eff t.self ∧
      eff.Bounds s.broker t.broker := by
  obtain ⟨i, u, hd, hu⟩ := Coroutine.bind_eq_ok h
  cases hu
  rw [RobustChannel.declareExchange, getSelf_bind, modifySelf_bind] at hd
  obtain ⟨r, w, hx, hw⟩ := Coroutine.bind_eq_ok hd
  obtain ⟨x, y, hxi, hdecl, hwself⟩ := onExchange_ok hx
  obtain ⟨hy, hb⟩ := RobustExchange.declare_ok hdecl
  obtain rfl := Option.some.inj (WeakRegistry.get?_put_self.symm.trans hxi)
  replace hb : Amqp.handle (C := C) (.exchangeDeclare name type d a n p args) s.broker =
    (.ok r, w.broker) := hb
  simp only at hy
  rw [hy, WeakRegistry.put_of_get? WeakRegistry.get?_put_self] at hwself
  have hn : name ≠ "" := (Amqp.holds_exchangeDeclare (e := .exchange name) hb).1
  have hchange : Change (.declareExchange name type d a n p args robust) s.self s.broker
      (.declared (.exchange name) (¬ n ∧ robust)) _ :=
    .declareExchange (x := ⟨name, type, d, a, n, p, args, true, .empty⟩) rfl hn rfl rfl
  have hbound : ∀ e, w.broker.Holds e → s.broker.Holds e ∨ e = .exchange name :=
    fun e he => (Amqp.holds_exchangeDeclare hb).2.mp he
  cases n <;> cases robust <;> cases hw <;> exact ⟨by rw [hwself]; exact hchange, hbound⟩

theorem declareQueue_change {uuid : String} {name : Option Name} {d x p a : Bool} {args : A}
    {robust : Bool}
    (h : (ChannelCall.declareQueue uuid name d x p a args robust).run s = .ok eff t) :
    Change (.declareQueue uuid name d x p a args robust) s.self s.broker eff t.self ∧
      eff.Bounds s.broker t.broker := by
  obtain ⟨⟨i, m⟩, u, hd, hu⟩ := Coroutine.bind_eq_ok h
  cases hu
  rw [RobustChannel.declareQueue, getSelf_bind, modifySelf_bind] at hd
  obtain ⟨n, w, hx, hw⟩ := Coroutine.bind_eq_ok hd
  obtain ⟨q, y, hqi, hbody, hwself⟩ := onQueue_ok hx
  obtain rfl := Option.some.inj (WeakRegistry.get?_put_self.symm.trans hqi)
  obtain ⟨r, v, hdecl, hv⟩ := Coroutine.bind_eq_ok hbody
  cases hv
  obtain ⟨hy, hb⟩ := RobustQueue.queue_declare_ok hdecl
  replace hb : Amqp.handle (RobustQueue.new uuid name d x a p args).declareRequest s.broker =
    (.ok r, w.broker) := hb
  obtain ⟨m', hm, hne, -⟩ := Amqp.holds_queueDeclare (e := .queue "") hb
  have hbound : ∀ e, w.broker.Holds e → s.broker.Holds e ∨ e = .queue m' := by
    intro e he
    obtain ⟨m'', hm', -, hiff⟩ := Amqp.holds_queueDeclare (e := e) hb
    obtain rfl : m' = m'' := Option.some.inj (hm.symm.trans hm')
    exact hiff.mp he
  simp only [RobustQueue.renamed, hm, Option.getD_some] at hy
  subst hy
  have hchange : Change (.declareQueue uuid name d x p a args robust) s.self s.broker
      (.declared (.queue m') robust) _ :=
    .declareQueue (q := ⟨m', d, x, a, p, args, .empty, .empty⟩) rfl hne rfl
  simp only [WeakRegistry.put_put] at hwself
  cases robust <;> cases hw <;> exact ⟨by rw [hwself]; exact hchange, hbound⟩

theorem bindExchange_change {i : ℕ} {p : ExchangeParam} {k : Name} {a : A} {robust : Bool}
    (h : (ChannelCall.bindExchange i p k a robust).run s = .ok eff t) :
    Change (.bindExchange i p k a robust) s.self s.broker eff t.self ∧
      eff.Bounds s.broker t.broker := by
  obtain ⟨r, u, hx, hu⟩ := Coroutine.bind_eq_ok h
  cases hu
  obtain ⟨x, y, hxi, hbind, hself⟩ := onExchange_ok hx
  obtain ⟨-, hb, -, hy⟩ := RobustExchange.bind_ok hbind
  replace hb : s.broker.bind ⟨.exchange x.name, getExchangeName p, k, a⟩ = (.ok r, t.broker) := hb
  have hsrc := (Amqp.bind_ok hb).2.1
  simp only at hy
  rw [hself]
  refine ⟨.updateExchange rfl hxi ?_ ?_ ?_, fun e he => (Amqp.holds_bind hb).mp he⟩
  · cases robust <;> simp [hy]
  · cases robust <;> simp [hy]
  · intro p' v hv
    cases robust with
    | false => exact Or.inl (by simpa [hy] using hv)
    | true =>
      simp only [hy, if_true, Dict.get?_set] at hv
      split at hv
      · rename_i hp; subst hp; exact Or.inr hsrc
      · exact Or.inl hv

theorem unbindExchange_change {i : ℕ} {p : ExchangeParam} {k : Name} {a : A}
    (h : (ChannelCall.unbindExchange i p k a).run s = .ok eff t) :
    Change (.unbindExchange i p k a) s.self s.broker eff t.self ∧
      eff.Bounds s.broker t.broker := by
  obtain ⟨r, u, hx, hu⟩ := Coroutine.bind_eq_ok h
  cases hu
  obtain ⟨x, y, hxi, hbind, hself⟩ := onExchange_ok hx
  obtain ⟨-, hb, -, hy⟩ := RobustExchange.unbind_ok hbind
  simp only at hy
  rw [hself, hy]
  refine ⟨.updateExchange rfl hxi rfl rfl ?_, ?_⟩
  · intro p' v hv
    exact Or.inl (Dict.of_get?_pop hv).2
  · intro e he
    replace hb : s.broker.removeBinding ⟨.exchange x.name, getExchangeName p, k, a⟩ = t.broker :=
      congrArg Prod.snd hb
    rw [← hb] at he
    cases e <;> exact he

theorem bindQueue_change {i : ℕ} {p : ExchangeParam} {k : Option Name} {a : A} {robust : Bool}
    (h : (ChannelCall.bindQueue i p k a robust).run s = .ok eff t) :
    Change (.bindQueue i p k a robust) s.self s.broker eff t.self ∧
      eff.Bounds s.broker t.broker := by
  obtain ⟨r, u, hx, hu⟩ := Coroutine.bind_eq_ok h
  cases hu
  obtain ⟨q, y, hqi, hbind, hself⟩ := onQueue_ok hx
  obtain ⟨hb, -, hy⟩ := RobustQueue.bind_ok hbind
  replace hb : s.broker.bind ⟨.queue q.name, getExchangeName p, k.getD q.name, a⟩ =
    (.ok r, t.broker) := hb
  have hsrc := (Amqp.bind_ok hb).2.1
  simp only at hy
  rw [hself]
  refine ⟨.updateQueue rfl hqi ?_ ?_, fun e he => (Amqp.holds_bind hb).mp he⟩
  · cases robust <;> simp [hy]
  · intro k' v hv
    cases robust with
    | false => exact Or.inl (by simpa [hy] using hv)
    | true =>
      simp only [hy, if_true, Dict.get?_set] at hv
      split at hv
      · rename_i hp; subst hp; exact Or.inr hsrc
      · exact Or.inl hv

theorem unbindQueue_change {i : ℕ} {p : ExchangeParam} {k : Option Name} {a : A}
    (h : (ChannelCall.unbindQueue i p k a).run s = .ok eff t) :
    Change (.unbindQueue i p k a) s.self s.broker eff t.self ∧
      eff.Bounds s.broker t.broker := by
  obtain ⟨r, u, hx, hu⟩ := Coroutine.bind_eq_ok h
  cases hu
  obtain ⟨q, y, hqi, hbind, hself⟩ := onQueue_ok hx
  obtain ⟨hb, -, hy⟩ := RobustQueue.unbind_ok hbind
  simp only at hy
  rw [hself, hy]
  refine ⟨.updateQueue rfl hqi rfl ?_, ?_⟩
  · intro k' v hv
    exact Or.inl (Dict.of_get?_pop hv).2
  · intro e he
    replace hb : s.broker.removeBinding ⟨.queue q.name, getExchangeName p, k.getD q.name, a⟩ =
      t.broker := congrArg Prod.snd hb
    rw [← hb] at he
    cases e <;> exact he

theorem consume_change {i : ℕ} {c : C} {k x : Bool} {a : A} {o : Option ConsumerTag}
    {robust : Bool} (h : (ChannelCall.consume i c k x a o robust).run s = .ok eff t) :
    Change (.consume i c k x a o robust) s.self s.broker eff t.self ∧
      eff.Bounds s.broker t.broker := by
  obtain ⟨tag, u, hx, hu⟩ := Coroutine.bind_eq_ok h
  cases hu
  obtain ⟨q, y, hqi, hcons, hself⟩ := onQueue_ok hx
  obtain ⟨hy, reply, hb⟩ := RobustQueue.consume_ok hcons
  replace hb : Amqp.handle (.basicConsume q.name c k x a o) s.broker = (.ok reply, t.broker) := hb
  simp only at hy
  rw [hself]
  refine ⟨.updateQueue rfl hqi ?_ ?_, fun e he => (Amqp.holds_consume hb).mp he⟩
  · cases robust <;> simp [hy]
  · intro k' v hv
    exact Or.inl (by cases robust <;> simpa [hy] using hv)

theorem cancel_change {i : ℕ} {tag : ConsumerTag}
    (h : (ChannelCall.cancel i tag : ChannelCall A C).run s = .ok eff t) :
    Change (.cancel i tag) s.self s.broker eff t.self ∧ eff.Bounds s.broker t.broker := by
  obtain ⟨r, u, hx, hu⟩ := Coroutine.bind_eq_ok h
  cases hu
  obtain ⟨q, y, hqi, hcancel, hself⟩ := onQueue_ok hx
  obtain ⟨hy, hb⟩ := RobustQueue.cancel_ok hcancel
  simp only at hy
  rw [hself, hy]
  refine ⟨.updateQueue rfl hqi rfl fun k' v hv => Or.inl hv, ?_⟩
  intro e he
  replace hb : s.broker = t.broker := congrArg Prod.snd hb
  rwa [hb]

theorem deleteExchange_change {i : ℕ} {ifUnused : Bool}
    (h : (ChannelCall.deleteExchange i ifUnused : ChannelCall A C).run s = .ok eff t) :
    Change (.deleteExchange i ifUnused) s.self s.broker eff t.self ∧
      eff.Bounds s.broker t.broker := by
  obtain ⟨name, u, hx, hu⟩ := Coroutine.bind_eq_ok h
  cases hu
  obtain ⟨x, y, hxi, hbody, hself⟩ := onExchange_ok hx
  obtain ⟨r, v, hdel, hv⟩ := Coroutine.bind_eq_ok hbody
  cases hv
  obtain ⟨hy, hb⟩ := RobustExchange.delete_ok hdel
  replace hb : Amqp.handle (C := C) (.exchangeDelete x.name ifUnused) s.broker =
    (.ok r, t.broker) := hb
  simp only at hy
  subst hy
  rw [hself]
  refine ⟨Change.detach (x := x) ?_ rfl hxi, fun e he => (Amqp.holds_exchangeDelete hb).mp he⟩
  simp [deletes, hxi]

theorem deleteQueue_change {i : ℕ} {ifUnused ifEmpty : Bool}
    (h : (ChannelCall.deleteQueue i ifUnused ifEmpty : ChannelCall A C).run s = .ok eff t) :
    Change (.deleteQueue i ifUnused ifEmpty) s.self s.broker eff t.self ∧
      eff.Bounds s.broker t.broker := by
  obtain ⟨name, u, hx, hu⟩ := Coroutine.bind_eq_ok h
  cases hu
  obtain ⟨q, y, hqi, hbody, hself⟩ := onQueue_ok hx
  obtain ⟨r, v, hdel, hv⟩ := Coroutine.bind_eq_ok hbody
  cases hv
  obtain ⟨hy, hb⟩ := RobustQueue.queue_delete_ok hdel
  replace hb : Amqp.handle (C := C) (.queueDelete q.name ifUnused ifEmpty) s.broker =
    (.ok r, t.broker) := hb
  simp only at hy
  subst hy
  rw [hself, WeakRegistry.put_of_get? hqi]
  refine ⟨.delete ?_, fun e he => (Amqp.holds_queueDelete hb).mp he⟩
  simp [deletes, hqi]

/-- What any call that succeeds does to the registries and to the entities. -/
theorem run_change {call : ChannelCall A C} (h : call.run s = .ok eff t) :
    Change call s.self s.broker eff t.self ∧ eff.Bounds s.broker t.broker := by
  cases call with
  | declareExchange => exact declareExchange_change h
  | declareQueue => exact declareQueue_change h
  | bindExchange => exact bindExchange_change h
  | unbindExchange => exact unbindExchange_change h
  | bindQueue => exact bindQueue_change h
  | unbindQueue => exact unbindQueue_change h
  | consume => exact consume_change h
  | cancel => exact cancel_change h
  | deleteExchange => exact deleteExchange_change h
  | deleteQueue => exact deleteQueue_change h
  | exchangeDelete name ifUnused =>
    obtain ⟨r, u, hd, hu⟩ := Coroutine.bind_eq_ok h
    cases hu
    obtain ⟨r', v, hs, hv⟩ := Coroutine.bind_eq_ok hd
    cases hv
    obtain ⟨hself, -, hb⟩ := send_ok hs
    replace hb : Amqp.handle (C := C) (.exchangeDelete name ifUnused) s.broker =
      (.ok r, v.broker) := hb
    rw [hself]
    exact ⟨.delete rfl, fun e he => (Amqp.holds_exchangeDelete hb).mp he⟩
  | queueDelete name ifUnused ifEmpty =>
    obtain ⟨r, u, hd, hu⟩ := Coroutine.bind_eq_ok h
    cases hu
    obtain ⟨r', v, hs, hv⟩ := Coroutine.bind_eq_ok hd
    cases hv
    obtain ⟨hself, -, hb⟩ := send_ok hs
    replace hb : Amqp.handle (C := C) (.queueDelete name ifUnused ifEmpty) s.broker =
      (.ok r, v.broker) := hb
    rw [hself]
    exact ⟨.delete rfl, fun e he => (Amqp.holds_queueDelete hb).mp he⟩
  | collectExchange i => cases h; exact ⟨.collectExchange rfl, fun e he => he⟩
  | collectQueue i => cases h; exact ⟨.collectQueue rfl, fun e he => he⟩

end ChannelCall

namespace RobustChannel

/-- A channel that successful calls have made, whatever the broker went through between them. -/
inductive Built : RobustChannel A C → Prop
  | fresh : Built ⟨0, 0, .empty, .empty, 0⟩
  | setQos {c : RobustChannel A C} (prefetchCount prefetchSize : ℕ) :
      Built c → Built { c with prefetchCount := prefetchCount, prefetchSize := prefetchSize }
  | call {s t : Session (RobustChannel A C) (Amqp A) A C} {call : ChannelCall A C} {eff : Effect} :
      Built s.self → call.run s = .ok eff t → Built t.self

theorem Built.wellKeyed {c : RobustChannel A C} (h : Built c) : c.WellKeyed := by
  induction h with
  | fresh =>
    refine ⟨?_, ?_, WeakRegistry.below_empty, WeakRegistry.below_empty⟩
    · exact fun n i x hm => absurd hm.1 WeakRegistry.not_listed_empty
    · exact fun n i x hm => absurd hm.1 WeakRegistry.not_listed_empty
  | setQos _ _ _ ih => exact ⟨ih.exchange, ih.queue, ih.exchanges_below, ih.queues_below⟩
  | call _ hrun ih => exact (ChannelCall.run_change hrun).1.wellKeyed ih

end RobustChannel

end AioPika
