import AioPika.Exchange.Robust

/-! # Robust queues

`Queue` and `RobustQueue`: declaring, binding, consuming, cancelling, deleting,
and the replay of `restore()`. With a broker that echoes consumer tags, a
restore declares the queue, sends the requests of its replay and nothing else,
and changes nothing in the object but its name; a broker that echoes queue
names leaves that too.
-/

namespace AioPika

/-- The keyword arguments kept for a consumer. -/
structure ConsumeKwargs (A C : Type) where
  callback : C
  noAck : Bool
  exclusive : Bool
  arguments : A
  deriving DecidableEq, Repr

structure RobustQueue (A C : Type) where
  name : Name
  durable : Bool
  exclusive : Bool
  autoDelete : Bool
  passive : Bool
  arguments : A
  /-- `_bindings`: the arguments kept under an exchange and a routing key. -/
  bindings : Dict (ExchangeParam × Name) A
  /-- `_consumers` -/
  consumers : Dict ConsumerTag (ConsumeKwargs A C)

variable {β A C : Type}

namespace Queue

def declare (B : Broker β A C) : Coro (RobustQueue A C) β A C Reply := do
  let q ← getSelf
  let declarationResult ← send B
    (.queueDeclare q.name q.durable q.exclusive q.autoDelete q.passive q.arguments)
  modifySelf fun q => { q with name := declarationResult.queue.getD "<UNNAMED>" }
  return declarationResult

def bind (B : Broker β A C) (exchange : ExchangeParam) (routingKey : Option Name)
    (arguments : A) : Coro (RobustQueue A C) β A C Reply := do
  let q ← getSelf
  send B (.queueBind q.name (getExchangeName exchange) (routingKey.getD q.name) arguments)

def unbind (B : Broker β A C) (exchange : ExchangeParam) (routingKey : Option Name)
    (arguments : A) : Coro (RobustQueue A C) β A C Reply := do
  let q ← getSelf
  send B (.queueUnbind q.name (getExchangeName exchange) (routingKey.getD q.name) arguments)

def consume (B : Broker β A C) (callback : C) (noAck exclusive : Bool) (arguments : A)
    (consumerTag : Option ConsumerTag) : Coro (RobustQueue A C) β A C ConsumerTag := do
  let q ← getSelf
  let consumeResult ← send B
    (.basicConsume q.name callback noAck exclusive arguments consumerTag)
  match consumeResult.consumerTag with
  | none => throw (.runtimeError "Consumer tag is None")
  | some tag => return tag

def cancel (B : Broker β A C) (consumerTag : ConsumerTag) :
    Coro (RobustQueue A C) β A C Reply :=
  send B (.basicCancel consumerTag)

def delete (B : Broker β A C) (ifUnused ifEmpty : Bool) :
    Coro (RobustQueue A C) β A C Reply := do
  let q ← getSelf
  send B (.queueDelete q.name ifUnused ifEmpty)

end Queue

namespace RobustQueue

/-- `__init__`; `uuid` is what `uuid.uuid4().hex` gives. -/
def new (uuid : String) (name : Option Name) (durable exclusive autoDelete passive : Bool)
    (arguments : A) : RobustQueue A C where
  name := (name.filter (· ≠ "")).getD ("amq_" ++ uuid)
  durable := durable
  exclusive := exclusive
  autoDelete := autoDelete
  passive := passive
  arguments := arguments
  bindings := .empty
  consumers := .empty

def bind (B : Broker β A C) (exchange : ExchangeParam) (routingKey : Option Name)
    (arguments : A) (robust : Bool) : Coro (RobustQueue A C) β A C Reply := do
  let q ← getSelf
  let routingKey := routingKey.getD q.name
  let result ← Queue.bind B exchange (some routingKey) arguments
  if robust then
    modifySelf fun q => { q with bindings := q.bindings.set (exchange, routingKey) arguments }
  return result

def unbind (B : Broker β A C) (exchange : ExchangeParam) (routingKey : Option Name)
    (arguments : A) : Coro (RobustQueue A C) β A C Reply := do
  let q ← getSelf
  let routingKey := routingKey.getD q.name
  let result ← Queue.unbind B exchange (some routingKey) arguments
  modifySelf fun q => { q with bindings := q.bindings.pop (exchange, routingKey) }
  return result

def consume (B : Broker β A C) (callback : C) (noAck exclusive : Bool) (arguments : A)
    (consumerTag : Option ConsumerTag) (robust : Bool) :
    Coro (RobustQueue A C) β A C ConsumerTag := do
  let consumerTag ← Queue.consume B callback noAck exclusive arguments consumerTag
  if robust then
    modifySelf fun q =>
      { q with consumers := q.consumers.set consumerTag ⟨callback, noAck, exclusive, arguments⟩ }
  return consumerTag

def cancel (B : Broker β A C) (consumerTag : ConsumerTag) :
    Coro (RobustQueue A C) β A C Reply := do
  let result ← Queue.cancel B consumerTag
  modifySelf fun q => { q with consumers := q.consumers.pop consumerTag }
  return result

def restore (B : Broker β A C) : Coro (RobustQueue A C) β A C Unit := do
  let _ ← Queue.declare B
  let q ← getSelf
  let bindings := q.bindings.items
  let consumers := q.consumers.items
  bindings.forM fun e => do
    let _ ← bind B e.1.1 (some e.1.2) e.2 true
  consumers.forM fun e => do
    let _ ← consume B e.2.callback e.2.noAck e.2.exclusive e.2.arguments (some e.1) true

def declareRequest (q : RobustQueue A C) : Request A C :=
  .queueDeclare q.name q.durable q.exclusive q.autoDelete q.passive q.arguments

def bindRequest (q : RobustQueue A C) (e : (ExchangeParam × Name) × A) : Request A C :=
  .queueBind q.name (getExchangeName e.1.1) e.1.2 e.2

def consumeRequest (q : RobustQueue A C) (e : ConsumerTag × ConsumeKwargs A C) :
    Request A C :=
  .basicConsume q.name e.2.callback e.2.noAck e.2.exclusive e.2.arguments (some e.1)

/-- The requests of a restore after the declaration, in the order in which they are sent. -/
def replay (q : RobustQueue A C) : List (Request A C) :=
  q.bindings.items.map q.bindRequest ++ q.consumers.items.map q.consumeRequest

def restorePlan (q : RobustQueue A C) : List (Request A C) :=
  q.declareRequest :: q.replay

def renamed (q : RobustQueue A C) (reply : Reply) : RobustQueue A C :=
  { q with name := reply.queue.getD "<UNNAMED>" }

section Calls

variable {B : Broker β A C} {s t : Session (RobustQueue A C) β A C} {p : ExchangeParam}
  {o : Option Name} {a : A} {robust : Bool} {reply : Reply}

theorem bind_ok (h : bind B p o a robust s = .ok reply t) :
    let k := o.getD s.self.name
    B.handle (.queueBind s.self.name (getExchangeName p) k a) s.broker = (.ok reply, t.broker) ∧
      t.sent = s.sent ++ [.queueBind s.self.name (getExchangeName p) k a] ∧
      t.self = if robust then { s.self with bindings := s.self.bindings.set (p, k) a }
        else s.self := by
  rw [bind, getSelf_bind] at h
  obtain ⟨r, u, hs, hu⟩ := Coroutine.bind_eq_ok h
  obtain ⟨hself, hsent, hb⟩ := send_ok (B := B) (r := .queueBind _ _ _ _) hs
  cases robust with
  | true => cases hu; exact ⟨hb, hsent, by simp only [hself, if_true]⟩
  | false => cases hu; exact ⟨hb, hsent, hself⟩

theorem unbind_ok (h : unbind B p o a s = .ok reply t) :
    let k := o.getD s.self.name
    B.handle (.queueUnbind s.self.name (getExchangeName p) k a) s.broker =
        (.ok reply, t.broker) ∧
      t.sent = s.sent ++ [.queueUnbind s.self.name (getExchangeName p) k a] ∧
      t.self = { s.self with bindings := s.self.bindings.pop (p, k) } := by
  rw [unbind, getSelf_bind] at h
  obtain ⟨r, u, hs, hu⟩ := Coroutine.bind_eq_ok h
  obtain ⟨hself, hsent, hb⟩ := send_ok (B := B) (r := .queueUnbind _ _ _ _) hs
  cases hu
  exact ⟨hb, hsent, by simp only [hself]⟩

theorem queue_declare_ok (h : Queue.declare B s = .ok reply t) :
    t.self = s.self.renamed reply ∧
      B.handle s.self.declareRequest s.broker = (.ok reply, t.broker) := by
  rw [Queue.declare, getSelf_bind] at h
  obtain ⟨r, u, hs, hu⟩ := Coroutine.bind_eq_ok h
  obtain ⟨hself, -, hb⟩ := send_ok (B := B) (r := .queueDeclare _ _ _ _ _ _) hs
  cases hu
  exact ⟨by simp only [hself, renamed], hb⟩

theorem queue_delete_ok {ifUnused ifEmpty : Bool}
    (h : Queue.delete B ifUnused ifEmpty s = .ok reply t) :
    t.self = s.self ∧
      B.handle (.queueDelete s.self.name ifUnused ifEmpty) s.broker = (.ok reply, t.broker) := by
  rw [Queue.delete, getSelf_bind] at h
  obtain ⟨hself, -, hb⟩ := send_ok (B := B) (r := .queueDelete _ _ _) h
  exact ⟨hself, hb⟩

variable {c : C} {k e : Bool} {tag : ConsumerTag}

theorem queue_consume_broker (h : Queue.consume B c k e a o s = .ok tag t) :
    ∃ reply, B.handle (.basicConsume s.self.name c k e a o) s.broker = (.ok reply, t.broker) := by
  obtain ⟨reply, u, hs, h⟩ := Coroutine.bind_eq_ok (by rwa [Queue.consume, getSelf_bind] at h)
  cases ht : reply.consumerTag with
  | none => rw [ht] at h; cases h
  | some tag' => rw [ht] at h; cases h; exact ⟨reply, (send_ok hs).2.2⟩

theorem queue_consume_self (h : Queue.consume B c k e a o s = .ok tag t) :
    t.self = s.self := by
  obtain ⟨reply, u, hs, h⟩ := Coroutine.bind_eq_ok (by rwa [Queue.consume, getSelf_bind] at h)
  cases ht : reply.consumerTag with
  | none => rw [ht] at h; cases h
  | some tag' => rw [ht] at h; cases h; exact (send_ok hs).1

theorem queue_consume_error {x : Exn} (h : Queue.consume B c k e a o s = .error x t) :
    t.self = s.self := by
  rw [Queue.consume, getSelf_bind] at h
  cases hs : send B (.basicConsume s.self.name c k e a o) s with
  | error x' u =>
    rw [Coroutine.bind_error hs] at h
    cases h
    exact (send_error hs).1
  | ok reply u =>
    rw [Coroutine.bind_ok hs] at h
    cases ht : reply.consumerTag with
    | none => rw [ht] at h; cases h; exact (send_ok hs).1
    | some tag' => rw [ht] at h; cases h

theorem consume_ok (h : consume B c k e a o robust s = .ok tag t) :
    (t.self = if robust then
        { s.self with consumers := s.self.consumers.set tag ⟨c, k, e, a⟩ }
      else s.self) ∧
      ∃ reply, B.handle (.basicConsume s.self.name c k e a o) s.broker =
        (.ok reply, t.broker) := by
  obtain ⟨tag', u, hq, h⟩ := Coroutine.bind_eq_ok h
  have hu := queue_consume_self hq
  have hb := queue_consume_broker hq
  cases robust with
  | true => cases h; exact ⟨by simp [hu], hb⟩
  | false => cases h; exact ⟨by simp [hu], hb⟩

theorem consume_error {x : Exn} (h : consume B c k e a o robust s = .error x t) :
    t.self = s.self := by
  unfold consume at h
  cases hq : Queue.consume B c k e a o s with
  | ok tag' u =>
    rw [Coroutine.bind_ok hq] at h
    cases robust <;> cases h
  | error x' u =>
    rw [Coroutine.bind_error hq] at h
    cases h
    exact queue_consume_error hq

theorem cancel_ok (h : cancel B tag s = .ok reply t) :
    t.self = { s.self with consumers := s.self.consumers.pop tag } ∧
      B.handle (.basicCancel tag) s.broker = (.ok reply, t.broker) := by
  obtain ⟨r, u, hs, h⟩ := Coroutine.bind_eq_ok h
  cases h
  obtain ⟨hself, -, hb⟩ := send_ok (B := B) (r := .basicCancel _) hs
  exact ⟨by simp only [hself], hb⟩

theorem cancel_error {x : Exn} (h : cancel B tag s = .error x t) : t.self = s.self := by
  unfold cancel Queue.cancel at h
  cases hs : send B (.basicCancel tag) s with
  | ok reply u => rw [Coroutine.bind_ok hs] at h; cases h
  | error x' u => rw [Coroutine.bind_error hs] at h; cases h; exact (send_error hs).1

end Calls

section Broker

variable {B : Broker β A C} {s : Session (RobustQueue A C) β A C}

theorem bind_registered {p : ExchangeParam} {k : Name} {a : A}
    (hp : s.self.bindings.get? (p, k) = some a) :
    bind B p (some k) a true s = send B (s.self.bindRequest ((p, k), a)) s := by
  unfold bind
  rw [getSelf_bind]
  cases hs : send B (s.self.bindRequest ((p, k), a)) s with
  | error e t => exact Coroutine.bind_error hs
  | ok reply t =>
    obtain ⟨hself, -, -⟩ := send_ok hs
    have hset : t.self.bindings.set (p, k) a = t.self.bindings := by
      rw [hself]; exact Dict.set_of_get? hp
    apply (Coroutine.bind_ok hs).trans
    change EStateM.Result.ok reply
      { t with self := { t.self with bindings := t.self.bindings.set (p, k) a } } = _
    rw [hset]

/-- The first loop of a restore binds every entry again as it is registered. -/
theorem bindings_run :
    (s.self.bindings.items.forM fun e => do
      let _ ← bind B e.1.1 (some e.1.2) e.2 true) s =
      sendAll B (s.self.bindings.items.map s.self.bindRequest) s := by
  apply forM_eq_sendAll
  rintro ⟨⟨p, k⟩, a⟩ he w hw
  have hb : bind B p (some k) a true w = send B (s.self.bindRequest ((p, k), a)) w := by
    rw [← hw] at he ⊢
    exact bind_registered (Dict.mem_items_iff.mp he)
  cases hs : send B (s.self.bindRequest ((p, k), a)) w with
  | ok reply t => exact Or.inl ⟨reply, t, rfl, Coroutine.bind_ok (hb.trans hs)⟩
  | error e t => exact Or.inr ⟨e, t, rfl, Coroutine.bind_error (hb.trans hs)⟩

end Broker

section Tags

variable {B : TagBroker β A C} {s t : Session (RobustQueue A C) β A C}

theorem queue_consume_ok {c : C} {k e : Bool} {a : A} {tag : ConsumerTag} {reply : Reply}
    (hs : send B.toBroker (.basicConsume s.self.name c k e a (some tag)) s = .ok reply t) :
    Queue.consume B.toBroker c k e a (some tag) s = .ok tag t := by
  unfold Queue.consume
  rw [getSelf_bind, Coroutine.bind_ok hs]
  have ht : reply.consumerTag = some tag :=
    B.echo_tag _ _ _ _ _ _ s.broker reply (congrArg Prod.fst (send_ok hs).2.2)
  simp only [ht]
  rfl

theorem consume_registered {tag : ConsumerTag} {v : ConsumeKwargs A C} {reply : Reply}
    (hv : s.self.consumers.get? tag = some v)
    (hs : send B.toBroker (s.self.consumeRequest (tag, v)) s = .ok reply t) :
    consume B.toBroker v.callback v.noAck v.exclusive v.arguments (some tag) true s =
      .ok tag t := by
  obtain ⟨hself, -, -⟩ := send_ok hs
  have hset : t.self.consumers.set tag v = t.self.consumers := by
    rw [hself]; exact Dict.set_of_get? hv
  unfold consume
  rw [Coroutine.bind_ok (queue_consume_ok hs)]
  change EStateM.Result.ok tag
    { t with self := { t.self with consumers := t.self.consumers.set tag v } } = _
  rw [hset]

theorem consumers_run :
    (s.self.consumers.items.forM fun e => do
      let _ ← consume B.toBroker e.2.callback e.2.noAck e.2.exclusive e.2.arguments
        (some e.1) true) s =
      sendAll B.toBroker (s.self.consumers.items.map s.self.consumeRequest) s := by
  apply forM_eq_sendAll
  rintro ⟨tag, v⟩ he w hw
  rw [← hw] at he ⊢
  cases hs : send B.toBroker (w.self.consumeRequest (tag, v)) w with
  | ok reply t =>
    have hc := consume_registered (Dict.mem_items_iff.mp he) hs
    exact Or.inl ⟨reply, t, rfl, Coroutine.bind_ok hc⟩
  | error e t =>
    refine Or.inr ⟨e, t, rfl, Coroutine.bind_error (Coroutine.bind_error ?_)⟩
    unfold Queue.consume
    rw [getSelf_bind]
    exact Coroutine.bind_error hs

theorem declare_ok {reply : Reply}
    (h : send B.toBroker s.self.declareRequest s = .ok reply t) :
    Queue.declare B.toBroker s = .ok reply { t with self := t.self.renamed reply } := by
  unfold Queue.declare
  rw [getSelf_bind]
  exact Coroutine.bind_ok h

theorem declare_error {e : Exn}
    (h : send B.toBroker s.self.declareRequest s = .error e t) :
    Queue.declare B.toBroker s = .error e t := by
  unfold Queue.declare
  rw [getSelf_bind]
  exact Coroutine.bind_error h

theorem restore_ok {reply : Reply}
    (h : send B.toBroker s.self.declareRequest s = .ok reply t) :
    restore B.toBroker s = sendAll B.toBroker (t.self.renamed reply).replay
      { t with self := t.self.renamed reply } := by
  unfold restore replay
  rw [Coroutine.bind_ok (declare_ok h), getSelf_bind]
  cases hb : sendAll B.toBroker
      ((t.self.renamed reply).bindings.items.map (t.self.renamed reply).bindRequest)
      { t with self := t.self.renamed reply } with
  | error e w =>
    rw [sendAll_append_error hb]
    exact Coroutine.bind_error (bindings_run.trans hb)
  | ok u w =>
    have hc := consumers_run (B := B) (s := w)
    rw [(sendAll_ok hb).1] at hc
    rw [sendAll_append_ok hb, Coroutine.bind_ok (bindings_run.trans hb)]
    exact hc

theorem restore_error {e : Exn}
    (h : send B.toBroker s.self.declareRequest s = .error e t) :
    restore B.toBroker s = .error e t := by
  unfold restore
  exact Coroutine.bind_error (declare_error h)

/-- Whatever the broker answers, a restore changes nothing in the queue object but its name. -/
theorem restore_self : ∃ n,
    (∃ t, restore B.toBroker s = .ok () t ∧ t.self = { s.self with name := n }) ∨
      ∃ e t, restore B.toBroker s = .error e t ∧ t.self = { s.self with name := n } := by
  cases hd : send B.toBroker s.self.declareRequest s with
  | error e t => exact ⟨s.self.name, Or.inr ⟨e, t, restore_error hd, (send_error hd).1⟩⟩
  | ok reply t =>
    refine ⟨reply.queue.getD "<UNNAMED>", ?_⟩
    rw [restore_ok hd, ← (send_ok hd).1]
    exact sendAll_self _ _ _

/-- A restore that succeeds has declared the queue and sent its replay. -/
theorem restore_sent {u : Unit} (h : restore B.toBroker s = .ok u t) :
    t.sent = s.sent ++ s.self.declareRequest :: t.self.replay := by
  cases hd : send B.toBroker s.self.declareRequest s with
  | error e w => rw [restore_error hd] at h; cases h
  | ok reply w =>
    rw [restore_ok hd] at h
    obtain ⟨hself, hsent⟩ := sendAll_ok h
    rw [hsent, hself, (send_ok hd).2.1, List.append_assoc]
    rfl

end Tags

section Echo

variable {B : EchoBroker β A C} {s t : Session (RobustQueue A C) β A C}

theorem restore_run (hn : s.self.name ≠ "") :
    restore B.toBroker s = sendAll B.toBroker s.self.restorePlan s := by
  rw [restorePlan]
  cases hd : send B.toBroker s.self.declareRequest s with
  | error e t =>
    rw [sendAll_cons_error hd]
    exact restore_error hd
  | ok reply t =>
    obtain ⟨hself, -, hb⟩ := send_ok hd
    have hq : reply.queue = some s.self.name :=
      B.echo_queue _ _ _ _ _ _ s.broker reply hn (congrArg Prod.fst hb)
    have hr : t.self.renamed reply = s.self := by
      rw [renamed, hq, hself]; rfl
    rw [sendAll_cons_ok hd, restore_ok hd, hr, ← hself]

end Echo

end RobustQueue

end AioPika
