import AioPika.Rpc.Server
import AioPika.Rpc.Traces

/-! # Instances and their broker

Every RPC instance calls and serves. Its calls go to the queues of the methods, or
come back; requests that expire or are rejected go by the dead letter exchange to
the result queue that they name, and so do the replies. The broker hands out
again what was not settled when a channel is lost.
-/

namespace AioPika.Rpc.Network

structure Packet (B : Type) where
  message : Message String B
  replyTo : Option String
  /-- The header `From`. -/
  sender : Option String
  deliveryMode : ℕ
  expiration : Option ℕ
  deriving DecidableEq, Repr

/-- What `on_call_message` reads, without the body. -/
def Packet.request {B : Type} (k : Packet B) : Request :=
  ⟨k.replyTo, k.message.correlationId, k.deliveryMode⟩

inductive Stage where
  | publishing
  | queued
  /-- The broker returns it: it is mandatory, and no queue takes it. -/
  | returned
  /-- `publish` raises. -/
  | failed
  deriving DecidableEq, Repr

structure Call (B : Type) where
  future : ℕ
  packet : Packet B
  routingKey : String
  stage : Stage
  deriving DecidableEq, Repr

structure Caller (B V : Type) where
  rpc : State String B V
  calls : List (Call B)
  /-- Messages that the broker returns. -/
  returns : List (Packet B)
  /-- The result queue, and what is on its way from there. -/
  results : List (Message String B)
  /-- The channel is lost, and `on_close` has not run yet. -/
  down : Bool

structure Delivery (B V : Type) where
  packet : Packet B
  queue : String
  /-- The broker waits for its settlement. -/
  unacked : Bool
  /-- The function and the payload that it is called with. -/
  executed : Option (ℕ × V)
  returned : Option (Except V V)
  /-- The reply that is published, and whether the broker has got it. -/
  reply : Option (Reply V)
  sent : Bool

/-- An instance that serves, with the messages of `inFlight` and of `handlers`. -/
structure Callee (B V : Type) where
  server : Server V
  requests : List (Delivery B V)
  runs : List (Delivery B V)

structure System (B V : Type) where
  callers : List (Caller B V)
  callees : List (Callee B V)
  queues : Dict String (List (Packet B))
  /-- The exchanges of the instances, and the keys that queues of these names are bound with. -/
  bindings : List (String × String)
  /-- The messages that went back to their queues. -/
  redelivered : List (Packet B)

/-- What the instances share, and what each has of its own. -/
structure Config (B V : Type) where
  codec : Codec String B V
  /-- `serialize`, or what it raises. -/
  serialize : V → Except V B
  rpc : ℕ → RPC V
  /-- The names that the broker makes. -/
  resultQueue : ℕ → String
  distinct : Function.Injective resultQueue
  named : ∀ p, resultQueue p ≠ ""

/-- What `on_call_message` awaits, and how that ends. -/
inductive Await (V : Type) where
  | deserialize
  | executed (result : Except V V)
  | serialize
  | published (ok : Bool)
  | settled
  | interrupted

inductive NetworkAction (V : Type) where
  /-- `call`, up to its `publish`, or until `serialize_message` raises. -/
  | call (caller : ℕ) (correlationId method : String) (kwargs : V) (deliveryMode : ℕ)
      (expiration : Option ℕ)
  /-- The broker gets the message of a call. -/
  | route (caller call : ℕ)
  | publishRaised (caller call : ℕ)
  | messageReturned (caller message : ℕ)
  | resultMessage (caller message : ℕ)
  /-- The futures, apart from messages that come. -/
  | deserialized (caller handler : ℕ)
  | interrupted (caller handler : ℕ)
  | cancelled (caller future : ℕ)
  | removed (caller future : ℕ)
  | onClose (caller : ℕ) (exc : Option V)
  /-- The channel of an instance is lost, and restored with its queues and consumers. -/
  | lost (peer : ℕ)
  /-- `register` and `unregister` -/
  | register (callee : ℕ) (action : ServerAction V)
  | deliver (callee consumer message : ℕ)
  | handle (callee message : ℕ)
  | event (callee handler : ℕ) (await : Await V)
  /-- The broker gets a reply. -/
  | reply (callee handler : ℕ)
  /-- The broker gets a settlement. -/
  | settle (callee handler : ℕ)
  | expire (queue : String) (message : ℕ)
  | declareQueue (queue : String)
  | bind (exchange queue : String)
  | deleteQueue (queue : String)

variable {B V : Type} (cfg : Config B V)

/-- All instances are initialised, and no method is registered. -/
def fresh (n : ℕ) : System B V where
  callers := List.replicate n ⟨Rpc.fresh, [], [], [], false⟩
  callees := List.replicate n ⟨Server.fresh, [], []⟩
  queues := Dict.empty
  bindings := []
  redelivered := []

/-- The message that `call` publishes. -/
def Config.packet (p : ℕ) (id : String) (body : B) (deliveryMode : ℕ) (expiration : Option ℕ) :
    Packet B where
  message := ⟨some id, some RPCMessageType.call.value, body⟩
  replyTo := some (cfg.resultQueue p)
  sender := some (cfg.resultQueue p)
  deliveryMode := deliveryMode
  expiration := expiration

/-- The instance of a result queue. -/
def Config.owner (n : ℕ) (queue : Option String) : Option ℕ :=
  (List.range n).find? fun p => some (cfg.resultQueue p) = queue

/-- How an await of `on_call_message` ends that is about this request. -/
def Delivery.event (d : Delivery B V) : HandlerPc V → Await V → Option (HandlerEvent V)
  | .deserializing, .deserialize =>
    some (.deserialized (cfg.codec.deserializeMessage d.packet.message))
  | .executing _ _, .executed result => some (.executed result)
  | .serializing v _, .serialize | .serializingError v, .serialize =>
    match cfg.serialize v with
    | .ok _ => some (.serialized none)
    | .error e => some (.serialized (some e))
  -- the broker confirms what it has got
  | .publishing _, .published ok => if ok = true → d.sent = true then some (.published ok) else none
  | .settling, .settled => some .settled
  | _, .interrupted => some .interrupted
  | _, _ => none

/-- What is noted of a step of `on_call_message`. -/
def Delivery.note (d : Delivery B V) (e : HandlerEvent V) (pc : HandlerPc V) : Delivery B V where
  packet := d.packet
  queue := d.queue
  unacked := d.unacked
  executed := match pc with
    | .executing func payload => some (func, payload)
    | _ => d.executed
  returned := match e with
    | .executed result => some result
    | _ => d.returned
  reply := match pc with
    | .publishing reply => some reply
    | _ => d.reply
  sent := d.sent

/-- The broker puts a message that was not settled back into its queue. -/
def requeue (queues : Dict String (List (Packet B))) (d : Delivery B V) :
    Dict String (List (Packet B)) :=
  match queues.get? d.queue with
  | some ks => queues.set d.queue (d.packet :: ks)
  | none => queues

/-- The messages whose queues are still there. -/
def returning (queues : Dict String (List (Packet B))) (ds : List (Delivery B V)) :
    List (Packet B) :=
  (ds.filter fun d => (queues.get? d.queue).isSome).map Delivery.packet

namespace Callee

variable (c : Callee B V)

def outstanding : List (Delivery B V) := (c.requests ++ c.runs).filter Delivery.unacked

/-- The channel is lost: nothing that was delivered on it can be settled. -/
def forget : Callee B V where
  server := c.server
  requests := c.requests.map fun d => { d with unacked := false }
  runs := c.runs.map fun d => { d with unacked := false }

end Callee

def Caller.lose (c : Caller B V) : Caller B V where
  rpc := c.rpc
  calls := c.calls.map fun call =>
    if call.stage = .publishing then { call with stage := .failed } else call
  returns := []
  results := []
  down := true

/-- An action of `register` and `unregister`. -/
def Registers : ServerAction V → Bool
  | .deliver _ _ | .handle _ | .event _ _ => false
  | _ => true

namespace System

variable (s : System B V)

def setCaller (p : ℕ) (c : Caller B V) : System B V := { s with callers := s.callers.set p c }

def setCallee (q : ℕ) (c : Callee B V) : System B V := { s with callees := s.callees.set q c }

/-- A message for a result queue; nobody is told when there is no such queue. -/
def toResults (queue : Option String) (m : Message String B) : System B V :=
  match cfg.owner s.callers.length queue with
  | some p =>
    match s.callers[p]? with
    | some c => s.setCaller p { c with results := c.results ++ [m] }
    | none => s
  | none => s

/-- A queue takes the message of a call. -/
def Takes (exchange : Option String) (routingKey : String) : Prop :=
  (s.queues.get? routingKey).isSome = true ∧ ∀ x ∈ exchange, (x, routingKey) ∈ s.bindings

instance (exchange : Option String) (routingKey : String) :
    Decidable (s.Takes exchange routingKey) :=
  inferInstanceAs (Decidable
    ((s.queues.get? routingKey).isSome = true ∧ ∀ x ∈ exchange, (x, routingKey) ∈ s.bindings))

def future (p : ℕ) (a : Action String B V) : Option (System B V) := do
  let c ← s.callers[p]?
  let rpc ← Rpc.step cfg.codec c.rpc a
  return s.setCaller p { c with rpc := rpc }

end System

def route (s : System B V) (p n : ℕ) (c : Caller B V) (call : Call B) : System B V :=
  match s.queues.get? call.routingKey with
  | some ks =>
    if s.Takes (cfg.rpc p).exchange call.routingKey then
      { s.setCaller p { c with calls := c.calls.set n { call with stage := .queued } } with
        queues := s.queues.set call.routingKey (ks ++ [call.packet]) }
    else s.setCaller p { c with
      calls := c.calls.set n { call with stage := .returned }
      returns := c.returns ++ [call.packet] }
  | none => s.setCaller p { c with
      calls := c.calls.set n { call with stage := .returned }
      returns := c.returns ++ [call.packet] }

def step (s : System B V) : NetworkAction V → Option (System B V)
  | .call p id method kwargs mode expiration => do
    let c ← s.callers[p]?
    let rpc ← Rpc.step cfg.codec c.rpc (.call id)
    match cfg.serialize kwargs with
    | .ok body =>
      return s.setCaller p { c with
        rpc := rpc
        calls := c.calls ++ [⟨c.rpc.made.length, cfg.packet p id body mode expiration,
          (cfg.rpc p).formatRoutingKey method, .publishing⟩] }
    | .error _ => return s.setCaller p { c with rpc := rpc }
  | .route p n => do
    let c ← s.callers[p]?
    let call ← c.calls[n]?
    if call.stage = .publishing then return route cfg s p n c call else none
  | .publishRaised p n => do
    let c ← s.callers[p]?
    let call ← c.calls[n]?
    if call.stage = .publishing then
      return s.setCaller p { c with calls := c.calls.set n { call with stage := .failed } }
    else none
  | .messageReturned p n => do
    let c ← s.callers[p]?
    let k ← c.returns[n]?
    let rpc ← Rpc.step cfg.codec c.rpc (.messageReturned k.message)
    return s.setCaller p { c with rpc := rpc, returns := c.returns.eraseIdx n }
  | .resultMessage p n => do
    let c ← s.callers[p]?
    let m ← c.results[n]?
    let rpc ← Rpc.step cfg.codec c.rpc (.resultMessage m)
    return s.setCaller p { c with rpc := rpc, results := c.results.eraseIdx n }
  | .deserialized p j => s.future cfg p (.deserialized j)
  | .interrupted p j => s.future cfg p (.interrupted j)
  | .cancelled p i => s.future cfg p (.cancelled i)
  | .removed p i => s.future cfg p (.removed i)
  | .onClose p exc => do
    let c ← s.callers[p]?
    let rpc ← Rpc.step cfg.codec c.rpc (.onClose exc)
    return s.setCaller p { c with rpc := rpc, down := false }
  | .lost p => do
    let c ← s.callers[p]?
    let e ← s.callees[p]?
    return { s with
      callers := s.callers.set p c.lose
      callees := s.callees.set p e.forget
      queues := e.outstanding.foldl requeue s.queues
      redelivered := s.redelivered ++ returning s.queues e.outstanding }
  | .register q a => do
    let e ← s.callees[q]?
    let server ← serve (cfg.rpc q) e.server a
    if Registers a = true then return s.setCallee q { e with server := server } else none
  | .deliver q consumer n => do
    let e ← s.callees[q]?
    let member ← e.server.consumers[consumer]?
    let ks ← s.queues.get? ((cfg.rpc q).formatRoutingKey member.method)
    let k ← ks[n]?
    let server ← serve (cfg.rpc q) e.server (.deliver consumer k.request)
    return { s.setCallee q { e with
        server := server
        requests := e.requests ++ [⟨k, (cfg.rpc q).formatRoutingKey member.method, true,
          none, none, none, false⟩] } with
      queues := s.queues.set ((cfg.rpc q).formatRoutingKey member.method) (ks.eraseIdx n) }
  | .handle q n => do
    let e ← s.callees[q]?
    let d ← e.requests[n]?
    let server ← serve (cfg.rpc q) e.server (.handle n)
    return s.setCallee q { e with
      server := server
      requests := e.requests.eraseIdx n
      runs := e.runs ++ [d] }
  | .event q j a => do
    let e ← s.callees[q]?
    let d ← e.runs[j]?
    let h ← e.server.handlers[j]?
    let event ← d.event cfg h.pc a
    let server ← serve (cfg.rpc q) e.server (.event j event)
    let h' ← server.handlers[j]?
    return s.setCallee q { e with server := server, runs := e.runs.set j (d.note event h'.pc) }
  | .reply q j => do
    let e ← s.callees[q]?
    let d ← e.runs[j]?
    let reply ← d.reply
    let body ← (cfg.serialize reply.payload).toOption
    if d.sent = false then
      return (s.setCallee q { e with runs := e.runs.set j { d with sent := true } }).toResults cfg
        (some reply.routingKey) ⟨reply.correlationId, some reply.type.value, body⟩
    else none
  | .settle q j => do
    let e ← s.callees[q]?
    let d ← e.runs[j]?
    let h ← e.server.handlers[j]?
    if d.unacked = true then
      match h.settlements with
      | [.ack false] =>
        return s.setCallee q { e with runs := e.runs.set j { d with unacked := false } }
      | [.reject false] =>
        return (s.setCallee q { e with runs := e.runs.set j { d with unacked := false } }).toResults
          cfg d.packet.sender d.packet.message
      | _ => none
    else none
  | .expire queue n => do
    let ks ← s.queues.get? queue
    let k ← ks[n]?
    if k.expiration.isSome = true then
      return System.toResults cfg { s with queues := s.queues.set queue (ks.eraseIdx n) }
        k.sender k.message
    else none
  | .declareQueue queue =>
    if (s.queues.get? queue).isSome = true then some s
    else some { s with queues := s.queues.set queue [] }
  | .bind exchange queue => some { s with bindings := (exchange, queue) :: s.bindings }
  | .deleteQueue queue =>
    some { s with
      queues := s.queues.pop queue
      bindings := s.bindings.filter fun b => b.2 ≠ queue }

inductive Move (s : System B V) : NetworkAction V → System B V → Prop
  | call {p : ℕ} {id method : String} {kwargs : V} {mode : ℕ} {expiration : Option ℕ} {body : B}
      {c : Caller B V} {rpc : State String B V} (hp : s.callers[p]? = some c)
      (hr : Rpc.step cfg.codec c.rpc (.call id) = some rpc) (hb : cfg.serialize kwargs = .ok body) :
      Move s (.call p id method kwargs mode expiration)
        (s.setCaller p { c with
          rpc := rpc
          calls := c.calls ++ [⟨c.rpc.made.length, cfg.packet p id body mode expiration,
            (cfg.rpc p).formatRoutingKey method, .publishing⟩] })
  | unserializable {p : ℕ} {id method : String} {kwargs : V} {mode : ℕ} {expiration : Option ℕ}
      {c : Caller B V} {rpc : State String B V} (hp : s.callers[p]? = some c)
      (hr : Rpc.step cfg.codec c.rpc (.call id) = some rpc) :
      Move s (.call p id method kwargs mode expiration) (s.setCaller p { c with rpc := rpc })
  | queued {p n : ℕ} {c : Caller B V} {call : Call B} {ks : List (Packet B)}
      (hp : s.callers[p]? = some c) (hn : c.calls[n]? = some call) (hs : call.stage = .publishing)
      (hq : s.queues.get? call.routingKey = some ks) :
      Move s (.route p n)
        { s.setCaller p { c with calls := c.calls.set n { call with stage := .queued } } with
          queues := s.queues.set call.routingKey (ks ++ [call.packet]) }
  | unroutable {p n : ℕ} {c : Caller B V} {call : Call B}
      (hp : s.callers[p]? = some c) (hn : c.calls[n]? = some call) (hs : call.stage = .publishing)
      (ht : ¬ s.Takes (cfg.rpc p).exchange call.routingKey) :
      Move s (.route p n) (s.setCaller p { c with
        calls := c.calls.set n { call with stage := .returned }
        returns := c.returns ++ [call.packet] })
  | publishRaised {p n : ℕ} {c : Caller B V} {call : Call B}
      (hp : s.callers[p]? = some c) (hn : c.calls[n]? = some call)
      (hs : call.stage = .publishing) :
      Move s (.publishRaised p n)
        (s.setCaller p { c with calls := c.calls.set n { call with stage := .failed } })
  | messageReturned {p n : ℕ} {c : Caller B V} {k : Packet B} {rpc : State String B V}
      (hp : s.callers[p]? = some c) (hn : c.returns[n]? = some k)
      (hr : Rpc.step cfg.codec c.rpc (.messageReturned k.message) = some rpc) :
      Move s (.messageReturned p n)
        (s.setCaller p { c with rpc := rpc, returns := c.returns.eraseIdx n })
  | resultMessage {p n : ℕ} {c : Caller B V} {m : Message String B} {rpc : State String B V}
      (hp : s.callers[p]? = some c) (hn : c.results[n]? = some m)
      (hr : Rpc.step cfg.codec c.rpc (.resultMessage m) = some rpc) :
      Move s (.resultMessage p n)
        (s.setCaller p { c with rpc := rpc, results := c.results.eraseIdx n })
  /-- No message comes, and no future is made. -/
  | future {p : ℕ} {a : NetworkAction V} {b : Action String B V} {c : Caller B V}
      {rpc : State String B V} (hp : s.callers[p]? = some c)
      (hr : Rpc.step cfg.codec c.rpc b = some rpc)
      (hb : (∃ j, a = .deserialized p j ∧ b = .deserialized j) ∨
        (∃ j, a = .interrupted p j ∧ b = .interrupted j) ∨
        (∃ i, a = .cancelled p i ∧ b = .cancelled i) ∨ ∃ i, a = .removed p i ∧ b = .removed i) :
      Move s a (s.setCaller p { c with rpc := rpc })
  | onClose {p : ℕ} {exc : Option V} {c : Caller B V} {rpc : State String B V}
      (hp : s.callers[p]? = some c)
      (hr : Rpc.step cfg.codec c.rpc (.onClose exc) = some rpc) :
      Move s (.onClose p exc) (s.setCaller p { c with rpc := rpc, down := false })
  | lost {p : ℕ} {c : Caller B V} {e : Callee B V} (hp : s.callers[p]? = some c)
      (hq : s.callees[p]? = some e) :
      Move s (.lost p) { s with
        callers := s.callers.set p c.lose
        callees := s.callees.set p e.forget
        queues := e.outstanding.foldl requeue s.queues
        redelivered := s.redelivered ++ returning s.queues e.outstanding }
  | register {q : ℕ} {a : ServerAction V} {e : Callee B V} {server : Server V}
      (hq : s.callees[q]? = some e) (hs : serve (cfg.rpc q) e.server a = some server)
      (ha : Registers a = true) :
      Move s (.register q a) (s.setCallee q { e with server := server })
  | deliver {q consumer n : ℕ} {e : Callee B V} {member : Consumer} {ks : List (Packet B)}
      {k : Packet B} {server : Server V} (hq : s.callees[q]? = some e)
      (hc : e.server.consumers[consumer]? = some member)
      (hk : s.queues.get? ((cfg.rpc q).formatRoutingKey member.method) = some ks)
      (hn : ks[n]? = some k)
      (hs : serve (cfg.rpc q) e.server (.deliver consumer k.request) = some server) :
      Move s (.deliver q consumer n)
        { s.setCallee q { e with
            server := server
            requests := e.requests ++ [⟨k, (cfg.rpc q).formatRoutingKey member.method, true,
              none, none, none, false⟩] } with
          queues := s.queues.set ((cfg.rpc q).formatRoutingKey member.method) (ks.eraseIdx n) }
  | handle {q n : ℕ} {e : Callee B V} {d : Delivery B V} {server : Server V}
      (hq : s.callees[q]? = some e) (hd : e.requests[n]? = some d)
      (hs : serve (cfg.rpc q) e.server (.handle n) = some server) :
      Move s (.handle q n) (s.setCallee q { e with
        server := server
        requests := e.requests.eraseIdx n
        runs := e.runs ++ [d] })
  | event {q j : ℕ} {a : Await V} {e : Callee B V} {d : Delivery B V} {h h' : CallHandler V}
      {event : HandlerEvent V} {server : Server V} (hq : s.callees[q]? = some e)
      (hd : e.runs[j]? = some d) (hj : e.server.handlers[j]? = some h)
      (he : d.event cfg h.pc a = some event)
      (hs : serve (cfg.rpc q) e.server (.event j event) = some server)
      (hj' : server.handlers[j]? = some h') :
      Move s (.event q j a) (s.setCallee q { e with
        server := server
        runs := e.runs.set j (d.note event h'.pc) })
  | reply {q j : ℕ} {e : Callee B V} {d : Delivery B V} {reply : Reply V} {body : B}
      (hq : s.callees[q]? = some e) (hd : e.runs[j]? = some d) (hr : d.reply = some reply)
      (hb : cfg.serialize reply.payload = .ok body) (hs : d.sent = false) :
      Move s (.reply q j)
        ((s.setCallee q { e with runs := e.runs.set j { d with sent := true } }).toResults cfg
          (some reply.routingKey) ⟨reply.correlationId, some reply.type.value, body⟩)
  | acked {q j : ℕ} {e : Callee B V} {d : Delivery B V} {h : CallHandler V}
      (hq : s.callees[q]? = some e) (hd : e.runs[j]? = some d)
      (hj : e.server.handlers[j]? = some h) (hu : d.unacked = true)
      (hf : h.settlements = [.ack false]) :
      Move s (.settle q j)
        (s.setCallee q { e with runs := e.runs.set j { d with unacked := false } })
  | rejected {q j : ℕ} {e : Callee B V} {d : Delivery B V} {h : CallHandler V}
      (hq : s.callees[q]? = some e) (hd : e.runs[j]? = some d)
      (hj : e.server.handlers[j]? = some h) (hu : d.unacked = true)
      (hf : h.settlements = [.reject false]) :
      Move s (.settle q j)
        ((s.setCallee q { e with runs := e.runs.set j { d with unacked := false } }).toResults cfg
          d.packet.sender d.packet.message)
  | expire {queue : String} {n : ℕ} {ks : List (Packet B)} {k : Packet B}
      (hk : s.queues.get? queue = some ks) (hn : ks[n]? = some k)
      (he : k.expiration.isSome = true) :
      Move s (.expire queue n)
        (System.toResults cfg { s with queues := s.queues.set queue (ks.eraseIdx n) }
          k.sender k.message)
  | declared {queue : String} (hq : (s.queues.get? queue).isSome = true) :
      Move s (.declareQueue queue) s
  | declareQueue {queue : String} (hq : s.queues.get? queue = none) :
      Move s (.declareQueue queue) { s with queues := s.queues.set queue [] }
  | bind {exchange queue : String} :
      Move s (.bind exchange queue) { s with bindings := (exchange, queue) :: s.bindings }
  | deleteQueue {queue : String} :
      Move s (.deleteQueue queue) { s with
        queues := s.queues.pop queue
        bindings := s.bindings.filter fun b => b.2 ≠ queue }

variable {cfg} {s t : System B V} {a : NetworkAction V}

theorem owner_eq_some_iff {n p : ℕ} {queue : Option String} :
    cfg.owner n queue = some p ↔ p < n ∧ queue = some (cfg.resultQueue p) := by
  unfold Config.owner
  constructor
  · intro h
    have hq : some (cfg.resultQueue p) = queue := by simpa using List.find?_some h
    exact ⟨List.mem_range.mp (List.mem_of_find?_eq_some h), hq.symm⟩
  · rintro ⟨hp, rfl⟩
    have hsome : ((List.range n).find? fun i =>
        decide (some (cfg.resultQueue i) = some (cfg.resultQueue p))).isSome = true := by
      rw [List.find?_isSome]
      exact ⟨p, List.mem_range.mpr hp, by simp⟩
    obtain ⟨i, hi⟩ := Option.isSome_iff_exists.mp hsome
    have hq : cfg.resultQueue i = cfg.resultQueue p := by simpa using List.find?_some hi
    rw [hi, cfg.distinct hq]

theorem toResults_cases (queue : Option String) (m : Message String B) :
    s.toResults cfg queue m = s ∨
    ∃ p c, s.callers[p]? = some c ∧ queue = some (cfg.resultQueue p) ∧
      s.toResults cfg queue m = s.setCaller p { c with results := c.results ++ [m] } := by
  unfold System.toResults
  split
  · rename_i p hp
    split
    · rename_i c hc
      exact Or.inr ⟨p, c, hc, (owner_eq_some_iff.mp hp).2, rfl⟩
    · exact Or.inl rfl
  · exact Or.inl rfl

theorem toResults_eq {p : ℕ} {c : Caller B V} (hp : s.callers[p]? = some c)
    (m : Message String B) : s.toResults cfg (some (cfg.resultQueue p)) m =
      s.setCaller p { c with results := c.results ++ [m] } := by
  have hlt : p < s.callers.length := (List.getElem?_eq_some_iff.mp hp).1
  have howner : cfg.owner s.callers.length (some (cfg.resultQueue p)) = some p :=
    owner_eq_some_iff.mpr ⟨hlt, rfl⟩
  unfold System.toResults
  rw [howner]
  simp only [hp]

theorem future_cases {p : ℕ} {b : Action String B V} (h : s.future cfg p b = some t) :
    ∃ c rpc, s.callers[p]? = some c ∧ Rpc.step cfg.codec c.rpc b = some rpc ∧
      s.setCaller p { c with rpc := rpc } = t := by
  simp only [System.future, Option.bind_eq_bind, Option.bind_eq_some_iff, Option.pure_def,
    Option.some.injEq] at h
  obtain ⟨c, hp, rpc, hr, rfl⟩ := h
  exact ⟨c, rpc, hp, hr, rfl⟩

theorem step_cases (h : step cfg s a = some t) : Move cfg s a t := by
  cases a with
  | call p id method kwargs mode expiration =>
    simp only [step, Option.bind_eq_bind, Option.bind_eq_some_iff, Option.pure_def] at h
    obtain ⟨c, hp, rpc, hr, h⟩ := h
    split at h
    · rename_i body hb
      obtain rfl := Option.some.inj h
      exact .call hp hr hb
    · obtain rfl := Option.some.inj h
      exact .unserializable hp hr
  | route p n =>
    simp only [step, Option.bind_eq_bind, Option.bind_eq_some_iff] at h
    obtain ⟨c, hp, call, hn, h⟩ := h
    split at h
    · rename_i hs
      obtain rfl := Option.some.inj h
      unfold route
      split
      · rename_i ks hq
        split
        · exact .queued hp hn hs hq
        · rename_i ht
          exact .unroutable hp hn hs ht
      · rename_i hq
        refine .unroutable hp hn hs fun ht => ?_
        simp [System.Takes, hq] at ht
    · cases h
  | publishRaised p n =>
    simp only [step, Option.bind_eq_bind, Option.bind_eq_some_iff, Option.pure_def] at h
    obtain ⟨c, hp, call, hn, h⟩ := h
    split at h
    · rename_i hs
      obtain rfl := Option.some.inj h
      exact .publishRaised hp hn hs
    · cases h
  | messageReturned p n =>
    simp only [step, Option.bind_eq_bind, Option.bind_eq_some_iff, Option.pure_def,
      Option.some.injEq] at h
    obtain ⟨c, hp, k, hn, rpc, hr, rfl⟩ := h
    exact .messageReturned hp hn hr
  | resultMessage p n =>
    simp only [step, Option.bind_eq_bind, Option.bind_eq_some_iff, Option.pure_def,
      Option.some.injEq] at h
    obtain ⟨c, hp, m, hn, rpc, hr, rfl⟩ := h
    exact .resultMessage hp hn hr
  | deserialized p j =>
    obtain ⟨c, rpc, hp, hr, rfl⟩ := future_cases h
    exact .future hp hr (.inl ⟨j, rfl, rfl⟩)
  | interrupted p j =>
    obtain ⟨c, rpc, hp, hr, rfl⟩ := future_cases h
    exact .future hp hr (.inr (.inl ⟨j, rfl, rfl⟩))
  | cancelled p i =>
    obtain ⟨c, rpc, hp, hr, rfl⟩ := future_cases h
    exact .future hp hr (.inr (.inr (.inl ⟨i, rfl, rfl⟩)))
  | removed p i =>
    obtain ⟨c, rpc, hp, hr, rfl⟩ := future_cases h
    exact .future hp hr (.inr (.inr (.inr ⟨i, rfl, rfl⟩)))
  | onClose p exc =>
    simp only [step, Option.bind_eq_bind, Option.bind_eq_some_iff, Option.pure_def,
      Option.some.injEq] at h
    obtain ⟨c, hp, rpc, hr, rfl⟩ := h
    exact .onClose hp hr
  | lost p =>
    simp only [step, Option.bind_eq_bind, Option.bind_eq_some_iff, Option.pure_def,
      Option.some.injEq] at h
    obtain ⟨c, hp, e, hq, rfl⟩ := h
    exact .lost hp hq
  | register q a =>
    simp only [step, Option.bind_eq_bind, Option.bind_eq_some_iff, Option.pure_def] at h
    obtain ⟨e, hq, server, hs, h⟩ := h
    split at h
    · rename_i ha
      obtain rfl := Option.some.inj h
      exact .register hq hs ha
    · cases h
  | deliver q consumer n =>
    simp only [step, Option.bind_eq_bind, Option.bind_eq_some_iff, Option.pure_def,
      Option.some.injEq] at h
    obtain ⟨e, hq, member, hc, ks, hk, k, hn, server, hs, rfl⟩ := h
    exact .deliver hq hc hk hn hs
  | handle q n =>
    simp only [step, Option.bind_eq_bind, Option.bind_eq_some_iff, Option.pure_def,
      Option.some.injEq] at h
    obtain ⟨e, hq, d, hd, server, hs, rfl⟩ := h
    exact .handle hq hd hs
  | event q j a =>
    simp only [step, Option.bind_eq_bind, Option.bind_eq_some_iff, Option.pure_def,
      Option.some.injEq] at h
    obtain ⟨e, hq, d, hd, h, hj, event, he, server, hs, h', hj', rfl⟩ := h
    exact .event hq hd hj he hs hj'
  | reply q j =>
    simp only [step, Option.bind_eq_bind, Option.bind_eq_some_iff, Option.pure_def] at h
    obtain ⟨e, hq, d, hd, reply, hr, body, hb, h⟩ := h
    split at h
    · rename_i hs
      obtain rfl := Option.some.inj h
      refine .reply hq hd hr ?_ hs
      cases hv : cfg.serialize reply.payload with
      | ok body' => simpa [hv, Except.toOption] using hb
      | error e => simp [hv, Except.toOption] at hb
    · cases h
  | settle q j =>
    simp only [step, Option.bind_eq_bind, Option.bind_eq_some_iff, Option.pure_def] at h
    obtain ⟨e, hq, d, hd, x, hj, h⟩ := h
    split at h
    · rename_i hu
      split at h
      · rename_i hf
        obtain rfl := Option.some.inj h
        exact .acked hq hd hj hu hf
      · rename_i hf
        obtain rfl := Option.some.inj h
        exact .rejected hq hd hj hu hf
      · cases h
    · cases h
  | expire queue n =>
    simp only [step, Option.bind_eq_bind, Option.bind_eq_some_iff, Option.pure_def] at h
    obtain ⟨ks, hk, k, hn, h⟩ := h
    split at h
    · rename_i he
      obtain rfl := Option.some.inj h
      exact .expire hk hn he
    · cases h
  | declareQueue queue =>
    simp only [step] at h
    split at h
    · rename_i hq
      obtain rfl := Option.some.inj h
      exact .declared hq
    · rename_i hq
      obtain rfl := Option.some.inj h
      exact .declareQueue (Option.not_isSome_iff_eq_none.mp hq)
  | bind exchange queue =>
    obtain rfl := Option.some.inj h
    exact .bind
  | deleteQueue queue =>
    obtain rfl := Option.some.inj h
    exact .deleteQueue

end AioPika.Rpc.Network
