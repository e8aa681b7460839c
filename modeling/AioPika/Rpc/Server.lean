import AioPika.Message.Settlement
import AioPika.Rpc.Client

/-! # Serving calls

`register` starts a consumer whose messages `on_call_message` answers: it looks up
the function of the method, executes it, publishes the reply and settles the
message. The method is listed in `routes` when the consumer has been started, and
taken out when it has been cancelled.
-/

namespace AioPika.Rpc

/-- What `on_call_message` reads of a message. -/
structure Request where
  replyTo : Option String
  correlationId : Option String
  deliveryMode : ℕ
  deriving DecidableEq, Repr

/-- `if not message.reply_to` does not hold. -/
def Request.Answered (r : Request) : Prop := r.replyTo.getD "" ≠ ""

instance : DecidablePred Request.Answered := fun r =>
  inferInstanceAs (Decidable (r.replyTo.getD "" ≠ ""))

structure Reply (V : Type*) where
  routingKey : String
  correlationId : Option String
  deliveryMode : ℕ
  type : RPCMessageType
  payload : V
  deriving DecidableEq, Repr

/-- Where a run of `on_call_message` is. -/
inductive HandlerPc (V : Type*) where
  | deserializing
  | executing (func : ℕ) (payload : V)
  | serializing (result : V) (type : RPCMessageType)
  /-- The result could not be serialised. -/
  | serializingError (exc : V)
  | publishing (reply : Reply V)
  /-- `await message.ack()` or `await message.reject(requeue=False)` -/
  | settling
  | returned
  | raised
  deriving DecidableEq, Repr

/-- A run of `on_call_message`. -/
structure CallHandler (V : Type*) where
  routingKey : String
  request : Request
  pc : HandlerPc V
  /-- How the message was settled. -/
  settlements : List Message.Frame
  /-- The replies that were published. -/
  replies : List (Reply V)
  deriving DecidableEq, Repr

/-- How an await of `on_call_message` ends. -/
inductive HandlerEvent (V : Type*) where
  | deserialized (result : Except V V)
  | executed (result : Except V V)
  /-- `serialize_message` returns, or raises. -/
  | serialized (exc : Option V)
  | published (ok : Bool)
  | settled
  /-- The await is cancelled, or the settlement raises. -/
  | interrupted

/-- The `RPC` instance, with the exceptions it makes. -/
structure RPC (V : Type*) where
  /-- The name of `rpc_exchange`. -/
  exchange : Option String
  serializeException : V → V
  /-- `KeyError(routing_key)` -/
  keyError : String → V

/-- `_format_routing_key` -/
def RPC.formatRoutingKey {V : Type*} (rpc : RPC V) (method : String) : String :=
  match rpc.exchange with
  | some exchange => exchange ++ "::" ++ method
  | none => method

variable {V : Type*} (rpc : RPC V)

namespace CallHandler

variable (h : CallHandler V)

def settle (frame : Message.Frame) : CallHandler V :=
  { h with pc := .settling, settlements := h.settlements ++ [frame] }

def answer (result : V) (type : RPCMessageType) : CallHandler V :=
  if h.request.Answered then { h with pc := .serializing result type }
  else h.settle (.ack false)

def publish (payload : V) (type : RPCMessageType) : CallHandler V :=
  { h with pc := .publishing ⟨h.request.replyTo.getD "", h.request.correlationId,
      h.request.deliveryMode, type, payload⟩ }

/-- `on_call_message`, from one await to the next. -/
def next (routes : Dict String ℕ) : HandlerPc V → HandlerEvent V → Option (CallHandler V)
  | .deserializing, .deserialized (.ok payload) =>
    match routes.get? h.routingKey with
    | some func => some { h with pc := .executing func payload }
    | none => some (h.answer (rpc.serializeException (rpc.keyError h.routingKey)) .error)
  | .deserializing, .deserialized (.error e) => some (h.answer (rpc.serializeException e) .error)
  | .executing _ _, .executed (.ok result) => some (h.answer result .result)
  | .executing _ _, .executed (.error e) => some (h.answer (rpc.serializeException e) .error)
  | .serializing result type, .serialized none => some (h.publish result type)
  | .serializing _ _, .serialized (some e) => some { h with pc := .serializingError e }
  | .serializingError e, .serialized none => some (h.publish e .error)
  | .serializingError _, .serialized (some _) => some { h with pc := .raised }
  | .publishing reply, .published true =>
    some (settle { h with replies := h.replies ++ [reply] } (.ack false))
  | .publishing _, .published false => some (h.settle (.reject false))
  | .settling, .settled => some { h with pc := .returned }
  | .returned, _ | .raised, _ => none
  | _, .interrupted => some { h with pc := .raised }
  | _, _ => none

end CallHandler

/-- Where a call of `register` is; the queue has the name that the broker has given it. -/
inductive RegisterPc where
  | declaring
  | binding (queue : String)
  /-- `await queue.consume(...)`; the consumer is there when the broker has confirmed it. -/
  | consuming (queue : String) (consumer : Option ℕ)
  | registered
  | raised
  deriving DecidableEq, Repr

structure Register where
  method : String
  func : ℕ
  pc : RegisterPc
  deriving DecidableEq, Repr

/-- A call of `unregister` that awaits `queue.cancel(consumer_tag)`, or is over. -/
structure Unregister where
  consumer : ℕ
  queue : String
  finished : Bool
  deriving DecidableEq, Repr

/-- A consumer at the broker, started to register `func`; its callback is
`partial(self.on_call_message, method)`. -/
structure Consumer where
  method : String
  func : ℕ
  live : Bool
  deriving DecidableEq, Repr

structure Server (V : Type*) where
  /-- `routes` -/
  routes : Dict String ℕ
  /-- `consumer_tags` -/
  consumerTags : Dict ℕ ℕ
  /-- `queues`: the names of the queues -/
  queues : Dict ℕ String
  consumers : List Consumer
  registers : List Register
  unregisters : List Unregister
  /-- The messages whose `on_call_message` has not run yet. -/
  inFlight : List (String × Request)
  handlers : List (CallHandler V)

inductive ServerAction (V : Type*) where
  | register (method : String) (func : ℕ)
  /-- The queue is declared under its routing key; for the empty one the broker makes a name. -/
  | declared (call : ℕ) (queue : String)
  | bound (call : ℕ)
  /-- The broker confirms the consume. -/
  | consumeOk (call : ℕ)
  /-- `register` sees the confirmation. -/
  | registered (call : ℕ)
  /-- An await of `register` raises. -/
  | registerRaised (call : ℕ)
  | unregister (func : ℕ)
  /-- The broker confirms the cancel. -/
  | cancelOk (call : ℕ)
  /-- `unregister` sees the confirmation. -/
  | unregistered (call : ℕ)
  /-- The await of `unregister` raises. -/
  | unregisterRaised (call : ℕ)
  | deliver (consumer : ℕ) (request : Request)
  /-- `on_call_message` runs for a message in flight. -/
  | handle (message : ℕ)
  | event (handler : ℕ) (event : HandlerEvent V)

/-- `__init__` -/
def Server.fresh : Server V := ⟨Dict.empty, Dict.empty, Dict.empty, [], [], [], [], []⟩

namespace Server

variable (s : Server V)

def setRegister (i : ℕ) (r : Register) (pc : RegisterPc) : Server V :=
  { s with registers := s.registers.set i { r with pc := pc } }

def Taken (r : Register) : Prop :=
  (s.consumerTags.get? r.func).isSome = true ∨
    (s.routes.get? (rpc.formatRoutingKey r.method)).isSome = true

instance (r : Register) : Decidable (s.Taken rpc r) :=
  inferInstanceAs (Decidable ((s.consumerTags.get? r.func).isSome = true ∨
    (s.routes.get? (rpc.formatRoutingKey r.method)).isSome = true))

/-- `register`, after the queue is there. -/
def consume (i : ℕ) (r : Register) (queue : String) : Server V :=
  if s.Taken rpc r then s.setRegister i r .raised
  else s.setRegister i r (.consuming queue none)

/-- `on_call_message`, up to its first await. -/
def handle (method : String) (request : Request) : CallHandler V :=
  if (s.routes.get? (rpc.formatRoutingKey method)).isSome = true then
    ⟨rpc.formatRoutingKey method, request, .deserializing, [], []⟩
  else ⟨rpc.formatRoutingKey method, request, .returned, [], []⟩

end Server

def serve (s : Server V) : ServerAction V → Option (Server V)
  | .register method func =>
    some { s with registers := s.registers ++ [⟨method, func, .declaring⟩] }
  | .declared i queue =>
    match s.registers[i]? with
    | some ⟨method, func, .declaring⟩ =>
      if rpc.formatRoutingKey method ≠ "" → queue = rpc.formatRoutingKey method then
        match rpc.exchange with
        | some _ => some (s.setRegister i ⟨method, func, .declaring⟩ (.binding queue))
        | none => some (s.consume rpc i ⟨method, func, .declaring⟩ queue)
      else none
    | _ => none
  | .bound i =>
    match s.registers[i]? with
    | some ⟨method, func, .binding queue⟩ =>
      some (s.consume rpc i ⟨method, func, .binding queue⟩ queue)
    | _ => none
  | .consumeOk i =>
    match s.registers[i]? with
    | some ⟨method, func, .consuming queue none⟩ =>
      some (Server.setRegister { s with consumers := s.consumers ++ [⟨method, func, true⟩] } i
        ⟨method, func, .consuming queue none⟩ (.consuming queue (some s.consumers.length)))
    | _ => none
  | .registered i =>
    match s.registers[i]? with
    | some ⟨method, func, .consuming queue (some consumer)⟩ =>
      some (Server.setRegister { s with
        consumerTags := s.consumerTags.set func consumer
        routes := s.routes.set (rpc.formatRoutingKey method) func
        queues := s.queues.set func queue } i
        ⟨method, func, .consuming queue (some consumer)⟩ .registered)
    | _ => none
  | .registerRaised i =>
    match s.registers[i]? with
    | some ⟨_, _, .registered⟩ | some ⟨_, _, .raised⟩ | none => none
    | some r => some (s.setRegister i r .raised)
  | .unregister func =>
    match s.consumerTags.get? func with
    | none => none
    | some consumer =>
      match s.queues.get? func with
      -- `KeyError`
      | none => some { s with consumerTags := s.consumerTags.pop func }
      | some queue =>
        some { s with
          consumerTags := s.consumerTags.pop func
          queues := s.queues.pop func
          unregisters := s.unregisters ++ [⟨consumer, queue, false⟩] }
  | .cancelOk i =>
    match s.unregisters[i]? with
    | some ⟨consumer, _, false⟩ =>
      some { s with consumers := s.consumers.modify consumer fun c => { c with live := false } }
    | _ => none
  | .unregistered i =>
    match s.unregisters[i]? with
    | some ⟨consumer, queue, false⟩ =>
      if (s.consumers[consumer]?.map Consumer.live).getD false = true then none
      else some { s with
        routes := s.routes.pop queue
        unregisters := s.unregisters.set i ⟨consumer, queue, true⟩ }
    | _ => none
  | .unregisterRaised i =>
    match s.unregisters[i]? with
    | some ⟨consumer, queue, false⟩ =>
      some { s with unregisters := s.unregisters.set i ⟨consumer, queue, true⟩ }
    | _ => none
  | .deliver consumer request =>
    match s.consumers[consumer]? with
    | some ⟨method, _, true⟩ => some { s with inFlight := s.inFlight ++ [(method, request)] }
    | _ => none
  | .handle n =>
    match s.inFlight[n]? with
    | some (method, request) =>
      some { s with
        inFlight := s.inFlight.eraseIdx n
        handlers := s.handlers ++ [s.handle rpc method request] }
    | none => none
  | .event j e =>
    match s.handlers[j]? with
    | some h => (h.next rpc s.routes h.pc e).map fun h' =>
        { s with handlers := s.handlers.set j h' }
    | none => none

inductive Serve (s : Server V) : ServerAction V → Server V → Prop
  | register {method : String} {func : ℕ} :
      Serve s (.register method func)
        { s with registers := s.registers ++ [⟨method, func, .declaring⟩] }
  /-- The queue is bound to the exchange of the instance. -/
  | binding {i func : ℕ} {method queue : String}
      (hi : s.registers[i]? = some ⟨method, func, .declaring⟩)
      (hq : rpc.formatRoutingKey method ≠ "" → queue = rpc.formatRoutingKey method)
      (hx : rpc.exchange ≠ none) :
      Serve s (.declared i queue) (s.setRegister i ⟨method, func, .declaring⟩ (.binding queue))
  | declared {i func : ℕ} {method queue : String}
      (hi : s.registers[i]? = some ⟨method, func, .declaring⟩)
      (hq : rpc.formatRoutingKey method ≠ "" → queue = rpc.formatRoutingKey method)
      (hx : rpc.exchange = none) :
      Serve s (.declared i queue) (s.consume rpc i ⟨method, func, .declaring⟩ queue)
  | bound {i func : ℕ} {method queue : String}
      (hi : s.registers[i]? = some ⟨method, func, .binding queue⟩) :
      Serve s (.bound i) (s.consume rpc i ⟨method, func, .binding queue⟩ queue)
  | consumeOk {i func : ℕ} {method queue : String}
      (hi : s.registers[i]? = some ⟨method, func, .consuming queue none⟩) :
      Serve s (.consumeOk i)
        (Server.setRegister { s with consumers := s.consumers ++ [⟨method, func, true⟩] } i
          ⟨method, func, .consuming queue none⟩ (.consuming queue (some s.consumers.length)))
  | registered {i func consumer : ℕ} {method queue : String}
      (hi : s.registers[i]? = some ⟨method, func, .consuming queue (some consumer)⟩) :
      Serve s (.registered i)
        (Server.setRegister { s with
          consumerTags := s.consumerTags.set func consumer
          routes := s.routes.set (rpc.formatRoutingKey method) func
          queues := s.queues.set func queue } i
          ⟨method, func, .consuming queue (some consumer)⟩ .registered)
  | registerRaised {i : ℕ} {r : Register} (hi : s.registers[i]? = some r)
      (hp : r.pc ≠ .registered ∧ r.pc ≠ .raised) :
      Serve s (.registerRaised i) (s.setRegister i r .raised)
  | keyError {func consumer : ℕ} (ht : s.consumerTags.get? func = some consumer)
      (hq : s.queues.get? func = none) :
      Serve s (.unregister func) { s with consumerTags := s.consumerTags.pop func }
  | unregister {func consumer : ℕ} {queue : String}
      (ht : s.consumerTags.get? func = some consumer) (hq : s.queues.get? func = some queue) :
      Serve s (.unregister func)
        { s with
          consumerTags := s.consumerTags.pop func
          queues := s.queues.pop func
          unregisters := s.unregisters ++ [⟨consumer, queue, false⟩] }
  | cancelOk {i consumer : ℕ} {queue : String}
      (hi : s.unregisters[i]? = some ⟨consumer, queue, false⟩) :
      Serve s (.cancelOk i)
        { s with consumers := s.consumers.modify consumer fun c => { c with live := false } }
  | unregistered {i consumer : ℕ} {queue : String}
      (hi : s.unregisters[i]? = some ⟨consumer, queue, false⟩)
      (hc : (s.consumers[consumer]?.map Consumer.live).getD false = false) :
      Serve s (.unregistered i)
        { s with
          routes := s.routes.pop queue
          unregisters := s.unregisters.set i ⟨consumer, queue, true⟩ }
  | unregisterRaised {i consumer : ℕ} {queue : String}
      (hi : s.unregisters[i]? = some ⟨consumer, queue, false⟩) :
      Serve s (.unregisterRaised i)
        { s with unregisters := s.unregisters.set i ⟨consumer, queue, true⟩ }
  | deliver {consumer func : ℕ} {method : String} {request : Request}
      (hc : s.consumers[consumer]? = some ⟨method, func, true⟩) :
      Serve s (.deliver consumer request)
        { s with inFlight := s.inFlight ++ [(method, request)] }
  | handle {n : ℕ} {method : String} {request : Request}
      (hn : s.inFlight[n]? = some (method, request)) :
      Serve s (.handle n)
        { s with
          inFlight := s.inFlight.eraseIdx n
          handlers := s.handlers ++ [s.handle rpc method request] }
  | event {j : ℕ} {e : HandlerEvent V} {h h' : CallHandler V} (hj : s.handlers[j]? = some h)
      (hn : h.next rpc s.routes h.pc e = some h') :
      Serve s (.event j e) { s with handlers := s.handlers.set j h' }

variable {rpc} in
theorem serve_cases {s t : Server V} {a : ServerAction V} (h : serve rpc s a = some t) :
    Serve rpc s a t := by
  cases a with
  | register method func =>
    obtain rfl := Option.some.inj h
    exact .register
  | declared i queue =>
    simp only [serve] at h
    split at h
    · rename_i hi
      split at h
      · rename_i hq
        split at h
        · rename_i hx
          obtain rfl := Option.some.inj h
          refine .binding hi hq ?_
          rw [hx]
          exact Option.some_ne_none _
        · rename_i hx
          obtain rfl := Option.some.inj h
          exact .declared hi hq hx
      · cases h
    · cases h
  | bound i =>
    simp only [serve] at h
    split at h
    · rename_i hi
      obtain rfl := Option.some.inj h
      exact .bound hi
    · cases h
  | consumeOk i =>
    simp only [serve] at h
    split at h
    · rename_i hi
      obtain rfl := Option.some.inj h
      exact .consumeOk hi
    · cases h
  | registered i =>
    simp only [serve] at h
    split at h
    · rename_i hi
      obtain rfl := Option.some.inj h
      exact .registered hi
    · cases h
  | registerRaised i =>
    simp only [serve] at h
    split at h
    · cases h
    · cases h
    · cases h
    · rename_i r hregistered hraised hi
      obtain rfl := Option.some.inj h
      refine .registerRaised hi ⟨fun hp => ?_, fun hp => ?_⟩
      · exact hregistered r.method r.func (by rw [← hp])
      · exact hraised r.method r.func (by rw [← hp])
  | unregister func =>
    simp only [serve] at h
    split at h
    · cases h
    · rename_i ht
      split at h
      · rename_i hq
        obtain rfl := Option.some.inj h
        exact .keyError ht hq
      · rename_i hq
        obtain rfl := Option.some.inj h
        exact .unregister ht hq
  | cancelOk i =>
    simp only [serve] at h
    split at h
    · rename_i hi
      obtain rfl := Option.some.inj h
      exact .cancelOk hi
    · cases h
  | unregistered i =>
    simp only [serve] at h
    split at h
    · rename_i hi
      split at h
      · cases h
      · rename_i hc
        obtain rfl := Option.some.inj h
        exact .unregistered hi ((Bool.not_eq_true _).mp hc)
    · cases h
  | unregisterRaised i =>
    simp only [serve] at h
    split at h
    · rename_i hi
      obtain rfl := Option.some.inj h
      exact .unregisterRaised hi
    · cases h
  | deliver consumer request =>
    simp only [serve] at h
    split at h
    · rename_i hc
      obtain rfl := Option.some.inj h
      exact .deliver hc
    · cases h
  | handle n =>
    simp only [serve] at h
    split at h
    · rename_i hn
      obtain rfl := Option.some.inj h
      exact .handle hn
    · cases h
  | event j e =>
    simp only [serve] at h
    split at h
    · rename_i hj
      obtain ⟨h', hn, rfl⟩ := Option.map_eq_some_iff.mp h
      exact .event hj hn
    · cases h

/-- The message was settled once, and it was acked only if it asked for no reply, or the reply was
published. -/
structure CallHandler.Settled (h : CallHandler V) : Prop where
  once : h.settlements.length = 1
  acked : .ack false ∈ h.settlements → ¬ h.request.Answered ∨ h.replies ≠ []

/-- All runs of `on_call_message` that have returned have settled their messages, and those that
await the settlement have sent it when they may. -/
def AllSettled (s : Server V) : Prop :=
  ∀ h ∈ s.handlers, h.pc = .settling ∨ h.pc = .returned → h.Settled

/-- The method of a message is listed when `on_call_message` looks it up. -/
def Routed (s : Server V) : ServerAction V → Prop
  | .handle n => ∀ d ∈ s.inFlight[n]?, (s.routes.get? (rpc.formatRoutingKey d.1)).isSome = true
  | _ => True

/-- What a run owes before it returns. -/
def CallHandler.Owes (h : CallHandler V) : Prop :=
  match h.pc with
  | .settling => h.Settled
  | .returned | .raised => True
  | _ => h.settlements = []

variable {rpc}

theorem CallHandler.Owes.settled {h : CallHandler V} (ho : h.Owes)
    (hr : h.pc = .returned → h.Settled) : h.pc = .settling ∨ h.pc = .returned → h.Settled := by
  rintro (hpc | hpc)
  · unfold CallHandler.Owes at ho
    rw [hpc] at ho
    exact ho
  · exact hr hpc

theorem CallHandler.settle_settled {h : CallHandler V} (hs : h.settlements = [])
    {frame : Message.Frame} (ha : frame = .ack false → ¬ h.request.Answered ∨ h.replies ≠ []) :
    (h.settle frame).Settled := by
  constructor
  · simp [CallHandler.settle, hs]
  · intro hm
    have hm : .ack false ∈ h.settlements ++ [frame] := hm
    rw [hs, List.nil_append, List.mem_singleton] at hm
    exact ha hm.symm

theorem CallHandler.answer_owes {h : CallHandler V} (hs : h.settlements = []) {result : V}
    {type : RPCMessageType} : (h.answer result type).Owes := by
  unfold CallHandler.answer
  split
  · exact hs
  · rename_i hn
    exact settle_settled hs fun _ => Or.inl hn

theorem CallHandler.answer_pc {h : CallHandler V} {result : V} {type : RPCMessageType} :
    (h.answer result type).pc ≠ .returned := by
  unfold CallHandler.answer
  split <;> nofun

theorem CallHandler.answer_spec {h h' : CallHandler V} (hs : h.settlements = []) {result : V}
    {type : RPCMessageType} (hn : some (h.answer result type) = some h') :
    h'.Owes ∧ (h'.pc = .returned → h'.Settled) := by
  obtain rfl := Option.some.inj hn
  exact ⟨answer_owes hs, fun hpc => absurd hpc answer_pc⟩

/-- From await to await a run keeps what it owes, and it returns from its settlement only. -/
theorem CallHandler.next_owes {h h' : CallHandler V} {routes : Dict String ℕ} {e : HandlerEvent V}
    (ho : h.Owes) (hn : h.next rpc routes h.pc e = some h') :
    h'.Owes ∧ (h'.pc = .returned → h'.Settled) := by
  unfold CallHandler.Owes at ho
  cases hpc : h.pc with
  | deserializing =>
    rw [hpc] at ho hn
    cases e with
    | deserialized result =>
      cases result with
      | ok payload =>
        simp only [CallHandler.next] at hn
        split at hn
        · obtain rfl := Option.some.inj hn
          exact ⟨ho, by rintro ⟨⟩⟩
        · exact answer_spec ho hn
      | error exc => exact answer_spec ho hn
    | interrupted =>
      obtain rfl := Option.some.inj hn
      exact ⟨trivial, by rintro ⟨⟩⟩
    | _ => cases hn
  | executing func payload =>
    rw [hpc] at ho hn
    cases e with
    | executed result =>
      cases result with
      | ok result => exact answer_spec ho hn
      | error exc => exact answer_spec ho hn
    | interrupted =>
      obtain rfl := Option.some.inj hn
      exact ⟨trivial, by rintro ⟨⟩⟩
    | _ => cases hn
  | serializing result type =>
    rw [hpc] at ho hn
    cases e with
    | serialized exc =>
      cases exc with
      | none =>
        obtain rfl := Option.some.inj hn
        exact ⟨ho, by rintro ⟨⟩⟩
      | some exc =>
        obtain rfl := Option.some.inj hn
        exact ⟨ho, by rintro ⟨⟩⟩
    | interrupted =>
      obtain rfl := Option.some.inj hn
      exact ⟨trivial, by rintro ⟨⟩⟩
    | _ => cases hn
  | serializingError exc =>
    rw [hpc] at ho hn
    cases e with
    | serialized exc' =>
      cases exc' with
      | none =>
        obtain rfl := Option.some.inj hn
        exact ⟨ho, by rintro ⟨⟩⟩
      | some exc' =>
        obtain rfl := Option.some.inj hn
        exact ⟨trivial, by rintro ⟨⟩⟩
    | interrupted =>
      obtain rfl := Option.some.inj hn
      exact ⟨trivial, by rintro ⟨⟩⟩
    | _ => cases hn
  | publishing reply =>
    rw [hpc] at ho hn
    cases e with
    | published ok =>
      cases ok with
      | true =>
        obtain rfl := Option.some.inj hn
        have hreply : h.replies ++ [reply] ≠ [] :=
          List.append_ne_nil_of_right_ne_nil _ (List.cons_ne_nil _ _)
        have hsettled : (settle { h with replies := h.replies ++ [reply] } (.ack false)).Settled :=
          settle_settled (h := { h with replies := h.replies ++ [reply] }) ho
            fun _ => Or.inr hreply
        exact ⟨hsettled, by rintro ⟨⟩⟩
      | false =>
        obtain rfl := Option.some.inj hn
        have hsettled : (h.settle (.reject false)).Settled := settle_settled ho (by rintro ⟨⟩)
        exact ⟨hsettled, by rintro ⟨⟩⟩
    | interrupted =>
      obtain rfl := Option.some.inj hn
      exact ⟨trivial, by rintro ⟨⟩⟩
    | _ => cases hn
  | settling =>
    rw [hpc] at ho hn
    cases e with
    | settled =>
      obtain rfl := Option.some.inj hn
      exact ⟨trivial, fun _ => ⟨ho.once, ho.acked⟩⟩
    | interrupted =>
      obtain rfl := Option.some.inj hn
      exact ⟨trivial, by rintro ⟨⟩⟩
    | _ => cases hn
  | returned =>
    rw [hpc] at hn
    cases e <;> cases hn
  | raised =>
    rw [hpc] at hn
    cases e <;> cases hn

/-- A run without a route returns at once, and owes the settlement. -/
theorem handle_settled_iff {s : Server V} {method : String} {request : Request} :
    ((s.handle rpc method request).pc = .settling ∨ (s.handle rpc method request).pc = .returned →
      (s.handle rpc method request).Settled) ↔
        (s.routes.get? (rpc.formatRoutingKey method)).isSome = true := by
  unfold Server.handle
  split
  · rename_i hr
    exact iff_of_true (by simp) hr
  · rename_i hr
    refine iff_of_false (fun hn => ?_) hr
    have hone := (hn (Or.inr rfl)).once
    cases hone

theorem handle_owes {s : Server V} {method : String} {request : Request} :
    (s.handle rpc method request).Owes := by
  unfold Server.handle
  split
  · exact rfl
  · trivial

variable {s t : Server V} {a : ServerAction V}

/-- All runs of `on_call_message` keep what they owe. -/
def Owing (s : Server V) : Prop := ∀ h ∈ s.handlers, h.Owes

theorem consume_handlers {i : ℕ} {r : Register} {queue : String} :
    (s.consume rpc i r queue).handlers = s.handlers := by
  unfold Server.consume
  split <;> rfl

theorem handlers_step (hs : serve rpc s a = some t) :
    t.handlers = s.handlers ∧ (∀ n, a ≠ .handle n) ∨
    (∃ n method request, a = .handle n ∧ s.inFlight[n]? = some (method, request) ∧
      t.handlers = s.handlers ++ [s.handle rpc method request]) ∨
    (∃ j e h h', a = .event j e ∧ s.handlers[j]? = some h ∧
      h.next rpc s.routes h.pc e = some h' ∧ t.handlers = s.handlers.set j h') := by
  cases serve_cases hs with
  | handle hn => exact Or.inr (Or.inl ⟨_, _, _, rfl, hn, rfl⟩)
  | event hj hn => exact Or.inr (Or.inr ⟨_, _, _, _, rfl, hj, hn, rfl⟩)
  | declared | bound => exact Or.inl ⟨consume_handlers, fun _ => by rintro ⟨⟩⟩
  | _ => exact Or.inl ⟨rfl, fun _ => by rintro ⟨⟩⟩

theorem owing_step (h : Owing s) (hs : serve rpc s a = some t) : Owing t := by
  intro handler hm
  rcases handlers_step hs with ⟨he, -⟩ | ⟨n, method, request, -, -, he⟩ |
    ⟨j, e, g, g', -, hj, hn, he⟩
  · rw [he] at hm
    exact h handler hm
  · rw [he] at hm
    rcases List.mem_append.mp hm with hm | hm
    · exact h handler hm
    · obtain rfl := List.mem_singleton.mp hm
      exact handle_owes
  · rw [he] at hm
    rcases List.mem_or_eq_of_mem_set hm with hm | rfl
    · exact h handler hm
    · exact (CallHandler.next_owes (h g (List.mem_of_getElem? hj)) hn).1

theorem allSettled_step_iff (ho : Owing s) (h : AllSettled s) (hs : serve rpc s a = some t) :
    AllSettled t ↔ Routed rpc s a := by
  rcases handlers_step hs with ⟨he, ha⟩ | ⟨n, method, request, rfl, hn, he⟩ |
    ⟨j, e, g, g', rfl, hj, hnext, he⟩
  · refine iff_of_true (fun handler hm => ?_) ?_
    · rw [he] at hm
      exact h handler hm
    · cases a with
      | handle n => exact absurd rfl (ha n)
      | _ => trivial
  · have hrouted : Routed rpc s (.handle n) ↔
        (s.routes.get? (rpc.formatRoutingKey method)).isSome = true := by
      constructor
      · intro hr
        exact hr (method, request) hn
      · intro hr d hd
        obtain rfl := Option.some.inj (hn.symm.trans hd)
        exact hr
    rw [hrouted, ← handle_settled_iff]
    constructor
    · intro ht
      apply ht
      rw [he]
      exact List.mem_append_right _ (List.mem_singleton_self _)
    · intro hnew handler hm
      rw [he] at hm
      rcases List.mem_append.mp hm with hm | hm
      · exact h handler hm
      · obtain rfl := List.mem_singleton.mp hm
        exact hnew
  · refine iff_of_true (fun handler hm => ?_) trivial
    rw [he] at hm
    rcases List.mem_or_eq_of_mem_set hm with hm | rfl
    · exact h handler hm
    · obtain ⟨howes, hreturned⟩ := CallHandler.next_owes (ho g (List.mem_of_getElem? hj)) hnext
      exact howes.settled hreturned

/-- Every request is settled exactly as long as its method is listed when it is looked up. -/
theorem requests_settled_iff {as : List (ServerAction V)} :
    Transition.Throughout (serve rpc) AllSettled Server.fresh as ↔
      Transition.EachStep (serve rpc) (Routed rpc) Server.fresh as := by
  refine Transition.throughout_iff_eachStep (J := Owing) (fun _ _ _ ho _ hs _ => owing_step ho hs)
    (fun _ _ _ ho h hs => allSettled_step_iff ho h hs) ?_ ?_
  · rintro h hm
    cases hm
  · rintro h hm
    cases hm

/-- An instance without an exchange of its own. -/
def plainRpc : RPC ℕ := ⟨none, id, fun _ => 0⟩

/-- A call comes before `register` has seen that its consumer is there. -/
def earlyCall : List (ServerAction ℕ) :=
  [.register "multiply" 0, .declared 0 "multiply", .consumeOk 0,
    .deliver 0 ⟨some "reply", some "1", 1⟩, .handle 0]

/-- A call that the broker has delivered is looked up after `unregister`. -/
def lateCall : List (ServerAction ℕ) :=
  [.register "multiply" 0, .declared 0 "multiply", .consumeOk 0, .registered 0,
    .deliver 0 ⟨some "reply", some "1", 1⟩, .unregister 0, .cancelOk 0, .unregistered 0, .handle 0]

theorem call_unsettled :
    (∃ s, Transition.Run (serve plainRpc) (fun _ _ => True) Server.fresh earlyCall s ∧
      ¬ AllSettled s) ∧
    ∃ s, Transition.Run (serve plainRpc) (fun _ _ => True) Server.fresh lateCall s ∧
      ¬ AllSettled s := by
  constructor
  · refine ⟨_, Transition.run_of_checked rfl, fun h => ?_⟩
    cases (h _ List.mem_cons_self (Or.inr rfl)).once
  · refine ⟨_, Transition.run_of_checked rfl, fun h => ?_⟩
    cases (h _ List.mem_cons_self (Or.inr rfl)).once

end AioPika.Rpc
