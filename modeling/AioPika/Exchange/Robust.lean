import AioPika.Broker.Session
import AioPika.Foundation.Dict

/-! # Robust exchanges

`Exchange` and `RobustExchange`: declaring, binding to another exchange,
unbinding, deleting, and the replay of `restore()`. On an object that still has
its `channel` attribute, a restore sends the requests of its plan and nothing
else, and leaves the object as it was.
-/

namespace AioPika

/-- What `bind` and `unbind` accept as an exchange: an exchange object, equal only to itself,
or a name. -/
inductive ExchangeParam where
  | object (id : ℕ) (name : Name)
  | name (name : Name)
  deriving DecidableEq, Repr

def getExchangeName : ExchangeParam → Name
  | .object _ name => name
  | .name name => name

/-- The keyword arguments kept for an exchange-to-exchange binding. -/
structure ExchangeBindKwargs (A : Type) where
  routingKey : Name
  arguments : A
  deriving DecidableEq, Repr

structure RobustExchange (A : Type) where
  name : Name
  type : String
  durable : Bool
  autoDelete : Bool
  internal : Bool
  passive : Bool
  arguments : A
  /-- Whether the attribute `channel` exists: `delete()` removes it. -/
  hasChannel : Bool
  /-- `_bindings`: one entry for each source exchange. -/
  bindings : Dict ExchangeParam (ExchangeBindKwargs A)

variable {β A C : Type}

namespace Exchange

/-- `await self.channel.get_underlay_channel()` -/
def getUnderlayChannel : Coro (RobustExchange A) β A C Unit := do
  let x ← getSelf
  unless x.hasChannel do throw (.attributeError x.name)

def declare (B : Broker β A C) : Coro (RobustExchange A) β A C Reply := do
  getUnderlayChannel
  let x ← getSelf
  send B (.exchangeDeclare x.name x.type x.durable x.autoDelete x.internal x.passive x.arguments)

def bind (B : Broker β A C) (exchange : ExchangeParam) (routingKey : Name) (arguments : A) :
    Coro (RobustExchange A) β A C Reply := do
  getUnderlayChannel
  let x ← getSelf
  send B (.exchangeBind x.name (getExchangeName exchange) routingKey arguments)

def unbind (B : Broker β A C) (exchange : ExchangeParam) (routingKey : Name) (arguments : A) :
    Coro (RobustExchange A) β A C Reply := do
  getUnderlayChannel
  let x ← getSelf
  send B (.exchangeUnbind x.name (getExchangeName exchange) routingKey arguments)

def delete (B : Broker β A C) (ifUnused : Bool) : Coro (RobustExchange A) β A C Reply := do
  getUnderlayChannel
  let x ← getSelf
  let result ← send B (.exchangeDelete x.name ifUnused)
  -- `del self.channel`
  modifySelf fun x => { x with hasChannel := false }
  return result

end Exchange

namespace RobustExchange

def bind (B : Broker β A C) (exchange : ExchangeParam) (routingKey : Name) (arguments : A)
    (robust : Bool) : Coro (RobustExchange A) β A C Reply := do
  let result ← Exchange.bind B exchange routingKey arguments
  if robust then
    modifySelf fun x => { x with bindings := x.bindings.set exchange ⟨routingKey, arguments⟩ }
  return result

def unbind (B : Broker β A C) (exchange : ExchangeParam) (routingKey : Name) (arguments : A) :
    Coro (RobustExchange A) β A C Reply := do
  let result ← Exchange.unbind B exchange routingKey arguments
  modifySelf fun x => { x with bindings := x.bindings.pop exchange }
  return result

def restore (B : Broker β A C) : Coro (RobustExchange A) β A C Unit := do
  let x ← getSelf
  -- special case for default exchange
  if x.name = "" then return
  let _ ← Exchange.declare B
  let x ← getSelf
  x.bindings.items.forM fun e => do
    let _ ← bind B e.1 e.2.routingKey e.2.arguments true

def declareRequest (x : RobustExchange A) : Request A C :=
  .exchangeDeclare x.name x.type x.durable x.autoDelete x.internal x.passive x.arguments

def bindRequest (x : RobustExchange A) (e : ExchangeParam × ExchangeBindKwargs A) :
    Request A C :=
  .exchangeBind x.name (getExchangeName e.1) e.2.routingKey e.2.arguments

def restorePlan (x : RobustExchange A) : List (Request A C) :=
  if x.name = "" then [] else x.declareRequest :: x.bindings.items.map x.bindRequest

variable {B : Broker β A C} {s : Session (RobustExchange A) β A C}

theorem getUnderlayChannel_ok (h : s.self.hasChannel = true) :
    Exchange.getUnderlayChannel s = .ok () s := by
  unfold Exchange.getUnderlayChannel
  rw [getSelf_bind]
  simp only [h]
  rfl

theorem getUnderlayChannel_error (h : s.self.hasChannel = false) :
    Exchange.getUnderlayChannel s = .error (.attributeError s.self.name) s := by
  unfold Exchange.getUnderlayChannel
  rw [getSelf_bind]
  simp only [h]
  rfl

theorem underlay_ok {α : Type} {t : Session (RobustExchange A) β A C} {r : α}
    {f : RobustExchange A → Coro (RobustExchange A) β A C α}
    (h : (do Exchange.getUnderlayChannel; let x ← getSelf; f x) s = .ok r t) :
    s.self.hasChannel = true ∧ f s.self s = .ok r t := by
  cases hc : s.self.hasChannel with
  | true =>
    rw [Coroutine.bind_ok (getUnderlayChannel_ok hc), getSelf_bind] at h
    exact ⟨rfl, h⟩
  | false =>
    rw [Coroutine.bind_error (getUnderlayChannel_error hc)] at h
    cases h

theorem declare_run (h : s.self.hasChannel = true) :
    Exchange.declare B s = send B s.self.declareRequest s := by
  unfold Exchange.declare
  rw [Coroutine.bind_ok (getUnderlayChannel_ok h), getSelf_bind]
  rfl

theorem bind_run (h : s.self.hasChannel = true) (p : ExchangeParam) (k : Name) (a : A) :
    Exchange.bind B p k a s = send B (s.self.bindRequest (p, ⟨k, a⟩)) s := by
  unfold Exchange.bind
  rw [Coroutine.bind_ok (getUnderlayChannel_ok h), getSelf_bind]
  rfl

theorem declare_ok {t : Session (RobustExchange A) β A C} {reply : Reply}
    (h : Exchange.declare B s = .ok reply t) :
    t.self = s.self ∧ B.handle s.self.declareRequest s.broker = (.ok reply, t.broker) := by
  obtain ⟨-, hs⟩ := underlay_ok h
  obtain ⟨hself, -, hb⟩ := send_ok (B := B) (r := .exchangeDeclare _ _ _ _ _ _ _) hs
  exact ⟨hself, hb⟩

theorem delete_ok {t : Session (RobustExchange A) β A C} {ifUnused : Bool} {reply : Reply}
    (h : Exchange.delete B ifUnused s = .ok reply t) :
    t.self = { s.self with hasChannel := false } ∧
      B.handle (.exchangeDelete s.self.name ifUnused) s.broker = (.ok reply, t.broker) := by
  obtain ⟨-, hs⟩ := underlay_ok h
  obtain ⟨r, u, hs, hu⟩ := Coroutine.bind_eq_ok hs
  obtain ⟨hself, -, hb⟩ := send_ok (B := B) (r := .exchangeDelete _ _) hs
  cases hu
  exact ⟨by simp only [hself], hb⟩

theorem bind_ok {t : Session (RobustExchange A) β A C} {p : ExchangeParam} {k : Name} {a : A}
    {robust : Bool} {reply : Reply} (h : bind B p k a robust s = .ok reply t) :
    s.self.hasChannel = true ∧
      B.handle (.exchangeBind s.self.name (getExchangeName p) k a) s.broker =
        (.ok reply, t.broker) ∧
      t.sent = s.sent ++ [.exchangeBind s.self.name (getExchangeName p) k a] ∧
      t.self = if robust then { s.self with bindings := s.self.bindings.set p ⟨k, a⟩ }
        else s.self := by
  obtain ⟨r, u, hx, hu⟩ := Coroutine.bind_eq_ok h
  obtain ⟨hc, hs⟩ := underlay_ok hx
  obtain ⟨hself, hsent, hb⟩ := send_ok (B := B) (r := .exchangeBind _ _ _ _) hs
  cases robust with
  | true => cases hu; exact ⟨hc, hb, hsent, by simp only [hself, if_true]⟩
  | false => cases hu; exact ⟨hc, hb, hsent, hself⟩

theorem unbind_ok {t : Session (RobustExchange A) β A C} {p : ExchangeParam} {k : Name} {a : A}
    {reply : Reply} (h : unbind B p k a s = .ok reply t) :
    s.self.hasChannel = true ∧
      B.handle (.exchangeUnbind s.self.name (getExchangeName p) k a) s.broker =
        (.ok reply, t.broker) ∧
      t.sent = s.sent ++ [.exchangeUnbind s.self.name (getExchangeName p) k a] ∧
      t.self = { s.self with bindings := s.self.bindings.pop p } := by
  obtain ⟨r, u, hx, hu⟩ := Coroutine.bind_eq_ok h
  obtain ⟨hc, hs⟩ := underlay_ok hx
  obtain ⟨hself, hsent, hb⟩ := send_ok (B := B) (r := .exchangeUnbind _ _ _ _) hs
  cases hu
  exact ⟨hc, hb, hsent, by simp only [hself]⟩

theorem bind_registered (h : s.self.hasChannel = true) {p : ExchangeParam}
    {v : ExchangeBindKwargs A} (hp : s.self.bindings.get? p = some v) :
    bind B p v.routingKey v.arguments true s = send B (s.self.bindRequest (p, v)) s := by
  unfold bind
  cases hs : send B (s.self.bindRequest (p, v)) s with
  | error e t => exact Coroutine.bind_error ((bind_run h p _ _).trans hs)
  | ok reply t =>
    obtain ⟨hself, -, -⟩ := send_ok hs
    have hset : t.self.bindings.set p ⟨v.routingKey, v.arguments⟩ = t.self.bindings := by
      rw [hself]; exact Dict.set_of_get? hp
    rw [Coroutine.bind_ok ((bind_run h p _ _).trans hs)]
    change EStateM.Result.ok reply
      { t with self := { t.self with bindings := t.self.bindings.set p _ } } = _
    rw [hset]

/-- The loop of a restore binds every entry again as it is registered. -/
theorem bindings_run (h : s.self.hasChannel = true) :
    (s.self.bindings.items.forM fun e => do
      let _ ← bind B e.1 e.2.routingKey e.2.arguments true) s =
      sendAll B (s.self.bindings.items.map s.self.bindRequest) s := by
  apply forM_eq_sendAll
  rintro ⟨p, v⟩ he w hw
  have hb : bind B p v.routingKey v.arguments true w = send B (s.self.bindRequest (p, v)) w := by
    rw [← hw] at he h ⊢
    exact bind_registered h (Dict.mem_items_iff.mp he)
  cases hs : send B (s.self.bindRequest (p, v)) w with
  | ok reply t => exact Or.inl ⟨reply, t, rfl, Coroutine.bind_ok (hb.trans hs)⟩
  | error e t => exact Or.inr ⟨e, t, rfl, Coroutine.bind_error (hb.trans hs)⟩

theorem restore_run (h : s.self.hasChannel = true) :
    restore B s = sendAll B s.self.restorePlan s := by
  unfold restore restorePlan
  rw [getSelf_bind]
  by_cases hn : s.self.name = ""
  · simp only [hn, if_true]; rfl
  · simp only [hn, if_false]
    cases hd : send B s.self.declareRequest s with
    | error e t =>
      rw [sendAll_cons_error hd]
      exact Coroutine.bind_error ((declare_run h).trans hd)
    | ok reply t =>
      obtain ⟨hself, -, -⟩ := send_ok hd
      rw [sendAll_cons_ok hd, Coroutine.bind_ok ((declare_run h).trans hd), getSelf_bind,
        ← hself]
      exact bindings_run (by rw [hself]; exact h)

theorem restore_deleted (hn : s.self.name ≠ "") (h : s.self.hasChannel = false) :
    restore B s = .error (.attributeError s.self.name) s := by
  unfold restore
  rw [getSelf_bind]
  simp only [hn, if_false]
  exact Coroutine.bind_error (Coroutine.bind_error (getUnderlayChannel_error h))

end RobustExchange

end AioPika
