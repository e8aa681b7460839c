import AioPika.Exchange.Robust
import AioPika.Foundation.Registry
import AioPika.Queue.Robust

/-! # The topology of a robust channel

`RobustChannel` registers the exchanges and queues that are declared on it, by
name and weakly. Opening an underlay channel sets the QoS and restores the
registered exchanges, and then the registered queues. On registered objects
that still have their `channel`, this sends the requests of a plan and nothing
else, and leaves the objects as they were.
-/

namespace AioPika

structure RobustChannel (A C : Type) where
  prefetchCount : ℕ
  prefetchSize : ℕ
  /-- `_exchanges` -/
  exchanges : WeakRegistry Name (RobustExchange A)
  /-- `_queues` -/
  queues : WeakRegistry Name (RobustQueue A C)
  /-- How many objects the channel has created. -/
  created : ℕ

variable {β A C : Type}

namespace RobustChannel

def onExchange {α : Type} (i : ℕ) (f : Coro (RobustExchange A) β A C α) :
    Coro (RobustChannel A C) β A C α := do
  let c ← getSelf
  match c.exchanges.objects.get? i with
  | none => throw (.runtimeError "weakly-referenced object no longer exists")
  | some x => zoom x (fun y => { c with exchanges := c.exchanges.put i y }) f

def onQueue {α : Type} (i : ℕ) (f : Coro (RobustQueue A C) β A C α) :
    Coro (RobustChannel A C) β A C α := do
  let c ← getSelf
  match c.queues.objects.get? i with
  | none => throw (.runtimeError "weakly-referenced object no longer exists")
  | some q => zoom q (fun y => { c with queues := c.queues.put i y }) f

def onOpen (B : Broker β A C) (o : SetOrder) : Coro (RobustChannel A C) β A C Unit := do
  let c ← getSelf
  let exchanges := c.exchanges.iter o
  let queues := c.queues.iter o
  let _ ← send B (.basicQos c.prefetchCount c.prefetchSize false)
  exchanges.forM fun i => onExchange i (RobustExchange.restore B)
  queues.forM fun i => onQueue i (RobustQueue.restore B)

/-- `declare_exchange`: the result is the new object. -/
def declareExchange (B : Broker β A C) (name : Name) (type : String)
    (durable autoDelete internal passive : Bool) (arguments : A) (robust : Bool) :
    Coro (RobustChannel A C) β A C ℕ := do
  let c ← getSelf
  let exchange := c.created
  modifySelf fun c =>
    { c with
      exchanges := c.exchanges.put exchange
        ⟨name, type, durable, autoDelete, internal, passive, arguments, true, .empty⟩
      created := exchange + 1 }
  let _ ← onExchange exchange (Exchange.declare B)
  if ¬ internal ∧ robust then
    modifySelf fun c => { c with exchanges := c.exchanges.add name exchange }
  return exchange

def exchangeDelete (B : Broker β A C) (exchangeName : Name) (ifUnused : Bool) :
    Coro (RobustChannel A C) β A C Reply := do
  let result ← send B (.exchangeDelete exchangeName ifUnused)
  modifySelf fun c => { c with exchanges := c.exchanges.pop exchangeName }
  return result

/-- `declare_queue`: the result is the new object, with the name that the broker gave it. -/
def declareQueue (B : Broker β A C) (uuid : String) (name : Option Name)
    (durable exclusive passive autoDelete : Bool) (arguments : A) (robust : Bool) :
    Coro (RobustChannel A C) β A C (ℕ × Name) := do
  let c ← getSelf
  let queue := c.created
  modifySelf fun c =>
    { c with
      queues := c.queues.put queue
        (RobustQueue.new uuid name durable exclusive autoDelete passive arguments)
      created := queue + 1 }
  let queueName ← onQueue queue do
    let _ ← Queue.declare B
    let q ← getSelf
    return q.name
  if robust then
    modifySelf fun c => { c with queues := c.queues.add queueName queue }
  return (queue, queueName)

def queueDelete (B : Broker β A C) (queueName : Name) (ifUnused ifEmpty : Bool) :
    Coro (RobustChannel A C) β A C Reply := do
  let result ← send B (.queueDelete queueName ifUnused ifEmpty)
  modifySelf fun c => { c with queues := c.queues.pop queueName }
  return result

/-- The requests that restore the exchanges, in an order of iteration. -/
def exchangePlan (c : RobustChannel A C) (o : SetOrder) : List (Request A C) :=
  (c.exchanges.iter o).flatMap fun i =>
    (c.exchanges.objects.get? i).elim [] RobustExchange.restorePlan

def queuePlan (c : RobustChannel A C) (o : SetOrder) : List (Request A C) :=
  (c.queues.iter o).flatMap fun i => (c.queues.objects.get? i).elim [] RobustQueue.restorePlan

/-- The requests of `_on_open`. -/
def openPlan (c : RobustChannel A C) (o : SetOrder) : List (Request A C) :=
  .basicQos c.prefetchCount c.prefetchSize false :: (c.exchangePlan o ++ c.queuePlan o)

/-- Every registered object is registered under its name. -/
structure WellKeyed (c : RobustChannel A C) : Prop where
  exchange : ∀ n i x, c.exchanges.Mem n i x → x.name = n ∧ n ≠ ""
  queue : ∀ n i q, c.queues.Mem n i q → q.name = n ∧ n ≠ ""
  exchanges_below : c.exchanges.Below c.created
  queues_below : c.queues.Below c.created

/-- No registered exchange object has been deleted through `Exchange.delete`. -/
def Attached (c : RobustChannel A C) : Prop :=
  ∀ n i x, c.exchanges.Mem n i x → x.hasChannel = true

section Run

variable {s t : Session (RobustChannel A C) β A C} {i : ℕ}

theorem onExchange_some {α : Type} {f : Coro (RobustExchange A) β A C α} {x : RobustExchange A}
    (h : s.self.exchanges.objects.get? i = some x) :
    onExchange i f s =
      zoom x (fun y => { s.self with exchanges := s.self.exchanges.put i y }) f s := by
  unfold onExchange
  rw [getSelf_bind, h]

theorem onQueue_some {α : Type} {f : Coro (RobustQueue A C) β A C α} {q : RobustQueue A C}
    (h : s.self.queues.objects.get? i = some q) :
    onQueue i f s = zoom q (fun y => { s.self with queues := s.self.queues.put i y }) f s := by
  unfold onQueue
  rw [getSelf_bind, h]

theorem onExchange_ok {α : Type} {f : Coro (RobustExchange A) β A C α} {a : α}
    (h : onExchange i f s = .ok a t) :
    ∃ x y, s.self.exchanges.objects.get? i = some x ∧
      f ⟨x, s.broker, s.sent⟩ = .ok a ⟨y, t.broker, t.sent⟩ ∧
      t.self = { s.self with exchanges := s.self.exchanges.put i y } := by
  cases hx : s.self.exchanges.objects.get? i with
  | none =>
    unfold onExchange at h
    rw [getSelf_bind, hx] at h
    cases h
  | some x =>
    rw [onExchange_some hx] at h
    obtain ⟨y, hy, ht⟩ := zoom_ok h
    exact ⟨x, y, rfl, hy, ht⟩

theorem onQueue_ok {α : Type} {f : Coro (RobustQueue A C) β A C α} {a : α}
    (h : onQueue i f s = .ok a t) :
    ∃ q y, s.self.queues.objects.get? i = some q ∧
      f ⟨q, s.broker, s.sent⟩ = .ok a ⟨y, t.broker, t.sent⟩ ∧
      t.self = { s.self with queues := s.self.queues.put i y } := by
  cases hq : s.self.queues.objects.get? i with
  | none =>
    unfold onQueue at h
    rw [getSelf_bind, hq] at h
    cases h
  | some q =>
    rw [onQueue_some hq] at h
    obtain ⟨y, hy, ht⟩ := zoom_ok h
    exact ⟨q, y, rfl, hy, ht⟩

theorem restore_exchange_run {B : Broker β A C} {x : RobustExchange A}
    (hx : s.self.exchanges.objects.get? i = some x) (hc : x.hasChannel = true) :
    onExchange i (RobustExchange.restore B) s = sendAll B x.restorePlan s := by
  rw [onExchange_some hx]
  apply zoom_sendAll
  · rw [WeakRegistry.put_of_get? hx]
  · exact RobustExchange.restore_run (s := ⟨x, s.broker, s.sent⟩) hc

theorem restore_queue_run {B : EchoBroker β A C} {q : RobustQueue A C}
    (hq : s.self.queues.objects.get? i = some q) (hn : q.name ≠ "") :
    onQueue i (RobustQueue.restore B.toBroker) s = sendAll B.toBroker q.restorePlan s := by
  rw [onQueue_some hq]
  apply zoom_sendAll
  · rw [WeakRegistry.put_of_get? hq]
  · exact RobustQueue.restore_run (s := ⟨q, s.broker, s.sent⟩) hn

theorem exchanges_run {B : Broker β A C} {o : SetOrder} (ha : s.self.Attached) :
    ((s.self.exchanges.iter o).forM fun i => onExchange i (RobustExchange.restore B)) s =
      sendAll B (s.self.exchangePlan o) s := by
  apply forM_eq_sendAll_flatMap
  intro i hi w hw
  obtain ⟨n, x, hm⟩ := WeakRegistry.mem_iter.mp hi
  rw [hm.2, Option.elim_some]
  exact restore_exchange_run (hw ▸ hm.2) (ha n i x hm)

theorem queues_run {B : EchoBroker β A C} {o : SetOrder} (hk : s.self.WellKeyed) :
    ((s.self.queues.iter o).forM fun i => onQueue i (RobustQueue.restore B.toBroker)) s =
      sendAll B.toBroker (s.self.queuePlan o) s := by
  apply forM_eq_sendAll_flatMap
  intro i hi w hw
  obtain ⟨n, q, hm⟩ := WeakRegistry.mem_iter.mp hi
  obtain ⟨rfl, hn⟩ := hk.queue n i q hm
  rw [hm.2, Option.elim_some]
  exact restore_queue_run (hw ▸ hm.2) hn

theorem onOpen_run {B : EchoBroker β A C} {o : SetOrder} (hk : s.self.WellKeyed)
    (ha : s.self.Attached) :
    onOpen B.toBroker o s = sendAll B.toBroker (s.self.openPlan o) s := by
  unfold onOpen openPlan
  rw [getSelf_bind]
  cases hq : send B.toBroker (.basicQos s.self.prefetchCount s.self.prefetchSize false) s with
  | error e t => rw [sendAll_cons_error hq]; exact Coroutine.bind_error hq
  | ok reply t =>
    have ht := (send_ok hq).1
    rw [sendAll_cons_ok hq, Coroutine.bind_ok hq, ← ht]
    cases hx : sendAll B.toBroker (t.self.exchangePlan o) t with
    | error e u =>
      rw [sendAll_append_error hx]
      exact Coroutine.bind_error ((exchanges_run (ht ▸ ha)).trans hx)
    | ok v u =>
      have hu := (sendAll_ok hx).1
      rw [sendAll_append_ok hx, Coroutine.bind_ok ((exchanges_run (ht ▸ ha)).trans hx), ← hu]
      exact queues_run (hu ▸ ht ▸ hk)

theorem exchange_emits {B : Broker β A C} {x : RobustExchange A}
    (hx : s.self.exchanges.objects.get? i = some x) :
    Coroutine.Emits Session.self Session.sent (onExchange i (RobustExchange.restore B))
      x.restorePlan s := by
  cases hc : x.hasChannel with
  | true => exact emits_sendAll.congr (restore_exchange_run hx hc)
  | false =>
    by_cases hn : x.name = ""
    · -- the default exchange is not declared
      have hplan : x.restorePlan = ([] : List (Request A C)) := if_pos hn
      have hr : RobustExchange.restore B ⟨x, s.broker, s.sent⟩ = .ok () ⟨x, s.broker, s.sent⟩ := by
        unfold RobustExchange.restore
        rw [getSelf_bind]
        simp only [hn, if_true]
        rfl
      rw [hplan]
      have hnone : Coroutine.Emits Session.self Session.sent (sendAll B []) [] s := emits_sendAll
      refine hnone.congr ((onExchange_some hx).trans (zoom_sendAll ?_ hr))
      rw [WeakRegistry.put_of_get? hx]
    · have hr := RobustExchange.restore_deleted (B := B) (s := ⟨x, s.broker, s.sent⟩) hn hc
      apply Coroutine.emits_of_error (e := .attributeError x.name)
      rw [onExchange_some hx, zoom, hr]
      simp only [WeakRegistry.put_of_get? hx]

/-- Whatever raises in it, `_on_open` leaves the channel and its objects alone, and has sent a
beginning of its plan; if nothing raises it has sent the plan. -/
theorem onOpen_emits {B : EchoBroker β A C} {o : SetOrder} (hk : s.self.WellKeyed) :
    Coroutine.Emits Session.self Session.sent (onOpen B.toBroker o) (s.self.openPlan o) s := by
  have hexchanges (t : Session (RobustChannel A C) β A C) (ht : t.self = s.self) :
      Coroutine.Emits Session.self Session.sent ((s.self.exchanges.iter o).forM fun i =>
        onExchange i (RobustExchange.restore B.toBroker)) (s.self.exchangePlan o) t := by
    apply Coroutine.emits_forM
    intro i hi u hu
    obtain ⟨n, x, hm⟩ := WeakRegistry.mem_iter.mp hi
    rw [hm.2, Option.elim_some]
    exact exchange_emits ((hu.trans ht) ▸ hm.2)
  have hqueues (t : Session (RobustChannel A C) β A C) (ht : t.self = s.self) :
      Coroutine.Emits Session.self Session.sent ((s.self.queues.iter o).forM fun i =>
        onQueue i (RobustQueue.restore B.toBroker)) (s.self.queuePlan o) t := by
    apply (emits_sendAll (B := B.toBroker)).congr
    rw [← ht]
    exact queues_run (ht ▸ hk)
  unfold onOpen openPlan
  refine Coroutine.Emits.congr (f := send B.toBroker _ >>= fun _ => _) ?_ (getSelf_bind _)
  refine emits_send.bind fun _ t ht => ?_
  exact (hexchanges t ht).bind fun _ u hu => hqueues u (hu.trans ht)

end Run

end RobustChannel

end AioPika
