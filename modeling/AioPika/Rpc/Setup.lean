import AioPika.Foundation.Coroutine
import AioPika.Foundation.Runs
import AioPika.Rpc.Client

/-! # Setting up and closing an RPC instance

`initialize()` and `close()` set and delete the attributes of the instance one
by one between the operations of the broker that they await, and a later call
looks at `result_queue` only. A method that is refused an operation leaves the
attributes as they are then.
-/

namespace AioPika.Rpc

/-- What `initialize()` and `close()` await. -/
inductive Operation where
  /-- `declare_exchange(exchange, ...)` -/
  | declareExchange
  /-- `declare_queue(None, ...)` -/
  | declareQueue
  /-- `declare_exchange(self.DLX_NAME, ...)` -/
  | declareDlx
  /-- `result_queue.bind(...)` -/
  | bind
  /-- `result_queue.consume(...)` -/
  | consume
  /-- `result_queue.cancel(...)` -/
  | cancel
  /-- `result_queue.unbind(...)` -/
  | unbind
  /-- `result_queue.delete()` -/
  | delete
  deriving DecidableEq, Repr

/-- The arguments of `initialize()`; `K` are further arguments of `declare_queue`. -/
structure InitializeArgs (K : Type) where
  autoDelete : Bool
  durable : Bool
  exchange : String
  kwargs : K

structure DeclareExchange where
  name : String
  type : String
  autoDelete : Bool
  durable : Bool
  deriving DecidableEq, Repr

structure DeclareQueue (K : Type) where
  name : Option String
  autoDelete : Bool
  durable : Bool
  kwargs : K

/-- What a broker refuses, and what it answers to the rest: exchanges `X`, queues `Q` and consumer
tags `T`. -/
structure SetupBroker (X Q T K : Type) where
  refuses : Operation → Bool
  exchange : DeclareExchange → X
  queue : DeclareQueue K → Q
  consumerTag : Q → T

/-- The attributes of an instance, some of which may not be there. -/
structure Setup (X Q T Id B V : Type) where
  rpcExchange : Option (Option X)
  resultQueue : Option Q
  dlxExchange : Option X
  resultConsumerTag : Option T
  /-- The binding of the result queue. -/
  binding : Option (Q × X)
  /-- `on_close` is among the `close_callbacks` of the channel. -/
  onClose : Bool
  /-- `on_message_returned` is among its `return_callbacks`. -/
  onMessageReturned : Bool
  calls : State Id B V

inductive SetupExc where
  | attributeError (name : String)
  | refused (operation : Operation)
  deriving DecidableEq, Repr

namespace Setup

variable {X Q T K Id B V : Type}

/-- `__init__` -/
def fresh : Setup X Q T Id B V := ⟨none, none, none, none, none, false, false, Rpc.fresh⟩

def getattr {α : Type} (name : String) (read : Setup X Q T Id B V → Option α) :
    EStateM SetupExc (Setup X Q T Id B V) α := fun s =>
  match read s with
  | some a => .ok a s
  | none => .error (.attributeError name) s

def await (broker : SetupBroker X Q T K) (operation : Operation) :
    EStateM SetupExc (Setup X Q T Id B V) Unit := fun s =>
  if broker.refuses operation then .error (.refused operation) s else .ok () s

def dlxName : String := "rpc.dlx"

/-- `await self.channel.declare_exchange(exchange, ...) if exchange else None` -/
def declareRpcExchange (broker : SetupBroker X Q T K) (args : InitializeArgs K) :
    EStateM SetupExc (Setup X Q T Id B V) (Option X) := do
  if args.exchange = "" then
    return none
  await broker .declareExchange
  return some (broker.exchange ⟨args.exchange, "direct", true, args.durable⟩)

/-- `initialize` -/
def initializeRpc (broker : SetupBroker X Q T K) (args : InitializeArgs K) :
    EStateM SetupExc (Setup X Q T Id B V) Unit := do
  let self ← get
  if self.resultQueue.isSome then
    return
  let exchange ← declareRpcExchange broker args
  modify fun s => { s with rpcExchange := some exchange }
  await broker .declareQueue
  let queue := broker.queue ⟨none, args.autoDelete, args.durable, args.kwargs⟩
  modify fun s => { s with resultQueue := some queue }
  await broker .declareDlx
  let dlx := broker.exchange ⟨dlxName, "headers", true, false⟩
  modify fun s => { s with dlxExchange := some dlx }
  await broker .bind
  modify fun s => { s with binding := some (queue, dlx) }
  await broker .consume
  modify fun s => { s with
    resultConsumerTag := some (broker.consumerTag queue)
    onClose := true
    onMessageReturned := true }

def close (codec : Codec Id B V) (broker : SetupBroker X Q T K) :
    EStateM SetupExc (Setup X Q T Id B V) Unit := do
  let self ← get
  if self.resultQueue.isNone then
    return
  let _ ← getattr "result_consumer_tag" resultConsumerTag
  await broker .cancel
  modify fun s => { s with resultConsumerTag := none }
  let _ ← getattr "dlx_exchange" dlxExchange
  await broker .unbind
  modify fun s => { s with
    binding := none
    calls := s.calls.completeAll codec (.exception .cancelledError) }
  await broker .delete
  modify fun s => { s with resultQueue := none, dlxExchange := none }
  let exchange ← getattr "rpc_exchange" rpcExchange
  if exchange.isSome then
    modify fun s => { s with rpcExchange := none }

def final {α : Type} : EStateM.Result SetupExc (Setup X Q T Id B V) α → Setup X Q T Id B V
  | .ok _ s | .error _ s => s

end Setup

/-- The same broker when it accepts everything. -/
def SetupBroker.accepting {X Q T K : Type} (broker : SetupBroker X Q T K) : SetupBroker X Q T K :=
  { broker with refuses := fun _ => false }

/-- What is called, or happens, one after the other. -/
inductive SetupAction (X Q T K Id B V : Type) where
  /-- `initialize()` -/
  | initialization (broker : SetupBroker X Q T K) (args : InitializeArgs K)
  | close (broker : SetupBroker X Q T K)
  | calls (action : Action Id B V)

inductive SetupMethod (K : Type) where
  /-- `initialize()` -/
  | initialization (args : InitializeArgs K)
  | close

namespace Setup

variable {X Q T K Id B V : Type} (codec : Codec Id B V)

def call (broker : SetupBroker X Q T K) :
    SetupMethod K → EStateM SetupExc (Setup X Q T Id B V) Unit
  | .initialization args => initializeRpc broker args
  | .close => close codec broker

def step [DecidableEq Id] (s : Setup X Q T Id B V) :
    SetupAction X Q T K Id B V → Option (Setup X Q T Id B V)
  | .initialization broker args => some (final (initializeRpc broker args s))
  | .close broker => some (final (close codec broker s))
  | .calls a => (Rpc.step codec s.calls a).map fun calls => { s with calls := calls }

/-- Who consumes the result queue has the attributes that `close()` reads. -/
def Complete (s : Setup X Q T Id B V) : Prop :=
  s.resultConsumerTag.isSome = true →
    s.resultQueue.isSome = true ∧ s.dlxExchange.isSome = true ∧ s.rpcExchange.isSome = true

/-- The RPC exchange that `initialize()` declares. -/
def declared (broker : SetupBroker X Q T K) (args : InitializeArgs K) : Option X :=
  if args.exchange = "" then none
  else some (broker.exchange ⟨args.exchange, "direct", true, args.durable⟩)

/-- An instance after `initialize()`. -/
def setUp (broker : SetupBroker X Q T K) (args : InitializeArgs K) (s : Setup X Q T Id B V) :
    Setup X Q T Id B V :=
  let queue := broker.queue ⟨none, args.autoDelete, args.durable, args.kwargs⟩
  let dlx := broker.exchange ⟨dlxName, "headers", true, false⟩
  ⟨some (declared broker args), some queue, some dlx, some (broker.consumerTag queue),
    some (queue, dlx), true, true, s.calls⟩

open Coroutine

variable {codec} {broker : SetupBroker X Q T K} {args : InitializeArgs K}
  {s t : Setup X Q T Id B V} {k : Operation} {e : SetupExc}

theorem declareRpcExchange_run : declareRpcExchange broker args s =
    if args.exchange ≠ "" ∧ broker.refuses .declareExchange = true then
      .error (.refused .declareExchange) s
    else .ok (declared broker args) s := by
  by_cases hx : args.exchange = ""
  · simp [declareRpcExchange, declared, hx, pure_run]
  · cases hk : broker.refuses .declareExchange <;>
      simp [declareRpcExchange, declared, await, hx, hk, bind_run, pure_run]

theorem initialize_again (h : s.resultQueue ≠ none) : initializeRpc broker args s = .ok () s := by
  obtain ⟨q, hq⟩ := Option.ne_none_iff_exists'.mp h
  simp [initializeRpc, hq, bind_run, get_run, pure_run]

/-- What a run of `initialize()` that is refused an operation leaves behind. -/
def InitializeRefused (broker : SetupBroker X Q T K) (args : InitializeArgs K)
    (s : Setup X Q T Id B V) (k : Operation) (t : Setup X Q T Id B V) : Prop :=
  k = .declareExchange ∧ t = s ∨
    k = .declareQueue ∧ t = { s with rpcExchange := some (declared broker args) } ∨
    -- the result queue is there, and the consumer is not
    (k = .declareDlx ∨ k = .bind ∨ k = .consume) ∧ t.resultQueue ≠ none ∧
      t.resultConsumerTag = s.resultConsumerTag

theorem initialize_cases (broker : SetupBroker X Q T K) (args : InitializeArgs K)
    (h : s.resultQueue = none) :
    initializeRpc broker args s = .ok () (s.setUp broker args) ∨
      ∃ k t, broker.refuses k = true ∧ initializeRpc broker args s = .error (.refused k) t ∧
        InitializeRefused broker args s k t := by
  by_cases hx : args.exchange ≠ "" ∧ broker.refuses .declareExchange = true
  · refine Or.inr ⟨.declareExchange, s, hx.2, ?_, Or.inl ⟨rfl, rfl⟩⟩
    simp [initializeRpc, h, hx, bind_run, get_run, declareRpcExchange_run]
  cases hqueue : broker.refuses .declareQueue with
  | true =>
    refine Or.inr ⟨.declareQueue, _, hqueue, ?_, Or.inr (Or.inl ⟨rfl, rfl⟩)⟩
    simp [initializeRpc, await, h, hx, hqueue, bind_run, get_run, modify_run,
      declareRpcExchange_run]
  | false =>
    cases hdlx : broker.refuses .declareDlx with
    | true =>
      refine Or.inr ⟨.declareDlx, ?_⟩
      simp [initializeRpc, await, InitializeRefused, h, hx, hqueue, hdlx, bind_run, get_run,
        modify_run, declareRpcExchange_run]
    | false =>
      cases hbind : broker.refuses .bind with
      | true =>
        refine Or.inr ⟨.bind, ?_⟩
        simp [initializeRpc, await, InitializeRefused, h, hx, hqueue, hdlx, hbind, bind_run,
          get_run, modify_run, declareRpcExchange_run]
      | false =>
        cases hconsume : broker.refuses .consume with
        | true =>
          refine Or.inr ⟨.consume, ?_⟩
          simp [initializeRpc, await, InitializeRefused, h, hx, hqueue, hdlx, hbind, hconsume,
            bind_run, get_run, modify_run, declareRpcExchange_run]
        | false =>
          apply Or.inl
          simp [initializeRpc, await, setUp, h, hx, hqueue, hdlx, hbind, hconsume, bind_run,
            get_run, modify_run, declareRpcExchange_run]

theorem initialize_accepted (broker : SetupBroker X Q T K) (args : InitializeArgs K)
    (h : s.resultQueue = none) (hb : ∀ k, broker.refuses k = false) :
    initializeRpc broker args s = .ok () (s.setUp broker args) := by
  apply (initialize_cases broker args h).resolve_right
  rintro ⟨k, t, hk, -⟩
  rw [hb k] at hk
  cases hk

/-- An instance after `close()`. -/
def closed (codec : Codec Id B V) (s : Setup X Q T Id B V) : Setup X Q T Id B V :=
  { s with
    rpcExchange := if s.rpcExchange.join.isSome then none else s.rpcExchange
    resultQueue := none
    dlxExchange := none
    resultConsumerTag := none
    binding := none
    calls := s.calls.completeAll codec (.exception .cancelledError) }

theorem close_again (h : s.resultQueue = none) : close codec broker s = .ok () s := by
  simp [close, h, bind_run, get_run, pure_run]

/-- A `close()` that finds no consumer tag. -/
theorem close_raises (h : s.resultQueue ≠ none) (ht : s.resultConsumerTag = none) :
    close codec broker s = .error (.attributeError "result_consumer_tag") s := by
  obtain ⟨q, hq⟩ := Option.ne_none_iff_exists'.mp h
  simp [close, getattr, hq, ht, bind_run, get_run]

/-- What a run of `close()` that is refused an operation leaves behind. -/
def CloseRefused (s : Setup X Q T Id B V) (k : Operation) (t : Setup X Q T Id B V) : Prop :=
  k = .cancel ∧ t = s ∨
    -- the result queue is still there, and its consumer tag is not
    (k = .unbind ∨ k = .delete) ∧ t.resultQueue = s.resultQueue ∧ t.resultConsumerTag = none

theorem close_cases (codec : Codec Id B V) (broker : SetupBroker X Q T K) (h : s.Complete)
    (ht : s.resultConsumerTag ≠ none) :
    close codec broker s = .ok () (s.closed codec) ∨
      ∃ k t, broker.refuses k = true ∧ close codec broker s = .error (.refused k) t ∧
        CloseRefused s k t := by
  obtain ⟨tag, htag⟩ := Option.ne_none_iff_exists'.mp ht
  obtain ⟨hq, hdlx, hx⟩ := h (Option.isSome_iff_ne_none.mpr ht)
  obtain ⟨q, hq⟩ := Option.isSome_iff_exists.mp hq
  obtain ⟨dlx, hdlx⟩ := Option.isSome_iff_exists.mp hdlx
  obtain ⟨x, hx⟩ := Option.isSome_iff_exists.mp hx
  cases hcancel : broker.refuses .cancel with
  | true =>
    refine Or.inr ⟨.cancel, s, hcancel, ?_, Or.inl ⟨rfl, rfl⟩⟩
    simp [close, getattr, await, htag, hq, hcancel, bind_run, get_run]
  | false =>
    cases hunbind : broker.refuses .unbind with
    | true =>
      refine Or.inr ⟨.unbind, ?_⟩
      simp [close, getattr, await, CloseRefused, htag, hq, hdlx, hcancel, hunbind, bind_run,
        get_run, modify_run]
    | false =>
      cases hdelete : broker.refuses .delete with
      | true =>
        refine Or.inr ⟨.delete, ?_⟩
        simp [close, getattr, await, CloseRefused, htag, hq, hdlx, hcancel, hunbind, hdelete,
          bind_run, get_run, modify_run]
      | false =>
        apply Or.inl
        cases x with
        | none =>
          simp [close, getattr, await, closed, htag, hq, hdlx, hx, hcancel, hunbind, hdelete,
            bind_run, get_run, modify_run, pure_run]
        | some x =>
          simp [close, getattr, await, closed, htag, hq, hdlx, hx, hcancel, hunbind, hdelete,
            bind_run, get_run, modify_run]

theorem close_accepted (h : s.Complete) (ht : s.resultConsumerTag ≠ none)
    (hb : ∀ k, broker.refuses k = false) : close codec broker s = .ok () (s.closed codec) := by
  apply (close_cases codec broker h ht).resolve_right
  rintro ⟨k, t, hk, -⟩
  rw [hb k] at hk
  cases hk

theorem Complete.tag_none (h : s.Complete) (hq : s.resultQueue = none) :
    s.resultConsumerTag = none := by
  by_contra ht
  have hs := (h (Option.isSome_iff_ne_none.mpr ht)).1
  rw [hq] at hs
  cases hs

theorem complete_of_tag (ht : s.resultConsumerTag = none) : s.Complete := by
  intro hs
  rw [ht] at hs
  cases hs

theorem initialize_complete (h : s.Complete) : (final (initializeRpc broker args s)).Complete := by
  by_cases hq : s.resultQueue = none
  · have ht := h.tag_none hq
    rcases initialize_cases broker args hq with hr | ⟨k, t, -, hr, hk⟩
    · rw [hr]
      exact fun _ => ⟨rfl, rfl, rfl⟩
    · rw [hr]
      apply complete_of_tag
      rcases hk with ⟨-, rfl⟩ | ⟨-, rfl⟩ | ⟨-, -, he⟩
      · exact ht
      · exact ht
      · exact he.trans ht
  · rw [initialize_again hq]
    exact h

theorem close_complete (h : s.Complete) : (final (close codec broker s)).Complete := by
  by_cases hq : s.resultQueue = none
  · rw [close_again hq]
    exact h
  by_cases ht : s.resultConsumerTag = none
  · rw [close_raises hq ht]
    exact h
  rcases close_cases codec broker h ht with hr | ⟨k, t, -, hr, hk⟩
  · rw [hr]
    exact complete_of_tag rfl
  · rw [hr]
    rcases hk with ⟨-, rfl⟩ | ⟨-, -, he⟩
    · exact h
    · exact complete_of_tag he

theorem complete_step [DecidableEq Id] {a : SetupAction X Q T K Id B V} (h : s.Complete)
    (hs : s.step codec a = some t) : t.Complete := by
  cases a with
  | initialization broker args =>
    obtain rfl := Option.some.inj hs
    exact initialize_complete h
  | close broker =>
    obtain rfl := Option.some.inj hs
    exact close_complete h
  | calls a =>
    obtain ⟨calls, -, rfl⟩ := Option.map_eq_some_iff.mp hs
    exact h

theorem initialize_retry_iff (h : s.Complete)
    (hrun : initializeRpc broker args s = .error (.refused k) t) :
    final (initializeRpc broker.accepting args t) =
        final (initializeRpc broker.accepting args s) ↔
      k = .declareExchange ∨ k = .declareQueue ∨ k = .cancel := by
  have hq : s.resultQueue = none := by
    by_contra hq
    rw [initialize_again hq] at hrun
    cases hrun
  have hs : initializeRpc broker.accepting args s = .ok () (s.setUp broker args) :=
    initialize_accepted _ _ hq fun _ => rfl
  rcases initialize_cases broker args hq with hr | ⟨k', t', -, hr, hk⟩
  · rw [hr] at hrun
    cases hrun
  · rw [hr] at hrun
    cases hrun
    rcases hk with ⟨rfl, rfl⟩ | ⟨rfl, rfl⟩ | ⟨hk, htq, htt⟩
    · exact iff_of_true rfl (Or.inl rfl)
    · have ht := initialize_accepted broker.accepting args
        (s := { s with rpcExchange := some (declared broker args) }) hq fun _ => rfl
      rw [hs, ht]
      exact iff_of_true rfl (Or.inr (Or.inl rfl))
    · rw [initialize_again htq, hs]
      refine iff_of_false (fun he => ?_) (by rcases hk with rfl | rfl | rfl <;> simp)
      have hn : t.resultConsumerTag = none := htt.trans (h.tag_none hq)
      obtain rfl : t = s.setUp broker args := he
      cases hn

theorem close_retry_iff (h : s.Complete)
    (hrun : close codec broker s = .error (.refused k) t) :
    final (close codec broker.accepting t) = final (close codec broker.accepting s) ↔
      k = .declareExchange ∨ k = .declareQueue ∨ k = .cancel := by
  have hq : s.resultQueue ≠ none := by
    intro hq
    rw [close_again hq] at hrun
    cases hrun
  have htag : s.resultConsumerTag ≠ none := by
    intro ht
    rw [close_raises hq ht] at hrun
    cases hrun
  have hs : close codec broker.accepting s = .ok () (s.closed codec) :=
    close_accepted h htag fun _ => rfl
  rcases close_cases codec broker h htag with hr | ⟨k', t', -, hr, hk⟩
  · rw [hr] at hrun
    cases hrun
  · rw [hr] at hrun
    cases hrun
    rcases hk with ⟨rfl, rfl⟩ | ⟨hk, htq, htt⟩
    · exact iff_of_true rfl (Or.inr (Or.inr rfl))
    · rw [close_raises (htq ▸ hq) htt, hs]
      refine iff_of_false (fun he => ?_) (by rcases hk with rfl | rfl <;> simp)
      obtain rfl : t = s.closed codec := he
      exact hq htq.symm

/-- A method that was refused an operation can be retried if and only if that was the declaration
of the RPC exchange or of the result queue, or the cancellation of the consumer. -/
theorem retry_iff [DecidableEq Id] {method : SetupMethod K}
    (h : Transition.Reach (· = fresh)
      (step codec : Setup X Q T Id B V → SetupAction X Q T K Id B V → _) (fun _ _ => True) s)
    (hrun : call codec broker method s = .error (.refused k) t) :
    final (call codec broker.accepting method t) = final (call codec broker.accepting method s) ↔
      k = .declareExchange ∨ k = .declareQueue ∨ k = .cancel := by
  have hs : s.Complete := by
    refine h.invariant (fun s hs => ?_) fun s a t hs _ hstep => complete_step hs hstep
    rw [hs]
    exact complete_of_tag rfl
  cases method with
  | initialization args => exact initialize_retry_iff hs hrun
  | close => exact close_retry_iff hs hrun

def refusing (k : Operation) : SetupBroker ℕ ℕ ℕ Unit where
  refuses := fun k' => decide (k' = k)
  exchange := fun _ => 1
  queue := fun _ => 2
  consumerTag := fun _ => 3

theorem queue_declared_again :
    final (call plain (refusing .declareQueue).accepting (.initialization ⟨true, false, "rpc", ()⟩)
        (⟨some (some 1), none, none, none, none, false, false, Rpc.fresh⟩ :
          Setup ℕ ℕ ℕ ℕ ℕ ℕ)) =
      final (call plain (refusing .declareQueue).accepting
        (.initialization ⟨true, false, "rpc", ()⟩) fresh) ↔
    Operation.declareQueue = .declareExchange ∨ Operation.declareQueue = .declareQueue ∨
      Operation.declareQueue = .cancel :=
  retry_iff ⟨_, [], rfl, .nil _⟩ rfl

/-- The dead letter exchange is not declared, and `initialize()` is called again; the result queue
is not unbound, and `close()` is called again. -/
theorem not_retried : (∃ t : Setup ℕ ℕ ℕ ℕ ℕ ℕ,
    initializeRpc (refusing .declareDlx) ⟨true, false, "", ()⟩ fresh =
      .error (.refused .declareDlx) t ∧
      (final (initializeRpc (refusing .declareDlx).accepting ⟨true, false, "", ()⟩
        t)).resultConsumerTag = none ∧
      (final (initializeRpc (refusing .declareDlx).accepting ⟨true, false, "", ()⟩
        (fresh : Setup ℕ ℕ ℕ ℕ ℕ ℕ))).resultConsumerTag = some 3) ∧
    ∃ s t : Setup ℕ ℕ ℕ ℕ ℕ ℕ,
      initializeRpc (refusing .unbind) ⟨true, false, "", ()⟩ fresh = .ok () s ∧
      close plain (refusing .unbind) s = .error (.refused .unbind) t ∧
      close plain (refusing .unbind).accepting t =
        .error (.attributeError "result_consumer_tag") t ∧
      t.resultQueue = some 2 ∧
      (final (close plain (refusing .unbind).accepting s)).resultQueue = none := by
  constructor
  · exact ⟨_, rfl, rfl, rfl⟩
  · exact ⟨_, _, rfl, rfl, rfl, rfl, rfl⟩

end Setup

end AioPika.Rpc
