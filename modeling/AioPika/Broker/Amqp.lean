import AioPika.Broker.Session
import Mathlib.Data.Set.Insert

/-! # An AMQP broker

The broker keeps exchanges, queues and bindings. A request that names a missing
entity is refused; a binding is identified by its two ends, its routing key and
its arguments, and removing an absent binding or entity does nothing.
-/

namespace AioPika

structure Binding (A : Type) where
  destination : Entity
  source : Name
  routingKey : Name
  arguments : A
  deriving DecidableEq, Repr

structure Amqp (A : Type) where
  exchanges : List Name
  queues : List Name
  bindings : List (Binding A)
  /-- How many queue names and consumer tags the broker has generated. -/
  generated : ℕ
  deriving DecidableEq, Repr

namespace Amqp

variable {A C : Type} {b : Amqp A} {x : Binding A} {d : Entity}

def addBinding (b : Amqp A) (x : Binding A) : Amqp A := { b with bindings := x :: b.bindings }

def has (b : Amqp A) : Entity → Bool
  | .exchange name => name ≠ "" ∧ name ∈ b.exchanges
  | .queue name => name ∈ b.queues

def bind (b : Amqp A) (x : Binding A) : Except Refusal Reply × Amqp A :=
  if b.has x.destination = false then (.error (.notFound x.destination), b)
  else if b.has (.exchange x.source) = false then (.error (.notFound (.exchange x.source)), b)
  else (.ok {}, b.addBinding x)

theorem bind_ok {r : Reply} {b' : Amqp A} (h : b.bind x = (.ok r, b')) :
    b.has x.destination = true ∧ b.has (.exchange x.source) = true ∧ b' = b.addBinding x := by
  unfold bind at h
  split at h
  · cases h
  · split at h
    · cases h
    · rename_i hd hs
      cases h
      exact ⟨by simpa using hd, by simpa using hs, rfl⟩

theorem bind_error {x' : Refusal} {b' : Amqp A} (h : b.bind x = (.error x', b')) : b' = b := by
  unfold bind at h
  split_ifs at h <;> cases h <;> rfl

theorem bind_of_has (hd : b.has x.destination = true) (hx : b.has (.exchange x.source) = true) :
    b.bind x = (.ok {}, b.addBinding x) := by
  simp [bind, hd, hx]

def bindingsOf (b : Amqp A) (d : Entity) : Set (Name × Name × A) :=
  {i | ⟨d, i.1, i.2.1, i.2.2⟩ ∈ b.bindings}

/-- The name under which a queue is declared: an empty name asks the broker for one. -/
def queueName (b : Amqp A) (name : Name) : Name :=
  if name = "" then s!"amq.gen-{b.generated}" else name

theorem queueName_ne {n : Name} : b.queueName n ≠ "" := by
  unfold queueName
  split
  · intro h
    have := congrArg String.length h
    simp [String.length_append] at this
  · rename_i hn; exact hn

theorem mem_bindingsOf {n k : Name} {a : A} :
    (n, k, a) ∈ b.bindingsOf d ↔ ⟨d, n, k, a⟩ ∈ b.bindings := Iff.rfl

theorem bindingsOf_addBinding :
    (b.addBinding x).bindingsOf x.destination =
      insert (x.source, x.routingKey, x.arguments) (b.bindingsOf x.destination) := by
  ext ⟨n, k, a⟩
  obtain ⟨d, n', k', a'⟩ := x
  simp [mem_bindingsOf, addBinding, Set.mem_insert_iff, Binding.mk.injEq]

def Holds (b : Amqp A) : Entity → Prop
  | .exchange name => name ∈ b.exchanges
  | .queue name => name ∈ b.queues

theorem holds_of_has (h : b.has d = true) : b.Holds d := by
  cases d with
  | exchange n => simp only [has, decide_eq_true_eq] at h; exact h.2
  | queue n => simpa [has, Holds] using h

theorem has_iff : b.has d = true ↔ d ≠ .exchange "" ∧ b.Holds d := by
  cases d <;> simp [has, Holds]

theorem holds_bind {b' : Amqp A} {reply : Reply} {e : Entity}
    (h : b.bind x = (.ok reply, b')) : b'.Holds e ↔ b.Holds e := by
  obtain ⟨-, -, rfl⟩ := bind_ok h
  cases e <;> rfl

variable [DecidableEq A]

def removeBinding (b : Amqp A) (x : Binding A) : Amqp A :=
  { b with bindings := b.bindings.filter fun y => y ≠ x }

theorem bindingsOf_removeBinding :
    (b.removeBinding x).bindingsOf x.destination =
      b.bindingsOf x.destination \ {(x.source, x.routingKey, x.arguments)} := by
  ext ⟨n, k, a⟩
  obtain ⟨d, n', k', a'⟩ := x
  simp only [mem_bindingsOf, removeBinding, List.mem_filter, Set.mem_sdiff,
    Set.mem_singleton_iff, Prod.mk.injEq, Binding.mk.injEq, ne_eq, decide_not, true_and,
    Bool.not_eq_true', decide_eq_false_iff_not]

/-- Deletes may be refused for the sake of `if_unused` and `if_empty`; this broker does not
refuse them. -/
def handle : Request A C → Amqp A → Except Refusal Reply × Amqp A
  | .basicQos _ _ _, b => (.ok {}, b)
  | .exchangeDeclare name _ _ _ _ passive _, b =>
    if name = "" then (.error (.accessRefused (.exchange name)), b)
    else if name ∈ b.exchanges then (.ok {}, b)
    else if passive then (.error (.notFound (.exchange name)), b)
    else (.ok {}, { b with exchanges := name :: b.exchanges })
  | .exchangeDelete name _, b =>
    (.ok {}, { b with
      exchanges := b.exchanges.filter fun n => n ≠ name
      bindings := b.bindings.filter fun x => x.source ≠ name ∧ x.destination ≠ .exchange name })
  | .exchangeBind destination source routingKey arguments, b =>
    b.bind ⟨.exchange destination, source, routingKey, arguments⟩
  | .exchangeUnbind destination source routingKey arguments, b =>
    (.ok {}, b.removeBinding ⟨.exchange destination, source, routingKey, arguments⟩)
  | .queueDeclare name _ _ _ passive _, b =>
    let name := b.queueName name
    if name ∈ b.queues then (.ok { queue := some name }, b)
    else if passive then (.error (.notFound (.queue name)), b)
    else (.ok { queue := some name },
      { b with queues := name :: b.queues, generated := b.generated + 1 })
  | .queueDelete name _ _, b =>
    (.ok {}, { b with
      queues := b.queues.filter fun n => n ≠ name
      bindings := b.bindings.filter fun x => x.destination ≠ .queue name })
  | .queueBind queue exchange routingKey arguments, b =>
    b.bind ⟨.queue queue, exchange, routingKey, arguments⟩
  | .queueUnbind queue exchange routingKey arguments, b =>
    (.ok {}, b.removeBinding ⟨.queue queue, exchange, routingKey, arguments⟩)
  | .basicConsume queue _ _ _ _ consumerTag, b =>
    if queue ∉ b.queues then (.error (.notFound (.queue queue)), b)
    else match consumerTag with
      | some tag => (.ok { consumerTag := some tag }, b)
      | none => (.ok { consumerTag := some s!"amq.ctag-{b.generated}" },
          { b with generated := b.generated + 1 })
  | .basicCancel consumerTag, b => (.ok { consumerTag := some consumerTag }, b)

/-- The broker echoes queue names and requested consumer tags. -/
def amqp : EchoBroker (Amqp A) A C where
  handle := handle
  echo_queue := by
    intro n d e a p x b r hn h
    simp only [handle, queueName, if_neg hn] at h
    split at h
    · cases h; rfl
    · split at h <;> cases h
      rfl
  echo_tag := by
    intro n c k e x t b r h
    simp only [handle] at h
    split at h <;> cases h
    rfl

section Entities

variable {b' : Amqp A} {reply : Reply} {e : Entity} {n : Name}

theorem holds_exchangeDeclare {t : String} {u a i p : Bool} {args : A}
    (h : handle (C := C) (.exchangeDeclare n t u a i p args) b = (.ok reply, b')) :
    n ≠ "" ∧ (b'.Holds e ↔ b.Holds e ∨ e = .exchange n) := by
  simp only [handle] at h
  split at h
  · cases h
  · rename_i hn
    refine ⟨hn, ?_⟩
    split at h
    · rename_i hm
      cases h
      refine ⟨Or.inl, ?_⟩
      rintro (h | rfl)
      · exact h
      · exact hm
    · split at h <;> cases h
      cases e <;> simp [Holds, or_comm]

theorem holds_queueDeclare {u x a p : Bool} {args : A}
    (h : handle (C := C) (.queueDeclare n u x a p args) b = (.ok reply, b')) :
    ∃ m, reply.queue = some m ∧ m ≠ "" ∧ (b'.Holds e ↔ b.Holds e ∨ e = .queue m) := by
  simp only [handle] at h
  refine ⟨b.queueName n, ?_⟩
  split at h
  · rename_i hm
    cases h
    refine ⟨rfl, queueName_ne, Or.inl, ?_⟩
    rintro (h | rfl)
    · exact h
    · exact hm
  · split at h <;> cases h
    refine ⟨rfl, queueName_ne, ?_⟩
    cases e <;> simp [Holds, or_comm]

theorem holds_exchangeDelete {u : Bool}
    (h : handle (C := C) (.exchangeDelete n u) b = (.ok reply, b')) :
    b'.Holds e ↔ b.Holds e ∧ e ≠ .exchange n := by
  cases h
  cases e <;> simp [Holds]

theorem holds_queueDelete {u m : Bool}
    (h : handle (C := C) (.queueDelete n u m) b = (.ok reply, b')) :
    b'.Holds e ↔ b.Holds e ∧ e ≠ .queue n := by
  cases h
  cases e <;> simp [Holds]

theorem holds_consume {c : C} {k x : Bool} {args : A} {o : Option ConsumerTag}
    (h : handle (.basicConsume n c k x args o) b = (.ok reply, b')) :
    b'.Holds e ↔ b.Holds e := by
  simp only [handle] at h
  split at h
  · cases h
  · cases o with
    | some tag => cases h; rfl
    | none => cases h; cases e <;> rfl

theorem handle_error {r : Request A C} {x : Refusal} (h : handle r b = (.error x, b')) :
    b' = b := by
  cases r with
  | basicConsume n c k u args o =>
    simp only [handle] at h
    split at h
    · cases h; rfl
    · cases o <;> cases h
  | exchangeBind => exact bind_error h
  | queueBind => exact bind_error h
  | exchangeDeclare n t u a i p args =>
    simp only [handle] at h
    split_ifs at h <;> cases h <;> rfl
  | queueDeclare n u a i p args =>
    simp only [handle] at h
    split_ifs at h <;> cases h
    rfl
  | _ => cases h

end Entities

section Send

variable {σ γ : Type} {s t : Session σ (Amqp A) A C} {r : Request A C}

theorem send_amqp {reply : Reply} (h : handle r s.broker = (.ok reply, b)) :
    send amqp.toBroker r s = .ok reply { s with broker := b, sent := s.sent ++ [r] } := by
  have h' : amqp.toBroker.handle r s.broker = (.ok reply, b) := h
  simp only [send, h']

theorem send_amqp_error {e : Refusal} (h : handle r s.broker = (.error e, b)) :
    send amqp.toBroker r s =
      .error (.refused e) { s with broker := b, sent := s.sent ++ [r] } := by
  have h' : amqp.toBroker.handle r s.broker = (.error e, b) := h
  simp only [send, h']

theorem sendAll_binds {l : List γ} {f : γ → Request A C} {x : γ → Binding A}
    (hf : ∀ e ∈ l, ∀ b, handle (f e) b = b.bind (x e))
    (hd : ∀ e ∈ l, s.broker.has (x e).destination = true)
    (hs : ∀ e ∈ l, s.broker.has (.exchange (x e).source) = true) :
    sendAll amqp.toBroker (l.map f) s = .ok ()
      { s with
        broker := { s.broker with bindings := (l.map x).reverse ++ s.broker.bindings }
        sent := s.sent ++ l.map f } := by
  induction l generalizing s with
  | nil => simp [sendAll_nil]
  | cons e l ih =>
    have he : handle (f e) s.broker = (.ok {}, s.broker.addBinding (x e)) :=
      (hf e List.mem_cons_self s.broker).trans
        (bind_of_has (hd e List.mem_cons_self) (hs e List.mem_cons_self))
    rw [List.map_cons, sendAll_cons_ok (send_amqp he), ih]
    · simp [addBinding]
    · exact fun e' he' => hf e' (List.mem_cons_of_mem _ he')
    · intro e' he'
      have h := hd e' (List.mem_cons_of_mem _ he')
      revert h
      cases (x e').destination <;> exact id
    · exact fun e' he' => hs e' (List.mem_cons_of_mem _ he')

theorem sendAll_neutral {l : List (Request A C)}
    (hreq : ∀ r ∈ l, ∃ reply, handle r s.broker = (.ok reply, s.broker)) :
    sendAll amqp.toBroker l s = .ok () { s with sent := s.sent ++ l } := by
  induction l generalizing s with
  | nil => simp [sendAll_nil]
  | cons r l ih =>
    obtain ⟨reply, hr⟩ := hreq r List.mem_cons_self
    rw [sendAll_cons_ok (send_amqp hr), ih]
    · simp
    · exact fun r' hr' => hreq r' (List.mem_cons_of_mem _ hr')

end Send

end Amqp

end AioPika
