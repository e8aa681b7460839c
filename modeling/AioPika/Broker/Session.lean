import AioPika.Foundation.Coroutine

/-! # Sessions with a broker

The client reaches the broker only through requests on its underlay channel.
A session holds the client object that runs, the state of the broker and the
requests sent so far; a request is answered with a reply or an exception.
-/

namespace AioPika

abbrev Name := String
abbrev ConsumerTag := String

inductive Entity where
  | exchange (name : Name)
  | queue (name : Name)
  deriving DecidableEq, Repr

/-- The channel errors with which a broker answers a request. -/
inductive Refusal where
  | notFound (entity : Entity)
  | accessRefused (entity : Entity)
  | channelClosed
  deriving DecidableEq, Repr

inductive Exn where
  | refused (refusal : Refusal)
  /-- `self.channel` of an exchange object after its `delete()` -/
  | attributeError (exchange : Name)
  | runtimeError (message : String)
  deriving DecidableEq, Repr

/-- The requests of `aiormq.abc.AbstractChannel` that the client sends; `A` are the argument
tables, `C` the consumer callbacks. -/
inductive Request (A C : Type) where
  | basicQos (prefetchCount prefetchSize : ℕ) (globalQos : Bool)
  | exchangeDeclare (exchange : Name) (exchangeType : String)
      (durable autoDelete internal passive : Bool) (arguments : A)
  | exchangeDelete (exchange : Name) (ifUnused : Bool)
  | exchangeBind (destination source routingKey : Name) (arguments : A)
  | exchangeUnbind (destination source routingKey : Name) (arguments : A)
  | queueDeclare (queue : Name) (durable exclusive autoDelete passive : Bool) (arguments : A)
  | queueDelete (queue : Name) (ifUnused ifEmpty : Bool)
  | queueBind (queue exchange routingKey : Name) (arguments : A)
  | queueUnbind (queue exchange routingKey : Name) (arguments : A)
  | basicConsume (queue : Name) (callback : C) (noAck exclusive : Bool) (arguments : A)
      (consumerTag : Option ConsumerTag)
  | basicCancel (consumerTag : ConsumerTag)
  deriving DecidableEq, Repr

structure Reply where
  queue : Option Name := none
  consumerTag : Option ConsumerTag := none
  deriving DecidableEq, Repr

/-- A broker: what it answers to each request, and its state afterwards. -/
structure Broker (β A C : Type) where
  handle : Request A C → β → Except Refusal Reply × β

/-- A broker that gives a consumer the tag it was asked for. -/
structure TagBroker (β A C : Type) extends Broker β A C where
  echo_tag : ∀ n c k e x t b r,
    (handle (.basicConsume n c k e x (some t)) b).1 = .ok r → r.consumerTag = some t

/-- A broker that also gives a declared queue the name it was asked for, if any. -/
structure EchoBroker (β A C : Type) extends TagBroker β A C where
  echo_queue : ∀ n d e a p x b r, n ≠ "" →
    (handle (.queueDeclare n d e a p x) b).1 = .ok r → r.queue = some n

/-- A client object in conversation with a broker. -/
structure Session (σ β A C : Type) where
  self : σ
  broker : β
  sent : List (Request A C)

/-- A coroutine of a client object, run to its end with no other task in between. -/
abbrev Coro (σ β A C α : Type) := EStateM Exn (Session σ β A C) α

variable {σ β A C : Type}

def send (B : Broker β A C) (r : Request A C) : Coro σ β A C Reply := fun s =>
  match B.handle r s.broker with
  | (.ok reply, b) => .ok reply { s with broker := b, sent := s.sent ++ [r] }
  | (.error e, b) => .error (.refused e) { s with broker := b, sent := s.sent ++ [r] }

def getSelf : Coro σ β A C σ := fun s => .ok s.self s

def modifySelf (f : σ → σ) : Coro σ β A C Unit := fun s => .ok () { s with self := f s.self }

/-- Send a list of requests, up to the first that is answered with an exception. -/
def sendAll (B : Broker β A C) (rs : List (Request A C)) : Coro σ β A C Unit :=
  rs.forM fun r => do let _ ← send B r

variable {B : Broker β A C} {r : Request A C} {rs : List (Request A C)}
  {s t : Session σ β A C}

theorem getSelf_bind {α : Type} (f : σ → Coro σ β A C α) :
    (getSelf >>= f) s = f s.self s := rfl

theorem modifySelf_bind {α : Type} (g : σ → σ) (f : Unit → Coro σ β A C α) :
    (modifySelf g >>= f) s = f () { s with self := g s.self } := rfl

theorem send_ok {reply : Reply} (h : send B r s = .ok reply t) :
    t.self = s.self ∧ t.sent = s.sent ++ [r] ∧ B.handle r s.broker = (.ok reply, t.broker) := by
  unfold send at h
  split at h
  · rename_i hb
    cases h
    exact ⟨rfl, rfl, hb⟩
  · cases h

theorem send_error {e : Exn} (h : send B r s = .error e t) :
    t.self = s.self ∧ t.sent = s.sent ++ [r] ∧
      ∃ x, e = .refused x ∧ B.handle r s.broker = (.error x, t.broker) := by
  unfold send at h
  split at h
  · cases h
  · rename_i x b hb
    cases h
    exact ⟨rfl, rfl, x, rfl, hb⟩

theorem sendAll_nil : sendAll B [] s = .ok () s := rfl

theorem sendAll_cons_ok {reply : Reply} (h : send B r s = .ok reply t) :
    sendAll B (r :: rs) s = sendAll B rs t := by
  change ((send B r >>= fun _ => pure PUnit.unit) >>= fun _ => sendAll B rs) s = _
  exact Coroutine.bind_ok (Coroutine.bind_ok h)

theorem sendAll_cons_error {e : Exn} (h : send B r s = .error e t) :
    sendAll B (r :: rs) s = .error e t := by
  change ((send B r >>= fun _ => pure PUnit.unit) >>= fun _ => sendAll B rs) s = _
  exact Coroutine.bind_error (Coroutine.bind_error h)

theorem sendAll_append_ok {rs' : List (Request A C)} {u : Unit}
    (h : sendAll B rs s = .ok u t) : sendAll B (rs ++ rs') s = sendAll B rs' t :=
  Coroutine.forM_append.trans (Coroutine.bind_ok h)

theorem sendAll_append_error {rs' : List (Request A C)} {e : Exn}
    (h : sendAll B rs s = .error e t) : sendAll B (rs ++ rs') s = .error e t :=
  Coroutine.forM_append.trans (Coroutine.bind_error h)

theorem forM_eq_sendAll {γ : Type} {l : List γ} {f : γ → Coro σ β A C Unit}
    {req : γ → Request A C}
    (hf : ∀ e ∈ l, ∀ w, w.self = s.self →
      (∃ reply t, send B (req e) w = .ok reply t ∧ f e w = .ok () t) ∨
        ∃ e' t, send B (req e) w = .error e' t ∧ f e w = .error e' t) :
    l.forM f s = sendAll B (l.map req) s := by
  rw [sendAll, Coroutine.forM_map]
  apply Coroutine.forM_congr (I := fun w => w.self = s.self) rfl
  · intro e he w hw
    rcases hf e he w hw with ⟨reply, t, hs, hfe⟩ | ⟨e', t, hs, hfe⟩
    · rw [hfe, Coroutine.bind_ok hs]; rfl
    · rw [hfe, Coroutine.bind_error hs]
  · intro e _ w t u hw ht
    obtain ⟨reply, t', hs, ht'⟩ := Coroutine.bind_eq_ok ht
    cases ht'
    exact (send_ok hs).1.trans hw

theorem sendAll_ok {u : Unit} (h : sendAll B rs s = .ok u t) :
    t.self = s.self ∧ t.sent = s.sent ++ rs := by
  induction rs generalizing s with
  | nil => cases h; simp
  | cons r rs ih =>
    cases hr : send B r s with
    | ok reply s' =>
      obtain ⟨hself, hsent, -⟩ := send_ok hr
      rw [sendAll_cons_ok hr] at h
      obtain ⟨h₁, h₂⟩ := ih h
      exact ⟨h₁.trans hself, by simp [h₂, hsent]⟩
    | error e s' => rw [sendAll_cons_error hr] at h; cases h

theorem forM_eq_sendAll_flatMap {γ : Type} {l : List γ} {f : γ → Coro σ β A C Unit}
    {plan : γ → List (Request A C)}
    (hf : ∀ e ∈ l, ∀ w : Session σ β A C, w.self = s.self → f e w = sendAll B (plan e) w) :
    l.forM f s = sendAll B (l.flatMap plan) s := by
  induction l generalizing s with
  | nil => rfl
  | cons e l ih =>
    change (f e >>= fun _ => l.forM f) s = _
    rw [List.flatMap_cons]
    have he := hf e List.mem_cons_self s rfl
    cases hs : sendAll B (plan e) s with
    | ok u t =>
      rw [Coroutine.bind_ok (he.trans hs), sendAll_append_ok hs]
      exact ih fun e' he' w hw =>
        hf e' (List.mem_cons_of_mem _ he') w (hw.trans (sendAll_ok hs).1)
    | error x t => rw [Coroutine.bind_error (he.trans hs), sendAll_append_error hs]

theorem sendAll_error {e : Exn} (h : sendAll B rs s = .error e t) :
    t.self = s.self ∧ ∃ done r rest u x, rs = done ++ r :: rest ∧
      sendAll B done s = .ok () u ∧ t.sent = s.sent ++ done ++ [r] ∧ e = .refused x ∧
      B.handle r u.broker = (.error x, t.broker) := by
  induction rs generalizing s with
  | nil => cases h
  | cons r rs ih =>
    cases hr : send B r s with
    | ok reply s' =>
      obtain ⟨hself, hsent, -⟩ := send_ok hr
      rw [sendAll_cons_ok hr] at h
      obtain ⟨h₁, done, r', rest, u, x, rfl, hd, h₂, h₃⟩ := ih h
      exact ⟨h₁.trans hself, r :: done, r', rest, u, x, rfl, (sendAll_cons_ok hr).trans hd,
        by simp [h₂, hsent], h₃⟩
    | error e' s' =>
      rw [sendAll_cons_error hr] at h
      cases h
      obtain ⟨hself, hsent, x, hx, hb⟩ := send_error hr
      exact ⟨hself, [], r, rs, s, x, rfl, sendAll_nil, by simp [hsent], hx, hb⟩

theorem sendAll_self (B : Broker β A C) (rs : List (Request A C)) (s : Session σ β A C) :
    (∃ t, sendAll B rs s = .ok () t ∧ t.self = s.self) ∨
      ∃ e t, sendAll B rs s = .error e t ∧ t.self = s.self := by
  cases h : sendAll B rs s with
  | ok u t => exact Or.inl ⟨t, rfl, (sendAll_ok h).1⟩
  | error e t => exact Or.inr ⟨e, t, rfl, (sendAll_error h).1⟩

theorem emits_send : Coroutine.Emits Session.self Session.sent (send B r) [r] s := by
  unfold Coroutine.Emits
  cases hs : send B r s with
  | ok reply t => exact ⟨(send_ok hs).1, (send_ok hs).2.1⟩
  | error e t => exact ⟨(send_error hs).1, [r], List.prefix_rfl, (send_error hs).2.1⟩

/-- Whatever the broker answers, a list of requests is sent up to some point. -/
theorem emits_sendAll : Coroutine.Emits Session.self Session.sent (sendAll B rs) rs s := by
  have hone (r : Request A C) (t : Session σ β A C) :
      Coroutine.Emits Session.self Session.sent (do let _ ← send B r) ([r] ++ []) t :=
    emits_send.bind fun _ _ _ => Coroutine.emits_pure _
  have h : Coroutine.Emits Session.self Session.sent (sendAll B rs)
      (rs.flatMap fun r => [r] ++ []) s :=
    Coroutine.emits_forM fun r _ t _ => hone r t
  simpa using h

/-- Run a coroutine of an object that the client object owns. -/
def zoom {τ α : Type} (x : τ) (set : τ → σ) (c : Coro τ β A C α) : Coro σ β A C α := fun s =>
  match c ⟨x, s.broker, s.sent⟩ with
  | .ok a t => .ok a ⟨set t.self, t.broker, t.sent⟩
  | .error e t => .error e ⟨set t.self, t.broker, t.sent⟩

theorem zoom_ok {τ α : Type} {x : τ} {set : τ → σ} {c : Coro τ β A C α} {a : α}
    (h : zoom x set c s = .ok a t) :
    ∃ y, c ⟨x, s.broker, s.sent⟩ = .ok a ⟨y, t.broker, t.sent⟩ ∧ t.self = set y := by
  unfold zoom at h
  split at h
  · rename_i u hc
    cases h
    exact ⟨u.self, hc, rfl⟩
  · cases h

theorem zoom_sendAll {τ : Type} {x : τ} {set : τ → σ} {c : Coro τ β A C Unit}
    (hx : set x = s.self)
    (hc : c ⟨x, s.broker, s.sent⟩ = sendAll B rs ⟨x, s.broker, s.sent⟩) :
    zoom x set c s = sendAll B rs s := by
  unfold zoom
  rw [hc]
  clear hc
  induction rs generalizing s with
  | nil =>
    simp only [sendAll_nil, hx]
  | cons r rs ih =>
    cases hr : B.handle r s.broker with
    | mk res b =>
      cases res with
      | ok reply =>
        have h₁ : send B r (⟨x, s.broker, s.sent⟩ : Session τ β A C) =
            .ok reply ⟨x, b, s.sent ++ [r]⟩ := by simp only [send, hr]
        have h₂ : send B r s = .ok reply ⟨s.self, b, s.sent ++ [r]⟩ := by simp only [send, hr]
        rw [sendAll_cons_ok h₁, sendAll_cons_ok h₂]
        exact ih (s := ⟨s.self, b, s.sent ++ [r]⟩) hx
      | error e =>
        have h₁ : send B r (⟨x, s.broker, s.sent⟩ : Session τ β A C) =
            .error (.refused e) ⟨x, b, s.sent ++ [r]⟩ := by simp only [send, hr]
        have h₂ : send B r s = .error (.refused e) ⟨s.self, b, s.sent ++ [r]⟩ := by
          simp only [send, hr]
        rw [sendAll_cons_error h₁, sendAll_cons_error h₂]
        simp only [hx]

end AioPika
