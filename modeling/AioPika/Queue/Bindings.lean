import AioPika.Broker.Amqp
import AioPika.Foundation.Mirror
import AioPika.Foundation.Runs
import AioPika.Queue.Robust

/-! # Queue bindings across recovery

The registry of a robust queue has one entry for each exchange parameter and
routing key, while the broker distinguishes bindings by exchange name, routing
key and arguments. The two stay in step along a run of successful calls exactly
when no call drops the only record of a binding that stays at the broker, or
keeps a record of the binding that it removes.
-/

namespace AioPika.RobustQueue

variable {A C : Type} [DecidableEq A]

/-- What identifies the binding that a registry entry stands for. -/
def bindingId (k : ExchangeParam × Name) (a : A) : Name × Name × A :=
  (getExchangeName k.1, k.2, a)

inductive BindingOp (A : Type) where
  | bind (exchange : ExchangeParam) (routingKey : Option Name) (arguments : A)
  | unbind (exchange : ExchangeParam) (routingKey : Option Name) (arguments : A)
  /-- A restore after the broker has lost some of the bindings, or the queue too. -/
  | restore (lost : Binding A → Bool) (queueLost : Bool)

/-- A session after the broker has lost some bindings, or the queue with some bindings. -/
def lose (s : Session (RobustQueue A C) (Amqp A) A C) (lost : Binding A → Bool)
    (queueLost : Bool) : Session (RobustQueue A C) (Amqp A) A C :=
  { s with
    broker := { s.broker with
      queues := s.broker.queues.filter fun n => ¬ (queueLost ∧ n = s.self.name)
      bindings := s.broker.bindings.filter fun x => ¬ lost x }
    sent := [] }

def performBinding (s : Session (RobustQueue A C) (Amqp A) A C) :
    BindingOp A → Option (Session (RobustQueue A C) (Amqp A) A C)
  | .bind exchange routingKey arguments =>
    match bind Amqp.amqp.toBroker exchange routingKey arguments true s with
    | .ok _ t => some t
    | .error _ _ => none
  | .unbind exchange routingKey arguments =>
    match unbind Amqp.amqp.toBroker exchange routingKey arguments s with
    | .ok _ t => some t
    | .error _ _ => none
  | .restore lost queueLost =>
    match restore Amqp.amqp.toBroker (lose s lost queueLost) with
    | .ok _ t => some t
    | .error _ _ => none

/-- The bindings of the queue that exist at the broker. -/
def existing (s : Session (RobustQueue A C) (Amqp A) A C) : Set (Name × Name × A) :=
  s.broker.bindingsOf (.queue s.self.name)

/-- The bindings of the queue that a restore creates at a broker that has lost them all. -/
def recreated (s : Session (RobustQueue A C) (Amqp A) A C) : Set (Name × Name × A) :=
  match restore Amqp.amqp.toBroker (lose s (fun _ => true) false) with
  | .ok _ t | .error _ t => existing t

def declared (q : RobustQueue A C) (b : Amqp A) : Session (RobustQueue A C) (Amqp A) A C where
  self := { q with name := b.queueName q.name, bindings := .empty }
  broker := { b with
    queues := b.queueName q.name :: b.queues
    bindings := b.bindings.filter fun x => x.destination ≠ .queue (b.queueName q.name) }
  sent := []

/-- A binding is also recorded under another key of the registry. -/
abbrev RecordedElsewhere (q : RobustQueue A C) (k : ExchangeParam × Name)
    (i : Name × Name × A) : Prop :=
  q.bindings.Elsewhere bindingId k i

/-- The call neither drops the only record of a binding that stays at the broker, nor keeps a
record of the binding that it removes. -/
def KeepsRecord (s : Session (RobustQueue A C) (Amqp A) A C) : BindingOp A → Prop
  | .bind p k a =>
    let key := (p, k.getD s.self.name)
    ∀ a₀, s.self.bindings.get? key = some a₀ → a₀ ≠ a →
      RecordedElsewhere s.self key (bindingId key a₀)
  | .unbind p k a =>
    let key := (p, k.getD s.self.name)
    (∀ a₀, s.self.bindings.get? key = some a₀ → a₀ ≠ a →
      RecordedElsewhere s.self key (bindingId key a₀)) ∧
    ¬ RecordedElsewhere s.self key (bindingId key a)
  | .restore _ _ => True

/-- The queue and the exchanges that it has recorded exist at the broker. -/
structure Grounded (s : Session (RobustQueue A C) (Amqp A) A C) : Prop where
  name_ne : s.self.name ≠ ""
  queue_mem : s.self.name ∈ s.broker.queues
  has_exchange : ∀ k a, s.self.bindings.get? k = some a →
    s.broker.has (.exchange (getExchangeName k.1)) = true

variable {s t : Session (RobustQueue A C) (Amqp A) A C} {p : ExchangeParam}
  {k : Option Name} {a : A}

theorem performBinding_bind (h : performBinding s (.bind p k a) = some t) :
    s.self.name ∈ s.broker.queues ∧ s.broker.has (.exchange (getExchangeName p)) = true ∧
      t.self = { s.self with
        bindings := s.self.bindings.set (p, k.getD s.self.name) a } ∧
      t.broker =
        s.broker.addBinding ⟨.queue s.self.name, getExchangeName p, k.getD s.self.name, a⟩ := by
  cases hb : bind Amqp.amqp.toBroker p k a true s with
  | error e u => simp [performBinding, hb] at h
  | ok r u =>
    simp only [performBinding, hb, Option.some.injEq] at h
    subst h
    obtain ⟨hbr, -, hself⟩ := bind_ok hb
    obtain ⟨hq, hx, hadd⟩ := Amqp.bind_ok hbr
    exact ⟨by simpa [Amqp.has] using hq, hx, hself, hadd⟩

theorem performBinding_unbind (h : performBinding s (.unbind p k a) = some t) :
    t.self = { s.self with
      bindings := s.self.bindings.pop (p, k.getD s.self.name) } ∧
      t.broker =
        s.broker.removeBinding ⟨.queue s.self.name, getExchangeName p, k.getD s.self.name, a⟩ := by
  cases hb : unbind Amqp.amqp.toBroker p k a s with
  | error e u => simp [performBinding, hb] at h
  | ok r u =>
    simp only [performBinding, hb, Option.some.injEq] at h
    subst h
    obtain ⟨hbr, -, hself⟩ := unbind_ok hb
    exact ⟨hself, (congrArg Prod.snd hbr).symm⟩

/-- On a broker that has the recorded exchanges, a restore succeeds once the queue is
declared, and adds the recorded bindings. -/
theorem restore_amqp (hn : s.self.name ≠ "")
    (hx : ∀ k a, s.self.bindings.get? k = some a →
      s.broker.has (.exchange (getExchangeName k.1)) = true)
    (hd : s.self.name ∈ s.broker.queues ∨ s.self.passive = false) :
    ∃ t, restore Amqp.amqp.toBroker s = .ok () t ∧ t.self = s.self ∧
      t.broker.exchanges = s.broker.exchanges ∧ s.self.name ∈ t.broker.queues ∧
      existing t = existing s ∪ s.self.bindings.image bindingId := by
  -- the declaration is granted
  obtain ⟨b, hb, hbx, hbq, hbb⟩ : ∃ b, Amqp.handle (C := C) s.self.declareRequest s.broker =
      (.ok { queue := some s.self.name }, b) ∧ b.exchanges = s.broker.exchanges ∧
      s.self.name ∈ b.queues ∧ b.bindings = s.broker.bindings := by
    by_cases hq : s.self.name ∈ s.broker.queues
    · exact ⟨s.broker, by simp [declareRequest, Amqp.handle, Amqp.queueName, hn, hq], rfl, hq, rfl⟩
    · refine ⟨{ s.broker with
        queues := s.self.name :: s.broker.queues
        generated := s.broker.generated + 1 }, ?_, rfl, by simp, rfl⟩
      simp [declareRequest, Amqp.handle, Amqp.queueName, hn, hq, hd.resolve_left hq]
  -- then every binding, and every consumer
  have hbinds := Amqp.sendAll_binds
    (s := { s with broker := b, sent := s.sent ++ [s.self.declareRequest] })
    (l := s.self.bindings.items) (f := s.self.bindRequest)
    (x := fun e => ⟨.queue s.self.name, getExchangeName e.1.1, e.1.2, e.2⟩)
    (fun e _ b => rfl) (fun e _ => by simpa [Amqp.has] using hbq)
    (fun e he => by
      simpa only [Amqp.has, hbx] using hx e.1 e.2 (Dict.mem_items_iff.mp he))
  have hcons := fun w : Session (RobustQueue A C) (Amqp A) A C =>
    fun hw : s.self.name ∈ w.broker.queues =>
      Amqp.sendAll_neutral (s := w) (l := s.self.consumers.items.map s.self.consumeRequest)
        (fun r hr => by
          obtain ⟨e, -, rfl⟩ := List.mem_map.mp hr
          exact ⟨{ consumerTag := some e.1 }, by simp [consumeRequest, Amqp.handle, hw]⟩)
  have hrun := (restore_run hn).trans ((sendAll_cons_ok (Amqp.send_amqp hb)).trans
    ((sendAll_append_ok hbinds).trans (hcons _ hbq)))
  refine ⟨_, hrun, rfl, hbx, hbq, ?_⟩
  ext ⟨n, k, a⟩
  simp only [existing, Amqp.mem_bindingsOf, hbb, List.mem_append, List.mem_reverse,
    List.mem_map, Set.mem_union, Binding.mk.injEq, true_and]
  rw [or_comm]
  apply or_congr Iff.rfl
  constructor
  · rintro ⟨⟨k', a'⟩, he, rfl, rfl, rfl⟩
    exact ⟨k', a', Dict.mem_items_iff.mp he, rfl⟩
  · rintro ⟨k', a', hk, hi⟩
    cases hi
    exact ⟨(k', _), Dict.mem_items_iff.mpr hk, rfl, rfl, rfl⟩

theorem restore_passive (hn : s.self.name ≠ "") (hq : s.self.name ∉ s.broker.queues)
    (hp : s.self.passive = true) : ∃ e t, restore Amqp.amqp.toBroker s = .error e t := by
  have hd : Amqp.handle (C := C) s.self.declareRequest s.broker =
      (.error (.notFound (.queue s.self.name)), s.broker) := by
    simp [declareRequest, Amqp.handle, Amqp.queueName, hn, hq, hp]
  exact ⟨_, _, (restore_run hn).trans (sendAll_cons_error (Amqp.send_amqp_error hd))⟩

theorem performBinding_restore {lost : Binding A → Bool} {queueLost : Bool}
    (hg : Grounded s) (h : performBinding s (.restore lost queueLost) = some t) :
    t.self = s.self ∧ t.broker.exchanges = s.broker.exchanges ∧
      s.self.name ∈ t.broker.queues ∧
      existing t = existing (lose s lost queueLost) ∪ s.self.bindings.image bindingId := by
  have hd : (lose s lost queueLost).self.name ∈ (lose s lost queueLost).broker.queues ∨
      (lose s lost queueLost).self.passive = false := by
    by_contra hn
    rw [not_or, Bool.not_eq_false] at hn
    obtain ⟨e, u, hu⟩ := restore_passive (s := lose s lost queueLost) hg.name_ne hn.1 hn.2
    simp [performBinding, hu] at h
  obtain ⟨u, hu, hself, hx, hq, he⟩ :=
    restore_amqp (s := lose s lost queueLost) hg.name_ne hg.has_exchange hd
  simp only [performBinding, hu, Option.some.injEq] at h
  subst h
  exact ⟨hself, hx, hq, he⟩

theorem Grounded.step {op : BindingOp A} (hg : Grounded s) (h : performBinding s op = some t) :
    Grounded t := by
  cases op with
  | bind p k a =>
    obtain ⟨hq, hx, hself, hb⟩ := performBinding_bind h
    refine ⟨by rw [hself]; exact hg.name_ne, ?_, ?_⟩
    · rw [hself, hb]; exact hq
    · intro k' a' hk
      rw [hself, Dict.get?_set] at hk
      rw [hb]
      split at hk
      · rename_i hk'; subst hk'; exact hx
      · exact hg.has_exchange k' a' hk
  | unbind p k a =>
    obtain ⟨hself, hb⟩ := performBinding_unbind h
    refine ⟨by rw [hself]; exact hg.name_ne, ?_, ?_⟩
    · rw [hself, hb]; exact hg.queue_mem
    · intro k' a' hk
      rw [hself] at hk
      rw [hb]
      exact hg.has_exchange k' a' (Dict.of_get?_pop hk).2
  | restore lost queueLost =>
    obtain ⟨hself, hx, hq, -⟩ := performBinding_restore hg h
    refine ⟨by rw [hself]; exact hg.name_ne, ?_, ?_⟩
    · rw [hself]; exact hq
    · simpa only [hself, Amqp.has, hx] using hg.has_exchange

theorem recreated_eq (hg : Grounded s) : recreated s = s.self.bindings.image bindingId := by
  have hq : s.self.name ∈ (lose s (fun _ => true) false).broker.queues := by
    simpa [lose] using hg.queue_mem
  obtain ⟨t, ht, -, -, -, he⟩ := restore_amqp (s := lose s (fun _ => true) false)
    hg.name_ne hg.has_exchange (Or.inl hq)
  have hnone : existing (lose s (fun _ => true) false) = ∅ := by
    ext ⟨n, k, a⟩
    simp [existing, Amqp.mem_bindingsOf, lose]
  simp only [recreated, ht, he, hnone, Set.empty_union]
  rfl

/-- A restore creates the bindings of the queue that exist at the broker. -/
def Faithful (s : Session (RobustQueue A C) (Amqp A) A C) : Prop :=
  recreated s = existing s

/-- A call keeps the registry and the broker in step exactly when it keeps the record. -/
theorem faithful_step {op : BindingOp A} (hg : Grounded s) (hf : Faithful s)
    (h : performBinding s op = some t) : Faithful t ↔ KeepsRecord s op := by
  have hgt := hg.step h
  rw [Faithful, recreated_eq hg] at hf
  rw [Faithful, recreated_eq hgt]
  cases op with
  | bind p k a =>
    obtain ⟨-, -, hself, hb⟩ := performBinding_bind h
    have he : existing t =
        insert (bindingId (p, k.getD s.self.name) a) (s.self.bindings.image bindingId) := by
      rw [existing, hself, hb, hf]
      exact Amqp.bindingsOf_addBinding
    rw [he, hself]
    refine Dict.image_set_iff.trans (forall_congr' fun a₀ => imp_congr_right fun _ => ?_)
    simp [bindingId]
  | unbind p k a =>
    obtain ⟨hself, hb⟩ := performBinding_unbind h
    have he : existing t =
        s.self.bindings.image bindingId \ {bindingId (p, k.getD s.self.name) a} := by
      rw [existing, hself, hb, hf]
      exact Amqp.bindingsOf_removeBinding
    rw [he, hself]
    refine Dict.image_pop_iff.trans (and_congr (forall_congr' fun a₀ =>
      imp_congr_right fun _ => ?_) Iff.rfl)
    simp [bindingId]
  | restore lost queueLost =>
    obtain ⟨hself, -, -, he⟩ := performBinding_restore hg h
    have hsub : existing (lose s lost queueLost) ⊆ s.self.bindings.image bindingId := by
      rw [hf]
      rintro ⟨n, k, a⟩ hi
      exact (List.mem_filter.mp hi).1
    rw [he, hself, Set.union_eq_right.mpr hsub]
    exact iff_of_true rfl trivial

omit [DecidableEq A] in
theorem declared_grounded (q : RobustQueue A C) (b : Amqp A) : Grounded (declared q b) :=
  ⟨Amqp.queueName_ne, by simp [declared], by simp [declared]⟩

theorem declared_faithful (q : RobustQueue A C) (b : Amqp A) : Faithful (declared q b) := by
  rw [Faithful, recreated_eq (declared_grounded q b)]
  ext ⟨n, k, a⟩
  simp [Dict.image, declared, existing, Amqp.mem_bindingsOf]

/-- Along a history of successful calls and restores, a restore creates exactly the bindings
of the queue that exist at the broker, at every point, if and only if every call keeps the
record. -/
theorem bindings_survive_iff (q : RobustQueue A C) (b : Amqp A) (ops : List (BindingOp A)) :
    Transition.Throughout performBinding Faithful (declared q b) ops ↔
      Transition.EachStep performBinding KeepsRecord (declared q b) ops :=
  Transition.throughout_iff_eachStep (fun _ _ _ hg _ h _ => hg.step h)
    (fun _ _ _ hg hf h => faithful_step hg hf h) (declared_grounded q b) (declared_faithful q b)

def headersHistory : List (BindingOp ℕ) :=
  [.bind (.name "headers") (some "") 1, .bind (.name "headers") (some "") 2]

def headersQueue : RobustQueue ℕ Unit :=
  ⟨"queue", false, false, false, false, 0, .empty, .empty⟩

/-- Both bindings exist at the broker, and the registry has a record of the second only. -/
theorem second_arguments_replace_first : ¬ Transition.Throughout performBinding Faithful
    (declared headersQueue ⟨["headers"], [], [], 0⟩) headersHistory := by
  intro h
  have hstep := (Transition.throughout_iff_eachStep (J := Grounded)
    (fun _ _ _ hg _ h _ => hg.step h) (fun _ _ _ hg hf h => faithful_step hg hf h)
    (declared_grounded _ _) (declared_faithful _ _)).mp h
  -- the arguments of the first binding would have to be kept under another key
  obtain ⟨k', v, hne, hk, -⟩ := ((hstep _ rfl).2 _ rfl).1 1 rfl (by decide)
  replace hk : (Dict.empty.set (.name "headers", "") 1).get? k' = some v := hk
  replace hne : k' ≠ (.name "headers", "") := hne
  rw [Dict.get?_set_ne hne, Dict.get?_empty] at hk
  cases hk

end AioPika.RobustQueue
