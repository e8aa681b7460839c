import AioPika.Foundation.Ledger
import AioPika.Foundation.Runs
import AioPika.Queue.Robust

/-! # A restore among user calls

`RobustQueue.restore()` replays snapshots of the registries, one request after
another, and the user may bind, unbind, consume and cancel at every await in
between. The bindings and the consumers of a queue are ledgers: what a call or
the replay asks for is applied by the broker, and then recorded or forgotten
when the coroutine goes on.
-/

namespace AioPika.Replay

variable {A C : Type} [DecidableEq A]

/-- Where `restore()` is. -/
inductive RestorePc (A C : Type) where
  /-- not begun -/
  | idle
  /-- `await self.declare()` -/
  | declaring
  /-- In the first loop: the entries of `bindings` from the current one on, and `consumers`. -/
  | binding (bindings : List ((ExchangeParam × Name) × A))
      (consumers : List (ConsumerTag × ConsumeKwargs A C))
  /-- In the second loop. -/
  | consuming (consumers : List (ConsumerTag × ConsumeKwargs A C))
  | finished

/-- The registries of the queue, what is active at the broker, and the coroutines that run. -/
structure State (A C : Type) where
  name : Name
  /-- `_bindings` and the bindings of the queue at the broker, by exchange name, routing key and
  arguments. -/
  bindings : Ledger (ExchangeParam × Name) A (Name × Name × A)
  /-- `_consumers` and the consumer tags that are active on the underlay channel. -/
  consumers : Ledger ConsumerTag (ConsumeKwargs A C) ConsumerTag
  pc : RestorePc A C

inductive Action (A C : Type) where
  | bind (exchange : ExchangeParam) (routingKey : Option Name) (arguments : A) (robust : Bool)
  | unbind (exchange : ExchangeParam) (routingKey : Option Name) (arguments : A)
  | consume (kwargs : ConsumeKwargs A C) (consumerTag : ConsumerTag) (robust : Bool)
  | cancel (consumerTag : ConsumerTag)
  /-- The broker answers a call of the user. -/
  | bindingApplied (call : ℕ)
  | consumerApplied (call : ℕ)
  /-- A call of the user goes on after the answer and returns. -/
  | bindingReturned (call : ℕ)
  | consumerReturned (call : ℕ)
  /-- `restore()` is called, on an underlay channel without consumers of a broker that may have
  lost bindings. -/
  | restore (lost : Name × Name × A → Bool)
  /-- `declare()` returns, and the snapshots are taken. -/
  | declared
  /-- The current entry is requested, answered, and recorded again. -/
  | replayCalled
  | replayApplied
  | replayReturned

/-- What identifies a binding at the broker. -/
def bindingId (k : ExchangeParam × Name) (a : A) : Name × Name × A :=
  (getExchangeName k.1, k.2, a)

def consumerId (tag : ConsumerTag) (_ : ConsumeKwargs A C) : ConsumerTag := tag

namespace RestorePc

/-- A loop that is through goes on to what follows. -/
def advance : RestorePc A C → RestorePc A C
  | .binding [] [] => .finished
  | .binding [] consumers => .consuming consumers
  | .consuming [] => .finished
  | pc => pc

end RestorePc

def State.onBindings (s : State A C)
    (a : Ledger.Action (ExchangeParam × Name) A (Name × Name × A)) : Option (State A C) :=
  (Ledger.step bindingId s.bindings a).map fun l => { s with bindings := l }

def State.onConsumers (s : State A C)
    (a : Ledger.Action ConsumerTag (ConsumeKwargs A C) ConsumerTag) : Option (State A C) :=
  (Ledger.step consumerId s.consumers a).map fun l => { s with consumers := l }

def step (s : State A C) : Action A C → Option (State A C)
  | .bind exchange routingKey arguments robust =>
    s.onBindings (.subscribe (exchange, routingKey.getD s.name) arguments robust)
  | .unbind exchange routingKey arguments =>
    let key := (exchange, routingKey.getD s.name)
    s.onBindings (.unsubscribe key (bindingId key arguments))
  | .consume kwargs consumerTag robust => s.onConsumers (.subscribe consumerTag kwargs robust)
  | .cancel consumerTag => s.onConsumers (.unsubscribe consumerTag consumerTag)
  | .bindingApplied j => s.onBindings (.apply j)
  | .consumerApplied j => s.onConsumers (.apply j)
  | .bindingReturned j => s.onBindings (.return j)
  | .consumerReturned j => s.onConsumers (.return j)
  | .restore lost =>
    match s.pc with
    | .idle => some { s with
        bindings := s.bindings.begin lost
        consumers := s.consumers.begin fun _ => true
        pc := .declaring }
    | _ => none
  | .declared =>
    match s.pc with
    | .declaring =>
      some { s with
        pc := (RestorePc.binding s.bindings.entries.items s.consumers.entries.items).advance }
    | _ => none
  | .replayCalled =>
    match s.pc with
    | .binding (e :: _) _ => s.onBindings (.replayCall e.1 e.2)
    | .consuming (e :: _) => s.onConsumers (.replayCall e.1 e.2)
    | _ => none
  | .replayApplied =>
    match s.pc with
    | .binding _ _ => s.onBindings .replayApply
    | .consuming _ => s.onConsumers .replayApply
    | _ => none
  | .replayReturned =>
    match s.pc with
    | .binding (_ :: todo) consumers =>
      (s.onBindings .replayReturn).map fun t =>
        { t with pc := (RestorePc.binding todo consumers).advance }
    | .consuming (_ :: todo) =>
      (s.onConsumers .replayReturn).map fun t => { t with pc := (RestorePc.consuming todo).advance }
    | _ => none

structure Initial (s : State A C) : Prop where
  pc : s.pc = .idle
  bindings : s.bindings.calls = [] ∧ s.bindings.replaying = none ∧ s.bindings.begun = false ∧
    s.bindings.dropped = []
  consumers : s.consumers.calls = [] ∧ s.consumers.replaying = none ∧
    s.consumers.begun = false ∧ s.consumers.dropped = []

structure Finished (s : State A C) : Prop where
  pc : s.pc = .finished
  bindings : s.bindings.calls = []
  consumers : s.consumers.calls = []

/-- What was unbound or cancelled since the restore began, and not asked for again, is neither
registered nor active. -/
structure Honoured (s : State A C) : Prop where
  bindings : ∀ i ∈ s.bindings.dropped, Ledger.Absent bindingId s.bindings i
  consumers : ∀ i ∈ s.consumers.dropped, Ledger.Absent consumerId s.consumers i

/-- A replayed entry is neither bound nor registered once its unbind has returned, nor bound
while an unbind of it has been answered and not returned; and an unbind leaves no entry of its
binding under another key. The same for consumers. -/
def Safe (s : State A C) : Action A C → Prop
  | .bindingReturned j => Ledger.Safe bindingId s.bindings (.return j)
  | .consumerReturned j => Ledger.Safe consumerId s.consumers (.return j)
  | .replayApplied =>
    Ledger.Safe bindingId s.bindings .replayApply ∧ Ledger.Safe consumerId s.consumers .replayApply
  | .replayReturned =>
    Ledger.Safe bindingId s.bindings .replayReturn ∧
      Ledger.Safe consumerId s.consumers .replayReturn
  | _ => True

instance (s : State A C) (a : Action A C) : Decidable (Safe s a) := by
  cases a <;> unfold Safe <;> infer_instance

structure Inv (s : State A C) : Prop where
  bindings : Ledger.Inv bindingId s.bindings
  consumers : Ledger.Inv consumerId s.consumers

variable {s t : State A C}

omit [DecidableEq A] in
theorem Initial.inv (h : Initial s) : Inv s := by
  obtain ⟨hb, -, -, hbd⟩ := h.bindings
  obtain ⟨hc, -, -, hcd⟩ := h.consumers
  constructor
  · exact ⟨by simp [hbd], by simp [hbd], by simp [hb], by simp [hb]⟩
  · exact ⟨by simp [hcd], by simp [hcd], by simp [hc], by simp [hc]⟩

theorem Inv.onBindings {a : Ledger.Action (ExchangeParam × Name) A (Name × Name × A)}
    (h : Inv s) (hok : Ledger.Safe bindingId s.bindings a) (hs : s.onBindings a = some t) :
    Inv t := by
  obtain ⟨l, hl, rfl⟩ := Option.map_eq_some_iff.mp hs
  exact ⟨h.bindings.step hok hl, h.consumers⟩

omit [DecidableEq A] in
theorem Inv.onConsumers {a : Ledger.Action ConsumerTag (ConsumeKwargs A C) ConsumerTag}
    (h : Inv s) (hok : Ledger.Safe consumerId s.consumers a) (hs : s.onConsumers a = some t) :
    Inv t := by
  obtain ⟨l, hl, rfl⟩ := Option.map_eq_some_iff.mp hs
  exact ⟨h.bindings, h.consumers.step hok hl⟩

omit [DecidableEq A] in
theorem Inv.pc (h : Inv s) (pc : RestorePc A C) : Inv { s with pc := pc } :=
  ⟨h.bindings, h.consumers⟩

theorem Inv.replayReturned (h : Inv s) (hok : Safe s .replayReturned)
    (hs : step s .replayReturned = some t) : Inv t := by
  simp only [step] at hs
  split at hs
  · obtain ⟨u, hu, rfl⟩ := Option.map_eq_some_iff.mp hs
    exact (h.onBindings hok.1 hu).pc _
  · obtain ⟨u, hu, rfl⟩ := Option.map_eq_some_iff.mp hs
    exact (h.onConsumers hok.2 hu).pc _
  · cases hs

theorem Inv.replayApplied (h : Inv s) (hok : Safe s .replayApplied)
    (hs : step s .replayApplied = some t) : Inv t := by
  simp only [step] at hs
  split at hs
  · exact h.onBindings hok.1 hs
  · exact h.onConsumers hok.2 hs
  · cases hs

theorem Inv.step {a : Action A C} (h : Inv s) (hok : Safe s a) (hs : step s a = some t) :
    Inv t := by
  cases a with
  | bind => exact h.onBindings (a := .subscribe _ _ _) trivial hs
  | unbind => exact h.onBindings (a := .unsubscribe _ _) trivial hs
  | consume => exact h.onConsumers (a := .subscribe _ _ _) trivial hs
  | cancel => exact h.onConsumers (a := .unsubscribe _ _) trivial hs
  | bindingApplied j => exact h.onBindings (a := .apply j) trivial hs
  | consumerApplied j => exact h.onConsumers (a := .apply j) trivial hs
  | bindingReturned j => exact h.onBindings (a := .return j) hok hs
  | consumerReturned j => exact h.onConsumers (a := .return j) hok hs
  | replayApplied => exact h.replayApplied hok hs
  | replayReturned => exact h.replayReturned hok hs
  | restore lost =>
    simp only [Replay.step] at hs
    split at hs
    · obtain rfl := Option.some.inj hs
      exact ⟨h.bindings.begin lost, h.consumers.begin _⟩
    · cases hs
  | declared =>
    simp only [Replay.step] at hs
    split at hs
    · obtain rfl := Option.some.inj hs
      exact h.pc _
    · cases hs
  | replayCalled =>
    simp only [Replay.step] at hs
    split at hs
    · exact h.onBindings (a := .replayCall _ _) trivial hs
    · exact h.onConsumers (a := .replayCall _ _) trivial hs
    · cases hs

/-- In a run whose steps are all safe, what was unbound or cancelled since the restore began,
and not asked for again, is at no point registered or active. -/
theorem unsubscriptions_stand (h : Transition.Reach Initial step Safe s) : Honoured s := by
  have hinv : Inv s := h.invariant (fun _ hi => hi.inv) fun _ _ _ hi hok hs => hi.step hok hs
  exact ⟨hinv.bindings.absent, hinv.consumers.absent⟩

/-- A queue with two bindings and a consumer, at a broker that has kept the bindings. -/
def twoBindings : State ℕ Unit where
  name := "queue"
  bindings := ⟨(Dict.empty.set (.name "exchange", "one") 0).set (.name "exchange", "two") 0,
    [("exchange", "one", 0), ("exchange", "two", 0)], [], none, false, []⟩
  consumers := ⟨Dict.empty.set "tag" ⟨(), false, false, 0⟩, [], [], none, false, []⟩
  pc := .idle

theorem twoBindings_initial : Initial twoBindings :=
  ⟨rfl, ⟨rfl, rfl, rfl, rfl⟩, ⟨rfl, rfl, rfl, rfl⟩⟩

/-- The second binding is unbound while the first is replayed. -/
def unboundDuringReplay : List (Action ℕ Unit) :=
  [.restore fun _ => false, .declared, .replayCalled,
    .unbind (.name "exchange") (some "two") 0, .bindingApplied 0, .bindingReturned 0,
    .replayApplied, .replayReturned, .replayCalled, .replayApplied, .replayReturned,
    .replayCalled, .replayApplied, .replayReturned]

/-- The second binding is unbound while the consumer is replayed. -/
def unboundAfterReplay : List (Action ℕ Unit) :=
  [.restore fun _ => false, .declared, .replayCalled, .replayApplied, .replayReturned,
    .replayCalled, .replayApplied, .replayReturned, .replayCalled,
    .unbind (.name "exchange") (some "two") 0, .bindingApplied 0, .bindingReturned 0,
    .replayApplied, .replayReturned]

/-- The run is safe, and the unbound binding stays away. -/
theorem unbound_after_replay : ∃ s, Transition.checked step Safe twoBindings unboundAfterReplay =
    some s ∧ Honoured s ∧ ("exchange", "two", 0) ∈ s.bindings.dropped :=
  ⟨_, rfl, unsubscriptions_stand
    (Transition.Reach.of_checked unboundAfterReplay twoBindings_initial rfl), by decide⟩

/-- The entry is replayed from the snapshot, and so bound and registered again. -/
theorem unbound_during_replay : ∃ s : State ℕ Unit,
    Transition.Reach Initial step (fun _ _ => True) s ∧ Finished s ∧ ¬ Honoured s :=
  ⟨_, Transition.Reach.of_checked unboundDuringReplay twoBindings_initial rfl,
    ⟨rfl, rfl, rfl⟩, fun h => (h.bindings ("exchange", "two", 0) (by decide)).1 (by decide)⟩

end AioPika.Replay
