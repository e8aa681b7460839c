import AioPika.Broker.Amqp
import AioPika.Exchange.Robust
import AioPika.Foundation.Mirror
import AioPika.Foundation.Runs

/-! # Exchange-to-exchange bindings across recovery

The registry of a robust exchange has one entry for each source exchange, while
the broker distinguishes incoming bindings by source name, routing key and
arguments. A second binding from one source takes the place of the first, and
an unbind forgets whatever is recorded for its source.
-/

namespace AioPika.RobustExchange

variable {A C : Type} [DecidableEq A]

/-- What identifies the binding that a registry entry stands for. -/
def bindingId (p : ExchangeParam) (v : ExchangeBindKwargs A) : Name × Name × A :=
  (getExchangeName p, v.routingKey, v.arguments)

inductive BindingOp (A : Type) where
  | bind (exchange : ExchangeParam) (routingKey : Name) (arguments : A)
  | unbind (exchange : ExchangeParam) (routingKey : Name) (arguments : A)
  /-- A restore after the broker has lost some of the bindings, or the exchange too. -/
  | restore (lost : Binding A → Bool) (exchangeLost : Bool)

/-- A session after the broker has lost some bindings, or the exchange with some bindings. -/
def lose (s : Session (RobustExchange A) (Amqp A) A C) (lost : Binding A → Bool)
    (exchangeLost : Bool) : Session (RobustExchange A) (Amqp A) A C :=
  { s with
    broker := { s.broker with
      exchanges := s.broker.exchanges.filter fun n => ¬ (exchangeLost ∧ n = s.self.name)
      bindings := s.broker.bindings.filter fun x => ¬ lost x }
    sent := [] }

def performBinding (s : Session (RobustExchange A) (Amqp A) A C) :
    BindingOp A → Option (Session (RobustExchange A) (Amqp A) A C)
  | .bind exchange routingKey arguments =>
    match bind Amqp.amqp.toBroker exchange routingKey arguments true s with
    | .ok _ t => some t
    | .error _ _ => none
  | .unbind exchange routingKey arguments =>
    match unbind Amqp.amqp.toBroker exchange routingKey arguments s with
    | .ok _ t => some t
    | .error _ _ => none
  | .restore lost exchangeLost =>
    match restore Amqp.amqp.toBroker (lose s lost exchangeLost) with
    | .ok _ t => some t
    | .error _ _ => none

/-- The incoming bindings of the exchange that exist at the broker. -/
def existing (s : Session (RobustExchange A) (Amqp A) A C) : Set (Name × Name × A) :=
  s.broker.bindingsOf (.exchange s.self.name)

/-- The bindings of the exchange that a restore creates at a broker that has lost them all. -/
def recreated (s : Session (RobustExchange A) (Amqp A) A C) : Set (Name × Name × A) :=
  match restore Amqp.amqp.toBroker (lose s (fun _ => true) false) with
  | .ok _ t | .error _ t => existing t

def declared (x : RobustExchange A) (b : Amqp A) :
    Session (RobustExchange A) (Amqp A) A C where
  self := { x with hasChannel := true, bindings := .empty }
  broker := { b with
    exchanges := x.name :: b.exchanges
    bindings := b.bindings.filter fun y => y.destination ≠ .exchange x.name }
  sent := []

/-- A binding is also recorded under another parameter. -/
abbrev RecordedElsewhere (x : RobustExchange A) (p : ExchangeParam) (i : Name × Name × A) :
    Prop :=
  x.bindings.Elsewhere bindingId p i

/-- The call neither drops the only record of a binding that stays at the broker, nor keeps a
record of the binding that it removes. -/
def KeepsRecord (s : Session (RobustExchange A) (Amqp A) A C) : BindingOp A → Prop
  | .bind p k a =>
    ∀ v₀, s.self.bindings.get? p = some v₀ → v₀ ≠ ⟨k, a⟩ →
      RecordedElsewhere s.self p (bindingId p v₀)
  | .unbind p k a =>
    (∀ v₀, s.self.bindings.get? p = some v₀ → v₀ ≠ ⟨k, a⟩ →
      RecordedElsewhere s.self p (bindingId p v₀)) ∧
    ¬ RecordedElsewhere s.self p (bindingId p ⟨k, a⟩)
  | .restore _ _ => True

/-- The exchange and the sources that it has recorded exist at the broker, and the default
exchange has recorded none. -/
structure Grounded (s : Session (RobustExchange A) (Amqp A) A C) : Prop where
  hasChannel : s.self.hasChannel = true
  exchange_mem : s.self.name ≠ "" → s.self.name ∈ s.broker.exchanges
  has_source : ∀ p v, s.self.bindings.get? p = some v →
    s.self.name ≠ "" ∧ s.broker.has (.exchange (getExchangeName p)) = true

variable {s t : Session (RobustExchange A) (Amqp A) A C} {p : ExchangeParam} {k : Name} {a : A}

omit [DecidableEq A] in
theorem bindingId_eq_iff {v w : ExchangeBindKwargs A} :
    bindingId p v = bindingId p w ↔ v = w := by
  obtain ⟨k, a⟩ := v
  obtain ⟨k', a'⟩ := w
  simp [bindingId]

theorem performBinding_bind (h : performBinding s (.bind p k a) = some t) :
    s.broker.has (.exchange s.self.name) = true ∧
      s.broker.has (.exchange (getExchangeName p)) = true ∧
      t.self = { s.self with bindings := s.self.bindings.set p ⟨k, a⟩ } ∧
      t.broker = s.broker.addBinding ⟨.exchange s.self.name, getExchangeName p, k, a⟩ := by
  cases hb : bind Amqp.amqp.toBroker p k a true s with
  | error e u => simp [performBinding, hb] at h
  | ok r u =>
    simp only [performBinding, hb, Option.some.injEq] at h
    subst h
    obtain ⟨-, hbr, -, hself⟩ := bind_ok hb
    obtain ⟨hd, hx, hadd⟩ := Amqp.bind_ok hbr
    exact ⟨hd, hx, hself, hadd⟩

theorem performBinding_unbind (h : performBinding s (.unbind p k a) = some t) :
    t.self = { s.self with bindings := s.self.bindings.pop p } ∧
      t.broker = s.broker.removeBinding ⟨.exchange s.self.name, getExchangeName p, k, a⟩ := by
  cases hb : unbind Amqp.amqp.toBroker p k a s with
  | error e u => simp [performBinding, hb] at h
  | ok r u =>
    simp only [performBinding, hb, Option.some.injEq] at h
    subst h
    obtain ⟨-, hbr, -, hself⟩ := unbind_ok hb
    exact ⟨hself, (congrArg Prod.snd hbr).symm⟩

theorem restore_default (hn : s.self.name = "") :
    restore Amqp.amqp.toBroker s = .ok () s := by
  unfold restore
  rw [getSelf_bind]
  simp only [hn, if_true]
  rfl

/-- On a broker that has the recorded sources, a restore succeeds once the exchange is
declared, and adds the recorded bindings. -/
theorem restore_amqp (hc : s.self.hasChannel = true) (hn : s.self.name ≠ "")
    (hx : ∀ p v, s.self.bindings.get? p = some v → getExchangeName p ≠ "" ∧
      (getExchangeName p = s.self.name ∨ getExchangeName p ∈ s.broker.exchanges))
    (hd : s.self.name ∈ s.broker.exchanges ∨ s.self.passive = false) :
    ∃ t, restore Amqp.amqp.toBroker s = .ok () t ∧ t.self = s.self ∧
      s.self.name ∈ t.broker.exchanges ∧ (∀ n ∈ s.broker.exchanges, n ∈ t.broker.exchanges) ∧
      existing t = existing s ∪ s.self.bindings.image bindingId := by
  -- the declaration is granted
  obtain ⟨b, hb, hbn, hbx, hbb⟩ : ∃ b, Amqp.handle (C := C) s.self.declareRequest s.broker =
      (.ok {}, b) ∧ s.self.name ∈ b.exchanges ∧ (∀ n ∈ s.broker.exchanges, n ∈ b.exchanges) ∧
      b.bindings = s.broker.bindings := by
    by_cases hq : s.self.name ∈ s.broker.exchanges
    · exact ⟨s.broker, by simp [declareRequest, Amqp.handle, hn, hq], hq, fun n h => h, rfl⟩
    · refine ⟨{ s.broker with exchanges := s.self.name :: s.broker.exchanges }, ?_,
        List.mem_cons_self, fun n h => List.mem_cons_of_mem _ h, rfl⟩
      simp [declareRequest, Amqp.handle, hn, hq, hd.resolve_left hq]
  -- then every binding
  have hbinds := Amqp.sendAll_binds
    (s := { s with broker := b, sent := s.sent ++ [s.self.declareRequest] })
    (l := s.self.bindings.items) (f := s.self.bindRequest)
    (x := fun e => ⟨.exchange s.self.name, getExchangeName e.1, e.2.routingKey, e.2.arguments⟩)
    (fun e _ b => rfl) (fun e _ => by simp [Amqp.has, hn, hbn])
    (fun e he => by
      obtain ⟨hne, hs⟩ := hx e.1 e.2 (Dict.mem_items_iff.mp he)
      rcases hs with hs | hs
      · simp [Amqp.has, hs, hn, hbn]
      · simp [Amqp.has, hne, hbx _ hs])
  have hplan : s.self.restorePlan = s.self.declareRequest ::
      s.self.bindings.items.map (s.self.bindRequest (C := C)) := if_neg hn
  have hrun := (hplan ▸ restore_run hc).trans ((sendAll_cons_ok (Amqp.send_amqp hb)).trans hbinds)
  refine ⟨_, hrun, rfl, hbn, hbx, ?_⟩
  ext ⟨n, k, a⟩
  simp only [existing, Amqp.mem_bindingsOf, hbb, List.mem_append, List.mem_reverse,
    List.mem_map, Set.mem_union, Binding.mk.injEq, true_and]
  rw [or_comm]
  apply or_congr Iff.rfl
  constructor
  · rintro ⟨⟨p', v⟩, he, rfl, rfl, rfl⟩
    exact ⟨p', v, Dict.mem_items_iff.mp he, rfl⟩
  · rintro ⟨p', v, hk, hi⟩
    cases hi
    exact ⟨(p', v), Dict.mem_items_iff.mpr hk, rfl, rfl, rfl⟩

theorem restore_passive (hc : s.self.hasChannel = true) (hn : s.self.name ≠ "")
    (hq : s.self.name ∉ s.broker.exchanges) (hp : s.self.passive = true) :
    ∃ e t, restore Amqp.amqp.toBroker s = .error e t := by
  have hd : Amqp.handle (C := C) s.self.declareRequest s.broker =
      (.error (.notFound (.exchange s.self.name)), s.broker) := by
    simp [declareRequest, Amqp.handle, hn, hq, hp]
  rw [restore_run hc, restorePlan, if_neg hn, sendAll_cons_error (Amqp.send_amqp_error hd)]
  exact ⟨_, _, rfl⟩

omit [DecidableEq A] in
theorem image_default (hg : Grounded s) (hn : s.self.name = "") :
    s.self.bindings.image bindingId = ∅ := by
  ext i
  constructor
  · rintro ⟨p, v, hp, -⟩
    exact absurd hn (hg.has_source p v hp).1
  · rintro ⟨⟩

theorem performBinding_restore {lost : Binding A → Bool} {exchangeLost : Bool}
    (hg : Grounded s) (h : performBinding s (.restore lost exchangeLost) = some t) :
    t.self = s.self ∧ (s.self.name ≠ "" → s.self.name ∈ t.broker.exchanges) ∧
      (∀ n ∈ s.broker.exchanges, n ≠ "" → n ∈ t.broker.exchanges) ∧
      existing t = existing (lose s lost exchangeLost) ∪ s.self.bindings.image bindingId := by
  have hlose : ∀ n ∈ s.broker.exchanges, n = s.self.name ∨
      n ∈ (lose s lost exchangeLost).broker.exchanges := by
    intro n hm
    by_cases hne : n = s.self.name
    · exact Or.inl hne
    · exact Or.inr (List.mem_filter.mpr ⟨hm, by simp [hne]⟩)
  by_cases hn : s.self.name = ""
  · have hr := restore_default (s := lose s lost exchangeLost) hn
    simp only [performBinding, hr, Option.some.injEq] at h
    subst h
    refine ⟨rfl, fun h => absurd hn h, fun n hm hne => ?_, ?_⟩
    · exact (hlose n hm).resolve_left (hn ▸ hne)
    · rw [image_default hg hn, Set.union_empty]
  · have hd : (lose s lost exchangeLost).self.name ∈
          (lose s lost exchangeLost).broker.exchanges ∨
        (lose s lost exchangeLost).self.passive = false := by
      by_contra hno
      rw [not_or, Bool.not_eq_false] at hno
      obtain ⟨e, u, hu⟩ := restore_passive (s := lose s lost exchangeLost)
        hg.hasChannel hn hno.1 hno.2
      simp [performBinding, hu] at h
    obtain ⟨u, hu, hself, hx, hxs, he⟩ := restore_amqp (s := lose s lost exchangeLost)
      hg.hasChannel hn (fun p v hp => by
        have hs := (hg.has_source p v hp).2
        simp only [Amqp.has, decide_eq_true_eq] at hs
        exact ⟨hs.1, hlose _ hs.2⟩) hd
    simp only [performBinding, hu, Option.some.injEq] at h
    subst h
    refine ⟨hself, fun _ => hx, fun n hm _ => ?_, he⟩
    rcases hlose n hm with rfl | hm
    · exact hx
    · exact hxs n hm

theorem Grounded.step {op : BindingOp A} (hg : Grounded s) (h : performBinding s op = some t) :
    Grounded t := by
  cases op with
  | bind p k a =>
    obtain ⟨hd, hx, hself, hb⟩ := performBinding_bind h
    refine ⟨by rw [hself]; exact hg.hasChannel, ?_, ?_⟩
    · rw [hself, hb]; exact hg.exchange_mem
    · intro p' v' hk
      have hn : s.self.name ≠ "" := by
        simp only [Amqp.has, decide_eq_true_eq] at hd
        exact hd.1
      rw [hself, Dict.get?_set] at hk
      rw [hself, hb]
      refine ⟨hn, ?_⟩
      split at hk
      · rename_i hp; subst hp; exact hx
      · exact (hg.has_source p' v' hk).2
  | unbind p k a =>
    obtain ⟨hself, hb⟩ := performBinding_unbind h
    refine ⟨by rw [hself]; exact hg.hasChannel, ?_, ?_⟩
    · rw [hself, hb]; exact hg.exchange_mem
    · intro p' v' hk
      rw [hself] at hk
      rw [hself, hb]
      exact hg.has_source p' v' (Dict.of_get?_pop hk).2
  | restore lost exchangeLost =>
    obtain ⟨hself, hx, hxs, -⟩ := performBinding_restore hg h
    refine ⟨by rw [hself]; exact hg.hasChannel, by rw [hself]; exact hx, ?_⟩
    intro p' v' hk
    rw [hself] at hk ⊢
    obtain ⟨hn, hs⟩ := hg.has_source p' v' hk
    simp only [Amqp.has, decide_eq_true_eq] at hs ⊢
    exact ⟨hn, hs.1, hxs _ hs.2 hs.1⟩

theorem recreated_eq (hg : Grounded s) : recreated s = s.self.bindings.image bindingId := by
  have hnone : existing (lose s (fun _ => true) false) = ∅ := by
    ext ⟨n, k, a⟩
    simp [existing, Amqp.mem_bindingsOf, lose]
  by_cases hn : s.self.name = ""
  · have hr := restore_default (s := lose s (fun _ => true) false) hn
    simp only [recreated, hr, hnone, image_default hg hn]
  · have hmem : ∀ n ∈ s.broker.exchanges,
        n ∈ (lose s (fun _ => true) false).broker.exchanges := by simp [lose]
    obtain ⟨t, ht, -, -, -, he⟩ := restore_amqp (s := lose s (fun _ => true) false)
      hg.hasChannel hn (fun p v hp => by
        have hs := (hg.has_source p v hp).2
        simp only [Amqp.has, decide_eq_true_eq] at hs
        exact ⟨hs.1, Or.inr (hmem _ hs.2)⟩) (Or.inl (hmem _ (hg.exchange_mem hn)))
    simp only [recreated, ht, he, hnone, Set.empty_union]
    rfl

/-- A restore creates the incoming bindings of the exchange that exist at the broker. -/
def Faithful (s : Session (RobustExchange A) (Amqp A) A C) : Prop :=
  recreated s = existing s

/-- A call keeps the registry and the broker in step exactly when it keeps the record. -/
theorem faithful_step {op : BindingOp A} (hg : Grounded s) (hf : Faithful s)
    (h : performBinding s op = some t) : Faithful t ↔ KeepsRecord s op := by
  have hgt := hg.step h
  rw [Faithful, recreated_eq hg] at hf
  rw [Faithful, recreated_eq hgt]
  cases op with
  | bind p k a =>
    obtain ⟨-, -, hself, hb⟩ := performBinding_bind h
    have he : existing t =
        insert (bindingId p ⟨k, a⟩) (s.self.bindings.image bindingId) := by
      rw [existing, hself, hb, hf]
      exact Amqp.bindingsOf_addBinding
    rw [he, hself]
    refine Dict.image_set_iff.trans (forall_congr' fun v₀ => imp_congr_right fun _ => ?_)
    rw [ne_eq, bindingId_eq_iff]
  | unbind p k a =>
    obtain ⟨hself, hb⟩ := performBinding_unbind h
    have he : existing t = s.self.bindings.image bindingId \ {bindingId p ⟨k, a⟩} := by
      rw [existing, hself, hb, hf]
      exact Amqp.bindingsOf_removeBinding
    rw [he, hself]
    refine Dict.image_pop_iff.trans (and_congr (forall_congr' fun v₀ =>
      imp_congr_right fun _ => ?_) Iff.rfl)
    rw [ne_eq, bindingId_eq_iff]
  | restore lost exchangeLost =>
    obtain ⟨hself, -, -, he⟩ := performBinding_restore hg h
    have hsub : existing (lose s lost exchangeLost) ⊆ s.self.bindings.image bindingId := by
      rw [hf]
      rintro ⟨n, k, a⟩ hi
      exact (List.mem_filter.mp hi).1
    rw [he, hself, Set.union_eq_right.mpr hsub]
    exact iff_of_true rfl trivial

omit [DecidableEq A] in
theorem declared_grounded (x : RobustExchange A) (b : Amqp A) :
    Grounded (declared (C := C) x b) :=
  ⟨rfl, by simp [declared], by simp [declared]⟩

theorem declared_faithful (x : RobustExchange A) (b : Amqp A) :
    Faithful (declared (C := C) x b) := by
  rw [Faithful, recreated_eq (declared_grounded x b)]
  ext ⟨n, k, a⟩
  simp [Dict.image, declared, existing, Amqp.mem_bindingsOf]

/-- Along a history of successful calls and restores, a restore creates exactly the incoming
bindings of the exchange that exist at the broker, at every point, if and only if every call
keeps the record. -/
theorem exchange_bindings_survive_iff (x : RobustExchange A) (b : Amqp A)
    (ops : List (BindingOp A)) :
    Transition.Throughout performBinding Faithful (declared (C := C) x b) ops ↔
      Transition.EachStep performBinding KeepsRecord (declared (C := C) x b) ops :=
  Transition.throughout_iff_eachStep (fun _ _ _ hg _ h _ => hg.step h)
    (fun _ _ _ hg hf h => faithful_step hg hf h) (declared_grounded x b) (declared_faithful x b)

def twoKeysHistory : List (BindingOp ℕ) :=
  [.bind (.name "source") "one" 0, .bind (.name "source") "two" 0]

def twoKeysExchange : RobustExchange ℕ :=
  ⟨"destination", "direct", false, false, false, false, 0, true, .empty⟩

/-- Both bindings exist at the broker, and the registry has a record of the second only. -/
theorem second_routing_key_replaces_first : ¬ Transition.Throughout performBinding Faithful
    (declared (C := Unit) twoKeysExchange ⟨["source"], [], [], 0⟩) twoKeysHistory := by
  intro h
  have hstep := (Transition.throughout_iff_eachStep (J := Grounded)
    (fun _ _ _ hg _ h _ => hg.step h) (fun _ _ _ hg hf h => faithful_step hg hf h)
    (declared_grounded _ _) (declared_faithful _ _)).mp h
  -- the first routing key would have to be kept under another parameter
  obtain ⟨p', v, hne, hk, -⟩ := ((hstep _ rfl).2 _ rfl).1 ⟨"one", 0⟩ rfl (by decide)
  replace hk : (Dict.empty.set (.name "source") ⟨"one", 0⟩).get? p' = some v := hk
  replace hne : p' ≠ .name "source" := hne
  rw [Dict.get?_set_ne hne, Dict.get?_empty] at hk
  cases hk

end AioPika.RobustExchange
