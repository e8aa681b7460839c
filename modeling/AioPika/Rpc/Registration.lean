import AioPika.Foundation.Members
import AioPika.Rpc.Server

/-! # The tables of the registered functions

`register` writes its three tables when the consumer is there, long after it has
looked for duplicates; `unregister` empties two of them before it cancels the
consumer, and the third one afterwards. The tables agree as long as no two calls
of `register` for one function or one routing key pass the duplicate check
together, and no call is left by an exception between its effect at the broker
and its last write.
-/

namespace AioPika.Rpc

/-- The call of `register` is over. -/
def RegisterPc.Done : RegisterPc → Prop
  | .registered | .raised => True
  | .declaring | .binding _ | .consuming _ _ => False

instance : DecidablePred RegisterPc.Done
  | .registered | .raised => .isTrue trivial
  | .declaring | .binding _ | .consuming _ _ => .isFalse id

/-- The call has passed the duplicate check, and awaits its consumer. -/
def RegisterPc.Consuming : RegisterPc → Prop
  | .consuming _ _ => True
  | _ => False

instance : DecidablePred RegisterPc.Consuming
  | .consuming _ _ => .isTrue trivial
  | .declaring | .binding _ | .registered | .raised => .isFalse id

def RegisterPc.queue? : RegisterPc → Option String
  | .binding queue | .consuming queue _ => some queue
  | _ => none

/-- The consumer that the broker has confirmed. -/
def RegisterPc.consumer? : RegisterPc → Option ℕ
  | .consuming _ consumer => consumer
  | _ => none

variable {V : Type*}

/-- No `register` or `unregister` is in progress. -/
def Quiet (s : Server V) : Prop :=
  (∀ r ∈ s.registers, r.pc.Done) ∧ ∀ u ∈ s.unregisters, u.finished = true

instance : DecidablePred (Quiet (V := V)) := fun s =>
  inferInstanceAs (Decidable
    ((∀ r ∈ s.registers, r.pc.Done) ∧ ∀ u ∈ s.unregisters, u.finished = true))

namespace Server

variable (s : Server V)

/-- The functions in `consumer_tags`. -/
def tagged : Set ℕ := {f | (s.consumerTags.get? f).isSome = true}

/-- The functions in `queues`. -/
def queued : Set ℕ := {f | (s.queues.get? f).isSome = true}

/-- The values of `routes`. -/
def routed : Set ℕ := {f | ∃ key, s.routes.get? key = some f}

end Server

/-- The tables are about the same functions, each under one routing key, and these are the functions
whose consumers are active. -/
structure Consistent (s : Server V) : Prop where
  queued : s.queued = s.tagged
  routed : s.routed = s.tagged
  injective : ∀ key key' f, s.routes.get? key = some f → s.routes.get? key' = some f → key = key'
  active : ∀ f c, s.consumerTags.get? f = some c ↔
    ∃ method, s.consumers[c]? = some ⟨method, f, true⟩

variable (rpc : RPC V)

/-- The calls are about one function, or about one routing key. -/
def RPC.Rivals (r r' : Register) : Prop :=
  r.func = r'.func ∨ rpc.formatRoutingKey r.method = rpc.formatRoutingKey r'.method

instance (r r' : Register) : Decidable (rpc.Rivals r r') :=
  inferInstanceAs (Decidable
    (r.func = r'.func ∨ rpc.formatRoutingKey r.method = rpc.formatRoutingKey r'.method))

/-- When the call passes the duplicate check, no rival of it awaits its consumer. -/
def Server.Alone (s : Server V) (i : ℕ) : Prop :=
  ∀ r ∈ s.registers[i]?, ¬ s.Taken rpc r → ∀ r' ∈ s.registers, r'.pc.Consuming → ¬ rpc.Rivals r r'

instance (s : Server V) (i : ℕ) : Decidable (s.Alone rpc i) :=
  inferInstanceAs (Decidable (∀ r ∈ s.registers[i]?, ¬ s.Taken rpc r →
    ∀ r' ∈ s.registers, r'.pc.Consuming → ¬ rpc.Rivals r r'))

/-- A routing key is not empty, rivals do not start their consumers together, a `register` whose
consumer is there is not left by an exception, and neither is an `unregister`. -/
def Proper (s : Server V) : ServerAction V → Prop
  | .register method _ => rpc.formatRoutingKey method ≠ ""
  | .declared i _ => rpc.exchange = none → s.Alone rpc i
  | .bound i => s.Alone rpc i
  | .registerRaised i => ∀ r ∈ s.registers[i]?, r.pc.consumer? = none
  | .unregisterRaised _ => False
  | _ => True

instance (s : Server V) : DecidablePred (Proper rpc s)
  | .register method _ => inferInstanceAs (Decidable (rpc.formatRoutingKey method ≠ ""))
  | .declared i _ => inferInstanceAs (Decidable (rpc.exchange = none → s.Alone rpc i))
  | .bound i => inferInstanceAs (Decidable (s.Alone rpc i))
  | .registerRaised i =>
    inferInstanceAs (Decidable (∀ r ∈ s.registers[i]?, r.pc.consumer? = none))
  | .unregisterRaised _ => .isFalse id
  | .consumeOk _ | .registered _ | .unregister _ | .cancelOk _ | .unregistered _ | .deliver _ _
  | .handle _ | .event _ _ => .isTrue trivial

/-- The tables, and what the calls of `unregister` in progress leave in them: a route, which nothing
else refers to, and a consumer without a tag. -/
structure Tables (s : Server V) : Prop where
  tags : ∀ f c, s.consumerTags.get? f = some c → ∃ method,
    s.consumers[c]? = some ⟨method, f, true⟩ ∧ s.queues.get? f = some (rpc.formatRoutingKey method)
  queues : ∀ f key, s.queues.get? f = some key →
    s.routes.get? key = some f ∧ (s.consumerTags.get? f).isSome = true
  routes : ∀ key f, s.routes.get? key = some f →
    s.queues.get? f = some key ∨ ∃ u ∈ s.unregisters, u.finished = false ∧ u.queue = key
  cancelling : ∀ u ∈ s.unregisters, u.finished = false →
    (s.routes.get? u.queue).isSome = true ∧ (∀ f, s.queues.get? f ≠ some u.queue) ∧
      u.consumer < s.consumers.length ∧ ∀ f, s.consumerTags.get? f ≠ some u.consumer
  apart : ∀ (i j : ℕ) (u u' : Unregister),
    s.unregisters[i]? = some u → s.unregisters[j]? = some u' →
    u.finished = false → u'.finished = false → u.queue = u'.queue → i = j

/-- The calls of `register`: what awaits its consumer is in no table, and has no rival. -/
structure Starting (s : Server V) : Prop where
  named : ∀ r ∈ s.registers, rpc.formatRoutingKey r.method ≠ "" ∧
    ∀ queue ∈ r.pc.queue?, queue = rpc.formatRoutingKey r.method
  free : ∀ r ∈ s.registers, r.pc.Consuming → ¬ s.Taken rpc r
  started : ∀ r ∈ s.registers, ∀ c ∈ r.pc.consumer?,
    s.consumers[c]? = some ⟨r.method, r.func, true⟩ ∧
      ∀ u ∈ s.unregisters, u.finished = false → u.consumer ≠ c
  one : ∀ (i j : ℕ) (r r' : Register), s.registers[i]? = some r → s.registers[j]? = some r' →
    r.pc.Consuming → r'.pc.Consuming → rpc.Rivals r r' → i = j

/-- Every active consumer has its tag, or a call that starts or cancels it. -/
def Owned (s : Server V) : Prop :=
  ∀ c method f, s.consumers[c]? = some ⟨method, f, true⟩ →
    s.consumerTags.get? f = some c ∨ (∃ r ∈ s.registers, r.pc.consumer? = some c) ∨
      ∃ u ∈ s.unregisters, u.finished = false ∧ u.consumer = c

structure Registration (s : Server V) : Prop where
  tables : Tables rpc s
  starting : Starting rpc s
  owned : Owned s

variable {rpc} {s t : Server V} {a : ServerAction V} {i : ℕ} {r : Register} {pc : RegisterPc}

theorem fresh_registration : Registration rpc (Server.fresh : Server V) := by
  refine ⟨⟨?_, ?_, ?_, ?_, ?_⟩, ⟨?_, ?_, ?_, ?_⟩, ?_⟩
  · rintro f c ⟨⟩
  · rintro f key ⟨⟩
  · rintro key f ⟨⟩
  · rintro u ⟨⟩
  · rintro i j u u' ⟨⟩
  · rintro r ⟨⟩
  · rintro r ⟨⟩
  · rintro r ⟨⟩
  · rintro i j r r' ⟨⟩
  · rintro c method f ⟨⟩

theorem not_taken_iff : ¬ s.Taken rpc r ↔
    s.consumerTags.get? r.func = none ∧ s.routes.get? (rpc.formatRoutingKey r.method) = none := by
  simp [Server.Taken]

theorem Tables.tag_func (h : Tables rpc s) {f c : ℕ} {consumer : Consumer}
    (ht : s.consumerTags.get? f = some c) (hc : s.consumers[c]? = some consumer) :
    consumer.func = f := by
  obtain ⟨method, hm, -⟩ := h.tags f c ht
  obtain rfl := Option.some.inj (hm.symm.trans hc)
  rfl

theorem consuming_of_consumer {c : ℕ} (hc : pc.consumer? = some c) : pc.Consuming := by
  cases pc with
  | consuming queue consumer => trivial
  | _ => cases hc

theorem not_done_of_consumer {c : ℕ} (hc : pc.consumer? = some c) : ¬ pc.Done := by
  cases pc with
  | consuming queue consumer => exact id
  | _ => cases hc

section Register

theorem Starting.move (h : Starting rpc s) (hi : s.registers[i]? = some r)
    (hq : ∀ queue ∈ pc.queue?, queue = rpc.formatRoutingKey r.method) (hc : pc.consumer? = none)
    (hf : pc.Consuming → ¬ s.Taken rpc r ∧
      ∀ r' ∈ s.registers, r'.pc.Consuming → ¬ rpc.Rivals r r') :
    Starting rpc (s.setRegister i r pc) := by
  have hr := List.mem_of_getElem? hi
  constructor
  · intro r' hm
    rcases List.mem_or_eq_of_mem_set hm with hm | rfl
    · exact h.named r' hm
    · exact ⟨(h.named r hr).1, hq⟩
  · intro r' hm hp
    rcases List.mem_or_eq_of_mem_set hm with hm | rfl
    · exact h.free r' hm hp
    · exact (hf hp).1
  · intro r' hm c hd
    rcases List.mem_or_eq_of_mem_set hm with hm | rfl
    · exact h.started r' hm c hd
    · cases hc.symm.trans hd
  · intro j k r₁ r₂ hj hk hp₁ hp₂ hrivals
    rcases Members.of_set hj with ⟨rfl, rfl⟩ | ⟨-, hj'⟩
    · rcases Members.of_set hk with ⟨rfl, -⟩ | ⟨-, hk'⟩
      · rfl
      · exact absurd hrivals ((hf hp₁).2 r₂ (List.mem_of_getElem? hk') hp₂)
    · rcases Members.of_set hk with ⟨rfl, rfl⟩ | ⟨-, hk'⟩
      · have hback : rpc.Rivals r r₁ := hrivals.imp Eq.symm Eq.symm
        exact absurd hback ((hf hp₂).2 r₁ (List.mem_of_getElem? hj') hp₁)
      · exact h.one j k r₁ r₂ hj' hk' hp₁ hp₂ hrivals

theorem Owned.move (h : Owned s) (hi : s.registers[i]? = some r) (hc : r.pc.consumer? = none) :
    Owned (s.setRegister i r pc) := by
  intro c method f hl
  refine (h c method f hl).imp_right (Or.imp_left fun hr => ?_)
  refine Members.exists_set hr hi fun hd => ?_
  cases hc.symm.trans hd

theorem Registration.move (h : Registration rpc s) (hi : s.registers[i]? = some r)
    (hq : ∀ queue ∈ pc.queue?, queue = rpc.formatRoutingKey r.method)
    (hr : r.pc.consumer? = none) (hc : pc.consumer? = none)
    (hf : pc.Consuming → ¬ s.Taken rpc r ∧
      ∀ r' ∈ s.registers, r'.pc.Consuming → ¬ rpc.Rivals r r') :
    Registration rpc (s.setRegister i r pc) where
  tables := ⟨h.tables.tags, h.tables.queues, h.tables.routes, h.tables.cancelling, h.tables.apart⟩
  starting := h.starting.move hi hq hc hf
  owned := h.owned.move hi hr

theorem Registration.register (h : Registration rpc s) {method : String} {func : ℕ}
    (hm : rpc.formatRoutingKey method ≠ "") :
    Registration rpc { s with registers := s.registers ++ [⟨method, func, .declaring⟩] } := by
  have hold : ∀ {r : Register}, r ∈ s.registers ++ [⟨method, func, .declaring⟩] →
      r ∈ s.registers ∨ r = ⟨method, func, .declaring⟩ := by
    intro r hr
    exact (List.mem_append.mp hr).imp_right List.mem_singleton.mp
  refine ⟨⟨h.tables.tags, h.tables.queues, h.tables.routes, h.tables.cancelling, h.tables.apart⟩,
    ⟨?_, ?_, ?_, ?_⟩, ?_⟩
  · intro r hr
    rcases hold hr with hr | rfl
    · exact h.starting.named r hr
    · exact ⟨hm, by rintro queue ⟨⟩⟩
  · intro r hr hp
    rcases hold hr with hr | rfl
    · exact h.starting.free r hr hp
    · exact hp.elim
  · intro r hr c hc
    rcases hold hr with hr | rfl
    · exact h.starting.started r hr c hc
    · cases hc
  · intro i j r r' hi hj hp hp'
    rcases Members.of_append hi with hi | ⟨-, rfl⟩
    · rcases Members.of_append hj with hj | ⟨-, rfl⟩
      · exact h.starting.one i j r r' hi hj hp hp'
      · exact hp'.elim
    · exact hp.elim
  · intro c method f hl
    exact (h.owned c method f hl).imp_right (Or.imp_left Members.exists_append)

theorem Registration.consume (h : Registration rpc s) (hi : s.registers[i]? = some r)
    (hr : r.pc.consumer? = none) {queue : String} (hq : queue = rpc.formatRoutingKey r.method)
    (ha : s.Alone rpc i) : Registration rpc (s.consume rpc i r queue) := by
  unfold Server.consume
  split
  · exact h.move hi (by rintro queue ⟨⟩) hr rfl (by rintro ⟨⟩)
  · rename_i hn
    refine h.move hi (fun queue' hm => ?_) hr rfl fun _ => ⟨hn, ha r hi hn⟩
    obtain rfl := Option.some.inj hm
    exact hq

theorem Registration.consumeOk (h : Registration rpc s) {method queue : String} {func : ℕ}
    (hi : s.registers[i]? = some ⟨method, func, .consuming queue none⟩) :
    Registration rpc
      (Server.setRegister { s with consumers := s.consumers ++ [⟨method, func, true⟩] } i
        ⟨method, func, .consuming queue none⟩ (.consuming queue (some s.consumers.length))) := by
  have hr := List.mem_of_getElem? hi
  have hnamed := h.starting.named _ hr
  have hfree := h.starting.free _ hr trivial
  have hkeep : ∀ {c : ℕ} {consumer : Consumer}, s.consumers[c]? = some consumer →
      (s.consumers ++ [⟨method, func, true⟩])[c]? = some consumer := by
    intro c consumer hc
    exact (List.getElem?_append_left (List.getElem?_eq_some_iff.mp hc).1).trans hc
  refine ⟨⟨?_, h.tables.queues, h.tables.routes, ?_, h.tables.apart⟩, ⟨?_, ?_, ?_, ?_⟩, ?_⟩
  · intro f c ht
    obtain ⟨m, hc, hq⟩ := h.tables.tags f c ht
    exact ⟨m, hkeep hc, hq⟩
  · intro u hu hp
    obtain ⟨hroute, hqueue, hlt, htag⟩ := h.tables.cancelling u hu hp
    refine ⟨hroute, hqueue, ?_, htag⟩
    have hlen : (s.consumers ++ [(⟨method, func, true⟩ : Consumer)]).length =
        s.consumers.length + 1 := List.length_append
    exact hlen ▸ Nat.lt_succ_of_lt hlt
  · intro r hm
    rcases List.mem_or_eq_of_mem_set hm with hm | rfl
    · exact h.starting.named r hm
    · exact hnamed
  · intro r hm hp
    rcases List.mem_or_eq_of_mem_set hm with hm | rfl
    · exact h.starting.free r hm hp
    · exact hfree
  · intro r hm c hc
    rcases List.mem_or_eq_of_mem_set hm with hm | rfl
    · obtain ⟨hl, hn⟩ := h.starting.started r hm c hc
      exact ⟨hkeep hl, hn⟩
    · obtain rfl := Option.some.inj hc
      refine ⟨List.getElem?_concat_length, fun u hu hp => ?_⟩
      have hlt := (h.tables.cancelling u hu hp).2.2.1
      omega
  · intro j k r₁ r₂ hj hk hp₁ hp₂ hrivals
    rcases Members.of_set hj with ⟨rfl, rfl⟩ | ⟨-, hj'⟩
    · rcases Members.of_set hk with ⟨rfl, -⟩ | ⟨-, hk'⟩
      · rfl
      · exact h.starting.one j k _ r₂ hi hk' trivial hp₂ hrivals
    · rcases Members.of_set hk with ⟨rfl, rfl⟩ | ⟨-, hk'⟩
      · exact h.starting.one j k r₁ _ hj' hi hp₁ trivial hrivals
      · exact h.starting.one j k r₁ r₂ hj' hk' hp₁ hp₂ hrivals
  · intro c m f hl
    rcases Members.of_append hl with hl | ⟨rfl, -⟩
    · refine (h.owned c m f hl).imp_right (Or.imp_left fun hd => ?_)
      exact Members.exists_set hd hi (by rintro ⟨⟩)
    · right
      left
      have hlt := (List.getElem?_eq_some_iff.mp hi).1
      exact ⟨_, List.mem_of_getElem? (List.getElem?_set_self hlt), rfl⟩

theorem Tables.registered (h : Tables rpc s) {method : String} {func consumer : ℕ}
    (htag : s.consumerTags.get? func = none)
    (hroute : s.routes.get? (rpc.formatRoutingKey method) = none)
    (hlive : s.consumers[consumer]? = some ⟨method, func, true⟩)
    (hcancel : ∀ u ∈ s.unregisters, u.finished = false → u.consumer ≠ consumer) :
    Tables rpc { s with
      consumerTags := s.consumerTags.set func consumer
      routes := s.routes.set (rpc.formatRoutingKey method) func
      queues := s.queues.set func (rpc.formatRoutingKey method) } := by
  have hnone : s.queues.get? func = none := by
    by_contra hn
    obtain ⟨key, hkey⟩ := Option.ne_none_iff_exists'.mp hn
    have hsome := (h.queues func key hkey).2
    rw [htag] at hsome
    cases hsome
  constructor
  · intro f c ht
    by_cases hf : f = func
    · subst hf
      obtain rfl := Option.some.inj (Dict.get?_set_self.symm.trans ht)
      exact ⟨method, hlive, Dict.get?_set_self⟩
    · obtain ⟨m, hc, hq⟩ := h.tags f c ((Dict.get?_set_ne hf).symm.trans ht)
      exact ⟨m, hc, (Dict.get?_set_ne hf).trans hq⟩
  · intro f key hq
    by_cases hf : f = func
    · subst hf
      obtain rfl := Option.some.inj (Dict.get?_set_self.symm.trans hq)
      refine ⟨Dict.get?_set_self, ?_⟩
      change ((s.consumerTags.set f consumer).get? f).isSome = true
      rw [Dict.get?_set_self]
      rfl
    · obtain ⟨hk, ht⟩ := h.queues f key ((Dict.get?_set_ne hf).symm.trans hq)
      have hne : key ≠ rpc.formatRoutingKey method := by
        rintro rfl
        cases hroute.symm.trans hk
      refine ⟨(Dict.get?_set_ne hne).trans hk, ?_⟩
      change ((s.consumerTags.set func consumer).get? f).isSome = true
      rw [Dict.get?_set_ne hf]
      exact ht
  · intro key f hk
    by_cases hkey : key = rpc.formatRoutingKey method
    · subst hkey
      obtain rfl := Option.some.inj (Dict.get?_set_self.symm.trans hk)
      exact Or.inl Dict.get?_set_self
    · refine (h.routes key f ((Dict.get?_set_ne hkey).symm.trans hk)).imp_left fun hq => ?_
      have hf : f ≠ func := by
        rintro rfl
        cases hnone.symm.trans hq
      exact (Dict.get?_set_ne hf).trans hq
  · intro u hu hp
    obtain ⟨hk, hq, hlt, ht⟩ := h.cancelling u hu hp
    have hne : u.queue ≠ rpc.formatRoutingKey method := by
      intro he
      rw [he, hroute] at hk
      cases hk
    refine ⟨?_, fun f hf => ?_, hlt, fun f hf => ?_⟩
    · change ((s.routes.set (rpc.formatRoutingKey method) func).get? u.queue).isSome = true
      rw [Dict.get?_set_ne hne]
      exact hk
    · by_cases he : f = func
      · subst he
        exact hne (Option.some.inj (Dict.get?_set_self.symm.trans hf)).symm
      · exact hq f ((Dict.get?_set_ne he).symm.trans hf)
    · by_cases he : f = func
      · subst he
        exact hcancel u hu hp (Option.some.inj (Dict.get?_set_self.symm.trans hf)).symm
      · exact ht f ((Dict.get?_set_ne he).symm.trans hf)
  · exact h.apart

theorem Starting.registered (h : Starting rpc s) {method queue : String} {func consumer : ℕ}
    (hi : s.registers[i]? = some ⟨method, func, .consuming queue (some consumer)⟩) :
    Starting rpc
      (Server.setRegister { s with
        consumerTags := s.consumerTags.set func consumer
        routes := s.routes.set (rpc.formatRoutingKey method) func
        queues := s.queues.set func queue } i
        ⟨method, func, .consuming queue (some consumer)⟩ .registered) := by
  have hr := List.mem_of_getElem? hi
  have hother : ∀ {j : ℕ} {r : Register}, j ≠ i → s.registers[j]? = some r → r.pc.Consuming →
      r.func ≠ func ∧ rpc.formatRoutingKey r.method ≠ rpc.formatRoutingKey method := by
    intro j r hne hj hp
    refine ⟨fun he => ?_, fun he => ?_⟩
    · exact hne (h.one j i r _ hj hi hp trivial (Or.inl he))
    · exact hne (h.one j i r _ hj hi hp trivial (Or.inr he))
  constructor
  · intro r hm
    rcases List.mem_or_eq_of_mem_set hm with hm | rfl
    · exact h.named r hm
    · exact ⟨(h.named _ hr).1, by rintro queue ⟨⟩⟩
  · intro r hm hp
    obtain ⟨j, hj⟩ := List.getElem?_of_mem hm
    rcases Members.of_set hj with ⟨-, rfl⟩ | ⟨hne, hj'⟩
    · exact hp.elim
    · obtain ⟨hf, hk⟩ := hother hne hj' hp
      obtain ⟨ht, hroute'⟩ := not_taken_iff.mp (h.free r (List.mem_of_getElem? hj') hp)
      exact not_taken_iff.mpr
        ⟨(Dict.get?_set_ne hf).trans ht, (Dict.get?_set_ne hk).trans hroute'⟩
  · intro r hm c hc
    rcases List.mem_or_eq_of_mem_set hm with hm | rfl
    · exact h.started r hm c hc
    · cases hc
  · intro j k r₁ r₂ hj hk hp₁ hp₂ hrivals
    rcases Members.of_set hj with ⟨-, rfl⟩ | ⟨-, hj'⟩
    · exact hp₁.elim
    · rcases Members.of_set hk with ⟨-, rfl⟩ | ⟨-, hk'⟩
      · exact hp₂.elim
      · exact h.one j k r₁ r₂ hj' hk' hp₁ hp₂ hrivals

theorem Owned.registered (h : Owned s) {method queue key : String} {func consumer : ℕ}
    (hi : s.registers[i]? = some ⟨method, func, .consuming queue (some consumer)⟩)
    (htag : s.consumerTags.get? func = none)
    (hlive : s.consumers[consumer]? = some ⟨method, func, true⟩) :
    Owned
      (Server.setRegister { s with
        consumerTags := s.consumerTags.set func consumer
        routes := s.routes.set key func
        queues := s.queues.set func queue } i
        ⟨method, func, .consuming queue (some consumer)⟩ .registered) := by
  intro c m f hl
  rcases h c m f hl with ht | ⟨r, hm, hc⟩ | hu
  · have hf : f ≠ func := by
      rintro rfl
      cases htag.symm.trans ht
    exact Or.inl ((Dict.get?_set_ne hf).trans ht)
  · obtain ⟨j, hj⟩ := List.getElem?_of_mem hm
    by_cases hji : i = j
    · subst hji
      obtain rfl := Option.some.inj (hi.symm.trans hj)
      obtain rfl : consumer = c := Option.some.inj hc
      obtain ⟨rfl, rfl⟩ : method = m ∧ func = f := by
        simpa using hlive.symm.trans hl
      exact Or.inl Dict.get?_set_self
    · exact Or.inr (Or.inl ⟨r, List.mem_of_getElem? ((List.getElem?_set_ne hji).trans hj), hc⟩)
  · exact Or.inr (Or.inr hu)

theorem Registration.registered (h : Registration rpc s) {method queue : String} {func consumer : ℕ}
    (hi : s.registers[i]? = some ⟨method, func, .consuming queue (some consumer)⟩) :
    Registration rpc
      (Server.setRegister { s with
        consumerTags := s.consumerTags.set func consumer
        routes := s.routes.set (rpc.formatRoutingKey method) func
        queues := s.queues.set func queue } i
        ⟨method, func, .consuming queue (some consumer)⟩ .registered) := by
  have hr := List.mem_of_getElem? hi
  obtain rfl : queue = rpc.formatRoutingKey method := (h.starting.named _ hr).2 queue rfl
  obtain ⟨htag, hroute⟩ := not_taken_iff.mp (h.starting.free _ hr trivial)
  obtain ⟨hlive, hcancel⟩ := h.starting.started _ hr consumer rfl
  have ht := h.tables.registered htag hroute hlive hcancel
  constructor
  · exact ⟨ht.tags, ht.queues, ht.routes, ht.cancelling, ht.apart⟩
  · exact h.starting.registered hi
  · exact h.owned.registered hi htag hlive

end Register

section Unregister

theorem Tables.unregister (h : Tables rpc s) {func consumer : ℕ} {queue : String}
    (ht : s.consumerTags.get? func = some consumer) (hq : s.queues.get? func = some queue) :
    Tables rpc
      { s with
        consumerTags := s.consumerTags.pop func
        queues := s.queues.pop func
        unregisters := s.unregisters ++ [⟨consumer, queue, false⟩] } := by
  obtain ⟨method, hlive, -⟩ := h.tags func consumer ht
  obtain ⟨hroute, -⟩ := h.queues func queue hq
  constructor
  · intro f c hf
    obtain ⟨hne, hf⟩ := Dict.of_get?_pop hf
    obtain ⟨m, hc, hk⟩ := h.tags f c hf
    exact ⟨m, hc, (Dict.get?_pop_ne hne).trans hk⟩
  · intro f key hf
    obtain ⟨hne, hf⟩ := Dict.of_get?_pop hf
    obtain ⟨hk, hs⟩ := h.queues f key hf
    refine ⟨hk, ?_⟩
    change ((s.consumerTags.pop func).get? f).isSome = true
    rw [Dict.get?_pop_ne hne]
    exact hs
  · intro key f hk
    rcases h.routes key f hk with hf | hu
    · by_cases he : f = func
      · subst he
        obtain rfl := Option.some.inj (hq.symm.trans hf)
        exact Or.inr ⟨_, List.mem_append_right _ (List.mem_singleton_self _), rfl, rfl⟩
      · exact Or.inl ((Dict.get?_pop_ne he).trans hf)
    · exact Or.inr (Members.exists_append hu)
  · intro u hu hp
    rcases List.mem_append.mp hu with hu | hu
    · obtain ⟨hk, hn, hlt, hno⟩ := h.cancelling u hu hp
      exact ⟨hk, fun f hf => hn f (Dict.of_get?_pop hf).2, hlt,
        fun f hf => hno f (Dict.of_get?_pop hf).2⟩
    · obtain rfl := List.mem_singleton.mp hu
      refine ⟨?_, fun f hf => ?_, (List.getElem?_eq_some_iff.mp hlive).1, fun f hf => ?_⟩
      · change (s.routes.get? queue).isSome = true
        rw [hroute]
        rfl
      · obtain ⟨hne, hf⟩ := Dict.of_get?_pop hf
        have hback := (h.queues f queue hf).1
        exact hne (Option.some.inj (hback.symm.trans hroute))
      · obtain ⟨hne, hf⟩ := Dict.of_get?_pop hf
        exact hne (h.tag_func hf hlive).symm
  · intro j k u u' hj hk hp hp' he
    have hnew : ∀ {u : Unregister}, u ∈ s.unregisters → u.finished = false → u.queue ≠ queue := by
      intro u hu hp he
      exact (h.cancelling u hu hp).2.1 func (he ▸ hq)
    rcases Members.of_append hj with hj | ⟨rfl, rfl⟩
    · rcases Members.of_append hk with hk | ⟨-, rfl⟩
      · exact h.apart j k u u' hj hk hp hp' he
      · exact absurd he (hnew (List.mem_of_getElem? hj) hp)
    · rcases Members.of_append hk with hk | ⟨rfl, -⟩
      · exact absurd he.symm (hnew (List.mem_of_getElem? hk) hp')
      · rfl

theorem Starting.unregister (h : Starting rpc s) (htables : Tables rpc s) {func consumer : ℕ}
    {queue : String} (ht : s.consumerTags.get? func = some consumer) :
    Starting rpc
      { s with
        consumerTags := s.consumerTags.pop func
        queues := s.queues.pop func
        unregisters := s.unregisters ++ [⟨consumer, queue, false⟩] } := by
  refine ⟨h.named, ?_, ?_, h.one⟩
  · intro r hm hp
    obtain ⟨hno, hk⟩ := not_taken_iff.mp (h.free r hm hp)
    refine not_taken_iff.mpr ⟨?_, hk⟩
    have hne : r.func ≠ func := by
      rintro rfl
      cases hno.symm.trans ht
    exact (Dict.get?_pop_ne hne).trans hno
  · intro r hm c hc
    obtain ⟨hl, hn⟩ := h.started r hm c hc
    refine ⟨hl, fun u hu hp => ?_⟩
    rcases List.mem_append.mp hu with hu | hu
    · exact hn u hu hp
    · obtain rfl := List.mem_singleton.mp hu
      rintro rfl
      have hfunc : r.func = func := htables.tag_func ht hl
      have hno := (not_taken_iff.mp (h.free r hm (consuming_of_consumer hc))).1
      rw [hfunc, ht] at hno
      cases hno

theorem Owned.unregister (h : Owned s) {func consumer : ℕ} {queue : String}
    (ht : s.consumerTags.get? func = some consumer) :
    Owned
      { s with
        consumerTags := s.consumerTags.pop func
        queues := s.queues.pop func
        unregisters := s.unregisters ++ [⟨consumer, queue, false⟩] } := by
  intro c m f hl
  rcases h c m f hl with hf | hr | hu
  · by_cases he : f = func
    · subst he
      obtain rfl := Option.some.inj (ht.symm.trans hf)
      exact Or.inr (Or.inr ⟨_, List.mem_append_right _ (List.mem_singleton_self _), rfl, rfl⟩)
    · exact Or.inl ((Dict.get?_pop_ne he).trans hf)
  · exact Or.inr (Or.inl hr)
  · exact Or.inr (Or.inr (Members.exists_append hu))

theorem Registration.unregister (h : Registration rpc s) {func consumer : ℕ} {queue : String}
    (ht : s.consumerTags.get? func = some consumer) (hq : s.queues.get? func = some queue) :
    Registration rpc
      { s with
        consumerTags := s.consumerTags.pop func
        queues := s.queues.pop func
        unregisters := s.unregisters ++ [⟨consumer, queue, false⟩] } :=
  ⟨h.tables.unregister ht hq, h.starting.unregister h.tables ht, h.owned.unregister ht⟩

theorem Registration.cancelOk (h : Registration rpc s) {consumer : ℕ} {queue : String}
    (hi : s.unregisters[i]? = some ⟨consumer, queue, false⟩) :
    Registration rpc
      { s with consumers := s.consumers.modify consumer fun c => { c with live := false } } := by
  have hu := List.mem_of_getElem? hi
  have hkeep : ∀ {c : ℕ} {x : Consumer}, consumer ≠ c → s.consumers[c]? = some x →
      (s.consumers.modify consumer fun c => { c with live := false })[c]? = some x := by
    intro c x hne hc
    rw [List.getElem?_modify, hc]
    simp [hne]
  refine ⟨⟨?_, h.tables.queues, h.tables.routes, ?_, h.tables.apart⟩,
    ⟨h.starting.named, h.starting.free, ?_, h.starting.one⟩, ?_⟩
  · intro f c hf
    obtain ⟨m, hc, hq⟩ := h.tables.tags f c hf
    have hne : consumer ≠ c := by
      rintro rfl
      exact (h.tables.cancelling _ hu rfl).2.2.2 f hf
    exact ⟨m, hkeep hne hc, hq⟩
  · intro u hm hp
    rw [List.length_modify]
    exact h.tables.cancelling u hm hp
  · intro r hm c hc
    obtain ⟨hl, hn⟩ := h.starting.started r hm c hc
    exact ⟨hkeep (hn _ hu rfl) hl, hn⟩
  · intro c m f hl
    obtain ⟨x, hx, ⟨-, he⟩ | ⟨-, rfl⟩⟩ := Members.of_modify hl
    · cases he
    · exact h.owned c m f hx

theorem Registration.unregistered (h : Registration rpc s) {consumer : ℕ} {queue : String}
    (hi : s.unregisters[i]? = some ⟨consumer, queue, false⟩)
    (hc : (s.consumers[consumer]?.map Consumer.live).getD false = false) :
    Registration rpc
      { s with
        routes := s.routes.pop queue
        unregisters := s.unregisters.set i ⟨consumer, queue, true⟩ } := by
  have hu := List.mem_of_getElem? hi
  obtain ⟨-, hfree, -, -⟩ := h.tables.cancelling _ hu rfl
  -- who is not finished now was not finished before, and is another one
  have hold : ∀ {j : ℕ} {u : Unregister},
      (s.unregisters.set i ⟨consumer, queue, true⟩)[j]? = some u → u.finished = false →
      j ≠ i ∧ s.unregisters[j]? = some u := by
    intro j u hj hp
    rcases Members.of_set hj with ⟨-, rfl⟩ | hj
    · cases hp
    · exact hj
  refine ⟨⟨h.tables.tags, ?_, ?_, ?_, ?_⟩, ⟨h.starting.named, ?_, ?_, h.starting.one⟩, ?_⟩
  · intro f key hq
    obtain ⟨hk, ht⟩ := h.tables.queues f key hq
    have hne : key ≠ queue := by
      rintro rfl
      exact hfree f hq
    exact ⟨(Dict.get?_pop_ne hne).trans hk, ht⟩
  · intro key f hk
    have hk : (s.routes.pop queue).get? key = some f := hk
    obtain ⟨hne, hk⟩ := Dict.of_get?_pop hk
    refine (h.tables.routes key f hk).imp_right fun hex => ?_
    exact Members.exists_set hex hi fun hp => absurd hp.2.symm hne
  · intro u hm hp
    obtain ⟨j, hj⟩ := List.getElem?_of_mem hm
    obtain ⟨hne, hj⟩ := hold hj hp
    obtain ⟨hk, hrest⟩ := h.tables.cancelling u (List.mem_of_getElem? hj) hp
    refine ⟨?_, hrest⟩
    have hother : u.queue ≠ queue := fun he => hne (h.tables.apart j i u _ hj hi hp rfl he)
    change ((s.routes.pop queue).get? u.queue).isSome = true
    rw [Dict.get?_pop_ne hother]
    exact hk
  · intro j k u u' hj hk hp hp' he
    exact h.tables.apart j k u u' (hold hj hp).2 (hold hk hp').2 hp hp' he
  · intro r hm hp
    obtain ⟨ht, hk⟩ := not_taken_iff.mp (h.starting.free r hm hp)
    refine not_taken_iff.mpr ⟨ht, ?_⟩
    change (s.routes.pop queue).get? (rpc.formatRoutingKey r.method) = none
    rw [Dict.get?_pop]
    split
    · rfl
    · exact hk
  · intro r hm c hd
    obtain ⟨hl, hn⟩ := h.starting.started r hm c hd
    refine ⟨hl, fun u hmem hp => ?_⟩
    obtain ⟨j, hj⟩ := List.getElem?_of_mem hmem
    exact hn u (List.mem_of_getElem? (hold hj hp).2) hp
  · intro c m f hl
    refine (h.owned c m f hl).imp_right (Or.imp_right fun hex => ?_)
    refine Members.exists_set hex hi fun hp => ?_
    obtain rfl : consumer = c := hp.2
    rw [hl] at hc
    cases hc

end Unregister

theorem registration_step (h : Registration rpc s) (ho : Proper rpc s a)
    (hs : serve rpc s a = some t) : Registration rpc t := by
  cases serve_cases hs with
  | register => exact h.register ho
  | binding hi hq =>
    have hn := h.starting.named _ (List.mem_of_getElem? hi)
    refine h.move hi (fun queue hm => ?_) rfl rfl (by rintro ⟨⟩)
    obtain rfl := Option.some.inj hm
    exact hq hn.1
  | declared hi hq hx =>
    have hn := h.starting.named _ (List.mem_of_getElem? hi)
    exact h.consume hi rfl (hq hn.1) (ho hx)
  | bound hi =>
    have hn := h.starting.named _ (List.mem_of_getElem? hi)
    exact h.consume hi rfl (hn.2 _ rfl) ho
  | consumeOk hi => exact h.consumeOk hi
  | registered hi => exact h.registered hi
  | registerRaised hi =>
    exact h.move hi (by rintro queue ⟨⟩) (ho _ hi) rfl (by rintro ⟨⟩)
  | keyError ht hq =>
    obtain ⟨method, -, hk⟩ := h.tables.tags _ _ ht
    cases hq.symm.trans hk
  | unregister ht hq => exact h.unregister ht hq
  | cancelOk hi => exact h.cancelOk hi
  | unregistered hi hc => exact h.unregistered hi hc
  | unregisterRaised => exact ho.elim
  | deliver | handle | event =>
    exact ⟨⟨h.tables.tags, h.tables.queues, h.tables.routes, h.tables.cancelling, h.tables.apart⟩,
      ⟨h.starting.named, h.starting.free, h.starting.started, h.starting.one⟩, h.owned⟩

theorem Registration.consistent (h : Registration rpc s) (hq : Quiet s) : Consistent s := by
  have hroutes : ∀ key f, s.routes.get? key = some f → s.queues.get? f = some key := by
    intro key f hk
    rcases h.tables.routes key f hk with hf | ⟨u, hu, hp, -⟩
    · exact hf
    · cases hp.symm.trans (hq.2 u hu)
  constructor
  · ext f
    constructor
    · intro hf
      obtain ⟨key, hkey⟩ := Option.isSome_iff_exists.mp hf
      exact (h.tables.queues f key hkey).2
    · intro hf
      obtain ⟨c, hc⟩ := Option.isSome_iff_exists.mp hf
      obtain ⟨method, -, hk⟩ := h.tables.tags f c hc
      exact Option.isSome_iff_exists.mpr ⟨_, hk⟩
  · ext f
    constructor
    · rintro ⟨key, hkey⟩
      exact (h.tables.queues f key (hroutes key f hkey)).2
    · intro hf
      obtain ⟨c, hc⟩ := Option.isSome_iff_exists.mp hf
      obtain ⟨method, -, hk⟩ := h.tables.tags f c hc
      exact ⟨_, (h.tables.queues f _ hk).1⟩
  · intro key key' f hk hk'
    exact Option.some.inj ((hroutes key f hk).symm.trans (hroutes key' f hk'))
  · intro f c
    constructor
    · intro hf
      obtain ⟨method, hc, -⟩ := h.tables.tags f c hf
      exact ⟨method, hc⟩
    · rintro ⟨method, hc⟩
      rcases h.owned c method f hc with hf | ⟨r, hr, hd⟩ | ⟨u, hu, hp, -⟩
      · exact hf
      · exact absurd (hq.1 r hr) (not_done_of_consumer hd)
      · cases hp.symm.trans (hq.2 u hu)

def registerOne (i : ℕ) (method : String) (func : ℕ) : List (ServerAction ℕ) :=
  [.register method func, .declared i method, .consumeOk i, .registered i]

def registerAgain : List (ServerAction ℕ) :=
  registerOne 0 "multiply" 0 ++ [.unregister 0, .cancelOk 0, .unregistered 0]

end AioPika.Rpc
