import AioPika.Rpc.Network

/-! # What is done for a request

The messages of an instance that serves are those of its runs of
`on_call_message`. What is noted of a run tells where its reply comes from: the
function that was registered under the routing key, applied to the payload of
the message, or an exception on the way.
-/

namespace AioPika.Rpc.Network

variable {B V : Type} (cfg : Config B V)

def Registered (rpc : RPC V) (server : Server V) (key : String) (func : ℕ) : Prop :=
  ∃ r ∈ server.registers, r.pc = .registered ∧ r.func = func ∧ rpc.formatRoutingKey r.method = key

/-- Why a run replies with a payload. -/
inductive Delivery.Justifies (q : ℕ) (d : Delivery B V) : RPCMessageType → V → Prop
  | result {v : V} (h : d.returned = some (.ok v)) : Justifies q d .result v
  | raised {e : V} (h : d.returned = some (.error e)) :
      Justifies q d .error ((cfg.rpc q).serializeException e)
  | undeserializable {e : V} (h : cfg.codec.deserializeMessage d.packet.message = .error e) :
      Justifies q d .error ((cfg.rpc q).serializeException e)
  /-- The method was unregistered while the payload was deserialised. -/
  | unregistered (h : d.executed = none) :
      Justifies q d .error ((cfg.rpc q).serializeException ((cfg.rpc q).keyError d.queue))
  | unserializable {type : RPCMessageType} {v e : V} (h : Justifies q d type v)
      (hs : cfg.serialize v = .error e) : Justifies q d .error e

/-- What is noted of a run that is at `pc`. -/
def Delivery.At (q : ℕ) (d : Delivery B V) : HandlerPc V → Prop
  | .deserializing => d.executed = none ∧ d.returned = none ∧ d.reply = none
  | .executing func v => d.executed = some (func, v) ∧ d.returned = none ∧ d.reply = none
  | .serializing v type => d.reply = none ∧ d.Justifies cfg q type v
  | .serializingError v => d.reply = none ∧ d.Justifies cfg q .error v
  | .publishing reply => d.reply = some reply
  | .settling | .returned | .raised => True

/-- What is noted of a run is what it has done. -/
structure Delivery.Records (q : ℕ) (d : Delivery B V) (h : CallHandler V) : Prop where
  key : h.routingKey = d.queue
  request : h.request = d.packet.request
  pc : d.At cfg q h.pc
  executed : ∀ func v, d.executed = some (func, v) →
    cfg.codec.deserializeMessage d.packet.message = .ok v
  returned : d.returned ≠ none → d.executed ≠ none
  reply : ∀ r, d.reply = some r → d.Justifies cfg q r.type r.payload ∧
    r.routingKey = d.packet.replyTo.getD "" ∧ r.correlationId = d.packet.message.correlationId
  sent : d.sent = true → d.reply ≠ none
  replies : h.replies ≠ [] → d.sent = true
  owes : h.Owes
  acked : .ack false ∈ h.settlements → ¬ h.request.Answered ∨ h.replies ≠ []

/-- The messages of an instance, and what is noted of them. -/
structure Callee.Recorded (q : ℕ) (e : Callee B V) : Prop where
  inFlight : e.server.inFlight.map (fun x => ((cfg.rpc q).formatRoutingKey x.1, x.2)) =
    e.requests.map fun d => (d.queue, d.packet.request)
  length : e.server.handlers.length = e.runs.length
  untouched : ∀ d ∈ e.requests,
    d.executed = none ∧ d.returned = none ∧ d.reply = none ∧ d.sent = false
  runs : ∀ (j : ℕ) (d : Delivery B V) (h : CallHandler V), e.runs[j]? = some d →
    e.server.handlers[j]? = some h → d.Records cfg q h
  routes : ∀ key func, e.server.routes.get? key = some func →
    Registered (cfg.rpc q) e.server key func
  executed : ∀ d ∈ e.runs, ∀ func v, d.executed = some (func, v) →
    Registered (cfg.rpc q) e.server d.queue func

variable {cfg} {q : ℕ} {d : Delivery B V} {h h' : CallHandler V} {rpc : RPC V}
  {s t : Server V} {a : ServerAction V}

theorem registers_step (hs : serve rpc s a = some t) {i : ℕ} {r : Register}
    (hi : s.registers[i]? = some r) (hp : r.pc = .registered) : t.registers[i]? = some r := by
  have hset : ∀ {j : ℕ} {r' : Register} {pc : RegisterPc}, s.registers[j]? = some r' →
      r'.pc ≠ .registered → (s.registers.set j { r' with pc := pc })[i]? = some r := by
    intro j r' pc hj hne
    have hij : j ≠ i := by
      rintro rfl
      obtain rfl := Option.some.inj (hi.symm.trans hj)
      exact hne hp
    exact (List.getElem?_set_ne hij).trans hi
  have hconsume : ∀ {j : ℕ} {r' : Register} {queue : String}, s.registers[j]? = some r' →
      r'.pc ≠ .registered → (s.consume rpc j r' queue).registers[i]? = some r := by
    intro j r' queue hj hne
    unfold Server.consume
    split <;> exact hset hj hne
  cases serve_cases hs with
  | register => exact (List.getElem?_append_left (List.getElem?_eq_some_iff.mp hi).1).trans hi
  | binding hj => exact hset hj nofun
  | declared hj => exact hconsume hj nofun
  | bound hj => exact hconsume hj nofun
  | consumeOk hj => exact hset hj nofun
  | registered hj => exact hset hj nofun
  | registerRaised hj hne => exact hset hj hne.1
  | _ => exact hi

theorem Registered.step {key : String} {func : ℕ} (h : Registered rpc s key func)
    (hs : serve rpc s a = some t) : Registered rpc t key func := by
  obtain ⟨r, hr, hp, hf⟩ := h
  obtain ⟨i, hi⟩ := List.getElem?_of_mem hr
  exact ⟨r, List.mem_of_getElem? (registers_step hs hi hp), hp, hf⟩

theorem Delivery.Justifies.of_eq {d' : Delivery B V} {type : RPCMessageType} {v : V}
    (hj : d.Justifies cfg q type v) (he : d'.executed = d.executed) (hr : d'.returned = d.returned)
    (hq : d'.queue = d.queue) (hp : d'.packet = d.packet) : d'.Justifies cfg q type v := by
  induction hj with
  | result h => exact .result (hr.trans h)
  | raised h => exact .raised (hr.trans h)
  | undeserializable h =>
    rw [← hp] at h
    exact .undeserializable h
  | unregistered h =>
    rw [← hq]
    exact .unregistered (he.trans h)
  | unserializable _ hs ih => exact .unserializable ih hs

theorem Delivery.note_eq {e : HandlerEvent V} {pc : HandlerPc V} (he : ∀ r, e ≠ .executed r)
    (hx : ∀ func v, pc ≠ .executing func v) (hp : ∀ r, pc ≠ .publishing r) : d.note e pc = d := by
  cases e with
  | executed r => exact absurd rfl (he r)
  | _ =>
    cases pc with
    | executing func v => exact absurd rfl (hx func v)
    | publishing r => exact absurd rfl (hp r)
    | _ => rfl

theorem CallHandler.answer_pc_cases (h : CallHandler V) (v : V) (type : RPCMessageType) :
    (h.answer v type).pc = .serializing v type ∨ (h.answer v type).pc = .settling := by
  unfold CallHandler.answer
  split
  · exact Or.inl rfl
  · exact Or.inr rfl

theorem Delivery.note_answer {e : HandlerEvent V} (he : ∀ r, e ≠ .executed r) {v : V}
    {type : RPCMessageType} : d.note e (h.answer v type).pc = d := by
  rcases CallHandler.answer_pc_cases h v type with hp | hp
  · rw [hp]
    exact note_eq he nofun nofun
  · rw [hp]
    exact note_eq he nofun nofun

theorem Delivery.note_result {r : Except V V} {v : V} {type : RPCMessageType} :
    d.note (.executed r) (h.answer v type).pc = { d with returned := some r } := by
  rcases CallHandler.answer_pc_cases h v type with hp | hp
  · rw [hp]
    rfl
  · rw [hp]
    rfl

namespace Delivery.Records

theorem move (hr : d.Records cfg q h) {pc : HandlerPc V} (ha : d.At cfg q pc)
    (ho : CallHandler.Owes { h with pc := pc }) : d.Records cfg q { h with pc := pc } where
  key := hr.key
  request := hr.request
  pc := ha
  executed := hr.executed
  returned := hr.returned
  reply := hr.reply
  sent := hr.sent
  replies := hr.replies
  owes := ho
  acked := hr.acked

theorem settle (hr : d.Records cfg q h) (hs : h.settlements = []) {frame : Message.Frame}
    (hf : frame = .ack false → ¬ h.request.Answered ∨ h.replies ≠ []) :
    d.Records cfg q (h.settle frame) where
  key := hr.key
  request := hr.request
  pc := trivial
  executed := hr.executed
  returned := hr.returned
  reply := hr.reply
  sent := hr.sent
  replies := hr.replies
  owes := CallHandler.settle_settled hs hf
  acked := (CallHandler.settle_settled hs hf).acked

theorem answer (hr : d.Records cfg q h) (hs : h.settlements = []) (hn : d.reply = none)
    {type : RPCMessageType} {v : V} (hj : d.Justifies cfg q type v) :
    d.Records cfg q (h.answer v type) := by
  unfold CallHandler.answer
  split
  · exact hr.move ⟨hn, hj⟩ hs
  · rename_i ha
    exact hr.settle hs fun _ => Or.inl ha

theorem execute (hr : d.Records cfg q h) (hs : h.settlements = []) {func : ℕ} {v : V}
    (hn : d.executed = none ∧ d.returned = none ∧ d.reply = none)
    (hv : cfg.codec.deserializeMessage d.packet.message = .ok v) :
    Records cfg q { d with executed := some (func, v) } { h with pc := .executing func v } where
  key := hr.key
  request := hr.request
  pc := ⟨rfl, hn.2.1, hn.2.2⟩
  executed _ _ he := by
    obtain ⟨-, rfl⟩ := Prod.mk.inj (Option.some.inj he)
    exact hv
  returned _ := Option.some_ne_none _
  reply r he := absurd (hn.2.2.symm.trans he) (Option.some_ne_none r).symm
  sent := hr.sent
  replies := hr.replies
  owes := hs
  acked := hr.acked

theorem result (hr : d.Records cfg q h) {func : ℕ} {v : V}
    (hn : d.executed = some (func, v) ∧ d.returned = none ∧ d.reply = none)
    (result : Except V V) :
    Records cfg q { d with returned := some result } { h with pc := .raised } where
  key := hr.key
  request := hr.request
  pc := trivial
  executed := hr.executed
  returned _ := Option.ne_none_iff_exists'.mpr ⟨_, hn.1⟩
  reply r he := absurd (hn.2.2.symm.trans he) (Option.some_ne_none r).symm
  sent := hr.sent
  replies := hr.replies
  owes := trivial
  acked := hr.acked

theorem publish (hr : d.Records cfg q h) (hs : h.settlements = [])
    {type : RPCMessageType} {v : V} (hj : d.Justifies cfg q type v) :
    Records cfg q { d with reply := some ⟨h.request.replyTo.getD "", h.request.correlationId,
      h.request.deliveryMode, type, v⟩ } (h.publish v type) where
  key := hr.key
  request := hr.request
  pc := rfl
  executed := hr.executed
  returned := hr.returned
  reply r he := by
    obtain rfl := Option.some.inj he
    refine ⟨hj.of_eq rfl rfl rfl rfl, ?_, ?_⟩
    · exact congrArg (fun r : Request => r.replyTo.getD "") hr.request
    · exact congrArg Request.correlationId hr.request
  sent _ := Option.some_ne_none _
  replies := hr.replies
  owes := hs
  acked := hr.acked

theorem published (hr : d.Records cfg q h) (hs : h.settlements = []) {reply : Reply V}
    (hsent : d.sent = true) :
    d.Records cfg q
      (CallHandler.settle { h with replies := h.replies ++ [reply] } (.ack false)) := by
  have hneutral : d.Records cfg q { h with pc := .raised, replies := h.replies ++ [reply] } := {
    key := hr.key
    request := hr.request
    pc := trivial
    executed := hr.executed
    returned := hr.returned
    reply := hr.reply
    sent := hr.sent
    replies := fun _ => hsent
    owes := trivial
    acked := fun hm => by
      rw [hs] at hm
      cases hm }
  exact hneutral.settle hs fun _ => Or.inr (by simp)

/-- What is noted of a step, and that a reply is the last thing noted. -/
theorem next (hr : d.Records cfg q h) {routes : Dict String ℕ} {a : Await V} {e : HandlerEvent V}
    (he : d.event cfg h.pc a = some e) (hn : h.next (cfg.rpc q) routes h.pc e = some h') :
    (d.note e h'.pc).Records cfg q h' ∧ (d.reply ≠ none → d.note e h'.pc = d) := by
  have hpc := hr.pc
  have howes := hr.owes
  unfold CallHandler.Owes at howes
  have hraised : d.Records cfg q { h with pc := .raised } := hr.move trivial trivial
  cases hp : h.pc with
  | deserializing =>
    rw [hp] at hpc howes he hn
    refine ⟨?_, fun hne => absurd hpc.2.2 hne⟩
    cases a with
    | deserialize =>
      obtain rfl := Option.some.inj he
      cases hv : cfg.codec.deserializeMessage d.packet.message with
      | ok v =>
        rw [hv] at hn
        simp only [CallHandler.next] at hn
        split at hn
        · obtain rfl := Option.some.inj hn
          exact hr.execute howes hpc hv
        · obtain rfl := Option.some.inj hn
          rw [note_answer (by simp), hr.key]
          exact hr.answer howes hpc.2.2 (.unregistered hpc.1)
      | error exc =>
        rw [hv] at hn
        obtain rfl := Option.some.inj hn
        rw [note_answer (by simp)]
        exact hr.answer howes hpc.2.2 (.undeserializable hv)
    | interrupted =>
      obtain rfl := Option.some.inj he
      obtain rfl := Option.some.inj hn
      exact hraised
    | _ => cases he
  | executing func v =>
    rw [hp] at hpc howes he hn
    refine ⟨?_, fun hne => absurd hpc.2.2 hne⟩
    cases a with
    | executed result =>
      obtain rfl := Option.some.inj he
      have hresult := hr.result hpc result
      cases result with
      | ok w =>
        obtain rfl := Option.some.inj hn
        rw [note_result]
        exact hresult.answer howes hpc.2.2 (.result rfl)
      | error exc =>
        obtain rfl := Option.some.inj hn
        rw [note_result]
        exact hresult.answer howes hpc.2.2 (.raised rfl)
    | interrupted =>
      obtain rfl := Option.some.inj he
      obtain rfl := Option.some.inj hn
      exact hraised
    | _ => cases he
  | serializing v type =>
    rw [hp] at hpc howes he hn
    refine ⟨?_, fun hne => absurd hpc.1 hne⟩
    cases a with
    | serialize =>
      simp only [event] at he
      split at he
      · obtain rfl := Option.some.inj he
        obtain rfl := Option.some.inj hn
        exact hr.publish howes hpc.2
      · rename_i exc hv
        obtain rfl := Option.some.inj he
        obtain rfl := Option.some.inj hn
        exact hr.move ⟨hpc.1, .unserializable hpc.2 hv⟩ howes
    | interrupted =>
      obtain rfl := Option.some.inj he
      obtain rfl := Option.some.inj hn
      exact hraised
    | _ => cases he
  | serializingError v =>
    rw [hp] at hpc howes he hn
    refine ⟨?_, fun hne => absurd hpc.1 hne⟩
    cases a with
    | serialize =>
      simp only [event] at he
      split at he
      · obtain rfl := Option.some.inj he
        obtain rfl := Option.some.inj hn
        exact hr.publish howes hpc.2
      · obtain rfl := Option.some.inj he
        obtain rfl := Option.some.inj hn
        exact hraised
    | interrupted =>
      obtain rfl := Option.some.inj he
      obtain rfl := Option.some.inj hn
      exact hraised
    | _ => cases he
  | publishing reply =>
    rw [hp] at howes he hn
    cases a with
    | published ok =>
      simp only [event] at he
      split at he
      · rename_i hsent
        obtain rfl := Option.some.inj he
        cases ok with
        | true =>
          obtain rfl := Option.some.inj hn
          exact ⟨hr.published howes (hsent rfl), fun _ => rfl⟩
        | false =>
          obtain rfl := Option.some.inj hn
          exact ⟨hr.settle howes fun hf => (by cases hf), fun _ => rfl⟩
      · cases he
    | interrupted =>
      obtain rfl := Option.some.inj he
      obtain rfl := Option.some.inj hn
      exact ⟨hraised, fun _ => rfl⟩
    | _ => cases he
  | settling =>
    rw [hp] at he hn
    cases a with
    | settled =>
      obtain rfl := Option.some.inj he
      obtain rfl := Option.some.inj hn
      exact ⟨hr.move trivial trivial, fun _ => rfl⟩
    | interrupted =>
      obtain rfl := Option.some.inj he
      obtain rfl := Option.some.inj hn
      exact ⟨hraised, fun _ => rfl⟩
    | _ => cases he
  | returned =>
    rw [hp] at hn
    cases e <;> cases hn
  | raised =>
    rw [hp] at hn
    cases e <;> cases hn

end Delivery.Records

theorem routes_step (hr : ∀ key func, s.routes.get? key = some func → Registered rpc s key func)
    (hs : serve rpc s a = some t) :
    ∀ key func, t.routes.get? key = some func → Registered rpc t key func := by
  intro key func hk
  have hsame : t.routes = s.routes → Registered rpc t key func := by
    intro he
    rw [he] at hk
    exact (hr key func hk).step hs
  cases serve_cases hs with
  | @registered i f consumer method queue hi =>
    have hlt : i < s.registers.length := (List.getElem?_eq_some_iff.mp hi).1
    have hk : (s.routes.set (rpc.formatRoutingKey method) f).get? key = some func := hk
    by_cases he : key = rpc.formatRoutingKey method
    · subst he
      rw [Dict.get?_set_self] at hk
      obtain rfl := Option.some.inj hk
      exact ⟨⟨method, f, .registered⟩, List.mem_of_getElem? (List.getElem?_set_self hlt), rfl, rfl,
        rfl⟩
    · rw [Dict.get?_set_ne he] at hk
      exact (hr key func hk).step hs
  | unregistered =>
    have hk : (s.routes.pop _).get? key = some func := hk
    exact (hr key func (Dict.of_get?_pop hk).2).step hs
  | declared | bound =>
    refine hsame ?_
    unfold Server.consume
    split <;> rfl
  | _ => exact hsame rfl

theorem inFlight_step (hs : serve rpc s a = some t) :
    t.inFlight = s.inFlight ∧ (∀ c r, a ≠ .deliver c r) ∧ (∀ n, a ≠ .handle n) ∨
    (∃ c r func method, a = .deliver c r ∧ s.consumers[c]? = some ⟨method, func, true⟩ ∧
      t.inFlight = s.inFlight ++ [(method, r)]) ∨
    ∃ n, a = .handle n ∧ t.inFlight = s.inFlight.eraseIdx n := by
  cases serve_cases hs with
  | deliver hc => exact Or.inr (Or.inl ⟨_, _, _, _, rfl, hc, rfl⟩)
  | handle => exact Or.inr (Or.inr ⟨_, rfl, rfl⟩)
  | declared | bound =>
    refine Or.inl ⟨?_, nofun, nofun⟩
    unfold Server.consume
    split <;> rfl
  | _ => exact Or.inl ⟨rfl, nofun, nofun⟩

theorem settlements_next {routes : Dict String ℕ} {e : HandlerEvent V}
    (hn : h.next rpc routes h.pc e = some h') : h.settlements ⊆ h'.settlements := by
  have hanswer : ∀ {v : V} {type : RPCMessageType},
      h.settlements ⊆ (h.answer v type).settlements := by
    intro v type
    unfold CallHandler.answer
    split
    · exact List.Subset.refl _
    · exact List.subset_append_left _ _
  unfold CallHandler.next at hn
  split at hn
  · split at hn
    · obtain rfl := Option.some.inj hn
      exact List.Subset.refl _
    · obtain rfl := Option.some.inj hn
      exact hanswer
  all_goals
    first
    | (obtain rfl := Option.some.inj hn; exact List.Subset.refl _)
    | (obtain rfl := Option.some.inj hn; exact List.subset_append_left _ _)
    | (obtain rfl := Option.some.inj hn; exact hanswer)
    | cases hn

/-- A function is called when its payload is there, if it is routed. -/
theorem routed_of_next {routes : Dict String ℕ} {e : HandlerEvent V} {func : ℕ} {v : V}
    (hn : h.next rpc routes h.pc e = some h') (hp : h'.pc = .executing func v) :
    h.pc = .deserializing ∧ routes.get? h.routingKey = some func := by
  have hanswer : ∀ {w : V} {type : RPCMessageType},
      (h.answer w type).pc ≠ .executing func v := by
    intro w type hp
    rcases CallHandler.answer_pc_cases h w type with hpc | hpc
    · cases hpc.symm.trans hp
    · cases hpc.symm.trans hp
  unfold CallHandler.next at hn
  split at hn
  · split at hn
    · rename_i hget
      obtain rfl := Option.some.inj hn
      obtain ⟨rfl, rfl⟩ := HandlerPc.executing.inj hp
      exact ⟨by assumption, hget⟩
    · obtain rfl := Option.some.inj hn
      exact absurd hp hanswer
  all_goals
    first
    | (obtain rfl := Option.some.inj hn; exact absurd hp hanswer)
    | (obtain rfl := Option.some.inj hn; cases hp)
    | cases hn

/-- What was noted of a run stays, and nothing more is noted after its reply. -/
structure Delivery.Le (d d' : Delivery B V) : Prop where
  packet : d'.packet = d.packet
  queue : d'.queue = d.queue
  executed : ∀ x, d.executed = some x → d'.executed = some x
  replied : d.reply ≠ none →
    d'.reply = d.reply ∧ d'.executed = d.executed ∧ d'.returned = d.returned
  sent : d.sent = true → d'.sent = true

def Callee.Le (e e' : Callee B V) : Prop :=
  ∀ (j : ℕ) (d : Delivery B V) (h : CallHandler V), e.runs[j]? = some d →
    e.server.handlers[j]? = some h → ∃ d' h', e'.runs[j]? = some d' ∧
      e'.server.handlers[j]? = some h' ∧ d.Le d' ∧ h.settlements ⊆ h'.settlements

theorem Delivery.Le.refl : d.Le d where
  packet := rfl
  queue := rfl
  executed _ h := h
  replied _ := ⟨rfl, rfl, rfl⟩
  sent h := h

theorem Delivery.Records.note_le (hr : d.Records cfg q h) {routes : Dict String ℕ} {a : Await V}
    {e : HandlerEvent V} (he : d.event cfg h.pc a = some e)
    (hn : h.next (cfg.rpc q) routes h.pc e = some h') : d.Le (d.note e h'.pc) where
  packet := rfl
  queue := rfl
  executed x hx := by
    have hpc := hr.pc
    cases hp : h'.pc with
    | executing func v =>
      rw [(routed_of_next hn hp).1] at hpc
      cases hx.symm.trans hpc.1
    | _ => exact hx
  replied hne := by
    rw [(hr.next he hn).2 hne]
    exact ⟨rfl, rfl, rfl⟩
  sent h := h

variable {e : Callee B V} {server : Server V}

theorem Callee.Recorded.run (hr : e.Recorded cfg q) {j : ℕ} (hd : e.runs[j]? = some d) :
    ∃ h, e.server.handlers[j]? = some h ∧ d.Records cfg q h := by
  have hlt : j < e.server.handlers.length := by
    rw [hr.length]
    exact (List.getElem?_eq_some_iff.mp hd).1
  exact ⟨_, List.getElem?_eq_getElem hlt, hr.runs j d _ hd (List.getElem?_eq_getElem hlt)⟩

theorem Callee.Le.of_handlers {e' : Callee B V} (hr : e'.runs = e.runs)
    (hh : e'.server.handlers = e.server.handlers) : e.Le e' := by
  intro j d h hd hj
  exact ⟨d, h, by rw [hr, hd], by rw [hh, hj], .refl, List.Subset.refl _⟩

theorem handlers_of_not_run (hs : serve rpc s a = some t) (hh : ∀ n, a ≠ .handle n)
    (he : ∀ j e, a ≠ .event j e) : t.handlers = s.handlers := by
  rcases handlers_step hs with ⟨h, -⟩ | ⟨n, method, request, rfl, -⟩ | ⟨j, e, h, h', rfl, -⟩
  · exact h
  · exact absurd rfl (hh n)
  · exact absurd rfl (he j e)

theorem Callee.Recorded.register (hr : e.Recorded cfg q)
    (hs : serve (cfg.rpc q) e.server a = some server) (ha : Registers a = true) :
    Callee.Recorded cfg q { e with server := server } ∧
      e.Le { e with server := server } := by
  have hhandlers : server.handlers = e.server.handlers := by
    refine handlers_of_not_run hs ?_ ?_
    · rintro n rfl
      cases ha
    · rintro j ev rfl
      cases ha
  refine ⟨?_, .of_handlers rfl hhandlers⟩
  constructor
  · rcases inFlight_step hs with ⟨h, -⟩ | ⟨c, r, func, method, rfl, -⟩ | ⟨n, rfl, -⟩
    · simp only [h]
      exact hr.inFlight
    · cases ha
    · cases ha
  · simp only [hhandlers]
    exact hr.length
  · exact hr.untouched
  · simp only [hhandlers]
    exact hr.runs
  · exact routes_step hr.routes hs
  · exact fun d hd func v hx => (hr.executed d hd func v hx).step hs

theorem Callee.Recorded.deliver (hr : e.Recorded cfg q) {c : ℕ} {k : Packet B} {member : Consumer}
    (hc : e.server.consumers[c]? = some member)
    (hs : serve (cfg.rpc q) e.server (.deliver c k.request) = some server) :
    Callee.Recorded cfg q { e with
      server := server
      requests := e.requests ++ [⟨k, (cfg.rpc q).formatRoutingKey member.method, true,
        none, none, none, false⟩] } ∧
    e.Le { e with
      server := server
      requests := e.requests ++ [⟨k, (cfg.rpc q).formatRoutingKey member.method, true,
        none, none, none, false⟩] } := by
  have hhandlers : server.handlers = e.server.handlers := handlers_of_not_run hs nofun nofun
  refine ⟨?_, .of_handlers rfl hhandlers⟩
  constructor
  · rcases inFlight_step hs with ⟨-, h, -⟩ | ⟨c', r, func, method, he, hc', h⟩ | ⟨n, h, -⟩
    · exact absurd rfl (h c k.request)
    · obtain ⟨rfl, rfl⟩ := ServerAction.deliver.inj he
      obtain rfl := Option.some.inj (hc.symm.trans hc')
      simp only [h, List.map_append, hr.inFlight]
      rfl
    · cases h
  · simp only [hhandlers]
    exact hr.length
  · intro d hd
    rcases List.mem_append.mp hd with hd | hd
    · exact hr.untouched d hd
    · obtain rfl := List.mem_singleton.mp hd
      exact ⟨rfl, rfl, rfl, rfl⟩
  · simp only [hhandlers]
    exact hr.runs
  · exact routes_step hr.routes hs
  · exact fun d hd func v hx => (hr.executed d hd func v hx).step hs

theorem Delivery.Records.start {method : String}
    (hq : (cfg.rpc q).formatRoutingKey method = d.queue)
    (hd : d.executed = none ∧ d.returned = none ∧ d.reply = none ∧ d.sent = false) :
    d.Records cfg q (s.handle (cfg.rpc q) method d.packet.request) := by
  obtain ⟨he, hn, hr, hs⟩ := hd
  unfold Server.handle
  split
  · exact {
      key := hq
      request := rfl
      pc := ⟨he, hn, hr⟩
      executed := fun func v h => by cases he.symm.trans h
      returned := fun h => absurd hn h
      reply := fun r h => by cases hr.symm.trans h
      sent := fun h => by cases hs.symm.trans h
      replies := fun h => absurd rfl h
      owes := rfl
      acked := fun h => by cases h }
  · exact {
      key := hq
      request := rfl
      pc := trivial
      executed := fun func v h => by cases he.symm.trans h
      returned := fun h => absurd hn h
      reply := fun r h => by cases hr.symm.trans h
      sent := fun h => by cases hs.symm.trans h
      replies := fun h => absurd rfl h
      owes := trivial
      acked := fun h => by cases h }

theorem Callee.Recorded.handle (hr : e.Recorded cfg q) {n : ℕ} (hd : e.requests[n]? = some d)
    (hs : serve (cfg.rpc q) e.server (.handle n) = some server) :
    Callee.Recorded cfg q { e with
      server := server
      requests := e.requests.eraseIdx n
      runs := e.runs ++ [d] } ∧
    e.Le { e with
      server := server
      requests := e.requests.eraseIdx n
      runs := e.runs ++ [d] } := by
  have hdu := hr.untouched d (List.mem_of_getElem? hd)
  rcases handlers_step hs with ⟨-, h⟩ | ⟨n', method, request, hn, hget, hhandlers⟩ |
    ⟨j, ev, h, h', hn, -⟩
  · exact absurd rfl (h n)
  · obtain rfl := ServerAction.handle.inj hn
    have halign : ((cfg.rpc q).formatRoutingKey method, request) = (d.queue, d.packet.request) := by
      have h : (e.server.inFlight.map fun x => ((cfg.rpc q).formatRoutingKey x.1, x.2))[n]? =
          (e.requests.map fun d => (d.queue, d.packet.request))[n]? := by rw [hr.inFlight]
      rw [List.getElem?_map, List.getElem?_map, hget, hd] at h
      exact Option.some.inj h
    obtain ⟨hq, rfl⟩ := Prod.mk.inj halign
    have hlen := hr.length
    constructor
    · constructor
      · rcases inFlight_step hs with ⟨-, -, h⟩ | ⟨c, r, func, m, h, -⟩ | ⟨n', h, hin⟩
        · exact absurd rfl (h n)
        · cases h
        · obtain rfl := ServerAction.handle.inj h
          simp only [hin, ← List.eraseIdx_map, hr.inFlight]
      · simp only [hhandlers, List.length_append, List.length_singleton, hlen]
      · exact fun d' hd' => hr.untouched d' (List.mem_of_mem_eraseIdx hd')
      · intro j d' h' hd' hj'
        simp only [hhandlers] at hj'
        rcases Members.of_append hd' with hd' | ⟨hj, rfl⟩
        · have hne : j ≠ e.server.handlers.length := by
            rw [hlen]
            exact Nat.ne_of_lt (List.getElem?_eq_some_iff.mp hd').1
          rw [Members.get_append_ne hne] at hj'
          exact hr.runs j d' h' hd' hj'
        · rw [hj, ← hlen, List.getElem?_concat_length] at hj'
          obtain rfl := Option.some.inj hj'
          exact .start hq hdu
      · exact routes_step hr.routes hs
      · intro d' hd' func v hx
        rcases List.mem_append.mp hd' with hd' | hd'
        · exact (hr.executed d' hd' func v hx).step hs
        · obtain rfl := List.mem_singleton.mp hd'
          cases hdu.1.symm.trans hx
    · intro j d' h' hd' hj'
      refine ⟨d', h', ?_, ?_, .refl, List.Subset.refl _⟩
      · exact (List.getElem?_append_left (List.getElem?_eq_some_iff.mp hd').1).trans hd'
      · simp only [hhandlers]
        exact (List.getElem?_append_left (List.getElem?_eq_some_iff.mp hj').1).trans hj'
  · cases hn

theorem Callee.Recorded.event (hr : e.Recorded cfg q) {j : ℕ} {a : Await V} {ev : HandlerEvent V}
    (hd : e.runs[j]? = some d) (hj : e.server.handlers[j]? = some h)
    (he : d.event cfg h.pc a = some ev)
    (hs : serve (cfg.rpc q) e.server (.event j ev) = some server)
    (hj' : server.handlers[j]? = some h') :
    Callee.Recorded cfg q { e with server := server, runs := e.runs.set j (d.note ev h'.pc) } ∧
      e.Le { e with server := server, runs := e.runs.set j (d.note ev h'.pc) } := by
  have hrec := hr.runs j d h hd hj
  cases serve_cases hs with
  | event hx hn =>
    obtain rfl := Option.some.inj (hj.symm.trans hx)
    have hlt : j < e.server.handlers.length := (List.getElem?_eq_some_iff.mp hj).1
    obtain rfl := Option.some.inj (hj'.symm.trans (List.getElem?_set_self hlt))
    have hnote := (hrec.next he hn).1
    constructor
    · constructor
      · exact hr.inFlight
      · simp only [List.length_set]
        exact hr.length
      · exact hr.untouched
      · intro i d' x hd' hi
        rcases Members.of_set hi with ⟨rfl, rfl⟩ | ⟨hne, hi⟩
        · rw [List.getElem?_set_self (List.getElem?_eq_some_iff.mp hd).1] at hd'
          obtain rfl := Option.some.inj hd'
          exact hnote
        · rw [List.getElem?_set_ne (Ne.symm hne)] at hd'
          exact hr.runs i d' x hd' hi
      · exact hr.routes
      · intro d' hd' func v hx
        rcases List.mem_or_eq_of_mem_set hd' with hd' | rfl
        · exact hr.executed d' hd' func v hx
        · cases hp : h'.pc with
          | executing f w =>
            rw [hp] at hx
            obtain ⟨rfl, rfl⟩ := Prod.mk.inj (Option.some.inj hx)
            have hget := (routed_of_next hn hp).2
            rw [hrec.key] at hget
            exact hr.routes d.queue f hget
          | _ =>
            rw [hp] at hx
            exact hr.executed d (List.mem_of_getElem? hd) func v hx
    · intro i d' x hd' hi
      by_cases hij : j = i
      · subst hij
        obtain rfl := Option.some.inj (hd.symm.trans hd')
        obtain rfl := Option.some.inj (hj.symm.trans hi)
        exact ⟨_, _, List.getElem?_set_self (List.getElem?_eq_some_iff.mp hd).1,
          List.getElem?_set_self hlt, hrec.note_le he hn, settlements_next hn⟩
      · exact ⟨d', x, (List.getElem?_set_ne hij).trans hd', (List.getElem?_set_ne hij).trans hi,
          .refl, List.Subset.refl _⟩

/-- Only what the broker knows of a run changes. -/
structure Delivery.SameWork (d d' : Delivery B V) : Prop where
  packet : d'.packet = d.packet
  queue : d'.queue = d.queue
  executed : d'.executed = d.executed
  returned : d'.returned = d.returned
  reply : d'.reply = d.reply
  sent : d.sent = true → d'.sent = true
  replied : d'.sent = true → d.sent = true ∨ d.reply ≠ none

theorem Delivery.SameWork.le {d' : Delivery B V} (hw : d.SameWork d') : d.Le d' where
  packet := hw.packet
  queue := hw.queue
  executed _ hx := hw.executed.trans hx
  replied _ := ⟨hw.reply, hw.executed, hw.returned⟩
  sent := hw.sent

theorem Delivery.Justifies.of_work {d' : Delivery B V} (hw : d.SameWork d')
    {type : RPCMessageType} {v : V} (hj : d.Justifies cfg q type v) :
    d'.Justifies cfg q type v :=
  hj.of_eq hw.executed hw.returned hw.queue hw.packet

theorem Delivery.Records.of_work {d' : Delivery B V} (hr : d.Records cfg q h)
    (hw : d.SameWork d') : d'.Records cfg q h where
  key := hr.key.trans hw.queue.symm
  request := hr.request.trans (congrArg Packet.request hw.packet.symm)
  pc := by
    have hpc := hr.pc
    cases hp : h.pc with
    | deserializing =>
      rw [hp] at hpc
      exact ⟨hw.executed.trans hpc.1, hw.returned.trans hpc.2.1, hw.reply.trans hpc.2.2⟩
    | executing func v =>
      rw [hp] at hpc
      exact ⟨hw.executed.trans hpc.1, hw.returned.trans hpc.2.1, hw.reply.trans hpc.2.2⟩
    | serializing v type =>
      rw [hp] at hpc
      exact ⟨hw.reply.trans hpc.1, hpc.2.of_work hw⟩
    | serializingError v =>
      rw [hp] at hpc
      exact ⟨hw.reply.trans hpc.1, hpc.2.of_work hw⟩
    | publishing reply =>
      rw [hp] at hpc
      exact hw.reply.trans hpc
    | _ => trivial
  executed func v hx := by
    rw [hw.packet]
    exact hr.executed func v (hw.executed.symm.trans hx)
  returned hn := by
    rw [hw.executed]
    rw [hw.returned] at hn
    exact hr.returned hn
  reply r hx := by
    rw [hw.packet]
    obtain ⟨hj, hkey, hid⟩ := hr.reply r (hw.reply.symm.trans hx)
    exact ⟨hj.of_work hw, hkey, hid⟩
  sent hs := by
    rw [hw.reply]
    exact (hw.replied hs).elim hr.sent id
  replies hn := hw.sent (hr.replies hn)
  owes := hr.owes
  acked := hr.acked

theorem Callee.Recorded.setRun (hr : e.Recorded cfg q) {j : ℕ} {d' : Delivery B V}
    (hd : e.runs[j]? = some d) (hw : d.SameWork d') :
    Callee.Recorded cfg q { e with runs := e.runs.set j d' } ∧
      e.Le { e with runs := e.runs.set j d' } := by
  have hget : (e.runs.set j d')[j]? = some d' :=
    List.getElem?_set_self (List.getElem?_eq_some_iff.mp hd).1
  constructor
  · constructor
    · exact hr.inFlight
    · simp only [List.length_set]
      exact hr.length
    · exact hr.untouched
    · intro i x h hx hi
      rcases Members.of_set hx with ⟨rfl, rfl⟩ | ⟨-, hx⟩
      · exact (hr.runs i d h hd hi).of_work hw
      · exact hr.runs i x h hx hi
    · exact hr.routes
    · intro x hx func v hexec
      rcases List.mem_or_eq_of_mem_set hx with hx | rfl
      · exact hr.executed x hx func v hexec
      · rw [hw.queue]
        exact hr.executed d (List.mem_of_getElem? hd) func v (hw.executed.symm.trans hexec)
  · intro i x h hx hi
    by_cases hij : j = i
    · subst hij
      obtain rfl := Option.some.inj (hd.symm.trans hx)
      exact ⟨d', h, hget, hi, hw.le, List.Subset.refl _⟩
    · exact ⟨x, h, (List.getElem?_set_ne hij).trans hx, hi, .refl, List.Subset.refl _⟩

theorem Delivery.sameWork_unacked : d.SameWork { d with unacked := false } where
  packet := rfl
  queue := rfl
  executed := rfl
  returned := rfl
  reply := rfl
  sent h := h
  replied := Or.inl

theorem Delivery.sameWork_sent (hr : d.reply ≠ none) : d.SameWork { d with sent := true } where
  packet := rfl
  queue := rfl
  executed := rfl
  returned := rfl
  reply := rfl
  sent _ := rfl
  replied _ := Or.inr hr

theorem Callee.Recorded.forget (hr : e.Recorded cfg q) :
    e.forget.Recorded cfg q ∧ e.Le e.forget := by
  constructor
  · constructor
    · simpa [Callee.forget, Function.comp_def] using hr.inFlight
    · simpa [Callee.forget] using hr.length
    · intro d hd
      obtain ⟨d', hd', rfl⟩ := List.mem_map.mp hd
      exact hr.untouched d' hd'
    · intro j d h hd hj
      simp only [Callee.forget, List.getElem?_map, Option.map_eq_some_iff] at hd
      obtain ⟨d, hd, rfl⟩ := hd
      exact (hr.runs j d h hd hj).of_work Delivery.sameWork_unacked
    · exact hr.routes
    · intro d hd func v hx
      obtain ⟨d', hd', rfl⟩ := List.mem_map.mp hd
      exact hr.executed d' hd' func v hx
  · intro j d h hd hj
    refine ⟨{ d with unacked := false }, h, ?_, hj, Delivery.sameWork_unacked.le,
      List.Subset.refl _⟩
    simp [Callee.forget, hd]

theorem Callee.Le.refl : e.Le e := .of_handlers rfl rfl

theorem Callee.Le.trans {e' e'' : Callee B V} (h₁ : e.Le e') (h₂ : e'.Le e'') : e.Le e'' := by
  intro j d h hd hj
  obtain ⟨d', h', hd', hj', hle, hsub⟩ := h₁ j d h hd hj
  obtain ⟨d'', h'', hd'', hj'', hle', hsub'⟩ := h₂ j d' h' hd' hj'
  refine ⟨d'', h'', hd'', hj'', ?_, fun f hf => hsub' (hsub hf)⟩
  exact {
    packet := hle'.packet.trans hle.packet
    queue := hle'.queue.trans hle.queue
    executed := fun x hx => hle'.executed x (hle.executed x hx)
    replied := fun hne => by
      obtain ⟨hreply, hexec, hret⟩ := hle.replied hne
      rw [← hreply] at hne
      obtain ⟨hreply', hexec', hret'⟩ := hle'.replied hne
      exact ⟨hreply'.trans hreply, hexec'.trans hexec, hret'.trans hret⟩
    sent := fun hs => hle'.sent (hle.sent hs) }

/-- What is noted of the runs of all instances is right. -/
def Noted (cfg : Config B V) (s : System B V) : Prop :=
  ∀ (q : ℕ) (e : Callee B V), s.callees[q]? = some e → e.Recorded cfg q

def CalleeStep (cfg : Config B V) (s t : System B V) : Prop :=
  ∀ (q : ℕ) (e : Callee B V), s.callees[q]? = some e →
    ∃ e', t.callees[q]? = some e' ∧ e'.Recorded cfg q ∧ e.Le e'

@[simp] theorem toResults_callees {x : System B V} {queue : Option String}
    {m : Message String B} : (x.toResults cfg queue m).callees = x.callees := by
  rcases toResults_cases queue m with he | ⟨p, c, -, -, he⟩
  · rw [he]
  · rw [he]
    rfl

theorem calleeStep_of_set {x y : System B V} (h : Noted cfg x) {e' : Callee B V}
    (he : x.callees[q]? = some e) (hy : y.callees = x.callees.set q e')
    (hr : e'.Recorded cfg q ∧ e.Le e') : CalleeStep cfg x y := by
  intro q' e'' he''
  rw [hy]
  by_cases hq : q = q'
  · subst hq
    obtain rfl := Option.some.inj (he.symm.trans he'')
    exact ⟨e', List.getElem?_set_self (List.getElem?_eq_some_iff.mp he).1, hr⟩
  · exact ⟨e'', (List.getElem?_set_ne hq).trans he'', h q' e'' he'', .refl⟩

theorem calleeStep_of_eq {x y : System B V} (h : Noted cfg x) (hy : y.callees = x.callees) :
    CalleeStep cfg x y := by
  intro q' e' he'
  exact ⟨e', by rw [hy, he'], h q' e' he', .refl⟩

/-- The runs go on, and what is noted of them stays right. -/
theorem callees_step {x y : System B V} {b : NetworkAction V} (h : Noted cfg x)
    (hs : step cfg x b = some y) : CalleeStep cfg x y := by
  cases step_cases hs with
  | lost hp hq => exact calleeStep_of_set h hq rfl (h _ _ hq).forget
  | register hq hserve ha => exact calleeStep_of_set h hq rfl ((h _ _ hq).register hserve ha)
  | deliver hq hc _ _ hserve => exact calleeStep_of_set h hq rfl ((h _ _ hq).deliver hc hserve)
  | handle hq hd hserve => exact calleeStep_of_set h hq rfl ((h _ _ hq).handle hd hserve)
  | event hq hd hj he hserve hj' =>
    exact calleeStep_of_set h hq rfl ((h _ _ hq).event hd hj he hserve hj')
  | reply hq hd hr _ _ =>
    have hne := Option.ne_none_iff_exists'.mpr ⟨_, hr⟩
    exact calleeStep_of_set h hq toResults_callees
      ((h _ _ hq).setRun hd (Delivery.sameWork_sent hne))
  | acked hq hd =>
    exact calleeStep_of_set h hq rfl ((h _ _ hq).setRun hd Delivery.sameWork_unacked)
  | rejected hq hd =>
    exact calleeStep_of_set h hq toResults_callees
      ((h _ _ hq).setRun hd Delivery.sameWork_unacked)
  | expire => exact calleeStep_of_eq h toResults_callees
  | _ => exact calleeStep_of_eq h rfl

theorem callees_length {x y : System B V} {b : NetworkAction V} (hs : step cfg x b = some y) :
    y.callees.length = x.callees.length := by
  cases step_cases hs with
  | reply => rw [toResults_callees]; exact List.length_set
  | rejected => rw [toResults_callees]; exact List.length_set
  | expire => rw [toResults_callees]
  | lost => exact List.length_set
  | register => exact List.length_set
  | deliver => exact List.length_set
  | handle => exact List.length_set
  | event => exact List.length_set
  | acked => exact List.length_set
  | _ => rfl

theorem noted_step {x y : System B V} {b : NetworkAction V} (h : Noted cfg x)
    (hs : step cfg x b = some y) : Noted cfg y := by
  intro q e he
  have hlt : q < x.callees.length := by
    rw [← callees_length hs]
    exact (List.getElem?_eq_some_iff.mp he).1
  obtain ⟨e', he', hr, -⟩ := callees_step h hs q _ (List.getElem?_eq_getElem hlt)
  obtain rfl := Option.some.inj (he.symm.trans he')
  exact hr

theorem fresh_noted {n : ℕ} : Noted cfg (fresh n) := by
  intro q e he
  obtain rfl := List.eq_of_mem_replicate (List.mem_of_getElem? he)
  exact {
    inFlight := rfl
    length := rfl
    untouched := fun d hd => absurd hd List.not_mem_nil
    runs := fun j d h hd => by cases hd
    routes := fun key func hk => by cases hk
    executed := fun d hd => absurd hd List.not_mem_nil }

end AioPika.Rpc.Network
