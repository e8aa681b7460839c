import AioPika.Rpc.Redelivery

/-! # Where the outcome of a call comes from

A message in a result queue is the reply of a run for the request with its id, or
the request itself, by the dead letter exchange. So the outcome of a call is the
reply of a run that executed the function of its method with its payload, or
tells that there was none.
-/

namespace AioPika.Rpc

section Futures

variable {Id B V : Type*} [DecidableEq Id] {codec : Codec Id B V} {s t : State Id B V}
  {a : Action Id B V}

/-- What completes a future that was made for an id. -/
def Cause (codec : Codec Id B V) (s : State Id B V) (i : ℕ) (id : Id) :
    Action Id B V → Outcome V → Prop
  | .deserialized _, o =>
    ∃ h ∈ s.handlers, h.message.correlationId = some id ∧ Determines codec h.message o
  | .messageReturned m, o => m.correlationId = some id ∧
      o = .exception (.messageProcessError "Message has been returned")
  | .onClose none, o => o = .exception .exception
  | .onClose (some exc), o => o = .exception (.object exc)
  | .close, o => o = .exception .cancelledError
  | .cancelled j, o => j = i ∧ o = .cancelled
  | _, _ => False

/-- The futures carry the ids of their entries and of the messages that have taken them. -/
structure Addressed (s : State Id B V) : Prop where
  keys : ∀ id i, s.futures.get? id = some i → ∃ f, s.made[i]? = some f ∧ f.correlationId = id
  handlers : ∀ h ∈ s.handlers, ∃ f, s.made[h.future]? = some f ∧
    h.message.correlationId = some f.correlationId

theorem handlers_origin (hs : step codec s a = some t) {h : Handler Id B} (hh : h ∈ t.handlers) :
    (∃ g ∈ s.handlers, h.future = g.future ∧ h.message = g.message) ∨
    ∃ m id, a = .resultMessage m ∧ m.correlationId = some id ∧
      s.futures.get? id = some h.future ∧ h.message = m := by
  have hset : ∀ {j k : ℕ} {m : Message Id B} {finished : Bool},
      s.handlers[j]? = some ⟨k, m, false⟩ → h ∈ s.handlers.set j ⟨k, m, finished⟩ →
      ∃ g ∈ s.handlers, h.future = g.future ∧ h.message = g.message := by
    intro j k m finished hj hh
    rcases List.mem_or_eq_of_mem_set hh with hh | rfl
    · exact ⟨h, hh, rfl, rfl⟩
    · exact ⟨_, List.mem_of_getElem? hj, rfl, rfl⟩
  cases step_cases hs with
  | taken hm hk =>
    rcases List.mem_append.mp hh with hh | hh
    · exact Or.inl ⟨h, hh, rfl, rfl⟩
    · obtain rfl := List.mem_singleton.mp hh
      exact Or.inr ⟨_, _, rfl, hm, hk, rfl⟩
  | deserialized hj => exact Or.inl (hset hj hh)
  | interrupted hj => exact Or.inl (hset hj hh)
  | _ => exact Or.inl ⟨h, hh, rfl, rfl⟩

theorem made_step (h : Addressed s) (hs : step codec s a = some t) {i : ℕ} {f : Future Id V}
    (hf : s.made[i]? = some f) : ∃ g, t.made[i]? = some g ∧ g.correlationId = f.correlationId ∧
      (g.outcome = f.outcome ∨
        f.outcome = none ∧ ∃ o, g.outcome = some o ∧ Cause codec s i f.correlationId a o) := by
  have hsame : t.made = s.made → ∃ g, t.made[i]? = some g ∧
      g.correlationId = f.correlationId ∧
      (g.outcome = f.outcome ∨
        f.outcome = none ∧ ∃ o, g.outcome = some o ∧ Cause codec s i f.correlationId a o) := by
    intro he
    exact ⟨f, by rw [he, hf], rfl, Or.inl rfl⟩
  have hcomplete : ∀ {k : ℕ} {o : Outcome V},
      t.made = s.made.modify k (fun f => f.complete codec o) →
      (k = i → Cause codec s i f.correlationId a o) → ∃ g, t.made[i]? = some g ∧
      g.correlationId = f.correlationId ∧
      (g.outcome = f.outcome ∨
        f.outcome = none ∧ ∃ o, g.outcome = some o ∧ Cause codec s i f.correlationId a o) := by
    intro k o he hc
    rw [he, List.getElem?_modify, hf]
    by_cases hk : k = i
    · refine ⟨f.complete codec o, by simp [hk], Future.complete_id, ?_⟩
      exact Future.complete_outcome.imp_right fun ⟨hn, ho⟩ => ⟨hn, o, ho, hc hk⟩
    · exact ⟨f, by simp [hk], rfl, Or.inl rfl⟩
  have hall : ∀ {o : Outcome V}, t.made = (s.completeAll codec o).made →
      Cause codec s i f.correlationId a o → ∃ g, t.made[i]? = some g ∧
      g.correlationId = f.correlationId ∧
      (g.outcome = f.outcome ∨
        f.outcome = none ∧ ∃ o, g.outcome = some o ∧ Cause codec s i f.correlationId a o) := by
    intro o he hc
    have hget : t.made[i]? = some (if i ∈ s.futures.items.map Prod.snd then f.complete codec o
        else f) := by
      rw [he]
      simp [State.completeAll, hf]
    refine ⟨_, hget, ?_, ?_⟩
    · split
      · exact Future.complete_id
      · rfl
    · split
      · exact Future.complete_outcome.imp_right fun ⟨hn, ho⟩ => ⟨hn, o, ho, hc⟩
      · exact Or.inl rfl
  cases step_cases hs with
  | call =>
    exact ⟨f, (List.getElem?_append_left (List.getElem?_eq_some_iff.mp hf).1).trans hf, rfl,
      Or.inl rfl⟩
  | ignored => exact hsame rfl
  | taken => exact hsame rfl
  | @deserialized j k m hj =>
    refine hcomplete rfl fun hk => ?_
    obtain ⟨g, hg, hid⟩ := h.handlers _ (List.mem_of_getElem? hj)
    obtain rfl := Option.some.inj (hf.symm.trans (hk ▸ hg))
    exact ⟨_, List.mem_of_getElem? hj, hid, determines_iff.mpr rfl⟩
  | interrupted => exact hsame rfl
  | @returned m id k hm hk =>
    refine hcomplete rfl fun he => ?_
    obtain ⟨g, hg, rfl⟩ := h.keys _ _ hk
    obtain rfl := Option.some.inj (hf.symm.trans (he ▸ hg))
    exact ⟨hm, rfl⟩
  | @onClose exc =>
    cases exc with
    | none => exact hall rfl rfl
    | some v => exact hall rfl rfl
  | close => exact hall rfl rfl
  | cancelled => exact hcomplete rfl fun hj => ⟨hj, rfl⟩
  | @removed j g hg =>
    by_cases hj : j = i
    · subst hj
      obtain rfl := Option.some.inj (hf.symm.trans hg)
      exact ⟨_, List.getElem?_set_self (List.getElem?_eq_some_iff.mp hg).1, rfl, Or.inl rfl⟩
    · exact ⟨f, (List.getElem?_set_ne hj).trans hf, rfl, Or.inl rfl⟩

/-- A future that is done was done before, or something completes it. -/
theorem done_step (h : Addressed s) (hs : step codec s a = some t) {i : ℕ} {g : Future Id V}
    {o : Outcome V} (hg : t.made[i]? = some g) (ho : g.outcome = some o) :
    ∃ f, s.made[i]? = some f ∧ f.correlationId = g.correlationId ∧
      (f.outcome = some o ∨ f.outcome = none ∧ Cause codec s i g.correlationId a o) := by
  have hold : ∃ f, s.made[i]? = some f := by
    cases a with
    | call id =>
      obtain rfl := Option.some.inj hs
      rcases Members.of_append hg with hg | ⟨-, rfl⟩
      · exact ⟨g, hg⟩
      · cases ho
    | _ =>
      obtain ⟨f, hf, -⟩ := (kept_step hs nofun).pending i g hg
      exact ⟨f, hf⟩
  obtain ⟨f, hf⟩ := hold
  obtain ⟨g', hg', hid, hout⟩ := made_step h hs hf
  obtain rfl := Option.some.inj (hg.symm.trans hg')
  refine ⟨f, hf, hid.symm, ?_⟩
  rcases hout with he | ⟨hn, o', ho', hcause⟩
  · exact Or.inl (he.symm.trans ho)
  · obtain rfl := Option.some.inj (ho.symm.trans ho')
    rw [hid]
    exact Or.inr ⟨hn, hcause⟩

theorem addressed_step (h : Addressed s) (hs : step codec s a = some t) : Addressed t := by
  have hmade : ∀ {i : ℕ} {f : Future Id V}, s.made[i]? = some f →
      ∃ g, t.made[i]? = some g ∧ g.correlationId = f.correlationId := by
    intro i f hf
    obtain ⟨g, hg, hid, -⟩ := made_step h hs hf
    exact ⟨g, hg, hid⟩
  constructor
  · intro id i hi
    have hold : s.futures.get? id = some i → ∃ f, t.made[i]? = some f ∧ f.correlationId = id := by
      intro hi
      obtain ⟨f, hf, rfl⟩ := h.keys id i hi
      exact hmade hf
    cases step_cases hs with
    | @call id' =>
      have hi : (s.futures.set id' s.made.length).get? id = some i := hi
      rw [Dict.get?_set] at hi
      split at hi
      · rename_i he
        obtain rfl := Option.some.inj hi
        exact ⟨_, List.getElem?_concat_length, he.symm⟩
      · exact hold hi
    | taken => exact hold (Dict.of_get?_pop hi).2
    | returned => exact hold (Dict.of_get?_pop hi).2
    | removed => exact hold (Dict.of_get?_pop hi).2
    | _ => exact hold hi
  · intro x hx
    rcases handlers_origin hs hx with ⟨g, hg, hfut, hmsg⟩ | ⟨m, id, -, hm, hk, hmsg⟩
    · obtain ⟨f, hf, hid⟩ := h.handlers g hg
      obtain ⟨f', hf', hid'⟩ := hmade hf
      exact ⟨f', by rw [hfut, hf'], by rw [hmsg, hid, hid']⟩
    · obtain ⟨f, hf, rfl⟩ := h.keys id _ hk
      obtain ⟨f', hf', hid'⟩ := hmade hf
      exact ⟨f', hf', by rw [hmsg, hm, hid']⟩

end Futures

end AioPika.Rpc

namespace AioPika.Rpc.Network

variable {B V : Type}

def IsCall (s : System B V) (key : String) (k : Packet B) : Prop :=
  ∃ c ∈ s.callers, ∃ call ∈ c.calls, call.packet = k ∧ call.routingKey = key

/-- Why the broker takes a request out of its queue for the dead letter exchange. -/
inductive DeadLettered (s : System B V) (k : Packet B) : Prop
  | expired (h : k.expiration.isSome = true)
  /-- The reply could not be published. -/
  | rejected {q j : ℕ} {e : Callee B V} {d : Delivery B V} {h : CallHandler V}
      (he : s.callees[q]? = some e) (hd : e.runs[j]? = some d)
      (hj : e.server.handlers[j]? = some h) (hk : d.packet = k)
      (hf : .reject false ∈ h.settlements)

variable (cfg : Config B V)

/-- The messages that answer a request. -/
inductive Answers (s : System B V) (k : Packet B) : Message String B → Prop
  | deadLettered (h : DeadLettered s k) : Answers s k k.message
  | replied {q j : ℕ} {e : Callee B V} {d : Delivery B V} {reply : Reply V} {body : B}
      (he : s.callees[q]? = some e) (hd : e.runs[j]? = some d) (hk : d.packet = k)
      (hr : d.reply = some reply) (hb : cfg.serialize reply.payload = .ok body) :
      Answers s k ⟨k.message.correlationId, some reply.type.value, body⟩

/-- A message answers the request of a call. -/
def Origin (s : System B V) (m : Message String B) : Prop :=
  ∃ key k, IsCall s key k ∧ Answers cfg s k m

/-- What an instance that calls knows. -/
structure Caller.Sound (s : System B V) (c : Caller B V) : Prop where
  addressed : Addressed c.rpc
  handlers : ∀ h ∈ c.rpc.handlers, Origin cfg s h.message
  results : ∀ m ∈ c.results, Origin cfg s m
  returns : ∀ k ∈ c.returns, ∃ call ∈ c.calls, call.packet = k ∧ call.stage = .returned
  own : ∀ call ∈ c.calls, ∃ f, c.rpc.made[call.future]? = some f ∧
    call.packet.message.correlationId = some f.correlationId

/-- All messages come from calls. -/
structure Genuine (s : System B V) : Prop where
  queues : ∀ key ks, s.queues.get? key = some ks → ∀ k ∈ ks, IsCall s key k
  deliveries : ∀ e ∈ s.callees, ∀ d ∈ e.requests ++ e.runs, IsCall s d.queue d.packet
  callers : ∀ c ∈ s.callers, c.Sound cfg s

/-- The calls of an instance stay, and what was returned stays returned. -/
structure Caller.Le (c c' : Caller B V) : Prop where
  kept : ∀ call ∈ c.calls, ∃ call' ∈ c'.calls, call'.packet = call.packet ∧
    call'.routingKey = call.routingKey ∧ (call.stage = .returned → call'.stage = .returned)

/-- What has happened stays. -/
structure Grows (s t : System B V) : Prop where
  callees : ∀ (q : ℕ) (e : Callee B V), s.callees[q]? = some e →
    ∃ e', t.callees[q]? = some e' ∧ e.Le e'
  callers : ∀ c ∈ s.callers, ∃ c' ∈ t.callers, c.Le c'

variable {cfg} {s t : System B V} {a : NetworkAction V} {c c' : Caller B V} {call : Call B}
  {k : Packet B} {m : Message String B} {o : Outcome V}

theorem IsCall.mono {key : String} (hg : Grows s t) (h : IsCall s key k) : IsCall t key k := by
  obtain ⟨c, hc, call, hcall, hk, hkey⟩ := h
  obtain ⟨c', hc', hle⟩ := hg.callers c hc
  obtain ⟨call', hcall', hp, hr, -⟩ := hle.kept call hcall
  exact ⟨c', hc', call', hcall', hp.trans hk, hr.trans hkey⟩

theorem DeadLettered.mono (hg : Grows s t) (h : DeadLettered s k) :
    DeadLettered t k := by
  cases h with
  | expired h => exact .expired h
  | rejected he hd hj hk hf =>
    obtain ⟨e', he', hle⟩ := hg.callees _ _ he
    obtain ⟨d', h', hd', hj', hdle, hsub⟩ := hle _ _ _ hd hj
    exact .rejected he' hd' hj' (hdle.packet.trans hk) (hsub hf)

theorem Answers.mono (hn : Noted cfg s) (hg : Grows s t) (h : Answers cfg s k m) :
    Answers cfg t k m := by
  cases h with
  | deadLettered h => exact .deadLettered (h.mono hg)
  | replied he hd hk hr hb =>
    obtain ⟨e', he', hle⟩ := hg.callees _ _ he
    obtain ⟨h, hj, -⟩ := (hn _ _ he).run hd
    obtain ⟨d', h', hd', hj', hdle, -⟩ := hle _ _ _ hd hj
    have hne := Option.ne_none_iff_exists'.mpr ⟨_, hr⟩
    exact .replied he' hd' (hdle.packet.trans hk) ((hdle.replied hne).1.trans hr) hb

theorem Origin.mono (hn : Noted cfg s) (hg : Grows s t) (h : Origin cfg s m) :
    Origin cfg t m := by
  obtain ⟨key, k, hk, ha⟩ := h
  exact ⟨key, k, hk.mono hg, ha.mono hn hg⟩

theorem Caller.Sound.mono (hn : Noted cfg s) (hg : Grows s t) (h : c.Sound cfg s) :
    c.Sound cfg t where
  addressed := h.addressed
  handlers x hx := (h.handlers x hx).mono hn hg
  results x hx := (h.results x hx).mono hn hg
  returns := h.returns
  own := h.own

theorem Answers.id (h : Answers cfg s k m) : m.correlationId = k.message.correlationId := by
  cases h with
  | deadLettered => rfl
  | replied => rfl

theorem mem_ids_iff {id : String} : id ∈ k.ids ↔ k.message.correlationId = some id :=
  Option.mem_toList

theorem Numbered.call_unique (hn : Numbered s) {id : String} {call' : Call B} (hc : c ∈ s.callers)
    (hcall : call ∈ c.calls) (hid : call.packet.message.correlationId = some id)
    (hc' : c' ∈ s.callers) (hcall' : call' ∈ c'.calls)
    (hid' : call'.packet.message.correlationId = some id) : call = call' := by
  have hmade : ∀ {c : Caller B V} {call : Call B}, c ∈ s.callers → call ∈ c.calls →
      call.packet.message.correlationId = some id → id ∈ c.made := by
    intro c call hc hcall hid
    refine (hn.listed c hc).subset (List.mem_flatMap.mpr ⟨call.packet, ?_, mem_ids_iff.mpr hid⟩)
    exact List.mem_map_of_mem hcall
  obtain ⟨i, hi⟩ := List.getElem?_of_mem hc
  obtain ⟨j, hj⟩ := List.getElem?_of_mem hc'
  obtain rfl : i = j := Custody.holder_unique (hn.unique id) ⟨c, hi, hmade hc hcall hid⟩
    ⟨c', hj, hmade hc' hcall' hid'⟩
  obtain rfl := Option.some.inj (hi.symm.trans hj)
  have hone : Custody.count (fun call : Call B => call.packet.ids) c.calls id ≤ 1 := by
    have hle := (hn.listed c hc).count_le id
    rw [List.flatMap_map, Custody.count_flatMap] at hle
    exact Nat.le_trans hle (Nat.le_trans (Custody.count_le_of_mem hc) (hn.unique id))
  obtain ⟨i', hi'⟩ := List.getElem?_of_mem hcall
  obtain ⟨j', hj'⟩ := List.getElem?_of_mem hcall'
  obtain rfl : i' = j' := Custody.holder_unique hone ⟨call, hi', mem_ids_iff.mpr hid⟩
    ⟨call', hj', mem_ids_iff.mpr hid'⟩
  exact Option.some.inj (hi'.symm.trans hj')

theorem IsCall.unique (hn : Numbered s) {key id : String} (h : IsCall s key k)
    (hc : c ∈ s.callers) (hcall : call ∈ c.calls) (hk : k.message.correlationId = some id)
    (hid : call.packet.message.correlationId = some id) :
    k = call.packet ∧ key = call.routingKey := by
  obtain ⟨c₀, hc₀, call₀, hcall₀, rfl, rfl⟩ := h
  obtain rfl := hn.call_unique hc₀ hcall₀ hk hc hcall hid
  exact ⟨rfl, rfl⟩

theorem Caller.Sound.step (h : c.Sound cfg s) {b : Action String B V}
    (hs : Rpc.step cfg.codec c.rpc b = some c'.rpc)
    (hm : ∀ m, b = .resultMessage m → Origin cfg s m) (hcalls : c'.calls = c.calls)
    (hresults : c'.results ⊆ c.results) (hreturns : c'.returns ⊆ c.returns) :
    c'.Sound cfg s := by
  constructor
  · exact addressed_step h.addressed hs
  · intro x hx
    rcases handlers_origin hs hx with ⟨g, hg, -, hmsg⟩ | ⟨m, id, rfl, -, -, hmsg⟩
    · rw [hmsg]
      exact h.handlers g hg
    · rw [hmsg]
      exact hm m rfl
  · exact fun m hx => h.results m (hresults hx)
  · rw [hcalls]
    exact fun k hk => h.returns k (hreturns hk)
  · intro call hcall
    rw [hcalls] at hcall
    obtain ⟨f, hf, hid⟩ := h.own call hcall
    obtain ⟨g, hg, hgid, -⟩ := made_step h.addressed hs hf
    exact ⟨g, hg, by rw [hid, hgid]⟩

theorem Caller.Le.of_calls (h : c'.calls = c.calls) : c.Le c' := by
  constructor
  intro call hcall
  exact ⟨call, by rw [h]; exact hcall, rfl, rfl, id⟩

theorem Caller.Le.of_set {n : ℕ} {stage : Stage} (hn : c.calls[n]? = some call)
    (hs : call.stage = .publishing)
    (h : c'.calls = c.calls.set n { call with stage := stage }) : c.Le c' := by
  constructor
  intro x hx
  rw [h]
  obtain ⟨i, hi⟩ := List.getElem?_of_mem hx
  by_cases hni : n = i
  · subst hni
    obtain rfl := Option.some.inj (hn.symm.trans hi)
    refine ⟨_, List.mem_of_getElem?
      (List.getElem?_set_self (List.getElem?_eq_some_iff.mp hn).1), rfl, rfl, fun hr => ?_⟩
    cases hs.symm.trans hr
  · exact ⟨x, List.mem_of_getElem? ((List.getElem?_set_ne hni).trans hi), rfl, rfl, id⟩

theorem Caller.Le.lose : c.Le c.lose := by
  constructor
  intro call hcall
  refine ⟨_, List.mem_map_of_mem hcall, ?_⟩
  split
  · rename_i hs
    refine ⟨rfl, rfl, fun hr => ?_⟩
    cases hs.symm.trans hr
  · exact ⟨rfl, rfl, id⟩

theorem callers_le_of_set {p : ℕ} (hp : s.callers[p]? = some c)
    (ht : t.callers = s.callers.set p c') (hle : c.Le c') :
    ∀ c ∈ s.callers, ∃ c' ∈ t.callers, c.Le c' := by
  intro x hx
  rw [ht]
  obtain ⟨i, hi⟩ := List.getElem?_of_mem hx
  by_cases hpi : p = i
  · subst hpi
    obtain rfl := Option.some.inj (hp.symm.trans hi)
    exact ⟨c', List.mem_of_getElem? (List.getElem?_set_self (List.getElem?_eq_some_iff.mp hp).1),
      hle⟩
  · exact ⟨x, List.mem_of_getElem? ((List.getElem?_set_ne hpi).trans hi), .of_calls rfl⟩

theorem callers_le_of_eq (ht : t.callers = s.callers) :
    ∀ c ∈ s.callers, ∃ c' ∈ t.callers, c.Le c' := by
  intro c hc
  exact ⟨c, by rw [ht]; exact hc, .of_calls rfl⟩

theorem callers_le_toResults (ht : t.callers = s.callers) (queue : Option String)
    (m : Message String B) :
    ∀ c ∈ s.callers, ∃ c' ∈ (t.toResults cfg queue m).callers, c.Le c' := by
  rw [← ht]
  rcases @toResults_cases _ _ cfg _ queue m with he | ⟨p, c, hp, -, he⟩
  · exact callers_le_of_eq (by rw [he])
  · have hle : c.Le { c with results := c.results ++ [m] } := .of_calls rfl
    exact callers_le_of_set hp (by rw [he]; rfl) hle

theorem grows_step (hn : Noted cfg s) (hs : step cfg s a = some t) : Grows s t := by
  constructor
  · intro q e he
    obtain ⟨e', he', -, hle⟩ := callees_step hn hs q e he
    exact ⟨e', he', hle⟩
  · cases step_cases hs with
    | call hp =>
      refine callers_le_of_set hp rfl ⟨fun call hcall => ?_⟩
      exact ⟨call, List.mem_append_left _ hcall, rfl, rfl, id⟩
    | queued hp hc hstage => exact callers_le_of_set hp rfl (.of_set hc hstage rfl)
    | unroutable hp hc hstage => exact callers_le_of_set hp rfl (.of_set hc hstage rfl)
    | publishRaised hp hc hstage => exact callers_le_of_set hp rfl (.of_set hc hstage rfl)
    | lost hp => exact callers_le_of_set hp rfl .lose
    | unserializable hp => exact callers_le_of_set hp rfl (.of_calls rfl)
    | messageReturned hp => exact callers_le_of_set hp rfl (.of_calls rfl)
    | resultMessage hp => exact callers_le_of_set hp rfl (.of_calls rfl)
    | future hp => exact callers_le_of_set hp rfl (.of_calls rfl)
    | onClose hp => exact callers_le_of_set hp rfl (.of_calls rfl)
    | reply =>
      refine callers_le_toResults ?_ _ _
      rfl
    | rejected =>
      refine callers_le_toResults ?_ _ _
      rfl
    | expire =>
      refine callers_le_toResults ?_ _ _
      rfl
    | _ => exact callers_le_of_eq rfl

/-- Queues hold messages of calls with their keys. -/
def Filed (s : System B V) (queues : Dict String (List (Packet B))) : Prop :=
  ∀ key ks, queues.get? key = some ks → ∀ k ∈ ks, IsCall s key k

theorem Filed.set {queues : Dict String (List (Packet B))} (h : Filed s queues) {key : String}
    {ks : List (Packet B)} (hk : ∀ k ∈ ks, IsCall s key k) : Filed s (queues.set key ks) := by
  intro key' ks' hget k hmem
  rw [Dict.get?_set] at hget
  split at hget
  · rename_i he
    obtain rfl := Option.some.inj hget
    rw [he]
    exact hk k hmem
  · exact h key' ks' hget k hmem

theorem Filed.requeue {queues : Dict String (List (Packet B))} (h : Filed s queues)
    {ds : List (Delivery B V)} (hd : ∀ d ∈ ds, IsCall s d.queue d.packet) :
    Filed s (ds.foldl Network.requeue queues) := by
  induction ds generalizing queues with
  | nil => exact h
  | cons d ds ih =>
    refine ih ?_ fun x hx => hd x (List.mem_cons_of_mem _ hx)
    unfold Network.requeue
    split
    · rename_i ks hget
      refine h.set fun k hk => ?_
      rcases List.mem_cons.mp hk with rfl | hk
      · exact hd d List.mem_cons_self
      · exact h d.queue ks hget k hk
    · exact h

@[simp] theorem toResults_queues (queue : Option String) (m : Message String B) :
    (s.toResults cfg queue m).queues = s.queues := by
  rcases @toResults_cases _ _ cfg _ queue m with he | ⟨p, c, -, -, he⟩
  · rw [he]
  · rw [he]
    rfl

theorem Genuine.outstanding (h : Genuine cfg s) {q : ℕ} {e : Callee B V}
    (hq : s.callees[q]? = some e) : ∀ d ∈ e.outstanding, IsCall s d.queue d.packet :=
  fun d hd => h.deliveries e (List.mem_of_getElem? hq) d (List.mem_filter.mp hd).1

theorem queues_step (h : Genuine cfg s) (hs : step cfg s a = some t) : Filed s t.queues := by
  have hq : Filed s s.queues := h.queues
  cases step_cases hs with
  | @queued p n c call ks hp hn hstage hget =>
    refine hq.set fun k hk => ?_
    rcases List.mem_append.mp hk with hk | hk
    · exact hq _ ks hget k hk
    · obtain rfl := List.mem_singleton.mp hk
      exact ⟨c, List.mem_of_getElem? hp, call, List.mem_of_getElem? hn, rfl, rfl⟩
  | lost hp he => exact hq.requeue (h.outstanding he)
  | deliver he hc hget hn =>
    exact hq.set fun k hk => hq _ _ hget k (List.mem_of_mem_eraseIdx hk)
  | reply => exact (toResults_queues _ _).symm ▸ hq
  | rejected => exact (toResults_queues _ _).symm ▸ hq
  | expire hget hn =>
    rw [toResults_queues]
    exact hq.set fun k hk => hq _ _ hget k (List.mem_of_mem_eraseIdx hk)
  | declareQueue => exact hq.set fun k hk => absurd hk List.not_mem_nil
  | deleteQueue =>
    intro key ks hget
    exact hq key ks (Dict.of_get?_pop hget).2
  | _ => exact hq

/-- The deliveries of an instance are messages of calls. -/
def Callee.Genuine (s : System B V) (e : Callee B V) : Prop :=
  ∀ d ∈ e.requests ++ e.runs, IsCall s d.queue d.packet

theorem Callee.Genuine.setRun {e : Callee B V} {server : Server V} {j : ℕ}
    {d d' : Delivery B V} (h : e.Genuine s) (hd : e.runs[j]? = some d)
    (hp : d'.packet = d.packet) (hq : d'.queue = d.queue) :
    Callee.Genuine s { e with server := server, runs := e.runs.set j d' } := by
  intro x hx
  rcases List.mem_append.mp hx with hx | hx
  · exact h x (List.mem_append_left _ hx)
  · rcases List.mem_or_eq_of_mem_set hx with hx | rfl
    · exact h x (List.mem_append_right _ hx)
    · rw [hp, hq]
      exact h d (List.mem_append_right _ (List.mem_of_getElem? hd))

theorem deliveries_of_set (h : Genuine cfg s) {q : ℕ} {e' : Callee B V}
    (ht : t.callees = s.callees.set q e') (he : e'.Genuine s) :
    ∀ e ∈ t.callees, e.Genuine s := by
  intro x hx
  rw [ht] at hx
  rcases List.mem_or_eq_of_mem_set hx with hx | rfl
  · exact h.deliveries x hx
  · exact he

theorem deliveries_step (h : Genuine cfg s) (hs : step cfg s a = some t) :
    ∀ e ∈ t.callees, e.Genuine s := by
  have hold : ∀ {q : ℕ} {e : Callee B V}, s.callees[q]? = some e → e.Genuine s :=
    fun he => h.deliveries _ (List.mem_of_getElem? he)
  cases step_cases hs with
  | lost hp he =>
    refine deliveries_of_set h rfl fun d hd => ?_
    rw [Callee.forget, ← List.map_append] at hd
    obtain ⟨d', hd', rfl⟩ := List.mem_map.mp hd
    exact hold he d' hd'
  | register he => exact deliveries_of_set h rfl fun d hd => hold he d hd
  | @deliver q consumer n e member ks k server he hc hget hn =>
    refine deliveries_of_set h rfl fun d hd => ?_
    rcases List.mem_append.mp hd with hd | hd
    · rcases List.mem_append.mp hd with hd | hd
      · exact hold he d (List.mem_append_left _ hd)
      · obtain rfl := List.mem_singleton.mp hd
        exact h.queues _ ks hget k (List.mem_of_getElem? hn)
    · exact hold he d (List.mem_append_right _ hd)
  | @handle q n e d server he hd =>
    refine deliveries_of_set h rfl fun x hx => ?_
    rcases List.mem_append.mp hx with hx | hx
    · exact hold he x (List.mem_append_left _ (List.mem_of_mem_eraseIdx hx))
    · rcases List.mem_append.mp hx with hx | hx
      · exact hold he x (List.mem_append_right _ hx)
      · obtain rfl := List.mem_singleton.mp hx
        exact hold he x (List.mem_append_left _ (List.mem_of_getElem? hd))
  | event he hd => exact deliveries_of_set h rfl ((hold he).setRun hd rfl rfl)
  | reply he hd =>
    exact deliveries_of_set h toResults_callees ((hold he).setRun hd rfl rfl)
  | acked he hd => exact deliveries_of_set h rfl ((hold he).setRun hd rfl rfl)
  | rejected he hd =>
    exact deliveries_of_set h toResults_callees ((hold he).setRun hd rfl rfl)
  | expire =>
    rw [toResults_callees]
    exact h.deliveries
  | _ => exact h.deliveries

theorem Caller.Sound.advance (h : c.Sound cfg s) {calls : List (Call B)}
    (hcalls : ∀ call' ∈ calls, ∃ call ∈ c.calls,
      call'.future = call.future ∧ call'.packet = call.packet) {returns : List (Packet B)}
    (hreturns : ∀ k ∈ returns, ∃ call ∈ calls, call.packet = k ∧ call.stage = .returned) :
    Caller.Sound cfg s { c with calls := calls, returns := returns } where
  addressed := h.addressed
  handlers := h.handlers
  results := h.results
  returns := hreturns
  own call' hcall' := by
    obtain ⟨call, hcall, hfuture, hpacket⟩ := hcalls call' hcall'
    rw [hfuture, hpacket]
    exact h.own call hcall

theorem Call.of_set {n : ℕ} {stage : Stage} (hn : c.calls[n]? = some call) :
    ∀ call' ∈ c.calls.set n { call with stage := stage }, ∃ call ∈ c.calls,
      call'.future = call.future ∧ call'.packet = call.packet := by
  intro call' hcall'
  rcases List.mem_or_eq_of_mem_set hcall' with hcall' | rfl
  · exact ⟨call', hcall', rfl, rfl⟩
  · exact ⟨call, List.mem_of_getElem? hn, rfl, rfl⟩

theorem Caller.Sound.returns_of_le (h : c.Sound cfg s) {calls : List (Call B)}
    (hle : c.Le { c with calls := calls }) :
    ∀ k ∈ c.returns, ∃ call ∈ calls, call.packet = k ∧ call.stage = .returned := by
  intro k hk
  obtain ⟨call, hcall, rfl, hstage⟩ := h.returns k hk
  obtain ⟨call', hcall', hp, -, hr⟩ := hle.kept call hcall
  exact ⟨call', hcall', hp, hr hstage⟩

theorem Caller.Sound.add (h : c.Sound cfg s) {f : Future String V}
    (hf : c.rpc.made[call.future]? = some f)
    (hid : call.packet.message.correlationId = some f.correlationId) :
    Caller.Sound cfg s { c with calls := c.calls ++ [call] } where
  addressed := h.addressed
  handlers := h.handlers
  results := h.results
  returns k hk := by
    obtain ⟨x, hx, hxk, hstage⟩ := h.returns k hk
    exact ⟨x, List.mem_append_left _ hx, hxk, hstage⟩
  own x hx := by
    rcases List.mem_append.mp hx with hx | hx
    · exact h.own x hx
    · obtain rfl := List.mem_singleton.mp hx
      exact ⟨f, hf, hid⟩

theorem Caller.Sound.receive (h : c.Sound cfg s) (hm : Origin cfg s m) :
    Caller.Sound cfg s { c with results := c.results ++ [m] } where
  addressed := h.addressed
  handlers := h.handlers
  results x hx := by
    rcases List.mem_append.mp hx with hx | hx
    · exact h.results x hx
    · obtain rfl := List.mem_singleton.mp hx
      exact hm
  returns := h.returns
  own := h.own

theorem Caller.Sound.lose (h : c.Sound cfg s) : c.lose.Sound cfg s := by
  have hsound : Caller.Sound cfg s { c with calls := c.lose.calls, returns := [] } := by
    refine h.advance (fun call' hcall' => ?_) fun k hk => absurd hk List.not_mem_nil
    obtain ⟨call, hcall, rfl⟩ := List.mem_map.mp hcall'
    refine ⟨call, hcall, ?_⟩
    split <;> exact ⟨rfl, rfl⟩
  exact {
    addressed := hsound.addressed
    handlers := hsound.handlers
    results := fun m hm => absurd hm List.not_mem_nil
    returns := hsound.returns
    own := hsound.own }

theorem sound_of_set {y : System B V} (h : ∀ c ∈ s.callers, c.Sound cfg t) {p : ℕ}
    (hy : y.callers = s.callers.set p c') (hc : c'.Sound cfg t) :
    ∀ c ∈ y.callers, c.Sound cfg t := by
  intro c hmem
  rw [hy] at hmem
  rcases List.mem_or_eq_of_mem_set hmem with hmem | rfl
  · exact h c hmem
  · exact hc

theorem sound_toResults {y : System B V} (h : ∀ c ∈ y.callers, c.Sound cfg t)
    (queue : Option String) (hm : Origin cfg t m) :
    ∀ c ∈ (y.toResults cfg queue m).callers, c.Sound cfg t := by
  rcases @toResults_cases _ _ cfg _ queue m with he | ⟨p, c, hp, -, he⟩
  · rw [he]
    exact h
  · rw [he]
    exact sound_of_set h rfl ((h c (List.mem_of_getElem? hp)).receive hm)

theorem Origin.replied (hn : Noted cfg s) (hd : ∀ e ∈ s.callees, e.Genuine s) {q j : ℕ}
    {e : Callee B V} {d : Delivery B V} {reply : Reply V} {body : B}
    (he : s.callees[q]? = some e) (hj : e.runs[j]? = some d) (hr : d.reply = some reply)
    (hb : cfg.serialize reply.payload = .ok body) :
    Origin cfg s ⟨reply.correlationId, some reply.type.value, body⟩ := by
  obtain ⟨h, -, hrec⟩ := (hn q e he).run hj
  have hid := (hrec.reply reply hr).2.2
  refine ⟨d.queue, d.packet, hd e (List.mem_of_getElem? he) d
    (List.mem_append_right _ (List.mem_of_getElem? hj)), ?_⟩
  rw [hid]
  exact .replied he hj rfl hr hb

theorem callers_step (hn : Noted cfg s) (h : Genuine cfg s)
    (hs : step cfg s a = some t) : ∀ c ∈ t.callers, c.Sound cfg t := by
  have hg : Grows s t := grows_step hn hs
  have hold : ∀ c ∈ s.callers, c.Sound cfg t := fun c hc => (h.callers c hc).mono hn hg
  have hmem : ∀ {p : ℕ} {c : Caller B V}, s.callers[p]? = some c → c ∈ s.callers :=
    List.mem_of_getElem?
  have hrpc : ∀ {p : ℕ} {c : Caller B V} {r : State String B V} {b : Action String B V}
      {returns : List (Packet B)} {results : List (Message String B)} {down : Bool},
      s.callers[p]? = some c → Rpc.step cfg.codec c.rpc b = some r →
      (∀ m, b = .resultMessage m → Origin cfg s m) → returns ⊆ c.returns →
      results ⊆ c.results → Caller.Sound cfg t ⟨r, c.calls, returns, results, down⟩ := by
    intro p c r b returns results down hp hr hm hreturns hresults
    have hsound : Caller.Sound cfg s ⟨r, c.calls, returns, results, down⟩ :=
      (h.callers c (hmem hp)).step hr hm rfl hresults hreturns
    exact hsound.mono hn hg
  cases step_cases hs with
  | @call p id method kwargs mode expiration body c rpc hp hr hb =>
    have hsound : Caller.Sound cfg _ { c with rpc := rpc } :=
      hrpc hp hr nofun (List.Subset.refl _) (List.Subset.refl _)
    have hmade : rpc.made[c.rpc.made.length]? = some ⟨id, none, false⟩ := by
      obtain rfl := Option.some.inj hr
      exact List.getElem?_concat_length
    exact sound_of_set hold rfl (hsound.add hmade rfl)
  | unserializable hp hr =>
    exact sound_of_set hold rfl
      (hrpc hp hr nofun (List.Subset.refl _) (List.Subset.refl _))
  | queued hp hc hstage =>
    refine sound_of_set hold rfl ((hold _ (hmem hp)).advance (Call.of_set hc) ?_)
    exact (hold _ (hmem hp)).returns_of_le (.of_set hc hstage rfl)
  | @unroutable p n c call hp hc hstage =>
    refine sound_of_set hold rfl ((hold _ (hmem hp)).advance (Call.of_set hc) ?_)
    intro k hk
    rcases List.mem_append.mp hk with hk | hk
    · exact (hold _ (hmem hp)).returns_of_le (.of_set hc hstage rfl) k hk
    · obtain rfl := List.mem_singleton.mp hk
      exact ⟨_, List.mem_of_getElem?
        (List.getElem?_set_self (List.getElem?_eq_some_iff.mp hc).1), rfl, rfl⟩
  | publishRaised hp hc hstage =>
    refine sound_of_set hold rfl ((hold _ (hmem hp)).advance (Call.of_set hc) ?_)
    exact (hold _ (hmem hp)).returns_of_le (.of_set hc hstage rfl)
  | @messageReturned p n c k rpc hp hk hr =>
    exact sound_of_set hold rfl (hrpc hp hr nofun
      (fun _ hx => List.mem_of_mem_eraseIdx hx) (List.Subset.refl _))
  | @resultMessage p n c m rpc hp hm hr =>
    refine sound_of_set hold rfl (hrpc hp hr ?_ (List.Subset.refl _)
      (fun _ hx => List.mem_of_mem_eraseIdx hx))
    rintro m' ⟨rfl⟩
    exact (h.callers c (hmem hp)).results m (List.mem_of_getElem? hm)
  | future hp hr hb =>
    refine sound_of_set hold rfl (hrpc hp hr ?_ (List.Subset.refl _) (List.Subset.refl _))
    rcases hb with ⟨j, -, rfl⟩ | ⟨j, -, rfl⟩ | ⟨j, -, rfl⟩ | ⟨j, -, rfl⟩ <;> nofun
  | onClose hp hr =>
    exact sound_of_set hold rfl
      (hrpc hp hr nofun (List.Subset.refl _) (List.Subset.refl _))
  | lost hp => exact sound_of_set hold rfl (hold _ (hmem hp)).lose
  | reply he hd hr hb =>
    have horigin := Origin.replied hn h.deliveries he hd hr hb
    refine sound_toResults ?_ _ (horigin.mono hn hg)
    exact hold
  | @rejected q j e d x he hd hj hu hf =>
    have hcall : IsCall s d.queue d.packet := h.deliveries e (List.mem_of_getElem? he) d
      (List.mem_append_right _ (List.mem_of_getElem? hd))
    have hdead : DeadLettered s d.packet := .rejected he hd hj rfl (by rw [hf]; simp)
    have horigin : Origin cfg s d.packet.message := ⟨d.queue, d.packet, hcall, .deadLettered hdead⟩
    refine sound_toResults ?_ _ (horigin.mono hn hg)
    exact hold
  | @expire queue n ks k hget hk hexp =>
    have horigin : Origin cfg s k.message :=
      ⟨queue, k, h.queues queue ks hget k (List.mem_of_getElem? hk), .deadLettered (.expired hexp)⟩
    refine sound_toResults ?_ _ (horigin.mono hn hg)
    exact hold
  | _ => exact hold

theorem genuine_step (hn : Noted cfg s) (h : Genuine cfg s)
    (hs : step cfg s a = some t) : Genuine cfg t := by
  have hg : Grows s t := grows_step hn hs
  constructor
  · intro key ks hget k hk
    exact (queues_step h hs key ks hget k hk).mono hg
  · intro e he d hd
    exact (deliveries_step h hs e he d hd).mono hg
  · exact callers_step hn h hs

theorem fresh_genuine {n : ℕ} : Genuine cfg (fresh n) := by
  constructor
  · intro key ks hk
    cases hk
  · intro e he
    rw [List.eq_of_mem_replicate he]
    exact fun d hd => absurd hd List.not_mem_nil
  · intro c hc
    rw [List.eq_of_mem_replicate hc]
    exact {
      addressed := ⟨fun id i hi => (by cases hi), fun h hh => absurd hh List.not_mem_nil⟩
      handlers := fun h hh => absurd hh List.not_mem_nil
      results := fun m hm => absurd hm List.not_mem_nil
      returns := fun k hk => absurd hk List.not_mem_nil
      own := fun call hcall => absurd hcall List.not_mem_nil }

open Transition

/-- A run has executed the function of a method for a call, or has tried to, and replies. -/
structure Served (cfg : Config B V) (s : System B V) (call : Call B) (q : ℕ) (d : Delivery B V)
    (reply : Reply V) : Prop where
  run : ∃ e, s.callees[q]? = some e ∧ d ∈ e.runs ∧ ∀ func v, d.executed = some (func, v) →
    Registered (cfg.rpc q) e.server call.routingKey func
  packet : d.packet = call.packet
  payload : ∀ func v, d.executed = some (func, v) →
    cfg.codec.deserializeMessage call.packet.message = .ok v
  returned : d.returned ≠ none → d.executed ≠ none
  replied : d.reply = some reply
  justified : d.Justifies cfg q reply.type reply.payload

/-- An action of a run comes while a future of instance `p` is pending. -/
def Comes (cfg : Config B V) (n : ℕ) (as : List (NetworkAction V)) (p i : ℕ)
    (a : NetworkAction V) : Prop :=
  ∃ pre post s c f, as = pre ++ a :: post ∧ Run (step cfg) Fresh (fresh n) pre s ∧
    s.callers[p]? = some c ∧ c.rpc.made[i]? = some f ∧ f.outcome = none

/-- Why a call of instance `p` is over after a run. -/
inductive Explained (cfg : Config B V) (n : ℕ) (as : List (NetworkAction V)) (s : System B V)
    (p : ℕ) (call : Call B) : Outcome V → Prop
  | replied {q : ℕ} {d : Delivery B V} {reply : Reply V} {body : B} {o : Outcome V}
      (h : Served cfg s call q d reply) (hb : cfg.serialize reply.payload = .ok body)
      (ho : Determines cfg.codec
        ⟨call.packet.message.correlationId, some reply.type.value, body⟩ o) :
      Explained cfg n as s p call o
  | deadLettered {o : Outcome V} (h : DeadLettered s call.packet)
      (ho : Determines cfg.codec call.packet.message o) : Explained cfg n as s p call o
  | returned {i : ℕ} (h : call.stage = .returned)
      (ha : Comes cfg n as p call.future (.messageReturned p i)) :
      Explained cfg n as s p call
        (.exception (.messageProcessError "Message has been returned"))
  | closed (ha : Comes cfg n as p call.future (.onClose p none)) :
      Explained cfg n as s p call (.exception .exception)
  | lost {exc : V} (ha : Comes cfg n as p call.future (.onClose p (some exc))) :
      Explained cfg n as s p call (.exception (.object exc))
  | cancelled (ha : Comes cfg n as p call.future (.cancelled p call.future)) :
      Explained cfg n as s p call .cancelled

/-- The steps of an instance that may complete its futures. -/
inductive Caller.Acts (p : ℕ) (c : Caller B V) : NetworkAction V → Action String B V → Prop
  | deserialized {j : ℕ} : Acts p c (.deserialized p j) (.deserialized j)
  | messageReturned {i : ℕ} {k : Packet B} (hk : k ∈ c.returns) :
      Acts p c (.messageReturned p i) (.messageReturned k.message)
  | onClose {exc : Option V} : Acts p c (.onClose p exc) (.onClose exc)
  | cancelled {i : ℕ} : Acts p c (.cancelled p i) (.cancelled i)

/-- A future of instance `p` that was made for an id has an outcome, or an action gives it one. -/
def Ends (cfg : Config B V) (s : System B V) (p i : ℕ) (id : String) (a : NetworkAction V)
    (o : Outcome V) : Prop :=
  ∃ c f, s.callers[p]? = some c ∧ c.rpc.made[i]? = some f ∧ f.correlationId = id ∧
    (f.outcome = some o ∨
      f.outcome = none ∧ ∃ b, c.Acts p a b ∧ Cause cfg.codec c.rpc i id b o)

theorem ends_step (h : Genuine cfg s) (hs : step cfg s a = some t) {p i : ℕ}
    (hp : t.callers[p]? = some c') {g : Future String V} (hg : c'.rpc.made[i]? = some g)
    (ho : g.outcome = some o) : Ends cfg s p i g.correlationId a o := by
  have hset : ∀ {q : ℕ} {x x' : Caller B V}, s.callers[q]? = some x →
      t.callers = s.callers.set q x' → x'.rpc = x.rpc →
      Ends cfg s p i g.correlationId a o := by
    intro q x x' hq ht he
    rw [ht] at hp
    rcases Members.of_set hp with ⟨rfl, rfl⟩ | ⟨-, hc⟩
    · exact ⟨x, g, hq, he ▸ hg, rfl, Or.inl ho⟩
    · exact ⟨c', g, hc, hg, rfl, Or.inl ho⟩
  have hact : ∀ {q : ℕ} {x x' : Caller B V} {b : Action String B V}, s.callers[q]? = some x →
      t.callers = s.callers.set q x' → Rpc.step cfg.codec x.rpc b = some x'.rpc →
      (q = p → Cause cfg.codec x.rpc i g.correlationId b o → x.Acts p a b) →
      Ends cfg s p i g.correlationId a o := by
    intro q x x' b hq ht hb ha
    rw [ht] at hp
    rcases Members.of_set hp with ⟨rfl, rfl⟩ | ⟨-, hc⟩
    · obtain ⟨f, hf, hid, hout⟩ :=
        done_step (h.callers x (List.mem_of_getElem? hq)).addressed hb hg ho
      exact ⟨x, f, hq, hf, hid,
        hout.imp_right fun ⟨hn, hcause⟩ => ⟨hn, b, ha rfl hcause, hcause⟩⟩
    · exact ⟨c', g, hc, hg, rfl, Or.inl ho⟩
  have hresults : ∀ {y : System B V} {queue : Option String} {m : Message String B},
      t = y.toResults cfg queue m → y.callers = s.callers →
      Ends cfg s p i g.correlationId a o := by
    intro y queue m ht hy
    rcases @toResults_cases _ _ cfg y queue m with he | ⟨q, x, hq, -, he⟩
    · rw [ht, he, hy] at hp
      exact ⟨c', g, hp, hg, rfl, Or.inl ho⟩
    · rw [hy] at hq
      rw [he] at ht
      have hcallers : t.callers = s.callers.set q { x with results := x.results ++ [m] } := by
        rw [ht, ← hy]
        rfl
      exact hset hq hcallers rfl
  cases step_cases hs with
  | call hq hr => exact hact hq rfl hr fun _ hcause => hcause.elim
  | unserializable hq hr => exact hact hq rfl hr fun _ hcause => hcause.elim
  | queued hq => exact hset hq rfl rfl
  | unroutable hq => exact hset hq rfl rfl
  | publishRaised hq => exact hset hq rfl rfl
  | messageReturned hq hk hr =>
    refine hact hq rfl hr fun he _ => ?_
    subst he
    exact .messageReturned (List.mem_of_getElem? hk)
  | resultMessage hq _ hr => exact hact hq rfl hr fun _ hcause => hcause.elim
  | future hq hr hb =>
    refine hact hq rfl hr fun he hcause => ?_
    subst he
    rcases hb with ⟨j, rfl, rfl⟩ | ⟨j, rfl, rfl⟩ | ⟨j, rfl, rfl⟩ | ⟨j, rfl, rfl⟩
    · exact .deserialized
    · exact hcause.elim
    · exact .cancelled
    · exact hcause.elim
  | onClose hq hr =>
    refine hact hq rfl hr fun he _ => ?_
    subst he
    exact .onClose
  | lost hq => exact hset hq rfl rfl
  | reply => exact hresults rfl rfl
  | rejected => exact hresults rfl rfl
  | expire => exact hresults rfl rfl
  | _ => exact ⟨c', g, hp, hg, rfl, Or.inl ho⟩

theorem Grows.refl : Grows s s where
  callees _ e he := ⟨e, he, .refl⟩
  callers c hc := ⟨c, hc, .of_calls rfl⟩

theorem Grows.trans {u : System B V} (h₁ : Grows s t) (h₂ : Grows t u) : Grows s u where
  callees q e he := by
    obtain ⟨e', he', hle⟩ := h₁.callees q e he
    obtain ⟨e'', he'', hle'⟩ := h₂.callees q e' he'
    exact ⟨e'', he'', hle.trans hle'⟩
  callers c hc := by
    obtain ⟨c', hc', hle⟩ := h₁.callers c hc
    obtain ⟨c'', hc'', hle'⟩ := h₂.callers c' hc'
    refine ⟨c'', hc'', ⟨fun call hcall => ?_⟩⟩
    obtain ⟨call', hcall', hp, hk, hr⟩ := hle.kept call hcall
    obtain ⟨call'', hcall'', hp', hk', hr'⟩ := hle'.kept call' hcall'
    exact ⟨call'', hcall'', hp'.trans hp, hk'.trans hk, hr' ∘ hr⟩

/-- What holds of the calls, the requests and the messages in every state. -/
structure Told (cfg : Config B V) (s : System B V) : Prop where
  noted : Noted cfg s
  numbered : Numbered s
  genuine : Genuine cfg s

theorem fresh_told {n : ℕ} : Told cfg (fresh n) := ⟨fresh_noted, fresh_numbered, fresh_genuine⟩

theorem told_step (h : Told cfg s) (hok : Fresh s a) (hs : step cfg s a = some t) : Told cfg t :=
  ⟨noted_step h.noted hs, numbered_step h.numbered hok hs, genuine_step h.noted h.genuine hs⟩

theorem grows_run {as : List (NetworkAction V)} (hr : Run (step cfg) Fresh s as t)
    (h : Noted cfg s) : Grows s t := by
  induction hr with
  | nil => exact .refl
  | cons _ hs _ ih => exact (grows_step h hs).trans (ih (noted_step h hs))

/-- A message with the id of a call answers it, as a run or the dead letter exchange does. -/
theorem Origin.explained (h : Told cfg s) (hc : c ∈ s.callers) (hcall : call ∈ c.calls)
    {n p : ℕ} {as : List (NetworkAction V)} {id : String} (hm : Origin cfg s m)
    (hid : m.correlationId = some id) (hcid : call.packet.message.correlationId = some id)
    (ho : Determines cfg.codec m o) : Explained cfg n as s p call o := by
  obtain ⟨key, k, hk, ha⟩ := hm
  obtain ⟨rfl, rfl⟩ := hk.unique h.numbered hc hcall (ha.id.symm.trans hid) hcid
  cases ha with
  | deadLettered hd => exact .deadLettered hd ho
  | @replied q j e d reply body he hd hp hr hb =>
    obtain ⟨x, -, hrec⟩ := (h.noted q e he).run hd
    have hmem : d ∈ e.runs := List.mem_of_getElem? hd
    have hgenuine : IsCall s d.queue d.packet :=
      h.genuine.deliveries e (List.mem_of_getElem? he) d (List.mem_append_right _ hmem)
    have hkey : d.queue = call.routingKey :=
      (hgenuine.unique h.numbered hc hcall (by rw [hp, hcid]) hcid).2
    refine .replied ⟨⟨e, he, hmem, fun func v hx => ?_⟩, hp, fun func v hx => ?_, hrec.returned,
      hr, (hrec.reply reply hr).1⟩ hb ho
    · rw [← hkey]
      exact (h.noted q e he).executed d hmem func v hx
    · rw [← hp]
      exact hrec.executed func v hx

def answered : List (NetworkAction ℕ) :=
  serving ++ [.call 0 "a" "square" 3 1 none, .route 0 0, .deliver 1 0 0, .handle 1 0,
    .event 1 0 .deserialize, .event 1 0 (.executed (.ok 9)), .event 1 0 .serialize, .reply 1 0,
    .event 1 0 (.published true), .settle 1 0, .resultMessage 0 0, .deserialized 0 0]

end AioPika.Rpc.Network
