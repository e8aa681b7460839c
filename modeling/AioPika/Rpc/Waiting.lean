import AioPika.Rpc.Answers

/-! # Callers that wait

A caller that waits is about to hear something: its message is on the way, held by
a run that has not settled it, or answered. That fails only when a run of
`on_result_message` is cancelled, when a future refuses its outcome, or when
queues are deleted with the messages in them.
-/

namespace AioPika.Rpc

section Futures

variable {Id B V : Type*} [DecidableEq Id] {codec : Codec Id B V} {s t : State Id B V}
  {a : Action Id B V} {i : ℕ} {f : Future Id V}

instance (o : Outcome V) : Decidable (codec.Accepts o) :=
  match o with
  | .exception (.object v) =>
    decidable_of_iff (codec.isStopIteration v = false)
      ⟨fun h w he => by cases he; exact h, fun h => h v rfl⟩
  | .result _ | .cancelled | .exception .exception | .exception .cancelledError
  | .exception (.timeoutError _) | .exception (.messageProcessError _)
  | .exception (.rpcException _ _) | .exception (.runtimeError _ _) => .isTrue nofun

/-- A pending future is in the table, or a message for it is being deserialised. -/
structure Attended (s : State Id B V) : Prop where
  entries : Entries s
  pending : ∀ (i : ℕ) (f : Future Id V), s.made[i]? = some f → f.outcome = none →
    s.futures.get? f.correlationId = some i ∨ s.Replying i

/-- No future refuses its outcome, and no handler is cancelled. -/
def Accepting (codec : Codec Id B V) (s : State Id B V) : Action Id B V → Prop
  | .call id => s.Unused id
  | .deserialized j => ∀ h ∈ s.handlers[j]?, codec.Accepts (resultOutcome codec h.message)
  | .interrupted _ | .close => False
  | .onClose exc => codec.Accepts (closeOutcome exc)
  | _ => True

theorem pending_before (hs : step codec s a = some t) (hf : t.made[i]? = some f)
    (ho : f.outcome = none) : (∃ g, s.made[i]? = some g ∧ g.correlationId = f.correlationId ∧
      g.outcome = none) ∨ ∃ id, a = .call id ∧ i = s.made.length ∧ f.correlationId = id := by
  cases a with
  | call id =>
    obtain rfl := Option.some.inj hs
    rcases Members.of_append hf with hf | ⟨hi, rfl⟩
    · exact Or.inl ⟨f, hf, rfl, ho⟩
    · exact Or.inr ⟨id, rfl, hi, rfl⟩
  | _ =>
    obtain ⟨g, hg, hid, hpending⟩ := (kept_step hs nofun).pending i f hf
    exact Or.inl ⟨g, hg, hid, hpending ho⟩

omit [DecidableEq Id] in
theorem pending_of_accepts {k : ℕ} {o : Outcome V} (ha : codec.Accepts o)
    (hf : (s.made.modify k fun f => f.complete codec o)[i]? = some f) (ho : f.outcome = none) :
    k ≠ i ∧ s.made[i]? = some f := by
  rcases Members.of_modify hf with ⟨g, hg, ⟨-, rfl⟩ | ⟨hne, rfl⟩⟩
  · exact absurd ho (Future.complete_done_iff.mpr (Or.inr ha))
  · exact ⟨hne, hg⟩

theorem replying_step (hok : Accepting codec s a) (hs : step codec s a = some t)
    (hf : t.made[i]? = some f) (ho : f.outcome = none) (hr : s.Replying i) : t.Replying i := by
  obtain ⟨x, hx, hfin, rfl⟩ := hr
  cases step_cases hs with
  | taken => exact ⟨x, List.mem_append_left _ hx, hfin, rfl⟩
  | @deserialized j k m hj =>
    have hacc : codec.Accepts (resultOutcome codec m) := hok _ hj
    obtain ⟨hne, -⟩ := pending_of_accepts hacc hf ho
    obtain ⟨l, hl⟩ := List.getElem?_of_mem hx
    have hjl : j ≠ l := by
      rintro rfl
      obtain rfl := Option.some.inj (hj.symm.trans hl)
      exact hne rfl
    exact ⟨x, List.mem_of_getElem? ((List.getElem?_set_ne hjl).trans hl), hfin, rfl⟩
  | interrupted => exact hok.elim
  | _ => exact ⟨x, hx, hfin, rfl⟩

theorem attended_step (h : Attended s) (hok : Accepting codec s a)
    (hs : step codec s a = some t) : Attended t := by
  have hentries : Entries t := entries_step h.entries (fun id he => by subst he; exact hok) hs
  refine ⟨hentries, fun i f hf ho => ?_⟩
  rcases pending_before hs hf ho with ⟨g, hg, hid, hgo⟩ | ⟨id, rfl, rfl, rfl⟩
  · rcases h.pending i g hg hgo with hget | hr
    · rw [hid] at hget
      cases step_cases hs with
      | @call id =>
        left
        have hne : f.correlationId ≠ id := by
          rw [← hid]
          exact hok g (List.mem_of_getElem? hg)
        exact (Dict.get?_set_ne hne).trans hget
      | @taken m id k hm hk =>
        by_cases he : f.correlationId = id
        · subst he
          obtain rfl := Option.some.inj (hget.symm.trans hk)
          exact Or.inr ⟨_, List.mem_append_right _ (List.mem_singleton_self _), rfl, rfl⟩
        · exact Or.inl ((Dict.get?_pop_ne he).trans hget)
      | @returned m id k hm hk =>
        have hacc : codec.Accepts returnedOutcome := nofun
        obtain ⟨hne, -⟩ := pending_of_accepts hacc hf ho
        refine Or.inl ((Dict.get?_pop_ne ?_).trans hget)
        rintro rfl
        exact hne (Option.some.inj (hk.symm.trans hget))
      | @removed j x hx hd =>
        have hne : f.correlationId ≠ x.correlationId := by
          intro he
          rw [← hid] at he
          obtain rfl := h.entries.distinct i j g x hg hx he
          obtain rfl := Option.some.inj (hg.symm.trans hx)
          rw [hgo] at hd
          cases hd.1
        exact Or.inl ((Dict.get?_pop_ne hne).trans hget)
      | _ => exact Or.inl hget
    · exact Or.inr (replying_step hok hs hf ho hr)
  · obtain rfl := Option.some.inj hs
    left
    exact Dict.get?_set_self

theorem fresh_attended : Attended (fresh : State Id B V) where
  entries := {
    linked := fresh_linked
    distinct := fun i j f g hi => by cases hi
    keys := fun id i hi => by cases hi
    removed := fun i f hi => by cases hi }
  pending i f hi := by cases hi

theorem replying_of_result {m : Message Id B} (h : Attended s)
    (hs : step codec s (.resultMessage m) = some t) (hm : m.correlationId = some f.correlationId)
    (hf : t.made[i]? = some f) (ho : f.outcome = none) : t.Replying i := by
  have hok : Accepting codec s (.resultMessage m) := trivial
  refine ((attended_step h hok hs).pending i f hf ho).resolve_left fun hget => ?_
  simp only [step, hm] at hs
  split at hs
  · rename_i hk
    obtain rfl := Option.some.inj hs
    cases hk.symm.trans hget
  · obtain rfl := Option.some.inj hs
    cases Dict.get?_pop_self.symm.trans hget

theorem replying_of_returned {m : Message Id B} (h : Attended s)
    (hs : step codec s (.messageReturned m) = some t)
    (hm : m.correlationId = some f.correlationId) (hf : t.made[i]? = some f)
    (ho : f.outcome = none) : t.Replying i := by
  have hok : Accepting codec s (.messageReturned m) := trivial
  refine ((attended_step h hok hs).pending i f hf ho).resolve_left fun hget => ?_
  simp only [step, hm] at hs
  split at hs
  · rename_i hk
    obtain rfl := Option.some.inj hs
    cases hk.symm.trans hget
  · obtain rfl := Option.some.inj hs
    cases Dict.get?_pop_self.symm.trans hget

/-- The end of the channel leaves only those waiting whose messages have come. -/
theorem replying_of_closed {exc : Option V} (h : Attended s)
    (hok : codec.Accepts (closeOutcome exc)) (hs : step codec s (.onClose exc) = some t)
    (hf : t.made[i]? = some f) (ho : f.outcome = none) : t.Replying i := by
  have hok : Accepting codec s (.onClose exc) := hok
  refine ((attended_step h hok hs).pending i f hf ho).resolve_left fun hget => ?_
  obtain rfl := Option.some.inj hs
  obtain ⟨g, -, rfl⟩ := getElem?_completeAll hf
  have hmem : i ∈ s.futures.items.map Prod.snd :=
    List.mem_map.mpr ⟨_, Dict.mem_items_iff.mpr hget, rfl⟩
  rw [if_pos hmem] at ho
  exact Future.complete_done_iff.mpr (Or.inr hok) ho

end Futures

end AioPika.Rpc

namespace AioPika.Rpc.Network

variable {B V : Type} (cfg : Config B V)

/-- No queue is deleted with messages in it or owed to it, no run of `on_result_message` is
cancelled, and no outcome is a `StopIteration`. -/
def Careful (s : System B V) : NetworkAction V → Prop
  | .call _ id _ _ _ _ => ∀ c ∈ s.callers, id ∉ c.made
  | .deserialized p j => ∀ c ∈ s.callers[p]?, ∀ h ∈ c.rpc.handlers[j]?,
      cfg.codec.Accepts (resultOutcome cfg.codec h.message)
  | .interrupted _ _ => False
  | .onClose _ exc => cfg.codec.Accepts (closeOutcome exc)
  | .lost p => ∀ e ∈ s.callees[p]?, ∀ d ∈ e.outstanding, (s.queues.get? d.queue).isSome = true
  | .deleteQueue queue => ∀ ks ∈ s.queues.get? queue, ks.length = 0
  | _ => True

/-- The answer to a call has come, or its channel is closed. -/
inductive Caller.Answered (c : Caller B V) (future : ℕ) (k : Packet B) : Prop
  | result {m : Message String B} (hm : m ∈ c.results)
      (hid : m.correlationId = k.message.correlationId)
  | returned (h : k ∈ c.returns)
  | replying (h : c.rpc.Replying future)
  /-- `on_close` has yet to run. -/
  | down (h : c.down = true)

/-- The broker has a request in a queue, or waits for its settlement. -/
inductive Held (s : System B V) (k : Packet B) : Prop
  | queued {key : String} {ks : List (Packet B)} (hq : s.queues.get? key = some ks) (hk : k ∈ ks)
  | delivered {e : Callee B V} {d : Delivery B V} (he : e ∈ s.callees)
      (hd : d ∈ e.requests ++ e.runs) (hu : d.unacked = true) (hk : d.packet = k)

/-- Something is under way for a call. -/
def Underway (s : System B V) (c : Caller B V) (call : Call B) : Prop :=
  call.stage = .publishing ∨ Held s call.packet ∨ c.Answered call.future call.packet

/-- The caller awaits its future; it does not when `publish` has raised. -/
def Caller.Waits (c : Caller B V) (call : Call B) : Prop :=
  call.stage ≠ .failed ∧ ∀ f ∈ c.rpc.made[call.future]?, f.outcome = none

/-- Whoever waits has something to wait for, and after the reply that is an answer. -/
structure Attentive (s : System B V) : Prop where
  attended : ∀ c ∈ s.callers, Attended c.rpc
  addressed : ∀ (p : ℕ) (c : Caller B V), s.callers[p]? = some c → ∀ call ∈ c.calls,
    call.packet.replyTo = some (cfg.resultQueue p) ∧ call.packet.sender = some (cfg.resultQueue p)
  underway : ∀ c ∈ s.callers, ∀ call ∈ c.calls, c.Waits call → Underway s c call
  replied : ∀ c ∈ s.callers, ∀ call ∈ c.calls, c.Waits call → ∀ e ∈ s.callees, ∀ d ∈ e.runs,
    d.packet = call.packet → d.sent = true → c.Answered call.future call.packet

/-- What a step does to the futures of an instance, and to the messages on their way to it. -/
inductive Caller.Moved (c c' : Caller B V) : Prop
  | kept (hr : c'.rpc = c.rpc) (hresults : c.results ⊆ c'.results)
      (hreturns : c.returns ⊆ c'.returns) (hdown : c'.down = c.down)
  | future {b : Action String B V} (hs : Rpc.step cfg.codec c.rpc b = some c'.rpc)
      (hok : Accepting cfg.codec c.rpc b) (hresults : c'.results = c.results)
      (hreturns : c'.returns = c.returns) (hdown : c'.down = c.down)
  | result {m : Message String B} (hs : Rpc.step cfg.codec c.rpc (.resultMessage m) = some c'.rpc)
      (hresults : c.results ⊆ m :: c'.results) (hreturns : c'.returns = c.returns)
      (hdown : c'.down = c.down)
  | returned {k : Packet B}
      (hs : Rpc.step cfg.codec c.rpc (.messageReturned k.message) = some c'.rpc)
      (hresults : c'.results = c.results) (hreturns : c.returns ⊆ k :: c'.returns)
      (hdown : c'.down = c.down)
  | closed {exc : Option V} (hs : Rpc.step cfg.codec c.rpc (.onClose exc) = some c'.rpc)
      (hok : cfg.codec.Accepts (closeOutcome exc))
  | lost (hr : c'.rpc = c.rpc) (hdown : c'.down = true)

variable {cfg} {s t : System B V} {a : NetworkAction V} {c c' : Caller B V} {call : Call B}
  {k : Packet B} {i : ℕ} {g : Future String V}

namespace Caller.Moved

theorem step (hm : c.Moved cfg c') : c'.rpc = c.rpc ∨
    ∃ b, Rpc.step cfg.codec c.rpc b = some c'.rpc ∧ Accepting cfg.codec c.rpc b := by
  cases hm with
  | kept hr => exact Or.inl hr
  | future hs hok => exact Or.inr ⟨_, hs, hok⟩
  | result hs => exact Or.inr ⟨_, hs, trivial⟩
  | returned hs => exact Or.inr ⟨_, hs, trivial⟩
  | closed hs hok => exact Or.inr ⟨_, hs, hok⟩
  | lost hr => exact Or.inl hr

theorem attended (hm : c.Moved cfg c') (h : Attended c.rpc) : Attended c'.rpc := by
  rcases hm.step with hr | ⟨b, hs, hok⟩
  · rw [hr]
    exact h
  · exact attended_step h hok hs

theorem pending (hm : c.Moved cfg c') (hg : c.rpc.made[i]? = some g)
    (ho : ∀ f ∈ c'.rpc.made[i]?, f.outcome = none) : g.outcome = none ∧
    ∃ f, c'.rpc.made[i]? = some f ∧ f.correlationId = g.correlationId ∧ f.outcome = none := by
  have hlt : i < c.rpc.made.length := (List.getElem?_eq_some_iff.mp hg).1
  rcases hm.step with hr | ⟨b, hs, -⟩
  · rw [hr] at ho ⊢
    exact ⟨ho g hg, g, hg, rfl, ho g hg⟩
  · cases b with
    | call id =>
      have hg' : c'.rpc.made[i]? = some g := by
        obtain h := Option.some.inj hs
        rw [← h]
        exact (List.getElem?_append_left hlt).trans hg
      exact ⟨ho g hg', g, hg', rfl, ho g hg'⟩
    | _ =>
      have hk : Kept c.rpc c'.rpc := kept_step hs nofun
      have hlt' : i < c'.rpc.made.length := by
        rw [hk.length]
        exact hlt
      obtain ⟨f, hf, hid, hp⟩ := hk.pending i _ (List.getElem?_eq_getElem hlt')
      obtain rfl := Option.some.inj (hg.symm.trans hf)
      have hout := ho _ (List.getElem?_eq_getElem hlt')
      exact ⟨hp hout, _, List.getElem?_eq_getElem hlt', hid.symm, hout⟩

theorem answered {f : Future String V} (hm : c.Moved cfg c') (h : Attended c.rpc)
    (hf : c'.rpc.made[i]? = some f) (ho : f.outcome = none)
    (hid : k.message.correlationId = some f.correlationId) (ha : c.Answered i k) :
    c'.Answered i k := by
  cases ha with
  | @result m hmem hmid =>
    cases hm with
    | kept hr hresults => exact .result (hresults hmem) hmid
    | future hs hok hresults => exact .result (hresults ▸ hmem) hmid
    | result hs hresults =>
      rcases List.mem_cons.mp (hresults hmem) with rfl | hmem
      · exact .replying (replying_of_result h hs (hmid.trans hid) hf ho)
      · exact .result hmem hmid
    | returned hs hresults => exact .result (hresults ▸ hmem) hmid
    | closed hs hok => exact .replying (replying_of_closed h hok hs hf ho)
    | lost hr hdown => exact .down hdown
  | returned hmem =>
    cases hm with
    | kept hr hresults hreturns => exact .returned (hreturns hmem)
    | future hs hok hresults hreturns => exact .returned (hreturns ▸ hmem)
    | result hs hresults hreturns => exact .returned (hreturns ▸ hmem)
    | returned hs hresults hreturns =>
      rcases List.mem_cons.mp (hreturns hmem) with rfl | hmem
      · exact .replying (replying_of_returned h hs hid hf ho)
      · exact .returned hmem
    | closed hs hok => exact .replying (replying_of_closed h hok hs hf ho)
    | lost hr hdown => exact .down hdown
  | replying hr =>
    rcases hm.step with he | ⟨b, hs, hok⟩
    · exact .replying (he ▸ hr)
    · exact .replying (replying_step hok hs hf ho hr)
  | down hd =>
    cases hm with
    | kept hr hresults hreturns hdown => exact .down (hdown.trans hd)
    | future hs hok hresults hreturns hdown => exact .down (hdown.trans hd)
    | result hs hresults hreturns hdown => exact .down (hdown.trans hd)
    | returned hs hresults hreturns hdown => exact .down (hdown.trans hd)
    | closed hs hok => exact .replying (replying_of_closed h hok hs hf ho)
    | lost hr hdown => exact .down hdown

theorem refl : c.Moved cfg c := .kept rfl (List.Subset.refl _) (List.Subset.refl _) rfl

end Caller.Moved

theorem moved_of_set {p : ℕ} (hp : s.callers[p]? = some c) (ht : t.callers = s.callers.set p c')
    (hm : c.Moved cfg c') {q : ℕ} {x : Caller B V} (hx : t.callers[q]? = some x) :
    ∃ y, s.callers[q]? = some y ∧ y.Moved cfg x := by
  rw [ht] at hx
  rcases Members.of_set hx with ⟨rfl, rfl⟩ | ⟨-, hx⟩
  · exact ⟨c, hp, hm⟩
  · exact ⟨x, hx, .refl⟩

theorem moved_toResults (ht : t.callers = s.callers) (queue : Option String)
    (m : Message String B) {q : ℕ} {x : Caller B V}
    (hx : (t.toResults cfg queue m).callers[q]? = some x) :
    ∃ y, s.callers[q]? = some y ∧ y.Moved cfg x := by
  rcases @toResults_cases _ _ cfg t queue m with he | ⟨p, y, hp, -, he⟩
  · rw [he, ht] at hx
    exact ⟨x, hx, .refl⟩
  · rw [he] at hx
    rw [ht] at hp
    have hm : y.Moved cfg { y with results := y.results ++ [m] } :=
      .kept rfl (List.subset_append_left _ _) (List.Subset.refl _) rfl
    simp only [System.setCaller, ht] at hx
    rcases Members.of_set hx with ⟨rfl, rfl⟩ | ⟨-, hx⟩
    · exact ⟨y, hp, hm⟩
    · exact ⟨x, hx, .refl⟩

theorem subset_cons_eraseIdx {τ : Type*} {ts : List τ} {x : τ} {n : ℕ} (h : ts[n]? = some x) :
    ts ⊆ x :: ts.eraseIdx n := by
  intro y hy
  obtain ⟨i, hi⟩ := List.getElem?_of_mem hy
  by_cases hin : i = n
  · subst hin
    obtain rfl := Option.some.inj (h.symm.trans hi)
    exact List.mem_cons_self
  · exact List.mem_cons_of_mem _ (List.mem_eraseIdx_iff_getElem?.mpr ⟨i, hin, hi⟩)

theorem moved_step (hok : Careful cfg s a) (hs : step cfg s a = some t) {p : ℕ}
    (hp' : t.callers[p]? = some c') : ∃ c, s.callers[p]? = some c ∧ c.Moved cfg c' := by
  have hkeep : ∀ {c : Caller B V} {calls : List (Call B)} {returns : List (Packet B)},
      c.returns ⊆ returns → c.Moved cfg { c with calls := calls, returns := returns } :=
    fun hsub => .kept rfl (List.Subset.refl _) hsub rfl
  have hcall : ∀ {p : ℕ} {c : Caller B V} {id : String} {r : State String B V}
      {calls : List (Call B)}, (∀ c ∈ s.callers, id ∉ c.made) → s.callers[p]? = some c →
      Rpc.step cfg.codec c.rpc (.call id) = some r →
      c.Moved cfg { c with rpc := r, calls := calls } := by
    intro p c id r calls hid hp hr
    refine .future hr (fun f hf he => ?_) rfl rfl rfl
    exact hid c (List.mem_of_getElem? hp) (List.mem_map.mpr ⟨f, hf, he⟩)
  have hfuture : ∀ {c : Caller B V} {b : Action String B V} {r : State String B V},
      Rpc.step cfg.codec c.rpc b = some r → Accepting cfg.codec c.rpc b →
      c.Moved cfg { c with rpc := r } := fun hr hok => .future hr hok rfl rfl rfl
  cases step_cases hs with
  | call hp hr => exact moved_of_set hp rfl (hcall hok hp hr) hp'
  | unserializable hp hr => exact moved_of_set hp rfl (hcall hok hp hr) hp'
  | queued hp => exact moved_of_set hp rfl (hkeep (List.Subset.refl _)) hp'
  | unroutable hp => exact moved_of_set hp rfl (hkeep (List.subset_append_left _ _)) hp'
  | publishRaised hp => exact moved_of_set hp rfl (hkeep (List.Subset.refl _)) hp'
  | @messageReturned _ n c k rpc hp hn hr =>
    have hm : c.Moved cfg { c with rpc := rpc, returns := c.returns.eraseIdx n } :=
      .returned hr rfl (subset_cons_eraseIdx hn) rfl
    exact moved_of_set hp rfl hm hp'
  | @resultMessage _ n c m rpc hp hn hr =>
    have hm : c.Moved cfg { c with rpc := rpc, results := c.results.eraseIdx n } :=
      .result hr (subset_cons_eraseIdx hn) rfl rfl
    exact moved_of_set hp rfl hm hp'
  | future hp hr hb =>
    rcases hb with ⟨j, rfl, rfl⟩ | ⟨j, rfl, rfl⟩ | ⟨j, rfl, rfl⟩ | ⟨j, rfl, rfl⟩
    · exact moved_of_set hp rfl (hfuture hr (hok _ hp)) hp'
    · exact hok.elim
    · exact moved_of_set hp rfl (hfuture hr trivial) hp'
    · exact moved_of_set hp rfl (hfuture hr trivial) hp'
  | @onClose _ exc c rpc hp hr =>
    have hm : c.Moved cfg { c with rpc := rpc, down := false } := .closed hr hok
    exact moved_of_set hp rfl hm hp'
  | @lost _ c e hp =>
    have hm : c.Moved cfg c.lose := .lost rfl rfl
    exact moved_of_set hp rfl hm hp'
  | reply => exact moved_toResults (by rfl) _ _ hp'
  | rejected => exact moved_toResults (by rfl) _ _ hp'
  | expire => exact moved_toResults (by rfl) _ _ hp'
  | _ => exact ⟨c', hp', .refl⟩

/-- A call goes on: it is at the same stage, or has failed, or the broker has its message, or
returns it. -/
structure Continues (t : System B V) (c' : Caller B V) (call call' : Call B) : Prop where
  future : call'.future = call.future
  packet : call'.packet = call.packet
  failed : call.stage = .failed → call'.stage = .failed
  stage : call'.stage = call.stage ∨ call'.stage = .failed ∨ Held t call.packet ∨
    call.packet ∈ c'.returns

structure Made (cfg : Config B V) (s : System B V) (p : ℕ) (call : Call B) : Prop where
  stage : call.stage = .publishing
  addressed : call.packet.replyTo = some (cfg.resultQueue p) ∧
    call.packet.sender = some (cfg.resultQueue p)
  fresh : ∃ id, call.packet.message.correlationId = some id ∧ ∀ c ∈ s.callers, id ∉ c.made

theorem Continues.refl : Continues t c' call call := ⟨rfl, rfl, id, Or.inl rfl⟩

theorem continues_of_set {n : ℕ} {stage : Stage} (hn : c.calls[n]? = some call)
    (hs : call.stage = .publishing)
    (hstage : stage = .failed ∨ Held t call.packet ∨ call.packet ∈ c'.returns) :
    ∀ call' ∈ c.calls.set n { call with stage := stage },
      ∃ call ∈ c.calls, Continues t c' call call' := by
  intro call' hcall'
  rcases List.mem_or_eq_of_mem_set hcall' with hcall' | rfl
  · exact ⟨call', hcall', .refl⟩
  · refine ⟨call, List.mem_of_getElem? hn, rfl, rfl, fun hf => ?_, Or.inr hstage⟩
    cases hs.symm.trans hf

theorem calls_of_set {p q : ℕ} {x y : Caller B V} (hp : s.callers[p]? = some x)
    (ht : t.callers = s.callers.set p y)
    (hy : ∀ call' ∈ y.calls, (∃ call ∈ x.calls, Continues t y call call') ∨ Made cfg s p call')
    (hq : s.callers[q]? = some c) (hq' : t.callers[q]? = some c') :
    ∀ call' ∈ c'.calls, (∃ call ∈ c.calls, Continues t c' call call') ∨ Made cfg s q call' := by
  rw [ht] at hq'
  rcases Members.of_set hq' with ⟨rfl, rfl⟩ | ⟨-, hq'⟩
  · obtain rfl := Option.some.inj (hp.symm.trans hq)
    exact hy
  · obtain rfl := Option.some.inj (hq.symm.trans hq')
    exact fun call hcall => Or.inl ⟨call, hcall, .refl⟩

theorem calls_toResults {q : ℕ} {y : System B V} (hy : y.callers = s.callers)
    (queue : Option String) (m : Message String B) (hq : s.callers[q]? = some c)
    (hq' : (y.toResults cfg queue m).callers[q]? = some c') :
    ∀ call' ∈ c'.calls, (∃ call ∈ c.calls, Continues t c' call call') ∨ Made cfg s q call' := by
  have hcalls : c'.calls = c.calls := by
    rcases @toResults_cases _ _ cfg y queue m with he | ⟨p, x, hp, -, he⟩
    · rw [he, hy] at hq'
      obtain rfl := Option.some.inj (hq.symm.trans hq')
      rfl
    · rw [he] at hq'
      simp only [System.setCaller, hy] at hp hq'
      rcases Members.of_set hq' with ⟨rfl, rfl⟩ | ⟨-, hq'⟩
      · obtain rfl := Option.some.inj (hp.symm.trans hq)
        rfl
      · obtain rfl := Option.some.inj (hq.symm.trans hq')
        rfl
  rw [hcalls]
  exact fun call hcall => Or.inl ⟨call, hcall, .refl⟩

theorem calls_step (hok : Careful cfg s a) (hs : step cfg s a = some t) {q : ℕ}
    (hq : s.callers[q]? = some c) (hq' : t.callers[q]? = some c') :
    ∀ call' ∈ c'.calls, (∃ call ∈ c.calls, Continues t c' call call') ∨ Made cfg s q call' := by
  cases step_cases hs with
  | @call p id method kwargs mode expiration body x rpc hp hr =>
    refine calls_of_set hp rfl (fun call' hcall' => ?_) hq hq'
    rcases List.mem_append.mp hcall' with hcall' | hcall'
    · exact Or.inl ⟨call', hcall', .refl⟩
    · obtain rfl := List.mem_singleton.mp hcall'
      exact Or.inr ⟨rfl, ⟨rfl, rfl⟩, id, rfl, hok⟩
  | unserializable hp => exact calls_of_set hp rfl (fun x hx => Or.inl ⟨x, hx, .refl⟩) hq hq'
  | @queued p n x call ks hp hn hstage hk =>
    refine calls_of_set hp rfl (fun call' hcall' => Or.inl ?_) hq hq'
    refine continues_of_set hn hstage (Or.inr (Or.inl ?_)) call' hcall'
    exact .queued Dict.get?_set_self (List.mem_append_right _ (List.mem_singleton_self _))
  | @unroutable p n x call hp hn hstage =>
    refine calls_of_set hp rfl (fun call' hcall' => Or.inl ?_) hq hq'
    refine continues_of_set hn hstage (Or.inr (Or.inr ?_)) call' hcall'
    exact List.mem_append_right _ (List.mem_singleton_self _)
  | publishRaised hp hn hstage =>
    refine calls_of_set hp rfl (fun call' hcall' => Or.inl ?_) hq hq'
    exact continues_of_set hn hstage (Or.inl rfl) call' hcall'
  | messageReturned hp => exact calls_of_set hp rfl (fun x hx => Or.inl ⟨x, hx, .refl⟩) hq hq'
  | resultMessage hp => exact calls_of_set hp rfl (fun x hx => Or.inl ⟨x, hx, .refl⟩) hq hq'
  | future hp => exact calls_of_set hp rfl (fun x hx => Or.inl ⟨x, hx, .refl⟩) hq hq'
  | onClose hp => exact calls_of_set hp rfl (fun x hx => Or.inl ⟨x, hx, .refl⟩) hq hq'
  | @lost p x e hp =>
    refine calls_of_set hp rfl (fun call' hcall' => Or.inl ?_) hq hq'
    obtain ⟨call, hcall, rfl⟩ := List.mem_map.mp hcall'
    refine ⟨call, hcall, ?_⟩
    split
    · exact ⟨rfl, rfl, fun _ => rfl, Or.inr (Or.inl rfl)⟩
    · exact .refl
  | reply => exact calls_toResults (by rfl) _ _ hq hq'
  | rejected => exact calls_toResults (by rfl) _ _ hq hq'
  | expire => exact calls_toResults (by rfl) _ _ hq hq'
  | _ =>
    obtain rfl := Option.some.inj (hq.symm.trans hq')
    exact fun call hcall => Or.inl ⟨call, hcall, .refl⟩

/-- A message with an id has come to the result queue of that name. -/
def Arrives (cfg : Config B V) (t : System B V) (queue id : Option String) : Prop :=
  ∀ (p : ℕ) (c : Caller B V), queue = some (cfg.resultQueue p) → t.callers[p]? = some c →
    ∃ m ∈ c.results, m.correlationId = id

theorem arrives_toResults {queue : Option String} {m : Message String B} :
    Arrives cfg (s.toResults cfg queue m) queue m.correlationId := by
  rintro p c rfl hp
  have hlt : p < s.callers.length := by
    have hlt := (List.getElem?_eq_some_iff.mp hp).1
    rcases @toResults_cases _ _ cfg s (some (cfg.resultQueue p)) m with
      he | ⟨q, x, -, -, he⟩
    · rwa [he] at hlt
    · rw [he] at hlt
      simpa [System.setCaller] using hlt
  have hx := List.getElem?_eq_getElem hlt
  rw [toResults_eq hx] at hp
  simp only [System.setCaller, List.getElem?_set_self hlt] at hp
  obtain rfl := Option.some.inj hp
  exact ⟨m, List.mem_append_right _ (List.mem_singleton_self _), rfl⟩

theorem Held.of_eq {P : Prop} (h : Held s k) (ht : t.callees = s.callees)
    (hq : ∀ key ks, s.queues.get? key = some ks → k ∈ ks → Held t k ∨ P) : Held t k ∨ P := by
  cases h with
  | queued hget hk => exact hq _ _ hget hk
  | delivered he hd hu hk => exact Or.inl (.delivered (ht ▸ he) hd hu hk)

theorem Held.of_set {P : Prop} {q : ℕ} {e e' : Callee B V} (h : Held s k)
    (he : s.callees[q]? = some e) (ht : t.callees = s.callees.set q e')
    (hq : ∀ key ks, s.queues.get? key = some ks → k ∈ ks → Held t k ∨ P)
    (hd : ∀ d ∈ e.requests ++ e.runs, d.unacked = true → d.packet = k → Held t k ∨ P) :
    Held t k ∨ P := by
  cases h with
  | queued hget hk => exact hq _ _ hget hk
  | @delivered x d hx hmem hu hk =>
    obtain ⟨i, hi⟩ := List.getElem?_of_mem hx
    by_cases hqi : q = i
    · subst hqi
      obtain rfl := Option.some.inj (he.symm.trans hi)
      exact hd d hmem hu hk
    · refine Or.inl (.delivered (e := x) ?_ hmem hu hk)
      rw [ht]
      exact List.mem_of_getElem? ((List.getElem?_set_ne hqi).trans hi)

theorem mem_of_set {q : ℕ} {e e' : Callee B V} (he : s.callees[q]? = some e)
    (ht : t.callees = s.callees.set q e') : e' ∈ t.callees := by
  rw [ht]
  exact List.mem_of_getElem? (List.getElem?_set_self (List.getElem?_eq_some_iff.mp he).1)

theorem Held.toResults {key : String} {ks : List (Packet B)} (queue : Option String)
    (m : Message String B) (hk : s.queues.get? key = some ks) (hmem : k ∈ ks) :
    Held (s.toResults cfg queue m) k := by
  have hget : (s.toResults cfg queue m).queues.get? key = some ks := by
    rw [toResults_queues]
    exact hk
  exact .queued hget hmem

theorem requeued (ds : List (Delivery B V)) {queues : Dict String (List (Packet B))}
    (hds : ∀ d ∈ ds, (queues.get? d.queue).isSome = true) :
    (∀ key ks, queues.get? key = some ks →
      ∃ ks', (ds.foldl requeue queues).get? key = some ks' ∧ ks ⊆ ks') ∧
    ∀ d ∈ ds, ∃ ks, (ds.foldl requeue queues).get? d.queue = some ks ∧ d.packet ∈ ks := by
  induction ds generalizing queues with
  | nil =>
    refine ⟨fun key ks hk => ⟨ks, hk, List.Subset.refl _⟩, fun d hd => ?_⟩
    exact absurd hd List.not_mem_nil
  | cons d ds ih =>
    obtain ⟨ks₀, hk₀⟩ := Option.isSome_iff_exists.mp (hds d List.mem_cons_self)
    have hone : requeue queues d = queues.set d.queue (d.packet :: ks₀) := by
      unfold requeue
      rw [hk₀]
    have hgrow : ∀ key ks, queues.get? key = some ks →
        ∃ ks', (requeue queues d).get? key = some ks' ∧ ks ⊆ ks' := by
      intro key ks hk
      rw [hone]
      by_cases hkey : key = d.queue
      · subst hkey
        obtain rfl := Option.some.inj (hk₀.symm.trans hk)
        exact ⟨_, Dict.get?_set_self, List.subset_cons_self _ _⟩
      · exact ⟨ks, (Dict.get?_set_ne hkey).trans hk, List.Subset.refl _⟩
    have hsome : ∀ d' ∈ ds, ((requeue queues d).get? d'.queue).isSome = true := by
      intro d' hd'
      obtain ⟨ks, hk⟩ := Option.isSome_iff_exists.mp (hds d' (List.mem_cons_of_mem _ hd'))
      obtain ⟨ks', hk', -⟩ := hgrow _ ks hk
      exact Option.isSome_iff_exists.mpr ⟨ks', hk'⟩
    obtain ⟨hkeep, hmem⟩ := ih hsome
    rw [List.foldl_cons]
    constructor
    · intro key ks hk
      obtain ⟨ks', hk', hsub⟩ := hgrow key ks hk
      obtain ⟨ks'', hk'', hsub'⟩ := hkeep key ks' hk'
      exact ⟨ks'', hk'', fun x hx => hsub' (hsub hx)⟩
    · intro d' hd'
      rcases List.mem_cons.mp hd' with rfl | hd'
      · obtain ⟨ks, hk, hsub⟩ := hkeep d'.queue (d'.packet :: ks₀) (by
          rw [hone]
          exact Dict.get?_set_self)
        exact ⟨ks, hk, hsub List.mem_cons_self⟩
      · exact hmem d' hd'

theorem mem_runs_set {e : Callee B V} {j : ℕ} {d d' x : Delivery B V}
    (hd : e.runs[j]? = some d) (hx : x ∈ e.requests ++ e.runs) :
    x = d ∨ x ∈ e.requests ++ e.runs.set j d' := by
  rcases List.mem_append.mp hx with hx | hx
  · exact Or.inr (List.mem_append_left _ hx)
  · obtain ⟨i, hi⟩ := List.getElem?_of_mem hx
    by_cases hij : j = i
    · subst hij
      exact Or.inl (Option.some.inj (hi.symm.trans hd))
    · refine Or.inr (List.mem_append_right _ ?_)
      exact List.mem_of_getElem? ((List.getElem?_set_ne hij).trans hi)

theorem mem_set_run {e : Callee B V} {j : ℕ} {d d' : Delivery B V} (hd : e.runs[j]? = some d) :
    d' ∈ e.requests ++ e.runs.set j d' := by
  refine List.mem_append_right _ ?_
  exact List.mem_of_getElem? (List.getElem?_set_self (List.getElem?_eq_some_iff.mp hd).1)

/-- A request was settled by a run that has replied to it, if it is to be replied to. -/
def Settled (s : System B V) (k : Packet B) : Prop :=
  ∃ e ∈ s.callees, ∃ d ∈ e.runs, d.packet = k ∧ (k.request.Answered → d.sent = true)

/-- The broker lets a request go when it was settled, or for the dead letter exchange. -/
theorem held_step (hn : Noted cfg s) (hok : Careful cfg s a) (hs : step cfg s a = some t)
    (h : Held s k) :
    Held t k ∨ Settled s k ∨ Arrives cfg t k.sender k.message.correlationId := by
  cases step_cases hs with
  | @queued p n c call ks hp hc hstage hq =>
    refine h.of_eq rfl fun key ks' hk hmem => Or.inl ?_
    by_cases hkey : key = call.routingKey
    · subst hkey
      obtain rfl := Option.some.inj (hq.symm.trans hk)
      exact .queued Dict.get?_set_self (List.mem_append_left _ hmem)
    · exact .queued ((Dict.get?_set_ne hkey).trans hk) hmem
  | @lost p c e hp hq =>
    obtain ⟨hkeep, hback⟩ := requeued e.outstanding (hok e hq)
    refine h.of_set hq rfl (fun key ks hk hmem => Or.inl ?_) fun d hd hu hk => Or.inl ?_
    · obtain ⟨ks', hk', hsub⟩ := hkeep key ks hk
      exact .queued hk' (hsub hmem)
    · subst hk
      obtain ⟨ks, hk, hmem⟩ := hback d (List.mem_filter.mpr ⟨hd, hu⟩)
      exact .queued hk hmem
  | @register q a e server hq hserve ha =>
    refine h.of_set hq rfl (fun key ks hk hmem => Or.inl (.queued hk hmem)) ?_
    exact fun d hd hu hk => Or.inl (.delivered (mem_of_set hq rfl) hd hu hk)
  | @deliver q consumer n e member ks k' server hq hc hk' hget hserve =>
    refine h.of_set hq rfl (fun key ks' hk hmem => Or.inl ?_) fun d hd hu hk => Or.inl ?_
    · by_cases hkey : key = (cfg.rpc q).formatRoutingKey member.method
      · subst hkey
        obtain rfl := Option.some.inj (hk'.symm.trans hk)
        rcases List.mem_cons.mp (subset_cons_eraseIdx hget hmem) with rfl | hmem
        · exact .delivered (mem_of_set hq rfl) (List.mem_append_left _ (List.mem_append_right _
            (List.mem_singleton_self _))) rfl rfl
        · exact .queued Dict.get?_set_self hmem
      · exact .queued ((Dict.get?_set_ne hkey).trans hk) hmem
    · refine .delivered (mem_of_set hq rfl) ?_ hu hk
      rcases List.mem_append.mp hd with hd | hd
      · exact List.mem_append_left _ (List.mem_append_left _ hd)
      · exact List.mem_append_right _ hd
  | @handle q n e d' server hq hd' hserve =>
    refine h.of_set hq rfl (fun key ks hk hmem => Or.inl (.queued hk hmem)) ?_
    intro d hd hu hk
    refine Or.inl (.delivered (mem_of_set hq rfl) ?_ hu hk)
    rcases List.mem_append.mp hd with hd | hd
    · rcases List.mem_cons.mp (subset_cons_eraseIdx hd' hd) with rfl | hd
      · exact List.mem_append_right _ (List.mem_append_right _ (List.mem_singleton_self _))
      · exact List.mem_append_left _ hd
    · exact List.mem_append_right _ (List.mem_append_left _ hd)
  | event hq hd' =>
    refine h.of_set hq rfl (fun key ks hk hmem => Or.inl (.queued hk hmem)) ?_
    intro d hd hu hk
    rcases mem_runs_set hd' hd with rfl | hd
    · exact Or.inl (.delivered (mem_of_set hq rfl) (mem_set_run hd') hu hk)
    · exact Or.inl (.delivered (mem_of_set hq rfl) hd hu hk)
  | reply hq hd' =>
    refine h.of_set hq toResults_callees (fun key ks hk hmem => Or.inl ?_) ?_
    · exact .toResults _ _ hk hmem
    · intro d hd hu hk
      rcases mem_runs_set hd' hd with rfl | hd
      · exact Or.inl (.delivered (mem_of_set hq toResults_callees) (mem_set_run hd') hu hk)
      · exact Or.inl (.delivered (mem_of_set hq toResults_callees) hd hu hk)
  | @acked q j e d' x hq hd' hj hu' hf =>
    refine h.of_set hq rfl (fun key ks hk hmem => Or.inl (.queued hk hmem)) ?_
    intro d hd hu hk
    rcases mem_runs_set hd' hd with rfl | hd
    · refine Or.inr (Or.inl ⟨e, List.mem_of_getElem? hq, d, List.mem_of_getElem? hd', hk, ?_⟩)
      intro hanswered
      have hrec := (hn q e hq).runs j d x hd' hj
      have hne := hrec.acked (by rw [hf]; exact List.mem_singleton_self _)
      rw [hrec.request, hk] at hne
      exact hrec.replies (hne.resolve_left (not_not_intro hanswered))
    · exact Or.inl (.delivered (mem_of_set hq rfl) hd hu hk)
  | @rejected q j e d' x hq hd' hj hu' hf =>
    refine h.of_set hq toResults_callees (fun key ks hk hmem => Or.inl ?_) ?_
    · exact .toResults _ _ hk hmem
    · intro d hd hu hk
      rcases mem_runs_set hd' hd with rfl | hd
      · subst hk
        exact Or.inr (Or.inr arrives_toResults)
      · exact Or.inl (.delivered (mem_of_set hq toResults_callees) hd hu hk)
  | @expire queue n ks k' hk' hget =>
    refine h.of_eq toResults_callees fun key ks' hk hmem => ?_
    by_cases hkey : key = queue
    · subst hkey
      obtain rfl := Option.some.inj (hk'.symm.trans hk)
      rcases List.mem_cons.mp (subset_cons_eraseIdx hget hmem) with rfl | hmem
      · exact Or.inr (Or.inr arrives_toResults)
      · exact Or.inl (.toResults _ _ Dict.get?_set_self hmem)
    · exact Or.inl (.toResults _ _ ((Dict.get?_set_ne hkey).trans hk) hmem)
  | @declareQueue queue hq =>
    refine h.of_eq rfl fun key ks hk hmem => Or.inl ?_
    have hne : key ≠ queue := by
      rintro rfl
      cases hq.symm.trans hk
    exact .queued ((Dict.get?_set_ne hne).trans hk) hmem
  | @deleteQueue queue =>
    refine h.of_eq rfl fun key ks hk hmem => Or.inl ?_
    have hne : key ≠ queue := by
      rintro rfl
      rw [List.length_eq_zero_iff.mp (hok ks hk)] at hmem
      cases hmem
    exact .queued ((Dict.get?_pop_ne hne).trans hk) hmem
  | _ => exact h.of_eq rfl fun key ks hk hmem => Or.inl (.queued hk hmem)

/-- The reply to a request, if there is to be one, has come to its caller. -/
def Replied (cfg : Config B V) (t : System B V) (k : Packet B) : Prop :=
  k.request.Answered → Arrives cfg t k.replyTo k.message.correlationId

theorem sent_of_set {q : ℕ} {e e' : Callee B V} (he : s.callees[q]? = some e)
    (ht : t.callees = s.callees.set q e')
    (hr : ∀ d' ∈ e'.runs, d'.sent = true →
      ∃ d ∈ e.runs, d.packet = d'.packet ∧ (d.sent = true ∨ Replied cfg t d'.packet))
    {x : Callee B V} (hx : x ∈ t.callees) {d' : Delivery B V} (hd' : d' ∈ x.runs)
    (hsent : d'.sent = true) : ∃ e ∈ s.callees, ∃ d ∈ e.runs,
      d.packet = d'.packet ∧ (d.sent = true ∨ Replied cfg t d'.packet) := by
  rw [ht] at hx
  rcases List.mem_or_eq_of_mem_set hx with hx | rfl
  · exact ⟨x, hx, d', hd', rfl, Or.inl hsent⟩
  · exact ⟨e, List.mem_of_getElem? he, hr d' hd' hsent⟩

/-- A reply that the broker gets goes to its caller. -/
theorem sent_step (hn : Noted cfg s) (hs : step cfg s a = some t) {x : Callee B V}
    (hx : x ∈ t.callees) {d' : Delivery B V} (hd' : d' ∈ x.runs) (hsent : d'.sent = true) :
    ∃ e ∈ s.callees, ∃ d ∈ e.runs,
      d.packet = d'.packet ∧ (d.sent = true ∨ Replied cfg t d'.packet) := by
  have hset : ∀ {e : Callee B V} {j : ℕ} {d y : Delivery B V}, e.runs[j]? = some d →
      y.packet = d.packet → y.sent = d.sent → ∀ d' ∈ e.runs.set j y, d'.sent = true →
      ∃ d ∈ e.runs, d.packet = d'.packet ∧ (d.sent = true ∨ Replied cfg t d'.packet) := by
    intro e j d y hd hp hy d' hd' hsent
    rcases List.mem_or_eq_of_mem_set hd' with hd' | rfl
    · exact ⟨d', hd', rfl, Or.inl hsent⟩
    · exact ⟨d, List.mem_of_getElem? hd, hp.symm, Or.inl (hy.symm.trans hsent)⟩
  cases step_cases hs with
  | @lost p c e hp hq =>
    refine sent_of_set hq (by rfl) (fun d' hd' hsent => ?_) hx hd' hsent
    obtain ⟨d, hd, rfl⟩ := List.mem_map.mp hd'
    exact ⟨d, hd, rfl, Or.inl hsent⟩
  | register hq =>
    refine sent_of_set hq (by rfl) (fun d hd hsent => ?_) hx hd' hsent
    exact ⟨d, hd, rfl, Or.inl hsent⟩
  | deliver hq =>
    refine sent_of_set hq (by rfl) (fun d hd hsent => ?_) hx hd' hsent
    exact ⟨d, hd, rfl, Or.inl hsent⟩
  | @handle q n e d server hq hd =>
    refine sent_of_set hq (by rfl) (fun d' hd' hsent => ?_) hx hd' hsent
    rcases List.mem_append.mp hd' with hd' | hd'
    · exact ⟨d', hd', rfl, Or.inl hsent⟩
    · obtain rfl := List.mem_singleton.mp hd'
      have hnot := ((hn q e hq).untouched d' (List.mem_of_getElem? hd)).2.2.2
      cases hnot.symm.trans hsent
  | event hq hd =>
    refine sent_of_set hq (by rfl) ?_ hx hd' hsent
    exact hset hd rfl rfl
  | @reply q j e d reply body hq hd hr hb hns =>
    refine sent_of_set hq toResults_callees (fun d' hd' hsent => ?_) hx hd' hsent
    rcases List.mem_or_eq_of_mem_set hd' with hd' | rfl
    · exact ⟨d', hd', rfl, Or.inl hsent⟩
    · refine ⟨d, List.mem_of_getElem? hd, rfl, Or.inr fun hanswered => ?_⟩
      obtain ⟨h, -, hrec⟩ := (hn q e hq).run hd
      obtain ⟨-, hkey, hid⟩ := hrec.reply reply hr
      have hto : d.packet.replyTo = some reply.routingKey := by
        cases hreply : d.packet.replyTo with
        | some key => rw [hkey, hreply]; rfl
        | none =>
          refine absurd ?_ hanswered
          simp [Packet.request, hreply]
      show Arrives cfg _ d.packet.replyTo d.packet.message.correlationId
      rw [hto, ← hid]
      exact arrives_toResults
  | acked hq hd =>
    refine sent_of_set hq (by rfl) ?_ hx hd' hsent
    exact hset hd rfl rfl
  | rejected hq hd =>
    refine sent_of_set hq toResults_callees ?_ hx hd' hsent
    exact hset hd rfl rfl
  | expire =>
    rw [toResults_callees] at hx
    exact ⟨x, hx, d', hd', rfl, Or.inl hsent⟩
  | _ => exact ⟨x, hx, d', hd', rfl, Or.inl hsent⟩

theorem Continues.waits {call' : Call B} (hc : Continues t c' call call')
    (hm : c.Moved cfg c') (hg : c.rpc.made[call.future]? = some g) (hw : c'.Waits call') :
    c.Waits call ∧ ∃ f, c'.rpc.made[call.future]? = some f ∧
      f.correlationId = g.correlationId ∧ f.outcome = none := by
  obtain ⟨hstage, ho⟩ := hw
  rw [hc.future] at ho
  obtain ⟨hpending, hf⟩ := hm.pending hg ho
  refine ⟨⟨fun hfail => hstage (hc.failed hfail), fun x hx => ?_⟩, hf⟩
  obtain rfl := Option.some.inj (hg.symm.trans hx)
  exact hpending

theorem answered_of_replyTo {p : ℕ} (h : k.replyTo = some (cfg.resultQueue p)) :
    k.request.Answered := by
  intro he
  simp only [Packet.request, h, Option.getD_some] at he
  exact cfg.named p he

theorem attentive_step (hn : Noted cfg s) (hgen : Genuine cfg s) (hnum : Numbered s)
    (hok : Careful cfg s a) (h : Attentive cfg s) (hs : step cfg s a = some t) :
    Attentive cfg t := by
  have hat : ∀ {c' : Caller B V}, c' ∈ t.callers → ∃ (p : ℕ) (c : Caller B V),
      s.callers[p]? = some c ∧ t.callers[p]? = some c' ∧ c.Moved cfg c' := by
    intro c' hc'
    obtain ⟨p, hp'⟩ := List.getElem?_of_mem hc'
    obtain ⟨c, hp, hm⟩ := moved_step hok hs hp'
    exact ⟨p, c, hp, hp', hm⟩
  constructor
  · intro c' hc'
    obtain ⟨p, c, hp, -, hm⟩ := hat hc'
    exact hm.attended (h.attended c (List.mem_of_getElem? hp))
  · intro p c' hp' call' hcall'
    obtain ⟨c, hp, -⟩ := moved_step hok hs hp'
    rcases calls_step hok hs hp hp' call' hcall' with ⟨call, hcall, hc⟩ | hmade
    · rw [hc.packet]
      exact h.addressed p c hp call hcall
    · exact hmade.addressed
  · intro c' hc' call' hcall' hw
    obtain ⟨p, c, hp, hp', hm⟩ := hat hc'
    rcases calls_step hok hs hp hp' call' hcall' with ⟨call, hcall, hcont⟩ | hmade
    · have hc : c ∈ s.callers := List.mem_of_getElem? hp
      obtain ⟨g, hg, hid⟩ := (hgen.callers c hc).own call hcall
      obtain ⟨hwaits, f, hf, hfid, ho⟩ := hcont.waits hm hg hw
      rw [← hfid] at hid
      have hkeep : c.Answered call.future call.packet → Underway t c' call' := by
        intro ha
        refine Or.inr (Or.inr ?_)
        rw [hcont.future, hcont.packet]
        exact hm.answered (h.attended c hc) hf ho hid ha
      rcases hcont.stage with hstage | hstage | hheld | hret
      · rcases h.underway c hc call hcall hwaits with hpub | hheld | ha
        · exact Or.inl (hstage.trans hpub)
        · obtain ⟨hreply, hsender⟩ := h.addressed p c hp call hcall
          rcases held_step hn hok hs hheld with hheld | ⟨e, he, d, hd, hk, hsent⟩ | harr
          · refine Or.inr (Or.inl ?_)
            rw [hcont.packet]
            exact hheld
          · refine hkeep (h.replied c hc call hcall hwaits e he d hd hk ?_)
            exact hsent (answered_of_replyTo hreply)
          · obtain ⟨m, hmem, hmid⟩ := harr p c' hsender hp'
            refine Or.inr (Or.inr (.result hmem ?_))
            rw [hcont.packet]
            exact hmid
        · exact hkeep ha
      · exact absurd hstage hw.1
      · refine Or.inr (Or.inl ?_)
        rw [hcont.packet]
        exact hheld
      · refine Or.inr (Or.inr (.returned ?_))
        rw [hcont.packet]
        exact hret
    · exact Or.inl hmade.stage
  · intro c' hc' call' hcall' hw e' he' d' hd' hk hsent
    obtain ⟨p, c, hp, hp', hm⟩ := hat hc'
    obtain ⟨e, he, d, hd, hpacket, hd₀⟩ := sent_step hn hs he' hd' hsent
    rcases calls_step hok hs hp hp' call' hcall' with ⟨call, hcall, hcont⟩ | hmade
    · have hc : c ∈ s.callers := List.mem_of_getElem? hp
      obtain ⟨g, hg, hid⟩ := (hgen.callers c hc).own call hcall
      obtain ⟨hwaits, f, hf, hfid, ho⟩ := hcont.waits hm hg hw
      rw [hcont.packet] at hk ⊢
      rw [hcont.future]
      rcases hd₀ with hd₀ | harr
      · refine hm.answered (h.attended c hc) hf ho (hid.trans (congrArg some hfid.symm)) ?_
        exact h.replied c hc call hcall hwaits e he d hd (hpacket.trans hk) hd₀
      · obtain ⟨hreply, -⟩ := h.addressed p c hp call hcall
        rw [hk] at harr
        obtain ⟨m, hmem, hmid⟩ := harr (answered_of_replyTo hreply) p c' hreply hp'
        exact .result hmem hmid
    -- the message of a new call has not been delivered before
    · obtain ⟨id, hid, hfresh⟩ := hmade.fresh
      obtain ⟨c₀, hc₀, call₀, hcall₀, hk₀, -⟩ :=
        hgen.deliveries e he d (List.mem_append_right _ hd)
      refine absurd ?_ (hfresh c₀ hc₀)
      refine (hnum.listed c₀ hc₀).subset (List.mem_flatMap.mpr ⟨_, List.mem_map_of_mem hcall₀, ?_⟩)
      rw [mem_ids_iff, hk₀, hpacket, hk]
      exact hid

theorem fresh_attentive {n : ℕ} : Attentive cfg (fresh n) := by
  have hc : ∀ c ∈ (fresh n : System B V).callers, c = ⟨Rpc.fresh, [], [], [], false⟩ :=
    fun c hc => List.eq_of_mem_replicate hc
  constructor
  · intro c hmem
    rw [hc c hmem]
    exact fresh_attended
  · intro p c hp call hcall
    rw [hc c (List.mem_of_getElem? hp)] at hcall
    cases hcall
  · intro c hmem call hcall
    rw [hc c hmem] at hcall
    cases hcall
  · intro c hmem call hcall
    rw [hc c hmem] at hcall
    cases hcall

theorem fresh_of_careful (hok : Careful cfg s a) : Fresh s a := by
  cases a with
  | call => exact hok
  | _ => trivial

open Transition

instance (s : System B V) : DecidablePred (Careful cfg s)
  | .call _ id _ _ _ _ => inferInstanceAs (Decidable (∀ c ∈ s.callers, id ∉ c.made))
  | .deserialized p j => inferInstanceAs (Decidable (∀ c ∈ s.callers[p]?,
      ∀ h ∈ c.rpc.handlers[j]?, cfg.codec.Accepts (resultOutcome cfg.codec h.message)))
  | .interrupted _ _ => .isFalse id
  | .onClose _ exc => inferInstanceAs (Decidable (cfg.codec.Accepts (closeOutcome exc)))
  | .lost p => inferInstanceAs (Decidable (∀ e ∈ s.callees[p]?, ∀ d ∈ e.outstanding,
      (s.queues.get? d.queue).isSome = true))
  | .deleteQueue queue =>
    inferInstanceAs (Decidable (∀ ks ∈ s.queues.get? queue, ks.length = 0))
  | .route _ _ | .publishRaised _ _ | .messageReturned _ _ | .resultMessage _ _ | .cancelled _ _
  | .removed _ _ | .register _ _ | .deliver _ _ _ | .handle _ _ | .event _ _ _ | .reply _ _
  | .settle _ _ | .expire _ _ | .declareQueue _ | .bind _ _ => .isTrue trivial

/-- The instance that serves loses its channel while the function is called. -/
def servingLost : List (NetworkAction ℕ) :=
  serving ++ [.call 0 "a" "square" 3 1 none, .route 0 0, .deliver 1 0 0, .handle 1 0,
    .event 1 0 .deserialize, .lost 1]

end AioPika.Rpc.Network
