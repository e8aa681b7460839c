import AioPika.Foundation.Custody
import AioPika.Foundation.Dict
import AioPika.Foundation.Runs

/-! # Calls of an RPC instance

A call makes a future and lists it under a fresh correlation id. Result messages
and returned messages take the future of their id out of the table and complete
it; a result message awaits that it is deserialised in between. The callers and
the end of the channel complete futures as well.
-/

namespace AioPika.Rpc

/-- `RPCMessageType` -/
inductive RPCMessageType where
  | error
  | result
  | call
  deriving DecidableEq, Repr

def RPCMessageType.value : RPCMessageType → String
  | .error => "error"
  | .result => "result"
  | .call => "call"

/-- `AbstractIncomingMessage`, with its correlation id, type and body. -/
structure Message (Id B : Type*) where
  correlationId : Option Id
  type : Option String
  body : B
  deriving DecidableEq, Repr

/-- The exceptions that a future can get; `V` are the objects of the language. -/
inductive Exc (V : Type*) where
  /-- An exception object. -/
  | object (v : V)
  /-- `Exception` -/
  | exception
  /-- `asyncio.CancelledError` -/
  | cancelledError
  | timeoutError (text : String)
  | messageProcessError (text : String)
  | rpcException (text : String) (payload : V)
  | runtimeError (text : String) (type : Option String)
  deriving DecidableEq, Repr

inductive Outcome (V : Type*) where
  | result (payload : V)
  | exception (exc : Exc V)
  | cancelled
  deriving DecidableEq, Repr

/-- What `RPC` needs to know of the objects, and its `deserialize_message`. -/
structure Codec (Id B V : Type*) where
  deserializeMessage : Message Id B → Except V V
  /-- `isinstance(payload, Exception)` -/
  isException : V → Bool
  /-- A future refuses this exception with a `TypeError`. -/
  isStopIteration : V → Bool

structure Future (Id V : Type*) where
  correlationId : Id
  outcome : Option (Outcome V)
  /-- Its `do_remove` has run. -/
  removed : Bool
  deriving DecidableEq, Repr

/-- A run of `on_result_message` that has taken its future out of the table. -/
structure Handler (Id B : Type*) where
  future : ℕ
  message : Message Id B
  /-- `deserialize_message` is over. -/
  finished : Bool
  deriving DecidableEq, Repr

structure State (Id B V : Type*) where
  /-- `futures` -/
  futures : Dict Id ℕ
  /-- All futures that were ever made. -/
  made : List (Future Id V)
  handlers : List (Handler Id B)

inductive Action (Id B V : Type*) where
  /-- `create_future` in `call`, with the id that it makes. -/
  | call (correlationId : Id)
  /-- `on_result_message` is entered. -/
  | resultMessage (message : Message Id B)
  /-- `deserialize_message` returns, or raises an `Exception`. -/
  | deserialized (handler : ℕ)
  /-- `deserialize_message` is cancelled. -/
  | interrupted (handler : ℕ)
  | messageReturned (message : Message Id B)
  | onClose (exc : Option V)
  /-- `close()` gets to the futures. -/
  | close
  /-- The caller is cancelled, and its future with it. -/
  | cancelled (future : ℕ)
  /-- The done callback of the future runs. -/
  | removed (future : ℕ)

/-- `__init__` -/
def fresh {Id B V : Type*} : State Id B V := ⟨Dict.empty, [], []⟩

variable {Id B V : Type*} (codec : Codec Id B V)

/-- What `on_result_message` makes of a message. -/
def resultOutcome (message : Message Id B) : Outcome V :=
  match codec.deserializeMessage message with
  | .error e => .exception (.object e)
  | .ok payload =>
    if message.type = some RPCMessageType.result.value then .result payload
    else if message.type = some RPCMessageType.error.value then
      .exception (if codec.isException payload then .object payload
        else .rpcException "Wrapped non-exception object" payload)
    else if message.type = some RPCMessageType.call.value then
      .exception (.timeoutError "Message timed-out")
    else .exception (.runtimeError "Unknown message type %r" message.type)

/-- What `on_message_returned` makes of a message. -/
def returnedOutcome : Outcome V := .exception (.messageProcessError "Message has been returned")

/-- What `on_close` does to a future: `exc or Exception` -/
def closeOutcome (exc : Option V) : Outcome V := .exception ((exc.map .object).getD .exception)

/-- `set_result` and `set_exception` raise, and do nothing, on a future that is done;
`set_exception` does not take a `StopIteration`. -/
def Future.complete (f : Future Id V) (o : Outcome V) : Future Id V :=
  match f.outcome, o with
  | some _, _ => f
  | none, .exception (.object v) =>
    if codec.isStopIteration v then f else { f with outcome := some o }
  | none, _ => { f with outcome := some o }

def State.complete (s : State Id B V) (i : ℕ) (o : Outcome V) : State Id B V :=
  { s with made := s.made.modify i fun f => f.complete codec o }

/-- The loop over `futures.values()` in `on_close` and `close`. -/
def State.completeAll (s : State Id B V) (o : Outcome V) : State Id B V :=
  { s with made := s.made.mapIdx fun i f =>
      if i ∈ s.futures.items.map Prod.snd then f.complete codec o else f }

variable [DecidableEq Id]

def step (s : State Id B V) : Action Id B V → Option (State Id B V)
  | .call id =>
    some { s with
      futures := s.futures.set id s.made.length
      made := s.made ++ [⟨id, none, false⟩] }
  | .resultMessage m =>
    match m.correlationId with
    | none => some s
    | some id =>
      match s.futures.get? id with
      | none => some s
      | some i =>
        some { s with futures := s.futures.pop id, handlers := s.handlers ++ [⟨i, m, false⟩] }
  | .deserialized j =>
    match s.handlers[j]? with
    | some ⟨i, m, false⟩ =>
      some (State.complete codec { s with handlers := s.handlers.set j ⟨i, m, true⟩ } i
        (resultOutcome codec m))
    | _ => none
  | .interrupted j =>
    match s.handlers[j]? with
    | some ⟨i, m, false⟩ => some { s with handlers := s.handlers.set j ⟨i, m, true⟩ }
    | _ => none
  | .messageReturned m =>
    match m.correlationId with
    | none => some s
    | some id =>
      match s.futures.get? id with
      | none => some s
      | some i =>
        some (State.complete codec { s with futures := s.futures.pop id } i returnedOutcome)
  | .onClose exc => some (s.completeAll codec (closeOutcome exc))
  | .close => some (s.completeAll codec (.exception .cancelledError))
  | .cancelled i => some (s.complete codec i .cancelled)
  | .removed i =>
    match s.made[i]? with
    | some f =>
      if f.outcome.isSome = true ∧ f.removed = false then
        some { s with
          futures := s.futures.pop f.correlationId
          made := s.made.set i { f with removed := true } }
      else none
    | none => none

inductive Arrival (Id B : Type*) where
  | result (message : Message Id B)
  | returned (message : Message Id B)
  deriving DecidableEq, Repr

def Action.arrivals (id : Id) : Action Id B V → List (Arrival Id B)
  | .resultMessage m => if m.correlationId = some id then [.result m] else []
  | .messageReturned m => if m.correlationId = some id then [.returned m] else []
  | _ => []

inductive Step (s : State Id B V) : Action Id B V → State Id B V → Prop
  | call {id : Id} :
      Step s (.call id)
        { s with
          futures := s.futures.set id s.made.length
          made := s.made ++ [⟨id, none, false⟩] }
  /-- A message without an id, or with one that is not in the table. -/
  | ignored {a : Action Id B V} (ha : ∀ id, a.arrivals id ≠ [] → s.futures.get? id = none) :
      Step s a s
  | taken {m : Message Id B} {id : Id} {k : ℕ} (hm : m.correlationId = some id)
      (hk : s.futures.get? id = some k) :
      Step s (.resultMessage m)
        { s with futures := s.futures.pop id, handlers := s.handlers ++ [⟨k, m, false⟩] }
  | deserialized {j k : ℕ} {m : Message Id B} (hj : s.handlers[j]? = some ⟨k, m, false⟩) :
      Step s (.deserialized j)
        (State.complete codec { s with handlers := s.handlers.set j ⟨k, m, true⟩ } k
          (resultOutcome codec m))
  | interrupted {j k : ℕ} {m : Message Id B} (hj : s.handlers[j]? = some ⟨k, m, false⟩) :
      Step s (.interrupted j) { s with handlers := s.handlers.set j ⟨k, m, true⟩ }
  | returned {m : Message Id B} {id : Id} {k : ℕ} (hm : m.correlationId = some id)
      (hk : s.futures.get? id = some k) :
      Step s (.messageReturned m)
        (State.complete codec { s with futures := s.futures.pop id } k returnedOutcome)
  | onClose {exc : Option V} : Step s (.onClose exc) (s.completeAll codec (closeOutcome exc))
  | close : Step s .close (s.completeAll codec (.exception .cancelledError))
  | cancelled {j : ℕ} : Step s (.cancelled j) (s.complete codec j .cancelled)
  | removed {j : ℕ} {f : Future Id V} (hf : s.made[j]? = some f)
      (hd : f.outcome.isSome = true ∧ f.removed = false) :
      Step s (.removed j)
        { s with
          futures := s.futures.pop f.correlationId
          made := s.made.set j { f with removed := true } }

variable {codec} in
theorem step_cases {s t : State Id B V} {a : Action Id B V} (h : step codec s a = some t) :
    Step codec s a t := by
  cases a with
  | call id =>
    obtain rfl := Option.some.inj h
    exact .call
  | resultMessage m =>
    simp only [step] at h
    split at h
    · rename_i hm
      obtain rfl := Option.some.inj h
      exact .ignored fun id ha => absurd (by simp [Action.arrivals, hm]) ha
    · rename_i id hm
      split at h
      · rename_i hk
        obtain rfl := Option.some.inj h
        refine .ignored fun id' ha => ?_
        obtain rfl : id = id' := by
          by_contra hne
          exact ha (by simp [Action.arrivals, hm, hne])
        exact hk
      · rename_i k hk
        obtain rfl := Option.some.inj h
        exact .taken hm hk
  | deserialized j =>
    simp only [step] at h
    split at h
    · rename_i k m hj
      obtain rfl := Option.some.inj h
      exact .deserialized hj
    · cases h
  | interrupted j =>
    simp only [step] at h
    split at h
    · rename_i k m hj
      obtain rfl := Option.some.inj h
      exact .interrupted hj
    · cases h
  | messageReturned m =>
    simp only [step] at h
    split at h
    · rename_i hm
      obtain rfl := Option.some.inj h
      exact .ignored fun id ha => absurd (by simp [Action.arrivals, hm]) ha
    · rename_i id hm
      split at h
      · rename_i hk
        obtain rfl := Option.some.inj h
        refine .ignored fun id' ha => ?_
        obtain rfl : id = id' := by
          by_contra hne
          exact ha (by simp [Action.arrivals, hm, hne])
        exact hk
      · rename_i k hk
        obtain rfl := Option.some.inj h
        exact .returned hm hk
  | onClose exc =>
    obtain rfl := Option.some.inj h
    exact .onClose
  | close =>
    obtain rfl := Option.some.inj h
    exact .close
  | cancelled j =>
    obtain rfl := Option.some.inj h
    exact .cancelled
  | removed j =>
    simp only [step] at h
    split at h
    · rename_i f hf
      split at h
      · rename_i hd
        obtain rfl := Option.some.inj h
        exact .removed hf hd
      · cases h
    · cases h

/-- What a result message means for the call that it answers. -/
inductive Determines (m : Message Id B) : Outcome V → Prop
  | result {payload : V} (hp : codec.deserializeMessage m = .ok payload)
      (ht : m.type = some "result") : Determines m (.result payload)
  | error {payload : V} (hp : codec.deserializeMessage m = .ok payload)
      (ht : m.type = some "error") (he : codec.isException payload = true) :
      Determines m (.exception (.object payload))
  | wrapped {payload : V} (hp : codec.deserializeMessage m = .ok payload)
      (ht : m.type = some "error") (he : codec.isException payload = false) :
      Determines m (.exception (.rpcException "Wrapped non-exception object" payload))
  | timedOut {payload : V} (hp : codec.deserializeMessage m = .ok payload)
      (ht : m.type = some "call") : Determines m (.exception (.timeoutError "Message timed-out"))
  | unknown {payload : V} (hp : codec.deserializeMessage m = .ok payload)
      (ht : ∀ type ∈ ["result", "error", "call"], m.type ≠ some type) :
      Determines m (.exception (.runtimeError "Unknown message type %r" m.type))
  | undecodable {e : V} (hp : codec.deserializeMessage m = .error e) :
      Determines m (.exception (.object e))

/-- Who completes a future, and how, after the messages `seen` have come with its id. -/
def Completes (s : State Id B V) (i : ℕ) (id : Id) (seen : List (Arrival Id B)) :
    Action Id B V → Outcome V → Prop
  | .cancelled j, o => j = i ∧ o = .cancelled
  | .onClose none, o => o = .exception .exception
  | .onClose (some exc), o => o = .exception (.object exc)
  | .close, o => o = .exception .cancelledError
  -- no message has come before
  | .messageReturned m, o => m.correlationId = some id ∧ seen = [] ∧
      o = .exception (.messageProcessError "Message has been returned")
  -- the message was the first to come
  | .deserialized j, o => ∃ m, s.handlers[j]? = some ⟨i, m, false⟩ ∧ m.correlationId = some id ∧
      seen.head? = some (.result m) ∧ Determines codec m o
  | _, _ => False

/-- All entries and handlers are about futures that were made. -/
structure Known (s : State Id B V) : Prop where
  futures : ∀ id i, s.futures.get? id = some i → i < s.made.length
  handlers : ∀ h ∈ s.handlers, h.future < s.made.length

/-- What future `i`, made for an id, has to do with the messages that have come with the id since:
it is in the table until the first one comes, and only that one is handled for it. -/
structure Follows (i : ℕ) (id : Id) (seen : List (Arrival Id B)) (s : State Id B V) : Prop where
  made : ∃ f, s.made[i]? = some f ∧ f.correlationId = id
  futures : ∀ id', s.futures.get? id' = some i → id' = id ∧ seen = []
  handlers : ∀ h ∈ s.handlers, h.future = i →
    h.message.correlationId = some id ∧ seen.head? = some (.result h.message)

variable {codec} {s t : State Id B V} {a : Action Id B V} {i : ℕ} {id : Id}
  {seen : List (Arrival Id B)} {f : Future Id V} {o : Outcome V}

omit [DecidableEq Id] in
theorem determines_iff {m : Message Id B} {o : Outcome V} :
    Determines codec m o ↔ o = resultOutcome codec m := by
  constructor
  · intro h
    cases h with
    | result hp ht => simp [resultOutcome, hp, ht, RPCMessageType.value]
    | error hp ht he => simp [resultOutcome, hp, ht, he, RPCMessageType.value]
    | wrapped hp ht he => simp [resultOutcome, hp, ht, he, RPCMessageType.value]
    | timedOut hp ht => simp [resultOutcome, hp, ht, RPCMessageType.value]
    | unknown hp ht =>
      simp only [List.forall_mem_cons] at ht
      simp [resultOutcome, hp, ht, RPCMessageType.value]
    | undecodable hp => simp [resultOutcome, hp]
  · rintro rfl
    unfold resultOutcome
    split
    · rename_i e hp
      exact .undecodable hp
    · rename_i payload hp
      split_ifs with h₁ h₂ he h₃
      · exact .result hp h₁
      · exact .error hp h₂ he
      · exact .wrapped hp h₂ (eq_false_of_ne_true he)
      · exact .timedOut hp h₃
      · exact .unknown hp (by simpa using ⟨h₁, h₂, h₃⟩)

omit [DecidableEq Id] in
theorem Future.complete_id : (f.complete codec o).correlationId = f.correlationId := by
  unfold Future.complete
  split
  · rfl
  · split <;> rfl
  · rfl

omit [DecidableEq Id] in
theorem Future.complete_outcome : (f.complete codec o).outcome = f.outcome ∨
    f.outcome = none ∧ (f.complete codec o).outcome = some o := by
  unfold Future.complete
  split
  · exact Or.inl rfl
  · rename_i hf
    split
    · exact Or.inl rfl
    · exact Or.inr ⟨hf, rfl⟩
  · rename_i hf _
    exact Or.inr ⟨hf, rfl⟩

omit [DecidableEq Id] in
@[simp] theorem complete_length {j : ℕ} : (s.complete codec j o).made.length = s.made.length :=
  List.length_modify _ _ _

/-- What a step does to a future: it keeps its id, and is completed as `Completes` says. -/
def Own (codec : Codec Id B V) (s : State Id B V) (i : ℕ) (id : Id) (seen : List (Arrival Id B))
    (a : Action Id B V) (t : State Id B V) : Prop :=
  ∀ f, s.made[i]? = some f → ∃ f', t.made[i]? = some f' ∧ f'.correlationId = f.correlationId ∧
    (f'.outcome = f.outcome ∨
      f.outcome = none ∧ ∃ o, f'.outcome = some o ∧ Completes codec s i id seen a o)

omit [DecidableEq Id] in
theorem own_of_made (h : t.made = s.made) : Own codec s i id seen a t := by
  intro f hf
  exact ⟨f, by rw [h, hf], rfl, Or.inl rfl⟩

omit [DecidableEq Id] in
theorem own_complete {j : ℕ} (h : t.made = s.made.modify j fun f => f.complete codec o)
    (hc : j = i → Completes codec s i id seen a o) : Own codec s i id seen a t := by
  intro f hf
  by_cases hj : j = i
  · subst hj
    refine ⟨f.complete codec o, ?_, Future.complete_id, ?_⟩
    · rw [h, List.getElem?_modify, hf]
      simp
    · exact Future.complete_outcome.imp_right fun ⟨hn, ho⟩ => ⟨hn, o, ho, hc rfl⟩
  · refine ⟨f, ?_, rfl, Or.inl rfl⟩
    rw [h, List.getElem?_modify, hf]
    simp [hj]

omit [DecidableEq Id] in
theorem own_completeAll (hc : Completes codec s i id seen a o) :
    Own codec s i id seen a (s.completeAll codec o) := by
  intro f hf
  have ht : (s.completeAll codec o).made[i]? =
      some (if i ∈ s.futures.items.map Prod.snd then f.complete codec o else f) := by
    simp [State.completeAll, hf]
  by_cases hi : i ∈ s.futures.items.map Prod.snd
  · rw [if_pos hi] at ht
    refine ⟨_, ht, Future.complete_id, ?_⟩
    exact Future.complete_outcome.imp_right fun ⟨hn, ho⟩ => ⟨hn, o, ho, hc⟩
  · rw [if_neg hi] at ht
    exact ⟨f, ht, rfl, Or.inl rfl⟩

theorem own_step (h : Follows i id seen s) (hs : step codec s a = some t) :
    Own codec s i id seen a t := by
  cases step_cases hs with
  | call =>
    intro f hf
    refine ⟨f, ?_, rfl, Or.inl rfl⟩
    exact (List.getElem?_append_left (List.getElem?_eq_some_iff.mp hf).1).trans hf
  | ignored => exact own_of_made rfl
  | taken => exact own_of_made rfl
  | @deserialized j k m hj =>
    refine own_complete rfl fun hk => ?_
    subst hk
    obtain ⟨hid, hfirst⟩ := h.handlers _ (List.mem_of_getElem? hj) rfl
    exact ⟨m, hj, hid, hfirst, determines_iff.mpr rfl⟩
  | interrupted => exact own_of_made rfl
  | returned hm hk =>
    refine own_complete rfl fun he => ?_
    subst he
    obtain ⟨rfl, hseen⟩ := h.futures _ hk
    exact ⟨hm, hseen, rfl⟩
  | @onClose exc =>
    cases exc with
    | none => exact own_completeAll rfl
    | some v => exact own_completeAll rfl
  | close => exact own_completeAll rfl
  | cancelled => exact own_complete rfl fun hj => ⟨hj, rfl⟩
  | @removed j g hg hd =>
    intro f hf
    by_cases hj : j = i
    · subst hj
      obtain rfl := Option.some.inj (hf.symm.trans hg)
      exact ⟨_, List.getElem?_set_self (List.getElem?_eq_some_iff.mp hg).1, rfl, Or.inl rfl⟩
    · exact ⟨f, (List.getElem?_set_ne hj).trans hf, rfl, Or.inl rfl⟩

theorem Follows.of_made (h : Follows i id seen s)
    (hm : ∃ f, t.made[i]? = some f ∧ f.correlationId = id) (hf : t.futures = s.futures)
    (hh : t.handlers = s.handlers) : Follows i id seen t := by
  constructor
  · exact hm
  · rw [hf]
    exact h.futures
  · rw [hh]
    exact h.handlers

theorem Follows.handler (h : Follows i id seen s) {j k : ℕ} {m : Message Id B}
    {finished finished' : Bool} (hj : s.handlers[j]? = some ⟨k, m, finished⟩)
    (hmade : ∃ f, t.made[i]? = some f ∧ f.correlationId = id)
    (hf : t.futures = s.futures) (hh : t.handlers = s.handlers.set j ⟨k, m, finished'⟩) :
    Follows i id seen t := by
  constructor
  · exact hmade
  · rw [hf]
    exact h.futures
  · intro handler hm hi
    rw [hh] at hm
    rcases List.mem_or_eq_of_mem_set hm with hm | rfl
    · exact h.handlers handler hm hi
    · exact h.handlers ⟨k, m, finished⟩ (List.mem_of_getElem? hj) hi

/-- The message takes the future of its id out of the table. -/
theorem Follows.pop (h : Follows i id seen s) {id' : Id} {more : List (Arrival Id B)}
    (hmade : ∃ f, t.made[i]? = some f ∧ f.correlationId = id)
    (hf : ∀ id₁, t.futures.get? id₁ = if id₁ = id' then none else s.futures.get? id₁)
    (hmore : id' ≠ id → more = [])
    (hh : ∀ handler ∈ t.handlers, handler ∈ s.handlers ∨ s.futures.get? id' = some handler.future ∧
      handler.message.correlationId = some id' ∧
      (id' = id → more = [.result handler.message])) : Follows i id (seen ++ more) t := by
  constructor
  · exact hmade
  · intro id₁ hi
    rw [hf] at hi
    split at hi
    · cases hi
    · rename_i hne
      obtain ⟨rfl, hseen⟩ := h.futures id₁ hi
      rw [hseen, hmore (Ne.symm hne)]
      exact ⟨rfl, rfl⟩
  · intro handler hm hi
    rcases hh handler hm with hm | ⟨hget, hid, hnew⟩
    · obtain ⟨hid, hfirst⟩ := h.handlers handler hm hi
      refine ⟨hid, ?_⟩
      rw [List.head?_append, hfirst]
      rfl
    · rw [hi] at hget
      obtain ⟨rfl, hseen⟩ := h.futures id' hget
      rw [hseen, hnew rfl]
      exact ⟨hid, rfl⟩

theorem Follows.ignored (h : Follows i id seen s) {more : List (Arrival Id B)}
    (hmore : more ≠ [] → s.futures.get? id = none) : Follows i id (seen ++ more) s := by
  constructor
  · exact h.made
  · intro id' hi
    obtain ⟨rfl, rfl⟩ := h.futures id' hi
    refine ⟨rfl, ?_⟩
    by_contra hne
    cases (hmore hne).symm.trans hi
  · intro handler hm hi
    obtain ⟨hid, hfirst⟩ := h.handlers handler hm hi
    refine ⟨hid, ?_⟩
    rw [List.head?_append, hfirst]
    rfl

theorem Follows.silent (h : Follows i id seen t) (ha : a.arrivals id = []) :
    Follows i id (seen ++ a.arrivals id) t := by
  rw [ha, List.append_nil]
  exact h

theorem follows_step (h : Follows i id seen s) (hs : step codec s a = some t) :
    Follows i id (seen ++ a.arrivals id) t := by
  have hmade : ∃ f, t.made[i]? = some f ∧ f.correlationId = id := by
    obtain ⟨f, hf, hid⟩ := h.made
    obtain ⟨f', hf', hid', -⟩ := own_step h hs f hf
    exact ⟨f', hf', hid'.trans hid⟩
  cases step_cases hs with
  | @call id' =>
    have hlt : i < s.made.length := by
      obtain ⟨f, hf, -⟩ := h.made
      exact (List.getElem?_eq_some_iff.mp hf).1
    refine Follows.silent ⟨hmade, fun id₁ hi => ?_, h.handlers⟩ rfl
    have hi : (s.futures.set id' s.made.length).get? id₁ = some i := hi
    rw [Dict.get?_set] at hi
    split at hi
    · have he := Option.some.inj hi
      omega
    · exact h.futures id₁ hi
  | ignored ha => exact h.ignored (ha id)
  | @taken m id' k hm hk =>
    refine h.pop hmade (fun id₁ => Dict.get?_pop) (fun hne => ?_) fun handler hh => ?_
    · simp [Action.arrivals, hm, hne]
    · refine (List.mem_append.mp hh).imp_right fun hh => ?_
      obtain rfl := List.mem_singleton.mp hh
      refine ⟨hk, hm, fun he => ?_⟩
      simp [Action.arrivals, hm, he]
  | deserialized hj => exact (h.handler hj hmade rfl rfl).silent rfl
  | interrupted hj => exact (h.handler hj hmade rfl rfl).silent rfl
  | @returned m id' k hm hk =>
    refine h.pop hmade (fun id₁ => Dict.get?_pop) (fun hne => ?_) fun handler hh => Or.inl hh
    simp [Action.arrivals, hm, hne]
  | onClose => exact (h.of_made hmade rfl rfl).silent rfl
  | close => exact (h.of_made hmade rfl rfl).silent rfl
  | cancelled => exact (h.of_made hmade rfl rfl).silent rfl
  | removed =>
    exact h.pop hmade (fun id₁ => Dict.get?_pop) (fun _ => rfl) fun handler hh => Or.inl hh

theorem fresh_known : Known (fresh : State Id B V) := by
  constructor
  · rintro id i hi
    cases hi
  · rintro h hh
    cases hh

theorem Known.of_length (h : Known s) (hlen : s.made.length ≤ t.made.length)
    (hf : ∀ id i, t.futures.get? id = some i → s.futures.get? id = some i)
    (hh : ∀ handler ∈ t.handlers, handler.future < s.made.length) : Known t := by
  constructor
  · intro id i hi
    exact Nat.lt_of_lt_of_le (h.futures id i (hf id i hi)) hlen
  · intro handler hm
    exact Nat.lt_of_lt_of_le (hh handler hm) hlen

omit [DecidableEq Id] in
theorem completeAll_length : (s.completeAll codec o).made.length = s.made.length := by
  simp [State.completeAll]

theorem Known.handler (h : Known s) {j k : ℕ} {m : Message Id B} {finished finished' : Bool}
    (hj : s.handlers[j]? = some ⟨k, m, finished⟩) :
    ∀ handler ∈ s.handlers.set j ⟨k, m, finished'⟩, handler.future < s.made.length := by
  intro handler hh
  rcases List.mem_or_eq_of_mem_set hh with hh | rfl
  · exact h.handlers handler hh
  · exact h.handlers ⟨k, m, finished⟩ (List.mem_of_getElem? hj)

theorem known_step (h : Known s) (hs : step codec s a = some t) : Known t := by
  cases step_cases hs with
  | @call id' =>
    constructor
    · intro id i hi
      have hi : (s.futures.set id' s.made.length).get? id = some i := hi
      rw [List.length_append, List.length_singleton]
      rw [Dict.get?_set] at hi
      split at hi
      · have he := Option.some.inj hi
        omega
      · have hlt := h.futures id i hi
        omega
    · intro handler hm
      have hlt := h.handlers handler hm
      rw [List.length_append, List.length_singleton]
      omega
  | ignored => exact h
  | @taken m id' k hm hk =>
    refine h.of_length (Nat.le_refl _) (fun id i hi => (Dict.of_get?_pop hi).2) fun handler hh => ?_
    rcases List.mem_append.mp hh with hh | hh
    · exact h.handlers handler hh
    · obtain rfl := List.mem_singleton.mp hh
      exact h.futures id' k hk
  | deserialized hj =>
    exact h.of_length (Nat.le_of_eq complete_length.symm) (fun _ _ hi => hi) (h.handler hj)
  | interrupted hj => exact h.of_length (Nat.le_refl _) (fun _ _ hi => hi) (h.handler hj)
  | returned =>
    refine h.of_length ?_ (fun id i hi => (Dict.of_get?_pop hi).2) h.handlers
    exact Nat.le_of_eq complete_length.symm
  | onClose =>
    exact h.of_length (Nat.le_of_eq completeAll_length.symm) (fun _ _ hi => hi) h.handlers
  | close =>
    exact h.of_length (Nat.le_of_eq completeAll_length.symm) (fun _ _ hi => hi) h.handlers
  | cancelled =>
    exact h.of_length (Nat.le_of_eq complete_length.symm) (fun _ _ hi => hi) h.handlers
  | removed =>
    refine h.of_length ?_ (fun id i hi => (Dict.of_get?_pop hi).2) h.handlers
    exact Nat.le_of_eq List.length_set.symm

open Transition

variable {s₀ s₁ : State Id B V} {as pre : List (Action Id B V)}
  {ok : State Id B V → Action Id B V → Prop}

theorem follows_run (hr : Run (step codec) ok s as t) (h : Follows i id seen s) :
    Follows i id (seen ++ as.flatMap (Action.arrivals id)) t := by
  induction hr generalizing seen with
  | nil => simpa using h
  | cons _ hs _ ih =>
    have hstep := ih (follows_step h hs)
    rw [List.append_assoc] at hstep
    exact hstep

theorem follows_call (h : Known s₀) (hs : step codec s₀ (.call id) = some s₁) :
    Follows s₀.made.length id [] s₁ := by
  obtain rfl := Option.some.inj hs
  constructor
  · exact ⟨_, List.getElem?_concat_length, rfl⟩
  · intro id' hi
    have hi : (s₀.futures.set id s₀.made.length).get? id' = some s₀.made.length := hi
    rw [Dict.get?_set] at hi
    split at hi
    · rename_i he
      exact ⟨he, rfl⟩
    · exact absurd (h.futures id' _ hi) (Nat.lt_irrefl _)
  · intro handler hm hi
    have hlt := h.handlers handler hm
    omega

theorem done_run (hr : Run (step codec) ok s as t) (h : Follows i id seen s)
    (hf : s.made[i]? = some f) (ho : f.outcome = some o) :
    ∃ f', t.made[i]? = some f' ∧ f'.outcome = some o := by
  induction hr generalizing seen f with
  | nil => exact ⟨f, hf, ho⟩
  | cons _ hs _ ih =>
    obtain ⟨f', hf', -, hsame | ⟨hn, -⟩⟩ := own_step h hs f hf
    · exact ih (follows_step h hs) hf' (hsame.trans ho)
    · rw [ho] at hn
      cases hn

/-- The future of a call is completed once at most: by the caller, by the end of the channel, or
by the first message that carries its id since it was made, as that message says. -/
theorem calls_get_own_outcome (hpre : Run (step codec) (fun _ _ => True) fresh pre s₀)
    (hcall : step codec s₀ (.call id) = some s₁)
    (hr : Run (step codec) (fun _ _ => True) s₁ as s) :
    ∃ f, s.made[s₀.made.length]? = some f ∧ f.correlationId = id ∧
      (∀ a t, step codec s a = some t → ∃ f', t.made[s₀.made.length]? = some f' ∧
        (f'.outcome = f.outcome ∨ f.outcome = none ∧ ∃ o, f'.outcome = some o ∧
          Completes codec s s₀.made.length id (as.flatMap (Action.arrivals id)) a o)) ∧
      (∀ o bs t, f.outcome = some o → Run (step codec) (fun _ _ => True) s bs t →
        ∃ f', t.made[s₀.made.length]? = some f' ∧ f'.outcome = some o) := by
  have hknown : Known s₀ :=
    hpre.invariant (fun _ _ _ hk _ hs => known_step hk hs) fresh_known
  have h : Follows s₀.made.length id (as.flatMap (Action.arrivals id)) s :=
    follows_run hr (follows_call hknown hcall)
  obtain ⟨f, hf, hid⟩ := h.made
  refine ⟨f, hf, hid, fun a t hs => ?_, fun o bs t ho hrun => done_run hrun h hf ho⟩
  obtain ⟨f', hf', -, hout⟩ := own_step h hs f hf
  exact ⟨f', hf', hout⟩

def plain : Codec ℕ ℕ ℕ := ⟨fun m => .ok m.body, fun _ => false, fun _ => false⟩

def oneCall : State ℕ ℕ ℕ := ⟨⟨[(1, 0)], by decide⟩, [⟨1, none, false⟩], []⟩

def twoCalls : State ℕ ℕ ℕ :=
  ⟨⟨[(1, 0), (2, 1)], by decide⟩, [⟨1, none, false⟩, ⟨2, none, false⟩], []⟩

/-- The answer to the second call comes once as a result and once more as an error. -/
def answers : List (Action ℕ ℕ ℕ) :=
  [.resultMessage ⟨some 2, some "result", 20⟩, .resultMessage ⟨some 2, some "error", 30⟩]

def answered : State ℕ ℕ ℕ :=
  ⟨⟨[(1, 0)], by decide⟩, [⟨1, none, false⟩, ⟨2, none, false⟩],
    [⟨1, ⟨some 2, some "result", 20⟩, false⟩]⟩

theorem second_call_answered : ∃ t f', step plain answered (.deserialized 0) = some t ∧
    t.made[1]? = some f' ∧ f'.outcome = some (.result 20) ∧
    (f'.outcome = none ∨ ∃ o, f'.outcome = some o ∧
      Completes plain answered 1 2 (answers.flatMap (Action.arrivals 2)) (.deserialized 0) o) := by
  have hpre : Run (step plain) (fun _ _ => True) fresh [.call 1] oneCall := run_of_checked rfl
  have hcall : step plain oneCall (.call 2) = some twoCalls := rfl
  have hr : Run (step plain) (fun _ _ => True) twoCalls answers answered := run_of_checked rfl
  obtain ⟨f, hf, -, hstep, -⟩ := calls_get_own_outcome hpre hcall hr
  obtain rfl := Option.some.inj hf
  obtain ⟨f', hf', hout⟩ := hstep (.deserialized 0) _ rfl
  refine ⟨_, f', rfl, hf', ?_, hout.imp_right fun h => h.2⟩
  obtain rfl := Option.some.inj hf'
  rfl

end AioPika.Rpc
