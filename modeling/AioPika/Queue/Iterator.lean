import AioPika.Foundation.Custody
import AioPika.Foundation.Runs
import Mathlib.Data.List.Nodup
import Mathlib.Tactic.Simps.Basic

/-! # Queue iterators

A `QueueIterator` consumes a queue into its own buffer. A delivery goes through
two tasks before `on_message` puts it there, `__anext__` takes messages from the
buffer, and `close()` cancels the consumer and nacks what the buffer holds. What
is put there after that stays.
-/

namespace AioPika.QueueIterator

inductive Pc where
  /-- `await self._amqp_queue.consume(...)`, for `__anext__` or for `__aenter__` and `consume()` -/
  | consuming (consumer : ℕ) (next : Bool)
  /-- `__aenter__` or `consume()` has returned. -/
  | entered
  /-- In `__anext__`: `await asyncio.wait_for(self._queue.get(), ...)` -/
  | getting
  /-- `__anext__` has returned the message. -/
  | returned (message : ℕ)
  | raised
  /-- In `close()`: `await self._amqp_queue.cancel(consumer_tag)` -/
  | cancelling (consumer : ℕ)
  /-- In `close()`: `await msg.nack(requeue=True, multiple=False)` -/
  | nacking (consumer message : ℕ)
  /-- The `close()` that has cancelled the consumer has returned. -/
  | closed (consumer : ℕ)
  deriving DecidableEq, Repr

/-- What the user has got from the call. -/
def Pc.holds : Pc → List ℕ
  | .returned m => [m]
  | _ => []

structure State where
  /-- `_consumer_tag` -/
  consumerTag : Option ℕ
  /-- `close` is among the `close_callbacks` of the queue. -/
  registered : Bool
  channelClosed : Bool
  /-- The consumers that were begun, and whether the broker delivers to them. -/
  consumers : List Bool
  /-- The consumer of each message that was delivered. -/
  delivered : List ℕ
  /-- The messages on their way to `on_message`. -/
  inFlight : List ℕ
  /-- `_queue` -/
  queue : List ℕ
  /-- The messages that `close()` has nacked. -/
  nacked : List ℕ
  /-- The messages that `close()` has dropped. -/
  lost : List ℕ
  calls : List Pc
  deriving DecidableEq, Repr

inductive Action where
  /-- `__anext__` is called. -/
  | next
  /-- `__aenter__` is called. -/
  | enter
  /-- `consume()` is called by the user. -/
  | consume
  | consumed (call : ℕ)
  /-- The broker delivers a message to a consumer. -/
  | deliver (consumer : ℕ)
  /-- `on_message` runs. -/
  | onMessage (message : ℕ)
  | got (call : ℕ)
  | timedOut (call : ℕ)
  /-- `CancelledError` is raised at the await of a call. -/
  | cancelled (call : ℕ)
  /-- `close()` is called; when it finds nothing to cancel it returns at once. -/
  | close
  /-- The broker has ended the consumer, and sends its cancel-ok. -/
  | cancelOk (consumer : ℕ)
  /-- `close()` sees the cancel-ok. -/
  | resumed (call : ℕ)
  /-- A nack is sent. -/
  | sent (call : ℕ)
  | channelClosed
  deriving DecidableEq, Repr

/-- `__init__` -/
def fresh : State := ⟨none, true, false, [], [], [], [], [], [], []⟩

namespace State

variable (noAck : Bool) (s : State)

@[simps]
def setPc (i : ℕ) (pc : Pc) : State := { s with calls := s.calls.set i pc }

@[simps]
def start (pc : Pc) : State := { s with calls := s.calls ++ [pc] }

/-- `consume()`, up to its await. -/
def consume (next : Bool) : State :=
  State.start { s with consumers := s.consumers ++ [true] } (.consuming s.consumers.length next)

/-- `__anext__` and `__aenter__`, up to their first await. -/
def enter (next : Bool) : State :=
  match s.consumerTag with
  | none => s.consume next
  | some _ => s.start (if next then .getting else .entered)

/-- `close()`, up to its first await. `remove` raises `KeyError` for a callback that is not
there. -/
def close : State :=
  match s.consumerTag with
  | none => s
  | some consumer =>
    if s.channelClosed then s
    else if s.registered then
      State.start { s with consumerTag := none, registered := false } (.cancelling consumer)
    else State.start { s with consumerTag := none } .raised

/-- The loop of `close()`, up to its next await. -/
def drain (i consumer : ℕ) : State :=
  match s.queue with
  | [] => s.setPc i (.closed consumer)
  | message :: queue =>
    if s.channelClosed = true ∨ noAck = true then
      State.setPc { s with queue := [], lost := s.lost ++ message :: queue } i (.closed consumer)
    else
      State.setPc { s with queue := queue, nacked := s.nacked ++ [message] } i
        (.nacking consumer message)

end State

variable (noAck : Bool)

/-- `noAck` is the keyword argument of the consumer. -/
def step (s : State) : Action → Option State
  | .next => some (s.enter true)
  | .enter => some (s.enter false)
  | .consume => some (s.consume false)
  | .consumed i =>
    match s.calls[i]? with
    | some (.consuming consumer next) =>
      some (State.setPc { s with consumerTag := some consumer } i
        (if next then .getting else .entered))
    | _ => none
  | .deliver consumer =>
    if s.consumers[consumer]? = some true then
      some { s with
        delivered := s.delivered ++ [consumer]
        inFlight := s.inFlight ++ [s.delivered.length] }
    else none
  | .onMessage m =>
    if m ∈ s.inFlight then
      some { s with inFlight := s.inFlight.erase m, queue := s.queue ++ [m] }
    else none
  | .got i =>
    match s.calls[i]?, s.queue with
    | some .getting, m :: queue => some (State.setPc { s with queue := queue } i (.returned m))
    | _, _ => none
  | .timedOut i =>
    match s.calls[i]? with
    | some .getting => some (s.setPc i .raised)
    | _ => none
  | .cancelled i =>
    match s.calls[i]? with
    -- `__anext__` calls `close()` and raises
    | some .getting => some (s.setPc i .raised).close
    | some (.consuming _ _) | some (.cancelling _) | some (.nacking _ _) =>
      some (s.setPc i .raised)
    | _ => none
  | .close => some s.close
  | .cancelOk consumer =>
    if s.consumers[consumer]? = some true then
      some { s with consumers := s.consumers.set consumer false }
    else none
  | .resumed i =>
    match s.calls[i]? with
    | some (.cancelling consumer) =>
      if s.consumers[consumer]? = some false then some (s.drain noAck i consumer) else none
    | _ => none
  | .sent i =>
    match s.calls[i]? with
    | some (.nacking consumer _) => some (s.drain noAck i consumer)
    | _ => none
  | .channelClosed => some { s with channelClosed := true }

/-- The await of the call is an operation of the broker. -/
def Pc.AtBroker : Pc → Prop
  | .consuming _ _ | .cancelling _ | .nacking _ _ => True
  | _ => False

inductive Step (s : State) : Action → State → Prop
  | next : Step s .next (s.enter true)
  | enter : Step s .enter (s.enter false)
  | consume : Step s .consume (s.consume false)
  | consumed {i c : ℕ} {next : Bool} (hi : s.calls[i]? = some (.consuming c next)) :
      Step s (.consumed i) (State.setPc { s with consumerTag := some c } i
        (if next then .getting else .entered))
  | deliver {c : ℕ} (hc : s.consumers[c]? = some true) :
      Step s (.deliver c) { s with
        delivered := s.delivered ++ [c]
        inFlight := s.inFlight ++ [s.delivered.length] }
  | onMessage {m : ℕ} (hm : m ∈ s.inFlight) :
      Step s (.onMessage m) { s with inFlight := s.inFlight.erase m, queue := s.queue ++ [m] }
  | got {i m : ℕ} {queue : List ℕ} (hi : s.calls[i]? = some .getting) (hq : s.queue = m :: queue) :
      Step s (.got i) (State.setPc { s with queue := queue } i (.returned m))
  | timedOut {i : ℕ} (hi : s.calls[i]? = some .getting) : Step s (.timedOut i) (s.setPc i .raised)
  | cancelled {i : ℕ} (hi : s.calls[i]? = some .getting) :
      Step s (.cancelled i) (s.setPc i .raised).close
  | interrupted {i : ℕ} {pc : Pc} (hi : s.calls[i]? = some pc) (hp : pc.AtBroker) :
      Step s (.cancelled i) (s.setPc i .raised)
  | close : Step s .close s.close
  | cancelOk {c : ℕ} (hc : s.consumers[c]? = some true) :
      Step s (.cancelOk c) { s with consumers := s.consumers.set c false }
  | resumed {i c : ℕ} (hi : s.calls[i]? = some (.cancelling c))
      (hc : s.consumers[c]? = some false) :
      Step s (.resumed i) (s.drain noAck i c)
  | sent {i c m : ℕ} (hi : s.calls[i]? = some (.nacking c m)) : Step s (.sent i) (s.drain noAck i c)
  | channelClosed : Step s .channelClosed { s with channelClosed := true }

variable {noAck} in
theorem step_cases {s t : State} {a : Action} (h : step noAck s a = some t) : Step noAck s a t := by
  cases a with
  | next =>
    obtain rfl := Option.some.inj h
    exact .next
  | enter =>
    obtain rfl := Option.some.inj h
    exact .enter
  | consume =>
    obtain rfl := Option.some.inj h
    exact .consume
  | consumed i =>
    simp only [step] at h
    split at h
    · rename_i hi
      obtain rfl := Option.some.inj h
      exact .consumed hi
    · cases h
  | deliver c =>
    simp only [step] at h
    split at h
    · rename_i hc
      obtain rfl := Option.some.inj h
      exact .deliver hc
    · cases h
  | onMessage m =>
    simp only [step] at h
    split at h
    · rename_i hm
      obtain rfl := Option.some.inj h
      exact .onMessage hm
    · cases h
  | got i =>
    simp only [step] at h
    split at h
    · rename_i hi hq
      obtain rfl := Option.some.inj h
      exact .got hi hq
    · cases h
  | timedOut i =>
    simp only [step] at h
    split at h
    · rename_i hi
      obtain rfl := Option.some.inj h
      exact .timedOut hi
    · cases h
  | cancelled i =>
    simp only [step] at h
    split at h
    · rename_i hi
      obtain rfl := Option.some.inj h
      exact .cancelled hi
    · rename_i hi
      obtain rfl := Option.some.inj h
      exact .interrupted hi trivial
    · rename_i hi
      obtain rfl := Option.some.inj h
      exact .interrupted hi trivial
    · rename_i hi
      obtain rfl := Option.some.inj h
      exact .interrupted hi trivial
    · cases h
  | close =>
    obtain rfl := Option.some.inj h
    exact .close
  | cancelOk c =>
    simp only [step] at h
    split at h
    · rename_i hc
      obtain rfl := Option.some.inj h
      exact .cancelOk hc
    · cases h
  | resumed i =>
    simp only [step] at h
    split at h
    · rename_i hi
      split at h
      · rename_i hc
        obtain rfl := Option.some.inj h
        exact .resumed hi hc
      · cases h
    · cases h
  | sent i =>
    simp only [step] at h
    split at h
    · rename_i hi
      obtain rfl := Option.some.inj h
      exact .sent hi
    · cases h
  | channelClosed =>
    obtain rfl := Option.some.inj h
    exact .channelClosed

/-- No message reaches `on_message` after the `close()` of its consumer has returned. -/
def InTime (s : State) : Action → Prop
  | .onMessage m => ∀ c ∈ s.delivered[m]?, .closed c ∉ s.calls
  | _ => True

instance (s : State) : DecidablePred (InTime s)
  | .onMessage m => inferInstanceAs (Decidable (∀ c ∈ s.delivered[m]?, .closed c ∉ s.calls))
  | .next | .enter | .consume | .consumed _ | .deliver _ | .got _ | .timedOut _ | .cancelled _
  | .close | .cancelOk _ | .resumed _ | .sent _ | .channelClosed => .isTrue trivial

/-- Every message is in one place: on its way, in the buffer, with the user, or nacked. The buffer
has none of a consumer whose `close()` has returned. -/
structure Inv (s : State) : Prop where
  channel : s.channelClosed = false
  lost : s.lost = []
  custody : ∀ m, s.inFlight.count m + s.queue.count m + Custody.count Pc.holds s.calls m +
    s.nacked.count m = (List.range s.delivered.length).count m
  closed : ∀ c, .closed c ∈ s.calls → ∀ m ∈ s.queue, s.delivered[m]? ≠ some c

variable {noAck} {s t : State} {a : Action} {i : ℕ} {pc pc' : Pc}

theorem fresh_inv : Inv fresh := by
  constructor
  · rfl
  · rfl
  · exact fun m => rfl
  · rintro c hc
    cases hc

/-- The calls leave what is on its way. -/
structure Keeps (s t : State) : Prop where
  channel : t.channelClosed = s.channelClosed
  lost : t.lost = s.lost
  delivered : t.delivered = s.delivered
  inFlight : t.inFlight = s.inFlight

theorem Inv.move (h : Inv s) (hi : s.calls[i]? = some pc) (hcalls : t.calls = s.calls.set i pc')
    (hk : Keeps s t) (hsub : ∀ m ∈ t.queue, m ∈ s.queue)
    (hclosed : ∀ c, pc' = .closed c → t.queue = [])
    (hplaces : ∀ m, t.queue.count m + pc'.holds.count m + t.nacked.count m =
      s.queue.count m + pc.holds.count m + s.nacked.count m) : Inv t := by
  constructor
  · rw [hk.channel, h.channel]
  · rw [hk.lost, h.lost]
  · intro m
    have hset : Custody.count Pc.holds (s.calls.set i pc') m + pc.holds.count m =
        Custody.count Pc.holds s.calls m + pc'.holds.count m := Custody.count_set hi
    have hm := hplaces m
    have hall := h.custody m
    rw [hcalls, hk.delivered, hk.inFlight]
    omega
  · intro c hc m hm
    rw [hcalls] at hc
    rw [hk.delivered]
    rcases List.mem_or_eq_of_mem_set hc with hc | hc
    · exact h.closed c hc m (hsub m hm)
    · rw [hclosed c hc.symm] at hm
      cases hm

theorem Inv.start (h : Inv s) (hcalls : t.calls = s.calls ++ [pc]) (hk : Keeps s t)
    (hq : t.queue = s.queue) (hn : t.nacked = s.nacked) (hp : pc.holds = [])
    (hclosed : ∀ c, pc ≠ .closed c) : Inv t := by
  constructor
  · rw [hk.channel, h.channel]
  · rw [hk.lost, h.lost]
  · intro m
    have hall := h.custody m
    rw [hcalls, hk.delivered, hk.inFlight, hq, hn, Custody.count_append, Custody.count_cons,
      Custody.count_nil, hp, List.count_nil]
    exact hall
  · intro c hc m hm
    rw [hcalls] at hc
    rw [hq] at hm
    rw [hk.delivered]
    rcases List.mem_append.mp hc with hc | hc
    · exact h.closed c hc m hm
    · exact absurd (List.mem_singleton.mp hc).symm (hclosed c)

theorem Inv.consume (h : Inv s) (next : Bool) : Inv (s.consume next) :=
  h.start rfl ⟨rfl, rfl, rfl, rfl⟩ rfl rfl rfl nofun

theorem Inv.enter (h : Inv s) (next : Bool) : Inv (s.enter next) := by
  unfold State.enter
  split
  · exact h.consume next
  · refine h.start rfl ⟨rfl, rfl, rfl, rfl⟩ rfl rfl ?_ ?_
    · cases next <;> rfl
    · cases next <;> nofun

theorem Inv.close (h : Inv s) : Inv s.close := by
  unfold State.close
  split
  · exact h
  · split
    · exact h
    · split
      · exact h.start rfl ⟨rfl, rfl, rfl, rfl⟩ rfl rfl rfl nofun
      · exact h.start rfl ⟨rfl, rfl, rfl, rfl⟩ rfl rfl rfl nofun

theorem Inv.drain (h : Inv s) (hno : noAck = false) (hi : s.calls[i]? = some pc)
    (hp : pc.holds = []) (c : ℕ) : Inv (s.drain noAck i c) := by
  unfold State.drain
  split
  · rename_i hq
    refine h.move hi rfl ⟨rfl, rfl, rfl, rfl⟩ (fun _ hm => hm) (fun _ _ => hq) fun m => ?_
    rw [hp]
    rfl
  · rename_i message queue hq
    have hn : ¬ (s.channelClosed = true ∨ noAck = true) := by simp [h.channel, hno]
    rw [if_neg hn]
    refine h.move hi rfl ⟨rfl, rfl, rfl, rfl⟩ (fun m hm => ?_) nofun fun m => ?_
    · rw [hq]
      exact List.mem_cons_of_mem message hm
    · rw [hp, hq]
      simp only [State.setPc_queue, State.setPc_nacked, Pc.holds, List.count_nil,
        List.count_append, List.count_cons]
      omega

theorem Inv.mem_queue_lt (h : Inv s) {m : ℕ} (hm : m ∈ s.queue) : m < s.delivered.length := by
  have hpos : 0 < s.queue.count m := List.count_pos_iff.mpr hm
  have hall := h.custody m
  have hrange : 0 < (List.range s.delivered.length).count m := by omega
  exact List.mem_range.mp (List.count_pos_iff.mp hrange)

theorem Inv.deliver (h : Inv s) (c : ℕ) :
    Inv { s with
      delivered := s.delivered ++ [c]
      inFlight := s.inFlight ++ [s.delivered.length] } := by
  constructor
  · exact h.channel
  · exact h.lost
  · intro m
    have hall := h.custody m
    simp only [List.length_append, List.length_singleton, List.range_succ, List.count_append]
    omega
  · intro d hd m hm
    have hlt : m < s.delivered.length := h.mem_queue_lt hm
    rw [List.getElem?_append_left hlt]
    exact h.closed d hd m hm

theorem Inv.onMessage (h : Inv s) {m : ℕ} (hm : m ∈ s.inFlight)
    (ht : ∀ c ∈ s.delivered[m]?, .closed c ∉ s.calls) :
    Inv { s with inFlight := s.inFlight.erase m, queue := s.queue ++ [m] } := by
  constructor
  · exact h.channel
  · exact h.lost
  · intro x
    have hall := h.custody x
    have herase : (s.inFlight.erase m).count x + [m].count x = s.inFlight.count x := by
      have hperm := (List.perm_cons_erase hm).count_eq x
      rw [hperm]
      simp only [List.count_cons, List.count_nil]
      omega
    simp only [List.count_append]
    omega
  · intro c hc x hx
    rcases List.mem_append.mp hx with hx | hx
    · exact h.closed c hc x hx
    · obtain rfl := List.mem_singleton.mp hx
      exact fun hd => ht c hd hc

theorem inv_step (hno : noAck = false) (ho : a ≠ .channelClosed) (ht : InTime s a) (h : Inv s)
    (hs : step noAck s a = some t) : Inv t := by
  cases step_cases hs with
  | next => exact h.enter true
  | enter => exact h.enter false
  | consume => exact h.consume false
  | @consumed i c next hi =>
    cases next with
    | true => exact h.move hi rfl ⟨rfl, rfl, rfl, rfl⟩ (fun _ hm => hm) nofun fun _ => rfl
    | false => exact h.move hi rfl ⟨rfl, rfl, rfl, rfl⟩ (fun _ hm => hm) nofun fun _ => rfl
  | @deliver c => exact h.deliver c
  | onMessage hm => exact h.onMessage hm ht
  | @got i m queue hi hq =>
    refine h.move hi rfl ⟨rfl, rfl, rfl, rfl⟩ (fun x hx => ?_) nofun fun x => ?_
    · rw [hq]
      exact List.mem_cons_of_mem m hx
    · rw [hq]
      simp only [State.setPc_queue, State.setPc_nacked, Pc.holds, List.count_cons, List.count_nil]
      omega
  | timedOut hi => exact h.move hi rfl ⟨rfl, rfl, rfl, rfl⟩ (fun _ hm => hm) nofun fun _ => rfl
  | @cancelled i hi =>
    have hraised : Inv (s.setPc i .raised) :=
      h.move hi rfl ⟨rfl, rfl, rfl, rfl⟩ (fun _ hm => hm) nofun fun _ => rfl
    exact hraised.close
  | @interrupted i pc hi hp =>
    refine h.move hi rfl ⟨rfl, rfl, rfl, rfl⟩ (fun _ hm => hm) nofun fun m => ?_
    cases pc with
    | consuming | cancelling | nacking => rfl
    | _ => exact hp.elim
  | close => exact h.close
  | cancelOk => exact ⟨h.channel, h.lost, h.custody, h.closed⟩
  | @resumed i c hi => exact h.drain hno hi rfl c
  | @sent i c m hi => exact h.drain hno hi rfl c
  | channelClosed => exact absurd rfl ho

/-- `__anext__` has returned the message to call `i`. -/
def State.Returned (s : State) (i m : ℕ) : Prop := s.calls[i]? = some (.returned m)

theorem returned_iff {m : ℕ} : s.Returned i m ↔ Custody.Holder Pc.holds s.calls m i := by
  constructor
  · intro hi
    exact ⟨.returned m, hi, List.mem_singleton_self m⟩
  · rintro ⟨pc, hi, hm⟩
    cases pc with
    | returned x =>
      obtain rfl := List.mem_singleton.mp hm
      exact hi
    | _ => cases hm

theorem Inv.lossless {c m : ℕ} (h : Inv s) (hc : .closed c ∈ s.calls)
    (hin : ∀ x ∈ s.inFlight, s.delivered[x]? ≠ some c) (hm : s.delivered[m]? = some c) :
    m ∉ s.queue ∧
    (((∃! i, s.Returned i m) ∧ m ∉ s.nacked) ∨
      ((∀ i, ¬ s.Returned i m) ∧ s.nacked.count m = 1)) := by
  have hq : m ∉ s.queue := fun hq => h.closed c hc m hq hm
  have hf : m ∉ s.inFlight := fun hf => hin m hf hm
  have hlt : m < s.delivered.length := (List.getElem?_eq_some_iff.mp hm).1
  have hall := h.custody m
  have hone : (List.range s.delivered.length).count m = 1 :=
    List.count_eq_one_of_mem List.nodup_range (List.mem_range.mpr hlt)
  rw [List.count_eq_zero.mpr hq, List.count_eq_zero.mpr hf, hone] at hall
  refine ⟨hq, ?_⟩
  simp only [returned_iff]
  rcases Nat.eq_zero_or_pos (s.nacked.count m) with hz | hp
  · have hheld : Custody.count Pc.holds s.calls m = 1 := by omega
    exact Or.inl ⟨Custody.existsUnique_holder hheld, List.count_eq_zero.mp hz⟩
  · have hheld : Custody.count Pc.holds s.calls m = 0 := by omega
    exact Or.inr ⟨fun i => Custody.not_holder_of_count hheld, by omega⟩

/-- When `close()` has returned and all messages of its consumer have reached `on_message`, each
of them has been returned once or nacked once. -/
theorem closed_lossless {as : List Action} {c m : ℕ} (hno : noAck = false)
    (hr : Transition.Run (step noAck) (fun s a => a ≠ .channelClosed ∧ InTime s a) fresh as s)
    (hc : .closed c ∈ s.calls) (hin : ∀ x ∈ s.inFlight, s.delivered[x]? ≠ some c)
    (hm : s.delivered[m]? = some c) :
    m ∉ s.queue ∧
    (((∃! i, s.Returned i m) ∧ m ∉ s.nacked) ∨
      ((∀ i, ¬ s.Returned i m) ∧ s.nacked.count m = 1)) := by
  have h : Inv s := by
    refine hr.invariant (fun s a t hi ha hs => ?_) fresh_inv
    exact inv_step hno ha.1 ha.2 hi hs
  exact h.lossless hc hin hm

/-- The user has got one message; the iterator is closed with another one in its buffer, and a
third one on its way. -/
def closing : List Action :=
  [.next, .consumed 0, .deliver 0, .deliver 0, .deliver 0, .onMessage 0, .got 0, .onMessage 1,
    .close, .cancelOk 0, .resumed 1]

/-- The third message has reached the buffer while the nack of the second one was sent. -/
def closedInTime : State :=
  ⟨none, false, false, [false], [0, 0, 0], [], [], [1, 2], [], [.returned 0, .closed 0]⟩

theorem closed_in_time :
    Transition.Run (step false) (fun s a => a ≠ .channelClosed ∧ InTime s a) fresh
      (closing ++ [.onMessage 2, .sent 1, .sent 1]) closedInTime ∧
    2 ∉ closedInTime.queue ∧
      (((∃! i, closedInTime.Returned i 2) ∧ 2 ∉ closedInTime.nacked) ∨
        ((∀ i, ¬ closedInTime.Returned i 2) ∧ closedInTime.nacked.count 2 = 1)) := by
  have hr : Transition.Run (step false) (fun s a => a ≠ .channelClosed ∧ InTime s a) fresh
      (closing ++ [.onMessage 2, .sent 1, .sent 1]) closedInTime := Transition.run_of_checked rfl
  exact ⟨hr, closed_lossless rfl hr (by decide) (by decide) rfl⟩

/-- The third message reaches the buffer when `close()` has returned, and stays there. -/
theorem left_in_buffer : ∃ s, Transition.Run (step false) (fun _ a => a ≠ .channelClosed) fresh
    (closing ++ [.sent 1, .onMessage 2]) s ∧
    .closed 0 ∈ s.calls ∧ s.inFlight = [] ∧ s.delivered[2]? = some 0 ∧
    s.queue = [2] ∧ 2 ∉ s.nacked ∧ ∀ i, ¬ s.Returned i 2 := by
  refine ⟨_, Transition.run_of_checked rfl, by decide, rfl, rfl, rfl, by decide, fun i => ?_⟩
  rw [returned_iff]
  exact Custody.not_holder_of_count rfl

end AioPika.QueueIterator
