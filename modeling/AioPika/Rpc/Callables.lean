import AioPika.Rpc.Registration

/-! # The callables that are registered

`register` lists what `ensure_awaitable` makes of a callable: a coroutine
function itself, and for any other callable a function that it defines then.
`unregister` looks for the callable that it is given.
-/

namespace AioPika.Rpc

inductive Callable where
  | coroutineFunction (id : ℕ)
  | function (id : ℕ)
  /-- An object with `__call__`. -/
  | object (id : ℕ)
  /-- `functools.partial(func, ...)` -/
  | partialOf (id : ℕ) (func : Callable)
  deriving DecidableEq, Repr

def Callable.id : Callable → ℕ
  | .coroutineFunction id | .function id | .object id | .partialOf id _ => id

/-- `inspect.iscoroutinefunction`, which looks through `functools.partial`. -/
def Callable.iscoroutinefunction : Callable → Bool
  | .coroutineFunction _ => true
  | .partialOf _ func => func.iscoroutinefunction
  | .function _ | .object _ => false

/-- `ensure_awaitable`; `wrapper` is the identity of the function that it would define. -/
def ensureAwaitable (wrapper : ℕ) (func : Callable) : ℕ :=
  if func.iscoroutinefunction then func.id else wrapper

section Runs

variable {V : Type*} (rpc : RPC V) (s : Server V)

/-- A call of `register` up to its duplicate check. -/
def declaring (method queue : String) (func : ℕ) : List (ServerAction V) :=
  .register method func :: .declared s.registers.length queue ::
    if rpc.exchange.isSome then [.bound s.registers.length] else []

/-- A call of `register` that nothing fails. -/
def registering (method queue : String) (func : ℕ) : List (ServerAction V) :=
  declaring rpc s method queue func ++
    [.consumeOk s.registers.length, .registered s.registers.length]

/-- A call of `unregister` that nothing fails; it does nothing for a callable without a tag. -/
def unregistering (func : ℕ) : List (ServerAction V) :=
  if (s.consumerTags.get? func).isSome then
    [.unregister func, .cancelOk s.unregisters.length, .unregistered s.unregisters.length]
  else []

variable {s} in
/-- The states that successful calls of `register` reach one after the other. -/
inductive Sequential : Server V → Prop
  | fresh : Sequential Server.fresh
  | register {s t : Server V} {method queue : String} {func : Callable} {wrapper : ℕ}
      (h : Sequential s)
      (hr : Transition.Run (serve rpc) (fun _ _ => True) s
        (registering rpc s method queue (ensureAwaitable wrapper func)) t) : Sequential t

/-- What `register` has done in between is undone. -/
structure Undone (s u : Server V) : Prop where
  cancelled : ∃ c, u.consumers[s.consumers.length]? = some c ∧ c.live = false
  routes : u.routes = s.routes
  queues : u.queues = s.queues
  consumerTags : u.consumerTags = s.consumerTags

/-- A further call of `register` raises. -/
def RaisesAgain (method : String) (func : ℕ) : Prop :=
  ∀ queue, (rpc.formatRoutingKey method ≠ "" → queue = rpc.formatRoutingKey method) →
    ∃ t, Transition.Run (serve rpc) (fun _ _ => True) s (declaring rpc s method queue func) t ∧
      ∃ r, t.registers[s.registers.length]? = some r ∧ r.pc = .raised

/-- `register` succeeds and `unregister` undoes it, and until then the callable is not registered
under another name. -/
def UnregisterUndoes (method : String) (func : Callable) (wrapper : ℕ) : Prop :=
  ∃ t, Transition.Run (serve rpc) (fun _ _ => True) s
      (registering rpc s method (rpc.formatRoutingKey method) (ensureAwaitable wrapper func)) t ∧
    (∃ u, Transition.Run (serve rpc) (fun _ _ => True) t (unregistering t func.id) u ∧
      Undone s u) ∧
    ∀ method' wrapper', method' ≠ method → t.consumerTags.get? wrapper' = none →
      RaisesAgain rpc t method' (ensureAwaitable wrapper' func)

end Runs

section Register

variable {V : Type*}

/-- A server with a further call of `register`. -/
def Server.entered (s : Server V) (method : String) (func : ℕ) (pc : RegisterPc) : Server V :=
  { s with registers := s.registers ++ [⟨method, func, pc⟩] }

/-- Where a call of `register` is after its duplicate check. -/
def Server.verdict (rpc : RPC V) (s : Server V) (method queue : String) (func : ℕ) : RegisterPc :=
  if s.Taken rpc ⟨method, func, .declaring⟩ then .raised else .consuming queue none

/-- A server after a call of `register`. -/
def Server.listed (rpc : RPC V) (s : Server V) (method queue : String) (func : ℕ) : Server V :=
  { s with
    consumers := s.consumers ++ [⟨method, func, true⟩]
    consumerTags := s.consumerTags.set func s.consumers.length
    routes := s.routes.set (rpc.formatRoutingKey method) func
    queues := s.queues.set func queue
    registers := s.registers ++ [⟨method, func, .registered⟩] }

variable {rpc : RPC V} {s t u : Server V} {method queue : String} {func : ℕ} {pc pc' : RegisterPc}
  {r : Register}

theorem entered_get : (s.entered method func pc).registers[s.registers.length]? =
    some ⟨method, func, pc⟩ :=
  List.getElem?_concat_length

theorem setRegister_entered :
    (s.entered method func pc).setRegister s.registers.length ⟨method, func, pc⟩ pc' =
      s.entered method func pc' := by
  simp [Server.entered, Server.setRegister]

theorem consume_entered : (s.entered method func pc).consume rpc s.registers.length
    ⟨method, func, pc⟩ queue = s.entered method func (s.verdict rpc method queue func) := by
  unfold Server.consume Server.verdict
  by_cases ht : s.Taken rpc ⟨method, func, .declaring⟩
  · have ht' : (s.entered method func pc).Taken rpc ⟨method, func, pc⟩ := ht
    rw [if_pos ht, if_pos ht', setRegister_entered]
  · have ht' : ¬ (s.entered method func pc).Taken rpc ⟨method, func, pc⟩ := ht
    rw [if_neg ht, if_neg ht', setRegister_entered]

theorem declaring_run (s : Server V) (func : ℕ)
    (hq : rpc.formatRoutingKey method ≠ "" → queue = rpc.formatRoutingKey method) :
    Transition.Run (serve rpc) (fun _ _ => True) s (declaring rpc s method queue func)
      (s.entered method func (s.verdict rpc method queue func)) := by
  have hregister : serve rpc s (.register method func) = some (s.entered method func .declaring) :=
    rfl
  unfold declaring
  cases hx : rpc.exchange with
  | none =>
    have hdeclared : serve rpc (s.entered method func .declaring)
        (.declared s.registers.length queue) =
          some (s.entered method func (s.verdict rpc method queue func)) := by
      simp only [serve, entered_get, hx, if_pos hq, consume_entered]
    exact .cons trivial hregister (.cons trivial hdeclared (.nil _))
  | some exchange =>
    have hdeclared : serve rpc (s.entered method func .declaring)
        (.declared s.registers.length queue) = some (s.entered method func (.binding queue)) := by
      simp only [serve, entered_get, hx, if_pos hq, setRegister_entered]
    have hbound : serve rpc (s.entered method func (.binding queue))
        (.bound s.registers.length) =
          some (s.entered method func (s.verdict rpc method queue func)) := by
      simp only [serve, entered_get, consume_entered]
    exact .cons trivial hregister (.cons trivial hdeclared (.cons trivial hbound (.nil _)))

theorem registering_run
    (hq : rpc.formatRoutingKey method ≠ "" → queue = rpc.formatRoutingKey method)
    (ht : ¬ s.Taken rpc ⟨method, func, .declaring⟩) :
    Transition.Run (serve rpc) (fun _ _ => True) s (registering rpc s method queue func)
      (s.listed rpc method queue func) := by
  have hdeclaring := declaring_run s func hq
  have hv : s.verdict rpc method queue func = .consuming queue none := if_neg ht
  rw [hv] at hdeclaring
  -- the consumer that the broker confirms is the next one
  have hconsumeOk : serve rpc (s.entered method func (.consuming queue none))
      (.consumeOk s.registers.length) =
        some (Server.entered { s with consumers := s.consumers ++ [⟨method, func, true⟩] } method
          func (.consuming queue (some s.consumers.length))) := by
    simp only [serve, entered_get]
    simp [Server.entered, Server.setRegister]
  have hregistered : serve rpc
      (Server.entered { s with consumers := s.consumers ++ [⟨method, func, true⟩] } method func
        (.consuming queue (some s.consumers.length))) (.registered s.registers.length) =
      some (s.listed rpc method queue func) := by
    simp [serve, Server.entered, Server.setRegister, Server.listed]
  exact hdeclaring.append (.cons trivial hconsumeOk (.cons trivial hregistered (.nil _)))

/-- A callable without a consumer has no queue. -/
def Covered (s : Server V) : Prop :=
  ∀ f, s.consumerTags.get? f = none → s.queues.get? f = none

theorem covered_step {a : ServerAction V} (h : Covered s) (hs : serve rpc s a = some t) :
    Covered t := by
  have hconsume : ∀ {i : ℕ} {r : Register} {queue : String},
      Covered (s.consume rpc i r queue) := by
    intro i r queue
    unfold Server.consume
    split
    · exact h
    · exact h
  cases serve_cases hs with
  | register => exact h
  | binding => exact h
  | declared => exact hconsume
  | bound => exact hconsume
  | consumeOk => exact h
  | @registered i func consumer method queue hi =>
    intro f hf
    have hf : (s.consumerTags.set func consumer).get? f = none := hf
    show (s.queues.set func queue).get? f = none
    rw [Dict.get?_set] at hf ⊢
    split at hf
    · cases hf
    · rw [if_neg ‹_›]
      exact h f hf
  | registerRaised => exact h
  | @keyError func consumer ht hq =>
    intro f hf
    have hf : (s.consumerTags.pop func).get? f = none := hf
    rw [Dict.get?_pop] at hf
    split at hf
    · rename_i he
      exact he ▸ hq
    · exact h f hf
  | @unregister func consumer queue ht hq =>
    intro f hf
    have hf : (s.consumerTags.pop func).get? f = none := hf
    show (s.queues.pop func).get? f = none
    rw [Dict.get?_pop] at hf ⊢
    split
    · rfl
    · rw [if_neg ‹_›] at hf
      exact h f hf
  | cancelOk => exact h
  | unregistered => exact h
  | unregisterRaised => exact h
  | deliver => exact h
  | handle => exact h
  | event => exact h

theorem Sequential.covered (h : Sequential rpc s) : Covered s := by
  induction h with
  | fresh => exact fun f _ => rfl
  | register _ hr ih => exact hr.invariant (fun _ _ _ h _ hs => covered_step h hs) ih

/-- A server after `unregister` has cancelled the consumer that `register` started. -/
def Server.unlisted (rpc : RPC V) (s : Server V) (method queue : String) (func : ℕ) : Server V :=
  { s.listed rpc method queue func with
    consumers := s.consumers ++ [⟨method, func, false⟩]
    consumerTags := s.consumerTags
    routes := (s.routes.set (rpc.formatRoutingKey method) func).pop queue
    queues := s.queues
    unregisters := s.unregisters ++ [⟨s.consumers.length, queue, true⟩] }

theorem unregistering_run (ht : s.consumerTags.get? func = none) (hq : s.queues.get? func = none) :
    Transition.Run (serve rpc) (fun _ _ => True) (s.listed rpc method queue func)
      (unregistering (s.listed rpc method queue func) func)
      (s.unlisted rpc method queue func) := by
  have htag : (s.listed rpc method queue func).consumerTags.get? func = some s.consumers.length :=
    Dict.get?_set_self
  have hqueue : (s.listed rpc method queue func).queues.get? func = some queue :=
    Dict.get?_set_self
  have hunregister : serve rpc (s.listed rpc method queue func) (.unregister func) =
      some { s.listed rpc method queue func with
        consumerTags := s.consumerTags
        queues := s.queues
        unregisters := s.unregisters ++ [⟨s.consumers.length, queue, false⟩] } := by
    simp only [serve, htag, hqueue]
    simp [Server.listed, Dict.pop_set ht, Dict.pop_set hq]
  have hcancelOk : serve rpc { s.listed rpc method queue func with
        consumerTags := s.consumerTags
        queues := s.queues
        unregisters := s.unregisters ++ [⟨s.consumers.length, queue, false⟩] }
      (.cancelOk s.unregisters.length) =
      some { s.listed rpc method queue func with
        consumers := s.consumers ++ [⟨method, func, false⟩]
        consumerTags := s.consumerTags
        queues := s.queues
        unregisters := s.unregisters ++ [⟨s.consumers.length, queue, false⟩] } := by
    simp [serve, Server.listed, Members.modify_append_singleton]
  have hunregistered : serve rpc { s.listed rpc method queue func with
        consumers := s.consumers ++ [⟨method, func, false⟩]
        consumerTags := s.consumerTags
        queues := s.queues
        unregisters := s.unregisters ++ [⟨s.consumers.length, queue, false⟩] }
      (.unregistered s.unregisters.length) = some (s.unlisted rpc method queue func) := by
    simp [serve, Server.listed, Server.unlisted]
  unfold unregistering
  rw [if_pos (by rw [htag]; rfl)]
  exact .cons trivial hunregister (.cons trivial hcancelOk (.cons trivial hunregistered (.nil _)))

theorem formatRoutingKey_ne (h : method ≠ "") : rpc.formatRoutingKey method ≠ "" := by
  unfold RPC.formatRoutingKey
  split
  · intro he
    exact h (String.append_eq_empty_iff.mp he).2
  · exact h

/-- `unregister` undoes `register` if and only if the callable is a coroutine function, or a partial
of one. -/
theorem unregister_undoes_register_iff {f : Callable} {wrapper : ℕ} (hs : Sequential rpc s)
    (hm : method ≠ "") (hr : s.routes.get? (rpc.formatRoutingKey method) = none)
    (hf : s.consumerTags.get? f.id = none) (hw : s.consumerTags.get? wrapper = none)
    (hne : wrapper ≠ f.id) :
    UnregisterUndoes rpc s method f wrapper ↔ f.iscoroutinefunction = true := by
  have hkey : rpc.formatRoutingKey method ≠ "" := formatRoutingKey_ne hm
  have htags : s.consumerTags.get? (ensureAwaitable wrapper f) = none := by
    unfold ensureAwaitable
    split
    · exact hf
    · exact hw
  have ht : ¬ s.Taken rpc ⟨method, ensureAwaitable wrapper f, .declaring⟩ :=
    not_taken_iff.mpr ⟨htags, hr⟩
  have hrun : Transition.Run (serve rpc) (fun _ _ => True) s
      (registering rpc s method (rpc.formatRoutingKey method) (ensureAwaitable wrapper f))
      (s.listed rpc method (rpc.formatRoutingKey method) (ensureAwaitable wrapper f)) :=
    registering_run (fun _ => rfl) ht
  constructor
  · rintro ⟨t, hrt, ⟨u, hu, hundone⟩, -⟩
    by_contra hc
    have hfunc : ensureAwaitable wrapper f = wrapper := if_neg hc
    obtain rfl := hrt.unique hrun
    -- the tag is the wrapper's, and unregister() does nothing
    have htag : (s.listed rpc method (rpc.formatRoutingKey method)
        (ensureAwaitable wrapper f)).consumerTags.get? f.id = none := by
      rw [hfunc]
      exact (Dict.get?_set_ne hne.symm).trans hf
    have hnothing : unregistering (s.listed rpc method (rpc.formatRoutingKey method)
        (ensureAwaitable wrapper f)) f.id = [] := by
      unfold unregistering
      rw [htag]
      rfl
    rw [hnothing] at hu
    obtain rfl := hu.unique (.nil _)
    obtain ⟨c, hget, hlive⟩ := hundone.cancelled
    obtain rfl := Option.some.inj (hget.symm.trans List.getElem?_concat_length)
    cases hlive
  · intro hc
    have hfunc : ∀ wrapper, ensureAwaitable wrapper f = f.id := fun _ => if_pos hc
    unfold UnregisterUndoes
    rw [hfunc] at hrun ⊢
    refine ⟨_, hrun, ⟨_, unregistering_run hf (hs.covered _ hf), ?_⟩, ?_⟩
    · exact ⟨⟨_, List.getElem?_concat_length, rfl⟩, Dict.pop_set hr, rfl, rfl⟩
    · intro method' wrapper' _ _ queue hq
      refine ⟨_, declaring_run _ _ hq, _, entered_get, if_pos (Or.inl ?_)⟩
      rw [hfunc]
      exact congrArg Option.isSome Dict.get?_set_self

def adding : Server ℕ := Server.fresh.listed plainRpc "add" "add" 5

/-- A partial of a partial of a coroutine function. -/
theorem partial_unregistered : UnregisterUndoes plainRpc adding "multiply"
    (.partialOf 2 (.partialOf 1 (.coroutineFunction 0))) 3 ↔
      (Callable.partialOf 2 (.partialOf 1 (.coroutineFunction 0))).iscoroutinefunction = true := by
  have hr : Transition.Run (serve plainRpc) (fun _ _ => True) Server.fresh
      (registering plainRpc Server.fresh "add" "add" (ensureAwaitable 6 (.coroutineFunction 5)))
      adding := Transition.run_of_checked rfl
  exact unregister_undoes_register_iff (.register .fresh hr) (by decide) rfl rfl rfl (by decide)

/-- A function that is no coroutine function keeps its consumer, its route and its tag, and is
registered again under another name. -/
theorem function_left_registered : (∃ t u : Server ℕ,
    Transition.Run (serve plainRpc) (fun _ _ => True) Server.fresh
      (registering plainRpc Server.fresh "multiply" "multiply" (ensureAwaitable 1 (.function 0)))
      t ∧
    Transition.Run (serve plainRpc) (fun _ _ => True) t (unregistering t 0) t ∧
    t.consumers = [⟨"multiply", 1, true⟩] ∧ t.routes.items = [("multiply", 1)] ∧
    t.consumerTags.items = [(1, 0)] ∧
    Transition.Run (serve plainRpc) (fun _ _ => True) t
      (registering plainRpc t "add" "add" (ensureAwaitable 2 (.function 0))) u ∧
    u.routes.items = [("multiply", 1), ("add", 2)]) ∧
    ¬ UnregisterUndoes plainRpc (Server.fresh : Server ℕ) "multiply" (.function 0) 1 := by
  constructor
  · exact ⟨_, _, Transition.run_of_checked rfl, .nil _, rfl, rfl, rfl,
      Transition.run_of_checked rfl, rfl⟩
  · rintro ⟨t, hrt, ⟨u, hu, hundone⟩, -⟩
    obtain rfl := hrt.unique (Transition.run_of_checked rfl)
    obtain rfl := hu.unique (.nil _)
    obtain ⟨c, hget, hlive⟩ := hundone.cancelled
    obtain rfl := Option.some.inj hget
    cases hlive

end Register

end AioPika.Rpc
