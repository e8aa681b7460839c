import AioPika.Foundation.Coroutine
import AioPika.Message.Settlement

/-! # Tasks of a master

`on_message` decodes a task and executes the worker in a `process()` block. What
the worker raises decides how the task is settled: `RejectMessage` and
`NackMessage` in the block itself, everything else in its exit.
-/

namespace AioPika.Tasks

open Message (IncomingMessage Frame ProcessContext)

/-- The exceptions, as `on_message` tells them apart. -/
inductive Exc where
  | rejectMessage (requeue : Bool)
  | nackMessage (requeue : Bool)
  /-- An exception of `ack`, `reject` or `nack`. -/
  | settlement (exc : Message.Exc)
  | cancelledError
  | other
  deriving DecidableEq, Repr

/-- What `execute` asks of a payload: its truth value, and `isinstance(kwargs, dict)`. -/
structure Objects (V : Type) where
  truthy : V → Bool
  isDict : V → Bool
  /-- `{}` -/
  empty : V
  isDict_empty : isDict empty = true

structure Master (B V : Type) where
  requeue : Bool
  rejectOnRedelivered : Bool
  deserialize : B → Except Exc V

structure Delivery where
  message : Message.State
  /-- The worker was called. -/
  executed : Bool
  deriving DecidableEq, Repr

abbrev Coroutine := EStateM Exc Delivery

variable {B V : Type} (objects : Objects V) (master : Master B V) (message : IncomingMessage)
  (sends : ℕ → Bool)

/-- `await message.ack()` and its siblings; `sends` says which of the frames get through. -/
def settle (frame : Frame) : Coroutine Unit := fun d =>
  let i := d.message.calls.length
  let t := d.message.call message frame
  match t.calls[i]? with
  | some ⟨_, .raised exc⟩ => .error (.settlement exc) { d with message := t }
  | some ⟨_, .sending⟩ =>
    if sends d.message.frames.length then
      .ok () { d with message := (Message.step message t (.sent i)).getD t }
    else
      .error (.settlement .send) { d with message := (Message.step message t (.failed i)).getD t }
  | _ => .ok () { d with message := t }

/-- `kwargs or {}` -/
def Objects.kwargs (payload : V) : V :=
  if objects.truthy payload then payload else objects.empty

/-- `execute`; `func` is the worker, run to its end. -/
def execute (func : V → Except Exc Unit) (payload : V) : Coroutine Unit := fun d =>
  if objects.isDict (objects.kwargs payload) then
    match func (objects.kwargs payload) with
    | .ok () => .ok () { d with executed := true }
    | .error exc => .error exc { d with executed := true }
  else .error (.rejectMessage false) d

/-- `__aexit__` -/
def exit (context : ProcessContext) (raised : Bool) : Coroutine Unit := fun d =>
  match context.exit message d.message raised with
  | .ok (some frame) => settle message sends frame d
  | .ok none => .ok () d
  | .error exc => .error (.settlement exc) d

/-- `async with message.process(...)` -/
def process (context : ProcessContext) (block : Coroutine Unit) : Coroutine Unit := fun d =>
  match block d with
  | .ok () t => exit message sends context false t
  | .error exc t => (exit message sends context true >>= fun _ => throw exc) t

/-- The `process()` context of `on_message`. -/
def Master.context : ProcessContext := ⟨master.requeue, master.rejectOnRedelivered, true⟩

/-- The `except` clauses of `on_message`. -/
def caught : Exc → Coroutine Unit
  | .rejectMessage requeue => settle message sends (.reject requeue)
  | .nackMessage requeue => settle message sends (.nack false requeue)
  | exc => throw exc

/-- The `try` statement of `on_message`. -/
def attempt (func : V → Except Exc Unit) (body : B) : Coroutine Unit := do
  try
    let payload ← MonadExcept.ofExcept (master.deserialize body)
    execute objects func payload
  catch exc => caught message sends exc

def onMessage (func : V → Except Exc Unit) (body : B) : Coroutine Unit :=
  process message sends master.context (attempt objects master message sends func body)

def delivery : Delivery := ⟨Message.fresh message, false⟩

def final : EStateM.Result Exc Delivery Unit → Delivery
  | .ok _ d | .error _ d => d

/-- How a task is settled that has failed for no special reason. -/
def Master.fallback : Frame :=
  .reject (if master.rejectOnRedelivered = true ∧ message.redelivered = true then false
    else master.requeue)

/-- How a task is settled that has ended with this exception. -/
def Master.verb : Exc → Frame
  | .rejectMessage requeue => .reject requeue
  | .nackMessage requeue => .nack false requeue
  | .settlement _ | .cancelledError | .other => master.fallback message

def Objects.Callable (payload : V) : Prop :=
  objects.isDict payload = true ∨ objects.truthy payload = false

/-- How a task is to be settled. -/
inductive Verdict (func : V → Except Exc Unit) (body : B) : Frame → Prop
  | returned {payload : V} (hd : master.deserialize body = .ok payload)
      (hp : objects.Callable payload) (hf : func (objects.kwargs payload) = .ok ()) :
      Verdict func body (.ack false)
  | raised {payload : V} {exc : Exc} (hd : master.deserialize body = .ok payload)
      (hp : objects.Callable payload) (hf : func (objects.kwargs payload) = .error exc) :
      Verdict func body (master.verb message exc)
  | badPayload {payload : V} (hd : master.deserialize body = .ok payload)
      (hp : ¬ objects.Callable payload) : Verdict func body (.reject false)
  | undecoded {exc : Exc} (hd : master.deserialize body = .error exc) :
      Verdict func body (master.verb message exc)

/-- The worker is called exactly if the payload is decoded, and fits. -/
def Runs (body : B) : Prop :=
  ∃ payload, master.deserialize body = .ok payload ∧ objects.Callable payload

variable {objects master message sends} {func : V → Except Exc Unit} {body : B} {frame : Frame}
  {exc : Exc} {d : Delivery} {payload : V}

theorem callable_iff : objects.isDict (objects.kwargs payload) = true ↔
    objects.Callable payload := by
  unfold Objects.kwargs Objects.Callable
  cases ht : objects.truthy payload with
  | true => simp
  | false => simp [objects.isDict_empty]

theorem Verdict.unique {frame' : Frame} (h : Verdict objects master message func body frame)
    (h' : Verdict objects master message func body frame') : frame = frame' := by
  cases h with
  | returned hd hp hf =>
    cases h' with
    | returned => rfl
    | raised hd' _ hf' =>
      obtain rfl := Except.ok.inj (hd.symm.trans hd')
      cases hf.symm.trans hf'
    | badPayload hd' hp' =>
      obtain rfl := Except.ok.inj (hd.symm.trans hd')
      exact absurd hp hp'
    | undecoded hd' => cases hd.symm.trans hd'
  | raised hd hp hf =>
    cases h' with
    | returned hd' _ hf' =>
      obtain rfl := Except.ok.inj (hd.symm.trans hd')
      cases hf.symm.trans hf'
    | raised hd' _ hf' =>
      obtain rfl := Except.ok.inj (hd.symm.trans hd')
      rw [Except.error.inj (hf.symm.trans hf')]
    | badPayload hd' hp' =>
      obtain rfl := Except.ok.inj (hd.symm.trans hd')
      exact absurd hp hp'
    | undecoded hd' => cases hd.symm.trans hd'
  | badPayload hd hp =>
    cases h' with
    | badPayload => rfl
    | returned hd' hp' | raised hd' hp' =>
      obtain rfl := Except.ok.inj (hd.symm.trans hd')
      exact absurd hp' hp
    | undecoded hd' => cases hd.symm.trans hd'
  | undecoded hd =>
    cases h' with
    | undecoded hd' => rw [Except.error.inj (hd.symm.trans hd')]
    | returned hd' | raised hd' | badPayload hd' => cases hd.symm.trans hd'

def settled (frame : Frame) : Message.State := ⟨true, false, [⟨frame, .returned⟩], [frame]⟩

section Settlement

variable (hack : message.noAck = false) (htag : message.deliveryTag.getD 0 ≠ 0)
  (hsends : sends 0 = true)

include hack htag

theorem fresh_eq : Message.fresh message = ⟨false, false, [], []⟩ := by
  have hn : ¬ (message.noAck = true ∨ message.deliveryTag.getD 0 = 0) := by
    rw [hack, not_or]
    exact ⟨Bool.false_ne_true, htag⟩
  rw [Message.fresh, decide_eq_false hn]

include hsends

theorem settle_fresh (hf : frame.Supported message) {executed : Bool} :
    settle message sends frame ⟨Message.fresh message, executed⟩ =
      .ok () ⟨settled frame, executed⟩ := by
  rw [fresh_eq hack htag]
  obtain ⟨text, hc⟩ := Message.call_settle (s := ⟨false, false, [], []⟩) rfl hf
  have hsend : Message.State.call message ⟨false, false, [], []⟩ frame =
      ⟨false, false, [⟨frame, .sending⟩], [frame]⟩ := by
    rw [hc, Message.settle_sending hack htag rfl rfl]
    rfl
  simp only [settle, hsend]
  simp [hsends, Message.step, Message.State.setPc, settled]

end Settlement

theorem exit_settled {raised executed : Bool} :
    exit message sends master.context raised ⟨settled frame, executed⟩ =
      .ok () ⟨settled frame, executed⟩ := by
  cases raised <;> rfl

section Attempt

theorem attempt_undecoded (hd : master.deserialize body = .error exc) :
    attempt objects master message sends func body d = caught message sends exc d := by
  unfold attempt
  rw [hd]
  exact Coroutine.tryCatch_error (Coroutine.bind_error rfl)

theorem attempt_decoded (hd : master.deserialize body = .ok payload) :
    attempt objects master message sends func body d =
      (tryCatch (execute objects func payload) (caught message sends) : Coroutine Unit) d := by
  unfold attempt
  rw [hd]
  rfl

theorem attempt_badPayload (hd : master.deserialize body = .ok payload)
    (hp : ¬ objects.Callable payload) :
    attempt objects master message sends func body d =
      caught message sends (.rejectMessage false) d := by
  have he : execute objects func payload d = .error (.rejectMessage false) d := by
    simp only [execute, if_neg (mt callable_iff.mp hp)]
  rw [attempt_decoded hd]
  exact Coroutine.tryCatch_error he

theorem attempt_returned (hd : master.deserialize body = .ok payload)
    (hp : objects.Callable payload) (hf : func (objects.kwargs payload) = .ok ()) :
    attempt objects master message sends func body d = .ok () { d with executed := true } := by
  have he : execute objects func payload d = .ok () { d with executed := true } := by
    simp only [execute, if_pos (callable_iff.mpr hp), hf]
  rw [attempt_decoded hd]
  exact Coroutine.tryCatch_ok he

theorem attempt_raised (hd : master.deserialize body = .ok payload)
    (hp : objects.Callable payload) (hf : func (objects.kwargs payload) = .error exc) :
    attempt objects master message sends func body d =
      caught message sends exc { d with executed := true } := by
  have he : execute objects func payload d = .error exc { d with executed := true } := by
    simp only [execute, if_pos (callable_iff.mpr hp), hf]
  rw [attempt_decoded hd]
  exact Coroutine.tryCatch_error he

end Attempt

section Process

variable (hack : message.noAck = false) (htag : message.deliveryTag.getD 0 ≠ 0)
  (hsends : sends 0 = true) {executed : Bool} {block : Coroutine Unit}

include hack htag hsends

theorem exit_fresh {raised : Bool} :
    exit message sends master.context raised ⟨Message.fresh message, executed⟩ =
      .ok () ⟨settled (if raised then master.fallback message else .ack false), executed⟩ := by
  have hframe : master.context.exit message (Message.fresh message) raised =
      .ok (some (if raised then master.fallback message else .ack false)) := by
    rw [fresh_eq hack htag]
    cases raised with
    | false => rfl
    | true =>
      simp only [ProcessContext.exit, Master.context, Master.fallback]
      by_cases hr : master.rejectOnRedelivered = true ∧ message.redelivered = true
      · simp [hr]
      · simp [hr]
  have hsupported : Frame.Supported message
      (if raised then master.fallback message else .ack false) := by
    cases raised <;> trivial
  simp only [exit, hframe]
  exact settle_fresh hack htag hsends hsupported

theorem process_returned (hb : block d = .ok () ⟨Message.fresh message, executed⟩) :
    final (process message sends master.context block d) = ⟨settled (.ack false), executed⟩ := by
  simp only [process, hb]
  rw [exit_fresh hack htag hsends]
  rfl

theorem process_caught (hnack : message.basicNack = true)
    (hb : block d = caught message sends exc ⟨Message.fresh message, executed⟩) :
    final (process message sends master.context block d) =
      ⟨settled (master.verb message exc), executed⟩ := by
  cases exc with
  | rejectMessage requeue =>
    have hsupported : (Frame.reject requeue).Supported message := trivial
    have hs : block d = .ok () ⟨settled (.reject requeue), executed⟩ :=
      hb.trans (settle_fresh hack htag hsends hsupported)
    simp only [process, hs, exit_settled]
    rfl
  | nackMessage requeue =>
    have hsupported : (Frame.nack false requeue).Supported message := hnack
    have hs : block d = .ok () ⟨settled (.nack false requeue), executed⟩ :=
      hb.trans (settle_fresh hack htag hsends hsupported)
    simp only [process, hs, exit_settled]
    rfl
  | settlement | cancelledError | other =>
    have hs : block d = .error _ ⟨Message.fresh message, executed⟩ := hb
    simp only [process, hs]
    rw [Coroutine.bind_ok (exit_fresh hack htag hsends)]
    rfl

end Process

/-- A task that is to be acknowledged is settled with one frame, which is the verdict on it. -/
theorem task_settled_once (hack : message.noAck = false) (htag : message.deliveryTag.getD 0 ≠ 0)
    (hnack : message.basicNack = true) (hsends : ∀ i, sends i = true) :
    ∃ frame, ∃ d, final (onMessage objects master message sends func body (delivery message)) = d ∧
      d.message.frames = [frame] ∧ Verdict objects master message func body frame ∧
      (d.executed = true ↔ Runs objects master body) := by
  cases hd : master.deserialize body with
  | error exc =>
    refine ⟨master.verb message exc, _, process_caught hack htag (hsends 0) hnack
      (attempt_undecoded hd), rfl, .undecoded hd, ?_⟩
    apply iff_of_false Bool.false_ne_true
    rintro ⟨payload, hd', -⟩
    cases hd.symm.trans hd'
  | ok payload =>
    by_cases hp : objects.Callable payload
    · have hruns : Runs objects master body := ⟨payload, hd, hp⟩
      cases hf : func (objects.kwargs payload) with
      | ok u =>
        exact ⟨.ack false, _, process_returned hack htag (hsends 0) (attempt_returned hd hp hf),
          rfl, .returned hd hp hf, iff_of_true rfl hruns⟩
      | error exc =>
        exact ⟨master.verb message exc, _, process_caught hack htag (hsends 0) hnack
          (attempt_raised hd hp hf), rfl, .raised hd hp hf, iff_of_true rfl hruns⟩
    · refine ⟨.reject false, _, process_caught hack htag (hsends 0) hnack
        (attempt_badPayload hd hp), rfl, .badPayload hd hp, ?_⟩
      apply iff_of_false Bool.false_ne_true
      rintro ⟨payload', hd', hp'⟩
      obtain rfl := Except.ok.inj (hd.symm.trans hd')
      exact hp hp'

/-- Payloads that are known by their truth value, and by whether they are dictionaries. -/
def flags : Objects (Bool × Bool) := ⟨Prod.fst, Prod.snd, (false, true), rfl⟩

/-- The worker wants the task back. -/
theorem nacked_once : ∃ frame, ∃ d,
    final (onMessage flags ⟨true, true, .ok⟩ Message.delivered (fun _ => true)
      (fun _ => .error (.nackMessage true)) (true, true) (delivery Message.delivered)) = d ∧
    d.message.frames = [frame] ∧
    Verdict flags ⟨true, true, .ok⟩ Message.delivered (fun _ => .error (.nackMessage true))
      (true, true) frame ∧
    (d.executed = true ↔ Runs flags ⟨true, true, .ok⟩ (true, true)) :=
  task_settled_once rfl (by decide) rfl fun _ => rfl

/-- A master whose tasks are put back, and whose decoder raises `RejectMessage`. -/
def rejecting : Master Unit (Bool × Bool) := ⟨true, false, fun _ => .error (.rejectMessage false)⟩

/-- A task that cannot be decoded is not put back then. -/
theorem rejected_by_decoder :
    (final (onMessage flags rejecting Message.delivered (fun _ => true) (fun _ => .ok ()) ()
      (delivery Message.delivered))).message.frames = [.reject false] ∧
    rejecting.fallback Message.delivered = .reject true :=
  ⟨rfl, rfl⟩

end AioPika.Tasks
