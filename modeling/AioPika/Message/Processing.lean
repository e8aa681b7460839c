import AioPika.Foundation.Coroutine
import AioPika.Message.Settlement

/-! # Processing a message

The body of a `process()` block settles the message any number of times, as what
its calls raise makes it go on, and then returns or raises. The exit settles a
message that is not processed; it asks for the channel by a property that raises
when the channel is closed.
-/

namespace AioPika.Processing

open Message (IncomingMessage Frame ProcessContext)

structure Delivery where
  message : Message.State
  /-- `__lock` -/
  locked : Bool
  deriving DecidableEq, Repr

/-- The frames that were sent successfully. -/
def Delivery.sent (d : Delivery) : List Frame :=
  (d.message.calls.filter fun c => decide (c.pc = .returned)).map Message.Call.frame

/-- A body whose exceptions are `E`: it goes on as what its calls return or raise tells it to. -/
inductive Body (E : Type) where
  | returns
  | raises (exc : E)
  | settle (frame : Frame) (next : Option Message.Exc → Body E)
  /-- The channel is closed meanwhile. -/
  | channelClosed (next : Body E)

/-- What leaves the block: the exception of the body, or one that the exit raises. -/
inductive Raised (E : Type) where
  | body (exc : E)
  | exit (exc : Message.Exc)
  deriving DecidableEq, Repr

variable {E : Type} (message : IncomingMessage) (sends : ℕ → Bool)

/-- `await message.ack()` and its siblings; `sends` says which of the frames get through. -/
def settle (frame : Frame) : EStateM Message.Exc Delivery Unit := fun d =>
  let i := d.message.calls.length
  let t := d.message.call message frame
  match t.calls[i]? with
  | some ⟨_, .raised exc⟩ => .error exc { d with message := t }
  | some ⟨_, .sending⟩ =>
    if sends d.message.frames.length then
      .ok () ⟨(Message.step message t (.sent i)).getD t, true⟩
    else .error .send { d with message := (Message.step message t (.failed i)).getD t }
  | _ => .ok () ⟨t, true⟩

/-- `__aexit__` -/
def exit (context : ProcessContext) (raised : Bool) : EStateM Message.Exc Delivery Unit := fun d =>
  match context.exit message d.message raised with
  | .ok (some frame) => settle message sends frame d
  | .ok none => .ok () d
  | .error exc => .error exc d

def Body.run : Body E → EStateM E Delivery Unit
  | .returns => fun d => .ok () d
  | .raises exc => fun d => .error exc d
  | .settle frame next => fun d =>
    match Processing.settle message sends frame d with
    | .ok () t => (next none).run t
    | .error exc t => (next (some exc)).run t
  | .channelClosed next => fun d =>
    next.run { d with message := { d.message with channelClosed := true } }

/-- `async with message.process(...)` -/
def process (context : ProcessContext) (body : Body E) :
    EStateM (Raised E) Delivery Unit := fun d =>
  match body.run message sends d with
  | .ok () t =>
    match exit message sends context false t with
    | .ok () u => .ok () u
    | .error exc u => .error (.exit exc) u
  | .error e t =>
    match exit message sends context true t with
    | .ok () u => .error (.body e) u
    | .error exc u => .error (.exit exc) u

/-- `__init__` -/
def delivered : Delivery := ⟨Message.fresh message, (Message.fresh message).processed⟩

def final {ε α : Type} : EStateM.Result ε Delivery α → Delivery
  | .ok _ d | .error _ d => d

def exc? {ε α : Type} : EStateM.Result ε Delivery α → Option ε
  | .ok _ _ => none
  | .error exc _ => some exc

/-- The channel is not closed while the body runs. -/
inductive Body.KeepsOpen : Body E → Prop
  | returns : KeepsOpen .returns
  | raises {exc : E} : KeepsOpen (.raises exc)
  | settle {frame : Frame} {next : Option Message.Exc → Body E}
      (h : ∀ exc, KeepsOpen (next exc)) : KeepsOpen (.settle frame next)

/-- How the exit is to settle a message that the body has not settled. -/
def verdict (context : ProcessContext) (raised : Bool) : Frame :=
  if raised = false then .ack false
  else if context.rejectOnRedelivered = true ∧ message.redelivered = true then .reject false
  else .reject context.requeue

/-- `MessageProcessError("Message already processed", self)` -/
def alreadyProcessed : Message.Exc := .messageProcessError "Message already processed"

/-- Nothing of the message is in progress: it is processed, and locked, if one frame was sent. -/
structure Sequential (d : Delivery) : Prop where
  locked : d.locked = d.message.processed
  sent : d.sent.length = if d.message.processed then 1 else 0

variable {message sends} {d t : Delivery} {frame : Frame} {context : ProcessContext}
  {raised : Bool} {body : Body E}

section Settlement

variable (hack : message.noAck = false) (htag : message.deliveryTag.getD 0 ≠ 0)

include hack

theorem settle_already (hf : frame.Supported message) (hc : d.message.channelClosed = false)
    (hp : d.message.processed = true) :
    settle message sends frame d = .error alreadyProcessed
      { d with message := d.message.start frame Message.alreadyProcessed } := by
  obtain ⟨text, he⟩ := Message.call_settle hc hf
  have hcall : d.message.call message frame = d.message.start frame Message.alreadyProcessed :=
    he.trans (Message.settle_processed hack hp)
  simp [settle, hcall, Message.State.start, Message.alreadyProcessed, alreadyProcessed]

include htag

theorem settle_unprocessed (hf : frame.Supported message) (hc : d.message.channelClosed = false)
    (hp : d.message.processed = false) :
    settle message sends frame d =
      if sends d.message.frames.length then
        .ok () ⟨{ d.message with
          processed := true
          frames := d.message.frames ++ [frame]
          calls := d.message.calls ++ [⟨frame, .returned⟩] }, true⟩
      else .error .send { d with message := { d.message with
        frames := d.message.frames ++ [frame]
        calls := d.message.calls ++ [⟨frame, .raised .send⟩] } } := by
  obtain ⟨text, he⟩ := Message.call_settle hc hf
  have hcall : d.message.call message frame = Message.State.start
      { d.message with frames := d.message.frames ++ [frame] } frame .sending :=
    he.trans (Message.settle_sending hack htag hc hp)
  simp [settle, hcall, Message.State.start, Message.step, Message.State.setPc]

variable (sends) in
theorem settle_sequential (h : Sequential d) (hf : frame.Supported message)
    (hc : d.message.channelClosed = false) :
    Sequential (final (settle message sends frame d)) ∧
      (final (settle message sends frame d)).message.channelClosed = false := by
  have hsent := h.sent
  cases hp : d.message.processed with
  | true =>
    rw [settle_already hack hf hc hp]
    refine ⟨⟨h.locked, ?_⟩, hc⟩
    simpa [final, Delivery.sent, Message.State.start, Message.alreadyProcessed, hp] using hsent
  | false =>
    rw [settle_unprocessed hack htag hf hc hp]
    split
    · refine ⟨⟨rfl, ?_⟩, hc⟩
      simpa [final, Delivery.sent, hp] using hsent
    · refine ⟨⟨h.locked, ?_⟩, hc⟩
      simpa [final, Delivery.sent, hp] using hsent

variable (hnack : message.basicNack = true)

include hnack

theorem run_sequential (hopen : body.KeepsOpen) (h : Sequential d)
    (hc : d.message.channelClosed = false) :
    Sequential (final (body.run message sends d)) ∧
      (final (body.run message sends d)).message.channelClosed = false := by
  induction hopen generalizing d with
  | returns => exact ⟨h, hc⟩
  | raises => exact ⟨h, hc⟩
  | @settle frame next _ ih =>
    have hf : frame.Supported message := by
      cases frame with
      | nack => exact hnack
      | _ => trivial
    obtain ⟨hs, hopen⟩ := settle_sequential sends hack htag h hf hc
    unfold Body.run
    split
    · rename_i t he
      rw [he] at hs hopen
      exact ih none hs hopen
    · rename_i exc t he
      rw [he] at hs hopen
      exact ih (some exc) hs hopen

end Settlement

theorem verdict_supported : (verdict message context raised).Supported message := by
  unfold verdict
  split
  · trivial
  · split <;> trivial

theorem contextExit_open {s : Message.State} (hc : s.channelClosed = false) :
    context.exit message s raised =
      if context.ignoreProcessed = false ∨ s.processed = false then
        .ok (some (verdict message context raised))
      else .ok none := by
  unfold ProcessContext.exit verdict
  cases raised with
  | false => rfl
  | true =>
    by_cases hr : context.rejectOnRedelivered = true ∧ message.redelivered = true
    · simp [hc, hr]
    · simp [hc, hr]

theorem exit_settles (hc : d.message.channelClosed = false)
    (h : context.ignoreProcessed = false ∨ d.message.processed = false) :
    exit message sends context raised d =
      settle message sends (verdict message context raised) d := by
  simp only [exit, contextExit_open hc, if_pos h]

theorem exit_ignores (hc : d.message.channelClosed = false)
    (hi : context.ignoreProcessed = true) (hp : d.message.processed = true) :
    exit message sends context raised d = .ok () d := by
  have h : ¬ (context.ignoreProcessed = false ∨ d.message.processed = false) := by simp [hi, hp]
  simp only [exit, contextExit_open hc, if_neg h]

/-- What a block does to its message, when its body ends with `b` and the block with `r`. -/
structure SettlesOnce (message : IncomingMessage) (context : ProcessContext)
    (b : EStateM.Result E Delivery Unit) (r : EStateM.Result (Raised E) Delivery Unit) : Prop where
  once : (final r).sent.length ≤ 1
  settled : (final b).sent ≠ [] → (final r).message.frames = (final b).message.frames ∧
    (exc? r = some (.exit alreadyProcessed) ↔ context.ignoreProcessed = false)
  unsettled : (final b).sent = [] → (final r).message.frames =
    (final b).message.frames ++ [verdict message context (exc? b).isSome]
  processed : (final r).message.processed = true ↔ (final r).sent ≠ []
  locked : (final r).locked = true ↔ (final r).sent ≠ []

theorem Sequential.processed_iff (h : Sequential d) :
    d.message.processed = true ↔ d.sent ≠ [] := by
  have hsent := h.sent
  cases hp : d.message.processed with
  | true =>
    rw [hp, if_pos rfl] at hsent
    exact iff_of_true rfl (List.ne_nil_of_length_eq_add_one hsent)
  | false =>
    rw [hp, if_neg Bool.false_ne_true] at hsent
    exact iff_of_false Bool.false_ne_true fun hn => hn (List.length_eq_zero_iff.mp hsent)

theorem Sequential.sent_le (h : Sequential d) : d.sent.length ≤ 1 := by
  rw [h.sent]
  split <;> decide

/-- The exit of the block, and the exception that leaves it. -/
theorem process_eq (message : IncomingMessage) (sends : ℕ → Bool) (context : ProcessContext)
    (body : Body E) (d : Delivery) :
    ∃ b, body.run message sends d = b ∧
      final (process message sends context body d) =
        final (exit message sends context (exc? b).isSome (final b)) ∧
      exc? (process message sends context body d) =
        ((exc? (exit message sends context (exc? b).isSome (final b))).map .exit).or
          ((exc? b).map .body) := by
  refine ⟨_, rfl, ?_⟩
  cases hb : body.run message sends d with
  | ok u t =>
    cases he : exit message sends context false t with
    | ok v w => simp [process, hb, he, final, exc?]
    | error exc w => simp [process, hb, he, final, exc?]
  | error e t =>
    cases he : exit message sends context true t with
    | ok v w => simp [process, hb, he, final, exc?]
    | error exc w => simp [process, hb, he, final, exc?]

section Block

variable (hack : message.noAck = false) (htag : message.deliveryTag.getD 0 ≠ 0)

include hack htag

theorem delivered_eq : delivered message = ⟨⟨false, false, [], []⟩, false⟩ := by
  simp [delivered, Message.fresh, hack, htag]

variable (sends context raised) in
theorem exit_processed (h : Sequential d) (hc : d.message.channelClosed = false)
    (hp : d.message.processed = true) :
    Sequential (final (exit message sends context raised d)) ∧
      (final (exit message sends context raised d)).message.frames = d.message.frames ∧
      exc? (exit message sends context raised d) =
        if context.ignoreProcessed = false then some alreadyProcessed else none := by
  cases hi : context.ignoreProcessed with
  | false =>
    have hf : (verdict message context raised).Supported message := verdict_supported
    have hs := settle_sequential sends hack htag h hf hc
    rw [exit_settles hc (Or.inl hi)]
    refine ⟨hs.1, ?_⟩
    rw [settle_already hack hf hc hp]
    exact ⟨rfl, rfl⟩
  | true =>
    rw [exit_ignores hc hi hp]
    exact ⟨h, rfl, rfl⟩

variable (sends context raised) in
theorem exit_unprocessed (h : Sequential d) (hc : d.message.channelClosed = false)
    (hp : d.message.processed = false) :
    Sequential (final (exit message sends context raised d)) ∧
      (final (exit message sends context raised d)).message.frames =
        d.message.frames ++ [verdict message context raised] := by
  rw [exit_settles hc (Or.inr hp)]
  refine ⟨(settle_sequential sends hack htag h verdict_supported hc).1, ?_⟩
  rw [settle_unprocessed hack htag verdict_supported hc hp]
  split <;> rfl

end Block

/-- Whatever the body of a block does, one frame at most is sent, and the exit settles the message
if the body has not. -/
theorem process_settles_once (hack : message.noAck = false)
    (htag : message.deliveryTag.getD 0 ≠ 0) (hnack : message.basicNack = true)
    (hopen : body.KeepsOpen) :
    SettlesOnce message context (body.run message sends (delivered message))
      (process message sends context body (delivered message)) := by
  have hfresh : delivered message = ⟨⟨false, false, [], []⟩, false⟩ := delivered_eq hack htag
  obtain ⟨b, hb, hfinal, hexc⟩ := process_eq message sends context body (delivered message)
  have hbody : Sequential (final b) ∧ (final b).message.channelClosed = false := by
    rw [← hb, hfresh]
    exact run_sequential hack htag hnack hopen ⟨rfl, rfl⟩ rfl
  obtain ⟨hs, hc⟩ := hbody
  rw [hb]
  cases hp : (final b).message.processed with
  | true =>
    obtain ⟨hr, hframes, hraised⟩ := exit_processed sends context (exc? b).isSome
      hack htag hs hc hp
    have hsent : (final b).sent ≠ [] := hs.processed_iff.mp hp
    rw [← hfinal] at hr hframes
    refine ⟨hr.sent_le, fun _ => ⟨hframes, ?_⟩, fun hn => absurd hn hsent, hr.processed_iff,
      hr.locked ▸ hr.processed_iff⟩
    rw [hexc, hraised]
    cases context.ignoreProcessed with
    | false => simp
    | true => cases exc? b <;> simp
  | false =>
    obtain ⟨hr, hframes⟩ := exit_unprocessed sends context (exc? b).isSome
      hack htag hs hc hp
    have hsent : (final b).sent = [] := by
      by_contra hn
      rw [hs.processed_iff.mpr hn] at hp
      cases hp
    rw [← hfinal] at hr hframes
    exact ⟨hr.sent_le, fun hn => absurd hsent hn, fun _ => hframes, hr.processed_iff,
      hr.locked ▸ hr.processed_iff⟩

/-- The first `ack` of the body is not sent; it catches the exception, and acknowledges again. -/
def ackedAgain : Body String := .settle (.ack false) fun _ => .settle (.ack false) fun _ => .returns

theorem acked_again : SettlesOnce Message.delivered ⟨false, false, true⟩
    (ackedAgain.run Message.delivered (fun i => decide (i ≠ 0)) (delivered Message.delivered))
    (process Message.delivered (fun i => decide (i ≠ 0)) ⟨false, false, true⟩ ackedAgain
      (delivered Message.delivered)) :=
  process_settles_once rfl (by decide) rfl (.settle fun _ => .settle fun _ => .returns)

/-- A closed channel raises before the exit can look whether it is closed. -/
theorem contextExit_closed {s : Message.State} (hc : s.channelClosed = true)
    (hp : s.processed = false) :
    context.exit message s true = .error .channelInvalidState := by
  simp [ProcessContext.exit, hc, hp]

/-- The exception of the body leaves the block, and the message is rejected on an open channel. -/
structure KeepsError (e : E) (b : Delivery) (r : EStateM.Result (Raised E) Delivery Unit) :
    Prop where
  leaves : exc? r = some (.body e)
  attempts : (final r).message.frames ≠ b.message.frames → b.message.channelClosed = false

/-- The exception of a body that has not settled its message leaves the block exactly if the
channel is open when it is raised. -/
theorem process_keeps_error_iff {e : E} {b : Delivery} (hack : message.noAck = false)
    (htag : message.deliveryTag.getD 0 ≠ 0)
    (hb : body.run message (fun _ => true) (delivered message) = .error e b)
    (hu : b.message.processed = false) :
    KeepsError e b (process message (fun _ => true) context body (delivered message)) ↔
      b.message.channelClosed = false := by
  obtain ⟨b', hb', hfinal, hexc⟩ :=
    process_eq message (fun _ => true) context body (delivered message)
  obtain rfl := hb'.symm.trans hb
  constructor
  · intro h
    by_contra hn
    have hc : b.message.channelClosed = true := by simpa using hn
    have hleaves := h.leaves
    rw [hexc] at hleaves
    simp [exit, final, exc?, contextExit_closed hc hu] at hleaves
  · intro hc
    refine ⟨?_, fun _ => hc⟩
    rw [hexc]
    simp only [exc?, final, Option.isSome_some]
    rw [exit_settles hc (Or.inr hu), settle_unprocessed hack htag verdict_supported hc hu]
    rfl

/-- The body raises on an open channel. -/
theorem error_kept : KeepsError "failed" (delivered Message.delivered)
    (process Message.delivered (fun _ => true) ⟨true, false, false⟩ (.raises "failed")
      (delivered Message.delivered)) :=
  (process_keeps_error_iff rfl (by decide) rfl rfl).mpr rfl

/-- The channel is closed, and the body raises; the second message was redelivered. -/
theorem error_hidden :
    exc? (process ⟨false, some 1, false, true⟩ (fun _ => true) ⟨true, true, true⟩
      (.channelClosed (.raises "failed")) (delivered ⟨false, some 1, false, true⟩)) =
      some (.exit .channelInvalidState) ∧
    exc? (process ⟨false, some 1, true, true⟩ (fun _ => true) ⟨true, true, true⟩
      (.channelClosed (.raises "failed")) (delivered ⟨false, some 1, true, true⟩)) =
      some (.exit .channelInvalidState) :=
  ⟨rfl, rfl⟩

end AioPika.Processing
