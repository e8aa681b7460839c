import AioPika.Foundation.Runs
import AioPika.Master.Delivery

/-! # The steps of a task

`on_message` gives control away while the worker runs, and while a frame of it
is sent. What it does between is one step; its channel may be lost before any of
them.
-/

namespace AioPika.Tasks

open Message (IncomingMessage Frame ProcessContext)

inductive Pc (V : Type) where
  /-- `on_message` has not started. -/
  | scheduled
  /-- `await func(**kwargs)` -/
  | running (kwargs : V)
  /-- `await message.reject(...)` or `await message.nack(...)` -/
  | settling (call : ℕ)
  /-- `__aexit__` awaits its call. -/
  | exiting (call : ℕ)
  | done
  /-- `on_message` was cancelled before it has started. -/
  | cancelled
  deriving DecidableEq, Repr

/-- A run of `on_message`. -/
structure Job (V : Type) where
  message : IncomingMessage
  state : Message.State
  pc : Pc V
  /-- How the worker has ended. -/
  result : Option (Except Exc Unit)

inductive Event where
  | begin
  /-- It is cancelled before it has started. -/
  | cancel
  | finish (result : Except Exc Unit)
  /-- The await of a frame is over. -/
  | awaited (sent : Bool)

variable {B V : Type} (objects : Objects V) (master : Master B V)

namespace Job

variable (job : Job V)

def act (a : Message.Action) : Job V :=
  { job with state := (Message.step job.message job.state a).getD job.state }

/-- `__aexit__`, up to its await -/
def exit (raised : Bool) : Job V :=
  let t := job.act (.exit master.context raised)
  match t.state.calls[job.state.calls.length]? with
  | some ⟨_, .sending⟩ => { t with pc := .exiting job.state.calls.length }
  | _ => { t with pc := .done }

/-- `message.reject` and `message.nack` in the `except` clauses. -/
def settle (frame : Frame) : Job V :=
  let t := job.act (.call frame)
  match t.state.calls[job.state.calls.length]? with
  | some ⟨_, .sending⟩ => { t with pc := .settling job.state.calls.length }
  | some ⟨_, .raised _⟩ => t.exit master true
  | _ => t.exit master false

/-- The `except` clauses of `on_message`. -/
def caught : Exc → Job V
  | .rejectMessage requeue => job.settle master (.reject requeue)
  | .nackMessage requeue => job.settle master (.nack false requeue)
  | .settlement _ | .cancelledError | .other => job.exit master true

/-- `deserialize` and `execute`, up to the await of the worker -/
def begin (body : B) : Job V :=
  match master.deserialize body with
  | .error exc => job.caught master exc
  | .ok payload =>
    if objects.isDict (objects.kwargs payload) then
      { job with pc := .running (objects.kwargs payload) }
    else job.caught master (.rejectMessage false)

def finish (result : Except Exc Unit) : Job V :=
  let t := { job with result := some result }
  match result with
  | .ok () => t.exit master false
  | .error exc => t.caught master exc

/-- The await of call `i` is over. -/
def awaited (i : ℕ) (sent : Bool) : Job V := job.act (if sent then .sent i else .failed i)

def step (body : B) : Event → Option (Job V)
  | .begin =>
    match job.pc with
    | .scheduled => some (job.begin objects master body)
    | _ => none
  | .cancel =>
    match job.pc with
    | .scheduled => some { job with pc := .cancelled }
    | _ => none
  | .finish result =>
    match job.pc with
    | .running _ => some (job.finish master result)
    | _ => none
  | .awaited sent =>
    match job.pc with
    | .settling i => some ((job.awaited i sent).exit master (!sent))
    | .exiting i => some { job.awaited i sent with pc := .done }
    | _ => none

end Job

/-- How the message is settled, as the worker has ended, if it was called. -/
inductive Decided (message : IncomingMessage) (body : B) :
    Option (Except Exc Unit) → Frame → Prop
  | executed {result : Except Exc Unit} {frame : Frame} (hr : Runs objects master body)
      (hv : Verdict objects master message (fun _ => result) body frame) :
      Decided message body (some result) frame
  | unfit {frame : Frame} (hr : ¬ Runs objects master body)
      (hv : Verdict objects master message (fun _ => .ok ()) body frame) :
      Decided message body none frame

def unsettled (closed : Bool) : Message.State := ⟨false, closed, [], []⟩

def sending (closed : Bool) (frame : Frame) : Message.State :=
  ⟨false, closed, [⟨frame, .sending⟩], [frame]⟩

/-- What the stage of a job says about its message. -/
def Job.Stage (body : B) (job : Job V) : Prop :=
  match job.pc with
  | .scheduled | .cancelled =>
    job.state = unsettled job.state.channelClosed ∧ job.result = none
  | .running kwargs => job.state = unsettled job.state.channelClosed ∧ job.result = none ∧
      ∃ payload, master.deserialize body = .ok payload ∧ objects.Callable payload ∧
        kwargs = objects.kwargs payload
  | .settling i | .exiting i => i = 0 ∧ ∃ frame, job.state = sending job.state.channelClosed frame ∧
      Decided objects master job.message body job.result frame
  | .done => job.state.frames = [] ∧ job.state.channelClosed = true ∨
      ∃ frame, job.state.frames = [frame] ∧
        Decided objects master job.message body job.result frame ∧
          (job.state.channelClosed = false → job.state = settled frame)

/-- What a job comes to that settles its message, or tries to. -/
inductive Job.Concludes (job : Job V) (frame : Frame) : Job V → Prop
  | lost {calls : List Message.Call} (hc : job.state.channelClosed = true) :
      Concludes job frame { job with state := { job.state with calls := calls }, pc := .done }
  | settling (hc : job.state.channelClosed = false) :
      Concludes job frame { job with state := sending false frame, pc := .settling 0 }
  | exiting (hc : job.state.channelClosed = false) :
      Concludes job frame { job with state := sending false frame, pc := .exiting 0 }

variable {objects master} {body : B} {job t : Job V} {frame : Frame} {raised : Bool} {exc : Exc}

section Steps

variable (hack : job.message.noAck = false) (htag : job.message.deliveryTag.getD 0 ≠ 0)

include hack htag

theorem call_lost {s : Message.State} (hc : s.channelClosed = true) :
    ∃ exc, s.call job.message frame = s.start frame (.raised exc) := by
  have hsettle : ∀ text, ∃ exc, s.settle job.message frame text = s.start frame (.raised exc) := by
    intro text
    cases ht : job.message.deliveryTag with
    | none => simp [ht] at htag
    | some tag =>
      by_cases hp : s.processed = true
      · exact ⟨_, Message.settle_processed hack hp⟩
      · exact ⟨.channelInvalidState, by simp [Message.State.settle, hack, hp, hc, ht]⟩
  cases frame with
  | ack => exact hsettle _
  | reject => exact hsettle _
  | nack => exact ⟨.channelInvalidState, by simp [Message.State.call, Message.State.nack, hc]⟩

theorem exit_lost (hc : job.state.channelClosed = true) :
    ∃ calls, job.exit master raised =
      { job with state := { job.state with calls := calls }, pc := .done } := by
  have hstep : ∃ calls, (job.act (.exit master.context raised)).state =
      { job.state with calls := calls } ∧ ∀ call ∈ calls[job.state.calls.length]?,
        call.pc ≠ .sending := by
    simp only [Job.act, Message.step]
    split
    · rename_i f _
      obtain ⟨exc, he⟩ := @call_lost _ _ f hack htag _ hc
      rw [he]
      exact ⟨_, rfl, by simp⟩
    · exact ⟨job.state.calls, rfl, by simp⟩
    · exact ⟨job.state.calls, rfl, by simp⟩
  obtain ⟨calls, hcalls, hpc⟩ := hstep
  refine ⟨calls, ?_⟩
  simp only [Job.exit, hcalls]
  split
  · rename_i heq
    exact absurd rfl (hpc _ heq)
  · simp only [Job.act] at hcalls ⊢

theorem settle_lost (hc : job.state.channelClosed = true) :
    ∃ calls, job.settle master frame =
      { job with state := { job.state with calls := calls }, pc := .done } := by
  obtain ⟨exc, he⟩ := @call_lost _ _ frame hack htag _ hc
  have hact : job.act (.call frame) =
      { job with state := job.state.start frame (.raised exc) } := by
    simp only [Job.act, Message.step, he, Option.getD_some]
  have hcall : (job.state.start frame (.raised exc)).calls[job.state.calls.length]? =
      some ⟨frame, .raised exc⟩ := by
    simp [Message.State.start]
  simp only [Job.settle, hact, hcall]
  let j : Job V := { job with state := job.state.start frame (.raised exc) }
  exact @exit_lost _ _ master j true hack htag hc

theorem exit_concludes (hs : job.state = unsettled job.state.channelClosed) :
    job.Concludes (if raised then master.fallback job.message else .ack false)
      (job.exit master raised) := by
  cases hc : job.state.channelClosed with
  | true =>
    obtain ⟨calls, he⟩ := @exit_lost _ _ master _ raised hack htag hc
    rw [he]
    exact .lost hc
  | false =>
    rw [hc] at hs
    have hframe : ∃ f, master.context.exit job.message (unsettled false) raised = .ok (some f) ∧
        f.Supported job.message ∧
        f = if raised then master.fallback job.message else .ack false := by
      cases raised with
      | false => exact ⟨_, rfl, trivial, rfl⟩
      | true =>
        simp only [ProcessContext.exit, Master.context, Master.fallback, unsettled]
        by_cases hr : master.rejectOnRedelivered = true ∧ job.message.redelivered = true
        · simp [hr, Frame.Supported]
        · simp [hr, Frame.Supported]
    obtain ⟨f, hf, hsup, rfl⟩ := hframe
    obtain ⟨text, hcall⟩ := Message.call_settle (s := unsettled false) rfl hsup
    have hact : (job.act (.exit master.context raised)).state = sending false
        (if raised then master.fallback job.message else .ack false) := by
      simp only [Job.act, Message.step, hs, hf, Option.getD_some]
      rw [hcall, Message.settle_sending hack htag rfl rfl]
      rfl
    have he : job.exit master raised = { job with
        state := sending false (if raised then master.fallback job.message else .ack false)
        pc := .exiting 0 } := by
      simp only [Job.exit, hact]
      simp [hs, unsettled, sending, Job.act] at hact ⊢
    rw [he]
    exact .exiting hc

theorem settle_concludes (hs : job.state = unsettled job.state.channelClosed)
    (hf : frame.Supported job.message) : job.Concludes frame (job.settle master frame) := by
  cases hc : job.state.channelClosed with
  | true =>
    obtain ⟨calls, he⟩ := @settle_lost _ _ master _ frame hack htag hc
    rw [he]
    exact .lost hc
  | false =>
    rw [hc] at hs
    obtain ⟨text, hcall⟩ := Message.call_settle (s := unsettled false) rfl hf
    have hact : job.act (.call frame) = { job with state := sending false frame } := by
      simp only [Job.act, Message.step, hs, Option.getD_some]
      rw [hcall, Message.settle_sending hack htag rfl rfl]
      rfl
    have he : job.settle master frame = { job with
        state := sending false frame
        pc := .settling 0 } := by
      simp only [Job.settle, hact]
      simp [hs, unsettled, sending]
    rw [he]
    exact .settling hc

theorem caught_concludes (hnack : job.message.basicNack = true)
    (hs : job.state = unsettled job.state.channelClosed) :
    job.Concludes (master.verb job.message exc) (job.caught master exc) := by
  cases exc with
  | rejectMessage requeue => exact settle_concludes hack htag hs trivial
  | nackMessage requeue => exact settle_concludes hack htag hs hnack
  | settlement | cancelledError | other =>
    exact @exit_concludes _ _ _ _ true hack htag hs

end Steps

/-- What a step of a job leaves as it was, and what it may send. -/
structure Job.Next (objects : Objects V) (master : Master B V) (body : B) (job t : Job V) :
    Prop where
  message : t.message = job.message
  channel : t.state.channelClosed = job.state.channelClosed
  stage : t.Stage objects master body
  frames : t.state.frames = job.state.frames ∨ job.state.channelClosed = false ∧
    job.state.frames = [] ∧ ∃ frame, t.state.frames = [frame] ∧
      Decided objects master job.message body t.result frame

theorem Job.Concludes.next (h : job.Concludes frame t)
    (hs : job.state = unsettled job.state.channelClosed)
    (hd : Decided objects master job.message body job.result frame) :
    job.Next objects master body t := by
  have hframes : job.state.frames = [] := by
    rw [hs]
    rfl
  cases h with
  | lost hc =>
    exact ⟨rfl, rfl, Or.inl ⟨hframes, hc⟩, Or.inl rfl⟩
  | settling hc | exiting hc =>
    exact ⟨rfl, hc.symm, ⟨rfl, frame, rfl, hd⟩, Or.inr ⟨hc, hframes, frame, rfl, hd⟩⟩

/-- As long as the channel lasts, what is sent gets through. -/
def Event.Steady (job : Job V) : Event → Prop
  | .awaited sent => sent = false → job.state.channelClosed = true
  | .begin | .cancel | .finish _ => True

instance (job : Job V) : DecidablePred (Event.Steady job)
  | .awaited sent => inferInstanceAs (Decidable (sent = false → job.state.channelClosed = true))
  | .begin | .cancel | .finish _ => .isTrue trivial

theorem awaited_sent {closed : Bool} (hs : job.state = sending closed frame) :
    job.awaited 0 true =
      { job with state := ⟨true, closed, [⟨frame, .returned⟩], [frame]⟩ } := by
  simp [Job.awaited, Job.act, Message.step, hs, sending, Message.State.setPc]

theorem awaited_failed {closed : Bool} (hs : job.state = sending closed frame) :
    job.awaited 0 false =
      { job with state := ⟨false, closed, [⟨frame, .raised .send⟩], [frame]⟩ } := by
  simp [Job.awaited, Job.act, Message.step, hs, sending, Message.State.setPc]

theorem exit_processed {closed : Bool}
    (hs : job.state = ⟨true, closed, [⟨frame, .returned⟩], [frame]⟩) :
    job.exit master raised = { job with pc := .done } := by
  have hact : job.act (.exit master.context raised) = job := by
    obtain ⟨message, state, pc, result⟩ := job
    obtain rfl : state = _ := hs
    cases raised <;> rfl
  simp only [Job.exit, hact]
  simp [hs]

/-- What one step of a job comes to. -/
theorem step_next {e : Event} (hack : job.message.noAck = false)
    (htag : job.message.deliveryTag.getD 0 ≠ 0) (hnack : job.message.basicNack = true)
    (hstage : job.Stage objects master body) (he : e.Steady job)
    (hs : job.step objects master body e = some t) : job.Next objects master body t := by
  cases e with
  | begin =>
    simp only [Job.step] at hs
    split at hs
    · rename_i hpc
      obtain rfl := Option.some.inj hs
      rw [Job.Stage, hpc] at hstage
      obtain ⟨hstate, hresult⟩ := hstage
      unfold Job.begin
      split
      · rename_i exc hd
        refine (caught_concludes hack htag hnack hstate).next hstate ?_
        rw [hresult]
        refine .unfit ?_ (.undecoded hd)
        rintro ⟨payload, hd', -⟩
        cases hd.symm.trans hd'
      · rename_i payload hd
        split
        · rename_i hdict
          refine ⟨rfl, rfl, ?_, Or.inl rfl⟩
          exact ⟨hstate, hresult, payload, hd, callable_iff.mp hdict, rfl⟩
        · rename_i hdict
          refine (caught_concludes hack htag hnack hstate).next hstate ?_
          rw [hresult]
          refine .unfit ?_ (.badPayload hd (mt callable_iff.mpr hdict))
          rintro ⟨payload', hd', hp'⟩
          obtain rfl := Except.ok.inj (hd.symm.trans hd')
          exact hdict (callable_iff.mpr hp')
    · cases hs
  | cancel =>
    simp only [Job.step] at hs
    split at hs
    · rename_i hpc
      obtain rfl := Option.some.inj hs
      rw [Job.Stage, hpc] at hstage
      obtain ⟨hstate, hresult⟩ := hstage
      exact ⟨rfl, rfl, ⟨hstate, hresult⟩, Or.inl rfl⟩
    · cases hs
  | finish result =>
    simp only [Job.step] at hs
    split at hs
    · rename_i kwargs hpc
      obtain rfl := Option.some.inj hs
      rw [Job.Stage, hpc] at hstage
      obtain ⟨hstate, -, payload, hd, hp, rfl⟩ := hstage
      have hruns : Runs objects master body := ⟨payload, hd, hp⟩
      cases result with
      | ok u =>
        let j : Job V := { job with result := some (.ok u) }
        have hexit : j.Concludes (.ack false) (j.exit master false) :=
          @exit_concludes _ _ master j false hack htag hstate
        have hnext := hexit.next hstate (.executed hruns (.returned hd hp rfl))
        exact ⟨hnext.message, hnext.channel, hnext.stage, hnext.frames⟩
      | error exc =>
        let j : Job V := { job with result := some (.error exc) }
        have hcaught : j.Concludes (master.verb j.message exc) (j.caught master exc) :=
          caught_concludes hack htag hnack hstate
        have hnext := hcaught.next hstate (.executed hruns (.raised hd hp rfl))
        exact ⟨hnext.message, hnext.channel, hnext.stage, hnext.frames⟩
    · cases hs
  | awaited sent =>
    simp only [Job.step] at hs
    split at hs
    · rename_i i hpc
      obtain rfl := Option.some.inj hs
      rw [Job.Stage, hpc] at hstage
      obtain ⟨rfl, frame, hstate, hd⟩ := hstage
      have hframes : job.state.frames = [frame] := by
        rw [hstate]
        rfl
      cases sent with
      | true =>
        rw [awaited_sent hstate, exit_processed rfl]
        refine ⟨rfl, rfl, Or.inr ⟨frame, rfl, hd, fun hopen => ?_⟩, Or.inl hframes.symm⟩
        simp only [show job.state.channelClosed = false from hopen]
        rfl
      | false =>
        have hc : job.state.channelClosed = true := he rfl
        rw [awaited_failed hstate]
        let j : Job V := { job with state :=
          ⟨false, job.state.channelClosed, [⟨frame, .raised .send⟩], [frame]⟩ }
        obtain ⟨calls, hexit⟩ := @exit_lost _ _ master j true hack htag hc
        rw [show j.exit master (!false) = _ from hexit]
        refine ⟨rfl, rfl, Or.inr ⟨frame, rfl, hd, fun hopen => ?_⟩, Or.inl hframes.symm⟩
        rw [show job.state.channelClosed = false from hopen] at hc
        cases hc
    · rename_i i hpc
      obtain rfl := Option.some.inj hs
      rw [Job.Stage, hpc] at hstage
      obtain ⟨rfl, frame, hstate, hd⟩ := hstage
      have hframes : job.state.frames = [frame] := by
        rw [hstate]
        rfl
      cases sent with
      | true =>
        rw [awaited_sent hstate]
        refine ⟨rfl, rfl, Or.inr ⟨frame, rfl, hd, fun hopen => ?_⟩, Or.inl hframes.symm⟩
        simp only [show job.state.channelClosed = false from hopen]
        rfl
      | false =>
        have hc : job.state.channelClosed = true := he rfl
        rw [awaited_failed hstate]
        refine ⟨rfl, rfl, Or.inr ⟨frame, rfl, hd, fun hopen => ?_⟩, Or.inl hframes.symm⟩
        rw [show job.state.channelClosed = false from hopen] at hc
        cases hc
    · cases hs

theorem Job.Stage.lost (h : job.Stage objects master body) :
    Job.Stage objects master body
      { job with state := { job.state with channelClosed := true } } := by
  obtain ⟨message, state, pc, result⟩ := job
  cases pc with
  | scheduled | cancelled =>
    obtain ⟨hstate, hresult⟩ := h
    exact ⟨congrArg (fun s : Message.State => { s with channelClosed := true }) hstate, hresult⟩
  | running kwargs =>
    obtain ⟨hstate, hrest⟩ := h
    exact ⟨congrArg (fun s : Message.State => { s with channelClosed := true }) hstate, hrest⟩
  | settling i | exiting i =>
    obtain ⟨hi, frame, hstate, hd⟩ := h
    have hlost := congrArg (fun s : Message.State => { s with channelClosed := true }) hstate
    exact ⟨hi, frame, hlost, hd⟩
  | done =>
    rcases h with ⟨hframes, -⟩ | ⟨frame, hframes, hd, -⟩
    · exact Or.inl ⟨hframes, rfl⟩
    · exact Or.inr ⟨frame, hframes, hd, nofun⟩

/-- What is sent for a job is what was decided, once. -/
theorem Job.Stage.frames (h : job.Stage objects master body) : job.state.frames = [] ∨
    ∃ frame, job.state.frames = [frame] ∧
      Decided objects master job.message body job.result frame := by
  obtain ⟨message, state, pc, result⟩ := job
  cases pc with
  | scheduled | cancelled | running =>
    obtain ⟨hstate, -⟩ := h
    exact Or.inl (congrArg Message.State.frames hstate)
  | settling | exiting =>
    obtain ⟨-, frame, hstate, hd⟩ := h
    exact Or.inr ⟨frame, congrArg Message.State.frames hstate, hd⟩
  | done =>
    rcases h with ⟨hframes, -⟩ | ⟨frame, hframes, hd, -⟩
    · exact Or.inl hframes
    · exact Or.inr ⟨frame, hframes, hd⟩

@[simp] theorem exit_result : (job.exit master raised).result = job.result := by
  simp only [Job.exit]
  split <;> rfl

@[simp] theorem caught_result : (job.caught master exc).result = job.result := by
  have hsettle : ∀ frame, (job.settle master frame).result = job.result := by
    intro frame
    simp only [Job.settle]
    split
    · rfl
    · exact exit_result
    · exact exit_result
  cases exc with
  | rejectMessage | nackMessage => exact hsettle _
  | settlement | cancelledError | other => exact exit_result

/-- The result of a job is that of its worker. -/
theorem result_step {e : Event} (hs : job.step objects master body e = some t) :
    t.result = job.result ∨
      ∃ result kwargs, e = .finish result ∧ job.pc = .running kwargs ∧ t.result = some result := by
  cases e with
  | begin =>
    simp only [Job.step] at hs
    split at hs
    · obtain rfl := Option.some.inj hs
      refine Or.inl ?_
      unfold Job.begin
      split
      · exact caught_result
      · split
        · rfl
        · exact caught_result
    · cases hs
  | cancel =>
    simp only [Job.step] at hs
    split at hs
    · obtain rfl := Option.some.inj hs
      exact Or.inl rfl
    · cases hs
  | finish result =>
    simp only [Job.step] at hs
    split at hs
    · rename_i kwargs hpc
      obtain rfl := Option.some.inj hs
      refine Or.inr ⟨result, kwargs, rfl, hpc, ?_⟩
      cases result with
      | ok => exact exit_result
      | error => exact caught_result
    · cases hs
  | awaited sent =>
    simp only [Job.step] at hs
    split at hs
    · obtain rfl := Option.some.inj hs
      exact Or.inl exit_result
    · obtain rfl := Option.some.inj hs
      exact Or.inl rfl
    · cases hs

section Alone

variable {message : IncomingMessage} {func : V → Except Exc Unit}

/-- `on_message` settles a task as its verdict says. -/
theorem onMessage_settled (hack : message.noAck = false) (htag : message.deliveryTag.getD 0 ≠ 0)
    (hnack : message.basicNack = true) : ∃ frame executed,
    final (onMessage objects master message (fun _ => true) func body (delivery message)) =
      ⟨settled frame, executed⟩ ∧ Verdict objects master message func body frame := by
  cases hd : master.deserialize body with
  | error exc =>
    exact ⟨_, _, process_caught hack htag rfl hnack (attempt_undecoded hd), .undecoded hd⟩
  | ok payload =>
    by_cases hp : objects.Callable payload
    · cases hf : func (objects.kwargs payload) with
      | ok u =>
        exact ⟨_, _, process_returned hack htag rfl (attempt_returned hd hp hf), .returned hd hp hf⟩
      | error exc =>
        exact ⟨_, _, process_caught hack htag rfl hnack (attempt_raised hd hp hf), .raised hd hp hf⟩
    · exact ⟨_, _, process_caught hack htag rfl hnack (attempt_badPayload hd hp), .badPayload hd hp⟩

/-- The worker ends as its function says, and what is sent gets through. -/
def Follows (func : V → Except Exc Unit) (job : Job V) : Event → Prop
  | .finish result => ∀ kwargs, job.pc = .running kwargs → result = func kwargs
  | .awaited sent => sent = true
  | .begin => True
  | .cancel => False

theorem Verdict.congr {result : Except Exc Unit} {payload : V}
    (hd : master.deserialize body = .ok payload) (hf : func (objects.kwargs payload) = result)
    (h : Verdict objects master message (fun _ => result) body frame) :
    Verdict objects master message func body frame := by
  cases h with
  | returned hd' hp hr =>
    obtain rfl := Except.ok.inj (hd.symm.trans hd')
    exact .returned hd hp (hf.trans hr)
  | raised hd' hp hr =>
    obtain rfl := Except.ok.inj (hd.symm.trans hd')
    exact .raised hd hp (hf.trans hr)
  | badPayload hd' hp => exact .badPayload hd' hp
  | undecoded hd' => exact .undecoded hd'

/-- A task that nothing else happens to: taken together, the steps of its job are `on_message`. -/
theorem job_onMessage {es : List Event} (hack : message.noAck = false)
    (htag : message.deliveryTag.getD 0 ≠ 0) (hnack : message.basicNack = true)
    (hr : Transition.Run (fun job e => job.step objects master body e) (Follows func)
      ⟨message, Message.fresh message, .scheduled, none⟩ es t) (hdone : t.pc = .done) :
    t.state = (final
      (onMessage objects master message (fun _ => true) func body (delivery message))).message := by
  have hinv : (t.message = message ∧ t.state.channelClosed = false ∧ t.Stage objects master body) ∧
      ∀ result, t.result = some result → ∃ payload, master.deserialize body = .ok payload ∧
        func (objects.kwargs payload) = result := by
    refine hr.invariant (I := fun t => (t.message = message ∧ t.state.channelClosed = false ∧
      t.Stage objects master body) ∧ ∀ result, t.result = some result → ∃ payload,
        master.deserialize body = .ok payload ∧ func (objects.kwargs payload) = result) ?_ ?_
    · rintro job e t ⟨⟨rfl, hopen, hstage⟩, hresult⟩ hf hs
      have hsteady : e.Steady job := by
        cases e with
        | awaited sent =>
          obtain rfl : sent = true := hf
          exact nofun
        | _ => trivial
      have hnext := step_next hack htag hnack hstage hsteady hs
      refine ⟨⟨hnext.message, hnext.channel.trans hopen, hnext.stage⟩, fun result hres => ?_⟩
      rcases result_step hs with hsame | ⟨result', kwargs, rfl, hpc, hres'⟩
      · exact hresult result (hsame ▸ hres)
      · obtain rfl := Option.some.inj (hres.symm.trans hres')
        rw [Job.Stage, hpc] at hstage
        obtain ⟨-, -, payload, hd, -, rfl⟩ := hstage
        exact ⟨payload, hd, (hf _ hpc).symm⟩
    · refine ⟨⟨rfl, rfl, ?_, rfl⟩, nofun⟩
      exact fresh_eq hack htag
  obtain ⟨⟨hmessage, hopen, hstage⟩, hresult⟩ := hinv
  obtain ⟨frame, executed, hfinal, hverdict⟩ :=
    @onMessage_settled _ _ objects master body _ func hack htag hnack
  rw [Job.Stage, hdone, hmessage] at hstage
  rcases hstage with ⟨-, hclosed⟩ | ⟨frame', -, hd, hsettled⟩
  · rw [hopen] at hclosed
    cases hclosed
  · have hverdict' : Verdict objects master message func body frame' := by
      cases hres : t.result with
      | none =>
        rw [hres] at hd
        cases hd with
        | unfit hruns hv =>
          cases hv with
          | returned hd hp | raised hd hp => exact absurd ⟨_, hd, hp⟩ hruns
          | badPayload hd hp => exact .badPayload hd hp
          | undecoded hd => exact .undecoded hd
      | some result =>
        obtain ⟨payload, hpayload, hf⟩ := hresult result hres
        rw [hres] at hd
        cases hd with
        | executed hruns hv => exact hv.congr hpayload hf
    rw [hfinal, hsettled hopen, hverdict.unique hverdict']

/-- The worker wants the task back. -/
theorem nacked_in_steps : ∃ t, Transition.Run
    (fun job e => job.step flags ⟨true, true, .ok⟩ (true, true) e)
    (Follows fun _ => .error (.nackMessage true))
    ⟨Message.delivered, Message.fresh Message.delivered, .scheduled, none⟩
    [.begin, .finish (.error (.nackMessage true)), .awaited true] t ∧
    t.state = (final (onMessage flags ⟨true, true, .ok⟩ Message.delivered (fun _ => true)
      (fun _ => .error (.nackMessage true)) (true, true) (delivery Message.delivered))).message :=
  have hr := .cons trivial rfl (.cons (fun _ _ => rfl) rfl (.cons rfl rfl (.nil _)))
  ⟨_, hr, job_onMessage rfl (by decide) rfl hr rfl⟩

end Alone

end AioPika.Tasks
