import AioPika.Foundation.Members
import AioPika.Foundation.Runs
import Mathlib.Tactic.Simps.Basic

/-! # Settling a message

`ack`, `reject` and `nack` test that the message is not processed, await that
their frame is sent, and mark the message as processed. The exits of
`process()` call them. A call that starts during the await of another one passes
the test as well.
-/

namespace AioPika.Message

/-- `IncomingMessage`, with what the server of its connection supports. -/
structure IncomingMessage where
  noAck : Bool
  deliveryTag : Option ℕ
  redelivered : Bool
  /-- `channel.connection.basic_nack` -/
  basicNack : Bool
  deriving DecidableEq, Repr

inductive Frame where
  | ack (multiple : Bool)
  | reject (requeue : Bool)
  | nack (multiple requeue : Bool)
  deriving DecidableEq, Repr

inductive Exc where
  | typeError (text : String)
  | messageProcessError (text : String)
  | runtimeError (text : String)
  | channelInvalidState
  /-- The await of the send raises. -/
  | send
  deriving DecidableEq, Repr

inductive Pc where
  /-- `await self.channel.basic_…(...)` -/
  | sending
  | returned
  | raised (exc : Exc)
  deriving DecidableEq, Repr

/-- A call of `ack`, `reject` or `nack`. -/
structure Call where
  frame : Frame
  pc : Pc
  deriving DecidableEq, Repr

structure State where
  /-- `__processed` -/
  processed : Bool
  /-- `__channel.is_closed` -/
  channelClosed : Bool
  calls : List Call
  /-- The frames whose send was started. -/
  frames : List Frame
  deriving DecidableEq, Repr

/-- `ProcessContext` -/
structure ProcessContext where
  requeue : Bool
  rejectOnRedelivered : Bool
  ignoreProcessed : Bool
  deriving DecidableEq, Repr

inductive Action where
  /-- A call of the user. -/
  | call (frame : Frame)
  /-- The exit of a `process()` block, which may have raised. -/
  | exit (context : ProcessContext) (raised : Bool)
  /-- The await of a call is over. -/
  | sent (call : ℕ)
  /-- The await of a call raises, or is cancelled. -/
  | failed (call : ℕ)
  | channelClosed
  deriving DecidableEq, Repr

variable (message : IncomingMessage)

/-- `__init__` -/
def fresh : State :=
  ⟨decide (message.noAck = true ∨ message.deliveryTag.getD 0 = 0), false, [], []⟩

namespace State

variable (s : State)

def start (frame : Frame) (pc : Pc) : State := { s with calls := s.calls ++ [⟨frame, pc⟩] }

def setPc (i : ℕ) (frame : Frame) (pc : Pc) : State :=
  { s with calls := s.calls.set i ⟨frame, pc⟩ }

/-- What the three operations do up to their await; `noAckText` is their text for messages that
need no acknowledgement. -/
def settle (frame : Frame) (noAckText : String) : State :=
  if message.noAck then s.start frame (.raised (.typeError noAckText))
  else if s.processed then
    s.start frame (.raised (.messageProcessError "Message already processed"))
  else
    match message.deliveryTag with
    | some _ =>
      if s.channelClosed then s.start frame (.raised .channelInvalidState)
      else State.start { s with frames := s.frames ++ [frame] } frame .sending
    | none => State.start { s with processed := true } frame .returned

def ack (multiple : Bool) : State :=
  s.settle message (.ack multiple) "Can't ack message with \"no_ack\" flag"

def reject (requeue : Bool) : State :=
  s.settle message (.reject requeue) "This message has \"no_ack\" flag."

/-- `nack` looks at the channel and at its server first. -/
def nack (multiple requeue : Bool) : State :=
  if s.channelClosed then s.start (.nack multiple requeue) (.raised .channelInvalidState)
  else if message.basicNack = false then
    s.start (.nack multiple requeue) (.raised (.runtimeError "Method not supported on server"))
  else s.settle message (.nack multiple requeue) "Can't nack message with \"no_ack\" flag"

def call : Frame → State
  | .ack multiple => s.ack message multiple
  | .reject requeue => s.reject message requeue
  | .nack multiple requeue => s.nack message multiple requeue

end State

/-- What `__aexit__` calls. The `channel` property raises when the channel is closed. -/
def ProcessContext.exit (context : ProcessContext) (s : State) (raised : Bool) :
    Except Exc (Option Frame) :=
  if raised = false then
    if context.ignoreProcessed = false ∨ s.processed = false then .ok (some (.ack false))
    else .ok none
  else if context.ignoreProcessed = false ∨ s.processed = false then
    if context.rejectOnRedelivered = true ∧ message.redelivered = true then
      if s.channelClosed then .error .channelInvalidState else .ok (some (.reject false))
    else if s.channelClosed then .error .channelInvalidState
    else .ok (some (.reject context.requeue))
  else .ok none

def step (s : State) : Action → Option State
  | .call frame => some (s.call message frame)
  | .exit context raised =>
    match context.exit message s raised with
    | .ok (some frame) => some (s.call message frame)
    | .ok none | .error _ => some s
  | .sent i =>
    match s.calls[i]? with
    | some ⟨frame, .sending⟩ => some (State.setPc { s with processed := true } i frame .returned)
    | _ => none
  | .failed i =>
    match s.calls[i]? with
    | some ⟨frame, .sending⟩ => some (s.setPc i frame (.raised .send))
    | _ => none
  | .channelClosed => some { s with channelClosed := true }

/-- `MessageProcessError("Message already processed", self)` -/
def alreadyProcessed : Pc := .raised (.messageProcessError "Message already processed")

/-- The call has passed the tests, and its frame is sent. -/
def Call.Sent (c : Call) : Prop := c.pc = .sending ∨ c.pc = .returned

/-- One frame at most is sent, and all calls but the one that has sent it raise
`MessageProcessError`. -/
structure SettledOnce (s : State) : Prop where
  frames : s.frames.length ≤ 1
  sender : ∀ (i j : ℕ) (c d : Call), s.calls[i]? = some c → s.calls[j]? = some d →
    c.Sent → d.Sent → i = j
  others : ∀ c ∈ s.calls, ¬ c.Sent → c.pc = alreadyProcessed

/-- Only `nack` needs the support of the server. -/
def Frame.Supported : Frame → Prop
  | .nack _ _ => message.basicNack = true
  | .ack _ | .reject _ => True

instance : DecidablePred (Frame.Supported message)
  | .nack _ _ => inferInstanceAs (Decidable (message.basicNack = true))
  | .ack _ | .reject _ => .isTrue trivial

/-- The channel stays open, and every send that was started succeeds. -/
def Action.Undisturbed : Action → Prop
  | .failed _ | .channelClosed => False
  | .call _ | .exit _ _ | .sent _ => True

instance : DecidablePred Action.Undisturbed
  | .failed _ | .channelClosed => .isFalse id
  | .call _ | .exit _ _ | .sent _ => .isTrue trivial

def Quiet (s : State) : Prop := ∀ c ∈ s.calls, c.pc ≠ .sending

/-- A message that is not processed is settled while no send of it is in progress, and `nack` is
called where the server supports it. -/
def Alone (s : State) : Action → Prop
  | .call frame => frame.Supported message ∧ (s.processed = false → Quiet s)
  | .exit _ _ => s.processed = false → Quiet s
  | _ => True

structure Inv (s : State) : Prop where
  channel : s.channelClosed = false
  sent : ∀ c ∈ s.calls, c.Sent → s.frames ≠ []
  frames : s.frames ≠ [] → s.processed = true ∨ ∃ c ∈ s.calls, c.pc = .sending

variable {message} {s t : State} {a : Action} {frame : Frame} {text : String} {i : ℕ}

theorem settle_processed (hack : message.noAck = false) (hp : s.processed = true) :
    s.settle message frame text = s.start frame alreadyProcessed := by
  simp [State.settle, hack, hp, alreadyProcessed]

theorem settle_sending (hack : message.noAck = false) (htag : message.deliveryTag.getD 0 ≠ 0)
    (hc : s.channelClosed = false) (hp : s.processed = false) :
    s.settle message frame text =
      State.start { s with frames := s.frames ++ [frame] } frame .sending := by
  cases ht : message.deliveryTag with
  | none => simp [ht] at htag
  | some tag => simp [State.settle, hack, hp, hc, ht]

theorem call_settle (hc : s.channelClosed = false) (hf : frame.Supported message) :
    ∃ text, s.call message frame = s.settle message frame text := by
  cases frame with
  | ack multiple => exact ⟨_, rfl⟩
  | reject requeue => exact ⟨_, rfl⟩
  | nack multiple requeue =>
    have hf : message.basicNack = true := hf
    refine ⟨"Can't nack message with \"no_ack\" flag", ?_⟩
    simp [State.call, State.nack, hc, hf]

theorem call_unsupported (hc : s.channelClosed = false) (hf : ¬ frame.Supported message) :
    s.call message frame =
      s.start frame (.raised (.runtimeError "Method not supported on server")) := by
  cases frame with
  | nack multiple requeue =>
    have hf : message.basicNack = false := by simpa [Frame.Supported] using hf
    simp [State.call, State.nack, hc, hf]
  | _ => exact absurd trivial hf

theorem exit_cases (message : IncomingMessage) {context : ProcessContext} {raised : Bool}
    (hc : s.channelClosed = false) :
    (∃ frame, context.exit message s raised = .ok (some frame) ∧ frame.Supported message) ∨
    (context.exit message s raised = .ok none ∧ s.processed = true) := by
  unfold ProcessContext.exit
  split
  · split
    · exact Or.inl ⟨_, rfl, trivial⟩
    · rename_i h
      rw [not_or] at h
      exact Or.inr ⟨rfl, by simpa using h.2⟩
  · split
    · simp only [hc, Bool.false_eq_true, ↓reduceIte]
      split
      · exact Or.inl ⟨_, rfl, trivial⟩
      · exact Or.inl ⟨_, rfl, trivial⟩
    · rename_i h
      rw [not_or] at h
      exact Or.inr ⟨rfl, by simpa using h.2⟩

theorem not_sent_raised {exc : Exc} : ¬ (Call.mk frame (.raised exc)).Sent := by
  rintro (h | h) <;> cases h

theorem Inv.start_raised (h : Inv s) {exc : Exc} : Inv (s.start frame (.raised exc)) := by
  constructor
  · exact h.channel
  · intro c hc hsent
    rcases List.mem_append.mp hc with hc | hc
    · exact h.sent c hc hsent
    · obtain rfl := List.mem_singleton.mp hc
      exact absurd hsent not_sent_raised
  · intro hne
    rcases h.frames hne with hp | ⟨c, hc, hs⟩
    · exact Or.inl hp
    · exact Or.inr ⟨c, List.mem_append_left _ hc, hs⟩

theorem SettledOnce.start_raised (h : SettledOnce s) :
    SettledOnce (s.start frame alreadyProcessed) := by
  constructor
  · exact h.frames
  · intro i j c d hc hd hcs hds
    rcases Members.of_append hc with hc | ⟨-, rfl⟩
    · rcases Members.of_append hd with hd | ⟨-, rfl⟩
      · exact h.sender i j c d hc hd hcs hds
      · exact absurd hds not_sent_raised
    · exact absurd hcs not_sent_raised
  · intro c hc hn
    rcases List.mem_append.mp hc with hc | hc
    · exact h.others c hc hn
    · obtain rfl := List.mem_singleton.mp hc
      rfl

theorem Inv.start_sending (h : Inv s) :
    Inv (State.start { s with frames := s.frames ++ [frame] } frame .sending) := by
  constructor
  · exact h.channel
  · intro c hc _
    exact List.append_ne_nil_of_right_ne_nil _ (List.cons_ne_nil _ _)
  · intro _
    exact Or.inr ⟨_, List.mem_append_right _ (List.mem_singleton_self _), rfl⟩

/-- No frame is sent for a message that is neither processed nor being settled. -/
theorem Inv.unsent (h : Inv s) (hp : s.processed = false) (hq : Quiet s) : s.frames = [] := by
  by_contra hne
  rcases h.frames hne with hp' | ⟨c, hc, hs⟩
  · rw [hp] at hp'
    cases hp'
  · exact hq c hc hs

theorem start_sending_iff (hi : Inv s) (h : SettledOnce s) (hp : s.processed = false) :
    SettledOnce (State.start { s with frames := s.frames ++ [frame] } frame .sending) ↔
      Quiet s := by
  constructor
  · intro ht c hc hs
    have hne : s.frames ≠ [] := hi.sent c hc (Or.inl hs)
    have hpos : 0 < s.frames.length := List.length_pos_iff.mpr hne
    have hle : (s.frames ++ [frame]).length ≤ 1 := ht.frames
    rw [List.length_append, List.length_singleton] at hle
    omega
  · intro hq
    have hempty : s.frames = [] := hi.unsent hp hq
    have hunsent : ∀ c ∈ s.calls, ¬ c.Sent := fun c hc hs => hi.sent c hc hs hempty
    constructor
    · rw [State.start, hempty]
      exact Nat.le_refl 1
    · intro i j c d hc hd hcs hds
      rcases Members.of_append hc with hc | ⟨hi, -⟩
      · exact absurd hcs (hunsent c (List.mem_of_getElem? hc))
      · rcases Members.of_append hd with hd | ⟨hj, -⟩
        · exact absurd hds (hunsent d (List.mem_of_getElem? hd))
        · exact hi.trans hj.symm
    · intro c hc hn
      rcases List.mem_append.mp hc with hc | hc
      · exact h.others c hc hn
      · obtain rfl := List.mem_singleton.mp hc
        exact absurd (Or.inl rfl) hn

theorem Inv.sent_step (h : Inv s) (hc : s.calls[i]? = some ⟨frame, .sending⟩) :
    Inv (State.setPc { s with processed := true } i frame .returned) := by
  constructor
  · exact h.channel
  · intro d hd hs
    rcases List.mem_or_eq_of_mem_set hd with hd | rfl
    · exact h.sent d hd hs
    · exact h.sent _ (List.mem_of_getElem? hc) (Or.inl rfl)
  · exact fun _ => Or.inl rfl

theorem SettledOnce.sent_step (h : SettledOnce s) (hc : s.calls[i]? = some ⟨frame, .sending⟩) :
    SettledOnce (State.setPc { s with processed := true } i frame .returned) := by
  -- the call that returns was the sender already
  have hold (j : ℕ) (d : Call) (hd : (s.calls.set i ⟨frame, .returned⟩)[j]? = some d)
      (hs : d.Sent) : ∃ d', s.calls[j]? = some d' ∧ d'.Sent := by
    rcases Members.of_set hd with ⟨rfl, rfl⟩ | ⟨-, hd⟩
    · exact ⟨_, hc, Or.inl rfl⟩
    · exact ⟨d, hd, hs⟩
  constructor
  · exact h.frames
  · intro j k c d hj hk hcs hds
    obtain ⟨c', hj, hcs⟩ := hold j c hj hcs
    obtain ⟨d', hk, hds⟩ := hold k d hk hds
    exact h.sender j k c' d' hj hk hcs hds
  · intro d hd hn
    rcases List.mem_or_eq_of_mem_set hd with hd | rfl
    · exact h.others d hd hn
    · exact absurd (Or.inr rfl) hn

section Settlement

variable (hack : message.noAck = false) (htag : message.deliveryTag.getD 0 ≠ 0)

include hack htag

theorem Inv.call (h : Inv s) : Inv (s.call message frame) := by
  by_cases hf : frame.Supported message
  · obtain ⟨text, he⟩ := call_settle h.channel hf
    rw [he]
    cases hp : s.processed with
    | true =>
      rw [settle_processed hack hp]
      exact h.start_raised
    | false =>
      rw [settle_sending hack htag h.channel hp]
      exact h.start_sending
  · rw [call_unsupported h.channel hf]
    exact h.start_raised

/-- The first call sends its frame, and a call during its await sends another one. -/
theorem call_settledOnce_iff (hi : Inv s) (h : SettledOnce s) :
    SettledOnce (s.call message frame) ↔
      frame.Supported message ∧ (s.processed = false → Quiet s) := by
  by_cases hf : frame.Supported message
  · obtain ⟨text, he⟩ := call_settle hi.channel hf
    rw [he, and_iff_right hf]
    cases hp : s.processed with
    | true =>
      rw [settle_processed hack hp]
      exact iff_of_true h.start_raised nofun
    | false =>
      rw [settle_sending hack htag hi.channel hp, start_sending_iff hi h hp]
      exact ⟨fun hq _ => hq, fun hq => hq rfl⟩
  · rw [call_unsupported hi.channel hf]
    refine iff_of_false (fun ht => ?_) fun hn => hf hn.1
    have hm : (⟨frame, .raised (.runtimeError "Method not supported on server")⟩ : Call) ∈
        s.calls ++ [⟨frame, .raised (.runtimeError "Method not supported on server")⟩] :=
      List.mem_append_right _ (List.mem_singleton_self _)
    have hother := ht.others _ hm not_sent_raised
    cases hother

theorem inv_step (hu : a.Undisturbed) (h : Inv s) (hs : step message s a = some t) : Inv t := by
  cases a with
  | call frame =>
    obtain rfl := Option.some.inj hs
    exact h.call hack htag
  | exit context raised =>
    rcases exit_cases message h.channel with ⟨frame, he, -⟩ | ⟨he, -⟩
    · rw [step, he] at hs
      obtain rfl := Option.some.inj hs
      exact h.call hack htag
    · rw [step, he] at hs
      obtain rfl := Option.some.inj hs
      exact h
  | sent i =>
    simp only [step] at hs
    split at hs
    · rename_i frame hc
      obtain rfl := Option.some.inj hs
      exact h.sent_step hc
    · cases hs
  | failed i => exact hu.elim
  | channelClosed => exact hu.elim

theorem settledOnce_step_iff (hu : a.Undisturbed) (hi : Inv s) (h : SettledOnce s)
    (hs : step message s a = some t) : SettledOnce t ↔ Alone message s a := by
  cases a with
  | call frame =>
    obtain rfl := Option.some.inj hs
    exact call_settledOnce_iff hack htag hi h
  | exit context raised =>
    rcases exit_cases message hi.channel with ⟨frame, he, hf⟩ | ⟨he, hp⟩
    · rw [step, he] at hs
      obtain rfl := Option.some.inj hs
      rw [call_settledOnce_iff hack htag hi h, and_iff_right hf]
      rfl
    · rw [step, he] at hs
      obtain rfl := Option.some.inj hs
      refine iff_of_true h fun hn => ?_
      rw [hp] at hn
      cases hn
  | sent i =>
    simp only [step] at hs
    split at hs
    · rename_i frame hc
      obtain rfl := Option.some.inj hs
      exact iff_of_true (h.sent_step hc) trivial
    · cases hs
  | failed i => exact hu.elim
  | channelClosed => exact hu.elim

end Settlement

theorem fresh_inv : Inv (fresh message) := by
  constructor
  · rfl
  · rintro c hc
    cases hc
  · intro hn
    exact absurd rfl hn

theorem fresh_settledOnce : SettledOnce (fresh message) := by
  constructor
  · exact Nat.zero_le 1
  · rintro i j c d hc
    cases hc
  · rintro c hc
    cases hc

/-- A message is settled once exactly as long as nothing else settles it while its frame is sent,
and `nack` is supported where it is called. -/
theorem settled_once_iff {as : List Action} (hack : message.noAck = false)
    (htag : message.deliveryTag.getD 0 ≠ 0) (has : ∀ a ∈ as, a.Undisturbed) :
    Transition.Throughout (step message) SettledOnce (fresh message) as ↔
      Transition.EachStep (step message) (Alone message) (fresh message) as :=
  Transition.throughout_iff_eachStep_of
    (fun _ _ _ hu hi _ hs _ => inv_step hack htag hu hi hs)
    (fun _ _ _ hu hi h hs => settledOnce_step_iff hack htag hu hi h hs) has fresh_inv
    fresh_settledOnce

def delivered : IncomingMessage := ⟨false, some 1, false, true⟩

/-- The message is acknowledged, and the exit of its `process()` block fails. -/
theorem settled_in_turn : Transition.Throughout (step delivered) SettledOnce (fresh delivered)
    [.call (.ack false), .sent 0, .exit ⟨false, false, false⟩ true] := by
  apply (settled_once_iff rfl (by decide) (by decide)).mpr
  intro t ht
  obtain rfl := Option.some.inj ht
  refine ⟨⟨trivial, fun _ c hc => by cases hc⟩, ?_⟩
  intro t ht
  obtain rfl := Option.some.inj ht
  refine ⟨trivial, ?_⟩
  intro t ht
  obtain rfl := Option.some.inj ht
  exact ⟨nofun, trivial⟩

/-- Two tasks acknowledge the message; the second one starts while the first frame is sent. -/
def twoAcks : List Action := [.call (.ack false), .call (.ack false), .sent 0, .sent 1]

theorem acked_twice : ∃ s, Transition.Run (step delivered) (fun _ a => a.Undisturbed)
    (fresh delivered) twoAcks s ∧ s.frames = [.ack false, .ack false] ∧
    s.calls = [⟨.ack false, .returned⟩, ⟨.ack false, .returned⟩] ∧ ¬ SettledOnce s :=
  ⟨_, Transition.run_of_checked rfl, rfl, rfl, fun h => absurd h.frames (by decide)⟩

end AioPika.Message
